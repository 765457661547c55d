import Knowledge.Inference.Salvage

/-!
`crates/synthesis_pipeline/src/quality.rs`: the score of a synthesised bundle and the policy that
retries a poor one. Lower case and what is alphanumeric are parameters.
-/

set_option autoImplicit false

namespace Knowledge.Synthesis
open Knowledge.Inference (Text SummaryBundle synthExemplarTokens trim)

structure Lang where
  toLowercase : Text → Text
  isAlphanumeric : Char → Bool

def containsText (text part : Text) : Bool := text.tails.any part.isPrefixOf

def metaCommentaryOpeners : List Text :=
  ["the session".toList, "the following".toList, "this summary".toList, "this session".toList,
    "in summary".toList, "this recap".toList, "the user".toList, "here is".toList,
    "below is".toList]

def minRecapChars : Nat := 40

def minSalientTermsForCoverage : Nat := 4

def minSalientTermLen : Nat := 4

def minCjkBigramLen : Nat := 2

def isCjkChar (c : Char) : Bool :=
  let n := c.toNat
  (0x3040 ≤ n && n ≤ 0x309f) || (0x30a0 ≤ n && n ≤ 0x30ff) || (0x31f0 ≤ n && n ≤ 0x31ff) ||
    (0xff65 ≤ n && n ≤ 0xff9f) || (0x2e80 ≤ n && n ≤ 0x2eff) || (0x3400 ≤ n && n ≤ 0x4dbf) ||
    (0x4e00 ≤ n && n ≤ 0x9fff) || (0xac00 ≤ n && n ≤ 0xd7af) || (0xf900 ≤ n && n ≤ 0xfaff) ||
    (0x20000 ≤ n && n ≤ 0x2a6df) || (0x2a700 ≤ n && n ≤ 0x2ee5f) || (0x30000 ≤ n && n ≤ 0x33479)

def flushRun (run : Text) : List Text :=
  if minCjkBigramLen ≤ run.length then List.zipWith (fun a b => [a, b]) run run.tail else []

def extractCjkBigrams (text : Text) : List Text :=
  let scanned := text.foldl (fun (bigrams, run) c =>
    if isCjkChar c then (bigrams, run ++ [c]) else (bigrams ++ flushRun run, [])) (([], []) :
      List Text × Text)
  scanned.1 ++ flushRun scanned.2

/-- What `seen.insert` lets through. -/
def pushTerm (terms : List Text) (term : Text) : List Text :=
  if terms.contains term then terms else terms ++ [term]

def salientTermsFromTexts (lang : Lang) (texts : List Text) : List Text :=
  texts.foldl (fun terms text =>
    let words := ((text.splitOnP fun c => !lang.isAlphanumeric c).filter fun raw =>
      minSalientTermLen ≤ raw.length).map lang.toLowercase
    (extractCjkBigrams text).foldl pushTerm (words.foldl pushTerm terms)) []

def containsExemplarToken (text : Text) : Bool :=
  synthExemplarTokens.any (containsText text)

def entries (bundle : SummaryBundle) : List Text :=
  bundle.decisions ++ bundle.openQuestions ++ bundle.activeTasks

def bundleHasExemplarToken (bundle : SummaryBundle) : Bool :=
  containsExemplarToken bundle.recap || (entries bundle).any containsExemplarToken

def stripExemplarLeak (bundle : SummaryBundle) : SummaryBundle × Nat :=
  let kept : SummaryBundle := { bundle with
    decisions := bundle.decisions.filter (!containsExemplarToken ·)
    openQuestions := bundle.openQuestions.filter (!containsExemplarToken ·)
    activeTasks := bundle.activeTasks.filter (!containsExemplarToken ·) }
  (kept, (entries bundle).length-(entries kept).length)

def ungroundedEntryCount (lang : Lang) (bundle : SummaryBundle) (salient : List Text) : Nat :=
  if salient.isEmpty then 0
  else (entries bundle).countP fun entry =>
    let terms := salientTermsFromTexts lang [entry]
    !terms.isEmpty && !terms.any salient.contains

structure QualityReport where
  score : Int
  recapChars : Nat
  metaCommentary : Bool
  tooShort : Bool
  lowCoverage : Bool
  exemplarLeak : Bool
  ungroundedEntries : Nat

def QualityReport.isLowQuality (report : QualityReport) : Bool :=
  report.metaCommentary || report.tooShort || report.lowCoverage || report.exemplarLeak

def u32Max : Nat := 4294967295

/-- Whether less than 40 of 100 terms are covered: the quotient of two such numbers is too far
from that bound for its rounding to matter. -/
def belowMinTermCoverage (covered total : Nat) : Bool :=
  total ≠ 0 && 5*min covered u32Max < 2*min total u32Max

def scoreBundleWithTerms (lang : Lang) (bundle : SummaryBundle) (salient : List Text) :
    QualityReport :=
  let recap := trim bundle.recap
  let recapLower := lang.toLowercase recap
  let recapChars := recap.length
  let metaCommentary := metaCommentaryOpeners.any fun opener => opener.isPrefixOf recapLower
  let tooShort : Bool := recapChars < minRecapChars
  let exemplarLeak := bundleHasExemplarToken bundle
  let ungroundedEntries := ungroundedEntryCount lang bundle salient
  let covered := salient.countP (containsText recapLower)
  let coverageActive : Bool := minSalientTermsForCoverage ≤ salient.length
  let lowCoverage := coverageActive && belowMinTermCoverage covered salient.length
  let structured := bundle.decisions.length+bundle.openQuestions.length+bundle.activeTasks.length
  let score : Int := (min recapChars 280 : Nat)+(min structured 1000*8 : Nat)
    +(min covered 1000*12 : Nat)
  let score := if metaCommentary then score-500 else score
  let score := if exemplarLeak then score-500 else score
  let score := if tooShort then score-200 else score
  let score := if lowCoverage then score-50 else score
  let score := score-(min ungroundedEntries 1000*20 : Nat)
  ⟨score, recapChars, metaCommentary, tooShort, lowCoverage, exemplarLeak, ungroundedEntries⟩

def minNPredict : Nat := 640

def maxNPredict : Nat := 1024

def retryNPredict : Nat := 1536

def tokensPerRow : Nat := 48

def retryBudgetBonus : Nat := 384

def adaptiveBudget (rowCount : Nat) : Nat :=
  let rows := min rowCount u32Max
  let scaled := min (minNPredict+min (rows*tokensPerRow) u32Max) u32Max
  max minNPredict (min scaled maxNPredict)

def retryBudget (firstBudget : Nat) : Nat :=
  min (min (firstBudget+retryBudgetBonus) u32Max) retryNPredict

def retrySuffix : Text :=
  ("\n\nSecond attempt — output only facts, no preface. Cover ALL messages, not just the first. " ++
    "Include every identifier, name, amount, and date.").toList

structure Attempt where
  bundle : SummaryBundle
  truncated : Bool

structure VerifiedSynthesis where
  bundle : SummaryBundle
  recapChars : Nat
  lowQuality : Bool
  retried : Bool
  retryFailed : Bool
  truncatedAttempts : Nat
  exemplarLeaksStripped : Nat

def u8Max : Nat := 255

/-- The closure that dispatches and parses, with the state it keeps from one call to the next. -/
abbrev Run (σ ε : Type) := σ → Text → Nat → Except ε Attempt × σ

def verifyAndRetry {σ ε : Type} (lang : Lang) (basePrompt : Text) (rowCount : Nat)
    (salient : List Text) (run : Run σ ε) (s : σ) : Except ε VerifiedSynthesis :=
  let firstBudget := adaptiveBudget rowCount
  match run s basePrompt firstBudget with
  | (.error e, _) => .error e
  | (.ok first, s) =>
    let (firstBundle, firstStripped) := stripExemplarLeak first.bundle
    let exemplarLeaksStripped := min firstStripped u8Max
    let firstReport := scoreBundleWithTerms lang firstBundle salient
    if !firstReport.isLowQuality then
      .ok ⟨firstBundle, firstReport.recapChars, false, false, false, first.truncated.toNat,
        exemplarLeaksStripped⟩
    else
      match run s (basePrompt ++ retrySuffix) (retryBudget firstBudget) with
      | (.error _, _) =>
        .ok ⟨firstBundle, firstReport.recapChars, true, true, true, first.truncated.toNat,
          exemplarLeaksStripped⟩
      | (.ok second, _) =>
        let truncatedAttempts := first.truncated.toNat+second.truncated.toNat
        let (secondBundle, secondStripped) := stripExemplarLeak second.bundle
        let exemplarLeaksStripped := min (exemplarLeaksStripped+min secondStripped u8Max) u8Max
        let secondReport := scoreBundleWithTerms lang secondBundle salient
        if secondReport.score ≥ firstReport.score then
          .ok ⟨secondBundle, secondReport.recapChars, true, true, false, truncatedAttempts,
            exemplarLeaksStripped⟩
        else
          .ok ⟨firstBundle, firstReport.recapChars, true, true, false, truncatedAttempts,
            exemplarLeaksStripped⟩

theorem stripExemplarLeak_clean (bundle : SummaryBundle) {entry : Text}
    (h : entry ∈ entries (stripExemplarLeak bundle).1) : containsExemplarToken entry = false := by
  simp only [stripExemplarLeak, entries, List.mem_append, List.mem_filter, Bool.not_eq_true'] at h
  rcases h with (h | h) | h <;> exact h.2

/-- What a bundle earns: its recap, its entries and the terms it covers, less what it loses for
entries without ground. -/
def merits (lang : Lang) (bundle : SummaryBundle) (salient : List Text) : Int :=
  let recap := trim bundle.recap
  (min recap.length 280 : Nat)
    +8*(min (bundle.decisions.length+bundle.openQuestions.length+bundle.activeTasks.length) 1000 :
      Nat)
    +12*(min (salient.countP (containsText (lang.toLowercase recap))) 1000 : Nat)
    -20*(min (ungroundedEntryCount lang bundle salient) 1000 : Nat)

def QualityReport.charge (report : QualityReport) : Int :=
  (if report.metaCommentary then 500 else 0)+(if report.exemplarLeak then 500 else 0)
    +(if report.tooShort then 200 else 0)+(if report.lowCoverage then 50 else 0)

theorem score_eq (lang : Lang) (bundle : SummaryBundle) (salient : List Text) :
    (scoreBundleWithTerms lang bundle salient).score =
      merits lang bundle salient-(scoreBundleWithTerms lang bundle salient).charge := by
  unfold scoreBundleWithTerms merits QualityReport.charge
  dsimp only
  push_cast
  split <;> split <;> split <;> split <;> omega

theorem charge_clean {report : QualityReport} (h : report.isLowQuality = false) :
    report.charge = 0 := by
  simp only [QualityReport.isLowQuality, Bool.or_eq_false_iff] at h
  simp [QualityReport.charge, h]

section

variable {σ ε : Type} {lang : Lang} {basePrompt : Text} {rowCount : Nat} {salient : List Text}
  {run : Run σ ε} {s s₁ s₂ : σ}

theorem verifyAndRetry_cases (lang : Lang) (basePrompt : Text) (rowCount : Nat)
    (salient : List Text) (run : Run σ ε) (s : σ) :
    (∃ e s₁, run s basePrompt (adaptiveBudget rowCount) = (.error e, s₁) ∧
      verifyAndRetry lang basePrompt rowCount salient run s = .error e) ∨
    ∃ bundle v, verifyAndRetry lang basePrompt rowCount salient run s = .ok v ∧
      v.bundle = (stripExemplarLeak bundle).1 := by
  unfold verifyAndRetry
  dsimp only
  split
  · rename_i e s₁ hrun
    exact .inl ⟨e, s₁, hrun, rfl⟩
  · rename_i first s₁ hrun
    split
    · exact .inr ⟨first.bundle, _, rfl, rfl⟩
    · split
      · exact .inr ⟨first.bundle, _, rfl, rfl⟩
      · rename_i second s₂ hretry
        split
        · exact .inr ⟨second.bundle, _, rfl, rfl⟩
        · exact .inr ⟨first.bundle, _, rfl, rfl⟩

theorem verifyAndRetry_retried {first second : Attempt}
    (hfirst : run s basePrompt (adaptiveBudget rowCount) = (.ok first, s₁))
    (hsecond : run s₁ (basePrompt ++ retrySuffix) (retryBudget (adaptiveBudget rowCount)) =
      (.ok second, s₂))
    (hlow : (scoreBundleWithTerms lang (stripExemplarLeak first.bundle).1 salient).isLowQuality =
      true) :
    ∃ v, verifyAndRetry lang basePrompt rowCount salient run s = .ok v ∧ v.bundle =
      if (scoreBundleWithTerms lang (stripExemplarLeak second.bundle).1 salient).score ≥
        (scoreBundleWithTerms lang (stripExemplarLeak first.bundle).1 salient).score then
        (stripExemplarLeak second.bundle).1
      else (stripExemplarLeak first.bundle).1 := by
  simp only [verifyAndRetry, hfirst, hsecond, hlow, Bool.not_true, Bool.false_eq_true, if_false]
  split
  · exact ⟨_, rfl, rfl⟩
  · exact ⟨_, rfl, rfl⟩

end

/-- A kept bundle has no leaked entry and only a first attempt fails the call, but a clean retry
wins over a flagged first attempt only as far as the penalties outweigh what it earns less. -/
theorem clean_retry_kept_iff {σ ε : Type} (lang : Lang) (basePrompt : Text) (rowCount : Nat)
    (salient : List Text) (run : Run σ ε) (s : σ) :
    (∀ v, verifyAndRetry lang basePrompt rowCount salient run s = .ok v →
      ∀ entry ∈ entries v.bundle, containsExemplarToken entry = false) ∧
    (∀ e, verifyAndRetry lang basePrompt rowCount salient run s = .error e →
      ∃ s₁, run s basePrompt (adaptiveBudget rowCount) = (.error e, s₁)) ∧
    ∀ first second s₁ s₂, run s basePrompt (adaptiveBudget rowCount) = (.ok first, s₁) →
      run s₁ (basePrompt ++ retrySuffix) (retryBudget (adaptiveBudget rowCount)) =
        (.ok second, s₂) →
      let kept₁ := (stripExemplarLeak first.bundle).1
      let kept₂ := (stripExemplarLeak second.bundle).1
      let report₁ := scoreBundleWithTerms lang kept₁ salient
      (report₁.metaCommentary || report₁.exemplarLeak) = true →
      (scoreBundleWithTerms lang kept₂ salient).isLowQuality = false →
      ((∃ v, verifyAndRetry lang basePrompt rowCount salient run s = .ok v ∧ v.bundle = kept₂) ↔
        merits lang kept₁ salient ≤ merits lang kept₂ salient+report₁.charge) := by
  have hcases := verifyAndRetry_cases lang basePrompt rowCount salient run s
  refine ⟨?_, ?_, ?_⟩
  · intro v hv entry hentry
    obtain ⟨e, _, -, he⟩ | ⟨bundle, v', hv', hbundle⟩ := hcases
    · simp [hv] at he
    · obtain rfl : v = v' := Except.ok.inj (hv.symm.trans hv')
      exact stripExemplarLeak_clean bundle (hbundle ▸ hentry)
  · intro e he
    obtain ⟨e', s₁, hrun, he'⟩ | ⟨_, v, hv, -⟩ := hcases
    · obtain rfl : e = e' := Except.error.inj (he.symm.trans he')
      exact ⟨s₁, hrun⟩
    · simp [he] at hv
  · intro first second s₁ s₂ hfirst hsecond kept₁ kept₂ report₁ hflag hclean
    have hlow : report₁.isLowQuality = true := by
      simp only [Bool.or_eq_true] at hflag
      rcases hflag with h | h <;> simp [QualityReport.isLowQuality, h]
    -- the two bundles are not the same, as only one of them is flagged
    have hne : kept₁ ≠ kept₂ := by
      intro heq
      have hsame : report₁ = scoreBundleWithTerms lang kept₂ salient := by
        rw [← heq]
      rw [hsame, hclean] at hlow
      cases hlow
    have hscore : (scoreBundleWithTerms lang kept₂ salient).score ≥ report₁.score ↔
        merits lang kept₁ salient ≤ merits lang kept₂ salient+report₁.charge := by
      rw [score_eq, charge_clean hclean, show report₁.score = merits lang kept₁ salient
        -report₁.charge from score_eq lang kept₁ salient]
      omega
    obtain ⟨v, hv, hbundle⟩ := verifyAndRetry_retried hfirst hsecond hlow
    rw [← hscore]
    constructor
    · rintro ⟨v', hv', hkept⟩
      obtain rfl : v = v' := Except.ok.inj (hv.symm.trans hv')
      by_contra hless
      rw [hbundle, if_neg hless] at hkept
      exact hne hkept
    · intro hmore
      exact ⟨v, hv, by rw [hbundle, if_pos hmore]⟩

def asciiLang : Lang := ⟨List.map Char.toLower, Char.isAlphanum⟩

def answering (first second : SummaryBundle) : Run Bool Unit := fun again _ _ =>
  (.ok ⟨if again then second else first, false⟩, true)

def plainRecap : SummaryBundle := ⟨List.replicate 40 'y', [], [], []⟩

def commentary : SummaryBundle := ⟨"The session was long.".toList, [], [], []⟩

theorem clean_retry_kept_plain :
    ∃ v, verifyAndRetry asciiLang [] 3 [] (answering commentary plainRecap) false = .ok v ∧
      v.bundle = (stripExemplarLeak plainRecap).1 := by
  have h := (clean_retry_kept_iff asciiLang [] 3 [] (answering commentary plainRecap) false).2.2
    ⟨commentary, false⟩ ⟨plainRecap, false⟩ true true rfl rfl (by decide +kernel)
    (by decide +kernel)
  exact h.mpr (by decide +kernel)

def richCommentary : SummaryBundle :=
  ⟨"The session ".toList ++ List.replicate 300 'x', List.replicate 60 ['d'], [], []⟩

/-- It is worth 260 and the clean retry 40. -/
theorem clean_retry_outscored :
    (scoreBundleWithTerms asciiLang (stripExemplarLeak richCommentary).1 []).metaCommentary =
        true ∧
      (scoreBundleWithTerms asciiLang (stripExemplarLeak plainRecap).1 []).isLowQuality = false ∧
      (verifyAndRetry asciiLang [] 3 [] (answering richCommentary plainRecap) false).map
        VerifiedSynthesis.bundle = .ok richCommentary ∧
      richCommentary ≠ (stripExemplarLeak plainRecap).1 := by
  decide +kernel

end Knowledge.Synthesis