import Knowledge.Evidence.Lanes
import Knowledge.Lib.Segments

/-!
Stripping in `crates/evidence_store/src/fts_stopwords.rs`, and the bigrams of
`crates/evidence_store/src/bigram.rs`. A body and a query are stripped each on its own: what a
quote of a body asks for, against what the body has.
-/

set_option autoImplicit false

namespace Knowledge.Retrieval
open Knowledge.Segments

def allRecallLaneStopwords : List String :=
  ["です", "ます", "の", "は", "が", "を", "に", "へ", "と", "で", "や", "も", "か", "ね", "よ", "な", "だ", "的",
   "了", "在", "是", "和", "也", "就", "都", "而", "及", "与", "或", "之", "และ", "หรือ", "ที่", "ใน",
   "บน", "ของ", "เป็น", "จะ", "แล้ว", "ནི", "དང", "ལ", "ཡིན", "རེད", "ཡོད", "མེད", "និង", "នៅ",
   "ជា", "သည်", "နှင့်", "တွင်", "မှာ", "ကို", "က", "မှ", "ໃນ", "ຂອງ", "ແລະ", "ຫຼື", "ເປັນ"]

def stopwordPieces (text : List Char) : List (Piece Char) :=
  pieces Char.utf8Size (allRecallLaneStopwords.map String.toList) text

def stripRecallLaneStopwordsCounted (text : String) : String × Nat :=
  let anyMatch := text.toList.tails.any fun probe =>
    allRecallLaneStopwords.any fun sw => sw.toList.isPrefixOf probe
  if ¬anyMatch then (text, 0)
  else
    let matched := stopwordPieces text.toList
    (String.ofList (written ' ' matched), matched.countP fun
      | .word _ => true
      | .letter _ => false)

def stripRecallLaneStopwords (text : String) : String := (stripRecallLaneStopwordsCounted text).1

def containsCjkOrThai (text : String) : Bool := text.toList.any isCjkOrThaiCodepoint

def cjkBigrams (text : String) : List String :=
  (neighbours (text.toList.filter isCjkOrThaiCodepoint)).map fun e => String.ofList [e.1, e.2]

def computeCjkBigrams (text : String) : String :=
  if (text.toList.filter isCjkOrThaiCodepoint).length < 2 then ""
  else String.intercalate " " (cjkBigrams text)

def indexFts (text : String) : List (Lane × String) :=
  if containsCjkOrThai text then
    let stripped := stripRecallLaneStopwords text
    let bigrams := computeCjkBigrams stripped
    [(.unicode61, text), (.cjkTrigram, stripped)] ++
      if bigrams.isEmpty then [] else [(.bigram, bigrams)]
  else [(.unicode61, text)]

/-- FTS5's `unicode61`: a token is a run of letters and digits, each folded. Other characters end
it, blanks and the marks of the routed scripts among them. -/
structure Unicode61 where
  tokenChar : Char → Bool
  fold : Char → Char
  blank : tokenChar ' ' = false

def Unicode61.tokens (u : Unicode61) (text : String) : List (List Char) :=
  ((text.toList.splitOnP (!u.tokenChar ·)).filter (!·.isEmpty)).map (List.map u.fold)

/-- The row of the body matches every phrase that the bigram lane asks for: the tokens of the phrase
stand side by side in the row. A phrase without a token matches no row. -/
def Recalled (u : Unicode61) (body query : String) : Prop :=
  ∃ content, (.bigram, content) ∈ indexFts body ∧
    ∀ term ∈ cjkBigrams (stripRecallLaneStopwords query),
      u.tokens term ≠ [] ∧ u.tokens term <:+: u.tokens content

/-- No stopword that is stripped from the body reaches across an end of the quote. -/
def WholeQuote (before quote after : String) : Prop :=
  Whole Char.utf8Size (allRecallLaneStopwords.map String.toList) before.toList quote.toList
    after.toList

/-- The bigrams of a quote whose codepoints are kept side by side in the quote, and not at their
places in the body. -/
def cutBigrams (before quote after : String) : List String :=
  (disturbed Char.utf8Size (allRecallLaneStopwords.map String.toList) isCjkOrThaiCodepoint
    before.toList quote.toList after.toList).map fun e => String.ofList [e.1, e.2]

section

theorem keptShort_iff {α : Type} {l : List α} : l.length < 2 ↔ neighbours l = [] := by
  rcases l with _ | ⟨a, _ | ⟨b, l⟩⟩
  · simp [neighbours]
  · simp [neighbours]
  · simp [neighbours]

theorem computeCjkBigrams_eq (text : String) :
    computeCjkBigrams text = String.intercalate " " (cjkBigrams text) := by
  rw [computeCjkBigrams]
  split
  · rename_i hshort
    rw [cjkBigrams, keptShort_iff.mp hshort]
    rfl
  · rfl

theorem stopwords_nonempty : [] ∉ allRecallLaneStopwords.map String.toList := by decide +kernel

theorem strip_toList (text : String) :
    (stripRecallLaneStopwords text).toList = written ' ' (stopwordPieces text.toList) := by
  rw [stripRecallLaneStopwords, stripRecallLaneStopwordsCounted]
  by_cases hmatch : text.toList.tails.any fun probe =>
      allRecallLaneStopwords.any fun sw => sw.toList.isPrefixOf probe
  · simp [hmatch]
  · have hnone : ∀ t, t <:+ text.toList → ∀ w ∈ allRecallLaneStopwords.map String.toList,
        ¬w <+: t := by
      simpa using hmatch
    simp [hmatch, stopwordPieces, pieces_letters hnone, written, Function.comp_def]

def keptOf (text : String) : List Char :=
  kept Char.utf8Size (allRecallLaneStopwords.map String.toList) isCjkOrThaiCodepoint text.toList

theorem cjkBigrams_strip (text : String) : cjkBigrams (stripRecallLaneStopwords text) =
    (neighbours (keptOf text)).map fun e => String.ofList [e.1, e.2] := by
  rw [cjkBigrams, strip_toList, filter_written (by decide), keptOf, kept, stopwordPieces]

theorem bigram_injective : Function.Injective fun e : Char × Char => String.ofList [e.1, e.2] := by
  intro e f h
  have hchars : [e.1, e.2] = [f.1, f.2] := String.ofList_injective h
  simpa [Prod.ext_iff] using hchars

theorem cjk_of_mem_bigram {text term : String} {c : Char}
    (h : term ∈ cjkBigrams (stripRecallLaneStopwords text)) (hc : c ∈ term.toList) :
    c ∈ text.toList ∧ isCjkOrThaiCodepoint c = true := by
  rw [cjkBigrams_strip] at h
  obtain ⟨e, he, rfl⟩ := List.mem_map.mp h
  have hkept : c ∈ keptOf text := by
    have hpair := List.of_mem_zip he
    rw [String.toList_ofList] at hc
    simp only [List.mem_cons, List.not_mem_nil, or_false] at hc
    obtain rfl | rfl := hc
    · exact hpair.1
    · exact List.mem_of_mem_tail hpair.2
  exact mem_kept stopwords_nonempty hkept

theorem letters_ne_nil {text term : String} (h : term ∈ cjkBigrams text) : term.toList ≠ [] := by
  obtain ⟨e, -, rfl⟩ := List.mem_map.mp h
  simp

theorem computeCjkBigrams_eq_empty {text : String} :
    computeCjkBigrams text = "" ↔ cjkBigrams text = [] := by
  rw [computeCjkBigrams_eq]
  constructor
  · intro h
    cases hterms : cjkBigrams text with
    | nil => rfl
    | cons term terms =>
      have hletters : term.toList ≠ [] := letters_ne_nil (hterms ▸ List.mem_cons_self)
      rw [hterms] at h
      have hnil : term.toList = [] := by
        cases terms <;> simp_all [String.intercalate_cons_cons]
      exact absurd hnil hletters
  · intro h
    rw [h]
    rfl

theorem bigram_indexed_iff {body content : String} :
    (.bigram, content) ∈ indexFts body ↔
      content = computeCjkBigrams (stripRecallLaneStopwords body) ∧
        cjkBigrams (stripRecallLaneStopwords body) ≠ [] := by
  have hempty : (computeCjkBigrams (stripRecallLaneStopwords body)).isEmpty = true ↔
      cjkBigrams (stripRecallLaneStopwords body) = [] :=
    String.isEmpty_iff.trans computeCjkBigrams_eq_empty
  rw [indexFts]
  cases hcjk : containsCjkOrThai body with
  | true =>
    by_cases hsome : cjkBigrams (stripRecallLaneStopwords body) = []
    · simp [hempty.mpr hsome, hsome]
    · simp [mt hempty.mp hsome, hsome]
  | false =>
    have hnone : cjkBigrams (stripRecallLaneStopwords body) = [] := by
      refine List.eq_nil_iff_forall_not_mem.mpr fun term hterm => ?_
      obtain ⟨c, hc⟩ := List.exists_mem_of_ne_nil _ (letters_ne_nil hterm)
      obtain ⟨hbody, hroute⟩ := cjk_of_mem_bigram hterm hc
      rw [containsCjkOrThai, List.any_eq_false] at hcjk
      exact hcjk c hbody hroute
    simp [hnone]

theorem Unicode61.tokens_append_blank (u : Unicode61) (a b : String) :
    u.tokens (a ++ (" " ++ b)) = u.tokens a ++ u.tokens b := by
  have hsplit : (a ++ (" " ++ b)).toList.splitOnP (!u.tokenChar ·) =
      a.toList.splitOnP (!u.tokenChar ·) ++ b.toList.splitOnP (!u.tokenChar ·) := by
    have hblank : (!u.tokenChar ' ') = true := by simp [u.blank]
    rw [String.toList_append, String.toList_append]
    exact List.splitOnP_append_cons _ _ hblank
  rw [tokens, hsplit, List.filter_append, List.map_append, tokens, tokens]

theorem Unicode61.tokens_intercalate (u : Unicode61) (terms : List String) :
    u.tokens (String.intercalate " " terms) = terms.flatMap u.tokens := by
  induction terms with
  | nil => rfl
  | cons term terms ih =>
    cases terms with
    | nil => simp [String.intercalate_singleton]
    | cons next rest =>
      rw [String.intercalate_cons_cons, String.append_assoc, u.tokens_append_blank, ih]
      rfl

theorem Unicode61.tokens_bigram (u : Unicode61) (e : Char × Char) :
    u.tokens (String.ofList [e.1, e.2]) ≠ [] ↔
      ∃ c ∈ (String.ofList [e.1, e.2]).toList, u.tokenChar c = true := by
  cases hfirst : u.tokenChar e.1 <;> cases hsecond : u.tokenChar e.2 <;>
    simp [tokens, List.splitOnP_cons_eq_if_modifyHead, hfirst, hsecond]

/-- Of a quote that still has two routed characters, the body has every bigram and its row is found
just in case the body has those that cutting the quote out has made, and no bigram is of two marks.
Cutting makes none where no stopword reaches across an end of the quote. -/
theorem literal_quote_recalled_iff (u : Unicode61) (before quote after : String)
    (hrouted : 2 ≤ ((stripRecallLaneStopwords quote).toList.filter isCjkOrThaiCodepoint).length) :
    (cjkBigrams (stripRecallLaneStopwords quote) ⊆
          cjkBigrams (stripRecallLaneStopwords (before ++ quote ++ after)) ∧
        Recalled u (before ++ quote ++ after) quote ↔
      cutBigrams before quote after ⊆
          cjkBigrams (stripRecallLaneStopwords (before ++ quote ++ after)) ∧
        ∀ term ∈ cjkBigrams (stripRecallLaneStopwords quote),
          ∃ c ∈ term.toList, u.tokenChar c = true) ∧
    (WholeQuote before quote after → cutBigrams before quote after = []) := by
  have hsome : cjkBigrams (stripRecallLaneStopwords quote) ≠ [] := by
    rw [cjkBigrams, Ne, List.map_eq_nil_iff, ← keptShort_iff]
    exact hrouted.not_gt
  have hsubset : cjkBigrams (stripRecallLaneStopwords quote) ⊆
        cjkBigrams (stripRecallLaneStopwords (before ++ quote ++ after)) ↔
      cutBigrams before quote after ⊆
        cjkBigrams (stripRecallLaneStopwords (before ++ quote ++ after)) := by
    rw [cjkBigrams_strip, cjkBigrams_strip, cutBigrams, List.map_subset_iff _ bigram_injective,
      List.map_subset_iff _ bigram_injective]
    simp only [keptOf, String.toList_append]
    exact neighbours_subset_iff
  have htokens : ∀ term ∈ cjkBigrams (stripRecallLaneStopwords quote),
      u.tokens term ≠ [] ↔ ∃ c ∈ term.toList, u.tokenChar c = true := by
    intro term hterm
    obtain ⟨e, -, rfl⟩ := List.mem_map.mp hterm
    exact u.tokens_bigram e
  rw [hsubset]
  refine ⟨and_congr_right fun hcut => ⟨?_, ?_⟩, ?_⟩
  · rintro ⟨content, -, hterms⟩ term hterm
    exact (htokens term hterm).mp (hterms term hterm).1
  · intro hletters
    have hbody := hsubset.mpr hcut
    obtain ⟨first, hfirst⟩ := List.exists_mem_of_ne_nil _ hsome
    refine ⟨_, bigram_indexed_iff.mpr ⟨rfl, List.ne_nil_of_mem (hbody hfirst)⟩, ?_⟩
    intro term hterm
    refine ⟨(htokens term hterm).mpr (hletters term hterm), ?_⟩
    obtain ⟨init, rest, hterms⟩ := List.append_of_mem (hbody hterm)
    rw [computeCjkBigrams_eq, u.tokens_intercalate, hterms, List.flatMap_append, List.flatMap_cons]
    exact ⟨_, _, List.append_assoc _ _ _⟩
  · intro hwhole
    rw [cutBigrams, disturbed_of_whole Char.utf8Size_pos stopwords_nonempty hwhole]
    rfl

end

/-- `unicode61` on the letters of the routed scripts and the marks of Thai. -/
def sampleUnicode61 : Unicode61 where
  tokenChar c := isCjkOrThaiCodepoint c && !("ัิีึืฺุู็่้๊๋์ํ๎".toList.contains c)
  fold := id
  blank := by decide

theorem literal_quote_recalled_sample :
    (cjkBigrams (stripRecallLaneStopwords "天気予報") ⊆
        cjkBigrams (stripRecallLaneStopwords ("今日の" ++ "天気予報" ++ "です")) ∧
      Recalled sampleUnicode61 ("今日の" ++ "天気予報" ++ "です") "天気予報") ∧
    ¬(cjkBigrams (stripRecallLaneStopwords "นี้") ⊆
        cjkBigrams (stripRecallLaneStopwords ("วัน" ++ "นี้" ++ "")) ∧
      Recalled sampleUnicode61 ("วัน" ++ "นี้" ++ "") "นี้") := by
  have hletters : (cjkBigrams (stripRecallLaneStopwords "天気予報")).all
      (·.toList.any sampleUnicode61.tokenChar) = true := by decide +kernel
  have hmarks : ¬(cjkBigrams (stripRecallLaneStopwords "นี้")).all
      (·.toList.any sampleUnicode61.tokenChar) = true := by decide +kernel
  constructor
  · refine (literal_quote_recalled_iff _ _ _ _ ?_).1.mpr ⟨?_, by simpa using hletters⟩
    all_goals decide +kernel
  · intro h
    refine hmarks ?_
    simpa using ((literal_quote_recalled_iff _ _ _ _ (by decide +kernel)).1.mp h).2

/-- The copula is stripped from where the body says `で` and then `する`, so the word is lost that
the query asks for. -/
theorem word_across_cut_lost : "東京でする" = "東京で" ++ "する" ++ "" ∧
    ¬cjkBigrams (stripRecallLaneStopwords "する") ⊆
      cjkBigrams (stripRecallLaneStopwords "東京でする") ∧
    ¬Recalled sampleUnicode61 "東京でする" "する" := by
  refine ⟨by decide +kernel, by decide +kernel, ?_⟩
  rintro ⟨content, hcontent, hterms⟩
  obtain ⟨rfl, -⟩ := bigram_indexed_iff.mp hcontent
  have hinfix := (hterms "する" (by decide +kernel)).2
  revert hinfix
  decide +kernel

end Knowledge.Retrieval
