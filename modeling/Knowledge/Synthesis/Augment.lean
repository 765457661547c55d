import Knowledge.Synthesis.Quality

/-!
`augment_recap_with_missing_entities` of `crates/synthesis_pipeline/src/quality.rs`: the snippets
that are added to a recap for the terms it lacks. Positions in a string are byte positions of its
UTF-8; a `none` is a panic.
-/

set_option autoImplicit false

namespace Knowledge.Synthesis
open Knowledge.Inference (Text trim)

def byteLen : Text → Nat
  | [] => 0
  | c :: cs => c.utf8Size + byteLen cs

def findText (text part : Text) : Option Nat :=
  (text.tails.findIdx? part.isPrefixOf).map fun k => byteLen (text.take k)

def sliceTo : Text → Nat → Option Text
  | _, 0 => some []
  | [], _+1 => none
  | c :: cs, n+1 =>
    if c.utf8Size ≤ n+1 then (sliceTo cs (n+1-c.utf8Size)).map (c :: ·) else none

def maxAugmentTerms : Nat := 15

def augmentSnippetRadius : Nat := 60

def minAugmentTermLen : Nat := 5

def isArabicChar (c : Char) : Bool :=
  let n := c.toNat
  (0x0600 ≤ n && n ≤ 0x06ff) || (0x0750 ≤ n && n ≤ 0x077f) || (0x08a0 ≤ n && n ≤ 0x08ff)

def isThaiChar (c : Char) : Bool := 0x0e01 ≤ c.toNat && c.toNat ≤ 0x0e7f

inductive Script where
  | cjk
  | arabic
  | thai
  | latin
  deriving DecidableEq

def detectScript (text : Text) : Script :=
  let cjk := text.countP isCjkChar
  let arabic := text.countP fun c => !isCjkChar c && isArabicChar c
  let thai := text.countP fun c => !isCjkChar c && !isArabicChar c && isThaiChar c
  let latin := text.countP fun c =>
    !isCjkChar c && !isArabicChar c && !isThaiChar c && c.isAlpha
  if cjk > latin ∧ cjk > arabic ∧ cjk > thai then .cjk
  else if arabic > latin ∧ arabic > cjk ∧ arabic > thai then .arabic
  else if thai > latin ∧ thai > cjk ∧ thai > arabic then .thai
  else .latin

def dominantScript (bodies : List Text) : Script := detectScript bodies.flatten

def trimSeparators (text : Text) : Text :=
  (text.dropWhile fun c => c = '.' || c = '-' || c = '_').rdropWhile fun c =>
    c = '.' || c = '-' || c = '_'

def tryPushEntityTerm (lang : Lang) (current : Text) (terms : List Text) : List Text :=
  if current.isEmpty then terms
  else
    let trimmed := trimSeparators current
    let len := trimmed.length
    if len < 3 then terms
    else
      let hasDigit := trimmed.any Char.isDigit
      let hasSep := trimmed.contains '-' || trimmed.contains '.'
      if minAugmentTermLen ≤ len || hasDigit || hasSep then
        pushTerm terms (lang.toLowercase trimmed)
      else terms

def isTermChar (lang : Lang) (c : Char) : Bool :=
  lang.isAlphanumeric c || c = '-' || c = '.' || c = '_'

/-- What the loop over a text does with a character: the terms so far and the run it is in. -/
def scanChar (lang : Lang) (scanned : List Text × Text) (c : Char) : List Text × Text :=
  if isTermChar lang c then (scanned.1, scanned.2 ++ [c])
  else (tryPushEntityTerm lang scanned.2 scanned.1, [])

def scanTerms (lang : Lang) (terms : List Text) (text : Text) : List Text :=
  let scanned := text.foldl (scanChar lang) (terms, [])
  tryPushEntityTerm lang scanned.2 scanned.1

def termLe (a b : Text) : Bool :=
  if a.any Char.isDigit = b.any Char.isDigit then b.length ≤ a.length else a.any Char.isDigit

def entityTermsForAugmentation (lang : Lang) (texts : List Text) : List Text :=
  (texts.foldl (scanTerms lang) []).insertionSort (fun a b => termLe a b = true)

def extractSnippet (body : Text) (bytePos : Nat) (term : Text) : Option Text :=
  (sliceTo body bytePos).map fun before =>
    let charPos := before.length
    let start := charPos-augmentSnippetRadius
    let stop := min (charPos+term.length+augmentSnippetRadius) body.length
    trim ((body.take stop).drop start)

def isIdentifierLike (term : Text) : Bool :=
  term.any Char.isDigit || term.contains '-' || term.contains '.'

/-- What does not change from term to term: the bodies by script. -/
structure Bodies where
  partitionScript : Script
  sameScript : List Text
  diffScript : List Text

def partitionBodies (recap : Text) (evidence : List Text) : Bodies :=
  let recapScript := detectScript recap
  let partitionScript := if recapScript ≠ .latin then recapScript else dominantScript evidence
  if partitionScript = .latin then ⟨partitionScript, evidence, []⟩
  else ⟨partitionScript, evidence.filter fun b => detectScript b = partitionScript,
    evidence.filter fun b => detectScript b ≠ partitionScript⟩

/-- The snippets and bare terms so far, and the lower case of the snippets. -/
structure Suffix where
  snippets : List Text
  bareTerms : List Text
  seenSnippets : List Text

def firstHit (lang : Lang) (bodies : List Text) (term : Text) : Option (Text × Nat) :=
  bodies.findSome? fun body => (findText (lang.toLowercase body) term).map fun pos => (body, pos)

def Suffix.pushSnippet (lang : Lang) (suffix : Suffix) (body : Text) (pos : Nat) (term : Text) :
    Option Suffix :=
  (extractSnippet body pos term).map fun snippet =>
    let key := lang.toLowercase snippet
    if suffix.seenSnippets.contains key then suffix
    else { suffix with
      snippets := suffix.snippets ++ [snippet], seenSnippets := suffix.seenSnippets ++ [key] }

def Suffix.addTerm (lang : Lang) (bodies : Bodies) (suffix : Suffix) (term : Text) :
    Option Suffix :=
  match firstHit lang bodies.sameScript term with
  | some (body, pos) => suffix.pushSnippet lang body pos term
  | none =>
    if bodies.partitionScript ≠ .latin then
      if bodies.diffScript.any (fun body => containsText (lang.toLowercase body) term) &&
          (isIdentifierLike term || 7 ≤ term.length) then
        some { suffix with bareTerms := suffix.bareTerms ++ [term] }
      else some suffix
    else
      match firstHit lang bodies.diffScript term with
      | some (body, pos) => suffix.pushSnippet lang body pos term
      | none => some suffix

def missingTerms (lang : Lang) (recap : Text) (evidence : List Text) : List Text :=
  ((entityTermsForAugmentation lang evidence).filter fun t =>
    !containsText (lang.toLowercase recap) t).take maxAugmentTerms

def augmentRecapWithMissingEntities (lang : Lang) (recap : Text) (evidence : List Text) :
    Option Text :=
  if evidence.isEmpty then some recap
  else if (entityTermsForAugmentation lang evidence).isEmpty then some recap
  else
    let missing := missingTerms lang recap evidence
    if missing.isEmpty then some recap
    else
      (missing.foldlM (Suffix.addTerm lang (partitionBodies recap evidence)) ⟨[], [], []⟩).map
        fun suffix =>
          let suffixParts := suffix.snippets ++ suffix.bareTerms
          if suffixParts.isEmpty then recap
          else recap ++ " — ".toList ++ [' '].intercalate suffixParts

/-- What the standard library's lower case is used for: blanks and dashes are their own lower
case and no other character's, and a blank ends the context that a lower case may depend on. -/
structure Casing extends Lang where
  lower_blank : ∀ s t : Text,
    toLowercase (s ++ ' ' :: t) = toLowercase s ++ ' ' :: toLowercase t
  lower_dash : toLowercase ['—'] = ['—']
  lower_free : ∀ c ∈ [' ', '—'], isAlphanumeric c = false ∧ ∀ s, c ∉ s → c ∉ toLowercase s

theorem containsText_iff {text part : Text} : containsText text part = true ↔ part <:+: text := by
  simp only [containsText, List.any_eq_true, List.mem_tails, List.isPrefixOf_iff_prefix]
  constructor
  · rintro ⟨rest, hsuffix, hprefix⟩
    exact hprefix.isInfix.trans hsuffix.isInfix
  · intro h
    obtain ⟨rest, hprefix, hsuffix⟩ := List.infix_iff_prefix_suffix.mp h
    exact ⟨rest, hsuffix, hprefix⟩

theorem findText_isSome {text part : Text} :
    (findText text part).isSome = true ↔ part <:+: text := by
  rw [← containsText_iff, containsText, findText, Option.isSome_map, List.findIdx?_isSome]

theorem prefix_blank {x y part : Text} (h : ' ' ∉ part) (hp : part <+: x ++ ' ' :: y) :
    part <+: x := by
  have hx : x ++ [' '] <+: x ++ ' ' :: y := ⟨y, by simp⟩
  by_cases hle : part.length ≤ x.length
  · exact List.prefix_of_prefix_length_le hp (List.prefix_append x _) hle
  · have hmem : x ++ [' '] <+: part := List.prefix_of_prefix_length_le hx hp (by simp; omega)
    exact absurd (hmem.subset (by simp)) h

theorem infix_blank {x y part : Text} (h : ' ' ∉ part) :
    part <:+: x ++ ' ' :: y ↔ part <:+: x ∨ part <:+: y := by
  induction x with
  | nil =>
    rw [List.nil_append, List.infix_cons_iff]
    constructor
    · rintro (hp | hp)
      · exact .inl (@prefix_blank [] y part h hp).isInfix
      · exact .inr hp
    · rintro (hp | hp)
      · exact .inl ((List.infix_nil.mp hp) ▸ List.nil_prefix)
      · exact .inr hp
  | cons a x ih =>
    rw [List.cons_append, List.infix_cons_iff, ih, List.infix_cons_iff, or_assoc]
    constructor
    · rintro (hp | hp)
      · exact .inl (@prefix_blank (a :: x) y part h hp)
      · exact .inr hp
    · rintro (hp | hp)
      · exact .inl (hp.trans (List.prefix_append (a :: x) _))
      · exact .inr hp

theorem infix_join {parts : List Text} (hne : parts ≠ []) {part : Text} (h : ' ' ∉ part) :
    part <:+: [' '].intercalate parts ↔ ∃ q ∈ parts, part <:+: q := by
  induction parts with
  | nil => exact absurd rfl hne
  | cons q parts ih =>
    cases parts with
    | nil => simp
    | cons r parts =>
      rw [List.intercalate_cons_cons, List.append_assoc, List.singleton_append, infix_blank h,
        ih (by simp)]
      simp

namespace Casing

variable (lang : Casing)

theorem lower_join {parts : List Text} (hne : parts ≠ []) :
    lang.toLowercase ([' '].intercalate parts) =
      [' '].intercalate (parts.map lang.toLowercase) := by
  induction parts with
  | nil => exact absurd rfl hne
  | cons q parts ih =>
    cases parts with
    | nil => simp
    | cons r parts =>
      rw [List.intercalate_cons_cons, List.append_assoc, List.singleton_append, lang.lower_blank,
        ih (by simp)]
      simp [List.intercalate_cons_cons]

theorem infix_augmented {recap part : Text} {parts : List Text} (hne : parts ≠ [])
    (hblank : ' ' ∉ part) (hdash : '—' ∉ part) (hmissing : ¬part <:+: lang.toLowercase recap) :
    part <:+: lang.toLowercase (recap ++ " — ".toList ++ [' '].intercalate parts) ↔
      ∃ q ∈ parts, part <:+: lang.toLowercase q := by
  have hsplit : recap ++ " — ".toList ++ [' '].intercalate parts =
      recap ++ ' ' :: (['—'] ++ ' ' :: [' '].intercalate parts) := by
    rw [show " — ".toList = [' ', '—', ' '] by decide]
    simp
  have hno : ¬part <:+: ['—'] := by
    intro hin
    rcases List.infix_cons_iff.mp hin with h | h
    · cases part with
      | nil => exact hmissing (List.nil_infix)
      | cons c part =>
        obtain rfl := (List.cons_prefix_cons.mp h).1
        exact hdash List.mem_cons_self
    · exact hmissing (List.infix_nil.mp h ▸ List.nil_infix)
  rw [hsplit, lang.lower_blank, lang.lower_blank, lang.lower_dash, infix_blank hblank,
    infix_blank hblank, lang.lower_join hne, infix_join (by simpa using hne) hblank]
  simp [hmissing, hno]

end Casing

theorem pushTerm_subset {P : Text → Prop} {terms : List Text} {term : Text}
    (h : ∀ t ∈ terms, P t) (hterm : P term) : ∀ t ∈ pushTerm terms term, P t := by
  unfold pushTerm
  split
  · exact h
  · intro t ht
    rcases List.mem_append.mp ht with ht | ht
    · exact h t ht
    · exact List.mem_singleton.mp ht ▸ hterm

section

variable {lang : Lang} {P : Text → Prop}
  (hlower : ∀ s : Text, (∀ c ∈ s, isTermChar lang c = true) → P (lang.toLowercase s))

include hlower

theorem tryPushEntityTerm_subset {current : Text} {terms : List Text}
    (hc : ∀ c ∈ current, isTermChar lang c = true) (h : ∀ t ∈ terms, P t) :
    ∀ t ∈ tryPushEntityTerm lang current terms, P t := by
  have htrim : ∀ c ∈ trimSeparators current, isTermChar lang c = true := fun c hin =>
    hc c ((List.dropWhile_sublist _).subset ((List.rdropWhile_prefix _ _).subset hin))
  unfold tryPushEntityTerm
  split
  · exact h
  · dsimp only
    split
    · exact h
    · split
      · exact pushTerm_subset h (hlower _ htrim)
      · exact h

theorem scanTerms_subset {terms : List Text} (h : ∀ t ∈ terms, P t) (text : Text) :
    ∀ t ∈ scanTerms lang terms text, P t := by
  have hscan : ∀ scanned : List Text × Text, (∀ t ∈ scanned.1, P t) →
      (∀ c ∈ scanned.2, isTermChar lang c = true) →
      (∀ t ∈ (text.foldl (scanChar lang) scanned).1, P t) ∧
        ∀ c ∈ (text.foldl (scanChar lang) scanned).2, isTermChar lang c = true := by
    induction text with
    | nil => exact fun _ hterms hcurrent => ⟨hterms, hcurrent⟩
    | cons c text ih =>
      intro scanned hterms hcurrent
      rw [List.foldl_cons, scanChar]
      split
      · rename_i hc
        refine ih _ hterms fun d hd => ?_
        rcases List.mem_append.mp hd with hd | hd
        · exact hcurrent d hd
        · exact List.mem_singleton.mp hd ▸ hc
      · exact ih _ (tryPushEntityTerm_subset hlower hcurrent hterms) (by simp)
  obtain ⟨hterms, hcurrent⟩ := hscan (terms, []) h (by simp)
  exact tryPushEntityTerm_subset hlower hcurrent hterms

theorem entityTerms_subset (texts : List Text) :
    ∀ t ∈ entityTermsForAugmentation lang texts, P t := by
  have hfold : ∀ terms : List Text, (∀ t ∈ terms, P t) →
      ∀ t ∈ texts.foldl (scanTerms lang) terms, P t := by
    induction texts with
    | nil => exact fun _ h => h
    | cons text texts ih => exact fun terms h => ih _ (scanTerms_subset hlower h text)
  intro t ht
  exact hfold [] (by simp) t ((List.mem_insertionSort _).mp ht)

end

theorem Casing.missingTerms_free (lang : Casing) {recap : Text} {evidence : List Text} {t : Text}
    (h : t ∈ missingTerms lang.toLang recap evidence) :
    ' ' ∉ t ∧ '—' ∉ t ∧ ¬t <:+: lang.toLowercase recap := by
  have hmem := List.mem_of_mem_take h
  rw [List.mem_filter, Bool.not_eq_true', ← Bool.not_eq_true, containsText_iff] at hmem
  have hfree : ∀ c ∈ [' ', '—'], c ∉ t := by
    intro c hc
    have hother : isTermChar lang.toLang c = false := by
      have hc' : c = ' ' ∨ c = '—' := by simpa using hc
      rw [isTermChar, (lang.lower_free c hc).1]
      rcases hc' with rfl | rfl <;> rfl
    refine entityTerms_subset (P := fun t => c ∉ t) ?_ evidence t hmem.1
    intro s hs
    refine (lang.lower_free c hc).2 s fun hin => ?_
    have := hs c hin
    rw [hother] at this
    cases this
  exact ⟨hfree ' ' (by simp), hfree '—' (by simp), hmem.2⟩

def snippetOf (lang : Lang) (bodies : Bodies) (term : Text) : Option Text :=
  (firstHit lang bodies.sameScript term).bind fun hit => extractSnippet hit.1 hit.2 term

def isBare (lang : Lang) (bodies : Bodies) (term : Text) : Bool :=
  (firstHit lang bodies.sameScript term).isNone && bodies.partitionScript ≠ .latin &&
    (bodies.diffScript.any (fun body => containsText (lang.toLowercase body) term) &&
      (isIdentifierLike term || 7 ≤ term.length))

/-- Every position found in a lower-cased body is a boundary of the body itself. -/
def Boundaries (lang : Lang) (bodies : Bodies) (terms : List Text) : Prop :=
  ∀ term ∈ terms, ∀ hit ∈ firstHit lang bodies.sameScript term, (sliceTo hit.1 hit.2).isSome

namespace Suffix

variable {lang : Lang} {bodies : Bodies}

/-- The keys are those of the snippets. -/
def Keyed (lang : Lang) (suffix : Suffix) : Prop :=
  suffix.seenSnippets = suffix.snippets.map lang.toLowercase

theorem addTerm_found {suffix : Suffix} (h : suffix.Keyed lang) {term : Text} {hit : Text × Nat}
    (hhit : firstHit lang bodies.sameScript term = some hit) :
    (sliceTo hit.1 hit.2 = none ∧ suffix.addTerm lang bodies term = none) ∨
    ∃ snippet suffix', snippetOf lang bodies term = some snippet ∧
      suffix.addTerm lang bodies term = some suffix' ∧ suffix'.Keyed lang ∧
      suffix'.bareTerms = suffix.bareTerms ∧
      ∀ key, key ∈ suffix'.seenSnippets ↔ key ∈ suffix.seenSnippets ∨
        lang.toLowercase snippet = key := by
  obtain ⟨body, pos⟩ := hit
  cases hslice : sliceTo body pos with
  | none =>
    have hnone : extractSnippet body pos term = none := by rw [extractSnippet, hslice]; rfl
    exact .inl ⟨rfl, by simp [addTerm, hhit, pushSnippet, hnone]⟩
  | some before =>
    cases hsnippet : extractSnippet body pos term with
    | none => simp [extractSnippet, hslice] at hsnippet
    | some snippet =>
      refine .inr ⟨snippet, ?_⟩
      have hof : snippetOf lang bodies term = some snippet := by simp [snippetOf, hhit, hsnippet]
      by_cases hseen : suffix.seenSnippets.contains (lang.toLowercase snippet) = true
      · refine ⟨suffix, hof, by simp only [addTerm, hhit, pushSnippet, hsnippet, Option.map_some,
          if_pos hseen], h, rfl, ?_⟩
        intro key
        constructor
        · exact .inl
        · rintro (hkey | rfl)
          · exact hkey
          · simpa using hseen
      · refine ⟨⟨suffix.snippets ++ [snippet], suffix.bareTerms,
          suffix.seenSnippets ++ [lang.toLowercase snippet]⟩, hof,
          by simp only [addTerm, hhit, pushSnippet, hsnippet, Option.map_some, if_neg hseen],
          ?_, rfl, ?_⟩
        · simpa [Keyed] using h
        · intro key
          simp [eq_comm]

theorem addTerm_not_found (hlatin : bodies.partitionScript = .latin → bodies.diffScript = [])
    (suffix : Suffix) {term : Text} (hhit : firstHit lang bodies.sameScript term = none) :
    ∃ suffix', suffix.addTerm lang bodies term = some suffix' ∧
      suffix'.snippets = suffix.snippets ∧ suffix'.seenSnippets = suffix.seenSnippets ∧
      ∀ t, t ∈ suffix'.bareTerms ↔ t ∈ suffix.bareTerms ∨
        t = term ∧ isBare lang bodies term = true := by
  by_cases hscript : bodies.partitionScript = .latin
  · refine ⟨suffix, ?_, rfl, rfl, ?_⟩
    · have hdiff : firstHit lang bodies.diffScript term = none := by
        simp [hlatin hscript, firstHit]
      simp only [addTerm, hhit, ne_eq, hscript, not_true_eq_false, if_false, hdiff]
    · simp [isBare, hscript]
  · by_cases hbare : (bodies.diffScript.any (fun body =>
        containsText (lang.toLowercase body) term) &&
        (isIdentifierLike term || 7 ≤ term.length)) = true
    · refine ⟨{ suffix with bareTerms := suffix.bareTerms ++ [term] }, ?_, rfl, rfl, ?_⟩
      · simp only [addTerm, hhit, ne_eq, hscript, not_false_eq_true, if_true, if_pos hbare]
      · intro t
        simp only [isBare, hhit, hbare, List.mem_append, List.mem_singleton]
        simp [hscript]
    · refine ⟨suffix, ?_, rfl, rfl, ?_⟩
      · simp only [addTerm, hhit, ne_eq, hscript, not_false_eq_true, if_true, if_neg hbare]
      · intro t
        simp only [isBare, Bool.not_eq_true] at hbare ⊢
        simp [hbare]

/-- The loop over the terms: it panics at a position that is no boundary, and else collects the
snippets of the terms it finds and the bare terms. -/
theorem addTerms (hlatin : bodies.partitionScript = .latin → bodies.diffScript = [])
    (terms : List Text) {suffix : Suffix} (h : suffix.Keyed lang) :
    (¬Boundaries lang bodies terms ∧ terms.foldlM (addTerm lang bodies) suffix = none) ∨
    (Boundaries lang bodies terms ∧ ∃ suffix', terms.foldlM (addTerm lang bodies) suffix =
      some suffix' ∧ suffix'.Keyed lang ∧
      (∀ key, key ∈ suffix'.seenSnippets ↔ key ∈ suffix.seenSnippets ∨
        ∃ t ∈ terms, ∃ snippet ∈ snippetOf lang bodies t, lang.toLowercase snippet = key) ∧
      ∀ t, t ∈ suffix'.bareTerms ↔ t ∈ suffix.bareTerms ∨
        t ∈ terms ∧ isBare lang bodies t = true) := by
  induction terms generalizing suffix with
  | nil => exact .inr ⟨by simp [Boundaries], suffix, rfl, h, by simp, by simp⟩
  | cons term terms ih =>
    have hhead : ∀ hit, firstHit lang bodies.sameScript term = some hit →
        (Boundaries lang bodies (term :: terms) ↔
          (sliceTo hit.1 hit.2).isSome ∧ Boundaries lang bodies terms) := by
      intro hit hhit
      simp only [Boundaries, List.forall_mem_cons, hhit, Option.mem_def, Option.some.injEq,
        forall_eq']
    rw [List.foldlM_cons]
    cases hhit : firstHit lang bodies.sameScript term with
    | none =>
      have hrest : Boundaries lang bodies (term :: terms) ↔ Boundaries lang bodies terms := by
        simp [Boundaries, hhit]
      have hof : snippetOf lang bodies term = none := by simp [snippetOf, hhit]
      obtain ⟨suffix₁, hadd, hsnippets, hseen, hbare⟩ := addTerm_not_found hlatin suffix hhit
      have hkeyed : suffix₁.Keyed lang := by rwa [Keyed, hseen, hsnippets]
      rw [hadd, hrest]
      obtain ⟨hno, hnone⟩ | ⟨hyes, suffix', hfold, hkeyed', hkeys, hbares⟩ := ih hkeyed
      · exact .inl ⟨hno, hnone⟩
      · refine .inr ⟨hyes, suffix', hfold, hkeyed', fun key => ?_, fun t => ?_⟩
        · rw [hkeys, hseen]
          simp [hof]
        · rw [hbares, hbare, or_assoc, List.mem_cons, or_and_right]
          constructor
          · rintro (ht | ⟨rfl, hb⟩ | ht)
            · exact .inl ht
            · exact .inr (.inl ⟨rfl, hb⟩)
            · exact .inr (.inr ht)
          · rintro (ht | ⟨rfl, hb⟩ | ht)
            · exact .inl ht
            · exact .inr (.inl ⟨rfl, hb⟩)
            · exact .inr (.inr ht)
    | some hit =>
      have hnotbare : isBare lang bodies term = false := by simp [isBare, hhit]
      rw [hhead hit hhit]
      obtain ⟨hslice, hadd⟩ | ⟨snippet, suffix₁, hof, hadd, hkeyed, hbare, hkey⟩ :=
        addTerm_found h hhit
      · exact .inl ⟨by simp [hslice], by simp [hadd]⟩
      · have hslice : (sliceTo hit.1 hit.2).isSome = true := by
          cases hs : sliceTo hit.1 hit.2 with
          | none => simp [snippetOf, hhit, extractSnippet, hs] at hof
          | some before => rfl
        rw [hadd]
        obtain ⟨hno, hnone⟩ | ⟨hyes, suffix', hfold, hkeyed', hkeys, hbares⟩ := ih hkeyed
        · exact .inl ⟨fun hb => hno hb.2, hnone⟩
        · refine .inr ⟨⟨hslice, hyes⟩, suffix', hfold, hkeyed', fun key => ?_, fun t => ?_⟩
          · rw [hkeys, hkey, or_assoc]
            simp [hof]
          · rw [hbares, hbare]
            simp only [List.mem_cons]
            constructor
            · rintro (ht | ⟨ht, hb⟩)
              · exact .inl ht
              · exact .inr ⟨.inr ht, hb⟩
            · rintro (ht | ⟨rfl | ht, hb⟩)
              · exact .inl ht
              · rw [hnotbare] at hb
                cases hb
              · exact .inr ⟨ht, hb⟩

end Suffix

/-- The augmentation does not panic, keeps the recap in front and mentions each missing term that
a body of the script has. -/
def Mentions (lang : Lang) (recap : Text) (evidence : List Text) : Prop :=
  ∃ result, augmentRecapWithMissingEntities lang recap evidence = some result ∧
    recap <+: result ∧
    ∀ t ∈ missingTerms lang recap evidence,
      (∃ body ∈ (partitionBodies recap evidence).sameScript,
        containsText (lang.toLowercase body) t = true) →
      containsText (lang.toLowercase result) t = true

/-- The text cut out around a missing term's position, or around another's, has the term, or a
bare term has. -/
def Covered (lang : Lang) (bodies : Bodies) (terms : List Text) : Prop :=
  ∀ t ∈ terms, (firstHit lang bodies.sameScript t).isSome →
    ∃ u ∈ terms, (∃ snippet ∈ snippetOf lang bodies u,
        containsText (lang.toLowercase snippet) t = true) ∨
      isBare lang bodies u = true ∧ containsText (lang.toLowercase u) t = true

theorem firstHit_isSome {lang : Lang} {bodies : List Text} {term : Text} :
    (firstHit lang bodies term).isSome = true ↔
      ∃ body ∈ bodies, containsText (lang.toLowercase body) term = true := by
  simp only [firstHit, List.findSome?_isSome_iff, Option.isSome_map, findText_isSome,
    containsText_iff]

theorem partitionBodies_latin (recap : Text) (evidence : List Text)
    (h : (partitionBodies recap evidence).partitionScript = .latin) :
    (partitionBodies recap evidence).diffScript = [] := by
  unfold partitionBodies at h ⊢
  dsimp only at h ⊢
  generalize (if detectScript recap ≠ .latin then detectScript recap
    else dominantScript evidence) = script at h ⊢
  by_cases hscript : script = .latin
  · rw [if_pos hscript]
  · rw [if_neg hscript] at h
    exact absurd h hscript

theorem missingTerms_eq_nil {lang : Lang} {recap : Text} {evidence : List Text}
    (h : evidence.isEmpty = true ∨ (entityTermsForAugmentation lang evidence).isEmpty = true) :
    missingTerms lang recap evidence = [] := by
  have hnil : entityTermsForAugmentation lang evidence = [] := by
    rcases h with h | h
    · rw [List.isEmpty_iff.mp h]
      rfl
    · exact List.isEmpty_iff.mp h
  simp [missingTerms, hnil]

theorem augment_eq (lang : Lang) (recap : Text) (evidence : List Text) :
    augmentRecapWithMissingEntities lang recap evidence =
      ((missingTerms lang recap evidence).foldlM
        (Suffix.addTerm lang (partitionBodies recap evidence)) ⟨[], [], []⟩).map fun suffix =>
          if (suffix.snippets ++ suffix.bareTerms).isEmpty then recap
          else recap ++ " — ".toList ++
            [' '].intercalate (suffix.snippets ++ suffix.bareTerms) := by
  unfold augmentRecapWithMissingEntities
  split
  · rename_i h
    rw [missingTerms_eq_nil (.inl h)]
    rfl
  · split
    · rename_i h
      rw [missingTerms_eq_nil (.inr h)]
      rfl
    · dsimp only
      split
      · rename_i h
        rw [List.isEmpty_iff.mp h]
        rfl
      · rfl

/-- The augmentation keeps its promise exactly where every position it finds is a boundary of
the body, and every term is in a piece that is cut out. -/
theorem augment_mentions_iff (lang : Casing) (recap : Text) (evidence : List Text) :
    Mentions lang.toLang recap evidence ↔
      Boundaries lang.toLang (partitionBodies recap evidence)
        (missingTerms lang.toLang recap evidence) ∧
      Covered lang.toLang (partitionBodies recap evidence)
        (missingTerms lang.toLang recap evidence) := by
  have hfree := fun t => @Casing.missingTerms_free lang recap evidence t
  unfold Mentions
  rw [augment_eq]
  generalize hbodies : partitionBodies recap evidence = bodies
  have hlatin : bodies.partitionScript = .latin → bodies.diffScript = [] := by
    rw [← hbodies]
    exact partitionBodies_latin recap evidence
  generalize missingTerms lang.toLang recap evidence = terms at *
  obtain ⟨hno, hnone⟩ | ⟨hyes, suffix, hfold, hkeyed, hkeys, hbares⟩ :=
    @Suffix.addTerms lang.toLang bodies hlatin terms ⟨[], [], []⟩ rfl
  · simp [hnone, hno]
  · simp only [hfold, Option.map_some, Option.some.injEq, exists_eq_left', hyes, true_and,
      ← firstHit_isSome]
    -- what is found in the result is found in a snippet or a bare term
    have hpieces : ∀ t ∈ terms,
        (∃ q ∈ suffix.snippets ++ suffix.bareTerms, t <:+: lang.toLowercase q) ↔
        ∃ u ∈ terms, (∃ snippet ∈ snippetOf lang.toLang bodies u,
            containsText (lang.toLowercase snippet) t = true) ∨
          isBare lang.toLang bodies u = true ∧ containsText (lang.toLowercase u) t = true := by
      intro t ht
      have hsnippets : (∃ q ∈ suffix.snippets, t <:+: lang.toLowercase q) ↔
          ∃ u ∈ terms, ∃ snippet ∈ snippetOf lang.toLang bodies u,
            t <:+: lang.toLowercase snippet := by
        have hmap : (∃ q ∈ suffix.snippets, t <:+: lang.toLowercase q) ↔
            ∃ key ∈ suffix.seenSnippets, t <:+: key := by
          rw [hkeyed]
          simp
        rw [hmap]
        constructor
        · rintro ⟨key, hkey, hin⟩
          obtain hkey | ⟨u, hu, snippet, hs, rfl⟩ := (hkeys key).mp hkey
          · cases hkey
          · exact ⟨u, hu, snippet, hs, hin⟩
        · rintro ⟨u, hu, snippet, hs, hin⟩
          exact ⟨_, (hkeys _).mpr (.inr ⟨u, hu, snippet, hs, rfl⟩), hin⟩
      simp only [List.mem_append, or_and_right, exists_or, hsnippets, hbares, List.not_mem_nil,
        false_or, containsText_iff, and_or_left, and_assoc]
    have hfound : ∀ t ∈ terms,
        containsText (lang.toLowercase (if (suffix.snippets ++ suffix.bareTerms).isEmpty then recap
          else recap ++ " — ".toList ++
            [' '].intercalate (suffix.snippets ++ suffix.bareTerms))) t = true ↔
        ∃ q ∈ suffix.snippets ++ suffix.bareTerms, t <:+: lang.toLowercase q := by
      intro t ht
      obtain ⟨hblank, hdash, hmissing⟩ := hfree t ht
      rw [containsText_iff]
      split
      · rename_i hempty
        rw [List.isEmpty_iff.mp hempty]
        simp [hmissing]
      · rename_i hparts
        exact lang.infix_augmented (by simpa using hparts) hblank hdash hmissing
    constructor
    · rintro ⟨-, hall⟩ t ht hhit
      exact (hpieces t ht).mp ((hfound t ht).mp (hall t ht hhit))
    · intro hcovered
      refine ⟨?_, fun t ht hhit => (hfound t ht).mpr ((hpieces t ht).mpr (hcovered t ht hhit))⟩
      split
      · exact List.prefix_rfl
      · rw [List.append_assoc]
        exact List.prefix_append recap _

/-- Lower case on ASCII and on the dotted capital of Turkish, which takes two characters. -/
def lowerDotted (c : Char) : Text := if c = 'İ' then ['i', '\u0307'] else [c.toLower]

theorem eq_of_mem_lowerDotted {c d : Char} (hc : c = ' ' ∨ c = '—') (h : c ∈ lowerDotted d) :
    d = c := by
  unfold lowerDotted at h
  split at h
  · rcases hc with rfl | rfl <;> simp at h
  · have hlower : c = d.toLower := by simpa using h
    unfold Char.toLower at hlower
    split at hlower
    · rename_i hupper
      have hval : c.val = d.val + ('a'.val - 'A'.val) := congrArg Char.val hlower
      rcases hc with rfl | rfl <;> grind
    · exact hlower.symm

def dotted : Casing where
  toLowercase := List.flatMap lowerDotted
  isAlphanumeric c := c.isAlphanum || c = 'İ'
  lower_blank s t := by simp [lowerDotted]
  lower_dash := by decide
  lower_free := by
    intro c hc
    have hc : c = ' ' ∨ c = '—' := by simpa using hc
    refine ⟨by rcases hc with rfl | rfl <;> decide, fun s hs hin => ?_⟩
    obtain ⟨d, hd, hcd⟩ := List.mem_flatMap.mp hin
    exact hs (eq_of_mem_lowerDotted hc hcd ▸ hd)

def behindCapitals (capitals : Nat) : Text :=
  (List.replicate capitals "İ ".toList).flatten ++ "kafka ".toList ++
    (List.replicate 60 "x ".toList).flatten

/-- One capital before the term moves its position by a byte, to a boundary within the term. -/
theorem augment_mentions_shifted :
    Mentions dotted.toLang [] ["İ kafka".toList] ∧
      missingTerms dotted.toLang [] ["İ kafka".toList] = ["kafka".toList] := by
  refine ⟨(augment_mentions_iff dotted [] ["İ kafka".toList]).mpr ⟨?_, ?_⟩, by decide +kernel⟩
  · unfold Boundaries
    decide +kernel
  · unfold Covered
    decide +kernel

/-- The position behind six of the dotted capitals is past the end of the body. The one behind
eighty of them is in the body, but the text cut out there does not have the term. -/
theorem dotted_capitals_lose_term :
    augmentRecapWithMissingEntities dotted.toLang [] ["İİİİİİ kafka".toList] = none ∧
    ¬Mentions dotted.toLang [] ["İİİİİİ kafka".toList] ∧
    ¬Mentions dotted.toLang [] [behindCapitals 80] := by
  have hpanics :
      augmentRecapWithMissingEntities dotted.toLang [] ["İİİİİİ kafka".toList] = none := by
    decide +kernel
  have hlost : augmentRecapWithMissingEntities dotted.toLang [] [behindCapitals 80] =
        some (" — ".toList ++ [' '].intercalate (List.replicate 53 ['x'])) ∧
      "kafka".toList ∈ missingTerms dotted.toLang [] [behindCapitals 80] ∧
      containsText (dotted.toLowercase (behindCapitals 80)) "kafka".toList = true ∧
      (partitionBodies [] [behindCapitals 80]).sameScript = [behindCapitals 80] ∧
      containsText (dotted.toLowercase (" — ".toList ++
        [' '].intercalate (List.replicate 53 ['x']))) "kafka".toList = false := by
    decide +kernel
  refine ⟨hpanics, ?_, ?_⟩
  · rintro ⟨result, hresult, -, -⟩
    rw [hpanics] at hresult
    cases hresult
  · rintro ⟨result, hresult, -, hall⟩
    obtain ⟨haugment, hterm, hbody, hsame, hno⟩ := hlost
    obtain rfl := Option.some.inj (haugment.symm.trans hresult)
    have hyes := hall _ hterm ⟨_, by rw [hsame]; exact List.mem_cons_self, hbody⟩
    rw [hno] at hyes
    cases hyes

end Knowledge.Synthesis
