import Knowledge.Agent.Proposals
import Knowledge.Runtime.Boundary
import Mathlib.Algebra.Order.Field.Rat

/-!
The search of `crates/ffi/src/lib.rs`: which text is handed to FTS5. A text is the list of its
characters. Which of them are alphanumeric, the index and the evidence bodies are parameters.
-/

set_option autoImplicit false

namespace Knowledge.Runtime
open Knowledge.Agent (isWhitespace)
open Knowledge.Memory (ScopeId)
open Knowledge.Sync (Uuid)

abbrev Text := List Char

def splitWhitespace (text : Text) : List Text :=
  (text.splitOnP isWhitespace).filter (· ≠ [])

def trimMatches (p : Char → Bool) (text : Text) : Text :=
  ((text.dropWhile p).reverse.dropWhile p).reverse

def isFtsPunctuation (c : Char) : Bool := c = '"' || c = '(' || c = ')'

def isHyphenated (isAlphanumeric : Char → Bool) (token : Text) : Bool :=
  let trimmed := trimMatches isFtsPunctuation token
  match trimmed.findIdx? (· = '-') with
  | none => false
  | some idx =>
    0 < idx && idx < trimmed.length-1 &&
      ((trimmed.take idx).any isAlphanumeric && (trimmed.drop (idx+1)).any isAlphanumeric)

def hasHyphenatedIdentifier (isAlphanumeric : Char → Bool) (queryText : Text) : Bool :=
  (splitWhitespace queryText).any (isHyphenated isAlphanumeric)

def doubleQuotes (text : Text) : Text := text.flatMap fun c => if c = '"' then ['"', '"'] else [c]

def isAsciiDigit (c : Char) : Bool := '0' ≤ c && c ≤ '9'

def parts (token : Text) : List Text := (token.splitOnP (· = '-')).filter (· ≠ [])

def pushPart (expr part : Text) : Text :=
  (if expr.isEmpty then expr else expr ++ [' ']) ++ ['"'] ++ doubleQuotes part ++ ['"'] ++
    if part.all isAsciiDigit then ['*'] else []

def ftsLiteralTokenFallback (queryText : Text) : Option Text :=
  let expr := (splitWhitespace queryText).foldl (fun expr token => (parts token).foldl pushPart expr)
    []
  if expr.isEmpty then none else some expr

def escapeFtsQuery (input : Text) : Text :=
  input.foldl (fun out ch => if ch = '"' then out ++ ['"', '"'] else out ++ [ch]) ['"'] ++ ['"']

/-- What `search_fts` fails with: text that FTS5 rejects, or a fault of the store. -/
inductive SearchError where
  | invalidQuery (message : String)
  | other (display : String)

def mapQueryError : SearchError → FfiError
  | .invalidQuery message => .invalidQuery message
  | .other display => .evidence display

structure QueryResult where
  evidenceId : Uuid
  score : ℚ
  ftsScore : ℚ
  recencyScore : ℚ
  vectorScore : ℚ
  snippet : Text

def snippetClip (body : Text) (maxChars : Nat) : Text :=
  if body.length ≤ maxChars then body else body.take maxChars ++ ['…']

/-- What a query reads: the open store, the forgotten scopes, the index and the bodies. -/
structure SearchHost where
  isAlphanumeric : Char → Bool
  parse : UuidParser
  opened : Bool
  forgotten : ScopeId → Bool
  searchFts : ScopeId → Text → Nat → Except SearchError (List Uuid)
  readBody : Uuid → Option Text

namespace SearchHost

variable (host : SearchHost)

def effectiveQuery (queryText : Text) : Text :=
  if hasHyphenatedIdentifier host.isAlphanumeric queryText then
    match ftsLiteralTokenFallback queryText with
    | some sanitised => sanitised
    | none => queryText
  else queryText

def search (scope : ScopeId) (queryText : Text) (limit : Nat) :
    List Text × Except FfiError (List Uuid) :=
  let effective := host.effectiveQuery queryText
  match host.searchFts scope effective limit with
  | .ok hits => ([effective], .ok hits)
  | .error (.invalidQuery orig) =>
    match ftsLiteralTokenFallback queryText with
    | some sanitised =>
      match host.searchFts scope sanitised limit with
      | .ok hits => ([effective, sanitised], .ok hits)
      | .error e => ([effective, sanitised], .error (mapQueryError e))
    | none => ([effective], .error (.invalidQuery orig))
  | .error (.other display) => ([effective], .error (mapQueryError (.other display)))

def results (hits : List Uuid) : List QueryResult :=
  hits.zipIdx.map fun (evidenceId, rank) =>
    let ftsScore : ℚ := 1-min ((rank : ℚ)/(max hits.length 1 : Nat)) 1
    ⟨evidenceId, ftsScore, ftsScore, 0, 0, (host.readBody evidenceId).elim [] (snippetClip · 160)⟩

def query (scopeId : String) (queryText : Text) (limit : Nat) :
    List Text × Except FfiError (List QueryResult) :=
  match parseScopeId host.parse scopeId with
  | .error e => ([], .error e)
  | .ok scope =>
    if !host.opened then ([], .error (.unavailable "evidence_store"))
    else if host.forgotten scope then ([], .ok [])
    else
      let searched := host.search scope queryText limit
      (searched.1, searched.2.map host.results)

end SearchHost

/-- A string of an FTS5 expression, and whether a `*` follows it. -/
structure Phrase where
  text : Text
  isPrefix : Bool

/-- Where a reader of FTS5 strings is: between strings, inside one, behind a quote in one or
behind its star. -/
inductive Reading where
  | between
  | inside (text : Text)
  | quote (text : Text)
  | star (text : Text)

/-- FTS5's strings: in quotes, with a doubled quote for a quote and maybe a star behind it, and
separated by a blank. -/
def Reading.read : Reading → Text → Option (List Phrase)
  | .between, '"' :: cs => read (.inside []) cs
  | .between, _ => none
  | .inside text, '"' :: cs => read (.quote text) cs
  | .inside text, c :: cs => read (.inside (text ++ [c])) cs
  | .inside _, [] => none
  | .quote text, [] => some [⟨text, false⟩]
  | .quote text, '"' :: cs => read (.inside (text ++ ['"'])) cs
  | .quote text, '*' :: cs => read (.star text) cs
  | .quote text, ' ' :: cs => (read .between cs).map (⟨text, false⟩ :: ·)
  | .quote _, _ => none
  | .star text, [] => some [⟨text, true⟩]
  | .star text, ' ' :: cs => (read .between cs).map (⟨text, true⟩ :: ·)
  | .star _, _ => none

def readFts (expr : Text) : Option (List Phrase) := Reading.between.read expr

def ftsParts (queryText : Text) : List Text := (splitWhitespace queryText).flatMap parts

def phraseOf (part : Text) : Phrase := ⟨part, part.all isAsciiDigit⟩

def quoted (part : Text) : Text :=
  '"' :: (doubleQuotes part ++ '"' :: if part.all isAsciiDigit then ['*'] else [])

@[simp] theorem doubleQuotes_nil : doubleQuotes [] = [] := rfl

theorem doubleQuotes_cons (c : Char) (text : Text) :
    doubleQuotes (c :: text) = (if c = '"' then ['"', '"'] else [c]) ++ doubleQuotes text := by
  simp [doubleQuotes]

theorem pushPart_eq (expr part : Text) :
    pushPart expr part = (if expr.isEmpty then expr else expr ++ [' ']) ++ quoted part := by
  simp [pushPart, quoted]

theorem foldl_pushPart {expr : Text} (h : expr ≠ []) (ps : List Text) :
    ps.foldl pushPart expr = expr ++ ps.flatMap fun p => ' ' :: quoted p := by
  induction ps generalizing expr with
  | nil => simp
  | cons p ps ih =>
    have hp : pushPart expr p = expr ++ ' ' :: quoted p := by
      simp [pushPart_eq, h]
    rw [List.foldl_cons, hp, ih (by simp)]
    simp

theorem fallback_eq (queryText : Text) :
    ftsLiteralTokenFallback queryText = match ftsParts queryText with
      | [] => none
      | p :: ps => some (quoted p ++ ps.flatMap fun p => ' ' :: quoted p) := by
  unfold ftsLiteralTokenFallback ftsParts
  rw [← List.foldl_flatMap]
  dsimp only
  cases (splitWhitespace queryText).flatMap parts with
  | nil => rfl
  | cons p ps =>
    have hp : pushPart [] p = quoted p := by simp [pushPart_eq]
    have hne : quoted p ≠ [] := by simp [quoted]
    rw [List.foldl_cons, hp, foldl_pushPart hne]
    simp [hne]

namespace Reading

theorem read_inside (text part cs : Text) :
    (inside text).read (doubleQuotes part ++ '"' :: cs) = (quote (text ++ part)).read cs := by
  induction part generalizing text with
  | nil => simp [doubleQuotes, read]
  | cons c part ih =>
    rw [doubleQuotes_cons]
    by_cases h : c = '"'
    · subst h
      simp [read, ih]
    · have hread : ∀ rest, (inside text).read (c :: rest) = (inside (text ++ [c])).read rest := by
        intro rest
        rw [read]
        exact h
      simp [h, hread, ih]

theorem read_quoted (part rest : Text) :
    between.read (quoted part) = some [phraseOf part] ∧
      between.read (quoted part ++ ' ' :: rest) =
        (between.read rest).map (phraseOf part :: ·) := by
  by_cases h : part.all isAsciiDigit = true <;>
    simp [quoted, phraseOf, h, read, read_inside]

theorem read_quoted_list (p : Text) (ps : List Text) :
    between.read (quoted p ++ ps.flatMap fun p => ' ' :: quoted p) =
      some ((p :: ps).map phraseOf) := by
  induction ps generalizing p with
  | nil => simpa using (read_quoted p []).1
  | cons q ps ih =>
    rw [List.flatMap_cons, List.cons_append, (read_quoted p _).2, ih]
    rfl

end Reading

theorem readFts_fallback {queryText expr : Text}
    (h : ftsLiteralTokenFallback queryText = some expr) :
    readFts expr = some ((ftsParts queryText).map phraseOf) := by
  rw [fallback_eq] at h
  cases hp : ftsParts queryText with
  | nil => simp [hp] at h
  | cons p ps =>
    rw [hp] at h
    obtain rfl := Option.some.inj h
    exact Reading.read_quoted_list p ps

theorem escapeFtsQuery_eq (input : Text) :
    escapeFtsQuery input = '"' :: (doubleQuotes input ++ ['"']) := by
  have hfold : ∀ out : Text, input.foldl
      (fun out ch => if ch = '"' then out ++ ['"', '"'] else out ++ [ch]) out =
      out ++ doubleQuotes input := by
    induction input with
    | nil => simp [doubleQuotes]
    | cons c input ih =>
      intro out
      rw [List.foldl_cons, ih, doubleQuotes_cons]
      split <;> simp
  simp [escapeFtsQuery, hfold]

theorem readFts_escape (input : Text) : readFts (escapeFtsQuery input) = some [⟨input, false⟩] := by
  rw [escapeFtsQuery_eq, readFts, Reading.read, Reading.read_inside, Reading.read]
  rfl

theorem any_doubleQuotes (p : Char → Bool) (text : Text) :
    (doubleQuotes text).any p = text.any p := by
  induction text with
  | nil => rfl
  | cons c text ih =>
    rw [doubleQuotes_cons, List.any_append, ih, List.any_cons]
    split
    · rename_i h
      simp [h]
    · simp

theorem reverse_doubleQuotes (text : Text) :
    (doubleQuotes text).reverse = doubleQuotes text.reverse := by
  induction text with
  | nil => rfl
  | cons c text ih =>
    rw [doubleQuotes_cons, List.reverse_append, ih, List.reverse_cons]
    unfold doubleQuotes
    rw [List.flatMap_append]
    split <;> simp_all

theorem dropWhile_doubleQuotes (p : Char → Bool) (text : Text) :
    (doubleQuotes text).dropWhile p = doubleQuotes (text.dropWhile p) := by
  induction text with
  | nil => rfl
  | cons c text ih =>
    rw [doubleQuotes_cons, List.dropWhile_cons]
    by_cases hp : p c = true
    · rw [if_pos hp, ← ih]
      split
      · rename_i h
        subst h
        simp [hp]
      · simp [hp]
    · rw [if_neg hp, doubleQuotes_cons]
      split
      · rename_i h
        subst h
        simp [hp]
      · simp [hp]

theorem takeWhile_doubleQuotes (p : Char → Bool) (text : Text) :
    (doubleQuotes text).takeWhile p = doubleQuotes (text.takeWhile p) := by
  induction text with
  | nil => rfl
  | cons c text ih =>
    rw [doubleQuotes_cons, List.takeWhile_cons]
    by_cases hp : p c = true
    · rw [if_pos hp, doubleQuotes_cons, ← ih]
      split
      · rename_i h
        subst h
        simp [hp]
      · simp [hp]
    · rw [if_neg hp]
      split
      · rename_i h
        subst h
        simp [hp, doubleQuotes]
      · simp [hp, doubleQuotes]

theorem trimMatches_doubleQuotes (p : Char → Bool) (text : Text) :
    trimMatches p (doubleQuotes text) = doubleQuotes (trimMatches p text) := by
  simp only [trimMatches, dropWhile_doubleQuotes, reverse_doubleQuotes]

theorem trimMatches_cons {p : Char → Bool} {c : Char} (h : p c = true) (text : Text) :
    trimMatches p (c :: text) = trimMatches p text := by
  simp [trimMatches, h]

theorem trimMatches_snoc {p : Char → Bool} {c : Char} (h : p c = true) (text : Text) :
    trimMatches p (text ++ [c]) = trimMatches p text := by
  simp only [trimMatches, List.dropWhile_append]
  split
  · rename_i hnil
    have hnil : text.dropWhile p = [] := by simpa using hnil
    simp [hnil, h]
  · simp [h]

theorem isHyphenated_eq (isAlphanumeric : Char → Bool) (token : Text) :
    isHyphenated isAlphanumeric token =
      (((trimMatches isFtsPunctuation token).takeWhile (· ≠ '-')).any isAlphanumeric &&
        ((trimMatches isFtsPunctuation token).dropWhile (· ≠ '-')).tail.any isAlphanumeric) := by
  unfold isHyphenated
  dsimp only
  generalize trimMatches isFtsPunctuation token = trimmed
  have htake := @List.takeWhile_eq_take_findIdx_not _ trimmed (fun c => decide (c ≠ '-'))
  have hdrop := @List.dropWhile_eq_drop_findIdx_not _ trimmed (fun c => decide (c ≠ '-'))
  have hnot : (fun c => !decide (c ≠ '-')) = fun c : Char => decide (c = '-') := by
    funext c
    simp
  rw [hnot] at htake hdrop
  rw [htake, hdrop]
  cases hi : trimmed.findIdx? (· = '-') with
  | none =>
    rw [List.findIdx?_eq_none_iff_findIdx_eq] at hi
    simp [hi]
  | some idx =>
    obtain ⟨hlt, rfl⟩ := List.findIdx?_eq_some_iff_findIdx_eq.mp hi
    dsimp only
    rw [List.tail_drop]
    cases hb : (trimmed.take (trimmed.findIdx fun c => decide (c = '-'))).any isAlphanumeric with
    | false => simp
    | true =>
      cases ha : (trimmed.drop ((trimmed.findIdx fun c => decide (c = '-'))+1)).any
          isAlphanumeric with
      | false => simp
      | true =>
        have hpos : 0 < trimmed.findIdx fun c => decide (c = '-') := by
          by_contra hz
          have hz : (trimmed.findIdx fun c => decide (c = '-')) = 0 := by omega
          simp [hz] at hb
        have hmore : (trimmed.findIdx fun c => decide (c = '-')) < trimmed.length-1 := by
          by_contra hz
          have hz : trimmed.length ≤ (trimmed.findIdx fun c => decide (c = '-'))+1 := by omega
          simp [List.drop_eq_nil_of_le hz] at ha
        simp [hpos, hmore]

theorem dropWhile_hyphen (text : Text) : text.dropWhile (· ≠ '-') = [] ∨
    ∃ rest, text.dropWhile (· ≠ '-') = '-' :: rest := by
  have := List.head?_dropWhile_not (fun c => decide (c ≠ '-')) text
  cases hd : text.dropWhile (· ≠ '-') with
  | nil => exact .inl rfl
  | cons c rest =>
    rw [hd] at this
    exact .inr ⟨rest, by simpa using this⟩

theorem isHyphenated_doubleQuotes (isAlphanumeric : Char → Bool) (token : Text) :
    isHyphenated isAlphanumeric (doubleQuotes token) = isHyphenated isAlphanumeric token := by
  simp only [isHyphenated_eq, trimMatches_doubleQuotes, takeWhile_doubleQuotes,
    dropWhile_doubleQuotes, any_doubleQuotes]
  obtain hd | ⟨rest, hd⟩ := dropWhile_hyphen (trimMatches isFtsPunctuation token)
  · rw [hd]
    rfl
  · rw [hd]
    simp [doubleQuotes_cons, any_doubleQuotes]

theorem isHyphenated_quote (isAlphanumeric : Char → Bool) (token : Text) :
    isHyphenated isAlphanumeric ('"' :: token) = isHyphenated isAlphanumeric token ∧
      isHyphenated isAlphanumeric (token ++ ['"']) = isHyphenated isAlphanumeric token := by
  have hquote : isFtsPunctuation '"' = true := by decide
  simp [isHyphenated_eq, trimMatches_cons hquote, trimMatches_snoc hquote]

theorem hasHyphenatedIdentifier_eq (isAlphanumeric : Char → Bool) (text : Text) :
    hasHyphenatedIdentifier isAlphanumeric text =
      (text.splitOnP isWhitespace).any (isHyphenated isAlphanumeric) := by
  have hnil : isHyphenated isAlphanumeric [] = false := by simp [isHyphenated_eq, trimMatches]
  rw [hasHyphenatedIdentifier, splitWhitespace, List.any_filter]
  congr 1
  funext token
  by_cases h : token = [] <;> simp [h, hnil]

theorem splitOnP_doubleQuotes {p : Char → Bool} (hp : p '"' = false) (text : Text) :
    (doubleQuotes text).splitOnP p = (text.splitOnP p).map doubleQuotes := by
  induction text with
  | nil => rfl
  | cons c text ih =>
    obtain ⟨token, tokens, ht⟩ := List.exists_cons_of_ne_nil (List.splitOnP_ne_nil p text)
    rw [doubleQuotes_cons, List.splitOnP_cons_eq_if_modifyHead]
    by_cases hc : c = '"'
    · subst hc
      simp [List.splitOnP_cons_eq_if_modifyHead, hp, ih, ht, doubleQuotes_cons]
    · by_cases hs : p c = true
      · simp [hc, hs, List.splitOnP_cons_eq_if_modifyHead, ih]
      · simp [hc, hs, List.splitOnP_cons_eq_if_modifyHead, ih, ht, doubleQuotes_cons]

theorem splitOnP_snoc {p : Char → Bool} {c : Char} (hc : p c = false) (text : Text) :
    ∃ front last, text.splitOnP p = front ++ [last] ∧
      (text ++ [c]).splitOnP p = front ++ [last ++ [c]] := by
  induction text with
  | nil => exact ⟨[], [], rfl, by simp [List.splitOnP_cons_eq_if_modifyHead, hc]⟩
  | cons a text ih =>
    obtain ⟨front, last, hsplit, hsnoc⟩ := ih
    by_cases ha : p a = true
    · refine ⟨[] :: front, last, ?_, ?_⟩ <;>
        simp [List.splitOnP_cons_eq_if_modifyHead, ha, hsplit, hsnoc]
    · cases front with
      | nil =>
        refine ⟨[], a :: last, ?_, ?_⟩ <;>
          simp [List.splitOnP_cons_eq_if_modifyHead, ha, hsplit, hsnoc]
      | cons token front =>
        refine ⟨(a :: token) :: front, last, ?_, ?_⟩ <;>
          simp [List.splitOnP_cons_eq_if_modifyHead, ha, hsplit, hsnoc]

theorem hasHyphenatedIdentifier_escape (isAlphanumeric : Char → Bool) (input : Text) :
    hasHyphenatedIdentifier isAlphanumeric (escapeFtsQuery input) =
      hasHyphenatedIdentifier isAlphanumeric input := by
  have hquote : isWhitespace '"' = false := by decide
  obtain ⟨front, last, hsplit, hsnoc⟩ := splitOnP_snoc hquote ('"' :: doubleQuotes input)
  have hopen : ((('"' :: doubleQuotes input) ++ ['"']).splitOnP isWhitespace).any
      (isHyphenated isAlphanumeric) =
      (('"' :: doubleQuotes input).splitOnP isWhitespace).any (isHyphenated isAlphanumeric) := by
    rw [hsplit, hsnoc]
    simp [(isHyphenated_quote isAlphanumeric last).2]
  rw [hasHyphenatedIdentifier_eq, hasHyphenatedIdentifier_eq, escapeFtsQuery_eq,
    ← List.cons_append, hopen, List.splitOnP_cons_eq_if_modifyHead, hquote,
    splitOnP_doubleQuotes hquote]
  obtain ⟨token, tokens, ht⟩ := List.exists_cons_of_ne_nil (List.splitOnP_ne_nil isWhitespace input)
  simp [ht, List.any_map, Function.comp_def, (isHyphenated_quote isAlphanumeric _).1,
    isHyphenated_doubleQuotes]

theorem mem_splitOnP {p : Char → Bool} {text : Text} {c : Char} :
    (∃ piece ∈ text.splitOnP p, c ∈ piece) ↔ c ∈ text ∧ p c = false := by
  induction text with
  | nil => simp
  | cons a text ih =>
    obtain ⟨piece, pieces, hs⟩ := List.exists_cons_of_ne_nil (List.splitOnP_ne_nil p text)
    rw [hs] at ih
    rw [List.splitOnP_cons_eq_if_modifyHead, hs]
    by_cases ha : p a = true
    · rw [if_pos ha]
      have hne : p c = false → c ≠ a := by
        rintro hc rfl
        exact absurd ha (by simp [hc])
      simp only [List.mem_cons, exists_eq_or_imp, List.not_mem_nil, false_or] at ih ⊢
      rw [ih]
      constructor
      · exact fun h => ⟨.inr h.1, h.2⟩
      · exact fun h => ⟨h.1.resolve_left (hne h.2), h.2⟩
    · rw [if_neg ha]
      simp only [List.modifyHead_cons, List.mem_cons, exists_eq_or_imp] at ih ⊢
      rw [or_assoc, ih]
      constructor
      · rintro (rfl | h)
        · exact ⟨.inl rfl, by simpa using ha⟩
        · exact ⟨.inr h.1, h.2⟩
      · rintro ⟨rfl | h, hc⟩
        · exact .inl rfl
        · exact .inr ⟨h, hc⟩

theorem mem_ftsParts {text : Text} {c : Char} :
    (∃ part ∈ ftsParts text, c ∈ part) ↔ c ∈ text ∧ isWhitespace c = false ∧ c ≠ '-' := by
  have hpiece : ∀ token : Text, (∃ part ∈ parts token, c ∈ part) ↔ c ∈ token ∧ c ≠ '-' := by
    intro token
    have := @mem_splitOnP (· = '-') token c
    simp only [decide_eq_false_iff_not] at this
    rw [← this]
    constructor
    · rintro ⟨part, hp, hc⟩
      exact ⟨part, (List.mem_filter.mp hp).1, hc⟩
    · rintro ⟨part, hp, hc⟩
      exact ⟨part, List.mem_filter.mpr ⟨hp, by simpa using List.ne_nil_of_mem hc⟩, hc⟩
  have htoken : (∃ token ∈ splitWhitespace text, c ∈ token) ↔ c ∈ text ∧ isWhitespace c = false := by
    rw [← mem_splitOnP]
    constructor
    · rintro ⟨token, ht, hc⟩
      exact ⟨token, (List.mem_filter.mp ht).1, hc⟩
    · rintro ⟨token, ht, hc⟩
      exact ⟨token, List.mem_filter.mpr ⟨ht, by simpa using List.ne_nil_of_mem hc⟩, hc⟩
  rw [← and_assoc, ← htoken]
  constructor
  · rintro ⟨part, hpart, hc⟩
    obtain ⟨token, ht, hp⟩ := List.mem_flatMap.mp hpart
    have := (hpiece token).mp ⟨part, hp, hc⟩
    exact ⟨⟨token, ht, this.1⟩, this.2⟩
  · rintro ⟨⟨token, ht, hc⟩, hne⟩
    obtain ⟨part, hp, hc⟩ := (hpiece token).mpr ⟨hc, hne⟩
    exact ⟨part, List.mem_flatMap.mpr ⟨token, ht, hp⟩, hc⟩

theorem trimMatches_subset (p : Char → Bool) (text : Text) : trimMatches p text ⊆ text := by
  intro c hc
  unfold trimMatches at hc
  exact (List.dropWhile_sublist p).subset
    (List.mem_reverse.mp ((List.dropWhile_sublist p).subset (List.mem_reverse.mp hc)))

theorem mem_of_hasHyphenatedIdentifier {isAlphanumeric : Char → Bool} {text : Text}
    (h : hasHyphenatedIdentifier isAlphanumeric text = true) :
    '-' ∈ text ∧ ∃ c ∈ text, isWhitespace c = false ∧ c ≠ '-' := by
  obtain ⟨token, ht, hhyphen⟩ := List.any_eq_true.mp h
  have hmem : ∀ c ∈ token, c ∈ text ∧ isWhitespace c = false := fun c hc =>
    mem_splitOnP.mp ⟨token, (List.mem_filter.mp ht).1, hc⟩
  rw [isHyphenated_eq, Bool.and_eq_true] at hhyphen
  have htrim := trimMatches_subset isFtsPunctuation token
  constructor
  · obtain ⟨c, hc, -⟩ := List.any_eq_true.mp hhyphen.2
    obtain hd | ⟨rest, hd⟩ := dropWhile_hyphen (trimMatches isFtsPunctuation token)
    · rw [hd] at hc
      simp at hc
    · have hin : '-' ∈ (trimMatches isFtsPunctuation token).dropWhile (· ≠ '-') := by
        rw [hd]
        exact List.mem_cons_self
      exact (hmem '-' (htrim ((List.dropWhile_sublist _).subset hin))).1
  · obtain ⟨c, hc, -⟩ := List.any_eq_true.mp hhyphen.1
    have hne : c ≠ '-' := by
      simpa using List.all_eq_true.mp List.all_takeWhile c hc
    have := hmem c (htrim ((List.takeWhile_sublist _).subset hc))
    exact ⟨c, this.1, this.2, hne⟩

theorem not_mem_ftsParts {text part : Text} (h : part ∈ ftsParts text) : '-' ∉ part := fun hc =>
  (mem_ftsParts.mp ⟨part, h, hc⟩).2.2 rfl

theorem fallback_eq_none {queryText : Text} :
    ftsLiteralTokenFallback queryText = none ↔ ftsParts queryText = [] := by
  rw [fallback_eq]
  cases ftsParts queryText <;> simp

theorem fallback_ne_escape {queryText input : Text} (h : '-' ∈ input) :
    ftsLiteralTokenFallback queryText ≠ some (escapeFtsQuery input) := by
  intro heq
  have hread := readFts_fallback heq
  rw [readFts_escape] at hread
  have hparts : (ftsParts queryText).map phraseOf = [⟨input, false⟩] :=
    (Option.some.inj hread).symm
  obtain ⟨part, hpart, hphrase⟩ := List.mem_map.mp
    (hparts ▸ List.mem_singleton_self (⟨input, false⟩ : Phrase))
  have hinput : part = input := congrArg Phrase.text hphrase
  exact not_mem_ftsParts hpart (hinput ▸ h)

namespace SearchHost

variable {host : SearchHost}

theorem effectiveQuery_escape (host : SearchHost) (input : Text) :
    host.effectiveQuery (escapeFtsQuery input) = escapeFtsQuery input ↔
      hasHyphenatedIdentifier host.isAlphanumeric input = false := by
  unfold effectiveQuery
  rw [hasHyphenatedIdentifier_escape]
  cases h : hasHyphenatedIdentifier host.isAlphanumeric input with
  | false => simp
  | true =>
    obtain ⟨hhyphen, c, hc, hspace, hne⟩ := mem_of_hasHyphenatedIdentifier h
    have hin : c ∈ escapeFtsQuery input := by
      rw [escapeFtsQuery_eq]
      refine List.mem_cons_of_mem _ (List.mem_append_left _ (List.mem_flatMap.mpr ⟨c, hc, ?_⟩))
      split <;> simp_all
    have hsome : ftsLiteralTokenFallback (escapeFtsQuery input) ≠ none := by
      rw [Ne, fallback_eq_none]
      obtain ⟨part, hpart, -⟩ := mem_ftsParts.mpr ⟨hin, hspace, hne⟩
      exact List.ne_nil_of_mem hpart
    obtain ⟨sanitised, hs⟩ := Option.ne_none_iff_exists'.mp hsome
    simp only [if_true, hs, Bool.true_eq_false, iff_false]
    rintro rfl
    exact fallback_ne_escape hhyphen hs

theorem search_head (host : SearchHost) (scope : ScopeId) (queryText : Text) (limit : Nat) :
    (host.search scope queryText limit).1.head? = some (host.effectiveQuery queryText) := by
  unfold search
  dsimp only
  split
  · rfl
  · split
    · split <;> rfl
    · rfl
  · rfl

theorem query_eq {scopeId : String} {scope : ScopeId}
    (hscope : parseScopeId host.parse scopeId = .ok scope) (hopen : host.opened = true)
    (hlive : host.forgotten scope = false) (queryText : Text) (limit : Nat) :
    host.query scopeId queryText limit =
      ((host.search scope queryText limit).1,
        (host.search scope queryText limit).2.map host.results) := by
  simp [query, hscope, hopen, hlive]

/-- The fallback is always the literal parts of the text, but escaped text is searched as it is
only where it has no hyphenated identifier. -/
theorem search_text_literal_iff (host : SearchHost) {scopeId : String} {scope : ScopeId}
    (hscope : parseScopeId host.parse scopeId = .ok scope) (hopen : host.opened = true)
    (hlive : host.forgotten scope = false) (limit : Nat) :
    (∀ q e, ftsLiteralTokenFallback q = some e →
      readFts e = some ((ftsParts q).map phraseOf)) ∧
    (∀ q, ftsLiteralTokenFallback q = none → ftsParts q = []) ∧
    ∀ s, readFts (escapeFtsQuery s) = some [⟨s, false⟩] ∧
      ((host.query scopeId (escapeFtsQuery s) limit).1.head? = some (escapeFtsQuery s) ↔
        hasHyphenatedIdentifier host.isAlphanumeric s = false) := by
  refine ⟨fun q e => readFts_fallback, fun q => fallback_eq_none.mp,
    fun s => ⟨readFts_escape s, ?_⟩⟩
  rw [query_eq hscope hopen hlive, search_head, Option.some.injEq, effectiveQuery_escape]

def empty : SearchHost where
  isAlphanumeric := Char.isAlphanum
  parse _ := .ok 7
  opened := true
  forgotten _ := false
  searchFts _ _ _ := .ok []
  readBody _ := none

theorem search_text_literal_empty :
    (SearchHost.empty.query "7" (escapeFtsQuery "BR 2505".toList) 10).1.head? =
      some "\"BR 2505\"".toList := by
  have h := (search_text_literal_iff SearchHost.empty (show parseScopeId empty.parse "7" = .ok 7 by
    decide) rfl rfl 10).2.2 "BR 2505".toList
  exact (h.2.mpr (by decide +kernel)).trans (by decide +kernel)

/-- A lot number that a caller has escaped is cut at its hyphen. -/
theorem escaped_hyphen_rewritten :
    escapeFtsQuery "BR-2505".toList = "\"BR-2505\"".toList ∧
      (SearchHost.empty.query "7" (escapeFtsQuery "BR-2505".toList) 10).1 =
        ["\"\"\"BR\" \"2505\"\"\"".toList] ∧
      (SearchHost.empty.query "7" (escapeFtsQuery "BR-2505".toList) 10).1.head? ≠
        some (escapeFtsQuery "BR-2505".toList) := by
  decide +kernel

end SearchHost

end Knowledge.Runtime
