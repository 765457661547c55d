import Knowledge.Agent.Proposals
import Knowledge.Lib.JsonText
import Mathlib.Data.List.DropRight

/-!
`SummaryBundle` of `crates/inference_router/src/task.rs`, and the parser that salvages a bundle
from model output that was cut off. A text is the list of its characters.
-/

set_option autoImplicit false

namespace Knowledge.Inference
open Knowledge.Agent (isWhitespace)
open Knowledge.JsonText

abbrev Text := List Char

def trim (text : Text) : Text := (text.dropWhile isWhitespace).rdropWhile isWhitespace

structure SummaryBundle where
  recap : Text
  decisions : List Text
  openQuestions : List Text
  activeTasks : List Text
  deriving DecidableEq

open SummaryBundle

def SummaryBundle.default : SummaryBundle := ⟨[], [], [], []⟩

def synthExemplarTokens : List Text :=
  ["EXAMPLE_DECISION".toList, "EXAMPLE_TASK".toList, "EXAMPLE_TERM_A".toList,
    "EXAMPLE_TERM_B".toList]

structure Scan where
  out : Text
  stack : List Char
  inString : Bool
  escaped : Bool

def scanChar (scan : Scan) (ch : Char) : Option Scan :=
  if scan.inString then
    if scan.escaped then some { scan with out := scan.out ++ [ch], escaped := false }
    else if ch = '\\' then some { scan with out := scan.out ++ [ch], escaped := true }
    else if ch = '"' then some { scan with out := scan.out ++ [ch], inString := false }
    else some { scan with out := scan.out ++ [ch] }
  else match ch with
  | '"' => some { scan with out := scan.out ++ [ch], inString := true }
  | '{' | '[' => some { scan with out := scan.out ++ [ch], stack := ch :: scan.stack }
  | '}' =>
    if scan.stack.head? = some '{' then
      some { scan with out := scan.out ++ [ch], stack := scan.stack.tail }
    else none
  | ']' =>
    if scan.stack.head? = some '[' then
      some { scan with out := scan.out ++ [ch], stack := scan.stack.tail }
    else none
  | _ => some { scan with out := scan.out ++ [ch] }

def dropSeparators (text : Text) : Text :=
  text.rdropWhile fun c => isWhitespace c || c = ',' || c = ':'

def closingChar (bracket : Char) : Char := if bracket = '{' then '}' else ']'

def closeTruncatedJson (s : Text) : Option Text :=
  (s.foldlM scanChar ⟨[], [], false, false⟩).map fun scan =>
    let out := if scan.inString && scan.escaped then scan.out.dropLast else scan.out
    let out := if scan.inString then out ++ ['"'] else out
    dropSeparators out ++ scan.stack.map closingChar

section

variable {ε : Type} (fromStr : Text → Except ε SummaryBundle)

def SummaryBundle.fromSlmStrSalvaged (raw : Text) : Except ε (SummaryBundle × Bool) :=
  let trimmed := trim raw
  match fromStr trimmed with
  | .ok bundle => .ok (bundle, false)
  | .error strictErr =>
    match trimmed.inits.reverse.findSome? fun part =>
        (closeTruncatedJson part).bind fun closed => (fromStr closed).toOption with
    | some bundle => .ok (bundle, true)
    | none => .error strictErr

def SummaryBundle.fromSlmStr (raw : Text) : Except ε SummaryBundle :=
  (fromSlmStrSalvaged fromStr raw).map Prod.fst

end

def asText : Tree → Option Text
  | .str pieces => decode pieces
  | _ => none

def asTexts : Tree → Option (List Text)
  | .arr items => items.mapM asText
  | _ => none

structure Visited where
  recap : Option Text
  decisions : Option (List Text)
  openQuestions : Option (List Text)
  activeTasks : Option (List Text)

open Visited

def Visited.visit (visited : Visited) (member : List Piece × Tree) : Option Visited :=
  (decode member.1).bind fun name =>
    if name = "recap".toList then
      if visited.recap.isSome then none
      else (asText member.2).map fun text => { visited with recap := some text }
    else if name = "decisions".toList then
      if visited.decisions.isSome then none
      else (asTexts member.2).map fun texts => { visited with decisions := some texts }
    else if name = "open_questions".toList then
      if visited.openQuestions.isSome then none
      else (asTexts member.2).map fun texts => { visited with openQuestions := some texts }
    else if name = "active_tasks".toList then
      if visited.activeTasks.isSome then none
      else (asTexts member.2).map fun texts => { visited with activeTasks := some texts }
    else some visited

/-- The derived reader: fields by name, or in order in an array, with defaults for missing ones. -/
def SummaryBundle.ofTree : Tree → Option SummaryBundle
  | .str _ => none
  | .arr items =>
    if 4 < items.length then none
    else do
      let recap ← (items[0]?).elim (some []) asText
      let decisions ← (items[1]?).elim (some []) asTexts
      let openQuestions ← (items[2]?).elim (some []) asTexts
      let activeTasks ← (items[3]?).elim (some []) asTexts
      return ⟨recap, decisions, openQuestions, activeTasks⟩
  | .obj members =>
    (members.foldlM Visited.visit ⟨none, none, none, none⟩).map fun visited =>
      ⟨visited.recap.getD [], visited.decisions.getD [], visited.openQuestions.getD [],
        visited.activeTasks.getD []⟩

/-- What is used of `serde_json::from_str`: a text of strings, arrays and objects is read as its
tree, and a text that ends in a string, or has an illegal character in one, is refused. -/
structure StandardReader {ε : Type} (fromStr : Text → Except ε SummaryBundle) : Prop where
  reads : ∀ text tokens, lex text = some tokens →
    (fromStr text).toOption = (read tokens).bind SummaryBundle.ofTree
  refuses : ∀ (before rest : Text) (tokens : List JsonText.Token) (pieces : List Piece)
    (place : Place), lexRun before = some ⟨tokens, .inString pieces place⟩ →
    (∀ c ∈ rest.head?, lexChar ⟨tokens, .inString pieces place⟩ c = none) →
    (fromStr (before ++ rest)).toOption = none

/-- The bundle's members, in the order of the grammar. -/
def SummaryBundle.Spelt (bundle : SummaryBundle) (members : List (List Piece × Tree)) : Prop :=
  ∃ name₁ name₂ name₃ name₄ recap decisions openQuestions activeTasks,
    members = [(name₁, .str recap), (name₂, .arr decisions), (name₃, .arr openQuestions),
      (name₄, .arr activeTasks)] ∧
    (decode name₁ = some "recap".toList ∧ decode recap = some bundle.recap) ∧
    (decode name₂ = some "decisions".toList ∧ decisions.mapM asText = some bundle.decisions) ∧
    (decode name₃ = some "open_questions".toList ∧
      openQuestions.mapM asText = some bundle.openQuestions) ∧
    (decode name₄ = some "active_tasks".toList ∧
      activeTasks.mapM asText = some bundle.activeTasks)

/-- A JSON text of the bundle. -/
def SummaryBundle.IsText (bundle : SummaryBundle) (text : Text) : Prop :=
  ∃ tokens members, lex text = some tokens ∧ read tokens = some (.obj members) ∧
    bundle.Spelt members

def CutList (cut whole : List Text) : Prop :=
  cut <+: whole ∨ ∃ items last full, cut = items ++ [last] ∧ last <+: full ∧
    items ++ [full] <+: whole

/-- The fields before the position are the whole's, the one there is cut, later ones are empty. -/
def SummaryBundle.PrefixAt (position : Nat) (cut whole : SummaryBundle) : Prop :=
  match position with
  | 0 => cut.recap <+: whole.recap ∧ cut.decisions = [] ∧ cut.openQuestions = [] ∧
      cut.activeTasks = []
  | 1 => cut.recap = whole.recap ∧ CutList cut.decisions whole.decisions ∧
      cut.openQuestions = [] ∧ cut.activeTasks = []
  | 2 => cut.recap = whole.recap ∧ cut.decisions = whole.decisions ∧
      CutList cut.openQuestions whole.openQuestions ∧ cut.activeTasks = []
  | 3 => cut.recap = whole.recap ∧ cut.decisions = whole.decisions ∧
      cut.openQuestions = whole.openQuestions ∧ CutList cut.activeTasks whole.activeTasks
  | _ => cut = whole

def isString : Mode → Bool
  | .between => false
  | .inString _ _ => true

def isEscaped : Mode → Bool
  | .inString _ .escape => true
  | _ => false

theorem scanChar_blank {c : Char} (h : isBlank c = true) (out stack : Text) :
    scanChar ⟨out, stack, false, false⟩ c = some ⟨out ++ [c], stack, false, false⟩ := by
  simp only [isBlank, Bool.or_eq_true, decide_eq_true_eq] at h
  rcases h with ((rfl | rfl) | rfl) | rfl <;> rfl

theorem scanChar_punctuation {c : Char} {token : JsonText.Token} (h : punctuation c = some token)
    {stack next : Text} (hnest : nest stack token = some next) (out : Text) :
    scanChar ⟨out, stack, false, false⟩ c = some ⟨out ++ [c], next, false, false⟩ := by
  unfold punctuation at h
  split at h <;> simp only [Option.some.injEq, reduceCtorEq] at h <;> subst h
  · simpa [nest, scanChar] using hnest
  · simpa [nest, scanChar] using hnest
  · simpa [nest, scanChar] using hnest
  · simpa [nest, scanChar] using hnest
  · simpa [nest, scanChar] using hnest
  · simpa [nest, scanChar] using hnest

theorem scan_run {text : Text} {lexed : Lexed} (h : lexRun text = some lexed) {stack : Text}
    (hstack : lexed.tokens.foldlM nest [] = some stack) :
    text.foldlM scanChar ⟨[], [], false, false⟩ =
      some ⟨text, stack, isString lexed.mode, isEscaped lexed.mode⟩ := by
  induction text using List.reverseRecOn generalizing lexed stack with
  | nil =>
    obtain rfl := Option.some.inj h
    obtain rfl := Option.some.inj hstack
    rfl
  | append_singleton text c ih =>
    obtain ⟨before, hbefore, hc⟩ := lexRun_snoc.mp h
    suffices hscan : ∃ stack', before.tokens.foldlM nest [] = some stack' ∧
        scanChar ⟨text, stack', isString before.mode, isEscaped before.mode⟩ c =
          some ⟨text ++ [c], stack, isString lexed.mode, isEscaped lexed.mode⟩ by
      obtain ⟨stack', hstack', hscan⟩ := hscan
      rw [List.foldlM_append, ih hbefore hstack']
      simpa using hscan
    cases lexChar_step hc with
    | blank hblank => exact ⟨stack, hstack, scanChar_blank hblank _ _⟩
    | punctuation htoken =>
      rw [List.foldlM_append] at hstack
      obtain ⟨stack', hstack', hnest⟩ := Option.bind_eq_some_iff.mp hstack
      exact ⟨stack', hstack', scanChar_punctuation htoken (by simpa using hnest) _⟩
    | openQuote => exact ⟨stack, hstack, rfl⟩
    | closeQuote =>
      rw [List.foldlM_append] at hstack
      obtain ⟨stack', hstack', hnest⟩ := Option.bind_eq_some_iff.mp hstack
      obtain rfl : stack' = stack := by simpa [nest] using hnest
      exact ⟨stack', hstack', rfl⟩
    | backslash => exact ⟨stack, hstack, rfl⟩
    | @inside tokens pieces pieces' place place' _ _ hplain hplace =>
      refine ⟨stack, hstack, ?_⟩
      cases place <;> cases place' <;> simp_all [scanChar, isString, isEscaped]

theorem not_separator_quote : ¬(isWhitespace '"' || '"' = ',' || '"' = ':') = true := by decide

theorem separator_punctuation {c : Char} {token : JsonText.Token} (h : punctuation c = some token)
    (hc : (isWhitespace c || c = ',' || c = ':') = true) : token = .comma ∨ token = .colon := by
  unfold punctuation at h
  split at h
  case h_5 => exact .inl (Option.some.inj h).symm
  case h_6 => exact .inr (Option.some.inj h).symm
  case h_7 => cases h
  all_goals exact absurd hc (by decide)

theorem dropSeparators_run {text : Text} {tokens : List JsonText.Token} {reader : Reader}
    (h : lexRun text = some ⟨tokens, .between⟩)
    (hreader : tokens.foldlM Reader.step (.value []) = some reader) :
    ∃ part reader', part <+: tokens ∧ lexRun (dropSeparators text) = some ⟨part, .between⟩ ∧
      part.foldlM Reader.step (.value []) = some reader' ∧
      reader'.opens = reader.opens ∧ reader'.members = reader.members := by
  induction text using List.reverseRecOn generalizing tokens reader with
  | nil => exact ⟨tokens, reader, List.prefix_rfl, h, hreader, rfl, rfl⟩
  | append_singleton text c ih =>
    by_cases hc : (isWhitespace c || c = ',' || c = ':') = true
    · have hdrop : dropSeparators (text ++ [c]) = dropSeparators text :=
        List.rdropWhile_concat_pos _ _ _ hc
      rw [hdrop]
      obtain ⟨before, hbefore, hstep⟩ := lexRun_snoc.mp h
      cases lexChar_step hstep with
      | blank => exact ih hbefore hreader
      | @punctuation tokens _ token htoken =>
        rw [List.foldlM_append] at hreader
        obtain ⟨last, hlast, hnext⟩ := Option.bind_eq_some_iff.mp hreader
        obtain ⟨part, reader', hpart, hrun, hreader', hopens, hmembers⟩ := ih hbefore hlast
        obtain ⟨hsame, hkept⟩ :=
          Reader.step_separator (by simpa using hnext) (separator_punctuation htoken hc)
        exact ⟨part, reader', hpart.trans (List.prefix_append _ _), hrun, hreader',
          hopens.trans hsame.symm, hmembers.trans hkept.symm⟩
      | closeQuote => exact absurd hc not_separator_quote
    · have hdrop : dropSeparators (text ++ [c]) = text ++ [c] :=
        List.rdropWhile_concat_neg _ _ _ hc
      rw [hdrop]
      exact ⟨tokens, reader, List.prefix_rfl, h, hreader, rfl, rfl⟩

theorem lexChar_closing (tokens : List JsonText.Token) (bracket : Char) :
    lexChar ⟨tokens, .between⟩ (closingChar bracket) =
      some ⟨tokens ++ [closer bracket], .between⟩ := by
  unfold closingChar closer
  split <;> rfl

section

variable {text : Text} {tokens : List JsonText.Token}

theorem closing_run (h : lexRun text = some ⟨tokens, .between⟩) (stack : Text) :
    lex (text ++ stack.map closingChar) = some (tokens ++ stack.map closer) := by
  rw [lex_eq, lexRun_append h]
  clear h
  induction stack generalizing tokens with
  | nil => simp
  | cons bracket stack ih =>
    simp only [List.map_cons, List.foldlM_cons, lexChar_closing, Option.bind_eq_bind,
      Option.bind_some, ih, List.append_assoc, List.singleton_append]

theorem quote_run {pieces : List Piece}
    (h : lexRun text = some ⟨tokens, .inString pieces .plain⟩) (stack : Text) :
    lex (dropSeparators (text ++ ['"']) ++ stack.map closingChar) =
      some (tokens ++ .str pieces :: stack.map closer) := by
  have hdrop : dropSeparators (text ++ ['"']) = text ++ ['"'] :=
    List.rdropWhile_concat_neg _ _ _ not_separator_quote
  have hquote : lexRun (text ++ ['"']) = some ⟨tokens ++ [.str pieces], .between⟩ :=
    lexRun_snoc.mpr ⟨_, h, rfl⟩
  rw [hdrop, closing_run hquote, List.append_assoc, List.singleton_append]

theorem escape_run {pieces : List Piece}
    (h : lexRun text = some ⟨tokens, .inString pieces .escape⟩) :
    lexRun text.dropLast = some ⟨tokens, .inString pieces .plain⟩ := by
  rcases List.eq_nil_or_concat text with rfl | ⟨before, c, rfl⟩
  · cases h
  · rw [List.concat_eq_append] at h ⊢
    rw [List.dropLast_concat]
    obtain ⟨lexed, hbefore, hc⟩ := lexRun_snoc.mp h
    cases lexChar_step hc with
    | backslash => exact hbefore
    | inside hpieces hplain hplace => exact absurd rfl hplace

/-- What a cut text is closed to: either a string in it still has an illegal character, or its
tree is a cut of the whole text's, at the member that was not finished. -/
theorem closeTruncatedJson_cut {whole : Tree}
    (hlex : lex text = some tokens) (hread : read tokens = some whole) {part closed : Text}
    (hpart : part <+: text) (h : closeTruncatedJson part = some closed) :
    (∃ before rest tokens pieces place, closed = before ++ rest ∧
      lexRun before = some ⟨tokens, .inString pieces place⟩ ∧
      ∀ c ∈ rest.head?, lexChar ⟨tokens, .inString pieces place⟩ c = none) ∨
    ∃ tokens, lex closed = some tokens ∧
      ∀ tree, read tokens = some tree → CutAt (finished part) tree whole := by
  obtain ⟨⟨tokens', mode⟩, hrun, hprefix, hinside⟩ := lex_part hlex hpart
  obtain ⟨reader, hreader, -, hstack⟩ := read_part hread hprefix
  rw [closeTruncatedJson, scan_run hrun hstack, Option.map_some, Option.some.injEq] at h
  rw [finished_eq hrun hreader]
  cases mode with
  | between =>
    obtain ⟨part', reader', hpart', hrun', hreader', hopens, hmembers⟩ :=
      dropSeparators_run hrun hreader
    refine .inr ⟨_, h ▸ closing_run hrun' _, fun tree htree => ?_⟩
    rw [← hmembers]
    rw [← hopens] at htree
    exact read_closed_cut hread (hpart'.trans hprefix) hreader' htree
  | inString pieces place =>
    obtain ⟨full, hpieces, hfull⟩ := hinside pieces place rfl
    have hcut := fun tree => @read_closed_str_cut tokens' tokens reader tree whole pieces full
      hread hfull hpieces hreader
    cases place with
    | plain => exact .inr ⟨_, h ▸ quote_run hrun _, hcut⟩
    | escape => exact .inr ⟨_, h ▸ quote_run (escape_run hrun) _, hcut⟩
    | hex digits value =>
      have hdrop : dropSeparators (part ++ ['"']) = part ++ ['"'] :=
        List.rdropWhile_concat_neg _ _ _ not_separator_quote
      refine .inl ⟨part, '"' :: reader.opens.map closingChar, _, _, _, ?_, hrun, by simp; rfl⟩
      simpa [isString, isEscaped, hdrop] using h.symm

end

def ClosesTo (part : Text) (tree : Tree) : Prop :=
  ∃ closed tokens, closeTruncatedJson part = some closed ∧ lex closed = some tokens ∧
    read tokens = some tree

section

variable {text part : Text} {tokens : List JsonText.Token} {whole : Tree} {c : Char}

theorem finished_token {before : Lexed} {token : JsonText.Token} (hread : read tokens = some whole)
    (hbefore : lexRun part = some before)
    (hrun : lexRun (part ++ [c]) = some ⟨before.tokens ++ [token], .between⟩)
    (hbegin : before.tokens ++ [token] <+: tokens)
    (hc : (isWhitespace c || c = ',' || c = ':') = true → token = .comma ∨ token = .colon) :
    finished (part ++ [c]) = finished part ∨
      ∃ members more, ClosesTo (part ++ [c]) (.obj members) ∧ whole = .obj (members ++ more) := by
  obtain ⟨reader, hreader, hreaches, hstack⟩ := read_part hread hbegin
  have hnext := hreader
  rw [List.foldlM_append] at hnext
  obtain ⟨last, hlast, hnext⟩ := Option.bind_eq_some_iff.mp hnext
  have hstep : last.step token = some reader := by simpa using hnext
  rw [finished_eq hrun hreader, finished_eq hbefore hlast]
  obtain hsame | ⟨tree, members, name, rfl, -⟩ := Reader.step_members hstep
  · exact .inl hsame
  · by_cases hseparator : (isWhitespace c || c = ',' || c = ':') = true
    · exact .inl (Reader.step_separator hstep (hc hseparator)).2
    · obtain ⟨more, rfl⟩ := hreaches
      have hdrop : dropSeparators (part ++ [c]) = part ++ [c] :=
        List.rdropWhile_concat_neg _ _ _ hseparator
      refine .inr ⟨members ++ [(name, tree)], more, ⟨_, _, ?_, closing_run hrun ['{'],
        (read_append hreader).trans (Reader.closed_after tree [.obj members name])⟩, by simp⟩
      rw [closeTruncatedJson, scan_run hrun hstack]
      exact congrArg some (congrArg (· ++ _) hdrop)

/-- A character either finishes no member, or the text up to it closes to the members so far. -/
theorem finished_snoc (hlex : lex text = some tokens) (hread : read tokens = some whole)
    (hpart : part ++ [c] <+: text) :
    finished (part ++ [c]) = finished part ∨
      ∃ members more, ClosesTo (part ++ [c]) (.obj members) ∧ whole = .obj (members ++ more) := by
  obtain ⟨next, hrun, hprefix, -⟩ := lex_part hlex hpart
  obtain ⟨reader, hreader, -⟩ := read_part hread hprefix
  obtain ⟨before, hbefore, hstep⟩ := lexRun_snoc.mp hrun
  cases lexChar_step hstep with
  | punctuation htoken =>
    exact finished_token hread hbefore hrun hprefix fun hc => separator_punctuation htoken hc
  | closeQuote =>
    exact finished_token hread hbefore hrun hprefix fun hc => absurd hc not_separator_quote
  | _ => exact .inl ((finished_eq hrun hreader).trans (finished_eq hbefore hreader).symm)

end

theorem lexChar_whitespace {tokens : List JsonText.Token} {c : Char} {lexed : Lexed}
    (hc : isWhitespace c = true) (h : lexChar ⟨tokens, .between⟩ c = some lexed) :
    lexed = ⟨tokens, .between⟩ := by
  cases lexChar_step h with
  | blank => rfl
  | punctuation htoken =>
    unfold punctuation at htoken
    split at htoken
    case h_7 => cases htoken
    all_goals exact absurd hc (by decide)
  | openQuote => exact absurd hc (by decide)

theorem dropWhile_run {text : Text} {lexed : Lexed} (h : lexRun text = some lexed) :
    lexRun (text.dropWhile isWhitespace) = some lexed := by
  induction text with
  | nil => exact h
  | cons c text ih =>
    rw [List.dropWhile_cons]
    split
    · rename_i hc
      obtain ⟨next, hnext, hrest⟩ := Option.bind_eq_some_iff.mp h
      obtain rfl := lexChar_whitespace hc hnext
      exact ih hrest
    · exact h

theorem rdropWhile_run {text : Text} {lexed : Lexed} (h : lexRun text = some lexed) :
    ∃ mode, lexRun (text.rdropWhile isWhitespace) = some ⟨lexed.tokens, mode⟩ ∧
      (lexed.mode = .between → mode = .between) := by
  induction text using List.reverseRecOn generalizing lexed with
  | nil => exact ⟨lexed.mode, h, id⟩
  | append_singleton text c ih =>
    by_cases hc : isWhitespace c = true
    · rw [List.rdropWhile_concat_pos _ _ _ hc]
      obtain ⟨before, hbefore, hstep⟩ := lexRun_snoc.mp h
      cases lexChar_step hstep with
      | blank => exact ih hbefore
      | punctuation htoken =>
        have hsame := lexChar_whitespace hc hstep
        simp at hsame
      | openQuote => exact absurd hc (by decide)
      | closeQuote => exact absurd hc (by decide)
      | backslash => exact absurd hc (by decide)
      | inside =>
        obtain ⟨mode, hmode, -⟩ := ih hbefore
        exact ⟨mode, hmode, by simp⟩
    · rw [List.rdropWhile_concat_neg _ _ _ hc]
      exact ⟨lexed.mode, h, id⟩

theorem asText_cut {tree whole : Tree} {text full : Text} (h : Cut tree whole)
    (htext : asText tree = some text) (hfull : asText whole = some full) : text <+: full := by
  cases h with
  | refl => exact Option.some.inj (htext.symm.trans hfull) ▸ List.prefix_rfl
  | str hpieces => exact decode_cut hpieces htext hfull
  | arr => cases htext
  | item => cases htext
  | obj => cases htext
  | member => cases htext

theorem mapM_snoc {items : List Tree} {tree : Tree} {texts : List Text}
    (h : (items ++ [tree]).mapM asText = some texts) : ∃ texts' text,
      items.mapM asText = some texts' ∧ asText tree = some text ∧ texts = texts' ++ [text] := by
  simp only [List.mapM_append, List.mapM_cons, List.mapM_nil, Option.pure_def, Option.bind_eq_bind,
    Option.bind_eq_some_iff, Option.some.injEq] at h
  obtain ⟨texts', htexts, _, ⟨text, htext, _, rfl, rfl⟩, rfl⟩ := h
  exact ⟨texts', text, htexts, htext, rfl⟩

theorem mapM_append {items more : List Tree} {texts : List Text}
    (h : (items ++ more).mapM asText = some texts) : ∃ texts' rest,
      items.mapM asText = some texts' ∧ more.mapM asText = some rest ∧ texts = texts' ++ rest := by
  simp only [List.mapM_append, Option.pure_def, Option.bind_eq_bind, Option.bind_eq_some_iff,
    Option.some.injEq] at h
  obtain ⟨texts', htexts, rest, hrest, rfl⟩ := h
  exact ⟨texts', rest, htexts, hrest, rfl⟩

theorem asTexts_cut {tree : Tree} {items : List Tree} {texts full : List Text}
    (h : Cut tree (.arr items)) (htexts : asTexts tree = some texts)
    (hfull : items.mapM asText = some full) : CutList texts full := by
  cases h with
  | refl => exact .inl (Option.some.inj (htexts.symm.trans hfull) ▸ List.prefix_rfl)
  | arr =>
    obtain ⟨texts', rest, htexts', -, rfl⟩ := mapM_append hfull
    exact .inl (Option.some.inj (htexts.symm.trans htexts') ▸ List.prefix_append _ _)
  | @item items more tree whole hcut =>
    obtain ⟨texts', text, htexts', htext, rfl⟩ := mapM_snoc htexts
    rw [← List.singleton_append, ← List.append_assoc] at hfull
    obtain ⟨init, rest, hinit, -, rfl⟩ := mapM_append hfull
    obtain ⟨texts'', text', htexts'', htext', rfl⟩ := mapM_snoc hinit
    obtain rfl := Option.some.inj (htexts''.symm.trans htexts')
    exact .inr ⟨_, _, _, rfl, asText_cut hcut htext htext', List.prefix_append _ _⟩

section

variable {name : List Piece} {tree : Tree}

theorem visit_recap (hname : decode name = some "recap".toList) :
    visit ⟨none, none, none, none⟩ (name, tree) =
      (asText tree).map fun text => ⟨some text, none, none, none⟩ := by
  simp only [visit, hname, Option.bind_some, if_true]
  rfl

theorem visit_decisions {recap : Option Text} (hname : decode name = some "decisions".toList) :
    visit ⟨recap, none, none, none⟩ (name, tree) =
      (asTexts tree).map fun texts => ⟨recap, some texts, none, none⟩ := by
  simp only [visit, hname, Option.bind_some]
  rw [if_neg (by decide), if_pos trivial]
  rfl

theorem visit_openQuestions {recap : Option Text} {decisions : Option (List Text)}
    (hname : decode name = some "open_questions".toList) :
    visit ⟨recap, decisions, none, none⟩ (name, tree) =
      (asTexts tree).map fun texts => ⟨recap, decisions, some texts, none⟩ := by
  simp only [visit, hname, Option.bind_some]
  rw [if_neg (by decide), if_neg (by decide), if_pos trivial]
  rfl

theorem visit_activeTasks {recap : Option Text} {decisions openQuestions : Option (List Text)}
    (hname : decode name = some "active_tasks".toList) :
    visit ⟨recap, decisions, openQuestions, none⟩ (name, tree) =
      (asTexts tree).map fun texts => ⟨recap, decisions, openQuestions, some texts⟩ := by
  simp only [visit, hname, Option.bind_some]
  rw [if_neg (by decide), if_neg (by decide), if_neg (by decide), if_pos trivial]
  rfl

end

namespace SummaryBundle.Spelt

variable {bundle : SummaryBundle} {members more : List (List Piece × Tree)}

theorem ofTree_whole (h : bundle.Spelt members) : ofTree (.obj members) = some bundle := by
  obtain ⟨_, _, _, _, _, _, _, _, rfl, hrecap, hdecisions, hquestions, htasks⟩ := h
  simp [ofTree, visit_recap hrecap.1, visit_decisions hdecisions.1,
    visit_openQuestions hquestions.1, visit_activeTasks htasks.1, asText, asTexts, hrecap.2,
    hdecisions.2, hquestions.2, htasks.2]

theorem ofTree_front (h : bundle.Spelt (members ++ more)) :
    ∃ cut, ofTree (.obj members) = some cut ∧ cut.PrefixAt members.length bundle := by
  have hall := h
  obtain ⟨_, _, _, _, _, _, _, _, hmembers, hrecap, hdecisions, hquestions, htasks⟩ := h
  rcases members with _ | ⟨m₁, _ | ⟨m₂, _ | ⟨m₃, _ | ⟨m₄, _ | ⟨m₅, members⟩⟩⟩⟩⟩
  · exact ⟨_, rfl, List.nil_prefix, rfl, rfl, rfl⟩
  all_goals simp only [List.nil_append, List.cons_append, List.cons.injEq, reduceCtorEq,
    and_false] at hmembers
  · obtain ⟨rfl, -⟩ := hmembers
    refine ⟨⟨bundle.recap, [], [], []⟩, ?_, rfl, .inl List.nil_prefix, rfl, rfl⟩
    simp [ofTree, visit_recap hrecap.1, asText, hrecap.2]
  · obtain ⟨rfl, rfl, -⟩ := hmembers
    refine ⟨⟨bundle.recap, bundle.decisions, [], []⟩, ?_, rfl, rfl, .inl List.nil_prefix, rfl⟩
    simp [ofTree, visit_recap hrecap.1, visit_decisions hdecisions.1, asText, asTexts, hrecap.2,
      hdecisions.2]
  · obtain ⟨rfl, rfl, rfl, -⟩ := hmembers
    refine ⟨⟨bundle.recap, bundle.decisions, bundle.openQuestions, []⟩, ?_, rfl, rfl, rfl,
      .inl List.nil_prefix⟩
    simp [ofTree, visit_recap hrecap.1, visit_decisions hdecisions.1,
      visit_openQuestions hquestions.1, asText, asTexts, hrecap.2, hdecisions.2, hquestions.2]
  · obtain ⟨rfl, rfl, rfl, rfl, rfl⟩ := hmembers
    exact ⟨bundle, ofTree_whole hall, rfl⟩

theorem ofTree_member {name : List Piece} {tree whole : Tree} {cut : SummaryBundle}
    (h : bundle.Spelt (members ++ (name, whole) :: more)) (hin : Cut tree whole)
    (hcut : ofTree (.obj (members ++ [(name, tree)])) = some cut) :
    cut.PrefixAt members.length bundle := by
  obtain ⟨_, _, _, _, _, _, _, _, hmembers, hrecap, hdecisions, hquestions, htasks⟩ := h
  rcases members with _ | ⟨m₁, _ | ⟨m₂, _ | ⟨m₃, _ | ⟨m₄, members⟩⟩⟩⟩
  · simp only [List.nil_append, List.cons.injEq, Prod.mk.injEq] at hmembers
    obtain ⟨⟨rfl, rfl⟩, -⟩ := hmembers
    simp [ofTree, visit_recap hrecap.1] at hcut
    obtain ⟨text, htext, rfl⟩ := hcut
    exact ⟨asText_cut hin htext hrecap.2, rfl, rfl, rfl⟩
  · simp only [List.nil_append, List.cons_append, List.cons.injEq, Prod.mk.injEq] at hmembers
    obtain ⟨rfl, ⟨rfl, rfl⟩, -⟩ := hmembers
    simp [ofTree, visit_recap hrecap.1, visit_decisions hdecisions.1, asText, hrecap.2] at hcut
    obtain ⟨texts, htexts, rfl⟩ := hcut
    exact ⟨rfl, asTexts_cut hin htexts hdecisions.2, rfl, rfl⟩
  · simp only [List.nil_append, List.cons_append, List.cons.injEq, Prod.mk.injEq] at hmembers
    obtain ⟨rfl, rfl, ⟨rfl, rfl⟩, -⟩ := hmembers
    simp [ofTree, visit_recap hrecap.1, visit_decisions hdecisions.1,
      visit_openQuestions hquestions.1, asText, asTexts, hrecap.2, hdecisions.2] at hcut
    obtain ⟨texts, htexts, rfl⟩ := hcut
    exact ⟨rfl, rfl, asTexts_cut hin htexts hquestions.2, rfl⟩
  · simp only [List.nil_append, List.cons_append, List.cons.injEq, Prod.mk.injEq] at hmembers
    obtain ⟨rfl, rfl, rfl, ⟨rfl, rfl⟩, -⟩ := hmembers
    simp [ofTree, visit_recap hrecap.1, visit_decisions hdecisions.1,
      visit_openQuestions hquestions.1, visit_activeTasks htasks.1, asText, asTexts, hrecap.2,
      hdecisions.2, hquestions.2] at hcut
    obtain ⟨texts, htexts, rfl⟩ := hcut
    exact ⟨rfl, rfl, rfl, asTexts_cut hin htexts htasks.2⟩
  · simp at hmembers

/-- A cut at the members that were finished is read with the fields up to there as they are. -/
theorem ofTree_cut {finished : List (List Piece × Tree)} {tree : Tree} {cut : SummaryBundle}
    (h : bundle.Spelt members) (hat : CutAt finished tree (.obj members))
    (hcut : ofTree tree = some cut) : cut.PrefixAt finished.length bundle := by
  obtain ⟨ahead, rfl⟩ := hat.ahead
  obtain rfl | ⟨name, part, whole, more, rfl, hmembers, hin⟩ := hat.cases
  · obtain ⟨cut', hcut', hprefix⟩ := h.ofTree_front
    obtain rfl := Option.some.inj (hcut'.symm.trans hcut)
    exact hprefix
  · rw [hmembers] at h
    exact h.ofTree_member hin hcut

end SummaryBundle.Spelt

theorem read_obj {tokens : List JsonText.Token} {members : List (List Piece × Tree)}
    (h : read tokens = some (.obj members)) : ∃ rest, tokens = .openBrace :: rest := by
  cases tokens with
  | nil => cases h
  | cons token rest =>
    have hstep : ∀ next, Reader.begin [] token = some next → next.Reaches (.obj members) := by
      intro next hnext
      rw [JsonText.read, List.foldlM_cons, Reader.step, hnext] at h
      exact Reader.reaches h
    cases token with
    | openBrace => exact ⟨rest, rfl⟩
    | openBracket =>
      obtain ⟨items, hitems⟩ := hstep _ rfl
      cases hitems
    | str pieces => cases hstep _ rfl
    | closeBrace => cases h
    | closeBracket => cases h
    | comma => cases h
    | colon => cases h

theorem text_begins {c : Char} {text : Text} {tokens : List JsonText.Token}
    (h : lex (c :: text) = some (.openBrace :: tokens)) (hc : isWhitespace c = false) :
    c = '{' := by
  obtain ⟨next, hnext, hrest⟩ := Option.bind_eq_some_iff.mp (lex_eq.mp h)
  obtain ⟨hbetween, hinside⟩ := lexed_grows hrest
  have hstep := lexChar_step hnext
  generalize hstart : (⟨[], .between⟩ : Lexed) = start at hstep
  cases hstep with
  | blank hblank =>
    simp only [isBlank, Bool.or_eq_true, decide_eq_true_eq] at hblank
    rcases hblank with ((rfl | rfl) | rfl) | rfl <;> cases hc
  | punctuation htoken =>
    obtain ⟨rfl⟩ : [] = _ := congrArg Lexed.tokens hstart
    obtain ⟨rfl, -⟩ := List.cons_prefix_cons.mp (hbetween rfl)
    unfold punctuation at htoken
    split at htoken <;> simp at htoken ⊢
  | openQuote =>
    obtain ⟨rfl⟩ : [] = _ := congrArg Lexed.tokens hstart
    obtain ⟨whole, -, hwhole⟩ := hinside _ _ rfl
    cases (List.cons_prefix_cons.mp hwhole).1
  | closeQuote => cases hstart
  | backslash => cases hstart
  | inside => cases hstart

theorem trim_part {cut text : Text} (h : cut <+: text) (hbrace : '{' ∈ cut) :
    trim cut <+: text.dropWhile isWhitespace := by
  obtain ⟨rest, rfl⟩ := h
  have hne : ¬(cut.dropWhile isWhitespace).isEmpty = true := by
    rw [List.isEmpty_iff, List.dropWhile_eq_nil_iff]
    intro hall
    exact absurd (hall '{' hbrace) (by decide)
  rw [List.dropWhile_append, if_neg hne]
  exact (List.rdropWhile_prefix _ _).trans (List.prefix_append _ _)

namespace SummaryBundle.IsText

variable {bundle : SummaryBundle} {text : Text}

protected theorem dropWhile (h : bundle.IsText text) :
    bundle.IsText (text.dropWhile isWhitespace) := by
  obtain ⟨tokens, members, hlex, h⟩ := h
  exact ⟨tokens, members, lex_eq.mpr (dropWhile_run (lex_eq.mp hlex)), h⟩

protected theorem rdropWhile (h : bundle.IsText text) :
    bundle.IsText (text.rdropWhile isWhitespace) := by
  obtain ⟨tokens, members, hlex, h⟩ := h
  obtain ⟨mode, hrun, hmode⟩ := rdropWhile_run (lex_eq.mp hlex)
  obtain rfl := hmode rfl
  exact ⟨tokens, members, lex_eq.mpr hrun, h⟩

theorem begins (h : bundle.IsText text) : ['{'] <+: text.dropWhile isWhitespace := by
  obtain ⟨tokens, _, hlex, hread, -⟩ := h.dropWhile
  obtain ⟨rest, rfl⟩ := read_obj hread
  cases hbody : text.dropWhile isWhitespace with
  | nil =>
    rw [hbody] at hlex
    cases hlex
  | cons c body =>
    have hc : isWhitespace c = false := by
      have hhead := List.head?_dropWhile_not isWhitespace text
      simpa [hbody] using hhead
    rw [hbody] at hlex
    obtain rfl := text_begins hlex hc
    exact ⟨body, rfl⟩

theorem trim_begins (h : bundle.IsText text) {cut : Text} (hcut : cut <+: text)
    (hbrace : '{' ∈ cut) : ['{'] <+: trim cut := by
  have hne : trim cut ≠ [] := by
    intro hnil
    have hblank : ∀ c ∈ cut, isWhitespace c = true := by
      intro c hc
      rw [← @List.takeWhile_append_dropWhile _ isWhitespace cut] at hc
      rcases List.mem_append.mp hc with hc | hc
      · exact List.mem_takeWhile_imp hc
      · exact List.rdropWhile_eq_nil_iff.mp hnil c hc
    exact absurd (hblank '{' hbrace) (by decide)
  exact List.prefix_of_prefix_length_le h.begins (trim_part hcut hbrace)
    (List.length_pos_iff.mpr hne)

theorem finished_trim (h : bundle.IsText text) {cut : Text} (hcut : cut <+: text) :
    finished cut = finished (trim cut) := by
  obtain ⟨tokens, _, hlex, hread, -⟩ := h
  obtain ⟨lexed, hrun, hprefix, -⟩ := lex_part hlex hcut
  obtain ⟨reader, hreader, -⟩ := read_part hread hprefix
  obtain ⟨mode, htrim, -⟩ := rdropWhile_run (dropWhile_run hrun)
  exact (finished_eq hrun hreader).trans (finished_eq htrim hreader).symm

end SummaryBundle.IsText

section

variable {ε : Type} {fromStr : Text → Except ε SummaryBundle}

theorem ok_of_toOption {α : Type} {result : Except ε α} {a : α} (h : result.toOption = some a) :
    result = .ok a := by
  cases result with
  | error e => cases h
  | ok b => exact congrArg Except.ok (Option.some.inj h)

variable (hreader : StandardReader fromStr)

include hreader

theorem closed_prefixAt {bundle : SummaryBundle} {text : Text} (htext : bundle.IsText text)
    {part closed : Text} (hpart : part <+: text) (hclosed : closeTruncatedJson part = some closed)
    {cut : SummaryBundle} (hcut : (fromStr closed).toOption = some cut) :
    cut.PrefixAt (finished part).length bundle := by
  obtain ⟨tokens, members, hlex, hread, hspelt⟩ := htext
  rcases closeTruncatedJson_cut hlex hread hpart hclosed with
    ⟨before, rest, _, _, _, rfl, hrun, hillegal⟩ | ⟨tokens', hlex', htree⟩
  · rw [hreader.refuses before rest _ _ _ hrun hillegal] at hcut
    cases hcut
  · rw [hreader.reads closed tokens' hlex'] at hcut
    obtain ⟨tree, hread', hof⟩ := Option.bind_eq_some_iff.mp hcut
    exact hspelt.ofTree_cut (htree tree hread') hof

theorem strict_whole {bundle : SummaryBundle} {text : Text} (htext : bundle.IsText text)
    {part : Text} (hpart : part <+: text) {cut : SummaryBundle}
    (hcut : (fromStr part).toOption = some cut) :
    cut.PrefixAt (finished part).length bundle := by
  obtain ⟨tokens, members, hlex, hread, hspelt⟩ := htext
  obtain ⟨⟨tokens', mode⟩, hrun, hprefix, -⟩ := lex_part hlex hpart
  cases mode with
  | between =>
    rw [hreader.reads part tokens' (lex_eq.mpr hrun)] at hcut
    obtain ⟨tree, hread', hof⟩ := Option.bind_eq_some_iff.mp hcut
    obtain rfl := read_whole hread hprefix hread'
    rw [hspelt.ofTree_whole] at hof
    rw [finished_of_read hrun hread']
    obtain ⟨_, _, _, _, _, _, _, _, rfl, -⟩ := hspelt
    exact (Option.some.inj hof).symm
  | inString pieces place =>
    have hnone := hreader.refuses part [] tokens' pieces place hrun (by simp)
    rw [List.append_nil, hcut] at hnone
    cases hnone

theorem whole_read {bundle : SummaryBundle} {text : Text} (htext : bundle.IsText text) :
    (fromStr text).toOption = some bundle := by
  obtain ⟨tokens, members, hlex, hread, hspelt⟩ := htext
  rw [hreader.reads text tokens hlex, hread, Option.bind_some, hspelt.ofTree_whole]

theorem brace_read : ((closeTruncatedJson ['{']).bind fun closed => (fromStr closed).toOption) =
    some default := by
  rw [show closeTruncatedJson ['{'] = some ['{', '}'] by decide, Option.bind_some,
    hreader.reads ['{', '}'] [.openBrace, .closeBrace] rfl]
  rfl

/-- Where a part does not close to a bundle, its last character finishes no field. -/
theorem finished_dropLast {bundle : SummaryBundle} {text : Text} (htext : bundle.IsText text)
    {part : Text} {c : Char} (hpart : part ++ [c] <+: text)
    (hnone : ((closeTruncatedJson (part ++ [c])).bind fun closed =>
      (fromStr closed).toOption) = none) : finished (part ++ [c]) = finished part := by
  obtain ⟨tokens, members, hlex, hread, hspelt⟩ := htext
  obtain hsame | ⟨members, more, ⟨closed, tokens', hclosed, hlex', hread'⟩, hwhole⟩ :=
    finished_snoc hlex hread hpart
  · exact hsame
  · obtain ⟨cut, hcut, -⟩ := (Tree.obj.inj hwhole ▸ hspelt).ofTree_front
    rw [hclosed, Option.bind_some, hreader.reads closed tokens' hlex', hread', Option.bind_some,
      hcut] at hnone
    cases hnone

/-- The longest part that closes to a bundle has all the fields that the text finishes. -/
theorem longest_closes {bundle : SummaryBundle} {text : Text} (htext : bundle.IsText text)
    {cut : Text} (hcut : cut <+: text) (hbrace : ['{'] <+: cut) :
    ∃ result, (cut.inits.reverse.findSome? fun part => (closeTruncatedJson part).bind fun closed =>
      (fromStr closed).toOption) = some result ∧
      result.PrefixAt (finished cut).length bundle := by
  induction cut using List.reverseRecOn with
  | nil => simp at hbrace
  | append_singleton cut c ih =>
    have hinits : (cut ++ [c]).inits.reverse = (cut ++ [c]) :: cut.inits.reverse := by
      simp [List.inits_append]
    rw [hinits, List.findSome?_cons]
    split
    · rename_i result hresult
      obtain ⟨closed, hclosed, hread⟩ := Option.bind_eq_some_iff.mp hresult
      exact ⟨result, rfl, closed_prefixAt hreader htext hcut hclosed hread⟩
    · rename_i hnone
      have hne : cut ≠ [] := by
        rintro rfl
        obtain rfl : c = '{' := by simpa [eq_comm] using hbrace
        exact absurd ((brace_read hreader).symm.trans hnone) (by simp)
      rw [finished_dropLast hreader htext hcut hnone]
      exact ih ((List.prefix_append _ _).trans hcut)
        (List.prefix_of_prefix_length_le hbrace (List.prefix_append _ _)
          (List.length_pos_iff.mpr hne))

/-- A text that is cut off is salvaged with the fields that are complete in it as they are and a
prefix of the next one, and a text that is not cut off is read. -/
theorem truncated_is_salvaged {bundle : SummaryBundle} {text : Text} (htext : bundle.IsText text) :
    fromSlmStrSalvaged fromStr text = .ok (bundle, false) ∧
    ∀ cut, cut <+: text → '{' ∈ cut → ∃ result salvaged,
      fromSlmStrSalvaged fromStr cut = .ok (result, salvaged) ∧
      result.PrefixAt (finished cut).length bundle := by
  have hbody : bundle.IsText (text.dropWhile isWhitespace) := htext.dropWhile
  constructor
  · have hstrict := ok_of_toOption (whole_read hreader hbody.rdropWhile)
    rw [fromSlmStrSalvaged]
    simp only [trim, hstrict]
  · intro cut hcut hbrace
    have hpart := trim_part hcut hbrace
    have hfirst : ['{'] <+: trim cut := htext.trim_begins hcut hbrace
    rw [htext.finished_trim hcut, fromSlmStrSalvaged]
    cases hstrict : fromStr (trim cut) with
    | ok result =>
      exact ⟨result, false, rfl,
        strict_whole hreader hbody hpart (congrArg Except.toOption hstrict)⟩
    | error strictErr =>
      obtain ⟨result, hresult, hprefix⟩ := longest_closes hreader hbody hpart hfirst
      exact ⟨result, true, by simp only [hresult], hprefix⟩

end

def readStandard (text : Text) : Except Unit SummaryBundle :=
  match ((lex text).bind read).bind SummaryBundle.ofTree with
  | some bundle => .ok bundle
  | none => .error ()

theorem readStandard_toOption (text : Text) :
    (readStandard text).toOption = ((lex text).bind read).bind ofTree := by
  unfold readStandard
  split
  · rename_i h
    rw [h]
    rfl
  · rename_i h
    rw [h]
    rfl

theorem readStandard_standard : StandardReader readStandard where
  reads text tokens h := by rw [readStandard_toOption, h, Option.bind_some]
  refuses before rest tokens pieces place hrun hillegal := by
    have hnone : lex (before ++ rest) = none := by
      rw [lex, lexRun_append hrun]
      cases rest with
      | nil => rfl
      | cons c rest =>
        rw [List.foldlM_cons, hillegal c rfl]
        rfl
    rw [readStandard_toOption, hnone]
    rfl

def sampleText : Text :=
  "\x7b\"recap\": \"\\u00e9\", \"decisions\": [\"x\"], \"open_questions\": [], ".toList ++
    "\"active_tasks\": []\x7d".toList

def chars (s : String) : List Piece := s.toList.map .char

theorem sampleText_isText : (⟨['é'], [['x']], [], []⟩ : SummaryBundle).IsText sampleText := by
  refine ⟨[.openBrace, .str (chars "recap"), .colon, .str [.unit 0xe9], .comma,
    .str (chars "decisions"), .colon, .openBracket, .str (chars "x"), .closeBracket, .comma,
    .str (chars "open_questions"), .colon, .openBracket, .closeBracket, .comma,
    .str (chars "active_tasks"), .colon, .openBracket, .closeBracket, .closeBrace],
    _, by decide +kernel, rfl, chars "recap", chars "decisions", chars "open_questions",
    chars "active_tasks", [.unit 0xe9], [.str (chars "x")], [], [], rfl, ?_, ?_, ?_, ?_⟩
  all_goals decide +kernel

theorem truncated_is_salvaged_in_list :
    fromSlmStrSalvaged readStandard sampleText =
      .ok (⟨['é'], [['x']], [], []⟩, false) ∧
    ∃ result salvaged, fromSlmStrSalvaged readStandard (sampleText.take 36) =
      .ok (result, salvaged) ∧ result.PrefixAt 1 ⟨['é'], [['x']], [], []⟩ := by
  obtain ⟨hwhole, hcut⟩ := truncated_is_salvaged readStandard_standard sampleText_isText
  have hone : (finished (sampleText.take 36)).length = 1 := by decide +kernel
  exact ⟨hwhole, hone ▸ hcut _ (List.take_prefix 36 _) (by decide +kernel)⟩

end Knowledge.Inference
