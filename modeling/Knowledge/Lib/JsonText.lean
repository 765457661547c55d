import Mathlib.Data.List.Basic

/-!
JSON without numbers and literals: strings with escapes, arrays and objects. A text is read
character by character into tokens, and tokens into a tree, so what has been read of a text that
is cut off is a state. Closing what is open in that state gives a cut of the whole text's tree.
-/

set_option autoImplicit false

namespace Knowledge.JsonText

/-- What stands in a string: characters, and the code units of `\u` escapes. -/
inductive Piece where
  | char (c : Char)
  | unit (n : Nat)
  deriving DecidableEq

inductive Token where
  | openBrace
  | closeBrace
  | openBracket
  | closeBracket
  | comma
  | colon
  | str (pieces : List Piece)
  deriving DecidableEq

/-- Where in a string a text ends: between two pieces, behind a backslash, or behind some of the
four digits of a code unit. -/
inductive Place where
  | plain
  | escape
  | hex (digits value : Nat)

inductive Mode where
  | between
  | inString (pieces : List Piece) (place : Place)

structure Lexed where
  tokens : List Token
  mode : Mode

def isBlank (c : Char) : Bool := c = ' ' || c = '\n' || c = '\t' || c = '\r'

def punctuation : Char → Option Token
  | '{' => some .openBrace
  | '}' => some .closeBrace
  | '[' => some .openBracket
  | ']' => some .closeBracket
  | ',' => some .comma
  | ':' => some .colon
  | _ => none

def escapeOf : Char → Option Char
  | '"' => some '"'
  | '\\' => some '\\'
  | '/' => some '/'
  | 'b' => some '\u0008'
  | 'f' => some '\u000c'
  | 'n' => some '\n'
  | 'r' => some '\r'
  | 't' => some '\t'
  | _ => none

def hexDigit (c : Char) : Option Nat :=
  if '0' ≤ c ∧ c ≤ '9' then some (c.toNat - '0'.toNat)
  else if 'a' ≤ c ∧ c ≤ 'f' then some (c.toNat - 'a'.toNat + 10)
  else if 'A' ≤ c ∧ c ≤ 'F' then some (c.toNat - 'A'.toNat + 10)
  else none

/-- A character inside a string. Control characters must be escaped. -/
def lexInside (tokens : List Token) (pieces : List Piece) : Place → Char → Option Lexed
  | .plain, c =>
    if c = '"' then some ⟨tokens ++ [.str pieces], .between⟩
    else if c = '\\' then some ⟨tokens, .inString pieces .escape⟩
    else if c.toNat < 0x20 then none
    else some ⟨tokens, .inString (pieces ++ [.char c]) .plain⟩
  | .escape, c =>
    if c = 'u' then some ⟨tokens, .inString pieces (.hex 0 0)⟩
    else (escapeOf c).map fun d => ⟨tokens, .inString (pieces ++ [.char d]) .plain⟩
  | .hex digits value, c =>
    (hexDigit c).map fun d =>
      if digits = 3 then ⟨tokens, .inString (pieces ++ [.unit (16*value+d)]) .plain⟩
      else ⟨tokens, .inString pieces (.hex (digits+1) (16*value+d))⟩

def lexChar (lexed : Lexed) (c : Char) : Option Lexed :=
  match lexed.mode with
  | .between =>
    if isBlank c then some lexed
    else if c = '"' then some ⟨lexed.tokens, .inString [] .plain⟩
    else (punctuation c).map fun token => ⟨lexed.tokens ++ [token], .between⟩
  | .inString pieces place => lexInside lexed.tokens pieces place c

def lexRun (text : List Char) : Option Lexed := text.foldlM lexChar ⟨[], .between⟩

def lex (text : List Char) : Option (List Token) :=
  match lexRun text with
  | some ⟨tokens, .between⟩ => some tokens
  | _ => none

/-- The ways a character can be read. -/
inductive LexStep : Lexed → Char → Lexed → Prop where
  | blank {tokens : List Token} {c : Char} (h : isBlank c = true) :
      LexStep ⟨tokens, .between⟩ c ⟨tokens, .between⟩
  | punctuation {tokens : List Token} {c : Char} {token : Token} (h : punctuation c = some token) :
      LexStep ⟨tokens, .between⟩ c ⟨tokens ++ [token], .between⟩
  | openQuote {tokens : List Token} :
      LexStep ⟨tokens, .between⟩ '"' ⟨tokens, .inString [] .plain⟩
  | closeQuote {tokens : List Token} {pieces : List Piece} :
      LexStep ⟨tokens, .inString pieces .plain⟩ '"' ⟨tokens ++ [.str pieces], .between⟩
  | backslash {tokens : List Token} {pieces : List Piece} :
      LexStep ⟨tokens, .inString pieces .plain⟩ '\\' ⟨tokens, .inString pieces .escape⟩
  | inside {tokens : List Token} {pieces pieces' : List Piece} {place place' : Place} {c : Char}
      (hpieces : pieces <+: pieces') (hplain : place ≠ .escape → c ≠ '"' ∧ c ≠ '\\')
      (hplace : place' ≠ .escape) :
      LexStep ⟨tokens, .inString pieces place⟩ c ⟨tokens, .inString pieces' place'⟩

theorem lexInside_step {tokens : List Token} {pieces : List Piece} {place : Place} {c : Char}
    {next : Lexed} (h : lexInside tokens pieces place c = some next) :
    LexStep ⟨tokens, .inString pieces place⟩ c next := by
  cases place with
  | plain =>
    simp only [lexInside] at h
    by_cases hquote : c = '"'
    · simp only [hquote, if_true, Option.some.injEq] at h
      subst hquote h
      exact .closeQuote
    · rw [if_neg hquote] at h
      by_cases hslash : c = '\\'
      · simp only [hslash, if_true, Option.some.injEq] at h
        subst hslash h
        exact .backslash
      · simp only [if_neg hslash, Option.ite_none_left_eq_some, Option.some.injEq] at h
        obtain ⟨-, rfl⟩ := h
        exact .inside (List.prefix_append _ _) (fun _ => ⟨hquote, hslash⟩) (by simp)
  | escape =>
    simp only [lexInside] at h
    split at h
    · obtain rfl := Option.some.inj h
      exact .inside List.prefix_rfl (by simp) (by simp)
    · obtain ⟨d, -, rfl⟩ := Option.map_eq_some_iff.mp h
      exact .inside (List.prefix_append _ _) (by simp) (by simp)
  | hex digits value =>
    simp only [lexInside] at h
    obtain ⟨d, hdigit, hnext⟩ := Option.map_eq_some_iff.mp h
    have hc : c ≠ '"' ∧ c ≠ '\\' := by
      constructor
      all_goals
        rintro rfl
        cases hdigit
    split at hnext <;> obtain rfl := hnext
    · exact .inside (List.prefix_append _ _) (fun _ => hc) (by simp)
    · exact .inside List.prefix_rfl (fun _ => hc) (by simp)

theorem lexChar_step {lexed next : Lexed} {c : Char} (h : lexChar lexed c = some next) :
    LexStep lexed c next := by
  obtain ⟨tokens, mode⟩ := lexed
  cases mode with
  | between =>
    simp only [lexChar] at h
    split at h
    · rename_i hblank
      obtain rfl := Option.some.inj h
      exact .blank hblank
    · split at h
      · rename_i hquote
        obtain rfl := Option.some.inj h
        exact hquote ▸ .openQuote
      · obtain ⟨token, htoken, rfl⟩ := Option.map_eq_some_iff.mp h
        exact .punctuation htoken
  | inString pieces place => exact lexInside_step h

theorem lexRun_snoc {text : List Char} {c : Char} {next : Lexed} :
    lexRun (text ++ [c]) = some next ↔ ∃ lexed, lexRun text = some lexed ∧
      lexChar lexed c = some next := by
  simp [lexRun, List.foldlM_append, Option.bind_eq_some_iff]

theorem lexRun_append {text rest : List Char} {lexed : Lexed} (h : lexRun text = some lexed) :
    lexRun (text ++ rest) = rest.foldlM lexChar lexed := by
  rw [lexRun, List.foldlM_append]
  change (lexRun text).bind _ = _
  rw [h, Option.bind_some]

theorem lex_eq {text : List Char} {tokens : List Token} :
    lex text = some tokens ↔ lexRun text = some ⟨tokens, .between⟩ := by
  unfold lex
  split
  · rename_i h
    rw [h]
    simp
  · rename_i h
    constructor
    · intro hnone
      cases hnone
    · intro hrun
      exact absurd hrun (h tokens)

/-- Reading on keeps the tokens, and ends the string it is in. -/
theorem lexed_grows {rest : List Char} {lexed : Lexed} {tokens : List Token}
    (h : rest.foldlM lexChar lexed = some ⟨tokens, .between⟩) :
    (lexed.mode = .between → lexed.tokens <+: tokens) ∧
    ∀ pieces place, lexed.mode = .inString pieces place →
      ∃ whole, pieces <+: whole ∧ lexed.tokens ++ [.str whole] <+: tokens := by
  induction rest generalizing lexed with
  | nil =>
    obtain rfl : lexed = ⟨tokens, .between⟩ := by simpa using h
    exact ⟨fun _ => List.prefix_rfl, by simp⟩
  | cons c rest ih =>
    obtain ⟨next, hnext, hrest⟩ := Option.bind_eq_some_iff.mp h
    obtain ⟨hbetween, hinside⟩ := ih hrest
    cases lexChar_step hnext with
    | blank => exact ⟨fun _ => hbetween rfl, by simp⟩
    | punctuation =>
      exact ⟨fun _ => (List.prefix_append _ _).trans (hbetween rfl), by simp⟩
    | openQuote =>
      obtain ⟨whole, -, hwhole⟩ := hinside _ _ rfl
      exact ⟨fun _ => (List.prefix_append _ _).trans hwhole, by simp⟩
    | closeQuote =>
      refine ⟨by simp, fun pieces place hmode => ?_⟩
      obtain ⟨rfl, -⟩ := Mode.inString.inj hmode
      exact ⟨_, List.prefix_rfl, hbetween rfl⟩
    | backslash =>
      refine ⟨by simp, fun pieces place hmode => ?_⟩
      obtain ⟨rfl, -⟩ := Mode.inString.inj hmode
      exact hinside _ _ rfl
    | inside hpieces =>
      refine ⟨by simp, fun pieces place hmode => ?_⟩
      obtain ⟨rfl, -⟩ := Mode.inString.inj hmode
      obtain ⟨whole, hwhole, htokens⟩ := hinside _ _ rfl
      exact ⟨whole, hpieces.trans hwhole, htokens⟩

/-- The state behind a part of a text. A string that it ends in goes on in the text. -/
theorem lex_part {part text : List Char} {tokens : List Token} (h : lex text = some tokens)
    (hpart : part <+: text) : ∃ lexed, lexRun part = some lexed ∧ lexed.tokens <+: tokens ∧
      ∀ pieces place, lexed.mode = .inString pieces place →
        ∃ whole, pieces <+: whole ∧ lexed.tokens ++ [.str whole] <+: tokens := by
  obtain ⟨rest, rfl⟩ := hpart
  rw [lex_eq] at h
  cases hrun : lexRun part with
  | none =>
    rw [lexRun, List.foldlM_append] at h
    change (lexRun part).bind _ = _ at h
    rw [hrun] at h
    cases h
  | some lexed =>
    rw [lexRun_append hrun] at h
    obtain ⟨hbetween, hinside⟩ := lexed_grows h
    refine ⟨lexed, rfl, ?_, hinside⟩
    cases hmode : lexed.mode with
    | between => exact hbetween hmode
    | inString pieces place =>
      obtain ⟨whole, -, hwhole⟩ := hinside pieces place hmode
      exact (List.prefix_append _ _).trans hwhole

/-- The pieces as text, where each high surrogate stands before a low one and no other does. -/
def decode : List Piece → Option (List Char)
  | [] => some []
  | .char c :: rest => (decode rest).map (c :: ·)
  | .unit n :: .unit m :: rest =>
    if 0xd800 ≤ n ∧ n < 0xdc00 then
      if 0xdc00 ≤ m ∧ m < 0xe000 then
        (decode rest).map (Char.ofNat (0x10000+(n-0xd800)*0x400+(m-0xdc00)) :: ·)
      else none
    else if 0xdc00 ≤ n ∧ n < 0xe000 then none
    else (decode (.unit m :: rest)).map (Char.ofNat n :: ·)
  | .unit n :: rest =>
    if 0xd800 ≤ n ∧ n < 0xe000 then none else (decode rest).map (Char.ofNat n :: ·)

theorem decode_unit {n : Nat} (h : ¬(0xd800 ≤ n ∧ n < 0xe000)) (rest : List Piece) :
    decode (.unit n :: rest) = (decode rest).map (Char.ofNat n :: ·) := by
  rcases rest with _ | ⟨_ | m, rest⟩
  · simp [decode, h]
  · simp [decode, h]
  · rw [decode, if_neg (by omega), if_neg (by omega)]

/-- Pieces that are cut off decode to what the whole text begins with. -/
theorem decode_cut {pieces whole : List Piece} {text full : List Char} (h : pieces <+: whole)
    (htext : decode pieces = some text) (hfull : decode whole = some full) : text <+: full := by
  obtain ⟨rest, rfl⟩ := h
  fun_induction decode pieces generalizing text full with
  | case1 =>
    obtain rfl := Option.some.inj htext
    exact List.nil_prefix
  | case2 c pieces ih =>
    rw [List.cons_append, decode] at hfull
    obtain ⟨text', htext', rfl⟩ := Option.map_eq_some_iff.mp htext
    obtain ⟨full', hfull', rfl⟩ := Option.map_eq_some_iff.mp hfull
    exact List.cons_prefix_cons.mpr ⟨rfl, ih htext' hfull'⟩
  | case3 n m pieces hhigh hlow ih =>
    rw [List.cons_append, List.cons_append, decode, if_pos hhigh, if_pos hlow] at hfull
    obtain ⟨text', htext', rfl⟩ := Option.map_eq_some_iff.mp htext
    obtain ⟨full', hfull', rfl⟩ := Option.map_eq_some_iff.mp hfull
    exact List.cons_prefix_cons.mpr ⟨rfl, ih htext' hfull'⟩
  | case4 => cases htext
  | case5 => cases htext
  | case6 n m pieces hhigh hlow ih =>
    rw [List.cons_append, List.cons_append, decode, if_neg hhigh, if_neg hlow] at hfull
    obtain ⟨text', htext', rfl⟩ := Option.map_eq_some_iff.mp htext
    obtain ⟨full', hfull', rfl⟩ := Option.map_eq_some_iff.mp hfull
    exact List.cons_prefix_cons.mpr ⟨rfl, ih htext' hfull'⟩
  | case7 => cases htext
  | case8 n pieces hlast hunit ih =>
    rw [List.cons_append, decode_unit hunit] at hfull
    obtain ⟨text', htext', rfl⟩ := Option.map_eq_some_iff.mp htext
    obtain ⟨full', hfull', rfl⟩ := Option.map_eq_some_iff.mp hfull
    exact List.cons_prefix_cons.mpr ⟨rfl, ih htext' hfull'⟩

inductive Tree where
  | str (pieces : List Piece)
  | arr (items : List Tree)
  | obj (members : List (List Piece × Tree))

/-- An open container around what is being read. -/
inductive Frame where
  | arr (items : List Tree)
  | obj (members : List (List Piece × Tree)) (name : List Piece)

/-- What a reader is at: before a value, behind an opening bracket or brace, before a key, behind
a key, or behind a value. -/
inductive Reader where
  | value (stack : List Frame)
  | item (stack : List Frame)
  | firstKey (stack : List Frame)
  | key (members : List (List Piece × Tree)) (stack : List Frame)
  | colon (members : List (List Piece × Tree)) (name : List Piece) (stack : List Frame)
  | after (tree : Tree) (stack : List Frame)

open Reader

def Reader.begin (stack : List Frame) : Token → Option Reader
  | .str pieces => some (.after (.str pieces) stack)
  | .openBracket => some (.item stack)
  | .openBrace => some (.firstKey stack)
  | _ => none

def Reader.step : Reader → Token → Option Reader
  | .value stack, token => begin stack token
  | .item stack, .closeBracket => some (.after (.arr []) stack)
  | .item stack, token => begin (.arr [] :: stack) token
  | .firstKey stack, .closeBrace => some (.after (.obj []) stack)
  | .firstKey stack, .str name => some (.colon [] name stack)
  | .key members stack, .str name => some (.colon members name stack)
  | .colon members name stack, .colon => some (.value (.obj members name :: stack))
  | .after tree (.arr items :: stack), .comma => some (.value (.arr (items ++ [tree]) :: stack))
  | .after tree (.arr items :: stack), .closeBracket =>
    some (.after (.arr (items ++ [tree])) stack)
  | .after tree (.obj members name :: stack), .comma =>
    some (.key (members ++ [(name, tree)]) stack)
  | .after tree (.obj members name :: stack), .closeBrace =>
    some (.after (.obj (members ++ [(name, tree)])) stack)
  | _, _ => none

def Reader.finish : Reader → Option Tree
  | .after tree [] => some tree
  | _ => none

def read (tokens : List Token) : Option Tree :=
  (tokens.foldlM Reader.step (.value [])).bind Reader.finish

def Frame.bracket : Frame → Char
  | .arr _ => '['
  | .obj _ _ => '{'

def Reader.opens : Reader → List Char
  | .value stack => stack.map Frame.bracket
  | .item stack => '[' :: stack.map Frame.bracket
  | .firstKey stack => '{' :: stack.map Frame.bracket
  | .key _ stack => '{' :: stack.map Frame.bracket
  | .colon _ _ stack => '{' :: stack.map Frame.bracket
  | .after _ stack => stack.map Frame.bracket

def nest : List Char → Token → Option (List Char)
  | stack, .openBrace => some ('{' :: stack)
  | stack, .openBracket => some ('[' :: stack)
  | stack, .closeBrace => if stack.head? = some '{' then some stack.tail else none
  | stack, .closeBracket => if stack.head? = some '[' then some stack.tail else none
  | stack, _ => some stack

def Tree.members : Tree → List (List Piece × Tree)
  | .obj members => members
  | _ => []

def Frame.members : Frame → List (List Piece × Tree)
  | .arr _ => []
  | .obj members _ => members

/-- What the outermost of the open containers has of members, or `inner` where none is open. -/
def outermost (inner : List (List Piece × Tree)) : List Frame → List (List Piece × Tree)
  | [] => inner
  | frame :: stack => outermost frame.members stack

/-- The members of the object around everything whose values have been read to their ends. -/
def Reader.members : Reader → List (List Piece × Tree)
  | .value stack => outermost [] stack
  | .item stack => outermost [] stack
  | .firstKey stack => outermost [] stack
  | .key members stack => outermost members stack
  | .colon members _ stack => outermost members stack
  | .after tree [] => tree.members
  | .after _ (.arr _ :: stack) => outermost [] stack
  | .after tree (.obj members name :: stack) => outermost (members ++ [(name, tree)]) stack

/-- The members of the whole object whose values are complete in a text that is cut off. -/
def finished (text : List Char) : List (List Piece × Tree) :=
  ((lexRun text).bind fun lexed => lexed.tokens.foldlM Reader.step (.value [])).elim []
    Reader.members

theorem finished_eq {text : List Char} {lexed : Lexed} {reader : Reader}
    (h : lexRun text = some lexed)
    (hrun : lexed.tokens.foldlM step (.value []) = some reader) :
    finished text = reader.members := by
  rw [finished, h, Option.bind_some, hrun]
  rfl

theorem finished_of_read {text : List Char} {lexed : Lexed} {tree : Tree}
    (h : lexRun text = some lexed) (hread : read lexed.tokens = some tree) :
    finished text = tree.members := by
  obtain ⟨reader, hrun, hfinish⟩ := Option.bind_eq_some_iff.mp hread
  rw [finished_eq h hrun]
  unfold finish at hfinish
  split at hfinish
  · exact congrArg Tree.members (Option.some.inj hfinish)
  · cases hfinish

theorem Reader.after_members (tree : Tree) (stack : List Frame) :
    (after tree stack).members = outermost tree.members stack ∨ ∃ tree' members name,
      after tree stack = .after tree' [.obj members name] ∧
        outermost tree.members stack = members := by
  rcases stack with _ | ⟨_ | ⟨members, name⟩, _ | ⟨frame, stack⟩⟩
  · exact .inl rfl
  · exact .inl rfl
  · exact .inl rfl
  · exact .inr ⟨tree, members, name, rfl, rfl⟩
  · exact .inl rfl

theorem Reader.begin_members {stack : List Frame} {token : Token} {next : Reader}
    (h : begin stack token = some next) : next.members = outermost [] stack ∨
      ∃ tree members name, next = .after tree [.obj members name] ∧
        outermost [] stack = members := by
  cases token <;> simp only [begin, Option.some.injEq, reduceCtorEq] at h <;> subst h
  case openBrace => exact .inl rfl
  case openBracket => exact .inl rfl
  case str pieces => exact after_members (.str pieces) stack

/-- A token finishes a member of the object around everything, or leaves those finished. -/
theorem Reader.step_members {reader next : Reader} {token : Token}
    (h : reader.step token = some next) : next.members = reader.members ∨
      ∃ tree members name, next = .after tree [.obj members name] ∧ reader.members = members := by
  unfold step at h
  split at h
  case h_1 => exact begin_members h
  case h_3 =>
    have hitem := begin_members h
    exact hitem
  all_goals simp only [Option.some.injEq, reduceCtorEq] at h
  all_goals subst h
  case h_2 => exact after_members (.arr []) _
  case h_4 => exact after_members (.obj []) _
  case h_9 => exact after_members (.arr _) _
  case h_11 => exact after_members (.obj _) _
  all_goals exact .inl rfl

theorem Reader.read_members {tokens : List Token} {reader : Reader} {tree : Tree}
    (h : (tokens.foldlM step reader).bind finish = some tree) :
    reader.members <+: tree.members := by
  induction tokens generalizing reader with
  | nil =>
    change reader.finish = some tree at h
    unfold finish at h
    split at h
    · exact Option.some.inj h ▸ List.prefix_rfl
    · cases h
  | cons token tokens ih =>
    rw [List.foldlM_cons] at h
    obtain ⟨last, hlast, hfinish⟩ := Option.bind_eq_some_iff.mp h
    obtain ⟨next, hstep, hrest⟩ := Option.bind_eq_some_iff.mp hlast
    have hnext : next.members <+: tree.members := ih (by rw [hrest]; exact hfinish)
    obtain hsame | ⟨_, members, name, rfl, rfl⟩ := step_members hstep
    · exact hsame ▸ hnext
    · exact (List.prefix_append _ _).trans hnext

theorem Reader.begin_opens {stack : List Frame} {token : Token} {next : Reader}
    (h : begin stack token = some next) :
    nest (stack.map Frame.bracket) token = some next.opens := by
  cases token <;> simp only [begin, Option.some.injEq, reduceCtorEq] at h <;> subst h <;>
    simp [nest, opens]

theorem Reader.step_opens {reader next : Reader} {token : Token}
    (h : reader.step token = some next) : nest reader.opens token = some next.opens := by
  unfold step at h
  split at h
  case h_1 => exact begin_opens h
  case h_3 => exact begin_opens h
  all_goals simp only [Option.some.injEq, reduceCtorEq] at h
  all_goals subst h; simp [nest, opens, Frame.bracket]

theorem Reader.step_separator {reader next : Reader} {token : Token}
    (h : reader.step token = some next) (htoken : token = .comma ∨ token = .colon) :
    next.opens = reader.opens ∧ next.members = reader.members := by
  have hopens := step_opens h
  obtain hsame | ⟨_, _, _, rfl, -⟩ := step_members h
  · rcases htoken with rfl | rfl
    · exact ⟨(Option.some.inj hopens).symm, hsame⟩
    · exact ⟨(Option.some.inj hopens).symm, hsame⟩
  · rcases htoken with rfl | rfl
    all_goals unfold step at h; split at h <;> simp_all [begin]

/-- The value just read is in its place in the whole tree, and what is still to come stands behind
it and behind the containers around it. -/
def Completes : List Frame → Tree → Tree → Prop
  | [], tree, whole => whole = tree
  | .arr items :: stack, tree, whole =>
    ∃ more, Completes stack (.arr (items ++ tree :: more)) whole
  | .obj members name :: stack, tree, whole =>
    ∃ more, Completes stack (.obj (members ++ (name, tree) :: more)) whole

def Reader.Reaches : Reader → Tree → Prop
  | .value stack, whole => ∃ tree, Completes stack tree whole
  | .item stack, whole => ∃ items, Completes stack (.arr items) whole
  | .firstKey stack, whole => ∃ members, Completes stack (.obj members) whole
  | .key members stack, whole => ∃ more, Completes stack (.obj (members ++ more)) whole
  | .colon members name stack, whole =>
    ∃ tree more, Completes stack (.obj (members ++ (name, tree) :: more)) whole
  | .after tree stack, whole => Completes stack tree whole

theorem Reader.begin_reaches {stack : List Frame} {token : Token} {next : Reader} {whole : Tree}
    (h : begin stack token = some next) (hnext : next.Reaches whole) :
    ∃ tree, Completes stack tree whole := by
  cases token <;> simp only [begin, Option.some.injEq, reduceCtorEq] at h <;> subst h
  case openBrace =>
    obtain ⟨members, hm⟩ := hnext
    exact ⟨_, hm⟩
  case openBracket =>
    obtain ⟨items, hi⟩ := hnext
    exact ⟨_, hi⟩
  case str => exact ⟨_, hnext⟩

theorem Reader.step_reaches {reader next : Reader} {token : Token} {whole : Tree}
    (h : reader.step token = some next) (hnext : next.Reaches whole) : reader.Reaches whole := by
  unfold step at h
  split at h
  case h_1 => exact begin_reaches h hnext
  case h_3 stack _ _ =>
    obtain ⟨tree, more, hc⟩ := begin_reaches h hnext
    exact ⟨_, hc⟩
  all_goals simp only [Option.some.injEq, reduceCtorEq] at h
  all_goals subst h
  · exact ⟨[], hnext⟩
  · exact ⟨[], hnext⟩
  · obtain ⟨tree, more, hc⟩ := hnext
    exact ⟨_, hc⟩
  · obtain ⟨tree, more, hc⟩ := hnext
    exact ⟨_, hc⟩
  · obtain ⟨tree, more, hc⟩ := hnext
    exact ⟨tree, more, hc⟩
  · obtain ⟨tree, more, hc⟩ := hnext
    exact ⟨tree :: more, by simpa using hc⟩
  · exact ⟨[], hnext⟩
  · obtain ⟨more, hc⟩ := hnext
    exact ⟨more, by simpa using hc⟩
  · exact ⟨[], hnext⟩

theorem Reader.reaches {tokens : List Token} {reader : Reader} {whole : Tree}
    (h : (tokens.foldlM step reader).bind finish = some whole) : reader.Reaches whole := by
  induction tokens generalizing reader with
  | nil =>
    change reader.finish = some whole at h
    unfold finish at h
    split at h
    · exact (Option.some.inj h).symm
    · cases h
  | cons token tokens ih =>
    rw [List.foldlM_cons] at h
    obtain ⟨next, hnext, hwhole⟩ := Option.bind_eq_some_iff.mp h
    obtain ⟨next', hstep, hrest⟩ := Option.bind_eq_some_iff.mp hnext
    refine step_reaches hstep (ih ?_)
    rw [hrest]
    exact hwhole

/-- A tree that was cut off: its last string, item or member is cut, and nothing stands behind. -/
inductive Cut : Tree → Tree → Prop where
  | refl (tree : Tree) : Cut tree tree
  | str {pieces whole : List Piece} (h : pieces <+: whole) : Cut (.str pieces) (.str whole)
  | arr {items more : List Tree} : Cut (.arr items) (.arr (items ++ more))
  | item {items more : List Tree} {tree whole : Tree} (h : Cut tree whole) :
      Cut (.arr (items ++ [tree])) (.arr (items ++ whole :: more))
  | obj {members more : List (List Piece × Tree)} : Cut (.obj members) (.obj (members ++ more))
  | member {members more : List (List Piece × Tree)} {name : List Piece} {tree whole : Tree}
      (h : Cut tree whole) :
      Cut (.obj (members ++ [(name, tree)])) (.obj (members ++ (name, whole) :: more))

/-- A cut whose members are those that were finished and at most one more. -/
structure CutAt (finished : List (List Piece × Tree)) (tree whole : Tree) : Prop where
  cut : Cut tree whole
  ahead : finished <+: whole.members
  kept : finished <+: tree.members
  last : tree.members.length ≤ finished.length+1

theorem CutAt.cases {finished members : List (List Piece × Tree)} {tree : Tree}
    (h : CutAt finished tree (.obj members)) : tree = .obj finished ∨
      ∃ name part whole more, tree = .obj (finished ++ [(name, part)]) ∧
        members = finished ++ (name, whole) :: more ∧ Cut part whole := by
  obtain ⟨hcut, -, ⟨more, hmore⟩, hlast⟩ := h
  obtain ⟨kept, rfl⟩ : ∃ kept, tree = .obj kept := by cases hcut <;> exact ⟨_, rfl⟩
  change finished ++ more = kept at hmore
  change kept.length ≤ finished.length+1 at hlast
  rcases more with _ | ⟨⟨name, part⟩, _ | ⟨_, more⟩⟩
  · exact .inl (by rw [← hmore, List.append_nil])
  · refine .inr ⟨name, part, ?_⟩
    cases hcut with
    | refl => exact ⟨part, [], by rw [hmore], hmore.symm, .refl part⟩
    | @obj _ more => exact ⟨part, more, by rw [hmore], by simp [← hmore], .refl part⟩
    | member hin =>
      obtain ⟨rfl, hsame⟩ := List.append_inj' hmore rfl
      obtain ⟨rfl, rfl⟩ := Prod.mk.inj (List.cons.inj hsame).1
      exact ⟨_, _, rfl, rfl, hin⟩
  · simp [← hmore] at hlast

/-- A value with the containers around it, closed behind it. -/
def wrap (tree : Tree) : List Frame → Tree
  | [] => tree
  | .arr items :: stack => wrap (.arr (items ++ [tree])) stack
  | .obj members name :: stack => wrap (.obj (members ++ [(name, tree)])) stack

theorem length_wrap_members (tree : Tree) (stack : List Frame) :
    (wrap tree stack).members.length ≤ (outermost tree.members stack).length+1 := by
  induction stack generalizing tree with
  | nil => exact Nat.le_succ _
  | cons frame stack ih =>
    cases frame with
    | arr items => exact ih (.arr (items ++ [tree]))
    | obj members name =>
      cases stack with
      | nil => simp [wrap, outermost, Tree.members, Frame.members]
      | cons frame stack => exact ih (.obj (members ++ [(name, tree)]))

theorem Reader.length_outermost_le (tree : Tree) (stack : List Frame) :
    (outermost tree.members stack).length ≤ (after tree stack).members.length := by
  obtain hsame | ⟨tree', members, name, hafter, hmembers⟩ := after_members tree stack
  · exact Nat.le_of_eq (congrArg List.length hsame).symm
  · rw [hafter, hmembers]
    exact (List.prefix_append members [(name, tree')]).length_le

theorem Completes.cut {stack : List Frame} {tree full whole : Tree}
    (h : Completes stack full whole) (hcut : Cut tree full) : Cut (wrap tree stack) whole := by
  induction stack generalizing tree full with
  | nil => exact (show whole = full from h) ▸ hcut
  | cons frame stack ih =>
    cases frame with
    | arr items =>
      obtain ⟨more, hc⟩ := h
      exact ih hc (.item hcut)
    | obj members name =>
      obtain ⟨more, hc⟩ := h
      exact ih hc (.member hcut)

def closer (bracket : Char) : Token := if bracket = '{' then .closeBrace else .closeBracket

def Reader.closed (reader : Reader) : Option Tree :=
  ((reader.opens.map closer).foldlM step reader).bind finish

theorem Reader.closed_after (tree : Tree) (stack : List Frame) :
    (after tree stack).closed = some (wrap tree stack) := by
  induction stack generalizing tree with
  | nil => rfl
  | cons frame stack ih =>
    cases frame with
    | arr items => exact ih (.arr (items ++ [tree]))
    | obj members name => exact ih (.obj (members ++ [(name, tree)]))

theorem Reader.closed_cut {reader : Reader} {tree whole : Tree} (h : reader.Reaches whole)
    (hclosed : reader.closed = some tree) :
    Cut tree whole ∧ tree.members.length ≤ reader.members.length+1 := by
  cases reader with
  | value stack =>
    cases stack with
    | nil => cases hclosed
    | cons frame stack => cases frame <;> cases hclosed
  | item stack =>
    obtain ⟨items, hc⟩ := h
    obtain rfl := Option.some.inj ((closed_after (.arr []) stack).symm.trans hclosed)
    exact ⟨hc.cut (@Cut.arr [] _), length_wrap_members _ stack⟩
  | firstKey stack =>
    obtain ⟨members, hc⟩ := h
    obtain rfl := Option.some.inj ((closed_after (.obj []) stack).symm.trans hclosed)
    exact ⟨hc.cut (@Cut.obj [] _), length_wrap_members _ stack⟩
  | key members stack => cases hclosed
  | colon members name stack => cases hclosed
  | after tree' stack =>
    rw [closed_after] at hclosed
    obtain rfl := Option.some.inj hclosed
    exact ⟨Completes.cut h (.refl tree'),
      Nat.le_trans (length_wrap_members _ stack) (Nat.succ_le_succ (length_outermost_le _ stack))⟩

/-- The same where the last string is cut itself. -/
theorem Reader.closed_str_cut {reader next next' : Reader} {pieces full : List Piece}
    {tree whole : Tree} (hpieces : pieces <+: full) (hstep : reader.step (.str full) = some next)
    (h : next.Reaches whole) (hstep' : reader.step (.str pieces) = some next')
    (hclosed : next'.closed = some tree) :
    Cut tree whole ∧ tree.members.length ≤ reader.members.length+1 := by
  have hvalue : ∀ stack, next = .after (.str full) stack → next' = .after (.str pieces) stack →
      Cut tree whole ∧ tree.members.length ≤ (outermost [] stack).length+1 := by
    rintro stack rfl rfl
    rw [closed_after] at hclosed
    obtain rfl := Option.some.inj hclosed
    exact ⟨Completes.cut h (.str hpieces), length_wrap_members (.str pieces) stack⟩
  cases reader with
  | value stack =>
    exact hvalue stack (Option.some.inj hstep).symm (Option.some.inj hstep').symm
  | item stack =>
    have hitem := hvalue (.arr [] :: stack) (Option.some.inj hstep).symm
      (Option.some.inj hstep').symm
    exact hitem
  | firstKey stack =>
    obtain rfl := Option.some.inj hstep'
    cases hclosed
  | key members stack =>
    obtain rfl := Option.some.inj hstep'
    cases hclosed
  | colon members name stack => cases hstep
  | after tree' stack =>
    cases stack with
    | nil => cases hstep
    | cons frame stack => cases frame <;> cases hstep

theorem Reader.run_opens {tokens : List Token} {reader next : Reader}
    (h : tokens.foldlM step reader = some next) :
    tokens.foldlM nest reader.opens = some next.opens := by
  induction tokens generalizing reader with
  | nil => exact congrArg (some ∘ opens) (Option.some.inj h)
  | cons token tokens ih =>
    obtain ⟨reader', hstep, hrest⟩ := Option.bind_eq_some_iff.mp h
    rw [List.foldlM_cons, step_opens hstep]
    exact ih hrest

theorem read_append {tokens rest : List Token} {reader : Reader}
    (h : tokens.foldlM step (.value []) = some reader) :
    read (tokens ++ rest) = (rest.foldlM step reader).bind finish := by
  rw [read, List.foldlM_append, h]
  rfl

/-- The state behind some of the tokens of a tree. -/
theorem read_part {part tokens : List Token} {whole : Tree} (h : read tokens = some whole)
    (hpart : part <+: tokens) : ∃ reader, part.foldlM step (.value []) = some reader ∧
      reader.Reaches whole ∧ part.foldlM nest [] = some reader.opens := by
  obtain ⟨rest, rfl⟩ := hpart
  cases hrun : part.foldlM step (.value []) with
  | none =>
    rw [read, List.foldlM_append, hrun] at h
    cases h
  | some reader =>
    rw [read_append hrun] at h
    exact ⟨reader, rfl, reaches h, run_opens hrun⟩

section

variable {part tokens : List Token} {reader : Reader} {tree whole : Tree}

/-- No tree ends before the text does. -/
theorem read_whole (h : read tokens = some whole) (hpart : part <+: tokens)
    (htree : read part = some tree) : tree = whole := by
  obtain ⟨reader, hrun, hreaches, -⟩ := read_part h hpart
  rw [read, hrun, Option.bind_some] at htree
  unfold finish at htree
  split at htree
  · obtain rfl := Option.some.inj htree
    exact hreaches.symm
  · cases htree

theorem read_closed_cut (h : read tokens = some whole) (hpart : part <+: tokens)
    (hrun : part.foldlM step (.value []) = some reader)
    (hclosed : read (part ++ reader.opens.map closer) = some tree) :
    CutAt reader.members tree whole := by
  obtain ⟨rest, rfl⟩ := hpart
  rw [read_append hrun] at h hclosed
  obtain ⟨hcut, hlast⟩ := closed_cut (reaches h) hclosed
  exact ⟨hcut, read_members h, read_members hclosed, hlast⟩

theorem read_closed_str_cut {pieces full : List Piece} (h : read tokens = some whole)
    (hpart : part ++ [.str full] <+: tokens) (hpieces : pieces <+: full)
    (hrun : part.foldlM step (.value []) = some reader)
    (hclosed : read (part ++ .str pieces :: reader.opens.map closer) = some tree) :
    CutAt reader.members tree whole := by
  obtain ⟨next, hnext, hreaches, -⟩ := read_part h hpart
  obtain ⟨rest, rfl⟩ := (List.prefix_append _ _).trans hpart
  rw [List.foldlM_append, hrun] at hnext
  have hstep : reader.step (.str full) = some next := by simpa using hnext
  rw [read_append hrun] at h hclosed
  have hmembers := read_members hclosed
  rw [List.foldlM_cons] at hclosed
  cases hstep' : reader.step (.str pieces) with
  | none =>
    rw [hstep'] at hclosed
    cases hclosed
  | some next' =>
    have hsame : reader.opens = next'.opens := by simpa [nest] using step_opens hstep'
    rw [hstep', hsame] at hclosed
    obtain ⟨hcut, hlast⟩ := closed_str_cut hpieces hstep hreaches hstep' hclosed
    exact ⟨hcut, read_members h, hmembers, hlast⟩

end

end Knowledge.JsonText
