import Mathlib.Algebra.GroupWithZero.Nat
import Mathlib.Data.List.MinMax
import Mathlib.Data.List.ReduceOption
import Mathlib.Data.List.Infix

/-!
A text cut into the words of a dictionary and single letters, from the left and always at the
longest word. A part of the text is cut in the same way on its own where it is made of whole
pieces; where a word reaches across one of its ends, neighbours come about that the text does not
have there.
-/

set_option autoImplicit false

namespace Knowledge.Segments

inductive Piece (α : Type) where
  | word (w : List α)
  | letter (a : α)

def Piece.text {α : Type} : Piece α → List α
  | .word w => w
  | .letter a => [a]

section

variable {α : Type} [DecidableEq α] (size : α → Nat) (words : List (List α))

def weigh (w : List α) : Nat := (w.map size).sum

/-- Of two words of one weight that a text begins with, which one is taken makes no difference:
they are the same. -/
def longest (l : List α) : Option (List α) :=
  (words.filter fun w => w.isPrefixOf l).argmax (weigh size)

def pieces : List α → List (Piece α)
  | [] => []
  | a :: l =>
    match longest size words (a :: l) with
    | some w => .word w :: pieces (l.drop (w.length - 1))
    | none => .letter a :: pieces l
termination_by l => l.length
decreasing_by
  · simp only [List.length_drop, List.length_cons]
    omega
  · simp

variable {size words} {l p s w : List α}

theorem longest_some (h : longest size words l = some w) : w ∈ words ∧ w <+: l ∧
    ∀ w' ∈ words, w' <+: l → weigh size w' ≤ weigh size w := by
  have hmax := List.mem_argmax_iff.mp (Option.mem_def.mpr h)
  simp only [List.mem_filter, List.isPrefixOf_iff_prefix] at hmax
  exact ⟨hmax.1.1, hmax.1.2, fun w' hw' hpre => hmax.2.1 w' ⟨hw', hpre⟩⟩

theorem longest_none : longest size words l = none ↔ ∀ w ∈ words, ¬w <+: l := by
  simp [longest, List.argmax_eq_none, List.filter_eq_nil_iff]

theorem eq_of_weigh (hsize : ∀ a, 0 < size a) {w w' : List α} (hpre : w <+: w')
    (hle : weigh size w' ≤ weigh size w) : w = w' := by
  obtain ⟨t, rfl⟩ := hpre
  cases t with
  | nil => simp
  | cons a t =>
    have hpos := hsize a
    simp only [weigh, List.map_append, List.map_cons, List.sum_append, List.sum_cons] at hle
    omega

/-- What follows a text decides nothing about a word that ends inside it. -/
theorem longest_of_append (hsize : ∀ a, 0 < size a) (h : longest size words (p ++ s) = some w)
    (hpre : w <+: p) : longest size words p = some w := by
  obtain ⟨hw, -, hmax⟩ := longest_some h
  cases hp : longest size words p with
  | none => exact absurd hpre (longest_none.mp hp w hw)
  | some w' =>
    obtain ⟨hw', hpre', hmax'⟩ := longest_some hp
    have hle := hmax w' hw' (hpre'.trans (List.prefix_append p s))
    have hge := hmax' w hw hpre
    obtain hshort | hshort := List.prefix_or_prefix_of_prefix hpre hpre'
    · rw [eq_of_weigh hsize hshort hle]
    · rw [eq_of_weigh hsize hshort hge]

theorem length_pos_of_longest (hwords : [] ∉ words) (h : longest size words l = some w) :
    0 < w.length := by
  obtain ⟨hw, -, -⟩ := longest_some h
  cases w with
  | nil => exact absurd hw hwords
  | cons a w => simp

variable {a : α}

theorem pieces_word (h : longest size words (a :: l) = some w) :
    pieces size words (a :: l) = .word w :: pieces size words (l.drop (w.length - 1)) := by
  rw [pieces, h]

theorem pieces_letter (h : longest size words (a :: l) = none) :
    pieces size words (a :: l) = .letter a :: pieces size words l := by
  rw [pieces, h]

omit [DecidableEq α] in
theorem drop_word (hw : 0 < w.length) {t : List α} (h : a :: l = w ++ t) :
    l.drop (w.length - 1) = t := by
  have hcons : (a :: l).drop w.length = t := by rw [h, List.drop_left]
  rwa [← List.drop_succ_cons (a := a), Nat.sub_add_cancel hw]

/-- The pieces make up the text. -/
theorem text_pieces (hwords : [] ∉ words) :
    (pieces size words l).flatMap Piece.text = l := by
  induction l using pieces.induct size words with
  | case1 => simp [pieces]
  | case2 a l w hlongest ih =>
    obtain ⟨t, ht⟩ := (longest_some hlongest).2.1
    rw [pieces_word hlongest, List.flatMap_cons, ih,
      drop_word (length_pos_of_longest hwords hlongest) ht.symm]
    exact ht
  | case3 a l hlongest ih =>
    rw [pieces_letter hlongest, List.flatMap_cons, ih]
    rfl

theorem text_ne_nil (hwords : [] ∉ words) {piece : Piece α} {rest : List (Piece α)}
    (h : pieces size words l = piece :: rest) : piece.text ≠ [] := by
  cases l with
  | nil => simp [pieces] at h
  | cons a l =>
    cases hlongest : longest size words (a :: l) with
    | none =>
      rw [pieces_letter hlongest] at h
      rw [← (List.cons.inj h).1]
      exact List.cons_ne_nil a []
    | some w =>
      rw [pieces_word hlongest] at h
      rw [← (List.cons.inj h).1]
      exact List.length_pos_iff.mp (length_pos_of_longest hwords hlongest)

theorem pieces_letters (h : ∀ t, t <:+ l → ∀ w ∈ words, ¬w <+: t) :
    pieces size words l = l.map .letter := by
  induction l with
  | nil => simp [pieces]
  | cons a l ih =>
    rw [pieces_letter (longest_none.mpr (h _ List.suffix_rfl)),
      ih fun t ht => h t (ht.trans (List.suffix_cons a l))]
    rfl

/-- Where a text is cut between two pieces, both of its parts are cut as it is. -/
theorem cut (hsize : ∀ a, 0 < size a) (hwords : [] ∉ words) {first last : List (Piece α)}
    (hcut : pieces size words (p ++ s) = first ++ last) (htext : first.flatMap Piece.text = p) :
    first = pieces size words p ∧ last = pieces size words s := by
  induction first generalizing p with
  | nil =>
    rw [← htext] at hcut ⊢
    exact ⟨by simp [pieces], by simpa using hcut.symm⟩
  | cons piece first ih =>
    cases p with
    | nil =>
      rw [List.nil_append, List.cons_append] at hcut
      have hpiece := text_ne_nil hwords hcut
      simp [hpiece] at htext
    | cons a p =>
      rw [List.cons_append] at hcut
      cases hlongest : longest size words (a :: (p ++ s)) with
      | none =>
        rw [pieces_letter hlongest, List.cons_append, List.cons.injEq] at hcut
        have hp : longest size words (a :: p) = none := by
          rw [longest_none] at hlongest ⊢
          intro w hw hpre
          exact hlongest w hw (hpre.trans (List.prefix_append (a :: p) s))
        rw [← hcut.1] at htext ⊢
        obtain ⟨hfirst, hlast⟩ := ih hcut.2 (List.cons.inj htext).2
        rw [pieces_letter hp, ← hfirst]
        exact ⟨rfl, hlast⟩
      | some w =>
        have hpos := length_pos_of_longest hwords hlongest
        rw [pieces_word hlongest, List.cons_append, List.cons.injEq] at hcut
        rw [← hcut.1, List.flatMap_cons] at htext
        have hp : longest size words (a :: p) = some w :=
          longest_of_append hsize (s := s) hlongest ⟨_, htext⟩
        have hwhole : a :: (p ++ s) = w ++ (first.flatMap Piece.text ++ s) := by
          rw [← List.append_assoc, ← List.cons_append, ← htext]
          rfl
        have hrest := hcut.2
        rw [drop_word hpos hwhole] at hrest
        obtain ⟨hfirst, hlast⟩ := ih hrest rfl
        rw [pieces_word hp, drop_word hpos htext.symm, ← hfirst, ← hcut.1]
        exact ⟨rfl, hlast⟩

end

section

variable {β : Type}

/-- Every element with the one after it. -/
def neighbours (l : List β) : List (β × β) := l.zip l.tail

variable {l m : List β}

theorem neighbours_map {γ : Type} (f : β → γ) :
    neighbours (l.map f) = (neighbours l).map (Prod.map f f) := by
  rw [neighbours, neighbours, ← List.map_tail, List.zip_map]

theorem neighbours_cons (a b : β) (l : List β) :
    neighbours (a :: b :: l) = (a, b) :: neighbours (b :: l) := rfl

theorem neighbours_append (l m : List β) : neighbours l ⊆ neighbours (l ++ m) := by
  cases l with
  | nil => simp [neighbours]
  | cons a l =>
    induction l generalizing a with
    | nil => simp [neighbours]
    | cons b l ih =>
      simp only [List.cons_append, neighbours_cons]
      exact List.cons_subset_cons _ (ih b)

theorem neighbours_subset (h : m <:+: l) : neighbours m ⊆ neighbours l := by
  obtain ⟨first, last, rfl⟩ := h
  rw [List.append_assoc]
  induction first with
  | nil => exact neighbours_append m last
  | cons b first ih =>
    refine List.Subset.trans ih ?_
    cases hrest : first ++ (m ++ last) with
    | nil => simp [neighbours]
    | cons c rest =>
      rw [List.cons_append, hrest, neighbours_cons]
      exact List.subset_cons_self _ _

end

section

variable {α : Type} [DecidableEq α] (size : α → Nat) (words : List (List α)) (keep : α → Bool)

/-- Place by place, what is left of a text: nothing of a word, and of the letters those that are
kept. -/
def shown (ps : List (Piece α)) : List (Option α) :=
  ps.flatMap fun
    | .word w => List.replicate w.length none
    | .letter a => [if keep a then some a else none]

/-- What is left, with its places. -/
def placed (l : List (Option α)) : List (Nat × α) :=
  l.zipIdx.filterMap fun e => e.1.map fun a => (e.2, a)

/-- The text with a blank in the place of every word. -/
def written (blank : α) (ps : List (Piece α)) : List α :=
  ps.map fun
    | .word _ => blank
    | .letter a => a

def kept (l : List α) : List α := (shown keep (pieces size words l)).reduceOption

/-- The neighbours of a part of a text, cut on its own, that are no neighbours at their places in
the text. -/
def disturbed (p q s : List α) : List (α × α) :=
  let within := ((shown keep (pieces size words (p ++ q ++ s))).drop p.length).take q.length
  ((neighbours (placed (shown keep (pieces size words q)))).filter fun e =>
    e ∉ neighbours (placed within)).map fun e => (e.1.2, e.2.2)

/-- A part of a text is made of whole pieces of it. -/
def Whole (p q s : List α) : Prop :=
  ∃ first middle last, pieces size words (p ++ q ++ s) = first ++ middle ++ last ∧
    first.flatMap Piece.text = p ∧ middle.flatMap Piece.text = q

variable {size words keep} {p q s : List α}

omit [DecidableEq α] in
theorem shown_append (ps ps' : List (Piece α)) :
    shown keep (ps ++ ps') = shown keep ps ++ shown keep ps' := List.flatMap_append

omit [DecidableEq α] in
theorem length_shown (ps : List (Piece α)) :
    (shown keep ps).length = (ps.flatMap Piece.text).length := by
  induction ps with
  | nil => rfl
  | cons piece ps ih =>
    cases piece with
    | word w => simpa [shown, Piece.text] using ih
    | letter a => simpa [shown, Piece.text] using ih

omit [DecidableEq α] in
theorem letters_placed (l : List (Option α)) : (placed l).map Prod.snd = l.reduceOption := by
  have hfst : ∀ e : Option α × Nat, (e.1.map fun a => (e.2, a)).map Prod.snd = e.1 := by
    rintro ⟨_ | a, i⟩
    · rfl
    · rfl
  simp only [placed, List.map_filterMap, hfst, List.reduceOption]
  conv_rhs => rw [← List.zipIdx_map_fst 0 l, List.filterMap_map]
  rfl

omit [DecidableEq α] in
theorem filter_written {blank : α} (hblank : keep blank = false) (ps : List (Piece α)) :
    (written blank ps).filter keep = (shown keep ps).reduceOption := by
  induction ps with
  | nil => rfl
  | cons piece ps ih =>
    cases piece with
    | word w => simpa [written, shown, hblank, List.reduceOption] using ih
    | letter a =>
      cases ha : keep a with
      | false => simpa [written, shown, ha, List.reduceOption] using ih
      | true => simpa [written, shown, ha, List.reduceOption] using ih

theorem mem_kept (hwords : [] ∉ words) {a : α} (h : a ∈ kept size words keep q) :
    a ∈ q ∧ keep a = true := by
  rw [kept, List.reduceOption_mem_iff, shown, List.mem_flatMap] at h
  obtain ⟨piece, hpiece, ha⟩ := h
  cases piece with
  | word w => simp at ha
  | letter b =>
    have hb : b ∈ (pieces size words q).flatMap Piece.text :=
      List.mem_flatMap.mpr ⟨_, hpiece, List.mem_singleton_self b⟩
    rw [text_pieces hwords] at hb
    cases hkeep : keep b with
    | false => simp [hkeep] at ha
    | true =>
      obtain rfl : a = b := by simpa [hkeep] using ha
      exact ⟨hb, hkeep⟩

/-- All neighbours of the part stand in the text, just in case those do that cutting it on its
own has made. -/
theorem neighbours_subset_iff :
    neighbours (kept size words keep q) ⊆ neighbours (kept size words keep (p ++ q ++ s)) ↔
      disturbed size words keep p q s ⊆ neighbours (kept size words keep (p ++ q ++ s)) := by
  have hpart : neighbours (kept size words keep q) =
      (neighbours (placed (shown keep (pieces size words q)))).map (Prod.map Prod.snd Prod.snd) := by
    rw [kept, ← letters_placed, neighbours_map]
  constructor
  · intro h e he
    obtain ⟨e', he', rfl⟩ := List.mem_map.mp he
    apply h
    rw [hpart]
    exact List.mem_map_of_mem (List.mem_filter.mp he').1
  · intro h e he
    rw [hpart] at he
    obtain ⟨e', he', rfl⟩ := List.mem_map.mp he
    generalize hwithin : ((shown keep (pieces size words (p ++ q ++ s))).drop p.length).take
      q.length = within
    by_cases hplace : e' ∈ neighbours (placed within)
    · have hinfix : within <:+: shown keep (pieces size words (p ++ q ++ s)) := by
        rw [← hwithin]
        exact (List.take_prefix _ _).isInfix.trans (List.drop_suffix _ _).isInfix
      obtain ⟨before, after, hsplit⟩ := hinfix
      have hletters : within.reduceOption <:+: kept size words keep (p ++ q ++ s) := by
        rw [kept, ← hsplit]
        exact ⟨before.reduceOption, after.reduceOption, by simp [List.reduceOption_append]⟩
      apply neighbours_subset hletters
      rw [← letters_placed, neighbours_map]
      exact List.mem_map_of_mem hplace
    · apply h
      rw [disturbed, hwithin]
      exact List.mem_map_of_mem (List.mem_filter.mpr ⟨he', by simpa using hplace⟩)

/-- Cutting disturbs nothing where no word reaches across an end of the part. -/
theorem disturbed_of_whole (hsize : ∀ a, 0 < size a) (hwords : [] ∉ words)
    (h : Whole size words p q s) : disturbed size words keep p q s = [] := by
  obtain ⟨first, middle, last, hpieces, hfirst, hmiddle⟩ := h
  rw [List.append_assoc, List.append_assoc] at hpieces
  obtain ⟨rfl, hrest⟩ := cut hsize hwords hpieces hfirst
  obtain ⟨rfl, rfl⟩ := cut hsize hwords hrest.symm hmiddle
  have hwithin : ((shown keep (pieces size words (p ++ q ++ s))).drop p.length).take q.length =
      shown keep (pieces size words q) := by
    have hlength : ∀ t, (shown keep (pieces size words t)).length = t.length := by
      intro t
      rw [length_shown, text_pieces hwords]
    rw [List.append_assoc, hpieces, shown_append, shown_append, List.drop_left' (hlength p),
      List.take_left' (hlength q)]
  rw [disturbed, hwithin]
  simp

end

end Knowledge.Segments
