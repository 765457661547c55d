import Knowledge.Lib.Table
import Mathlib.Data.Finset.Sort

/-!
Posting lists: an index from keys to the positions of a list's elements, kept while elements are
added at the end, and a filter of the list that is read off some of its positions.
-/

set_option autoImplicit false

namespace Knowledge.Postings

variable {K X : Type}

def positions (p : X → Bool) (xs : List X) : List Nat :=
  (List.range xs.length).filter fun i => xs[i]?.any p

theorem mem_positions_iff {p : X → Bool} {xs : List X} {i : Nat} :
    i ∈ positions p xs ↔ ∃ x, xs[i]? = some x ∧ p x := by
  simp only [positions, List.mem_filter, List.mem_range, Option.any_eq_true]
  constructor
  · rintro ⟨-, hx⟩
    exact hx
  · rintro ⟨x, hx, hp⟩
    exact ⟨(List.getElem?_eq_some_iff.mp hx).1, x, hx, hp⟩

theorem pairwise_positions (p : X → Bool) (xs : List X) : (positions p xs).Pairwise (· < ·) :=
  List.pairwise_lt_range.filter _

theorem positions_append_singleton (p : X → Bool) (xs : List X) (x : X) :
    positions p (xs ++ [x]) = positions p xs ++ if p x then [xs.length] else [] := by
  have hold : (List.range xs.length).filter (fun i => (xs ++ [x])[i]?.any p)
      = positions p xs := by
    apply List.filter_congr
    intro i hi
    rw [List.getElem?_append_left (List.mem_range.mp hi)]
  rw [positions, List.length_append, List.length_singleton, List.range_succ, List.filter_append,
    hold]
  cases hp : p x <;> simp [hp]

section Index

variable [DecidableEq K]

def posted (index : Table K (List Nat)) (k : K) : List Nat := (index.lookup k).getD []

def post (index : Table K (List Nat)) (k : K) (position : Nat) : Table K (List Nat) :=
  index.insert k (posted index k ++ [position])

theorem posted_post (index : Table K (List Nat)) (k k' : K) (position : Nat) :
    posted (post index k position) k' =
      posted index k' ++ if k' = k then [position] else [] := by
  rw [posted, post, Table.lookup_insert_ite]
  by_cases hk : k' = k
  · subst hk
    simp
  · simp [posted, hk]

/-- The index lists under each key the positions of the elements that have it. -/
def Lists (key : X → Option K) (index : Table K (List Nat)) (xs : List X) : Prop :=
  ∀ k, posted index k = positions (fun x => key x = some k) xs

theorem Lists.nil (key : X → Option K) : Lists key ∅ [] := by
  intro k
  simp [posted, positions]

section

variable {key : X → Option K} {index : Table K (List Nat)} {xs : List X}

theorem Lists.snoc_keyed (h : Lists key index xs) {x : X} {k : K} (hk : key x = some k) :
    Lists key (post index k xs.length) (xs ++ [x]) := by
  intro k'
  rw [posted_post, h k', positions_append_singleton]
  simp [hk, eq_comm]

theorem Lists.snoc_unkeyed (h : Lists key index xs) {x : X} (hk : key x = none) : Lists key index (xs ++ [x]) := by
  intro k
  rw [h k, positions_append_singleton]
  simp [hk]

theorem Lists.mem_iff (h : Lists key index xs) {k : K} {i : Nat} :
    i ∈ posted index k ↔ ∃ x, xs[i]? = some x ∧ key x = some k := by
  rw [h k, mem_positions_iff]
  simp

end

end Index

theorem mapM_getElem? {xs : List X} {is : List Nat} (h : ∀ i ∈ is, i < xs.length) :
    is.mapM (xs[·]?) = some (is.filterMap (xs[·]?)) := by
  induction is with
  | nil => rfl
  | cons i is ih =>
    have hi := h i List.mem_cons_self
    rw [List.mapM_cons, ih fun j hj => h j (List.mem_cons_of_mem i hj)]
    simp [hi]

theorem filterMap_range (xs : List X) : (List.range xs.length).filterMap (xs[·]?) = xs := by
  induction xs using List.reverseRecOn with
  | nil => rfl
  | append_singleton xs x ih =>
    have hold : (List.range xs.length).filterMap ((xs ++ [x])[·]?) = xs := by
      refine Eq.trans (List.filterMap_congr ?_) ih
      intro i hi
      exact List.getElem?_append_left (List.mem_range.mp hi)
    rw [List.length_append, List.length_singleton, List.range_succ, List.filterMap_append, hold]
    simp

theorem filter_filterMap_getElem? (p : X → Bool) (xs : List X) (is : List Nat) :
    (is.filterMap (xs[·]?)).filter p
      = (is.filter fun i => xs[i]?.any p).filterMap (xs[·]?) := by
  rw [List.filter_filterMap, List.filterMap_filter]
  congr 1
  funext i
  cases xs[i]? with
  | none => rfl
  | some x => simp [Option.filter]

/-- Positions in order that miss no element that passes a test are as good as all of them. -/
theorem filter_read {xs : List X} {p : X → Bool} {is : List Nat} (hsorted : is.Pairwise (· < ·))
    (hin : ∀ i ∈ is, i < xs.length) (hcover : ∀ i x, xs[i]? = some x → p x → i ∈ is) :
    (is.mapM (xs[·]?)).map (List.filter p) = some (xs.filter p) := by
  have hsame : is.filter (fun i => xs[i]?.any p) = positions p xs := by
    apply List.Pairwise.eq_of_mem_iff (hsorted.filter _) (pairwise_positions p xs)
    intro i
    rw [mem_positions_iff, List.mem_filter, Option.any_eq_true]
    constructor
    · rintro ⟨-, hx⟩
      exact hx
    · rintro ⟨x, hx, hp⟩
      exact ⟨hcover i x hx hp, x, hx, hp⟩
  rw [mapM_getElem? hin, Option.map_some, filter_filterMap_getElem?, hsame, positions,
    ← filter_filterMap_getElem?, filterMap_range]

end Knowledge.Postings
