import Mathlib.Data.Finset.Image
import Mathlib.Data.List.Sort

/-!
The add-wins observed-remove set of `crates/sync_engine/src/crdt.rs`.
-/

set_option autoImplicit false

namespace Knowledge.Sync

/-- A UUID is its 128 bits; the byte order SQLite compares is the unsigned one. -/
abbrev Uuid := BitVec 128

def hexDigits : Nat → Nat → List Char
  | 0, _ => []
  | width+1, n => hexDigits width (n/16) ++ [Nat.digitChar (n%16)]

def uuidText (id : Uuid) : String :=
  let digits := hexDigits 32 id.toNat
  String.ofList (digits.take 8 ++ ['-'] ++ (digits.drop 8).take 4 ++ ['-'] ++
    (digits.drop 12).take 4 ++ ['-'] ++ (digits.drop 16).take 4 ++ ['-'] ++ digits.drop 20)

/-- One order in which the hasher of a running process iterates over hashed
collections. The code never relies on which one it is, so every result below is
for all of them. -/
structure HashOrder (α : Type) where
  iter : Finset α → List α
  nodup_iter : ∀ s, (iter s).Nodup
  mem_iter : ∀ s a, a ∈ iter s ↔ a ∈ s

def HashOrder.ascending {α : Type} (rank : α → Nat) (hrank : Function.Injective rank) :
    HashOrder α where
  iter s := Quot.liftOn s.val (fun l => l.insertionSort (fun a b => rank a ≤ rank b)) (by
    have : Std.Total (fun a b => rank a ≤ rank b) := ⟨fun a b => Nat.le_total _ _⟩
    have : IsTrans α (fun a b => rank a ≤ rank b) := ⟨fun a b c => Nat.le_trans⟩
    intro a b hab
    refine List.Perm.eq_of_pairwise (fun _ _ _ _ h h' => hrank (Nat.le_antisymm h h'))
      (List.pairwise_insertionSort _ _) (List.pairwise_insertionSort _ _) ?_
    exact ((List.perm_insertionSort _ a).trans hab).trans (List.perm_insertionSort _ b).symm)
  nodup_iter := by
    rintro ⟨⟨l⟩, hl⟩
    exact (List.perm_insertionSort _ l).nodup_iff.mpr hl
  mem_iter := by
    rintro ⟨⟨l⟩, hl⟩ a
    exact (List.perm_insertionSort _ l).mem_iff

/-- `elements` is the graph of the source's `HashMap<T, HashSet<Uuid>>`: a key is
only ever created together with a tag, so the map and its graph carry the same
information, and two sets are equal exactly when the source compares them equal. -/
structure AddWinsSet (T : Type) where
  elements : Finset (T × Uuid)
  tombstones : Finset Uuid
  deriving DecidableEq

namespace AddWinsSet

section

variable {T : Type}

def new : AddWinsSet T := ⟨∅, ∅⟩

def addWithTag [DecidableEq T] (s : AddWinsSet T) (value : T) (tag : Uuid) :
    AddWinsSet T :=
  ⟨insert (value, tag) s.elements, s.tombstones⟩

def removeTags (s : AddWinsSet T) (_value : T) (tags : List Uuid) : AddWinsSet T :=
  ⟨s.elements, s.tombstones ∪ tags.toFinset⟩

section

variable [DecidableEq T] (s : AddWinsSet T)

def tagsFor (value : T) : Finset Uuid :=
  (s.elements.filter (fun p => p.1 = value)).image Prod.snd

def contains (value : T) : Bool :=
  decide (∃ tag ∈ s.tagsFor value, tag ∉ s.tombstones)

/-- The surviving tags of `value`, in the order the tag set is iterated. -/
def liveTags (tags : HashOrder Uuid) (value : T) : List Uuid :=
  (tags.iter (s.tagsFor value)).filter (fun tag => tag ∉ s.tombstones)

def entries (values : HashOrder T) (tags : HashOrder Uuid) : List (T × List Uuid) :=
  (values.iter (s.elements.image Prod.fst)).filterMap (fun value =>
    if s.liveTags tags value = [] then none else some (value, s.liveTags tags value))

end

def LiveTag (s : AddWinsSet T) (value : T) (tag : Uuid) : Prop :=
  (value, tag) ∈ s.elements ∧ tag ∉ s.tombstones

section

variable [DecidableEq T]

section

variable (s : AddWinsSet T)

@[simp] theorem mem_tagsFor (value : T)
    (tag : Uuid) : tag ∈ s.tagsFor value ↔ (value, tag) ∈ s.elements := by
  simp [tagsFor]

theorem contains_iff (value : T) :
    s.contains value = true ↔ ∃ tag, s.LiveTag value tag := by
  simp [contains, LiveTag]

theorem mem_liveTags (tags : HashOrder Uuid)
    (value : T) (tag : Uuid) : tag ∈ s.liveTags tags value ↔ s.LiveTag value tag := by
  simp [liveTags, LiveTag, tags.mem_iter]

theorem nodup_liveTags (tags : HashOrder Uuid) (value : T) : (s.liveTags tags value).Nodup :=
  (tags.nodup_iter _).filter _

def livePairs (values : HashOrder T) (tags : HashOrder Uuid) : List (T × Uuid) :=
  (s.entries values tags).flatMap (fun e => e.2.map (fun tag => (e.1, tag)))

theorem mem_entries (values : HashOrder T) (tags : HashOrder Uuid) (e : T × List Uuid) :
    e ∈ s.entries values tags ↔ e.2 = s.liveTags tags e.1 ∧ e.2 ≠ [] := by
  constructor
  · intro he
    obtain ⟨v, _, hv⟩ := List.mem_filterMap.mp he
    split at hv
    · simp at hv
    · rename_i hne
      obtain rfl := Option.some.inj hv
      exact ⟨rfl, hne⟩
  · rintro ⟨he, hne⟩
    refine List.mem_filterMap.mpr ⟨e.1, ?_, by rw [if_neg (he ▸ hne), ← he]⟩
    obtain ⟨tag, ht⟩ := List.exists_mem_of_ne_nil _ hne
    rw [values.mem_iter]
    have hlive := (mem_liveTags s tags e.1 tag).mp (he ▸ ht)
    exact Finset.mem_image_of_mem Prod.fst hlive.1

theorem entries_values_nodup (values : HashOrder T) (tags : HashOrder Uuid) :
    (s.entries values tags).Pairwise (fun a b => a.1 ≠ b.1) := by
  refine List.Pairwise.filterMap _ ?_ (values.nodup_iter _)
  intro a b hab c hc d hd
  split at hc
  · simp at hc
  · split at hd
    · simp at hd
    · obtain rfl := Option.some.inj hc
      obtain rfl := Option.some.inj hd
      exact hab

theorem mem_livePairs (values : HashOrder T) (tags : HashOrder Uuid) (p : T × Uuid) :
    p ∈ s.livePairs values tags ↔ s.LiveTag p.1 p.2 := by
  constructor
  · intro h
    obtain ⟨e, he, hp⟩ := List.mem_flatMap.mp h
    obtain ⟨tag, ht, rfl⟩ := List.mem_map.mp hp
    rw [((mem_entries s values tags e).mp he).1] at ht
    exact (mem_liveTags s tags e.1 tag).mp ht
  · intro h
    have ht := (mem_liveTags s tags p.1 p.2).mpr h
    refine List.mem_flatMap.mpr ⟨(p.1, s.liveTags tags p.1), ?_, List.mem_map.mpr ⟨p.2, ht, rfl⟩⟩
    exact (mem_entries s values tags _).mpr ⟨rfl, List.ne_nil_of_mem ht⟩

theorem nodup_livePairs (values : HashOrder T)
    (tags : HashOrder Uuid) : (s.livePairs values tags).Nodup := by
  refine List.nodup_flatMap.mpr ⟨?_, (entries_values_nodup s values tags).imp ?_⟩
  · intro e he
    rw [((mem_entries s values tags e).mp he).1]
    exact (nodup_liveTags s tags e.1).map (fun _ _ h => (Prod.mk.inj h).2)
  · intro a b hab x hxa hxb
    obtain ⟨_, _, rfl⟩ := List.mem_map.mp hxa
    obtain ⟨_, _, h⟩ := List.mem_map.mp hxb
    exact hab (Prod.mk.inj h).1.symm

theorem livePairs_perm {s t : AddWinsSet T} (h : ∀ value tag, s.LiveTag value tag ↔ t.LiveTag value tag)
    (values values' : HashOrder T) (tags tags' : HashOrder Uuid) :
    (s.livePairs values tags).Perm (t.livePairs values' tags') := by
  refine (List.perm_ext_iff_of_nodup (nodup_livePairs _ _ _) (nodup_livePairs _ _ _)).mpr fun p => ?_
  rw [mem_livePairs, mem_livePairs, h]

end

end

end

end AddWinsSet

end Knowledge.Sync
