import Knowledge.Lib.Table
import Knowledge.Lib.Transition
import Knowledge.Sync.AddWinsSet
import Mathlib.Algebra.Group.Nat.Defs

/-!
`crates/crypto/src/forgetting.rs`: the registry of data-encryption keys with its tombstones,
the two destructors with the store that makes tombstones durable, and the epoch manager.
-/

set_option autoImplicit false

namespace Knowledge.Crypto
open Knowledge.Transition
open Knowledge.Sync (Uuid)

abbrev ScopeId := Uuid

abbrev EpochId := Nat

abbrev AeadKey := BitVec 256

inductive CryptoError where
  | epochOverflow
  | persistence

def EpochId.next (e : EpochId) : Except CryptoError EpochId :=
  if e < 2^64-1 then .ok (e+1) else .error .epochOverflow

structure ScopeDek where
  createdAt : Int
  epoch : EpochId
  key : AeadKey
  destroyed : Bool

structure EpochDek where
  rotationTime : Int
  key : AeadKey
  destroyed : Bool

structure KeyDestructionEvent where
  scopeId : ScopeId
  epochId : EpochId
  scopeWide : Bool
  destroyedAt : Int

structure DekRegistry where
  scopeDeks : Table ScopeId ScopeDek
  epochDeks : Table (ScopeId × EpochId) EpochDek
  tombstones : Table (ScopeId × EpochId) Int
  forgottenScopes : Table ScopeId Int

namespace DekRegistry

def empty : DekRegistry := ⟨∅, ∅, ∅, ∅⟩

section

variable (r : DekRegistry) (scope : ScopeId)

def getScopeDek : Option ScopeDek :=
  (r.scopeDeks.lookup scope).filter fun dek => !dek.destroyed

def getEpochDek (epoch : EpochId) : Option EpochDek :=
  (r.epochDeks.lookup (scope, epoch)).filter fun dek => !dek.destroyed

def isScopeForgotten : Bool :=
  (r.forgottenScopes.lookup scope).isSome

def isEpochForgotten (epoch : EpochId) : Bool :=
  (r.tombstones.lookup (scope, epoch)).isSome

def insertEpochDek (epoch : EpochId) (dek : EpochDek) :
    DekRegistry := { r with epochDeks := r.epochDeks.insert (scope, epoch) dek }

def insertTombstone (epoch : EpochId) (now : Int) :
    DekRegistry := { r with tombstones := r.tombstones.insert (scope, epoch) now }

def dropScopeDek (now : Int) :
    DekRegistry × List KeyDestructionEvent :=
  match r.scopeDeks.lookup scope with
  | none => (r, [])
  | some dek =>
    let r := { r with scopeDeks := r.scopeDeks.erase scope }
    if dek.destroyed then (r, [])
    else (r.insertTombstone scope dek.epoch now, [⟨scope, dek.epoch, true, now⟩])

end

def dropEpochDeks (scope : ScopeId) (now : Int) (r : DekRegistry) :
    List EpochId → DekRegistry × List KeyDestructionEvent
  | [] => (r, [])
  | epoch :: rest =>
    match r.epochDeks.lookup (scope, epoch) with
    | none => dropEpochDeks scope now r rest
    | some dek =>
      let r := { r with epochDeks := r.epochDeks.erase (scope, epoch) }
      if dek.destroyed then dropEpochDeks scope now r rest
      else
        let (r, events) := dropEpochDeks scope now (r.insertTombstone scope epoch now) rest
        (r, ⟨scope, epoch, true, now⟩ :: events)

def epochsOf {V : Type} (t : Table (ScopeId × EpochId) V) (scope : ScopeId) :
    List (EpochId × V) :=
  ((t.rows.filter fun e => e.1.1 = scope).map fun e => (e.1.2, e.2)).mergeSort
    fun a b => a.1 ≤ b.1

def forgetScope (r : DekRegistry) (scope : ScopeId) (now : Int) :
    DekRegistry × List KeyDestructionEvent :=
  let (r, first) := r.dropScopeDek scope now
  let (r, rest) := dropEpochDeks scope now r ((epochsOf r.epochDeks scope).map Prod.fst)
  ({ r with forgottenScopes := r.forgottenScopes.insert scope now }, first ++ rest)

/-- What happens in memory when an epoch is destroyed. A tombstone is set even when there
was no live key. -/
def forgetEpoch (r : DekRegistry) (scope : ScopeId) (epoch : EpochId) (now : Int) :
    DekRegistry × List KeyDestructionEvent :=
  (({ r with epochDeks := r.epochDeks.erase (scope, epoch) }).insertTombstone scope epoch now,
    [⟨scope, epoch, false, now⟩])

end DekRegistry

/-- A durable store for tombstones. A call that fails leaves it as it is, and a record that
is there already stays. -/
structure TombstoneStore where
  tombstones : Table (ScopeId × EpochId) Int
  forgottenScopes : Table ScopeId Int
  fails : Nat → Bool
  calls : Nat

namespace TombstoneStore

def persistTombstone (store : TombstoneStore) (scope : ScopeId) (epoch : EpochId) (time : Int) :
    TombstoneStore × Except CryptoError Unit :=
  let store' := { store with calls := store.calls+1 }
  if store.fails store.calls then (store', .error .persistence)
  else if (store.tombstones.lookup (scope, epoch)).isSome then (store', .ok ())
  else ({ store' with tombstones := store.tombstones.insert (scope, epoch) time }, .ok ())

def persistForgottenScope (store : TombstoneStore) (scope : ScopeId) (time : Int) :
    TombstoneStore × Except CryptoError Unit :=
  let store' := { store with calls := store.calls+1 }
  if store.fails store.calls then (store', .error .persistence)
  else if (store.forgottenScopes.lookup scope).isSome then (store', .ok ())
  else ({ store' with forgottenScopes := store.forgottenScopes.insert scope time }, .ok ())

def persistTombstones (scope : ScopeId) (store : TombstoneStore) :
    List (EpochId × Int) → TombstoneStore × Except CryptoError Unit
  | [] => (store, .ok ())
  | (epoch, time) :: rest =>
    match store.persistTombstone scope epoch time with
    | (store, .error err) => (store, .error err)
    | (store, .ok ()) => persistTombstones scope store rest

def persistScope (store : TombstoneStore) (scope : ScopeId) (tombstones : List (EpochId × Int))
    (now : Int) : TombstoneStore × Except CryptoError Unit :=
  match persistTombstones scope store tombstones with
  | (store, .error err) => (store, .error err)
  | (store, .ok ()) => store.persistForgottenScope scope now

end TombstoneStore

open DekRegistry TombstoneStore

structure Destroyed where
  registry : DekRegistry
  store : TombstoneStore
  result : Except CryptoError (List KeyDestructionEvent)

def destroyScopeDek (r : DekRegistry) (store : TombstoneStore) (durable : Bool)
    (scope : ScopeId) (now : Int) : Destroyed :=
  if r.isScopeForgotten scope then ⟨r, store, .ok []⟩
  else
    let (r, events) := r.forgetScope scope now
    if durable then
      match store.persistScope scope (epochsOf r.tombstones scope) now with
      | (store, .error err) => ⟨r, store, .error err⟩
      | (store, .ok ()) => ⟨r, store, .ok events⟩
    else ⟨r, store, .ok events⟩

def destroyEpochDek (r : DekRegistry) (store : TombstoneStore) (durable : Bool)
    (scope : ScopeId) (epoch : EpochId) (now : Int) : Destroyed :=
  if r.isEpochForgotten scope epoch then ⟨r, store, .ok []⟩
  else
    let (r, events) := r.forgetEpoch scope epoch now
    if durable then
      match store.persistTombstone scope epoch now with
      | (store, .error err) => ⟨r, store, .error err⟩
      | (store, .ok ()) => ⟨r, store, .ok events⟩
    else ⟨r, store, .ok events⟩

/-- A destroy call, with the time it is made at and whether it is given the store. -/
inductive DestroyCall where
  | destroyScope (durable : Bool) (scope : ScopeId) (now : Int)
  | destroyEpoch (durable : Bool) (scope : ScopeId) (epoch : EpochId) (now : Int)

def DestroyCall.run (r : DekRegistry) (store : TombstoneStore) : DestroyCall → Destroyed
  | .destroyScope durable scope now => destroyScopeDek r store durable scope now
  | .destroyEpoch durable scope epoch now => destroyEpochDek r store durable scope epoch now

inductive EpochRotationTrigger where
  | timeElapsed | sizeExceeded | policyForced

structure EpochRotationPolicy where
  maxEpochDuration : Int
  maxEpochSizeBytes : Nat

structure EpochInfo where
  epochId : EpochId
  startedAt : Int
  bytesEncrypted : Nat
  cold : Bool

structure EpochManager where
  policy : EpochRotationPolicy
  epochs : Table ScopeId (List EpochInfo)
  current : Table ScopeId EpochId
  keySource : Nat → ScopeId → EpochId → AeadKey
  derived : Nat

namespace EpochManager

def new (policy : EpochRotationPolicy) (keySource : Nat → ScopeId → EpochId → AeadKey) :
    EpochManager := ⟨policy, ∅, ∅, keySource, 0⟩

section

variable (m : EpochManager)

def listEpochs (scope : ScopeId) : List EpochInfo :=
  (m.epochs.lookup scope).getD []

def beginEpoch (r : DekRegistry) (scope : ScopeId) (epoch : EpochId)
    (now : Int) : EpochManager × DekRegistry :=
  ({ m with
    epochs := m.epochs.insert scope (m.listEpochs scope ++ [⟨epoch, now, 0, false⟩])
    current := m.current.insert scope epoch
    derived := m.derived+1 },
    r.insertEpochDek scope epoch ⟨now, m.keySource m.derived scope epoch, false⟩)

def ensureScope (r : DekRegistry) (scope : ScopeId) (now : Int) :
    (EpochManager × DekRegistry) × EpochInfo :=
  match (m.listEpochs scope).find? fun e => !e.cold with
  | some info => ((m, r), info)
  | none => (m.beginEpoch r scope 0 now, ⟨0, now, 0, false⟩)

def nextEpoch (scope : ScopeId) : Except CryptoError EpochId :=
  match m.current.lookup scope with
  | some current => EpochId.next current
  | none => .ok 0

def allCold (scope : ScopeId) : EpochManager :=
  match m.epochs.lookup scope with
  | none => m
  | some infos =>
    { m with epochs := m.epochs.insert scope (infos.map fun e => { e with cold := true }) }

def rotate (r : DekRegistry) (scope : ScopeId) (now : Int) :
    (EpochManager × DekRegistry) × Except CryptoError EpochId :=
  match m.nextEpoch scope with
  | .error err => ((m, r), .error err)
  | .ok next => ((m.allCold scope).beginEpoch r scope next now, .ok next)

def forceRotate (r : DekRegistry) (scope : ScopeId) (now : Int) :
    (EpochManager × DekRegistry) × Except CryptoError (EpochId × EpochRotationTrigger) :=
  match m.rotate r scope now with
  | (s, .error err) => (s, .error err)
  | (s, .ok epoch) => (s, .ok (epoch, .policyForced))

end

def countFirst (bytes : Nat) : List EpochInfo → List EpochInfo
  | [] => []
  | e :: rest =>
    if e.cold then e :: countFirst bytes rest
    else { e with bytesEncrypted := min (e.bytesEncrypted+bytes) (2^64-1) } :: rest

def countBytes (m : EpochManager) (scope : ScopeId) (bytes : Nat) : EpochManager :=
  match m.epochs.lookup scope with
  | none => m
  | some infos =>
    { m with epochs := m.epochs.insert scope (countFirst bytes infos.reverse).reverse }

def dueFor (m : EpochManager) (scope : ScopeId) (now : Int) : Option EpochRotationTrigger :=
  match (m.listEpochs scope).reverse.find? fun e => !e.cold with
  | none => none
  | some latest =>
    if m.policy.maxEpochSizeBytes ≤ latest.bytesEncrypted then some .sizeExceeded
    else if m.policy.maxEpochDuration ≤ now-latest.startedAt then some .timeElapsed
    else none

def recordBytes (m : EpochManager) (r : DekRegistry) (scope : ScopeId) (bytes : Nat) (now : Int) :
    (EpochManager × DekRegistry) × Except CryptoError (Option EpochRotationTrigger) :=
  let m := m.countBytes scope bytes
  match m.dueFor scope now with
  | none => ((m, r), .ok none)
  | some trigger =>
    match m.rotate r scope now with
    | (s, .error err) => (s, .error err)
    | (s, .ok _) => (s, .ok (some trigger))

def overTime (m : EpochManager) (scope : ScopeId) (time : Int) : Bool :=
  match (m.listEpochs scope).reverse.find? fun e => !e.cold with
  | none => false
  | some latest => m.policy.maxEpochDuration ≤ time-latest.startedAt

def tick (m : EpochManager) (r : DekRegistry) (scope : ScopeId) (time now : Int) :
    (EpochManager × DekRegistry) × Except CryptoError (Option EpochRotationTrigger) :=
  if m.overTime scope time then
    match m.rotate r scope now with
    | (s, .error err) => (s, .error err)
    | (s, .ok _) => (s, .ok (some .timeElapsed))
  else ((m, r), .ok none)

end EpochManager

theorem mem_epochsOf {V : Type} {t : Table (ScopeId × EpochId) V} {scope : ScopeId}
    {epoch : EpochId} {v : V} :
    (epoch, v) ∈ epochsOf t scope ↔ t.lookup (scope, epoch) = some v := by
  simp only [epochsOf, List.mem_mergeSort, List.mem_map, List.mem_filter, Prod.exists,
    decide_eq_true_eq]
  constructor
  · rintro ⟨s, e, w, ⟨hmem, rfl⟩, heq⟩
    obtain ⟨rfl, rfl⟩ := Prod.mk.inj heq
    exact Table.mem_rows_iff.mp hmem
  · exact fun h => ⟨scope, epoch, v, ⟨Table.mem_rows_iff.mpr h, rfl⟩, rfl⟩

namespace DekRegistry

/-- Nothing is left of a scope that is forgotten, nor of an epoch that has a tombstone. -/
structure Gone (r : DekRegistry) : Prop where
  scope : ∀ scope, r.isScopeForgotten scope → r.getScopeDek scope = none
  epochs : ∀ scope epoch, r.isScopeForgotten scope → r.getEpochDek scope epoch = none
  epoch : ∀ scope epoch, r.isEpochForgotten scope epoch → r.getEpochDek scope epoch = none

/-- What a destroy in a scope may do to a registry: keys go, tombstones stay, and those that
come are for the scope. -/
structure Shrinks (scope : ScopeId) (r r' : DekRegistry) : Prop where
  scopeDeks : ∀ other, r'.scopeDeks.lookup other = r.scopeDeks.lookup other ∨
    r'.scopeDeks.lookup other = none
  epochDeks : ∀ k, r'.epochDeks.lookup k = r.epochDeks.lookup k ∨ r'.epochDeks.lookup k = none
  tombstones : ∀ k, (r.tombstones.lookup k).isSome → (r'.tombstones.lookup k).isSome
  fresh : ∀ k, (r'.tombstones.lookup k).isSome → (r.tombstones.lookup k).isSome ∨ k.1 = scope
  forgotten : r'.forgottenScopes = r.forgottenScopes

theorem Shrinks.refl (scope : ScopeId) (r : DekRegistry) : Shrinks scope r r :=
  ⟨fun _ => .inl rfl, fun _ => .inl rfl, fun _ h => h, fun _ h => .inl h, rfl⟩

theorem Shrinks.trans {scope : ScopeId} {r r' r'' : DekRegistry} (h : Shrinks scope r r')
    (h' : Shrinks scope r' r'') : Shrinks scope r r'' := by
  refine ⟨fun other => ?_, fun k => ?_, fun k hk => h'.tombstones k (h.tombstones k hk),
    fun k hk => ?_, h'.forgotten.trans h.forgotten⟩
  · obtain heq | hnone := h'.scopeDeks other
    · rw [heq]
      exact h.scopeDeks other
    · exact .inr hnone
  · obtain heq | hnone := h'.epochDeks k
    · rw [heq]
      exact h.epochDeks k
    · exact .inr hnone
  · obtain hk | hk := h'.fresh k hk
    · exact h.fresh k hk
    · exact .inr hk

theorem shrinks_insertTombstone (r : DekRegistry) (scope : ScopeId) (epoch : EpochId) (now : Int) :
    Shrinks scope r (r.insertTombstone scope epoch now) := by
  have hlookup : ∀ k, (r.insertTombstone scope epoch now).tombstones.lookup k =
      if k = (scope, epoch) then some now else r.tombstones.lookup k :=
    fun k => Table.lookup_insert_ite _ _ _ _
  refine ⟨fun _ => .inl rfl, fun _ => .inl rfl, fun k hk => ?_, fun k hk => ?_, rfl⟩
  · rw [hlookup]
    split
    · rfl
    · exact hk
  · rw [hlookup] at hk
    split at hk
    · rename_i heq
      exact .inr (congrArg Prod.fst heq)
    · exact .inl hk

theorem shrinks_eraseEpoch (scope : ScopeId) (r : DekRegistry) (k : ScopeId × EpochId) :
    Shrinks scope r { r with epochDeks := r.epochDeks.erase k } := by
  refine ⟨fun _ => .inl rfl, fun k' => ?_, fun _ h => h, fun _ h => .inl h, rfl⟩
  rw [Table.lookup_erase_ite]
  split
  · exact .inr rfl
  · exact .inl rfl

theorem dropScopeDek_spec (r : DekRegistry) (scope : ScopeId) (now : Int) :
    Shrinks scope r (r.dropScopeDek scope now).1 ∧
      (r.dropScopeDek scope now).1.scopeDeks.lookup scope = none ∧
      (r.dropScopeDek scope now).1.epochDeks = r.epochDeks := by
  have herase : Shrinks scope r { r with scopeDeks := r.scopeDeks.erase scope } := by
    refine ⟨fun other => ?_, fun _ => .inl rfl, fun _ h => h, fun _ h => .inl h, rfl⟩
    rw [Table.lookup_erase_ite]
    split
    · exact .inr rfl
    · exact .inl rfl
  unfold dropScopeDek
  split
  · rename_i hnone
    exact ⟨.refl scope r, hnone, rfl⟩
  · dsimp only
    split
    · exact ⟨herase, AList.lookup_erase _ _, rfl⟩
    · exact ⟨herase.trans (shrinks_insertTombstone _ _ _ _), AList.lookup_erase _ _, rfl⟩

theorem dropEpochDeks_spec (scope : ScopeId) (now : Int) (epochs : List EpochId) (r : DekRegistry) :
    Shrinks scope r (dropEpochDeks scope now r epochs).1 ∧
      (dropEpochDeks scope now r epochs).1.scopeDeks = r.scopeDeks ∧
      ∀ epoch ∈ epochs, (dropEpochDeks scope now r epochs).1.epochDeks.lookup (scope, epoch) =
        none := by
  induction epochs generalizing r with
  | nil => exact ⟨.refl scope r, rfl, by simp⟩
  | cons e rest ih =>
    rw [dropEpochDeks]
    split
    · rename_i hnone
      obtain ⟨hshrinks, hscope, hrest⟩ := ih r
      refine ⟨hshrinks, hscope, List.forall_mem_cons.mpr ⟨?_, hrest⟩⟩
      obtain heq | hnone' := hshrinks.epochDeks (scope, e)
      · rw [heq, hnone]
      · exact hnone'
    · dsimp only
      have herase := shrinks_eraseEpoch scope r (scope, e)
      have hgone : ∀ r', Shrinks scope { r with epochDeks := r.epochDeks.erase (scope, e) } r' →
          r'.epochDeks.lookup (scope, e) = none := by
        intro r' hr'
        obtain heq | hnone := hr'.epochDeks (scope, e)
        · rw [heq]
          exact AList.lookup_erase _ _
        · exact hnone
      split
      · obtain ⟨hshrinks, hscope, hrest⟩ := ih { r with epochDeks := r.epochDeks.erase (scope, e) }
        exact ⟨herase.trans hshrinks, hscope, List.forall_mem_cons.mpr ⟨hgone _ hshrinks, hrest⟩⟩
      · obtain ⟨hshrinks, hscope, hrest⟩ :=
          ih (({ r with epochDeks := r.epochDeks.erase (scope, e) }).insertTombstone scope e now)
        have hboth := (shrinks_insertTombstone _ scope e now).trans hshrinks
        exact ⟨herase.trans hboth, hscope, List.forall_mem_cons.mpr ⟨hgone _ hboth, hrest⟩⟩

theorem forgetScope_spec (r : DekRegistry) (scope : ScopeId) (now : Int) :
    (∃ r', Shrinks scope r r' ∧ (r.forgetScope scope now).1 =
      { r' with forgottenScopes := r.forgottenScopes.insert scope now }) ∧
    (r.forgetScope scope now).1.scopeDeks.lookup scope = none ∧
    ∀ epoch, (r.forgetScope scope now).1.epochDeks.lookup (scope, epoch) = none := by
  obtain ⟨hdrop, hscope, hsame⟩ := dropScopeDek_spec r scope now
  obtain ⟨hrest, hscopes, hgone⟩ := dropEpochDeks_spec scope now
    ((epochsOf (r.dropScopeDek scope now).1.epochDeks scope).map Prod.fst)
    (r.dropScopeDek scope now).1
  have hboth := hdrop.trans hrest
  have heq : (r.forgetScope scope now).1 = { (dropEpochDeks scope now (r.dropScopeDek scope now).1
      ((epochsOf (r.dropScopeDek scope now).1.epochDeks scope).map Prod.fst)).1 with
      forgottenScopes := r.forgottenScopes.insert scope now } := by
    rw [← hboth.forgotten]
    rfl
  rw [heq]
  refine ⟨⟨_, hboth, rfl⟩, ?_, fun epoch => ?_⟩
  · rw [hscopes, hscope]
  · cases hl : (r.dropScopeDek scope now).1.epochDeks.lookup (scope, epoch) with
    | some dek =>
      exact hgone epoch (List.mem_map.mpr ⟨(epoch, dek), mem_epochsOf.mpr hl, rfl⟩)
    | none =>
      obtain heq | hnone := hrest.epochDeks (scope, epoch)
      · rw [heq, hl]
      · exact hnone

theorem getScopeDek_eq_none {r : DekRegistry} {scope : ScopeId}
    (h : r.scopeDeks.lookup scope = none) : r.getScopeDek scope = none := by
  rw [getScopeDek, h]
  rfl

theorem getEpochDek_eq_none {r : DekRegistry} {scope : ScopeId} {epoch : EpochId}
    (h : r.epochDeks.lookup (scope, epoch) = none) : r.getEpochDek scope epoch = none := by
  rw [getEpochDek, h]
  rfl

theorem Shrinks.getScopeDek {scope : ScopeId} {r r' : DekRegistry} (h : Shrinks scope r r')
    {other : ScopeId} (hnone : r.getScopeDek other = none) : r'.getScopeDek other = none := by
  obtain heq | hgone := h.scopeDeks other
  · rwa [DekRegistry.getScopeDek, heq]
  · exact getScopeDek_eq_none hgone

theorem Shrinks.getEpochDek {scope : ScopeId} {r r' : DekRegistry} (h : Shrinks scope r r')
    {other : ScopeId} {epoch : EpochId} (hnone : r.getEpochDek other epoch = none) :
    r'.getEpochDek other epoch = none := by
  obtain heq | hgone := h.epochDeks (other, epoch)
  · rwa [DekRegistry.getEpochDek, heq]
  · exact getEpochDek_eq_none hgone

theorem Gone.forgetScope {r : DekRegistry} (h : r.Gone) (scope : ScopeId) (now : Int) :
    (r.forgetScope scope now).1.Gone := by
  obtain ⟨⟨r', hshrinks, heq⟩, hscope, hepochs⟩ := forgetScope_spec r scope now
  rw [heq] at hscope hepochs ⊢
  have hforgotten : ∀ other, other ≠ scope →
      ({ r' with forgottenScopes := r.forgottenScopes.insert scope now }).isScopeForgotten other →
        r.isScopeForgotten other := by
    intro other hne hf
    rwa [isScopeForgotten, AList.lookup_insert_ne hne] at hf
  refine ⟨fun other hf => ?_, fun other epoch hf => ?_, fun other epoch hf => ?_⟩
  · by_cases hother : other = scope
    · subst hother
      exact getScopeDek_eq_none hscope
    · exact hshrinks.getScopeDek (h.scope other (hforgotten other hother hf))
  · by_cases hother : other = scope
    · subst hother
      exact getEpochDek_eq_none (hepochs epoch)
    · exact hshrinks.getEpochDek (h.epochs other epoch (hforgotten other hother hf))
  · by_cases hother : other = scope
    · subst hother
      exact getEpochDek_eq_none (hepochs epoch)
    · obtain hold | hnew := hshrinks.fresh (other, epoch) hf
      · exact hshrinks.getEpochDek (h.epoch other epoch hold)
      · exact absurd hnew hother

theorem Gone.forgetEpoch {r : DekRegistry} (h : r.Gone) (scope : ScopeId) (epoch : EpochId)
    (now : Int) : (r.forgetEpoch scope epoch now).1.Gone := by
  have hshrinks : Shrinks scope r (r.forgetEpoch scope epoch now).1 :=
    (shrinks_eraseEpoch scope r (scope, epoch)).trans (shrinks_insertTombstone _ _ _ _)
  have hforgotten : ∀ other, (r.forgetEpoch scope epoch now).1.isScopeForgotten other →
      r.isScopeForgotten other := fun other hf => hf
  refine ⟨fun other hf => hshrinks.getScopeDek (h.scope other (hforgotten other hf)),
    fun other e hf => hshrinks.getEpochDek (h.epochs other e (hforgotten other hf)),
    fun other e hf => ?_⟩
  by_cases heq : (other, e) = (scope, epoch)
  · obtain ⟨rfl, rfl⟩ := Prod.mk.inj heq
    exact getEpochDek_eq_none (AList.lookup_erase _ _)
  · refine hshrinks.getEpochDek (h.epoch other e ?_)
    have hl : (r.forgetEpoch scope epoch now).1.tombstones.lookup (other, e) =
      r.tombstones.lookup (other, e) := AList.lookup_insert_ne heq
    rwa [isEpochForgotten, hl] at hf

end DekRegistry

inductive ManagerCall where
  | ensureScope (scope : ScopeId) (now : Int)
  | recordBytes (scope : ScopeId) (bytes : Nat) (now : Int)
  | tick (scope : ScopeId) (time now : Int)
  | forceRotate (scope : ScopeId) (now : Int)

namespace ManagerCall

def run (m : EpochManager) (r : DekRegistry) : ManagerCall → EpochManager × DekRegistry
  | ensureScope scope now => (m.ensureScope r scope now).1
  | recordBytes scope bytes now => (m.recordBytes r scope bytes now).1
  | tick scope time now => (m.tick r scope time now).1
  | forceRotate scope now => (m.forceRotate r scope now).1

/-- The epoch that the call begins, if it begins one: the first of a scope that has no live
epoch, or the next one when a rotation is due. -/
def begins (m : EpochManager) : ManagerCall → Option (ScopeId × EpochId)
  | ensureScope scope _ =>
    if ((m.listEpochs scope).find? fun e => !e.cold).isNone then some (scope, 0) else none
  | recordBytes scope bytes now =>
    if ((m.countBytes scope bytes).dueFor scope now).isSome then
      (m.nextEpoch scope).toOption.map (scope, ·)
    else none
  | tick scope time _ =>
    if m.overTime scope time then (m.nextEpoch scope).toOption.map (scope, ·) else none
  | forceRotate scope _ => (m.nextEpoch scope).toOption.map (scope, ·)

end ManagerCall

namespace EpochManager

theorem countBytes_nextEpoch (m : EpochManager) (scope : ScopeId) (bytes : Nat) :
    (m.countBytes scope bytes).nextEpoch scope = m.nextEpoch scope := by
  unfold countBytes
  split
  · rfl
  · rfl

theorem rotate_registry (m : EpochManager) (r : DekRegistry) (scope : ScopeId) (now : Int) :
    (m.rotate r scope now).1.2 = r ∧ (m.nextEpoch scope).toOption = none ∨
      ∃ epoch dek, (m.nextEpoch scope).toOption = some epoch ∧
        (m.rotate r scope now).1.2 = r.insertEpochDek scope epoch dek := by
  unfold rotate
  cases h : m.nextEpoch scope with
  | error err => exact .inl ⟨rfl, rfl⟩
  | ok next => exact .inr ⟨next, _, rfl, rfl⟩

end EpochManager

theorem ManagerCall.run_registry (m : EpochManager) (r : DekRegistry) (call : ManagerCall) :
    (call.run m r).2 = r ∨ ∃ scope epoch dek, call.begins m = some (scope, epoch) ∧
      (call.run m r).2 = r.insertEpochDek scope epoch dek := by
  cases call with
  | ensureScope scope now =>
    simp only [run, begins, EpochManager.ensureScope]
    cases h : (m.listEpochs scope).find? fun e => !e.cold with
    | some info => exact .inl rfl
    | none => exact .inr ⟨scope, 0, _, rfl, rfl⟩
  | recordBytes scope bytes now =>
    simp only [run, begins, EpochManager.recordBytes]
    cases h : (m.countBytes scope bytes).dueFor scope now with
    | none => exact .inl rfl
    | some trigger =>
      have hr := (m.countBytes scope bytes).rotate_registry r scope now
      rw [EpochManager.countBytes_nextEpoch] at hr
      generalize (m.countBytes scope bytes).rotate r scope now = rotated at hr ⊢
      obtain ⟨s, result⟩ := rotated
      obtain ⟨heq, -⟩ | ⟨epoch, dek, hnext, heq⟩ := hr
      · cases result <;> exact .inl heq
      · simp only [hnext]
        cases result <;> exact .inr ⟨scope, epoch, dek, rfl, heq⟩
  | tick scope time now =>
    simp only [run, begins, EpochManager.tick]
    cases h : m.overTime scope time with
    | false => exact .inl rfl
    | true =>
      have hr := m.rotate_registry r scope now
      simp only [if_true]
      generalize m.rotate r scope now = rotated at hr ⊢
      obtain ⟨s, result⟩ := rotated
      obtain ⟨heq, -⟩ | ⟨epoch, dek, hnext, heq⟩ := hr
      · cases result <;> exact .inl heq
      · simp only [hnext]
        cases result <;> exact .inr ⟨scope, epoch, dek, rfl, heq⟩
  | forceRotate scope now =>
    simp only [run, begins, EpochManager.forceRotate]
    have hr := m.rotate_registry r scope now
    generalize m.rotate r scope now = rotated at hr ⊢
    obtain ⟨s, result⟩ := rotated
    obtain ⟨heq, -⟩ | ⟨epoch, dek, hnext, heq⟩ := hr
    · cases result <;> exact .inl heq
    · simp only [hnext]
      cases result <;> exact .inr ⟨scope, epoch, dek, rfl, heq⟩

end Knowledge.Crypto
