import Knowledge.Crypto.Forgetting

/-!
What forgetting comes to over whole runs: whether a key can come back after its scope or
epoch has been forgotten, and whether a destroy that succeeded outlives the process.
-/

set_option autoImplicit false

namespace Knowledge.Crypto
open Knowledge.Transition
open DekRegistry TombstoneStore

structure Vault where
  registry : DekRegistry
  store : TombstoneStore
  manager : EpochManager

inductive VaultAct where
  | manage (call : ManagerCall)
  | destroy (call : DestroyCall)

namespace Vault

def next (s : Vault) : VaultAct → Vault
  | .manage call =>
    let (m, r) := call.run s.manager s.registry
    { s with manager := m, registry := r }
  | .destroy call =>
    let d := call.run s.registry s.store
    { s with registry := d.registry, store := d.store }

/-- A new manager and a registry of any keys, from which nothing has been destroyed. -/
def Init (s : Vault) : Prop :=
  (∃ policy source, s.manager = .new policy source) ∧ s.registry.tombstones = ∅ ∧
    s.registry.forgottenScopes = ∅

def system : System Vault VaultAct := .ofNext Init (fun _ _ => True) next

def spares (s : Vault) : VaultAct → Bool
  | .manage call => (call.begins s.manager).all fun e =>
    !s.registry.isScopeForgotten e.1 && !s.registry.isEpochForgotten e.1 e.2
  | .destroy _ => true

end Vault

theorem DestroyCall.run_registry (r : DekRegistry) (store : TombstoneStore) (call : DestroyCall) :
    (call.run r store).registry = r ∨
      (∃ scope now, (call.run r store).registry = (r.forgetScope scope now).1) ∨
      ∃ scope epoch now, (call.run r store).registry = (r.forgetEpoch scope epoch now).1 := by
  cases call with
  | destroyScope durable scope now =>
    simp only [run, destroyScopeDek]
    split
    · exact .inl rfl
    · refine .inr (.inl ⟨scope, now, ?_⟩)
      split
      · split <;> rfl
      · rfl
  | destroyEpoch durable scope epoch now =>
    simp only [run, destroyEpochDek]
    split
    · exact .inl rfl
    · refine .inr (.inr ⟨scope, epoch, now, ?_⟩)
      split
      · split <;> rfl
      · rfl

namespace DekRegistry

structure Remembers (r r' : DekRegistry) : Prop where
  scope : ∀ scope, r.isScopeForgotten scope → r'.isScopeForgotten scope
  epoch : ∀ scope epoch, r.isEpochForgotten scope epoch → r'.isEpochForgotten scope epoch

theorem Remembers.trans {r r' r'' : DekRegistry} (h : Remembers r r') (h' : Remembers r' r'') :
    Remembers r r'' :=
  ⟨fun scope hs => h'.scope scope (h.scope scope hs),
    fun scope epoch he => h'.epoch scope epoch (h.epoch scope epoch he)⟩

theorem remembers_forgetScope (r : DekRegistry) (scope : ScopeId) (now : Int) :
    Remembers r (r.forgetScope scope now).1 := by
  obtain ⟨⟨r', hshrinks, heq⟩, -, -⟩ := forgetScope_spec r scope now
  rw [heq]
  refine ⟨fun other hf => ?_, fun other epoch he => hshrinks.tombstones (other, epoch) he⟩
  change ((r.forgottenScopes.insert scope now).lookup other).isSome
  rw [Table.lookup_insert_ite]
  split
  · rfl
  · exact hf

theorem remembers_forgetEpoch (r : DekRegistry) (scope : ScopeId) (epoch : EpochId) (now : Int) :
    Remembers r (r.forgetEpoch scope epoch now).1 :=
  ⟨fun _ hf => hf, fun other e he =>
    (shrinks_insertTombstone { r with epochDeks := r.epochDeks.erase (scope, epoch) } scope epoch
      now).tombstones (other, e) he⟩

theorem Gone.insertEpochDek {r : DekRegistry} (h : r.Gone) {scope : ScopeId} {epoch : EpochId}
    (hscope : r.isScopeForgotten scope = false) (hepoch : r.isEpochForgotten scope epoch = false)
    (dek : EpochDek) : (r.insertEpochDek scope epoch dek).Gone := by
  have hget : ∀ other e, (other, e) ≠ (scope, epoch) →
      (r.insertEpochDek scope epoch dek).getEpochDek other e = r.getEpochDek other e := by
    intro other e hne
    have hl : (r.insertEpochDek scope epoch dek).epochDeks.lookup (other, e) =
      r.epochDeks.lookup (other, e) := AList.lookup_insert_ne hne
    rw [getEpochDek, hl]
    rfl
  refine ⟨h.scope, fun other e hf => ?_, fun other e he => ?_⟩
  · rw [hget]
    · exact h.epochs other e hf
    · rintro ⟨rfl, rfl⟩
      exact absurd (hscope.symm.trans hf) (by decide)
  · rw [hget]
    · exact h.epoch other e he
    · rintro ⟨rfl, rfl⟩
      exact absurd (hepoch.symm.trans he) (by decide)

end DekRegistry

namespace Vault

theorem remembers_next (s : Vault) (act : VaultAct) :
    Remembers s.registry (s.next act).registry := by
  cases act with
  | manage call =>
    obtain heq | ⟨scope, epoch, dek, -, heq⟩ := call.run_registry s.manager s.registry
    · rw [show (s.next (.manage call)).registry = s.registry from heq]
      exact ⟨fun _ h => h, fun _ _ h => h⟩
    · rw [show (s.next (.manage call)).registry = _ from heq]
      exact ⟨fun _ h => h, fun _ _ h => h⟩
  | destroy call =>
    obtain heq | ⟨scope, now, heq⟩ | ⟨scope, epoch, now, heq⟩ :=
      call.run_registry s.registry s.store
    · rw [show (s.next (.destroy call)).registry = s.registry from heq]
      exact ⟨fun _ h => h, fun _ _ h => h⟩
    · rw [show (s.next (.destroy call)).registry = _ from heq]
      exact remembers_forgetScope _ _ _
    · rw [show (s.next (.destroy call)).registry = _ from heq]
      exact remembers_forgetEpoch _ _ _ _

theorem gone_next {s : Vault} (h : s.registry.Gone) {act : VaultAct} (hact : s.spares act) :
    (s.next act).registry.Gone := by
  cases act with
  | manage call =>
    obtain heq | ⟨scope, epoch, dek, hbegins, heq⟩ := call.run_registry s.manager s.registry
    · rw [show (s.next (.manage call)).registry = s.registry from heq]
      exact h
    · rw [show (s.next (.manage call)).registry = _ from heq]
      simp only [spares, hbegins, Option.all_some, Bool.and_eq_true, Bool.not_eq_eq_eq_not,
        Bool.not_true] at hact
      exact h.insertEpochDek hact.1 hact.2 dek
  | destroy call =>
    obtain heq | ⟨scope, now, heq⟩ | ⟨scope, epoch, now, heq⟩ :=
      call.run_registry s.registry s.store
    · rw [show (s.next (.destroy call)).registry = s.registry from heq]
      exact h
    · rw [show (s.next (.destroy call)).registry = _ from heq]
      exact h.forgetScope scope now
    · rw [show (s.next (.destroy call)).registry = _ from heq]
      exact h.forgetEpoch scope epoch now

theorem gone_of_reachable {s : Vault}
    (h : (system.restrict fun s act => s.spares act).Reachable s) : s.registry.Gone := by
  refine h.invariant (fun s => s.registry.Gone) ?_ ?_
  · rintro s ⟨-, htomb, hforgotten⟩
    refine ⟨fun scope hf => ?_, fun scope epoch hf => ?_, fun scope epoch he => ?_⟩
    · rw [isScopeForgotten, hforgotten] at hf
      cases hf
    · rw [isScopeForgotten, hforgotten] at hf
      cases hf
    · rw [isEpochForgotten, htomb] at he
      cases he
  · rintro s act t - hs ⟨⟨-, rfl⟩, hact⟩
    exact gone_next hs hact

end Vault

/-- In a run in which the manager begins no epoch of a forgotten scope and none that has a
tombstone, what has been forgotten has no key at any later time. -/
theorem forgetting_permanent {s t : Vault}
    (hs : (Vault.system.restrict fun s act => s.spares act).Reachable s)
    (ht : (({ Vault.system with init := (· = s) }).restrict fun s act => s.spares act).Reachable t) :
    (∀ scope, s.registry.isScopeForgotten scope → t.registry.getScopeDek scope = none ∧
      ∀ epoch, t.registry.getEpochDek scope epoch = none) ∧
    ∀ scope epoch, s.registry.isEpochForgotten scope epoch →
      t.registry.getEpochDek scope epoch = none := by
  have hinv : (Vault.system.restrict fun s act => s.spares act).Reachable t ∧
      Remembers s.registry t.registry := by
    refine ht.invariant (fun t => (Vault.system.restrict fun s act => s.spares act).Reachable t ∧
      Remembers s.registry t.registry) ?_ ?_
    · rintro t rfl
      exact ⟨hs, fun _ h => h, fun _ _ h => h⟩
    · rintro t act u - ⟨hr, hrem⟩ ⟨⟨-, rfl⟩, hact⟩
      exact ⟨hr.step ⟨⟨trivial, rfl⟩, hact⟩, hrem.trans (t.remembers_next act)⟩
  have hgone := Vault.gone_of_reachable hinv.1
  refine ⟨fun scope hf => ?_, fun scope epoch he => hgone.epoch scope epoch
    (hinv.2.epoch scope epoch he)⟩
  have hf := hinv.2.scope scope hf
  exact ⟨hgone.scope scope hf, fun epoch => hgone.epochs scope epoch hf⟩

def sampleVault : Vault :=
  ⟨.empty, ⟨∅, ∅, fun _ => false, 0⟩, .new ⟨10, 10⟩ fun n _ _ => BitVec.ofNat 256 n⟩

def vaultAfter (acts : List VaultAct) : Vault := acts.foldl Vault.next sampleVault

/-- An epoch is rotated out and destroyed, and the manager goes on. -/
theorem forgetting_permanent_rotated :
    (vaultAfter [.manage (.ensureScope 7 0), .manage (.forceRotate 7 1),
      .destroy (.destroyEpoch true 7 0 2)]).registry.isEpochForgotten 7 0 ∧
    (vaultAfter [.manage (.ensureScope 7 0), .manage (.forceRotate 7 1),
      .destroy (.destroyEpoch true 7 0 2),
      .manage (.recordBytes 7 12 3)]).registry.getEpochDek 7 0 = none := by
  have hf : (vaultAfter [.manage (.ensureScope 7 0), .manage (.forceRotate 7 1),
      .destroy (.destroyEpoch true 7 0 2)]).registry.isEpochForgotten 7 0 := by decide +kernel
  have hs : (Vault.system.restrict fun s act => s.spares act).Reachable
      (vaultAfter [.manage (.ensureScope 7 0), .manage (.forceRotate 7 1),
        .destroy (.destroyEpoch true 7 0 2)]) :=
    Legal.reachable_restrict ⟨⟨trivial, by decide +kernel⟩, ⟨trivial, by decide +kernel⟩,
      ⟨trivial, by decide +kernel⟩, trivial⟩ (.init ⟨⟨_, _, rfl⟩, rfl, rfl⟩)
  refine ⟨hf, (forgetting_permanent hs ?_).2 7 0 hf⟩
  exact .step (a := .manage (.recordBytes 7 12 3)) (.init rfl) ⟨⟨trivial, rfl⟩, by decide +kernel⟩

/-- A rotation after the scope has been forgotten registers a key for it. -/
theorem rotation_revives_scope :
    ∃ s t, Vault.system.Reachable s ∧ ({ Vault.system with init := (· = s) }).Reachable t ∧
      s.registry.isScopeForgotten 7 ∧ t.registry.getEpochDek 7 1 ≠ none := by
  refine ⟨vaultAfter [.manage (.ensureScope 7 0), .destroy (.destroyScope true 7 1)],
    vaultAfter [.manage (.ensureScope 7 0), .destroy (.destroyScope true 7 1),
      .manage (.forceRotate 7 2)], ?_, ?_, by decide +kernel, by decide +kernel⟩
  · exact Legal.reachable ⟨trivial, trivial, trivial⟩ (.init ⟨⟨_, _, rfl⟩, rfl, rfl⟩)
  · exact .step (a := .manage (.forceRotate 7 2)) (.init rfl) ⟨trivial, rfl⟩

namespace TombstoneStore

/-- The store has the record of the scope and every tombstone that memory has for it. -/
def Holds (store : TombstoneStore) (r : DekRegistry) (scope : ScopeId) : Prop :=
  (store.forgottenScopes.lookup scope).isSome ∧ ∀ epoch, r.isEpochForgotten scope epoch →
    (store.tombstones.lookup (scope, epoch)).isSome

theorem persistTombstone_ok {store store' : TombstoneStore} {scope : ScopeId} {epoch : EpochId}
    {time : Int} (h : store.persistTombstone scope epoch time = (store', .ok ())) :
    (store'.tombstones.lookup (scope, epoch)).isSome ∧
      ∀ k, (store.tombstones.lookup k).isSome → (store'.tombstones.lookup k).isSome := by
  unfold persistTombstone at h
  dsimp only at h
  split at h
  · cases h
  · split at h
    · rename_i hthere
      cases h
      exact ⟨hthere, fun _ hk => hk⟩
    · cases h
      refine ⟨by rw [AList.lookup_insert]; rfl, fun k hk => ?_⟩
      rw [Table.lookup_insert_ite]
      split
      · rfl
      · exact hk

theorem persistTombstones_ok {scope : ScopeId} {tombstones : List (EpochId × Int)}
    {store store' : TombstoneStore}
    (h : persistTombstones scope store tombstones = (store', .ok ())) :
    (∀ e ∈ tombstones, (store'.tombstones.lookup (scope, e.1)).isSome) ∧
      ∀ k, (store.tombstones.lookup k).isSome → (store'.tombstones.lookup k).isSome := by
  induction tombstones generalizing store with
  | nil =>
    cases h
    exact ⟨by simp, fun _ hk => hk⟩
  | cons e rest ih =>
    rw [persistTombstones] at h
    split at h
    · cases h
    · rename_i next hfirst
      obtain ⟨hthere, hkept⟩ := persistTombstone_ok hfirst
      obtain ⟨hrest, hlater⟩ := ih h
      exact ⟨List.forall_mem_cons.mpr ⟨hlater _ hthere, hrest⟩, fun k hk => hlater k (hkept k hk)⟩

theorem persistForgottenScope_ok {store store' : TombstoneStore} {scope : ScopeId} {now : Int}
    (h : store.persistForgottenScope scope now = (store', .ok ())) :
    (store'.forgottenScopes.lookup scope).isSome ∧ store'.tombstones = store.tombstones := by
  unfold persistForgottenScope at h
  dsimp only at h
  split at h
  · cases h
  · split at h
    · rename_i hthere
      cases h
      exact ⟨hthere, rfl⟩
    · cases h
      exact ⟨by rw [AList.lookup_insert]; rfl, rfl⟩

theorem holds_of_persistScope {store store' : TombstoneStore} {r : DekRegistry} {scope : ScopeId}
    {now : Int} (h : store.persistScope scope (epochsOf r.tombstones scope) now = (store', .ok ())) :
    store'.Holds r scope := by
  unfold persistScope at h
  split at h
  · cases h
  · rename_i next hfirst
    obtain ⟨hrecord, hsame⟩ := persistForgottenScope_ok h
    refine ⟨hrecord, fun epoch he => ?_⟩
    obtain ⟨time, ht⟩ := Option.isSome_iff_exists.mp he
    rw [hsame]
    exact (persistTombstones_ok hfirst).1 _ (mem_epochsOf.mpr ht)

end TombstoneStore

namespace DestroyCall

def Kept (call : DestroyCall) (d : Destroyed) : Prop :=
  match call with
  | destroyScope true scope _ => d.result.isOk → d.store.Holds d.registry scope
  | destroyEpoch true scope epoch _ => d.result.isOk →
    (d.store.tombstones.lookup (scope, epoch)).isSome
  | _ => True

/-- A call that is given the store is not for what memory counts as forgotten already while
the store has no record of it. -/
def Timely (r : DekRegistry) (store : TombstoneStore) : DestroyCall → Prop
  | destroyScope true scope _ => r.isScopeForgotten scope → store.Holds r scope
  | destroyEpoch true scope epoch _ => r.isEpochForgotten scope epoch →
    (store.tombstones.lookup (scope, epoch)).isSome
  | _ => True

theorem kept_iff (r : DekRegistry) (store : TombstoneStore) (call : DestroyCall) :
    call.Kept (call.run r store) ↔ call.Timely r store := by
  cases call with
  | destroyScope durable scope now =>
    cases durable with
    | false => exact Iff.rfl
    | true =>
      simp only [Kept, Timely, run, destroyScopeDek]
      by_cases hf : r.isScopeForgotten scope
      · simp only [hf, if_true, true_implies]
        exact ⟨fun h => h rfl, fun h _ => h⟩
      · simp only [hf, Bool.false_eq_true, if_false, if_true, false_implies, iff_true]
        intro hok
        split at hok
        · cases hok
        · rename_i store' hpersist
          exact holds_of_persistScope hpersist
  | destroyEpoch durable scope epoch now =>
    cases durable with
    | false => exact Iff.rfl
    | true =>
      simp only [Kept, Timely, run, destroyEpochDek]
      by_cases hf : r.isEpochForgotten scope epoch
      · simp only [hf, if_true, true_implies]
        exact ⟨fun h => h rfl, fun h _ => h⟩
      · simp only [hf, Bool.false_eq_true, if_false, if_true, false_implies, iff_true]
        intro hok
        split at hok
        · cases hok
        · rename_i store' hpersist
          exact (persistTombstone_ok hpersist).1

def AllKept : DekRegistry → TombstoneStore → List DestroyCall → Prop
  | _, _, [] => True
  | r, store, call :: rest => call.Kept (call.run r store) ∧
    AllKept (call.run r store).registry (call.run r store).store rest

def AllTimely : DekRegistry → TombstoneStore → List DestroyCall → Prop
  | _, _, [] => True
  | r, store, call :: rest => call.Timely r store ∧
    AllTimely (call.run r store).registry (call.run r store).store rest

end DestroyCall

/-- In a sequence of calls, each that succeeds is durable just when none of them comes too
late: for something that memory counts as forgotten while the store has no record of it. -/
theorem destroys_durable_iff (r : DekRegistry) (store : TombstoneStore) (calls : List DestroyCall) :
    DestroyCall.AllKept r store calls ↔ DestroyCall.AllTimely r store calls := by
  induction calls generalizing r store with
  | nil => exact Iff.rfl
  | cons call rest ih => exact and_congr (call.kept_iff r store) (ih _ _)

/-- A destroy without the store, then one with it that succeeds and leaves no record. -/
theorem upgrade_not_durable :
    ¬DestroyCall.AllKept .empty ⟨∅, ∅, fun _ => false, 0⟩
      [.destroyScope false 7 0, .destroyScope true 7 1] := by
  rintro ⟨-, hkept, -⟩
  have hsome := (hkept rfl).1
  revert hsome
  decide +kernel

end Knowledge.Crypto
