import Knowledge.Evidence.Store

/-!
Which key a scope resolves to, and what the calls of the store do to that: they only add
legacy keys to the cache, save for those that provision, forget or open.
-/

set_option autoImplicit false

namespace Knowledge.Evidence
open Knowledge.Cipher
open Knowledge.Sync (Uuid)

namespace EvidenceStore

section

variable (store : EvidenceStore) (scope : ScopeId)

def legacyKey : AeadKey :=
  deriveKey store.masterKey (scopeContext scope)

def keyFor : AeadKey :=
  (store.scopeKeys.lookup scope).getD (store.legacyKey scope)

def resolved : Table ScopeId AeadKey :=
  match store.scopeKeys.lookup scope with
  | some _ => store.scopeKeys
  | none => store.scopeKeys.insert scope (store.legacyKey scope)

theorem scopeKey_eq : store.scopeKey scope =
    ({ store with scopeKeys := store.resolved scope }, store.keyFor scope) := by
  unfold scopeKey keyFor resolved
  split
  · rename_i key h
    rw [h]
    rfl
  · rename_i h
    rw [h]
    rfl

def dekFor : Option AeadKey :=
  (store.db.scopeDeks.lookup scope).bind fun row =>
    row.wrappedDek.openWith (dekWrappingKey store.masterKey) (scopeDekAad scope)

end

structure Resolves (s t : EvidenceStore) : Prop where
  master : t.masterKey = s.masterKey
  config : t.config = s.config
  draws : s.draws ≤ t.draws
  deks : t.db.scopeDeks = s.db.scopeDeks
  cache : ∀ scope, t.scopeKeys.lookup scope = s.scopeKeys.lookup scope ∨
    s.scopeKeys.lookup scope = none ∧ t.scopeKeys.lookup scope = some (s.legacyKey scope)

namespace Resolves

theorem refl (s : EvidenceStore) : Resolves s s :=
  ⟨rfl, rfl, Nat.le_refl _, rfl, fun _ => .inl rfl⟩

theorem legacyKey {s t : EvidenceStore} (h : Resolves s t) (scope : ScopeId) :
    t.legacyKey scope = s.legacyKey scope := by
  rw [EvidenceStore.legacyKey, EvidenceStore.legacyKey, h.master]

theorem trans {s t u : EvidenceStore} (h : Resolves s t) (h' : Resolves t u) : Resolves s u := by
  refine ⟨h'.master.trans h.master, h'.config.trans h.config, Nat.le_trans h.draws h'.draws,
    h'.deks.trans h.deks, fun scope => ?_⟩
  obtain heq' | ⟨hnone', hsome'⟩ := h'.cache scope
  · obtain heq | ⟨hnone, hsome⟩ := h.cache scope
    · exact .inl (heq'.trans heq)
    · exact .inr ⟨hnone, heq'.trans hsome⟩
  · obtain heq | ⟨hnone, hsome⟩ := h.cache scope
    · exact .inr ⟨heq.symm.trans hnone', by rw [hsome', h.legacyKey]⟩
    · rw [hsome] at hnone'
      cases hnone'

theorem keyFor {s t : EvidenceStore} (h : Resolves s t) (scope : ScopeId) :
    t.keyFor scope = s.keyFor scope := by
  unfold EvidenceStore.keyFor
  obtain heq | ⟨hnone, hsome⟩ := h.cache scope
  · rw [heq, h.legacyKey]
  · rw [hnone, hsome]
    rfl

theorem dekFor {s t : EvidenceStore} (h : Resolves s t) (scope : ScopeId) :
    t.dekFor scope = s.dekFor scope := by
  rw [EvidenceStore.dekFor, EvidenceStore.dekFor, h.deks, h.master]

end Resolves

theorem resolved_lookup (s : EvidenceStore) (scope other : ScopeId) :
    (s.resolved scope).lookup other = s.scopeKeys.lookup other ∨
      s.scopeKeys.lookup other = none ∧
        (s.resolved scope).lookup other = some (s.legacyKey other) := by
  unfold resolved
  split
  · exact .inl rfl
  · rename_i hnone
    by_cases h : other = scope
    · subst h
      exact .inr ⟨hnone, AList.lookup_insert _⟩
    · exact .inl (AList.lookup_insert_ne h)

theorem resolves_of_resolved {s t : EvidenceStore} (scope : ScopeId)
    (hmaster : t.masterKey = s.masterKey) (hconfig : t.config = s.config)
    (hdraws : s.draws ≤ t.draws) (hdeks : t.db.scopeDeks = s.db.scopeDeks)
    (hcache : t.scopeKeys = s.resolved scope) : Resolves s t := by
  refine ⟨hmaster, hconfig, hdraws, hdeks, fun other => ?_⟩
  rw [hcache]
  exact s.resolved_lookup scope other

theorem resolves_of_eq {s t : EvidenceStore} (hmaster : t.masterKey = s.masterKey)
    (hconfig : t.config = s.config) (hdraws : s.draws ≤ t.draws)
    (hdeks : t.db.scopeDeks = s.db.scopeDeks) (hcache : t.scopeKeys = s.scopeKeys) :
    Resolves s t :=
  ⟨hmaster, hconfig, hdraws, hdeks, fun _ => .inl (by rw [hcache])⟩

end EvidenceStore

end Knowledge.Evidence
