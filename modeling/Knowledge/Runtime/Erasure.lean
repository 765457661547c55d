import Knowledge.Runtime.Forget

/-!
What is left of a scope that a forget call has reported forgotten, over whole runs of calls,
failures and restarts. The key registry is changed before the tombstone is written, and a scope it
holds as forgotten is not written again.
-/

set_option autoImplicit false

namespace Knowledge.Runtime
open Knowledge.Sync (Uuid)
open Knowledge.Memory (ScopeId)
open Knowledge.Evidence (ContentHash)
open Knowledge.Crypto (DekRegistry TombstoneStore destroyScopeDek destroyEpochDek)
open Knowledge.Synthesis (WindowId SynthesisObject WindowScopeTier)
open Knowledge.Transition
open Write

/-- What the database holds of one scope: the rows it owns, the embeddings of its evidence and the
bodies it has a wrap of. -/
@[ext] structure Rows (V : Type) where
  fts : List FtsRow
  embeddings : Uuid → String → Option V
  wraps : ContentHash → Option V
  bodies : ContentHash → Option V
  blobs : MemoryKind → Option V
  tenant : Option TenantMemoryObject
  objects : Option (List SynthesisObject)
  payloads : Uuid → Option (List UInt8)
  versions : WindowId → Nat → Option SynthesisObject
  instances : Uuid → Option (ScopeId × V)
  tokens : Uuid → Option (ScopeId × V)

@[ext] structure Entries (V : Type) where
  memories : MemoryKind → Option V
  tenant : Option TenantMemoryObject
  objects : Option (Table WindowId SynthesisObject)
  windows : WindowId → Option StoredWindow
  cooldowns : SynthesisTierKind → Option Int
  instances : Uuid → Option (ScopeId × V)
  connectors : Uuid → Option V
  tokens : Uuid → Option V

section Views

variable {V : Type}

def Rows.none : Rows V :=
  ⟨[], fun _ _ => .none, fun _ => .none, fun _ => .none, fun _ => .none, .none, .none,
    fun _ => .none, fun _ _ => .none, fun _ => .none, fun _ => .none⟩

def StoreFile.rows (file : StoreFile V) (scope : ScopeId) : Rows V where
  fts := file.fts.filter fun row => row.scopeId = scope
  embeddings id tag :=
    if file.evidence.lookup id = some scope then file.embeddings.lookup (id, tag) else none
  wraps hash := file.keyWraps.lookup (hash, scope)
  bodies hash :=
    if (file.keyWraps.lookup (hash, scope)).isSome then file.bodyStore.lookup hash else none
  blobs kind := file.blobs.lookup (scope, kind)
  tenant := file.tenants.lookup scope
  objects := file.objects.lookup scope
  payloads document := file.payloads.lookup (scope, document)
  versions window n := file.versions.lookup (scope, window, n)
  instances id := (file.connectorInstances.lookup id).filter fun row => row.1 = scope
  tokens id := (file.connectorTokens.lookup id).filter fun row => row.1 = scope

def Entries.none : Entries V :=
  ⟨fun _ => .none, .none, .none, fun _ => .none, fun _ => .none, fun _ => .none, fun _ => .none,
    fun _ => .none⟩

def FfiRuntime.bound (rt : FfiRuntime V) (scope : ScopeId) (id : Uuid) : Bool :=
  (rt.connectorInstances.lookup id).any fun e => e.1 = scope

def FfiRuntime.entries (rt : FfiRuntime V) (scope : ScopeId) : Entries V where
  memories kind := rt.memories.lookup (scope, kind)
  tenant := rt.tenants.lookup scope
  objects := rt.objects.lookup scope
  windows id := (rt.windows.windows.lookup id).filter fun w => w.scopeId = scope
  cooldowns tier := rt.cooldowns.lookup (scope, tier)
  instances id := (rt.connectorInstances.lookup id).filter fun e => e.1 = scope
  connectors id := if rt.bound scope id then rt.connectors.lookup id else none
  tokens id := if rt.bound scope id then rt.tokenVault.lookup id else none

/-- The index of the manager lists each window under its scope, and nothing else. -/
structure WindowManager.Indexed (m : WindowManager) : Prop where
  listed : ∀ w win, m.windows.lookup w = some win → w ∈ m.listedFor win.scopeId
  owned : ∀ s w, w ∈ m.listedFor s → ∃ win, m.windows.lookup w = some win ∧ win.scopeId = s

/-- What the constraints of the schema and the calls that write keep of a file. -/
structure StoreFile.Sound (file : StoreFile V) : Prop where
  fts : ∀ row ∈ file.fts, file.evidence.lookup row.evidenceId = some row.scopeId
  embeddings : ∀ id tag v, file.embeddings.lookup (id, tag) = some v →
    file.evidence.lookup id ≠ none
  tenants : ∀ s tmo, file.tenants.lookup s = some tmo → tmo.scopeId = s
  sentinel : file.forgotten synthesisWindowsScope = false
  windows : ∀ m, file.windows = some m → m.Indexed

/-- Every handle and every token is of an instance the runtime has. -/
structure FfiRuntime.Sound (rt : FfiRuntime V) : Prop where
  windows : rt.windows.Indexed
  connectors : ∀ id v, rt.connectors.lookup id = some v →
    (rt.connectorInstances.lookup id).isSome = true
  tokens : ∀ id v, rt.tokenVault.lookup id = some v →
    (rt.connectorInstances.lookup id).isSome = true

end Views

open StoreFile FfiRuntime

section Statements

variable {V : Type} {file : StoreFile V}

theorem filter_ne_self {α : Type} (owner : α → ScopeId) (o : Option α) (scope s : ScopeId) :
    ((o.filter fun a => owner a ≠ scope).filter fun a => owner a = s) =
      if s = scope then none else o.filter fun a => owner a = s := by
  cases o with
  | none => simp
  | some a =>
    by_cases hs : s = scope
    · by_cases ha : owner a = scope <;> simp [Option.filter, hs, ha]
    · by_cases ha : owner a = scope
      · have : ¬scope = s := fun h => hs h.symm
        simp [Option.filter, hs, ha, this]
      · simp [Option.filter, hs, ha]

theorem rows_purgeFts (h : file.Sound) (scope s : ScopeId) :
    (file.purgeFtsForScope scope).rows s =
      if s = scope then { file.rows s with fts := [], embeddings := fun _ _ => none }
      else file.rows s := by
  have hfts : ((file.fts.filter fun row => file.evidence.lookup row.evidenceId ≠ some scope).filter
      fun row => row.scopeId = s) =
      if s = scope then [] else file.fts.filter fun row => row.scopeId = s := by
    rw [List.filter_filter]
    split
    · rename_i hs
      subst hs
      refine List.filter_eq_nil_iff.mpr fun row hrow => ?_
      have hev := h.fts row hrow
      by_cases hscope : row.scopeId = s
      · simp [hev, hscope]
      · simp [hscope]
    · rename_i hs
      refine List.filter_congr fun row hrow => ?_
      have hev := h.fts row hrow
      by_cases hscope : row.scopeId = s
      · simp [hev, hscope, hs]
      · simp [hscope]
  have hemb : ∀ id tag, (if file.evidence.lookup id = some s then
      (file.embeddings.filter fun key _ => file.evidence.lookup key.1 ≠ some scope).lookup (id, tag)
      else none) = if s = scope then none else if file.evidence.lookup id = some s then
        file.embeddings.lookup (id, tag) else none := by
    intro id tag
    rw [Table.lookup_filter_key]
    by_cases hs : s = scope
    · subst hs
      by_cases hid : file.evidence.lookup id = some s <;> simp [hid]
    · by_cases hid : file.evidence.lookup id = some s <;> simp [hid, hs]
  by_cases hs : s = scope
  · simp only [if_pos hs] at hfts hemb ⊢
    apply Rows.ext <;> try rfl
    · exact hfts
    · exact funext fun id => funext fun tag => hemb id tag
  · simp only [if_neg hs] at hfts hemb ⊢
    apply Rows.ext <;> try rfl
    · exact hfts
    · exact funext fun id => funext fun tag => hemb id tag

section

variable (file : StoreFile V) (scope s : ScopeId)

theorem rows_purgeWraps :
    (file.purgeBodyKeyWrapsForScope scope).rows s =
      if s = scope then { file.rows s with wraps := fun _ => none, bodies := fun _ => none }
      else file.rows s := by
  have hwrap : ∀ hash, (file.keyWraps.filter fun key _ => key.2 ≠ scope).lookup (hash, s) =
      if s = scope then none else file.keyWraps.lookup (hash, s) := by
    intro hash
    rw [Table.lookup_filter_key]
    by_cases hs : s = scope <;> simp [hs]
  by_cases hs : s = scope
  · simp only [if_pos hs] at hwrap ⊢
    apply Rows.ext <;> try rfl
    · exact funext hwrap
    · refine funext fun hash => ?_
      change (if ((file.keyWraps.filter fun key _ => key.2 ≠ scope).lookup (hash, s)).isSome
        then _ else _) = none
      rw [hwrap]
      rfl
  · simp only [if_neg hs] at hwrap ⊢
    apply Rows.ext <;> try rfl
    · exact funext hwrap
    · refine funext fun hash => ?_
      -- a body that the other scope has a wrap of is not an orphan
      by_cases hsome : (file.keyWraps.lookup (hash, s)).isSome = true
      · obtain ⟨v, hv⟩ := Option.isSome_iff_exists.mp hsome
        have hany : ((file.keyWraps.filter fun key _ => key.2 ≠ scope).any
            fun key _ => key.1 = hash) = true :=
          Table.any_eq_true.mpr ⟨(hash, s), v, by rw [hwrap, hv], by simp⟩
        change (if ((file.keyWraps.filter fun key _ => key.2 ≠ scope).lookup (hash, s)).isSome
          then _ else _) = if (file.keyWraps.lookup (hash, s)).isSome then _ else _
        rw [hwrap, if_pos hsome, if_pos hsome]
        change (file.bodyStore.filter _).lookup hash = _
        rw [Table.lookup_filter_key (fun hash' => !((file.keyWraps.lookup (hash', scope)).isSome &&
          !(file.keyWraps.filter fun key _ => key.2 ≠ scope).any fun key _ => key.1 = hash'))]
        simp only [hany, Bool.not_true, Bool.and_false, Bool.not_false, if_true]
      · change (if ((file.keyWraps.filter fun key _ => key.2 ≠ scope).lookup (hash, s)).isSome
          then _ else _) = if (file.keyWraps.lookup (hash, s)).isSome then _ else _
        rw [hwrap, if_neg hsome, if_neg hsome]

theorem rows_deleteBlobs :
    (file.deleteMemoryBlobsForScope scope).rows s =
      if s = scope then { file.rows s with blobs := fun _ => none, tenant := none, objects := none }
      else file.rows s := by
  by_cases hs : s = scope
  · rw [if_pos hs]
    apply Rows.ext <;> try rfl
    all_goals simp [rows, deleteMemoryBlobsForScope, Table.lookup_filter_key, Table.lookup_erase_ite, hs]
  · rw [if_neg hs]
    apply Rows.ext <;> try rfl
    all_goals simp [rows, deleteMemoryBlobsForScope, Table.lookup_filter_key, hs]

theorem rows_deletePayloads :
    (file.deleteApprovedDocumentPayloadsForScope scope).rows s =
      if s = scope then { file.rows s with payloads := fun _ => none } else file.rows s := by
  by_cases hs : s = scope
  · rw [if_pos hs]
    apply Rows.ext <;> try rfl
    all_goals simp [rows, deleteApprovedDocumentPayloadsForScope, Table.lookup_filter_key, hs]
  · rw [if_neg hs]
    apply Rows.ext <;> try rfl
    all_goals simp [rows, deleteApprovedDocumentPayloadsForScope, Table.lookup_filter_key, hs]

theorem rows_deleteVersions :
    (file.deleteSynthesisObjectVersionsForScope scope).rows s =
      if s = scope then { file.rows s with versions := fun _ _ => none } else file.rows s := by
  by_cases hs : s = scope
  · rw [if_pos hs]
    apply Rows.ext <;> try rfl
    all_goals simp [rows, deleteSynthesisObjectVersionsForScope, Table.lookup_filter_key, hs]
  · rw [if_neg hs]
    apply Rows.ext <;> try rfl
    all_goals simp [rows, deleteSynthesisObjectVersionsForScope, Table.lookup_filter_key, hs]

theorem rows_deleteInstances :
    (file.deleteConnectorInstancesForScope scope).rows s =
      if s = scope then { file.rows s with instances := fun _ => none } else file.rows s := by
  by_cases hs : s = scope
  · rw [if_pos hs]
    apply Rows.ext <;> try rfl
    exact funext fun id => by simp only [rows, deleteConnectorInstancesForScope,
      Table.lookup_filter, filter_ne_self Prod.fst, if_pos hs]
  · rw [if_neg hs]
    apply Rows.ext <;> try rfl
    exact funext fun id => by simp only [rows, deleteConnectorInstancesForScope,
      Table.lookup_filter, filter_ne_self Prod.fst, if_neg hs]

theorem rows_deleteTokens :
    (file.deleteConnectorTokensForScope scope).rows s =
      if s = scope then { file.rows s with tokens := fun _ => none } else file.rows s := by
  by_cases hs : s = scope
  · rw [if_pos hs]
    apply Rows.ext <;> try rfl
    exact funext fun id => by simp only [rows, deleteConnectorTokensForScope,
      Table.lookup_filter, filter_ne_self Prod.fst, if_pos hs]
  · rw [if_neg hs]
    apply Rows.ext <;> try rfl
    exact funext fun id => by simp only [rows, deleteConnectorTokensForScope,
      Table.lookup_filter, filter_ne_self Prod.fst, if_neg hs]

end

section

variable {answer : Answer} {f : StoreFile V → StoreFile V}

theorem attemptCleanup_none {p : StoreFile V × Option FfiError} (h : (attemptCleanup answer f p).2 = none) :
    attemptCleanup answer f p = (f p.1, none) ∧ p.2 = none := by
  cases answer with
  | ok _ => exact ⟨Prod.ext rfl h, h⟩
  | error e =>
    simp only [attemptCleanup, Answer.orEvidence] at h
    cases hp : p.2 <;> simp [hp] at h

theorem rows_attemptCleanup {p : StoreFile V × Option FfiError} {s : ScopeId} (h : (f p.1).rows s = p.1.rows s) :
    (attemptCleanup answer f p).1.rows s = p.1.rows s := by
  cases answer with
  | ok _ => exact h
  | error e => rfl

theorem rows_tryCleanup {s : ScopeId}
    (h : (f file).rows s = file.rows s) : (tryCleanup answer f file).rows s = file.rows s := by
  cases answer with
  | ok _ => exact h
  | error e => rfl

end

theorem StoreFile.Sound.tryDek (h : file.Sound) (answer : Answer) (scope : ScopeId) :
    (tryCleanup answer (fun file => { file with scopeDeks := file.scopeDeks.erase scope })
      file).Sound := by
  cases answer with
  | ok _ => exact ⟨h.fts, h.embeddings, h.tenants, h.sentinel, h.windows⟩
  | error e => exact h

theorem rows_cleanUp {scope : ScopeId} {windows : WindowManager} {a : ForgetAnswers}
    (h : file.Sound) (hnone : (cleanUp file scope windows a).2 = none) :
    (cleanUp file scope windows a).1.rows scope = Rows.none := by
  simp only [cleanUp] at hnone ⊢
  obtain ⟨h8, hnone⟩ := attemptCleanup_none hnone
  obtain ⟨h7, hnone⟩ := attemptCleanup_none hnone
  obtain ⟨h5, hnone⟩ := attemptCleanup_none hnone
  obtain ⟨h4, hnone⟩ := attemptCleanup_none hnone
  obtain ⟨h3, hnone⟩ := attemptCleanup_none hnone
  obtain ⟨h2, hnone⟩ := attemptCleanup_none hnone
  obtain ⟨h1, -⟩ := attemptCleanup_none hnone
  rw [h8, rows_deleteTokens, if_pos rfl, h7, rows_deleteInstances, if_pos rfl,
    rows_tryCleanup rfl, h5, rows_deleteVersions, if_pos rfl, h4, rows_deletePayloads, if_pos rfl,
    h3, rows_deleteBlobs, if_pos rfl, h2, rows_purgeWraps, if_pos rfl, h1,
    rows_purgeFts (h.tryDek _ _), if_pos rfl]
  rfl

theorem rows_cleanUp_ne {scope s : ScopeId} (windows : WindowManager) (a : ForgetAnswers)
    (h : file.Sound) (hs : s ≠ scope) : (cleanUp file scope windows a).1.rows s = file.rows s := by
  simp only [cleanUp]
  rw [rows_attemptCleanup (by rw [rows_deleteTokens, if_neg hs]),
    rows_attemptCleanup (by rw [rows_deleteInstances, if_neg hs]), rows_tryCleanup rfl,
    rows_attemptCleanup (by rw [rows_deleteVersions, if_neg hs]),
    rows_attemptCleanup (by rw [rows_deletePayloads, if_neg hs]),
    rows_attemptCleanup (by rw [rows_deleteBlobs, if_neg hs]),
    rows_attemptCleanup (by rw [rows_purgeWraps, if_neg hs]),
    rows_attemptCleanup (by rw [rows_purgeFts (h.tryDek _ _), if_neg hs]), rows_tryCleanup rfl]

end Statements

section Windows

variable {m : WindowManager}

theorem WindowManager.Indexed.remove (h : m.Indexed) (scope : ScopeId) :
    (m.removeWindowsForScope scope).Indexed ∧ ∀ w,
      (m.removeWindowsForScope scope).windows.lookup w =
        (m.windows.lookup w).filter fun win => win.scopeId ≠ scope := by
  obtain ⟨hwindows, hindex⟩ := removeWindowsForScope_spec m scope
  have hlookup : ∀ w, (m.removeWindowsForScope scope).windows.lookup w =
      (m.windows.lookup w).filter fun win => win.scopeId ≠ scope := by
    intro w
    rw [hwindows]
    cases hw : m.windows.lookup w with
    | none => simp
    | some win =>
      have hlisted := h.listed w win hw
      by_cases hscope : win.scopeId = scope
      · rw [hscope, listedFor] at hlisted
        rw [if_pos hlisted]
        simp [Option.filter, hscope]
      · have hnot : w ∉ (m.byScope.lookup scope).getD [] := by
          intro hmem
          obtain ⟨win', hw', hscope'⟩ := h.owned scope w hmem
          rw [hw] at hw'
          cases hw'
          exact hscope hscope'
        rw [if_neg hnot]
        simp [Option.filter, hscope]
  refine ⟨⟨fun w win hw => ?_, fun s w hmem => ?_⟩, hlookup⟩
  · rw [hlookup, Option.filter_eq_some_iff] at hw
    simp only [decide_eq_true_eq] at hw
    rw [listedFor, hindex, if_neg hw.2]
    exact h.listed w win hw.1
  · rw [listedFor, hindex] at hmem
    split at hmem
    · cases hmem
    · rename_i hs
      obtain ⟨win, hw, hscope⟩ := h.owned s w hmem
      refine ⟨win, ?_, hscope⟩
      rw [hlookup, hw]
      simp [Option.filter, hscope, hs]

theorem WindowManager.Indexed.openWindow (h : m.Indexed) (w : StoredWindow) :
    (m.openWindow w).Indexed := by
  simp only [WindowManager.openWindow]
  split
  · exact h
  · rename_i hfresh
    have hnone : m.windows.lookup w.id = none := by simpa using hfresh
    refine ⟨fun id win hid => ?_, fun s id hmem => ?_⟩
    · simp only [Table.lookup_insert_ite] at hid
      simp only [listedFor, Table.lookup_insert_ite]
      split at hid
      · rename_i heq
        cases hid
        simp [heq]
      · have hlisted := h.listed id win hid
        rw [listedFor] at hlisted
        split
        · rename_i hscope
          rw [hscope] at hlisted
          simp [hlisted]
        · exact hlisted
    · simp only [listedFor, Table.lookup_insert_ite] at hmem
      simp only [Table.lookup_insert_ite]
      by_cases hid : id = w.id
      · refine ⟨w, by rw [if_pos hid], ?_⟩
        by_cases hs : s = w.scopeId
        · exact hs.symm
        · rw [if_neg hs, hid] at hmem
          obtain ⟨win, hwin, -⟩ := h.owned s w.id hmem
          rw [hnone] at hwin
          cases hwin
      · rw [if_neg hid]
        by_cases hs : s = w.scopeId
        · rw [if_pos hs] at hmem
          simp only [Option.getD_some, List.mem_append, List.mem_singleton, hid, or_false] at hmem
          rw [hs]
          exact h.owned _ id hmem
        · rw [if_neg hs] at hmem
          exact h.owned s id hmem

theorem WindowManager.Indexed.congr {m' : WindowManager} (h : m.Indexed)
    (hindex : m'.byScope = m.byScope)
    (hscope : ∀ w, (m'.windows.lookup w).map (·.scopeId) = (m.windows.lookup w).map (·.scopeId)) :
    m'.Indexed := by
  have hwindow : ∀ w win', m'.windows.lookup w = some win' →
      ∃ win, m.windows.lookup w = some win ∧ win.scopeId = win'.scopeId := by
    intro w win' hw
    have := hscope w
    rw [hw] at this
    simpa [eq_comm] using this
  refine ⟨fun w win' hw => ?_, fun s w hmem => ?_⟩
  · obtain ⟨win, hwin, heq⟩ := hwindow w win' hw
    rw [listedFor, hindex, ← heq]
    exact h.listed w win hwin
  · rw [listedFor, hindex] at hmem
    obtain ⟨win, hwin, heq⟩ := h.owned s w hmem
    have := hscope w
    rw [hwin] at this
    simpa [heq] using this

theorem setStatus_scope (m : WindowManager) (id : WindowId) (status : Synthesis.WindowStatus)
    (w : WindowId) : ((m.setStatus id status).windows.lookup w).map (·.scopeId) =
      (m.windows.lookup w).map (·.scopeId) := by
  simp only [WindowManager.setStatus]
  split
  · rfl
  · rename_i win hwin
    simp only [Table.lookup_insert_ite]
    split
    · rename_i heq
      rw [heq, hwin]
      rfl
    · rfl

theorem WindowManager.Indexed.setStatus (h : m.Indexed) (id : WindowId)
    (status : Synthesis.WindowStatus) : (m.setStatus id status).Indexed :=
  h.congr (by simp only [WindowManager.setStatus]; split <;> rfl) (setStatus_scope m id status)

theorem WindowManager.Indexed.removeWindows (h : m.Indexed) {scope : ScopeId} {ids : List WindowId}
    (hids : ∀ id ∈ ids, id ∈ m.listedFor scope) : (m.removeWindows scope ids).Indexed := by
  have hindex : ∀ s, (m.removeWindows scope ids).listedFor s =
      if s = scope then (m.listedFor scope).filter fun id => !ids.contains id
      else m.listedFor s := by
    intro s
    simp only [listedFor, WindowManager.removeWindows]
    cases hl : m.byScope.lookup scope with
    | none =>
      by_cases hs : s = scope
      · subst hs
        simp [hl]
      · simp [hs]
    | some listed =>
      dsimp only
      split
      · rename_i hempty
        rw [Table.lookup_erase_ite]
        by_cases hs : s = scope
        · rw [List.isEmpty_iff] at hempty
          rw [if_pos hs, if_pos hs, Option.getD_some, hempty]
          rfl
        · simp [hs]
      · rw [Table.lookup_insert_ite]
        by_cases hs : s = scope <;> simp [hs]
  have hwindows : ∀ w, (m.removeWindows scope ids).windows.lookup w =
      if w ∈ ids then none else m.windows.lookup w :=
    fun w => lookup_foldl_erase ids m.windows w
  refine ⟨fun w win hw => ?_, fun s w hmem => ?_⟩
  · rw [hwindows] at hw
    split at hw
    · cases hw
    · rename_i hnot
      have hlisted := h.listed w win hw
      rw [hindex]
      split
      · rename_i hscope
        rw [hscope] at hlisted
        simp [hlisted, hnot]
      · exact hlisted
  · rw [hindex] at hmem
    split at hmem
    · rename_i hs
      simp only [List.mem_filter, Bool.not_eq_eq_eq_not, Bool.not_true, List.contains_eq_mem,
        decide_eq_false_iff_not] at hmem
      rw [hwindows, if_neg hmem.2, hs]
      exact h.owned scope w hmem.1
    · rename_i hs
      obtain ⟨win, hwin, hscope⟩ := h.owned s w hmem
      refine ⟨win, ?_, hscope⟩
      rw [hwindows, if_neg, hwin]
      -- a window that another scope lists is not among those removed
      intro hin
      obtain ⟨win', hwin', hscope'⟩ := h.owned scope w (hids w hin)
      rw [hwin] at hwin'
      cases hwin'
      exact hs (hscope.symm.trans hscope')

theorem WindowManager.Indexed.purge (h : m.Indexed) (tombstones : List ScopeId) :
    (purgeWindows tombstones m).Indexed ∧ ∀ w win,
      (purgeWindows tombstones m).windows.lookup w = some win → win.scopeId ∉ tombstones := by
  have hfold : ∀ (l : List ScopeId) (m : WindowManager), m.Indexed →
      (l.foldl WindowManager.removeWindowsForScope m).Indexed := by
    intro l
    induction l with
    | nil => exact fun m h => h
    | cons s l ih => exact fun m h => ih _ (h.remove s).1
  have hindexed : (purgeWindows tombstones m).Indexed := hfold _ m h
  refine ⟨hindexed, fun w win hw hmem => ?_⟩
  have hlisted := hindexed.listed w win hw
  rw [listedFor, (purgeWindows_spec tombstones m).2, if_pos hmem] at hlisted
  cases hlisted

theorem WindowManager.Indexed.sweep (h : m.Indexed) (now : Int) :
    (m.sweepStuckPending now).1.Indexed := by
  refine h.congr rfl fun w => ?_
  rw [sweepStuckPending_spec, Option.map_map]
  congr 1
  funext win
  simp only [Function.comp_apply, StoredWindow.recovered]
  split <;> rfl

theorem indexed_new : WindowManager.new.Indexed := by
  refine ⟨fun w win hw => ?_, fun s w hmem => ?_⟩
  · cases hw
  · cases hmem

end Windows

section Runtime

variable {V : Type} {rt : FfiRuntime V} {file : StoreFile V}

theorem bound_dropScope (rt : FfiRuntime V) (scope s : ScopeId) (id : Uuid) :
    (rt.dropScope scope).bound s id = if s = scope then false else rt.bound s id := by
  simp only [bound, dropScope, Table.lookup_filter]
  cases rt.connectorInstances.lookup id with
  | none => simp
  | some e =>
    by_cases hs : s = scope
    · by_cases he : e.1 = scope <;> simp [Option.filter, he, hs]
    · by_cases he : e.1 = scope
      · have : ¬scope = s := fun h => hs h.symm
        simp [Option.filter, he, hs, this]
      · simp [Option.filter, he, hs]

theorem entries_dropScope (h : rt.Sound) (scope s : ScopeId) :
    (rt.dropScope scope).entries s = if s = scope then Entries.none else rt.entries s := by
  have hwindow : ∀ w, ((rt.dropScope scope).windows.windows.lookup w).filter
      (fun win => win.scopeId = s) =
      if s = scope then none else (rt.windows.windows.lookup w).filter fun win => win.scopeId = s := by
    intro w
    change ((rt.windows.removeWindowsForScope scope).windows.lookup w).filter _ = _
    rw [(h.windows.remove scope).2]
    exact filter_ne_self (fun win : StoredWindow => win.scopeId) _ scope s
  -- a handle or a token goes with its instance
  have hbound : ∀ (t : Table Uuid V) id, (if (rt.dropScope scope).bound s id then
      (t.filter fun id _ => !rt.bound scope id).lookup id else none) =
      if s = scope then none else if rt.bound s id then t.lookup id else none := by
    intro t id
    rw [bound_dropScope, Table.lookup_filter_key]
    by_cases hs : s = scope
    · simp [hs]
    · by_cases hb : rt.bound s id = true
      · have hnot : rt.bound scope id = false := by
          simp only [bound, Option.any_eq_true, decide_eq_true_eq] at hb ⊢
          obtain ⟨e, he, hscope⟩ := hb
          simp [he, hscope, hs]
        simp [hb, hnot]
      · simp [hb]
  by_cases hs : s = scope
  · simp only [if_pos hs] at hwindow hbound ⊢
    apply Entries.ext
    · exact funext fun kind => by simp [entries, dropScope, Entries.none,
        Table.lookup_filter_key, hs]
    · simp only [entries, dropScope, Table.lookup_erase_ite, if_pos hs, Entries.none]
    · simp only [entries, dropScope, Table.lookup_erase_ite, if_pos hs, Entries.none]
    · exact funext hwindow
    · exact funext fun tier => by simp [entries, dropScope, Entries.none,
        Table.lookup_filter_key, hs]
    · exact funext fun id => by simp only [entries, dropScope,
        Table.lookup_filter, filter_ne_self Prod.fst, if_pos hs, Entries.none]
    · exact funext (hbound rt.connectors)
    · exact funext (hbound rt.tokenVault)
  · simp only [if_neg hs] at hwindow hbound ⊢
    apply Entries.ext
    · exact funext fun kind => by simp [entries, dropScope,
        Table.lookup_filter_key, hs]
    · simp only [entries, dropScope, Table.lookup_erase_ite, if_neg hs]
    · simp only [entries, dropScope, Table.lookup_erase_ite, if_neg hs]
    · exact funext hwindow
    · exact funext fun tier => by simp [entries, dropScope,
        Table.lookup_filter_key, hs]
    · exact funext fun id => by simp only [entries, dropScope,
        Table.lookup_filter, filter_ne_self Prod.fst, if_neg hs]
    · exact funext (hbound rt.connectors)
    · exact funext (hbound rt.tokenVault)

theorem FfiRuntime.Sound.dropScope (h : rt.Sound) (scope : ScopeId) :
    (rt.dropScope scope).Sound := by
  have hkept : ∀ {t : Table Uuid V} {id : Uuid} {v : V},
      (t.filter fun id _ => !rt.bound scope id).lookup id = some v →
      (∀ v, t.lookup id = some v → (rt.connectorInstances.lookup id).isSome = true) →
      ((rt.dropScope scope).connectorInstances.lookup id).isSome = true := by
    intro t id v hv hall
    obtain ⟨hv, hbound⟩ := Table.lookup_filter_eq_some.mp hv
    obtain ⟨e, he⟩ := Option.isSome_iff_exists.mp (hall v hv)
    have hne : e.1 ≠ scope := by
      intro heq
      simp [FfiRuntime.bound, he, heq] at hbound
    rw [FfiRuntime.dropScope, Table.lookup_filter, he]
    simp [Option.filter, hne]
  exact ⟨(h.windows.remove scope).1, fun id v hv => hkept hv (h.connectors id),
    fun id v hv => hkept hv (h.tokens id)⟩

end Runtime

section Writes

variable {V : Type} {rt : FfiRuntime V} {file : StoreFile V} {scope s : ScopeId}

theorem lookup_upsert {K W : Type} [DecidableEq K] (t : Table K W) (k k' : K) (v : Option W) :
    (upsert t k v).lookup k' = if k' = k then v else t.lookup k' := by
  cases v with
  | none => exact Table.lookup_erase_ite t k k'
  | some v => exact Table.lookup_insert_ite t k k' v

theorem filter_upsert_ne (t : Table Uuid (ScopeId × V)) (id id' : Uuid) (row : Option V)
    (hs : s ≠ scope) (h : (t.lookup id').filter (fun e => e.1 = s) = none) :
    ((upsert t id (row.map fun v => (scope, v))).lookup id').filter (fun e => e.1 = s) = none := by
  rw [lookup_upsert]
  split
  · cases row with
    | none => rfl
    | some v => simp [Option.filter, hs.symm]
  · exact h

theorem rows_write (w : Write V) (hs : s ≠ scope) (h : file.rows s = Rows.none) :
    (w.run scope rt file).2.rows s = Rows.none := by
  cases w with
  | ingest id contents embedding =>
    simp only [run]
    split
    · exact h
    · rename_i hfresh
      rw [← h]
      apply Rows.ext <;> try rfl
      · have hnew : (contents.map fun c => (⟨c.1, c.2, id, scope⟩ : FtsRow)).filter
            (fun row => row.scopeId = s) = [] := by
          rw [List.filter_eq_nil_iff]
          intro row hrow
          obtain ⟨c, -, rfl⟩ := List.mem_map.mp hrow
          simp [hs.symm]
        exact (List.filter_append _ _).trans (by rw [hnew, List.append_nil]; rfl)
      · refine funext fun id' => funext fun tag' => ?_
        simp only [rows, Table.lookup_insert_ite]
        by_cases hid : id' = id
        · subst hid
          have hnone : file.evidence.lookup id' = none := by simpa using hfresh
          simp [hnone, hs.symm]
        · rw [if_neg hid]
          cases embedding with
          | none => rfl
          | some e =>
            simp only [Table.lookup_insert_ite]
            rw [if_neg fun heq => hid (Prod.mk.inj heq).1]
  | body hash row wrap =>
    have hwrap : ∀ hash', (file.keyWraps.insert (hash, scope) wrap).lookup (hash', s) = none := by
      intro hash'
      rw [Table.lookup_insert_ite, if_neg fun heq => hs (Prod.mk.inj heq).2]
      exact congrFun (congrArg Rows.wraps h) hash'
    rw [← h]
    apply Rows.ext <;> try rfl
    · exact funext fun hash' => (hwrap hash').trans (congrFun (congrArg Rows.wraps h) hash').symm
    · refine funext fun hash' => Eq.trans ?_ (congrFun (congrArg Rows.bodies h) hash').symm
      simp only [rows, run, hwrap]
      rfl
  | blob kind value =>
    rw [← h]
    apply Rows.ext <;> try rfl
    exact funext fun kind' => by
      simp only [rows, run, lookup_upsert]
      rw [if_neg fun heq => hs (Prod.mk.inj heq).1]
  | tenantBlob documents =>
    rw [← h]
    apply Rows.ext <;> try rfl
    simp only [rows, run, Table.lookup_insert_ite, if_neg hs]
  | objectsBlob held =>
    rw [← h]
    apply Rows.ext <;> try rfl
    simp only [rows, run, Table.lookup_insert_ite, if_neg hs]
  | payload document row =>
    rw [← h]
    apply Rows.ext <;> try rfl
    exact funext fun document' => by
      simp only [rows, run, lookup_upsert]
      rw [if_neg fun heq => hs (Prod.mk.inj heq).1]
  | version window n object =>
    rw [← h]
    apply Rows.ext <;> try rfl
    exact funext fun window' => funext fun n' => by
      simp only [rows, run, lookup_upsert]
      rw [if_neg fun heq => hs (Prod.mk.inj heq).1]
  | instanceRow id row =>
    rw [← h]
    apply Rows.ext <;> try rfl
    exact funext fun id' => (filter_upsert_ne _ id id' row hs
      (congrFun (congrArg Rows.instances h) id')).trans (congrFun (congrArg Rows.instances h) id').symm
  | tokenRow id row =>
    rw [← h]
    apply Rows.ext <;> try rfl
    exact funext fun id' => (filter_upsert_ne _ id id' row hs
      (congrFun (congrArg Rows.tokens h) id')).trans (congrFun (congrArg Rows.tokens h) id').symm
  | connector id value =>
    simp only [run]
    split <;> exact h
  | token id value =>
    simp only [run]
    split <;> exact h
  | _ => exact h

theorem windows_write (w : Write V) (hs : s ≠ scope) (id : WindowId)
    (h : (rt.windows.windows.lookup id).filter (fun win => win.scopeId = s) = none) :
    ((w.run scope rt file).1.windows.windows.lookup id).filter (fun win => win.scopeId = s) =
      none := by
  cases w with
  | ingest _ _ _ =>
    simp only [run]
    split <;> exact h
  | openWindow new windowStart windowEnd tier createdAt =>
    simp only [run, WindowManager.openWindow]
    split
    · exact h
    · rw [Table.lookup_insert_ite]
      split
      · simp [Option.filter, hs.symm]
      · exact h
  | windowStatus changed status =>
    have hscope := setStatus_scope rt.windows changed status id
    simp only [run]
    cases hl : (rt.windows.setStatus changed status).windows.lookup id with
    | none => rfl
    | some win' =>
      rw [hl, Option.map_some] at hscope
      obtain ⟨win, hwin, heq⟩ := Option.map_eq_some_iff.mp hscope.symm
      rw [hwin] at h
      simpa [Option.filter, heq] using h
  | removeWindows ids =>
    simp only [run, WindowManager.removeWindows, lookup_foldl_erase]
    split
    · rfl
    · exact h
  | connector _ _ =>
    simp only [run]
    split <;> exact h
  | token _ _ =>
    simp only [run]
    split <;> exact h
  | _ => exact h

theorem any_of_filter {o : Option (ScopeId × V)} (h : o.filter (fun e => e.1 = s) = none) :
    o.any (fun e => e.1 = s) = false := by
  cases o with
  | none => rfl
  | some e => simpa [Option.filter] using h

theorem entries_write (w : Write V) (hs : s ≠ scope) (h : rt.entries s = Entries.none) :
    (w.run scope rt file).1.entries s = Entries.none := by
  have hwindows : ∀ id, ((w.run scope rt file).1.windows.windows.lookup id).filter
      (fun win => win.scopeId = s) = none :=
    fun id => windows_write w hs id (congrFun (congrArg Entries.windows h) id)
  -- no instance of the scope, so that no handle or token can be one of its own
  have hbound : ∀ id, rt.bound s id = false :=
    fun id => any_of_filter (congrFun (congrArg Entries.instances h) id)
  cases w with
  | ingest _ _ _ =>
    simp only [run]
    split <;> exact h
  | memory kind value =>
    rw [← h]
    apply Entries.ext <;> try rfl
    exact funext fun kind' => by
      simp only [entries, run, lookup_upsert]
      rw [if_neg fun heq => hs (Prod.mk.inj heq).1]
  | tenant documents =>
    rw [← h]
    apply Entries.ext <;> try rfl
    simp only [entries, run, Table.lookup_insert_ite, if_neg hs]
  | objects held =>
    rw [← h]
    apply Entries.ext <;> try rfl
    simp only [entries, run, Table.lookup_insert_ite, if_neg hs]
  | openWindow _ _ _ _ _ =>
    rw [← h]
    apply Entries.ext <;> try rfl
    exact funext fun id => (hwindows id).trans (congrFun (congrArg Entries.windows h) id).symm
  | windowStatus _ _ =>
    rw [← h]
    apply Entries.ext <;> try rfl
    exact funext fun id => (hwindows id).trans (congrFun (congrArg Entries.windows h) id).symm
  | removeWindows _ =>
    rw [← h]
    apply Entries.ext <;> try rfl
    exact funext fun id => (hwindows id).trans (congrFun (congrArg Entries.windows h) id).symm
  | cooldown tier time =>
    rw [← h]
    apply Entries.ext <;> try rfl
    exact funext fun tier' => by
      simp only [entries, run, Table.lookup_insert_ite]
      rw [if_neg fun heq => hs (Prod.mk.inj heq).1]
  | connectorInstance id value =>
    have hinstance : ∀ id', ((rt.connectorInstances.insert id (scope, value)).lookup id').filter
        (fun e => e.1 = s) = none :=
      fun id' => filter_upsert_ne rt.connectorInstances id id' (some value) hs
        (congrFun (congrArg Entries.instances h) id')
    have hnone : ∀ id', ((connectorInstance id value).run scope rt file).1.bound s id' =
        false := fun id' => any_of_filter (hinstance id')
    rw [← h]
    apply Entries.ext <;> try rfl
    · exact funext fun id' =>
        (hinstance id').trans (congrFun (congrArg Entries.instances h) id').symm
    · refine funext fun id' => ?_
      simp only [entries, hnone, hbound]
      rfl
    · refine funext fun id' => ?_
      simp only [entries, hnone, hbound]
      rfl
  | connector id value =>
    simp only [run]
    split
    · rw [← h]
      apply Entries.ext <;> try rfl
      exact funext fun id' => by
        simp only [entries, hbound, show ∀ id', bound { rt with
          connectors := rt.connectors.insert id value } s id' = rt.bound s id' from fun _ => rfl]
        rfl
    · exact h
  | token id value =>
    simp only [run]
    split
    · rw [← h]
      apply Entries.ext <;> try rfl
      exact funext fun id' => by
        simp only [entries, hbound, show ∀ id', bound { rt with
          tokenVault := upsert rt.tokenVault id value } s id' = rt.bound s id' from fun _ => rfl]
        rfl
    · exact h
  | _ => exact h

theorem FfiRuntime.Sound.write (h : rt.Sound) (w : Write V) : (w.run scope rt file).1.Sound := by
  cases w with
  | ingest _ _ _ =>
    simp only [run]
    split <;> exact h
  | scopeDek key => exact ⟨h.windows, h.connectors, h.tokens⟩
  | memory kind value => exact ⟨h.windows, h.connectors, h.tokens⟩
  | tenant documents => exact ⟨h.windows, h.connectors, h.tokens⟩
  | objects held => exact ⟨h.windows, h.connectors, h.tokens⟩
  | cooldown tier time => exact ⟨h.windows, h.connectors, h.tokens⟩
  | openWindow id windowStart windowEnd tier createdAt =>
    exact ⟨h.windows.openWindow _, h.connectors, h.tokens⟩
  | windowStatus id status => exact ⟨h.windows.setStatus id status, h.connectors, h.tokens⟩
  | removeWindows ids =>
    refine ⟨h.windows.removeWindows fun id hid => ?_, h.connectors, h.tokens⟩
    simpa using (List.mem_filter.mp hid).2
  | connectorInstance id value =>
    have hkept : ∀ id', (rt.connectorInstances.lookup id').isSome = true →
        ((rt.connectorInstances.insert id (scope, value)).lookup id').isSome = true := by
      intro id' hid
      rw [Table.lookup_insert_ite]
      split
      · rfl
      · exact hid
    exact ⟨h.windows, fun id' v hv => hkept id' (h.connectors id' v hv),
      fun id' v hv => hkept id' (h.tokens id' v hv)⟩
  | connector id value =>
    simp only [run]
    split
    · rename_i hid
      refine ⟨h.windows, fun id' v hv => ?_, h.tokens⟩
      simp only [Table.lookup_insert_ite] at hv
      split at hv
      · rename_i heq
        rw [heq]
        exact hid
      · exact h.connectors id' v hv
    · exact h
  | token id value =>
    simp only [run]
    split
    · rename_i hid
      refine ⟨h.windows, h.connectors, fun id' v hv => ?_⟩
      simp only [lookup_upsert] at hv
      split at hv
      · rename_i heq
        rw [heq]
        exact hid
      · exact h.tokens id' v hv
    · exact h
  | _ => exact h

theorem StoreFile.Sound.write (h : file.Sound) (hrt : rt.Sound) (w : Write V) :
    (w.run scope rt file).2.Sound := by
  cases w with
  | ingest id contents embedding =>
    simp only [run]
    split
    · exact h
    · rename_i hfresh
      have hnone : file.evidence.lookup id = none := by simpa using hfresh
      have hkept : ∀ id' owner, file.evidence.lookup id' = some owner →
          (file.evidence.insert id scope).lookup id' = some owner := by
        intro id' owner hid
        rw [Table.lookup_insert_ite, if_neg, hid]
        intro heq
        rw [heq, hnone] at hid
        cases hid
      refine ⟨fun row hrow => ?_, fun id' tag v hv => ?_, h.tenants, h.sentinel, h.windows⟩
      · obtain hrow | hrow := List.mem_append.mp hrow
        · exact hkept _ _ (h.fts row hrow)
        · obtain ⟨c, -, rfl⟩ := List.mem_map.mp hrow
          exact AList.lookup_insert _
      · have hold : file.embeddings.lookup (id', tag) = some v →
            (file.evidence.insert id scope).lookup id' ≠ none := by
          intro hv
          obtain ⟨owner, howner⟩ := Option.ne_none_iff_exists'.mp (h.embeddings id' tag v hv)
          rw [hkept id' owner howner]
          simp
        cases embedding with
        | none => exact hold hv
        | some e =>
          simp only [Table.lookup_insert_ite] at hv
          split at hv
          · rename_i heq
            rw [show id' = id from (Prod.mk.inj heq).1]
            simp
          · exact hold hv
  | tenantBlob documents =>
    refine ⟨h.fts, h.embeddings, fun s tmo htmo => ?_, h.sentinel, h.windows⟩
    simp only [run, Table.lookup_insert_ite] at htmo
    split at htmo
    · rename_i heq
      cases htmo
      exact heq.symm
    · exact h.tenants s tmo htmo
  | windowsBlob =>
    refine ⟨h.fts, h.embeddings, h.tenants, h.sentinel, fun m hm => ?_⟩
    cases hm
    exact hrt.windows
  | body _ _ _ => exact ⟨h.fts, h.embeddings, h.tenants, h.sentinel, h.windows⟩
  | scopeDek _ => exact ⟨h.fts, h.embeddings, h.tenants, h.sentinel, h.windows⟩
  | blob _ _ => exact ⟨h.fts, h.embeddings, h.tenants, h.sentinel, h.windows⟩
  | objectsBlob _ => exact ⟨h.fts, h.embeddings, h.tenants, h.sentinel, h.windows⟩
  | payload _ _ => exact ⟨h.fts, h.embeddings, h.tenants, h.sentinel, h.windows⟩
  | version _ _ _ => exact ⟨h.fts, h.embeddings, h.tenants, h.sentinel, h.windows⟩
  | instanceRow _ _ => exact ⟨h.fts, h.embeddings, h.tenants, h.sentinel, h.windows⟩
  | tokenRow _ _ => exact ⟨h.fts, h.embeddings, h.tenants, h.sentinel, h.windows⟩
  | connector _ _ =>
    simp only [run]
    split <;> exact h
  | token _ _ =>
    simp only [run]
    split <;> exact h
  | _ => exact h

theorem forgotten_write (scope : ScopeId) (rt : FfiRuntime V) (file : StoreFile V) (w : Write V) :
    (w.run scope rt file).2.forgottenScopes = file.forgottenScopes ∧
      (w.run scope rt file).1.registry.forgottenScopes = rt.registry.forgottenScopes := by
  cases w with
  | ingest _ _ _ =>
    simp only [run]
    split <;> exact ⟨rfl, rfl⟩
  | connector _ _ =>
    simp only [run]
    split <;> exact ⟨rfl, rfl⟩
  | token _ _ =>
    simp only [run]
    split <;> exact ⟨rfl, rfl⟩
  | _ => exact ⟨rfl, rfl⟩

end Writes

end Knowledge.Runtime
