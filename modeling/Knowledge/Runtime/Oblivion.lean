import Knowledge.Runtime.Erasure
import Knowledge.Runtime.UserMemory

/-!
A scope that a forget call has reported forgotten is gone for good, in every run in which no forget
call finds the scope forgotten in the registry and without a tombstone on disk.
-/

set_option autoImplicit false

namespace Knowledge.Runtime
open Knowledge.Sync (Uuid)
open Knowledge.Memory (ScopeId)
open Knowledge.Crypto (DekRegistry TombstoneStore destroyScopeDek destroyEpochDek)
open Knowledge.Synthesis (WindowId SynthesisObject)
open Knowledge.Transition

section Opening

variable {V : Type} {file file' file'' : StoreFile V} {rt : FfiRuntime V}

/-- What opening the store may do to a file: it forgets nothing, remembers nothing, and gives no
scope a row that has none. -/
structure Purges (file file' : StoreFile V) : Prop where
  forgotten : file'.forgottenScopes = file.forgottenScopes
  sound : file.Sound → file'.Sound
  rows : ∀ s, file.Sound → file.rows s = Rows.none → file'.rows s = Rows.none

theorem Purges.refl (file : StoreFile V) : Purges file file := ⟨rfl, id, fun _ _ => id⟩

theorem Purges.trans (h : Purges file file') (h' : Purges file' file'') : Purges file file'' :=
  ⟨h'.forgotten.trans h.forgotten, fun hs => h'.sound (h.sound hs),
    fun s hs hrows => h'.rows s (h.sound hs) (h.rows s hs hrows)⟩

theorem purges_fts (file : StoreFile V) (scope : ScopeId) :
    Purges file (file.purgeFtsForScope scope) := by
  refine ⟨rfl, fun h => ⟨fun row hrow => h.fts row (List.mem_of_mem_filter hrow),
    fun id tag v hv => h.embeddings id tag v (Table.lookup_filter_eq_some.mp hv).1, h.tenants,
    h.sentinel, h.windows⟩, fun s h hrows => ?_⟩
  rw [rows_purgeFts h]
  split
  · rw [hrows]
    rfl
  · exact hrows

theorem purges_wraps (file : StoreFile V) (scope : ScopeId) :
    Purges file (file.purgeBodyKeyWrapsForScope scope) := by
  refine ⟨rfl, fun h => ⟨h.fts, h.embeddings, h.tenants, h.sentinel, h.windows⟩,
    fun s _ hrows => ?_⟩
  rw [rows_purgeWraps]
  split
  · rw [hrows]
    rfl
  · exact hrows

theorem purges_blobs (file : StoreFile V) (scope : ScopeId) :
    Purges file (file.deleteMemoryBlobsForScope scope) := by
  refine ⟨rfl, fun h => ⟨h.fts, h.embeddings, fun s tmo htmo => ?_, h.sentinel, fun m hm => ?_⟩,
    fun s _ hrows => ?_⟩
  · simp only [StoreFile.deleteMemoryBlobsForScope, Table.lookup_erase_ite] at htmo
    split at htmo
    · cases htmo
    · exact h.tenants s tmo htmo
  · simp only [StoreFile.deleteMemoryBlobsForScope] at hm
    split at hm
    · cases hm
    · exact h.windows m hm
  · rw [rows_deleteBlobs]
    split
    · rw [hrows]
      rfl
    · exact hrows

theorem purges_foldl_fts (scopes : List ScopeId) (file : StoreFile V) :
    Purges file (scopes.foldl StoreFile.purgeFtsForScope file) := by
  induction scopes generalizing file with
  | nil => exact .refl file
  | cons scope scopes ih => exact (purges_fts file scope).trans (ih _)

theorem purges_tombstoned (a : OpenAnswers) (scopes : List ScopeId) (file : StoreFile V) :
    Purges file (purgeTombstoned a file scopes).1 := by
  induction scopes generalizing file with
  | nil => exact .refl file
  | cons scope scopes ih =>
    rw [purgeTombstoned]
    split
    · exact .refl file
    · dsimp only
      split
      · exact purges_wraps file scope
      · exact ((purges_wraps file scope).trans (purges_blobs _ scope)).trans (ih _)

theorem isScopeForgotten_destroy (r : DekRegistry) (store : TombstoneStore) (durable : Bool)
    (scope s : ScopeId) (now : Int) :
    (destroyScopeDek r store durable scope now).registry.isScopeForgotten s =
      (r.isScopeForgotten s || decide (s = scope)) := by
  unfold destroyScopeDek
  split
  · rename_i hf
    by_cases hs : s = scope
    · simp [hs, hf]
    · simp [hs]
  · have hforget : (r.forgetScope scope now).1.isScopeForgotten s =
        (r.isScopeForgotten s || decide (s = scope)) := by
      obtain ⟨⟨r', -, heq⟩, -⟩ := DekRegistry.forgetScope_spec r scope now
      rw [heq]
      simp only [DekRegistry.isScopeForgotten, Table.lookup_insert_ite]
      by_cases hs : s = scope <;> simp [hs]
    dsimp only
    split
    · split <;> exact hforget
    · exact hforget

theorem isScopeForgotten_destroyEpoch (r : DekRegistry) (store : TombstoneStore) (scope s : ScopeId)
    (epoch : Nat) (now : Int) :
    (destroyEpochDek r store false scope epoch now).registry.isScopeForgotten s =
      r.isScopeForgotten s := by
  unfold destroyEpochDek
  split
  · rfl
  · rfl

theorem mem_tombstones (file : StoreFile V) (s : ScopeId) :
    s ∈ file.disk.tombstones ↔ file.forgotten s = true := by
  change s ∈ file.forgottenScopes.keys ↔ _
  rw [StoreFile.forgotten, ← AList.mem_keys, AList.lookup_isSome]

theorem isScopeForgotten_replay (file : StoreFile V) (now : Int) (s : ScopeId) :
    (replayRegistry file now).isScopeForgotten s = file.forgotten s := by
  have hscopes : ∀ (l : List ScopeId) (r : DekRegistry), (l.foldl (fun r scope =>
      (destroyScopeDek r (file.tombstoneStore fun _ => false) false scope now).registry)
      r).isScopeForgotten s = (r.isScopeForgotten s || decide (s ∈ l)) := by
    intro l
    induction l with
    | nil => simp
    | cons scope l ih =>
      intro r
      rw [List.foldl_cons, ih, isScopeForgotten_destroy]
      by_cases hs : s = scope <;> simp [hs]
  have hepochs : ∀ (l : List ((ScopeId × Nat) × Int)) (r : DekRegistry), (l.foldl (fun r e =>
      if file.forgotten e.1.1 then r
      else (destroyEpochDek r (file.tombstoneStore fun _ => false) false e.1.1 e.1.2 now).registry)
      r).isScopeForgotten s = r.isScopeForgotten s := by
    intro l
    induction l with
    | nil => exact fun r => rfl
    | cons e l ih =>
      intro r
      rw [List.foldl_cons, ih]
      split
      · rfl
      · exact isScopeForgotten_destroyEpoch _ _ _ _ _ _
  have hdeks : ∀ (l : List (ScopeId × Crypto.AeadKey)) (r : DekRegistry), (l.foldl (fun r e =>
      if r.isScopeForgotten e.1 then r
      else { r with scopeDeks := r.scopeDeks.insert e.1 ⟨now, 0, e.2, false⟩ })
      r).isScopeForgotten s = r.isScopeForgotten s := by
    intro l
    induction l with
    | nil => exact fun r => rfl
    | cons e l ih =>
      intro r
      rw [List.foldl_cons, ih]
      split <;> rfl
  rw [replayRegistry, hdeks, hepochs, hscopes]
  have hmem := mem_tombstones file s
  rw [StoreFile.disk] at hmem
  by_cases hs : file.forgotten s = true
  · simp [hmem, hs]
  · simp only [hmem, hs]
    rfl

theorem StoreFile.Sound.sentinel_live (h : file.Sound) :
    synthesisWindowsScope ∉ file.disk.tombstones := by
  rw [mem_tombstones, h.sentinel]
  decide

theorem StoreFile.Sound.opened (h : file.Sound) (now : Int) (f : Faults) :
    Opened file.disk now f (openStore file.disk now f) :=
  openStore_opened now f h.sentinel_live h.tenants

theorem StoreFile.Sound.rewritten (h : file.Sound) {now : Int} {f : Faults}
    {blob : Option WindowManager} (hblob : Rewritten file.disk now f blob) (m : WindowManager)
    (hm : blob = some m) : m.Indexed := by
  have hpurged : (purgedWindows file.disk).Indexed := by
    refine (WindowManager.Indexed.purge ?_ _).1
    cases hw : file.windows with
    | none =>
      simp only [StoreFile.disk, hw, Option.getD_none]
      exact indexed_new
    | some m =>
      simp only [StoreFile.disk, hw, Option.getD_some]
      exact h.windows m hw
  obtain rfl | ⟨-, rfl | rfl⟩ := hblob
  · exact h.windows m hm
  · cases hm
    exact hpurged
  · cases hm
    exact hpurged.sweep now

theorem openStore_objects_none {d : Disk} (now : Int) (f : Faults) {s : ScopeId}
    (h : d.objects.lookup s = none) : (openStore d now f).1.objects.lookup s = none := by
  have hsweep : (openStore d now f).1.objects = (rehydrate d now f).1.objects := by
    simp only [openStore, sweepVersions, sweepPayloads]
    split <;> split <;> rfl
  obtain ⟨blob, -, hdisk⟩ := rehydrateWindows_disk (purgeBlobs d) now f
  have hwindows : (rehydrateWindows (purgeBlobs d) now f).1.objects.lookup s = none := by
    rw [hdisk]
    simp only [purgeBlobs, Table.lookup_filter_key, h]
    split <;> rfl
  simp only [hsweep, rehydrate, rehydrateObjects, Table.lookup_mapValues, hwindows, Option.map_none]

theorem purges_disk (a : OpenAnswers) (file : StoreFile V) (hs : file.Sound) :
    Purges file (file.withDisk (openStore file.disk a.now a.faults).1) := by
  have hopened := hs.opened a.now a.faults
  refine ⟨rfl, fun h => ⟨h.fts, h.embeddings, fun s tmo htmo => ?_, h.sentinel,
    h.rewritten hopened.windows⟩, fun s _ hrows => ?_⟩
  · have htmo : (openStore file.disk a.now a.faults).1.tenants.lookup s = some tmo := htmo
    rw [hopened.tenants] at htmo
    split at htmo
    · exact h.tenants s tmo htmo
    · cases htmo
  · rw [← hrows]
    apply Rows.ext <;> try rfl
    · refine (hopened.tenants s).trans ?_
      split
      · rfl
      · exact (congrArg Rows.tenant hrows).symm
    · have hnone : file.disk.objects.lookup s = none := congrArg Rows.objects hrows
      exact (openStore_objects_none _ _ hnone).trans hnone.symm
    · refine funext fun document => ?_
      have hnone : file.payloads.lookup (s, document) = none :=
        congrFun (congrArg Rows.payloads hrows) document
      refine Eq.trans (Option.eq_none_iff_forall_ne_some.mpr fun row hrow => ?_) hnone.symm
      have := ((hopened.payloads s document row).mp hrow).1
      rw [show file.disk.payloads = file.payloads from rfl, hnone] at this
      cases this
    · refine funext fun window => funext fun n => ?_
      have hnone : file.versions.lookup (s, window, n) = none :=
        congrFun (congrFun (congrArg Rows.versions hrows) window) n
      refine Eq.trans (Option.eq_none_iff_forall_ne_some.mpr fun row hrow => ?_) hnone.symm
      have := ((hopened.versions s window n row).mp hrow).1
      rw [show file.disk.versions = file.versions from rfl, hnone] at this
      cases this

theorem filter_none_of_filter {α : Type} {p q : α → Bool} {o : Option α} (h : o.filter q = none) :
    (o.filter p).filter q = none := by
  cases o with
  | none => rfl
  | some a =>
    cases hp : p a
    · simp [Option.filter, hp]
    · simpa [Option.filter, hp] using h

theorem purges_connectors (a : OpenAnswers) (file : StoreFile V) :
    Purges file (rehydrateConnectors a file).1 := by
  have hrows : ∀ (p q : Uuid → ScopeId × V → Bool), Purges file
      { file with
        connectorInstances := file.connectorInstances.filter p
        connectorTokens := file.connectorTokens.filter q } := by
    intro p q
    refine ⟨rfl, fun h => ⟨h.fts, h.embeddings, h.tenants, h.sentinel, h.windows⟩,
      fun s _ hrows => ?_⟩
    rw [← hrows]
    apply Rows.ext <;> try rfl
    · refine funext fun id => ?_
      have hnone := congrFun (congrArg Rows.instances hrows) id
      refine Eq.trans ?_ hnone.symm
      simp only [StoreFile.rows, Table.lookup_filter]
      exact filter_none_of_filter hnone
    · refine funext fun id => ?_
      have hnone := congrFun (congrArg Rows.tokens hrows) id
      refine Eq.trans ?_ hnone.symm
      simp only [StoreFile.rows, Table.lookup_filter]
      exact filter_none_of_filter hnone
  have hinstances : ∀ p : Uuid → ScopeId × V → Bool, Purges file
      { file with connectorInstances := file.connectorInstances.filter p } := by
    intro p
    refine ⟨rfl, fun h => ⟨h.fts, h.embeddings, h.tenants, h.sentinel, h.windows⟩,
      fun s _ hrows => ?_⟩
    rw [← hrows]
    apply Rows.ext <;> try rfl
    refine funext fun id => ?_
    have hnone := congrFun (congrArg Rows.instances hrows) id
    refine Eq.trans ?_ hnone.symm
    simp only [StoreFile.rows, Table.lookup_filter]
    exact filter_none_of_filter hnone
  simp only [rehydrateConnectors]
  split
  · exact .refl file
  · split
    · exact hinstances _
    · exact hrows _ _

theorem purges_deks (file : StoreFile V) (deks : Table ScopeId Crypto.AeadKey) :
    Purges file { file with scopeDeks := deks } :=
  ⟨rfl, fun h => ⟨h.fts, h.embeddings, h.tenants, h.sentinel, h.windows⟩, fun _ _ h => h⟩

theorem purges_windows (a : OpenAnswers) (file : StoreFile V) (hs : file.Sound) :
    Purges file { file with
      windows := (rehydrateWindows (purgeBlobs file.disk) a.now a.faults).1.windows } := by
  refine ⟨rfl, fun h => ⟨h.fts, h.embeddings, h.tenants, h.sentinel, fun m hm => ?_⟩,
    fun _ _ h => h⟩
  obtain ⟨blob, hblob, hdisk⟩ := rehydrateWindows_disk (purgeBlobs file.disk) a.now a.faults
  have hwindows : (purgeBlobs file.disk).windows = file.disk.windows := by
    simp [purgeBlobs, hs.sentinel_live]
  rw [hdisk] at hm
  rw [Rewritten, purgedWindows, hwindows] at hblob
  exact h.rewritten hblob m hm

theorem purges_rehydrateRuntime (a : OpenAnswers) (file : StoreFile V) (hs : file.Sound) :
    Purges file (rehydrateRuntime a file).1 := by
  have hdeks := purges_deks file (file.scopeDeks.filter fun scope _ =>
    !(replayRegistry file a.now).isScopeForgotten scope || a.deleteDekFails scope)
  simp only [rehydrateRuntime]
  split
  · exact hdeks
  · split
    · exact hdeks.trans (purges_windows a _ (hdeks.sound hs))
    · exact (hdeks.trans (purges_disk a _ (hdeks.sound hs))).trans (purges_connectors a _)

theorem purges_openFile (a : OpenAnswers) (file : StoreFile V) (hs : file.Sound) :
    Purges file (openFile a file).1 := by
  simp only [openFile]
  split
  · exact .refl file
  split
  · exact .refl file
  split
  · exact .refl file
  split
  · exact .refl file
  have hfts := purges_foldl_fts file.forgottenScopes.keys file
  have htombstoned := hfts.trans (purges_tombstoned a
    (file.forgottenScopes.keys.foldl StoreFile.purgeFtsForScope file).forgottenScopes.keys _)
  split
  · rename_i heq
    rw [heq] at htombstoned
    exact htombstoned
  · rename_i heq
    rw [heq] at htombstoned
    exact htombstoned.trans (purges_rehydrateRuntime a _ (htombstoned.sound hs))

/-- A runtime that the store was opened with: nothing of a forgotten scope is read back. -/
structure Restored (file : StoreFile V) (rt : FfiRuntime V) : Prop where
  sound : rt.Sound
  forgotten : ∀ s, rt.isScopeForgotten s = file.forgotten s
  entries : ∀ s, file.forgotten s = true → rt.entries s = Entries.none

theorem instances_rehydrated (a : OpenAnswers) (file : StoreFile V) :
    (∀ id e, (rehydrateConnectors a file).2.instances.lookup id = some e →
      file.forgotten e.1 = false) ∧
    (∀ id v, (rehydrateConnectors a file).2.connectors.lookup id = some v →
      ((rehydrateConnectors a file).2.instances.lookup id).isSome = true) ∧
    ∀ id v, (rehydrateConnectors a file).2.tokens.lookup id = some v →
      ((rehydrateConnectors a file).2.instances.lookup id).isSome = true := by
  have hlive : ∀ id e, (file.connectorInstances.filter fun id row =>
      !file.forgotten row.1 && a.instanceLoads id).lookup id = some e →
      file.forgotten e.1 = false := by
    intro id e he
    have := (Table.lookup_filter_eq_some.mp he).2
    simp only [Bool.and_eq_true, Bool.not_eq_true'] at this
    exact this.1
  have hconnected : ∀ (t : Table Uuid (ScopeId × V)) (p : Uuid → Bool) id v,
      ((t.filter fun id _ => p id).mapValues fun _ row => row.2).lookup id = some v →
      (t.lookup id).isSome = true := by
    intro t p id v hv
    rw [Table.lookup_mapValues, Table.lookup_filter_key] at hv
    split at hv
    · cases ht : t.lookup id with
      | none => simp [ht] at hv
      | some e => rfl
    · cases hv
  simp only [rehydrateConnectors]
  split
  · refine ⟨?_, ?_, ?_⟩ <;> intro id v hv <;> cases hv
  · split
    · exact ⟨hlive, hconnected _ _, fun id v hv => by cases hv⟩
    · refine ⟨hlive, hconnected _ _, fun id v hv => ?_⟩
      rw [Table.lookup_mapValues] at hv
      obtain ⟨row, hrow, -⟩ := Option.map_eq_some_iff.mp hv
      have := (Table.lookup_filter_eq_some.mp hrow).2
      simp only [Bool.and_eq_true] at this
      exact this.1.2

theorem windows_rehydrated (hs : file.Sound) (now : Int) (f : Faults) :
    (openStore file.disk now f).2.windows.Indexed ∧ ∀ w win,
      (openStore file.disk now f).2.windows.windows.lookup w = some win →
      file.forgotten win.scopeId = false := by
  have hloaded : (loadWindows file.disk f).Indexed := by
    rw [loadWindows]
    split
    · exact indexed_new
    · cases hw : file.windows with
      | none =>
        simp only [StoreFile.disk, hw, Option.getD_none]
        exact indexed_new
      | some m =>
        simp only [StoreFile.disk, hw, Option.getD_some]
        exact hs.windows m hw
  obtain ⟨hindexed, hspared⟩ := hloaded.purge file.disk.tombstones
  rw [(hs.opened now f).windowsRead]
  refine ⟨hindexed.sweep now, fun w win hw => ?_⟩
  rw [sweepStuckPending_spec] at hw
  obtain ⟨win', hw', rfl⟩ := Option.map_eq_some_iff.mp hw
  have hnot := hspared w win' hw'
  rw [mem_tombstones, Bool.not_eq_true] at hnot
  have hscope : (win'.recovered now).scopeId = win'.scopeId := by
    rw [StoredWindow.recovered]
    split <;> rfl
  rw [hscope]
  exact hnot

theorem objects_rehydrated (d : Disk) (now : Int) (f : Faults) {s : ScopeId}
    (hs : s ∈ d.tombstones) : (openStore d now f).2.objects.lookup s = none := by
  obtain ⟨blob, -, hdisk⟩ := rehydrateWindows_disk (purgeBlobs d) now f
  have hwindows : (rehydrateWindows (purgeBlobs d) now f).1.objects.lookup s = none := by
    rw [hdisk]
    simp [purgeBlobs, Table.lookup_filter_key, hs]
  simp only [openStore, rehydrate, rehydrateObjects, Table.lookup_filter, Table.lookup_mapValues,
    hwindows, Option.filter_none, Option.map_none]

theorem entries_none {s : ScopeId} (hmemories : ∀ kind, rt.memories.lookup (s, kind) = none)
    (htenant : rt.tenants.lookup s = none) (hobjects : rt.objects.lookup s = none)
    (hwindows : ∀ w win, rt.windows.windows.lookup w = some win → win.scopeId ≠ s)
    (hcooldowns : ∀ tier, rt.cooldowns.lookup (s, tier) = none)
    (hinstances : ∀ id e, rt.connectorInstances.lookup id = some e → e.1 ≠ s) :
    rt.entries s = Entries.none := by
  have hnone : ∀ {α : Type} {o : Option α} {owner : α → ScopeId},
      (∀ a, o = some a → owner a ≠ s) → o.filter (fun a => owner a = s) = none := by
    intro α o owner h
    cases o with
    | none => rfl
    | some a => simp [Option.filter, h a rfl]
  have hbound : ∀ id, rt.bound s id = false := fun id => any_of_filter (hnone (hinstances id))
  apply Entries.ext
  · exact funext hmemories
  · exact htenant
  · exact hobjects
  · exact funext fun w => hnone (hwindows w)
  · exact funext hcooldowns
  · exact funext fun id => hnone (hinstances id)
  · exact funext fun id => by simp [FfiRuntime.entries, hbound, Entries.none]
  · exact funext fun id => by simp [FfiRuntime.entries, hbound, Entries.none]

theorem rehydrateRuntime_ok {a : OpenAnswers} (hs : file.Sound)
    (h : rehydrateRuntime a file = (file', .ok rt)) : Restored file rt := by
  unfold rehydrateRuntime at h
  extract_lets registry kept at h
  -- with the keys that are deleted, the file is as good as before
  have hsound : kept.Sound := (purges_deks file _).sound hs
  have hsame : ∀ s, kept.forgotten s = file.forgotten s := fun _ => rfl
  clear_value kept
  split at h
  · cases h
  split at h
  · cases h
  obtain ⟨hwindows, hlive⟩ := windows_rehydrated hsound a.now a.faults
  obtain ⟨hinstances, hconnectors, htokens⟩ := instances_rehydrated a
    (kept.withDisk (openStore kept.disk a.now a.faults).1)
  have htenants := (hsound.opened a.now a.faults).tenantsRead
  have hobjects := fun s hs => objects_rehydrated kept.disk a.now a.faults (s := s) hs
  obtain rfl := Except.ok.inj (Prod.mk.inj h).2
  refine ⟨⟨hwindows, hconnectors, htokens⟩, isScopeForgotten_replay file a.now, fun s hf => ?_⟩
  rw [← hsame] at hf
  have hmem := (mem_tombstones kept s).mpr hf
  have howned : ∀ owner, kept.forgotten owner = false → owner ≠ s := by
    rintro owner hlive rfl
    exact absurd (hf.symm.trans hlive) (by decide)
  refine entries_none (fun kind => ?_) ?_ (hobjects s hmem)
    (fun w win hw => howned _ (hlive w win hw)) (fun tier => rfl)
    (fun id e he => howned _ (hinstances id e he))
  · change (kept.blobs.filter _).lookup (s, kind) = none
    rw [Table.lookup_filter]
    cases kept.blobs.lookup (s, kind) with
    | none => rfl
    | some v => simp [Option.filter, hf]
  · exact (htenants s).trans (if_neg fun h => h.1 hmem)

theorem openFile_ok {a : OpenAnswers} (hs : file.Sound) (h : openFile a file = (file', .ok rt)) :
    Restored file rt := by
  simp only [openFile] at h
  split at h
  · cases h
  split at h
  · cases h
  split at h
  · cases h
  split at h
  · cases h
  have hfts := purges_foldl_fts file.forgottenScopes.keys file
  have htombstoned := hfts.trans (purges_tombstoned a
    (file.forgottenScopes.keys.foldl StoreFile.purgeFtsForScope file).forgottenScopes.keys _)
  split at h
  · cases h
  · rename_i purged _ heq
    rw [heq] at htombstoned
    have hr := rehydrateRuntime_ok (htombstoned.sound hs) h
    have hsame : ∀ s, purged.forgotten s = file.forgotten s := by
      intro s
      rw [StoreFile.forgotten, htombstoned.forgotten]
      rfl
    exact ⟨hr.sound, fun s => (hr.forgotten s).trans (hsame s),
      fun s hf => hr.entries s ((hsame s).trans hf)⟩

end Opening

section Forgetting

variable {V : Type} {file : StoreFile V} {rt : FfiRuntime V}

theorem persistTombstones_forgotten (scope : ScopeId) (l : List (Nat × Int))
    (store : TombstoneStore) :
    (TombstoneStore.persistTombstones scope store l).1.forgottenScopes = store.forgottenScopes := by
  induction l generalizing store with
  | nil => rfl
  | cons e l ih =>
    rw [TombstoneStore.persistTombstones]
    have hfirst : (store.persistTombstone scope e.1 e.2).1.forgottenScopes =
        store.forgottenScopes := by
      simp only [TombstoneStore.persistTombstone]
      split
      · rfl
      split <;> rfl
    split
    · rename_i heq
      rw [heq] at hfirst
      exact hfirst
    · rename_i heq
      rw [heq] at hfirst
      exact (ih _).trans hfirst

/-- The record of a scope is there once the call has succeeded; those of the others are left
alone. -/
theorem destroy_store (r : DekRegistry) (store : TombstoneStore) (scope : ScopeId) (now : Int) :
    (∀ s, s ≠ scope → (destroyScopeDek r store true scope now).store.forgottenScopes.lookup s =
      store.forgottenScopes.lookup s) ∧
    ((store.forgottenScopes.lookup scope).isSome = true →
      ((destroyScopeDek r store true scope now).store.forgottenScopes.lookup scope).isSome = true) ∧
    (r.isScopeForgotten scope = false →
      (destroyScopeDek r store true scope now).result.isOk = true →
      ((destroyScopeDek r store true scope now).store.forgottenScopes.lookup scope).isSome =
        true) := by
  unfold destroyScopeDek
  split
  · rename_i hf
    exact ⟨fun _ _ => rfl, id, fun h => absurd (h.symm.trans hf) (by decide)⟩
  dsimp only
  have hrecord : ∀ (store' : TombstoneStore), store'.forgottenScopes = store.forgottenScopes →
      (∀ s, s ≠ scope → (store'.persistForgottenScope scope now).1.forgottenScopes.lookup s =
        store.forgottenScopes.lookup s) ∧
      ((store.forgottenScopes.lookup scope).isSome = true →
        ((store'.persistForgottenScope scope now).1.forgottenScopes.lookup scope).isSome =
          true) := by
    intro store' heq
    simp only [TombstoneStore.persistForgottenScope, heq]
    split
    · exact ⟨fun _ _ => rfl, id⟩
    split
    · exact ⟨fun _ _ => rfl, id⟩
    · refine ⟨fun s hs => ?_, fun _ => ?_⟩
      · rw [Table.lookup_insert_ite, if_neg hs]
      · rw [AList.lookup_insert]
        rfl
  have hscope : ∀ tombstones, (∀ s, s ≠ scope →
      (store.persistScope scope tombstones now).1.forgottenScopes.lookup s =
        store.forgottenScopes.lookup s) ∧
      ((store.forgottenScopes.lookup scope).isSome = true →
        ((store.persistScope scope tombstones now).1.forgottenScopes.lookup scope).isSome =
          true) := by
    intro tombstones
    have hsame := persistTombstones_forgotten scope tombstones store
    simp only [TombstoneStore.persistScope]
    split
    · rename_i heq
      rw [heq] at hsame
      exact ⟨fun s _ => by rw [hsame], fun h => by rw [hsame]; exact h⟩
    · rename_i heq
      rw [heq] at hsame
      exact hrecord _ hsame
  obtain ⟨hothers, hkept⟩ :=
    hscope (DekRegistry.epochsOf (r.forgetScope scope now).1.tombstones scope)
  simp only [if_true]
  split
  · rename_i heq
    rw [heq] at hothers hkept
    exact ⟨hothers, hkept, fun _ hok => by cases hok⟩
  · rename_i heq
    have hholds := TombstoneStore.holds_of_persistScope heq
    rw [heq] at hothers hkept
    exact ⟨hothers, hkept, fun _ _ => hholds.1⟩

/-- What a call that forgets one scope leaves alone. The windows are one blob for all scopes, which
is written again as it is in memory. -/
structure Untouched (s : ScopeId) (file : StoreFile V) (rt : FfiRuntime V) (file' : StoreFile V)
    (rt' : FfiRuntime V) : Prop where
  rows : file'.rows s = file.rows s
  entries : rt'.entries s = rt.entries s
  evidence : file'.evidence = file.evidence
  dek : file'.scopeDeks.lookup s = file.scopeDeks.lookup s
  forgotten : rt'.isScopeForgotten s = rt.isScopeForgotten s
  tombstone : file'.forgotten s = file.forgotten s
  windows : file'.windows = file.windows ∨ file'.windows = some rt'.windows

theorem cleanUp_induct {scope : ScopeId} {windows : WindowManager} (P : StoreFile V → Prop)
    (hdek : ∀ f, P f → P { f with scopeDeks := f.scopeDeks.erase scope })
    (hfts : ∀ f, P f → P (f.purgeFtsForScope scope))
    (hwraps : ∀ f, P f → P (f.purgeBodyKeyWrapsForScope scope))
    (hblobs : ∀ f, P f → P (f.deleteMemoryBlobsForScope scope))
    (hpayloads : ∀ f, P f → P (f.deleteApprovedDocumentPayloadsForScope scope))
    (hversions : ∀ f, P f → P (f.deleteSynthesisObjectVersionsForScope scope))
    (hwindows : ∀ f, P f → P { f with windows := some windows })
    (hinstances : ∀ f, P f → P (f.deleteConnectorInstancesForScope scope))
    (htokens : ∀ f, P f → P (f.deleteConnectorTokensForScope scope))
    (a : ForgetAnswers) (h : P file) : P (cleanUp file scope windows a).1 := by
  have htry : ∀ (answer : Answer) (f : StoreFile V → StoreFile V) (file : StoreFile V),
      (∀ file, P file → P (f file)) → P file → P (tryCleanup answer f file) := by
    intro answer f file hf h
    cases answer with
    | ok _ => exact hf file h
    | error e => exact h
  have hattempt : ∀ (answer : Answer) (f : StoreFile V → StoreFile V)
      (p : StoreFile V × Option FfiError), (∀ file, P file → P (f file)) → P p.1 →
      P (attemptCleanup answer f p).1 := by
    intro answer f p hf h
    cases answer with
    | ok _ => exact hf _ h
    | error e => exact h
  refine hattempt _ _ _ htokens (hattempt _ _ _ hinstances (htry _ _ _ hwindows ?_))
  refine hattempt _ _ _ hversions (hattempt _ _ _ hpayloads (hattempt _ _ _ hblobs ?_))
  exact hattempt _ _ _ hwraps (hattempt _ _ _ hfts (htry _ _ _ hdek h))

theorem StoreFile.Sound.cleanUp {scope : ScopeId} {windows : WindowManager} (h : file.Sound)
    (hwindows : windows.Indexed) (a : ForgetAnswers) :
    (Runtime.cleanUp file scope windows a).1.Sound := by
  refine cleanUp_induct StoreFile.Sound (fun f h => (purges_deks f _).sound h)
    (fun f h => (purges_fts f scope).sound h) (fun f h => (purges_wraps f scope).sound h)
    (fun f h => (purges_blobs f scope).sound h) (fun f h => ?_) (fun f h => ?_) (fun f h => ?_)
    (fun f h => ?_) (fun f h => ?_) a h
  · exact ⟨h.fts, h.embeddings, h.tenants, h.sentinel, h.windows⟩
  · exact ⟨h.fts, h.embeddings, h.tenants, h.sentinel, h.windows⟩
  · refine ⟨h.fts, h.embeddings, h.tenants, h.sentinel, fun m hm => ?_⟩
    cases hm
    exact hwindows
  · exact ⟨h.fts, h.embeddings, h.tenants, h.sentinel, h.windows⟩
  · exact ⟨h.fts, h.embeddings, h.tenants, h.sentinel, h.windows⟩

theorem cleanUp_frame (file : StoreFile V) {scope : ScopeId} (windows : WindowManager)
    (a : ForgetAnswers) (hscope : scope ≠ synthesisWindowsScope) :
    (cleanUp file scope windows a).1.evidence = file.evidence ∧
    (cleanUp file scope windows a).1.forgottenScopes = file.forgottenScopes ∧
    (∀ s, s ≠ scope → (cleanUp file scope windows a).1.scopeDeks.lookup s =
      file.scopeDeks.lookup s) ∧
    ((cleanUp file scope windows a).1.windows = file.windows ∨
      (cleanUp file scope windows a).1.windows = some windows) := by
  refine cleanUp_induct (fun f => f.evidence = file.evidence ∧
    f.forgottenScopes = file.forgottenScopes ∧
    (∀ s, s ≠ scope → f.scopeDeks.lookup s = file.scopeDeks.lookup s) ∧
    (f.windows = file.windows ∨ f.windows = some windows)) ?_ (fun f h => h) (fun f h => h) ?_
    (fun f h => h) (fun f h => h) (fun f h => ⟨h.1, h.2.1, h.2.2.1, .inr rfl⟩) (fun f h => h)
    (fun f h => h) a ⟨rfl, rfl, fun _ _ => rfl, .inl rfl⟩
  · intro f ⟨hevidence, hforgotten, hdeks, hwindows⟩
    refine ⟨hevidence, hforgotten, fun s hs => ?_, hwindows⟩
    simp only [Table.lookup_erase_ite, if_neg hs]
    exact hdeks s hs
  · intro f ⟨hevidence, hforgotten, hdeks, hwindows⟩
    refine ⟨hevidence, hforgotten, hdeks, ?_⟩
    simp only [StoreFile.deleteMemoryBlobsForScope, if_neg hscope]
    exact hwindows

theorem forgetScopeState_cases (rt : FfiRuntime V) (file : StoreFile V) (scope : ScopeId)
    (a : ForgetAnswers) :
    scope = synthesisWindowsScope ∧
      forgetScopeState rt file scope a = ⟨rt, file, .error sentinelRefused⟩ ∨
    scope ≠ synthesisWindowsScope ∧ ∃ (r : DekRegistry) (marked : StoreFile V),
      (∀ s, r.isScopeForgotten s = (rt.isScopeForgotten s || decide (s = scope))) ∧
      (∃ epochs forgotten, marked =
        { file with epochTombstones := epochs, forgottenScopes := forgotten }) ∧
      (∀ s, s ≠ scope → marked.forgotten s = file.forgotten s) ∧
      (file.forgotten scope = true → marked.forgotten scope = true) ∧
      (forgetScopeState rt file scope a =
          ⟨{ rt with registry := r }, marked, .error (.evidence a.tombstoneError)⟩ ∨
        (rt.isScopeForgotten scope = false → marked.forgotten scope = true) ∧
        ∃ result, forgetScopeState rt file scope a =
          ⟨{ rt with registry := r }.dropScope scope,
            (cleanUp marked scope ({ rt with registry := r }.dropScope scope).windows a).1, result⟩ ∧
          (result.isOk = true → (cleanUp marked scope
            ({ rt with registry := r }.dropScope scope).windows a).2 = none)) := by
  by_cases hscope : scope = synthesisWindowsScope
  · exact .inl ⟨hscope, if_pos hscope⟩
  obtain ⟨hothers, hkept, hrecorded⟩ := destroy_store rt.registry
    (file.tombstoneStore a.tombstoneFails) scope a.now
  let d := destroyScopeDek rt.registry (file.tombstoneStore a.tombstoneFails) true scope a.now
  refine .inr ⟨hscope, d.registry, { file with
      epochTombstones := d.store.tombstones, forgottenScopes := d.store.forgottenScopes },
    fun s => isScopeForgotten_destroy _ _ _ _ s _, ⟨_, _, rfl⟩, fun s hs => ?_, hkept, ?_⟩
  · exact congrArg Option.isSome (hothers s hs)
  · rw [forgetScopeState, if_neg hscope]
    dsimp only
    split
    · exact .inl rfl
    · rename_i hok
      refine .inr ⟨fun hlive => hrecorded hlive (by rw [hok]; rfl), ?_⟩
      split
      · exact ⟨_, rfl, fun h => by cases h⟩
      · rename_i hnone
        exact ⟨_, rfl, fun _ => hnone⟩

theorem StoreFile.Sound.marked (h : file.Sound) {epochs : Table (ScopeId × Nat) Int}
    {forgotten : Table ScopeId Int}
    (hsentinel : (forgotten.lookup synthesisWindowsScope).isSome = false) :
    ({ file with epochTombstones := epochs, forgottenScopes := forgotten } : StoreFile V).Sound :=
  ⟨h.fts, h.embeddings, h.tenants, hsentinel, h.windows⟩

theorem rows_cleanUp_none {scope s : ScopeId} {windows : WindowManager} (h : file.Sound)
    (hwindows : windows.Indexed) (a : ForgetAnswers) (hrows : file.rows s = Rows.none) :
    (cleanUp file scope windows a).1.rows s = Rows.none := by
  have hpurges : ∀ {f f' : StoreFile V}, Purges f f' → f.Sound ∧ f.rows s = Rows.none →
      f'.Sound ∧ f'.rows s = Rows.none :=
    fun hp h => ⟨hp.sound h.1, hp.rows s h.1 h.2⟩
  refine (cleanUp_induct (fun f => f.Sound ∧ f.rows s = Rows.none)
    (fun f h => hpurges (purges_deks f _) h) (fun f h => hpurges (purges_fts f scope) h)
    (fun f h => hpurges (purges_wraps f scope) h) (fun f h => hpurges (purges_blobs f scope) h)
    (fun f h => ⟨⟨h.1.fts, h.1.embeddings, h.1.tenants, h.1.sentinel, h.1.windows⟩, ?_⟩)
    (fun f h => ⟨⟨h.1.fts, h.1.embeddings, h.1.tenants, h.1.sentinel, h.1.windows⟩, ?_⟩)
    (fun f h => ⟨⟨h.1.fts, h.1.embeddings, h.1.tenants, h.1.sentinel, fun m hm => ?_⟩, h.2⟩)
    (fun f h => ⟨⟨h.1.fts, h.1.embeddings, h.1.tenants, h.1.sentinel, h.1.windows⟩, ?_⟩)
    (fun f h => ⟨⟨h.1.fts, h.1.embeddings, h.1.tenants, h.1.sentinel, h.1.windows⟩, ?_⟩)
    a ⟨h, hrows⟩).2
  · rw [rows_deletePayloads, h.2]
    split <;> rfl
  · rw [rows_deleteVersions, h.2]
    split <;> rfl
  · cases hm
    exact hwindows
  · rw [rows_deleteInstances, h.2]
    split <;> rfl
  · rw [rows_deleteTokens, h.2]
    split <;> rfl

/-- What holds of a forget call on sound state, however it ends. -/
structure ForgetSpec (rt : FfiRuntime V) (file : StoreFile V) (scope : ScopeId)
    (out : ForgetOutcome V) : Prop where
  soundFile : out.file.Sound
  soundRuntime : out.runtime.Sound
  untouched : ∀ s, s ≠ scope → Untouched s file rt out.file out.runtime
  tombstone : file.forgotten scope = true → out.file.forgotten scope = true
  live : (file.forgotten scope = true → rt.isScopeForgotten scope = true) →
    out.file.forgotten scope = true → out.runtime.isScopeForgotten scope = true
  rows : file.rows scope = Rows.none → out.file.rows scope = Rows.none
  entries : rt.entries scope = Entries.none → out.runtime.entries scope = Entries.none
  done : out.result.isOk = true → out.file.rows scope = Rows.none ∧
    out.runtime.entries scope = Entries.none ∧ out.runtime.isScopeForgotten scope = true ∧
    ((rt.isScopeForgotten scope = true → file.forgotten scope = true) →
      out.file.forgotten scope = true)

theorem forgetScopeState_spec (hf : file.Sound) (hrt : rt.Sound) (scope : ScopeId)
    (a : ForgetAnswers) : ForgetSpec rt file scope (forgetScopeState rt file scope a) := by
  obtain ⟨-, heq⟩ | ⟨hscope, r, marked, hr, ⟨epochs, forgotten, hmarked⟩, hothers, hkept, hend⟩ :=
    forgetScopeState_cases rt file scope a
  · rw [heq]
    exact ⟨hf, hrt, fun s _ => ⟨rfl, rfl, rfl, rfl, rfl, rfl, .inl rfl⟩, id, id, id, id,
      fun h => by cases h⟩
  have hsound : marked.Sound := by
    rw [hmarked]
    refine hf.marked ?_
    have := hothers synthesisWindowsScope hscope.symm
    rw [hf.sentinel, hmarked] at this
    exact this
  have hrows : ∀ s, marked.rows s = file.rows s := fun s => by rw [hmarked]; rfl
  have hself : r.isScopeForgotten scope = true := by simp [hr]
  have hother : ∀ s, s ≠ scope → r.isScopeForgotten s = rt.isScopeForgotten s :=
    fun s hs => by simp [hr, hs]
  obtain heq | ⟨hrecorded, result, heq, hresult⟩ := hend
  · rw [heq]
    refine ⟨hsound, ⟨hrt.windows, hrt.connectors, hrt.tokens⟩, fun s hs => ?_,
      hkept, fun _ _ => hself, fun h => (hrows scope).trans h, id, fun h => by cases h⟩
    exact ⟨hrows s, rfl, by rw [hmarked], by rw [hmarked], hother s hs, hothers s hs,
      .inl (by rw [hmarked])⟩
  · have hrt' : ({ rt with registry := r } : FfiRuntime V).Sound :=
      ⟨hrt.windows, hrt.connectors, hrt.tokens⟩
    have hdropped := hrt'.dropScope scope
    obtain ⟨hevidence, hforgotten, hdeks, hwindows⟩ := cleanUp_frame marked
      ({ rt with registry := r }.dropScope scope).windows a hscope
    have hsame : ∀ s, (cleanUp marked scope ({ rt with registry := r }.dropScope scope).windows
        a).1.forgotten s = marked.forgotten s := by
      intro s
      rw [StoreFile.forgotten, hforgotten]
      rfl
    have hentries := entries_dropScope hrt' scope
    rw [heq]
    refine ⟨hsound.cleanUp hdropped.windows a, hdropped, fun s hs => ?_, ?_, fun _ _ => hself,
      fun h => ?_, fun _ => ?_, fun hok => ⟨?_, ?_, hself, fun hcond => ?_⟩⟩
    · refine ⟨(rows_cleanUp_ne _ a hsound hs).trans (hrows s), ?_, ?_, ?_, hother s hs, ?_, ?_⟩
      · exact (hentries s).trans (if_neg hs)
      · exact hevidence.trans (by rw [hmarked])
      · exact (hdeks s hs).trans (by rw [hmarked])
      · exact (hsame s).trans (hothers s hs)
      · exact hwindows.imp (fun h => h.trans (by rw [hmarked])) id
    · exact fun h => (hsame scope).trans (hkept h)
    · exact rows_cleanUp_none hsound hdropped.windows a ((hrows scope).trans h)
    · exact (hentries scope).trans (if_pos rfl)
    · exact rows_cleanUp hsound (hresult hok)
    · exact (hentries scope).trans (if_pos rfl)
    · refine (hsame scope).trans ?_
      cases hlive : rt.isScopeForgotten scope with
      | true => exact hkept (hcond hlive)
      | false => exact hrecorded hlive

end Forgetting

/-- Nothing of the scope is on disk or in memory, and a runtime that is open refuses it. Handles
and tokens are all of instances that the runtime has. -/
structure Session.Gone {V : Type} (t : Session V) (s : ScopeId) : Prop where
  rows : t.file.rows s = Rows.none
  live : ∀ rt, t.live = some rt → rt.isScopeForgotten s = true ∧ rt.entries s = Entries.none ∧
    ∀ id, (rt.connectorInstances.lookup id = none → rt.connectors.lookup id = none ∧
      rt.tokenVault.lookup id = none)

namespace Session

section

variable {V : Type} {parse : UuidParser} {t : Session V}

/-- A store in any state that calls leave it in, open or closed; a runtime that is open knows every
scope that has a tombstone. -/
structure Sound (t : Session V) : Prop where
  file : t.file.Sound
  runtime : ∀ rt, t.live = some rt → rt.Sound
  known : ∀ rt, t.live = some rt → ∀ s, t.file.forgotten s = true → rt.isScopeForgotten s = true

def system (parse : UuidParser) : System (Session V) (StoreEvent V) :=
  .ofNext (fun t => t.Sound ∧ t.reported = []) (fun _ _ => True) (next parse)

/-- A forget call finds the tombstone on disk where the registry holds the scope as forgotten. -/
def Marked (parse : UuidParser) (t : Session V) (event : StoreEvent V) : Prop :=
  ∀ scope ∈ t.forgets parse event, ∀ rt ∈ t.live,
    rt.isScopeForgotten scope = true → t.file.forgotten scope = true

instance (parse : UuidParser) (t : Session V) (event : StoreEvent V) :
    Decidable (Marked parse t event) :=
  decidable_of_iff ((t.forgets parse event).all (fun scope => t.live.all fun rt =>
      !rt.isScopeForgotten scope || t.file.forgotten scope) = true)
    (by simp [Marked, Option.all_eq_true, ← Bool.not_eq_true, ← imp_iff_not_or])

structure Inv (t : Session V) : Prop where
  sound : t.Sound
  tombstone : ∀ s ∈ t.reported, t.file.forgotten s = true
  rows : ∀ s ∈ t.reported, t.file.rows s = Rows.none
  entries : ∀ s ∈ t.reported, ∀ rt, t.live = some rt → rt.entries s = Entries.none

theorem Inv.forgetOn (h : t.Inv) {rt : FfiRuntime V} (hlive : t.live = some rt) {scope : ScopeId}
    (hmarked : rt.isScopeForgotten scope = true → t.file.forgotten scope = true)
    (a : ForgetAnswers) : (t.forgetOn (.ok scope) a).Inv := by
  have hspec := forgetScopeState_spec h.sound.file (h.sound.runtime rt hlive) scope a
  simp only [Session.forgetOn, hlive]
  generalize forgetScopeState rt t.file scope a = out at hspec ⊢
  have hreported : ∀ s, s ∈ report t.reported scope out.result →
      s ∈ t.reported ∨ s = scope ∧ out.result.isOk = true := by
    intro s hs
    cases hresult : out.result with
    | error e =>
      rw [hresult] at hs
      exact .inl hs
    | ok u =>
      rw [hresult] at hs
      obtain rfl | hs := List.mem_cons.mp hs
      · exact .inr ⟨rfl, rfl⟩
      · exact .inl hs
  refine ⟨⟨hspec.soundFile, fun rt' hrt' => ?_, fun rt' hrt' s hs => ?_⟩, fun s hs => ?_,
    fun s hs => ?_, fun s hs rt' hrt' => ?_⟩
  · obtain rfl := Option.some.inj hrt'
    exact hspec.soundRuntime
  · obtain rfl := Option.some.inj hrt'
    by_cases hscope : s = scope
    · subst hscope
      exact hspec.live (h.sound.known rt hlive s) hs
    · have hsame := hspec.untouched s hscope
      rw [hsame.forgotten]
      exact h.sound.known rt hlive s (hsame.tombstone ▸ hs)
  · obtain hold | ⟨rfl, hok⟩ := hreported s hs
    · by_cases hscope : s = scope
      · subst hscope
        exact hspec.tombstone (h.tombstone s hold)
      · exact (hspec.untouched s hscope).tombstone.trans (h.tombstone s hold)
    · exact (hspec.done hok).2.2.2 hmarked
  · obtain hold | ⟨rfl, hok⟩ := hreported s hs
    · by_cases hscope : s = scope
      · subst hscope
        exact hspec.rows (h.rows s hold)
      · exact (hspec.untouched s hscope).rows.trans (h.rows s hold)
    · exact (hspec.done hok).1
  · obtain rfl := Option.some.inj hrt'
    obtain hold | ⟨rfl, hok⟩ := hreported s hs
    · by_cases hscope : s = scope
      · subst hscope
        exact hspec.entries (h.entries s hold rt hlive)
      · exact (hspec.untouched s hscope).entries.trans (h.entries s hold rt hlive)
    · exact (hspec.done hok).2.1

theorem Inv.writes (h : t.Inv) {rt : FfiRuntime V} (hlive : t.live = some rt) {scope : ScopeId}
    (hscope : rt.isScopeForgotten scope = false) (writes : List (Write V)) :
    (⟨(runWrites scope (rt, t.file) writes).2, some (runWrites scope (rt, t.file) writes).1,
      t.reported⟩ : Session V).Inv := by
  have hstart : (⟨t.file, some rt, t.reported⟩ : Session V).Inv := by
    rw [← hlive]
    exact h
  suffices hall : ∀ (writes : List (Write V)) (rt : FfiRuntime V) (file : StoreFile V),
      rt.isScopeForgotten scope = false → (⟨file, some rt, t.reported⟩ : Session V).Inv →
      (⟨(runWrites scope (rt, file) writes).2, some (runWrites scope (rt, file) writes).1,
        t.reported⟩ : Session V).Inv from hall writes rt t.file hscope hstart
  intro writes
  induction writes with
  | nil => exact fun rt file _ h => h
  | cons w writes ih =>
    intro rt file hscope h
    obtain ⟨hfile, hregistry⟩ := forgotten_write scope rt file w
    have hforgotten : ∀ s, (w.run scope rt file).1.isScopeForgotten s = rt.isScopeForgotten s := by
      intro s
      rw [FfiRuntime.isScopeForgotten, DekRegistry.isScopeForgotten, hregistry]
      rfl
    have htombstone : ∀ s, (w.run scope rt file).2.forgotten s = file.forgotten s := by
      intro s
      rw [StoreFile.forgotten, hfile]
      rfl
    have hsound := h.sound.runtime rt rfl
    have hne : ∀ s ∈ t.reported, s ≠ scope := by
      rintro s hs rfl
      have := h.sound.known rt rfl s (h.tombstone s hs)
      exact absurd (hscope.symm.trans this) (by decide)
    refine ih (w.run scope rt file).1 (w.run scope rt file).2 ((hforgotten scope).trans hscope)
      ⟨⟨h.sound.file.write hsound w, fun rt' hrt' => ?_, fun rt' hrt' s hs => ?_⟩, fun s hs => ?_,
        fun s hs => rows_write w (hne s hs) (h.rows s hs), fun s hs rt' hrt' => ?_⟩
    · obtain rfl := Option.some.inj hrt'
      exact hsound.write w
    · rw [← Option.some.inj hrt', hforgotten]
      exact h.sound.known rt rfl s ((htombstone s).symm.trans hs)
    · exact (htombstone s).trans (h.tombstone s hs)
    · rw [← Option.some.inj hrt']
      exact entries_write w (hne s hs) (h.entries s hs rt rfl)

theorem erase_filter_none (t : Table Uuid (ScopeId × V)) (id id' : Uuid) {s : ScopeId}
    (h : (t.lookup id').filter (fun e => e.1 = s) = none) :
    ((t.erase id).lookup id').filter (fun e => e.1 = s) = none := by
  rw [Table.lookup_erase_ite]
  split
  · rfl
  · exact h

theorem rows_erase {file : StoreFile V} {s : ScopeId} (id : Uuid) (h : file.rows s = Rows.none) :
    ({ file with connectorInstances := file.connectorInstances.erase id } : StoreFile V).rows s =
      Rows.none ∧
    ({ file with
      connectorInstances := file.connectorInstances.erase id
      connectorTokens := file.connectorTokens.erase id } : StoreFile V).rows s = Rows.none := by
  have hinstances := fun id' =>
    erase_filter_none file.connectorInstances id id' (congrFun (congrArg Rows.instances h) id')
  have htokens := fun id' =>
    erase_filter_none file.connectorTokens id id' (congrFun (congrArg Rows.tokens h) id')
  constructor
  · rw [← h]
    apply Rows.ext <;> try rfl
    exact (funext hinstances).trans (congrArg Rows.instances h).symm
  · rw [← h]
    apply Rows.ext <;> try rfl
    · exact (funext hinstances).trans (congrArg Rows.instances h).symm
    · exact (funext htokens).trans (congrArg Rows.tokens h).symm

def withoutConnector (rt : FfiRuntime V) (id : Uuid) : FfiRuntime V :=
  { rt with
    connectorInstances := rt.connectorInstances.erase id
    connectors := rt.connectors.erase id
    tokenVault := rt.tokenVault.erase id }

theorem sound_withoutConnector {rt : FfiRuntime V} (h : rt.Sound) (id : Uuid) :
    (withoutConnector rt id).Sound := by
  have hkept : ∀ (t : Table Uuid V) id' v, (t.erase id).lookup id' = some v →
      (∀ v, t.lookup id' = some v → (rt.connectorInstances.lookup id').isSome = true) →
      ((rt.connectorInstances.erase id).lookup id').isSome = true := by
    intro t id' v hv hall
    rw [Table.lookup_erase_ite] at hv ⊢
    split at hv
    · cases hv
    · rename_i hne
      rw [if_neg hne]
      exact hall v hv
  exact ⟨h.windows, fun id' v hv => hkept _ id' v hv (h.connectors id'),
    fun id' v hv => hkept _ id' v hv (h.tokens id')⟩

theorem entries_withoutConnector {rt : FfiRuntime V} (id : Uuid) {s : ScopeId}
    (h : rt.entries s = Entries.none) : (withoutConnector rt id).entries s = Entries.none := by
  refine entries_none (fun kind => congrFun (congrArg Entries.memories h) kind)
    (congrArg Entries.tenant h) (congrArg Entries.objects h) (fun w win hw hscope => ?_)
    (fun tier => congrFun (congrArg Entries.cooldowns h) tier) (fun id' e he hscope => ?_)
  · have hnone : (rt.windows.windows.lookup w).filter (fun win => win.scopeId = s) = none :=
      congrFun (congrArg Entries.windows h) w
    rw [show rt.windows.windows.lookup w = some win from hw] at hnone
    simp [Option.filter, hscope] at hnone
  · have hnone : (rt.connectorInstances.lookup id').filter (fun e => e.1 = s) = none :=
      congrFun (congrArg Entries.instances h) id'
    simp only [withoutConnector, Table.lookup_erase_ite] at he
    split at he
    · cases he
    · rw [he] at hnone
      simp [Option.filter, hscope] at hnone

theorem Inv.removeConnector (h : t.Inv) (id : Uuid) (deleteInstance deleteToken : Answer) :
    (t.removeConnector id deleteInstance deleteToken).Inv := by
  cases hlive : t.live with
  | none =>
    simp only [Session.removeConnector, hlive]
    exact h
  | some rt =>
    have hall : ∀ file : StoreFile V, file.Sound → file.forgottenScopes = t.file.forgottenScopes →
        (∀ s ∈ t.reported, file.rows s = Rows.none) →
        (⟨file, some (withoutConnector rt id), t.reported⟩ : Session V).Inv := by
      intro file hfile hsame hrows
      have hforgotten : ∀ s, file.forgotten s = t.file.forgotten s := by
        intro s
        rw [StoreFile.forgotten, hsame]
        rfl
      refine ⟨⟨hfile, fun rt' hrt' => ?_, fun rt' hrt' s hs => ?_⟩, fun s hs => ?_, hrows,
        fun s hs rt' hrt' => ?_⟩
      · rw [← Option.some.inj hrt']
        exact sound_withoutConnector (h.sound.runtime rt hlive) id
      · rw [← Option.some.inj hrt']
        exact h.sound.known rt hlive s ((hforgotten s).symm.trans hs)
      · exact (hforgotten s).trans (h.tombstone s hs)
      · rw [← Option.some.inj hrt']
        exact entries_withoutConnector id (h.entries s hs rt hlive)
    have hs := h.sound.file
    simp only [Session.removeConnector, hlive]
    split
    · exact hall t.file hs rfl h.rows
    split
    · exact hall _ ⟨hs.fts, hs.embeddings, hs.tenants, hs.sentinel, hs.windows⟩ rfl
        fun s hmem => (rows_erase id (h.rows s hmem)).1
    · exact hall _ ⟨hs.fts, hs.embeddings, hs.tenants, hs.sentinel, hs.windows⟩ rfl
        fun s hmem => (rows_erase id (h.rows s hmem)).2

theorem Inv.openStore (h : t.Inv) (a : OpenAnswers) : (t.next parse (.openStore a)).Inv := by
  cases hlive : t.live with
  | some rt =>
    simp only [next, hlive]
    exact h
  | none =>
    have hpurges := purges_openFile a t.file h.sound.file
    have hforgotten : ∀ s, (openFile a t.file).1.forgotten s = t.file.forgotten s := by
      intro s
      rw [StoreFile.forgotten, hpurges.forgotten]
      rfl
    simp only [next, hlive]
    cases hopen : openFile a t.file with
    | mk file result =>
      rw [hopen] at hpurges hforgotten
      cases result with
      | error e =>
        refine ⟨⟨hpurges.sound h.sound.file, fun rt hrt => ?_, fun rt hrt => ?_⟩,
          fun s hs => (hforgotten s).trans (h.tombstone s hs),
          fun s hs => hpurges.rows s h.sound.file (h.rows s hs), fun s hs rt hrt => ?_⟩
        all_goals cases hrt
      | ok rt =>
        have hrestored := openFile_ok h.sound.file hopen
        refine ⟨⟨hpurges.sound h.sound.file, fun rt' hrt' => ?_, fun rt' hrt' s hs => ?_⟩,
          fun s hs => (hforgotten s).trans (h.tombstone s hs),
          fun s hs => hpurges.rows s h.sound.file (h.rows s hs), fun s hs rt' hrt' => ?_⟩
        · rw [← Option.some.inj hrt']
          exact hrestored.sound
        · rw [← Option.some.inj hrt', hrestored.forgotten]
          exact (hforgotten s).symm.trans hs
        · rw [← Option.some.inj hrt']
          exact hrestored.entries s (h.tombstone s hs)

theorem Inv.next (h : t.Inv) {event : StoreEvent V} (hmarked : Marked parse t event) :
    (t.next parse event).Inv := by
  have hforget : ∀ (scope : Except FfiError ScopeId) (a : ForgetAnswers),
      t.forgets parse event = scope.toOption → (t.forgetOn scope a).Inv := by
    intro scope a heq
    cases hlive : t.live with
    | none =>
      simp only [Session.forgetOn, hlive]
      exact h
    | some rt =>
      cases scope with
      | error e =>
        simp only [Session.forgetOn, hlive]
        exact h
      | ok scope => exact h.forgetOn hlive (hmarked scope heq rt hlive) a
  cases event with
  | forget id reads a => exact hforget _ a rfl
  | forgetScope scopeId a => exact hforget _ a rfl
  | call scope writes =>
    cases hlive : t.live with
    | none =>
      simp only [Session.next, hlive]
      exact h
    | some rt =>
      simp only [Session.next, hlive]
      split
      · exact h
      · rename_i hscope
        exact h.writes hlive (by simpa using hscope) writes
  | removeConnector id deleteInstance deleteToken => exact h.removeConnector id _ _
  | closeStore =>
    refine ⟨⟨h.sound.file, fun rt hrt => ?_, fun rt hrt => ?_⟩, h.tombstone, h.rows,
      fun s hs rt hrt => ?_⟩
    all_goals cases hrt
  | openStore a => exact h.openStore a

theorem Inv.gone (h : t.Inv) {s : ScopeId} (hs : s ∈ t.reported) : t.Gone s := by
  refine ⟨h.rows s hs, fun rt hrt => ⟨h.sound.known rt hrt s (h.tombstone s hs),
    h.entries s hs rt hrt, fun id hid => ?_⟩⟩
  have hrt := h.sound.runtime rt hrt
  refine ⟨Option.eq_none_iff_forall_ne_some.mpr fun v hv => ?_,
    Option.eq_none_iff_forall_ne_some.mpr fun v hv => ?_⟩
  · have := hrt.connectors id v hv
    rw [hid] at this
    cases this
  · have := hrt.tokens id v hv
    rw [hid] at this
    cases this

theorem Inv.untouched (h : t.Inv) {event : StoreEvent V} {scope : ScopeId} {rt : FfiRuntime V}
    (hforgets : t.forgets parse event = some scope) (hlive : t.live = some rt) :
    ∃ rt', (t.next parse event).live = some rt' ∧
      ∀ s, s ≠ scope → Untouched s t.file rt (t.next parse event).file rt' := by
  have hforget : ∀ (found : Except FfiError ScopeId) (a : ForgetAnswers),
      found.toOption = some scope → ∃ rt', (t.forgetOn found a).live = some rt' ∧
        ∀ s, s ≠ scope → Untouched s t.file rt (t.forgetOn found a).file rt' := by
    intro found a hfound
    cases found with
    | error e => cases hfound
    | ok found =>
      cases hfound
      simp only [Session.forgetOn, hlive]
      exact ⟨_, rfl, (forgetScopeState_spec h.sound.file (h.sound.runtime rt hlive) _ a).untouched⟩
  cases event with
  | forget id reads a => exact hforget _ a hforgets
  | forgetScope scopeId a => exact hforget _ a hforgets
  | call scope writes => cases hforgets
  | removeConnector id deleteInstance deleteToken => cases hforgets
  | closeStore => cases hforgets
  | openStore a => cases hforgets

end

end Session

/-- In a run in which no forget call finds its scope forgotten in the registry and without a
tombstone on disk, whatever was reported forgotten is gone in every later state, and no forget call
touches a row or an entry of another scope. -/
theorem forgotten_for_good {V : Type} (parse : UuidParser) {t : Session V}
    (h : ((Session.system parse).restrict (Session.Marked parse)).Reachable t) :
    (∀ s ∈ t.reported, t.Gone s) ∧
    ∀ event scope rt, t.forgets parse event = some scope → t.live = some rt →
      ∃ rt', (t.next parse event).live = some rt' ∧
        ∀ s, s ≠ scope → Untouched s t.file rt (t.next parse event).file rt' := by
  have hinv : t.Inv := by
    refine h.invariant Session.Inv ?_ ?_
    · intro t ⟨hsound, hreported⟩
      refine ⟨hsound, fun s hs => ?_, fun s hs => ?_, fun s hs => ?_⟩
      all_goals rw [hreported] at hs; cases hs
    · intro t event t' _ hinv ⟨⟨_, ht'⟩, hmarked⟩
      rw [ht']
      exact hinv.next hmarked
  exact ⟨fun s hs => hinv.gone hs, fun event scope rt hforgets hlive =>
    hinv.untouched hforgets hlive⟩

def freshSession : Session Nat := ⟨.empty Nat, none, []⟩

theorem freshSession_init :
    (Session.system sampleParser : System (Session Nat) _).init freshSession := by
  refine ⟨⟨⟨?_, ?_, ?_, rfl, ?_⟩, ?_, ?_⟩, rfl⟩
  · exact fun row hrow => by cases hrow
  · exact fun id tag v hv => by cases hv
  · exact fun s tmo htmo => by cases htmo
  · exact fun m hm => by cases hm
  · exact fun rt hrt => by cases hrt
  · exact fun rt hrt => by cases hrt

def sessionAfter (events : List (StoreEvent Nat)) : Session Nat :=
  events.foldl (Session.next sampleParser) freshSession

def fillScope : List (StoreEvent Nat) :=
  [.openStore (.allOk 0), .call homeScope [.scopeDek 5,
    .ingest 0x4000800000000000000b [(.unicode61, "milk")] none, .blob .user (some 1),
    .memory .user (some 1), .connectorInstance 3 1, .connector 3 1, .instanceRow 3 (some 1),
    .token 3 (some 9), .tokenRow 3 (some 9)]]

/-- The scope is forgotten by its message while one purge fails, once more by its own name, and the
store is opened again. -/
def forgetTwice : List (StoreEvent Nat) :=
  fillScope ++ [.forget "00000000-0000-4000-8000-00000000000b" (.ok ())
      { ForgetAnswers.allOk 1 with purgeFts := .error "disk I/O error" },
    .forgetScope "00000000-0000-4000-8000-000000000007" (.allOk 2), .closeStore,
    .openStore (.allOk 3)]

theorem forgotten_for_good_retried :
    homeScope ∈ (sessionAfter forgetTwice).reported ∧ (sessionAfter forgetTwice).Gone homeScope := by
  have hreported : homeScope ∈ (sessionAfter forgetTwice).reported := by decide +kernel
  refine ⟨hreported, (forgotten_for_good sampleParser ?_).1 homeScope hreported⟩
  refine Legal.reachable_restrict ?_ (.init freshSession_init)
  change Legal (fun t event => True ∧ Session.Marked sampleParser t event) _ freshSession forgetTwice
  decide +kernel

def forgetUnmarked : List (StoreEvent Nat) :=
  fillScope ++ [.forgetScope "00000000-0000-4000-8000-000000000007"
      { ForgetAnswers.allOk 1 with
        tombstoneFails := fun n => n = 0, tombstoneError := "disk I/O error" },
    .forgetScope "00000000-0000-4000-8000-000000000007" (.allOk 2)]

/-- A scope that was reported forgotten, by a call that found nothing left to write, takes messages
again once the store has been opened anew. -/
theorem forgotten_scope_returns :
    ¬ ∀ t : Session Nat, (Session.system sampleParser).Reachable t → ∀ s ∈ t.reported, t.Gone s := by
  intro hall
  let t := sessionAfter (forgetUnmarked ++ [.closeStore, .openStore (.allOk 3)])
  have hreached : (Session.system sampleParser).Reachable t := by
    refine Legal.reachable ?_ (.init freshSession_init)
    change Legal (fun _ _ => True) _ freshSession _
    decide +kernel
  have hreported : homeScope ∈ t.reported := by decide +kernel
  have hopen : t.live.all (fun rt => !rt.isScopeForgotten homeScope) = true ∧
      t.live.isSome = true := by decide +kernel
  obtain ⟨rt, hrt⟩ := Option.isSome_iff_exists.mp hopen.2
  have hforgotten := ((hall t hreached homeScope hreported).live rt hrt).1
  have hnot := hopen.1
  rw [hrt, Option.all_some, hforgotten] at hnot
  cases hnot

end Knowledge.Runtime
