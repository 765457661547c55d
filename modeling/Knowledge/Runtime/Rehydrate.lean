import Knowledge.Synthesis.Hierarchy

/-!
`crates/ffi/src/runtime.rs`: what `open_store` does with the memory blobs once the store is open.
Tenant memories, synthesis windows and synthesis objects are read back, each into an empty map
where its blob does not load, and three sweeps then delete the rows that nothing read back refers
to. A loop over independent rows is one statement on the table.
-/

set_option autoImplicit false

namespace Knowledge.Runtime
open Knowledge.Sync (Uuid)
open Knowledge.Memory (ScopeId)
open Knowledge.Synthesis (WindowId SynthesisWindow SynthesisObject WindowStatus)

structure StoredWindow extends SynthesisWindow where
  createdAt : Option Int

/-- The window manager as its blob holds it. -/
structure WindowManager where
  windows : Table WindowId StoredWindow
  byScope : Table ScopeId (List WindowId)

open WindowManager

namespace WindowManager

def new : WindowManager := ⟨∅, ∅⟩

def trackedScopes (m : WindowManager) : List ScopeId := m.byScope.rows.map Prod.fst

def removeWindowsForScope (m : WindowManager) (scope : ScopeId) : WindowManager :=
  match m.byScope.lookup scope with
  | none => m
  | some ids => ⟨ids.foldl (fun t id => t.erase id) m.windows, m.byScope.erase scope⟩

end WindowManager

def stuckPendingThreshold : Int := 3600 * 1000000000

namespace StoredWindow

def stuck (w : StoredWindow) (now : Int) : Bool :=
  w.status = .pending && w.createdAt.any fun created => stuckPendingThreshold < now - created

def recovered (w : StoredWindow) (now : Int) : StoredWindow :=
  if w.stuck now then { w with status := .failed } else w

end StoredWindow

namespace WindowManager

def sweepStuckPending (m : WindowManager) (now : Int) : WindowManager × List WindowId :=
  ({ m with windows := m.windows.mapValues fun _ w => w.recovered now },
    (m.windows.rows.filter fun e => e.2.stuck now).map fun e => e.2.id)

end WindowManager

structure ApprovedDocumentRef where
  id : Uuid
  label : String
  approvedAt : Int
  approver : String

structure TenantMemoryObject where
  scopeId : ScopeId
  approvedDocuments : List ApprovedDocumentRef

/-- What of the database the rehydration reads and writes. `versions` is keyed by scope, window
and version. -/
structure Disk where
  tombstones : List ScopeId
  windows : Option WindowManager
  tenants : Table ScopeId TenantMemoryObject
  objects : Table ScopeId (List SynthesisObject)
  payloads : Table (ScopeId × Uuid) (List UInt8)
  versions : Table (ScopeId × WindowId × Nat) SynthesisObject

structure Faults where
  windows : Bool
  tenant : ScopeId → Bool
  objects : ScopeId → Bool
  savePurged : Bool
  saveRecovered : Bool
  saveObjects : ScopeId → Bool
  listPayloads : Bool
  deletePayload : ScopeId → Uuid → Bool
  listVersions : Bool
  deleteVersions : ScopeId → WindowId → Bool

def Faults.none : Faults where
  windows := false
  tenant _ := false
  objects _ := false
  savePurged := false
  saveRecovered := false
  saveObjects _ := false
  listPayloads := false
  deletePayload _ _ := false
  listVersions := false
  deleteVersions _ _ := false

def synthesisWindowsScope : ScopeId := 0

def purgeBlobs (d : Disk) : Disk :=
  { d with
    windows := if d.tombstones.contains synthesisWindowsScope then none else d.windows
    tenants := d.tenants.filter fun scope _ => !d.tombstones.contains scope
    objects := d.objects.filter fun scope _ => !d.tombstones.contains scope }

def rehydrateTenants (d : Disk) (f : Faults) : Table ScopeId TenantMemoryObject :=
  d.tenants.filter fun scope _ => !d.tombstones.contains scope && !f.tenant scope

def purgeWindows (tombstones : List ScopeId) (m : WindowManager) : WindowManager :=
  (m.trackedScopes.filter fun scope => tombstones.contains scope).foldl
    WindowManager.removeWindowsForScope m

def loadWindows (d : Disk) (f : Faults) : WindowManager :=
  if f.windows then WindowManager.new else d.windows.getD WindowManager.new

/-- The windows are read back, those of forgotten scopes removed, those that are stuck failed; the
blob is written again where there was something to do. -/
def rehydrateWindows (d : Disk) (now : Int) (f : Faults) : Disk × WindowManager :=
  let loaded := loadWindows d f
  let purged := purgeWindows d.tombstones loaded
  let forgotten := loaded.trackedScopes.filter fun scope => d.tombstones.contains scope
  let d := if forgotten.isEmpty || f.savePurged then d else { d with windows := some purged }
  let (recovered, swept) := purged.sweepStuckPending now
  let d := if swept.isEmpty || f.saveRecovered then d else { d with windows := some recovered }
  (d, recovered)

def loadObjects (scope : ScopeId) (blob : List SynthesisObject) :
    Table WindowId SynthesisObject :=
  blob.foldl (fun inner obj =>
    if obj.scopeId = scope then inner.insert obj.windowId obj else inner) ∅

/-- The objects that were read back, less those whose window was not, and the blobs that were
written again for them. -/
def rehydrateObjects (d : Disk) (m : WindowManager) (f : Faults) :
    Disk × Table ScopeId (Table WindowId SynthesisObject) :=
  let loaded := (d.objects.filter fun scope _ =>
    !d.tombstones.contains scope && !f.objects scope).mapValues loadObjects
  let kept := loaded.mapValues fun _ inner => inner.filter fun id _ => (m.windows.lookup id).isSome
  let affected (scope : ScopeId) : Bool :=
    (loaded.lookup scope).any fun inner => inner.any fun id _ => (m.windows.lookup id).isNone
  let objects := d.objects.mapValues fun scope blob =>
    if affected scope && !f.saveObjects scope then
      match kept.lookup scope with
      | none => []
      | some inner => inner.rows.map Prod.snd
    else blob
  ({ d with objects }, kept.filter fun _ inner => !inner.rows.isEmpty)

def sweepPayloads (d : Disk) (tenants : Table ScopeId TenantMemoryObject) (f : Faults) : Disk :=
  let valid (key : ScopeId × Uuid) : Bool := tenants.any fun _ tmo =>
    tmo.scopeId = key.1 && tmo.approvedDocuments.any fun doc => doc.id = key.2
  if f.listPayloads then d
  else
    { d with
      payloads := d.payloads.filter fun key _ => valid key || f.deletePayload key.1 key.2 }

def sweepVersions (d : Disk) (objects : Table ScopeId (Table WindowId SynthesisObject))
    (f : Faults) : Disk :=
  let valid (scope : ScopeId) (window : WindowId) : Bool :=
    (objects.lookup scope).any fun inner => (inner.lookup window).isSome
  if f.listVersions then d
  else
    { d with
      versions := d.versions.filter fun key _ =>
        valid key.1 key.2.1 || f.deleteVersions key.1 key.2.1 }

structure Rehydrated where
  windows : WindowManager
  tenants : Table ScopeId TenantMemoryObject
  objects : Table ScopeId (Table WindowId SynthesisObject)

/-- The maps as they are read back, before the two sweeps of other tables that take them as
their source of truth. -/
def rehydrate (d : Disk) (now : Int) (f : Faults) : Disk × Rehydrated :=
  let d := purgeBlobs d
  let tenants := rehydrateTenants d f
  let windows := rehydrateWindows d now f
  let objects := rehydrateObjects windows.1 windows.2 f
  (objects.1, ⟨windows.2, tenants, objects.2⟩)

def openStore (d : Disk) (now : Int) (f : Faults) : Disk × Rehydrated :=
  let r := rehydrate d now f
  (sweepVersions (sweepPayloads r.1 r.2.tenants f) r.2.objects f, r.2)

section Windows

def Forgotten (tombstones : List ScopeId) (m : WindowManager) (w : WindowId) : Prop :=
  ∃ s ∈ tombstones, w ∈ (m.byScope.lookup s).getD []

instance (tombstones : List ScopeId) (m : WindowManager) (w : WindowId) :
    Decidable (Forgotten tombstones m w) :=
  inferInstanceAs (Decidable (∃ s ∈ tombstones, w ∈ (m.byScope.lookup s).getD []))

theorem lookup_foldl_erase {K V : Type} [DecidableEq K] (ids : List K) (t : Table K V) (k : K) :
    (ids.foldl (fun t id => t.erase id) t).lookup k = if k ∈ ids then none else t.lookup k := by
  induction ids generalizing t with
  | nil => simp
  | cons id ids ih =>
    rw [List.foldl_cons, ih, Table.lookup_erase_ite]
    by_cases hk : k = id
    · simp [hk]
    · by_cases hmem : k ∈ ids <;> simp [hk, hmem]

theorem removeWindowsForScope_spec (m : WindowManager) (scope : ScopeId) :
    (∀ w, (m.removeWindowsForScope scope).windows.lookup w =
      if w ∈ (m.byScope.lookup scope).getD [] then none else m.windows.lookup w) ∧
    ∀ t, (m.removeWindowsForScope scope).byScope.lookup t =
      if t = scope then none else m.byScope.lookup t := by
  unfold removeWindowsForScope
  cases h : m.byScope.lookup scope with
  | none =>
    refine ⟨fun w => by simp, fun t => ?_⟩
    by_cases ht : t = scope
    · subst ht
      simp [h]
    · simp [ht]
  | some ids =>
    exact ⟨fun w => lookup_foldl_erase ids m.windows w, fun t => Table.lookup_erase_ite _ _ _⟩

theorem foldl_remove_spec (l : List ScopeId) (m : WindowManager) :
    (∀ w, (l.foldl removeWindowsForScope m).windows.lookup w =
      if Forgotten l m w then none else m.windows.lookup w) ∧
    ∀ t, (l.foldl removeWindowsForScope m).byScope.lookup t =
      if t ∈ l then none else m.byScope.lookup t := by
  induction l generalizing m with
  | nil => simp [Forgotten]
  | cons scope l ih =>
    obtain ⟨hwindows, hscopes⟩ := ih (m.removeWindowsForScope scope)
    obtain ⟨hremoved, hindex⟩ := removeWindowsForScope_spec m scope
    refine ⟨fun w => ?_, fun t => ?_⟩
    · rw [List.foldl_cons, hwindows, hremoved]
      have hiff : Forgotten (scope :: l) m w ↔ w ∈ (m.byScope.lookup scope).getD [] ∨
          Forgotten l (m.removeWindowsForScope scope) w := by
        simp only [Forgotten, hindex, List.exists_mem_cons_iff]
        constructor
        · rintro (h | ⟨t, ht, h⟩)
          · exact .inl h
          · by_cases heq : t = scope
            · exact .inl (heq ▸ h)
            · exact .inr ⟨t, ht, by rwa [if_neg heq]⟩
        · rintro (h | ⟨t, ht, h⟩)
          · exact .inl h
          · by_cases heq : t = scope
            · simp [heq] at h
            · exact .inr ⟨t, ht, by rwa [if_neg heq] at h⟩
      by_cases h1 : w ∈ (m.byScope.lookup scope).getD [] <;>
        by_cases h2 : Forgotten l (m.removeWindowsForScope scope) w <;> simp [hiff, h1, h2]
    · rw [List.foldl_cons, hscopes, hindex]
      by_cases h1 : t = scope <;> by_cases h2 : t ∈ l <;> simp [h1, h2]

theorem mem_trackedScopes {m : WindowManager} {s : ScopeId} :
    s ∈ m.trackedScopes ↔ m.byScope.lookup s ≠ none := by
  simp only [trackedScopes, List.mem_map, Prod.exists, exists_and_right,
    exists_eq_right, Table.mem_rows_iff]
  exact Option.ne_none_iff_exists'.symm

theorem purgeWindows_spec (tombstones : List ScopeId) (m : WindowManager) :
    (∀ w, (purgeWindows tombstones m).windows.lookup w =
      if Forgotten tombstones m w then none else m.windows.lookup w) ∧
    ∀ t, (purgeWindows tombstones m).byScope.lookup t =
      if t ∈ tombstones then none else m.byScope.lookup t := by
  obtain ⟨hwindows, hscopes⟩ := foldl_remove_spec
    (m.trackedScopes.filter fun scope => tombstones.contains scope) m
  have hmem : ∀ t, t ∈ m.trackedScopes.filter (fun scope => tombstones.contains scope) ↔
      m.byScope.lookup t ≠ none ∧ t ∈ tombstones := by
    intro t
    rw [List.mem_filter, mem_trackedScopes, List.contains_iff_mem]
  refine ⟨fun w => ?_, fun t => ?_⟩
  · rw [purgeWindows, hwindows]
    have hiff : Forgotten (m.trackedScopes.filter fun scope => tombstones.contains scope) m w ↔
        Forgotten tombstones m w := by
      simp only [Forgotten, hmem]
      constructor
      · rintro ⟨t, ⟨-, ht⟩, h⟩
        exact ⟨t, ht, h⟩
      · rintro ⟨t, ht, h⟩
        refine ⟨t, ⟨fun hnone => ?_, ht⟩, h⟩
        simp [hnone] at h
    simp only [hiff]
  · rw [purgeWindows, hscopes]
    simp only [hmem]
    by_cases ht : t ∈ tombstones
    · by_cases hnone : m.byScope.lookup t = none <;> simp [ht, hnone]
    · simp [ht]

theorem not_forgotten_purgeWindows (tombstones : List ScopeId) (m : WindowManager) (w : WindowId) :
    ¬Forgotten tombstones (purgeWindows tombstones m) w := by
  rintro ⟨t, ht, h⟩
  rw [(purgeWindows_spec tombstones m).2, if_pos ht] at h
  simp at h

theorem sweepStuckPending_spec (m : WindowManager) (now : Int) (w : WindowId) :
    (m.sweepStuckPending now).1.windows.lookup w =
      (m.windows.lookup w).map fun win => win.recovered now :=
  Table.lookup_mapValues _ _ _

theorem recovered_recovered {now later : Int} (h : now ≤ later) (win : StoredWindow) :
    (win.recovered now).recovered later = win.recovered later := by
  unfold StoredWindow.recovered
  by_cases hstuck : win.stuck now = true
  · have hlater : win.stuck later = true := by
      simp only [StoredWindow.stuck, Bool.and_eq_true, Option.any_eq_true,
        decide_eq_true_eq] at hstuck ⊢
      obtain ⟨hpending, created, hcreated, hold⟩ := hstuck
      exact ⟨hpending, created, hcreated, by omega⟩
    have hdone : ({ win with status := .failed } : StoredWindow).stuck later = false := by
      simp [StoredWindow.stuck]
    rw [if_pos hstuck, if_pos hlater, hdone]
    simp
  · rw [if_neg hstuck]

def purgedWindows (d : Disk) : WindowManager :=
  purgeWindows d.tombstones (d.windows.getD WindowManager.new)

/-- The blob is left alone where it did not load; where it did, it may be purged, and swept. -/
def Rewritten (d : Disk) (now : Int) (f : Faults) (blob : Option WindowManager) : Prop :=
  blob = d.windows ∨ f.windows = false ∧
    (blob = some (purgedWindows d) ∨ blob = some ((purgedWindows d).sweepStuckPending now).1)

theorem purgedWindows_lookup (d : Disk) (w : WindowId) :
    (purgedWindows d).windows.lookup w =
      if Forgotten d.tombstones (d.windows.getD new) w then none
      else (d.windows.getD new).windows.lookup w :=
  (purgeWindows_spec _ _).1 w

/-- Purging the blob again after one rewrite of it, and failing what is stuck by then, gives what
the first blob would have given. -/
theorem Rewritten.reopened {d d' : Disk} {now later : Int} {f : Faults}
    (h : Rewritten d now f d'.windows) (htombstones : d'.tombstones = d.tombstones)
    (hnow : now ≤ later) :
    (∀ w, ((purgedWindows d').windows.lookup w).map (fun win => win.recovered later) =
      ((purgedWindows d).windows.lookup w).map fun win => win.recovered later) ∧
    ∀ s, (purgedWindows d').byScope.lookup s = (purgedWindows d).byScope.lookup s := by
  have hindex : ∀ m : WindowManager, m.byScope = (purgedWindows d).byScope →
      (∀ w, (purgeWindows d.tombstones m).windows.lookup w = m.windows.lookup w) ∧
      ∀ s, (purgeWindows d.tombstones m).byScope.lookup s = (purgedWindows d).byScope.lookup s := by
    intro m hm
    obtain ⟨hwindows, hscopes⟩ := purgeWindows_spec d.tombstones m
    refine ⟨fun w => ?_, fun s => ?_⟩
    · have hno : ¬Forgotten d.tombstones m w := by
        rw [Forgotten, hm]
        exact not_forgotten_purgeWindows d.tombstones _ w
      rw [hwindows, if_neg hno]
    · rw [hscopes, hm, purgedWindows, (purgeWindows_spec d.tombstones _).2]
      by_cases hs : s ∈ d.tombstones <;> simp [hs]
  rcases h with hsame | ⟨-, hpurged | hswept⟩
  · simp [purgedWindows, hsame, htombstones]
  · obtain ⟨hwindows, hscopes⟩ := hindex (purgedWindows d) rfl
    rw [purgedWindows, htombstones, hpurged]
    exact ⟨fun w => by rw [Option.getD_some, hwindows], hscopes⟩
  · obtain ⟨hwindows, hscopes⟩ := hindex ((purgedWindows d).sweepStuckPending now).1 rfl
    rw [purgedWindows, htombstones, hswept]
    refine ⟨fun w => ?_, hscopes⟩
    rw [Option.getD_some, hwindows, sweepStuckPending_spec, Option.map_map]
    congr 1
    funext win
    exact recovered_recovered hnow win

theorem rehydrateWindows_disk (d : Disk) (now : Int) (f : Faults) :
    ∃ blob, Rewritten d now f blob ∧
      (rehydrateWindows d now f).1 = { d with windows := blob } := by
  unfold rehydrateWindows Rewritten
  by_cases hload : f.windows = true
  · refine ⟨d.windows, .inl rfl, ?_⟩
    have hscopes : new.trackedScopes = [] := rfl
    have hnone : (purgeWindows d.tombstones new).sweepStuckPending now =
        (new, []) := rfl
    simp [loadWindows, hload, hnone, hscopes]
  · have hloaded : loadWindows d f = d.windows.getD new := by
      simp [loadWindows, hload]
    simp only [hloaded]
    split
    all_goals split
    · exact ⟨d.windows, .inl rfl, rfl⟩
    · exact ⟨_, .inr ⟨by simpa using hload, .inl rfl⟩, rfl⟩
    · exact ⟨_, .inr ⟨by simpa using hload, .inr rfl⟩, rfl⟩
    · exact ⟨_, .inr ⟨by simpa using hload, .inr rfl⟩, rfl⟩

end Windows

section Objects

def persistedObject (d : Disk) (s : ScopeId) (w : WindowId) : Option SynthesisObject :=
  (d.objects.lookup s).bind fun blob => (loadObjects s blob).lookup w

def objectAt (objects : Table ScopeId (Table WindowId SynthesisObject)) (s : ScopeId)
    (w : WindowId) : Option SynthesisObject :=
  (objects.lookup s).bind fun inner => inner.lookup w

-- A later object of the blob replaces an earlier one of the same window.
theorem lookup_loadObjects (s : ScopeId) (blob : List SynthesisObject) (w : WindowId) :
    (loadObjects s blob).lookup w =
      blob.reverse.find? fun o => o.scopeId = s && o.windowId = w := by
  have hinto : ∀ acc : Table WindowId SynthesisObject,
      (blob.foldl (fun inner o => if o.scopeId = s then inner.insert o.windowId o else inner)
        acc).lookup w =
      (blob.reverse.find? fun o => o.scopeId = s && o.windowId = w).or (acc.lookup w) := by
    induction blob with
    | nil => simp
    | cons o blob ih =>
      intro acc
      rw [List.foldl_cons, ih, List.reverse_cons, List.find?_append, Option.or_assoc]
      congr 1
      by_cases hscope : o.scopeId = s
      · by_cases hwindow : w = o.windowId
        · simp [hscope, hwindow, Table.lookup_insert_ite]
        · simp [hscope, hwindow, Ne.symm hwindow]
      · simp [hscope]
  rw [loadObjects, hinto]
  simp

theorem keyed_of_loadObjects {s : ScopeId} {blob : List SynthesisObject} {w : WindowId}
    {o : SynthesisObject} (h : (loadObjects s blob).lookup w = some o) :
    o.scopeId = s ∧ o.windowId = w := by
  rw [lookup_loadObjects] at h
  simpa using List.find?_some h

theorem loadObjects_values {s : ScopeId} {t : Table WindowId SynthesisObject}
    (hkeyed : ∀ w o, t.lookup w = some o → o.scopeId = s ∧ o.windowId = w) (w : WindowId) :
    (loadObjects s (t.rows.map Prod.snd)).lookup w = t.lookup w := by
  rw [lookup_loadObjects]
  have hmem : ∀ o, o ∈ (t.rows.map Prod.snd).reverse ↔ ∃ k, t.lookup k = some o := by
    simp [Table.mem_rows_iff]
  cases hfound : (t.rows.map Prod.snd).reverse.find? fun o => o.scopeId = s && o.windowId = w with
  | none =>
    cases hlookup : t.lookup w with
    | none => rfl
    | some o =>
      have hno := List.find?_eq_none.1 hfound o ((hmem o).2 ⟨w, hlookup⟩)
      simp [hkeyed w o hlookup] at hno
  | some o =>
    obtain ⟨k, hk⟩ := (hmem o).1 (List.mem_of_find?_eq_some hfound)
    have hpass := List.find?_some hfound
    simp only [Bool.and_eq_true, decide_eq_true_eq] at hpass
    rw [← hk, ← hpass.2, (hkeyed k o hk).2]

theorem lookup_rows_nonempty (o : Option (Table WindowId SynthesisObject)) (w : WindowId) :
    ((o.filter fun inner => !inner.rows.isEmpty).bind fun inner => inner.lookup w) =
      o.bind fun inner => inner.lookup w := by
  cases o with
  | none => rfl
  | some inner =>
    by_cases hempty : inner.rows = []
    · have hnone : inner.lookup w = none := by
        rw [Option.eq_none_iff_forall_ne_some]
        intro o ho
        have hrow := Table.mem_rows_iff.2 ho
        simp [hempty] at hrow
      simp [hempty, hnone]
    · simp [Option.filter, hempty]

theorem rehydrateObjects_loaded (d : Disk) (m : WindowManager) (f : Faults) (s : ScopeId)
    (w : WindowId) :
    objectAt (rehydrateObjects d m f).2 s w =
      if s ∉ d.tombstones ∧ f.objects s = false ∧ m.windows.lookup w ≠ none then
        persistedObject d s w
      else none := by
  simp only [objectAt, rehydrateObjects, Table.lookup_filter _ (Table.mapValues _ _),
    lookup_rows_nonempty, Table.lookup_mapValues, Table.lookup_filter_key, persistedObject]
  by_cases hread : s ∉ d.tombstones ∧ f.objects s = false
  · cases d.objects.lookup s with
    | none => simp
    | some blob => cases hw : m.windows.lookup w <;> simp [hread, hw, Table.lookup_filter_key]
  · have hskip : (!d.tombstones.contains s && !f.objects s) = false := by
      by_cases hs : s ∈ d.tombstones <;> simp_all
    have hno : ¬(s ∉ d.tombstones ∧ f.objects s = false ∧ m.windows.lookup w ≠ none) :=
      fun h => hread ⟨h.1, h.2.1⟩
    rw [hskip, if_neg hno]
    simp

theorem loadObjects_cleaned (m : WindowManager) (s : ScopeId) (blob : List SynthesisObject)
    (w : WindowId) :
    (loadObjects s (((loadObjects s blob).filter fun id _ =>
      (m.windows.lookup id).isSome).rows.map Prod.snd)).lookup w =
      if m.windows.lookup w = none then none else (loadObjects s blob).lookup w := by
  rw [loadObjects_values, Table.lookup_filter_key]
  · cases m.windows.lookup w <;> simp
  · intro w o h
    rw [Table.lookup_filter_eq_some] at h
    exact keyed_of_loadObjects h.1

theorem rehydrateObjects_persisted (d : Disk) (m : WindowManager) (f : Faults) (s : ScopeId)
    (w : WindowId) :
    persistedObject (rehydrateObjects d m f).1 s w =
      if s ∉ d.tombstones ∧ f.objects s = false ∧ f.saveObjects s = false ∧
        m.windows.lookup w = none then none
      else persistedObject d s w := by
  simp only [persistedObject, rehydrateObjects, Table.lookup_mapValues, Table.lookup_filter_key]
  cases hblob : d.objects.lookup s with
  | none => simp
  | some blob =>
    by_cases hread : s ∉ d.tombstones ∧ f.objects s = false
    · obtain ⟨hs, hload⟩ := hread
      have hlive : d.tombstones.contains s = false := by simpa using hs
      simp only [hs, hlive, hload, not_false_eq_true, Bool.not_false, Bool.and_self,
        ↓reduceIte, Option.map_some, Option.any_some, Option.bind_some, true_and]
      by_cases hsave : f.saveObjects s = true
      · simp [hsave]
      · by_cases hany : (loadObjects s blob).any (fun id _ => (m.windows.lookup id).isNone) = true
        · simp [hsave, hany, loadObjects_cleaned]
        · have hall : m.windows.lookup w = none → (loadObjects s blob).lookup w = none := by
            intro hw
            rw [Option.eq_none_iff_forall_ne_some]
            exact fun o ho => hany (Table.any_eq_true.2 ⟨w, o, ho, by simp [hw]⟩)
          simp only [hany, Bool.false_and, Bool.false_eq_true, ↓reduceIte]
          split
          · rename_i h
            exact hall h.2
          · rfl
    · have hskip : (!d.tombstones.contains s && !f.objects s) = false := by
        by_cases hs : s ∈ d.tombstones <;> simp_all
      have hno : ¬(s ∉ d.tombstones ∧ f.objects s = false ∧ f.saveObjects s = false ∧
          m.windows.lookup w = none) := fun h => hread ⟨h.1, h.2.1⟩
      rw [hskip, if_neg hno]
      simp

end Objects

section Spec

def PersistedDoc (d : Disk) (s : ScopeId) (doc : Uuid) : Prop :=
  ∃ tmo, d.tenants.lookup s = some tmo ∧ ∃ a ∈ tmo.approvedDocuments, a.id = doc

theorem sweepPayloads_disk (d : Disk) (tenants : Table ScopeId TenantMemoryObject) (f : Faults)
    (hkeyed : ∀ s tmo, tenants.lookup s = some tmo → tmo.scopeId = s) :
    ∃ rows, sweepPayloads d tenants f = { d with payloads := rows } ∧
      ∀ s doc row, rows.lookup (s, doc) = some row ↔ d.payloads.lookup (s, doc) = some row ∧
        (f.listPayloads = true ∨ f.deletePayload s doc = true ∨
          ∃ tmo, tenants.lookup s = some tmo ∧ ∃ a ∈ tmo.approvedDocuments, a.id = doc) := by
  unfold sweepPayloads
  by_cases hlist : f.listPayloads = true
  · exact ⟨d.payloads, by simp [hlist], by simp [hlist]⟩
  · refine ⟨_, if_neg hlist, fun s doc row => ?_⟩
    have hvalid : (tenants.any fun _ tmo => decide (tmo.scopeId = s) &&
        tmo.approvedDocuments.any fun a => decide (a.id = doc)) = true ↔
        ∃ tmo, tenants.lookup s = some tmo ∧ ∃ a ∈ tmo.approvedDocuments, a.id = doc := by
      simp only [Table.any_eq_true, Bool.and_eq_true, decide_eq_true_eq, List.any_eq_true]
      constructor
      · rintro ⟨k, tmo, hlookup, hscope, hdoc⟩
        rw [← hscope, hkeyed k tmo hlookup]
        exact ⟨tmo, hlookup, hdoc⟩
      · rintro ⟨tmo, hlookup, hdoc⟩
        exact ⟨s, tmo, hlookup, hkeyed s tmo hlookup, hdoc⟩
    rw [Table.lookup_filter_eq_some, Bool.or_eq_true, hvalid]
    simp only [hlist, Bool.false_eq_true, false_or]
    exact and_congr_right fun _ => or_comm

theorem sweepVersions_disk (d : Disk) (objects : Table ScopeId (Table WindowId SynthesisObject))
    (f : Faults) :
    ∃ rows, sweepVersions d objects f = { d with versions := rows } ∧
      ∀ s w v row, rows.lookup (s, w, v) = some row ↔ d.versions.lookup (s, w, v) = some row ∧
        (f.listVersions = true ∨ f.deleteVersions s w = true ∨ objectAt objects s w ≠ none) := by
  unfold sweepVersions
  by_cases hlist : f.listVersions = true
  · exact ⟨d.versions, by simp [hlist], by simp [hlist]⟩
  · refine ⟨_, if_neg hlist, fun s w v row => ?_⟩
    have hvalid : ((objects.lookup s).any fun inner => (inner.lookup w).isSome) = true ↔
        objectAt objects s w ≠ none := by
      cases h : objects.lookup s <;> simp [objectAt, h, Option.isSome_iff_ne_none]
    rw [Table.lookup_filter_eq_some, Bool.or_eq_true, hvalid]
    simp only [hlist, Bool.false_eq_true, false_or]
    exact and_congr_right fun _ => or_comm

/-- What one open makes of a disk, up to the order of the rows. -/
structure Opened (d : Disk) (now : Int) (f : Faults) (out : Disk × Rehydrated) : Prop where
  tombstones : out.1.tombstones = d.tombstones
  tenants : ∀ s, out.1.tenants.lookup s = if s ∉ d.tombstones then d.tenants.lookup s else none
  tenantsRead : ∀ s, out.2.tenants.lookup s =
    if s ∉ d.tombstones ∧ f.tenant s = false then d.tenants.lookup s else none
  windows : Rewritten d now f out.1.windows
  windowsRead : out.2.windows =
    ((purgeWindows d.tombstones (loadWindows d f)).sweepStuckPending now).1
  objects : ∀ s w, persistedObject out.1 s w =
    if s ∉ d.tombstones ∧ (f.objects s = true ∨ f.saveObjects s = true ∨
      out.2.windows.windows.lookup w ≠ none) then persistedObject d s w else none
  objectsRead : ∀ s w, objectAt out.2.objects s w =
    if s ∉ d.tombstones ∧ f.objects s = false ∧ out.2.windows.windows.lookup w ≠ none then
      persistedObject d s w
    else none
  payloads : ∀ s doc row, out.1.payloads.lookup (s, doc) = some row ↔
    d.payloads.lookup (s, doc) = some row ∧ (f.listPayloads = true ∨ f.deletePayload s doc = true ∨
      s ∉ d.tombstones ∧ f.tenant s = false ∧ PersistedDoc d s doc)
  versions : ∀ s w v row, out.1.versions.lookup (s, w, v) = some row ↔
    d.versions.lookup (s, w, v) = some row ∧ (f.listVersions = true ∨ f.deleteVersions s w = true ∨
      objectAt out.2.objects s w ≠ none)

theorem purgeBlobs_tenants (d : Disk) (s : ScopeId) :
    (purgeBlobs d).tenants.lookup s =
      if s ∉ d.tombstones then d.tenants.lookup s else none := by
  simp [purgeBlobs, Table.lookup_filter_key]

theorem persistedObject_purgeBlobs (d : Disk) (s : ScopeId) (w : WindowId) :
    persistedObject (purgeBlobs d) s w =
      if s ∉ d.tombstones then persistedObject d s w else none := by
  simp only [persistedObject, purgeBlobs, Table.lookup_filter_key]
  by_cases hs : s ∈ d.tombstones <;> simp [hs]

theorem rehydrateTenants_lookup (d : Disk) (f : Faults) (s : ScopeId) :
    (rehydrateTenants (purgeBlobs d) f).lookup s =
      if s ∉ d.tombstones ∧ f.tenant s = false then d.tenants.lookup s else none := by
  simp only [rehydrateTenants, Table.lookup_filter_key, purgeBlobs_tenants]
  by_cases hs : s ∈ d.tombstones <;> cases f.tenant s <;> simp [purgeBlobs, hs]

section

variable (d : Disk) (now : Int) (f : Faults)

theorem rehydrateWindows_frame :
    (rehydrateWindows (purgeBlobs d) now f).1.tombstones = d.tombstones ∧
    ∀ s w, persistedObject (rehydrateWindows (purgeBlobs d) now f).1 s w =
      if s ∉ d.tombstones then persistedObject d s w else none := by
  obtain ⟨blob, -, hdisk⟩ := rehydrateWindows_disk (purgeBlobs d) now f
  rw [hdisk]
  exact ⟨rfl, persistedObject_purgeBlobs d⟩

theorem persistedObject_rehydrate (s : ScopeId) (w : WindowId) :
    persistedObject (rehydrate d now f).1 s w =
      if s ∉ d.tombstones ∧ (f.objects s = true ∨ f.saveObjects s = true ∨
        (rehydrate d now f).2.windows.windows.lookup w ≠ none) then persistedObject d s w
      else none := by
  obtain ⟨htombstones, hobjects⟩ := rehydrateWindows_frame d now f
  simp only [rehydrate, rehydrateObjects_persisted, hobjects, htombstones]
  by_cases hs : s ∈ d.tombstones
  · simp [hs]
  · cases f.objects s <;> cases f.saveObjects s <;> simp [hs, ite_not]

theorem objectAt_rehydrate (s : ScopeId) (w : WindowId) :
    objectAt (rehydrate d now f).2.objects s w =
      if s ∉ d.tombstones ∧ f.objects s = false ∧
        (rehydrate d now f).2.windows.windows.lookup w ≠ none then persistedObject d s w
      else none := by
  obtain ⟨htombstones, hobjects⟩ := rehydrateWindows_frame d now f
  simp only [rehydrate, rehydrateObjects_loaded, hobjects, htombstones]
  by_cases hs : s ∈ d.tombstones <;> simp [hs]

theorem rehydrate_tenants :
    (rehydrate d now f).2.tenants = rehydrateTenants (purgeBlobs d) f := rfl

end

theorem persistedObject_congr {d d' : Disk} (h : d'.objects = d.objects) (s : ScopeId)
    (w : WindowId) : persistedObject d' s w = persistedObject d s w := by
  rw [persistedObject, persistedObject, h]

theorem openStore_opened {d : Disk} (now : Int) (f : Faults)
    (hsentinel : synthesisWindowsScope ∉ d.tombstones)
    (hkeyed : ∀ s tmo, d.tenants.lookup s = some tmo → tmo.scopeId = s) :
    Opened d now f (openStore d now f) := by
  have hwindows : (purgeBlobs d).windows = d.windows := by simp [purgeBlobs, hsentinel]
  obtain ⟨blob, hblob, hdisk⟩ := rehydrateWindows_disk (purgeBlobs d) now f
  have hrehydrate : (rehydrate d now f).1 =
      { purgeBlobs d with windows := blob, objects := (rehydrate d now f).1.objects } := by
    conv_lhs => rw [rehydrate, rehydrateObjects, hdisk]
    simp only [rehydrate, rehydrateObjects, hdisk]
  have htenants : ∀ s tmo, (rehydrate d now f).2.tenants.lookup s = some tmo →
      tmo.scopeId = s := by
    intro s tmo h
    have h := (rehydrateTenants_lookup d f s).symm.trans h
    split at h
    · exact hkeyed s tmo h
    · simp at h
  obtain ⟨payloads, hpayloads, hpayload⟩ :=
    sweepPayloads_disk (rehydrate d now f).1 (rehydrate d now f).2.tenants f htenants
  obtain ⟨versions, hversions, hversion⟩ :=
    sweepVersions_disk { (rehydrate d now f).1 with payloads } (rehydrate d now f).2.objects f
  have hout : openStore d now f =
      ({ (rehydrate d now f).1 with payloads, versions }, (rehydrate d now f).2) := by
    rw [openStore, hpayloads, hversions]
  rw [hout]
  refine ⟨?_, ?_, fun s => ?_, ?_, ?_, fun s w => ?_, objectAt_rehydrate d now f,
    fun s doc row => ?_, fun s w v row => ?_⟩
  · rw [hrehydrate]
    rfl
  · rw [hrehydrate]
    exact purgeBlobs_tenants d
  · rw [rehydrate_tenants]
    exact rehydrateTenants_lookup d f s
  · rw [hrehydrate]
    rw [Rewritten, purgedWindows, hwindows] at hblob
    exact hblob
  · have hloaded : loadWindows (purgeBlobs d) f = loadWindows d f := by
      rw [loadWindows, hwindows, loadWindows]
    rw [← hloaded]
    rfl
  · rw [← persistedObject_rehydrate d now f s w]
    exact persistedObject_congr rfl s w
  · have hdoc : (∃ tmo, (rehydrate d now f).2.tenants.lookup s = some tmo ∧
        ∃ a ∈ tmo.approvedDocuments, a.id = doc) ↔
        s ∉ d.tombstones ∧ f.tenant s = false ∧ PersistedDoc d s doc := by
      have hread : (rehydrate d now f).2.tenants.lookup s = _ := rehydrateTenants_lookup d f s
      by_cases h : s ∉ d.tombstones ∧ f.tenant s = false
      · simp [hread, h, PersistedDoc]
      · simp only [hread, if_neg h]
        simp only [reduceCtorEq, false_and, exists_false, false_iff]
        exact fun hdoc => h ⟨hdoc.1, hdoc.2.1⟩
    rw [hpayload, hdoc, hrehydrate]
    rfl
  · rw [hversion, hrehydrate]
    rfl

end Spec

end Knowledge.Runtime
