import Knowledge.Runtime.Rehydrate

/-!
What an open may take from the disk: rows of forgotten scopes, and rows that are orphans on the
disk itself. The sweeps ask the maps in memory instead, which are empty where a blob did not load.
-/

set_option autoImplicit false

namespace Knowledge.Runtime
open Knowledge.Sync (Uuid)
open Knowledge.Memory (ScopeId)
open Knowledge.Synthesis (WindowId SynthesisObject)

section Sparing

def persistedWindow (d : Disk) (w : WindowId) : Option StoredWindow :=
  (d.windows.getD WindowManager.new).windows.lookup w

/-- What completed operations leave on disk: `forget` refuses the nil scope, a memory is stored
under its own scope, and windows are indexed and written for the scope they belong to. -/
structure Consistent (d : Disk) : Prop where
  sentinel : synthesisWindowsScope ∉ d.tombstones
  tenants : ∀ s tmo, d.tenants.lookup s = some tmo → tmo.scopeId = s
  index : ∀ s w win, w ∈ ((d.windows.getD WindowManager.new).byScope.lookup s).getD [] →
    persistedWindow d w = some win → win.scopeId = s
  objects : ∀ s w o win, persistedObject d s w = some o → persistedWindow d w = some win →
    win.scopeId = s

/-- Only rows of forgotten scopes and rows that are orphans on `d` are gone in `d'`. A stuck
window of a live scope may have been failed. -/
structure Spares (now : Int) (d d' : Disk) : Prop where
  windows : ∀ w win, persistedWindow d w = some win → win.scopeId ∉ d.tombstones →
    persistedWindow d' w = some win ∨ persistedWindow d' w = some (win.recovered now)
  tenants : ∀ s, s ∉ d.tombstones → d'.tenants.lookup s = d.tenants.lookup s
  objects : ∀ s w o, s ∉ d.tombstones → persistedObject d s w = some o →
    persistedWindow d w ≠ none → persistedObject d' s w = some o
  payloads : ∀ s doc row, s ∉ d.tombstones → d.payloads.lookup (s, doc) = some row →
    PersistedDoc d s doc → d'.payloads.lookup (s, doc) = some row
  versions : ∀ s w v row, s ∉ d.tombstones → d.versions.lookup (s, w, v) = some row →
    persistedObject d s w ≠ none → d'.versions.lookup (s, w, v) = some row

structure SameYield (a b : Disk × Rehydrated) : Prop where
  windows : ∀ w, a.2.windows.windows.lookup w = b.2.windows.windows.lookup w
  byScope : ∀ s, a.2.windows.byScope.lookup s = b.2.windows.byScope.lookup s
  tenants : ∀ s, a.2.tenants.lookup s = b.2.tenants.lookup s
  objects : ∀ s w, objectAt a.2.objects s w = objectAt b.2.objects s w
  payloads : ∀ s doc, a.1.payloads.lookup (s, doc) = b.1.payloads.lookup (s, doc)
  versions : ∀ s w v, a.1.versions.lookup (s, w, v) = b.1.versions.lookup (s, w, v)

/-- No row that is not an orphan depends on a blob that does not load, unless the sweep that
would take it fails too; and no version outlives the window of its object. -/
structure Harmless (d : Disk) (f : Faults) : Prop where
  objects : ∀ s w, s ∉ d.tombstones → persistedObject d s w ≠ none → persistedWindow d w ≠ none →
    f.windows = true → f.objects s = true ∨ f.saveObjects s = true
  payloads : ∀ s doc, s ∉ d.tombstones → d.payloads.lookup (s, doc) ≠ none → PersistedDoc d s doc →
    f.tenant s = true → f.listPayloads = true ∨ f.deletePayload s doc = true
  versions : ∀ s w v, s ∉ d.tombstones → d.versions.lookup (s, w, v) ≠ none →
    persistedObject d s w ≠ none →
    f.windows = true ∨ f.objects s = true ∨ persistedWindow d w = none →
    f.listVersions = true ∨ f.deleteVersions s w = true

variable {d : Disk} {now later : Int} {f : Faults} {out : Disk × Rehydrated}

theorem Consistent.purged_of_live (h : Consistent d) {w : WindowId} {win : StoredWindow}
    (hwin : persistedWindow d w = some win) (hlive : win.scopeId ∉ d.tombstones) :
    (purgedWindows d).windows.lookup w = some win := by
  have hkept : ¬Forgotten d.tombstones (d.windows.getD WindowManager.new) w := by
    rintro ⟨t, ht, hmem⟩
    exact hlive (h.index t w win hmem hwin ▸ ht)
  rw [purgedWindows_lookup, if_neg hkept]
  exact hwin

theorem Consistent.opened (h : Consistent d) (now : Int) (f : Faults) :
    Opened d now f (openStore d now f) :=
  openStore_opened now f h.sentinel h.tenants

theorem Opened.windowsRead_lookup (h : Opened d now f out) (w : WindowId) :
    out.2.windows.windows.lookup w = if f.windows then none
      else ((purgedWindows d).windows.lookup w).map fun win => win.recovered now := by
  rw [h.windowsRead, sweepStuckPending_spec, loadWindows, purgedWindows]
  split
  · rfl
  · rfl

theorem Opened.windowsRead_ne_none (h : Opened d now f out) {w : WindowId} :
    out.2.windows.windows.lookup w ≠ none ↔
      f.windows = false ∧ (purgedWindows d).windows.lookup w ≠ none := by
  rw [h.windowsRead_lookup]
  cases f.windows <;> simp

theorem persistedWindow_of_purged {w : WindowId}
    (h : (purgedWindows d).windows.lookup w ≠ none) : persistedWindow d w ≠ none := by
  rw [purgedWindows_lookup] at h
  split at h
  · exact absurd rfl h
  · exact h

theorem Opened.window_of_object (h : Opened d now f out) (hd : Consistent d)
    (hload : f.windows = false) {s : ScopeId} {w : WindowId} (hs : s ∉ d.tombstones)
    (hobj : persistedObject d s w ≠ none) (hwin : persistedWindow d w ≠ none) :
    out.2.windows.windows.lookup w ≠ none := by
  obtain ⟨o, hobj⟩ := Option.ne_none_iff_exists'.1 hobj
  obtain ⟨win, hwin⟩ := Option.ne_none_iff_exists'.1 hwin
  have hscope : win.scopeId = s := hd.objects s w o win hobj hwin
  exact h.windowsRead_ne_none.2 ⟨hload, by simp [hd.purged_of_live hwin (hscope ▸ hs)]⟩

theorem Rewritten.spares (hd : Consistent d) {d' : Disk} (h : Rewritten d now f d'.windows)
    {w : WindowId} {win : StoredWindow} (hwin : persistedWindow d w = some win)
    (hlive : win.scopeId ∉ d.tombstones) :
    persistedWindow d' w = some win ∨ persistedWindow d' w = some (win.recovered now) := by
  rcases h with hsame | ⟨-, hpurged | hswept⟩
  · left
    rw [persistedWindow, hsame]
    exact hwin
  · left
    rw [persistedWindow, hpurged]
    exact hd.purged_of_live hwin hlive
  · right
    rw [persistedWindow, hswept, Option.getD_some, sweepStuckPending_spec,
      hd.purged_of_live hwin hlive]
    rfl

theorem Opened.spares (h : Opened d now f out) (hd : Consistent d) (hf : Harmless d f) :
    Spares now d out.1 := by
  refine ⟨fun w win hwin hlive => h.windows.spares hd hwin hlive, fun s hs => ?_,
    fun s w o hs hobj hwin => ?_, fun s doc row hs hrow hdoc => ?_,
    fun s w v row hs hrow hobj => ?_⟩
  · rw [h.tenants, if_pos hs]
  · have hne : persistedObject d s w ≠ none := by simp [hobj]
    rw [h.objects, if_pos, hobj]
    refine ⟨hs, ?_⟩
    by_cases hload : f.windows = true
    · have hkept := hf.objects s w hs hne hwin hload
      tauto
    · have hread := h.window_of_object hd (by simpa using hload) hs hne hwin
      tauto
  · rw [h.payloads]
    refine ⟨hrow, ?_⟩
    by_cases hload : f.tenant s = true
    · have hkept := hf.payloads s doc hs (by simp [hrow]) hdoc hload
      tauto
    · exact .inr (.inr ⟨hs, by simpa using hload, hdoc⟩)
  · rw [h.versions]
    refine ⟨hrow, ?_⟩
    by_cases hlost : f.windows = true ∨ f.objects s = true ∨ persistedWindow d w = none
    · have hkept := hf.versions s w v hs (by simp [hrow]) hobj hlost
      tauto
    · simp only [not_or, Bool.not_eq_true] at hlost
      obtain ⟨hwindows, hobjects, hwin⟩ := hlost
      have hread := h.window_of_object hd hwindows hs hobj hwin
      rw [h.objectsRead, if_pos ⟨hs, hobjects, hread⟩]
      exact .inr (.inr hobj)

theorem Opened.harmless (h : Opened d now f out) (hspares : Spares now d out.1) :
    Harmless d f := by
  refine ⟨fun s w hs hobj hwin hload => ?_, fun s doc hs hrow hdoc hload => ?_,
    fun s w v hs hrow hobj hlost => ?_⟩
  · obtain ⟨o, hobj⟩ := Option.ne_none_iff_exists'.1 hobj
    have hkept := hspares.objects s w o hs hobj hwin
    rw [h.objects] at hkept
    split at hkept
    · rename_i hcond
      rw [h.windowsRead_lookup, hload] at hcond
      simpa using hcond.2
    · simp at hkept
  · obtain ⟨row, hrow⟩ := Option.ne_none_iff_exists'.1 hrow
    have hkept := ((h.payloads s doc row).1 (hspares.payloads s doc row hs hrow hdoc)).2
    simpa [hload] using hkept
  · obtain ⟨row, hrow⟩ := Option.ne_none_iff_exists'.1 hrow
    have hkept := ((h.versions s w v row).1 (hspares.versions s w v row hs hrow hobj)).2
    have hgone : objectAt out.2.objects s w = none := by
      rw [h.objectsRead, if_neg]
      rintro ⟨-, hobjects, hread⟩
      obtain ⟨hwindows, hpurged⟩ := h.windowsRead_ne_none.1 hread
      have hwin := persistedWindow_of_purged hpurged
      simp [hwindows, hobjects, hwin] at hlost
    simpa [hgone] using hkept

theorem Opened.persistedDoc (h : Opened d now f out) {s : ScopeId} (hs : s ∉ d.tombstones)
    {doc : Uuid} : PersistedDoc out.1 s doc ↔ PersistedDoc d s doc := by
  rw [PersistedDoc, h.tenants, if_pos hs, PersistedDoc]

variable {again once : Disk × Rehydrated}

theorem Opened.sameWindows (h : Opened d now f out) (hnow : now ≤ later)
    (hagain : Opened out.1 later Faults.none again) (honce : Opened d later Faults.none once) :
    (∀ w, again.2.windows.windows.lookup w = once.2.windows.windows.lookup w) ∧
    ∀ s, again.2.windows.byScope.lookup s = once.2.windows.byScope.lookup s := by
  obtain ⟨hwindows, hscopes⟩ := h.windows.reopened h.tombstones hnow
  refine ⟨fun w => ?_, fun s => ?_⟩
  · rw [hagain.windowsRead_lookup, honce.windowsRead_lookup]
    exact hwindows w
  · rw [hagain.windowsRead, honce.windowsRead]
    exact hscopes s

theorem Opened.sameObjects (h : Opened d now f out) (hf : Harmless d f) (hnow : now ≤ later)
    (hagain : Opened out.1 later Faults.none again) (honce : Opened d later Faults.none once)
    (s : ScopeId) (w : WindowId) :
    objectAt again.2.objects s w = objectAt once.2.objects s w := by
  rw [hagain.objectsRead, honce.objectsRead, h.tombstones, (h.sameWindows hnow hagain honce).1 w]
  split
  · rename_i hcond
    obtain ⟨hs, -, hread⟩ := hcond
    have hpurged := (honce.windowsRead_ne_none.1 hread).2
    rw [h.objects]
    by_cases hobj : persistedObject d s w = none
    · simp [hobj]
    · refine if_pos ⟨hs, ?_⟩
      by_cases hload : f.windows = true
      · have hkept := hf.objects s w hs hobj (persistedWindow_of_purged hpurged) hload
        tauto
      · exact .inr (.inr (h.windowsRead_ne_none.2 ⟨by simpa using hload, hpurged⟩))
  · rfl

theorem Opened.samePayloads (h : Opened d now f out) (hspares : Spares now d out.1)
    (hagain : Opened out.1 later Faults.none again) (honce : Opened d later Faults.none once)
    (s : ScopeId) (doc : Uuid) :
    again.1.payloads.lookup (s, doc) = once.1.payloads.lookup (s, doc) := by
  refine Option.ext fun row => ?_
  rw [hagain.payloads, honce.payloads, h.tombstones]
  simp only [Faults.none, Bool.false_eq_true, false_or, true_and]
  constructor
  · rintro ⟨hrow, hs, hdoc⟩
    exact ⟨((h.payloads s doc row).1 hrow).1, hs, (h.persistedDoc hs).1 hdoc⟩
  · rintro ⟨hrow, hs, hdoc⟩
    exact ⟨hspares.payloads s doc row hs hrow hdoc, hs, (h.persistedDoc hs).2 hdoc⟩

theorem Opened.sameVersions (h : Opened d now f out) (hf : Harmless d f)
    (hspares : Spares now d out.1) (hnow : now ≤ later)
    (hagain : Opened out.1 later Faults.none again) (honce : Opened d later Faults.none once)
    (s : ScopeId) (w : WindowId) (v : Nat) :
    again.1.versions.lookup (s, w, v) = once.1.versions.lookup (s, w, v) := by
  refine Option.ext fun row => ?_
  rw [hagain.versions, honce.versions, h.sameObjects hf hnow hagain honce]
  simp only [Faults.none, Bool.false_eq_true, false_or]
  constructor
  · rintro ⟨hrow, hobj⟩
    exact ⟨((h.versions s w v row).1 hrow).1, hobj⟩
  · rintro ⟨hrow, hobj⟩
    have hread := hobj
    rw [honce.objectsRead] at hread
    split at hread
    · rename_i hcond
      exact ⟨hspares.versions s w v row hcond.1 hrow hread, hobj⟩
    · exact absurd rfl hread

theorem Opened.sameYield (h : Opened d now f out) (hf : Harmless d f)
    (hspares : Spares now d out.1) (hnow : now ≤ later)
    (hagain : Opened out.1 later Faults.none again) (honce : Opened d later Faults.none once) :
    SameYield again once := by
  obtain ⟨hwindows, hscopes⟩ := h.sameWindows hnow hagain honce
  refine ⟨hwindows, hscopes, fun s => ?_, h.sameObjects hf hnow hagain honce,
    h.samePayloads hspares hagain honce, h.sameVersions hf hspares hnow hagain honce⟩
  rw [hagain.tenantsRead, honce.tenantsRead, h.tombstones, h.tenants]
  by_cases hs : s ∈ d.tombstones <;> simp [hs]

/-- An open takes nothing but forgotten scopes and orphans, and the next one gives what it would
have given without it, exactly when no row that is not an orphan hangs on a blob that failed. -/
theorem open_spares_iff (hd : Consistent d) (f : Faults) (hnow : now ≤ later) :
    Spares now d (openStore d now f).1 ∧
      SameYield (openStore (openStore d now f).1 later Faults.none)
        (openStore d later Faults.none) ↔
    Harmless d f := by
  have hopened := hd.opened now f
  constructor
  · rintro ⟨hspares, -⟩
    exact hopened.harmless hspares
  · intro hf
    have hspares := hopened.spares hd hf
    have hagain : Opened (openStore d now f).1 later Faults.none
        (openStore (openStore d now f).1 later Faults.none) := by
      apply openStore_opened
      · rw [hopened.tombstones]
        exact hd.sentinel
      · intro s tmo htmo
        rw [hopened.tenants] at htmo
        split at htmo
        · exact hd.tenants s tmo htmo
        · simp at htmo
    exact ⟨hspares, hopened.sameYield hf hspares hnow hagain (hd.opened later Faults.none)⟩

end Sparing

section Example

def recap : SynthesisObject := ⟨40, 1, 7, .channelRecap, [1]⟩

/-- One scope with a window, its object, an earlier version of it, and an approved document. -/
def oneScope : Disk where
  tombstones := []
  windows := some
    ⟨(∅ : Table WindowId StoredWindow).insert 7 ⟨⟨7, 1, 0, 10, .complete, none⟩, none⟩,
      (∅ : Table ScopeId (List WindowId)).insert 1 [7]⟩
  tenants := (∅ : Table ScopeId TenantMemoryObject).insert 1 ⟨1, [⟨3, "policy", 0, "admin"⟩]⟩
  objects := (∅ : Table ScopeId (List SynthesisObject)).insert 1 [recap]
  payloads := (∅ : Table (ScopeId × Uuid) (List UInt8)).insert (1, 3) [9]
  versions := (∅ : Table (ScopeId × WindowId × Nat) SynthesisObject).insert (1, 7, 1) recap

def unreadWindows : Faults := { Faults.none with windows := true }

def unreadObjects (scope : ScopeId) : Faults := { Faults.none with objects := fun s => s = scope }

theorem persistedObject_oneScope (s : ScopeId) (w : WindowId) :
    persistedObject oneScope s w = if s = 1 ∧ w = 7 then some recap else none := by
  simp only [persistedObject, oneScope, Table.lookup_insert_ite, lookup_loadObjects]
  by_cases hs : s = 1
  · by_cases hw : w = 7 <;> simp [hs, hw, recap, eq_comm]
  · have hno : ¬(s = 1 ∧ w = 7) := fun h => hs h.1
    rw [if_neg hs, if_neg hno]
    rfl

theorem persistedWindow_oneScope {w : WindowId} {win : StoredWindow}
    (h : persistedWindow oneScope w = some win) : w = 7 ∧ win.scopeId = 1 := by
  simp only [persistedWindow, oneScope, Option.getD_some, Table.lookup_insert_ite] at h
  split at h
  · rename_i hw
    exact ⟨hw, by simp [← Option.some.inj h]⟩
  · simp at h

theorem consistent_oneScope : Consistent oneScope := by
  refine ⟨by simp [oneScope], ?_, ?_, ?_⟩
  · intro s tmo h
    simp only [oneScope, Table.lookup_insert_ite] at h
    split at h
    · rename_i hs
      simp [← Option.some.inj h, hs]
    · simp at h
  · intro s w win hmem hwin
    by_cases hs : s = 1
    · rw [hs, (persistedWindow_oneScope hwin).2]
    · simp only [oneScope, Option.getD_some, Table.lookup_insert_ite, if_neg hs] at hmem
      simp at hmem
  · intro s w o win hobj hwin
    rw [persistedObject_oneScope] at hobj
    split at hobj
    · rename_i hcond
      rw [hcond.1, (persistedWindow_oneScope hwin).2]
    · simp at hobj

/-- Another scope's objects do not load: nothing of this one hangs on them. -/
theorem open_spares_one_scope :
    Spares 5 oneScope (openStore oneScope 5 (unreadObjects 2)).1 ∧
    SameYield (openStore (openStore oneScope 5 (unreadObjects 2)).1 6 Faults.none)
      (openStore oneScope 6 Faults.none) := by
  refine (open_spares_iff consistent_oneScope _ (by decide)).2 ⟨?_, ?_, ?_⟩
  · simp [unreadObjects, Faults.none]
  · simp [unreadObjects, Faults.none]
  · intro s w v hs hrow hobj hlost
    rw [persistedObject_oneScope] at hobj
    have hcond : s = 1 ∧ w = 7 := by
      by_contra h
      exact hobj (if_neg h)
    rw [hcond.1, hcond.2] at hlost
    have hread : ¬(unreadObjects 2).objects 1 = true := by decide
    have hwin : persistedWindow oneScope 7 ≠ none := by decide +kernel
    rcases hlost with hlost | hlost | hlost
    · cases hlost
    · exact absurd hlost hread
    · exact absurd hlost hwin

/-- The window blob does not load once: the object is gone for good, and so is its history. -/
theorem unread_windows_lose_objects :
    Consistent oneScope ∧ ¬Spares 5 oneScope (openStore oneScope 5 unreadWindows).1 ∧
    ¬SameYield (openStore (openStore oneScope 5 unreadWindows).1 6 Faults.none)
      (openStore oneScope 6 Faults.none) := by
  refine ⟨consistent_oneScope, fun h => ?_, fun h => ?_⟩
  · have hkept := h.versions 1 7 1 recap (by decide) (by decide +kernel) (by decide +kernel)
    have hgone : (openStore oneScope 5 unreadWindows).1.versions.lookup (1, 7, 1) = none := by
      decide +kernel
    rw [hgone] at hkept
    cases hkept
  · have hsame := h.objects 1 7
    have hagain : objectAt (openStore (openStore oneScope 5 unreadWindows).1 6
        Faults.none).2.objects 1 7 = none := by decide +kernel
    have honce : objectAt (openStore oneScope 6 Faults.none).2.objects 1 7 = some recap := by
      decide +kernel
    rw [hagain, honce] at hsame
    cases hsame

end Example

end Knowledge.Runtime
