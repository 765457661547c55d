import Knowledge.Runtime.Forget

/-!
`SynthesisWindowManager` of `crates/synthesis_pipeline/src/window.rs` over whole runs: when the
per-scope index and the windows agree, and which windows the sweep for stuck ones fails.
-/

set_option autoImplicit false

namespace Knowledge.Synthesis.Windows
open Knowledge.Memory (ScopeId)
open Knowledge.Runtime (StoredWindow WindowManager lookup_foldl_erase)
open Knowledge.Transition

def stamp (id : WindowId) (scopeId : ScopeId) (windowStart windowEnd now : Int) :
    Except PipelineError StoredWindow :=
  match SynthesisWindow.new id scopeId windowStart windowEnd with
  | .error err => .error err
  | .ok window => .ok ⟨window, some now⟩

def openWindow (m : WindowManager) (id : WindowId) (scopeId : ScopeId)
    (windowStart windowEnd now : Int) : WindowManager × Except PipelineError WindowId :=
  match stamp id scopeId windowStart windowEnd now with
  | .error err => (m, .error err)
  | .ok window =>
    (⟨m.windows.insert id window,
      m.byScope.insert scopeId ((m.byScope.lookup scopeId).getD [] ++ [id])⟩, .ok id)

def setTier (m : WindowManager) (id : WindowId) (tier : WindowScopeTier) :
    WindowManager × Except PipelineError Unit :=
  match m.windows.lookup id with
  | none => (m, .error (.windowNotFound id))
  | some w => ({ m with windows := m.windows.insert id { w with tier := some tier } }, .ok ())

def openTieredWindow (m : WindowManager) (id : WindowId) (scopeId : ScopeId)
    (tier : WindowScopeTier) (windowStart windowEnd now : Int) :
    WindowManager × Except PipelineError TieredWindowHandle :=
  match openWindow m id scopeId windowStart windowEnd now with
  | (m, .error err) => (m, .error err)
  | (m, .ok id) => ((setTier m id tier).1, .ok ⟨id, scopeId, tier⟩)

def mark (sources : List WindowStatus) (target : WindowStatus) (m : WindowManager)
    (id : WindowId) : WindowManager × Except PipelineError Unit :=
  match m.windows.lookup id with
  | none => (m, .error (.windowNotFound id))
  | some w =>
    if w.status ∈ sources then
      ({ m with windows := m.windows.insert id { w with status := target } }, .ok ())
    else (m, .error .invalidWindowTransition)

section

variable (m : WindowManager) (id : WindowId)

def markInProgress :
    WindowManager × Except PipelineError Unit := mark [.pending, .failed] .inProgress m id

def markComplete :
    WindowManager × Except PipelineError Unit := mark [.inProgress] .complete m id

def markFailed :
    WindowManager × Except PipelineError Unit := mark [.inProgress] .failed m id

def markReplayPending :
    WindowManager × Except PipelineError Unit := mark [.complete] .pending m id

end

def stuck (now threshold : Int) (w : StoredWindow) : Bool :=
  w.status = .pending && w.createdAt.any fun created => threshold < now - created

def sweepStuckPending (m : WindowManager) (now threshold : Int) :
    WindowManager × List WindowId :=
  ({ m with windows := m.windows.mapValues fun _ w =>
      if stuck now threshold w then { w with status := .failed } else w },
    (m.windows.rows.filter fun e => stuck now threshold e.2).map fun e => e.2.id)

def removeWindows (m : WindowManager) (scopeId : ScopeId) (windowIds : List WindowId) :
    WindowManager :=
  if windowIds = [] then m
  else
    { windows := windowIds.foldl (fun t id => t.erase id) m.windows
      byScope :=
        match m.byScope.lookup scopeId with
        | none => m.byScope
        | some ids =>
          let ids := ids.filter fun id => id ∉ windowIds
          if ids = [] then m.byScope.erase scopeId else m.byScope.insert scopeId ids }

/-! ## Runs -/

inductive Action where
  | openWindow (id : WindowId) (scopeId : ScopeId) (windowStart windowEnd : Int)
  | openTieredWindow (id : WindowId) (scopeId : ScopeId) (tier : WindowScopeTier)
      (windowStart windowEnd : Int)
  | markInProgress (id : WindowId)
  | markComplete (id : WindowId)
  | markFailed (id : WindowId)
  | markReplayPending (id : WindowId)
  | sweepStuckPending (threshold : Int)
  | removeWindows (scopeId : ScopeId) (windowIds : List WindowId)
  | removeWindowsForScope (scopeId : ScopeId)

def perform (m : WindowManager) (now : Int) : Action → WindowManager
  | .openWindow id scopeId windowStart windowEnd =>
    (openWindow m id scopeId windowStart windowEnd now).1
  | .openTieredWindow id scopeId tier windowStart windowEnd =>
    (openTieredWindow m id scopeId tier windowStart windowEnd now).1
  | .markInProgress id => (markInProgress m id).1
  | .markComplete id => (markComplete m id).1
  | .markFailed id => (markFailed m id).1
  | .markReplayPending id => (markReplayPending m id).1
  | .sweepStuckPending threshold => (sweepStuckPending m now threshold).1
  | .removeWindows scopeId windowIds => removeWindows m scopeId windowIds
  | .removeWindowsForScope scopeId => m.removeWindowsForScope scopeId

def Action.opens : Action → List (WindowId × ScopeId)
  | .openWindow id scopeId windowStart windowEnd
  | .openTieredWindow id scopeId _ windowStart windowEnd =>
    if windowEnd ≤ windowStart then [] else [(id, scopeId)]
  | _ => []

/-- When a window last became pending, and whether it was tracked before that. -/
structure Entry where
  since : Int
  reopened : Bool
deriving DecidableEq

/-- A manager with the history of its run: the windows opened, oldest first, and when each
window last became pending. -/
structure Run where
  manager : WindowManager
  opened : List (WindowId × ScopeId)
  entered : WindowId → Option Entry

def isPending (m : WindowManager) (id : WindowId) : Bool :=
  (m.windows.lookup id).any fun w => w.status = .pending

namespace Run

def next (s : Run) (a : Int × Action) : Run where
  manager := perform s.manager a.1 a.2
  opened := s.opened ++ a.2.opens
  entered id :=
    if isPending (perform s.manager a.1 a.2) id && !isPending s.manager id then
      some ⟨a.1, (s.manager.windows.lookup id).isSome⟩
    else s.entered id

def Guard (s : Run) (a : Int × Action) : Prop :=
  ∀ p ∈ a.2.opens, p.1 ∉ s.opened.map Prod.fst

instance (s : Run) (a : Int × Action) : Decidable (s.Guard a) :=
  decidable_of_iff ((a.2.opens.all fun p => p.1 ∉ s.opened.map Prod.fst) = true) (by simp [Guard])

def system : System Run (Int × Action) :=
  .ofNext (fun s => s = ⟨WindowManager.new, [], fun _ => none⟩) Guard next

end Run

/-! ## What a call does -/

structure SameWindow (v w : StoredWindow) : Prop where
  id : w.id = v.id
  scopeId : w.scopeId = v.scopeId
  createdAt : w.createdAt = v.createdAt

structure Retouched (m m' : WindowManager) : Prop where
  byScope : m'.byScope = m.byScope
  tracked : ∀ k, (m'.windows.lookup k).isSome = (m.windows.lookup k).isSome
  same : ∀ k w, m'.windows.lookup k = some w → ∃ v, m.windows.lookup k = some v ∧ SameWindow v w

/-- One window more, at the end of the list of its scope. -/
structure Opened (m : WindowManager) (now : Int) (id : WindowId) (scopeId : ScopeId)
    (m' : WindowManager) : Prop where
  window : ∃ w, w.id = id ∧ w.scopeId = scopeId ∧ w.createdAt = some now ∧
    ∀ k, m'.windows.lookup k = if k = id then some w else m.windows.lookup k
  byScope : ∀ t, m'.byScope.lookup t =
    if t = scopeId then some ((m.byScope.lookup scopeId).getD [] ++ [id])
    else m.byScope.lookup t

theorem Retouched.refl (m : WindowManager) : Retouched m m :=
  ⟨rfl, fun _ => rfl, fun _ w hw => ⟨w, hw, rfl, rfl, rfl⟩⟩

theorem retouched_insert {m : WindowManager} {id : WindowId} {v w : StoredWindow}
    (hv : m.windows.lookup id = some v) (hw : SameWindow v w) :
    Retouched m { m with windows := m.windows.insert id w } := by
  refine ⟨rfl, fun k => ?_, fun k u hu => ?_⟩
  · by_cases hk : k = id
    · subst hk
      simp [hv]
    · simp [hk]
  · by_cases hk : k = id
    · obtain rfl : w = u := by simpa [Table.lookup_insert_ite, hk] using hu
      exact ⟨v, hk ▸ hv, hw⟩
    · exact ⟨u, by simpa [Table.lookup_insert_ite, hk] using hu, rfl, rfl, rfl⟩

theorem retouched_mark (sources : List WindowStatus) (target : WindowStatus) (m : WindowManager)
    (id : WindowId) : Retouched m (mark sources target m id).1 := by
  unfold mark
  cases hl : m.windows.lookup id with
  | none => exact Retouched.refl m
  | some v =>
    dsimp only
    split
    · exact retouched_insert hl ⟨rfl, rfl, rfl⟩
    · exact Retouched.refl m

theorem retouched_sweep (m : WindowManager) (now threshold : Int) :
    Retouched m (sweepStuckPending m now threshold).1 := by
  refine ⟨rfl, fun k => ?_, fun k w hw => ?_⟩
  · simp only [sweepStuckPending, Table.lookup_mapValues]
    cases m.windows.lookup k <;> rfl
  · simp only [sweepStuckPending, Table.lookup_mapValues, Option.map_eq_some_iff] at hw
    obtain ⟨v, hv, rfl⟩ := hw
    refine ⟨v, hv, ?_⟩
    split <;> exact ⟨rfl, rfl, rfl⟩

theorem stamp_eq (id : WindowId) (scopeId : ScopeId) (windowStart windowEnd now : Int) :
    stamp id scopeId windowStart windowEnd now =
      if windowEnd ≤ windowStart then .error .invalidWindow
      else .ok ⟨⟨id, scopeId, windowStart, windowEnd, .pending, none⟩, some now⟩ := by
  by_cases h : windowEnd ≤ windowStart <;> simp [stamp, SynthesisWindow.new, h]

theorem openWindow_opened (m : WindowManager) (id : WindowId) (scopeId : ScopeId)
    {windowStart windowEnd : Int} (now : Int) (h : windowStart < windowEnd) :
    (openWindow m id scopeId windowStart windowEnd now).2 = .ok id ∧
      Opened m now id scopeId (openWindow m id scopeId windowStart windowEnd now).1 := by
  have hle : ¬ windowEnd ≤ windowStart := Int.not_le.mpr h
  simp only [openWindow, stamp_eq, if_neg hle]
  exact ⟨trivial, ⟨_, rfl, rfl, rfl, fun k => Table.lookup_insert_ite _ _ _ _⟩,
    fun t => Table.lookup_insert_ite _ _ _ _⟩

theorem Opened.setTier {m m' : WindowManager} {now : Int} {id : WindowId} {scopeId : ScopeId}
    (h : Opened m now id scopeId m') (tier : WindowScopeTier) :
    Opened m now id scopeId (setTier m' id tier).1 := by
  obtain ⟨w, hid, hscope, hcreated, hlookup⟩ := h.window
  have hw : m'.windows.lookup id = some w := by rw [hlookup, if_pos rfl]
  simp only [Windows.setTier, hw]
  refine ⟨⟨{ w with tier := some tier }, hid, hscope, hcreated, fun k => ?_⟩, h.byScope⟩
  rw [Table.lookup_insert_ite, hlookup]
  split <;> rfl

theorem openTieredWindow_opened (m : WindowManager) (id : WindowId) (scopeId : ScopeId)
    (tier : WindowScopeTier) {windowStart windowEnd : Int} (now : Int)
    (h : windowStart < windowEnd) :
    Opened m now id scopeId
      (openTieredWindow m id scopeId tier windowStart windowEnd now).1 := by
  obtain ⟨hok, hopened⟩ := openWindow_opened m id scopeId now h
  unfold openTieredWindow
  split
  · rename_i err heq
    simp [heq] at hok
  · rename_i m' id' heq
    rw [heq] at hok hopened
    obtain rfl := Except.ok.inj hok
    exact hopened.setTier tier

theorem perform_cases (m : WindowManager) (now : Int) (a : Action) :
    (a.opens = [] ∧ Retouched m (perform m now a)) ∨
      (∃ id scopeId, a.opens = [(id, scopeId)] ∧ Opened m now id scopeId (perform m now a)) ∨
      (∃ scopeId windowIds, a = .removeWindows scopeId windowIds) ∨
      ∃ scopeId, a = .removeWindowsForScope scopeId := by
  have hrefused : ∀ {id scopeId windowStart windowEnd}, windowEnd ≤ windowStart →
      openWindow m id scopeId windowStart windowEnd now = (m, .error .invalidWindow) := by
    intro id scopeId windowStart windowEnd h
    simp [openWindow, stamp_eq, h]
  cases a with
  | openWindow id scopeId windowStart windowEnd =>
    by_cases h : windowEnd ≤ windowStart
    · refine .inl ⟨by simp [Action.opens, h], ?_⟩
      simpa [perform, hrefused h] using Retouched.refl m
    · exact .inr (.inl ⟨id, scopeId, by simp [Action.opens, h],
        (openWindow_opened m id scopeId now (Int.not_le.mp h)).2⟩)
  | openTieredWindow id scopeId tier windowStart windowEnd =>
    by_cases h : windowEnd ≤ windowStart
    · refine .inl ⟨by simp [Action.opens, h], ?_⟩
      simpa [perform, openTieredWindow, hrefused h] using Retouched.refl m
    · exact .inr (.inl ⟨id, scopeId, by simp [Action.opens, h],
        openTieredWindow_opened m id scopeId tier now (Int.not_le.mp h)⟩)
  | markInProgress id => exact .inl ⟨rfl, retouched_mark _ _ m id⟩
  | markComplete id => exact .inl ⟨rfl, retouched_mark _ _ m id⟩
  | markFailed id => exact .inl ⟨rfl, retouched_mark _ _ m id⟩
  | markReplayPending id => exact .inl ⟨rfl, retouched_mark _ _ m id⟩
  | sweepStuckPending threshold => exact .inl ⟨rfl, retouched_sweep m now threshold⟩
  | removeWindows scopeId windowIds => exact .inr (.inr (.inl ⟨scopeId, windowIds, rfl⟩))
  | removeWindowsForScope scopeId => exact .inr (.inr (.inr ⟨scopeId, rfl⟩))

theorem lookup_removeWindows (m : WindowManager) (scopeId : ScopeId) (windowIds : List WindowId)
    (k : WindowId) : (removeWindows m scopeId windowIds).windows.lookup k =
      if k ∈ windowIds then none else m.windows.lookup k := by
  unfold removeWindows
  split
  · simp_all
  · exact lookup_foldl_erase windowIds m.windows k

theorem perform_origin {m : WindowManager} {now : Int} {a : Action} {k : WindowId}
    {w : StoredWindow} (h : (perform m now a).windows.lookup k = some w) :
    (∃ v, m.windows.lookup k = some v ∧ SameWindow v w) ∨
      (a.opens = [(k, w.scopeId)] ∧ w.id = k ∧ w.createdAt = some now) := by
  obtain ⟨_, hm⟩ | ⟨id, scopeId, hopens, hm⟩ | ⟨scopeId, windowIds, rfl⟩ | ⟨scopeId, rfl⟩ :=
    perform_cases m now a
  · exact .inl (hm.same k w h)
  · obtain ⟨u, hid, hscope, hcreated, hlookup⟩ := hm.window
    rw [hlookup] at h
    split at h
    · obtain rfl := Option.some.inj h
      subst hid hscope
      exact .inr ⟨by simp_all, by simp_all, hcreated⟩
    · exact .inl ⟨w, h, rfl, rfl, rfl⟩
  · simp only [perform, lookup_removeWindows] at h
    split at h
    · simp at h
    · exact .inl ⟨w, h, rfl, rfl, rfl⟩
  · have hspec := (Runtime.removeWindowsForScope_spec m scopeId).1 k
    simp only [perform] at h
    rw [hspec] at h
    split at h
    · simp at h
    · exact .inl ⟨w, h, rfl, rfl, rfl⟩

/-! ## The index -/

namespace Run

structure Owned (s : Run) : Prop where
  nodup : (s.opened.map Prod.fst).Nodup
  owned : ∀ k w, s.manager.windows.lookup k = some w → w.id = k ∧ (k, w.scopeId) ∈ s.opened

theorem Owned.next {s : Run} (h : s.Owned) {a : Int × Action} (hg : s.Guard a) :
    (s.next a).Owned := by
  refine ⟨?_, fun k w hw => ?_⟩
  · have hopens : (a.2.opens.map Prod.fst).Nodup := by
      obtain ⟨now, c⟩ := a
      cases c <;> simp [Action.opens] <;> split <;> simp
    simp only [Run.next, List.map_append]
    refine List.nodup_append.mpr ⟨h.nodup, hopens, ?_⟩
    rintro id hid id' hid' rfl
    obtain ⟨p, hp, rfl⟩ := List.mem_map.mp hid'
    exact hg p hp hid
  · rcases perform_origin hw with ⟨v, hv, hsame⟩ | ⟨hopens, hid, _⟩
    · obtain ⟨hid, hmem⟩ := h.owned k v hv
      rw [hsame.id, hsame.scopeId]
      exact ⟨hid, List.mem_append_left _ hmem⟩
    · refine ⟨hid, List.mem_append_right _ ?_⟩
      rw [hopens]
      exact List.mem_singleton.mpr rfl

theorem owned_reachable {s : Run} (h : system.Reachable s) : s.Owned := by
  refine h.invariant Owned ?_ ?_
  · rintro s rfl
    exact ⟨List.nodup_nil, fun k w hw => by simp [WindowManager.new] at hw⟩
  · rintro s a t _ hs ⟨hg, rfl⟩
    exact hs.next hg

theorem Owned.scope_eq {s : Run} (h : s.Owned) {k : WindowId} {w : StoredWindow} {scopeId : ScopeId}
    (hw : s.manager.windows.lookup k = some w) (hk : (k, scopeId) ∈ s.opened) :
    w.scopeId = scopeId := by
  have hinj := List.inj_on_of_nodup_map h.nodup (h.owned k w hw).2 hk rfl
  exact congrArg Prod.snd hinj

def expected (s : Run) (scopeId : ScopeId) : List WindowId :=
  (s.opened.filter fun p =>
    p.2 = scopeId && (s.manager.windows.lookup p.1).isSome).map Prod.fst

theorem Owned.mem_expected {s : Run} (h : s.Owned) {scopeId : ScopeId} {k : WindowId} :
    k ∈ s.expected scopeId ↔
      ∃ w, s.manager.windows.lookup k = some w ∧ w.scopeId = scopeId := by
  simp only [expected, List.mem_map, List.mem_filter, Bool.and_eq_true, decide_eq_true_eq]
  constructor
  · rintro ⟨⟨k, t⟩, ⟨hopened, rfl, htracked⟩, rfl⟩
    obtain ⟨w, hw⟩ := Option.isSome_iff_exists.mp htracked
    exact ⟨w, hw, h.scope_eq hw hopened⟩
  · rintro ⟨w, hw, rfl⟩
    exact ⟨(k, w.scopeId), ⟨(h.owned k w hw).2, rfl, by simp [hw]⟩, rfl⟩

def Index (s : Run) : Prop :=
  ∀ scopeId, s.manager.byScope.lookup scopeId =
    if s.expected scopeId = [] then none else some (s.expected scopeId)

theorem Index.listed {s : Run} (h : s.Index) (scopeId : ScopeId) :
    s.manager.listedFor scopeId = s.expected scopeId := by
  rw [WindowManager.listedFor, h scopeId]
  split <;> simp_all

theorem expected_removed {s : Run} {a : Int × Action} {removed : List WindowId}
    (hopens : a.2.opens = []) (hlookup : ∀ k, (perform s.manager a.1 a.2).windows.lookup k =
      if k ∈ removed then none else s.manager.windows.lookup k) (scopeId : ScopeId) :
    (s.next a).expected scopeId = (s.expected scopeId).filter fun k => k ∉ removed := by
  simp only [expected, Run.next, hopens, List.append_nil, hlookup, List.filter_map,
    List.filter_filter]
  congr 1
  refine List.filter_congr fun p _ => ?_
  by_cases hp : p.1 ∈ removed <;> simp [hp]

theorem Index.retouched {s : Run} (h : s.Index) {a : Int × Action} (hopens : a.2.opens = [])
    (hm : Retouched s.manager (perform s.manager a.1 a.2)) : (s.next a).Index := by
  intro scopeId
  have hsame : (s.next a).expected scopeId = s.expected scopeId := by
    simp only [expected, Run.next, hopens, List.append_nil, hm.tracked]
  rw [hsame, ← h scopeId]
  exact congrArg (fun t => AList.lookup scopeId t) hm.byScope

theorem Index.opened {s : Run} (h : s.Index) {a : Int × Action} (hg : s.Guard a)
    {id : WindowId} {t : ScopeId} (hopens : a.2.opens = [(id, t)])
    (hm : Opened s.manager a.1 id t (perform s.manager a.1 a.2)) : (s.next a).Index := by
  obtain ⟨w, _, _, _, hlookup⟩ := hm.window
  have hfresh : ∀ p ∈ s.opened, p.1 ≠ id := by
    intro p hp he
    have hmem : p.1 ∈ s.opened.map Prod.fst := List.mem_map_of_mem hp
    rw [he] at hmem
    exact hg (id, t) (by simp [hopens]) hmem
  have hexpected : ∀ scopeId, (s.next a).expected scopeId =
      s.expected scopeId ++ if t = scopeId then [id] else [] := by
    intro scopeId
    have hold : (s.opened.filter fun p =>
        p.2 = scopeId && ((perform s.manager a.1 a.2).windows.lookup p.1).isSome) =
        s.opened.filter fun p =>
          p.2 = scopeId && (s.manager.windows.lookup p.1).isSome := by
      refine List.filter_congr fun p hp => ?_
      rw [hlookup, if_neg (hfresh p hp)]
    simp only [expected, Run.next, hopens, List.filter_append, hold, List.map_append]
    by_cases ht : t = scopeId <;> simp [ht, hlookup]
  intro scopeId
  have hindex : (s.next a).manager.byScope.lookup scopeId = _ := hm.byScope scopeId
  rw [hindex, hexpected]
  by_cases ht : t = scopeId
  · subst ht
    have hlist := h.listed t
    rw [WindowManager.listedFor] at hlist
    simp [hlist]
  · rw [if_neg (Ne.symm ht), h scopeId]
    simp [ht]

/-- Ids given for a scope may be of windows of the scope, or of no window. -/
def OwnIds (m : WindowManager) (scopeId : ScopeId) (windowIds : List WindowId) : Prop :=
  ∀ id ∈ windowIds, ∀ w, m.windows.lookup id = some w → w.scopeId = scopeId

instance (m : WindowManager) (scopeId : ScopeId) (windowIds : List WindowId) :
    Decidable (OwnIds m scopeId windowIds) :=
  decidable_of_iff
    (windowIds.all fun id => (m.windows.lookup id).all fun w => w.scopeId = scopeId)
    (by simp [OwnIds, Option.all_eq_true])

def Own (s : Run) : Int × Action → Prop
  | (_, .removeWindows scopeId windowIds) => OwnIds s.manager scopeId windowIds
  | _ => True

instance (s : Run) : (a : Int × Action) → Decidable (s.Own a)
  | (_, .removeWindows scopeId windowIds) =>
    inferInstanceAs (Decidable (OwnIds s.manager scopeId windowIds))
  | (_, .openWindow ..) | (_, .openTieredWindow ..) | (_, .markInProgress _)
  | (_, .markComplete _) | (_, .markFailed _) | (_, .markReplayPending _)
  | (_, .sweepStuckPending _) | (_, .removeWindowsForScope _) => isTrue trivial

theorem Owned.other_kept {s : Run} (h : s.Owned) {scopeId t : ScopeId} {removed : List WindowId}
    (hown : ∀ id ∈ removed, ∀ w, s.manager.windows.lookup id = some w → w.scopeId = scopeId)
    (ht : t ≠ scopeId) : ((s.expected t).filter fun k => k ∉ removed) = s.expected t := by
  rw [List.filter_eq_self]
  intro k hk
  obtain ⟨w, hw, hscope⟩ := h.mem_expected.mp hk
  simp only [decide_eq_true_eq]
  intro hmem
  exact ht (hscope.symm.trans (hown k hmem w hw))

theorem Index.removeWindows {s : Run} (h : s.Index) (ho : s.Owned) {now : Int}
    {scopeId : ScopeId} {windowIds : List WindowId} (hown : OwnIds s.manager scopeId windowIds) :
    (s.next (now, .removeWindows scopeId windowIds)).Index := by
  have hexpected := fun t => @expected_removed s (now, .removeWindows scopeId windowIds) windowIds
    rfl (fun k => lookup_removeWindows s.manager scopeId windowIds k) t
  intro t
  rw [hexpected]
  simp only [Run.next, perform, Windows.removeWindows]
  by_cases hnil : windowIds = []
  · subst hnil
    simpa using h t
  · rw [if_neg hnil]
    by_cases ht : t = scopeId
    · subst ht
      have hlist := h t
      by_cases hempty : s.expected t = []
      · rw [if_pos hempty] at hlist
        simp [hlist, hempty]
      · rw [if_neg hempty] at hlist
        simp only [hlist]
        split
        · simp_all
        · simp_all
    · rw [ho.other_kept hown ht, ← h t]
      split
      · rfl
      · split
        · rw [Table.lookup_erase_ite, if_neg ht]
        · rw [Table.lookup_insert_ite, if_neg ht]

theorem Index.removeWindowsForScope {s : Run} (h : s.Index) (ho : s.Owned) {now : Int}
    {scopeId : ScopeId} : (s.next (now, .removeWindowsForScope scopeId)).Index := by
  obtain ⟨hlookup, hindex⟩ := Runtime.removeWindowsForScope_spec s.manager scopeId
  have hexpected := fun t => @expected_removed s (now, .removeWindowsForScope scopeId)
    (s.manager.listedFor scopeId) rfl hlookup t
  intro t
  have hbyScope : (s.next (now, .removeWindowsForScope scopeId)).manager.byScope.lookup t = _ :=
    hindex t
  rw [hbyScope, hexpected, h.listed scopeId]
  by_cases ht : t = scopeId
  · subst ht
    simp
  · rw [if_neg ht, h t, ho.other_kept ?_ ht]
    intro id hid w hw
    obtain ⟨v, hv, hscope⟩ := ho.mem_expected.mp hid
    rw [hw] at hv
    obtain rfl := Option.some.inj hv
    exact hscope

theorem Index.next {s : Run} (h : s.Index) (ho : s.Owned) {a : Int × Action} (hg : s.Guard a)
    (hown : s.Own a) : (s.next a).Index := by
  obtain ⟨now, c⟩ := a
  obtain ⟨hopens, hm⟩ | ⟨id, scopeId, hopens, hm⟩ | ⟨scopeId, windowIds, rfl⟩ | ⟨scopeId, rfl⟩ :=
    perform_cases s.manager now c
  · exact h.retouched hopens hm
  · exact h.opened hg hopens hm
  · exact h.removeWindows ho hown
  · exact h.removeWindowsForScope ho

theorem index_reachable {s : Run} (h : (system.restrict Own).Reachable s) : s.Index := by
  refine h.invariant Index ?_ ?_
  · rintro s rfl scopeId
    simp [expected, WindowManager.new]
  · rintro s a t hr hs ⟨⟨hg, rfl⟩, hown⟩
    exact hs.next (owned_reachable hr.of_restrict) hg hown

structure Agrees (s : Run) : Prop where
  listed : ∀ scopeId id, id ∈ s.manager.listedFor scopeId ↔
    ∃ w, s.manager.windows.lookup id = some w ∧ w.scopeId = scopeId
  nodup : ∀ scopeId, (s.manager.listedFor scopeId).Nodup
  inOrder : ∀ scopeId, List.Sublist (s.manager.listedFor scopeId) (s.opened.map Prod.fst)
  nonempty : ∀ scopeId, s.manager.byScope.lookup scopeId ≠ some []

theorem Index.agrees {s : Run} (h : s.Index) (ho : s.Owned) : s.Agrees := by
  have horder : ∀ scopeId, List.Sublist (s.manager.listedFor scopeId) (s.opened.map Prod.fst) := by
    intro scopeId
    rw [h.listed]
    exact List.filter_sublist.map _
  refine ⟨fun scopeId id => ?_, fun scopeId => ho.nodup.sublist (horder scopeId), horder,
    fun scopeId => ?_⟩
  · rw [h.listed, ho.mem_expected]
  · rw [h scopeId]
    split <;> simp_all

/-- `remove_windows` takes out the windows of the scope that it names, and no other. -/
def RemovesOwn (m : WindowManager) (scopeId : ScopeId) (windowIds : List WindowId) : Prop :=
  ∀ id, (removeWindows m scopeId windowIds).windows.lookup id =
    if id ∈ windowIds ∧ (m.windows.lookup id).any (fun w => w.scopeId = scopeId) then none
    else m.windows.lookup id

theorem removesOwn_iff (m : WindowManager) (scopeId : ScopeId) (windowIds : List WindowId) :
    RemovesOwn m scopeId windowIds ↔ OwnIds m scopeId windowIds := by
  constructor
  · intro h id hid w hw
    by_contra hne
    have hgone := h id
    rw [lookup_removeWindows, if_pos hid] at hgone
    simp [hw, hne] at hgone
  · intro h id
    rw [lookup_removeWindows]
    by_cases hid : id ∈ windowIds
    · cases hw : m.windows.lookup id with
      | none => simp [hid]
      | some w => simp [hid, h id hid w hw]
    · simp [hid]

/-- In a run whose removals only name windows of their own scope or unknown ids, the index
agrees with the windows in every state. There a removal takes out exactly the named windows of
its scope if and only if it names no window of another scope. -/
theorem index_agrees {s : Run} (h : (system.restrict Own).Reachable s) :
    s.Agrees ∧ ∀ scopeId windowIds,
      RemovesOwn s.manager scopeId windowIds ↔ OwnIds s.manager scopeId windowIds :=
  ⟨(index_reachable h).agrees (owned_reachable h.of_restrict), removesOwn_iff s.manager⟩

def start : Run := ⟨WindowManager.new, [], fun _ => none⟩

def twoScopes : List (Int × Action) :=
  [(0, .openWindow 1 10 0 5), (1, .openWindow 2 20 0 5)]

def run (calls : List (Int × Action)) : Run := calls.foldl next start

theorem run_reachable {calls : List (Int × Action)} (h : Legal Guard next start calls) :
    system.Reachable (run calls) :=
  h.reachable (.init rfl)

def removal (scopeId : ScopeId) (windowIds : List WindowId) : List (Int × Action) :=
  twoScopes ++ [(2, .removeWindows scopeId windowIds)]

theorem index_agrees_twoScopes :
    (run (removal 20 [2, 3])).Agrees ∧
      RemovesOwn (run (removal 20 [2, 3])).manager 10 [1] := by
  have hlegal : Legal (fun s a => Guard s a ∧ Own s a) next start (removal 20 [2, 3]) := by
    decide +kernel
  have hr : (system.restrict Own).Reachable (run (removal 20 [2, 3])) :=
    hlegal.reachable_restrict (.init rfl)
  obtain ⟨hagrees, hremoves⟩ := index_agrees hr
  exact ⟨hagrees, (hremoves 10 [1]).mpr (by decide +kernel)⟩

/-- A removal for scope 10 that names the window of scope 20 takes it out, and leaves its id in
the index. -/
theorem removeWindows_foreign :
    system.Reachable (run (removal 10 [2])) ∧
      ¬ RemovesOwn (run twoScopes).manager 10 [2] ∧
      ((run twoScopes).manager.windows.lookup 2).map (fun w => w.scopeId) = some 20 ∧
      (run (removal 10 [2])).manager.windows.lookup 2 = none ∧
      2 ∈ (run (removal 10 [2])).manager.listedFor 20 ∧
      ¬ (run (removal 10 [2])).Agrees := by
  have hgone : (run (removal 10 [2])).manager.windows.lookup 2 = none := by
    decide +kernel
  have hlisted : 2 ∈ (run (removal 10 [2])).manager.listedFor 20 := by
    decide +kernel
  refine ⟨run_reachable (by decide +kernel), ?_, by decide +kernel, hgone, hlisted,
    fun hagrees => ?_⟩
  · rw [removesOwn_iff]
    decide +kernel
  · obtain ⟨w, hw, _⟩ := (hagrees.listed 20 2).mp hlisted
    rw [hgone] at hw
    simp at hw

/-! ## The sweep -/

/-- The entry of a pending window is known, and where the window was not re-opened it carries the
stamp. -/
def Timed (s : Run) : Prop :=
  ∀ k w, s.manager.windows.lookup k = some w → w.status = .pending →
    ∃ entry, s.entered k = some entry ∧
      (entry.reopened = false → w.createdAt = some entry.since)

theorem isPending_iff {m : WindowManager} {id : WindowId} :
    isPending m id = true ↔ ∃ w, m.windows.lookup id = some w ∧ w.status = .pending := by
  unfold isPending
  cases m.windows.lookup id <;> simp

theorem Timed.next {s : Run} (h : s.Timed) (ho : s.Owned) {a : Int × Action} (hg : s.Guard a) :
    (s.next a).Timed := by
  intro k w hw hpending
  have hnow : isPending (perform s.manager a.1 a.2) k = true :=
    isPending_iff.mpr ⟨w, hw, hpending⟩
  by_cases hbefore : isPending s.manager k = true
  · have hentered : (s.next a).entered k = s.entered k := by simp [Run.next, hbefore]
    obtain ⟨u, hu, hstatus⟩ := isPending_iff.mp hbefore
    rw [hentered]
    rcases perform_origin hw with ⟨v, hv, hsame⟩ | ⟨hopens, _, _⟩
    · obtain rfl : u = v := Option.some.inj (hu.symm.trans hv)
      obtain ⟨entry, hentry, hstamp⟩ := h k u hu hstatus
      exact ⟨entry, hentry, fun hr => hsame.createdAt.trans (hstamp hr)⟩
    · have hnew := hg (k, w.scopeId) (by simp [hopens])
      have hold : k ∈ s.opened.map Prod.fst :=
        List.mem_map_of_mem (ho.owned k u hu).2
      exact absurd hold hnew
  · have hentered : (s.next a).entered k =
        some ⟨a.1, (s.manager.windows.lookup k).isSome⟩ := by simp [Run.next, hbefore, hnow]
    refine ⟨_, hentered, fun hr => ?_⟩
    rcases perform_origin hw with ⟨v, hv, _⟩ | ⟨_, _, hcreated⟩
    · simp [hv] at hr
    · exact hcreated

theorem timed_reachable {s : Run} (h : system.Reachable s) : s.Timed := by
  refine h.invariant Timed ?_ ?_
  · rintro s rfl k w hw
    simp [WindowManager.new] at hw
  · rintro s a t hr hs ⟨hg, rfl⟩
    exact hs.next (owned_reachable hr) hg

/-- Every window that a sweep moves to failed has been pending for longer than the threshold. -/
def SweepsStuck (s : Run) (now threshold : Int) : Prop :=
  ∀ id w, isPending s.manager id = true →
    (sweepStuckPending s.manager now threshold).1.windows.lookup id = some w →
    w.status = .failed →
    ∃ entry, s.entered id = some entry ∧ threshold < now - entry.since

/-- A pending window that was re-opened within the threshold, long after it was created. -/
def FreshReplay (s : Run) (now threshold : Int) (id : WindowId) : Prop :=
  ∃ w entry created, s.manager.windows.lookup id = some w ∧ w.status = .pending ∧
    s.entered id = some entry ∧ entry.reopened = true ∧ now - entry.since ≤ threshold ∧
    w.createdAt = some created ∧ threshold < now - created

theorem stuck_iff {now threshold : Int} {w : StoredWindow} :
    stuck now threshold w = true ↔ w.status = .pending ∧
      ∃ created, w.createdAt = some created ∧ threshold < now - created := by
  unfold stuck
  cases w.createdAt <;> simp

theorem swept_iff (m : WindowManager) (now threshold : Int) (id : WindowId) :
    (isPending m id = true ∧ ∃ w, w.status = .failed ∧
      (sweepStuckPending m now threshold).1.windows.lookup id = some w) ↔
    ∃ v, m.windows.lookup id = some v ∧ stuck now threshold v = true := by
  simp only [isPending, sweepStuckPending, Table.lookup_mapValues]
  cases m.windows.lookup id with
  | none => simp
  | some v =>
    by_cases hv : stuck now threshold v = true
    · simp [hv, (stuck_iff.mp hv).1]
    · simp [hv]
      intro h
      simp [h]

/-- From every state a run reaches, a sweep fails only windows that have been pending for longer
than the threshold if and only if none was re-opened within it. -/
theorem sweeps_stuck {s : Run} (h : system.Reachable s) (now threshold : Int) :
    SweepsStuck s now threshold ↔ ∀ id, ¬ FreshReplay s now threshold id := by
  have htimed := timed_reachable h
  constructor
  · rintro hsweeps id ⟨w, entry, created, hw, hpending, hentry, _, hrecent, hcreated, hold⟩
    obtain ⟨hbefore, u, hfailed, hu⟩ := (swept_iff s.manager now threshold id).mpr
      ⟨w, hw, stuck_iff.mpr ⟨hpending, created, hcreated, hold⟩⟩
    obtain ⟨entry', hentry', hlong⟩ := hsweeps id u hbefore hu hfailed
    obtain rfl : entry = entry' := Option.some.inj (hentry.symm.trans hentry')
    omega
  · intro hnone id u hbefore hu hfailed
    obtain ⟨w, hw, hstuck⟩ :=
      (swept_iff s.manager now threshold id).mp ⟨hbefore, u, hfailed, hu⟩
    obtain ⟨hpending, created, hcreated, hold⟩ := stuck_iff.mp hstuck
    obtain ⟨entry, hentry, hstamp⟩ := htimed id w hw hpending
    refine ⟨entry, hentry, ?_⟩
    by_cases hr : entry.reopened = true
    · by_contra hrecent
      exact hnone id ⟨w, entry, created, hw, hpending, hentry, hr, by omega, hcreated, hold⟩
    · have hsame := hstamp (by simpa using hr)
      obtain rfl : created = entry.since := Option.some.inj (hcreated.symm.trans hsame)
      exact hold

def replayed : List (Int × Action) :=
  [(0, .openWindow 1 10 0 5), (1, .markInProgress 1), (2, .markComplete 1),
    (100, .markReplayPending 1)]

theorem sweeps_stuck_replayed : SweepsStuck (run replayed) 200 50 := by
  refine (sweeps_stuck (run_reachable (by decide +kernel)) 200 50).mpr ?_
  rintro id ⟨w, entry, created, hw, _, hentry, _, hrecent, _⟩
  have hkeys : (run replayed).manager.windows.keys = [1] := by decide +kernel
  have hid : id ∈ (run replayed).manager.windows.keys :=
    AList.mem_keys.mpr (AList.lookup_isSome.mp (by simp [hw]))
  obtain rfl : id = 1 := by simpa [hkeys] using hid
  have hentered : (run replayed).entered 1 = some ⟨100, true⟩ := by decide +kernel
  obtain rfl : ⟨100, true⟩ = entry := Option.some.inj (hentered.symm.trans hentry)
  simp at hrecent

/-- A sweep at 101 with a threshold of 50 fails the window that has been pending since 100. -/
theorem sweep_fails_replayed :
    system.Reachable (run replayed) ∧ isPending (run replayed).manager 1 = true ∧
      (run replayed).entered 1 = some ⟨100, true⟩ ∧
      (sweepStuckPending (run replayed).manager 101 50).2 = [1] ∧
      ¬ SweepsStuck (run replayed) 101 50 := by
  have hpending : isPending (run replayed).manager 1 = true := by decide +kernel
  have hentered : (run replayed).entered 1 = some ⟨100, true⟩ := by decide +kernel
  refine ⟨run_reachable (by decide +kernel), hpending, hentered, by decide +kernel,
    fun hsweeps => ?_⟩
  have hany : ((run replayed).manager.windows.lookup 1).any (stuck 101 50) = true := by
    decide +kernel
  obtain ⟨v, hv, hstuck⟩ := (Option.any_eq_true _ _).mp hany
  obtain ⟨_, w, hfailed, hw⟩ := (swept_iff (run replayed).manager 101 50 1).mpr ⟨v, hv, hstuck⟩
  obtain ⟨entry, hentry, hlong⟩ := hsweeps 1 w hpending hw hfailed
  rw [hentered] at hentry
  obtain rfl := Option.some.inj hentry
  simp at hlong

end Run

end Knowledge.Synthesis.Windows
