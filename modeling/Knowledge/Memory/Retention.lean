import Knowledge.Memory.Sweeps

/-!
What holds and archival are worth over a sequence of sweeps. A hold keeps an object from every
sweep but the purge, which never asks the engine; an archived object stays so until a sweep
finds enough retrievals on it, however old they are.
-/

set_option autoImplicit false

namespace Knowledge.Memory
open Knowledge.Transition
open MemoryStateMachine PolicyEngine

def PolicyDecision.target (s : MemoryState) : PolicyDecision → MemoryState
  | .keep => s
  | .archive => if s = .deleted then .deleted else .archived
  | .delete => .deleted
  | .resurrect => if s = .archived then .reinforced else s
  | .promoteToReinforced => if s = .candidate then .reinforced else s
  | .promoteToConsolidated => if s = .reinforced then .consolidated else s
  | .promoteToCanonical => if s = .consolidated then .canonical else s

section

variable {F : Type}

theorem state_applyDecision (obj : MemoryObject F) (now : Int) (report : DecaySweepReport)
    (d : PolicyDecision) : (applyDecision obj now report d).1.state = d.target obj.state := by
  cases hs : obj.state <;> cases d <;>
    simp [applyDecision, PolicyDecision.target, attempt, archive, delete, resurrect, reinforce,
      consolidate, canonicalize, expect,
      Except.map, hs]

theorem supersededBy_applyDecision (obj : MemoryObject F) (now : Int) (report : DecaySweepReport)
    (d : PolicyDecision) :
    (applyDecision obj now report d).1.supersededBy =
      if d = .resurrect ∧ obj.state = .archived then none else obj.supersededBy := by
  cases hs : obj.state <;> cases d <;>
    simp [applyDecision, attempt, archive, delete, resurrect, reinforce,
      consolidate, canonicalize, expect,
      Except.map, hs]

namespace Moment

theorem state_decayed (scoring : Scoring F) (m : Moment F) (obj : MemoryObject F) :
    (m.decayed scoring obj).state = (m.decision scoring obj).target obj.state := by
  rw [decayed_eq, state_applyDecision]

theorem supersededBy_decayed (scoring : Scoring F) (m : Moment F) (obj : MemoryObject F) :
    (m.decayed scoring obj).supersededBy =
      if m.decision scoring obj = .resurrect ∧ obj.state = .archived then none
      else obj.supersededBy := by
  rw [decayed_eq, supersededBy_applyDecision]

def Undecided (m : Moment F) (obj : MemoryObject F) : Prop :=
  ¬m.Held obj ∧ (m.policy obj).pastMaximumRetention m.now = false ∧
    m.events obj (m.policy obj).deleteOnEvents = false ∧
    (m.events obj (m.policy obj).archiveOnEvents = true →
      (m.policy obj).inExplicitMinimumRetention m.now = true)

theorem decision_of_held {scoring : Scoring F} {m : Moment F} {obj : MemoryObject F}
    (h : m.Held obj) : m.decision scoring obj = .keep := if_pos h

def lastRules (scoring : Scoring F) (m : Moment F) (obj : MemoryObject F) : PolicyDecision :=
  (PolicyEngine.promotion scoring (m.policy obj) obj m.now
    (scoring.computeRetentionScore obj m.now)).getD
      (PolicyEngine.archival scoring (m.policy obj) obj m.now
        (scoring.computeRetentionScore obj m.now))

theorem decision_eq (scoring : Scoring F) (m : Moment F) (obj : MemoryObject F) :
    m.decision scoring obj =
      if held (m.policy obj) (m.engine.scopeState.lookup obj.scopeId) m.now then .keep
      else if (m.policy obj).pastMaximumRetention m.now then .delete
      else if m.events obj (m.policy obj).deleteOnEvents then .delete
      else if m.events obj (m.policy obj).archiveOnEvents &&
        !(m.policy obj).inExplicitMinimumRetention m.now then .archive
      else if obj.state = .archived && (m.policy obj).allowResurrection &&
        (m.policy obj).resurrectionRetrievalThreshold ≤ obj.retrievalCount then .resurrect
      else m.lastRules scoring obj := rfl

section

variable {scoring : Scoring F} {m : Moment F} {obj : MemoryObject F}

theorem decision_of_undecided (h : m.Undecided obj) :
    m.decision scoring obj =
      if obj.state = .archived && (m.policy obj).allowResurrection &&
        (m.policy obj).resurrectionRetrievalThreshold ≤ obj.retrievalCount then .resurrect
      else m.lastRules scoring obj := by
  obtain ⟨hheld, hmax, hdelete, harchive⟩ := h
  have hevents : (m.events obj (m.policy obj).archiveOnEvents &&
      !(m.policy obj).inExplicitMinimumRetention m.now) = false := by
    cases he : m.events obj (m.policy obj).archiveOnEvents with
    | false => rfl
    | true => rw [harchive he]; rfl
  have hfree := Bool.eq_false_iff.mpr hheld
  simp only [decision_eq, hfree, hmax, hdelete, hevents, Bool.false_eq_true, if_false]

theorem decision_of_recalls (h : m.Undecided obj) (hs : obj.state = .archived) (hr : m.Recalls obj) :
    m.decision scoring obj = .resurrect := by
  rw [decision_of_undecided h, if_pos]
  simp only [hs, hr.1, hr.2, decide_true, Bool.and_self]

theorem decision_of_not_recalls (h : m.Undecided obj) (hr : ¬(obj.state = .archived ∧ m.Recalls obj)) :
    m.decision scoring obj = m.lastRules scoring obj := by
  rw [decision_of_undecided h, if_neg]
  simp only [Bool.and_eq_true, decide_eq_true_eq]
  exact fun hc => hr ⟨hc.1.1, hc.1.2, hc.2⟩

end

theorem undecided_of_retained {m : Moment F} {obj : MemoryObject F} (hheld : ¬m.Held obj)
    (h : m.Retained obj) : m.Undecided obj := ⟨hheld, h.2.2, h.2.1, fun _ => h.1⟩

theorem inMinimumRetention_of_explicit {policy : RetentionPolicy F} (obj : MemoryObject F)
    {now : Int} (h : policy.inExplicitMinimumRetention now = true) :
    policy.inMinimumRetention obj now = true := by
  unfold RetentionPolicy.inExplicitMinimumRetention at h
  unfold RetentionPolicy.inMinimumRetention RetentionPolicy.minimumRetentionUntilFor
  cases hm : policy.minimumRetentionUntil with
  | none => simp [hm] at h
  | some time => simpa [hm] using h

/-- The last rules before an explicit minimum retention: they archive nothing, and what they
delete is archived already and past the policy's limit for archived objects. -/
theorem lastRules_of_retained (scoring : Scoring F) {m : Moment F} {obj : MemoryObject F}
    (h : m.Retained obj) :
    m.lastRules scoring obj ≠ .archive ∧
      (m.lastRules scoring obj = .delete ↔ obj.state = .archived ∧
        ∃ maxAge ∈ (m.policy obj).archivedMaxRetention, obj.createdAt + maxAge ≤ m.now) := by
  have hmin := inMinimumRetention_of_explicit obj h.1
  unfold lastRules promotion archival
  cases hs : obj.state with
  | candidate =>
    simp only [hmin, if_true]
    split <;> simp
  | reinforced =>
    simp only
    split <;> simp
  | consolidated =>
    simp only
    split
    · split <;> simp
    · simp
  | canonical => simp
  | superseded => simp [hmin]
  | archived =>
    cases hm : (m.policy obj).archivedMaxRetention with
    | none => simp
    | some maxAge =>
      by_cases hage : obj.createdAt + maxAge ≤ m.now
      · simp [hage]
      · simp [hage]
  | deleted => simp

section

variable (scoring : Scoring F) (m : Moment F) (obj : MemoryObject F)

theorem lastRules_ne_resurrect :
    m.lastRules scoring obj ≠ .resurrect := by
  unfold lastRules promotion archival
  cases obj.state with
  | candidate => simp only; split <;> (try split) <;> (try split) <;> simp
  | reinforced => simp only; split <;> simp
  | consolidated => simp only; split <;> (try split) <;> simp
  | canonical => simp
  | superseded => simp only; split <;> (try split) <;> simp
  | archived => simp only; split <;> (try split) <;> simp
  | deleted => simp

/-- Everything a sweep can do with an object: nothing under a hold, delete it or archive it
where a deadline or an event says so, else resurrect it or go by the last rules. -/
theorem decision_cases :
    (m.Held obj ∧ m.decision scoring obj = .keep) ∨
      m.decision scoring obj = .delete ∨ m.decision scoring obj = .archive ∨
      m.Undecided obj := by
  by_cases hheld : m.Held obj
  · exact .inl ⟨hheld, decision_of_held hheld⟩
  · right
    have hfree := Bool.eq_false_iff.mpr hheld
    simp only [decision_eq, hfree, Bool.false_eq_true, if_false]
    split
    · exact .inl rfl
    · rename_i hmax
      split
      · exact .inl rfl
      · rename_i hdelete
        split
        · exact .inr (.inl rfl)
        · rename_i harchive
          rw [Bool.not_eq_true] at hmax hdelete
          refine .inr (.inr ⟨hheld, hmax, hdelete, fun hevent => ?_⟩)
          simpa only [hevent, Bool.true_and, Bool.not_eq_true', Bool.not_eq_false] using harchive

theorem decision_eq_resurrect_iff :
    m.decision scoring obj = .resurrect ↔
      obj.state = .archived ∧ m.Undecided obj ∧ m.Recalls obj := by
  constructor
  · intro h
    obtain ⟨_, hkeep⟩ | hdelete | harchive | hund := m.decision_cases scoring obj
    · rw [hkeep] at h
      cases h
    · rw [hdelete] at h
      cases h
    · rw [harchive] at h
      cases h
    · by_contra hno
      rw [decision_of_not_recalls hund (fun hr => hno ⟨hr.1, hund, hr.2⟩)] at h
      exact lastRules_ne_resurrect scoring m obj h
  · exact fun ⟨hs, hund, hr⟩ => decision_of_recalls hund hs hr

end

end Moment

inductive Sweep where
  | decaySweepWithPolicy
  | purgeArchived (config : PurgeConfig)

/-- A call of one of the sweeps. The purge asks neither the engine nor the tenant. -/
structure SweepCall (F : Type) where
  moment : Moment F
  sweep : Sweep

namespace SweepCall

def run (scoring : Scoring F) (objects : List (MemoryObject F)) (call : SweepCall F) :
    List (MemoryObject F) :=
  match call.sweep with
  | .decaySweepWithPolicy =>
    (Memory.decaySweepWithPolicy scoring objects call.moment.now call.moment.engine
      call.moment.tenantId).1
  | .purgeArchived config => (Memory.purgeArchived objects call.moment.now config).1

def after (scoring : Scoring F) (call : SweepCall F) (obj : MemoryObject F) : MemoryObject F :=
  match call.sweep with
  | .decaySweepWithPolicy => call.moment.decayed scoring obj
  | .purgeArchived config => (purgeObject call.moment.now config obj {}).1

def Protects (call : SweepCall F) (obj : MemoryObject F) : Prop :=
  call.moment.Held obj ∨ call.moment.Retained obj

def Spares (scoring : Scoring F) (k : Nat) (objects : List (MemoryObject F))
    (call : SweepCall F) : Prop :=
  ∀ before ∈ objects[k]?, call.Protects before → ∀ after ∈ (call.run scoring objects)[k]?,
    (after.state = .archived → before.state = .archived) ∧
      (after.state = .deleted → before.state = .deleted)

/-- An archived object is due: for the purge by its own time to live, for the decay sweep by
the policy's limit for archived objects, unless a hold or a resurrection comes first. -/
def Due (call : SweepCall F) (obj : MemoryObject F) : Prop :=
  obj.state = .archived ∧
    match call.sweep with
    | .decaySweepWithPolicy =>
      ¬call.moment.Held obj ∧ ¬call.moment.Recalls obj ∧
        ∃ maxAge ∈ (call.moment.policy obj).archivedMaxRetention,
          obj.createdAt + maxAge ≤ call.moment.now
    | .purgeArchived config =>
      (obj.pinCount = 0 ∨ config.purgePinned = true) ∧
        obj.lastAccessedAt + config.retention ≤ call.moment.now

def Clear (k : Nat) (objects : List (MemoryObject F)) (call : SweepCall F) : Prop :=
  ∀ obj ∈ objects[k]?, call.Protects obj → ¬call.Due obj

theorem purgeObject_fst (now : Int) (config : PurgeConfig) (obj : MemoryObject F)
    (report : PurgeReport) :
    (purgeObject now config obj report).1 =
      if obj.state = .archived ∧ (obj.pinCount = 0 ∨ config.purgePinned = true) ∧
        obj.lastAccessedAt + config.retention ≤ now then { obj with state := .deleted }
      else obj := by
  unfold purgeObject
  by_cases hs : obj.state = .archived
  · rw [if_neg (not_not_intro hs)]
    dsimp only
    split
    · rename_i hpin
      rw [if_neg]
      simp only [Bool.and_eq_true, decide_eq_true_eq, Bool.not_eq_true'] at hpin
      rintro ⟨-, h | h, -⟩
      · omega
      · rw [hpin.2] at h
        cases h
    · rename_i hpin
      simp only [Bool.and_eq_true, decide_eq_true_eq, Bool.not_eq_true', not_and,
        Bool.not_eq_false] at hpin
      split
      · rename_i hage
        rw [if_neg]
        rintro ⟨-, -, h⟩
        omega
      · rename_i hage
        have hdue : obj.state = .archived ∧ (obj.pinCount = 0 ∨ config.purgePinned = true) ∧
            obj.lastAccessedAt + config.retention ≤ now := by
          refine ⟨hs, ?_, by omega⟩
          by_cases h : 0 < obj.pinCount
          · exact .inr (hpin h)
          · exact .inl (by omega)
        rw [if_pos hdue]
        simp [deleteArchived, expect, hs]
  · rw [if_pos hs, if_neg (fun h => hs h.1)]

section

variable (scoring : Scoring F)

theorem run_eq_map (objects : List (MemoryObject F)) (call : SweepCall F) :
    call.run scoring objects = objects.map (call.after scoring) := by
  unfold run after
  split
  · exact Moment.decaySweep_objects scoring call.moment objects
  · exact sweepLoop_fst (fun obj report => by rw [purgeObject_fst, purgeObject_fst]) _ _

theorem getElem?_run (objects : List (MemoryObject F)) (call : SweepCall F) (k : Nat) :
    (call.run scoring objects)[k]? = (objects[k]?).map (call.after scoring) := by
  rw [run_eq_map, List.getElem?_map]

theorem decision_of_protects {m : Moment F} {obj : MemoryObject F}
    (h : m.Held obj ∨ m.Retained obj) :
    m.decision scoring obj ≠ .archive ∧
      (m.decision scoring obj = .delete ↔ Due ⟨m, .decaySweepWithPolicy⟩ obj) := by
  by_cases hheld : m.Held obj
  · rw [Moment.decision_of_held hheld]
    simp [Due, hheld]
  · obtain hheld' | hretained := h
    · exact absurd hheld' hheld
    · have hund := Moment.undecided_of_retained hheld hretained
      by_cases hr : obj.state = .archived ∧ m.Recalls obj
      · rw [Moment.decision_of_recalls hund hr.1 hr.2]
        simp [Due, hr.2]
      · rw [Moment.decision_of_not_recalls hund hr]
        obtain ⟨harchive, hdelete⟩ := Moment.lastRules_of_retained scoring hretained
        refine ⟨harchive, hdelete.trans ?_⟩
        simp only [Due]
        exact ⟨fun h => ⟨h.1, hheld, fun hc => hr ⟨h.1, hc⟩, h.2⟩, fun h => ⟨h.1, h.2.2.2⟩⟩

theorem spared_iff {call : SweepCall F} {obj : MemoryObject F} (h : call.Protects obj) :
    (((call.after scoring obj).state = .archived → obj.state = .archived) ∧
      ((call.after scoring obj).state = .deleted → obj.state = .deleted)) ↔ ¬call.Due obj := by
  obtain ⟨m, sweep⟩ := call
  cases sweep with
  | decaySweepWithPolicy =>
    obtain ⟨harchive, hdelete⟩ := decision_of_protects scoring h
    rw [← hdelete]
    simp only [after, Moment.state_decayed]
    have hdue : m.decision scoring obj = .delete → obj.state = .archived :=
      fun hd => (hdelete.mp hd).1
    revert harchive hdue
    cases m.decision scoring obj <;> cases obj.state <;> simp [PolicyDecision.target]
  | purgeArchived config =>
    simp only [after, purgeObject_fst, Due]
    by_cases hdue : obj.state = .archived ∧ (obj.pinCount = 0 ∨ config.purgePinned = true) ∧
        obj.lastAccessedAt + config.retention ≤ m.now
    · simp [hdue]
    · rw [if_neg hdue]
      simp [hdue]

theorem spares_iff_clear (k : Nat) (objects : List (MemoryObject F))
    (call : SweepCall F) : call.Spares scoring k objects ↔ call.Clear k objects := by
  unfold Spares Clear
  refine forall₂_congr fun before hk => forall_congr' fun hp => ?_
  rw [← spared_iff scoring hp, getElem?_run, Option.mem_def.mp hk]
  simp

/-- In a sequence of sweeps, every sweep spares the object at a position while it is protected
just when none finds it protected and due. -/
theorem holds_protect_iff (objects : List (MemoryObject F)) (k : Nat) (calls : List (SweepCall F)) :
    Legal (fun objects call => call.Spares scoring k objects) (run scoring) objects calls ↔
      Legal (fun objects call => call.Clear k objects) (run scoring) objects calls :=
  Legal.congr (fun objects call => call.spares_iff_clear scoring k objects) objects calls

end

end SweepCall

namespace Moment

def sweep (scoring : Scoring F) (objects : List (MemoryObject F)) (m : Moment F) :
    List (MemoryObject F) :=
  (decaySweepWithPolicy scoring objects m.now m.engine m.tenantId).1

def Archives (scoring : Scoring F) (k : Nat) (objects : List (MemoryObject F))
    (m : Moment F) : Prop :=
  ∃ before ∈ objects[k]?, ∃ after ∈ (m.sweep scoring objects)[k]?,
    before.state ≠ .archived ∧ after.state = .archived

def Revives (scoring : Scoring F) (k : Nat) (objects : List (MemoryObject F))
    (m : Moment F) : Prop :=
  ∃ before ∈ objects[k]?, ∃ after ∈ (m.sweep scoring objects)[k]?,
    before.state ≠ .reinforced ∧ after.state = .reinforced ∨
      before.supersededBy.isSome ∧ after.supersededBy = none

/-- The sweep finds the object at the position archived with enough retrievals in its lifetime,
and no hold, deadline or event decides before that counts. -/
def FindsRetrieved (k : Nat) (objects : List (MemoryObject F)) (m : Moment F) : Prop :=
  ∃ obj ∈ objects[k]?, obj.state = .archived ∧ m.Undecided obj ∧ m.Recalls obj

theorem getElem?_sweep (scoring : Scoring F) (objects : List (MemoryObject F)) (m : Moment F)
    (k : Nat) : (m.sweep scoring objects)[k]? = (objects[k]?).map (m.decayed scoring) := by
  rw [sweep, decaySweep_objects, List.getElem?_map]

theorem revives_of_findsRetrieved (scoring : Scoring F) {k : Nat}
    {objects : List (MemoryObject F)} {m : Moment F} (h : m.FindsRetrieved k objects) :
    m.Revives scoring k objects := by
  obtain ⟨obj, hk, hs, hund, hr⟩ := h
  refine ⟨obj, hk, m.decayed scoring obj, ?_, .inl ⟨by simp [hs], ?_⟩⟩
  · rw [getElem?_sweep, Option.mem_def.mp hk]
    rfl
  · rw [state_decayed, decision_of_recalls hund hs hr, hs]
    rfl

theorem stays_down (scoring : Scoring F) {m : Moment F} {obj : MemoryObject F}
    (hs : obj.state = .archived ∨ obj.state = .deleted)
    (hno : ¬(obj.state = .archived ∧ m.Undecided obj ∧ m.Recalls obj)) :
    (m.decayed scoring obj).state = .archived ∨ (m.decayed scoring obj).state = .deleted := by
  rw [← decision_eq_resurrect_iff scoring] at hno
  rw [state_decayed]
  revert hno hs
  cases m.decision scoring obj <;> cases obj.state <;> simp [PolicyDecision.target]

theorem findsRetrieved_of_revives {scoring : Scoring F} {k : Nat}
    {objects : List (MemoryObject F)} {m : Moment F}
    (hdown : ∀ obj ∈ objects[k]?, obj.state = .archived ∨ obj.state = .deleted)
    (h : m.Revives scoring k objects) : m.FindsRetrieved k objects := by
  obtain ⟨before, hk, after, hafter, hrevived⟩ := h
  rw [getElem?_sweep, Option.mem_def.mp hk] at hafter
  cases hafter
  refine ⟨before, hk, (decision_eq_resurrect_iff scoring m before).mp ?_⟩
  by_contra hno
  obtain ⟨-, hstate⟩ | ⟨hsome, hnone⟩ := hrevived
  · have hstays := stays_down scoring (m := m) (hdown before hk)
      (fun hr => hno ((decision_eq_resurrect_iff scoring m before).mpr hr))
    rw [hstate] at hstays
    simp at hstays
  · rw [supersededBy_decayed, if_neg (fun h => hno h.1)] at hnone
    rw [hnone] at hsome
    cases hsome

/-- A condition fails at every sweep that comes after one that archived the object. -/
def NeverAfterArchival (scoring : Scoring F) (k : Nat) (objects : List (MemoryObject F))
    (sweeps : List (Moment F)) (P : List (MemoryObject F) → Moment F → Prop) : Prop :=
  ∀ earlier archiving between later rest,
    sweeps = earlier ++ archiving :: (between ++ later :: rest) →
    archiving.Archives scoring k (earlier.foldl (sweep scoring) objects) →
    ¬P ((earlier ++ archiving :: between).foldl (sweep scoring) objects) later

theorem down_of_never {scoring : Scoring F} {k : Nat} {objects : List (MemoryObject F)}
    {m : Moment F} (sweeps : List (Moment F)) (harchives : m.Archives scoring k objects)
    (hno : ∀ before later rest, sweeps = before ++ later :: rest →
      ¬later.FindsRetrieved k ((m :: before).foldl (sweep scoring) objects)) :
    ∀ obj ∈ ((m :: sweeps).foldl (sweep scoring) objects)[k]?,
      obj.state = .archived ∨ obj.state = .deleted := by
  induction sweeps using List.reverseRecOn with
  | nil =>
    obtain ⟨_, _, after, hafter, -, hs⟩ := harchives
    intro obj hobj
    cases Option.mem_unique hobj hafter
    exact .inl hs
  | append_singleton before later ih =>
    have hbefore := ih fun before' later' rest heq =>
      hno before' later' (rest ++ [later]) (by rw [heq]; simp)
    intro obj hobj
    rw [← List.cons_append, List.foldl_append, List.foldl_cons, List.foldl_nil, getElem?_sweep,
      Option.mem_def, Option.map_eq_some_iff] at hobj
    obtain ⟨found, hfound, rfl⟩ := hobj
    exact stays_down scoring (hbefore found hfound)
      fun hr => hno before later [] rfl ⟨found, hfound, hr⟩

/-- Sweeps alone revive an object they archived just when one of them finds it with enough
retrievals from before its archival. -/
theorem sweeps_never_resurrect_iff (scoring : Scoring F) (objects : List (MemoryObject F))
    (k : Nat) (sweeps : List (Moment F)) :
    NeverAfterArchival scoring k objects sweeps (fun objects m => m.Revives scoring k objects) ↔
      NeverAfterArchival scoring k objects sweeps (fun objects m => m.FindsRetrieved k objects) := by
  constructor
  · intro h earlier archiving between later rest heq harchives hfinds
    exact h earlier archiving between later rest heq harchives
      (revives_of_findsRetrieved scoring hfinds)
  · intro h earlier archiving between later rest heq harchives hrevives
    refine h earlier archiving between later rest heq harchives
      (findsRetrieved_of_revives ?_ hrevives)
    rw [List.foldl_append]
    refine down_of_never between harchives fun before later' rest' hsplit => ?_
    rw [← List.foldl_append]
    exact h earlier archiving before later' (rest' ++ later :: rest) (by rw [heq, hsplit]; simp)
      harchives

end Moment

end

section Examples

def hundredths : Scoring Nat :=
  ⟨fun _ _ => 8, fun a b => decide (a < b), fun a b => decide (b ≤ a), id⟩

def oldObject (state : MemoryState) (retrievalCount : Nat) (lastAccessedAt : Int) :
    MemoryObject Nat where
  id := 1
  scopeId := 7
  state := state
  sensitivityClass := .useful
  retentionScore := 8
  createdAt := 0
  lastAccessedAt := lastAccessedAt
  consolidatedAt := none
  retrievalCount := retrievalCount
  pinCount := 0
  corroborationCount := 0
  supersededBy := some 2
  contradicted := false

def heldEngine : PolicyEngine Nat := (PolicyEngine.new hundredths).setLegalHold 7 true none

def retainedEngine : PolicyEngine Nat :=
  let policy := { RetentionPolicy.globalDefault hundredths with
    minimumRetentionUntil := some (days 10000), archivedMaxRetention := some (days 365) }
  let engine := (PolicyEngine.new hundredths).registerPolicy policy
  (engine.setScopePolicy 7 policy.policyId).toOption.getD engine

/-- The purge deletes an archived object under a legal hold, and the decay sweep one whose
minimum retention lies ahead. -/
theorem purge_ignores_hold :
    ¬Legal (fun objects call => SweepCall.Spares hundredths 0 objects call)
        (SweepCall.run hundredths) [oldObject .archived 0 0]
        [⟨⟨heldEngine, none, days 400⟩, .purgeArchived ⟨days 365, false⟩⟩] ∧
      ¬Legal (fun objects call => SweepCall.Spares hundredths 0 objects call)
        (SweepCall.run hundredths) [oldObject .archived 0 0]
        [⟨⟨retainedEngine, none, days 400⟩, .decaySweepWithPolicy⟩] := by
  constructor
  · rintro ⟨h, -⟩
    have hspared := h _ rfl (.inl (by unfold Moment.Held; decide +kernel)) _ rfl
    exact absurd (hspared.2 (by decide +kernel)) (by decide +kernel)
  · rintro ⟨h, -⟩
    have hretained : Moment.Retained ⟨retainedEngine, none, days 400⟩ (oldObject .archived 0 0) := by
      unfold Moment.Retained
      decide +kernel
    have hspared := h _ rfl (.inr hretained) _ rfl
    exact absurd (hspared.2 (by decide +kernel)) (by decide +kernel)

/-- A superseded object with one retrieval is archived after its grace period; the next sweep
brings it back and clears its pointer. -/
theorem sweep_revives_superseded :
    ¬Moment.NeverAfterArchival hundredths 0 [oldObject .superseded 1 0]
      [⟨.new hundredths, none, days 400⟩, ⟨.new hundredths, none, days 401⟩]
      (fun objects m => m.Revives hundredths 0 objects) := by
  intro h
  refine h [] _ [] _ [] rfl ⟨_, rfl, _, rfl, by decide +kernel, by decide +kernel⟩ ?_
  exact ⟨_, rfl, _, rfl, .inr ⟨by decide +kernel, by decide +kernel⟩⟩

end Examples

end Knowledge.Memory
