import Knowledge.Memory.Retention

/-!
`decay_sweep_with` of `crates/memory_manager`, the sweep without policies, and the exemption of
critical objects from passive decay that it has and the sweep by policy has not.
-/

set_option autoImplicit false

namespace Knowledge.Memory
open Knowledge.Sync (Uuid)
open PolicyDecision

section

variable {F : Type}

def decaySweepWith (scoring : Scoring F) (objects : List (MemoryObject F)) (now : Int)
    (candidateArchiveThreshold : F) (supersededTtl : Int) :
    List (MemoryObject F) × DecaySweepReport :=
  sweepLoop (decayPassively scoring now candidateArchiveThreshold supersededTtl) objects {}

def DecaysPassively (scoring : Scoring F) (now : Int) (threshold : F) (ttl : Int)
    (obj : MemoryObject F) : Prop :=
  obj.sensitivityClass ≠ .critical ∧
    (obj.state = .candidate ∧
        scoring.lt (scoring.computeRetentionScore obj now) threshold = true ∨
      obj.state = .superseded ∧ ttl ≤ now - obj.lastAccessedAt)

instance (scoring : Scoring F) (now : Int) (threshold : F) (ttl : Int) (obj : MemoryObject F) :
    Decidable (DecaysPassively scoring now threshold ttl obj) :=
  inferInstanceAs (Decidable (_ ∧ _))

theorem decayPassively_fst (scoring : Scoring F) (now : Int) (threshold : F) (ttl : Int)
    (obj : MemoryObject F) (report : DecaySweepReport) :
    (decayPassively scoring now threshold ttl obj report).1 =
      { obj with
        retentionScore := scoring.computeRetentionScore obj now
        state := if DecaysPassively scoring now threshold ttl obj then .archived
          else obj.state } := by
  simp only [decayPassively, attempt, archiveCandidate, archiveSuperseded,
    MemoryStateMachine.expect]
  split
  · rename_i h
    have hdecays : DecaysPassively scoring now threshold ttl obj := ⟨h.2.1, .inl ⟨h.1, h.2.2⟩⟩
    simp [h.1, hdecays]
  · rename_i hcandidate
    split
    · rename_i h
      have hdecays : DecaysPassively scoring now threshold ttl obj := ⟨h.2.1, .inr ⟨h.1, h.2.2⟩⟩
      simp [h.1, hdecays]
    · rename_i hsuperseded
      have hstays : ¬DecaysPassively scoring now threshold ttl obj := by
        rintro ⟨hclass, ⟨hs, hlt⟩ | ⟨hs, hage⟩⟩
        · exact hcandidate ⟨hs, hclass, hlt⟩
        · exact hsuperseded ⟨hs, hclass, hage⟩
      rw [if_neg hstays]

theorem decaySweepWith_objects (scoring : Scoring F) (objects : List (MemoryObject F)) (now : Int)
    (threshold : F) (ttl : Int) :
    (decaySweepWith scoring objects now threshold ttl).1 =
      objects.map fun obj => (decayPassively scoring now threshold ttl obj {}).1 := by
  apply sweepLoop_fst
  intro obj report
  rw [decayPassively_fst, decayPassively_fst]

theorem state_decayPassively_of_critical (scoring : Scoring F) (now : Int) (threshold : F)
    (ttl : Int) {obj : MemoryObject F} (hclass : obj.sensitivityClass = .critical) :
    (decayPassively scoring now threshold ttl obj {}).1.state = obj.state := by
  rw [decayPassively_fst]
  exact if_neg fun h => h.1 hclass

namespace Moment

/-- No archive or delete event is active on the scope, and no maximum retention has passed. -/
def Quiet (m : Moment F) (obj : MemoryObject F) : Prop :=
  m.events obj (m.policy obj).archiveOnEvents = false ∧
    m.events obj (m.policy obj).deleteOnEvents = false ∧
    (m.policy obj).pastMaximumRetention m.now = false

/-- The policy's own thresholds leave a candidate or a superseded object where it is. -/
def Kept (scoring : Scoring F) (m : Moment F) (obj : MemoryObject F) : Prop :=
  m.Held obj ∨ (m.policy obj).inMinimumRetention obj m.now = true ∨
    match obj.state with
    | .candidate =>
      let score := scoring.computeRetentionScore obj m.now
      scoring.lt score (m.policy obj).candidateArchiveThreshold = false ∨
        (m.policy obj).promoteToReinforcedAfterRetrievals ≤ obj.retrievalCount ∧
          scoring.ge score (scoring.literal 40) = true
    | .superseded => m.now < obj.lastAccessedAt + (m.policy obj).supersededArchiveAfter
    | _ => True

theorem archived_decayed_iff (scoring : Scoring F) {m : Moment F} {obj : MemoryObject F}
    (hquiet : m.Quiet obj) (hstate : obj.state = .candidate ∨ obj.state = .superseded) :
    (m.decayed scoring obj).state = .archived ↔ ¬m.Kept scoring obj := by
  rw [state_decayed]
  by_cases hheld : m.Held obj
  · rw [decision_of_held hheld]
    rcases hstate with hs | hs <;> simp [target, Kept, hheld, hs]
  obtain ⟨harchive, hdelete, hmax⟩ := hquiet
  have hund : m.Undecided obj := ⟨hheld, hmax, hdelete, fun h => by simp [harchive] at h⟩
  have hactive : ¬(obj.state = .archived ∧ m.Recalls obj) := by
    rcases hstate with hs | hs <;> simp [hs]
  rw [decision_of_not_recalls hund hactive]
  simp only [lastRules, PolicyEngine.promotion, PolicyEngine.archival, Kept, hheld, false_or]
  rcases hstate with hs | hs
  · simp only [hs]
    by_cases hpromote : (m.policy obj).promoteToReinforcedAfterRetrievals ≤ obj.retrievalCount ∧
        scoring.ge (scoring.computeRetentionScore obj m.now) (scoring.literal 40) = true
    · simp [hpromote, target]
    · rw [if_neg (by simpa using hpromote)]
      simp only [Option.getD_none, hpromote, or_false]
      split
      · simp_all [target]
      · split
        · simp_all [target]
        · simp_all [target]
  · simp only [hs, Option.getD_none]
    split
    · simp_all [target]
    · split
      · simp_all [target]
      · simp_all [target]

end Moment

/-- In both sweeps over a batch, and so in one as in the other, no critical candidate or critical
superseded object is archived while nothing but its age and score speaks for it. -/
def CriticalExempt (scoring : Scoring F) (m : Moment F) (threshold : F) (ttl : Int)
    (objects : List (MemoryObject F)) : Prop :=
  ∀ k : Nat, ∀ obj ∈ objects[k]?, obj.sensitivityClass = .critical →
    obj.state = .candidate ∨ obj.state = .superseded → m.Quiet obj →
    ∀ swept ∈ (decaySweepWith scoring objects m.now threshold ttl).1[k]?,
    ∀ decided ∈ (decaySweepWithPolicy scoring objects m.now m.engine m.tenantId).1[k]?,
      swept.state ≠ .archived ∧ decided.state ≠ .archived

theorem criticalExempt_iff (scoring : Scoring F) (m : Moment F) (threshold : F) (ttl : Int)
    (objects : List (MemoryObject F)) :
    CriticalExempt scoring m threshold ttl objects ↔
      ∀ obj ∈ objects, obj.sensitivityClass = .critical →
        obj.state = .candidate ∨ obj.state = .superseded → m.Quiet obj → m.Kept scoring obj := by
  unfold CriticalExempt
  rw [decaySweepWith_objects, Moment.decaySweep_objects]
  constructor
  · intro h obj hobj hclass hstate hquiet
    obtain ⟨k, hk⟩ := List.getElem?_of_mem hobj
    obtain ⟨-, hdecided⟩ := h k obj hk hclass hstate hquiet _ (by simp [hk]; rfl) _
      (by simp [hk]; rfl)
    by_contra hkept
    exact hdecided ((Moment.archived_decayed_iff scoring hquiet hstate).mpr hkept)
  · intro h k obj hk hclass hstate hquiet swept hswept decided hdecided
    have hkept := h obj (List.mem_of_getElem? hk) hclass hstate hquiet
    obtain rfl : (decayPassively scoring m.now threshold ttl obj {}).1 = swept := by
      simpa [Option.mem_def.mp hk] using hswept
    obtain rfl : m.decayed scoring obj = decided := by
      simpa [Option.mem_def.mp hk] using hdecided
    refine ⟨?_, fun hdown => ?_⟩
    · rw [state_decayPassively_of_critical scoring m.now threshold ttl hclass]
      rcases hstate with hs | hs <;> simp [hs]
    · exact (Moment.archived_decayed_iff scoring hquiet hstate).mp hdown hkept

/-- The sweep by policy archives a critical candidate of a low score. -/
theorem critical_archived_by_policy :
    ¬CriticalExempt hundredths ⟨.new hundredths, none, days 400⟩ 15 (days 90)
      [{ oldObject .candidate 0 0 with sensitivityClass := .critical }] := by
  intro h
  have hquiet : Moment.Quiet ⟨.new hundredths, none, days 400⟩
      { oldObject .candidate 0 0 with sensitivityClass := .critical } := by
    unfold Moment.Quiet
    decide +kernel
  obtain ⟨-, hdecided⟩ := h 0 _ rfl rfl (.inl rfl) hquiet _ rfl _ rfl
  exact absurd (by decide +kernel) hdecided

end

end Knowledge.Memory
