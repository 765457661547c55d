import Knowledge.Agent.Proposals
import Knowledge.Evidence.Rotation
import Knowledge.Memory.Sweeps
import Knowledge.Runtime.Boundary

/-!
`crates/memory_manager/src/user_memory.rs`, and the calls of `crates/ffi/src/lib.rs` and
`runtime.rs` that change user memories. A call edits the live object first and saves the scope's
blob afterwards; a blob that does not load when the store is opened leaves the scope without a
live object.
-/

set_option autoImplicit false

namespace Knowledge.Memory
open Knowledge.Sync (Uuid uuidText)

section

variable {F : Type}

structure Observation (F : Type) where
  object : MemoryObject F
  observationType : String
  content : String
  deriving DecidableEq

structure UserMemoryObject (F : Type) where
  userId : Uuid
  scopeId : ScopeId
  objects : List (Observation F)
  deriving DecidableEq

namespace UserMemoryObject

def new (userId : Uuid) (scopeId : ScopeId) : UserMemoryObject F := ⟨userId, scopeId, []⟩

def read (umo : UserMemoryObject F) (id : Uuid) : Option (Observation F) :=
  umo.objects.find? fun o => o.object.id = id

def addObservation (scoring : Scoring F) (umo : UserMemoryObject F)
    (observationType content : String) (sensitivityClass : SensitivityClass) (id : Uuid)
    (now : Int) : UserMemoryObject F :=
  { umo with objects := umo.objects ++ [⟨⟨id, umo.scopeId, .candidate, sensitivityClass,
      scoring.literal 0, now, now, none, 0, 0, 0, none, false⟩, observationType, content⟩] }

def edit (id : Uuid) (f : MemoryObject F → MemoryObject F) :
    List (Observation F) → List (Observation F)
  | [] => []
  | o :: rest =>
    if o.object.id = id then { o with object := f o.object } :: rest else o :: edit id f rest

/-- The change `pin` makes to its object. A candidate is always reinforced. -/
def pinned (scoring : Scoring F) (now : Int) (obj : MemoryObject F) : MemoryObject F :=
  let obj := { obj with pinCount := min (obj.pinCount+1) u32Max, lastAccessedAt := now }
  let obj := if obj.state = .candidate then (MemoryStateMachine.reinforce obj).toOption.getD obj
    else obj
  { obj with retentionScore := scoring.computeRetentionScore obj now }

def unpinned (scoring : Scoring F) (now : Int) (obj : MemoryObject F) : MemoryObject F :=
  let obj := { obj with pinCount := obj.pinCount-1, lastAccessedAt := now }
  { obj with retentionScore := scoring.computeRetentionScore obj now }

def editFound (umo : UserMemoryObject F) (id : Uuid) (f : MemoryObject F → MemoryObject F) :
    Except String (UserMemoryObject F) :=
  if (umo.read id).isSome then .ok { umo with objects := edit id f umo.objects }
  else .error ("memory object not found: " ++ uuidText id)

def pin (scoring : Scoring F) (umo : UserMemoryObject F) (id : Uuid) (now : Int) :
    Except String (UserMemoryObject F) :=
  umo.editFound id (pinned scoring now)

def unpin (scoring : Scoring F) (umo : UserMemoryObject F) (id : Uuid) (now : Int) :
    Except String (UserMemoryObject F) :=
  umo.editFound id (unpinned scoring now)

def decaySweep (scoring : Scoring F) (umo : UserMemoryObject F) (now : Int) :
    UserMemoryObject F × DecaySweepReport :=
  let swept := Memory.decaySweep scoring (umo.objects.map Observation.object) now
  ({ umo with objects := umo.objects.zipWith (fun o obj => { o with object := obj }) swept.1 },
    swept.2)

end UserMemoryObject

end

end Knowledge.Memory

namespace Knowledge.Runtime
open Knowledge.Sync (Uuid)
open Knowledge.Memory
open Knowledge.Agent (isBlank)
open Knowledge.Transition

/-- The live user memories, and the `user_memory` blobs on disk. A blob that loads gives back the
object that was saved. -/
structure UserMemories (F : Type) where
  live : ScopeId → Option (UserMemoryObject F)
  blobs : ScopeId → Option (UserMemoryObject F)

open UserMemories

/-- What the caller passes, what the clock and the UUID generator give, and what the database
will answer. The owner is the scope `locate_owning_scope` comes upon. -/
inductive UserCall where
  | addUserMemory (scopeId observationType content : String) (sensitivity : SensitivityClass)
    (id : Uuid) (now : Int) (registers saves : Answer)
  | pin (id : String) (owner : Option ScopeId) (now : Int) (saves : Answer)
  | unpin (id : String) (owner : Option ScopeId) (now : Int) (saves : Answer)
  | runDecaySweep (scopeId : String) (now : Int) (saves : Answer)

inductive UserResponse where
  | record (id : Uuid) (content : String)
  | unit
  | archived (count : Nat)
  deriving DecidableEq

namespace UserMemories

section

variable {F : Type}

def put (m : ScopeId → Option (UserMemoryObject F)) (scope : ScopeId) (umo : UserMemoryObject F) :
    ScopeId → Option (UserMemoryObject F) :=
  fun s => if s = scope then some umo else m s

def userMemoryMut (s : UserMemories F) (scope : ScopeId) : UserMemoryObject F :=
  (s.live scope).getD (.new scope scope)

def flushed (s : UserMemories F) (scope : ScopeId) (umo : UserMemoryObject F) (saves : Answer)
    (r : UserResponse) : UserMemories F × Except FfiError UserResponse :=
  match saves.orEvidence with
  | .error e => ({ s with live := put s.live scope umo }, .error e)
  | .ok _ => (⟨put s.live scope umo, put s.blobs scope umo⟩, .ok r)

variable (scoring : Scoring F) (parse : UuidParser) (forgotten : ScopeId → Bool)

def change (s : UserMemories F) (id : String) (owner : Option ScopeId) (saves : Answer)
    (f : UserMemoryObject F → Uuid → Except String (UserMemoryObject F)) :
    UserMemories F × Except FfiError UserResponse :=
  match parseUuid parse id with
  | .error e => (s, .error e)
  | .ok uuid =>
    match owner with
    | none => (s, .error (.notFound "memory" id))
    | some scope =>
      if forgotten scope then (s, .error (.notFound "memory" id))
      else
        match f (s.userMemoryMut scope) uuid with
        | .error e => (s, .error (.memory e))
        | .ok umo => s.flushed scope umo saves .unit

def run (s : UserMemories F) : UserCall → UserMemories F × Except FfiError UserResponse
  | .addUserMemory scopeId observationType content sensitivity id now registers saves =>
    match parseScopeId parse scopeId with
    | .error e => (s, .error e)
    | .ok scope =>
      if isBlank observationType then
        (s, .error (.invalidId "observation_type must not be empty"))
      else if isBlank content then (s, .error (.invalidId "content must not be empty"))
      else if forgotten scope then (s, .error (.notFound "scope" scopeId))
      else
        match registers.orEvidence with
        | .error e => (s, .error e)
        | .ok _ => s.flushed scope ((s.userMemoryMut scope).addObservation scoring observationType
            content sensitivity id now) saves (.record id content)
  | .pin id owner now saves =>
    s.change parse forgotten id owner saves fun umo uuid => umo.pin scoring uuid now
  | .unpin id owner now saves =>
    s.change parse forgotten id owner saves fun umo uuid => umo.unpin scoring uuid now
  | .runDecaySweep scopeId now saves =>
    match parseScopeId parse scopeId with
    | .error e => (s, .error e)
    | .ok scope =>
      if forgotten scope then (s, .ok (.archived 0))
      else if (s.live scope).isNone then (s, .ok (.archived 0))
      else
        let swept := (s.userMemoryMut scope).decaySweep scoring now
        s.flushed scope swept.1 saves (.archived
          (min (swept.2.candidatesArchived+swept.2.supersededArchived) u32Max))

/-- The store closed and opened again: the blobs that load, but for forgotten scopes. -/
def reopened (s : UserMemories F) (loads : ScopeId → Bool) : UserMemories F :=
  { s with live := fun scope => if !forgotten scope && loads scope then s.blobs scope else none }

end

end UserMemories

/-- An observation whose `add_user_memory` returned `Ok`. -/
structure Acknowledged where
  scope : ScopeId
  id : Uuid
  observationType : String
  content : String
  deriving DecidableEq

structure UserLedger (F : Type) where
  memories : UserMemories F
  acknowledged : List Acknowledged

inductive UserEvent where
  | call (c : UserCall)
  | reopen (loads : ScopeId → Bool)

section

variable {F : Type}

/-- The owner is one of the scopes that hold the object; without an owner none does. -/
def Located (parse : UuidParser) (s : UserMemories F) : UserCall → Prop
  | .pin id owner _ _ | .unpin id owner _ _ =>
    match owner with
    | some scope => ∃ uuid umo, parse id = .ok uuid ∧ s.live scope = some umo ∧
      (umo.read uuid).isSome = true
    | none => ∀ uuid scope umo, parse id = .ok uuid → s.live scope = some umo →
      umo.read uuid = none
  | _ => True

def UserCall.scope (parse : UuidParser) : UserCall → Option ScopeId
  | addUserMemory scopeId _ _ _ _ _ _ _ | runDecaySweep scopeId _ _ =>
    (parseScopeId parse scopeId).toOption
  | pin _ owner _ _ | unpin _ owner _ _ => owner

def UserCall.acknowledges (parse : UuidParser) :
    UserCall → Except FfiError UserResponse → List Acknowledged
  | addUserMemory scopeId observationType content _ id _ _ _, .ok _ =>
    match parseScopeId parse scopeId with
    | .ok scope => [⟨scope, id, observationType, content⟩]
    | .error _ => []
  | _, _ => []

variable (scoring : Scoring F) (parse : UuidParser) (forgotten : ScopeId → Bool)

def UserLedger.next (t : UserLedger F) : UserEvent → UserLedger F
  | .call c =>
    let done := t.memories.run scoring parse forgotten c
    ⟨done.1, t.acknowledged ++ c.acknowledges parse done.2⟩
  | .reopen loads => { t with memories := t.memories.reopened forgotten loads }

def userSystem : System (UserLedger F) UserEvent :=
  .ofNext (fun t => t.acknowledged = [] ∧ ∃ blobs loads,
      t.memories = (⟨fun _ => none, blobs⟩ : UserMemories F).reopened forgotten loads)
    (fun t event => ∀ c, event = .call c → Located parse t.memories c)
    (UserLedger.next scoring parse forgotten)

/-- A call that gets as far as saving the blob saves it, unless a sweep finds nothing to change;
and no call writes to, or sweeps, a scope whose blob is on disk and did not load. -/
def SavesLoaded (s : UserMemories F) : UserCall → Prop
  | .addUserMemory scopeId observationType content _ _ _ registers saves =>
    ∀ scope, parseScopeId parse scopeId = .ok scope → forgotten scope = false →
      isBlank observationType = false → isBlank content = false → registers = .ok () →
      saves = .ok () ∧ (s.live scope = none → s.blobs scope = none)
  | .pin _ owner _ saves | .unpin _ owner _ saves =>
    ∀ scope, owner = some scope → forgotten scope = false → saves = .ok ()
  | .runDecaySweep scopeId now saves =>
    ∀ scope, parseScopeId parse scopeId = .ok scope → forgotten scope = false →
      (s.live scope = none → s.blobs scope = none) ∧
      ∀ umo, s.live scope = some umo → saves = .ok () ∨ (umo.decaySweep scoring now).1 = umo

def EachSavesLoaded (t : UserLedger F) : UserEvent → Prop
  | .call c => SavesLoaded scoring parse forgotten t.memories c
  | .reopen _ => True

def Acknowledged.In (a : Acknowledged) (umo : UserMemoryObject F) : Prop :=
  ∃ o ∈ umo.objects, o.object.id = a.id ∧ o.observationType = a.observationType ∧
    o.content = a.content

end

section

variable {F : Type} {scoring : Scoring F} {parse : UuidParser} {forgotten : ScopeId → Bool}

@[simp] theorem id_pinned (now : Int) (obj : MemoryObject F) :
    (UserMemoryObject.pinned scoring now obj).id = obj.id := by
  simp only [UserMemoryObject.pinned, MemoryStateMachine.reinforce, MemoryStateMachine.expect]
  split
  · split <;> rfl
  · rfl

@[simp] theorem id_unpinned (now : Int) (obj : MemoryObject F) :
    (UserMemoryObject.unpinned scoring now obj).id = obj.id := rfl

theorem id_decayPassively (scoring : Scoring F) (now : Int) (threshold : F) (ttl : Int) (obj : MemoryObject F)
    (report report' : DecaySweepReport) :
    (decayPassively scoring now threshold ttl obj report).1 =
        (decayPassively scoring now threshold ttl obj report').1 ∧
      (decayPassively scoring now threshold ttl obj report).1.id = obj.id := by
  simp only [decayPassively, attempt, archiveCandidate, archiveSuperseded,
    MemoryStateMachine.expect]
  split
  · rename_i h
    simp [h.1]
  · split
    · rename_i h
      simp [h.1]
    · simp

theorem Acknowledged.In.edit {a : Acknowledged} {umo : UserMemoryObject F} (h : a.In umo)
    (id : Uuid) {f : MemoryObject F → MemoryObject F} (hf : ∀ obj, (f obj).id = obj.id) :
    a.In { umo with objects := UserMemoryObject.edit id f umo.objects } := by
  obtain ⟨o, ho, hid, htype, hcontent⟩ := h
  obtain ⟨userId, scopeId, objects⟩ := umo
  simp only [Acknowledged.In] at *
  induction objects with
  | nil => cases ho
  | cons x rest ih =>
    simp only [UserMemoryObject.edit]
    split
    · obtain rfl | ho := List.mem_cons.mp ho
      · exact ⟨_, List.mem_cons_self, by simp [hf, hid], htype, hcontent⟩
      · exact ⟨o, List.mem_cons_of_mem _ ho, hid, htype, hcontent⟩
    · obtain rfl | ho := List.mem_cons.mp ho
      · exact ⟨o, List.mem_cons_self, hid, htype, hcontent⟩
      · obtain ⟨o', ho', h'⟩ := ih ho
        exact ⟨o', List.mem_cons_of_mem _ ho', h'⟩

theorem Acknowledged.In.sweep {a : Acknowledged} {umo : UserMemoryObject F} (h : a.In umo)
    (now : Int) : a.In (umo.decaySweep scoring now).1 := by
  obtain ⟨o, ho, hid, htype, hcontent⟩ := h
  let g : MemoryObject F → MemoryObject F := fun obj =>
    (decayPassively scoring now (scoring.literal 15) (days 90) obj {}).1
  have hswept : (Memory.decaySweep scoring (umo.objects.map Observation.object) now).1 =
      (umo.objects.map Observation.object).map g :=
    sweepLoop_fst (fun obj report => (id_decayPassively ..).1) _ _
  refine ⟨{ o with object := g o.object }, ?_, ?_, htype, hcontent⟩
  · simp only [UserMemoryObject.decaySweep, hswept, List.map_map, List.zipWith_map_right]
    rw [List.zipWith_self]
    exact List.mem_map_of_mem ho
  · exact (id_decayPassively scoring now _ _ o.object {} {}).2.trans hid

/-- What the calls leave behind: a live object is the one on disk, and what was acknowledged is on
disk. -/
structure Kept (t : UserLedger F) : Prop where
  synced : ∀ scope, t.memories.live scope = none ∨
    t.memories.live scope = t.memories.blobs scope
  stored : ∀ a ∈ t.acknowledged, ∃ umo, t.memories.blobs a.scope = some umo ∧ a.In umo

/-- What a call may do: it changes nothing, or the live object and the blob of its scope become
one object, which keeps every observation there was; an addition is then among them. -/
inductive Outcome (parse : UuidParser) (forgotten : ScopeId → Bool) (s s' : UserMemories F)
    (c : UserCall) (r : Except FfiError UserResponse) : Prop where
  | unchanged (hs : s' = s) (hack : c.acknowledges parse r = [])
    (hok : ∀ v, r = .ok v → ∀ scope, c.scope parse = some scope → forgotten scope = false →
      s.live scope = s.blobs scope)
  | saved (scope : ScopeId) (umo : UserMemoryObject F) (v : UserResponse)
    (hscope : c.scope parse = some scope)
    (hs : s' = ⟨UserMemories.put s.live scope umo, UserMemories.put s.blobs scope umo⟩)
    (hr : r = .ok v)
    (hkeeps : ∀ a : Acknowledged, (∃ old, s.blobs scope = some old ∧ a.In old) → a.In umo)
    (hack : ∀ a ∈ c.acknowledges parse r, a.scope = scope ∧ a.In umo)

section

variable {s : UserMemories F}

theorem Outcome.error {c : UserCall} (e : FfiError) :
    Outcome parse forgotten s s c (.error e) := by
  refine .unchanged rfl ?_ fun v hv => by cases hv
  cases c <;> rfl

theorem userMemoryMut_keeps {scope : ScopeId} {old : UserMemoryObject F}
    (hsync : s.live scope = none ∨ s.live scope = s.blobs scope)
    (hloaded : s.live scope = none → s.blobs scope = none) (hold : s.blobs scope = some old) :
    s.userMemoryMut scope = old := by
  obtain hnone | hlive := hsync
  · rw [hloaded hnone] at hold
    cases hold
  · simp [userMemoryMut, hlive, hold]

theorem put_live {scope : ScopeId} {umo : UserMemoryObject F}
    (h : s.live scope = some umo) : { s with live := put s.live scope umo } = s := by
  have hput : put s.live scope umo = s.live := by
    funext scope'
    unfold put
    split
    · simp_all
    · rfl
  rw [hput]

theorem change_outcome {c : UserCall} {id : String} {owner : Option ScopeId}
    {saves : Answer} {f : UserMemoryObject F → Uuid → Except String (UserMemoryObject F)}
    {g : MemoryObject F → MemoryObject F} (hg : ∀ obj, (g obj).id = obj.id)
    (hf : ∀ umo uuid, f umo uuid = umo.editFound uuid g)
    (hsync : ∀ scope, s.live scope = none ∨ s.live scope = s.blobs scope)
    (howner : ∀ scope, owner = some scope → s.live scope ≠ none) (hscope : c.scope parse = owner)
    (hack : ∀ r, c.acknowledges parse r = [])
    (hsaves : ∀ scope, owner = some scope → forgotten scope = false → saves = .ok ()) :
    Outcome parse forgotten s (s.change parse forgotten id owner saves f).1 c
      (s.change parse forgotten id owner saves f).2 := by
  unfold change
  split
  · exact .error _
  · rename_i uuid _
    cases owner with
    | none => exact .error _
    | some scope =>
      simp only [hf]
      split
      · exact .error _
      · rename_i hfor
        split
        · exact .error _
        · rename_i umo humo
          unfold UserMemoryObject.editFound at humo
          split at humo
          · obtain rfl := Except.ok.inj humo
            simp only [flushed, hsaves scope rfl (by simpa using hfor), Answer.orEvidence]
            refine .saved scope _ .unit hscope rfl rfl ?_ (by simp [hack])
            intro a ⟨old, hold, ha⟩
            rw [userMemoryMut_keeps (hsync scope) (fun h => absurd h (howner scope rfl)) hold]
            exact ha.edit uuid hg
          · cases humo

theorem run_outcome {c : UserCall}
    (hsync : ∀ scope, s.live scope = none ∨ s.live scope = s.blobs scope)
    (hlocated : Located parse s c) (hsaves : SavesLoaded scoring parse forgotten s c) :
    Outcome parse forgotten s (s.run scoring parse forgotten c).1 c
      (s.run scoring parse forgotten c).2 := by
  cases c with
  | addUserMemory scopeId observationType content sensitivity id now registers saves =>
    simp only [run]
    split
    · exact .error _
    · rename_i scope hscope
      split
      · exact .error _
      · split
        · exact .error _
        · split
          · exact .error _
          · rename_i htype hcontent hfor
            split
            · exact .error _
            · rename_i hreg
              have hregisters : registers = .ok () := by
                cases registers with
                | ok => rfl
                | error e => cases hreg
              obtain ⟨rfl, hloaded⟩ := hsaves scope hscope (by simpa using hfor)
                (by simpa using htype) (by simpa using hcontent) hregisters
              simp only [flushed, Answer.orEvidence]
              refine .saved scope _ (.record id content) (by simp [UserCall.scope, hscope, Except.toOption])
                rfl rfl ?_ ?_
              · intro a ⟨old, hold, o, ho, ha⟩
                rw [userMemoryMut_keeps (hsync scope) hloaded hold]
                exact ⟨o, List.mem_append_left _ ho, ha⟩
              · simp [UserCall.acknowledges, hscope, Acknowledged.In,
                  UserMemoryObject.addObservation]
  | pin id owner now saves =>
    refine change_outcome (id_pinned now) (fun _ _ => rfl) hsync ?_ rfl (fun _ => rfl) hsaves
    rintro scope rfl hnone
    obtain ⟨_, umo, _, hlive, _⟩ := hlocated
    simp [hnone] at hlive
  | unpin id owner now saves =>
    refine change_outcome (id_unpinned now) (fun _ _ => rfl) hsync ?_ rfl (fun _ => rfl) hsaves
    rintro scope rfl hnone
    obtain ⟨_, umo, _, hlive, _⟩ := hlocated
    simp [hnone] at hlive
  | runDecaySweep scopeId now saves =>
    simp only [run]
    split
    · exact .error _
    · rename_i scope hscope
      have hcall : (UserCall.runDecaySweep scopeId now saves).scope parse = some scope := by
        simp [UserCall.scope, hscope, Except.toOption]
      split
      · rename_i hfor
        refine .unchanged rfl rfl fun v _ scope' hscope' hfor' => ?_
        rw [hcall] at hscope'
        simp_all
      · rename_i hfor
        obtain ⟨hloaded, hsave⟩ := hsaves scope hscope (by simpa using hfor)
        split
        · rename_i hnone
          refine .unchanged rfl rfl fun v _ scope' hscope' hfor' => ?_
          rw [hcall] at hscope'
          obtain rfl := Option.some.inj hscope'
          rw [Option.isNone_iff_eq_none] at hnone
          rw [hnone, hloaded hnone]
        · rename_i hsome
          obtain ⟨umo, hlive⟩ := Option.ne_none_iff_exists'.mp (by simpa using hsome)
          have hmut : s.userMemoryMut scope = umo := by
            simp [userMemoryMut, hlive]
          have hdisk : s.blobs scope = some umo := by
            have := hsync scope
            simp_all
          simp only [hmut]
          cases saves with
          | ok =>
            refine .saved scope _ _ hcall rfl rfl ?_ (by simp [UserCall.acknowledges])
            intro a ⟨old, hold, ha⟩
            rw [hdisk] at hold
            obtain rfl := Option.some.inj hold
            exact ha.sweep now
          | error e =>
            have hsame : (umo.decaySweep scoring now).1 = umo := by
              simpa using hsave umo hlive
            simp only [flushed, Answer.orEvidence, hsame]
            rw [put_live hlive]
            exact .error _

end

theorem Kept.call {t : UserLedger F} (h : Kept t) {c : UserCall}
    (hlocated : Located parse t.memories c)
    (hsaves : SavesLoaded scoring parse forgotten t.memories c) :
    Kept (t.next scoring parse forgotten (.call c)) := by
  simp only [UserLedger.next]
  obtain ⟨hs, hack, -⟩ | ⟨scope, umo, v, -, hs, -, hkeeps, hack⟩ :=
    run_outcome h.synced hlocated hsaves
  · rw [hs, hack, List.append_nil]
    exact h
  · rw [hs]
    refine ⟨fun scope' => ?_, fun a ha => ?_⟩
    · simp only [put]
      split
      · exact .inr rfl
      · exact h.synced scope'
    · simp only [put]
      split
      · rename_i hscope
        refine ⟨umo, rfl, ?_⟩
        obtain ha | ha := List.mem_append.mp ha
        · exact hkeeps a (hscope ▸ h.stored a ha)
        · exact (hack a ha).2
      · rename_i hscope
        obtain ha | ha := List.mem_append.mp ha
        · exact h.stored a ha
        · exact absurd (hack a ha).1 hscope

theorem kept {t : UserLedger F} (h : ((userSystem scoring parse forgotten).restrict
    (EachSavesLoaded scoring parse forgotten)).Reachable t) : Kept t := by
  refine System.Reachable.invariant Kept ?_ ?_ h
  · intro t ⟨hack, blobs, loads, hs⟩
    refine ⟨fun scope => ?_, by simp [hack]⟩
    rw [hs]
    simp only [reopened]
    split <;> simp
  · intro t event t' _ ht ⟨⟨hguard, ht'⟩, hsaves⟩
    subst ht'
    cases event with
    | call c => exact ht.call (hguard c rfl) hsaves
    | reopen loads =>
      refine ⟨fun scope => ?_, ht.stored⟩
      simp only [UserLedger.next, reopened]
      split <;> simp

/-- In a run in which blobs that have to be saved are saved, and no call touches a scope whose
blob did not load, a failed call changes nothing, an acknowledged one leaves the live object as it
is on disk, and every observation that was acknowledged is on disk and in the live object of its
scope, if that has been loaded. -/
theorem user_memories_kept (scoring : Scoring F) (parse : UuidParser) (forgotten : ScopeId → Bool)
    (t : UserLedger F) (h : ((userSystem scoring parse forgotten).restrict
      (EachSavesLoaded scoring parse forgotten)).Reachable t) :
    (∀ c, Located parse t.memories c → SavesLoaded scoring parse forgotten t.memories c →
      (∀ e, (t.memories.run scoring parse forgotten c).2 = .error e →
        (t.memories.run scoring parse forgotten c).1 = t.memories) ∧
      ∀ v, (t.memories.run scoring parse forgotten c).2 = .ok v →
        ∀ scope, c.scope parse = some scope → forgotten scope = false →
          (t.memories.run scoring parse forgotten c).1.live scope =
            (t.memories.run scoring parse forgotten c).1.blobs scope) ∧
    ∀ a ∈ t.acknowledged, (∃ umo, t.memories.blobs a.scope = some umo ∧ a.In umo) ∧
      ∀ umo, t.memories.live a.scope = some umo → a.In umo := by
  have hkept := kept h
  refine ⟨fun c hlocated hsaves => ?_, fun a ha => ⟨hkept.stored a ha, fun umo humo => ?_⟩⟩
  · obtain ⟨hs, -, hok⟩ | ⟨scope, umo, v, hscope, hs, hr, -, -⟩ :=
      run_outcome hkept.synced hlocated hsaves
    · refine ⟨fun _ _ => hs, fun v hv scope hscope hfor => ?_⟩
      rw [hs]
      exact hok v hv scope hscope hfor
    · refine ⟨fun e he => ?_, fun _ _ scope' hscope' _ => ?_⟩
      · rw [hr] at he
        cases he
      rw [hscope] at hscope'
      obtain rfl := Option.some.inj hscope'
      rw [hs]
      simp [put]
  · obtain ⟨umo', humo', hin⟩ := hkept.stored a ha
    obtain hnone | hsame := hkept.synced a.scope
    · rw [humo] at hnone
      cases hnone
    · rw [humo, humo'] at hsame
      rw [Option.some.inj hsame]
      exact hin

end

def evenScores : Scoring Nat := ⟨fun _ _ => 50, fun a b => decide (a < b), fun a b => decide (a ≥ b), id⟩

def sampleParser : UuidParser := fun s =>
  if s = "00000000-0000-4000-8000-000000000007" then .ok 0x40008000000000000007
  else if s = "00000000-0000-4000-8000-00000000000b" then .ok 0x4000800000000000000b
  else .error "invalid length"

def homeScope : ScopeId := 0x40008000000000000007

def remember (content : String) (id : Uuid) (saves : Answer) : UserEvent :=
  .call (.addUserMemory "00000000-0000-4000-8000-000000000007" "fact" content .useful id 100 (.ok ())
    saves)

def remembered (events : List UserEvent) : UserLedger Nat :=
  events.foldl (UserLedger.next evenScores sampleParser fun _ => false)
    ⟨⟨fun _ => none, fun _ => none⟩, []⟩

theorem remembered_init : (userSystem evenScores sampleParser fun _ => false).init
    ⟨⟨fun _ => none, fun _ => none⟩, []⟩ := by
  refine ⟨rfl, fun _ => none, fun _ => true, ?_⟩
  simp [reopened]

def addThenReopen : List UserEvent :=
  [remember "the key is under the mat" 0x4000800000000000000b (.ok ()), .reopen fun _ => true]

theorem user_memories_kept_reopened :
    ((userSystem evenScores sampleParser fun _ => false).restrict
      (EachSavesLoaded evenScores sampleParser fun _ => false)).Reachable
        (remembered addThenReopen) ∧
    ⟨homeScope, 0x4000800000000000000b, "fact", "the key is under the mat"⟩ ∈
      (remembered addThenReopen).acknowledged ∧
    ∀ a ∈ (remembered addThenReopen).acknowledged,
      ∀ umo, (remembered addThenReopen).memories.live a.scope = some umo → a.In umo := by
  have hrun : ((userSystem evenScores sampleParser fun _ => false).restrict
      (EachSavesLoaded evenScores sampleParser fun _ => false)).Reachable
        (remembered addThenReopen) := by
    refine Legal.reachable_restrict ⟨⟨?_, ?_⟩, ⟨by simp, trivial⟩, trivial⟩ (.init remembered_init)
    · intro c hc
      obtain rfl := UserEvent.call.inj hc
      trivial
    · intro scope _ _ _ _ _
      exact ⟨rfl, fun _ => rfl⟩
  refine ⟨hrun, by decide +kernel, fun a ha => ?_⟩
  exact ((user_memories_kept evenScores sampleParser (fun _ => false) _ hrun).2 a ha).2

def savedOver : List UserEvent :=
  [remember "the key is under the mat" 0x4000800000000000000b (.ok ()), .reopen fun _ => false,
    remember "milk" 0x4000800000000000000c (.ok ()), .reopen fun _ => true]

/-- A call whose save fails leaves the observation it did not acknowledge in the live object; and
an acknowledged observation is gone from disk and from the live object. -/
theorem user_memory_lost :
    (∃ e, ((remembered []).memories.run evenScores sampleParser (fun _ => false)
        (.addUserMemory "00000000-0000-4000-8000-000000000007" "fact" "milk" .useful 1 100 (.ok ())
          (.error "disk I/O error"))).2 = .error e ∧
      ((remembered []).memories.run evenScores sampleParser (fun _ => false)
        (.addUserMemory "00000000-0000-4000-8000-000000000007" "fact" "milk" .useful 1 100 (.ok ())
          (.error "disk I/O error"))).1.live homeScope ≠ (remembered []).memories.live homeScope) ∧
    (userSystem evenScores sampleParser fun _ => false).Reachable (remembered savedOver) ∧
      ∃ a umo, a ∈ (remembered savedOver).acknowledged ∧
        (remembered savedOver).memories.live a.scope = some umo ∧ ¬a.In umo := by
  refine ⟨⟨.evidence "disk I/O error", by decide +kernel, by decide +kernel⟩, ?_,
    ⟨homeScope, 0x4000800000000000000b, "fact", "the key is under the mat"⟩,
    ⟨homeScope, homeScope, [⟨⟨0x4000800000000000000c, homeScope, .candidate, .useful, 0, 100, 100,
      none, 0, 0, 0, none, false⟩, "fact", "milk"⟩]⟩, by decide +kernel, by decide +kernel, ?_⟩
  · have hlegal : Legal (fun t event => ∀ c, event = UserEvent.call c → Located sampleParser t.memories c)
        (UserLedger.next evenScores sampleParser fun _ => false)
        ⟨⟨fun _ => none, fun _ => none⟩, []⟩ savedOver := by
      simp [Legal, savedOver, remember, Located]
    exact hlegal.reachable (.init remembered_init)
  · simp [Acknowledged.In]

end Knowledge.Runtime
