import Mathlib.Data.Prod.Lex
import Knowledge.Lib.Table
import Knowledge.Lib.Transition
import Knowledge.Sync.AddWinsSet

/-!
The election of the device that synthesises for a small group, after
`crates/synthesis_pipeline/src/election.rs`.
-/

set_option autoImplicit false

namespace Knowledge.Synthesis.Election
open Knowledge.Sync (Uuid)
open Knowledge.Transition

inductive DeviceTier where
  | low
  | medium
  | high
  deriving DecidableEq

def DeviceTier.rank : DeviceTier → Nat
  | .low => 0
  | .medium => 1
  | .high => 2

structure ElectionCandidate where
  deviceId : Uuid
  tier : DeviceTier
  online : Bool
  batteryPct : Nat
  lastHeartbeat : Int
  steppedDown : Bool
  deriving DecidableEq

open ElectionCandidate

structure SynthesizerElection where
  candidates : Table Uuid ElectionCandidate
  elected : Option Uuid
  heartbeatTtl : Int
  batteryFloor : Nat

inductive PipelineError where
  | candidateNotFound (deviceId : Uuid)
  | noEligibleSynthesizer

/-- `Iterator::max_by`: of equal elements the last. -/
def maxBy {α : Type} (cmp : α → α → Ordering) : List α → Option α
  | [] => none
  | a :: as => some (as.foldl (fun x y => if cmp x y = .gt then x else y) a)

namespace ElectionCandidate

def isEligible (c : ElectionCandidate) (now ttl : Int) (batteryFloor : Nat) : Bool :=
  if c.steppedDown || !c.online then false
  else if c.batteryPct < batteryFloor then false
  else if c.tier.rank < DeviceTier.medium.rank then false
  else now - c.lastHeartbeat < ttl

def cmp (a b : ElectionCandidate) : Ordering :=
  (compare a.tier.rank b.tier.rank).then
    ((compare a.lastHeartbeat b.lastHeartbeat).then
      ((compare a.batteryPct b.batteryPct).then (compare a.deviceId.toNat b.deviceId.toNat)))

/-- What `cmp` compares, as one value. -/
def key (c : ElectionCandidate) : Nat ×ₗ Int ×ₗ Nat ×ₗ Nat :=
  toLex (c.tier.rank, toLex (c.lastHeartbeat, toLex (c.batteryPct, c.deviceId.toNat)))

end ElectionCandidate

namespace SynthesizerElection

section

variable (e : SynthesizerElection)

def register (c : ElectionCandidate) : SynthesizerElection :=
  { e with candidates := e.candidates.insert c.deviceId c }

def update (deviceId : Uuid) (f : ElectionCandidate → ElectionCandidate) (elected : Option Uuid) :
    SynthesizerElection × Except PipelineError Unit :=
  match e.candidates.lookup deviceId with
  | none => (e, .error (.candidateNotFound deviceId))
  | some c => ({ e with candidates := e.candidates.insert deviceId (f c), elected }, .ok ())

def heartbeat (deviceId : Uuid) (now : Int) :
    SynthesizerElection × Except PipelineError Unit :=
  e.update deviceId (fun c => { c with lastHeartbeat := now, steppedDown := false }) e.elected

def stepDown (deviceId : Uuid) :
    SynthesizerElection × Except PipelineError Unit :=
  e.update deviceId (fun c => { c with steppedDown := true })
    (if e.elected = some deviceId then none else e.elected)

def markOffline (deviceId : Uuid) :
    SynthesizerElection × Except PipelineError Unit :=
  e.update deviceId (fun c => { c with online := false })
    (if e.elected = some deviceId then none else e.elected)

def isSynthesizer (deviceId : Uuid) : Bool := e.elected = some deviceId

/-- `values` is what the map of the candidates is iterated as. -/
def elect (now : Int) (values : List ElectionCandidate) :
    SynthesizerElection × Except PipelineError Uuid :=
  let eligible := values.filter fun c => c.isEligible now e.heartbeatTtl e.batteryFloor
  match (maxBy ElectionCandidate.cmp eligible).map ElectionCandidate.deviceId with
  | some id => ({ e with elected := some id }, .ok id)
  | none => ({ e with elected := none }, .error .noEligibleSynthesizer)

end

inductive Call where
  | register (c : ElectionCandidate)
  | heartbeat (deviceId : Uuid) (now : Int)
  | stepDown (deviceId : Uuid)
  | markOffline (deviceId : Uuid)
  | elect (now : Int) (values : List ElectionCandidate)

def next (e : SynthesizerElection) : Call → SynthesizerElection
  | .register c => e.register c
  | .heartbeat deviceId now => (e.heartbeat deviceId now).1
  | .stepDown deviceId => (e.stepDown deviceId).1
  | .markOffline deviceId => (e.markOffline deviceId).1
  | .elect now values => (e.elect now values).1

def Iterates (e : SynthesizerElection) (values : List ElectionCandidate) : Prop :=
  values.Perm (e.candidates.rows.map Prod.snd)

def Guard (e : SynthesizerElection) : Call → Prop
  | .elect _ values => e.Iterates values
  | _ => True

def system : System SynthesizerElection Call :=
  .ofNext (fun e => e.candidates = ∅ ∧ e.elected = none) Guard next

def Call.Withdraws (deviceId : Uuid) : Call → Prop
  | .stepDown id => id = deviceId
  | .markOffline id => id = deviceId
  | _ => False

def Call.isElect : Call → Bool
  | .elect _ _ => true
  | _ => false

/-- The device is eligible, and every other eligible one compares less. -/
def Best (e : SynthesizerElection) (now : Int) (deviceId : Uuid) : Prop :=
  ∃ c, e.candidates.lookup deviceId = some c ∧
    c.isEligible now e.heartbeatTtl e.batteryFloor = true ∧
    ∀ id d, e.candidates.lookup id = some d →
      d.isEligible now e.heartbeatTtl e.batteryFloor = true → id ≠ deviceId → d.key < c.key

end SynthesizerElection

section Choice

theorem cmp_eq_gt_iff (a b : ElectionCandidate) : a.cmp b = .gt ↔ b.key < a.key := by
  simp only [ElectionCandidate.cmp, ElectionCandidate.key, Ordering.then_eq_gt, compare_gt_iff_gt,
    compare_eq_iff_eq, Prod.Lex.toLex_lt_toLex]
  constructor <;> intro h <;> omega

theorem maxBy_some {l : List ElectionCandidate} {m : ElectionCandidate}
    (h : maxBy cmp l = some m) : m ∈ l ∧ ∀ c ∈ l, c.key ≤ m.key := by
  cases l with
  | nil => cases h
  | cons a as =>
    obtain rfl := Option.some.inj h
    induction as generalizing a with
    | nil => simp
    | cons b as ih =>
      rw [List.foldl_cons]
      split
      · rename_i hgt
        obtain ⟨hmem, hle⟩ := ih a rfl
        have hab := (cmp_eq_gt_iff a b).mp hgt
        refine ⟨by grind, fun c hc => ?_⟩
        obtain rfl | rfl | hc := by simpa using hc
        · exact hle c List.mem_cons_self
        · exact hab.le.trans (hle a List.mem_cons_self)
        · exact hle c (List.mem_cons_of_mem _ hc)
      · rename_i hgt
        obtain ⟨hmem, hle⟩ := ih b rfl
        have hab := not_lt.mp (mt (cmp_eq_gt_iff a b).mpr hgt)
        refine ⟨by grind, fun c hc => ?_⟩
        obtain rfl | rfl | hc := by simpa using hc
        · exact hab.trans (hle b List.mem_cons_self)
        · exact hle c List.mem_cons_self
        · exact hle c (List.mem_cons_of_mem _ hc)

theorem key_injective {c d : ElectionCandidate} (h : c.key = d.key) : c.deviceId = d.deviceId := by
  have hnat : c.deviceId.toNat = d.deviceId.toNat :=
    congrArg (fun k => (ofLex (ofLex (ofLex k).2).2).2) h
  exact BitVec.eq_of_toNat_eq hnat

end Choice

namespace SynthesizerElection

variable {e : SynthesizerElection}

structure Inv (e : SynthesizerElection) : Prop where
  keyed : ∀ id c, e.candidates.lookup id = some c → c.deviceId = id
  registered : ∀ id, e.elected = some id → ∃ c, e.candidates.lookup id = some c

theorem update_cases (e : SynthesizerElection) (deviceId : Uuid)
    (f : ElectionCandidate → ElectionCandidate) (elected : Option Uuid) :
    (e.candidates.lookup deviceId = none ∧ (e.update deviceId f elected).1 = e) ∨
      ∃ c, e.candidates.lookup deviceId = some c ∧ (e.update deviceId f elected).1 =
        { e with candidates := e.candidates.insert deviceId (f c), elected } := by
  unfold update
  cases e.candidates.lookup deviceId with
  | none => exact .inl ⟨rfl, rfl⟩
  | some c => exact .inr ⟨c, rfl, rfl⟩

theorem Inv.insert (h : e.Inv) {c : ElectionCandidate} {elected : Option Uuid}
    (helected : elected = none ∨ elected = e.elected) :
    Inv { e with candidates := e.candidates.insert c.deviceId c, elected } := by
  refine ⟨fun id d hd => ?_, fun id hid => ?_⟩
  · rw [Table.lookup_insert_ite] at hd
    split at hd
    · rename_i heq
      obtain rfl := Option.some.inj hd
      exact heq.symm
    · exact h.keyed id d hd
  · obtain rfl | rfl := helected
    · cases hid
    · obtain ⟨d, hd⟩ := h.registered id hid
      simp only [Table.lookup_insert_ite]
      split
      · exact ⟨c, rfl⟩
      · exact ⟨d, hd⟩

theorem Inv.update (h : e.Inv) (deviceId : Uuid) {f : ElectionCandidate → ElectionCandidate}
    (hf : ∀ c, (f c).deviceId = c.deviceId) {elected : Option Uuid}
    (helected : elected = none ∨ elected = e.elected) : Inv (e.update deviceId f elected).1 := by
  obtain ⟨-, heq⟩ | ⟨c, hc, heq⟩ := e.update_cases deviceId f elected
  · rwa [heq]
  · have hid : (f c).deviceId = deviceId := (hf c).trans (h.keyed deviceId c hc)
    rw [heq, ← hid]
    exact h.insert helected

theorem mem_iterated (h : e.Inv) {values : List ElectionCandidate} (hv : e.Iterates values)
    {c : ElectionCandidate} : c ∈ values ↔ e.candidates.lookup c.deviceId = some c := by
  rw [hv.mem_iff, List.mem_map]
  constructor
  · rintro ⟨⟨id, d⟩, hrow, rfl⟩
    have hd := Table.mem_rows_iff.mp hrow
    rwa [h.keyed id d hd]
  · exact fun hc => ⟨(c.deviceId, c), Table.mem_rows_iff.mpr hc, rfl⟩

theorem elect_iff (h : e.Inv) {now : Int} {values : List ElectionCandidate}
    (hv : e.Iterates values) (id : Uuid) :
    (e.elect now values).1.elected = some id ↔ e.Best now id := by
  let eligible := values.filter fun c => c.isEligible now e.heartbeatTtl e.batteryFloor
  have hmem : ∀ c, c ∈ eligible ↔ e.candidates.lookup c.deviceId = some c ∧
      c.isEligible now e.heartbeatTtl e.batteryFloor = true := fun c => by
    rw [List.mem_filter, mem_iterated h hv]
  have helected : (e.elect now values).1.elected =
      (maxBy cmp eligible).map deviceId := by
    unfold elect
    dsimp only
    split <;> rename_i heq <;> exact heq.symm
  rw [helected, Option.map_eq_some_iff]
  constructor
  · rintro ⟨m, hm, rfl⟩
    obtain ⟨hin, hle⟩ := maxBy_some hm
    obtain ⟨hlookup, hok⟩ := (hmem m).mp hin
    refine ⟨m, hlookup, hok, fun id d hd hdok hne => ?_⟩
    obtain rfl := h.keyed id d hd
    exact (hle d ((hmem d).mpr ⟨hd, hdok⟩)).lt_of_ne fun heq => hne (key_injective heq)
  · rintro ⟨c, hc, hok, hbest⟩
    obtain rfl := h.keyed id c hc
    have hin : c ∈ eligible := (hmem c).mpr ⟨hc, hok⟩
    cases hm : maxBy cmp eligible with
    | none =>
      cases hl : eligible with
      | nil => simp [hl] at hin
      | cons a as => simp [hl, maxBy] at hm
    | some m =>
      obtain ⟨hmin, hle⟩ := maxBy_some hm
      obtain ⟨hlookup, hmok⟩ := (hmem m).mp hmin
      refine ⟨m, rfl, ?_⟩
      by_contra hne
      exact absurd (hbest _ m hlookup hmok hne) (not_lt.mpr (hle c hin))

theorem Inv.next (h : e.Inv) {call : Call} (hg : e.Guard call) : (e.next call).Inv := by
  have hwithdrawn : ∀ id, (if e.elected = some id then none else e.elected) = none ∨
      (if e.elected = some id then none else e.elected) = e.elected := by grind
  cases call with
  | register c => exact h.insert (.inr rfl)
  | heartbeat id now =>
    exact @Inv.update e h id (fun c => { c with lastHeartbeat := now, steppedDown := false })
      (fun _ => rfl) _ (.inr rfl)
  | stepDown id =>
    exact @Inv.update e h id (fun c => { c with steppedDown := true }) (fun _ => rfl) _
      (hwithdrawn id)
  | markOffline id =>
    exact @Inv.update e h id (fun c => { c with online := false }) (fun _ => rfl) _
      (hwithdrawn id)
  | elect now values =>
    have hsame : (e.next (.elect now values)).candidates = e.candidates := by
      simp only [SynthesizerElection.next, elect]
      split <;> rfl
    refine ⟨hsame ▸ h.keyed, fun id hid => ?_⟩
    obtain ⟨c, hc, -⟩ := (elect_iff h hg id).mp hid
    exact ⟨c, hsame ▸ hc⟩

/-- Only the device itself loses the role, and only by such a call. -/
theorem elected_next_iff (h : e.Inv) {call : Call} (hcall : call.isElect = false) (id : Uuid) :
    (e.next call).elected = some id ↔ e.elected = some id ∧ ¬call.Withdraws id := by
  have hwithdraw : ∀ k f,
      (e.update k f (if e.elected = some k then none else e.elected)).1.elected = some id ↔
        e.elected = some id ∧ ¬k = id := by
    intro k f
    obtain ⟨hnone, heq⟩ | ⟨c, -, heq⟩ := e.update_cases k f
      (if e.elected = some k then none else e.elected)
    · rw [heq]
      refine ⟨fun hid => ⟨hid, fun hk => ?_⟩, And.left⟩
      obtain ⟨c, hc⟩ := h.registered id hid
      rw [hk, hc] at hnone
      cases hnone
    · rw [heq]
      grind
  cases call with
  | register c => simp [SynthesizerElection.next, register, Call.Withdraws]
  | heartbeat k now =>
    have hsame : (e.next (.heartbeat k now)).elected = e.elected := by
      simp only [SynthesizerElection.next, heartbeat, update]
      split <;> rfl
    simp [hsame, Call.Withdraws]
  | stepDown k => exact hwithdraw k _
  | markOffline k => exact hwithdraw k _
  | elect now values => cases hcall

theorem inv_of_reachable (h : system.Reachable e) : e.Inv := by
  refine h.invariant Inv (fun e he => ?_) fun e call e' _ he hstep => ?_
  · obtain ⟨hempty, hnobody⟩ := he
    exact ⟨fun id c hc => by simp [hempty] at hc, fun id hid => by simp [hnobody] at hid⟩
  · rw [hstep.2]
    exact he.next hstep.1

/-- In every run, the synthesizer is the device that was best at the last election, whatever order
the candidates were gone through in, unless that device has stepped down or was marked offline
since; before the first election there is none. -/
theorem synthesizer_iff (h : system.Reachable e) {now : Int} {values : List ElectionCandidate}
    (hv : e.Iterates values) {after : List Call} (hafter : ∀ c ∈ after, c.isElect = false)
    (id : Uuid) :
    ((after.foldl next (e.next (.elect now values))).isSynthesizer id = true ↔
      e.Best now id ∧ ∀ c ∈ after, ¬c.Withdraws id) ∧
    ∀ started, system.init started → (after.foldl next started).isSynthesizer id = false := by
  have hinv := inv_of_reachable h
  have hrest : ∀ e : SynthesizerElection, e.Inv →
      ((after.foldl next e).elected = some id ↔
        e.elected = some id ∧ ∀ c ∈ after, ¬c.Withdraws id) := by
    induction after with
    | nil => simp
    | cons c after ih =>
      intro e he
      have hc := hafter c List.mem_cons_self
      have hg : e.Guard c := by
        cases c with
        | elect now values => cases hc
        | _ => trivial
      rw [List.foldl_cons, ih (fun d hd => hafter d (List.mem_cons_of_mem _ hd)) _ (he.next hg),
        elected_next_iff he hc, List.forall_mem_cons, and_assoc]
  constructor
  · have hnext := @Inv.next e hinv (.elect now values) hv
    rw [isSynthesizer, decide_eq_true_iff, hrest _ hnext]
    exact and_congr_left fun _ => elect_iff hinv hv id
  · intro started hstarted
    rw [isSynthesizer, decide_eq_false_iff_not, hrest _ (inv_of_reachable (.init hstarted)),
      hstarted.2]
    exact fun hsome => nomatch hsome.1

def phone : ElectionCandidate := ⟨1, .high, true, 80, 0, false⟩

def desktop : ElectionCandidate := ⟨2, .medium, true, 100, 5, false⟩

def group : SynthesizerElection :=
  [Call.register phone, .register desktop].foldl next ⟨∅, none, 300, 20⟩

theorem synthesizer_iff_group :
    group.Best 9 1 ∧ ∀ c ∈ [Call.stepDown 2, .heartbeat 1 12], ¬c.Withdraws 1 := by
  have hreach : system.Reachable group := by
    have hlegal : Legal Guard next ⟨∅, none, 300, 20⟩ [Call.register phone, .register desktop] :=
      ⟨trivial, trivial, trivial⟩
    exact hlegal.reachable (.init ⟨rfl, rfl⟩)
  have hv : group.Iterates [phone, desktop] := List.isPerm_iff.mp (by decide +kernel)
  exact (synthesizer_iff hreach hv (by decide) 1).1.mp (by decide +kernel)

end SynthesizerElection

end Knowledge.Synthesis.Election
