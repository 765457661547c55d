import Knowledge.Replication.Shipper
import Mathlib.Data.List.Chain

/-!
The primary's side of replication: the shared status, the bus of published segments and
`PrimaryReplicator::ship_once` of `replication/primary.rs`, and when what is published
is the committed WAL without gaps.
-/

set_option autoImplicit false

namespace Knowledge.Replication
open WalShipper

inductive Role where
  | primary
  | standby
  | disabled
  deriving DecidableEq

def Role.debug : Role → String
  | primary => "Primary"
  | standby => "Standby"
  | disabled => "Disabled"

structure ReplicationShared where
  enabled : Bool
  role : Role
  lagFrames : Nat
  publishedFramesTotal : Nat
  appliedFramesTotal : Nat
  epoch : Nat
  lastAppliedMs : Int

namespace ReplicationShared

def start (role : Role) : ReplicationShared := ⟨true, role, 0, 0, 0, 0, -1⟩

section

variable (shared : ReplicationShared)

def isWritable : Bool :=
  shared.role = .primary || shared.role = .disabled

def setRole (role : Role) : ReplicationShared :=
  { shared with role }

def setLagFrames (lagFrames : Nat) : ReplicationShared :=
  { shared with lagFrames }

def setPublishedFramesTotal (total : Nat) : ReplicationShared :=
  { shared with publishedFramesTotal := total }

def recordApplied (now : Int) (total : Nat) : ReplicationShared :=
  { shared with appliedFramesTotal := total, lastAppliedMs := now }

def setEpoch (epoch : Nat) : ReplicationShared :=
  { shared with epoch }

end

end ReplicationShared

def ensureWritable (shared : ReplicationShared) : ReplResult Unit :=
  if shared.isWritable then .ok ()
  else .error (.transport s!"node is {shared.role.debug}, not the primary; writes are rejected")

/-- The ordered, fully retained log of the segments that were published. -/
structure WalBus where
  log : List WalSegment

namespace WalBus

def new : WalBus := ⟨[]⟩

/-- The transport acknowledges a segment, or refuses it and retains nothing. -/
def publish (bus : WalBus) (segment : WalSegment) (answer : ReplResult Unit) :
    ReplResult Unit × WalBus :=
  match answer with
  | .ok () => (.ok (), ⟨bus.log ++ [segment]⟩)
  | .error e => (.error e, bus)

def latestWatermark (bus : WalBus) : Nat := bus.log.getLast?.elim 0 WalSegment.cumulativeFrames

end WalBus

structure PrimaryReplicator where
  bus : WalBus
  shared : ReplicationShared
  shipper : WalShipper

open PrimaryReplicator

namespace PrimaryReplicator

def new (bus : WalBus) (shared : ReplicationShared) : PrimaryReplicator :=
  ⟨bus, shared, WalShipper.new⟩

def shipOnce (self : PrimaryReplicator) (walBytes : Bytes) (answer : ReplResult Unit) :
    ReplResult Nat × PrimaryReplicator :=
  match self.shipper.nextSegment walBytes with
  | (.error e, shipper) => (.error e, { self with shipper })
  | (.ok none, shipper) => (.ok 0, { self with shipper })
  | (.ok (some segment), shipper) =>
    match self.bus.publish segment answer with
    | (.error e, bus) => (.error e, { self with shipper, bus })
    | (.ok (), bus) =>
      (.ok segment.frameCount,
        ⟨bus, self.shared.setPublishedFramesTotal shipper.cumulativeFrames, shipper⟩)

end PrimaryReplicator

/-- One call of `ship_once`: the bytes of the sidecar and what the transport answers if
it is asked to publish. -/
structure ShipCall where
  walBytes : Bytes
  answer : ReplResult Unit

namespace PrimaryReplicator

def ships (self : PrimaryReplicator) (calls : List ShipCall) : PrimaryReplicator :=
  calls.foldl (fun p call => (p.shipOnce call.walBytes call.answer).2) self

def attempt (self : PrimaryReplicator) (walBytes : Bytes) : Option WalSegment :=
  match (self.shipper.nextSegment walBytes).1 with
  | .ok segment => segment
  | .error _ => none

def publishedFrames (self : PrimaryReplicator) : List WalFrame :=
  self.bus.log.flatMap WalSegment.frames

/-- The frames of `segment`, still in the same place of the stream, open `later`. -/
def Retries (segment later : WalSegment) : Prop :=
  later.start = segment.start ∧ segment.frames <+: later.frames

/-- What is published is at all times the committed stream as far as it goes, and what a
call fails to publish the next call tries again. -/
structure GapFree (primary : PrimaryReplicator) (calls : List ShipCall) (wals : List ParsedWal) :
    Prop where
  ordered : ∀ k, (primary.ships (calls.take k)).publishedFrames <+:
    committedStream (wals.take k)
  retried : ∀ k call next segment e, calls[k]? = some call → calls[k+1]? = some next →
    (primary.ships (calls.take k)).attempt call.walBytes = some segment →
    call.answer = .error e →
    ∃ later, (primary.ships (calls.take (k+1))).attempt next.walBytes = some later ∧
      Retries segment later

end PrimaryReplicator

/-- The calls see snapshots of one WAL: each extends the one before or is of a new
generation. -/
structure Snapshots (calls : List ShipCall) (wals : List ParsedWal) : Prop where
  parsed : calls.map (fun call => parseWal call.walBytes) = wals.map .ok
  growing : wals.IsChain Continues

theorem Snapshots.take {calls : List ShipCall} {wals : List ParsedWal} (h : Snapshots calls wals)
    (k : Nat) : Snapshots (calls.take k) (wals.take k) :=
  ⟨by rw [List.map_take, List.map_take, h.parsed], h.growing.take k⟩

theorem Snapshots.snoc {calls : List ShipCall} {call : ShipCall} {wals : List ParsedWal}
    (h : Snapshots (calls ++ [call]) wals) :
    ∃ ws w, wals = ws ++ [w] ∧ Snapshots calls ws ∧ parseWal call.walBytes = .ok w ∧
      ∀ v ∈ ws.getLast?, Continues v w := by
  obtain ⟨hp, hc⟩ := h
  induction wals using List.reverseRecOn with
  | nil => simp at hp
  | append_singleton ws w =>
    simp only [List.map_append, List.map_cons, List.map_nil] at hp
    obtain ⟨hp, hw⟩ := List.append_inj' hp rfl
    obtain ⟨hws, -, hlast⟩ := List.isChain_append.mp hc
    exact ⟨ws, w, rfl, ⟨hp, hws⟩, (List.cons.inj hw).1, fun v hv => hlast v hv w (by simp)⟩

theorem Snapshots.at {calls : List ShipCall} {wals : List ParsedWal} (h : Snapshots calls wals)
    {k : Nat} {call : ShipCall} (hk : calls[k]? = some call) :
    ∃ w, calls.take (k+1) = calls.take k ++ [call] ∧ wals.take (k+1) = wals.take k ++ [w] ∧
      parseWal call.walBytes = .ok w ∧ ∀ v ∈ (wals.take k).getLast?, Continues v w := by
  have htake : calls.take (k+1) = calls.take k ++ [call] := by
    rw [List.take_add_one, hk]
    rfl
  have hs := h.take (k+1)
  rw [htake] at hs
  obtain ⟨ws, w, hws, hs', hw, hlast⟩ := hs.snoc
  have hlen : ws.length = k := by
    have hp := congrArg List.length hs'.parsed
    have := (List.getElem?_eq_some_iff.mp hk).1
    simp only [List.length_map, List.length_take] at hp
    omega
  have htake' : wals.take k = ws := by
    have := congrArg (List.take k) hws
    rw [List.take_take, Nat.min_eq_left (Nat.le_succ k)] at this
    rw [this, List.take_left' hlen]
  rw [← htake'] at hws hlast
  exact ⟨w, htake, hws, hw, hlast⟩

namespace PrimaryReplicator

/-- Everything the shipper cuts out goes to the transport once, and is kept if it is
acknowledged. -/
theorem shipOnce_spec (self : PrimaryReplicator) {walBytes : Bytes} {w : ParsedWal}
    (hw : parseWal walBytes = .ok w) (answer : ReplResult Unit) :
    (self.shipOnce walBytes answer).2.shipper = (self.shipper.cut w).2 ∧
    (self.shipOnce walBytes answer).2.publishedFrames =
      self.publishedFrames ++ (if answer = .ok () then self.shipper.fresh w else []) := by
  simp only [shipOnce, nextSegment, hw, cut_eq, publishedFrames]
  split_ifs with hf ha ha
  · simp [hf]
  · simp
  · subst ha
    simp [WalBus.publish, segmentOf]
  · cases answer with
    | error e => simp [WalBus.publish]
    | ok u => exact absurd rfl ha

theorem attempt_eq (self : PrimaryReplicator) {walBytes : Bytes} {w : ParsedWal}
    (hw : parseWal walBytes = .ok w) : self.attempt walBytes =
      if self.shipper.fresh w = [] then none else some (self.shipper.segmentOf w) := by
  simp only [attempt, nextSegment, hw, cut_eq]
  split <;> rfl

theorem ships_snoc (self : PrimaryReplicator) (calls : List ShipCall) (call : ShipCall) :
    self.ships (calls ++ [call]) =
      ((self.ships calls).shipOnce call.walBytes call.answer).2 := by
  simp [ships]

theorem ships_tracks {shared : ReplicationShared} {bus : WalBus} {calls : List ShipCall}
    {wals : List ParsedWal} (h : Snapshots calls wals) :
    ((new bus shared).ships calls).shipper.Tracks wals := by
  induction calls using List.reverseRecOn generalizing wals with
  | nil =>
    obtain rfl : wals = [] := by simpa using h.parsed.symm
    exact WalShipper.Tracks.new
  | append_singleton calls call ih =>
    obtain ⟨ws, w, rfl, hs, hw, hlast⟩ := h.snoc
    rw [ships_snoc, (shipOnce_spec _ hw call.answer).1]
    exact (ih hs).cut hlast

theorem ships_at (shared : ReplicationShared) (bus : WalBus) {calls : List ShipCall}
    {wals : List ParsedWal} (h : Snapshots calls wals) {k : Nat} {call : ShipCall}
    (hk : calls[k]? = some call) {self after : PrimaryReplicator}
    (hself : (new bus shared).ships (calls.take k) = self)
    (hafter : (new bus shared).ships (calls.take (k+1)) = after) :
    ∃ w, parseWal call.walBytes = .ok w ∧ after.shipper = (self.shipper.cut w).2 ∧
      committedStream (wals.take (k+1)) = committedStream (wals.take k) ++ self.shipper.fresh w ∧
      after.publishedFrames = self.publishedFrames ++
        (if call.answer = .ok () then self.shipper.fresh w else []) := by
  obtain ⟨w, hcalls, hwals, hw, hlast⟩ := h.at hk
  subst hself hafter
  have hspec := shipOnce_spec ((new bus shared).ships (calls.take k)) hw call.answer
  refine ⟨w, hw, ?_, ?_, ?_⟩
  · rw [hcalls, ships_snoc, hspec.1]
  · rw [hwals]
    exact (ships_tracks (h.take k)).stream hlast
  · rw [hcalls, ships_snoc, hspec.2]

end PrimaryReplicator

/-- A call other than the last fails to publish only where it has nothing to publish. -/
def OnlyLastFails (calls : List ShipCall) (wals : List ParsedWal) : Prop :=
  ∀ k call e, calls[k]? = some call → k+1 < calls.length → call.answer = .error e →
    committedStream (wals.take (k+1)) = committedStream (wals.take k)

namespace PrimaryReplicator

theorem publishedFrames_eq {shared : ReplicationShared} {calls : List ShipCall}
    {wals : List ParsedWal} (h : Snapshots calls wals) (hl : OnlyLastFails calls wals) {k : Nat}
    (hk : k < calls.length) : ((new .new shared).ships (calls.take k)).publishedFrames =
      committedStream (wals.take k) := by
  induction k with
  | zero => rfl
  | succ k ih =>
    have hcall := List.getElem?_eq_getElem (Nat.lt_of_succ_lt hk)
    obtain ⟨w, -, -, hstream, hpub⟩ := ships_at shared .new h hcall rfl rfl
    rw [hpub, hstream, ih (Nat.lt_of_succ_lt hk)]
    cases ha : calls[k].answer with
    | ok u => rw [if_pos rfl]
    | error e =>
      have := hl k calls[k] e hcall hk ha
      rw [hstream, List.append_right_eq_self] at this
      simp [this]

theorem ordered_of_onlyLastFails {shared : ReplicationShared} {calls : List ShipCall}
    {wals : List ParsedWal} (h : Snapshots calls wals) (hl : OnlyLastFails calls wals) (k : Nat) :
    ((new .new shared).ships (calls.take k)).publishedFrames <+:
      committedStream (wals.take k) := by
  by_cases hk : k < calls.length
  · exact publishedFrames_eq h hl hk ▸ List.prefix_rfl
  · cases hn : calls.length with
    | zero =>
      obtain rfl : calls = [] := List.length_eq_zero_iff.mp hn
      rw [List.take_nil]
      exact List.nil_prefix
    | succ n =>
      have hlen := congrArg List.length h.parsed
      simp only [List.length_map] at hlen
      have hcalls : calls.take k = calls.take (n+1) := by
        rw [List.take_of_length_le (by omega), List.take_of_length_le (by omega)]
      have hwals : wals.take k = wals.take (n+1) := by
        rw [List.take_of_length_le (by omega), List.take_of_length_le (by omega)]
      have hcall := List.getElem?_eq_getElem (l := calls) (i := n) (by omega)
      obtain ⟨w, -, -, hstream, hpub⟩ := ships_at shared .new h hcall rfl rfl
      rw [hcalls, hwals, hpub, hstream, publishedFrames_eq h hl (by omega)]
      refine List.prefix_append_right_inj _ |>.mpr ?_
      split
      · exact List.prefix_rfl
      · exact List.nil_prefix

theorem not_retries {self : PrimaryReplicator} {w w' : ParsedWal} {shipper : WalShipper}
    (hs : shipper = (self.shipper.cut w).2) (hf : self.shipper.fresh w ≠ []) :
    ¬Retries (self.shipper.segmentOf w) (shipper.segmentOf w') := by
  intro h
  have hpos := List.length_pos_iff.mpr hf
  have := h.1
  rw [segmentOf_start, segmentOf_start, hs, cut_eq, if_neg hf] at this
  simp only [advance] at this
  omega

end PrimaryReplicator

theorem shipping_gap_free_iff {calls : List ShipCall} {wals : List ParsedWal}
    (h : Snapshots calls wals) (shared : ReplicationShared) :
    (new .new shared).GapFree calls wals ↔ OnlyLastFails calls wals := by
  constructor
  · intro hgap k call e hk hlast ha
    obtain ⟨w, hw, hafter, hstream, -⟩ :=
      ships_at shared .new h hk rfl rfl
    rw [hstream, List.append_right_eq_self]
    by_contra hf
    have hnext := List.getElem?_eq_getElem hlast
    obtain ⟨w', hw', -⟩ :=
      ships_at shared .new h hnext rfl rfl
    have hattempt := attempt_eq
      ((new .new shared).ships (calls.take k)) hw
    rw [if_neg hf] at hattempt
    obtain ⟨later, hlater, hr⟩ := hgap.retried k call _ _ e hk hnext hattempt ha
    rw [attempt_eq _ hw'] at hlater
    split at hlater
    · cases hlater
    · obtain rfl := Option.some.inj hlater
      exact not_retries hafter hf hr
  · intro hl
    refine ⟨ordered_of_onlyLastFails h hl, ?_⟩
    intro k call next segment e hk hnext hattempt ha
    obtain ⟨w, hw, -, hstream, -⟩ :=
      ships_at shared .new h hk rfl rfl
    have hlast := (List.getElem?_eq_some_iff.mp hnext).1
    have hf := hl k call e hk hlast ha
    rw [hstream, List.append_right_eq_self] at hf
    rw [attempt_eq _ hw, if_pos hf] at hattempt
    cases hattempt

/-- Two snapshots of one WAL, a second transaction behind the first, and the answers. -/
def sampleCalls (first second : ReplResult Unit) : List ShipCall :=
  [⟨walBytes (sampleHeader (10, 20)) [samplePage 1 1 0xA1], first⟩,
    ⟨walBytes (sampleHeader (10, 20)) [samplePage 1 1 0xA1, samplePage 2 2 0xA2], second⟩]

def sampleWals : List ParsedWal :=
  [recovered (sampleHeader (10, 20)) [samplePage 1 1 0xA1],
    recovered (sampleHeader (10, 20)) [samplePage 1 1 0xA1, samplePage 2 2 0xA2]]

theorem sampleCalls_snapshots (first second : ReplResult Unit) :
    Snapshots (sampleCalls first second) sampleWals := by
  have hfit : ∀ frames, frames ⊆ [samplePage 1 1 0xA1, samplePage 2 2 0xA2] →
      PagesFit 512 frames := by
    intro frames h frame hf
    obtain rfl | rfl : frame = _ ∨ frame = _ := by simpa using h hf
    · exact List.length_replicate
    · exact List.length_replicate
  refine ⟨?_, ?_⟩
  · simp only [sampleCalls, sampleWals, List.map_cons, List.map_nil]
    rw [parseWal_walBytes (by decide) (hfit _ (by simp)),
      parseWal_walBytes (by decide) (hfit _ (by simp))]
  · refine List.isChain_pair.mpr (fun _ => ?_)
    exact List.prefix_append [samplePage 1 1 0xA1] [samplePage 2 2 0xA2]

theorem shipping_gap_free_last_fails :
    (new .new (.start .primary)).GapFree
      (sampleCalls (.ok ()) (.error (.transport "timeout"))) sampleWals := by
  refine (shipping_gap_free_iff (sampleCalls_snapshots _ _) _).mpr ?_
  intro k call e hk hlast ha
  cases k with
  | zero =>
    obtain rfl := Option.some.inj hk
    cases ha
  | succ k =>
    have : k+1+1 < 2 := hlast
    omega

/-- The first publish fails, the second goes through: the second transaction is on the
bus without the first. -/
theorem failed_publish_leaves_gap :
    Snapshots (sampleCalls (.error (.transport "timeout")) (.ok ())) sampleWals ∧
    ((new .new (.start .primary)).ships
      (sampleCalls (.error (.transport "timeout")) (.ok ()))).publishedFrames =
        [samplePage 2 2 0xA2] ∧
    ¬(new .new (.start .primary)).GapFree
      (sampleCalls (.error (.transport "timeout")) (.ok ())) sampleWals := by
  have hpub : ((new .new (.start .primary)).ships
      (sampleCalls (.error (.transport "timeout")) (.ok ()))).publishedFrames =
        [samplePage 2 2 0xA2] := by
    decide +kernel
  refine ⟨sampleCalls_snapshots _ _, hpub, fun h => ?_⟩
  have := h.ordered 2
  rw [show (sampleCalls (.error (.transport "timeout")) (.ok ())).take 2 =
    sampleCalls (.error (.transport "timeout")) (.ok ()) from rfl, hpub] at this
  revert this
  decide +kernel

end Knowledge.Replication
