import Knowledge.Replication.WalFormat
import Mathlib.Data.List.Induction

/-!
Segments of the WAL and the extractor that cuts them out of successive snapshots of the
sidecar: `WalSegment` and `WalShipper` of `replication/mod.rs`.
-/

set_option autoImplicit false

namespace Knowledge.Replication
open WalFrame

structure WalSegment where
  seq : Nat
  cumulativeFrames : Nat
  pageSize : UInt32
  salt1 : UInt32
  salt2 : UInt32
  frames : List WalFrame
  deriving DecidableEq

namespace WalSegment

def frameCount (segment : WalSegment) : Nat := segment.frames.length

def salts (segment : WalSegment) : Salts := (segment.salt1, segment.salt2)

def start (segment : WalSegment) : Nat := segment.cumulativeFrames-segment.frameCount

end WalSegment

def rposition {α : Type} (p : α → Bool) : List α → Option Nat
  | [] => none
  | a :: as =>
    match rposition p as with
    | some i => some (i+1)
    | none => if p a then some 0 else none

def committedFrames (frames : List WalFrame) : List WalFrame :=
  match rposition WalFrame.isCommit frames with
  | none => []
  | some lastCommit => frames.take (lastCommit+1)

structure WalShipper where
  shippedFrames : Nat
  cumulativeFrames : Nat
  nextSeq : Nat
  lastSalts : Option Salts
  deriving DecidableEq

namespace WalShipper

def new : WalShipper := ⟨0, 0, 1, none⟩

def enter (self : WalShipper) (salts : Salts) : WalShipper :=
  if self.lastSalts ≠ some salts then { self with shippedFrames := 0, lastSalts := some salts }
  else self

def cut (self : WalShipper) (parsed : ParsedWal) : Option WalSegment × WalShipper :=
  let self := self.enter parsed.header.salts
  if parsed.frames.length ≤ self.shippedFrames then (none, self)
  else
    match rposition WalFrame.isCommit (parsed.frames.drop self.shippedFrames) with
    | none => (none, self)
    | some lastCommit =>
      let toShip := (parsed.frames.drop self.shippedFrames).take (lastCommit+1)
      let cumulative := self.cumulativeFrames+toShip.length
      (some ⟨self.nextSeq, cumulative, parsed.header.pageSize, parsed.header.salt1,
        parsed.header.salt2, toShip⟩,
        { self with
          shippedFrames := self.shippedFrames+toShip.length
          cumulativeFrames := cumulative
          nextSeq := self.nextSeq+1 })

def nextSegment (self : WalShipper) (walBytes : Bytes) :
    ReplResult (Option WalSegment) × WalShipper :=
  match parseWal walBytes with
  | .error e => (.error e, self)
  | .ok parsed => ((.ok (self.cut parsed).1), (self.cut parsed).2)

end WalShipper

theorem rposition_append {α : Type} (p : α → Bool) (as bs : List α) :
    rposition p (as ++ bs) = match rposition p bs with
      | some i => some (as.length+i)
      | none => rposition p as := by
  induction as with
  | nil => cases h : rposition p bs <;> simp [h, rposition]
  | cons a as ih =>
    rw [List.cons_append, rposition, ih]
    cases h : rposition p bs with
    | some i => simp; omega
    | none => rfl

theorem rposition_lt {α : Type} {p : α → Bool} {as : List α} {i : Nat}
    (h : rposition p as = some i) : i < as.length := by
  induction as generalizing i with
  | nil => simp [rposition] at h
  | cons a as ih =>
    rw [rposition] at h
    cases hr : rposition p as with
    | some j =>
      have := ih hr
      simp only [hr, Option.some.injEq] at h
      simp only [List.length_cons]
      omega
    | none =>
      simp only [hr, Option.ite_none_right_eq_some, Option.some.injEq] at h
      rw [← h.2]
      exact Nat.succ_pos _

theorem rposition_take {α : Type} {p : α → Bool} {as : List α} {i : Nat}
    (h : rposition p as = some i) : rposition p (as.take (i+1)) = some i := by
  induction as generalizing i with
  | nil => simp [rposition] at h
  | cons a as ih =>
    rw [rposition] at h
    cases hr : rposition p as with
    | some j =>
      rw [hr] at h
      obtain rfl := Option.some.inj h
      rw [List.take_succ_cons, rposition, ih hr]
    | none =>
      simp only [hr, Option.ite_none_right_eq_some, Option.some.injEq] at h
      obtain ⟨ha, rfl⟩ := h
      simp [rposition, ha]

theorem committedFrames_initial (frames : List WalFrame) : committedFrames frames <+: frames := by
  unfold committedFrames
  split
  · exact List.nil_prefix
  · exact List.take_prefix _ _

theorem committedFrames_append {as : List WalFrame} (h : committedFrames as = as)
    (bs : List WalFrame) : committedFrames (as ++ bs) = as ++ committedFrames bs := by
  unfold committedFrames
  rw [rposition_append]
  cases hb : rposition isCommit bs with
  | some i =>
    simp only [Nat.add_assoc]
    rw [List.take_length_add_append]
  | none =>
    unfold committedFrames at h
    cases ha : rposition isCommit as with
    | none =>
      rw [ha] at h
      simp [← h]
    | some i =>
      rw [ha] at h
      have hi := rposition_lt ha
      simp only [List.append_nil]
      rw [List.take_append_of_le_length hi]
      exact h

theorem committedFrames_idem (frames : List WalFrame) :
    committedFrames (committedFrames frames) = committedFrames frames := by
  cases h : rposition isCommit frames with
  | none =>
    have : committedFrames frames = [] := by simp [committedFrames, h]
    rw [this]
    rfl
  | some i =>
    have hf : committedFrames frames = frames.take (i+1) := by simp [committedFrames, h]
    rw [hf, committedFrames, rposition_take h]
    simp only [List.take_take, Nat.min_self]

theorem committedFrames_eq_nil {frames : List WalFrame}
    (h : rposition isCommit frames = none) : committedFrames frames = [] := by
  simp [committedFrames, h]

theorem committedFrames_extend {as bs : List WalFrame} (h : as <+: bs) :
    committedFrames bs = committedFrames as ++
      committedFrames (bs.drop (committedFrames as).length) := by
  have hp : committedFrames as <+: bs := (committedFrames_initial as).trans h
  have := committedFrames_append (committedFrames_idem as)
    (bs.drop (committedFrames as).length)
  rwa [List.prefix_iff_eq_append.mp hp] at this

namespace WalShipper

@[simp] theorem enter_lastSalts (self : WalShipper) (salts : Salts) :
    (self.enter salts).lastSalts = some salts := by
  unfold enter
  split
  · rfl
  · rename_i h
    exact not_not.mp h

@[simp] theorem enter_cumulativeFrames (self : WalShipper) (salts : Salts) :
    (self.enter salts).cumulativeFrames = self.cumulativeFrames := by
  unfold enter
  split <;> rfl

@[simp] theorem enter_nextSeq (self : WalShipper) (salts : Salts) :
    (self.enter salts).nextSeq = self.nextSeq := by
  unfold enter
  split <;> rfl

theorem enter_of_ne {self : WalShipper} {salts : Salts} (h : self.lastSalts ≠ some salts) :
    (self.enter salts).shippedFrames = 0 := by
  simp [enter, h]

theorem enter_of_eq {self : WalShipper} {salts : Salts} (h : self.lastSalts = some salts) :
    self.enter salts = self := by
  simp [enter, h]

section

variable (self : WalShipper) (parsed : ParsedWal)

def fresh : List WalFrame :=
  committedFrames (parsed.frames.drop (self.enter parsed.header.salts).shippedFrames)

def segmentOf : WalSegment :=
  ⟨self.nextSeq, self.cumulativeFrames+(self.fresh parsed).length, parsed.header.pageSize,
    parsed.header.salt1, parsed.header.salt2, self.fresh parsed⟩

def advance : WalShipper :=
  ⟨(self.enter parsed.header.salts).shippedFrames+(self.fresh parsed).length,
    self.cumulativeFrames+(self.fresh parsed).length, self.nextSeq+1,
    some parsed.header.salts⟩

/-- `next_segment` ships everything newly committed at once, or nothing. -/
theorem cut_eq :
    self.cut parsed =
      if self.fresh parsed = [] then (none, self.enter parsed.header.salts)
      else (some (self.segmentOf parsed), self.advance parsed) := by
  have hne : ∀ i, rposition isCommit
      (parsed.frames.drop (self.enter parsed.header.salts).shippedFrames) = some i →
      (parsed.frames.drop (self.enter parsed.header.salts).shippedFrames).take (i+1) ≠ [] := by
    intro i hi h
    have := rposition_lt hi
    have := congrArg List.length h
    simp only [List.length_take, List.length_nil] at this
    omega
  simp only [cut]
  by_cases h : parsed.frames.length ≤ (self.enter parsed.header.salts).shippedFrames
  · have : self.fresh parsed = [] := by
      rw [fresh, List.drop_eq_nil_of_le h]
      rfl
    rw [if_pos h, if_pos this]
  · rw [if_neg h]
    cases hr : rposition isCommit
        (parsed.frames.drop (self.enter parsed.header.salts).shippedFrames) with
    | none =>
      have : self.fresh parsed = [] := committedFrames_eq_nil hr
      rw [if_pos this]
    | some i =>
      have hf : self.fresh parsed =
          (parsed.frames.drop (self.enter parsed.header.salts).shippedFrames).take (i+1) := by
        simp [fresh, committedFrames, hr]
      rw [if_neg (hf ▸ hne i hr)]
      simp only [segmentOf, advance, hf, enter_cumulativeFrames, enter_nextSeq, enter_lastSalts]

theorem segmentOf_start :
    (self.segmentOf parsed).start = self.cumulativeFrames := by
  simp [segmentOf, WalSegment.start, WalSegment.frameCount]

end

end WalShipper

/-- What the snapshots show as committed, generation after generation: of each generation
the last snapshot counts. -/
def committedStream : List ParsedWal → List WalFrame
  | [] => []
  | [w] => committedFrames w.frames
  | w :: w' :: ws =>
    if w.header.salts = w'.header.salts then committedStream (w' :: ws)
    else committedFrames w.frames ++ committedStream (w' :: ws)

/-- A snapshot extends the one before it or is of another generation. -/
def Continues (w w' : ParsedWal) : Prop :=
  w.header.salts = w'.header.salts → w.frames <+: w'.frames

theorem committedStream_append {w : ParsedWal} {ws ws' : List ParsedWal} {new : List WalFrame}
    (h : committedStream (w :: ws') = committedStream (w :: ws) ++ new) (vs : List ParsedWal) :
    committedStream (vs ++ w :: ws') = committedStream (vs ++ w :: ws) ++ new := by
  induction vs with
  | nil => exact h
  | cons v vs ih =>
    cases vs with
    | nil =>
      simp only [List.cons_append, List.nil_append, committedStream, h]
      split <;> simp
    | cons u vs =>
      simp only [List.cons_append] at ih
      simp only [List.cons_append, committedStream, ih]
      split <;> simp

theorem committedStream_snoc_of_ne {w w' : ParsedWal} (h : w.header.salts ≠ w'.header.salts)
    (ws : List ParsedWal) : committedStream (ws ++ [w, w']) =
      committedStream (ws ++ [w]) ++ committedFrames w'.frames :=
  committedStream_append (by simp [committedStream, h]) ws

theorem committedStream_snoc_of_eq {w w' : ParsedWal} (h : w.header.salts = w'.header.salts)
    {new : List WalFrame}
    (hw : committedFrames w'.frames = committedFrames w.frames ++ new) (ws : List ParsedWal) :
    committedStream (ws ++ [w, w']) = committedStream (ws ++ [w]) ++ new :=
  committedStream_append (by simp [committedStream, h, hw]) ws

/-- The shipper has cut out everything the snapshots show as committed. -/
structure WalShipper.Tracks (shipper : WalShipper) (wals : List ParsedWal) : Prop where
  cumulative : shipper.cumulativeFrames = (committedStream wals).length
  salts : shipper.lastSalts = wals.getLast?.map (·.header.salts)
  shipped : ∀ w ∈ wals.getLast?, shipper.shippedFrames = (committedFrames w.frames).length

theorem WalShipper.Tracks.new : WalShipper.new.Tracks [] := ⟨rfl, rfl, by simp⟩

theorem WalShipper.Tracks.stream {self : WalShipper} {wals : List ParsedWal}
    (h : self.Tracks wals) {w : ParsedWal} (hw : ∀ v ∈ wals.getLast?, Continues v w) :
    committedStream (wals ++ [w]) = committedStream wals ++ self.fresh w := by
  induction wals using List.reverseRecOn with
  | nil =>
    have hs : self.lastSalts ≠ some w.header.salts := by simp [h.salts]
    simp [committedStream, fresh, enter_of_ne hs]
  | append_singleton ws v =>
    have hv : v ∈ (ws ++ [v]).getLast? := by simp
    have hlast : self.lastSalts = some v.header.salts := by simp [h.salts]
    rw [List.append_assoc]
    by_cases hs : v.header.salts = w.header.salts
    · refine committedStream_snoc_of_eq hs ?_ ws
      rw [fresh, enter_of_eq (hlast.trans (congrArg some hs)), h.shipped v hv]
      exact committedFrames_extend (hw v hv hs)
    · have hne : self.lastSalts ≠ some w.header.salts := by simpa [hlast] using hs
      rw [fresh, enter_of_ne hne]
      exact committedStream_snoc_of_ne hs ws

theorem WalShipper.Tracks.cut {self : WalShipper} {wals : List ParsedWal}
    (h : self.Tracks wals) {w : ParsedWal} (hw : ∀ v ∈ wals.getLast?, Continues v w) :
    (self.cut w).2.Tracks (wals ++ [w]) := by
  have hstream := h.stream hw
  have hshipped : (self.enter w.header.salts).shippedFrames+(self.fresh w).length =
      (committedFrames w.frames).length := by
    by_cases hs : self.lastSalts = some w.header.salts
    · rw [h.salts] at hs
      obtain ⟨v, hv, hvs⟩ := Option.map_eq_some_iff.mp hs
      have hlast : self.lastSalts = some w.header.salts := by rw [h.salts, hs]
      rw [fresh, enter_of_eq hlast, h.shipped v hv, ← List.length_append,
        ← committedFrames_extend (hw v hv hvs)]
    · rw [fresh, enter_of_ne hs]
      simp
  rw [cut_eq]
  split
  · rename_i hf
    rw [hf, List.append_nil] at hstream
    rw [hf, List.length_nil, Nat.add_zero] at hshipped
    exact ⟨by rw [enter_cumulativeFrames, hstream, h.cumulative], by simp, by simpa using hshipped⟩
  · exact ⟨by simp [advance, hstream, h.cumulative], by simp [advance],
      by simpa [advance] using hshipped⟩

end Knowledge.Replication
