import Knowledge.Lib.Fencing
import Knowledge.Replication.Lease

/-!
The fencing epochs of the two lease stores: the one of `replication/memory.rs`, whose
calls are atomic, and the one of `replication/nats.rs`, whose calls read the clock, read
the entry and write it back in steps that interleave with those of other calls. Both are
shown to be fenced registers.
-/

set_option autoImplicit false

namespace Knowledge.Replication
open Knowledge.Fencing Knowledge.Transition

def Lease.grant {ι : Type} (l : Lease ι) : Grant ι := ⟨l.holder, l.epoch, l.expiresAtMs⟩

/-! ## The in-memory store -/

structure LeaseRun (ι : Type) where
  now : Int
  store : InMemoryLeaseStore ι
  history : List (Fencing.Event ι)

inductive LeaseAct (ι : Type) where
  | advance (ms : Nat)
  | acquire (node : ι) (ttlMs : Nat)
  | release (node : ι)

namespace LeaseRun

def next {ι : Type} [DecidableEq ι] (s : LeaseRun ι) : LeaseAct ι → LeaseRun ι
  | .advance ms => { s with now := s.now+ms }
  | .acquire node ttlMs =>
    let (l, store) := s.store.acquire s.now node ttlMs
    { s with
      store
      history := s.history ++ [if l.holder = node then .stored node s.now s.now l.grant
        else .reported node s.now l.grant] }
  | .release node =>
    { s with
      store := s.store.release node
      history := s.history ++ (if s.store.holder = some node then [.released node] else []) }

def system {ι : Type} [DecidableEq ι] : System (LeaseRun ι) (LeaseAct ι) :=
  .ofNext (fun s => ∃ now, s = ⟨now, .new, []⟩) (fun _ _ => True) next

/-- The register the store stands for: a released lease is remembered as such. -/
structure Models {ι : Type} (s : LeaseRun ι) (t : Register ι) : Prop where
  clock : t.clock = s.now
  history : t.history = s.history
  epoch : ∀ g, t.last = some g → g.epoch ≤ s.store.lastEpoch
  held : ∀ l, s.store.lease = some l → t.last = some l.grant ∧ t.live = true
  free : s.store.lease = none → t.last = none ∨ t.live = false

end LeaseRun

theorem InMemoryLeaseStore.acquire_kinds {ι : Type} [DecidableEq ι] (store : InMemoryLeaseStore ι)
    (now : Int) (node : ι) (ttlMs : Nat) :
    (∃ l, store.lease = some l ∧ l.holder = node ∧ now < l.expiresAtMs ∧
      store.acquire now node ttlMs = (⟨node, l.epoch, leaseExpiryMs now ttlMs⟩,
        { store with lease := some ⟨node, l.epoch, leaseExpiryMs now ttlMs⟩ })) ∨
    (∃ l, store.lease = some l ∧ l.holder ≠ node ∧ now < l.expiresAtMs ∧
      store.acquire now node ttlMs = (l, store)) ∨
    ((∀ l, store.lease = some l → l.expiresAtMs ≤ now) ∧
      store.acquire now node ttlMs = store.take node (leaseExpiryMs now ttlMs)) := by
  unfold acquire
  cases hl : store.lease with
  | none => exact .inr (.inr ⟨by simp, rfl⟩)
  | some l =>
    by_cases ht : now < l.expiresAtMs
    · by_cases hn : l.holder = node
      · exact .inl ⟨l, rfl, hn, ht, by simp [hn, ht]⟩
      · exact .inr (.inl ⟨l, rfl, hn, ht, by simp [hn, ht]⟩)
    · refine .inr (.inr ⟨?_, by simp [ht]⟩)
      rintro _ ⟨⟩
      exact Int.not_lt.mp ht

namespace LeaseRun

section

variable {ι : Type} [DecidableEq ι] {s : LeaseRun ι}

theorem Models.acquire {t : Register ι}
    (h : s.Models t) (ht : Register.system.Reachable t) (node : ι) (ttlMs : Nat) :
    ∃ t', Register.system.Reachable t' ∧ (s.next (.acquire node ttlMs)).Models t' := by
  obtain ⟨l, hl, hn, hvalid, heq⟩ | ⟨l, hl, hn, -, heq⟩ | ⟨hlapsed, heq⟩ :=
    s.store.acquire_kinds s.now node ttlMs
  · obtain ⟨hlast, hlive⟩ := h.held l hl
    have hmay : t.MayStore node s.now ⟨node, l.epoch, leaseExpiryMs s.now ttlMs⟩ := by
      refine ⟨h.clock ▸ Int.le_refl _, rfl, fun g hg => ?_⟩
      rw [hlast] at hg
      cases hg
      exact .inl ⟨hlive, hn, hvalid, rfl⟩
    refine ⟨_, ht.step (.store hmay), ?_⟩
    simp only [next, heq, if_true]
    refine ⟨h.clock, ?_, ?_, ?_, by simp⟩
    · rw [h.history, h.clock]
      rfl
    · rintro _ ⟨⟩
      exact h.epoch l.grant hlast
    · rintro _ ⟨⟩
      exact ⟨rfl, rfl⟩
  · obtain ⟨hlast, hlive⟩ := h.held l hl
    refine ⟨_, ht.step (.report node hlast hlive), ?_⟩
    simp only [next, heq, if_neg hn]
    refine ⟨h.clock, ?_, h.epoch, h.held, h.free⟩
    rw [h.history, h.clock]
  · have hmay : t.MayStore node s.now
        ⟨node, s.store.lastEpoch+1, leaseExpiryMs s.now ttlMs⟩ := by
      refine ⟨h.clock ▸ Int.le_refl _, rfl, fun g hg => .inr ⟨?_, ?_⟩⟩
      · cases hl : s.store.lease with
        | none =>
          obtain hnone | hdead := h.free hl
          · rw [hnone] at hg
            cases hg
          · exact .inl hdead
        | some l =>
          rw [(h.held l hl).1] at hg
          cases hg
          exact .inr (hlapsed l hl)
      · exact Nat.lt_succ_of_le (h.epoch g hg)
    refine ⟨_, ht.step (.store hmay), ?_⟩
    simp only [next, heq, InMemoryLeaseStore.take, if_true]
    refine ⟨h.clock, ?_, ?_, ?_, by simp⟩
    · rw [h.history, h.clock]
      rfl
    · rintro _ ⟨⟩
      exact Nat.le_refl _
    · rintro _ ⟨⟩
      exact ⟨rfl, rfl⟩

theorem Models.release {t : Register ι}
    (h : s.Models t) (ht : Register.system.Reachable t) (node : ι) :
    ∃ t', Register.system.Reachable t' ∧ (s.next (.release node)).Models t' := by
  by_cases hn : s.store.holder = some node
  · obtain ⟨l, hl, hnode⟩ := Option.map_eq_some_iff.mp hn
    obtain ⟨hlast, -⟩ := h.held l hl
    have hholder : l.grant.holder = node := hnode
    refine ⟨_, ht.step (.release hlast hholder), ?_⟩
    simp only [next, if_pos hn, InMemoryLeaseStore.release, hl, if_pos hnode]
    exact ⟨h.clock, by rw [h.history], h.epoch, by simp, fun _ => .inr rfl⟩
  · have hsame : s.store.release node = s.store := by
      unfold InMemoryLeaseStore.release
      split
      · rename_i l hl
        refine if_neg (fun hnode => hn ?_)
        rw [InMemoryLeaseStore.holder, hl, Option.map_some, hnode]
      · rfl
    simp only [next, if_neg hn, hsame, List.append_nil]
    exact ⟨t, ht, h.clock, h.history, h.epoch, h.held, h.free⟩

theorem fenced_of_reachable (h : system.Reachable s) : Fenced s.history := by
  have hsim : ∃ t, Register.system.Reachable t ∧ s.Models t := by
    refine h.simulate Models ?_ ?_
    · rintro _ ⟨now, rfl⟩
      exact ⟨⟨now, none, false, []⟩, ⟨rfl, rfl⟩, rfl, rfl, by simp,
        by simp [InMemoryLeaseStore.new], fun _ => .inl rfl⟩
    · rintro s act _ t - hm ht ⟨-, rfl⟩
      cases act with
      | advance ms =>
        have hclock : t.clock ≤ s.now+ms := by
          rw [hm.clock]
          omega
        exact ⟨_, ht.step (.tick hclock), rfl, hm.history, hm.epoch, hm.held, hm.free⟩
      | acquire node ttlMs => exact hm.acquire ht node ttlMs
      | release node => exact hm.release ht node
  obtain ⟨t, ht, hm⟩ := hsim
  rw [← hm.history]
  exact (Register.inv_of_reachable ht).fenced

end

end LeaseRun

/-! ## The store over a NATS bucket -/

structure KvEntry (ι : Type) where
  value : Lease ι
  revision : Nat

structure Kv (ι : Type) where
  entry : Option (KvEntry ι)
  sequence : Nat

namespace Kv

def put {ι : Type} (kv : Kv ι) (value : Lease ι) : Kv ι :=
  ⟨some ⟨value, kv.sequence+1⟩, kv.sequence+1⟩

def create {ι : Type} (kv : Kv ι) (value : Lease ι) : Option (Kv ι) :=
  match kv.entry with
  | none => some (kv.put value)
  | some _ => none

def update {ι : Type} (kv : Kv ι) (value : Lease ι) (revision : Nat) : Option (Kv ι) :=
  match kv.entry with
  | some entry => if entry.revision = revision then some (kv.put value) else none
  | none => none

end Kv

/-- How a request to the bucket ends: answered, refused without effect, or carried out with
the acknowledgement lost. -/
inductive Delivery where
  | answered
  | refused
  | ackLost
  deriving DecidableEq

/-- Where a call of `NatsLeaseStore` is, at its await points. -/
inductive NatsCall (ι : Type) where
  | idle
  | acquire (node : ι) (now expiresAtMs : Int)
  | create (node : ι) (now : Int) (record : Lease ι)
  | update (node : ι) (now : Int) (record : Lease ι) (revision : Nat)
  | lost (node : ι)
  | current (node : ι) (now : Int)
  | release (node : ι)
  | clear (node : ι) (record : Lease ι) (revision : Nat)

structure NatsRun (ι κ : Type) where
  now : Int
  kv : Kv ι
  call : κ → NatsCall ι
  history : List (Fencing.Event ι)

inductive NatsAct (ι κ : Type) where
  | advance (ms : Nat)
  | acquire (k : κ) (node : ι) (ttlMs : Nat)
  | release (k : κ) (node : ι)
  | resume (k : κ) (delivery : Delivery)

namespace NatsRun

/-- `acquire` has the entry: report a lease in force, or go on to claim it. -/
def claim {ι : Type} [DecidableEq ι] (node : ι) (now expiresAtMs : Int) :
    Option (KvEntry ι) → NatsCall ι × Option (Lease ι)
  | none => (.create node now ⟨node, 1, expiresAtMs⟩, none)
  | some entry =>
    let current := entry.value
    let heldByUs := current.holder = node
    let expired := current.expiresAtMs ≤ now
    if ¬heldByUs ∧ ¬expired then (.idle, some current)
    else
      let epoch := if heldByUs ∧ ¬expired then current.epoch else current.epoch+1
      (.update node now ⟨node, epoch, expiresAtMs⟩ entry.revision, none)

def run {ι : Type} [DecidableEq ι] (clock : Int) (kv : Kv ι) (delivery : Delivery) :
    NatsCall ι → NatsCall ι × Kv ι × List (Fencing.Event ι)
  | .idle => (.idle, kv, [])
  | .acquire node now expiresAtMs =>
    if delivery ≠ .answered then (.idle, kv, [])
    else
      match claim node now expiresAtMs kv.entry with
      | (call, some current) => (call, kv, [.reported node clock current.grant])
      | (call, none) => (call, kv, [])
  | .create node now record =>
    if delivery = .refused then (.idle, kv, [])
    else
      match kv.create record with
      | some kv => (.idle, kv, [.stored node now clock record.grant])
      | none => (if delivery = .answered then .lost node else .idle, kv, [])
  | .update node now record revision =>
    if delivery = .refused then (.idle, kv, [])
    else
      match kv.update record revision with
      | some kv => (.idle, kv, [.stored node now clock record.grant])
      | none => (if delivery = .answered then .lost node else .idle, kv, [])
  | .lost node => (.current node clock, kv, [])
  | .current node now =>
    if delivery ≠ .answered then (.idle, kv, [])
    else
      match kv.entry with
      | none => (.idle, kv, [])
      | some entry =>
        (.idle, kv, if entry.value.expiresAtMs ≤ now then []
          else [.reported node clock entry.value.grant])
  | .release node =>
    if delivery ≠ .answered then (.idle, kv, [])
    else
      match kv.entry with
      | none => (.idle, kv, [])
      | some entry =>
        (if entry.value.holder ≠ node then .idle
          else .clear node { entry.value with expiresAtMs := 0 } entry.revision, kv, [])
  | .clear node record revision =>
    if delivery = .refused then (.idle, kv, [])
    else
      match kv.update record revision with
      | some kv => (.idle, kv, [.released node])
      | none => (.idle, kv, [])

def next {ι κ : Type} [DecidableEq ι] [DecidableEq κ] (s : NatsRun ι κ) :
    NatsAct ι κ → NatsRun ι κ
  | .advance ms => { s with now := s.now+ms }
  | .acquire k node ttlMs =>
    { s with call := Function.update s.call k (.acquire node s.now (leaseExpiryMs s.now ttlMs)) }
  | .release k node => { s with call := Function.update s.call k (.release node) }
  | .resume k delivery =>
    let (call, kv, events) := run s.now s.kv delivery (s.call k)
    ⟨s.now, kv, Function.update s.call k call, s.history ++ events⟩

def guard {ι κ : Type} (s : NatsRun ι κ) : NatsAct ι κ → Prop
  | .acquire k _ _ => s.call k = .idle
  | .release k _ => s.call k = .idle
  | _ => True

def system {ι κ : Type} [DecidableEq ι] [DecidableEq κ] : System (NatsRun ι κ) (NatsAct ι κ) :=
  .ofNext (fun s => ∃ now sequence, 0 ≤ now ∧ s = ⟨now, ⟨none, sequence⟩, fun _ => .idle, []⟩)
    guard next

end NatsRun

/-- The value was read under this revision: if the entry still has it, it is the value. -/
def KvSeen {ι : Type} (kv : Kv ι) (value : Lease ι) (revision : Nat) : Prop :=
  ∃ entry, kv.entry = some entry ∧ revision ≤ entry.revision ∧
    (revision = entry.revision → value = entry.value)

def NatsCall.Sound {ι : Type} (clock : Int) (kv : Kv ι) : NatsCall ι → Prop
  | .idle => True
  | .acquire _ now _ => 0 ≤ now ∧ now ≤ clock
  | .create node now record => now ≤ clock ∧ record.holder = node
  | .update node now record revision => 0 ≤ now ∧ now ≤ clock ∧ record.holder = node ∧
    ∃ value, KvSeen kv value revision ∧
      ((value.holder = node ∧ now < value.expiresAtMs ∧ record.epoch = value.epoch) ∨
        (value.expiresAtMs ≤ now ∧ record.epoch = value.epoch+1))
  | .lost _ => True
  | .current _ now => 0 ≤ now ∧ now ≤ clock
  | .release _ => True
  | .clear node record revision => ∃ value, KvSeen kv value revision ∧ value.holder = node ∧
    record = { value with expiresAtMs := 0 }

theorem KvSeen.put {ι : Type} {kv : Kv ι} {value : Lease ι} {revision : Nat}
    (h : KvSeen kv value revision) (hrev : ∀ entry, kv.entry = some entry →
      entry.revision ≤ kv.sequence) (record : Lease ι) : KvSeen (kv.put record) value revision := by
  obtain ⟨entry, he, hle, -⟩ := h
  have := hrev entry he
  refine ⟨_, rfl, ?_, ?_⟩
  · simp only
    omega
  · intro heq
    simp only at heq
    omega

theorem NatsCall.Sound.mono {ι : Type} {clock clock' : Int} {kv kv' : Kv ι} {call : NatsCall ι}
    (h : call.Sound clock kv) (hclock : clock ≤ clock')
    (hseen : ∀ value revision, KvSeen kv value revision → KvSeen kv' value revision) :
    call.Sound clock' kv' := by
  cases call with
  | idle => trivial
  | acquire node now expiresAtMs => exact ⟨h.1, Int.le_trans h.2 hclock⟩
  | create node now record => exact ⟨Int.le_trans h.1 hclock, h.2⟩
  | update node now record revision =>
    obtain ⟨hz, hnow, hn, value, hv, hcase⟩ := h
    exact ⟨hz, Int.le_trans hnow hclock, hn, value, hseen _ _ hv, hcase⟩
  | lost node => trivial
  | current node now => exact ⟨h.1, Int.le_trans h.2 hclock⟩
  | release node => trivial
  | clear node record revision =>
    obtain ⟨value, hv, hrest⟩ := h
    exact ⟨value, hseen _ _ hv, hrest⟩

theorem NatsCall.sound_lost {ι : Type} {clock : Int} {kv : Kv ι} (node : ι) (answered : Prop)
    [Decidable answered] : (if answered then NatsCall.lost node else .idle).Sound clock kv := by
  by_cases h : answered <;> simp [h, NatsCall.Sound]

theorem Kv.update_some {ι : Type} {kv kv' : Kv ι} {record value : Lease ι} {revision : Nat}
    (h : kv.update record revision = some kv') (hseen : KvSeen kv value revision) :
    kv' = kv.put record ∧ ∃ entry, kv.entry = some entry ∧ entry.value = value := by
  obtain ⟨entry, he, -, hvalue⟩ := hseen
  simp only [update, he] at h
  split at h
  · rename_i hrev
    exact ⟨(Option.some.inj h).symm, entry, he, (hvalue hrev.symm).symm⟩
  · cases h

namespace NatsRun

/-- The register the bucket stands for: a released lease keeps holder and epoch. -/
structure Models {ι κ : Type} (s : NatsRun ι κ) (t : Register ι) : Prop where
  clock : t.clock = s.now
  history : t.history = s.history
  origin : 0 ≤ s.now
  vacant : s.kv.entry = none → t.last = none
  entry : ∀ entry, s.kv.entry = some entry → ∃ l, t.last = some l ∧
    entry.value.holder = l.holder ∧ entry.value.epoch = l.epoch ∧
    entry.value.expiresAtMs = if t.live then l.expiry else 0
  revision : ∀ entry, s.kv.entry = some entry → entry.revision ≤ s.kv.sequence
  call : ∀ k, (s.call k).Sound s.now s.kv

section

variable {ι κ : Type}

theorem Models.live {s : NatsRun ι κ} {t : Register ι} (h : s.Models t)
    {entry : KvEntry ι} (he : s.kv.entry = some entry) (hexp : 0 < entry.value.expiresAtMs) :
    t.live = true ∧ t.last = some entry.value.grant := by
  obtain ⟨l, hl, hholder, hepoch, hexpiry⟩ := h.entry entry he
  cases hlive : t.live with
  | false =>
    rw [hlive] at hexpiry
    simp at hexpiry
    omega
  | true =>
    rw [hlive] at hexpiry
    refine ⟨rfl, ?_⟩
    rw [hl, Lease.grant, hholder, hepoch, hexpiry]
    rfl

section

variable [DecidableEq κ] {s : NatsRun ι κ} {t : Register ι}

theorem Models.calls (h : s.Models t) (k : κ) {call : NatsCall ι} (hc : call.Sound s.now s.kv) (k' : κ) :
    (Function.update s.call k call k').Sound s.now s.kv := by
  rw [Function.update_apply]
  split
  · exact hc
  · exact h.call k'

theorem Models.goto (h : s.Models t) (k : κ) {call : NatsCall ι} (hc : call.Sound s.now s.kv) :
    Models ⟨s.now, s.kv, Function.update s.call k call, s.history ++ []⟩ t :=
  ⟨h.clock, by rw [h.history, List.append_nil], h.origin, h.vacant, h.entry, h.revision,
    h.calls k hc⟩

theorem Models.report (h : s.Models t) (ht : Register.system.Reachable t) (k : κ) (node : ι) {entry : KvEntry ι}
    (he : s.kv.entry = some entry) (hexp : 0 < entry.value.expiresAtMs) :
    ∃ t', Register.system.Reachable t' ∧ Models ⟨s.now, s.kv, Function.update s.call k .idle,
      s.history ++ [.reported node s.now entry.value.grant]⟩ t' := by
  obtain ⟨hlive, hlast⟩ := h.live he hexp
  refine ⟨_, ht.step (.report node hlast hlive), h.clock, ?_, h.origin, h.vacant, h.entry,
    h.revision, h.calls k trivial⟩
  rw [h.history, h.clock]

theorem Models.calls_put (h : s.Models t) (k : κ) (record : Lease ι) (k' : κ) :
    (Function.update s.call k .idle k').Sound s.now (s.kv.put record) := by
  rw [Function.update_apply]
  split
  · trivial
  · exact (h.call k').mono (Int.le_refl _) (fun _ _ hv => hv.put h.revision record)

theorem Models.store (h : s.Models t) (ht : Register.system.Reachable t) (k : κ) {node : ι} {now : Int}
    {record : Lease ι} (hmay : t.MayStore node now record.grant) :
    ∃ t', Register.system.Reachable t' ∧ Models ⟨s.now, s.kv.put record,
      Function.update s.call k .idle, s.history ++ [.stored node now s.now record.grant]⟩ t' := by
  refine ⟨_, ht.step (.store hmay), h.clock, ?_, h.origin, ?_, ?_, ?_, h.calls_put k record⟩
  · rw [h.history, h.clock]
  · intro hnone
    cases hnone
  · rintro _ ⟨⟩
    exact ⟨record.grant, rfl, rfl, rfl, rfl⟩
  · rintro _ ⟨⟩
    exact Nat.le_refl _

theorem Models.clear (h : s.Models t) (ht : Register.system.Reachable t) (k : κ) {entry : KvEntry ι}
    (he : s.kv.entry = some entry) :
    ∃ t', Register.system.Reachable t' ∧
      Models ⟨s.now, s.kv.put { entry.value with expiresAtMs := 0 },
        Function.update s.call k .idle, s.history ++ [.released entry.value.holder]⟩ t' := by
  obtain ⟨l, hl, hholder, hepoch, -⟩ := h.entry entry he
  refine ⟨_, ht.step (.release hl hholder.symm), h.clock, ?_, h.origin, ?_, ?_, ?_, h.calls_put k _⟩
  · rw [h.history]
  · intro hnone
    cases hnone
  · rintro _ ⟨⟩
    exact ⟨l, hl, hholder, hepoch, rfl⟩
  · rintro _ ⟨⟩
    exact Nat.le_refl _

end

section

variable [DecidableEq ι] [DecidableEq κ] {s : NatsRun ι κ}

theorem Models.claim {t : Register ι} (h : s.Models t) (ht : Register.system.Reachable t) {k : κ} {node : ι}
    {now expiresAtMs : Int} (hc : s.call k = .acquire node now expiresAtMs) (delivery : Delivery) :
    ∃ t', Register.system.Reachable t' ∧ (s.next (.resume k delivery)).Models t' := by
  have hsound := h.call k
  rw [hc] at hsound
  simp only [next, hc, run]
  by_cases hd : delivery ≠ .answered
  · simp only [if_pos hd]
    exact ⟨t, ht, h.goto k trivial⟩
  · simp only [if_neg hd]
    cases he : s.kv.entry with
    | none => exact ⟨t, ht, h.goto k ⟨hsound.2, rfl⟩⟩
    | some entry =>
      have hseen : KvSeen s.kv entry.value entry.revision :=
        ⟨entry, he, Nat.le_refl _, fun _ => rfl⟩
      by_cases hexp : entry.value.expiresAtMs ≤ now
      · simp only [NatsRun.claim, hexp, not_true_eq_false, and_false, if_false]
        exact ⟨t, ht, h.goto k ⟨hsound.1, hsound.2, rfl, _, hseen, .inr ⟨hexp, rfl⟩⟩⟩
      · have hvalid : now < entry.value.expiresAtMs := Int.not_le.mp hexp
        by_cases hn : entry.value.holder = node
        · simp only [NatsRun.claim, hn, hexp, not_true_eq_false, not_false_eq_true, and_true,
            if_false, if_true]
          exact ⟨t, ht, h.goto k ⟨hsound.1, hsound.2, rfl, _, hseen, .inl ⟨hn, hvalid, rfl⟩⟩⟩
        · simp only [NatsRun.claim, hn, hexp, not_false_eq_true, and_self, if_true]
          exact h.report ht k node he (Int.lt_of_le_of_lt hsound.1 hvalid)

theorem Models.update {t : Register ι} (h : s.Models t) (ht : Register.system.Reachable t) {k : κ} {node : ι}
    {now : Int} {record : Lease ι} {revision : Nat}
    (hc : s.call k = .update node now record revision) (delivery : Delivery) :
    ∃ t', Register.system.Reachable t' ∧ (s.next (.resume k delivery)).Models t' := by
  have hsound := h.call k
  rw [hc] at hsound
  obtain ⟨hzero, hnow, hholder, value, hseen, hcase⟩ := hsound
  simp only [next, hc, run]
  by_cases hd : delivery = .refused
  · simp only [if_pos hd]
    exact ⟨t, ht, h.goto k trivial⟩
  · simp only [if_neg hd]
    cases hu : s.kv.update record revision with
    | none => exact ⟨t, ht, h.goto k (NatsCall.sound_lost node _)⟩
    | some kv =>
      obtain ⟨rfl, entry, he, rfl⟩ := Kv.update_some hu hseen
      refine h.store ht k ⟨h.clock ▸ hnow, hholder, fun l hl => ?_⟩
      obtain ⟨l', hl', hlh, hle, hlx⟩ := h.entry entry he
      rw [hl] at hl'
      cases hl'
      obtain ⟨hn, hvalid, hep⟩ | ⟨hexp, hep⟩ := hcase
      · -- the entry was in force when it was read, so it has not been released since
        obtain ⟨hlive, -⟩ := h.live he (Int.lt_of_le_of_lt hzero hvalid)
        rw [hlive, if_pos rfl] at hlx
        exact .inl ⟨hlive, hlh.symm.trans hn, hlx ▸ hvalid, hep.trans hle⟩
      · refine .inr ⟨?_, ?_⟩
        · cases hlive : t.live with
          | false => exact .inl rfl
          | true =>
            rw [hlive, if_pos rfl] at hlx
            exact .inr (hlx ▸ hexp)
        · have : record.grant.epoch = record.epoch := rfl
          omega

theorem Models.resume {t : Register ι} (h : s.Models t) (ht : Register.system.Reachable t) (k : κ)
    (delivery : Delivery) :
    ∃ t', Register.system.Reachable t' ∧ (s.next (.resume k delivery)).Models t' := by
  have hsound := h.call k
  cases hc : s.call k with
  | idle =>
    simp only [next, hc, run]
    exact ⟨t, ht, h.goto k trivial⟩
  | acquire node now expiresAtMs => exact h.claim ht hc delivery
  | create node now record =>
    rw [hc] at hsound
    simp only [next, hc, run, Kv.create]
    by_cases hd : delivery = .refused
    · simp only [if_pos hd]
      exact ⟨t, ht, h.goto k trivial⟩
    · simp only [if_neg hd]
      cases he : s.kv.entry with
      | none =>
        refine h.store ht k ⟨h.clock ▸ hsound.1, hsound.2, fun l hl => ?_⟩
        rw [h.vacant he] at hl
        cases hl
      | some entry => exact ⟨t, ht, h.goto k (NatsCall.sound_lost node _)⟩
  | update node now record revision => exact h.update ht hc delivery
  | lost node =>
    simp only [next, hc, run]
    exact ⟨t, ht, h.goto k ⟨h.origin, Int.le_refl _⟩⟩
  | current node now =>
    rw [hc] at hsound
    simp only [next, hc, run]
    by_cases hd : delivery ≠ .answered
    · simp only [if_pos hd]
      exact ⟨t, ht, h.goto k trivial⟩
    · simp only [if_neg hd]
      cases he : s.kv.entry with
      | none => exact ⟨t, ht, h.goto k trivial⟩
      | some entry =>
        by_cases hexp : entry.value.expiresAtMs ≤ now
        · simp only [if_pos hexp]
          exact ⟨t, ht, h.goto k trivial⟩
        · simp only [if_neg hexp]
          exact h.report ht k node he (Int.lt_of_le_of_lt hsound.1 (Int.not_le.mp hexp))
  | release node =>
    simp only [next, hc, run]
    by_cases hd : delivery ≠ .answered
    · simp only [if_pos hd]
      exact ⟨t, ht, h.goto k trivial⟩
    · simp only [if_neg hd]
      cases he : s.kv.entry with
      | none => exact ⟨t, ht, h.goto k trivial⟩
      | some entry =>
        refine ⟨t, ht, h.goto k ?_⟩
        by_cases hn : entry.value.holder ≠ node
        · simp only [if_pos hn]
          trivial
        · simp only [if_neg hn]
          exact ⟨entry.value, ⟨entry, he, Nat.le_refl _, fun _ => rfl⟩, not_not.mp hn, rfl⟩
  | clear node record revision =>
    rw [hc] at hsound
    obtain ⟨value, hseen, rfl, rfl⟩ := hsound
    simp only [next, hc, run]
    by_cases hd : delivery = .refused
    · simp only [if_pos hd]
      exact ⟨t, ht, h.goto k trivial⟩
    · simp only [if_neg hd]
      cases hu : s.kv.update { value with expiresAtMs := 0 } revision with
      | none => exact ⟨t, ht, h.goto k trivial⟩
      | some kv =>
        obtain ⟨rfl, entry, he, rfl⟩ := Kv.update_some hu hseen
        exact h.clear ht k he

theorem fenced_of_reachable (h : system.Reachable s) : Fenced s.history := by
  have hsim : ∃ t, Register.system.Reachable t ∧ s.Models t := by
    refine h.simulate Models ?_ ?_
    · rintro _ ⟨now, sequence, hnow, rfl⟩
      exact ⟨⟨now, none, false, []⟩, ⟨rfl, rfl⟩, rfl, rfl, hnow, fun _ => rfl, by simp, by simp,
        fun _ => trivial⟩
    · rintro s act _ t - hm ht ⟨-, rfl⟩
      cases act with
      | advance ms =>
        have hclock : s.now ≤ s.now+ms := by omega
        refine ⟨_, ht.step (.tick (hm.clock ▸ hclock)), rfl, hm.history,
          Int.le_trans hm.origin hclock, hm.vacant, hm.entry, hm.revision, fun k => ?_⟩
        exact (hm.call k).mono hclock (fun _ _ hv => hv)
      | acquire k node ttlMs =>
        exact ⟨t, ht, hm.clock, hm.history, hm.origin, hm.vacant, hm.entry, hm.revision,
          hm.calls k ⟨hm.origin, Int.le_refl _⟩⟩
      | release k node =>
        exact ⟨t, ht, hm.clock, hm.history, hm.origin, hm.vacant, hm.entry, hm.revision,
          hm.calls k trivial⟩
      | resume k delivery => exact hm.resume ht k delivery
  obtain ⟨t, ht, hm⟩ := hsim
  rw [← hm.history]
  exact (Register.inv_of_reachable ht).fenced

end

end

end NatsRun

theorem leases_fenced {ι κ : Type} [DecidableEq ι] [DecidableEq κ] :
    (∀ s : LeaseRun ι, LeaseRun.system.Reachable s → Fenced s.history) ∧
    (∀ s : NatsRun ι κ, NatsRun.system.Reachable s → Fenced s.history) :=
  ⟨fun _ => LeaseRun.fenced_of_reachable, fun _ => NatsRun.fenced_of_reachable⟩

def sampleLeases : List (LeaseAct Bool) :=
  [.acquire true 100, .advance 10, .acquire true 5, .advance 10, .acquire false 100]

def sampleLeaseRun : LeaseRun Bool := sampleLeases.foldl LeaseRun.next ⟨0, .new, []⟩

def sampleRace : List (NatsAct Bool Bool) :=
  [.acquire true true 100, .acquire false false 100, .resume true .answered,
    .resume false .answered, .resume true .answered, .resume false .answered,
    .resume false .answered, .resume false .answered, .advance 200, .acquire false false 100,
    .resume false .answered, .resume false .answered]

def sampleNatsRun : NatsRun Bool Bool :=
  sampleRace.foldl NatsRun.next ⟨0, ⟨none, 0⟩, fun _ => .idle, []⟩

theorem leases_fenced_sample :
    LeaseRun.system.Reachable sampleLeaseRun ∧ NatsRun.system.Reachable sampleNatsRun ∧
    Fenced sampleLeaseRun.history ∧ Fenced sampleNatsRun.history := by
  have hl : LeaseRun.system.Reachable sampleLeaseRun := by
    refine Legal.reachable ?_ (.init ⟨0, rfl⟩)
    exact ⟨trivial, trivial, trivial, trivial, trivial, trivial⟩
  have hn : NatsRun.system.Reachable sampleNatsRun := by
    refine Legal.reachable ?_ (.init ⟨0, 0, Int.le_refl _, rfl⟩)
    exact ⟨rfl, rfl, trivial, trivial, trivial, trivial, trivial, trivial, trivial, rfl, trivial,
      trivial, trivial⟩
  have hlaws := leases_fenced (ι := Bool) (κ := Bool)
  exact ⟨hl, hn, hlaws.1 _ hl, hlaws.2 _ hn⟩

/-- Nobody else wins before the expiry a caller was told, unless the holder released. -/
def ExclusiveUntilRelease {ι : Type} (h : List (Fencing.Event ι)) : Prop :=
  ∀ (i j : Nat) e e' g caller time, i < j → h[i]? = some e → e.grant = some g →
    h[j]? = some e' → e'.Wins caller time → caller ≠ g.holder → time < g.expiry →
    ∃ k, i < k ∧ k < j ∧ h[k]? = some (.released g.holder)

/-- The second acquire of the holder brings the expiry forward from 100 to 15. -/
theorem renewal_shortens_lease :
    LeaseRun.system.Reachable sampleLeaseRun ∧ ¬ExclusiveUntilRelease sampleLeaseRun.history := by
  refine ⟨?_, fun h => ?_⟩
  · refine Legal.reachable ?_ (.init ⟨0, rfl⟩)
    exact ⟨trivial, trivial, trivial, trivial, trivial, trivial⟩
  · obtain ⟨k, h0, h2, hk⟩ := h 0 2 (.stored true 0 0 ⟨true, 1, 100⟩)
      (.stored false 20 20 ⟨false, 2, 120⟩) ⟨true, 1, 100⟩ false 20 (by decide) (by decide) rfl
      (by decide) ⟨⟨false, 2, 120⟩, rfl, .inl ⟨20, rfl⟩⟩ (by decide) (by decide)
    obtain rfl : k = 1 := by omega
    revert hk
    decide

end Knowledge.Replication
