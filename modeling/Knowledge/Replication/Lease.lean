import Knowledge.Lib.Machine
import Mathlib.Data.Int.Order.Basic

/-!
The leadership lease of `replication/memory.rs`, over any type of node ids. The clock
reads Unix milliseconds.
-/

set_option autoImplicit false

namespace Knowledge.Replication
open Knowledge.Machine

structure Lease (ι : Type) where
  holder : ι
  epoch : Nat
  expiresAtMs : Int

def leaseExpiryMs (nowMs : Int) (ttlMs : Nat) : Int := min (nowMs+min ttlMs i64Max) i64Max

structure InMemoryLeaseStore (ι : Type) where
  lease : Option (Lease ι)
  lastEpoch : Nat

namespace InMemoryLeaseStore

def new {ι : Type} : InMemoryLeaseStore ι := ⟨none, 0⟩

def take {ι : Type} (store : InMemoryLeaseStore ι) (node : ι) (expiresAtMs : Int) :
    Lease ι × InMemoryLeaseStore ι :=
  let epoch := store.lastEpoch+1
  let fresh : Lease ι := ⟨node, epoch, expiresAtMs⟩
  (fresh, ⟨some fresh, epoch⟩)

def acquire {ι : Type} [DecidableEq ι] (store : InMemoryLeaseStore ι) (now : Int) (node : ι)
    (ttlMs : Nat) : Lease ι × InMemoryLeaseStore ι :=
  let expiresAtMs := leaseExpiryMs now ttlMs
  match store.lease with
  | some l =>
    if l.holder = node ∧ now < l.expiresAtMs then
      let renewed : Lease ι := ⟨node, l.epoch, expiresAtMs⟩
      (renewed, { store with lease := some renewed })
    else if now < l.expiresAtMs then (l, store)
    else store.take node expiresAtMs
  | none => store.take node expiresAtMs

def release {ι : Type} [DecidableEq ι] (store : InMemoryLeaseStore ι) (node : ι) :
    InMemoryLeaseStore ι :=
  match store.lease with
  | some l => if l.holder = node then { store with lease := none } else store
  | none => store

def current {ι : Type} (store : InMemoryLeaseStore ι) (now : Int) : Option (Lease ι) :=
  store.lease.filter (fun l => now < l.expiresAtMs)

def holder {ι : Type} (store : InMemoryLeaseStore ι) : Option ι := store.lease.map Lease.holder

theorem acquire_cases {ι : Type} [DecidableEq ι] (store : InMemoryLeaseStore ι) (now : Int)
    (node : ι) (ttlMs : Nat) :
    ((store.acquire now node ttlMs).1.holder = node ∧
      (store.acquire now node ttlMs).2.holder = some node ∧
      ∀ l ∈ store.lease, now < l.expiresAtMs → l.holder = node) ∨
    ∃ l, store.lease = some l ∧ l.holder ≠ node ∧ now < l.expiresAtMs ∧
      store.acquire now node ttlMs = (l, store) := by
  unfold acquire
  cases hl : store.lease with
  | none => exact .inl ⟨rfl, rfl, by simp⟩
  | some l =>
    by_cases hn : l.holder = node
    · refine .inl ?_
      by_cases ht : now < l.expiresAtMs
      · simp [holder, hn, ht]
      · simp [holder, take, hn, ht]
    · by_cases ht : now < l.expiresAtMs
      · exact .inr ⟨l, rfl, hn, ht, by simp [hn, ht]⟩
      · refine .inl ?_
        simp [holder, take, ht]

theorem release_holder {ι : Type} [DecidableEq ι] (store : InMemoryLeaseStore ι) (node : ι) :
    (store.release node).holder = if store.holder = some node then none else store.holder := by
  unfold release holder
  cases hl : store.lease with
  | none => simp [hl]
  | some l => by_cases hn : l.holder = node <;> simp [hl, hn]

end InMemoryLeaseStore

end Knowledge.Replication
