import Knowledge.Lib.Table
import Knowledge.Lib.Tally
import Knowledge.Lib.Transition
import Mathlib.Algebra.Group.Nat.Defs

/-!
`server/internal/middleware/fairshare.go`: the two-level admission of synthesis requests, with
the atomic steps its goroutines take and the reaper of idle gates. A parked goroutine may be
cancelled at any time, by its deadline or its caller.
-/

set_option autoImplicit false

namespace Knowledge.Gateway
open Knowledge.Transition

structure FairShareConfig where
  tenantConcurrency : Int
  tenantQueue : Int
  globalConcurrency : Int

def FairShareConfig.withDefaults (c : FairShareConfig) : FairShareConfig where
  tenantConcurrency := if c.tenantConcurrency < 1 then 2 else c.tenantConcurrency
  tenantQueue := if c.tenantQueue < 0 then 4 else c.tenantQueue
  globalConcurrency := if c.globalConcurrency < 1 then 2 else c.globalConcurrency

def synthGateIdleTtl : Int := 600000000000

def globalWaiterMultiple : Int := 64

def serviceTenantKey : String := "_service"

structure Semaphore where
  tokens : Nat
  capacity : Nat
  waiting : Int
  maxWait : Int

inductive Stage where
  | attempt
  | reserve
  | shed
  | wait
  | taken
  | left

inductive Progress where
  | stay (stage : Stage)
  | admitted
  | refused

namespace Semaphore

def new (capacity maxWaiters : Int) : Semaphore :=
  let capacity := if capacity < 1 then 1 else capacity.toNat
  let maxWaiters := if maxWaiters < 0 then 0 else maxWaiters
  ⟨capacity, capacity, 0, maxWaiters.bmod (2^32)⟩

def release (s : Semaphore) : Semaphore :=
  if s.tokens < s.capacity then { s with tokens := s.tokens+1 } else s

def idle (s : Semaphore) : Bool := s.tokens = s.capacity && s.waiting = 0

/-- The next atomic step of `acquire`. A goroutine that waits with no token free stays. -/
def acquireStep (s : Semaphore) : Stage → Semaphore × Progress
  | .attempt =>
    if 0 < s.tokens then ({ s with tokens := s.tokens-1 }, .admitted) else (s, .stay .reserve)
  | .reserve =>
    ({ s with waiting := s.waiting+1 },
      if s.maxWait < s.waiting+1 then .stay .shed else .stay .wait)
  | .shed => ({ s with waiting := s.waiting-1 }, .refused)
  | .wait =>
    if 0 < s.tokens then ({ s with tokens := s.tokens-1 }, .stay .taken) else (s, .stay .wait)
  | .taken => ({ s with waiting := s.waiting-1 }, .admitted)
  | .left => ({ s with waiting := s.waiting-1 }, .refused)

end Semaphore

structure TenantGate where
  sem : Semaphore
  lastSeen : Int

inductive Outcome where
  | tenantThrottled
  | poolSaturated
  | released

/-- Where a request is: before `gate` has read the clock, before it has the lock, before it
stores the time, in `acquire` of its gate or of the global semaphore, about to give its tenant
token back, admitted, inside `release`, or done. Gates are named by their address. -/
inductive Phase where
  | called
  | clocked (now : Int)
  | found (g : Nat) (now : Int)
  | tenant (g : Nat) (stage : Stage)
  | pool (g : Nat) (stage : Stage)
  | giveBack (g : Nat)
  | holding (g : Nat)
  | releasing (g : Nat)
  | finished (outcome : Outcome)

/-- How many tokens a request took out of a semaphore and put back into it. -/
structure Ledger where
  taken : Nat
  given : Nat

def Ledger.record (l : Ledger) (before after : Nat) : Ledger :=
  if after < before then { l with taken := l.taken+1 }
  else if before < after then { l with given := l.given+1 }
  else l

structure Request where
  tenant : String
  phase : Phase
  tenantLedger : Ledger
  globalLedger : Ledger

structure FairShare where
  cfg : FairShareConfig
  global : Semaphore
  gates : Table String Nat
  heap : Nat → TenantGate
  fresh : Nat
  requests : List Request
  clock : Int

def newGate (cfg : FairShareConfig) (now : Int) : TenantGate :=
  ⟨.new cfg.tenantConcurrency cfg.tenantQueue, now⟩

def newSynthesisFairShare (cfg : FairShareConfig) (now : Int) : FairShare :=
  let cfg := cfg.withDefaults
  { cfg
    global := .new cfg.globalConcurrency
      ((cfg.globalConcurrency*globalWaiterMultiple).bmod (2^64))
    gates := ∅
    heap := fun _ => newGate cfg now
    fresh := 0
    requests := []
    clock := now }

/-- The next atomic step of a request that has its gate, with the gate's semaphore and the
global one. -/
def Phase.step (gate global : Semaphore) : Phase → Phase × Semaphore × Semaphore
  | .tenant g stage =>
    let (gate, progress) := gate.acquireStep stage
    match progress with
    | .stay stage => (.tenant g stage, gate, global)
    | .admitted => (.pool g .attempt, gate, global)
    | .refused => (.finished .tenantThrottled, gate, global)
  | .pool g stage =>
    let (global, progress) := global.acquireStep stage
    match progress with
    | .stay stage => (.pool g stage, gate, global)
    | .admitted => (.holding g, gate, global)
    | .refused => (.giveBack g, gate, global)
  | .giveBack _ => (.finished .poolSaturated, gate.release, global)
  | .releasing _ => (.finished .released, gate.release, global)
  | p => (p, gate, global)

def Phase.cancel : Phase → Phase
  | .tenant g .wait => .tenant g .left
  | .pool g .wait => .pool g .left
  | p => p

namespace FairShare

def settle (s : FairShare) (i : Nat) (r : Request) (g : Nat)
    (step : Phase × Semaphore × Semaphore) : FairShare :=
  let gate := s.heap g
  let tenantLedger := r.tenantLedger.record gate.sem.tokens step.2.1.tokens
  let globalLedger := r.globalLedger.record s.global.tokens step.2.2.tokens
  { s with
    global := step.2.2
    heap := Function.update s.heap g { gate with sem := step.2.1 }
    requests := s.requests.set i { r with phase := step.1, tenantLedger, globalLedger } }

def setPhase (s : FairShare) (i : Nat) (r : Request) (phase : Phase) : FairShare :=
  { s with requests := s.requests.set i { r with phase } }

def lookupGate (s : FairShare) (tenant : String) (now : Int) : FairShare × Nat :=
  match s.gates.lookup tenant with
  | some g => (s, g)
  | none =>
    ({ s with
       gates := s.gates.insert tenant s.fresh
       heap := Function.update s.heap s.fresh (newGate s.cfg now)
       fresh := s.fresh+1 }, s.fresh)

def advance (s : FairShare) (i : Nat) (r : Request) : FairShare :=
  match r.phase with
  | .called => s.setPhase i r (.clocked s.clock)
  | .clocked now =>
    let (s, g) := s.lookupGate r.tenant now
    s.setPhase i r (.found g now)
  | .found g now =>
    { s with heap := Function.update s.heap g { s.heap g with lastSeen := now } }.setPhase i r
      (.tenant g .attempt)
  | .tenant g _ | .pool g _ | .giveBack g | .releasing g =>
    s.settle i r g (r.phase.step (s.heap g).sem s.global)
  | .holding _ | .finished _ => s

/-- The function that `Acquire` returned: `sync.Once` makes every later call do nothing. -/
def release (s : FairShare) (i : Nat) (r : Request) : FairShare :=
  match r.phase with
  | .holding g => s.settle i r g (.releasing g, (s.heap g).sem, s.global.release)
  | _ => s

def stale (s : FairShare) (now : Int) (g : Nat) : Bool :=
  (s.heap g).lastSeen ≤ now-synthGateIdleTtl && (s.heap g).sem.idle

def reap (s : FairShare) (now : Int) : FairShare :=
  { s with gates := s.gates.filter fun _ g => !s.stale now g }

end FairShare

inductive Step where
  | acquire (tenant : String)
  | advance (i : Nat)
  | cancel (i : Nat)
  | release (i : Nat)
  | reap (now : Int)
  | tick (now : Int)

def FairShare.withRequest (s : FairShare) (i : Nat) (f : Request → FairShare) : FairShare :=
  match s.requests[i]? with
  | some r => f r
  | none => s

def Step.run (s : FairShare) : Step → FairShare
  | acquire tenant =>
    let tenant := if tenant = "" then serviceTenantKey else tenant
    { s with requests := s.requests ++ [⟨tenant, .called, ⟨0, 0⟩, ⟨0, 0⟩⟩] }
  | advance i => s.withRequest i (s.advance i)
  | cancel i => s.withRequest i fun r => s.setPhase i r r.phase.cancel
  | release i => s.withRequest i (s.release i)
  | reap now => s.reap now
  | tick now => { s with clock := now }

/-- The clock never goes back; the reaper may have read it before it got the lock. -/
def Step.enabled (s : FairShare) : Step → Prop
  | reap now => now ≤ s.clock
  | tick now => s.clock ≤ now
  | _ => True

instance Step.decidableEnabled (s : FairShare) : (step : Step) → Decidable (step.enabled s)
  | reap now => inferInstanceAs (Decidable (now ≤ s.clock))
  | tick now => inferInstanceAs (Decidable (s.clock ≤ now))
  | acquire _ | advance _ | cancel _ | release _ => isTrue trivial

def fairShare (cfg : FairShareConfig) : System FairShare Step :=
  .ofNext (fun s => ∃ now, s = newSynthesisFairShare cfg now) Step.enabled Step.run

end Knowledge.Gateway
