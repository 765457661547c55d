import Knowledge.Gateway.FairShare

/-!
The caps of the fair-share admission under every interleaving. Each semaphore's free tokens and
the requests that hold one add up to its capacity; a tenant's requests share one gate as long as
the reaper takes no gate away from a request that has just looked it up.
-/

set_option autoImplicit false

namespace Knowledge.Gateway
open Knowledge.Transition
open Tally

@[simp] def Stage.counted : Stage → Bool
  | attempt | reserve => false
  | shed | wait | taken | left => true

@[simp] def Stage.holds : Stage → Bool
  | taken => true
  | _ => false

@[simp] def Progress.counted : Progress → Bool
  | stay stage => stage.counted
  | _ => false

@[simp] def Progress.holds : Progress → Bool
  | stay stage => stage.holds
  | admitted => true
  | refused => false

theorem Semaphore.acquireStep_spec (s : Semaphore) (stage : Stage) :
    (s.acquireStep stage).1.capacity = s.capacity ∧
      (s.acquireStep stage).1.tokens + (s.acquireStep stage).2.holds.toNat =
        s.tokens + stage.holds.toNat ∧
      (s.acquireStep stage).1.waiting + stage.counted.toNat =
        s.waiting + (s.acquireStep stage).2.counted.toNat := by
  cases stage with
  | attempt =>
    by_cases h : 0 < s.tokens
    · simp [acquireStep, h]
      omega
    · simp [acquireStep, h]
  | reserve =>
    by_cases h : s.maxWait < s.waiting+1 <;>
      simp [acquireStep, h]
  | shed => simp [acquireStep]
  | wait =>
    by_cases h : 0 < s.tokens
    · simp [acquireStep, h]
      omega
    · simp [acquireStep, h]
  | taken => simp [acquireStep]
  | left => simp [acquireStep]

theorem Semaphore.acquireStep_of_holds (s : Semaphore) (stage : Stage)
    (h : stage.holds = true) : (s.acquireStep stage).2 = .admitted := by
  cases stage <;> first | rfl | cases h

theorem Semaphore.release_of_lt {s : Semaphore} (h : s.tokens < s.capacity) :
    s.release = { s with tokens := s.tokens+1 } := if_pos h

namespace Phase

@[simp] def gate : Phase → Option Nat
  | found g _ | tenant g _ | pool g _ | giveBack g | holding g | releasing g => some g
  | called | clocked _ | finished _ => none

@[simp] def holdsToken : Phase → Bool
  | tenant _ stage => stage.holds
  | pool _ _ | giveBack _ | holding _ | releasing _ => true
  | _ => false

def holdsTenant (g : Nat) (p : Phase) : Bool := p.gate == some g && p.holdsToken

@[simp] def holdsGlobal : Phase → Bool
  | pool _ stage => stage.holds
  | holding _ => true
  | _ => false

@[simp] def waitsTenant (g : Nat) : Phase → Bool
  | tenant h stage => h == g && stage.counted
  | _ => false

@[simp] def awaitsTenant : Phase → Bool
  | called | clocked _ | found _ _ => true
  | tenant _ stage => !stage.holds
  | _ => false

@[simp] def awaitsGlobal : Phase → Bool
  | called | clocked _ | found _ _ | tenant _ _ => true
  | pool _ stage => !stage.holds
  | _ => false

@[simp] def waitsGlobal : Phase → Bool
  | pool _ stage => stage.counted
  | _ => false

/-- The request has looked its gate up but has neither a token of it nor a place in its queue. -/
def arriving : Phase → Bool
  | found _ _ | tenant _ .attempt | tenant _ .reserve => true
  | _ => false

theorem holds_or_waits_or_arriving {p : Phase} {g : Nat} (h : p.gate = some g) :
    p.holdsTenant g = true ∨ p.waitsTenant g = true ∨ p.arriving = true := by
  rw [holdsTenant, h]
  cases p with
  | tenant k stage =>
    cases h
    cases stage <;> simp [arriving]
  | found k now => exact .inr (.inr rfl)
  | _ => simp_all

theorem holdsTenant_eq_false {p : Phase} {g : Nat} (h : ∀ k ∈ p.gate, k ≠ g) :
    p.holdsTenant g = false := by
  unfold holdsTenant
  cases hp : p.gate with
  | none => rfl
  | some k =>
    have := h k hp
    simp [this]

theorem waitsTenant_eq_false {p : Phase} {g : Nat} (h : ∀ k ∈ p.gate, k ≠ g) :
    p.waitsTenant g = false := by
  cases p <;> simp_all

theorem holdsTenant_eq_holdsToken {p : Phase} {g : Nat} (h : ∀ k ∈ p.gate, k = g) :
    p.holdsTenant g = p.holdsToken := by
  unfold holdsTenant
  cases p <;> simp_all

theorem not_awaitsTenant_of_holds {p : Phase} (h : p.holdsToken = true) :
    p.awaitsTenant = false := by
  cases p <;> simp_all

theorem not_awaitsGlobal_of_holds {p : Phase} (h : p.holdsGlobal = true) :
    p.awaitsGlobal = false := by
  cases p <;> simp_all

end Phase

/-- One step of a request at its gate keeps the sum of what the semaphores have and what the
request holds, in tokens and in places of the queue; and it takes each token once. -/
structure LocalStep (g : Nat) (p : Phase) (gate global : Semaphore)
    (r : Phase × Semaphore × Semaphore) : Prop where
  pointer : ∀ k ∈ r.1.gate, k = g
  capacity : r.2.1.capacity = gate.capacity
  globalCapacity : r.2.2.capacity = global.capacity
  tokens : r.2.1.tokens + r.1.holdsToken.toNat = gate.tokens + p.holdsToken.toNat
  waiting : r.2.1.waiting + (p.waitsTenant g).toNat = gate.waiting + (r.1.waitsTenant g).toNat
  globalTokens : r.2.2.tokens + r.1.holdsGlobal.toNat = global.tokens + p.holdsGlobal.toNat
  globalWaiting : r.2.2.waiting + p.waitsGlobal.toNat = global.waiting + r.1.waitsGlobal.toNat
  takes : r.1.holdsToken = true → p.holdsToken = true ∨ p.awaitsTenant = true
  globalTakes : r.1.holdsGlobal = true → p.holdsGlobal = true ∨ p.awaitsGlobal = true
  awaits : r.1.awaitsTenant = true → p.awaitsTenant = true
  globalAwaits : r.1.awaitsGlobal = true → p.awaitsGlobal = true

section

open Phase

theorem localStep_tenant (g : Nat) (stage : Stage) (gate global : Semaphore) :
    LocalStep g (.tenant g stage) gate global (Phase.step gate global (.tenant g stage)) := by
  obtain ⟨hcapacity, htokens, hwaiting⟩ := gate.acquireStep_spec stage
  have hholds := gate.acquireStep_of_holds stage
  simp only [Phase.step]
  generalize gate.acquireStep stage = r at *
  obtain ⟨after, progress⟩ := r
  cases progress with
  | stay next =>
    constructor <;> cases hs : stage.holds <;> simp_all
  | admitted =>
    constructor <;> cases hs : stage.holds <;> simp_all
  | refused =>
    constructor <;> cases hs : stage.holds <;> simp_all

theorem localStep_pool (g : Nat) (stage : Stage) (gate global : Semaphore) :
    LocalStep g (.pool g stage) gate global (Phase.step gate global (.pool g stage)) := by
  obtain ⟨hcapacity, htokens, hwaiting⟩ := global.acquireStep_spec stage
  have hholds := global.acquireStep_of_holds stage
  simp only [Phase.step]
  generalize global.acquireStep stage = r at *
  obtain ⟨after, progress⟩ := r
  cases progress with
  | stay next =>
    constructor <;> cases hs : stage.holds <;> simp_all
  | admitted =>
    constructor <;> cases hs : stage.holds <;> simp_all
  | refused =>
    constructor <;> cases hs : stage.holds <;> simp_all

theorem localStep_release (g : Nat) {p : Phase} {gate global : Semaphore} (outcome : Outcome)
    (hp : p = .giveBack g ∨ p = .releasing g) (h : gate.tokens < gate.capacity) :
    LocalStep g p gate global (.finished outcome, gate.release, global) := by
  rw [Semaphore.release_of_lt h]
  obtain rfl | rfl := hp
  · constructor <;> simp
  · constructor <;> simp

theorem localStep_holding (g : Nat) {gate global : Semaphore}
    (h : global.tokens < global.capacity) :
    LocalStep g (.holding g) gate global (.releasing g, gate, global.release) := by
  rw [Semaphore.release_of_lt h]
  constructor <;> simp

end

/-- What a request took it gave back or holds, it took each token at most once, and none that
it still waits for. -/
structure Request.Books (r : Request) : Prop where
  balance : r.tenantLedger.taken = r.tenantLedger.given + r.phase.holdsToken.toNat
  once : r.tenantLedger.taken ≤ 1
  awaits : r.phase.awaitsTenant = true → r.tenantLedger.taken = 0
  globalBalance : r.globalLedger.taken = r.globalLedger.given + r.phase.holdsGlobal.toNat
  globalOnce : r.globalLedger.taken ≤ 1
  globalAwaits : r.phase.awaitsGlobal = true → r.globalLedger.taken = 0

theorem Ledger.record_books {l : Ledger} {before after : Nat} {holds holds' awaits awaits' : Bool}
    (htokens : after + holds'.toNat = before + holds.toNat)
    (hbalance : l.taken = l.given + holds.toNat) (honce : l.taken ≤ 1)
    (hawaits : awaits = true → l.taken = 0) (htakes : holds' = true → holds = true ∨ awaits = true)
    (hopen : awaits' = true → awaits = true) (hnot : holds' = true → awaits' = false) :
    (l.record before after).taken = (l.record before after).given + holds'.toNat ∧
      (l.record before after).taken ≤ 1 ∧
      (awaits' = true → (l.record before after).taken = 0) := by
  unfold Ledger.record
  cases holds <;> cases holds' <;> simp only [Bool.toNat_false, Bool.toNat_true] at htokens hbalance ⊢
  · rw [if_neg (by omega), if_neg (by omega)]
    exact ⟨hbalance, honce, fun h => hawaits (hopen h)⟩
  · have hzero := hawaits ((htakes rfl).resolve_left Bool.false_ne_true)
    rw [if_pos (by omega)]
    refine ⟨by dsimp only; omega, by dsimp only; omega, fun h => ?_⟩
    rw [hnot rfl] at h
    cases h
  · rw [if_neg (by omega), if_pos (by omega)]
    exact ⟨by dsimp only; omega, honce, fun h => hawaits (hopen h)⟩
  · rw [if_neg (by omega), if_neg (by omega)]
    exact ⟨hbalance, honce, fun h => hawaits (hopen h)⟩

structure Semaphore.Balanced (s : Semaphore) (capacity : Int) (holders waiters : Nat) : Prop where
  capacity : (s.capacity : Int) = capacity
  tokens : s.tokens + holders = s.capacity
  waiting : s.waiting = waiters

theorem Semaphore.Balanced.move {s s' : Semaphore} {capacity : Int} {h w h' w' : Nat}
    {a a' b b' : Bool} (hs : s.Balanced capacity h w) (hcapacity : s'.capacity = s.capacity)
    (htokens : s'.tokens + a'.toNat = s.tokens + a.toNat)
    (hwaiting : s'.waiting + b.toNat = s.waiting + b'.toNat)
    (hholders : h' + a.toNat = h + a'.toNat) (hwaiters : w' + b.toNat = w + b'.toNat) :
    s'.Balanced capacity h' w' := by
  have hsum := hs.tokens
  have hcount := hs.waiting
  exact ⟨by rw [hcapacity, hs.capacity], by omega, by omega⟩

namespace FairShare

def holders (s : FairShare) (g : Nat) : Nat := s.requests.countP (·.phase.holdsTenant g)

def waiters (s : FairShare) (g : Nat) : Nat := s.requests.countP (·.phase.waitsTenant g)

def globalHolders (s : FairShare) : Nat := s.requests.countP (·.phase.holdsGlobal)

def globalWaiters (s : FairShare) : Nat := s.requests.countP (·.phase.waitsGlobal)

structure Inv (cfg : FairShareConfig) (s : FairShare) : Prop where
  cfg : s.cfg = cfg.withDefaults
  gates : ∀ g, (s.heap g).sem.Balanced s.cfg.tenantConcurrency (s.holders g) (s.waiters g)
  pool : s.global.Balanced s.cfg.globalConcurrency s.globalHolders s.globalWaiters
  books : ∀ r ∈ s.requests, r.Books
  allocated : ∀ r ∈ s.requests, ∀ g ∈ r.phase.gate, g < s.fresh
  mapped : ∀ tenant g, s.gates.lookup tenant = some g → g < s.fresh

theorem books_settle {r : Request} {g : Nat} {gate global : Semaphore}
    {step : Phase × Semaphore × Semaphore} (hr : r.Books)
    (h : LocalStep g r.phase gate global step) :
    Request.Books ⟨r.tenant, step.1, r.tenantLedger.record gate.tokens step.2.1.tokens,
      r.globalLedger.record global.tokens step.2.2.tokens⟩ := by
  obtain ⟨hbalance, honce, hawaits⟩ := Ledger.record_books h.tokens hr.balance hr.once hr.awaits
    h.takes h.awaits Phase.not_awaitsTenant_of_holds
  obtain ⟨hglobalBalance, hglobalOnce, hglobalAwaits⟩ := Ledger.record_books h.globalTokens
    hr.globalBalance hr.globalOnce hr.globalAwaits h.globalTakes h.globalAwaits
    Phase.not_awaitsGlobal_of_holds
  exact ⟨hbalance, honce, hawaits, hglobalBalance, hglobalOnce, hglobalAwaits⟩

theorem tally_settle (s : FairShare) {i : Nat} {r : Request} (hi : s.requests[i]? = some r)
    (g : Nat) (step : Phase × Semaphore × Semaphore) (f : Phase → Bool) :
    (s.settle i r g step).requests.countP (fun r => f r.phase) + (f r.phase).toNat =
      s.requests.countP (fun r => f r.phase) + (f step.1).toNat :=
  countP_set_add (fun r => f r.phase) hi _

theorem Inv.settle {cfg : FairShareConfig} {s : FairShare} (hs : Inv cfg s) {i : Nat}
    {r : Request} (hi : s.requests[i]? = some r) {g : Nat} (hg : r.phase.gate = some g)
    {step : Phase × Semaphore × Semaphore}
    (h : LocalStep g r.phase (s.heap g).sem s.global step) : Inv cfg (s.settle i r g step) := by
  have hmem := List.mem_of_getElem? hi
  have hpointer : ∀ k ∈ r.phase.gate, k = g := fun k hk => by
    rw [hg] at hk
    exact (Option.mem_some.mp hk).symm
  refine ⟨hs.cfg, fun k => ?_, ?_, ?_, ?_, hs.mapped⟩
  · have hholders := s.tally_settle hi g step (Phase.holdsTenant k)
    have hwaiters := s.tally_settle hi g step (Phase.waitsTenant k)
    by_cases hk : k = g
    · subst hk
      rw [Phase.holdsTenant_eq_holdsToken h.pointer,
        Phase.holdsTenant_eq_holdsToken hpointer] at hholders
      simp only [FairShare.settle, Function.update_self]
      exact (hs.gates k).move h.capacity h.tokens h.waiting hholders hwaiters
    · have hother : ∀ p : Phase, (∀ l ∈ p.gate, l = g) → ∀ l ∈ p.gate, l ≠ k :=
        fun p hp l hl heq => hk (heq ▸ hp l hl)
      rw [Phase.holdsTenant_eq_false (hother _ h.pointer),
        Phase.holdsTenant_eq_false (hother _ hpointer)] at hholders
      rw [Phase.waitsTenant_eq_false (hother _ h.pointer),
        Phase.waitsTenant_eq_false (hother _ hpointer)] at hwaiters
      simp only [FairShare.settle, Function.update_of_ne hk]
      exact (hs.gates k).move rfl rfl rfl hholders hwaiters
  · exact hs.pool.move h.globalCapacity h.globalTokens h.globalWaiting
      (s.tally_settle hi g step Phase.holdsGlobal) (s.tally_settle hi g step Phase.waitsGlobal)
  · exact forall_mem_set hs.books (books_settle (hs.books r hmem) h)
  · refine forall_mem_set hs.allocated fun k hk => ?_
    rw [h.pointer k hk]
    exact hs.allocated r hmem g hg

/-- A change of phase that moves neither a token nor a place in a queue. -/
structure SamePlace (p p' : Phase) : Prop where
  holdsTenant : ∀ g, p'.holdsTenant g = p.holdsTenant g
  waitsTenant : ∀ g, p'.waitsTenant g = p.waitsTenant g
  holdsToken : p'.holdsToken = p.holdsToken
  holdsGlobal : p'.holdsGlobal = p.holdsGlobal
  waitsGlobal : p'.waitsGlobal = p.waitsGlobal
  awaits : p'.awaitsTenant = true → p.awaitsTenant = true
  globalAwaits : p'.awaitsGlobal = true → p.awaitsGlobal = true

theorem tally_setPhase (s : FairShare) {i : Nat} {r : Request} (hi : s.requests[i]? = some r)
    {p : Phase} {f : Phase → Bool} (hf : f p = f r.phase) :
    (s.setPhase i r p).requests.countP (fun r => f r.phase) =
      s.requests.countP (fun r => f r.phase) := by
  have := countP_set_add (fun r => f r.phase) hi { r with phase := p }
  rw [hf] at this
  exact Nat.add_right_cancel this

theorem Inv.setPhase {cfg : FairShareConfig} {s : FairShare} (hs : Inv cfg s) {i : Nat}
    {r : Request} (hi : s.requests[i]? = some r) {p : Phase} (h : SamePlace r.phase p)
    (hg : ∀ g ∈ p.gate, g < s.fresh) : Inv cfg (s.setPhase i r p) := by
  have hbooks := hs.books r (List.mem_of_getElem? hi)
  refine ⟨hs.cfg, fun k => ?_, ?_, ?_, forall_mem_set hs.allocated hg, hs.mapped⟩
  · rw [holders, waiters, s.tally_setPhase hi (h.holdsTenant k), s.tally_setPhase hi (h.waitsTenant k)]
    exact hs.gates k
  · rw [globalHolders, globalWaiters, s.tally_setPhase hi h.holdsGlobal,
      s.tally_setPhase hi h.waitsGlobal]
    exact hs.pool
  · refine forall_mem_set hs.books ⟨?_, hbooks.once, fun ha => hbooks.awaits (h.awaits ha),
      ?_, hbooks.globalOnce, fun ha => hbooks.globalAwaits (h.globalAwaits ha)⟩
    · rw [h.holdsToken]
      exact hbooks.balance
    · rw [h.holdsGlobal]
      exact hbooks.globalBalance

theorem Inv.storeLastSeen {cfg : FairShareConfig} {s : FairShare} (hs : Inv cfg s) (g : Nat)
    (now : Int) :
    Inv cfg { s with heap := Function.update s.heap g { s.heap g with lastSeen := now } } := by
  refine ⟨hs.cfg, fun k => ?_, hs.pool, hs.books, hs.allocated, hs.mapped⟩
  have hk := hs.gates k
  by_cases heq : k = g
  · subst heq
    simp only [Function.update_self]
    exact hk
  · simp only [Function.update_of_ne heq]
    exact hk

theorem balanced_new {capacity maxWaiters : Int} (h : 1 ≤ capacity) :
    (Semaphore.new capacity maxWaiters).Balanced capacity 0 0 := by
  unfold Semaphore.new
  rw [if_neg (by omega)]
  exact ⟨Int.toNat_of_nonneg (by omega), rfl, rfl⟩

theorem one_le_tenantConcurrency (cfg : FairShareConfig) :
    1 ≤ cfg.withDefaults.tenantConcurrency := by
  unfold FairShareConfig.withDefaults
  dsimp only
  split <;> omega

theorem one_le_globalConcurrency (cfg : FairShareConfig) :
    1 ≤ cfg.withDefaults.globalConcurrency := by
  unfold FairShareConfig.withDefaults
  dsimp only
  split <;> omega

theorem Inv.lookupGate {cfg : FairShareConfig} {s : FairShare} (hs : Inv cfg s)
    (tenant : String) (now : Int) :
    Inv cfg (s.lookupGate tenant now).1 ∧
      (s.lookupGate tenant now).2 < (s.lookupGate tenant now).1.fresh := by
  unfold FairShare.lookupGate
  split
  · rename_i g hg
    exact ⟨hs, hs.mapped tenant g hg⟩
  · have hunused : ∀ r ∈ s.requests, ∀ k ∈ r.phase.gate, k ≠ s.fresh :=
      fun r hr k hk => Nat.ne_of_lt (hs.allocated r hr k hk)
    have hholders : s.holders s.fresh = 0 := List.countP_eq_zero.mpr fun r hr => by
      simp [Phase.holdsTenant_eq_false (hunused r hr)]
    have hwaiters : s.waiters s.fresh = 0 := List.countP_eq_zero.mpr fun r hr => by
      simp only [Phase.waitsTenant_eq_false (hunused r hr), Bool.false_eq_true, not_false_eq_true]
    refine ⟨⟨hs.cfg, fun k => ?_, hs.pool, hs.books, ?_, ?_⟩, Nat.lt_succ_self _⟩
    · by_cases hk : k = s.fresh
      · subst hk
        simp only [Function.update_self]
        show (newGate s.cfg now).sem.Balanced _ (s.holders s.fresh) (s.waiters s.fresh)
        rw [hholders, hwaiters]
        exact balanced_new (hs.cfg ▸ one_le_tenantConcurrency cfg)
      · simp only [Function.update_of_ne hk]
        exact hs.gates k
    · exact fun r hr g hg => Nat.lt_succ_of_lt (hs.allocated r hr g hg)
    · intro tenant' g hg
      rw [Table.lookup_insert_ite] at hg
      split at hg
      · cases hg
        exact Nat.lt_succ_self _
      · exact Nat.lt_succ_of_lt (hs.mapped tenant' g hg)

theorem lookupGate_requests (s : FairShare) (tenant : String) (now : Int) :
    (s.lookupGate tenant now).1.requests = s.requests := by
  unfold FairShare.lookupGate
  split <;> rfl

theorem Inv.tokens_lt {cfg : FairShareConfig} {s : FairShare} (hs : Inv cfg s) {i : Nat}
    {r : Request} (hi : s.requests[i]? = some r) {g : Nat}
    (hr : r.phase.holdsTenant g = true) : (s.heap g).sem.tokens < (s.heap g).sem.capacity := by
  have hpos : 0 < s.holders g := countP_pos_of_getElem? hi hr
  have hsum := (hs.gates g).tokens
  omega

theorem Inv.globalTokens_lt {cfg : FairShareConfig} {s : FairShare} (hs : Inv cfg s) {i : Nat}
    {r : Request} (hi : s.requests[i]? = some r) (hr : r.phase.holdsGlobal = true) :
    s.global.tokens < s.global.capacity := by
  have hpos : 0 < s.globalHolders := countP_pos_of_getElem? hi hr
  have hsum := hs.pool.tokens
  omega

theorem samePlace_cancel (p : Phase) : SamePlace p p.cancel := by
  unfold Phase.cancel
  split <;> constructor <;> simp [Phase.holdsTenant]

theorem gate_cancel (p : Phase) : p.cancel.gate = p.gate := by
  unfold Phase.cancel
  split <;> rfl

theorem samePlace_of_arriving {p p' : Phase} (hp : p = .called ∨ (∃ now, p = .clocked now) ∨
      ∃ g now, p = .found g now)
    (hp' : (∃ now, p' = .clocked now) ∨ (∃ g now, p' = .found g now) ∨
      ∃ g, p' = .tenant g .attempt) : SamePlace p p' := by
  obtain rfl | ⟨now, rfl⟩ | ⟨g, now, rfl⟩ := hp <;>
    obtain ⟨now', rfl⟩ | ⟨g', now', rfl⟩ | ⟨g', rfl⟩ := hp' <;>
    constructor <;> simp [Phase.holdsTenant]

theorem Inv.advance {cfg : FairShareConfig} {s : FairShare} (hs : Inv cfg s) {i : Nat}
    {r : Request} (hi : s.requests[i]? = some r) : Inv cfg (s.advance i r) := by
  unfold FairShare.advance
  split
  case h_1 hp =>
    exact hs.setPhase hi (hp ▸ samePlace_of_arriving (.inl rfl) (.inl ⟨_, rfl⟩)) nofun
  case h_2 now hp =>
    obtain ⟨hs', hlt⟩ := hs.lookupGate r.tenant now
    refine hs'.setPhase (by rwa [lookupGate_requests])
      (hp ▸ samePlace_of_arriving (.inr (.inl ⟨now, rfl⟩)) (.inr (.inl ⟨_, _, rfl⟩))) ?_
    exact fun g hg => Option.mem_some.mp hg ▸ hlt
  case h_3 g now hp =>
    refine (hs.storeLastSeen g now).setPhase hi
      (hp ▸ samePlace_of_arriving (.inr (.inr ⟨g, now, rfl⟩)) (.inr (.inr ⟨g, rfl⟩))) ?_
    intro k hk
    cases Option.mem_some.mp hk
    exact hs.allocated r (List.mem_of_getElem? hi) g (by rw [hp]; rfl)
  case h_4 g stage hp =>
    exact hs.settle hi (by rw [hp]; rfl) (by rw [hp]; exact localStep_tenant ..)
  case h_5 g stage hp =>
    exact hs.settle hi (by rw [hp]; rfl) (by rw [hp]; exact localStep_pool ..)
  case h_6 g hp =>
    refine hs.settle hi (by rw [hp]; rfl) ?_
    rw [hp]
    exact localStep_release g _ (.inl rfl) (hs.tokens_lt hi (by rw [hp]; simp [Phase.holdsTenant]))
  case h_7 g hp =>
    refine hs.settle hi (by rw [hp]; rfl) ?_
    rw [hp]
    exact localStep_release g _ (.inr rfl) (hs.tokens_lt hi (by rw [hp]; simp [Phase.holdsTenant]))
  case h_8 => exact hs
  case h_9 => exact hs

theorem Inv.release {cfg : FairShareConfig} {s : FairShare} (hs : Inv cfg s) {i : Nat}
    {r : Request} (hi : s.requests[i]? = some r) : Inv cfg (s.release i r) := by
  unfold FairShare.release
  split
  · rename_i g hp
    refine hs.settle hi (by rw [hp]; rfl) ?_
    rw [hp]
    exact localStep_holding g (hs.globalTokens_lt hi (by rw [hp]; rfl))
  · exact hs

theorem Inv.acquire {cfg : FairShareConfig} {s : FairShare} (hs : Inv cfg s) (tenant : String) :
    Inv cfg { s with requests := s.requests ++ [⟨tenant, .called, ⟨0, 0⟩, ⟨0, 0⟩⟩] } := by
  refine ⟨hs.cfg, fun k => ?_, ?_, ?_, ?_, hs.mapped⟩
  · rw [holders, waiters, countP_concat, countP_concat]
    exact hs.gates k
  · rw [globalHolders, globalWaiters, countP_concat, countP_concat]
    exact hs.pool
  · refine List.forall_mem_append.mpr ⟨hs.books, List.forall_mem_singleton.mpr ?_⟩
    exact ⟨rfl, Nat.zero_le 1, fun _ => rfl, rfl, Nat.zero_le 1, fun _ => rfl⟩
  · exact List.forall_mem_append.mpr ⟨hs.allocated, List.forall_mem_singleton.mpr nofun⟩

theorem lookup_reap {s : FairShare} {now : Int} {tenant : String} {g : Nat} :
    (s.reap now).gates.lookup tenant = some g ↔
      s.gates.lookup tenant = some g ∧ s.stale now g = false := by
  rw [reap, Table.lookup_filter_eq_some]
  simp

theorem Inv.run {cfg : FairShareConfig} {s : FairShare} (hs : Inv cfg s) (step : Step) :
    Inv cfg (step.run s) := by
  have hwith : ∀ i (f : Request → FairShare), (∀ r, s.requests[i]? = some r → Inv cfg (f r)) →
      Inv cfg (s.withRequest i f) := by
    intro i f hf
    unfold FairShare.withRequest
    split
    · rename_i r hi
      exact hf r hi
    · exact hs
  cases step with
  | acquire tenant => exact hs.acquire _
  | advance i => exact hwith i _ fun r hi => hs.advance hi
  | cancel i =>
    refine hwith i _ fun r hi => hs.setPhase hi (samePlace_cancel r.phase) ?_
    rw [gate_cancel]
    exact hs.allocated r (List.mem_of_getElem? hi)
  | release i => exact hwith i _ fun r hi => hs.release hi
  | reap now =>
    exact ⟨hs.cfg, hs.gates, hs.pool, hs.books, hs.allocated,
      fun tenant g hg => hs.mapped tenant g (lookup_reap.mp hg).1⟩
  | tick now => exact ⟨hs.cfg, hs.gates, hs.pool, hs.books, hs.allocated, hs.mapped⟩

theorem inv_new (cfg : FairShareConfig) (now : Int) : Inv cfg (newSynthesisFairShare cfg now) where
  cfg := rfl
  gates _ := balanced_new (one_le_tenantConcurrency cfg)
  pool := balanced_new (one_le_globalConcurrency cfg)
  books := nofun
  allocated := nofun
  mapped := nofun

theorem inv_of_reachable {cfg : FairShareConfig} {s : FairShare}
    (h : (fairShare cfg).Reachable s) : Inv cfg s := by
  refine h.invariant (Inv cfg) ?_ ?_
  · rintro s ⟨now, rfl⟩
    exact inv_new cfg now
  · rintro s step t - hs ⟨-, rfl⟩
    exact hs.run step

/-- Every request that has a gate has the one its tenant's name leads to. -/
def Current (s : FairShare) : Prop :=
  ∀ r ∈ s.requests, ∀ g ∈ r.phase.gate, s.gates.lookup r.tenant = some g

/-- The reaper takes no gate away that a request has just looked up. -/
def Undisturbed (s : FairShare) : Step → Prop
  | .reap now => ∀ r ∈ s.requests, r.phase.arriving = true → ∀ g ∈ r.phase.gate,
    s.stale now g = false
  | _ => True

instance (s : FairShare) (step : Step) : Decidable (s.Undisturbed step) :=
  match step with
  | .reap now => inferInstanceAs (Decidable (∀ r ∈ s.requests, r.phase.arriving = true →
      ∀ g ∈ r.phase.gate, s.stale now g = false))
  | .acquire _ | .advance _ | .cancel _ | .release _ | .tick _ => .isTrue trivial

theorem Current.settle {s : FairShare} (hs : s.Current) {i : Nat} {r : Request}
    (hi : s.requests[i]? = some r) {g : Nat} (hg : r.phase.gate = some g)
    {step : Phase × Semaphore × Semaphore} (hstep : ∀ k ∈ step.1.gate, k = g) :
    (s.settle i r g step).Current := by
  refine forall_mem_set hs fun k hk => ?_
  rw [hstep k hk]
  exact hs r (List.mem_of_getElem? hi) g hg

theorem Current.lookupGate {s : FairShare} (hs : s.Current) (tenant : String) (now : Int) :
    (s.lookupGate tenant now).1.Current ∧
      (s.lookupGate tenant now).1.gates.lookup tenant = some (s.lookupGate tenant now).2 := by
  unfold FairShare.lookupGate
  split
  · rename_i g hg
    exact ⟨hs, hg⟩
  · rename_i hnone
    refine ⟨fun r hr g hg => ?_, AList.lookup_insert _⟩
    have hold := hs r hr g hg
    dsimp only
    rw [Table.lookup_insert_ite, if_neg, hold]
    rintro rfl
    rw [hnone] at hold
    cases hold

theorem Current.advance {s : FairShare} (hs : s.Current) {i : Nat} {r : Request}
    (hi : s.requests[i]? = some r) : (s.advance i r).Current := by
  have hr := hs r (List.mem_of_getElem? hi)
  unfold FairShare.advance
  split
  case h_1 => exact forall_mem_set hs nofun
  case h_2 now _ =>
    obtain ⟨hs', hg⟩ := hs.lookupGate r.tenant now
    refine forall_mem_set (hs' · ·) fun k hk => ?_
    cases Option.mem_some.mp hk
    exact hg
  case h_3 g now hp =>
    refine forall_mem_set hs fun k hk => hr k ?_
    rw [hp]
    exact hk
  case h_4 g stage hp =>
    exact hs.settle hi (by rw [hp]; rfl) (by rw [hp]; exact (localStep_tenant ..).pointer)
  case h_5 g stage hp =>
    exact hs.settle hi (by rw [hp]; rfl) (by rw [hp]; exact (localStep_pool ..).pointer)
  case h_6 g hp => exact hs.settle hi (by rw [hp]; rfl) (by rw [hp]; nofun)
  case h_7 g hp => exact hs.settle hi (by rw [hp]; rfl) (by rw [hp]; nofun)
  case h_8 => exact hs
  case h_9 => exact hs

theorem Inv.stale_eq_false {cfg : FairShareConfig} {s : FairShare} (hs : Inv cfg s) {now : Int}
    (hu : Undisturbed s (.reap now)) {r : Request} (hr : r ∈ s.requests) {g : Nat}
    (hg : r.phase.gate = some g) : s.stale now g = false := by
  obtain ⟨i, hi⟩ := List.mem_iff_getElem?.mp hr
  obtain hholds | hwaits | harriving := Phase.holds_or_waits_or_arriving hg
  · have hlt := hs.tokens_lt hi hholds
    simp only [stale, Semaphore.idle, Bool.and_eq_false_iff, decide_eq_false_iff_not]
    exact .inr (.inl (by omega))
  · have hpos : 0 < s.waiters g := countP_pos_of_getElem? hi hwaits
    have hcount := (hs.gates g).waiting
    simp only [stale, Semaphore.idle, Bool.and_eq_false_iff, decide_eq_false_iff_not]
    exact .inr (.inr (by omega))
  · exact hu r hr harriving g hg

theorem Current.run {cfg : FairShareConfig} {s : FairShare} (hs : s.Current) (hinv : Inv cfg s)
    {step : Step} (hu : Undisturbed s step) : (step.run s).Current := by
  have hwith : ∀ i (f : Request → FairShare), (∀ r, s.requests[i]? = some r → (f r).Current) →
      (s.withRequest i f).Current := by
    intro i f hf
    unfold FairShare.withRequest
    split
    · rename_i r hi
      exact hf r hi
    · exact hs
  cases step with
  | acquire tenant =>
    exact List.forall_mem_append.mpr ⟨hs, List.forall_mem_singleton.mpr nofun⟩
  | advance i => exact hwith i _ fun r hi => hs.advance hi
  | cancel i =>
    refine hwith i _ fun r hi => forall_mem_set hs ?_
    rw [gate_cancel]
    exact hs r (List.mem_of_getElem? hi)
  | release i =>
    refine hwith i _ fun r hi => ?_
    unfold FairShare.release
    split
    · rename_i g hp
      exact hs.settle hi (by rw [hp]; rfl) fun k hk => (Option.mem_some.mp hk).symm
    · exact hs
  | reap now =>
    exact fun r hr g hg => lookup_reap.mpr ⟨hs r hr g hg, hinv.stale_eq_false hu hr hg⟩
  | tick now => exact hs

def admitted (r : Request) : Bool :=
  match r.phase with
  | .holding _ => true
  | _ => false

def inFlight (s : FairShare) (tenant : String) : Nat :=
  s.requests.countP fun r => r.tenant = tenant && admitted r

def totalInFlight (s : FairShare) : Nat := s.requests.countP admitted

theorem admitted_eq_true {r : Request} (h : admitted r = true) : ∃ g, r.phase = .holding g := by
  unfold admitted at h
  split at h
  · rename_i g hp
    exact ⟨g, hp⟩
  · cases h

theorem Current.inFlight_le {cfg : FairShareConfig} {s : FairShare} (hs : s.Current)
    (hinv : Inv cfg s) (tenant : String) :
    (s.inFlight tenant : Int) ≤ cfg.withDefaults.tenantConcurrency := by
  have hone := one_le_tenantConcurrency cfg
  cases hg : s.gates.lookup tenant with
  | none =>
    have hzero : s.inFlight tenant = 0 := List.countP_eq_zero.mpr fun r hr h => by
      rw [Bool.and_eq_true, decide_eq_true_eq] at h
      obtain ⟨g, hp⟩ := admitted_eq_true h.2
      have := hs r hr g (by rw [hp]; rfl)
      rw [h.1, hg] at this
      cases this
    omega
  | some g =>
    have hle : s.inFlight tenant ≤ s.holders g := List.countP_mono_left fun r hr h => by
      rw [Bool.and_eq_true, decide_eq_true_eq] at h
      obtain ⟨k, hp⟩ := admitted_eq_true h.2
      have hk := hs r hr k (by rw [hp]; rfl)
      rw [h.1, hg, Option.some.injEq] at hk
      simp [hp, hk, Phase.holdsTenant]
    have hsum := (hinv.gates g).tokens
    have hcapacity := (hinv.gates g).capacity
    rw [hinv.cfg] at hcapacity
    omega

theorem Inv.totalInFlight_le {cfg : FairShareConfig} {s : FairShare} (hinv : Inv cfg s) :
    (s.totalInFlight : Int) ≤ cfg.withDefaults.globalConcurrency := by
  have hle : s.totalInFlight ≤ s.globalHolders := List.countP_mono_left fun r _ h => by
    obtain ⟨g, hp⟩ := admitted_eq_true h
    rw [hp]
    rfl
  have hsum := hinv.pool.tokens
  have hcapacity := hinv.pool.capacity
  rw [hinv.cfg] at hcapacity
  omega

/-- Every token a request took it gives back once: never twice, and none is left with a request
that is done. -/
def Settled (l : Ledger) (done : Prop) : Prop :=
  l.taken ≤ 1 ∧ l.given ≤ l.taken ∧ (done → l.given = l.taken)

theorem Inv.settled {cfg : FairShareConfig} {s : FairShare} (hinv : Inv cfg s) {r : Request}
    (hr : r ∈ s.requests) :
    Settled r.tenantLedger (∃ outcome, r.phase = .finished outcome) ∧
      Settled r.globalLedger (∃ outcome, r.phase = .finished outcome) := by
  have hbooks := hinv.books r hr
  have hbalance := hbooks.balance
  have hglobal := hbooks.globalBalance
  refine ⟨⟨hbooks.once, by omega, ?_⟩, ⟨hbooks.globalOnce, by omega, ?_⟩⟩
  · rintro ⟨outcome, hp⟩
    rw [hp] at hbalance
    exact hbalance.symm
  · rintro ⟨outcome, hp⟩
    rw [hp] at hglobal
    exact hglobal.symm

theorem Inv.full {cfg : FairShareConfig} {s : FairShare} (hinv : Inv cfg s)
    (h : ∀ r ∈ s.requests, ∃ outcome, r.phase = .finished outcome) :
    s.global.tokens = s.global.capacity ∧
      ∀ g, (s.heap g).sem.tokens = (s.heap g).sem.capacity := by
  have hpool : s.globalHolders = 0 := List.countP_eq_zero.mpr fun r hr hh => by
    obtain ⟨outcome, hp⟩ := h r hr
    rw [hp] at hh
    cases hh
  have hgates : ∀ g, s.holders g = 0 := fun g => List.countP_eq_zero.mpr fun r hr hh => by
    obtain ⟨outcome, hp⟩ := h r hr
    rw [hp] at hh
    cases hh
  refine ⟨?_, fun g => ?_⟩
  · have := hinv.pool.tokens
    omega
  · have := (hinv.gates g).tokens
    have := hgates g
    omega

end FairShare

/-- Under every schedule in which the reaper takes no gate from a request that has just looked
it up, both caps hold, every token goes back once, and nothing is missing at the end. -/
theorem fair_share_caps (cfg : FairShareConfig) {s : FairShare}
    (h : ((fairShare cfg).restrict FairShare.Undisturbed).Reachable s) :
    (∀ tenant, (s.inFlight tenant : Int) ≤ cfg.withDefaults.tenantConcurrency) ∧
    (s.totalInFlight : Int) ≤ cfg.withDefaults.globalConcurrency ∧ (∀ r ∈ s.requests,
      FairShare.Settled r.tenantLedger (∃ outcome, r.phase = .finished outcome) ∧
      FairShare.Settled r.globalLedger (∃ outcome, r.phase = .finished outcome)) ∧
    ((∀ r ∈ s.requests, ∃ outcome, r.phase = .finished outcome) →
      s.global.tokens = s.global.capacity ∧
        ∀ g, (s.heap g).sem.tokens = (s.heap g).sem.capacity) := by
  have hinv := FairShare.inv_of_reachable h.of_restrict
  have hcurrent : s.Current := by
    refine h.invariant FairShare.Current ?_ ?_
    · rintro s ⟨now, rfl⟩
      exact fun r hr => nomatch hr
    · rintro s step t hr hs ⟨⟨-, rfl⟩, hu⟩
      exact hs.run (FairShare.inv_of_reachable hr.of_restrict) hu
  exact ⟨hcurrent.inFlight_le hinv, hinv.totalInFlight_le, fun r hr => hinv.settled hr,
    hinv.full⟩

section Examples

def onePerTenant : FairShareConfig := ⟨1, 4, 2⟩

def admitted (i : Nat) : List Step := .acquire "acme" :: List.replicate 5 (.advance i)

def start : FairShare := newSynthesisFairShare onePerTenant 0

/-- The idle gate of the first request is reaped before the second one comes. -/
def readmitted : List Step :=
  admitted 0 ++ [.release 0, .advance 0, .tick 601000000000, .reap 601000000000] ++ admitted 1

theorem fair_share_caps_readmitted :
    (readmitted.foldl Step.run start).inFlight "acme" = 1 ∧
      ((readmitted.foldl Step.run start).inFlight "acme" : Int) ≤
        onePerTenant.withDefaults.tenantConcurrency := by
  have hlegal : Legal (fun s step => step.enabled s ∧ s.Undisturbed step) Step.run start
      readmitted := by decide +kernel
  exact ⟨by decide +kernel,
    (fair_share_caps onePerTenant (hlegal.reachable_restrict (.init ⟨0, rfl⟩))).1 "acme"⟩

/-- An idle gate is reaped between a request's lookup and its use; the next request gets a new
gate, and both are admitted. -/
def overtaken : List Step :=
  admitted 0 ++ [.release 0, .advance 0, .tick 601000000000, .acquire "acme", .advance 1, .advance 1,
    .reap 601000000000] ++ admitted 2 ++ List.replicate 3 (.advance 1)

theorem reap_breaks_tenant_cap :
    ∃ s, (fairShare onePerTenant).Reachable s ∧
      ¬(s.inFlight "acme" : Int) ≤ onePerTenant.withDefaults.tenantConcurrency := by
  have hlegal : Legal Step.enabled Step.run start overtaken := by decide +kernel
  exact ⟨overtaken.foldl Step.run start, hlegal.reachable (.init ⟨0, rfl⟩), by decide +kernel⟩

end Examples

end Knowledge.Gateway
