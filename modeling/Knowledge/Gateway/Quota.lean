import Knowledge.Lib.Transition
import Knowledge.Lib.Window
import Knowledge.Tenancy.Store

/-!
`server/internal/middleware/quota.go`: fixed-window quotas per tenant, and the sweeper that drops
the counters of idle tenants. Times and durations are nanoseconds.
-/

set_option autoImplicit false

namespace Knowledge.Gateway
open Knowledge.Tenancy
open Knowledge.Transition
open Knowledge.Window

def second : Int := 1000000000

def quotaGateIdleTtl : Int := 30*60*second

structure QuotaConfig where
  requestWindow : Int
  synthesisWindow : Int

def QuotaConfig.withDefaults (c : QuotaConfig) : QuotaConfig where
  requestWindow := if c.requestWindow ≤ 0 then 60*second else c.requestWindow
  synthesisWindow := if c.synthesisWindow ≤ 0 then 24*60*60*second else c.synthesisWindow

/-- A start that was never set is `none`. -/
structure QuotaCounter where
  minStart : Option Int
  minCount : Nat
  dayStart : Option Int
  dayCount : Nat
  lastSeen : Int

inductive Dimension where
  | requestsPerMin
  | synthesesPerDay
  deriving DecidableEq

open Dimension

inductive QuotaDecision where
  | ok
  | exceeded (dimension : Dimension) (retryAfter : Int)
  deriving DecidableEq

structure QuotaEnforcer where
  cfg : QuotaConfig
  counters : Table String QuotaCounter

/-- Whole seconds until `t`, at least one. -/
def retryAfterUntil (now t : Int) : Int :=
  let secs := (t-now+second-1).tdiv second
  if secs < 1 then 1 else secs

def QuotaCounter.new (lastSeen : Int) : QuotaCounter := ⟨none, 0, none, 0, lastSeen⟩

def windowOver (start : Option Int) (window now : Int) : Bool :=
  match start with
  | none => true
  | some start => window ≤ now-start

def QuotaCounter.roll (c : QuotaCounter) (cfg : QuotaConfig) (isSynthesis : Bool) (now : Int) :
    QuotaCounter :=
  let c := if windowOver c.minStart cfg.requestWindow now then
    { c with minStart := some now, minCount := 0 } else c
  if isSynthesis && windowOver c.dayStart cfg.synthesisWindow now then
    { c with dayStart := some now, dayCount := 0 } else c

namespace QuotaEnforcer

/-- The counter of the tenant, which is made if there is none; `seen` is the clock read here. -/
def counter (e : QuotaEnforcer) (tid : String) (seen : Int) : QuotaCounter :=
  match e.counters.lookup tid with
  | some c => { c with lastSeen := seen }
  | none => .new seen

def put (e : QuotaEnforcer) (tid : String) (c : QuotaCounter) : QuotaEnforcer :=
  { e with counters := e.counters.insert tid c }

def admitRequest (e : QuotaEnforcer) (tid : String) (q : Quota) (isSynthesis : Bool)
    (now seen : Int) : QuotaEnforcer × QuotaDecision :=
  let c := (e.counter tid seen).roll e.cfg isSynthesis now
  if q.requestsPerMin ≤ c.minCount then
    (e.put tid c, .exceeded .requestsPerMin
      (retryAfterUntil now (c.minStart.getD 0+e.cfg.requestWindow)))
  else if isSynthesis ∧ q.synthesesPerDay ≤ c.dayCount then
    (e.put tid c, .exceeded .synthesesPerDay
      (retryAfterUntil now (c.dayStart.getD 0+e.cfg.synthesisWindow)))
  else
    (e.put tid { c with
      minCount := c.minCount+1
      dayCount := if isSynthesis then c.dayCount+1 else c.dayCount }, .ok)

def sweep (e : QuotaEnforcer) (now : Int) : QuotaEnforcer :=
  { e with counters := e.counters.filter fun _ c => !(c.lastSeen < now-quotaGateIdleTtl) }

end QuotaEnforcer

structure Admitted where
  tenant : String
  time : Int
  isSynthesis : Bool

/-- The enforcer as time goes on, with the requests it has admitted, newest first. -/
structure Metering where
  enforcer : QuotaEnforcer
  clock : Int
  admitted : List Admitted

open Metering

/-- A request reads the clock twice, once before it has its counter and once in `counter`. -/
inductive MeterEvent where
  | request (tid : String) (isSynthesis : Bool) (now seen : Int)
  | tick (now : Int)

namespace Metering

def next (quota : String → Quota) (m : Metering) : MeterEvent → Metering
  | .request tid isSynthesis now seen =>
    let (enforcer, decision) := m.enforcer.admitRequest tid (quota tid).normalized isSynthesis now
      seen
    { enforcer
      clock := seen
      admitted := if decision = .ok then ⟨tid, now, isSynthesis⟩ :: m.admitted else m.admitted }
  | .tick now => { m with enforcer := m.enforcer.sweep now, clock := now }

def enabled (m : Metering) : MeterEvent → Prop
  | .request _ _ now seen => m.clock ≤ now ∧ now ≤ seen
  | .tick now => m.clock ≤ now

instance (m : Metering) (event : MeterEvent) : Decidable (m.enabled event) := by
  unfold enabled
  cases event <;> infer_instance

def system (cfg : QuotaConfig) (quota : String → Quota) : System Metering MeterEvent :=
  .ofNext (fun m => m.enforcer = ⟨cfg.withDefaults, ∅⟩ ∧ m.admitted = []) enabled (next quota)

end Metering

namespace Dimension

def start : Dimension → QuotaCounter → Option Int
  | .requestsPerMin, c => c.minStart
  | .synthesesPerDay, c => c.dayStart

def count : Dimension → QuotaCounter → Nat
  | .requestsPerMin, c => c.minCount
  | .synthesesPerDay, c => c.dayCount

def window : Dimension → QuotaConfig → Int
  | .requestsPerMin, cfg => cfg.requestWindow
  | .synthesesPerDay, cfg => cfg.synthesisWindow

def limit : Dimension → Quota → Int
  | .requestsPerMin, q => q.requestsPerMin
  | .synthesesPerDay, q => q.synthesesPerDay

def counts : Dimension → Bool → Bool
  | .requestsPerMin, _ => true
  | .synthesesPerDay, isSynthesis => isSynthesis

def openWindow (dim : Dimension) (e : QuotaEnforcer) (tid : String) : Option Int :=
  (e.counters.lookup tid).bind dim.start

def used (dim : Dimension) (e : QuotaEnforcer) (tid : String) : Nat :=
  ((e.counters.lookup tid).map dim.count).getD 0

end Dimension

def Metering.log (m : Metering) (dim : Dimension) (tid : String) : List Int :=
  (m.admitted.filter fun a => a.tenant == tid && dim.counts a.isSynthesis).map Admitted.time

/-- The sweeper drops no counter in the middle of its window: those it has not seen for too long
have a window of the dimension that is over, or none. -/
def Spent (dim : Dimension) (m : Metering) : MeterEvent → Prop
  | .request _ _ _ _ => True
  | .tick now => ∀ tid c, m.enforcer.counters.lookup tid = some c →
    c.lastSeen < now-quotaGateIdleTtl →
    windowOver (dim.start c) (dim.window m.enforcer.cfg) now = true

instance (dim : Dimension) (m : Metering) (event : MeterEvent) : Decidable (Spent dim m event) :=
  match event with
  | .request _ _ _ _ => isTrue trivial
  | .tick now =>
    decidable_of_iff (∀ e ∈ m.enforcer.counters.rows, e.2.lastSeen < now-quotaGateIdleTtl →
        windowOver (dim.start e.2) (dim.window m.enforcer.cfg) now = true)
      ⟨fun h tid c hc => h (tid, c) (Table.mem_rows_iff.mpr hc),
        fun h e he => h e.1 e.2 (Table.mem_rows_iff.mp he)⟩

theorem windowOver_some {start window now : Int} :
    windowOver (some start) window now = true ↔ window ≤ now-start := by
  simp [windowOver]

theorem Dimension.limit_normalized_pos (dim : Dimension) (q : Quota) :
    0 < dim.limit q.normalized := by
  cases dim
  · by_cases h : q.requestsPerMin ≤ 0
    · simp [limit, Quota.normalized, Quota.default, h]
    · simp [limit, Quota.normalized, h]
      omega
  · by_cases h : q.synthesesPerDay ≤ 0
    · simp [limit, Quota.normalized, Quota.default, h]
    · simp [limit, Quota.normalized, h]
      omega

theorem QuotaConfig.window_withDefaults_pos (cfg : QuotaConfig) (dim : Dimension) :
    0 < dim.window cfg.withDefaults := by
  cases dim
  · by_cases h : cfg.requestWindow ≤ 0
    · simp [window, withDefaults, h, second]
    · simp [window, withDefaults, h]
      omega
  · by_cases h : cfg.synthesisWindow ≤ 0
    · simp [window, withDefaults, h, second]
    · simp [window, withDefaults, h]
      omega

namespace QuotaCounter

variable (c : QuotaCounter) (cfg : QuotaConfig) (dim : Dimension) (isSynthesis : Bool) (now : Int)

theorem roll_of_over (hcounts : dim.counts isSynthesis = true)
    (hover : windowOver (dim.start c) (dim.window cfg) now = true) :
    dim.start (c.roll cfg isSynthesis now) = some now ∧
      dim.count (c.roll cfg isSynthesis now) = 0 := by
  cases dim with
  | requestsPerMin =>
    simp only [Dimension.start, window] at hover
    simp only [roll, hover, if_true, Dimension.start, count]
    split <;> simp
  | synthesesPerDay =>
    simp only [Dimension.start, window, counts] at hover hcounts
    by_cases hmin : windowOver c.minStart cfg.requestWindow now = true <;>
      simp [roll, hover, hcounts, hmin, Dimension.start, count]

theorem roll_of_not (h : ¬(dim.counts isSynthesis = true ∧
      windowOver (dim.start c) (dim.window cfg) now = true)) :
    dim.start (c.roll cfg isSynthesis now) = dim.start c ∧
      dim.count (c.roll cfg isSynthesis now) = dim.count c := by
  cases dim with
  | requestsPerMin =>
    simp only [Dimension.start, window, counts, true_and] at h
    simp only [roll, h, Bool.false_eq_true, if_false, Dimension.start, count]
    split <;> simp
  | synthesesPerDay =>
    simp only [Dimension.start, window, counts] at h
    by_cases hmin : windowOver c.minStart cfg.requestWindow now = true <;>
      simp [roll, hmin, h, Dimension.start, count]

@[simp] theorem roll_lastSeen : (c.roll cfg isSynthesis now).lastSeen = c.lastSeen := by
  simp only [roll]
  split <;> split <;> rfl

end QuotaCounter

namespace QuotaEnforcer

variable (e : QuotaEnforcer) (tid : String) (dim : Dimension)

theorem start_counter (seen : Int) : dim.start (e.counter tid seen) = dim.openWindow e tid := by
  cases h : e.counters.lookup tid <;> cases dim <;>
    simp [counter, h, openWindow, Dimension.start, QuotaCounter.new]

theorem count_counter (seen : Int) : dim.count (e.counter tid seen) = dim.used e tid := by
  cases h : e.counters.lookup tid <;> cases dim <;>
    simp [counter, h, used, count, QuotaCounter.new]

theorem counter_lastSeen (seen : Int) : (e.counter tid seen).lastSeen = seen := by
  cases h : e.counters.lookup tid <;> simp [counter, h, QuotaCounter.new]

/-- What a request writes: its counter with the windows rolled, and one more use of each
dimension it counts towards if it is admitted, which it is only below the limit. -/
theorem admitRequest_cases (q : Quota) (isSynthesis : Bool) (now seen : Int) :
    ∃ c, (e.admitRequest tid q isSynthesis now seen).1 = e.put tid c ∧ c.lastSeen = seen ∧
      ∀ dim : Dimension,
        dim.start c = dim.start ((e.counter tid seen).roll e.cfg isSynthesis now) ∧
        ((e.admitRequest tid q isSynthesis now seen).2 = .ok ∧ dim.counts isSynthesis = true →
          (dim.count ((e.counter tid seen).roll e.cfg isSynthesis now) : Int) < dim.limit q ∧
          dim.count c = dim.count ((e.counter tid seen).roll e.cfg isSynthesis now)+1) ∧
        (¬((e.admitRequest tid q isSynthesis now seen).2 = .ok ∧ dim.counts isSynthesis = true) →
          dim.count c = dim.count ((e.counter tid seen).roll e.cfg isSynthesis now)) := by
  have hseen : ((e.counter tid seen).roll e.cfg isSynthesis now).lastSeen = seen := by
    rw [QuotaCounter.roll_lastSeen, counter_lastSeen]
  simp only [admitRequest]
  generalize (e.counter tid seen).roll e.cfg isSynthesis now = c at hseen ⊢
  by_cases hmin : q.requestsPerMin ≤ c.minCount
  · exact ⟨c, by simp [hmin], hseen, fun dim => by simp [hmin]⟩
  by_cases hday : isSynthesis = true ∧ q.synthesesPerDay ≤ c.dayCount
  · exact ⟨c, by simp only [hmin, hday]; simp, hseen, fun dim => by simp only [hmin, hday]; simp⟩
  refine ⟨{ c with
    minCount := c.minCount+1
    dayCount := if isSynthesis then c.dayCount+1 else c.dayCount }, ?_, hseen, fun dim => ?_⟩
  · simp only [hmin, hday, if_false]
  · cases dim with
    | requestsPerMin =>
      simp only [hmin, hday, if_false, Dimension.start, count, counts, limit]
      simp
      omega
    | synthesesPerDay =>
      simp only [hmin, hday, if_false, Dimension.start, count, counts, limit, true_and]
      cases isSynthesis with
      | false => simp
      | true =>
        simp only [true_and] at hday
        simp
        omega

theorem openWindow_put (c : QuotaCounter) (tid' : String) :
    dim.openWindow (e.put tid c) tid' =
      if tid' = tid then dim.start c else dim.openWindow e tid' := by
  simp only [openWindow, put, Table.lookup_insert_ite]
  split <;> simp

theorem used_put (c : QuotaCounter) (tid' : String) :
    dim.used (e.put tid c) tid' = if tid' = tid then dim.count c else dim.used e tid' := by
  simp only [used, put, Table.lookup_insert_ite]
  split <;> simp

theorem openWindow_sweep (now : Int) (h : ∀ c, e.counters.lookup tid = some c →
      c.lastSeen < now-quotaGateIdleTtl → windowOver (dim.start c) (dim.window e.cfg) now = true) :
    (dim.openWindow (e.sweep now) tid = dim.openWindow e tid ∧
      dim.used (e.sweep now) tid = dim.used e tid) ∨
    (windowOver (dim.openWindow e tid) (dim.window e.cfg) now = true ∧
      dim.openWindow (e.sweep now) tid = none ∧ dim.used (e.sweep now) tid = 0) := by
  simp only [openWindow, used, sweep, Table.lookup_filter]
  cases hl : e.counters.lookup tid with
  | none => simp
  | some c =>
    by_cases hidle : c.lastSeen < now-quotaGateIdleTtl
    · have := h c hl hidle
      simp [Option.filter, hidle, this]
    · simp [Option.filter, hidle]

end QuotaEnforcer

theorem spaced_of_over {length now clock : Int} {n count : Nat} {log : List Int}
    {start : Option Int} (h : Spaced length n log start count clock) (hnow : clock ≤ now)
    (hover : windowOver start length now = true) : Spaced length n log none 0 now := by
  cases start with
  | none => exact h.forget.later hnow
  | some s => exact h.close hnow (windowOver_some.mp hover)

theorem spaced_roll {cfg : QuotaConfig} {dim : Dimension} {n : Nat} {log : List Int}
    {clock now : Int} {c : QuotaCounter} (isSynthesis : Bool)
    (h : Spaced (dim.window cfg) n log (dim.start c) (dim.count c) clock) (hnow : clock ≤ now)
    (hlength : 0 < dim.window cfg) :
    Spaced (dim.window cfg) n log (dim.start (c.roll cfg isSynthesis now))
      (dim.count (c.roll cfg isSynthesis now)) now ∧
    (dim.counts isSynthesis = true →
      ∃ s, dim.start (c.roll cfg isSynthesis now) = some s ∧ now < s+dim.window cfg) := by
  by_cases hover : dim.counts isSynthesis = true ∧
      windowOver (dim.start c) (dim.window cfg) now = true
  · obtain ⟨hstart, hcount⟩ := c.roll_of_over cfg dim isSynthesis now hover.1 hover.2
    rw [hstart, hcount]
    exact ⟨(spaced_of_over h hnow hover.2).begin (Int.le_refl _) hlength,
      fun _ => ⟨now, rfl, by omega⟩⟩
  · obtain ⟨hstart, hcount⟩ := c.roll_of_not cfg dim isSynthesis now hover
    rw [hstart, hcount]
    refine ⟨h.later hnow, fun hcounts => ?_⟩
    cases hs : dim.start c with
    | none => simp [hs, hcounts, windowOver] at hover
    | some s =>
      simp only [hs, windowOver_some, hcounts, true_and] at hover
      exact ⟨s, rfl, by omega⟩

namespace Metering

variable (quota : String → Quota) (m : Metering) (tid : String) (isSynthesis : Bool)
  (now seen : Int)

theorem next_request_enforcer : (m.next quota (.request tid isSynthesis now seen)).enforcer =
    (m.enforcer.admitRequest tid (quota tid).normalized isSynthesis now seen).1 := rfl

theorem log_next_request (dim : Dimension) (tid' : String) :
    (m.next quota (.request tid isSynthesis now seen)).log dim tid' =
      if tid' = tid ∧ (m.enforcer.admitRequest tid (quota tid).normalized isSynthesis now seen).2 =
        .ok ∧ dim.counts isSynthesis = true then now :: m.log dim tid' else m.log dim tid' := by
  simp only [next, log]
  by_cases hok : (m.enforcer.admitRequest tid (quota tid).normalized isSynthesis now seen).2 = .ok
  · by_cases htid : tid' = tid
    · by_cases hcounts : dim.counts isSynthesis = true <;> simp [hok, htid, hcounts]
    · simp [hok, htid, Ne.symm htid]
  · simp [hok]

end Metering

/-- Every tenant's requests in the dimension are spaced by the counter it has, and no window is
newer than the last request of its counter. -/
structure Metered (cfg : QuotaConfig) (quota : String → Quota) (dim : Dimension) (m : Metering) :
    Prop where
  config : m.enforcer.cfg = cfg.withDefaults
  spaced : ∀ tid, Spaced (dim.window cfg.withDefaults) (dim.limit (quota tid).normalized).toNat
    (m.log dim tid) (dim.openWindow m.enforcer tid) (dim.used m.enforcer tid) m.clock
  seen : ∀ tid c start, m.enforcer.counters.lookup tid = some c → dim.start c = some start →
    start ≤ c.lastSeen

namespace Metered

variable {cfg : QuotaConfig} {quota : String → Quota} {dim : Dimension} {m : Metering}

theorem init (hm : m.enforcer = ⟨cfg.withDefaults, ∅⟩) (ha : m.admitted = []) :
    Metered cfg quota dim m := by
  refine ⟨by rw [hm], fun tid => ?_, fun tid c start hc => ?_⟩
  · have hlookup : m.enforcer.counters.lookup tid = none := by
      rw [hm]
      exact AList.lookup_empty tid
    simp only [log, ha, openWindow, used, hlookup]
    exact Spaced.nil
  · rw [hm] at hc
    exact absurd hc (by simp)

theorem tick (h : Metered cfg quota dim m) {now : Int} (hnow : m.clock ≤ now)
    (hspent : Spent dim m (.tick now)) : Metered cfg quota dim (m.next quota (.tick now)) := by
  refine ⟨h.config, fun tid => ?_, fun tid c start hc hstart => ?_⟩
  · have hs := h.spaced tid
    obtain ⟨hopen, hused⟩ | ⟨hover, hopen, hused⟩ :=
      m.enforcer.openWindow_sweep tid dim now (hspent tid)
    · simp only [next, hopen, hused]
      exact hs.later hnow
    · simp only [next, hopen, hused]
      rw [h.config] at hover
      exact spaced_of_over hs hnow hover
  · exact h.seen tid c start (Table.lookup_filter_eq_some.mp hc).1 hstart

theorem request (h : Metered cfg quota dim m) {tid : String} {isSynthesis : Bool} {now seen : Int}
    (hnow : m.clock ≤ now) (hseen : now ≤ seen) :
    Metered cfg quota dim (m.next quota (.request tid isSynthesis now seen)) := by
  obtain ⟨c, hput, hlast, hc⟩ :=
    m.enforcer.admitRequest_cases tid (quota tid).normalized isSynthesis now seen
  obtain ⟨hstart, hused, hkept⟩ := hc dim
  have hspaced : Spaced (dim.window cfg.withDefaults) (dim.limit (quota tid).normalized).toNat
      ((m.next quota (.request tid isSynthesis now seen)).log dim tid) (dim.start c) (dim.count c)
      seen := by
    have hs := h.spaced tid
    rw [← m.enforcer.start_counter tid dim seen, ← m.enforcer.count_counter tid dim seen] at hs
    obtain ⟨hrolled, hopen⟩ := spaced_roll isSynthesis hs hnow (cfg.window_withDefaults_pos dim)
    rw [← h.config, ← hstart] at hrolled hopen
    rw [log_next_request]
    split
    · rename_i hok
      obtain ⟨hlt, hcount⟩ := hused hok.2
      obtain ⟨s, hs, hwindow⟩ := hopen hok.2.2
      rw [hcount, ← h.config]
      rw [hs] at hrolled ⊢
      exact (hrolled.admits (by omega) hwindow).later hseen
    · rename_i hok
      rw [hkept fun h => hok ⟨rfl, h⟩, ← h.config]
      exact hrolled.later hseen
  refine ⟨?_, fun tid' => ?_, fun tid' c' start hc' hstart' => ?_⟩
  · rw [next_request_enforcer, hput]
    exact h.config
  · rw [next_request_enforcer, hput, QuotaEnforcer.openWindow_put, QuotaEnforcer.used_put]
    by_cases htid : tid' = tid
    · subst htid
      rw [if_pos rfl, if_pos rfl]
      exact hspaced
    · rw [log_next_request]
      simp only [htid, false_and, if_false]
      exact (h.spaced tid').later (Int.le_trans hnow hseen)
  · rw [next_request_enforcer, hput, QuotaEnforcer.put, Table.lookup_insert_ite] at hc'
    split at hc'
    · obtain rfl := Option.some.inj hc'
      rw [hlast]
      exact (hspaced.opened start hstart').1
    · exact h.seen tid' c' start hc' hstart'

theorem run (h : ((system cfg quota).restrict (Spent dim)).Reachable m) :
    Metered cfg quota dim m := by
  refine System.Reachable.invariant (Metered cfg quota dim) ?_ ?_ h
  · exact fun m hm => init hm.1 hm.2
  intro m event m' _ hm hstep
  obtain ⟨⟨henabled, rfl⟩, hspent⟩ := hstep
  cases event with
  | request tid isSynthesis now seen => exact hm.request henabled.1 henabled.2
  | tick now => exact hm.tick henabled hspent

theorem spent (h : Metered cfg quota dim m)
    (hwindow : dim.window cfg.withDefaults ≤ quotaGateIdleTtl) (event : MeterEvent) :
    Spent dim m event := by
  cases event with
  | request tid isSynthesis now seen => trivial
  | tick now =>
    intro tid c hc hidle
    cases hs : dim.start c with
    | none => rfl
    | some s =>
      have := h.seen tid c s hc hs
      rw [windowOver_some, h.config]
      omega

theorem run_of_window_le (hwindow : dim.window cfg.withDefaults ≤ quotaGateIdleTtl)
    (h : (system cfg quota).Reachable m) : Metered cfg quota dim m := by
  refine run (h.restrict_of fun m event hm => ?_)
  exact (run hm).spent hwindow event

theorem bounded (h : Metered cfg quota dim m) (tid : String) (a : Int) :
    (within (dim.window cfg.withDefaults) a (m.log dim tid) : Int) ≤
      2*dim.limit (quota tid).normalized := by
  have hbound := (h.spaced tid).bound a
  have hlimit := dim.limit_normalized_pos (quota tid)
  omega

end Metered

/-- In a run where the sweeper drops no counter in the middle of a window of the dimension, no
stretch of one window's length has more than twice the limit, and a window no longer than the
idle time is never dropped in its middle. -/
theorem quota_windows_bounded (cfg : QuotaConfig) (quota : String → Quota) (dim : Dimension)
    (tid : String) (a : Int) :
    (∀ m, ((system cfg quota).restrict (Spent dim)).Reachable m →
      (within (dim.window cfg.withDefaults) a (m.log dim tid) : Int) ≤
        2*dim.limit (quota tid).normalized) ∧
    (dim.window cfg.withDefaults ≤ quotaGateIdleTtl →
      ∀ m, (system cfg quota).Reachable m →
        (within (dim.window cfg.withDefaults) a (m.log dim tid) : Int) ≤
          2*dim.limit (quota tid).normalized) :=
  ⟨fun _ hm => (Metered.run hm).bounded tid a,
    fun hwindow _ hm => (Metered.run_of_window_le hwindow hm).bounded tid a⟩

def minutes (n : Int) : Int := n*60*second

def onceADay : String → Quota := fun _ => ⟨100, 1, 0⟩

def Metering.start : Metering := ⟨⟨QuotaConfig.withDefaults ⟨0, 0⟩, ∅⟩, 0, []⟩

def synthesisAt (t : Int) : MeterEvent := .request "acme" true t t

theorem quota_windows_bounded_next_day :
    ∃ m, ((system ⟨0, 0⟩ onceADay).restrict (Spent .synthesesPerDay)).Reachable m ∧
      m.log .synthesesPerDay "acme" = [minutes 1440, 0] ∧
      (within (24*60*60*second) 0 (m.log .synthesesPerDay "acme") : Int) ≤ 2 ∧
      (within (60*second) 0 (m.log .requestsPerMin "acme") : Int) ≤ 200 := by
  have hlegal : Legal (fun m event => m.enabled event ∧ Spent .synthesesPerDay m event)
      (next onceADay) Metering.start
      [synthesisAt 0, synthesisAt (minutes 10), .tick (minutes 1440), synthesisAt (minutes 1440)] :=
    by decide +kernel
  have hrun : ((system ⟨0, 0⟩ onceADay).restrict (Spent .synthesesPerDay)).Reachable _ :=
    hlegal.reachable_restrict (.init ⟨rfl, rfl⟩)
  refine ⟨_, hrun, by decide +kernel, ?_, ?_⟩
  · exact (quota_windows_bounded ⟨0, 0⟩ onceADay .synthesesPerDay "acme" 0).1 _ hrun
  · exact (quota_windows_bounded ⟨0, 0⟩ onceADay .requestsPerMin "acme" 0).2 (by decide +kernel) _
      hrun.of_restrict

/-- A tenant that rests three ticks of the sweeper between its syntheses has a new counter each
time. -/
def rested : List MeterEvent :=
  [synthesisAt 0, .tick (minutes 15), .tick (minutes 30), .tick (minutes 45),
    synthesisAt (minutes 46), .tick (minutes 60), .tick (minutes 75), .tick (minutes 90),
    synthesisAt (minutes 92)]

theorem sweep_forgets_day :
    ∃ m, (system ⟨0, 0⟩ onceADay).Reachable m ∧
      ¬(within (synthesesPerDay.window (QuotaConfig.withDefaults ⟨0, 0⟩)) 0
          (m.log .synthesesPerDay "acme") : Int) ≤
        2*synthesesPerDay.limit (onceADay "acme").normalized := by
  have hlegal : Legal enabled (next onceADay) Metering.start rested := by
    decide +kernel
  exact ⟨rested.foldl (next onceADay) Metering.start, hlegal.reachable (.init ⟨rfl, rfl⟩),
    by decide +kernel⟩

end Knowledge.Gateway
