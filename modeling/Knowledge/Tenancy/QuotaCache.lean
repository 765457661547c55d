import Knowledge.Lib.Transition
import Knowledge.Tenancy.Store

/-!
`server/internal/tenant/quota_cache.go`: quotas read through a cache, where a failed read keeps the
quota of the entry it finds, and a reaper deletes entries that have expired. Concurrent misses of
one tenant share a read. Times and durations are nanoseconds.
-/

set_option autoImplicit false

namespace Knowledge.Tenancy
open Knowledge.Transition

structure QuotaEntry where
  quota : Quota
  found : Bool
  expires : Int
  deriving DecidableEq

structure QuotaCache where
  ttl : Int
  storeErrorTtl : Int
  entries : Table String QuotaEntry

/-- What `GetTenant` comes back with: the quota of a record, `ErrNotFound`, or another error. -/
inductive StoreRead where
  | record (quota : Quota)
  | notFound
  | failed
  deriving DecidableEq

/-- The quota and whether the tenant is known, as `TenantQuota` returns them. -/
abbrev QuotaAnswer := Quota × Bool

def fallback : QuotaAnswer := (.default, false)

def StoreRead.definitive : StoreRead → Option QuotaAnswer
  | .record quota => some (quota.normalized, true)
  | .notFound => some fallback
  | .failed => none

def QuotaEntry.answer (e : QuotaEntry) : QuotaAnswer := (e.quota, e.found)

namespace QuotaCache

def new (ttl : Int) : QuotaCache where
  ttl := if ttl ≤ 0 then 30*1000000000 else ttl
  storeErrorTtl := 1000000000
  entries := ∅

def fresh (c : QuotaCache) (tid : String) (now : Int) : Option QuotaAnswer :=
  match c.entries.lookup tid with
  | some e => if now < e.expires then some e.answer else none
  | none => none

/-- The entry a read leads to, given the entry that was there and the clock it is stamped with. -/
def refreshed (c : QuotaCache) (read : StoreRead) (prev : Option QuotaEntry) (stamp : Int) :
    QuotaEntry :=
  match read with
  | .record quota => ⟨quota.normalized, true, stamp+c.ttl⟩
  | .notFound => ⟨.default, false, stamp+c.ttl⟩
  | .failed =>
    match prev with
    | some prev => ⟨prev.quota, prev.found, stamp+c.storeErrorTtl⟩
    | none => ⟨.default, false, stamp+c.storeErrorTtl⟩

def reap (c : QuotaCache) (tick : Int) : QuotaCache :=
  { c with entries := c.entries.filter fun _ e => !(e.expires < tick) }

end QuotaCache

/-! ## Calls that interleave -/

/-- The read that the calls of a tenant share: still out, back with the entry that was in the
cache then, or written to the cache. -/
inductive Flight where
  | reading
  | fetched (read : StoreRead) (prev : Option QuotaEntry) (since : Int)
  | stored (answer : QuotaAnswer)
  deriving DecidableEq

inductive QuotaAction where
  | lookup (tid : String)
  | join (tid : String)
  | fetch (tid : String) (read : StoreRead)
  | store (tid : String) (stamp : Int)
  | finish (tid : String)
  | reap (tick : Int)

def QuotaAction.moves : QuotaAction → Option String
  | .join tid | .fetch tid _ | .store tid _ | .finish tid => some tid
  | .lookup _ | .reap _ => none

/-- The cache with the reads that are out and the calls that missed and are yet to join one. The
history is the most recent definitive read of each tenant, and whether a read has failed since at
a moment when the tenant had no entry. -/
structure Serving where
  cache : QuotaCache
  flights : String → Option Flight
  missed : String → Nat
  clock : Int
  known : String → Option QuotaAnswer
  lost : String → Bool

namespace Serving

def start (ttl : Int) (clock : Int) : Serving :=
  ⟨.new ttl, fun _ => none, fun _ => 0, clock, fun _ => none, fun _ => false⟩

def act (s : Serving) (now : Int) : QuotaAction → Serving
  | .lookup tid =>
    if (s.cache.fresh tid now).isSome then s
    else { s with missed := Function.update s.missed tid (s.missed tid+1) }
  | .join tid =>
    { s with
      missed := Function.update s.missed tid (s.missed tid-1)
      flights := Function.update s.flights tid (some ((s.flights tid).getD .reading)) }
  | .fetch tid read =>
    let prev := s.cache.entries.lookup tid
    { s with
      flights := Function.update s.flights tid (some (.fetched read prev now))
      lost := Function.update s.lost tid
        (s.lost tid || (read = .failed && prev.isNone && (s.known tid).isSome)) }
  | .store tid stamp =>
    match s.flights tid with
    | some (.fetched read prev _) =>
      let e := s.cache.refreshed read prev stamp
      { s with
        cache := { s.cache with entries := s.cache.entries.insert tid e }
        flights := Function.update s.flights tid (some (.stored e.answer))
        known := Function.update s.known tid (read.definitive <|> s.known tid)
        lost := Function.update s.lost tid (s.lost tid && read.definitive.isNone) }
    | _ => s
  | .finish tid => { s with flights := Function.update s.flights tid none }
  | .reap tick => { s with cache := s.cache.reap tick }

def next (s : Serving) (a : Int × QuotaAction) : Serving :=
  { s.act a.1 a.2 with clock := a.1 }

def Ready (s : Serving) (now : Int) : QuotaAction → Prop
  | .lookup _ => True
  | .join tid => 0 < s.missed tid
  | .fetch tid _ => s.flights tid = some .reading
  | .store tid stamp =>
    match s.flights tid with
    | some (.fetched _ _ since) => since ≤ stamp ∧ stamp ≤ now
    | _ => False
  | .finish tid =>
    match s.flights tid with
    | some (.stored _) => True
    | _ => False
  | .reap tick => tick ≤ now

def Guard (s : Serving) (a : Int × QuotaAction) : Prop :=
  s.clock ≤ a.1 ∧ s.Ready a.1 a.2

def system (ttl : Int) : System Serving (Int × QuotaAction) :=
  .ofNext (fun s => ∃ clock, s = start ttl clock) Guard next

/-- What a step answers: at once from a fresh entry, or to all the calls that shared a read. -/
def answer (s : Serving) : Int × QuotaAction → Option (String × QuotaAnswer)
  | (now, .lookup tid) => (s.cache.fresh tid now).map fun v => (tid, v)
  | (_, .finish tid) =>
    match s.flights tid with
    | some (.stored v) => some (tid, v)
    | _ => none
  | _ => none

def value (s : Serving) (tid : String) : QuotaAnswer := (s.known tid).getD fallback

/-- The entry of a tenant, and a read of it that is coming back, carry the value. -/
structure Holds (s : Serving) (tid : String) : Prop where
  entry : ∀ e, s.cache.entries.lookup tid = some e → e.answer = s.value tid
  prev : ∀ e since, s.flights tid = some (.fetched .failed (some e) since) →
    e.answer = s.value tid
  nothing : ∀ since, s.flights tid = some (.fetched .failed none since) → s.known tid = none
  stored : ∀ v, s.flights tid = some (.stored v) → v = s.value tid

theorem holds_start (ttl clock : Int) (tid : String) : (start ttl clock).Holds tid :=
  ⟨fun e h => by simp [start, QuotaCache.new] at h, fun _ _ h => by simp [start] at h,
    fun _ h => by simp [start] at h, fun _ h => by simp [start] at h⟩

theorem Holds.frame {s t : Serving} {tid : String} (h : s.Holds tid)
    (hentries : ∀ e, t.cache.entries.lookup tid = some e → s.cache.entries.lookup tid = some e)
    (hflights : t.flights tid = s.flights tid) (hknown : t.known tid = s.known tid) :
    t.Holds tid := by
  have hvalue : t.value tid = s.value tid := by simp [value, hknown]
  refine ⟨fun e he => ?_, fun e since he => ?_, fun since he => ?_, fun v hv => ?_⟩
  · rw [hvalue]
    exact h.entry e (hentries e he)
  · rw [hvalue]
    exact h.prev e since (hflights ▸ he)
  · rw [hknown]
    exact h.nothing since (hflights ▸ he)
  · rw [hvalue]
    exact h.stored v (hflights ▸ hv)

theorem answer_refreshed (c : QuotaCache) (read : StoreRead) (prev : Option QuotaEntry)
    (stamp : Int) : (c.refreshed read prev stamp).answer =
      (read.definitive <|> prev.map QuotaEntry.answer).getD fallback := by
  cases read <;> cases prev <;> rfl

section

variable {s : Serving} {tid : String}

theorem Holds.fetch (h : s.Holds tid) {read : StoreRead} {now : Int}
    (hlost : (s.act now (.fetch tid read)).lost tid = false) :
    (s.act now (.fetch tid read)).Holds tid := by
  simp only [act, Function.update_self, Bool.or_eq_false_iff] at hlost
  refine ⟨h.entry, fun e since he => ?_, fun since he => ?_, fun v hv => ?_⟩
  · obtain ⟨rfl, hprev, rfl⟩ : read = .failed ∧ s.cache.entries.lookup tid = some e ∧
        now = since := by simpa [act] using he
    exact h.entry e hprev
  · obtain ⟨rfl, hprev, rfl⟩ : read = .failed ∧ s.cache.entries.lookup tid = none ∧
        now = since := by simpa [act] using he
    have hknown : s.known tid = none := by simpa [hprev] using hlost.2
    exact hknown
  · simp [act] at hv

theorem Holds.store {read : StoreRead} {prev : Option QuotaEntry}
    {since : Int} (hflight : s.flights tid = some (.fetched read prev since))
    (h : read = .failed → s.Holds tid) (now stamp : Int) :
    (s.act now (.store tid stamp)).Holds tid := by
  have hvalue : (s.act now (.store tid stamp)).value tid =
      (s.cache.refreshed read prev stamp).answer := by
    rw [answer_refreshed]
    simp only [value, act, hflight, Function.update_self]
    cases read with
    | record quota => rfl
    | notFound => rfl
    | failed =>
      have hs := h rfl
      cases prev with
      | none =>
        have hknown := hs.nothing since hflight
        simp [StoreRead.definitive, hknown]
      | some e =>
        have he := hs.prev e since hflight
        simpa [StoreRead.definitive, value] using he.symm
  refine ⟨fun e he => ?_, fun e since' he => ?_, fun since' he => ?_, fun v hv => ?_⟩
  · rw [hvalue]
    obtain rfl : s.cache.refreshed read prev stamp = e := by simpa [act, hflight] using he
    rfl
  · simp [act, hflight] at he
  · simp [act, hflight] at he
  · rw [hvalue]
    exact (by simpa [act, hflight] using hv : _ = v).symm

theorem Holds.other (h : s.Holds tid) {a : QuotaAction} (now : Int)
    (ha : a.moves ≠ some tid) : (s.act now a).Holds tid := by
  cases a with
  | lookup t =>
    simp only [act]
    split
    · exact h
    · exact h.frame (fun e he => he) rfl rfl
  | reap tick =>
    refine h.frame (fun e he => ?_) rfl rfl
    simp only [act, QuotaCache.reap] at he
    exact (Table.lookup_filter_eq_some.mp he).1
  | store t stamp =>
    have hne : tid ≠ t := fun heq => ha (congrArg some heq.symm)
    simp only [act]
    split
    · refine h.frame (fun e he => ?_) (by simp [hne]) (by simp [hne])
      simpa [Table.lookup_insert_ite, hne] using he
    · exact h
  | join t | fetch t read | finish t =>
    have hne : tid ≠ t := fun heq => ha (congrArg some heq.symm)
    exact h.frame (fun e he => he) (by simp [act, hne]) rfl

theorem lost_other {a : QuotaAction} (now : Int)
    (ha : a.moves ≠ some tid) : (s.act now a).lost tid = s.lost tid := by
  cases a with
  | lookup t =>
    simp only [act]
    split <;> rfl
  | fetch t read =>
    have hne : tid ≠ t := fun heq => ha (congrArg some heq.symm)
    simp [act, hne]
  | store t stamp =>
    have hne : tid ≠ t := fun heq => ha (congrArg some heq.symm)
    simp only [act]
    split <;> simp [hne]
  | join t | finish t | reap tick => rfl

theorem Holds.join (h : s.Holds tid) (now : Int) :
    (s.act now (.join tid)).Holds tid := by
  cases hflight : s.flights tid with
  | some flight => exact h.frame (fun e he => he) (by simp [act, hflight]) rfl
  | none =>
    have hreading : (s.act now (.join tid)).flights tid = some .reading := by simp [act, hflight]
    exact ⟨h.entry, fun e since he => by simp [hreading] at he,
      fun since he => by simp [hreading] at he, fun v hv => by simp [hreading] at hv⟩

theorem Holds.finish (h : s.Holds tid) (now : Int) :
    (s.act now (.finish tid)).Holds tid :=
  ⟨h.entry, fun e since he => by simp [act] at he, fun since he => by simp [act] at he,
    fun v hv => by simp [act] at hv⟩

end

def Kept (s : Serving) : Prop := ∀ tid, s.lost tid = false → s.Holds tid

theorem Kept.next {s : Serving} (h : s.Kept) {a : Int × QuotaAction} (hg : s.Guard a) :
    (s.next a).Kept := by
  obtain ⟨now, c⟩ := a
  intro tid hlost
  suffices hact : (s.act now c).Holds tid from ⟨hact.entry, hact.prev, hact.nothing, hact.stored⟩
  have hlost : (s.act now c).lost tid = false := hlost
  have hready : s.Ready now c := hg.2
  by_cases hmoves : c.moves = some tid
  · cases c with
    | lookup t => simp [QuotaAction.moves] at hmoves
    | reap tick => simp [QuotaAction.moves] at hmoves
    | join t =>
      obtain rfl := Option.some.inj hmoves
      exact (h t hlost).join now
    | finish t =>
      obtain rfl := Option.some.inj hmoves
      exact (h t hlost).finish now
    | fetch t read =>
      obtain rfl := Option.some.inj hmoves
      refine Holds.fetch (h t ?_) hlost
      simp only [act, Function.update_self, Bool.or_eq_false_iff] at hlost
      exact hlost.1
    | store t stamp =>
      obtain rfl := Option.some.inj hmoves
      simp only [Ready] at hready
      split at hready
      · rename_i read prev since hflight
        refine Holds.store hflight (fun hfailed => h t ?_) now stamp
        subst hfailed
        simpa [act, hflight, StoreRead.definitive] using hlost
      · exact hready.elim
  · rw [lost_other now hmoves] at hlost
    exact (h tid hlost).other now hmoves

theorem kept_reachable {ttl : Int} {s : Serving} (h : (system ttl).Reachable s) : s.Kept := by
  refine h.invariant Kept ?_ ?_
  · rintro s ⟨clock, rfl⟩ tid _
    exact holds_start ttl clock tid
  · rintro s a t _ hs ⟨hg, rfl⟩
    exact hs.next hg

/-- In every run, as long as no read of a tenant has failed at a moment when its entry was
reaped, every call for it returns the most recent definitive read, or the fallback where there
has been none. -/
theorem quota_retained {ttl : Int} {s : Serving} (h : (system ttl).Reachable s)
    {a : Int × QuotaAction} {tid : String} {v : QuotaAnswer} (hanswer : s.answer a = some (tid, v))
    (hlost : s.lost tid = false) : v = (s.known tid).getD fallback := by
  have hholds := kept_reachable h tid hlost
  obtain ⟨now, c⟩ := a
  cases c with
  | lookup t =>
    simp only [answer, QuotaCache.fresh, Option.map_eq_some_iff, Prod.mk.injEq] at hanswer
    obtain ⟨w, hw, rfl, rfl⟩ := hanswer
    split at hw
    · rename_i e he
      obtain ⟨_, rfl⟩ : _ ∧ e.answer = w := by simpa using hw
      exact hholds.entry e he
    · simp at hw
  | finish t =>
    simp only [answer] at hanswer
    split at hanswer
    · rename_i w hw
      obtain ⟨rfl, rfl⟩ : t = tid ∧ w = v := by simpa using hanswer
      exact hholds.stored w hw
    · simp at hanswer
  | join t | fetch t read | store t stamp | reap tick => simp [answer] at hanswer

instance (s : Serving) (now : Int) : (a : QuotaAction) → Decidable (s.Ready now a)
  | .lookup _ => isTrue trivial
  | .join tid => inferInstanceAs (Decidable (0 < s.missed tid))
  | .fetch tid _ => inferInstanceAs (Decidable (s.flights tid = some .reading))
  | .store tid stamp =>
    match h : s.flights tid with
    | some (.fetched _ _ since) =>
      decidable_of_iff (since ≤ stamp ∧ stamp ≤ now) (by simp [Ready, h])
    | some .reading | some (.stored _) | none => isFalse (by simp [Ready, h])
  | .finish tid =>
    match h : s.flights tid with
    | some (.stored _) => isTrue (by simp [Ready, h])
    | some .reading | some (.fetched ..) | none => isFalse (by simp [Ready, h])
  | .reap tick => inferInstanceAs (Decidable (tick ≤ now))

instance (s : Serving) (a : Int × QuotaAction) : Decidable (s.Guard a) :=
  inferInstanceAs (Decidable (_ ∧ _))

def seconds (n : Int) : Int := n*1000000000

/-- A call that misses at `n` seconds and leads a read, up to its answer. -/
def miss (n : Int) (read : StoreRead) : List (Int × QuotaAction) :=
  [.lookup "acme", .join "acme", .fetch "acme" read, .store "acme" (seconds n)].map
    fun a => (seconds n, a)

def run (steps : List (Int × QuotaAction)) : Serving := steps.foldl next (start (seconds 30) 0)

theorem run_reachable {steps : List (Int × QuotaAction)}
    (h : Legal Guard next (start (seconds 30) 0) steps) :
    (system (seconds 30)).Reachable (run steps) :=
  h.reachable (.init ⟨0, rfl⟩)

def throttled : Quota := ⟨10, 2, 1048576⟩

/-- A read that fails after the entry expired, before and after a tick of the reaper. -/
def outage (tick : Option Int) : List (Int × QuotaAction) :=
  miss 1 (.record throttled) ++ [(seconds 2, .finish "acme")] ++
    (tick.map fun t => (t, QuotaAction.reap t)).toList ++ miss 61 .failed

theorem quota_retained_outage :
    (throttled, true) = ((run (outage none)).known "acme").getD fallback :=
  quota_retained (a := (seconds 61, .finish "acme")) (run_reachable (by decide +kernel))
    (by decide +kernel) (by decide +kernel)

/-- With a tick in between, the throttled tenant gets the default. -/
theorem failed_read_raises_quota :
    let s := run (outage (some (seconds 60)))
    (system (seconds 30)).Reachable s ∧ s.Guard (seconds 61, .finish "acme") ∧
      s.answer (seconds 61, .finish "acme") = some ("acme", fallback) ∧
      s.known "acme" = some (throttled, true) ∧
      throttled.requestsPerMin < fallback.1.requestsPerMin :=
  ⟨run_reachable (by decide +kernel), by decide +kernel, by decide +kernel, by decide +kernel,
    by decide +kernel⟩

end Serving

end Knowledge.Tenancy
