import Knowledge.Lib.Table
import Mathlib.Tactic.Linarith
import Mathlib.Tactic.Ring

/-!
`crates/connector_framework/src/provider_rate_limiter.rs`: the token buckets that the calls to a
provider share, one for each host. Times are seconds, and all numbers exact.
-/

set_option autoImplicit false

namespace Knowledge.Connector

structure ProviderPolicy where
  refillRatePerSec : ℚ
  maxTokens : ℚ
  deriving DecidableEq

open ProviderPolicy

/-- `none` where an assertion of the source fails. -/
def ProviderPolicy.new (refillRatePerSec maxTokens : ℚ) : Option ProviderPolicy :=
  if refillRatePerSec > 0 ∧ maxTokens > 0 then some ⟨refillRatePerSec, maxTokens⟩ else none

def tokenEpsilon : ℚ := 1/1000000000

def minWaitSecs : ℚ := 1/1000

structure TokenBucket where
  tokens : ℚ
  maxTokens : ℚ
  refillRate : ℚ
  lastRefill : ℚ

namespace TokenBucket

def fromPolicy (policy : ProviderPolicy) (now : ℚ) : TokenBucket :=
  ⟨policy.maxTokens, policy.maxTokens, policy.refillRatePerSec, now⟩

def refill (self : TokenBucket) (now : ℚ) : TokenBucket :=
  let elapsedSecs := max (now-self.lastRefill) 0
  if elapsedSecs > 0 then
    let topup := elapsedSecs*self.refillRate
    { self with tokens := min (self.tokens+topup) self.maxTokens, lastRefill := now }
  else self

def tryConsume (self : TokenBucket) : Except ℚ Unit × TokenBucket :=
  if self.tokens+tokenEpsilon ≥ 1 then
    (.ok (), { self with tokens := max (self.tokens-1) 0 })
  else
    let deficit := 1-self.tokens
    let waitSecs := max (deficit/self.refillRate) minWaitSecs
    (.error waitSecs, self)

end TokenBucket

structure ProviderRateLimiter where
  defaultPolicy : ProviderPolicy
  overrides : Table String ProviderPolicy
  buckets : Table String TokenBucket

namespace ProviderRateLimiter

def withDefaultPolicy (defaultPolicy : ProviderPolicy) : ProviderRateLimiter :=
  ⟨defaultPolicy, ∅, ∅⟩

section

variable (self : ProviderRateLimiter) (key : String)

def policyFor : ProviderPolicy :=
  (self.overrides.lookup key).getD self.defaultPolicy

/-- The bucket of a host, which the first call for the host makes. It is full then, so that it is
the same for a clock read before as for one read after. -/
def bucket (now : ℚ) : TokenBucket :=
  (self.buckets.lookup key).getD (.fromPolicy (self.policyFor key) now)

def tryAcquire (now : ℚ) :
    Except ℚ Unit × ProviderRateLimiter :=
  let result := ((self.bucket key now).refill now).tryConsume
  (result.1, { self with buckets := self.buckets.insert key result.2 })

end

/-- The number of sleeps it took; `late` is how much longer each of them was than asked for. -/
def acquire (key : String) (late : Nat → ℚ) :
    Nat → Nat → ℚ → ProviderRateLimiter → Option (Nat × ProviderRateLimiter)
  | 0, _, _, _ => none
  | rounds+1, sleeps, now, self =>
    match self.tryAcquire key now with
    | (.ok (), self) => some (sleeps, self)
    | (.error wait, self) => acquire key late rounds (sleeps+1) (now+wait+late sleeps) self

def after (self : ProviderRateLimiter) (calls : List (String × ℚ)) : ProviderRateLimiter :=
  calls.foldl (fun self c => (self.tryAcquire c.1 c.2).2) self

def successes (key : String) (a b : ℚ) : ProviderRateLimiter → List (String × ℚ) → Nat
  | _, [] => 0
  | self, (host, now) :: rest =>
    let result := self.tryAcquire host now
    (if host = key ∧ a ≤ now ∧ now ≤ b ∧ result.1.isOk then 1 else 0) +
      successes key a b result.2 rest

/-- Before any call: no buckets yet, and all policies made by `ProviderPolicy.new`. -/
structure Fresh (limiter : ProviderRateLimiter) : Prop where
  buckets : limiter.buckets = ∅
  policies : ∀ key, ∃ rate tokens, ProviderPolicy.new rate tokens = some (limiter.policyFor key)

end ProviderRateLimiter

/-- A bucket of the policy that was last filled up before now. -/
structure TokenBucket.Fits (policy : ProviderPolicy) (now : ℚ) (b : TokenBucket) : Prop where
  maxTokens : b.maxTokens = policy.maxTokens
  refillRate : b.refillRate = policy.refillRatePerSec
  nonneg : 0 ≤ b.tokens
  le : b.tokens ≤ policy.maxTokens
  past : b.lastRefill ≤ now

theorem tokenEpsilon_bounds : 0 < tokenEpsilon ∧ tokenEpsilon < 1 := by
  decide +kernel

theorem ProviderPolicy.new_pos {rate tokens : ℚ} {policy : ProviderPolicy}
    (h : new rate tokens = some policy) :
    0 < policy.refillRatePerSec ∧ 0 < policy.maxTokens := by
  unfold new at h
  split at h
  · obtain rfl := Option.some.inj h
    assumption
  · cases h

namespace TokenBucket

variable {policy : ProviderPolicy} {b : TokenBucket} {now later : ℚ}

theorem Fits.mono (h : Fits policy now b) (hle : now ≤ later) : Fits policy later b :=
  { h with past := h.past.trans hle }

theorem Fits.refill_eq (h : Fits policy now b) : b.refill now =
    ⟨min (b.tokens+(now-b.lastRefill)*policy.refillRatePerSec) policy.maxTokens, policy.maxTokens,
      policy.refillRatePerSec, now⟩ := by
  have hpast := h.past
  have hle := h.le
  obtain ⟨tokens, maxTokens, refillRate, lastRefill⟩ := b
  obtain rfl : maxTokens = _ := h.maxTokens
  obtain rfl : refillRate = _ := h.refillRate
  simp only at hpast hle
  rcases hpast.lt_or_eq with hlt | rfl
  · have helapsed : max (now-lastRefill) 0 = now-lastRefill := max_eq_left (by linarith)
    have hpos : now-lastRefill > 0 := by linarith
    simp only [refill, helapsed, if_pos hpos]
  · simp [refill, min_eq_left hle]

theorem fits_fromPolicy (h : 0 < policy.maxTokens) (now : ℚ) :
    Fits policy now (.fromPolicy policy now) :=
  ⟨rfl, rfl, h.le, le_refl _, le_refl _⟩

theorem refill_fromPolicy (policy : ProviderPolicy) (now : ℚ) :
    (fromPolicy policy now).refill now = fromPolicy policy now := by
  simp [refill, fromPolicy]

theorem tryConsume_cases (b : TokenBucket) :
    1 ≤ b.tokens+tokenEpsilon ∧
        b.tryConsume = (.ok (), { b with tokens := max (b.tokens-1) 0 }) ∨
      b.tokens+tokenEpsilon < 1 ∧
        b.tryConsume = (.error (max ((1-b.tokens)/b.refillRate) minWaitSecs), b) := by
  by_cases h : b.tokens+tokenEpsilon ≥ 1
  · exact .inl ⟨h, if_pos h⟩
  · exact .inr ⟨not_le.mp h, if_neg h⟩

end TokenBucket

namespace ProviderRateLimiter

def level (self : ProviderRateLimiter) (key : String) (now : ℚ) : ℚ :=
  ((self.bucket key now).refill now).tokens

/-- Every bucket fits the policy of its host, up to now. -/
structure Holds (now : ℚ) (limiter : ProviderRateLimiter) : Prop where
  policies : ∀ key,
    0 < (limiter.policyFor key).refillRatePerSec ∧ 0 < (limiter.policyFor key).maxTokens
  buckets : ∀ key b, limiter.buckets.lookup key = some b → b.Fits (limiter.policyFor key) now

variable {limiter : ProviderRateLimiter} {now later : ℚ} {key host : String}

theorem Fresh.holds (h : Fresh limiter) (now : ℚ) : Holds now limiter := by
  refine ⟨fun key => ?_, fun key b hb => ?_⟩
  · obtain ⟨_, _, hnew⟩ := h.policies key
    exact new_pos hnew
  · rw [h.buckets] at hb
    cases hb

theorem Holds.mono (h : Holds now limiter) (hle : now ≤ later) : Holds later limiter :=
  ⟨h.policies, fun key b hb => (h.buckets key b hb).mono hle⟩

theorem Holds.bucket (h : Holds now limiter) (key : String) :
    (limiter.bucket key now).Fits (limiter.policyFor key) now := by
  unfold ProviderRateLimiter.bucket
  cases hb : limiter.buckets.lookup key with
  | none => exact TokenBucket.fits_fromPolicy (h.policies key).2 now
  | some b => exact h.buckets key b hb

theorem Holds.level_bounds (h : Holds now limiter) (key : String) :
    0 ≤ limiter.level key now ∧ limiter.level key now ≤ (limiter.policyFor key).maxTokens := by
  have hfits := h.bucket key
  have hrate := (h.policies key).1.le
  have hpast : 0 ≤ now-(limiter.bucket key now).lastRefill := by linarith [hfits.past]
  rw [level, hfits.refill_eq]
  refine ⟨le_min ?_ (h.policies key).2.le, min_le_right _ _⟩
  exact add_nonneg hfits.nonneg (mul_nonneg hpast hrate)

theorem min_add_min {x cap grow : ℚ} (h : 0 ≤ grow) :
    min (min x cap+grow) cap = min (x+grow) cap := by
  rcases le_total x cap with hx | hx
  · rw [min_eq_left hx]
  · rw [min_eq_right hx, min_eq_right (by linarith), min_eq_right (by linarith)]

theorem Holds.level_later (h : Holds now limiter) (hle : now ≤ later) (key : String) :
    limiter.level key later = min (limiter.level key now+
      (later-now)*(limiter.policyFor key).refillRatePerSec) (limiter.policyFor key).maxTokens := by
  obtain ⟨hrate, hcap⟩ := h.policies key
  have hgrow : 0 ≤ (later-now)*(limiter.policyFor key).refillRatePerSec :=
    mul_nonneg (by linarith) hrate.le
  unfold level ProviderRateLimiter.bucket
  cases hb : limiter.buckets.lookup key with
  | none =>
    simp only [Option.getD_none, TokenBucket.refill_fromPolicy]
    exact (min_eq_right (le_add_of_nonneg_right hgrow)).symm
  | some b =>
    have hfits := h.buckets key b hb
    simp only [Option.getD_some, hfits.refill_eq, (hfits.mono hle).refill_eq, min_add_min hgrow]
    congr 1
    ring

theorem lookup_tryAcquire (limiter : ProviderRateLimiter) (host : String) (now : ℚ) (key : String) :
    (limiter.tryAcquire host now).2.buckets.lookup key =
      if key = host then some ((limiter.bucket host now).refill now).tryConsume.2
      else limiter.buckets.lookup key :=
  Table.lookup_insert_ite limiter.buckets host key _

theorem Holds.consumed (h : Holds now limiter) (host : String) :
    (((limiter.bucket host now).refill now).tryConsume.2).Fits (limiter.policyFor host) now ∧
      ((limiter.bucket host now).refill now).tryConsume.2.lastRefill = now := by
  have hbounds := h.level_bounds host
  have hrefill := (h.bucket host).refill_eq
  rw [level, hrefill] at hbounds
  rw [hrefill]
  rcases TokenBucket.tryConsume_cases ⟨_, _, _, now⟩ with ⟨-, heq⟩ | ⟨-, heq⟩
  · rw [heq]
    refine ⟨⟨rfl, rfl, le_max_right _ _, max_le ?_ (h.policies host).2.le, le_refl now⟩, rfl⟩
    linarith [hbounds.2]
  · rw [heq]
    exact ⟨⟨rfl, rfl, hbounds.1, hbounds.2, le_refl now⟩, rfl⟩

theorem Holds.tryAcquire (h : Holds now limiter) (host : String) :
    Holds now (limiter.tryAcquire host now).2 := by
  refine ⟨h.policies, fun key b hb => ?_⟩
  rw [lookup_tryAcquire] at hb
  split at hb
  · rename_i heq
    obtain rfl := Option.some.inj hb
    exact heq ▸ (h.consumed host).1
  · exact h.buckets key b hb

theorem Holds.level_tryAcquire (h : Holds now limiter) (host : String) :
    (limiter.tryAcquire host now).2.level host now =
      ((limiter.bucket host now).refill now).tryConsume.2.tokens := by
  obtain ⟨hfits, hlast⟩ := h.consumed host
  rw [level, ProviderRateLimiter.bucket, lookup_tryAcquire, if_pos rfl, Option.getD_some,
    hfits.refill_eq, hlast, sub_self, zero_mul, add_zero]
  exact min_eq_left hfits.le

theorem level_tryAcquire_of_ne (h : key ≠ host) :
    (limiter.tryAcquire host now).2.level key now = limiter.level key now := by
  rw [level, level, ProviderRateLimiter.bucket, lookup_tryAcquire, if_neg h]
  rfl

theorem Holds.tryAcquire_cases (h : Holds now limiter) (host : String) :
    1 ≤ limiter.level host now+tokenEpsilon ∧ (limiter.tryAcquire host now).1 = .ok () ∧
        (limiter.tryAcquire host now).2.level host now ≤
          limiter.level host now-(1-tokenEpsilon) ∨
      limiter.level host now+tokenEpsilon < 1 ∧
        (limiter.tryAcquire host now).2.level host now = limiter.level host now ∧
        (limiter.tryAcquire host now).1 = .error (max
          ((1-limiter.level host now)/(limiter.policyFor host).refillRatePerSec) minWaitSecs) := by
  have hlevel := h.level_tryAcquire host
  have hrate : ((limiter.bucket host now).refill now).refillRate =
      (limiter.policyFor host).refillRatePerSec := by rw [(h.bucket host).refill_eq]
  rcases ((limiter.bucket host now).refill now).tryConsume_cases with ⟨hle, heq⟩ | ⟨hlt, heq⟩
  · refine .inl ⟨hle, by rw [ProviderRateLimiter.tryAcquire, heq], ?_⟩
    have hle : 1 ≤ limiter.level host now+tokenEpsilon := hle
    have htoken := tokenEpsilon_bounds
    rw [hlevel, heq]
    refine max_le ?_ ?_
    · change limiter.level host now-1 ≤ _
      linarith
    · linarith
  · refine .inr ⟨hlt, by rw [hlevel, heq]; rfl, ?_⟩
    rw [ProviderRateLimiter.tryAcquire, heq, hrate]
    rfl

theorem Holds.isOk_iff (h : Holds now limiter) (host : String) :
    (limiter.tryAcquire host now).1.isOk ↔ 1 ≤ limiter.level host now+tokenEpsilon := by
  rcases h.tryAcquire_cases host with ⟨hle, hok, -⟩ | ⟨hlt, -, herror⟩
  · simp [hok, hle, Except.isOk, Except.toBool]
  · simp [herror, not_le.mpr hlt, Except.isOk, Except.toBool]

theorem head_le {c : String × ℚ} {rest : List (String × ℚ)}
    (h : (c :: rest).Pairwise fun c d => c.2 ≤ d.2) : ∀ d ∈ c :: rest, c.2 ≤ d.2 := by
  intro d hd
  rcases List.mem_cons.mp hd with rfl | hd
  · exact le_refl _
  · exact (List.pairwise_cons.mp h).1 d hd

theorem successes_of_late {a b : ℚ} {calls : List (String × ℚ)} (h : ∀ c ∈ calls, b < c.2)
    (limiter : ProviderRateLimiter) : successes key a b limiter calls = 0 := by
  induction calls generalizing limiter with
  | nil => rfl
  | cons c rest ih =>
    have hb : b < c.2 := h c List.mem_cons_self
    rw [successes, ih fun c hc => h c (List.mem_cons_of_mem _ hc), if_neg fun hc =>
      absurd hc.2.2.1 hb.not_ge]

theorem Holds.level_tryAcquire_le (h : Holds now limiter) (host key : String) :
    (limiter.tryAcquire host now).2.level key now ≤ limiter.level key now := by
  by_cases hk : key = host
  · subst hk
    have htoken := tokenEpsilon_bounds
    rcases h.tryAcquire_cases key with ⟨-, -, hle⟩ | ⟨-, heq, -⟩
    · linarith
    · exact heq.le
  · exact (level_tryAcquire_of_ne hk).le

theorem Holds.successes_le {a b : ℚ} {calls : List (String × ℚ)} (h : Holds now limiter)
    (hsorted : calls.Pairwise fun c d => c.2 ≤ d.2) (hlater : ∀ c ∈ calls, now ≤ c.2)
    (hb : now ≤ b) :
    (1-tokenEpsilon)*successes key a b limiter calls ≤
      limiter.level key now+(b-now)*(limiter.policyFor key).refillRatePerSec := by
  induction calls generalizing limiter now with
  | nil =>
    have hgrow : 0 ≤ (b-now)*(limiter.policyFor key).refillRatePerSec :=
      mul_nonneg (by linarith) (h.policies key).1.le
    simpa [successes] using add_nonneg (h.level_bounds key).1 hgrow
  | cons c rest ih =>
    obtain ⟨host, time⟩ := c
    have hle : now ≤ time := hlater _ List.mem_cons_self
    have hall := head_le hsorted
    obtain ⟨hfirst, hsorted⟩ := List.pairwise_cons.mp hsorted
    have hnow := h.mono hle
    have hlevel : limiter.level key time ≤
        limiter.level key now+(time-now)*(limiter.policyFor key).refillRatePerSec :=
      (h.level_later hle key).trans_le (min_le_left _ _)
    have hsplit : (b-now)*(limiter.policyFor key).refillRatePerSec =
        (b-time)*(limiter.policyFor key).refillRatePerSec +
          (time-now)*(limiter.policyFor key).refillRatePerSec := by ring
    by_cases htime : time ≤ b
    · have hrest := ih (hnow.tryAcquire host) hsorted hfirst htime
      have hpolicy : (limiter.tryAcquire host time).2.policyFor key = limiter.policyFor key := rfl
      rw [hpolicy] at hrest
      rw [successes, hsplit, Nat.cast_add, mul_add]
      by_cases hcount : host = key ∧ a ≤ time ∧ time ≤ b ∧ (limiter.tryAcquire host time).1.isOk
      · obtain rfl := hcount.1
        have hok := hcount.2.2.2
        have htaken : (limiter.tryAcquire host time).2.level host time ≤
            limiter.level host time-(1-tokenEpsilon) := by
          rcases hnow.tryAcquire_cases host with ⟨-, -, htaken⟩ | ⟨hlt, -, -⟩
          · exact htaken
          · exact absurd ((hnow.isOk_iff host).mp hok) hlt.not_ge
        rw [if_pos hcount, Nat.cast_one, mul_one]
        linarith
      · have htaken := hnow.level_tryAcquire_le host key
        rw [if_neg hcount, Nat.cast_zero, mul_zero]
        linarith
    · have hlate : ∀ c ∈ (host, time) :: rest, b < c.2 := fun c hc =>
        (not_le.mp htime).trans_le (hall c hc)
      have hgrow : 0 ≤ (b-now)*(limiter.policyFor key).refillRatePerSec :=
        mul_nonneg (by linarith) (h.policies key).1.le
      rw [successes_of_late hlate, Nat.cast_zero, mul_zero]
      exact add_nonneg (h.level_bounds key).1 hgrow

/-- Before the interval no success is counted, and there is never more than the capacity. -/
theorem Holds.successes_le_capacity {a b : ℚ} {calls : List (String × ℚ)} (h : Holds now limiter)
    (hsorted : calls.Pairwise fun c d => c.2 ≤ d.2) (hlater : ∀ c ∈ calls, now ≤ c.2)
    (hab : a ≤ b) :
    (1-tokenEpsilon)*successes key a b limiter calls ≤
      (limiter.policyFor key).maxTokens+(b-a)*(limiter.policyFor key).refillRatePerSec := by
  obtain ⟨hrate, hcap⟩ := h.policies key
  have hgrow : 0 ≤ (b-a)*(limiter.policyFor key).refillRatePerSec :=
    mul_nonneg (by linarith) hrate.le
  induction calls generalizing limiter now with
  | nil => simpa [successes] using add_nonneg hcap.le hgrow
  | cons c rest ih =>
    obtain ⟨host, time⟩ := c
    have hall := head_le hsorted
    obtain ⟨hfirst, hrest⟩ := List.pairwise_cons.mp hsorted
    have hnow := h.mono (hlater _ List.mem_cons_self)
    by_cases ha : a ≤ time
    · by_cases htime : time ≤ b
      · have hle := @successes_le limiter time key a b _ hnow hsorted hall htime
        have hlevel := (hnow.level_bounds key).2
        have hshort : (b-time)*(limiter.policyFor key).refillRatePerSec ≤
            (b-a)*(limiter.policyFor key).refillRatePerSec :=
          mul_le_mul_of_nonneg_right (by linarith) hrate.le
        linarith
      · have hlate : ∀ c ∈ (host, time) :: rest, b < c.2 := fun c hc =>
          (not_le.mp htime).trans_le (hall c hc)
        rw [successes_of_late hlate, Nat.cast_zero, mul_zero]
        exact add_nonneg hcap.le hgrow
    · have hskip : ¬ (host = key ∧ a ≤ time ∧ time ≤ b ∧
          (limiter.tryAcquire host time).1.isOk) := fun hc => ha hc.2.1
      rw [successes, if_neg hskip, Nat.zero_add]
      exact ih (hnow.tryAcquire host) hrest hfirst hrate hcap hgrow

theorem after_policyFor (limiter : ProviderRateLimiter) (calls : List (String × ℚ))
    (key : String) : (limiter.after calls).policyFor key = limiter.policyFor key := by
  induction calls generalizing limiter with
  | nil => rfl
  | cons c rest ih => exact ih (limiter.tryAcquire c.1 c.2).2

theorem Holds.after {calls : List (String × ℚ)} (h : Holds now limiter)
    (hsorted : calls.Pairwise fun c d => c.2 ≤ d.2) (hlater : ∀ c ∈ calls, now ≤ c.2)
    {time : ℚ} (hnow : now ≤ time) (hend : ∀ c ∈ calls, c.2 ≤ time) :
    Holds time (limiter.after calls) := by
  induction calls generalizing limiter now with
  | nil => exact h.mono hnow
  | cons c rest ih =>
    have hle := hlater c List.mem_cons_self
    obtain ⟨hfirst, hsorted⟩ := List.pairwise_cons.mp hsorted
    exact ih ((h.mono hle).tryAcquire c.1) hsorted hfirst (hend c List.mem_cons_self)
      fun c hc => hend c (List.mem_cons_of_mem _ hc)

theorem Holds.level_after {calls : List (String × ℚ)} {a time : ℚ} (h : Holds now limiter)
    (hsorted : calls.Pairwise fun c d => c.2 ≤ d.2) (hlater : ∀ c ∈ calls, now ≤ c.2)
    (ha : a ≤ now) (hnow : now ≤ time) (hend : ∀ c ∈ calls, c.2 ≤ time)
    (hnone : successes key a time limiter calls = 0) :
    (limiter.after calls).level key time = limiter.level key time := by
  induction calls generalizing limiter now with
  | nil => rfl
  | cons c rest ih =>
    obtain ⟨host, x⟩ := c
    have hle : now ≤ x := hlater _ List.mem_cons_self
    have hx : x ≤ time := hend _ List.mem_cons_self
    have hthen := h.mono hle
    obtain ⟨hfirst, hsorted⟩ := List.pairwise_cons.mp hsorted
    obtain ⟨hcount, hrest⟩ := Nat.add_eq_zero_iff.mp hnone
    have hkeep : (limiter.tryAcquire host x).2.level key x = limiter.level key x := by
      by_cases hk : key = host
      · subst hk
        rcases hthen.tryAcquire_cases key with ⟨-, hok, -⟩ | ⟨-, hsame, -⟩
        · simp [hok, ha.trans hle, hx, Except.isOk, Except.toBool] at hcount
        · exact hsame
      · exact level_tryAcquire_of_ne hk
    have hnext := ih (hthen.tryAcquire host) hsorted hfirst (ha.trans hle) hx
      (fun c hc => hend c (List.mem_cons_of_mem _ hc)) hrest
    have hpolicy : (limiter.tryAcquire host x).2.policyFor key = limiter.policyFor key := rfl
    rw [ProviderRateLimiter.after, List.foldl_cons]
    refine hnext.trans ?_
    rw [(hthen.tryAcquire host).level_later hx key, hkeep, hpolicy, hthen.level_later hx key]

/-- After the wait that a call reported, or later, a token is there, if the bucket can hold one. -/
theorem Holds.level_wait (h : Holds now limiter) {wait : ℚ}
    (herror : (limiter.tryAcquire key now).1 = .error wait)
    (hcap : 1 ≤ (limiter.policyFor key).maxTokens+tokenEpsilon) :
    0 < wait ∧ ∀ time, now+wait ≤ time →
      1 ≤ (limiter.tryAcquire key now).2.level key time+tokenEpsilon := by
  have hrate := (h.policies key).1
  rcases h.tryAcquire_cases key with ⟨-, hok, -⟩ | ⟨-, hsame, heq⟩
  · rw [hok] at herror
    cases herror
  · obtain rfl := Except.error.inj (heq.symm.trans herror)
    generalize hwait : max ((1-limiter.level key now)/(limiter.policyFor key).refillRatePerSec)
      minWaitSecs = wait
    have hpos : 0 < wait := by
      have hmin : (0 : ℚ) < minWaitSecs := by decide +kernel
      exact hmin.trans_le (hwait ▸ le_max_right _ _)
    refine ⟨hpos, fun time htime => ?_⟩
    have hlong : (1-limiter.level key now)/(limiter.policyFor key).refillRatePerSec ≤ time-now := by
      have hle := hwait ▸ le_max_left
        ((1-limiter.level key now)/(limiter.policyFor key).refillRatePerSec) minWaitSecs
      linarith
    have hgrow : 1-limiter.level key now ≤
        (time-now)*(limiter.policyFor key).refillRatePerSec := (div_le_iff₀ hrate).mp hlong
    have hlater := (h.tryAcquire key).level_later (by linarith : now ≤ time) key
    have hpolicy : (limiter.tryAcquire key now).2.policyFor key = limiter.policyFor key := rfl
    rw [hsame, hpolicy] at hlater
    rw [hlater, ← sub_le_iff_le_add]
    have htoken := tokenEpsilon_bounds
    exact le_min (by linarith) (by linarith)

theorem Fresh.holds_after {calls : List (String × ℚ)} (h : Fresh limiter)
    (hsorted : calls.Pairwise fun c d => c.2 ≤ d.2) (hend : ∀ c ∈ calls, c.2 ≤ now) :
    Holds now (limiter.after calls) := by
  cases calls with
  | nil => exact h.holds now
  | cons c rest =>
    exact (h.holds c.2).after hsorted (head_le hsorted) (hend c List.mem_cons_self) hend

theorem Holds.tryAcquire_of_level (h : Holds now limiter)
    (hlevel : 1 ≤ limiter.level key now+tokenEpsilon) :
    (limiter.tryAcquire key now).1 = .ok () := by
  rcases h.tryAcquire_cases key with ⟨-, hok, -⟩ | ⟨hlt, -, -⟩
  · exact hok
  · exact absurd hlevel hlt.not_ge

theorem Holds.acquire (h : Holds now limiter)
    (hcap : 1 ≤ (limiter.policyFor key).maxTokens+tokenEpsilon) {late : Nat → ℚ}
    (hlate : ∀ n, 0 ≤ late n) {rounds : Nat} (hrounds : 2 ≤ rounds) :
    ∃ sleeps ≤ 1, ∃ left, acquire key late rounds 0 now limiter = some (sleeps, left) := by
  obtain ⟨rounds, rfl⟩ : ∃ n, rounds = n+2 := ⟨rounds-2, by omega⟩
  rcases hfirst : limiter.tryAcquire key now with ⟨_ | _, next⟩
  · rename_i wait
    have herror : (limiter.tryAcquire key now).1 = .error wait := by rw [hfirst]
    obtain ⟨hpos, hlevel⟩ := h.level_wait herror hcap
    have htime : now+wait ≤ now+wait+late 0 := by linarith [hlate 0]
    have hnext : Holds (now+wait+late 0) next := by
      have hthen := h.tryAcquire key
      rw [hfirst] at hthen
      exact hthen.mono (by linarith)
    have hlevel := hlevel _ htime
    rw [hfirst] at hlevel
    have hsecond := hnext.tryAcquire_of_level hlevel
    rcases hretry : next.tryAcquire key (now+wait+late 0) with ⟨_ | _, left⟩
    · rw [hretry] at hsecond
      cases hsecond
    · refine ⟨1, le_refl 1, left, ?_⟩
      simp only [ProviderRateLimiter.acquire, hfirst, hretry]
  · refine ⟨0, Nat.zero_le 1, next, ?_⟩
    simp only [ProviderRateLimiter.acquire, hfirst]

/-- The calls of a host succeed no more often than its capacity and its rate allow, but for the
tolerance. Where the bucket can hold a token, a call succeeds when it is made again after the wait
that it reported, and `acquire` sleeps once at most. -/
theorem providerRate_bound {limiter : ProviderRateLimiter} (hfresh : limiter.Fresh)
    {calls : List (String × ℚ)} (hsorted : calls.Pairwise fun c d => c.2 ≤ d.2) (key : String) :
    (∀ a b, a ≤ b → (1-tokenEpsilon)*successes key a b limiter calls ≤
      (limiter.policyFor key).maxTokens+(b-a)*(limiter.policyFor key).refillRatePerSec) ∧
    (1 ≤ (limiter.policyFor key).maxTokens+tokenEpsilon → ∀ now, (∀ c ∈ calls, c.2 ≤ now) →
      (∀ wait, ((limiter.after calls).tryAcquire key now).1 = .error wait →
        ∀ between : List (String × ℚ), (between.Pairwise fun c d => c.2 ≤ d.2) →
          (∀ c ∈ between, now ≤ c.2 ∧ c.2 ≤ now+wait) →
          successes key now (now+wait) ((limiter.after calls).tryAcquire key now).2 between = 0 →
          ((((limiter.after calls).tryAcquire key now).2.after between).tryAcquire key
            (now+wait)).1 = .ok ()) ∧
      ∀ late : Nat → ℚ, (∀ n, 0 ≤ late n) → ∀ rounds ≥ 2, ∃ sleeps ≤ 1, ∃ left,
        acquire key late rounds 0 now (limiter.after calls) = some (sleeps, left)) := by
  refine ⟨fun a b hab => ?_, fun hcap now hend => ?_⟩
  · cases calls with
    | nil => exact (hfresh.holds a).successes_le_capacity hsorted (by simp) hab
    | cons c rest => exact (hfresh.holds c.2).successes_le_capacity hsorted (head_le hsorted) hab
  · have hholds := hfresh.holds_after hsorted hend
    rw [← after_policyFor limiter calls key] at hcap
    refine ⟨fun wait herror between hbetween hwithin hnone => ?_, fun late hlate rounds hrounds =>
      hholds.acquire hcap hlate hrounds⟩
    obtain ⟨hpos, hlevel⟩ := hholds.level_wait herror hcap
    have hle : now ≤ now+wait := by linarith
    have hthen := hholds.tryAcquire key
    have hafter := hthen.after hbetween (fun c hc => (hwithin c hc).1) hle
      fun c hc => (hwithin c hc).2
    refine hafter.tryAcquire_of_level ?_
    rw [hthen.level_after hbetween (fun c hc => (hwithin c hc).1) (le_refl now) hle
      (fun c hc => (hwithin c hc).2) hnone]
    exact hlevel _ (le_refl _)

theorem fresh_withDefaultPolicy {rate tokens : ℚ} {policy : ProviderPolicy}
    (h : new rate tokens = some policy) : Fresh (withDefaultPolicy policy) := by
  refine ⟨rfl, fun key => ⟨rate, tokens, ?_⟩⟩
  simpa [policyFor, withDefaultPolicy] using h

def oneToken : ProviderRateLimiter := withDefaultPolicy ⟨1, 1⟩

theorem providerRate_bound_oneToken :
    (1-tokenEpsilon)*successes "api.example" 0 2 oneToken [("api.example", 0), ("api.example", 2)] ≤
        (oneToken.policyFor "api.example").maxTokens +
          (2-0)*(oneToken.policyFor "api.example").refillRatePerSec ∧
      ((((oneToken.after [("api.example", 0)]).tryAcquire "api.example" (1/2)).2.after
        [("cdn.example", 3/4)]).tryAcquire "api.example" (1/2+1/2)).1 = .ok () := by
  have hfresh : Fresh oneToken := @fresh_withDefaultPolicy 1 1 _ rfl
  refine ⟨?_, ?_⟩
  · exact (providerRate_bound hfresh (by decide +kernel) "api.example").1 0 2 (by decide +kernel)
  · obtain ⟨-, hretry⟩ := providerRate_bound hfresh
      (List.pairwise_singleton _ ("api.example", 0)) "api.example"
    exact (hretry (by decide +kernel) (1/2) (by decide +kernel)).1 (1/2) (by decide +kernel)
      [("cdn.example", 3/4)] (List.pairwise_singleton _ _) (by decide +kernel) (by decide +kernel)

/-- A call just before the next token is whole succeeds, one more than the rate allows. A bucket
for half a token lets no call pass, whatever the wait. -/
theorem providerRate_exceeded :
    (new 1 1 = some ⟨1, 1⟩ ∧
      successes "api.example" 0 (1-tokenEpsilon) (withDefaultPolicy ⟨1, 1⟩)
        [("api.example", 0), ("api.example", 1-tokenEpsilon)] = 2 ∧
      ¬ (2 : ℚ) ≤ 1+1*(1-tokenEpsilon-0)) ∧
    new 1 (1/2) = some ⟨1, 1/2⟩ ∧
      ((withDefaultPolicy ⟨1, 1/2⟩).tryAcquire "api.example" 0).1 = .error (1/2) ∧
      (((withDefaultPolicy ⟨1, 1/2⟩).tryAcquire "api.example" 0).2.tryAcquire "api.example"
        (0+1/2)).1 = .error (1/2) := by
  decide +kernel

end ProviderRateLimiter

end Knowledge.Connector
