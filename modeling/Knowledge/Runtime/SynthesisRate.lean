import Mathlib.Data.Rat.Floor

/-!
`crates/ffi/src/synthesis_rate.rs`: the token bucket of the synthesis triggers, with exact numbers
in place of `f64`. Instants are nanoseconds within the calendar.
-/

set_option autoImplicit false

namespace Knowledge.Runtime.SynthesisRate

structure DateTime where
  nanos : Int
  lower : -8334601228800000000000 ≤ nanos
  upper : nanos ≤ 8210266876799999999999

theorem DateTime.ext {a b : DateTime} (h : a.nanos = b.nanos) : a = b := by
  cases a
  cases b
  simpa using h

structure TokenBucket where
  capacity : Nat
  refillPerSec : ℚ
  tokens : ℚ
  lastRefill : DateTime

def numMilliseconds (since now : DateTime) : Int := (now.nanos-since.nanos).tdiv 1000000

namespace TokenBucket

def new (capacity : Nat) (refillPerSec : ℚ) (now : DateTime) : TokenBucket :=
  ⟨capacity, refillPerSec, capacity, now⟩

def refill (bucket : TokenBucket) (now : DateTime) : TokenBucket :=
  let elapsed := now.nanos-bucket.lastRefill.nanos
  if elapsed ≤ 0 then bucket
  else
    let added := numMilliseconds bucket.lastRefill now / 1000 * bucket.refillPerSec
    { bucket with tokens := min (bucket.tokens+added) bucket.capacity, lastRefill := now }

def retryAfterMs (bucket : TokenBucket) : Nat :=
  let deficit := 1-bucket.tokens
  let waitSecs := deficit/bucket.refillPerSec
  max (min ⌈waitSecs*1000⌉.toNat 18446744073709551615) 1

def tryAcquire (bucket : TokenBucket) (now : DateTime) : TokenBucket × Except Nat Unit :=
  let bucket := bucket.refill now
  if bucket.tokens ≥ 1 then ({ bucket with tokens := bucket.tokens-1 }, .ok ())
  else (bucket, .error bucket.retryAfterMs)

def after (bucket : TokenBucket) (calls : List DateTime) : TokenBucket :=
  calls.foldl (fun b now => (b.tryAcquire now).1) bucket

def successes (a e : Int) : TokenBucket → List DateTime → Nat
  | _, [] => 0
  | bucket, now :: rest =>
    let result := bucket.tryAcquire now
    (if a ≤ now.nanos ∧ now.nanos ≤ e ∧ result.2.isOk then 1 else 0) + successes a e result.1 rest

def AllRefused : TokenBucket → List DateTime → Prop
  | _, [] => True
  | bucket, now :: rest =>
    (bucket.tryAcquire now).2 ≠ .ok () ∧ AllRefused (bucket.tryAcquire now).1 rest

/-- A call is made at an instant, is told to wait, and all calls before the next are refused too. -/
structure Polled (bucket : TokenBucket) (at₀ : DateTime) (wait : Nat) (polls : List DateTime)
    (next : DateTime) : Prop where
  refused : (bucket.tryAcquire at₀).2 = .error wait
  polls : AllRefused (bucket.tryAcquire at₀).1 polls
  waited : at₀.nanos+wait*1000000 ≤ next.nanos

/-- A call that comes after the wait that an earlier one was told succeeds. -/
def Served (bucket : TokenBucket) (calls : List DateTime) : Prop :=
  ∀ before at₀ wait polls next rest, calls = before ++ at₀ :: polls ++ next :: rest →
    Polled (bucket.after before) at₀ wait polls next →
    ((bucket.after (before ++ at₀ :: polls)).tryAcquire next).2 = .ok ()

end TokenBucket

def wholeMillis : DateTime → List DateTime → Int
  | _, [] => 0
  | since, now :: rest => numMilliseconds since now + wholeMillis now rest

/-- The gaps between the calls since the refusal make up the wait, each in whole milliseconds. -/
def TokenBucket.Repaid (bucket : TokenBucket) (calls : List DateTime) : Prop :=
  ∀ before at₀ wait polls next rest, calls = before ++ at₀ :: polls ++ next :: rest →
    Polled (bucket.after before) at₀ wait polls next →
    (wait : Int) ≤ wholeMillis at₀ (polls ++ [next])

structure TokenBucket.Fits (now : DateTime) (b : TokenBucket) : Prop where
  cap : 1 ≤ b.capacity
  rate : 0 < b.refillPerSec
  nonneg : 0 ≤ b.tokens
  le : b.tokens ≤ b.capacity
  past : b.lastRefill.nanos ≤ now.nanos

namespace TokenBucket

variable {b : TokenBucket} {now : DateTime}

theorem numMilliseconds_bounds {since now : DateTime} (h : since.nanos ≤ now.nanos) :
    0 ≤ numMilliseconds since now ∧
      numMilliseconds since now * 1000000 ≤ now.nanos-since.nanos := by
  unfold numMilliseconds
  rw [Int.tdiv_eq_ediv_of_nonneg (by omega)]
  omega

theorem Fits.refill_eq (h : b.Fits now) : b.refill now = { b with
      tokens := min (b.tokens+numMilliseconds b.lastRefill now / 1000 * b.refillPerSec) b.capacity
      lastRefill := now } := by
  unfold refill
  dsimp only
  split
  · have hpast := h.past
    have hnow : b.lastRefill = now := DateTime.ext (by omega)
    have hzero : numMilliseconds b.lastRefill now = 0 := by simp [numMilliseconds, hnow]
    rw [hzero]
    simp [min_eq_left h.le, ← hnow]
  · rfl

theorem Fits.mono (h : b.Fits now) {later : DateTime} (hle : now.nanos ≤ later.nanos) :
    b.Fits later := { h with past := h.past.trans hle }

theorem Fits.gained (h : b.Fits now) :
    0 ≤ (numMilliseconds b.lastRefill now / 1000 * b.refillPerSec : ℚ) ∧
      (numMilliseconds b.lastRefill now / 1000 * b.refillPerSec : ℚ)
        ≤ b.refillPerSec * (now.nanos-b.lastRefill.nanos) / 1000000000 := by
  obtain ⟨hnonneg, hle⟩ := numMilliseconds_bounds h.past
  have hrate := h.rate
  have hms : (0 : ℚ) ≤ numMilliseconds b.lastRefill now := by exact_mod_cast hnonneg
  have hms' : (numMilliseconds b.lastRefill now : ℚ) * 1000000
      ≤ now.nanos-b.lastRefill.nanos := by exact_mod_cast hle
  constructor
  · positivity
  · have hscaled := mul_le_mul_of_nonneg_left hms' hrate.le
    linarith

theorem Fits.refill (h : b.Fits now) :
    (b.refill now).Fits now ∧ (b.refill now).lastRefill = now := by
  rw [h.refill_eq]
  have hgained := h.gained.1
  have hnonneg := h.nonneg
  have hfull : (0 : ℚ) ≤ b.capacity := Nat.cast_nonneg b.capacity
  exact ⟨⟨h.cap, h.rate, le_min (by linarith) hfull, min_le_right _ _, le_refl _⟩, rfl⟩

theorem tryAcquire_cases (b : TokenBucket) (now : DateTime) :
    1 ≤ (b.refill now).tokens ∧
        b.tryAcquire now = ({ b.refill now with tokens := (b.refill now).tokens-1 }, .ok ()) ∨
      (b.refill now).tokens < 1 ∧
        b.tryAcquire now = (b.refill now, .error (b.refill now).retryAfterMs) := by
  by_cases h : (b.refill now).tokens ≥ 1
  · exact .inl ⟨h, if_pos h⟩
  · exact .inr ⟨not_le.mp h, if_neg h⟩

theorem tryAcquire_ok_iff (b : TokenBucket) (now : DateTime) :
    (b.tryAcquire now).2 = .ok () ↔ 1 ≤ (b.refill now).tokens := by
  rcases b.tryAcquire_cases now with ⟨hle, heq⟩ | ⟨hlt, heq⟩
  · simp [heq, hle]
  · simp [heq, not_le.mpr hlt]

theorem Fits.tryAcquire (h : b.Fits now) : (b.tryAcquire now).1.Fits now ∧
    (b.tryAcquire now).1.lastRefill = now ∧ (b.tryAcquire now).1.refillPerSec = b.refillPerSec ∧
    (b.tryAcquire now).1.capacity = b.capacity := by
  obtain ⟨hfits, hlast⟩ := h.refill
  have hsame : (b.refill now).refillPerSec = b.refillPerSec ∧
      (b.refill now).capacity = b.capacity := by
    rw [h.refill_eq]
    exact ⟨rfl, rfl⟩
  rcases b.tryAcquire_cases now with ⟨hle, heq⟩ | ⟨-, heq⟩
  · rw [heq]
    have hcap := hfits.le
    exact ⟨⟨hfits.cap, hfits.rate, by linarith, by dsimp only; linarith, hfits.past⟩, hlast, hsame⟩
  · rw [heq]
    exact ⟨hfits, hlast, hsame⟩

theorem taken_add_left (b : TokenBucket) (now : DateTime) :
    ((if (b.tryAcquire now).2.isOk then 1 else 0 : Nat) : ℚ)+(b.tryAcquire now).1.tokens
      = (b.refill now).tokens := by
  rcases b.tryAcquire_cases now with ⟨-, heq⟩ | ⟨-, heq⟩
  · simp [heq, Except.isOk, Except.toBool]
  · simp [heq, Except.isOk, Except.toBool]

theorem successes_late {a e : Int} {calls : List DateTime} (h : ∀ c ∈ calls, e < c.nanos)
    (b : TokenBucket) : successes a e b calls = 0 := by
  induction calls generalizing b with
  | nil => rfl
  | cons now rest ih =>
    have hnow := h now List.mem_cons_self
    rw [successes, ih fun c hc => h c (List.mem_cons_of_mem now hc), if_neg (by omega)]

theorem Fits.refill_le (h : b.Fits now) : (b.refill now).tokens
    ≤ b.tokens+b.refillPerSec * (now.nanos-b.lastRefill.nanos) / 1000000000 := by
  have hgained := h.gained.2
  rw [h.refill_eq]
  exact (min_le_left _ _).trans (by linarith)

theorem successes_cons_le (a e : Int) (b : TokenBucket) (now : DateTime) (rest : List DateTime) :
    (successes a e b (now :: rest) : ℚ)
      ≤ (b.refill now).tokens-(b.tryAcquire now).1.tokens
        +successes a e (b.tryAcquire now).1 rest := by
  have htaken := b.taken_add_left now
  rw [successes, Nat.cast_add]
  split_ifs at htaken ⊢ with hin hok hok
  · linarith
  · exact absurd hin.2.2 hok
  · push_cast at htaken ⊢
    linarith
  · push_cast at htaken ⊢
    linarith

theorem Fits.room (h : b.Fits now) {e : Int} (he : b.lastRefill.nanos ≤ e) :
    0 ≤ b.tokens+b.refillPerSec * (e-b.lastRefill.nanos) / 1000000000 := by
  have hroom : (0 : ℚ) ≤ e-b.lastRefill.nanos := by
    have : (b.lastRefill.nanos : ℚ) ≤ e := by exact_mod_cast he
    linarith
  have hrate := h.rate
  have hnonneg := h.nonneg
  positivity

theorem pairwise_late {e : Int} {calls : List DateTime}
    (h : (now :: calls).Pairwise (·.nanos ≤ ·.nanos)) (hlate : e < now.nanos) :
    ∀ c ∈ now :: calls, e < c.nanos := by
  intro c hc
  obtain rfl | hc := List.mem_cons.mp hc
  · exact hlate
  · exact hlate.trans_le ((List.pairwise_cons.mp h).1 c hc)

theorem successes_le {a e : Int} {calls : List DateTime} (h : b.Fits b.lastRefill)
    (hcalls : (b.lastRefill :: calls).Pairwise (·.nanos ≤ ·.nanos)) (he : b.lastRefill.nanos ≤ e) :
    (successes a e b calls : ℚ)
      ≤ b.tokens+b.refillPerSec * (e-b.lastRefill.nanos) / 1000000000 := by
  induction calls generalizing b with
  | nil => simpa only [successes, Nat.cast_zero] using h.room he
  | cons now rest ih =>
    obtain ⟨hfirst, hrest⟩ := List.pairwise_cons.mp hcalls
    by_cases hlate : e < now.nanos
    · simpa only [successes_late (pairwise_late hrest hlate) b, Nat.cast_zero] using h.room he
    · have hfits := h.mono (hfirst now List.mem_cons_self)
      obtain ⟨hnext, hlast, hrate, -⟩ := hfits.tryAcquire
      have hcall := successes_cons_le a e b now rest
      have hin := hfits.refill_le
      have hleft := @ih (b.tryAcquire now).1 (by rwa [hlast]) (by rwa [hlast])
        (by rw [hlast]; omega)
      rw [hlast, hrate] at hleft
      linarith

theorem successes_bound {a e : Int} (hae : a ≤ e) {calls : List DateTime}
    (h : b.Fits b.lastRefill) (hcalls : (b.lastRefill :: calls).Pairwise (·.nanos ≤ ·.nanos)) :
    (successes a e b calls : ℚ) ≤ b.capacity+b.refillPerSec * (e-a) / 1000000000 := by
  have hlength : (a : ℚ) ≤ e := by exact_mod_cast hae
  induction calls generalizing b with
  | nil =>
    have hrate := h.rate
    have hroom : (0 : ℚ) ≤ e-a := by linarith
    simp only [successes, Nat.cast_zero]
    positivity
  | cons now rest ih =>
    obtain ⟨hfirst, hrest⟩ := List.pairwise_cons.mp hcalls
    have hfits := h.mono (hfirst now List.mem_cons_self)
    obtain ⟨hnext, hlast, hrate, hcap⟩ := hfits.tryAcquire
    by_cases hearly : now.nanos < a
    · have hleft := @ih (b.tryAcquire now).1 (by rwa [hlast]) (by rwa [hlast])
      rw [hcap, hrate] at hleft
      rw [successes, if_neg (by omega), Nat.zero_add]
      exact hleft
    · by_cases hlate : e < now.nanos
      · have hpos := h.rate
        have hroom : (0 : ℚ) ≤ e-a := by linarith
        rw [successes_late (pairwise_late hrest hlate) b, Nat.cast_zero]
        positivity
      · -- from the first call of the interval on, what it has left and what comes in
        have hstart : (a : ℚ) ≤ now.nanos := by exact_mod_cast not_lt.mp hearly
        have hcall := successes_cons_le a e b now rest
        have hleft := @successes_le (b.tryAcquire now).1 a e rest (by rwa [hlast]) (by rwa [hlast])
          (by rw [hlast]; omega)
        rw [hlast, hrate] at hleft
        have hfull : (b.refill now).tokens ≤ b.capacity := by
          have hle := hfits.refill.1.le
          rw [hfits.refill_eq] at hle ⊢
          exact hle
        have hscaled := mul_le_mul_of_nonneg_left hstart h.rate.le
        linarith

theorem Fits.refill_tokens_iff (h : b.Fits now) : 1 ≤ (b.refill now).tokens ↔
    1 ≤ b.tokens+numMilliseconds b.lastRefill now / 1000 * b.refillPerSec := by
  have hcap : (1 : ℚ) ≤ b.capacity := by exact_mod_cast h.cap
  rw [h.refill_eq, le_min_iff]
  exact and_iff_left hcap

theorem Fits.refused_tokens (h : b.Fits now) (hrefused : (b.tryAcquire now).2 ≠ .ok ()) :
    (b.tryAcquire now).1.tokens
      = b.tokens+numMilliseconds b.lastRefill now / 1000 * b.refillPerSec := by
  have hcap : (1 : ℚ) ≤ b.capacity := by exact_mod_cast h.cap
  have hshort := mt h.refill_tokens_iff.mpr (mt (tryAcquire_ok_iff b now).mpr hrefused)
  rw [not_le] at hshort
  rcases b.tryAcquire_cases now with ⟨-, heq⟩ | ⟨-, heq⟩
  · rw [heq] at hrefused
    exact absurd rfl hrefused
  · rw [heq, h.refill_eq]
    exact min_eq_left (by linarith)

theorem served_iff {polls : List DateTime} {next : DateTime} (h : b.Fits b.lastRefill)
    (hcalls : (b.lastRefill :: (polls ++ [next])).Pairwise (·.nanos ≤ ·.nanos))
    (hrefused : AllRefused b polls) :
    ((b.after polls).tryAcquire next).2 = .ok () ↔
      1 ≤ b.tokens+wholeMillis b.lastRefill (polls ++ [next]) / 1000 * b.refillPerSec := by
  induction polls generalizing b with
  | nil =>
    obtain ⟨hfirst, -⟩ := List.pairwise_cons.mp hcalls
    have hfits := h.mono (hfirst next List.mem_cons_self)
    rw [after, List.foldl_nil, tryAcquire_ok_iff, hfits.refill_tokens_iff]
    simp [wholeMillis]
  | cons now rest ih =>
    obtain ⟨hfirst, hrest⟩ := List.pairwise_cons.mp hcalls
    obtain ⟨hnow, hothers⟩ := hrefused
    have hfits := h.mono (hfirst now List.mem_cons_self)
    obtain ⟨hnext, hlast, hrate, -⟩ := hfits.tryAcquire
    have hserved := @ih (b.tryAcquire now).1 (by rwa [hlast]) (by rw [hlast]; exact hrest) hothers
    rw [hlast, hrate, hfits.refused_tokens hnow] at hserved
    rw [after, List.foldl_cons]
    refine hserved.trans ?_
    rw [List.cons_append, wholeMillis, Int.cast_add]
    constructor <;> intro hle <;> linarith

theorem wholeMillis_le {since next : DateTime} {polls : List DateTime}
    (h : (since :: (polls ++ [next])).Pairwise (·.nanos ≤ ·.nanos)) :
    wholeMillis since (polls ++ [next]) * 1000000 ≤ next.nanos-since.nanos := by
  induction polls generalizing since with
  | nil =>
    have hms := (numMilliseconds_bounds ((List.pairwise_cons.mp h).1 next (by simp))).2
    simpa [wholeMillis] using hms
  | cons now rest ih =>
    obtain ⟨hfirst, hrest⟩ := List.pairwise_cons.mp h
    have hms := (numMilliseconds_bounds (hfirst now List.mem_cons_self)).2
    have hleft := ih hrest
    rw [List.cons_append, wholeMillis]
    omega

/-- No wait that the calendar has room for is cut to a `u64`. -/
theorem retryAfterMs_le_iff (hrate : 0 < b.refillPerSec) (hshort : b.tokens < 1) {millis : Int}
    (hroom : millis < 18446744073709551615) :
    (b.retryAfterMs : Int) ≤ millis ↔ 1 ≤ b.tokens+millis / 1000 * b.refillPerSec := by
  have hpos : 0 < (1-b.tokens) / b.refillPerSec * 1000 := by
    have hdeficit : 0 < 1-b.tokens := by linarith
    positivity
  have hceil : 0 < ⌈(1-b.tokens) / b.refillPerSec * 1000⌉ := Int.ceil_pos.mpr hpos
  have hwait : (b.retryAfterMs : Int) ≤ millis ↔
      ⌈(1-b.tokens) / b.refillPerSec * 1000⌉ ≤ millis := by
    unfold retryAfterMs
    dsimp only
    omega
  rw [hwait, Int.ceil_le, ← le_div_iff₀ (by norm_num), div_le_iff₀ hrate]
  constructor <;> intro hle <;> linarith

theorem new_fits {capacity : Nat} {rate : ℚ} (hcap : 1 ≤ capacity) (hrate : 0 < rate)
    (start : DateTime) : (new capacity rate start).Fits start :=
  ⟨hcap, hrate, Nat.cast_nonneg capacity, le_refl _, le_refl _⟩

theorem Fits.after {before rest : List DateTime} (h : b.Fits b.lastRefill)
    (hcalls : (b.lastRefill :: (before ++ rest)).Pairwise (·.nanos ≤ ·.nanos)) :
    (b.after before).Fits (b.after before).lastRefill ∧
      ((b.after before).lastRefill :: rest).Pairwise (·.nanos ≤ ·.nanos) := by
  induction before generalizing b with
  | nil => exact ⟨h, hcalls⟩
  | cons now before ih =>
    obtain ⟨hfirst, hrest⟩ := List.pairwise_cons.mp hcalls
    obtain ⟨hnext, hlast, -, -⟩ := (h.mono (hfirst now List.mem_cons_self)).tryAcquire
    exact @ih (b.tryAcquire now).1 (by rwa [hlast]) (by rwa [hlast])

theorem after_append (b : TokenBucket) (before calls : List DateTime) :
    b.after (before ++ calls) = (b.after before).after calls := List.foldl_append

/-- In any interval what succeeds is the capacity and what comes in, and a call after the wait that
a refusal told succeeds just where the whole milliseconds between the calls add up to the wait. -/
theorem polling_served_iff (capacity : Nat) (hcap : 1 ≤ capacity) (rate : ℚ) (hrate : 0 < rate)
    (start : DateTime) (calls : List DateTime)
    (hcalls : (start :: calls).Pairwise (·.nanos ≤ ·.nanos)) :
    (∀ a e : Int, a ≤ e → (successes a e (new capacity rate start) calls : ℚ)
      ≤ capacity+rate * (e-a) / 1000000000) ∧
    (Served (new capacity rate start) calls ↔ Repaid (new capacity rate start) calls) := by
  have hnew := new_fits hcap hrate start
  constructor
  · intro a e hae
    exact successes_bound hae hnew hcalls
  · -- both sides speak of the same calls, and at each of them agree
    have hsame : ∀ before at₀ wait polls next rest, calls = before ++ at₀ :: polls ++ next :: rest →
        Polled ((new capacity rate start).after before) at₀ wait polls next →
        ((((new capacity rate start).after (before ++ at₀ :: polls)).tryAcquire next).2 = .ok () ↔
          (wait : Int) ≤ wholeMillis at₀ (polls ++ [next])) := by
      intro before at₀ wait polls next rest hsplit hpolled
      subst hsplit
      rw [List.append_assoc] at hcalls
      obtain ⟨hfits, hsorted⟩ := @Fits.after (new capacity rate start) before _ hnew hcalls
      rw [after_append]
      generalize (new capacity rate start).after before = b at hpolled hfits hsorted ⊢
      obtain ⟨hfirst, hlater⟩ := List.pairwise_cons.mp hsorted
      have hnow := hfits.mono (hfirst at₀ (by simp))
      obtain ⟨hnext, hlast, -, -⟩ := hnow.tryAcquire
      have hfew : (at₀ :: (polls ++ [next])).Pairwise (·.nanos ≤ ·.nanos) :=
        hlater.sublist (by simp)
      rw [after, List.foldl_cons]
      refine (served_iff (by rwa [hlast]) (by rwa [hlast]) hpolled.polls).trans ?_
      obtain ⟨-, heq⟩ | ⟨hshort, heq⟩ := b.tryAcquire_cases at₀
      · have hrefused := hpolled.refused
        rw [heq] at hrefused
        cases hrefused
      · have hrefused := hpolled.refused
        rw [heq] at hrefused hlast ⊢
        rw [← Except.error.inj hrefused, hlast]
        have hlong := wholeMillis_le hfew
        have hend := next.upper
        have hbegin := at₀.lower
        exact (retryAfterMs_le_iff hnow.refill.1.rate hshort (by omega)).symm
    constructor
    · intro hserved before at₀ wait polls next rest hsplit hpolled
      exact (hsame before at₀ wait polls next rest hsplit hpolled).mp
        (hserved before at₀ wait polls next rest hsplit hpolled)
    · intro hrepaid before at₀ wait polls next rest hsplit hpolled
      exact (hsame before at₀ wait polls next rest hsplit hpolled).mpr
        (hrepaid before at₀ wait polls next rest hsplit hpolled)

def sampleStart : DateTime := ⟨0, by decide, by decide⟩

def samplePoll : DateTime := ⟨900000, by decide, by decide⟩

def sampleNext : DateTime := ⟨1000000000, by decide, by decide⟩

def sampleHalf : DateTime := ⟨500000000, by decide, by decide⟩

/-- A refusal at once, which names a second, one after half of it, and the call that is served. -/
def sampleCalls : List DateTime := [sampleStart, sampleStart, sampleHalf, sampleNext]

theorem polling_served_iff_sample :
    (successes 0 1000000000 (new 1 1 sampleStart) sampleCalls : ℚ)
        ≤ (1 : Nat)+1 * (((1000000000 : Int) : ℚ)-(0 : Int)) / 1000000000 ∧
      (((new 1 1 sampleStart).after [sampleStart]).tryAcquire sampleStart).2 = .error 1000 ∧
      (((new 1 1 sampleStart).after [sampleStart, sampleStart, sampleHalf]).tryAcquire
        sampleNext).2 = .ok () := by
  have hrefused : (((new 1 1 sampleStart).after [sampleStart]).tryAcquire sampleStart).2
      = .error 1000 := by decide +kernel
  have hserves : ((new 1 1 sampleStart).tryAcquire sampleStart).2 = .ok () := by decide +kernel
  have hhalf : (((new 1 1 sampleStart).after [sampleStart, sampleStart]).tryAcquire
      sampleHalf).2 = .error 500 := by decide +kernel
  have hpolls : AllRefused (((new 1 1 sampleStart).after [sampleStart]).tryAcquire sampleStart).1
      [sampleHalf] := ⟨by decide +kernel, trivial⟩
  obtain ⟨hbound, hserved⟩ := polling_served_iff 1 (le_refl 1) 1 one_pos sampleStart sampleCalls
    (by decide)
  refine ⟨hbound 0 1000000000 (by decide), hrefused, ?_⟩
  refine hserved.mpr ?_ [sampleStart] sampleStart 1000 [sampleHalf] sampleNext [] rfl
    ⟨hrefused, hpolls, by decide⟩
  intro before at₀ wait polls next rest hsplit hpolled
  have hone := hpolled.refused
  have hwaited := hpolled.waited
  rcases before with _ | ⟨a, _ | ⟨b, _ | ⟨c, before⟩⟩⟩
  · have hfirst := (List.cons.inj hsplit).1
    rw [← hfirst] at hone
    cases hserves.symm.trans hone
  · rcases polls with _ | ⟨p, _ | ⟨q, polls⟩⟩ <;> simp [sampleCalls] at hsplit
    · obtain ⟨rfl, rfl, rfl, -⟩ := hsplit
      obtain rfl := Except.error.inj (hrefused.symm.trans hone)
      exact absurd hwaited (by decide)
    · obtain ⟨rfl, rfl, rfl, rfl, -⟩ := hsplit
      obtain rfl := Except.error.inj (hrefused.symm.trans hone)
      decide
  · rcases polls with _ | ⟨p, polls⟩ <;> simp [sampleCalls] at hsplit
    obtain ⟨rfl, rfl, rfl, rfl, -⟩ := hsplit
    obtain rfl := Except.error.inj (hhalf.symm.trans hone)
    decide
  · have hlength := congrArg List.length hsplit
    simp [sampleCalls] at hlength
    omega

theorem polled_call_starves : ¬ (∀ (capacity : Nat) (rate : ℚ) (start : DateTime)
    (calls : List DateTime), 1 ≤ capacity → 0 < rate →
    (start :: calls).Pairwise (·.nanos ≤ ·.nanos) →
    (∀ a e : Int, a ≤ e → (successes a e (new capacity rate start) calls : ℚ)
      ≤ capacity+rate * (e-a) / 1000000000) ∧ Served (new capacity rate start) calls) := by
  intro h
  have hserved := (h 1 1 sampleStart [sampleStart, sampleStart, samplePoll, sampleNext] (by decide)
    (by decide) (by decide)).2
  have hrefused : (((new 1 1 sampleStart).after [sampleStart]).tryAcquire sampleStart).2
      = .error 1000 := by decide +kernel
  have hpolls : AllRefused (((new 1 1 sampleStart).after [sampleStart]).tryAcquire sampleStart).1
      [samplePoll] := ⟨by decide +kernel, trivial⟩
  have hok := hserved [sampleStart] sampleStart 1000 [samplePoll] sampleNext [] rfl
    ⟨hrefused, hpolls, by decide⟩
  have hlate : (((new 1 1 sampleStart).after [sampleStart, sampleStart, samplePoll]).tryAcquire
      sampleNext).2 ≠ .ok () := by decide +kernel
  exact hlate hok

end TokenBucket

end Knowledge.Runtime.SynthesisRate
