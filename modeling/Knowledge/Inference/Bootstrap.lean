import Knowledge.Lib.Concurrent

/-!
`crates/inference_router/src/router.rs`: the lazy bootstrap of the inference router. The latch, the
download state, the completion signal and the join handle are separate cells, and the callers and
the threads they spawn touch one of them at a time.
-/

set_option autoImplicit false

namespace Knowledge.Inference
open Knowledge.Concurrent
open Knowledge.Tally
open Knowledge.Transition

inductive ModelDownloadState where
  | idle
  | inProgress (pct : Nat)
  | complete
  | failed (message : String)

open ModelDownloadState

namespace ModelDownloadState

def isInProgress : ModelDownloadState → Bool
  | inProgress _ => true
  | _ => false

def isFailed : ModelDownloadState → Bool
  | failed _ => true
  | _ => false

end ModelDownloadState

/-- Where a bootstrap thread is: before it has looked for the weights, about to clear a download
that is not needed, about to announce one, in it, probing, about to notify, and gone. -/
inductive ThreadPhase where
  | started
  | clearing
  | announcing
  | downloading
  | probing
  | probed
  | finished
  deriving DecidableEq

namespace ThreadPhase

def running : ThreadPhase → Bool
  | finished => false
  | _ => true

def fetching : ThreadPhase → Bool
  | started | clearing | announcing | downloading => true
  | _ => false

end ThreadPhase

/-- The cells of the router, and the threads that were ever spawned. -/
structure InferenceRouter where
  bootstrapStarted : Bool
  downloadState : ModelDownloadState
  bootstrapped : Bool
  bootstrapSignal : Bool
  bootstrapHandle : Option Nat
  threads : List ThreadPhase

open InferenceRouter

def InferenceRouter.new : InferenceRouter := ⟨false, .idle, false, false, none, []⟩

def InferenceRouter.running (r : InferenceRouter) (n : Nat) : Bool :=
  r.threads[n]?.any ThreadPhase.running

/-- What a thread meets at its next step: whether the weights are on disk; a tick, the end or the
failure of the download; whether a probe panics. -/
inductive Happening where
  | weights (present : Bool)
  | progress (downloaded total : Nat)
  | downloaded
  | failed (message : String)
  | probe (panics : Bool)
  deriving DecidableEq

def progressPct (downloaded total : Nat) : Nat :=
  if total = 0 then 0 else min (downloaded*100/total) 100

/-- One step of the thread: `ensure_model_present`, then the probes of `bootstrap`, then the
notification. What does not concern the phase is not a step. -/
def threadStep (source : Bool) (r : InferenceRouter) :
    ThreadPhase → Happening → InferenceRouter × ThreadPhase
  | .started, .weights present =>
    if present then (r, .clearing) else if !source then (r, .probing) else (r, .announcing)
  | .clearing, _ =>
    if r.downloadState.isInProgress then ({ r with downloadState := .idle }, .probing)
    else (r, .probing)
  | .announcing, _ => ({ r with downloadState := .inProgress 0 }, .downloading)
  | .downloading, .progress downloaded total =>
    ({ r with downloadState := .inProgress (progressPct downloaded total) }, .downloading)
  | .downloading, .downloaded => ({ r with downloadState := .complete }, .probing)
  | .downloading, .failed message => ({ r with downloadState := .failed message }, .probing)
  | .probing, .probe panics =>
    if panics then (r, .probed) else ({ r with bootstrapped := true }, .probed)
  | .probed, _ => ({ r with bootstrapSignal := true }, .finished)
  | phase, _ => (r, phase)

def InferenceRouter.advanceThread (source : Bool) (r : InferenceRouter) (n : Nat)
    (happening : Happening) : InferenceRouter :=
  match r.threads[n]? with
  | none => r
  | some p => { (threadStep source r p happening).1 with
      threads := r.threads.set n (threadStep source r p happening).2 }

inductive Call where
  | ensureBootstrapStarted
  | resetModelDownloadForRetry
  | waitForBootstrap
  | shutdown
  deriving DecidableEq

/-- Where a call is. An `ensure_bootstrap_started` that has won the latch looks for the weights,
publishes the download, reaps the old thread as `shutdown` does, resets the signal, spawns and
stores the handle. -/
inductive Phase where
  | called
  | latched
  | publishing
  | reaping
  | joining (n : Nat)
  | resetting
  | spawning
  | storing (n : Nat)
  | returned
  deriving DecidableEq

/-- The answer is whether the weights are on disk, where the step asks. A step that blocks leaves
everything as it is. -/
def step (source : Bool) (r : InferenceRouter) : Call → Phase → Bool → InferenceRouter × Phase
  | .ensureBootstrapStarted, .called, _ =>
    if r.bootstrapStarted then (r, .returned) else ({ r with bootstrapStarted := true }, .latched)
  | .ensureBootstrapStarted, .latched, present =>
    if source && !present then (r, .publishing) else (r, .reaping)
  | .ensureBootstrapStarted, .publishing, _ =>
    ({ r with downloadState := .inProgress 0 }, .reaping)
  | .ensureBootstrapStarted, .reaping, _ =>
    match r.bootstrapHandle with
    | none => (r, .resetting)
    | some n => ({ r with bootstrapHandle := none }, .joining n)
  | .ensureBootstrapStarted, .joining n, _ =>
    if r.threads[n]? = some .finished then (r, .resetting) else (r, .joining n)
  | .ensureBootstrapStarted, .resetting, _ =>
    ({ r with bootstrapped := false, bootstrapSignal := false }, .spawning)
  | .ensureBootstrapStarted, .spawning, _ =>
    ({ r with threads := r.threads ++ [.started] }, .storing r.threads.length)
  | .ensureBootstrapStarted, .storing n, _ => ({ r with bootstrapHandle := some n }, .returned)
  | .resetModelDownloadForRetry, .called, _ =>
    if r.downloadState.isFailed then
      ({ r with downloadState := .idle, bootstrapStarted := false }, .returned)
    else (r, .returned)
  | .waitForBootstrap, .called, _ =>
    if r.bootstrapSignal then (r, .returned) else (r, .called)
  | .shutdown, .called, _ =>
    match r.bootstrapHandle with
    | none => (r, .returned)
    | some n => ({ r with bootstrapHandle := none }, .joining n)
  | .shutdown, .joining n, _ =>
    if r.threads[n]? = some .finished then (r, .returned) else (r, .joining n)
  | _, phase, _ => (r, phase)

def router (source : Bool) : Code InferenceRouter Call Phase Bool (Nat × Happening) where
  first _ := .called
  step := step source
  act r e := r.advanceThread source e.1 e.2

def system (source : Bool) :
    System (Pool InferenceRouter Call Phase) (Event Call Bool (Nat × Happening)) :=
  (router source).system (· = .new) fun _ _ => True

def spawns : Call → Phase → Bool
  | .ensureBootstrapStarted, .called | .ensureBootstrapStarted, .storing _
  | .ensureBootstrapStarted, .returned => false
  | .ensureBootstrapStarted, _ => true
  | _, _ => false

def ensuring (t : Pool InferenceRouter Call Phase) : Bool :=
  t.calls.any fun e => e.1 = .ensureBootstrapStarted && e.2 ≠ .returned

def shuttingDown (t : Pool InferenceRouter Call Phase) : Bool :=
  t.calls.any fun e => e.1 = .shutdown && e.2 ≠ .called && e.2 ≠ .returned

def callsEnsure : Event Call Bool (Nat × Happening) → Bool
  | .call .ensureBootstrapStarted => true
  | _ => false

/-- Every thread that is running can be joined through the handle that is stored. -/
def InferenceRouter.Covered (r : InferenceRouter) : Prop :=
  ∀ n, r.running n = true → r.bootstrapHandle = some n

theorem running_lt {r : InferenceRouter} {n : Nat} (h : r.running n = true) :
    n < r.threads.length := by
  by_contra hn
  rw [running, List.getElem?_eq_none (by omega)] at h
  cases h

instance (r : InferenceRouter) : Decidable r.Covered :=
  decidable_of_iff (∀ n < r.threads.length, r.running n = true → r.bootstrapHandle = some n)
    ⟨fun h n hn => h n (running_lt hn) hn, fun h n _ hn => h n hn⟩

/-- A call that takes the stored handle finds every running thread in it; a `shutdown` may also
find it empty while an `ensure_bootstrap_started` is in progress. No thread is spawned while a
`shutdown` waits for another one. -/
def OrderlyStep (t : Pool InferenceRouter Call Phase) : Call → Phase → Prop
  | .ensureBootstrapStarted, .reaping => t.shared.Covered
  | .ensureBootstrapStarted, .spawning => shuttingDown t = false
  | .shutdown, .called =>
    t.shared.Covered ∨ t.shared.bootstrapHandle = none ∧ ensuring t = true
  | _, _ => True

instance (t : Pool InferenceRouter Call Phase) (c : Call) (p : Phase) :
    Decidable (OrderlyStep t c p) := by
  unfold OrderlyStep
  split <;> infer_instance

def Orderly (t : Pool InferenceRouter Call Phase) : Event Call Bool (Nat × Happening) → Prop
  | .advance i _ => ∀ e ∈ t.calls[i]?, OrderlyStep t e.1 e.2
  | _ => True

instance (t : Pool InferenceRouter Call Phase) (event : Event Call Bool (Nat × Happening)) :
    Decidable (Orderly t event) := by
  unfold Orderly
  split <;> infer_instance

def ShutdownReturns (source : Bool) (t : Pool InferenceRouter Call Phase) (i : Nat)
    (present : Bool) : Prop :=
  ∃ p, t.calls[i]? = some (.shutdown, p) ∧ p ≠ .returned ∧
    (step source t.shared .shutdown p present).2 = .returned

/-- The callers that are about to spawn and the threads that have not done fetching yet. -/
def early (t : Pool InferenceRouter Call Phase) : Nat :=
  t.calls.countP (fun e => spawns e.1 e.2)+t.shared.threads.countP ThreadPhase.fetching

/-- There is at most one of them: the latch is theirs, until a download fails. -/
structure Token (t : Pool InferenceRouter Call Phase) : Prop where
  one : early t ≤ 1
  latch : t.shared.bootstrapStarted = false → early t = 0 ∧
    t.shared.downloadState.isInProgress = false ∧ t.shared.downloadState.isFailed = false
  failed : t.shared.downloadState.isFailed = true → early t = 0
  progress : t.shared.downloadState.isInProgress = true → early t = 1

section

variable {source : Bool}

/-- Without a source nothing is ever downloaded. -/
def Sourced (source : Bool) (r : InferenceRouter) : Prop :=
  source = false → r.downloadState = .idle ∧
    ∀ p ∈ r.threads, p ≠ .announcing ∧ p ≠ .downloading

theorem Sourced.thread {r : InferenceRouter} (h : Sourced source r) (n : Nat)
    (happening : Happening) : Sourced source (r.advanceThread source n happening) := by
  intro hsource
  obtain ⟨hidle, hthreads⟩ := h hsource
  subst hsource
  cases hn : r.threads[n]? with
  | none => simpa only [advanceThread, hn] using ⟨hidle, hthreads⟩
  | some p =>
    have hp := hthreads p (List.mem_of_getElem? hn)
    have hstep : (threadStep false r p happening).1.downloadState = .idle ∧
        (threadStep false r p happening).2 ≠ .announcing ∧
        (threadStep false r p happening).2 ≠ .downloading := by
      fun_cases threadStep false r p happening
      all_goals simp_all
    simp only [advanceThread, hn]
    exact ⟨hstep.1, forall_mem_set hthreads hstep.2⟩

theorem Sourced.step {r : InferenceRouter} (h : Sourced source r) (c : Call) (p : Phase)
    (present : Bool) (hp : source = false → p ≠ .publishing) :
    Sourced source (step source r c p present).1 ∧
      (source = false → (Inference.step source r c p present).2 ≠ .publishing) := by
  cases source with
  | true => simp [Sourced]
  | false =>
    obtain ⟨hidle, hthreads⟩ := h rfl
    have hne := hp rfl
    fun_cases Inference.step false r c p present
    case case11 =>
      refine ⟨fun _ => ⟨hidle, fun q hq => ?_⟩, by simp⟩
      obtain hq | hq := List.mem_append.mp hq
      · exact hthreads q hq
      · simp_all
    all_goals simp_all [Sourced]

theorem sourced {t : Pool InferenceRouter Call Phase} (h : (system source).Reachable t) :
    Sourced source t.shared := by
  have h' : ((system source).restrict (Code.Each fun _ _ _ _ => True)).Reachable t :=
    h.restrict_of fun _ event _ => by cases event <;> simp [Code.Each]
  refine (Code.invariant (Sourced source) (fun _ _ p => source = false → p ≠ .publishing)
    ?_ ?_ ?_ ?_ ?_ h').1
  · intro r hr _
    subst hr
    simp [new]
  · simp [router]
  · intro r c p present hr hp _
    exact hr.step c p present hp
  · intro r c p present d q _ _ hq _
    exact hq
  · intro t e _ hr
    exact ⟨hr.thread e.1 e.2, fun _ _ _ hq => hq⟩

@[simp] theorem spawns_called (c : Call) : spawns c .called = false := by
  cases c <;> rfl

theorem early_call (t : Pool InferenceRouter Call Phase) (c : Call) :
    early { t with calls := t.calls ++ [(c, .called)] } = early t := by
  simp [early]

theorem early_advance {t : Pool InferenceRouter Call Phase} {i : Nat} {c : Call} {p : Phase}
    (h : t.calls[i]? = some (c, p)) (p' : Phase) (r : InferenceRouter) :
    early ⟨r, t.calls.set i (c, p')⟩+(spawns c p).toNat+
        t.shared.threads.countP ThreadPhase.fetching =
      early t+(spawns c p').toNat+r.threads.countP ThreadPhase.fetching := by
  have := countP_set_add (fun e : Call × Phase => spawns e.1 e.2) h (c, p')
  simp only [early] at *
  omega

theorem early_thread {t : Pool InferenceRouter Call Phase} {n : Nat} {p : ThreadPhase}
    (h : t.shared.threads[n]? = some p) (p' : ThreadPhase) (r : InferenceRouter) :
    early { t with shared := { r with threads := t.shared.threads.set n p' } }+
        p.fetching.toNat = early t+p'.fetching.toNat := by
  have := countP_set_add ThreadPhase.fetching h p'
  simp only [early] at *
  omega

theorem Token.congr {t t' : Pool InferenceRouter Call Phase} (h : Token t)
    (hearly : early t' = early t) (hlatch : t'.shared.bootstrapStarted = t.shared.bootstrapStarted)
    (hstate : t'.shared.downloadState = t.shared.downloadState) : Token t' := by
  obtain ⟨hone, hl, hf, hp⟩ := h
  exact ⟨by rwa [hearly], by rwa [hearly, hlatch, hstate], by rwa [hearly, hstate],
    by rwa [hearly, hstate]⟩

theorem Token.latched {t : Pool InferenceRouter Call Phase} (h : Token t)
    (hearly : 0 < early t) : t.shared.bootstrapStarted = true := by
  by_contra hl
  have := (h.latch (Bool.not_eq_true _ ▸ hl)).1
  omega

theorem early_pos_of_spawns {t : Pool InferenceRouter Call Phase} {i : Nat} {c : Call} {p : Phase}
    (h : t.calls[i]? = some (c, p)) (hs : spawns c p = true) : 0 < early t := by
  have := countP_pos_of_getElem? (p := fun e : Call × Phase => spawns e.1 e.2) h hs
  simp only [early]
  omega

theorem early_pos_of_fetching {t : Pool InferenceRouter Call Phase} {n : Nat} {p : ThreadPhase}
    (h : t.shared.threads[n]? = some p) (hs : p.fetching = true) : 0 < early t := by
  have := countP_pos_of_getElem? h hs
  simp only [early]
  omega

theorem Token.announce {t t' : Pool InferenceRouter Call Phase} (h : Token t) {pct : Nat}
    (hpos : 0 < early t) (hearly : early t' = early t)
    (hlatch : t'.shared.bootstrapStarted = t.shared.bootstrapStarted)
    (hstate : t'.shared.downloadState = .inProgress pct) : Token t' := by
  have hone := h.one
  have hl := h.latched hpos
  refine ⟨by omega, fun hl' => ?_, fun hf => ?_, fun _ => by omega⟩
  · rw [hlatch, hl] at hl'
    cases hl'
  · rw [hstate] at hf
    cases hf

theorem Token.settle {t t' : Pool InferenceRouter Call Phase} (h : Token t)
    (hpos : 0 < early t) (hearly : early t'+1 = early t)
    (hlatch : t'.shared.bootstrapStarted = t.shared.bootstrapStarted)
    (hstate : t'.shared.downloadState.isInProgress = false) : Token t' := by
  have hone := h.one
  have hl := h.latched hpos
  refine ⟨by omega, fun hl' => ?_, fun hf => by omega, fun hp => ?_⟩
  · rw [hlatch, hl] at hl'
    cases hl'
  · rw [hstate] at hp
    cases hp

theorem threadStep_cases {r : InferenceRouter} (hsourced : Sourced source r) (p : ThreadPhase)
    (happening : Happening) :
    (threadStep source r p happening).1.bootstrapStarted = r.bootstrapStarted ∧
    ((threadStep source r p happening).1.downloadState = r.downloadState ∧
        (threadStep source r p happening).2.fetching = p.fetching ∨
      p.fetching = true ∧ (threadStep source r p happening).2.fetching = true ∧
        (∃ pct, (threadStep source r p happening).1.downloadState = .inProgress pct) ∨
      p.fetching = true ∧ (threadStep source r p happening).2.fetching = false ∧
        (threadStep source r p happening).1.downloadState.isInProgress = false) := by
  fun_cases threadStep source r p happening
  all_goals simp_all [ThreadPhase.fetching, isInProgress, Sourced]

theorem Token.thread {t : Pool InferenceRouter Call Phase} (h : Token t)
    (hsourced : Sourced source t.shared) (n : Nat) (happening : Happening) :
    Token { t with shared := t.shared.advanceThread source n happening } := by
  cases hn : t.shared.threads[n]? with
  | none =>
    simp only [advanceThread, hn]
    exact h
  | some p =>
    simp only [advanceThread, hn]
    have hcount := early_thread hn (threadStep source t.shared p happening).2
      (threadStep source t.shared p happening).1
    have hpos : p.fetching = true → 0 < early t := early_pos_of_fetching hn
    obtain ⟨hlatch, ⟨hstate, hfetch⟩ | ⟨hp, hp', pct, hstate⟩ | ⟨hp, hp', hstate⟩⟩ :=
      threadStep_cases hsourced p happening
    · exact h.congr (by rw [hfetch] at hcount; omega) hlatch hstate
    · exact h.announce (hpos hp) (by simpa [hp, hp'] using hcount) hlatch hstate
    · exact h.settle (hpos hp) (by simpa [hp, hp'] using hcount) hlatch hstate

theorem step_token_cases (source : Bool) (r : InferenceRouter) (c : Call) (p : Phase) (present : Bool) :
    ((step source r c p present).1.bootstrapStarted = r.bootstrapStarted ∧
      (step source r c p present).1.downloadState = r.downloadState ∧
      (spawns c (step source r c p present).2).toNat+
        (step source r c p present).1.threads.countP ThreadPhase.fetching =
      (spawns c p).toNat+r.threads.countP ThreadPhase.fetching) ∨
    (step source r c p present).1.threads = r.threads ∧
      (r.bootstrapStarted = false ∧ (step source r c p present).1.bootstrapStarted = true ∧
          (step source r c p present).1.downloadState = r.downloadState ∧ spawns c p = false ∧
          spawns c (step source r c p present).2 = true ∨
        (step source r c p present).1.bootstrapStarted = r.bootstrapStarted ∧
          (step source r c p present).1.downloadState = .inProgress 0 ∧ spawns c p = true ∧
          spawns c (step source r c p present).2 = true ∨
        r.downloadState.isFailed = true ∧
          (step source r c p present).1.downloadState = .idle ∧ spawns c p = false ∧
          spawns c (step source r c p present).2 = false) := by
  fun_cases step source r c p present
  all_goals simp_all [spawns, ThreadPhase.fetching]
  all_goals omega

theorem Token.advance {t : Pool InferenceRouter Call Phase} (h : Token t) {i : Nat} {c : Call}
    {p : Phase} (hi : t.calls[i]? = some (c, p)) (present : Bool) :
    Token ⟨(step source t.shared c p present).1,
      t.calls.set i (c, (step source t.shared c p present).2)⟩ := by
  have hcount := early_advance hi (step source t.shared c p present).2
    (step source t.shared c p present).1
  have hpos : spawns c p = true → 0 < early t := early_pos_of_spawns hi
  obtain ⟨hlatch, hstate, heq⟩ | ⟨hthreads, ⟨hlatch, hlatch', hstate, hp, hp'⟩ |
      ⟨hlatch, hstate, hp, hp'⟩ | ⟨hfailed, hstate, hp, hp'⟩⟩ :=
    step_token_cases source t.shared c p present
  · exact h.congr (by omega) hlatch hstate
  · obtain ⟨hearly, hprogress, hfailed⟩ := h.latch hlatch
    rw [hthreads, hp, hp'] at hcount
    simp only [Bool.toNat_false, Bool.toNat_true] at hcount
    refine ⟨by omega, fun hl => ?_, fun hf => ?_, fun hp => ?_⟩
    · rw [hlatch'] at hl
      cases hl
    · rw [hstate, hfailed] at hf
      cases hf
    · rw [hstate, hprogress] at hp
      cases hp
  · rw [hthreads, hp, hp'] at hcount
    exact h.announce (hpos hp) (by omega) hlatch hstate
  · rw [hthreads, hp, hp'] at hcount
    have hearly := h.failed hfailed
    refine ⟨by omega, fun _ => ?_, fun _ => by omega, fun hp => ?_⟩
    · exact ⟨by omega, by rw [hstate]; rfl, by rw [hstate]; rfl⟩
    · rw [hstate] at hp
      cases hp

theorem Token.next {t : Pool InferenceRouter Call Phase} (h : Token t)
    (hsourced : Sourced source t.shared) (event : Event Call Bool (Nat × Happening)) :
    Token ((router source).next t event) := by
  cases event with
  | call c => exact h.congr (early_call t c) rfl rfl
  | act e => exact h.thread hsourced e.1 e.2
  | advance i present =>
    cases hi : t.calls[i]? with
    | none => rwa [Code.next_advance_none present hi]
    | some e =>
      rw [Code.next_advance present hi]
      exact h.advance hi present

theorem token {t : Pool InferenceRouter Call Phase} (h : (system source).Reachable t) :
    Token t := by
  refine System.Reachable.invariant Token ?_ ?_ h
  · intro t ⟨hr, hcalls⟩
    have hearly : early t = 0 := by simp [early, hcalls, hr, new]
    refine ⟨by omega, fun _ => ⟨hearly, ?_⟩, fun _ => hearly, ?_⟩
    · simp [hr, new, isInProgress, isFailed]
    · simp [hr, new, isInProgress]
  · intro t event t' hr ht ⟨_, ht'⟩
    subst ht'
    exact ht.next (sourced hr) event

def waits : Call → Phase → Option Nat
  | .ensureBootstrapStarted, .joining n | .shutdown, .joining n => some n
  | _, _ => none

def reaped : Call → Phase → Bool
  | .ensureBootstrapStarted, .resetting | .ensureBootstrapStarted, .spawning => true
  | _, _ => false

theorem waits_eq_some {c : Call} {p : Phase} {n : Nat} (h : waits c p = some n) :
    p = .joining n ∧ (c = .ensureBootstrapStarted ∨ c = .shutdown) := by
  revert h
  fun_cases waits c p <;> simp

theorem spawns_of_reaped {c : Call} {p : Phase} (h : reaped c p = true) : spawns c p = true := by
  revert h
  fun_cases reaped c p <;> simp [spawns]

/-- At most one thread runs, it is the one a call waits for, and none runs once a call has reaped
what it found. -/
structure Flight (t : Pool InferenceRouter Call Phase) : Prop where
  one : ∀ n m, t.shared.running n = true → t.shared.running m = true → n = m
  awaited : ∀ (i : Nat) c p n, t.calls[i]? = some (c, p) → waits c p = some n →
    ∀ m, t.shared.running m = true → m = n
  cleared : ∀ (i : Nat) c p, t.calls[i]? = some (c, p) → reaped c p = true →
    ∀ m, t.shared.running m = false

theorem Flight.keep {t : Pool InferenceRouter Call Phase} (h : Flight t) {r : InferenceRouter}
    {i : Nat} {c : Call} {p' : Phase} (hthreads : r.threads = t.shared.threads)
    (hwaits : ∀ n, waits c p' = some n → ∀ m, t.shared.running m = true → m = n)
    (hreaped : reaped c p' = true → ∀ m, t.shared.running m = false) :
    Flight ⟨r, t.calls.set i (c, p')⟩ := by
  have hrunning : ∀ m, r.running m = t.shared.running m := by
    intro m
    rw [running, hthreads]
    rfl
  refine ⟨?_, ?_, ?_⟩
  · intro n m hn hm
    rw [hrunning] at hn hm
    exact h.one n m hn hm
  · intro j d q n hj hq m hm
    rw [hrunning] at hm
    obtain ⟨-, heq⟩ | ⟨hij, hj⟩ := getElem?_set_cases hj
    · obtain ⟨rfl, rfl⟩ := Prod.mk.inj heq
      exact hwaits n hq m hm
    · exact h.awaited j d q n hj hq m hm
  · intro j d q hj hq m
    rw [hrunning]
    obtain ⟨-, heq⟩ | ⟨hij, hj⟩ := getElem?_set_cases hj
    · obtain ⟨rfl, rfl⟩ := Prod.mk.inj heq
      exact hreaped hq m
    · exact h.cleared j d q hj hq m

theorem running_set_finished {r : InferenceRouter} {n m : Nat}
    (h : r.threads[n]? = some .finished) (hm : r.running m = true) : m ≠ n := by
  intro hmn
  subst hmn
  rw [running, h] at hm
  cases hm

theorem Flight.spawn {t : Pool InferenceRouter Call Phase} (h : Flight t) (htoken : Token t)
    {i : Nat} {p' : Phase} (hi : t.calls[i]? = some (.ensureBootstrapStarted, .spawning))
    (hquiet : shuttingDown t = false) (hwaits : waits .ensureBootstrapStarted p' = none)
    (hreaped : reaped .ensureBootstrapStarted p' = false) :
    Flight ⟨{ t.shared with threads := t.shared.threads ++ [.started] },
      t.calls.set i (.ensureBootstrapStarted, p')⟩ := by
  have hnone := h.cleared i _ _ hi rfl
  have hnew : ∀ m, running
      { t.shared with threads := t.shared.threads ++ [.started] } m = true →
      m = t.shared.threads.length := by
    intro m hm
    by_contra hne
    have hm' : m < t.shared.threads.length := by
      have := running_lt hm
      simp only [List.length_append, List.length_singleton] at this
      omega
    rw [running, List.getElem?_append_left hm'] at hm
    have := hnone m
    rw [running, hm] at this
    cases this
  -- the token is with this call, so no other one waits in order to spawn
  have halone : ∀ (j : Nat) d q, i ≠ j → t.calls[j]? = some (d, q) → spawns d q = false := by
    intro j d q hij hj
    by_contra hs
    have := two_le_countP (p := fun e : Call × Phase => spawns e.1 e.2) hi hj hij rfl
      (by simpa using hs)
    have := htoken.one
    simp only [early] at this
    omega
  refine ⟨?_, ?_, ?_⟩
  · intro n m hn hm
    rw [hnew n hn, hnew m hm]
  · intro j d q n hj hq
    obtain ⟨-, heq⟩ | ⟨hij, hj⟩ := getElem?_set_cases hj
    · obtain ⟨rfl, rfl⟩ := Prod.mk.inj heq
      rw [hwaits] at hq
      cases hq
    · have hs := halone j d q hij hj
      have hmem := List.mem_of_getElem? hj
      obtain ⟨rfl, rfl | rfl⟩ := waits_eq_some hq
      · cases hs
      · have hshut := List.any_eq_false.mp hquiet _ hmem
        simp at hshut
  · intro j d q hj hq
    obtain ⟨-, heq⟩ | ⟨hij, hj⟩ := getElem?_set_cases hj
    · obtain ⟨rfl, rfl⟩ := Prod.mk.inj heq
      rw [hreaped] at hq
      cases hq
    · have hs := halone j d q hij hj
      rw [spawns_of_reaped hq] at hs
      cases hs

theorem Flight.advance {t : Pool InferenceRouter Call Phase} (h : Flight t) (htoken : Token t)
    {i : Nat} {c : Call} {p : Phase} (hi : t.calls[i]? = some (c, p))
    (horderly : OrderlyStep t c p) (present : Bool) :
    Flight ⟨(step source t.shared c p present).1,
      t.calls.set i (c, (step source t.shared c p present).2)⟩ := by
  have hcovered : t.shared.Covered → ∀ n, t.shared.bootstrapHandle = some n →
      ∀ m, t.shared.running m = true → m = n := by
    intro hc n hn m hm
    have := hc m hm
    simp_all
  have huncovered : t.shared.Covered → t.shared.bootstrapHandle = none →
      ∀ m, t.shared.running m = false := by
    intro hc hn m
    by_contra hm
    have := hc m (by simpa using hm)
    simp_all
  have hjoined : ∀ n, waits c p = some n → t.shared.threads[n]? = some .finished →
      ∀ m, t.shared.running m = false := by
    intro n hn hfin m
    by_contra hm
    have hm : t.shared.running m = true := by simpa using hm
    exact running_set_finished hfin hm (h.awaited i c p n hi hn m hm)
  have hkeep : ∀ {r p'}, r.threads = t.shared.threads →
      (∀ n, waits c p' = some n → ∀ m, t.shared.running m = true → m = n) →
      (reaped c p' = true → ∀ m, t.shared.running m = false) →
      Flight ⟨r, t.calls.set i (c, p')⟩ := fun {_ _} => h.keep
  cases c with
  | ensureBootstrapStarted =>
    cases p with
    | reaping =>
      cases hhandle : t.shared.bootstrapHandle with
      | none =>
        simp only [step, hhandle]
        exact hkeep rfl (by simp [waits]) fun _ => huncovered horderly hhandle
      | some n =>
        simp only [step, hhandle]
        exact hkeep rfl (by simpa [waits] using hcovered horderly n hhandle) (by simp [reaped])
    | joining n =>
      by_cases hfin : t.shared.threads[n]? = some .finished
      · simp only [step, hfin, if_true]
        exact hkeep rfl (by simp [waits]) fun _ => hjoined n rfl hfin
      · simp only [step, hfin, if_false]
        exact hkeep rfl (h.awaited i _ _ · hi) (by simp [reaped])
    | resetting => exact hkeep rfl (by simp [step, waits]) fun _ => h.cleared i _ _ hi rfl
    | spawning => exact h.spawn htoken hi horderly rfl rfl
    | called =>
      simp only [step]
      split <;> exact hkeep rfl (by simp [waits]) (by simp [reaped])
    | latched =>
      simp only [step]
      split <;> exact hkeep rfl (by simp [waits]) (by simp [reaped])
    | _ => exact hkeep rfl (by simp [step, waits]) (by simp [step, reaped])
  | resetModelDownloadForRetry =>
    cases p with
    | called =>
      simp only [step]
      split <;> exact hkeep rfl (by simp [waits]) (by simp [reaped])
    | _ => exact hkeep rfl (by simp [waits]) (by simp [reaped])
  | waitForBootstrap =>
    cases p with
    | called =>
      simp only [step]
      split <;> exact hkeep rfl (by simp [waits]) (by simp [reaped])
    | _ => exact hkeep rfl (by simp [waits]) (by simp [reaped])
  | shutdown =>
    cases p with
    | called =>
      cases hhandle : t.shared.bootstrapHandle with
      | none =>
        simp only [step, hhandle]
        exact hkeep rfl (by simp [waits]) (by simp [reaped])
      | some n =>
        have hc : t.shared.Covered := by
          simpa [OrderlyStep, hhandle] using horderly
        simp only [step, hhandle]
        exact hkeep rfl (by simpa [waits] using hcovered hc n hhandle) (by simp [reaped])
    | joining n =>
      simp only [step]
      split
      · exact hkeep rfl (by simp [waits]) (by simp [reaped])
      · exact hkeep rfl (h.awaited i _ _ · hi) (by simp [reaped])
    | _ => exact hkeep rfl (by simp [step, waits]) (by simp [reaped])

theorem running_of_thread {r : InferenceRouter} {n m : Nat} {happening : Happening}
    (h : (r.advanceThread source n happening).running m = true) : r.running m = true := by
  unfold advanceThread at h
  split at h
  · exact h
  · rename_i p hp
    rw [running] at h ⊢
    by_cases hnm : n = m
    · subst hnm
      rw [List.getElem?_set_self (List.getElem?_eq_some_iff.mp hp).1] at h
      rw [hp]
      revert h
      cases p <;> simp [ThreadPhase.running, threadStep]
    · rwa [List.getElem?_set_ne hnm] at h

theorem Flight.next {t : Pool InferenceRouter Call Phase} (h : Flight t) (htoken : Token t)
    {event : Event Call Bool (Nat × Happening)} (horderly : Orderly t event) :
    Flight ((router source).next t event) := by
  cases event with
  | call c =>
    have hmem : ∀ (i : Nat) d q, (t.calls ++ [(c, Phase.called)])[i]? = some (d, q) →
        q = .called ∨ t.calls[i]? = some (d, q) := by
      intro i d q hi
      rw [List.getElem?_append] at hi
      split at hi
      · exact .inr hi
      · have := List.mem_singleton.mp (List.mem_of_getElem? hi)
        simp_all
    refine ⟨h.one, fun i d q n hi hq => ?_, fun i d q hi hq => ?_⟩
    · obtain hcalled | hi := hmem i d q hi
      · obtain ⟨hjoin, -⟩ := waits_eq_some hq
        simp [hcalled] at hjoin
      · exact h.awaited i d q n hi hq
    · obtain hcalled | hi := hmem i d q hi
      · rw [hcalled] at hq
        have := spawns_of_reaped hq
        simp at this
      · exact h.cleared i d q hi hq
  | act e =>
    refine ⟨fun n m hn hm => ?_, fun i c p n hi hp m hm => ?_, fun i c p hi hp m => ?_⟩
    · exact h.one n m (running_of_thread hn) (running_of_thread hm)
    · exact h.awaited i c p n hi hp m (running_of_thread hm)
    · by_contra hm
      rw [Bool.not_eq_false] at hm
      have := h.cleared i c p hi hp m
      rw [running_of_thread hm] at this
      cases this
  | advance i present =>
    cases hi : t.calls[i]? with
    | none => rwa [Code.next_advance_none present hi]
    | some e =>
      rw [Code.next_advance present hi]
      exact h.advance htoken hi (horderly e hi) present

theorem flight {t : Pool InferenceRouter Call Phase}
    (h : ((system source).restrict Orderly).Reachable t) : Flight t := by
  refine System.Reachable.invariant Flight ?_ ?_ h
  · intro t ⟨hr, hcalls⟩
    have hnone : ∀ n, t.shared.running n = false := by
      simp [hr, new, running]
    exact ⟨fun n m hn => by simp [hnone] at hn, fun i c p n hi => by simp [hcalls] at hi,
      fun i c p hi => by simp [hcalls] at hi⟩
  · intro t event t' hr ht ⟨⟨_, ht'⟩, horderly⟩
    subst ht'
    exact ht.next (token hr.of_restrict) horderly

/-- No caller is at work on a bootstrap and no thread is. -/
structure AtRest (t : Pool InferenceRouter Call Phase) : Prop where
  idle : ensuring t = false
  running : ∀ n, t.shared.running n = false

theorem Flight.atRest {t : Pool InferenceRouter Call Phase} (h : Flight t) {i : Nat}
    {present : Bool} (horderly : Orderly t (.advance i present))
    (hreturns : ShutdownReturns source t i present)
    (hidle : ensuring ((router source).next t (.advance i present)) = false) :
    AtRest ((router source).next t (.advance i present)) := by
  refine ⟨hidle, fun n => ?_⟩
  obtain ⟨p, hi, hp, hstep⟩ := hreturns
  have ho : OrderlyStep t .shutdown p := horderly _ hi
  have hsame : ((router source).next t (.advance i present)).shared.running n =
      t.shared.running n := by
    rw [Code.next_advance present hi, running, running]
    congr 2
    change (step source t.shared .shutdown p present).1.threads = _
    cases p with
    | called =>
      simp only [step]
      split <;> rfl
    | joining m =>
      simp only [step]
      split <;> rfl
    | _ => rfl
  rw [hsame]
  by_contra hn
  rw [Bool.not_eq_false] at hn
  cases p with
  | called =>
    cases hhandle : t.shared.bootstrapHandle with
    | some m => simp [step, hhandle] at hstep
    | none =>
      obtain hcovered | ⟨-, hensuring⟩ := ho
      · have := hcovered n hn
        simp [hhandle] at this
      · -- the ensure call that is in progress is not the one that returns
        obtain ⟨e, he, hprogress⟩ := List.any_eq_true.mp hensuring
        obtain ⟨j, hj⟩ := List.getElem?_of_mem he
        have hij : i ≠ j := by
          intro hij
          subst hij
          rw [hi] at hj
          obtain rfl := Option.some.inj hj
          simp at hprogress
        have hmem : e ∈ ((router source).next t (.advance i present)).calls := by
          rw [Code.next_advance present hi]
          exact List.mem_of_getElem? (by rw [List.getElem?_set_ne hij]; exact hj)
        have := List.any_eq_false.mp hidle e hmem
        exact this hprogress
  | joining m =>
    by_cases hfin : t.shared.threads[m]? = some .finished
    · exact running_set_finished hfin hn (h.awaited i _ _ m hi rfl n hn)
    · simp [step, hfin] at hstep
  | returned => exact hp rfl
  | _ => simp [step] at hstep

theorem AtRest.next {t : Pool InferenceRouter Call Phase} (h : AtRest t)
    {event : Event Call Bool (Nat × Happening)} (hevent : callsEnsure event = false) :
    AtRest ((router source).next t event) := by
  obtain ⟨hidle, hrunning⟩ := h
  cases event with
  | call c =>
    refine ⟨?_, hrunning⟩
    cases c with
    | ensureBootstrapStarted => cases hevent
    | _ => simpa [ensuring, Code.next] using hidle
  | act e =>
    refine ⟨hidle, fun n => ?_⟩
    by_contra hn
    rw [Bool.not_eq_false] at hn
    have := hrunning n
    rw [running_of_thread hn] at this
    cases this
  | advance i present =>
    cases hi : t.calls[i]? with
    | none =>
      rw [Code.next_advance_none present hi]
      exact ⟨hidle, hrunning⟩
    | some e =>
      obtain ⟨c, p⟩ := e
      rw [Code.next_advance present hi]
      change AtRest ⟨(step source t.shared c p present).1,
        t.calls.set i (c, (step source t.shared c p present).2)⟩
      have hcall := List.any_eq_false.mp hidle _ (List.mem_of_getElem? hi)
      have hstep : (step source t.shared c p present).1.threads = t.shared.threads ∧
          ¬(c = .ensureBootstrapStarted ∧
            (step source t.shared c p present).2 ≠ .returned) := by
        fun_cases step source t.shared c p present
        all_goals simp_all
      refine ⟨List.any_eq_false.mpr (forall_mem_set (List.any_eq_false.mp hidle) ?_), fun n => ?_⟩
      · simpa using hstep.2
      · rw [InferenceRouter.running, hstep.1]
        exact hrunning n

theorem atRest_run {t u : Pool InferenceRouter Call Phase} (h : AtRest t)
    (hu : (((system source).startingAt t).restrict fun _ event =>
      callsEnsure event = false).Reachable u) : AtRest u := by
  refine System.Reachable.invariant AtRest ?_ ?_ hu
  · intro s hs
    rw [hs]
    exact h
  · intro s event s' _ hs ⟨⟨_, hs'⟩, hevent⟩
    subst hs'
    exact hs.next hevent

theorem early_of_pos {t : Pool InferenceRouter Call Phase} (h : 0 < early t) :
    (∃ n, t.shared.running n = true) ∨ ∃ c p, (c, p) ∈ t.calls ∧ spawns c p = true := by
  rw [early] at h
  by_cases hcalls : 0 < t.calls.countP fun e => spawns e.1 e.2
  · obtain ⟨e, he, hs⟩ := List.countP_pos_iff.mp hcalls
    exact .inr ⟨e.1, e.2, he, hs⟩
  · have hthreads : 0 < t.shared.threads.countP ThreadPhase.fetching := by omega
    obtain ⟨p, hp, hfetch⟩ := List.countP_pos_iff.mp hthreads
    obtain ⟨n, hn⟩ := List.getElem?_of_mem hp
    refine .inl ⟨n, ?_⟩
    rw [running, hn]
    revert hfetch
    cases p <;> simp [ThreadPhase.fetching, ThreadPhase.running]

end

/-- A download is in progress only while a thread runs or a caller is about to spawn one, in any
run. In an orderly run no two threads run at once, and once a `shutdown` has returned with no
`ensure_bootstrap_started` in progress, none runs until there is one. -/
theorem bootstrap_single_flight (source : Bool) :
    (∀ t, (system source).Reachable t → t.shared.downloadState.isInProgress = true →
      (∃ n, t.shared.running n = true) ∨ ∃ c p, (c, p) ∈ t.calls ∧ spawns c p = true) ∧
    ∀ t, ((system source).restrict Orderly).Reachable t →
      (∀ n m, t.shared.running n = true → t.shared.running m = true → n = m) ∧
      ∀ i present, Orderly t (.advance i present) → ShutdownReturns source t i present →
        ensuring ((router source).next t (.advance i present)) = false →
        ∀ u, (((system source).startingAt ((router source).next t (.advance i present))).restrict
          fun _ event => callsEnsure event = false).Reachable u → ∀ n, u.shared.running n = false := by
  refine ⟨fun t ht hprogress => ?_, fun t ht => ⟨(flight ht).one, ?_⟩⟩
  · have := (token ht).progress hprogress
    exact early_of_pos (by omega)
  · intro i present horderly hreturns hidle u hu
    exact (atRest_run ((flight ht).atRest horderly hreturns hidle) hu).running

def after (events : List (Event Call Bool (Nat × Happening))) :
    Pool InferenceRouter Call Phase :=
  events.foldl (router true).next ⟨.new, []⟩

def stepsOf (i n : Nat) : List (Event Call Bool (Nat × Happening)) :=
  List.replicate n (.advance i false)

def failingDownload (n : Nat) : List (Event Call Bool (Nat × Happening)) :=
  [.act (n, .weights false), .act (n, .weights false), .act (n, .failed "timeout")]

def threadExits (n : Nat) : List (Event Call Bool (Nat × Happening)) :=
  [.act (n, .probe false), .act (n, .probe false)]

def retried : List (Event Call Bool (Nat × Happening)) :=
  [.call .ensureBootstrapStarted] ++ stepsOf 0 7 ++ failingDownload 0 ++
    [.call .resetModelDownloadForRetry] ++ stepsOf 1 1 ++ [.call .ensureBootstrapStarted] ++
    stepsOf 2 4 ++ threadExits 0 ++ stepsOf 2 4 ++ [.act (1, .weights true), .act (1, .weights true),
    .call .shutdown] ++ stepsOf 3 1 ++ threadExits 1

theorem bootstrap_single_flight_retried :
    ((system true).restrict Orderly).Reachable (after retried) ∧
    ShutdownReturns true (after retried) 3 false ∧
    (after retried).shared.threads = [.finished, .finished] ∧
    ∀ n m, (after retried).shared.running n = true → (after retried).shared.running m = true →
      n = m := by
  have hlegal : Legal (fun t event => True ∧ Orderly t event) (router true).next ⟨.new, []⟩
      retried := by decide +kernel
  have hrun : ((system true).restrict Orderly).Reachable (after retried) :=
    hlegal.reachable_restrict (.init ⟨rfl, rfl⟩)
  exact ⟨hrun, ⟨.joining 1, rfl, by decide, rfl⟩, rfl,
    ((bootstrap_single_flight true).2 _ hrun).1⟩

/-- The first spawner has not stored its handle when the download has failed and is retried. -/
def overtaken : List (Event Call Bool (Nat × Happening)) :=
  [.call .ensureBootstrapStarted] ++ stepsOf 0 6 ++ failingDownload 0 ++
    [.call .resetModelDownloadForRetry] ++ stepsOf 1 1 ++ [.call .ensureBootstrapStarted] ++
    stepsOf 2 6

def outlived : List (Event Call Bool (Nat × Happening)) :=
  overtaken ++ stepsOf 2 1 ++ stepsOf 0 1 ++ [.call .shutdown] ++ stepsOf 3 1 ++ threadExits 0

/-- Two threads run at once, and the second outlives a `shutdown`. -/
theorem bootstrap_thread_detached :
    ((system true).Reachable (after overtaken) ∧ (after overtaken).shared.running 0 = true ∧
      (after overtaken).shared.running 1 = true) ∧
    (system true).Reachable (after outlived) ∧ ShutdownReturns true (after outlived) 3 false ∧
      ensuring ((router true).next (after outlived) (.advance 3 false)) = false ∧
      ((router true).next (after outlived) (.advance 3 false)).shared.running 1 = true := by
  have hreach : ∀ events, (system true).Reachable (after events) :=
    fun events => Code.reachable_foldl (router true) (· = .new) rfl events
  exact ⟨⟨hreach _, rfl, rfl⟩, hreach _, ⟨.joining 0, rfl, by decide, rfl⟩, rfl, rfl⟩

end Knowledge.Inference
