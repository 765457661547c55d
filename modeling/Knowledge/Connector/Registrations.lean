import Knowledge.Connector.Service

/-!
Which registrations there are under every interleaving of the handlers. What is said of one
connector rests only on what the four places hold of it and on the handlers that are at it, so
that the invariant is kept connector by connector: a difference between two places is explained
by a handler that is on its way.
-/

set_option autoImplicit false

namespace Knowledge.Connector
open Knowledge.Machine
open Knowledge.Serial
open Knowledge.Transition

theorem Registration.stored_eq_self_iff {r : Registration} :
    r.stored = r ↔ r.createdAt % 1000 = 0 := by
  rw [← wholeMicros_eq_self_iff]
  refine ⟨fun h => congrArg Registration.createdAt h, fun h => ?_⟩
  rw [Registration.stored, h]

structure Place where
  live : Bool
  durable : Option Registration
  cached : Option Registration
  job : Option Int
  last : Option Ack

def World.place (w : World) (x : String) : Place where
  live := w.live.contains x
  durable := w.durable.lookup x
  cached := w.cache.lookup x
  job := w.scheduled.lookup x
  last := (w.acks.find? fun ack => ack.1 = x).map Prod.snd

open World

namespace Phase

def subject : Phase → Option String
  | minted r | saved r | cached r | found r | stored r => some r.instanceId
  | unbound id | unscheduled id | uncached id => some id
  | called | returned _ => none

theorem subject_of_finished {p : Phase} (h : p.finished = true) : p.subject = none := by
  cases p with
  | returned r => rfl
  | _ => cases h

def creates : Phase → Bool
  | minted _ | saved _ | cached _ => true
  | _ => false

def activates : Phase → Bool
  | found _ | stored _ => true
  | _ => false

def removes : Phase → Bool
  | unbound _ | unscheduled _ | uncached _ => true
  | _ => false

def late : Phase → Bool
  | unscheduled _ | uncached _ => true
  | _ => false

def splitsRows : Phase → Bool
  | saved _ | stored _ | uncached _ => true
  | _ => false

def splitsJob : Phase → Bool
  | cached _ | unscheduled _ => true
  | _ => false

def outlives : Phase → Bool
  | unbound _ | unscheduled _ => true
  | _ => false

def clash (p q : Phase) : Bool := p.creates && (q.creates || q.late) || p.late && q.creates

theorem clash_unscheduled (id : String) (q : Phase) : (unscheduled id).clash q = q.creates := by
  cases q <;> rfl

theorem clash_comm (p q : Phase) : p.clash q = q.clash p := by
  cases p <;> cases q <;> rfl

/-- What a handler in the phase can rely on of the connector it is at. -/
def Fact (settings : Settings) (x : String) (l : Place) : Phase → Prop
  | minted r => l.durable = none ∧ l.cached = none ∧ l.job = none ∧
    r.syncInterval = settings.syncInterval
  | saved r => l.durable = some r.stored ∧ l.cached = none ∧ l.job = none ∧
    r.syncInterval = settings.syncInterval
  | cached _ => l.job = none ∧ ∃ c, l.cached = some c ∧ c.syncInterval = settings.syncInterval
  | found r => (∃ c, l.cached = some c ∧ c.activate settings.publicBaseUrl x = r) ∧
    ∃ d, l.durable = some d ∧ d.activate settings.publicBaseUrl x = r.stored
  | stored r => (∃ c, l.cached = some c ∧ c.activate settings.publicBaseUrl x = r) ∧
    l.durable = some r.stored
  | unbound _ => l.live = false
  | unscheduled _ => l.live = false ∧ l.job = none
  | uncached _ => l.live = false ∧ l.job = none ∧ l.cached = none
  | called | returned _ => True

end Phase

open Phase

def Present (f : Nat → Option Phase) (x : String) (kind : Phase → Bool) : Prop :=
  ∃ i p, f i = some p ∧ p.subject = some x ∧ kind p = true

section

variable {f : Nat → Option Phase} {x : String} {kind : Phase → Bool} {i : Nat}

theorem Present.update {p p' : Phase} (h : Present f x kind) (hi : f i = some p)
    (hp : kind p = true → p.subject = some x → kind p' = true ∧ p'.subject = some x) :
    Present (Function.update f i (some p')) x kind := by
  obtain ⟨j, q, hj, hx, hq⟩ := h
  by_cases hji : j = i
  · subst hji
    obtain rfl := Option.some.inj (hi.symm.trans hj)
    obtain ⟨hk, hs⟩ := hp hq hx
    exact ⟨j, p', by simp, hs, hk⟩
  · exact ⟨j, q, by simp [hji, hj], hx, hq⟩

theorem Present.of_update {p' : Phase} (h : Present (Function.update f i (some p')) x kind) :
    Present f x kind ∨ kind p' = true ∧ p'.subject = some x := by
  obtain ⟨j, q, hj, hx, hq⟩ := h
  by_cases hji : j = i
  · subst hji
    obtain rfl : p' = q := by simpa using hj
    exact .inr ⟨hq, hx⟩
  · exact .inl ⟨j, q, by simpa [hji] using hj, hx, hq⟩

theorem Present.self {p : Phase} (hx : p.subject = some x) (hp : kind p = true) :
    Present (Function.update f i (some p)) x kind := ⟨i, p, by simp, hx, hp⟩

end

/-- The places agree on the connector but for what a handler at it is about to do. -/
structure TidyAt (settings : Settings) (x : String) (l : Place) (f : Nat → Option Phase) :
    Prop where
  facts : ∀ i p, f i = some p → p.subject = some x → p.Fact settings x l
  apart : ∀ i j p q, i ≠ j → f i = some p → f j = some q → p.subject = some x →
    q.subject = some x → p.clash q = false
  rows : l.durable = l.cached.map Registration.stored ∨ Present f x Phase.splitsRows
  jobs : l.job = l.cached.map Registration.syncInterval ∨ Present f x Phase.splitsJob
  alive : l.cached ≠ none ∨ Present f x Phase.creates →
    l.live = true ∨ Present f x Phase.outlives
  gone : l.last = some .removed →
    (l.durable = none ∧ l.cached = none ∧ l.job = none) ∨ Present f x Phase.creates
  keyed : ∀ r, l.durable = some r ∨ l.cached = some r → r.instanceId = x ∧ 0 < r.syncInterval

namespace TidyAt

variable {settings : Settings} {x : String} {l l' : Place} {f : Nat → Option Phase} {i : Nat}
  {r : Registration} {p p' : Phase}

/-- A step of one handler at the connector: what it does to the places suits the others, and
what it leaves open is explained by where it is then. -/
theorem move (h : TidyAt settings x l f) (hi : f i = some p)
    (hothers : ∀ j q, f j = some q → q.subject = some x →
      (p.subject = some x → p.clash q = false) → q.Fact settings x l → q.Fact settings x l')
    (hclash : ∀ j q, j ≠ i → f j = some q → q.subject = some x → p'.subject = some x →
      p'.clash q = false)
    (hself : p'.subject = some x → p'.Fact settings x l')
    (hrows : l'.durable = l'.cached.map Registration.stored ∨
      Present (Function.update f i (some p')) x splitsRows)
    (hjobs : l'.job = l'.cached.map Registration.syncInterval ∨
      Present (Function.update f i (some p')) x splitsJob)
    (halive : l'.cached ≠ none ∨ Present (Function.update f i (some p')) x creates →
      l'.live = true ∨ Present (Function.update f i (some p')) x outlives)
    (hgone : l'.last = some .removed → (l'.durable = none ∧ l'.cached = none ∧ l'.job = none) ∨
      Present (Function.update f i (some p')) x creates)
    (hkeyed : ∀ r, l'.durable = some r ∨ l'.cached = some r →
      r.instanceId = x ∧ 0 < r.syncInterval) :
    TidyAt settings x l' (Function.update f i (some p')) := by
  have hother : ∀ j q, j ≠ i → Function.update f i (some p') j = some q → f j = some q := by
    intro j q hji hj
    simpa [hji] using hj
  have hhere : ∀ q, Function.update f i (some p') i = some q → p' = q := by
    intro q hj
    simpa using hj
  refine ⟨fun j q hj hq => ?_, fun j k q q' hne hj hk hq hq' => ?_, hrows, hjobs, halive, hgone,
    hkeyed⟩
  · by_cases hji : j = i
    · subst hji
      obtain rfl := hhere q hj
      exact hself hq
    · have hj := hother j q hji hj
      exact hothers j q hj hq (fun hp => h.apart i j p q (Ne.symm hji) hi hj hp hq) (h.facts j q hj hq)
  · by_cases hji : j = i
    · subst hji
      obtain rfl := hhere q hj
      exact hclash k q' (Ne.symm hne) (hother k q' (Ne.symm hne) hk) hq' hq
    · by_cases hki : k = i
      · subst hki
        obtain rfl := hhere q' hk
        rw [clash_comm]
        exact hclash j q hji (hother j q hji hj) hq hq'
      · exact h.apart j k q q' hne (hother j q hji hj) (hother k q' hki hk) hq hq'

theorem clash_of_le (h : TidyAt settings x l f) (hi : f i = some p) (hx : p.subject = some x)
    (hle : ∀ q, p.clash q = false → p'.clash q = false) :
    ∀ j q, j ≠ i → f j = some q → q.subject = some x → p'.subject = some x →
      p'.clash q = false :=
  fun j q hji hj hq _ => hle q (h.apart i j p q (Ne.symm hji) hi hj hx hq)

theorem alive_of_le (h : TidyAt settings x l f) (hi : f i = some p) (hlive : l'.live = l.live)
    (hcached : l'.cached ≠ none → l.cached ≠ none ∨ Present f x creates)
    (hcreates : p'.creates = true → p'.subject = some x → Present f x creates)
    (houtlives : p.outlives = true → p.subject = some x →
      p'.outlives = true ∧ p'.subject = some x) :
    l'.cached ≠ none ∨ Present (Function.update f i (some p')) x creates →
      l'.live = true ∨ Present (Function.update f i (some p')) x outlives := by
  intro hsome
  rw [hlive]
  refine (h.alive ?_).imp_right fun ho => ho.update hi houtlives
  obtain hc | hp := hsome
  · exact hcached hc
  · obtain hp | ⟨hp, hx⟩ := hp.of_update
    · exact .inr hp
    · exact .inr (hcreates hp hx)

theorem save_minted (h : TidyAt settings x l f) (hi : f i = some (.minted r))
    (hx : r.instanceId = x) :
    TidyAt settings x { l with durable := some r.stored }
      (Function.update f i (some (.saved r))) := by
  have hsubject : (minted r).subject = some x := congrArg some hx
  have hsubject' : (saved r).subject = some x := congrArg some hx
  obtain ⟨-, hcached, hjob, hinterval⟩ := h.facts i _ hi hsubject
  have hpositive := settings.positive
  refine h.move hi (fun j q _ _ hclash hq => ?_) (h.clash_of_le hi hsubject fun q hq => hq)
    (fun _ => ⟨rfl, hcached, hjob, hinterval⟩) (.inr (.self hsubject' rfl))
    (.inl (by simp [hcached, hjob])) ?_ (fun _ => .inr (.self hsubject' rfl)) ?_
  · have hclash := hclash hsubject
    cases q <;> simp_all [Phase.Fact, clash, creates, late]
  · exact h.alive_of_le hi rfl .inl (fun _ _ => ⟨i, _, hi, hsubject, rfl⟩) (fun ho => by cases ho)
  · rintro d (hd | hd)
    · obtain rfl := Option.some.inj hd
      have hkept : 0 < r.syncInterval := by omega
      exact ⟨hx, hkept⟩
    · exact h.keyed d (.inr hd)

theorem put_saved (h : TidyAt settings x l f) (hi : f i = some (.saved r)) (hx : r.instanceId = x) :
    TidyAt settings x { l with cached := some r } (Function.update f i (some (.cached r))) := by
  have hsubject : (saved r).subject = some x := congrArg some hx
  have hsubject' : (cached r).subject = some x := congrArg some hx
  obtain ⟨hdurable, hcached, hjob, hinterval⟩ := h.facts i _ hi hsubject
  refine h.move hi (fun j q _ _ hclash hq => ?_) (h.clash_of_le hi hsubject fun q hq => hq)
    (fun _ => ⟨hjob, r, rfl, hinterval⟩) (.inl hdurable) (.inr (.self hsubject' rfl)) ?_
    (fun _ => .inr (.self hsubject' rfl)) ?_
  · have hclash := hclash hsubject
    cases q <;> simp_all [Phase.Fact, clash, creates, late]
  · exact h.alive_of_le hi rfl (fun _ => .inr ⟨i, _, hi, hsubject, rfl⟩)
      (fun _ _ => ⟨i, _, hi, hsubject, rfl⟩) (fun ho => by cases ho)
  · rintro d (hd | hd)
    · exact h.keyed d (.inl hd)
    · obtain rfl := Option.some.inj hd
      exact h.keyed r.stored (.inl hdurable)

theorem schedule_cached (h : TidyAt settings x l f) (hi : f i = some (.cached r))
    (hx : r.instanceId = x) (result : Except Tenancy.ApiError Response) :
    TidyAt settings x { l with job := some settings.syncInterval, last := some .created }
      (Function.update f i (some (.returned result))) := by
  have hsubject : (cached r).subject = some x := congrArg some hx
  obtain ⟨hjob, c, hc, hinterval⟩ := h.facts i _ hi hsubject
  refine h.move hi (fun j q _ _ hclash hq => ?_) (fun _ _ _ _ _ hs => by cases hs)
    (fun hs => by cases hs) ?_ (.inl (by simp [hc, hinterval])) ?_ (fun hl => by cases hl) h.keyed
  · have hclash := hclash hsubject
    cases q <;> simp_all [Phase.Fact, clash, creates, late]
  · exact h.rows.imp_right fun hp => hp.update hi fun hk => by cases hk
  · exact h.alive_of_le hi rfl .inl (fun hk => by cases hk) (fun ho => by cases ho)

theorem fact_found (h : TidyAt settings x l f) {c : Registration} (hc : l.cached = some c) :
    (found (c.activate settings.publicBaseUrl x)).Fact settings x l := by
  refine ⟨⟨c, hc, rfl⟩, ?_⟩
  obtain hsame | ⟨j, q, hj, hq, hsplits⟩ := h.rows
  · exact ⟨c.stored, by rw [hsame, hc, Option.map_some], rfl⟩
  · have hfact := h.facts j q hj hq
    cases q with
    | saved r => simp [Phase.Fact, hc] at hfact
    | stored r =>
      obtain ⟨⟨c', hc', rfl⟩, hdurable⟩ := hfact
      obtain rfl := Option.some.inj (hc.symm.trans hc')
      exact ⟨_, hdurable, rfl⟩
    | uncached id => simp [Phase.Fact, hc] at hfact
    | _ => cases hsplits

theorem find_called (h : TidyAt settings x l f) (hi : f i = some .called) {c : Registration}
    (hc : l.cached = some c) :
    TidyAt settings x l
      (Function.update f i (some (.found (c.activate settings.publicBaseUrl x)))) := by
  refine h.move hi (fun _ _ _ _ _ hq => hq) (fun _ q _ _ _ _ => by cases q <;> rfl)
    (fun _ => h.fact_found hc) ?_ ?_ ?_ ?_ h.keyed
  · exact h.rows.imp_right fun hp => hp.update hi fun hk => by cases hk
  · exact h.jobs.imp_right fun hp => hp.update hi fun hk => by cases hk
  · exact h.alive_of_le hi rfl .inl (fun hk => by cases hk) (fun ho => by cases ho)
  · exact fun hl => (h.gone hl).imp_right fun hp => hp.update hi fun hk => by cases hk

theorem save_found (h : TidyAt settings x l f) (hi : f i = some (.found r))
    (hx : r.instanceId = x) :
    TidyAt settings x { l with durable := some r.stored }
      (Function.update f i (some (.stored r))) := by
  have hsubject : (found r).subject = some x := congrArg some hx
  have hsubject' : (stored r).subject = some x := congrArg some hx
  obtain ⟨⟨c, hc, hcr⟩, d, hd, hdr⟩ := h.facts i _ hi hsubject
  refine h.move hi (fun j q _ _ _ hq => ?_) (fun _ q _ _ _ _ => by cases q <;> rfl)
    (fun _ => ⟨⟨c, hc, hcr⟩, rfl⟩) (.inr (.self hsubject' rfl)) ?_ ?_ ?_ ?_
  · cases q with
    | found r' =>
      obtain ⟨⟨c', hc', rfl⟩, -⟩ := hq
      obtain rfl := Option.some.inj (hc.symm.trans hc')
      exact ⟨⟨c, hc, rfl⟩, r.stored, rfl, by rw [← hcr]; rfl⟩
    | stored r' =>
      obtain ⟨⟨c', hc', rfl⟩, -⟩ := hq
      obtain rfl := Option.some.inj (hc.symm.trans hc')
      exact ⟨⟨c, hc, rfl⟩, by rw [← hcr]⟩
    | _ => simp_all [Phase.Fact]
  · exact h.jobs.imp_right fun hp => hp.update hi fun hk => by cases hk
  · exact h.alive_of_le hi rfl .inl (fun hk => by cases hk) (fun ho => by cases ho)
  · intro hl
    obtain ⟨-, hnone, -⟩ | hp := h.gone hl
    · rw [hc] at hnone
      cases hnone
    · exact .inr (hp.update hi fun hk => by cases hk)
  · rintro e (he | he)
    · obtain rfl := Option.some.inj he
      have := h.keyed c (.inr hc)
      exact ⟨hx, by rw [← hcr]; exact this.2⟩
    · exact h.keyed e (.inr he)

theorem put_stored (h : TidyAt settings x l f) (hi : f i = some (.stored r))
    (hx : r.instanceId = x) (result : Except Tenancy.ApiError Response) :
    TidyAt settings x { l with cached := some r }
      (Function.update f i (some (.returned result))) := by
  have hsubject : (stored r).subject = some x := congrArg some hx
  obtain ⟨⟨c, hc, hcr⟩, hdurable⟩ := h.facts i _ hi hsubject
  have hinterval : r.syncInterval = c.syncInterval := by rw [← hcr]; rfl
  refine h.move hi (fun j q _ _ _ hq => ?_) (fun _ _ _ _ _ hs => by cases hs)
    (fun hs => by cases hs) (.inl hdurable) ?_ ?_ ?_ ?_
  · cases q with
    | found r' =>
      obtain ⟨⟨c', hc', rfl⟩, hrest⟩ := hq
      obtain rfl := Option.some.inj (hc.symm.trans hc')
      exact ⟨⟨r, rfl, by rw [← hcr]; rfl⟩, hrest⟩
    | stored r' =>
      obtain ⟨⟨c', hc', rfl⟩, hrest⟩ := hq
      obtain rfl := Option.some.inj (hc.symm.trans hc')
      exact ⟨⟨r, rfl, by rw [← hcr]; rfl⟩, hrest⟩
    | cached r' =>
      obtain ⟨hjob, c', hc', hc'i⟩ := hq
      obtain rfl := Option.some.inj (hc.symm.trans hc')
      exact ⟨hjob, r, rfl, hinterval.trans hc'i⟩
    | _ => simp_all [Phase.Fact]
  · obtain hjob | hp := h.jobs
    · exact .inl (by rw [hjob, hc]; simp [hinterval])
    · exact .inr (hp.update hi fun hk => by cases hk)
  · exact h.alive_of_le hi rfl (fun _ => .inl (by simp [hc])) (fun hk => by cases hk)
      (fun ho => by cases ho)
  · intro hl
    obtain ⟨-, hnone, -⟩ | hp := h.gone hl
    · rw [hc] at hnone
      cases hnone
    · exact .inr (hp.update hi fun hk => by cases hk)
  · rintro e (he | he)
    · exact h.keyed e (.inl he)
    · obtain rfl := Option.some.inj he
      exact h.keyed r.stored (.inl hdurable)

theorem unbind_called (h : TidyAt settings x l f) (hi : f i = some .called) :
    TidyAt settings x { l with live := false } (Function.update f i (some (.unbound x))) := by
  refine h.move hi (fun j q _ _ _ hq => ?_) (fun _ q _ _ _ _ => by cases q <;> rfl)
    (fun _ => rfl) ?_ ?_ (fun _ => .inr (.self rfl rfl)) ?_ h.keyed
  · cases q <;> simp_all [Phase.Fact]
  · exact h.rows.imp_right fun hp => hp.update hi fun hk => by cases hk
  · exact h.jobs.imp_right fun hp => hp.update hi fun hk => by cases hk
  · exact fun hl => (h.gone hl).imp_right fun hp => hp.update hi fun hk => by cases hk

theorem unschedule_unbound (h : TidyAt settings x l f) (hi : f i = some (.unbound x))
    (hclear : ¬Present f x creates) :
    TidyAt settings x { l with job := none } (Function.update f i (some (.unscheduled x))) := by
  have hlive : l.live = false := h.facts i _ hi rfl
  refine h.move hi (fun j q _ _ _ hq => ?_) (fun j q hji hj hq _ => ?_) (fun _ => ⟨hlive, rfl⟩) ?_
    (.inr (.self rfl rfl)) ?_ ?_ h.keyed
  · cases q <;> simp_all [Phase.Fact]
  · have hnot : q.creates = false := by
      by_contra hcreates
      exact hclear ⟨j, q, hj, hq, by simpa using hcreates⟩
    rw [clash_unscheduled, hnot]
  · exact h.rows.imp_right fun hp => hp.update hi fun hk => by cases hk
  · exact h.alive_of_le hi rfl .inl (fun hk => by cases hk) (fun _ _ => ⟨rfl, rfl⟩)
  · intro hl
    obtain ⟨hdurable, hcached, -⟩ | hp := h.gone hl
    · exact .inl ⟨hdurable, hcached, rfl⟩
    · exact absurd hp hclear

theorem dropCached_unscheduled (h : TidyAt settings x l f) (hi : f i = some (.unscheduled x))
    (hclear : ¬Present f x activates) :
    TidyAt settings x { l with cached := none } (Function.update f i (some (.uncached x))) := by
  obtain ⟨hlive, hjob⟩ := h.facts i _ hi rfl
  have hcreates : ¬Present f x creates := by
    rintro ⟨j, q, hj, hq, hcreates⟩
    have hji : i ≠ j := by
      rintro rfl
      obtain rfl := Option.some.inj (hi.symm.trans hj)
      cases hcreates
    have hclash := h.apart i j _ q hji hi hj rfl hq
    rw [clash_unscheduled, hcreates] at hclash
    cases hclash
  refine h.move hi (fun j q hj hx _ hq => ?_) (h.clash_of_le hi rfl fun q hq => ?_)
    (fun _ => ⟨hlive, hjob, rfl⟩) (.inr (.self rfl rfl)) (.inl hjob) ?_ ?_ ?_
  · cases q with
    | found r => exact absurd ⟨j, _, hj, hx, rfl⟩ hclear
    | stored r => exact absurd ⟨j, _, hj, hx, rfl⟩ hclear
    | cached r => exact absurd ⟨j, _, hj, hx, rfl⟩ hcreates
    | _ => simp_all [Phase.Fact]
  · exact hq
  · rintro (hcached | hp)
    · exact absurd rfl hcached
    · obtain hp | ⟨hk, -⟩ := hp.of_update
      · exact absurd hp hcreates
      · cases hk
  · intro hl
    obtain ⟨hdurable, -, -⟩ | hp := h.gone hl
    · exact .inl ⟨hdurable, rfl, hjob⟩
    · exact absurd hp hcreates
  · rintro e (he | he)
    · exact h.keyed e (.inl he)
    · cases he

theorem dropDurable_uncached (h : TidyAt settings x l f) (hi : f i = some (.uncached x))
    (result : Except Tenancy.ApiError Response) :
    TidyAt settings x { l with durable := none, last := some .removed }
      (Function.update f i (some (.returned result))) := by
  obtain ⟨hlive, hjob, hcached⟩ := h.facts i _ hi rfl
  refine h.move hi (fun j q _ _ hclash hq => ?_) (fun _ _ _ _ _ hs => by cases hs)
    (fun hs => by cases hs) (.inl (by simp [hcached])) (.inl (by simp [hjob, hcached])) ?_
    (fun _ => .inl ⟨rfl, hcached, hjob⟩) ?_
  · have hclash := hclash rfl
    cases q <;> simp_all [Phase.Fact, clash, creates, late]
  · exact h.alive_of_le hi rfl .inl (fun hk => by cases hk) (fun ho => by cases ho)
  · rintro e (he | he)
    · cases he
    · exact h.keyed e (.inr he)

theorem mint_called (h : TidyAt settings x l f) (hi : f i = some .called)
    (hdurable : l.durable = none) (hcached : l.cached = none) (hjob : l.job = none)
    (hcreates : ¬Present f x creates) (hremoves : ¬Present f x removes)
    (hx : r.instanceId = x) (hinterval : r.syncInterval = settings.syncInterval) :
    TidyAt settings x { l with live := true } (Function.update f i (some (.minted r))) := by
  have hsubject : (minted r).subject = some x := congrArg some hx
  have hnot : ∀ j q, f j = some q → q.subject = some x → q.creates = false ∧ q.removes = false := by
    intro j q hj hq
    refine ⟨?_, ?_⟩
    · by_contra hk
      exact hcreates ⟨j, q, hj, hq, by simpa using hk⟩
    · by_contra hk
      exact hremoves ⟨j, q, hj, hq, by simpa using hk⟩
  refine h.move hi (fun j q hj hq _ hfact => ?_) (fun j q _ hj hq _ => ?_)
    (fun _ => ⟨hdurable, hcached, hjob, hinterval⟩) ?_ ?_ (fun _ => .inl rfl)
    (fun _ => .inr (.self hsubject rfl)) h.keyed
  · have := hnot j q hj hq
    cases q <;> simp_all [Phase.Fact, removes]
  · have := hnot j q hj hq
    cases q <;> simp_all [clash, creates, late, removes]
  · exact .inl (by simp [hdurable, hcached])
  · exact .inl (by simp [hjob, hcached])

theorem congr (h : TidyAt settings x l f) {g : Nat → Option Phase}
    (hg : ∀ j q, q.subject = some x → (g j = some q ↔ f j = some q)) : TidyAt settings x l g := by
  have hpresent : ∀ kind, Present g x kind ↔ Present f x kind := by
    intro kind
    constructor
    · rintro ⟨j, q, hj, hq, hk⟩
      exact ⟨j, q, (hg j q hq).mp hj, hq, hk⟩
    · rintro ⟨j, q, hj, hq, hk⟩
      exact ⟨j, q, (hg j q hq).mpr hj, hq, hk⟩
  refine ⟨fun j q hj hq => h.facts j q ((hg j q hq).mp hj) hq, fun j k q q' hne hj hk hq hq' => ?_,
    ?_, ?_, ?_, ?_, h.keyed⟩
  · exact h.apart j k q q' hne ((hg j q hq).mp hj) ((hg k q' hq').mp hk) hq hq'
  · simpa only [hpresent] using h.rows
  · simpa only [hpresent] using h.jobs
  · simpa only [hpresent] using h.alive
  · simpa only [hpresent] using h.gone

theorem elsewhere (h : TidyAt settings x l f) (hi : f i = some p) (hp : p.subject ≠ some x)
    (hp' : p'.subject ≠ some x) : TidyAt settings x l (Function.update f i (some p')) := by
  refine h.congr fun j q hq => ?_
  by_cases hji : j = i
  · subst hji
    have hne : p ≠ q := fun heq => hp (heq ▸ hq)
    have hne' : p' ≠ q := fun heq => hp' (heq ▸ hq)
    simp [hi, hne, hne']
  · simp [hji]

end TidyAt

namespace World

variable (w : World) (r : Registration) (id y : String)

@[simp] theorem save_next : (w.save r).next = w.next := by
  simp only [save]
  split <;> rfl

@[simp] theorem schedule_next (interval : Int) : (w.schedule id interval).next = w.next := by
  simp only [schedule]
  split <;> rfl

theorem place_put : (w.put r).place y =
    if y = r.instanceId then { w.place r.instanceId with cached := some r } else w.place y := by
  by_cases h : y = r.instanceId
  · subst h
    simp [place, put]
  · simp [place, put, h]

theorem place_save (h : ∀ old, w.durable.lookup r.instanceId = some old →
      old.createdAt = wholeMicros r.createdAt) : (w.save r).place y =
    if y = r.instanceId then { w.place r.instanceId with durable := some r.stored }
    else w.place y := by
  have hsave : w.save r = { w with durable := w.durable.insert r.instanceId r.stored } := by
    simp only [save]
    split
    · rfl
    · rename_i old hold
      rw [h old hold]
      rfl
  rw [hsave]
  by_cases hy : y = r.instanceId
  · subst hy
    simp [place]
  · simp [place, hy]

theorem place_schedule {interval : Int} (h : 0 < interval) : (w.schedule id interval).place y =
    if y = id then { w.place id with job := some interval } else w.place y := by
  have hnot : ¬interval ≤ 0 := by omega
  by_cases hy : y = id
  · subst hy
    simp [schedule, hnot, place]
  · simp [schedule, hnot, place, hy]

theorem place_unschedule : (w.unschedule id).place y =
    if y = id then { w.place id with job := none } else w.place y := by
  by_cases h : y = id
  · subst h
    simp [place, unschedule]
  · simp [place, unschedule, h]

theorem place_dropCached : (w.dropCached id).place y =
    if y = id then { w.place id with cached := none } else w.place y := by
  by_cases h : y = id
  · subst h
    simp [place, dropCached]
  · simp [place, dropCached, h]

theorem place_dropDurable : (w.dropDurable id).place y =
    if y = id then { w.place id with durable := none } else w.place y := by
  by_cases h : y = id
  · subst h
    simp [place, dropDurable]
  · simp [place, dropDurable, h]

theorem place_createConnector (mint : Mint) : (w.createConnector mint).place y =
    if y = mint.id w.next then { w.place (mint.id w.next) with live := true } else w.place y := by
  by_cases h : y = mint.id w.next
  · subst h
    simp [place, createConnector]
  · simp [place, createConnector, h]

theorem place_removeConnector : (w.removeConnector id).place y =
    if y = id then { w.place id with live := false } else w.place y := by
  by_cases h : y = id
  · subst h
    simp [place, removeConnector]
  · simp [place, removeConnector, h]

theorem place_acknowledge (ack : Ack) : (w.acknowledge id ack).place y =
    if y = id then { w.place id with last := some ack } else w.place y := by
  by_cases h : y = id
  · subst h
    simp [place, acknowledge]
  · simp [place, acknowledge, h, Ne.symm h]

end World

def phaseAt (t : Threads World Call Phase) (i : Nat) : Option Phase := (t.calls[i]?).map Prod.snd

def busy (t : Threads World Call Phase) (x : String) (kind : Phase → Bool) : Bool :=
  t.calls.any fun e => e.2.subject = some x && kind e.2

theorem present_iff_busy {t : Threads World Call Phase} {x : String} {kind : Phase → Bool} :
    Present (phaseAt t) x kind ↔ busy t x kind = true := by
  simp only [busy, List.any_eq_true, Bool.and_eq_true, decide_eq_true_eq]
  constructor
  · rintro ⟨i, p, hi, hx, hp⟩
    obtain ⟨e, he, rfl⟩ := Option.map_eq_some_iff.mp hi
    exact ⟨e, List.mem_of_getElem? he, hx, hp⟩
  · rintro ⟨e, he, hx, hp⟩
    obtain ⟨i, hi⟩ := List.getElem?_of_mem he
    exact ⟨i, e.2, by simp [phaseAt, hi], hx, hp⟩

/-- No handler gets in another's way: a job is taken away while no creation of the connector is
under way, a cached registration while no registration of a webhook is, and no connector is made
under an id that is being removed. -/
def Clear (mint : Mint) (t : Threads World Call Phase) : Event Call → Prop
  | .call _ => True
  | .advance i =>
    match t.calls[i]? with
    | some (.create _ _ _, .called) => busy t (mint.id t.shared.next) Phase.removes = false
    | some (_, .unbound id) => busy t id Phase.creates = false
    | some (_, .unscheduled id) => busy t id Phase.activates = false
    | _ => True

instance (mint : Mint) (t : Threads World Call Phase) (event : Event Call) :
    Decidable (Clear mint t event) := by
  unfold Clear
  split
  · infer_instance
  · split <;> infer_instance

def Place.Unheard (l : Place) : Prop := l.durable = none ∧ l.cached = none ∧ l.job = none

/-- Every connector is tidy, and nothing is known of the ids that are still to be made. -/
structure Tidy (settings : Settings) (mint : Mint) (t : Threads World Call Phase) : Prop where
  places : ∀ x, TidyAt settings x (t.shared.place x) (phaseAt t)
  unknown : ∀ x, (∀ k < t.shared.next, mint.id k ≠ x) →
    (t.shared.place x).Unheard ∧ ¬Present (phaseAt t) x Phase.creates

section

variable {settings : Settings} {mint : Mint} {parseScope : String → Option String}
  {t t' : Threads World Call Phase} {i : Nat} {p p' : Phase} {c : Call} {x : String}

theorem phaseAt_set (hi : t.calls[i]? = some (c, p)) (w : World) :
    phaseAt ⟨w, t.calls.set i (c, p')⟩ = Function.update (phaseAt t) i (some p') := by
  have hlt : i < t.calls.length := (List.getElem?_eq_some_iff.mp hi).1
  funext j
  simp only [phaseAt, List.getElem?_set, Function.update_apply]
  by_cases hji : j = i
  · subst hji
    simp [hlt]
  · simp [hji, Ne.symm hji]

namespace Tidy

theorem of_move {w : World} {l : Place} (h : Tidy settings mint t)
    (hi : t.calls[i]? = some (c, p)) (hp : ∀ y, p.subject = some y → y = x)
    (hp' : ∀ y, p'.subject = some y → y = x) (hnext : t.shared.next ≤ w.next)
    (hplace : ∀ y, w.place y = if y = x then l else t.shared.place y)
    (hx : TidyAt settings x l (Function.update (phaseAt t) i (some p')))
    (hunknown : (∀ k < w.next, mint.id k ≠ x) → l.Unheard ∧ p'.creates = false) :
    Tidy settings mint ⟨w, t.calls.set i (c, p')⟩ := by
  have hphase : phaseAt t i = some p := by simp [phaseAt, hi]
  refine ⟨fun y => ?_, fun y hy => ?_⟩
  · rw [phaseAt_set hi, hplace]
    by_cases hyx : y = x
    · subst hyx
      rwa [if_pos rfl]
    · rw [if_neg hyx]
      exact (h.places y).elsewhere hphase (fun hs => hyx (hp y hs)) (fun hs => hyx (hp' y hs))
  · obtain ⟨hunheard, hnone⟩ := h.unknown y fun k hk => hy k (Nat.lt_of_lt_of_le hk hnext)
    rw [phaseAt_set hi, hplace]
    by_cases hyx : y = x
    · subst hyx
      obtain ⟨hunheard', hcreates⟩ := hunknown hy
      rw [if_pos rfl]
      refine ⟨hunheard', fun hpresent => ?_⟩
      obtain hold | ⟨hk, -⟩ := hpresent.of_update
      · exact hnone hold
      · rw [hcreates] at hk
        cases hk
    · rw [if_neg hyx]
      refine ⟨hunheard, fun hpresent => ?_⟩
      obtain hold | ⟨-, hs⟩ := hpresent.of_update
      · exact hnone hold
      · exact hyx (hp' y hs)

theorem of_known {w : World} {l : Place} (h : Tidy settings mint t)
    (hi : t.calls[i]? = some (c, p)) (hp : p.subject = some x)
    (hp' : ∀ y, p'.subject = some y → y = x) (hnext : w.next = t.shared.next)
    (hplace : ∀ y, w.place y = if y = x then l else t.shared.place y)
    (hx : TidyAt settings x l (Function.update (phaseAt t) i (some p')))
    (hknown : p.creates = true ∨ (t.shared.place x).cached ≠ none) :
    Tidy settings mint ⟨w, t.calls.set i (c, p')⟩ := by
  refine h.of_move hi (fun y hy => ?_) hp' (Nat.le_of_eq hnext.symm) hplace hx fun hy => ?_
  · rw [hp] at hy
    exact (Option.some.inj hy).symm
  · rw [hnext] at hy
    obtain ⟨⟨-, hcached, -⟩, hnone⟩ := h.unknown x hy
    obtain hcreates | hc := hknown
    · exact absurd ⟨i, p, by simp [phaseAt, hi], hp, hcreates⟩ hnone
    · exact absurd hcached hc

theorem of_removal {w : World} {l : Place} (h : Tidy settings mint t)
    (hi : t.calls[i]? = some (c, p)) (hp : ∀ y, p.subject = some y → y = x)
    (hp' : ∀ y, p'.subject = some y → y = x) (hnext : w.next = t.shared.next)
    (hplace : ∀ y, w.place y = if y = x then l else t.shared.place y)
    (hx : TidyAt settings x l (Function.update (phaseAt t) i (some p')))
    (hless : (t.shared.place x).Unheard → l.Unheard) (hcreates : p'.creates = false) :
    Tidy settings mint ⟨w, t.calls.set i (c, p')⟩ := by
  refine h.of_move hi hp hp' (Nat.le_of_eq hnext.symm) hplace hx fun hy => ?_
  rw [hnext] at hy
  exact ⟨hless (h.unknown x hy).1, hcreates⟩

theorem of_elsewhere (h : Tidy settings mint t) (hi : t.calls[i]? = some (c, p))
    (hp : p.subject = none) (hp' : p'.subject = none) :
    Tidy settings mint ⟨t.shared, t.calls.set i (c, p')⟩ := by
  have hphase : phaseAt t i = some p := by simp [phaseAt, hi]
  refine ⟨fun y => ?_, fun y hy => ?_⟩
  · rw [phaseAt_set hi]
    exact (h.places y).elsewhere hphase (by simp [hp]) (by simp [hp'])
  · rw [phaseAt_set hi]
    refine ⟨(h.unknown y hy).1, fun hpresent => ?_⟩
    obtain hold | ⟨-, hs⟩ := hpresent.of_update
    · exact (h.unknown y hy).2 hold
    · rw [hp'] at hs
      cases hs

theorem proceed_step (h : Tidy settings mint t) (hi : t.calls[i]? = some (c, p))
    (hclear : Clear mint t (.advance i)) : Tidy settings mint
      ⟨(proceed settings t.shared p).1, t.calls.set i (c, (proceed settings t.shared p).2)⟩ := by
  have hphase : phaseAt t i = some p := by simp [phaseAt, hi]
  have hself : ∀ {id y : String}, some id = some y → y = id := fun hy => (Option.some.inj hy).symm
  cases p with
  | minted r =>
    obtain ⟨hdurable, -⟩ := (h.places r.instanceId).facts i _ hphase rfl
    refine h.of_known hi rfl (fun y hy => hself hy) (save_next _ _)
      (fun y => t.shared.place_save r y fun old hold => ?_)
      ((h.places r.instanceId).save_minted hphase rfl) (.inl rfl)
    rw [show t.shared.durable.lookup r.instanceId = none from hdurable] at hold
    cases hold
  | saved r =>
    exact h.of_known hi rfl (fun y hy => hself hy) rfl (t.shared.place_put r)
      ((h.places r.instanceId).put_saved hphase rfl) (.inl rfl)
  | cached r =>
    refine h.of_known hi rfl (fun y hy => by cases hy) (schedule_next _ _ _) (fun y => ?_)
      ((h.places r.instanceId).schedule_cached hphase rfl _) (.inl rfl)
    simp only [proceed, place_acknowledge, place_schedule _ _ _ settings.positive]
    split <;> simp
  | found r =>
    obtain ⟨⟨k, hk, -⟩, d, hd, hdr⟩ := (h.places r.instanceId).facts i _ hphase rfl
    refine h.of_known hi rfl (fun y hy => hself hy) (save_next _ _)
      (fun y => t.shared.place_save r y fun old hold => ?_)
      ((h.places r.instanceId).save_found hphase rfl) (.inr (by simp [hk]))
    obtain rfl := Option.some.inj (hold.symm.trans hd)
    exact congrArg Registration.createdAt hdr
  | stored r =>
    obtain ⟨⟨k, hk, -⟩, -⟩ := (h.places r.instanceId).facts i _ hphase rfl
    exact h.of_known hi rfl (fun y hy => by cases hy) rfl (t.shared.place_put r)
      ((h.places r.instanceId).put_stored hphase rfl _) (.inr (by simp [hk]))
  | unbound id =>
    simp only [Clear, hi] at hclear
    refine h.of_removal hi (fun y hy => hself hy) (fun y hy => hself hy) rfl
      (t.shared.place_unschedule id) ((h.places id).unschedule_unbound hphase ?_)
      (fun hu => ⟨hu.1, hu.2.1, rfl⟩) rfl
    rw [present_iff_busy, hclear]
    simp
  | unscheduled id =>
    simp only [Clear, hi] at hclear
    refine h.of_removal hi (fun y hy => hself hy) (fun y hy => hself hy) rfl
      (t.shared.place_dropCached id) ((h.places id).dropCached_unscheduled hphase ?_)
      (fun hu => ⟨hu.1, rfl, hu.2.2⟩) rfl
    rw [present_iff_busy, hclear]
    simp
  | uncached id =>
    refine h.of_removal hi (fun y hy => hself hy) (fun y hy => by cases hy) rfl (fun y => ?_)
      ((h.places id).dropDurable_uncached hphase _) (fun hu => ⟨rfl, hu.2⟩) rfl
    simp only [proceed, place_acknowledge, place_dropDurable]
    split <;> simp
  | called => exact h.of_elsewhere hi rfl rfl
  | returned r => exact h.of_elsewhere hi rfl rfl

theorem begin_step (h : Tidy settings mint t) (hi : t.calls[i]? = some (c, .called))
    (hclear : Clear mint t (.advance i)) : Tidy settings mint
      ⟨(begin settings mint parseScope t.shared c).1,
        t.calls.set i (c, (begin settings mint parseScope t.shared c).2)⟩ := by
  have hphase : phaseAt t i = some .called := by simp [phaseAt, hi]
  have hself : ∀ {id y : String}, some id = some y → y = id := fun hy => (Option.some.inj hy).symm
  have hnone : ∀ {x y : String}, called.subject = some y → y = x := fun hy => by cases hy
  cases c with
  | create kind scopeId now =>
    cases hscope : parseScope scopeId with
    | none =>
      simp only [begin, hscope]
      exact h.of_elsewhere hi rfl rfl
    | some scope =>
      by_cases hkind : kind = ""
      · subst hkind
        simp only [begin, hscope, if_true]
        exact h.of_elsewhere hi rfl rfl
      · simp only [begin, hscope, hkind, if_false]
        simp only [Clear, hi] at hclear
        have hfresh : ∀ k < t.shared.next, mint.id k ≠ mint.id t.shared.next := by
          intro k hk heq
          have := mint.injective heq
          omega
        obtain ⟨⟨hdurable, hcached, hjob⟩, hcreates⟩ := h.unknown _ hfresh
        refine h.of_move hi (fun y => hnone) (fun y hy => hself hy) (Nat.le_succ _)
          (t.shared.place_createConnector · mint)
          ((h.places _).mint_called hphase hdurable hcached hjob hcreates ?_ rfl rfl) fun hall => ?_
        · rw [present_iff_busy, hclear]
          simp
        · exact absurd rfl (hall _ (Nat.lt_succ_self _))
  | webhookRegister id =>
    cases hcached : t.shared.cache.lookup id with
    | none =>
      simp only [begin, hcached]
      exact h.of_elsewhere hi rfl rfl
    | some r =>
      simp only [begin, hcached]
      have hid : r.instanceId = id := ((h.places id).keyed r (.inr hcached)).1
      refine h.of_move hi (fun y => hnone) (fun y hy => ?_) (Nat.le_refl _) (fun y => ?_)
        ((h.places id).find_called hphase hcached) fun hall => ?_
      · exact (hself hy).trans hid
      · split
        · rename_i hy
          rw [hy]
        · rfl
      · have hnone := (h.unknown id hall).1.2.1
        rw [show (t.shared.place id).cached = some r from hcached] at hnone
        cases hnone
  | remove id =>
    exact h.of_removal hi (fun y => hnone) (fun y hy => hself hy) rfl
      (t.shared.place_removeConnector id) ((h.places id).unbind_called hphase) (fun hu => hu) rfl


theorem advance_step (h : Tidy settings mint t) (hclear : Clear mint t (.advance i)) :
    Tidy settings mint ((service settings mint parseScope).next t (.advance i)) := by
  cases hi : t.calls[i]? with
  | none => rwa [Service.next_advance_none hi]
  | some e =>
    obtain ⟨c, p⟩ := e
    rw [Service.next_advance hi]
    cases p with
    | called => exact h.begin_step hi hclear
    | _ => exact h.proceed_step hi hclear

theorem call_step (h : Tidy settings mint t) (c : Call) :
    Tidy settings mint ((service settings mint parseScope).next t (.call c)) := by
  have hphases : ∀ j q x, q.subject = some x →
      (phaseAt ((service settings mint parseScope).next t (.call c)) j = some q ↔
        phaseAt t j = some q) := by
    intro j q x hq
    have hne : q ≠ .called := fun heq => by rw [heq] at hq; cases hq
    simp only [phaseAt, Service.next, List.getElem?_append]
    split
    · rfl
    · rename_i hlt
      have hnone : t.calls[j]? = none := List.getElem?_eq_none (by omega)
      rw [hnone, List.getElem?_singleton]
      split
      · simp [service, Ne.symm hne]
      · simp
  refine ⟨fun x => (h.places x).congr fun j q hq => hphases j q x hq, fun x hx => ?_⟩
  refine ⟨(h.unknown x hx).1, ?_⟩
  rintro ⟨j, q, hj, hq, hk⟩
  exact (h.unknown x hx).2 ⟨j, q, (hphases j q x hq).mp hj, hq, hk⟩

end Tidy

/-- Cache, durable store and scheduler have the same connectors, all of them connectors of the
substrate; none of them is one that was last acknowledged as removed. -/
structure World.Consistent (mint : Mint) (w : World) : Prop where
  rows : ∀ x, w.durable.lookup x = (w.cache.lookup x).map Registration.stored
  jobs : ∀ x, w.scheduled.lookup x = (w.cache.lookup x).map Registration.syncInterval
  live : ∀ x r, w.cache.lookup x = some r → x ∈ w.live ∧ r.instanceId = x ∧ 0 < r.syncInterval
  known : ∀ x, (∀ k < w.next, mint.id k ≠ x) → w.cache.lookup x = none
  gone : ∀ x, (w.acks.find? fun ack => ack.1 = x).map Prod.snd = some .removed →
    w.cache.lookup x = none

theorem World.consistent_empty (mint : Mint) : empty.Consistent mint := by
  refine ⟨fun x => rfl, fun x => rfl, fun x r h => ?_, fun x _ => rfl, fun x h => ?_⟩
  · cases h
  · simp [empty] at h

theorem World.Consistent.unheard {w : World} (h : w.Consistent mint)
    (hcached : w.cache.lookup x = none) : (w.place x).Unheard := by
  have hdurable := h.rows x
  have hjob := h.jobs x
  rw [hcached] at hdurable hjob
  exact ⟨hdurable, hcached, hjob⟩

theorem World.Consistent.row {w : World} (h : w.Consistent mint) {r : Registration}
    (hr : w.durable.lookup x = some r) : x ∈ w.live ∧ r.instanceId = x ∧ 0 < r.syncInterval := by
  obtain ⟨c, hc, rfl⟩ := Option.map_eq_some_iff.mp ((h.rows x).symm.trans hr)
  exact h.live x c hc

theorem World.Consistent.tidy {w : World} (h : w.Consistent mint) : Tidy settings mint ⟨w, []⟩ := by
  have hnone : ∀ x kind, ¬Present (phaseAt ⟨w, []⟩) x kind := by
    rintro x kind ⟨i, p, hi, -⟩
    simp [phaseAt] at hi
  refine ⟨fun x => ?_, fun x hx => ⟨?_, hnone x _⟩⟩
  · refine ⟨fun i p hi => by simp [phaseAt] at hi, fun i j p q _ hi => by simp [phaseAt] at hi,
      .inl (h.rows x), .inl (h.jobs x), fun hsome => .inl ?_, fun hl => .inl ?_, fun r hr => ?_⟩
    · obtain hcached | hp := hsome
      · obtain ⟨r, hr⟩ := Option.ne_none_iff_exists'.mp hcached
        simpa [place] using (h.live x r hr).1
      · exact absurd hp (hnone x _)
    · have hcached := h.gone x hl
      exact h.unheard hcached
    · exact hr.elim (fun hd => (h.row hd).2) fun hc => (h.live x r hc).2
  · exact h.unheard (h.known x hx)

theorem Tidy.run {w : World} (hw : w.Consistent mint)
    (h : (((service settings mint parseScope).system w).restrict (Clear mint)).Reachable t) :
    Tidy settings mint t := by
  refine System.Reachable.invariant (Tidy settings mint) ?_ ?_ h
  · rintro t rfl
    exact hw.tidy
  · rintro t event t' - ht ⟨⟨-, rfl⟩, hclear⟩
    cases event with
    | call c => exact ht.call_step c
    | advance i => exact ht.advance_step hclear

theorem Tidy.consistent (h : Tidy settings mint t) (hdone : ∀ e ∈ t.calls, e.2.finished = true) :
    t.shared.Consistent mint := by
  have hnone : ∀ x kind, ¬Present (phaseAt t) x kind := by
    rintro x kind ⟨i, p, hi, hx, -⟩
    obtain ⟨e, he, rfl⟩ := Option.map_eq_some_iff.mp hi
    have hfinished := hdone e (List.mem_of_getElem? he)
    rw [subject_of_finished hfinished] at hx
    cases hx
  refine ⟨fun x => (h.places x).rows.resolve_right (hnone x _),
    fun x => (h.places x).jobs.resolve_right (hnone x _), fun x r hr => ⟨?_, ?_⟩,
    fun x hx => (h.unknown x hx).1.2.1, fun x hl => ?_⟩
  · have hcached : (t.shared.place x).cached ≠ none := by
      rw [show (t.shared.place x).cached = some r from hr]
      simp
    have hlive := ((h.places x).alive (.inl hcached)).resolve_right (hnone x _)
    simpa [place] using hlive
  · exact (h.places x).keyed r (.inr hr)
  · exact (((h.places x).gone hl).resolve_right (hnone x _)).2.1

end

section

variable (fallback : Int) {live : Option (List String)}

theorem foldl_restore {regs : List Registration}
    (hkeep : ∀ r ∈ regs, (live.map fun ids => ids.contains r.instanceId) ≠ some false)
    (hpositive : ∀ r ∈ regs, 0 < r.syncInterval)
    (hnodup : (regs.map Registration.instanceId).Nodup) (w : World) :
    (∀ r ∈ regs,
      (regs.foldl (restore fallback live) w).cache.lookup r.instanceId = some r ∧
      (regs.foldl (restore fallback live) w).scheduled.lookup r.instanceId =
        some r.syncInterval) ∧
    ∀ x, x ∉ regs.map Registration.instanceId →
      (regs.foldl (restore fallback live) w).cache.lookup x = w.cache.lookup x ∧
      (regs.foldl (restore fallback live) w).scheduled.lookup x = w.scheduled.lookup x := by
  induction regs generalizing w with
  | nil => simp
  | cons r regs ih =>
    obtain ⟨hnot, hnodup⟩ := List.nodup_cons.mp hnodup
    have hpos := hpositive r List.mem_cons_self
    have hrestore : restore fallback live w r = { w with
        cache := w.cache.insert r.instanceId r
        scheduled := w.scheduled.insert r.instanceId r.syncInterval } := by
      have hle : ¬r.syncInterval ≤ 0 := by omega
      rw [restore, if_neg (hkeep r List.mem_cons_self)]
      simp [hle, schedule, put]
    obtain ⟨hin, hout⟩ := ih (fun r hr => hkeep r (List.mem_cons_of_mem _ hr))
      (fun r hr => hpositive r (List.mem_cons_of_mem _ hr)) hnodup (restore fallback live w r)
    refine ⟨fun r' hr' => ?_, fun x hx => ?_⟩
    · obtain rfl | hr' := List.mem_cons.mp hr'
      · simp only [List.foldl_cons, hout _ hnot]
        simp [hrestore]
      · exact hin r' hr'
    · simp only [List.map_cons, List.mem_cons, not_or] at hx
      simp only [List.foldl_cons, hout x hx.2]
      simp [hrestore, hx.1]

theorem World.Consistent.reconciled {mint : Mint} {w : World} (h : w.Consistent mint)
    {listed : Option (List String)} (hlisted : listed = none ∨ listed = some w.live)
    (regs : List Registration) {r : Registration} (hr : w.durable.lookup r.instanceId = some r) :
    ((reconciled listed regs).map fun ids => ids.contains r.instanceId) ≠ some false := by
  have hlive := (h.row hr).1
  have hne : r.instanceId ≠ "" := by
    intro hempty
    have hunknown := h.known r.instanceId fun k _ => by rw [hempty]; exact mint.nonempty k
    cases hr.symm.trans (h.unheard hunknown).1
  obtain rfl | rfl := hlisted
  · simp [Connector.reconciled]
  · simp only [Connector.reconciled]
    split
    · simp
    · simp [hlive, hne]

theorem World.Consistent.rehydrate {mint : Mint} {w : World} (h : w.Consistent mint)
    {listed : Option (List String)} (hlisted : listed = none ∨ listed = some w.live)
    {regs : List Registration} (hregs : regs.Perm (w.durable.rows.map Prod.snd)) (x : String) :
    (rehydrate fallback listed regs w.fresh).cache.lookup x = w.durable.lookup x ∧
      (rehydrate fallback listed regs w.fresh).scheduled.lookup x = w.scheduled.lookup x := by
  have hrow : ∀ r, r ∈ regs ↔ w.durable.lookup r.instanceId = some r := by
    intro r
    rw [hregs.mem_iff]
    simp only [List.mem_map, Prod.exists, exists_eq_right]
    constructor
    · rintro ⟨y, hy⟩
      have hdurable := Table.mem_rows_iff.mp hy
      rwa [(h.row hdurable).2.1]
    · exact fun hr => ⟨r.instanceId, Table.mem_rows_iff.mpr hr⟩
  have hnodup : (regs.map Registration.instanceId).Nodup := by
    have hkeys : (w.durable.rows.map Prod.snd).map Registration.instanceId =
        w.durable.rows.map Prod.fst := by
      rw [List.map_map]
      exact List.map_congr_left fun e he => (h.row (Table.mem_rows_iff.mp he)).2.1
    rw [(hregs.map _).nodup_iff, hkeys]
    exact Table.keys_nodup_rows w.durable
  obtain ⟨hin, hout⟩ := foldl_restore fallback
    (fun r hr => h.reconciled hlisted regs ((hrow r).mp hr))
    (fun r hr => (h.row ((hrow r).mp hr)).2.2) hnodup w.fresh
  have hjobs : w.scheduled.lookup x = (w.durable.lookup x).map Registration.syncInterval := by
    rw [h.jobs, h.rows, Option.map_map]
    rfl
  rw [hjobs]
  cases hx : w.durable.lookup x with
  | some r =>
    obtain ⟨-, rfl, -⟩ := h.row hx
    exact hin r ((hrow r).mpr hx)
  | none =>
    refine hout x fun hmem => ?_
    obtain ⟨r, hr, rfl⟩ := List.mem_map.mp hmem
    rw [(hrow r).mp hr] at hx
    cases hx

end

def gateway : Settings := ⟨"https://gw", 900000000000, by decide⟩

def slackId : String := "6ba7b810-9dad-11d1-80b4-00c04fd430c8"

def minted : Mint where
  id k := String.ofList (slackId.toList ++ List.replicate k '0')
  injective := by
    intro j k h
    have hlists := congrArg String.toList h
    simp only [String.toList_ofList, List.append_cancel_left_eq] at hlists
    simpa using congrArg List.length hlists
  nonempty k h := by
    have hlists := congrArg String.toList h
    simp [slackId] at hlists

def canonical (scope : String) : Option String := if scope.length = 36 then some scope else none

def createSlack : Call := .create "slack" "b4c1f0de-0c3e-4b8e-9d7e-2f1f5f5a9c11" 1700000000123456789

/-- A connector is created and its webhook registered, each while nothing else is under way. -/
def inTurn : List (Event Call) :=
  .call createSlack :: List.replicate 4 (.advance 0) ++
    .call (.webhookRegister slackId) :: List.replicate 3 (.advance 1)

def crossed : List (Event Call) :=
  .call createSlack :: List.replicate 4 (.advance 0) ++
    .call (.webhookRegister slackId) :: .advance 1 ::
    .call (.remove slackId) :: List.replicate 4 (.advance 2) ++ [.advance 1, .advance 1]

end Knowledge.Connector
