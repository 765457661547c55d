import Knowledge.Permission.UserHandlers
import Mathlib.Algebra.Group.Nat.Defs

/-!
Runs of SCIM requests, one after another and interleaved, and when the tuples are in step
with the directory.
-/

set_option autoImplicit false

namespace Knowledge.Permission
open Knowledge.Atomic Knowledge.Transition
open Knowledge.Sync (Uuid)

/-- A tuple for a membership exists exactly when the directory has the member and the user
is not suspended, and a tuple for a binding exactly when a name encodes it. -/
def Service.Lockstep (parse : String → Option Uuid) (s : Service) : Prop :=
  (∀ group user, memberTuple group user ∈ s.perms.tuples ↔
    s.dir.HasMember parse group user ∧ ¬s.dir.Inactive parse user) ∧
  ∀ tenant role group, roleTuple tenant role group ∈ s.perms.tuples ↔
    s.dir.Binds parse tenant role group

abbrev Flights := Pool Service Reply Scope

inductive FlightAct where
  | start (i : Nat) (request : Request)
  | advance (i : Nat)

namespace Flights

def next (env : Env) (s : Flights) : FlightAct → Flights
  | .start i request =>
    s.start i (request.scope env.parse s.shared.dir) (request.handler env)
  | .advance i => s.advance i

/-- A request starts under a number of its own, and what it generates is fresh. -/
def Guard (env : Env) (s : Flights) : FlightAct → Prop
  | .start i request => s.flights i = none ∧ request.Fresh env s.shared.dir
  | .advance _ => True

/-- Any number of requests, each of them a program of atomic steps, in any interleaving. -/
def system (env : Env) : System Flights FlightAct :=
  .ofNext (· = ⟨.empty, fun _ => none⟩) (Guard env) (next env)

/-- Every call to the substrate and to the directory store succeeds. -/
def Succeeds (env : Env) (s : Flights) (act : FlightAct) : Prop :=
  (next env s act).shared.failures = 0

instance (env : Env) (s : Flights) (act : FlightAct) : Decidable (Succeeds env s act) :=
  inferInstanceAs (Decidable (_ = _))

/-- No request starts while another is under way that may change what it needs, or that
needs what it may change. -/
def NoConflict (env : Env) (s : Flights) : FlightAct → Prop
  | .start _ request => ∀ j scope, s.Busy j scope →
    (scope.footprint env.parse).Apart
      ((request.scope env.parse s.shared.dir).footprint env.parse)
  | .advance _ => True

def Spells (env : Env) (plain : String → Prop) (s : Flights) : FlightAct → Prop
  | .start _ request => request.Plain env.parse plain ∧
    request.OneSpelling env.parse s.shared.dir
  | .advance _ => True

abbrev Governed (env : Env) (plain : String → Prop) (s : Flights) : Prop :=
  Pool.Governed (scimWorld env.parse plain) (fun s => s.failures = 0)
    (Scope.footprint env.parse) s

theorem scope_holds {env : Env} {plain : String → Prop} {scope : Scope} {t : RelationTuple} :
    (scimWorld env.parse plain).Holds (scope.footprint env.parse) t ↔
      scope.Controls env.parse t := by
  constructor
  · rintro ⟨f, rfl | rfl, ht⟩
    · exact ht
    · exact ht
  · exact fun h => ⟨.tuple t, .inl rfl, h⟩

theorem governed_init (env : Env) (plain : String → Prop) :
    Governed env plain ⟨.empty, fun _ => none⟩ := by
  refine ⟨⟨?_, ?_, ?_, ?_, ?_, ?_⟩, ?_, ?_, fun t => .inl ?_⟩
  · intro uid u hl
    cases hl
  · intro a b u u' hl
    cases hl
  · intro gid g hl
    cases hl
  · intro a b g g' hl
    cases hl
  · intro gid g hl
    cases hl
  · intro gid g p hl
    cases hl
  · rintro i j a b - ⟨p, hp, -⟩
    cases hp
  · intro i a p hp
    cases hp
  · refine iff_of_false (Finset.notMem_empty t) ?_
    rintro (⟨⟨gid, g, hl, -⟩, -⟩ | ⟨gid, g, hl, -⟩)
    · cases hl
    · cases hl

theorem governed_next {env : Env} {plain : String → Prop} {s : Flights}
    (h : Governed env plain s) {act : FlightAct} (hguard : Guard env s act)
    (hsucceeds : Succeeds env s act) (hspells : Spells env plain s act)
    (hconflict : NoConflict env s act) : Governed env plain (next env s act) := by
  cases act with
  | advance i => exact Pool.Governed.advance h i hsucceeds
  | start i request =>
    refine Pool.Governed.start h hguard.1 hconflict ?_
    have hsettled : Settled env (request.scope env.parse s.shared.dir) s.shared := by
      intro t ht
      refine h.right_of_holds hconflict ?_ (scope_holds.mpr ht)
      rintro t' ht' f (rfl | rfl)
      · exact scope_holds.mp ht'
      · exact scope_holds.mp ht'
    have hsafe := handler_safe h.inv request hspells.1 hguard.2 hspells.2 hsettled
    exact hsafe.mono fun r t ht => ht.post r

end Flights

/-- The value is the canonical form of the UUID it names, if it names one. -/
def Env.Canonical (env : Env) (v : String) : Prop :=
  ∀ user, env.parse v = some user → v = env.format user

theorem Env.Canonical.inj {env : Env} {v v' : String} {user : Uuid} (h : env.Canonical v)
    (h' : env.Canonical v') (hv : env.parse v = some user) (hv' : env.parse v' = some user) :
    v = v' :=
  (h user hv).trans (h' user hv').symm

theorem spellsUser_of_canonical {env : Env} {dir : Directory}
    (h : dir.Keys env.parse env.Canonical) {id : String} {u : User}
    (hl : dir.users.lookup id = some u) : dir.SpellsUser env.parse id := by
  intro gid g hg m hm hp
  obtain ⟨hid, user, hu⟩ := h.user id u hl
  have hv : env.parse m.value = some user := hp.trans hu
  exact (h.member gid g hg m hm (by simp [hv])).inj hid hv hu

theorem spellsMembers_of_canonical {env : Env} {dir : Directory}
    (h : dir.Keys env.parse env.Canonical) {prev next : List String}
    (hprev : ∀ v ∈ prev, (env.parse v).isSome → env.Canonical v)
    (hnext : ∀ v ∈ next, (env.parse v).isSome → env.Canonical v) :
    dir.SpellsMembers env.parse prev next := by
  refine ⟨fun v hv uid u hl _ hp => ?_, fun v hv hnot v' hv' user hname hname' => ?_⟩
  · obtain ⟨huid, user, hu⟩ := h.user uid u hl
    have hname : env.parse v = some user := hp.symm.trans hu
    have hsome : (env.parse v).isSome := by simp [hname]
    refine huid.inj ?_ hu hname
    obtain ⟨hv, -⟩ | ⟨hv, -⟩ := hv
    · exact hprev v hv hsome
    · exact hnext v hv hsome
  · have heq := (hprev v hv (by simp [hname])).inj (hnext v' hv' (by simp [hname'])) hname hname'
    subst heq
    exact absurd hv' hnot

theorem memberValues_canonical {env : Env} {members : List GroupMember}
    (h : ∀ m ∈ members, (env.parse m.value).isSome → env.Canonical m.value) :
    ∀ v ∈ memberValues members, (env.parse v).isSome → env.Canonical v := by
  intro v hv
  obtain ⟨m, hm, rfl⟩ := List.mem_map.mp hv
  exact h m hm

theorem oneSpelling_of_canonical {env : Env} {dir : Directory}
    (h : dir.Keys env.parse env.Canonical) {request : Request}
    (hplain : request.Plain env.parse env.Canonical) : request.OneSpelling env.parse dir := by
  cases request with
  | createUser id now input => trivial
  | replaceUser order id now input =>
    cases input with
    | none => trivial
    | some input => exact fun u hl _ => spellsUser_of_canonical h hl
  | deleteUser order id now => exact fun u hl => spellsUser_of_canonical h hl
  | createGroup orders id now input =>
    cases input with
    | none => trivial
    | some input =>
      exact spellsMembers_of_canonical h (by simp) (memberValues_canonical hplain.1)
  | replaceGroup orders id now input =>
    cases input with
    | none => trivial
    | some input =>
      intro g hl
      refine ⟨spellsMembers_of_canonical h (memberValues_canonical (h.member id g hl))
        (memberValues_canonical hplain.1), fun p p' hp hp' htenant _ => ?_⟩
      have hnext : env.Canonical p'.1 := Group.replace_displayName (P := fun name =>
        ∀ p, parseGroupRole env.parse name = some p → env.Canonical p.1)
        (fun p => h.tenant id g p hl) hplain.2 p' hp'
      obtain ⟨tenant, -, ht, -⟩ := exists_encodes hp
      exact (h.tenant id g p hl hp).inj hnext ht (htenant.symm.trans ht)
  | deleteGroup orders id =>
    exact fun g hl => spellsMembers_of_canonical h (memberValues_canonical (h.member id g hl))
      (by simp)

theorem lockstep_of_right {env : Env} {plain : String → Prop} {s : Service}
    (h : ∀ t, (scimWorld env.parse plain).right t s) : s.Lockstep env.parse :=
  ⟨fun group user => (h (memberTuple group user)).trans wants_member_iff,
    fun tenant role group => (h (roleTuple tenant role group)).trans wants_role_iff⟩

def Flights.Canonical (env : Env) : FlightAct → Prop
  | .start _ request => request.Plain env.parse env.Canonical
  | .advance _ => True

theorem Flights.governed_of_reachable {env : Env} {s : Flights}
    (h : ((Flights.system env).restrict fun s act => Flights.Succeeds env s act ∧
      Flights.Canonical env act ∧ Flights.NoConflict env s act).Reachable s) :
    Flights.Governed env env.Canonical s := by
  refine h.invariant _ ?_ ?_
  · rintro s rfl
    exact Flights.governed_init env env.Canonical
  · rintro s act t - hs ⟨⟨hguard, rfl⟩, hsucceeds, hcanonical, hconflict⟩
    refine Flights.governed_next hs hguard hsucceeds ?_ hconflict
    cases act with
    | advance i => trivial
    | start i request => exact ⟨hcanonical, oneSpelling_of_canonical hs.inv hcanonical⟩

/-- Requests in any interleaving, with canonical ids and every call answered: when none of
them overlaps with one that conflicts with it and all are finished, the tuples are in step
with the directory. -/
theorem scim_lockstep_interleaved {env : Env} {s : Flights}
    (h : ((Flights.system env).restrict fun s act => Flights.Succeeds env s act ∧
      Flights.Canonical env act ∧ Flights.NoConflict env s act).Reachable s)
    (hfinished : s.Finished) : s.shared.Lockstep env.parse :=
  lockstep_of_right ((Flights.governed_of_reachable h).all_right hfinished)

namespace Service

def system (env : Env) : System Service Request :=
  .ofNext (· = .empty) (fun s request => request.Fresh env s.dir)
    (fun s request => ((request.handler env).run s).1)

def Succeeds (env : Env) (s : Service) (request : Request) : Prop :=
  (request.handler env).Stays (fun s => s.failures = 0) s

instance (env : Env) (s : Service) (request : Request) : Decidable (Succeeds env s request) :=
  inferInstanceAs (Decidable (Prog.Stays _ _ _))

theorem right_run {env : Env} {plain : String → Prop} {s : Service}
    (hkeys : s.dir.Keys env.parse plain) (h : ∀ t, (scimWorld env.parse plain).right t s)
    {request : Request} (hplain : request.Plain env.parse plain)
    (hfresh : request.Fresh env s.dir) (hspell : request.OneSpelling env.parse s.dir)
    (hsucceeds : Succeeds env s request) :
    ((request.handler env).run s).1.dir.Keys env.parse plain ∧
      ∀ t, (scimWorld env.parse plain).right t ((request.handler env).run s).1 := by
  have hsafe := handler_safe hkeys request hplain hfresh hspell (fun t _ => h t)
  obtain ⟨hguar, hsettled⟩ := hsafe.run (World.rely_refl _) (World.guar_refl _)
    (World.guar_trans _) hsucceeds
  refine ⟨hguar.1 hkeys, fun t => ?_⟩
  by_cases ht : (scimWorld env.parse plain).Holds
      ((request.scope env.parse s.dir).footprint env.parse) t
  · exact hsettled t (Flights.scope_holds.mp ht)
  · exact World.right_of_guar hguar ht (h t)

end Service

/-- Requests one after another, with every call answered and each id spelled in one way:
the tuples are in step with the directory after each of them. -/
theorem scim_lockstep_sequential {env : Env} {s : Service}
    (h : ((Service.system env).restrict fun s request => Service.Succeeds env s request ∧
      request.OneSpelling env.parse s.dir).Reachable s) : s.Lockstep env.parse := by
  have hinv : s.dir.Keys env.parse (fun _ => True) ∧
      ∀ t, (scimWorld env.parse (fun _ => True)).right t s := by
    refine h.invariant (fun s => s.dir.Keys env.parse (fun _ => True) ∧
      ∀ t, (scimWorld env.parse (fun _ => True)).right t s) ?_ ?_
    · rintro s rfl
      have hinit := Flights.governed_init env (fun _ => True)
      refine ⟨hinit.inv, hinit.all_right ?_⟩
      rintro i scope ⟨p, hp, -⟩
      cases hp
    · rintro s request t - ⟨hkeys, hright⟩ ⟨⟨hfresh, rfl⟩, hsucceeds, hspell⟩
      refine Service.right_run hkeys hright ?_ hfresh hspell hsucceeds
      cases request with
      | createUser id now input => trivial
      | replaceUser order id now input => trivial
      | deleteUser order id now => trivial
      | createGroup orders id now input => cases input <;> simp [Request.Plain]
      | replaceGroup orders id now input => cases input <;> simp [Request.Plain]
      | deleteGroup orders id => trivial
  exact lockstep_of_right hinv.2

def hexDigit (c : Char) : Option Nat :=
  if '0' ≤ c ∧ c ≤ '9' then some (c.toNat-48)
  else if 'a' ≤ c ∧ c ≤ 'f' then some (c.toNat-87)
  else if 'A' ≤ c ∧ c ≤ 'F' then some (c.toNat-55)
  else none

def hexValue (digits : List Char) : Option Uuid :=
  (digits.foldlM (fun n c => (hexDigit c).map (n*16+·)) 0).map (BitVec.ofNat 128)

def parseHyphenated (l : List Char) : Option Uuid :=
  if l.getD 8 ' ' = '-' ∧ l.getD 13 ' ' = '-' ∧ l.getD 18 ' ' = '-' ∧ l.getD 23 ' ' = '-' then
    hexValue (l.take 8 ++ (l.drop 9).take 4 ++ (l.drop 14).take 4 ++ (l.drop 19).take 4 ++
      (l.drop 24).take 12)
  else none

def uuidParse (s : String) : Option Uuid :=
  let l := s.toList
  if l.length = 36 then parseHyphenated l
  else if l.length = 45 then
    if (l.take 9).map Char.toLower = "urn:uuid:".toList then parseHyphenated (l.drop 9) else none
  else if l.length = 38 then parseHyphenated (l.drop 1)
  else if l.length = 32 then hexValue l
  else none

def uuidFormat (u : Uuid) : String :=
  let hex := (List.range 32).map fun i =>
    "0123456789abcdef".toList.getD (u.toNat/16^(31-i)%16) '0'
  String.ofList (hex.take 8 ++ '-' :: (hex.drop 8).take 4 ++ '-' :: (hex.drop 12).take 4 ++
    '-' :: (hex.drop 16).take 4 ++ '-' :: hex.drop 20)

def sampleEnv : Env := ⟨uuidParse, uuidFormat, fun _ => .answered⟩

def listed : MapOrder := ⟨id, fun _ => .refl _⟩

def annId : String := "0000000a-0000-0000-0000-00000000000f"

def staffId : String := "00000001-0000-0000-0000-000000000001"

/-- A user is created, put into a group under some spelling of the id, and suspended. -/
def suspension (spelling : String) : List Request :=
  [.createUser annId 0 (some ⟨"ann", true, []⟩),
    .createGroup ⟨listed, listed⟩ staffId 1 (some ⟨"staff", [⟨spelling, ""⟩]⟩),
    .replaceUser listed annId 2 (some ⟨"ann", false, []⟩)]

def afterRequests (requests : List Request) : Service :=
  requests.foldl (fun s request => ((request.handler sampleEnv).run s).1) .empty

theorem forall_lookup {β : Type} {m : AList (fun _ : String => β)} {P : String → β → Prop}
    (h : ∀ e ∈ m.entries, P e.1 e.2) : ∀ k v, m.lookup k = some v → P k v :=
  fun k v hl => h ⟨k, v⟩ (AList.mem_lookup_iff.mp hl)

theorem scim_lockstep_suspended :
    ((Service.system sampleEnv).restrict fun s request => Service.Succeeds sampleEnv s request ∧
      request.OneSpelling sampleEnv.parse s.dir).Reachable (afterRequests (suspension annId)) ∧
    (afterRequests (suspension annId)).Lockstep uuidParse ∧
    memberTuple 0x00000001000000000000000000000001 0x0000000a00000000000000000000000f ∉
      (afterRequests (suspension annId)).perms.tuples := by
  have hr : ((Service.system sampleEnv).restrict fun s request =>
      Service.Succeeds sampleEnv s request ∧ request.OneSpelling sampleEnv.parse s.dir).Reachable
      (afterRequests (suspension annId)) := by
    refine Legal.reachable_restrict ?_ (.init rfl)
    refine ⟨⟨⟨0x0000000a00000000000000000000000f, by decide +kernel, by decide +kernel, ?_⟩,
        by decide +kernel, trivial⟩,
      ⟨⟨0x00000001000000000000000000000001, by decide +kernel, by decide +kernel, ?_⟩,
        by decide +kernel, ?_, ?_⟩,
      ⟨trivial, by decide +kernel, fun _ _ _ => ?_⟩, trivial⟩
    · exact forall_lookup (by decide +kernel)
    · exact forall_lookup (by decide +kernel)
    · rintro v (⟨hv, -⟩ | ⟨hv, -⟩) uid u hl - -
      · cases hv
      · obtain rfl := List.mem_singleton.mp hv
        exact forall_lookup (P := fun uid _ => uid = annId) (by decide +kernel) uid u hl
    · intro v hv
      cases hv
    · refine forall_lookup ?_
      decide +kernel
  exact ⟨hr, scim_lockstep_sequential hr, by decide +kernel⟩

/-- Under another spelling of the id the suspension passes the membership by. -/
theorem suspension_misses_spelling :
    ((Service.system sampleEnv).restrict (Service.Succeeds sampleEnv)).Reachable
      (afterRequests (suspension "0000000A-0000-0000-0000-00000000000F")) ∧
    ¬(afterRequests (suspension "0000000A-0000-0000-0000-00000000000F")).Lockstep uuidParse := by
  constructor
  · refine Legal.reachable_restrict ?_ (.init rfl)
    refine ⟨⟨⟨0x0000000a00000000000000000000000f, by decide +kernel, by decide +kernel, ?_⟩,
        by decide +kernel⟩,
      ⟨⟨0x00000001000000000000000000000001, by decide +kernel, by decide +kernel, ?_⟩,
        by decide +kernel⟩, ⟨trivial, by decide +kernel⟩, trivial⟩
    · exact forall_lookup (by decide +kernel)
    · exact forall_lookup (by decide +kernel)
  · intro h
    have hgone := (h.1 0x00000001000000000000000000000001
      0x0000000a00000000000000000000000f).mp (by decide +kernel)
    exact hgone.2 ⟨annId, ⟨annId, "ann", false, [], 0, 2⟩, by decide +kernel, by decide +kernel, rfl⟩

theorem Scope.eq_of_controls {parse : String → Option Uuid} {gid gid' : String}
    {named named' : List Uuid} {t : RelationTuple} (h : (Scope.group gid named).Controls parse t)
    (h' : (Scope.group gid' named').Controls parse t) : parse gid = parse gid' := by
  obtain ⟨group, user, hg, -, rfl⟩ | ⟨tenant, role, group, hg, rfl⟩ := h
  · obtain ⟨group', user', hg', -, ht⟩ | ⟨tenant', role', group', hg', ht⟩ := h'
    · have hgroup : group = group' := congrArg (fun t => t.object.objectId) ht
      rw [hg, hg', hgroup]
    · simp [memberTuple, roleTuple] at ht
  · obtain ⟨group', user', hg', -, ht⟩ | ⟨tenant', role', group', hg', ht⟩ := h'
    · simp [memberTuple, roleTuple] at ht
    · have hgroup : group = group' := congrArg (fun t => t.subject.subjectId) ht
      rw [hg, hg', hgroup]

theorem Scope.apart_groups {parse : String → Option Uuid} {gid gid' : String}
    (h : parse gid ≠ parse gid') (named named' : List Uuid) :
    ((Scope.group gid named).footprint parse).Apart
      ((Scope.group gid' named').footprint parse) := by
  have hne : gid ≠ gid' := fun heq => h (congrArg parse heq)
  intro f
  cases f with
  | tuple t =>
    exact ⟨fun hf => h (eq_of_controls hf.1 hf.2), fun hf => h (eq_of_controls hf.2 hf.1)⟩
  | wanted t =>
    exact ⟨fun hf => h (eq_of_controls hf.1 hf.2), fun hf => h (eq_of_controls hf.2 hf.1)⟩
  | group g => exact ⟨fun hf => hne (hf.1.symm.trans hf.2), fun hf => hne (hf.2.symm.trans hf.1)⟩
  | groupKey group =>
    exact ⟨fun hf => h (hf.1.trans hf.2.symm), fun hf => h (hf.2.trans hf.1.symm)⟩
  | active v => exact ⟨fun hf => hf.1, fun hf => hf.1⟩
  | inactive user => exact ⟨fun hf => hf.1, fun hf => hf.1⟩
  | user uid => exact ⟨fun hf => hf.1, fun hf => hf.1⟩
  | userKey user => exact ⟨fun hf => hf.1, fun hf => hf.1⟩
  | names g user => exact ⟨fun hf => hf.2, fun hf => hf.2⟩

namespace Flights

def number : FlightAct → Nat
  | .start i _ => i
  | .advance i => i

theorem next_flights {env : Env} {s : Flights} {act : FlightAct} {j : Nat} (h : j ≠ number act) :
    (next env s act).flights j = s.flights j := by
  cases act with
  | start i request => exact Function.update_of_ne h _ _
  | advance i =>
    change (s.advance i).flights j = s.flights j
    unfold Pool.advance
    split
    · exact Function.update_of_ne h _ _
    · rfl

theorem foldl_flights {env : Env} {acts : List FlightAct} {j : Nat}
    (h : ∀ act ∈ acts, j ≠ number act) (s : Flights) :
    (acts.foldl (next env) s).flights j = s.flights j := by
  induction acts generalizing s with
  | nil => rfl
  | cons act acts ih =>
    obtain ⟨hhead, htail⟩ := List.forall_mem_cons.mp h
    rw [List.foldl_cons, ih htail, next_flights hhead]

def after (acts : List FlightAct) : Flights :=
  acts.foldl (next sampleEnv) ⟨.empty, fun _ => none⟩

theorem finished_after {acts : List FlightAct} {n : Nat} (hn : ∀ act ∈ acts, number act < n)
    (hdone : ∀ i < n, ((after acts).flights i).all (fun flight => flight.2.isDone)) :
    (after acts).Finished := by
  rintro i scope ⟨p, hp, hbusy⟩
  by_cases hi : i < n
  · have hd := hdone i hi
    simp [hp, hbusy] at hd
  · have hnone : (after acts).flights i = none :=
      foldl_flights (fun act hact heq => hi (lt_of_eq_of_lt heq (hn act hact))) _
    rw [hnone] at hp
    cases hp

theorem legal_advances {env : Env} {cond : Flights → FlightAct → Prop}
    (hcond : ∀ s i, cond s (.advance i)) {s : Flights} {is : List Nat}
    (h : Legal (Succeeds env) (next env) s (is.map .advance)) :
    Legal (fun s act => Guard env s act ∧ Succeeds env s act ∧ cond s act) (next env) s
      (is.map .advance) := by
  induction is generalizing s with
  | nil => trivial
  | cons i is ih => exact ⟨⟨trivial, h.1, hcond s i⟩, ih h.2⟩

end Flights

theorem plain_of_format {env : Env} {input : GroupInput}
    (hmembers : ∀ m ∈ input.members, (env.parse m.value).map env.format = some m.value)
    (hname : parseGroupRole env.parse input.displayName = none) :
    (∀ m ∈ input.members, (env.parse m.value).isSome → env.Canonical m.value) ∧
      ∀ p, parseGroupRole env.parse input.displayName = some p → env.Canonical p.1 := by
  constructor
  · intro m hm _ user hu
    have heq := hmembers m hm
    rw [hu] at heq
    exact (Option.some.inj heq).symm
  · intro p hp
    rw [hname] at hp
    cases hp

def bobId : String := "0000000b-0000-0000-0000-00000000000f"

def salesId : String := "00000002-0000-0000-0000-000000000001"

def overlap : List FlightAct :=
  .start 0 (.createGroup ⟨listed, listed⟩ staffId 0 (some ⟨"staff", [⟨annId, ""⟩]⟩)) ::
    .start 1 (.createGroup ⟨listed, listed⟩ salesId 0 (some ⟨"sales", [⟨annId, ""⟩]⟩)) ::
    [0, 1, 1, 0, 0, 1].map .advance

theorem scim_lockstep_overlap :
    ((Flights.system sampleEnv).restrict fun s act => Flights.Succeeds sampleEnv s act ∧
      Flights.Canonical sampleEnv act ∧ Flights.NoConflict sampleEnv s act).Reachable
      (Flights.after overlap) ∧
    (Flights.after overlap).Finished ∧ (Flights.after overlap).shared.Lockstep uuidParse ∧
    memberTuple 0x00000002000000000000000000000001 0x0000000a00000000000000000000000f ∈
      (Flights.after overlap).shared.perms.tuples := by
  have hr : ((Flights.system sampleEnv).restrict fun s act => Flights.Succeeds sampleEnv s act ∧
      Flights.Canonical sampleEnv act ∧ Flights.NoConflict sampleEnv s act).Reachable
      (Flights.after overlap) := by
    refine Legal.reachable_restrict ?_ (.init rfl)
    refine ⟨⟨⟨rfl, 0x00000001000000000000000000000001, by decide +kernel,
        by decide +kernel, forall_lookup (by decide +kernel)⟩, by decide +kernel,
        plain_of_format (by decide +kernel) (by decide +kernel), ?_⟩,
      ⟨⟨rfl, 0x00000002000000000000000000000001, by decide +kernel,
        by decide +kernel, forall_lookup (by decide +kernel)⟩, by decide +kernel,
        plain_of_format (by decide +kernel) (by decide +kernel), ?_⟩,
      Flights.legal_advances (fun s i => ⟨trivial, trivial⟩) (by decide +kernel)⟩
    · rintro j scope ⟨p, hp, -⟩
      cases hp
    · rintro j scope ⟨p, hp, -⟩
      by_cases hj : j = 0
      · subst hj
        obtain ⟨rfl, -⟩ := Prod.mk.inj (Option.some.inj hp)
        exact Scope.apart_groups (by decide +kernel) _ _
      · rw [Flights.next_flights hj] at hp
        cases hp
  have hf : (Flights.after overlap).Finished :=
    Flights.finished_after (n := 2) (by decide +kernel) (by decide +kernel)
  exact ⟨hr, hf, scim_lockstep_interleaved hr hf, by decide +kernel⟩

def race : List FlightAct :=
  .start 0 (.createGroup ⟨listed, listed⟩ staffId 0 (some ⟨"staff", []⟩)) :: .advance 0 ::
    .start 1 (.replaceGroup ⟨listed, listed⟩ staffId 1 (some ⟨"staff", [⟨annId, ""⟩]⟩)) ::
    .start 2 (.replaceGroup ⟨listed, listed⟩ staffId 2 (some ⟨"staff", [⟨bobId, ""⟩]⟩)) ::
    [1, 2, 1, 2, 1, 2, 1, 2].map .advance

/-- The group ends with the second member only, and the grant to the first one stays. -/
theorem race_leaves_grant :
    ((Flights.system sampleEnv).restrict fun s act => Flights.Succeeds sampleEnv s act ∧
      Flights.Canonical sampleEnv act).Reachable (Flights.after race) ∧
    (Flights.after race).Finished ∧ ¬(Flights.after race).shared.Lockstep uuidParse := by
  refine ⟨Legal.reachable_restrict ?_ (.init rfl),
    Flights.finished_after (n := 3) (by decide +kernel) (by decide +kernel), fun h => ?_⟩
  · exact ⟨⟨⟨rfl, 0x00000001000000000000000000000001, by decide +kernel,
        by decide +kernel, forall_lookup (by decide +kernel)⟩, by decide +kernel,
        plain_of_format (by decide +kernel) (by decide +kernel)⟩,
      ⟨trivial, by decide +kernel, trivial⟩,
      ⟨⟨rfl, trivial⟩, by decide +kernel,
        plain_of_format (by decide +kernel) (by decide +kernel)⟩,
      ⟨⟨rfl, trivial⟩, by decide +kernel,
        plain_of_format (by decide +kernel) (by decide +kernel)⟩,
      Flights.legal_advances (fun s i => trivial) (by decide +kernel)⟩
  · obtain ⟨⟨gid, g, hl, -, m, hm, hv⟩, -⟩ := (h.1 0x00000001000000000000000000000001
      0x0000000a00000000000000000000000f).mp (by decide +kernel)
    have hnone := forall_lookup (P := fun _ (g : Group) => ∀ m ∈ g.members,
      uuidParse m.value ≠ some 0x0000000a00000000000000000000000f) (by decide +kernel) gid g hl m hm
    exact hnone hv

end Knowledge.Permission
