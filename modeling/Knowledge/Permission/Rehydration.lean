import Knowledge.Permission.Durable

/-!
The directory over the life of the service: requests that go on side by side, and restarts, at
which `Rehydrate` reads the cache back from the store.
-/

set_option autoImplicit false

namespace Knowledge.Permission
open Knowledge.Atomic Knowledge.Machine Knowledge.Transition

/-- The first answers every look-up with the row of what the second answers it with. -/
structure Directory.RowsOf (rows dir : Directory) : Prop where
  users : ∀ id, rows.users.lookup id = (dir.users.lookup id).map User.stored
  groups : ∀ id, rows.groups.lookup id = (dir.groups.lookup id).map Group.stored

/-- What has an id is kept under it, and was created when that id was, to the microsecond. -/
structure Directory.Born (births : String → Int) (dir : Directory) : Prop where
  user : ∀ id u, dir.users.lookup id = some u →
    u.id = id ∧ wholeMicros u.created = wholeMicros (births id)
  group : ∀ id g, dir.groups.lookup id = some g →
    g.id = id ∧ wholeMicros g.created = wholeMicros (births id)

structure Host.Mirrored (births : String → Int) (h : Host) : Prop where
  rows : h.durable.RowsOf h.svc.dir
  born : h.svc.dir.Born births

def Request.Born (births : String → Int) : Request → Prop
  | .createUser id now _ => now = births id
  | .createGroup _ id now _ => now = births id
  | _ => True

/-- `Rehydrate`, of rows that are keyed by their ids. -/
def Host.rehydrate (h : Host) : Host := { h with svc := { h.svc with dir := h.durable } }

/-- A restart ends what is under way. -/
inductive Occurrence where
  | arrives (i : Nat) (request : Request)
  | proceeds (i : Nat)
  | restarts

section

theorem User.stored_stored (u : User) : u.stored.stored = u.stored := by
  simp [User.stored]

theorem Group.stored_stored (g : Group) : g.stored.stored = g.stored := by
  simp [Group.stored]

theorem User.stored_eq_self_iff {u : User} :
    u.stored = u ↔ u.created % 1000 = 0 ∧ u.lastModified % 1000 = 0 := by
  rw [← wholeMicros_eq_self_iff, ← wholeMicros_eq_self_iff]
  refine ⟨fun h => ⟨congrArg User.created h, congrArg User.lastModified h⟩, fun h => ?_⟩
  rw [User.stored, h.1, h.2]

theorem Group.stored_eq_self_iff {g : Group} :
    g.stored = g ↔ g.created % 1000 = 0 ∧ g.lastModified % 1000 = 0 := by
  rw [← wholeMicros_eq_self_iff, ← wholeMicros_eq_self_iff]
  refine ⟨fun h => ⟨congrArg Group.created h, congrArg Group.lastModified h⟩, fun h => ?_⟩
  rw [Group.stored, h.1, h.2]

theorem Directory.RowsOf.self {rows dir : Directory} (h : rows.RowsOf dir) : rows.RowsOf rows := by
  refine ⟨fun id => ?_, fun id => ?_⟩
  · rw [h.users, Option.map_map]
    exact congrArg (Option.map · _) (funext fun u => (User.stored_stored u).symm)
  · rw [h.groups, Option.map_map]
    exact congrArg (Option.map · _) (funext fun g => (Group.stored_stored g).symm)

theorem Directory.RowsOf.born {births : String → Int} {rows dir : Directory} (h : rows.RowsOf dir)
    (hborn : dir.Born births) : rows.Born births := by
  refine ⟨fun id u hu => ?_, fun id g hg => ?_⟩
  · obtain ⟨v, hv, rfl⟩ := Option.map_eq_some_iff.mp ((h.users id).symm.trans hu)
    have := hborn.user id v hv
    exact ⟨this.1, (wholeMicros_wholeMicros _).trans this.2⟩
  · obtain ⟨f, hf, rfl⟩ := Option.map_eq_some_iff.mp ((h.groups id).symm.trans hg)
    have := hborn.group id f hf
    exact ⟨this.1, (wholeMicros_wholeMicros _).trans this.2⟩

end

namespace Rehydration

abbrev Running := Pool Host Reply Request

def next (env : Env) (s : Running) : Occurrence → Running
  | .arrives i request => s.start i request (request.durable env postgresDirectoryStore)
  | .proceeds i => s.advance i
  | .restarts => ⟨s.shared.rehydrate, fun _ => none⟩

def Init (births : String → Int) (s : Running) : Prop :=
  (∀ i, s.flights i = none) ∧ s.shared.Mirrored births

/-- No id is generated twice: `births` says once and for all when each one is. -/
def Guard (births : String → Int) (s : Running) : Occurrence → Prop
  | .arrives i request => s.flights i = none ∧ request.Born births
  | _ => True

/-- A write that the store carries out is answered. Calls to the substrate may fail in any way. -/
def Answered (env : Env) (s : Running) : Occurrence → Prop
  | .proceeds i => env.net s.shared.svc.calls = .unanswered →
      (s.advance i).shared.durable = s.shared.durable
  | _ => True

def system (env : Env) (births : String → Int) : System Running Occurrence :=
  .ofNext (Init births) (Guard births) (next env)

/-- What a handler may do to the host in one step. -/
def Commits (env : Env) (births : String → Int) (h h' : Host) : Prop :=
  (env.net h.svc.calls = .unanswered → h'.durable = h.durable) → h'.Mirrored births

section Directories

variable {births : String → Int} {α : Type} {rows cached : AList (fun _ : String => α)}
  {stored : α → α}

theorem agree_insert (h : ∀ k, rows.lookup k = (cached.lookup k).map stored) (id : String) (v : α)
    (k : String) :
    (rows.insert id (stored v)).lookup k = ((cached.insert id v).lookup k).map stored := by
  by_cases hk : k = id
  · rw [hk, AList.lookup_insert, AList.lookup_insert, Option.map_some]
  · rw [AList.lookup_insert_ne hk, AList.lookup_insert_ne hk, h]

theorem agree_erase (h : ∀ k, rows.lookup k = (cached.lookup k).map stored) (id k : String) :
    (rows.erase id).lookup k = ((cached.erase id).lookup k).map stored := by
  by_cases hk : k = id
  · rw [hk, AList.lookup_erase, AList.lookup_erase, Option.map_none]
  · rw [AList.lookup_erase_ne hk, AList.lookup_erase_ne hk, h]

theorem forall_insert {P : String → α → Prop} (h : ∀ k v, cached.lookup k = some v → P k v)
    {id : String} {v : α} (hv : P id v) (k : String) (w : α)
    (hw : (cached.insert id v).lookup k = some w) : P k w := by
  by_cases hk : k = id
  · subst hk
    rw [AList.lookup_insert] at hw
    obtain rfl := Option.some.inj hw
    exact hv
  · rw [AList.lookup_insert_ne hk] at hw
    exact h k w hw

theorem forall_erase {P : String → α → Prop} (h : ∀ k v, cached.lookup k = some v → P k v)
    (id k : String) (w : α) (hw : (cached.erase id).lookup k = some w) : P k w := by
  by_cases hk : k = id
  · rw [hk, AList.lookup_erase] at hw
    cases hw
  · rw [AList.lookup_erase_ne hk] at hw
    exact h k w hw

def Paired (births : String → Int) (write : Directory → Directory → Directory)
    (change : Directory → Directory) : Prop :=
  ∀ dir durable : Directory, durable.RowsOf dir → dir.Born births →
    (write dir durable).RowsOf (change dir) ∧ (change dir).Born births

theorem paired_saveUser {u : User} (hborn : wholeMicros u.created = wholeMicros (births u.id)) :
    Paired births (fun _ => postgresDirectoryStore.saveUser u) (·.setUser u.id u) := by
  intro dir durable hrows h
  have hrow : ((durable.users.lookup u.id).map User.created).getD (wholeMicros u.created) =
      wholeMicros u.created := by
    rw [hrows.users]
    cases hl : dir.users.lookup u.id with
    | none => rfl
    | some v => exact (h.user _ v hl).2.trans hborn.symm
  refine ⟨⟨fun k => ?_, hrows.groups⟩, ⟨forall_insert h.user ⟨rfl, hborn⟩, h.group⟩⟩
  simp only [postgresDirectoryStore, hrow]
  exact agree_insert hrows.users u.id u k

theorem paired_saveGroup {g : Group} (hborn : wholeMicros g.created = wholeMicros (births g.id)) :
    Paired births (fun _ => postgresDirectoryStore.saveGroup g) (·.setGroup g.id g) := by
  intro dir durable hrows h
  have hrow : ((durable.groups.lookup g.id).map Group.created).getD (wholeMicros g.created) =
      wholeMicros g.created := by
    rw [hrows.groups]
    cases hl : dir.groups.lookup g.id with
    | none => rfl
    | some v => exact (h.group _ v hl).2.trans hborn.symm
  refine ⟨⟨hrows.users, fun k => ?_⟩, ⟨h.user, forall_insert h.group ⟨rfl, hborn⟩⟩⟩
  simp only [postgresDirectoryStore, hrow]
  exact agree_insert hrows.groups g.id g k

/-- A group that differs from the one in the cache at most in its members and its last change. -/
def Rewrites (groups : AList (fun _ : String => Group)) (g : Group) : Prop :=
  ∃ row, groups.lookup g.id = some row ∧
    { row with members := g.members, lastModified := g.lastModified } = g

theorem rewrites_stripped {dir : Directory} (h : dir.Born births) {uid : String} {now : Int}
    {g : Group} (hg : g ∈ dir.stripped uid now) : Rewrites dir.groups g := by
  obtain ⟨e, he, heq⟩ := List.mem_filterMap.mp hg
  have hlookup : dir.groups.lookup e.1 = some e.2 := AList.mem_lookup_iff.mpr he
  dsimp only at heq
  split at heq
  · obtain rfl := Option.some.inj heq
    exact ⟨e.2, (h.group e.1 e.2 hlookup).1.symm ▸ hlookup, rfl⟩
  · cases heq

/-- The rows that are rewritten become those of what the cache is given. -/
theorem rewritten (gs : List Group) {rows groups : AList (fun _ : String => Group)}
    (hrows : ∀ id, rows.lookup id = (groups.lookup id).map Group.stored)
    (hborn : ∀ id g, groups.lookup id = some g →
      g.id = id ∧ wholeMicros g.created = wholeMicros (births id))
    (hgs : ∀ g ∈ gs, Rewrites groups g) :
    (∀ id, (gs.foldl postgresDirectoryStore.updateMembers rows).lookup id =
      ((gs.foldl (fun groups g => groups.insert g.id g) groups).lookup id).map Group.stored) ∧
      ∀ id g, (gs.foldl (fun groups g => groups.insert g.id g) groups).lookup id = some g →
        g.id = id ∧ wholeMicros g.created = wholeMicros (births id) := by
  induction gs generalizing rows groups with
  | nil => exact ⟨hrows, hborn⟩
  | cons g gs ih =>
    obtain ⟨row, hrow, hg⟩ := hgs g List.mem_cons_self
    have hupdate : postgresDirectoryStore.updateMembers rows g = rows.insert g.id g.stored := by
      rw [postgresDirectoryStore.updateMembers, hrows, hrow, Option.map_some]
      dsimp only
      rw [← hg]
      rfl
    have hcreated : wholeMicros g.created = wholeMicros (births g.id) := by
      rw [← (hborn _ row hrow).2, ← hg]
    rw [List.foldl_cons, List.foldl_cons, hupdate]
    refine ih (agree_insert hrows _ _) (forall_insert hborn ⟨rfl, hcreated⟩) fun v hv => ?_
    obtain ⟨row', hrow', hv⟩ := hgs v (List.mem_cons_of_mem _ hv)
    by_cases hk : v.id = g.id
    · obtain rfl : row' = row := Option.some.inj (hrow'.symm.trans (hk ▸ hrow))
      refine ⟨g, by rw [hk, AList.lookup_insert], ?_⟩
      rw [← hv, ← hg]
    · exact ⟨row', by rw [AList.lookup_insert_ne hk, hrow'], hv⟩

theorem paired_deleteUser (id : String) (now : Int) :
    Paired births (fun dir => postgresDirectoryStore.deleteUser id (dir.stripped id now))
      (·.deleteUser id now) := by
  intro dir durable hrows h
  obtain ⟨hgroups, hborn⟩ := rewritten (dir.stripped id now) hrows.groups h.group
    fun g hg => rewrites_stripped h hg
  exact ⟨⟨agree_erase hrows.users id, hgroups⟩, ⟨forall_erase h.user id, hborn⟩⟩

theorem paired_deleteGroup (id : String) :
    Paired births (fun _ => postgresDirectoryStore.deleteGroup id) (·.deleteGroup id) :=
  fun _ _ hrows h =>
    ⟨⟨hrows.users, agree_erase hrows.groups id⟩, ⟨h.user, forall_erase h.group id⟩⟩

end Directories

section Handlers

variable {env : Env} {births : String → Int}

/-- From a mirrored host, whatever the other requests have made of it, the steps of the program
keep it so. -/
abbrev Keeps (env : Env) (births : String → Int) {ρ : Type} (p : Prog Host ρ) : Prop :=
  p.Steps (Host.Mirrored births) (Commits env births)

abbrev Frames {ρ : Type} (p : Prog Service ρ) : Prop :=
  p.Steps (fun _ => True) fun s s' => s'.dir = s.dir

theorem keeps_onHost {ρ : Type} {p : Prog Service ρ} (h : Frames p) : Keeps env births (onHost p) :=
  h.zoom (fun _ _ => trivial) fun t s ht hdir _ => by
    obtain ⟨hrows, hborn⟩ := ht
    refine ⟨?_, ?_⟩
    · rwa [hdir]
    · rwa [hdir]

theorem frames_read {ρ : Type} (f : Service → ρ) : Frames (.read f) := fun _ _ => ⟨rfl, trivial⟩

theorem frames_runTupleOp (op : TupleOp) : Frames (runTupleOp env op) := by
  intro s _
  refine ⟨?_, trivial⟩
  simp only [Service.callSubstrate]
  split <;> rfl

theorem frames_rollbackTupleOps (ops : List TupleOp) : Frames (rollbackTupleOps env ops) := by
  have hundo : ∀ ops, Frames (rollbackTupleOps.undo env ops) := by
    intro ops
    induction ops with
    | nil => trivial
    | cons op rest ih => exact (frames_runTupleOp _).bind fun _ => ih
  exact hundo _

theorem frames_applyTupleOps (ops : List TupleOp) : Frames (applyTupleOps env ops) := by
  have hgo : ∀ ops applied, Frames (applyTupleOps.go env applied ops) := by
    intro ops
    induction ops with
    | nil => exact fun _ => trivial
    | cons op rest ih =>
      refine fun applied => (frames_runTupleOp op).bind fun ok => ?_
      cases ok with
      | true => exact ih _
      | false => exact (frames_rollbackTupleOps _).bind fun _ => trivial
  exact hgo ops []

theorem frames_compensateGrants (ops : List TupleOp) : Frames (compensateGrants env ops) := by
  induction ops with
  | nil => trivial
  | cons op rest ih =>
    cases hgrant : op.grant with
    | true =>
      simp only [compensateGrants, hgrant, if_true]
      exact (frames_runTupleOp _).bind fun _ => ih
    | false => simpa [compensateGrants, hgrant] using ih

theorem frames_groupReconcileOps (orders : MapOrders) (groupId : String)
    (prev next : List GroupMember) : Frames (groupReconcileOps env orders groupId prev next) := by
  have hloop : ∀ grant other ids, Frames (reconcileLoop grant groupId other ids) := by
    intro grant other ids
    induction ids with
    | nil => trivial
    | cons uid rest ih =>
      rw [reconcileLoop]
      split
      · exact ih
      · exact (frames_read _).bind fun _ => ih.bind fun _ => trivial
  exact (hloop _ _ _).bind fun _ => (hloop _ _ _).bind fun _ => trivial

theorem commits_save {write : Directory → Directory → Directory} {change : Directory → Directory}
    (h : Paired births write change) {host : Host} (hm : host.Mirrored births) :
    Commits env births host (host.save env write change).1 := by
  intro hanswered
  obtain ⟨hrows, hborn⟩ := h host.svc.dir host.durable hm.rows hm.born
  simp only [Host.save, Service.save] at hanswered ⊢
  cases hnet : env.net host.svc.calls with
  | answered => exact ⟨by simpa [hnet] using hrows, hborn⟩
  | dropped => exact ⟨by simpa [hnet, Service.failed] using hm.rows, hm.born⟩
  | unanswered =>
    simp only [hnet, reduceCtorEq, if_false] at hanswered ⊢
    exact ⟨by simpa [hanswered, Service.failed] using hm.rows, hm.born⟩

theorem keeps_persist {write : Directory → Directory → Directory} {change : Directory → Directory}
    (h : Paired births write change) (ops : List TupleOp) (detail : String) (reply : Reply) :
    Keeps env births (Host.persist env write change ops detail reply) := by
  have hsave : Keeps env births (Prog.modify (Host.save env write change)) :=
    fun host hm => ⟨commits_save h hm, trivial⟩
  refine hsave.bind fun ok => ?_
  cases ok with
  | true => trivial
  | false => exact (keeps_onHost (frames_rollbackTupleOps _)).bind fun _ => trivial

theorem keeps_persistPresent (gone : Directory → Prop) [DecidablePred gone]
    {write : Directory → Directory → Directory} {change : Directory → Directory}
    (h : Paired births write change) (ops : List TupleOp) (conflict detail : String)
    (reply : Reply) :
    Keeps env births (Host.persistPresent env gone write change ops conflict detail reply) := by
  have hcommit : Keeps env births (Host.persistPresent.commit env gone write change) := by
    refine fun host hm => ⟨?_, trivial⟩
    dsimp only
    split
    · exact fun _ => hm
    · exact commits_save h hm
  refine hcommit.bind fun outcome => ?_
  cases outcome with
  | gone => exact (keeps_onHost (frames_compensateGrants _)).bind fun _ => trivial
  | failed => exact (keeps_onHost (frames_rollbackTupleOps _)).bind fun _ => trivial
  | saved => trivial

/-- A handler that sends its operations first. -/
theorem keeps_send {ops : List TupleOp} {p : Prog Host Reply} (h : Keeps env births p)
    (detail : String) :
    Keeps env births (do
      if ← onHost (applyTupleOps env ops) then p else pure (.error 500 detail)) := by
  refine (keeps_onHost (frames_applyTupleOps ops)).bind fun ok => ?_
  cases ok with
  | true => exact h
  | false => trivial

/-- What is found under an id has it, and its creation time, whenever it is found. -/
theorem keeps_find {ρ : Type} {find : Service → ρ} {p : ρ → Prog Host Reply}
    (h : ∀ host : Host, host.Mirrored births → Keeps env births (p (find host.svc))) :
    Keeps env births (do p (← onHost (Prog.read find))) :=
  fun host hm => ⟨fun _ => hm, h host hm⟩

theorem keeps_durable {request : Request} (hborn : request.Born births) :
    Keeps env births (request.durable env postgresDirectoryStore) := by
  cases request with
  | createUser id now input =>
    cases input with
    | none => trivial
    | some input =>
      change Keeps env births (Host.scimCreateUser env postgresDirectoryStore id now (some input))
      rw [Host.scimCreateUser]
      split
      · trivial
      · have hsave := @paired_saveUser births
          ⟨id, input.userName, true, input.emails, now, now⟩ (congrArg wholeMicros hborn)
        refine fun host hm => ⟨?_, trivial⟩
        dsimp only
        split
        · exact fun _ => hm
        · exact commits_save hsave hm
  | replaceUser order id now input =>
    cases input with
    | none => trivial
    | some input =>
      refine keeps_find fun host hm => ?_
      cases hl : host.svc.dir.users.lookup id with
      | none => trivial
      | some prev =>
        obtain ⟨rfl, hcreated⟩ := hm.born.user id prev hl
        have hsave := @paired_saveUser births (prev.replace now input) hcreated
        have hops : Frames (userActiveToggleOps order prev.id (prev.replace now input).active) :=
          (frames_read _).bind fun _ => trivial
        dsimp only
        split
        · refine (keeps_onHost hops).bind fun ops => ?_
          exact keeps_send (keeps_persistPresent _ hsave _ _ _ _) _
        · exact keeps_persistPresent _ hsave _ _ _ _
  | deleteUser order id now =>
    refine keeps_find fun host hm => ?_
    cases host.svc.dir.users.lookup id with
    | none => trivial
    | some prev =>
      have hops : Frames (userRemovalOps order id) := by
        refine (frames_read _).bind fun active => ?_
        cases active with
        | true => exact fun s _ => ⟨rfl, trivial⟩
        | false => trivial
      refine (keeps_onHost hops).bind fun ops => ?_
      exact keeps_send (keeps_persist (paired_deleteUser id now) _ _ _) _
  | createGroup orders id now input =>
    cases input with
    | none => trivial
    | some input =>
      change Keeps env births
        (Host.scimCreateGroup env postgresDirectoryStore orders id now (some input))
      rw [Host.scimCreateGroup]
      split
      · trivial
      · have hsave := @paired_saveGroup births
          ⟨id, input.displayName, input.members, now, now⟩ (congrArg wholeMicros hborn)
        refine (keeps_onHost (frames_groupReconcileOps _ _ _ _)).bind fun ops => ?_
        exact keeps_send (keeps_persist hsave _ _ _) _
  | replaceGroup orders id now input =>
    cases input with
    | none => trivial
    | some input =>
      refine keeps_find fun host hm => ?_
      cases hl : host.svc.dir.groups.lookup id with
      | none => trivial
      | some g =>
        obtain ⟨rfl, hcreated⟩ := hm.born.group id g hl
        have hsave := @paired_saveGroup births (g.replace now input) hcreated
        refine (keeps_onHost (frames_groupReconcileOps _ _ _ _)).bind fun ops => ?_
        exact keeps_send (keeps_persistPresent _ hsave _ _ _ _) _
  | deleteGroup orders id =>
    refine keeps_find fun host hm => ?_
    cases host.svc.dir.groups.lookup id with
    | none => trivial
    | some g =>
      refine (keeps_onHost (frames_groupReconcileOps _ _ _ _)).bind fun ops => ?_
      exact keeps_send (keeps_persist (paired_deleteGroup id) _ _ _) _

end Handlers

section Life

variable {env : Env} {births : String → Int} {s : Running}

structure Inv (env : Env) (births : String → Int) (s : Running) : Prop where
  mirrored : s.shared.Mirrored births
  bound : s.Bound (Host.Mirrored births) (Commits env births)

theorem Inv.next (h : Inv env births s) {e : Occurrence} (hguard : Guard births s e)
    (hanswered : Answered env s e) : Inv env births (next env s e) := by
  cases e with
  | arrives i request => exact ⟨h.mirrored, h.bound.start i request (keeps_durable hguard.2)⟩
  | proceeds i =>
    obtain ⟨hbound, hsame | hstep⟩ := h.bound.advance h.mirrored i
    · simpa only [Rehydration.next, hsame] using h
    · exact ⟨hstep hanswered, hbound⟩
  | restarts =>
    obtain ⟨hrows, hborn⟩ := h.mirrored
    exact ⟨⟨hrows.self, hrows.born hborn⟩, fun i a p hp => by cases hp⟩

theorem inv_of_reachable (h : ((system env births).restrict (Answered env)).Reachable s) :
    Inv env births s := by
  refine h.invariant (Inv env births) (fun s hs => ?_) fun s e s' _ hs hstep => ?_
  · exact ⟨hs.2, fun i a p hp => by simp [hs.1] at hp⟩
  · obtain ⟨⟨hguard, rfl⟩, hanswered⟩ := hstep
    exact hs.next hguard hanswered

/-- However requests interleave and whichever of their calls fail, as long as no write of the store
is carried out without its answer, the store holds the rows of what the cache shows, and a restart
changes no answer but for the nanoseconds of its times. -/
theorem directory_survives (h : ((system env births).restrict (Answered env)).Reachable s) :
    s.shared.durable.RowsOf s.shared.svc.dir ∧
      (next env s .restarts).shared.svc.dir.RowsOf s.shared.svc.dir ∧
      (∀ id, (next env s .restarts).shared.svc.dir.users.lookup id =
          s.shared.svc.dir.users.lookup id ↔
        ∀ u, s.shared.svc.dir.users.lookup id = some u →
          u.created % 1000 = 0 ∧ u.lastModified % 1000 = 0) ∧
      ∀ id, (next env s .restarts).shared.svc.dir.groups.lookup id =
          s.shared.svc.dir.groups.lookup id ↔
        ∀ g, s.shared.svc.dir.groups.lookup id = some g →
          g.created % 1000 = 0 ∧ g.lastModified % 1000 = 0 := by
  have hrows := (inv_of_reachable h).mirrored.rows
  have hread : (next env s .restarts).shared.svc.dir = s.shared.durable := rfl
  rw [hread]
  refine ⟨hrows, hrows, fun id => ?_, fun id => ?_⟩
  · rw [hrows.users]
    cases s.shared.svc.dir.users.lookup id with
    | none => simp
    | some u => simp [User.stored_eq_self_iff]
  · rw [hrows.groups]
    cases s.shared.svc.dir.groups.lookup id with
    | none => simp
    | some g => simp [Group.stored_eq_self_iff]

def lossyEnv : Env := ⟨fun _ => none, fun _ => "", fun n => if n = 1 then .dropped else .answered⟩

def backwards : MapOrder := ⟨List.reverse, List.reverse_perm⟩

/-- A user is created, and a change of the name does not get through to the store. -/
def renames : List Occurrence :=
  [.arrives 0 (.createUser "u1" 1700 (some ⟨"ann", true, []⟩)), .proceeds 0,
    .arrives 1 (.replaceUser backwards "u1" 9000 (some ⟨"anna", true, []⟩)),
    .proceeds 1, .proceeds 1]

def renamed : Running := renames.foldl (next lossyEnv) ⟨⟨.empty, ⟨∅, ∅⟩⟩, fun _ => none⟩

theorem renamed_reachable :
    ((system lossyEnv fun _ => 1700).restrict (Answered lossyEnv)).Reachable renamed := by
  have hnet : ∀ n, lossyEnv.net n ≠ .unanswered := by
    intro n
    simp only [lossyEnv]
    split <;> simp
  refine Legal.reachable_restrict ⟨⟨⟨rfl, rfl⟩, trivial⟩, ⟨trivial, fun h => absurd h (hnet _)⟩,
    ⟨⟨rfl, trivial⟩, trivial⟩, ⟨trivial, fun h => absurd h (hnet _)⟩,
    ⟨trivial, fun h => absurd h (hnet _)⟩, trivial⟩
    (.init ⟨fun _ => rfl, ⟨fun _ => rfl, fun _ => rfl⟩, ?_, ?_⟩)
  · exact fun id u hu => by cases hu
  · exact fun id g hg => by cases hg

theorem directory_survives_renamed :
    renamed.shared.svc.failures = 1 ∧
      renamed.shared.svc.dir.users.lookup "u1" = some ⟨"u1", "ann", true, [], 1700, 1700⟩ ∧
      renamed.shared.durable.users.lookup "u1" = some ⟨"u1", "ann", true, [], 1000, 1000⟩ := by
  have hcache : renamed.shared.svc.dir.users.lookup "u1" =
      some ⟨"u1", "ann", true, [], 1700, 1700⟩ := by decide +kernel
  refine ⟨by decide +kernel, hcache, ?_⟩
  rw [(directory_survives renamed_reachable).1.users, hcache]
  rfl

end Life

end Rehydration

end Knowledge.Permission
