import Knowledge.Permission.Scim

/-!
Which tuples a directory asks for, and what each request may change of the directory and
of the tuples: the facts its handler reads or writes.
-/

set_option autoImplicit false

namespace Knowledge.Permission
open Knowledge.Atomic
open Knowledge.Sync (Uuid)

def memberTuple (group user : Uuid) : RelationTuple :=
  ⟨⟨.group, group⟩, .member, .direct .user user⟩

def roleTuple (tenant : Uuid) (role : Relation) (group : Uuid) : RelationTuple :=
  ⟨⟨.tenant, tenant⟩, role, .via .group group .member⟩

def Encodes (parse : String → Option Uuid) (displayName : String) (tenant : Uuid)
    (role : Relation) : Prop :=
  ∃ p, parseGroupRole parse displayName = some p ∧ parse p.1 = some tenant ∧
    Relation.ofStr p.2 = some role

namespace Directory

section

variable (parse : String → Option Uuid) (dir : Directory)

def Inactive (user : Uuid) : Prop :=
  ∃ uid u, dir.users.lookup uid = some u ∧ parse uid = some user ∧ u.active = false

def HasMember (group user : Uuid) : Prop :=
  ∃ gid g, dir.groups.lookup gid = some g ∧ parse gid = some group ∧
    ∃ m ∈ g.members, parse m.value = some user

def Binds (tenant : Uuid) (role : Relation) (group : Uuid) : Prop :=
  ∃ gid g, dir.groups.lookup gid = some g ∧ parse gid = some group ∧
    Encodes parse g.displayName tenant role

end

inductive Wants (parse : String → Option Uuid) (dir : Directory) : RelationTuple → Prop where
  | member {group user : Uuid} : dir.HasMember parse group user → ¬dir.Inactive parse user →
      Wants parse dir (memberTuple group user)
  | role {tenant group : Uuid} {role : Relation} : dir.Binds parse tenant role group →
      Wants parse dir (roleTuple tenant role group)

def names (parse : String → Option Uuid) (dir : Directory) (gid : String) (user : Uuid) :
    List String :=
  match dir.groups.lookup gid with
  | none => []
  | some g => (g.members.map GroupMember.value).filter (fun v => parse v = some user)

end Directory

variable {parse : String → Option Uuid}

theorem wants_member_iff {dir : Directory} {group user : Uuid} :
    dir.Wants parse (memberTuple group user) ↔
      dir.HasMember parse group user ∧ ¬dir.Inactive parse user := by
  constructor
  · generalize ht : memberTuple group user = t
    rintro (⟨hm, hi⟩ | hb)
    · simp only [memberTuple, SubjectRef.direct, RelationTuple.mk.injEq, ObjectRef.mk.injEq,
        SubjectRef.mk.injEq, true_and, and_true] at ht
      obtain ⟨rfl, rfl⟩ := ht
      exact ⟨hm, hi⟩
    · simp [memberTuple, roleTuple] at ht
  · exact fun h => .member h.1 h.2

theorem wants_role_iff {dir : Directory} {tenant group : Uuid} {role : Relation} :
    dir.Wants parse (roleTuple tenant role group) ↔ dir.Binds parse tenant role group := by
  constructor
  · generalize ht : roleTuple tenant role group = t
    rintro (⟨hm, hi⟩ | hb)
    · simp [memberTuple, roleTuple] at ht
    · simp only [roleTuple, SubjectRef.via, RelationTuple.mk.injEq, ObjectRef.mk.injEq,
        SubjectRef.mk.injEq, true_and, and_true] at ht
      obtain ⟨rfl, rfl, rfl⟩ := ht
      exact hb
  · exact .role

theorem wants_congr {dir dir' : Directory} {t : RelationTuple}
    (hm : ∀ group user, t = memberTuple group user →
      (dir.HasMember parse group user ↔ dir'.HasMember parse group user) ∧
      (dir.Inactive parse user ↔ dir'.Inactive parse user))
    (hr : ∀ tenant role group, t = roleTuple tenant role group →
      (dir.Binds parse tenant role group ↔ dir'.Binds parse tenant role group)) :
    dir.Wants parse t ↔ dir'.Wants parse t := by
  constructor
  · intro h
    cases h with
    | member h hi => exact .member ((hm _ _ rfl).1.mp h) (fun h' => hi ((hm _ _ rfl).2.mpr h'))
    | role h => exact .role ((hr _ _ _ rfl).mp h)
  · intro h
    cases h with
    | member h hi => exact .member ((hm _ _ rfl).1.mpr h) (fun h' => hi ((hm _ _ rfl).2.mp h'))
    | role h => exact .role ((hr _ _ _ rfl).mpr h)

theorem mem_names_iff {dir : Directory} {gid v : String} {user : Uuid} :
    v ∈ dir.names parse gid user ↔ parse v = some user ∧
      ∃ g, dir.groups.lookup gid = some g ∧ ∃ m ∈ g.members, m.value = v := by
  cases hg : dir.groups.lookup gid with
  | none => simp [Directory.names, hg]
  | some g => simp [Directory.names, hg, and_comm]

theorem hasMember_iff_names {dir : Directory} {group user : Uuid} :
    dir.HasMember parse group user ↔
      ∃ gid v, parse gid = some group ∧ v ∈ dir.names parse gid user := by
  simp only [mem_names_iff]
  constructor
  · rintro ⟨gid, g, hg, hgid, m, hm, hv⟩
    exact ⟨gid, m.value, hgid, hv, g, hg, m, hm, rfl⟩
  · rintro ⟨gid, v, hgid, hv, g, hg, m, hm, rfl⟩
    exact ⟨gid, g, hg, hgid, m, hm, hv⟩

theorem inGroup_iff_names {dir : Directory} {uid gid : String} {user : Uuid}
    (hu : parse uid = some user) : dir.inGroup uid gid = true ↔ uid ∈ dir.names parse gid user := by
  rw [mem_names_iff]
  cases hg : dir.groups.lookup gid with
  | none => simp [Directory.inGroup, hg]
  | some g => simp [Directory.inGroup, hg, hu]

/-- What a handler reads or writes, as a fact of its own. -/
inductive Fact where
  | active (v : String)
  | inactive (user : Uuid)
  | user (uid : String)
  | userKey (user : Uuid)
  | group (gid : String)
  | groupKey (group : Uuid)
  | names (gid : String) (user : Uuid)
  | tuple (t : RelationTuple)
  | wanted (t : RelationTuple)

def Fact.Val : Fact → Type
  | .active _ => Bool
  | .inactive _ => Prop
  | .user _ => Option Bool
  | .userKey _ => Prop
  | .group _ => Option Group
  | .groupKey _ => Prop
  | .names _ _ => List String
  | .tuple _ => Prop
  | .wanted _ => Prop

def Fact.obs (parse : String → Option Uuid) (s : Service) : (f : Fact) → f.Val
  | .active v => s.dir.userActive v
  | .inactive who => s.dir.Inactive parse who
  | .user uid => (s.dir.users.lookup uid).map User.active
  | .userKey who => ∃ uid u, s.dir.users.lookup uid = some u ∧ parse uid = some who
  | .group gid => s.dir.groups.lookup gid
  | .groupKey which => ∃ gid g, s.dir.groups.lookup gid = some g ∧ parse gid = some which
  | .names gid who => s.dir.names parse gid who
  | .tuple t => t ∈ s.perms.tuples
  | .wanted t => s.dir.Wants parse t

/-- Keys are UUIDs, no two of them the same one, and a group is filed under its own id.
Values that name a user or a tenant are plain, whatever that may mean. -/
structure Directory.Keys (parse : String → Option Uuid) (plain : String → Prop)
    (dir : Directory) : Prop where
  user : ∀ uid u, dir.users.lookup uid = some u → plain uid ∧ ∃ user, parse uid = some user
  userUnique : ∀ uid uid' u u', dir.users.lookup uid = some u → dir.users.lookup uid' = some u' →
    parse uid = parse uid' → uid = uid'
  group : ∀ gid g, dir.groups.lookup gid = some g → g.id = gid ∧ ∃ group, parse gid = some group
  groupUnique : ∀ gid gid' g g', dir.groups.lookup gid = some g →
    dir.groups.lookup gid' = some g' → parse gid = parse gid' → gid = gid'
  member : ∀ gid g, dir.groups.lookup gid = some g → ∀ m ∈ g.members,
    (parse m.value).isSome → plain m.value
  tenant : ∀ gid g p, dir.groups.lookup gid = some g →
    parseGroupRole parse g.displayName = some p → plain p.1

def scimWorld (parse : String → Option Uuid) (plain : String → Prop) :
    World Service Fact RelationTuple where
  Val := Fact.Val
  obs f s := f.obs parse s
  inv s := s.dir.Keys parse plain
  right t s := t ∈ s.perms.tuples ↔ s.dir.Wants parse t
  rests t f := f = .tuple t ∨ f = .wanted t
  congr t s s' h hr := by
    have htuple : (t ∈ s.perms.tuples) = (t ∈ s'.perms.tuples) := h (.tuple t) (.inl rfl)
    have hwant : s.dir.Wants parse t = s'.dir.Wants parse t := h (.wanted t) (.inr rfl)
    rw [← htuple, ← hwant]
    exact hr

/-- What a request is about: a user whose flag changes or who is deleted, a user whose flag
stays, a new user, a group with those named by its old or new members, or a group that is
not there. -/
inductive Scope where
  | user (uid : String) (gids : List String)
  | rename (uid : String)
  | newUser (uid : String)
  | group (gid : String) (named : List Uuid)
  | missing (gid : String)
  | idle

section

variable (parse : String → Option Uuid)

def Scope.Controls (t : RelationTuple) : Scope → Prop
  | .user uid _ => ∃ group user, parse uid = some user ∧ t = memberTuple group user
  | .group gid named =>
    (∃ group user, parse gid = some group ∧ user ∈ named ∧ t = memberTuple group user) ∨
    ∃ tenant role group, parse gid = some group ∧ t = roleTuple tenant role group
  | _ => False

def Scope.touches (scope : Scope) (f : Fact) : Prop :=
  match f, scope with
  | .tuple t, scope => scope.Controls parse t
  | .wanted t, scope => scope.Controls parse t
  | .active v, .user uid _ => v = uid
  | .inactive who, .user uid _ => parse uid = some who
  | .user w, .user uid _ => w = uid
  | .user w, .newUser uid => w = uid
  | .userKey who, .user uid _ => parse uid = some who
  | .userKey who, .newUser uid => parse uid = some who
  | .group g, .user _ gids => g ∈ gids
  | .group g, .group gid _ => g = gid
  | .groupKey which, .group gid _ => parse gid = some which
  | .names _ who, .user uid _ => parse uid = some who
  | .names g who, .group gid named => g = gid ∧ who ∈ named
  | _, _ => False

def Scope.needs (scope : Scope) (f : Fact) : Prop :=
  match f, scope with
  | .tuple t, scope => scope.Controls parse t
  | .wanted t, scope => scope.Controls parse t
  | .active v, .group _ named => ∃ who ∈ named, parse v = some who
  | .inactive who, .user uid _ => parse uid = some who
  | .inactive who, .group _ named => who ∈ named
  | .user w, .user uid _ => w = uid
  | .user w, .rename uid => w = uid
  | .userKey who, .newUser uid => parse uid = some who
  | .group g, .group gid _ => g = gid
  | .group g, .missing gid => g = gid
  | .groupKey which, .group gid _ => parse gid = some which
  | .names _ who, .user uid _ => parse uid = some who
  | _, _ => False

def Scope.footprint (scope : Scope) : Footprint Fact :=
  ⟨scope.touches parse, scope.needs parse⟩

end

namespace Directory

def SpellsUser (parse : String → Option Uuid) (dir : Directory) (uid : String) : Prop :=
  ∀ gid g, dir.groups.lookup gid = some g → ∀ m ∈ g.members, parse m.value = parse uid →
    m.value = uid

/-- A member that comes or goes is not another spelling of an inactive user's id, and a
member that goes is not another spelling of an active one that stays or comes. -/
structure SpellsMembers (parse : String → Option Uuid) (dir : Directory)
    (prev next : List String) : Prop where
  inactive : ∀ v, (v ∈ prev ∧ v ∉ next) ∨ (v ∈ next ∧ v ∉ prev) → ∀ uid u,
    dir.users.lookup uid = some u → u.active = false → parse uid = parse v → uid = v
  stays : ∀ v ∈ prev, v ∉ next → ∀ v' ∈ next, ∀ user, parse v = some user →
    parse v' = some user → dir.Inactive parse user

end Directory

def SpellsRole (parse : String → Option Uuid) (prevName nextName : String) : Prop :=
  ∀ p p', parseGroupRole parse prevName = some p → parseGroupRole parse nextName = some p' →
    parse p.1 = parse p'.1 → p.2 = p'.2 → p.1 = p'.1

def memberValues (members : List GroupMember) : List String := members.map GroupMember.value

def namedBy (parse : String → Option Uuid) (members : List GroupMember) : List Uuid :=
  (memberValues members).filterMap parse

namespace Request

/-- Whether the request spells the ids it repeats as they were spelled before. -/
def OneSpelling (parse : String → Option Uuid) (dir : Directory) : Request → Prop
  | .replaceUser _ id _ (some input) => ∀ u, dir.users.lookup id = some u →
    u.active ≠ input.active → dir.SpellsUser parse id
  | .deleteUser _ id _ => ∀ u, dir.users.lookup id = some u → dir.SpellsUser parse id
  | .createGroup _ _ _ (some input) => dir.SpellsMembers parse [] (memberValues input.members)
  | .replaceGroup _ id now (some input) => ∀ g, dir.groups.lookup id = some g →
    dir.SpellsMembers parse (memberValues g.members) (memberValues input.members) ∧
    SpellsRole parse g.displayName (g.replace now input).displayName
  | .deleteGroup _ id => ∀ g, dir.groups.lookup id = some g →
    dir.SpellsMembers parse (memberValues g.members) []
  | _ => True

def Plain (parse : String → Option Uuid) (plain : String → Prop) : Request → Prop
  | .createUser id _ _ => plain id
  | .createGroup _ _ _ (some input) | .replaceGroup _ _ _ (some input) =>
    (∀ m ∈ input.members, (parse m.value).isSome → plain m.value) ∧
    ∀ p, parseGroupRole parse input.displayName = some p → plain p.1
  | _ => True

def scope (parse : String → Option Uuid) (dir : Directory) : Request → Scope
  | .createUser id _ _ => .newUser id
  | .replaceUser _ id _ (some input) =>
    match dir.users.lookup id with
    | some u => if u.active ≠ input.active then .user id (dir.groups.keys.filter (dir.inGroup id))
      else .rename id
    | none => .rename id
  | .deleteUser _ id _ =>
    match dir.users.lookup id with
    | some _ => .user id (dir.groups.keys.filter (dir.inGroup id))
    | none => .rename id
  | .createGroup _ id _ (some input) => .group id (namedBy parse input.members)
  | .replaceGroup _ id _ (some input) =>
    match dir.groups.lookup id with
    | some g => .group id (namedBy parse (g.members ++ input.members))
    | none => .missing id
  | .deleteGroup _ id =>
    match dir.groups.lookup id with
    | some g => .group id (namedBy parse g.members)
    | none => .missing id
  | _ => .idle

/-- An id that is generated is a UUID in its canonical form, and no other resource of its
kind has it. -/
def Fresh (env : Env) (dir : Directory) : Request → Prop
  | .createUser id _ _ => ∃ user, id = env.format user ∧ env.parse id = some user ∧
    ∀ uid u, dir.users.lookup uid = some u → env.parse uid ≠ some user
  | .createGroup _ id _ _ => ∃ group, id = env.format group ∧ env.parse id = some group ∧
    ∀ gid g, dir.groups.lookup gid = some g → env.parse gid ≠ some group
  | _ => True

end Request

end Knowledge.Permission
