import Knowledge.Permission.Handlers

/-!
The handlers of groups. Creating, replacing and deleting a group are one reconciliation
from the record the directory has to the record it is to have, either of which may be
none.
-/

set_option autoImplicit false

namespace Knowledge.Permission
open Knowledge.Atomic
open Knowledge.Sync (Uuid)
open Request ScopeSafe

def recordMembers : Option Group → List GroupMember
  | none => []
  | some g => g.members

def recordName : Option Group → String
  | none => ""
  | some g => g.displayName

section

variable {parse : String → Option Uuid} {plain : String → Prop}

theorem not_encodes_empty {tenant : Uuid} {r : Relation} : ¬Encodes parse "" tenant r := by
  rintro ⟨p, hp, -⟩
  have hnone : parseGroupRole parse "" = none := rfl
  rw [hnone] at hp
  cases hp

/-- No other group of the directory has this UUID. -/
def Directory.Only (parse : String → Option Uuid) (dir : Directory) (gid : String) : Prop :=
  ∀ gid' g', dir.groups.lookup gid' = some g' → parse gid' = parse gid → gid' = gid

theorem hasMember_at {dir : Directory} {gid : String} {group user : Uuid}
    (hg : parse gid = some group) (honly : dir.Only parse gid) :
    dir.HasMember parse group user ↔
      ∃ v ∈ memberValues (recordMembers (dir.groups.lookup gid)), parse v = some user := by
  constructor
  · rintro ⟨gid', g', hl, hp, m, hm, hv⟩
    obtain rfl := honly gid' g' hl (hp.trans hg.symm)
    rw [hl]
    exact ⟨m.value, List.mem_map.mpr ⟨m, hm, rfl⟩, hv⟩
  · rintro ⟨v, hv, hname⟩
    cases hl : dir.groups.lookup gid with
    | none => simp [hl, recordMembers, memberValues] at hv
    | some g =>
      rw [hl] at hv
      obtain ⟨m, hm, rfl⟩ := List.mem_map.mp hv
      exact ⟨gid, g, hl, hg, m, hm, hname⟩

theorem binds_at {dir : Directory} {gid : String} {group tenant : Uuid} {r : Relation}
    (hg : parse gid = some group) (honly : dir.Only parse gid) :
    dir.Binds parse tenant r group ↔
      Encodes parse (recordName (dir.groups.lookup gid)) tenant r := by
  constructor
  · rintro ⟨gid', g', hl, hp, he⟩
    obtain rfl := honly gid' g' hl (hp.trans hg.symm)
    rw [hl]
    exact he
  · intro he
    cases hl : dir.groups.lookup gid with
    | none =>
      rw [hl] at he
      exact absurd he not_encodes_empty
    | some g =>
      rw [hl] at he
      exact ⟨gid, g, hl, hg, he⟩

theorem names_eq_nil {dir : Directory} {gid : String} {user : Uuid}
    (h : ∀ v ∈ memberValues (recordMembers (dir.groups.lookup gid)), parse v ≠ some user) :
    dir.names parse gid user = [] := by
  rw [Directory.names]
  cases hl : dir.groups.lookup gid with
  | none => rfl
  | some g =>
    rw [hl] at h
    simpa [recordMembers, memberValues] using h

/-- Only the record of one group differs, and it names nobody outside of the scope. -/
structure Directory.Rewrites (parse : String → Option Uuid) (gid : String) (named : List Uuid)
    (dir dir' : Directory) : Prop where
  users : dir'.users = dir.users
  other : ∀ gid', gid' ≠ gid → dir'.groups.lookup gid' = dir.groups.lookup gid'
  names : ∀ v ∈ memberValues (recordMembers (dir.groups.lookup gid)), ∀ user,
    parse v = some user → user ∈ named
  names' : ∀ v ∈ memberValues (recordMembers (dir'.groups.lookup gid)), ∀ user,
    parse v = some user → user ∈ named

theorem Directory.Rewrites.names_eq {dir dir' : Directory} {gid gid' : String} {named : List Uuid}
    {user : Uuid} (h : Rewrites parse gid named dir dir') (hn : ¬(gid' = gid ∧ user ∈ named)) :
    dir.names parse gid' user = dir'.names parse gid' user := by
  by_cases hg : gid' = gid
  · subst hg
    have hnot : user ∉ named := fun hu => hn ⟨rfl, hu⟩
    rw [names_eq_nil (fun v hv hname => hnot (h.names v hv user hname)),
      names_eq_nil (fun v hv hname => hnot (h.names' v hv user hname))]
  · rw [Directory.names, Directory.names, h.other gid' hg]

theorem Directory.Rewrites.inactive_iff {dir dir' : Directory} {gid : String} {named : List Uuid}
    (h : Rewrites parse gid named dir dir') (user : Uuid) :
    dir.Inactive parse user ↔ dir'.Inactive parse user := by
  rw [Directory.Inactive, Directory.Inactive, h.users]

theorem guar_group {gid : String} {named : List Uuid} {s t : Service}
    (h : Directory.Rewrites parse gid named s.dir t.dir) (hperms : t.perms = s.perms)
    (hkeys : s.dir.Keys parse plain → t.dir.Keys parse plain) :
    (scimWorld parse plain).guar ((Scope.group gid named).footprint parse) s t := by
  refine ⟨hkeys, fun f hf => ?_⟩
  have hlookup : ∀ gid', gid' ≠ gid → s.dir.groups.lookup gid' = t.dir.groups.lookup gid' :=
    fun gid' hne => (h.other gid' hne).symm
  cases f with
  | active v =>
    change s.dir.userActive v = t.dir.userActive v
    rw [Directory.userActive, Directory.userActive, h.users]
  | inactive who => exact propext (h.inactive_iff who)
  | user uid =>
    change (s.dir.users.lookup uid).map User.active = (t.dir.users.lookup uid).map User.active
    rw [h.users]
  | userKey who =>
    change (∃ uid u, s.dir.users.lookup uid = some u ∧ parse uid = some who) =
      ∃ uid u, t.dir.users.lookup uid = some u ∧ parse uid = some who
    rw [h.users]
  | group g => exact hlookup g hf
  | groupKey which =>
    refine propext ⟨?_, ?_⟩
    · rintro ⟨gid', g, hl, hp⟩
      have hne : gid' ≠ gid := fun heq => hf (heq ▸ hp)
      exact ⟨gid', g, (hlookup gid' hne) ▸ hl, hp⟩
    · rintro ⟨gid', g, hl, hp⟩
      have hne : gid' ≠ gid := fun heq => hf (heq ▸ hp)
      exact ⟨gid', g, (hlookup gid' hne).symm ▸ hl, hp⟩
  | names g who => exact h.names_eq hf
  | tuple x =>
    change (x ∈ s.perms.tuples) = (x ∈ t.perms.tuples)
    rw [hperms]
  | wanted x =>
    refine propext (wants_congr ?_ ?_)
    · rintro group user rfl
      refine ⟨?_, h.inactive_iff user⟩
      rw [hasMember_iff_names, hasMember_iff_names]
      refine exists_congr fun gid' => exists_congr fun v => and_congr_right fun hp => ?_
      rw [h.names_eq]
      rintro ⟨rfl, hu⟩
      exact hf (.inl ⟨group, user, hp, hu, rfl⟩)
    · rintro tenant role group rfl
      refine exists_congr fun gid' => exists_congr fun g => ?_
      have hne : parse gid' = some group → gid' ≠ gid := by
        rintro hp rfl
        exact hf (.inr ⟨tenant, role, group, hp, rfl⟩)
      constructor
      · rintro ⟨hl, hp, he⟩
        exact ⟨(hlookup gid' (hne hp)) ▸ hl, hp, he⟩
      · rintro ⟨hl, hp, he⟩
        exact ⟨(hlookup gid' (hne hp)).symm ▸ hl, hp, he⟩

theorem Directory.Keys.setGroup {dir : Directory} (h : dir.Keys parse plain) {gid : String}
    {g : Group} (hid : g.id = gid) (hg : ∃ group, parse gid = some group)
    (honly : dir.Only parse gid) (hmember : ∀ m ∈ g.members, (parse m.value).isSome → plain m.value)
    (htenant : ∀ p, parseGroupRole parse g.displayName = some p → plain p.1) :
    (dir.setGroup gid g).Keys parse plain := by
  have hcases : ∀ gid' g', (dir.setGroup gid g).groups.lookup gid' = some g' →
      (gid' = gid ∧ g' = g) ∨ dir.groups.lookup gid' = some g' := by
    intro gid' g' hl
    by_cases heq : gid' = gid
    · subst heq
      simp only [Directory.setGroup, AList.lookup_insert, Option.some.injEq] at hl
      exact .inl ⟨rfl, hl.symm⟩
    · simp only [Directory.setGroup, AList.lookup_insert_ne heq] at hl
      exact .inr hl
  refine ⟨h.user, h.userUnique, ?_, ?_, ?_, ?_⟩
  · intro gid' g' hl
    obtain ⟨rfl, rfl⟩ | hl := hcases gid' g' hl
    · exact ⟨hid, hg⟩
    · exact h.group gid' g' hl
  · intro a b g' g'' ha hb hp
    obtain ⟨rfl, -⟩ | ha' := hcases a g' ha
    · obtain ⟨rfl, -⟩ | hb' := hcases b g'' hb
      · rfl
      · exact (honly b g'' hb' hp.symm).symm
    · obtain ⟨rfl, -⟩ | hb' := hcases b g'' hb
      · exact honly a g' ha' hp
      · exact h.groupUnique a b g' g'' ha' hb' hp
  · intro gid' g' hl
    obtain ⟨rfl, rfl⟩ | hl := hcases gid' g' hl
    · exact hmember
    · exact h.member gid' g' hl
  · intro gid' g' p hl hp
    obtain ⟨rfl, rfl⟩ | hl := hcases gid' g' hl
    · exact htenant p hp
    · exact h.tenant gid' g' p hl hp

theorem lookup_erase_some {groups : AList (fun _ : String => Group)} {gid gid' : String}
    {g : Group} (h : (groups.erase gid).lookup gid' = some g) :
    gid' ≠ gid ∧ groups.lookup gid' = some g := by
  by_cases heq : gid' = gid
  · subst heq
    simp at h
  · rw [AList.lookup_erase_ne heq] at h
    exact ⟨heq, h⟩

theorem Directory.Keys.eraseGroup {dir : Directory} (h : dir.Keys parse plain) (gid : String) :
    (dir.deleteGroup gid).Keys parse plain := by
  refine ⟨h.user, h.userUnique, ?_, ?_, ?_, ?_⟩
  · exact fun gid' g' hl => h.group gid' g' (lookup_erase_some hl).2
  · exact fun a b g' g'' ha hb =>
      h.groupUnique a b g' g'' (lookup_erase_some ha).2 (lookup_erase_some hb).2
  · exact fun gid' g' hl => h.member gid' g' (lookup_erase_some hl).2
  · exact fun gid' g' p hl => h.tenant gid' g' p (lookup_erase_some hl).2

theorem decode_member_inv {gid uid : String} {x : RelationTuple}
    (h : (groupMemberTuple gid uid).decode parse = some x) :
    ∃ group user, x = memberTuple group user := by
  cases hg : parse gid with
  | none => simp [groupMemberTuple, WireTuple.decode, hg] at h
  | some group =>
    cases hu : parse uid with
    | none => simp [groupMemberTuple, WireTuple.decode, hu] at h
    | some user =>
      rw [decode_member hg hu] at h
      exact ⟨group, user, (Option.some.inj h).symm⟩

end

section

variable {env : Env} {plain : String → Prop} {scope : Scope}

theorem Track.reconcileLoop {s₀ s : Service} (h : Track env plain scope s₀ [] s) (grant : Bool)
    (gid : String) (other uids : List String)
    (hneed : ∀ uid ∈ uids, uid ∉ other → scope.needs env.parse (.active uid)) :
    ScopeSafe env plain scope (Permission.reconcileLoop grant gid other uids)
      (fun ops s => ops = planned s₀.dir grant gid other uids ∧
        Track env plain scope s₀ [] s) s := by
  induction uids generalizing s with
  | nil => exact doneTrack h rfl
  | cons uid rest ih =>
    have hrest : ∀ v ∈ rest, v ∉ other → scope.needs env.parse (.active v) :=
      fun v hv => hneed v (List.mem_cons_of_mem _ hv)
    rw [Permission.reconcileLoop]
    by_cases ho : uid ∈ other
    · have hskip : planned s₀.dir grant gid other (uid :: rest) =
          planned s₀.dir grant gid other rest := by
        simp [planned, ho]
      rw [if_pos ho, hskip]
      exact ih h hrest
    · rw [if_neg ho]
      have hread : ∀ t, Track env plain scope s₀ [] t →
          t.dir.userActive uid = s₀.dir.userActive uid :=
        fun t ht => (ht.same (.active uid) (hneed uid List.mem_cons_self ho) (by simp)).symm
      refine (read (P := (· = s₀.dir.userActive uid)) h hread).bind ?_
      rintro active t ⟨rfl, ht⟩
      refine (ih ht hrest).bind ?_
      rintro ops u ⟨rfl, hu⟩
      refine doneTrack hu ?_
      by_cases ha : s₀.dir.userActive uid = true
      · simp [planned, ho, ha]
      · simp [planned, ho, ha]

def plan (env : Env) (orders : MapOrders) (dir : Directory) (gid : String)
    (prev next : List GroupMember) : List TupleOp :=
  planned dir true gid (mappableMemberIds env.parse prev)
      (orders.next.list (mappableMemberIds env.parse next)) ++
    planned dir false gid (mappableMemberIds env.parse next)
      (orders.prev.list (mappableMemberIds env.parse prev))

theorem Track.groupReconcileOps {s₀ s : Service} (h : Track env plain scope s₀ [] s)
    (orders : MapOrders) (gid : String) (prev next : List GroupMember)
    (hneed : ∀ uid, uid ∈ memberValues prev ∨ uid ∈ memberValues next →
      (env.parse uid).isSome → scope.needs env.parse (.active uid)) :
    ScopeSafe env plain scope (Permission.groupReconcileOps env orders gid prev next)
      (fun ops s => ops = plan env orders s₀.dir gid prev next ∧
        Track env plain scope s₀ [] s) s := by
  have hnext : ∀ uid ∈ orders.next.list (mappableMemberIds env.parse next),
      uid ∉ mappableMemberIds env.parse prev → scope.needs env.parse (.active uid) := by
    intro uid hu _
    rw [(orders.next.perm _).mem_iff, mem_mappable_iff] at hu
    exact hneed uid (.inr hu.1) hu.2
  have hprev : ∀ uid ∈ orders.prev.list (mappableMemberIds env.parse prev),
      uid ∉ mappableMemberIds env.parse next → scope.needs env.parse (.active uid) := by
    intro uid hu _
    rw [(orders.prev.perm _).mem_iff, mem_mappable_iff] at hu
    exact hneed uid (.inl hu.1) hu.2
  refine (h.reconcileLoop true gid _ _ hnext).bind ?_
  rintro grants t ⟨rfl, ht⟩
  refine (ht.reconcileLoop false gid _ _ hprev).bind ?_
  rintro revokes u ⟨rfl, hu⟩
  exact doneTrack hu rfl

theorem plan_controls {orders : MapOrders} {dir : Directory} {gid : String} {group : Uuid}
    {prev next : List GroupMember} {named : List Uuid} {prevName nextName : String}
    (hg : env.parse gid = some group)
    (hnamed : ∀ v, v ∈ memberValues prev ∨ v ∈ memberValues next → ∀ user,
      env.parse v = some user → user ∈ named) :
    ∀ op ∈ plan env orders dir gid prev next ++
        groupRoleReconcileOps env.parse prevName nextName gid,
      ∃ t, op.tuple.decode env.parse = some t ∧ (Scope.group gid named).Controls env.parse t := by
  have hmember : ∀ uid, uid ∈ memberValues prev ∨ uid ∈ memberValues next →
      (env.parse uid).isSome → ∃ t, (groupMemberTuple gid uid).decode env.parse = some t ∧
        (Scope.group gid named).Controls env.parse t := by
    intro uid hu hsome
    obtain ⟨user, hname⟩ := Option.isSome_iff_exists.mp hsome
    exact ⟨_, decode_member hg hname, .inl ⟨group, user, hg, hnamed uid hu user hname, rfl⟩⟩
  have hrole : ∀ (displayName : String) (grant : Bool),
      ∀ op ∈ (parseGroupRole env.parse displayName).toList.map
        fun p => (⟨grant, groupRoleTuple p.1 p.2 gid⟩ : TupleOp),
      ∃ t, op.tuple.decode env.parse = some t ∧ (Scope.group gid named).Controls env.parse t := by
    intro displayName grant op hop
    obtain ⟨p, hp, rfl⟩ := List.mem_map.mp hop
    obtain ⟨tenant, r, ht, hr⟩ := exists_encodes (Option.mem_toList.mp hp)
    exact ⟨_, decode_role ht hr hg, .inr ⟨tenant, r, group, hg, rfl⟩⟩
  intro op hop
  simp only [plan, List.mem_append] at hop
  obtain (hop | hop) | hop := hop
  · obtain ⟨uid, hu, rfl⟩ := List.mem_map.mp hop
    have hu := (List.mem_filter.mp hu).1
    rw [(orders.next.perm _).mem_iff, mem_mappable_iff] at hu
    exact hmember uid (.inr hu.1) hu.2
  · obtain ⟨uid, hu, rfl⟩ := List.mem_map.mp hop
    have hu := (List.mem_filter.mp hu).1
    rw [(orders.prev.perm _).mem_iff, mem_mappable_iff] at hu
    exact hmember uid (.inl hu.1) hu.2
  · rw [groupRoleReconcileOps] at hop
    split at hop
    · cases hop
    · obtain hop | hop := List.mem_append.mp hop
      · exact hrole nextName true op hop
      · exact hrole prevName false op hop

/-- The plan done and the new record written, the tuples of the group are as the directory
asks for them. -/
theorem settled_group {orders : MapOrders} {gid : String} {group : Uuid} {named : List Uuid}
    {s₀ t t' : Service} (hg : env.parse gid = some group)
    (h₀ : Settled env (.group gid named) s₀) (honly₀ : s₀.dir.Only env.parse gid)
    {prev next : List GroupMember} {prevName nextName : String}
    (hprev : recordMembers (s₀.dir.groups.lookup gid) = prev)
    (hprevName : recordName (s₀.dir.groups.lookup gid) = prevName)
    (hspell : s₀.dir.SpellsMembers env.parse (memberValues prev) (memberValues next))
    (hrole : SpellsRole env.parse prevName nextName)
    (htrack : Track env plain (.group gid named) s₀ (plan env orders s₀.dir gid prev next ++
      groupRoleReconcileOps env.parse prevName nextName gid) t)
    (hrw : Directory.Rewrites env.parse gid named t.dir t'.dir) (hperms : t'.perms = t.perms)
    (honly : t'.dir.Only env.parse gid) (hnext : recordMembers (t'.dir.groups.lookup gid) = next)
    (hnextName : recordName (t'.dir.groups.lookup gid) = nextName) :
    Settled env (.group gid named) t' := by
  intro x hx
  rw [hperms, htrack.tuples x hx, after_append]
  have hx₀ := h₀ x hx
  obtain ⟨group', user, hg', hu, rfl⟩ | ⟨tenant, r, group', hg', rfl⟩ := hx
  · obtain rfl : group' = group := Option.some.inj (hg'.symm.trans hg)
    rw [wants_member_iff, hasMember_at hg honly₀, hprev] at hx₀
    have hother : ∀ op ∈ groupRoleReconcileOps env.parse prevName nextName gid,
        op.tuple.decode env.parse ≠ some (memberTuple group' user) := by
      intro op hop hd
      rw [groupRoleReconcileOps] at hop
      have hmap : ∀ displayName grant, op ∈ (parseGroupRole env.parse displayName).toList.map
          (fun p => (⟨grant, groupRoleTuple p.1 p.2 gid⟩ : TupleOp)) → False := by
        intro displayName grant hop
        obtain ⟨p, hp, rfl⟩ := List.mem_map.mp hop
        obtain ⟨tenant, r, ht, hr⟩ := exists_encodes (Option.mem_toList.mp hp)
        rw [decode_role ht hr hg] at hd
        simp [memberTuple, roleTuple] at hd
      split at hop
      · cases hop
      · obtain hop | hop := List.mem_append.mp hop
        · exact hmap nextName true hop
        · exact hmap prevName false hop
    have hinactive : s₀.dir.Inactive env.parse user ↔ t'.dir.Inactive env.parse user :=
      (iff_of_eq (htrack.same (.inactive user) hu (by simp))).trans (hrw.inactive_iff user)
    rw [mem_after_of_not_named hother, plan, planned_member hg (orders.next.perm _)
      (orders.prev.perm _) hspell hx₀, wants_member_iff, hasMember_at hg honly, hnext, hinactive]
  · obtain rfl : group' = group := Option.some.inj (hg'.symm.trans hg)
    rw [wants_role_iff, binds_at hg honly₀, hprevName] at hx₀
    have hother : ∀ op ∈ plan env orders s₀.dir gid prev next,
        op.tuple.decode env.parse ≠ some (roleTuple tenant r group') := by
      intro op hop hd
      have hmem : ∃ uid, op.tuple = groupMemberTuple gid uid := by
        obtain hop | hop := List.mem_append.mp hop
        all_goals
          obtain ⟨uid, -, rfl⟩ := List.mem_map.mp hop
          exact ⟨uid, rfl⟩
      obtain ⟨uid, htuple⟩ := hmem
      rw [htuple] at hd
      obtain ⟨group'', user, heq⟩ := decode_member_inv hd
      simp [memberTuple, roleTuple] at heq
    have hbefore := (mem_after_of_not_named hother s₀.perms.tuples).trans hx₀
    rw [planned_role hg hrole hbefore, wants_role_iff, binds_at hg honly, hnextName]

theorem Track.only {gid : String} {group : Uuid} {named : List Uuid} {s₀ t : Service}
    {ops : List TupleOp} (h : Track env plain (.group gid named) s₀ ops t)
    (hg : env.parse gid = some group) (honly : s₀.dir.Only env.parse gid) :
    t.dir.Only env.parse gid := by
  intro gid' g' hl hp
  by_contra hne
  have hkey : s₀.dir.groups.lookup gid = t.dir.groups.lookup gid :=
    h.same (.group gid) rfl (by simp)
  cases hr : s₀.dir.groups.lookup gid with
  | some g =>
    rw [hr] at hkey
    exact hne (h.keys.groupUnique gid' gid g' g hl hkey.symm hp)
  | none =>
    -- nobody has this UUID at the start, so nobody else gets it
    have hgroups : (∃ a b, s₀.dir.groups.lookup a = some b ∧ env.parse a = some group) =
        ∃ a b, t.dir.groups.lookup a = some b ∧ env.parse a = some group :=
      h.same (.groupKey group) hg (by simp)
    obtain ⟨a, b, ha, hpa⟩ := (iff_of_eq hgroups).mpr ⟨gid', g', hl, hp.trans hg⟩
    obtain rfl := honly a b ha (hpa.trans hg.symm)
    rw [hr] at ha
    cases ha

theorem Track.reconcile {gid : String} {group : Uuid} {named : List Uuid} {s₀ s : Service}
    (h : Track env plain (.group gid named) s₀ [] s) (hg : env.parse gid = some group)
    (orders : MapOrders) (prev next : List GroupMember) (prevName nextName : String)
    (hnamed : ∀ v, v ∈ memberValues prev ∨ v ∈ memberValues next → ∀ user,
      env.parse v = some user → user ∈ named)
    {post : Reply → Service → Prop} {e : Reply} (rest : List TupleOp → Prog Service Reply)
    (hrest : ∀ t, Track env plain (.group gid named) s₀ (plan env orders s₀.dir gid prev next ++
        groupRoleReconcileOps env.parse prevName nextName gid) t →
      ScopeSafe env plain (.group gid named) (rest (plan env orders s₀.dir gid prev next ++
        groupRoleReconcileOps env.parse prevName nextName gid)) post t) :
    ScopeSafe env plain (.group gid named)
      (do
        let memberOps ← Permission.groupReconcileOps env orders gid prev next
        let ops := memberOps ++ groupRoleReconcileOps env.parse prevName nextName gid
        if ← Permission.applyTupleOps env ops then rest ops else pure e) post s := by
  have hneed : ∀ uid, uid ∈ memberValues prev ∨ uid ∈ memberValues next →
      (env.parse uid).isSome → (Scope.group gid named).needs env.parse (.active uid) := by
    intro uid hu hsome
    obtain ⟨user, hname⟩ := Option.isSome_iff_exists.mp hsome
    exact ⟨user, hnamed uid hu user hname, hname⟩
  refine (h.groupReconcileOps orders gid prev next hneed).bind ?_
  rintro memberOps t ⟨rfl, ht⟩
  refine (ht.applyTupleOps (plan_controls hg hnamed)).bind ?_
  rintro b u ⟨rfl, hu⟩
  exact hrest u hu

theorem Track.commitGroup {ρ : Type} {orders : MapOrders} {gid : String} {group : Uuid}
    {named : List Uuid} {s₀ s : Service} (hg : env.parse gid = some group)
    (h₀ : Settled env (.group gid named) s₀) (honly₀ : s₀.dir.Only env.parse gid)
    {prev next : List GroupMember} {prevName nextName : String}
    (hprev : recordMembers (s₀.dir.groups.lookup gid) = prev)
    (hprevName : recordName (s₀.dir.groups.lookup gid) = prevName)
    (hspell : s₀.dir.SpellsMembers env.parse (memberValues prev) (memberValues next))
    (hrole : SpellsRole env.parse prevName nextName)
    (h : Track env plain (.group gid named) s₀ (plan env orders s₀.dir gid prev next ++
      groupRoleReconcileOps env.parse prevName nextName gid) s)
    (hnamed : ∀ v, v ∈ memberValues prev ∨ v ∈ memberValues next → ∀ user,
      env.parse v = some user → user ∈ named)
    {f : Service → Service × ρ} {P : ρ → Prop}
    (hf : ∀ t, t.dir.Only env.parse gid → t.dir.Keys env.parse plain →
      t.dir.groups.lookup gid = s₀.dir.groups.lookup gid → (f t).1.failures = 0 →
      P (f t).2 ∧ (f t).1.perms = t.perms ∧ (f t).1.dir.users = t.dir.users ∧
      (∀ gid', gid' ≠ gid → (f t).1.dir.groups.lookup gid' = t.dir.groups.lookup gid') ∧
      (f t).1.dir.Keys env.parse plain ∧
      recordMembers ((f t).1.dir.groups.lookup gid) = next ∧
      recordName ((f t).1.dir.groups.lookup gid) = nextName) :
    ScopeSafe env plain (.group gid named) (.modify f)
      (fun r t => P r ∧ Settled env (.group gid named) t) s := by
  refine commit h fun t ht hok => ?_
  have honly := ht.only hg honly₀
  have hsame : t.dir.groups.lookup gid = s₀.dir.groups.lookup gid :=
    (ht.same (.group gid) rfl (by simp)).symm
  obtain ⟨hP, hperms, husers, hother, hkeys, hnext, hnextName⟩ := hf t honly ht.keys hsame hok
  have hrw : Directory.Rewrites env.parse gid named t.dir (f t).1.dir := by
    refine ⟨husers, hother, ?_, ?_⟩
    · rw [hsame, hprev]
      exact fun v hv => hnamed v (.inl hv)
    · rw [hnext]
      exact fun v hv => hnamed v (.inr hv)
  have honly' : (f t).1.dir.Only env.parse gid := by
    intro gid' g' hl hp
    by_contra hne
    rw [hother gid' hne] at hl
    exact hne (honly gid' g' hl hp)
  exact ⟨guar_group hrw hperms (fun _ => hkeys), hP, settled_group hg h₀ honly₀ hprev hprevName
    hspell hrole ht hrw hperms honly' hnext hnextName⟩

theorem Directory.Keys.only {dir : Directory} (h : dir.Keys env.parse plain) {gid : String}
    {g : Group} (hl : dir.groups.lookup gid = some g) : dir.Only env.parse gid :=
  fun gid' g' hl' hp => h.groupUnique gid' gid g' g hl' hl hp

theorem mem_namedBy {members : List GroupMember} {v : String} {user : Uuid}
    (hv : v ∈ memberValues members) (hname : env.parse v = some user) :
    user ∈ namedBy env.parse members :=
  List.mem_filterMap.mpr ⟨v, hv, hname⟩

theorem spellsRole_of_empty_left {name : String} : SpellsRole env.parse "" name := by
  intro p p' hp
  have hnone : parseGroupRole env.parse "" = none := rfl
  rw [hnone] at hp
  cases hp

theorem spellsRole_of_empty_right {name : String} : SpellsRole env.parse name "" := by
  intro p p' _ hp
  have hnone : parseGroupRole env.parse "" = none := rfl
  rw [hnone] at hp
  cases hp

theorem safe_createGroup {s : Service} (hkeys : s.dir.Keys env.parse plain) (orders : MapOrders)
    (id : String) (now : Int) (input : Option GroupInput)
    (hplain : (createGroup orders id now input).Plain env.parse plain)
    (hfresh : (createGroup orders id now input).Fresh env s.dir)
    (hspell : (createGroup orders id now input).OneSpelling env.parse s.dir)
    (h₀ : Settled env ((createGroup orders id now input).scope env.parse s.dir) s) :
    ScopeSafe env plain ((createGroup orders id now input).scope env.parse s.dir)
      (scimCreateGroup env orders id now input)
      (fun _ t => Settled env ((createGroup orders id now input).scope env.parse s.dir) t)
      s := by
  cases input with
  | none => exact done h₀
  | some input =>
    obtain ⟨group, -, hg, hnone⟩ := hfresh
    have habsent : s.dir.groups.lookup id = none := by
      cases hl : s.dir.groups.lookup id with
      | none => rfl
      | some g => exact absurd hg (hnone id g hl)
    have honly : s.dir.Only env.parse id :=
      fun gid' g' hl hp => absurd (hp.trans hg) (hnone gid' g' hl)
    rw [scimCreateGroup]
    split
    · exact done h₀
    · have hnamed : ∀ v, v ∈ memberValues [] ∨ v ∈ memberValues input.members → ∀ user,
          env.parse v = some user → user ∈ namedBy env.parse input.members := by
        intro v hv user hname
        obtain hv | hv := hv
        · cases hv
        · exact mem_namedBy hv hname
      refine (Track.init hkeys).reconcile hg orders [] input.members "" input.displayName hnamed
        (finishCreateGroup env ⟨id, input.displayName, input.members, now, now⟩) ?_
      intro t ht
      have hmembers : s.dir.SpellsMembers env.parse (memberValues [])
        (memberValues input.members) := hspell
      refine (Track.commitGroup (P := (· = true)) hg h₀ honly (by rw [habsent]; rfl)
        (by rw [habsent]; rfl) hmembers spellsRole_of_empty_left ht hnamed ?_).bind ?_
      · intro t honly hkeys _ hok
        rw [save_ok hok]
        refine ⟨rfl, rfl, rfl, fun gid' hne => AList.lookup_insert_ne hne, ?_, ?_, ?_⟩
        · exact hkeys.setGroup rfl ⟨group, hg⟩ honly hplain.1 hplain.2
        · simp [Directory.setGroup, recordMembers]
        · simp [Directory.setGroup, recordName]
      · rintro saved u ⟨rfl, hu⟩
        exact done hu

theorem Group.replace_displayName {g : Group} {now : Int} {input : GroupInput}
    {P : String → Prop} (hg : P g.displayName) (hin : P input.displayName) :
    P (g.replace now input).displayName := by
  simp only [Group.replace]
  split
  · exact hin
  · exact hg

theorem safe_replaceGroup {s : Service} (hkeys : s.dir.Keys env.parse plain) (orders : MapOrders)
    (id : String) (now : Int) (input : Option GroupInput)
    (hplain : (replaceGroup orders id now input).Plain env.parse plain)
    (hspell : (replaceGroup orders id now input).OneSpelling env.parse s.dir)
    (h₀ : Settled env ((replaceGroup orders id now input).scope env.parse s.dir) s) :
    ScopeSafe env plain ((replaceGroup orders id now input).scope env.parse s.dir)
      (scimReplaceGroup env orders id now input)
      (fun _ t => Settled env ((replaceGroup orders id now input).scope env.parse s.dir) t)
      s := by
  cases input with
  | none => exact done h₀
  | some input =>
    cases hl : s.dir.groups.lookup id with
    | none =>
      have hscope : (replaceGroup orders id now (some input)).scope env.parse s.dir =
          .missing id := by
        simp [scope, hl]
      rw [hscope] at h₀ ⊢
      refine (read (P := (· = none)) (Track.init hkeys) fun t ht => ?_).bind ?_
      · exact (ht.same (.group id) rfl (by simp)).symm.trans hl
      · rintro r t ⟨rfl, ht⟩
        exact done (ht.settled h₀)
    | some g =>
      have hscope : (replaceGroup orders id now (some input)).scope env.parse s.dir =
          .group id (namedBy env.parse (g.members ++ input.members)) := by
        simp [scope, hl]
      rw [hscope] at h₀ ⊢
      obtain ⟨hid, group, hg⟩ := hkeys.group id g hl
      obtain ⟨hmembers, hrole⟩ := hspell g hl
      have hnamed : ∀ v, v ∈ memberValues g.members ∨ v ∈ memberValues (g.replace now input).members →
          ∀ user, env.parse v = some user →
            user ∈ namedBy env.parse (g.members ++ input.members) := by
        intro v hv user hname
        refine mem_namedBy ?_ hname
        rw [memberValues, List.map_append]
        exact List.mem_append.mpr hv
      refine (read (P := (· = some g)) (Track.init hkeys) fun t ht => ?_).bind ?_
      · exact (ht.same (.group id) rfl (by simp)).symm.trans hl
      rintro r t ⟨rfl, ht⟩
      refine ht.reconcile hg orders g.members (g.replace now input).members g.displayName
        (g.replace now input).displayName hnamed (finishReplaceGroup env id (g.replace now input)) ?_
      intro u hu
      refine (Track.commitGroup (P := (· = .saved)) hg h₀ (hkeys.only hl) (by rw [hl]; rfl)
        (by rw [hl]; rfl) hmembers hrole hu hnamed ?_).bind ?_
      · intro t honly hkeys' hsame hok
        have hpresent : ¬t.dir.groups.lookup id = none := by
          rw [hsame, hl]
          simp
        rw [if_neg hpresent] at hok ⊢
        have hsave : (t.save env (·.setGroup id (g.replace now input))).1.failures = 0 := hok
        rw [save_ok hsave]
        refine ⟨rfl, rfl, rfl, fun gid' hne => AList.lookup_insert_ne hne, ?_, ?_, ?_⟩
        · refine hkeys'.setGroup hid ⟨group, hg⟩ honly hplain.1 ?_
          exact Group.replace_displayName (P := fun name =>
            ∀ p, parseGroupRole env.parse name = some p → plain p.1)
            (fun p => hkeys.tenant id g p hl) hplain.2
        · simp [Directory.setGroup, recordMembers, Group.replace]
        · simp [Directory.setGroup, recordName]
      · rintro r v ⟨rfl, hv⟩
        exact done hv

theorem safe_deleteGroup {s : Service} (hkeys : s.dir.Keys env.parse plain) (orders : MapOrders)
    (id : String) (hspell : (deleteGroup orders id).OneSpelling env.parse s.dir)
    (h₀ : Settled env ((deleteGroup orders id).scope env.parse s.dir) s) :
    ScopeSafe env plain ((deleteGroup orders id).scope env.parse s.dir)
      (scimDeleteGroup env orders id)
      (fun _ t => Settled env ((deleteGroup orders id).scope env.parse s.dir) t) s := by
  cases hl : s.dir.groups.lookup id with
  | none =>
    have hscope : (deleteGroup orders id).scope env.parse s.dir = .missing id := by
      simp [scope, hl]
    rw [hscope] at h₀ ⊢
    refine (read (P := (· = none)) (Track.init hkeys) fun t ht => ?_).bind ?_
    · exact (ht.same (.group id) rfl (by simp)).symm.trans hl
    · rintro r t ⟨rfl, ht⟩
      exact done (ht.settled h₀)
  | some g =>
    have hscope : (deleteGroup orders id).scope env.parse s.dir =
        .group id (namedBy env.parse g.members) := by
      simp [scope, hl]
    rw [hscope] at h₀ ⊢
    obtain ⟨hid, group, hg⟩ := hkeys.group id g hl
    have hnamed : ∀ v, v ∈ memberValues g.members ∨ v ∈ memberValues [] → ∀ user,
        env.parse v = some user → user ∈ namedBy env.parse g.members := by
      intro v hv user hname
      obtain hv | hv := hv
      · exact mem_namedBy hv hname
      · cases hv
    refine (read (P := (· = some g)) (Track.init hkeys) fun t ht => ?_).bind ?_
    · exact (ht.same (.group id) rfl (by simp)).symm.trans hl
    rintro r t ⟨rfl, ht⟩
    refine ht.reconcile hg orders g.members [] g.displayName "" hnamed
      (finishDeleteGroup env id) ?_
    intro u hu
    have hmembers : s.dir.SpellsMembers env.parse (memberValues g.members) (memberValues []) :=
      hspell g hl
    refine (Track.commitGroup (P := (· = true)) hg h₀ (hkeys.only hl) (by rw [hl]; rfl)
      (by rw [hl]; rfl) hmembers spellsRole_of_empty_right hu hnamed ?_).bind ?_
    · intro t honly hkeys' hsame hok
      rw [save_ok hok]
      refine ⟨rfl, rfl, rfl, fun gid' hne => AList.lookup_erase_ne hne, ?_, ?_, ?_⟩
      · exact hkeys'.eraseGroup id
      · simp [Directory.deleteGroup, recordMembers]
      · simp [Directory.deleteGroup, recordName]
    · rintro r v ⟨rfl, hv⟩
      exact done hv

end

end Knowledge.Permission
