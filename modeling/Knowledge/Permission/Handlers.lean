import Knowledge.Permission.Lockstep

/-!
Each handler keeps to the footprint of its request and leaves the tuples it works on as
the directory asks for them, whatever other requests do outside of that footprint.
-/

set_option autoImplicit false

namespace Knowledge.Permission
open Knowledge.Atomic
open Knowledge.Sync (Uuid)

def TupleOp.apply (parse : String → Option Uuid) (op : TupleOp) (tuples : Finset RelationTuple) :
    Finset RelationTuple :=
  match op.tuple.decode parse with
  | none => tuples
  | some t => if op.grant then insert t tuples else tuples.erase t

open TupleOp

theorem TupleOp.mem_apply {parse : String → Option Uuid} {op : TupleOp} {t : RelationTuple}
    (h : op.tuple.decode parse = some t) (tuples : Finset RelationTuple) (x : RelationTuple) :
    x ∈ op.apply parse tuples ↔ if op.grant then x = t ∨ x ∈ tuples else x ≠ t ∧ x ∈ tuples := by
  rw [apply, h]
  dsimp only
  split <;> simp

def after (parse : String → Option Uuid) (ops : List TupleOp) (tuples : Finset RelationTuple) :
    Finset RelationTuple :=
  ops.foldl (fun tuples op => op.apply parse tuples) tuples

theorem TupleOp.send_ok {parse : String → Option Uuid} {op : TupleOp} {perms perms' : TupleStore}
    (h : op.send parse perms = .ok perms') :
    perms'.tuples = op.apply parse perms.tuples := by
  rw [send] at h
  rw [apply]
  cases hd : op.tuple.decode parse with
  | none =>
    split at h
    · simp [permissionGrant, hd] at h
    · simp [permissionRevoke, hd] at h
  | some t =>
    split at h
    · rename_i hgrant
      simp only [permissionGrant, hd, Except.ok.injEq] at h
      simp only [hgrant, if_true, ← h, TupleStore.upsert_tuples]
    · rename_i hgrant
      simp only [permissionRevoke, hd] at h
      split at h
      · rename_i store hr
        obtain rfl := Except.ok.inj h
        simp only [hgrant, Bool.false_eq_true, if_false, TupleStore.remove_tuples hr]
      · cases h

theorem callSubstrate_ok {env : Env} {op : TupleOp} {s : Service}
    (h : (s.callSubstrate env op).1.failures = 0) :
    ∃ perms, op.send env.parse s.perms = .ok perms ∧
      s.callSubstrate env op = ({ s with perms, calls := s.calls+1 }, true) := by
  rw [Service.callSubstrate] at h ⊢
  split at h
  · rename_i perms _ hp
    exact ⟨perms, hp, rfl⟩
  · simp [Service.failed] at h
  · simp [Service.failed] at h

theorem save_ok {env : Env} {change : Directory → Directory} {s : Service}
    (h : (s.save env change).1.failures = 0) :
    s.save env change = ({ s with dir := change s.dir, calls := s.calls+1 }, true) := by
  rw [Service.save] at h ⊢
  split at h
  · rfl
  · simp [Service.failed] at h

section

variable {parse : String → Option Uuid}

theorem decode_member {gid uid : String} {group user : Uuid} (hg : parse gid = some group)
    (hu : parse uid = some user) :
    (groupMemberTuple gid uid).decode parse = some (memberTuple group user) := by
  simp [groupMemberTuple, WireTuple.decode, ObjectType.ofStr, Relation.ofStr, Relation.all,
    ObjectType.asStr, Relation.asStr, hg, hu, memberTuple, SubjectRef.direct]

theorem decode_role {tid role gid : String} {tenant group : Uuid} {r : Relation}
    (ht : parse tid = some tenant) (hr : Relation.ofStr role = some r)
    (hg : parse gid = some group) :
    (groupRoleTuple tid role gid).decode parse = some (roleTuple tenant r group) := by
  have htype : ObjectType.ofStr "tenant" = some .tenant := rfl
  have hgroup : ObjectType.ofStr "group" = some .group := rfl
  have hmember : Relation.ofStr "member" = some .member := rfl
  simp [groupRoleTuple, WireTuple.decode, htype, hgroup, hmember, ht, hr, hg, roleTuple,
    SubjectRef.via]

theorem after_append (ops ops' : List TupleOp) (tuples : Finset RelationTuple) :
    after parse (ops ++ ops') tuples = after parse ops' (after parse ops tuples) := by
  simp [after]

theorem grant_of_mem_map {α : Type} {grant : Bool} {tuple : α → WireTuple} {l : List α} :
    ∀ op ∈ l.map (fun a => (⟨grant, tuple a⟩ : TupleOp)), op.grant = grant := by
  intro op hop
  obtain ⟨a, -, rfl⟩ := List.mem_map.mp hop
  rfl

theorem mem_after_grants {ops : List TupleOp} (h : ∀ op ∈ ops, op.grant = true)
    (tuples : Finset RelationTuple) (x : RelationTuple) :
    x ∈ after parse ops tuples ↔ x ∈ tuples ∨ ∃ op ∈ ops, op.tuple.decode parse = some x := by
  induction ops generalizing tuples with
  | nil => simp [after]
  | cons op ops ih =>
    have hop : after parse (op :: ops) tuples = after parse ops (op.apply parse tuples) := rfl
    rw [hop, ih (fun o ho => h o (List.mem_cons_of_mem _ ho))]
    cases hd : op.tuple.decode parse with
    | none => simp [apply, hd]
    | some t =>
      rw [mem_apply hd, if_pos (h op List.mem_cons_self)]
      simp only [List.mem_cons, exists_eq_or_imp, hd, Option.some.injEq]
      tauto

theorem mem_after_revokes {ops : List TupleOp} (h : ∀ op ∈ ops, op.grant = false)
    (tuples : Finset RelationTuple) (x : RelationTuple) :
    x ∈ after parse ops tuples ↔ x ∈ tuples ∧ ¬∃ op ∈ ops, op.tuple.decode parse = some x := by
  induction ops generalizing tuples with
  | nil => simp [after]
  | cons op ops ih =>
    have hop : after parse (op :: ops) tuples = after parse ops (op.apply parse tuples) := rfl
    rw [hop, ih (fun o ho => h o (List.mem_cons_of_mem _ ho))]
    cases hd : op.tuple.decode parse with
    | none => simp [apply, hd]
    | some t =>
      rw [mem_apply hd, if_neg (by simp [h op List.mem_cons_self])]
      simp only [List.mem_cons, exists_eq_or_imp, hd, Option.some.injEq]
      constructor
      · rintro ⟨⟨hne, ht⟩, hn⟩
        exact ⟨ht, fun h => h.elim (fun heq => hne heq.symm) hn⟩
      · rintro ⟨ht, hn⟩
        exact ⟨⟨fun heq => hn (.inl heq.symm), ht⟩, fun h => hn (.inr h)⟩

def planned (dir : Directory) (grant : Bool) (groupId : String) (other uids : List String) :
    List TupleOp :=
  (uids.filter (fun uid => uid ∉ other ∧ dir.userActive uid)).map
    (fun uid => ⟨grant, groupMemberTuple groupId uid⟩)

theorem planned_grant {dir : Directory} {grant : Bool} {gid : String} {other uids : List String} :
    ∀ op ∈ planned dir grant gid other uids, op.grant = grant := grant_of_mem_map

theorem mem_mappable_iff {members : List GroupMember} {v : String} :
    v ∈ mappableMemberIds parse members ↔ v ∈ memberValues members ∧ (parse v).isSome := by
  simp [mappableMemberIds, memberValues, validUserId]

theorem planned_names {dir : Directory} {grant : Bool} {gid : String} {group user : Uuid}
    (hg : parse gid = some group) {mine theirs : List GroupMember} {uids : List String}
    (huids : uids.Perm (mappableMemberIds parse mine)) :
    (∃ op ∈ planned dir grant gid (mappableMemberIds parse theirs) uids,
        op.tuple.decode parse = some (memberTuple group user)) ↔
      ∃ v ∈ memberValues mine, v ∉ memberValues theirs ∧ dir.userActive v = true ∧
        parse v = some user := by
  constructor
  · rintro ⟨op, hop, hd⟩
    obtain ⟨v, hv, rfl⟩ := List.mem_map.mp hop
    simp only [List.mem_filter, huids.mem_iff, mem_mappable_iff, decide_eq_true_eq] at hv
    obtain ⟨⟨hv, hsome⟩, hnot, hactive⟩ := hv
    obtain ⟨user', hu⟩ := Option.isSome_iff_exists.mp hsome
    rw [decode_member hg hu] at hd
    have huser : user' = user := by
      simpa [memberTuple, SubjectRef.direct] using hd
    subst huser
    exact ⟨v, hv, fun ht => hnot ⟨ht, hsome⟩, hactive, hu⟩
  · rintro ⟨v, hv, hnot, hactive, hu⟩
    refine ⟨⟨grant, groupMemberTuple gid v⟩, List.mem_map.mpr ⟨v, ?_, rfl⟩, decode_member hg hu⟩
    have hsome : (parse v).isSome := by simp [hu]
    simp only [List.mem_filter, huids.mem_iff, mem_mappable_iff, decide_eq_true_eq]
    exact ⟨⟨hv, hsome⟩, fun ht => hnot ht.1, hactive⟩

theorem userActive_of_not_inactive {dir : Directory} {v : String} {user : Uuid}
    (hv : parse v = some user) (h : ¬dir.Inactive parse user) : dir.userActive v = true := by
  rw [Directory.userActive]
  cases hu : dir.users.lookup v with
  | none => rfl
  | some u =>
    by_contra ha
    exact h ⟨v, u, hu, hv, by simpa using ha⟩

/-- The membership part of a reconciliation brings the tuple of every user to where the new
members put it. -/
theorem planned_member {dir : Directory} {gid : String} {group user : Uuid}
    (hg : parse gid = some group) {prev next : List GroupMember} {nextOrder prevOrder : List String}
    (hnext : nextOrder.Perm (mappableMemberIds parse next))
    (hprev : prevOrder.Perm (mappableMemberIds parse prev))
    (hspell : dir.SpellsMembers parse (memberValues prev) (memberValues next))
    {tuples : Finset RelationTuple} (ht : memberTuple group user ∈ tuples ↔
      (∃ v ∈ memberValues prev, parse v = some user) ∧ ¬dir.Inactive parse user) :
    memberTuple group user ∈ after parse
        (planned dir true gid (mappableMemberIds parse prev) nextOrder ++
          planned dir false gid (mappableMemberIds parse next) prevOrder) tuples ↔
      (∃ v ∈ memberValues next, parse v = some user) ∧ ¬dir.Inactive parse user := by
  rw [after_append, mem_after_revokes planned_grant, mem_after_grants planned_grant,
    planned_names hg hnext, planned_names hg hprev, ht]
  by_cases hi : dir.Inactive parse user
  · -- nobody who comes or goes under this name counts as active
    obtain ⟨uid, u, hu, huid, ha⟩ := hi
    have hquiet : ∀ v, (v ∈ memberValues prev ∧ v ∉ memberValues next) ∨
        (v ∈ memberValues next ∧ v ∉ memberValues prev) → parse v = some user →
        dir.userActive v = false := by
      intro v hv hname
      obtain rfl := hspell.inactive v hv uid u hu ha (huid.trans hname.symm)
      simp [Directory.userActive, hu, ha]
    have hinactive : dir.Inactive parse user := ⟨uid, u, hu, huid, ha⟩
    constructor
    · rintro ⟨⟨-, hn⟩ | ⟨v, hv, hnot, hactive, hname⟩, -⟩
      · exact absurd hinactive hn
      · rw [hquiet v (.inr ⟨hv, hnot⟩) hname] at hactive
        cases hactive
    · exact fun h => absurd hinactive h.2
  · have hactive : ∀ v, parse v = some user → dir.userActive v = true :=
      fun v hv => userActive_of_not_inactive hv hi
    constructor
    · rintro ⟨hsome, hno⟩
      refine ⟨?_, hi⟩
      obtain ⟨⟨v, hv, hname⟩, -⟩ | ⟨v, hv, -, -, hname⟩ := hsome
      · by_cases hin : v ∈ memberValues next
        · exact ⟨v, hin, hname⟩
        · exact absurd ⟨v, hv, hin, hactive v hname, hname⟩ hno
      · exact ⟨v, hv, hname⟩
    · rintro ⟨⟨v, hv, hname⟩, -⟩
      refine ⟨?_, ?_⟩
      · by_cases hin : v ∈ memberValues prev
        · exact .inl ⟨⟨v, hin, hname⟩, hi⟩
        · exact .inr ⟨v, hv, hin, hactive v hname, hname⟩
      · rintro ⟨v', hv', hnot, -, hname'⟩
        exact hi (hspell.stays v' hv' hnot v hv user hname' hname)

theorem mem_after_of_not_named {ops : List TupleOp} {x : RelationTuple}
    (h : ∀ op ∈ ops, op.tuple.decode parse ≠ some x) (tuples : Finset RelationTuple) :
    x ∈ after parse ops tuples ↔ x ∈ tuples := by
  induction ops generalizing tuples with
  | nil => rfl
  | cons op ops ih =>
    have hop : after parse (op :: ops) tuples = after parse ops (op.apply parse tuples) := rfl
    rw [hop, ih (fun o ho => h o (List.mem_cons_of_mem _ ho))]
    cases hd : op.tuple.decode parse with
    | none => simp [apply, hd]
    | some t =>
      have hne : x ≠ t := by
        rintro rfl
        exact h op List.mem_cons_self hd
      rw [mem_apply hd]
      split <;> simp [hne]

theorem asStr_of_ofStr {s : String} {r : Relation} (h : Relation.ofStr s = some r) :
    r.asStr = s := by
  simpa using List.find?_some h

theorem exists_encodes {displayName : String} {p : String × String}
    (h : parseGroupRole parse displayName = some p) :
    ∃ tenant r, parse p.1 = some tenant ∧ Relation.ofStr p.2 = some r := by
  rw [parseGroupRole] at h
  split at h
  · rename_i p0 p1 p2 p3 _
    split at h
    · cases h
    · split at h
      · cases h
      · split at h
        · cases h
        · rename_i hparse hrole
          obtain rfl := Option.some.inj h
          obtain ⟨tenant, ht⟩ := Option.ne_none_iff_exists'.mp hparse
          refine ⟨tenant, ?_⟩
          have hmem : p3 ∈ groupRoleBindings := by simpa using hrole
          simp only [groupRoleBindings, List.mem_cons, List.not_mem_nil, or_false] at hmem
          obtain rfl | rfl | rfl | rfl := hmem
          · exact ⟨.admin, ht, rfl⟩
          · exact ⟨.editor, ht, rfl⟩
          · exact ⟨.member, ht, rfl⟩
          · exact ⟨.viewer, ht, rfl⟩
  · cases h

theorem role_names {gid displayName : String} {group tenant : Uuid} {r : Relation}
    (hg : parse gid = some group) (grant : Bool) :
    (∃ op ∈ (parseGroupRole parse displayName).toList.map
        fun p => (⟨grant, groupRoleTuple p.1 p.2 gid⟩ : TupleOp),
      op.tuple.decode parse = some (roleTuple tenant r group)) ↔
      Encodes parse displayName tenant r := by
  cases hp : parseGroupRole parse displayName with
  | none => simp [Encodes, hp]
  | some p =>
    obtain ⟨tenant', r', ht, hr⟩ := exists_encodes hp
    simp only [Option.toList_some, List.map_cons, List.map_nil, List.mem_singleton,
      exists_eq_left, decode_role ht hr hg, Option.some.injEq, Encodes, hp]
    constructor
    · intro heq
      simp only [roleTuple, RelationTuple.mk.injEq, ObjectRef.mk.injEq, true_and, and_true] at heq
      obtain ⟨rfl, rfl⟩ := heq
      exact ⟨p, rfl, ht, hr⟩
    · rintro ⟨p', rfl, ht', hr'⟩
      rw [Option.some.inj (ht.symm.trans ht'), Option.some.inj (hr.symm.trans hr')]

theorem planned_role {gid prevName nextName : String} {group tenant : Uuid} {r : Relation}
    (hg : parse gid = some group) (hspell : SpellsRole parse prevName nextName)
    {tuples : Finset RelationTuple}
    (ht : roleTuple tenant r group ∈ tuples ↔ Encodes parse prevName tenant r) :
    roleTuple tenant r group ∈
        after parse (groupRoleReconcileOps parse prevName nextName gid) tuples ↔
      Encodes parse nextName tenant r := by
  rw [groupRoleReconcileOps]
  split
  · rename_i hsame
    rw [after, List.foldl_nil, ht, Encodes, Encodes, hsame.2]
  · rename_i hdiffer
    rw [after_append, mem_after_revokes grant_of_mem_map, mem_after_grants grant_of_mem_map,
      role_names hg, role_names hg, ht]
    constructor
    · rintro ⟨hprev | hnext, hno⟩
      · exact absurd hprev hno
      · exact hnext
    · rintro hnext
      refine ⟨.inr hnext, ?_⟩
      rintro ⟨p, hp, htp, hrp⟩
      obtain ⟨p', hp', htp', hrp'⟩ := hnext
      have hrole : p.2 = p'.2 := (asStr_of_ofStr hrp).symm.trans (asStr_of_ofStr hrp')
      have htenant := hspell p p' hp hp' (htp.trans htp'.symm) hrole
      refine hdiffer ⟨by simp [hp], ?_⟩
      rw [hp, hp', Prod.ext htenant hrole]

end

section

variable (env : Env) (plain : String → Prop) (scope : Scope)

def ScopeSafe {ρ : Type} (p : Prog Service ρ) (post : ρ → Service → Prop) (s : Service) : Prop :=
  p.Safe (fun s => s.failures = 0) ((scimWorld env.parse plain).rely (scope.footprint env.parse))
    ((scimWorld env.parse plain).guar (scope.footprint env.parse)) post s

/-- What a handler knows after these operations of its own, given the state it began in. -/
structure Track (s₀ : Service) (ops : List TupleOp) (s : Service) : Prop where
  keys : s.dir.Keys env.parse plain
  same : ∀ f, scope.needs env.parse f → (∀ t, f ≠ .tuple t) →
    f.obs env.parse s₀ = f.obs env.parse s
  tuples : ∀ t, scope.Controls env.parse t →
    (t ∈ s.perms.tuples ↔ t ∈ after env.parse ops s₀.perms.tuples)

variable {env plain scope}

theorem Track.init {s : Service} (h : s.dir.Keys env.parse plain) :
    Track env plain scope s [] s :=
  ⟨h, fun _ _ _ => rfl, fun _ _ => Iff.rfl⟩

theorem Track.stable {s₀ s t : Service} {ops : List TupleOp} (h : Track env plain scope s₀ ops s)
    (hr : (scimWorld env.parse plain).rely (scope.footprint env.parse) s t) :
    Track env plain scope s₀ ops t := by
  refine ⟨hr.1 h.keys, fun f hf hne => (h.same f hf hne).trans (hr.2 f hf), fun x hx => ?_⟩
  have htuple : (x ∈ s.perms.tuples) = (x ∈ t.perms.tuples) := hr.2 (.tuple x) hx
  rw [← htuple]
  exact h.tuples x hx

theorem ScopeSafe.bind {ρ τ : Type} {p : Prog Service ρ} {post : ρ → Service → Prop}
    {post' : τ → Service → Prop} {s : Service} (h : ScopeSafe env plain scope p post s)
    {g : ρ → Prog Service τ} (hg : ∀ r t, post r t → ScopeSafe env plain scope (g r) post' t) :
    ScopeSafe env plain scope (p >>= g) post' s :=
  Prog.Safe.bind (World.rely_refl _) h hg

variable (env scope) in
def Settled (s : Service) : Prop :=
  ∀ t, scope.Controls env.parse t → (t ∈ s.perms.tuples ↔ s.dir.Wants env.parse t)

theorem Settled.stable {s t : Service} (h : Settled env scope s)
    (hr : (scimWorld env.parse plain).rely (scope.footprint env.parse) s t) :
    Settled env scope t := by
  intro x hx
  have htuple : (x ∈ s.perms.tuples) = (x ∈ t.perms.tuples) := hr.2 (.tuple x) hx
  have hwant : s.dir.Wants env.parse x = t.dir.Wants env.parse x := hr.2 (.wanted x) hx
  rw [← htuple, ← hwant]
  exact h x hx

theorem Settled.post {ρ : Type} {s : Service} (h : Settled env scope s) (r : ρ) :
    (scimWorld env.parse plain).Post (scope.footprint env.parse) r s := by
  rintro t ⟨f, rfl | rfl, ht⟩
  · exact h t ht
  · exact h t ht

theorem Track.settled {s₀ s : Service} (h : Track env plain scope s₀ [] s)
    (h₀ : Settled env scope s₀) : Settled env scope s := by
  intro t ht
  have hwant : s₀.dir.Wants env.parse t = s.dir.Wants env.parse t :=
    h.same (.wanted t) ht (by simp)
  rw [h.tuples t ht, ← hwant]
  exact h₀ t ht

theorem ScopeSafe.done {ρ : Type} {r : ρ} {s : Service} (h : Settled env scope s) :
    ScopeSafe env plain scope (pure r) (fun _ t => Settled env scope t) s :=
  fun _ hr => h.stable hr

theorem ScopeSafe.doneTrack {ρ : Type} {P : ρ → Prop} {r : ρ} {s₀ s : Service}
    {ops : List TupleOp} (h : Track env plain scope s₀ ops s) (hr : P r) :
    ScopeSafe env plain scope (pure r) (fun r t => P r ∧ Track env plain scope s₀ ops t) s :=
  fun _ ht => ⟨hr, h.stable ht⟩

theorem ScopeSafe.read {ρ : Type} {f : Service → ρ} {P : ρ → Prop} {s₀ s : Service}
    {ops : List TupleOp} (h : Track env plain scope s₀ ops s)
    (hf : ∀ t, Track env plain scope s₀ ops t → P (f t)) :
    ScopeSafe env plain scope (.read f) (fun r t => P r ∧ Track env plain scope s₀ ops t) s := by
  intro t ht _
  have htrack := h.stable ht
  exact ⟨World.guar_refl _ _, fun u hu => ⟨hf t htrack, htrack.stable hu⟩⟩

theorem ScopeSafe.commit {ρ : Type} {f : Service → Service × ρ} {P : ρ → Prop} {s₀ s : Service}
    {ops : List TupleOp} (h : Track env plain scope s₀ ops s)
    (hf : ∀ t, Track env plain scope s₀ ops t → (f t).1.failures = 0 →
      (scimWorld env.parse plain).guar (scope.footprint env.parse) t (f t).1 ∧
      P (f t).2 ∧ Settled env scope (f t).1) :
    ScopeSafe env plain scope (.modify f) (fun r t => P r ∧ Settled env scope t) s := by
  intro t ht hok
  obtain ⟨hguar, hP, hsettled⟩ := hf t (h.stable ht) hok
  exact ⟨hguar, fun u hu => ⟨hP, hsettled.stable hu⟩⟩

theorem Track.runTupleOp {s₀ s : Service} {ops : List TupleOp}
    (h : Track env plain scope s₀ ops s) {op : TupleOp} {t : RelationTuple}
    (hd : op.tuple.decode env.parse = some t) (hc : scope.Controls env.parse t) :
    ScopeSafe env plain scope (runTupleOp env op)
      (fun b s => b = true ∧ Track env plain scope s₀ (ops ++ [op]) s) s := by
  intro u hu hok
  have htrack := h.stable hu
  obtain ⟨perms, hsend, hcall⟩ := callSubstrate_ok hok
  simp only [hcall]
  have htuples := send_ok hsend
  have hguar : (scimWorld env.parse plain).guar (scope.footprint env.parse) u
      { u with perms, calls := u.calls+1 } := by
    refine ⟨id, fun f hf => ?_⟩
    cases f with
    | tuple x =>
      have hne : x ≠ t := by
        rintro rfl
        exact hf hc
      refine propext ?_
      change x ∈ u.perms.tuples ↔ x ∈ perms.tuples
      rw [htuples, mem_apply hd]
      split <;> simp [hne]
    | _ => rfl
  have hnext : Track env plain scope s₀ (ops ++ [op]) { u with perms, calls := u.calls+1 } := by
    refine ⟨htrack.keys, fun f hf hne => ?_, fun x hx => ?_⟩
    · rw [htrack.same f hf hne]
      cases f with
      | tuple x => exact absurd rfl (hne x)
      | _ => rfl
    · have hx' := htrack.tuples x hx
      change x ∈ perms.tuples ↔ _
      rw [htuples, after, List.foldl_append, List.foldl_cons, List.foldl_nil,
        mem_apply hd, mem_apply hd, hx', after]
  exact ⟨hguar, fun v hv => ⟨rfl, hnext.stable hv⟩⟩

theorem Track.applyLoop {s₀ : Service} (applied : List TupleOp) {rest : List TupleOp}
    (hops : ∀ op ∈ rest, ∃ t, op.tuple.decode env.parse = some t ∧ scope.Controls env.parse t)
    {done : List TupleOp} {s : Service} (h : Track env plain scope s₀ done s) :
    ScopeSafe env plain scope (applyTupleOps.go env applied rest)
      (fun b s => b = true ∧ Track env plain scope s₀ (done ++ rest) s) s := by
  induction rest generalizing applied done s with
  | nil =>
    rw [List.append_nil]
    exact ScopeSafe.doneTrack h rfl
  | cons op rest ih =>
    obtain ⟨t, hd, hc⟩ := hops op List.mem_cons_self
    refine (h.runTupleOp hd hc).bind ?_
    rintro b u ⟨rfl, hu⟩
    have := ih (applied ++ [op]) (fun op hop => hops op (List.mem_cons_of_mem _ hop)) hu
    rw [List.append_assoc] at this
    exact this

theorem Track.applyTupleOps {s₀ s : Service} {ops : List TupleOp}
    (h : Track env plain scope s₀ [] s)
    (hops : ∀ op ∈ ops, ∃ t, op.tuple.decode env.parse = some t ∧ scope.Controls env.parse t) :
    ScopeSafe env plain scope (applyTupleOps env ops)
      (fun b s => b = true ∧ Track env plain scope s₀ ops s) s :=
  Track.applyLoop [] hops h

end

end Knowledge.Permission
