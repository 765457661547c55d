import Knowledge.Lib.Undo
import Knowledge.Permission.Durable
import Knowledge.Permission.Provisioning

/-!
What a failed write leaves behind. The operations of every handler fit the tuples they are
planned from, so that what was applied before a call failed can be taken back.
-/

set_option autoImplicit false

namespace Knowledge.Permission
open Knowledge.Atomic Knowledge.Undo
open Knowledge.Sync (Uuid)
open Prog

/-- Operations on the set of tuples: a grant fits where its tuple is not there, a revoke
where it is. -/
def tupleLog (parse : String → Option Uuid) : Reversible (Finset RelationTuple) TupleOp where
  apply op tuples := op.apply parse tuples
  inverse op := { op with grant := !op.grant }
  Fits op tuples := ∃ t, op.tuple.decode parse = some t ∧ (t ∈ tuples ↔ op.grant = false)
  inverse_fits := by
    rintro op tuples ⟨t, hd, -⟩
    refine ⟨t, hd, ?_⟩
    rw [TupleOp.mem_apply hd]
    cases op.grant <;> simp
  inverse_apply := by
    rintro op tuples ⟨t, hd, ht⟩
    have hd' : ({ op with grant := !op.grant } : TupleOp).tuple.decode parse = some t := hd
    ext x
    rw [TupleOp.mem_apply hd', TupleOp.mem_apply hd]
    by_cases hx : x = t
    · subst hx
      cases hg : op.grant <;> simp [ht, hg]
    · cases hg : op.grant <;> simp [hx]

section

variable {parse : String → Option Uuid}

theorem replay_tupleLog (ops : List TupleOp) (tuples : Finset RelationTuple) :
    (tupleLog parse).replay ops tuples = after parse ops tuples := rfl

theorem fitAll_of_nodup {ops : List TupleOp} {tuples : Finset RelationTuple}
    (hnodup : (ops.map fun op => op.tuple.decode parse).Nodup)
    (hfit : ∀ op ∈ ops, (tupleLog parse).Fits op tuples) : (tupleLog parse).FitAll ops tuples := by
  induction ops generalizing tuples with
  | nil => trivial
  | cons op ops ih =>
    obtain ⟨hnot, hrest⟩ := List.nodup_cons.mp hnodup
    refine ⟨hfit op List.mem_cons_self, ih hrest fun op' hop' => ?_⟩
    obtain ⟨t, hd, -⟩ := hfit op List.mem_cons_self
    obtain ⟨t', hd', ht'⟩ := hfit op' (List.mem_cons_of_mem _ hop')
    have hne : t' ≠ t := by
      rintro rfl
      exact hnot (List.mem_map.mpr ⟨op', hop', hd'.trans hd.symm⟩)
    refine ⟨t', hd', ?_⟩
    change t' ∈ op.apply parse tuples ↔ _
    rw [TupleOp.mem_apply hd, ← ht']
    cases op.grant <;> simp [hne]

theorem TupleOp.send_fits {op : TupleOp} {perms : TupleStore}
    (h : (tupleLog parse).Fits op perms.tuples) : ∃ perms', op.send parse perms = .ok perms' := by
  obtain ⟨t, hd, ht⟩ := h
  rw [TupleOp.send]
  cases hg : op.grant with
  | true => simp [permissionGrant, hd]
  | false =>
    have hmem : t ∈ perms.tuples := ht.mpr hg
    simp [permissionRevoke, hd, TupleStore.remove, hmem]

end

/-- Since the first state, calls have been made and some of them failed, the cache is as it
was, and these are the tuples. -/
structure Service.Since (s s' : Service) (calls failures : Nat)
    (tuples : Finset RelationTuple) : Prop where
  dir : s'.dir = s.dir
  calls : s'.calls = s.calls+calls
  failures : s'.failures = s.failures+failures
  tuples : s'.perms.tuples = tuples

theorem Service.Since.trans {s s' s'' : Service} {m m' n n' : Nat}
    {tuples tuples' : Finset RelationTuple} (h : s.Since s' m n tuples)
    (h' : s'.Since s'' m' n' tuples') : s.Since s'' (m+m') (n+n') tuples' := by
  refine ⟨h'.dir.trans h.dir, ?_, ?_, h'.tuples⟩
  · rw [h'.calls, h.calls]
    omega
  · rw [h'.failures, h.failures]
    omega

/-- Of the calls from a number on, the one at this distance is lost and the others are
answered. -/
structure Env.LosesOne (env : Env) (start k : Nat) : Prop where
  lost : env.net (start+k) = .dropped
  answered : ∀ j, j ≠ k → env.net (start+j) = .answered

section

variable {env : Env}

theorem callSubstrate_answered {s : Service} {op : TupleOp} (hnet : env.net s.calls = .answered)
    (hfits : (tupleLog env.parse).Fits op s.perms.tuples) :
    (s.callSubstrate env op).2 = true ∧
      s.Since (s.callSubstrate env op).1 1 0 (op.apply env.parse s.perms.tuples) := by
  obtain ⟨perms, hsend⟩ := TupleOp.send_fits hfits
  simp only [Service.callSubstrate, hnet, hsend, true_and]
  exact ⟨rfl, rfl, rfl, TupleOp.send_ok hsend⟩

theorem callSubstrate_dropped {s : Service} {op : TupleOp} (hnet : env.net s.calls = .dropped) :
    (s.callSubstrate env op).2 = false ∧
      s.Since (s.callSubstrate env op).1 1 1 s.perms.tuples := by
  simp only [Service.callSubstrate, hnet, true_and]
  exact ⟨rfl, rfl, rfl, rfl⟩

theorem rollback_run {ops : List TupleOp} {tuples : Finset RelationTuple}
    (hfit : (tupleLog env.parse).FitAll ops tuples) {s : Service}
    (htuples : s.perms.tuples = after env.parse ops tuples)
    (hnet : ∀ j, env.net (s.calls+j) = .answered) :
    ∃ s', (rollbackTupleOps env ops).run s = (s', ()) ∧ s.Since s' ops.length 0 tuples := by
  have hundo : ∀ (ops : List TupleOp) (s : Service),
      (tupleLog env.parse).FitAll (ops.map (tupleLog env.parse).inverse) s.perms.tuples →
      (∀ j, env.net (s.calls+j) = .answered) →
      ∃ s', (rollbackTupleOps.undo env ops).run s = (s', ()) ∧ s.Since s' ops.length 0
        ((tupleLog env.parse).replay (ops.map (tupleLog env.parse).inverse) s.perms.tuples) := by
    intro ops
    induction ops with
    | nil => exact fun s _ _ => ⟨s, rfl, rfl, rfl, rfl, rfl⟩
    | cons op ops ih =>
      intro s hfits hnet
      obtain ⟨-, hsince⟩ := callSubstrate_answered (hnet 0) hfits.1
      obtain ⟨s', hrun, hrest⟩ := ih _ (by rw [hsince.tuples]; exact hfits.2) fun j => by
        rw [hsince.calls, Nat.add_assoc]
        exact hnet (1+j)
      refine ⟨s', ?_, ?_⟩
      · rw [rollbackTupleOps.undo, run_bind]
        exact hrun
      · have hall := hsince.trans hrest
        rw [hsince.tuples, Nat.add_comm 1] at hall
        exact hall
  obtain ⟨s', hrun, hsince⟩ := hundo ops.reverse s
    (htuples ▸ Reversible.fitAll_undoing hfit) hnet
  rw [List.length_reverse, htuples, ← replay_tupleLog] at hsince
  have hback : (tupleLog env.parse).replay (ops.reverse.map (tupleLog env.parse).inverse)
      ((tupleLog env.parse).replay ops tuples) = tuples := Reversible.replay_undoing hfit
  rw [hback] at hsince
  exact ⟨s', hrun, hsince⟩

theorem applyTupleOps_run {ops : List TupleOp} {s : Service}
    (hfit : (tupleLog env.parse).FitAll ops s.perms.tuples) {k : Nat}
    (hnet : env.LosesOne s.calls k) :
    ∃ s', (ops.length ≤ k ∧ (applyTupleOps env ops).run s = (s', true) ∧
        s.Since s' ops.length 0 (after env.parse ops s.perms.tuples)) ∨
      (applyTupleOps env ops).run s = (s', false) ∧
        ∃ calls, s.Since s' calls 1 s.perms.tuples := by
  have hgo : ∀ (rest applied : List TupleOp) (s' : Service),
      (tupleLog env.parse).FitAll (applied ++ rest) s.perms.tuples → applied.length ≤ k →
      s.Since s' applied.length 0 (after env.parse applied s.perms.tuples) →
      ∃ s'', (applied.length+rest.length ≤ k ∧
          (applyTupleOps.go env applied rest).run s' = (s'', true) ∧
          s.Since s'' (applied.length+rest.length) 0
            (after env.parse (applied ++ rest) s.perms.tuples)) ∨
        (applyTupleOps.go env applied rest).run s' = (s'', false) ∧
          ∃ calls, s.Since s'' calls 1 s.perms.tuples := by
    intro rest
    induction rest with
    | nil =>
      intro applied s' _ hk hs
      rw [List.append_nil]
      exact ⟨s', .inl ⟨hk, rfl, hs⟩⟩
    | cons op rest ih =>
      intro applied s' hfits hk hs
      obtain ⟨happlied, hop, -⟩ := Reversible.fitAll_append.mp hfits
      rw [replay_tupleLog, ← hs.tuples] at hop
      rw [applyTupleOps.go, run_bind]
      by_cases heq : applied.length = k
      · -- the call that is lost
        have hlost : env.net s'.calls = .dropped := by
          rw [hs.calls, heq]
          exact hnet.lost
        obtain ⟨hres, hsince⟩ := @callSubstrate_dropped env s' op hlost
        have hsend : ((runTupleOp env op).run s').2 = false := hres
        rw [hsend, if_neg Bool.false_ne_true, run_bind]
        have htotal := hs.trans hsince
        obtain ⟨s'', hrun, hback⟩ := rollback_run happlied
          (s := ((runTupleOp env op).run s').1) (hsince.tuples.trans hs.tuples) fun j => by
            have hnum : ((runTupleOp env op).run s').1.calls = s.calls+(applied.length+1) :=
              htotal.calls
            rw [hnum, Nat.add_assoc]
            exact hnet.answered _ (by omega)
        refine ⟨s'', .inr ⟨?_, _, htotal.trans hback⟩⟩
        rw [hrun]
        rfl
      · have hanswered : env.net s'.calls = .answered := by
          rw [hs.calls]
          exact hnet.answered _ heq
        obtain ⟨hres, hsince⟩ := callSubstrate_answered hanswered hop
        have hsend : ((runTupleOp env op).run s').2 = true := hres
        rw [hsend, if_pos rfl]
        have htotal := hs.trans hsince
        have hlen : (applied ++ [op]).length = applied.length+1 := by simp
        have htuples : after env.parse (applied ++ [op]) s.perms.tuples =
            op.apply env.parse s'.perms.tuples := by
          rw [hs.tuples, after_append]
          rfl
        obtain ⟨s'', hcase⟩ := ih (applied ++ [op]) ((runTupleOp env op).run s').1
          (by rwa [List.append_assoc]) (by omega) (by rw [hlen, htuples]; exact htotal)
        rw [hlen, List.append_assoc] at hcase
        have harith : applied.length+(op :: rest).length = applied.length+1+rest.length := by
          rw [List.length_cons]
          omega
        rw [harith]
        exact ⟨s'', hcase⟩
  obtain ⟨s', hcase⟩ := hgo ops [] s hfit (Nat.zero_le k) ⟨rfl, rfl, rfl, rfl⟩
  rw [List.length_nil, Nat.zero_add] at hcase
  exact ⟨s', hcase⟩

theorem toggles_fit {s : Service} {plain : String → Prop} (hkeys : s.dir.Keys env.parse plain)
    (hlock : s.Lockstep env.parse) {id : String} {u : User} (hl : s.dir.users.lookup id = some u)
    {found : List String} (hnodup : found.Nodup)
    (hfound : ∀ gid ∈ found, s.dir.inGroup id gid = true) {nowActive : Bool}
    (hflip : u.active ≠ nowActive) :
    (tupleLog env.parse).FitAll
      (found.map fun gid => ⟨nowActive, groupMemberTuple gid id⟩) s.perms.tuples := by
  obtain ⟨-, user, hu⟩ := hkeys.user id u hl
  have hflag : s.dir.flag id = some u.active := by rw [Directory.flag, hl]; rfl
  have hgroup : ∀ gid ∈ found, ∃ g group, s.dir.groups.lookup gid = some g ∧
      env.parse gid = some group ∧ s.dir.HasMember env.parse group user := by
    intro gid hgid
    have hin := (inGroup_iff_names hu).mp (hfound gid hgid)
    obtain ⟨-, g, hg, -⟩ := mem_names_iff.mp hin
    obtain ⟨-, group, hp⟩ := hkeys.group gid g hg
    exact ⟨g, group, hg, hp, hasMember_iff_names.mpr ⟨gid, id, hp, hin⟩⟩
  refine fitAll_of_nodup ?_ fun op hop => ?_
  · rw [List.map_map]
    refine hnodup.map_on fun gid hgid gid' hgid' heq => ?_
    obtain ⟨g, group, hg, hp, -⟩ := hgroup gid hgid
    obtain ⟨g', group', hg', hp', -⟩ := hgroup gid' hgid'
    simp only [Function.comp, decode_member hp hu, decode_member hp' hu] at heq
    have hsame : group = group' := congrArg (fun t => t.object.objectId) (Option.some.inj heq)
    exact hkeys.groupUnique gid gid' g g' hg hg' (by rw [hp, hp', hsame])
  · obtain ⟨gid, hgid, rfl⟩ := List.mem_map.mp hop
    obtain ⟨g, group, -, hp, hmember⟩ := hgroup gid hgid
    refine ⟨_, decode_member hp hu, ?_⟩
    rw [hlock.1, hkeys.inactive_iff hu (by rw [hflag]; simp), hflag]
    simp only [hmember, true_and, Option.some.injEq]
    cases hua : u.active <;> cases nowActive <;> simp_all

theorem mem_plan {orders : MapOrders} {dir : Directory} {gid : String}
    {prev next : List GroupMember} {op : TupleOp} (h : op ∈ plan env orders dir gid prev next) :
    ∃ v user, env.parse v = some user ∧ dir.userActive v = true ∧
      op.tuple = groupMemberTuple gid v ∧
      ((op.grant = true ∧ v ∈ memberValues next ∧ v ∉ memberValues prev) ∨
        op.grant = false ∧ v ∈ memberValues prev ∧ v ∉ memberValues next) := by
  obtain hop | hop := List.mem_append.mp h
  · obtain ⟨v, hv, rfl⟩ := List.mem_map.mp hop
    simp only [List.mem_filter, (orders.next.perm _).mem_iff, mem_mappable_iff,
      decide_eq_true_eq] at hv
    obtain ⟨⟨hv, hsome⟩, hnot, hactive⟩ := hv
    obtain ⟨user, hu⟩ := Option.isSome_iff_exists.mp hsome
    exact ⟨v, user, hu, hactive, rfl, .inl ⟨rfl, hv, fun hin => hnot ⟨hin, hsome⟩⟩⟩
  · obtain ⟨v, hv, rfl⟩ := List.mem_map.mp hop
    simp only [List.mem_filter, (orders.prev.perm _).mem_iff, mem_mappable_iff,
      decide_eq_true_eq] at hv
    obtain ⟨⟨hv, hsome⟩, hnot, hactive⟩ := hv
    obtain ⟨user, hu⟩ := Option.isSome_iff_exists.mp hsome
    exact ⟨v, user, hu, hactive, rfl, .inr ⟨rfl, hv, fun hin => hnot ⟨hin, hsome⟩⟩⟩

theorem mem_roleOps {prevName nextName gid : String} {op : TupleOp}
    (h : op ∈ groupRoleReconcileOps env.parse prevName nextName gid) :
    ∃ p tenant r, env.parse p.1 = some tenant ∧ Relation.ofStr p.2 = some r ∧
      op.tuple = groupRoleTuple p.1 p.2 gid ∧
      ((op.grant = true ∧ parseGroupRole env.parse nextName = some p ∧
          parseGroupRole env.parse prevName ≠ some p) ∨
        op.grant = false ∧ parseGroupRole env.parse prevName = some p ∧
          parseGroupRole env.parse nextName ≠ some p) := by
  rw [groupRoleReconcileOps] at h
  split at h
  · cases h
  · rename_i hdiffer
    obtain hop | hop := List.mem_append.mp h
    · obtain ⟨p, hp, rfl⟩ := List.mem_map.mp hop
      have hp := Option.mem_toList.mp hp
      obtain ⟨tenant, r, ht, hr⟩ := exists_encodes hp
      refine ⟨p, tenant, r, ht, hr, rfl, .inl ⟨rfl, hp, fun heq => hdiffer ⟨?_, ?_⟩⟩⟩
      · rw [heq]
        rfl
      · exact heq.trans hp.symm
    · obtain ⟨p, hp, rfl⟩ := List.mem_map.mp hop
      have hp := Option.mem_toList.mp hp
      obtain ⟨tenant, r, ht, hr⟩ := exists_encodes hp
      refine ⟨p, tenant, r, ht, hr, rfl, .inr ⟨rfl, hp, fun heq => hdiffer ⟨?_, ?_⟩⟩⟩
      · rw [hp]
        rfl
      · exact hp.trans heq.symm

theorem nodup_grants_append {α : Type} {tuple : α → WireTuple} (hinj : tuple.Injective)
    {l l' : List α} (h : l.Nodup) (h' : l'.Nodup) :
    ((l.map fun a => (⟨true, tuple a⟩ : TupleOp)) ++
      l'.map fun a => (⟨false, tuple a⟩ : TupleOp)).Nodup := by
  refine List.Nodup.append (h.map fun a b heq => ?_) (h'.map fun a b heq => ?_) ?_
  · exact hinj (TupleOp.mk.inj heq).2
  · exact hinj (TupleOp.mk.inj heq).2
  · intro op hop hop'
    obtain ⟨a, -, rfl⟩ := List.mem_map.mp hop
    obtain ⟨b, -, heq⟩ := List.mem_map.mp hop'
    cases (TupleOp.mk.inj heq).1

theorem nodup_plan (orders : MapOrders) (dir : Directory) (gid : String)
    (prev next : List GroupMember) : (plan env orders dir gid prev next).Nodup := by
  refine nodup_grants_append (fun v v' heq => ?_) ?_ ?_
  · exact congrArg WireTuple.subjectId heq
  · exact (((orders.next.perm _).nodup_iff).mpr (List.nodup_dedup _)).filter _
  · exact (((orders.prev.perm _).nodup_iff).mpr (List.nodup_dedup _)).filter _

theorem nodup_roleOps (prevName nextName gid : String) :
    (groupRoleReconcileOps env.parse prevName nextName gid).Nodup := by
  have hone : ∀ o : Option (String × String), o.toList.Nodup := by
    intro o
    cases o <;> simp
  rw [groupRoleReconcileOps]
  split
  · exact List.nodup_nil
  · refine nodup_grants_append (fun p p' heq => ?_) (hone _) (hone _)
    exact Prod.ext (congrArg WireTuple.objectId heq) (congrArg WireTuple.relation heq)

theorem reconcile_fit {s : Service} (hkeys : s.dir.Keys env.parse env.Canonical)
    (hlock : s.Lockstep env.parse) (orders : MapOrders) {gid : String} {group : Uuid}
    (hg : env.parse gid = some group) (honly : s.dir.Only env.parse gid)
    {prev next : List GroupMember} {prevName nextName : String}
    (hprev : prev = recordMembers (s.dir.groups.lookup gid))
    (hprevName : prevName = recordName (s.dir.groups.lookup gid))
    (hplain : ∀ v, v ∈ memberValues prev ∨ v ∈ memberValues next →
      (env.parse v).isSome → env.Canonical v)
    (hrole : ∀ p, parseGroupRole env.parse prevName = some p ∨
      parseGroupRole env.parse nextName = some p → env.Canonical p.1) :
    (tupleLog env.parse).FitAll (plan env orders s.dir gid prev next ++
      groupRoleReconcileOps env.parse prevName nextName gid) s.perms.tuples := by
  have hsame : ∀ v v' user, v ∈ memberValues prev ∨ v ∈ memberValues next →
      v' ∈ memberValues prev ∨ v' ∈ memberValues next → env.parse v = some user →
      env.parse v' = some user → v = v' := fun v v' user hv hv' hu hu' =>
    (hplain v hv (by simp [hu])).inj (hplain v' hv' (by simp [hu'])) hu hu'
  have hbinding : ∀ p p' tenant r, parseGroupRole env.parse prevName = some p ∨
      parseGroupRole env.parse nextName = some p → parseGroupRole env.parse prevName = some p' ∨
      parseGroupRole env.parse nextName = some p' → env.parse p.1 = some tenant →
      env.parse p'.1 = some tenant → Relation.ofStr p.2 = some r →
      Relation.ofStr p'.2 = some r → p = p' := fun p p' tenant r hp hp' ht ht' hr hr' =>
    Prod.ext ((hrole p hp).inj (hrole p' hp') ht ht')
      ((asStr_of_ofStr hr).symm.trans (asStr_of_ofStr hr'))
  have hapart : ∀ op ∈ plan env orders s.dir gid prev next,
      ∀ op' ∈ groupRoleReconcileOps env.parse prevName nextName gid,
      op.tuple.decode env.parse ≠ op'.tuple.decode env.parse := by
    intro op hop op' hop' heq
    obtain ⟨v, user, hu, -, htuple, -⟩ := mem_plan hop
    obtain ⟨p, tenant, r, ht, hr, htuple', -⟩ := mem_roleOps hop'
    rw [htuple, htuple', decode_member hg hu, decode_role ht hr hg] at heq
    simp [memberTuple, roleTuple] at heq
  have hmembers : ∀ op ∈ plan env orders s.dir gid prev next,
      ∀ op' ∈ plan env orders s.dir gid prev next,
      op.tuple.decode env.parse = op'.tuple.decode env.parse → op = op' := by
    rintro ⟨grant, tuple⟩ hop ⟨grant', tuple'⟩ hop' heq
    obtain ⟨v, user, hu, -, rfl, hside⟩ := mem_plan hop
    obtain ⟨v', user', hu', -, rfl, hside'⟩ := mem_plan hop'
    rw [decode_member hg hu, decode_member hg hu'] at heq
    have huser : user = user' := congrArg (fun t => t.subject.subjectId) (Option.some.inj heq)
    obtain rfl : v = v' := hsame v v' user (hside.symm.imp (·.2.1) (·.2.1))
      (hside'.symm.imp (·.2.1) (·.2.1)) hu (huser ▸ hu')
    obtain ⟨rfl, hin, hnot⟩ | ⟨rfl, hin, hnot⟩ := hside
    · obtain ⟨rfl, -⟩ | ⟨-, hin', -⟩ := hside'
      · rfl
      · exact absurd hin' hnot
    · obtain ⟨-, hin', -⟩ | ⟨rfl, -⟩ := hside'
      · exact absurd hin' hnot
      · rfl
  have hroles : ∀ op ∈ groupRoleReconcileOps env.parse prevName nextName gid,
      ∀ op' ∈ groupRoleReconcileOps env.parse prevName nextName gid,
      op.tuple.decode env.parse = op'.tuple.decode env.parse → op = op' := by
    rintro ⟨grant, tuple⟩ hop ⟨grant', tuple'⟩ hop' heq
    obtain ⟨p, tenant, r, ht, hr, rfl, hside⟩ := mem_roleOps hop
    obtain ⟨p', tenant', r', ht', hr', rfl, hside'⟩ := mem_roleOps hop'
    rw [decode_role ht hr hg, decode_role ht' hr' hg] at heq
    have htenant : tenant = tenant' := congrArg (fun t => t.object.objectId) (Option.some.inj heq)
    have hrelation : r = r' := congrArg RelationTuple.relation (Option.some.inj heq)
    obtain rfl : p = p' := hbinding p p' tenant r (hside.symm.imp (·.2.1) (·.2.1))
      (hside'.symm.imp (·.2.1) (·.2.1)) ht (htenant ▸ ht') hr (hrelation ▸ hr')
    obtain ⟨rfl, hin, hnot⟩ | ⟨rfl, hin, hnot⟩ := hside
    · obtain ⟨rfl, -⟩ | ⟨-, hin', -⟩ := hside'
      · rfl
      · exact absurd hin' hnot
    · obtain ⟨-, hin', -⟩ | ⟨rfl, -⟩ := hside'
      · exact absurd hin' hnot
      · rfl
  have hnodup : (plan env orders s.dir gid prev next ++
      groupRoleReconcileOps env.parse prevName nextName gid).Nodup :=
    (nodup_plan orders s.dir gid prev next).append (nodup_roleOps prevName nextName gid)
      fun op hop hop' => hapart op hop op hop' rfl
  refine fitAll_of_nodup (hnodup.map_on fun op hop op' hop' heq => ?_) fun op hop => ?_
  · obtain hop | hop := List.mem_append.mp hop
    · obtain hop' | hop' := List.mem_append.mp hop'
      · exact hmembers op hop op' hop' heq
      · exact absurd heq (hapart op hop op' hop')
    · obtain hop' | hop' := List.mem_append.mp hop'
      · exact absurd heq.symm (hapart op' hop' op hop)
      · exact hroles op hop op' hop' heq
  · obtain hop | hop := List.mem_append.mp hop
    · obtain ⟨v, user, hu, hactive, htuple, hside⟩ := mem_plan hop
      refine ⟨_, htuple ▸ decode_member hg hu, ?_⟩
      rw [hlock.1, hasMember_at hg honly, ← hprev]
      -- somebody who counts as active under this name is not inactive under another
      have hnot : ¬s.dir.Inactive env.parse user := by
        rintro ⟨uid, u, hl, huid, hflag⟩
        have heq : uid = v := (hkeys.user uid u hl).1.inj
          (hplain v (hside.symm.imp (·.2.1) (·.2.1)) (by simp [hu])) huid hu
        rw [← heq, Directory.userActive, hl] at hactive
        exact Bool.false_ne_true (hflag.symm.trans hactive)
      obtain ⟨hgrant, hin, hout⟩ | ⟨hgrant, hin, hout⟩ := hside
      · rw [hgrant]
        refine iff_of_false ?_ Bool.false_ne_true.symm
        rintro ⟨⟨v', hv', hu'⟩, -⟩
        exact hout (hsame v v' user (.inr hin) (.inl hv') hu hu' ▸ hv')
      · rw [hgrant]
        exact iff_of_true ⟨⟨v, hin, hu⟩, hnot⟩ rfl
    · obtain ⟨p, tenant, r, ht, hr, htuple, hside⟩ := mem_roleOps hop
      refine ⟨_, htuple ▸ decode_role ht hr hg, ?_⟩
      rw [hlock.2, binds_at hg honly, ← hprevName]
      obtain ⟨hgrant, hin, hout⟩ | ⟨hgrant, hin, hout⟩ := hside
      · rw [hgrant]
        refine iff_of_false ?_ Bool.false_ne_true.symm
        rintro ⟨p', hp', ht', hr'⟩
        exact hout (hbinding p p' tenant r (.inr hin) (.inl hp') ht ht' hr hr' ▸ hp')
      · rw [hgrant]
        exact iff_of_true ⟨p, hin, ht, hr⟩ rfl

end

structure Host.Unchanged (h h' : Host) : Prop where
  tuples : h'.svc.perms.tuples = h.svc.perms.tuples
  dir : h'.svc.dir = h.svc.dir
  durable : h'.durable = h.durable

open Host

def Host.Restored (h : Host) (out : Host × Reply) : Prop :=
  out.1.svc.failures ≠ h.svc.failures →
    h.Unchanged out.1 ∧ ∃ detail, out.2 = .error 500 detail

section

variable {env : Env} {h : Host}

theorem run_onHost {ρ : Type} (p : Prog Service ρ) (h : Host) :
    (onHost p).run h = (⟨(p.run h.svc).1, h.durable⟩, (p.run h.svc).2) := by
  rw [onHost, run_zoom]
  · intro svc h
    rfl
  · intro svc svc' h
    rfl
  · intro h
    rfl

theorem restored_pure (r : Reply) : h.Restored ((pure r : Prog Host Reply).run h) :=
  fun hfail => absurd rfl hfail

theorem restored_read {ρ : Type} {q : Prog Service ρ} {a : ρ} (hq : q.run h.svc = (h.svc, a))
    {g : ρ → Prog Host Reply} (hg : h.Restored ((g a).run h)) :
    h.Restored ((onHost q >>= g).run h) := by
  rw [run_bind, run_onHost, hq]
  exact hg

variable {ops : List TupleOp} {k : Nat}

theorem restored_rollback (hfit : (tupleLog env.parse).FitAll ops h.svc.perms.tuples)
    {svc : Service} {calls : Nat} (hs : h.svc.Since svc calls 1
      (after env.parse ops h.svc.perms.tuples))
    (hnet : ∀ j, env.net (svc.calls+j) = .answered) (detail : String) :
    h.Restored ((do onHost (rollbackTupleOps env ops); pure (.error 500 detail) :
      Prog Host Reply).run ⟨svc, h.durable⟩) := by
  obtain ⟨svc', hrun, hback⟩ := rollback_run hfit hs.tuples hnet
  have htotal := hs.trans hback
  rw [run_bind, run_onHost, hrun]
  exact fun _ => ⟨⟨htotal.tuples, htotal.dir, rfl⟩, detail, rfl⟩

theorem save_run (hnet : env.LosesOne h.svc.calls k) {svc : Service}
    (hs : h.svc.Since svc ops.length 0 (after env.parse ops h.svc.perms.tuples))
    (write : Directory → Directory → Directory) (change : Directory → Directory) :
    ((save env write change ⟨svc, h.durable⟩).2 = true ∧
        (save env write change ⟨svc, h.durable⟩).1.svc.failures = h.svc.failures) ∨
      save env write change ⟨svc, h.durable⟩ = (⟨svc.failed, h.durable⟩, false) ∧
        h.svc.Since svc.failed (ops.length+1) 1 (after env.parse ops h.svc.perms.tuples) ∧
        ∀ j, env.net (svc.failed.calls+j) = .answered := by
  by_cases heq : ops.length = k
  · have hlost : env.net svc.calls = .dropped := by
      rw [hs.calls, heq]
      exact hnet.lost
    have hone : svc.Since svc.failed 1 1 (after env.parse ops h.svc.perms.tuples) :=
      ⟨rfl, rfl, rfl, hs.tuples⟩
    refine .inr ⟨?_, hs.trans hone, fun j => ?_⟩
    · simp only [save, Service.save, hlost, if_true]
    · have hnum : svc.failed.calls+j = h.svc.calls+(ops.length+1+j) := by
        rw [(hs.trans hone).calls]
        omega
      rw [hnum]
      exact hnet.answered _ (by omega)
  · have hanswered : env.net svc.calls = .answered := by
      rw [hs.calls]
      exact hnet.answered _ heq
    refine .inl ⟨?_, ?_⟩
    · simp only [save, Service.save, hanswered]
    · simp only [save, Service.save, hanswered]
      exact hs.failures

theorem restored_persist (hfit : (tupleLog env.parse).FitAll ops h.svc.perms.tuples)
    (hnet : env.LosesOne h.svc.calls k) {svc : Service}
    (hs : h.svc.Since svc ops.length 0 (after env.parse ops h.svc.perms.tuples))
    (write : Directory → Directory → Directory) (change : Directory → Directory)
    (detail : String) (reply : Reply) :
    h.Restored ((persist env write change ops detail reply).run ⟨svc, h.durable⟩) := by
  rw [persist, run_bind, run_modify]
  obtain ⟨hok, hfailures⟩ | ⟨hsave, hsince, hanswered⟩ := save_run hnet hs write change
  · rw [hok]
    exact fun hfail => absurd hfailures hfail
  · rw [hsave]
    exact restored_rollback hfit hsince hanswered detail

/-- A write of the store that is carried out while its answer is lost stays: only the tuples are
put back. -/
theorem unanswered_persist (hfit : (tupleLog env.parse).FitAll ops h.svc.perms.tuples)
    {svc : Service} (hs : h.svc.Since svc ops.length 0 (after env.parse ops h.svc.perms.tuples))
    (hlost : env.net svc.calls = .unanswered) (hnet : ∀ j, env.net (svc.calls+1+j) = .answered)
    (write : Directory → Directory → Directory) (change : Directory → Directory)
    (detail : String) (reply : Reply) :
    let out := (persist env write change ops detail reply).run ⟨svc, h.durable⟩
    out.2 = .error 500 detail ∧ out.1.svc.perms.tuples = h.svc.perms.tuples ∧
      out.1.svc.dir = h.svc.dir ∧ out.1.durable = write h.svc.dir h.durable := by
  intro out
  have hsave : save env write change ⟨svc, h.durable⟩ =
      (⟨svc.failed, write h.svc.dir h.durable⟩, false) := by
    simp [save, Service.save, hlost, hs.dir]
  obtain ⟨svc', hrun, hback⟩ := rollback_run (s := svc.failed) hfit hs.tuples hnet
  have hout : out = (⟨svc', write h.svc.dir h.durable⟩, .error 500 detail) := by
    simp only [out, persist, run_bind, run_modify, hsave]
    rw [if_neg Bool.false_ne_true, run_bind, run_onHost, hrun]
    rfl
  rw [hout]
  exact ⟨rfl, hback.tuples, hback.dir.trans hs.dir, rfl⟩

theorem restored_persistPresent (hfit : (tupleLog env.parse).FitAll ops h.svc.perms.tuples)
    (hnet : env.LosesOne h.svc.calls k) {svc : Service}
    (hs : h.svc.Since svc ops.length 0 (after env.parse ops h.svc.perms.tuples))
    {gone : Directory → Prop} [DecidablePred gone] (hpresent : ¬gone h.svc.dir)
    (write : Directory → Directory → Directory) (change : Directory → Directory)
    (conflict detail : String) (reply : Reply) :
    h.Restored ((persistPresent env gone write change ops conflict detail reply).run
      ⟨svc, h.durable⟩) := by
  rw [persistPresent, run_bind, persistPresent.commit, run_modify,
    if_neg (by rw [hs.dir]; exact hpresent)]
  obtain ⟨hok, hfailures⟩ | ⟨hsave, hsince, hanswered⟩ := save_run hnet hs write change
  · simp only [Prod.map, hok, if_true]
    exact fun hfail => absurd hfailures hfail
  · rw [hsave]
    exact restored_rollback hfit hsince hanswered detail

theorem restored_send (hfit : (tupleLog env.parse).FitAll ops h.svc.perms.tuples)
    (hnet : env.LosesOne h.svc.calls k) {p : Prog Host Reply} (detail : String)
    (hend : ∀ svc, h.svc.Since svc ops.length 0 (after env.parse ops h.svc.perms.tuples) →
      h.Restored (p.run ⟨svc, h.durable⟩)) :
    h.Restored ((do
      if ← onHost (applyTupleOps env ops) then p else pure (.error 500 detail) :
        Prog Host Reply).run h) := by
  rw [run_bind, run_onHost]
  obtain ⟨svc, ⟨-, hrun, hs⟩ | ⟨hrun, calls, hs⟩⟩ := applyTupleOps_run hfit hnet
  · rw [hrun]
    exact hend svc hs
  · rw [hrun]
    exact fun _ => ⟨⟨hs.tuples, hs.dir, rfl⟩, detail, rfl⟩

end

section

variable {env : Env}

theorem reconcileLoop_run (grant : Bool) (gid : String) (other uids : List String) (s : Service) :
    (reconcileLoop grant gid other uids).run s = (s, planned s.dir grant gid other uids) := by
  induction uids with
  | nil => rfl
  | cons uid rest ih =>
    rw [reconcileLoop]
    by_cases ho : uid ∈ other
    · rw [if_pos ho, ih]
      simp [planned, ho]
    · rw [if_neg ho, run_bind, userActive, run_read, run_bind, ih, run_pure]
      cases ha : s.dir.userActive uid <;> simp [planned, ho, ha]

theorem groupReconcileOps_run (orders : MapOrders) (gid : String) (prev next : List GroupMember)
    (s : Service) : (groupReconcileOps env orders gid prev next).run s =
      (s, plan env orders s.dir gid prev next) := by
  rw [groupReconcileOps, run_bind, reconcileLoop_run, run_bind, reconcileLoop_run]
  rfl

theorem groupsContainingUser_run (order : MapOrder) (id : String) (s : Service) :
    ∃ found : List String, found.Nodup ∧ (∀ gid ∈ found, s.dir.inGroup id gid = true) ∧
      (groupsContainingUser order id).run s = (s, found) := by
  refine ⟨_, ?_, fun gid hgid => (List.mem_filter.mp hgid).2, rfl⟩
  exact ((order.perm _).nodup_iff.mpr (AList.keys_nodup _)).filter _

variable {store : DirectoryStore} {h : Host} {k : Nat}

theorem restored_createUser (hnet : env.LosesOne h.svc.calls k) (id : String) (now : Int)
    (input : Option UserInput) :
    h.Restored ((Host.scimCreateUser env store id now input).run h) := by
  cases input with
  | none => exact restored_pure _
  | some input =>
    rw [Host.scimCreateUser]
    dsimp only
    split
    · exact restored_pure _
    · rw [run_modify]
      split
      · exact fun hfail => absurd rfl hfail
      · have hsave := fun write change =>
          @save_run env h [] k hnet h.svc ⟨rfl, rfl, rfl, rfl⟩ write change
        obtain ⟨-, hfailures⟩ | ⟨hlost, -⟩ := hsave
            (fun _ => store.saveUser ⟨id, input.userName, true, input.emails, now, now⟩)
            (·.setUser id ⟨id, input.userName, true, input.emails, now, now⟩)
        · exact fun hfail => absurd hfailures hfail
        · rw [hlost]
          exact fun _ => ⟨⟨rfl, rfl, rfl⟩, _, rfl⟩

theorem restored_replaceUser (hkeys : h.svc.dir.Keys env.parse env.Canonical)
    (hlock : h.svc.Lockstep env.parse) (hnet : env.LosesOne h.svc.calls k) (order : MapOrder)
    (id : String) (now : Int) (input : Option UserInput) :
    h.Restored ((Host.scimReplaceUser env store order id now input).run h) := by
  cases input with
  | none => exact restored_pure _
  | some input =>
    refine restored_read (run_read _ _) ?_
    cases hl : h.svc.dir.users.lookup id with
    | none => exact restored_pure _
    | some prev =>
      have hpresent : ¬h.svc.dir.users.lookup id = none := by simp [hl]
      dsimp only
      split
      · rename_i hflip
        obtain ⟨found, hnodup, hfound, hrun⟩ := groupsContainingUser_run order id h.svc
        have hplan : (userActiveToggleOps order id (prev.replace now input).active).run h.svc =
            (h.svc, found.map fun gid =>
              ⟨(prev.replace now input).active, groupMemberTuple gid id⟩) := by
          rw [userActiveToggleOps, run_bind, hrun, run_pure]
        have hfit := toggles_fit hkeys hlock hl hnodup hfound hflip
        refine restored_read hplan (restored_send hfit hnet _ fun svc hs => ?_)
        exact restored_persistPresent hfit hnet hs hpresent _ _ _ _ _
      · have hfit : (tupleLog env.parse).FitAll [] h.svc.perms.tuples := trivial
        exact restored_persistPresent hfit hnet ⟨rfl, rfl, rfl, rfl⟩ hpresent _ _ _ _ _

theorem restored_deleteUser (hkeys : h.svc.dir.Keys env.parse env.Canonical)
    (hlock : h.svc.Lockstep env.parse) (hnet : env.LosesOne h.svc.calls k) (order : MapOrder)
    (id : String) (now : Int) :
    h.Restored ((Host.scimDeleteUser env store order id now).run h) := by
  refine restored_read (run_read _ _) ?_
  cases hl : h.svc.dir.users.lookup id with
  | none => exact restored_pure _
  | some u =>
    obtain ⟨ops, hplan, hfit⟩ : ∃ ops, (userRemovalOps order id).run h.svc = (h.svc, ops) ∧
        (tupleLog env.parse).FitAll ops h.svc.perms.tuples := by
      have hactive : h.svc.dir.userActive id = u.active := by
        rw [Directory.userActive, hl]
      rw [userRemovalOps, run_bind, userActive, run_read, hactive]
      cases hua : u.active with
      | true =>
        obtain ⟨found, hnodup, hfound, hrun⟩ := groupsContainingUser_run order id h.svc
        refine ⟨found.map fun gid => ⟨false, groupMemberTuple gid id⟩, ?_, ?_⟩
        · rw [if_pos rfl, run_bind, hrun, run_pure]
        · exact toggles_fit hkeys hlock hl hnodup hfound (by simp [hua])
      | false => exact ⟨[], rfl, trivial⟩
    refine restored_read hplan (restored_send hfit hnet _ fun svc hs => ?_)
    exact restored_persist hfit hnet hs _ _ _ _

theorem restored_createGroup (hkeys : h.svc.dir.Keys env.parse env.Canonical)
    (hlock : h.svc.Lockstep env.parse) (hnet : env.LosesOne h.svc.calls k) (orders : MapOrders)
    (id : String) (now : Int) (input : Option GroupInput)
    (hplain : (Request.createGroup orders id now input).Plain env.parse env.Canonical)
    (hfresh : (Request.createGroup orders id now input).Fresh env h.svc.dir) :
    h.Restored ((Host.scimCreateGroup env store orders id now input).run h) := by
  cases input with
  | none => exact restored_pure _
  | some input =>
    rw [Host.scimCreateGroup]
    dsimp only
    split
    · exact restored_pure _
    · obtain ⟨group, -, hg, hnew⟩ := hfresh
      have hnone : h.svc.dir.groups.lookup id = none := by
        cases hl : h.svc.dir.groups.lookup id with
        | none => rfl
        | some g => exact absurd hg (hnew id g hl)
      have honly : h.svc.dir.Only env.parse id :=
        fun gid' g' hl hp => absurd (hp.trans hg) (hnew gid' g' hl)
      have hfit : (tupleLog env.parse).FitAll
          (plan env orders h.svc.dir id [] input.members ++
            groupRoleReconcileOps env.parse "" input.displayName id) h.svc.perms.tuples := by
        refine reconcile_fit hkeys hlock orders hg honly (by rw [hnone]; rfl) (by rw [hnone]; rfl)
          (fun v hv => ?_) (fun p hp => ?_)
        · obtain hv | hv := hv
          · cases hv
          · exact memberValues_canonical hplain.1 v hv
        · obtain hp | hp := hp
          · cases hp
          · exact hplain.2 p hp
      refine restored_read (groupReconcileOps_run _ _ _ _ _) ?_
      refine restored_send hfit hnet _ fun svc hs => ?_
      exact restored_persist hfit hnet hs _ _ _ _

theorem restored_replaceGroup (hkeys : h.svc.dir.Keys env.parse env.Canonical)
    (hlock : h.svc.Lockstep env.parse) (hnet : env.LosesOne h.svc.calls k) (orders : MapOrders)
    (id : String) (now : Int) (input : Option GroupInput)
    (hplain : (Request.replaceGroup orders id now input).Plain env.parse env.Canonical) :
    h.Restored ((Host.scimReplaceGroup env store orders id now input).run h) := by
  cases input with
  | none => exact restored_pure _
  | some input =>
    refine restored_read (run_read _ _) ?_
    cases hl : h.svc.dir.groups.lookup id with
    | none => exact restored_pure _
    | some g =>
      have hpresent : ¬h.svc.dir.groups.lookup id = none := by simp [hl]
      obtain ⟨-, group, hg⟩ := hkeys.group id g hl
      have hfit : (tupleLog env.parse).FitAll
          (plan env orders h.svc.dir id g.members (g.replace now input).members ++
            groupRoleReconcileOps env.parse g.displayName (g.replace now input).displayName id)
          h.svc.perms.tuples := by
        refine reconcile_fit hkeys hlock orders hg (hkeys.only hl) (by rw [hl]; rfl)
          (by rw [hl]; rfl) (fun v hv => ?_) (fun p hp => ?_)
        · obtain hv | hv := hv
          · exact memberValues_canonical (hkeys.member id g hl) v hv
          · exact memberValues_canonical hplain.1 v hv
        · obtain hp | hp := hp
          · exact hkeys.tenant id g p hl hp
          · exact Group.replace_displayName (P := fun name =>
              ∀ p, parseGroupRole env.parse name = some p → env.Canonical p.1)
              (fun p => hkeys.tenant id g p hl) hplain.2 p hp
      refine restored_read (groupReconcileOps_run _ _ _ _ _) ?_
      refine restored_send hfit hnet _ fun svc hs => ?_
      exact restored_persistPresent hfit hnet hs hpresent _ _ _ _ _

theorem restored_deleteGroup (hkeys : h.svc.dir.Keys env.parse env.Canonical)
    (hlock : h.svc.Lockstep env.parse) (hnet : env.LosesOne h.svc.calls k) (orders : MapOrders)
    (id : String) : h.Restored ((Host.scimDeleteGroup env store orders id).run h) := by
  refine restored_read (run_read _ _) ?_
  cases hl : h.svc.dir.groups.lookup id with
  | none => exact restored_pure _
  | some g =>
    obtain ⟨-, group, hg⟩ := hkeys.group id g hl
    have hfit : (tupleLog env.parse).FitAll
        (plan env orders h.svc.dir id g.members [] ++
          groupRoleReconcileOps env.parse g.displayName "" id) h.svc.perms.tuples := by
      refine reconcile_fit hkeys hlock orders hg (hkeys.only hl) (by rw [hl]; rfl)
        (by rw [hl]; rfl) (fun v hv => ?_) (fun p hp => ?_)
      · obtain hv | hv := hv
        · exact memberValues_canonical (hkeys.member id g hl) v hv
        · cases hv
      · obtain hp | hp := hp
        · exact hkeys.tenant id g p hl hp
        · cases hp
    refine restored_read (groupReconcileOps_run _ _ _ _ _) ?_
    refine restored_send hfit hnet _ fun svc hs => ?_
    exact restored_persist hfit hnet hs _ _ _ _

end

/-- Where one call of a request is lost, be it to the substrate or to the directory store,
and the calls that undo what was done are answered, the request changes nothing. -/
theorem failed_write_restored {env : Env} {store : DirectoryStore} {h : Host} {request : Request}
    {k : Nat} (hkeys : h.svc.dir.Keys env.parse env.Canonical) (hlock : h.svc.Lockstep env.parse)
    (hplain : request.Plain env.parse env.Canonical) (hfresh : request.Fresh env h.svc.dir)
    (hnet : env.LosesOne h.svc.calls k) : h.Restored ((request.durable env store).run h) := by
  cases request with
  | createUser id now input => exact restored_createUser hnet id now input
  | replaceUser order id now input => exact restored_replaceUser hkeys hlock hnet order id now input
  | deleteUser order id now => exact restored_deleteUser hkeys hlock hnet order id now
  | createGroup orders id now input =>
    exact restored_createGroup hkeys hlock hnet orders id now input hplain hfresh
  | replaceGroup orders id now input =>
    exact restored_replaceGroup hkeys hlock hnet orders id now input hplain
  | deleteGroup orders id => exact restored_deleteGroup hkeys hlock hnet orders id

/-- A group of two is created, and the second grant is lost. -/
theorem failed_write_restored_staff :
    let env : Env := { sampleEnv with net := fun n => if n = 1 then .dropped else .answered }
    let request := Request.createGroup ⟨listed, listed⟩ staffId 0
      (some ⟨"staff", [⟨annId, ""⟩, ⟨bobId, ""⟩]⟩)
    let out := (request.durable env postgresDirectoryStore).run ⟨.empty, ⟨∅, ∅⟩⟩
    out.1.svc.failures = 1 ∧ out.1.svc.calls = 3 ∧
      out.2 = .error 500 "failed to sync group membership tuples" ∧
      Host.Unchanged ⟨.empty, ⟨∅, ∅⟩⟩ out.1 := by
  intro env request out
  have hnet : env.LosesOne 0 1 := by
    refine ⟨rfl, fun j hj => if_neg ?_⟩
    omega
  have hinit := Flights.governed_init env env.Canonical
  have hlock : Service.empty.Lockstep env.parse := by
    refine @lockstep_of_right env env.Canonical _ fun t => ?_
    obtain hright | ⟨i, scope, ⟨p, hp, -⟩, -⟩ := hinit.items t
    · exact hright
    · cases hp
  have hplain : request.Plain env.parse env.Canonical :=
    plain_of_format (by decide +kernel) (by decide +kernel)
  have hfresh : request.Fresh env Service.empty.dir :=
    ⟨0x00000001000000000000000000000001, by decide +kernel, by decide +kernel,
      fun gid g hl => by cases hl⟩
  have hout : out.1.svc.failures = 1 ∧ out.1.svc.calls = 3 ∧
      out.2 = .error 500 "failed to sync group membership tuples" := by decide +kernel
  have hrestored : Host.Restored ⟨.empty, ⟨∅, ∅⟩⟩ out :=
    failed_write_restored hinit.inv hlock hplain hfresh hnet
  exact ⟨hout.1, hout.2.1, hout.2.2, (hrestored (by rw [hout.1]; decide)).1⟩

end Knowledge.Permission
