import Knowledge.Lib.Tally
import Knowledge.Substrate.Client

/-!
A gateway client over one primary and its standbys. The evidence file is shipped to the
standbys; the permission store is not, and a check is answered by the first standby.
-/

set_option autoImplicit false

namespace Knowledge.Substrate
open Knowledge.Permission
open Knowledge.Replication (ReplicationShared Role ensureWritable)
open Knowledge.Transition
open PersistentTupleStore

/-- The nodes, the client, and the tuples that follow from the writes it had acknowledged. -/
structure Ha (F : Type) where
  nodes : List (Node F)
  client : Client
  acknowledged : Finset RelationTuple

inductive HaAct (F : Type) where
  | grant (tuple : RelationTuple)
  | revoke (tuple : RelationTuple)
  | check (tuple : RelationTuple)
  | commit (file : F)
  | apply (i : Nat)

/-- One primary, any number of standbys, and permission stores that agree at the start. -/
structure Deployment (F : Type) where
  file : F
  nodes : List (List RelationTuple)
  primary : Fin nodes.length
  tuples : Finset RelationTuple
  agree : ∀ rows ∈ nodes, rows.toFinset = tuples

open Deployment

section

variable {F : Type}

def Deployment.role (d : Deployment F) (i : Nat) : Role :=
  if i = d.primary.val then .primary else .standby

def Deployment.start (d : Deployment F) : Ha F where
  nodes := d.nodes.mapIdx fun i rows => ⟨.start (d.role i), d.file, .openRows rows⟩
  client := .new d.nodes.length
  acknowledged := d.tuples

namespace Ha

def called {α : Type} (s : Ha F) (tuples : Finset RelationTuple) :
    Except HttpError α × Client × List (Node F) → Ha F
  | (.ok _, client, nodes) => ⟨nodes, client, tuples⟩
  | (.error _, client, nodes) => ⟨nodes, client, s.acknowledged⟩

def commit (s : Ha F) (file : F) : Ha F :=
  { s with nodes := s.nodes.map fun st =>
      if st.replication.role = .primary then { st with file } else st }

def apply (s : Ha F) (i : Nat) : Ha F :=
  match s.nodes.find? (fun st => st.replication.role = .primary), s.nodes[i]? with
  | some primary, some st => { s with nodes := s.nodes.set i { st with file := primary.file } }
  | _, _ => s

def next (s : Ha F) : HaAct F → Ha F
  | .grant tuple =>
    s.called (insert tuple s.acknowledged) (s.client.permissionGrant tuple s.nodes)
  | .revoke tuple =>
    s.called (s.acknowledged.erase tuple) (s.client.permissionRevoke tuple s.nodes)
  | .check tuple => s.called s.acknowledged (s.client.permissionCheck tuple s.nodes)
  | .commit file => s.commit file
  | .apply i => s.apply i

def CaughtUp (s : Ha F) : Prop := ∀ a ∈ s.nodes, ∀ b ∈ s.nodes, a.file = b.file

/-- The client calls one after another, each when every standby has the primary's file. -/
def enabled (s : Ha F) : HaAct F → Prop
  | .commit _ => True
  | .apply _ => True
  | _ => s.CaughtUp

def Current (s : Ha F) : Prop := ∀ tuple, ∃ allowed,
  (s.client.permissionCheck tuple s.nodes).1 = .ok allowed ∧
    (allowed = true ↔ tuple.subject.subjectRelation = none ∧
      Holds s.acknowledged .withDefaults tuple.subject tuple.object tuple.relation)

end Ha

def ha (d : Deployment F) : System (Ha F) (HaAct F) := .ofNext (· = d.start) Ha.enabled Ha.next

/-- The primary's tuples are those acknowledged; a standby's are those it started with. -/
def Deployment.tuplesAt (d : Deployment F) (acknowledged : Finset RelationTuple) (i : Nat) :
    Finset RelationTuple :=
  if i = d.primary.val then acknowledged else d.tuples

structure NodeInv (d : Deployment F) (acknowledged : Finset RelationTuple) (i : Nat)
    (st : Node F) : Prop where
  role : st.replication.role = d.role i
  indexed : st.permissions.store.Indexed
  tuples : st.permissions.store.tuples = d.tuplesAt acknowledged i

structure HaInv (d : Deployment F) (s : Ha F) : Prop where
  client : s.client.nodes = d.nodes.length
  believed : s.client.primary < d.nodes.length
  length : s.nodes.length = d.nodes.length
  nodes : ∀ i st, s.nodes[i]? = some st → NodeInv d s.acknowledged i st

end

section

variable {σ α : Type} [Inhabited α]

theorem tryNodes_write {attempt : Nat → σ → Except HttpError α × σ} {s : σ} {p : Nat}
    {order : List Nat} (hmem : p ∈ order)
    (hskip : ∀ i ∈ order, i ≠ p → ∃ err, attempt i s = (.error err, s) ∧ isFailoverErr err = true)
    (hfinal : ∀ err s', attempt p s = (.error err, s') → isFailoverErr err = false)
    (lastErr : Option HttpError) (c : Client) :
    Client.tryNodes true attempt order lastErr c s =
      ((attempt p s).1, match (attempt p s).1 with | .ok _ => c.setPrimary p | .error _ => c,
        (attempt p s).2) := by
  induction order generalizing lastErr with
  | nil => simp at hmem
  | cons i rest ih =>
    by_cases hi : i = p
    · subst hi
      cases h : attempt i s with
      | mk result s' =>
        cases result with
        | ok out => simp [Client.tryNodes, h]
        | error err => simp [Client.tryNodes, h, hfinal err s' h]
    · obtain ⟨err, herr, hover⟩ := hskip i List.mem_cons_self hi
      have hrest : p ∈ rest := (List.mem_cons.mp hmem).resolve_left (Ne.symm hi)
      have hne : rest.isEmpty = false := by
        cases rest with
        | nil => simp at hrest
        | cons => rfl
      simp only [Client.tryNodes, herr, hover, hne, Bool.not_false, Bool.true_or, Bool.and_self,
        if_true]
      exact ih hrest (fun j hj => hskip j (List.mem_cons_of_mem _ hj)) (some err)

end

section

variable {F : Type} {d : Deployment F}

theorem mem_nodeOrder {c : Client} {i : Nat} (hi : i < c.nodes) (write : Bool) :
    i ∈ c.nodeOrder write := by
  by_cases h : i = c.primary
  · cases write <;> simp [Client.nodeOrder, h]
  · cases write <;> simp [Client.nodeOrder, h, hi]

theorem lt_of_mem_nodeOrder {c : Client} {i : Nat} (write : Bool) (h : i ∈ c.nodeOrder write)
    (hprimary : c.primary < c.nodes) : i < c.nodes := by
  cases write <;> simp only [Client.nodeOrder, Bool.false_eq_true, if_false, if_true,
    List.mem_append, List.mem_cons, List.mem_filter, List.mem_range, List.not_mem_nil,
    or_false] at h
  · omega
  · omega

theorem set_same {T : Type} {l : List T} {i : Nat} {a : T} (h : l[i]? = some a) :
    l.set i a = l := by
  refine List.ext_getElem? fun j => ?_
  rw [List.getElem?_set]
  split
  · rename_i hij
    subst hij
    rw [h, if_pos (List.getElem?_eq_some_iff.mp h).1]
  · rfl

theorem guardWritable_primary {st : Node F} (h : st.replication.role = .primary) :
    guardWritable st = .ok () := by
  simp [guardWritable, ensureWritable, ReplicationShared.isWritable, h]

theorem guardWritable_standby {st : Node F} (h : st.replication.role = .standby) :
    ∃ text, guardWritable st = .error (.unavailable text) := by
  simp [guardWritable, ensureWritable, ReplicationShared.isWritable, h]

/-- A handler that a standby turns away and that on the primary changes the tuples by `f`, or
finds nothing to change. -/
structure Writes (handler : Node F → Except FfiError Nat × Node F)
    (f : Finset RelationTuple → Finset RelationTuple) : Prop where
  standby : ∀ st, st.replication.role = .standby →
    ∃ text, handler st = (.error (.unavailable text), st)
  primary : ∀ st, st.replication.role = .primary → st.permissions.store.Indexed →
    (∃ out st', handler st = (.ok out, st') ∧ st'.replication = st.replication ∧
      st'.file = st.file ∧ st'.permissions.store.Indexed ∧
      st'.permissions.store.tuples = f st.permissions.store.tuples) ∨
    ∃ kind id, handler st = (.error (.notFound kind id), st)

theorem writes_grant (tuple : RelationTuple) :
    Writes (permissionGrant (F := F) tuple) (insert tuple) := by
  refine ⟨fun st h => ?_, fun st h hindexed => .inl ?_⟩
  · obtain ⟨text, htext⟩ := guardWritable_standby h
    exact ⟨text, by simp only [permissionGrant, htext]⟩
  · refine ⟨if (st.permissions.upsert tuple).1 then 201 else 200,
      ⟨st.replication, st.file, (st.permissions.upsert tuple).2⟩,
      by simp only [permissionGrant, guardWritable_primary h], rfl, rfl, ?_, ?_⟩
    · exact hindexed.upsert tuple
    · exact TupleStore.upsert_tuples _ tuple

theorem writes_revoke (tuple : RelationTuple) :
    Writes (permissionRevoke (F := F) tuple) (·.erase tuple) := by
  refine ⟨fun st h => ?_, fun st h hindexed => ?_⟩
  · obtain ⟨text, htext⟩ := guardWritable_standby h
    exact ⟨text, by simp only [permissionRevoke, htext]⟩
  · by_cases hmem : tuple ∈ st.permissions.store.tuples
    · have hremove : st.permissions.store.remove tuple =
          (.ok (), (st.permissions.store.remove tuple).2) := by
        simp [TupleStore.remove, hmem]
      refine .inl ⟨204, ⟨st.replication, st.file, ⟨(st.permissions.store.remove tuple).2,
        st.permissions.rows.filter (· ≠ tuple)⟩⟩, ?_, rfl, rfl, ?_, ?_⟩
      · simp only [permissionRevoke, guardWritable_primary h, hmem, not_true_eq_false, if_false]
        rw [PersistentTupleStore.remove, hremove]
      · exact hindexed.removed tuple
      · exact TupleStore.remove_tuples hremove
    · exact .inr ⟨_, _, by simp only [permissionRevoke, guardWritable_primary h, hmem,
        not_false_eq_true, if_true]; rfl⟩

theorem HaInv.node {s : Ha F} (h : HaInv d s) {i : Nat} (hi : i < d.nodes.length) :
    ∃ st, s.nodes[i]? = some st ∧ NodeInv d s.acknowledged i st := by
  rw [← h.length] at hi
  exact ⟨s.nodes[i], List.getElem?_eq_getElem hi, h.nodes i _ (List.getElem?_eq_getElem hi)⟩

/-- What a write through the client comes to: the primary took it, or nothing changed. -/
theorem HaInv.route_write {s : Ha F} (h : HaInv d s)
    {handler : Node F → Except FfiError Nat × Node F}
    {f : Finset RelationTuple → Finset RelationTuple} (hw : Writes handler f) (path : String)
    (hpath : isReadRoute .post path = false) :
    ∃ st, s.nodes[d.primary.val]? = some st ∧
      ((∃ out st', handler st = (.ok out, st') ∧ st'.replication = st.replication ∧
        st'.file = st.file ∧ st'.permissions.store.Indexed ∧
        st'.permissions.store.tuples = f st.permissions.store.tuples ∧
        s.client.route .post path (doOne handler) s.nodes =
          (.ok out, s.client.setPrimary d.primary.val, s.nodes.set d.primary.val st')) ∨
      ∃ kind id err, handler st = (.error (.notFound kind id), st) ∧
        s.client.route .post path (doOne handler) s.nodes = (.error err, s.client, s.nodes)) := by
  obtain ⟨st, hst, hnode⟩ := h.node d.primary.isLt
  have hrole : st.replication.role = .primary := by rw [hnode.role, role, if_pos rfl]
  have hskip : ∀ i ∈ s.client.nodeOrder true, i ≠ d.primary.val → ∃ err,
      doOne handler i s.nodes = (.error err, s.nodes) ∧ isFailoverErr err = true := by
    intro i hi hne
    have hlt : i < d.nodes.length := by
      rw [← h.client]
      exact lt_of_mem_nodeOrder true hi (h.client.symm ▸ h.believed)
    obtain ⟨st', hst', hnode'⟩ := h.node hlt
    obtain ⟨text, htext⟩ := hw.standby st' (by rw [hnode'.role, role, if_neg hne])
    refine ⟨⟨503, "Unavailable"⟩, ?_, rfl⟩
    simp only [doOne, hst', htext, set_same hst']
    rfl
  have hmem : d.primary.val ∈ s.client.nodeOrder true :=
    mem_nodeOrder (h.client.symm ▸ d.primary.isLt) true
  refine ⟨st, hst, ?_⟩
  obtain ⟨out, st', hok, hrepl, hfile, hindexed, htuples⟩ | ⟨kind, id, hnot⟩ :=
    hw.primary st hrole hnode.indexed
  · have hat : doOne handler d.primary.val s.nodes = (.ok out, s.nodes.set d.primary.val st') := by
      simp only [doOne, hst, hok]
    refine .inl ⟨out, st', hok, hrepl, hfile, hindexed, htuples, ?_⟩
    simp only [Client.route, hpath, Bool.not_false]
    rw [tryNodes_write hmem hskip (by simp [hat]), hat]
  · have hat : doOne handler d.primary.val s.nodes = (.error ⟨404, "NotFound"⟩, s.nodes) := by
      simp only [doOne, hst, hnot, set_same hst]
      rfl
    refine .inr ⟨kind, id, ⟨404, "NotFound"⟩, hnot, ?_⟩
    simp only [Client.route, hpath, Bool.not_false]
    rw [tryNodes_write hmem hskip (by rw [hat]; rintro err s' heq; cases heq; rfl), hat]

theorem HaInv.write {s : Ha F} (h : HaInv d s) {handler : Node F → Except FfiError Nat × Node F}
    {f : Finset RelationTuple → Finset RelationTuple} (hw : Writes handler f) {path : String}
    (hpath : isReadRoute .post path = false) :
    HaInv d (s.called (f s.acknowledged) (s.client.route .post path (doOne handler) s.nodes)) := by
  obtain ⟨st, hst, ⟨out, st', -, hrepl, -, hindexed, htuples, hroute⟩ | ⟨kind, id, err, -, hroute⟩⟩ :=
    h.route_write hw path hpath
  · have hnode := h.nodes _ _ hst
    rw [hroute]
    refine ⟨h.client, d.primary.isLt, by simpa [Ha.called] using h.length, fun i node hi => ?_⟩
    simp only [Ha.called, List.getElem?_set] at hi
    split at hi
    · rename_i hip
      subst hip
      split at hi
      · obtain rfl := Option.some.inj hi
        refine ⟨by rw [hrepl, hnode.role], hindexed, ?_⟩
        rw [htuples, hnode.tuples]
        simp only [tuplesAt, if_true]
        rfl
      · cases hi
    · rename_i hip
      have hother := h.nodes i node hi
      refine ⟨hother.role, hother.indexed, ?_⟩
      rw [hother.tuples]
      simp only [tuplesAt, if_neg (Ne.symm hip)]
  · rw [hroute]
    exact h

theorem nodeOrder_read {c : Client} (hprimary : c.primary < c.nodes) :
    ∃ r rest, c.nodeOrder false = r :: rest ∧ r < c.nodes ∧ (1 < c.nodes → r ≠ c.primary) := by
  cases horder : c.nodeOrder false with
  | nil => simp [Client.nodeOrder] at horder
  | cons r rest =>
    refine ⟨r, rest, rfl, lt_of_mem_nodeOrder false ?_ hprimary, fun hlt heq => ?_⟩
    · rw [horder]
      exact List.mem_cons_self
    · have hothers : (List.range c.nodes).filter (· ≠ c.primary) ≠ [] := by
        refine List.ne_nil_of_mem (a := if c.primary = 0 then 1 else 0) ?_
        rw [List.mem_filter, List.mem_range, decide_eq_true_eq]
        split <;> omega
      obtain ⟨i, others, hi⟩ := List.exists_cons_of_ne_nil hothers
      have hr : r = i := by
        simp only [Client.nodeOrder, hi, Bool.false_eq_true, if_false, List.cons_append,
          List.cons.injEq] at horder
        exact horder.1.symm
      have hne : i ∈ (List.range c.nodes).filter (· ≠ c.primary) := by
        rw [hi]
        exact List.mem_cons_self
      rw [List.mem_filter, decide_eq_true_eq] at hne
      exact hne.2 (hr ▸ heq)

theorem HaInv.check_answer {s : Ha F} (h : HaInv d s) :
    ∃ r < d.nodes.length, (1 < d.nodes.length → r ≠ s.client.primary) ∧
      ∀ tuple, ∃ allowed,
        s.client.permissionCheck tuple s.nodes = (.ok allowed, s.client, s.nodes) ∧
        (allowed = true ↔ tuple.subject.subjectRelation = none ∧
          Holds (d.tuplesAt s.acknowledged r) .withDefaults tuple.subject tuple.object
            tuple.relation) := by
  obtain ⟨r, rest, horder, hlt, hne⟩ := nodeOrder_read (h.client.symm ▸ h.believed)
  rw [h.client] at hlt hne
  obtain ⟨st, hst, hnode⟩ := h.node hlt
  refine ⟨r, hlt, hne, fun tuple => ?_⟩
  obtain ⟨allowed, hallowed, hiff⟩ := hnode.indexed.check_any .withDefaults tuple.object
    tuple.relation tuple.subject (Nat.lt_succ_self _)
  rw [hnode.tuples] at hiff
  refine ⟨allowed, ?_, hiff⟩
  have hat : doOne (permissionCheck tuple) r s.nodes = (.ok allowed, s.nodes) := by
    simp only [doOne, hst, permissionCheck, hallowed, Option.getD_some, set_same hst]
  have hread : isReadRoute .post "/permission/check" = true := by decide +kernel
  simp only [Client.permissionCheck, Client.route, hread, Bool.not_true, horder, Client.tryNodes,
    hat, Bool.false_eq_true, if_false]

theorem HaInv.of_files {s : Ha F} (h : HaInv d s) {nodes : List (Node F)}
    (hlen : nodes.length = s.nodes.length)
    (hsame : ∀ (i : Nat) (st : Node F), nodes[i]? = some st → ∃ st₀, s.nodes[i]? = some st₀ ∧
      st.replication = st₀.replication ∧ st.permissions = st₀.permissions) :
    HaInv d { s with nodes } := by
  refine ⟨h.client, h.believed, hlen.trans h.length, fun i st hi => ?_⟩
  obtain ⟨st₀, hst₀, hrepl, hperm⟩ := hsame i st hi
  have hnode := h.nodes i st₀ hst₀
  exact ⟨hrepl ▸ hnode.role, hperm ▸ hnode.indexed, hperm ▸ hnode.tuples⟩

theorem HaInv.commit {s : Ha F} (h : HaInv d s) (file : F) : HaInv d (s.commit file) := by
  refine h.of_files (by simp) fun i st hi => ?_
  rw [List.getElem?_map, Option.map_eq_some_iff] at hi
  obtain ⟨st₀, hst₀, rfl⟩ := hi
  refine ⟨st₀, hst₀, ?_⟩
  split
  · exact ⟨rfl, rfl⟩
  · exact ⟨rfl, rfl⟩

theorem HaInv.apply {s : Ha F} (h : HaInv d s) (i : Nat) : HaInv d (s.apply i) := by
  unfold Ha.apply
  split
  · rename_i primary st _ hst
    refine h.of_files (by simp) fun j st' hj => ?_
    rw [List.getElem?_set] at hj
    split at hj
    · rename_i hij
      subst hij
      split at hj
      · obtain rfl := Option.some.inj hj
        exact ⟨st, hst, rfl, rfl⟩
      · cases hj
    · exact ⟨st', hj, rfl, rfl⟩
  · exact h

theorem openRows_indexed (rows : List RelationTuple) :
    (openRows rows).store.Indexed ∧
      (openRows rows).store.tuples = rows.toFinset := by
  induction rows using List.reverseRecOn with
  | nil => exact ⟨TupleStore.indexed_of_reachable (.init rfl), rfl⟩
  | append_singleton front tuple ih =>
    simp only [openRows] at ih
    simp only [openRows, List.foldl_append, List.foldl_cons, List.foldl_nil]
    refine ⟨ih.1.upsert tuple, ?_⟩
    rw [TupleStore.upsert_tuples, ih.2]
    ext t
    simp

theorem HaInv.start (d : Deployment F) : HaInv d d.start := by
  refine ⟨rfl, Nat.lt_of_le_of_lt (Nat.zero_le _) d.primary.isLt, by simp [Deployment.start], ?_⟩
  intro i st hi
  simp only [Deployment.start, List.getElem?_mapIdx, Option.map_eq_some_iff] at hi
  obtain ⟨rows, hrows, rfl⟩ := hi
  obtain ⟨hindexed, htuples⟩ := openRows_indexed rows
  refine ⟨rfl, hindexed, ?_⟩
  rw [htuples, d.agree rows (List.mem_of_getElem? hrows)]
  simp [Deployment.tuplesAt, Deployment.start]

theorem haInv_of_reachable {s : Ha F} (h : (ha d).Reachable s) : HaInv d s := by
  refine h.invariant (HaInv d) ?_ ?_
  · rintro s rfl
    exact HaInv.start d
  · rintro s act t - hs ⟨-, rfl⟩
    cases act with
    | grant tuple => exact hs.write (writes_grant tuple) (by decide +kernel)
    | revoke tuple => exact hs.write (writes_revoke tuple) (by decide +kernel)
    | check tuple =>
      obtain ⟨r, -, -, hanswer⟩ := hs.check_answer
      obtain ⟨allowed, hcheck, -⟩ := hanswer tuple
      simp only [Ha.next, hcheck, Ha.called]
      exact hs
    | commit file => exact hs.commit file
    | apply i => exact hs.apply i

/-- A state in which the client has a write acknowledged and the standbys keep up. -/
structure Settled (d : Deployment F) (s : Ha F) : Prop where
  reachable : (ha d).Reachable s
  caughtUp : s.CaughtUp
  believed : s.client.primary = d.primary.val

theorem caughtUp_set {s : Ha F} {i : Nat} {st st' : Node F} {client : Client}
    {acknowledged : Finset RelationTuple} (h : s.CaughtUp) (hst : s.nodes[i]? = some st)
    (hfile : st'.file = st.file) : Ha.CaughtUp ⟨s.nodes.set i st', client, acknowledged⟩ := by
  have hmem := List.mem_of_getElem? hst
  have hall : ∀ a ∈ s.nodes.set i st', a.file = st.file :=
    Tally.forall_mem_set (fun a ha => h a ha st hmem) hfile
  intro a ha b hb
  rw [hall a ha, hall b hb]

theorem grant_settles {s : Ha F} (hr : (ha d).Reachable s) (hs : s.CaughtUp)
    (tuple : RelationTuple) :
    Settled d (s.next (.grant tuple)) ∧
      (s.next (.grant tuple)).acknowledged = insert tuple s.acknowledged := by
  have hnext : (ha d).Reachable (s.next (.grant tuple)) := hr.step (a := .grant tuple) ⟨hs, rfl⟩
  have hinv := haInv_of_reachable hr
  obtain ⟨st, hst, ⟨out, st', -, -, hfile, -, -, hroute⟩ | ⟨kind, id, err, hnot, -⟩⟩ :=
    hinv.route_write (writes_grant tuple) "/permission/grant" (by decide +kernel)
  · have heq : s.next (.grant tuple) = ⟨s.nodes.set d.primary.val st',
        s.client.setPrimary d.primary.val, insert tuple s.acknowledged⟩ := by
      simp only [Ha.next, Client.permissionGrant, hroute, Ha.called]
    rw [heq] at hnext ⊢
    exact ⟨⟨hnext, caughtUp_set hs hst hfile, rfl⟩, rfl⟩
  · have hrole : st.replication.role = .primary := by
      rw [(hinv.nodes _ _ hst).role, role, if_pos rfl]
    simp only [permissionGrant, guardWritable_primary hrole] at hnot
    cases hnot

theorem revoke_settles {s : Ha F} (h : Settled d s) {tuple : RelationTuple}
    (hmem : tuple ∈ s.acknowledged) :
    Settled d (s.next (.revoke tuple)) ∧
      (s.next (.revoke tuple)).acknowledged = s.acknowledged.erase tuple := by
  have hnext : (ha d).Reachable (s.next (.revoke tuple)) :=
    h.reachable.step (a := .revoke tuple) ⟨h.caughtUp, rfl⟩
  have hinv := haInv_of_reachable h.reachable
  obtain ⟨st, hst, ⟨out, st', -, -, hfile, -, -, hroute⟩ | ⟨kind, id, err, hnot, -⟩⟩ :=
    hinv.route_write (writes_revoke tuple) "/permission/revoke" (by decide +kernel)
  · have heq : s.next (.revoke tuple) = ⟨s.nodes.set d.primary.val st',
        s.client.setPrimary d.primary.val, s.acknowledged.erase tuple⟩ := by
      simp only [Ha.next, Client.permissionRevoke, hroute, Ha.called]
    rw [heq] at hnext ⊢
    exact ⟨⟨hnext, caughtUp_set h.caughtUp hst hfile, rfl⟩, rfl⟩
  · have hnode := hinv.nodes _ _ hst
    have hrole : st.replication.role = .primary := by
      rw [hnode.role, role, if_pos rfl]
    have hheld : tuple ∈ st.permissions.store.tuples := by
      rw [hnode.tuples, tuplesAt, if_pos rfl]
      exact hmem
    simp only [permissionRevoke, guardWritable_primary hrole, hheld, not_true_eq_false,
      if_false] at hnot
    have hremove : st.permissions.store.remove tuple =
        (.ok (), (st.permissions.store.remove tuple).2) := by
      simp [TupleStore.remove, hheld]
    rw [PersistentTupleStore.remove, hremove] at hnot
    cases hnot

theorem revoke_all {s : Ha F} (h : Settled d s) : ∃ t, Settled d t ∧ t.acknowledged = ∅ := by
  induction hn : s.acknowledged.card generalizing s with
  | zero => exact ⟨s, h, Finset.card_eq_zero.mp hn⟩
  | succ n ih =>
    obtain ⟨tuple, hmem⟩ := Finset.card_pos.mp (by omega : 0 < s.acknowledged.card)
    obtain ⟨hsettled, hack⟩ := revoke_settles h hmem
    refine ih hsettled ?_
    rw [hack, Finset.card_erase_of_mem hmem, hn]
    rfl

theorem Settled.check_stale {s : Ha F} (h : Settled d s) (hmany : 1 < d.nodes.length)
    (hcurrent : s.Current) (tuple : RelationTuple) (hdirect : tuple.subject.subjectRelation = none) :
    Holds s.acknowledged .withDefaults tuple.subject tuple.object tuple.relation ↔
      Holds d.tuples .withDefaults tuple.subject tuple.object tuple.relation := by
  obtain ⟨r, -, hne, hanswer⟩ := (haInv_of_reachable h.reachable).check_answer
  have hr : r ≠ d.primary.val := h.believed ▸ hne hmany
  obtain ⟨allowed, hcheck, hiff⟩ := hanswer tuple
  obtain ⟨allowed', hcheck', hiff'⟩ := hcurrent tuple
  rw [hcheck] at hcheck'
  obtain rfl := Except.ok.inj hcheck'
  rw [tuplesAt, if_neg hr] at hiff
  have := hiff'.symm.trans hiff
  simpa only [hdirect, true_and] using this

theorem not_holds_empty {namespaces : NamespaceRegistry} {subject : SubjectRef}
    {object : ObjectRef} {relation : Relation} :
    ¬ Holds ∅ namespaces subject object relation := by
  intro h
  induction h with
  | direct _ hmem => simp at hmem
  | userset _ hmem _ _ => simp at hmem

theorem start_caughtUp (d : Deployment F) : d.start.CaughtUp := by
  intro a ha b hb
  simp only [start, List.mem_mapIdx] at ha hb
  obtain ⟨i, hi, rfl⟩ := ha
  obtain ⟨j, hj, rfl⟩ := hb
  rfl

/-- Checks answer by the acknowledged writes in every run exactly where the client has no
standby to send them to. -/
theorem checks_current_iff (d : Deployment F) :
    (∀ s, (ha d).Reachable s → s.CaughtUp → s.Current) ↔ d.nodes.length = 1 := by
  constructor
  · intro hcurrent
    by_contra hone
    have hmany : 1 < d.nodes.length := by
      have := d.primary.isLt
      omega
    let tuple : RelationTuple := ⟨⟨.tenant, 1⟩, .owner, .direct .user 2⟩
    -- one grant, then every tuple revoked: the standby would have to answer yes and no
    obtain ⟨hgranted, hack⟩ := grant_settles (.init rfl) (start_caughtUp d) tuple
    obtain ⟨s, hrevoked, hempty⟩ := revoke_all hgranted
    have hyes := (hgranted.check_stale hmany (hcurrent _ hgranted.reachable hgranted.caughtUp)
      tuple rfl).mp (.direct .refl (by rw [hack]; exact Finset.mem_insert_self _ _))
    have hno := (hrevoked.check_stale hmany (hcurrent _ hrevoked.reachable hrevoked.caughtUp)
      tuple rfl).mpr hyes
    rw [hempty] at hno
    exact not_holds_empty hno
  · intro hone s hr _ tuple
    obtain ⟨r, hlt, -, hanswer⟩ := (haInv_of_reachable hr).check_answer
    obtain ⟨allowed, hcheck, hiff⟩ := hanswer tuple
    have hrp : r = d.primary.val := by
      have := d.primary.isLt
      omega
    rw [tuplesAt, if_pos hrp] at hiff
    exact ⟨allowed, by rw [hcheck], hiff⟩

end

def sampleOwner : RelationTuple := ⟨⟨.tenant, 1⟩, .owner, .direct .user 2⟩

def samplePair : Deployment Unit where
  file := ()
  nodes := [[sampleOwner], [sampleOwner]]
  primary := 0
  tuples := {sampleOwner}
  agree := by decide

/-- The grant is revoked and the revocation acknowledged; the next check still allows it. -/
theorem revoked_still_allowed : ¬ ∀ (F : Type) (d : Deployment F) (s : Ha F),
    (ha d).Reachable s → s.CaughtUp → s.Current := by
  intro h
  have hstep : (ha samplePair).Reachable (samplePair.start.next (.revoke sampleOwner)) :=
    System.Reachable.step (a := .revoke sampleOwner) (.init rfl)
      ⟨start_caughtUp samplePair, rfl⟩
  have hup : (samplePair.start.next (.revoke sampleOwner)).CaughtUp := fun _ _ _ _ => rfl
  obtain ⟨allowed, hcheck, hiff⟩ := h Unit samplePair _ hstep hup sampleOwner
  have hallowed : ((samplePair.start.next (.revoke sampleOwner)).client.permissionCheck sampleOwner
      (samplePair.start.next (.revoke sampleOwner)).nodes).1.toOption = some true := by
    decide +kernel
  have hempty : (samplePair.start.next (.revoke sampleOwner)).acknowledged = ∅ := by
    decide +kernel
  rw [hcheck] at hallowed
  rw [hempty] at hiff
  exact not_holds_empty (hiff.mp (Option.some.inj hallowed)).2

end Knowledge.Substrate
