import Knowledge.Sync.Compaction
import Knowledge.Sync.Reabsorb

/-!
Runs of calls that author nothing: what they take in while no compaction is due, and why two
engines that differ in the order of their ops stay so, compactions included.
-/

set_option autoImplicit false

namespace Knowledge.Sync
open Knowledge.Dedup Knowledge.Machine
open SyncOp

def Call.epoch {T : Type} : Call T → Nat
  | .merge other => other.compactionEpoch
  | .mergeDelta envelope => envelope.compactionEpoch
  | _ => 0

/-- The calls that author nothing: merges and reads. -/
def Call.absorbs {T : Type} : Call T → Bool
  | .merge _ | .mergeDelta _ | .state => true
  | _ => false

def offered {T : Type} (cs : List (Env T × Call T)) : List (SyncOp T) :=
  cs.flatMap (fun c => c.2.entries)

namespace SyncEngine
variable {T : Type} [DecidableEq T]

/-- The ops each call finds missing in the log as it stands then, counted over the run. -/
def absorbedBy (e : SyncEngine T) : List (Env T × Call T) → Nat
  | [] => 0
  | c :: cs => (forgotten e.log c.2.entries).length+(e.call c.1 c.2).absorbedBy cs

/-- No call of the run meets material of an epoch ahead of the log. -/
def Accepts (e : SyncEngine T) : List (Env T × Call T) → Prop
  | [] => True
  | c :: cs => c.2.epoch ≤ e.log.compactionEpoch ∧ (e.call c.1 c.2).Accepts cs

def Quiet (e : SyncEngine T) : List (Env T × Call T) → Prop
  | [] => True
  | c :: cs => e.compacts c.1 c.2 = false ∧ (e.call c.1 c.2).Quiet cs

theorem quiet_append (e : SyncEngine T) (cs ds : List (Env T × Call T)) :
    e.Quiet (cs ++ ds) ↔ e.Quiet cs ∧ (e.calls cs).Quiet ds := by
  induction cs generalizing e with
  | nil => simp [Quiet]
  | cons c cs ih => simp [Quiet, ih, and_assoc]

/-! ## Runs without a compaction -/

theorem call_of_quiet {e : SyncEngine T} {env : Env T} {c : Call T}
    (h : e.compacts env c = false) : e.call env c = e.recorded env c := by
  simp [call_eq, h]

/-- The second engine is the first with the entries it did not list taken in. -/
structure Absorbed (e e' : SyncEngine T) (entries : List (SyncOp T)) : Prop where
  replicaId : e'.log.replicaId = e.log.replicaId
  clock : e'.log.clock =
    OpLog.ownClock e.log.replicaId e.log.clock (forgotten e.log entries)
  ops : e'.log.ops = e.log.ops ++ forgotten e.log entries
  seen : e'.log.seen = e.log.seen ∪ (entries.map SyncOp.key).toFinset
  policy : e'.compactionPolicy = e.compactionPolicy
  baseline : e'.compactBaseline = e.compactBaseline
  tombstones : e'.tombstoneCountSinceBaseline = e.tombstoneCountSinceBaseline+
    (forgotten e.log entries).countP (fun o => o.op.isTombstone)

omit [DecidableEq T] in
theorem absorbed_nil {e e' : SyncEngine T} (hlog : e'.log = e.log)
    (hpolicy : e'.compactionPolicy = e.compactionPolicy)
    (hbaseline : e'.compactBaseline = e.compactBaseline)
    (htombstones : e'.tombstoneCountSinceBaseline = e.tombstoneCountSinceBaseline) :
    e.Absorbed e' [] := by
  constructor <;> simp [forgotten, fresh, OpLog.ownClock, hlog, hpolicy, hbaseline, htombstones]

theorem absorbed_extend (e : SyncEngine T) (entries : List (SyncOp T)) (epoch : Nat) :
    e.Absorbed (e.extend { e.log.absorb entries with compactionEpoch := epoch }) entries := by
  constructor <;>
    simp [extend, reflect, OpLog.absorb_eq, forgotten, List.countP_eq_length_filter]

theorem absorbed_recorded (e : SyncEngine T) (env : Env T) {c : Call T} (hc : c.absorbs = true) :
    e.Absorbed (e.recorded env c) c.entries := by
  cases c with
  | merge other => exact absorbed_extend e other.ops _
  | mergeDelta envelope => exact absorbed_extend e envelope.ops _
  | state =>
    exact absorbed_nil (materialise_log e) (materialise_compactionPolicy e)
      (materialise_compactBaseline e) (materialise_tombstoneCount e)
  | _ => simp [Call.absorbs] at hc

theorem recorded_epoch (e : SyncEngine T) (env : Env T) {c : Call T} (hc : c.absorbs = true) :
    (e.recorded env c).log.compactionEpoch = max e.log.compactionEpoch c.epoch := by
  cases c with
  | merge other => rfl
  | mergeDelta envelope => rfl
  | state => simp [recorded, state, Call.epoch]
  | _ => simp [Call.absorbs] at hc

omit [DecidableEq T] in
theorem Absorbed.trans {e e' e'' : SyncEngine T} {as bs : List (SyncOp T)}
    (h : e.Absorbed e' as) (h' : e'.Absorbed e'' bs) : e.Absorbed e'' (as ++ bs) := by
  have hfresh : forgotten e.log (as ++ bs) = forgotten e.log as ++ forgotten e'.log bs := by
    simp only [forgotten, fresh_append, h.seen]
  constructor
  · rw [h'.replicaId, h.replicaId]
  · rw [h'.clock, h.replicaId, h.clock, hfresh, OpLog.ownClock, OpLog.ownClock, OpLog.ownClock,
      List.foldl_append]
  · rw [h'.ops, h.ops, hfresh, List.append_assoc]
  · rw [h'.seen, h.seen, List.map_append, List.toFinset_append, Finset.union_assoc]
  · rw [h'.policy, h.policy]
  · rw [h'.baseline, h.baseline]
  · rw [h'.tombstones, h.tombstones, hfresh, List.countP_append, Nat.add_assoc]

section

variable {e : SyncEngine T} {cs : List (Env T × Call T)}

theorem Quiet.absorbed (h : e.Quiet cs) (hc : ∀ c ∈ cs, c.2.absorbs = true) :
    e.Absorbed (e.calls cs) (offered cs) := by
  induction cs generalizing e with
  | nil => exact absorbed_nil rfl rfl rfl rfl
  | cons c cs ih =>
    have hhead := absorbed_recorded e c.1 (hc c List.mem_cons_self)
    rw [← call_of_quiet h.1] at hhead
    exact hhead.trans (ih h.2 fun d hd => hc d (List.mem_cons_of_mem _ hd))

theorem Quiet.absorbedBy (h : e.Quiet cs) (hc : ∀ c ∈ cs, c.2.absorbs = true) :
    e.absorbedBy cs = (forgotten e.log (offered cs)).length := by
  induction cs generalizing e with
  | nil => rfl
  | cons c cs ih =>
    have htail := ih h.2 fun d hd => hc d (List.mem_cons_of_mem _ hd)
    have hseen := (absorbed_recorded e c.1 (hc c List.mem_cons_self)).seen
    rw [SyncEngine.absorbedBy, htail, call_of_quiet h.1]
    simp [forgotten, offered, fresh_append, hseen]

theorem Quiet.epoch (h : e.Quiet cs) (hc : ∀ c ∈ cs, c.2.absorbs = true) :
    (e.calls cs).log.compactionEpoch =
      cs.foldl (fun epoch c => max epoch c.2.epoch) e.log.compactionEpoch := by
  induction cs generalizing e with
  | nil => rfl
  | cons c cs ih =>
    rw [calls_cons, ih h.2 fun d hd => hc d (List.mem_cons_of_mem _ hd), call_of_quiet h.1,
      recorded_epoch e c.1 (hc c List.mem_cons_self)]
    rfl

theorem Quiet.epoch_of_accepts (h : e.Quiet cs)
    (hc : ∀ c ∈ cs, c.2.absorbs = true) (ha : e.Accepts cs) :
    (e.calls cs).log.compactionEpoch = e.log.compactionEpoch := by
  induction cs generalizing e with
  | nil => rfl
  | cons c cs ih =>
    rw [calls_cons, ih h.2 (fun d hd => hc d (List.mem_cons_of_mem _ hd)) ha.2, call_of_quiet h.1,
      recorded_epoch e c.1 (hc c List.mem_cons_self), Nat.max_eq_left ha.1]

/-- A compaction does not lower the epoch as long as it is a `u64`. -/
theorem le_call_epoch (e : SyncEngine T) (env : Env T) {c : Call T} (hc : c.absorbs = true)
    {epoch : Nat} (hle : epoch ≤ u64Max) (h : epoch ≤ e.log.compactionEpoch) :
    epoch ≤ (e.call env c).log.compactionEpoch := by
  have hrecorded : epoch ≤ (e.recorded env c).log.compactionEpoch := by
    rw [recorded_epoch e env hc]
    exact h.trans (Nat.le_max_left _ _)
  rw [call_log]
  split
  · exact Nat.le_min.mpr ⟨hrecorded.trans (Nat.le_succ _), hle⟩
  · exact hrecorded

theorem accepts_of_le (hc : ∀ c ∈ cs, c.2.absorbs = true)
    (h : ∀ c ∈ cs, c.2.epoch ≤ u64Max ∧ c.2.epoch ≤ e.log.compactionEpoch) : e.Accepts cs := by
  induction cs generalizing e with
  | nil => trivial
  | cons c cs ih =>
    refine ⟨(h c List.mem_cons_self).2, ih (fun d hd => hc d (List.mem_cons_of_mem _ hd)) ?_⟩
    intro d hd
    obtain ⟨hle, hd⟩ := h d (List.mem_cons_of_mem _ hd)
    exact ⟨hle, le_call_epoch e c.1 (hc c List.mem_cons_self) hle hd⟩

end

end SyncEngine

/-! ## Two orders of the same ops -/

/-- The same ops by id, in some order, under the same dedup index. -/
structure SameOps {T : Type} (log log' : OpLog T) : Prop where
  ids : (log.ops.map SyncOp.key).Perm (log'.ops.map SyncOp.key)
  seen : log.seen = log'.seen

/-- Ops of one id are one op. -/
def Agreeing {T : Type} (ops : List (SyncOp T)) : Prop :=
  ∀ a ∈ ops, ∀ b ∈ ops, a.key = b.key → a = b

theorem OpLog.stamp_keys {T : Type} (replicaId : Uuid) (now now' : Nat → Int) {clock : Nat}
    {kinds kinds' : List (SyncOpKind T)} (h : kinds.length = kinds'.length) :
    (stamp replicaId now clock kinds).map key =
      (stamp replicaId now' clock kinds').map key := by
  induction kinds generalizing clock kinds' with
  | nil => rw [List.length_eq_zero_iff.mp h.symm]; rfl
  | cons kind kinds ih =>
    obtain ⟨kind', kinds', rfl⟩ := List.exists_cons_of_length_eq_add_one h.symm
    exact congrArg₂ List.cons rfl (ih (by simpa using h))

theorem OpLog.ownClock_perm {T : Type} {replicaId : Uuid} {clock : Nat} {as bs : List (SyncOp T)}
    (h : as.Perm bs) : ownClock replicaId clock as = ownClock replicaId clock bs := by
  refine h.foldl_eq' (fun a _ b _ clock => ?_) clock
  split <;> split <;> omega

namespace SyncEngine
variable {T : Type} [DecidableEq T]

/-- Engines whose logs hold the same ops up to their order and, for what a compaction has
stamped, up to its clock readings and which of its ids it gave to which survivor. -/
structure Alike (e d : SyncEngine T) : Prop extends SameOps e.log d.log where
  kinds : (e.log.ops.map SyncOp.op).Perm (d.log.ops.map SyncOp.op)
  foreign : ∀ o : SyncOp T, o.replicaId ≠ e.log.replicaId → (o ∈ e.log.ops ↔ o ∈ d.log.ops)
  replicaId : e.log.replicaId = d.log.replicaId
  clock : e.log.clock = d.log.clock
  epoch : e.log.compactionEpoch = d.log.compactionEpoch
  policy : e.compactionPolicy = d.compactionPolicy
  baseline : e.compactBaseline = d.compactBaseline
  tombstones : e.tombstoneCountSinceBaseline = d.tombstoneCountSinceBaseline

omit [DecidableEq T] in
theorem Alike.refl (e : SyncEngine T) : e.Alike e :=
  ⟨⟨.refl _, rfl⟩, .refl _, fun _ _ => .rfl, rfl, rfl, rfl, rfl, rfl, rfl⟩

omit [DecidableEq T] in
theorem Alike.trans {e d f : SyncEngine T} (h : e.Alike d) (h' : d.Alike f) : e.Alike f :=
  ⟨⟨h.ids.trans h'.ids, h.seen.trans h'.seen⟩, h.kinds.trans h'.kinds,
    fun o ho => (h.foreign o ho).trans (h'.foreign o (h.replicaId ▸ ho)), h.replicaId.trans h'.replicaId, h.clock.trans h'.clock, h.epoch.trans h'.epoch,
    h.policy.trans h'.policy, h.baseline.trans h'.baseline, h.tombstones.trans h'.tombstones⟩

section

variable {e d e' d' : SyncEngine T} {as bs : List (SyncOp T)} {cs ds : List (Env T × Call T)}

omit [DecidableEq T] in
theorem Alike.absorbed (h : e.Alike d) (he : e.Absorbed e' as) (hd : d.Absorbed d' bs)
    (hperm : (forgotten e.log as).Perm (forgotten d.log bs)) (hseen : e'.log.seen = d'.log.seen)
    (hepoch : e'.log.compactionEpoch = d'.log.compactionEpoch) : e'.Alike d' where
  ids := by
    rw [he.ops, hd.ops, List.map_append, List.map_append]
    exact h.ids.append (hperm.map _)
  seen := hseen
  kinds := by
    rw [he.ops, hd.ops, List.map_append, List.map_append]
    exact h.kinds.append (hperm.map _)
  foreign := by
    intro o ho
    rw [he.replicaId] at ho
    rw [he.ops, hd.ops, List.mem_append, List.mem_append, h.foreign o ho, hperm.mem_iff]
  replicaId := by rw [he.replicaId, hd.replicaId, h.replicaId]
  clock := by rw [he.clock, hd.clock, h.replicaId, h.clock, OpLog.ownClock_perm hperm]
  epoch := hepoch
  policy := by rw [he.policy, hd.policy, h.policy]
  baseline := by rw [he.baseline, hd.baseline, h.baseline]
  tombstones := by rw [he.tombstones, hd.tombstones, h.tombstones, hperm.countP_eq]

theorem Alike.recorded (h : e.Alike d) (env env' : Env T) {c : Call T} (hc : c.absorbs = true) :
    (e.recorded env c).Alike (d.recorded env' c) := by
  have he := absorbed_recorded e env hc
  have hd := absorbed_recorded d env' hc
  refine h.absorbed he hd ?_ (by rw [he.seen, hd.seen, h.seen]) ?_
  · simp only [forgotten, h.seen]
    exact .refl _
  · rw [recorded_epoch e env hc, recorded_epoch d env' hc, h.epoch]

omit [DecidableEq T] in
theorem Alike.length_eq (h : e.Alike d) : e.log.ops.length = d.log.ops.length := by
  simpa using h.ids.length_eq

omit [DecidableEq T] in
theorem Alike.shouldCompact (h : e.Alike d) : e.shouldCompact = d.shouldCompact := by
  simp only [SyncEngine.shouldCompact, h.length_eq, h.policy, h.baseline, h.tombstones]

theorem Alike.compacts (h : e.Alike d) (env env' : Env T) {c : Call T} (hc : c.absorbs = true) :
    e.compacts env c = d.compacts env' c := by
  have hrecorded := (h.recorded env env' hc).shouldCompact
  cases c with
  | merge other => exact hrecorded
  | mergeDelta envelope => exact hrecorded
  | state => rfl
  | _ => simp [Call.absorbs] at hc

/-- The survivors are the same and so is their number, so the new ids are the same. -/
theorem Alike.compact (h : e.Alike d) (env env' : Env T) :
    (e.compact env).1.Alike (d.compact env').1 := by
  have hsurvivors := OpLog.survivors_perm env env' h.kinds
  have hlength := hsurvivors.length_eq
  have hkeys : (e.log.compact env).1.ops.map key =
      (d.log.compact env').1.ops.map key := by
    simp only [OpLog.compact, h.replicaId, h.clock]
    exact OpLog.stamp_keys _ _ _ hlength
  refine ⟨⟨?_, ?_⟩, ?_, ?_, ?_, ?_, ?_, ?_, ?_, rfl⟩
  · rw [compact_log, compact_log, hkeys]
  · rw [compact_log, compact_log, OpLog.indexed_compact e.log env, OpLog.indexed_compact d.log env',
      hkeys]
  · rw [compact_log, compact_log, OpLog.compact_ops_kinds, OpLog.compact_ops_kinds]
    exact hsurvivors
  · intro o ho
    rw [compact_log] at ho
    rw [compact_log, compact_log]
    refine iff_of_false (fun hm => ho (OpLog.stamp_replicaId hm)) fun hm => ho ?_
    exact (OpLog.stamp_replicaId hm).trans h.replicaId.symm
  · simp [OpLog.compact, h.replicaId]
  · simp [OpLog.compact, h.clock, hlength]
  · simp [OpLog.compact, h.epoch]
  · simp [h.policy]
  · simp [SyncEngine.compact, invalidateCache, OpLog.compact, hlength]

theorem Alike.call (h : e.Alike d) (env env' : Env T) {c : Call T} (hc : c.absorbs = true) :
    (e.call env c).Alike (d.call env' c) := by
  rw [call_eq, call_eq, h.compacts env env' hc]
  split
  · exact (h.recorded env env' hc).compact env env'
  · exact h.recorded env env' hc

theorem Alike.calls (h : e.Alike d) (hc : ∀ c ∈ cs, c.2.absorbs = true)
    (hsame : ds.map Prod.snd = cs.map Prod.snd) : (e.calls cs).Alike (d.calls ds) := by
  induction cs generalizing e d ds with
  | nil =>
    obtain rfl := List.map_eq_nil_iff.mp hsame
    exact h
  | cons c cs ih =>
    obtain ⟨c', ds, rfl, hhead, htail⟩ := List.map_eq_cons_iff.mp hsame
    rw [calls_cons, calls_cons, hhead]
    exact ih (h.call c.1 c'.1 (hc c List.mem_cons_self))
      (fun b hb => hc b (List.mem_cons_of_mem _ hb)) htail

omit [DecidableEq T] in
/-- Where one id is one op, what got in depends on which ops were offered, not on their order. -/
theorem Alike.of_absorbed (ha : e.Absorbed e' as) (hb : e.Absorbed d' bs)
    (hmem : ∀ o, o ∈ as ↔ o ∈ bs) (hagree : Agreeing bs)
    (hepoch : e'.log.compactionEpoch = d'.log.compactionEpoch) : e'.Alike d' := by
  have hagree' : Agreeing as := fun a ha b hb =>
    hagree a ((hmem a).mp ha) b ((hmem b).mp hb)
  refine (Alike.refl e).absorbed ha hb ?_ ?_ hepoch
  · refine (List.perm_ext_iff_of_nodup (nodup_keys_fresh _ _ _).of_map
      (nodup_keys_fresh _ _ _).of_map).mpr fun o => ?_
    rw [mem_fresh_iff hagree', mem_fresh_iff hagree, hmem]
  · rw [ha.seen, hb.seen]
    ext k
    simp only [Finset.mem_union, List.mem_toFinset, List.mem_map, hmem]

omit [DecidableEq T] in
theorem sameOps_of_absorbed (ha : e.Absorbed e' as) (hb : e.Absorbed d' bs)
    (hmem : ∀ o, o ∈ as ↔ o ∈ bs) : SameOps e'.log d'.log := by
  have hkeys : ∀ k, k ∈ as.map key ↔ k ∈ bs.map key := by
    intro k
    simp only [List.mem_map, hmem]
  constructor
  · rw [ha.ops, hb.ops, List.map_append, List.map_append]
    exact (fresh_keys_perm hkeys).append_left _
  · rw [ha.seen, hb.seen]
    ext k
    simp only [Finset.mem_union, List.mem_toFinset, hkeys]

end

/-! ## A prefix offered twice -/

/-- When `applied` may run ahead of `cs` and of `page`, which opens with `again` and offers the
ops of `applied` once more: it takes in nothing, or what it takes in stays listed until `again`
has offered it, or for good. -/
inductive Remembers (e : SyncEngine T) (applied cs again page : List (Env T × Call T)) : Prop
  | nothingNew (quiet : e.Quiet applied) (known : ∀ o ∈ offered applied, o.key ∈ e.log.seen)
  | reoffered (agreeing : Agreeing (offered (cs ++ again)))
    (retry : e.Quiet (applied ++ cs ++ again)) (direct : e.Quiet (cs ++ again))
  | never (retry : e.Quiet (applied ++ cs ++ page)) (direct : e.Quiet (cs ++ page))

section

variable {e : SyncEngine T} {applied cs again rest page : List (Env T × Call T)}

omit [DecidableEq T] in
theorem mem_offered_again (hmem : ∀ o ∈ offered applied, o ∈ offered again) (o : SyncOp T) :
    o ∈ offered (applied ++ cs ++ again) ↔ o ∈ offered (cs ++ again) := by
  have hback := hmem o
  simp only [offered, List.flatMap_append, List.mem_append] at hback ⊢
  tauto

theorem alike_of_known (hquiet : e.Quiet applied) (hc : ∀ c ∈ applied, c.2.absorbs = true)
    (hknown : ∀ o ∈ offered applied, o.key ∈ e.log.seen) (ha : e.Accepts applied) :
    (e.calls applied).Alike e := by
  have habsorbed := hquiet.absorbed hc
  have hnone : forgotten e.log (offered applied) = [] := by
    refine List.eq_nil_iff_forall_not_mem.mpr fun o ho => ?_
    exact key_notMem_of_mem_fresh ho (hknown o (mem_of_mem_fresh ho))
  have hseen : (e.calls applied).log.seen = e.log.seen := by
    rw [habsorbed.seen]
    refine Finset.union_eq_left.mpr fun k hk => ?_
    obtain ⟨o, ho, rfl⟩ := List.mem_map.mp (List.mem_toFinset.mp hk)
    exact hknown o ho
  refine (Alike.refl e).absorbed habsorbed (absorbed_nil rfl rfl rfl rfl) ?_ hseen
    (hquiet.epoch_of_accepts hc ha)
  rw [hnone]
  exact .refl _

/-- `applied` raises no epoch, so the run after it ends at the epoch it ends at without it. -/
theorem epoch_again {ds : List (Env T × Call T)} (ha : e.Accepts applied)
    (happlied : ∀ c ∈ applied, c.2.absorbs = true) (hds : ∀ c ∈ ds, c.2.absorbs = true)
    (hretry : e.Quiet (applied ++ ds)) (hdirect : e.Quiet ds) :
    (e.calls (applied ++ ds)).log.compactionEpoch = (e.calls ds).log.compactionEpoch := by
  obtain ⟨hquiet, hafter⟩ := (quiet_append e applied ds).mp hretry
  rw [calls_append, hafter.epoch hds, hdirect.epoch hds, hquiet.epoch_of_accepts happlied ha]

theorem Remembers.epoch (h : e.Remembers applied cs again page) (ha : e.Accepts applied)
    (happlied : ∀ c ∈ applied, c.2.absorbs = true) (hcs : ∀ c ∈ cs, c.2.absorbs = true) :
    (e.calls (applied ++ cs)).log.compactionEpoch = (e.calls cs).log.compactionEpoch := by
  cases h with
  | nothingNew quiet known =>
    rw [calls_append]
    exact ((alike_of_known quiet happlied known ha).calls hcs rfl).epoch
  | reoffered _ retry direct =>
    exact epoch_again ha happlied hcs ((quiet_append _ _ _).mp retry).1
      ((quiet_append _ _ _).mp direct).1
  | never retry direct =>
    exact epoch_again ha happlied hcs ((quiet_append _ _ _).mp retry).1
      ((quiet_append _ _ _).mp direct).1

/-- With no compaction up to there, both runs have absorbed the same ops. -/
theorem alike_of_quiet {ds : List (Env T × Call T)} (ha : e.Accepts applied)
    (happlied : ∀ c ∈ applied, c.2.absorbs = true) (hds : ∀ c ∈ cs ++ ds, c.2.absorbs = true)
    (hmem : ∀ o ∈ offered applied, o ∈ offered ds)
    (hretry : e.Quiet (applied ++ cs ++ ds)) (hdirect : e.Quiet (cs ++ ds)) :
    SameOps (e.calls (applied ++ cs ++ ds)).log (e.calls (cs ++ ds)).log ∧
      (Agreeing (offered (cs ++ ds)) →
        (e.calls (applied ++ cs ++ ds)).Alike (e.calls (cs ++ ds))) := by
  have hall : ∀ c ∈ applied ++ cs ++ ds, c.2.absorbs = true := by
    rw [List.append_assoc]
    exact fun c hc => (List.mem_append.mp hc).elim (happlied c) (hds c)
  have hr := hretry.absorbed hall
  have hd := hdirect.absorbed hds
  refine ⟨sameOps_of_absorbed hr hd (mem_offered_again hmem), fun hagree =>
    .of_absorbed hr hd (mem_offered_again hmem) hagree ?_⟩
  rw [List.append_assoc] at hretry ⊢
  exact epoch_again ha happlied hds hretry hdirect

/-- The compactions that run later find the two engines alike, and leave them so. -/
theorem Remembers.alike (h : e.Remembers applied cs again (again ++ rest)) (ha : e.Accepts applied)
    (happlied : ∀ c ∈ applied, c.2.absorbs = true)
    (hds : ∀ c ∈ cs ++ (again ++ rest), c.2.absorbs = true)
    (hmem : ∀ o ∈ offered applied, o ∈ offered again) :
    SameOps (e.calls (applied ++ cs ++ (again ++ rest))).log (e.calls (cs ++ (again ++ rest))).log ∧
      (Agreeing (offered (cs ++ (again ++ rest))) →
        (e.calls (applied ++ cs ++ (again ++ rest))).Alike (e.calls (cs ++ (again ++ rest)))) := by
  cases h with
  | nothingNew quiet known =>
    rw [List.append_assoc, calls_append]
    have halike := (alike_of_known quiet happlied known ha).calls hds rfl
    exact ⟨halike.toSameOps, fun _ => halike⟩
  | reoffered agreeing retry direct =>
    rw [← List.append_assoc] at hds
    rw [← List.append_assoc, ← List.append_assoc, calls_append, calls_append _ _ rest]
    have halike := ((alike_of_quiet ha happlied (fun c hc => hds c (List.mem_append_left _ hc)) hmem
      retry direct).2 agreeing).calls (fun c hc => hds c (List.mem_append_right _ hc)) rfl
    exact ⟨halike.toSameOps, fun _ => halike⟩
  | never retry direct =>
    refine alike_of_quiet ha happlied hds (fun o ho => ?_) retry direct
    rw [offered, List.flatMap_append]
    exact List.mem_append_left _ (hmem o ho)

/-! ## What a compaction forgets -/

theorem replicaId_of_compacts {env : Env T} {c : Call T} (hcompacts : e.compacts env c = true)
    {k : Uuid × Nat} (hk : k ∈ (e.call env c).log.seen) : k.1 = e.log.replicaId := by
  rw [← call_log_replicaId e env c]
  rw [call_log, if_pos hcompacts] at hk ⊢
  obtain ⟨o, ho, rfl⟩ := List.mem_map.mp (List.mem_toFinset.mp hk)
  exact OpLog.stamp_replicaId ho

theorem calls_log_replicaId (e : SyncEngine T) :
    (e.calls cs).log.replicaId = e.log.replicaId := by
  induction cs generalizing e with
  | nil => rfl
  | cons c cs ih => rw [calls_cons, ih, call_log_replicaId]

theorem mem_seen_calls (hcs : ∀ c ∈ cs, c.2.absorbs = true) {k : Uuid × Nat}
    (hk : k ∈ (e.calls cs).log.seen) (hforeign : k.1 ≠ e.log.replicaId) :
    k ∈ e.log.seen ∨ k ∈ (offered cs).map key := by
  induction cs generalizing e with
  | nil => exact .inl hk
  | cons c cs ih =>
    have hc := hcs c List.mem_cons_self
    rw [calls_cons] at hk
    have hafter := ih (fun d hd => hcs d (List.mem_cons_of_mem _ hd)) hk
      (by rwa [call_log_replicaId])
    rw [offered, List.flatMap_cons, List.map_append, List.mem_append]
    refine hafter.elim (fun hseen => ?_) fun hlater => .inr (.inr hlater)
    cases hcompacts : e.compacts c.1 c.2 with
    | true => exact absurd (replicaId_of_compacts hcompacts hseen) hforeign
    | false =>
      rw [call_of_quiet hcompacts, (absorbed_recorded e c.1 hc).seen] at hseen
      exact (Finset.mem_union.mp hseen).imp id fun hnew => .inl (List.mem_toFinset.mp hnew)

/-- A foreign op that no call has offered since a compaction gets in, whether it was in the log
before or not. -/
theorem taken_after_compaction {c : Env T × Call T} (hcompacts : e.compacts c.1 c.2 = true)
    (hcs : ∀ d ∈ cs, d.2.absorbs = true) {ops : List (SyncOp T)} {o : SyncOp T} (ho : o ∈ ops)
    (hforeign : o.replicaId ≠ e.log.replicaId) (hsince : o.key ∉ (offered cs).map key) :
    o.key ∈ (forgotten (e.calls (c :: cs)).log ops).map key := by
  refine mem_keys_fresh.mpr ⟨List.mem_map_of_mem ho, fun hseen => ?_⟩
  rw [calls_cons] at hseen
  rcases mem_seen_calls hcs hseen (by rwa [call_log_replicaId]) with hseen | hlater
  · exact hforeign (replicaId_of_compacts hcompacts hseen)
  · exact hsince hlater

end

end SyncEngine

end Knowledge.Sync
