import Mathlib.Data.Nat.Digits.Lemmas
import Mathlib.Logic.Equiv.List
import Mathlib.Tactic.DeriveEncodable
import Knowledge.Sync.Persist

/-!
The database mirrors the engine: what each operation keeps, and what reopening yields.
-/

set_option autoImplicit false

namespace Knowledge.Sync
open Knowledge.Machine Knowledge.Dedup Knowledge.Transition
open SyncEngine SyncOp

namespace Vault

structure RowFor {T : Type} (v : Vault T) (row : Row) (op : SyncOp T) : Prop where
  replicaId : row.replicaId = op.replicaId
  seq : row.seq = op.seq
  createdAt : row.createdAt = op.createdAt / 1000000000
  opKind : row.opKind = opKindTag op.op
  payload : v.openRow (row, op.seq) = .ok op

structure Storable {T : Type} (v : Vault T) (log : OpLog T) : Prop where
  clock : log.clock ≤ i64Max
  compactionEpoch : log.compactionEpoch ≤ i64Max
  ops : ∀ o ∈ log.ops, ∀ nonce, ∃ row, v.opRow nonce o = .ok row

/-- The rows are the ops of the log, one row for each, and the meta row, which reads as
zeros when it is missing, holds its clock and epoch. -/
structure Mirrors {T : Type} (v : Vault T) (db : Database) (log : OpLog T) : Prop where
  rows : ∃ ops, ops.Perm log.ops ∧ List.Forall₂ v.RowFor db.syncOps ops
  clock : ((db.syncMeta.map MetaRow.clock).getD 0) = log.clock
  compactionEpoch : ((db.syncMeta.map MetaRow.compactionEpoch).getD 0) = log.compactionEpoch

theorem opRow_rowFor {T : Type} {v : Vault T} {nonce : AeadNonce} {op : SyncOp T} {row : Row}
    (h : v.opRow nonce op = .ok row) : v.RowFor row op := by
  unfold opRow at h
  split at h
  · simp at h
  · rename_i payload hp
    split at h
    · simp at h
    · rename_i ct hc
      split at h
      · simp at h
      · obtain rfl := Except.ok.inj h
        refine ⟨rfl, rfl, rfl, rfl, ?_⟩
        simp [openRow, v.aead.decrypt_encrypt _ _ _ _ _ hc, v.json.fromSlice_toVec _ _ hp]

theorem upsertRow_of_absent {rows : List Row} {row : Row}
    (h : ∀ r ∈ rows, ¬ (r.replicaId = row.replicaId ∧ r.seq = row.seq)) :
    upsertRow rows row = rows ++ [row] := by
  unfold upsertRow
  rw [if_neg]
  simpa using h

section

variable {T : Type} {v : Vault T}

theorem exists_rowFor {rows : List Row} {ops : List (SyncOp T)}
    (h : List.Forall₂ v.RowFor rows ops) {row : Row} (hr : row ∈ rows) :
    ∃ o ∈ ops, v.RowFor row o := by
  induction h with
  | nil => simp at hr
  | cons hfor _ ih =>
    rcases List.mem_cons.mp hr with rfl | hr
    · exact ⟨_, List.mem_cons_self, hfor⟩
    · obtain ⟨o, ho, hro⟩ := ih hr
      exact ⟨o, List.mem_cons_of_mem _ ho, hro⟩

theorem exists_row {rows : List Row} {ops : List (SyncOp T)}
    (h : List.Forall₂ v.RowFor rows ops) {o : SyncOp T} (ho : o ∈ ops) :
    ∃ row ∈ rows, v.RowFor row o := by
  induction h with
  | nil => simp at ho
  | cons hfor _ ih =>
    rcases List.mem_cons.mp ho with rfl | ho
    · exact ⟨_, List.mem_cons_self, hfor⟩
    · obtain ⟨row, hr, hro⟩ := ih ho
      exact ⟨row, List.mem_cons_of_mem _ hr, hro⟩

theorem insertOpRows_ok (nonces : Uuid × Nat → AeadNonce)
    {rows : List Row} {held ops : List (SyncOp T)} (hheld : List.Forall₂ v.RowFor rows held)
    (hn : ((held ++ ops).map key).Nodup)
    (hops : ∀ o ∈ ops, ∀ nonce, ∃ row, v.opRow nonce o = .ok row) :
    ∃ written, v.insertOpRows nonces rows ops = .ok written ∧
      List.Forall₂ v.RowFor written (held ++ ops) := by
  induction ops generalizing rows held with
  | nil => exact ⟨rows, rfl, by simpa using hheld⟩
  | cons op ops ih =>
    obtain ⟨row, hrow⟩ := hops op List.mem_cons_self (nonces op.key)
    have hfor := opRow_rowFor hrow
    have habsent : ∀ r ∈ rows, ¬ (r.replicaId = row.replicaId ∧ r.seq = row.seq) := by
      rintro r hr ⟨hid, hseq⟩
      obtain ⟨o, ho, hro⟩ := exists_rowFor hheld hr
      have hkey : o.key = op.key := by
        have hs := hro.seq.symm.trans (hseq.trans hfor.seq)
        exact Prod.ext (hro.replicaId.symm.trans (hid.trans hfor.replicaId)) (by exact_mod_cast hs)
      rw [List.map_append, List.nodup_append] at hn
      exact hn.2.2 o.key (List.mem_map_of_mem ho) op.key (by simp) hkey
    have hnext : List.Forall₂ v.RowFor (rows ++ [row]) (held ++ [op]) :=
      List.rel_append hheld (.cons hfor .nil)
    obtain ⟨written, hw, hall⟩ := ih hnext (by simpa using hn)
      (fun o ho => hops o (List.mem_cons_of_mem _ ho))
    refine ⟨written, ?_, by simpa using hall⟩
    rw [insertOpRows, hrow]
    dsimp only
    rw [upsertRow_of_absent habsent, hw]

theorem metaRow_ok {e : SyncEngine T} (h : v.Storable e.log) :
    metaRow e = .ok ⟨e.replicaId, e.log.clock, e.log.compactionEpoch⟩ := by
  have hc := h.clock
  have he := h.compactionEpoch
  rw [metaRow, if_neg (by omega), if_neg (by omega)]

theorem transaction_rows (nonces : Uuid × Nat → AeadNonce)
    {e : SyncEngine T} {rows : List Row} {held ops : List (SyncOp T)}
    (hheld : List.Forall₂ v.RowFor rows held) (hn : ((held ++ ops).map key).Nodup)
    (hops : ∀ o ∈ ops, o ∈ e.log.ops) (hs : v.Storable e.log) :
    ∃ written, List.Forall₂ v.RowFor written (held ++ ops) ∧
      v.transaction nonces e rows ops =
        .ok ⟨written, some ⟨e.replicaId, e.log.clock, e.log.compactionEpoch⟩⟩ := by
  obtain ⟨written, hw, hall⟩ := insertOpRows_ok nonces hheld hn (fun o ho => hs.ops o (hops o ho))
  refine ⟨written, hall, ?_⟩
  rw [transaction, hw]
  dsimp only
  rw [metaRow_ok hs]

theorem transaction_ok (nonces : Uuid × Nat → AeadNonce)
    {e : SyncEngine T} {rows : List Row} {held ops : List (SyncOp T)}
    (hheld : List.Forall₂ v.RowFor rows held) (hperm : (held ++ ops).Perm e.log.ops)
    (hn : (e.log.ops.map key).Nodup) (hs : v.Storable e.log) :
    ∃ db, v.transaction nonces e rows ops = .ok db ∧ v.Mirrors db e.log := by
  obtain ⟨written, hall, hw⟩ := transaction_rows nonces hheld
    ((hperm.map key).nodup_iff.mpr hn)
    (fun o ho => hperm.mem_iff.mp (List.mem_append_right _ ho)) hs
  exact ⟨_, hw, ⟨held ++ ops, hperm, hall⟩, rfl, rfl⟩

end

/-! ## Reopening -/

section

variable {T : Type} {v : Vault T}

theorem rawRow_ok {row : Row} {op : SyncOp T} (h : v.RowFor row op) :
    rawRow row = .ok (row, op.seq) := by
  have hs := h.seq
  rw [rawRow, if_neg (by omega), hs]
  rfl

section

variable {rows : List Row} {ops : List (SyncOp T)}

theorem rawRows_ok (h : List.Forall₂ v.RowFor rows ops) :
    rows.mapM rawRow = .ok (List.zipWith (fun r o => (r, seq o)) rows ops) := by
  induction h with
  | nil => rfl
  | cons hfor _ ih =>
    simp only [List.mapM_cons, rawRow_ok hfor, ih, List.zipWith_cons_cons]
    rfl

theorem openRows_ok (h : List.Forall₂ v.RowFor rows ops) :
    (List.zipWith (fun r o => (r, seq o)) rows ops).mapM v.openRow = .ok ops := by
  induction h with
  | nil => rfl
  | cons hfor _ ih =>
    simp only [List.zipWith_cons_cons, List.mapM_cons, hfor.payload, ih]
    rfl

theorem readOps_ok (h : List.Forall₂ v.RowFor rows ops) : v.readOps rows = .ok ops := by
  rw [readOps, rawRows_ok h]
  exact openRows_ok h

end

theorem restoreMeta_eq {db : Database} {log rebuilt : OpLog T}
    (hm : v.Mirrors db log) (hclock : rebuilt.clock ≤ log.clock)
    (hepoch : rebuilt.compactionEpoch = 0) :
    restoreMeta rebuilt db.syncMeta =
      { rebuilt with clock := log.clock, compactionEpoch := log.compactionEpoch } := by
  have hc := hm.clock
  have he := hm.compactionEpoch
  cases hmeta : db.syncMeta with
  | none =>
    simp only [hmeta, Option.map_none, Option.getD_none] at hc he
    have hc' : rebuilt.clock = log.clock := by omega
    have he' : rebuilt.compactionEpoch = log.compactionEpoch := by omega
    rw [restoreMeta, ← hc', ← he']
  | some m =>
    simp only [hmeta, Option.map_some, Option.getD_some] at hc he
    have hc' : max rebuilt.clock m.clock.toNat = log.clock := by omega
    have he' : max rebuilt.compactionEpoch m.compactionEpoch.toNat = log.compactionEpoch := by
      omega
    simp only [restoreMeta, hc', he']

theorem load_ok {db : Database} {log : OpLog T} (hm : v.Mirrors db log) (ht : log.Tidy) :
    ∃ loaded : OpLog T,
      v.load log.replicaId db = .ok (fromLog log.replicaId loaded) ∧
      loaded.Tidy ∧ loaded.ops.Perm log.ops ∧ loaded.clock = log.clock ∧
      loaded.compactionEpoch = log.compactionEpoch ∧ loaded.replicaId = log.replicaId := by
  obtain ⟨held, hperm, hheld⟩ := hm.rows
  obtain ⟨ops, hops, hsort⟩ := List.perm_comp_forall₂ (List.mergeSort_perm db.syncOps rowLe) hheld
  have hall : ops.Perm log.ops := hsort.trans hperm
  have hnodup : (ops.map key).Nodup := (hall.map key).nodup_iff.mpr ht.nodup
  have hfresh : fresh key (OpLog.new log.replicaId : OpLog T).seen ops = ops :=
    fresh_eq_self hnodup (fun _ _ => Finset.notMem_empty _)
  have habs := OpLog.absorb_eq (OpLog.new log.replicaId) ops
  rw [hfresh] at habs
  have hkept : ((OpLog.new log.replicaId).absorb ops).ops = ops := by
    rw [habs]
    rfl
  have hseen : ((OpLog.new log.replicaId).absorb ops).seen = (ops.map key).toFinset := by
    rw [habs]
    exact Finset.empty_union _
  have hclock : ((OpLog.new log.replicaId).absorb ops).clock ≤ log.clock := by
    rw [OpLog.absorb_clock, hfresh]
    exact OpLog.ownClock_le (Nat.zero_le _) (fun o ho => ht.own o (hall.mem_iff.mp ho))
  refine ⟨{ (OpLog.new log.replicaId).absorb ops with
    clock := log.clock, compactionEpoch := log.compactionEpoch }, ?_, ⟨?_, ?_, ?_⟩, ?_, rfl, rfl,
    OpLog.absorb_replicaId _ _⟩
  · rw [load, readOps_ok hops]
    simp only [bind, Except.bind, pure, Except.pure]
    rw [restoreMeta_eq hm hclock (by rw [habs]; rfl)]
  · simp only [OpLog.Indexed, hseen, hkept]
  · simpa only [hkept] using hnodup
  · intro o ho hr
    simp only [hkept, OpLog.absorb_replicaId] at ho hr
    exact ht.own o (hall.mem_iff.mp ho) hr
  · simpa only [hkept] using hall

end

end Vault

open Knowledge.Sync.Vault

/-! ## The wrapper's runs -/

inductive PersistAction (T : Type) where
  | add (env : Env T) (nonces : Uuid × Nat → AeadNonce) (value : T) (tag : Uuid)
  | remove (env : Env T) (nonces : Uuid × Nat → AeadNonce) (value : T)
  | supersede (env : Env T) (nonces : Uuid × Nat → AeadNonce) (value successor : T)
  | merge (env : Env T) (nonces : Uuid × Nat → AeadNonce) (other : OpLog T)
  | compact (env : Env T) (nonces : Uuid × Nat → AeadNonce)
  | save (nonces : Uuid × Nat → AeadNonce)
  | reopen

def PersistAction.call {T : Type} : PersistAction T → Option (Env T × Call T)
  | .add env _ value tag => some (env, .add value tag)
  | .remove env _ value => some (env, .remove value)
  | .supersede env _ value successor => some (env, .supersede value successor)
  | .merge env _ other => some (env, .merge other)
  | .compact env _ => some (env, .compact)
  | .save _ => none
  | .reopen => none

namespace PersistentSyncEngine

def perform {T : Type} [DecidableEq T] (v : Vault T) (p : PersistentSyncEngine T) :
    PersistAction T → PersistentSyncEngine T × Except SyncError Unit
  | .add env nonces value tag => p.add v nonces env value tag
  | .remove env nonces value => p.remove v nonces env value
  | .supersede env nonces value successor => p.supersede v nonces env value successor
  | .merge env nonces other => p.merge v nonces env other
  | .compact env nonces => p.compact v nonces env
  | .save nonces => p.save v nonces
  | .reopen =>
    match openAt v p.engine.replicaId p.db with
    | .ok p => (p, .ok ())
    | .error err => (p, .error err)

def system {T : Type} [DecidableEq T] (v : Vault T) :
    System (PersistentSyncEngine T) (PersistAction T) :=
  .ofNext (fun p => ∃ replicaId, openAt v replicaId ⟨[], none⟩ = .ok p) (fun _ _ => True)
    (fun p a => (p.perform v a).1)

/-- An operation other than `compact` makes the engine compact a log that was not empty,
and what survives is at least as long as the log was before the operation. -/
def Regrows {T : Type} [DecidableEq T] (e : SyncEngine T) (env : Env T) (c : Call T) : Prop :=
  c ≠ .compact ∧ e.compacts env c = true ∧ 0 < e.log.ops.length ∧
    e.log.ops.length ≤ ((e.recorded env c).log.survivors env).length

/-- The numbers fit the signed columns, the ops can be written, and no compaction inside
the operation goes unnoticed. -/
def Noticed {T : Type} [DecidableEq T] (v : Vault T) (p : PersistentSyncEngine T)
    (a : PersistAction T) : Prop :=
  ∀ env c, a.call = some (env, c) →
    v.Storable (p.engine.call env c).log ∧ ¬ Regrows p.engine env c

structure Durable {T : Type} [DecidableEq T] (v : Vault T) (p : PersistentSyncEngine T) :
    Prop where
  coherent : p.engine.Coherent
  tidy : p.engine.log.Tidy
  storable : v.Storable p.engine.log
  mirrors : v.Mirrors p.db p.engine.log
  persistedLen : p.persistedLen = p.engine.log.ops.length
  policy : p.engine.compactionPolicy = .default
  replicaId : p.engine.replicaId = p.engine.log.replicaId

theorem rewriteAll_ok {T : Type} {v : Vault T} (nonces : Uuid × Nat → AeadNonce)
    {p : PersistentSyncEngine T} (ht : p.engine.log.Tidy) (hs : v.Storable p.engine.log) :
    ∃ db, p.rewriteAll v nonces =
        ({ p with db := db, persistedLen := p.engine.log.ops.length }, .ok ()) ∧
      v.Mirrors db p.engine.log := by
  obtain ⟨db, hdb, hm⟩ := transaction_ok nonces (.nil : List.Forall₂ v.RowFor [] [])
    (List.Perm.refl _) ht.nodup hs
  exact ⟨db, by rw [rewriteAll, hdb]; rfl, hm⟩

theorem flushAppended_ok {T : Type} {v : Vault T} (nonces : Uuid × Nat → AeadNonce)
    {p : PersistentSyncEngine T} {old : OpLog T} (hm : v.Mirrors p.db old)
    (hlen : p.persistedLen = old.ops.length) (ht : p.engine.log.Tidy) (hs : v.Storable p.engine.log)
    (hcase : (∃ suffix, p.engine.log.ops = old.ops ++ suffix) ∨
      p.engine.log.ops.length < old.ops.length) :
    ∃ db, p.flushAppended v nonces =
        ({ p with db := db, persistedLen := p.engine.log.ops.length }, .ok ()) ∧
      v.Mirrors db p.engine.log := by
  unfold flushAppended
  rcases hcase with ⟨suffix, hsuffix⟩ | hshort
  · obtain ⟨held, hperm, hheld⟩ := hm.rows
    have hall : (held ++ suffix).Perm p.engine.log.ops := by
      rw [hsuffix]
      exact hperm.append_right suffix
    obtain ⟨db, hdb, hm'⟩ := transaction_ok nonces hheld hall ht.nodup hs
    have hdrop : p.engine.log.ops.drop p.persistedLen = suffix := by
      rw [hlen, hsuffix, List.drop_left]
    have hge : ¬ p.engine.log.ops.length < p.persistedLen := by
      rw [hlen, hsuffix, List.length_append]
      omega
    exact ⟨db, by rw [if_neg hge, hdrop, hdb]; rfl, hm'⟩
  · rw [if_pos (hlen ▸ hshort)]
    exact rewriteAll_ok nonces ht hs

theorem extends_or_shrinks {T : Type} [DecidableEq T] {e : SyncEngine T} {env : Env T}
    {c : Call T} (hc : c ≠ .compact) (hr : ¬ Regrows e env c) :
    (∃ suffix, (e.call env c).log.ops = e.log.ops ++ suffix) ∨
      (e.call env c).log.ops.length < e.log.ops.length := by
  rw [call_log]
  by_cases hf : e.compacts env c = true
  · rw [if_pos hf]
    have hlen : ((e.recorded env c).log.compact env).1.ops.length =
        ((e.recorded env c).log.survivors env).length := OpLog.stamp_length _ _ _ _
    by_cases hpos : 0 < e.log.ops.length
    · right
      rw [hlen]
      by_contra hge
      exact hr ⟨hc, hf, hpos, by omega⟩
    · left
      have hnil : e.log.ops = [] := List.length_eq_zero_iff.mp (by omega)
      exact ⟨_, by rw [hnil]; rfl⟩
  · rw [if_neg hf]
    left
    have hg := recorded_grows e env c
    revert hg
    generalize (e.recorded env c).log = log'
    intro hg
    cases hg with
    | same => exact ⟨[], (List.append_nil _).symm⟩
    | append op => exact ⟨_, rfl⟩
    | absorb epoch => exact ⟨_, OpLog.absorb_ops _ _⟩

theorem shouldCompact_default {T : Type} {e : SyncEngine T}
    (hp : e.compactionPolicy = .default) (hl : e.log.ops.length ≤ minAdaptiveGrowth) :
    e.shouldCompact = false := by
  simp only [shouldCompact, hp, CompactionPolicy.default]
  rw [if_pos (by omega)]

/-- What the early return of `remove` and `supersede` rests on: a log that kept its length
is the same log. -/
theorem call_log_of_same_length {T : Type} [DecidableEq T] {e : SyncEngine T} {env : Env T}
    {c : Call T} (hc : (∃ value, c = .remove value) ∨ ∃ value successor, c = .supersede value successor)
    (hp : e.compactionPolicy = .default) (hr : ¬ Regrows e env c)
    (hlen : (e.call env c).log.ops.length = e.log.ops.length) : (e.call env c).log = e.log := by
  have happ : (e.recorded env c).log = e.log ∨
      ∃ op, (e.recorded env c).log = e.log.append env op := by
    rcases hc with ⟨value, rfl⟩ | ⟨value, successor, rfl⟩
    · simp only [recorded]
      split
      · exact .inl (materialise_log e)
      · simp only [recordRemove, reflect, materialise_log]
        exact .inr ⟨_, rfl⟩
    · simp only [recorded, recordSupersede, reflect, materialise_log]
      exact .inr ⟨_, rfl⟩
  have hle : (e.recorded env c).log.ops.length ≤ e.log.ops.length+1 := by
    rcases happ with h | ⟨op, h⟩
    · rw [h]
      exact Nat.le_succ _
    · simp [h, OpLog.append]
  rw [call_log] at hlen ⊢
  by_cases hf : e.compacts env c = true
  · rw [if_pos hf] at hlen
    have hsurv : ((e.recorded env c).log.compact env).1.ops.length =
        ((e.recorded env c).log.survivors env).length := OpLog.stamp_length _ _ _ _
    have hzero : e.log.ops.length = 0 := by
      by_contra hpos
      refine hr ⟨?_, hf, by omega, by omega⟩
      rcases hc with ⟨value, rfl⟩ | ⟨value, successor, rfl⟩ <;> simp
    have hsmall : (e.recorded env c).log.ops.length ≤ minAdaptiveGrowth :=
      hle.trans (by rw [hzero]; decide)
    have hno := shouldCompact_default (e := e.recorded env c) (by simpa using hp) hsmall
    rcases hc with ⟨value, rfl⟩ | ⟨value, successor, rfl⟩
    · simp [compacts, hno] at hf
    · simp [compacts, hno] at hf
  · rw [if_neg hf] at hlen ⊢
    rcases happ with h | ⟨op, h⟩
    · exact h
    · simp [h, OpLog.append] at hlen

namespace Durable

section

variable {T : Type} [DecidableEq T] {v : Vault T} {p : PersistentSyncEngine T}

theorem withRows (h : Durable v p) {env : Env T} {c : Call T} {db : Database}
    (hs : v.Storable (p.engine.call env c).log) (hm : v.Mirrors db (p.engine.call env c).log) :
    Durable v ⟨p.engine.call env c, db, (p.engine.call env c).log.ops.length⟩ := by
  have hmax : i64Max < u64Max := by decide
  have hlt : p.engine.log.clock < u64Max := Nat.lt_of_le_of_lt h.storable.clock hmax
  have hlt' : (p.engine.call env c).log.clock < u64Max := Nat.lt_of_le_of_lt hs.clock hmax
  refine ⟨h.coherent.call env c, tidy_call h.tidy hlt hlt', hs, hm, rfl, ?_, ?_⟩
  · simpa using h.policy
  · simpa [call_log_replicaId] using h.replicaId

theorem tidy_call (h : Durable v p) {env : Env T} {c : Call T}
    (hs : v.Storable (p.engine.call env c).log) : (p.engine.call env c).log.Tidy :=
  SyncEngine.tidy_call h.tidy (Nat.lt_of_le_of_lt h.storable.clock (by decide))
    (Nat.lt_of_le_of_lt hs.clock (by decide))

theorem flush (h : Durable v p) (nonces : Uuid × Nat → AeadNonce) {env : Env T} {c : Call T}
    (hc : c ≠ .compact) (hs : v.Storable (p.engine.call env c).log)
    (hr : ¬ Regrows p.engine env c) :
    Durable v ({ p with engine := p.engine.call env c }.flushAppended v nonces).1 ∧
      ({ p with engine := p.engine.call env c }.flushAppended v nonces).2 = .ok () := by
  obtain ⟨db, hf, hm⟩ := flushAppended_ok (p := { p with engine := p.engine.call env c }) nonces
    h.mirrors h.persistedLen (h.tidy_call hs) hs (extends_or_shrinks hc hr)
  rw [hf]
  exact ⟨h.withRows hs hm, rfl⟩

theorem rewrite (h : Durable v p) (nonces : Uuid × Nat → AeadNonce) {env : Env T} {c : Call T}
    (hs : v.Storable (p.engine.call env c).log) :
    Durable v ({ p with engine := p.engine.call env c }.rewriteAll v nonces).1 ∧
      ({ p with engine := p.engine.call env c }.rewriteAll v nonces).2 = .ok () := by
  obtain ⟨db, hf, hm⟩ := rewriteAll_ok (p := { p with engine := p.engine.call env c }) nonces
    (h.tidy_call hs) hs
  rw [hf]
  exact ⟨h.withRows hs hm, rfl⟩

theorem flushUnless (h : Durable v p) (nonces : Uuid × Nat → AeadNonce) {env : Env T} {c : Call T}
    (hc : (∃ value, c = .remove value) ∨ ∃ value successor, c = .supersede value successor)
    (hs : v.Storable (p.engine.call env c).log) (hr : ¬ Regrows p.engine env c) :
    Durable v ({ p with engine := p.engine.call env c }.flushUnlessSameLength v nonces
        p.engine.log.ops.length).1 ∧
      ({ p with engine := p.engine.call env c }.flushUnlessSameLength v nonces
        p.engine.log.ops.length).2 = .ok () := by
  unfold flushUnlessSameLength
  split
  · rename_i hlen
    have hlog := call_log_of_same_length hc h.policy hr hlen
    have hm : v.Mirrors p.db (p.engine.call env c).log := by
      rw [hlog]
      exact h.mirrors
    have hd := h.withRows hs hm
    rw [hlen, ← h.persistedLen] at hd
    exact ⟨hd, rfl⟩
  · refine h.flush nonces ?_ hs hr
    rcases hc with ⟨value, rfl⟩ | ⟨value, successor, rfl⟩ <;> simp

/-- The step lemma: a noticed operation returns `Ok` and keeps the mirror. -/
theorem step (h : Durable v p) {a : PersistAction T} (ha : p.Noticed v a) :
    Durable v (p.perform v a).1 ∧ (p.perform v a).2 = .ok () := by
  cases a with
  | add env nonces value tag =>
    obtain ⟨hs, hr⟩ := ha env _ rfl
    exact h.flush nonces (c := .add value tag) (by simp) hs hr
  | remove env nonces value =>
    obtain ⟨hs, hr⟩ := ha env _ rfl
    exact h.flushUnless nonces (c := .remove value) (.inl ⟨value, rfl⟩) hs hr
  | supersede env nonces value successor =>
    obtain ⟨hs, hr⟩ := ha env _ rfl
    exact h.flushUnless nonces (c := .supersede value successor) (.inr ⟨value, successor, rfl⟩)
      hs hr
  | merge env nonces other =>
    obtain ⟨hs, hr⟩ := ha env _ rfl
    exact h.flush nonces (c := .merge other) (by simp) hs hr
  | compact env nonces =>
    obtain ⟨hs, -⟩ := ha env _ rfl
    exact h.rewrite nonces (c := .compact) hs
  | save nonces =>
    obtain ⟨db, hf, hm⟩ := rewriteAll_ok nonces h.tidy h.storable
    rw [perform, save, hf]
    exact ⟨⟨h.coherent, h.tidy, h.storable, hm, rfl, h.policy, h.replicaId⟩, rfl⟩
  | reopen =>
    obtain ⟨loaded, hl, ht, hops, hc, he, hid⟩ := load_ok h.mirrors h.tidy
    have hopen : openAt v p.engine.replicaId p.db =
        .ok ⟨fromLog p.engine.log.replicaId loaded, p.db, loaded.ops.length⟩ := by
      rw [openAt, h.replicaId, hl]
      rfl
    rw [perform, hopen]
    obtain ⟨held, hperm, hheld⟩ := h.mirrors.rows
    refine ⟨⟨coherent_fromLog _ _, ht, ⟨?_, ?_, ?_⟩, ⟨⟨held, ?_, hheld⟩, ?_, ?_⟩, rfl,
      rfl, hid.symm⟩, rfl⟩
    · exact hc.trans_le h.storable.clock
    · exact he.trans_le h.storable.compactionEpoch
    · exact fun o ho => h.storable.ops o (hops.mem_iff.mp ho)
    · exact hperm.trans hops.symm
    · exact h.mirrors.clock.trans (congrArg _ hc.symm)
    · exact h.mirrors.compactionEpoch.trans (congrArg _ he.symm)

end

end Durable

section

variable {T : Type} [DecidableEq T]

theorem key_notMem_compact {e : SyncEngine T} (ht : e.log.Tidy)
    (hb : e.log.clock ≤ u64Max) {env : Env T} {c : Call T} (hf : e.compacts env c = true)
    (hlt : (e.call env c).log.clock < u64Max) {o o' : SyncOp T} (ho : o ∈ e.log.ops)
    (ho' : o' ∈ (e.call env c).log.ops) : o'.key ≠ o.key := by
  have hgrow : e.log.clock ≤ (e.recorded env c).log.clock := by
    have hg := recorded_grows e env c
    revert hg
    generalize (e.recorded env c).log = log'
    intro hg
    cases hg with
    | same => exact Nat.le_refl _
    | append op => exact le_saturatingSucc hb
    | absorb epoch =>
      simp only [OpLog.absorb_clock]
      exact OpLog.le_ownClock _ _ _
  have hrid : (e.recorded env c).log.replicaId = e.log.replicaId := by
    have h := call_log_replicaId e env c
    rw [call_log, if_pos hf] at h
    exact h
  rw [call_log, if_pos hf] at hlt ho'
  have hc := OpLog.iterate_saturatingSucc_of_lt hlt
  have hlt' : saturatingSucc^[((e.recorded env c).log.survivors env).length]
      (e.recorded env c).log.clock < u64Max := hlt
  have hkey : o'.key ∈ (OpLog.stamp (e.recorded env c).log.replicaId env.now
      (e.recorded env c).log.clock ((e.recorded env c).log.survivors env)).map key :=
    List.mem_map_of_mem ho'
  rw [OpLog.stamp_seqs _ _ (by omega)] at hkey
  obtain ⟨seq, hseq, hk⟩ := List.mem_map.mp hkey
  rw [List.mem_range'_1] at hseq
  rw [← hk, hrid]
  intro he
  obtain ⟨hr, hs⟩ := Prod.mk.inj he
  have hle := ht.own o ho hr.symm
  omega

theorem not_mirrors_of_regrows {v : Vault T} {e : SyncEngine T}
    (ht : e.log.Tidy) (hb : e.log.clock ≤ u64Max) {env : Env T} {c : Call T} (hr : Regrows e env c)
    (hlt : (e.call env c).log.clock < u64Max) {db : Database} {held more : List (SyncOp T)}
    (hperm : held.Perm e.log.ops) (hrows : List.Forall₂ v.RowFor db.syncOps (held ++ more)) :
    ¬ v.Mirrors db (e.call env c).log := by
  rintro ⟨⟨ops, hops, hall⟩, -, -⟩
  obtain ⟨o, ho⟩ := List.exists_mem_of_length_pos hr.2.2.1
  obtain ⟨row, hrow, hfor⟩ := exists_row hrows
    (List.mem_append_left more (hperm.mem_iff.mpr ho))
  obtain ⟨o', ho', hfor'⟩ := exists_rowFor hall hrow
  refine key_notMem_compact ht hb hr.2.1 hlt ho (hops.mem_iff.mp ho') ?_
  have hs := hfor'.seq.symm.trans hfor.seq
  exact Prod.ext (hfor'.replicaId.symm.trans hfor.replicaId) (by exact_mod_cast hs)

/-- The exact converse of the step lemma: an operation that regrows the log returns `Ok`
and leaves the rows of the old log behind. -/
theorem Durable.regrows {v : Vault T} {p : PersistentSyncEngine T}
    (h : Durable v p) {a : PersistAction T} {env : Env T} {c : Call T}
    (hc : a.call = some (env, c)) (hs : v.Storable (p.engine.call env c).log)
    (hr : Regrows p.engine env c) :
    (p.perform v a).2 = .ok () ∧ (p.perform v a).1.engine = p.engine.call env c ∧
      ¬ v.Mirrors (p.perform v a).1.db (p.perform v a).1.engine.log := by
  have hlt : (p.engine.call env c).log.clock < u64Max :=
    Nat.lt_of_le_of_lt hs.clock (by decide)
  have hb : p.engine.log.clock ≤ u64Max := h.storable.clock.trans (by decide)
  obtain ⟨held, hperm, hheld⟩ := h.mirrors.rows
  have hlen : (p.engine.call env c).log.ops.length =
      ((p.engine.recorded env c).log.survivors env).length := by
    rw [call_log, if_pos hr.2.1]
    exact OpLog.stamp_length _ _ _ _
  have hkeep : ¬ v.Mirrors p.db (p.engine.call env c).log :=
    not_mirrors_of_regrows h.tidy hb hr hlt hperm (held.append_nil.symm ▸ hheld)
  have hflush : ∀ nonces,
      ({ p with engine := p.engine.call env c }.flushAppended v nonces).2 = .ok () ∧
      ({ p with engine := p.engine.call env c }.flushAppended v nonces).1.engine =
        p.engine.call env c ∧
      ¬ v.Mirrors ({ p with engine := p.engine.call env c }.flushAppended v nonces).1.db
        (p.engine.call env c).log := by
    intro nonces
    have hge : ¬ (p.engine.call env c).log.ops.length < p.persistedLen := by
      have hreg := hr.2.2.2
      rw [hlen, h.persistedLen]
      omega
    have hn : ((held ++ (p.engine.call env c).log.ops.drop p.persistedLen).map
        key).Nodup := by
      rw [List.map_append]
      refine List.nodup_append.mpr ⟨(hperm.map key).nodup_iff.mpr h.tidy.nodup,
        (h.tidy_call hs).nodup.sublist ((List.drop_sublist _ _).map _), ?_⟩
      intro k hk k' hk' he
      obtain ⟨o, ho, rfl⟩ := List.mem_map.mp hk
      obtain ⟨o', ho', rfl⟩ := List.mem_map.mp hk'
      exact key_notMem_compact h.tidy hb hr.2.1 hlt (hperm.mem_iff.mp ho)
        (List.mem_of_mem_drop ho') he.symm
    obtain ⟨written, hall, ht⟩ := transaction_rows (e := p.engine.call env c) nonces hheld hn
      (fun o ho => List.mem_of_mem_drop ho) hs
    simp only [flushAppended, if_neg hge, ht, commit]
    exact ⟨trivial, trivial, not_mirrors_of_regrows h.tidy hb hr hlt hperm hall⟩
  have hunless : ∀ nonces before,
      ({ p with engine := p.engine.call env c }.flushUnlessSameLength v nonces before).2 = .ok () ∧
      ({ p with engine := p.engine.call env c }.flushUnlessSameLength v nonces before).1.engine =
        p.engine.call env c ∧
      ¬ v.Mirrors
        ({ p with engine := p.engine.call env c }.flushUnlessSameLength v nonces before).1.db
        (p.engine.call env c).log := by
    intro nonces before
    unfold flushUnlessSameLength
    split
    · exact ⟨rfl, rfl, hkeep⟩
    · exact hflush nonces
  cases a with
  | add env' nonces value tag =>
    obtain ⟨rfl, rfl⟩ := Prod.mk.inj (Option.some.inj hc)
    obtain ⟨h₁, h₂, h₃⟩ := hflush nonces
    exact ⟨h₁, h₂, h₂ ▸ h₃⟩
  | merge env' nonces other =>
    obtain ⟨rfl, rfl⟩ := Prod.mk.inj (Option.some.inj hc)
    obtain ⟨h₁, h₂, h₃⟩ := hflush nonces
    exact ⟨h₁, h₂, h₂ ▸ h₃⟩
  | remove env' nonces value =>
    obtain ⟨rfl, rfl⟩ := Prod.mk.inj (Option.some.inj hc)
    obtain ⟨h₁, h₂, h₃⟩ := hunless nonces p.engine.log.ops.length
    exact ⟨h₁, h₂, h₂ ▸ h₃⟩
  | supersede env' nonces value successor =>
    obtain ⟨rfl, rfl⟩ := Prod.mk.inj (Option.some.inj hc)
    obtain ⟨h₁, h₂, h₃⟩ := hunless nonces p.engine.log.ops.length
    exact ⟨h₁, h₂, h₂ ▸ h₃⟩
  | compact env' nonces =>
    obtain ⟨rfl, rfl⟩ := Prod.mk.inj (Option.some.inj hc)
    exact absurd rfl hr.1
  | save nonces => simp [PersistAction.call] at hc
  | reopen => simp [PersistAction.call] at hc

theorem Durable.initial {v : Vault T} {replicaId : Uuid}
    {p : PersistentSyncEngine T} (h : openAt v replicaId ⟨[], none⟩ = .ok p) :
    Durable v p := by
  have hload : v.load replicaId ⟨[], none⟩ =
      .ok (fromLog replicaId (OpLog.new replicaId)) := by
    rw [load, List.mergeSort_nil]
    rfl
  rw [openAt, hload] at h
  obtain rfl := Except.ok.inj h
  refine ⟨coherent_fromLog _ _, OpLog.tidy_new replicaId, ⟨?_, ?_, ?_⟩,
    ⟨⟨[], List.Perm.refl _, .nil⟩, rfl, rfl⟩, rfl, rfl, rfl⟩
  · exact Nat.zero_le _
  · exact Nat.zero_le _
  · exact fun o ho => absurd ho List.not_mem_nil

theorem Durable.reachable {v : Vault T}
    {p : PersistentSyncEngine T} (h : ((system v).restrict (Noticed v)).Reachable p) :
    Durable v p := by
  refine h.invariant (Durable v) ?_ ?_
  · rintro p ⟨replicaId, hp⟩
    exact Durable.initial hp
  · rintro p a q _ hi ⟨⟨-, rfl⟩, ha⟩
    exact (hi.step ha).1

end

end PersistentSyncEngine

open PersistentSyncEngine

/-- In every run of noticed operations each of them returns `Ok`, the database mirrors the
engine after each, and reopening it yields the same live tags, the same supersessions up
to order, the same clock and the same epoch. -/
theorem database_mirrors_engine {T : Type} [DecidableEq T] (v : Vault T)
    (p : PersistentSyncEngine T) (h : ((system v).restrict
      (PersistentSyncEngine.Noticed v)).Reachable p) :
    v.Mirrors p.db p.engine.log ∧
      (∀ a, p.Noticed v a → (p.perform v a).2 = .ok ()) ∧
      ∃ e : SyncEngine T, v.load p.engine.replicaId p.db = .ok e ∧
        (∀ value tag, e.state.2.1.LiveTag value tag ↔ p.engine.state.2.1.LiveTag value tag) ∧
        e.state.2.2.Perm p.engine.state.2.2 ∧ e.log.clock = p.engine.log.clock ∧
        e.log.compactionEpoch = p.engine.log.compactionEpoch := by
  have hd := PersistentSyncEngine.Durable.reachable h
  obtain ⟨loaded, hl, -, hops, hc, he, -⟩ := load_ok hd.mirrors hd.tidy
  have hstate : (fromLog p.engine.log.replicaId loaded).state.2 = loaded.replay :=
    (coherent_fromLog _ _).state_eq
  refine ⟨hd.mirrors, fun a ha => (hd.step ha).2,
    fromLog p.engine.log.replicaId loaded, hd.replicaId ▸ hl, ?_, ?_, hc, he⟩
  · intro value tag
    rw [hstate, hd.coherent.state_eq, OpLog.replay_set_eq fun _ => (hops.map _).mem_iff]
  · rw [hstate, hd.coherent.state_eq, OpLog.replay_supersessions, OpLog.replay_supersessions]
    exact hops.filterMap _

/-! A fresh wrapper that adds one value, and then merges a peer whose log is long enough to
trigger the size heuristic. -/

instance encodableUuid : Encodable Uuid :=
  Encodable.ofLeftInverse BitVec.toNat (BitVec.ofNat 128) (fun u => by simp)

deriving instance Encodable for SyncOpKind

deriving instance Encodable for SyncOp

def Json.digits {α : Type} [Encodable α] : Json α where
  toVec a := some ((Nat.digits 256 (Encodable.encode a)).map UInt8.ofNat)
  fromSlice bytes := Encodable.decode (Nat.ofDigits 256 (bytes.map UInt8.toNat))
  fromSlice_toVec := by
    intro a bytes h
    obtain rfl := Option.some.inj h
    have hd : (Nat.digits 256 (Encodable.encode a)).map (UInt8.toNat ∘ UInt8.ofNat) =
        Nat.digits 256 (Encodable.encode a) := by
      conv_rhs => rw [← List.map_id (Nat.digits 256 (Encodable.encode a))]
      refine List.map_congr_left (fun d hd => ?_)
      have hlt := Nat.digits_lt_base (by decide : 1 < 256) hd
      simp [Nat.mod_eq_of_lt hlt]
    rw [List.map_map, hd, Nat.ofDigits_digits, Encodable.encodek]

namespace Longer

def op : SyncOp Nat := ⟨0, 1, 0, .add 1 1⟩

def start : PersistentSyncEngine Nat := ⟨SyncEngine.withReplicaId 0, ⟨[], none⟩, 0⟩

def one : PersistAction Nat := .add .atEpoch (fun _ => 0) 1 1

def single (v : Vault Nat) : PersistentSyncEngine Nat := (start.perform v one).1

def peer (n : Nat) : OpLog Nat :=
  ⟨1, n, 0, (List.range n).map (fun i => ⟨1, i+1, 0, .add (i+2) (BitVec.ofNat 128 (i+2))⟩),
    ((List.range n).map (fun i => ((1 : Uuid), i+1))).toFinset⟩

theorem start_opens (v : Vault Nat) : openAt v 0 ⟨[], none⟩ = .ok start := by
  rw [openAt, load, List.mergeSort_nil]
  rfl

theorem flushAppended_engine {T : Type} (v : Vault T) (nonces : Uuid × Nat → AeadNonce)
    (p : PersistentSyncEngine T) : (p.flushAppended v nonces).1.engine = p.engine := by
  have hcommit : ∀ r, (p.commit r).1.engine = p.engine := by
    intro r
    cases r <;> rfl
  unfold flushAppended rewriteAll
  split
  · exact hcommit _
  · exact hcommit _

theorem single_engine (v : Vault Nat) : (single v).engine =
    ⟨0, ⟨0, 1, 0, [op], {(0, 1)}⟩, none, 0, .default, 0, 0⟩ := by
  refine (flushAppended_engine v _ _).trans ?_
  decide +kernel

def Accepts (v : Vault Nat) : Prop := ∀ nonce, ∃ row, v.opRow nonce op = .ok row

theorem one_noticed {v : Vault Nat} (hv : Accepts v) : start.Noticed v one := by
  intro env c hc
  obtain ⟨rfl, rfl⟩ := Prod.mk.inj (Option.some.inj hc)
  have hlog : (start.engine.call .atEpoch (.add 1 1)).log = ⟨0, 1, 0, [op], {(0, 1)}⟩ := by
    decide +kernel
  refine ⟨⟨?_, ?_, ?_⟩, fun hr => absurd hr.2.2.1 (by decide)⟩
  · rw [hlog]
    decide
  · rw [hlog]
    decide
  · rw [hlog]
    intro o ho
    obtain rfl := List.mem_singleton.mp ho
    exact hv

theorem single_durable {v : Vault Nat} (hv : Accepts v) :
    PersistentSyncEngine.Durable v (single v) :=
  ((PersistentSyncEngine.Durable.initial (start_opens v)).step (one_noticed hv)).1

theorem single_reachable {v : Vault Nat} (hv : Accepts v) :
    ((system v).restrict
      (PersistentSyncEngine.Noticed v)).Reachable (single v) :=
  .step (.init ⟨0, start_opens v⟩) ⟨⟨trivial, rfl⟩, one_noticed hv⟩

def textVault : Vault Nat :=
  ⟨.single op ("\x7b\"replica_id\":\"00000000-0000-0000-0000-000000000000\",\"seq\":1," ++
    "\"created_at\":\"1970-01-01T00:00:00Z\",\"op\":\x7b\"kind\":\"add\",\"value\":1,\"tag\":" ++
    "\"00000000-0000-0000-0000-000000000001\"\x7d\x7d"), .tagged, 0, 0⟩

theorem textVault_accepts : Accepts textVault := by
  intro nonce
  simp only [opRow, textVault, Json.single, Aead.tagged, if_true]
  rw [if_neg (by decide)]
  exact ⟨_, rfl⟩

def vault : Vault Nat := ⟨.digits, .tagged, 0, 0⟩

theorem opRow_total {o : SyncOp Nat} (h : o.seq ≤ i64Max) (nonce : AeadNonce) :
    ∃ row, vault.opRow nonce o = .ok row := by
  simp only [opRow, vault, Json.digits, Aead.tagged]
  rw [if_neg (by omega)]
  exact ⟨_, rfl⟩

theorem vault_accepts : Accepts vault := opRow_total (by decide)

theorem fresh_peer (n : Nat) :
    fresh key (single vault).engine.log.seen (peer n).ops = (peer n).ops := by
  have hk : (peer n).ops.map key = (List.range n).map (fun i => ((1 : Uuid), i+1)) := by
    simp [peer, List.map_map, Function.comp_def, key]
  refine fresh_eq_self ?_ ?_
  · rw [hk]
    exact List.nodup_range.map (fun a b h => by simpa using h)
  · intro o ho hmem
    obtain ⟨i, -, rfl⟩ := List.mem_map.mp ho
    rw [single_engine] at hmem
    simp [key] at hmem

theorem merged_ops (n : Nat) : ((single vault).engine.recorded .atEpoch (.merge (peer n))).log.ops =
    op :: (peer n).ops := by
  have hops := OpLog.absorb_ops (single vault).engine.log (peer n).ops
  rw [fresh_peer, show (single vault).engine.log.ops = [op] by rw [single_engine]] at hops
  exact hops

theorem merged_length (n : Nat) :
    ((single vault).engine.recorded .atEpoch (.merge (peer n))).log.ops.length = n+1 := by
  rw [merged_ops]
  simp [peer]

theorem merge_compacts {n : Nat} (hn : 16384 < n) (hmax : n < 65536) :
    (single vault).engine.compacts .atEpoch (.merge (peer n)) = true := by
  have hpolicy : ((single vault).engine.recorded .atEpoch (.merge (peer n))).compactionPolicy =
      .default := by
    rw [recorded_compactionPolicy, single_engine]
  have hbase : ((single vault).engine.recorded .atEpoch (.merge (peer n))).compactBaseline = 0 := by
    change (single vault).engine.compactBaseline = 0
    rw [single_engine]
  change ((single vault).engine.recorded .atEpoch (.merge (peer n))).shouldCompact = true
  simp only [shouldCompact, hpolicy, CompactionPolicy.default, merged_length, hbase,
    minAdaptiveGrowth, defaultCompactThreshold, estimatedBytesPerOp, defaultMaxDeltaBytes, usizeMax]
  rw [if_neg (by omega), Bool.or_eq_true]
  exact .inr (decide_eq_true (by omega))

theorem merge_regrows {n : Nat} (hn : 16384 < n) (hmax : n < 65536) :
    PersistentSyncEngine.Regrows (single vault).engine .atEpoch (.merge (peer n)) := by
  have hone : (single vault).engine.log.ops.length = 1 := by
    rw [single_engine]
    rfl
  refine ⟨by simp, merge_compacts hn hmax, by omega, ?_⟩
  have hlive : ((single vault).engine.recorded .atEpoch (.merge (peer n))).log.replay.1.LiveTag 1 1 := by
    rw [OpLog.liveTag_replay, merged_ops]
    refine ⟨⟨_, List.mem_cons_self, rfl⟩, ?_⟩
    rintro ⟨o, ho, ht⟩
    rcases List.mem_cons.mp ho with rfl | ho
    · simp [op, SyncOpKind.observedTags] at ht
    · obtain ⟨i, -, rfl⟩ := List.mem_map.mp ho
      simp [SyncOpKind.observedTags] at ht
  have hmem := (AddWinsSet.mem_livePairs _ Env.atEpoch.values Env.atEpoch.tags (1, 1)).mpr hlive
  have hpos := List.length_pos_of_mem hmem
  simp only [OpLog.survivors, List.length_append, List.length_map]
  omega

theorem merge_storable {n : Nat} (hn : 16384 < n) (hmax : n < 65536) :
    vault.Storable ((single vault).engine.call .atEpoch (.merge (peer n))).log := by
  have hclock : ((single vault).engine.recorded .atEpoch (.merge (peer n))).log.clock = 1 := by
    have hown : ∀ o ∈ (peer n).ops, o.replicaId = (single vault).engine.log.replicaId →
        o.seq ≤ (single vault).engine.log.clock := by
      intro o ho hr
      obtain ⟨i, -, rfl⟩ := List.mem_map.mp ho
      rw [single_engine] at hr
      simp at hr
    have h := OpLog.absorb_clock_eq hown
    rw [show (single vault).engine.log.clock = 1 by rw [single_engine]] at h
    exact h
  have hlen := OpLog.survivors_length_le
    ((single vault).engine.recorded .atEpoch (.merge (peer n))).log Env.atEpoch
  rw [merged_length] at hlen
  have hcomp : (((single vault).engine.recorded .atEpoch (.merge (peer n))).log.compact
      .atEpoch).1.clock = min (1 + (((single vault).engine.recorded .atEpoch
        (.merge (peer n))).log.survivors .atEpoch).length) u64Max := by
    rw [← hclock]
    exact OpLog.iterate_saturatingSucc _ (by rw [hclock]; decide)
  have hi : i64Max = 9223372036854775807 := rfl
  have hu : u64Max = 18446744073709551615 := rfl
  rw [call_log, if_pos (merge_compacts hn hmax)]
  refine ⟨?_, ?_, ?_⟩
  · rw [hcomp]
    omega
  · have hepoch : ((single vault).engine.recorded .atEpoch (.merge (peer n))).log.compactionEpoch = 0 := by
      change max (single vault).engine.log.compactionEpoch 0 = 0
      rw [single_engine]
      rfl
    change saturatingSucc ((single vault).engine.recorded .atEpoch (.merge (peer n))).log.compactionEpoch ≤ _
    rw [hepoch]
    decide
  · intro o ho
    have hb := (OpLog.stamp_bounds (by rw [hclock]; decide) ho).2
    refine opRow_total (hb.trans ?_)
    change (((single vault).engine.recorded .atEpoch (.merge (peer n))).log.compact .atEpoch).1.clock ≤ _
    rw [hcomp]
    omega

end Longer

open Longer

theorem database_mirrors_engine_single :
    (single textVault).engine.log.ops = [⟨0, 1, 0, .add 1 1⟩] ∧
      textVault.Mirrors (single textVault).db
        (single textVault).engine.log :=
  ⟨by rw [single_engine]; rfl, (database_mirrors_engine textVault _
      (single_reachable textVault_accepts)).1⟩

/-- Merging 16385 live values into a log of one compacts it to 16386 new ops, of which the
first is never written, while the row of the old one stays. -/
theorem merge_leaves_stale_row :
    (system vault).Reachable
        ((single vault).perform vault
          (.merge .atEpoch (fun _ => 0) (peer 16385))).1 ∧
      ((single vault).perform vault
        (.merge .atEpoch (fun _ => 0) (peer 16385))).2 = .ok () ∧
      ¬ vault.Mirrors
        ((single vault).perform vault
          (.merge .atEpoch (fun _ => 0) (peer 16385))).1.db
        ((single vault).perform vault
          (.merge .atEpoch (fun _ => 0) (peer 16385))).1.engine.log := by
  have hn : 16384 < 16385 := by omega
  have hmax : 16385 < 65536 := by omega
  have h := (single_durable vault_accepts).regrows
    (a := .merge .atEpoch (fun _ => 0) (peer 16385))
    rfl (merge_storable hn hmax) (merge_regrows hn hmax)
  exact ⟨.step (single_reachable vault_accepts).of_restrict ⟨trivial, rfl⟩, h.1, h.2.2⟩

end Knowledge.Sync
