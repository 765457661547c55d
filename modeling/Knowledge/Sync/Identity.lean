import Mathlib.Data.Fintype.Basic
import Knowledge.Sync.Net

/-!
Op identity: no two ops of the whole system carry the same `(replica_id, seq)`, as long
as a replica that comes back from a snapshot comes back with a clock that covers what it
has already authored.
-/

set_option autoImplicit false

namespace Knowledge.Sync
open Knowledge.Machine Knowledge.Dedup Knowledge.Transition
open SyncEngine SyncClient

/-- What identity rests on: authored keys are distinct, every clock covers what its
replica authored, and no op is anywhere that was not authored. -/
structure Identified {ι T : Type} (w : Wires T) (ids : ι → Uuid) (topic : TopicId)
    (sealKey : AeadKey) (s : Net ι T) : Prop where
  replicaId : ∀ i, (s.engine i).log.replicaId = ids i
  scope : ∀ i, (s.client i).topic = topic ∧ (s.client i).sealKey = sealKey
  below : ∀ i, (s.engine i).log.clock < u64Max
  nodup : (s.authored.map SyncOp.key).Nodup
  covered : ∀ i, ∀ o ∈ s.authored, o.replicaId = ids i → o.seq ≤ (s.engine i).log.clock
  known : ∀ o, s.Known w topic sealKey o → o ∈ s.authored

namespace Net

/-- An action may be taken when it leaves every clock short of the saturation bound. -/
def Guard {ι T : Type} [DecidableEq ι] [DecidableEq T] (w : Wires T) (ids : ι → Uuid)
    (s : Net ι T) (a : NetAction ι T) : Prop :=
  s.Allowed w ids a ∧ ∀ i, ((s.next w ids a).engine i).log.clock < u64Max

instance decidableGuard {ι T : Type} [Fintype ι] [DecidableEq ι] [DecidableEq T] (w : Wires T)
    (ids : ι → Uuid) (s : Net ι T) (a : NetAction ι T) : Decidable (s.Guard w ids a) :=
  inferInstanceAs (Decidable (s.Allowed w ids a ∧
    ∀ i, ((s.next w ids a).engine i).log.clock < u64Max))

def system {ι T : Type} [DecidableEq ι] [DecidableEq T] (w : Wires T) (ids : ι → Uuid)
    (topic : TopicId) (sealKey : AeadKey) : System (Net ι T) (NetAction ι T) :=
  .ofNext (fun s => ∃ policies, s.Initial ids topic sealKey policies) (Net.Guard w ids)
    (Net.next w ids)

/-- The restored clock, or the receiver's own ops left in a foreign snapshot, cover every
seq the replica has already authored. -/
def Resumes {ι T : Type} (w : Wires T) (ids : ι → Uuid) (s : Net ι T) : NetAction ι T → Prop
  | .restore i bytes => ∀ snap, w.snapshot.fromSlice bytes = some snap →
      ∀ o ∈ s.authored, o.replicaId = ids i → o.seq ≤ snap.log.clock
  | .bootstrap i bytes => ∀ snap, w.snapshot.fromSlice bytes = some snap →
      ∀ o ∈ s.authored, o.replicaId = ids i →
        ∃ p ∈ snap.log.ops, p.replicaId = ids i ∧ o.seq ≤ p.seq
  | _ => True

instance decidableResumes {ι T : Type} (w : Wires T) (ids : ι → Uuid) (s : Net ι T) :
    ∀ a, Decidable (s.Resumes w ids a)
  | .restore i bytes => inferInstanceAs (Decidable (∀ snap ∈ w.snapshot.fromSlice bytes,
      ∀ o ∈ s.authored, o.replicaId = ids i → o.seq ≤ snap.log.clock))
  | .bootstrap i bytes => inferInstanceAs (Decidable (∀ snap ∈ w.snapshot.fromSlice bytes,
      ∀ o ∈ s.authored, o.replicaId = ids i →
        ∃ p ∈ snap.log.ops, p.replicaId = ids i ∧ o.seq ≤ p.seq))
  | .call _ _ _ | .merge _ _ _ | .encode _ _ | .encodeOwn _ _ | .apply _ _ _ | .push _ _
  | .pull _ _ | .snapshot _ => isTrue trivial

end Net

namespace Identified

theorem initial {ι T : Type} {w : Wires T} {ids : ι → Uuid} {topic : TopicId}
    {sealKey : AeadKey} {policies : ι → CompactionPolicy} {s : Net ι T}
    (h : s.Initial ids topic sealKey policies) : Identified w ids topic sealKey s := by
  obtain ⟨he, hc, hr, hw, hs, ha⟩ := h
  have hlog : ∀ i, (s.engine i).log = OpLog.new (ids i) := fun i => by rw [he i]; rfl
  refine ⟨?_, ?_, ?_, ?_, ?_, ?_⟩
  · intro i
    rw [hlog i]
    rfl
  · intro i
    rw [hc i]
    exact ⟨rfl, rfl⟩
  · intro i
    rw [hlog i]
    exact (by decide : 0 < u64Max)
  · simp [ha]
  · simp [ha]
  · intro o ho
    simp only [Net.Known, hlog, hr, hw, hs] at ho
    simp [OpLog.new, InMemoryTransport.new] at ho

theorem offersBelow {ι T : Type} {w : Wires T} {ids : ι → Uuid} {topic : TopicId}
    {sealKey : AeadKey} {s : Net ι T} (h : Identified w ids topic sealKey s) {i : ι}
    {cs : List (Env T × Call T)} (hcs : ∀ c ∈ cs, ∀ o ∈ c.2.entries, o ∈ s.authored) :
    SyncEngine.OffersBelow (s.engine i).log.replicaId (s.engine i).log.clock cs := by
  intro c hc o ho hr
  rw [h.replicaId] at hr
  exact h.covered i o (hcs c hc o ho) hr

theorem perform {ι T : Type} [DecidableEq ι] [DecidableEq T] {w : Wires T} {ids : ι → Uuid}
    {topic : TopicId} {sealKey : AeadKey} {s : Net ι T} (hids : Function.Injective ids)
    (h : Identified w ids topic sealKey s) (i : ι) (cs : List (Env T × Call T))
    (hcs : ∀ c ∈ cs, ∀ o ∈ c.2.entries, o ∈ s.authored)
    (hlt : ((s.engine i).calls cs).log.clock < u64Max) :
    Identified w ids topic sealKey (s.perform i ((s.engine i).calls cs) cs) := by
  have hext := extends_calls (h.offersBelow hcs) (h.below i).le hlt
  have hnew : ∀ o ∈ (s.engine i).authoredAll cs, o.replicaId = ids i ∧
      (s.engine i).log.clock < o.seq ∧ o.seq ≤ ((s.engine i).calls cs).log.clock := by
    intro o ho
    have hk := hext.consecutive.replicaId_eq ho
    rw [h.replicaId i, ← hext.clock] at hk
    exact hk
  refine ⟨?_, h.scope, ?_, ?_, ?_, ?_⟩
  · intro j
    by_cases hj : j = i
    · subst hj
      simp only [Net.perform, Function.update_self]
      rw [hext.replicaId, h.replicaId]
    · simp only [Net.perform, Function.update_of_ne hj]
      exact h.replicaId j
  · intro j
    by_cases hj : j = i
    · subst hj
      simpa only [Net.perform, Function.update_self] using hlt
    · simp only [Net.perform, Function.update_of_ne hj]
      exact h.below j
  · simp only [Net.perform, List.map_append]
    refine List.nodup_append.mpr ⟨h.nodup, hext.consecutive.nodup, ?_⟩
    intro k hk k' hk' he
    obtain ⟨o, ho, rfl⟩ := List.mem_map.mp hk
    obtain ⟨p, hp, rfl⟩ := List.mem_map.mp hk'
    obtain ⟨hr, hlow, _⟩ := hnew p hp
    obtain ⟨hr', hs'⟩ := Prod.mk.inj he
    have hcov := h.covered i o ho (hr'.trans hr)
    omega
  · intro j o ho hr
    by_cases hj : j = i
    · subst hj
      simp only [Net.perform, Function.update_self]
      rcases List.mem_append.mp ho with ho | ho
      · exact (h.covered j o ho hr).trans
          (clock_le_calls (h.offersBelow hcs) (h.below j).le)
      · exact (hnew o ho).2.2
    · simp only [Net.perform, Function.update_of_ne hj]
      rcases List.mem_append.mp ho with ho | ho
      · exact h.covered j o ho hr
      · exact absurd (hids (hr.symm.trans (hnew o ho).1)) hj
  · intro o ho
    simp only [Net.perform]
    rcases ho with ⟨j, ho⟩ | ho
    · by_cases hj : j = i
      · subst hj
        simp only [Net.perform, Function.update_self] at ho
        rcases hext.mem o ho with ho | ho | ho
        · exact List.mem_append_left _ (h.known o (.inl ⟨j, ho⟩))
        · obtain ⟨c, hc, ho⟩ := List.mem_flatMap.mp ho
          exact List.mem_append_left _ (hcs c hc o ho)
        · exact List.mem_append_right _ ho
      · simp only [Net.perform, Function.update_of_ne hj] at ho
        exact List.mem_append_left _ (h.known o (.inl ⟨j, ho⟩))
    · exact List.mem_append_left _ (h.known o (.inr ho))

theorem transfer {ι T : Type} {w : Wires T} {ids : ι → Uuid} {topic : TopicId}
    {sealKey : AeadKey} {s t : Net ι T} (h : Identified w ids topic sealKey s)
    (hlog : ∀ i, (t.engine i).log = (s.engine i).log) (ha : t.authored = s.authored)
    (hscope : ∀ i, (t.client i).topic = topic ∧ (t.client i).sealKey = sealKey)
    (hknown : ∀ o, t.Known w topic sealKey o → s.Known w topic sealKey o) :
    Identified w ids topic sealKey t where
  replicaId i := by rw [hlog]; exact h.replicaId i
  scope := hscope
  below i := by rw [hlog]; exact h.below i
  nodup := by rw [ha]; exact h.nodup
  covered i := by rw [hlog, ha]; exact h.covered i
  known o ho := by rw [ha]; exact h.known o (hknown o ho)

theorem sent {ι T : Type} {w : Wires T} {ids : ι → Uuid} {topic : TopicId} {sealKey : AeadKey}
    {s : Net ι T} (h : Identified w ids topic sealKey s) {i : ι} {d : DeltaEnvelope T}
    (hd : ∀ o ∈ d.ops, o ∈ (s.engine i).log.ops) :
    Identified w ids topic sealKey (s.sent (encodeEnvelope w.delta d)) := by
  cases he : encodeEnvelope w.delta d with
  | error err => exact h
  | ok bytes =>
    refine h.transfer (fun _ => rfl) rfl h.scope ?_
    rintro o (ho | ⟨delta, hm, d', hf, ho⟩ | ho)
    · exact .inl ho
    · rcases List.mem_append.mp hm with hm | hm
      · exact .inr (.inl ⟨delta, hm, d', hf, ho⟩)
      · obtain rfl := List.mem_singleton.mp hm
        obtain rfl := Option.some.inj (hf.symm.trans (encodeEnvelope_ok he))
        exact .inl ⟨i, hd o ho⟩
    · exact .inr (.inr ho)

theorem carried_scope {T : Type} {w : Wires T} {topic : TopicId} {sealKey : AeadKey}
    {client : SyncClient} (h : client.topic = topic ∧ client.sealKey = sealKey)
    (blob : SealedDelta) : carried w.delta w.aead client blob =
      carried w.delta w.aead (new topic sealKey) blob := by
  simp [carried, new, restore, h.1, h.2]

theorem known_of_pullCalls {ι T : Type} [DecidableEq T] {w : Wires T} {ids : ι → Uuid}
    {topic : TopicId} {sealKey : AeadKey} {s : Net ι T} (h : Identified w ids topic sealKey s)
    {i : ι} {envs : Nat → Env T} {c : Env T × Call T}
    (hc : c ∈ (s.client i).pullReportingCalls w.delta w.aead (s.engine i) s.relay envs)
    {o : SyncOp T} (ho : o ∈ c.2.entries) : o ∈ s.authored := by
  obtain ⟨blob, hb, d, hd, he⟩ := mem_pullCalls hc
  rw [he] at ho
  have hb' := List.mem_of_mem_drop hb
  rw [(h.scope i).1] at hb'
  rw [carried_scope (h.scope i)] at hd
  exact h.known o (.inr (.inr (.inl ⟨blob, hb', d, hd, ho⟩)))

theorem push {ι T : Type} [DecidableEq ι] [DecidableEq T] {w : Wires T} {ids : ι → Uuid}
    {topic : TopicId} {sealKey : AeadKey} {s : Net ι T} (h : Identified w ids topic sealKey s)
    (i : ι) (nonce : AeadNonce) :
    Identified w ids topic sealKey (s.next w ids (.push i nonce)) := by
  have hscope : ∀ watermark, ∀ j, (Function.update s.client i
      { s.client i with ownPushWatermark := watermark } j).topic = topic ∧
      (Function.update s.client i { s.client i with ownPushWatermark := watermark } j).sealKey =
        sealKey := by
    intro watermark j
    by_cases hj : j = i
    · subst hj
      simpa only [Function.update_self] using h.scope j
    · simpa only [Function.update_of_ne hj] using h.scope j
  simp only [Net.next]
  rcases push_cases w.delta w.aead (s.client i) (s.engine i) s.relay nonce with
    ⟨r, hp, _⟩ | ⟨_, _, hp⟩ | ⟨blob, n, hcar, _, hp⟩
  · rw [hp]
    exact h.transfer (fun _ => rfl) rfl (by simpa using h.scope) (fun o ho => ho)
  · rw [hp]
    exact h.transfer (fun _ => rfl) rfl (hscope _) (fun o ho => ho)
  · rw [hp]
    refine h.transfer (fun _ => rfl) rfl (hscope _) ?_
    rintro o (ho | ho | ⟨b, hb, d, hd, ho⟩ | ho)
    · exact .inl ho
    · exact .inr (.inl ho)
    · simp only [InMemoryTransport.push, (h.scope i).1, Function.update_self] at hb
      rcases List.mem_append.mp hb with hb | hb
      · exact .inr (.inr (.inl ⟨b, hb, d, hd, ho⟩))
      · obtain rfl := List.mem_singleton.mp hb
        rw [carried_scope (h.scope i)] at hcar
        obtain rfl := Option.some.inj (hd.symm.trans hcar)
        exact .inl ⟨i, ((mem_ownDeltaSince _ _ _).mp ho).1⟩
    · exact .inr (.inr (.inr ho))

section

variable {ι T : Type} [DecidableEq ι]

theorem snapshot [DecidableEq T] {w : Wires T} {ids : ι → Uuid}
    {topic : TopicId} {sealKey : AeadKey} {s : Net ι T} (h : Identified w ids topic sealKey s)
    (i : ι) : Identified w ids topic sealKey (s.next w ids (.snapshot i)) := by
  have hlog : ∀ e : SyncEngine T, e.log = (s.engine i).log →
      ∀ j, (Function.update s.engine i e j).log = (s.engine j).log := by
    intro e he j
    by_cases hj : j = i
    · subst hj
      rw [Function.update_self, he]
    · rw [Function.update_of_ne hj]
  have hm := hlog _ (SyncEngine.materialise_log (s.engine i))
  simp only [Net.next, SyncEngine.snapshot]
  cases hv : w.snapshot.toVec (s.engine i).toSnapshot with
  | none =>
    refine h.transfer hm rfl h.scope ?_
    rintro o (⟨j, ho⟩ | ho)
    · exact .inl ⟨j, by rwa [hm] at ho⟩
    · exact .inr ho
  | some bytes =>
    refine h.transfer hm rfl h.scope ?_
    rintro o (⟨j, ho⟩ | ho | ho | ⟨b, hb, snap, hs, ho⟩)
    · exact .inl ⟨j, by rwa [hm] at ho⟩
    · exact .inr (.inl ho)
    · exact .inr (.inr (.inl ho))
    · rcases List.mem_append.mp hb with hb | hb
      · exact .inr (.inr (.inr ⟨b, hb, snap, hs, ho⟩))
      · obtain rfl := List.mem_singleton.mp hb
        have hf := w.snapshot.fromSlice_toVec _ _ hv
        obtain rfl := Option.some.inj (hs.symm.trans hf)
        exact .inl ⟨i, ho⟩

theorem replaced {w : Wires T} {ids : ι → Uuid} {topic : TopicId}
    {sealKey : AeadKey} {s : Net ι T} (h : Identified w ids topic sealKey s) {i : ι}
    {r : Except SyncError (SyncEngine T)}
    (hr : ∀ e, r = .ok e → e.log.replicaId = ids i ∧ (∀ o ∈ e.log.ops, o ∈ s.authored) ∧
      ∀ o ∈ s.authored, o.replicaId = ids i → o.seq ≤ e.log.clock)
    (hlt : ∀ i', ((s.replaced i r).engine i').log.clock < u64Max) :
    Identified w ids topic sealKey (s.replaced i r) := by
  cases r with
  | error err => exact h
  | ok e =>
    obtain ⟨hid, hops, hcov⟩ := hr e rfl
    refine ⟨?_, h.scope, hlt, h.nodup, ?_, ?_⟩
    · intro j
      by_cases hj : j = i
      · subst hj
        simpa only [Net.replaced, Function.update_self] using hid
      · simpa only [Net.replaced, Function.update_of_ne hj] using h.replicaId j
    · intro j
      by_cases hj : j = i
      · subst hj
        simpa only [Net.replaced, Function.update_self] using hcov
      · simpa only [Net.replaced, Function.update_of_ne hj] using h.covered j
    · rintro o (⟨j, ho⟩ | ho)
      · by_cases hj : j = i
        · subst hj
          simp only [Net.replaced, Function.update_self] at ho
          exact hops o ho
        · simp only [Net.replaced, Function.update_of_ne hj] at ho
          exact h.known o (.inl ⟨j, ho⟩)
      · exact h.known o (.inr ho)

theorem step [DecidableEq T] {w : Wires T} {ids : ι → Uuid}
    {topic : TopicId} {sealKey : AeadKey} {s t : Net ι T} {a : NetAction ι T}
    (hids : Function.Injective ids) (h : Identified w ids topic sealKey s)
    (hs : (Net.system w ids topic sealKey).step s a t) (hres : s.Resumes w ids a) :
    Identified w ids topic sealKey t := by
  obtain ⟨⟨hallow, hlt⟩, rfl⟩ := hs
  cases a with
  | call i env c =>
    have hl := hlt i
    simp only [Net.next, Net.perform, Function.update_self] at hl
    refine h.perform hids i [(env, c)] ?_ hl
    intro c' hc' o ho
    obtain rfl := List.mem_singleton.mp hc'
    rw [show c.entries = [] from hallow] at ho
    simp at ho
  | merge i j env =>
    have hl := hlt i
    simp only [Net.next, Net.perform, Function.update_self] at hl
    refine h.perform hids i [(env, .merge (s.engine j).log)] ?_ hl
    intro c' hc' o ho
    obtain rfl := List.mem_singleton.mp hc'
    exact h.known o (.inl ⟨j, ho⟩)
  | encode i sinceSeq => exact h.sent (fun o ho => mem_deltaSince ho)
  | encodeOwn i sinceSeq => exact h.sent (fun o ho => ((mem_ownDeltaSince _ _ _).mp ho).1)
  | apply i env delta =>
    have hl := hlt i
    simp only [Net.next, Net.perform, Function.update_self, applyDelta_calls] at hl ⊢
    refine h.perform hids i _ ?_ hl
    intro c hc o ho
    obtain ⟨d, hd, he⟩ := mem_deltaCalls hc
    rw [he] at ho
    exact h.known o (.inr (.inl ⟨delta, hallow, d, hd, ho⟩))
  | push i nonce => exact h.push i nonce
  | pull i envs =>
    have hl := hlt i
    simp only [Net.next, Net.perform, Function.update_self, pullReporting_calls] at hl ⊢
    have hp := h.perform hids i
      ((s.client i).pullReportingCalls w.delta w.aead (s.engine i) s.relay envs) ?_ hl
    · refine hp.transfer (fun _ => rfl) rfl ?_ (fun o ho => ho)
      obtain ⟨cursor, hc⟩ :=
        (s.client i).pullReporting_client w.delta w.aead (s.engine i) s.relay envs
      intro j
      by_cases hj : j = i
      · subst hj
        simpa only [Function.update_self, hc] using h.scope j
      · simpa only [Function.update_of_ne hj] using h.scope j
    · intro c hc o ho
      exact h.known_of_pullCalls hc ho
  | snapshot i => exact h.snapshot i
  | restore i bytes =>
    refine h.replaced ?_ hlt
    intro e he
    obtain ⟨snap, hf, hid, rfl⟩ := restoreSnapshot_ok he
    rw [hydrate_log]
    refine ⟨hid.trans (hallow.2 snap hf), ?_, hres snap hf⟩
    exact fun o ho => h.known o (.inr (.inr (.inr ⟨bytes, hallow.1, snap, hf, ho⟩)))
  | bootstrap i bytes =>
    refine h.replaced ?_ hlt
    intro e he
    obtain ⟨snap, hf, rfl⟩ := bootstrap_ok he
    rw [hydrate_log]
    refine ⟨OpLog.absorb_replicaId _ _, ?_, ?_⟩
    · intro o ho
      simp only [bootstrapLog, OpLog.absorb_ops, OpLog.new, List.nil_append] at ho
      exact h.known o (.inr (.inr (.inr ⟨bytes, hallow, snap, hf, mem_of_mem_fresh ho⟩)))
    · intro o ho hr
      obtain ⟨p, hp, hpr, hle⟩ := hres snap hf o ho hr
      obtain ⟨q, hq, hk⟩ : ∃ q ∈ fresh SyncOp.key ∅ snap.log.ops, q.key = p.key :=
        exists_mem_fresh hp (Finset.notMem_empty _)
      obtain ⟨hqr, hqs⟩ := Prod.mk.inj hk
      have hq' : q.seq ≤ OpLog.ownClock (ids i) 0 (fresh SyncOp.key ∅ snap.log.ops) :=
        OpLog.seq_le_ownClock hq (hqr.trans hpr)
      simp only [bootstrapLog, OpLog.absorb_clock, OpLog.new]
      omega

theorem reachable [DecidableEq T] {w : Wires T} {ids : ι → Uuid}
    {topic : TopicId} {sealKey : AeadKey} (hids : Function.Injective ids) {s : Net ι T}
    (h : ((Net.system w ids topic sealKey).restrict (Net.Resumes w ids)).Reachable s) :
    Identified w ids topic sealKey s := by
  refine h.invariant (Identified w ids topic sealKey) ?_ ?_
  · rintro s ⟨policies, hs⟩
    exact initial hs
  · intro s a t _ hi hs
    exact hi.step hids hs.1 hs.2

end

theorem eq_of_key_eq {ι T : Type} {w : Wires T} {ids : ι → Uuid} {topic : TopicId}
    {sealKey : AeadKey} {s : Net ι T} (h : Identified w ids topic sealKey s) {o p : SyncOp T}
    (ho : o ∈ s.authored) (hp : p ∈ s.authored) (hk : o.key = p.key) : o = p :=
  List.inj_on_of_nodup_map h.nodup ho hp hk

end Identified

/-- In every run whose restores and bootstraps resume past what the replica authored, each
authored op has a key no other op has, and every op found anywhere is an authored one. -/
theorem op_identity {ι T : Type} [DecidableEq ι] [DecidableEq T] (w : Wires T)
    (ids : ι → Uuid) (topic : TopicId) (sealKey : AeadKey) (hids : Function.Injective ids)
    (s : Net ι T)
    (h : ((Net.system w ids topic sealKey).restrict (Net.Resumes w ids)).Reachable s) :
    (s.authored.map SyncOp.key).Nodup ∧
      (∀ o ∈ s.authored, ∀ p ∈ s.authored, o.key = p.key → o = p) ∧
      ∀ o, s.Known w topic sealKey o → o ∈ s.authored := by
  have hi := Identified.reachable hids h
  exact ⟨hi.nodup, fun o ho p hp => hi.eq_of_key_eq ho hp, hi.known⟩

/-! ## A replica that comes back too early

Three replicas. Replica 1 adds 5, replicas 0 and 2 merge it, replica 0 compacts, and
replica 1 bootstraps from the snapshot of replica 0 under its own id. -/

namespace Comeback

def left : Fin 3 := 0

def right : Fin 3 := 1

def ids : Fin 3 → Uuid := fun i => BitVec.ofNat 128 i

theorem ids_injective : Function.Injective ids := by
  intro i j
  revert i j
  decide +kernel

def start : Net (Fin 3) Nat :=
  ⟨fun i => (SyncEngine.withReplicaId (ids i)).withCompactionPolicy .default,
    fun _ => SyncClient.new 0 0, InMemoryTransport.new, [], [], []⟩

theorem start_initial : start.Initial ids 0 0 (fun _ => .default) :=
  ⟨fun _ => rfl, fun _ => rfl, rfl, rfl, rfl, rfl⟩

def compacted : EngineSnapshot Nat :=
  ⟨0, ⟨0, 1, 1, [⟨0, 1, 0, .add 5 9⟩]⟩, ⟨{(5, 9)}, ∅⟩, [], none⟩

def compactedText : String :=
  "\x7b\"replica_id\":\"00000000-0000-0000-0000-000000000000\",\"log\":\x7b\"replica_id\":" ++
  "\"00000000-0000-0000-0000-000000000000\",\"clock\":1,\"compaction_epoch\":1,\"ops\":[" ++
  "\x7b\"replica_id\":\"00000000-0000-0000-0000-000000000000\",\"seq\":1,\"created_at\":" ++
  "\"1970-01-01T00:00:00Z\",\"op\":\x7b\"kind\":\"add\",\"value\":5,\"tag\":" ++
  "\"00000000-0000-0000-0000-000000000009\"\x7d\x7d]\x7d,\"set\":\x7b\"elements\":\x7b\"5\":" ++
  "[\"00000000-0000-0000-0000-000000000009\"]\x7d,\"tombstones\":[]\x7d,\"supersessions\":[]\x7d"

def wires : Wires Nat := ⟨.emptyDelta, .single compacted compactedText, .tagged⟩

def actions : List (NetAction (Fin 3) Nat) :=
  [.call 1 .atEpoch (.add 5 9), .merge 0 1 .atEpoch, .merge 2 1 .atEpoch,
    .call 0 .atEpoch .compact, .snapshot 0, .bootstrap 1 compactedText.toUTF8.data.toList,
    .call 1 .atEpoch (.add 6 10)]

def finish : Net (Fin 3) Nat := actions.foldl (Net.next wires ids) start

/-- Replica 0 restores its own last snapshot, and replica 2, which authored nothing yet,
bootstraps from it. -/
def orderly : List (NetAction (Fin 3) Nat) :=
  [.call 1 .atEpoch (.add 5 9), .merge 0 1 .atEpoch, .call 0 .atEpoch .compact, .snapshot 0,
    .restore 0 compactedText.toUTF8.data.toList, .call 0 .atEpoch (.add 6 10),
    .bootstrap 2 compactedText.toUTF8.data.toList, .call 2 .atEpoch (.add 7 11)]

def orderlyFinish : Net (Fin 3) Nat := orderly.foldl (Net.next wires ids) start

theorem orderly_reachable :
    ((Net.system wires ids 0 0).restrict (Net.Resumes wires ids)).Reachable orderlyFinish := by
  have hlegal : Legal (fun s a => Net.Guard wires ids s a ∧ Net.Resumes wires ids s a)
      (Net.next wires ids) start orderly := by decide +kernel
  exact hlegal.reachable_restrict (.init ⟨_, start_initial⟩)

end Comeback

open Comeback

theorem op_identity_orderly :
    Function.Injective ids ∧
      ((Net.system wires ids 0 0).restrict
        (Net.Resumes wires ids)).Reachable orderlyFinish ∧
      orderlyFinish.authored.map SyncOp.key = [(1, 1), (0, 1), (0, 2), (2, 1)] ∧
      (orderlyFinish.authored.map SyncOp.key).Nodup :=
  ⟨ids_injective, orderly_reachable, by decide +kernel,
    (op_identity wires ids 0 0 ids_injective _
      orderly_reachable).1⟩

/-- Replica 1 authors `Add 6` under the key that `Add 5` still has at replica 2. -/
theorem bootstrap_reuses_key :
    (Net.system wires ids 0 0).Reachable finish ∧
      ¬ (finish.authored.map SyncOp.key).Nodup ∧
      (⟨1, 1, 0, .add 6 10⟩ : SyncOp Nat) ∈ (finish.engine 1).log.ops ∧
      (⟨1, 1, 0, .add 5 9⟩ : SyncOp Nat) ∈ (finish.engine 2).log.ops := by
  refine ⟨?_, by decide +kernel, by decide +kernel, by decide +kernel⟩
  have hlegal : Legal (Net.Guard wires ids)
      (Net.next wires ids) start actions := by decide +kernel
  exact hlegal.reachable (.init ⟨_, start_initial⟩)

end Knowledge.Sync
