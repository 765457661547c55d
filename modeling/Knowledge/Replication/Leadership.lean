import Knowledge.Replication.Cluster

/-!
What the election loop keeps true of a node at all times, and when no two nodes of a
cluster are writable at once.
-/

set_option autoImplicit false

namespace Knowledge.Replication
open Knowledge.Splice Knowledge.Transition

def RoleTask.role : RoleTask → Role
  | .primary _ _ => .primary
  | .standby _ _ => .standby

def Phase.runs : Phase → Bool
  | .idle => true
  | .elected _ => true
  | _ => false

def Phase.isSwitched : Phase → Bool
  | .switched _ => true
  | _ => false

def Phase.goal : Phase → Option Role
  | .elected want => some want
  | .stopped want => some want
  | .switched effective => some effective
  | _ => none

structure Node.Shape (n : Node) : Prop where
  role : n.shared.role = n.currentRole
  enabled : n.currentRole ≠ .disabled
  goal : n.phase.goal ≠ some .disabled
  change : n.phase.isSwitched = false → n.phase.goal ≠ some n.currentRole
  task : n.task.map RoleTask.role = if n.phase.runs then some n.currentRole else none
  journal : n.currentRole = .primary → n.phase.isSwitched = false → n.store.journal = .wal
  switched : n.phase = .switched .primary → n.store.journal = .wal
  promoted : n.phase = .switched .primary → n.currentRole ≠ .primary

namespace Node

theorem Shape.boot (file : Bytes) (journal : JournalMode) : (Node.boot file journal).Shape :=
  ⟨rfl, by simp [Node.boot], by simp [Node.boot, Phase.goal], by simp [Node.boot, Phase.goal],
    rfl, by simp [Node.boot], by simp [Node.boot], by simp [Node.boot]⟩

theorem Shape.standby {n : Node} (h : n.Shape) {cursor : StandbyCursor} {next : Nat}
    (ht : n.task = some (.standby cursor next)) : n.currentRole = .standby := by
  have htask := h.task
  rw [ht] at htask
  split at htask
  · exact (Option.some.inj htask).symm
  · cases htask

theorem Shape.running {n : Node} (h : n.Shape) (hp : n.phase.runs = true) :
    (∃ shipper inflight, n.currentRole = .primary ∧ n.task = some (.primary shipper inflight)) ∨
    ∃ cursor next, n.currentRole = .standby ∧ n.task = some (.standby cursor next) := by
  have htask := h.task
  rw [if_pos hp] at htask
  cases ht : n.task with
  | none =>
    rw [ht] at htask
    cases htask
  | some task =>
    rw [ht] at htask
    have hrole : task.role = n.currentRole := Option.some.inj htask
    cases task with
    | primary shipper inflight => exact .inl ⟨shipper, inflight, hrole.symm, rfl⟩
    | standby cursor next => exact .inr ⟨cursor, next, hrole.symm, rfl⟩

/-- Nothing the election loop looks at differs. -/
structure Keeps (n m : Node) : Prop where
  up : m.up = n.up
  role : m.shared.role = n.shared.role
  phase : m.phase = n.phase
  currentRole : m.currentRole = n.currentRole
  task : m.task.map RoleTask.role = n.task.map RoleTask.role
  journal : m.store.journal = n.store.journal

theorem Keeps.refl (n : Node) : n.Keeps n := ⟨rfl, rfl, rfl, rfl, rfl, rfl⟩

theorem Keeps.shape {n m : Node} (k : n.Keeps m) (h : n.Shape) : m.Shape := by
  refine ⟨?_, ?_, ?_, ?_, ?_, ?_, ?_, ?_⟩
  · rw [k.role, k.currentRole, h.role]
  · rw [k.currentRole]
    exact h.enabled
  · rw [k.phase]
    exact h.goal
  · rw [k.phase, k.currentRole]
    exact h.change
  · rw [k.phase, k.currentRole, k.task]
    exact h.task
  · rw [k.phase, k.currentRole, k.journal]
    exact h.journal
  · rw [k.phase, k.journal]
    exact h.switched
  · rw [k.phase, k.currentRole]
    exact h.promoted

theorem checkpoint_journal (store : Store) : store.checkpoint.journal = store.journal := by
  unfold Store.checkpoint
  split <;> rfl

theorem commit_journal (store : Store) (header : WalHeader) (frames : List WalFrame) :
    (store.commit header frames).journal = store.journal := by
  unfold Store.commit
  split
  · split <;> rfl
  · rfl

theorem drainWal_journal (store : Store) : store.drainWal.2.journal = store.journal := by
  unfold Store.drainWal
  split
  · rfl
  · exact checkpoint_journal store

theorem enter_shared_role (r : StandbyReplicator) (now : Int) (io : ApplyIo)
    (segment : WalSegment) :
    (r.applySegment now io segment).2.shared.role = r.shared.role := by
  have hshared := (r.enter_rest segment.salts).2.2.1
  obtain ⟨-, heq⟩ | ⟨-, _, _, _, -, heq⟩ | ⟨-, _, heq⟩ := r.applySegment_cases now io segment
  · rw [heq]
    rfl
  · rw [heq]
    exact congrArg ReplicationShared.role hshared
  · rw [heq]
    rfl

theorem request_keeps (n : Node) : n.Keeps n.request := by
  unfold request
  split
  · exact ⟨rfl, rfl, rfl, rfl, rfl, rfl⟩
  · exact .refl n

theorem write_keeps (pageSize : UInt32) (n : Node) (header : WalHeader) (frames : List WalFrame) :
    n.Keeps (n.write pageSize header frames) := by
  unfold write
  split
  · exact ⟨rfl, rfl, rfl, rfl, rfl, commit_journal n.store header frames⟩
  · exact .refl n

theorem drain_keeps (n : Node) : n.Keeps n.drain := by
  unfold drain
  split
  · rename_i shipper htask
    have hj := drainWal_journal n.store
    split
    · exact .refl n
    · rename_i bytes store hne hd
      rw [hd] at hj
      split
      · exact ⟨rfl, rfl, rfl, rfl, by rw [htask]; rfl, hj⟩
      · exact ⟨rfl, rfl, rfl, rfl, by rw [htask]; rfl, hj⟩
  · exact .refl n

theorem publish_keeps (bus : WalBus) (n : Node) (answer : ReplResult Unit) :
    n.Keeps (n.publish bus answer).2 := by
  unfold publish
  split
  · rename_i shipper segment htask
    split
    · exact ⟨rfl, rfl, rfl, rfl, by rw [htask]; rfl, rfl⟩
    · exact ⟨rfl, rfl, rfl, rfl, by rw [htask]; rfl, rfl⟩
  · exact .refl n

theorem poll_keeps (now : Int) (bus : WalBus) (n : Node) (io : ApplyIo) :
    n.Keeps (n.poll now bus io) := by
  unfold poll
  split
  · rename_i cursor k htask
    split
    · exact .refl n
    · rename_i segment hseg
      exact ⟨rfl, enter_shared_role (n.replicator cursor) now io segment, rfl, rfl,
        by rw [htask]; rfl, rfl⟩
  · exact .refl n

theorem lagTick_keeps (bus : WalBus) (n : Node) : n.Keeps (n.lagTick bus) := by
  unfold lagTick
  split
  · exact ⟨rfl, rfl, rfl, rfl, rfl, rfl⟩
  · exact .refl n

def wanted {ι : Type} [DecidableEq ι] (cfg : Config ι) (i : ι) (now : Int)
    (lease : InMemoryLeaseStore ι) : Role :=
  if (lease.acquire now i (cfg.leaseTtlMs i)).1.holder = i then .primary else .standby

theorem elect_cases {ι : Type} [DecidableEq ι] (cfg : Config ι) (i : ι) (now : Int)
    (lease : InMemoryLeaseStore ι) (n : Node) (answer : ReplResult Unit) :
    n.elect cfg i now lease answer = (lease, n) ∨
    (n.phase = .idle ∧ answer = .ok () ∧ n.elect cfg i now lease answer =
      ((lease.acquire now i (cfg.leaseTtlMs i)).2, { n with
        shared := n.shared.setEpoch (lease.acquire now i (cfg.leaseTtlMs i)).1.epoch
        phase := if wanted cfg i now lease = n.currentRole then .idle
          else .elected (wanted cfg i now lease) })) := by
  unfold Node.elect electOnce
  by_cases hp : n.phase = .idle
  · rw [if_pos hp]
    cases answer with
    | error e => exact .inl rfl
    | ok u =>
      refine .inr ⟨hp, rfl, ?_⟩
      by_cases hw : wanted cfg i now lease = n.currentRole
      · rw [if_pos hw]
        unfold wanted at hw
        simp only [hw, ne_eq, not_true_eq_false, if_false, hp]
      · rw [if_neg hw]
        unfold wanted at hw ⊢
        simp only [ne_eq, hw, not_false_eq_true, if_true]
  · exact .inl (if_neg hp)

theorem Shape.elect {ι : Type} [DecidableEq ι] {n : Node} (h : n.Shape) (cfg : Config ι) (i : ι)
    (now : Int) (lease : InMemoryLeaseStore ι) (answer : ReplResult Unit) :
    (n.elect cfg i now lease answer).2.Shape := by
  obtain heq | ⟨hp, -, heq⟩ := elect_cases cfg i now lease n answer
  · rw [heq]
    exact h
  · rw [heq]
    obtain ⟨hrole, henabled, -, -, htask, hjournal, -, -⟩ := h
    have hwanted : wanted cfg i now lease ≠ .disabled := by
      unfold wanted
      split <;> simp
    split_ifs with hw <;> constructor <;>
      simp_all [ReplicationShared.setEpoch, Phase.goal, Phase.runs, Phase.isSwitched]

theorem Shape.stop {n : Node} (h : n.Shape) : n.stop.Shape := by
  unfold Node.stop
  split
  · split
    · exact h
    · obtain ⟨hrole, henabled, hgoal, hchange, htask, hjournal, hswitched, hpromoted⟩ := h
      constructor <;> simp_all [Phase.goal, Phase.runs, Phase.isSwitched]
  · exact h

theorem setStoreJournalFor_primary {stamp : HeaderStamp} {store store' : Store} {p : Pragmas}
    (h : setStoreJournalFor stamp store .primary p = (.ok (), store')) :
    store' = store.enterMode stamp .wal := by
  unfold setStoreJournalFor storeSetJournalWal at h
  cases hj : p.journal with
  | error e => simp [hj] at h
  | ok mode =>
    cases hc : p.checkpoint with
    | some e => simp [hj, hc] at h
    | none =>
      simp only [hj, hc] at h
      split at h
      · simp at h
      · rename_i hm
        rw [not_not.mp hm] at h
        exact (Prod.mk.inj h).2.symm

theorem Shape.switchJournal {n : Node} (h : n.Shape) (stamp : HeaderStamp)
    (first second : Pragmas) : (n.switchJournal stamp first second).Shape := by
  unfold Node.switchJournal
  split
  · rename_i want hp
    obtain ⟨hrole, henabled, hgoal, hchange, htask, -, -, -⟩ := h
    cases hs : setStoreJournalFor stamp n.store want first with
    | mk result store =>
      cases result with
      | error e =>
        constructor <;> simp_all [Phase.goal, Phase.runs, Phase.isSwitched]
      | ok u =>
        constructor <;> simp_all [Phase.goal, Phase.runs, Phase.isSwitched]
        · intro hw
          rw [hw] at hs
          rw [setStoreJournalFor_primary hs]
          rfl
        · rintro rfl hr
          exact hchange hr.symm
  · exact h

theorem Shape.setRole {n : Node} (h : n.Shape) : n.setRole.Shape := by
  unfold Node.setRole
  split
  · rename_i effective hp
    obtain ⟨-, -, hgoal, -, -, -, hswitched, -⟩ := h
    cases effective <;> constructor <;>
      simp_all [ReplicationShared.setRole, Phase.goal, Phase.runs, Phase.isSwitched, spawnRole,
        RoleTask.role]
  · exact h

theorem Shape.shutdown {n : Node} (h : n.Shape) : n.shutdown.Shape := by
  unfold Node.shutdown
  obtain ⟨hrole, henabled, hgoal, hchange, htask, hjournal, hswitched, hpromoted⟩ := h
  split
  · rename_i hp
    cases ht : n.task with
    | none => simp [ht, hp.1, Phase.runs] at htask
    | some task =>
      cases task <;> constructor <;> simp_all [Phase.goal, Phase.runs, Phase.isSwitched]
  · exact ⟨hrole, henabled, hgoal, hchange, htask, hjournal, hswitched, hpromoted⟩

theorem Shape.release {ι : Type} [DecidableEq ι] {n : Node} (h : n.Shape) (i : ι)
    (lease : InMemoryLeaseStore ι) (answer : ReplResult Unit) :
    (n.release i lease answer).2.Shape := by
  unfold Node.release
  split
  · obtain ⟨hrole, henabled, hgoal, hchange, htask, hjournal, hswitched, hpromoted⟩ := h
    constructor <;> simp_all [Phase.goal, Phase.runs, Phase.isSwitched]
  · exact h

theorem Shape.down {n : Node} (h : n.Shape) : { n with up := false }.Shape :=
  ⟨h.role, h.enabled, h.goal, h.change, h.task, h.journal, h.switched, h.promoted⟩

theorem Shape.step {ι : Type} [DecidableEq ι] {n : Node} (h : n.Shape) (cfg : Config ι) (i : ι)
    (now : Int) (lease : InMemoryLeaseStore ι) (bus : WalBus) (event : Event) :
    (n.step cfg i now lease bus event).node.Shape := by
  cases event with
  | elect answer => exact h.elect cfg i now lease answer
  | stop => exact h.stop
  | switchJournal first second => exact h.switchJournal cfg.stamp first second
  | setRole => exact h.setRole
  | shutdown => exact h.shutdown
  | release answer => exact h.release i lease answer
  | exit =>
    simp only [Node.step, exit]
    split
    · exact h.down
    · exact h
  | crash => exact h.down
  | request => exact n.request_keeps.shape h
  | write header frames => exact (n.write_keeps cfg.pageSize header frames).shape h
  | drain => exact n.drain_keeps.shape h
  | publish answer => exact (n.publish_keeps bus answer).shape h
  | poll io => exact (n.poll_keeps now bus io).shape h
  | lagTick => exact (n.lagTick_keeps bus).shape h

end Node

namespace Cluster

theorem next_node {ι : Type} [DecidableEq ι] (cfg : Config ι) (s : Cluster ι) (i : ι)
    (event : Event) (hup : (s.node i).up = true) (j : ι) :
    (s.next cfg (.node i event)).node j =
      if j = i then ((s.node i).step cfg i s.now s.lease s.bus event).node else s.node j := by
  simp only [next, hup, if_true, Function.update_apply]

theorem shape_of_reachable {ι : Type} [DecidableEq ι] {cfg : Config ι} {file : ι → Bytes}
    {s : Cluster ι} (h : (system cfg file).Reachable s) (j : ι) : (s.node j).Shape := by
  refine h.invariant (fun s => ∀ j, (s.node j).Shape) ?_ ?_ j
  · rintro _ ⟨now, journal, -, rfl⟩ j
    exact Node.Shape.boot (file j) (journal j)
  · rintro s act _ - hs ⟨-, rfl⟩ j
    cases act with
    | advance ms => exact hs j
    | node i event =>
      by_cases hup : (s.node i).up = true
      · rw [next_node cfg s i event hup]
        split
        · exact (hs i).step cfg i s.now s.lease s.bus event
        · exact hs j
      · rw [next, if_neg hup]
        exact hs j

end Cluster

/-- The node is primary or on its way to become it. -/
def Node.Claims (n : Node) : Prop :=
  n.up = true ∧ (n.currentRole = .primary ∨ n.phase.goal = some .primary)

instance (n : Node) : Decidable n.Claims := inferInstanceAs (Decidable (_ ∧ _))

namespace Node

theorem Keeps.claims {n m : Node} (k : n.Keeps m) (h : m.Claims) : n.Claims := by
  unfold Claims at h ⊢
  rwa [k.up, k.currentRole, k.phase] at h

theorem claims_stop {n : Node} (h : n.stop.Claims) : n.Claims := by
  unfold stop at h
  split at h
  · rename_i hp
    split at h
    · exact h
    · simpa [Claims, Phase.goal, hp] using h
  · exact h

theorem claims_switchJournal {stamp : HeaderStamp} {n : Node} {first second : Pragmas}
    (h : (n.switchJournal stamp first second).Claims) : n.Claims := by
  unfold switchJournal at h
  split at h
  · rename_i want hp
    cases hs : setStoreJournalFor stamp n.store want first with
    | mk result store =>
      cases result with
      | error e =>
        rw [hs] at h
        obtain ⟨hup, hrole | hgoal⟩ := h
        · exact ⟨hup, .inl hrole⟩
        · simp [Phase.goal] at hgoal
      | ok u =>
        rw [hs] at h
        simpa [Claims, Phase.goal, hp] using h
  · exact h

theorem claims_setRole {n : Node} (h : n.setRole.Claims) : n.Claims := by
  unfold setRole at h
  split at h
  · rename_i effective hp
    obtain ⟨hup, hrole | hgoal⟩ := h
    · refine ⟨hup, .inr ?_⟩
      rw [hp]
      exact congrArg some hrole
    · simp [Phase.goal] at hgoal
  · exact h

theorem claims_shutdown {n : Node} (h : n.shutdown.Claims) : n.Claims := by
  unfold shutdown at h
  split at h
  · split at h <;> exact ⟨h.1, h.2.elim .inl (fun hgoal => by simp [Phase.goal] at hgoal)⟩
  · exact h

theorem claims_release {ι : Type} [DecidableEq ι] {i : ι} {lease : InMemoryLeaseStore ι}
    {n : Node} {answer : ReplResult Unit} (h : (n.release i lease answer).2.Claims) :
    n.Claims := by
  unfold release at h
  split at h
  · exact ⟨h.1, h.2.elim .inl (fun hgoal => by simp [Phase.goal] at hgoal)⟩
  · exact h

theorem claims_step {ι : Type} [DecidableEq ι] {cfg : Config ι} {i : ι} {now : Int}
    {lease : InMemoryLeaseStore ι} {bus : WalBus} {n : Node} {event : Event}
    (h : (n.step cfg i now lease bus event).node.Claims) :
    n.Claims ∨ event = .elect (.ok ()) ∧ wanted cfg i now lease = .primary := by
  cases event with
  | elect answer =>
    simp only [step] at h
    obtain heq | ⟨hp, ha, heq⟩ := elect_cases cfg i now lease n answer
    · rw [heq] at h
      exact .inl h
    · rw [heq] at h
      obtain ⟨hup, hrole | hgoal⟩ := h
      · exact .inl ⟨hup, .inl hrole⟩
      · refine .inr ⟨congrArg Event.elect ha, ?_⟩
        simp only at hgoal
        split at hgoal
        · simp [Phase.goal] at hgoal
        · exact Option.some.inj hgoal
  | stop => exact .inl (claims_stop h)
  | switchJournal first second => exact .inl (claims_switchJournal h)
  | setRole => exact .inl (claims_setRole h)
  | shutdown => exact .inl (claims_shutdown h)
  | release answer => exact .inl (claims_release h)
  | exit =>
    simp only [step, exit] at h
    split at h
    · cases h.1
    · exact .inl h
  | crash => cases h.1
  | request => exact .inl (n.request_keeps.claims h)
  | write header frames => exact .inl ((n.write_keeps cfg.pageSize header frames).claims h)
  | drain => exact .inl (n.drain_keeps.claims h)
  | publish answer => exact .inl ((n.publish_keeps bus answer).claims h)
  | poll io => exact .inl ((n.poll_keeps now bus io).claims h)
  | lagTick => exact .inl ((n.lagTick_keeps bus).claims h)

end Node

namespace Cluster

/-- Another node's acquire reaches the lease store only while the lease of a node that is
primary, or on its way there, is in force. -/
def LeaseInForce {ι : Type} (s : Cluster ι) : ClusterAct ι → Prop
  | .node i (.elect (.ok ())) => ∀ j, j ≠ i → (s.node j).Claims →
    (s.lease.current s.now).map Lease.holder = some j
  | _ => True

theorem wanted_of_inForce {ι : Type} [DecidableEq ι] {cfg : Config ι} {i j : ι} {now : Int}
    {lease : InMemoryLeaseStore ι} (h : (lease.current now).map Lease.holder = some j)
    (hw : Node.wanted cfg i now lease = .primary) : j = i := by
  obtain ⟨l, hl, rfl⟩ := Option.map_eq_some_iff.mp h
  obtain ⟨hl, ht⟩ := Option.filter_eq_some_iff.mp hl
  obtain ⟨-, -, hmine⟩ | ⟨l', -, hne, -, heq⟩ := lease.acquire_cases now i (cfg.leaseTtlMs i)
  · exact hmine l hl (of_decide_eq_true ht)
  · rw [Node.wanted, heq, if_neg hne] at hw
    cases hw

theorem claims_unique {ι : Type} [DecidableEq ι] {cfg : Config ι} {file : ι → Bytes}
    {s : Cluster ι} (h : ((system cfg file).restrict LeaseInForce).Reachable s) :
    ∀ i j, (s.node i).Claims → (s.node j).Claims → i = j := by
  refine h.invariant (fun s => ∀ i j, (s.node i).Claims → (s.node j).Claims → i = j) ?_ ?_
  · rintro _ ⟨now, journal, -, rfl⟩ i j hi
    obtain ⟨-, hrole | hgoal⟩ := hi
    · simp [boot, Node.boot] at hrole
    · simp [boot, Node.boot, Phase.goal] at hgoal
  · rintro s act _ - hs ⟨⟨-, rfl⟩, hc⟩
    cases act with
    | advance ms => exact hs
    | node k event =>
      by_cases hup : (s.node k).up = true
      · -- whoever claims after the step claimed before, or has just won the lease
        have hold : ∀ i, ((s.next cfg (.node k event)).node i).Claims → (s.node i).Claims ∨
            i = k ∧ event = .elect (.ok ()) ∧ Node.wanted cfg k s.now s.lease = .primary := by
          intro i hi
          rw [next_node cfg s k event hup] at hi
          split at hi
          · rename_i hik
            obtain hi | hi := Node.claims_step hi
            · exact .inl (hik ▸ hi)
            · exact .inr ⟨hik, hi⟩
          · exact .inl hi
        have hwin : ∀ j, (s.node j).Claims → event = .elect (.ok ()) →
            Node.wanted cfg k s.now s.lease = .primary → j = k := by
          rintro j hj rfl hw
          by_contra hjk
          exact hjk (wanted_of_inForce (hc j hjk hj) hw)
        intro i j hi hj
        obtain hbi | ⟨hik, he, hw⟩ := hold i hi
        · obtain hbj | ⟨hjk, he, hw⟩ := hold j hj
          · exact hs i j hbi hbj
          · exact (hwin i hbi he hw).trans hjk.symm
        · obtain hbj | ⟨hjk, -⟩ := hold j hj
          · exact hik.trans (hwin j hbj he hw).symm
          · exact hik.trans hjk.symm
      · rw [next, if_neg hup]
        exact hs

end Cluster

theorem writable_iff_primary {n : Node} (h : n.Shape) :
    ensureWritable n.shared = .ok () ↔ n.shared.role = .primary := by
  have := h.enabled
  rw [← h.role] at this
  unfold ensureWritable ReplicationShared.isWritable
  split <;> simp_all

theorem one_writable_node {ι : Type} [DecidableEq ι] {cfg : Config ι} {file : ι → Bytes}
    {s : Cluster ι} (h : ((Cluster.system cfg file).restrict Cluster.LeaseInForce).Reachable s)
    (i j : ι) (hi : (s.node i).up = true) (hj : (s.node j).up = true) :
    ((s.node i).shared.role = .primary → (s.node j).shared.role = .primary → i = j) ∧
    (ensureWritable (s.node i).shared = .ok () → ensureWritable (s.node j).shared = .ok () →
      i = j) := by
  have hshape := Cluster.shape_of_reachable h.of_restrict
  have hone : (s.node i).shared.role = .primary → (s.node j).shared.role = .primary → i = j := by
    intro hri hrj
    rw [(hshape i).role] at hri
    rw [(hshape j).role] at hrj
    exact Cluster.claims_unique h i j ⟨hi, .inl hri⟩ ⟨hj, .inl hrj⟩
  refine ⟨hone, fun hwi hwj => ?_⟩
  exact hone ((writable_iff_primary (hshape i)).mp hwi) ((writable_iff_primary (hshape j)).mp hwj)

/-- Stores of the real page size and the real lease lifetime; a journal switch leaves the
file alone. -/
def sampleConfig : Config Bool := ⟨4096, by decide, fun _ => 15000, fun _ _ file => file⟩

def promotion (i : Bool) : List (ClusterAct Bool) :=
  [.node i (.elect (.ok ())), .node i .stop,
    .node i (.switchJournal ⟨none, .ok .wal⟩ ⟨none, .ok .delete⟩), .node i .setRole]

def sampleBoot : Cluster Bool := .boot 0 (fun _ => []) (fun _ => .delete)

def samplePromoted : Cluster Bool :=
  (promotion true).foldl (Cluster.next sampleConfig) sampleBoot

theorem one_writable_node_promoted :
    ((Cluster.system sampleConfig (fun _ => [])).restrict Cluster.LeaseInForce).Reachable
      samplePromoted ∧
    (samplePromoted.node true).shared.role = .primary ∧
    ∀ i, (samplePromoted.node i).up = true →
      ensureWritable (samplePromoted.node i).shared = .ok () → i = true := by
  have hr : ((Cluster.system sampleConfig (fun _ => [])).restrict
      Cluster.LeaseInForce).Reachable samplePromoted := by
    refine Legal.reachable_restrict ?_ (.init ⟨0, fun _ => .delete, by simp, rfl⟩)
    refine ⟨⟨trivial, ?_⟩, ⟨trivial, trivial⟩, ⟨trivial, trivial⟩, ⟨trivial, trivial⟩, trivial⟩
    intro j _ hj
    exact absurd hj (by cases j <;> decide)
  refine ⟨hr, by decide, fun i hi hw => ?_⟩
  exact (one_writable_node hr i true hi (by decide)).2 hw (by decide)

/-- The first primary is late for its renewal, the lease runs out, and the other node takes
it: both serve as primary until the first one's next tick. -/
theorem two_writable_nodes :
    let s := (promotion true ++ [ClusterAct.advance 15000] ++ promotion false).foldl
      (Cluster.next sampleConfig) sampleBoot
    (Cluster.system sampleConfig (fun _ => [])).Reachable s ∧
      ∀ i, (s.node i).up = true ∧ (s.node i).shared.role = .primary ∧
        ensureWritable (s.node i).shared = .ok () := by
  refine ⟨Legal.reachable ?_ (.init ⟨0, fun _ => .delete, by simp, rfl⟩), by decide⟩
  simp [Legal, promotion]

end Knowledge.Replication
