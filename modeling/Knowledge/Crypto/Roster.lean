import Knowledge.Crypto.Mls
import Knowledge.Lib.Tally

/-!
A group with its members, its commits and its welcomes in flight. The epoch secret follows from
the epoch alone, so it says nothing about the roster; the rosters agree where the members
accept the same commit for each epoch.
-/

set_option autoImplicit false

namespace Knowledge.Crypto
open Knowledge.Transition
open MlsGroup

/-- Each member's own state of the group, and what may be delivered to any of them, in any
order, more than once or never. -/
structure MlsNet (K Sig : Type) where
  parties : List (MlsGroup K)
  commits : List (MlsCommit Sig)
  welcomes : List (MlsWelcome K)

open MlsNet

inductive MlsAct where
  | addMember (i : Nat) (committedBy : MlsMemberId) (leaf : LeafKeyPackage) (now : Int)
  | removeMember (i : Nat) (committedBy removed : MlsMemberId) (now : Int)
  | processCommit (i j : Nat)
  | buildWelcome (i : Nat) (added : MlsMemberId)
  | processWelcome (j : Nat) (initKey : HybridPublicKey)
  | installLeaf (i : Nat) (leaf : LeafKeyPackage)

structure Genesis (K : Type) where
  groupId : MlsGroupId
  creator : MlsMemberId
  leaf : LeafKeyPackage
  initialRatchet : K

section

variable {K Sig : Type} (hkdf : Hkdf K) (signer : SignerBackend Sig)

def grow {T ε : Type} (l : List T) : Except ε T → List T
  | .ok x => l ++ [x]
  | .error _ => l

def replace {T ε : Type} (l : List T) (i : Nat) : Except ε T → List T
  | .ok x => l.set i x
  | .error _ => l

def MlsNet.withParty (s : MlsNet K Sig) (i : Nat) (f : MlsGroup K → MlsNet K Sig) : MlsNet K Sig :=
  match s.parties[i]? with
  | some g => f g
  | none => s

def MlsNet.next (s : MlsNet K Sig) : MlsAct → MlsNet K Sig
  | .addMember i committedBy leaf now => s.withParty i fun g =>
    { s with commits := grow s.commits (g.addMember signer committedBy leaf now) }
  | .removeMember i committedBy removed now => s.withParty i fun g =>
    { s with commits := grow s.commits (g.removeMember signer committedBy removed now) }
  | .processCommit i j => s.withParty i fun g =>
    match s.commits[j]? with
    | some c => { s with parties := replace s.parties i (g.processCommit hkdf signer c) }
    | none => s
  | .buildWelcome i added => s.withParty i fun g =>
    { s with welcomes := grow s.welcomes (g.buildWelcome added) }
  | .processWelcome j initKey =>
    match s.welcomes[j]? with
    | some w => { s with parties := grow s.parties (MlsGroup.processWelcome hkdf w initKey) }
    | none => s
  | .installLeaf i leaf => s.withParty i fun g =>
    { s with parties := s.parties.set i (g.installLeaf leaf) }

def MlsNet.enabled (s : MlsNet K Sig) : MlsAct → Prop
  | .installLeaf i leaf => ∀ g ∈ s.parties[i]?, g.contains leaf.memberId = true
  | _ => True

def mls (genesis : Genesis K) : System (MlsNet K Sig) MlsAct :=
  .ofNext
    (fun s => ∃ now, s = ⟨[(MlsGroup.create hkdf signer genesis.groupId genesis.creator
      genesis.leaf genesis.initialRatchet now).1], [], []⟩)
    MlsNet.enabled (MlsNet.next hkdf signer)

def chain (genesis : Genesis K) : MlsEpoch → K × K
  | 0 => ratchetEpoch hkdf genesis.initialRatchet genesis.groupId 0
  | e+1 => ratchetEpoch hkdf (chain genesis e).2 genesis.groupId (e+1)

structure Keyed (genesis : Genesis K) (g : MlsGroup K) : Prop where
  groupId : g.groupId = genesis.groupId
  schedule : g.schedule = deriveSchedule hkdf genesis.groupId g.epoch (chain hkdf genesis g.epoch).1
  ratchet : g.ratchet = (chain hkdf genesis g.epoch).2

structure KeyedWelcome (genesis : Genesis K) (w : MlsWelcome K) : Prop where
  groupId : w.groupId = genesis.groupId
  plain : w.encryptedEpochSecret.plain = chain hkdf genesis w.epoch

/-- Every commit that is accepted for an epoch carries the operation chosen for it. -/
def Ordered (chosen : MlsEpoch → CommitOperation) (s : MlsNet K Sig) : MlsAct → Prop
  | .processCommit i j => ∀ g ∈ s.parties[i]?, ∀ c ∈ s.commits[j]?,
    (g.processCommit hkdf signer c).isOk = true → c.operation = chosen c.epoch
  | _ => True

end

def rosterStep (roster : MlsMemberId → Prop) : CommitOperation → MlsMemberId → Prop
  | .create _ _, id => roster id
  | .add added, id => id = added ∨ roster id
  | .remove removed, id => id ≠ removed ∧ roster id

def rosterAt (creator : MlsMemberId) (chosen : MlsEpoch → CommitOperation) :
    MlsEpoch → MlsMemberId → Prop
  | 0 => fun id => id = creator
  | e+1 => rosterStep (rosterAt creator chosen e) (chosen (e+1))

section

variable {K Sig : Type} {hkdf : Hkdf K} {signer : SignerBackend Sig} {genesis : Genesis K}

theorem processCommit_ok {g g' : MlsGroup K} {c : MlsCommit Sig}
    (h : g.processCommit hkdf signer c = .ok g') :
    c.epoch = g.epoch+1 ∧ g' = ⟨g.groupId, g.epoch+1, applyOperation g.members c.operation,
      deriveSchedule hkdf g.groupId (g.epoch+1) (ratchetEpoch hkdf g.ratchet g.groupId (g.epoch+1)).1,
      (ratchetEpoch hkdf g.ratchet g.groupId (g.epoch+1)).2⟩ := by
  unfold processCommit at h
  split at h
  · cases h
  · split at h
    · cases h
    · split at h
      · cases h
      · split at h
        · cases h
        · unfold MlsEpoch.next at h
          split at h
          · simp only [bind, Except.bind] at h
            split at h
            · cases h
            · rename_i hepoch
              rw [ne_eq, not_not] at hepoch
              split at h
              · cases h
              · cases h
                exact ⟨hepoch, by rw [hepoch]⟩
          · cases h

theorem Keyed.processCommit {g g' : MlsGroup K} {c : MlsCommit Sig} (hg : Keyed hkdf genesis g)
    (h : g.processCommit hkdf signer c = .ok g') : Keyed hkdf genesis g' := by
  obtain ⟨-, rfl⟩ := processCommit_ok h
  refine ⟨hg.groupId, ?_, ?_⟩
  · dsimp only
    rw [hg.groupId, hg.ratchet]
    rfl
  · dsimp only
    rw [hg.groupId, hg.ratchet]
    rfl

theorem buildWelcome_ok {g : MlsGroup K} {added : MlsMemberId} {w : MlsWelcome K}
    (h : g.buildWelcome added = .ok w) :
    w.groupId = g.groupId ∧ w.epoch = g.epoch ∧ w.roster = g.members.keys.insertionSort (· ≤ ·) ∧
      w.encryptedEpochSecret.plain = (g.schedule.epochSecret, g.ratchet) := by
  unfold buildWelcome at h
  split at h
  · cases h
  · split at h
    · cases h
    · cases h
      exact ⟨rfl, rfl, rfl, rfl⟩

theorem Keyed.buildWelcome {g : MlsGroup K} {added : MlsMemberId} {w : MlsWelcome K}
    (hg : Keyed hkdf genesis g) (h : g.buildWelcome added = .ok w) :
    KeyedWelcome hkdf genesis w := by
  obtain ⟨hid, hepoch, -, hplain⟩ := buildWelcome_ok h
  refine ⟨hid.trans hg.groupId, ?_⟩
  rw [hplain, hepoch, hg.schedule, hg.ratchet]
  rfl

theorem processWelcome_ok {w : MlsWelcome K} {initKey : HybridPublicKey} {g : MlsGroup K}
    (h : processWelcome hkdf w initKey = .ok g) :
    g = ⟨w.groupId, w.epoch, w.roster.foldl (fun t id => t.insert id ⟨id, placeholderHybridPk⟩) ∅,
      deriveSchedule hkdf w.groupId w.epoch w.encryptedEpochSecret.plain.1,
      w.encryptedEpochSecret.plain.2⟩ := by
  unfold processWelcome at h
  split at h
  · cases h
  · rename_i hopen
    obtain ⟨-, -, hplain⟩ := Cipher.Sealed.openWith_eq_some.mp hopen
    cases h
    rw [hplain]

theorem KeyedWelcome.processWelcome {w : MlsWelcome K} {initKey : HybridPublicKey}
    {g : MlsGroup K} (hw : KeyedWelcome hkdf genesis w)
    (h : processWelcome hkdf w initKey = .ok g) : Keyed hkdf genesis g := by
  rw [processWelcome_ok h]
  refine ⟨hw.groupId, ?_, ?_⟩
  · dsimp only
    rw [hw.groupId, hw.plain]
  · dsimp only
    rw [hw.plain]

/-- What holds of every member and of every welcome holds after an action, if no call that
succeeds breaks it. -/
theorem MlsNet.next_forall {P : MlsGroup K → Prop} {Q : MlsWelcome K → Prop} {s : MlsNet K Sig}
    {act : MlsAct} (hparties : ∀ g ∈ s.parties, P g) (hwelcomes : ∀ w ∈ s.welcomes, Q w)
    (hcommit : ∀ i j g c g', act = .processCommit i j → s.parties[i]? = some g →
      s.commits[j]? = some c → g.processCommit hkdf signer c = .ok g' → P g → P g')
    (hbuild : ∀ g added w, g.buildWelcome added = .ok w → P g → Q w)
    (hjoin : ∀ w initKey g, processWelcome hkdf w initKey = .ok g → Q w → P g)
    (hleaf : ∀ i g leaf, act = .installLeaf i leaf → s.parties[i]? = some g → P g →
      P (g.installLeaf leaf)) :
    (∀ g ∈ (s.next hkdf signer act).parties, P g) ∧
      ∀ w ∈ (s.next hkdf signer act).welcomes, Q w := by
  cases act with
  | addMember i committedBy leaf now =>
    simp only [next, withParty]
    split
    · exact ⟨hparties, hwelcomes⟩
    · exact ⟨hparties, hwelcomes⟩
  | removeMember i committedBy removed now =>
    simp only [next, withParty]
    split
    · exact ⟨hparties, hwelcomes⟩
    · exact ⟨hparties, hwelcomes⟩
  | processCommit i j =>
    simp only [next, withParty]
    split
    · rename_i g hg
      split
      · rename_i c hc
        cases hok : g.processCommit hkdf signer c with
        | error err => exact ⟨hparties, hwelcomes⟩
        | ok g' =>
          have hg' := hcommit i j g c g' rfl hg hc hok (hparties g (List.mem_of_getElem? hg))
          exact ⟨Tally.forall_mem_set hparties hg', hwelcomes⟩
      · exact ⟨hparties, hwelcomes⟩
    · exact ⟨hparties, hwelcomes⟩
  | buildWelcome i added =>
    simp only [next, withParty]
    split
    · rename_i g hg
      cases hok : g.buildWelcome added with
      | error err => exact ⟨hparties, hwelcomes⟩
      | ok w =>
        have hw := hbuild g added w hok (hparties g (List.mem_of_getElem? hg))
        exact ⟨hparties, List.forall_mem_append.mpr ⟨hwelcomes, List.forall_mem_singleton.mpr hw⟩⟩
    · exact ⟨hparties, hwelcomes⟩
  | processWelcome j initKey =>
    simp only [next]
    split
    · rename_i w hw
      cases hok : processWelcome hkdf w initKey with
      | error err => exact ⟨hparties, hwelcomes⟩
      | ok g =>
        have hg := hjoin w initKey g hok (hwelcomes w (List.mem_of_getElem? hw))
        exact ⟨List.forall_mem_append.mpr ⟨hparties, List.forall_mem_singleton.mpr hg⟩, hwelcomes⟩
    · exact ⟨hparties, hwelcomes⟩
  | installLeaf i leaf =>
    simp only [next, withParty]
    split
    · rename_i g hg
      have hg' := hleaf i g leaf rfl hg (hparties g (List.mem_of_getElem? hg))
      exact ⟨Tally.forall_mem_set hparties hg', hwelcomes⟩
    · exact ⟨hparties, hwelcomes⟩

theorem Keyed.create (now : Int) : Keyed hkdf genesis (create hkdf signer genesis.groupId
    genesis.creator genesis.leaf genesis.initialRatchet now).1 := ⟨rfl, rfl, rfl⟩

theorem Keyed.installLeaf {g : MlsGroup K} (h : Keyed hkdf genesis g) (leaf : LeafKeyPackage) :
    Keyed hkdf genesis (g.installLeaf leaf) := ⟨h.groupId, h.schedule, h.ratchet⟩

theorem keyed_of_reachable {s : MlsNet K Sig} (h : (mls hkdf signer genesis).Reachable s) :
    (∀ g ∈ s.parties, Keyed hkdf genesis g) ∧ ∀ w ∈ s.welcomes, KeyedWelcome hkdf genesis w := by
  refine h.invariant (fun s => (∀ g ∈ s.parties, Keyed hkdf genesis g) ∧
    ∀ w ∈ s.welcomes, KeyedWelcome hkdf genesis w) ?_ ?_
  · rintro s ⟨now, rfl⟩
    exact ⟨List.forall_mem_singleton.mpr (Keyed.create now), by simp⟩
  · rintro s act t - ⟨hparties, hwelcomes⟩ ⟨-, rfl⟩
    exact next_forall hparties hwelcomes (fun _ _ _ _ _ _ _ _ hok hg => hg.processCommit hok)
      (fun _ _ _ hok hg => hg.buildWelcome hok) (fun _ _ _ hok hw => hw.processWelcome hok)
      (fun _ _ leaf _ _ hg => hg.installLeaf leaf)

theorem contains_insert (members : Table MlsMemberId LeafKeyPackage) (id id' : MlsMemberId)
    (leaf : LeafKeyPackage) :
    ((members.insert id leaf).lookup id').isSome = true ↔
      id' = id ∨ (members.lookup id').isSome = true := by
  rw [Table.lookup_insert_ite]
  split
  · simp [*]
  · simp [*]

theorem contains_applyOperation (members : Table MlsMemberId LeafKeyPackage)
    (op : CommitOperation) (id : MlsMemberId) :
    ((applyOperation members op).lookup id).isSome = true ↔
      rosterStep (fun id => (members.lookup id).isSome = true) op id := by
  cases op with
  | create creator roster => exact Iff.rfl
  | add added => exact contains_insert members added id _
  | remove removed =>
    simp only [applyOperation, rosterStep, Table.lookup_erase_ite]
    split
    · simp [*]
    · simp [*]

theorem contains_foldl_insert (roster : List MlsMemberId) (id : MlsMemberId)
    (members : Table MlsMemberId LeafKeyPackage) :
    ((roster.foldl (fun t id => t.insert id ⟨id, placeholderHybridPk⟩) members).lookup id).isSome
      = true ↔ id ∈ roster ∨ (members.lookup id).isSome = true := by
  induction roster generalizing members with
  | nil => simp
  | cons m roster ih =>
    rw [List.foldl_cons, ih, contains_insert, List.mem_cons, or_left_comm, or_assoc]

theorem rosterStep_congr {P Q : MlsMemberId → Prop} (h : ∀ id, P id ↔ Q id) (op : CommitOperation)
    (id : MlsMemberId) : rosterStep P op id ↔ rosterStep Q op id := by
  cases op with
  | create creator roster => exact h id
  | add added => exact or_congr Iff.rfl (h id)
  | remove removed => exact and_congr Iff.rfl (h id)

def Enrolled (genesis : Genesis K) (chosen : MlsEpoch → CommitOperation) (g : MlsGroup K) : Prop :=
  ∀ id, g.contains id = true ↔ rosterAt genesis.creator chosen g.epoch id

def EnrolledWelcome (genesis : Genesis K) (chosen : MlsEpoch → CommitOperation)
    (w : MlsWelcome K) : Prop :=
  ∀ id, id ∈ w.roster ↔ rosterAt genesis.creator chosen w.epoch id

variable {chosen : MlsEpoch → CommitOperation}

theorem Enrolled.create (now : Int) : Enrolled genesis chosen (create hkdf signer
    genesis.groupId genesis.creator genesis.leaf genesis.initialRatchet now).1 := by
  intro id
  simp only [MlsGroup.create, MlsGroup.contains, rosterAt]
  rw [contains_insert]
  simp

theorem Enrolled.processCommit {g g' : MlsGroup K} {c : MlsCommit Sig}
    (hg : Enrolled genesis chosen g) (h : g.processCommit hkdf signer c = .ok g')
    (hop : c.operation = chosen c.epoch) : Enrolled genesis chosen g' := by
  obtain ⟨hepoch, rfl⟩ := processCommit_ok h
  intro id
  rw [hepoch] at hop
  simp only [contains, rosterAt, ← hop]
  rw [contains_applyOperation]
  exact rosterStep_congr hg c.operation id

theorem mem_keys_iff (g : MlsGroup K) (id : MlsMemberId) :
    id ∈ g.members.keys ↔ g.contains id = true := by
  rw [contains, AList.lookup_isSome]
  exact AList.mem_keys.symm

theorem Enrolled.buildWelcome {g : MlsGroup K} {added : MlsMemberId} {w : MlsWelcome K}
    (hg : Enrolled genesis chosen g) (h : g.buildWelcome added = .ok w) :
    EnrolledWelcome genesis chosen w := by
  obtain ⟨-, hepoch, hroster, -⟩ := buildWelcome_ok h
  intro id
  rw [hroster, List.mem_insertionSort, mem_keys_iff, hepoch]
  exact hg id

theorem EnrolledWelcome.processWelcome {w : MlsWelcome K} {initKey : HybridPublicKey}
    {g : MlsGroup K} (hw : EnrolledWelcome genesis chosen w)
    (h : processWelcome hkdf w initKey = .ok g) : Enrolled genesis chosen g := by
  rw [processWelcome_ok h]
  intro id
  simp only [contains]
  rw [contains_foldl_insert, ← hw id]
  simp

theorem Enrolled.installLeaf {g : MlsGroup K} {leaf : LeafKeyPackage}
    (hg : Enrolled genesis chosen g) (h : g.contains leaf.memberId = true) :
    Enrolled genesis chosen (g.installLeaf leaf) := by
  intro id
  simp only [MlsGroup.installLeaf, MlsGroup.contains]
  rw [contains_insert, ← hg id, MlsGroup.contains]
  refine or_iff_right_of_imp ?_
  rintro rfl
  exact h

theorem enrolled_of_reachable {s : MlsNet K Sig}
    (h : ((mls hkdf signer genesis).restrict (Ordered hkdf signer chosen)).Reachable s) :
    (∀ g ∈ s.parties, Enrolled genesis chosen g) ∧
      ∀ w ∈ s.welcomes, EnrolledWelcome genesis chosen w := by
  refine h.invariant (fun s => (∀ g ∈ s.parties, Enrolled genesis chosen g) ∧
    ∀ w ∈ s.welcomes, EnrolledWelcome genesis chosen w) ?_ ?_
  · rintro s ⟨now, rfl⟩
    exact ⟨List.forall_mem_singleton.mpr (Enrolled.create now), by simp⟩
  · rintro s act t - ⟨hparties, hwelcomes⟩ ⟨⟨henabled, rfl⟩, hordered⟩
    refine next_forall hparties hwelcomes ?_ (fun _ _ _ hok hg => hg.buildWelcome hok)
      (fun _ _ _ hok hw => hw.processWelcome hok) ?_
    · rintro i j g c g' rfl hgi hcj hok hg
      have hop : c.operation = chosen c.epoch := hordered g hgi c hcj (by rw [hok]; rfl)
      exact hg.processCommit hok hop
    · rintro i g leaf rfl hgi hg
      exact hg.installLeaf (henabled g hgi)

/-- Where one operation is accepted for each epoch, members at one epoch have one secret and
one roster. -/
theorem ordered_commits_agree {s : MlsNet K Sig}
    (h : ((mls hkdf signer genesis).restrict (Ordered hkdf signer chosen)).Reachable s)
    {a b : MlsGroup K} (ha : a ∈ s.parties) (hb : b ∈ s.parties)
    (hepoch : a.schedule.epoch = b.schedule.epoch) :
    a.schedule.epochSecret = b.schedule.epochSecret ∧ ∀ id, a.contains id = b.contains id := by
  have hkeyed := (keyed_of_reachable h.of_restrict).1
  have henrolled := (enrolled_of_reachable h).1
  have hschedule : ∀ g ∈ s.parties, g.schedule.epoch = g.epoch := fun g hg => by
    rw [(hkeyed g hg).schedule]
    rfl
  rw [hschedule a ha, hschedule b hb] at hepoch
  constructor
  · rw [(hkeyed a ha).schedule, (hkeyed b hb).schedule, hepoch]
  · intro id
    rw [Bool.eq_iff_iff, henrolled a ha id, henrolled b hb id, hepoch]

end

inductive KeyTerm where
  | seed (n : Nat)
  | expand (salt : String) (ikm : KeyTerm) (info : List UInt8)
  deriving DecidableEq

def termHkdf : Hkdf KeyTerm := ⟨.expand⟩

def plainSigner : SignerBackend (List UInt8) := ⟨id, fun payload signature => payload == signature⟩

def pairGenesis : Genesis KeyTerm := ⟨7, 1, ⟨1, 1⟩, .seed 0⟩

def pairStart : MlsNet KeyTerm (List UInt8) :=
  ⟨[(MlsGroup.create termHkdf plainSigner pairGenesis.groupId pairGenesis.creator pairGenesis.leaf
    pairGenesis.initialRatchet 0).1], [], []⟩

def pairJoins : List MlsAct :=
  [.addMember 0 1 ⟨2, 2⟩ 0, .processCommit 0 0, .installLeaf 0 ⟨2, 2⟩, .buildWelcome 0 2,
    .processWelcome 0 2]

def pairForks : List MlsAct :=
  pairJoins ++ [.addMember 0 1 ⟨3, 3⟩ 0, .addMember 1 2 ⟨4, 4⟩ 0, .processCommit 0 1,
    .processCommit 1 2]

instance MlsNet.enabledDecidable {K Sig : Type} (s : MlsNet K Sig) (act : MlsAct) :
    Decidable (s.enabled act) :=
  match act with
  | .installLeaf i leaf =>
    inferInstanceAs (Decidable (∀ g ∈ s.parties[i]?, g.contains leaf.memberId = true))
  | .addMember _ _ _ _ => isTrue trivial
  | .removeMember _ _ _ _ => isTrue trivial
  | .processCommit _ _ => isTrue trivial
  | .buildWelcome _ _ => isTrue trivial
  | .processWelcome _ _ => isTrue trivial

theorem pairForks_reachable : (mls termHkdf plainSigner pairGenesis).Reachable
    (pairForks.foldl (next termHkdf plainSigner) pairStart) :=
  Legal.reachable (by decide +kernel) (.init ⟨0, rfl⟩)

/-- The epoch secret binds the group and the epoch, never the operation: two commits for one
epoch leave two members with one secret and two rosters. -/
theorem concurrent_commits_split : ¬ ∀ (K Sig : Type) (hkdf : Hkdf K) (signer : SignerBackend Sig)
    (genesis : Genesis K) (s : MlsNet K Sig),
    (∀ salt salt' ikm ikm' info info', hkdf.expand salt ikm info = hkdf.expand salt' ikm' info' →
      salt = salt' ∧ ikm = ikm' ∧ info = info') →
    (mls hkdf signer genesis).Reachable s → ∀ a ∈ s.parties, ∀ b ∈ s.parties,
      a.schedule.epoch = b.schedule.epoch → a.schedule.epochSecret = b.schedule.epochSecret →
      ∀ id, a.contains id = b.contains id := by
  intro h
  have hinj : ∀ salt salt' ikm ikm' info info',
      termHkdf.expand salt ikm info = termHkdf.expand salt' ikm' info' →
      salt = salt' ∧ ikm = ikm' ∧ info = info' := by
    intro salt salt' ikm ikm' info info' heq
    exact KeyTerm.expand.inj heq
  have hagree := h KeyTerm (List UInt8) termHkdf plainSigner pairGenesis _ hinj pairForks_reachable
  have hsplit : ¬ ∀ a ∈ (pairForks.foldl (next termHkdf plainSigner) pairStart).parties,
      ∀ b ∈ (pairForks.foldl (next termHkdf plainSigner) pairStart).parties,
      a.schedule.epoch = b.schedule.epoch → a.schedule.epochSecret = b.schedule.epochSecret →
      a.contains 3 = b.contains 3 := by
    decide +kernel
  exact hsplit fun a ha b hb hepoch hsecret => hagree a ha b hb hepoch hsecret 3

def pairFollows : List MlsAct :=
  pairJoins ++ [.addMember 0 1 ⟨3, 3⟩ 0, .processCommit 0 1, .processCommit 1 1]

def pairChosen : MlsEpoch → CommitOperation
  | 1 => .add 2
  | _ => .add 3

instance orderedDecidable {K Sig : Type} (hkdf : Hkdf K) (signer : SignerBackend Sig)
    (chosen : MlsEpoch → CommitOperation) (s : MlsNet K Sig) (act : MlsAct) :
    Decidable (Ordered hkdf signer chosen s act) :=
  match act with
  | .processCommit i j => inferInstanceAs (Decidable (∀ g ∈ s.parties[i]?, ∀ c ∈ s.commits[j]?,
    (g.processCommit hkdf signer c).isOk = true → c.operation = chosen c.epoch))
  | .installLeaf _ _ => isTrue trivial
  | .addMember _ _ _ _ => isTrue trivial
  | .removeMember _ _ _ _ => isTrue trivial
  | .buildWelcome _ _ => isTrue trivial
  | .processWelcome _ _ => isTrue trivial

theorem pairFollows_reachable : ((mls termHkdf plainSigner pairGenesis).restrict
    (Ordered termHkdf plainSigner pairChosen)).Reachable
    (pairFollows.foldl (next termHkdf plainSigner) pairStart) :=
  Legal.reachable_restrict (by decide +kernel) (.init ⟨0, rfl⟩)

theorem ordered_commits_agree_pair :
    (pairFollows.foldl (next termHkdf plainSigner) pairStart).parties.map
      (fun g => g.epoch) = [2, 2] ∧
    ∀ a ∈ (pairFollows.foldl (next termHkdf plainSigner) pairStart).parties,
      ∀ b ∈ (pairFollows.foldl (next termHkdf plainSigner) pairStart).parties,
      a.schedule.epochSecret = b.schedule.epochSecret ∧ ∀ id, a.contains id = b.contains id := by
  refine ⟨by decide +kernel, fun a ha b hb => ordered_commits_agree pairFollows_reachable ha hb ?_⟩
  have hepochs : ∀ a ∈ (pairFollows.foldl (next termHkdf plainSigner) pairStart).parties,
      a.schedule.epoch = 2 := by
    decide +kernel
  rw [hepochs a ha, hepochs b hb]

end Knowledge.Crypto
