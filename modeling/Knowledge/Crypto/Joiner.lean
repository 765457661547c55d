import Knowledge.Crypto.Roster

/-!
A member that joins by a welcome and the group it joins, over any further commits. A commit reads
nothing of a group but what the welcome carries, so the two stay in step; a leaf is read by the
next welcome only.
-/

set_option autoImplicit false

namespace Knowledge.Crypto
open Knowledge.Cipher Knowledge.Machine Knowledge.Transition

section

variable {K Sig : Type} (hkdf : Hkdf K)

/-- Code that works on a group in place and may fail on the way. -/
abbrev GroupM (K : Type) := ExceptT MlsError (StateM (MlsGroup K))

def liftExcept {α : Type} : Except MlsError α → GroupM K α
  | .ok a => pure a
  | .error err => throw err

def refuse (bad : Bool) (err : MlsError) : GroupM K Unit := if bad then throw err else pure ()

/-- `process_commit` on the group in place: every check comes before the first write. -/
def MlsGroup.takeCommit (verifier : SignerBackend Sig) (commit : MlsCommit Sig) :
    GroupM K Unit := do
  let self ← get
  refuse (commit.groupId ≠ self.groupId) (.provenanceSerialisation "commit group_id mismatch")
  refuse (!verifier.verifyBytes (signingPayload commit.groupId commit.epoch commit.operation
    commit.committedBy commit.committedAt) commit.signature) .provenanceVerification
  refuse (isCreate commit.operation)
    (.provenanceSerialisation "Create commits cannot be processed on an existing group")
  refuse (!self.contains commit.committedBy)
    (.provenanceSerialisation "committer is not a group member")
  let expectedEpoch ← liftExcept (MlsEpoch.next self.epoch)
  refuse (commit.epoch ≠ expectedEpoch) (.provenanceSerialisation "commit epoch out of order")
  liftExcept (self.validateOperation commit.operation)
  let derived := ratchetEpoch hkdf self.ratchet self.groupId commit.epoch
  let newSchedule := deriveSchedule hkdf self.groupId commit.epoch derived.1
  modify fun g => { g with members := applyOperation g.members commit.operation }
  modify fun g => { g with epoch := commit.epoch }
  modify fun g => { g with ratchet := derived.2 }
  modify fun g => { g with schedule := newSchedule }

structure CommitCall (Sig : Type) where
  verifier : SignerBackend Sig
  commit : MlsCommit Sig

namespace MlsGroup

def take (g : MlsGroup K) (call : CommitCall Sig) : Except MlsError Unit × MlsGroup K :=
  (takeCommit hkdf call.verifier call.commit).run g

def feed (g : MlsGroup K) (calls : List (CommitCall Sig)) : MlsGroup K :=
  calls.foldl (fun g call => (g.take hkdf call).2) g

def roster (g : MlsGroup K) : List MlsMemberId := g.members.keys.insertionSort (· ≤ ·)

end MlsGroup

inductive GroupAct (Sig : Type) where
  | processCommit (call : CommitCall Sig)
  | installLeaf (leaf : LeafKeyPackage)

def MlsGroup.act (g : MlsGroup K) : GroupAct Sig → MlsGroup K
  | .processCommit call => (g.take hkdf call).2
  | .installLeaf leaf => g.installLeaf leaf

def groupRuns (Sig : Type) : System (MlsGroup K) (GroupAct Sig) :=
  .ofNext
    (fun g => ∃ (signer : SignerBackend Sig) (groupId : MlsGroupId) (creator : MlsMemberId)
      (leaf : LeafKeyPackage) (initialRatchet : K) (now : Int),
      g = (MlsGroup.create hkdf signer groupId creator leaf initialRatchet now).1)
    (fun _ _ => True) (MlsGroup.act hkdf)

structure Agree (g j : MlsGroup K) : Prop where
  groupId : g.groupId = j.groupId
  epoch : g.epoch = j.epoch
  roster : g.roster = j.roster
  schedule : g.schedule = j.schedule
  ratchet : g.ratchet = j.ratchet

/-- Whatever commits the two are fed, the next one gets the same verdict from both and leaves
them agreed, and alone if it is rejected. -/
def InStep (Sig : Type) (g j : MlsGroup K) : Prop :=
  ∀ calls : List (CommitCall Sig),
    let g' := g.feed hkdf calls
    let j' := j.feed hkdf calls
    Agree g' j' ∧ ∀ call : CommitCall Sig, (g'.take hkdf call).1 = (j'.take hkdf call).1 ∧
      ((g'.take hkdf call).1 ≠ .ok () →
        (g'.take hkdf call).2 = g' ∧ (j'.take hkdf call).2 = j')

end

open MlsGroup

section

variable {K Sig : Type} {hkdf : Hkdf K} {g j : MlsGroup K}

namespace GroupM

variable {α β : Type} (g : MlsGroup K)

theorem ok_bind (a : α) (f : α → Except MlsError β) : (Except.ok a >>= f) = f a := rfl

theorem run_get_bind (f : MlsGroup K → GroupM K α) : ExceptT.run (get >>= f) g = (f g).run g := rfl

theorem run_refuse_bind (bad : Bool) (err : MlsError) (f : Unit → GroupM K α) :
    ExceptT.run (refuse bad err >>= f) g = if bad then (.error err, g) else (f ()).run g := by
  cases bad <;> rfl

theorem run_liftExcept_bind (r : Except MlsError α) (f : α → GroupM K β) :
    ExceptT.run (liftExcept r >>= f) g =
      match r with
      | .ok a => (f a).run g
      | .error err => (.error err, g) := by
  cases r <;> rfl

end GroupM

open GroupM in
theorem MlsGroup.take_eq (g : MlsGroup K) (call : CommitCall Sig) : g.take hkdf call =
    match g.processCommit hkdf call.verifier call.commit with
    | .ok g' => (.ok (), g')
    | .error err => (.error err, g) := by
  obtain ⟨verifier, commit⟩ := call
  rw [take, takeCommit, run_get_bind, run_refuse_bind, run_refuse_bind, run_refuse_bind,
    run_refuse_bind, run_liftExcept_bind, processCommit]
  simp only [decide_eq_true_eq]
  split
  · rfl
  split
  · rfl
  split
  · rfl
  split
  · rfl
  cases MlsEpoch.next g.epoch with
  | error err => rfl
  | ok expected =>
    simp only [run_refuse_bind, run_liftExcept_bind, decide_eq_true_eq, ok_bind]
    split
    · rfl
    · cases g.validateOperation commit.operation with
      | error err => rfl
      | ok u => rfl

theorem MlsGroup.roster_eq_iff :
    g.roster = j.roster ↔ ∀ id, g.contains id = j.contains id := by
  have hmem : ∀ (g : MlsGroup K) (id : MlsMemberId), id ∈ g.roster ↔ g.contains id = true := by
    intro g id
    rw [roster, List.mem_insertionSort, mem_keys_iff]
  constructor
  · intro h id
    rw [Bool.eq_iff_iff, ← hmem, ← hmem, h]
  · intro h
    have hkeys : g.members.keys.Perm j.members.keys := by
      rw [List.perm_ext_iff_of_nodup g.members.keys_nodup j.members.keys_nodup]
      intro id
      rw [mem_keys_iff, mem_keys_iff, h]
    refine List.Perm.eq_of_pairwise (fun _ _ _ _ h h' => BitVec.le_antisymm h h')
      (List.pairwise_insertionSort _ _) (List.pairwise_insertionSort _ _) ?_
    exact ((List.perm_insertionSort _ _).trans hkeys).trans (List.perm_insertionSort _ _).symm

theorem Agree.validateOperation (h : Agree g j) (operation : CommitOperation) :
    g.validateOperation operation = j.validateOperation operation := by
  have hcontains := roster_eq_iff.mp h.roster
  cases operation with
  | create creator roster => rfl
  | add added => simp only [MlsGroup.validateOperation, hcontains]
  | remove removed => simp only [MlsGroup.validateOperation, hcontains]

theorem Agree.processCommit (h : Agree g j) (verifier : SignerBackend Sig)
    (commit : MlsCommit Sig) :
    (∃ g' j', g.processCommit hkdf verifier commit = .ok g' ∧
      j.processCommit hkdf verifier commit = .ok j' ∧ Agree g' j') ∨
    ∃ err, g.processCommit hkdf verifier commit = .error err ∧
      j.processCommit hkdf verifier commit = .error err := by
  have hcontains := MlsGroup.roster_eq_iff.mp h.roster
  simp only [MlsGroup.processCommit, h.groupId, h.epoch, h.ratchet, hcontains, h.validateOperation]
  split
  · exact .inr ⟨_, rfl, rfl⟩
  split
  · exact .inr ⟨_, rfl, rfl⟩
  split
  · exact .inr ⟨_, rfl, rfl⟩
  split
  · exact .inr ⟨_, rfl, rfl⟩
  cases MlsEpoch.next j.epoch with
  | error err => exact .inr ⟨_, rfl, rfl⟩
  | ok expected =>
    simp only [bind, Except.bind]
    split
    · exact .inr ⟨_, rfl, rfl⟩
    · cases j.validateOperation commit.operation with
      | error err => exact .inr ⟨_, rfl, rfl⟩
      | ok u =>
        refine .inl ⟨_, _, rfl, rfl, rfl, rfl, roster_eq_iff.mpr fun id => ?_, rfl, rfl⟩
        have hlookup : ∀ id, (g.members.lookup id).isSome = true ↔
            (j.members.lookup id).isSome = true := fun id => Bool.eq_iff_iff.mp (hcontains id)
        rw [contains, contains, Bool.eq_iff_iff, contains_applyOperation, contains_applyOperation]
        exact rosterStep_congr hlookup commit.operation id

theorem Agree.take (h : Agree g j) (call : CommitCall Sig) :
    (g.take hkdf call).1 = (j.take hkdf call).1 ∧
      Agree (g.take hkdf call).2 (j.take hkdf call).2 := by
  rw [take_eq, take_eq]
  have hcommit := @Agree.processCommit K Sig hkdf g j h call.verifier call.commit
  rcases hcommit with ⟨g', j', hg, hj, hagree⟩ | ⟨err, hg, hj⟩
  · rw [hg, hj]
    exact ⟨rfl, hagree⟩
  · rw [hg, hj]
    exact ⟨rfl, h⟩

theorem Agree.feed (h : Agree g j) (calls : List (CommitCall Sig)) :
    Agree (g.feed hkdf calls) (j.feed hkdf calls) := by
  induction calls generalizing g j with
  | nil => exact h
  | cons call calls ih => exact ih (h.take call).2

theorem MlsGroup.take_rejected {call : CommitCall Sig} (h : (g.take hkdf call).1 ≠ .ok ()) :
    (g.take hkdf call).2 = g := by
  rw [take_eq] at h ⊢
  cases hcommit : g.processCommit hkdf call.verifier call.commit with
  | ok g' => simp [hcommit] at h
  | error err => rfl

theorem Agree.inStep (h : Agree g j) : InStep hkdf Sig g j := by
  intro calls
  refine ⟨h.feed calls, fun call => ⟨((h.feed calls).take call).1, fun hrejected => ?_⟩⟩
  have hrejected' : ((j.feed hkdf calls).take hkdf call).1 ≠ .ok () := by
    rwa [← ((h.feed calls).take call).1]
  exact ⟨take_rejected hrejected, take_rejected hrejected'⟩

def Scheduled (hkdf : Hkdf K) (g : MlsGroup K) : Prop :=
  g.schedule = deriveSchedule hkdf g.groupId g.epoch g.schedule.epochSecret

theorem scheduled_of_reachable (h : (groupRuns hkdf Sig).Reachable g) :
    Scheduled hkdf g := by
  refine h.invariant (Scheduled hkdf) ?_ ?_
  · rintro _ ⟨signer, groupId, creator, leaf, initialRatchet, now, rfl⟩
    rfl
  · rintro g act _ - hg ⟨-, rfl⟩
    cases act with
    | processCommit call =>
      rw [act, take_eq]
      cases hcommit : g.processCommit hkdf call.verifier call.commit with
      | error err => exact hg
      | ok g' =>
        obtain ⟨-, rfl⟩ := processCommit_ok hcommit
        rfl
    | installLeaf leaf => exact hg

theorem welcome_agrees (hg : Scheduled hkdf g) {m : MlsMemberId} {leaf : LeafKeyPackage}
    (hleaf : g.members.lookup m = some leaf) (hreal : leaf.initKey ≠ placeholderHybridPk) :
    ∃ w j, g.buildWelcome m = .ok w ∧ processWelcome hkdf w leaf.initKey = .ok j ∧
      Agree g j := by
  let w : MlsWelcome K := ⟨g.groupId, g.epoch, g.roster,
    ⟨leaf.initKey, (), (g.groupId, g.epoch, g.roster), (g.schedule.epochSecret, g.ratchet)⟩⟩
  let j : MlsGroup K := ⟨g.groupId, g.epoch,
    g.roster.foldl (fun t id => t.insert id ⟨id, placeholderHybridPk⟩) ∅,
    deriveSchedule hkdf g.groupId g.epoch g.schedule.epochSecret, g.ratchet⟩
  have hbuild : g.buildWelcome m = .ok w := by
    rw [buildWelcome, hleaf]
    exact if_neg hreal
  have hjoin : processWelcome hkdf w leaf.initKey = .ok j := by
    have hopen : w.encryptedEpochSecret.openWith leaf.initKey (w.groupId, w.epoch, w.roster) =
        some (g.schedule.epochSecret, g.ratchet) := Sealed.openWith_mk _ _ _ _
    rw [processWelcome, hopen]
  refine ⟨w, j, hbuild, hjoin, rfl, rfl, roster_eq_iff.mpr fun id => ?_, hg, rfl⟩
  rw [Bool.eq_iff_iff, contains, contains, contains_foldl_insert,
    roster, List.mem_insertionSort, mem_keys_iff]
  simp [contains]

theorem tampered_welcome {w w' : MlsWelcome K} {m : MlsMemberId} (hw : g.buildWelcome m = .ok w)
    (hsealed : w'.encryptedEpochSecret = w.encryptedEpochSecret)
    (hheader : w'.groupId ≠ w.groupId ∨ w'.epoch ≠ w.epoch ∨ w'.roster ≠ w.roster)
    (initKey : HybridPublicKey) : processWelcome hkdf w' initKey = .error .aead := by
  have haad : w.encryptedEpochSecret.aad = (w.groupId, w.epoch, w.roster) := by
    unfold buildWelcome at hw
    split at hw
    · cases hw
    · split at hw
      · cases hw
      · cases hw
        rfl
  have hclosed : w'.encryptedEpochSecret.openWith initKey (w'.groupId, w'.epoch, w'.roster) =
      none := by
    rw [hsealed, Sealed.openWith, if_neg]
    rintro ⟨-, hsame⟩
    obtain ⟨hgroup, hepoch, hroster⟩ : w.groupId = w'.groupId ∧ w.epoch = w'.epoch ∧
        w.roster = w'.roster := by simpa [haad] using hsame
    rcases hheader with h | h | h
    · exact h hgroup.symm
    · exact h hepoch.symm
    · exact h hroster.symm
  rw [processWelcome, hclosed]

/-- Whoever joins by a welcome has the group's state and keeps in step with it over any further
commits, and no other header opens the welcome. -/
theorem joiner_in_step (h : (groupRuns hkdf Sig).Reachable g) {m : MlsMemberId}
    {leaf : LeafKeyPackage} (hleaf : g.members.lookup m = some leaf)
    (hreal : leaf.initKey ≠ placeholderHybridPk) :
    ∃ w j, g.buildWelcome m = .ok w ∧ processWelcome hkdf w leaf.initKey = .ok j ∧
      Agree g j ∧ InStep hkdf Sig g j ∧
      ∀ w' : MlsWelcome K, w'.encryptedEpochSecret = w.encryptedEpochSecret →
        w'.groupId ≠ w.groupId ∨ w'.epoch ≠ w.epoch ∨ w'.roster ≠ w.roster →
        ∀ initKey, processWelcome hkdf w' initKey = .error .aead := by
  obtain ⟨w, j, hw, hj, hagree⟩ := welcome_agrees (scheduled_of_reachable h) hleaf hreal
  exact ⟨w, j, hw, hj, hagree, hagree.inStep,
    fun w' hsealed hheader initKey => tampered_welcome hw hsealed hheader initKey⟩

end

section

def welcomeAad (groupId : MlsGroupId) (epoch : MlsEpoch) (roster : List MlsMemberId) :
    List UInt8 :=
  "knowledge-mls-welcome-v2|".toUTF8.data.toList ++ toBeBytes 16 groupId.toNat ++
    toBeBytes 8 epoch ++ toBeBytes 4 roster.length ++
    roster.flatMap fun m => toBeBytes 16 m.toNat

theorem idBytes_injective {a b : MlsMemberId}
    (h : toBeBytes 16 a.toNat = toBeBytes 16 b.toNat) : a = b := by
  have hlt : ∀ a : MlsMemberId, a.toNat < 256^16 := fun a => a.isLt
  have hvalue := congrArg ofBeBytes h
  rw [ofBeBytes_toBeBytes (hlt a), ofBeBytes_toBeBytes (hlt b)] at hvalue
  exact BitVec.eq_of_toNat_eq hvalue

theorem rosterBytes_injective {roster roster' : List MlsMemberId}
    (h : (roster.flatMap fun m => toBeBytes 16 m.toNat) =
      roster'.flatMap fun m => toBeBytes 16 m.toNat) : roster = roster' := by
  have hne : ∀ (m : MlsMemberId) (rest : List UInt8), toBeBytes 16 m.toNat ++ rest ≠ [] := by
    intro m rest hnil
    have hlength := congrArg List.length hnil
    simp [length_toBeBytes] at hlength
  induction roster generalizing roster' with
  | nil =>
    cases roster' with
    | nil => rfl
    | cons m roster' => exact absurd h.symm (hne m _)
  | cons m roster ih =>
    cases roster' with
    | nil => exact absurd h (hne m _)
    | cons m' roster' =>
      simp only [List.flatMap_cons] at h
      obtain ⟨hfirst, hrest⟩ := List.append_inj h (by simp only [length_toBeBytes])
      rw [idBytes_injective hfirst, ih hrest]

theorem welcomeAad_injective {groupId groupId' : MlsGroupId} {epoch epoch' : MlsEpoch}
    {roster roster' : List MlsMemberId} (hepoch : epoch < 2^64) (hepoch' : epoch' < 2^64)
    (h : welcomeAad groupId epoch roster = welcomeAad groupId' epoch' roster') :
    groupId = groupId' ∧ epoch = epoch' ∧ roster = roster' := by
  simp only [welcomeAad, List.append_assoc] at h
  have h := List.append_cancel_left h
  obtain ⟨hgroup, h⟩ := List.append_inj h (by simp only [length_toBeBytes])
  obtain ⟨hepochs, h⟩ := List.append_inj h (by simp only [length_toBeBytes])
  obtain ⟨-, hroster⟩ := List.append_inj h (by simp only [length_toBeBytes])
  refine ⟨idBytes_injective hgroup, ?_, rosterBytes_injective hroster⟩
  have hfits : ∀ e : MlsEpoch, e < 2^64 → ofBeBytes (toBeBytes 8 e) = e := fun e he =>
    ofBeBytes_toBeBytes he
  rw [← hfits epoch hepoch, hepochs, hfits epoch' hepoch']

end


def pairLeaf : LeafKeyPackage := ⟨2, 2⟩

def pairGroup : MlsGroup KeyTerm :=
  (MlsGroup.create termHkdf plainSigner 7 1 ⟨1, 1⟩ (.seed 0) 0).1.act termHkdf
    (.installLeaf pairLeaf : GroupAct (List UInt8))

theorem pairGroup_reachable : (groupRuns termHkdf (List UInt8)).Reachable pairGroup :=
  .step (.init ⟨plainSigner, 7, 1, ⟨1, 1⟩, .seed 0, 0, rfl⟩) ⟨trivial, rfl⟩

theorem joiner_in_step_pair : ∃ w j, pairGroup.buildWelcome 2 = .ok w ∧
    processWelcome termHkdf w pairLeaf.initKey = .ok j ∧ Agree pairGroup j ∧
    InStep termHkdf (List UInt8) pairGroup j ∧
    ∀ w' : MlsWelcome KeyTerm, w'.encryptedEpochSecret = w.encryptedEpochSecret →
      w'.groupId ≠ w.groupId ∨ w'.epoch ≠ w.epoch ∨ w'.roster ≠ w.roster →
      ∀ initKey, processWelcome termHkdf w' initKey = .error .aead :=
  have hleaf : pairGroup.members.lookup 2 = some pairLeaf := by decide +kernel
  joiner_in_step pairGroup_reachable hleaf (by decide +kernel)

end Knowledge.Crypto
