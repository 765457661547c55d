import Knowledge.Crypto.Forgetting
import Knowledge.Lib.Cipher
import Knowledge.Lib.Machine
import Mathlib.Algebra.Group.Int.Defs

/-!
`crates/crypto/src/mls.rs`: the simplified MLS group keying. HKDF and the commit signature are
parameters; the welcome's hybrid KEM and AEAD are taken as ideal sealing to the new member's
published key, with the roster as associated data.
-/

set_option autoImplicit false

namespace Knowledge.Crypto
open Knowledge.Cipher
open Knowledge.Machine
open Knowledge.Sync (Uuid)

abbrev MlsGroupId := Uuid

abbrev MlsMemberId := Uuid

abbrev MlsEpoch := Nat

/-- An X25519 key of 32 bytes and an ML-KEM-768 key of 1184. -/
abbrev HybridPublicKey := BitVec 9728

def placeholderHybridPk : HybridPublicKey := 0

inductive MlsError where
  | provenanceSerialisation (reason : String)
  | provenanceVerification
  | epochOverflow
  | aead

def MlsEpoch.next (e : MlsEpoch) : Except MlsError MlsEpoch :=
  if e < 2^64-1 then .ok (e+1) else .error .epochOverflow

structure LeafKeyPackage where
  memberId : MlsMemberId
  initKey : HybridPublicKey
  deriving DecidableEq

inductive CommitOperation where
  | create (creator : MlsMemberId) (roster : List MlsMemberId)
  | add (added : MlsMemberId)
  | remove (removed : MlsMemberId)
  deriving DecidableEq

structure MlsCommit (Sig : Type) where
  groupId : MlsGroupId
  epoch : MlsEpoch
  operation : CommitOperation
  committedBy : MlsMemberId
  committedAt : Int
  signature : Sig

/-- `HKDF-SHA256` with a 32-byte output: salt, input keying material and info. -/
structure Hkdf (K : Type) where
  expand : String → K → List UInt8 → K

structure SignerBackend (Sig : Type) where
  signBytes : List UInt8 → Sig
  verifyBytes : List UInt8 → Sig → Bool

def CommitOperation.bytes : CommitOperation → List UInt8
  | create creator roster =>
    1 :: toBeBytes 16 creator.toNat ++ toBeBytes 4 roster.length ++
      roster.flatMap fun m => toBeBytes 16 m.toNat
  | add added => 2 :: toBeBytes 16 added.toNat
  | remove removed => 3 :: toBeBytes 16 removed.toNat

def signingPayload (groupId : MlsGroupId) (epoch : MlsEpoch) (operation : CommitOperation)
    (committedBy : MlsMemberId) (committedAt : Int) : List UInt8 :=
  toBeBytes 16 groupId.toNat ++ toBeBytes 8 epoch ++ operation.bytes ++
    toBeBytes 16 committedBy.toNat ++ toBeBytes 8 (committedAt.emod (2^64)).toNat

structure GroupKeySchedule (K : Type) where
  groupId : MlsGroupId
  epoch : MlsEpoch
  epochSecret : K
  sharedMemoryKey : K
  senderDataKey : K

structure MlsWelcome (K : Type) where
  groupId : MlsGroupId
  epoch : MlsEpoch
  roster : List MlsMemberId
  encryptedEpochSecret :
    Sealed HybridPublicKey Unit (MlsGroupId × MlsEpoch × List MlsMemberId) (K × K)

structure MlsGroup (K : Type) where
  groupId : MlsGroupId
  epoch : MlsEpoch
  members : Table MlsMemberId LeafKeyPackage
  schedule : GroupKeySchedule K
  ratchet : K

section

variable {K Sig : Type} (hkdf : Hkdf K) (signer : SignerBackend Sig)

def ratchetInfo (groupId : MlsGroupId) (epoch : MlsEpoch) (label : String) : List UInt8 :=
  toBeBytes 16 groupId.toNat ++ toBeBytes 8 epoch ++ label.toUTF8.data.toList

def ratchetEpoch (ratchet : K) (groupId : MlsGroupId) (epoch : MlsEpoch) : K × K :=
  (hkdf.expand "knowledge-mls-ratchet-v2" ratchet (ratchetInfo groupId epoch "|epoch-secret"),
    hkdf.expand "knowledge-mls-ratchet-v2" ratchet (ratchetInfo groupId epoch "|next-ratchet"))

def deriveSchedule (groupId : MlsGroupId) (epoch : MlsEpoch) (epochSecret : K) :
    GroupKeySchedule K where
  groupId := groupId
  epoch := epoch
  epochSecret := epochSecret
  sharedMemoryKey := hkdf.expand "knowledge-mls-key-schedule-v1" epochSecret
    (ratchetInfo groupId epoch "|shared-memory")
  senderDataKey := hkdf.expand "knowledge-mls-key-schedule-v1" epochSecret
    (ratchetInfo groupId epoch "|sender-data")

def signCommit (groupId : MlsGroupId) (epoch : MlsEpoch) (operation : CommitOperation)
    (committedBy : MlsMemberId) (now : Int) : MlsCommit Sig where
  groupId := groupId
  epoch := epoch
  operation := operation
  committedBy := committedBy
  committedAt := now
  signature := signer.signBytes (signingPayload groupId epoch operation committedBy now)

namespace MlsGroup

/-- The group with its creator alone; the id stands for the random one that is drawn. -/
def create (groupId : MlsGroupId) (creator : MlsMemberId) (leaf : LeafKeyPackage)
    (initialRatchet : K) (now : Int) : MlsGroup K × MlsCommit Sig :=
  let derived := ratchetEpoch hkdf initialRatchet groupId 0
  ({ groupId
     epoch := 0
     members := (∅ : Table MlsMemberId LeafKeyPackage).insert creator leaf
     schedule := deriveSchedule hkdf groupId 0 derived.1
     ratchet := derived.2 },
    signCommit signer groupId 0 (.create creator [creator]) creator now)

def contains (g : MlsGroup K) (id : MlsMemberId) : Bool := (g.members.lookup id).isSome

def addMember (g : MlsGroup K) (committedBy : MlsMemberId) (leaf : LeafKeyPackage) (now : Int) :
    Except MlsError (MlsCommit Sig) :=
  if g.contains leaf.memberId then .error (.provenanceSerialisation "member already in group")
  else do
    let epoch ← MlsEpoch.next g.epoch
    .ok (signCommit signer g.groupId epoch (.add leaf.memberId) committedBy now)

def removeMember (g : MlsGroup K) (committedBy removed : MlsMemberId) (now : Int) :
    Except MlsError (MlsCommit Sig) :=
  if !g.contains removed then .error (.provenanceSerialisation "member not in group")
  else do
    let epoch ← MlsEpoch.next g.epoch
    .ok (signCommit signer g.groupId epoch (.remove removed) committedBy now)

def validateOperation (g : MlsGroup K) : CommitOperation → Except MlsError Unit
  | .create _ _ => .error (.provenanceSerialisation
    "Create commits cannot be processed on an existing group")
  | .add added =>
    if g.contains added then .error (.provenanceSerialisation "member already present")
    else .ok ()
  | .remove removed =>
    if !g.contains removed then
      .error (.provenanceSerialisation "removed member is not in the roster")
    else .ok ()

def isCreate : CommitOperation → Bool
  | .create _ _ => true
  | _ => false

def applyOperation (members : Table MlsMemberId LeafKeyPackage) :
    CommitOperation → Table MlsMemberId LeafKeyPackage
  | .create _ _ => members
  | .add added => members.insert added ⟨added, placeholderHybridPk⟩
  | .remove removed => members.erase removed

def processCommit (g : MlsGroup K) (commit : MlsCommit Sig) : Except MlsError (MlsGroup K) :=
  if commit.groupId ≠ g.groupId then
    .error (.provenanceSerialisation "commit group_id mismatch")
  else if !signer.verifyBytes (signingPayload commit.groupId commit.epoch commit.operation
      commit.committedBy commit.committedAt) commit.signature then
    .error .provenanceVerification
  else if isCreate commit.operation then
    .error (.provenanceSerialisation "Create commits cannot be processed on an existing group")
  else if !g.contains commit.committedBy then
    .error (.provenanceSerialisation "committer is not a group member")
  else do
    let expected ← MlsEpoch.next g.epoch
    if commit.epoch ≠ expected then
      .error (.provenanceSerialisation "commit epoch out of order")
    else do
      g.validateOperation commit.operation
      let derived := ratchetEpoch hkdf g.ratchet g.groupId commit.epoch
      .ok { groupId := g.groupId
            epoch := commit.epoch
            members := applyOperation g.members commit.operation
            schedule := deriveSchedule hkdf g.groupId commit.epoch derived.1
            ratchet := derived.2 }

def buildWelcome (g : MlsGroup K) (added : MlsMemberId) : Except MlsError (MlsWelcome K) :=
  match g.members.lookup added with
  | none => .error (.provenanceSerialisation "added member is not in the current roster")
  | some leaf =>
    if leaf.initKey = placeholderHybridPk then
      .error (.provenanceSerialisation
        "added member's init_key is a placeholder; install_leaf with the real key package first")
    else
      let roster := g.members.keys.insertionSort (· ≤ ·)
      .ok ⟨g.groupId, g.epoch, roster,
        ⟨leaf.initKey, (), (g.groupId, g.epoch, roster), (g.schedule.epochSecret, g.ratchet)⟩⟩

def processWelcome (welcome : MlsWelcome K) (initKey : HybridPublicKey) :
    Except MlsError (MlsGroup K) :=
  match welcome.encryptedEpochSecret.openWith initKey
    (welcome.groupId, welcome.epoch, welcome.roster) with
  | none => .error .aead
  | some (epochSecret, ratchet) =>
    .ok { groupId := welcome.groupId
          epoch := welcome.epoch
          members := welcome.roster.foldl (fun t id => t.insert id ⟨id, placeholderHybridPk⟩) ∅
          schedule := deriveSchedule hkdf welcome.groupId welcome.epoch epochSecret
          ratchet := ratchet }

def installLeaf (g : MlsGroup K) (leaf : LeafKeyPackage) : MlsGroup K :=
  { g with members := g.members.insert leaf.memberId leaf }

end MlsGroup

end

end Knowledge.Crypto
