import Knowledge.Evidence.Rotation
import Knowledge.Permission.Rotation
import Knowledge.Substrate.MasterKey

/-!
`crates/substrate_server/src/key_rotation.rs`: each store is rotated into a file beside it, and
the two copies are renamed over the originals. A removal and a rename that undoes a step succeed.
-/

set_option autoImplicit false

namespace Knowledge.Substrate
open Knowledge.Evidence (Database EvidenceStore EvidenceError EvidenceStoreConfig
  MasterKeyRotationReport)
open Knowledge.Permission (PersistError PersistentTupleStore RelationTuple Rows TupleStore)
open Knowledge.Sync (Uuid)
open Knowledge.Vault

structure RotationPaths where
  storePath : String
  permissionsPath : String

def sibling (base suffix : String) : String := base ++ suffix

structure RotationOutcome where
  evidence : MasterKeyRotationReport
  permissionTuples : Nat
  evidenceBackup : String
  permissionsBackup : String

inductive RotationError where
  | badMasterKey (which : String)
  | keysIdentical
  | evidenceStoreMissing (path : String)
  | pathOccupied (path : String)
  | evidence (err : EvidenceError)
  | permission (err : PersistError)
  | io (context : String)

/-- The live files, the copies beside them, and what lies at the backup paths of this second. -/
structure Files where
  store : Option (DbFile Database)
  evidenceTmp : Option (DbFile Database)
  evidenceBackup : Option (DbFile Database)
  permissions : Option (DbFile Rows)
  permissionsTmp : Option (DbFile Rows)
  permissionsBackup : Option (DbFile Rows)

/-- The steps of `EvidenceStore::open` that may fail, in their order. -/
inductive StoreStep where
  | connect | derive | key | select | schema | migrate | stamp | preflight | deks
  deriving DecidableEq

/-- A read of the version that fails is taken for the version of a new file. -/
structure StoreFault where
  step : Option StoreStep
  versionUnread : Bool
  message : String

def StoreFault.none : StoreFault := ⟨.none, false, ""⟩

inductive Rename where
  | backUpStore | installStore | backUpPermissions | installPermissions

/-- What a run meets: where its steps fail, the clock, the random numbers, and the order in
which the set of tuples is iterated. A copy of the evidence store that fails leaves anything. -/
structure RotationEnv where
  openStore : StoreFault
  draws : Nat
  now : Int
  utf8 : Bool
  copyStore : Option (EvidenceError × Option (DbFile Database))
  openPermissions : OpenFault
  queryFails : Bool
  newV5 : Uuid → Permission.Bytes → Uuid
  order : (tuples : Finset RelationTuple) → {l // TupleStore.Enumerates l tuples}
  copyPermissions : PersistentTupleStore.RotateEnv
  stamp : Nat
  renameFails : Rename → Bool

def toMasterKey (key : List UInt8) : MasterKey :=
  BitVec.ofNat 256 (key.foldl (fun acc b => acc*256+b.toNat) 0)

def storePageKey (masterKey : MasterKey) : DerivedKey := deriveKey masterKey "sqlcipher:store:v1"

def defaultConfig : EvidenceStoreConfig where
  inlineThresholdBytes := 512
  ringBufferMaxBytes := 5*1024*1024

def detectedVersion (file : DbFile Database) (pageKey : DerivedKey) (fault : StoreFault) : Int :=
  if fault.versionUnread || !(file.pageKey.all (· = pageKey)) then 0 else file.userVersion

def unlockStore (file : DbFile Database) (pageKey : DerivedKey) (fault : StoreFault) :
    DbFile Database × Except EvidenceError Unit :=
  let sqlite : EvidenceError := .sqlite fault.message
  match fault.step with
  | some .connect | some .key => (file, .error sqlite)
  | some .derive => (file, .error .crypto)
  | some .select => (file, .error (.schema "SQLCipher key did not unlock the database"))
  | step =>
    if detectedVersion file pageKey fault > schemaVersion then
      (file, .error (.schema ("evidence_store database has an unsupported schema version: it was "
        ++ "written either by a newer build or by a pre-release internal build, neither of which "
        ++ "has an upgrade path to the 1.0 baseline; recreate the database from source data")))
    -- the schema is the first to touch the pages, so it is what a wrong key fails in
    else if step = some .schema ∨ !(file.pageKey.all (· = pageKey)) then (file, .error sqlite)
    else
      let file := { file with pageKey := some pageKey }
      if step = some .migrate ∨ step = some .stamp then (file, .error sqlite)
      else
        let file := { file with userVersion := schemaVersion }
        if step = some .preflight then
          (file, .error (.schema "user_version does not match SCHEMA_VERSION after bootstrap"))
        else if step = some .deks then (file, .error sqlite)
        else (file, .ok ())

def openStore (file : DbFile Database) (masterKey : MasterKey) (draws : Nat) (fault : StoreFault) :
    DbFile Database × Except EvidenceError EvidenceStore :=
  match unlockStore file (storePageKey masterKey) fault with
  | (file, .error err) => (file, .error err)
  | (file, .ok ()) => (file, EvidenceStore.openFile file.rows masterKey defaultConfig draws)

def copyEvidence (store : EvidenceStore) (newKey : MasterKey) (tmp : String) (taken : Bool)
    (env : RotationEnv) :
    Option (DbFile Database) × Except EvidenceError MasterKeyRotationReport :=
  match env.copyStore with
  | some (err, left) => (left, .error err)
  | none =>
    match store.rotateMasterKey newKey ⟨taken, env.utf8, tmp⟩ env.now with
    | (_, copy, reply) =>
      (copy.map fun db => ⟨some (storePageKey newKey), schemaVersion, db⟩, reply)

namespace Files

section

variable (files : Files)

def removeEvidenceTmp : Files := { files with evidenceTmp := none }

def removeTmps : Files := { files with evidenceTmp := none, permissionsTmp := none }

def backUpStore : Files :=
  { files with store := none, evidenceBackup := files.store }

def installStore : Files :=
  { files with evidenceTmp := none, store := files.evidenceTmp }

def restoreStore : Files :=
  { files with evidenceBackup := none, store := files.evidenceBackup }

def backUpPermissions : Files :=
  { files with permissions := none, permissionsBackup := files.permissions }

def installPermissions : Files :=
  { files with permissionsTmp := none, permissions := files.permissionsTmp }

def restorePermissions : Files :=
  { files with permissionsBackup := none, permissions := files.permissionsBackup }

def rollbackEvidence : Files :=
  restoreStore { files with store := none, evidenceTmp := files.store }

end

end Files

def ioError (context source target : String) : RotationError :=
  .io s!"{context} ({source} -> {target})"

section Phases

variable (paths : RotationPaths) (env : RotationEnv)

def rotateEvidence (files : Files) (file : DbFile Database) (oldKey newKey : MasterKey) :
    Files × Except RotationError MasterKeyRotationReport :=
  match openStore file oldKey env.draws env.openStore with
  | (file, .error err) => ({ files with store := some file }, .error (.evidence err))
  | (file, .ok store) =>
    let files := { files with store := some file }
    match copyEvidence store newKey (sibling paths.storePath ".rotating")
        files.evidenceTmp.isSome env with
    | (copy, .error err) =>
      (Files.removeEvidenceTmp { files with evidenceTmp := copy }, .error (.evidence err))
    | (copy, .ok report) => ({ files with evidenceTmp := copy }, .ok report)

def rotatePermissions (files : Files) (oldKey newKey : MasterKey) :
    Files × Except RotationError Nat :=
  match PersistentTupleStore.open files.permissions oldKey env.openPermissions env.queryFails with
  | (file, .error err) =>
    (Files.removeEvidenceTmp { files with permissions := some file },
      .error (.permission (.vault err)))
  | (file, .ok store) =>
    let files := { files with permissions := some file }
    match store.rotateMasterKey env.newV5 newKey files.permissionsTmp
        (env.order store.store.tuples).1 env.copyPermissions with
    | (copy, .error err) =>
      (Files.removeTmps { files with permissionsTmp := copy }, .error (.permission err))
    | (copy, .ok n) => ({ files with permissionsTmp := copy }, .ok n)

def evidenceBackupPath : String := sibling paths.storePath s!".bak.{env.stamp}"

def permissionsBackupPath : String := sibling paths.permissionsPath s!".bak.{env.stamp}"

def swap (files : Files) : Files × Except RotationError Unit :=
  let evidenceBackup := evidenceBackupPath paths env
  let permissionsBackup := permissionsBackupPath paths env
  if files.evidenceBackup.isSome then (files.removeTmps, .error (.pathOccupied evidenceBackup))
  else if files.permissionsBackup.isSome then
    (files.removeTmps, .error (.pathOccupied permissionsBackup))
  else if env.renameFails .backUpStore ∨ files.store.isNone then
    (files.removeTmps, .error (ioError "back up evidence store" paths.storePath evidenceBackup))
  else
    let files := files.backUpStore
    if env.renameFails .installStore ∨ files.evidenceTmp.isNone then
      (files.restoreStore.removeTmps, .error (ioError "install rotated evidence store"
        (sibling paths.storePath ".rotating") paths.storePath))
    else
      let files := files.installStore
      if env.renameFails .backUpPermissions ∨ files.permissions.isNone then
        (files.rollbackEvidence.removeTmps, .error (ioError "back up permission store"
          paths.permissionsPath permissionsBackup))
      else
        let files := files.backUpPermissions
        if env.renameFails .installPermissions ∨ files.permissionsTmp.isNone then
          (files.restorePermissions.rollbackEvidence.removeTmps,
            .error (ioError "install rotated permission store"
              (sibling paths.permissionsPath ".rotating") paths.permissionsPath))
        else (files.installPermissions, .ok ())

def rotateStores (files : Files) (file : DbFile Database) (oldKey newKey : MasterKey) :
    Files × Except RotationError RotationOutcome :=
  match rotateEvidence paths env files file oldKey newKey with
  | (files, .error err) => (files, .error err)
  | (files, .ok evidence) =>
    match rotatePermissions env files oldKey newKey with
    | (files, .error err) => (files, .error err)
    | (files, .ok permissionTuples) =>
      match swap paths env files with
      | (files, .error err) => (files, .error err)
      | (files, .ok ()) =>
        (files, .ok ⟨evidence, permissionTuples, evidenceBackupPath paths env,
          permissionsBackupPath paths env⟩)

def rotate (files : Files) (oldMasterHex newMasterHex : String) :
    Files × Except RotationError RotationOutcome :=
  match decodeMasterKey oldMasterHex with
  | none => (files, .error (.badMasterKey "old"))
  | some oldKey =>
    match decodeMasterKey newMasterHex with
    | none => (files, .error (.badMasterKey "new"))
    | some newKey =>
      if oldKey = newKey then (files, .error .keysIdentical)
      else
        match files.store with
        | none => (files, .error (.evidenceStoreMissing paths.storePath))
        | some file =>
          if files.evidenceTmp.isSome then
            (files, .error (.pathOccupied (sibling paths.storePath ".rotating")))
          else if files.permissionsTmp.isSome then
            (files, .error (.pathOccupied (sibling paths.permissionsPath ".rotating")))
          else rotateStores paths env files file (toMasterKey oldKey) (toMasterKey newKey)

end Phases

/-- A database that was opened before: its key is set and its version stamped. -/
def Initialised {R : Type} (file : Option (DbFile R)) : Prop :=
  ∃ f, file = some f ∧ f.pageKey.isSome = true ∧ f.userVersion = schemaVersion

/-- What an attempt to open a file under the key may leave: a database that was opened before is
as it was, another one has its rows still, none where it was absent. -/
def Touched {R : Type} (pageKey : DerivedKey) (empty : R) (before after : Option (DbFile R)) :
    Prop :=
  after = before ∨ ¬Initialised before ∧ ∃ f, after = some f
    ∧ (f.pageKey = none ∨ f.pageKey = some pageKey) ∧ f.rows = (before.map DbFile.rows).getD empty

theorem touched_written {R : Type} {pageKey : DerivedKey} {empty : R} {file : DbFile R}
    (hkey : file.pageKey.all (· = pageKey) = true) {version : Int}
    (hversion : version = file.userVersion ∨ version = schemaVersion) :
    Touched pageKey empty (some file) (some ⟨some pageKey, version, file.rows⟩) := by
  by_cases hfile : Initialised (some file)
  · obtain ⟨f, hf, hset, hstamped⟩ := hfile
    obtain rfl := Option.some.inj hf
    obtain ⟨key, hpage⟩ := Option.isSome_iff_exists.mp hset
    simp only [hpage, Option.all_some, decide_eq_true_eq] at hkey
    left
    rw [← hkey, ← hpage, show version = file.userVersion by omega]
  · exact .inr ⟨hfile, _, rfl, .inr rfl, rfl⟩

theorem unlockStore_touched (file : DbFile Database) (pageKey : DerivedKey) (fault : StoreFault) :
    Touched pageKey .empty (some file) (some (unlockStore file pageKey fault).1)
      ∧ ((unlockStore file pageKey fault).2 = .ok () →
        (unlockStore file pageKey fault).1 = ⟨some pageKey, schemaVersion, file.rows⟩) := by
  unfold unlockStore
  dsimp only
  split
  case h_5 =>
    split
    · exact ⟨.inl rfl, nofun⟩
    by_cases hschema : fault.step = some .schema ∨ !(file.pageKey.all (· = pageKey))
    · rw [if_pos hschema]
      exact ⟨.inl rfl, nofun⟩
    rw [if_neg hschema]
    have hkey : file.pageKey.all (· = pageKey) = true := by simpa using (not_or.mp hschema).2
    split
    · exact ⟨touched_written hkey (.inl rfl), nofun⟩
    have hopened := @touched_written _ pageKey Database.empty file hkey _ (.inr rfl)
    split
    · exact ⟨hopened, nofun⟩
    split
    · exact ⟨hopened, nofun⟩
    · exact ⟨hopened, fun _ => rfl⟩
  all_goals exact ⟨.inl rfl, nofun⟩

theorem unlock_touched {R : Type} (empty : R) (file : DbFile R) (pageKey : DerivedKey)
    (fault : OpenFault) :
    Touched pageKey empty (some file) (some (file.unlock pageKey fault).1) := by
  unfold DbFile.unlock
  dsimp only
  split
  case h_5 =>
    by_cases hversion : file.existingVersion pageKey fault ≠ 0
        ∧ file.existingVersion pageKey fault ≠ schemaVersion
    · rw [if_pos hversion]
      exact .inl rfl
    rw [if_neg hversion]
    by_cases hschema : fault.step = some .schema ∨ !(file.pageKey.all (· = pageKey))
    · rw [if_pos hschema]
      exact .inl rfl
    rw [if_neg hschema]
    have hkey : file.pageKey.all (· = pageKey) = true := by simpa using (not_or.mp hschema).2
    split
    · exact touched_written hkey (.inl rfl)
    split
    · exact touched_written hkey (.inr rfl)
    · exact touched_written hkey (.inr rfl)
  all_goals exact .inl rfl

theorem openStore_touched (file : DbFile Database) (masterKey : MasterKey) (draws : Nat)
    (fault : StoreFault) : Touched (storePageKey masterKey) .empty (some file)
      (some (openStore file masterKey draws fault).1) := by
  have htouched := (unlockStore_touched file (storePageKey masterKey) fault).1
  rw [openStore]
  generalize unlockStore file (storePageKey masterKey) fault = u at *
  obtain ⟨left, reply⟩ := u
  cases reply <;> exact htouched

theorem openStore_written (masterKey : MasterKey) (db : Database) (draws : Nat) :
    openStore ⟨some (storePageKey masterKey), schemaVersion, db⟩ masterKey draws .none
      = (⟨some (storePageKey masterKey), schemaVersion, db⟩,
        EvidenceStore.openFile db masterKey defaultConfig draws) := by
  simp [openStore, unlockStore, detectedVersion, StoreFault.none]

theorem openStore_reopen {file left : DbFile Database} {masterKey : MasterKey} {draws : Nat}
    {fault : StoreFault} {s : EvidenceStore}
    (h : openStore file masterKey draws fault = (left, .ok s)) :
    openStore left masterKey draws .none = (left, .ok s) ∧ s.config = defaultConfig := by
  have hok := (unlockStore_touched file (storePageKey masterKey) fault).2
  rw [openStore] at h
  generalize unlockStore file (storePageKey masterKey) fault = u at *
  obtain ⟨opened, reply⟩ := u
  cases reply with
  | error err => cases (Prod.mk.inj h).2
  | ok _ =>
    obtain ⟨rfl, hopen⟩ := Prod.mk.inj h
    have hopened := hok rfl
    dsimp only at hopened
    rw [hopened] at hopen ⊢
    refine ⟨by rw [openStore_written, hopen], ?_⟩
    unfold EvidenceStore.openFile at hopen
    split at hopen
    · cases hopen
    · split at hopen
      · cases hopen
      · split at hopen
        · cases hopen
        · obtain rfl := Except.ok.inj hopen
          rfl

theorem openPermissions_touched (file : Option (DbFile Rows)) (masterKey : MasterKey)
    (fault : OpenFault) (queryFails : Bool) :
    Touched (deriveKey masterKey Permission.pageContext) ∅ file
      (some (PersistentTupleStore.open file masterKey fault queryFails).1) := by
  have hleft : (PersistentTupleStore.open file masterKey fault queryFails).1 = ((file.getD
      PersistentTupleStore.emptyFile).unlock (deriveKey masterKey Permission.pageContext)
        fault).1 := by
    unfold PersistentTupleStore.open
    split
    · rename_i hunlock
      rw [hunlock]
    · rename_i hunlock
      rw [hunlock]
      dsimp only
      split <;> rfl
  rw [hleft]
  cases file with
  | some file => exact unlock_touched ∅ file _ fault
  | none =>
    refine .inr ⟨(fun ⟨f, hf, _⟩ => nomatch hf), _, rfl, ?_, ?_⟩
    · obtain ⟨err, h⟩ | h | ⟨reply, h⟩ := DbFile.unlock_cases PersistentTupleStore.emptyFile
        (deriveKey masterKey Permission.pageContext) fault
      · exact .inl (by rw [Option.getD_none, h]; rfl)
      · exact .inr (by rw [Option.getD_none, h])
      · exact .inr (by rw [Option.getD_none, h])
    · exact DbFile.unlock_rows _ _ _

/-- The live file reads under the new key as the backup does under the old one: the same rows,
and the same answers for every scope that is not forgotten. -/
def EvidenceCarried (oldKey newKey : MasterKey) (backup live : DbFile Database) : Prop :=
  ∃ draws s, openStore backup oldKey draws .none = (backup, .ok s) ∧
    ∀ n, ∃ t, openStore live newKey n .none = (live, .ok t) ∧ s.db.SameData t.db
      ∧ t.db.forgottenScopes = s.db.forgottenScopes
      ∧ ∀ scope, s.db.forgottenScopes.lookup scope = none → EvidenceStore.SameReads s t scope

def PermissionsCarried (oldKey newKey : MasterKey) (backup live : DbFile Rows) : Prop :=
  ∃ p q, PersistentTupleStore.open (some backup) oldKey .none false = (backup, .ok p)
    ∧ PersistentTupleStore.open (some live) newKey .none false = (live, .ok q)
    ∧ q.store.tuples = p.store.tuples

theorem copyEvidence_ok {s : EvidenceStore} (hconfig : s.config = defaultConfig)
    {newKey : MasterKey} {tmp : String} {taken : Bool} {env : RotationEnv}
    {file : Option (DbFile Database)} {report : MasterKeyRotationReport}
    (h : copyEvidence s newKey tmp taken env = (file, .ok report)) :
    ∃ copy, file = some copy ∧ ∀ n, ∃ t, openStore copy newKey n .none = (copy, .ok t)
      ∧ s.db.SameData t.db ∧ t.db.forgottenScopes = s.db.forgottenScopes
      ∧ ∀ scope, s.db.forgottenScopes.lookup scope = none → EvidenceStore.SameReads s t scope := by
  unfold copyEvidence at h
  split at h
  · cases (Prod.mk.inj h).2
  · generalize hrotate : s.rotateMasterKey newKey ⟨taken, env.utf8, tmp⟩ env.now = r at h
    obtain ⟨store, copied, reply⟩ := r
    obtain ⟨rfl, rfl⟩ := Prod.mk.inj h
    obtain ⟨db, rfl, -, hreads⟩ := EvidenceStore.rotateMasterKey_reads hrotate
    refine ⟨_, rfl, fun n => ?_⟩
    obtain ⟨t, hopen, hcarried⟩ := hreads n
    exact ⟨t, by rw [openStore_written, ← hconfig, hopen], hcarried⟩

section Phases

variable (paths : RotationPaths) (env : RotationEnv)

theorem rotateEvidence_spec {files : Files} (htmp : files.evidenceTmp = none)
    (file : DbFile Database) (oldKey newKey : MasterKey) :
    ∃ opened, Touched (storePageKey oldKey) .empty (some file) (some opened) ∧
      ((∃ err, rotateEvidence paths env files file oldKey newKey
          = ({ files with store := some opened }, .error err)) ∨
        ∃ copy report, rotateEvidence paths env files file oldKey newKey
            = ({ files with store := some opened, evidenceTmp := some copy }, .ok report)
          ∧ EvidenceCarried oldKey newKey opened copy) := by
  have htouched := openStore_touched file oldKey env.draws env.openStore
  rw [rotateEvidence]
  generalize hopen : openStore file oldKey env.draws env.openStore = o at *
  obtain ⟨opened, reply⟩ := o
  refine ⟨opened, htouched, ?_⟩
  cases reply with
  | error err => exact .inl ⟨_, rfl⟩
  | ok store =>
    obtain ⟨hreopen, hconfig⟩ := openStore_reopen hopen
    dsimp only
    split
    · rename_i copy err hcopy
      exact .inl ⟨.evidence err, by simp [Files.removeEvidenceTmp, htmp]⟩
    · rename_i copy report hcopy
      obtain ⟨copied, rfl, hcarried⟩ := copyEvidence_ok hconfig hcopy
      exact .inr ⟨copied, report, rfl, env.draws, store, hreopen, hcarried⟩

theorem rotatePermissions_spec {files : Files} (htmp : files.permissionsTmp = none)
    (oldKey newKey : MasterKey) :
    ∃ opened, Touched (deriveKey oldKey Permission.pageContext) ∅ files.permissions (some opened) ∧
      ((∃ err, rotatePermissions env files oldKey newKey
          = ({ files with evidenceTmp := none, permissions := some opened }, .error err)) ∨
        ∃ copy n, rotatePermissions env files oldKey newKey
            = ({ files with permissions := some opened, permissionsTmp := some copy }, .ok n)
          ∧ PermissionsCarried oldKey newKey opened copy) := by
  have htouched := openPermissions_touched files.permissions oldKey env.openPermissions
    env.queryFails
  rw [rotatePermissions]
  generalize hopen : PersistentTupleStore.open files.permissions oldKey env.openPermissions
    env.queryFails = o at *
  obtain ⟨opened, reply⟩ := o
  refine ⟨opened, htouched, ?_⟩
  cases reply with
  | error err => exact .inl ⟨_, rfl⟩
  | ok store =>
    obtain ⟨rfl, -, hloaded⟩ := PersistentTupleStore.open_loaded hopen
    dsimp only
    split
    · rename_i copy err hcopy
      exact .inl ⟨.permission err, by simp [Files.removeTmps, htmp]⟩
    · rename_i copy n hcopy
      rw [htmp] at hcopy
      obtain ⟨copied, q, rfl, hq, htuples⟩ := PersistentTupleStore.rotateMasterKey_reads hloaded
        (env.order store.store.tuples).2 hcopy
      exact .inr ⟨copied, n, rfl, store, q, hloaded.reopen, hq, htuples⟩

theorem Files.restoreStore_undoes (files : Files) (h : files.evidenceBackup = none) :
    files.backUpStore.restoreStore.removeTmps = files.removeTmps := by
  simp [restoreStore, backUpStore, removeTmps, h]

theorem Files.rollbackEvidence_undoes (files : Files) (h : files.evidenceBackup = none) :
    files.backUpStore.installStore.rollbackEvidence.removeTmps = files.removeTmps := by
  simp [rollbackEvidence, restoreStore, backUpStore, installStore, removeTmps, h]

theorem Files.rollback_undoes (files : Files) (h : files.evidenceBackup = none)
    (hpermissions : files.permissionsBackup = none) :
    files.backUpStore.installStore.backUpPermissions.restorePermissions.rollbackEvidence.removeTmps
      = files.removeTmps := by
  simp [rollbackEvidence, restoreStore, backUpStore, installStore, removeTmps, restorePermissions,
    backUpPermissions, h, hpermissions]

theorem swap_cases (files : Files) :
    (∃ err, swap paths env files = (files.removeTmps, .error err)) ∨
      swap paths env files = (⟨files.evidenceTmp, none, files.store, files.permissionsTmp, none,
        files.permissions⟩, .ok ()) := by
  unfold swap
  dsimp only
  split
  · exact .inl ⟨_, rfl⟩
  split
  · exact .inl ⟨_, rfl⟩
  rename_i hevidence hpermissions
  rw [Option.not_isSome_iff_eq_none] at hevidence hpermissions
  split
  · exact .inl ⟨_, rfl⟩
  split
  · exact .inl ⟨_, congrArg (·, _) (files.restoreStore_undoes hevidence)⟩
  split
  · exact .inl ⟨_, congrArg (·, _) (files.rollbackEvidence_undoes hevidence)⟩
  split
  · exact .inl ⟨_, congrArg (·, _) (files.rollback_undoes hevidence hpermissions)⟩
  · exact .inr rfl

end Phases

/-- The live files are those of before, as far as opening them under the old key leaves a file as
it is, and nothing else has changed. -/
structure Unrotated (oldMasterHex : String) (before after : Files) : Prop where
  evidenceTmp : after.evidenceTmp = before.evidenceTmp
  permissionsTmp : after.permissionsTmp = before.permissionsTmp
  evidenceBackup : after.evidenceBackup = before.evidenceBackup
  permissionsBackup : after.permissionsBackup = before.permissionsBackup
  store : after.store = before.store ∨ ∃ key, decodeMasterKey oldMasterHex = some key
    ∧ Touched (storePageKey (toMasterKey key)) .empty before.store after.store
  permissions : after.permissions = before.permissions ∨ ∃ key,
    decodeMasterKey oldMasterHex = some key
    ∧ Touched (deriveKey (toMasterKey key) Permission.pageContext) ∅ before.permissions
        after.permissions

/-- The live files read under the new key as the backups do under the old one, and the backups
are the files of before. -/
structure Rotated (oldKey newKey : MasterKey) (before after : Files) : Prop where
  evidenceTmp : after.evidenceTmp = none
  permissionsTmp : after.permissionsTmp = none
  evidenceBackup : Touched (storePageKey oldKey) .empty before.store after.evidenceBackup
  permissionsBackup : Touched (deriveKey oldKey Permission.pageContext) ∅ before.permissions
    after.permissionsBackup
  evidence : ∃ backup live, after.evidenceBackup = some backup ∧ after.store = some live
    ∧ EvidenceCarried oldKey newKey backup live
  permissions : ∃ backup live, after.permissionsBackup = some backup
    ∧ after.permissions = some live ∧ PermissionsCarried oldKey newKey backup live

theorem Unrotated.refl (oldMasterHex : String) (files : Files) :
    Unrotated oldMasterHex files files := ⟨rfl, rfl, rfl, rfl, .inl rfl, .inl rfl⟩

section Phases

variable (paths : RotationPaths) (env : RotationEnv)

theorem rotateStores_spec {files : Files} (hevidence : files.evidenceTmp = none)
    (hpermissions : files.permissionsTmp = none) {file : DbFile Database}
    (hfile : files.store = some file) {oldMasterHex : String} {key : List UInt8}
    (hkey : decodeMasterKey oldMasterHex = some key) (newKey : MasterKey) :
    (∃ after err, rotateStores paths env files file (toMasterKey key) newKey = (after, .error err)
        ∧ Unrotated oldMasterHex files after) ∨
      ∃ after outcome, rotateStores paths env files file (toMasterKey key) newKey
          = (after, .ok outcome) ∧ Rotated (toMasterKey key) newKey files after := by
  obtain ⟨opened, hstore, ⟨err, hrotate⟩ | ⟨copy, report, hrotate, hcarried⟩⟩ :=
    rotateEvidence_spec paths env hevidence file (toMasterKey key) newKey
  all_goals rw [← hfile] at hstore
  · refine .inl ⟨{ files with store := some opened }, err, by simp only [rotateStores, hrotate], ?_⟩
    exact ⟨rfl, rfl, rfl, rfl, .inr ⟨key, hkey, hstore⟩, .inl rfl⟩
  · obtain ⟨grants, hgrants, ⟨err, hcopy⟩ | ⟨copied, n, hcopy, htuples⟩⟩ :=
      @rotatePermissions_spec env
        { files with store := some opened, evidenceTmp := some copy } hpermissions
        (toMasterKey key) newKey
    · refine .inl ⟨_, err, by simp only [rotateStores, hrotate, hcopy]; rfl, ?_⟩
      exact ⟨hevidence.symm, rfl, rfl, rfl, .inr ⟨key, hkey, hstore⟩, .inr ⟨key, hkey, hgrants⟩⟩
    · obtain ⟨err, hswap⟩ | hswap := swap_cases paths env { files with
          store := some opened, evidenceTmp := some copy, permissions := some grants,
          permissionsTmp := some copied }
      · refine .inl ⟨_, err, by simp only [rotateStores, hrotate, hcopy, hswap]; rfl, ?_⟩
        exact ⟨hevidence.symm, hpermissions.symm, rfl, rfl, .inr ⟨key, hkey, hstore⟩,
          .inr ⟨key, hkey, hgrants⟩⟩
      · refine .inr ⟨_, _, by simp only [rotateStores, hrotate, hcopy, hswap]; rfl, ?_⟩
        exact ⟨rfl, rfl, hstore, hgrants, ⟨opened, copy, rfl, rfl, hcarried⟩,
          ⟨grants, copied, rfl, rfl, htuples⟩⟩

/-- A rotation is one of the two: nothing was rotated, or both stores were. -/
theorem rotate_all_or_nothing (files : Files) (oldMasterHex newMasterHex : String) :
    (∃ after err, rotate paths env files oldMasterHex newMasterHex = (after, .error err)
        ∧ Unrotated oldMasterHex files after) ∨
      ∃ after outcome oldKey newKey, rotate paths env files oldMasterHex newMasterHex
          = (after, .ok outcome)
        ∧ decodeMasterKey oldMasterHex = some oldKey ∧ decodeMasterKey newMasterHex = some newKey
        ∧ Rotated (toMasterKey oldKey) (toMasterKey newKey) files after := by
  unfold rotate
  have hrefused := Unrotated.refl oldMasterHex files
  split
  · exact .inl ⟨_, _, rfl, hrefused⟩
  rename_i oldKey hold
  split
  · exact .inl ⟨_, _, rfl, hrefused⟩
  rename_i newKey hnew
  split
  · exact .inl ⟨_, _, rfl, hrefused⟩
  split
  · exact .inl ⟨_, _, rfl, hrefused⟩
  rename_i file hfile
  split
  · exact .inl ⟨_, _, rfl, hrefused⟩
  rename_i hevidence
  split
  · exact .inl ⟨_, _, rfl, hrefused⟩
  rename_i hpermissions
  rw [Option.not_isSome_iff_eq_none] at hevidence hpermissions
  obtain hfailed | ⟨after, outcome, hok, hrotated⟩ :=
    rotateStores_spec paths env hevidence hpermissions hfile hold (toMasterKey newKey)
  · exact .inl hfailed
  · exact .inr ⟨after, outcome, oldKey, newKey, hok, hold, hnew, hrotated⟩

end Phases

def oldHex : String := "1111111111111111111111111111111111111111111111111111111111111111"

def newHex : String := "2222222222222222222222222222222222222222222222222222222222222222"

def sampleOldKey : MasterKey := toMasterKey (List.replicate 32 0x11)

def sampleNewKey : MasterKey := toMasterKey (List.replicate 32 0x22)

noncomputable def sampleOrder (tuples : Finset RelationTuple) :
    {l // TupleStore.Enumerates l tuples} :=
  if h : tuples = ∅ then ⟨[], List.nodup_nil, h.symm⟩
  else ⟨tuples.toList, tuples.nodup_toList, tuples.toList_toFinset⟩

def cleanCopy : PersistentTupleStore.RotateEnv :=
  ⟨.none, false, fun n => ⟨n, 0, none⟩, false, false⟩

noncomputable def sampleEnv (copyPermissions : PersistentTupleStore.RotateEnv) : RotationEnv :=
  ⟨.none, 20, 0, true, none, .none, false, fun _ name => BitVec.ofNat 128 name.length, sampleOrder,
    copyPermissions, 5, fun _ => false⟩

def sampleShredded : EvidenceStore :=
  let store : EvidenceStore := ⟨.empty, defaultConfig, ∅, sampleOldKey, 0⟩
  let store := (store.ensureScopeDek 3 0).1
  let store := (store.ingest Evidence.EvidenceStore.anyFirst 3 [1, 2, 3] none .useful 0).1
  store.recordForgottenScopeAt 3 0

def sampleFiles : Files :=
  ⟨some ⟨some (storePageKey sampleOldKey), schemaVersion, sampleShredded.db⟩, none, none, none,
    none, none⟩

def samplePaths : RotationPaths := ⟨"substrate.db", "permissions.db"⟩

noncomputable def sampleRun (copyPermissions : PersistentTupleStore.RotateEnv) :
    Files × Except RotationError RotationOutcome :=
  rotate samplePaths (sampleEnv copyPermissions) sampleFiles oldHex newHex

def firstBody (file : Option (DbFile Database)) (masterKey : MasterKey) : Option (List UInt8) := do
  let file ← file
  let store ← (openStore file masterKey 50 .none).2.toOption
  let row ← store.db.evidence.rows.head?
  (store.readBody row.1).2.toOption

/-- With no permission store there, a rotation whose copy of it fails leaves an empty one behind;
and what was left of a forgotten scope is gone from the rotated store. -/
theorem rotation_leaves_permissions :
    ((sampleRun { cleanCopy with queryFails := true }).2.toBool = false
      ∧ sampleFiles.permissions.isSome = false
      ∧ (sampleRun { cleanCopy with queryFails := true }).1.permissions.isSome = true)
    ∧ (sampleRun cleanCopy).2.toBool = true
      ∧ firstBody (sampleRun cleanCopy).1.evidenceBackup sampleOldKey = some [1, 2, 3]
      ∧ firstBody (sampleRun cleanCopy).1.store sampleNewKey = none := by
  decide +kernel

end Knowledge.Substrate
