import Knowledge.Lib.Cipher

/-!
The SQLCipher files of the permission, tenant and audit services. Their `open` functions differ
only in the derivation contexts and in the rows they load: the page key unlocks the file, the
schema version is looked at, the schema is applied and the payload key is derived.
-/

set_option autoImplicit false

namespace Knowledge.Vault

abbrev MasterKey := BitVec 256

/-- `derive_key`, taken as ideal: keys of different masters or contexts are different. -/
structure DerivedKey where
  master : MasterKey
  context : String
  deriving DecidableEq

def deriveKey (master : MasterKey) (context : String) : DerivedKey := ⟨master, context⟩

/-- The errors that the driver, the cryptography and the checks around them have in common. -/
inductive VaultError where
  | sqlite
  | crypto
  | persistence (message : String)

def schemaVersion : Int := 1

/-- A database file. Before anything is written it has no page key. -/
structure DbFile (Rows : Type) where
  pageKey : Option DerivedKey
  userVersion : Int
  rows : Rows

/-- The steps of `open` that may fail, in their order. -/
inductive OpenStep where
  | connect | derivePage | key | select | schema | stamp | derivePayload
  deriving DecidableEq

/-- A read of the version that fails is taken for the version of a new file. -/
structure OpenFault where
  step : Option OpenStep
  versionUnread : Bool

def OpenFault.none : OpenFault := ⟨.none, false⟩

namespace DbFile

variable {Rows : Type}

def existingVersion (file : DbFile Rows) (pageKey : DerivedKey) (fault : OpenFault) : Int :=
  if fault.versionUnread || !(file.pageKey.all (· = pageKey)) then 0 else file.userVersion

def unlock (file : DbFile Rows) (pageKey : DerivedKey) (fault : OpenFault) :
    DbFile Rows × Except VaultError Unit :=
  match fault.step with
  | some .connect | some .key => (file, .error .sqlite)
  | some .derivePage => (file, .error .crypto)
  | some .select => (file, .error (.persistence "SQLCipher key did not unlock the database"))
  | step =>
    let version := file.existingVersion pageKey fault
    if version ≠ 0 ∧ version ≠ schemaVersion then
      (file, .error (.persistence "schema version mismatch — refusing to open"))
    -- the first statement that touches the pages is the one that finds a wrong key
    else if step = some .schema ∨ !(file.pageKey.all (· = pageKey)) then (file, .error .sqlite)
    else
      let file := { file with pageKey := some pageKey }
      if step = some .stamp then (file, .error .sqlite)
      else
        let file := { file with userVersion := schemaVersion }
        if step = some .derivePayload then (file, .error .crypto) else (file, .ok ())

/-- How far `open` got: before the first write, past the schema, or past the version stamp. -/
theorem unlock_cases (file : DbFile Rows) (pageKey : DerivedKey) (fault : OpenFault) :
    (∃ err, file.unlock pageKey fault = (file, .error err)) ∨
      file.unlock pageKey fault = ({ file with pageKey := some pageKey }, .error .sqlite) ∨
      ∃ reply, file.unlock pageKey fault = (⟨some pageKey, schemaVersion, file.rows⟩, reply) := by
  unfold unlock
  split
  case h_5 =>
    dsimp only
    by_cases hversion : file.existingVersion pageKey fault ≠ 0 ∧
        file.existingVersion pageKey fault ≠ schemaVersion
    · exact .inl ⟨_, if_pos hversion⟩
    rw [if_neg hversion]
    by_cases hschema : fault.step = some .schema ∨ !(file.pageKey.all (· = pageKey))
    · exact .inl ⟨_, if_pos hschema⟩
    rw [if_neg hschema]
    by_cases hstamp : fault.step = some .stamp
    · exact .inr (.inl (if_pos hstamp))
    rw [if_neg hstamp]
    right
    right
    split
    · exact ⟨_, rfl⟩
    · exact ⟨_, rfl⟩
  all_goals exact .inl ⟨_, rfl⟩

theorem unlock_rows (file : DbFile Rows) (pageKey : DerivedKey) (fault : OpenFault) :
    (file.unlock pageKey fault).1.rows = file.rows := by
  obtain ⟨err, h⟩ | h | ⟨reply, h⟩ := file.unlock_cases pageKey fault
  all_goals rw [h]

theorem unlock_ok {pageKey : DerivedKey} {file : DbFile Rows} {fault : OpenFault}
    (hok : (file.unlock pageKey fault).2 = .ok ()) :
    (file.unlock pageKey fault).1 = ⟨some pageKey, schemaVersion, file.rows⟩ := by
  obtain ⟨err, h⟩ | h | ⟨reply, h⟩ := file.unlock_cases pageKey fault
  · rw [h] at hok
    cases hok
  · rw [h] at hok
    cases hok
  · rw [h]

/-- The file is new or was written under this key and with this schema. -/
def Own (pageKey : DerivedKey) (file : DbFile Rows) : Prop :=
  (file.pageKey = none ∨ file.pageKey = some pageKey) ∧
    (file.userVersion = 0 ∨ file.userVersion = schemaVersion)

theorem Own.unlock {pageKey : DerivedKey} {file : DbFile Rows} (h : file.Own pageKey)
    (fault : OpenFault) : (file.unlock pageKey fault).1.Own pageKey := by
  obtain ⟨err, hu⟩ | hu | ⟨reply, hu⟩ := file.unlock_cases pageKey fault
  · rwa [hu]
  · rw [hu]
    exact ⟨.inr rfl, h.2⟩
  · rw [hu]
    exact ⟨.inr rfl, .inr rfl⟩

theorem Own.unlock_ok {pageKey : DerivedKey} {file : DbFile Rows} (h : file.Own pageKey) :
    file.unlock pageKey .none = (⟨some pageKey, schemaVersion, file.rows⟩, .ok ()) := by
  have hkey : file.pageKey.all (· = pageKey) = true := by
    obtain hk | hk := h.1 <;> simp [hk]
  have hversion : file.existingVersion pageKey .none = file.userVersion := by
    simp [existingVersion, hkey, OpenFault.none]
  have hfit : ¬(file.userVersion ≠ 0 ∧ file.userVersion ≠ schemaVersion) := by
    obtain hv | hv := h.2 <;> simp [hv]
  have hstep : OpenFault.none.step = none := rfl
  simp only [DbFile.unlock, hstep, hversion, if_neg hfit, hkey]
  simp

end DbFile

/-- A process has the file open, or the file lies closed. -/
inductive Process (Rows Store : Type) where
  | closed (file : Option (DbFile Rows))
  | opened (store : Store)

inductive WriteFault where
  | serialise | encrypt | execute

def WriteFault.error (unserialised : String) : WriteFault → VaultError
  | .serialise => .persistence unserialised
  | .encrypt => .crypto
  | .execute => .sqlite

end Knowledge.Vault
