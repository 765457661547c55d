import Knowledge.Evidence.Reads

/-!
`EvidenceStore::rotate_master_key`: a copy of the database in which the key of every live
scope is wrapped under the new master key. `VACUUM INTO` and `PRAGMA rekey` leave the tables
as they are.
-/

set_option autoImplicit false

namespace Knowledge.Evidence
open Knowledge.Cipher
open Knowledge.Sync (Uuid uuidText)

structure DestPath where
  taken : Bool
  utf8 : Bool
  display : String

structure MasterKeyRotationReport where
  scopesRewrapped : Nat
  evidenceRows : Nat
  bodiesVerified : Nat
  deriving DecidableEq

namespace EvidenceStore

def scopeColumns (db : Database) : List (List ScopeId) :=
  [db.evidence.rows.map fun e => e.2.scopeId, db.ringBuffer.map RingRow.scopeId,
    db.keyWraps.rows.map fun e => e.1.2, db.memoryObjects.rows.map fun e => e.1.1,
    db.connectorInstances.rows.map fun e => e.2.scopeId,
    db.connectorTokens.rows.map fun e => e.2.scopeId,
    db.approvedDocuments.rows.map fun e => e.1.1, db.synthesisVersions.rows.map fun e => e.1.1,
    db.scopeDeks.rows.map Prod.fst]

def allDataScopes (db : Database) : List ScopeId := (scopeColumns db).flatten.dedup

def resolveKeys (store : EvidenceStore) : List ScopeId → EvidenceStore × List (ScopeId × AeadKey)
  | [] => (store, [])
  | scope :: rest =>
    if (store.db.forgottenScopes.lookup scope).isSome then store.resolveKeys rest
    else
      let (store, key) := store.scopeKey scope
      let (store, keys) := store.resolveKeys rest
      (store, (scope, key) :: keys)

def rewrap (newMasterKey : MasterKey) (now : Int) : List (ScopeId × AeadKey) →
    Table ScopeId DekRow → Nat → Table ScopeId DekRow × Nat
  | [], deks, draws => (deks, draws)
  | (scope, dek) :: rest, deks, draws =>
    let wrapped := encryptAead (dekWrappingKey newMasterKey) draws dek (scopeDekAad scope)
    rewrap newMasterKey now rest (deks.insert scope ⟨wrapped, now⟩) (draws+1)

def checkDeks (loaded : Table ScopeId AeadKey) : List (ScopeId × AeadKey) →
    Except EvidenceError Unit
  | [] => .ok ()
  | (scope, dek) :: rest =>
    if loaded.lookup scope = some dek then checkDeks loaded rest
    else .error (.keyRotation
      s!"scope DEK for {uuidText scope} did not round-trip under the new master key")

def allEvidenceRows (db : Database) : List (EvidenceId × ScopeId) :=
  db.evidence.rows.map fun e => (e.1, e.2.scopeId)

def verifyBodies (scopeKeys : List (ScopeId × AeadKey)) :
    List (EvidenceId × ScopeId) → EvidenceStore → EvidenceStore →
    EvidenceStore × Except EvidenceError Nat
  | [], store, _ => (store, .ok 0)
  | (id, scope) :: rest, store, rotated =>
    if scope ∉ scopeKeys.map Prod.fst then verifyBodies scopeKeys rest store rotated
    else
      match store.readBody id with
      | (store, .error err) => (store, .error err)
      | (store, .ok srcBody) =>
        match rotated.readBody id with
        | (_, .error err) => (store, .error err)
        | (rotated, .ok rotatedBody) =>
          if srcBody ≠ rotatedBody then
            (store, .error (.keyRotation
              s!"body plaintext mismatch after rotation for evidence row {id.draw}"))
          else
            match verifyBodies scopeKeys rest store rotated with
            | (store, .error err) => (store, .error err)
            | (store, .ok verified) => (store, .ok (verified+1))

def rotatedCopy (db : Database) (newMasterKey : MasterKey) (now : Int)
    (scopeKeys : List (ScopeId × AeadKey)) (draws : Nat) : Database × Nat :=
  let deks := db.scopeDeks.filter fun scope _ => (db.forgottenScopes.lookup scope).isNone
  let rewrapped := rewrap newMasterKey now scopeKeys deks draws
  ({ db with scopeDeks := rewrapped.1 }, rewrapped.2)

def rotateMasterKey (store : EvidenceStore) (newMasterKey : MasterKey) (dest : DestPath)
    (now : Int) :
    EvidenceStore × Option Database × Except EvidenceError MasterKeyRotationReport :=
  if dest.taken then
    (store, none, .error (.keyRotation s!"destination path already exists: {dest.display}"))
  else if !dest.utf8 then
    (store, none, .error (.keyRotation "destination path is not valid UTF-8"))
  else
    let (store, scopeKeys) := store.resolveKeys (allDataScopes store.db)
    let (copy, draws) := rotatedCopy store.db newMasterKey now scopeKeys store.draws
    let store := { store with draws }
    match openFile copy newMasterKey store.config draws with
    | .error err => (store, some copy, .error err)
    | .ok rotated =>
      match loadScopeDeks rotated.db newMasterKey with
      | .error err => (store, some copy, .error err)
      | .ok loaded =>
        match checkDeks loaded scopeKeys with
        | .error err => (store, some copy, .error err)
        | .ok () =>
          let srcRows := allEvidenceRows store.db
          let rotatedCount := rotated.db.evidence.rows.length
          if rotatedCount ≠ srcRows.length then
            (store, some copy, .error (.keyRotation ("evidence row count mismatch after rotation: "
              ++ s!"source={srcRows.length}, rotated={rotatedCount}")))
          else
            match verifyBodies scopeKeys srcRows store rotated with
            | (store, .error err) => (store, some copy, .error err)
            | (store, .ok bodiesVerified) =>
              (store, some copy, .ok ⟨scopeKeys.length, srcRows.length, bodiesVerified⟩)

theorem resolveKeys_spec (s : EvidenceStore) (scopes : List ScopeId) :
    Resolves s (s.resolveKeys scopes).1 ∧ (s.resolveKeys scopes).1.db = s.db ∧
      ∀ scope key, (scope, key) ∈ (s.resolveKeys scopes).2 ↔
        scope ∈ scopes ∧ s.db.forgottenScopes.lookup scope = none ∧ key = s.keyFor scope := by
  induction scopes generalizing s with
  | nil => exact ⟨.refl s, rfl, by simp [resolveKeys]⟩
  | cons head rest ih =>
    simp only [resolveKeys]
    split
    · rename_i hforgotten
      obtain ⟨hresolves, hdb, hmem⟩ := ih s
      refine ⟨hresolves, hdb, fun scope key => ?_⟩
      rw [hmem, List.mem_cons]
      constructor
      · exact fun h => ⟨.inr h.1, h.2⟩
      · rintro ⟨rfl | hrest, hnone, hkey⟩
        · rw [hnone] at hforgotten
          cases hforgotten
        · exact ⟨hrest, hnone, hkey⟩
    · rename_i hlive
      rw [Bool.not_eq_true, Option.isSome_eq_false_iff, Option.isNone_iff_eq_none] at hlive
      have hfirst : Resolves s { s with scopeKeys := s.resolved head } :=
        resolves_of_resolved head rfl rfl (Nat.le_refl _) rfl rfl
      obtain ⟨hresolves, hdb, hmem⟩ := ih { s with scopeKeys := s.resolved head }
      simp only [scopeKey_eq]
      refine ⟨hfirst.trans hresolves, hdb, fun scope key => ?_⟩
      rw [List.mem_cons, hmem, hfirst.keyFor, List.mem_cons, Prod.mk.injEq]
      constructor
      · rintro (⟨rfl, rfl⟩ | ⟨hrest, hnone, hkey⟩)
        · exact ⟨.inl rfl, hlive, rfl⟩
        · exact ⟨.inr hrest, hnone, hkey⟩
      · rintro ⟨rfl | hrest, hnone, hkey⟩
        · exact .inl ⟨rfl, hkey⟩
        · exact .inr ⟨hrest, hnone, hkey⟩

/-- A scope whose key is among those given has it under the new wrapping key; the row of any
other scope is left alone. -/
theorem rewrap_lookup {keyOf : ScopeId → AeadKey} (newMasterKey : MasterKey) (now : Int)
    (keys : List (ScopeId × AeadKey)) (hkeys : ∀ e ∈ keys, e.2 = keyOf e.1)
    (deks : Table ScopeId DekRow) (draws : Nat) (scope : ScopeId) :
    (scope ∈ keys.map Prod.fst → ∃ row, (rewrap newMasterKey now keys deks draws).1.lookup scope =
      some row ∧ row.wrappedDek.openWith (dekWrappingKey newMasterKey) (scopeDekAad scope) =
        some (keyOf scope)) ∧
    (scope ∉ keys.map Prod.fst →
      (rewrap newMasterKey now keys deks draws).1.lookup scope = deks.lookup scope) := by
  induction keys generalizing deks draws with
  | nil => exact ⟨by simp, fun _ => rfl⟩
  | cons e rest ih =>
    obtain ⟨head, dek⟩ := e
    have hdek : dek = keyOf head := hkeys (head, dek) List.mem_cons_self
    have hrest : ∀ e ∈ rest, e.2 = keyOf e.1 := fun e he => hkeys e (List.mem_cons_of_mem _ he)
    have hih := ih hrest (deks.insert head ⟨encryptAead (dekWrappingKey newMasterKey) draws dek
      (scopeDekAad head), now⟩) (draws+1)
    simp only [rewrap, List.map_cons, List.mem_cons]
    by_cases hmem : scope ∈ rest.map Prod.fst
    · exact ⟨fun _ => hih.1 hmem, fun h => absurd (.inr hmem) h⟩
    · rw [hih.2 hmem, Table.lookup_insert_ite]
      by_cases hhead : scope = head
      · subst hhead
        rw [if_pos rfl]
        refine ⟨fun _ => ⟨_, rfl, ?_⟩, fun h => absurd (.inl rfl) h⟩
        rw [← hdek]
        exact Sealed.openWith_mk _ _ _ _
      · rw [if_neg hhead]
        exact ⟨fun h => (h.resolve_left hhead |> hmem).elim, fun _ => rfl⟩

theorem verifyBodies_db (scopeKeys : List (ScopeId × AeadKey)) (rows : List (EvidenceId × ScopeId))
    (s rotated : EvidenceStore) : (verifyBodies scopeKeys rows s rotated).1.db = s.db := by
  induction rows generalizing s rotated with
  | nil => rfl
  | cons e rest ih =>
    obtain ⟨id, scope⟩ := e
    have hread := (s.quiet_readBody id).db
    simp only [verifyBodies]
    split
    · exact ih s rotated
    · split
      · rename_i store err hsrc
        rw [hsrc] at hread
        exact hread
      · rename_i store srcBody hsrc
        rw [hsrc] at hread
        split
        · exact hread
        · rename_i rotated' rotatedBody _
          have hrest := ih store rotated'
          split
          · exact hread
          · split
            · rename_i store' err hverify
              rw [hverify] at hrest
              exact hrest.trans hread
            · rename_i store' verified hverify
              rw [hverify] at hrest
              exact hrest.trans hread

theorem openFile_config {db : Database} {masterKey : MasterKey} {config : EvidenceStoreConfig}
    {draws : Nat} {s : EvidenceStore} (h : openFile db masterKey config draws = .ok s) :
    config.ringBufferMaxBytes ≠ 0 ∧ config.inlineThresholdBytes ≠ 0 := by
  unfold openFile at h
  split at h
  · cases h
  · split at h
    · cases h
    · exact ⟨‹_›, ‹_›⟩

theorem rotateMasterKey_ok {s t : EvidenceStore} {newMasterKey : MasterKey} {dest : DestPath}
    {now : Int} {file : Option Database} {report : MasterKeyRotationReport}
    (h : s.rotateMasterKey newMasterKey dest now = (t, file, .ok report)) :
    t.db = s.db ∧ s.config.ringBufferMaxBytes ≠ 0 ∧ s.config.inlineThresholdBytes ≠ 0 ∧
      file = some (rotatedCopy s.db newMasterKey now (s.resolveKeys (allDataScopes s.db)).2
        (s.resolveKeys (allDataScopes s.db)).1.draws).1 := by
  obtain ⟨hresolves, hdb, -⟩ := s.resolveKeys_spec (allDataScopes s.db)
  unfold rotateMasterKey at h
  split at h
  · cases h
  · split at h
    · cases h
    · simp only [hdb] at h
      split at h
      · cases h
      · rename_i rotated hopen
        split at h
        · cases h
        · split at h
          · cases h
          · split at h
            · cases h
            · split at h
              · cases h
              · rename_i store verified hverify
                obtain ⟨rfl, hfile⟩ := Prod.mk.inj h
                obtain ⟨rfl, -⟩ := Prod.mk.inj hfile
                have hstore := congrArg (fun p => p.1.db) hverify
                simp only [verifyBodies_db] at hstore
                obtain ⟨hring, hinline⟩ := openFile_config hopen
                rw [hresolves.config] at hring hinline
                exact ⟨hstore.symm, hring, hinline, rfl⟩

theorem mem_allDataScopes {T : Type} {db : Database} {scope : ScopeId} (rows : List T)
    (column : T → ScopeId) {row : T} (hcolumn : rows.map column ∈ scopeColumns db)
    (hrow : row ∈ rows) (hscope : column row = scope) : scope ∈ allDataScopes db :=
  List.mem_dedup.mpr (List.mem_flatten.mpr ⟨_, hcolumn, List.mem_map.mpr ⟨row, hrow, hscope⟩⟩)

theorem mem_allDataScopes_of_dek {db : Database} {scope : ScopeId} {row : DekRow}
    (h : db.scopeDeks.lookup scope = some row) : scope ∈ allDataScopes db :=
  mem_allDataScopes db.scopeDeks.rows Prod.fst (by simp [scopeColumns]) (Table.mem_rows_iff.mpr h)
    rfl

section

variable {s : EvidenceStore} (newMasterKey : MasterKey) (now : Int) (draws : Nat)

theorem live_keys {scope : ScopeId} :
    scope ∈ (s.resolveKeys (allDataScopes s.db)).2.map Prod.fst ↔
      scope ∈ allDataScopes s.db ∧ s.db.forgottenScopes.lookup scope = none := by
  obtain ⟨-, -, hmem⟩ := s.resolveKeys_spec (allDataScopes s.db)
  simp only [List.mem_map, Prod.exists, exists_and_right, exists_eq_right, hmem]
  constructor
  · rintro ⟨key, hscope, hlive, -⟩
    exact ⟨hscope, hlive⟩
  · exact fun h => ⟨_, h.1, h.2, rfl⟩

/-- The rows of the copy's `scope_deks`: one for each live scope that owns data, no other. -/
theorem rotatedCopy_dek (scope : ScopeId) :
    (scope ∈ allDataScopes s.db ∧ s.db.forgottenScopes.lookup scope = none →
      ∃ row, (rotatedCopy s.db newMasterKey now (s.resolveKeys (allDataScopes s.db)).2
        draws).1.scopeDeks.lookup scope = some row ∧
        row.wrappedDek.openWith (dekWrappingKey newMasterKey) (scopeDekAad scope) =
          some (s.keyFor scope)) ∧
    (¬(scope ∈ allDataScopes s.db ∧ s.db.forgottenScopes.lookup scope = none) →
      (rotatedCopy s.db newMasterKey now (s.resolveKeys (allDataScopes s.db)).2
        draws).1.scopeDeks.lookup scope = none) := by
  obtain ⟨-, -, hmem⟩ := s.resolveKeys_spec (allDataScopes s.db)
  have hkeys : ∀ e ∈ (s.resolveKeys (allDataScopes s.db)).2, e.2 = s.keyFor e.1 :=
    fun e he => ((hmem e.1 e.2).mp he).2.2
  have hrewrap := rewrap_lookup newMasterKey now _ hkeys
    (s.db.scopeDeks.filter fun scope _ => (s.db.forgottenScopes.lookup scope).isNone) draws scope
  rw [live_keys] at hrewrap
  refine ⟨hrewrap.1, fun hnot => ?_⟩
  simp only [rotatedCopy]
  rw [hrewrap.2 hnot, Table.lookup_filter]
  cases hrow : s.db.scopeDeks.lookup scope with
  | none => rfl
  | some row =>
    cases hforgotten : s.db.forgottenScopes.lookup scope with
    | none => exact absurd ⟨mem_allDataScopes_of_dek hrow, hforgotten⟩ hnot
    | some at₀ => rfl

theorem rotatedCopy_open (hring : s.config.ringBufferMaxBytes ≠ 0)
    (hinline : s.config.inlineThresholdBytes ≠ 0) (n : Nat) :
    ∃ rotated, openFile (rotatedCopy s.db newMasterKey now
        (s.resolveKeys (allDataScopes s.db)).2 draws).1 newMasterKey s.config n = .ok rotated ∧
      rotated.db = (rotatedCopy s.db newMasterKey now (s.resolveKeys (allDataScopes s.db)).2
        draws).1 ∧
      ∀ scope ∈ allDataScopes s.db, s.db.forgottenScopes.lookup scope = none →
        rotated.keyFor scope = s.keyFor scope := by
  generalize hcopy : (rotatedCopy s.db newMasterKey now (s.resolveKeys (allDataScopes s.db)).2
    draws).1 = copy
  have hdek := rotatedCopy_dek (s := s) newMasterKey now draws
  rw [hcopy] at hdek
  have hopens : ∀ e ∈ copy.scopeDeks.rows, ∃ key, decryptAead (dekWrappingKey newMasterKey)
      e.2.wrappedDek (scopeDekAad e.1) = .ok key := by
    intro e he
    have hrow := Table.mem_rows_iff.mp he
    by_cases hlive : e.1 ∈ allDataScopes s.db ∧ s.db.forgottenScopes.lookup e.1 = none
    · obtain ⟨row, hrow', hkey⟩ := (hdek e.1).1 hlive
      rw [hrow] at hrow'
      obtain rfl := Option.some.inj hrow'
      exact ⟨s.keyFor e.1, by rw [decryptAead, hkey]⟩
    · rw [(hdek e.1).2 hlive] at hrow
      cases hrow
  obtain ⟨deks, hdeks, hlookup, -⟩ := Table.collect_ok
    (f := fun scope (row : DekRow) =>
      decryptAead (dekWrappingKey newMasterKey) row.wrappedDek (scopeDekAad scope))
    (Table.keys_nodup_rows copy.scopeDeks) hopens ∅
  have hload : loadScopeDeks copy newMasterKey = .ok deks := hdeks
  refine ⟨⟨copy, s.config, deks, newMasterKey, n⟩, ?_, rfl, fun scope hscope hlive => ?_⟩
  · rw [openFile, if_neg hring, if_neg hinline, hload]
  · obtain ⟨row, hrow, hkey⟩ := (hdek scope).1 ⟨hscope, hlive⟩
    have hcached := hlookup scope row (s.keyFor scope) (Table.mem_rows_iff.mpr hrow)
      (by rw [decryptAead, hkey])
    simp only [keyFor]
    rw [hcached]
    rfl

end

structure SameReads (s t : EvidenceStore) (scope : ScopeId) : Prop where
  body : ∀ id row, s.db.evidence.lookup id = some row → row.scopeId = scope →
    t.db.evidence.lookup id = some row ∧ (t.readBody id).2 = (s.readBody id).2
  window : ∀ now, (t.ringBufferReadWindow scope now).2 = (s.ringBufferReadWindow scope now).2
  memory : ∀ kind, (t.loadMemoryBlob scope kind).2 = (s.loadMemoryBlob scope kind).2
  instances : t.loadConnectorInstances.2.map (·.filter fun e => e.2.1 = scope) =
    s.loadConnectorInstances.2.map (·.filter fun e => e.2.1 = scope)
  tokens : t.loadConnectorTokens.2.map (·.filter fun e => e.2.1 = scope) =
    s.loadConnectorTokens.2.map (·.filter fun e => e.2.1 = scope)
  approved : ∀ documentId, (t.loadApprovedDocumentPayload scope documentId).2 =
    (s.loadApprovedDocumentPayload scope documentId).2
  versions : ∀ windowId version, (t.loadSynthesisObjectVersion scope windowId version).2 =
    (s.loadSynthesisObjectVersion scope windowId version).2

theorem filter_flatMap_congr {T U : Type} {f g : T → List U} {p : U → Bool} {l : List T}
    (h : ∀ x ∈ l, (f x).filter p = (g x).filter p) :
    (l.flatMap f).filter p = (l.flatMap g).filter p := by
  rw [List.filter_flatMap, List.filter_flatMap]
  exact List.flatMap_congr h

theorem instanceEntry_other {key : ScopeId → AeadKey} {e : Uuid × ConnectorInstanceRow}
    {scope : ScopeId} (h : e.2.scopeId ≠ scope) :
    (instanceEntry key e).filter (fun e => e.2.1 = scope) = [] := by
  unfold instanceEntry
  split
  · rfl
  · simp [h]

theorem tokenEntry_other {key : ScopeId → AeadKey} {e : Uuid × ConnectorTokenRow}
    {scope : ScopeId} (h : e.2.scopeId ≠ scope) :
    (tokenEntry key e).filter (fun e => e.2.1 = scope) = [] := by
  unfold tokenEntry
  split
  · rfl
  · simp [h]

theorem sameReads_of_key {s t : EvidenceStore} (hdata : s.db.SameData t.db) {scope : ScopeId}
    (hkey : scope ∈ allDataScopes s.db → t.keyFor scope = s.keyFor scope) :
    SameReads s t scope := by
  refine ⟨?_, fun now => ?_, fun kind => ?_, ?_, ?_, fun documentId => ?_,
    fun windowId version => ?_⟩
  · rintro id row hrow rfl
    have hrow' : t.db.evidence.lookup id = some row := by rw [hdata.evidence, hrow]
    refine ⟨hrow', readBody_congr hrow hrow' hdata.bodyStore hdata.keyWraps (hkey ?_)⟩
    exact mem_allDataScopes s.db.evidence.rows (fun e => e.2.scopeId) (by simp [scopeColumns])
      (Table.mem_rows_iff.mpr hrow) rfl
  · refine ringBufferReadWindow_congr hdata.ringBuffer (fun r hr hscope => hkey ?_) now
    exact mem_allDataScopes s.db.ringBuffer RingRow.scopeId (by simp [scopeColumns]) hr hscope
  · refine loadMemoryBlob_congr hdata.memoryObjects fun row hrow => hkey ?_
    exact mem_allDataScopes s.db.memoryObjects.rows (fun e => e.1.1) (by simp [scopeColumns])
      (Table.mem_rows_iff.mpr hrow) rfl
  · rw [loadConnectorInstances_snd, loadConnectorInstances_snd, hdata.connectorInstances]
    refine congrArg Except.ok (filter_flatMap_congr fun e he => ?_)
    by_cases hscope : e.2.scopeId = scope
    · have hmem : scope ∈ allDataScopes s.db := mem_allDataScopes s.db.connectorInstances.rows
        (fun e => e.2.scopeId) (by simp [scopeColumns]) he hscope
      rw [instanceEntry, instanceEntry, hscope, hkey hmem]
    · rw [instanceEntry_other hscope, instanceEntry_other hscope]
  · rw [loadConnectorTokens_snd, loadConnectorTokens_snd, hdata.connectorTokens]
    refine congrArg Except.ok (filter_flatMap_congr fun e he => ?_)
    by_cases hscope : e.2.scopeId = scope
    · have hmem : scope ∈ allDataScopes s.db := mem_allDataScopes s.db.connectorTokens.rows
        (fun e => e.2.scopeId) (by simp [scopeColumns]) he hscope
      rw [tokenEntry, tokenEntry, hscope, hkey hmem]
    · rw [tokenEntry_other hscope, tokenEntry_other hscope]
  · refine loadApprovedDocumentPayload_congr hdata.approvedDocuments hdata.bodyStore
      hdata.keyWraps fun row hrow => hkey ?_
    exact mem_allDataScopes s.db.approvedDocuments.rows (fun e => e.1.1) (by simp [scopeColumns])
      (Table.mem_rows_iff.mpr hrow) rfl
  · refine loadSynthesisObjectVersion_congr hdata.synthesisVersions fun row hrow => hkey ?_
    exact mem_allDataScopes s.db.synthesisVersions.rows (fun e => e.1.1) (by simp [scopeColumns])
      (Table.mem_rows_iff.mpr hrow) rfl

theorem rotateMasterKey_reads {s t : EvidenceStore} {newMasterKey : MasterKey}
    {dest : DestPath} {now : Int} {file : Option Database} {report : MasterKeyRotationReport}
    (h : s.rotateMasterKey newMasterKey dest now = (t, file, .ok report)) :
    ∃ copy, file = some copy ∧
      (∀ scope at₀, s.db.forgottenScopes.lookup scope = some at₀ →
        copy.scopeDeks.lookup scope = none) ∧
      ∀ n, ∃ rotated, openFile copy newMasterKey s.config n = .ok rotated ∧
        s.db.SameData rotated.db ∧ rotated.db.forgottenScopes = s.db.forgottenScopes ∧
        ∀ scope, s.db.forgottenScopes.lookup scope = none → SameReads s rotated scope := by
  obtain ⟨-, hring, hinline, hfile⟩ := rotateMasterKey_ok h
  refine ⟨_, hfile, fun scope at₀ hforgotten => ?_, fun n => ?_⟩
  · refine (rotatedCopy_dek newMasterKey now _ scope).2 fun hlive => ?_
    rw [hforgotten] at hlive
    exact absurd hlive.2 (by simp)
  · obtain ⟨rotated, hopen, hcopy, hkeys⟩ := rotatedCopy_open newMasterKey now
      (s.resolveKeys (allDataScopes s.db)).1.draws hring hinline n
    have hdata : s.db.SameData rotated.db := by
      rw [hcopy]
      exact ⟨rfl, rfl, rfl, rfl, rfl, rfl, rfl, rfl, rfl⟩
    exact ⟨rotated, hopen, hdata, by rw [hcopy]; rfl, fun scope hlive =>
      sameReads_of_key hdata fun hscope => hkeys scope hscope hlive⟩

/-- A rotation that succeeds: the source file is as it was, no forgotten scope has a key in
the copy, and the copy opens under the new master key to a store that reads the same for every
scope that is not forgotten. -/
theorem rotation_preserves_reads {s t : EvidenceStore} {newMasterKey : MasterKey}
    {dest : DestPath} {now : Int} {file : Option Database} {report : MasterKeyRotationReport}
    (h : s.rotateMasterKey newMasterKey dest now = (t, file, .ok report)) :
    t.db = s.db ∧ ∃ copy, file = some copy ∧
      (∀ scope at₀, s.db.forgottenScopes.lookup scope = some at₀ →
        copy.scopeDeks.lookup scope = none) ∧
      ∀ n, ∃ rotated, openFile copy newMasterKey s.config n = .ok rotated ∧
        ∀ scope, s.db.forgottenScopes.lookup scope = none → SameReads s rotated scope := by
  obtain ⟨copy, hfile, hforgotten, hopens⟩ := rotateMasterKey_reads h
  refine ⟨(rotateMasterKey_ok h).1, copy, hfile, hforgotten, fun n => ?_⟩
  obtain ⟨rotated, hopen, -, -, hreads⟩ := hopens n
  exact ⟨rotated, hopen, hreads⟩

/-- Scope 1 has a key of its own, scope 2 the legacy one; scope 3 is forgotten and has its
row in `scope_deks` still. -/
def sampleRotated : EvidenceStore :=
  let store : EvidenceStore := ⟨.empty, ⟨4, 1024⟩, ∅, 7, 0⟩
  let store := (store.ensureScopeDek 1 0).1
  let store := (store.ensureScopeDek 3 0).1
  let store := (store.ingest anyFirst 1 [1, 2, 3] none .useful 0).1
  let store := (store.ingest anyFirst 3 [1, 2, 3, 4, 5] none .useful 0).1
  let store := (store.saveMemoryBlob 2 "notes" [8] 0).1
  store.recordForgottenScopeAt 3 0

theorem rotation_preserves_reads_sample :
    (sampleRotated.rotateMasterKey 9 ⟨false, true, "copy.db"⟩ 5).2.2 = .ok ⟨2, 2, 1⟩ ∧
    (sampleRotated.rotateMasterKey 9 ⟨false, true, "copy.db"⟩ 5).1.db = sampleRotated.db := by
  have hok : (sampleRotated.rotateMasterKey 9 ⟨false, true, "copy.db"⟩ 5).2.2 = .ok ⟨2, 2, 1⟩ :=
    eq_ok_of_toOption (by decide +kernel)
  exact ⟨hok, (rotation_preserves_reads (Prod.ext rfl (Prod.ext rfl hok))).1⟩

end EvidenceStore

end Knowledge.Evidence
