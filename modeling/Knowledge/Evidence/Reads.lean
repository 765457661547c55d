import Knowledge.Evidence.Keys

/-!
What a read comes to: the rows of its scope, opened under the key the scope resolves to. Two
stores with the same rows and the same key for a scope read the same there.
-/

set_option autoImplicit false

namespace Knowledge.Evidence
open Knowledge.Cipher
open Knowledge.Sync (Uuid)

structure SealedAs {α : Type} (c : Ciphertext α) (key : AeadKey) (aad : List Part) (plain : α) :
    Prop where
  key : c.key = key
  aad : c.aad = aad
  plain : c.plain = plain

theorem SealedAs.decrypt {α : Type} {c : Ciphertext α} {key : AeadKey} {aad : List Part} {plain : α}
    (h : SealedAs c key aad plain) : decryptAead key c aad = .ok plain := by
  rw [decryptAead, Sealed.openWith_eq_some.mpr ⟨h.key, h.aad, h.plain⟩]

theorem decryptAead_eq_ok {α : Type} {c : Ciphertext α} {key : AeadKey} {aad : List Part}
    {plain : α} : decryptAead key c aad = .ok plain ↔ SealedAs c key aad plain := by
  refine ⟨fun h => ?_, SealedAs.decrypt⟩
  unfold decryptAead at h
  split at h
  · cases h
  · rename_i opened hopen
    obtain rfl := Except.ok.inj h
    obtain ⟨hkey, haad, hplain⟩ := Sealed.openWith_eq_some.mp hopen
    exact ⟨hkey, haad, hplain⟩

structure Database.SameData (db db' : Database) : Prop where
  evidence : db'.evidence = db.evidence
  bodyStore : db'.bodyStore = db.bodyStore
  keyWraps : db'.keyWraps = db.keyWraps
  ringBuffer : db'.ringBuffer = db.ringBuffer
  memoryObjects : db'.memoryObjects = db.memoryObjects
  connectorInstances : db'.connectorInstances = db.connectorInstances
  connectorTokens : db'.connectorTokens = db.connectorTokens
  approvedDocuments : db'.approvedDocuments = db.approvedDocuments
  synthesisVersions : db'.synthesisVersions = db.synthesisVersions

namespace EvidenceStore

structure Quiet (s t : EvidenceStore) : Prop where
  resolves : Resolves s t
  db : t.db = s.db

theorem Quiet.refl (s : EvidenceStore) : Quiet s s := ⟨.refl s, rfl⟩

theorem Quiet.trans {s t u : EvidenceStore} (h : Quiet s t) (h' : Quiet t u) : Quiet s u :=
  ⟨h.resolves.trans h'.resolves, h'.db.trans h.db⟩

section

variable (s : EvidenceStore)

theorem quiet_resolved (scope : ScopeId) :
    Quiet s { s with scopeKeys := s.resolved scope } :=
  ⟨resolves_of_resolved scope rfl rfl (Nat.le_refl _) rfl rfl, rfl⟩

theorem quiet_draw (n : Nat) (h : s.draws ≤ n) :
    Quiet s { s with draws := n } :=
  ⟨resolves_of_eq rfl rfl h rfl rfl, rfl⟩

theorem quiet_readBody (id : EvidenceId) : Quiet s (s.readBody id).1 := by
  simp only [readBody, scopeKey_eq]
  cases s.db.evidence.lookup id with
  | none => exact .refl s
  | some row =>
    have hres := s.quiet_resolved row.scopeId
    simp only
    cases row.storagePath with
    | inline => cases row.body <;> exact hres
    | bodyTable =>
      cases row.bodyRef with
      | none => exact .refl s
      | some bodyRef =>
        simp only
        cases s.db.bodyStore.lookup bodyRef with
        | none => exact .refl s
        | some bodyRow =>
          simp only
          cases s.db.keyWraps.lookup (bodyRef, row.scopeId) with
          | none => exact hres
          | some wrapped =>
            simp only
            cases unwrapCek (s.keyFor row.scopeId) wrapped row.contentHash <;> exact hres
    | ringBuffer => exact .refl s

theorem quiet_loadMemoryBlob (scope : ScopeId) (kind : String) :
    Quiet s (s.loadMemoryBlob scope kind).1 := by
  simp only [loadMemoryBlob, scopeKey_eq]
  cases s.db.memoryObjects.lookup (scope, kind) with
  | none => exact .refl s
  | some row =>
    simp only
    cases decryptAead (s.keyFor scope) row.payload (memoryAad scope kind) <;>
      exact s.quiet_resolved scope

theorem quiet_openInstances (rows : List (Uuid × ConnectorInstanceRow)) :
    Quiet s (s.openInstances rows).1 := by
  induction rows generalizing s with
  | nil => exact .refl s
  | cons e rest ih =>
    simp only [openInstances, scopeKey_eq]
    exact (s.quiet_resolved e.2.scopeId).trans (ih _)

theorem quiet_openTokens (rows : List (Uuid × ConnectorTokenRow)) :
    Quiet s (s.openTokens rows).1 := by
  induction rows generalizing s with
  | nil => exact .refl s
  | cons e rest ih =>
    simp only [openTokens, scopeKey_eq]
    exact (s.quiet_resolved e.2.scopeId).trans (ih _)

theorem quiet_loadApprovedDocBody (scope : ScopeId) (hash : ContentHash) :
    Quiet s (s.loadApprovedDocBody scope hash).1 := by
  simp only [loadApprovedDocBody, scopeKey_eq]
  cases s.db.keyWraps.lookup (hash, scope) with
  | none => exact .refl s
  | some wrapped =>
    have hres := s.quiet_resolved scope
    simp only
    cases unwrapCek (s.keyFor scope) wrapped hash with
    | error err => exact hres
    | ok cek =>
      simp only
      cases s.db.bodyStore.lookup hash with
      | none => exact hres
      | some bodyRow =>
        simp only
        cases decryptAead cek bodyRow.body (bodyTableAad hash) <;> exact hres

theorem quiet_loadApprovedDocumentPayload (scope : ScopeId)
    (documentId : Uuid) : Quiet s (s.loadApprovedDocumentPayload scope documentId).1 := by
  simp only [loadApprovedDocumentPayload]
  cases s.db.approvedDocuments.lookup (scope, documentId) with
  | none => exact .refl s
  | some row =>
    have hbody := s.quiet_loadApprovedDocBody scope row.contentHash
    simp only
    cases hload : s.loadApprovedDocBody scope row.contentHash with
    | mk store reply =>
      rw [hload] at hbody
      cases reply with
      | error err => exact hbody
      | ok plaintext => cases plaintext <;> exact hbody

end

section

variable {s t : EvidenceStore}

theorem readBody_congr {id : EvidenceId} {row : EvidenceRow}
    (hrow : s.db.evidence.lookup id = some row) (hrow' : t.db.evidence.lookup id = some row)
    (hbodies : t.db.bodyStore = s.db.bodyStore) (hwraps : t.db.keyWraps = s.db.keyWraps)
    (hkey : t.keyFor row.scopeId = s.keyFor row.scopeId) :
    (t.readBody id).2 = (s.readBody id).2 := by
  simp only [readBody, hrow, hrow', scopeKey_eq]
  cases row.storagePath with
  | inline =>
    cases row.body with
    | none => rfl
    | some body => simp only [hkey]
  | bodyTable =>
    cases row.bodyRef with
    | none => rfl
    | some bodyRef =>
      simp only [hbodies]
      cases s.db.bodyStore.lookup bodyRef with
      | none => rfl
      | some bodyRow =>
        simp only [hwraps, hkey]
        cases s.db.keyWraps.lookup (bodyRef, row.scopeId) with
        | none => rfl
        | some wrapped =>
          simp only
          cases unwrapCek (s.keyFor row.scopeId) wrapped row.contentHash with
          | error err => rfl
          | ok cek => rfl
  | ringBuffer => rfl

/-- What a row that reads is sealed with: the key of its scope, or a content key that a wrap
under that key holds. -/
inductive ReadsAs (s : EvidenceStore) (id : EvidenceId) (row : EvidenceRow) (body : Bytes) : Prop where
  | inline (c : Ciphertext Bytes) (hpath : row.storagePath = .inline) (hbody : row.body = some c)
      (hsealed : SealedAs c (s.keyFor row.scopeId)
        (ingestAad row.scopeId id row.contentHash) body)
  | table (ref : ContentHash) (bodyRow : BodyRow) (w : Ciphertext AeadKey) (cek : AeadKey)
      (hpath : row.storagePath = .bodyTable) (href : row.bodyRef = some ref)
      (hbody : s.db.bodyStore.lookup ref = some bodyRow)
      (hwrap : s.db.keyWraps.lookup (ref, row.scopeId) = some w)
      (hcek : SealedAs w (s.keyFor row.scopeId) (cekWrapAad row.contentHash) cek)
      (hsealed : SealedAs bodyRow.body cek (bodyTableAad row.contentHash) body)

theorem ReadsAs.readBody {id : EvidenceId} {row : EvidenceRow} {body : Bytes}
    (h : ReadsAs s id row body) (hrow : s.db.evidence.lookup id = some row) :
    (s.readBody id).2 = .ok body := by
  simp only [EvidenceStore.readBody, hrow, scopeKey_eq]
  cases h with
  | inline c hpath hbody hsealed => simp only [hpath, hbody, hsealed.decrypt]
  | table ref bodyRow w cek hpath href hbody hwrap hcek hsealed =>
    simp only [hpath, href, hbody, hwrap, unwrapCek, hcek.decrypt, hsealed.decrypt]

theorem readsAs_of_readBody {id : EvidenceId} {row : EvidenceRow} {body : Bytes}
    (hrow : s.db.evidence.lookup id = some row) (h : (s.readBody id).2 = .ok body) :
    ReadsAs s id row body := by
  simp only [readBody, hrow, scopeKey_eq] at h
  cases hpath : row.storagePath with
  | inline =>
    cases hbody : row.body with
    | none => simp [hpath, hbody] at h
    | some c =>
      simp only [hpath, hbody] at h
      exact .inline c hpath hbody (decryptAead_eq_ok.mp h)
  | bodyTable =>
    cases href : row.bodyRef with
    | none => simp [hpath, href] at h
    | some ref =>
      cases hbody : s.db.bodyStore.lookup ref with
      | none => simp [hpath, href, hbody] at h
      | some bodyRow =>
        cases hwrap : s.db.keyWraps.lookup (ref, row.scopeId) with
        | none => simp [hpath, href, hbody, hwrap] at h
        | some w =>
          simp only [hpath, href, hbody, hwrap] at h
          split at h
          · cases h
          · rename_i cek hcek
            exact .table ref bodyRow w cek hpath href hbody hwrap (decryptAead_eq_ok.mp hcek)
              (decryptAead_eq_ok.mp h)
  | ringBuffer => simp [hpath] at h

theorem ReadsAs.keyFor_eq {id : EvidenceId} {row : EvidenceRow} {body body' : Bytes}
    (hdb : t.db = s.db) (h : ReadsAs s id row body) (h' : ReadsAs t id row body') :
    t.keyFor row.scopeId = s.keyFor row.scopeId := by
  cases h with
  | inline c hpath hbody hsealed =>
    cases h' with
    | inline c' _ hbody' hsealed' =>
      obtain rfl : c = c' := Option.some.inj (hbody.symm.trans hbody')
      rw [← hsealed.key, ← hsealed'.key]
    | table _ _ _ _ hpath' =>
      rw [hpath] at hpath'
      cases hpath'
  | table ref bodyRow w cek hpath href hbody hwrap hcek hsealed =>
    cases h' with
    | inline _ hpath' =>
      rw [hpath] at hpath'
      cases hpath'
    | table ref' _ w' _ _ href' _ hwrap' hcek' =>
      obtain rfl : ref = ref' := Option.some.inj (href.symm.trans href')
      rw [hdb, hwrap] at hwrap'
      obtain rfl := Option.some.inj hwrap'
      rw [← hcek.key, ← hcek'.key]

theorem ringBufferReadWindow_snd (s : EvidenceStore) (scope : ScopeId) (now : Int) :
    (s.ringBufferReadWindow scope now).2 = openWindow (s.keyFor scope) scope
      ((s.db.ringBuffer.filter fun r => r.scopeId = scope).mergeSort RingRow.older) := by
  simp only [ringBufferReadWindow, scopeKey_eq]
  cases openWindow (s.keyFor scope) scope
    ((s.db.ringBuffer.filter fun r => r.scopeId = scope).mergeSort RingRow.older) with
  | error err => rfl
  | ok entries => rfl

section

variable {scope : ScopeId}

theorem ringBufferReadWindow_congr (hring : t.db.ringBuffer = s.db.ringBuffer)
    (hkey : ∀ r ∈ s.db.ringBuffer, r.scopeId = scope → t.keyFor scope = s.keyFor scope)
    (now : Int) :
    (t.ringBufferReadWindow scope now).2 = (s.ringBufferReadWindow scope now).2 := by
  rw [ringBufferReadWindow_snd, ringBufferReadWindow_snd, hring]
  cases hfilter : s.db.ringBuffer.filter fun r => r.scopeId = scope with
  | nil =>
    rw [List.mergeSort_nil]
    rfl
  | cons r rest =>
    have hmem : r ∈ s.db.ringBuffer.filter fun r => r.scopeId = scope := by
      rw [hfilter]
      exact List.mem_cons_self
    rw [List.mem_filter, decide_eq_true_eq] at hmem
    rw [hkey r hmem.1 hmem.2]

theorem loadMemoryBlob_congr {kind : String} (hmemory : t.db.memoryObjects = s.db.memoryObjects)
    (hkey : ∀ row, s.db.memoryObjects.lookup (scope, kind) = some row →
      t.keyFor scope = s.keyFor scope) :
    (t.loadMemoryBlob scope kind).2 = (s.loadMemoryBlob scope kind).2 := by
  simp only [loadMemoryBlob, hmemory, scopeKey_eq]
  cases hrow : s.db.memoryObjects.lookup (scope, kind) with
  | none => rfl
  | some row =>
    simp only [hkey row hrow]
    cases decryptAead (s.keyFor scope) row.payload (memoryAad scope kind) with
    | error err => rfl
    | ok plaintext => rfl

theorem loadSynthesisObjectVersion_congr {windowId : Uuid} {version : UInt32}
    (hversions : t.db.synthesisVersions = s.db.synthesisVersions)
    (hkey : ∀ row, s.db.synthesisVersions.lookup (scope, windowId, version) = some row →
      t.keyFor scope = s.keyFor scope) :
    (t.loadSynthesisObjectVersion scope windowId version).2 =
      (s.loadSynthesisObjectVersion scope windowId version).2 := by
  simp only [loadSynthesisObjectVersion, hversions, scopeKey_eq]
  cases hrow : s.db.synthesisVersions.lookup (scope, windowId, version) with
  | none => rfl
  | some row =>
    simp only [hkey row hrow]
    cases decryptAead (s.keyFor scope) row.payload
        (synthesisObjectVersionAad scope windowId version) with
    | error err => rfl
    | ok plaintext => rfl

theorem loadApprovedDocBody_congr {hash : ContentHash}
    (hbodies : t.db.bodyStore = s.db.bodyStore) (hwraps : t.db.keyWraps = s.db.keyWraps)
    (hkey : t.keyFor scope = s.keyFor scope) :
    (t.loadApprovedDocBody scope hash).2 = (s.loadApprovedDocBody scope hash).2 := by
  simp only [loadApprovedDocBody, hbodies, hwraps, scopeKey_eq, hkey]
  cases s.db.keyWraps.lookup (hash, scope) with
  | none => rfl
  | some wrapped =>
    simp only
    cases unwrapCek (s.keyFor scope) wrapped hash with
    | error err => rfl
    | ok cek =>
      simp only
      cases s.db.bodyStore.lookup hash with
      | none => rfl
      | some bodyRow =>
        simp only
        cases decryptAead cek bodyRow.body (bodyTableAad hash) with
        | error err => rfl
        | ok plaintext => rfl

theorem loadApprovedDocumentPayload_snd {documentId : Uuid} {row : ApprovedDocumentRow}
    (hrow : s.db.approvedDocuments.lookup (scope, documentId) = some row) :
    (s.loadApprovedDocumentPayload scope documentId).2 =
      match (s.loadApprovedDocBody scope row.contentHash).2 with
      | .error err => .error err
      | .ok none => .error (.schema ("approved_document_payloads row references " ++
        "a body that is no longer wrapped for this scope (body_store row gone, or wrap purged " ++
        "before metadata)"))
      | .ok (some plaintext) => .ok (some plaintext) := by
  simp only [loadApprovedDocumentPayload, hrow]
  cases s.loadApprovedDocBody scope row.contentHash with
  | mk store reply =>
    cases reply with
    | error err => rfl
    | ok plaintext => cases plaintext <;> rfl

theorem loadApprovedDocumentPayload_congr {documentId : Uuid}
    (hdocuments : t.db.approvedDocuments = s.db.approvedDocuments)
    (hbodies : t.db.bodyStore = s.db.bodyStore) (hwraps : t.db.keyWraps = s.db.keyWraps)
    (hkey : ∀ row, s.db.approvedDocuments.lookup (scope, documentId) = some row →
      t.keyFor scope = s.keyFor scope) :
    (t.loadApprovedDocumentPayload scope documentId).2 =
      (s.loadApprovedDocumentPayload scope documentId).2 := by
  cases hrow : s.db.approvedDocuments.lookup (scope, documentId) with
  | none => simp only [loadApprovedDocumentPayload, hdocuments, hrow]
  | some row =>
    have hrow' : t.db.approvedDocuments.lookup (scope, documentId) = some row := by
      rw [hdocuments, hrow]
    rw [loadApprovedDocumentPayload_snd hrow, loadApprovedDocumentPayload_snd hrow',
      loadApprovedDocBody_congr hbodies hwraps (hkey row hrow)]

end

end

def instanceEntry (key : ScopeId → AeadKey) (e : Uuid × ConnectorInstanceRow) :
    List (Uuid × ScopeId × String × Bytes) :=
  match decryptAead (key e.2.scopeId) e.2.payload
    (connectorInstanceAad e.2.scopeId e.1 e.2.kind) with
  | .error _ => []
  | .ok plaintext => [(e.1, e.2.scopeId, e.2.kind, plaintext)]

theorem openInstances_snd (s : EvidenceStore) (rows : List (Uuid × ConnectorInstanceRow)) :
    (s.openInstances rows).2 = rows.flatMap (instanceEntry s.keyFor) := by
  induction rows generalizing s with
  | nil => rfl
  | cons e rows ih =>
    obtain ⟨instanceId, row⟩ := e
    have hresolves : Resolves s { s with scopeKeys := s.resolved row.scopeId } :=
      resolves_of_resolved row.scopeId rfl rfl (Nat.le_refl _) rfl rfl
    simp only [openInstances, scopeKey_eq, ih, List.flatMap_cons, funext hresolves.keyFor]
    rfl

def tokenEntry (key : ScopeId → AeadKey) (e : Uuid × ConnectorTokenRow) :
    List (Uuid × ScopeId × Bytes) :=
  match decryptAead (key e.2.scopeId) e.2.payload (connectorTokenAad e.2.scopeId e.1) with
  | .error _ => []
  | .ok plaintext => [(e.1, e.2.scopeId, plaintext)]

theorem openTokens_snd (s : EvidenceStore) (rows : List (Uuid × ConnectorTokenRow)) :
    (s.openTokens rows).2 = rows.flatMap (tokenEntry s.keyFor) := by
  induction rows generalizing s with
  | nil => rfl
  | cons e rows ih =>
    obtain ⟨instanceId, row⟩ := e
    have hresolves : Resolves s { s with scopeKeys := s.resolved row.scopeId } :=
      resolves_of_resolved row.scopeId rfl rfl (Nat.le_refl _) rfl rfl
    simp only [openTokens, scopeKey_eq, ih, List.flatMap_cons, funext hresolves.keyFor]
    rfl

theorem loadConnectorInstances_snd (s : EvidenceStore) : s.loadConnectorInstances.2 =
    .ok (s.db.connectorInstances.rows.flatMap (instanceEntry s.keyFor)) := by
  simp only [loadConnectorInstances, openInstances_snd]

theorem loadConnectorTokens_snd (s : EvidenceStore) : s.loadConnectorTokens.2 =
    .ok (s.db.connectorTokens.rows.flatMap (tokenEntry s.keyFor)) := by
  simp only [loadConnectorTokens, openTokens_snd]

end EvidenceStore

end Knowledge.Evidence
