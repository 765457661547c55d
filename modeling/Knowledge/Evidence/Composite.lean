import Knowledge.Evidence.Ring
import Knowledge.Lib.Statements

/-!
`ingest_with_references` and `promote_from_ring_buffer` of `crates/evidence_store/src/store.rs`,
statement by statement. One of the statements may fail; what a transaction has done until then is
rolled back, and what was committed before stays.
-/

set_option autoImplicit false

namespace Knowledge.Evidence
open Knowledge.Statements
open EvidenceStore RingRow Sql

structure ReferencedStore where
  store : EvidenceStore
  crossReferences : Table (EvidenceId × String × String) (ScopeId × Int)

abbrev Call (α : Type) := Sql ReferencedStore EvidenceError α

/-- The rows of a body in the lexical indexes, and how often its embedding is looked for or
written; these statements touch no other table. -/
structure Indexing where
  ftsRows : Bytes → Nat
  embeddingStatements : ReferencedStore → Bytes → Nat

structure Tables where
  evidence : Table EvidenceId EvidenceRow
  bodyStore : Table ContentHash BodyRow
  keyWraps : Table (ContentHash × ScopeId) (Ciphertext AeadKey)
  ringBuffer : List RingRow
  crossReferences : Table (EvidenceId × String × String) (ScopeId × Int)

def ReferencedStore.tables (s : ReferencedStore) : Tables :=
  ⟨s.store.db.evidence, s.store.db.bodyStore, s.store.db.keyWraps, s.store.db.ringBuffer,
    s.crossReferences⟩

namespace Composite

def broken : EvidenceError := .sqlite "disk I/O error"

def statement {α : Type} (f : ReferencedStore → Except EvidenceError (α × ReferencedStore)) :
    Call α := Sql.statement broken f

def query {α : Type} (f : ReferencedStore → α) : Call α := statement fun s => .ok (f s, s)

def rollback (old new : ReferencedStore) : ReferencedStore :=
  ⟨{ new.store with db := old.store.db }, old.crossReferences⟩

def transaction {α : Type} (p : Call α) : Call α := Sql.transaction broken rollback p

def memory {α : Type} (f : EvidenceStore → EvidenceStore × α) : Call α :=
  Sql.compute fun s => .ok ((f s.store).2, { s with store := (f s.store).1 })

def draw : Call Nat := memory EvidenceStore.draw

def scopeKey (scope : ScopeId) : Call AeadKey := memory fun store => store.scopeKey scope

def lift {α : Type} (reply : Except EvidenceError α) : Call α :=
  match reply with
  | .ok a => pure a
  | .error err => Sql.throw err

def config {α : Type} (f : EvidenceStoreConfig → α) : Call α :=
  memory fun store => (store, f store.config)

def write (f : Database → Database) : Call Unit :=
  statement fun s => .ok ((), { s with store := { s.store with db := f s.store.db } })

def insertEvidence (id : EvidenceId) (row : EvidenceRow) : Call Unit :=
  statement fun s =>
    match s.store.db.evidence.lookup id with
    | some _ => .error (.sqlite "UNIQUE constraint failed: evidence.id")
    | none => .ok ((), { s with store := s.store.insertEvidence id row })

def times (p : Call Unit) : Nat → Call Unit
  | 0 => pure ()
  | n+1 => do p; times p n

variable (ix : Indexing)

def indexFts (body : Bytes) : Call Unit := times (query fun _ => ()) (ix.ftsRows body)

def indexEmbedding (body : Bytes) : Call Unit := do
  let n ← Sql.compute fun s => .ok (ix.embeddingStatements s body, s)
  times (.attempt (query fun _ => ())) n

def ingestInline (scope : ScopeId) (body : Bytes) (sourceRef : Option String)
    (importance : ImportanceClass) (hash : ContentHash) (languageTag : Option String) (now : Int) :
    Call IngestResult := do
  let evidenceId : EvidenceId := ⟨← draw⟩
  let key ← scopeKey scope
  let nonce ← draw
  let ciphertext := encryptAead key nonce body (ingestAad scope evidenceId hash)
  transaction do
    insertEvidence evidenceId
      ⟨scope, hash, some ciphertext, none, sourceRef, importance, .inline, now, languageTag⟩
    indexFts ix body
    indexEmbedding ix body
  return ⟨evidenceId, .inline, hash⟩

def dedupDonor (any : AnyRow (ScopeId × Ciphertext AeadKey)) (hash : ContentHash)
    (scope : ScopeId) : Call (Option (Ciphertext AeadKey × AeadKey)) := do
  match ← query fun s => any.pick (otherWraps s.store.db hash scope) with
  | none => return none
  | some (donorScope, wrapped) =>
    let donorKey ← scopeKey donorScope
    return some (wrapped, donorKey)

def insertBody (hash : ContentHash) (row : BodyRow) : Call Unit :=
  statement fun s =>
    match s.store.db.bodyStore.lookup hash with
    | some _ => .error (.sqlite "UNIQUE constraint failed: body_store.content_hash")
    | none => .ok ((), { s with store := { s.store with
        db := { s.store.db with bodyStore := s.store.db.bodyStore.insert hash row } } })

def insertWrap (hash : ContentHash) (scope : ScopeId) (wrapped : Ciphertext AeadKey) : Call Unit :=
  statement fun s =>
    match s.store.db.keyWraps.lookup (hash, scope) with
    | some _ => .error (.sqlite ("UNIQUE constraint failed: body_store_key_wraps.content_hash, " ++
        "body_store_key_wraps.scope_id"))
    | none => .ok ((), { s with store := { s.store with
        db := { s.store.db with keyWraps := s.store.db.keyWraps.insert (hash, scope) wrapped } } })

def insertNewBody (scope : ScopeId) (scopeKey : AeadKey) (body : Bytes) (hash : ContentHash) :
    Call Unit := do
  let cek ← draw
  let bodyNonce ← draw
  insertBody hash ⟨encryptAead (.random cek) bodyNonce body (bodyTableAad hash), 1⟩
  let wrapNonce ← draw
  insertWrap hash scope (wrapCek scopeKey (.random cek) wrapNonce hash)

def admitBody (scope : ScopeId) (scopeKey : AeadKey)
    (donor : Option (Ciphertext AeadKey × AeadKey)) (body : Bytes) (hash : ContentHash) :
    Call Unit := do
  match ← query fun s => s.store.db.bodyStore.lookup hash with
  | none => insertNewBody scope scopeKey body hash
  | some _ =>
    statement fun s => .ok ((), { s with store := s.store.bumpRefCount hash })
    match ← query fun s => s.store.db.keyWraps.lookup (hash, scope) with
    | some _ => return
    | none =>
      match donor with
      | some (wrapped, donorKey) =>
        let cek ← lift (unwrapCek donorKey wrapped hash)
        let wrapNonce ← draw
        -- `INSERT OR IGNORE`
        write fun db =>
          match db.keyWraps.lookup (hash, scope) with
          | some _ => db
          | none => { db with
              keyWraps := db.keyWraps.insert (hash, scope) (wrapCek scopeKey cek wrapNonce hash) }
      | none =>
        write fun db => { db with bodyStore := db.bodyStore.erase hash }
        insertNewBody scope scopeKey body hash

def ingestBodyTable (any : AnyRow (ScopeId × Ciphertext AeadKey)) (scope : ScopeId) (body : Bytes)
    (sourceRef : Option String) (importance : ImportanceClass) (hash : ContentHash)
    (languageTag : Option String) (now : Int) : Call IngestResult := do
  let evidenceId : EvidenceId := ⟨← draw⟩
  let key ← scopeKey scope
  let donor ← dedupDonor any hash scope
  transaction do
    admitBody scope key donor body hash
    insertEvidence evidenceId
      ⟨scope, hash, none, some hash, sourceRef, importance, .bodyTable, now, languageTag⟩
    indexFts ix body
    indexEmbedding ix body
  return ⟨evidenceId, .bodyTable, hash⟩

def evict (cap : Nat) : Nat → Call Unit
  | 0 => return
  | fuel+1 => do
    let total ← query fun s => RingRow.total s.store.db.ringBuffer
    if total ≤ cap then return
    else
      let rowsChanged ← statement fun s =>
        match RingRow.victim s.store.db.ringBuffer with
        | none => .ok (0, s)
        | some v => .ok (1, { s with store := { s.store with
            db := { s.store.db with ringBuffer := RingRow.without v.id s.store.db.ringBuffer } } })
      if rowsChanged = 0 then return else evict cap fuel

def ringBufferInsertWithPriority (scope : ScopeId) (body : Bytes) (priority now : Int) :
    Call Unit := do
  let key ← scopeKey scope
  let nonce ← draw
  let ciphertext := encryptAead key nonce body (ringBufferAad scope)
  let payloadSize := min (body.length+16+24) (2^63-1)
  transaction do
    write fun db =>
      let id := db.ringSequence+1
      { db with
        ringBuffer := db.ringBuffer ++ [⟨id, scope, ciphertext, payloadSize, now, now, priority⟩]
        ringSequence := id }
    let cap ← config fun config => min config.ringBufferMaxBytes (2^63-1)
    let rows ← Sql.compute fun s => .ok (s.store.db.ringBuffer.length, s)
    evict cap (rows+1)

def ringBufferInsert (scope : ScopeId) (body : Bytes) (now : Int) : Call Unit :=
  ringBufferInsertWithPriority scope body 0 now

def ingestWithLanguage (any : AnyRow (ScopeId × Ciphertext AeadKey)) (scope : ScopeId)
    (body : Bytes) (sourceRef : Option String) (importance : ImportanceClass)
    (languageTag : Option String) (now : Int) : Call IngestResult := do
  let threshold ← config EvidenceStoreConfig.inlineThresholdBytes
  let hash := contentHash body
  match routeStorageWithThreshold body.length importance threshold with
  | .ringBuffer =>
    ringBufferInsert scope body now
    let evidenceId ← draw
    return ⟨⟨evidenceId⟩, .ringBuffer, hash⟩
  | .inline => ingestInline ix scope body sourceRef importance hash languageTag now
  | .bodyTable => ingestBodyTable ix any scope body sourceRef importance hash languageTag now

def ingest (any : AnyRow (ScopeId × Ciphertext AeadKey)) (scope : ScopeId) (body : Bytes)
    (sourceRef : Option String) (importance : ImportanceClass) (now : Int) : Call IngestResult :=
  ingestWithLanguage ix any scope body sourceRef importance none now

def addCrossReference (id : EvidenceId) (scope : ScopeId) (refKey refValue : String) (now : Int) :
    Call Unit :=
  statement fun s =>
    match s.crossReferences.lookup (id, refKey, refValue) with
    | some _ => .ok ((), s)
    | none => .ok ((), { s with
        crossReferences := s.crossReferences.insert (id, refKey, refValue) (scope, now) })

def addCrossReferences (id : EvidenceId) (scope : ScopeId) (now : Int) :
    List (String × String) → Call Unit
  | [] => return
  | (key, value) :: rest => do
    addCrossReference id scope key value now
    addCrossReferences id scope now rest

def ingestWithReferences (any : AnyRow (ScopeId × Ciphertext AeadKey)) (scope : ScopeId)
    (body : Bytes) (sourceRef : Option String) (importance : ImportanceClass)
    (languageTag : Option String) (references : List (String × String)) (now : Int) :
    Call IngestResult := do
  let result ← ingestWithLanguage ix any scope body sourceRef importance languageTag now
  if result.storagePath ≠ .ringBuffer then
    addCrossReferences result.evidenceId scope now references
  return result

def promoteFromRingBuffer (any : AnyRow (ScopeId × Ciphertext AeadKey)) (ringBufferId : Int)
    (scope : ScopeId) (importance : ImportanceClass) (now : Int) : Call (Option IngestResult) := do
  let key ← scopeKey scope
  match ← query fun s => s.store.db.ringBuffer.find? fun r =>
      (r.id : Int) = ringBufferId && r.scopeId = scope with
  | none => return none
  | some row =>
    let plaintext ← lift (decryptAead key row.body (ringBufferAad scope))
    let result ← ingest ix any scope plaintext none importance now
    write fun db => { db with
      ringBuffer := db.ringBuffer.filter fun r => (r.id : Int) ≠ ringBufferId }
    return some result

section

variable {T : Tables}

/-- The tables that a body-table ingest leaves alone until its evidence row. -/
def Untouched (T : Tables) (s : ReferencedStore) : Prop :=
  s.tables.evidence = T.evidence ∧ s.tables.ringBuffer = T.ringBuffer ∧
    s.tables.crossReferences = T.crossReferences

def Added (T : Tables) (id : EvidenceId) (row : EvidenceRow) (s : ReferencedStore) : Prop :=
  T.evidence.lookup id = none ∧ s.tables.evidence = T.evidence.insert id row ∧
    s.tables.ringBuffer = T.ringBuffer ∧ s.tables.crossReferences = T.crossReferences

theorem triple_memory {α : Type} {P : ReferencedStore → Prop} {E : ReferencedStore → Prop}
    {f : EvidenceStore → EvidenceStore × α} {Q : α → ReferencedStore → Prop}
    (h : ∀ s, P s → Q (f s.store).2 { s with store := (f s.store).1 })
    (herr : ∀ s, P s → E s) : Sql.Triple P (memory f) Q E := by
  refine .compute herr fun s a s' hs heq => ?_
  obtain ⟨rfl, rfl⟩ := Prod.mk.inj (Except.ok.inj heq)
  exact h s hs

theorem triple_query {α : Type} {P : ReferencedStore → Prop} {E : ReferencedStore → Prop}
    {f : ReferencedStore → α} (herr : ∀ s, P s → E s) :
    Sql.Triple P (query f) (fun a s => P s ∧ a = f s) E := by
  refine .statement herr fun s a s' hs heq => ?_
  obtain ⟨rfl, rfl⟩ := Prod.mk.inj (Except.ok.inj heq)
  exact ⟨hs, rfl⟩

theorem triple_times {P : ReferencedStore → Prop} {E : ReferencedStore → Prop} {p : Call Unit}
    (hp : Sql.Triple P p (fun _ => P) E) (n : Nat) :
    Sql.Triple P (times p n) (fun _ => P) E := by
  induction n with
  | zero => exact .pure fun _ h => h
  | succ n ih => exact hp.bind fun _ => ih

theorem triple_indexFts {ix : Indexing} {P : ReferencedStore → Prop} (body : Bytes) :
    Sql.Triple P (indexFts ix body) (fun _ => P) fun _ => True :=
  triple_times ((triple_query fun _ _ => trivial).weaken (fun _ h => h) (fun _ _ h => h.1)
    fun _ _ => trivial) _

theorem triple_indexEmbedding {ix : Indexing} {P : ReferencedStore → Prop} (body : Bytes) :
    Sql.Triple P (indexEmbedding ix body) (fun _ => P) fun _ => True := by
  have hcount : Sql.Triple P
      (compute fun s => .ok (ix.embeddingStatements s body, s) : Call Nat) (fun _ => P)
      fun _ => True := by
    refine .compute (fun _ _ => trivial) fun s a s' hs heq => ?_
    obtain ⟨-, rfl⟩ := Prod.mk.inj (Except.ok.inj heq)
    exact hs
  refine hcount.bind fun n => triple_times (.attempt ?_) n
  exact (triple_query fun _ h => h).weaken (fun _ h => h) (fun _ _ h => h.1) fun _ h => h

theorem triple_insertEvidence (id : EvidenceId) (row : EvidenceRow) :
    Sql.Triple (Untouched T) (insertEvidence id row) (fun _ => Added T id row) fun _ => True := by
  refine .statement (fun _ _ => trivial) fun s a s' hs heq => ?_
  obtain ⟨hevidence, hring, hcross⟩ := hs
  cases hfree : s.store.db.evidence.lookup id with
  | some _ => simp [hfree] at heq
  | none =>
    simp only [hfree] at heq
    obtain ⟨-, rfl⟩ := Prod.mk.inj (Except.ok.inj heq)
    refine ⟨?_, ?_, hring, hcross⟩
    · rw [← hevidence]
      exact hfree
    · rw [← hevidence]
      rfl

theorem triple_lift {α : Type} {P : ReferencedStore → Prop} {E : ReferencedStore → Prop}
    (reply : Except EvidenceError α) (herr : ∀ s, P s → E s) :
    Sql.Triple P (lift reply) (fun a s => P s ∧ reply = .ok a) E := by
  cases reply with
  | error err => exact .throw herr
  | ok a => exact .pure fun _ h => ⟨h, rfl⟩

theorem triple_draw {P : ReferencedStore → Prop} {E : ReferencedStore → Prop}
    (h : ∀ s, P s → P { s with store := { s.store with draws := s.store.draws+1 } })
    (herr : ∀ s, P s → E s) : Sql.Triple P draw (fun _ => P) E := triple_memory h herr

theorem triple_scopeKey {P : ReferencedStore → Prop} {E : ReferencedStore → Prop} (scope : ScopeId)
    (h : ∀ s, P s → P { s with
      store := { s.store with scopeKeys := s.store.resolved scope } })
    (herr : ∀ s, P s → E s) : Sql.Triple P (scopeKey scope) (fun _ => P) E := by
  refine triple_memory (fun s hs => ?_) herr
  simp only [scopeKey_eq]
  exact h s hs

theorem triple_insertNewBody (scope : ScopeId) (key : AeadKey) (body : Bytes)
    (hash : ContentHash) : Sql.Triple (Untouched T) (insertNewBody scope key body hash)
      (fun _ => Untouched T) fun _ => True := by
  have hdraw : Sql.Triple (Untouched T) draw (fun _ => Untouched T) fun _ => True :=
    triple_draw (fun _ h => h) fun _ _ => trivial
  refine hdraw.bind fun cek => hdraw.bind fun nonce => .bind (Q := fun _ => Untouched T) ?_
    fun _ => hdraw.bind fun nonce => ?_
  · refine .statement (fun _ _ => trivial) fun s a s' hs heq => ?_
    dsimp only at heq
    split at heq
    · cases heq
    · obtain ⟨-, rfl⟩ := Prod.mk.inj (Except.ok.inj heq)
      exact hs
  · refine .statement (fun _ _ => trivial) fun s a s' hs heq => ?_
    dsimp only at heq
    split at heq
    · cases heq
    · obtain ⟨-, rfl⟩ := Prod.mk.inj (Except.ok.inj heq)
      exact hs

theorem triple_write {P Q : ReferencedStore → Prop} {E : ReferencedStore → Prop}
    {f : Database → Database}
    (h : ∀ s, P s → Q { s with store := { s.store with db := f s.store.db } })
    (herr : ∀ s, P s → E s) : Sql.Triple P (write f) (fun _ => Q) E := by
  refine .statement herr fun s a s' hs heq => ?_
  obtain ⟨-, rfl⟩ := Prod.mk.inj (Except.ok.inj heq)
  exact h s hs

theorem triple_admitBody (scope : ScopeId) (key : AeadKey)
    (donor : Option (Ciphertext AeadKey × AeadKey)) (body : Bytes) (hash : ContentHash) :
    Sql.Triple (Untouched T) (admitBody scope key donor body hash) (fun _ => Untouched T)
      fun _ => True := by
  have hquery : ∀ {α : Type} (f : ReferencedStore → α),
      Sql.Triple (Untouched T) (query f) (fun _ => Untouched T) fun _ => True := fun f =>
    (triple_query fun _ _ => trivial).weaken (fun _ h => h) (fun _ _ h => h.1) fun _ h => h
  refine (hquery _).bind fun existing => ?_
  cases existing with
  | none => exact triple_insertNewBody scope key body hash
  | some row =>
    refine .bind (Q := fun _ => Untouched T) ?_ fun _ => (hquery _).bind fun already => ?_
    · refine .statement (fun _ _ => trivial) fun s a s' hs heq => ?_
      obtain ⟨-, rfl⟩ := Prod.mk.inj (Except.ok.inj heq)
      simp only [bumpRefCount, Untouched, ReferencedStore.tables] at hs ⊢
      split
      · exact hs
      · exact hs
    · cases already with
      | some wrapped => exact .pure fun _ h => h
      | none =>
        cases donor with
        | none =>
          refine .bind (Q := fun _ => Untouched T) (triple_write (fun _ h => h) fun _ _ => trivial)
            fun _ => ?_
          exact triple_insertNewBody scope key body hash
        | some d =>
          refine .bind ((triple_lift _ fun _ _ => trivial).weaken (fun _ h => h)
            (fun _ _ h => h.1) fun _ h => h) fun cek => ?_
          refine (triple_draw (fun _ h => h) fun _ _ => trivial).bind fun nonce => ?_
          refine triple_write (fun s hs => ?_) fun _ _ => trivial
          simp only [Untouched, ReferencedStore.tables] at hs ⊢
          split
          · exact hs
          · exact hs

theorem triple_insertIndexed (ix : Indexing) (id : EvidenceId) (row : EvidenceRow) (body : Bytes) :
    Sql.Triple (Untouched T)
      (do insertEvidence id row; indexFts ix body; indexEmbedding ix body : Call Unit)
      (fun _ => Added T id row) fun _ => True :=
  (triple_insertEvidence id row).bind fun _ => (triple_indexFts body).bind fun _ =>
    triple_indexEmbedding body

def Intact (T : Tables) (s : ReferencedStore) : Prop := s.tables = T

theorem Intact.untouched {s : ReferencedStore} (h : Intact T s) : Untouched T s := by
  subst h
  exact ⟨rfl, rfl, rfl⟩

theorem triple_transaction {α : Type} {p : Call α} {Q : α → ReferencedStore → Prop}
    (h : Sql.Triple (Untouched T) p Q fun _ => True) :
    Sql.Triple (Intact T) (transaction p) Q (Intact T) :=
  .transaction (fun _ _ hs => hs) (h.weaken (fun _ hs => hs.untouched) (fun _ _ h => h)
    fun _ h => h)

theorem triple_draw_intact : Sql.Triple (Intact T) draw (fun _ => Intact T) (Intact T) :=
  triple_draw (fun _ h => h) fun _ h => h

theorem triple_scopeKey_intact (scope : ScopeId) :
    Sql.Triple (Intact T) (scopeKey scope) (fun _ => Intact T) (Intact T) :=
  triple_scopeKey scope (fun _ h => h) fun _ h => h

/-- A row of the body has come, and nothing has been written to the ring or among the
references. -/
def Ingested (T : Tables) (scope : ScopeId) (hash : ContentHash) (r : IngestResult)
    (s : ReferencedStore) : Prop :=
  r.storagePath ≠ .ringBuffer ∧
    ∃ row, Added T r.evidenceId row s ∧ row.scopeId = scope ∧ row.contentHash = hash

variable {ix : Indexing} {any : AnyRow (ScopeId × Ciphertext AeadKey)}

theorem triple_ingestInline (scope : ScopeId) (body : Bytes) (sourceRef : Option String)
    (importance : ImportanceClass) (hash : ContentHash) (languageTag : Option String) (now : Int) :
    Sql.Triple (Intact T)
      (ingestInline ix scope body sourceRef importance hash languageTag now)
      (Ingested T scope hash) (Intact T) := by
  refine triple_draw_intact.bind fun id => (triple_scopeKey_intact scope).bind fun key =>
    triple_draw_intact.bind fun nonce => ?_
  refine (triple_transaction (triple_insertIndexed ix ⟨id⟩ _ body)).bind fun _ => .pure ?_
  intro s hs
  exact ⟨by simp, _, hs, rfl, rfl⟩

theorem triple_dedupDonor (hash : ContentHash) (scope : ScopeId) :
    Sql.Triple (Intact T) (dedupDonor any hash scope) (fun _ => Intact T) (Intact T) := by
  refine .bind ((triple_query fun _ h => h).weaken (fun _ h => h) (fun _ _ h => h.1)
    fun _ h => h) fun found => ?_
  cases found with
  | none => exact .pure fun _ h => h
  | some wrap => exact (triple_scopeKey_intact wrap.1).bind fun key => .pure fun _ h => h

theorem triple_ingestBodyTable (scope : ScopeId) (body : Bytes) (sourceRef : Option String)
    (importance : ImportanceClass) (hash : ContentHash) (languageTag : Option String) (now : Int) :
    Sql.Triple (Intact T)
      (ingestBodyTable ix any scope body sourceRef importance hash languageTag now)
      (Ingested T scope hash) (Intact T) := by
  refine triple_draw_intact.bind fun id => (triple_scopeKey_intact scope).bind fun key =>
    (triple_dedupDonor hash scope).bind fun donor => ?_
  refine (triple_transaction ((triple_admitBody scope key donor body hash).bind fun _ =>
    triple_insertIndexed ix ⟨id⟩ _ body)).bind fun _ => .pure ?_
  intro s hs
  exact ⟨by simp, _, hs, rfl, rfl⟩

end

section

variable {T : Tables} {ix : Indexing} {any : AnyRow (ScopeId × Ciphertext AeadKey)}

theorem triple_evict (cap fuel : Nat) (left : List RingRow) :
    Sql.Triple (fun s => s.store.db.ringBuffer.length < fuel ∧
        RingRow.evict cap s.store.db.ringBuffer = left ∧
        { s.tables with ringBuffer := left } = T) (evict cap fuel)
      (fun _ => Intact T) fun _ => True := by
  induction fuel with
  | zero => exact fun _ s h => absurd h.1 (Nat.not_lt_zero _)
  | succ fuel ih =>
    refine (triple_query fun _ _ => trivial).bind fun total => ?_
    split
    · rename_i hfits
      refine .pure fun s hs => ?_
      obtain ⟨⟨-, hleft, hrest⟩, htotal⟩ := hs
      rw [htotal] at hfits
      rw [evict_fits hfits] at hleft
      rw [Intact, ← hrest, ← hleft]
      rfl
    · rename_i hover
      refine .bind (Q := fun rowsChanged s => if rowsChanged = 0 then Intact T s else
        s.store.db.ringBuffer.length < fuel ∧ RingRow.evict cap s.store.db.ringBuffer = left ∧
          { s.tables with ringBuffer := left } = T)
        (.statement (fun _ _ => trivial) fun s rowsChanged s' hs heq => ?_) fun rowsChanged => ?_
      · obtain ⟨⟨hlength, hleft, hrest⟩, rfl⟩ := hs
        cases hvictim : victim s.store.db.ringBuffer with
        | none => simp [victim_none hvictim, total] at hover
        | some v =>
          simp only [hvictim] at heq
          obtain ⟨rfl, rfl⟩ := Prod.mk.inj (Except.ok.inj heq)
          have hshorter : (without v.id s.store.db.ringBuffer).length <
              s.store.db.ringBuffer.length :=
            List.length_filter_lt_length_iff_exists.mpr ⟨v, victim_mem hvictim, by simp⟩
          rw [if_neg (by omega)]
          refine ⟨?_, ?_, hrest⟩
          · exact Nat.lt_of_lt_of_le hshorter (Nat.le_of_lt_succ hlength)
          · rw [← hleft, evict_over hover hvictim]
      · by_cases hzero : rowsChanged = 0
        · simp only [hzero, if_true]
          exact .pure fun s hs => hs
        · simp only [hzero, if_false]
          exact ih

def ringed (s : ReferencedStore) (scope : ScopeId) (body : Bytes) (now : Int) : Tables :=
  { s.tables with
    ringBuffer := RingRow.evict (ringCap s.store)
      (s.store.db.ringBuffer ++ [newRow s.store scope body 0 now]) }

section

variable (s₀ : ReferencedStore) (scope : ScopeId) (body : Bytes)

def Joined (now : Int) (s : ReferencedStore) : Prop :=
  s.store.db.ringBuffer = s₀.store.db.ringBuffer ++ [newRow s₀.store scope body 0 now] ∧
    s.store.config = s₀.store.config ∧
    { s.tables with ringBuffer := (ringed s₀ scope body now).ringBuffer } =
      ringed s₀ scope body now

theorem triple_ringBufferInsert (now : Int) : Sql.Triple (· = s₀) (ringBufferInsert scope body now)
      (fun _ => Intact (ringed s₀ scope body now)) (Intact s₀.tables) := by
  have hintact : ∀ {f : EvidenceStore → EvidenceStore}, (∀ store, (f store).db = store.db) →
      ∀ s, s = { s₀ with store := f s₀.store } → Intact s₀.tables s := by
    rintro f hf s rfl
    simp only [Intact, ReferencedStore.tables, hf]
  refine .bind (Q := fun key s => key = s₀.store.keyFor scope ∧
    s = { s₀ with store := { s₀.store with scopeKeys := s₀.store.resolved scope } })
    (triple_memory ?_ (hintact (f := id) fun _ => rfl)) fun key => ?_
  · rintro s rfl
    simp only [scopeKey_eq, and_self]
  refine .bind (Q := fun nonce s => nonce = s₀.store.draws ∧ key = s₀.store.keyFor scope ∧
    s = { s₀ with store := { s₀.store with
      scopeKeys := s₀.store.resolved scope, draws := s₀.store.draws+1 } })
    (triple_memory ?_ ?_) fun nonce => ?_
  · rintro s ⟨hkey, rfl⟩
    exact ⟨rfl, hkey, rfl⟩
  · rintro s ⟨-, rfl⟩
    rfl
  refine .transaction ?_ (.bind (Q := fun _ s => Joined s₀ scope body now s) (triple_write ?_
    fun _ _ => trivial) fun _ => ?_)
  · rintro s s' ⟨-, -, rfl⟩
    rfl
  · rintro s ⟨rfl, rfl, rfl⟩
    exact ⟨rfl, rfl, rfl⟩
  · refine .bind (Q := fun cap s => cap = ringCap s₀.store ∧ Joined s₀ scope body now s)
      (triple_memory (fun s hs => ⟨?_, hs⟩) fun _ _ => trivial) fun cap => ?_
    · rw [hs.2.1]
      rfl
    refine .bind (Q := fun rows s => s.store.db.ringBuffer.length = rows ∧
      cap = ringCap s₀.store ∧ Joined s₀ scope body now s)
      (.compute (fun _ _ => trivial) fun s rows s' hs heq => ?_) fun rows => ?_
    · obtain ⟨rfl, rfl⟩ := Prod.mk.inj (Except.ok.inj heq)
      exact ⟨rfl, hs⟩
    · refine (triple_evict cap (rows+1) (ringed s₀ scope body now).ringBuffer).weaken ?_
        (fun _ _ h => h) fun _ h => h
      rintro s ⟨hlength, rfl, hring, -, htables⟩
      refine ⟨by omega, ?_, htables⟩
      rw [hring]
      rfl

/-- What an ingest that returns has done: nothing to `evidence` in the case of noise. -/
def Reached (importance : ImportanceClass)
    (now : Int) (r : IngestResult) (s : ReferencedStore) : Prop :=
  if importance = .noise then
    r.storagePath = .ringBuffer ∧ Intact (ringed s₀ scope body now) s
  else Ingested s₀.tables scope (contentHash body) r s

end

variable (ix any) in
theorem triple_ingestWithLanguage (s₀ : ReferencedStore) (scope : ScopeId) (body : Bytes)
    (sourceRef : Option String) (importance : ImportanceClass) (languageTag : Option String)
    (now : Int) : Sql.Triple (· = s₀)
      (ingestWithLanguage ix any scope body sourceRef importance languageTag now)
      (Reached s₀ scope body importance now) (Intact s₀.tables) := by
  have hintact : ∀ s, s = s₀ → Intact s₀.tables s := by
    rintro s rfl
    rfl
  refine .bind (Q := fun _ s => s = s₀) (triple_memory (fun _ h => h) hintact) fun threshold => ?_
  unfold routeStorageWithThreshold Reached
  by_cases hnoise : importance = .noise
  · simp only [hnoise, if_true]
    refine (triple_ringBufferInsert s₀ scope body now).bind fun _ => ?_
    refine .bind (Q := fun _ => Intact (ringed s₀ scope body now)) ?_ fun id =>
      .pure fun s hs => ⟨rfl, hs⟩
    exact fun fuse s hs => hs
  · simp only [hnoise, if_false]
    split
    · rename_i heq
      split at heq
      · cases heq
      · cases heq
    · exact (triple_ingestInline scope body sourceRef importance (contentHash body) languageTag
        now).weaken hintact (fun _ _ h => h) fun _ h => h
    · exact (triple_ingestBodyTable scope body sourceRef importance (contentHash body) languageTag
        now).weaken hintact (fun _ _ h => h) fun _ h => h

theorem addCrossReferences_run (id : EvidenceId) (scope : ScopeId) (now : Int)
    (references : List (String × String)) (fuse : Fuse) (s : ReferencedStore) :
    ∃ fuse' s', s'.store = s.store ∧
      addCrossReferences id scope now references fuse s =
        (fuse', s', if ∃ k < references.length, fuse = some k then .error broken else .ok ()) := by
  induction references generalizing fuse s with
  | nil => exact ⟨fuse, s, rfl, by simp; rfl⟩
  | cons reference rest ih =>
    rw [addCrossReferences]
    have hone : ∀ (fuse' : Fuse), (∀ f s, Sql.statement broken f fuse s =
        (Sql.compute f fuse' s : Fuse × ReferencedStore × Except EvidenceError Unit)) →
        ∃ s', s'.store = s.store ∧
          addCrossReference id scope reference.1 reference.2 now fuse s = (fuse', s', .ok ()) := by
      intro fuse' hfuse
      rw [addCrossReference, statement, hfuse, compute]
      cases s.crossReferences.lookup (id, reference.1, reference.2) with
      | none =>
        exact ⟨{ s with crossReferences :=
          s.crossReferences.insert (id, reference.1, reference.2) (scope, now) }, rfl, rfl⟩
      | some _ => exact ⟨s, rfl, rfl⟩
    rcases fuse with _ | _ | k
    · obtain ⟨s', hstore, hrun⟩ := hone none fun _ _ => rfl
      obtain ⟨fuse'', s'', hstore', hrest⟩ := ih none s'
      refine ⟨fuse'', s'', hstore'.trans hstore, ?_⟩
      rw [bind_ok hrun, hrest]
      simp
    · refine ⟨none, s, rfl, ?_⟩
      have hfails : addCrossReference id scope reference.1 reference.2 now (some 0) s =
          (none, s, .error broken) := rfl
      rw [bind_error hfails]
      simp
    · obtain ⟨s', hstore, hrun⟩ := hone (some k) fun _ _ => rfl
      obtain ⟨fuse'', s'', hstore', hrest⟩ := ih (some k) s'
      refine ⟨fuse'', s'', hstore'.trans hstore, ?_⟩
      rw [bind_ok hrun, hrest]
      simp

def Atomic {α : Type} (p : Call α) (fuse : Fuse) (s : ReferencedStore) : Prop :=
  ∀ fuse' s' err, p fuse s = (fuse', s', .error err) → s'.tables = s.tables

/-- The entry is gone, and `evidence` has one row more, with its body. -/
def Promoted (id : Int) (scope : ScopeId) (s s' : ReferencedStore) : Prop :=
  (∀ row ∈ s'.tables.ringBuffer, (row.id : Int) ≠ id) ∧
    ∃ entry ∈ s.tables.ringBuffer, (entry.id : Int) = id ∧ ∃ evidenceId row,
      s.tables.evidence.lookup evidenceId = none ∧ row.scopeId = scope ∧
      row.contentHash = contentHash entry.body.plain ∧
      s'.tables.evidence = s.tables.evidence.insert evidenceId row

def ReferenceFails (ix : Indexing) (any : AnyRow (ScopeId × Ciphertext AeadKey)) (scope : ScopeId)
    (body : Bytes) (sourceRef : Option String) (importance : ImportanceClass)
    (languageTag : Option String) (references : List (String × String)) (now : Int) (fuse : Fuse)
    (s : ReferencedStore) : Prop :=
  importance ≠ .noise ∧ ∃ s' r, ∃ k < references.length,
    ingestWithLanguage ix any scope body sourceRef importance languageTag now fuse s =
      (some k, s', .ok r)

theorem run_cases {α : Type} {P : ReferencedStore → Prop} {p : Call α}
    {Q : α → ReferencedStore → Prop} {E : ReferencedStore → Prop} (h : Sql.Triple P p Q E)
    (fuse : Fuse) {s : ReferencedStore} (hs : P s) :
    (∃ fuse' s' a, p fuse s = (fuse', s', .ok a) ∧ Q a s') ∨
      ∃ fuse' s' err, p fuse s = (fuse', s', .error err) ∧ E s' := by
  have hrun := h fuse s hs
  rcases hreply : p fuse s with ⟨fuse', s', err | a⟩
  · rw [hreply] at hrun
    exact .inr ⟨fuse', s', err, rfl, hrun⟩
  · rw [hreply] at hrun
    exact .inl ⟨fuse', s', a, rfl, hrun⟩

theorem Ingested.tables_ne {s s' : ReferencedStore} {scope : ScopeId} {hash : ContentHash}
    {r : IngestResult} (h : Ingested s.tables scope hash r s') :
    s'.tables.evidence ≠ s.tables.evidence := by
  obtain ⟨-, row, ⟨hfree, hevidence, -, -⟩, -⟩ := h
  intro heq
  rw [← heq, hevidence, AList.lookup_insert] at hfree
  cases hfree

variable (ix any) in
theorem ingestWithReferences_iff (scope : ScopeId) (body : Bytes) (sourceRef : Option String)
    (importance : ImportanceClass) (languageTag : Option String)
    (references : List (String × String)) (now : Int) (fuse : Fuse) (s : ReferencedStore) :
    Atomic (ingestWithReferences ix any scope body sourceRef importance languageTag references now)
        fuse s ↔
      ¬ReferenceFails ix any scope body sourceRef importance languageTag references now fuse s := by
  obtain ⟨fuse', s', r, hingest, hreached⟩ | ⟨fuse', s', err, hingest, hintact⟩ := run_cases
    (triple_ingestWithLanguage ix any s scope body sourceRef importance
      languageTag now) fuse rfl
  · have hfails : ReferenceFails ix any scope body sourceRef importance languageTag references now
        fuse s ↔ importance ≠ .noise ∧ ∃ k < references.length, fuse' = some k := by
      rw [ReferenceFails, hingest]
      constructor
      · rintro ⟨hnoise, s'', r', k, hk, heq⟩
        exact ⟨hnoise, k, hk, congrArg Prod.fst heq⟩
      · rintro ⟨hnoise, k, hk, rfl⟩
        exact ⟨hnoise, s', r, k, hk, rfl⟩
    rw [hfails, Atomic, ingestWithReferences, bind_ok hingest]
    unfold Reached at hreached
    by_cases hnoise : importance = .noise
    · rw [if_pos hnoise] at hreached
      simp only [hreached.1, ne_eq, not_true_eq_false, if_false, hnoise, false_and,
        not_false_eq_true, iff_true]
      intro fuse'' s'' err herr
      cases herr
    · rw [if_neg hnoise] at hreached
      obtain ⟨fuse'', s'', hstore, hrun⟩ := addCrossReferences_run r.evidenceId scope now references
        fuse' s'
      simp only [hreached.1, ne_eq, not_false_eq_true, if_true, hnoise, true_and]
      by_cases hfail : ∃ k < references.length, fuse' = some k
      · rw [if_pos hfail] at hrun
        rw [bind_error hrun]
        simp only [hfail, not_true_eq_false, iff_false]
        intro hatomic
        have hsame := congrArg Tables.evidence (hatomic _ _ _ rfl)
        simp only [ReferencedStore.tables, hstore] at hsame
        exact hreached.tables_ne hsame
      · rw [if_neg hfail] at hrun
        rw [bind_ok hrun]
        simp only [hfail, not_false_eq_true, iff_true]
        intro fuse₃ s₃ err herr
        cases herr
  · have hfails : ¬ReferenceFails ix any scope body sourceRef importance languageTag references now
        fuse s := by
      rintro ⟨-, s'', r', k, -, heq⟩
      rw [hingest] at heq
      cases heq
    rw [Atomic, ingestWithReferences, bind_error hingest]
    simp only [hfails, not_false_eq_true, iff_true]
    intro fuse'' s'' err' heq
    obtain ⟨-, heq⟩ := Prod.mk.inj heq
    rw [← (Prod.mk.inj heq).1]
    exact hintact

def promoteUpToDelete (ix : Indexing) (any : AnyRow (ScopeId × Ciphertext AeadKey))
    (ringBufferId : Int) (scope : ScopeId) (importance : ImportanceClass) (now : Int) :
    Call (Option IngestResult) := do
  let key ← scopeKey scope
  match ← query fun s => s.store.db.ringBuffer.find? fun r =>
      (r.id : Int) = ringBufferId && r.scopeId = scope with
  | none => return none
  | some row =>
    let plaintext ← lift (decryptAead key row.body (ringBufferAad scope))
    let result ← ingest ix any scope plaintext none importance now
    return some result

def entryOf (s : ReferencedStore) (ringBufferId : Int) (scope : ScopeId) : Option RingRow :=
  s.store.db.ringBuffer.find? fun r => (r.id : Int) = ringBufferId && r.scopeId = scope

theorem promote_eq (ringBufferId : Int) (scope : ScopeId) (importance : ImportanceClass)
    (now : Int) : promoteFromRingBuffer ix any ringBufferId scope importance now =
      promoteUpToDelete ix any ringBufferId scope importance now >>= fun
        | none => return none
        | some result => do
          write fun db => { db with
            ringBuffer := db.ringBuffer.filter fun r => (r.id : Int) ≠ ringBufferId }
          return some result := by
  rw [promoteFromRingBuffer, promoteUpToDelete, bind_assoc]
  congr 1
  funext key
  rw [bind_assoc]
  congr 1
  funext found
  cases found with
  | none => rfl
  | some row => simp only [bind_assoc, pure_bind]

def resolving (s : ReferencedStore) (scope : ScopeId) : ReferencedStore :=
  { s with store := { s.store with scopeKeys := s.store.resolved scope } }

theorem reached_resolving {s₀ s : ReferencedStore} {scope : ScopeId} {body : Bytes}
    {importance : ImportanceClass} {now : Int} {r : IngestResult} :
    Reached (resolving s₀ scope) scope body importance now r s ↔
      Reached s₀ scope body importance now r s := by
  have hkey : Resolves s₀.store (resolving s₀ scope).store :=
    resolves_of_resolved scope rfl rfl (Nat.le_refl _) rfl rfl
  have hrow : newRow (resolving s₀ scope).store scope body 0 now =
      newRow s₀.store scope body 0 now := by
    simp only [newRow, hkey.keyFor]
    rfl
  have hringed : ringed (resolving s₀ scope) scope body now = ringed s₀ scope body now := by
    rw [ringed, hrow]
    rfl
  rw [Reached, hringed]
  rfl

variable (ix any) in
theorem triple_promoteUpToDelete (s₀ : ReferencedStore) (ringBufferId : Int) (scope : ScopeId)
    (importance : ImportanceClass) (now : Int) : Sql.Triple (· = s₀)
      (promoteUpToDelete ix any ringBufferId scope importance now)
      (fun found s => ∀ r, found = some r → ∃ entry, entryOf s₀ ringBufferId scope = some entry ∧
        Reached s₀ scope entry.body.plain importance now r s) (Intact s₀.tables) := by
  refine .bind (Q := fun key s => key = s₀.store.keyFor scope ∧
    s = resolving s₀ scope)
    (triple_memory ?_ ?_) fun key => ?_
  · rintro s rfl
    simp only [scopeKey_eq, true_and]
    rfl
  · rintro s rfl
    rfl
  refine .bind (triple_query ?_) fun found => ?_
  · rintro s ⟨-, rfl⟩
    rfl
  cases found with
  | none =>
    refine .pure fun s hs r hr => ?_
    cases hr
  | some entry =>
    refine .bind (triple_lift _ ?_) fun plaintext => ?_
    · rintro s ⟨⟨-, rfl⟩, -⟩
      rfl
    rintro fuse s ⟨⟨⟨-, rfl⟩, hentry⟩, hplain⟩
    have hbody : entry.body.plain = plaintext := by
      unfold decryptAead at hplain
      split at hplain
      · cases hplain
      · rename_i plain hopen
        rw [(Cipher.Sealed.openWith_eq_some.mp hopen).2.2, Except.ok.inj hplain]
    refine Sql.Triple.bind ((triple_ingestWithLanguage ix any (resolving s₀ scope) scope plaintext
      none importance none now).weaken (fun _ h => h) (fun _ _ h => h) fun _ h => h)
      (fun r => .pure ?_) fuse _ rfl
    rintro s' hreached r' heq
    obtain rfl := Option.some.inj heq
    refine ⟨entry, hentry.symm, ?_⟩
    rw [hbody]
    rwa [reached_resolving] at hreached

/-- What a promotion has to do: nothing where it fails, and where it says that it has promoted
the entry, that the entry is gone and `evidence` has one row more, with its body. -/
def PromotesOnce (ix : Indexing) (any : AnyRow (ScopeId × Ciphertext AeadKey)) (ringBufferId : Int)
    (scope : ScopeId) (importance : ImportanceClass) (now : Int) (fuse : Fuse)
    (s : ReferencedStore) : Prop :=
  Atomic (promoteFromRingBuffer ix any ringBufferId scope importance now) fuse s ∧
    ∀ fuse' s' r, promoteFromRingBuffer ix any ringBufferId scope importance now fuse s =
      (fuse', s', .ok (some r)) → Promoted ringBufferId scope s s'

/-- The row that noise is put back as is the one that is evicted for it. -/
def FallsThrough (ringBufferId : Int) (scope : ScopeId) (now : Int) (s : ReferencedStore) : Prop :=
  ∃ entry, entryOf s ringBufferId scope = some entry ∧
    RingRow.evict (ringCap s.store)
      (s.store.db.ringBuffer ++ [newRow s.store scope entry.body.plain 0 now]) =
        s.store.db.ringBuffer

/-- The statement that deletes the entry, where it is come to: it does not fail, and the body is
not put back as noise. Noise is left as it was only by a failure that finds its new row evicted. -/
def DeletesEntry (ix : Indexing) (any : AnyRow (ScopeId × Ciphertext AeadKey)) (ringBufferId : Int)
    (scope : ScopeId) (importance : ImportanceClass) (now : Int) (fuse : Fuse)
    (s : ReferencedStore) : Prop :=
  ∀ fuse' s' r, promoteUpToDelete ix any ringBufferId scope importance now fuse s =
    (fuse', s', .ok (some r)) →
      if importance = .noise then fuse' = some 0 ∧ FallsThrough ringBufferId scope now s
      else fuse' ≠ some 0

theorem write_fails {f : Database → Database} {fuse : Fuse} {s : ReferencedStore}
    (h : fuse = some 0) : write f fuse s = (none, s, .error broken) := by
  rw [h]
  rfl

theorem write_runs {f : Database → Database} {fuse : Fuse} {s : ReferencedStore}
    (h : fuse ≠ some 0) : ∃ fuse', write f fuse s =
      (fuse', { s with store := { s.store with db := f s.store.db } }, .ok ()) := by
  rcases fuse with _ | _ | n
  · exact ⟨none, rfl⟩
  · exact absurd rfl h
  · exact ⟨some n, rfl⟩

section

variable {s s' : ReferencedStore} {ringBufferId : Int} {scope : ScopeId} {entry : RingRow}
  {importance : ImportanceClass} {now : Int} {r : IngestResult}

theorem deleteFails_iff (hentry : entryOf s ringBufferId scope = some entry)
    (h : Reached s scope entry.body.plain importance now r s') :
    s'.tables = s.tables ↔
      if importance = .noise then FallsThrough ringBufferId scope now s else False := by
  unfold Reached at h
  split
  · rename_i hnoise
    rw [if_pos hnoise] at h
    have hring : s'.tables = ringed s scope entry.body.plain now := h.2
    rw [hring]
    constructor
    · intro heq
      exact ⟨entry, hentry, congrArg Tables.ringBuffer heq⟩
    · rintro ⟨entry', hentry', hevict⟩
      obtain rfl := Option.some.inj (hentry.symm.trans hentry')
      rw [ringed, hevict]
      rfl
  · rename_i hnoise
    rw [if_neg hnoise] at h
    simp only [iff_false]
    intro heq
    exact h.tables_ne (congrArg Tables.evidence heq)

theorem promoted_iff (hentry : entryOf s ringBufferId scope = some entry)
    (h : Reached s scope entry.body.plain importance now r s') :
    Promoted ringBufferId scope s { s' with store := { s'.store with db := { s'.store.db with
      ringBuffer := s'.store.db.ringBuffer.filter fun r => (r.id : Int) ≠ ringBufferId } } } ↔
      if importance = .noise then False else True := by
  unfold Reached at h
  split
  · rename_i hnoise
    rw [if_pos hnoise] at h
    simp only [iff_false]
    rintro ⟨-, _, -, -, id, row, hfree, -, -, hevidence⟩
    have hring : s'.tables = ringed s scope entry.body.plain now := h.2
    have hsame : s'.tables.evidence = s.tables.evidence := by
      rw [hring]
      rfl
    have hevidence : s'.tables.evidence = s.tables.evidence.insert id row := hevidence
    rw [hsame] at hevidence
    rw [hevidence, AList.lookup_insert] at hfree
    cases hfree
  · rename_i hnoise
    rw [if_neg hnoise] at h
    simp only [iff_true]
    obtain ⟨-, row, ⟨hfree, hevidence, -, -⟩, hscope, hhash⟩ := h
    refine ⟨?_, entry, List.mem_of_find?_eq_some hentry, ?_, _, row, hfree, hscope, hhash,
      hevidence⟩
    · intro row hrow
      simpa using (List.mem_filter.mp hrow).2
    · have hfound := List.find?_some hentry
      simp only [Bool.and_eq_true, decide_eq_true_eq] at hfound
      exact hfound.1

end

variable (ix any) in
theorem promote_iff (ringBufferId : Int) (scope : ScopeId) (importance : ImportanceClass)
    (now : Int) (fuse : Fuse) (s : ReferencedStore) :
    PromotesOnce ix any ringBufferId scope importance now fuse s ↔
      DeletesEntry ix any ringBufferId scope importance now fuse s := by
  unfold PromotesOnce DeletesEntry Atomic
  rw [promote_eq]
  obtain ⟨fuse', s', found, hrun, hfound⟩ | ⟨fuse', s', err, hrun, hintact⟩ := run_cases
    (triple_promoteUpToDelete ix any s ringBufferId scope importance now) fuse rfl
  · rw [bind_ok hrun, hrun]
    cases found with
    | none =>
      refine iff_of_true ⟨fun _ _ _ herr => ?_, fun _ _ _ hok => ?_⟩ fun _ _ _ hsome => ?_
      · cases herr
      · cases hok
      · cases hsome
    | some r =>
      obtain ⟨entry, hentry, hreached⟩ := hfound r rfl
      have hcond : (∀ fuse'' s'' r', (fuse', s', Except.ok (some r)) =
          ((fuse'', s'', .ok (some r')) : Fuse × ReferencedStore ×
            Except EvidenceError (Option IngestResult)) →
          if importance = .noise then fuse'' = some 0 ∧ FallsThrough ringBufferId scope now s
          else fuse'' ≠ some 0) ↔
          if importance = .noise then fuse' = some 0 ∧ FallsThrough ringBufferId scope now s
          else fuse' ≠ some 0 := by
        constructor
        · intro h
          exact h fuse' s' r rfl
        · intro h fuse'' s'' r' heq
          obtain rfl : fuse' = fuse'' := congrArg Prod.fst heq
          exact h
      rw [hcond]
      dsimp only
      by_cases hfuse : fuse' = some 0
      · rw [bind_error (write_fails hfuse)]
        simp only [hfuse, true_and, ne_eq, not_true_eq_false]
        rw [← deleteFails_iff hentry hreached]
        constructor
        · rintro ⟨hatomic, -⟩
          exact hatomic _ _ _ rfl
        · intro hsame
          refine ⟨fun _ _ _ herr => ?_, fun _ _ _ hok => ?_⟩
          · rw [← (Prod.mk.inj (Prod.mk.inj herr).2).1]
            exact hsame
          · cases hok
      · obtain ⟨fuse'', hwrite⟩ := write_runs (f := fun db => { db with
          ringBuffer := db.ringBuffer.filter fun r => (r.id : Int) ≠ ringBufferId }) (s := s') hfuse
        rw [bind_ok hwrite]
        simp only [hfuse, false_and, ne_eq, not_false_eq_true]
        rw [← promoted_iff hentry hreached]
        constructor
        · rintro ⟨-, hpromoted⟩
          exact hpromoted _ _ _ rfl
        · intro hpromoted
          refine ⟨fun _ _ _ herr => ?_, fun _ _ _ hok => ?_⟩
          · cases herr
          · rw [← (Prod.mk.inj (Prod.mk.inj hok).2).1]
            exact hpromoted
  · rw [bind_error hrun, hrun]
    refine iff_of_true ⟨fun _ _ _ herr => ?_, fun _ _ _ hok => ?_⟩ fun _ _ _ hsome => ?_
    · rw [← (Prod.mk.inj (Prod.mk.inj herr).2).1]
      exact hintact
    · cases hok
    · cases hsome

end

/-- Whichever statement fails, an ingest with references is atomic just in case it is not one that
records a reference, and a promotion just in case it is not the last one and the body does not go
back into the ring. -/
theorem composite_ingests_iff (ix : Indexing) (any : AnyRow (ScopeId × Ciphertext AeadKey))
    (s : ReferencedStore) (fuse : Fuse) (scope : ScopeId) (importance : ImportanceClass)
    (now : Int) :
    (∀ body sourceRef languageTag references,
      Atomic (ingestWithReferences ix any scope body sourceRef importance languageTag references
          now) fuse s ↔
        ¬ReferenceFails ix any scope body sourceRef importance languageTag references now fuse s) ∧
    ∀ ringBufferId, PromotesOnce ix any ringBufferId scope importance now fuse s ↔
      DeletesEntry ix any ringBufferId scope importance now fuse s :=
  ⟨fun body sourceRef languageTag references => ingestWithReferences_iff ix any scope body sourceRef
    importance languageTag references now fuse s,
    fun ringBufferId => promote_iff ix any ringBufferId scope importance now fuse s⟩

def noIndex : Indexing := ⟨fun _ => 0, fun _ _ => 0⟩

def emptyStore : ReferencedStore := ⟨⟨.empty, ⟨512, 5 * 1024 * 1024⟩, ∅, 0, 0⟩, ∅⟩

def noisyStore : ReferencedStore :=
  { emptyStore with store := { emptyStore.store with
      db := { Database.empty with
        ringBuffer := [newRow emptyStore.store 7 [1] 0 0]
        ringSequence := 1 }
      draws := 1 } }

/-- The fourth statement fails, which records the reference; the fifth, which deletes the entry;
and then none, but the entry is promoted to noise. -/
theorem half_ingested :
    ¬Atomic (ingestWithReferences noIndex anyFirst 7 [1] none .useful none [("thread_id", "a")] 0)
      (some 3) emptyStore ∧
    ¬PromotesOnce noIndex anyFirst 1 7 .useful 0 (some 4) noisyStore ∧
    ¬PromotesOnce noIndex anyFirst 1 7 .noise 0 none noisyStore := by
  refine ⟨?_, ?_, ?_⟩
  · rw [ingestWithReferences_iff, not_not]
    exact ⟨by decide, _, _, 0, by decide, rfl⟩
  · rw [promote_iff]
    intro h
    exact absurd rfl (h (some 0) _ _ rfl)
  · rw [promote_iff]
    intro h
    cases (h none _ _ rfl).1

end Composite

end Knowledge.Evidence
