import Knowledge.Evidence.Effects

/-!
Forgotten means undecryptable. A row that was sealed under a random key of its scope stays
sealed once that key is deleted: no row of `scope_deks`, no wrap and no derivation gives the
key again, whatever is called later.
-/

set_option autoImplicit false

namespace Knowledge.Evidence
open Knowledge.Cipher
open Knowledge.Sync (Uuid)
open Knowledge.Transition
open EvidenceStore

/-- A key that was drawn, that no wrap holds, and that only these scopes have stored. -/
structure Apart (s : EvidenceStore) (n : Nat) (owner : ScopeId → Prop) : Prop where
  drawn : n < s.draws
  wraps : ∀ hash scope w, s.db.wrap hash scope = some w → w.plain ≠ .random n
  deks : ∀ scope, s.dekFor scope = some (.random n) → owner scope

section

variable {s t : EvidenceStore} {op : Op}

theorem dek_of_drawn (h : Effect s op t) {n : Nat} (hn : n < s.draws) {scope : ScopeId}
    (hdek : t.dekFor scope = some (.random n)) : s.dekFor scope = some (.random n) := by
  obtain hold | ⟨into, dek, hprovides, hmint⟩ := h.dek_cases
  · exact hold scope _ hdek
  · rw [hprovides.dek] at hdek
    split at hdek
    · obtain rfl := Option.some.inj hdek
      obtain hlegacy | hrandom := hmint
      · cases hlegacy
      · obtain rfl := AeadKey.random.inj hrandom
        exact absurd hn (Nat.lt_irrefl _)
    · exact hdek

theorem Apart.step {n : Nat} {owner : ScopeId → Prop} (h : Apart s n owner)
    (he : Effect s op t) : Apart t n owner := by
  refine ⟨Nat.lt_of_lt_of_le h.drawn he.grows.draws, fun hash scope w hw => ?_, fun scope hdek => ?_⟩
  · obtain ⟨scope', w', hw', hplain⟩ | ⟨m, hm, hle, -⟩ := he.grows.ceks hash scope w hw
    · rw [← hplain]
      exact h.wraps hash scope' w' hw'
    · rw [hm]
      intro heq
      have := h.drawn
      have := AeadKey.random.inj heq
      omega
  · exact h.deks scope (dek_of_drawn he h.drawn hdek)

end

/-- Inline rows of the scope are sealed under random keys of its own, which are no longer stored
once the scope is between the two steps of forgetting. -/
structure Guarded (b : Books) (scope : ScopeId) : Prop where
  settled : Settled b.store
  ceks : ∀ hash other w, b.store.db.wrap hash other = some w →
    ∃ n, w.plain = .random n ∧ n < b.store.draws
  deks : ∀ other n, b.store.dekFor other = some (.random n) → Apart b.store n (· = other)
  rows : ∀ id row c, b.store.db.evidence.lookup id = some row → row.scopeId = scope →
    row.storagePath = .inline → row.body = some c → ∃ n, c.key = .random n ∧
      Apart b.store n (· = scope) ∧ (scope ∈ b.half → b.store.dekFor scope ≠ some (.random n))

/-- Small bodies are ingested for the scope only while it has a random key stored, and not
between the two steps of forgetting it. -/
def Books.SealsStored (scope : ScopeId) (b : Books) : Op → Prop
  | .ingest _ into body _ importance _ _ => into = scope →
    routeStorageWithThreshold body.length importance b.store.config.inlineThresholdBytes =
      .inline → (∃ n, b.store.dekFor scope = some (.random n)) ∧ scope ∉ b.half
  | _ => True

open Books

/-- Nothing is stored for the scope again that one of its rows in this file refers to. -/
def Books.LeavesBuried (db : Database) (scope : ScopeId) (b : Books) (op : Op) : Prop :=
  ∀ id row hash, db.evidence.lookup id = some row → row.scopeId = scope →
    row.bodyRef = some hash → b.store.stores op ≠ some (scope, hash)

section

variable {b : Books} {scope : ScopeId} {op : Op}

theorem mem_half_next (hmem : scope ∈ (b.next op).half) :
    scope ∈ b.half ∨ op = .deleteScopeDek scope := by
  cases op with
  | deleteScopeDek other =>
    obtain rfl | hmem := List.mem_cons.mp hmem
    · exact .inr rfl
    · exact .inl hmem
  | purgeBodyKeyWraps other => exact .inl (List.mem_of_mem_filter hmem)
  | _ => exact .inl hmem

theorem Guarded.deks_next (h : Guarded b scope) (he : Effect b.store op (b.next op).store)
    {other : ScopeId} {n : Nat} (hdek : (b.next op).store.dekFor other = some (.random n)) :
    Apart (b.next op).store n (· = other) := by
  obtain hold | ⟨into, dek, hprovides, hmint⟩ := he.dek_cases
  · exact (h.deks other n (hold other _ hdek)).step he
  · have hother := hdek
    rw [hprovides.dek] at hdek
    split at hdek
    · rename_i heq
      subst heq
      obtain rfl := Option.some.inj hdek
      obtain hlegacy | hrandom := hmint
      · cases hlegacy
      · obtain rfl := AeadKey.random.inj hrandom
        -- the key has just been drawn, so that nothing held it before
        refine ⟨hprovides.draws, fun hash scope' w hw heq => ?_, fun scope' hdek' => ?_⟩
        · rw [Database.wrap, hprovides.data.keyWraps] at hw
          obtain ⟨m, hm, hlt⟩ := h.ceks hash scope' w hw
          rw [hm] at heq
          obtain rfl := AeadKey.random.inj heq
          exact absurd hlt (Nat.lt_irrefl _)
        · rw [hprovides.dek] at hdek'
          split at hdek'
          · assumption
          · exact absurd (h.deks scope' _ hdek').drawn (Nat.lt_irrefl _)
    · exact (h.deks other n hdek).step he

theorem Guarded.rows_next (h : Guarded b scope) (hseals : b.SealsStored scope op)
    (he : Effect b.store op (b.next op).store) {id : EvidenceId} {row : EvidenceRow}
    {c : Ciphertext Bytes} (hrow : (b.next op).store.db.evidence.lookup id = some row)
    (hscope : row.scopeId = scope) (hpath : row.storagePath = .inline) (hbody : row.body = some c) :
    ∃ n, c.key = .random n ∧ Apart (b.next op).store n (· = scope) ∧
      (scope ∈ (b.next op).half → (b.next op).store.dekFor scope ≠ some (.random n)) := by
  obtain hold | ⟨-, -, htable | ⟨any, into, body, sourceRef, importance, languageTag, now, c', hop,
    hroute, hinto, hbody', hkey⟩⟩ := he.row_cases hrow
  · obtain ⟨n, hn, hapart, hdeleted⟩ := h.rows id row c hold hscope hpath hbody
    refine ⟨n, hn, hapart.step he, fun hhalf hdek => ?_⟩
    have hdek' := dek_of_drawn he hapart.drawn hdek
    obtain hhalf | rfl := mem_half_next hhalf
    · exact hdeleted hhalf hdek'
    · rw [show (b.next (.deleteScopeDek scope)).store = b.store.deleteScopeDek scope from rfl,
        dekFor_deleteScopeDek, if_pos rfl] at hdek
      cases hdek
  · rw [htable] at hpath
    cases hpath
  · subst hop
    obtain rfl : into = scope := hinto.symm.trans hscope
    obtain rfl : c' = c := Option.some.inj (hbody'.symm.trans hbody)
    obtain ⟨⟨n, hdek⟩, hhalf⟩ := hseals rfl hroute
    refine ⟨n, ?_, (h.deks into n hdek).step he, fun hmem => absurd hmem hhalf⟩
    rw [hkey, h.settled.hydrated.agrees into trivial, hdek]
    rfl

theorem Guarded.next (h : Guarded b scope) (hseals : b.SealsStored scope op) :
    Guarded (b.next op) scope := by
  have he := h.settled.effect op
  refine ⟨h.settled.next op, fun hash other w hw => ?_, fun other n hdek => h.deks_next he hdek,
    fun id row c hrow hscope hpath hbody => h.rows_next hseals he hrow hscope hpath hbody⟩
  obtain ⟨other', w', hw', hplain⟩ | ⟨n, hn, -, hlt⟩ := he.grows.ceks hash other w hw
  · obtain ⟨n, hn, hlt⟩ := h.ceks hash other' w' hw'
    exact ⟨n, by rw [← hplain, hn], Nat.lt_of_lt_of_le hlt he.grows.draws⟩
  · exact ⟨n, hn, hlt⟩

end

theorem guarded_of_reachable {masterKey : MasterKey} {config : EvidenceStoreConfig} {b : Books}
    {scope : ScopeId} (h : ((system masterKey config).restrict
      (Books.SealsStored scope)).Reachable b) : Guarded b scope := by
  refine h.invariant (Guarded · scope) ?_ ?_
  · rintro b rfl
    refine ⟨settled_start masterKey config, fun hash other w hw => ?_, fun other n hdek => ?_,
      fun id row c hrow => ?_⟩
    · cases hw
    · cases hdek
    · cases hrow
  · rintro b op b' - hb ⟨⟨-, rfl⟩, hseals⟩
    exact hb.next hseals

/-- A row that nothing stored opens: its own key is held nowhere, or the scope has no wrap of
the body it refers to. -/
structure Buried (s : EvidenceStore) (id : EvidenceId) (row : EvidenceRow) : Prop where
  settled : Settled s
  present : s.db.evidence.lookup id = some row
  inline : ∀ c, row.storagePath = .inline → row.body = some c →
    ∃ n, c.key = .random n ∧ Apart s n fun _ => False
  table : ∀ hash, row.bodyRef = some hash → s.db.wrap hash row.scopeId = none

theorem Guarded.buried {b : Books} {scope : ScopeId} (h : Guarded b scope) (hhalf : scope ∈ b.half)
    {id : EvidenceId} {row : EvidenceRow} (hrow : b.store.db.evidence.lookup id = some row)
    (hscope : row.scopeId = scope) :
    Buried (b.next (.purgeBodyKeyWraps scope)).store id row := by
  refine ⟨h.settled.next (.purgeBodyKeyWraps scope), hrow, fun c hpath hbody => ?_,
    fun hash _ => ?_⟩
  · obtain ⟨n, hn, hapart, hdeleted⟩ := h.rows id row c hrow hscope hpath hbody
    have hnone : Apart b.store n fun _ => False := by
      refine ⟨hapart.drawn, hapart.wraps, fun other hdek => ?_⟩
      obtain rfl := hapart.deks other hdek
      exact hdeleted hhalf hdek
    exact ⟨n, hn, hnone.step (h.settled.effect (.purgeBodyKeyWraps scope))⟩
  · rw [hscope]
    exact (wrap_purge b.store scope hash scope).trans (if_pos rfl)

theorem Buried.next {b : Books} {id : EvidenceId} {row : EvidenceRow}
    (h : Buried b.store id row) {op : Op}
    (hleaves : ∀ hash, row.bodyRef = some hash → b.store.stores op ≠ some (row.scopeId, hash)) :
    Buried (b.next op).store id row := by
  have he := h.settled.effect op
  refine ⟨h.settled.next op, he.grows.evidence id row (h.settled.ids id row h.present) h.present,
    fun c hpath hbody => ?_, fun hash href => ?_⟩
  · obtain ⟨n, hn, hapart⟩ := h.inline c hpath hbody
    exact ⟨n, hn, hapart.step he⟩
  · cases hw : (b.next op).store.db.wrap hash row.scopeId with
    | none => rfl
    | some w =>
      obtain hold | hstores := he.wrap_cases hw
      · rw [h.table hash href] at hold
        cases hold
      · exact absurd hstores (hleaves hash href)

theorem Buried.readBody {s : EvidenceStore} {id : EvidenceId} {row : EvidenceRow}
    (h : Buried s id row) : ∃ err, (s.readBody id).2 = .error err := by
  simp only [EvidenceStore.readBody, h.present, scopeKey_eq]
  cases hpath : row.storagePath with
  | inline =>
    simp only
    cases hbody : row.body with
    | none => exact ⟨_, rfl⟩
    | some c =>
      obtain ⟨n, hn, hapart⟩ := h.inline c hpath hbody
      have hkey : c.key ≠ s.keyFor row.scopeId := by
        rw [hn, h.settled.hydrated.agrees row.scopeId trivial]
        intro heq
        cases hdek : s.dekFor row.scopeId with
        | none =>
          rw [hdek] at heq
          cases heq
        | some key =>
          rw [hdek, Option.getD_some] at heq
          exact hapart.deks row.scopeId (by rw [hdek, heq])
      simp only [decryptAead, Sealed.openWith_eq_none_of_ne _ hkey]
      exact ⟨_, rfl⟩
  | bodyTable =>
    simp only
    cases href : row.bodyRef with
    | none => exact ⟨_, rfl⟩
    | some hash =>
      have hwrap : s.db.keyWraps.lookup (hash, row.scopeId) = none := h.table hash href
      simp only [hwrap]
      cases s.db.bodyStore.lookup hash with
      | none => exact ⟨_, rfl⟩
      | some bodyRow => exact ⟨_, rfl⟩
  | ringBuffer => exact ⟨_, rfl⟩

/-- The keys that can be had from the master key and the file: all that derive from the master
key, and whatever they unwrap. -/
def EvidenceStore.Recoverable (s : EvidenceStore) : AeadKey → Prop :=
  Known (fun key => ∃ context, key = deriveKey s.masterKey context) fun key key' =>
    (∃ scope row, s.db.scopeDeks.lookup scope = some row ∧ row.wrappedDek.key = key ∧
      row.wrappedDek.plain = key') ∨
    ∃ hash scope w, s.db.wrap hash scope = some w ∧ w.key = key ∧ w.plain = key'

theorem Apart.not_recoverable {s : EvidenceStore} {n : Nat} (h : Apart s n fun _ => False)
    (hs : s.Hydrated) : ¬ s.Recoverable (.random n) := by
  refine not_known ?_ ?_
  · rintro ⟨context, hderived⟩
    cases hderived
  · rintro key (⟨scope, row, hrow, -, hplain⟩ | ⟨hash, scope, w, hw, -, hplain⟩)
    · obtain ⟨dek, hdek⟩ := hs.opens scope row hrow
      have hopen := hdek
      rw [dekFor, hrow, Option.bind_some, Sealed.openWith_eq_some] at hopen
      exact h.deks scope (by rw [hdek, ← hopen.2.2, hplain])
    · exact h.wraps hash scope w hw hplain

/-- An inline row's key cannot be had, and a body that is still stored is another scope's. -/
structure Unrecoverable (s : EvidenceStore) (row : EvidenceRow) : Prop where
  inline : ∀ c, row.storagePath = .inline → row.body = some c → ¬ s.Recoverable c.key
  table : ∀ hash, row.bodyRef = some hash → s.db.wrap hash row.scopeId = none ∧
    ∀ bodyRow, s.db.bodyStore.lookup hash = some bodyRow →
      ∃ other w, other ≠ row.scopeId ∧ s.db.wrap hash other = some w

theorem Buried.unrecoverable {s : EvidenceStore} {id : EvidenceId} {row : EvidenceRow}
    (h : Buried s id row) : Unrecoverable s row := by
  refine ⟨fun c hpath hbody => ?_, fun hash href => ⟨h.table hash href, fun bodyRow hlookup => ?_⟩⟩
  · obtain ⟨n, hn, hapart⟩ := h.inline c hpath hbody
    rw [hn]
    exact hapart.not_recoverable h.settled.hydrated
  · obtain ⟨other, w, hw⟩ := h.settled.bodies.wrapped hash bodyRow hlookup
    refine ⟨other, w, ?_, hw⟩
    rintro rfl
    rw [h.table hash href] at hw
    cases hw

/-- In every run that seals small bodies of the scope only under a random key it has stored:
once the key is deleted and the wraps are purged, the rows the scope had never read again. What
opens an inline one cannot be had from the master key and the file, and a body of the table is
there only for the scopes that still have a wrap of it. -/
theorem forgotten_stays_unreadable {masterKey : MasterKey} {config : EvidenceStoreConfig}
    {b₀ b : Books} {scope : ScopeId}
    (h : ((system masterKey config).restrict (Books.SealsStored scope)).Reachable b₀)
    (hhalf : scope ∈ b₀.half) (hrun : (((system masterKey config).restrict
      (Books.LeavesBuried b₀.store.db scope)).startingAt
        (b₀.next (.purgeBodyKeyWraps scope))).Reachable b)
    {id : EvidenceId} {row : EvidenceRow} (hrow : b₀.store.db.evidence.lookup id = some row)
    (hscope : row.scopeId = scope) :
    (∃ err, (b.store.readBody id).2 = .error err) ∧ Unrecoverable b.store row := by
  have hburied : Buried b.store id row := by
    refine hrun.invariant (fun b => Buried b.store id row) ?_ ?_
    · rintro b rfl
      exact (guarded_of_reachable h).buried hhalf hrow hscope
    · rintro b op b' - hb ⟨⟨-, rfl⟩, hleaves⟩
      refine hb.next fun hash href => ?_
      rw [hscope]
      exact hleaves id row hash hrow hscope href
  exact ⟨hburied.readBody, hburied.unrecoverable⟩

/-- The calls that runs on a scope before and after it is forgotten are made of. -/
def Op.Listed : Op → Prop
  | .ingest .. | .ringBufferInsert .. | .ringBufferReadWindow .. | .saveMemoryBlob ..
  | .loadMemoryBlob .. | .readBody _ | .ensureScopeDek .. | .deleteScopeDek _
  | .purgeBodyKeyWraps _ | .reopen => True
  | _ => False

/-- A blob is saved before the scope is provisioned, which leaves the legacy key in the cache. -/
def cachedLegacy : List Op :=
  [.saveMemoryBlob 1 "notes" [8] 0, .ensureScopeDek 1 0,
    .ingest anyFirst 1 [1, 2, 3] none .useful none 0, .deleteScopeDek 1]

/-- Provisioning then stores no key, the evidence is sealed under the legacy one, and that one
is derived again after the scope has been forgotten. -/
theorem legacy_row_survives_forgetting : ¬ ∀ (masterKey : MasterKey)
    (config : EvidenceStoreConfig) (b₀ b : Books) (scope : ScopeId),
      ((system masterKey config).restrict fun _ op => op.Listed).Reachable b₀ →
      scope ∈ b₀.half →
      (((system masterKey config).restrict fun _ op => op.Listed).startingAt
        (b₀.next (.purgeBodyKeyWraps scope))).Reachable b →
      ∀ id row, b₀.store.db.evidence.lookup id = some row → row.scopeId = scope →
        ∃ err, (b.store.readBody id).2 = .error err := by
  intro h
  have hreach : ((system 7 sampleConfig).restrict fun _ op => op.Listed).Reachable
      (cachedLegacy.foldl next (.start 7 sampleConfig)) :=
    Legal.reachable_restrict ⟨⟨trivial, trivial⟩, ⟨trivial, trivial⟩, ⟨trivial, trivial⟩,
      ⟨trivial, trivial⟩, trivial⟩ (.init rfl)
  have hrow : ((cachedLegacy.foldl next (.start 7 sampleConfig)).store.db.evidence.lookup
      ⟨1⟩).map EvidenceRow.scopeId = some 1 := by decide +kernel
  obtain ⟨row, hlookup, hscope⟩ := Option.map_eq_some_iff.mp hrow
  obtain ⟨err, herr⟩ := h 7 sampleConfig _ _ 1 hreach List.mem_cons_self (.init rfl) ⟨1⟩ row hlookup
    hscope
  have hread : (((cachedLegacy.foldl next (.start 7 sampleConfig)).next
      (.purgeBodyKeyWraps 1)).store.readBody ⟨1⟩).2.toOption = some [1, 2, 3] := by decide +kernel
  rw [herr] at hread
  cases hread

/-- The scope is provisioned before its evidence is ingested, and its key is then deleted. -/
def storedKey : List Op :=
  [.ensureScopeDek 1 0, .ingest anyFirst 1 [1, 2, 3] none .useful none 0, .deleteScopeDek 1]

theorem forgotten_stays_unreadable_stored : ∃ err,
    ((((storedKey.foldl next (.start 7 sampleConfig)).next (.purgeBodyKeyWraps 1)).next
      (.ensureScopeDek 1 0)).store.readBody ⟨2⟩).2 = .error err := by
  have hreach : ((system 7 sampleConfig).restrict (Books.SealsStored 1)).Reachable
      (storedKey.foldl next (.start 7 sampleConfig)) :=
    Legal.reachable_restrict ⟨⟨trivial, trivial⟩,
      ⟨trivial, fun _ _ => ⟨⟨0, by decide +kernel⟩, by decide +kernel⟩⟩,
      ⟨trivial, trivial⟩, trivial⟩ (.init rfl)
  have hrow : ((storedKey.foldl next (.start 7 sampleConfig)).store.db.evidence.lookup
      ⟨2⟩).map EvidenceRow.scopeId = some 1 := by decide +kernel
  obtain ⟨row, hlookup, hscope⟩ := Option.map_eq_some_iff.mp hrow
  refine (forgotten_stays_unreadable hreach List.mem_cons_self (.step (a := .ensureScopeDek 1 0)
    (.init rfl) ⟨⟨trivial, rfl⟩, fun id row hash _ _ _ hstores => ?_⟩) hlookup hscope).1
  cases hstores

end Knowledge.Evidence
