import Knowledge.Evidence.Readback

/-!
The ring buffer of `crates/evidence_store/src/store.rs` over whole runs: its size, what an insert
evicts, and what a window reads. Other than in the store's own model, SQLite refuses a statement
with too many variables.
-/

set_option autoImplicit false

namespace Knowledge.Evidence
open Knowledge.Cipher
open Knowledge.Transition
open EvidenceStore

namespace RingRow

def Sooner (r r' : RingRow) : Prop :=
  r.priority < r'.priority ∨ r.priority = r'.priority ∧
    (r.lastAccessedAt < r'.lastAccessedAt ∨ r.lastAccessedAt = r'.lastAccessedAt ∧ r.id < r'.id)

def Earlier (r r' : RingRow) : Prop :=
  r.createdAt < r'.createdAt ∨ r.createdAt = r'.createdAt ∧ r.id < r'.id

def total (rows : List RingRow) : Nat := (rows.map payloadSize).sum

/-- Taking away the first rows lets the rest fit, and taking away fewer does not. -/
def Shortest (cap : Nat) (removed kept : List RingRow) : Prop :=
  total kept ≤ cap ∧
    ∀ first rest, removed = first ++ rest → rest ≠ [] → cap < total (rest ++ kept)

/-- Of `rows`, those in `left` are left once a shortest run of the first ones is gone. -/
def Evicts (cap : Nat) (rows left : List RingRow) : Prop :=
  ∃ removed kept, (removed ++ kept).Pairwise Sooner ∧ (removed ++ kept).Perm rows ∧
    left.Perm kept ∧ Shortest cap removed kept

end RingRow

open RingRow

/-- `ring_buffer_read_window` where SQLite takes this many variables in a statement. -/
def EvidenceStore.ringBufferReadWindowUpTo (maxVariableNumber : Nat) (store : EvidenceStore)
    (scope : ScopeId) (now : Int) :
    EvidenceStore × Except EvidenceError (List RingBufferEntry) :=
  let (store, key) := store.scopeKey scope
  let rows := (store.db.ringBuffer.filter fun r => r.scopeId = scope).mergeSort RingRow.older
  match openWindow key scope rows with
  | .error err => (store, .error err)
  | .ok entries =>
    let ids := entries.map RingBufferEntry.id
    if ids = [] then (store, .ok entries)
    -- the time of the touch is bound besides the ids
    else if maxVariableNumber < ids.length+1 then
      (store, .error (.sqlite "too many SQL variables"))
    else
      let touched := store.db.ringBuffer.map fun r =>
        if r.id ∈ ids then { r with lastAccessedAt := now } else r
      ({ store with db := { store.db with ringBuffer := touched } }, .ok entries)

inductive RingOp where
  | insert (scope : ScopeId) (body : Bytes) (priority now : Int)
  | readWindow (scope : ScopeId) (now : Int)

def RingOp.now : RingOp → Int
  | .insert _ _ _ now => now
  | .readWindow _ now => now

structure RingRun where
  store : EvidenceStore
  clock : Int

namespace RingRun

def next (maxVariableNumber : Nat) (run : RingRun) (op : RingOp) : RingRun :=
  match op with
  | .insert scope body priority now =>
    ⟨(run.store.ringBufferInsertWithPriority scope body priority now).1, now⟩
  | .readWindow scope now =>
    ⟨(run.store.ringBufferReadWindowUpTo maxVariableNumber scope now).1, now⟩

def system (maxVariableNumber : Nat) : System RingRun RingOp :=
  .ofNext (fun run => run.store.db.ringBuffer = []) (fun run op => run.clock ≤ op.now)
    (next maxVariableNumber)

end RingRun

def windowRows (store : EvidenceStore) (scope : ScopeId) : List RingRow :=
  store.db.ringBuffer.filter fun r => r.scopeId = scope

def ringCap (store : EvidenceStore) : Nat := min store.config.ringBufferMaxBytes (2^63-1)

/-- The insert is done, and makes room as the eviction order has it. -/
def InsertsInOrder (store : EvidenceStore) : Prop :=
  ∀ scope body priority now, ∃ row : RingRow,
    row.id = store.db.ringSequence+1 ∧ row.scopeId = scope ∧ row.body.plain = body ∧
    row.createdAt = now ∧ row.lastAccessedAt = now ∧ row.priority = priority ∧
    let reply := store.ringBufferInsertWithPriority scope body priority now
    reply.2 = .ok () ∧
      RingRow.Evicts (ringCap store) (store.db.ringBuffer ++ [row]) reply.1.db.ringBuffer ∧
      RingRow.total reply.1.db.ringBuffer ≤ ringCap store

/-- The window of the scope is read in order and whole, and its rows are touched, which is all
that changes in the file. -/
def ReadsWindow (maxVariableNumber : Nat) (store : EvidenceStore) (scope : ScopeId) : Prop :=
  ∀ now, ∃ rows : List RingRow, rows.Perm (windowRows store scope) ∧ rows.Pairwise RingRow.Earlier ∧
    let reply := store.ringBufferReadWindowUpTo maxVariableNumber scope now
    reply.2 = .ok (rows.map fun r => ⟨r.id, scope, r.body.plain, r.createdAt⟩) ∧
      reply.1.db = { store.db with
        ringBuffer := store.db.ringBuffer.map fun r =>
          if r.scopeId = scope then { r with lastAccessedAt := now } else r }

structure RingSound (maxVariableNumber : Nat) (store : EvidenceStore) : Prop where
  fits : RingRow.total store.db.ringBuffer ≤ ringCap store
  inserts : InsertsInOrder store
  reads : ∀ scope, ReadsWindow maxVariableNumber store scope

def WindowFits (maxVariableNumber : Nat) (store : EvidenceStore) (scope : ScopeId) : Prop :=
  windowRows store scope = [] ∨ (windowRows store scope).length < maxVariableNumber

namespace RingRow

theorem before_iff {r r' : RingRow} (h : r.id ≠ r'.id) : r.before r' = true ↔ r.Sooner r' := by
  simp only [before, Sooner, Bool.or_eq_true, Bool.and_eq_true, decide_eq_true_eq]
  omega

theorem not_before_iff {r r' : RingRow} : ¬r.before r' = true ↔ r'.Sooner r := by
  simp only [before, Sooner, Bool.or_eq_true, Bool.and_eq_true, decide_eq_true_eq]
  omega

theorem Sooner.trans {r r' r'' : RingRow} (h : r.Sooner r') (h' : r'.Sooner r'') :
    r.Sooner r'' := by
  unfold Sooner at *
  omega

theorem victim_none {rows : List RingRow} (h : victim rows = none) : rows = [] := by
  cases rows with
  | nil => rfl
  | cons r rest =>
    rw [victim] at h
    split at h
    · cases h
    · split at h
      · cases h
      · cases h

theorem victim_first {rows : List RingRow} {v : RingRow} (hids : (rows.map id).Nodup)
    (h : victim rows = some v) : ∀ r ∈ rows, r.id ≠ v.id → v.Sooner r := by
  induction rows generalizing v with
  | nil => cases h
  | cons first rest ih =>
    simp only [List.map_cons, List.nodup_cons] at hids
    rw [victim] at h
    intro r hr hne
    split at h
    · rename_i hnone
      cases h
      rw [victim_none hnone, List.mem_singleton] at hr
      exact absurd (congrArg id hr) hne
    · rename_i w hw
      have hfirst : first.id ≠ w.id := by
        intro heq
        exact hids.1 (heq ▸ List.mem_map_of_mem (victim_mem hw))
      have hrest := ih hids.2 hw
      split at h
      · rename_i hbefore
        cases h
        have hsooner := (before_iff hfirst).mp hbefore
        obtain rfl | hr := List.mem_cons.mp hr
        · exact absurd rfl hne
        · by_cases heq : r.id = w.id
          · obtain rfl := List.inj_on_of_nodup_map hids.2 hr (victim_mem hw) heq
            exact hsooner
          · exact hsooner.trans (hrest r hr heq)
      · rename_i hbefore
        cases h
        obtain rfl | hr := List.mem_cons.mp hr
        · exact not_before_iff.mp hbefore
        · exact hrest r hr hne

theorem evict_fits {cap : Nat} {rows : List RingRow} (h : total rows ≤ cap) :
    evict cap rows = rows := by
  rw [evict]
  exact if_pos h

theorem evict_over {cap : Nat} {rows : List RingRow} {v : RingRow} (h : ¬total rows ≤ cap)
    (hv : victim rows = some v) : evict cap rows = evict cap (without v.id rows) := by
  rw [evict]
  refine (if_neg h).trans ?_
  split
  · rename_i hnone
    cases hnone.symm.trans hv
  · rename_i w hw
    rw [Option.some.inj (hw.symm.trans hv)]

theorem evict_sublist (cap : Nat) (rows : List RingRow) : (evict cap rows).Sublist rows := by
  fun_induction evict cap rows with
  | case1 => exact .refl _
  | case2 => exact .refl _
  | case3 rows _ v _ ih => exact ih.trans List.filter_sublist

theorem total_perm {rows rows' : List RingRow} (h : rows.Perm rows') : total rows = total rows' :=
  (h.map _).sum_nat

theorem exists_sorted {rows : List RingRow} (hids : (rows.map id).Nodup) :
    ∃ sorted : List RingRow, sorted.Pairwise Sooner ∧ sorted.Perm rows := by
  have : Std.Total fun r r' : RingRow => r.before r' = true := ⟨fun r r' => by
    simp only [before, Bool.or_eq_true, Bool.and_eq_true, decide_eq_true_eq]
    omega⟩
  have : IsTrans RingRow fun r r' => r.before r' = true := ⟨fun r r' r'' h h' => by
    simp only [before, Bool.or_eq_true, Bool.and_eq_true, decide_eq_true_eq] at *
    omega⟩
  have hperm := List.perm_insertionSort (fun r r' : RingRow => r.before r' = true) rows
  have hne : (rows.insertionSort fun r r' => r.before r' = true).Pairwise fun r r' => r.id ≠ r'.id :=
    List.pairwise_map.mp ((hperm.map id).nodup_iff.mpr hids)
  refine ⟨_, ?_, hperm⟩
  exact (hne.and (List.pairwise_insertionSort (fun r r' : RingRow => r.before r' = true) rows)).imp
    fun h => (before_iff h.1).mp h.2

theorem perm_without {rows : List RingRow} {v : RingRow} (hids : (rows.map id).Nodup)
    (hv : v ∈ rows) : (v :: without v.id rows).Perm rows := by
  have hrest : without v.id rows = rows.erase v := by
    rw [(List.Nodup.of_map id hids).erase_eq_filter]
    refine List.filter_congr fun r hr => ?_
    by_cases heq : r.id = v.id
    · simp [List.inj_on_of_nodup_map hids hr hv heq]
    · have hne : r ≠ v := fun h => heq (congrArg id h)
      simp [heq, hne]
  rw [hrest]
  exact (List.perm_cons_erase hv).symm

theorem evict_spec (cap : Nat) {rows : List RingRow} (hids : (rows.map id).Nodup) :
    Evicts cap rows (evict cap rows) := by
  fun_induction evict cap rows with
  | case1 rows hfits =>
    obtain ⟨sorted, hsorted, hperm⟩ := exists_sorted hids
    refine ⟨[], sorted, hsorted, hperm, hperm.symm, ?_, ?_⟩
    · rw [total_perm hperm]
      exact hfits
    · intro first rest hnil hrest
      exact absurd (List.append_eq_nil_iff.mp hnil.symm).2 hrest
  | case2 rows hover hvictim => simp [victim_none hvictim] at hover
  | case3 rows hover v hvictim ih =>
    have hv := victim_mem hvictim
    obtain ⟨removed, kept, hsorted, hperm, hleft, hfits, hshort⟩ :=
      ih (hids.sublist (List.filter_sublist.map _))
    have hall := perm_without hids hv
    refine ⟨v :: removed, kept, ?_, (hperm.cons v).trans hall, hleft, hfits, ?_⟩
    · refine List.pairwise_cons.mpr ⟨fun r hr => ?_, hsorted⟩
      have hmem := List.mem_filter.mp (hperm.mem_iff.mp hr)
      exact victim_first hids hvictim r hmem.1 (by simpa using hmem.2)
    · intro first rest hsplit hrest
      cases first with
      | nil =>
        have htotal : total (rest ++ kept) = total rows := by
          rw [← List.nil_append rest, ← hsplit]
          exact total_perm ((hperm.cons v).trans hall)
        rw [htotal]
        exact Nat.lt_of_not_le hover
      | cons first firsts =>
        rw [List.cons_append, List.cons.injEq] at hsplit
        exact hshort firsts rest hsplit.2 hrest

theorem earlier_of_older {r r' : RingRow} (h : r.older r' = true) (hne : r.id ≠ r'.id) :
    r.Earlier r' := by
  simp only [older, Bool.or_eq_true, Bool.and_eq_true, decide_eq_true_eq] at h
  unfold Earlier
  omega

theorem window_sorted {rows : List RingRow} (hids : (rows.map id).Nodup) :
    (rows.mergeSort older).Pairwise Earlier := by
  have hsorted := @List.pairwise_mergeSort _ older (fun r r' r'' h h' => by
    simp only [older, Bool.or_eq_true, Bool.and_eq_true, decide_eq_true_eq] at *
    omega) (fun r r' => by
    simp only [older, Bool.or_eq_true, Bool.and_eq_true, decide_eq_true_eq]
    omega) rows
  have hne : (rows.mergeSort older).Pairwise fun r r' => r.id ≠ r'.id :=
    List.pairwise_map.mp (((List.mergeSort_perm rows older).map id).nodup_iff.mpr hids)
  exact (hsorted.and hne).imp fun h => earlier_of_older h.1 h.2

end RingRow

structure RingInv (store : EvidenceStore) : Prop where
  ids : (store.db.ringBuffer.map RingRow.id).Nodup
  sequence : ∀ r ∈ store.db.ringBuffer, r.id ≤ store.db.ringSequence
  opens : ∀ r ∈ store.db.ringBuffer,
    decryptAead (store.keyFor r.scopeId) r.body (ringBufferAad r.scopeId) = .ok r.body.plain
  fits : RingRow.total store.db.ringBuffer ≤ ringCap store

section

variable {s : EvidenceStore} {maxVariableNumber : Nat}

theorem ringInv_of_empty (h : s.db.ringBuffer = []) : RingInv s := by
  constructor
  all_goals simp [h, total]

def newRow (store : EvidenceStore) (scope : ScopeId) (body : Bytes) (priority now : Int) :
    RingRow where
  id := store.db.ringSequence+1
  scopeId := scope
  body := encryptAead (store.keyFor scope) store.draws body (ringBufferAad scope)
  payloadSize := min (body.length+16+24) (2^63-1)
  createdAt := now
  lastAccessedAt := now
  priority := priority

theorem RingInv.new_ids (h : RingInv s) (scope : ScopeId) (body : Bytes) (priority now : Int) :
    ((s.db.ringBuffer ++ [newRow s scope body priority now]).map RingRow.id).Nodup := by
  rw [List.map_append, List.nodup_append]
  refine ⟨h.ids, List.nodup_singleton _, ?_⟩
  intro id hid id' hid' heq
  obtain ⟨r, hr, rfl⟩ := List.mem_map.mp hid
  have hle := h.sequence r hr
  rw [List.map_cons, List.map_nil, List.mem_singleton] at hid'
  simp only [newRow] at hid'
  omega

theorem RingInv.insertsInOrder (h : RingInv s) : InsertsInOrder s := by
  intro scope body priority now
  have hspec := RingRow.evict_spec (ringCap s) (h.new_ids scope body priority now)
  refine ⟨newRow s scope body priority now, rfl, rfl, rfl, rfl, rfl, rfl, ?_⟩
  simp only [ringBufferInsert_eq]
  refine ⟨trivial, hspec, ?_⟩
  obtain ⟨removed, kept, -, -, hleft, hfits, -⟩ := hspec
  rw [← total_perm hleft] at hfits
  exact hfits

theorem RingInv.insert (h : RingInv s) (scope : ScopeId) (body : Bytes) (priority now : Int) :
    RingInv (s.ringBufferInsertWithPriority scope body priority now).1 := by
  obtain ⟨row, -, -, -, -, -, -, -, -, hfits⟩ := h.insertsInOrder scope body priority now
  have hids := h.new_ids scope body priority now
  have hkeys : Resolves s (s.ringBufferInsertWithPriority scope body priority now).1 := by
    rw [ringBufferInsert_eq]
    exact resolves_of_resolved scope rfl rfl (Nat.le_succ _) rfl rfl
  have hkeys := hkeys.keyFor
  simp only [ringBufferInsert_eq] at hfits hkeys ⊢
  have hsub := evict_sublist (ringCap s)
    (s.db.ringBuffer ++ [newRow s scope body priority now])
  refine ⟨hids.sublist (hsub.map _), fun r hr => ?_, fun r hr => ?_, hfits⟩
  · obtain hr | hr := List.mem_append.mp (hsub.subset hr)
    · exact Nat.le_succ_of_le (h.sequence r hr)
    · rw [List.mem_singleton.mp hr]
      exact Nat.le_refl _
  · rw [hkeys]
    obtain hr | hr := List.mem_append.mp (hsub.subset hr)
    · exact h.opens r hr
    · rw [List.mem_singleton.mp hr]
      simp [newRow, decryptAead, encryptAead]

theorem mem_windowRows {scope : ScopeId} {r : RingRow} :
    r ∈ windowRows s scope ↔ r ∈ s.db.ringBuffer ∧ r.scopeId = scope := by
  simp [windowRows]

theorem RingInv.touch (h : RingInv s) (scope : ScopeId) (now : Int) :
    s.db.ringBuffer.map (fun r =>
        if r.id ∈ (windowRows s scope).map RingRow.id then { r with lastAccessedAt := now } else r) =
      s.db.ringBuffer.map fun r =>
        if r.scopeId = scope then { r with lastAccessedAt := now } else r := by
  refine List.map_congr_left fun r hr => ?_
  have hiff : r.id ∈ (windowRows s scope).map RingRow.id ↔ r.scopeId = scope := by
    rw [List.mem_map]
    constructor
    · rintro ⟨r', hr', hid⟩
      obtain ⟨hr', hscope⟩ := mem_windowRows.mp hr'
      rw [← List.inj_on_of_nodup_map h.ids hr' hr hid]
      exact hscope
    · intro hscope
      exact ⟨r, mem_windowRows.mpr ⟨hr, hscope⟩, rfl⟩
  simp only [hiff]

theorem RingInv.readWindow_eq (h : RingInv s) (scope : ScopeId) (now : Int) :
    s.ringBufferReadWindowUpTo maxVariableNumber scope now =
      if windowRows s scope = [] ∨ (windowRows s scope).length < maxVariableNumber then
        ({ s with
          scopeKeys := s.resolved scope
          db := { s.db with
            ringBuffer := s.db.ringBuffer.map fun r =>
              if r.scopeId = scope then { r with lastAccessedAt := now } else r } },
          .ok (((windowRows s scope).mergeSort older).map fun r =>
            ⟨r.id, scope, r.body.plain, r.createdAt⟩))
      else ({ s with scopeKeys := s.resolved scope }, .error (.sqlite "too many SQL variables")) := by
  have hrows : ∀ r ∈ (windowRows s scope).mergeSort RingRow.older,
      decryptAead (s.keyFor scope) r.body (ringBufferAad scope) = .ok r.body.plain := by
    intro r hr
    rw [List.mem_mergeSort] at hr
    obtain ⟨hmem, rfl⟩ := mem_windowRows.mp hr
    exact h.opens r hmem
  have hids : (((windowRows s scope).mergeSort older).map fun r : RingRow =>
      (⟨r.id, scope, r.body.plain, r.createdAt⟩ : RingBufferEntry)).map RingBufferEntry.id =
        ((windowRows s scope).mergeSort RingRow.older).map RingRow.id := by
    rw [List.map_map]
    rfl
  have hmem : ∀ id, id ∈ ((windowRows s scope).mergeSort RingRow.older).map RingRow.id ↔
      id ∈ (windowRows s scope).map RingRow.id := by
    intro id
    simp only [List.mem_map, List.mem_mergeSort]
  have hlength := (List.mergeSort_perm (windowRows s scope) older).length_eq
  rw [windowRows] at hrows
  simp only [EvidenceStore.ringBufferReadWindowUpTo, scopeKey_eq, openWindow_ok hrows]
  rw [← windowRows, hids]
  simp only [hmem, h.touch, List.map_eq_nil_iff, List.length_map, hlength]
  by_cases hempty : windowRows s scope = []
  · have hnone : ∀ r ∈ s.db.ringBuffer, r.scopeId ≠ scope := by
      intro r hr hscope
      have hmem := mem_windowRows.mpr ⟨hr, hscope⟩
      rw [hempty] at hmem
      cases hmem
    have hsame : (s.db.ringBuffer.map fun r =>
        if r.scopeId = scope then { r with lastAccessedAt := now } else r) = s.db.ringBuffer := by
      rw [List.map_congr_left fun r hr => if_neg (hnone r hr), List.map_id']
    simp only [hempty, List.mergeSort_nil, List.map_nil, if_true, true_or, hsame]
  · have hsorted : (windowRows s scope).mergeSort older ≠ [] := by
      rw [← List.length_pos_iff, hlength, List.length_pos_iff]
      exact hempty
    simp only [hsorted, hempty, if_false, false_or]
    by_cases hfew : (windowRows s scope).length < maxVariableNumber
    · rw [if_neg (by omega), if_pos hfew]
    · rw [if_pos (by omega), if_neg hfew]

theorem RingInv.readWindow (h : RingInv s) (scope : ScopeId) (now : Int) :
    RingInv (s.ringBufferReadWindowUpTo maxVariableNumber scope now).1 := by
  have hkeys : Resolves s (s.ringBufferReadWindowUpTo maxVariableNumber scope now).1 := by
    rw [h.readWindow_eq]
    split
    · exact resolves_of_resolved scope rfl rfl (Nat.le_refl _) rfl rfl
    · exact resolves_of_resolved scope rfl rfl (Nat.le_refl _) rfl rfl
  have hkeys := hkeys.keyFor
  rw [h.readWindow_eq] at hkeys ⊢
  split
  · rename_i hfew
    simp only [hfew, if_true] at hkeys
    have hfield : ∀ {β : Type} (f : RingRow → β), (∀ r, f { r with lastAccessedAt := now } = f r) →
        (s.db.ringBuffer.map fun r =>
          if r.scopeId = scope then { r with lastAccessedAt := now } else r).map f =
            s.db.ringBuffer.map f := by
      intro β f hf
      rw [List.map_map]
      refine List.map_congr_left fun r _ => ?_
      simp only [Function.comp_apply]
      split
      · exact hf r
      · rfl
    refine ⟨?_, fun r hr => ?_, fun r hr => ?_, ?_⟩
    · rw [hfield RingRow.id fun _ => rfl]
      exact h.ids
    · obtain ⟨r₀, hr₀, rfl⟩ := List.mem_map.mp hr
      have hle := h.sequence r₀ hr₀
      split
      · exact hle
      · exact hle
    · obtain ⟨r₀, hr₀, rfl⟩ := List.mem_map.mp hr
      have hopen := h.opens r₀ hr₀
      rw [hkeys]
      split
      · exact hopen
      · exact hopen
    · rw [total, hfield payloadSize fun _ => rfl]
      exact h.fits
  · rename_i hmany
    simp only [hmany, if_false] at hkeys
    exact ⟨h.ids, h.sequence, fun r hr => by rw [hkeys]; exact h.opens r hr, h.fits⟩

theorem RingInv.readsWindow_iff (h : RingInv s) (scope : ScopeId) :
    ReadsWindow maxVariableNumber s scope ↔ WindowFits maxVariableNumber s scope := by
  unfold ReadsWindow WindowFits
  simp only [h.readWindow_eq]
  constructor
  · intro hreads
    by_contra hmany
    obtain ⟨rows, -, -, hok, -⟩ := hreads 0
    simp [hmany] at hok
  · intro hfew now
    have hperm := List.mergeSort_perm (windowRows s scope) older
    refine ⟨_, hperm, window_sorted (h.ids.sublist (List.filter_sublist.map _)), ?_⟩
    simp [hfew]

theorem RingInv.sound_iff (h : RingInv s) :
    RingSound maxVariableNumber s ↔ ∀ scope, WindowFits maxVariableNumber s scope := by
  constructor
  · intro hsound scope
    exact (h.readsWindow_iff scope).mp (hsound.reads scope)
  · intro hfew
    exact ⟨h.fits, h.insertsInOrder, fun scope => (h.readsWindow_iff scope).mpr (hfew scope)⟩

end

namespace RingRun

variable {maxVariableNumber : Nat} {run : RingRun}

theorem inv_next (h : RingInv run.store) (op : RingOp) :
    RingInv (run.next maxVariableNumber op).store := by
  cases op with
  | insert scope body priority now => exact h.insert scope body priority now
  | readWindow scope now => exact h.readWindow scope now

theorem inv_reachable (h : (system maxVariableNumber).Reachable run) : RingInv run.store := by
  refine h.invariant (fun run => RingInv run.store) (fun _ => ringInv_of_empty) ?_
  rintro run op _ - hinv ⟨-, rfl⟩
  exact inv_next hinv op

/-- No window is let grow beyond what a statement takes. -/
def KeepsFew (maxVariableNumber : Nat) (run : RingRun) : RingOp → Prop
  | .insert scope _ _ _ => (windowRows run.store scope).length+1 < maxVariableNumber
  | .readWindow _ _ => True

theorem windowFits_next (h : RingInv run.store)
    (hfits : ∀ scope, WindowFits maxVariableNumber run.store scope) {op : RingOp}
    (hfew : KeepsFew maxVariableNumber run op) (scope : ScopeId) :
    WindowFits maxVariableNumber (run.next maxVariableNumber op).store scope := by
  have hshorter : ∀ {t : EvidenceStore} {n : Nat}, (windowRows t scope).length ≤ n →
      (n = 0 ∨ n < maxVariableNumber) → WindowFits maxVariableNumber t scope := by
    intro t n hle hn
    rw [WindowFits, ← List.length_eq_zero_iff]
    omega
  have hold := hfits scope
  rw [WindowFits, ← List.length_eq_zero_iff] at hold
  cases op with
  | insert into body priority now =>
    have hsub := evict_sublist (ringCap run.store)
      (run.store.db.ringBuffer ++ [newRow run.store into body priority now])
    have hle := (hsub.filter fun r => r.scopeId = scope).length_le
    rw [List.filter_append, List.length_append] at hle
    simp only [next, ringBufferInsert_eq]
    refine hshorter hle ?_
    by_cases heq : into = scope
    · subst heq
      simp only [KeepsFew, windowRows] at hfew
      simp only [newRow, decide_true, List.filter_cons_of_pos, List.filter_nil, List.length_cons,
        List.length_nil]
      omega
    · simp only [windowRows] at hold
      simpa [newRow, heq] using hold
  | readWindow of now =>
    refine hshorter (n := (windowRows run.store scope).length) ?_ hold
    simp only [next, h.readWindow_eq]
    split
    · have hscope : ∀ r : RingRow, (if r.scopeId = of then
          { r with lastAccessedAt := now } else r).scopeId = r.scopeId := by
        intro r
        split
        · rfl
        · rfl
      rw [windowRows, List.filter_map, List.length_map]
      simp only [Function.comp_def, hscope]
      exact Nat.le_refl _
    · exact Nat.le_refl _

/-- In every state that a run reaches, the buffer is as it should be just in case no scope has
more rows than a statement takes variables, with one of these for the time. So it is in every run
that lets no window grow beyond that. -/
theorem ring_buffer_sound_iff (maxVariableNumber : Nat) :
    (∀ run, (system maxVariableNumber).Reachable run →
      (RingSound maxVariableNumber run.store ↔
        ∀ scope, WindowFits maxVariableNumber run.store scope)) ∧
    ∀ run, ((system maxVariableNumber).restrict (KeepsFew maxVariableNumber)).Reachable run →
      RingSound maxVariableNumber run.store := by
  refine ⟨fun run h => (inv_reachable h).sound_iff, fun run h => ?_⟩
  refine (inv_reachable h.of_restrict).sound_iff.mpr ?_
  refine h.invariant (fun run => ∀ scope, WindowFits maxVariableNumber run.store scope) ?_ ?_
  · intro run hinit scope
    have hempty : run.store.db.ringBuffer = [] := hinit
    exact .inl (by rw [windowRows, hempty, List.filter_nil])
  · rintro run op _ hr hfits ⟨⟨-, rfl⟩, hfew⟩
    exact windowFits_next (inv_reachable hr.of_restrict) hfits hfew

def fresh : RingRun := ⟨⟨.empty, ⟨512, 5 * 1024 * 1024⟩, ∅, 0, 0⟩, 0⟩

/-- Empty bodies, one after the other, with the limit that SQLite has unless it is lowered. -/
def filled : Nat → RingRun
  | 0 => fresh
  | n+1 => (filled n).next 32766 (.insert 7 [] 0 0)

theorem filled_clock (n : Nat) : (filled n).clock = 0 := by
  cases n with
  | zero => rfl
  | succ n => rfl

theorem filled_reachable (n : Nat) : (system 32766).Reachable (filled n) := by
  induction n with
  | zero => exact .init rfl
  | succ n ih =>
    exact ih.step (a := .insert 7 [] 0 0) ⟨(filled_clock n).le, rfl⟩

theorem filled_rows {n : Nat} (hn : n * 40 ≤ 5 * 1024 * 1024) :
    (filled n).store.config = fresh.store.config ∧
      total (filled n).store.db.ringBuffer = n * 40 ∧
      (windowRows (filled n).store 7).length = n := by
  induction n with
  | zero => exact ⟨rfl, rfl, rfl⟩
  | succ n ih =>
    obtain ⟨hconfig, htotal, hwindow⟩ := ih (by omega)
    have hsum : (((filled n).store.db.ringBuffer ++
        [newRow (filled n).store 7 [] 0 0]).map payloadSize).sum = n * 40 + 40 := by
      rw [List.map_append, List.sum_append]
      exact congrArg (· + 40) htotal
    have hring : (filled (n+1)).store.db.ringBuffer =
        (filled n).store.db.ringBuffer ++ [newRow (filled n).store 7 [] 0 0] := by
      rw [filled, next, ringBufferInsert_eq]
      refine evict_fits ?_
      have htotal := hsum
      rw [hconfig]
      simp only [fresh, total, newRow] at htotal ⊢
      omega
    refine ⟨?_, ?_, ?_⟩
    · rw [filled, next, ringBufferInsert_eq, ← hconfig]
    · rw [hring, total, hsum]
      omega
    · rw [windowRows] at hwindow
      rw [windowRows, hring, List.filter_append, List.length_append, hwindow]
      rfl

theorem small_rows_unreadable :
    (system 32766).Reachable (filled 32766) ∧
      ¬ReadsWindow 32766 (filled 32766).store 7 := by
  refine ⟨filled_reachable _, ?_⟩
  obtain ⟨-, -, hwindow⟩ := filled_rows (n := 32766) (by decide)
  rw [(inv_reachable (filled_reachable _)).readsWindow_iff, WindowFits, ← List.length_eq_zero_iff,
    hwindow]
  decide

end RingRun

end Knowledge.Evidence
