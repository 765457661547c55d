import Knowledge.Lib.Replace
import Mathlib.Data.Finset.Sort
import Mathlib.Data.String.Basic

/-!
`crates/connector_framework/src/sync.rs`: the watermark cursor of a connector, how it is written
and read, and the runs that pass it on from one to the next.
-/

set_option autoImplicit false

namespace Knowledge.Connector
open Knowledge.Replace

/-- The text of an instant, and how it is read after white space is taken off its ends. -/
structure Rfc3339 (T : Type) where
  print : T → String
  parse : String → Option T
  parse_print : ∀ t, parse (print t) = some t
  noBar : ∀ t, '|' ∉ (print t).toList

def encodeId (id : String) : String :=
  String.ofList (replace ['|'] ['%', '7', 'C']
    (replace [','] ['%', '2', 'C'] (replace ['%'] ['%', '2', '5'] id.toList)))

def decodeId (s : String) : String :=
  String.ofList (replace ['%', '2', '5'] ['%']
    (replace ['%', '2', 'C'] [','] (replace ['%', '7', 'C'] ['|'] s.toList)))

def escape (c : Char) : List Char :=
  if c = '%' then ['%', '2', '5'] else if c = ',' then ['%', '2', 'C']
  else if c = '|' then ['%', '7', 'C'] else [c]

theorem escape_cases {motive : Char → Prop} (percent : motive '%') (comma : motive ',')
    (bar : motive '|') (other : ∀ c, c ≠ '%' → c ≠ ',' → c ≠ '|' → motive c) (c : Char) :
    motive c := by
  by_cases h₁ : c = '%'
  · exact h₁ ▸ percent
  · by_cases h₂ : c = ','
    · exact h₂ ▸ comma
    · by_cases h₃ : c = '|'
      · exact h₃ ▸ bar
      · exact other c h₁ h₂ h₃

theorem encodeId_toList (id : String) : (encodeId id).toList = id.toList.flatMap escape := by
  simp only [encodeId, String.toList_ofList, replace_singleton, List.flatMap_assoc]
  refine List.flatMap_congr fun c _ => ?_
  cases c using escape_cases with
  | percent | comma | bar => decide
  | other c h₁ h₂ h₃ => simp [escape, h₁, h₂, h₃]

theorem escape_plain (c : Char) : ',' ∉ escape c ∧ '|' ∉ escape c := by
  cases c using escape_cases with
  | percent | comma | bar => decide
  | other c h₁ h₂ h₃ => simp [escape, h₁, h₂, h₃, h₂.symm, h₃.symm]

theorem encodeId_plain (id : String) : ',' ∉ (encodeId id).toList ∧ '|' ∉ (encodeId id).toList := by
  simp only [encodeId_toList, List.mem_flatMap, not_exists, not_and]
  exact ⟨fun c _ => (escape_plain c).1, fun c _ => (escape_plain c).2⟩

theorem escape_token (c : Char) : Token '%' 2 (escape c) := by
  cases c using escape_cases with
  | percent => exact .inr ⟨['2', '5'], rfl, by decide, rfl⟩
  | comma => exact .inr ⟨['2', 'C'], rfl, by decide, rfl⟩
  | bar => exact .inr ⟨['7', 'C'], rfl, by decide, rfl⟩
  | other c h₁ h₂ h₃ => exact .inl ⟨c, h₁, by simp [escape, h₁, h₂, h₃]⟩

theorem token_ite {x c : Char} (hx : x ≠ '%') {t : List Char} (h : Token '%' 2 t) :
    Token '%' 2 (if c = x then [c] else t) := by
  split
  · rename_i heq
    exact .inl ⟨c, heq ▸ hx, rfl⟩
  · exact h

theorem decodeId_encodeId (id : String) : decodeId (encodeId id) = id := by
  let afterBar (c : Char) : List Char := if c = '|' then [c] else escape c
  let afterComma (c : Char) : List Char := if c = ',' then [c] else afterBar c
  have hbar : replace ['%', '7', 'C'] ['|'] (id.toList.flatMap escape) =
      id.toList.flatMap afterBar := by
    refine replace_flatMap _ escape_token (fun c => ?_) _
    cases c using escape_cases with
    | percent | comma | bar => decide
    | other c h₁ h₂ h₃ => simp [afterBar, escape, h₁, h₂, h₃]
  have hcomma : replace ['%', '2', 'C'] [','] (id.toList.flatMap afterBar) =
      id.toList.flatMap afterComma := by
    refine replace_flatMap _ (fun c => token_ite (by decide) (escape_token c)) (fun c => ?_) _
    cases c using escape_cases with
    | percent | comma | bar => decide
    | other c h₁ h₂ h₃ => simp [afterComma, afterBar, escape, h₁, h₂, h₃]
  have hpercent : replace ['%', '2', '5'] ['%'] (id.toList.flatMap afterComma) =
      id.toList.flatMap fun c => [c] := by
    refine replace_flatMap _ (fun c => token_ite (by decide)
      (token_ite (by decide) (escape_token c))) (fun c => ?_) _
    cases c using escape_cases with
    | percent | comma | bar => decide
    | other c h₁ h₂ h₃ => simp [afterComma, afterBar, escape, h₁, h₂, h₃]
  rw [decodeId, encodeId_toList, hbar, hcomma, hpercent, List.flatMap_singleton',
    String.ofList_toList]

def splitOnce (c : Char) (raw : String) : Option (String × String) :=
  if raw.toList.contains c then
    some (String.ofList (raw.toList.takeWhile fun x => x ≠ c),
      String.ofList (raw.toList.dropWhile fun x => x ≠ c).tail)
  else none

theorem splitOnce_eq {c : Char} {before after : String} (h : c ∉ before.toList) :
    splitOnce c (before ++ String.singleton c ++ after) = some (before, after) := by
  have hpos : ∀ x ∈ before.toList, decide (x ≠ c) = true := by
    intro x hx
    exact decide_eq_true fun heq => h (heq ▸ hx)
  have htext : (before ++ String.singleton c ++ after).toList =
      before.toList ++ c :: after.toList := by simp
  rw [splitOnce, htext, List.takeWhile_append_of_pos hpos, List.dropWhile_append_of_pos hpos]
  simp

structure WatermarkCursor (T : Type) where
  watermark : Option T
  boundaryIds : Finset String

namespace WatermarkCursor

variable {T : Type}

def empty : WatermarkCursor T := ⟨none, ∅⟩

def parse (rfc : Rfc3339 T) : Option String → WatermarkCursor T
  | none => empty
  | some raw =>
    let (tsPart, idsPart) := match splitOnce '|' raw with
      | some (ts, ids) => (ts, some ids)
      | none => (raw, none)
    let watermark := rfc.parse tsPart
    let boundaryIds := match watermark.isSome, idsPart with
      | true, some ids =>
        ((ids.toList.splitOn ',').map fun s => decodeId (String.ofList s)).toFinset
      | _, _ => ∅
    ⟨watermark, boundaryIds⟩

def shouldEmit [LinearOrder T] (self : WatermarkCursor T) (updated : T) (id : String) : Bool :=
  match self.watermark with
  | none => true
  | some w => if updated > w then true else if updated = w then id ∉ self.boundaryIds else false

def observe [LinearOrder T] (self : WatermarkCursor T) (updated : T) (id : String) :
    WatermarkCursor T :=
  match self.watermark with
  | none => ⟨some updated, {id}⟩
  | some w =>
    if updated < w then self
    else if updated = w then { self with boundaryIds := insert id self.boundaryIds }
    else ⟨some updated, {id}⟩

def toCursorString (rfc : Rfc3339 T) (self : WatermarkCursor T) : Option String :=
  match self.watermark with
  | none => none
  | some watermark =>
    let base := rfc.print watermark
    if self.boundaryIds = ∅ then some base
    else
      let ids := String.intercalate "," (self.boundaryIds.sort.map encodeId)
      some (base ++ "|" ++ ids)

theorem decode_boundary {ids : Finset String} (h : ids ≠ ∅) :
    (((String.intercalate "," (ids.sort.map encodeId)).toList.splitOn ',').map
      fun s => decodeId (String.ofList s)).toFinset = ids := by
  have hnonempty : (ids.sort.map encodeId).map String.toList ≠ [] := by
    intro hnil
    have hsort : ids.sort = [] := by simpa using hnil
    exact h (by rw [← Finset.sort_toFinset ids (· ≤ ·), hsort, List.toFinset_nil])
  have hplain : ∀ l ∈ (ids.sort.map encodeId).map String.toList, ',' ∉ l := by
    intro l hl
    simp only [List.mem_map, exists_exists_and_eq_and] at hl
    obtain ⟨id, _, rfl⟩ := hl
    exact (encodeId_plain id).1
  have hcomma : ",".toList = [','] := rfl
  rw [String.toList_intercalate, hcomma, List.splitOn_intercalate ',' hplain hnonempty,
    List.map_map, List.map_map]
  have hid : ((fun s => decodeId (String.ofList s)) ∘ String.toList) ∘ encodeId = id := by
    funext x
    simp [decodeId_encodeId]
  rw [hid, List.map_id, Finset.sort_toFinset]

theorem parse_toCursorString (rfc : Rfc3339 T) {c : WatermarkCursor T} {t : T}
    (h : c.watermark = some t) : parse rfc (c.toCursorString rfc) = c := by
  obtain ⟨watermark, ids⟩ := c
  obtain rfl : watermark = some t := h
  by_cases hids : ids = ∅
  · subst hids
    have hsplit : splitOnce '|' (rfc.print t) = none := by simp [splitOnce, rfc.noBar t]
    simp [toCursorString, parse, hsplit, rfc.parse_print]
  · have hsplit := @splitOnce_eq '|' (rfc.print t)
      (String.intercalate "," (ids.sort.map encodeId)) (rfc.noBar t)
    have hbar : String.singleton '|' = "|" := rfl
    rw [hbar] at hsplit
    simp only [toCursorString, if_neg hids, parse, hsplit, rfc.parse_print, Option.isSome_some,
      decode_boundary hids]

end WatermarkCursor

/-- A record as it stands in a listing; with another instant it is another version. -/
structure Version (T : Type) where
  updated : T
  id : String
  deriving DecidableEq

section Runs

variable {T : Type} [LinearOrder T]

open WatermarkCursor (parse)

def observeAll (c : WatermarkCursor T) (listed : List (Version T)) : WatermarkCursor T :=
  listed.foldl (fun c v => c.observe v.updated v.id) c

def runOnce (rfc : Rfc3339 T) (stored : Option String) (listed : List (Version T)) :
    WatermarkCursor T :=
  observeAll (parse rfc stored) listed

def emitted (rfc : Rfc3339 T) (stored : Option String) (listed : List (Version T)) :
    List (Version T) :=
  listed.filter fun v => (parse rfc stored).shouldEmit v.updated v.id

def storedAfter (rfc : Rfc3339 T) (runs : List (List (Version T))) : Option String :=
  runs.foldl (fun stored listed => (runOnce rfc stored listed).toCursorString rfc) none

def emissions (rfc : Rfc3339 T) : Option String → List (List (Version T)) → List (List (Version T))
  | _, [] => []
  | stored, listed :: rest =>
    emitted rfc stored listed :: emissions rfc ((runOnce rfc stored listed).toCursorString rfc) rest

/-- The watermark is the greatest instant that was seen, and the ids are those seen at it. -/
structure Tracks (c : WatermarkCursor T) (seen : List (Version T)) : Prop where
  upper : ∀ v ∈ seen, ∃ w, c.watermark = some w ∧ v.updated ≤ w
  boundary : ∀ id, id ∈ c.boundaryIds ↔ ∃ w, c.watermark = some w ∧ ⟨w, id⟩ ∈ seen

theorem tracks_empty : Tracks (.empty : WatermarkCursor T) [] :=
  ⟨by simp, by simp [WatermarkCursor.empty]⟩

theorem Tracks.observe {c : WatermarkCursor T} {seen : List (Version T)} (h : Tracks c seen)
    (v : Version T) : Tracks (c.observe v.updated v.id) (seen ++ [v]) := by
  obtain ⟨u, id⟩ := v
  obtain ⟨watermark, ids⟩ := c
  cases watermark with
  | none =>
    have hseen : seen = [] := by
      refine List.eq_nil_iff_forall_not_mem.mpr fun v hv => ?_
      obtain ⟨w, hw, -⟩ := h.upper v hv
      cases hw
    subst hseen
    exact ⟨by simp [WatermarkCursor.observe], by simp [WatermarkCursor.observe]⟩
  | some w =>
    have hupper : ∀ v ∈ seen, v.updated ≤ w := by simpa using h.upper
    have hboundary : ∀ id, id ∈ ids ↔ ⟨w, id⟩ ∈ seen := by simpa using h.boundary
    rcases lt_trichotomy u w with hlt | rfl | hgt
    · have hsame : (⟨some w, ids⟩ : WatermarkCursor T).observe u id = ⟨some w, ids⟩ := if_pos hlt
      rw [hsame]
      refine ⟨fun v hv => ⟨w, rfl, ?_⟩, fun x => ?_⟩
      · rcases List.mem_append.mp hv with hv | hv
        · exact hupper v hv
        · exact List.mem_singleton.mp hv ▸ hlt.le
      · simp [hboundary, hlt.ne']
    · have hinsert : (⟨some u, ids⟩ : WatermarkCursor T).observe u id =
          ⟨some u, insert id ids⟩ := by
        simp [WatermarkCursor.observe]
      rw [hinsert]
      refine ⟨fun v hv => ⟨u, rfl, ?_⟩, fun x => ?_⟩
      · rcases List.mem_append.mp hv with hv | hv
        · exact hupper v hv
        · exact List.mem_singleton.mp hv ▸ le_refl u
      · simp [hboundary, or_comm]
    · have hreset : (⟨some w, ids⟩ : WatermarkCursor T).observe u id = ⟨some u, {id}⟩ := by
        simp [WatermarkCursor.observe, hgt.not_gt, hgt.ne']
      rw [hreset]
      refine ⟨fun v hv => ⟨u, rfl, ?_⟩, fun x => ?_⟩
      · rcases List.mem_append.mp hv with hv | hv
        · exact (hupper v hv).trans hgt.le
        · exact List.mem_singleton.mp hv ▸ le_refl u
      · have hnew : ⟨u, x⟩ ∉ seen := fun hin => hgt.not_ge (hupper _ hin)
        simp [hnew]

theorem Tracks.observeAll {c : WatermarkCursor T} {seen : List (Version T)} (h : Tracks c seen)
    (listed : List (Version T)) : Tracks (observeAll c listed) (seen ++ listed) := by
  induction listed generalizing c seen with
  | nil => simpa [Connector.observeAll] using h
  | cons v listed ih => simpa [Connector.observeAll] using ih (h.observe v)

theorem Tracks.parse_toCursorString (rfc : Rfc3339 T) {c : WatermarkCursor T}
    {seen : List (Version T)} (h : Tracks c seen) : parse rfc (c.toCursorString rfc) = c := by
  cases hw : c.watermark with
  | some w => exact WatermarkCursor.parse_toCursorString rfc hw
  | none =>
    have hids : c.boundaryIds = ∅ := by
      ext id
      simp [h.boundary, hw]
    obtain ⟨watermark, ids⟩ := c
    obtain rfl : watermark = none := hw
    obtain rfl : ids = ∅ := hids
    rfl

theorem parse_storedAfter_concat (rfc : Rfc3339 T) {front : List (List (Version T))}
    (h : Tracks (parse rfc (storedAfter rfc front)) front.flatten) (listed : List (Version T)) :
    parse rfc (storedAfter rfc (front ++ [listed])) =
      runOnce rfc (storedAfter rfc front) listed := by
  rw [storedAfter, List.foldl_append, List.foldl_cons, List.foldl_nil]
  exact (h.observeAll listed).parse_toCursorString rfc

theorem tracks_storedAfter (rfc : Rfc3339 T) (runs : List (List (Version T))) :
    Tracks (parse rfc (storedAfter rfc runs)) runs.flatten := by
  induction runs using List.reverseRecOn with
  | nil => exact tracks_empty
  | append_singleton front listed ih =>
    rw [parse_storedAfter_concat rfc ih listed]
    simpa [runOnce] using ih.observeAll listed

theorem Tracks.shouldEmit {c : WatermarkCursor T} {seen : List (Version T)} (h : Tracks c seen)
    {v : Version T} (hlate : v ∉ seen → ∀ w, c.watermark = some w → w ≤ v.updated) :
    c.shouldEmit v.updated v.id = decide (v ∉ seen) := by
  cases hw : c.watermark with
  | none =>
    have hnew : v ∉ seen := by
      intro hv
      obtain ⟨w, heq, -⟩ := h.upper v hv
      rw [hw] at heq
      cases heq
    simp [WatermarkCursor.shouldEmit, hw, hnew]
  | some w =>
    have hboundary : v.id ∈ c.boundaryIds ↔ ⟨w, v.id⟩ ∈ seen := by simpa [hw] using h.boundary v.id
    by_cases hv : v ∈ seen
    · obtain ⟨w', heq, hle⟩ := h.upper v hv
      obtain rfl := Option.some.inj (hw.symm.trans heq)
      by_cases hat : v.updated = w
      · subst hat
        simp [WatermarkCursor.shouldEmit, hw, hv, hboundary]
      · simp [WatermarkCursor.shouldEmit, hw, hv, hat, hle.not_gt]
    · have hle := hlate hv w hw
      by_cases hat : v.updated = w
      · subst hat
        simp [WatermarkCursor.shouldEmit, hw, hv, hboundary]
      · simp [WatermarkCursor.shouldEmit, hw, hv, lt_of_le_of_ne hle (Ne.symm hat)]

/-- A version that no run up to some run has listed is no older than that run's final watermark. -/
def FirstListedLate (rfc : Rfc3339 T) (runs : List (List (Version T))) : Prop :=
  ∀ front listed back, runs = front ++ listed :: back → ∀ v ∈ back.flatten,
    v ∉ front.flatten → v ∉ listed →
      ∀ w, (runOnce rfc (storedAfter rfc front) listed).watermark = some w → w ≤ v.updated

theorem FirstListedLate.watermark_le {rfc : Rfc3339 T} {front back : List (List (Version T))}
    (h : FirstListedLate rfc (front ++ back)) {v : Version T} (hv : v ∈ back.flatten)
    (hnew : v ∉ front.flatten) (w : T)
    (hw : (parse rfc (storedAfter rfc front)).watermark = some w) : w ≤ v.updated := by
  rcases front.eq_nil_or_concat' with rfl | ⟨front, listed, rfl⟩
  · cases hw
  · simp only [List.flatten_append, List.flatten_cons, List.flatten_nil, List.append_nil,
      List.mem_append, not_or] at hnew
    rw [parse_storedAfter_concat rfc (tracks_storedAfter rfc front) listed] at hw
    exact h front listed back (by simp) v hv hnew.1 hnew.2 w hw

theorem countP_emissions {rfc : Rfc3339 T} {front back : List (List (Version T))}
    (h : FirstListedLate rfc (front ++ back)) (v : Version T) :
    (emissions rfc (storedAfter rfc front) back).countP (fun out => v ∈ out) =
      if v ∈ front.flatten then 0 else if v ∈ back.flatten then 1 else 0 := by
  induction back generalizing front with
  | nil => simp [emissions]
  | cons listed back ih =>
    have hnext : storedAfter rfc (front ++ [listed]) =
        (runOnce rfc (storedAfter rfc front) listed).toCursorString rfc := by
      simp [storedAfter]
    have ih := @ih (front ++ [listed]) (by simpa using h)
    have hemit : v ∈ emitted rfc (storedAfter rfc front) listed ↔
        v ∈ listed ∧ v ∉ front.flatten := by
      rw [emitted, List.mem_filter]
      refine and_congr_right fun hv => ?_
      rw [(tracks_storedAfter rfc front).shouldEmit
        fun hnew => h.watermark_le (by simp [hv]) hnew, decide_eq_true_eq]
    rw [emissions, List.countP_cons, ← hnext, ih]
    simp only [hemit, List.flatten_append, List.flatten_cons, List.flatten_nil, List.append_nil,
      List.mem_append]
    grind

/-- Every version that some run lists is emitted by exactly one run, and a cursor that has a
watermark is read back as it was written. -/
theorem watermark_exactly_once (rfc : Rfc3339 T) :
    (∀ c : WatermarkCursor T, c.watermark.isSome → parse rfc (c.toCursorString rfc) = c) ∧
      ∀ runs : List (List (Version T)), FirstListedLate rfc runs → ∀ v ∈ runs.flatten,
        (emissions rfc none runs).countP (fun out => v ∈ out) = 1 := by
  refine ⟨fun c hc => ?_, fun runs h v hv => ?_⟩
  · obtain ⟨w, hw⟩ := Option.isSome_iff_exists.mp hc
    exact WatermarkCursor.parse_toCursorString rfc hw
  · have hcount := @countP_emissions T _ rfc [] runs h v
    rw [List.flatten_nil, if_neg List.not_mem_nil, if_pos hv] at hcount
    exact hcount

/-- An order of a listing, with the creation instant that could be read of it. -/
structure Order (T : Type) where
  orderNumber : String
  createdAt : Option T
  deriving DecidableEq

def Order.version (order : Order T) : Option (Version T) :=
  order.createdAt.map fun created => ⟨created, order.orderNumber⟩

def foldOrder (prior : WatermarkCursor T) (s : List (Version T) × WatermarkCursor T)
    (order : Order T) : List (Version T) × WatermarkCursor T :=
  match order.createdAt with
  | none => s
  | some created =>
    if !prior.shouldEmit created order.orderNumber then s
    else (s.1 ++ [⟨created, order.orderNumber⟩], s.2.observe created order.orderNumber)

/-- `incremental_sync` of `cdiscount.rs`, which folds only what it emits. -/
def incrementalSync (rfc : Rfc3339 T) (stored : Option String) (orders : List (Order T)) :
    List (Version T) × WatermarkCursor T :=
  let prior := parse rfc stored
  orders.foldl (foldOrder prior) ([], prior)

def Extends (prior c : WatermarkCursor T) : Prop :=
  ∀ w, prior.watermark = some w → ∃ w', c.watermark = some w' ∧ w ≤ w' ∧
    (w' = w → prior.boundaryIds ⊆ c.boundaryIds)

theorem Extends.observe {prior c : WatermarkCursor T} (h : Extends prior c) (v : Version T) :
    Extends prior (c.observe v.updated v.id) := by
  intro w hw
  obtain ⟨w', hw', hle, hsub⟩ := h w hw
  obtain ⟨watermark, ids⟩ := c
  obtain rfl : watermark = some w' := hw'
  rcases lt_trichotomy v.updated w' with hlt | heq | hgt
  · exact ⟨w', by simp [WatermarkCursor.observe, hlt], hle,
      by simpa [WatermarkCursor.observe, hlt] using hsub⟩
  · refine ⟨w', by simp [WatermarkCursor.observe, heq], hle, fun h => ?_⟩
    simpa [WatermarkCursor.observe, heq] using
      (hsub h).trans (Finset.subset_insert v.id ids)
  · refine ⟨v.updated, by simp [WatermarkCursor.observe, hgt.not_gt, hgt.ne'], hle.trans hgt.le,
      fun h => ?_⟩
    exact absurd (h ▸ hgt) hle.not_gt

theorem Extends.observe_of_skipped {prior c : WatermarkCursor T} (h : Extends prior c)
    {v : Version T} (hv : prior.shouldEmit v.updated v.id = false) :
    c.observe v.updated v.id = c := by
  cases hw : prior.watermark with
  | none => simp [WatermarkCursor.shouldEmit, hw] at hv
  | some w =>
    obtain ⟨w', hw', hle, hsub⟩ := h w hw
    obtain ⟨watermark, ids⟩ := c
    obtain rfl : watermark = some w' := hw'
    simp only [WatermarkCursor.shouldEmit, hw] at hv
    have hold : v.updated ≤ w := by
      by_contra hgt
      simp [not_le.mp hgt] at hv
    rcases (hold.trans hle).lt_or_eq with hlt | heq
    · exact if_pos hlt
    · have hsame : w' = w := le_antisymm (heq ▸ hold) hle
      have hin : v.id ∈ ids := hsub hsame (by simpa [heq, hsame] using hv)
      simp [WatermarkCursor.observe, heq, Finset.insert_eq_self.mpr hin]

theorem foldl_foldOrder {prior : WatermarkCursor T} (orders : List (Order T))
    (out : List (Version T)) {c : WatermarkCursor T} (h : Extends prior c) :
    orders.foldl (foldOrder prior) (out, c) =
      (out ++ (orders.filterMap Order.version).filter fun v => prior.shouldEmit v.updated v.id,
        observeAll c (orders.filterMap Order.version)) := by
  induction orders generalizing out c with
  | nil => simp [observeAll]
  | cons order orders ih =>
    obtain ⟨number, createdAt⟩ := order
    cases createdAt with
    | none =>
      have hversion : (⟨number, none⟩ : Order T).version = none := rfl
      rw [List.filterMap_cons_none hversion]
      exact ih out h
    | some created =>
      have hversion : (⟨number, some created⟩ : Order T).version = some ⟨created, number⟩ := rfl
      rw [List.filterMap_cons_some hversion, List.foldl_cons]
      cases hemit : prior.shouldEmit created number with
      | false =>
        have hsame := @Extends.observe_of_skipped T _ _ _ h ⟨created, number⟩ hemit
        simp [foldOrder, hemit, ih out h, observeAll, hsame]
      | true =>
        have hnext := h.observe ⟨created, number⟩
        simp [foldOrder, hemit, ih _ hnext, observeAll]

theorem incrementalSync_eq (rfc : Rfc3339 T) (stored : Option String) (orders : List (Order T)) :
    incrementalSync rfc stored orders =
      (emitted rfc stored (orders.filterMap Order.version),
        runOnce rfc stored (orders.filterMap Order.version)) :=
  foldl_foldOrder orders [] fun w hw => ⟨w, hw, le_refl w, fun _ => Finset.Subset.refl _⟩

def incrementalSyncs (rfc : Rfc3339 T) :
    Option String → List (List (Order T)) → List (List (Version T))
  | _, [] => []
  | stored, orders :: rest =>
    let out := incrementalSync rfc stored orders
    out.1 :: incrementalSyncs rfc (out.2.toCursorString rfc) rest

theorem incrementalSyncs_eq (rfc : Rfc3339 T) (stored : Option String)
    (runs : List (List (Order T))) :
    incrementalSyncs rfc stored runs =
      emissions rfc stored (runs.map fun orders => orders.filterMap Order.version) := by
  induction runs generalizing stored with
  | nil => rfl
  | cons orders rest ih =>
    simp only [incrementalSyncs, incrementalSync_eq, ih, List.map_cons, emissions]

/-- The loop folds only what it emits, and still its runs emit what those of the shared cursor do
that folds whole listings: each order with a creation instant once. -/
theorem incrementalSync_exactly_once (rfc : Rfc3339 T) {runs : List (List (Order T))}
    (h : FirstListedLate rfc (runs.map fun orders => orders.filterMap Order.version)) :
    incrementalSyncs rfc none runs =
        emissions rfc none (runs.map fun orders => orders.filterMap Order.version) ∧
      ∀ order ∈ runs.flatten, ∀ v, order.version = some v →
        (incrementalSyncs rfc none runs).countP (fun out => v ∈ out) = 1 := by
  refine ⟨incrementalSyncs_eq rfc none runs, fun order horder v hv => ?_⟩
  obtain ⟨orders, horders, hin⟩ := List.mem_flatten.mp horder
  have hlisted : v ∈ (runs.map fun orders => orders.filterMap Order.version).flatten :=
    List.mem_flatten.mpr ⟨_, List.mem_map_of_mem horders, List.mem_filterMap.mpr ⟨order, hin, hv⟩⟩
  have hcount := @countP_emissions T _ rfc [] _ h v
  rw [List.flatten_nil, if_neg List.not_mem_nil, if_pos hlisted] at hcount
  rw [incrementalSyncs_eq]
  exact hcount

end Runs

def dayText : Fin 3 → String
  | 0 => "2024-01-01T00:00:00+00:00"
  | 1 => "2024-01-02T00:00:00+00:00"
  | 2 => "2024-01-03T00:00:00+00:00"

def threeDays : Rfc3339 (Fin 3) where
  print := dayText
  parse s := (List.finRange 3).find? fun t => dayText t = s
  parse_print := by decide
  noBar := by decide

def dayRuns : List (List (Version (Fin 3))) :=
  [[⟨(Fin.last 1).castSucc, "a"⟩, ⟨Fin.last 2, "b"⟩], [⟨Fin.last 2, "b"⟩, ⟨Fin.last 2, "%,|"⟩],
    [⟨Fin.last 2, ""⟩, ⟨Fin.last 2, "%,|"⟩]]

theorem dayRuns_late : FirstListedLate threeDays dayRuns := by
  intro front listed back heq v hv _ _ w _
  have hlast : ∀ later ∈ dayRuns.tail, ∀ v ∈ later, v.updated = Fin.last 2 := by decide
  obtain ⟨later, hlater, hv⟩ := List.mem_flatten.mp hv
  have htail : later ∈ dayRuns.tail := by
    rw [heq]
    cases front with
    | nil => exact hlater
    | cons first front => simp [hlater]
  rw [hlast later htail v hv]
  exact Fin.le_last w

theorem watermark_exactly_once_dayRuns :
    WatermarkCursor.parse threeDays
        ((⟨some 2, {"", "%,|"}⟩ : WatermarkCursor (Fin 3)).toCursorString threeDays) =
      ⟨some 2, {"", "%,|"}⟩ ∧
    ∀ v ∈ dayRuns.flatten, (emissions threeDays none dayRuns).countP (fun out => v ∈ out) = 1 := by
  obtain ⟨hround, honce⟩ := watermark_exactly_once threeDays
  exact ⟨hround _ rfl, honce dayRuns dayRuns_late⟩

def orderRuns : List (List (Order (Fin 3))) :=
  dayRuns.map fun listed => ⟨"unread", none⟩ :: listed.map fun v => ⟨v.id, some v.updated⟩

theorem incrementalSync_exactly_once_orderRuns :
    (incrementalSyncs threeDays none orderRuns).countP (fun out => ⟨2, "b"⟩ ∈ out) = 1 := by
  have hruns : (orderRuns.map fun orders => orders.filterMap Order.version) = dayRuns := by decide
  have hlate : FirstListedLate threeDays
      (orderRuns.map fun orders => orders.filterMap Order.version) := by
    rw [hruns]
    exact dayRuns_late
  exact (incrementalSync_exactly_once threeDays hlate).2 ⟨"b", some 2⟩ (by decide) _ rfl

end Knowledge.Connector
