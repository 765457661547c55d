import Knowledge.Lib.Table
import Knowledge.Lib.Transition

/-!
The audit consumer of the server: a stream hands it each published event any number of times,
and it puts the event into a store before it acknowledges it.
-/

set_option autoImplicit false

namespace Knowledge.AuditConsumer
open Knowledge.Transition

abbrev Time := Int

/-- The empty string stands for a field that is not set. -/
structure Event where
  id : String
  tenantId : String
  scopeId : String
  action : String
  actor : String
  detail : String
  createdAt : Time
  deriving DecidableEq

structure Filter where
  tenantId : String
  scopeId : String
  action : String
  actor : String
  after : Time
  before : Time
  limit : Int

inductive ServiceError where
  | badRequest (message : String)
  | internal (message : String)

abbrev Rows := Table String Event

abbrev Write := Rows → Event → Option Rows

namespace MemoryStore

def append : Write := fun rows e => some (rows.insert e.id e)

end MemoryStore

open MemoryStore

structure Columns where
  uuid : String → Option String
  text : String → Option String
  jsonb : String → Option String
  timestamptz : Time → Option Time

def nullable (column : String → Option String) (value : String) : Option String :=
  if value = "" then some "" else column value

def unlessZero (column : Time → Option Time) (value : Time) : Option Time :=
  if value = 0 then some 0 else column value

namespace PostgresStore

def row (columns : Columns) (e : Event) : Option Event := do
  let id ← columns.uuid e.id
  let tenantId ← columns.uuid e.tenantId
  let scopeId ← nullable columns.uuid e.scopeId
  let action ← columns.text e.action
  let actor ← columns.text e.actor
  let detail ← nullable columns.jsonb e.detail
  let createdAt ← columns.timestamptz e.createdAt
  return ⟨id, tenantId, scopeId, action, actor, detail, createdAt⟩

def append (columns : Columns) : Write := fun rows e =>
  match row columns e with
  | none => none
  | some row => if (rows.lookup row.id).isSome then some rows else some (rows.insert row.id row)

end PostgresStore

open PostgresStore

def maxLimit : Int := 1000

def defaultLimit : Int := 100

def clampLimit (limit n : Int) : Int :=
  let limit := if limit ≤ 0 then defaultLimit else limit
  let limit := if limit > maxLimit then maxLimit else limit
  if limit > n then n else limit

/-- `out` is the first rows of some arrangement, newest first. -/
def Listed (rows : List Event) (limit : Int) (out : List Event) : Prop :=
  ∃ sorted, List.Perm sorted rows ∧ sorted.Pairwise (fun a b => b.createdAt ≤ a.createdAt) ∧
    out = sorted.take limit.toNat

namespace MemoryStore

def eventMatches (e : Event) (f : Filter) : Bool :=
  if f.tenantId ≠ "" ∧ e.tenantId ≠ f.tenantId then false
  else if f.scopeId ≠ "" ∧ e.scopeId ≠ f.scopeId then false
  else if f.action ≠ "" ∧ e.action ≠ f.action then false
  else if f.actor ≠ "" ∧ e.actor ≠ f.actor then false
  else if f.after ≠ 0 ∧ e.createdAt < f.after then false
  else if f.before ≠ 0 ∧ e.createdAt > f.before then false
  else true

/-- The answers of a query: a map has no order, and the sort is not stable. -/
def Query (rows : Rows) (f : Filter) (out : List Event) : Prop :=
  let found := (rows.rows.map Prod.snd).filter (eventMatches · f)
  Listed found (clampLimit f.limit found.length) out

end MemoryStore

namespace PostgresStore

def arguments (columns : Columns) (f : Filter) : Option Filter := do
  let tenantId ← nullable columns.uuid f.tenantId
  let scopeId ← nullable columns.uuid f.scopeId
  let action ← nullable columns.text f.action
  let actor ← nullable columns.text f.actor
  let after ← unlessZero columns.timestamptz f.after
  let before ← unlessZero columns.timestamptz f.before
  return ⟨tenantId, scopeId, action, actor, after, before, f.limit⟩

/-- The clauses of the `WHERE` for those fields of the filter that are set. -/
def clauses (f args : Filter) : List (Event → Bool) :=
  (if f.tenantId ≠ "" then [fun e => e.tenantId == args.tenantId] else []) ++
  (if f.scopeId ≠ "" then [fun e => e.scopeId == args.scopeId] else []) ++
  (if f.action ≠ "" then [fun e => e.action == args.action] else []) ++
  (if f.actor ≠ "" then [fun e => e.actor == args.actor] else []) ++
  (if f.after ≠ 0 then [fun e => decide (args.after ≤ e.createdAt)] else []) ++
  (if f.before ≠ 0 then [fun e => decide (e.createdAt ≤ args.before)] else [])

def Query (columns : Columns) (rows : Rows) (f : Filter) (out : List Event) : Prop :=
  ∃ args, arguments columns f = some args ∧
    Listed ((rows.rows.map Prod.snd).filter fun e => (clauses f args).all (· e))
      (clampLimit f.limit maxLimit) out

end PostgresStore

/-- A write may not reach the store, or its answer may not come back. -/
inductive Fault where
  | none
  | refused
  | replyLost
  deriving DecidableEq

/-- What one delivery meets: the id and the time it may fill in, the write and the ack. -/
structure Env where
  newString : String
  now : Time
  fault : Fault
  ackLost : Bool

def append (write : Write) (rows : Rows) (e : Event) : Fault → Rows × Bool
  | .none =>
    match write rows e with
    | some rows => (rows, true)
    | none => (rows, false)
  | .refused => (rows, false)
  | .replyLost => ((write rows e).getD rows, false)

def Event.filled (e : Event) (env : Env) : Event :=
  { e with
    id := if e.id = "" then env.newString else e.id
    createdAt := if e.createdAt = 0 then env.now else e.createdAt }

def record (write : Write) (rows : Rows) (e : Event) (env : Env) :
    Rows × Except ServiceError Event :=
  if e.tenantId = "" ∨ e.action = "" ∨ e.actor = "" then
    (rows, .error (.badRequest "tenant_id, action and actor are required"))
  else
    match append write rows (e.filled env) env.fault with
    | (rows, true) => (rows, .ok (e.filled env))
    | (rows, false) => (rows, .error (.internal "audit: persist failed"))

inductive Reply where
  | term
  | nak
  | ack
  deriving DecidableEq

section

variable {Data : Type} (unmarshal : Data → Option Event) (columns : Columns)

def handle (write : Write) (rows : Rows) (data : Data) (env : Env) : Rows × Reply :=
  match unmarshal data with
  | none => (rows, .term)
  | some e =>
    match record write rows e env with
    | (rows, .error _) => (rows, .nak)
    | (rows, .ok _) => (rows, .ack)

def landed (write : Write) (rows : Rows) (data : Data) (env : Env) : Option String :=
  match unmarshal data with
  | none => none
  | some e =>
    if e.tenantId = "" ∨ e.action = "" ∨ e.actor = "" ∨ env.fault = .refused then none
    else (write rows (e.filled env)).map fun _ => (e.filled env).id

/-- A store behind a consumer, with the messages whose ack came through and those that were
written, each with the id of its row. -/
structure Side where
  rows : Rows
  acked : List Nat
  written : List (Nat × String)

def Side.deliver (write : Write) (s : Side) (i : Nat) (data : Data) (env : Env) : Side :=
  let (rows, reply) := handle unmarshal write s.rows data env
  { rows
    acked := if reply = .ack ∧ env.ackLost = false then s.acked ++ [i] else s.acked
    written := match landed unmarshal write s.rows data env with
      | some id => s.written ++ [(i, id)]
      | none => s.written }

/-- The stream, and the two stores under one schedule of its deliveries. -/
structure World (Data : Type) where
  messages : List Data
  postgres : Side
  memory : Side

inductive Step (Data : Type) where
  | publish (data : Data)
  | deliver (i : Nat) (env : Env)

def World.start : World Data := ⟨[], ⟨∅, [], []⟩, ⟨∅, [], []⟩⟩

def World.next (w : World Data) : Step Data → World Data
  | .publish data => { w with messages := w.messages ++ [data] }
  | .deliver i env =>
    match w.messages[i]? with
    | none => w
    | some data =>
      { w with
        postgres := w.postgres.deliver unmarshal (PostgresStore.append columns) i data env
        memory := w.memory.deliver unmarshal MemoryStore.append i data env }

def eventAt (messages : List Data) (i : Nat) : Option Event := messages[i]?.bind unmarshal

def Event.Carries (e : Event) : Prop := e.tenantId ≠ "" ∧ e.action ≠ "" ∧ e.actor ≠ ""

instance (e : Event) : Decidable e.Carries :=
  inferInstanceAs (Decidable (e.tenantId ≠ "" ∧ e.action ≠ "" ∧ e.actor ≠ ""))

/-- `uuid.NewString` gives a UUID that nothing has yet. -/
def World.Fresh (w : World Data) (id : String) : Prop :=
  columns.uuid id = some id ∧ id ≠ "" ∧
    (∀ i e, eventAt unmarshal w.messages i = some e → e.id ≠ id) ∧
    w.postgres.rows.lookup id = none ∧ w.memory.rows.lookup id = none

def World.guard (w : World Data) : Step Data → Prop
  | .publish data => ∃ e, unmarshal data = some e ∧ e.Carries
  | .deliver _ env => w.Fresh unmarshal columns env.newString

def system : System (World Data) (Step Data) :=
  .ofNext (· = .start) (World.guard unmarshal columns) (World.next unmarshal columns)

def Columns.Keep (e : Event) : Prop :=
  (e.id ≠ "" → columns.uuid e.id = some e.id) ∧ columns.uuid e.tenantId = some e.tenantId ∧
    nullable columns.uuid e.scopeId = some e.scopeId ∧ columns.text e.action = some e.action ∧
    columns.text e.actor = some e.actor ∧ nullable columns.jsonb e.detail = some e.detail ∧
    (e.createdAt ≠ 0 → columns.timestamptz e.createdAt = some e.createdAt)

/-- Two messages of one event: the same message, or the same event under the id it was given. -/
def SameEvent (messages : List Data) (i j : Nat) : Prop :=
  i = j ∨ ∃ e, eventAt unmarshal messages i = some e ∧ eventAt unmarshal messages j = some e ∧
    e.id ≠ ""

/-- An id stands for one event, and what is written again has its id and its time. -/
def World.Clear (w : World Data) : Step Data → Prop
  | .publish data => ∀ e, unmarshal data = some e → columns.Keep e ∧ (e.id ≠ "" →
      (∀ i other, eventAt unmarshal w.messages i = some other → other.id = e.id → other = e) ∧
      ∀ row, w.memory.rows.lookup e.id = some row → ∃ i, eventAt unmarshal w.messages i = some e)
  | .deliver i env => ∀ e, eventAt unmarshal w.messages i = some e → env.fault ≠ .refused →
      (e.createdAt = 0 → columns.timestamptz env.now = some env.now) ∧
      ∀ j id, (j, id) ∈ w.memory.written → SameEvent unmarshal w.messages i j →
        e.id ≠ "" ∧ e.createdAt ≠ 0

/-- The row is the event, with what the publisher has not set filled in. -/
def Event.FilledTo (e row : Event) : Prop :=
  row = { e with id := row.id, createdAt := row.createdAt } ∧ (e.id ≠ "" → row.id = e.id) ∧
    (e.createdAt ≠ 0 → row.createdAt = e.createdAt)

def ExactlyOnce (messages : List Data) (rows : Rows) : Prop :=
  ∃ rowId : Nat → String,
    (∀ i < messages.length, ∃ e row, eventAt unmarshal messages i = some e ∧
      rows.lookup (rowId i) = some row ∧ e.FilledTo row) ∧
    (∀ id row, rows.lookup id = some row → ∃ i < messages.length, rowId i = id) ∧
    ∀ i < messages.length, ∀ j < messages.length,
      rowId i = rowId j ↔ SameEvent unmarshal messages i j

/-- The columns give what the filter asks for back as it is. -/
def Columns.KeepFilter (f : Filter) : Prop :=
  nullable columns.uuid f.tenantId = some f.tenantId ∧
    nullable columns.uuid f.scopeId = some f.scopeId ∧
    nullable columns.text f.action = some f.action ∧ nullable columns.text f.actor = some f.actor ∧
    unlessZero columns.timestamptz f.after = some f.after ∧
    unlessZero columns.timestamptz f.before = some f.before

def SameRows (postgres memory : Rows) : Prop :=
  (∀ id, postgres.lookup id = memory.lookup id) ∧
    ∀ f out, columns.KeepFilter f →
      (PostgresStore.Query columns postgres f out ↔ MemoryStore.Query memory f out)

end

open World

section Queries

variable {columns : Columns}

theorem KeepFilter.arguments {f : Filter} (h : columns.KeepFilter f) :
    arguments columns f = some f := by
  obtain ⟨htenant, hscope, haction, hactor, hafter, hbefore⟩ := h
  simp [PostgresStore.arguments, htenant, hscope, haction, hactor, hafter, hbefore]

theorem eventMatches_iff {e : Event} {f : Filter} : eventMatches e f = true ↔
    (f.tenantId ≠ "" → e.tenantId = f.tenantId) ∧ (f.scopeId ≠ "" → e.scopeId = f.scopeId) ∧
      (f.action ≠ "" → e.action = f.action) ∧ (f.actor ≠ "" → e.actor = f.actor) ∧
      (f.after ≠ 0 → f.after ≤ e.createdAt) ∧ (f.before ≠ 0 → e.createdAt ≤ f.before) := by
  have key : ∀ (p : Prop) [Decidable p] (b : Bool), (if p then false else b) = (!decide p && b) := by
    intro p _ b
    split <;> simp [*]
  simp only [eventMatches, key, Bool.and_eq_true, Bool.not_eq_true',
    decide_eq_false_iff_not, not_and, not_not, Int.not_lt, gt_iff_lt, and_true]

theorem clauses_all (f : Filter) (e : Event) :
    ((clauses f f).all (· e)) = eventMatches e f := by
  have key : ∀ (p : Prop) [Decidable p] (g : Event → Bool),
      (if p then [g] else []).all (· e) = true ↔ (p → g e = true) := by
    intro p _ g
    split <;> simp [*]
  rw [Bool.eq_iff_iff, eventMatches_iff]
  simp only [clauses, List.all_append, Bool.and_eq_true, key, beq_iff_eq,
    decide_eq_true_eq, and_assoc]

theorem take_clampLimit (limit : Int) (l : List Event) :
    l.take (clampLimit limit l.length).toNat = l.take (clampLimit limit maxLimit).toNat := by
  by_cases h : clampLimit limit maxLimit ≤ l.length
  · have hsame : clampLimit limit l.length = clampLimit limit maxLimit := by
      simp only [clampLimit, maxLimit, defaultLimit] at h ⊢
      grind
    rw [hsame]
  · have hall : clampLimit limit l.length = l.length := by
      simp only [clampLimit, maxLimit, defaultLimit] at h ⊢
      grind
    rw [hall, Int.toNat_natCast, List.take_length, List.take_of_length_le]
    omega

theorem perm_of_lookup {a b : Rows} (h : ∀ id, a.lookup id = b.lookup id) :
    List.Perm (a.rows.map Prod.snd) (b.rows.map Prod.snd) := by
  have hperm : List.Perm a.entries b.entries := by
    refine List.lookup_ext a.nodupKeys b.nodupKeys fun id row => ?_
    have hid := h id
    simp only [AList.lookup] at hid
    rw [hid]
  exact (hperm.map _).map _

theorem Listed.congr {a b : List Event} (h : List.Perm a b) (limit : Int) (out : List Event) :
    Listed a limit out ↔ Listed b limit out :=
  exists_congr fun _ => and_congr_left fun _ => ⟨(·.trans h), (·.trans h.symm)⟩

theorem sameRows_of_lookup {a b : Rows} (h : ∀ id, a.lookup id = b.lookup id) :
    SameRows columns a b := by
  refine ⟨h, fun f out hf => ?_⟩
  have hperm : List.Perm ((a.rows.map Prod.snd).filter (eventMatches · f))
      ((b.rows.map Prod.snd).filter (eventMatches · f)) := (perm_of_lookup h).filter _
  have hquery : PostgresStore.Query columns a f out ↔
      Listed ((a.rows.map Prod.snd).filter (eventMatches · f))
        (clampLimit f.limit maxLimit) out := by
    simp only [PostgresStore.Query, KeepFilter.arguments hf, Option.some.injEq, exists_eq_left',
      clauses_all]
  rw [hquery, Listed.congr hperm]
  refine exists_congr fun sorted => and_congr_right fun hsorted => and_congr_right fun _ => ?_
  rw [← take_clampLimit, hsorted.length_eq]

end Queries

section Runs

variable {Data : Type} {unmarshal : Data → Option Event} {columns : Columns}

theorem Event.filledTo_filled (e : Event) (env : Env) : e.FilledTo (e.filled env) := by
  refine ⟨rfl, fun h => if_neg h, fun h => if_neg h⟩

theorem Event.filled_eq {e : Event} (env : Env) (hid : e.id ≠ "") (hat : e.createdAt ≠ 0) :
    e.filled env = e := by
  simp [Event.filled, hid, hat]

theorem Event.FilledTo.eq {e row : Event} (h : e.FilledTo row) (hid : e.id ≠ "")
    (hat : e.createdAt ≠ 0) : row = e := by
  rw [h.1, h.2.1 hid, h.2.2 hat]

theorem row_filled {e : Event} {env : Env} (hk : columns.Keep e)
    (hnew : columns.uuid env.newString = some env.newString)
    (hnow : e.createdAt = 0 → columns.timestamptz env.now = some env.now) :
    row columns (e.filled env) = some (e.filled env) := by
  obtain ⟨hid, htenant, hscope, haction, hactor, hdetail, hat⟩ := hk
  have hid' : columns.uuid (e.filled env).id = some (e.filled env).id := by
    by_cases h : e.id = ""
    · simpa [Event.filled, h] using hnew
    · simpa [Event.filled, h] using hid h
  have hat' : columns.timestamptz (e.filled env).createdAt = some (e.filled env).createdAt := by
    by_cases h : e.createdAt = 0
    · simpa [Event.filled, h] using hnow h
    · simpa [Event.filled, h] using hat h
  simp only [row, hid', hat', Option.bind_eq_bind, Option.bind_some]
  simp [Event.filled, htenant, hscope, haction, hactor, hdetail]

theorem deliver_eq (write : Write) (s : Side) {data : Data} {e : Event} {rows : Rows}
    (hdata : unmarshal data = some e) (he : e.Carries) (i : Nat) (env : Env)
    (hwrite : write s.rows (e.filled env) = some rows) :
    s.deliver unmarshal write i data env =
      { rows := if env.fault = .refused then s.rows else rows
        acked := if env.fault = .none ∧ env.ackLost = false then s.acked ++ [i] else s.acked
        written := if env.fault = .refused then s.written
          else s.written ++ [(i, (e.filled env).id)] } := by
  have hcarries : ¬(e.tenantId = "" ∨ e.action = "" ∨ e.actor = "") := by
    simpa only [Event.Carries, ne_eq, not_or] using he
  cases hf : env.fault with
  | none => simp [Side.deliver, handle, landed, record, append, hdata, hcarries, hwrite, hf]
  | refused => simp [Side.deliver, handle, landed, record, append, hdata, hcarries, hf]
  | replyLost => simp [Side.deliver, handle, landed, record, append, hdata, hcarries, hwrite, hf]

theorem deliver_refused {data : Data} {e : Event} {env : Env} (hdata : unmarshal data = some e)
    (he : e.Carries) (write : Write) (s : Side) (i : Nat) (hf : env.fault = .refused) :
    s.deliver unmarshal write i data env = s := by
  have hcarries : ¬(e.tenantId = "" ∨ e.action = "" ∨ e.actor = "") := by
    simpa only [Event.Carries, ne_eq, not_or] using he
  simp [Side.deliver, handle, landed, record, append, hdata, hcarries, hf]

/-- Two sides that no query and no redelivery tells apart. -/
structure Side.Same (a b : Side) : Prop where
  rows : ∀ id, a.rows.lookup id = b.rows.lookup id
  acked : a.acked = b.acked
  written : a.written = b.written

/-- An event that has been published, and is in no way the one under the given id. -/
def Unnamed (unmarshal : Data → Option Event) (messages : List Data) (id : String) : Prop :=
  ∀ i e, eventAt unmarshal messages i = some e → e.id ≠ id

/-- Each row is that of the messages that were written under its id, and these are one event. -/
structure Sound (unmarshal : Data → Option Event) (messages : List Data) (s : Side) : Prop where
  written : ∀ i id, (i, id) ∈ s.written → ∃ e row, eventAt unmarshal messages i = some e ∧
    s.rows.lookup id = some row ∧ row.id = id ∧ id ≠ "" ∧ e.FilledTo row ∧
      (e.id = "" → Unnamed unmarshal messages id)
  rows : ∀ id row, s.rows.lookup id = some row → ∃ i, (i, id) ∈ s.written
  once : ∀ i a b, (i, a) ∈ s.written → (i, b) ∈ s.written → a = b
  apart : ∀ i j id, (i, id) ∈ s.written → (j, id) ∈ s.written → SameEvent unmarshal messages i j
  acked : ∀ i ∈ s.acked, ∃ id, (i, id) ∈ s.written

/-- An id stands for one event, which carries what it must and which the columns keep. -/
structure Named (unmarshal : Data → Option Event) (columns : Columns) (messages : List Data) :
    Prop where
  event : ∀ data ∈ messages, ∃ e, unmarshal data = some e ∧ e.Carries ∧ columns.Keep e
  one : ∀ i j a b, eventAt unmarshal messages i = some a → eventAt unmarshal messages j = some b →
    a.id = b.id → a.id ≠ "" → a = b

theorem Side.Same.sound {a b : Side} {messages : List Data} (h : a.Same b)
    (hb : Sound unmarshal messages b) : Sound unmarshal messages a where
  written i id hi := by
    rw [h.rows]
    exact hb.written i id (h.written ▸ hi)
  rows id row hrow := by
    rw [h.written]
    exact hb.rows id row (h.rows id ▸ hrow)
  once := h.written ▸ hb.once
  apart := h.written ▸ hb.apart
  acked := h.written ▸ h.acked ▸ hb.acked

section

variable {messages : List Data}

theorem eventAt_append_of_some {i : Nat} {e : Event} (data : Data)
    (h : eventAt unmarshal messages i = some e) :
    eventAt unmarshal (messages ++ [data]) i = some e := by
  obtain ⟨found, hfound, he⟩ := Option.bind_eq_some_iff.mp h
  have hlt : i < messages.length := (List.getElem?_eq_some_iff.mp hfound).1
  rw [eventAt, List.getElem?_append_left hlt]
  exact h

theorem eventAt_append {i : Nat} {data : Data} {e : Event}
    (h : eventAt unmarshal (messages ++ [data]) i = some e) :
    eventAt unmarshal messages i = some e ∨ i = messages.length ∧ unmarshal data = some e := by
  by_cases hlt : i < messages.length
  · rw [eventAt, List.getElem?_append_left hlt] at h
    exact .inl h
  · rw [eventAt, List.getElem?_append_right (by omega)] at h
    have hzero : i - messages.length = 0 := by
      by_contra hpos
      rw [List.getElem?_eq_none (by simp; omega)] at h
      cases h
    rw [hzero] at h
    exact .inr ⟨by omega, h⟩

theorem SameEvent.event {i j : Nat} {e : Event}
    (h : SameEvent unmarshal messages i j) (hi : eventAt unmarshal messages i = some e) :
    eventAt unmarshal messages j = some e := by
  obtain rfl | ⟨e', hi', hj, -⟩ := h
  · exact hi
  · rw [hj, ← hi', hi]

theorem SameEvent.symm {i j : Nat} (h : SameEvent unmarshal messages i j) :
    SameEvent unmarshal messages j i := by
  obtain rfl | ⟨e, hi, hj, hid⟩ := h
  · exact .inl rfl
  · exact .inr ⟨e, hj, hi, hid⟩

theorem SameEvent.append {i j : Nat} (data : Data)
    (h : SameEvent unmarshal messages i j) : SameEvent unmarshal (messages ++ [data]) i j := by
  obtain rfl | ⟨e, hi, hj, hid⟩ := h
  · exact .inl rfl
  · exact .inr ⟨e, eventAt_append_of_some data hi, eventAt_append_of_some data hj, hid⟩

theorem Named.publish {data : Data} {e : Event}
    (h : Named unmarshal columns messages) (hdata : unmarshal data = some e) (hc : e.Carries)
    (hk : columns.Keep e) (hone : e.id ≠ "" → ∀ i other,
      eventAt unmarshal messages i = some other → other.id = e.id → other = e) :
    Named unmarshal columns (messages ++ [data]) where
  event d hd := by
    rw [List.mem_append, List.mem_singleton] at hd
    obtain hd | rfl := hd
    · exact h.event d hd
    · exact ⟨e, hdata, hc, hk⟩
  one i j a b hi hj hid hne := by
    obtain hi | ⟨-, hi⟩ := eventAt_append hi <;> obtain hj | ⟨-, hj⟩ := eventAt_append hj
    · exact h.one i j a b hi hj hid hne
    · obtain rfl : e = b := Option.some.inj (hdata.symm.trans hj)
      exact hone (hid ▸ hne) i a hi hid
    · obtain rfl : e = a := Option.some.inj (hdata.symm.trans hi)
      exact (hone hne j b hj hid.symm).symm
    · exact Option.some.inj (hi.symm.trans hj)

theorem Sound.publish {s : Side} {data : Data} {e : Event}
    (h : Sound unmarshal messages s) (hdata : unmarshal data = some e)
    (hnamed : e.id ≠ "" → ∀ row, s.rows.lookup e.id = some row →
      ∃ i, eventAt unmarshal messages i = some e) :
    Sound unmarshal (messages ++ [data]) s where
  written i id hi := by
    obtain ⟨found, row, hfound, hrow, hid, hne, hfilled, hunnamed⟩ := h.written i id hi
    refine ⟨found, row, eventAt_append_of_some data hfound, hrow, hid, hne, hfilled, ?_⟩
    intro hempty j other hj heq
    obtain hj | ⟨-, hj⟩ := eventAt_append hj
    · exact hunnamed hempty j other hj heq
    · obtain rfl : e = other := Option.some.inj (hdata.symm.trans hj)
      obtain ⟨k, hk⟩ := hnamed (heq ▸ hne) row (heq ▸ hrow)
      exact hunnamed hempty k e hk heq
  rows := h.rows
  once := h.once
  apart i j id hi hj := (h.apart i j id hi hj).append data
  acked := h.acked

end

section Deliver

variable {messages : List Data} {s : Side} {i : Nat} {e : Event} {env : Env}
  (h : Sound unmarshal messages s) (hn : Named unmarshal columns messages)
  (hi : eventAt unmarshal messages i = some e)
  (hnew : env.newString ≠ "" ∧ Unnamed unmarshal messages env.newString ∧
    s.rows.lookup env.newString = none)
include h hn hi hnew

theorem sameEvent_of_written {j : Nat} (hj : (j, (e.filled env).id) ∈ s.written) :
    SameEvent unmarshal messages i j := by
  obtain ⟨other, row, hother, hrow, hid, -, hfilled, hunnamed⟩ := h.written j _ hj
  by_cases hempty : e.id = ""
  · have hkey : (e.filled env).id = env.newString := if_pos hempty
    rw [hkey, hnew.2.2] at hrow
    cases hrow
  · have hkey : (e.filled env).id = e.id := if_neg hempty
    by_cases hother' : other.id = ""
    · exact absurd hkey.symm (hunnamed hother' i e hi)
    · have hsame : e.id = other.id := by rw [← hfilled.2.1 hother', hid, hkey]
      obtain rfl := hn.one i j e other hi hother hsame hempty
      exact .inr ⟨e, hi, hother, hempty⟩

variable (hagain : ∀ j id, (j, id) ∈ s.written → SameEvent unmarshal messages i j →
  e.id ≠ "" ∧ e.createdAt ≠ 0)
include hagain

theorem lookup_filled : s.rows.lookup (e.filled env).id = none ∨
    s.rows.lookup (e.filled env).id = some (e.filled env) := by
  cases hrow : s.rows.lookup (e.filled env).id with
  | none => exact .inl rfl
  | some row =>
    obtain ⟨j, hj⟩ := h.rows _ row hrow
    have hsame := sameEvent_of_written h hn hi hnew hj
    obtain ⟨hid, hat⟩ := hagain j _ hj hsame
    obtain ⟨other, row', hother, hrow', -, -, hfilled, -⟩ := h.written j _ hj
    obtain rfl : e = other := Option.some.inj ((hsame.event hi).symm.trans hother)
    obtain rfl : row = row' := Option.some.inj (hrow.symm.trans hrow')
    rw [Event.filled_eq env hid hat, hfilled.eq hid hat]
    exact .inr rfl

theorem Sound.put {rows : Rows} {acked : List Nat} (hrows : ∀ id, rows.lookup id =
      if id = (e.filled env).id then some (e.filled env) else s.rows.lookup id)
    (hacked : ∀ j ∈ acked, j ∈ s.acked ∨ j = i) :
    Sound unmarshal messages ⟨rows, acked, s.written ++ [(i, (e.filled env).id)]⟩ where
  written j id hj := by
    rw [List.mem_append, List.mem_singleton, Prod.mk.injEq] at hj
    obtain hj | ⟨rfl, rfl⟩ := hj
    · obtain ⟨other, row, hother, hrow, hid, hne, hfilled, hunnamed⟩ := h.written j id hj
      by_cases hkey : id = (e.filled env).id
      · subst hkey
        have hsame := sameEvent_of_written h hn hi hnew hj
        obtain rfl : e = other := Option.some.inj ((hsame.event hi).symm.trans hother)
        exact ⟨e, e.filled env, hother, by rw [hrows, if_pos rfl], rfl, hne,
          e.filledTo_filled env, hunnamed⟩
      · exact ⟨other, row, hother, by rw [hrows, if_neg hkey, hrow], hid, hne, hfilled, hunnamed⟩
    · refine ⟨e, e.filled env, hi, by rw [hrows, if_pos rfl], rfl, ?_, e.filledTo_filled env, ?_⟩
      · by_cases hempty : e.id = ""
        · simpa [Event.filled, hempty] using hnew.1
        · simp [Event.filled, hempty]
      · intro hempty
        simpa [Event.filled, hempty] using hnew.2.1
  rows id row hrow := by
    rw [hrows] at hrow
    split at hrow
    · rename_i hkey
      exact ⟨i, by simp [hkey]⟩
    · obtain ⟨j, hj⟩ := h.rows id row hrow
      exact ⟨j, List.mem_append_left _ hj⟩
  once j a b ha hb := by
    have hlast : ∀ id, (i, id) ∈ s.written → id = (e.filled env).id := by
      intro id hid
      obtain ⟨hne, hat⟩ := hagain i id hid (.inl rfl)
      obtain ⟨other, row, hother, -, hrow, -, hfilled, -⟩ := h.written i id hid
      obtain rfl : e = other := Option.some.inj (hi.symm.trans hother)
      rw [Event.filled_eq env hne hat, ← hrow, hfilled.2.1 hne]
    simp only [List.mem_append, List.mem_singleton, Prod.mk.injEq] at ha hb
    obtain ha | ⟨rfl, rfl⟩ := ha <;> obtain hb | ⟨hji, rfl⟩ := hb
    · exact h.once j a b ha hb
    · exact hlast a (hji ▸ ha)
    · exact (hlast b hb).symm
    · rfl
  apart j k id hj hk := by
    have hsame : ∀ l, (l, (e.filled env).id) ∈ s.written → SameEvent unmarshal messages i l :=
      fun l => sameEvent_of_written h hn hi hnew
    simp only [List.mem_append, List.mem_singleton, Prod.mk.injEq] at hj hk
    obtain hj | ⟨rfl, rfl⟩ := hj <;> obtain hk | ⟨rfl, hk⟩ := hk
    · exact h.apart j k id hj hk
    · exact (hsame j (hk ▸ hj)).symm
    · exact hsame k hk
    · exact .inl rfl
  acked j hj := by
    obtain hj | rfl := hacked j hj
    · obtain ⟨id, hid⟩ := h.acked j hj
      exact ⟨id, List.mem_append_left _ hid⟩
    · exact ⟨_, List.mem_append_right _ (List.mem_singleton.mpr rfl)⟩

end Deliver

/-- What the condition on the steps keeps: the stores cannot be told apart, and each is sound. -/
structure Steady (unmarshal : Data → Option Event) (columns : Columns) (w : World Data) :
    Prop where
  named : Named unmarshal columns w.messages
  same : w.postgres.Same w.memory
  sound : Sound unmarshal w.messages w.memory

theorem Steady.publish {w : World Data} (h : Steady unmarshal columns w) {data : Data}
    (hg : w.guard unmarshal columns (.publish data))
    (hc : w.Clear unmarshal columns (.publish data)) :
    Steady unmarshal columns (w.next unmarshal columns (.publish data)) := by
  obtain ⟨e, hdata, hcarries⟩ := hg
  obtain ⟨hkeep, hone⟩ := hc e hdata
  exact ⟨h.named.publish hdata hcarries hkeep fun hid => (hone hid).1, h.same,
    h.sound.publish hdata fun hid => (hone hid).2⟩

theorem Steady.deliver {w : World Data} (h : Steady unmarshal columns w) {i : Nat} {env : Env}
    (hg : w.guard unmarshal columns (.deliver i env))
    (hc : w.Clear unmarshal columns (.deliver i env)) :
    Steady unmarshal columns (w.next unmarshal columns (.deliver i env)) := by
  cases hdata : w.messages[i]? with
  | none => simpa only [next, hdata] using h
  | some data =>
    obtain ⟨e, he, hcarries, hkeep⟩ := h.named.event data (List.mem_of_getElem? hdata)
    have hi : eventAt unmarshal w.messages i = some e := by simp [eventAt, hdata, he]
    obtain ⟨hnewUuid, hnewId, hunnamed, -, hnewRow⟩ := hg
    have hmemory := deliver_eq MemoryStore.append w.memory he hcarries i env rfl
    by_cases hfault : env.fault = .refused
    · simpa only [next, hdata, deliver_refused he hcarries _ _ i hfault] using h
    · obtain ⟨hnow, hagain⟩ := hc e hi hfault
      have hrow := row_filled hkeep hnewUuid hnow
      have hfree := lookup_filled h.sound h.named hi ⟨hnewId, hunnamed, hnewRow⟩ hagain
      have hput : ∀ id, (w.memory.rows.insert (e.filled env).id (e.filled env)).lookup id =
          if id = (e.filled env).id then some (e.filled env) else w.memory.rows.lookup id :=
        fun id => Table.lookup_insert_ite _ _ _ _
      obtain ⟨rows, hwrite, hrows⟩ : ∃ rows,
          PostgresStore.append columns w.postgres.rows (e.filled env) = some rows ∧
          ∀ id, rows.lookup id =
            if id = (e.filled env).id then some (e.filled env) else w.memory.rows.lookup id := by
        simp only [PostgresStore.append, hrow, h.same.rows]
        obtain hnone | hsome := hfree
        · refine ⟨_, by rw [hnone]; rfl, fun id => ?_⟩
          rw [Table.lookup_insert_ite, h.same.rows]
        · refine ⟨_, by rw [hsome]; rfl, fun id => ?_⟩
          rw [h.same.rows]
          split
          · rename_i hkey
            rw [hkey, hsome]
          · rfl
      have hpostgres := deliver_eq _ _ he hcarries i env hwrite
      simp only [if_neg hfault] at hmemory hpostgres
      simp only [next, hdata, hmemory, hpostgres]
      refine ⟨h.named, ⟨fun id => ?_, ?_, ?_⟩, ?_⟩
      · rw [hrows, hput]
      · simp only [h.same.acked]
      · simp only [h.same.written]
      · refine h.sound.put h.named hi ⟨hnewId, hunnamed, hnewRow⟩ hagain hput fun j hj => ?_
        split at hj
        · simpa using hj
        · exact .inl hj

theorem steady_of_reachable {w : World Data}
    (h : ((system unmarshal columns).restrict (World.Clear unmarshal columns)).Reachable w) :
    Steady unmarshal columns w := by
  refine h.invariant (Steady unmarshal columns) ?_ ?_
  · rintro w rfl
    refine ⟨⟨by simp [start], ?_⟩, ⟨fun _ => rfl, rfl, rfl⟩, ?_⟩
    · simp [start, eventAt]
    · exact ⟨by simp [start], by simp [start], by simp [start],
        by simp [start], by simp [start]⟩
  · rintro w step w' - hw ⟨⟨hguard, rfl⟩, hclear⟩
    cases step with
    | publish data => exact hw.publish hguard hclear
    | deliver i env => exact hw.deliver hguard hclear

theorem Sound.exactlyOnce {messages : List Data} {s : Side} (h : Sound unmarshal messages s)
    (hacked : ∀ i < messages.length, i ∈ s.acked) :
    ExactlyOnce unmarshal messages s.rows := by
  classical
  have hwritten : ∀ i < messages.length, ∃ id, (i, id) ∈ s.written :=
    fun i hi => h.acked i (hacked i hi)
  choose! rowId hrowId using hwritten
  refine ⟨rowId, fun i hi => ?_, fun id row hrow => ?_, fun i hi j hj =>
    ⟨fun heq => ?_, fun hs => ?_⟩⟩
  · obtain ⟨e, row, he, hrow, -, -, hfilled, -⟩ := h.written i _ (hrowId i hi)
    exact ⟨e, row, he, hrow, hfilled⟩
  · obtain ⟨i, hi⟩ := h.rows id row hrow
    obtain ⟨e, -, he, -⟩ := h.written i id hi
    obtain ⟨data, hdata, -⟩ := Option.bind_eq_some_iff.mp he
    have hlt : i < messages.length := (List.getElem?_eq_some_iff.mp hdata).1
    exact ⟨i, hlt, h.once i _ _ (hrowId i hlt) hi⟩
  · exact h.apart i j (rowId i) (hrowId i hi) (heq ▸ hrowId j hj)
  · obtain rfl | ⟨e, hei, hej, hid⟩ := hs
    · rfl
    · have hkey : ∀ k < messages.length, eventAt unmarshal messages k = some e →
          rowId k = e.id := by
        intro k hk hek
        obtain ⟨other, row, hother, -, hrow, -, hfilled, -⟩ := h.written k _ (hrowId k hk)
        obtain rfl : e = other := Option.some.inj (hek.symm.trans hother)
        rw [← hrow, hfilled.2.1 hid]
      rw [hkey i hi hei, hkey j hj hej]

end Runs

/-- In a run where an id stands for one event, and what is written again carries its id and its
time, a store whose messages are all acknowledged has one row for each event, and the two stores
answer the same. -/
theorem stored_exactly_once {Data : Type} (unmarshal : Data → Option Event) (columns : Columns)
    {w : World Data}
    (h : ((system unmarshal columns).restrict (World.Clear unmarshal columns)).Reachable w) :
    ((∀ i < w.messages.length, i ∈ w.postgres.acked) →
      ExactlyOnce unmarshal w.messages w.postgres.rows) ∧
    ((∀ i < w.messages.length, i ∈ w.memory.acked) →
      ExactlyOnce unmarshal w.messages w.memory.rows) ∧
    SameRows columns w.postgres.rows w.memory.rows := by
  have hw := steady_of_reachable h
  exact ⟨(hw.same.sound hw.sound).exactlyOnce, hw.sound.exactlyOnce,
    sameRows_of_lookup hw.same.rows⟩

def sampleColumns : Columns := ⟨some, some, some, some⟩

theorem sample_keep (e : Event) : sampleColumns.Keep e := by
  have hnullable : ∀ value, nullable some value = some value := by
    intro value
    simp only [nullable, ite_eq_right_iff]
    rintro rfl
    rfl
  exact ⟨fun _ => rfl, rfl, hnullable _, rfl, rfl, hnullable _, fun _ => rfl⟩

theorem eventAt_some (messages : List Event) (i : Nat) :
    eventAt some messages i = messages[i]? := by
  simp [eventAt]

theorem mem_of_eventAt {messages : List Event} {i : Nat} {e : Event}
    (h : eventAt some messages i = some e) : e ∈ messages := by
  rw [eventAt_some] at h
  exact List.mem_of_getElem? h

def tenantA : String := "0b6ce9b2-7a52-4a0a-9be6-1f6ad3a7a001"

def namedEvent : Event :=
  ⟨"4f1b2c7e-0c4b-4c59-8a5e-6b1d2f3a4c01", tenantA, "", "export", "alice", "", 1000⟩

def unnamedEvent : Event := { namedEvent with id := "", createdAt := 0 }

/-- The clock, in nanoseconds, stands at a whole microsecond, which the column keeps. -/
def sampleEnv (n : Nat) (fault : Fault) (ackLost : Bool) : Env :=
  ⟨if n = 0 then "9d3e5a10-2b61-4a7f-b1c9-7e8f90a1b200" else "9d3e5a10-2b61-4a7f-b1c9-7e8f90a1b201",
    2000000 + 1000*n, fault, ackLost⟩

def sampleRun (steps : List (Step Event)) : World Event :=
  steps.foldl (World.next some sampleColumns) .start

/-- Two events, one of which has its ack lost while the other one's write does not come through. -/
def sampleSteps : List (Step Event) :=
  [.publish namedEvent, .publish unnamedEvent, .deliver 0 (sampleEnv 0 .none true),
    .deliver 1 (sampleEnv 0 .refused false), .deliver 0 (sampleEnv 0 .none false),
    .deliver 1 (sampleEnv 1 .none false)]

theorem sample_guard (w : World Event) (i : Nat) (env : Env) (hid : env.newString ≠ "")
    (hmsgs : w.messages.all fun e => e.id != env.newString)
    (hrows : w.postgres.rows.lookup env.newString = none ∧
      w.memory.rows.lookup env.newString = none) :
    w.guard some sampleColumns (.deliver i env) := by
  refine ⟨rfl, hid, fun j e he heq => ?_, hrows⟩
  simpa [heq] using List.all_eq_true.mp hmsgs e (mem_of_eventAt he)

theorem sample_clear (w : World Event) (i : Nat) (env : Env)
    (h : (w.messages[i]?).all fun e => (e.id != "" && e.createdAt != 0) ||
      (e.id == "" && !w.memory.written.any fun entry => entry.1 == i)) :
    w.Clear some sampleColumns (.deliver i env) := by
  refine fun e he _ => ⟨fun _ => rfl, fun j id hj hsame => ?_⟩
  rw [eventAt_some] at he
  rw [he] at h
  simp only [Option.all_some, Bool.or_eq_true, Bool.and_eq_true, bne_iff_ne, beq_iff_eq,
    Bool.not_eq_true', List.any_eq_false] at h
  obtain h | ⟨hid, hnot⟩ := h
  · exact h
  · obtain rfl | ⟨other, hother, -, hne⟩ := hsame
    · exact absurd rfl (hnot _ hj)
    · rw [eventAt_some, he] at hother
      cases hother
      exact absurd hid hne

theorem stored_exactly_once_sample :
    (sampleRun sampleSteps).memory.acked = [0, 1] ∧
      (sampleRun sampleSteps).memory.rows.keys.length = 2 ∧
      ExactlyOnce some (sampleRun sampleSteps).messages (sampleRun sampleSteps).memory.rows := by
  have hlegal : Legal (fun w step => guard some sampleColumns w step ∧
      World.Clear some sampleColumns w step) (next some sampleColumns) .start sampleSteps := by
    refine ⟨⟨⟨namedEvent, rfl, by decide⟩, ?_⟩, ⟨⟨unnamedEvent, rfl, by decide⟩, ?_⟩,
      ⟨sample_guard _ _ _ (by decide) (by decide) (by decide), sample_clear _ _ _ (by decide)⟩,
      ⟨sample_guard _ _ _ (by decide) (by decide) (by decide), sample_clear _ _ _ (by decide)⟩,
      ⟨sample_guard _ _ _ (by decide) (by decide) (by decide), sample_clear _ _ _ (by decide)⟩,
      ⟨sample_guard _ _ _ (by decide) (by decide) (by decide), sample_clear _ _ _ (by decide)⟩,
      trivial⟩
    · rintro e he
      refine ⟨sample_keep e, fun _ => ⟨fun i other hother => ?_, fun row hrow => ?_⟩⟩
      · exact absurd (mem_of_eventAt hother) List.not_mem_nil
      · cases hrow
    · rintro e he
      obtain rfl := Option.some.inj he
      exact ⟨sample_keep _, fun hid => absurd rfl hid⟩
  have hsample := stored_exactly_once some sampleColumns (hlegal.reachable_restrict (.init rfl))
  exact ⟨by decide +kernel, by decide +kernel, hsample.2.1 (by decide +kernel)⟩

def unnamedSteps : List (Step Event) :=
  [.publish unnamedEvent, .deliver 0 (sampleEnv 0 .none true), .deliver 0 (sampleEnv 1 .none false)]

def clashingSteps : List (Step Event) :=
  [.publish namedEvent, .publish { namedEvent with actor := "bob" },
    .deliver 0 (sampleEnv 0 .none false), .deliver 1 (sampleEnv 0 .none false)]

theorem unnamed_event_stored_twice :
    (sampleRun unnamedSteps).memory.acked = [0] ∧
      (sampleRun unnamedSteps).memory.rows.keys.length = 2 ∧
      (sampleRun clashingSteps).postgres.rows.lookup namedEvent.id = some namedEvent ∧
      (sampleRun clashingSteps).memory.rows.lookup namedEvent.id =
        some { namedEvent with actor := "bob" } ∧
      ¬∀ w : World Event, (system some sampleColumns).Reachable w →
        (∀ i < w.messages.length, i ∈ w.memory.acked) →
          ExactlyOnce some w.messages w.memory.rows := by
  have htwo : (sampleRun unnamedSteps).memory.rows.keys.length = 2 := by decide +kernel
  refine ⟨by decide +kernel, htwo, by decide +kernel, by decide +kernel, fun hall => ?_⟩
  have hlegal : Legal (guard some sampleColumns) (next some sampleColumns) .start
      unnamedSteps :=
    ⟨⟨unnamedEvent, rfl, by decide⟩, sample_guard _ _ _ (by decide) (by decide) (by decide),
      sample_guard _ _ _ (by decide) (by decide) (by decide), trivial⟩
  obtain ⟨rowId, -, honly, -⟩ := hall _ (hlegal.reachable (.init rfl)) (by decide +kernel)
  have hfirst : ∀ i < (sampleRun unnamedSteps).messages.length, i = 0 := by
    intro i hi
    have hlen : (sampleRun unnamedSteps).messages.length = 1 := by decide +kernel
    omega
  have hid : ∀ n,
      ((sampleRun unnamedSteps).memory.rows.lookup (sampleEnv n .none true).newString).isSome →
        rowId 0 = (sampleEnv n .none true).newString := by
    intro n hn
    obtain ⟨row, hrow⟩ := Option.isSome_iff_exists.mp hn
    obtain ⟨i, hi, hrowId⟩ := honly _ row hrow
    rw [← hrowId, hfirst i hi]
  have hsame := (hid 0 (by decide +kernel)).symm.trans (hid 1 (by decide +kernel))
  exact absurd hsame (by decide)

end Knowledge.AuditConsumer
