import Knowledge.Substrate.Client

/-!
What `route` of `server/internal/substrate/client.go` makes of the answers it gets. A call takes
its order from the belief it starts with; other calls may move the belief while it runs.
-/

set_option autoImplicit false

namespace Knowledge.Substrate

variable {α : Type}

def ask (answer : Nat → Except HttpError α) (idx : Nat) (asked : List Nat) :
    Except HttpError α × List Nat :=
  (answer idx, asked ++ [idx])

def Misses (result : Except HttpError α) : Prop :=
  ∃ err, result = .error err ∧ (isNotFound err = true ∨ isFailoverErr err = true)

def passedOver (write : Bool) : Except HttpError α → Bool
  | .ok _ => false
  | .error err => isFailoverErr err || (!write && isNotFound err)

theorem passedOver_read {result : Except HttpError α} :
    passedOver false result = true ↔ Misses result := by
  cases result <;> simp [passedOver, Misses, or_comm]

theorem passedOver_write {result : Except HttpError α} :
    passedOver true result = true ↔ ∃ err, result = .error err ∧ isFailoverErr err = true := by
  cases result <;> simp [passedOver]

theorem split_cases {before after before' after' : List Nat} {i j : Nat}
    (h : before ++ i :: after = before' ++ j :: after') :
    (i ∈ before' ∧ after ≠ []) ∨ (before = before' ∧ i = j ∧ after = after') ∨
      (j ∈ before ∧ after' ≠ []) := by
  induction before generalizing before' with
  | nil => cases before' with
    | nil => simp_all
    | cons k before' =>
      obtain ⟨rfl, rfl⟩ := List.cons.inj h
      simp
  | cons k before ih => cases before' with
    | nil =>
      obtain ⟨rfl, rfl⟩ := List.cons.inj h
      simp
    | cons k' before' =>
      obtain ⟨rfl, htail⟩ := List.cons.inj h
      rcases ih htail with ⟨hi, hne⟩ | ⟨rfl, rfl, rfl⟩ | ⟨hj, hne⟩
      · exact .inl ⟨List.mem_cons_of_mem _ hi, hne⟩
      · exact .inr (.inl ⟨rfl, rfl, rfl⟩)
      · exact .inr (.inr ⟨List.mem_cons_of_mem _ hj, hne⟩)

/-- The node that decides: all before it were passed over, and it is not, or is the last. -/
structure Decides (write : Bool) (answer : Nat → Except HttpError α) (before : List Nat) (idx : Nat)
    (after : List Nat) : Prop where
  before : ∀ j ∈ before, passedOver write (answer j) = true
  decisive : after = [] ∨ passedOver write (answer idx) = false

theorem exists_decides (write : Bool) (answer : Nat → Except HttpError α) {order : List Nat}
    (h : order ≠ []) :
    ∃ before idx after, order = before ++ idx :: after ∧
      Decides write answer before idx after := by
  induction order with
  | nil => exact absurd rfl h
  | cons i rest ih =>
    by_cases hstop : rest = [] ∨ passedOver write (answer i) = false
    · exact ⟨[], i, rest, rfl, by simp, hstop⟩
    · obtain ⟨hrest, hover⟩ := not_or.mp hstop
      obtain ⟨before, idx, after, rfl, hd⟩ := ih hrest
      refine ⟨i :: before, idx, after, rfl, ?_, hd.decisive⟩
      intro j hj
      rcases List.mem_cons.mp hj with rfl | hj
      · simpa using hover
      · exact hd.before j hj

namespace Client

variable [Inhabited α]

theorem tryNodes_decides {write : Bool} {answer : Nat → Except HttpError α}
    {before after : List Nat} {idx : Nat} (h : Decides write answer before idx after)
    (lastErr : Option HttpError) (c : Client) (asked : List Nat) :
    tryNodes write (ask answer) (before ++ idx :: after) lastErr c asked =
      (answer idx, if write && (answer idx).isOk then c.setPrimary idx else c,
        asked ++ (before ++ [idx])) := by
  induction before generalizing lastErr asked with
  | nil =>
    simp only [List.nil_append, tryNodes, ask]
    cases hanswer : answer idx with
    | ok row => cases write <;> simp [Except.isOk, Except.toBool]
    | error err =>
      have hstop : ¬ ((!after.isEmpty && (isFailoverErr err || (!write && isNotFound err))) =
          true) := by
        rcases h.decisive with rfl | hover
        · simp
        · rw [hanswer] at hover
          simp only [passedOver] at hover
          simp [hover]
      simp [hstop, Except.isOk, Except.toBool]
  | cons i before ih =>
    have hover := h.before i List.mem_cons_self
    cases hanswer : answer i with
    | ok row => simp [hanswer, passedOver] at hover
    | error err =>
      rw [hanswer] at hover
      simp only [passedOver] at hover
      simp only [List.cons_append, tryNodes, ask, hanswer, hover]
      rw [if_pos (by simp), ih ⟨fun j hj => h.before j (List.mem_cons_of_mem _ hj), h.decisive⟩]
      simp

theorem nodup_nodeOrder (c : Client) (write : Bool) : (c.nodeOrder write).Nodup := by
  have hothers : ((List.range c.nodes).filter (· ≠ c.primary)).Nodup :=
    List.nodup_range.filter _
  have hprimary : c.primary ∉ (List.range c.nodes).filter (· ≠ c.primary) := by simp
  cases write
  · exact List.nodup_append.mpr ⟨hothers, List.nodup_singleton _, fun i hi j hj => by
      rintro rfl
      rw [List.mem_singleton.mp hj] at hi
      exact hprimary hi⟩
  · exact List.nodup_cons.mpr ⟨hprimary, hothers⟩

theorem nodeOrder_ne_nil (c : Client) (write : Bool) : c.nodeOrder write ≠ [] := by
  cases write <;> simp [nodeOrder]

theorem last_asked {c : Client} {before : List Nat} {idx : Nat}
    (h : c.nodeOrder false = before ++ [idx]) :
    idx = c.primary ∧ ∀ i < c.nodes, i ≠ c.primary → i ∈ before := by
  have horder : (List.range c.nodes).filter (· ≠ c.primary) ++ [c.primary] = before ++ [idx] := h
  have hparts := List.append_inj' horder rfl
  refine ⟨by simpa using hparts.2.symm, fun i hi hne => ?_⟩
  rw [← hparts.1]
  simp [hi, hne]

end Client

/-- A call asks nodes in its order, each at most once. -/
structure AsksInOrder (order asked : List Nat) : Prop where
  inOrder : asked <+: order
  once : asked.Nodup

structure ReadVerdict (c : Client) (answer : Nat → Except HttpError α) (out : Except HttpError α)
    (asked : List Nat) : Prop where
  asks : AsksInOrder (c.nodeOrder false) asked
  notFound : ∀ err, out = .error err → isNotFound err = true →
    answer c.primary = .error err ∧ ∀ i < c.nodes, i ≠ c.primary → Misses (answer i)
  firstRow : ∀ before idx after row, c.nodeOrder false = before ++ idx :: after →
    answer idx = .ok row → (∀ j ∈ before, ∀ other, answer j ≠ .ok other) →
    out = .ok row ∨ ∃ j ∈ before, ∃ err, answer j = .error err ∧ isNotFound err = false ∧
      isFailoverErr err = false ∧ out = .error err
  row : ∀ row, out = .ok row → ∃ before idx after, c.nodeOrder false = before ++ idx :: after ∧
    answer idx = .ok row ∧ ∀ j ∈ before, Misses (answer j)

/-- `held` is the client as the other calls have left it when this one ends. -/
structure WriteVerdict (c held : Client) (answer : Nat → Except HttpError α)
    (out : Except HttpError α) (asked : List Nat) (final : Client) : Prop where
  asks : AsksInOrder (c.nodeOrder true) asked
  accepted : ∀ row, out = .ok row → ∃ before idx, asked = before ++ [idx] ∧
    answer idx = .ok row ∧ final.primary = idx ∧ final.nodes = held.nodes
  refused : ∀ err, out = .error err → final = held
  pinned : ∀ before idx after, asked = before ++ idx :: after → after ≠ [] →
    ∃ err, answer idx = .error err ∧ isFailoverErr err = true

theorem asksInOrder {c : Client} {write : Bool} {before after : List Nat} {idx : Nat}
    (h : c.nodeOrder write = before ++ idx :: after) :
    AsksInOrder (c.nodeOrder write) (before ++ [idx]) := by
  have hasked : before ++ [idx] <+: c.nodeOrder write := ⟨after, by simp [h]⟩
  exact ⟨hasked, (c.nodup_nodeOrder write).sublist hasked.sublist⟩

theorem readVerdict {c : Client} {answer : Nat → Except HttpError α} {before after : List Nat}
    {idx : Nat} (horder : c.nodeOrder false = before ++ idx :: after)
    (h : Decides false answer before idx after) :
    ReadVerdict c answer (answer idx) (before ++ [idx]) := by
  have hmisses : ∀ j ∈ before, Misses (answer j) := fun j hj => passedOver_read.mp (h.before j hj)
  refine ⟨asksInOrder horder, fun err herr hnotFound => ?_,
    fun before' idx' after' row hsplit hrow hnone => ?_,
    fun row hrow => ⟨before, idx, after, horder, hrow, hmisses⟩⟩
  · have hlast : after = [] := by
      refine h.decisive.resolve_right fun hover => ?_
      simp [herr, passedOver, hnotFound] at hover
    subst hlast
    obtain ⟨rfl, hothers⟩ := Client.last_asked horder
    exact ⟨herr, fun i hi hne => hmisses i (hothers i hi hne)⟩
  · rcases split_cases (horder.symm.trans hsplit) with ⟨hmem, hafter⟩ | ⟨_, rfl, _⟩ | ⟨hmem, _⟩
    · have hover := h.decisive.resolve_left hafter
      cases hanswer : answer idx with
      | ok other => exact absurd hanswer (hnone idx hmem other)
      | error err =>
        simp only [hanswer, passedOver, Bool.not_false, Bool.true_and,
          Bool.or_eq_false_iff] at hover
        exact .inr ⟨idx, hmem, err, hanswer, hover.2, hover.1, rfl⟩
    · exact .inl hrow
    · have hover := h.before idx' hmem
      simp [hrow, passedOver] at hover

theorem writeVerdict {c held : Client} {answer : Nat → Except HttpError α}
    {before after : List Nat} {idx : Nat} (horder : c.nodeOrder true = before ++ idx :: after)
    (h : Decides true answer before idx after) :
    WriteVerdict c held answer (answer idx) (before ++ [idx])
      (if (answer idx).isOk then held.setPrimary idx else held) := by
  refine ⟨asksInOrder horder, fun row hrow => ⟨before, idx, rfl, hrow, ?_⟩, fun err herr => ?_,
    fun sent j later hasked hlater => ?_⟩
  · simp [hrow, Except.isOk, Except.toBool, Client.setPrimary]
  · simp [herr, Except.isOk, Except.toBool]
  · rcases split_cases hasked with ⟨_, hnil⟩ | ⟨_, _, rfl⟩ | ⟨hmem, _⟩
    · exact absurd rfl hnil
    · exact absurd rfl hlater
    · exact passedOver_write.mp (h.before j hmem)

/-- One call of `route`, by the answers of the nodes, whatever the other calls do to the belief
meanwhile. -/
theorem route_verdict [Inhabited α] (c held : Client) (method : Method) (path : String)
    (answer : Nat → Except HttpError α) :
    let write := !isReadRoute method path
    let ended := Client.tryNodes write (ask answer) (c.nodeOrder write) none held []
    (write = false → ReadVerdict c answer ended.1 ended.2.2 ∧ ended.2.1 = held) ∧
      (write = true → WriteVerdict c held answer ended.1 ended.2.2 ended.2.1) ∧
      (held = c → c.route method path (ask answer) [] = ended) := by
  intro write ended
  obtain ⟨before, idx, after, horder, hdecides⟩ :=
    exists_decides write answer (c.nodeOrder_ne_nil write)
  have hended : ended = (answer idx,
      if write && (answer idx).isOk then held.setPrimary idx else held, before ++ [idx]) := by
    simp only [ended, horder, Client.tryNodes_decides hdecides, List.nil_append]
  refine ⟨fun hread => ?_, fun hwrite => ?_, fun hheld => ?_⟩
  · rw [hread] at horder hdecides hended
    rw [hended]
    exact ⟨readVerdict horder hdecides, rfl⟩
  · rw [hwrite] at horder hdecides hended
    rw [hended]
    exact writeVerdict horder hdecides
  · subst hheld
    rfl

/-- The believed primary is down and its neighbour takes the writes. -/
def takenOver (idx : Nat) : Except HttpError Nat :=
  if idx = 0 then .error ⟨503, "SubstrateUnavailable"⟩ else .ok idx

theorem route_verdict_takenOver :
    let ended := (Client.mk 3 0).route .post "/ingest" (ask takenOver) []
    ended.1 = .ok 1 ∧ ended.2.2 = [0, 1] ∧ ended.2.1.primary = 1 := by
  intro ended
  obtain ⟨-, hwrite, hroute⟩ := route_verdict ⟨3, 0⟩ ⟨3, 0⟩ .post "/ingest" takenOver
  obtain ⟨before, idx, hasked, -, hprimary, -⟩ := (hwrite (by decide)).accepted 1 rfl
  rw [← hroute rfl] at hasked hprimary
  have hlast : ([0] : List Nat) ++ [1] = before ++ [idx] := hasked
  have hidx : idx = 1 := by simpa using (List.append_inj' hlast rfl).2.symm
  exact ⟨rfl, rfl, hprimary.trans hidx⟩

end Knowledge.Substrate
