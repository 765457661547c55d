import Knowledge.Runtime.Connectors
import Knowledge.Runtime.UserMemory

/-!
What `sync_connector` and a webhook delivery ingest once a connector is removed or a scope is
forgotten. The sync looks its instance up again before it writes; the delivery only asks whether
the scope was forgotten.
-/

set_option autoImplicit false

namespace Knowledge.Runtime
open Knowledge.Sync (Uuid)
open Knowledge.Memory (ScopeId)
open Knowledge.Concurrent
open Knowledge.Transition

def Mark.Allows : Mark → Mark → Prop
  | .removed id, .ingested row => row.instanceId ≠ id
  | .forgot scope, .ingested row => row.scopeId ≠ scope
  | _, _ => True

instance : DecidableRel Mark.Allows := fun a b => by
  unfold Mark.Allows
  split <;> infer_instance

def Mark.ClosedIn {K : Type} (s : Connectors K) : Mark → Prop
  | .ingested _ => True
  | .removed id => s.registered id = false ∧ s.known.contains id = true
  | .forgot scope => s.isScopeForgotten scope = true

section

variable {K : Type} [DecidableEq K]

/-- The store stays open, and a random identifier is not known twice. -/
def DrawsFresh (t : Pool (Connectors K) ConnectorCall (ConnectorPhase K)) :
    Event ConnectorCall Reply (ConnectorAct K) → Prop
  | .act (.create _ _ _ id _ _ _) => t.shared.known.contains id = false
  | .act (.reopen _) => False
  | _ => True

instance (t : Pool (Connectors K) ConnectorCall (ConnectorPhase K))
    (event : Event ConnectorCall Reply (ConnectorAct K)) : Decidable (DrawsFresh t event) := by
  unfold DrawsFresh
  split <;> infer_instance

def ingestionSystem (host : Host K) :
    System (Pool (Connectors K) ConnectorCall (ConnectorPhase K))
      (Event ConnectorCall Reply (ConnectorAct K)) :=
  (connectorCode host).system
    (fun s => s.history = [] ∧ ∀ id, s.registered id = true → s.known.contains id = true) DrawsFresh

/-- A delivery writes only while its instance is registered, unless it has nothing to write or its
scope was forgotten. -/
def Rechecked (s : Connectors K) (_c : ConnectorCall) (p : ConnectorPhase K) (_x : Reply) : Prop :=
  match p with
  | .delivering snap events => s.registered snap.instanceId = true ∨
      s.isScopeForgotten snap.scope = true ∨
      (events.all fun event => (eventToEvidenceBody event).isNone) = true
  | _ => True

instance (s : Connectors K) (c : ConnectorCall) (p : ConnectorPhase K) (x : Reply) :
    Decidable (Rechecked s c p x) := by
  unfold Rechecked
  split <;> infer_instance

end

namespace Connectors

section

variable {K : Type} {s s' : Connectors K}

/-- What was removed is not registered, nor will its id be drawn again; what was forgotten still
is. -/
structure Closed (s : Connectors K) : Prop where
  removed : ∀ id, Mark.removed id ∈ s.history →
    s.registered id = false ∧ s.known.contains id = true
  forgot : ∀ scope, Mark.forgot scope ∈ s.history → s.isScopeForgotten scope = true
  known : ∀ id, s.registered id = true → s.known.contains id = true

theorem Closed.extend (h : Closed s) (marks : List Mark)
    (hmarks : ∀ mark ∈ marks, mark.ClosedIn s') (hhistory : s'.history = s.history ++ marks)
    (hregistered : ∀ id, s'.registered id = true → s.registered id = true)
    (hforgotten : ∀ scope, s.isScopeForgotten scope = true → s'.isScopeForgotten scope = true)
    (hknown : ∀ id, s.known.contains id = true → s'.known.contains id = true) : Closed s' := by
  refine ⟨fun id hid => ?_, fun scope hscope => ?_, fun id hid => hknown id
    (h.known id (hregistered id hid))⟩
  · rw [hhistory, List.mem_append] at hid
    obtain hid | hid := hid
    · obtain ⟨hreg, hdr⟩ := h.removed id hid
      refine ⟨?_, hknown id hdr⟩
      by_contra hne
      rw [hregistered id (by simpa using hne)] at hreg
      cases hreg
    · exact hmarks _ hid
  · rw [hhistory, List.mem_append] at hscope
    obtain hscope | hscope := hscope
    · exact hforgotten scope (h.forgot scope hscope)
    · exact hmarks _ hscope

theorem Closed.ingest (h : Closed s) {rows : List IngestedRow} (hs : Tracks s s' rows) :
    Closed s' := by
  refine h.extend (rows.map .ingested) ?_ (by rw [hs.rest])
    (fun id hid => by rwa [← hs.registered]) (fun _ hscope => ?_) (fun _ hid => ?_)
  · intro mark hmark
    obtain ⟨row, -, rfl⟩ := List.mem_map.mp hmark
    trivial
  · rw [hs.rest]
    exact hscope
  · rw [hs.rest]
    exact hid

theorem Closed.effect {p : ConnectorPhase K} {x : Reply} (h : Closed s)
    (heffect : Effect s x p s') : Closed s' := by
  cases heffect with
  | tracked hs hrows => exact h.ingest hs
  | granted => exact ⟨h.removed, h.forgot, h.known⟩
  | refreshed => exact ⟨h.removed, h.forgot, h.known⟩
  | delivered => exact h.ingest (.ingest s _)

theorem pairwise_ingest (h : Closed s) (hpairs : s.history.Pairwise Mark.Allows)
    {rows : List IngestedRow} (hrows : ∀ row ∈ rows, s.registered row.instanceId = true ∧
      s.isScopeForgotten row.scopeId = false) :
    (s.history ++ rows.map Mark.ingested).Pairwise Mark.Allows := by
  rw [List.pairwise_append]
  refine ⟨hpairs, ?_, fun old hold new hnew => ?_⟩
  · rw [List.pairwise_map]
    exact List.pairwise_of_forall fun _ _ => trivial
  · obtain ⟨row, hrow, rfl⟩ := List.mem_map.mp hnew
    obtain ⟨hreg, hfor⟩ := hrows row hrow
    cases old with
    | ingested => trivial
    | removed id =>
      have := (h.removed id hold).1
      rintro rfl
      simp_all
    | forgot scope =>
      have := h.forgot scope hold
      rintro rfl
      simp_all

theorem pairwise_effect {p : ConnectorPhase K} {x : Reply} (h : Closed s)
    (hpairs : s.history.Pairwise Mark.Allows) (heffect : Effect s x p s') {c : ConnectorCall}
    (hrechecked : Rechecked s c p x) : s'.history.Pairwise Mark.Allows := by
  cases heffect with
  | tracked hs hrows =>
    rw [hs.rest]
    exact pairwise_ingest h hpairs hrows
  | granted => exact hpairs
  | refreshed => exact hpairs
  | delivered hforgotten hrows hnone =>
    refine pairwise_ingest h hpairs fun row hrow => ?_
    obtain ⟨hid, hscope⟩ := hrows row hrow
    rw [hid, hscope]
    refine ⟨?_, hforgotten⟩
    obtain hreg | hfor | hbodiless := hrechecked
    · exact hreg
    · rw [hforgotten] at hfor
      cases hfor
    · rw [hnone hbodiless] at hrow
      cases hrow

theorem pairwise_close {history : List Mark} (h : history.Pairwise Mark.Allows) {mark : Mark}
    (hmark : ∀ row, mark ≠ .ingested row) : (history ++ [mark]).Pairwise Mark.Allows := by
  rw [List.pairwise_append]
  refine ⟨h, List.pairwise_singleton _ _, fun old _ new hnew => ?_⟩
  rw [List.mem_singleton] at hnew
  subst hnew
  cases new with
  | ingested row => exact absurd rfl (hmark row)
  | _ => cases old <;> trivial

variable [DecidableEq K] {host : Host K}

/-- A connector is created, under the id it was given, or nothing happens. -/
theorem createConnector_cases (host : Host K) (s : Connectors K) (kind : K) (scopeId : String) (config : Answer)
    (id : Uuid) (builds : Except FfiError Unit) (registers saves : Answer) :
    (s.createConnector host kind scopeId config id builds registers saves).1 = s ∨
    ∃ scope, (s.createConnector host kind scopeId config id builds registers saves).1 = { s with
      instanceRows := s.instanceRows.insert id ⟨kind, scope, .new⟩
      instances := s.instances.insert id ⟨kind, scope, .new⟩
      connectors := s.connectors.insert id ()
      known := id :: s.known } := by
  unfold createConnector
  split
  · exact .inl rfl
  · rename_i scope _
    split
    · exact .inl rfl
    split
    · exact .inl rfl
    split
    · exact .inl rfl
    split
    · exact .inl rfl
    split
    · exact .inl rfl
    split
    · exact .inl rfl
    · exact .inr ⟨scope, rfl⟩

theorem Closed.create (h : Closed s) (kind : K) (scopeId : String) (config : Answer) {id : Uuid}
    (builds : Except FfiError Unit) (registers saves : Answer)
    (hfresh : s.known.contains id = false) :
    Closed (s.createConnector host kind scopeId config id builds registers saves).1 := by
  obtain hs | ⟨scope, hs⟩ :=
    createConnector_cases host s kind scopeId config id builds registers saves
  · rwa [hs]
  · rw [hs]
    have hregistered : ∀ id', registered { s with
        instanceRows := s.instanceRows.insert id ⟨kind, scope, .new⟩
        instances := s.instances.insert id ⟨kind, scope, .new⟩
        connectors := s.connectors.insert id ()
        known := id :: s.known } id' = (decide (id' = id) || s.registered id') := by
      intro id'
      simp only [registered, Table.lookup_insert_ite]
      split <;> simp_all
    refine ⟨fun id' hid' => ?_, h.forgot, fun id' hid' => ?_⟩
    · obtain ⟨hreg, hdr⟩ := h.removed id' hid'
      have hne : id' ≠ id := by
        rintro rfl
        rw [hdr] at hfresh
        cases hfresh
      simp_all
    · rw [hregistered] at hid'
      have := h.known id'
      simp_all
      tauto

omit [DecidableEq K] in
theorem registered_erase (s : Connectors K) (id id' : Uuid) :
    ((s.instances.erase id).lookup id').isSome = (decide (id' ≠ id) && s.registered id') := by
  rw [Table.lookup_erase_ite, registered]
  split <;> simp_all

omit [DecidableEq K] in
theorem removeConnector_cases (host : Host K) (s : Connectors K) (instanceId : String)
    (deleteInstance deleteToken : Answer) :
    (∃ e, s.removeConnector host instanceId deleteInstance deleteToken = (s, .error e)) ∨
    ∃ id rows tokens r, s.removeConnector host instanceId deleteInstance deleteToken = ({ s with
        instances := s.instances.erase id
        connectors := s.connectors.erase id
        tokenVault := s.tokenVault.erase id
        instanceRows := rows
        tokenRows := tokens }, r) ∧ (∀ id', r = .ok id' → id' = id ∧
          rows = s.instanceRows.erase id ∧ tokens = s.tokenRows.erase id) := by
  unfold removeConnector
  split
  · exact .inl ⟨_, rfl⟩
  · rename_i id _
    right
    cases deleteInstance with
    | error e => exact ⟨id, _, _, _, rfl, by simp⟩
    | ok =>
      cases deleteToken with
      | error e => exact ⟨id, _, _, _, rfl, by simp⟩
      | ok => exact ⟨id, _, _, _, rfl, by simp +contextual⟩

omit [DecidableEq K] in
theorem Closed.remove (h : Closed s) {id : Uuid} {rows : Table Uuid (ConnectorInstance K)}
    {tokens : Table Uuid (ScopeId × Lineage)} : Closed { s with
      instances := s.instances.erase id
      connectors := s.connectors.erase id
      tokenVault := s.tokenVault.erase id
      instanceRows := rows
      tokenRows := tokens } := by
  refine h.extend [] (by simp) (by simp) (fun id' hid' => ?_) (fun _ hs => hs)
    (fun _ hid' => hid')
  rw [registered, registered_erase, Bool.and_eq_true] at hid'
  exact hid'.2

omit [DecidableEq K] in
theorem registered_forgetScope (s : Connectors K) (scope : ScopeId)
    (deleteInstances deleteTokens : Answer) {id : Uuid}
    (h : (s.forgetScope scope deleteInstances deleteTokens).registered id = true) :
    s.registered id = true := by
  have hinstances : (s.forgetScope scope deleteInstances deleteTokens).instances =
      s.instances.filter fun _ inst => inst.scopeId ≠ scope := by
    cases deleteInstances <;> cases deleteTokens <;> rfl
  rw [registered, hinstances, Table.lookup_filter] at h
  rw [registered]
  cases hid : s.instances.lookup id with
  | none => simp [hid] at h
  | some inst => rfl

omit [DecidableEq K] in
theorem Closed.forget (h : Closed s) (scope : ScopeId) (deleteInstances deleteTokens : Answer) :
    Closed { s.forgetScope scope deleteInstances deleteTokens with
      history := (s.forgetScope scope deleteInstances deleteTokens).history ++ [.forgot scope] } := by
  have hrest : (s.forgetScope scope deleteInstances deleteTokens).history = s.history ∧
      (s.forgetScope scope deleteInstances deleteTokens).known = s.known ∧
      (s.forgetScope scope deleteInstances deleteTokens).forgotten = scope :: s.forgotten := by
    cases deleteInstances <;> cases deleteTokens <;> exact ⟨rfl, rfl, rfl⟩
  obtain ⟨hhistory, hknown, hforgotten⟩ := hrest
  refine h.extend [.forgot scope] ?_ (by rw [hhistory])
    (fun id hid => registered_forgetScope s scope deleteInstances deleteTokens hid)
    (fun scope' hscope' => ?_) (fun id hid => by rwa [hknown])
  · intro mark hmark
    rw [List.mem_singleton] at hmark
    subst hmark
    simp [Mark.ClosedIn, isScopeForgotten, hforgotten]
  · rw [isScopeForgotten, List.contains_iff_mem] at hscope'
    simp [isScopeForgotten, hforgotten, hscope']

theorem Closed.act (h : Closed s) {a : ConnectorAct K} (hreopen : ∀ answers, a ≠ .reopen answers)
    (hfresh : ∀ kind scopeId config id builds registers saves,
      a = .create kind scopeId config id builds registers saves → s.known.contains id = false) :
    Closed (s.act host a) := by
  cases a with
  | create kind scopeId config id builds registers saves =>
    exact h.create kind scopeId config builds registers saves (hfresh _ _ _ _ _ _ _ rfl)
  | remove instanceId deleteInstance deleteToken =>
    simp only [Connectors.act]
    obtain ⟨e, hs⟩ | ⟨id, rows, tokens, r, hs, hr⟩ :=
      removeConnector_cases host s instanceId deleteInstance deleteToken
    · rw [hs]
      exact h
    · rw [hs]
      cases r with
      | error e => exact h.remove
      | ok id' =>
        obtain ⟨rfl, -⟩ := hr id' rfl
        refine h.remove.extend [.removed id'] ?_ rfl (fun _ hid => hid)
          (fun _ hscope => hscope) ?_
        · intro mark hmark
          rw [List.mem_singleton] at hmark
          subst hmark
          simp only [Mark.ClosedIn, registered, registered_erase]
          simp
        · simp +contextual
  | forget scope deleteInstances deleteTokens => exact h.forget scope deleteInstances deleteTokens
  | reopen answers => exact absurd rfl (hreopen answers)

theorem pairwise_act (hpairs : s.history.Pairwise Mark.Allows) (a : ConnectorAct K) :
    (s.act host a).history.Pairwise Mark.Allows := by
  cases a with
  | create kind scopeId config id builds registers saves =>
    simp only [Connectors.act]
    obtain hs | ⟨scope, hs⟩ :=
      createConnector_cases host s kind scopeId config id builds registers saves
    all_goals rwa [hs]
  | remove instanceId deleteInstance deleteToken =>
    simp only [Connectors.act]
    obtain ⟨e, hs⟩ | ⟨id, rows, tokens, r, hs, hr⟩ :=
      removeConnector_cases host s instanceId deleteInstance deleteToken
    · rwa [hs]
    · rw [hs]
      cases r with
      | error e => exact hpairs
      | ok id' => exact pairwise_close hpairs (by simp)
  | forget scope deleteInstances deleteTokens =>
    have hhistory : (s.forgetScope scope deleteInstances deleteTokens).history = s.history := by
      cases deleteInstances <;> cases deleteTokens <;> rfl
    simp only [Connectors.act, hhistory]
    exact pairwise_close hpairs (by simp)
  | reopen answers =>
    have hhistory : (s.rehydrate answers).history = s.history := by
      unfold rehydrate
      split
      · rfl
      · dsimp only
        split <;> rfl
    simp only [Connectors.act, hhistory]
    exact hpairs

end

end Connectors

/-- In a run in which no delivery writes for an instance that is gone, nothing is ingested on behalf
of an instance after its removal was acknowledged, nor into a scope after it was forgotten. -/
theorem quiet_after_removal {K : Type} [DecidableEq K] (host : Host K)
    {t : Pool (Connectors K) ConnectorCall (ConnectorPhase K)}
    (h : ((ingestionSystem host).restrict (Code.Each Rechecked)).Reachable t) :
    t.shared.history.Pairwise Mark.Allows := by
  have hinv := Code.invariant
    (fun s => Connectors.Closed s ∧ s.history.Pairwise Mark.Allows) (fun _ _ _ => True)
    ?_ ?_ ?_ ?_ ?_ h
  · exact hinv.1.2
  · intro s ⟨hhistory, hknown⟩
    refine ⟨⟨by simp [hhistory], by simp [hhistory], hknown⟩, by simp [hhistory]⟩
  · simp
  · intro s c p x ⟨hclosed, hpairs⟩ _ hrechecked
    have heffect := Connectors.step_effect host s c p x
    exact ⟨⟨hclosed.effect heffect, Connectors.pairwise_effect hclosed hpairs heffect hrechecked⟩,
      trivial⟩
  · simp
  · intro t a hguard ⟨hclosed, hpairs⟩
    refine ⟨⟨hclosed.act ?_ ?_, Connectors.pairwise_act hpairs a⟩, fun _ _ _ _ => trivial⟩
    · rintro answers rfl
      exact hguard
    · rintro kind scopeId config id builds registers saves rfl
      exact hguard

/-- A connector is created and a webhook for it comes in, which its handler takes for a document. -/
def webhookTaken : List (Event ConnectorCall Reply (ConnectorAct Unit)) :=
  [.act (.create () "00000000-0000-4000-8000-000000000007" (.ok ()) 0x4000800000000000000b
    (.ok ()) (.ok ()) (.ok ())),
   .call (.webhook 0x4000800000000000000b "slack"), .advance 0 quietReply,
   .advance 0 { quietReply with events := .ok [.documentCreated "D1" 90] }]

def removesIt : Event ConnectorCall Reply (ConnectorAct Unit) :=
  .act (.remove "00000000-0000-4000-8000-00000000000b" (.ok ()) (.ok ()))

def afterConnectors (events : List (Event ConnectorCall Reply (ConnectorAct Unit))) :
    Pool (Connectors Unit) ConnectorCall (ConnectorPhase Unit) :=
  events.foldl (connectorCode (slackHost sampleParser)).next ⟨.empty Unit, []⟩

theorem empty_ingestion_init :
    (ingestionSystem (slackHost sampleParser)).init ⟨.empty Unit, []⟩ := by
  refine ⟨⟨rfl, fun id hid => ?_⟩, rfl⟩
  cases hid

theorem quiet_after_removal_delivered :
    (afterConnectors (webhookTaken ++ [.advance 0 quietReply, removesIt])).shared.history =
      [.ingested ⟨0x4000800000000000000b, homeScope, ⟨"document_created", "D1", 90⟩, "Slack", 1⟩,
        .removed 0x4000800000000000000b] ∧
    (afterConnectors (webhookTaken ++ [.advance 0 quietReply, removesIt])).shared.history.Pairwise
      Mark.Allows := by
  refine ⟨by decide +kernel, quiet_after_removal (slackHost sampleParser) ?_⟩
  refine Legal.reachable_restrict ?_ (.init empty_ingestion_init)
  change Legal (fun t event => DrawsFresh t event ∧ Code.Each Rechecked t event) _ _ _
  decide +kernel

/-- The connector is removed while its webhook is being handled, and the event is ingested all the
same. -/
theorem webhook_outlives_removal :
    ¬ ∀ t, (ingestionSystem (slackHost sampleParser)).Reachable t →
      t.shared.history.Pairwise Mark.Allows := by
  intro hall
  have hreached : (ingestionSystem (slackHost sampleParser)).Reachable
      (afterConnectors (webhookTaken ++ [removesIt, .advance 0 quietReply])) := by
    refine Legal.reachable ?_ (.init empty_ingestion_init)
    decide +kernel
  have hpairs := hall _ hreached
  revert hpairs
  decide +kernel

end Knowledge.Runtime
