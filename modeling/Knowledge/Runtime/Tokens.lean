import Knowledge.Runtime.Ingestion

/-!
The token vault against its table, and whether a stored token comes from the last authentication
that was acknowledged. A refresh reads a token, asks the provider without the lock, and writes over
whatever is stored by then.
-/

set_option autoImplicit false

namespace Knowledge.Runtime
open Knowledge.Sync (Uuid)
open Knowledge.Memory (ScopeId)
open Knowledge.Concurrent
open Knowledge.Transition

namespace Connectors

section

variable {K : Type}

/-- The vault holds what the table holds, each token descends from an acknowledged authentication
of its instance, and a registered instance keeps one that is as late as any of them. -/
structure Settled (s : Connectors K) : Prop where
  synced : ∀ id, s.tokenVault.lookup id = (s.tokenRows.lookup id).map Prod.snd
  granted : ∀ id l, s.tokenVault.lookup id = some l →
    s.acknowledged[l.serial]? = some (id, l.granted)
  latest : ∀ (n : Nat) id token, s.acknowledged[n]? = some (id, token) →
    s.registered id = true → ∃ l, s.tokenVault.lookup id = some l ∧ n ≤ l.serial
  owned : ∀ id, (s.tokenVault.lookup id).isSome = true → s.registered id = true
  heard : ∀ (n : Nat) id token, s.acknowledged[n]? = some (id, token) →
    s.known.contains id = true

end

end Connectors

open Connectors

section

variable {K : Type} [DecidableEq K]

/-- Scopes are not forgotten, the store stays open, and rows are deleted when they have to be. -/
def DeletesRows (t : Pool (Connectors K) ConnectorCall (ConnectorPhase K)) :
    Event ConnectorCall Reply (ConnectorAct K) → Prop
  | .act (.create _ _ _ id _ _ _) => t.shared.known.contains id = false
  | .act (.remove _ deleteInstance deleteToken) =>
    deleteInstance.isOk = true ∧ deleteToken.isOk = true
  | .act (.forget _ _ _) | .act (.reopen _) => False
  | _ => True

instance (t : Pool (Connectors K) ConnectorCall (ConnectorPhase K))
    (event : Event ConnectorCall Reply (ConnectorAct K)) : Decidable (DeletesRows t event) :=
  match event with
  | .act (.create _ _ _ _ _ _ _) => inferInstanceAs (Decidable (_ = false))
  | .act (.remove _ _ _) => inferInstanceAs (Decidable (_ = true ∧ _ = true))
  | .act (.forget _ _ _) | .act (.reopen _) => isFalse id
  | .call _ | .advance _ _ => isTrue trivial

def tokenSystem (host : Host K) :
    System (Pool (Connectors K) ConnectorCall (ConnectorPhase K))
      (Event ConnectorCall Reply (ConnectorAct K)) :=
  (connectorCode host).system (fun s => s.Settled ∧ s.history = [] ∧
    ∀ id, s.registered id = true → s.known.contains id = true) DeletesRows

/-- A refreshed token is written only where the token that is stored, if any, still descends from
the authentication of the one that was refreshed. -/
def SameGrant (s : Connectors K) (_c : ConnectorCall) (p : ConnectorPhase K) (x : Reply) : Prop :=
  match p with
  | .storing job _ => x.saves.isOk = true →
      (s.tokenVault.lookup job.instanceId).all (fun l => l.serial = job.current.serial) = true
  | _ => True

instance (s : Connectors K) (c : ConnectorCall) (p : ConnectorPhase K) (x : Reply) :
    Decidable (SameGrant s c p x) :=
  match p with
  | .storing _ _ => inferInstanceAs (Decidable (_ = true → _ = true))
  | .called _ | .exchanging _ _ | .granting _ _ _ | .building _ | .refreshing _ | .dispatching _
  | .failing _ _ _ | .persisting _ _ | .handling _ | .delivering _ _ | .returned _
  | .delivered _ => isTrue trivial

end

def ConnectorPhase.job {K : Type} : ConnectorPhase K → Option (RefreshJob K)
  | .building job | .refreshing job | .storing job _ => some job
  | _ => none

namespace Connectors

section

variable {K : Type} {s s' : Connectors K}

/-- The token that is being refreshed descends from an authentication of its instance. -/
def Descends (s : Connectors K) (p : ConnectorPhase K) : Prop :=
  ∀ job, p.job = some job →
    s.acknowledged[job.current.serial]? = some (job.instanceId, job.current.granted)

theorem Descends.mono {p : ConnectorPhase K} (h : Descends s p) (new : List (Uuid × OAuth2Token))
    (hacks : s'.acknowledged = s.acknowledged ++ new) : Descends s' p := by
  intro job hjob
  rw [hacks, List.getElem?_append_left]
  · exact h job hjob
  · exact (List.getElem?_eq_some_iff.mp (h job hjob)).1

theorem Effect.acknowledged {x : Reply} {p : ConnectorPhase K} (h : Effect s x p s') :
    ∃ new, s'.acknowledged = s.acknowledged ++ new := by
  cases h with
  | tracked hs hrows => exact ⟨[], by rw [hs.rest]; simp⟩
  | granted inst hinst => exact ⟨_, rfl⟩
  | refreshed => exact ⟨[], by simp [putToken]⟩
  | delivered => exact ⟨[], by simp [ingest]⟩

theorem job_refreshFails (job : RefreshJob K) (err : FfiError) : (refreshFails job err).job = none := by
  unfold refreshFails
  split <;> rfl

theorem job_startRefresh {job job' : RefreshJob K} (h : (startRefresh job).job = some job') :
    job' = job := by
  unfold startRefresh at h
  split at h
  · rw [job_refreshFails] at h
    cases h
  · exact (Option.some.inj h).symm

theorem job_startSync {snap : SyncSnapshot K} {now : Int} {job : RefreshJob K}
    (h : (startSync snap now).job = some job) :
    job.instanceId = snap.instanceId ∧ job.current = snap.token := by
  unfold startSync at h
  split at h
  · rw [job_startRefresh h]
    exact ⟨rfl, rfl⟩
  · cases h

theorem job_refreshStored (job : RefreshJob K) (l : Lineage) (now : Int) :
    (refreshStored job l now).job = none := by
  unfold refreshStored
  split <;> rfl

theorem job_refreshSnapshot {id : Uuid} {display : String} {job : RefreshJob K}
    (h : (s.refreshSnapshot id display).job = some job) :
    s.tokenVault.lookup job.instanceId = some job.current := by
  unfold refreshSnapshot at h
  split at h
  · cases h
  split at h
  · cases h
  split at h
  · cases h
  split at h
  · cases h
  · rename_i l hl
    rw [job_startRefresh h]
    exact hl

theorem job_syncSnapshot {host : Host K} {id : Uuid} {display : String} {startedAt : Int}
    {x : Reply} {job : RefreshJob K}
    (h : (s.syncSnapshot host id display startedAt x).2.job = some job) :
    s.tokenVault.lookup job.instanceId = some job.current := by
  unfold syncSnapshot at h
  split at h
  · cases h
  split at h
  · cases h
  split at h
  · cases h
  split at h
  · cases h
  split at h
  · cases h
  split at h
  · cases h
  · rename_i l hl _ _ _
    obtain ⟨hid, hcurrent⟩ := job_startSync h
    rw [hid, hcurrent]
    exact hl

theorem step_job {host : Host K} {c : ConnectorCall} {p : ConnectorPhase K} {x : Reply}
    {job : RefreshJob K} (h : (step host s c p x).2.job = some job) :
    p.job = some job ∨ s.tokenVault.lookup job.instanceId = some job.current := by
  cases p with
  | called id =>
    cases c with
    | authenticate display =>
      simp only [step, authenticateSnapshot] at h
      split at h
      · cases h
      · split at h <;> cases h
    | refresh display => exact .inr (job_refreshSnapshot h)
    | sync display startedAt => exact .inr (job_syncSnapshot h)
    | webhook id providerId =>
      simp only [step, webhookSnapshot] at h
      split at h
      · cases h
      · split at h
        · cases h
        · split at h <;> cases h
  | exchanging id display =>
    simp only [step] at h
    split at h <;> cases h
  | granting id display token =>
    simp only [step, storeGrant] at h
    split at h
    · cases h
    · split at h
      · cases h
      · split at h <;> cases h
  | building job' =>
    simp only [step] at h
    split at h
    · exact .inl h
    · rw [job_refreshFails] at h
      cases h
  | refreshing job' =>
    simp only [step] at h
    split at h
    · rw [job_refreshFails] at h
      cases h
    · exact .inl h
  | storing job' answer =>
    simp only [step, storeRefreshed] at h
    split at h
    · simp [job_refreshFails] at h
    · split at h
      · simp [job_refreshFails] at h
      · split at h
        · simp [job_refreshFails] at h
        · simp [job_refreshStored] at h
  | dispatching snap =>
    simp only [step] at h
    split at h <;> cases h
  | failing snap message err => cases h
  | persisting snap run =>
    simp only [step, persistSync] at h
    split at h
    · cases h
    · split at h
      · cases h
      · split at h
        · cases h
        · split at h <;> cases h
  | handling snap =>
    simp only [step] at h
    split at h <;> cases h
  | delivering snap events =>
    simp only [step, persistWebhook] at h
    split at h
    · cases h
    · split at h
      · cases h
      · split at h <;> cases h
  | returned result => cases h
  | delivered result => cases h

theorem Settled.congr (h : Settled s) (hregistered : ∀ id, s'.registered id = s.registered id)
    (hvault : s'.tokenVault = s.tokenVault) (hrows : s'.tokenRows = s.tokenRows)
    (hacks : s'.acknowledged = s.acknowledged) (hknown : s'.known = s.known) : Settled s' := by
  obtain ⟨hsynced, hgranted, hlatest, howned, hheard⟩ := h
  refine ⟨by rwa [hvault, hrows], by rwa [hvault, hacks], ?_, ?_, by rwa [hacks, hknown]⟩
  · simp only [hvault, hacks, hregistered]
    exact hlatest
  · simp only [hvault, hregistered]
    exact howned

theorem synced_putToken (h : Settled s) (id : Uuid) (scope : ScopeId) (l : Lineage) (id' : Uuid) :
    (s.putToken id scope l).tokenVault.lookup id' =
      ((s.putToken id scope l).tokenRows.lookup id').map Prod.snd := by
  simp only [putToken, Table.lookup_insert_ite]
  split
  · rfl
  · exact h.synced id'

theorem Settled.grant (h : Settled s) {id : Uuid} (scope : ScopeId) (token : OAuth2Token)
    (hregistered : s.registered id = true) (hknown : s.known.contains id = true) :
    Settled { s.putToken id scope ⟨s.acknowledged.length, token, []⟩ with
      acknowledged := s.acknowledged ++ [(id, token)] } := by
  refine ⟨synced_putToken h id scope _, fun id' l hl => ?_, fun n id' token' hn hreg => ?_,
    fun id' hid' => ?_, fun n id' token' hn => ?_⟩
  · simp only [putToken, Table.lookup_insert_ite] at hl
    split at hl
    · rename_i hid
      obtain rfl := Option.some.inj hl
      simp [hid]
    · have := h.granted id' l hl
      rwa [List.getElem?_append_left (List.getElem?_eq_some_iff.mp this).1]
  · simp only [putToken, Table.lookup_insert_ite]
    have hn' := (List.getElem?_eq_some_iff.mp hn).1
    rw [List.length_append, List.length_singleton] at hn'
    split
    · exact ⟨_, rfl, by simp only; omega⟩
    · rename_i hid
      by_cases hlast : n = s.acknowledged.length
      · simp [hlast, Ne.symm hid] at hn
      · rw [List.getElem?_append_left (by omega)] at hn
        exact h.latest n id' token' hn hreg
  · simp only [putToken, Table.lookup_insert_ite] at hid'
    split at hid'
    · rename_i hid
      subst hid
      exact hregistered
    · exact h.owned id' hid'
  · by_cases hlast : n < s.acknowledged.length
    · rw [List.getElem?_append_left hlast] at hn
      exact h.heard n id' token' hn
    · rw [List.getElem?_append_right (by omega)] at hn
      obtain ⟨rfl, -⟩ := Prod.mk.inj (List.mem_singleton.mp (List.mem_of_getElem? hn))
      exact hknown

theorem Settled.refresh (h : Settled s) {id : Uuid} {l : Lineage} (scope : ScopeId)
    (answer : RefreshedToken) (hregistered : s.registered id = true)
    (hl : s.acknowledged[l.serial]? = some (id, l.granted))
    (hsame : (s.tokenVault.lookup id).all (fun l' => l'.serial = l.serial) = true) :
    Settled (s.putToken id scope (l.refresh answer)) := by
  refine ⟨synced_putToken h id scope _, fun id' l' hl' => ?_, fun n id' token' hn hreg => ?_,
    fun id' hid' => ?_, h.heard⟩
  · simp only [putToken, Table.lookup_insert_ite] at hl'
    split at hl'
    · rename_i hid
      obtain rfl := Option.some.inj hl'
      subst hid
      exact hl
    · exact h.granted id' l' hl'
  · obtain ⟨l', hl', hle⟩ := h.latest n id' token' hn hreg
    simp only [putToken, Table.lookup_insert_ite]
    split
    · rename_i hid
      subst hid
      rw [hl'] at hsame
      simp only [Option.all_some, decide_eq_true_eq] at hsame
      exact ⟨_, rfl, by simpa [Lineage.refresh, ← hsame] using hle⟩
    · exact ⟨l', hl', hle⟩
  · simp only [putToken, Table.lookup_insert_ite] at hid'
    split at hid'
    · rename_i hid
      subst hid
      exact hregistered
    · exact h.owned id' hid'

theorem Settled.effect {p : ConnectorPhase K} {x : Reply} (h : Settled s) (hclosed : Closed s)
    (heffect : Effect s x p s') (hp : Descends s p) {c : ConnectorCall}
    (hsame : SameGrant s c p x) : Settled s' := by
  cases heffect with
  | tracked hs hrows =>
    exact h.congr hs.registered (by rw [hs.rest]) (by rw [hs.rest]) (by rw [hs.rest])
      (by rw [hs.rest])
  | granted inst hinst =>
    have hregistered := registered_of_lookup hinst
    exact h.grant _ _ hregistered (hclosed.known _ hregistered)
  | refreshed hregistered hsaves =>
    exact h.refresh _ _ hregistered (hp _ rfl) (hsame hsaves)
  | delivered => exact h.congr (fun _ => rfl) rfl rfl rfl rfl

theorem Settled.create [DecidableEq K] {host : Host K} (h : Settled s) (kind : K)
    (scopeId : String) (config : Answer) {id : Uuid} (builds : Except FfiError Unit)
    (registers saves : Answer) (hfresh : s.known.contains id = false) :
    Settled (s.createConnector host kind scopeId config id builds registers saves).1 := by
  obtain hs | ⟨scope, hs⟩ :=
    createConnector_cases host s kind scopeId config id builds registers saves
  · rwa [hs]
  · rw [hs]
    refine ⟨h.synced, h.granted, fun n id' token hn hreg => ?_, fun id' hid' => ?_,
      fun n id' token hn => ?_⟩
    · have hheard := h.heard n id' token hn
      have hne : id' ≠ id := by
        rintro rfl
        rw [hheard] at hfresh
        cases hfresh
      rw [registered, Table.lookup_insert_ite, if_neg hne] at hreg
      exact h.latest n id' token hn hreg
    · have := h.owned id' hid'
      simp only [registered, Table.lookup_insert_ite]
      split
      · rfl
      · exact this
    · have := h.heard n id' token hn
      rw [List.contains_iff_mem] at this ⊢
      exact List.mem_cons_of_mem _ this

theorem Settled.remove (h : Settled s) {id : Uuid} {rows : Table Uuid (ConnectorInstance K)}
    {marks : List Mark} : Settled { s with
      instances := s.instances.erase id
      connectors := s.connectors.erase id
      tokenVault := s.tokenVault.erase id
      instanceRows := rows
      tokenRows := s.tokenRows.erase id
      known := id :: s.known
      history := marks } := by
  refine ⟨fun id' => ?_, fun id' l hl => ?_, fun n id' token hn hreg => ?_, fun id' hid' => ?_,
    fun n id' token hn => ?_⟩
  · simp only [Table.lookup_erase_ite]
    split
    · rfl
    · exact h.synced id'
  · rw [Table.lookup_erase_ite] at hl
    split at hl
    · cases hl
    · exact h.granted id' l hl
  · rw [registered, registered_erase, Bool.and_eq_true, decide_eq_true_eq] at hreg
    rw [Table.lookup_erase_ite, if_neg hreg.1]
    exact h.latest n id' token hn hreg.2
  · rw [Table.lookup_erase_ite] at hid'
    split at hid'
    · cases hid'
    · rename_i hne
      rw [registered, registered_erase, h.owned id' hid']
      simpa using hne
  · have := h.heard n id' token hn
    rw [List.contains_iff_mem] at this ⊢
    exact List.mem_cons_of_mem _ this

variable [DecidableEq K] {host : Host K}

theorem Settled.act (h : Settled s) {t : Pool (Connectors K) ConnectorCall (ConnectorPhase K)}
    (hshared : t.shared = s) {a : ConnectorAct K} (hguard : DeletesRows t (.act a)) :
    Settled (s.act host a) := by
  subst hshared
  cases a with
  | create kind scopeId config id builds registers saves =>
    exact h.create kind scopeId config builds registers saves hguard
  | remove instanceId deleteInstance deleteToken =>
    obtain ⟨hinstance, htoken⟩ := hguard
    cases deleteInstance with
    | error e => cases hinstance
    | ok =>
      cases deleteToken with
      | error e => cases htoken
      | ok =>
        simp only [act, removeConnector]
        cases host.parseInstanceId instanceId with
        | error e => exact h
        | ok id => exact h.remove
  | forget scope deleteInstances deleteTokens => exact hguard.elim
  | reopen answers => exact hguard.elim

omit [DecidableEq K] in
theorem acknowledged_rehydrate (s : Connectors K) (a : OpenAnswers) :
    (s.rehydrate a).acknowledged = s.acknowledged := by
  unfold rehydrate
  split
  · rfl
  · dsimp only
    split <;> rfl

theorem acknowledged_act (s : Connectors K) (a : ConnectorAct K) :
    (s.act host a).acknowledged = s.acknowledged := by
  cases a with
  | create kind scopeId config id builds registers saves =>
    simp only [act]
    obtain hs | ⟨scope, hs⟩ :=
      createConnector_cases host s kind scopeId config id builds registers saves
    all_goals rw [hs]
  | remove instanceId deleteInstance deleteToken =>
    simp only [act]
    obtain ⟨e, hs⟩ | ⟨id, rows, tokens, r, hs, hr⟩ :=
      removeConnector_cases host s instanceId deleteInstance deleteToken
    · rw [hs]
    · rw [hs]
      cases r <;> rfl
  | forget scope deleteInstances deleteTokens =>
    cases deleteInstances <;> cases deleteTokens <;> rfl
  | reopen answers => exact acknowledged_rehydrate s answers

end

end Connectors

def sampleGrant (access : String) : OAuth2Token := ⟨access, some "1//refresh", 4000, "read", "Bearer"⟩

def sampleRefresh : RefreshedToken := ⟨"ya29.refreshed", none, 7600, none⟩

def authenticates (i : Nat) (access : String) :
    List (Event ConnectorCall Reply (ConnectorAct Unit)) :=
  [.call (.authenticate "00000000-0000-4000-8000-00000000000b"), .advance i quietReply,
    .advance i { quietReply with exchange := .ok (sampleGrant access) }, .advance i quietReply]

/-- A connector is created and authenticated, and a refresh gets its answer from the provider. -/
def refreshAnswered : List (Event ConnectorCall Reply (ConnectorAct Unit)) :=
  .act (.create () "00000000-0000-4000-8000-000000000007" (.ok ()) 0x4000800000000000000b
    (.ok ()) (.ok ()) (.ok ())) :: authenticates 0 "ya29.first" ++
  [.call (.refresh "00000000-0000-4000-8000-00000000000b"), .advance 1 quietReply,
    .advance 1 quietReply, .advance 1 { quietReply with refresh := .ok sampleRefresh }]

theorem empty_token_init : (tokenSystem (slackHost sampleParser)).init ⟨.empty Unit, []⟩ := by
  refine ⟨⟨⟨fun id => rfl, ?_, ?_, ?_, ?_⟩, rfl, ?_⟩, rfl⟩
  · intro id l hl
    cases hl
  · intro n id token hn
    simp [empty] at hn
  · intro id hid
    cases hid
  · intro n id token hn
    simp [empty] at hn
  · intro id hid
    cases hid

end Knowledge.Runtime
