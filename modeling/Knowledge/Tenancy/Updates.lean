import Knowledge.Lib.Serial
import Knowledge.Tenancy.Store

/-!
`server/internal/tenant/tenant.go`: the handlers that change tenants and members, one step of the
store at a time. A handler that reads a record, edits its part and writes the record back undoes
what others wrote in between; where what it keeps has not changed since it was read, the
acknowledged calls are serialised by the order of their writes.
-/

set_option autoImplicit false

namespace Knowledge.Tenancy
open Knowledge.Serial
open Knowledge.Transition
open MemoryStore

structure ApiError where
  status : Nat
  kind : String
  message : String

def badRequest (message : String) : ApiError := ⟨400, "BadRequest", message⟩

def mapStoreErr : StoreError → ApiError
  | .notFound => ⟨404, "NotFound", "tenant or member not found"⟩
  | .conflict => ⟨409, "Conflict", "resource already exists"⟩

def Config.validate (c : Config) : Except ApiError Unit :=
  if !c.synthesisTier.valid then
    .error (badRequest "invalid synthesis_tier")
  else if c.connectorLimit < 0 ∨ c.retentionDays < 0 then
    .error (badRequest "connector_limit and retention_days must be non-negative")
  else if c.quota.requestsPerMin < 0 ∨ c.quota.synthesesPerDay < 0 ∨
      c.quota.storageSoftCapBytes < 0 then
    .error (badRequest "quota values must be non-negative")
  else .ok ()

/-- What a call is given: its arguments, the keypair it will mint or the error of that, and the
time it will read. -/
inductive Call where
  | updateConfig (id : String) (cfg : Config)
  | rotateKey (id : String) (minted : Except ApiError CryptoKey)
  | inviteMember (tenantId userId email : String) (now : Int)
  | transitionMember (tenantId userId : String) (target : MemberStatus) (now : Int)
  | removeMember (tenantId userId : String)
  | delete (id : String)

namespace Call

def configures : Call → Bool
  | updateConfig _ _ => true
  | _ => false

def rotates : Call → Bool
  | rotateKey _ _ => true
  | _ => false

def transitions : Call → Bool
  | transitionMember _ _ _ _ => true
  | _ => false

end Call

inductive Response where
  | tenant (t : Tenant)
  | member (m : Member)
  | noContent

/-- Where a call is between two steps of the store, with what it has read. -/
inductive Phase where
  | called
  | foundTenant (t : Tenant)
  | foundMember (m : Member)
  | returned (r : Except ApiError Response)

def Phase.acknowledged : Phase → Bool
  | .returned (.ok _) => true
  | _ => false

def Tenant.withConfig (t : Tenant) (cfg : Config) : Tenant :=
  { t with config := if cfg.quota.isZero then { cfg with quota := t.config.quota } else cfg }

def Member.transition (m : Member) (target : MemberStatus) (now : Int) : Member :=
  { m with status := target, updatedAt := now }

section

variable (parseUuid : String → Bool)

/-- `ScopeID`, of which only the error is used. -/
def scopeId (s : String) : Bool := s ≠ "" && parseUuid s

def get (s : MemoryStore) (id : String) : Except ApiError Tenant :=
  if !parseUuid id then .error (badRequest "tenant id must be a UUID")
  else
    match s.getTenant id with
    | .ok t => .ok t
    | .error err => .error (mapStoreErr err)

def find (s : MemoryStore) (id : String) : MemoryStore × Phase :=
  match get parseUuid s id with
  | .ok t => (s, .foundTenant t)
  | .error err => (s, .returned (.error err))

def finish (s : MemoryStore) (written : Except StoreError MemoryStore) (r : Response) :
    MemoryStore × Phase :=
  match written with
  | .ok s' => (s', .returned (.ok r))
  | .error err => (s, .returned (.error (mapStoreErr err)))

def step (s : MemoryStore) : Call → Phase → MemoryStore × Phase
  | .updateConfig id cfg, .called =>
    match cfg.validate with
    | .error err => (s, .returned (.error err))
    | .ok _ => find parseUuid s id
  | .updateConfig _ cfg, .foundTenant t =>
    finish s (s.updateTenant (t.withConfig cfg)) (.tenant (t.withConfig cfg))
  | .rotateKey id _, .called => find parseUuid s id
  | .rotateKey _ (.error err), .foundTenant _ => (s, .returned (.error err))
  | .rotateKey _ (.ok key), .foundTenant t =>
    finish s (s.updateTenant { t with key }) (.tenant { t with key })
  | .inviteMember tenantId _ _ _, .called => find parseUuid s tenantId
  | .inviteMember tenantId userId email now, .foundTenant _ =>
    if !scopeId parseUuid userId then
      (s, .returned (.error (badRequest "user_id must be a UUID")))
    else if email = "" then (s, .returned (.error (badRequest "email is required")))
    else finish s (s.upsertMember ⟨tenantId, userId, email, .invited, now⟩)
      (.member ⟨tenantId, userId, email, .invited, now⟩)
  | .transitionMember tenantId userId _ _, .called =>
    match s.getMember tenantId userId with
    | .ok m => (s, .foundMember m)
    | .error err => (s, .returned (.error (mapStoreErr err)))
  | .transitionMember _ _ target now, .foundMember m =>
    finish s (s.upsertMember (m.transition target now)) (.member (m.transition target now))
  | .removeMember tenantId userId, .called => finish s (s.deleteMember tenantId userId) .noContent
  | .delete id, .called =>
    if !parseUuid id then (s, .returned (.error (badRequest "tenant id must be a UUID")))
    else finish s (s.deleteTenant id) .noContent
  | _, phase => (s, phase)

def service : Service MemoryStore Call Phase := ⟨.called, 2, step parseUuid, Phase.acknowledged⟩

end

/-- What the call is about to write back of the row it read is still what the row has, unless the
write fails anyway because the tenant is gone. -/
def Fresh (s : MemoryStore) : Call → Phase → Prop
  | .updateConfig _ cfg, .foundTenant t => ∀ row ∈ s.tenant t.id, row.key = t.key ∧
    (cfg.quota.isZero = true → row.config.quota = t.config.quota)
  | .rotateKey _ (.ok _), .foundTenant t => ∀ row ∈ s.tenant t.id, row.config = t.config
  | .transitionMember _ _ _ _, .foundMember m => s.tenant m.tenantId ≠ none →
    ∃ row ∈ s.member m.tenantId m.userId, row.email = m.email
  | _, _ => True

instance (s : MemoryStore) (c : Call) (p : Phase) : Decidable (Fresh s c p) := by
  unfold Fresh
  split <;> infer_instance

section

variable {parseUuid : String → Bool}

theorem find_cases (parseUuid : String → Bool) (s : MemoryStore) (id : String) :
    (∃ t, parseUuid id = true ∧ s.tenant id = some t ∧
      find parseUuid s id = (s, .foundTenant t)) ∨
    ∃ err, find parseUuid s id = (s, .returned (.error err)) := by
  by_cases hid : parseUuid id = true
  · cases hget : s.getTenant id with
    | ok t => exact .inl ⟨t, hid, getTenant_eq_ok.mp hget, by simp [find, get, hid, hget]⟩
    | error err => exact .inr ⟨mapStoreErr err, by simp [find, get, hid, hget]⟩
  · exact .inr ⟨badRequest "tenant id must be a UUID", by simp [find, get, hid]⟩

theorem find_of_tenant {s : MemoryStore} {id : String} {t : Tenant} (hid : parseUuid id = true)
    (ht : s.tenant id = some t) : find parseUuid s id = (s, .foundTenant t) := by
  simp [find, get, hid, getTenant_eq_ok.mpr ht]

theorem finish_cases (s : MemoryStore) (written : Except StoreError MemoryStore) (r : Response) :
    (∃ s', written = .ok s' ∧ finish s written r = (s', .returned (.ok r))) ∨
      ∃ err, finish s written r = (s, .returned (.error err)) := by
  cases written with
  | ok s' => exact .inl ⟨s', rfl, rfl⟩
  | error err => exact .inr ⟨mapStoreErr err, rfl⟩

@[simp] theorem step_returned (s : MemoryStore) (c : Call) (r : Except ApiError Response) :
    step parseUuid s c (.returned r) = (s, .returned r) := by
  cases c <;> rfl

theorem whole_eq (s : MemoryStore) (c : Call) : (service parseUuid).whole s c =
    step parseUuid (step parseUuid s c .called).1 c (step parseUuid s c .called).2 := rfl

/-- The row is that of a tenant which was there from the start, under the same name. -/
def Descends (initial : MemoryStore) (row : Tenant) : Prop :=
  ∃ first, initial.tenant row.id = some first ∧ row.name = first.name ∧
    row.createdAt = first.createdAt

theorem Descends.agree {initial : MemoryStore} {row row' : Tenant} (h : Descends initial row)
    (h' : Descends initial row') (hid : row.id = row'.id) :
    row.name = row'.name ∧ row.createdAt = row'.createdAt := by
  obtain ⟨first, hfirst, hname, hcreated⟩ := h
  obtain ⟨first', hfirst', hname', hcreated'⟩ := h'
  rw [hid, hfirst'] at hfirst
  obtain rfl := Option.some.inj hfirst
  exact ⟨hname.trans hname'.symm, hcreated.trans hcreated'.symm⟩

/-- What a call has checked and read by the time it is in the phase. -/
def PhaseSound (parseUuid : String → Bool) (initial : MemoryStore) : Call → Phase → Prop
  | .updateConfig id cfg, .foundTenant t => cfg.validate = .ok () ∧ parseUuid id = true ∧
    t.id = id ∧ Descends initial t
  | .rotateKey id _, .foundTenant t => parseUuid id = true ∧ t.id = id ∧ Descends initial t
  | .inviteMember tenantId _ _ _, .foundTenant _ => parseUuid tenantId = true
  | .transitionMember tenantId userId _ _, .foundMember m => m.tenantId = tenantId ∧
    m.userId = userId
  | _, _ => True

theorem phaseSound_returned (initial : MemoryStore) (c : Call) (r : Except ApiError Response) :
    PhaseSound parseUuid initial c (.returned r) := by
  cases c <;> trivial

def RowsSound (initial s : MemoryStore) : Prop :=
  ∀ id row, s.tenant id = some row → Descends initial row

theorem RowsSound.finish {initial s : MemoryStore} (h : RowsSound initial s)
    {written : Except StoreError MemoryStore} (hw : ∀ s', written = .ok s' → RowsSound initial s')
    (c : Call) (r : Response) : RowsSound initial (finish s written r).1 ∧
      PhaseSound parseUuid initial c (finish s written r).2 := by
  obtain ⟨s', hs', heq⟩ | ⟨err, heq⟩ := finish_cases s written r
  · rw [heq]
    exact ⟨hw s' hs', phaseSound_returned initial c _⟩
  · rw [heq]
    exact ⟨h, phaseSound_returned initial c _⟩

theorem RowsSound.update {initial s s' : MemoryStore} {t : Tenant} (h : RowsSound initial s)
    (ht : Descends initial t) (hs : s.updateTenant t = .ok s') : RowsSound initial s' := by
  intro id row hrow
  rw [(updateTenant_ok hs).2.1] at hrow
  split at hrow
  · obtain rfl := Option.some.inj hrow
    exact ht
  · exact h id row hrow

theorem RowsSound.congr {initial s s' : MemoryStore} (h : RowsSound initial s)
    (hs : ∀ id, s'.tenant id = s.tenant id) : RowsSound initial s' := by
  intro id row hrow
  rw [hs] at hrow
  exact h id row hrow

theorem find_sound {initial s : MemoryStore} (h : RowsSound initial s) (c : Call) (id : String)
    (hc : ∀ t, parseUuid id = true → t.id = id → Descends initial t →
      PhaseSound parseUuid initial c (.foundTenant t)) :
    RowsSound initial (find parseUuid s id).1 ∧
      PhaseSound parseUuid initial c (find parseUuid s id).2 := by
  obtain ⟨t, hid, ht, heq⟩ | ⟨err, heq⟩ := find_cases parseUuid s id
  · rw [heq]
    exact ⟨h, hc t hid (tenant_id ht) (h id t ht)⟩
  · rw [heq]
    exact ⟨h, phaseSound_returned initial c _⟩

theorem step_sound {initial s : MemoryStore} {c : Call} {p : Phase} (h : RowsSound initial s)
    (hp : PhaseSound parseUuid initial c p) : RowsSound initial (step parseUuid s c p).1 ∧
      PhaseSound parseUuid initial c (step parseUuid s c p).2 := by
  cases p with
  | returned r => exact ⟨by rwa [step_returned], by rwa [step_returned]⟩
  | called =>
    cases c with
    | updateConfig id cfg =>
      cases hv : cfg.validate with
      | error err => simp only [step, hv]; exact ⟨h, trivial⟩
      | ok u =>
        simp only [step, hv]
        exact find_sound h _ id fun t hid ht hd => ⟨hv, hid, ht, hd⟩
    | rotateKey id minted => exact find_sound h _ id fun t hid ht hd => ⟨hid, ht, hd⟩
    | inviteMember tenantId userId email now =>
      exact find_sound h _ tenantId fun t hid _ _ => hid
    | transitionMember tenantId userId target now =>
      cases hget : s.getMember tenantId userId with
      | error err => simp only [step, hget]; exact ⟨h, trivial⟩
      | ok m =>
        simp only [step, hget]
        exact ⟨h, member_ids (getMember_eq_ok.mp hget)⟩
    | removeMember tenantId userId =>
      exact h.finish (fun s' hs' => h.congr (deleteMember_ok hs')) _ _
    | delete id =>
      simp only [step]
      split
      · exact ⟨h, trivial⟩
      · refine h.finish (fun s' hs' id' row hrow => ?_) _ _
        rw [deleteTenant_ok hs'] at hrow
        split at hrow
        · cases hrow
        · exact h id' row hrow
  | foundTenant t =>
    cases c with
    | updateConfig id cfg =>
      have hd : Descends initial (t.withConfig cfg) := hp.2.2.2
      exact h.finish (fun s' hs' => h.update hd hs') _ _
    | rotateKey id minted =>
      cases minted with
      | error err => exact ⟨h, trivial⟩
      | ok key =>
        have hd : Descends initial { t with key } := hp.2.2
        exact h.finish (fun s' hs' => h.update hd hs') _ _
    | inviteMember tenantId userId email now =>
      simp only [step]
      split
      · exact ⟨h, trivial⟩
      · split
        · exact ⟨h, trivial⟩
        · exact h.finish (fun s' hs' => h.congr (upsertMember_ok hs').2.1) _ _
    | transitionMember tenantId userId target now => exact ⟨h, trivial⟩
    | removeMember tenantId userId => exact ⟨h, trivial⟩
    | delete id => exact ⟨h, trivial⟩
  | foundMember m =>
    cases c with
    | transitionMember tenantId userId target now =>
      exact h.finish (fun s' hs' => h.congr (upsertMember_ok hs').2.1) _ _
    | _ => exact ⟨h, trivial⟩

structure Sound (parseUuid : String → Bool) (initial : MemoryStore)
    (t : Threads MemoryStore Call Phase) : Prop where
  rows : RowsSound initial t.shared
  phases : ∀ e ∈ t.calls, PhaseSound parseUuid initial e.1 e.2

theorem Sound.run {initial : MemoryStore} {t : Threads MemoryStore Call Phase}
    (h : ((service parseUuid).system initial).Reachable t) : Sound parseUuid initial t := by
  refine System.Reachable.invariant (Sound parseUuid initial) ?_ ?_ h
  · rintro t rfl
    refine ⟨fun id row hrow => ⟨row, ?_, rfl, rfl⟩, fun e he => by cases he⟩
    rwa [tenant_id hrow]
  · rintro t event t' - ht ⟨-, rfl⟩
    cases event with
    | call c =>
      refine ⟨ht.rows, fun e he => ?_⟩
      obtain he | he := List.mem_append.mp he
      · exact ht.phases e he
      · obtain rfl := List.mem_singleton.mp he
        cases c <;> trivial
    | advance i =>
      cases hi : t.calls[i]? with
      | none => rwa [Service.next_advance_none hi]
      | some e =>
        obtain ⟨c, p⟩ := e
        rw [Service.next_advance hi]
        obtain ⟨hrows, hphase⟩ := step_sound ht.rows (ht.phases (c, p) (List.mem_of_getElem? hi))
        refine ⟨hrows, fun e he => ?_⟩
        obtain he | rfl := List.mem_or_eq_of_mem_set he
        · exact ht.phases e he
        · exact hphase

theorem commits_finish {s : MemoryStore} {c : Call} {p : Phase}
    {written : Except StoreError MemoryStore} {r : Response} (hp : p.acknowledged = false)
    (hstep : step parseUuid s c p = finish s written r) (hwhole : ∀ s', written = .ok s' →
      (service parseUuid).whole s c = (s', .returned (.ok r))) :
    (service parseUuid).Commits s c p := by
  have hunfold : (service parseUuid).step s c p = finish s written r := hstep
  obtain ⟨s', hs', heq⟩ | ⟨err, heq⟩ := finish_cases s written r
  · rw [heq] at hunfold
    refine .inl ⟨hp, ?_, ?_⟩
    · rw [hunfold]
      rfl
    · rw [hwhole s' hs', hunfold]
  · rw [heq] at hunfold
    refine .inr ⟨?_, ?_⟩
    · rw [hunfold]
      exact hp.symm
    · rw [hunfold]

theorem commits_same {s : MemoryStore} {c : Call} {p : Phase} (p' : Phase)
    (hstep : step parseUuid s c p = (s, p')) (hp : p'.acknowledged = p.acknowledged) :
    (service parseUuid).Commits s c p := by
  have hunfold : (service parseUuid).step s c p = (s, p') := hstep
  refine .inr ⟨?_, ?_⟩
  · rw [hunfold]
    exact hp
  · rw [hunfold]

theorem commits_find {s : MemoryStore} {c : Call} (id : String)
    (hstep : step parseUuid s c .called = find parseUuid s id) :
    (service parseUuid).Commits s c .called := by
  obtain ⟨t, -, -, heq⟩ | ⟨err, heq⟩ := find_cases parseUuid s id
  · exact commits_same _ (hstep.trans heq) rfl
  · exact commits_same _ (hstep.trans heq) rfl

theorem whole_of_find {s s' : MemoryStore} {c : Call} {id : String} {row : Tenant} {r : Response}
    {written : Except StoreError MemoryStore} (hid : parseUuid id = true)
    (hrow : s.tenant id = some row) (hfirst : step parseUuid s c .called = find parseUuid s id)
    (hsecond : step parseUuid s c (.foundTenant row) = finish s written r)
    (hok : written = .ok s') : (service parseUuid).whole s c = (s', .returned (.ok r)) := by
  rw [whole_eq, hfirst, find_of_tenant hid hrow, hsecond, hok]
  rfl

theorem withConfig_eq {initial : MemoryStore} {row t : Tenant} {cfg : Config}
    (hrow : Descends initial row) (ht : Descends initial t) (hid : row.id = t.id)
    (hkey : row.key = t.key)
    (hquota : cfg.quota.isZero = true → row.config.quota = t.config.quota) :
    row.withConfig cfg = t.withConfig cfg := by
  obtain ⟨hname, hcreated⟩ := hrow.agree ht hid
  obtain ⟨id, name, config, key, createdAt⟩ := row
  simp only [Tenant.withConfig] at *
  by_cases hzero : cfg.quota.isZero = true
  · simp [hzero, hid, hname, hcreated, hkey, hquota hzero]
  · simp [hzero, hid, hname, hcreated, hkey]

theorem withKey_eq {initial : MemoryStore} {row t : Tenant} (key : CryptoKey)
    (hrow : Descends initial row) (ht : Descends initial t) (hid : row.id = t.id)
    (hconfig : row.config = t.config) : { row with key } = { t with key } := by
  obtain ⟨hname, hcreated⟩ := hrow.agree ht hid
  simp [hid, hname, hcreated, hconfig]

theorem transition_eq {row m : Member} {target : MemberStatus} {now : Int}
    (htenant : row.tenantId = m.tenantId) (huser : row.userId = m.userId)
    (hemail : row.email = m.email) : row.transition target now = m.transition target now := by
  simp [Member.transition, htenant, huser, hemail]

theorem step_commits {initial s : MemoryStore} {c : Call} {p : Phase} (h : RowsSound initial s)
    (hp : PhaseSound parseUuid initial c p) (hfresh : Fresh s c p) :
    (service parseUuid).Commits s c p := by
  cases p with
  | returned r => exact commits_same _ (step_returned s c r) rfl
  | called =>
    cases c with
    | updateConfig id cfg =>
      cases hv : cfg.validate with
      | error err => exact commits_same (.returned (.error err)) (by simp only [step, hv]) rfl
      | ok u => exact commits_find id (by simp only [step, hv])
    | rotateKey id minted => exact commits_find id rfl
    | inviteMember tenantId userId email now => exact commits_find tenantId rfl
    | transitionMember tenantId userId target now =>
      cases hget : s.getMember tenantId userId with
      | error err =>
        exact commits_same (.returned (.error (mapStoreErr err))) (by simp only [step, hget])
          rfl
      | ok m => exact commits_same (.foundMember m) (by simp only [step, hget]) rfl
    | removeMember tenantId userId =>
      refine commits_finish rfl rfl fun s' hs' => ?_
      simp [whole_eq, step, finish, hs']
    | delete id =>
      by_cases hid : parseUuid id = true
      · refine commits_finish rfl (by simp only [step, hid]; rfl) fun s' hs' => ?_
        simp [whole_eq, step, finish, hid, hs']
      · exact commits_same (.returned (.error (badRequest "tenant id must be a UUID")))
          (by simp [step, hid]) rfl
  | foundTenant t =>
    cases c with
    | updateConfig id cfg =>
      obtain ⟨hv, hid, rfl, hd⟩ := hp
      refine commits_finish rfl rfl fun s' hs' => ?_
      obtain ⟨⟨row, hrow⟩, -⟩ := updateTenant_ok hs'
      obtain ⟨hkey, hquota⟩ := hfresh row hrow
      have heq := withConfig_eq (h t.id row hrow) hd (tenant_id hrow) hkey hquota
      exact whole_of_find hid hrow (by simp only [step, hv]) (by simp only [step, heq]) hs'
    | rotateKey id minted =>
      obtain ⟨hid, rfl, hd⟩ := hp
      cases minted with
      | error err => exact commits_same (.returned (.error err)) rfl rfl
      | ok key =>
        refine commits_finish rfl rfl fun s' hs' => ?_
        obtain ⟨⟨row, hrow⟩, -⟩ := updateTenant_ok hs'
        have heq := withKey_eq key (h t.id row hrow) hd (tenant_id hrow)
          (hfresh row hrow)
        exact whole_of_find hid hrow rfl (by simp only [step, heq]) hs'
    | inviteMember tenantId userId email now =>
      by_cases huser : scopeId parseUuid userId = true
      · by_cases hemail : email = ""
        · exact commits_same (.returned (.error (badRequest "email is required")))
            (by simp [step, huser, hemail]) rfl
        · refine commits_finish rfl (by simp only [step, huser, hemail]; rfl) fun s' hs' => ?_
          obtain ⟨⟨row, hrow⟩, -⟩ := upsertMember_ok hs'
          exact whole_of_find hp hrow rfl (by simp only [step, huser, hemail]; rfl) hs'
      · exact commits_same (.returned (.error (badRequest "user_id must be a UUID")))
          (by simp [step, huser]) rfl
    | transitionMember tenantId userId target now => exact commits_same _ rfl rfl
    | removeMember tenantId userId => exact commits_same _ rfl rfl
    | delete id => exact commits_same _ rfl rfl
  | foundMember m =>
    cases c with
    | transitionMember tenantId userId target now =>
      obtain ⟨rfl, rfl⟩ := hp
      refine commits_finish rfl rfl fun s' hs' => ?_
      obtain ⟨⟨tenant, htenant⟩, -⟩ := upsertMember_ok hs'
      obtain ⟨row, hrow, hemail⟩ := hfresh (by
        rw [Member.transition] at htenant
        simp [htenant])
      obtain ⟨htid, huid⟩ := member_ids hrow
      rw [whole_eq]
      simp only [step, getMember_eq_ok.mpr hrow, transition_eq htid huid hemail, hs', finish]
    | _ => exact commits_same _ rfl rfl

/-- What is not the call's own to change stays: only a rotation changes a key and only an update of
the configuration changes that, and a transition neither adds nor removes a member. -/
structure Keeps (c : Call) (s s' : MemoryStore) : Prop where
  key : c.rotates = false → ∀ id row row', s.tenant id = some row → s'.tenant id = some row' →
    row'.key = row.key
  config : c.configures = false → ∀ id row row', s.tenant id = some row →
    s'.tenant id = some row' → row'.config = row.config
  members : c.transitions = true → ∀ tenantId userId,
    s'.member tenantId userId = none ↔ s.member tenantId userId = none

theorem Keeps.of_rows {c : Call} {s s' : MemoryStore}
    (hrows : ∀ id, s'.tenant id = s.tenant id ∨ s'.tenant id = none)
    (hmembers : c.transitions = true → ∀ tenantId userId,
      s'.member tenantId userId = none ↔ s.member tenantId userId = none) : Keeps c s s' := by
  have hsame : ∀ id row row', s.tenant id = some row → s'.tenant id = some row' → row' = row := by
    intro id row row' hrow hrow'
    have := hrows id
    simp_all
  exact ⟨fun _ id row row' hrow hrow' => by rw [hsame id row row' hrow hrow'],
    fun _ id row row' hrow hrow' => by rw [hsame id row row' hrow hrow'], hmembers⟩

theorem Keeps.refl (c : Call) (s : MemoryStore) : Keeps c s s :=
  .of_rows (fun _ => .inl rfl) fun _ _ _ => Iff.rfl

theorem Keeps.finish {c : Call} {s : MemoryStore} {written : Except StoreError MemoryStore}
    (h : ∀ s', written = .ok s' → Keeps c s s') (r : Response) :
    Keeps c s (finish s written r).1 := by
  obtain ⟨s', hs', heq⟩ | ⟨err, heq⟩ := finish_cases s written r
  · rw [heq]
    exact h s' hs'
  · rw [heq]
    exact .refl c s

theorem Keeps.find (c : Call) (s : MemoryStore) (id : String) :
    Keeps c s (find parseUuid s id).1 := by
  obtain ⟨t, -, -, heq⟩ | ⟨err, heq⟩ := find_cases parseUuid s id
  · rw [heq]
    exact .refl c s
  · rw [heq]
    exact .refl c s

theorem Keeps.update {c : Call} {s s' : MemoryStore} {t : Tenant} (hs : s.updateTenant t = .ok s')
    (hc : c.transitions = false)
    (hkey : c.rotates = false → ∀ row, s.tenant t.id = some row → t.key = row.key)
    (hconfig : c.configures = false → ∀ row, s.tenant t.id = some row → t.config = row.config) :
    Keeps c s s' := by
  obtain ⟨-, hrows, -⟩ := updateTenant_ok hs
  refine ⟨fun hr id row row' hrow hrow' => ?_, fun hr id row row' hrow hrow' => ?_,
    fun h => by rw [hc] at h; cases h⟩
  · rw [hrows] at hrow'
    split at hrow'
    · subst id
      obtain rfl := Option.some.inj hrow'
      exact hkey hr row hrow
    · rw [hrow] at hrow'
      rw [Option.some.inj hrow']
  · rw [hrows] at hrow'
    split at hrow'
    · subst id
      obtain rfl := Option.some.inj hrow'
      exact hconfig hr row hrow
    · rw [hrow] at hrow'
      rw [Option.some.inj hrow']

theorem step_keeps {s : MemoryStore} {c : Call} {p : Phase} (hfresh : Fresh s c p) :
    Keeps c s (step parseUuid s c p).1 := by
  cases p with
  | returned r => rw [step_returned]; exact .refl c s
  | called =>
    cases c with
    | updateConfig id cfg =>
      simp only [step]
      split
      · exact .refl _ s
      · exact .find _ s id
    | rotateKey id minted => exact .find _ s id
    | inviteMember tenantId userId email now => exact .find _ s tenantId
    | transitionMember tenantId userId target now =>
      simp only [step]
      split <;> exact .refl _ s
    | removeMember tenantId userId =>
      refine .finish (fun s' hs' => .of_rows (fun id => ?_) (by simp [Call.transitions])) _
      exact .inl (deleteMember_ok hs' id)
    | delete id =>
      simp only [step]
      split
      · exact .refl _ s
      · refine .finish (fun s' hs' => .of_rows (fun id' => ?_) (by simp [Call.transitions])) _
        rw [deleteTenant_ok hs']
        split <;> simp
  | foundTenant t =>
    cases c with
    | updateConfig id cfg =>
      refine .finish (fun s' hs' => .update hs' rfl (fun _ row hrow => ?_) (by simp [Call.configures])) _
      exact (hfresh row hrow).1.symm
    | rotateKey id minted =>
      cases minted with
      | error err => exact .refl _ s
      | ok key =>
        refine .finish (fun s' hs' => .update hs' rfl (by simp [Call.rotates]) fun _ row hrow => ?_) _
        exact (hfresh row hrow).symm
    | inviteMember tenantId userId email now =>
      simp only [step]
      split
      · exact .refl _ s
      · split
        · exact .refl _ s
        · refine .finish (fun s' hs' => .of_rows (fun id => ?_) (by simp [Call.transitions])) _
          exact .inl ((upsertMember_ok hs').2.1 id)
    | transitionMember tenantId userId target now => exact .refl _ s
    | removeMember tenantId userId => exact .refl _ s
    | delete id => exact .refl _ s
  | foundMember m =>
    cases c with
    | transitionMember tenantId userId target now =>
      refine .finish (fun s' hs' => ?_) _
      obtain ⟨⟨t, ht⟩, hrows, hmembers⟩ := upsertMember_ok hs'
      refine .of_rows (fun id => .inl (hrows id)) fun _ tid uid => ?_
      rw [hmembers]
      split
      · rename_i hids
        obtain ⟨row, hrow, -⟩ := hfresh (by
          rw [Member.transition] at ht
          simp [ht])
        obtain ⟨rfl, rfl⟩ := hids
        rw [Option.mem_def] at hrow
        simp [Member.transition, hrow]
      · exact Iff.rfl
    | _ => exact .refl _ s

end

/-- In a run where no call writes back what has changed since it read it, the acknowledged calls
have some order in which, one after another, they leave the store as it is, and no step changes
what is another call's to change. -/
theorem tenant_updates_serialised (parseUuid : String → Bool) (initial : MemoryStore)
    (t : Threads MemoryStore Call Phase)
    (h : (((service parseUuid).system initial).restrict (Service.Each Fresh)).Reachable t) :
    (∃ order : List Call, order.Perm ((service parseUuid).acknowledged t) ∧
      (service parseUuid).serial initial order = some t.shared) ∧
    ∀ i c p, t.calls[i]? = some (c, p) → Fresh t.shared c p →
      Keeps c t.shared ((service parseUuid).next t (.advance i)).shared := by
  refine ⟨Service.serialised_of_commits rfl (fun t i c p hr hi hfresh => ?_) h,
    fun i c p hi hfresh => ?_⟩
  · have hsound := Sound.run hr.of_restrict
    exact step_commits hsound.rows (hsound.phases (c, p) (List.mem_of_getElem? hi)) hfresh
  · rw [Service.next_advance hi]
    exact step_keeps hfresh

def acme : Tenant :=
  ⟨"6ba7b810-9dad-11d1-80b4-00c04fd430c8", "Acme", .default, ⟨"x25519-ml-kem-768", "aa"⟩, 0⟩

def oneTenant : MemoryStore :=
  (do (← MemoryStore.empty.createTenant acme).upsertMember ⟨acme.id, "ada", "ada@acme", .invited, 0⟩
    : Except StoreError MemoryStore).toOption.getD .empty

def rotateAcme : Call := .rotateKey acme.id (.ok ⟨"x25519-ml-kem-768", "bb"⟩)

def configureAcme : Call := .updateConfig acme.id { Config.default with retentionDays := 30 }

def hyphenated (s : String) : Bool := s.length == 36

theorem tenant_updates_serialised_one_by_one :
    ∃ t : Threads MemoryStore Call Phase,
      (((service hyphenated).system oneTenant).restrict (Service.Each Fresh)).Reachable t ∧
      (t.shared.tenant acme.id).map (fun row => (row.config.retentionDays, row.key.publicKeyHex)) =
        some (30, "bb") ∧
      ∃ order : List Call, order.Perm ((service hyphenated).acknowledged t) ∧
        (service hyphenated).serial oneTenant order = some t.shared := by
  have hlegal : Legal (fun t event => True ∧ Service.Each Fresh t event) (service hyphenated).next
      ⟨oneTenant, []⟩ [.call rotateAcme, .call configureAcme, .advance 0, .advance 0, .advance 1,
        .advance 1] := by decide +kernel
  have hrun : (((service hyphenated).system oneTenant).restrict (Service.Each Fresh)).Reachable _ :=
    hlegal.reachable_restrict (.init rfl)
  exact ⟨_, hrun, by decide +kernel, (tenant_updates_serialised hyphenated oneTenant _ hrun).1⟩

def overlapping (c d : Call) : Threads MemoryStore Call Phase :=
  [Event.call c, .call d, .advance 0, .advance 1, .advance 0, .advance 1].foldl
    (service hyphenated).next ⟨oneTenant, []⟩

theorem overlapping_reachable (c d : Call) :
    ((service hyphenated).system oneTenant).Reachable (overlapping c d) := by
  have hlegal : Legal (fun _ _ => True) (service hyphenated).next ⟨oneTenant, []⟩
      [.call c, .call d, .advance 0, .advance 1, .advance 0, .advance 1] := by simp [Legal]
  exact hlegal.reachable (.init rfl)

def activateAda : Call := .transitionMember acme.id "ada" .active 1

def removeAda : Call := .removeMember acme.id "ada"

/-- The configuration brings the old key back, and the activation the member who was removed. -/
theorem overlapping_updates_lost :
    (((service hyphenated).system oneTenant).Reachable (overlapping rotateAcme configureAcme) ∧
      ¬∃ order : List Call,
        order.Perm ((service hyphenated).acknowledged (overlapping rotateAcme configureAcme)) ∧
        (service hyphenated).serial oneTenant order =
          some (overlapping rotateAcme configureAcme).shared) ∧
    ((service hyphenated).system oneTenant).Reachable (overlapping activateAda removeAda) ∧
      ¬∃ order : List Call,
        order.Perm ((service hyphenated).acknowledged (overlapping activateAda removeAda)) ∧
        (service hyphenated).serial oneTenant order =
          some (overlapping activateAda removeAda).shared := by
  refine ⟨⟨overlapping_reachable _ _, ?_⟩, overlapping_reachable _ _, ?_⟩
  · refine Service.not_serialised_of_view (fun s => (s.tenant acme.id).map (·.key.publicKeyHex)) ?_
    decide +kernel
  · refine Service.not_serialised_of_view (fun s => (s.member acme.id "ada").map (·.status)) ?_
    decide +kernel

end Knowledge.Tenancy
