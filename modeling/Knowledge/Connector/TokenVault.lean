import Knowledge.Runtime.Connectors
import Knowledge.Runtime.SynthesisRate

/-!
`crates/connector_framework/src/oauth.rs` and `token_vault.rs`: the token that a provider's answer
makes, and the vault that refreshes it. Instants and durations are nanoseconds; a `none` is a panic
of `chrono`.
-/

set_option autoImplicit false

namespace Knowledge.Connector
open Knowledge.Runtime (ConnectorError OAuth2Token RefreshedToken)
open Knowledge.Runtime.SynthesisRate (DateTime)
open Knowledge.Sync (Uuid)

/-- `chrono::Duration`, up to `i64::MAX` milliseconds either way. -/
structure Duration where
  nanos : Int
  lower : -9223372036854775807000000 ≤ nanos
  upper : nanos ≤ 9223372036854775807000000

def Duration.seconds (seconds : Int) : Option Duration :=
  if h : -9223372036854775 ≤ seconds ∧ seconds ≤ 9223372036854775 then
    some ⟨seconds*1000000000, by omega, by omega⟩
  else none

def addDuration (t : DateTime) (d : Duration) : Option DateTime :=
  if h : -8334601228800000000000 ≤ t.nanos+d.nanos ∧ t.nanos+d.nanos ≤ 8210266876799999999999 then
    some ⟨t.nanos+d.nanos, h.1, h.2⟩
  else none

structure TokenResponse where
  accessToken : String
  refreshToken : Option String
  expiresIn : Option Int64
  scope : Option String
  tokenType : Option String

def lifetimeSeconds (expiresIn : Option Int64) : Int := max (expiresIn.getD 3600).toInt 0

def expiresInToDuration (expiresIn : Option Int64) : Option Duration :=
  Duration.seconds (lifetimeSeconds expiresIn)

def newToken (accessToken refreshToken : String) (expiresAt : DateTime) (scope : String) :
    OAuth2Token :=
  ⟨accessToken, some refreshToken, expiresAt.nanos, scope, "Bearer"⟩

def newWithoutRefresh (accessToken : String) (expiresAt : DateTime) (scope : String) :
    OAuth2Token :=
  ⟨accessToken, none, expiresAt.nanos, scope, "Bearer"⟩

def tokenResponseToOauth2 (resp : TokenResponse) (now : DateTime) : Option OAuth2Token := do
  let expiresAt ← addDuration now (← expiresInToDuration resp.expiresIn)
  let scope := resp.scope.getD ""
  let token := match resp.refreshToken with
    | some rt => newToken resp.accessToken rt expiresAt scope
    | none => newWithoutRefresh resp.accessToken expiresAt scope
  match resp.tokenType with
  | some t => some { token with tokenType := t }
  | none => some token

def tokenResponseToRefreshed (resp : TokenResponse) (now : DateTime) : Option RefreshedToken := do
  let expiresAt ← addDuration now (← expiresInToDuration resp.expiresIn)
  some ⟨resp.accessToken, resp.refreshToken, expiresAt.nanos, resp.scope⟩

def isExpiringWithin (token : OAuth2Token) (now : DateTime) (skew : Duration) : Option Bool :=
  (addDuration now skew).map fun horizon => horizon.nanos ≥ token.expiresAt

/-- What the token endpoint answers to a grant, and when the answer is read. -/
abbrev Answer := Except ConnectorError (TokenResponse × DateTime)

def refresh (provider : String → Answer) (refreshToken : String) :
    Option (Except ConnectorError RefreshedToken) :=
  match provider refreshToken with
  | .error e => some (.error e)
  | .ok (resp, now) => (tokenResponseToRefreshed resp now).map .ok

structure OAuth2TokenVault where
  tokens : Table Uuid OAuth2Token
  defaultSkew : Duration

namespace OAuth2TokenVault

def withDefaultSkew (skew : Duration) : OAuth2TokenVault := ⟨∅, skew⟩

def put (vault : OAuth2TokenVault) (inst : Uuid) (token : OAuth2Token) : OAuth2TokenVault :=
  { vault with tokens := vault.tokens.insert inst token }

def noRefreshToken : ConnectorError :=
  .tokenRefresh ("cannot refresh: no refresh_token stored for connector instance — " ++
    "re-authorisation required")

def refreshIfExpiring (vault : OAuth2TokenVault) (inst : Uuid) (now : DateTime)
    (skew : Option Duration) (provider : String → Answer) :
    Option (Except ConnectorError OAuth2Token × OAuth2TokenVault) :=
  match vault.tokens.lookup inst with
  | none => some (.error .tokenNotFound, vault)
  | some token =>
    match isExpiringWithin token now (skew.getD vault.defaultSkew) with
    | none => none
    | some false => some (.ok token, vault)
    | some true =>
      match token.refreshToken with
      | none => some (.error noRefreshToken, vault)
      | some refreshToken =>
        match refresh provider refreshToken with
        | none => none
        | some (.error e) => some (.error e, vault)
        | some (.ok refreshed) =>
          some (.ok (token.refreshed refreshed), vault.put inst (token.refreshed refreshed))

end OAuth2TokenVault

/-- A code exchange whose token is put into the vault, or a refresh of an entry. -/
inductive TokenCall where
  | exchange (inst : Uuid) (answer : Answer)
  | refresh (inst : Uuid) (now : DateTime) (skew : Option Duration) (provider : String → Answer)

open TokenCall

namespace TokenCall

def inst : TokenCall → Uuid
  | exchange inst _ => inst
  | refresh inst _ _ _ => inst

def run (vault : OAuth2TokenVault) :
    TokenCall → Option (Except ConnectorError OAuth2Token × OAuth2TokenVault)
  | exchange _ (.error e) => some (.error e, vault)
  | exchange inst (.ok (resp, now)) =>
    (tokenResponseToOauth2 resp now).map fun token => (.ok token, vault.put inst token)
  | refresh inst now skew provider => vault.refreshIfExpiring inst now skew provider

def response (vault : OAuth2TokenVault) : TokenCall → Option (TokenResponse × DateTime)
  | exchange _ answer => answer.toOption
  | refresh inst now skew provider => do
    let token ← vault.tokens.lookup inst
    let expiring ← isExpiringWithin token now (skew.getD vault.defaultSkew)
    if expiring then
      (provider (← token.refreshToken)).toOption
    else none

end TokenCall

def LifetimeFits (expiresIn : Option Int64) (now : DateTime) : Prop :=
  now.nanos+lifetimeSeconds expiresIn*1000000000 ≤ 8210266876799999999999

instance (expiresIn : Option Int64) (now : DateTime) : Decidable (LifetimeFits expiresIn now) :=
  inferInstanceAs (Decidable (_ ≤ _))

def SkewFits (now : DateTime) (skew : Duration) : Prop :=
  -8334601228800000000000 ≤ now.nanos+skew.nanos ∧ now.nanos+skew.nanos ≤ 8210266876799999999999

instance (now : DateTime) (skew : Duration) : Decidable (SkewFits now skew) :=
  inferInstanceAs (Decidable (_ ∧ _))

/-- The times of the call fit: those of the entry that it looks at, and of the response. -/
def TokenCall.Fits (vault : OAuth2TokenVault) (call : TokenCall) : Prop :=
  (match call with
    | exchange .. => True
    | refresh inst now skew _ =>
      (vault.tokens.lookup inst).isSome → SkewFits now (skew.getD vault.defaultSkew)) ∧
  ∀ answer ∈ call.response vault, LifetimeFits answer.1.expiresIn answer.2

theorem addDuration_eq (t : DateTime) (d : Duration) :
    (SkewFits t d ∧ ∃ e, addDuration t d = some e ∧ e.nanos = t.nanos+d.nanos) ∨
      (¬SkewFits t d ∧ addDuration t d = none) := by
  unfold addDuration SkewFits
  split
  · rename_i h
    exact .inl ⟨h, _, rfl, rfl⟩
  · rename_i h
    exact .inr ⟨h, rfl⟩

/-- What a refresh does: it panics on the look ahead, or takes no response and changes nothing,
or merges the response it takes. -/
theorem TokenCall.refresh_cases (vault : OAuth2TokenVault) (inst : Uuid) (now : DateTime)
    (skew : Option Duration) (provider : String → Answer) :
    let call := refresh inst now skew provider
    let fits := (vault.tokens.lookup inst).isSome → SkewFits now (skew.getD vault.defaultSkew)
    (¬fits ∧ call.run vault = none) ∨
    (fits ∧ call.response vault = none ∧ ∃ result, call.run vault = some (result, vault)) ∨
    (fits ∧ ∃ token resp now', vault.tokens.lookup inst = some token ∧
      call.response vault = some (resp, now') ∧
      call.run vault = (tokenResponseToRefreshed resp now').map fun refreshed =>
        (.ok (token.refreshed refreshed), vault.put inst (token.refreshed refreshed))) := by
  simp only [run, response, OAuth2TokenVault.refreshIfExpiring]
  cases hl : vault.tokens.lookup inst with
  | none => exact .inr (.inl ⟨by simp, rfl, _, rfl⟩)
  | some token =>
    obtain ⟨hskew, horizon, hadd, -⟩ | ⟨hskew, hadd⟩ :=
      addDuration_eq now (skew.getD vault.defaultSkew)
    · refine .inr ?_
      have hskew : (some token).isSome = true → SkewFits now (skew.getD vault.defaultSkew) :=
        fun _ => hskew
      by_cases hdue : token.expiresAt ≤ horizon.nanos
      · have hexp : isExpiringWithin token now (skew.getD vault.defaultSkew) = some true := by
          simp [isExpiringWithin, hadd, hdue]
        cases hrt : token.refreshToken with
        | none => exact .inl ⟨hskew, by simp [hexp, hrt], .error OAuth2TokenVault.noRefreshToken,
          by simp only [hexp, hrt]⟩
        | some refreshToken =>
          cases hp : provider refreshToken with
          | error e =>
            exact .inl ⟨hskew, by simp [hexp, hrt, hp, Except.toOption], .error e,
              by simp only [hexp, hrt, Connector.refresh, hp]⟩
          | ok answer =>
            refine .inr ⟨hskew, token, answer.1, answer.2, rfl,
              by simp [hexp, hrt, hp, Except.toOption], ?_⟩
            simp only [hexp, hrt, Connector.refresh, hp]
            cases hr : tokenResponseToRefreshed answer.1 answer.2 <;> simp
      · have hexp : isExpiringWithin token now (skew.getD vault.defaultSkew) = some false := by
          simp [isExpiringWithin, hadd, hdue]
        exact .inl ⟨hskew, by simp [hexp], .ok token, by simp only [hexp]⟩
    · exact .inl ⟨fun hf => hskew (hf rfl), by simp [isExpiringWithin, hadd]⟩

theorem lifetimeSeconds_nonneg (expiresIn : Option Int64) : 0 ≤ lifetimeSeconds expiresIn :=
  le_max_right _ _

theorem expiry_fits {expiresIn : Option Int64} {now : DateTime} (h : LifetimeFits expiresIn now) :
    ∃ lifetime expiresAt, expiresInToDuration expiresIn = some lifetime ∧
      addDuration now lifetime = some expiresAt ∧ now.nanos ≤ expiresAt.nanos := by
  have hnonneg := lifetimeSeconds_nonneg expiresIn
  have hlower := now.lower
  unfold LifetimeFits at h
  have hseconds : -9223372036854775 ≤ lifetimeSeconds expiresIn ∧
      lifetimeSeconds expiresIn ≤ 9223372036854775 := by omega
  have hsum : -8334601228800000000000 ≤ now.nanos+lifetimeSeconds expiresIn*1000000000 ∧
      now.nanos+lifetimeSeconds expiresIn*1000000000 ≤ 8210266876799999999999 := by omega
  refine ⟨⟨lifetimeSeconds expiresIn*1000000000, by omega, by omega⟩,
    ⟨now.nanos+lifetimeSeconds expiresIn*1000000000, hsum.1, hsum.2⟩, ?_, ?_, ?_⟩
  · rw [expiresInToDuration, Duration.seconds, dif_pos hseconds]
  · rw [addDuration, dif_pos hsum]
  · dsimp only
    omega

theorem expiry_not_fits {expiresIn : Option Int64} {now : DateTime}
    (h : ¬LifetimeFits expiresIn now) {lifetime : Duration}
    (hl : expiresInToDuration expiresIn = some lifetime) : addDuration now lifetime = none := by
  unfold expiresInToDuration Duration.seconds at hl
  split at hl
  · obtain rfl := Option.some.inj hl
    rw [addDuration, dif_neg]
    exact fun hfits => h hfits.2
  · cases hl

section

variable {resp : TokenResponse} {now : DateTime}

theorem tokenResponseToOauth2_fits (h : LifetimeFits resp.expiresIn now) : ∃ token, tokenResponseToOauth2 resp now = some token ∧
      token.refreshToken = resp.refreshToken ∧ token.scope = resp.scope.getD "" ∧
      now.nanos ≤ token.expiresAt := by
  obtain ⟨lifetime, expiresAt, hl, he, hle⟩ := expiry_fits h
  obtain ⟨accessToken, refreshToken, expiresIn, scope, tokenType⟩ := resp
  simp only at hl
  cases refreshToken <;> cases tokenType <;>
    simp [tokenResponseToOauth2, hl, he, newToken, newWithoutRefresh, hle]

theorem tokenResponseToOauth2_not_fits (h : ¬LifetimeFits resp.expiresIn now) : tokenResponseToOauth2 resp now = none := by
  unfold tokenResponseToOauth2
  cases hl : expiresInToDuration resp.expiresIn with
  | none => rfl
  | some lifetime => simp [expiry_not_fits h hl]

theorem tokenResponseToRefreshed_fits (h : LifetimeFits resp.expiresIn now) :
    ∃ refreshed, tokenResponseToRefreshed resp now = some refreshed ∧
      refreshed.refreshToken = resp.refreshToken ∧ refreshed.scope = resp.scope ∧
      now.nanos ≤ refreshed.expiresAt := by
  obtain ⟨lifetime, expiresAt, hl, he, hle⟩ := expiry_fits h
  simp [tokenResponseToRefreshed, hl, he, hle]

theorem tokenResponseToRefreshed_not_fits (h : ¬LifetimeFits resp.expiresIn now) : tokenResponseToRefreshed resp now = none := by
  unfold tokenResponseToRefreshed
  cases hl : expiresInToDuration resp.expiresIn with
  | none => rfl
  | some lifetime => simp [expiry_not_fits h hl]

end

/-- A token as a list of responses, the exchange first, leaves it: what was sent last counts. -/
structure Follows (token : OAuth2Token) (responses : List (TokenResponse × DateTime)) : Prop where
  refreshToken : token.refreshToken = responses.reverse.findSome? (·.1.refreshToken)
  scope : token.scope = (responses.reverse.findSome? (·.1.scope)).getD ""
  expiresAt : ∃ last ∈ responses.getLast?, last.2.nanos ≤ token.expiresAt

theorem Follows.exchanged {resp : TokenResponse} {now : DateTime} {token : OAuth2Token}
    (hr : token.refreshToken = resp.refreshToken) (hs : token.scope = resp.scope.getD "")
    (he : now.nanos ≤ token.expiresAt) : Follows token [(resp, now)] := by
  refine ⟨?_, ?_, (resp, now), rfl, he⟩
  · cases h : resp.refreshToken <;> simp [hr, h]
  · cases h : resp.scope <;> simp [hs, h]

theorem Follows.refreshed {resp : TokenResponse} {now : DateTime} {token : OAuth2Token}
    {responses : List (TokenResponse × DateTime)} (h : Follows token responses)
    {refreshed : RefreshedToken} (hr : refreshed.refreshToken = resp.refreshToken)
    (hs : refreshed.scope = resp.scope) (he : now.nanos ≤ refreshed.expiresAt) :
    Follows (token.refreshed refreshed) (responses ++ [(resp, now)]) := by
  refine ⟨?_, ?_, (resp, now), by simp, he⟩
  · cases hsent : resp.refreshToken <;>
      simp [OAuth2Token.refreshed, hr, hsent, h.refreshToken]
  · cases hsent : resp.scope <;> simp [OAuth2Token.refreshed, hs, hsent, h.scope]

/-- The vault and, for each entry, the responses since its last exchange, that one first. -/
structure TokenBooks where
  vault : OAuth2TokenVault
  responses : Uuid → List (TokenResponse × DateTime)

open TokenBooks

namespace TokenBooks

def new (skew : Duration) : TokenBooks := ⟨.withDefaultSkew skew, fun _ => []⟩

def record (books : TokenBooks) (call : TokenCall) (inst : Uuid) :
    List (TokenResponse × DateTime) :=
  match call.response books.vault with
  | none => books.responses inst
  | some answer =>
    if inst = call.inst then
      match call with
      | .exchange .. => [answer]
      | .refresh .. => books.responses inst ++ [answer]
    else books.responses inst

def call (books : TokenBooks) (call : TokenCall) :
    Option (Except ConnectorError OAuth2Token × TokenBooks) :=
  (call.run books.vault).map fun (result, vault) => (result, ⟨vault, books.record call⟩)

def Kept (books : TokenBooks) : Prop :=
  ∀ inst, match books.vault.tokens.lookup inst with
    | none => books.responses inst = []
    | some token => Follows token (books.responses inst)

/-- No call panics or leaves an entry that does not follow its responses, and a failed one
leaves the vault as it was. -/
def Survives : TokenBooks → List TokenCall → Prop
  | books, [] => books.Kept
  | books, call :: calls => books.Kept ∧ ∃ result books', books.call call = some (result, books') ∧
      (∀ e, result = .error e → books'.vault = books.vault) ∧ books'.Survives calls

def AllFit : TokenBooks → List TokenCall → Prop
  | _, [] => True
  | books, call :: calls => call.Fits books.vault ∧
      ∀ result books', books.call call = some (result, books') → books'.AllFit calls

theorem Kept.unanswered {books : TokenBooks} (h : books.Kept) {call : TokenCall}
    (hr : call.response books.vault = none) : Kept ⟨books.vault, books.record call⟩ := by
  intro inst
  simp only [record, hr]
  exact h inst

theorem Kept.put {books : TokenBooks} (h : books.Kept) {call : TokenCall} {token : OAuth2Token}
    (hfollows : Follows token (books.record call call.inst)) :
    Kept ⟨books.vault.put call.inst token, books.record call⟩ := by
  intro inst
  simp only [OAuth2TokenVault.put, Table.lookup_insert_ite]
  by_cases hi : inst = call.inst
  · subst hi
    simpa using hfollows
  · have hother : books.record call inst = books.responses inst := by
      unfold record
      split
      · rfl
      · rw [if_neg hi]
    simpa only [if_neg hi, hother] using h inst

theorem exchange_panics (books : TokenBooks) (inst : Uuid) {resp : TokenResponse}
    {now : DateTime} (h : ¬LifetimeFits resp.expiresIn now) :
    books.call (.exchange inst (.ok (resp, now))) = none := by
  simp [call, run, tokenResponseToOauth2_not_fits h]

theorem Kept.exchange {books : TokenBooks} (h : books.Kept) (inst : Uuid) (answer : Answer) :
    let call := exchange inst answer
    (call.Fits books.vault ∧ ∃ result books', books.call call = some (result, books') ∧
      (∀ e, result = .error e → books'.vault = books.vault) ∧ books'.Kept) ∨
    (¬call.Fits books.vault ∧ books.call call = none) := by
  cases answer with
  | error e =>
    refine .inl ⟨⟨trivial, by simp [response, Except.toOption]⟩, .error e, _, rfl,
      fun _ _ => rfl, h.unanswered rfl⟩
  | ok answer =>
    obtain ⟨resp, now⟩ := answer
    by_cases hfits : LifetimeFits resp.expiresIn now
    · obtain ⟨token, htoken, hr, hs, he⟩ := tokenResponseToOauth2_fits hfits
      refine .inl ⟨⟨trivial, by simpa [response, Except.toOption] using hfits⟩, .ok token,
        ⟨books.vault.put inst token, books.record (.exchange inst (.ok (resp, now)))⟩, ?_,
        fun _ he => (by cases he), ?_⟩
      · simp [call, run, htoken]
      · refine @Kept.put books h (.exchange inst (.ok (resp, now))) token ?_
        simpa [record, TokenCall.response, TokenCall.inst, Except.toOption] using
          Follows.exchanged hr hs he
    · exact .inr ⟨fun hf => hfits (hf.2 (resp, now) rfl), exchange_panics books inst hfits⟩

theorem Kept.refresh {books : TokenBooks} (h : books.Kept) (inst : Uuid) (now : DateTime)
    (skew : Option Duration) (provider : String → Answer) :
    let call := TokenCall.refresh inst now skew provider
    (call.Fits books.vault ∧ ∃ result books', books.call call = some (result, books') ∧
      (∀ e, result = .error e → books'.vault = books.vault) ∧ books'.Kept) ∨
    (¬call.Fits books.vault ∧ books.call call = none) := by
  obtain ⟨hskew, hrun⟩ | ⟨hskew, hr, result, hrun⟩ |
    ⟨hskew, token, resp, now', hl, hr, hrun⟩ :=
    TokenCall.refresh_cases books.vault inst now skew provider
  · exact .inr ⟨fun hf => hskew hf.1, by simp [call, hrun]⟩
  · refine .inl ⟨⟨hskew, by simp [hr]⟩, result,
      ⟨books.vault, books.record (.refresh inst now skew provider)⟩, ?_, fun _ _ => rfl,
      h.unanswered hr⟩
    simp [call, hrun]
  · by_cases hfits : LifetimeFits resp.expiresIn now'
    · obtain ⟨refreshed, hrefreshed, hrt, hs, he⟩ := tokenResponseToRefreshed_fits hfits
      have hinst := h inst
      rw [hl] at hinst
      refine .inl ⟨⟨hskew, by simpa [hr] using hfits⟩, .ok (token.refreshed refreshed),
        ⟨books.vault.put inst (token.refreshed refreshed),
          books.record (.refresh inst now skew provider)⟩, ?_, fun _ he => (by cases he), ?_⟩
      · simp [call, hrun, hrefreshed]
      · refine @Kept.put books h (.refresh inst now skew provider) (token.refreshed refreshed) ?_
        simpa [record, hr, TokenCall.inst] using hinst.refreshed hrt hs he
    · refine .inr ⟨fun hf => hfits (hf.2 (resp, now') hr), ?_⟩
      simp [call, hrun, tokenResponseToRefreshed_not_fits hfits]

theorem Kept.call {books : TokenBooks} (h : books.Kept) (call : TokenCall) :
    (call.Fits books.vault ∧ ∃ result books', books.call call = some (result, books') ∧
      (∀ e, result = .error e → books'.vault = books.vault) ∧ books'.Kept) ∨
    (¬call.Fits books.vault ∧ books.call call = none) :=
  match call with
  | .exchange inst answer => h.exchange inst answer
  | .refresh inst now skew provider => h.refresh inst now skew provider

theorem Kept.survives_iff {books : TokenBooks} (h : books.Kept) (calls : List TokenCall) :
    books.Survives calls ↔ books.AllFit calls := by
  induction calls generalizing books with
  | nil => exact ⟨fun _ => trivial, fun _ => h⟩
  | cons call calls ih =>
    obtain ⟨hfits, result, books', hcall, herror, hkept⟩ | ⟨hfits, hcall⟩ := h.call call
    · simp only [Survives, AllFit, hcall, Option.some.injEq, Prod.mk.injEq]
      constructor
      · rintro ⟨-, _, _, ⟨rfl, rfl⟩, -, hrest⟩
        refine ⟨hfits, ?_⟩
        rintro _ _ ⟨rfl, rfl⟩
        exact (ih hkept).mp hrest
      · rintro ⟨-, hrest⟩
        exact ⟨h, result, books', ⟨rfl, rfl⟩, herror, (ih hkept).mpr (hrest _ _ ⟨rfl, rfl⟩)⟩
    · simp [Survives, AllFit, hcall, hfits]

theorem kept_new (skew : Duration) : (new skew).Kept := fun _ => rfl

end TokenBooks

/-- Exchanges and refreshes keep the books exactly when every lifetime and every look ahead ends
within the calendar. -/
theorem token_books_survive_iff (skew : Duration) (calls : List TokenCall) :
    (new skew).Survives calls ↔ (new skew).AllFit calls :=
  (kept_new skew).survives_iff calls

def epoch : DateTime := Knowledge.Runtime.SynthesisRate.TokenBucket.sampleStart

def sixtySeconds : Duration := ⟨60000000000, by decide, by decide⟩

def lasting (expiresIn : Int64) : TokenResponse :=
  ⟨"ya29", some "1//r", some expiresIn, none, none⟩

/-- What `Duration::seconds` does not hold, and what it holds but the calendar does not. -/
theorem lifetime_panics :
    (new sixtySeconds).call (.exchange 1 (.ok (lasting 9223372036854775807, epoch))) =
        none ∧
      expiresInToDuration (lasting 9223372036854775807).expiresIn = none ∧
      (expiresInToDuration (lasting 9000000000000).expiresIn).isSome = true ∧
      (new sixtySeconds).call (.exchange 1 (.ok (lasting 9000000000000, epoch))) =
        none ∧
      ¬(new sixtySeconds).Survives
        [.exchange 1 (.ok (lasting 9000000000000, epoch))] := by
  have hlargest : ¬LifetimeFits (lasting 9223372036854775807).expiresIn epoch := by decide +kernel
  have hlong : ¬LifetimeFits (lasting 9000000000000).expiresIn epoch := by decide +kernel
  have hpanics := exchange_panics (.new sixtySeconds) 1 hlong
  refine ⟨exchange_panics _ 1 hlargest, by decide +kernel, by decide +kernel, hpanics,
    ?_⟩
  intro h
  obtain ⟨_, _, hcall, -⟩ := h.2
  exact absurd (hpanics.symm.trans hcall) (by simp)

end Knowledge.Connector
