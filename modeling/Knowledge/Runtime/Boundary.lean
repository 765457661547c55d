import Knowledge.Memory.Policy

/-!
`crates/ffi/src/error.rs` and the argument checks of `crates/ffi/src/lib.rs`: what every call of
the FFI answers with, and how it reads the identifiers it is given. The `uuid` crate's parser is a
parameter.
-/

set_option autoImplicit false

namespace Knowledge.Runtime
open Knowledge.Sync (Uuid)
open Knowledge.Memory (ScopeId)

inductive FfiError where
  | unimplemented (method : String)
  | invalidId (message : String)
  | invalidQuery (message : String)
  | notFound (kind id : String)
  | evidence (message : String)
  | memory (message : String)
  | synthesis (message : String)
  | crypto (message : String)
  | unavailable (subsystem : String)
  | inferenceFailure (message : String)
  | connector (message : String)
  | throttled (subsystem : String) (retryAfterMs : Nat)
  | modelDownloading (progressPct : Nat)
  deriving DecidableEq

/-- `Uuid::parse_str`: the identifier, or the parser's diagnostic. -/
abbrev UuidParser := String → Except String Uuid

def parseUuid (parse : UuidParser) (s : String) : Except FfiError Uuid :=
  match parse s with
  | .error e => .error (.invalidId ("id: " ++ e))
  | .ok id => .ok id

def parseScopeId (parse : UuidParser) (s : String) : Except FfiError ScopeId :=
  match parse s with
  | .error e => .error (.invalidId ("scope_id: " ++ e))
  | .ok id =>
    if id = 0 then
      .error (.invalidId ("scope_id: nil UUID is reserved as a substrate sentinel; " ++
        "hosts MUST supply a non-nil v4 UUID"))
    else .ok id

abbrev Answer := Except String Unit

def Answer.orEvidence : Answer → Except FfiError Unit
  | .ok _ => .ok ()
  | .error e => .error (.evidence e)

end Knowledge.Runtime
