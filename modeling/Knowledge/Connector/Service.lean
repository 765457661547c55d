import Knowledge.Lib.Machine
import Knowledge.Tenancy.Updates

/-!
`server/internal/connector`: the four places that hold a connector, the handlers that create,
activate and remove one, one atomic step at a time, and the rehydration of a service that starts
anew. Every call to the substrate and to the durable store succeeds.
-/

set_option autoImplicit false

namespace Knowledge.Connector
open Knowledge.Machine
open Knowledge.Serial
open Knowledge.Tenancy

structure Registration where
  instanceId : String
  kind : String
  scopeId : String
  webhookUrl : String
  webhookActive : Bool
  syncInterval : Int
  createdAt : Int

structure Settings where
  publicBaseUrl : String
  syncInterval : Int
  positive : 0 < syncInterval

/-- The instance ids that the substrate makes, in order: no two are the same, none is empty. -/
structure Mint where
  id : Nat → String
  injective : Function.Injective id
  nonempty : ∀ k, id k ≠ ""

inductive Ack where
  | created
  | removed
  deriving DecidableEq

/-- The substrate's connectors and how many it has made, the durable registrations, the cache, the
jobs of the scheduler with their intervals, and the acknowledgements so far, newest first. -/
structure World where
  live : List String
  next : Nat
  durable : Table String Registration
  cache : Table String Registration
  scheduled : Table String Int
  acks : List (String × Ack)

def World.empty : World := ⟨[], 0, ∅, ∅, ∅, []⟩

/-- The row of a registration. `created_at` is of whole microseconds. -/
def Registration.stored (r : Registration) : Registration :=
  { r with createdAt := wholeMicros r.createdAt }

namespace World

section

variable (w : World)

def save (r : Registration) : World :=
  match w.durable.lookup r.instanceId with
  | none => { w with durable := w.durable.insert r.instanceId r.stored }
  | some old =>
    { w with durable := w.durable.insert r.instanceId { r with createdAt := old.createdAt } }

def put (r : Registration) : World :=
  { w with cache := w.cache.insert r.instanceId r }

def schedule (id : String) (interval : Int) : World :=
  if interval ≤ 0 then w else { w with scheduled := w.scheduled.insert id interval }

def unschedule (id : String) : World := { w with scheduled := w.scheduled.erase id }

def dropCached (id : String) : World := { w with cache := w.cache.erase id }

def dropDurable (id : String) : World := { w with durable := w.durable.erase id }

def createConnector (mint : Mint) : World :=
  { w with live := mint.id w.next :: w.live, next := w.next+1 }

def removeConnector (id : String) : World :=
  { w with live := w.live.filter fun other => other ≠ id }

def acknowledge (id : String) (ack : Ack) : World :=
  { w with acks := (id, ack) :: w.acks }

end

end World

inductive Call where
  | create (kind scopeId : String) (now : Int)
  | webhookRegister (id : String)
  | remove (id : String)

inductive Response where
  | created (r : Registration)
  | webhook (url : String)
  | noContent

/-- What a handler has done so far: a creation has made the connector, saved its registration, put
it into the cache; a registration of a webhook has found the cached registration and has the new
one, has saved it; a removal has removed the connector, its job, its place in the cache. -/
inductive Phase where
  | called
  | minted (r : Registration)
  | saved (r : Registration)
  | cached (r : Registration)
  | found (r : Registration)
  | stored (r : Registration)
  | unbound (id : String)
  | unscheduled (id : String)
  | uncached (id : String)
  | returned (r : Except ApiError Response)

def Phase.acknowledged : Phase → Bool
  | .returned (.ok _) => true
  | _ => false

def Phase.finished : Phase → Bool
  | .returned _ => true
  | _ => false

def Registration.activate (r : Registration) (publicBaseUrl id : String) : Registration :=
  { r with
    webhookUrl := publicBaseUrl ++ "/api/v1/connectors/" ++ id ++ "/webhook"
    webhookActive := true }

section

variable (settings : Settings) (mint : Mint) (parseScope : String → Option String)

def begin (w : World) : Call → World × Phase
  | .create kind scopeId now =>
    match parseScope scopeId with
    | none => (w, .returned (.error (badRequest "scope_id must be a UUID")))
    | some scope =>
      if kind = "" then (w, .returned (.error (badRequest "kind is required")))
      else (w.createConnector mint,
        .minted ⟨mint.id w.next, kind, scope, "", false, settings.syncInterval, now⟩)
  | .webhookRegister id =>
    match w.cache.lookup id with
    | none => (w, .returned (.error ⟨404, "NotFound", "connector not found"⟩))
    | some r => (w, .found (r.activate settings.publicBaseUrl id))
  | .remove id => (w.removeConnector id, .unbound id)

def proceed (w : World) : Phase → World × Phase
  | .minted r => (w.save r, .saved r)
  | .saved r => (w.put r, .cached r)
  | .cached r =>
    ((w.schedule r.instanceId settings.syncInterval).acknowledge r.instanceId .created,
      .returned (.ok (.created r)))
  | .found r => (w.save r, .stored r)
  | .stored r => (w.put r, .returned (.ok (.webhook r.webhookUrl)))
  | .unbound id => (w.unschedule id, .unscheduled id)
  | .unscheduled id => (w.dropCached id, .uncached id)
  | .uncached id => ((w.dropDurable id).acknowledge id .removed, .returned (.ok .noContent))
  | phase => (w, phase)

def step (w : World) (c : Call) : Phase → World × Phase
  | .called => begin settings mint parseScope w c
  | phase => proceed settings w phase

def service : Service World Call Phase :=
  ⟨.called, 4, step settings mint parseScope, Phase.acknowledged⟩

end

/-- One registration on a service that starts: dropped if the substrate has no such connector,
else cached and scheduled. -/
def restore (fallback : Int) (live : Option (List String)) (w : World) (r : Registration) : World :=
  if (live.map fun ids => ids.contains r.instanceId) = some false then w.dropDurable r.instanceId
  else (w.put r).schedule r.instanceId (if r.syncInterval ≤ 0 then fallback else r.syncInterval)

/-- The connectors that registrations are reconciled against. A list without connectors is not
believed while there are registrations. -/
def reconciled (listed : Option (List String)) (regs : List Registration) : Option (List String) :=
  let live := listed.map fun ids => ids.filter fun id => id ≠ ""
  if regs ≠ [] ∧ live = some [] then none else live

/-- `Rehydrate`, with the registrations as the durable store lists them and the connectors as the
substrate does, if it does. -/
def rehydrate (fallback : Int) (listed : Option (List String)) (regs : List Registration)
    (w : World) : World := regs.foldl (restore fallback (reconciled listed regs)) w

/-- A service on the same substrate and durable store that has not done anything yet. -/
def World.fresh (w : World) : World := { w with cache := ∅, scheduled := ∅, acks := [] }

end Knowledge.Connector
