import StickyProxy.Health.Model.Checker
import StickyProxy.Discovery.Model.Kubernetes
/-!
# Two controllers of the active set

The health checker beside a discovery: the DNS discovery, the Kubernetes
one, or both. A reconcile of theirs may begin between any two steps of a
round, and each of its calls may fail. The results of all probes are
recorded, so that one can say of a backend how many of its last probes have
failed in a row, whatever the checker has forgotten since.
-/

namespace StickyProxy

namespace Health

/-- The checker, the discoveries, and the probes so far, the last one
first. -/
structure Controllers where
  health : System
  /-- The port of the DNS discovery. -/
  port : String
  dns : Dns.Phase := .idle
  kubernetes : Kubernetes.Discovery
  probes : List (Backend × Bool) := []

inductive ControllerAction where
  /-- A step of a round. -/
  | health (a : Action)
  /-- `LookupHost`; nothing if it fails. -/
  | lookupHost (ips : Option (List String))
  /-- `ActiveBackends` of the DNS discovery, and the order in which it goes
  through what it has discovered; nothing if it fails. -/
  | activeBackends (reply : Option (List Backend × List Backend))
  /-- The next call of the DNS reconcile. -/
  | dnsCall (outcome : CallOutcome)
  /-- The last call was made. -/
  | dnsEnd
  | reconcile (order gone : List Backend)
  /-- The next call of the Kubernetes reconcile. -/
  | kubernetesCall (outcome : CallOutcome)
  /-- A drain that is over removes its backend. -/
  | drained (b : Backend)
  deriving DecidableEq

namespace Controllers

/-- The probe a step of the checker ends, before those there are. -/
def record (probes : List (Backend × Bool)) : Action → List (Backend × Bool)
  | .probe b success => (b, success) :: probes
  | _ => probes

/-- How many of the last probes of a backend have failed in a row. -/
def streak (s : Controllers) (b : Backend) : ℕ :=
  ((s.probes.filter fun p => p.1 = b).takeWhile fun p => p.2 = false).length

/-- The store is the one the checker writes to. -/
def setStore (store : Store) (s : Controllers) : Controllers :=
  { s with health := { s.health with store } }

/-- The steps of the checker; what others do to the store is theirs. -/
def checkerStep (s : Controllers) : Action → Option Controllers
  | .addBackend _ | .removeBackend _ => none
  | a => (step s.health a).map fun health => { s with health, probes := record s.probes a }

def step (s : Controllers) : ControllerAction → Option Controllers
  | .health a => s.checkerStep a
  | .lookupHost ips =>
    match s.dns with
    | .idle => some { s with
        dns := (ips.map fun ips => Dns.Phase.resolved (Dns.discovered s.port ips)).getD .idle }
    | _ => none
  | .activeBackends reply =>
    match s.dns, reply with
    | .resolved _, none => some { s with dns := .idle }
    | .resolved discovered, some (current, order) =>
      if Enumerates current s.health.store.active ∧ Enumerates order discovered then
        some { s with dns := .reconciling (Dns.calls discovered order current) }
      else none
    | _, _ => none
  | .dnsCall outcome =>
    match s.dns with
    | .reconciling (c :: rest) =>
      some ({ s with dns := .reconciling rest }.setStore (outcome.run s.health.store c))
    | _ => none
  | .dnsEnd =>
    match s.dns with
    | .reconciling [] => some { s with dns := .idle }
    | _ => none
  | .reconcile order gone => (s.kubernetes.reconcile order gone).map fun d =>
      { s with kubernetes := d }
  | .kubernetesCall outcome =>
    match s.kubernetes.calls with
    | c :: rest =>
      some ({ s with kubernetes := { s.kubernetes with calls := rest } }.setStore
        (outcome.run s.health.store c))
    | [] => none
  | .drained b => some (s.setStore (s.health.store.removeBackend b))

end Controllers

end Health

end StickyProxy
