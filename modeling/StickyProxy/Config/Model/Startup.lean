import StickyProxy.Config.Model.Load
/-!
# Starting the proxy

`main` loads the configuration, builds the proxy with `New` and starts its
background work. `New` chooses the implementation of each part, and returns
with the error of the first connection that cannot be opened. What the
libraries make of the configuration is their affair: a constructor of theirs
may succeed, fail, or panic, as that of the Redis client does for some sizes
of its pool. The background loops are driven by tickers, and `time.NewTicker`
panics when the interval is not positive, which ends the process whichever
goroutine it is in.
-/

namespace StickyProxy.Configuration

/-- How the constructor of a library ends. -/
inductive Opening where
  | ok
  | failed (cause : String)
  | panicked
  deriving DecidableEq, Repr

/-- The constructors that `New` may call, by the configuration. -/
structure World where
  /-- `redis.NewClient`, in `NewRedis`. -/
  redis : Config → Opening
  postgresStore : Config → Opening
  postgresSource : Config → Opening
  kubernetes : Config → Opening

/-- How `New` ends without a proxy. -/
inductive NewError where
  | failed (cause : String)
  /-- A nil `*Redis` is asked for its client. -/
  | nilPointer
  /-- A library panics. -/
  | panicked
  deriving DecidableEq, Repr

/-- The limits of the transport to the backends. -/
structure Transport where
  maxConnsPerHost : ℤ
  maxIdleConnsPerHost : ℤ
  maxIdleConns : ℤ
  idleConnTimeout : Duration
  deriving DecidableEq, Repr

/-- What wraps around in a Go `int`. -/
def wrap (n : ℤ) : ℤ := Int.bmod n (2 ^ 64)

/-- The defaults in `NewBackendManager`. -/
def newTransport (maxConns maxIdle : ℤ) (idleTimeout : Duration) : Transport :=
  let maxConns := if maxConns ≤ 0 then 500 else maxConns
  let maxIdle := if maxIdle ≤ 0 then maxConns else maxIdle
  let idleTimeout := if idleTimeout ≤ 0 then 90 * second else idleTimeout
  let maxIdleTotal := wrap (maxIdle * 10)
  ⟨maxConns, maxIdle, if maxIdleTotal < 1000 then 1000 else maxIdleTotal, idleTimeout⟩

/-- The parts of a proxy, as far as `New` chooses them. -/
structure Parts where
  store : AssignmentStore
  /-- There is a `*Redis`. -/
  redis : Bool
  notifier : Option AssignmentStore
  distLocker : Option AssignmentStore
  routingMode : RoutingMode
  /-- The timeout and the retries of the hooks. -/
  hooks : Option (Duration × ℤ)
  holdMgr : Option Duration
  transport : Transport
  /-- The source of the accounts and how often it is asked. -/
  discovery : Option (AccountsDiscovery × Duration)
  rebalancer : Option RebalanceStrategy
  /-- The discovery of backends, and how often DNS is asked. -/
  backendDiscovery : Option (BackendDiscovery × Option Duration)
  /-- The threshold and the window of the detector. -/
  poisonPill : Option (ℤ × Duration)
  deriving DecidableEq, Repr

/-- A constructor of a library is called. -/
def opened : Opening → Except NewError Unit
  | .ok => .ok ()
  | .failed cause => .error (.failed cause)
  | .panicked => .error .panicked

/-- The store. -/
def openStore (w : World) (cfg : Config) : Except NewError Unit :=
  match cfg.assignmentStore with
  | .memory => .ok ()
  | .postgres => opened (w.postgresStore cfg)
  | .redis => opened (w.redis cfg)

/-- The account source: from Redis through the client, from Postgres through
a connection of its own. -/
def openSource (w : World) (cfg : Config) (redis : Bool) : Except NewError Unit :=
  match cfg.accountsDiscovery with
  | .redis => if redis then .ok () else .error .nilPointer
  | .postgres => opened (w.postgresSource cfg)
  | .http | .disabled => .ok ()

/-- The discovery of backends. -/
def openBackendDiscovery (w : World) (cfg : Config) : Except NewError Unit :=
  match cfg.backendDiscovery with
  | .kubernetes => opened (w.kubernetes cfg)
  | .dns | .disabled => .ok ()

/-- What `New` puts together. -/
def assemble (cfg : Config) : Parts where
  store := cfg.assignmentStore
  redis := cfg.assignmentStore = .redis
  notifier :=
    match cfg.assignmentStore with
    | .memory => none
    | .postgres => some .postgres
    | .redis => some .redis
  distLocker :=
    if cfg.assignmentStore = .redis then some .redis
    else if cfg.assignmentStore = .postgres then some .postgres
    else none
  routingMode := cfg.routingMode
  hooks := if cfg.hooksEnabled then some (cfg.hooksTimeout, cfg.hooksRetries) else none
  holdMgr := if cfg.holdDuringTransition then some cfg.holdTimeout else none
  transport := newTransport cfg.backendMaxConnsPerHost cfg.backendMaxIdleConnsPerHost
    cfg.backendIdleConnTimeout
  discovery :=
    if cfg.accountsDiscovery ≠ .disabled then
      some (cfg.accountsDiscovery, cfg.accountsRefreshInterval)
    else none
  rebalancer := if cfg.rebalanceStrategy ≠ .none then some cfg.rebalanceStrategy else none
  backendDiscovery :=
    match cfg.backendDiscovery with
    | .disabled => none
    | .dns => some (.dns, some cfg.backendDiscoveryInterval)
    | .kubernetes => some (.kubernetes, none)
  poisonPill :=
    if cfg.poisonPillAction = .quarantine then
      some (cfg.poisonPillThreshold, cfg.poisonPillWindow)
    else none

/-- `New`. -/
def new (w : World) (cfg : Config) : Except NewError Parts := do
  openStore w cfg
  openSource w cfg (cfg.assignmentStore = .redis)
  openBackendDiscovery w cfg
  return assemble cfg

/-- The intervals of the tickers: of the cache, the JWT cache, the rate
limiter, the health checker, and of the loops that are configured. -/
def Parts.tickers (p : Parts) : List Duration :=
  [2 * minute, minute, minute, 10 * second] ++ (p.poisonPill.map Prod.snd).toList ++
    (p.discovery.map Prod.snd).toList ++ (p.backendDiscovery.bind Prod.snd).toList

/-- What becomes of the process. -/
inductive Launch where
  /-- It exits with status 1 and logs why. -/
  | exited (message : String)
  | panicked
  | serving (p : Parts)
  deriving DecidableEq, Repr

/-- `main`, until the proxy serves. -/
def launch (lib : Library) (w : World) (env : Env) : Launch :=
  match load lib env with
  | .error e => .exited (e.message lib)
  | .ok cfg =>
    match new w cfg with
    | .error (.failed cause) => .exited cause
    | .error .nilPointer | .error .panicked => .panicked
    | .ok p => if p.tickers.any (· ≤ 0) then .panicked else .serving p

end StickyProxy.Configuration
