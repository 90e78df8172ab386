import StickyProxy.Proxy.Model.Serve
import Mathlib.Data.List.DropRight
/-!
# The configuration

`Load` reads its variables in order, and returns with the first one that it
cannot read or does not accept. A variable that is empty is one that is not
set. What Go's library does with a duration and with a quoted text is
taken as given; `strconv.Atoi`, `strings.Split` and `strings.TrimSpace` are
written out.
-/

namespace StickyProxy.Configuration

/-- The variables of the environment that `Load` reads. -/
inductive Var where
  | proxyPort | redisAddr | jwtSecret | cacheTTL | redisPoolSize | redisMinIdleConns
  | redisCBThreshold | redisCBCooldown | jwtCacheMaxSize | evictionThreshold | evictionCooldown
  | backendHealthInterval | routingClaim | hooksEnabled | hooksTimeout | hooksRetries
  | drainTimeout | drainOnUnhealthy | routingMode | accountsDiscovery | accountsQuery
  | postgresDSN | accountsRefreshInterval | rebalanceStrategy | rebalanceOnScale
  | backendDiscovery | backendDiscoveryHost | backendDiscoveryPort | backendDiscoveryInterval
  | backendDiscoveryNamespace | backendDiscoverySelector | backendDiscoveryPortName
  | assignmentStore | wsSwapOnRebalance | holdDuringTransition | holdTimeout | poisonPillAction
  | poisonPillThreshold | poisonPillWindow | backendMaxConnsPerHost | backendMaxIdleConnsPerHost
  | backendIdleConnTimeout | publicPaths | adminToken | logFormat
  deriving DecidableEq, Repr

/-- The name of a variable. -/
def Var.name : Var → String
  | .proxyPort => "PROXY_PORT"
  | .redisAddr => "REDIS_ADDR"
  | .jwtSecret => "JWT_SECRET"
  | .cacheTTL => "CACHE_TTL"
  | .redisPoolSize => "REDIS_POOL_SIZE"
  | .redisMinIdleConns => "REDIS_MIN_IDLE_CONNS"
  | .redisCBThreshold => "REDIS_CB_THRESHOLD"
  | .redisCBCooldown => "REDIS_CB_COOLDOWN"
  | .jwtCacheMaxSize => "JWT_CACHE_MAX_SIZE"
  | .evictionThreshold => "EVICTION_THRESHOLD"
  | .evictionCooldown => "EVICTION_COOLDOWN"
  | .backendHealthInterval => "BACKEND_HEALTH_INTERVAL"
  | .routingClaim => "ROUTING_CLAIM"
  | .hooksEnabled => "HOOKS_ENABLED"
  | .hooksTimeout => "HOOKS_TIMEOUT"
  | .hooksRetries => "HOOKS_RETRIES"
  | .drainTimeout => "DRAIN_TIMEOUT"
  | .drainOnUnhealthy => "DRAIN_ON_UNHEALTHY"
  | .routingMode => "ROUTING_MODE"
  | .accountsDiscovery => "ACCOUNTS_DISCOVERY"
  | .accountsQuery => "ACCOUNTS_QUERY"
  | .postgresDSN => "POSTGRES_DSN"
  | .accountsRefreshInterval => "ACCOUNTS_REFRESH_INTERVAL"
  | .rebalanceStrategy => "REBALANCE_STRATEGY"
  | .rebalanceOnScale => "REBALANCE_ON_SCALE"
  | .backendDiscovery => "BACKEND_DISCOVERY"
  | .backendDiscoveryHost => "BACKEND_DISCOVERY_HOST"
  | .backendDiscoveryPort => "BACKEND_DISCOVERY_PORT"
  | .backendDiscoveryInterval => "BACKEND_DISCOVERY_INTERVAL"
  | .backendDiscoveryNamespace => "BACKEND_DISCOVERY_NAMESPACE"
  | .backendDiscoverySelector => "BACKEND_DISCOVERY_SELECTOR"
  | .backendDiscoveryPortName => "BACKEND_DISCOVERY_PORT_NAME"
  | .assignmentStore => "ASSIGNMENT_STORE"
  | .wsSwapOnRebalance => "WS_SWAP_ON_REBALANCE"
  | .holdDuringTransition => "HOLD_DURING_TRANSITION"
  | .holdTimeout => "HOLD_TIMEOUT"
  | .poisonPillAction => "POISON_PILL_ACTION"
  | .poisonPillThreshold => "POISON_PILL_THRESHOLD"
  | .poisonPillWindow => "POISON_PILL_WINDOW"
  | .backendMaxConnsPerHost => "BACKEND_MAX_CONNS_PER_HOST"
  | .backendMaxIdleConnsPerHost => "BACKEND_MAX_IDLE_CONNS_PER_HOST"
  | .backendIdleConnTimeout => "BACKEND_IDLE_CONN_TIMEOUT"
  | .publicPaths => "PUBLIC_PATHS"
  | .adminToken => "ADMIN_TOKEN"
  | .logFormat => "LOG_FORMAT"

/-- The environment, with the empty text for what is not set. -/
abbrev Env := Var → String

/-- A `time.Duration`, in nanoseconds. -/
abbrev Duration := ℤ

def millisecond : Duration := 1000000
def second : Duration := 1000 * millisecond
def minute : Duration := 60 * second
def hour : Duration := 60 * minute

/-- What fits a Go `int` or a `time.Duration`. -/
def Word (n : ℤ) : Prop := -2 ^ 63 ≤ n ∧ n < 2 ^ 63

instance (n : ℤ) : Decidable (Word n) := inferInstanceAs (Decidable (_ ∧ _))

/-- The parts of Go's library that are taken as given: how `%q` writes a text
and what `time.ParseDuration` reads. It reads any duration that is given in
nanoseconds, and what it reads is a duration. -/
structure Library where
  quote : String → String
  parseDuration : String → Except String Duration
  parseDuration_ns : ∀ d, Word d → parseDuration (toString d ++ "ns") = .ok d
  word_of_parseDuration : ∀ s d, parseDuration s = .ok d → Word d

/-- `ACCOUNTS_DISCOVERY`. -/
inductive AccountsDiscovery where
  | disabled | redis | http | postgres
  deriving DecidableEq, Repr

/-- `REBALANCE_STRATEGY`. -/
inductive RebalanceStrategy where
  | none | leastLoaded | consistentHash
  deriving DecidableEq, Repr

/-- `BACKEND_DISCOVERY`. -/
inductive BackendDiscovery where
  | disabled | dns | kubernetes
  deriving DecidableEq, Repr

/-- `ASSIGNMENT_STORE`. -/
inductive AssignmentStore where
  | memory | redis | postgres
  deriving DecidableEq, Repr

/-- `POISON_PILL_ACTION`. -/
inductive PoisonPillAction where
  | disabled | quarantine
  deriving DecidableEq, Repr

/-- `LOG_FORMAT`. -/
inductive LogFormat where
  | json | text
  deriving DecidableEq, Repr

/-- Go's `Config`. -/
structure Config where
  proxyPort : String
  redisAddr : String
  jwtSecret : String
  adminToken : String
  cacheTTL : Duration
  redisPoolSize : ℤ
  redisMinIdleConns : ℤ
  redisCBThreshold : ℤ
  redisCBCooldown : Duration
  jwtCacheMaxSize : ℤ
  evictionThreshold : ℤ
  evictionCooldown : Duration
  backendHealthInterval : Duration
  logFormat : LogFormat
  routingClaim : String
  hooksEnabled : Bool
  hooksTimeout : Duration
  hooksRetries : ℤ
  drainTimeout : Duration
  drainOnUnhealthy : Bool
  routingMode : RoutingMode
  accountsDiscovery : AccountsDiscovery
  accountsQuery : String
  accountsRefreshInterval : Duration
  postgresDSN : String
  rebalanceStrategy : RebalanceStrategy
  rebalanceOnScale : Bool
  backendDiscovery : BackendDiscovery
  backendDiscoveryHost : String
  backendDiscoveryPort : String
  backendDiscoveryInterval : Duration
  backendDiscoveryNamespace : String
  backendDiscoverySelector : String
  backendDiscoveryPortName : String
  assignmentStore : AssignmentStore
  holdDuringTransition : Bool
  holdTimeout : Duration
  wsSwapOnRebalance : Bool
  poisonPillAction : PoisonPillAction
  poisonPillThreshold : ℤ
  poisonPillWindow : Duration
  publicPaths : List String
  backendMaxConnsPerHost : ℤ
  backendMaxIdleConnsPerHost : ℤ
  backendIdleConnTimeout : Duration
  deriving DecidableEq, Repr

/-- Why `Load` fails. -/
inductive LoadError where
  /-- A variable that has to be set is not. -/
  | required (v : Var)
  /-- A number or a duration cannot be read. -/
  | invalid (v : Var) (cause : String)
  /-- A value is not one of the options. -/
  | option (v : Var) (value options : String)
  /-- A variable, or a value of it, needs another one to be set, or to have
  a value. -/
  | requires (v : Var) (value : Option String) (needs : Var) (needed : Option String)
  deriving DecidableEq, Repr

namespace LoadError

/-- The variables that an error names. -/
def vars : LoadError → List Var
  | .required v | .invalid v _ | .option v _ _ => [v]
  | .requires v _ needs _ => [v, needs]

/-- A variable in the text of an error, with its value if it is given. -/
def setting (v : Var) : Option String → String
  | some value => v.name ++ "=" ++ value
  | none => v.name

/-- The text of an error. -/
def message (lib : Library) : LoadError → String
  | .required v => v.name ++ " environment variable is required but not set"
  | .invalid v cause => "invalid " ++ v.name ++ ": " ++ cause
  | .option v value options =>
    "invalid " ++ v.name ++ " " ++ lib.quote value ++ ": must be " ++ options
  | .requires v value needs needed => setting v value ++ " requires " ++ setting needs needed

end LoadError

/-! ## Texts -/

/-- `unicode.IsSpace`. -/
def isSpace (c : Char) : Bool :=
  let n := c.toNat
  9 ≤ n && n ≤ 13 || n == 0x20 || n == 0x85 || n == 0xA0 || n == 0x1680 ||
    0x2000 ≤ n && n ≤ 0x200A || n == 0x2028 || n == 0x2029 || n == 0x202F || n == 0x205F ||
    n == 0x3000

/-- `strings.TrimSpace`. -/
def trimSpace (s : String) : String :=
  String.ofList ((s.toList.dropWhile isSpace).rdropWhile isSpace)

/-- `strings.Split` at commas. -/
def splitCommas (s : String) : List String := (s.toList.splitOn ',').map String.ofList

/-- The digits of a number without a sign. -/
def digits (cs : List Char) : Option ℕ :=
  if cs ≠ [] ∧ cs.all Char.isDigit then some (Nat.ofDigitChars 10 cs 0) else none

/-- A number with or without a sign. -/
def signed (s : String) : Option ℤ :=
  match s.toList with
  | '-' :: cs => (digits cs).map fun n : ℕ => -(n : ℤ)
  | '+' :: cs => (digits cs).map fun n : ℕ => (n : ℤ)
  | cs => (digits cs).map fun n : ℕ => (n : ℤ)

/-- `strconv.Atoi`. -/
def atoi (lib : Library) (s : String) : Except String ℤ :=
  match signed s with
  | none => .error ("strconv.Atoi: parsing " ++ lib.quote s ++ ": invalid syntax")
  | some n =>
    if Word n then .ok n
    else .error ("strconv.Atoi: parsing " ++ lib.quote s ++ ": value out of range")

/-! ## Variables -/

/-- `envOrDefault`. -/
def envOrDefault (env : Env) (key : Var) (fallback : String) : String :=
  if env key ≠ "" then env key else fallback

/-- A variable that is empty or is read by `parse`, with the error that `Load`
makes of a failure. -/
def parsed (parse : String → Except String ℤ) (env : Env) (key : Var) (fallback : ℤ) :
    Except LoadError ℤ :=
  if env key = "" then .ok fallback else (parse (env key)).mapError (.invalid key)

/-- `parseInt`, and what `Load` makes of its error. -/
def parseInt (lib : Library) (env : Env) (key : Var) (fallback : ℤ) : Except LoadError ℤ :=
  parsed (atoi lib) env key fallback

/-- `parseDuration`, and what `Load` makes of its error. -/
def parseDuration (lib : Library) (env : Env) (key : Var) (fallback : Duration) :
    Except LoadError Duration :=
  parsed lib.parseDuration env key fallback

/-- A value that has to be one of some options. -/
def oneOf {A : Type} (key : Var) (options : String) (table : List (String × A)) (value : String) :
    Except LoadError A :=
  match table.lookup value with
  | some a => .ok a
  | none => .error (.option key value options)

/-- A condition on several variables. -/
def check (violated : Bool) (e : LoadError) : Except LoadError Unit :=
  if violated then .error e else .ok ()

def routingModes : List (String × RoutingMode) := [("hash", .hash), ("assignment", .assignment)]

def accountsDiscoveries : List (String × AccountsDiscovery) :=
  [("", .disabled), ("redis", .redis), ("http", .http), ("postgres", .postgres)]

def rebalanceStrategies : List (String × RebalanceStrategy) :=
  [("none", .none), ("least-loaded", .leastLoaded), ("consistent-hash", .consistentHash)]

def backendDiscoveries : List (String × BackendDiscovery) :=
  [("", .disabled), ("dns", .dns), ("kubernetes", .kubernetes)]

def assignmentStores : List (String × AssignmentStore) :=
  [("memory", .memory), ("redis", .redis), ("postgres", .postgres)]

def poisonPillActions : List (String × PoisonPillAction) :=
  [("", .disabled), ("quarantine", .quarantine)]

def logFormats : List (String × LogFormat) := [("json", .json), ("text", .text)]

/-- The port, with a colon in front. -/
def withColon (port : String) : String :=
  if port.toList.head? ≠ some ':' then ":" ++ port else port

/-- The text of `ASSIGNMENT_STORE`, or its default. -/
def storeOrDefault (env : Env) (discovery : AccountsDiscovery) (mode : RoutingMode) : String :=
  if env .assignmentStore ≠ "" then env .assignmentStore
  else if discovery = .postgres then "postgres"
  else if mode = .hash then "memory"
  else "redis"

/-- `PUBLIC_PATHS`. -/
def publicPaths (env : Env) : List String :=
  if env .publicPaths ≠ "" then
    ((splitCommas (env .publicPaths)).map trimSpace).filter (· ≠ "")
  else []

/-- The conditions on several variables. -/
def crossField (mode : RoutingMode) (discovery : AccountsDiscovery) (dsn : String)
    (strategy : RebalanceStrategy) (backends : BackendDiscovery) (host selector : String)
    (store : AssignmentStore) : Except LoadError Unit := do
  check (discovery ≠ .disabled ∧ mode ≠ .assignment)
    (.requires .accountsDiscovery none .routingMode "assignment")
  check (discovery = .postgres ∧ dsn = "")
    (.requires .accountsDiscovery "postgres" .postgresDSN none)
  check (backends = .dns ∧ host = "")
    (.requires .backendDiscovery "dns" .backendDiscoveryHost none)
  check (backends = .kubernetes ∧ selector = "")
    (.requires .backendDiscovery "kubernetes" .backendDiscoverySelector none)
  check (strategy ≠ .none ∧ mode ≠ .assignment)
    (.requires .rebalanceStrategy none .routingMode "assignment")
  check (store = .memory ∧ mode ≠ .hash)
    (.requires .assignmentStore "memory" .routingMode "hash")
  check (store = .postgres ∧ mode ≠ .assignment)
    (.requires .assignmentStore "postgres" .routingMode "assignment")
  check (store = .postgres ∧ dsn = "")
    (.requires .assignmentStore "postgres" .postgresDSN none)
  check (discovery = .redis ∧ store ≠ .redis)
    (.requires .accountsDiscovery "redis" .assignmentStore "redis")

/-- `Load`. -/
def load (lib : Library) (env : Env) : Except LoadError Config := do
  check (env .jwtSecret = "") (.required .jwtSecret)
  let cacheTTL ← parseDuration lib env .cacheTTL (24 * hour)
  let redisPoolSize ← parseInt lib env .redisPoolSize 100
  let redisMinIdleConns ← parseInt lib env .redisMinIdleConns 10
  let redisCBThreshold ← parseInt lib env .redisCBThreshold 5
  let redisCBCooldown ← parseDuration lib env .redisCBCooldown (30 * second)
  let jwtCacheMaxSize ← parseInt lib env .jwtCacheMaxSize 100000
  let evictionThreshold ← parseInt lib env .evictionThreshold 3
  let evictionCooldown ← parseDuration lib env .evictionCooldown minute
  let backendHealthInterval ← parseDuration lib env .backendHealthInterval (10 * second)
  let hooksTimeout ← parseDuration lib env .hooksTimeout (5 * second)
  let hooksRetries ← parseInt lib env .hooksRetries 2
  let drainTimeout ← parseDuration lib env .drainTimeout (60 * second)
  let routingMode ← oneOf .routingMode "\"hash\" or \"assignment\"" routingModes
    (envOrDefault env .routingMode "hash")
  let accountsDiscovery ← oneOf .accountsDiscovery "\"\", \"redis\", \"http\", or \"postgres\""
    accountsDiscoveries (env .accountsDiscovery)
  let accountsRefreshInterval ← parseDuration lib env .accountsRefreshInterval (30 * second)
  let rebalanceStrategy ← oneOf .rebalanceStrategy
    "\"none\", \"least-loaded\", or \"consistent-hash\"" rebalanceStrategies
    (envOrDefault env .rebalanceStrategy "none")
  let backendDiscovery ← oneOf .backendDiscovery "\"\", \"dns\", or \"kubernetes\""
    backendDiscoveries (env .backendDiscovery)
  let backendDiscoveryInterval ← parseDuration lib env .backendDiscoveryInterval (10 * second)
  let assignmentStore ← oneOf .assignmentStore "\"memory\", \"redis\", or \"postgres\""
    assignmentStores (storeOrDefault env accountsDiscovery routingMode)
  crossField routingMode accountsDiscovery (env .postgresDSN) rebalanceStrategy backendDiscovery
    (env .backendDiscoveryHost) (env .backendDiscoverySelector) assignmentStore
  let holdTimeout ← parseDuration lib env .holdTimeout (5 * second)
  let poisonPillAction ← oneOf .poisonPillAction "\"\" or \"quarantine\"" poisonPillActions
    (env .poisonPillAction)
  let poisonPillThreshold ← parseInt lib env .poisonPillThreshold 3
  let poisonPillWindow ← parseDuration lib env .poisonPillWindow (5 * minute)
  let backendMaxConnsPerHost ← parseInt lib env .backendMaxConnsPerHost 500
  let backendMaxIdleConnsPerHost ← parseInt lib env .backendMaxIdleConnsPerHost 0
  let backendIdleConnTimeout ← parseDuration lib env .backendIdleConnTimeout (90 * second)
  let logFormat ← oneOf .logFormat "\"json\" or \"text\"" logFormats
    (envOrDefault env .logFormat "json")
  return {
    proxyPort := withColon (envOrDefault env .proxyPort ":8080")
    redisAddr := envOrDefault env .redisAddr "localhost:6379"
    jwtSecret := env .jwtSecret
    adminToken := env .adminToken
    routingClaim := envOrDefault env .routingClaim "sub"
    hooksEnabled := env .hooksEnabled = "true"
    drainOnUnhealthy := env .drainOnUnhealthy = "true"
    accountsQuery := env .accountsQuery
    postgresDSN := env .postgresDSN
    rebalanceOnScale := env .rebalanceOnScale = "true"
    backendDiscoveryHost := env .backendDiscoveryHost
    backendDiscoveryPort := envOrDefault env .backendDiscoveryPort "5678"
    backendDiscoveryNamespace := env .backendDiscoveryNamespace
    backendDiscoverySelector := env .backendDiscoverySelector
    backendDiscoveryPortName := env .backendDiscoveryPortName
    holdDuringTransition := env .holdDuringTransition = "true"
    wsSwapOnRebalance := env .wsSwapOnRebalance ≠ "false"
    publicPaths := publicPaths env
    cacheTTL, redisPoolSize, redisMinIdleConns, redisCBThreshold, redisCBCooldown,
    jwtCacheMaxSize, evictionThreshold, evictionCooldown, backendHealthInterval, logFormat,
    hooksTimeout, hooksRetries, drainTimeout, routingMode, accountsDiscovery,
    accountsRefreshInterval, rebalanceStrategy, backendDiscovery, backendDiscoveryInterval,
    assignmentStore, holdTimeout, poisonPillAction, poisonPillThreshold, poisonPillWindow,
    backendMaxConnsPerHost, backendMaxIdleConnsPerHost, backendIdleConnTimeout }

end StickyProxy.Configuration
