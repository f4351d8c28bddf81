import Cardroom.Config.Server

namespace Cardroom

open Text (SocketAddress)

namespace CommandLine

def help : String :=
"Run the card lobby WebSocket server

USAGE:
  cl_server [OPTIONS]

OPTIONS:
  --bind       IP:PORT     Server socket bind address  [default: env SERVER_BIND or 127.0.0.1:6969]
  --db-url     URL         Database connection string  [default: env DATABASE_URL]

FLAGS:
  --memory                 Use an in-memory store with a demo room instead of PostgreSQL
  -h, --help               Print help information

ENVIRONMENT:
  SERVER_BIND              Server bind address (e.g., 0.0.0.0:8080)
  DATABASE_URL             PostgreSQL connection string
  JWT_SECRET               JWT verification secret (required, 32+ chars)
  METRICS_BIND             Prometheus listener address (optional)
  STARTING_CHIPS           Chips per player at a new table [default: 1000]
  PING_INTERVAL_SECS       Keepalive ping interval [default: 30]
  READ_TIMEOUT_SECS        Idle time before a socket is dropped [default: 180]
  WRITE_TIMEOUT_SECS       Per-write deadline [default: 5]
  COUNTDOWN_SECS           Table countdown start [default: 15]
  COUNTDOWN_TICK_MS        Table countdown tick [default: 100]
  MAX_FRAME_BYTES          Largest inbound frame [default: 52428800]
  DEALER_SEED              Fixed seed for dealer selection (testing)
"

inductive ArgumentError where
  | missingValue (option : String)
  | badAddress (value : String)
  deriving DecidableEq, Repr

def ArgumentError.message : ArgumentError → String
  | .missingValue option => "the '" ++ option ++ "' option doesn't have an associated value"
  | .badAddress value => "failed to parse '" ++ value ++ "': invalid socket address syntax"

def takeValue (option : String) : List String → Except ArgumentError (Option String × List String)
  | [] => .ok (none, [])
  | a :: r =>
    if a = option then
      match r with
      | value :: r => .ok (some value, r)
      | [] => .error (.missingValue option)
    else (takeValue option r).map fun (value, r) => (value, a :: r)

def parseAddress (value : String) : Except ArgumentError SocketAddress :=
  match SocketAddress.parse? value with
  | some a => .ok a
  | none => .error (.badAddress value)

def parse (args : List String) : Except ArgumentError Overrides := do
  let memory := args.contains "--memory"
  let args := args.erase "--memory"
  let (bind, args) ← takeValue "--bind" args
  let bind ← bind.mapM parseAddress
  let (databaseUrl, _) ← takeValue "--db-url" args
  return ⟨bind, databaseUrl, memory⟩

inductive ListenFault where
  | permissionDenied
  | addressNotAvailable
  deriving DecidableEq, Repr

def ListenFault.message : ListenFault → String
  | .permissionDenied => "Permission denied (os error 13)"
  | .addressNotAvailable => "Cannot assign requested address (os error 99)"

inductive ConnectFault where
  | notAUrl
  | noConnection
  deriving DecidableEq, Repr

def ConnectFault.message : ConnectFault → String
  | .notAUrl => "error with configuration: relative URL without a base"
  | .noConnection => "pool timed out while waiting for an open connection"

structure Host where
  listen : SocketAddress → Option ListenFault
  connect : String → Option ConnectFault

def hasScheme (url : String) : Bool :=
  let scheme := url.toList.takeWhile (· != ':')
  scheme.length < url.length && (scheme.head?.any Char.isAlpha) &&
    scheme.all fun c => c.isAlphanum || c == '+' || c == '-' || c == '.'

def isLocal : Text.IpAddress → Bool
  | .v4 (a :: r) => a = 127 || (a :: r).all (· = 0)
  | .v4 [] => false
  | .v6 groups _ => groups.dropLast.all (· = 0) && groups.getLast?.any (· ≤ 1)

/-- The ports below this one are kept for privileged programs. -/
def privilegedPorts : Nat := 1024

def Host.plain : Host where
  listen a :=
    if 0 < a.port ∧ a.port < privilegedPorts then some .permissionDenied
    else if isLocal a.ip then none
    else some .addressNotAvailable
  connect url := if hasScheme url then some .noConnection else some .notAUrl

inductive Result where
  | ends (code : Nat) (out err : String)
  | serves (config : ServerConfig)

def startFault? (host : Host) (c : ServerConfig) : Option String :=
  let metrics := (c.metricsBind.bind host.listen).map fun fault : ListenFault =>
    "Failed to install Prometheus exporter: failed to create HTTP listener: " ++ fault.message
  let store := match c.store with
    | .memory => none
    | .database db => (host.connect db.url).map fun fault : ConnectFault =>
      "Failed to connect to database: " ++ fault.message
  let server := (host.listen c.bind).map fun fault : ListenFault =>
    "Failed to bind to " ++ c.bind.text ++ ": " ++ fault.message
  metrics.orElse fun _ => store.orElse fun _ => server

def start (host : Host) (args : List String) (env : Environment) : Except String ServerConfig := do
  let overrides ← (parse args).mapError ArgumentError.message
  let config ← (ServerConfig.load env overrides).mapError ConfigError.message
  match config.fault? with
  | some e => throw e.message
  | none =>
    match startFault? host config with
    | some reason => throw reason
    | none => return config

def run (host : Host) (args : List String) (env : Environment) : Result :=
  if args.contains "-h" || args.contains "--help" then .ends 0 help ""
  else
    match start host args env with
    | .ok config => .serves config
    | .error reason => .ends 1 "" ("Error: " ++ reason ++ "\n")

end CommandLine

end Cardroom
