import Cardroom.Config.Environment
import Cardroom.Text.SocketAddress

namespace Cardroom

open Text (SocketAddress)

inductive StoreConfig where
  | memory
  | database (config : DatabaseConfig)
  deriving DecidableEq, Repr

structure ServerConfig where
  bind : SocketAddress
  store : StoreConfig
  tokenSecret : String
  metricsBind : Option SocketAddress
  room : Config

/-- What the command line says; it goes before the environment. -/
structure Overrides where
  bind : Option SocketAddress
  databaseUrl : Option String
  memory : Bool

namespace ServerConfig

def defaultBind : SocketAddress := ⟨.v4 [127, 0, 0, 1], 6969⟩

def minSecretLength : Nat := 32

def storeOf (env : Environment) (o : Overrides) : Except ConfigError StoreConfig :=
  if o.memory then .ok .memory
  else
    match o.databaseUrl.orElse fun _ => env.get? "DATABASE_URL" with
    | some url => .ok (.database (.withUrl env url))
    | none =>
      .error (.missing "DATABASE_URL" "Set a PostgreSQL URL or pass --memory for a local store")

def secretOf (env : Environment) : Except ConfigError String :=
  match env.get? "JWT_SECRET" with
  | some secret => .ok secret
  | none => .error (.missing "JWT_SECRET" "Use the same secret as the account service")

def load (env : Environment) (o : Overrides) : Except ConfigError ServerConfig := do
  let store ← storeOf env o
  let secret ← secretOf env
  return {
    bind := o.bind.getD (env.readOr "SERVER_BIND" SocketAddress.parse? defaultBind)
    store := store
    tokenSecret := secret
    metricsBind := env.read? "METRICS_BIND" SocketAddress.parse?
    room := .ofEnvironment env }

def storeFault? : StoreConfig → Option ConfigError
  | .memory => none
  | .database db =>
    if db.maxConnections = 0 ∨ db.maxConnections < db.minConnections then
      some (.invalid "DB_MAX_CONNECTIONS"
        s!"Must be non-zero and at least DB_MIN_CONNECTIONS ({db.minConnections})")
    else none

def metricsFault? (c : ServerConfig) : Option ConfigError :=
  if c.metricsBind = some c.bind then
    some (.invalid "METRICS_BIND"
      ("Must differ from the server address (" ++ c.bind.text ++ ")"))
  else none

def secretFault? (c : ServerConfig) : Option ConfigError :=
  if c.tokenSecret.utf8ByteSize < minSecretLength then
    some (.invalid "JWT_SECRET"
      s!"Must be at least {minSecretLength} characters (128-bit security)")
  else none

def fault? (c : ServerConfig) : Option ConfigError :=
  c.secretFault?.orElse fun _ => (storeFault? c.store).orElse fun _ =>
    c.metricsFault?.orElse fun _ => c.room.fault?

end ServerConfig

end Cardroom
