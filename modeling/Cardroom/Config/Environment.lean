import Cardroom.Config.Basic
import Cardroom.Decimal.Reading

namespace Cardroom

abbrev Environment := List (String × String)

namespace Environment

def get? (env : Environment) (name : String) : Option String :=
  (env.find? (·.1 = name)).map Prod.snd

def read? (env : Environment) (name : String) (parse? : String → Option α) : Option α :=
  (env.get? name).bind parse?

def readOr (env : Environment) (name : String) (parse? : String → Option α) (default : α) : α :=
  (env.read? name parse?).getD default

def milliseconds? (s : String) : Option Nat := (Decimal.word64? s).map (· * 1000)

end Environment

def Config.ofEnvironment (env : Environment) : Config :=
  let d : Config := {}
  { startingChips := env.readOr "STARTING_CHIPS" Decimal.int64? d.startingChips
    pingInterval := env.readOr "PING_INTERVAL_SECS" Environment.milliseconds? d.pingInterval
    readTimeout := env.readOr "READ_TIMEOUT_SECS" Environment.milliseconds? d.readTimeout
    writeTimeout := env.readOr "WRITE_TIMEOUT_SECS" Environment.milliseconds? d.writeTimeout
    countdownTotal := env.readOr "COUNTDOWN_SECS" Decimal.real? d.countdownTotal
    countdownTick := env.readOr "COUNTDOWN_TICK_MS" Decimal.word64? d.countdownTick
    countdownStep := d.countdownStep
    maxFrameBytes := env.readOr "MAX_FRAME_BYTES" Decimal.word64? d.maxFrameBytes
    dealerSeed := (env.read? "DEALER_SEED" Decimal.word64?).map Nat.toUInt64 }

/-- How the pool of connections to the database is run; times are in seconds. -/
structure DatabaseConfig where
  url : String
  maxConnections : Nat
  minConnections : Nat
  connectionTimeout : Nat
  idleTimeout : Nat
  maxLifetime : Nat
  deriving DecidableEq, Repr

namespace DatabaseConfig

def withUrl (env : Environment) (url : String) : DatabaseConfig where
  url := url
  maxConnections := env.readOr "DB_MAX_CONNECTIONS" Decimal.word32? 20
  minConnections := env.readOr "DB_MIN_CONNECTIONS" Decimal.word32? 2
  connectionTimeout := env.readOr "DB_CONNECTION_TIMEOUT_SECS" Decimal.word64? 5
  idleTimeout := env.readOr "DB_IDLE_TIMEOUT_SECS" Decimal.word64? 300
  maxLifetime := env.readOr "DB_MAX_LIFETIME_SECS" Decimal.word64? 1800

def ofEnvironment? (env : Environment) : Option DatabaseConfig :=
  (env.get? "DATABASE_URL").map (withUrl env)

end DatabaseConfig

end Cardroom
