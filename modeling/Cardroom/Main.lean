import Cardroom.CommandLine

namespace Cardroom

def environmentNames : List String :=
  ["SERVER_BIND", "DATABASE_URL", "JWT_SECRET", "METRICS_BIND", "STARTING_CHIPS",
    "PING_INTERVAL_SECS", "READ_TIMEOUT_SECS", "WRITE_TIMEOUT_SECS", "COUNTDOWN_SECS",
    "COUNTDOWN_TICK_MS", "MAX_FRAME_BYTES", "DEALER_SEED", "DB_MAX_CONNECTIONS",
    "DB_MIN_CONNECTIONS", "DB_CONNECTION_TIMEOUT_SECS", "DB_IDLE_TIMEOUT_SECS",
    "DB_MAX_LIFETIME_SECS"]

def readEnvironment : IO Environment := do
  let mut env := []
  for name in environmentNames do
    if let some value ← IO.getEnv name then env := env ++ [(name, value)]
  return env

end Cardroom

open Cardroom in
def main (args : List String) : IO UInt32 := do
  match CommandLine.run .plain args (← readEnvironment) with
  | .ends code out err =>
    IO.print out
    IO.eprint err
    return code.toUInt32
  | .serves config =>
    IO.eprintln ("configured for " ++ config.bind.text)
    return 0
