
namespace Cardroom

inductive ConfigError where
  | missing (name : String) (hint : String)
  | invalid (name : String) (reason : String)
  deriving DecidableEq, Repr

def ConfigError.message : ConfigError → String
  | .missing name hint => "Missing required environment variable: " ++ name ++ "\nHint: " ++ hint
  | .invalid name reason => "Invalid configuration for " ++ name ++ ": " ++ reason

/-- Times are in milliseconds, the countdown's total and step in seconds. Without a seed the dealers
are drawn from the server's own entropy. -/
structure Config where
  startingChips : Int := 1000
  pingInterval : Nat := 30000
  readTimeout : Nat := 180000
  writeTimeout : Nat := 5000
  countdownTotal : Float := 15.0
  countdownTick : Nat := 100
  countdownStep : Float := 0.1
  maxFrameBytes : Nat := 52428800
  dealerSeed : Option UInt64 := none

namespace Config

def fault? (c : Config) : Option ConfigError :=
  if c.startingChips ≤ 0 then some (.invalid "STARTING_CHIPS" "Must be greater than 0")
  else if c.pingInterval = 0 ∨ c.pingInterval ≥ c.readTimeout then
    some (.invalid "PING_INTERVAL_SECS"
      s!"Must be non-zero and shorter than the read timeout ({c.readTimeout / 1000}s)")
  else if c.writeTimeout = 0 then some (.invalid "WRITE_TIMEOUT_SECS" "Must be greater than 0")
  else if c.countdownTick = 0 then some (.invalid "COUNTDOWN_TICK_MS" "Must be greater than 0")
  else if !c.countdownTotal.isFinite || c.countdownTotal < 0 then
    some (.invalid "COUNTDOWN_SECS" "Must be a non-negative number")
  else if c.countdownStep.isNaN || c.countdownStep ≤ 0 then
    some (.invalid "countdown_step" "Must be greater than 0")
  else if c.maxFrameBytes = 0 then some (.invalid "MAX_FRAME_BYTES" "Must be greater than 0")
  else none

end Config

end Cardroom
