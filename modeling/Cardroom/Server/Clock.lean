import Cardroom.Server.Clients

namespace Cardroom.Server

variable {σ α : Type} [RoomStore σ]

def pass (s : Server σ) : Bool × Server σ :=
  let s := s.advanceLines
  let (a, s) := s.runTasks 0 s.tasks.length
  let (b, s) := s.reactClients 0 s.clients.length
  (a || b, s)

/-- Makes passes until nothing is left to do, but no more than a number of them. -/
def settleWithin (s : Server σ) : Nat → Server σ
  | 0 => s
  | n + 1 =>
    match s.pass with
    | (true, s) => s.settleWithin n
    | (false, s) => s

/-- More passes than one moment can hold. -/
def passLimit : Nat := 1000000000

def settle (s : Server σ) : Server σ := s.settleWithin passLimit

def tick (s : Server σ) : Server σ := { s with now := s.now + 1 }.settle

def advance (s : Server σ) : Nat → Server σ
  | 0 => s
  | n + 1 => s.tick.advance n

def finishWithin (s : Server σ) (stage : Stage σ α) : Nat → Option α × Server σ
  | 0 => (none, s)
  | n + 1 =>
    match stage with
    | .finished a => (some a, s)
    | .blocked ticket resume =>
      match s.takeResult? ticket with
      | some (r, s) =>
        let (stage, s) := drive (resume r) s
        s.settle.finishWithin stage n
      | none => s.tick.finishWithin stage n

/-- Longer than any script waits. -/
def patience : Nat := 1000000000000

def perform (s : Server σ) (script : Script σ α) : Option α × Server σ :=
  let (stage, s) := drive script s
  s.settle.finishWithin stage patience

def startAll : List (Script σ α) → Server σ → List (Stage σ α) × Server σ
  | [], s => ([], s)
  | script :: scripts, s =>
    let (stage, s) := drive script s
    let (stages, s) := startAll scripts s
    (stage :: stages, s)

def finishAll : List (Stage σ α) → Server σ → List (Option α) × Server σ
  | [], s => ([], s)
  | stage :: stages, s =>
    let (a, s) := s.finishWithin stage patience
    let (as, s) := finishAll stages s
    (a :: as, s)

def performAll (s : Server σ) (scripts : List (Script σ α)) : List (Option α) × Server σ :=
  let (stages, s) := startAll scripts s
  finishAll stages s.settle

def alter (s : Server σ) (c : Floor σ → Floor σ) : Server σ := (s.onFloor c).settle

/-- Lets a connection join a table; whoever joins is shown a countdown. -/
def joinTable (s : Server σ) (code : RoomCode) (id : ConnId) :
    Option (Except RoomError Unit) × Server σ :=
  match s.perform (Tableside.join code id) with
  | (some (.ok ()), s) =>
    (some (.ok ()), (s.startCountdown id (countdownShape s.floor.config)).settle)
  | r => r

end Cardroom.Server
