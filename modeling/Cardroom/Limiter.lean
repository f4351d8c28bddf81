/-!
Limits on how many frames a client may send. A `Limiter` admits so many frames within any window of
time; a `FrameLimiter` admits a frame when both of its limits do, and then counts it for both. Times
are milliseconds on one clock.
-/

namespace Cardroom

structure Limiter where
  most : Nat
  window : Nat
  admitted : List Nat
  deriving DecidableEq, Repr

namespace Limiter

def new (most window : Nat) : Limiter := ⟨most, window, []⟩

def evict (l : Limiter) (now : Nat) : Limiter :=
  { l with admitted := l.admitted.dropWhile fun t => now - t ≥ l.window }

def hasRoom (l : Limiter) : Bool := l.admitted.length < l.most

def record (l : Limiter) (now : Nat) : Limiter := { l with admitted := l.admitted ++ [now] }

def check (l : Limiter) (now : Nat) : Bool × Limiter :=
  let l := l.evict now
  if l.hasRoom then (true, l.record now) else (false, l)

/-- The number of frames that are kept. Only a check forgets frames. -/
def count (l : Limiter) : Nat := l.admitted.length

end Limiter

structure FrameLimiter where
  burst : Limiter
  sustained : Limiter
  deriving DecidableEq, Repr

namespace FrameLimiter

def perConnection : FrameLimiter := ⟨.new 10 1000, .new 100 60000⟩

/-- The second limit is not looked at when the first one is reached. -/
def check (l : FrameLimiter) (now : Nat) : Bool × FrameLimiter :=
  let l := { l with burst := l.burst.evict now }
  if l.burst.hasRoom then
    let l := { l with sustained := l.sustained.evict now }
    if l.sustained.hasRoom then (true, ⟨l.burst.record now, l.sustained.record now⟩)
    else (false, l)
  else (false, l)

end FrameLimiter

end Cardroom
