import Cardroom.Floor.Basic
/-!
What is done on the floor, as a tree of steps. Between two writes everything happens at once, so one
step may look at the floor and change it; a write ends a stretch, since others may come in while it
is under way. `Script.run` goes through a script without letting anything come in between.
-/

namespace Cardroom

/-- A script over floors with a store `σ` that yields an `α`. -/
inductive Script (σ α : Type) where
  | done (a : α)
  /-- Changes the floor and goes on with what it was before. -/
  | step (change : Floor σ → Floor σ) (next : Floor σ → Script σ α)
  | write (id : ConnId) (p : Payload) (next : Except TransportError Unit → Script σ α)
  | close (id : ConnId) (next : Script σ α)

namespace Script

variable {σ α β : Type}

def bind : Script σ α → (α → Script σ β) → Script σ β
  | .done a, g => g a
  | .step change next, g => .step change fun f => (next f).bind g
  | .write id p next, g => .write id p fun r => (next r).bind g
  | .close id next, g => .close id (next.bind g)

instance : Monad (Script σ) where
  pure := .done
  bind := bind

def look (view : Floor σ → α) : Script σ α := .step id fun f => .done (view f)

def change (c : Floor σ → Floor σ) : Script σ Unit := .step c fun _ => .done ()

def update (c : Floor σ → α × Floor σ) : Script σ α :=
  .step (fun f => (c f).2) fun f => .done (c f).1

def writeTo (id : ConnId) (p : Payload) : Script σ (Except TransportError Unit) :=
  .write id p .done

def closeOne (id : ConnId) : Script σ Unit := .close id (.done ())

def run : Script σ α → Floor σ → α × Floor σ
  | .done a, f => (a, f)
  | .step change next, f => (next f).run (change f)
  | .write id p next, f => (next (f.write id p).1).run (f.write id p).2
  | .close id next, f => next.run (f.close id)

theorem run_bind (s : Script σ α) (g : α → Script σ β) (f : Floor σ) :
    (s.bind g).run f = (g (s.run f).1).run (s.run f).2 := by
  induction s generalizing f with
  | done a => rfl
  | step change next ih => exact ih f (change f)
  | write id p next ih => exact ih _ _
  | close id next ih => exact ih _

@[simp] theorem run_pure (a : α) (f : Floor σ) : (pure a : Script σ α).run f = (a, f) := rfl

@[simp] theorem run_monad_bind (s : Script σ α) (g : α → Script σ β) (f : Floor σ) :
    (s >>= g).run f = (g (s.run f).1).run (s.run f).2 := run_bind s g f

@[simp] theorem run_look (view : Floor σ → α) (f : Floor σ) : (look view).run f = (view f, f) := rfl

@[simp] theorem run_change (c : Floor σ → Floor σ) (f : Floor σ) :
    (change c).run f = ((), c f) := rfl

@[simp] theorem run_update (c : Floor σ → α × Floor σ) (f : Floor σ) : (update c).run f = c f := rfl

@[simp] theorem run_writeTo (id : ConnId) (p : Payload) (f : Floor σ) :
    (writeTo id p).run f = f.write id p := rfl

@[simp] theorem run_closeOne (id : ConnId) (f : Floor σ) :
    (closeOne id).run f = ((), f.close id) := rfl

end Script

end Cardroom
