import Cardroom.Error

namespace Cardroom

class RoomStore (σ : Type) where
  room : σ → RoomCode → Except StoreError (Option Room)
  /-- The host first, then in the order of joining. -/
  members : σ → RoomCode → Except StoreError (List Member)
  setReady : σ → RoomCode → UserId → Bool → Except StoreError σ
  isMember : σ → RoomCode → UserId → Except StoreError Bool

inductive Query where
  | room
  | members
  | setReady
  | isMember
  deriving DecidableEq, Repr

/-- A store that refuses some kinds of question. -/
structure Unreliable (σ : Type) where
  store : σ
  refusal : Query → Option StoreError

namespace Unreliable

variable {σ : Type}

def reliable (store : σ) : Unreliable σ := ⟨store, fun _ => none⟩

def guard (s : Unreliable σ) (q : Query) (answer : Except StoreError α) : Except StoreError α :=
  match s.refusal q with
  | some e => .error e
  | none => answer

instance [RoomStore σ] : RoomStore (Unreliable σ) where
  room s code := s.guard .room (RoomStore.room s.store code)
  members s code := s.guard .members (RoomStore.members s.store code)
  setReady s code user ready :=
    s.guard .setReady ((RoomStore.setReady s.store code user ready).map fun t => { s with store := t })
  isMember s code user := s.guard .isMember (RoomStore.isMember s.store code user)

end Unreliable

end Cardroom
