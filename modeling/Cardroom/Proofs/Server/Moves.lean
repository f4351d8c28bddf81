import Cardroom.Proofs.Server.Lasting

namespace Cardroom

variable {σ : Type} [RoomStore σ]

inductive Deed where
  | lobby (a : LobbyAct)
  | bets (code : RoomCode) (user : UserId) (raw : String)
  | leavesTable (code : RoomCode) (id : ConnId)
  | closesTable (code : RoomCode)
  | closesRoom (code : RoomCode)
  | closes (id : ConnId)

namespace Deed

def script : Deed → Script σ Unit
  | lobby a => a.script
  | bets code user raw => discard (Tableside.receive code user raw)
  | leavesTable code id => Tableside.leave code id
  | closesTable code => Tableside.closeRoom code
  | closesRoom code => Door.roomClosed code
  | closes id => Script.closeOne id

theorem untimed (d : Deed) : (d.script : Script σ Unit).Untimed := by
  cases d with
  | lobby a => exact a.untimed
  | bets code user raw => exact (Tableside.untimed_receive code user raw).discard
  | leavesTable code id => exact Tableside.untimed_leave code id
  | closesTable code => exact Tableside.untimed_closeRoom code
  | closesRoom code => exact Door.untimed_roomClosed code
  | closes id => exact Script.untimed_closeOne id

end Deed

inductive Move (σ : Type) where
  | waits (ms : Nat)
  | connects (user : UserId) (sink : Sink)
  | turns (id : ConnId) (sink : Sink)
  | edits (change : σ → σ)
  | does (d : Deed)
  | doesAll (ds : List Deed)
  /-- A connection that there is joins a table. -/
  | joins (code : RoomCode) (id : ConnId)
  | pings (id : ConnId) (interval : Nat)
  | aborts (id : ConnId)
  | visits (side : Side) (room : RoomCode) (user : UserId)
  | sends (client : Nat) (m : Message)
  | saysGoodbye (client : Nat)
  | mutes (client : Nat)
  | cuts (client : Nat)

namespace Server

variable {s t : Server σ} {hand : List Ticket}

/-- Everything that follows at once is done before the next move. -/
def step (s : Server σ) : Move σ → Server σ
  | .waits ms => s.advance ms
  | .connects user sink => s.alter fun f => f.openConnection f.nextId user sink
  | .turns id sink => s.alter (·.turn id sink)
  | .edits change => s.alter fun f => { f with store := change f.store }
  | .does d => (s.perform d.script).2
  | .doesAll ds => (s.performAll (ds.map Deed.script)).2
  | .joins code id =>
    if (s.floor.connection? id).isSome then (s.joinTable code id).2 else s
  | .pings id interval => (s.startPinger id interval).settle
  | .aborts id => (s.abort id).settle
  | .visits side room user => (s.openClient side room user).settle
  | .sends client m => (s.sendMessage client m).2.settle
  | .saysGoodbye client => (s.sendGoodbye client).2.settle
  | .mutes client => (s.mute client).settle
  | .cuts client => (s.cut client).settle

def after (s : Server σ) (moves : List (Move σ)) : Server σ := moves.foldl step s

theorem after_cons (s : Server σ) (m : Move σ) (moves : List (Move σ)) :
    s.after (m :: moves) = (s.step m).after moves := rfl

theorem after_append (s : Server σ) (moves more : List (Move σ)) :
    s.after (moves ++ more) = (s.after moves).after more :=
  List.foldl_append ..

theorem advance_add (s : Server σ) (m n : Nat) : s.advance (m + n) = (s.advance m).advance n := by
  induction m generalizing s with
  | zero => rw [Nat.zero_add]; rfl
  | succ m ih =>
    rw [Nat.add_right_comm]
    exact ih s.tick

/-- A property that lasts also while time goes by and connections are opened and change. -/
structure Enduring (P : List Ticket → Server σ → Prop) : Prop extends Lasting P where
  tick : ∀ {hand s}, P hand s → P hand s.tick
  connect : ∀ {hand s} user sink, P hand s →
    P hand (s.onFloor fun f => f.openConnection f.nextId user sink)
  enter : ∀ {hand s} user sink (c : Client), c.id = s.floor.nextId → P hand s →
    P hand { s.onFloor fun f => f.openConnection f.nextId user sink with clients := s.clients ++ [c] }
  turn : ∀ {hand s} id (g : Sink → Sink), P hand s →
    P hand (s.onFloor (·.modifyConnection id fun c => { c with sink := g c.sink }))

namespace Enduring

variable {P : List Ticket → Server σ → Prop} (h : Enduring P)
include h

theorem joinTable (code : RoomCode) (id : ConnId)
    (hstart : ∀ s, P [] s → P [] (s.startCountdown id (countdownShape s.floor.config)))
    (hP : P [] s) : P [] (s.joinTable code id).2 := by
  have hperform := h.perform h.tick (Tableside.untimed_join code id) hP
  unfold Server.joinTable
  generalize s.perform (Tableside.join code id) = performed at hperform ⊢
  obtain ⟨_ | (e | _), t⟩ := performed
  · exact hperform
  · exact hperform
  · exact h.settle (hstart t hperform)

theorem openClient (side : Side) (room : RoomCode) (user : UserId) (hP : P hand s) :
    P hand (s.openClient side room user) := by
  exact h.addTask rfl rfl (h.enter user _ ⟨side, room, user, _, [], .perConnection, 0, none, false,
    false⟩ rfl hP)

theorem sendMessage (client : Nat) (m : Message) (hP : P hand s) :
    P hand (s.sendMessage client m).2 := by
  unfold Server.sendMessage
  split
  · exact h.modifyClient (fun _ => by rfl) client hP
  · exact hP

theorem mute (client : Nat) (hP : P hand s) : P hand (s.mute client) := by
  unfold Server.mute
  split
  · exact hP
  · exact h.modifyClient (fun _ => by rfl) client hP

theorem cut (client : Nat) (hP : P hand s) : P hand (s.cut client) := by
  unfold Server.cut
  split
  · exact hP
  · exact h.turn _ (·.change .gone) (h.modifyClient (fun _ => by rfl) client (h.mute client hP))

theorem step (m : Move σ)
    (hjoin : ∀ code id, m = .joins code id → (s.floor.connection? id).isSome = true →
      P [] (s.joinTable code id).2)
    (habort : ∀ id, m = .aborts id → P [] (s.abort id)) (hP : P [] s) : P [] (s.step m) := by
  cases m with
  | waits ms => exact Lasting.advance (P := P) h.tick ms hP
  | connects user sink => exact h.settle (h.connect user sink hP)
  | turns id sink => exact h.settle (h.turn id (fun _ => sink) hP)
  | edits change => exact h.settle (h.floor (g := { s.floor with store := _ }) ⟨rfl, rfl⟩ hP)
  | does d => exact h.perform h.tick d.untimed hP
  | doesAll ds =>
    refine h.performAll h.tick (fun x hx => ?_) hP
    obtain ⟨d, -, rfl⟩ := List.mem_map.1 hx
    exact d.untimed
  | joins code id =>
    rw [Server.step]
    split
    · rename_i hknown
      exact hjoin code id rfl hknown
    · exact hP
  | pings id interval => exact h.settle (h.addTask rfl (tickets_startingProgress _) hP)
  | aborts id => exact h.settle (habort id rfl)
  | visits side room user => exact h.settle (h.openClient side room user hP)
  | sends client m => exact h.settle (h.sendMessage client m hP)
  | saysGoodbye client =>
    exact h.settle (h.modifyClient (fun _ => by rfl) client (h.sendMessage client .close hP))
  | mutes client => exact h.settle (h.mute client hP)
  | cuts client => exact h.settle (h.cut client hP)

theorem after (moves : List (Move σ))
    (hjoin : ∀ code id s, P [] s → P [] (s.joinTable code id).2)
    (habort : ∀ id s, P [] s → P [] (s.abort id)) (hP : P [] s) : P [] (s.after moves) := by
  induction moves generalizing s with
  | nil => exact hP
  | cons m moves ih =>
    exact ih (h.step m (fun code id _ _ => hjoin code id s hP) (fun id _ => habort id s hP) hP)

end Enduring

end Server

end Cardroom
