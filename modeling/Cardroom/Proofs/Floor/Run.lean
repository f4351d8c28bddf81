import Cardroom.Floor.Door
import Cardroom.Proofs.Floor.Deliveries
import Cardroom.Store.Rooms

namespace Cardroom

variable {σ α : Type}

/-- What clients do on their own, and what is written to them on other occasions than a room's. -/
inductive ClientAct where
  /-- A client connects, under a number that no client had before. -/
  | opens (id : ConnId) (user : UserId) (sink : Sink)
  | turns (id : ConnId) (sink : Sink)
  | closes (id : ConnId)
  | pings (id : ConnId) (data : String)
  | ticks (id : ConnId) (remaining : Float)

inductive LobbyAct where
  | enters (code : RoomCode) (id : ConnId)
  | leaves (code : RoomCode) (id : ConnId)
  | receives (code : RoomCode) (user : UserId) (raw : String)
  | roomChanged (code : RoomCode)
  | gameStarted (code : RoomCode) (game : Int)
  | userLeft (code : RoomCode) (user : UserId)

inductive TableAct where
  | joins (code : RoomCode) (id : ConnId)
  | receives (code : RoomCode) (user : UserId) (raw : String)
  | leaves (code : RoomCode) (id : ConnId)
  | closes (code : RoomCode)

inductive Act (σ : Type) where
  | client (a : ClientAct)
  /-- The store is changed from outside. -/
  | edits (change : σ → σ)
  | lobby (a : LobbyAct)
  | table (a : TableAct)
  | roomClosed (code : RoomCode)

namespace Floor

def connect (f : Floor σ) (id : ConnId) (user : UserId) (sink : Sink) : Floor σ :=
  if (f.connection? id).isSome then f else f.openConnection id user sink

def turn (f : Floor σ) (id : ConnId) (sink : Sink) : Floor σ :=
  f.modifyConnection id fun c => { c with sink := sink }

end Floor

open Script

variable {R : Floor σ → Floor σ → Prop}

namespace ClientAct

def script : ClientAct → Script σ Unit
  | opens id user sink => change (·.connect id user sink)
  | turns id sink => change (·.turn id sink)
  | closes id => closeOne id
  | pings id data => discard (writeTo id (.ping data))
  | ticks id remaining => discard (writeTo id (.frame (.timer remaining)))

structure Allowed (R : Floor σ → Floor σ → Prop) : Prop extends Steps R where
  connect : ∀ f id user sink, R f (f.connect id user sink)
  turn : ∀ f id sink, R f (f.turn id sink)
  close : ∀ f id, R f (f.close id)
  write : ∀ f id p, (∀ F, p.frame? = some F → F.side? = none) → R f (f.write id p).2

theorem within (h : Allowed R) (a : ClientAct) : a.script.Within R := by
  cases a with
  | opens id user sink => exact within_change fun f => h.connect f id user sink
  | turns id sink => exact within_change fun f => h.turn f id sink
  | closes id => exact within_closeOne fun f => h.close f id
  | pings id data => exact (within_writeTo fun f => h.write f id _ fun F hF => by cases hF).discard
  | ticks id remaining =>
    exact (within_writeTo fun f => h.write f id _ fun F hF => by cases hF; rfl).discard

theorem same {view : Floor σ → α} (hc : ∀ f c, view { f with connections := c } = view f) :
    Allowed (Floor.Same view) where
  toSteps := Floor.Same.steps view
  connect f id user sink := by
    unfold Floor.connect
    split
    · rfl
    · exact hc f _
  turn f _ _ := hc f _
  close f _ := hc f _
  write f id p _ := by
    obtain ⟨c, e⟩ := Floor.write_eq f id p
    rw [e]
    exact hc f c

theorem lastFrame?_connect (f : Floor σ) (id x : ConnId) (user : UserId) (sink : Sink)
    (kind : Frame → Bool) : (f.connect id user sink).lastFrame? kind x = f.lastFrame? kind x := by
  unfold Floor.connect
  split
  · rfl
  · rename_i h
    rw [Floor.lastFrame?, Floor.openConnection, Floor.connection?_setConnection]
    split
    · rename_i e
      rw [Floor.lastFrame?, e, Option.not_isSome_iff_eq_none.1 h]
      rfl
    · rfl

theorem lastFrame?_turn (f : Floor σ) (id x : ConnId) (sink : Sink) (kind : Frame → Bool) :
    (f.turn id sink).lastFrame? kind x = f.lastFrame? kind x := by
  simp only [Floor.lastFrame?, Floor.turn, Floor.connection?_modifyConnection]
  split
  · cases f.connection? x <;> rfl
  · rfl

theorem same_attendance (side : Side) : Allowed (Floor.Same (σ := σ) (·.attendance side)) :=
  same fun _ _ => by cases side <;> rfl

theorem quiet {side : Side} {kind : Frame → Bool}
    (hkind : ∀ F, Frame.side? F = none → kind F = false) :
    Allowed (Floor.Quiet (σ := σ) side kind) where
  toSteps := Floor.Quiet.steps
  connect f id user sink :=
    .of_same ((same_attendance side).connect f id user sink) fun x =>
      lastFrame?_connect f id x user sink kind
  turn f id sink :=
    .of_same ((same_attendance side).turn f id sink) fun x => lastFrame?_turn f id x sink kind
  close f id := Floor.Quiet.close f id
  write f id _ hp := Floor.Quiet.write f id fun F hF => hkind F (hp F hF)

end ClientAct

variable [RoomStore σ]

namespace LobbyAct

def script : LobbyAct → Script σ Unit
  | enters code id => Lobby.enter code id
  | leaves code id => Lobby.leave code id
  | receives code user raw => discard (Lobby.receive code user raw)
  | roomChanged code => Door.roomChanged code
  | gameStarted code game => Door.gameStarted code game
  | userLeft code user => Door.userLeft code user

theorem within (h : Lobby.Allowed R) (a : LobbyAct) : a.script.Within R := by
  cases a with
  | enters code id => exact Lobby.within_enter h code id
  | leaves code id => exact Lobby.within_leave h code id
  | receives code user raw => exact (Lobby.within_receive h code user raw).discard
  | roomChanged code => exact Lobby.within_refresh h.toAllowed code
  | gameStarted code game => exact (Lobby.within_announceGame h.toAllowed code game rfl).discard
  | userLeft code user =>
    exact (Delivery.within_closeUser h.toAllowed code user).discard.monad_bind fun _ =>
      Lobby.within_refresh h.toAllowed code

end LobbyAct

namespace TableAct

def script : TableAct → Script σ Unit
  | joins code id => discard (Tableside.join code id)
  | receives code user raw => discard (Tableside.receive code user raw)
  | leaves code id => Tableside.leave code id
  | closes code => Tableside.closeRoom code

theorem within (h : Tableside.Allowed R) (a : TableAct) : a.script.Within R := by
  cases a with
  | joins code id => exact (Tableside.within_join h code id).discard
  | receives code user raw => exact (Tableside.within_receive h code user raw).discard
  | leaves code id => exact Tableside.within_leave h code id
  | closes code => exact Tableside.within_closeRoom h code

end TableAct

namespace Act

def script : Act σ → Script σ Unit
  | client a => a.script
  | edits edit => change fun f => { f with store := edit f.store }
  | lobby a => a.script
  | table a => a.script
  | roomClosed code => Door.roomClosed code

structure Allowed (R : Floor σ → Floor σ → Prop) : Prop where
  client : ClientAct.Allowed R
  edit : ∀ f s, R f { f with store := s }
  lobby : Lobby.Allowed R
  table : Tableside.Allowed R

theorem within (h : Allowed R) (a : Act σ) : a.script.Within R := by
  cases a with
  | client a => exact a.within h.client
  | edits change => exact within_change fun f => h.edit f _
  | lobby a => exact a.within h.lobby
  | table a => exact a.within h.table
  | roomClosed code =>
    exact (Delivery.within_dropRoom h.lobby.toAllowed code).discard.monad_bind fun _ =>
      Tableside.within_closeRoom h.table code

end Act

namespace Floor

def perform (f : Floor σ) (a : Act σ) : Floor σ := (a.script.run f).2

def after (f : Floor σ) (acts : List (Act σ)) : Floor σ := acts.foldl perform f

@[simp] theorem after_nil (f : Floor σ) : f.after [] = f := rfl

theorem after_cons (f : Floor σ) (a : Act σ) (acts : List (Act σ)) :
    f.after (a :: acts) = (f.perform a).after acts := rfl

theorem after_append (f : Floor σ) (acts more : List (Act σ)) :
    f.after (acts ++ more) = (f.after acts).after more :=
  List.foldl_append ..

end Floor

def parlourRoom : RoomCode := ⟨"7", by decide⟩

def parlour : Floor Rooms :=
  .new {} "" ⟨.insert .empty parlourRoom ⟨⟨parlourRoom, .waiting, 6, 1⟩, [⟨1, "Ann", false⟩]⟩⟩
    (.ofSeed 0)

def salonRoom : RoomCode := ⟨"11", by decide⟩

def salon : Floor Rooms :=
  .new {} "" ⟨.insert .empty salonRoom ⟨⟨salonRoom, .waiting, 6, 1⟩,
    [⟨1, "Ann", false⟩, ⟨2, "Bo", false⟩, ⟨3, "Cy", false⟩]⟩⟩ (.ofSeed 0)

theorem new_salon : .new {} "" salon.store (.ofSeed 0) = salon := rfl

def readily : String := "\x7b\"is_ready\":true\x7d"

def hundred : String := "\x7b\"type\":\"bet_update\",\"bet\":100\x7d"

def allIn : String := "\x7b\"type\":\"bet_update\",\"bet\":1000,\"confirm\":true\x7d"

end Cardroom
