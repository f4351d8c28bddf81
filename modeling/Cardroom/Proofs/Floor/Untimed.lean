import Cardroom.Proofs.Floor.Run

namespace Cardroom

variable {σ α β : Type}

namespace Payload

def timer? : Payload → Option Float
  | .frame (.timer remaining) => some remaining
  | _ => none

def isTimer (p : Payload) : Bool := p.timer?.isSome

def isClose : Payload → Bool
  | .close => true
  | _ => false

structure Plain (p : Payload) : Prop where
  timer : p.isTimer = false
  close : p.isClose = false

theorem plain_frame {F : Frame} {side : Side} (h : F.side? = some side) : (frame F).Plain where
  timer := by
    cases F with
    | timer remaining => cases h
    | _ => rfl
  close := rfl

end Payload

structure Floor.Spared (f g : Floor σ) : Prop where
  connections : g.connections = f.connections
  config : g.config = f.config

theorem Floor.Spared.refl (f : Floor σ) : f.Spared f := ⟨rfl, rfl⟩

theorem Floor.spared_setAttendance (f : Floor σ) (side : Side) (a : Attendance) :
    f.Spared (f.setAttendance side a) := by
  cases side <;> exact ⟨rfl, rfl⟩

theorem Floor.spared_ensureTable (f : Floor σ) (room : RoomCode) :
    f.Spared (f.ensureTable room).2 := by
  unfold Floor.ensureTable
  split <;> exact ⟨rfl, rfl⟩

namespace Script

def Untimed : Script σ α → Prop
  | .done _ => True
  | .step change next => (∀ f : Floor σ, f.Spared (change f)) ∧ ∀ f, (next f).Untimed
  | .write _ p next => p.Plain ∧ ∀ r, (next r).Untimed
  | .close _ next => next.Untimed

theorem Untimed.bind {s : Script σ α} {g : α → Script σ β} (h : s.Untimed)
    (hg : ∀ a, (g a).Untimed) : (s.bind g).Untimed := by
  induction s with
  | done a => exact hg a
  | step change next ih => exact ⟨h.1, fun f => ih f (h.2 f)⟩
  | write id p next ih => exact ⟨h.1, fun r => ih r (h.2 r)⟩
  | close id next ih => exact ih h

theorem Untimed.monad_bind {s : Script σ α} {g : α → Script σ β} (h : s.Untimed)
    (hg : ∀ a, (g a).Untimed) : (s >>= g).Untimed :=
  h.bind hg

theorem untimed_pure (a : α) : (pure a : Script σ α).Untimed := trivial

theorem Untimed.discard {s : Script σ α} (h : s.Untimed) : (Functor.discard s).Untimed :=
  h.bind fun _ => trivial

theorem untimed_look (view : Floor σ → α) : (look view).Untimed :=
  ⟨Floor.Spared.refl, fun _ => trivial⟩

theorem untimed_change {c : Floor σ → Floor σ} (h : ∀ f : Floor σ, f.Spared (c f)) : (change c).Untimed :=
  ⟨h, fun _ => trivial⟩

theorem untimed_update {c : Floor σ → α × Floor σ} (h : ∀ f : Floor σ, f.Spared (c f).2) :
    (update c).Untimed :=
  ⟨h, fun _ => trivial⟩

theorem untimed_update_bind {c : Floor σ → α × Floor σ} {g : α → Script σ β}
    (h : ∀ f : Floor σ, f.Spared (c f).2 ∧ (g (c f).1).Untimed) : (update c >>= g).Untimed :=
  ⟨fun f => (h f).1, fun f => (h f).2⟩

theorem untimed_writeTo {p : Payload} (h : p.Plain) (id : ConnId) :
    (writeTo id p : Script σ _).Untimed :=
  ⟨h, fun _ => trivial⟩

theorem untimed_closeOne (id : ConnId) : (closeOne id : Script σ Unit).Untimed := trivial

theorem untimed_count (m : Metric) (n : Int) : (change (σ := σ) (·.count m n)).Untimed :=
  untimed_change fun _ => ⟨rfl, rfl⟩

end Script

open Script

namespace Delivery

variable {side : Side} {p : Payload}

theorem untimed_closeEach (ids : List ConnId) : (closeEach ids : Script σ Unit).Untimed := by
  induction ids with
  | nil => exact untimed_pure ()
  | cons id ids ih => exact (untimed_closeOne id).monad_bind fun _ => ih

theorem untimed_withdraw (room : RoomCode) (ids : Floor σ → List ConnId) :
    (do
      let removed ← Script.update fun f => withdraw side room (ids f) f
      closeEach removed
      return removed.length : Script σ Nat).Untimed :=
  (untimed_update fun f => f.spared_setAttendance side _).monad_bind fun removed =>
    (untimed_closeEach removed).monad_bind fun _ => untimed_pure _

theorem untimed_closeUser (room : RoomCode) (user : UserId) :
    (closeUser side room user : Script σ Nat).Untimed :=
  untimed_withdraw room fun f => connectionsOf side room user f

theorem untimed_dropRoom (room : RoomCode) : (dropRoom side room : Script σ Nat).Untimed :=
  untimed_withdraw room fun f => (f.attendance side).present room

theorem untimed_unregister (room : RoomCode) (id : ConnId) :
    (unregister side room id : Script σ (Option UserId)).Untimed :=
  untimed_update fun f => f.spared_setAttendance side _

theorem untimed_enter (room : RoomCode) (id : ConnId) :
    (change (σ := σ) (Delivery.enter side room id)).Untimed :=
  untimed_change fun f => f.spared_setAttendance side _

theorem untimed_prune (room : RoomCode) (failed : List ConnId) :
    (prune side room failed : Script σ Nat).Untimed := by
  refine (untimed_withdraw room fun _ => failed).monad_bind fun n => ?_
  split
  · exact (untimed_count _ _).monad_bind fun _ => untimed_pure _
  · exact (untimed_pure _).monad_bind fun _ => untimed_pure _

theorem untimed_writeEach (hp : p.Plain) (ids : List ConnId) :
    (writeEach p ids : Script σ (List ConnId)).Untimed := by
  induction ids with
  | nil => exact untimed_pure _
  | cons id ids ih =>
    refine (untimed_writeTo hp id).monad_bind fun r => ?_
    cases r with
    | ok _ => exact ih
    | error e => exact ih.monad_bind fun _ => untimed_pure _

theorem untimed_send (hp : p.Plain) (room : RoomCode) (targets : List ConnId) :
    (send side room targets p : Script σ Nat).Untimed :=
  (untimed_writeEach hp targets).monad_bind fun failed =>
    (untimed_prune room failed).discard.monad_bind fun _ => untimed_pure _

theorem untimed_broadcast (hp : p.Plain) (room : RoomCode) :
    (broadcast side room p : Script σ Nat).Untimed :=
  (untimed_look _).monad_bind fun targets => untimed_send hp room targets

end Delivery

namespace Lobby

theorem untimed_announceGame (code : RoomCode) (game : Int) :
    (announceGame code game : Script σ Nat).Untimed :=
  Delivery.untimed_broadcast (Payload.plain_frame rfl) code

theorem untimed_tellHost (code : RoomCode) (ids : List ConnId) (members : List Member) :
    (tellHost code ids members : Script σ Nat).Untimed := by
  unfold tellHost
  split
  · exact untimed_pure _
  · exact (untimed_look _).monad_bind fun hosts =>
      Delivery.untimed_send (Payload.plain_frame rfl) code hosts

variable [RoomStore σ]

theorem untimed_showRoom (code : RoomCode) :
    (showRoom code : Script σ (Except RoomError Shown)).Untimed := by
  refine (untimed_look _).monad_bind fun targets => ?_
  split
  · exact untimed_pure _
  refine (untimed_look _).monad_bind fun answer => ?_
  cases answer with
  | error e => exact untimed_pure _
  | ok r =>
    exact (Delivery.untimed_send (Payload.plain_frame rfl) code targets).monad_bind fun _ =>
      (untimed_tellHost code targets r.2).monad_bind fun _ => untimed_pure _

theorem untimed_refresh (code : RoomCode) : (refresh code : Script σ Unit).Untimed :=
  (untimed_showRoom code).discard

theorem untimed_enter (code : RoomCode) (id : ConnId) : (enter code id : Script σ Unit).Untimed :=
  (Delivery.untimed_enter code id).monad_bind fun _ => untimed_refresh code

theorem untimed_setReady (code : RoomCode) (user : UserId) (ready : Bool) :
    (Script.update (σ := σ) (setReady code user ready)).Untimed :=
  untimed_update fun f => by
    unfold setReady
    split <;> exact ⟨rfl, rfl⟩

theorem untimed_leave (code : RoomCode) (id : ConnId) : (leave code id : Script σ Unit).Untimed := by
  have hout : (do
      discard (Delivery.unregister .lobby code id)
      refresh code : Script σ Unit).Untimed :=
    (Delivery.untimed_unregister code id).discard.monad_bind fun _ => untimed_refresh code
  refine (untimed_look _).monad_bind fun user => ?_
  cases user with
  | none => exact hout
  | some user => exact (untimed_setReady code user false).discard.monad_bind fun _ => hout

theorem untimed_receive (code : RoomCode) (user : UserId) (raw : String) :
    (receive code user raw : Script σ Outcome).Untimed := by
  unfold receive
  split
  · exact untimed_pure _
  refine (untimed_setReady code user _).monad_bind fun r => ?_
  cases r with
  | error e => exact untimed_pure _
  | ok _ => exact (untimed_refresh code).monad_bind fun _ => untimed_pure _

end Lobby

theorem LobbyAct.untimed [RoomStore σ] (a : LobbyAct) : (a.script : Script σ Unit).Untimed := by
  cases a with
  | enters code id => exact Lobby.untimed_enter code id
  | leaves code id => exact Lobby.untimed_leave code id
  | receives code user raw => exact (Lobby.untimed_receive code user raw).discard
  | roomChanged code => exact Lobby.untimed_refresh code
  | gameStarted code game => exact (Lobby.untimed_announceGame code game).discard
  | userLeft code user =>
    exact (Delivery.untimed_closeUser code user).discard.monad_bind fun _ =>
      Lobby.untimed_refresh code

namespace Tableside

theorem untimed_showBets {bets : Frame} (h : bets.side? = some .table) (code : RoomCode) :
    (showBets code bets : Script σ Nat).Untimed :=
  Delivery.untimed_broadcast (Payload.plain_frame h) code

theorem untimed_leave (code : RoomCode) (id : ConnId) : (leave code id : Script σ Unit).Untimed :=
  (Delivery.untimed_unregister code id).discard

theorem spared_seatMembers (code : RoomCode) (members : List Member) (f : Floor σ) :
    f.Spared (seatMembers code members f).2 :=
  ⟨(f.spared_ensureTable code).connections, (f.spared_ensureTable code).config⟩

theorem untimed_letIn (code : RoomCode) (id : ConnId) (members : List Member) :
    (letIn code id members : Script σ (Except RoomError Unit)).Untimed := by
  refine untimed_update_bind fun f => ⟨spared_seatMembers code members f, ?_⟩
  refine (Delivery.untimed_enter code id).monad_bind fun _ => ?_
  refine (untimed_writeTo (Payload.plain_frame rfl) id).monad_bind fun r => ?_
  cases r with
  | error e =>
    exact (Delivery.untimed_unregister code id).discard.monad_bind fun _ =>
      (untimed_closeOne id).monad_bind fun _ => untimed_pure _
  | ok _ => exact (untimed_showBets rfl code).discard.monad_bind fun _ => untimed_pure _

theorem untimed_join [RoomStore σ] (code : RoomCode) (id : ConnId) :
    (join code id : Script σ (Except RoomError Unit)).Untimed := by
  refine (untimed_look _).monad_bind fun answer => ?_
  cases answer with
  | error e => exact untimed_pure _
  | ok members =>
    cases members with
    | nil => exact untimed_pure _
    | cons m ms => exact untimed_letIn code id (m :: ms)

theorem untimed_receive (code : RoomCode) (user : UserId) (raw : String) :
    (receive code user raw : Script σ Outcome).Untimed := by
  unfold receive
  split
  · exact untimed_pure _
  rename_i c _
  refine untimed_update_bind fun f => ?_
  obtain ⟨reason, e⟩ | ⟨t, -, e⟩ := placeBet_cases code user c f <;> rw [e]
  · exact ⟨.refl f, untimed_pure _⟩
  · exact ⟨⟨rfl, rfl⟩,
      (untimed_showBets rfl code).discard.monad_bind fun _ => untimed_pure _⟩

theorem untimed_closeRoom (code : RoomCode) : (closeRoom code : Script σ Unit).Untimed :=
  (Delivery.untimed_dropRoom code).discard.monad_bind fun _ =>
    untimed_change fun _ => ⟨rfl, rfl⟩

end Tableside

theorem Door.untimed_roomClosed (code : RoomCode) : (roomClosed code : Script σ Unit).Untimed :=
  (Delivery.untimed_dropRoom code).discard.monad_bind fun _ => Tableside.untimed_closeRoom code

end Cardroom
