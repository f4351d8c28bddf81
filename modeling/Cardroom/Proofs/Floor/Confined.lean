import Cardroom.Floor.Lobby
import Cardroom.Proofs.Floor.Alike

namespace Cardroom

variable {α β : Type} {home : ConnId → RoomCode} {room : RoomCode}

open Floor (Orderly Alike Local)

namespace Script

/-- The script works in the room alone, on any orderly floor, and its result is as `P` says. -/
def Confined (home : ConnId → RoomCode) (room : RoomCode) (P : α → Prop) : Script Rooms α → Prop
  | .done a => P a
  | .step change next =>
    Local home room change ∧
      (∀ f g, Orderly home f → Orderly home g → Alike home room f g → next f = next g) ∧
      ∀ f, Orderly home f → (next f).Confined home room P
  | .write id _ next => home id = room ∧ ∀ r, (next r).Confined home room P
  | .close id next => home id = room ∧ next.Confined home room P

variable {P : α → Prop} {Q : β → Prop}

theorem Confined.bind {s : Script Rooms α} {g : α → Script Rooms β} (h : s.Confined home room P)
    (hg : ∀ a, P a → (g a).Confined home room Q) : (s.bind g).Confined home room Q := by
  induction s with
  | done a => exact hg a h
  | step change next ih =>
    obtain ⟨hlocal, hsame, hnext⟩ := h
    refine ⟨hlocal, fun f k hf hk hfk => ?_, fun f hf => ih f (hnext f hf)⟩
    exact congrArg (Script.bind · g) (hsame f k hf hk hfk)
  | write id p next ih => exact ⟨h.1, fun r => ih r (h.2 r)⟩
  | close id next ih => exact ⟨h.1, ih h.2⟩

theorem Confined.monad_bind {s : Script Rooms α} {g : α → Script Rooms β}
    (h : s.Confined home room P) (hg : ∀ a, P a → (g a).Confined home room Q) :
    (s >>= g).Confined home room Q :=
  h.bind hg

theorem Confined.map {s : Script Rooms α} {g : α → β} (h : s.Confined home room P)
    (hg : ∀ a, P a → Q (g a)) : (g <$> s).Confined home room Q :=
  h.bind hg

theorem confined_pure {a : α} (h : P a) : (pure a : Script Rooms α).Confined home room P := h

theorem Confined.discard {s : Script Rooms α} (h : s.Confined home room P) :
    (Functor.discard s).Confined home room fun _ => True :=
  h.bind fun _ _ => trivial

theorem confined_update {c : Floor Rooms → α × Floor Rooms}
    (hlocal : Local home room fun f => (c f).2)
    (hvalue : ∀ f g, Orderly home f → Orderly home g → Alike home room f g → (c f).1 = (c g).1)
    (hpost : ∀ f, Orderly home f → P (c f).1) : (update c).Confined home room P :=
  ⟨hlocal, fun f g hf hg hfg => congrArg Script.done (hvalue f g hf hg hfg), hpost⟩

theorem confined_look {view : Floor Rooms → α}
    (hvalue : ∀ f g, Alike home room f g → view f = view g)
    (hpost : ∀ f, Orderly home f → P (view f)) : (look view).Confined home room P :=
  ⟨Floor.local_id, fun f g _ _ hfg => congrArg Script.done (hvalue f g hfg), hpost⟩

theorem confined_change {c : Floor Rooms → Floor Rooms} (h : Local home room c) :
    (change c).Confined home room fun _ => True :=
  ⟨h, fun _ _ _ _ _ => rfl, fun _ _ => trivial⟩

theorem confined_writeTo {id : ConnId} (h : home id = room) (p : Payload) :
    (writeTo id p : Script Rooms _).Confined home room fun _ => True :=
  ⟨h, fun _ => trivial⟩

theorem confined_closeOne {id : ConnId} (h : home id = room) :
    (closeOne id : Script Rooms Unit).Confined home room fun _ => True :=
  ⟨h, trivial⟩

end Script

open Script

namespace Delivery

variable {side : Side}

theorem confined_writeEach (p : Payload) {ids : List ConnId} (h : ∀ id ∈ ids, home id = room) :
    (writeEach p ids : Script Rooms _).Confined home room
      fun failed => ∀ id ∈ failed, home id = room := by
  induction ids with
  | nil => exact confined_pure h
  | cons id ids ih =>
    have hid := h id List.mem_cons_self
    have hids := ih fun x hx => h x (List.mem_cons_of_mem id hx)
    refine (confined_writeTo hid p).monad_bind fun r _ => ?_
    cases r with
    | ok _ => exact hids
    | error e =>
      refine hids.monad_bind fun failed hfailed => confined_pure fun x hx => ?_
      rcases List.mem_cons.1 hx with rfl | hx
      · exact hid
      · exact hfailed x hx

theorem confined_closeEach {ids : List ConnId} (h : ∀ id ∈ ids, home id = room) :
    (closeEach ids : Script Rooms Unit).Confined home room fun _ => True := by
  induction ids with
  | nil => exact confined_pure trivial
  | cons id ids ih =>
    exact (confined_closeOne (h id List.mem_cons_self)).monad_bind fun _ _ =>
      ih fun x hx => h x (List.mem_cons_of_mem id hx)

theorem confined_withdraw {ids : Floor Rooms → List ConnId}
    (hids : ∀ f g, Orderly home f → Alike home room f g → ids f = ids g) :
    (Script.update fun f => withdraw side room (ids f) f).Confined home room
      fun removed => ∀ id ∈ removed, home id = room := by
  refine confined_update (Floor.local_setAttendance side ?_ ?_ ?_) ?_ ?_
  · intro f hf id hid
    exact hf.atHome side room id ((Attendance.present_withdraw_sublist ..).subset hid)
  · intro f other hother
    exact Attendance.present_withdraw_of_ne hother ..
  · intro f g hf hfg
    rw [hids f g hf hfg]
    exact (Attendance.withdraw_congr (hfg.present side)).2
  · intro f g hf _ hfg
    change ((f.attendance side).withdraw room (ids f)).1 =
      ((g.attendance side).withdraw room (ids g)).1
    rw [hids f g hf hfg]
    exact (Attendance.withdraw_congr (hfg.present side)).1
  · intro f hf id hid
    exact hf.atHome side room id (Attendance.present_of_mem_withdraw hid)

theorem confined_remove {ids : Floor Rooms → List ConnId}
    (hids : ∀ f g, Orderly home f → Alike home room f g → ids f = ids g) :
    (do
      let removed ← Script.update fun f => withdraw side room (ids f) f
      closeEach removed
      return removed.length : Script Rooms Nat).Confined home room fun _ => True :=
  (confined_withdraw hids).monad_bind fun _ hremoved =>
    (confined_closeEach hremoved).monad_bind fun _ _ => confined_pure trivial

theorem confined_prune (failed : List ConnId) :
    (prune side room failed : Script Rooms Nat).Confined home room fun _ => True := by
  refine (confined_remove fun _ _ _ _ => rfl).monad_bind fun n _ => ?_
  split
  · exact (confined_change (Floor.local_count _ _)).monad_bind fun _ _ => confined_pure trivial
  · exact (confined_pure trivial).monad_bind fun _ (_ : True) => confined_pure trivial

theorem confined_send (p : Payload) {targets : List ConnId}
    (h : ∀ id ∈ targets, home id = room) :
    (send side room targets p : Script Rooms Nat).Confined home room fun _ => True :=
  (confined_writeEach p h).monad_bind fun failed _ =>
    (confined_prune failed).discard.monad_bind fun _ _ => confined_pure trivial

theorem confined_present (side : Side) :
    (Script.look (σ := Rooms) fun f => (f.attendance side).present room).Confined home room
      fun ids => ∀ id ∈ ids, home id = room :=
  confined_look (fun _ _ hfg => hfg.present side) fun _ hf => hf.atHome side room

theorem confined_broadcast (p : Payload) :
    (broadcast side room p : Script Rooms Nat).Confined home room fun _ => True :=
  (confined_present side).monad_bind fun _ h => confined_send p h

theorem connectionsOf_congr {f g : Floor Rooms} (h : Alike home room f g)
    (hf : Orderly home f) (user : UserId) :
    connectionsOf side room user f = connectionsOf side room user g := by
  unfold connectionsOf
  rw [← h.present side]
  refine List.filter_congr fun id hid => ?_
  rw [h.user? (hf.atHome side room id hid)]

theorem confined_closeUser (user : UserId) :
    (closeUser side room user : Script Rooms Nat).Confined home room fun _ => True :=
  confined_remove fun _ _ hf hfg => connectionsOf_congr hfg hf user

theorem confined_dropRoom :
    (dropRoom side room : Script Rooms Nat).Confined home room fun _ => True :=
  confined_remove fun _ _ _ hfg => hfg.present side

theorem local_enter {id : ConnId} (hid : home id = room) :
    Local home room (Delivery.enter side room id) := by
  refine Floor.local_setAttendance side ?_ ?_ ?_
  · intro f hf x hx
    rcases Attendance.mem_present_enter.1 hx with hx | ⟨-, rfl⟩
    · exact hf.atHome side room x hx
    · exact hid
  · intro f other hother
    rw [Attendance.present_enter, if_neg fun h => hother h.1]
  · intro f g _ hfg
    rw [Attendance.present_enter, Attendance.present_enter, hfg.present side]

theorem confined_unregister {id : ConnId} (hid : home id = room) :
    (unregister side room id : Script Rooms _).Confined home room fun _ => True := by
  refine confined_update (Floor.local_setAttendance side ?_ ?_ ?_) ?_ fun _ _ => trivial
  · intro f hf x hx
    exact hf.atHome side room x ((Attendance.present_leave_sublist ..).subset hx)
  · intro f other hother
    exact Attendance.present_leave_of_ne hother ..
  · intro f g _ hfg
    rw [Attendance.present_leave, Attendance.present_leave, hfg.present side]
  · intro f g _ _ hfg
    change (if (f.attendance side).has room id then f.user? id else none) =
      if (g.attendance side).has room id then g.user? id else none
    rw [Attendance.has_congr (hfg.present side), hfg.user? hid]

end Delivery

namespace Lobby

theorem readRoom_congr {f g : Floor Rooms} (h : Alike home room f g) :
    readRoom room f = readRoom room g := by
  have hmembers := Rooms.members_congr h.entry
  unfold readRoom
  simp only [RoomStore.room, RoomStore.members, h.entry, hmembers]

theorem openConnections_congr {f g : Floor Rooms} (h : Alike home room f g) {ids : List ConnId}
    (hids : ∀ id ∈ ids, home id = room) (user : UserId) :
    openConnections ids user f = openConnections ids user g := by
  unfold openConnections
  refine List.filter_congr fun id hid => ?_
  rw [h.user? (hids id hid), h.isClosed (hids id hid)]

theorem confined_tellHost {ids : List ConnId} (hids : ∀ id ∈ ids, home id = room)
    (members : List Member) :
    (tellHost room ids members : Script Rooms Nat).Confined home room fun _ => True := by
  unfold tellHost
  split
  · exact confined_pure trivial
  · rename_i host _
    have hlook : (Script.look (openConnections ids host)).Confined home room
        fun hosts => ∀ id ∈ hosts, home id = room :=
      confined_look (fun _ _ hfg => openConnections_congr hfg hids host) fun _ _ id hid =>
        hids id (List.mem_of_mem_filter hid)
    exact hlook.monad_bind fun hosts hhosts => Delivery.confined_send _ hhosts

theorem confined_showRoom :
    (showRoom room : Script Rooms (Except RoomError Shown)).Confined home room fun _ => True := by
  refine (Delivery.confined_present .lobby).monad_bind fun targets htargets => ?_
  split
  · exact confined_pure trivial
  have hlook : (Script.look (readRoom room)).Confined home room fun _ => True :=
    confined_look (fun _ _ hfg => readRoom_congr hfg) fun _ _ => trivial
  refine hlook.monad_bind fun answer _ => ?_
  cases answer with
  | error e => exact confined_pure trivial
  | ok r =>
    exact (Delivery.confined_send _ htargets).monad_bind fun _ _ =>
      (confined_tellHost htargets r.2).monad_bind fun _ _ => confined_pure trivial

theorem confined_refresh :
    (refresh room : Script Rooms Unit).Confined home room fun _ => True :=
  confined_showRoom.discard

theorem confined_enter {id : ConnId} (hid : home id = room) :
    (enter room id : Script Rooms Unit).Confined home room fun _ => True :=
  (confined_change (Delivery.local_enter hid)).monad_bind fun _ _ => confined_refresh

theorem setReady_snd (user : UserId) (ready : Bool) (f : Floor Rooms) :
    (setReady room user ready f).2 =
      { f with store := (Edit.setReady room user ready).apply f.store } := by
  have happly : (Edit.setReady room user ready).apply f.store =
      (RoomStore.setReady f.store room user ready).toOption.getD f.store := rfl
  rw [happly]
  unfold setReady
  cases RoomStore.setReady f.store room user ready <;> rfl

theorem setReady_fst (user : UserId) (ready : Bool) (f : Floor Rooms) :
    (setReady room user ready f).1 =
      (f.store.update room (·.setReady user ready)).map fun _ => () := by
  have hstore : RoomStore.setReady f.store room user ready =
      f.store.update room (·.setReady user ready) := rfl
  unfold setReady
  rw [← hstore]
  cases RoomStore.setReady f.store room user ready <;> rfl

theorem confined_setReady (user : UserId) (ready : Bool) :
    (Script.update (setReady room user ready)).Confined home room fun _ => True := by
  refine confined_update ?_ (fun f g _ _ hfg => ?_) fun _ _ => trivial
  · rw [funext (setReady_snd user ready)]
    exact Edit.local_apply (Edit.setReady room user ready)
  · rw [setReady_fst, setReady_fst]
    obtain ⟨e, hf, hg⟩ | ⟨s, t, hf, hg, -⟩ := Rooms.update_congr hfg.entry (·.setReady user ready)
    · rw [hf, hg]
    · rw [hf, hg]
      rfl

theorem confined_leave {id : ConnId} (hid : home id = room) :
    (leave room id : Script Rooms Unit).Confined home room fun _ => True := by
  have hlook : (Script.look (σ := Rooms) (·.user? id)).Confined home room fun _ => True :=
    confined_look (fun _ _ hfg => hfg.user? hid) fun _ _ => trivial
  have hgo : (do
      discard (Delivery.unregister .lobby room id)
      refresh room : Script Rooms Unit).Confined home room fun _ => True :=
    (Delivery.confined_unregister hid).discard.monad_bind fun _ _ => confined_refresh
  refine hlook.monad_bind fun user _ => ?_
  cases user with
  | none => exact hgo
  | some user => exact (confined_setReady user false).discard.monad_bind fun _ _ => hgo

theorem confined_receive (user : UserId) (raw : String) :
    (receive room user raw : Script Rooms Outcome).Confined home room fun _ => True := by
  unfold receive
  split
  · exact confined_pure trivial
  refine (confined_setReady user _).monad_bind fun answer _ => ?_
  cases answer with
  | error e => exact confined_pure trivial
  | ok _ => exact confined_refresh.monad_bind fun _ _ => confined_pure trivial

theorem confined_announceGame (game : Int) :
    (announceGame room game : Script Rooms Nat).Confined home room fun _ => True :=
  Delivery.confined_broadcast _

theorem confined_closeUser (user : UserId) :
    (closeUser room user : Script Rooms Nat).Confined home room fun _ => True :=
  Delivery.confined_closeUser user

theorem confined_closeRoom :
    (closeRoom room : Script Rooms Nat).Confined home room fun _ => True :=
  Delivery.confined_dropRoom

end Lobby

end Cardroom
