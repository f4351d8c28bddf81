import Cardroom.Floor.Door
import Cardroom.Proofs.Floor.Attendance
import Cardroom.Proofs.Floor.Connection
import Cardroom.Proofs.Floor.Tables
/-!
Scripts that only make moves of some kind. If each move of a script is allowed by a relation that is
reflexive and transitive, then so is the whole script (`Script.Within.run`). For the scripts of the
lobby and of the table it is enough to look at the few moves that they are made of.
-/

namespace Cardroom

variable {σ α β : Type}

namespace Script

/-- Each move of the script is one that `R` allows, on whatever floor it is made. -/
def Within (R : Floor σ → Floor σ → Prop) : Script σ α → Prop
  | .done _ => True
  | .step change next => ∀ f, R f (change f) ∧ (next f).Within R
  | .write id p next => (∀ f, R f (f.write id p).2) ∧ ∀ r, (next r).Within R
  | .close id next => (∀ f, R f (f.close id)) ∧ next.Within R

structure Steps (R : Floor σ → Floor σ → Prop) : Prop where
  refl : ∀ f, R f f
  trans : ∀ {f g h}, R f g → R g h → R f h

variable {R : Floor σ → Floor σ → Prop}

theorem Within.run {s : Script σ α} (h : s.Within R) (hR : Steps R) (f : Floor σ) :
    R f (s.run f).2 := by
  induction s generalizing f with
  | done a => exact hR.refl f
  | step change next ih => exact hR.trans (h f).1 (ih f (h f).2 (change f))
  | write id p next ih => exact hR.trans (h.1 f) (ih _ (h.2 _) _)
  | close id next ih => exact hR.trans (h.1 f) (ih h.2 _)

theorem Within.bind {s : Script σ α} {g : α → Script σ β} (h : s.Within R)
    (hg : ∀ a, (g a).Within R) : (s.bind g).Within R := by
  induction s with
  | done a => exact hg a
  | step change next ih => exact fun f => ⟨(h f).1, ih f (h f).2⟩
  | write id p next ih => exact ⟨h.1, fun r => ih r (h.2 r)⟩
  | close id next ih => exact ⟨h.1, ih h.2⟩

theorem Within.monad_bind {s : Script σ α} {g : α → Script σ β} (h : s.Within R)
    (hg : ∀ a, (g a).Within R) : (s >>= g).Within R :=
  h.bind hg

theorem within_pure (a : α) : (pure a : Script σ α).Within R := trivial

theorem Within.discard {s : Script σ α} (h : s.Within R) : (Functor.discard s).Within R :=
  h.bind fun _ => trivial

theorem within_look (hR : Steps R) (view : Floor σ → α) : (look view).Within R :=
  fun f => ⟨hR.refl f, trivial⟩

theorem within_change {c : Floor σ → Floor σ} (h : ∀ f, R f (c f)) : (change c).Within R :=
  fun f => ⟨h f, trivial⟩

theorem within_update {c : Floor σ → α × Floor σ} (h : ∀ f, R f (c f).2) : (update c).Within R :=
  fun f => ⟨h f, trivial⟩

theorem within_update_bind {c : Floor σ → α × Floor σ} {g : α → Script σ β}
    (h : ∀ f, R f (c f).2 ∧ (g (c f).1).Within R) : (update c >>= g).Within R := h

theorem within_writeTo {id : ConnId} {p : Payload} (h : ∀ f, R f (f.write id p).2) :
    (writeTo id p).Within R :=
  ⟨h, fun _ => trivial⟩

theorem within_closeOne {id : ConnId} (h : ∀ f, R f (f.close id)) : (closeOne id).Within R :=
  ⟨h, trivial⟩

@[simp] theorem run_discard (s : Script σ α) (f : Floor σ) :
    (Functor.discard s).run f = ((), (s.run f).2) :=
  run_bind s (fun _ => .done ()) f

end Script

/-- The side whose frames these are; the countdown belongs to neither. -/
def Frame.side? : Frame → Option Side
  | .roomStatus .. | .allReady .. | .startGame .. => some .lobby
  | .playerOrder .. | .betState .. => some .table
  | .timer _ => none

open Script

variable {R : Floor σ → Floor σ → Prop}

namespace Delivery

/-- The moves that deliveries of some frames on one side are made of. Nobody comes in. -/
structure Allowed (R : Floor σ → Floor σ → Prop) (side : Side) (K : Frame → Prop) : Prop
    extends Steps R where
  write : ∀ f id F, K F → R f (f.write id (.frame F)).2
  close : ∀ f id, R f (f.close id)
  shrink : ∀ f a, (f.attendance side).Shrinks a → R f (f.setAttendance side a)
  count : ∀ f m n, R f (f.count m n)

variable {side : Side} {K : Frame → Prop} (h : Allowed R side K)
include h

theorem within_closeEach (ids : List ConnId) : (closeEach ids : Script σ Unit).Within R := by
  induction ids with
  | nil => exact within_pure ()
  | cons id ids ih => exact (within_closeOne fun f => h.close f id).monad_bind fun _ => ih

theorem within_withdraw (room : RoomCode) (ids : Floor σ → List ConnId) :
    (do
      let removed ← Script.update fun f => withdraw side room (ids f) f
      closeEach removed
      return removed.length : Script σ Nat).Within R :=
  (within_update fun f => h.shrink f _ (Attendance.shrinks_withdraw ..)).monad_bind fun removed =>
    (within_closeEach h removed).monad_bind fun _ => within_pure _

theorem within_closeUser (room : RoomCode) (user : UserId) :
    (closeUser side room user : Script σ Nat).Within R :=
  within_withdraw h room fun f => connectionsOf side room user f

theorem within_dropRoom (room : RoomCode) : (dropRoom side room : Script σ Nat).Within R :=
  within_withdraw h room fun f => (f.attendance side).present room

theorem within_unregister (room : RoomCode) (id : ConnId) :
    (unregister side room id : Script σ (Option UserId)).Within R :=
  within_update fun f => h.shrink f _ (Attendance.shrinks_leave ..)

theorem within_prune (room : RoomCode) (failed : List ConnId) :
    (prune side room failed : Script σ Nat).Within R := by
  refine Within.monad_bind (within_withdraw h room fun _ => failed) fun n => ?_
  split
  · exact (within_change fun f => h.count f _ _).monad_bind fun _ => within_pure _
  · exact (within_pure _).monad_bind fun _ => within_pure _

variable {F : Frame} (hF : K F)
include hF

theorem within_writeEach (ids : List ConnId) :
    (writeEach (.frame F) ids : Script σ (List ConnId)).Within R := by
  induction ids with
  | nil => exact within_pure _
  | cons id ids ih =>
    refine (within_writeTo fun f => h.write f id F hF).monad_bind fun r => ?_
    cases r with
    | ok _ => exact ih
    | error e => exact ih.monad_bind fun _ => within_pure _

theorem within_send (room : RoomCode) (targets : List ConnId) :
    (send side room targets (.frame F) : Script σ Nat).Within R :=
  (within_writeEach h hF targets).monad_bind fun failed =>
    (within_prune h room failed).discard.monad_bind fun _ => within_pure _

theorem within_broadcast (room : RoomCode) :
    (broadcast side room (.frame F) : Script σ Nat).Within R :=
  (within_look h.toSteps _).monad_bind fun targets => within_send h hF room targets

end Delivery

namespace Lobby

theorem within_announceGame {K : Frame → Prop} (h : Delivery.Allowed R .lobby K) (code : RoomCode)
    (game : Int) (hK : K (startFrame code game)) :
    (announceGame code game : Script σ Nat).Within R :=
  Delivery.within_broadcast h hK code

theorem within_tellHost {K : Frame → Prop} (h : Delivery.Allowed R .lobby K) (code : RoomCode)
    (hK : K (allReadyFrame code)) (ids : List ConnId) (members : List Member) :
    (tellHost code ids members : Script σ Nat).Within R := by
  unfold tellHost
  split
  · exact within_pure _
  · exact (within_look h.toSteps _).monad_bind fun hosts => Delivery.within_send h hK code hosts

variable [RoomStore σ]

section

variable (h : Delivery.Allowed R .lobby fun F => F.side? = some .lobby)
include h

theorem within_showRoom (code : RoomCode) :
    (showRoom code : Script σ (Except RoomError Shown)).Within R := by
  refine (within_look h.toSteps _).monad_bind fun targets => ?_
  split
  · exact within_pure _
  refine (within_look h.toSteps _).monad_bind fun answer => ?_
  cases answer with
  | error e => exact within_pure _
  | ok r =>
    exact (Delivery.within_send h rfl code targets).monad_bind fun _ =>
      (within_tellHost h code rfl targets r.2).monad_bind fun _ => within_pure _

theorem within_refresh (code : RoomCode) : (refresh code : Script σ Unit).Within R :=
  (within_showRoom h code).discard

end

structure Allowed (R : Floor σ → Floor σ → Prop) : Prop
    extends Delivery.Allowed R .lobby fun F => F.side? = some .lobby where
  enter : ∀ f code id, R f (Delivery.enter .lobby code id f)
  ready : ∀ f code user ready, R f (setReady code user ready f).2

variable (h : Allowed R)
include h

theorem within_enter (code : RoomCode) (id : ConnId) : (enter code id : Script σ Unit).Within R :=
  (within_change fun f => h.enter f code id).monad_bind fun _ => within_refresh h.toAllowed code

theorem within_leave (code : RoomCode) (id : ConnId) :
    (leave code id : Script σ Unit).Within R := by
  have hout : (do
      discard (Delivery.unregister .lobby code id)
      refresh code : Script σ Unit).Within R :=
    (Delivery.within_unregister h.toAllowed code id).discard.monad_bind fun _ =>
      within_refresh h.toAllowed code
  refine (within_look h.toSteps _).monad_bind fun user => ?_
  cases user with
  | none => exact hout
  | some user =>
    exact (within_update fun f => h.ready f code user false).discard.monad_bind fun _ => hout

theorem within_receive (code : RoomCode) (user : UserId) (raw : String) :
    (receive code user raw : Script σ Outcome).Within R := by
  unfold receive
  split
  · exact within_pure _
  refine (within_update fun f => h.ready f code user _).monad_bind fun r => ?_
  cases r with
  | error e => exact within_pure _
  | ok _ => exact (within_refresh h.toAllowed code).monad_bind fun _ => within_pure _

end Lobby

namespace Tableside

structure Allowed (R : Floor σ → Floor σ → Prop) : Prop
    extends Delivery.Allowed R .table fun F => F.side? = some .table where
  enter : ∀ f code id, R f (Delivery.enter .table code id f)
  seat : ∀ f code members, members ≠ [] → R f (seatMembers code members f).2
  bet : ∀ f code user c, R f (placeBet code user c f).2
  clear : ∀ f code, R f (f.removeTable code)

variable (h : Allowed R)
include h

theorem within_showBets {bets : Frame} (hb : bets.side? = some .table) (code : RoomCode) :
    (showBets code bets : Script σ Nat).Within R :=
  Delivery.within_broadcast h.toAllowed hb code

theorem within_leave (code : RoomCode) (id : ConnId) : (leave code id : Script σ Unit).Within R :=
  (Delivery.within_unregister h.toAllowed code id).discard

theorem within_letIn (code : RoomCode) (id : ConnId) {members : List Member} (hm : members ≠ []) :
    (letIn code id members : Script σ (Except RoomError Unit)).Within R := by
  refine within_update_bind fun f => ⟨h.seat f code members hm, ?_⟩
  refine (within_change fun f => h.enter f code id).monad_bind fun _ => ?_
  refine (within_writeTo fun f => h.write f id _ rfl).monad_bind fun r => ?_
  cases r with
  | error e =>
    exact (Delivery.within_unregister h.toAllowed code id).discard.monad_bind fun _ =>
      (within_closeOne fun f => h.close f id).monad_bind fun _ => within_pure _
  | ok _ => exact (within_showBets h rfl code).discard.monad_bind fun _ => within_pure _

theorem within_join [RoomStore σ] (code : RoomCode) (id : ConnId) :
    (join code id : Script σ (Except RoomError Unit)).Within R := by
  refine (within_look h.toSteps _).monad_bind fun answer => ?_
  cases answer with
  | error e => exact within_pure _
  | ok members =>
    cases members with
    | nil => exact within_pure _
    | cons m ms => exact within_letIn h code id (List.cons_ne_nil m ms)

theorem within_receive (code : RoomCode) (user : UserId) (raw : String) :
    (receive code user raw : Script σ Outcome).Within R := by
  unfold receive
  split
  · exact within_pure _
  rename_i c _
  refine within_update_bind fun f => ⟨h.bet f code user c, ?_⟩
  obtain ⟨reason, e⟩ | ⟨t, -, e⟩ := placeBet_cases code user c f <;> rw [e]
  · exact within_pure _
  · exact (within_showBets h rfl code).discard.monad_bind fun _ => within_pure _

theorem within_closeRoom (code : RoomCode) : (closeRoom code : Script σ Unit).Within R :=
  (Delivery.within_dropRoom h.toAllowed code).discard.monad_bind fun _ =>
    within_change fun f => h.clear f code

end Tableside

end Cardroom
