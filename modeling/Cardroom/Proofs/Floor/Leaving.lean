import Cardroom.Proofs.Floor.Presence
import Mathlib.Data.List.Chain
/-!
How connections leave. Every move of the scripts is one that `Floor.Stays` allows: those who attend
have open connections and attend one room, whoever attends nothing comes in nowhere and receives no
frame of a room. The one exception is the connection that a script is handed, for which it holds from
the moment on when it is let in (`Act.along_script`).
-/

namespace Cardroom

variable {σ α : Type}

open Script

namespace Floor

def roomFrames (f : Floor σ) (x : ConnId) : List Frame := (f.frames x).filter (·.side?.isSome)

/-- Whoever attends does so in one place and with an open connection. -/
structure Placed (f : Floor σ) : Prop where
  tidy : f.Tidy
  single : ∀ {side code other room x}, x ∈ (f.attendance side).present code →
    x ∈ (f.attendance other).present room → side = other ∧ code = room
  opened : ∀ {x}, f.attends x → f.isClosed x = false

theorem placed_new (config : Config) (secret : String) (store : σ) (entropy : Random.Source) :
    (new config secret store entropy).Placed := by
  refine ⟨tidy_new config secret store entropy, fun {side _ _ _ _} h => ?_, fun {x} h => ?_⟩
  · cases side <;> nomatch h
  · obtain ⟨side, code, h⟩ := h
    cases side <;> nomatch h

theorem Placed.not_attends {f g : Floor σ} (hf : f.Placed) {side : Side} {code : RoomCode}
    {x : ConnId} (hx : x ∈ (f.attendance side).present code)
    (hs : ∀ on room, x ∈ (g.attendance on).present room → x ∈ (f.attendance on).present room)
    (hleft : x ∉ (g.attendance side).present code) : ¬ g.attends x := by
  rintro ⟨on, room, h⟩
  obtain ⟨rfl, rfl⟩ := hf.single (hs on room h) hx
  exact hleft h

structure Kept (x : ConnId) (f g : Floor σ) : Prop where
  away : ¬ f.attends x → ¬ g.attends x
  quiet : ¬ f.attends x → g.roomFrames x = f.roomFrames x

theorem Kept.steps (x : ConnId) : Steps (Kept (σ := σ) x) where
  refl _ := ⟨fun h => h, fun _ => rfl⟩
  trans h h' := ⟨fun hx => h'.away (h.away hx), fun hx => (h'.quiet (h.away hx)).trans (h.quiet hx)⟩

/-- Everyone stays placed, and whoever is outside stays there, but for the one who is handed over. -/
def Stays (handed : Option ConnId) (f g : Floor σ) : Prop :=
  f.Placed → g.Placed ∧ ∀ x, handed ≠ some x → Kept x f g

namespace Stays

variable {handed : Option ConnId} {f g : Floor σ} {side : Side}

theorem steps : Steps (Stays (σ := σ) handed) where
  refl f hf := ⟨hf, fun x _ => (Kept.steps x).refl f⟩
  trans h h' hf :=
    have hg := h hf
    have hk := h' hg.1
    ⟨hk.1, fun x hx => (Kept.steps x).trans (hg.2 x hx) (hk.2 x hx)⟩

theorem handing (h : Stays none f g) : Stays handed f g :=
  fun hf => (h hf).imp_right fun hk x _ => hk x nofun

theorem of_shrink (hd : f.Tidy → g.Tidy)
    (hs : ∀ side code x, x ∈ (g.attendance side).present code →
      x ∈ (f.attendance side).present code)
    (ho : ∀ x, g.attends x → f.isClosed x = false → g.isClosed x = false)
    (hq : ∀ x, ¬ f.attends x → g.roomFrames x = f.roomFrames x) : Stays handed f g := by
  have hattends : ∀ x, g.attends x → f.attends x := fun x ⟨side, code, h⟩ =>
    ⟨side, code, hs side code x h⟩
  intro hf
  refine ⟨⟨hd hf.tidy, fun h h' => hf.single (hs _ _ _ h) (hs _ _ _ h'), fun h => ?_⟩, fun x _ => ?_⟩
  · exact ho _ h (hf.opened (hattends _ h))
  · exact ⟨fun hx h => hx (hattends x h), hq x⟩

theorem of_same (ha : ∀ side, g.attendance side = f.attendance side)
    (ho : ∀ x, g.attends x → f.isClosed x = false → g.isClosed x = false)
    (hq : ∀ x, ¬ f.attends x → g.roomFrames x = f.roomFrames x) : Stays handed f g :=
  of_shrink (KeepsTidy.of_same ha) (fun side _ _ h => ha side ▸ h) ho hq

theorem of_same_connections (ha : ∀ side, g.attendance side = f.attendance side)
    (hc : ∀ x, g.connection? x = f.connection? x) : Stays handed f g :=
  of_same ha (fun x _ h => (isClosed_congr (hc x)).trans h) fun x _ => by
    rw [roomFrames, frames_congr (hc x), roomFrames]

theorem setAttendance {a : Attendance} (hd : (f.attendance side).Distinct → a.Distinct)
    (hs : ∀ code x, x ∈ a.present code → x ∈ (f.attendance side).present code) :
    Stays handed f (f.setAttendance side a) := by
  refine of_shrink (KeepsTidy.setAttendance hd) (fun other code x hx => ?_) (fun x _ h => ?_)
    fun x _ => ?_
  · rw [attendance_setAttendance] at hx
    split at hx
    · rename_i h
      exact h ▸ hs code x hx
    · exact hx
  · exact (isClosed_congr (connection?_setAttendance ..)).trans h
  · rw [roomFrames, frames_congr (connection?_setAttendance ..), roomFrames]

theorem write {id : ConnId} {p : Payload}
    (h : f.attends id ∨ ∀ F, p.frame? = some F → F.side? = none) :
    Stays handed f (f.write id p).2 := by
  refine of_same (fun side => attendance_write f id p side)
    (fun x _ hx => (isClosed_write f id p x).trans hx) fun x hx => ?_
  rw [roomFrames, frames_write, roomFrames]
  split
  · rename_i hid
    have hother := h.resolve_left (hid.1 ▸ hx)
    cases hp : p.frame? with
    | none => simp
    | some F => simp [hother F hp]
  · rfl

theorem close {id : ConnId} (h : ¬ f.attends id) : Stays handed f (f.close id) := by
  refine of_same (fun side => attendance_close f id side) (fun x hx ho => ?_) fun x _ => ?_
  · obtain ⟨side, code, hx⟩ := hx
    rw [attendance_close] at hx
    have hne : x ≠ id := fun e => h (e ▸ ⟨side, code, hx⟩)
    rw [isClosed_close, if_neg hne]
    exact ho
  · rw [roomFrames, frames_close, roomFrames]

end Stays

/-! ### Deliveries -/

end Floor

namespace Delivery

open Floor

variable {side : Side} {room : RoomCode} {f : Floor σ}

theorem attends_congr {f g : Floor σ} (h : ∀ side, g.attendance side = f.attendance side)
    (x : ConnId) : g.attends x ↔ f.attends x := by
  simp only [attends, h]

theorem along_writeEach (p : Payload) {ids : List ConnId} (h : ∀ id ∈ ids, f.attends id) :
    (writeEach p ids).Along (Stays none) f := by
  induction ids generalizing f with
  | nil => exact along_pure _
  | cons id ids ih =>
    obtain ⟨hid, hids⟩ := List.forall_mem_cons.1 h
    have hrest : (writeEach p ids).Along (Stays none) (f.write id p).2 := ih fun x hx =>
      (attends_congr (fun side => attendance_write f id p side) x).2 (hids x hx)
    refine (along_writeTo (Stays.write (.inl hid))).monad_bind ?_
    rw [run_writeTo]
    cases (f.write id p).1 with
    | ok _ => exact hrest
    | error e => exact hrest.monad_bind (along_pure _)

theorem along_closeEach {ids : List ConnId} (h : ∀ id ∈ ids, ¬ f.attends id) :
    (closeEach ids).Along (Stays none) f := by
  induction ids generalizing f with
  | nil => exact along_pure _
  | cons id ids ih =>
    obtain ⟨hid, hids⟩ := List.forall_mem_cons.1 h
    refine (along_closeOne (Stays.close hid)).monad_bind (ih fun x hx => ?_)
    exact fun hx' => hids x hx ((attends_congr (fun side => attendance_close f id side) x).1 hx')

/-- Whoever is taken off attends nothing any more, for it attended one room only. -/
theorem along_takeOff (hf : f.Placed) (ids : Floor σ → List ConnId) :
    (takeOff side room ids).Along (Stays none) f := by
  refine (along_update (Stays.setAttendance (fun hd => hd.withdraw room (ids f)) fun code x hx =>
    (Attendance.present_withdraw_sublist ..).subset hx)).monad_bind ?_
  refine (along_closeEach fun x hx => ?_).monad_bind (along_pure _)
  rw [run_update] at hx ⊢
  obtain ⟨hmem, hpresent⟩ := (Attendance.mem_withdraw (hf.tidy side)).1 hx
  refine hf.not_attends hpresent (fun on code h => ?_) fun h => ?_
  · simp only [withdraw, attendance_setAttendance] at h
    split at h
    · rename_i hon
      exact hon ▸ (Attendance.present_withdraw_sublist ..).subset h
    · exact h
  · simp only [withdraw, attendance_setAttendance, if_true] at h
    exact ((Attendance.mem_present_withdraw (hf.tidy side)).1 h).2 ⟨rfl, hmem⟩

theorem along_prune (hf : f.Placed) (failed : List ConnId) :
    (prune side room failed).Along (Stays none) f := by
  have hremove : (remove side room failed).Along (Stays none) f :=
    along_takeOff hf fun _ => failed
  refine hremove.monad_bind ?_
  split
  · exact (along_change (Stays.of_same_connections (fun side => attendance_count _ _ _ side)
      fun _ => rfl)).monad_bind (along_pure _)
  · exact (along_pure _).monad_bind (along_pure _)

theorem along_send (hf : f.Placed) {targets : List ConnId}
    (h : ∀ id ∈ targets, id ∈ (f.attendance side).present room) (p : Payload) :
    (send side room targets p).Along (Stays none) f := by
  have hwrite := along_writeEach p fun id hid => ⟨side, room, h id hid⟩
  refine hwrite.monad_bind ?_
  exact (along_prune (hwrite.run Stays.steps hf).1 _).discard.monad_bind (along_pure _)

theorem along_broadcast (hf : f.Placed) (p : Payload) :
    (broadcast side room p).Along (Stays none) f :=
  (along_look Stays.steps _).monad_bind (along_send hf (fun _ h => h) p)

theorem along_unregister (side : Side) (room : RoomCode) (id : ConnId) (f : Floor σ) :
    (unregister side room id).Along (Stays none) f :=
  along_update (Stays.setAttendance (fun hd => hd.leave room id) fun _ _ hx =>
    (Attendance.present_leave_sublist ..).subset hx)

theorem stays_enter (side : Side) (room : RoomCode) {id : ConnId} (hx : ¬ f.attends id) (ho : f.isClosed id = false) :
    Stays (some id) f (enter side room id f) := by
  intro hf
  have hmem : ∀ {on code x}, x ∈ ((enter side room id f).attendance on).present code →
      x ∈ (f.attendance on).present code ∨ (on = side ∧ code = room ∧ x = id) := by
    intro on code x h
    refine ((OnSide.enter side (hf.tidy side) room id).mem_present h).imp_right ?_
    rintro ⟨hon, e⟩
    obtain ⟨e, e'⟩ := Prod.mk.inj (Option.some.inj e)
    exact ⟨hon, e.symm, e'.symm⟩
  have hout : ∀ {on code}, id ∉ (f.attendance on).present code := fun h => hx ⟨_, _, h⟩
  have hclosed : ∀ x, (enter side room id f).isClosed x = f.isClosed x := fun x =>
    isClosed_congr (connection?_setAttendance ..)
  refine ⟨⟨KeepsTidy.setAttendance (fun hd => hd.enter room id) hf.tidy, fun h h' => ?_,
    fun {x} h => ?_⟩, fun x hne => ⟨fun hxs h => ?_, fun _ => ?_⟩⟩
  · obtain hold | ⟨hon, hcode, hx⟩ := hmem h
    · obtain hold' | ⟨-, -, hx⟩ := hmem h'
      · exact hf.single hold hold'
      · exact absurd (hx ▸ hold) hout
    · obtain hold' | ⟨hon', hcode', -⟩ := hmem h'
      · exact absurd (hx ▸ hold') hout
      · exact ⟨hon.trans hon'.symm, hcode.trans hcode'.symm⟩
  · rw [hclosed]
    obtain ⟨on, code, h⟩ := h
    obtain h | ⟨-, -, rfl⟩ := hmem h
    · exact hf.opened ⟨on, code, h⟩
    · exact ho
  · obtain ⟨on, code, h⟩ := h
    obtain h | ⟨-, -, rfl⟩ := hmem h
    · exact hxs ⟨on, code, h⟩
    · exact hne rfl
  · exact congrArg _ (frames_congr (connection?_setAttendance ..))

end Delivery

open Floor

section

variable {handed : Option ConnId} {f : Floor σ}

theorem Script.Along.bind_placed {s : Script σ α} {β : Type} {k : α → Script σ β}
    (h : s.Along (Stays handed) f) (hf : f.Placed)
    (hk : ∀ a g, g.Placed → (k a).Along (Stays handed) g) : (s >>= k).Along (Stays handed) f :=
  h.monad_bind (hk _ _ (h.run Stays.steps hf).1)

theorem Script.Along.handing {s : Script σ α} (h : s.Along (Stays none) f) :
    s.Along (Stays handed) f := h.imp fun _ _ => Stays.handing

end

/-! ### The lobby -/

namespace Lobby

variable {f : Floor σ}

theorem along_tellHost (hf : f.Placed) (code : RoomCode) (members : List Member) (F : Frame) :
    (tellHost code (f.lobby.present code) members).Along (Stays none) (shownTo code F f) := by
  have hd : f.lobby.Distinct := hf.tidy .lobby
  have hshown : (shownTo code F f).Placed :=
    ((Delivery.along_broadcast hf (.frame F)).run Stays.steps hf).1
  unfold tellHost
  split
  · exact along_pure _
  refine (along_look Stays.steps _).monad_bind (Delivery.along_send hshown (fun x hx => ?_) _)
  -- those of the first delivery who are still open have not been taken off
  simp only [run_look, openConnections, List.mem_filter, Bool.and_eq_true, Bool.not_eq_true'] at hx
  obtain ⟨hpresent, -, hopen⟩ := hx
  rw [isClosed_shownTo hd hpresent, Bool.not_eq_false'] at hopen
  exact (mem_present_shownTo hd).2 ⟨hpresent, fun h => Bool.false_ne_true (h.2.symm.trans hopen)⟩

variable [RoomStore σ]

theorem along_refresh (hf : f.Placed) (code : RoomCode) :
    (refresh code).Along (Stays none) f := by
  refine Along.discard ((along_look Stays.steps _).monad_bind ?_)
  rw [run_look]
  split
  · exact along_pure _
  refine (along_look Stays.steps _).monad_bind ?_
  rw [run_look]
  cases readRoom code f with
  | error e => exact along_pure _
  | ok answer =>
    obtain ⟨room, members⟩ := answer
    refine (Delivery.along_send hf (fun _ h => h) _).monad_bind ?_
    exact (along_tellHost hf code members _).monad_bind (along_pure _)

theorem stays_setReady (code : RoomCode) (user : UserId) (ready : Bool) (f : Floor σ) :
    Stays none f (setReady code user ready f).2 := by
  obtain ⟨s, e⟩ := setReady_eq code user ready f
  rw [e]
  exact Stays.of_same_connections (fun side => by cases side <;> rfl) fun _ => rfl

theorem along_leave (hf : f.Placed) (code : RoomCode) (id : ConnId) :
    (leave code id).Along (Stays none) f := by
  have hout : ∀ g : Floor σ, g.Placed → (do
      discard (Delivery.unregister .lobby code id)
      refresh code : Script σ Unit).Along (Stays none) g := fun g hg =>
    (Delivery.along_unregister .lobby code id g).discard.bind_placed hg fun _ _ hk =>
      along_refresh hk code
  refine (along_look Stays.steps _).bind_placed hf fun user g hg => ?_
  cases user with
  | none => exact hout g hg
  | some user =>
    exact (along_update (stays_setReady code user false g)).discard.bind_placed hg fun _ => hout

theorem along_receive (hf : f.Placed) (code : RoomCode) (user : UserId) (raw : String) :
    (receive code user raw).Along (Stays none) f := by
  unfold receive
  split
  · exact along_pure _
  · refine (along_update (stays_setReady code user _ f)).bind_placed hf fun r g hg => ?_
    cases r with
    | error e => exact along_pure _
    | ok _ => exact (along_refresh hg code).monad_bind (along_pure _)

end Lobby

/-! ### The table -/

namespace Tableside

variable {f : Floor σ}

theorem along_receive (hf : f.Placed) (code : RoomCode) (user : UserId) (raw : String) :
    (receive code user raw).Along (Stays none) f := by
  unfold receive
  split
  · exact along_pure _
  · rename_i c _
    have hbet : Stays none f (placeBet code user c f).2 := by
      obtain ⟨tables, e⟩ := placeBet_eq code user c f
      rw [e]
      exact Stays.of_same_connections (fun side => by cases side <;> rfl) fun _ => rfl
    refine (along_update hbet).bind_placed hf fun r g hg => ?_
    obtain ⟨outcome, bets⟩ := r
    cases bets with
    | none => exact (along_pure _).monad_bind (along_pure _)
    | some bets => exact (Delivery.along_broadcast hg _).discard.monad_bind (along_pure _)

theorem along_closeRoom (hf : f.Placed) (code : RoomCode) :
    (closeRoom code).Along (Stays none) f := by
  have hdrop : (Delivery.dropRoom .table code).Along (Stays none) f :=
    Delivery.along_takeOff hf fun f => f.table.present code
  exact hdrop.discard.bind_placed hf fun _ g _ => along_change <|
    Stays.of_same_connections (fun side => by cases side <;> rfl) fun _ => rfl

def greet (code : RoomCode) (id : ConnId) (order bets : Frame) :
    Script σ (Except RoomError Unit) := do
  match ← Script.writeTo id (.frame order) with
  | .error e =>
    discard (Delivery.unregister .table code id)
    Script.closeOne id
    return .error (.transport e)
  | .ok _ =>
    discard (showBets code bets)
    return .ok ()

theorem letIn_eq (code : RoomCode) (id : ConnId) (members : List Member) :
    (letIn code id members : Script σ (Except RoomError Unit)) =
      (do
        let shown ← Script.update (seatMembers code members)
        Script.change (Delivery.enter .table code id)
        greet code id shown.1 shown.2) := rfl

theorem along_greet (hf : f.Placed) {code : RoomCode} {id : ConnId}
    (hid : id ∈ f.table.present code) (order bets : Frame) :
    (greet code id order bets).Along (Stays none) f := by
  have hwrite : (writeTo id (.frame order)).Along (Stays none) f :=
    along_writeTo (Stays.write (.inl ⟨.table, code, hid⟩))
  have hg := (hwrite.run Stays.steps hf).1
  refine hwrite.monad_bind ?_
  rw [run_writeTo] at hg ⊢
  cases (f.write id (.frame order)).1 with
  | ok _ => exact (Delivery.along_broadcast hg _).discard.monad_bind (along_pure _)
  | error e =>
    have hmem : id ∈ ((f.write id (.frame order)).2.attendance .table).present code := by
      rw [attendance_write]
      exact hid
    refine (Delivery.along_unregister .table code id _).discard.monad_bind ?_
    refine (along_closeOne (Stays.close ?_)).monad_bind (along_pure _)
    rw [run_discard]
    refine hg.not_attends hmem (fun on room h => ?_) fun h => ?_
    · exact ((OnSide.unregister .table (hg.tidy .table) code id).mem_present h).resolve_right fun h =>
        nomatch h.2
    · rw [Delivery.attendance_unregister, Attendance.mem_present_leave (hg.tidy .table)] at h
      exact h.2 ⟨rfl, rfl⟩

end Tableside

/-! ### Acts -/

def Act.handed? (a : Act σ) : Option ConnId := a.hands?.map fun h => h.2.2

namespace Floor

/-- The act may happen here: it hands over an open connection that attends nothing, and its client
closes no connection that attends. -/
structure Fit (f : Floor σ) (a : Act σ) : Prop where
  placed : f.Placed
  handed : ∀ id, a.handed? = some id → ¬ f.attends id ∧ f.isClosed id = false
  closes : ∀ id, a = .client (.closes id) → ¬ f.attends id

variable {f : Floor σ}

theorem along_client (a : ClientAct) (hc : ∀ id, a = .closes id → ¬ f.attends id) :
    a.script.Along (Stays none) f := by
  cases a with
  | opens id user sink =>
    refine along_change (Stays.of_same (fun side => ?_) (fun x _ ho => ?_) fun x _ => ?_)
    · exact (ClientAct.same_attendance side).connect f id user sink
    · exact isClosed_connect_of_open ho id user sink
    · exact congrArg _ (frames_connect f id x user sink)
  | turns id sink =>
    refine along_change (Stays.of_same (fun side => ?_) (fun x _ ho => ?_) fun x _ => ?_)
    · exact (ClientAct.same_attendance side).turn f id sink
    · exact (isClosed_turn f id x sink).trans ho
    · exact congrArg _ (frames_turn f id x sink)
  | closes id => exact along_closeOne (Stays.close (hc id rfl))
  | pings id data =>
    exact (along_writeTo (Stays.write (.inr fun F hF => by cases hF))).discard
  | ticks id remaining =>
    exact (along_writeTo (Stays.write (.inr fun F hF => by cases hF; rfl))).discard

/-! ### Handing a connection over -/

theorem along_entered [RoomStore σ] (hf : f.Placed) {id : ConnId} (hx : ¬ f.attends id)
    (ho : f.isClosed id = false) (code : RoomCode) :
    Stays (some id) f (Delivery.enter .lobby code id f) ∧
      (Lobby.refresh code).Along (Stays none) (Delivery.enter .lobby code id f) :=
  have h := Delivery.stays_enter .lobby code hx ho
  ⟨h, Lobby.along_refresh (h hf).1 code⟩

/-- A connection that is handed to a table comes in once everyone is seated. -/
theorem along_admitted (hf : f.Placed) {id : ConnId} (hx : ¬ f.attends id)
    (ho : f.isClosed id = false) (code : RoomCode) (members : List Member) (order bets : Frame) :
    Stays none f (Tableside.seatMembers code members f).2 ∧
      ¬ (Tableside.seatMembers code members f).2.attends id ∧
      Stays (some id) (Tableside.seatMembers code members f).2
        (Delivery.enter .table code id (Tableside.seatMembers code members f).2) ∧
      (Tableside.greet code id order bets).Along (Stays none)
        (Delivery.enter .table code id (Tableside.seatMembers code members f).2) := by
  obtain ⟨tables, entropy, e⟩ := Tableside.seatMembers_eq code members f
  have hsame : ∀ side, (Tableside.seatMembers code members f).2.attendance side =
      f.attendance side := fun side => by
    rw [e]
    cases side <;> rfl
  have hconn : ∀ x, (Tableside.seatMembers code members f).2.connection? x = f.connection? x :=
    fun x => by
      rw [e]
      rfl
  have hseat : Stays none f (Tableside.seatMembers code members f).2 :=
    Stays.of_same_connections hsame hconn
  have hx' := (Delivery.attends_congr hsame id).not.2 hx
  have henter := Delivery.stays_enter .table code hx'
    ((isClosed_congr (hconn id)).trans ho)
  refine ⟨hseat, hx', henter, Tableside.along_greet (henter (hseat hf).1).1 ?_ order bets⟩
  exact Attendance.mem_present_enter.2 (.inr ⟨rfl, rfl⟩)

variable [RoomStore σ]

theorem Fit.along {a : Act σ} (h : Fit f a) : a.script.Along (Stays a.handed?) f := by
  have hf := h.placed
  cases a with
  | client a => exact (along_client a fun id e => h.closes id (e ▸ rfl)).handing
  | edits change =>
    exact along_change (Stays.of_same_connections (fun side => by cases side <;> rfl) fun _ => rfl)
  | lobby a =>
    cases a with
    | enters code id =>
      obtain ⟨hx, ho⟩ := h.handed id rfl
      obtain ⟨henter, hrest⟩ := along_entered hf hx ho code
      exact (along_change henter).monad_bind hrest.handing
    | leaves code id => exact (Lobby.along_leave hf code id).handing
    | receives code user raw => exact (Lobby.along_receive hf code user raw).discard.handing
    | roomChanged code => exact (Lobby.along_refresh hf code).handing
    | gameStarted code game =>
      have hshow : (Lobby.announceGame code game).Along (Stays none) f :=
        Delivery.along_broadcast hf _
      exact hshow.discard.handing
    | userLeft code user =>
      have hclose : (Lobby.closeUser code user).Along (Stays none) f :=
        Delivery.along_takeOff hf (Delivery.connectionsOf .lobby code user)
      exact (hclose.discard.bind_placed hf fun _ _ hg => Lobby.along_refresh hg code).handing
  | table a =>
    cases a with
    | joins code id =>
      obtain ⟨hx, ho⟩ := h.handed id rfl
      refine Along.discard ((along_look Stays.steps _).monad_bind ?_)
      rw [run_look]
      split
      · exact along_pure _
      · exact along_pure _
      · rename_i members _ _
        obtain ⟨hseat, -, henter, hrest⟩ := along_admitted hf hx ho code members
          (Tableside.seatMembers code members f).1.1 (Tableside.seatMembers code members f).1.2
        rw [Tableside.letIn_eq]
        refine (along_update hseat.handing).monad_bind ?_
        exact (along_change henter).monad_bind hrest.handing
    | receives code user raw => exact (Tableside.along_receive hf code user raw).discard.handing
    | leaves code id => exact (Delivery.along_unregister .table code id f).discard.handing
    | closes code => exact (Tableside.along_closeRoom hf code).handing
  | roomClosed code =>
    have hdrop : (Lobby.closeRoom code).Along (Stays none) f :=
      Delivery.along_takeOff hf fun f => f.lobby.present code
    exact (hdrop.discard.bind_placed hf fun _ _ hg => Tableside.along_closeRoom hg code).handing

end Floor

/-! ### Coming once and leaving once -/

namespace Floor

theorem Stays.kept {handed : Option ConnId} {f : Floor σ} {s : Script σ α}
    (h : s.Along (Stays handed) f) (hf : f.Placed) {x : ConnId} (hx : handed ≠ some x) :
    s.Along (Kept x) f :=
  have h' : s.Along (fun f g => f.Placed → g.Placed ∧ Kept x f g) f :=
    h.imp fun _ _ hs hp => (hs hp).imp_right fun hk => hk x hx
  h'.given hf

/-- In the course of these floors the connection first attends nothing and then, once it has ceased
to attend, stays outside. -/
def Passing (x : ConnId) (l : List (Floor σ)) : Prop :=
  ∃ before after, l = before ++ after ∧ (∀ g ∈ before, ¬ g.attends x) ∧ after.IsChain (Kept x)

namespace Passing

variable {x : ConnId} {l : List (Floor σ)} {f g k : Floor σ}

theorem of_chain (h : l.IsChain (Kept x)) : Passing x l := ⟨[], l, rfl, nofun, h⟩

theorem prepend {l₀ : List (Floor σ)} (h₀ : ∀ g ∈ l₀, ¬ g.attends x) (h : Passing x l) :
    Passing x (l₀ ++ l) := by
  obtain ⟨before, after, rfl, hb, ha⟩ := h
  exact ⟨l₀ ++ before, after, (List.append_assoc ..).symm, List.forall_mem_append.2 ⟨h₀, hb⟩, ha⟩

theorem tail (h : Passing x (g :: l)) : Passing x l := by
  obtain ⟨before, after, e, hb, ha⟩ := h
  cases before with
  | nil =>
    rw [List.nil_append] at e
    exact of_chain (e.symm ▸ ha : (g :: l).IsChain (Kept x)).tail
  | cons k before =>
    obtain ⟨rfl, rfl⟩ := List.cons.inj e
    exact ⟨before, after, rfl, (List.forall_mem_cons.1 hb).2, ha⟩

/-- Whoever has left stays outside and receives no more. -/
theorem left (h : Passing x l) (hs : [f, g, k].Sublist l) (hf : f.attends x) (hg : ¬ g.attends x) :
    ¬ k.attends x ∧ k.roomFrames x = g.roomFrames x := by
  obtain ⟨before, after, rfl, hb, ha⟩ := h
  obtain ⟨l₁, l₂, e, h₁, h₂⟩ := List.sublist_append_iff.1 hs
  cases l₁ with
  | nil =>
    rw [List.nil_append] at e
    have : Trans (Kept (σ := σ) x) (Kept x) (Kept x) := ⟨(Kept.steps x).trans⟩
    have hp := ha.pairwise.sublist (e.symm ▸ h₂ : [f, g, k].Sublist after)
    have hk : Kept x g k := by simp only [List.pairwise_cons] at hp; exact hp.2.1 k (by simp)
    exact ⟨hk.away hg, hk.quiet hg⟩
  | cons f' l₁ =>
    obtain ⟨rfl, -⟩ := List.cons.inj e
    exact absurd hf (hb f (h₁.subset List.mem_cons_self))

end Passing

variable [RoomStore σ] {f : Floor σ} {x : ConnId} {rest : List (Floor σ)}

theorem Fit.passing {a : Act σ} (h : Fit f a) (hx : a.handed? = some x)
    (hrest : (f.perform a :: rest).IsChain (Kept x)) : Passing x (a.script.passes f ++ rest) := by
  have hf := h.placed
  obtain ⟨hout, ho⟩ := h.handed x hx
  have hnone : (none : Option ConnId) ≠ some x := nofun
  cases a with
  | client a => cases hx
  | edits change => cases hx
  | roomClosed code => cases hx
  | lobby a =>
    cases a with
    | enters code id =>
      cases hx
      obtain ⟨henter, hshow⟩ := along_entered hf hout ho code
      exact .of_chain ((Stays.kept hshow (henter hf).1 hnone).isChain hrest)
    | _ => cases hx
  | table a =>
    cases a with
    | joins code id =>
      cases hx
      rw [perform, Act.script, TableAct.script, run_discard, Tableside.join, run_monad_bind,
        run_look] at hrest
      rw [Act.script, TableAct.script, passes_discard, Tableside.join, passes_monad_bind, run_look]
      have hlook : ∀ g ∈ [f], ¬ g.attends id := List.forall_mem_singleton.2 hout
      split at hrest <;> simp only
      · exact .prepend hlook (.of_chain hrest.tail)
      · exact .prepend hlook (.of_chain hrest.tail)
      · rename_i members _ _
        obtain ⟨hseat, hx, henter, hgreet⟩ := along_admitted hf hout ho code members
          (Tableside.seatMembers code members f).1.1 (Tableside.seatMembers code members f).1.2
        have hplaced := (henter (hseat hf).1).1
        -- nobody has been let in before everyone is seated
        have hbefore : ∀ g ∈ [f, (Tableside.seatMembers code members f).2], ¬ g.attends id :=
          List.forall_mem_cons.2 ⟨hout, List.forall_mem_singleton.2 hx⟩
        have hpassing := Passing.prepend hbefore <|
          .of_chain ((Stays.kept hgreet hplaced hnone).isChain hrest)
        exact hpassing
    | _ => cases hx

end Floor

end Cardroom
