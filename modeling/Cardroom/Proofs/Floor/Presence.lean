import Cardroom.Proofs.Floor.Moments
import Cardroom.Proofs.Floor.Showing
import Cardroom.Proofs.Floor.Tableside

namespace Cardroom

variable {σ α : Type}

open Script

namespace Floor

/-- The connection attends the lobby or the table of some room. -/
def attends (f : Floor σ) (x : ConnId) : Prop :=
  ∃ side code, x ∈ (f.attendance side).present code

/-- On one side nobody has come in but the one who was handed over, and nobody else's connection has
changed than of those who attended there. -/
structure OnSide (side : Side) (handed : Option (RoomCode × ConnId)) (f g : Floor σ) : Prop where
  distinct : (g.attendance side).Distinct
  present : ∀ code x, x ∈ (g.attendance side).present code →
    x ∈ (f.attendance side).present code ∨ handed = some (code, x)
  others : ∀ other, other ≠ side → g.attendance other = f.attendance other
  absent : ∀ x, (∀ code, x ∉ (f.attendance side).present code ∧ handed ≠ some (code, x)) →
    g.connection? x = f.connection? x

namespace OnSide

variable {side : Side} {handed : Option (RoomCode × ConnId)} {f g k : Floor σ}

theorem of_same (hd : (f.attendance side).Distinct)
    (ha : ∀ side, g.attendance side = f.attendance side)
    (hc : ∀ x, g.connection? x = f.connection? x) : OnSide side handed f g where
  distinct := by rwa [ha]
  present code x hx := .inl (by rwa [ha] at hx)
  others other _ := ha other
  absent x _ := hc x

theorem refl (hd : (f.attendance side).Distinct) : OnSide side handed f f :=
  of_same hd (fun _ => rfl) fun _ => rfl

theorem trans (h : OnSide side handed f g) (h' : OnSide side none g k) : OnSide side handed f k where
  distinct := h'.distinct
  present code x hx := h.present code x ((h'.present code x hx).resolve_right nofun)
  others other hne := (h'.others other hne).trans (h.others other hne)
  absent x hx := by
    refine (h'.absent x fun code => ⟨fun hmem => ?_, nofun⟩).trans (h.absent x hx)
    exact (h.present code x hmem).elim (hx code).1 (hx code).2

theorem mem_present (h : OnSide side handed f g) {on : Side} {code : RoomCode} {x : ConnId}
    (hx : x ∈ (g.attendance on).present code) :
    x ∈ (f.attendance on).present code ∨ on = side ∧ handed = some (code, x) := by
  by_cases hon : on = side
  · subst hon
    exact (h.present code x hx).imp_right fun e => ⟨rfl, e⟩
  · exact .inl (h.others on hon ▸ hx)

theorem of_only {K : Frame → Prop} {s : Script σ α} (h : Delivery.Only side K s)
    (hd : (f.attendance side).Distinct)
    (ha : ∀ x, (∀ code, x ∉ (f.attendance side).present code) →
      (s.run f).2.connection? x = f.connection? x) : OnSide side none f (s.run f).2 := by
  have hquiet : Quiet side (fun _ => false) f (s.run f).2 := h.quiet (fun _ _ => rfl) f
  refine ⟨fun code => (hd code).sublist (hquiet.shrink code), fun code x hx => ?_,
    fun other hne => ?_, fun x hx => ha x fun code => (hx code).1⟩
  · exact .inl ((hquiet.shrink code).subset hx)
  · have hsame : Same (·.attendance other) f (s.run f).2 :=
      h.same (fun _ _ => by cases other <;> rfl)
        (fun f a => (attendance_setAttendance f side other a).trans (if_neg hne))
        (fun _ _ => by cases other <;> rfl) f
    exact hsame

variable (side) (hd : (f.attendance side).Distinct)
include hd

theorem broadcast (code : RoomCode) (F : Frame) :
    OnSide side none f ((Delivery.broadcast side code (.frame F)).run f).2 := by
  have honly : Delivery.Only (σ := σ) side (fun _ => True)
      (Delivery.broadcast side code (.frame F)) := fun _ h => Delivery.within_broadcast h trivial code
  refine of_only honly hd fun x hx => ?_
  rw [Delivery.connection?_broadcast side code hd, if_neg (hx code)]

theorem closeUser (code : RoomCode) (user : UserId) :
    OnSide side none f ((Delivery.closeUser side code user).run f).2 := by
  refine of_only (Delivery.only_closeUser side code user) hd fun x hx => ?_
  rw [Delivery.connection?_closeUser side code user hd, if_neg fun h => hx code h.1]

theorem dropRoom (code : RoomCode) :
    OnSide side none f ((Delivery.dropRoom side code).run f).2 := by
  refine of_only (Delivery.only_dropRoom side code) hd fun x hx => ?_
  rw [Delivery.connection?_dropRoom side code hd, if_neg (hx code)]

theorem unregister (code : RoomCode) (id : ConnId) :
    OnSide side none f ((Delivery.unregister side code id).run f).2 := by
  have honly : Delivery.Only (σ := σ) side Delivery.silent (Delivery.unregister side code id) :=
    fun _ h => Delivery.within_unregister h code id
  exact of_only honly hd fun x _ => Delivery.connection?_unregister side code id f x

theorem enter (code : RoomCode) (id : ConnId) :
    OnSide side (some (code, id)) f (Delivery.enter side code id f) := by
  refine ⟨?_, fun room x hx => ?_, fun other hne => ?_, fun x _ => ?_⟩
  · rw [Delivery.enter, attendance_setAttendance, if_pos rfl]
    exact hd.enter code id
  · rw [Delivery.enter, attendance_setAttendance, if_pos rfl, Attendance.mem_present_enter] at hx
    exact hx.imp_right fun h => by rw [h.1, h.2]
  · exact (attendance_setAttendance ..).trans (if_neg hne)
  · exact connection?_setAttendance ..

end OnSide

end Floor

open Floor

/-! ### The lobby's scripts -/

namespace Lobby

variable [RoomStore σ] {f : Floor σ}

theorem onSide_setReady (hd : f.lobby.Distinct) (code : RoomCode) (user : UserId) (ready : Bool) :
    OnSide .lobby none f (setReady code user ready f).2 := by
  obtain ⟨s, e⟩ := setReady_eq code user ready f
  rw [e]
  exact .of_same hd (fun side => by cases side <;> rfl) fun _ => rfl

theorem onSide_refresh (hd : f.lobby.Distinct) (code : RoomCode) :
    OnSide .lobby none f ((refresh code).run f).2 := by
  have honly : Delivery.Only (σ := σ) .lobby (fun F => F.side? = some .lobby) (refresh code) :=
    fun _ h => within_refresh h code
  refine OnSide.of_only honly hd fun x hx => ?_
  rw [refresh, run_discard]
  obtain ⟨room, members, -, e⟩ | ⟨_, -, e⟩ := run_showRoom code hd
  · rw [e]
    exact connection?_told_of_not_mem members hd (hx code)
  · rw [e]

theorem onSide_leave (hd : f.lobby.Distinct) (code : RoomCode) (id : ConnId) :
    OnSide .lobby none f ((leave code id).run f).2 := by
  have hout : ∀ {g : Floor σ}, g.lobby.Distinct → OnSide .lobby none g
      ((do discard (Delivery.unregister .lobby code id); refresh code : Script σ Unit).run g).2 := by
    intro g hg
    rw [run_monad_bind, run_discard]
    have h := OnSide.unregister .lobby hg code id
    exact h.trans (onSide_refresh h.distinct code)
  rw [leave, run_monad_bind, run_look]
  cases f.user? id with
  | none => exact hout hd
  | some user =>
    have h := onSide_setReady hd code user false
    simp only
    rw [run_monad_bind, run_discard, run_update]
    exact h.trans (hout h.distinct)

theorem onSide_receive (hd : f.lobby.Distinct) (code : RoomCode) (user : UserId) (raw : String) :
    OnSide .lobby none f ((receive code user raw).run f).2 := by
  unfold receive
  split
  · exact .refl hd
  · rename_i update _
    have h := onSide_setReady hd code user update.isReady
    rw [run_monad_bind, run_update]
    split
    · exact h
    · rw [run_monad_bind]
      exact h.trans (onSide_refresh h.distinct code)

end Lobby

namespace LobbyAct

def hands? : LobbyAct → Option (RoomCode × ConnId)
  | enters code id => some (code, id)
  | _ => none

theorem onSide_script [RoomStore σ] {f : Floor σ} (hd : f.lobby.Distinct) (a : LobbyAct) :
    OnSide .lobby a.hands? f (a.script.run f).2 := by
  cases a with
  | enters code id =>
    have h := OnSide.enter .lobby hd code id
    exact h.trans (Lobby.onSide_refresh h.distinct code)
  | leaves code id => exact Lobby.onSide_leave hd code id
  | receives code user raw =>
    rw [script, run_discard]
    exact Lobby.onSide_receive hd code user raw
  | roomChanged code => exact Lobby.onSide_refresh hd code
  | gameStarted code game =>
    rw [script, Door.gameStarted, run_discard]
    exact OnSide.broadcast .lobby hd code (Lobby.startFrame code game)
  | userLeft code user =>
    have h := OnSide.closeUser .lobby hd code user
    rw [script, Door.userLeft, run_monad_bind, run_discard]
    exact h.trans (Lobby.onSide_refresh h.distinct code)

end LobbyAct

/-! ### The table's scripts -/

namespace Tableside

variable {f : Floor σ}

theorem onSide_closeRoom (hd : f.table.Distinct) (code : RoomCode) :
    OnSide .table none f ((closeRoom code).run f).2 := by
  have h := OnSide.dropRoom .table hd code
  rw [closeRoom, run_monad_bind, run_discard, run_change]
  exact h.trans (.of_same h.distinct (fun side => by cases side <;> rfl) fun _ => rfl)

theorem onSide_receive (hd : f.table.Distinct) (code : RoomCode) (user : UserId) (raw : String) :
    OnSide .table none f ((receive code user raw).run f).2 := by
  obtain e | ⟨t, c, -, e⟩ := receive_cases code user raw f
  · rw [e]
    exact .refl hd
  · rw [e]
    have h : OnSide .table none f (f.setTable (t.bet user c).2) :=
      .of_same hd (fun side => by cases side <;> rfl) fun _ => rfl
    exact h.trans (.broadcast .table h.distinct code _)

theorem onSide_letIn (hd : f.table.Distinct) (code : RoomCode) (id : ConnId)
    (members : List Member) :
    OnSide .table (some (code, id)) f ((letIn code id members).run f).2 := by
  have hordered : OnSide .table (some (code, id)) f (ordered code id members f) := by
    refine ⟨distinct_ordered hd code id members, fun room x hx => ?_, fun other hne => ?_,
      fun x hx => ?_⟩
    · exact (mem_present_ordered.1 hx).imp_right fun h => by rw [h.1, h.2]
    · cases other with
      | table => exact absurd rfl hne
      | lobby =>
        obtain ⟨tables, entropy, e⟩ := seatMembers_eq code members f
        rw [ordered, attendance_write, e]
        rfl
    · have hne : x ≠ id := fun e => (hx code).2 (by rw [e])
      rw [ordered, connection?_write, if_neg hne]
      exact connection?_entered f code id members x
  rw [run_letIn]
  split
  · exact hordered.trans (.broadcast .table hordered.distinct code _)
  · -- who cannot be shown the order goes at once, and only that connection is closed
    refine ⟨hordered.distinct.leave code id, fun room x hx => ?_, fun other hne => ?_, fun x hx => ?_⟩
    · exact hordered.present room x ((Attendance.present_leave_sublist ..).subset hx)
    · rw [attendance_close, attendance_setAttendance, if_neg hne]
      exact hordered.others other hne
    · have hne : x ≠ id := fun e => (hx code).2 (by rw [e])
      rw [connection?_close, if_neg hne, connection?_setAttendance]
      exact hordered.absent x hx

theorem onSide_join [RoomStore σ] (hd : f.table.Distinct) (code : RoomCode) (id : ConnId) :
    OnSide .table (some (code, id)) f ((join code id).run f).2 := by
  obtain ⟨e, -⟩ | ⟨members, -, -, e⟩ := join_cases code id f
  · rw [e]
    exact .refl hd
  · rw [e]
    exact onSide_letIn hd code id members

end Tableside

namespace TableAct

def hands? : TableAct → Option (RoomCode × ConnId)
  | joins code id => some (code, id)
  | _ => none

theorem onSide_script [RoomStore σ] {f : Floor σ} (hd : f.table.Distinct) (a : TableAct) :
    OnSide .table a.hands? f (a.script.run f).2 := by
  cases a with
  | joins code id =>
    rw [script, run_discard]
    exact Tableside.onSide_join hd code id
  | receives code user raw =>
    rw [script, run_discard]
    exact Tableside.onSide_receive hd code user raw
  | leaves code id =>
    rw [script, Tableside.leave, run_discard]
    exact OnSide.unregister .table hd code id
  | closes code => exact Tableside.onSide_closeRoom hd code

end TableAct

/-! ### Acts -/

def ClientAct.id : ClientAct → ConnId
  | opens id _ _ | turns id _ | closes id | pings id _ | ticks id _ => id

theorem ClientAct.connection?_script (a : ClientAct) {x : ConnId} (hx : x ≠ a.id) (f : Floor σ) :
    (a.script.run f).2.connection? x = f.connection? x := by
  cases a with
  | opens id user sink =>
    change (f.connect id user sink).connection? x = _
    unfold connect
    split
    · rfl
    · exact (connection?_setConnection ..).trans (if_neg hx)
  | turns id sink => exact (connection?_modifyConnection ..).trans (if_neg hx)
  | closes id => exact (connection?_close ..).trans (if_neg hx)
  | pings id data =>
    rw [script, run_discard]
    exact (connection?_write ..).trans (if_neg hx)
  | ticks id remaining =>
    rw [script, run_discard]
    exact (connection?_write ..).trans (if_neg hx)

namespace Floor

theorem frames_connect (f : Floor σ) (id x : ConnId) (user : UserId) (sink : Sink) :
    (f.connect id user sink).frames x = f.frames x := by
  unfold connect
  split
  · rfl
  · rename_i h
    rw [frames, openConnection, connection?_setConnection]
    split
    · rename_i hx
      rw [frames, hx, Option.not_isSome_iff_eq_none.1 h]
      rfl
    · rfl

theorem isClosed_connect_of_open {f : Floor σ} {x : ConnId} (h : f.isClosed x = false) (id : ConnId)
    (user : UserId) (sink : Sink) : (f.connect id user sink).isClosed x = false := by
  unfold connect
  split
  · exact h
  · rw [isClosed, openConnection, connection?_setConnection]
    split
    · rfl
    · exact h

theorem frames_turn (f : Floor σ) (id x : ConnId) (sink : Sink) :
    (f.turn id sink).frames x = f.frames x := by
  simp only [frames, turn, connection?_modifyConnection]
  split
  · cases f.connection? x <;> rfl
  · rfl

theorem isClosed_turn (f : Floor σ) (id x : ConnId) (sink : Sink) :
    (f.turn id sink).isClosed x = f.isClosed x := by
  simp only [isClosed, turn, connection?_modifyConnection]
  split
  · cases f.connection? x <;> rfl
  · rfl

end Floor

def Act.hands? : Act σ → Option (Side × RoomCode × ConnId)
  | lobby a => a.hands?.map fun h => (.lobby, h)
  | table a => a.hands?.map fun h => (.table, h)
  | _ => none

namespace Floor

variable {f : Floor σ}

theorem onSide_roomClosed (hf : f.Tidy) (code : RoomCode) :
    ∃ g, OnSide .lobby none f g ∧ OnSide .table none g ((Door.roomClosed code).run f).2 := by
  have hlobby := OnSide.dropRoom .lobby (hf .lobby) code
  have htable : ((Delivery.dropRoom .lobby code).run f).2.table.Distinct := by
    have h : ((Delivery.dropRoom .lobby code).run f).2.table = f.table :=
      hlobby.others .table nofun
    rw [h]
    exact hf .table
  refine ⟨_, hlobby, ?_⟩
  rw [Door.roomClosed, run_monad_bind, run_discard, Lobby.closeRoom]
  exact Tableside.onSide_closeRoom htable code

variable [RoomStore σ]

/-- Whoever attends after an act attended before or has been handed over by the act. -/
theorem mem_present_perform (hf : f.Tidy) (a : Act σ) {side : Side} {code : RoomCode} {x : ConnId}
    (hx : x ∈ ((f.perform a).attendance side).present code) :
    x ∈ (f.attendance side).present code ∨ a.hands? = some (side, code, x) := by
  cases a with
  | client a =>
    have h : (f.perform (.client a)).attendance side = f.attendance side :=
      (a.within (ClientAct.same_attendance side)).run (Same.steps _) f
    exact .inl (h ▸ hx)
  | edits change => exact .inl hx
  | lobby a =>
    refine ((a.onSide_script (hf .lobby)).mem_present hx).imp_right ?_
    rintro ⟨rfl, h⟩
    rw [Act.hands?, h]
    rfl
  | table a =>
    refine ((a.onSide_script (hf .table)).mem_present hx).imp_right ?_
    rintro ⟨rfl, h⟩
    rw [Act.hands?, h]
    rfl
  | roomClosed code =>
    obtain ⟨g, hlobby, htable⟩ := onSide_roomClosed hf code
    have hg := (htable.mem_present hx).resolve_right fun h => nomatch h.2
    exact .inl ((hlobby.mem_present hg).resolve_right fun h => nomatch h.2)

/-- Whoever attends nothing and is not acted on is left alone. -/
theorem connection?_perform (hf : f.Tidy) {a : Act σ} {x : ConnId} (hx : ¬ f.attends x)
    (ha : ∀ side code, a.hands? ≠ some (side, code, x)) (hc : ∀ c, a = .client c → x ≠ c.id) :
    (f.perform a).connection? x = f.connection? x := by
  have hx : ∀ side code, x ∉ (f.attendance side).present code := fun side code h =>
    hx ⟨side, code, h⟩
  cases a with
  | client a => exact a.connection?_script (hc a rfl) f
  | edits change => rfl
  | lobby a =>
    refine (a.onSide_script (hf .lobby)).absent x fun code => ⟨hx .lobby code, fun h => ?_⟩
    exact ha .lobby code (by rw [Act.hands?, h]; rfl)
  | table a =>
    refine (a.onSide_script (hf .table)).absent x fun code => ⟨hx .table code, fun h => ?_⟩
    exact ha .table code (by rw [Act.hands?, h]; rfl)
  | roomClosed code =>
    obtain ⟨g, hlobby, htable⟩ := onSide_roomClosed hf code
    have hg : ∀ code, x ∉ (g.attendance .table).present code := fun code => by
      rw [hlobby.others .table nofun]
      exact hx .table code
    exact (htable.absent x fun code => ⟨hg code, nofun⟩).trans
      (hlobby.absent x fun code => ⟨hx .lobby code, nofun⟩)

end Floor

/-! ### What is not heard -/

namespace Floor

def Silent (f g : Floor σ) : Prop := ∀ x, g.user? x = f.user? x ∧ g.frames x = f.frames x

namespace Silent

variable {f g : Floor σ}

theorem steps : Steps (Silent (σ := σ)) where
  refl _ _ := ⟨rfl, rfl⟩
  trans h h' x := ⟨(h' x).1.trans (h x).1, (h' x).2.trans (h x).2⟩

theorem of_same (h : ∀ x, g.connection? x = f.connection? x) : Silent f g :=
  fun x => ⟨user?_congr (h x), frames_congr (h x)⟩

theorem delivery (side : Side) : Delivery.Allowed (Silent (σ := σ)) side Delivery.silent where
  toSteps := steps
  write _ _ _ hF := hF.elim
  close f id x := ⟨user?_close f id x, frames_close f id x⟩
  shrink f a _ := of_same fun x => connection?_setAttendance f side a x
  count _ _ _ := of_same fun _ => rfl

theorem of_only {α : Type} {side : Side} {s : Script σ α}
    (h : Delivery.Only side Delivery.silent s) (f : Floor σ) : Silent f (s.run f).2 :=
  (h _ (delivery side)).run steps f

end Silent

end Floor

/-! ### Connections stay what they are -/

/-- A connection later on: it is the same user's, and if it was closed nothing has been done to it. -/
structure Connection.Onward (c d : Connection) : Prop where
  user : d.user = c.user
  closed : c.closed = true → d.closed = true ∧ d.attempts = c.attempts

namespace Connection.Onward

variable {c d e : Connection}

theorem refl (c : Connection) : c.Onward c := ⟨rfl, fun h => ⟨h, rfl⟩⟩

theorem trans (h : c.Onward d) (h' : d.Onward e) : c.Onward e where
  user := h'.user.trans h.user
  closed hc :=
    have hd := h.closed hc
    have he := h'.closed hd.1
    ⟨he.1, he.2.trans hd.2⟩

theorem write (c : Connection) (p : Payload) : c.Onward (c.write p).2 := by
  refine ⟨user_write c p, fun h => ?_⟩
  rw [Connection.write, if_pos h]
  exact ⟨h, rfl⟩

theorem close (c : Connection) : c.Onward c.close :=
  ⟨user_close c, fun h => by rw [close_of_closed h]; exact ⟨h, rfl⟩⟩

end Connection.Onward

namespace Floor

structure ByConnection (R : Floor σ → Floor σ → Prop) : Prop extends Steps R where
  same : ∀ {f g}, (∀ x, g.connection? x = f.connection? x) → R f g
  write : ∀ f id F, R f (f.write id (.frame F)).2
  close : ∀ f id, R f (f.close id)

namespace ByConnection

variable {R : Floor σ → Floor σ → Prop} (h : ByConnection R)
include h

theorem delivery (side : Side) (K : Frame → Prop) : Delivery.Allowed R side K where
  toSteps := h.toSteps
  write f id F _ := h.write f id F
  close := h.close
  shrink f a _ := h.same fun x => connection?_setAttendance f side a x
  count _ _ _ := h.same fun _ => rfl

theorem lobby [RoomStore σ] : Lobby.Allowed R where
  toAllowed := h.delivery .lobby _
  enter f _ _ := h.same fun x => connection?_setAttendance f .lobby _ x
  ready f code user ready := by
    obtain ⟨s, e⟩ := Lobby.setReady_eq code user ready f
    rw [e]
    exact h.same fun _ => rfl

theorem table : Tableside.Allowed R where
  toAllowed := h.delivery .table _
  enter f _ _ := h.same fun x => connection?_setAttendance f .table _ x
  seat f code members _ := by
    obtain ⟨tables, entropy, e⟩ := Tableside.seatMembers_eq code members f
    rw [e]
    exact h.same fun _ => rfl
  bet f code user c := by
    obtain ⟨tables, e⟩ := Tableside.placeBet_eq code user c f
    rw [e]
    exact h.same fun _ => rfl
  clear _ _ := h.same fun _ => rfl

theorem act [RoomStore σ] (hc : ∀ a : ClientAct, a.script.Within R) (a : Act σ) :
    a.script.Within R := by
  cases a with
  | client a => exact hc a
  | edits change => exact within_change fun f => h.same fun _ => rfl
  | lobby a => exact a.within h.lobby
  | table a => exact a.within h.table
  | roomClosed code =>
    exact (Delivery.within_dropRoom h.lobby.toAllowed code).discard.monad_bind fun _ =>
      Tableside.within_closeRoom h.table code

end ByConnection

def Onward (f g : Floor σ) : Prop :=
  ∀ x c, f.connection? x = some c → ∃ d, g.connection? x = some d ∧ c.Onward d

namespace Onward

variable {f g : Floor σ}

theorem steps : Steps (Onward (σ := σ)) where
  refl _ _ c hc := ⟨c, hc, .refl c⟩
  trans h h' x c hc := by
    obtain ⟨d, hd, hcd⟩ := h x c hc
    obtain ⟨e, he, hde⟩ := h' x d hd
    exact ⟨e, he, hcd.trans hde⟩

theorem of_same (h : ∀ x, g.connection? x = f.connection? x) : Onward f g :=
  fun x c hc => ⟨c, (h x).trans hc, .refl c⟩

theorem of_map {g : Floor σ} {id : ConnId} {u : Connection → Connection}
    (h : ∀ x, g.connection? x = if x = id then (f.connection? x).map u else f.connection? x)
    (hu : ∀ c, Connection.Onward c (u c)) : Onward f g := by
  intro x c hc
  rw [h, hc]
  split
  · exact ⟨u c, rfl, hu c⟩
  · exact ⟨c, rfl, .refl c⟩

theorem write (f : Floor σ) (id : ConnId) (p : Payload) : Onward f (f.write id p).2 :=
  of_map (connection?_write f id · p) fun c => .write c p

theorem close (f : Floor σ) (id : ConnId) : Onward f (f.close id) :=
  of_map (connection?_close f id) .close

theorem byConnection : ByConnection (Onward (σ := σ)) where
  toSteps := steps
  same := of_same
  write f id F := write f id (.frame F)
  close := close

theorem client : ClientAct.Allowed (Onward (σ := σ)) where
  toSteps := steps
  connect f id user sink := by
    unfold connect
    split
    · exact steps.refl f
    · rename_i h
      intro x c hc
      refine ⟨c, ?_, .refl c⟩
      rw [openConnection, connection?_setConnection, if_neg, hc]
      rintro rfl
      exact h (by rw [hc]; rfl)
  turn f id sink := of_map (connection?_modifyConnection f id · _) fun _ => ⟨rfl, fun h => ⟨h, rfl⟩⟩
  close := close
  write f id p _ := write f id p

theorem perform [RoomStore σ] (f : Floor σ) (a : Act σ) : Onward f (f.perform a) :=
  (byConnection.act (fun a => a.within client) a).run steps f

theorem user? (h : Onward f g) {x : ConnId} {user : UserId} (hx : f.user? x = some user) :
    g.user? x = some user := by
  obtain ⟨c, hc, rfl⟩ := Option.map_eq_some_iff.1 hx
  obtain ⟨d, hd, hcd⟩ := h x c hc
  rw [Floor.user?, hd, Option.map_some, hcd.user]

end Onward

end Floor

end Cardroom
