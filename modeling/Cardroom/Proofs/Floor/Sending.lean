import Cardroom.Proofs.Floor.Deliveries

namespace Cardroom

variable {σ : Type}

namespace Connection

variable {c : Connection}

theorem close_of_closed (h : c.closed = true) : c.close = c := if_pos h

@[simp] theorem closed_close (c : Connection) : c.close.closed = true := by
  by_cases h : c.closed = true
  · rwa [close_of_closed h]
  · rw [close, if_neg h]
    rfl

@[simp] theorem close_close (c : Connection) : c.close.close = c.close :=
  close_of_closed (closed_close c)

@[simp] theorem closed_write (c : Connection) (p : Payload) : (c.write p).2.closed = c.closed := by
  unfold write
  split <;> rfl

@[simp] theorem user_write (c : Connection) (p : Payload) : (c.write p).2.user = c.user := by
  unfold write
  split <;> rfl

@[simp] theorem user_close (c : Connection) : c.close.user = c.user := by
  unfold close
  split <;> rfl

@[simp] theorem frames_close (c : Connection) : c.close.frames = c.frames := by
  unfold close
  split
  · rfl
  · rw [frames_attempt]
    split
    · simp [Payload.frame?, markClosed, frames, received_eq]
    · rfl

theorem received_write_of_works (h : c.works = true) (p : Payload) :
    (c.write p).2.received = c.received ++ [p] := by
  obtain ⟨hopen, hok⟩ := Bool.and_eq_true_iff.1 h
  rw [write, if_neg (by simpa using hopen), received_attempt, if_pos hok]

theorem received_close (c : Connection) :
    c.close.received = c.received ++ if c.works then [.close] else [] := by
  by_cases hc : c.closed = true
  · simp [close_of_closed hc, works, hc]
  · have hworks : c.works = (c.sink.react.1.result c.timeout).isOk := by simp [works, hc]
    rw [close, if_neg hc, received_attempt, hworks]
    change (if (c.sink.react.1.result c.timeout).isOk then c.received ++ [.close] else c.received) = _
    split
    · rfl
    · exact (List.append_nil _).symm

end Connection

namespace Floor

def frames (f : Floor σ) (id : ConnId) : List Frame := (f.connection? id).elim [] Connection.frames

variable {f g : Floor σ} {id x : ConnId}

theorem frames_congr (h : g.connection? id = f.connection? id) : g.frames id = f.frames id := by
  rw [frames, h, frames]

theorem received_congr (h : g.connection? id = f.connection? id) :
    g.received id = f.received id := by
  rw [received, h, received]

theorem user?_congr (h : g.connection? id = f.connection? id) : g.user? id = f.user? id := by
  rw [user?, h, user?]

theorem isClosed_congr (h : g.connection? id = f.connection? id) :
    g.isClosed id = f.isClosed id := by
  rw [isClosed, h, isClosed]

theorem works_congr (h : g.connection? id = f.connection? id) : g.works id = f.works id := by
  rw [works, h, works]

@[simp] theorem connection?_setAttendance (f : Floor σ) (side : Side) (a : Attendance)
    (id : ConnId) : (f.setAttendance side a).connection? id = f.connection? id := by
  cases side <;> rfl

theorem lastFrame?_eq_frames (f : Floor σ) (kind : Frame → Bool) (id : ConnId) :
    f.lastFrame? kind id = ((f.frames id).filter kind).getLast? := by
  rw [lastFrame?, frames]
  cases f.connection? id <;> rfl

theorem frames_write (f : Floor σ) (id : ConnId) (p : Payload) (x : ConnId) :
    (f.write id p).2.frames x =
      if x = id ∧ f.works id then f.frames x ++ p.frame?.toList else f.frames x := by
  simp only [frames, connection?_write, works]
  by_cases hx : x = id
  · subst hx
    obtain hc | ⟨c, hc⟩ := Option.eq_none_or_eq_some (f.connection? x)
    · simp [hc]
    · simp [hc, Connection.frames_write c p]
  · simp [hx]

@[simp] theorem isClosed_write (f : Floor σ) (id : ConnId) (p : Payload) (x : ConnId) :
    (f.write id p).2.isClosed x = f.isClosed x := by
  simp only [isClosed, connection?_write]
  split
  · cases f.connection? x <;> simp
  · rfl

@[simp] theorem frames_close (f : Floor σ) (id x : ConnId) :
    (f.close id).frames x = f.frames x := by
  simp only [frames, connection?_close]
  split
  · cases f.connection? x <;> simp
  · rfl

theorem isClosed_close (f : Floor σ) (id x : ConnId) :
    (f.close id).isClosed x = if x = id then true else f.isClosed x := by
  simp only [isClosed, connection?_close]
  split
  · cases f.connection? x <;> simp
  · rfl

@[simp] theorem user?_close (f : Floor σ) (id x : ConnId) :
    (f.close id).user? x = f.user? x := by
  simp only [user?, connection?_close]
  split
  · cases f.connection? x <;> simp
  · rfl

theorem isClosed_of_close (h : g.connection? id = (f.connection? id).map Connection.close) :
    g.isClosed id = true := by
  rw [isClosed, h]
  cases f.connection? id <;> simp

theorem received_of_close (h : g.connection? id = (f.connection? id).map Connection.close) :
    g.received id = f.received id ++ if f.works id then [.close] else [] := by
  rw [received, h, received, works]
  cases f.connection? id with
  | none => rfl
  | some c => exact c.received_close

theorem isClosed_of_works (h : f.works id = true) : f.isClosed id = false := by
  unfold works at h
  unfold isClosed
  cases hc : f.connection? id with
  | none => simp [hc] at h
  | some c =>
    rw [hc] at h
    simp only [Option.any_some, Connection.works, Bool.and_eq_true, Bool.not_eq_true'] at h
    simp [h.1]

end Floor

namespace Delivery

open Floor Script

variable (side : Side) (room : RoomCode)

theorem failed_writeEach (p : Payload) {ids : List ConnId} (hn : ids.Nodup) (f : Floor σ) :
    ((writeEach p ids).run f).1 = ids.filter (fun id => !f.works id) := by
  induction ids generalizing f with
  | nil => rfl
  | cons id ids ih =>
    obtain ⟨hid, hn⟩ := List.nodup_cons.1 hn
    have hworks : ∀ x ∈ ids, (!(f.write id p).2.works x) = !f.works x := fun x hx =>
      congrArg _ (works_write_of_ne (ne_of_mem_of_not_mem hx hid) p)
    rw [writeEach_cons, ih hn, List.filter_cons, List.filter_congr hworks]
    cases f.works id <;> rfl

theorem connection?_writeEach (p : Payload) {ids : List ConnId} (hn : ids.Nodup) (f : Floor σ)
    (x : ConnId) :
    ((writeEach p ids).run f).2.connection? x =
      if x ∈ ids then (f.connection? x).map (fun c => (c.write p).2) else f.connection? x := by
  induction ids generalizing f with
  | nil => rfl
  | cons id ids ih =>
    obtain ⟨hid, hn⟩ := List.nodup_cons.1 hn
    rw [writeEach_cons, ih hn, connection?_write]
    by_cases hx : x = id
    · subst hx
      simp [hid]
    · simp [hx]

theorem connection?_closeEach (ids : List ConnId) (f : Floor σ) (x : ConnId) :
    ((closeEach ids).run f).2.connection? x =
      if x ∈ ids then (f.connection? x).map Connection.close else f.connection? x := by
  induction ids generalizing f with
  | nil => rfl
  | cons id ids ih =>
    rw [closeEach, run_monad_bind, run_closeOne, ih, connection?_close]
    by_cases hx : x = id
    · subst hx
      simp [Function.comp_def]
    · simp [hx]

theorem connection?_takeOff (ids : Floor σ → List ConnId) {f : Floor σ}
    (hd : (f.attendance side).Distinct) (x : ConnId) :
    ((takeOff side room ids).run f).2.connection? x =
      if x ∈ ids f ∧ x ∈ (f.attendance side).present room then
        (f.connection? x).map Connection.close
      else f.connection? x := by
  rw [takeOff, run_monad_bind, run_update, run_monad_bind, run_pure]
  refine (connection?_closeEach _ _ x).trans ?_
  simp only [withdraw, Attendance.mem_withdraw hd, connection?_setAttendance]

theorem connection?_prune (failed : List ConnId) {f : Floor σ}
    (hd : (f.attendance side).Distinct) (x : ConnId) :
    ((prune side room failed).run f).2.connection? x =
      if x ∈ failed ∧ x ∈ (f.attendance side).present room then
        (f.connection? x).map Connection.close
      else f.connection? x := by
  rw [prune, run_monad_bind, ← connection?_takeOff side room (fun _ => failed) hd]
  split <;> rfl

theorem connection?_closeUser (user : UserId) {f : Floor σ} (hd : (f.attendance side).Distinct)
    (x : ConnId) :
    ((closeUser side room user).run f).2.connection? x =
      if x ∈ (f.attendance side).present room ∧ f.user? x = some user then
        (f.connection? x).map Connection.close
      else f.connection? x := by
  refine (connection?_takeOff side room (connectionsOf side room user) hd x).trans ?_
  simp only [connectionsOf, List.mem_filter, decide_eq_true_eq]
  congr 1
  exact propext ⟨fun h => h.1, fun h => ⟨h, h.1⟩⟩

theorem connection?_dropRoom {f : Floor σ} (hd : (f.attendance side).Distinct) (x : ConnId) :
    ((dropRoom side room).run f).2.connection? x =
      if x ∈ (f.attendance side).present room then (f.connection? x).map Connection.close
      else f.connection? x := by
  refine (connection?_takeOff side room (fun f => (f.attendance side).present room) hd x).trans ?_
  simp only [and_self]

theorem connection?_unregister (id : ConnId) (f : Floor σ) (x : ConnId) :
    ((unregister side room id).run f).2.connection? x = f.connection? x := by
  rw [unregister, run_update, connection?_setAttendance]

theorem attendance_unregister (id : ConnId) (f : Floor σ) :
    ((unregister side room id).run f).2.attendance side = (f.attendance side).leave room id := by
  rw [unregister, run_update, attendance_setAttendance, if_pos rfl]

theorem run_send (targets : List ConnId) (p : Payload) (f : Floor σ) :
    (send side room targets p).run f =
      (targets.length - ((writeEach p targets).run f).1.length,
        ((prune side room ((writeEach p targets).run f).1).run ((writeEach p targets).run f).2).2) := by
  rw [send, run_monad_bind, run_monad_bind, run_discard, run_pure]

/-- As many deliveries are counted as there are connections that the write works on. -/
theorem fst_send {targets : List ConnId} (hn : targets.Nodup) (p : Payload) (f : Floor σ) :
    ((send side room targets p).run f).1 = targets.countP f.works := by
  rw [run_send, failed_writeEach p hn, ← List.countP_eq_length_filter,
    List.length_eq_countP_add_countP f.works]
  have h : targets.countP (fun id => !f.works id) = targets.countP (fun a => ¬ f.works a = true) :=
    List.countP_congr fun a _ => by simp
  rw [h]
  exact Nat.add_sub_cancel ..

variable {targets : List ConnId} {f : Floor σ}

theorem connection?_send (hd : (f.attendance side).Distinct) (hn : targets.Nodup)
    (hs : ∀ id ∈ targets, id ∈ (f.attendance side).present room) (p : Payload) (x : ConnId) :
    ((send side room targets p).run f).2.connection? x =
      if x ∈ targets then
        if f.works x then (f.connection? x).map (fun c => (c.write p).2)
        else (f.connection? x).map (fun c => (c.write p).2.close)
      else f.connection? x := by
  have hd' : (((writeEach p targets).run f).2.attendance side).Distinct := by
    rwa [attendance_writeEach]
  rw [run_send, connection?_prune side room _ hd', failed_writeEach p hn,
    connection?_writeEach p hn, attendance_writeEach]
  simp only [List.mem_filter]
  by_cases hx : x ∈ targets
  · cases hw : f.works x <;> simp [hx, hs x hx, Function.comp_def]
  · simp [hx]

theorem distinct_send (targets : List ConnId) (p : Payload) {f : Floor σ}
    (hd : (f.attendance side).Distinct) :
    (((send side room targets p).run f).2.attendance side).Distinct := by
  rw [run_send, attendance_prune, attendance_writeEach]
  exact hd.withdraw room _

theorem mem_present_send (hd : (f.attendance side).Distinct) (hn : targets.Nodup) (p : Payload)
    {code : RoomCode} {x : ConnId} :
    x ∈ (((send side room targets p).run f).2.attendance side).present code ↔
      x ∈ (f.attendance side).present code ∧
        ¬ (code = room ∧ x ∈ targets ∧ f.works x = false) := by
  rw [run_send, attendance_prune, attendance_writeEach, failed_writeEach p hn,
    Attendance.mem_present_withdraw hd, List.mem_filter, Bool.not_eq_true']

theorem frames_send (hd : (f.attendance side).Distinct) (hn : targets.Nodup)
    (hs : ∀ id ∈ targets, id ∈ (f.attendance side).present room) (F : Frame) (x : ConnId) :
    ((send side room targets (.frame F)).run f).2.frames x =
      if x ∈ targets ∧ f.works x then f.frames x ++ [F] else f.frames x := by
  have hframes : ∀ c : Connection, f.connection? x = some c →
      (c.write (.frame F)).2.frames = if f.works x then c.frames ++ [F] else c.frames := by
    intro c hc
    rw [Connection.frames_write, works, hc]
    rfl
  simp only [frames, connection?_send side room hd hn hs]
  by_cases hx : x ∈ targets
  · cases hc : f.connection? x with
    | none => simp [works, hc]
    | some c => cases hw : f.works x <;> simp [hx, hframes c hc, hw]
  · simp [hx]

theorem received_send_of_works (hd : (f.attendance side).Distinct) (hn : targets.Nodup)
    (hs : ∀ id ∈ targets, id ∈ (f.attendance side).present room) (p : Payload) {x : ConnId}
    (hx : x ∈ targets) (hw : f.works x = true) :
    ((send side room targets p).run f).2.received x = f.received x ++ [p] := by
  rw [received, connection?_send side room hd hn hs, if_pos hx, if_pos hw, received]
  rw [works] at hw
  cases hc : f.connection? x with
  | none => simp [hc] at hw
  | some c => exact Connection.received_write_of_works (by simpa [hc] using hw) p

theorem isClosed_send (hd : (f.attendance side).Distinct) (hn : targets.Nodup)
    (hs : ∀ id ∈ targets, id ∈ (f.attendance side).present room) (p : Payload) (x : ConnId) :
    ((send side room targets p).run f).2.isClosed x =
      if x ∈ targets ∧ f.works x = false then true else f.isClosed x := by
  simp only [isClosed, connection?_send side room hd hn hs]
  by_cases hx : x ∈ targets
  · cases hc : f.connection? x <;> cases hw : f.works x <;> simp [hx]
  · simp [hx]

theorem user?_send (hd : (f.attendance side).Distinct) (hn : targets.Nodup)
    (hs : ∀ id ∈ targets, id ∈ (f.attendance side).present room) (p : Payload) (x : ConnId) :
    ((send side room targets p).run f).2.user? x = f.user? x := by
  simp only [user?, connection?_send side room hd hn hs]
  by_cases hx : x ∈ targets
  · cases f.connection? x <;> cases f.works x <;> simp [hx]
  · simp [hx]

theorem run_broadcast (p : Payload) (f : Floor σ) :
    (broadcast side room p).run f =
      (send side room ((f.attendance side).present room) p).run f := rfl

section

variable (hd : (f.attendance side).Distinct)
include hd

theorem connection?_broadcast (p : Payload) (x : ConnId) :
    ((broadcast side room p).run f).2.connection? x =
      if x ∈ (f.attendance side).present room then
        if f.works x then (f.connection? x).map (fun c => (c.write p).2)
        else (f.connection? x).map (fun c => (c.write p).2.close)
      else f.connection? x :=
  connection?_send side room hd (hd room) (fun _ h => h) p x

theorem frames_broadcast (F : Frame) (x : ConnId) :
    ((broadcast side room (.frame F)).run f).2.frames x =
      if x ∈ (f.attendance side).present room ∧ f.works x then f.frames x ++ [F]
      else f.frames x :=
  frames_send side room hd (hd room) (fun _ h => h) F x

theorem isClosed_broadcast (p : Payload) (x : ConnId) :
    ((broadcast side room p).run f).2.isClosed x =
      if x ∈ (f.attendance side).present room ∧ f.works x = false then true else f.isClosed x :=
  isClosed_send side room hd (hd room) (fun _ h => h) p x

theorem user?_broadcast (p : Payload) (x : ConnId) :
    ((broadcast side room p).run f).2.user? x = f.user? x :=
  user?_send side room hd (hd room) (fun _ h => h) p x

theorem mem_present_broadcast (p : Payload) {code : RoomCode} {x : ConnId} :
    x ∈ (((broadcast side room p).run f).2.attendance side).present code ↔
      x ∈ (f.attendance side).present code ∧ ¬ (code = room ∧ f.works x = false) := by
  refine (mem_present_send side room hd (hd room) p).trans (and_congr_right fun hx => ?_)
  exact not_congr (and_congr_right fun h => ⟨fun h' => h'.2, fun h' => ⟨h ▸ hx, h'⟩⟩)

end

end Delivery

end Cardroom
