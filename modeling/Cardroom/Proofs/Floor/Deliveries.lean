import Cardroom.Proofs.Floor.Within

namespace Cardroom

variable {σ α : Type}

namespace Floor

theorem attendance_setAttendance (f : Floor σ) (side other : Side) (a : Attendance) :
    (f.setAttendance side a).attendance other = if other = side then a else f.attendance other := by
  cases side <;> cases other <;> rfl

@[simp] theorem attendance_write (f : Floor σ) (id : ConnId) (p : Payload) (side : Side) :
    (f.write id p).2.attendance side = f.attendance side := by
  obtain ⟨c, e⟩ := write_eq f id p
  rw [e]
  cases side <;> rfl

@[simp] theorem attendance_close (f : Floor σ) (id : ConnId) (side : Side) :
    (f.close id).attendance side = f.attendance side := by
  cases side <;> rfl

@[simp] theorem attendance_count (f : Floor σ) (m : Metric) (n : Int) (side : Side) :
    (f.count m n).attendance side = f.attendance side := by
  cases side <;> rfl

theorem lastFrame?_congr {f g : Floor σ} (h : g.connections = f.connections)
    (kind : Frame → Bool) (id : ConnId) : g.lastFrame? kind id = f.lastFrame? kind id := by
  simp only [lastFrame?, connection?, h]

theorem connections_setAttendance (f : Floor σ) (side : Side) (a : Attendance) :
    (f.setAttendance side a).connections = f.connections := by
  cases side <;> rfl

def Same (view : Floor σ → α) (f g : Floor σ) : Prop := view g = view f

theorem Same.steps (view : Floor σ → α) : Script.Steps (Same view) where
  refl _ := rfl
  trans h k := k.trans h

structure Quiet (side : Side) (kind : Frame → Bool) (f g : Floor σ) : Prop where
  shrink : ∀ room, ((g.attendance side).present room).Sublist ((f.attendance side).present room)
  last : ∀ id, g.lastFrame? kind id = f.lastFrame? kind id

namespace Quiet

variable {side : Side} {kind : Frame → Bool} {f g : Floor σ}

theorem steps : Script.Steps (Quiet (σ := σ) side kind) where
  refl _ := ⟨fun _ => List.Sublist.refl _, fun _ => rfl⟩
  trans h k := ⟨fun room => (k.shrink room).trans (h.shrink room),
    fun id => (k.last id).trans (h.last id)⟩

theorem of_same (ha : g.attendance side = f.attendance side)
    (hl : ∀ id, g.lastFrame? kind id = f.lastFrame? kind id) : Quiet side kind f g :=
  ⟨fun _ => by rw [ha], hl⟩

theorem write (f : Floor σ) (id : ConnId) {p : Payload}
    (hp : ∀ F, p.frame? = some F → kind F = false) : Quiet side kind f (f.write id p).2 :=
  of_same (attendance_write ..) fun x => lastFrame?_write_of_other f id x hp

theorem close (f : Floor σ) (id : ConnId) : Quiet side kind f (f.close id) :=
  of_same (attendance_close ..) fun x => lastFrame?_close f id x kind

theorem setAttendance {f : Floor σ} {on : Side} {a : Attendance}
    (ha : ∀ room, (a.present room).Sublist ((f.attendance on).present room)) :
    Quiet side kind f (f.setAttendance on a) := by
  refine ⟨fun room => ?_, fun id => lastFrame?_congr (connections_setAttendance f on a) kind id⟩
  rw [attendance_setAttendance]
  split
  · rename_i h
    rw [h]
    exact ha room
  · exact List.Sublist.refl _

theorem delivery (on : Side) {K : Frame → Prop} (hK : ∀ F, K F → kind F = false) :
    Delivery.Allowed (Quiet (σ := σ) side kind) on K where
  toSteps := steps
  write f id F hF := write f id fun G hG => by
    cases hG
    exact hK F hF
  close f id := close f id
  shrink _ _ ha := setAttendance ha.sublist
  count _ _ _ := of_same (attendance_count ..) fun _ => rfl

end Quiet

/-- A frame has been shown in a room: those who still attend it have received it last of its kind,
and nobody else has received one. -/
structure Told (side : Side) (kind : Frame → Bool) (code : RoomCode) (F : Frame) (f g : Floor σ) :
    Prop where
  shrink : ∀ room, ((g.attendance side).present room).Sublist ((f.attendance side).present room)
  here : ∀ id ∈ (g.attendance side).present code, g.lastFrame? kind id = some F
  elsewhere : ∀ id ∉ (f.attendance side).present code, g.lastFrame? kind id = f.lastFrame? kind id

end Floor

namespace Delivery

open Floor Script

theorem same {view : Floor σ → α} {side : Side} (K : Frame → Prop)
    (hc : ∀ f c, view { f with connections := c } = view f)
    (ha : ∀ f a, view (f.setAttendance side a) = view f)
    (hm : ∀ f m, view { f with metrics := m } = view f) : Allowed (Same view) side K where
  toSteps := Same.steps view
  write f id F _ := by
    obtain ⟨c, e⟩ := write_eq f id (.frame F)
    rw [e]
    exact hc f c
  close f _ := hc f _
  shrink f a _ := ha f a
  count f _ _ := hm f _

def Only (side : Side) (K : Frame → Prop) (s : Script σ α) : Prop :=
  ∀ R : Floor σ → Floor σ → Prop, Allowed R side K → s.Within R

theorem Only.quiet {on side : Side} {K : Frame → Prop} {kind : Frame → Bool} {s : Script σ α}
    (h : Only on K s) (hK : ∀ F, K F → kind F = false) (f : Floor σ) :
    Quiet side kind f (s.run f).2 :=
  (h _ (Quiet.delivery on hK)).run Quiet.steps f

theorem Only.same {β : Type} {side : Side} {K : Frame → Prop} {s : Script σ α} (h : Only side K s)
    {view : Floor σ → β} (hc : ∀ f c, view { f with connections := c } = view f)
    (ha : ∀ f a, view (f.setAttendance side a) = view f)
    (hm : ∀ f m, view { f with metrics := m } = view f) (f : Floor σ) : Same view f (s.run f).2 :=
  (h _ (Delivery.same K hc ha hm)).run (Same.steps view) f

def silent : Frame → Prop := fun _ => False

theorem Only.quiet_of_silent {on side : Side} {kind : Frame → Bool} {s : Script σ α}
    (h : Only on silent s) (f : Floor σ) : Quiet side kind f (s.run f).2 :=
  h.quiet (fun _ hF => hF.elim) f

theorem only_dropRoom (side : Side) (room : RoomCode) :
    Only (σ := σ) side silent (dropRoom side room) := fun _ h => within_dropRoom h room

theorem only_closeUser (side : Side) (room : RoomCode) (user : UserId) :
    Only (σ := σ) side silent (closeUser side room user) := fun _ h => within_closeUser h room user

theorem only_prune (side : Side) (room : RoomCode) (failed : List ConnId) :
    Only (σ := σ) side silent (prune side room failed) := fun _ h => within_prune h room failed

section

variable {kind : Frame → Bool} {F : Frame}

theorem writeEach_cons (p : Payload) (id : ConnId) (ids : List ConnId) (f : Floor σ) :
    (writeEach p (id :: ids)).run f =
      (if f.works id then ((writeEach p ids).run (f.write id p).2).1
        else id :: ((writeEach p ids).run (f.write id p).2).1,
        ((writeEach p ids).run (f.write id p).2).2) := by
  rw [writeEach, run_monad_bind, run_writeTo, ← isOk_write f id p]
  cases (f.write id p).1 with
  | ok _ => rfl
  | error _ => exact run_monad_bind ..

/-- Those that fail are those that do not work, and all others have the frame. -/
theorem writeEach_spec (hF : kind F = true) {ids : List ConnId} (hn : ids.Nodup) (f : Floor σ) :
    ((writeEach (.frame F) ids).run f).1 = ids.filter (fun id => !f.works id) ∧
    (∀ id ∈ ids, f.works id = true →
      ((writeEach (.frame F) ids).run f).2.lastFrame? kind id = some F) ∧
    (∀ id ∉ ids,
      ((writeEach (.frame F) ids).run f).2.lastFrame? kind id = f.lastFrame? kind id) := by
  induction ids generalizing f with
  | nil => exact ⟨rfl, by simp, fun _ _ => rfl⟩
  | cons id ids ih =>
    obtain ⟨hid, hn⟩ := List.nodup_cons.1 hn
    obtain ⟨hfailed, hgot, hothers⟩ := ih hn (f.write id (.frame F)).2
    have hworks : ∀ x ∈ ids, (f.write id (.frame F)).2.works x = f.works x := fun x hx =>
      works_write_of_ne (ne_of_mem_of_not_mem hx hid) _
    rw [writeEach_cons, hfailed]
    refine ⟨?_, fun x hx hw => ?_, fun x hx => ?_⟩
    · rw [List.filter_cons, List.filter_congr fun x hx => congrArg _ (hworks x hx)]
      cases f.works id <;> rfl
    · rcases List.mem_cons.1 hx with rfl | hx
      · exact (hothers x hid).trans (lastFrame?_write_of_works hw hF)
      · exact hgot x hx ((hworks x hx).trans hw)
    · obtain ⟨hne, hx⟩ := not_or.1 (List.mem_cons.not.1 hx)
      exact (hothers x hx).trans (lastFrame?_write_of_ne f hne kind _)

end

theorem attendance_writeEach (side : Side) (p : Payload) (ids : List ConnId) (f : Floor σ) :
    ((writeEach p ids).run f).2.attendance side = f.attendance side := by
  induction ids generalizing f with
  | nil => rfl
  | cons id ids ih =>
    rw [writeEach_cons]
    exact (ih (f.write id p).2).trans (attendance_write f id p side)

theorem attendance_closeEach (side : Side) (ids : List ConnId) (f : Floor σ) :
    ((closeEach ids).run f).2.attendance side = f.attendance side := by
  induction ids generalizing f with
  | nil => rfl
  | cons id ids ih => exact (ih (f.close id)).trans (attendance_close f id side)

section

variable (side : Side) (room : RoomCode)

def takeOff (ids : Floor σ → List ConnId) : Script σ Nat := do
  let removed ← Script.update fun f => withdraw side room (ids f) f
  closeEach removed
  return removed.length

theorem attendance_takeOff (ids : Floor σ → List ConnId) (f : Floor σ) :
    ((takeOff side room ids).run f).2.attendance side =
      ((f.attendance side).withdraw room (ids f)).2 := by
  rw [takeOff, run_monad_bind, run_update, run_monad_bind, run_pure]
  refine (attendance_closeEach side _ _).trans ?_
  exact (attendance_setAttendance f side side _).trans (if_pos rfl)

theorem fst_takeOff (ids : Floor σ → List ConnId) (f : Floor σ) :
    ((takeOff side room ids).run f).1 =
      ((f.attendance side).withdraw room (ids f)).1.length := by
  rw [takeOff, run_monad_bind, run_update, run_monad_bind, run_pure]
  rfl

theorem fst_prune (failed : List ConnId) (f : Floor σ) :
    ((prune side room failed).run f).1 =
      ((f.attendance side).withdraw room failed).1.length := by
  rw [prune, run_monad_bind, ← fst_takeOff side room (fun _ => failed)]
  split
  · rw [run_monad_bind, run_change, run_pure]
    rfl
  · rfl

theorem attendance_prune (failed : List ConnId) (f : Floor σ) :
    ((prune side room failed).run f).2.attendance side =
      ((f.attendance side).withdraw room failed).2 := by
  rw [prune, run_monad_bind, ← attendance_takeOff side room (fun _ => failed)]
  split
  · exact attendance_count ..
  · rfl

variable {f : Floor σ} (hd : (f.attendance side).Distinct)
include hd

theorem mem_present_takeOff (ids : Floor σ → List ConnId) {code : RoomCode} {x : ConnId} :
    x ∈ (((takeOff side room ids).run f).2.attendance side).present code ↔
      x ∈ (f.attendance side).present code ∧ ¬ (code = room ∧ x ∈ ids f) := by
  rw [attendance_takeOff, Attendance.mem_present_withdraw hd]

theorem mem_present_closeUser (user : UserId) {code : RoomCode} {x : ConnId} :
    x ∈ (((closeUser side room user).run f).2.attendance side).present code ↔
      x ∈ (f.attendance side).present code ∧ ¬ (code = room ∧ f.user? x = some user) := by
  refine (mem_present_takeOff side room hd (connectionsOf side room user)).trans ?_
  rw [connectionsOf, List.mem_filter, decide_eq_true_eq]
  refine and_congr_right fun hx => not_congr (and_congr_right fun hc => ?_)
  exact and_iff_right (hc ▸ hx)

theorem mem_present_dropRoom {code : RoomCode} {x : ConnId} :
    x ∈ (((dropRoom side room).run f).2.attendance side).present code ↔
      x ∈ (f.attendance side).present code ∧ code ≠ room := by
  refine (mem_present_takeOff side room hd fun f => (f.attendance side).present room).trans ?_
  exact and_congr_right fun hx => not_congr ⟨And.left, fun h => ⟨h, h ▸ hx⟩⟩

end

/-- Everyone in a room is shown a frame. -/
theorem told_send {side : Side} {kind : Frame → Bool} {F : Frame} (hF : kind F = true) {f : Floor σ}
    (hd : (f.attendance side).Distinct) (code : RoomCode) :
    Told side kind code F f
      ((send side code ((f.attendance side).present code) (.frame F)).run f).2 := by
  obtain ⟨hfailed, hgot, hothers⟩ :=
    writeEach_spec hF (hd code) f
  have hquiet : ∀ failed (g : Floor σ), Quiet side kind g ((prune side code failed).run g).2 :=
    fun failed g => (only_prune side code failed).quiet_of_silent g
  rw [send, run_monad_bind, run_monad_bind, run_discard, run_pure, hfailed]
  have hatt := attendance_prune side code
    (((f.attendance side).present code).filter fun id => !f.works id)
    ((writeEach (.frame F) ((f.attendance side).present code)).run f).2
  rw [attendance_writeEach] at hatt
  refine ⟨fun room => ?_, fun id hid => ?_, fun id hid => ?_⟩
  · rw [hatt]
    exact Attendance.present_withdraw_sublist ..
  · rw [hatt, Attendance.mem_present_withdraw hd] at hid
    obtain ⟨hid, hno⟩ := hid
    refine ((hquiet _ _).last id).trans (hgot id hid ?_)
    simpa [hid] using hno
  · exact ((hquiet _ _).last id).trans (hothers id hid)

theorem told_broadcast {side : Side} {kind : Frame → Bool} {F : Frame} (hF : kind F = true)
    {f : Floor σ} (hd : (f.attendance side).Distinct) (code : RoomCode) :
    Told side kind code F f ((broadcast side code (.frame F)).run f).2 :=
  told_send hF hd code

end Delivery

namespace Lobby

open Floor

theorem setReady_eq [RoomStore σ] (code : RoomCode) (user : UserId) (ready : Bool) (f : Floor σ) :
    ∃ s, (setReady code user ready f).2 = { f with store := s } := by
  unfold setReady
  split
  · exact ⟨_, rfl⟩
  · exact ⟨f.store, rfl⟩

/-- The lobby's scripts change connections, who attends the lobbies, the counts and the store. -/
theorem same [RoomStore σ] {view : Floor σ → α}
    (hc : ∀ f c, view { f with connections := c } = view f)
    (ha : ∀ f a, view (f.setAttendance .lobby a) = view f)
    (hm : ∀ f m, view { f with metrics := m } = view f)
    (hs : ∀ f s, view { f with store := s } = view f) : Allowed (Same view) where
  toAllowed := Delivery.same _ hc ha hm
  enter f _ _ := ha f _
  ready f code user ready := by
    obtain ⟨s, e⟩ := setReady_eq code user ready f
    rw [e]
    exact hs f s

theorem quiet [RoomStore σ] {kind : Frame → Bool}
    (hkind : ∀ F, Frame.side? F = some .lobby → kind F = false) :
    Allowed (Quiet (σ := σ) .table kind) where
  toAllowed := Quiet.delivery .lobby hkind
  enter f _ _ := .of_same rfl fun id => lastFrame?_congr rfl kind id
  ready f code user ready := by
    obtain ⟨s, e⟩ := setReady_eq code user ready f
    rw [e]
    exact .of_same rfl fun id => lastFrame?_congr rfl kind id

end Lobby

namespace Tableside

open Floor

/-- The table's scripts change the connections, who attends the tables, the counts, the tables and
the entropy. -/
theorem same {view : Floor σ → α} (hc : ∀ f c, view { f with connections := c } = view f)
    (ha : ∀ f a, view (f.setAttendance .table a) = view f)
    (hm : ∀ f m, view { f with metrics := m } = view f)
    (ht : ∀ f t e, view { f with tables := t, entropy := e } = view f) : Allowed (Same view) where
  toAllowed := Delivery.same _ hc ha hm
  enter f _ _ := ha f _
  seat f code members _ := by
    obtain ⟨tables, entropy, e⟩ := seatMembers_eq code members f
    rw [e]
    exact ht f tables entropy
  bet f code user c := by
    obtain ⟨tables, e⟩ := placeBet_eq code user c f
    rw [e]
    exact ht f tables f.entropy
  clear f _ := ht f _ f.entropy

theorem quiet {kind : Frame → Bool} (hkind : ∀ F, Frame.side? F = some .table → kind F = false) :
    Allowed (Quiet (σ := σ) .lobby kind) where
  toAllowed := Quiet.delivery .table hkind
  enter f _ _ := .of_same rfl fun id => lastFrame?_congr rfl kind id
  seat f code members _ := by
    obtain ⟨tables, entropy, e⟩ := seatMembers_eq code members f
    rw [e]
    exact .of_same rfl fun id => lastFrame?_congr rfl kind id
  bet f code user c := by
    obtain ⟨tables, e⟩ := placeBet_eq code user c f
    rw [e]
    exact .of_same rfl fun id => lastFrame?_congr rfl kind id
  clear f _ := .of_same rfl fun id => lastFrame?_congr rfl kind id

end Tableside

end Cardroom
