import Cardroom.Proofs.Floor.Deliveries

namespace Cardroom.Floor

variable {σ : Type}

/-- Only connections out of `ids` attend the side, and each attends one room. -/
structure Admitted (side : Side) (ids : List ConnId) (f : Floor σ) : Prop where
  distinct : (f.attendance side).Distinct
  known : ∀ code, ∀ id ∈ (f.attendance side).present code, id ∈ ids
  single : ∀ code other id, id ∈ (f.attendance side).present code →
    id ∈ (f.attendance side).present other → code = other

namespace Admitted

variable {side : Side} {ids : List ConnId} {f g : Floor σ}

theorem new (side : Side) (config : Config) (secret : String) (store : σ)
    (entropy : Random.Source) : Admitted side [] (Floor.new config secret store entropy) := by
  cases side <;>
    exact ⟨Attendance.distinct_empty, fun _ _ h => (nomatch h), fun _ _ _ h => (nomatch h)⟩

theorem shrink (h : Admitted side ids f)
    (hs : ∀ room, ((g.attendance side).present room).Sublist ((f.attendance side).present room)) :
    Admitted side ids g where
  distinct room := (h.distinct room).sublist (hs room)
  known code id hid := h.known code id ((hs code).subset hid)
  single code other id hid hid' :=
    h.single code other id ((hs code).subset hid) ((hs other).subset hid')

theorem append (h : Admitted side ids f) (more : List ConnId) : Admitted side (ids ++ more) f where
  distinct := h.distinct
  known code id hid := List.mem_append_left more (h.known code id hid)
  single := h.single

theorem attendance_enter (f : Floor σ) (side : Side) (code : RoomCode) (id : ConnId) :
    (Delivery.enter side code id f).attendance side = (f.attendance side).enter code id := by
  cases side <;> rfl

theorem enter (h : Admitted side ids f) (code : RoomCode) {id : ConnId} (hid : id ∉ ids) :
    Admitted side (ids ++ [id]) (Delivery.enter side code id f) := by
  have hnew : ∀ room, id ∉ (f.attendance side).present room :=
    fun room e => hid (h.known room id e)
  refine ⟨?_, ?_, ?_⟩
  · rw [attendance_enter]
    exact h.distinct.enter code id
  · intro room x hx
    rw [attendance_enter, Attendance.mem_present_enter] at hx
    rcases hx with hx | ⟨-, rfl⟩
    · exact List.mem_append_left _ (h.known room x hx)
    · simp
  · intro room other x hx hx'
    rw [attendance_enter, Attendance.mem_present_enter] at hx hx'
    rcases hx with hx | ⟨rfl, rfl⟩
    · rcases hx' with hx' | ⟨-, rfl⟩
      · exact h.single room other x hx hx'
      · exact absurd hx (hnew room)
    · rcases hx' with hx' | ⟨rfl, -⟩
      · exact absurd hx' (hnew other)
      · rfl

end Admitted

structure Settled (side : Side) (P : Floor σ → Prop) (f g : Floor σ) : Prop where
  shrink : ∀ room, ((g.attendance side).present room).Sublist ((f.attendance side).present room)
  holds : P g

namespace Settled

variable {side : Side} {P : Floor σ → Prop} {f g k : Floor σ}

theorem refl (h : P f) : Settled side P f f := ⟨fun _ => List.Sublist.refl _, h⟩

theorem of_shrink
    (hs : ∀ room, ((g.attendance side).present room).Sublist ((f.attendance side).present room))
    (h : Settled side P g k) : Settled side P f k :=
  ⟨fun room => (h.shrink room).trans (hs room), h.holds⟩

theorem trans (h : Settled side P f g) (h' : Settled side P g k) : Settled side P f k :=
  h'.of_shrink h.shrink

end Settled

end Cardroom.Floor
