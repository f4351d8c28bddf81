import Cardroom.Floor.Attendance
import Cardroom.Proofs.KeyMap
import Mathlib.Data.List.Nodup

namespace Cardroom.Attendance

variable {a : Attendance} {room other : RoomCode} {id : ConnId} {ids : List ConnId}

def Distinct (a : Attendance) : Prop := ∀ room, (a.present room).Nodup

@[simp] theorem present_empty (room : RoomCode) : empty.present room = [] := rfl

theorem distinct_empty : empty.Distinct := fun _ => List.nodup_nil

theorem has_iff : a.has room id = true ↔ id ∈ a.present room := by
  simp [has]

theorem present_put (a : Attendance) (room other : RoomCode) (ids : List ConnId) :
    (a.put room ids).present other = if other = room then ids else a.present other := by
  simp only [present, put]
  split
  · rename_i h
    rw [KeyMap.get?_erase]
    split
    · exact (List.isEmpty_iff.1 h).symm
    · rfl
  · rw [KeyMap.get?_insert]
    split <;> rfl

theorem present_enter (a : Attendance) (room other : RoomCode) (id : ConnId) :
    (a.enter room id).present other =
      if other = room ∧ id ∉ a.present room then a.present room ++ [id] else a.present other := by
  unfold enter
  by_cases h : id ∈ a.present room
  · rw [if_pos (has_iff.2 h), if_neg fun e => e.2 h]
  · rw [if_neg fun e => h (has_iff.1 e), present_put]
    simp [h]

theorem mem_present_enter {x : ConnId} :
    x ∈ (a.enter room id).present other ↔ x ∈ a.present other ∨ (other = room ∧ x = id) := by
  rw [present_enter]
  by_cases ho : other = room
  · subst ho
    by_cases h : id ∈ a.present other
    · simp only [h, not_true, and_false, if_false, true_and]
      constructor
      · exact Or.inl
      · rintro (hx | rfl)
        · exact hx
        · exact h
    · simp [h]
  · simp [ho]

theorem Distinct.enter (h : a.Distinct) (room : RoomCode) (id : ConnId) :
    (a.enter room id).Distinct := by
  intro other
  rw [present_enter]
  split
  · rename_i hn
    exact List.nodup_append.2 ⟨h room, by simp, by rintro x hx y hy rfl; simp_all⟩
  · exact h other

theorem present_leave (a : Attendance) (room other : RoomCode) (id : ConnId) :
    (a.leave room id).present other =
      if other = room then (a.present room).erase id else a.present other := by
  unfold leave
  split
  · rw [present_put]
  · rename_i h
    rw [List.erase_of_not_mem fun e => h (has_iff.2 e)]
    split
    · rename_i e
      rw [e]
    · rfl

theorem Distinct.leave (h : a.Distinct) (room : RoomCode) (id : ConnId) :
    (a.leave room id).Distinct := by
  intro other
  rw [present_leave]
  split
  · exact (h room).erase id
  · exact h other

theorem mem_present_leave (h : a.Distinct) {x : ConnId} :
    x ∈ (a.leave room id).present other ↔ x ∈ a.present other ∧ ¬ (other = room ∧ x = id) := by
  rw [present_leave]
  by_cases ho : other = room
  · subst ho
    rw [if_pos rfl, (h other).mem_erase_iff]
    simp [and_comm]
  · simp [ho]

theorem present_leave_sublist (a : Attendance) (room other : RoomCode) (id : ConnId) :
    ((a.leave room id).present other).Sublist (a.present other) := by
  rw [present_leave]
  split
  · rename_i h
    rw [h]
    exact List.erase_sublist
  · exact List.Sublist.refl _

theorem withdraw_cons (a : Attendance) (room : RoomCode) (id : ConnId) (ids : List ConnId) :
    a.withdraw room (id :: ids) =
      if a.has room id then
        (id :: ((a.leave room id).withdraw room ids).1, ((a.leave room id).withdraw room ids).2)
      else a.withdraw room ids := rfl

theorem Distinct.withdraw (h : a.Distinct) (room : RoomCode) (ids : List ConnId) :
    (a.withdraw room ids).2.Distinct := by
  induction ids generalizing a with
  | nil => exact h
  | cons id ids ih =>
    rw [withdraw_cons]
    split
    · exact ih (h.leave room id)
    · exact ih h

theorem present_withdraw_sublist (a : Attendance) (room other : RoomCode) (ids : List ConnId) :
    ((a.withdraw room ids).2.present other).Sublist (a.present other) := by
  induction ids generalizing a with
  | nil => exact List.Sublist.refl _
  | cons id ids ih =>
    rw [withdraw_cons]
    split
    · exact (ih (a.leave room id)).trans (present_leave_sublist a room other id)
    · exact ih a

theorem mem_present_withdraw (h : a.Distinct) {x : ConnId} :
    x ∈ (a.withdraw room ids).2.present other ↔
      x ∈ a.present other ∧ ¬ (other = room ∧ x ∈ ids) := by
  induction ids generalizing a with
  | nil => simp [Attendance.withdraw]
  | cons id ids ih =>
    rw [withdraw_cons]
    split
    · rw [ih (h.leave room id), mem_present_leave h]
      simp only [List.mem_cons]
      tauto
    · rename_i hn
      have hid : id ∉ a.present room := fun e => hn (has_iff.2 e)
      rw [ih h, List.mem_cons]
      constructor
      · rintro ⟨hx, hno⟩
        refine ⟨hx, ?_⟩
        rintro ⟨rfl, rfl | hxs⟩
        · exact hid hx
        · exact hno ⟨rfl, hxs⟩
      · rintro ⟨hx, hno⟩
        exact ⟨hx, fun e => hno ⟨e.1, .inr e.2⟩⟩

theorem mem_withdraw (h : a.Distinct) {x : ConnId} :
    x ∈ (a.withdraw room ids).1 ↔ x ∈ ids ∧ x ∈ a.present room := by
  induction ids generalizing a with
  | nil => simp [Attendance.withdraw]
  | cons id ids ih =>
    rw [withdraw_cons]
    split
    · rename_i hid
      rw [List.mem_cons, ih (h.leave room id), mem_present_leave h, List.mem_cons]
      have hm := has_iff.1 hid
      constructor
      · rintro (rfl | ⟨hx, hp, -⟩)
        · exact ⟨.inl rfl, hm⟩
        · exact ⟨.inr hx, hp⟩
      · rintro ⟨rfl | hx, hp⟩
        · exact .inl rfl
        · by_cases he : x = id
          · exact .inl he
          · exact .inr ⟨hx, hp, fun e => he e.2⟩
    · rename_i hid
      rw [ih h, List.mem_cons]
      constructor
      · rintro ⟨hx, hp⟩
        exact ⟨.inr hx, hp⟩
      · rintro ⟨rfl | hx, hp⟩
        · exact absurd (has_iff.2 hp) hid
        · exact ⟨hx, hp⟩

theorem nodup_withdraw (h : a.Distinct) (room : RoomCode) (ids : List ConnId) :
    (a.withdraw room ids).1.Nodup := by
  induction ids generalizing a with
  | nil => exact List.nodup_nil
  | cons id ids ih =>
    rw [withdraw_cons]
    split
    · refine List.nodup_cons.2 ⟨fun hmem => ?_, ih (h.leave room id)⟩
      have hthere := ((mem_withdraw (h.leave room id)).1 hmem).2
      exact ((mem_present_leave h).1 hthere).2 ⟨rfl, rfl⟩
    · exact ih h

def Listed (a : Attendance) : Prop := ∀ room ids, a.rooms.get? room = some ids → ids ≠ []

theorem listed_empty : empty.Listed := fun _ _ h => nomatch h

theorem get?_rooms_put (a : Attendance) (room other : RoomCode) (ids : List ConnId) :
    (a.put room ids).rooms.get? other =
      if other = room then (if ids = [] then none else some ids) else a.rooms.get? other := by
  rw [put]
  by_cases h : ids = []
  · subst h
    exact KeyMap.get?_erase a.rooms room other
  · rw [if_neg (by simpa using h), if_neg h]
    exact KeyMap.get?_insert a.rooms room other ids

theorem Listed.put (h : a.Listed) (room : RoomCode) (ids : List ConnId) :
    (a.put room ids).Listed := by
  intro other present hp
  rw [get?_rooms_put] at hp
  split at hp
  · split at hp
    · cases hp
    · rename_i hne
      cases hp
      exact hne
  · exact h other present hp

theorem Listed.enter (h : a.Listed) (room : RoomCode) (id : ConnId) : (a.enter room id).Listed := by
  unfold Attendance.enter
  split
  · exact h
  · exact h.put room _

theorem Listed.leave (h : a.Listed) (room : RoomCode) (id : ConnId) : (a.leave room id).Listed := by
  unfold Attendance.leave
  split
  · exact h.put room _
  · exact h

theorem Listed.withdraw (h : a.Listed) (room : RoomCode) (ids : List ConnId) :
    (a.withdraw room ids).2.Listed := by
  induction ids generalizing a with
  | nil => exact h
  | cons id ids ih =>
    rw [withdraw_cons]
    split
    · exact ih (h.leave room id)
    · exact ih h

theorem present_eq_nil_iff (h : a.Listed) : a.present room = [] ↔ a.rooms.get? room = none := by
  rw [present]
  cases hr : a.rooms.get? room with
  | none => exact iff_of_true rfl rfl
  | some ids => exact iff_of_false (h room ids hr) nofun

structure Shrinks (a b : Attendance) : Prop where
  sublist : ∀ room, (b.present room).Sublist (a.present room)
  listed : a.Listed → b.Listed

theorem shrinks_leave (a : Attendance) (room : RoomCode) (id : ConnId) :
    a.Shrinks (a.leave room id) :=
  ⟨fun other => present_leave_sublist a room other id, fun h => h.leave room id⟩

theorem shrinks_withdraw (a : Attendance) (room : RoomCode) (ids : List ConnId) :
    a.Shrinks (a.withdraw room ids).2 :=
  ⟨fun other => present_withdraw_sublist a room other ids, fun h => h.withdraw room ids⟩

theorem put_put {more : List ConnId} (h : ids = [] → more = []) :
    (a.put room ids).put room more = a.put room more := by
  refine congrArg Attendance.mk ?_
  simp only [put]
  by_cases hids : ids = []
  · rw [h hids, hids]
    exact KeyMap.erase_of_get? ((KeyMap.get?_erase ..).trans (if_pos rfl))
  · have hlisted : ¬ ids.isEmpty = true := by simpa using hids
    rw [if_neg hlisted, KeyMap.erase_insert, KeyMap.insert_insert]

theorem put_present (h : a.Listed) (room : RoomCode) : a.put room (a.present room) = a := by
  refine congrArg Attendance.mk ?_
  cases hr : a.rooms.get? room with
  | none =>
    rw [(present_eq_nil_iff h).2 hr]
    exact KeyMap.erase_of_get? hr
  | some ids =>
    have hp : a.present room = ids := by rw [present, hr, Option.getD_some]
    rw [hp, if_neg (by simpa using h room ids hr)]
    exact KeyMap.insert_of_get? hr

theorem leave_enter (h : a.Listed) (hid : id ∉ a.present room) :
    (a.enter room id).leave room id = a := by
  have hthere : (a.enter room id).has room id = true :=
    has_iff.2 (mem_present_enter.2 (.inr ⟨rfl, rfl⟩))
  rw [leave, if_pos hthere, present_enter, if_pos ⟨rfl, hid⟩, List.erase_append_right _ hid,
    List.erase_cons_head, List.append_nil, enter, if_neg fun e => hid (has_iff.1 e),
    put_put (by simp), put_present h]

theorem snd_withdraw (h : a.Distinct) (room : RoomCode) (ids : List ConnId) :
    (a.withdraw room ids).2 =
      if ids.any (a.has room) then a.put room ((a.present room).filter (· ∉ ids)) else a := by
  induction ids generalizing a with
  | nil => rfl
  | cons id ids ih =>
    rw [withdraw_cons]
    by_cases hid : id ∈ a.present room
    · have hrest : ((a.present room).erase id).filter (· ∉ ids) =
          (a.present room).filter (· ∉ id :: ids) := by
        rw [(h room).erase_eq_filter, List.filter_filter]
        exact List.filter_congr fun x _ => by by_cases hx : x = id <;> simp [hx]
      have hleave : (a.leave room id).present room = (a.present room).erase id :=
        (present_leave a room room id).trans (if_pos rfl)
      rw [if_pos (has_iff.2 hid), List.any_cons, has_iff.2 hid, Bool.true_or, if_pos rfl,
        ih (h.leave room id), hleave, hrest, leave, if_pos (has_iff.2 hid)]
      split
      · refine put_put fun he => ?_
        rw [← hrest, he, List.filter_nil]
      · -- nobody else is there to be taken out
        rename_i hnone
        refine congrArg _ (Eq.trans (List.filter_eq_self.2 fun x hx => ?_).symm hrest)
        refine decide_eq_true fun hxs => hnone (List.any_eq_true.2 ⟨x, hxs, ?_⟩)
        rw [← hleave] at hx
        rw [leave, if_pos (has_iff.2 hid)] at hx
        exact has_iff.2 hx
    · have hhas : a.has room id = false := Bool.eq_false_iff.2 fun e => hid (has_iff.1 e)
      rw [if_neg fun e => hid (has_iff.1 e), ih h, List.any_cons, hhas, Bool.false_or]
      have hsame : (a.present room).filter (· ∉ id :: ids) = (a.present room).filter (· ∉ ids) :=
        List.filter_congr fun x hx => by
          have hne : x ≠ id := ne_of_mem_of_not_mem hx hid
          simp [hne]
      rw [hsame]

theorem snd_withdraw_of_listed (h : a.Distinct) (hl : a.Listed) (room : RoomCode)
    (ids : List ConnId) :
    (a.withdraw room ids).2 = a.put room ((a.present room).filter (· ∉ ids)) := by
  rw [snd_withdraw h]
  split
  · rfl
  · rename_i hnone
    have hall : (a.present room).filter (· ∉ ids) = a.present room :=
      List.filter_eq_self.2 fun x hx => decide_eq_true fun hxs =>
        hnone (List.any_eq_true.2 ⟨x, hxs, has_iff.2 hx⟩)
    rw [hall, put_present hl]

/-- In which order people are taken out makes no difference. -/
theorem withdraw_perm (room : RoomCode) (h : a.Distinct) {more : List ConnId} (hp : ids.Perm more) :
    (a.withdraw room ids).1.Perm (a.withdraw room more).1 ∧
      (a.withdraw room ids).2 = (a.withdraw room more).2 := by
  constructor
  · refine (List.perm_ext_iff_of_nodup (nodup_withdraw h room ids)
      (nodup_withdraw h room more)).2 fun x => ?_
    rw [mem_withdraw h, mem_withdraw h, hp.mem_iff]
  · have hkept : (a.present room).filter (· ∉ ids) = (a.present room).filter (· ∉ more) :=
      List.filter_congr fun x _ => by simp [hp.mem_iff]
    rw [snd_withdraw h, snd_withdraw h, hkept, hp.any_eq]

end Cardroom.Attendance
