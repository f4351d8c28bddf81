import Cardroom.Store.Rooms
import Mathlib.Data.List.Nodup

namespace Cardroom

namespace RoomEntry

def Distinct (e : RoomEntry) : Prop := (e.joined.map Membership.user).Nodup

variable {e : RoomEntry}

theorem has_iff {u : UserId} : e.has u = true ↔ u ∈ e.joined.map Membership.user := by
  simp [has]

theorem room_join (e : RoomEntry) (u : UserId) (name : String) : (e.join u name).room = e.room := by
  unfold RoomEntry.join
  split <;> rfl

theorem has_join (e : RoomEntry) (u v : UserId) (name : String) :
    (e.join u name).has v = (e.has v || decide (u = v)) := by
  unfold RoomEntry.join
  split
  · rename_i hu
    by_cases huv : u = v
    · rw [← huv, hu, Bool.true_or]
    · simp [huv]
  · simp [has]

theorem has_leave (e : RoomEntry) (u v : UserId) :
    (e.leave u).has v = (e.has v && decide (u ≠ v)) := by
  rw [Bool.eq_iff_iff, Bool.and_eq_true, decide_eq_true_eq, has, has, List.any_eq_true,
    List.any_eq_true, leave]
  constructor
  · rintro ⟨m, hm, hmv⟩
    obtain ⟨hm, hmu⟩ := List.mem_filter.1 hm
    have hne : m.user ≠ u := of_decide_eq_true hmu
    exact ⟨⟨m, hm, hmv⟩, fun huv => hne ((of_decide_eq_true hmv).trans huv.symm)⟩
  · rintro ⟨⟨m, hm, hmv⟩, hne⟩
    refine ⟨m, List.mem_filter.2 ⟨hm, decide_eq_true fun hmu => hne ?_⟩, hmv⟩
    exact hmu.symm.trans (of_decide_eq_true hmv)

theorem users_setReady (e : RoomEntry) (u : UserId) (ready : Bool) :
    (e.setReady u ready).joined.map Membership.user = e.joined.map Membership.user := by
  simp only [RoomEntry.setReady, List.map_map]
  apply List.map_congr_left
  intro m _
  simp only [Function.comp_apply]
  split <;> rfl

theorem has_setReady (e : RoomEntry) (u v : UserId) (ready : Bool) :
    (e.setReady u ready).has v = e.has v := by
  rw [Bool.eq_iff_iff, has_iff, has_iff, users_setReady]

theorem Distinct.join (h : e.Distinct) (u : UserId) (name : String) : (e.join u name).Distinct := by
  unfold RoomEntry.join
  split
  · exact h
  · rename_i hu
    rw [has_iff] at hu
    unfold Distinct
    rw [List.map_append]
    refine List.nodup_append.2 ⟨h, by simp, ?_⟩
    rintro v hv w hw rfl
    rw [List.mem_singleton.1 hw] at hv
    exact hu hv

theorem Distinct.leave (h : e.Distinct) (u : UserId) : (e.leave u).Distinct :=
  h.sublist (List.filter_sublist.map _)

theorem Distinct.setReady (h : e.Distinct) (u : UserId) (ready : Bool) :
    (e.setReady u ready).Distinct := by
  unfold Distinct
  rwa [users_setReady]

end RoomEntry

namespace Rooms

variable {s t : Rooms} {code : RoomCode}

def Distinct (s : Rooms) : Prop := ∀ code e, s.entry? code = some e → e.Distinct

theorem distinct_empty : empty.Distinct := fun _ _ h => nomatch h

theorem entry?_of_update {g : RoomEntry → RoomEntry} (h : s.update code g = .ok t)
    (other : RoomCode) :
    t.entry? other = if other = code then (s.entry? code).map g else s.entry? other := by
  unfold update at h
  cases he : s.entry? code with
  | none =>
    rw [he] at h
    cases h
  | some e =>
    rw [he] at h
    cases h
    exact KeyMap.get?_insert s.rooms code other (g e)

theorem entry?_create (s : Rooms) (room : Room) (other : RoomCode) :
    entry? (s.create room) other = if other = room.code then some ⟨room, []⟩ else s.entry? other :=
  KeyMap.get?_insert s.rooms room.code other ⟨room, []⟩

theorem Distinct.update {g : RoomEntry → RoomEntry} (hs : s.Distinct) (h : s.update code g = .ok t)
    (hg : ∀ e : RoomEntry, e.Distinct → (g e).Distinct) : t.Distinct := by
  intro other e he
  rw [entry?_of_update h] at he
  split at he
  · obtain ⟨d, hd, rfl⟩ := Option.map_eq_some_iff.1 he
    exact hg d (hs code d hd)
  · exact hs other e he

theorem Distinct.create (hs : s.Distinct) (room : Room) : (s.create room).Distinct := by
  intro other e he
  rw [entry?_create] at he
  split at he
  · cases he
    exact List.nodup_nil
  · exact hs other e he

end Rooms

inductive Edit where
  | create (room : Room)
  | addMember (code : RoomCode) (user : UserId) (name : String)
  | removeMember (code : RoomCode) (user : UserId)
  | setOwner (code : RoomCode) (owner : UserId)
  | setStatus (code : RoomCode) (status : RoomStatus)
  | setReady (code : RoomCode) (user : UserId) (ready : Bool)

namespace Edit

def code : Edit → RoomCode
  | create room => room.code
  | addMember code _ _ | removeMember code _ | setOwner code _ | setStatus code _
  | setReady code _ _ => code

/-- What comes of the store; a change that fails leaves it as it was. -/
def apply (s : Rooms) : Edit → Rooms
  | create room => s.create room
  | addMember code user name => (s.addMember code user name).toOption.getD s
  | removeMember code user => (s.removeMember code user).toOption.elim s Prod.snd
  | setOwner code owner => (s.setOwner code owner).toOption.getD s
  | setStatus code status => (s.setStatus code status).toOption.getD s
  | setReady code user ready => (s.setReady code user ready).toOption.getD s

/-- What a change answers; only taking a member out says more than that it was done. -/
def answer (s : Rooms) : Edit → Except StoreError Bool
  | create _ => .ok true
  | addMember code user name => (s.addMember code user name).map fun _ => true
  | removeMember code user => (s.removeMember code user).map Prod.fst
  | setOwner code owner => (s.setOwner code owner).map fun _ => true
  | setStatus code status => (s.setStatus code status).map fun _ => true
  | setReady code user ready => (s.setReady code user ready).map fun _ => true

theorem getD_update_cases (s : Rooms) (code : RoomCode) (g : RoomEntry → RoomEntry) :
    (s.update code g).toOption.getD s = s ∨
      s.update code g = .ok ((s.update code g).toOption.getD s) := by
  cases s.update code g with
  | error e => exact .inl rfl
  | ok t => exact .inr rfl

theorem apply_cases (s : Rooms) (e : Edit) :
    e.apply s = s ∨ (∃ room, room.code = e.code ∧ e.apply s = s.create room) ∨
    ∃ g : RoomEntry → RoomEntry, (∀ r : RoomEntry, r.Distinct → (g r).Distinct) ∧
      s.update e.code g = .ok (e.apply s) := by
  cases e with
  | create room => exact .inr (.inl ⟨room, rfl, rfl⟩)
  | addMember code user name =>
    exact (getD_update_cases s code _).imp_right fun h => .inr ⟨_, fun _ hr => hr.join user name, h⟩
  | removeMember code user =>
    have h : (s.removeMember code user).toOption.elim s Prod.snd =
        (s.update code (·.leave user)).toOption.getD s := by
      unfold Rooms.removeMember
      cases s.update code (·.leave user) <;> rfl
    rw [apply, h]
    exact (getD_update_cases s code _).imp_right fun h => .inr ⟨_, fun _ hr => hr.leave user, h⟩
  | setOwner code owner =>
    refine (getD_update_cases s code _).imp_right fun h => .inr ⟨_, fun r hr => ?_, h⟩
    exact hr
  | setStatus code status =>
    refine (getD_update_cases s code _).imp_right fun h => .inr ⟨_, fun r hr => ?_, h⟩
    exact hr
  | setReady code user ready =>
    exact (getD_update_cases s code _).imp_right fun h =>
      .inr ⟨_, fun _ hr => hr.setReady user ready, h⟩

theorem entry?_apply {s : Rooms} (e : Edit) {other : RoomCode} (hne : other ≠ e.code) :
    Rooms.entry? (e.apply s) other = s.entry? other := by
  obtain h | ⟨room, hroom, h⟩ | ⟨g, -, h⟩ := apply_cases s e
  · rw [h]
  · rw [h, Rooms.entry?_create, if_neg (hroom ▸ hne)]
  · rw [Rooms.entry?_of_update h, if_neg hne]

theorem distinct_apply {s : Rooms} (hs : s.Distinct) (e : Edit) : (e.apply s).Distinct := by
  obtain h | ⟨room, -, h⟩ | ⟨g, hg, h⟩ := apply_cases s e
  · rwa [h]
  · rw [h]
    exact hs.create room
  · exact hs.update h hg

end Edit

end Cardroom
