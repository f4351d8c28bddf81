import Cardroom.Proofs.Floor.Broadcasts
import Cardroom.Proofs.Floor.Ledger
import Mathlib.Data.Finset.Prod
/-!
The registry of one side as a set of pairs, of a room and a connection in it. Each act has the pairs
that it puts in and those that it deletes; whatever acts there have been, in whatever order, the
registry shows exactly the pairs that are left (`Attendance.Shows`), and every removal answers how
many it has deleted (`roster_exact`).
-/

namespace Cardroom

variable {σ : Type}

open Script Floor

namespace Attendance

variable {a : Attendance} {S : Finset (RoomCode × ConnId)}

/-- Each pair of the set is shown once and nothing else is. No room is listed in vain. -/
structure Shows (a : Attendance) (S : Finset (RoomCode × ConnId)) : Prop where
  mem : ∀ room id, id ∈ a.present room ↔ (room, id) ∈ S
  once : ∀ room, (a.present room).Nodup
  count : ∀ room, a.count room = (S.filter (·.1 = room)).card
  contains : ∀ room, a.rooms.contains room = true ↔ ∃ id, (room, id) ∈ S
  occupied : ∀ room ids, a.rooms.get? room = some ids → ids ≠ []
  isEmpty : a.isEmpty = true ↔ S = ∅
  roomCount : a.roomCount = (S.image Prod.fst).card

theorem length_eq_card (room : RoomCode) {ids : List ConnId} (hn : ids.Nodup)
    {T : Finset (RoomCode × ConnId)} (h : ∀ x, x ∈ T ↔ x.1 = room ∧ x.2 ∈ ids) :
    ids.length = T.card := by
  have hT : T = {room} ×ˢ ids.toFinset := by
    ext x
    rw [h, Finset.mem_product, Finset.mem_singleton, List.mem_toFinset]
  rw [hT, Finset.card_product, Finset.card_singleton, one_mul, List.toFinset_card_of_nodup hn]

theorem shows (hd : a.Distinct) (hl : a.Listed)
    (hm : ∀ room id, id ∈ a.present room ↔ (room, id) ∈ S) : a.Shows S := by
  have hcontains : ∀ room, a.rooms.contains room = true ↔ ∃ id, (room, id) ∈ S := by
    intro room
    rw [KeyMap.contains, Option.isSome_iff_ne_none, ne_eq, ← present_eq_nil_iff hl]
    constructor
    · intro hne
      obtain ⟨id, hid⟩ := List.exists_mem_of_ne_nil _ hne
      exact ⟨id, (hm room id).1 hid⟩
    · rintro ⟨id, hid⟩
      exact List.ne_nil_of_mem ((hm room id).2 hid)
  have hcount : a.roomCount = (S.image Prod.fst).card := by
    have hkeys : a.rooms.keys.toFinset = S.image Prod.fst := by
      ext room
      rw [List.mem_toFinset, ← KeyMap.contains_iff, hcontains, Finset.mem_image]
      constructor
      · rintro ⟨id, h⟩
        exact ⟨(room, id), h, rfl⟩
      · rintro ⟨⟨_, id⟩, h, rfl⟩
        exact ⟨id, h⟩
    have hn : a.rooms.keys.Nodup := a.rooms.nodup_keys
    rw [← hkeys, List.toFinset_card_of_nodup hn, KeyMap.keys, List.length_map]
    rfl
  refine ⟨hm, hd, fun room => length_eq_card room (hd room) fun x => ?_, hcontains, hl, ?_,
    hcount⟩
  · rw [Finset.mem_filter, hm, and_comm]
    exact and_congr_right fun h => by rw [← h]
  · rw [← Finset.image_eq_empty (f := Prod.fst), ← Finset.card_eq_zero, ← hcount]
    exact List.isEmpty_iff_length_eq_zero

end Attendance

inductive RosterAct where
  | client (a : ClientAct)
  | registers (room : RoomCode) (id : ConnId)
  | unregisters (room : RoomCode) (id : ConnId)
  | prunes (room : RoomCode) (failed : List ConnId)
  | closesUser (room : RoomCode) (user : UserId)
  | dropsRoom (room : RoomCode)
  | broadcasts (room : RoomCode) (p : Payload)

namespace RosterAct

/-- Only connections that there are can be registered. -/
def script (side : Side) : RosterAct → Script σ Nat
  | client a => do
    a.script
    return 0
  | registers room id => do
    Script.change fun f => if (f.connection? id).isSome then Delivery.enter side room id f else f
    return 0
  | unregisters room id => Delivery.unregisterCounted side room id
  | prunes room failed => Delivery.prune side room failed
  | closesUser room user => Delivery.closeUser side room user
  | dropsRoom room => Delivery.dropRoom side room
  | broadcasts room p => Delivery.broadcast side room p

/-- The pairs that an act puts in. -/
def inserts (f : Floor σ) : RosterAct → Finset (RoomCode × ConnId)
  | registers room id => if (f.connection? id).isSome then {(room, id)} else ∅
  | client _ | unregisters .. | prunes .. | closesUser .. | dropsRoom _ | broadcasts .. => ∅

/-- Those of the pairs that an act deletes. -/
def deletes (f : Floor σ) (S : Finset (RoomCode × ConnId)) :
    RosterAct → Finset (RoomCode × ConnId)
  | client _ | registers _ _ => ∅
  | unregisters room id => S.filter (· = (room, id))
  | prunes room failed => S.filter fun x => x.1 = room ∧ x.2 ∈ failed
  | closesUser room user => S.filter fun x => x.1 = room ∧ f.user? x.2 = some user
  | dropsRoom room => S.filter fun x => x.1 = room
  | broadcasts room _ => S.filter fun x => x.1 = room ∧ f.works x.2 = false

def removes : RosterAct → Bool
  | unregisters .. | prunes .. | closesUser .. | dropsRoom _ => true
  | client _ | registers .. | broadcasts .. => false

def perform (side : Side) (s : Floor σ × Finset (RoomCode × ConnId)) (a : RosterAct) :
    Floor σ × Finset (RoomCode × ConnId) :=
  (((a.script side).run s.1).2, (s.2 ∪ a.inserts s.1) \ a.deletes s.1 s.2)

end RosterAct

namespace Floor

variable {side : Side} {f : Floor σ} {S : Finset (RoomCode × ConnId)}

structure Rostered (side : Side) (f : Floor σ) (S : Finset (RoomCode × ConnId)) : Prop where
  distinct : (f.attendance side).Distinct
  listed : (f.attendance side).Listed
  mem : ∀ room id, id ∈ (f.attendance side).present room ↔ (room, id) ∈ S
  known : ∀ x ∈ S, (f.connection? x.2).isSome = true

theorem Rostered.shows (h : f.Rostered side S) : (f.attendance side).Shows S :=
  Attendance.shows h.distinct h.listed h.mem

end Floor

namespace RosterAct

variable {side : Side} {f : Floor σ} {S : Finset (RoomCode × ConnId)}

theorem run_registers (room : RoomCode) (id : ConnId) (f : Floor σ) :
    ((registers room id).script side).run f =
      (0, if (f.connection? id).isSome then Delivery.enter side room id f else f) := rfl

theorem attendance_client (a : ClientAct) (f : Floor σ) :
    (((client a).script side).run f).2.attendance side = f.attendance side := by
  rw [script, run_monad_bind, run_pure]
  exact (a.within (ClientAct.same_attendance side)).run (Same.steps _) f

theorem attendance_unregisters (room : RoomCode) (id : ConnId) (f : Floor σ) :
    (((unregisters room id).script side).run f).2.attendance side =
      (f.attendance side).leave room id := by
  rw [script, Delivery.snd_unregisterCounted, Delivery.attendance_unregister]

theorem attendance_broadcasts (room : RoomCode) (p : Payload) (f : Floor σ) :
    (((broadcasts room p).script side).run f).2.attendance side =
      ((f.attendance side).withdraw room
        ((Delivery.writeEach p ((f.attendance side).present room)).run f).1).2 := by
  rw [script, Delivery.run_broadcast, Delivery.run_send, Delivery.attendance_prune,
    Delivery.attendance_writeEach]

/-- What letting people in and taking them off keeps. -/
theorem kept {P : Attendance → Prop} (hP : Attendance.Kept P) (a : RosterAct)
    (h : P (f.attendance side)) : P (((a.script side).run f).2.attendance side) := by
  cases a with
  | client a => rwa [attendance_client]
  | registers room id =>
    rw [run_registers]
    split
    · rw [Delivery.enter, attendance_setAttendance, if_pos rfl]
      exact hP.enter room id h
    · exact h
  | unregisters room id =>
    rw [attendance_unregisters]
    exact hP.shrinks (Attendance.shrinks_leave ..) h
  | prunes room failed =>
    rw [script, Delivery.attendance_prune]
    exact hP.shrinks (Attendance.shrinks_withdraw ..) h
  | closesUser room user =>
    exact Delivery.attendance_takeOff side room (Delivery.connectionsOf side room user) f ▸
      hP.shrinks (Attendance.shrinks_withdraw ..) h
  | dropsRoom room =>
    exact Delivery.attendance_takeOff side room (fun f => (f.attendance side).present room) f ▸
      hP.shrinks (Attendance.shrinks_withdraw ..) h
  | broadcasts room p =>
    rw [attendance_broadcasts]
    exact hP.shrinks (Attendance.shrinks_withdraw ..) h

theorem isSome_connection? (hd : (f.attendance side).Distinct) (a : RosterAct) {x : ConnId}
    (h : (f.connection? x).isSome = true) :
    (((a.script side).run f).2.connection? x).isSome = true := by
  have honward : ∀ {s : Script σ Nat}, s.Within Onward →
      ((s.run f).2.connection? x).isSome = true := by
    intro s hs
    obtain ⟨c, hc⟩ := Option.isSome_iff_exists.1 h
    obtain ⟨d, hd, -⟩ := hs.run Onward.steps f x c hc
    exact Option.isSome_of_eq_some hd
  have hall : Delivery.Allowed (Onward (σ := σ)) side Delivery.silent :=
    Onward.byConnection.delivery side _
  cases a with
  | client a => exact honward ((a.within Onward.client).monad_bind fun _ => within_pure _)
  | registers room id =>
    rw [run_registers]
    split
    · rwa [Delivery.enter, connection?_setAttendance]
    · exact h
  | unregisters room id =>
    exact honward ((Delivery.within_unregister hall room id).monad_bind fun _ => within_pure _)
  | prunes room failed => exact honward (Delivery.within_prune hall room failed)
  | closesUser room user => exact honward (Delivery.within_closeUser hall room user)
  | dropsRoom room => exact honward (Delivery.within_dropRoom hall room)
  | broadcasts room p =>
    rw [script, Delivery.connection?_broadcast side room hd]
    split
    · split <;> rwa [Option.isSome_map]
    · exact h

theorem mem_left {q : RoomCode × ConnId → Prop} [DecidablePred q] {x : RoomCode × ConnId} :
    x ∈ (S ∪ ∅) \ S.filter q ↔ x ∈ S ∧ ¬ q x := by
  rw [Finset.union_empty, ← Finset.filter_not, Finset.mem_filter]

/-- Who attends after an act: whoever was put in, and of the others those who were not deleted. -/
theorem mem_present (h : f.Rostered side S) (a : RosterAct) (code : RoomCode) (x : ConnId) :
    x ∈ (((a.script side).run f).2.attendance side).present code ↔
      (code, x) ∈ (S ∪ a.inserts f) \ a.deletes f S := by
  cases a with
  | client a =>
    rw [attendance_client, h.mem]
    simp [inserts, deletes]
  | registers room id =>
    rw [run_registers, inserts]
    split
    · rw [Delivery.enter, attendance_setAttendance, if_pos rfl, Attendance.mem_present_enter, h.mem]
      simp [deletes, or_comm]
    · rw [h.mem]
      simp [deletes]
  | unregisters room id =>
    rw [attendance_unregisters, Attendance.mem_present_leave h.distinct, h.mem, inserts, deletes,
      mem_left, Prod.mk.injEq]
  | prunes room failed =>
    rw [script, Delivery.attendance_prune, Attendance.mem_present_withdraw h.distinct, h.mem,
      inserts, deletes, mem_left]
  | closesUser room user =>
    rw [script, Delivery.mem_present_closeUser side room h.distinct, h.mem,
      inserts, deletes, mem_left]
  | dropsRoom room =>
    rw [script, Delivery.mem_present_dropRoom side room h.distinct, h.mem,
      inserts, deletes, mem_left]
  | broadcasts room p =>
    rw [script, Delivery.mem_present_broadcast side room h.distinct, h.mem,
      inserts, deletes, mem_left]

theorem rostered (h : f.Rostered side S) (a : RosterAct) :
    ((a.script side).run f).2.Rostered side ((S ∪ a.inserts f) \ a.deletes f S) where
  distinct := a.kept Attendance.kept_distinct h.distinct
  listed := a.kept Attendance.kept_listed h.listed
  mem := a.mem_present h
  known x hx := by
    refine a.isSome_connection? h.distinct ?_
    rcases Finset.mem_union.1 (Finset.mem_sdiff.1 hx).1 with hx | hx
    · exact h.known x hx
    · cases a with
      | registers room id =>
        rw [inserts] at hx
        split at hx
        · rename_i hid
          rw [Finset.mem_singleton.1 hx]
          exact hid
        · exact absurd hx (Finset.notMem_empty x)
      | _ => exact absurd hx (Finset.notMem_empty x)

theorem rostered_foldl (acts : List RosterAct) {s : Floor σ × Finset (RoomCode × ConnId)}
    (h : s.1.Rostered side s.2) :
    (acts.foldl (perform side) s).1.Rostered side (acts.foldl (perform side) s).2 := by
  induction acts generalizing s with
  | nil => exact h
  | cons a acts ih => exact ih (a.rostered h)

theorem length_withdraw (h : f.Rostered side S) (room : RoomCode) (ids : List ConnId)
    {T : Finset (RoomCode × ConnId)} (hT : ∀ x, x ∈ T ↔ x ∈ S ∧ x.1 = room ∧ x.2 ∈ ids) :
    ((f.attendance side).withdraw room ids).1.length = T.card := by
  refine Attendance.length_eq_card room (Attendance.nodup_withdraw h.distinct room ids) fun x => ?_
  rw [hT, Attendance.mem_withdraw h.distinct, h.mem]
  constructor
  · rintro ⟨hx, rfl, hids⟩
    exact ⟨rfl, hids, hx⟩
  · rintro ⟨rfl, hids, hx⟩
    exact ⟨hx, rfl, hids⟩

theorem fst_removes (h : f.Rostered side S) {a : RosterAct} (ha : a.removes = true) :
    ((a.script side).run f).1 = (a.deletes f S).card := by
  cases a with
  | client a => cases ha
  | registers room id => cases ha
  | broadcasts room p => cases ha
  | unregisters room id =>
    rw [script, Delivery.unregisterCounted, run_monad_bind, Delivery.unregister, run_update,
      run_pure, deletes, Finset.filter_eq']
    by_cases hid : (room, id) ∈ S
    · have hhas := Attendance.has_iff.2 ((h.mem room id).2 hid)
      have huser : (f.user? id).isSome = true := (Option.isSome_map ..).trans (h.known _ hid)
      simp only [hhas, huser, hid, if_true, Finset.card_singleton]
    · have hhas : (f.attendance side).has room id = false :=
        Bool.eq_false_iff.2 fun e => hid ((h.mem room id).1 (Attendance.has_iff.1 e))
      simp [hhas, hid]
  | prunes room failed =>
    rw [script, Delivery.fst_prune]
    exact length_withdraw h room failed fun x => Finset.mem_filter
  | closesUser room user =>
    refine (Delivery.fst_takeOff side room (Delivery.connectionsOf side room user) f).trans ?_
    refine length_withdraw h room _ fun x => ?_
    rw [deletes, Finset.mem_filter, Delivery.connectionsOf, List.mem_filter, decide_eq_true_eq]
    refine and_congr_right fun hx => and_congr_right fun hroom => ?_
    rw [h.mem, ← hroom]
    exact (and_iff_right hx).symm
  | dropsRoom room =>
    refine (Delivery.fst_takeOff side room (fun f => (f.attendance side).present room) f).trans ?_
    refine length_withdraw h room _ fun x => ?_
    rw [deletes, Finset.mem_filter]
    refine and_congr_right fun hx => ⟨fun hroom => ⟨hroom, ?_⟩, And.left⟩
    rw [h.mem, ← hroom]
    exact hx

theorem fst_broadcasts (h : f.Rostered side S) (room : RoomCode) (p : Payload) :
    (((broadcasts room p).script side).run f).1 =
      (S.filter (·.1 = room) \ (broadcasts room p).deletes f S).card := by
  rw [script, Delivery.run_broadcast, Delivery.fst_send side room (h.distinct room),
    List.countP_eq_length_filter]
  refine Attendance.length_eq_card room ((h.distinct room).filter _) fun x => ?_
  rw [Finset.mem_sdiff, deletes, Finset.mem_filter, Finset.mem_filter, List.mem_filter, h.mem]
  constructor
  · rintro ⟨⟨hx, rfl⟩, hkept⟩
    exact ⟨rfl, hx, by_contra fun hw => hkept ⟨hx, rfl, Bool.eq_false_iff.2 hw⟩⟩
  · rintro ⟨rfl, hx, hw⟩
    exact ⟨⟨hx, rfl⟩, fun hkept => Bool.false_ne_true (hkept.2.2.symm.trans hw)⟩

end RosterAct

/-- However the registry has come about: it shows the pairs that have been put in and not been
deleted, each removal answers how many pairs it deletes, and a broadcast answers how many pairs of
the room it does not delete, since each of those has had the payload delivered. -/
theorem roster_exact (config : Config) (secret : String) (store : σ) (entropy : Random.Source)
    (side : Side) (acts : List RosterAct) :
    let s := acts.foldl (RosterAct.perform side) (Floor.new config secret store entropy, ∅)
    (s.1.attendance side).Shows s.2 ∧
    (∀ a : RosterAct, a.removes = true →
      ((a.script side).run s.1).1 = (a.deletes s.1 s.2).card) ∧
    ∀ room p, (((RosterAct.broadcasts room p).script side).run s.1).1 =
      (s.2.filter (·.1 = room) \ (RosterAct.broadcasts room p).deletes s.1 s.2).card := by
  intro s
  have hempty : (Floor.new config secret store entropy).attendance side = .empty := by
    cases side <;> rfl
  have hnew : (Floor.new config secret store entropy).Rostered side ∅ := by
    refine ⟨?_, ?_, fun room id => ?_, nofun⟩ <;> rw [hempty]
    · exact Attendance.distinct_empty
    · exact Attendance.listed_empty
    · simp
  have h : s.1.Rostered side s.2 := RosterAct.rostered_foldl acts hnew
  exact ⟨h.shows, fun a => RosterAct.fst_removes h, RosterAct.fst_broadcasts h⟩

def parlourTwice : List RosterAct :=
  [.client (.opens 0 1 (.steady (.takes 0))), .registers parlourRoom 0, .registers parlourRoom 0]

theorem roster_exact_parlour :
    let s := parlourTwice.foldl (RosterAct.perform .lobby) (parlour, ∅)
    s.1.lobby.count parlourRoom = 1 ∧
    (((RosterAct.prunes parlourRoom [0, 0, 5]).script .lobby).run s.1).1 = 1 := by
  intro s
  obtain ⟨hshows, hremoves, -⟩ :=
    roster_exact {} "" parlour.store (.ofSeed 0) .lobby parlourTwice
  exact ⟨(hshows.count parlourRoom).trans (by decide +kernel),
    (hremoves (.prunes parlourRoom [0, 0, 5]) rfl).trans (by decide +kernel)⟩

/-- What a broadcast answers is not how many pairs it deletes: here the one connection of a room
gets the payload and stays. -/
theorem not_broadcasts_deletions :
    ¬ ∀ (acts : List RosterAct) (a : RosterAct),
      let s := acts.foldl (RosterAct.perform .lobby) (parlour, ∅)
      ((a.script .lobby).run s.1).1 = (a.deletes s.1 s.2).card := by
  intro h
  have hone := h [.client (.opens 0 1 (.steady (.takes 0))), .registers parlourRoom 0]
    (.broadcasts parlourRoom (.text "hello"))
  revert hone
  decide +kernel

end Cardroom
