import Cardroom.Proofs.Floor.Moments
import Cardroom.Proofs.Floor.Showing

namespace Cardroom

variable {σ : Type}

open Script Floor

namespace Floor

def Wrote (f g : Floor σ) : Prop :=
  ∃ connections, g = { f with connections := connections } ∧
    connections.keys = f.connections.keys

namespace Wrote

variable {f g k : Floor σ}

theorem steps : Steps (Wrote (σ := σ)) where
  refl f := ⟨f.connections, rfl, rfl⟩
  trans := by
    rintro f - - ⟨c, rfl, hc⟩ ⟨d, rfl, hd⟩
    exact ⟨d, rfl, hd.trans hc⟩

theorem write (f : Floor σ) (id : ConnId) (p : Payload) : Wrote f (f.write id p).2 := by
  cases h : f.connection? id with
  | none =>
    rw [write_of_none h]
    exact steps.refl f
  | some c =>
    rw [write_of_some h]
    exact ⟨_, rfl, KeyMap.keys_insert_of_mem (KeyMap.mem_keys_iff.2 (Option.isSome_of_eq_some h)) _⟩

theorem close (f : Floor σ) (id : ConnId) : Wrote f (f.close id) :=
  ⟨_, rfl, KeyMap.keys_modify ..⟩

/-- What has been written to each connection is all there is to tell two floors apart. -/
theorem ext (hg : Wrote f g) (hk : Wrote f k) (h : ∀ x, g.connection? x = k.connection? x) :
    g = k := by
  obtain ⟨c, rfl, hc⟩ := hg
  obtain ⟨d, rfl, hd⟩ := hk
  cases KeyMap.ext_get? (hc.trans hd.symm) h
  rfl

end Wrote

end Floor

namespace Delivery

variable {side : Side} {room : RoomCode} {p : Payload} {f : Floor σ}
variable {ids more targets failed : List ConnId}

theorem wrote_writeEach (p : Payload) (ids : List ConnId) (f : Floor σ) :
    Wrote f ((writeEach p ids).run f).2 := by
  induction ids generalizing f with
  | nil => exact Wrote.steps.refl f
  | cons id ids ih =>
    rw [writeEach_cons]
    exact Wrote.steps.trans (.write f id p) (ih _)

theorem wrote_closeEach (ids : List ConnId) (f : Floor σ) :
    Wrote f ((closeEach ids).run f).2 := by
  induction ids generalizing f with
  | nil => exact Wrote.steps.refl f
  | cons id ids ih => exact Wrote.steps.trans (.close f id) (ih _)

theorem writeEach_perm (hn : ids.Nodup) (hp : ids.Perm more) (p : Payload) (f : Floor σ) :
    ((writeEach p ids).run f).2 = ((writeEach p more).run f).2 :=
  (wrote_writeEach p ids f).ext (wrote_writeEach p more f) fun x => by
    simp only [connection?_writeEach p hn, connection?_writeEach p (hp.nodup_iff.1 hn), hp.mem_iff]

theorem closeEach_perm (hp : ids.Perm more) (f : Floor σ) :
    (closeEach ids).run f = (closeEach more).run f :=
  Prod.ext rfl <| (wrote_closeEach ids f).ext (wrote_closeEach more f) fun x => by
    simp only [connection?_closeEach, hp.mem_iff]

theorem remove_perm (hd : (f.attendance side).Distinct) (hp : ids.Perm more) :
    (remove side room ids).run f = (remove side room more).run f := by
  obtain ⟨hremoved, hkept⟩ := Attendance.withdraw_perm room hd hp
  simp only [remove, run_monad_bind, run_update, run_pure, withdraw, hkept, hremoved.length_eq,
    closeEach_perm hremoved]

theorem prune_perm (hd : (f.attendance side).Distinct) (hp : ids.Perm more) :
    (prune side room ids).run f = (prune side room more).run f := by
  rw [prune, prune, run_monad_bind, run_monad_bind, remove_perm hd hp]

/-- In which order the connections are written to makes no difference to anything. -/
theorem send_perm (hd : (f.attendance side).Distinct) (hn : ids.Nodup) (hp : ids.Perm more)
    (p : Payload) : (send side room ids p).run f = (send side room more p).run f := by
  have hfailed : ((writeEach p ids).run f).1.Perm ((writeEach p more).run f).1 := by
    rw [failed_writeEach p hn, failed_writeEach p (hp.nodup_iff.1 hn)]
    exact hp.filter _
  have hd' : (((writeEach p more).run f).2.attendance side).Distinct := by
    rwa [attendance_writeEach]
  rw [run_send, run_send, writeEach_perm hn hp, prune_perm hd' hfailed, hp.length_eq,
    hfailed.length_eq]

/-- Everyone in the room to whom a write works has received the payload once, and has been counted.
Everyone else there has been taken off and closed. Nothing else has changed. -/
structure Delivered (side : Side) (room : RoomCode) (p : Payload) (f : Floor σ) (n : Nat)
    (g : Floor σ) : Prop where
  count : n = ((f.attendance side).present room).countP f.works
  reached : ∀ id ∈ (f.attendance side).present room, f.works id = true →
    g.received id = f.received id ++ [p] ∧ g.isClosed id = false
  failed : ∀ id ∈ (f.attendance side).present room, f.works id = false →
    g.received id = f.received id ++ (if (f.write id p).2.works id then [.close] else []) ∧
      g.isClosed id = true
  stays : (g.attendance side).present room = ((f.attendance side).present room).filter f.works
  listed : (g.attendance side).rooms.contains room = true ↔
    ∃ id ∈ (f.attendance side).present room, f.works id = true
  others : ∀ id ∉ (f.attendance side).present room, g.connection? id = f.connection? id
  elsewhere : ∀ other, other ≠ room →
    (g.attendance side).rooms.get? other = (f.attendance side).rooms.get? other
  otherSide : ∀ on, on ≠ side → g.attendance on = f.attendance on
  store : g.store = f.store
  tables : g.tables = f.tables

theorem same_send {β : Type} (view : Floor σ → β)
    (hc : ∀ f c, view { f with connections := c } = view f)
    (ha : ∀ f a, view (f.setAttendance side a) = view f)
    (hm : ∀ f m, view { f with metrics := m } = view f) (targets : List ConnId) (p : Payload)
    (f : Floor σ) : view ((send side room targets p).run f).2 = view f := by
  have hprune : Same view ((writeEach p targets).run f).2
      ((prune side room ((writeEach p targets).run f).1).run ((writeEach p targets).run f).2).2 :=
    (only_prune side room _).same hc ha hm _
  obtain ⟨c, e, -⟩ := wrote_writeEach p targets f
  rw [run_send]
  refine hprune.trans ?_
  rw [e]
  exact hc f c

theorem attendance_broadcast (hd : (f.attendance side).Distinct)
    (hl : (f.attendance side).Listed) (room : RoomCode) (p : Payload) :
    ((broadcast side room p).run f).2.attendance side =
      (f.attendance side).put room (((f.attendance side).present room).filter f.works) := by
  rw [run_broadcast, run_send, attendance_prune, attendance_writeEach, failed_writeEach p (hd room),
    Attendance.snd_withdraw_of_listed hd hl]
  refine congrArg _ (List.filter_congr fun x hx => ?_)
  cases hw : f.works x <;> simp [hx, hw]

theorem received_write_of_fails {id : ConnId} (h : f.works id = false) (p : Payload) :
    (f.write id p).2.received id = f.received id := by
  rw [received, received, connection?_write, if_pos rfl]
  rw [works] at h
  cases hc : f.connection? id with
  | none => rfl
  | some c =>
    rw [hc, Option.any_some] at h
    simp only [Option.map_some, Option.elim_some]
    rw [Connection.write]
    split
    · rfl
    · rename_i hopen
      have hrefused : (c.sink.react.1.result c.timeout).isOk = false := by
        simpa [Connection.works, hopen] using h
      rw [Connection.received_attempt, hrefused]
      rfl

theorem delivered_broadcast (hd : (f.attendance side).Distinct)
    (hl : (f.attendance side).Listed) (room : RoomCode) (p : Payload) :
    Delivered side room p f ((broadcast side room p).run f).1
      ((broadcast side room p).run f).2 where
  count := fst_send side room (hd room) p f
  reached id hid hw := by
    constructor
    · exact received_send_of_works side room hd (hd room) (fun _ h => h) p hid hw
    · rw [isClosed_broadcast side room hd, if_neg fun h => Bool.false_ne_true (h.2.symm.trans hw)]
      exact isClosed_of_works hw
  failed id hid hw := by
    constructor
    · -- the write failed, and closing may still have reached the client
      have hclose : ((broadcast side room p).run f).2.connection? id =
          ((f.write id p).2.connection? id).map Connection.close := by
        rw [connection?_broadcast side room hd, if_pos hid, hw, connection?_write, if_pos rfl,
          Option.map_map]
        rfl
      rw [received_of_close hclose, received_write_of_fails hw]
    · rw [isClosed_broadcast side room hd, if_pos ⟨hid, hw⟩]
  stays := by rw [attendance_broadcast hd hl, Attendance.present_put, if_pos rfl]
  listed := by
    rw [attendance_broadcast hd hl, KeyMap.contains, Attendance.get?_rooms_put, if_pos rfl]
    split
    · rename_i hnone
      refine iff_of_false Bool.false_ne_true ?_
      rintro ⟨id, hid, hw⟩
      exact List.filter_eq_nil_iff.1 hnone id hid hw
    · rename_i hsome
      obtain ⟨id, hid⟩ := List.exists_mem_of_ne_nil _ hsome
      exact iff_of_true rfl ⟨id, List.mem_filter.1 hid⟩
  others id hid := (connection?_broadcast side room hd p id).trans (if_neg hid)
  elsewhere other hne := by
    rw [attendance_broadcast hd hl, Attendance.get?_rooms_put, if_neg hne]
  otherSide on hne :=
    same_send (·.attendance on) (fun _ _ => by cases on <;> rfl)
      (fun f a => (attendance_setAttendance f side on a).trans (if_neg hne))
      (fun _ _ => by cases on <;> rfl) _ p f
  store :=
    same_send Floor.store (fun _ _ => rfl) (fun _ _ => by cases side <;> rfl) (fun _ _ => rfl) _ p f
  tables :=
    same_send Floor.tables (fun _ _ => rfl) (fun _ _ => by cases side <;> rfl) (fun _ _ => rfl) _ p
      f

end Delivery

namespace Lobby

open Delivery

variable [RoomStore σ]

def showTo (code : RoomCode) (targets : List ConnId) : Script σ (Except RoomError Shown) := do
  if targets.isEmpty then return .ok ⟨0, 0⟩
  match ← Script.look (readRoom code) with
  | .error e => return .error e
  | .ok (room, members) =>
    let delivered ← Delivery.send .lobby code targets (.frame (statusFrame room code members))
    let allReadySent ← tellHost code targets members
    return .ok ⟨delivered, allReadySent⟩

theorem run_showTo (code : RoomCode) (f : Floor σ) :
    (showTo code (f.lobby.present code)).run f = (showRoom code).run f := rfl

omit [RoomStore σ] in
theorem tellHost_perm {f : Floor σ} (hd : f.lobby.Distinct) {ids more : List ConnId}
    (hn : ids.Nodup) (hp : ids.Perm more) (code : RoomCode) (members : List Member) :
    (tellHost code ids members).run f = (tellHost code more members).run f := by
  have hd : (f.attendance .lobby).Distinct := hd
  rw [run_tellHost, run_tellHost]
  exact send_perm hd (hn.filter _) (hp.filter _) _

/-- In which order everyone is shown the room makes no difference to anything, also not to telling
the host. -/
theorem showTo_perm {f : Floor σ} (hd : f.lobby.Distinct) {ids more : List ConnId}
    (hn : ids.Nodup) (hp : ids.Perm more) (code : RoomCode) :
    (showTo code ids).run f = (showTo code more).run f := by
  rw [showTo, showTo]
  by_cases hnil : ids = []
  · subst hnil
    rw [List.nil_perm.1 hp]
  have hsome : ∀ l : List ConnId, l.Perm ids → l.isEmpty = false := fun l hl => by
    rw [List.isEmpty_eq_false_iff]
    exact fun e => hnil (List.nil_perm.1 (e ▸ hl))
  rw [hsome ids (.refl ids), hsome more hp.symm]
  simp only [Bool.false_eq_true, if_false, run_monad_bind, run_look]
  cases readRoom code f with
  | error e => rfl
  | ok answer =>
    obtain ⟨room, members⟩ := answer
    have hd : (f.attendance .lobby).Distinct := hd
    have hsend : (send .lobby code ids (.frame (statusFrame room code members))).run f =
        (send .lobby code more (.frame (statusFrame room code members))).run f :=
      send_perm hd hn hp _
    simp only [run_monad_bind, run_pure, hsend]
    rw [tellHost_perm (distinct_send .lobby code more _ hd) hn hp]

end Lobby

namespace Floor

/-- Floors are neat at every moment of a run (`neat_play`). A broadcast does what it has to,
whichever connections fail, and the order that a registry lists a room in changes nothing at all,
neither for a broadcast nor for a room that is shown. -/
theorem broadcasts_exact [RoomStore σ] {f : Floor σ} (hf : f.Neat) :
    (∀ side room p, let r := (Delivery.broadcast side room p).run f
      Delivery.Delivered side room p f r.1 r.2 ∧
      ∀ targets, targets.Perm ((f.attendance side).present room) →
        (Delivery.send side room targets p).run f = r) ∧
    ∀ code targets, targets.Perm (f.lobby.present code) →
      (Lobby.showTo code targets).run f = (Lobby.showRoom code).run f := by
  refine ⟨fun side room p => ⟨?_, fun targets hp => ?_⟩, fun code targets hp => ?_⟩
  · exact Delivery.delivered_broadcast (hf.tidy side) (hf.listed side) room p
  · have hn : targets.Nodup := hp.nodup_iff.2 (hf.tidy side room)
    rw [Delivery.run_broadcast, Delivery.send_perm (hf.tidy side) hn hp]
  · have hn : targets.Nodup := hp.nodup_iff.2 (hf.tidy .lobby code)
    rw [← Lobby.run_showTo, Lobby.showTo_perm (hf.tidy .lobby) hn hp]

/-- The member of the parlour is in its lobby twice; one of the two connections breaks. -/
def parlourBreaks : List (Act Rooms) :=
  [.client (.opens 0 1 (.steady (.takes 0))), .client (.opens 1 1 (.steady (.takes 0))),
    .lobby (.enters parlourRoom 0), .lobby (.enters parlourRoom 1),
    .client (.turns 1 (.steady .gone))]

theorem broadcasts_exact_parlour :
    let f := parlour.after parlourBreaks
    let r := (Delivery.broadcast .lobby parlourRoom (.text "hello")).run f
    f.lobby.present parlourRoom = [0, 1] ∧ r.1 = 1 ∧
    r.2.received 0 = f.received 0 ++ [.text "hello"] ∧ r.2.isClosed 1 = true ∧
    r.2.lobby.present parlourRoom = [0] ∧
    (Delivery.send .lobby parlourRoom [1, 0] (.text "hello")).run f = r ∧
    (Lobby.showTo parlourRoom [1, 0]).run f = (Lobby.showRoom parlourRoom).run f := by
  intro f r
  have hf : f.Neat := neat_after {} "" parlour.store (.ofSeed 0) parlourBreaks
  have hpresent : f.lobby.present parlourRoom = [0, 1] := by decide +kernel
  have hworks : f.works 0 = true := by rfl
  have hbroken : f.works 1 = false := by rfl
  have hp : [1, 0].Perm (f.lobby.present parlourRoom) := hpresent ▸ .swap 0 1 []
  obtain ⟨hbroadcast, hshow⟩ := broadcasts_exact hf
  obtain ⟨hdelivered, hperm⟩ := hbroadcast .lobby parlourRoom (.text "hello")
  have hfirst : 0 ∈ f.lobby.present parlourRoom := hp.mem_iff.1 (by simp)
  have hsecond : 1 ∈ f.lobby.present parlourRoom := hp.mem_iff.1 (by simp)
  refine ⟨hpresent, ?_, (hdelivered.reached 0 hfirst hworks).1,
    (hdelivered.failed 1 hsecond hbroken).2, ?_, hperm _ hp, hshow _ _ hp⟩
  · refine hdelivered.count.trans ?_
    rw [show (f.attendance .lobby).present parlourRoom = [0, 1] from hpresent]
    simp [hworks, hbroken]
  · refine hdelivered.stays.trans ?_
    rw [show (f.attendance .lobby).present parlourRoom = [0, 1] from hpresent]
    simp [hworks, hbroken]

end Floor

end Cardroom
