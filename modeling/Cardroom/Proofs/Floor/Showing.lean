import Cardroom.Proofs.Floor.Sending

namespace Cardroom

variable {σ : Type}

open Script Floor

namespace Delivery

theorem setAttendance_attendance (f : Floor σ) (side : Side) :
    f.setAttendance side (f.attendance side) = f := by
  cases side <;> rfl

theorem send_nil (side : Side) (room : RoomCode) (p : Payload) (f : Floor σ) :
    (send side room [] p).run f = (0, f) := by
  have hprune : ((prune side room []).run f).2 = f := setAttendance_attendance f side
  rw [run_send]
  exact Prod.ext rfl hprune

end Delivery

namespace Lobby

open Delivery

variable {code : RoomCode} {members : List Member}

theorem readyHost?_eq_some {host : UserId} (h : readyHost? members = some host) :
    members ≠ [] ∧ (∀ m ∈ members, m.isReady = true) ∧
      ∃ m, members.find? (·.isHost) = some m ∧ m.user = host := by
  unfold readyHost? at h
  split at h
  · rename_i hall
    simp only [Bool.and_eq_true, Bool.not_eq_true', List.isEmpty_eq_false_iff,
      List.all_eq_true] at hall
    exact ⟨hall.1, hall.2, Option.map_eq_some_iff.1 h⟩
  · cases h

/-- All members are ready, and the connection is the host's. -/
def isReadyHost (members : List Member) (f : Floor σ) (id : ConnId) : Bool :=
  (readyHost? members).any fun host => f.user? id = some host

def tells (members : List Member) (F : Frame) (f : Floor σ) (id : ConnId) : Bool :=
  isReadyHost members f id && (f.write id (.frame F)).2.works id

def failsToTell (members : List Member) (F : Frame) (f : Floor σ) (id : ConnId) : Bool :=
  isReadyHost members f id && !(f.write id (.frame F)).2.works id

theorem isReadyHost_congr {f g : Floor σ} {x : ConnId} (h : g.connection? x = f.connection? x) :
    isReadyHost members g x = isReadyHost members f x := by
  rw [isReadyHost, user?_congr h, isReadyHost]

theorem works_write_congr {f g : Floor σ} {x : ConnId} (h : g.connection? x = f.connection? x)
    (p : Payload) : (g.write x p).2.works x = (f.write x p).2.works x :=
  works_congr (by rw [connection?_write, connection?_write, h])

theorem tells_congr {f g : Floor σ} {x : ConnId} (h : g.connection? x = f.connection? x) (F : Frame) :
    tells members F g x = tells members F f x ∧
      failsToTell members F g x = failsToTell members F f x := by
  rw [tells, failsToTell, isReadyHost_congr h, works_write_congr h, tells, failsToTell]
  exact ⟨rfl, rfl⟩

theorem tells_of_failsToTell {f : Floor σ} {F : Frame} {x : ConnId}
    (h : failsToTell members F f x = true) : tells members F f x = false := by
  simp only [failsToTell, Bool.and_eq_true, Bool.not_eq_true'] at h
  rw [tells, h.2, Bool.and_false]

theorem run_tellHost (ids : List ConnId) (members : List Member) (g : Floor σ) :
    (tellHost code ids members).run g =
      (send .lobby code (ids.filter fun id => isReadyHost members g id && !g.isClosed id)
        (.frame (allReadyFrame code))).run g := by
  unfold tellHost isReadyHost
  cases readyHost? members with
  | none => simp [send_nil]
  | some host => rfl

variable {f : Floor σ} {F : Frame}

def shownTo (code : RoomCode) (F : Frame) (f : Floor σ) : Floor σ :=
  ((broadcast .lobby code (.frame F)).run f).2

section

variable (hd : f.lobby.Distinct)
include hd

theorem isReadyHost_shownTo (members : List Member) (x : ConnId) :
    isReadyHost members (shownTo code F f) x = isReadyHost members f x := by
  rw [isReadyHost, shownTo, user?_broadcast .lobby code hd, isReadyHost]

theorem isClosed_shownTo {x : ConnId} (hx : x ∈ f.lobby.present code) :
    (shownTo code F f).isClosed x = !f.works x := by
  change x ∈ (f.attendance .lobby).present code at hx
  rw [shownTo, isClosed_broadcast .lobby code hd]
  cases hw : f.works x with
  | false => simp [hx]
  | true => simp [isClosed_of_works hw]

theorem works_shownTo {x : ConnId} (hx : x ∈ f.lobby.present code) (hw : f.works x = true) :
    (shownTo code F f).works x = (f.write x (.frame F)).2.works x := by
  refine works_congr ?_
  rw [shownTo, connection?_broadcast .lobby code hd, connection?_write, if_pos rfl]
  exact (if_pos hx).trans (if_pos hw)

theorem hosts_shownTo (members : List Member) :
    (f.lobby.present code).filter (fun id => isReadyHost members (shownTo code F f) id &&
        !(shownTo code F f).isClosed id) =
      (f.lobby.present code).filter fun id => isReadyHost members f id && f.works id := by
  refine List.filter_congr fun x hx => ?_
  rw [isReadyHost_shownTo hd, isClosed_shownTo hd hx, Bool.not_not]

theorem distinct_shownTo : (shownTo code F f).lobby.Distinct :=
  distinct_send .lobby code (f.lobby.present code) (.frame F) hd

theorem mem_present_shownTo {room : RoomCode} {x : ConnId} :
    x ∈ (shownTo code F f).lobby.present room ↔
      x ∈ f.lobby.present room ∧ ¬ (room = code ∧ f.works x = false) :=
  mem_present_broadcast .lobby code hd (.frame F)

end

def told (code : RoomCode) (members : List Member) (F : Frame) (f : Floor σ) : Floor σ :=
  ((tellHost code (f.lobby.present code) members).run (shownTo code F f)).2

/-- What a connection receives while the room is shown. -/
def news (code : RoomCode) (members : List Member) (F : Frame) (f : Floor σ) (id : ConnId) :
    List Frame :=
  if id ∈ f.lobby.present code ∧ f.works id then
    F :: if tells members F f id then [allReadyFrame code] else []
  else []

section

variable (hd : f.lobby.Distinct) (members)
include hd

/-- Telling the host is sending to those of the first delivery that are the host's. -/
theorem run_tellHost_shownTo :
    (tellHost code (f.lobby.present code) members).run (shownTo code F f) =
      (send .lobby code
        ((f.lobby.present code).filter fun id => isReadyHost members f id && f.works id)
        (.frame (allReadyFrame code))).run (shownTo code F f) := by
  rw [run_tellHost, hosts_shownTo hd]

theorem mem_present_of_host {x : ConnId}
    (hx : x ∈ (f.lobby.present code).filter fun id => isReadyHost members f id && f.works id) :
    x ∈ (shownTo code F f).lobby.present code := by
  simp only [List.mem_filter, Bool.and_eq_true] at hx
  exact (mem_present_shownTo hd).2 ⟨hx.1, fun h => by simp [hx.2.2] at h⟩

theorem frames_told (x : ConnId) :
    (told code members F f).frames x = f.frames x ++ news code members F f x := by
  rw [told, run_tellHost_shownTo members hd, frames_send .lobby code (distinct_shownTo hd)
    ((hd code).filter _) fun _ h => mem_present_of_host members hd h]
  rw [shownTo, frames_broadcast .lobby code hd, ← shownTo, news]
  change (if _ then (if x ∈ f.lobby.present code ∧ _ then _ else _) ++ _ else
    if x ∈ f.lobby.present code ∧ _ then _ else _) = _
  simp only [List.mem_filter, tells]
  by_cases hx : x ∈ f.lobby.present code
  · cases hw : f.works x with
    | false => simp
    | true =>
      rw [works_shownTo hd hx hw]
      by_cases hr : isReadyHost members f x = true <;>
        by_cases ht : (f.write x (.frame F)).2.works x = true <;> simp [hx, hr, ht]
  · simp [hx]

theorem mem_present_told {room : RoomCode} {x : ConnId} :
    x ∈ (told code members F f).lobby.present room ↔
      x ∈ f.lobby.present room ∧
        ¬ (room = code ∧ (f.works x = false ∨ failsToTell members F f x = true)) := by
  rw [told, run_tellHost_shownTo members hd]
  refine (mem_present_send .lobby code (distinct_shownTo hd) ((hd code).filter _) _).trans ?_
  change x ∈ (shownTo code F f).lobby.present room ∧ _ ↔ _
  rw [mem_present_shownTo hd]
  by_cases hr : room = code
  · subst hr
    by_cases hx : x ∈ f.lobby.present room
    · cases hw : f.works x with
      | false => simp
      | true =>
        rw [works_shownTo hd hx hw]
        simp [hx, hw, failsToTell]
    · simp [hx]
  · simp [hr]

theorem isClosed_told {x : ConnId} (hx : x ∈ f.lobby.present code) :
    (told code members F f).isClosed x = (!f.works x || failsToTell members F f x) := by
  rw [told, run_tellHost_shownTo members hd, isClosed_send .lobby code (distinct_shownTo hd)
    ((hd code).filter _) fun _ h => mem_present_of_host members hd h, isClosed_shownTo hd hx]
  simp only [List.mem_filter, failsToTell]
  cases hw : f.works x with
  | false => simp
  | true =>
    rw [works_shownTo hd hx hw]
    cases isReadyHost members f x <;> cases (f.write x (.frame F)).2.works x <;> simp [hx]

/-- Whoever stays has received the room once, and one more frame if it was to be told. -/
theorem received_told {x : ConnId} (hx : x ∈ f.lobby.present code) (hw : f.works x = true)
    (hstays : failsToTell members F f x = false) :
    (told code members F f).received x = f.received x ++
      .frame F :: if tells members F f x then [.frame (allReadyFrame code)] else [] := by
  have hshown : (shownTo code F f).received x = f.received x ++ [.frame F] :=
    received_send_of_works .lobby code hd (hd code) (fun _ h => h) (.frame F) hx hw
  have hnext := works_shownTo (F := F) hd hx hw
  rw [told, run_tellHost_shownTo members hd]
  cases hr : isReadyHost members f x with
  | false =>
    have hnot : x ∉ (f.lobby.present code).filter fun id => isReadyHost members f id && f.works id :=
      by simp [hr]
    have hsame := (connection?_send .lobby code (distinct_shownTo (F := F) hd) ((hd code).filter _)
      (fun _ h => mem_present_of_host members hd h) (.frame (allReadyFrame code)) x).trans
      (if_neg hnot)
    rw [received_congr hsame, hshown]
    simp [tells, hr]
  | true =>
    have hsecond : (f.write x (.frame F)).2.works x = true := by simpa [failsToTell, hr] using hstays
    rw [received_send_of_works .lobby code (distinct_shownTo hd) ((hd code).filter _)
      (fun _ h => mem_present_of_host members hd h) _ (by simp [hx, hr, hw])
      (hnext.trans hsecond), hshown]
    simp [tells, hr, hsecond]

theorem user?_told (x : ConnId) : (told code members F f).user? x = f.user? x := by
  rw [told, run_tellHost_shownTo members hd, user?_send .lobby code (distinct_shownTo hd)
    ((hd code).filter _) fun _ h => mem_present_of_host members hd h]
  exact user?_broadcast .lobby code hd _ x

theorem connection?_told_of_not_mem {x : ConnId} (hx : x ∉ f.lobby.present code) :
    (told code members F f).connection? x = f.connection? x := by
  rw [told, run_tellHost_shownTo members hd, connection?_send .lobby code (distinct_shownTo hd)
    ((hd code).filter _) fun _ h => mem_present_of_host members hd h,
    if_neg fun h => hx (List.mem_filter.1 h).1]
  exact (connection?_broadcast .lobby code hd _ x).trans (if_neg hx)

theorem fst_tellHost :
    ((tellHost code (f.lobby.present code) members).run (shownTo code F f)).1 =
      (f.lobby.present code).countP fun id => f.works id && tells members F f id := by
  rw [run_tellHost_shownTo members hd, fst_send .lobby code ((hd code).filter _), List.countP_filter]
  refine List.countP_congr fun x hx => ?_
  cases hw : f.works x with
  | false => simp
  | true =>
    rw [works_shownTo hd hx hw]
    simp [tells, and_comm]

end

variable [RoomStore σ]

/-- What showing a room yields and leaves. Nothing is done if the store has no answer. -/
theorem run_showRoom (code : RoomCode) {f : Floor σ} (hd : f.lobby.Distinct) :
    (∃ room members, readRoom code f = .ok (room, members) ∧ (showRoom code).run f =
      (.ok ⟨(f.lobby.present code).countP f.works, (f.lobby.present code).countP fun id =>
          f.works id && tells members (statusFrame room code members) f id⟩,
        told code members (statusFrame room code members) f)) ∨
    (∃ e, readRoom code f = .error e ∧ ((showRoom code).run f).2 = f) := by
  rw [showRoom, run_monad_bind, run_look]
  cases hr : readRoom code f with
  | error e =>
    refine .inr ⟨e, rfl, ?_⟩
    split
    · rfl
    · rw [run_monad_bind, run_look, hr]
      rfl
  | ok answer =>
    refine .inl ⟨answer.1, answer.2, rfl, ?_⟩
    rw [← fst_tellHost answer.2 hd, ← fst_send .lobby code (hd code)
      (.frame (statusFrame answer.1 code answer.2)) f]
    split
    · rename_i hnil
      have hnil : f.lobby.present code = [] := List.isEmpty_iff.1 hnil
      simp only [told, shownTo, run_broadcast, attendance, hnil, send_nil, run_tellHost, List.filter_nil, run_pure]
    · rw [run_monad_bind, run_look, hr]
      simp only [run_monad_bind, run_pure]
      rfl

end Lobby

end Cardroom
