import Cardroom.Proofs.Floor.LobbyView
import Cardroom.Proofs.Floor.Presence

namespace Cardroom

variable {σ : Type}

open Script Floor

def Frame.isAllReady : Frame → Bool
  | .allReady .. => true
  | _ => false

def Frame.CallsFor (user : Option UserId) (F : Frame) : Prop :=
  ∃ room players maxPlayers, F = .roomStatus room players maxPlayers ∧ players ≠ [] ∧
    (∀ p ∈ players, p.isReady = true) ∧ ∃ p ∈ players, p.isHost = true ∧ user = some p.user

/-- Frames of a lobby only; directly before each call to a host stands the status that calls for the
user. -/
structure LobbyStream (user : Option UserId) (frames : List Frame) : Prop where
  kinds : ∀ F ∈ frames, F.side? = some .lobby
  called : ∀ older F newer, frames = older ++ F :: newer → F.isAllReady = true →
    ∃ S, older.getLast? = some S ∧ S.CallsFor user

namespace LobbyStream

variable {user : Option UserId} {frames more : List Frame} {F : Frame}

theorem nil (user : Option UserId) : LobbyStream user [] where
  kinds _ h := nomatch h
  called older F newer h := by simp at h

theorem append (h : LobbyStream user frames) (h' : LobbyStream user more) :
    LobbyStream user (frames ++ more) where
  kinds := List.forall_mem_append.2 ⟨h.kinds, h'.kinds⟩
  called older F newer e hF := by
    obtain ⟨l, rfl, e'⟩ | ⟨l, rfl, e'⟩ := List.append_eq_append_iff.1 e
    · obtain ⟨S, hS, hcalls⟩ := h'.called l F newer e' hF
      exact ⟨S, by rw [List.getLast?_append, hS]; rfl, hcalls⟩
    · cases l with
      | nil =>
        -- no stream starts with a call
        obtain ⟨S, hS, -⟩ := h'.called [] F newer e'.symm hF
        nomatch hS
      | cons G l =>
        obtain ⟨rfl, -⟩ := List.cons.inj e'
        exact h.called older F l rfl hF

theorem singleton (hF : F.side? = some .lobby) (hcall : F.isAllReady = false) :
    LobbyStream user [F] where
  kinds := List.forall_mem_singleton.2 hF
  called older G newer e hG := by
    match older, e with
    | [], e =>
      obtain ⟨rfl, -⟩ := List.cons.inj e
      exact absurd hG (Bool.eq_false_iff.1 hcall)
    | _ :: _, e => simp at e

theorem pair {S : Frame} (hS : S.CallsFor user) (hF : F.side? = some .lobby) :
    LobbyStream user [S, F] where
  kinds := by
    obtain ⟨room, players, maxPlayers, rfl, -⟩ := hS
    exact List.forall_mem_cons.2 ⟨rfl, List.forall_mem_singleton.2 hF⟩
  called older G newer e hG := by
    match older, e with
    | [], e =>
      obtain ⟨rfl, -⟩ := List.cons.inj e
      obtain ⟨room, players, maxPlayers, rfl, -⟩ := hS
      nomatch hG
    | [T], e =>
      obtain ⟨rfl, -⟩ := List.cons.inj e
      exact ⟨S, rfl, hS⟩
    | _ :: _ :: _, e => simp at e

theorem not_playerOrder (h : LobbyStream user frames) (order : List PlayerEntry) :
    .playerOrder order ∉ frames := fun hF => nomatch h.kinds _ hF

end LobbyStream

namespace Lobby

variable {code : RoomCode} {members : List Member} {f : Floor σ}

theorem callsFor_statusFrame (room : Room) {x : ConnId} (h : isReadyHost members f x = true) :
    (statusFrame room code members).CallsFor (f.user? x) := by
  obtain ⟨host, hhost, hx⟩ := (Option.any_eq_true _ _).1 h
  obtain ⟨hne, hready, m, hm, rfl⟩ := readyHost?_eq_some hhost
  refine ⟨_, _, _, rfl, fun e => hne (List.map_eq_nil_iff.1 e), ?_, entry m, ?_, ?_, ?_⟩
  · exact List.forall_mem_map.2 hready
  · exact List.mem_map_of_mem (List.mem_of_find?_eq_some hm)
  · have hm : m.isHost = true := List.find?_some hm
    exact hm
  · exact of_decide_eq_true hx

theorem lobbyStream_news (room : Room) (f : Floor σ) (x : ConnId) :
    LobbyStream (f.user? x) (news code members (statusFrame room code members) f x) := by
  unfold news
  split
  · split
    · rename_i h
      rw [tells, Bool.and_eq_true] at h
      exact .pair (callsFor_statusFrame room h.1) rfl
    · exact .singleton rfl rfl
  · exact .nil _

end Lobby

namespace LobbyAct

variable [RoomStore σ]

/-- An act of the lobby ends with showing a room or announcing a game, if that comes to be at all. -/
theorem run_cases {f : Floor σ} (hd : f.lobby.Distinct) (a : LobbyAct) :
    ∃ g, Silent f g ∧ g.lobby.Distinct ∧ ((a.script.run f).2 = g ∨
      (∃ code, (a.script.run f).2 = ((Lobby.refresh code).run g).2) ∨
      ∃ code game, (a.script.run f).2 = ((Lobby.announceGame code game).run g).2) := by
  have hready : ∀ code user ready, Silent f (Lobby.setReady code user ready f).2 ∧
      (Lobby.setReady code user ready f).2.lobby.Distinct := fun code user ready => by
    obtain ⟨s, e⟩ := Lobby.setReady_eq code user ready f
    rw [e]
    exact ⟨.of_same fun _ => rfl, hd⟩
  cases a with
  | enters code id =>
    refine ⟨Delivery.enter .lobby code id f, ?_, hd.enter code id, .inr (.inl ⟨code, rfl⟩)⟩
    exact .of_same fun x => connection?_setAttendance ..
  | leaves code id =>
    have hout : ∀ {g : Floor σ}, Silent f g → g.lobby.Distinct →
        Silent f ((Delivery.unregister .lobby code id).run g).2 ∧
          ((Delivery.unregister .lobby code id).run g).2.lobby.Distinct := fun {g} hg hd =>
      ⟨Silent.steps.trans hg (.of_same fun x => Delivery.connection?_unregister ..),
        (OnSide.unregister .lobby hd code id).distinct⟩
    rw [script, Lobby.leave, run_monad_bind, run_look]
    cases f.user? id with
    | none =>
      obtain ⟨hsilent, hdistinct⟩ := hout (Silent.steps.refl f) hd
      exact ⟨_, hsilent, hdistinct, .inr (.inl ⟨code, by rw [run_monad_bind, run_discard]⟩)⟩
    | some user =>
      obtain ⟨hsilent, hdistinct⟩ := hout (hready code user false).1 (hready code user false).2
      refine ⟨_, hsilent, hdistinct, .inr (.inl ⟨code, ?_⟩)⟩
      simp only [run_monad_bind, run_discard, run_update]
  | receives code user raw =>
    rw [script, run_discard]
    unfold Lobby.receive
    split
    · exact ⟨f, Silent.steps.refl f, hd, .inl rfl⟩
    · rename_i update _
      obtain ⟨hsilent, hdistinct⟩ := hready code user update.isReady
      refine ⟨_, hsilent, hdistinct, ?_⟩
      rw [run_monad_bind, run_update]
      split
      · exact .inl rfl
      · exact .inr (.inl ⟨code, by rw [run_monad_bind, run_pure]⟩)
  | roomChanged code => exact ⟨f, Silent.steps.refl f, hd, .inr (.inl ⟨code, rfl⟩)⟩
  | gameStarted code game =>
    refine ⟨f, Silent.steps.refl f, hd, .inr (.inr ⟨code, game, ?_⟩)⟩
    rw [script, Door.gameStarted, run_discard]
  | userLeft code user =>
    refine ⟨_, .of_only (Delivery.only_closeUser .lobby code user) f,
      (OnSide.closeUser .lobby hd code user).distinct, .inr (.inl ⟨code, ?_⟩)⟩
    rw [script, Door.userLeft, run_monad_bind, run_discard, Lobby.closeUser]

theorem hears {f : Floor σ} (hd : f.lobby.Distinct) (a : LobbyAct) (x : ConnId) :
    (a.script.run f).2.user? x = f.user? x ∧ ∃ news,
      (a.script.run f).2.frames x = f.frames x ++ news ∧ LobbyStream (f.user? x) news := by
  obtain ⟨g, hsilent, hdistinct, hrun⟩ := run_cases hd a
  obtain ⟨huser, hframes⟩ := hsilent x
  rw [← huser, ← hframes]
  obtain e | ⟨code, e⟩ | ⟨code, game, e⟩ := hrun
  · rw [e]
    exact ⟨rfl, [], (List.append_nil _).symm, .nil _⟩
  · rw [e, Lobby.refresh, run_discard]
    obtain ⟨room, members, -, e⟩ | ⟨_, -, e⟩ := Lobby.run_showRoom code hdistinct
    · rw [e]
      exact ⟨Lobby.user?_told members hdistinct x, _, Lobby.frames_told members hdistinct x,
        Lobby.lobbyStream_news room g x⟩
    · rw [e]
      exact ⟨rfl, [], (List.append_nil _).symm, .nil _⟩
  · rw [e, Lobby.announceGame]
    refine ⟨Delivery.user?_broadcast .lobby code hdistinct _ x, ?_⟩
    rw [Delivery.frames_broadcast .lobby code hdistinct]
    split
    · exact ⟨_, rfl, .singleton rfl rfl⟩
    · exact ⟨[], (List.append_nil _).symm, .nil _⟩

end LobbyAct

namespace Lobby

variable {code : RoomCode} {members : List Member} {room : Room} {f : Floor σ}

theorem countP_flatMap_eq {α β : Type} {l : List α} {w : α → List β} {q : β → Bool} {p : α → Bool}
    (h : ∀ x ∈ l, (w x).countP q = if p x then 1 else 0) :
    (l.flatMap w).countP q = l.countP p := by
  induction l with
  | nil => rfl
  | cons x l ih =>
    obtain ⟨hx, hl⟩ := List.forall_mem_cons.1 h
    rw [List.flatMap_cons, List.countP_append, ih hl, hx, List.countP_cons, Nat.add_comm]

theorem countP_isRoomStatus_news (room : Room) {x : ConnId} (hx : x ∈ f.lobby.present code) :
    (news code members (statusFrame room code members) f x).countP Frame.isRoomStatus =
      if f.works x then 1 else 0 := by
  unfold news
  cases f.works x with
  | false => simp
  | true =>
    rw [if_pos ⟨hx, rfl⟩, if_pos rfl]
    split <;> rfl

theorem countP_isAllReady_news (room : Room) {x : ConnId} (hx : x ∈ f.lobby.present code) :
    (news code members (statusFrame room code members) f x).countP Frame.isAllReady =
      if f.works x && tells members (statusFrame room code members) f x then 1 else 0 := by
  unfold news
  cases f.works x with
  | false => simp
  | true =>
    rw [if_pos ⟨hx, rfl⟩, Bool.true_and]
    split <;> rfl

variable [RoomStore σ]

def heard (code : RoomCode) (f : Floor σ) (x : ConnId) : List Frame :=
  (((showRoom code).run f).2.frames x).drop (f.frames x).length

/-- The room is shown to those in the lobby and nobody else, and if all are ready, every connection
of the host that has been shown the room, and on which the next write works, is told so once. What
is returned are the numbers of the frames that have arrived. -/
structure RoomShown (code : RoomCode) (room : Room) (members : List Member) (f : Floor σ) :
    Prop where
  counts : ((showRoom code).run f).1 =
    .ok ⟨((f.lobby.present code).flatMap (heard code f)).countP Frame.isRoomStatus,
      ((f.lobby.present code).flatMap (heard code f)).countP Frame.isAllReady⟩
  others : ∀ x, x ∉ f.lobby.present code → heard code f x = []
  hosts : members ≠ [] → (∀ m ∈ members, m.isReady = true) →
    ∀ host, members.find? (·.isHost) = some host → ∀ x ∈ f.lobby.present code,
      f.user? x = some host.user → f.works x = true →
      (f.write x (.frame (statusFrame room code members))).2.works x = true →
      heard code f x = [statusFrame room code members, allReadyFrame code]

theorem roomShown (hd : f.lobby.Distinct) (hread : readRoom code f = .ok (room, members)) :
    RoomShown code room members f := by
  obtain ⟨r, ms, hr, e⟩ | ⟨_, he, -⟩ := run_showRoom code hd
  · cases hread.symm.trans hr
    have hnews : heard code f = news code members (statusFrame room code members) f := by
      funext x
      rw [heard, e, frames_told members hd, List.drop_left]
    refine ⟨?_, fun x hx => ?_, fun hne hready host hfind x hx huser hw hnext => ?_⟩
    · rw [e, hnews]
      refine congrArg Except.ok (congrArg₂ Shown.mk ?_ ?_)
      · exact (countP_flatMap_eq fun x hx => countP_isRoomStatus_news room hx).symm
      · exact (countP_flatMap_eq fun x hx => countP_isAllReady_news room hx).symm
    · rw [hnews, news, if_neg fun h => hx h.1]
    · have hhost : readyHost? members = some host.user := by
        have hall : (!members.isEmpty && members.all (·.isReady)) = true := by
          rw [Bool.and_eq_true, Bool.not_eq_true', List.isEmpty_eq_false_iff, List.all_eq_true]
          exact ⟨hne, hready⟩
        rw [readyHost?, if_pos hall, hfind, Option.map_some]
      have htells : tells members (statusFrame room code members) f x = true := by
        simp [tells, isReadyHost, hhost, huser, hnext]
      rw [hnews, news, if_pos ⟨hx, hw⟩, if_pos htells]
  · cases hread.symm.trans he

end Lobby

end Cardroom
