import Cardroom.Proofs.Floor.Admission
import Cardroom.Proofs.Floor.Run
import Cardroom.Proofs.Store.Edits

namespace Cardroom

variable {α : Type}

open Script Floor

def Frame.isRoomStatus : Frame → Bool
  | .roomStatus .. => true
  | _ => false

theorem Frame.isRoomStatus_of_side? {F : Frame} (h : F.side? ≠ some .lobby) :
    F.isRoomStatus = false := by
  cases F with
  | roomStatus room players maxPlayers => exact absurd rfl h
  | _ => rfl

namespace RoomEntry

/-- A room as its lobby is to be shown it: everyone once, the host first and the others in the order
of joining. -/
def shown (e : RoomEntry) (code : RoomCode) : Frame :=
  .roomStatus code.text
    ((e.joined.filter (fun m => m.user = e.room.owner) ++
      e.joined.filter (fun m => m.user ≠ e.room.owner)).map fun m =>
        ⟨m.user, m.name, m.isReady, m.user = e.room.owner, false⟩)
    e.room.maxPlayers

theorem statusFrame_members (e : RoomEntry) (code : RoomCode) :
    Lobby.statusFrame e.room code e.members = e.shown code := by
  simp [Lobby.statusFrame, shown, members, List.filter_map, Function.comp_def, member, Lobby.entry]

end RoomEntry

namespace Lobby

variable {f : Floor Rooms} {code : RoomCode}

theorem readRoom_of_some {e : RoomEntry} (h : f.store.entry? code = some e) :
    readRoom code f = .ok (e.room, e.members) := by
  simp [readRoom, RoomStore.room, RoomStore.members, Rooms.members, h]

theorem readRoom_of_none (h : f.store.entry? code = none) :
    readRoom code f = .error (.notFound code) := by
  simp [readRoom, RoomStore.room, h]

/-- A room is shown if somebody is there to see it and the store has it. -/
theorem refresh_cases (code : RoomCode) (f : Floor Rooms) :
    (((refresh code).run f).2 = f ∧
      (f.lobby.present code = [] ∨ f.store.entry? code = none)) ∨
    (∃ e, f.store.entry? code = some e ∧ ((refresh code).run f).2 =
      ((tellHost code (f.lobby.present code) e.members).run ((Delivery.send .lobby code
        (f.lobby.present code) (.frame (e.shown code))).run f).2).2) := by
  rw [refresh, run_discard, showRoom, run_monad_bind, run_look]
  cases hp : (f.lobby.present code).isEmpty with
  | true =>
    exact .inl ⟨rfl, .inl (List.isEmpty_iff.1 hp)⟩
  | false =>
    simp only [Bool.false_eq_true, if_false]
    rw [run_monad_bind, run_look]
    cases he : f.store.entry? code with
    | none =>
      rw [readRoom_of_none he]
      exact .inl ⟨rfl, .inr rfl⟩
    | some e =>
      rw [readRoom_of_some he]
      refine .inr ⟨e, rfl, ?_⟩
      simp only [RoomEntry.statusFrame_members, run_monad_bind, run_pure]

end Lobby

namespace Floor

variable {f g : Floor Rooms} {code : RoomCode} {ids : List ConnId}

/-- Everyone in the lobby of a room that the store has was last shown the room as it is. -/
def RoomShown (f : Floor Rooms) (code : RoomCode) : Prop :=
  ∀ e, f.store.entry? code = some e → ∀ id ∈ f.lobby.present code,
    f.lastFrame? Frame.isRoomStatus id = some (e.shown code)

def LobbiesShown (f : Floor Rooms) : Prop := ∀ code, f.RoomShown code

theorem lobbiesShown_new (config : Config) (secret : String) (store : Rooms)
    (entropy : Random.Source) : (new config secret store entropy).LobbiesShown :=
  fun _ _ _ _ h => nomatch h

structure Apart (code : RoomCode) (f g : Floor Rooms) : Prop where
  present : ∀ other, other ≠ code → (g.lobby.present other).Sublist (f.lobby.present other)
  last : ∀ id, g.lastFrame? Frame.isRoomStatus id = f.lastFrame? Frame.isRoomStatus id
  entry : ∀ other, other ≠ code → g.store.entry? other = f.store.entry? other

namespace Apart

theorem trans {k : Floor Rooms} (h : Apart code f g) (h' : Apart code g k) : Apart code f k :=
  ⟨fun other hne => (h'.present other hne).trans (h.present other hne),
    fun id => (h'.last id).trans (h.last id),
    fun other hne => (h'.entry other hne).trans (h.entry other hne)⟩

theorem quiet (hq : Quiet .lobby Frame.isRoomStatus f g) (hs : Same Floor.store f g) :
    Apart code f g :=
  ⟨fun other _ => hq.shrink other, hq.last, fun other _ => congrArg (Rooms.entry? · other) hs⟩

theorem roomShown (h : Apart code f g) {other : RoomCode} (hne : other ≠ code)
    (hf : f.RoomShown other) : g.RoomShown other := by
  intro e he id hid
  rw [h.entry other hne] at he
  rw [h.last]
  exact hf e he id ((h.present other hne).subset hid)

end Apart

namespace LobbiesShown

theorem quiet (h : f.LobbiesShown) (hq : Quiet .lobby Frame.isRoomStatus f g)
    (hs : Same Floor.store f g) : Settled .lobby LobbiesShown f g := by
  refine ⟨hq.shrink, fun code e he id hid => ?_⟩
  have he' : f.store.entry? code = some e := hs ▸ he
  exact (hq.last id).trans (h code e he' id ((hq.shrink code).subset hid))

theorem only (h : f.LobbiesShown) {on : Side} {K : Frame → Prop}
    (hK : ∀ F, K F → F.isRoomStatus = false) {s : Script Rooms α} (hs : Delivery.Only on K s) :
    Settled .lobby LobbiesShown f (s.run f).2 :=
  h.quiet (hs.quiet hK f)
    (hs.same (fun _ _ => rfl) (fun _ _ => by cases on <;> rfl) (fun _ _ => rfl) f)

end LobbiesShown

theorem settled_send (hx : ∀ other, other ≠ code → g.RoomShown other)
    (ha : Admitted .lobby ids g) {e : RoomEntry} (he : g.store.entry? code = some e) :
    Settled .lobby LobbiesShown g
      ((Delivery.send .lobby code (g.lobby.present code) (.frame (e.shown code))).run g).2 := by
  have hk : Told .lobby Frame.isRoomStatus code (e.shown code) g
      ((Delivery.send .lobby code (g.lobby.present code) (.frame (e.shown code))).run g).2 :=
    Delivery.told_send rfl ha.distinct code
  have hsend : Delivery.Only (σ := Rooms) .lobby (fun _ => True) (Delivery.send .lobby code
      (g.lobby.present code) (.frame (e.shown code))) :=
    fun _ h => Delivery.within_send h trivial code _
  have hs : Same Floor.store g ((Delivery.send .lobby code (g.lobby.present code)
      (.frame (e.shown code))).run g).2 :=
    hsend.same (fun _ _ => rfl) (fun _ _ => rfl) (fun _ _ => rfl) g
  refine ⟨hk.shrink, fun other e' he' id hid => ?_⟩
  rw [show _ = g.store from hs] at he'
  by_cases ho : other = code
  · subst ho
    rw [he] at he'
    cases he'
    exact hk.here id hid
  · have hin : id ∈ g.lobby.present other := (hk.shrink other).subset hid
    -- who attends another room is not shown this one
    have hout : id ∉ g.lobby.present code := fun e => ho (ha.single other code id hin e)
    exact (hk.elsewhere id hout).trans (hx other ho e' he' id hin)

/-- Showing a room makes up for what has changed about it. -/
theorem settled_refresh (h : f.LobbiesShown) (hx : Apart code f g) (ha : Admitted .lobby ids g) :
    Settled .lobby LobbiesShown g ((Lobby.refresh code).run g).2 := by
  obtain ⟨e, hnone⟩ | ⟨e, he, erun⟩ := Lobby.refresh_cases code g
  · rw [e]
    refine .refl fun other => ?_
    by_cases ho : other = code
    · subst ho
      intro e he id hid
      obtain hp | hn := hnone
      · rw [hp] at hid
        nomatch hid
      · rw [hn] at he
        cases he
    · exact hx.roomShown ho (h other)
  · rw [erun]
    have hk := settled_send (fun other ho => hx.roomShown ho (h other)) ha he
    exact hk.trans (hk.holds.only (K := fun F => F.isRoomStatus = false) (fun _ hF => hF)
      fun _ h => Lobby.within_tellHost h code rfl _ _)

/-! ### Acts that leave the lobbies and the store alone -/

theorem same_store_tableside : Tableside.Allowed (Same (σ := Rooms) Floor.store) :=
  Tableside.same (fun _ _ => rfl) (fun _ _ => rfl) (fun _ _ => rfl) fun _ _ _ => rfl

namespace LobbiesShown

theorem client (h : f.LobbiesShown) (a : ClientAct) :
    Settled .lobby LobbiesShown f (f.perform (.client a)) :=
  h.quiet
    ((a.within (ClientAct.quiet fun _ hF => Frame.isRoomStatus_of_side? (by simp [hF]))).run
      Quiet.steps f)
    ((a.within (ClientAct.same fun _ _ => rfl)).run (Same.steps _) f)

theorem table (h : f.LobbiesShown) (a : TableAct) :
    Settled .lobby LobbiesShown f (f.perform (.table a)) :=
  h.quiet
    ((a.within (Tableside.quiet fun _ hF => Frame.isRoomStatus_of_side? (by simp [hF]))).run
      Quiet.steps f)
    ((a.within same_store_tableside).run (Same.steps _) f)

theorem roomClosed (h : f.LobbiesShown) (code : RoomCode) :
    Settled .lobby LobbiesShown f (f.perform (.roomClosed code)) := by
  have hlobby := h.only (fun _ hF => hF.elim) (Delivery.only_dropRoom .lobby code)
  rw [perform, Act.script, Door.roomClosed, run_monad_bind, run_discard, Lobby.closeRoom]
  exact hlobby.trans (hlobby.holds.table (.closes code))

theorem gameStarted (h : f.LobbiesShown) (code : RoomCode) (game : Int) :
    Settled .lobby LobbiesShown f (f.perform (.lobby (.gameStarted code game))) :=
  h.only (K := fun F => F.isRoomStatus = false) (fun _ hF => hF)
    fun _ h => (Lobby.within_announceGame h code game rfl).discard

end LobbiesShown

/-! ### Acts that show a room -/

namespace Apart

theorem refl (code : RoomCode) (f : Floor Rooms) : Apart code f f :=
  ⟨fun _ _ => List.Sublist.refl _, fun _ => rfl, fun _ _ => rfl⟩

theorem store {s : Rooms} (h : ∀ other, other ≠ code → s.entry? other = f.store.entry? other) :
    Apart code f { f with store := s } :=
  ⟨fun _ _ => List.Sublist.refl _, fun id => lastFrame?_congr rfl _ id, h⟩

theorem edit (f : Floor Rooms) (e : Edit) : Apart e.code f { f with store := e.apply f.store } :=
  store fun _ hne => Edit.entry?_apply e hne

theorem setReady (f : Floor Rooms) (code : RoomCode) (user : UserId) (ready : Bool) :
    Apart code f (Lobby.setReady code user ready f).2 := by
  unfold Lobby.setReady
  cases h : RoomStore.setReady f.store code user ready with
  | error e => exact refl code f
  | ok s => exact store fun other hne => (Rooms.entry?_of_update h other).trans (if_neg hne)

theorem enter (f : Floor Rooms) (code : RoomCode) (id : ConnId) :
    Apart code f (Delivery.enter .lobby code id f) := by
  refine ⟨fun other hne => ?_, fun x => lastFrame?_congr rfl _ x, fun _ _ => rfl⟩
  change ((f.lobby.enter code id).present other).Sublist _
  rw [Attendance.present_enter, if_neg fun e => hne e.1]

end Apart

theorem lobby_setReady (f : Floor Rooms) (code : RoomCode) (user : UserId) (ready : Bool) :
    (Lobby.setReady code user ready f).2.lobby = f.lobby := by
  obtain ⟨s, e⟩ := Lobby.setReady_eq code user ready f
  rw [e]

/-- What is left to do when a connection leaves a lobby: the room is shown as it is without it. -/
theorem run_leave (code : RoomCode) (id : ConnId) (f : Floor Rooms) :
    ∃ g, Apart code f g ∧ (∀ room, (g.lobby.present room).Sublist (f.lobby.present room)) ∧
      ((Lobby.leave code id).run f).2 = ((Lobby.refresh code).run g).2 := by
  have hout : ∀ k : Floor Rooms, Apart code f k → k.lobby = f.lobby →
      ∃ g, Apart code f g ∧ (∀ room, (g.lobby.present room).Sublist (f.lobby.present room)) ∧
        ((do
          discard (Delivery.unregister .lobby code id)
          Lobby.refresh code : Script Rooms Unit).run k).2 = ((Lobby.refresh code).run g).2 := by
    intro k hk hl
    have hq : Quiet .lobby Frame.isRoomStatus k (k.setAttendance .lobby (k.lobby.leave code id)) :=
      .setAttendance fun _ => Attendance.present_leave_sublist ..
    refine ⟨_, hk.trans (.quiet hq rfl), fun room => hl ▸ hq.shrink room, ?_⟩
    rw [run_monad_bind, run_discard]
    rfl
  rw [Lobby.leave, run_monad_bind, run_look]
  cases f.user? id with
  | none => exact hout f (.refl code f) rfl
  | some user =>
    rw [run_monad_bind, run_discard]
    exact hout _ (.setReady f code user false) (lobby_setReady f code user false)

theorem run_receive (code : RoomCode) (user : UserId) (raw : String) (f : Floor Rooms) :
    ((Lobby.receive code user raw).run f).2 = f ∨
    (∃ g, Apart code f g ∧ g.lobby = f.lobby ∧
      ((Lobby.receive code user raw).run f).2 = ((Lobby.refresh code).run g).2) := by
  unfold Lobby.receive
  cases ReadyUpdate.parse raw with
  | error reason => exact .inl rfl
  | ok update =>
    simp only
    rw [run_monad_bind, run_update]
    have hx := Apart.setReady f code user update.isReady
    have hl := lobby_setReady f code user update.isReady
    unfold Lobby.setReady at hx hl ⊢
    cases h : RoomStore.setReady f.store code user update.isReady with
    | error e => exact .inl rfl
    | ok s =>
      rw [h] at hx hl
      exact .inr ⟨_, hx, hl, by rw [run_monad_bind]; rfl⟩

namespace LobbiesShown

theorem refresh (h : f.LobbiesShown) (hx : Apart code f g) (ha : Admitted .lobby ids f)
    (hs : ∀ room, (g.lobby.present room).Sublist (f.lobby.present room)) :
    Settled .lobby LobbiesShown f ((Lobby.refresh code).run g).2 :=
  .of_shrink hs (settled_refresh h hx (ha.shrink hs))

theorem leave (h : f.LobbiesShown) (ha : Admitted .lobby ids f) (code : RoomCode) (id : ConnId) :
    Settled .lobby LobbiesShown f (f.perform (.lobby (.leaves code id))) := by
  obtain ⟨g, hx, hs, e⟩ := run_leave code id f
  rw [perform, Act.script, LobbyAct.script, e]
  exact h.refresh hx ha hs

theorem receive (h : f.LobbiesShown) (ha : Admitted .lobby ids f) (code : RoomCode) (user : UserId)
    (raw : String) :
    Settled .lobby LobbiesShown f (f.perform (.lobby (.receives code user raw))) := by
  rw [perform, Act.script, LobbyAct.script, run_discard]
  obtain e | ⟨g, hx, hl, e⟩ := run_receive code user raw f
  · rw [e]
    exact .refl h
  · rw [e]
    exact h.refresh hx ha fun room => by rw [hl]

theorem roomChanged (h : f.LobbiesShown) (ha : Admitted .lobby ids f) (hx : Apart code f g)
    (hl : g.lobby = f.lobby) :
    Settled .lobby LobbiesShown f (g.perform (.lobby (.roomChanged code))) :=
  h.refresh hx ha fun room => by rw [hl]

theorem userLeft (h : f.LobbiesShown) (ha : Admitted .lobby ids f) (hx : Apart code f g)
    (hl : g.lobby = f.lobby) (user : UserId) :
    Settled .lobby LobbiesShown f (g.perform (.lobby (.userLeft code user))) := by
  have hclose := Delivery.only_closeUser (σ := Rooms) .lobby code user
  have hq : Quiet .lobby Frame.isRoomStatus g ((Delivery.closeUser .lobby code user).run g).2 :=
    hclose.quiet_of_silent g
  have hs : Same Floor.store g ((Delivery.closeUser .lobby code user).run g).2 :=
    hclose.same (fun _ _ => rfl) (fun _ _ => rfl) (fun _ _ => rfl) g
  rw [perform, Act.script, LobbyAct.script, Door.userLeft, run_monad_bind, run_discard,
    Lobby.closeUser]
  exact h.refresh (hx.trans (.quiet hq hs)) ha fun room => hl ▸ hq.shrink room

end LobbiesShown

theorem shown_enter (h : f.LobbiesShown) (ha : Admitted .lobby ids f) (code : RoomCode)
    {id : ConnId} (hid : id ∉ ids) :
    Admitted .lobby (ids ++ [id]) (f.perform (.lobby (.enters code id))) ∧
      (f.perform (.lobby (.enters code id))).LobbiesShown := by
  have ha' := ha.enter code hid
  have hg := settled_refresh h (.enter f code id) ha'
  rw [perform, Act.script, LobbyAct.script, Lobby.enter, run_monad_bind, run_change]
  exact ⟨ha'.shrink hg.shrink, hg.holds⟩

end Floor

/-! ### Runs -/

/-- What can happen when the store is changed from outside only together with telling the lobby. -/
inductive LobbyStep where
  | client (a : ClientAct)
  | lobby (a : LobbyAct)
  | table (a : TableAct)
  | roomClosed (code : RoomCode)
  | changed (e : Edit)
  /-- A change by which a user leaves, and the lobby of that room is told. -/
  | left (e : Edit) (user : UserId)

namespace LobbyStep

def acts : LobbyStep → List (Act Rooms)
  | client a => [.client a]
  | lobby a => [.lobby a]
  | table a => [.table a]
  | roomClosed code => [.roomClosed code]
  | changed e => [.edits e.apply, .lobby (.roomChanged e.code)]
  | left e user => [.edits e.apply, .lobby (.userLeft e.code user)]

def entered? : LobbyStep → Option ConnId
  | lobby (.enters _ id) => some id
  | _ => none

end LobbyStep

namespace Floor

variable {f : Floor Rooms} {ids : List ConnId}

/-- One step: who sees the rooms before it sees them after it. -/
theorem shown_step (h : f.LobbiesShown) (ha : Admitted .lobby ids f) (s : LobbyStep)
    (hn : (ids ++ s.entered?.toList).Nodup) :
    Admitted .lobby (ids ++ s.entered?.toList) (f.after s.acts) ∧
      (f.after s.acts).LobbiesShown := by
  have hsettled : ∀ {g : Floor Rooms} (more : List ConnId), Settled .lobby LobbiesShown f g →
      Admitted .lobby (ids ++ more) g ∧ g.LobbiesShown :=
    fun more hg => ⟨(ha.shrink hg.shrink).append more, hg.holds⟩
  cases s with
  | client a => exact hsettled _ (h.client a)
  | table a => exact hsettled _ (h.table a)
  | roomClosed code => exact hsettled _ (h.roomClosed code)
  | changed e => exact hsettled _ (h.roomChanged ha (.edit f e) rfl)
  | left e user => exact hsettled _ (h.userLeft ha (.edit f e) rfl user)
  | lobby a =>
    cases a with
    | enters code id =>
      have hid : id ∉ ids := fun e =>
        (List.nodup_append.1 hn).2.2 id e id (by simp [LobbyStep.entered?]) rfl
      exact shown_enter h ha code hid
    | leaves code id => exact hsettled _ (h.leave ha code id)
    | receives code user raw => exact hsettled _ (h.receive ha code user raw)
    | roomChanged code => exact hsettled _ (h.roomChanged ha (.refl code f) rfl)
    | gameStarted code game => exact hsettled _ (h.gameStarted code game)
    | userLeft code user => exact hsettled _ (h.userLeft ha (.refl code f) rfl user)

theorem shown_steps (h : f.LobbiesShown) (ha : Admitted .lobby ids f) (steps : List LobbyStep)
    (hn : (ids ++ steps.filterMap LobbyStep.entered?).Nodup) :
    (f.after (steps.flatMap LobbyStep.acts)).LobbiesShown := by
  induction steps generalizing f ids with
  | nil => exact h
  | cons s steps ih =>
    have hids : (s :: steps).filterMap LobbyStep.entered? =
        s.entered?.toList ++ steps.filterMap LobbyStep.entered? := by
      rw [List.filterMap_cons]
      cases s.entered? <;> rfl
    rw [hids, ← List.append_assoc] at hn
    rw [List.flatMap_cons, after_append]
    obtain ⟨ha', h'⟩ := shown_step h ha s (hn.sublist (List.sublist_append_left ..))
    exact ih h' ha' hn

/-! ### Members -/

def KeepsDistinct (f g : Floor Rooms) : Prop := f.store.Distinct → g.store.Distinct

namespace KeepsDistinct

theorem steps : Steps KeepsDistinct where
  refl _ h := h
  trans h h' hf := h' (h hf)

theorem of_same {f g : Floor Rooms} (h : Same Floor.store f g) : KeepsDistinct f g :=
  fun hf => by rwa [show g.store = f.store from h]

theorem lobby : Lobby.Allowed KeepsDistinct where
  toSteps := steps
  write f id F _ := by
    obtain ⟨c, e⟩ := write_eq f id (.frame F)
    rw [e]
    exact of_same rfl
  close _ _ := of_same rfl
  shrink _ _ _ := of_same rfl
  count _ _ _ := of_same rfl
  enter _ _ _ := of_same rfl
  ready f code user ready := by
    unfold Lobby.setReady
    cases h : RoomStore.setReady f.store code user ready with
    | error e => exact steps.refl f
    | ok s => exact fun hf => hf.update h fun _ hr => hr.setReady user ready

theorem perform (f : Floor Rooms) {a : Act Rooms} (ha : ∀ change, a ≠ .edits change) :
    KeepsDistinct f (f.perform a) := by
  cases a with
  | edits change => exact absurd rfl (ha change)
  | client a => exact of_same ((a.within (ClientAct.same fun _ _ => rfl)).run (Same.steps _) f)
  | lobby a => exact (a.within lobby).run steps f
  | table a => exact of_same ((a.within same_store_tableside).run (Same.steps _) f)
  | roomClosed code =>
    have h : (Door.roomClosed (σ := Rooms) code).Within (Same Floor.store) :=
      (Delivery.only_dropRoom .lobby code _ (Delivery.same _ (fun _ _ => rfl) (fun _ _ => rfl)
        fun _ _ => rfl)).discard.monad_bind
        fun _ => Tableside.within_closeRoom same_store_tableside code
    exact of_same (h.run (Same.steps _) f)

theorem edit (f : Floor Rooms) (e : Edit) : KeepsDistinct f (f.perform (.edits e.apply)) :=
  fun hf => Edit.distinct_apply hf e

theorem step (f : Floor Rooms) (s : LobbyStep) : KeepsDistinct f (f.after s.acts) := by
  cases s with
  | changed e => exact steps.trans (edit f e) (perform _ fun _ h => nomatch h)
  | left e user => exact steps.trans (edit f e) (perform _ fun _ h => nomatch h)
  | _ => exact perform f fun _ h => nomatch h

end KeepsDistinct

theorem distinct_steps (h : f.store.Distinct) (steps : List LobbyStep) :
    (f.after (steps.flatMap LobbyStep.acts)).store.Distinct := by
  induction steps generalizing f with
  | nil => exact h
  | cons s steps ih =>
    rw [List.flatMap_cons, after_append]
    exact ih (KeepsDistinct.step f s h)

/-- When no connection enters a lobby twice, everyone in the lobby of a room that the store has was
last shown the room as it is, each member once. -/
theorem lobbies_shown (config : Config) (secret : String) {store : Rooms} (hs : store.Distinct)
    (entropy : Random.Source) (steps : List LobbyStep)
    (hn : (steps.filterMap LobbyStep.entered?).Nodup) {code : RoomCode} {e : RoomEntry}
    (he : ((new config secret store entropy).after
      (steps.flatMap LobbyStep.acts)).store.entry? code = some e) :
    e.Distinct ∧
    ∀ id ∈ ((new config secret store entropy).after
        (steps.flatMap LobbyStep.acts)).lobby.present code,
      ((new config secret store entropy).after (steps.flatMap LobbyStep.acts)).lastFrame?
        Frame.isRoomStatus id = some (e.shown code) := by
  have hshown := shown_steps (lobbiesShown_new config secret store entropy) (Admitted.new ..)
    steps hn
  exact ⟨distinct_steps hs steps code e he, hshown code e he⟩

def parlourSteps : List LobbyStep :=
  [.client (.opens 0 1 (.steady (.takes 0))), .lobby (.enters parlourRoom 0),
    .changed (.addMember parlourRoom 2 "Bo")]

theorem lobbies_shown_parlour : parlour.store.Distinct ∧
    (parlourSteps.filterMap LobbyStep.entered?).Nodup ∧
    (parlour.after (parlourSteps.flatMap LobbyStep.acts)).lastFrame? Frame.isRoomStatus 0 =
      some (.roomStatus "7" [⟨1, "Ann", false, true, false⟩, ⟨2, "Bo", false, false, false⟩]
        6) := by
  have hs : parlour.store.Distinct := by
    intro code e he
    change (KeyMap.insert .empty parlourRoom _).get? code = some e at he
    rw [KeyMap.get?_insert] at he
    split at he
    · cases he
      exact List.nodup_singleton 1
    · cases he
  have he : (parlour.after (parlourSteps.flatMap LobbyStep.acts)).store.entry? parlourRoom =
      some ⟨⟨parlourRoom, .waiting, 6, 1⟩, [⟨1, "Ann", false⟩, ⟨2, "Bo", false⟩]⟩ := by
    decide +kernel
  have hin : 0 ∈
      (parlour.after (parlourSteps.flatMap LobbyStep.acts)).lobby.present parlourRoom := by
    decide +kernel
  exact ⟨hs, by decide, (lobbies_shown _ _ hs _ parlourSteps (by decide) he).2 0 hin⟩

end Floor

end Cardroom
