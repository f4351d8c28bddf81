import Cardroom.Proofs.Floor.Dealing
import Cardroom.Proofs.Floor.LobbyView
import Cardroom.Proofs.Floor.Moments
import Cardroom.Proofs.Floor.Showing
import Cardroom.Proofs.Floor.Tableside

namespace Cardroom

variable {σ : Type}

open Script Floor

namespace Table

theorem modifySeat_split {t : Table} (hn : t.players.Nodup) {s : Seat} (hs : s ∈ t.seats)
    (g : Seat → Seat) : ∃ before after, t.seats = before ++ s :: after ∧
      t.modifySeat s.user g = { t with seats := before ++ g s :: after } := by
  obtain ⟨before, after, e⟩ := List.append_of_mem hs
  refine ⟨before, after, e, ?_⟩
  rw [players, e, List.map_append, List.map_cons] at hn
  obtain ⟨-, hafter, hdisjoint⟩ := List.nodup_append.1 hn
  have hb : ∀ r ∈ before, (if r.user = s.user then g r else r) = r := fun r hr =>
    if_neg (hdisjoint r.user (List.mem_map_of_mem hr) s.user List.mem_cons_self)
  have ha : ∀ r ∈ after, (if r.user = s.user then g r else r) = r := fun r hr =>
    if_neg fun (h : r.user = s.user) =>
      (List.nodup_cons.1 hafter).1 (List.mem_map.2 ⟨r, hr, h⟩)
  simp only [modifySeat, e, List.map_append, List.map_cons, if_true, List.map_congr_left hb,
    List.map_congr_left ha, List.map_id']

end Table

namespace Tableside

variable {f g : Floor σ} {code : RoomCode} {user : UserId} {c : BetCommand} {t u : Table}

/-- A frame at the table is ignored and nothing has happened, or its bet is placed and shown. -/
theorem run_receive (code : RoomCode) (user : UserId) (raw : String) (f : Floor σ) :
    (∃ reason, (receive code user raw).run f = (.ignored reason, f)) ∨
    (∃ c t s, BetCommand.parse raw = .ok c ∧ f.table? code = some t ∧ t.seat? user = some s ∧
      (t.bet user c).2 = t.modifySeat user (·.place c.bet c.confirm) ∧
      (receive code user raw).run f = (.applied, ((showBets code (t.bet user c).2.betState).run
        (f.setTable (t.bet user c).2)).2)) := by
  unfold receive
  cases BetCommand.parse raw with
  | error reason => exact .inl ⟨reason, rfl⟩
  | ok c =>
    simp only [run_monad_bind, run_update, placeBet]
    cases ht : f.table? code with
    | none => exact .inl ⟨.noTable, rfl⟩
    | some t =>
      obtain ⟨reason, e⟩ | ⟨s, hs, -, -, -, e⟩ := t.bet_cases user c
      · exact .inl ⟨reason, by simp only [e]; rfl⟩
      · refine .inr ⟨c, t, s, rfl, rfl, hs, by rw [e], ?_⟩
        simp only [e, run_monad_bind, run_discard, run_pure]

/-- A bet has been placed and shown: only the seat of the one who bet is another, and everyone at the
table has received the bets, or a write failed and the connection is gone and closed. -/
structure BetTaken (code : RoomCode) (user : UserId) (c : BetCommand) (t u : Table)
    (f g : Floor σ) : Prop where
  before : f.table? code = some t
  after : g.table? code = some u
  seat : ∃ before s after, t.seats = before ++ s :: after ∧ s.user = user ∧
    u = { t with seats := before ++ s.place c.bet c.confirm :: after }
  tables : ∀ other, other ≠ code → g.table? other = f.table? other
  store : g.store = f.store
  lobby : g.lobby = f.lobby
  shown : ∀ id ∈ f.table.present code, f.works id = true →
    g.frames id = f.frames id ++ [u.betState] ∧ id ∈ g.table.present code
  gone : ∀ id ∈ f.table.present code, f.works id = false →
    g.frames id = f.frames id ∧ id ∉ g.table.present code ∧ g.isClosed id = true
  others : ∀ id ∉ f.table.present code, g.connection? id = f.connection? id
  elsewhere : ∀ other, other ≠ code →
    ∀ id, id ∈ g.table.present other ↔ id ∈ f.table.present other

theorem betTaken (hf : f.Tidy) (hd : f.Every Table.Drawn) (ht : f.table? code = some t) {s : Seat}
    (hs : t.seat? user = some s)
    (hu : (t.bet user c).2 = t.modifySeat user (·.place c.bet c.confirm)) :
    BetTaken code user c t (t.bet user c).2 f
      ((showBets code (t.bet user c).2.betState).run (f.setTable (t.bet user c).2)).2 := by
  obtain ⟨hmem, rfl⟩ := Table.mem_of_seat? hs
  obtain ⟨before, after, e, e'⟩ := Table.modifySeat_split (hd code t ht).players_nodup hmem
    (·.place c.bet c.confirm)
  have hroom : (t.bet s.user c).2.room = code :=
    (Table.bet_room t s.user c).trans (hd code t ht).room_eq
  have htable : ∀ other, (f.setTable (t.bet s.user c).2).table? other =
      if other = code then some (t.bet s.user c).2 else f.table? other := fun other => by
    rw [table?_setTable, hroom]
  have hshow : Delivery.Only (σ := σ) .table (fun _ => True)
      (showBets code (t.bet s.user c).2.betState) :=
    fun _ h => Delivery.within_broadcast h trivial code
  have hstore : Same Floor.store (f.setTable (t.bet s.user c).2)
      ((showBets code (t.bet s.user c).2.betState).run (f.setTable (t.bet s.user c).2)).2 :=
    hshow.same (fun _ _ => rfl) (fun _ _ => rfl) (fun _ _ => rfl) _
  have hlobby : Same Floor.lobby (f.setTable (t.bet s.user c).2)
      ((showBets code (t.bet s.user c).2.betState).run (f.setTable (t.bet s.user c).2)).2 :=
    hshow.same (fun _ _ => rfl) (fun _ _ => rfl) (fun _ _ => rfl) _
  -- placing the bet has changed neither who attends nor the connections
  have hdistinct : ((f.setTable (t.bet s.user c).2).attendance .table).Distinct := hf .table
  refine ⟨ht, ?_, ⟨before, s, after, e, rfl, hu.trans e'⟩, ?_, ?_, ?_, ?_, ?_, ?_, ?_⟩
  · rw [table?_showBets, htable, if_pos rfl]
  · intro other hne
    rw [table?_showBets, htable, if_neg hne]
  · exact hstore
  · exact hlobby
  · intro id hid hw
    refine ⟨(Delivery.frames_broadcast .table code hdistinct _ id).trans (if_pos ⟨hid, hw⟩), ?_⟩
    refine (Delivery.mem_present_broadcast .table code hdistinct _).2 ⟨hid, fun h => ?_⟩
    exact Bool.false_ne_true (h.2.symm.trans hw)
  · intro id hid hw
    refine ⟨(Delivery.frames_broadcast .table code hdistinct _ id).trans (if_neg fun h => ?_),
      fun h => ?_, ?_⟩
    · exact Bool.false_ne_true (hw.symm.trans h.2)
    · exact ((Delivery.mem_present_broadcast .table code hdistinct _).1 h).2 ⟨rfl, hw⟩
    · exact (Delivery.isClosed_broadcast .table code hdistinct _ id).trans (if_pos ⟨hid, hw⟩)
  · intro id hid
    exact (Delivery.connection?_broadcast .table code hdistinct _ id).trans (if_neg hid)
  · intro other hne id
    refine (Delivery.mem_present_broadcast .table code hdistinct _).trans ?_
    exact ⟨fun h => h.1, fun h => ⟨h, fun h' => hne h'.1⟩⟩

end Tableside

namespace Lobby

variable {f g : Floor Rooms} {code : RoomCode} {user : UserId} {ready : Bool} {e : RoomEntry}

theorem run_refresh_of_some (hd : f.lobby.Distinct) (he : f.store.entry? code = some e) :
    ((refresh code).run f).2 = told code e.members (e.shown code) f := by
  have hread := readRoom_of_some he
  obtain ⟨room, members, hread', hrun⟩ | ⟨error, hread', -⟩ := run_showRoom code hd
  · cases hread.symm.trans hread'
    rw [refresh, run_discard, hrun, RoomEntry.statusFrame_members]
  · cases hread.symm.trans hread'

def withReadiness (code : RoomCode) (user : UserId) (ready : Bool) (e : RoomEntry)
    (f : Floor Rooms) : Floor Rooms :=
  { f with store := ⟨f.store.rooms.insert code (e.setReady user ready)⟩ }

theorem entry?_withReadiness (code : RoomCode) (user : UserId) (ready : Bool) (e : RoomEntry)
    (f : Floor Rooms) (other : RoomCode) :
    (withReadiness code user ready e f).store.entry? other =
      if other = code then some (e.setReady user ready) else f.store.entry? other :=
  KeyMap.get?_insert f.store.rooms code other _

/-- A frame in the lobby is ignored and nothing has happened, or it is kept and shown. -/
theorem run_receive (code : RoomCode) (user : UserId) (raw : String) (f : Floor Rooms) :
    (∃ reason, (receive code user raw).run f = (.ignored reason, f)) ∨
    (∃ update e, ReadyUpdate.parse raw = .ok update ∧ f.store.entry? code = some e ∧
      (receive code user raw).run f = (.applied,
        ((refresh code).run (withReadiness code user update.isReady e f)).2)) := by
  unfold receive
  cases ReadyUpdate.parse raw with
  | error reason => exact .inl ⟨reason, rfl⟩
  | ok update =>
    simp only [run_monad_bind, run_update, setReady, RoomStore.setReady, Rooms.setReady,
      Rooms.update]
    cases he : f.store.entry? code with
    | none => exact .inl ⟨.storeFailure, rfl⟩
    | some e => exact .inr ⟨update, e, rfl, rfl, by rw [run_monad_bind]; rfl⟩

/-- A user's readiness has been set and shown: nothing else has changed in the store, and everyone in
the lobby has been shown the room once, or the write failed and the connection is gone and closed. -/
structure ReadinessTaken (code : RoomCode) (user : UserId) (ready : Bool) (e : RoomEntry)
    (f g : Floor Rooms) : Prop where
  before : f.store.entry? code = some e
  after : g.store.entry? code = some { e with
    joined := e.joined.map fun m => if m.user = user then { m with isReady := ready } else m }
  stranger : e.has user = false → g.store.entry? code = some e
  entries : ∀ other, other ≠ code → g.store.entry? other = f.store.entry? other
  tables : g.tables = f.tables
  table : g.table = f.table
  entropy : g.entropy = f.entropy
  shown : ∀ id ∈ f.lobby.present code, f.works id = true → ∃ rest,
    g.frames id = f.frames id ++ (e.setReady user ready).shown code :: rest ∧
      ∀ F ∈ rest, F.isRoomStatus = false
  gone : ∀ id ∈ f.lobby.present code, f.works id = false →
    g.frames id = f.frames id ∧ id ∉ g.lobby.present code ∧ g.isClosed id = true
  others : ∀ id ∉ f.lobby.present code, g.connection? id = f.connection? id
  elsewhere : ∀ other, other ≠ code →
    ∀ id, id ∈ g.lobby.present other ↔ id ∈ f.lobby.present other

theorem setReady_of_stranger (h : e.has user = false) (ready : Bool) :
    e.setReady user ready = e := by
  have hm : ∀ m ∈ e.joined, m.user ≠ user := by
    intro m hm heq
    rw [RoomEntry.has, List.any_eq_false] at h
    exact h m hm (by simp [heq])
  have hmap : (e.joined.map fun m => if m.user = user then { m with isReady := ready } else m) =
      e.joined := by
    rw [List.map_congr_left fun m h => if_neg (hm m h), List.map_id']
  rw [RoomEntry.setReady, hmap]

theorem readinessTaken (hf : f.Tidy) (he : f.store.entry? code = some e) (user : UserId)
    (ready : Bool) :
    ReadinessTaken code user ready e f
      ((refresh code).run (withReadiness code user ready e f)).2 := by
  have hentry := entry?_withReadiness code user ready e f
  have hd : (withReadiness code user ready e f).lobby.Distinct := hf .lobby
  have hrun := run_refresh_of_some hd ((hentry code).trans (if_pos rfl))
  have hsame : ∀ {β : Type} (view : Floor Rooms → β),
      (∀ f c, view { f with connections := c } = view f) →
      (∀ f a, view (f.setAttendance .lobby a) = view f) →
      (∀ f m, view { f with metrics := m } = view f) →
      Same view (withReadiness code user ready e f)
        ((refresh code).run (withReadiness code user ready e f)).2 := by
    intro β view hc ha hm
    exact (within_refresh (Delivery.same _ hc ha hm) code).run (Same.steps view) _
  have hstore : ∀ other, ((refresh code).run (withReadiness code user ready e f)).2.store.entry?
      other = if other = code then some (e.setReady user ready) else f.store.entry? other := by
    intro other
    rw [← hentry other]
    exact congrArg (Rooms.entry? · other)
      (hsame Floor.store (fun _ _ => rfl) (fun _ _ => rfl) fun _ _ => rfl)
  refine ⟨he, (hstore code).trans (if_pos rfl), fun hs => ?_, fun other hne => ?_, ?_, ?_, ?_,
    fun id hid hw => ?_, fun id hid hw => ?_, fun id hid => ?_, fun other hne id => ?_⟩
  · rw [hstore, if_pos rfl, setReady_of_stranger hs]
  · rw [hstore, if_neg hne]
  · exact hsame Floor.tables (fun _ _ => rfl) (fun _ _ => rfl) fun _ _ => rfl
  · exact hsame Floor.table (fun _ _ => rfl) (fun _ _ => rfl) fun _ _ => rfl
  · exact hsame Floor.entropy (fun _ _ => rfl) (fun _ _ => rfl) fun _ _ => rfl
  · rw [hrun, frames_told _ hd, news, if_pos ⟨hid, hw⟩]
    refine ⟨_, rfl, fun F hF => ?_⟩
    split at hF
    · cases List.mem_singleton.1 hF
      rfl
    · exact absurd hF List.not_mem_nil
  · refine ⟨?_, ?_, ?_⟩
    · rw [hrun, frames_told _ hd, news, if_neg fun h => Bool.false_ne_true (hw.symm.trans h.2)]
      exact List.append_nil _
    · rw [hrun, mem_present_told _ hd]
      exact fun h => h.2 ⟨rfl, .inl hw⟩
    · rw [hrun, isClosed_told _ hd hid, show (withReadiness code user ready e f).works id = false
        from hw]
      rfl
  · rw [hrun]
    exact connection?_told_of_not_mem _ hd hid
  · rw [hrun, mem_present_told _ hd]
    exact ⟨fun h => h.1, fun h => ⟨h, fun h' => hne h'.1⟩⟩

end Lobby

namespace Floor

/-- Whatever has happened and is under way: a frame that is ignored, on either side and for whatever
reason, leaves everything as it was, and one that is applied does what it says and is shown. -/
theorem receive_exact (config : Config) (secret : String) (store : Rooms)
    (entropy : Random.Source) (turns : List (Turn Rooms)) (code : RoomCode) (user : UserId)
    (raw : String) :
    let f := ((Bustle.idle (new config secret store entropy)).play turns).floor
    let atTable := (Tableside.receive code user raw).run f
    let inLobby := (Lobby.receive code user raw).run f
    (∀ reason, atTable.1 = .ignored reason → atTable.2 = f) ∧
    (∀ reason, inLobby.1 = .ignored reason → inLobby.2 = f) ∧
    (atTable.1 = .applied → ∃ c t u, BetCommand.parse raw = .ok c ∧
      Tableside.BetTaken code user c t u f atTable.2) ∧
    (inLobby.1 = .applied → ∃ update e, ReadyUpdate.parse raw = .ok update ∧
      Lobby.ReadinessTaken code user update.isReady e f inLobby.2) := by
  intro f atTable inLobby
  have htidy : f.Tidy := tidy_play config secret store entropy turns
  have hdrawn : f.Every Table.Drawn := every_play (Table.kept_drawn _) secret store entropy turns
  have htable := Tableside.run_receive code user raw f
  have hlobby := Lobby.run_receive code user raw f
  refine ⟨fun reason h => ?_, fun reason h => ?_, fun h => ?_, fun h => ?_⟩
  · obtain ⟨_, e⟩ | ⟨c, t, s, -, -, -, -, e⟩ := htable
    · exact congrArg Prod.snd e
    · cases (congrArg Prod.fst e).symm.trans h
  · obtain ⟨_, e⟩ | ⟨update, e, -, -, e'⟩ := hlobby
    · exact congrArg Prod.snd e
    · cases (congrArg Prod.fst e').symm.trans h
  · obtain ⟨_, e⟩ | ⟨c, t, s, hparse, ht, hs, hu, e⟩ := htable
    · cases (congrArg Prod.fst e).symm.trans h
    · exact ⟨c, t, _, hparse, congrArg Prod.snd e ▸ Tableside.betTaken htidy hdrawn ht hs hu⟩
  · obtain ⟨_, e⟩ | ⟨update, e, hparse, he, e'⟩ := hlobby
    · cases (congrArg Prod.fst e).symm.trans h
    · exact ⟨update, e, hparse, congrArg Prod.snd e' ▸ Lobby.readinessTaken htidy he user _⟩

end Floor

end Cardroom
