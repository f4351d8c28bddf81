import Cardroom.Floor.Door
import Cardroom.Proofs.Floor.Confined
import Cardroom.Proofs.Floor.Tables

namespace Cardroom

variable {home : ConnId → RoomCode} {room : RoomCode}

open Floor (Orderly Alike Local room_ensureTable table?_ensureTable)
open Script

namespace Tableside

/-- Which table a room fills, and with which chips, depends on the room and on the seed. -/
theorem ensureTable_congr {f g : Floor Rooms} (hf : Orderly home f) (h : Alike home room f g) :
    (f.ensureTable room).1 = (g.ensureTable room).1 := by
  obtain ⟨seed, hseed⟩ := Option.isSome_iff_exists.1 hf.seeded
  simp only [Floor.ensureTable, Floor.newTable, ← h.config, ← h.table, hseed]
  cases f.table? room <;> rfl

theorem seatMembers_fst (members : List Member) (f : Floor Rooms) :
    (seatMembers room members f).1 =
      ((filled (f.ensureTable room).1 members f.config.startingChips).playerOrder members,
        (filled (f.ensureTable room).1 members f.config.startingChips).betState) := by
  obtain ⟨t, ht, e⟩ | ⟨-, source, entropy, e⟩ := f.ensureTable_cases room
  · simp only [seatMembers, e]
    rfl
  · simp only [seatMembers, e]
    rfl

theorem local_ensureTable : Local home room fun f => (f.ensureTable room).2 := by
  refine Floor.local_tables (fun f => ?_) ?_ ?_ ?_
  · obtain ⟨t, -, e⟩ | ⟨-, source, entropy, e⟩ := f.ensureTable_cases room
    · exact ⟨f.tables, f.entropy, by rw [e]⟩
    · exact ⟨_, entropy, by rw [e]⟩
  · intro f t hf ht
    rw [table?_ensureTable, if_pos rfl] at ht
    rw [← Option.some.inj ht, room_ensureTable (hf.tables room)]
  · intro f other hother _
    rw [table?_ensureTable, if_neg hother]
  · intro f g hf _ hfg
    rw [table?_ensureTable, table?_ensureTable, if_pos rfl, if_pos rfl, ensureTable_congr hf hfg]

theorem confined_ensureTable :
    (Script.update fun f : Floor Rooms => f.ensureTable room).Confined home room fun _ => True :=
  confined_update local_ensureTable (fun _ _ hf _ hfg => ensureTable_congr hf hfg)
    fun _ _ => trivial

theorem local_seatMembers (members : List Member) :
    Local home room fun f => (seatMembers room members f).2 := by
  refine Floor.local_tables (seatMembers_eq room members) ?_ ?_ ?_
  · intro f t hf ht
    rw [table?_seatMembers (hf.tables room), if_pos rfl] at ht
    rw [← Option.some.inj ht, filled_room, room_ensureTable (hf.tables room)]
  · intro f other hother hf
    rw [table?_seatMembers (hf.tables room), if_neg hother]
  · intro f g hf hg hfg
    rw [table?_seatMembers (hf.tables room), table?_seatMembers (hg.tables room), if_pos rfl, if_pos rfl,
      ensureTable_congr hf hfg, hfg.config]

theorem confined_seatMembers (members : List Member) :
    (Script.update (seatMembers room members)).Confined home room fun _ => True := by
  refine confined_update (local_seatMembers members) (fun f g hf _ hfg => ?_) fun _ _ => trivial
  rw [seatMembers_fst, seatMembers_fst, ensureTable_congr hf hfg, hfg.config]

theorem placeBet_of_none {f : Floor Rooms} (h : f.table? room = none) (user : UserId)
    (c : BetCommand) : placeBet room user c f = ((.ignored .noTable, none), f) := by
  simp only [placeBet, h]

theorem placeBet_of_some {f : Floor Rooms} {t : Table} (h : f.table? room = some t) (user : UserId)
    (c : BetCommand) :
    (∃ reason, t.bet user c = (.ignored reason, t) ∧
      placeBet room user c f = ((.ignored reason, none), f)) ∨
    ∃ delta u, t.bet user c = (.applied delta, u) ∧
      placeBet room user c f = ((.applied, some u.betState), f.setTable u) := by
  cases hj : t.judge user c.bet with
  | ignored reason =>
    have hb : t.bet user c = (.ignored reason, t) := by simp only [Table.bet, hj]
    exact .inl ⟨reason, hb, by simp only [placeBet, h, hb]⟩
  | applied delta =>
    have hb : t.bet user c = (.applied delta, t.modifySeat user (·.place c.bet c.confirm)) := by
      simp only [Table.bet, hj]
    exact .inr ⟨delta, _, hb, by simp only [placeBet, h, hb]⟩

theorem table?_placeBet {f : Floor Rooms} (hf : Orderly home f) (user : UserId) (c : BetCommand)
    (other : RoomCode) :
    (placeBet room user c f).2.table? other =
      if other = room then (f.table? room).map fun t => (t.bet user c).2 else f.table? other := by
  cases ht : f.table? room with
  | none =>
    rw [placeBet_of_none ht]
    split
    · rename_i hother
      rw [hother, ht, Option.map_none]
    · rfl
  | some t =>
    rw [Option.map_some]
    obtain ⟨reason, hb, e⟩ | ⟨delta, u, hb, e⟩ := placeBet_of_some ht user c
    · rw [e, hb]
      split
      · rename_i hother
        rw [hother, ht]
      · rfl
    · have hroom : u.room = room := by
        rw [← hf.tables room t ht, ← Table.bet_room t user c, hb]
      rw [e, hb, Floor.table?_setTable, hroom]

theorem local_placeBet (user : UserId) (c : BetCommand) :
    Local home room fun f => (placeBet room user c f).2 := by
  refine Floor.local_tables (fun f => ?_) ?_ ?_ ?_
  · obtain ⟨tables, e⟩ := placeBet_eq room user c f
    exact ⟨tables, f.entropy, e⟩
  · intro f t hf ht
    rw [table?_placeBet hf, if_pos rfl] at ht
    obtain ⟨u, hu, rfl⟩ := Option.map_eq_some_iff.1 ht
    rw [Table.bet_room]
    exact hf.tables room u hu
  · intro f other hother hf
    rw [table?_placeBet hf, if_neg hother]
  · intro f g hf hg hfg
    rw [table?_placeBet hf, table?_placeBet hg, if_pos rfl, if_pos rfl, hfg.table]

theorem confined_placeBet (user : UserId) (c : BetCommand) :
    (Script.update (placeBet room user c)).Confined home room fun _ => True := by
  refine confined_update (local_placeBet user c) (fun f g _ _ hfg => ?_) fun _ _ => trivial
  cases ht : f.table? room with
  | none => rw [placeBet_of_none ht, placeBet_of_none (hfg.table.symm.trans ht)]
  | some t =>
    have ht' := hfg.table.symm.trans ht
    obtain ⟨_, hb, e⟩ | ⟨_, _, hb, e⟩ := placeBet_of_some ht user c <;>
      obtain ⟨_, hb', e'⟩ | ⟨_, _, hb', e'⟩ := placeBet_of_some ht' user c <;>
      rw [hb] at hb' <;> cases hb' <;> rw [e, e']

theorem confined_showBets (bets : Frame) :
    (showBets room bets : Script Rooms Nat).Confined home room fun _ => True :=
  Delivery.confined_broadcast _

theorem confined_letIn {id : ConnId} (hid : home id = room) (members : List Member) :
    (letIn room id members : Script Rooms _).Confined home room fun _ => True := by
  refine (confined_seatMembers members).monad_bind fun shown _ => ?_
  refine (confined_change (Delivery.local_enter hid)).monad_bind fun _ _ => ?_
  refine (confined_writeTo hid _).monad_bind fun answer _ => ?_
  cases answer with
  | error e =>
    exact (Delivery.confined_unregister hid).discard.monad_bind fun _ _ =>
      (confined_closeOne hid).monad_bind fun _ _ => confined_pure trivial
  | ok _ => exact (confined_showBets _).discard.monad_bind fun _ _ => confined_pure trivial

theorem confined_join {id : ConnId} (hid : home id = room) :
    (join room id : Script Rooms _).Confined home room fun _ => True := by
  have hlook : (Script.look fun f : Floor Rooms => RoomStore.members f.store room).Confined
      home room fun _ => True :=
    confined_look (fun _ _ hfg => congrArg Except.ok (Rooms.members_congr hfg.entry))
      fun _ _ => trivial
  refine hlook.monad_bind fun answer _ => ?_
  cases answer with
  | error e => exact confined_pure trivial
  | ok members =>
    cases members with
    | nil => exact confined_pure trivial
    | cons m ms => exact confined_letIn hid (m :: ms)

theorem confined_receive (user : UserId) (raw : String) :
    (receive room user raw : Script Rooms Outcome).Confined home room fun _ => True := by
  unfold receive
  split
  · exact confined_pure trivial
  refine (confined_placeBet user _).monad_bind fun answer _ => ?_
  obtain ⟨outcome, bets⟩ := answer
  cases bets with
  | none => exact confined_pure trivial
  | some bets =>
    exact (confined_showBets bets).discard.monad_bind fun _ _ => confined_pure trivial

theorem confined_leave {id : ConnId} (hid : home id = room) :
    (leave room id : Script Rooms Unit).Confined home room fun _ => True :=
  (Delivery.confined_unregister hid).discard

theorem confined_removeTable :
    (Script.update fun f : Floor Rooms => ((f.table? room).isSome, f.removeTable room)).Confined
      home room fun _ => True :=
  confined_update Floor.local_removeTable
    (fun _ _ _ _ hfg => congrArg Option.isSome hfg.table) fun _ _ => trivial

theorem confined_closeRoom :
    (closeRoom room : Script Rooms Unit).Confined home room fun _ => True :=
  Delivery.confined_dropRoom.discard.monad_bind fun _ _ =>
    confined_change Floor.local_removeTable

end Tableside

namespace Door

theorem confined_roomChanged :
    (roomChanged room : Script Rooms Unit).Confined home room fun _ => True :=
  Lobby.confined_refresh

theorem confined_gameStarted (game : Int) :
    (gameStarted room game : Script Rooms Unit).Confined home room fun _ => True :=
  (Lobby.confined_announceGame game).discard

theorem confined_userLeft (user : UserId) :
    (userLeft room user : Script Rooms Unit).Confined home room fun _ => True :=
  (Lobby.confined_closeUser user).discard.monad_bind fun _ _ => Lobby.confined_refresh

theorem confined_roomClosed :
    (roomClosed room : Script Rooms Unit).Confined home room fun _ => True :=
  Lobby.confined_closeRoom.discard.monad_bind fun _ _ => Tableside.confined_closeRoom

/-- What the door says to a token depends on the room that is named, if any is. -/
theorem letIn_congr {f g : Floor Rooms} (h : Alike home room f g) {raw : String}
    (hraw : ∀ code, RoomCode.parse raw = .ok code → code = room) (now : Int)
    (token : Option String) : letIn f now token raw = letIn g now token raw := by
  have hopen : openRoom room f = openRoom room g := by
    unfold openRoom
    simp only [RoomStore.room, h.entry]
  have hmember : RoomStore.isMember f.store room = RoomStore.isMember g.store room := by
    funext user
    simp only [RoomStore.isMember, Rooms.isMember, h.entry]
  unfold letIn
  rw [h.secret]
  cases AccessToken.verify g.tokenSecret now (token.getD "") with
  | error e => rfl
  | ok user =>
    cases hparse : RoomCode.parse raw with
    | error fault => rfl
    | ok code =>
      have hcode := hraw code hparse
      subst hcode
      change (openRoom code f >>= fun r => _) = (openRoom code g >>= fun r => _)
      rw [hopen, hmember]

end Door

end Cardroom
