import Cardroom.Floor.Tableside
import Cardroom.Proofs.Floor.Connection
import Cardroom.Proofs.Table.Seats

namespace Cardroom

variable {σ : Type}

namespace Floor

@[simp] theorem table?_new (config : Config) (secret : String) (store : σ) (entropy : Random.Source)
    (code : RoomCode) : (new config secret store entropy).table? code = none := rfl

theorem table?_setTable (f : Floor σ) (t : Table) (code : RoomCode) :
    (f.setTable t).table? code = if code = t.room then some t else f.table? code :=
  KeyMap.get?_insert f.tables t.room code t

theorem table?_removeTable (f : Floor σ) (room code : RoomCode) :
    (f.removeTable room).table? code = if code = room then none else f.table? code :=
  KeyMap.get?_erase f.tables room code

@[simp] theorem table?_write (f : Floor σ) (id : ConnId) (p : Payload) (code : RoomCode) :
    (f.write id p).2.table? code = f.table? code := by
  obtain ⟨c, e⟩ := write_eq f id p
  rw [e]
  rfl

@[simp] theorem table?_close (f : Floor σ) (id : ConnId) (code : RoomCode) :
    (f.close id).table? code = f.table? code := rfl

@[simp] theorem table?_setAttendance (f : Floor σ) (side : Side) (a : Attendance)
    (code : RoomCode) : (f.setAttendance side a).table? code = f.table? code := by
  cases side <;> rfl

theorem ensureTable_cases (f : Floor σ) (room : RoomCode) :
    (∃ t, f.table? room = some t ∧ f.ensureTable room = (t, f)) ∨
    (f.table? room = none ∧ ∃ source entropy, f.ensureTable room =
      (.new room source,
        { f with tables := f.tables.insert room (.new room source), entropy := entropy })) := by
  unfold ensureTable
  cases h : f.table? room with
  | some t => exact .inl ⟨t, rfl, rfl⟩
  | none =>
    refine .inr ⟨rfl, ?_⟩
    unfold newTable
    cases f.config.dealerSeed with
    | some seed => exact ⟨_, _, rfl⟩
    | none => exact ⟨_, _, rfl⟩

theorem ensureTable_of_some {f : Floor σ} {room : RoomCode} {t : Table}
    (h : f.table? room = some t) : (f.ensureTable room).1 = t := by
  simp only [ensureTable, h]

/-- With a dealer seed a new table does not depend on the tables that were set up before it. -/
theorem ensureTable_of_none {f : Floor σ} {room : RoomCode} {seed : UInt64}
    (hs : f.config.dealerSeed = some seed) (hn : f.table? room = none) :
    (f.ensureTable room).1 = .new room (.ofSeed (Table.seed seed room)) := by
  simp only [ensureTable, hn, newTable, hs]

theorem room_ensureTable {f : Floor σ} {room : RoomCode}
    (h : ∀ t, f.table? room = some t → t.room = room) : (f.ensureTable room).1.room = room := by
  obtain ⟨t, ht, e⟩ | ⟨-, source, entropy, e⟩ := f.ensureTable_cases room
  · rw [e]
    exact h t ht
  · rw [e]
    rfl

theorem config_ensureTable (f : Floor σ) (room : RoomCode) :
    (f.ensureTable room).2.config = f.config := by
  obtain ⟨t, -, e⟩ | ⟨-, source, entropy, e⟩ := f.ensureTable_cases room <;> rw [e]

theorem table?_ensureTable (f : Floor σ) (room other : RoomCode) :
    (f.ensureTable room).2.table? other =
      if other = room then some (f.ensureTable room).1 else f.table? other := by
  obtain ⟨t, ht, e⟩ | ⟨-, source, entropy, e⟩ := f.ensureTable_cases room
  · rw [e]
    split
    · rename_i hother
      rw [hother, ht]
    · rfl
  · rw [e]
    exact KeyMap.get?_insert f.tables room other _

end Floor

namespace Tableside

variable {f : Floor σ} {code : RoomCode}

/-- The table as it is after everyone has been seated. -/
def filled (t : Table) (members : List Member) (chips : Int) : Table :=
  (t.seatMembers members chips).2.ensureDealer

@[simp] theorem filled_room (t : Table) (members : List Member) (chips : Int) :
    (filled t members chips).room = t.room := by
  simp [filled]

theorem mem_players_filled {t : Table} {members : List Member} {chips : Int} {u : UserId} :
    u ∈ (filled t members chips).players ↔ u ∈ t.players ∨ u ∈ members.map Member.user := by
  rw [filled, Table.players_ensureDealer, Table.mem_players_seatMembers]

/-- The table that a seating fills: the room's own, or a new one where there is none. -/
def Filling (f : Floor σ) (code : RoomCode) (t : Table) : Prop :=
  f.table? code = some t ∨ (f.table? code = none ∧ ∃ source, t = .new code source)

theorem seatMembers_cases (code : RoomCode) (members : List Member) (f : Floor σ) :
    ∃ t tables entropy, Filling f code t ∧
      seatMembers code members f =
        (((filled t members f.config.startingChips).playerOrder members,
          (filled t members f.config.startingChips).betState),
          { f with tables := tables, entropy := entropy }) ∧
      ∀ other, tables.get? other =
        if other = t.room then some (filled t members f.config.startingChips)
        else f.table? other := by
  obtain ⟨t, ht, e⟩ | ⟨hn, source, entropy, e⟩ := f.ensureTable_cases code
  · refine ⟨t, _, f.entropy, .inl ht, by simp only [seatMembers, e]; rfl, fun other => ?_⟩
    rw [KeyMap.get?_insert, ← filled, filled_room]
    rfl
  · refine ⟨_, _, entropy, .inr ⟨hn, source, rfl⟩, by simp only [seatMembers, e]; rfl,
      fun other => ?_⟩
    rw [KeyMap.get?_insert, ← filled, filled_room, KeyMap.get?_insert]
    -- the new table stands under the room's code only until it is filled
    split
    · rfl
    · rename_i h
      exact if_neg h

theorem seatMembers_eq (code : RoomCode) (members : List Member) (f : Floor σ) :
    ∃ tables entropy,
      (seatMembers code members f).2 = { f with tables := tables, entropy := entropy } := by
  obtain ⟨t, tables, entropy, -, e, -⟩ := seatMembers_cases code members f
  exact ⟨tables, entropy, by rw [e]⟩

theorem table?_seatMembers (hroom : ∀ t, f.table? code = some t → t.room = code)
    (members : List Member) (other : RoomCode) :
    (seatMembers code members f).2.table? other =
      if other = code then some (filled (f.ensureTable code).1 members f.config.startingChips)
      else f.table? other := by
  have hset : (seatMembers code members f).2 = (f.ensureTable code).2.setTable
      (filled (f.ensureTable code).1 members (f.ensureTable code).2.config.startingChips) := rfl
  rw [hset, Floor.table?_setTable, filled_room, Floor.room_ensureTable hroom,
    Floor.config_ensureTable, Floor.table?_ensureTable]
  split <;> rfl

/-- A bet is ignored, or it changes the room's table and is shown. -/
theorem placeBet_cases (code : RoomCode) (user : UserId) (c : BetCommand) (f : Floor σ) :
    (∃ reason, placeBet code user c f = ((.ignored reason, none), f)) ∨
    (∃ t, f.table? code = some t ∧ placeBet code user c f =
      ((.applied, some (t.bet user c).2.betState), f.setTable (t.bet user c).2)) := by
  unfold placeBet
  cases ht : f.table? code with
  | none => exact .inl ⟨_, rfl⟩
  | some t =>
    cases hb : t.bet user c with
    | mk outcome u =>
      cases outcome with
      | ignored reason => exact .inl ⟨reason, by simp only [hb]⟩
      | applied delta => exact .inr ⟨t, rfl, by simp only [hb]⟩

theorem placeBet_eq (code : RoomCode) (user : UserId) (c : BetCommand) (f : Floor σ) :
    ∃ tables, (placeBet code user c f).2 = { f with tables := tables } := by
  obtain ⟨reason, e⟩ | ⟨t, -, e⟩ := placeBet_cases code user c f
  · exact ⟨f.tables, by rw [e]⟩
  · exact ⟨_, by rw [e]; rfl⟩

end Tableside

end Cardroom
