import Cardroom.Proofs.Floor.Lifetime
import Cardroom.Proofs.Floor.Presence

namespace Cardroom

variable {σ : Type}

open Script Floor

namespace Tableside

variable {f g : Floor σ} {code : RoomCode} {id : ConnId} {members : List Member}

/-- A connection has been closed and is nowhere. Who attends is as before, nobody else's connection
has changed, and all who sat at a table still do, with the same dealer. -/
structure TurnedAway (id : ConnId) (f g : Floor σ) : Prop where
  closed : g.isClosed id = true
  out : ¬ g.attends id
  lobby : g.lobby = f.lobby
  table : g.table = f.table
  others : ∀ x, x ≠ id → g.connection? x = f.connection? x
  tables : ∀ room t, f.table? room = some t →
    ∃ u, g.table? room = some u ∧ t.Continues (fun _ => False) u
  store : g.store = f.store

/-- When and why a join fails, and what it leaves. -/
structure JoinFails [RoomStore σ] (code : RoomCode) (id : ConnId) (f : Floor σ)
    (r : Except RoomError Unit × Floor σ) : Prop where
  store : ∀ e, r.1 = .error (.store e) ↔ RoomStore.members f.store code = .error e
  notFound : ∀ c, r.1 = .error (.notFound c) ↔
    c = code ∧ RoomStore.members f.store code = .ok []
  transport : ∀ e, r.1 = .error (.transport e) ↔ ∃ members, members ≠ [] ∧
    RoomStore.members f.store code = .ok members ∧
    (f.write id (.frame (seatMembers code members f).1.1)).1 = .error e
  unchanged : ∀ e, r.1 = .error e → (∀ t, e ≠ .transport t) → r.2 = f
  turnedAway : ∀ e, r.1 = .error (.transport e) → TurnedAway id f r.2

theorem ordered_eq (code : RoomCode) (id : ConnId) (members : List Member) (f : Floor σ) :
    ∃ connections tables entropy, ordered code id members f =
      { f with connections, table := f.table.enter code id, tables, entropy } := by
  obtain ⟨tables, entropy, e⟩ := seatMembers_eq code members f
  obtain ⟨connections, e'⟩ := write_eq
    (Delivery.enter .table code id (seatMembers code members f).2) id
    (.frame (seatMembers code members f).1.1)
  refine ⟨connections, tables, entropy, ?_⟩
  rw [ordered, e', e]
  rfl

/-- Who cannot be shown the order goes as they came. -/
theorem run_letIn_of_fails (hl : f.table.Listed) (hid : id ∉ f.table.present code)
    (hw : f.works id = false) (members : List Member) :
    ((letIn code id members).run f).2 =
      ((ordered code id members f).setAttendance .table f.table).close id := by
  rw [run_letIn, hw, if_neg Bool.false_ne_true, table_ordered, Attendance.leave_enter hl hid]

variable [RoomStore σ]

theorem turnedAway_join (hd : f.Every Table.Drawn) (hl : f.table.Listed) (hid : ¬ f.attends id)
    (hw : f.works id = false) (hread : RoomStore.members f.store code = .ok members)
    (hm : members ≠ []) : TurnedAway id f ((join code id).run f).2 := by
  have hrun : ((join code id).run f).2 =
      ((ordered code id members f).setAttendance .table f.table).close id := by
    obtain ⟨m, ms, rfl⟩ := List.exists_cons_of_ne_nil hm
    rw [run_join, hread]
    exact run_letIn_of_fails hl (fun h => hid ⟨.table, code, h⟩) hw (m :: ms)
  obtain ⟨connections, tables, entropy, e⟩ := ordered_eq code id members f
  have hattendance : ∀ side, ((join code id).run f).2.attendance side = f.attendance side := by
    intro side
    rw [hrun, e]
    cases side <;> rfl
  exact {
    closed := by rw [hrun, isClosed_close, if_pos rfl]
    out := by
      rintro ⟨side, room, h⟩
      exact hid ⟨side, room, hattendance side ▸ h⟩
    lobby := hattendance .lobby
    table := hattendance .table
    others := fun x hx => by
      rw [hrun, connection?_close, if_neg hx, connection?_setAttendance, ordered,
        connection?_write, if_neg hx, connection?_entered]
    tables := fun room t ht => by
      have hclears : ¬ (Act.table (.joins code id) : Act σ).Clears room := by
        rintro (h | h) <;> cases h
      obtain ⟨u, hu, hcontinues⟩ := continues_perform hd hclears ht
      rw [perform, Act.script, TableAct.script, run_discard] at hu
      refine ⟨u, hu, hcontinues.mono ?_⟩
      -- a join is no action of a player
      rintro v ⟨raw, h⟩
      cases h
    store := by
      rw [hrun, e]
      rfl }

theorem fst_join (code : RoomCode) (id : ConnId) (f : Floor σ) :
    ((join code id).run f).1 = match RoomStore.members f.store code with
      | .error e => .error (.store e)
      | .ok [] => .error (.notFound code)
      | .ok members =>
        (f.write id (.frame (seatMembers code members f).1.1)).1.mapError .transport := by
  rw [run_join]
  cases RoomStore.members f.store code with
  | error e => rfl
  | ok members =>
    cases members with
    | nil => rfl
    | cons m ms => exact fst_letIn code id (m :: ms) f

theorem fst_join_transport (code : RoomCode) (id : ConnId) (f : Floor σ) (e : TransportError) :
    ((join code id).run f).1 = .error (.transport e) ↔ ∃ members, members ≠ [] ∧
      RoomStore.members f.store code = .ok members ∧
      (f.write id (.frame (seatMembers code members f).1.1)).1 = .error e := by
  rw [fst_join]
  split
  · rename_i hread
    simp [hread]
  · rename_i hread
    simp [hread]
  · rename_i members hm hread
    rw [hread]
    constructor
    · intro h
      refine ⟨members, hm, rfl, ?_⟩
      cases hw : (f.write id (.frame (seatMembers code members f).1.1)).1 with
      | error e' =>
        rw [hw] at h
        cases h
        rfl
      | ok a =>
        rw [hw] at h
        cases h
    · rintro ⟨ms, -, hms, hw⟩
      cases hms
      rw [hw]
      rfl

theorem joinFails_join (hd : f.Every Table.Drawn) (hl : f.table.Listed) (hid : ¬ f.attends id)
    (code : RoomCode) : JoinFails code id f ((join code id).run f) where
  store e := by
    rw [fst_join]
    split
    · rename_i hread
      simp [hread]
    · rename_i hread
      simp [hread]
    · rename_i hread
      rw [hread]
      cases (f.write id _).1 <;> exact iff_of_false nofun nofun
  notFound c := by
    rw [fst_join]
    split
    · rename_i hread
      simp [hread]
    · rename_i hread
      simp [hread, eq_comm]
    · rename_i hm hread
      have hne : ¬ RoomStore.members f.store code = .ok [] := fun h => by
        cases hread.symm.trans h
        exact hm rfl
      cases (f.write id _).1 <;> exact iff_of_false nofun fun h => hne h.2
  transport := fst_join_transport code id f
  unchanged e he hne := by
    rw [run_join]
    cases hread : RoomStore.members f.store code with
    | error e => rfl
    | ok members =>
      cases members with
      | nil => rfl
      | cons m ms =>
        -- with members the join fails by its write alone
        rw [fst_join, hread] at he
        cases hw : (f.write id (.frame (seatMembers code (m :: ms) f).1.1)).1 with
        | ok a =>
          simp only [hw] at he
          cases he
        | error t =>
          simp only [hw] at he
          cases he
          exact absurd rfl (hne t)
  turnedAway e he := by
    obtain ⟨members, hm, hread, hw⟩ := (fst_join_transport code id f e).1 he
    have hworks : f.works id = false := by
      rw [← isOk_write f id (.frame (seatMembers code members f).1.1), hw]
      rfl
    exact turnedAway_join hd hl hid hworks hread hm

end Tableside

namespace Lobby

open Delivery

variable [RoomStore σ] {f : Floor σ} {code : RoomCode} {id : ConnId}

def parted (code : RoomCode) (id : ConnId) (f : Floor σ) : Floor σ :=
  ((unregister .lobby code id).run
    ((f.user? id).elim f fun user => (setReady code user false f).2)).2

/-- A write to the connection fails when the room is shown: that of the room, or the one that tells
the host that all are ready. -/
def Misses (code : RoomCode) (f : Floor σ) (x : ConnId) : Prop :=
  ∃ room members, readRoom code f = .ok (room, members) ∧
    (f.works x = false ∨ failsToTell members (statusFrame room code members) f x = true)

/-- The connection has gone, and with it those whose write has failed and nobody else. -/
structure Parted (code : RoomCode) (id : ConnId) (f g : Floor σ) : Prop where
  out : id ∉ g.lobby.present code
  stays : ∀ room x, x ∈ g.lobby.present room ↔
    x ∈ f.lobby.present room ∧ ¬ (room = code ∧ (x = id ∨ Misses code (parted code id f) x))
  table : g.table = f.table

theorem run_leave (code : RoomCode) (id : ConnId) (f : Floor σ) :
    ((leave code id).run f).2 = ((showRoom code).run (parted code id f)).2 := by
  rw [leave, run_monad_bind, run_look, parted]
  cases f.user? id with
  | none =>
    rw [run_monad_bind, run_discard, refresh, run_discard]
    rfl
  | some user =>
    simp only [run_monad_bind, run_discard, run_update, refresh]
    rfl

theorem attendance_parted (code : RoomCode) (id : ConnId) (f : Floor σ) :
    (parted code id f).lobby = f.lobby.leave code id ∧ (parted code id f).table = f.table := by
  have hsame : ∀ side, ((f.user? id).elim f fun user => (setReady code user false f).2).attendance
      side = f.attendance side := by
    intro side
    cases f.user? id with
    | none => rfl
    | some user =>
      obtain ⟨s, e⟩ := setReady_eq code user false f
      rw [Option.elim_some, e]
      cases side <;> rfl
  exact ⟨congrArg (·.leave code id) (hsame .lobby), hsame .table⟩

/-- Nothing has been done if the room could not be shown. -/
theorem run_showRoom_of_error {e : RoomError} (h : ((showRoom code).run f).1 = .error e) :
    ((showRoom code).run f).2 = f := by
  rw [showRoom, run_monad_bind, run_look] at h ⊢
  split at h
  · cases h
  · rename_i hsome
    rw [if_neg hsome]
    rw [run_monad_bind, run_look] at h ⊢
    cases hr : readRoom code f with
    | error e => rfl
    | ok answer =>
      rw [hr] at h
      simp only [run_monad_bind, run_pure] at h
      cases h

theorem run_showRoom_of_empty (h : f.lobby.present code = []) :
    (showRoom code).run f = (.ok ⟨0, 0⟩, f) := by
  rw [showRoom, run_monad_bind, run_look, h]
  rfl

theorem parted_leave (hd : f.lobby.Distinct) (code : RoomCode) (id : ConnId) :
    Parted code id f ((leave code id).run f).2 := by
  obtain ⟨hlobby, htable⟩ := attendance_parted code id f
  have hd' : (parted code id f).lobby.Distinct := hlobby ▸ hd.leave code id
  have hstays : ∀ room x, x ∈ ((leave code id).run f).2.lobby.present room ↔
      x ∈ f.lobby.present room ∧ ¬ (room = code ∧ (x = id ∨ Misses code (parted code id f) x)) := by
    intro room x
    have hpart : x ∈ (parted code id f).lobby.present room ↔
        x ∈ f.lobby.present room ∧ ¬ (room = code ∧ x = id) := by
      rw [hlobby, Attendance.mem_present_leave hd]
    rw [run_leave]
    obtain ⟨r, ms, hread, e⟩ | ⟨e, hread, h⟩ := run_showRoom code hd'
    · have hmiss : Misses code (parted code id f) x ↔ ((parted code id f).works x = false ∨
          failsToTell ms (statusFrame r code ms) (parted code id f) x = true) := by
        constructor
        · rintro ⟨r', ms', hread', hfail⟩
          cases hread.symm.trans hread'
          exact hfail
        · exact fun hfail => ⟨r, ms, hread, hfail⟩
      have hrun := congrArg Prod.snd e
      rw [hrun, mem_present_told ms hd', hpart, ← hmiss, and_assoc, ← not_or, ← and_or_left]
    · have hmiss : ¬ Misses code (parted code id f) x := fun ⟨_, _, hread', _⟩ => by
        cases hread.symm.trans hread'
      rw [h, hpart, or_iff_left hmiss]
  refine ⟨fun h => ?_, hstays, ?_⟩
  · exact ((hstays code id).1 h).2 ⟨rfl, .inl rfl⟩
  · have hshow : Same Floor.table (parted code id f) ((showRoom code).run (parted code id f)).2 :=
      (within_showRoom (Delivery.same _ (fun _ _ => rfl) (fun _ _ => rfl) fun _ _ => rfl) code).run
        (Same.steps Floor.table) _
    rw [run_leave]
    exact hshow.trans htable

end Lobby

namespace Floor

/-- Whatever has happened and is under way, and whatever the store answers. A join fails for the
reasons that it gives and leaves everything as it was, but for the connection that could not be
shown the order, which is closed, and for new seats. Who leaves a lobby is off it, and nobody with
them but those whose write has failed. Showing a room does nothing if it fails, and nothing if
nobody is there. -/
theorem failures_exact [RoomStore σ] (config : Config) (secret : String) (store : σ)
    (entropy : Random.Source) (turns : List (Turn σ)) (code : RoomCode) :
    let f := ((Bustle.idle (new config secret store entropy)).play turns).floor
    (∀ id, ¬ f.attends id → Tableside.JoinFails code id f ((Tableside.join code id).run f)) ∧
    (∀ id, Lobby.Parted code id f ((Lobby.leave code id).run f).2) ∧
    (∀ e, ((Lobby.showRoom code).run f).1 = .error e → ((Lobby.showRoom code).run f).2 = f) ∧
    (f.lobby.present code = [] → (Lobby.showRoom code).run f = (.ok ⟨0, 0⟩, f)) := by
  intro f
  have hneat : f.Neat := neat_play config secret store entropy turns
  have hdrawn : f.Every Table.Drawn := every_play (Table.kept_drawn _) secret store entropy turns
  refine ⟨fun id hid => ?_, fun id => ?_, fun e => ?_, fun h => ?_⟩
  · exact Tableside.joinFails_join hdrawn (hneat.listed .table) hid code
  · exact Lobby.parted_leave (hneat.tidy .lobby) code id
  · exact Lobby.run_showRoom_of_error
  · exact Lobby.run_showRoom_of_empty h

def unknownRoom : RoomCode := ⟨"9", by decide⟩

/-- The member of the parlour has a broken connection; somebody else is in the lobby of a room that
there is not. -/
def brokenTurns : List (Turn Rooms) :=
  [.begins (.client (.opens 0 1 (.steady .gone))), .goesOn 0,
    .begins (.client (.opens 1 2 (.steady (.takes 0)))), .goesOn 1,
    .begins (.lobby (.enters unknownRoom 1)), .goesOn 2]

/-- The member cannot join and nobody is told; the other room cannot be shown, but can be left. -/
theorem failures_exact_parlour :
    let f := ((Bustle.idle parlour).play brokenTurns).floor
    let joined := (Tableside.join parlourRoom 0).run f
    let shown := (Lobby.showRoom unknownRoom).run f
    ¬ f.attends 0 ∧ joined.1 = .error (.transport .closed) ∧ joined.2.isClosed 0 = true ∧
    joined.2.table = f.table ∧
    f.lobby.present parlourRoom = [] ∧ (Lobby.showRoom parlourRoom).run f = (.ok ⟨0, 0⟩, f) ∧
    shown.1 = .error (.notFound unknownRoom) ∧ shown.2 = f ∧
    1 ∉ ((Lobby.leave unknownRoom 1).run f).2.lobby.present unknownRoom := by
  intro f joined shown
  obtain ⟨hjoin, -, -, hempty⟩ :=
    failures_exact {} "" parlour.store (.ofSeed 0) brokenTurns parlourRoom
  obtain ⟨-, hleave, hshow, -⟩ :=
    failures_exact {} "" parlour.store (.ofSeed 0) brokenTurns unknownRoom
  have hout : ¬ f.attends 0 := by
    have hlobby : f.lobby = Attendance.empty.enter unknownRoom 1 := by rfl
    have htable : f.table = .empty := by rfl
    rintro ⟨side, code, h⟩
    cases side with
    | lobby =>
      rw [attendance, hlobby, Attendance.mem_present_enter] at h
      simp at h
    | table =>
      rw [attendance, htable] at h
      exact absurd h List.not_mem_nil
  have hnobody : f.lobby.present parlourRoom = [] := by decide +kernel
  have hfails : joined.1 = .error (.transport .closed) :=
    ((hjoin 0 hout).transport .closed).2 ⟨[⟨1, "Ann", false, true⟩], by simp, by rfl, by rfl⟩
  have hunknown : shown.1 = .error (.notFound unknownRoom) := by rfl
  have haway := (hjoin 0 hout).turnedAway .closed hfails
  exact ⟨hout, hfails, haway.closed, haway.table, hnobody, hempty hnobody, hunknown,
    hshow _ hunknown, (hleave 1).out⟩

end Floor

end Cardroom
