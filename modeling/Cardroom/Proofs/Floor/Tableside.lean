import Cardroom.Proofs.Floor.Admission

namespace Cardroom

variable {σ : Type}

open Script Floor

def Frame.isBetState : Frame → Bool
  | .betState .. => true
  | _ => false

theorem Frame.isBetState_of_side? {F : Frame} (h : F.side? ≠ some .table) :
    F.isBetState = false := by
  cases F with
  | betState room players allConfirmed => exact absurd rfl h
  | _ => rfl

namespace Tableside

variable {f : Floor σ} {code : RoomCode} {id : ConnId} {members : List Member}

def ordered (code : RoomCode) (id : ConnId) (members : List Member) (f : Floor σ) : Floor σ :=
  ((Delivery.enter .table code id (seatMembers code members f).2).write id
    (.frame (seatMembers code members f).1.1)).2

theorem connections_entered (f : Floor σ) (code : RoomCode) (id : ConnId) (members : List Member) :
    (Delivery.enter .table code id (seatMembers code members f).2).connections = f.connections := by
  obtain ⟨tables, entropy, e⟩ := seatMembers_eq code members f
  rw [e]
  rfl

theorem connection?_entered (f : Floor σ) (code : RoomCode) (id : ConnId) (members : List Member)
    (x : ConnId) : (Delivery.enter .table code id (seatMembers code members f).2).connection? x =
      f.connection? x :=
  congrArg (KeyMap.get? · x) (connections_entered f code id members)

theorem works_entered (f : Floor σ) (code : RoomCode) (id : ConnId) (members : List Member) :
    (Delivery.enter .table code id (seatMembers code members f).2).works id = f.works id := by
  rw [works, works, connection?, connection?, connections_entered]

theorem run_letIn (code : RoomCode) (id : ConnId) (members : List Member) (f : Floor σ) :
    ((letIn code id members).run f).2 =
      if f.works id then
        ((showBets code (seatMembers code members f).1.2).run (ordered code id members f)).2
      else
        ((ordered code id members f).setAttendance .table
          ((ordered code id members f).table.leave code id)).close id := by
  rw [← works_entered f code id members,
    ← isOk_write _ id (.frame (seatMembers code members f).1.1), ordered]
  rw [letIn, run_monad_bind, run_update, run_monad_bind, run_change, run_monad_bind, run_writeTo]
  cases (Floor.write _ _ _).1 with
  | error e => rfl
  | ok _ =>
    rw [run_monad_bind, run_discard]
    rfl

theorem fst_letIn (code : RoomCode) (id : ConnId) (members : List Member) (f : Floor σ) :
    ((letIn code id members).run f).1 =
      ((f.write id (.frame (seatMembers code members f).1.1)).1).mapError .transport := by
  rw [← fst_write_congr (connection?_entered f code id members id)]
  rw [letIn, run_monad_bind, run_update, run_monad_bind, run_change, run_monad_bind, run_writeTo]
  cases (Floor.write _ _ _).1 with
  | error e => rfl
  | ok _ =>
    simp only [run_monad_bind, run_pure]
    rfl

theorem table_ordered (code : RoomCode) (id : ConnId) (members : List Member) (f : Floor σ) :
    (ordered code id members f).table = f.table.enter code id := by
  obtain ⟨tables, entropy, e⟩ := seatMembers_eq code members f
  refine (attendance_write _ id _ .table).trans ?_
  rw [e]
  rfl

theorem distinct_ordered (hd : f.table.Distinct) (code : RoomCode) (id : ConnId)
    (members : List Member) : (ordered code id members f).table.Distinct := by
  rw [table_ordered]
  exact hd.enter code id

theorem mem_present_ordered {room : RoomCode} {x : ConnId} :
    x ∈ (ordered code id members f).table.present room ↔
      x ∈ f.table.present room ∨ (room = code ∧ x = id) := by
  rw [table_ordered, Attendance.mem_present_enter]

theorem lastFrame?_ordered (code : RoomCode) (id : ConnId) (members : List Member) (f : Floor σ)
    (x : ConnId) :
    (ordered code id members f).lastFrame? Frame.isBetState x =
      f.lastFrame? Frame.isBetState x := by
  refine (lastFrame?_write_of_other _ id x fun F hF => ?_).trans (lastFrame?_congr ?_ _ x)
  · cases hF
    rfl
  · exact connections_entered f code id members

theorem ordered_spec (code : RoomCode) (id : ConnId) (members : List Member) (f : Floor σ) :
    ∃ t, Filling f code t ∧
      (seatMembers code members f).1.2 = (filled t members f.config.startingChips).betState ∧
      ∀ other, (ordered code id members f).table? other =
        if other = t.room then some (filled t members f.config.startingChips)
        else f.table? other := by
  obtain ⟨t, tables, entropy, ht, e, htables⟩ := seatMembers_cases code members f
  refine ⟨t, ht, by rw [e], fun other => ?_⟩
  rw [← htables, ordered, table?_write, Delivery.enter, table?_setAttendance, e]
  rfl

theorem told_showBets (hd : (f.attendance .table).Distinct) (code : RoomCode) (t : Table) :
    Told .table Frame.isBetState code t.betState f ((showBets code t.betState).run f).2 :=
  Delivery.told_broadcast rfl hd code

theorem table?_showBets (f : Floor σ) (code : RoomCode) (bets : Frame) (other : RoomCode) :
    ((showBets code bets).run f).2.table? other = f.table? other := by
  have hshow : Delivery.Only (σ := σ) .table (fun _ => True) (showBets code bets) :=
    fun _ h => Delivery.within_broadcast h trivial code
  have h : Same Floor.tables f ((showBets code bets).run f).2 :=
    hshow.same (fun _ _ => rfl) (fun _ _ => rfl) (fun _ _ => rfl) f
  exact congrArg (KeyMap.get? · other) h

/-- However the write of the order went, the one table is filled. -/
theorem table?_letIn {t : Table} (h : ∀ other, (ordered code id members f).table? other =
      if other = t.room then some (filled t members f.config.startingChips) else f.table? other)
    (other : RoomCode) : ((letIn code id members).run f).2.table? other =
      if other = t.room then some (filled t members f.config.startingChips)
      else f.table? other := by
  rw [run_letIn, ← h]
  split
  · exact table?_showBets ..
  · rw [table?_close, table?_setAttendance]

theorem run_join (code : RoomCode) (id : ConnId) [RoomStore σ] (f : Floor σ) :
    (join code id).run f = match RoomStore.members f.store code with
      | .error e => (.error (.store e), f)
      | .ok [] => (.error (.notFound code), f)
      | .ok members => (letIn code id members).run f := by
  rw [join, run_monad_bind, run_look]
  cases RoomStore.members f.store code with
  | error e => rfl
  | ok members => cases members <;> rfl

theorem join_cases (code : RoomCode) (id : ConnId) [RoomStore σ] (f : Floor σ) :
    (((join code id).run f).2 = f ∧ ∀ members, RoomStore.members f.store code = .ok members →
      members = []) ∨
    (∃ members, RoomStore.members f.store code = .ok members ∧ members ≠ [] ∧
      ((join code id).run f).2 = ((letIn code id members).run f).2) := by
  rw [run_join]
  cases h : RoomStore.members f.store code with
  | error e => exact .inl ⟨rfl, fun _ h => nomatch h⟩
  | ok members =>
    cases members with
    | nil => exact .inl ⟨rfl, fun _ h => by cases h; rfl⟩
    | cons m ms => exact .inr ⟨m :: ms, rfl, List.cons_ne_nil m ms, rfl⟩

/-- After a join in a room with members, the room has a table where they sit with those who sat
there before. -/
theorem players_join [RoomStore σ] (h : RoomStore.members f.store code = .ok members)
    (hm : members ≠ []) (hroom : ∀ t, f.table? code = some t → t.room = code) (id : ConnId) :
    ∃ t, ((join code id).run f).2.table? code = some t ∧ ∀ u, u ∈ t.players ↔
      (∃ v, f.table? code = some v ∧ u ∈ v.players) ∨ u ∈ members.map Member.user := by
  obtain ⟨-, hnil⟩ | ⟨ms, hms, -, e⟩ := join_cases code id f
  · exact absurd (hnil members h) hm
  rw [h] at hms
  cases hms
  obtain ⟨t, ht, -, htables⟩ := ordered_spec code id members f
  refine ⟨filled t members f.config.startingChips, ?_, fun u => ?_⟩
  · have hr : t.room = code := by
      obtain ht | ⟨-, source, rfl⟩ := ht
      · exact hroom t ht
      · rfl
    rw [e, table?_letIn htables, if_pos hr.symm]
  · rw [mem_players_filled]
    obtain ht | ⟨hn, source, rfl⟩ := ht
    · simp [ht]
    · simp [hn]

theorem receive_cases (code : RoomCode) (user : UserId) (raw : String) (f : Floor σ) :
    ((receive code user raw).run f).2 = f ∨
    (∃ t c, f.table? code = some t ∧ ((receive code user raw).run f).2 =
      ((showBets code (t.bet user c).2.betState).run (f.setTable (t.bet user c).2)).2) := by
  unfold receive
  cases BetCommand.parse raw with
  | error reason => exact .inl rfl
  | ok c =>
    simp only
    rw [run_monad_bind, run_update]
    obtain ⟨reason, e⟩ | ⟨t, ht, e⟩ := placeBet_cases code user c f
    · rw [e]
      exact .inl rfl
    · rw [e]
      refine .inr ⟨t, c, ht, ?_⟩
      rw [run_monad_bind, run_discard]
      rfl

end Tableside

end Cardroom
