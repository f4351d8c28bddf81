import Cardroom.Proofs.Floor.Presence

namespace Cardroom

variable {σ : Type}

open Script Floor

def Frame.isPlay : Frame → Bool
  | .betState .. | .timer _ => true
  | _ => false

/-- One order of players, one showing of bets, and after that bets and steps of the countdown. -/
inductive TableStream : List Frame → Prop where
  | empty : TableStream []
  | ordered (order : List PlayerEntry) : TableStream [.playerOrder order]
  | shown (order : List PlayerEntry) (room : String) (players : List BetEntry)
      (allConfirmed : Bool) (rest : List Frame) (hrest : ∀ F ∈ rest, F.isPlay = true) :
      TableStream (.playerOrder order :: .betState room players allConfirmed :: rest)

def Underway (frames : List Frame) : Prop :=
  ∃ order room players allConfirmed rest,
    frames = .playerOrder order :: .betState room players allConfirmed :: rest ∧
      ∀ F ∈ rest, F.isPlay = true

namespace Underway

variable {frames news : List Frame}

theorem stream (h : Underway frames) : TableStream frames := by
  obtain ⟨order, room, players, allConfirmed, rest, rfl, hrest⟩ := h
  exact .shown order room players allConfirmed rest hrest

theorem append (h : Underway frames) (hnews : ∀ F ∈ news, F.isPlay = true) :
    Underway (frames ++ news) := by
  obtain ⟨order, room, players, allConfirmed, rest, rfl, hrest⟩ := h
  exact ⟨order, room, players, allConfirmed, rest ++ news, rfl,
    List.forall_mem_append.2 ⟨hrest, hnews⟩⟩

end Underway

namespace Floor

def Follows (x : ConnId) (f g : Floor σ) : Prop :=
  ∃ news, g.frames x = f.frames x ++ news ∧ ∀ F ∈ news, F.isPlay = true

namespace Follows

variable {x : ConnId} {f g : Floor σ}

theorem of_frames (h : g.frames x = f.frames x) : Follows x f g :=
  ⟨[], by rw [h, List.append_nil], nofun⟩

theorem steps (x : ConnId) : Steps (Follows (σ := σ) x) where
  refl _ := of_frames rfl
  trans h h' := by
    obtain ⟨news, e, hnews⟩ := h
    obtain ⟨more, e', hmore⟩ := h'
    exact ⟨news ++ more, by rw [e', e, List.append_assoc], List.forall_mem_append.2 ⟨hnews, hmore⟩⟩

theorem underway (h : Follows x f g) (hf : Underway (f.frames x)) : Underway (g.frames x) := by
  obtain ⟨news, e, hnews⟩ := h
  rw [e]
  exact hf.append hnews

theorem broadcast (hd : f.table.Distinct) (code : RoomCode) {bets : Frame}
    (hbets : bets.isPlay = true) :
    Follows x f ((Tableside.showBets code bets).run f).2 := by
  rw [Follows, Tableside.showBets, Delivery.frames_broadcast .table code hd]
  split
  · exact ⟨[bets], rfl, List.forall_mem_singleton.2 hbets⟩
  · exact of_frames rfl

end Follows

end Floor

namespace Tableside

variable {f : Floor σ} {code : RoomCode} {id x : ConnId} {members : List Member}

theorem frames_ordered (code : RoomCode) (id : ConnId) (members : List Member) (f : Floor σ)
    (x : ConnId) : (ordered code id members f).frames x =
      if x = id ∧ f.works id then f.frames x ++ [(seatMembers code members f).1.1]
      else f.frames x := by
  rw [ordered, frames_write, works_entered, frames_congr (connection?_entered f code id members x)]
  rfl

theorem exists_bets (code : RoomCode) (members : List Member) (f : Floor σ) :
    ∃ room players allConfirmed,
      (seatMembers code members f).1.2 = .betState room players allConfirmed := by
  obtain ⟨t, tables, entropy, -, e, -⟩ := seatMembers_cases code members f
  rw [e]
  exact ⟨_, _, _, rfl⟩

theorem exists_order (code : RoomCode) (members : List Member) (f : Floor σ) :
    ∃ order, (seatMembers code members f).1.1 = .playerOrder order := by
  obtain ⟨t, tables, entropy, -, e, -⟩ := seatMembers_cases code members f
  rw [e]
  exact ⟨_, rfl⟩

theorem follows_letIn (hd : f.table.Distinct) (code : RoomCode) (members : List Member)
    (hx : x ≠ id) : Follows x f ((letIn code id members).run f).2 := by
  have hordered : Follows x f (ordered code id members f) :=
    .of_frames ((frames_ordered ..).trans (if_neg fun h => hx h.1))
  obtain ⟨room, players, allConfirmed, hbets⟩ := exists_bets code members f
  rw [run_letIn, hbets]
  split
  · exact (Follows.steps x).trans hordered (.broadcast (distinct_ordered hd code id members) code rfl)
  · refine (Follows.steps x).trans hordered (.of_frames ?_)
    rw [frames_close, frames_congr (connection?_setAttendance ..)]

/-- What becomes of the one who joins: it is shown the order and the bets, or it is closed when only
the order has arrived, or the join fails and nothing has been heard. -/
inductive Joining (succeeds : Bool) (g : Floor σ) (id : ConnId) : Prop where
  | shown (frames : Underway (g.frames id))
  | cut (frames : TableStream (g.frames id)) (out : ∀ room, id ∉ g.table.present room)
    (closed : ∃ c, g.connection? id = some c ∧ c.closed = true)
  | refused (fails : succeeds = false) (frames : g.frames id = [])
    (out : ∀ room, id ∉ g.table.present room)

theorem isOk_letIn (code : RoomCode) (id : ConnId) (members : List Member) (f : Floor σ) :
    ((letIn code id members).run f).1.isOk = f.works id := by
  rw [fst_letIn, ← isOk_write f id (.frame (seatMembers code members f).1.1)]
  cases (f.write id _).1 <;> rfl

theorem joining_letIn (hd : f.table.Distinct) (hx : ∀ room, id ∉ f.table.present room)
    (hframes : f.frames id = []) (code : RoomCode) (members : List Member) :
    Joining ((letIn code id members).run f).1.isOk ((letIn code id members).run f).2 id := by
  obtain ⟨order, horder⟩ := exists_order code members f
  obtain ⟨room, players, allConfirmed, hbets⟩ := exists_bets code members f
  have hdistinct := distinct_ordered hd code id members
  have hpresent : ∀ room, id ∈ (ordered code id members f).table.present room ↔ room = code :=
    fun room => mem_present_ordered.trans
      ⟨fun h => (h.resolve_left (hx room)).1, fun h => .inr ⟨h, rfl⟩⟩
  have hordered := frames_ordered code id members f id
  rw [isOk_letIn, run_letIn]
  cases hw : f.works id with
  | false =>
    rw [if_neg Bool.false_ne_true]
    refine .refused rfl ?_ fun room h => ?_
    · rw [frames_close, frames_congr (connection?_setAttendance ..), hordered, hw,
        if_neg fun h => Bool.false_ne_true h.2, hframes]
    · obtain ⟨h, hleft⟩ := (Attendance.mem_present_leave hdistinct).1 h
      exact hleft ⟨(hpresent room).1 h, rfl⟩
  | true =>
    rw [hw, if_pos ⟨rfl, rfl⟩, hframes, horder] at hordered
    rw [if_pos rfl, hbets, showBets]
    have hmem : id ∈ ((ordered code id members f).attendance .table).present code :=
      (hpresent code).2 rfl
    cases hnext : (ordered code id members f).works id with
    | true =>
      refine .shown ⟨order, room, players, allConfirmed, [], ?_, nofun⟩
      rw [Delivery.frames_broadcast .table code hdistinct, if_pos ⟨hmem, hnext⟩, hordered]
      rfl
    | false =>
      refine .cut ?_ (fun other h => ?_) ?_
      · rw [Delivery.frames_broadcast .table code hdistinct, hnext,
          if_neg fun h => Bool.false_ne_true h.2, hordered]
        exact .ordered order
      · obtain ⟨h, hleft⟩ := (Delivery.mem_present_broadcast .table code hdistinct _).1 h
        exact hleft ⟨(hpresent other).1 h, hnext⟩
      · -- the write of the bets fails, and who attends is closed then
        obtain ⟨c, hc⟩ : ∃ c, (ordered code id members f).connection? id = some c := by
          rw [frames] at hordered
          cases hc : (ordered code id members f).connection? id with
          | none => simp [hc] at hordered
          | some c => exact ⟨c, rfl⟩
        rw [Delivery.connection?_broadcast .table code hdistinct, if_pos hmem, hnext, hc]
        exact ⟨_, rfl, Connection.closed_close _⟩

theorem follows_receive (hd : f.table.Distinct) (code : RoomCode) (user : UserId) (raw : String)
    (x : ConnId) : Follows x f ((receive code user raw).run f).2 := by
  obtain e | ⟨t, c, -, e⟩ := receive_cases code user raw f
  · rw [e]
    exact (Follows.steps x).refl f
  · rw [e]
    exact Follows.broadcast (f := f.setTable _) hd code rfl

theorem silent_closeRoom (code : RoomCode) (f : Floor σ) :
    Silent f ((closeRoom code).run f).2 := by
  have hdrop := Silent.of_only (Delivery.only_dropRoom .table code) f
  have hclear : Silent ((Delivery.dropRoom .table code).run f).2 ((closeRoom code).run f).2 := by
    rw [closeRoom, run_monad_bind, run_discard, run_change]
    exact .of_same fun _ => rfl
  exact Silent.steps.trans hdrop hclear

variable [RoomStore σ]

theorem joining_join (hd : f.table.Distinct) (hx : ∀ room, id ∉ f.table.present room)
    (hframes : f.frames id = []) (code : RoomCode) :
    Joining ((join code id).run f).1.isOk ((join code id).run f).2 id := by
  rw [join, run_monad_bind, run_look]
  split
  · exact .refused rfl hframes hx
  · exact .refused rfl hframes hx
  · exact joining_letIn hd hx hframes code _

end Tableside

namespace TableAct

theorem follows [RoomStore σ] {f : Floor σ} (hd : f.table.Distinct) (a : TableAct) {x : ConnId}
    (hx : ∀ code, a ≠ .joins code x) : Follows x f (a.script.run f).2 := by
  cases a with
  | joins code id =>
    have hne : x ≠ id := fun e => hx code (e ▸ rfl)
    rw [script, run_discard]
    obtain ⟨e, -⟩ | ⟨members, -, -, e⟩ := Tableside.join_cases code id f
    · rw [e]
      exact (Follows.steps x).refl f
    · rw [e]
      exact Tableside.follows_letIn hd code members hne
  | receives code user raw =>
    rw [script, run_discard]
    exact Tableside.follows_receive hd code user raw x
  | leaves code id =>
    refine .of_frames ?_
    rw [script, Tableside.leave, run_discard]
    exact frames_congr (Delivery.connection?_unregister ..)
  | closes code =>
    rw [script]
    exact .of_frames (Tableside.silent_closeRoom code f x).2

end TableAct

end Cardroom
