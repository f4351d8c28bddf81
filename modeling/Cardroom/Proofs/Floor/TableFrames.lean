import Cardroom.Proofs.Floor.Chips
import Cardroom.Proofs.Floor.Moments
import Cardroom.Proofs.Floor.Sending
import Cardroom.Proofs.Floor.TableView

namespace Cardroom

variable {σ : Type}

open Script Tableside

/-! ### Frames that are sent -/

namespace Connection

/-- The frames of the room that were written, in order, whether they reached the client or not. -/
def sent (c : Connection) : List Frame := (c.attempts.filterMap (·.payload.frame?)).reverse

theorem sent_attempt (c : Connection) (p : Payload) :
    (c.attempt p).2.sent = c.sent ++ p.frame?.toList := by
  simp only [sent, attempt, react, record, List.filterMap_cons]
  cases p.frame? <;> simp

theorem sent_write (c : Connection) (p : Payload) :
    (c.write p).2.sent = if c.closed then c.sent else c.sent ++ p.frame?.toList := by
  unfold write
  split
  · rfl
  · exact sent_attempt c p

@[simp] theorem sent_close (c : Connection) : c.close.sent = c.sent := by
  unfold close
  split
  · rfl
  · exact (sent_attempt c.markClosed .close).trans (List.append_nil _)

end Connection

namespace Floor

def sent (f : Floor σ) (id : ConnId) : List Frame := (f.connection? id).elim [] Connection.sent

variable {f g : Floor σ} {id x : ConnId}

theorem sent_congr (h : g.connection? id = f.connection? id) : g.sent id = f.sent id := by
  rw [sent, h, sent]

theorem sent_write (f : Floor σ) (id : ConnId) (p : Payload) (x : ConnId) :
    (f.write id p).2.sent x =
      if x = id ∧ f.isClosed id = false then f.sent x ++ p.frame?.toList else f.sent x := by
  simp only [sent, connection?_write, isClosed]
  by_cases hx : x = id
  · subst hx
    obtain hc | ⟨c, hc⟩ := Option.eq_none_or_eq_some (f.connection? x)
    · simp [hc]
    · cases hclosed : c.closed <;> simp [hc, Connection.sent_write, hclosed]
  · simp [hx]

@[simp] theorem sent_close (f : Floor σ) (id x : ConnId) : (f.close id).sent x = f.sent x := by
  simp only [sent, connection?_close]
  split
  · cases f.connection? x <;> simp
  · rfl

theorem sent_broadcast (side : Side) (room : RoomCode) (hd : (f.attendance side).Distinct)
    (F : Frame) (x : ConnId) : ((Delivery.broadcast side room (.frame F)).run f).2.sent x =
      if x ∈ (f.attendance side).present room ∧ f.isClosed x = false then f.sent x ++ [F]
      else f.sent x := by
  simp only [sent, Delivery.connection?_broadcast side room hd, isClosed]
  by_cases hx : x ∈ (f.attendance side).present room
  · obtain hc | ⟨c, hc⟩ := Option.eq_none_or_eq_some (f.connection? x)
    · simp [hc]
    · cases hclosed : c.closed <;> cases f.works x <;>
        simp [hx, hc, Connection.sent_write, hclosed, Payload.frame?]
  · simp [hx]

def Sends (K : ConnId → Frame → Prop) (f g : Floor σ) : Prop :=
  ∀ x, ∃ news, g.sent x = f.sent x ++ news ∧ ∀ F ∈ news, K x F

namespace Sends

variable {K : ConnId → Frame → Prop} {k : Floor σ}

theorem steps : Steps (Sends (σ := σ) K) where
  refl _ _ := ⟨[], (List.append_nil _).symm, fun _ h => nomatch h⟩
  trans h h' x := by
    obtain ⟨news, e, hK⟩ := h x
    obtain ⟨more, e', hK'⟩ := h' x
    exact ⟨news ++ more, by rw [e', e, List.append_assoc], List.forall_mem_append.2 ⟨hK, hK'⟩⟩

theorem of_same (h : ∀ x, g.connection? x = f.connection? x) : Sends K f g :=
  fun x => ⟨[], by rw [sent_congr (h x), List.append_nil], fun _ h => nomatch h⟩

theorem imp {L : ConnId → Frame → Prop} (h : Sends K f g) (hKL : ∀ x F, K x F → L x F) :
    Sends L f g := fun x =>
  (h x).imp fun _ hx => ⟨hx.1, fun F hF => hKL x F (hx.2 F hF)⟩

theorem write (f : Floor σ) (id : ConnId) {p : Payload} (hp : ∀ F, p.frame? = some F → K id F) :
    Sends K f (f.write id p).2 := by
  intro x
  rw [sent_write]
  split
  · rename_i h
    exact ⟨_, rfl, fun F hF => h.1 ▸ hp F (Option.mem_toList.1 hF)⟩
  · exact steps.refl f x

theorem close (f : Floor σ) (id : ConnId) : Sends K f (f.close id) :=
  fun x => ⟨[], by rw [sent_close, List.append_nil], fun _ h => nomatch h⟩

theorem delivery (side : Side) {K L : Frame → Prop} (hKL : ∀ F, K F → L F) :
    Delivery.Allowed (Sends (σ := σ) fun _ => L) side K where
  toSteps := steps
  write f id F hF := write f id fun G hG => by
    cases hG
    exact hKL F hF
  close := close
  shrink f a _ := of_same fun x => connection?_setAttendance f side a x
  count _ _ _ := of_same fun _ => rfl

end Sends

abbrev SendsNoTable : Floor σ → Floor σ → Prop := Sends fun _ F => F.side? ≠ some .table

namespace SendsNoTable

theorem silent {side : Side} {s : Script σ α} (h : Delivery.Only side Delivery.silent s)
    (f : Floor σ) : SendsNoTable f (s.run f).2 :=
  (h _ (Sends.delivery side fun _ hF => hF.elim)).run Sends.steps f

theorem client : ClientAct.Allowed (SendsNoTable (σ := σ)) where
  toSteps := Sends.steps
  connect f id user sink := by
    unfold connect
    split
    · exact Sends.steps.refl f
    · rename_i h
      intro x
      refine ⟨[], ?_, fun _ h => nomatch h⟩
      rw [List.append_nil, sent, openConnection, connection?_setConnection]
      split
      · rename_i hx
        rw [sent, hx, Option.not_isSome_iff_eq_none.1 h]
        rfl
      · rfl
  turn f id sink x := by
    refine ⟨[], ?_, fun _ h => nomatch h⟩
    simp only [sent, turn, connection?_modifyConnection, List.append_nil]
    split
    · cases f.connection? x <;> rfl
    · rfl
  close := Sends.close
  write f id p hp := Sends.write f id fun F hF => by simp [hp F hF]

theorem lobby [RoomStore σ] : Lobby.Allowed (SendsNoTable (σ := σ)) where
  toAllowed := Sends.delivery .lobby fun F hF => by simp [hF]
  enter f _ _ := Sends.of_same fun x => connection?_setAttendance f .lobby _ x
  ready f code user ready := by
    obtain ⟨s, e⟩ := Lobby.setReady_eq code user ready f
    rw [e]
    exact Sends.of_same fun _ => rfl

end SendsNoTable

/-! ### What acts do to tables -/

end Floor

def Act.Clears (code : RoomCode) (a : Act σ) : Prop :=
  a = .table (.closes code) ∨ a = .roomClosed code

namespace Floor

/-- All that an act can do to the tables, and the frames of the tables that it sends. -/
inductive Plays [RoomStore σ] (f : Floor σ) (a : Act σ) (g : Floor σ) : Prop where
  | rests (tables : g.tables = f.tables) (sends : SendsNoTable f g)
  | clears (code : RoomCode) (act : a.Clears code)
    (tables : ∀ other, other ≠ code → g.table? other = f.table? other) (sends : SendsNoTable f g)
  | bets (code : RoomCode) (t u : Table) (before : f.table? code = some t)
    (dealer : u.dealer = t.dealer)
    (tables : ∀ other, g.table? other = if other = code then some u else f.table? other)
    (sends : Sends (fun _ F => F = u.betState) f g)
  | joins (code : RoomCode) (id : ConnId) (members : List Member) (t u : Table)
    (act : a = .table (.joins code id)) (read : RoomStore.members f.store code = .ok members)
    (filling : Filling f code t) (filled : u = filled t members f.config.startingChips)
    (tables : ∀ other, g.table? other = if other = code then some u else f.table? other)
    (sends : Sends (fun x F => (x = id ∧ F = u.playerOrder members) ∨ F = u.betState) f g)
    (joiner : f.table.Distinct → g.sent id = f.sent id ++ if f.isClosed id then [] else
      u.playerOrder members :: if f.works id then [u.betState] else [])

variable {f : Floor σ} {code : RoomCode} {id : ConnId} {members : List Member}

theorem sends_showBets (f : Floor σ) (code : RoomCode) (bets : Frame) :
    Sends (fun _ F => F = bets) f ((showBets code bets).run f).2 :=
  (Delivery.within_broadcast (K := (· = bets)) (Sends.delivery .table fun _ h => h) rfl code).run
    Sends.steps f

theorem sends_ordered (code : RoomCode) (id : ConnId) (members : List Member) (f : Floor σ) :
    Sends (fun x F => x = id ∧ F = (seatMembers code members f).1.1) f
      (ordered code id members f) := by
  have hentered := Sends.of_same (K := fun x F => x = id ∧ F = (seatMembers code members f).1.1)
    (connection?_entered f code id members)
  refine Sends.steps.trans hentered (Sends.write _ id fun F hF => ?_)
  cases hF
  exact ⟨rfl, rfl⟩

theorem sends_letIn (code : RoomCode) (id : ConnId) (members : List Member) (f : Floor σ) :
    Sends (fun x F => (x = id ∧ F = (seatMembers code members f).1.1) ∨
      F = (seatMembers code members f).1.2) f ((letIn code id members).run f).2 := by
  have hordered := (sends_ordered code id members f).imp
    (L := fun x F => (x = id ∧ F = (seatMembers code members f).1.1) ∨
      F = (seatMembers code members f).1.2) fun _ _ => Or.inl
  rw [run_letIn]
  split
  · exact Sends.steps.trans hordered ((sends_showBets _ code _).imp fun _ _ => Or.inr)
  · exact Sends.steps.trans hordered <|
      Sends.steps.trans (Sends.of_same fun x => connection?_setAttendance _ .table _ x)
        (Sends.close _ id)

theorem seatMembers_spec (code : RoomCode) (members : List Member) (f : Floor σ) :
    ∃ t, Filling f code t ∧ (seatMembers code members f).1 =
      ((filled t members f.config.startingChips).playerOrder members,
        (filled t members f.config.startingChips).betState) ∧
      ∀ id other, (ordered code id members f).table? other =
        if other = t.room then some (filled t members f.config.startingChips)
        else f.table? other := by
  obtain ⟨t, tables, entropy, ht, e, htables⟩ := seatMembers_cases code members f
  refine ⟨t, ht, by rw [e], fun id other => ?_⟩
  rw [← htables, ordered, table?_write, Delivery.enter, table?_setAttendance, e]
  rfl

/-- What a join sends to the one who joins. -/
theorem sent_letIn (hd : f.table.Distinct) (code : RoomCode) (id : ConnId) (members : List Member) :
    ((letIn code id members).run f).2.sent id = f.sent id ++
      if f.isClosed id then [] else (seatMembers code members f).1.1 ::
        if f.works id then [(seatMembers code members f).1.2] else [] := by
  have hentered := connection?_entered f code id members id
  have hordered : (ordered code id members f).sent id =
      if f.isClosed id = false then f.sent id ++ [(seatMembers code members f).1.1]
      else f.sent id := by
    rw [ordered, sent_write, isClosed_congr hentered, sent_congr hentered]
    simp [Payload.frame?]
  have hclosed : (ordered code id members f).isClosed id = f.isClosed id :=
    (isClosed_write ..).trans (isClosed_congr hentered)
  rw [run_letIn]
  cases hw : f.works id with
  | true =>
    have hpresent : id ∈ ((ordered code id members f).attendance .table).present code :=
      mem_present_ordered.2 (.inr ⟨rfl, rfl⟩)
    have hdistinct : ((ordered code id members f).attendance .table).Distinct :=
      distinct_ordered hd code id members
    have hopen := isClosed_of_works hw
    rw [if_pos rfl, showBets, sent_broadcast .table code hdistinct, hclosed, hordered]
    simp [hopen, hpresent]
  | false =>
    rw [if_neg Bool.false_ne_true, sent_close, sent_congr (connection?_setAttendance ..), hordered]
    cases f.isClosed id <;> simp

section

variable [RoomStore σ]

theorem plays_closeRoom (code : RoomCode) {a : Act σ} (ha : a.Clears code) {g : Floor σ}
    (hg : g.tables = f.tables) (hs : SendsNoTable f g) :
    Plays f a ((Tableside.closeRoom code).run g).2 := by
  have hdrop := Delivery.only_dropRoom (σ := σ) .table code
  have htables : Same Floor.tables g ((Delivery.dropRoom .table code).run g).2 :=
    hdrop.same (fun _ _ => rfl) (fun _ _ => rfl) (fun _ _ => rfl) g
  rw [Tableside.closeRoom, run_monad_bind, run_discard, run_change]
  refine .clears code ha (fun other hne => ?_) ?_
  · rw [table?_removeTable, if_neg hne]
    exact congrArg (KeyMap.get? · other) (htables.trans hg)
  · exact Sends.steps.trans hs <|
      Sends.steps.trans (SendsNoTable.silent hdrop g) (Sends.of_same fun _ => rfl)

theorem plays_perform (hd : f.Every Table.Drawn) (a : Act σ) : Plays f a (f.perform a) := by
  cases a with
  | client a =>
    exact .rests ((a.within (ClientAct.same fun _ _ => rfl)).run (Same.steps _) f)
      ((a.within SendsNoTable.client).run Sends.steps f)
  | edits change => exact .rests rfl (Sends.of_same fun _ => rfl)
  | lobby a =>
    exact .rests ((a.within (Lobby.same (fun _ _ => rfl) (fun _ _ => rfl) (fun _ _ => rfl)
      fun _ _ => rfl)).run (Same.steps _) f) ((a.within SendsNoTable.lobby).run Sends.steps f)
  | table a =>
    cases a with
    | joins code id =>
      rw [perform, Act.script, TableAct.script, run_discard]
      obtain ⟨e, -⟩ | ⟨members, hm, -, e⟩ := join_cases code id f
      · rw [e]
        exact .rests rfl (Sends.of_same fun _ => rfl)
      · rw [e]
        obtain ⟨t, ht, hframes, htables⟩ := seatMembers_spec code members f
        have hsends := sends_letIn code id members f
        rw [hframes] at hsends
        refine .joins code id members t _ rfl hm ht rfl (fun other => ?_) hsends fun hdistinct => ?_
        · rw [table?_letIn (htables id), room_of_filling hd ht]
        · rw [sent_letIn hdistinct, hframes]
    | receives code user raw =>
      rw [perform, Act.script, TableAct.script, run_discard]
      obtain e | ⟨t, c, ht, e⟩ := receive_cases code user raw f
      · rw [e]
        exact .rests rfl (Sends.of_same fun _ => rfl)
      · rw [e]
        have hroom : (t.bet user c).2.room = code :=
          (Table.bet_room t user c).trans (hd code t ht).room_eq
        refine .bets code t (t.bet user c).2 ht (Table.bet_dealer t user c) (fun other => ?_) ?_
        · rw [table?_showBets, table?_setTable, hroom]
        · exact Sends.steps.trans (Sends.of_same fun _ => rfl) (sends_showBets _ code _)
    | leaves code id =>
      have hleave : Delivery.Only (σ := σ) .table Delivery.silent (TableAct.leaves code id).script :=
        fun _ h => (Delivery.within_unregister h code id).discard
      exact .rests (hleave.same (fun _ _ => rfl) (fun _ _ => rfl) (fun _ _ => rfl) f)
        (SendsNoTable.silent hleave f)
    | closes code => exact plays_closeRoom code (.inl rfl) rfl (Sends.steps.refl f)
  | roomClosed code =>
    have hdrop := Delivery.only_dropRoom (σ := σ) .lobby code
    have htables : Same Floor.tables f ((Delivery.dropRoom .lobby code).run f).2 :=
      hdrop.same (fun _ _ => rfl) (fun _ _ => rfl) (fun _ _ => rfl) f
    rw [perform, Act.script, Door.roomClosed, run_monad_bind, run_discard, Lobby.closeRoom]
    exact plays_closeRoom code (.inr rfl) htables (SendsNoTable.silent hdrop f)

end

/-! ### Dealers stay -/

theorem dealer_filled {t : Table} (hd : t.Drawn code) (members : List Member) (chips : Int) :
    (filled t members chips).dealer = t.dealer := by
  obtain ⟨d, -, hdealer⟩ := hd.dealer
  have h : (t.seatMembers members chips).2.dealer = some d :=
    (Table.seatMembers_dealer ..).trans hdealer
  rw [filled, Table.ensureDealer_of_isSome h, h, hdealer]

/-- Who deals at a table does so until the table is cleared. -/
theorem Plays.dealer [RoomStore σ] {a : Act σ} {g : Floor σ} (h : Plays f a g)
    (hd : f.Every Table.Drawn) (ha : ¬ a.Clears code) {t : Table} (ht : f.table? code = some t) :
    ∃ u, g.table? code = some u ∧ u.dealer = t.dealer := by
  cases h with
  | rests tables sends => exact ⟨t, (congrArg (KeyMap.get? · code) tables).trans ht, rfl⟩
  | clears other act tables sends =>
    have hne : code ≠ other := fun e => ha (e ▸ act)
    exact ⟨t, (tables code hne).trans ht, rfl⟩
  | bets other v u before dealer tables sends =>
    rw [tables]
    split
    · rename_i h
      subst h
      cases ht.symm.trans before
      exact ⟨u, rfl, dealer⟩
    · exact ⟨t, ht, rfl⟩
  | joins other id members v u act read filling filled tables sends joiner =>
    rw [tables]
    split
    · rename_i h
      subst h
      cases filling_eq filling ht
      exact ⟨u, rfl, filled ▸ dealer_filled (hd code t ht) members _⟩
    · exact ⟨t, ht, rfl⟩

end Floor

/-! ### Frames that are consistent -/

/-- Everyone is listed once, bets and stacks are no debts and make up the stake, and all have
confirmed if everyone listed has. -/
structure ConsistentBets (stake : Int) (players : List BetEntry) (allConfirmed : Bool) : Prop where
  users_nodup : (players.map (·.user)).Nodup
  balanced : ∀ p ∈ players, 0 ≤ p.bet ∧ 0 ≤ p.chips ∧ p.bet + p.chips = stake
  confirmed_iff : allConfirmed = true ↔ ∀ p ∈ players, p.confirmed = true

/-- Every member is listed and one of those listed is the dealer. Who is ready and who is the host
is as the members have it; who is not a member is neither. -/
structure ConsistentOrder (members : List Member) (order : List PlayerEntry) : Prop where
  everyone : ∀ m ∈ members, m.user ∈ order.map (·.user)
  dealer : ∃ d, order.filter (·.isDealer) = [d]
  member : ∀ p ∈ order, ∀ m, members.find? (·.user = p.user) = some m →
    p.isReady = m.isReady ∧ p.isHost = m.isHost
  stranger : ∀ p ∈ order, p.user ∉ members.map (·.user) → p.isReady = false ∧ p.isHost = false

namespace Table

variable {code : RoomCode} {t : Table} {members : List Member}

theorem consistentBets {stake : Int} (h : Fair stake t) (hs : 0 ≤ stake) :
    ConsistentBets stake (t.seats.map Seat.betEntry) t.allConfirmed := by
  refine ⟨?_, ?_, ?_⟩
  · rw [List.map_map]
    exact h.players_nodup
  · rw [List.forall_mem_map]
    intro s hseat
    by_cases hd : t.dealer = some s.user
    · obtain ⟨hbet, -, hchips⟩ := h.dealt s hseat hd
      simp [Seat.betEntry, hbet, hchips, hs]
    · obtain ⟨hbet, hchips, hsum⟩ := h.balanced s hseat hd
      exact ⟨hbet, hchips, hsum⟩
  · -- the dealer, who is passed over, counts as confirmed
    rw [List.forall_mem_map, allConfirmed, List.all_eq_true]
    refine forall₂_congr fun s hseat => ?_
    simp only [Bool.or_eq_true, decide_eq_true_eq]
    exact ⟨fun h' => h'.elim (fun hd => (h.dealt s hseat hd).confirmed_eq) id, Or.inr⟩

theorem filter_isDealer (h : t.Drawn code) (members : List Member) :
    ∃ d ∈ t.players, t.dealer = some d ∧ ∃ p, p.user = d ∧
      (t.seats.map (t.orderEntry members)).filter (·.isDealer) = [p] := by
  obtain ⟨d, hmem, hd⟩ := h.dealer
  have hone : t.players.filter (· = d) = [d] := by
    rw [List.filter_eq, List.count_eq_one_of_mem h.players_nodup hmem]
    rfl
  rw [players, List.filter_map, List.map_eq_singleton_iff] at hone
  obtain ⟨s, hs, rfl⟩ := hone
  refine ⟨s.user, hmem, hd, t.orderEntry members s, rfl, ?_⟩
  have hdealer : (fun r : Seat => (t.orderEntry members r).isDealer) =
      fun r => decide (r.user = s.user) := by
    funext r
    simp [orderEntry, hd, eq_comm]
  rw [List.filter_map]
  change ((t.seats.filter fun r => (t.orderEntry members r).isDealer).map _) = _
  rw [hdealer]
  exact congrArg (List.map (t.orderEntry members)) hs

theorem consistentOrder (h : t.Drawn code) (hm : ∀ m ∈ members, m.user ∈ t.players) :
    ConsistentOrder members (t.seats.map (t.orderEntry members)) := by
  refine ⟨fun m hmem => ?_, ?_, ?_, ?_⟩
  · rw [List.map_map]
    exact hm m hmem
  · obtain ⟨-, -, -, p, -, hp⟩ := filter_isDealer h members
    exact ⟨p, hp⟩
  · rw [List.forall_mem_map]
    intro s _ m hfind
    change members.find? (·.user = s.user) = some m at hfind
    simp [orderEntry, hfind]
  · rw [List.forall_mem_map]
    intro s _ hnot
    have hfind : members.find? (·.user = s.user) = none := by
      rw [List.find?_eq_none]
      intro m hmem he
      exact hnot (List.mem_map.2 ⟨m, hmem, of_decide_eq_true he⟩)
    simp [orderEntry, hfind]

end Table

namespace Floor

variable [RoomStore σ]

/-! ### The frames of a run -/

def sentBy (f : Floor σ) (a : Act σ) (id : ConnId) : List Frame :=
  ((f.perform a).sent id).drop (f.sent id).length

theorem sentBy_of_sent {f : Floor σ} {a : Act σ} {id : ConnId} {news : List Frame}
    (h : (f.perform a).sent id = f.sent id ++ news) : f.sentBy a id = news := by
  rw [sentBy, h, List.drop_left]

theorem Sends.sentBy {f : Floor σ} {a : Act σ} {K : ConnId → Frame → Prop}
    (h : Sends K f (f.perform a)) (id : ConnId) :
    (f.perform a).sent id = f.sent id ++ f.sentBy a id ∧ ∀ F ∈ f.sentBy a id, K id F := by
  obtain ⟨news, e, hK⟩ := h id
  rw [sentBy_of_sent e]
  exact ⟨e, hK⟩

theorem Plays.sent {f : Floor σ} {a : Act σ} (h : Plays f a (f.perform a)) (id : ConnId) :
    (f.perform a).sent id = f.sent id ++ f.sentBy a id := by
  cases h with
  | rests tables sends => exact (sends.sentBy id).1
  | clears code act tables sends => exact (sends.sentBy id).1
  | bets code t u before dealer tables sends => exact (sends.sentBy id).1
  | joins code x members t u act read filling filled tables sends joiner =>
    exact (sends.sentBy id).1

/-- Bets that are sent are those of a table as it is then, and it has the dealer that it had. -/
theorem Plays.betState {f : Floor σ} {a : Act σ} (h : Plays f a (f.perform a))
    (hd : f.Every Table.Drawn) {id : ConnId} {F : Frame} (hF : F ∈ f.sentBy a id)
    (hb : F.isBetState = true) :
    ∃ code u, (f.perform a).table? code = some u ∧ F = u.betState ∧
      ∀ t, f.table? code = some t → u.dealer = t.dealer := by
  have hside : F.side? = some .table := by
    by_contra hne
    exact Bool.false_ne_true ((Frame.isBetState_of_side? hne).symm.trans hb)
  cases h with
  | rests tables sends => exact absurd hside ((sends.sentBy id).2 F hF)
  | clears code act tables sends => exact absurd hside ((sends.sentBy id).2 F hF)
  | bets code t u before dealer tables sends =>
    refine ⟨code, u, (tables code).trans (if_pos rfl), (sends.sentBy id).2 F hF, fun v hv => ?_⟩
    cases before.symm.trans hv
    exact dealer
  | joins code x members t u act read filling filled tables sends joiner =>
    obtain ⟨-, rfl⟩ | hF := (sends.sentBy id).2 F hF
    · cases hb
    · refine ⟨code, u, (tables code).trans (if_pos rfl), hF, fun v hv => ?_⟩
      cases filling_eq filling hv
      exact filled ▸ dealer_filled (hd code t hv) members _

/-- The act is a join in whose course `order` is sent to the one who joins, and then the bets of the
same players to all. -/
structure OrderShown (f : Floor σ) (a : Act σ) (code : RoomCode) (id : ConnId)
    (order : List PlayerEntry) (players : List BetEntry) (allConfirmed : Bool) : Prop where
  act : a = .table (.joins code id)
  consistent : ∃ members, RoomStore.members f.store code = .ok members ∧
    ConsistentOrder members order
  same_users : players.map (·.user) = order.map (·.user)
  joiner : f.sentBy a id = .playerOrder order ::
    if f.works id then [.betState code.text players allConfirmed] else []
  others : ∀ x, x ≠ id → ∀ F ∈ f.sentBy a x, F = .betState code.text players allConfirmed

/-- An order of players is sent by a join only, and its dealer is the table's. -/
theorem Plays.order {f : Floor σ} {a : Act σ} (h : Plays f a (f.perform a))
    (hd : (f.perform a).Every Table.Drawn) (ht : f.table.Distinct) {id : ConnId}
    {order : List PlayerEntry} (hF : .playerOrder order ∈ f.sentBy a id) :
    ∃ code u players allConfirmed, (f.perform a).table? code = some u ∧
      OrderShown f a code id order players allConfirmed ∧
      ∀ p ∈ order, p.isDealer = true → u.dealer = some p.user := by
  cases h with
  | rests tables sends => exact absurd rfl ((sends.sentBy id).2 _ hF)
  | clears code act tables sends => exact absurd rfl ((sends.sentBy id).2 _ hF)
  | bets code t u before dealer tables sends => cases (sends.sentBy id).2 _ hF
  | joins code x members t u act read filling filled tables sends joiner =>
    have hu : (f.perform a).table? code = some u := (tables code).trans (if_pos rfl)
    have hdrawn : u.Drawn code := hd code u hu
    have hroom : u.betState =
        .betState code.text (u.seats.map Seat.betEntry) u.allConfirmed := by
      rw [Table.betState, hdrawn.room_eq]
    have hall : ∀ m ∈ members, m.user ∈ u.players := fun m hm => by
      rw [filled]
      exact mem_players_filled.2 (.inr (List.mem_map_of_mem hm))
    rw [hroom] at sends joiner
    obtain ⟨rfl, horder⟩ | hbets := (sends.sentBy id).2 _ hF
    · cases horder
      refine ⟨code, u, u.seats.map Seat.betEntry, u.allConfirmed, hu, ?_, ?_⟩
      · have hnews := sentBy_of_sent (joiner ht)
        refine ⟨act, ⟨members, read, Table.consistentOrder hdrawn hall⟩, ?_, ?_, ?_⟩
        · rw [List.map_map, List.map_map]
          rfl
        · rw [hnews] at hF ⊢
          -- nothing is sent to a connection that is closed
          split at hF
          · exact absurd hF List.not_mem_nil
          · rename_i hopen
            exact if_neg hopen
        · intro x hx F hF
          exact ((sends.sentBy x).2 F hF).resolve_left fun h => hx h.1
      · rw [List.forall_mem_map]
        intro s _ hdealer
        exact of_decide_eq_true hdealer
    · cases hbets

section

variable {config : Config} {secret : String} {store : σ} {entropy : Random.Source}

theorem plays_after (acts : List (Act σ)) (a : Act σ) :
    Plays ((new config secret store entropy).after acts) a
      (((new config secret store entropy).after acts).perform a) :=
  plays_perform (every_drawn_after acts) a

theorem after_snoc (f : Floor σ) (pre : List (Act σ)) (a : Act σ) :
    f.after (pre ++ [a]) = (f.after pre).perform a :=
  f.after_append pre [a]

/-- The dealer of a table deals there as long as the table is not cleared. -/
theorem dealer_after {code : RoomCode} {pre mid : List (Act σ)} {t : Table}
    (ht : ((new config secret store entropy).after pre).table? code = some t)
    (hmid : ∀ c ∈ mid, ¬ c.Clears code) :
    ∃ u, ((new config secret store entropy).after (pre ++ mid)).table? code = some u ∧
      u.dealer = t.dealer := by
  induction mid generalizing pre t with
  | nil => exact ⟨t, by rwa [List.append_nil], rfl⟩
  | cons c mid ih =>
    obtain ⟨hc, hmid⟩ := List.forall_mem_cons.1 hmid
    obtain ⟨v, hv, hdealer⟩ := (plays_after pre c).dealer (every_drawn_after pre) hc ht
    rw [← after_snoc] at hv
    obtain ⟨u, hu, hdealer'⟩ := ih hv hmid
    exact ⟨u, by rwa [List.append_cons], hdealer'.trans hdealer⟩

theorem consistentBets_after (hpos : 0 ≤ config.startingChips) (acts : List (Act σ)) (id : ConnId)
    {room : String} {players : List BetEntry} {allConfirmed : Bool}
    (h : .betState room players allConfirmed ∈
      ((new config secret store entropy).after acts).sent id) :
    ConsistentBets config.startingChips players allConfirmed := by
  -- what the last act has sent shows a table of its time, and that table is fair
  induction acts using List.reverseRecOn with
  | nil => nomatch h
  | append_singleton pre a ih =>
    rw [after_snoc, (plays_after pre a).sent] at h
    rcases List.mem_append.1 h with h | h
    · exact ih h
    · obtain ⟨code, u, hu, e, -⟩ := (plays_after pre a).betState (every_drawn_after pre) h rfl
      rw [← after_snoc] at hu
      obtain ⟨-, hfair⟩ := every_after (Table.kept_fair hpos) secret store entropy _ code u hu
      cases e
      exact Table.consistentBets hfair hpos

theorem dealer_entry {stake : Int} {code : RoomCode} {t : Table} (hd : t.Drawn code)
    (hf : t.Fair stake) {d : UserId} (h : t.dealer = some d) :
    ∃ p ∈ t.seats.map Seat.betEntry, p.user = d ∧ p.bet = 0 ∧ p.confirmed = true := by
  obtain ⟨e, hmem, he⟩ := hd.dealer
  cases he.symm.trans h
  obtain ⟨s, hs, rfl⟩ := Table.mem_players_iff.1 hmem
  obtain ⟨hbet, hconfirmed, -⟩ := hf.dealt s hs h
  exact ⟨s.betEntry, List.mem_map_of_mem hs, rfl, hbet, hconfirmed⟩

theorem text_inj {code other : RoomCode} (h : code.text = other.text) : code = other := by
  cases code
  cases other
  cases h
  rfl

/-- In every run, bets that are sent are consistent, and an order of players is sent by a join, is
consistent and lists the players of the bets that the join sends next; until the table is cleared,
its dealer stands with no bet and confirmed in all bets that are sent of it. -/
theorem table_frames (config : Config) (hpos : 0 < config.startingChips) (secret : String)
    (store : σ) (entropy : Random.Source) (acts : List (Act σ)) :
    let start := new config secret store entropy
    (∀ id room players allConfirmed,
      .betState room players allConfirmed ∈ (start.after acts).sent id →
        ConsistentBets config.startingChips players allConfirmed) ∧
    ∀ pre a post id order, acts = pre ++ a :: post →
      .playerOrder order ∈ (start.after pre).sentBy a id →
      ∃ code players allConfirmed,
        OrderShown (start.after pre) a code id order players allConfirmed ∧
        ∀ d ∈ order, d.isDealer = true → ∀ mid b rest, a :: post = mid ++ b :: rest →
          (∀ c ∈ mid, ¬ c.Clears code) → ∀ x players allConfirmed,
          .betState code.text players allConfirmed ∈ (start.after (pre ++ mid)).sentBy b x →
          ∃ p ∈ players, p.user = d.user ∧ p.bet = 0 ∧ p.confirmed = true := by
  intro start
  have hfair : ∀ acts, (start.after acts).Every fun code t =>
      Table.Drawn code t ∧ Table.Fair config.startingChips t :=
    every_after (Table.kept_fair (Int.le_of_lt hpos)) secret store entropy
  refine ⟨fun id _ _ _ h => consistentBets_after (Int.le_of_lt hpos) acts id h, ?_⟩
  intro pre a post id order _ horder
  have hdrawn : ∀ acts, (start.after acts).Every Table.Drawn := every_drawn_after
  obtain ⟨code, u, players, allConfirmed, hu, hshown, hdealer⟩ := (plays_after pre a).order
    (after_snoc start pre a ▸ hdrawn (pre ++ [a])) (tidy_after config secret store entropy pre .table)
    horder
  refine ⟨code, players, allConfirmed, hshown, fun d hd hdeals mid b rest hmid hclears x ps all hb => ?_⟩
  have hdeals := hdealer d hd hdeals
  obtain ⟨other, v, hv, e, hkept⟩ :=
    (plays_after (pre ++ mid) b).betState (hdrawn (pre ++ mid)) hb rfl
  rw [← after_snoc] at hv
  obtain ⟨hvdrawn, hvfair⟩ := hfair _ other v hv
  simp only [Table.betState, Frame.betState.injEq, hvdrawn.room_eq] at e
  obtain ⟨htext, rfl, -⟩ := e
  obtain rfl := text_inj htext
  refine dealer_entry hvdrawn hvfair ?_
  cases mid with
  | nil =>
    -- the bets are those that the join itself sends
    obtain ⟨rfl, -⟩ := List.cons.inj hmid
    rw [List.append_nil, after_snoc, hu] at hv
    cases hv
    exact hdeals
  | cons c mid =>
    obtain ⟨rfl, -⟩ := List.cons.inj hmid
    rw [← after_snoc] at hu
    obtain ⟨w, hw, hwdealer⟩ := dealer_after hu (List.forall_mem_cons.1 hclears).2
    rw [List.append_assoc] at hw
    exact (hkept w hw).trans (hwdealer.trans hdeals)

def salonArrivals : List (Act Rooms) :=
  [.client (.opens 0 1 (.steady (.takes 0))), .client (.opens 1 2 (.steady (.takes 0))),
    .table (.joins salonRoom 0)]

def salonOrder : List PlayerEntry :=
  [⟨1, "Ann", false, true, false⟩, ⟨2, "Bo", false, false, true⟩, ⟨3, "Cy", false, false, false⟩]

def openingBets : List BetEntry :=
  [⟨1, "Ann", 0, false, 1000⟩, ⟨2, "Bo", 0, true, 1000⟩, ⟨3, "Cy", 0, false, 1000⟩]

def laterBets : List BetEntry :=
  [⟨1, "Ann", 0, false, 1000⟩, ⟨2, "Bo", 0, true, 1000⟩, ⟨3, "Cy", 1000, true, 0⟩]

/-- Bo, who deals, joins, and then Cy bets all that he has. -/
theorem table_frames_salon : 0 < ({} : Config).startingChips ∧
    (salon.after salonArrivals).sentBy (.table (.joins salonRoom 1)) 1 =
      [.playerOrder salonOrder, .betState "11" openingBets false] ∧
    ConsistentOrder [⟨1, "Ann", false, true⟩, ⟨2, "Bo", false, false⟩, ⟨3, "Cy", false, false⟩]
      salonOrder ∧
    ConsistentBets 1000 openingBets false ∧
    (salon.after (salonArrivals ++ [.table (.joins salonRoom 1)])).sentBy
      (.table (.receives salonRoom 3 allIn)) 0 = [.betState "11" laterBets false] ∧
    ConsistentBets 1000 laterBets false ∧
    ∃ p ∈ laterBets, p.user = 2 ∧ p.bet = 0 ∧ p.confirmed = true := by
  have hjoin : (salon.after salonArrivals).sentBy (.table (.joins salonRoom 1)) 1 =
      [.playerOrder salonOrder, .betState "11" openingBets false] := by decide +kernel
  have hbet : (salon.after (salonArrivals ++ [.table (.joins salonRoom 1)])).sentBy
      (.table (.receives salonRoom 3 allIn)) 0 = [.betState "11" laterBets false] := by
    decide +kernel
  obtain ⟨hbets, horders⟩ := table_frames {} (by decide) "" salon.store (.ofSeed 0)
    (salonArrivals ++ [.table (.joins salonRoom 1), .table (.receives salonRoom 3 allIn)])
  obtain ⟨code, players, allConfirmed, ⟨act, ⟨members, read, hconsistent⟩, -⟩, hstands⟩ :=
    horders salonArrivals _ _ 1 salonOrder rfl (hjoin ▸ List.mem_cons_self)
  cases act
  have hmembers : RoomStore.members (salon.after salonArrivals).store salonRoom =
      .ok [⟨1, "Ann", false, true⟩, ⟨2, "Bo", false, false⟩, ⟨3, "Cy", false, false⟩] := by rfl
  cases hmembers.symm.trans read
  refine ⟨by decide, hjoin, hconsistent, hbets 1 "11" _ _ (by decide +kernel), hbet,
    hbets 0 "11" _ _ (by decide +kernel), ?_⟩
  refine hstands ⟨2, "Bo", false, false, true⟩ (by decide) rfl [.table (.joins salonRoom 1)] _ [] rfl
    (fun c hc => ?_) 0 _ _ (hbet ▸ List.mem_singleton_self _)
  rw [List.mem_singleton.1 hc]
  rintro (h | h) <;> cases h

end

end Floor

end Cardroom
