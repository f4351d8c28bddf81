import Cardroom.Table
import Mathlib.Data.List.Nodup

namespace Cardroom

namespace Seat

@[simp] theorem take_user (u : UserId) (name : String) (c : Int) : (take u name c).user = u := rfl

@[simp] theorem deal_user (s : Seat) : s.deal.user = s.user := rfl

@[simp] theorem place_user (s : Seat) (bet : Int) (b : Bool) : (s.place bet b).user = s.user := rfl

end Seat

namespace Table

variable {t : Table} {u : UserId}

@[simp] theorem players_new (room : RoomCode) (source : Random.Source) :
    (new room source).players = [] := rfl

theorem isSeated_iff : t.isSeated u = true ↔ u ∈ t.players := by
  simp [isSeated]

theorem mem_players_iff : u ∈ t.players ↔ ∃ s ∈ t.seats, s.user = u := by
  simp [players]

theorem mem_players {s : Seat} (h : s ∈ t.seats) : s.user ∈ t.players :=
  mem_players_iff.2 ⟨s, h, rfl⟩

theorem mem_of_seat? {s : Seat} (h : t.seat? u = some s) : s ∈ t.seats ∧ s.user = u :=
  ⟨List.mem_of_find?_eq_some h, by simpa using List.find?_some h⟩

theorem seat?_eq_none_iff : t.seat? u = none ↔ u ∉ t.players := by
  simp [seat?, players]

theorem seat_unique (h : t.players.Nodup) {s r : Seat} (hs : s ∈ t.seats) (hr : r ∈ t.seats)
    (e : s.user = r.user) : s = r :=
  List.inj_on_of_nodup_map h hs hr e

theorem seat?_eq_some_iff (h : t.players.Nodup) {s : Seat} :
    t.seat? u = some s ↔ s ∈ t.seats ∧ s.user = u := by
  constructor
  · exact mem_of_seat?
  · rintro ⟨hs, rfl⟩
    cases hf : t.seat? s.user with
    | none => exact absurd (mem_players hs) (seat?_eq_none_iff.1 hf)
    | some r =>
      obtain ⟨hr, e⟩ := mem_of_seat? hf
      rw [seat_unique h hr hs e]

theorem seat?_modifySeat (t : Table) (u v : UserId) {f : Seat → Seat}
    (hf : ∀ s, (f s).user = s.user) :
    (t.modifySeat u f).seat? v = if v = u then (t.seat? v).map f else t.seat? v := by
  simp only [seat?, modifySeat, List.find?_map]
  have hp : ((fun s : Seat => decide (s.user = v)) ∘ fun s => if s.user = u then f s else s) =
      fun s => decide (s.user = v) := by
    funext s
    simp only [Function.comp_apply]
    split <;> simp [hf]
  rw [hp]
  cases hs : t.seats.find? fun s => decide (s.user = v) with
  | none => simp
  | some s =>
    have hu : s.user = v := by simpa using List.find?_some hs
    by_cases h : v = u <;> simp [hu, h]

theorem seat_of_mem (h : u ∈ t.players) (name : String) (c : Int) : t.seat u name c = t :=
  if_pos (isSeated_iff.2 h)

theorem seat_of_not_mem (h : u ∉ t.players) (name : String) (c : Int) :
    t.seat u name c = { t with seats := t.seats ++ [.take u name c] } :=
  if_neg fun e => h (isSeated_iff.1 e)

@[simp] theorem seat_dealer (t : Table) (u : UserId) (name : String) (c : Int) :
    (t.seat u name c).dealer = t.dealer := by
  unfold seat
  split <;> rfl

@[simp] theorem seat_room (t : Table) (u : UserId) (name : String) (c : Int) :
    (t.seat u name c).room = t.room := by
  unfold seat
  split <;> rfl

@[simp] theorem seat_source (t : Table) (u : UserId) (name : String) (c : Int) :
    (t.seat u name c).source = t.source := by
  unfold seat
  split <;> rfl

theorem seat?_seat_of_some {d : UserId} {s : Seat} (h : t.seat? d = some s) (u : UserId)
    (name : String) (c : Int) : (t.seat u name c).seat? d = some s := by
  by_cases hu : u ∈ t.players
  · rwa [seat_of_mem hu]
  · rw [seat_of_not_mem hu, seat?, List.find?_append]
    rw [seat?] at h
    rw [h, Option.some_or]

theorem players_seat_of_not_mem (h : u ∉ t.players) (name : String) (c : Int) :
    (t.seat u name c).players = t.players ++ [u] := by
  simp [seat_of_not_mem h, players]

theorem mem_players_seat {v : UserId} {name : String} {c : Int} :
    v ∈ (t.seat u name c).players ↔ v ∈ t.players ∨ v = u := by
  by_cases h : u ∈ t.players
  · rw [seat_of_mem h]
    constructor
    · exact Or.inl
    · rintro (hv | rfl)
      · exact hv
      · exact h
  · simp [players_seat_of_not_mem h]

theorem players_seat_nodup (h : t.players.Nodup) (u : UserId) (name : String) (c : Int) :
    (t.seat u name c).players.Nodup := by
  by_cases hu : u ∈ t.players
  · rwa [seat_of_mem hu]
  · rw [players_seat_of_not_mem hu]
    exact List.nodup_append.2 ⟨h, by simp, by rintro v hv w hw rfl; simp_all⟩

theorem seatMembers_nil (t : Table) (c : Int) : t.seatMembers [] c = (0, t) := rfl

theorem seatMembers_cons (t : Table) (m : Member) (ms : List Member) (c : Int) :
    (t.seatMembers (m :: ms) c).2 = ((t.seat m.user m.name c).seatMembers ms c).2 := rfl

theorem seatMembers_induction {P : Table → Prop} {c : Int} {ms : List Member}
    (step : ∀ m ∈ ms, ∀ t, P t → P (t.seat m.user m.name c)) (h : P t) :
    P (t.seatMembers ms c).2 := by
  induction ms generalizing t with
  | nil => exact h
  | cons m ms ih =>
    exact ih (fun n hn => step n (List.mem_cons_of_mem m hn)) (step m List.mem_cons_self t h)

@[simp] theorem seatMembers_dealer (t : Table) (ms : List Member) (c : Int) :
    (t.seatMembers ms c).2.dealer = t.dealer :=
  seatMembers_induction (P := fun v => v.dealer = t.dealer)
    (fun m _ v h => (seat_dealer v m.user m.name c).trans h) rfl

@[simp] theorem seatMembers_room (t : Table) (ms : List Member) (c : Int) :
    (t.seatMembers ms c).2.room = t.room :=
  seatMembers_induction (P := fun v => v.room = t.room)
    (fun m _ v h => (seat_room v m.user m.name c).trans h) rfl

@[simp] theorem seatMembers_source (t : Table) (ms : List Member) (c : Int) :
    (t.seatMembers ms c).2.source = t.source :=
  seatMembers_induction (P := fun v => v.source = t.source)
    (fun m _ v h => (seat_source v m.user m.name c).trans h) rfl

theorem players_seatMembers_nodup (h : t.players.Nodup) (ms : List Member) (c : Int) :
    (t.seatMembers ms c).2.players.Nodup :=
  seatMembers_induction (P := fun v => v.players.Nodup)
    (fun m _ _ hv => players_seat_nodup hv m.user m.name c) h

theorem mem_players_seatMembers {ms : List Member} {c : Int} :
    u ∈ (t.seatMembers ms c).2.players ↔ u ∈ t.players ∨ u ∈ ms.map Member.user := by
  induction ms generalizing t with
  | nil => simp [seatMembers_nil]
  | cons m ms ih =>
    rw [seatMembers_cons, ih, mem_players_seat, List.map_cons, List.mem_cons, or_assoc]

theorem seatMembers_of_subset {ms : List Member} (h : ∀ m ∈ ms, m.user ∈ t.players) (c : Int) :
    (t.seatMembers ms c).2 = t := by
  induction ms with
  | nil => rfl
  | cons m ms ih =>
    rw [seatMembers_cons, seat_of_mem (h m (by simp))]
    exact ih fun n hn => h n (by simp [hn])

theorem ensureDealer_of_isSome {d : UserId} (h : t.dealer = some d) : t.ensureDealer = t := by
  simp [ensureDealer, h]

theorem ensureDealer_of_empty (h : t.seats = []) : t.ensureDealer = t := by
  unfold ensureDealer
  split
  · rfl
  · simp [h]

/-- The draw: there is a seat at the index that the source yields, and the one who sits there is
dealt. -/
theorem ensureDealer_pick (hd : t.dealer = none) (hs : t.seats ≠ []) :
    ∃ s, t.seats[(t.source.pick t.seats.length).1]? = some s ∧ t.ensureDealer =
      { t with
        seats := t.seats.set (t.source.pick t.seats.length).1 s.deal
        dealer := some s.user
        source := (t.source.pick t.seats.length).2 } := by
  have hlt := Random.Source.pick_lt (List.length_pos_iff.2 hs) t.source
  refine ⟨t.seats[(t.source.pick t.seats.length).1], List.getElem?_eq_getElem hlt, ?_⟩
  simp [ensureDealer, hd, hlt]

theorem ensureDealer_cases (t : Table) :
    (t.ensureDealer = t ∧ (t.dealer.isSome ∨ t.seats = [])) ∨
    (t.dealer = none ∧ ∃ i s, t.seats[i]? = some s ∧ t.ensureDealer =
      { t with
        seats := t.seats.set i s.deal
        dealer := some s.user
        source := (t.source.pick t.seats.length).2 }) := by
  cases hd : t.dealer with
  | some d => exact .inl ⟨ensureDealer_of_isSome hd, .inl rfl⟩
  | none =>
    by_cases hs : t.seats = []
    · exact .inl ⟨ensureDealer_of_empty hs, .inr hs⟩
    · exact .inr ⟨rfl, _, ensureDealer_pick hd hs⟩

theorem map_user_set_deal {l : List Seat} {i : Nat} {s : Seat} (h : l[i]? = some s) :
    (l.set i s.deal).map Seat.user = l.map Seat.user := by
  obtain ⟨hi, rfl⟩ := List.getElem?_eq_some_iff.1 h
  have hi' : i < (l.map Seat.user).length := by rwa [List.length_map]
  have hu : l[i].user = (l.map Seat.user)[i] := by rw [List.getElem_map]
  rw [List.map_set, Seat.deal_user, hu, List.set_getElem_self]

@[simp] theorem players_ensureDealer (t : Table) : t.ensureDealer.players = t.players := by
  obtain ⟨h, -⟩ | ⟨-, i, s, hs, h⟩ := ensureDealer_cases t
  · rw [h]
  · rw [h]
    exact map_user_set_deal hs

@[simp] theorem ensureDealer_room (t : Table) : t.ensureDealer.room = t.room := by
  obtain ⟨h, -⟩ | ⟨-, i, s, -, h⟩ := ensureDealer_cases t <;> rw [h]

@[simp] theorem players_modifySeat_place (t : Table) (u : UserId) (bet : Int) (b : Bool) :
    (t.modifySeat u (·.place bet b)).players = t.players := by
  simp only [modifySeat, players, List.map_map]
  apply List.map_congr_left
  intro s _
  simp only [Function.comp_apply]
  split <;> rfl

theorem bet_of_ignored {c : BetCommand} {reason : IgnoreReason}
    (h : t.judge u c.bet = .ignored reason) : t.bet u c = (.ignored reason, t) := by
  simp only [bet, h]

theorem bet_of_applied {c : BetCommand} {delta : Int} (h : t.judge u c.bet = .applied delta) :
    t.bet u c = (.applied delta, t.modifySeat u (·.place c.bet c.confirm)) := by
  simp only [bet, h]

theorem judge_of_seat? {s : Seat} {bet : Int} (hd : t.dealer ≠ some u) (hn : 0 ≤ bet)
    (hs : t.seat? u = some s) :
    t.judge u bet = if s.chips < bet - s.bet ∧ 0 < bet - s.bet then .ignored .insufficientChips
      else .applied (bet - s.bet) := by
  rw [judge, if_neg hd, if_neg (by omega), hs]

/-- All that a bet can do: it is ignored, or it is placed on a seat that is not the dealer's and can
pay for it. -/
theorem bet_cases (t : Table) (u : UserId) (c : BetCommand) :
    (∃ reason, t.bet u c = (.ignored reason, t)) ∨
    (∃ s, t.seat? u = some s ∧ t.dealer ≠ some u ∧ 0 ≤ c.bet ∧ c.bet ≤ max s.bet (s.bet + s.chips) ∧
      t.bet u c = (.applied (c.bet - s.bet), t.modifySeat u (·.place c.bet c.confirm))) := by
  by_cases hd : t.dealer = some u
  · exact .inl ⟨.dealerBet, bet_of_ignored (if_pos hd)⟩
  by_cases hn : c.bet < 0
  · exact .inl ⟨.negativeBet, bet_of_ignored (by rw [judge, if_neg hd, if_pos hn])⟩
  cases hs : t.seat? u with
  | none => exact .inl ⟨.unknownPlayer, bet_of_ignored (by rw [judge, if_neg hd, if_neg hn, hs])⟩
  | some s =>
    have hj := judge_of_seat? hd (by omega : 0 ≤ c.bet) hs
    by_cases hc : s.chips < c.bet - s.bet ∧ 0 < c.bet - s.bet
    · exact .inl ⟨.insufficientChips, bet_of_ignored (by rw [hj, if_pos hc])⟩
    · exact .inr ⟨s, rfl, hd, by omega, by omega, bet_of_applied (by rw [hj, if_neg hc])⟩

@[simp] theorem bet_dealer (t : Table) (u : UserId) (c : BetCommand) :
    (t.bet u c).2.dealer = t.dealer := by
  obtain ⟨reason, h⟩ | ⟨s, -, -, -, -, h⟩ := bet_cases t u c <;> rw [h]
  rfl

@[simp] theorem bet_room (t : Table) (u : UserId) (c : BetCommand) :
    (t.bet u c).2.room = t.room := by
  obtain ⟨reason, h⟩ | ⟨s, -, -, -, -, h⟩ := bet_cases t u c <;> rw [h]
  rfl

@[simp] theorem bet_source (t : Table) (u : UserId) (c : BetCommand) :
    (t.bet u c).2.source = t.source := by
  obtain ⟨reason, h⟩ | ⟨s, -, -, -, -, h⟩ := bet_cases t u c <;> rw [h]
  rfl

@[simp] theorem players_bet (t : Table) (u : UserId) (c : BetCommand) :
    (t.bet u c).2.players = t.players := by
  obtain ⟨reason, h⟩ | ⟨s, -, -, -, -, h⟩ := bet_cases t u c <;> rw [h]
  exact players_modifySeat_place t u c.bet c.confirm

end Table

end Cardroom
