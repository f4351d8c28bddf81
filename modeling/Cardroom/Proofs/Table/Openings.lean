import Cardroom.Proofs.Table.Draw

namespace Cardroom.Table

def Move.offers : Move → List Seat
  | .seat user name chips => [.take user name chips]
  | .seatMembers members chips => members.map fun m => .take m.user m.name chips
  | .ensureDealer | .bet _ _ => []

def offers (moves : List Move) : List Seat := moves.flatMap Move.offers

def opening? (offered : List Seat) (u : UserId) : Option Seat := offered.find? (·.user = u)

variable {t : Table} {offered : List Seat} {u : UserId}

theorem offers_cons (m : Move) (moves : List Move) : offers (m :: moves) = m.offers ++ offers moves :=
  List.flatMap_cons

theorem offers_append (xs ys : List Move) : offers (xs ++ ys) = offers xs ++ offers ys :=
  List.flatMap_append

theorem opening?_append (xs ys : List Seat) (u : UserId) :
    opening? (xs ++ ys) u = (opening? xs u).or (opening? ys u) :=
  List.find?_append

theorem opening?_append_of_some {o : Seat} (h : opening? offered u = some o) (more : List Seat) :
    opening? (offered ++ more) u = some o := by
  rw [opening?_append, h, Option.some_or]

theorem opening?_eq_none_iff : opening? offered u = none ↔ u ∉ offered.map Seat.user := by
  simp [opening?]

theorem opening?_members (members : List Member) (chips : Int) (u : UserId) :
    opening? (members.map fun m => .take m.user m.name chips) u =
      (members.find? (·.user = u)).map fun m => .take m.user m.name chips := by
  rw [opening?, List.find?_map]
  rfl

theorem Move.stake?_eq_opening? (m : Move) (u : UserId) :
    m.stake? u = (opening? m.offers u).map Seat.chips := by
  cases m with
  | seat v name chips =>
    by_cases h : v = u <;> simp [Move.stake?, Move.offers, opening?, h, Seat.take]
  | seatMembers members chips =>
    rw [Move.offers, opening?_members, Option.map_map, Move.stake?]
    by_cases hu : u ∈ members.map Member.user
    · have hfound : (members.find? (·.user = u)).isSome := by simpa using hu
      obtain ⟨m, hm⟩ := Option.isSome_iff_exists.1 hfound
      rw [if_pos hu, hm]
      rfl
    · have hfound : members.find? (·.user = u) = none := by simpa using hu
      rw [if_neg hu, hfound]
      rfl
  | ensureDealer | bet v command => rfl

theorem stake?_eq_opening? (moves : List Move) (u : UserId) :
    stake? moves u = (opening? (offers moves) u).map Seat.chips := by
  induction moves with
  | nil => rfl
  | cons m moves ih =>
    rw [stake?_cons, m.stake?_eq_opening?, ih, offers_cons, opening?_append]
    cases opening? m.offers u <;> rfl

theorem eraseDups_concat (l : List UserId) (u : UserId) :
    (l ++ [u]).eraseDups = if u ∈ l then l.eraseDups else l.eraseDups ++ [u] := by
  rw [List.eraseDups_append]
  by_cases h : u ∈ l <;> simp [List.cons_removeAll, List.eraseDups_cons, h]

/-- Each player who was offered a seat has one, in the order of the first offers, with the name of
the first offer. The bet and the stack of a seat that is not the dealer's make up the chips of that
offer. -/
structure Opened (offered : List Seat) (t : Table) : Prop where
  players_eq : t.players = (offered.map Seat.user).eraseDups
  opened : ∀ s ∈ t.seats, ∃ o, opening? offered s.user = some o ∧ s.name = o.name ∧
    (t.dealer ≠ some s.user → s.bet + s.chips = o.chips)

namespace Opened

theorem new (room : RoomCode) (source : Random.Source) : Opened [] (Table.new room source) :=
  ⟨rfl, fun _ h => nomatch h⟩

theorem seat (h : Opened offered t) (u : UserId) (name : String) (c : Int) :
    Opened (offered ++ [.take u name c]) (t.seat u name c) := by
  have hmem : u ∈ t.players ↔ u ∈ offered.map Seat.user := by
    rw [h.players_eq, List.mem_eraseDups]
  by_cases hu : u ∈ t.players
  · rw [seat_of_mem hu]
    refine ⟨?_, fun s hs => ?_⟩
    · rw [List.map_append, List.map_singleton, Seat.take_user, eraseDups_concat, if_pos (hmem.1 hu),
        h.players_eq]
    · obtain ⟨o, ho, hrest⟩ := h.opened s hs
      exact ⟨o, opening?_append_of_some ho _, hrest⟩
  · refine ⟨?_, fun s hs => ?_⟩
    · rw [players_seat_of_not_mem hu, List.map_append, List.map_singleton, Seat.take_user,
        eraseDups_concat, if_neg (hmem.not.1 hu), h.players_eq]
    · rw [seat_of_not_mem hu, List.mem_append, List.mem_singleton] at hs
      rw [seat_dealer]
      rcases hs with hs | rfl
      · obtain ⟨o, ho, hrest⟩ := h.opened s hs
        exact ⟨o, opening?_append_of_some ho _, hrest⟩
      · have hnone : opening? offered u = none := opening?_eq_none_iff.2 (hmem.not.1 hu)
        refine ⟨.take u name c, ?_, rfl, fun _ => Int.zero_add c⟩
        rw [opening?_append, Seat.take_user, hnone, Option.none_or]
        exact List.find?_cons_of_pos (decide_eq_true rfl)

theorem seatMembers (h : Opened offered t) (members : List Member) (c : Int) :
    Opened (offered ++ members.map fun m => .take m.user m.name c) (t.seatMembers members c).2 := by
  induction members generalizing t offered with
  | nil => rwa [List.map_nil, List.append_nil]
  | cons m ms ih =>
    have hrest := ih (h.seat m.user m.name c)
    rwa [List.append_assoc, List.singleton_append] at hrest

theorem ensureDealer (h : Opened offered t) : Opened offered t.ensureDealer := by
  refine ⟨by rw [players_ensureDealer]; exact h.players_eq, fun r hr => ?_⟩
  obtain ⟨e, -⟩ | ⟨hn, i, s, hs, e⟩ := ensureDealer_cases t
  · rw [e] at hr ⊢
    exact h.opened r hr
  · rw [e] at hr ⊢
    rcases List.mem_or_eq_of_mem_set hr with hr | rfl
    · obtain ⟨o, ho, hname, hsum⟩ := h.opened r hr
      exact ⟨o, ho, hname, fun _ => hsum (by simp [hn])⟩
    · obtain ⟨o, ho, hname, -⟩ := h.opened s (List.mem_of_getElem? hs)
      exact ⟨o, ho, hname, fun hd => absurd rfl hd⟩

theorem bet (h : Opened offered t) (u : UserId) (c : BetCommand) : Opened offered (t.bet u c).2 := by
  refine ⟨by rw [players_bet]; exact h.players_eq, fun r hr => ?_⟩
  rw [bet_dealer]
  obtain ⟨reason, e⟩ | ⟨s, -, hu, -, -, e⟩ := bet_cases t u c
  · rw [e] at hr
    exact h.opened r hr
  · rw [e] at hr
    obtain ⟨q, hq, rfl⟩ := List.mem_map.1 hr
    obtain ⟨o, ho, hname, hsum⟩ := h.opened q hq
    by_cases hqu : q.user = u
    · rw [if_pos hqu]
      refine ⟨o, ho, hname, fun hd => ?_⟩
      have hbalance := hsum hd
      change c.bet + (q.chips - (c.bet - q.bet)) = o.chips
      omega
    · rw [if_neg hqu]
      exact ⟨o, ho, hname, hsum⟩

theorem move (h : Opened offered t) (m : Move) : Opened (offered ++ m.offers) (t.move m) := by
  cases m with
  | seat u name chips => exact h.seat u name chips
  | seatMembers members chips => exact h.seatMembers members chips
  | ensureDealer =>
    rw [Move.offers, List.append_nil]
    exact h.ensureDealer
  | bet u c =>
    rw [Move.offers, List.append_nil]
    exact h.bet u c

theorem play (h : Opened offered t) (moves : List Move) :
    Opened (offered ++ offers moves) (t.play moves) := by
  induction moves generalizing t offered with
  | nil => rwa [offers, List.flatMap_nil, List.append_nil]
  | cons m moves ih =>
    rw [offers_cons, ← List.append_assoc]
    exact ih (h.move m)

end Opened

theorem opened_play (room : RoomCode) (source : Random.Source) (moves : List Move) :
    Opened (offers moves) ((new room source).play moves) :=
  (Opened.new room source).play moves

/-- Seating members appends a seat for each who had none, the one of the first offer. -/
theorem seatMembers_eq_append (t : Table) (members : List Member) (chips : Int) :
    ∃ added,
      t.seatMembers members chips = (added.length, { t with seats := t.seats ++ added }) ∧
      ∀ s ∈ added, s.user ∉ t.players ∧
        opening? (Move.seatMembers members chips).offers s.user = some s := by
  induction members generalizing t with
  | nil =>
    refine ⟨[], ?_, fun _ h => nomatch h⟩
    rw [seatMembers_nil, List.append_nil, List.length_nil]
  | cons m ms ih =>
    -- who had a seat before or has just got one is not added again
    have hother : ∀ s : Seat, m.user ≠ s.user →
        opening? (Move.seatMembers (m :: ms) chips).offers s.user =
          opening? (Move.seatMembers ms chips).offers s.user := fun s hne =>
      List.find?_cons_of_neg (by simp [hne])
    by_cases hm : m.user ∈ t.players
    · obtain ⟨added, e, hadded⟩ := ih t
      refine ⟨added, ?_, fun s hs => ?_⟩
      · rw [seatMembers, seat_of_mem hm, e, isSeated_iff.2 hm]
        rfl
      · obtain ⟨hnew, hs⟩ := hadded s hs
        rw [hother s fun h => hnew (h ▸ hm)]
        exact ⟨hnew, hs⟩
    · obtain ⟨added, e, hadded⟩ := ih (t.seat m.user m.name chips)
      refine ⟨.take m.user m.name chips :: added, ?_, fun s hs => ?_⟩
      · rw [seatMembers, e]
        simp only [if_neg fun h => hm (isSeated_iff.1 h), seat_of_not_mem hm, List.append_assoc,
          List.singleton_append, List.length_cons]
      · rcases List.mem_cons.1 hs with rfl | hs
        · exact ⟨hm, List.find?_cons_of_pos (decide_eq_true rfl)⟩
        · obtain ⟨hnew, hs⟩ := hadded s hs
          rw [players_seat_of_not_mem hm, List.mem_append, List.mem_singleton, not_or] at hnew
          rw [hother s (Ne.symm hnew.2)]
          exact ⟨hnew.1, hs⟩

/-- In the moves the dealer is drawn after those, on that seat. -/
structure DrawnAfter (t : Table) (moves before : List Move) (s : Seat) : Prop where
  split : ∃ after, moves = before ++ .ensureDealer :: after
  undrawn : (t.play before).dealer = none
  mem_seats : s ∈ (t.play before).seats
  drawn : (t.play before).ensureDealer.dealer = some s.user

theorem players_play_nodup (room : RoomCode) (source : Random.Source) (moves : List Move) :
    ((new room source).play moves).players.Nodup :=
  ((Seeded.new room source).play moves).players_nodup

theorem exists_drawnAfter {moves : List Move} {d : UserId} (hnodup : t.players.Nodup)
    (hn : t.dealer = none) (hd : (t.play moves).dealer = some d) :
    ∃ before s, DrawnAfter t moves before s ∧ s.user = d := by
  -- either the first move is the draw, and the dealer stays, or the draw is among the others
  induction moves generalizing t with
  | nil =>
    rw [play, List.foldl_nil, hn] at hd
    cases hd
  | cons m moves ih =>
    rw [play_cons] at hd
    cases hm : (t.move m).dealer with
    | none =>
      obtain ⟨before, s, h, hu⟩ := ih (players_move_nodup hnodup m) hm hd
      obtain ⟨after, rfl⟩ := h.split
      exact ⟨m :: before, s, ⟨⟨after, rfl⟩, h.undrawn, h.mem_seats, h.drawn⟩, hu⟩
    | some e =>
      obtain rfl : m = .ensureDealer := by
        by_contra hne
        rw [move_dealer_of_ne hne, hn] at hm
        cases hm
      obtain ⟨s, hs, rfl, hdeals⟩ := deals_ensureDealer hnodup hn hm
      refine ⟨[], s, ⟨⟨moves, rfl⟩, hn, hs, hm⟩, ?_⟩
      exact Option.some.inj ((hdeals.play moves).dealer_eq.symm.trans hd)

section

variable {room : RoomCode} {source : Random.Source} {moves before : List Move} {s : Seat}

theorem DrawnAfter.deals (h : DrawnAfter (new room source) moves before s) :
    Deals s.user s.deal ((new room source).play moves) := by
  obtain ⟨after, rfl⟩ := h.split
  have hnodup := players_play_nodup room source before
  obtain ⟨r, hr, hu, hdeals⟩ := deals_ensureDealer hnodup h.undrawn h.drawn
  rw [seat_unique hnodup hr h.mem_seats hu] at hdeals
  rw [play_append, play_cons]
  exact hdeals.play after

/-- Up to the draw the new dealer's seat balances like any other. -/
theorem DrawnAfter.opened (h : DrawnAfter (new room source) moves before s) :
    ∃ o, opening? (offers moves) s.user = some o ∧ s.bet + s.chips = o.chips := by
  obtain ⟨o, ho, -, hsum⟩ := (opened_play room source before).opened s h.mem_seats
  obtain ⟨after, rfl⟩ := h.split
  rw [offers_append]
  exact ⟨o, opening?_append_of_some ho _, hsum (by simp [h.undrawn])⟩

theorem exists_eq_deal (hs : s ∈ ((new room source).play moves).seats)
    (hd : ((new room source).play moves).dealer = some s.user) :
    ∃ before r, DrawnAfter (new room source) moves before r ∧ s = r.deal := by
  obtain ⟨before, r, h, hu⟩ := exists_drawnAfter (players_new room source ▸ List.nodup_nil) rfl hd
  obtain ⟨hr, -⟩ := mem_of_seat? h.deals.seat?_eq
  exact ⟨before, r, h, seat_unique (players_play_nodup room source moves) hs hr hu.symm⟩

end

/-- The chips of a seat that is not the dealer's are those that it was taken with. The draw takes
the bet that the new dealer has standing and does not give it back. So all seats still have the
chips that they were taken with if and only if no dealer was drawn with a bet standing. -/
theorem chips_balance_iff (room : RoomCode) (source : Random.Source) (moves : List Move) :
    let t := (new room source).play moves
    (∀ s ∈ t.seats, t.dealer ≠ some s.user → stake? moves s.user = some (s.bet + s.chips)) ∧
    (∀ before s, DrawnAfter (new room source) moves before s →
      stake? moves s.user = some (s.bet + s.chips) ∧ t.seat? s.user = some s.deal) ∧
    ((∀ s ∈ t.seats, stake? moves s.user = some (s.bet + s.chips)) ↔
      ∀ before s, DrawnAfter (new room source) moves before s → s.bet = 0) := by
  intro t
  have hothers : ∀ s ∈ t.seats, t.dealer ≠ some s.user →
      stake? moves s.user = some (s.bet + s.chips) := by
    intro s hs hd
    obtain ⟨o, ho, -, hsum⟩ := (opened_play room source moves).opened s hs
    rw [stake?_eq_opening?, ho, hsum hd]
    rfl
  have hdrawn : ∀ before s, DrawnAfter (new room source) moves before s →
      stake? moves s.user = some (s.bet + s.chips) := by
    intro before s h
    obtain ⟨o, ho, hsum⟩ := h.opened
    rw [stake?_eq_opening?, ho, hsum]
    rfl
  refine ⟨hothers, fun before s h => ⟨hdrawn before s h, h.deals.seat?_eq⟩, ?_, ?_⟩
  · intro hall before s h
    have hdealt := hall s.deal (mem_of_seat? h.deals.seat?_eq).1
    rw [Seat.deal_user, hdrawn before s h] at hdealt
    have hsum : s.bet + s.chips = 0 + s.chips := Option.some.inj hdealt
    omega
  · intro hnone s hs
    by_cases hd : t.dealer = some s.user
    · obtain ⟨before, r, h, rfl⟩ := exists_eq_deal hs hd
      rw [Seat.deal_user, hdrawn before r h, hnone before r h]
      rfl
    · exact hothers s hs hd

/-- The only player bets and is then drawn: the three hundred chips of the bet are gone. -/
theorem chips_balance_iff_standing_bet :
    let moves : List Move := [.seat 1 "a" 1000, .bet 1 ⟨300, true⟩, .ensureDealer]
    let t := (new ⟨"123456", by decide⟩ (.ofSeed 0)).play moves
    stake? moves 1 = some 1000 ∧ t.seat? 1 = some ⟨1, "a", 0, true, 700⟩ ∧
    ¬ ∀ s ∈ t.seats, stake? moves s.user = some (s.bet + s.chips) := by
  intro moves t
  have h := chips_balance_iff ⟨"123456", by decide⟩ (.ofSeed 0) moves
  have hdrawn : DrawnAfter (new ⟨"123456", by decide⟩ (.ofSeed 0)) moves
      [.seat 1 "a" 1000, .bet 1 ⟨300, true⟩] ⟨1, "a", 300, true, 700⟩ :=
    ⟨⟨[], rfl⟩, rfl, by decide, by decide +kernel⟩
  obtain ⟨hstake, hseat⟩ := h.2.1 _ _ hdrawn
  exact ⟨hstake, hseat, fun hall => absurd (h.2.2.1 hall _ _ hdrawn) (by decide)⟩

/-- Seats stand in the order in which their players are first offered one, and keep the name and the
chips of that offer. Later seats come behind, and seating members counts those that it adds. -/
theorem seats_first_come (room : RoomCode) (source : Random.Source) (moves : List Move) :
    let t := (new room source).play moves
    t.players = ((offers moves).map Seat.user).eraseDups ∧
    (∀ s ∈ t.seats, ∃ o, opening? (offers moves) s.user = some o ∧ s.name = o.name ∧
      (s.bet + s.chips = o.chips ∨ ∃ before r, DrawnAfter (new room source) moves before r ∧
        s = r.deal ∧ r.bet + r.chips = o.chips)) ∧
    (∀ later, t.players <+: (t.play later).players) ∧
    ∀ members chips, ∃ added,
      t.seatMembers members chips = (added.length, { t with seats := t.seats ++ added }) ∧
      ∀ s ∈ added, s.user ∉ t.players ∧
        opening? (Move.seatMembers members chips).offers s.user = some s := by
  intro t
  have hopened : Opened (offers moves) t := opened_play room source moves
  refine ⟨hopened.players_eq, fun s hs => ?_, fun later => ?_, t.seatMembers_eq_append⟩
  · obtain ⟨o, ho, hname, hsum⟩ := hopened.opened s hs
    refine ⟨o, ho, hname, ?_⟩
    by_cases hd : t.dealer = some s.user
    · obtain ⟨before, r, h, rfl⟩ := exists_eq_deal hs hd
      obtain ⟨p, hp, hsum⟩ := h.opened
      cases ho.symm.trans hp
      exact .inr ⟨before, r, h, rfl, hsum⟩
    · exact .inl (hsum hd)
  · rw [hopened.players_eq, (hopened.play later).players_eq, List.map_append,
      List.eraseDups_append]
    exact List.prefix_append _ _

end Cardroom.Table
