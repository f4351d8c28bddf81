import Cardroom.Proofs.Table.Play

namespace Cardroom

namespace Random.Source

/-- Where the second word is not taken it could not carry over. -/
theorem pick_eq_scaledIndex (n : Nat) (s : Source) :
    (s.pick n).1 = scaledIndex n (word s.seed s.taken) (word s.seed (s.taken + 1)) := by
  have hle : (word s.seed (s.taken + 1)).toNat * n ≤ 0xFFFFFFFF * n :=
    Nat.mul_le_mul_right n (by have := (word s.seed (s.taken + 1)).toNat_lt; omega)
  simp only [pick]
  split
  · rfl
  · rename_i hlow
    change ¬(word s.seed s.taken).toNat * n % UInt32.size + n > UInt32.size at hlow
    change (word s.seed s.taken).toNat * n / UInt32.size = _
    simp only [scaledIndex, UInt32.size] at hlow ⊢
    rw [if_neg (by omega)]

/-- The widening product with its correction is what of the whole product lies above sixty-four
bits. -/
theorem scaledIndex_eq_div {n : Nat} (hn : n < UInt32.size) (first second : UInt32) :
    scaledIndex n first second =
      (first.toNat * UInt32.size + second.toNat) * n / (UInt32.size * UInt32.size) := by
  have hle : second.toNat * n ≤ 0xFFFFFFFF * n :=
    Nat.mul_le_mul_right n (by have := second.toNat_lt; omega)
  rw [Nat.add_mul, Nat.mul_right_comm, ← Nat.div_div_eq_div_mul]
  simp only [scaledIndex, UInt32.size] at hn ⊢
  split <;> omega

end Random.Source

namespace Table

variable {t : Table} {d : UserId} {s : Seat}

structure Deals (d : UserId) (s : Seat) (t : Table) : Prop where
  dealer_eq : t.dealer = some d
  seat?_eq : t.seat? d = some s

namespace Deals

theorem move (h : Deals d s t) (m : Move) : Deals d s (t.move m) := by
  obtain ⟨hd, hs⟩ := h
  cases m with
  | seat u name chips =>
    exact ⟨by rw [Table.move, seat_dealer, hd], seat?_seat_of_some hs u name chips⟩
  | seatMembers members chips =>
    refine ⟨by rw [Table.move, seatMembers_dealer, hd], ?_⟩
    exact seatMembers_induction (P := fun v => v.seat? d = some s)
      (fun m _ _ hv => seat?_seat_of_some hv m.user m.name chips) hs
  | ensureDealer =>
    rw [Table.move, ensureDealer_of_isSome hd]
    exact ⟨hd, hs⟩
  | bet u c =>
    refine ⟨by rw [Table.move, bet_dealer, hd], ?_⟩
    obtain ⟨reason, e⟩ | ⟨r, -, hu, -, -, e⟩ := bet_cases t u c
    · rwa [Table.move, e]
    · -- a bet that is placed is not the dealer's
      have hne : d ≠ u := fun hdu => hu (hd.trans (congrArg some hdu))
      rw [Table.move, e, seat?_modifySeat t u d fun q => Seat.place_user q c.bet c.confirm,
        if_neg hne, hs]

theorem play (h : Deals d s t) (moves : List Move) : Deals d s (t.play moves) := by
  induction moves generalizing t with
  | nil => exact h
  | cons m moves ih => exact ih (h.move m)

end Deals

theorem dealer_ensureDealer_eq_none_iff :
    t.ensureDealer.dealer = none ↔ t.dealer = none ∧ t.seats = [] := by
  obtain ⟨e, h⟩ | ⟨hd, i, s, hs, e⟩ := ensureDealer_cases t
  · rw [e]
    constructor
    · intro hd
      exact ⟨hd, h.resolve_left (by simp [hd])⟩
    · exact And.left
  · rw [e]
    constructor
    · rintro ⟨⟩
    · rintro ⟨-, hempty⟩
      simp [hempty] at hs

theorem deals_ensureDealer (h : t.players.Nodup) (hd : t.dealer = none)
    (he : t.ensureDealer.dealer = some d) :
    ∃ s ∈ t.seats, s.user = d ∧ Deals d s.deal t.ensureDealer := by
  obtain ⟨e, -⟩ | ⟨-, i, s, hs, e⟩ := ensureDealer_cases t
  · rw [e, hd] at he
    cases he
  · have hu : s.user = d := by
      rw [e] at he
      exact Option.some.inj he
    have hmem : s.deal ∈ t.ensureDealer.seats := by
      rw [e]
      exact List.mem_set (List.getElem?_eq_some_iff.1 hs).1 s.deal
    refine ⟨s, List.mem_of_getElem? hs, hu, he, (seat?_eq_some_iff ?_).2 ⟨hmem, hu⟩⟩
    rwa [players_ensureDealer]

/-- A table that was new with that source: no word has been taken before the draw, and the dealer
that was drawn has bet nothing and is confirmed. -/
structure Seeded (source : Random.Source) (t : Table) : Prop where
  players_nodup : t.players.Nodup
  source_eq : t.dealer = none → t.source = source
  dealt : ∀ d, t.dealer = some d → ∃ s, Deals d s t ∧ s.bet = 0 ∧ s.confirmed = true

namespace Seeded

variable {source : Random.Source}

theorem new (room : RoomCode) (source : Random.Source) : Seeded source (Table.new room source) :=
  ⟨List.nodup_nil, fun _ => rfl, fun _ h => nomatch h⟩

theorem ensureDealer (h : Seeded source t) : Seeded source t.ensureDealer := by
  cases hd : t.dealer with
  | some d => rwa [ensureDealer_of_isSome hd]
  | none =>
    refine ⟨by rw [players_ensureDealer]; exact h.players_nodup, fun hn => ?_, fun d he => ?_⟩
    · rw [ensureDealer_of_empty (dealer_ensureDealer_eq_none_iff.1 hn).2]
      exact h.source_eq hd
    · obtain ⟨s, -, -, hs⟩ := deals_ensureDealer h.players_nodup hd he
      exact ⟨s.deal, hs, rfl, rfl⟩

theorem move (h : Seeded source t) (m : Move) : Seeded source (t.move m) := by
  have hnodup := players_move_nodup h.players_nodup m
  cases hd : t.dealer with
  | some d =>
    obtain ⟨s, hs, hbet, hconfirmed⟩ := h.dealt d hd
    have hnext := (hs.move m).dealer_eq
    refine ⟨hnodup, fun hn => ?_, fun e he => ?_⟩
    · rw [hnext] at hn
      cases hn
    · rw [hnext] at he
      cases he
      exact ⟨s, hs.move m, hbet, hconfirmed⟩
  | none =>
    by_cases hm : m = .ensureDealer
    · subst hm
      exact h.ensureDealer
    · have hnext := (move_dealer_of_ne (t := t) hm).trans hd
      refine ⟨hnodup, fun _ => (move_source_of_ne hm).trans (h.source_eq hd), fun e he => ?_⟩
      rw [hnext] at he
      cases he

theorem play (h : Seeded source t) (moves : List Move) : Seeded source (t.play moves) := by
  induction moves generalizing t with
  | nil => exact h
  | cons m moves ih => exact ih (h.move m)

theorem dealer_of_empty (h : Seeded source t) (hs : t.seats = []) : t.dealer = none := by
  cases hd : t.dealer with
  | none => rfl
  | some d =>
    obtain ⟨s, hdeals, -⟩ := h.dealt d hd
    have hmem := (mem_of_seat? hdeals.seat?_eq).1
    rw [hs] at hmem
    cases hmem

/-- What was done before the draw is not in the index. -/
theorem draw (h : Seeded source t) (hd : t.dealer = none) (hs : t.seats ≠ []) :
    let i := Random.Source.scaledIndex t.seats.length (Random.Source.word source.seed source.taken)
      (Random.Source.word source.seed (source.taken + 1))
    ∃ s, t.seats[i]? = some s ∧ t.ensureDealer =
      { t with
        seats := t.seats.set i s.deal
        dealer := some s.user
        source := (source.pick t.seats.length).2 } := by
  obtain ⟨s, hi, e⟩ := ensureDealer_pick hd hs
  rw [h.source_eq hd, Random.Source.pick_eq_scaledIndex] at hi e
  exact ⟨s, hi, e⟩

end Seeded

/-- The dealer is drawn once. With nobody seated there is no draw, and no word of the seed is taken.
Otherwise the draw deals in the seat at an index that the seed and the number of seats alone
decide, and from then on neither the dealer nor the dealer's seat ever changes. -/
theorem dealer_drawn_once (room : RoomCode) (seed : UInt64) (moves : List Move) :
    let t := (new room (.ofSeed seed)).play moves
    let n := t.seats.length
    let first := Random.Source.word seed 0
    let second := Random.Source.word seed 1
    let i := Random.Source.scaledIndex n first second
    (t.ensureDealer.dealer = none ↔ n = 0) ∧
    (n = 0 → t.ensureDealer = t ∧ t.source = .ofSeed seed) ∧
    (n < UInt32.size →
      i = (first.toNat * UInt32.size + second.toNat) * n / (UInt32.size * UInt32.size)) ∧
    (t.dealer = none → 0 < n → i < n ∧ ∃ s, t.seats[i]? = some s ∧ t.ensureDealer =
      { t with
        seats := t.seats.set i s.deal
        dealer := some s.user
        source := ((Random.Source.ofSeed seed).pick n).2 }) ∧
    ∀ d, t.ensureDealer.dealer = some d → ∃ s, t.ensureDealer.seat? d = some s ∧ s.bet = 0 ∧
      s.confirmed = true ∧ ∀ later,
        let u := t.ensureDealer.play later
        u.dealer = some d ∧ u.seat? d = some s ∧ u.ensureDealer = u := by
  intro t n first second i
  have hseeded : Seeded (.ofSeed seed) t := (Seeded.new room (.ofSeed seed)).play moves
  have hempty : n = 0 → t.dealer = none ∧ t.seats = [] := fun hn =>
    ⟨hseeded.dealer_of_empty (List.length_eq_zero_iff.1 hn), List.length_eq_zero_iff.1 hn⟩
  refine ⟨?_, fun hn => ?_, fun hn => Random.Source.scaledIndex_eq_div hn first second,
    fun hd hn => ?_, fun d hd => ?_⟩
  · rw [dealer_ensureDealer_eq_none_iff]
    exact ⟨fun h => List.length_eq_zero_iff.2 h.2, hempty⟩
  · obtain ⟨hd, hs⟩ := hempty hn
    exact ⟨ensureDealer_of_empty hs, hseeded.source_eq hd⟩
  · exact ⟨Random.Source.scaledIndex_lt hn first second,
      hseeded.draw hd (List.length_pos_iff.1 hn)⟩
  · obtain ⟨s, hs, hbet, hconfirmed⟩ := hseeded.ensureDealer.dealt d hd
    refine ⟨s, hs.seat?_eq, hbet, hconfirmed, fun later => ?_⟩
    have hlater := hs.play later
    exact ⟨hlater.dealer_eq, hlater.seat?_eq, ensureDealer_of_isSome hlater.dealer_eq⟩

end Table

end Cardroom
