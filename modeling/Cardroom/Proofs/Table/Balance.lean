import Cardroom.Proofs.Table.Seats

namespace Cardroom

namespace Seat

/-- Bet and stack are no debts and make up the stake. -/
structure Balanced (stake : Int) (s : Seat) : Prop where
  bet_nonneg : 0 ≤ s.bet
  chips_nonneg : 0 ≤ s.chips
  bet_add_chips : s.bet + s.chips = stake

/-- The dealer has bet nothing and counts as confirmed. -/
structure Dealt (stake : Int) (s : Seat) : Prop where
  bet_eq : s.bet = 0
  confirmed_eq : s.confirmed = true
  chips_eq : s.chips = stake

theorem balanced_take {c : Int} (h : 0 ≤ c) (u : UserId) (name : String) :
    (take u name c).Balanced c :=
  ⟨Int.le_refl 0, h, Int.zero_add c⟩

/-- A bet that the stake covers keeps the balance, whatever the bet was before. -/
theorem Balanced.place {stake bet : Int} {s : Seat} (h : s.Balanced stake) (h0 : 0 ≤ bet)
    (hb : bet ≤ max s.bet (s.bet + s.chips)) (b : Bool) : (s.place bet b).Balanced stake := by
  obtain ⟨hbet, hchips, hsum⟩ := h
  refine ⟨h0, ?_, ?_⟩
  · change 0 ≤ s.chips - (bet - s.bet)
    omega
  · change bet + (s.chips - (bet - s.bet)) = stake
    omega

end Seat

namespace Table

/-- Every player has one seat, the dealer has one, and all others balance. -/
structure Sound (stake : UserId → Int) (t : Table) : Prop where
  players_nodup : t.players.Nodup
  dealer_seated : ∀ d, t.dealer = some d → d ∈ t.players
  balanced : ∀ s ∈ t.seats, t.dealer ≠ some s.user → s.Balanced (stake s.user)

namespace Sound

variable {stake : UserId → Int} {t : Table}

theorem new (stake : UserId → Int) (room : RoomCode) (source : Random.Source) :
    Sound stake (Table.new room source) :=
  ⟨List.nodup_nil, fun _ h => (Option.some_ne_none _ h.symm).elim, fun _ h => nomatch h⟩

theorem congr {other : UserId → Int} (h : Sound stake t) (he : ∀ u ∈ t.players, other u = stake u) :
    Sound other t :=
  ⟨h.players_nodup, h.dealer_seated, fun s hs hd => by
    rw [he s.user (mem_players hs)]
    exact h.balanced s hs hd⟩

theorem seat {u : UserId} {c : Int} (h : Sound stake t) (hu : u ∉ t.players → stake u = c)
    (hc : 0 ≤ c) (name : String) : Sound stake (t.seat u name c) := by
  by_cases hm : u ∈ t.players
  · rwa [seat_of_mem hm]
  refine ⟨players_seat_nodup h.players_nodup u name c, ?_, ?_⟩
  · intro d hd
    rw [seat_dealer] at hd
    exact mem_players_seat.2 (.inl (h.dealer_seated d hd))
  · intro s hs hd
    rw [seat_dealer] at hd
    rw [seat_of_not_mem hm, List.mem_append, List.mem_singleton] at hs
    rcases hs with hs | rfl
    · exact h.balanced s hs hd
    · rw [Seat.take_user, hu hm]
      exact Seat.balanced_take hc u name

theorem ensureDealer (h : Sound stake t) : Sound stake t.ensureDealer := by
  refine ⟨by rw [players_ensureDealer]; exact h.players_nodup, ?_, ?_⟩
  · intro d hd
    rw [players_ensureDealer]
    obtain ⟨e, -⟩ | ⟨-, i, s, hs, e⟩ := ensureDealer_cases t
    · exact h.dealer_seated d (e ▸ hd)
    · rw [e] at hd
      cases hd
      exact mem_players (List.mem_of_getElem? hs)
  · intro r hr hd
    obtain ⟨e, -⟩ | ⟨hn, i, s, hs, e⟩ := ensureDealer_cases t
    · rw [e] at hr hd
      exact h.balanced r hr hd
    · rw [e] at hr hd
      -- the only seat that changed is the new dealer's
      rcases List.mem_or_eq_of_mem_set hr with hr | rfl
      · exact h.balanced r hr (by simp [hn])
      · exact absurd rfl hd

theorem bet (h : Sound stake t) (u : UserId) (c : BetCommand) : Sound stake (t.bet u c).2 := by
  refine ⟨by rw [players_bet]; exact h.players_nodup, ?_, ?_⟩
  · intro d hd
    rw [players_bet]
    rw [bet_dealer] at hd
    exact h.dealer_seated d hd
  · intro r hr hd
    rw [bet_dealer] at hd
    obtain ⟨reason, e⟩ | ⟨s, hs, -, h0, hb, e⟩ := bet_cases t u c
    · rw [e] at hr
      exact h.balanced r hr hd
    · rw [e] at hr
      obtain ⟨q, hq, rfl⟩ := List.mem_map.1 hr
      by_cases hu : q.user = u
      · rw [if_pos hu] at hd ⊢
        have hqs : q = s := seat_unique h.players_nodup hq (mem_of_seat? hs).1
          (hu.trans (mem_of_seat? hs).2.symm)
        subst hqs
        exact (h.balanced q hq hd).place h0 hb c.confirm
      · rw [if_neg hu] at hd ⊢
        exact h.balanced q hq hd

end Sound

/-- A sound table of equal stakes where nobody has bet before the draw. -/
structure Fair (stake : Int) (t : Table) : Prop extends Sound (fun _ => stake) t where
  dealt : ∀ s ∈ t.seats, t.dealer = some s.user → s.Dealt stake
  opening : t.dealer = none → ∀ s ∈ t.seats, s.bet = 0

namespace Fair

variable {stake : Int} {t : Table}

theorem new (stake : Int) (room : RoomCode) (source : Random.Source) :
    Fair stake (Table.new room source) :=
  ⟨Sound.new _ room source, fun _ h _ => (nomatch h), fun _ _ h => (nomatch h)⟩

theorem seat (h : Fair stake t) (hstake : 0 ≤ stake) (u : UserId) (name : String) :
    Fair stake (t.seat u name stake) := by
  refine ⟨h.toSound.seat (fun _ => rfl) hstake name, ?_, ?_⟩
  · intro s hs hd
    rw [seat_dealer] at hd
    by_cases hm : u ∈ t.players
    · rw [seat_of_mem hm] at hs
      exact h.dealt s hs hd
    rw [seat_of_not_mem hm, List.mem_append, List.mem_singleton] at hs
    rcases hs with hs | rfl
    · exact h.dealt s hs hd
    · exact absurd (h.dealer_seated u hd) hm
  · intro hd s hs
    rw [seat_dealer] at hd
    by_cases hm : u ∈ t.players
    · rw [seat_of_mem hm] at hs
      exact h.opening hd s hs
    rw [seat_of_not_mem hm, List.mem_append, List.mem_singleton] at hs
    rcases hs with hs | rfl
    · exact h.opening hd s hs
    · rfl

theorem seatMembers (h : Fair stake t) (hstake : 0 ≤ stake) (ms : List Member) :
    Fair stake (t.seatMembers ms stake).2 :=
  seatMembers_induction (fun m _ _ ht => ht.seat hstake m.user m.name) h

theorem ensureDealer (h : Fair stake t) : Fair stake t.ensureDealer := by
  obtain ⟨e, -⟩ | ⟨hn, i, s, hs, e⟩ := ensureDealer_cases t
  · rwa [e]
  refine ⟨h.toSound.ensureDealer, ?_, ?_⟩
  · intro r hr hd
    have hsm : s ∈ t.seats := List.mem_of_getElem? hs
    have hmem : s.deal ∈ t.ensureDealer.seats := by
      rw [e]
      exact List.mem_set (List.getElem?_eq_some_iff.1 hs).1 s.deal
    have hr' : s.user = r.user := by
      rw [e] at hd
      exact Option.some.inj hd
    have hchips : s.chips = stake := by
      have hsum := (h.balanced s hsm (by simp [hn])).bet_add_chips
      have hbet := h.opening hn s hsm
      omega
    rw [seat_unique h.toSound.ensureDealer.players_nodup hr hmem hr'.symm]
    exact ⟨rfl, rfl, hchips⟩
  · intro hd
    rw [e] at hd
    cases hd

theorem bet (h : Fair stake t) (hd : t.dealer ≠ none) (u : UserId) (c : BetCommand) :
    Fair stake (t.bet u c).2 := by
  refine ⟨h.toSound.bet u c, ?_, ?_⟩
  · intro r hr hr'
    rw [bet_dealer] at hr'
    obtain ⟨reason, e⟩ | ⟨s, -, hu, -, -, e⟩ := bet_cases t u c
    · rw [e] at hr
      exact h.dealt r hr hr'
    · rw [e] at hr
      obtain ⟨q, hq, rfl⟩ := List.mem_map.1 hr
      by_cases hqu : q.user = u
      · rw [if_pos hqu] at hr'
        exact absurd (hr'.trans (congrArg some hqu)) hu
      · rw [if_neg hqu] at hr' ⊢
        exact h.dealt q hq hr'
  · intro hn
    rw [bet_dealer] at hn
    exact absurd hn hd

end Fair

end Table

end Cardroom
