import Cardroom.Proofs.Floor.Dealing
import Cardroom.Proofs.Floor.Tableside
import Cardroom.Proofs.Table.Words

namespace Cardroom

variable {σ : Type}

namespace Table

theorem fair_filled {stake : Int} {t : Table} (h : Fair stake t) (hs : 0 ≤ stake)
    (members : List Member) : Fair stake (Tableside.filled t members stake) :=
  (h.seatMembers hs members).ensureDealer

theorem kept_fair {stake : Int} (hs : 0 ≤ stake) :
    Kept stake fun code t => Drawn code t ∧ Fair stake t where
  room h := h.1.room_eq
  start code source _ hm :=
    ⟨(kept_drawn stake).start code source hm, fair_filled (Fair.new stake code source) hs _⟩
  fill hm h := ⟨(kept_drawn stake).fill hm h.1, fair_filled h.2 hs _⟩
  bet u c h := by
    obtain ⟨d, -, hd⟩ := h.1.dealer
    exact ⟨(kept_drawn stake).bet u c h.1, h.2.bet (by simp [hd]) u c⟩

theorem seats_ne_nil_of_drawn {code : RoomCode} {t : Table} (h : Drawn code t) : t.seats ≠ [] := by
  obtain ⟨d, hd, -⟩ := h.dealer
  obtain ⟨s, hs, -⟩ := mem_players_iff.1 hd
  exact List.ne_nil_of_mem hs

end Table

namespace Floor

/-- At every moment, whatever is under way, each table has a dealer who keeps all chips and has bet
nothing, everyone else's bet and stack make up the chips that they started with, and no bet in 64
bits overflows. -/
theorem chips_kept [RoomStore σ] {config : Config} (hpos : 0 < config.startingChips)
    (hword : isInt64 config.startingChips = true) (secret : String) (store : σ)
    (entropy : Random.Source) (turns : List (Turn σ)) {code : RoomCode} {t : Table}
    (ht : ((Bustle.idle (new config secret store entropy)).play turns).floor.table? code = some t) :
    t.seats ≠ [] ∧ t.players.Nodup ∧ (∃ d ∈ t.players, t.dealer = some d) ∧
    (∀ s ∈ t.seats, t.dealer = some s.user →
      s.bet = 0 ∧ s.confirmed = true ∧ s.chips = config.startingChips) ∧
    (∀ s ∈ t.seats, t.dealer ≠ some s.user →
      0 ≤ s.bet ∧ 0 ≤ s.chips ∧ s.bet + s.chips = config.startingChips) ∧
    ∀ (u : UserId) (c : BetCommand), isInt64 c.bet = true →
      t.betInWords? u c = some (t.bet u c) := by
  obtain ⟨hdrawn, hfair⟩ := every_play (Table.kept_fair (Int.le_of_lt hpos)) secret store entropy
    turns code t ht
  refine ⟨Table.seats_ne_nil_of_drawn hdrawn, hdrawn.players_nodup, hdrawn.dealer, ?_, ?_, ?_⟩
  · intro s hs hd
    obtain ⟨hbet, hconfirmed, hchips⟩ := hfair.dealt s hs hd
    exact ⟨hbet, hconfirmed, hchips⟩
  · intro s hs hd
    obtain ⟨hbet, hchips, hsum⟩ := hfair.balanced s hs hd
    exact ⟨hbet, hchips, hsum⟩
  · intro u c hc
    exact hfair.toSound.betInWords?_eq (fun _ _ => hword) u hc

/-- Ann and Cy have joined the table, where Bo deals. Both have bet, Cy everything, and neither bet has
been shown yet; nor have all been shown that Cy is there. -/
def salonTurns : List (Turn Rooms) :=
  [.begins (.client (.opens 0 1 (.steady (.takes 0)))), .goesOn 0,
    .begins (.client (.opens 1 3 (.steady (.takes 0)))), .goesOn 1,
    .begins (.table (.joins salonRoom 0)), .goesOn 2, .begins (.table (.joins salonRoom 1)), .goesOn 3,
    .goesOn 2, .goesOn 2, .goesOn 3, .goesOn 2, .goesOn 3, .goesOn 3, .goesOn 2, .goesOn 3,
    .begins (.table (.receives salonRoom 1 hundred)), .begins (.table (.receives salonRoom 3 allIn)),
    .goesOn 5, .goesOn 4]

theorem chips_kept_salon : 0 < ({} : Config).startingChips ∧
    isInt64 ({} : Config).startingChips = true ∧
    ∃ t, ((Bustle.idle salon).play salonTurns).floor.table? salonRoom = some t ∧
      t.seats = [⟨1, "Ann", 100, false, 900⟩, ⟨2, "Bo", 0, true, 1000⟩, ⟨3, "Cy", 1000, true, 0⟩] ∧
      t.dealer = some 2 ∧ (∃ d ∈ t.players, t.dealer = some d) ∧
      (∀ s ∈ t.seats, t.dealer = some s.user → s.bet = 0 ∧ s.confirmed = true ∧ s.chips = 1000) ∧
      (∀ s ∈ t.seats, t.dealer ≠ some s.user →
        0 ≤ s.bet ∧ 0 ≤ s.chips ∧ s.bet + s.chips = 1000) ∧
      t.betInWords? 3 ⟨1000, true⟩ = some (t.bet 3 ⟨1000, true⟩) := by
  have hseats : (((Bustle.idle salon).play salonTurns).floor.table? salonRoom).map Table.seats =
      some [⟨1, "Ann", 100, false, 900⟩, ⟨2, "Bo", 0, true, 1000⟩, ⟨3, "Cy", 1000, true, 0⟩] := by
    decide +kernel
  have hdealer : (((Bustle.idle salon).play salonTurns).floor.table? salonRoom).map Table.dealer =
      some (some 2) := by
    decide +kernel
  obtain ⟨t, ht, hseats⟩ := Option.map_eq_some_iff.1 hseats
  rw [ht] at hdealer
  obtain ⟨-, -, hdealt, hkept, hothers, hwords⟩ :=
    chips_kept (by decide) (by decide) "" salon.store (.ofSeed 0) salonTurns ht
  exact ⟨by decide, by decide, t, ht, hseats, Option.some.inj hdealer, hdealt, hkept, hothers,
    hwords 3 ⟨1000, true⟩ (by decide)⟩

end Floor

end Cardroom
