import Cardroom.Proofs.Json.Records
import Cardroom.Proofs.Table.Balance
/-!
Betting in numbers of 64 bits. `Table.betInWords?` is `Table.bet` with every difference, sum and
negation held in such a number, and stops where one does not fit. On a sound table with stakes that
fit it never stops, for the chips of a seat and its bet never exceed the stake together.
-/

namespace Cardroom

def word? (i : Int) : Option Int := if isInt64 i then some i else none

theorem word?_of_isInt64 {i : Int} (h : isInt64 i = true) : word? i = some i := if_pos h

theorem isInt64_of_abs_le {k i : Int} (hs : isInt64 k = true) (hl : -k ≤ i)
    (hu : i ≤ k) : isInt64 i = true := by
  rw [Json.isInt64_iff] at *
  omega

namespace Seat

/-- Takes the chips for a raise from the stack, or puts back those of a lower bet. -/
def payInWords? (s : Seat) (delta : Int) : Option Int :=
  if 0 < delta then word? (s.chips - delta)
  else if delta < 0 then do word? (s.chips + (← word? (-delta)))
  else some s.chips

def placeInWords? (s : Seat) (bet : Int) (confirm : Bool) : Option (BetOutcome × Seat) := do
  let delta ← word? (bet - s.bet)
  if 0 < delta ∧ s.chips < delta then return (.ignored .insufficientChips, s)
  return (.applied delta, ⟨s.user, s.name, bet, confirm, ← s.payInWords? delta⟩)

theorem payInWords?_eq {stake delta : Int} {s : Seat} (h : s.Balanced stake)
    (hs : isInt64 stake = true) (hl : -s.bet ≤ delta) (hu : delta ≤ max 0 s.chips) :
    s.payInWords? delta = some (s.chips - delta) := by
  obtain ⟨hbet, hchips, hsum⟩ := h
  have hrest : isInt64 (s.chips - delta) = true := isInt64_of_abs_le hs (by omega) (by omega)
  unfold payInWords?
  split
  · exact word?_of_isInt64 hrest
  · split
    · have hrefund : isInt64 (-delta) = true := isInt64_of_abs_le hs (by omega) (by omega)
      rw [word?_of_isInt64 hrefund, Option.bind_eq_bind, Option.bind_some, ← Int.sub_eq_add_neg]
      exact word?_of_isInt64 hrest
    · rw [show delta = 0 by omega, Int.sub_zero]

theorem placeInWords?_eq {stake bet : Int} {s : Seat} (h : s.Balanced stake)
    (hs : isInt64 stake = true) (hb : isInt64 bet = true) (h0 : 0 ≤ bet) (b : Bool) :
    s.placeInWords? bet b =
      some (if s.chips < bet - s.bet ∧ 0 < bet - s.bet then (.ignored .insufficientChips, s)
        else (.applied (bet - s.bet), s.place bet b)) := by
  have hbet := h.bet_nonneg
  have hsum := h.bet_add_chips
  have hchips := h.chips_nonneg
  have hdelta : isInt64 (bet - s.bet) = true := by
    rw [Json.isInt64_iff] at *
    omega
  unfold placeInWords?
  rw [word?_of_isInt64 hdelta, Option.bind_eq_bind, Option.bind_some]
  by_cases hc : s.chips < bet - s.bet ∧ 0 < bet - s.bet
  · rw [if_pos hc, if_pos ⟨hc.2, hc.1⟩]
    rfl
  · rw [if_neg hc, if_neg fun e => hc ⟨e.2, e.1⟩, payInWords?_eq h hs (by omega) (by omega)]
    rfl

end Seat

namespace Table

def betInWords? (t : Table) (user : UserId) (c : BetCommand) : Option (BetOutcome × Table) :=
  if t.dealer = some user then some (.ignored .dealerBet, t)
  else if c.bet < 0 then some (.ignored .negativeBet, t)
  else
    match t.seat? user with
    | none => some (.ignored .unknownPlayer, t)
    | some s => (s.placeInWords? c.bet c.confirm).map fun (outcome, r) =>
        (outcome, t.modifySeat user fun _ => r)

theorem modifySeat_congr {t : Table} {u : UserId} {s : Seat} (h : t.players.Nodup)
    (hs : t.seat? u = some s) {g k : Seat → Seat} (hgk : g s = k s) :
    t.modifySeat u g = t.modifySeat u k := by
  simp only [modifySeat, Table.mk.injEq, true_and, and_true]
  apply List.map_congr_left
  intro r hr
  split
  · rename_i hu
    rw [seat_unique h hr (mem_of_seat? hs).1 (hu.trans (mem_of_seat? hs).2.symm), hgk]
  · rfl

theorem modifySeat_id (t : Table) (u : UserId) : t.modifySeat u (fun s => s) = t := by
  simp [modifySeat]

theorem Sound.betInWords?_eq {stake : UserId → Int} {t : Table} (h : Sound stake t)
    (hs : ∀ u ∈ t.players, isInt64 (stake u) = true) (u : UserId) {c : BetCommand}
    (hc : isInt64 c.bet = true) : t.betInWords? u c = some (t.bet u c) := by
  unfold betInWords?
  by_cases hd : t.dealer = some u
  · rw [if_pos hd, bet_of_ignored (if_pos hd)]
  by_cases hn : c.bet < 0
  · rw [if_neg hd, if_pos hn, bet_of_ignored (by rw [judge, if_neg hd, if_pos hn])]
  rw [if_neg hd, if_neg hn]
  cases hu : t.seat? u with
  | none => simp only [bet_of_ignored (show t.judge u c.bet = .ignored .unknownPlayer by
      rw [judge, if_neg hd, if_neg hn, hu])]
  | some s =>
    have hj := judge_of_seat? hd (by omega : 0 ≤ c.bet) hu
    obtain ⟨hm, hsu⟩ := mem_of_seat? hu
    have hb := h.balanced s hm fun e => hd (e.trans (congrArg some hsu))
    simp only [Seat.placeInWords?_eq hb (hs _ (mem_players hm)) hc (by omega)]
    split at hj
    · rename_i hx
      rw [if_pos hx, bet_of_ignored hj]
      simp only [Option.map_some]
      rw [modifySeat_congr h.players_nodup hu (k := fun s => s) rfl, modifySeat_id]
    · rename_i hx
      rw [if_neg hx, bet_of_applied hj]
      simp only [Option.map_some]
      rw [modifySeat_congr h.players_nodup hu (k := (·.place c.bet c.confirm)) rfl]

end Table

end Cardroom
