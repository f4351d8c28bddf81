import Cardroom.Proofs.Table.Play
import Mathlib.Data.List.Induction

namespace Cardroom

/-- A seat with a stake after the last bet that was placed on it, if there was one. -/
def Seat.settle (s : Seat) (stake : Int) : Option BetCommand → Seat
  | none => s
  | some c => { s with bet := c.bet, confirmed := c.confirm, chips := stake - c.bet }

@[simp] theorem Seat.settle_user (s : Seat) (stake : Int) (last : Option BetCommand) :
    (s.settle stake last).user = s.user := by
  cases last <;> rfl

theorem Seat.settle_place (s : Seat) (last : Option BetCommand) (c : BetCommand) :
    (s.settle (s.bet + s.chips) last).place c.bet c.confirm =
      s.settle (s.bet + s.chips) (some c) := by
  cases last with
  | none =>
    simp only [settle, place, Seat.mk.injEq, true_and]
    omega
  | some d =>
    simp only [settle, place, Seat.mk.injEq, true_and]
    omega

namespace Table

structure Answer where
  user : UserId
  command : BetCommand
  outcome : BetOutcome

def Answer.isApplied (a : Answer) : Bool :=
  match a.outcome with
  | .applied _ => true
  | .ignored _ => false

def bets (t : Table) : List (UserId × BetCommand) → List Answer × Table
  | [] => ([], t)
  | (u, c) :: rest =>
    (⟨u, c, (t.bet u c).1⟩ :: ((t.bet u c).2.bets rest).1, ((t.bet u c).2.bets rest).2)

def commandsOf (u : UserId) (l : List (UserId × BetCommand)) : List (UserId × BetCommand) :=
  l.filter fun x => x.1 = u

def answersOf (u : UserId) (l : List Answer) : List Answer := l.filter fun a => a.user = u

def lastApplied (u : UserId) (l : List Answer) : Option BetCommand :=
  ((answersOf u l).filter Answer.isApplied).getLast?.map Answer.command

variable {t : Table}

theorem bets_append (t : Table) (xs ys : List (UserId × BetCommand)) :
    t.bets (xs ++ ys) =
      ((t.bets xs).1 ++ ((t.bets xs).2.bets ys).1, ((t.bets xs).2.bets ys).2) := by
  induction xs generalizing t with
  | nil => rfl
  | cons x xs ih =>
    obtain ⟨u, c⟩ := x
    simp only [List.cons_append, bets, ih]

theorem bets_concat (t : Table) (xs : List (UserId × BetCommand)) (u : UserId) (c : BetCommand) :
    t.bets (xs ++ [(u, c)]) =
      ((t.bets xs).1 ++ [⟨u, c, ((t.bets xs).2.bet u c).1⟩], ((t.bets xs).2.bet u c).2) := by
  rw [bets_append]
  rfl

theorem bets_induction {P : Table → Prop} (step : ∀ t u c, P t → P (t.bet u c).2) (h : P t)
    (xs : List (UserId × BetCommand)) : P (t.bets xs).2 := by
  induction xs generalizing t with
  | nil => exact h
  | cons x xs ih => exact ih (step t x.1 x.2 h)

@[simp] theorem bets_dealer (t : Table) (xs : List (UserId × BetCommand)) :
    (t.bets xs).2.dealer = t.dealer :=
  bets_induction (P := fun v => v.dealer = t.dealer)
    (fun v u c h => (bet_dealer v u c).trans h) rfl xs

@[simp] theorem players_bets (t : Table) (xs : List (UserId × BetCommand)) :
    (t.bets xs).2.players = t.players :=
  bets_induction (P := fun v => v.players = t.players)
    (fun v u c h => (players_bet v u c).trans h) rfl xs

theorem Sound.bets {stake : UserId → Int} (h : Sound stake t) (xs : List (UserId × BetCommand)) :
    Sound stake (t.bets xs).2 :=
  bets_induction (fun _ u c hv => hv.bet u c) h xs

theorem bets_eq_seats (t : Table) (xs : List (UserId × BetCommand)) :
    (t.bets xs).2 = { t with seats := (t.bets xs).2.seats } := by
  refine bets_induction (P := fun v => v = { t with seats := v.seats }) (fun v u c hv => ?_) rfl xs
  obtain ⟨reason, e⟩ | ⟨s, -, -, -, -, e⟩ := bet_cases v u c
  · rw [e]
    exact hv
  · rw [e, hv]
    rfl

/-- Two tables that look the same to one player. -/
def SameFor (u : UserId) (t v : Table) : Prop := t.dealer = v.dealer ∧ t.seat? u = v.seat? u

theorem SameFor.judge {u : UserId} {v : Table} (h : SameFor u t v) (bet : Int) :
    t.judge u bet = v.judge u bet := by
  simp only [Table.judge, h.1, h.2]

theorem SameFor.bet {u : UserId} {v : Table} (h : SameFor u t v) (c : BetCommand) :
    (t.bet u c).1 = (v.bet u c).1 ∧ SameFor u (t.bet u c).2 (v.bet u c).2 := by
  have hj := h.judge c.bet
  cases ho : t.judge u c.bet with
  | ignored reason =>
    rw [bet_of_ignored ho, bet_of_ignored (hj ▸ ho)]
    exact ⟨rfl, h⟩
  | applied delta =>
    rw [bet_of_applied ho, bet_of_applied (hj ▸ ho)]
    refine ⟨rfl, h.1, ?_⟩
    rw [seat?_modifySeat t u u fun s => Seat.place_user s c.bet c.confirm,
      seat?_modifySeat v u u fun s => Seat.place_user s c.bet c.confirm, h.2]

theorem SameFor.bet_other {u w : UserId} {v : Table} (h : SameFor u t v) (hw : w ≠ u)
    (c : BetCommand) : SameFor u (t.bet w c).2 v := by
  obtain ⟨reason, e⟩ | ⟨s, -, -, -, -, e⟩ := bet_cases t w c
  · rwa [e]
  · rw [e]
    refine ⟨h.1, ?_⟩
    rw [seat?_modifySeat t w u fun s => Seat.place_user s c.bet c.confirm, if_neg hw.symm]
    exact h.2

theorem SameFor.answersOf_bets {u : UserId} {v : Table} (h : SameFor u t v)
    (xs : List (UserId × BetCommand)) :
    answersOf u (t.bets xs).1 = (v.bets (commandsOf u xs)).1 := by
  -- the tables drift apart with every bet of another, but not in what `u` sees of them
  induction xs generalizing t v with
  | nil => rfl
  | cons x xs ih =>
    obtain ⟨w, c⟩ := x
    by_cases hw : w = u
    · subst hw
      obtain ⟨ho, hnext⟩ := h.bet c
      have hrest := ih hnext
      simp only [answersOf, commandsOf] at hrest
      simp only [bets, answersOf, commandsOf, List.filter_cons, decide_true, if_true, ho, hrest]
    · have hrest := ih (h.bet_other hw c)
      simp only [answersOf, commandsOf] at hrest
      simp only [bets, answersOf, commandsOf, List.filter_cons, hw, decide_false,
        Bool.false_eq_true, if_false, hrest]

/-- What becomes of a player's bets is what becomes of them without anybody else's. -/
theorem answersOf_bets (t : Table) (u : UserId) (xs : List (UserId × BetCommand)) :
    answersOf u (t.bets xs).1 = (t.bets (commandsOf u xs)).1 :=
  SameFor.answersOf_bets ⟨rfl, rfl⟩ xs

theorem lastApplied_concat_of_applied {u : UserId} (l : List Answer) (c : BetCommand) (d : Int) :
    lastApplied u (l ++ [⟨u, c, .applied d⟩]) = some c := by
  simp [lastApplied, answersOf, Answer.isApplied]

theorem lastApplied_concat_of_ignored {u w : UserId} (l : List Answer) (c : BetCommand)
    (reason : IgnoreReason) :
    lastApplied u (l ++ [⟨w, c, .ignored reason⟩]) = lastApplied u l := by
  by_cases h : w = u <;> simp [lastApplied, answersOf, Answer.isApplied, h]

theorem lastApplied_concat_of_ne {u w : UserId} (h : w ≠ u) (l : List Answer) (c : BetCommand)
    (o : BetOutcome) : lastApplied u (l ++ [⟨w, c, o⟩]) = lastApplied u l := by
  simp [lastApplied, answersOf, h]

/-- Every seat is settled by the last bet that was placed on it. -/
theorem bets_settle (t : Table) (xs : List (UserId × BetCommand)) :
    (t.bets xs).2.seats =
      t.seats.map fun s => s.settle (s.bet + s.chips) (lastApplied s.user (t.bets xs).1) := by
  induction xs using List.reverseRecOn with
  | nil => exact (List.map_id'' (fun _ => rfl) t.seats).symm
  | append_singleton xs x ih =>
    obtain ⟨u, c⟩ := x
    rw [bets_concat]
    obtain ⟨reason, e⟩ | ⟨s, -, -, -, -, e⟩ := bet_cases (t.bets xs).2 u c
    · simp only [e, lastApplied_concat_of_ignored]
      exact ih
    · simp only [e, modifySeat, ih, List.map_map]
      apply List.map_congr_left
      intro r _
      simp only [Function.comp_apply, Seat.settle_user]
      by_cases hu : r.user = u
      · subst hu
        rw [if_pos rfl, lastApplied_concat_of_applied, Seat.settle_place]
      · rw [if_neg hu, lastApplied_concat_of_ne (Ne.symm hu)]

theorem lastApplied_congr {u : UserId} {l k : List Answer} (h : answersOf u l = answersOf u k) :
    lastApplied u l = lastApplied u k := by
  rw [lastApplied, lastApplied, h]

theorem applied_iff {stake : UserId → Int} (h : Sound stake t) (u : UserId) (c : BetCommand) :
    (∃ delta, (t.bet u c).1 = .applied delta) ↔
      u ∈ t.players ∧ t.dealer ≠ some u ∧ 0 ≤ c.bet ∧ c.bet ≤ stake u := by
  constructor
  · rintro ⟨delta, ho⟩
    obtain ⟨reason, e⟩ | ⟨s, hs, hd, h0, hb, -⟩ := bet_cases t u c
    · rw [e] at ho
      cases ho
    · obtain ⟨hm, rfl⟩ := mem_of_seat? hs
      obtain ⟨hbet, hchips, hsum⟩ := h.balanced s hm hd
      exact ⟨mem_players hm, hd, h0, by omega⟩
  · rintro ⟨hu, hd, h0, hle⟩
    obtain ⟨s, hm, rfl⟩ := mem_players_iff.1 hu
    obtain ⟨hbet, hchips, hsum⟩ := h.balanced s hm hd
    have hj := judge_of_seat? hd h0 ((seat?_eq_some_iff h.players_nodup).2 ⟨hm, rfl⟩)
    rw [if_neg (by omega)] at hj
    exact ⟨c.bet - s.bet, by rw [bet_of_applied hj]⟩

theorem lastApplied_dealer {u : UserId} (hd : t.dealer = some u)
    (xs : List (UserId × BetCommand)) : lastApplied u (t.bets xs).1 = none := by
  induction xs using List.reverseRecOn with
  | nil => rfl
  | append_singleton xs x ih =>
    obtain ⟨w, c⟩ := x
    rw [bets_concat]
    obtain ⟨reason, e⟩ | ⟨s, -, hw, -, -, -⟩ := bet_cases (t.bets xs).2 w c
    · rw [e, lastApplied_concat_of_ignored, ih]
    · rw [bets_dealer] at hw
      rw [lastApplied_concat_of_ne (fun h : w = u => hw (h.symm ▸ hd)), ih]

/-- Bets that come in another order, but each player's own in the same, end at the same table, and
each is answered in the same way. A bet is placed if and only if its player has a seat, is not the
dealer and was seated with enough for it, whatever bets came before; in the end a seat is as the
last bet that was placed on it left it. -/
theorem bets_interleave (room : RoomCode) (source : Random.Source) (moves : List Move)
    (hmoves : ∀ m ∈ moves, m.Solvent) :
    let t := (new room source).play moves
    (∀ xs ys, (∀ u, commandsOf u xs = commandsOf u ys) →
      (t.bets xs).2 = (t.bets ys).2 ∧
        ∀ u, answersOf u (t.bets xs).1 = answersOf u (t.bets ys).1) ∧
    (∀ before u c, (∃ delta, ((t.bets before).2.bet u c).1 = .applied delta) ↔
      u ∈ t.players ∧ t.dealer ≠ some u ∧ 0 ≤ c.bet ∧
        ∃ stake, stake? moves u = some stake ∧ c.bet ≤ stake) ∧
    (∀ xs, (t.bets xs).2 =
      { t with
        seats := t.seats.map fun s =>
          s.settle ((stake? moves s.user).getD 0) (lastApplied s.user (t.bets xs).1) }) ∧
    ∀ xs d, t.dealer = some d → lastApplied d (t.bets xs).1 = none := by
  intro t
  have hsound : Sound (fun u => (stake? moves u).getD 0) t := sound_play room source moves hmoves
  have hsame : ∀ xs ys, (∀ u, commandsOf u xs = commandsOf u ys) →
      ∀ u, answersOf u (t.bets xs).1 = answersOf u (t.bets ys).1 := by
    intro xs ys h u
    rw [answersOf_bets, answersOf_bets, h u]
  refine ⟨?_, ?_, ?_, fun xs d hd => lastApplied_dealer hd xs⟩
  · intro xs ys h
    refine ⟨?_, hsame xs ys h⟩
    have hseats : (t.bets xs).2.seats = (t.bets ys).2.seats := by
      rw [bets_settle, bets_settle]
      apply List.map_congr_left
      intro s _
      rw [lastApplied_congr (hsame xs ys h s.user)]
    rw [bets_eq_seats t xs, bets_eq_seats t ys, hseats]
  · intro before u c
    rw [applied_iff (hsound.bets before), players_bets, bets_dealer]
    constructor
    · rintro ⟨hu, hd, h0, hle⟩
      obtain ⟨stake, hs⟩ :=
        Option.isSome_iff_exists.1 (mem_players_play.1 hu |>.resolve_left (by simp))
      exact ⟨hu, hd, h0, stake, hs, by simpa [hs] using hle⟩
    · rintro ⟨hu, hd, h0, stake, hs, hle⟩
      exact ⟨hu, hd, h0, by simpa [hs] using hle⟩
  · intro xs
    rw [bets_eq_seats, bets_settle]
    congr 1
    apply List.map_congr_left
    intro s hs
    cases hl : lastApplied s.user (t.bets xs).1 with
    | none => rfl
    | some c =>
      have hd : t.dealer ≠ some s.user := fun hd => by
        rw [lastApplied_dealer hd] at hl
        cases hl
      rw [(hsound.balanced s hs hd).bet_add_chips]

/-- Two players with three bets between them: the one that the second player cannot pay for is
refused wherever it comes, and the table is the same. -/
theorem bets_interleave_two_players :
    let moves : List Move := [.seatMembers [⟨1, "a", true, true⟩, ⟨2, "b", true, false⟩] 1000,
      .ensureDealer, .seat 3 "c" 500]
    let t := (new ⟨"7", by decide⟩ ⟨5, 0⟩).play moves
    (∀ m ∈ moves, m.Solvent) ∧
    (t.bets [(2, ⟨300, true⟩), (3, ⟨501, true⟩), (3, ⟨40, false⟩)]).2 =
      (t.bets [(3, ⟨501, true⟩), (2, ⟨300, true⟩), (3, ⟨40, false⟩)]).2 ∧
    ¬ ∃ delta, ((t.bets [(3, ⟨40, false⟩)]).2.bet 3 ⟨501, true⟩).1 = .applied delta := by
  intro moves t
  have hmoves : ∀ m ∈ moves, m.Solvent := by simp [moves, Move.Solvent]
  have h := bets_interleave ⟨"7", by decide⟩ ⟨5, 0⟩ moves hmoves
  refine ⟨hmoves, (h.1 _ _ fun u => ?_).1, ?_⟩
  · by_cases h2 : 2 = u
    · subst h2
      rfl
    · simp [commandsOf, List.filter_cons, h2]
  · rw [h.2.1]
    rintro ⟨-, -, -, stake, hs, hle⟩
    have h500 : stake? moves 3 = some 500 := by decide
    rw [h500] at hs
    cases hs
    exact absurd hle (by decide)

end Table

end Cardroom
