import Cardroom.Proofs.Table.Balance

namespace Cardroom.Table

inductive Move where
  | seat (user : UserId) (name : String) (chips : Int)
  | seatMembers (members : List Member) (chips : Int)
  | ensureDealer
  | bet (user : UserId) (command : BetCommand)

namespace Move

def stake? (m : Move) (u : UserId) : Option Int :=
  match m with
  | .seat v _ chips => if v = u then some chips else none
  | .seatMembers members chips => if u ∈ members.map Member.user then some chips else none
  | .ensureDealer | .bet _ _ => none

def Solvent (m : Move) : Prop :=
  match m with
  | .seat _ _ chips | .seatMembers _ chips => 0 ≤ chips
  | .ensureDealer | .bet _ _ => True

end Move

def move (t : Table) : Move → Table
  | .seat user name chips => t.seat user name chips
  | .seatMembers members chips => (t.seatMembers members chips).2
  | .ensureDealer => t.ensureDealer
  | .bet user command => (t.bet user command).2

def play (t : Table) (moves : List Move) : Table := moves.foldl move t

def stake? (moves : List Move) (u : UserId) : Option Int := moves.findSome? (·.stake? u)

theorem play_cons (t : Table) (m : Move) (moves : List Move) :
    t.play (m :: moves) = (t.move m).play moves := rfl

theorem play_append (t : Table) (xs ys : List Move) :
    t.play (xs ++ ys) = (t.play xs).play ys :=
  List.foldl_append

theorem stake?_cons (m : Move) (moves : List Move) (u : UserId) :
    stake? (m :: moves) u = (m.stake? u).or (stake? moves u) := by
  rw [stake?, List.findSome?_cons]
  cases m.stake? u <;> rfl

theorem mem_players_move {t : Table} {m : Move} {u : UserId} :
    u ∈ (t.move m).players ↔ u ∈ t.players ∨ (m.stake? u).isSome := by
  cases m with
  | seat v name chips =>
    rw [move, mem_players_seat, Move.stake?]
    by_cases h : v = u
    · simp [h]
    · simp [h, Ne.symm h]
  | seatMembers members chips =>
    rw [move, mem_players_seatMembers, Move.stake?]
    by_cases h : u ∈ members.map Member.user <;> simp [h]
  | ensureDealer => simp [move, Move.stake?]
  | bet v command => simp [move, Move.stake?]

theorem players_move_nodup {t : Table} (h : t.players.Nodup) (m : Move) :
    (t.move m).players.Nodup := by
  cases m with
  | seat u name chips => exact players_seat_nodup h u name chips
  | seatMembers members chips => exact players_seatMembers_nodup h members chips
  | ensureDealer =>
    rw [move, players_ensureDealer]
    exact h
  | bet u command =>
    rw [move, players_bet]
    exact h

/-- Only the draw sets a dealer, and only the draw takes words of the source. -/
theorem move_dealer_of_ne {t : Table} {m : Move} (hm : m ≠ .ensureDealer) :
    (t.move m).dealer = t.dealer := by
  cases m with
  | seat u name chips => exact seat_dealer t u name chips
  | seatMembers members chips => exact seatMembers_dealer t members chips
  | ensureDealer => exact absurd rfl hm
  | bet u command => exact bet_dealer t u command

theorem move_source_of_ne {t : Table} {m : Move} (hm : m ≠ .ensureDealer) :
    (t.move m).source = t.source := by
  cases m with
  | seat u name chips => exact seat_source t u name chips
  | seatMembers members chips => exact seatMembers_source t members chips
  | ensureDealer => exact absurd rfl hm
  | bet u command => exact bet_source t u command

theorem mem_players_play {t : Table} {moves : List Move} {u : UserId} :
    u ∈ (t.play moves).players ↔ u ∈ t.players ∨ (stake? moves u).isSome := by
  induction moves generalizing t with
  | nil => simp [play, stake?]
  | cons m moves ih =>
    rw [play_cons, ih, mem_players_move, stake?_cons, Option.isSome_or, Bool.or_eq_true, or_assoc]

namespace Sound

variable {stake : UserId → Int} {t : Table}

theorem seatMembers {members : List Member} {c : Int} (h : Sound stake t)
    (hm : ∀ m ∈ members, m.user ∉ t.players → stake m.user = c) (hc : 0 ≤ c) :
    Sound stake (t.seatMembers members c).2 := by
  -- those who sat before still sit, so the stakes of the others stay free
  let P : Table → Prop := fun v => Sound stake v ∧ ∀ u ∈ t.players, u ∈ v.players
  have hP : P (t.seatMembers members c).2 := by
    refine seatMembers_induction (fun m hmem v hv => ⟨?_, ?_⟩) ⟨h, fun _ hu => hu⟩
    · exact hv.1.seat (fun hu => hm m hmem fun hu' => hu (hv.2 _ hu')) hc m.name
    · exact fun u hu => mem_players_seat.2 (.inl (hv.2 u hu))
  exact hP.1

theorem move (h : Sound stake t) (m : Move) (hm : m.Solvent) :
    Sound (fun u => if u ∈ t.players then stake u else (m.stake? u).getD 0) (t.move m) := by
  have hs : Sound (fun u => if u ∈ t.players then stake u else (m.stake? u).getD 0) t :=
    h.congr fun u hu => if_pos hu
  cases m with
  | seat v name chips =>
    refine hs.seat (fun hv => ?_) hm name
    simp [hv, Move.stake?]
  | seatMembers members chips =>
    refine hs.seatMembers (fun n hn hv => ?_) hm
    simp only [if_neg hv, Move.stake?, if_pos (List.mem_map_of_mem hn), Option.getD_some]
  | ensureDealer => exact hs.ensureDealer
  | bet v command => exact hs.bet v command

theorem play (h : Sound stake t) (moves : List Move) (hm : ∀ m ∈ moves, m.Solvent) :
    Sound (fun u => if u ∈ t.players then stake u else (stake? moves u).getD 0) (t.play moves) := by
  induction moves generalizing stake t with
  | nil => exact h.congr fun u hu => if_pos hu
  | cons m moves ih =>
    have hrest := ih (h.move m (hm m List.mem_cons_self))
      fun n hn => hm n (List.mem_cons_of_mem m hn)
    refine hrest.congr fun u _ => ?_
    by_cases hu : u ∈ t.players
    · simp [hu, mem_players_move]
    · rw [stake?_cons]
      cases hs : m.stake? u with
      | none => simp [hu, mem_players_move, hs]
      | some c => simp [hu, mem_players_move, hs]

end Sound

theorem sound_play (room : RoomCode) (source : Random.Source) (moves : List Move)
    (hm : ∀ m ∈ moves, m.Solvent) :
    Sound (fun u => (stake? moves u).getD 0) ((new room source).play moves) :=
  ((Sound.new (fun _ => 0) room source).play moves hm).congr fun _ _ => by simp

end Cardroom.Table
