import Cardroom.Proofs.Floor.Turns

namespace Cardroom

variable {σ : Type}

open Tableside in
/-- What filling a table, with so many chips for everyone, and betting at it keep. -/
structure Table.Kept (chips : Int) (P : RoomCode → Table → Prop) : Prop where
  room : ∀ {code t}, P code t → t.room = code
  start : ∀ code source {members}, members ≠ [] → P code (filled (.new code source) members chips)
  fill : ∀ {code t members}, members ≠ [] → P code t → P code (filled t members chips)
  bet : ∀ {code t} u c, P code t → P code (t.bet u c).2

namespace Floor

def Every (P : RoomCode → Table → Prop) (f : Floor σ) : Prop :=
  ∀ code t, f.table? code = some t → P code t

theorem every_new (P : RoomCode → Table → Prop) (config : Config) (secret : String) (store : σ)
    (entropy : Random.Source) : (new config secret store entropy).Every P :=
  fun _ _ h => nomatch h

structure Deals (chips : Int) (P : RoomCode → Table → Prop) (f g : Floor σ) : Prop where
  config : g.config = f.config
  every : f.config.startingChips = chips → f.Every P → g.Every P

variable {chips : Int} {P : RoomCode → Table → Prop}

namespace Deals

theorem steps : Script.Steps (Deals (σ := σ) chips P) where
  refl _ := ⟨rfl, fun _ h => h⟩
  trans h k := ⟨k.config.trans h.config, fun e p =>
    k.every ((congrArg Config.startingChips h.config).trans e) (h.every e p)⟩

theorem of_table? {f g : Floor σ} (hc : g.config = f.config)
    (ht : ∀ code, g.table? code = f.table? code) : Deals chips P f g :=
  ⟨hc, fun _ h code t e => h code t ((ht code).symm.trans e)⟩

theorem write (f : Floor σ) (id : ConnId) (p : Payload) : Deals chips P f (f.write id p).2 := by
  obtain ⟨c, e⟩ := write_eq f id p
  rw [e]
  exact of_table? rfl fun _ => rfl

theorem setAttendance (f : Floor σ) (side : Side) (a : Attendance) :
    Deals chips P f (f.setAttendance side a) := by
  cases side <;> exact of_table? rfl fun _ => rfl

theorem seat (hP : Table.Kept chips P) (f : Floor σ) (code : RoomCode) {members : List Member}
    (hm : members ≠ []) : Deals chips P f (Tableside.seatMembers code members f).2 := by
  obtain ⟨t, tables, entropy, ht, e, htables⟩ := Tableside.seatMembers_cases code members f
  rw [e]
  refine ⟨rfl, fun hc hf other u hu => ?_⟩
  rw [hc] at htables
  have hfilled : t.room = code ∧ P code (Tableside.filled t members chips) := by
    obtain ht | ⟨-, source, rfl⟩ := ht
    · exact ⟨hP.room (hf code t ht), hP.fill hm (hf code t ht)⟩
    · exact ⟨rfl, hP.start code source hm⟩
  change tables.get? other = some u at hu
  rw [htables, hfilled.1] at hu
  split at hu
  · rename_i h
    cases hu
    rw [h]
    exact hfilled.2
  · exact hf other u hu

theorem bet (hP : Table.Kept chips P) (f : Floor σ) (code : RoomCode) (u : UserId)
    (c : BetCommand) : Deals chips P f (Tableside.placeBet code u c f).2 := by
  obtain ⟨reason, e⟩ | ⟨t, ht, e⟩ := Tableside.placeBet_cases code u c f
  · rw [e]
    exact steps.refl f
  · rw [e]
    refine ⟨rfl, fun _ hf other v hv => ?_⟩
    rw [table?_setTable, Table.bet_room, hP.room (hf code t ht)] at hv
    split at hv
    · rename_i h
      cases hv
      rw [h]
      exact hP.bet u c (hf code t ht)
    · exact hf other v hv

theorem removeTable (f : Floor σ) (code : RoomCode) : Deals chips P f (f.removeTable code) := by
  refine ⟨rfl, fun _ hf other t ht => ?_⟩
  rw [table?_removeTable] at ht
  split at ht
  · cases ht
  · exact hf other t ht

theorem delivery (side : Side) (K : Frame → Prop) :
    Delivery.Allowed (Deals (σ := σ) chips P) side K where
  toSteps := steps
  write f id F _ := write f id (.frame F)
  close _ _ := of_table? rfl fun _ => rfl
  shrink f a _ := setAttendance f side a
  count _ _ _ := of_table? rfl fun _ => rfl

theorem lobby [RoomStore σ] : Lobby.Allowed (Deals (σ := σ) chips P) where
  toAllowed := delivery .lobby _
  enter f _ _ := setAttendance f .lobby _
  ready f code user ready := by
    obtain ⟨s, e⟩ := Lobby.setReady_eq code user ready f
    rw [e]
    exact of_table? rfl fun _ => rfl

theorem table (hP : Table.Kept chips P) : Tableside.Allowed (Deals (σ := σ) chips P) where
  toAllowed := delivery .table _
  enter f _ _ := setAttendance f .table _
  seat f code _ hm := seat hP f code hm
  bet := bet hP
  clear := removeTable

theorem client : ClientAct.Allowed (Deals (σ := σ) chips P) where
  toSteps := steps
  connect f id user sink := by
    unfold connect
    split
    · exact steps.refl f
    · exact of_table? rfl fun _ => rfl
  turn _ _ _ := of_table? rfl fun _ => rfl
  close _ _ := of_table? rfl fun _ => rfl
  write f id p _ := write f id p

theorem act [RoomStore σ] (hP : Table.Kept chips P) : Act.Allowed (Deals (σ := σ) chips P) where
  client := client
  lobby := lobby
  table := table hP
  edit _ _ := of_table? rfl fun _ => rfl

end Deals

variable [RoomStore σ] {config : Config}

/-- What filling and betting keep holds of every table at every moment, also while scripts are under
way. -/
theorem every_play (hP : Table.Kept config.startingChips P) (secret : String) (store : σ)
    (entropy : Random.Source) (turns : List (Turn σ)) :
    ((Bustle.idle (new config secret store entropy)).play turns).floor.Every P :=
  have h := Bustle.play_of_within (Deals.act hP)
    (w := .idle (new config secret store entropy)) (fun _ h => nomatch h) turns
  h.every rfl (every_new P config secret store entropy)

theorem every_after (hP : Table.Kept config.startingChips P) (secret : String) (store : σ)
    (entropy : Random.Source) (acts : List (Act σ)) :
    ((new config secret store entropy).after acts).Every P := by
  obtain ⟨turns, e⟩ := Bustle.exists_play_after (.idle (new config secret store entropy)) acts
  have h := every_play hP secret store entropy turns
  rw [e] at h
  exact h

end Floor

namespace Table

/-- A table under its own room where everyone has one seat and one of them is the dealer. -/
structure Drawn (code : RoomCode) (t : Table) : Prop where
  room_eq : t.room = code
  players_nodup : t.players.Nodup
  dealer : ∃ d ∈ t.players, t.dealer = some d

theorem exists_dealer_ensureDealer {t : Table} (h : t.players ≠ [])
    (hd : ∀ d, t.dealer = some d → d ∈ t.players) :
    ∃ d ∈ t.ensureDealer.players, t.ensureDealer.dealer = some d := by
  rw [players_ensureDealer]
  obtain ⟨e, hs | hs⟩ | ⟨-, i, s, hs, e⟩ := ensureDealer_cases t
  · obtain ⟨d, hd'⟩ := Option.isSome_iff_exists.1 hs
    rw [e]
    exact ⟨d, hd d hd', hd'⟩
  · exact absurd (by rw [players, hs]; rfl) h
  · rw [e]
    exact ⟨s.user, mem_players (List.mem_of_getElem? hs), rfl⟩

theorem drawn_filled {code : RoomCode} {t : Table} {members : List Member} (chips : Int)
    (hm : members ≠ []) (hr : t.room = code) (hn : t.players.Nodup)
    (hd : ∀ d, t.dealer = some d → d ∈ t.players) :
    Drawn code (Tableside.filled t members chips) := by
  refine ⟨(Tableside.filled_room t members chips).trans hr, ?_, ?_⟩
  · rw [Tableside.filled, players_ensureDealer]
    exact players_seatMembers_nodup hn members chips
  · refine exists_dealer_ensureDealer ?_ fun d h => ?_
    · obtain ⟨m, hmem⟩ := List.exists_mem_of_ne_nil members hm
      exact List.ne_nil_of_mem (mem_players_seatMembers.2 (.inr (List.mem_map_of_mem hmem)))
    · rw [seatMembers_dealer] at h
      exact mem_players_seatMembers.2 (.inl (hd d h))

theorem kept_drawn (chips : Int) : Kept chips Drawn where
  room h := h.room_eq
  start code source _ hm := drawn_filled chips hm rfl List.nodup_nil fun _ h => nomatch h
  fill hm h := drawn_filled chips hm h.room_eq h.players_nodup fun d hd => by
    obtain ⟨e, he, hde⟩ := h.dealer
    rw [hde] at hd
    cases hd
    exact he
  bet u c h := ⟨(bet_room _ u c).trans h.room_eq, by rw [players_bet]; exact h.players_nodup, by
    rw [players_bet, bet_dealer]
    exact h.dealer⟩

end Table

end Cardroom
