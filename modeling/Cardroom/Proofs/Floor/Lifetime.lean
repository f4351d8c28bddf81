import Cardroom.Proofs.Floor.TableFrames
import Mathlib.Data.Finset.Card

namespace Cardroom

variable {σ τ : Type}

open Script Tableside

/-! ### A table as it goes on -/

namespace Table

/-- The same table later on: the dealer and what is left of the source are the same, and every seat
is where it was and unchanged but for the bets of those who may bet. -/
structure Continues (mayBet : UserId → Prop) (t u : Table) : Prop where
  dealer : u.dealer = t.dealer
  source : u.source = t.source
  seats : ∀ (i : Nat) (s : Seat), t.seats[i]? = some s → ∃ s', u.seats[i]? = some s' ∧
    s'.user = s.user ∧ s'.name = s.name ∧ (¬ mayBet s.user → s' = s)

def DealsAt (t : Table) (i : Nat) : Prop := ∃ s, t.seats[i]? = some s ∧ t.dealer = some s.user

/-- The dealer was drawn from the source among `n` seats, and nothing has been drawn since. -/
structure DealtFrom (source : Random.Source) (n : Nat) (t : Table) : Prop where
  dealsAt : t.DealsAt (source.pick n).1
  source : t.source = (source.pick n).2

variable {mayBet : UserId → Prop} {t u v : Table} {code : RoomCode}

namespace Continues

theorem refl (t : Table) : t.Continues mayBet t :=
  ⟨rfl, rfl, fun _ s h => ⟨s, h, rfl, rfl, fun _ => rfl⟩⟩

theorem trans (h : t.Continues mayBet u) (k : u.Continues mayBet v) : t.Continues mayBet v := by
  refine ⟨k.dealer.trans h.dealer, k.source.trans h.source, fun i s hs => ?_⟩
  obtain ⟨r, hr, huser, hname, hsame⟩ := h.seats i s hs
  obtain ⟨q, hq, huser', hname', hsame'⟩ := k.seats i r hr
  refine ⟨q, hq, huser'.trans huser, hname'.trans hname, fun hnot => ?_⟩
  rw [hsame' (by rwa [huser]), hsame hnot]

theorem mono {may : UserId → Prop} (h : t.Continues may u) (hm : ∀ v, may v → mayBet v) :
    t.Continues mayBet u := by
  refine ⟨h.dealer, h.source, fun i s hs => ?_⟩
  obtain ⟨r, hr, huser, hname, hsame⟩ := h.seats i s hs
  exact ⟨r, hr, huser, hname, fun hnot => hsame fun e => hnot (hm _ e)⟩

theorem seat (t : Table) (user : UserId) (name : String) (chips : Int) :
    t.Continues mayBet (t.seat user name chips) := by
  by_cases h : user ∈ t.players
  · rw [seat_of_mem h]
    exact refl t
  · rw [seat_of_not_mem h]
    refine ⟨rfl, rfl, fun i s hs => ⟨s, ?_, rfl, rfl, fun _ => rfl⟩⟩
    exact (List.getElem?_append_left (List.getElem?_eq_some_iff.1 hs).1).trans hs

theorem filled (hd : t.Drawn code) (members : List Member) (chips : Int) :
    t.Continues mayBet (filled t members chips) := by
  obtain ⟨d, -, hdealer⟩ := hd.dealer
  rw [Tableside.filled, ensureDealer_of_isSome ((seatMembers_dealer ..).trans hdealer)]
  exact seatMembers_induction (P := t.Continues mayBet) (fun m _ v h => h.trans (seat v ..)) (refl t)

theorem bet (t : Table) (user : UserId) (c : BetCommand) :
    t.Continues (· = user) (t.bet user c).2 := by
  obtain ⟨reason, e⟩ | ⟨seat, -, -, -, -, e⟩ := bet_cases t user c
  · rw [e]
    exact refl t
  · rw [e]
    refine ⟨rfl, rfl, fun i s hs => ?_⟩
    refine ⟨if s.user = user then s.place c.bet c.confirm else s, ?_, ?_, ?_, fun h => if_neg h⟩
    · simp only [modifySeat, List.getElem?_map, hs, Option.map_some]
    all_goals split <;> rfl

theorem dealtFrom (h : t.Continues mayBet u) {source : Random.Source} {n : Nat}
    (ht : t.DealtFrom source n) : u.DealtFrom source n := by
  obtain ⟨s, hs, hdealer⟩ := ht.dealsAt
  obtain ⟨r, hr, huser, -⟩ := h.seats _ s hs
  exact ⟨⟨r, hr, by rw [h.dealer, hdealer, huser]⟩, h.source.trans ht.source⟩

end Continues

def headcount (members : List Member) : Nat := (members.map Member.user).toFinset.card

theorem seats_seatMembers_new (room : RoomCode) (source : Random.Source) (members : List Member)
    (chips : Int) : ∀ s ∈ ((new room source).seatMembers members chips).2.seats,
      s.bet = 0 ∧ s.chips = chips := by
  refine seatMembers_induction (P := fun u => ∀ s ∈ u.seats, s.bet = 0 ∧ s.chips = chips)
    (fun _ _ u hu => ?_) fun _ h => nomatch h
  unfold seat
  split
  · exact hu
  · exact List.forall_mem_append.2 ⟨hu, List.forall_mem_singleton.2 ⟨rfl, rfl⟩⟩

theorem length_seatMembers_new (room : RoomCode) (source : Random.Source) (members : List Member)
    (chips : Int) :
    ((new room source).seatMembers members chips).2.seats.length = headcount members := by
  have hnodup := players_seatMembers_nodup (t := new room source) List.nodup_nil members chips
  have hmem : ((new room source).seatMembers members chips).2.players.toFinset =
      (members.map Member.user).toFinset := by
    ext u
    rw [List.mem_toFinset, List.mem_toFinset, mem_players_seatMembers]
    exact or_iff_right List.not_mem_nil
  rw [headcount, ← hmem, List.toFinset_card_of_nodup hnodup, players, List.length_map]

/-- A table that is set up for members: the dealer is drawn among as many seats as there are users,
and nobody has bet. -/
theorem filled_new (room : RoomCode) (source : Random.Source) {members : List Member}
    (hm : members ≠ []) (chips : Int) :
    (Tableside.filled (.new room source) members chips).DealtFrom source (headcount members) ∧
      ∀ s ∈ (Tableside.filled (.new room source) members chips).seats,
        s.bet = 0 ∧ s.chips = chips := by
  have hseats : ((new room source).seatMembers members chips).2.seats ≠ [] := by
    obtain ⟨m, hmem⟩ := List.exists_mem_of_ne_nil members hm
    intro h
    have hplayer := (mem_players_seatMembers (t := new room source) (c := chips)).2
      (.inr (List.mem_map_of_mem hmem))
    rw [players, h] at hplayer
    exact List.not_mem_nil hplayer
  have hfresh := seats_seatMembers_new room source members chips
  obtain ⟨s, hs, e⟩ := ensureDealer_pick (seatMembers_dealer (.new room source) members chips) hseats
  rw [seatMembers_source, length_seatMembers_new] at hs e
  rw [Tableside.filled, e]
  refine ⟨⟨⟨s.deal, ?_, rfl⟩, rfl⟩, fun r hr => ?_⟩
  · exact List.getElem?_set_self (List.getElem?_eq_some_iff.1 hs).1
  · obtain hr | rfl := List.mem_or_eq_of_mem_set hr
    · exact hfresh r hr
    · exact ⟨rfl, (hfresh s (List.mem_of_getElem? hs)).2⟩

end Table

/-! ### What becomes of a room's table -/

namespace Floor

variable {f : Floor σ} {code : RoomCode} {a : Act σ} {t : Table}

theorem table?_dropRoom (f : Floor σ) (side : Side) (room code : RoomCode) :
    ((Delivery.dropRoom side room).run f).2.table? code = f.table? code := by
  have htables : Same Floor.tables f ((Delivery.dropRoom side room).run f).2 :=
    (Delivery.only_dropRoom side room).same (fun _ _ => rfl) (fun _ _ => by cases side <;> rfl)
      (fun _ _ => rfl) f
  exact congrArg (KeyMap.get? · code) htables

theorem table?_closeRoom (f : Floor σ) (room code : RoomCode) :
    ((Tableside.closeRoom room).run f).2.table? code =
      if code = room then none else f.table? code := by
  rw [Tableside.closeRoom, run_monad_bind, run_discard, run_change, table?_removeTable,
    table?_dropRoom]

variable [RoomStore σ]

structure Gathers (f : Floor σ) (a : Act σ) (code : RoomCode) (members : List Member) : Prop where
  act : ∃ id, a = .table (.joins code id)
  read : RoomStore.members f.store code = .ok members
  nonempty : members ≠ []

theorem table?_perform_of_clears {room : RoomCode} (ha : a.Clears room) (f : Floor σ)
    (code : RoomCode) :
    (f.perform a).table? code = if code = room then none else f.table? code := by
  obtain rfl | rfl := ha
  · exact table?_closeRoom f room code
  · rw [perform, Act.script, Door.roomClosed, run_monad_bind, run_discard, Lobby.closeRoom,
      table?_closeRoom, table?_dropRoom]

theorem table?_perform_of_gathers (hd : f.Every Table.Drawn) {room : RoomCode}
    {members : List Member} (ha : f.Gathers a room members) (code : RoomCode) :
    (f.perform a).table? code =
      if code = room then some (filled (f.ensureTable room).1 members f.config.startingChips)
      else f.table? code := by
  obtain ⟨id, rfl⟩ := ha.act
  rw [perform, Act.script, TableAct.script, run_discard]
  obtain ⟨-, hnil⟩ | ⟨ms, hms, -, e⟩ := join_cases room id f
  · exact absurd (hnil members ha.read) ha.nonempty
  · cases ha.read.symm.trans hms
    have hown : ∀ t, f.table? room = some t → t.room = room := fun t ht => (hd room t ht).room_eq
    have hroom := room_ensureTable hown
    refine e ▸ (table?_letIn (t := (f.ensureTable room).1) (fun other => ?_) code).trans ?_
    · rw [hroom, ordered, table?_write, Delivery.enter, table?_setAttendance,
        table?_seatMembers hown]
    · rw [hroom]

theorem table?_perform_cases (hd : f.Every Table.Drawn) (hc : ¬ a.Clears code)
    (hg : ∀ members, ¬ f.Gathers a code members) :
    (f.perform a).table? code = f.table? code ∨
    ∃ user raw c t, a = .table (.receives code user raw) ∧ f.table? code = some t ∧
      (f.perform a).table? code = some (t.bet user c).2 := by
  cases a with
  | client a =>
    have htables : Same Floor.tables f (f.perform (.client a)) :=
      (a.within (ClientAct.same fun _ _ => rfl)).run (Same.steps _) f
    exact .inl (congrArg (KeyMap.get? · code) htables)
  | edits change => exact .inl rfl
  | lobby a =>
    have htables : Same Floor.tables f (f.perform (.lobby a)) :=
      (a.within (Lobby.same (fun _ _ => rfl) (fun _ _ => rfl) (fun _ _ => rfl)
        fun _ _ => rfl)).run (Same.steps _) f
    exact .inl (congrArg (KeyMap.get? · code) htables)
  | table a =>
    cases a with
    | joins room id =>
      obtain ⟨e, -⟩ | ⟨members, hm, hne, -⟩ := join_cases room id f
      · rw [perform, Act.script, TableAct.script, run_discard, e]
        exact .inl rfl
      · have hgathers : f.Gathers (.table (.joins room id)) room members := ⟨⟨id, rfl⟩, hm, hne⟩
        have hroom : code ≠ room := by
          rintro rfl
          exact hg members hgathers
        exact .inl ((table?_perform_of_gathers hd hgathers code).trans (if_neg hroom))
    | receives room user raw =>
      rw [perform, Act.script, TableAct.script, run_discard]
      obtain e | ⟨t, c, ht, e⟩ := receive_cases room user raw f
      · rw [e]
        exact .inl rfl
      · rw [e, table?_showBets, table?_setTable, Table.bet_room, (hd room t ht).room_eq]
        split
        · rename_i h
          subst h
          exact .inr ⟨user, raw, c, t, rfl, ht, rfl⟩
        · exact .inl rfl
    | leaves room id =>
      exact .inl (table?_setAttendance f .table (f.table.leave room id) code)
    | closes room =>
      have hroom : code ≠ room := by
        rintro rfl
        exact hc (.inl rfl)
      exact .inl ((table?_perform_of_clears (.inl rfl) f code).trans (if_neg hroom))
  | roomClosed room =>
    have hroom : code ≠ room := by
      rintro rfl
      exact hc (.inr rfl)
    exact .inl ((table?_perform_of_clears (.inr rfl) f code).trans (if_neg hroom))

/-- What an act that does not clear a table makes of it. -/
theorem continues_perform (hd : f.Every Table.Drawn) (hc : ¬ a.Clears code)
    (ht : f.table? code = some t) : ∃ u, (f.perform a).table? code = some u ∧
      t.Continues (fun user => ∃ raw, a = .table (.receives code user raw)) u := by
  by_cases hg : ∃ members, f.Gathers a code members
  · obtain ⟨members, hg⟩ := hg
    refine ⟨_, (table?_perform_of_gathers hd hg code).trans (if_pos rfl), ?_⟩
    rw [ensureTable_of_some ht]
    exact .filled (hd code t ht) members _
  · obtain e | ⟨user, raw, c, u, rfl, hu, e⟩ := table?_perform_cases hd hc (not_exists.1 hg)
    · exact ⟨t, e.trans ht, .refl t⟩
    · cases ht.symm.trans hu
      exact ⟨_, e, (Table.Continues.bet t user c).mono fun v hv => ⟨raw, by rw [hv]⟩⟩

/-- Where there was no table, one stands after an act if and only if the act gathers members. -/
theorem table?_perform_of_none (hd : f.Every Table.Drawn) (hn : f.table? code = none)
    (h : (f.perform a).table? code = some t) : ∃ members, f.Gathers a code members := by
  by_contra hg
  by_cases hc : a.Clears code
  · rw [table?_perform_of_clears hc, if_pos rfl] at h
    cases h
  · obtain e | ⟨user, raw, c, u, rfl, hu, -⟩ := table?_perform_cases hd hc (not_exists.1 hg)
    · cases h.symm.trans (e.trans hn)
    · cases hn.symm.trans hu

/-! ### Runs -/

/-- The room's table was set up by a join that found these members, and has not been cleared since. -/
def Founded (f : Floor σ) (acts : List (Act σ)) (code : RoomCode) (members : List Member) : Prop :=
  ∃ pre a post, acts = pre ++ a :: post ∧ (f.after pre).table? code = none ∧
    (f.after pre).Gathers a code members ∧ ∀ c ∈ post, ¬ c.Clears code

theorem Founded.append {acts mid : List (Act σ)} {members : List Member}
    (h : f.Founded acts code members) (hmid : ∀ c ∈ mid, ¬ c.Clears code) :
    f.Founded (acts ++ mid) code members := by
  obtain ⟨pre, a, post, rfl, hn, hg, hpost⟩ := h
  exact ⟨pre, a, post ++ mid, by simp, hn, hg, List.forall_mem_append.2 ⟨hpost, hmid⟩⟩

structure TableLife (start : Floor σ) (seed : UInt64) (code : RoomCode) : Prop where
  /-- There is a table if and only if a join has gathered members since the room was last cleared. -/
  held_iff : ∀ acts, (∃ t, (start.after acts).table? code = some t) ↔
    ∃ pre a post members, acts = pre ++ a :: post ∧ (start.after pre).Gathers a code members ∧
      ∀ c ∈ post, ¬ c.Clears code
  /-- Until it is cleared it is the same table. -/
  continues : ∀ pre mid t, (start.after pre).table? code = some t → (∀ c ∈ mid, ¬ c.Clears code) →
    ∃ u, (start.after (pre ++ mid)).table? code = some u ∧
      t.Continues (fun user => ∃ raw, .table (.receives code user raw) ∈ mid) u
  /-- It does not change at all but by bets and by joins that gather somebody new. -/
  rests : ∀ pre a t, (start.after pre).table? code = some t → ¬ a.Clears code →
    (∀ user raw, a ≠ .table (.receives code user raw)) →
    (∀ members, (start.after pre).Gathers a code members → ∀ m ∈ members, m.user ∈ t.players) →
    (start.after (pre ++ [a])).table? code = some t
  founded : ∀ acts t, (start.after acts).table? code = some t →
    ∃ members, start.Founded acts code members
  /-- The one draw of its life is for the dealer. -/
  dealt : ∀ acts members, start.Founded acts code members →
    ∃ t, (start.after acts).table? code = some t ∧
      t.DealtFrom (.ofSeed (Table.seed seed code)) (Table.headcount members)
  fresh : ∀ pre a members, (start.after pre).table? code = none →
    (start.after pre).Gathers a code members → ∃ t, (start.after (pre ++ [a])).table? code = some t ∧
      ∀ s ∈ t.seats, s.bet = 0 ∧ s.chips = start.config.startingChips

section

variable {config : Config} {secret : String} {store : σ} {entropy : Random.Source}
variable {pre mid acts : List (Act σ)} {members : List Member}

theorem config_after (acts : List (Act σ)) :
    ((new config secret store entropy).after acts).config = config := by
  induction acts using List.reverseRecOn with
  | nil => rfl
  | append_singleton pre a ih =>
    rw [after_snoc]
    have h := (a.within (Deals.act (Table.kept_drawn config.startingChips))).run Deals.steps
      ((new config secret store entropy).after pre)
    exact h.config.trans ih

theorem continues_after (ht : ((new config secret store entropy).after pre).table? code = some t)
    (hmid : ∀ c ∈ mid, ¬ c.Clears code) :
    ∃ u, ((new config secret store entropy).after (pre ++ mid)).table? code = some u ∧
      t.Continues (fun user => ∃ raw, .table (.receives code user raw) ∈ mid) u := by
  -- from the end, since who may have bet grows with the acts
  induction mid using List.reverseRecOn with
  | nil => exact ⟨t, by rwa [List.append_nil], .refl t⟩
  | append_singleton mid a ih =>
    obtain ⟨hmid, ha⟩ := List.forall_mem_append.1 hmid
    obtain ⟨u, hu, hcontinues⟩ := ih hmid
    obtain ⟨v, hv, hstep⟩ :=
      continues_perform (every_drawn_after (pre ++ mid)) (ha a List.mem_cons_self) hu
    rw [← after_snoc, List.append_assoc] at hv
    refine ⟨v, hv, (hcontinues.mono fun user h => ?_).trans (hstep.mono fun user h => ?_)⟩
    · exact h.imp fun _ => List.mem_append_left _
    · exact h.imp fun _ e => List.mem_append_right _ (List.mem_singleton.2 e.symm)

/-- The table that a join sets up. -/
theorem table?_after_of_gathers {seed : UInt64} (hs : config.dealerSeed = some seed)
    (hn : ((new config secret store entropy).after pre).table? code = none)
    (hg : ((new config secret store entropy).after pre).Gathers a code members) :
    ∃ t, ((new config secret store entropy).after (pre ++ [a])).table? code = some t ∧
      t.DealtFrom (.ofSeed (Table.seed seed code)) (Table.headcount members) ∧
      ∀ s ∈ t.seats, s.bet = 0 ∧ s.chips = config.startingChips := by
  have hconfig : ((new config secret store entropy).after pre).config = config := config_after pre
  refine ⟨_, ?_, Table.filled_new code _ hg.nonempty config.startingChips⟩
  rw [after_snoc, table?_perform_of_gathers (every_drawn_after pre) hg, if_pos rfl,
    ensureTable_of_none (hconfig ▸ hs) hn, hconfig]

theorem exists_founded (ht : ((new config secret store entropy).after acts).table? code = some t) :
    ∃ members, (new config secret store entropy).Founded acts code members := by
  induction acts using List.reverseRecOn generalizing t with
  | nil => cases ht
  | append_singleton pre a ih =>
    rw [after_snoc] at ht
    cases hu : ((new config secret store entropy).after pre).table? code with
    | none =>
      obtain ⟨members, hg⟩ := table?_perform_of_none (every_drawn_after pre) hu ht
      exact ⟨members, pre, a, [], rfl, hu, hg, fun _ h => nomatch h⟩
    | some u =>
      have ha : ¬ a.Clears code := fun hc => by
        rw [table?_perform_of_clears hc, if_pos rfl] at ht
        cases ht
      obtain ⟨members, h⟩ := ih hu
      exact ⟨members, h.append (List.forall_mem_singleton.2 ha)⟩

theorem table?_after_of_founded {seed : UInt64} (hs : config.dealerSeed = some seed)
    (h : (new config secret store entropy).Founded acts code members) :
    ∃ t, ((new config secret store entropy).after acts).table? code = some t ∧
      t.DealtFrom (.ofSeed (Table.seed seed code)) (Table.headcount members) := by
  obtain ⟨pre, a, post, rfl, hn, hg, hpost⟩ := h
  obtain ⟨t, ht, hdealt, -⟩ := table?_after_of_gathers hs hn hg
  obtain ⟨u, hu, hcontinues⟩ := continues_after ht hpost
  exact ⟨u, by rwa [List.append_cons], hcontinues.dealtFrom hdealt⟩

theorem held_iff_gathers (acts : List (Act σ)) :
    (∃ t, ((new config secret store entropy).after acts).table? code = some t) ↔
      ∃ pre a post members, acts = pre ++ a :: post ∧
        ((new config secret store entropy).after pre).Gathers a code members ∧
        ∀ c ∈ post, ¬ c.Clears code := by
  constructor
  · rintro ⟨t, ht⟩
    obtain ⟨members, pre, a, post, e, -, hg, hpost⟩ := exists_founded ht
    exact ⟨pre, a, post, members, e, hg, hpost⟩
  · rintro ⟨pre, a, post, members, rfl, hg, hpost⟩
    have ht := (table?_perform_of_gathers (every_drawn_after pre) hg code).trans (if_pos rfl)
    rw [← after_snoc] at ht
    obtain ⟨u, hu, -⟩ := continues_after ht hpost
    exact ⟨u, by rwa [List.append_cons]⟩

theorem tableLife {seed : UInt64} (hs : config.dealerSeed = some seed) (code : RoomCode) :
    TableLife (new config secret store entropy) seed code where
  held_iff := held_iff_gathers
  continues _ _ _ ht hmid := continues_after ht hmid
  rests pre a t ht hc hbet hg := by
    rw [after_snoc]
    by_cases hgathers : ∃ members, ((new config secret store entropy).after pre).Gathers a code members
    · obtain ⟨members, h⟩ := hgathers
      rw [table?_perform_of_gathers (every_drawn_after pre) h, if_pos rfl,
        ensureTable_of_some ht, filled_of_subset (every_drawn_after pre code t ht) (hg _ h)]
    · obtain e | ⟨user, raw, -, -, e, -⟩ :=
        table?_perform_cases (every_drawn_after pre) hc (not_exists.1 hgathers)
      · exact e.trans ht
      · exact absurd e (hbet user raw)
  founded _ _ := exists_founded
  dealt _ _ := table?_after_of_founded hs
  fresh _ _ _ hn hg := by
    obtain ⟨t, ht, -, hfresh⟩ := table?_after_of_gathers hs hn hg
    exact ⟨t, ht, hfresh⟩

end

/-- On a server with a dealer seed a room's table lives from the first join that gathers members
until it is cleared, and its dealer is the one draw from a source of its own (`TableLife`). So the
dealer of a table that is set up again for as many users sits at the same seat as before, and so does
the dealer of the room's table on any other server with the same seed. -/
theorem dealers_reproducible [RoomStore τ] (seed : UInt64) (config config' : Config)
    (secret secret' : String) (store : σ) (store' : τ) (entropy entropy' : Random.Source)
    (code : RoomCode) :
    let start := new { config with dealerSeed := some seed } secret store entropy
    let other := new { config' with dealerSeed := some seed } secret' store' entropy'
    TableLife start seed code ∧
    (∀ acts c mid a members members', start.Founded acts code members → c.Clears code →
      (start.after (acts ++ c :: mid)).table? code = none →
      (start.after (acts ++ c :: mid)).Gathers a code members' →
      Table.headcount members' = Table.headcount members →
      ∃ t u i, (start.after acts).table? code = some t ∧ t.DealsAt i ∧
        (start.after (acts ++ c :: mid ++ [a])).table? code = some u ∧ u.DealsAt i ∧
        ∀ s ∈ u.seats, s.bet = 0 ∧ s.chips = config.startingChips) ∧
    ∀ acts acts' members members', start.Founded acts code members →
      other.Founded acts' code members' → Table.headcount members' = Table.headcount members →
      ∃ t u i, (start.after acts).table? code = some t ∧ t.DealsAt i ∧
        (other.after acts').table? code = some u ∧ u.DealsAt i := by
  intro start other
  refine ⟨tableLife rfl code, ?_, ?_⟩
  · intro acts c mid a members members' hfounded _ hnone hg hcount
    obtain ⟨t, ht, hdealt⟩ := table?_after_of_founded rfl hfounded
    obtain ⟨u, hu, hdealt', hfresh⟩ := table?_after_of_gathers rfl hnone hg
    rw [hcount] at hdealt'
    exact ⟨t, u, _, ht, hdealt.dealsAt, hu, hdealt'.dealsAt, hfresh⟩
  · intro acts acts' members members' hfounded hfounded' hcount
    obtain ⟨t, ht, hdealt⟩ := table?_after_of_founded rfl hfounded
    obtain ⟨u, hu, hdealt'⟩ := table?_after_of_founded rfl hfounded'
    rw [hcount] at hdealt'
    exact ⟨t, u, _, ht, hdealt.dealsAt, hu, hdealt'.dealsAt⟩

def salonOf (members : List Membership) : Rooms :=
  ⟨.insert .empty salonRoom ⟨⟨salonRoom, .waiting, 6, 1⟩, members⟩⟩

/-- The table of the salon is set up, cleared and set up again when Dee has come for Cy, and it is set
up on a server that has just started and where three others are members: the last of the three deals. -/
theorem dealers_reproducible_salon :
    let start := new { dealerSeed := some 7 } "" salon.store (.ofSeed 0)
    let other := new { dealerSeed := some 7, startingChips := 50 } "elsewhere"
      (salonOf [⟨7, "Eve", true⟩, ⟨8, "Fay", false⟩, ⟨9, "Gil", false⟩]) (.ofSeed 1)
    let close : Act Rooms := .table (.closes salonRoom)
    let replace : Act Rooms :=
      .edits fun _ => salonOf [⟨1, "Ann", true⟩, ⟨2, "Bo", false⟩, ⟨4, "Dee", false⟩]
    let again : Act Rooms := .table (.joins salonRoom 0)
    (∃ t u i, (start.after salonArrivals).table? salonRoom = some t ∧ t.DealsAt i ∧
      (start.after (salonArrivals ++ close :: [replace] ++ [again])).table? salonRoom = some u ∧
      u.DealsAt i ∧ ∀ s ∈ u.seats, s.bet = 0 ∧ s.chips = 1000) ∧
    (∃ t u i, (start.after salonArrivals).table? salonRoom = some t ∧ t.DealsAt i ∧
      (other.after [again]).table? salonRoom = some u ∧ u.DealsAt i) ∧
    ((start.after salonArrivals).table? salonRoom).map Table.dealer = some (some 3) ∧
    ((start.after (salonArrivals ++ close :: [replace] ++ [again])).table? salonRoom).map Table.dealer =
      some (some 4) ∧
    ((other.after [again]).table? salonRoom).map Table.dealer = some (some 9) := by
  intro start other close replace again
  have hfounded : start.Founded salonArrivals salonRoom
      [⟨1, "Ann", false, true⟩, ⟨2, "Bo", false, false⟩, ⟨3, "Cy", false, false⟩] :=
    ⟨salonArrivals.take 2, again, [], rfl, rfl, ⟨⟨0, rfl⟩, rfl, List.cons_ne_nil _ _⟩,
      fun _ h => nomatch h⟩
  have hfounded' : other.Founded [again] salonRoom
      [⟨7, "Eve", true, false⟩, ⟨8, "Fay", false, false⟩, ⟨9, "Gil", false, false⟩] :=
    ⟨[], again, [], rfl, rfl, ⟨⟨0, rfl⟩, rfl, List.cons_ne_nil _ _⟩, fun _ h => nomatch h⟩
  obtain ⟨-, hagain, helsewhere⟩ := dealers_reproducible 7 {} { startingChips := 50 } "" "elsewhere"
    salon.store (salonOf [⟨7, "Eve", true⟩, ⟨8, "Fay", false⟩, ⟨9, "Gil", false⟩]) (.ofSeed 0)
    (.ofSeed 1) salonRoom
  have hclosed : (start.after (salonArrivals ++ close :: [replace])).table? salonRoom = none :=
    Option.isNone_iff_eq_none.1 (by decide +kernel)
  have hgathers : (start.after (salonArrivals ++ close :: [replace])).Gathers again salonRoom
      [⟨1, "Ann", true, true⟩, ⟨2, "Bo", false, false⟩, ⟨4, "Dee", false, false⟩] :=
    ⟨⟨0, rfl⟩, by decide +kernel, List.cons_ne_nil _ _⟩
  exact ⟨hagain _ close [replace] again _ _ hfounded (.inl rfl) hclosed hgathers (by decide),
    helsewhere _ _ _ _ hfounded hfounded' (by decide), by decide +kernel, by decide +kernel,
    by decide +kernel⟩

end Floor

end Cardroom
