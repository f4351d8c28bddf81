import Cardroom.Proofs.Floor.Dealing
import Cardroom.Proofs.Floor.Tableside
import Mathlib.Data.List.Induction

namespace Cardroom

variable {σ α : Type}

open Script Tableside

namespace Floor

/-- Everyone who attends a table has last been shown its bets as they are. -/
def TablesShown (f : Floor σ) : Prop :=
  ∀ code, ∀ id ∈ f.table.present code,
    ∃ t, f.table? code = some t ∧ f.lastFrame? Frame.isBetState id = some t.betState

theorem tablesShown_new (config : Config) (secret : String) (store : σ) (entropy : Random.Source) :
    (new config secret store entropy).TablesShown :=
  fun _ _ h => nomatch h

namespace TablesShown

variable {f g k : Floor σ} {code : RoomCode} {t : Table} {ids : List ConnId}

theorem quiet (h : f.TablesShown) (hq : Quiet .table Frame.isBetState f g)
    (hs : Same Floor.tables f g) : Settled .table TablesShown f g := by
  refine ⟨hq.shrink, fun code id hid => ?_⟩
  obtain ⟨t, ht, hlast⟩ := h code id ((hq.shrink code).subset hid)
  exact ⟨t, (congrArg (KeyMap.get? · code) hs).trans ht, (hq.last id).trans hlast⟩

theorem silent (h : f.TablesShown) {on : Side} {s : Script σ α}
    (hs : Delivery.Only on Delivery.silent s) : Settled .table TablesShown f (s.run f).2 :=
  h.quiet (hs.quiet_of_silent f)
    (hs.same (fun _ _ => rfl) (fun _ _ => by cases on <;> rfl) (fun _ _ => rfl) f)

theorem told (h : f.TablesShown) (ha : Admitted .table ids g)
    (hk : Told .table Frame.isBetState code t.betState g k)
    (ht : ∀ other, k.table? other = if other = code then some t else f.table? other)
    (hp : ∀ other, other ≠ code → g.table.present other = f.table.present other)
    (hl : ∀ id, g.lastFrame? Frame.isBetState id = f.lastFrame? Frame.isBetState id) :
    k.TablesShown := by
  intro other id hid
  rw [ht]
  by_cases ho : other = code
  · subst ho
    exact ⟨t, if_pos rfl, hk.here id hid⟩
  · have hin : id ∈ g.table.present other := (hk.shrink other).subset hid
    -- who attends another room was not among those who were told
    have hout : id ∉ g.table.present code := fun e => ho (ha.single other code id hin e)
    rw [if_neg ho, hk.elsewhere id hout, hl]
    exact h other id (hp other ho ▸ hin)

theorem removeTable (h : f.TablesShown) (hp : f.table.present code = []) :
    (f.removeTable code).TablesShown := by
  intro other id hid
  change id ∈ f.table.present other at hid
  rw [table?_removeTable]
  split
  · rename_i ho
    rw [ho, hp] at hid
    nomatch hid
  · exact h other id hid

end TablesShown

end Floor

def Act.joined? : Act σ → Option ConnId
  | .table (.joins _ id) => some id
  | _ => none

namespace Floor

variable {f : Floor σ} {ids : List ConnId}

namespace TablesShown

theorem closeRoom (h : f.TablesShown) (ha : Admitted .table ids f) (code : RoomCode) :
    Settled .table TablesShown f ((Tableside.closeRoom code).run f).2 := by
  obtain ⟨hshrink, hshown⟩ := h.silent (Delivery.only_dropRoom .table code)
  have hnobody : ((Delivery.dropRoom .table code).run f).2.table.present code = [] :=
    List.eq_nil_iff_forall_not_mem.2 fun _ hid =>
      ((Delivery.mem_present_dropRoom .table code ha.distinct).1 hid).2 rfl
  rw [Tableside.closeRoom, run_monad_bind, run_discard, run_change]
  exact ⟨hshrink, hshown.removeTable hnobody⟩

theorem receive (h : f.TablesShown) (ha : Admitted .table ids f) (hd : f.Every Table.Drawn)
    (code : RoomCode) (user : UserId) (raw : String) :
    Settled .table TablesShown f ((Tableside.receive code user raw).run f).2 := by
  obtain e | ⟨t, c, ht, e⟩ := receive_cases code user raw f
  · rw [e]
    exact .refl h
  · rw [e]
    have hroom : (t.bet user c).2.room = code :=
      (Table.bet_room t user c).trans (hd code t ht).room_eq
    have ha' : Admitted .table ids (f.setTable (t.bet user c).2) :=
      ha.shrink fun _ => List.Sublist.refl _
    have hk := told_showBets ha'.distinct code (t.bet user c).2
    refine ⟨hk.shrink, h.told ha' hk (fun other => ?_) (fun _ _ => rfl) fun _ => rfl⟩
    rw [table?_showBets, table?_setTable, hroom]

theorem roomClosed (h : f.TablesShown) (ha : Admitted .table ids f) (code : RoomCode) :
    Settled .table TablesShown f ((Door.roomClosed code).run f).2 := by
  have hlobby := h.silent (Delivery.only_dropRoom .lobby code)
  rw [Door.roomClosed, run_monad_bind, run_discard, Lobby.closeRoom]
  exact hlobby.trans (hlobby.holds.closeRoom (ha.shrink hlobby.shrink) code)

theorem perform [RoomStore σ] (h : f.TablesShown) (ha : Admitted .table ids f)
    (hd : f.Every Table.Drawn) {a : Act σ} (hj : a.joined? = none) :
    Settled .table TablesShown f (f.perform a) := by
  have hkind : ∀ F : Frame, F.side? ≠ some .table → F.isBetState = false :=
    fun _ => Frame.isBetState_of_side?
  cases a with
  | client a =>
    exact h.quiet
      ((a.within (ClientAct.quiet fun F hF => hkind F (by simp [hF]))).run Quiet.steps f)
      ((a.within (ClientAct.same fun _ _ => rfl)).run (Same.steps _) f)
  | edits change => exact h.quiet (.of_same rfl fun id => lastFrame?_congr rfl _ id) rfl
  | lobby a =>
    exact h.quiet ((a.within (Lobby.quiet fun F hF => hkind F (by simp [hF]))).run Quiet.steps f)
      ((a.within (Lobby.same (fun _ _ => rfl) (fun _ _ => rfl) (fun _ _ => rfl)
        fun _ _ => rfl)).run (Same.steps _) f)
  | table a =>
    cases a with
    | joins code id => cases hj
    | receives code user raw =>
      rw [Floor.perform, Act.script, TableAct.script, run_discard]
      exact h.receive ha hd code user raw
    | leaves code id => exact h.silent fun _ h => (Delivery.within_unregister h code id).discard
    | closes code => exact h.closeRoom ha code
  | roomClosed code => exact h.roomClosed ha code

end TablesShown

/-- A join by which somebody gets a seat at a table that others attend, and which then fails to show
the order of players to the one who joins. -/
def Unseen [RoomStore σ] (f : Floor σ) (a : Act σ) : Prop :=
  ∃ code id t members, a = .table (.joins code id) ∧ f.table? code = some t ∧
    f.table.present code ≠ [] ∧ RoomStore.members f.store code = .ok members ∧
    (∃ m ∈ members, m.user ∉ t.players) ∧ f.works id = false

theorem players_eq_of_betState {t u : Table} (h : t.betState = u.betState) :
    t.players = u.players := by
  have hplayers : ∀ v : Table, v.players = (v.seats.map Seat.betEntry).map BetEntry.user := by
    intro v
    rw [List.map_map]
    rfl
  simp only [Table.betState, Frame.betState.injEq] at h
  rw [hplayers, hplayers, h.2.1]

variable {code : RoomCode} {id : ConnId} {members : List Member}

theorem room_of_filling (hd : f.Every Table.Drawn) {t : Table} (h : Filling f code t) :
    t.room = code := by
  obtain h | ⟨-, source, rfl⟩ := h
  · exact (hd code t h).room_eq
  · rfl

theorem filling_eq {t u : Table} (h : Filling f code t) (hu : f.table? code = some u) : t = u := by
  obtain h | ⟨hn, -⟩ := h
  · exact Option.some.inj (h.symm.trans hu)
  · rw [hn] at hu
    cases hu

theorem Admitted.ordered (ha : Admitted .table ids f) (hid : id ∉ ids) :
    Admitted .table (ids ++ [id]) (ordered code id members f) := by
  refine (ha.enter code hid).shrink fun room => ?_
  change ((Tableside.ordered code id members f).table.present room).Sublist
    ((f.table.enter code id).present room)
  rw [table_ordered]

/-- A join that is shown. -/
theorem shown_letIn_of_works (members : List Member) (h : f.TablesShown)
    (ha : Admitted .table ids f) (hd : f.Every Table.Drawn) (hid : id ∉ ids)
    (hw : f.works id = true) :
    Admitted .table (ids ++ [id]) ((letIn code id members).run f).2 ∧
      ((letIn code id members).run f).2.TablesShown := by
  obtain ⟨t, ht, hb, htables⟩ := ordered_spec code id members f
  have hroom := room_of_filling hd ht
  have ho : Admitted .table (ids ++ [id]) (ordered code id members f) := ha.ordered hid
  rw [run_letIn, if_pos hw, hb]
  have hk := told_showBets ho.distinct code (filled t members f.config.startingChips)
  refine ⟨ho.shrink hk.shrink, h.told ho hk (fun other => ?_) (fun other hne => ?_) ?_⟩
  · rw [table?_showBets, htables, hroom]
  · rw [table_ordered, Attendance.present_enter, if_neg fun e => hne e.1]
  · exact lastFrame?_ordered code id members f

theorem table_letIn_of_fails (ha : Admitted .table ids f) (hid : id ∉ ids)
    (hw : f.works id = false) (room : RoomCode) :
    (((letIn code id members).run f).2.table.present room) = f.table.present room := by
  have hnot : id ∉ f.table.present code := fun e => hid (ha.known code id e)
  rw [run_letIn, if_neg (by simp [hw])]
  change ((ordered code id members f).table.leave code id).present room = _
  rw [table_ordered, Attendance.present_leave, Attendance.present_enter, Attendance.present_enter]
  by_cases hr : room = code
  · rw [if_pos hr, if_pos ⟨rfl, hnot⟩, List.erase_append_right _ hnot, hr]
    simp
  · rw [if_neg hr, if_neg fun e => hr e.1]

/-- A join that fails leaves those who attend with what they saw before. -/
theorem lastFrame?_letIn_of_fails (hw : f.works id = false) (x : ConnId) :
    ((letIn code id members).run f).2.lastFrame? Frame.isBetState x =
      f.lastFrame? Frame.isBetState x := by
  rw [run_letIn, if_neg (by simp [hw]), lastFrame?_close]
  exact (lastFrame?_congr (connections_setAttendance ..) _ x).trans
    (lastFrame?_ordered code id members f x)

theorem filled_of_subset {t : Table} (hd : t.Drawn code) (h : ∀ m ∈ members, m.user ∈ t.players)
    (chips : Int) : filled t members chips = t := by
  obtain ⟨d, -, hdealer⟩ := hd.dealer
  rw [filled, Table.seatMembers_of_subset h, Table.ensureDealer_of_isSome hdealer]

theorem shown_letIn_iff_of_fails [RoomStore σ] (h : f.TablesShown) (ha : Admitted .table ids f)
    (hd : f.Every Table.Drawn) (hid : id ∉ ids) (hm : RoomStore.members f.store code = .ok members)
    (hw : f.works id = false) :
    ((letIn code id members).run f).2.TablesShown ↔ ¬ f.Unseen (.table (.joins code id)) := by
  obtain ⟨t, ht, -, htables⟩ := ordered_spec code id members f
  have hroom := room_of_filling hd ht
  have htable : ∀ other, ((letIn code id members).run f).2.table? other =
      if other = code then some (filled t members f.config.startingChips) else f.table? other :=
    fun other => hroom ▸ table?_letIn htables other
  constructor
  · rintro hshown ⟨_, _, u, ms, ha', hu, hpresent, hm', ⟨m, hmem, hnot⟩, -⟩
    cases ha'
    rw [hm] at hm'
    cases hm'
    cases filling_eq ht hu
    obtain ⟨x, hx⟩ := List.exists_mem_of_ne_nil _ hpresent
    -- who attends has seen the table as it was and should have seen it as it is
    obtain ⟨v, hv, hlast⟩ := h code x hx
    obtain ⟨w, hw', hlast'⟩ := hshown code x (by rwa [table_letIn_of_fails ha hid hw])
    rw [hu] at hv
    cases hv
    rw [htable, if_pos rfl] at hw'
    cases hw'
    rw [lastFrame?_letIn_of_fails hw, hlast] at hlast'
    have hplayers := players_eq_of_betState (Option.some.inj hlast')
    rw [hplayers] at hnot
    exact hnot (mem_players_filled.2 (.inr (List.mem_map_of_mem hmem)))
  · intro hseen other x hx
    rw [table_letIn_of_fails ha hid hw] at hx
    obtain ⟨u, hu, hlast⟩ := h other x hx
    rw [lastFrame?_letIn_of_fails hw, htable]
    by_cases ho : other = code
    · subst ho
      have hall : ∀ m ∈ members, m.user ∈ u.players := by
        intro m hmem
        by_contra hnot
        exact hseen ⟨other, id, u, members, rfl, hu, List.ne_nil_of_mem hx, hm, ⟨m, hmem, hnot⟩, hw⟩
      rw [if_pos rfl, filling_eq ht hu, filled_of_subset (hd other u hu) hall]
      exact ⟨u, rfl, hlast⟩
    · rw [if_neg ho]
      exact ⟨u, hu, hlast⟩

/-- One step: who sees the tables before an act sees them after it, unless a join goes unseen. -/
theorem shown_perform_iff [RoomStore σ] (h : f.TablesShown) (ha : Admitted .table ids f)
    (hd : f.Every Table.Drawn) (a : Act σ) (hn : (ids ++ a.joined?.toList).Nodup) :
    Admitted .table (ids ++ a.joined?.toList) (f.perform a) ∧
      ((f.perform a).TablesShown ↔ ¬ f.Unseen a) := by
  cases hj : a.joined? with
  | none =>
    obtain ⟨hshrink, hshown⟩ := h.perform ha hd hj
    refine ⟨(ha.shrink hshrink).append _, iff_of_true hshown ?_⟩
    rintro ⟨code, id, t, members, rfl, -⟩
    cases hj
  | some id =>
    obtain ⟨code, rfl⟩ : ∃ code, a = .table (.joins code id) := by
      cases a with
      | table a => cases a with
        | joins code id => cases hj; exact ⟨code, rfl⟩
        | _ => cases hj
      | _ => cases hj
    have hid : id ∉ ids := by
      rw [hj] at hn
      exact fun e => (List.nodup_append.1 hn).2.2 id e id (by simp) rfl
    rw [perform, Act.script, TableAct.script, run_discard]
    obtain ⟨e, hm⟩ | ⟨members, hm, -, e⟩ := join_cases code id f
    · rw [e]
      refine ⟨ha.append _, iff_of_true h ?_⟩
      rintro ⟨_, _, t, members, ha', -, -, hm', ⟨m, hmem, -⟩, -⟩
      cases ha'
      rw [hm members hm'] at hmem
      nomatch hmem
    · rw [e]
      cases hw : f.works id with
      | true =>
        obtain ⟨ha', hshown⟩ := shown_letIn_of_works members h ha hd hid hw
        refine ⟨ha', iff_of_true hshown ?_⟩
        rintro ⟨_, _, t, ms, ha', -, -, -, -, hfails⟩
        cases ha'
        rw [hw] at hfails
        cases hfails
      | false =>
        refine ⟨(ha.shrink fun room => ?_).append _, shown_letIn_iff_of_fails h ha hd hid hm hw⟩
        exact (table_letIn_of_fails ha hid hw room) ▸ List.Sublist.refl _

variable [RoomStore σ] {config : Config} {secret : String} {store : σ} {entropy : Random.Source}
variable {acts : List (Act σ)}

theorem every_drawn_after (acts : List (Act σ)) :
    ((new config secret store entropy).after acts).Every Table.Drawn :=
  every_after (Table.kept_drawn _) secret store entropy acts

theorem shown_snoc_iff {pre : List (Act σ)} {a : Act σ}
    (hn : ((pre ++ [a]).filterMap Act.joined?).Nodup)
    (ha : Admitted .table (pre.filterMap Act.joined?)
      ((new config secret store entropy).after pre))
    (h : ((new config secret store entropy).after pre).TablesShown) :
    Admitted .table ((pre ++ [a]).filterMap Act.joined?)
        ((new config secret store entropy).after (pre ++ [a])) ∧
      (((new config secret store entropy).after (pre ++ [a])).TablesShown ↔
        ¬ ((new config secret store entropy).after pre).Unseen a) := by
  have hids : (pre ++ [a]).filterMap Act.joined? =
      pre.filterMap Act.joined? ++ a.joined?.toList := by
    rw [List.filterMap_append, List.filterMap_cons, List.filterMap_nil]
    cases a.joined? <;> rfl
  rw [hids] at hn ⊢
  rw [after_append]
  exact shown_perform_iff h ha (every_drawn_after pre) a hn

theorem admitted_of_shown (hn : (acts.filterMap Act.joined?).Nodup)
    (h : ∀ pre, pre <+: acts → ((new config secret store entropy).after pre).TablesShown) :
    Admitted .table (acts.filterMap Act.joined?)
      ((new config secret store entropy).after acts) := by
  induction acts using List.reverseRecOn with
  | nil => exact Admitted.new ..
  | append_singleton pre a ih =>
    have hp : pre <+: pre ++ [a] := List.prefix_append ..
    have ha := ih (hn.sublist (hp.sublist.filterMap _)) fun q hq => h q (hq.trans hp)
    exact (shown_snoc_iff hn ha (h pre hp)).1

theorem shown_of_seen (hn : (acts.filterMap Act.joined?).Nodup)
    (h : ∀ pre a, pre ++ [a] <+: acts → ¬ ((new config secret store entropy).after pre).Unseen a) :
    Admitted .table (acts.filterMap Act.joined?) ((new config secret store entropy).after acts) ∧
      ((new config secret store entropy).after acts).TablesShown := by
  -- one step is an equivalence only while everyone attends in one place, so both are carried along
  induction acts using List.reverseRecOn with
  | nil => exact ⟨Admitted.new .., tablesShown_new config secret store entropy⟩
  | append_singleton pre a ih =>
    have hp : pre <+: pre ++ [a] := List.prefix_append ..
    obtain ⟨ha, hshown⟩ := ih (hn.sublist (hp.sublist.filterMap _)) fun q b hq =>
      h q b (hq.trans hp)
    obtain ⟨ha', hiff⟩ := shown_snoc_iff hn ha hshown
    exact ⟨ha', hiff.2 (h pre a (List.prefix_refl _))⟩

/-- When no connection joins twice, everyone at a table sees its bets as they are after every act of
a run if and only if no join of the run goes unseen. -/
theorem tables_shown_iff (config : Config) (secret : String) (store : σ) (entropy : Random.Source)
    (acts : List (Act σ)) (hn : (acts.filterMap Act.joined?).Nodup) :
    (∀ pre, pre <+: acts → ((new config secret store entropy).after pre).TablesShown) ↔
      ∀ pre a, pre ++ [a] <+: acts → ¬ ((new config secret store entropy).after pre).Unseen a := by
  constructor
  · intro h pre a hpre
    have hp : pre <+: pre ++ [a] := List.prefix_append ..
    have hn' := hn.sublist (hpre.sublist.filterMap _)
    have ha := admitted_of_shown (hn'.sublist (hp.sublist.filterMap _)) fun q hq =>
      h q (hq.trans (hp.trans hpre))
    exact (shown_snoc_iff hn' ha (h pre (hp.trans hpre))).2.1 (h _ hpre)
  · intro h pre hpre
    exact (shown_of_seen (hn.sublist (hpre.sublist.filterMap _)) fun q a hq =>
      h q a (hq.trans hpre)).2

/-- The member of the parlour joins; then another member comes who cannot be reached. -/
def parlourJoins : List (Act Rooms) :=
  [.client (.opens 0 1 (.steady (.takes 0))), .table (.joins parlourRoom 0),
    .edits fun s => (s.addMember parlourRoom 2 "Bo").toOption.getD s,
    .client (.opens 1 2 (.steady .gone))]

theorem unseen_parlour : (parlour.after parlourJoins).Unseen (.table (.joins parlourRoom 1)) := by
  have hmembers : RoomStore.members (parlour.after parlourJoins).store parlourRoom =
      .ok [⟨1, "Ann", false, true⟩, ⟨2, "Bo", false, false⟩] := by rfl
  have hbefore : RoomStore.members (parlour.connect 0 1 (.steady (.takes 0))).store parlourRoom =
      .ok [⟨1, "Ann", false, true⟩] := by rfl
  obtain ⟨t, ht, hplayers⟩ := players_join hbefore (by simp) (fun _ h => nomatch h) 0
  have htable : (parlour.after parlourJoins).table? parlourRoom = some t := by
    rw [← ht, parlourJoins]
    simp only [after_cons, after_nil, perform, Act.script, TableAct.script, run_discard]
    rfl
  refine ⟨parlourRoom, 1, t, _, rfl, htable, by decide +kernel, hmembers,
    ⟨⟨2, "Bo", false, false⟩, by simp, fun h => ?_⟩, by rfl⟩
  obtain ⟨v, hv, -⟩ | h := (hplayers 2).1 h
  · cases hv
  · simp at h

theorem tables_not_shown_parlour :
    ((parlourJoins ++ [Act.table (.joins parlourRoom 1)]).filterMap Act.joined?).Nodup ∧
      ¬ ∀ pre, pre <+: parlourJoins ++ [Act.table (.joins parlourRoom 1)] →
        (parlour.after pre).TablesShown :=
  ⟨by decide, fun h => (tables_shown_iff _ _ _ _ _ (by decide)).1 h parlourJoins _
    (List.prefix_refl _) unseen_parlour⟩

end Floor

end Cardroom
