import Cardroom.Proofs.Floor.Moments
import Cardroom.Proofs.Floor.Sending
import Cardroom.Proofs.Floor.TableView
import Cardroom.Proofs.Floor.Tableside
import Cardroom.Proofs.Floor.Turns
import Mathlib.Data.List.Induction
import Mathlib.Data.List.ReduceOption
import Mathlib.Data.List.TakeWhile
/-!
Bets that are under way at once. A bet is placed in one move, which also yields the frame that shows
it; after that the frame is written to one connection after the other, and other bets may be placed
and shown in between. `Script.Pays` says what a script still has to show to a connection that goes on
attending. So everyone who stays is shown every bet once, but in any order: what they see in the end
is the table as it is if and only if the last frame to reach them is that of the last bet
(`Bustle.bets_shown_iff`).
-/

namespace Cardroom

variable {σ α β : Type}

open Floor

/-! ### Lists -/

theorem takeWhile_append_of_mem [DecidableEq α] {l l' : List α} {a : α} (h : a ∈ l) :
    (l ++ l').takeWhile (· ≠ a) = l.takeWhile (· ≠ a) := by
  rw [List.takeWhile_append, if_neg]
  intro hlength
  have hall := List.takeWhile_eq_self_iff.1 ((List.takeWhile_prefix _).eq_of_length hlength)
  exact of_decide_eq_true (hall a h) rfl

theorem reduceOption_cons (a : Option α) (l : List (Option α)) :
    (a :: l).reduceOption = a.toList ++ l.reduceOption := by
  cases a <;> rfl

theorem perm_reduceOption_set {l : List (Option α)} {i : Nat} {a b : Option α} (h : l[i]? = some a) :
    (a.toList ++ (l.set i b).reduceOption).Perm (b.toList ++ l.reduceOption) := by
  induction l generalizing i with
  | nil => cases h
  | cons x l ih =>
    cases i with
    | zero =>
      cases h
      rw [List.set_cons_zero, reduceOption_cons, reduceOption_cons]
      exact List.perm_append_comm_assoc ..
    | succ i =>
      rw [List.set_cons_succ, reduceOption_cons, reduceOption_cons]
      exact (List.perm_append_comm_assoc ..).trans <|
        ((ih h).append_left _).trans (List.perm_append_comm_assoc ..)

/-! ### What a script still has to show -/

namespace Script

variable {code : RoomCode} {id : ConnId}

/-- The script ends with a result and with a frame still owed to the connection that `Q` holds of, if
at first `owed` is. The connection is taken to attend the table of the room all the time. To write
the frame pays what is owed only if the write succeeds, and nothing else is ever written. -/
def Pays (code : RoomCode) (id : ConnId) (Q : α → Option Frame → Prop) :
    Option Frame → Script σ α → Prop
  | owed, .done a => Q a owed
  | owed, .step change next => ∀ f : Floor σ, (change f).connection? id = f.connection? id ∧
      (f.table.Distinct → id ∈ (change f).table.present code → (next f).Pays code id Q owed)
  | owed, .write x p next =>
    if x = id then
      ∃ F, owed = some F ∧ p = .frame F ∧ (next (.ok ())).Pays code id Q none ∧
        ∀ e, (next (.error e)).Pays code id Q owed
    else ∀ r, (next r).Pays code id Q owed
  | owed, .close _ next => next.Pays code id Q owed

theorem Pays.bind {Q : α → Option Frame → Prop} {P : β → Option Frame → Prop} {s : Script σ α}
    {g : α → Script σ β} {owed : Option Frame} (h : s.Pays code id Q owed)
    (hg : ∀ a o, Q a o → (g a).Pays code id P o) : (s.bind g).Pays code id P owed := by
  induction s generalizing owed with
  | done a => exact hg a owed h
  | step change next ih =>
    exact fun f => ⟨(h f).1, fun hd hid => ih f ((h f).2 hd hid)⟩
  | write x p next ih =>
    unfold Pays at h
    rw [Script.bind, Pays]
    split at h
    · rename_i hx
      obtain ⟨F, hF, hp, hok, herror⟩ := h
      rw [if_pos hx]
      exact ⟨F, hF, hp, ih _ hok, fun e => ih _ (herror e)⟩
    · rename_i hx
      rw [if_neg hx]
      exact fun r => ih r (h r)
  | close x next ih => exact ih h

theorem Pays.monad_bind {Q : α → Option Frame → Prop} {P : β → Option Frame → Prop}
    {s : Script σ α} {g : α → Script σ β} {owed : Option Frame} (h : s.Pays code id Q owed)
    (hg : ∀ a o, Q a o → (g a).Pays code id P o) : (s >>= g).Pays code id P owed :=
  h.bind hg

theorem Pays.discard {Q : α → Option Frame → Prop} {s : Script σ α} {owed : Option Frame}
    (h : s.Pays code id Q owed) :
    (Functor.discard s).Pays code id (fun _ o => ∃ a, Q a o) owed :=
  h.bind fun a _ hQ => ⟨a, hQ⟩

theorem Pays.advance {Q : α → Option Frame → Prop} {s : Script σ α} {owed : Option Frame}
    (h : s.Pays code id Q owed) {f : Floor σ} (hd : f.table.Distinct)
    (hid : id ∈ (s.advance f).2.table.present code) :
    ((s.advance f).1.Pays code id Q owed ∧ (s.advance f).2.frames id = f.frames id) ∨
    ∃ F, owed = some F ∧ (s.advance f).1.Pays code id Q none ∧
      (s.advance f).2.frames id = f.frames id ++ [F] := by
  cases s with
  | done a => exact .inl ⟨h, rfl⟩
  | step change next => exact .inl ⟨(h f).2 hd hid, frames_congr (h f).1⟩
  | close x next => exact .inl ⟨h, frames_close f x id⟩
  | write x p next =>
    unfold Pays at h
    rw [Script.advance, frames_write]
    split at h
    · rename_i hx
      subst hx
      obtain ⟨F, rfl, rfl, hok, herror⟩ := h
      have hworks := isOk_write f x (.frame F)
      cases hr : (f.write x (.frame F)).1 with
      | ok _ =>
        rw [hr] at hworks
        rw [← hworks]
        exact .inr ⟨F, rfl, hok, if_pos ⟨rfl, rfl⟩⟩
      | error e =>
        rw [hr] at hworks
        rw [← hworks]
        exact .inl ⟨herror e, if_neg fun h => Bool.false_ne_true h.2⟩
    · rename_i hx
      exact .inl ⟨h _, if_neg fun e => hx e.1.symm⟩

end Script

open Script

namespace Delivery

variable {code : RoomCode} {id : ConnId} {F : Frame} {owed : Option Frame}

theorem pays_closeEach (ids : List ConnId) :
    (closeEach ids : Script σ Unit).Pays code id (fun _ o => o = owed) owed := by
  induction ids with
  | nil => exact rfl
  | cons x ids ih => exact ih

theorem pays_prune (failed : List ConnId) : (prune .table code failed : Script σ Nat).Pays code id
    (fun _ o => o = owed ∧ id ∉ failed) owed := by
  have hremove : (remove .table code failed : Script σ Nat).Pays code id
      (fun _ o => o = owed ∧ id ∉ failed) owed := by
    refine fun f => ⟨connection?_setAttendance .., fun hd hid => ?_⟩
    have hnot := ((Attendance.mem_present_withdraw hd).1 hid).2
    refine (pays_closeEach _).monad_bind fun _ o ho => ?_
    exact ⟨ho, fun hmem => hnot ⟨rfl, hmem⟩⟩
  refine hremove.monad_bind fun n o ho => ?_
  split
  · exact fun f => ⟨rfl, fun _ _ => ho⟩
  · exact ho

theorem pays_writeEach_of_not_mem {ids : List ConnId} (hid : id ∉ ids) (p : Payload)
    {Q : List ConnId → Option Frame → Prop} (hQ : ∀ failed, Q failed owed) :
    (writeEach p ids : Script σ (List ConnId)).Pays code id Q owed := by
  induction ids generalizing Q with
  | nil => exact hQ []
  | cons x ids ih =>
    obtain ⟨hne, hid⟩ := not_or.1 (List.mem_cons.not.1 hid)
    refine (if_neg (Ne.symm hne)).mpr fun r => ?_
    cases r with
    | ok _ => exact ih hid hQ
    | error e =>
      refine (ih hid (Q := fun _ o => o = owed) fun _ => rfl).monad_bind ?_
      rintro failed _ rfl
      exact hQ (x :: failed)

theorem pays_writeEach {ids : List ConnId} (hn : ids.Nodup) (hid : id ∈ ids) :
    (writeEach (.frame F) ids : Script σ (List ConnId)).Pays code id
      (fun failed o => o = none ∨ id ∈ failed) (some F) := by
  induction ids with
  | nil => nomatch hid
  | cons x ids ih =>
    obtain ⟨hx, hn⟩ := List.nodup_cons.1 hn
    by_cases he : x = id
    · subst he
      refine (if_pos rfl).mpr ⟨F, rfl, rfl, ?_, fun e => ?_⟩
      · exact pays_writeEach_of_not_mem hx _ fun _ => .inl rfl
      · exact (pays_writeEach_of_not_mem hx _ (Q := fun _ _ => True) fun _ => trivial).monad_bind
          fun _ _ _ => .inr List.mem_cons_self
    · replace hid := (List.mem_cons.1 hid).resolve_left (Ne.symm he)
      refine (if_neg he).mpr fun r => ?_
      cases r with
      | ok _ => exact ih hn hid
      | error e =>
        exact (ih hn hid).monad_bind fun _ _ ho => ho.imp_right (List.mem_cons_of_mem x)

theorem pays_broadcast : (broadcast .table code (.frame F) : Script σ Nat).Pays code id
    (fun _ o => o = none) (some F) := by
  refine fun f => ⟨rfl, fun hd hid => ?_⟩
  refine (pays_writeEach (hd code) hid).monad_bind fun failed o ho => ?_
  refine (pays_prune failed).discard.monad_bind fun _ o' ho' => ?_
  obtain ⟨-, rfl, hnot⟩ := ho'
  exact ho.resolve_right hnot

end Delivery

/-! ### Bets -/

namespace Floor

structure Delivers (f g : Floor σ) : Prop where
  tables : g.tables = f.tables
  shrink : ∀ room, (g.table.present room).Sublist (f.table.present room)

namespace Delivers

theorem steps : Steps (Delivers (σ := σ)) where
  refl _ := ⟨rfl, fun _ => List.Sublist.refl _⟩
  trans h k := ⟨k.tables.trans h.tables, fun room => (k.shrink room).trans (h.shrink room)⟩

theorem delivery : Delivery.Allowed (Delivers (σ := σ)) .table fun _ => True where
  toSteps := steps
  write f id F _ := by
    obtain ⟨c, e⟩ := write_eq f id (.frame F)
    rw [e]
    exact ⟨rfl, fun _ => List.Sublist.refl _⟩
  close _ _ := ⟨rfl, fun _ => List.Sublist.refl _⟩
  shrink _ _ ha := ⟨rfl, ha.sublist⟩
  count _ _ _ := ⟨rfl, fun _ => List.Sublist.refl _⟩

end Delivers

end Floor

namespace Tableside

/-- What a call, of a user with a text, shows of the table if it is the next to place its bet. -/
def shows (code : RoomCode) (call : UserId × String) (f : Floor σ) : Option Frame :=
  (BetCommand.parse call.2).toOption.bind fun c => (placeBet code call.1 c f).1.2

structure Showing (code : RoomCode) (owed : Option Frame) (s : Script σ Unit) : Prop where
  within : s.Within Floor.Delivers
  pays : ∀ id, s.Pays code id (fun _ o => o = none) owed

/-- Once its bet is placed, a call only shows it. -/
theorem showing_some (code : RoomCode) (F : Frame) (outcome : Outcome) :
    Showing (σ := σ) code (some F)
      (discard (do discard (showBets code F); return outcome : Script σ Outcome)) where
  within := ((Delivery.within_broadcast Delivers.delivery trivial code).discard.monad_bind
    fun _ => within_pure _).discard
  pays id := by
    have hshown : (Functor.discard (showBets (σ := σ) code F)).Pays code id
        (fun _ o => ∃ _ : Nat, o = none) (some F) := Delivery.pays_broadcast.discard
    refine Pays.bind (hshown.monad_bind (P := fun _ o => o = none) fun _ o ho => ?_) fun _ _ ho => ho
    obtain ⟨-, ho⟩ := ho
    exact ho

theorem showing_none (code : RoomCode) : Showing (σ := σ) code none (.done ()) :=
  ⟨trivial, fun _ => rfl⟩

theorem advance_update (c : Floor σ → α × Floor σ) (g : α → Script σ β) (f : Floor σ) :
    (Functor.discard (Script.update c >>= g)).advance f =
      (Functor.discard (g (c f).1), (c f).2) := rfl

theorem advance_receives [RoomStore σ] (code : RoomCode) (call : UserId × String) (f : Floor σ) :
    Showing code (shows code call f)
      ((TableAct.receives code call.1 call.2).script.advance f).1 ∧
    ((shows code call f = none ∧
        ((TableAct.receives code call.1 call.2).script.advance f).2 = f) ∨
      ∃ t u, f.table? code = some t ∧ u.room = t.room ∧ shows code call f = some u.betState ∧
        ((TableAct.receives code call.1 call.2).script.advance f).2 = f.setTable u) := by
  rw [TableAct.script, receive]
  cases hparse : BetCommand.parse call.2 with
  | error reason =>
    have hshows : shows code call f = none := by rw [shows, hparse]; rfl
    rw [hshows]
    exact ⟨showing_none code, .inl ⟨rfl, rfl⟩⟩
  | ok c =>
    have hshows : shows code call f = (placeBet code call.1 c f).1.2 := by rw [shows, hparse]; rfl
    rw [hshows]
    obtain ⟨reason, h⟩ | ⟨t, ht, h⟩ := placeBet_cases code call.1 c f
    · rw [advance_update, h]
      exact ⟨showing_none code, .inl ⟨rfl, rfl⟩⟩
    · rw [advance_update, h]
      exact ⟨showing_some code _ _, .inr ⟨t, _, ht, Table.bet_room .., rfl, rfl⟩⟩

end Tableside

/-! ### Calls taking turns -/

namespace Bustle

section

variable [RoomStore σ]

def follow (w : Bustle σ) (schedule : List Nat) : Bustle σ := w.play (schedule.map .goesOn)

def receiving (f : Floor σ) (code : RoomCode) (calls : List (UserId × String)) : Bustle σ :=
  ⟨f, calls.map fun call => (TableAct.receives code call.1 call.2).script⟩

/-- What the calls show, in the order in which they place their bets: each does so at its first turn,
on the floor as it is then. -/
def shown (f : Floor σ) (code : RoomCode) (calls : List (UserId × String)) (schedule : List Nat) :
    List Frame :=
  schedule.eraseDups.filterMap fun i => calls[i]?.bind fun call =>
    Tableside.shows code call ((receiving f code calls).follow (schedule.takeWhile (· ≠ i))).floor

variable {f : Floor σ} {code : RoomCode} {calls : List (UserId × String)} {w : Bustle σ}
variable {schedule : List Nat} {i : Nat}

theorem follow_snoc (w : Bustle σ) (schedule : List Nat) (i : Nat) :
    w.follow (schedule ++ [i]) = (w.follow schedule).turn (.goesOn i) := by
  rw [follow, List.map_append, play_append]
  rfl

theorem scripts_turn_of_ne {j : Nat} (h : j ≠ i) :
    (w.turn (.goesOn i)).scripts[j]? = w.scripts[j]? := by
  cases hs : w.scripts[i]? with
  | none => simp only [turn, hs]
  | some s => rw [turn_goesOn hs, List.getElem?_set_ne h.symm]

theorem length_follow (w : Bustle σ) (schedule : List Nat) :
    (w.follow schedule).scripts.length = w.scripts.length := by
  induction schedule using List.reverseRecOn with
  | nil => rfl
  | append_singleton schedule i ih =>
    rw [follow_snoc, ← ih]
    cases hs : (w.follow schedule).scripts[i]? with
    | none => simp only [turn, hs]
    | some s => rw [turn_goesOn hs, List.length_set]

/-- A script that has had no turn yet is as it was. -/
theorem scripts_follow_of_not_mem (h : i ∉ schedule) :
    (w.follow schedule).scripts[i]? = w.scripts[i]? := by
  induction schedule using List.reverseRecOn with
  | nil => rfl
  | append_singleton schedule j ih =>
    rw [List.mem_append, List.mem_singleton, not_or] at h
    rw [follow_snoc, scripts_turn_of_ne h.2, ih h.1]

theorem shown_snoc (schedule : List Nat) (i : Nat) :
    shown f code calls (schedule ++ [i]) = shown f code calls schedule ++
      (if i ∈ schedule then none else calls[i]?.bind fun call =>
        Tableside.shows code call ((receiving f code calls).follow schedule).floor).toList := by
  rw [shown, List.eraseDups_append, List.filterMap_append]
  refine congrArg₂ _ (List.filterMap_congr fun j hj => ?_) ?_
  · rw [takeWhile_append_of_mem (List.mem_eraseDups.1 hj)]
  · by_cases hi : i ∈ schedule
    · have hnone : [i].removeAll schedule = [] := by simp [List.removeAll, hi]
      rw [hnone, if_pos hi]
      rfl
    · have hone : [i].removeAll schedule = [i] := by simp [List.removeAll, hi]
      have hbefore : (schedule ++ [i]).takeWhile (· ≠ i) = schedule := by
        rw [List.takeWhile_append_of_pos fun j hj => decide_eq_true (ne_of_mem_of_not_mem hj hi)]
        simp
      have hdups : [i].eraseDups = [i] := rfl
      rw [hone, hdups, if_neg hi, List.filterMap_cons, List.filterMap_nil, hbefore]
      cases calls[i]?.bind _ <;> rfl

variable {s : Script σ Unit}

theorem scripts_receiving (f : Floor σ) (code : RoomCode) (calls : List (UserId × String)) (i : Nat) :
    (receiving f code calls).scripts[i]? =
      calls[i]?.map fun call => (TableAct.receives code call.1 call.2).script :=
  List.getElem?_map ..

theorem within_follow (hi : i ∈ schedule)
    (hs : ((receiving f code calls).follow schedule).scripts[i]? = some s) : s.Within Delivers := by
  induction schedule using List.reverseRecOn generalizing s with
  | nil => nomatch hi
  | append_singleton schedule j ih =>
    rw [follow_snoc] at hs
    by_cases hij : i = j
    · subst hij
      cases hr : ((receiving f code calls).follow schedule).scripts[i]? with
      | none =>
        simp only [turn, hr] at hs
        cases hs
      | some r =>
        rw [turn_goesOn hr, List.getElem?_set_self (List.getElem?_eq_some_iff.1 hr).1] at hs
        cases hs
        by_cases hi : i ∈ schedule
        · exact ((ih hi hr).advance Delivers.steps _).1
        · rw [scripts_follow_of_not_mem hi, scripts_receiving, Option.map_eq_some_iff] at hr
          obtain ⟨call, -, rfl⟩ := hr
          exact (Tableside.advance_receives code call _).1.within
    · rw [scripts_turn_of_ne hij] at hs
      exact ih ((List.mem_append.1 hi).resolve_right fun e => hij (List.mem_singleton.1 e)) hs

/-- A turn that nobody takes. -/
theorem follow_snoc_of_none
    (hs : ((receiving f code calls).follow schedule).scripts[i]? = none) :
    (receiving f code calls).follow (schedule ++ [i]) = (receiving f code calls).follow schedule ∧
      shown f code calls (schedule ++ [i]) = shown f code calls schedule := by
  have hcall : calls[i]? = none := by
    have hlength := length_follow (receiving f code calls) schedule
    rw [receiving, List.length_map] at hlength
    rw [List.getElem?_eq_none_iff] at hs ⊢
    exact hlength ▸ hs
  rw [follow_snoc, shown_snoc, hcall]
  exact ⟨by simp only [turn, hs], by simp⟩

theorem turn_cases (f : Floor σ) (code : RoomCode) (calls : List (UserId × String))
    (schedule : List Nat) (i : Nat) :
    (Delivers ((receiving f code calls).follow schedule).floor
        ((receiving f code calls).follow (schedule ++ [i])).floor ∧
      shown f code calls (schedule ++ [i]) = shown f code calls schedule) ∨
    ∃ t u, ((receiving f code calls).follow schedule).floor.table? code = some t ∧
      u.room = t.room ∧ ((receiving f code calls).follow (schedule ++ [i])).floor =
        ((receiving f code calls).follow schedule).floor.setTable u ∧
      shown f code calls (schedule ++ [i]) = shown f code calls schedule ++ [u.betState] := by
  cases hs : ((receiving f code calls).follow schedule).scripts[i]? with
  | none =>
    obtain ⟨e, eshown⟩ := follow_snoc_of_none hs
    rw [e]
    exact .inl ⟨Delivers.steps.refl _, eshown⟩
  | some s =>
    rw [follow_snoc, shown_snoc, turn_goesOn hs]
    by_cases hi : i ∈ schedule
    · rw [if_pos hi]
      exact .inl ⟨((within_follow hi hs).advance Delivers.steps _).2, List.append_nil _⟩
    · rw [if_neg hi]
      rw [scripts_follow_of_not_mem hi, scripts_receiving, Option.map_eq_some_iff] at hs
      obtain ⟨call, hcall, rfl⟩ := hs
      rw [hcall, Option.bind_some]
      obtain ⟨-, ⟨hnone, e⟩ | ⟨t, u, ht, hroom, hsome, e⟩⟩ := Tableside.advance_receives code call
        ((receiving f code calls).follow schedule).floor
      · rw [hnone, e]
        exact .inl ⟨Delivers.steps.refl _, List.append_nil _⟩
      · exact .inr ⟨t, u, ht, hroom, e, by rw [hsome]; rfl⟩

theorem present_follow_snoc (schedule : List Nat) (i : Nat) (room : RoomCode) :
    (((receiving f code calls).follow (schedule ++ [i])).floor.table.present room).Sublist
      (((receiving f code calls).follow schedule).floor.table.present room) := by
  obtain ⟨h, -⟩ | ⟨t, u, -, -, e, -⟩ := turn_cases f code calls schedule i
  · exact h.shrink room
  · rw [e]
    exact List.Sublist.refl _

theorem distinct_follow (hd : f.table.Distinct) (schedule : List Nat) :
    ((receiving f code calls).follow schedule).floor.table.Distinct := by
  induction schedule using List.reverseRecOn with
  | nil => exact hd
  | append_singleton schedule i ih =>
    exact fun room => (ih room).sublist (present_follow_snoc schedule i room)

theorem table?_follow {t : Table} (ht : f.table? code = some t) (hroom : t.room = code)
    (schedule : List Nat) :
    ∃ u, ((receiving f code calls).follow schedule).floor.table? code = some u ∧ u.room = code ∧
      u.betState = (shown f code calls schedule).getLast?.getD t.betState := by
  induction schedule using List.reverseRecOn with
  | nil => exact ⟨t, ht, hroom, rfl⟩
  | append_singleton schedule i ih =>
    obtain ⟨u, hu, huroom, hbets⟩ := ih
    obtain ⟨h, e⟩ | ⟨v, w, hv, hw, e, eshown⟩ := turn_cases f code calls schedule i
    · exact ⟨u, (congrArg (KeyMap.get? · code) h.tables).trans hu, huroom, by rw [e, hbets]⟩
    · cases hu.symm.trans hv
      have hwroom := hw.trans huroom
      refine ⟨w, ?_, hwroom, ?_⟩
      · rw [e, table?_setTable, if_pos hwroom.symm]
      · rw [eshown, List.getLast?_concat, Option.getD_some]

theorem isBetState_of_mem_shown {F : Frame} (hF : F ∈ shown f code calls schedule) :
    F.isBetState = true := by
  induction schedule using List.reverseRecOn with
  | nil => nomatch hF
  | append_singleton schedule i ih =>
    obtain ⟨-, e⟩ | ⟨t, u, -, -, -, e⟩ := turn_cases f code calls schedule i
    · exact ih (e ▸ hF)
    · rw [e] at hF
      rcases List.mem_append.1 hF with hF | hF
      · exact ih hF
      · rw [List.mem_singleton.1 hF]
        rfl

end

/-! ### Debts -/

def isOver (w : Bustle σ) : Bool :=
  w.scripts.all fun
    | .done _ => true
    | _ => false

variable {f : Floor σ} {code : RoomCode} {calls : List (UserId × String)} {w : Bustle σ}
variable {schedule : List Nat} {i : Nat} {id : ConnId} {s : Script σ Unit}

/-- What each script owes to a connection. Those that have had no turn owe nothing yet. -/
structure Owes (code : RoomCode) (id : ConnId) (w : Bustle σ) (schedule : List Nat)
    (debts : List (Option Frame)) : Prop where
  length : debts.length = w.scripts.length
  begun : ∀ i ∈ schedule, ∀ s owed, w.scripts[i]? = some s → debts[i]? = some owed →
    s.Pays code id (fun _ o => o = none) owed
  waits : ∀ i ∉ schedule, ∀ owed, debts[i]? = some owed → owed = none

theorem Owes.pass {debts : List (Option Frame)} (h : Owes code id w schedule debts)
    (hs : w.scripts[i]? = none) : Owes code id w (schedule ++ [i]) debts := by
  refine ⟨h.length, fun j hj r owed hr => ?_, fun j hj => ?_⟩
  · have hne : j ≠ i := by
      rintro rfl
      cases hs.symm.trans hr
    have hj := (List.mem_append.1 hj).resolve_right fun e => hne (List.mem_singleton.1 e)
    exact h.begun j hj r owed hr
  · exact h.waits j fun e => hj (List.mem_append_left _ e)

/-- When all scripts have come to their end, nothing is owed. -/
theorem Owes.reduceOption_eq_nil {debts : List (Option Frame)} (h : Owes code id w schedule debts)
    (hover : w.isOver = true) : debts.reduceOption = [] := by
  refine List.filterMap_eq_nil_iff.2 fun owed howed => ?_
  obtain ⟨i, hi⟩ := List.mem_iff_getElem?.1 howed
  by_cases hmem : i ∈ schedule
  · have hlt : i < w.scripts.length := h.length ▸ (List.getElem?_eq_some_iff.1 hi).1
    have hs := List.getElem?_eq_getElem hlt
    have hend := List.all_eq_true.1 hover _ (List.mem_of_getElem? hs)
    have hpays := h.begun i hmem _ _ hs hi
    cases e : w.scripts[i] with
    | done a =>
      rw [e] at hpays
      exact hpays
    | _ =>
      rw [e] at hend
      cases hend
  · exact h.waits i hmem owed hi

variable [RoomStore σ]

theorem Owes.receiving (f : Floor σ) (code : RoomCode) (id : ConnId)
    (calls : List (UserId × String)) :
    Owes code id (receiving f code calls) [] (List.replicate calls.length none) where
  length := by rw [List.length_replicate, Bustle.receiving, List.length_map]
  begun _ hi := nomatch hi
  waits _ _ _ h := (List.mem_replicate.1 (List.mem_of_getElem? h)).2

theorem Owes.turn {debts : List (Option Frame)} {left : Option Frame}
    (h : Owes code id w schedule debts) (hs : w.scripts[i]? = some s)
    (hleft : (s.advance w.floor).1.Pays code id (fun _ o => o = none) left) :
    Owes code id (w.turn (.goesOn i)) (schedule ++ [i]) (debts.set i left) := by
  rw [turn_goesOn hs]
  refine ⟨by rw [List.length_set, List.length_set, h.length], fun j hj r owed hr howed => ?_,
    fun j hj owed howed => ?_⟩
  · by_cases hij : i = j
    · subst hij
      rw [List.getElem?_set_self (List.getElem?_eq_some_iff.1 hs).1] at hr
      rw [List.getElem?_set_self (h.length ▸ (List.getElem?_eq_some_iff.1 hs).1)] at howed
      cases hr
      cases howed
      exact hleft
    · rw [List.getElem?_set_ne hij] at hr howed
      have hj := (List.mem_append.1 hj).resolve_right fun e => hij (List.mem_singleton.1 e).symm
      exact h.begun j hj r owed hr howed
  · rw [List.mem_append, List.mem_singleton, not_or] at hj
    rw [List.getElem?_set_ne (Ne.symm hj.2)] at howed
    exact h.waits j hj.1 owed howed

/-- A turn of a script that shows to a connection what is owed: it pays, or takes on to show its own
bet, or neither. -/
theorem pays_turn (hd : f.table.Distinct) {owed : Option Frame}
    (hs : ((receiving f code calls).follow schedule).scripts[i]? = some s)
    (hid : id ∈ ((receiving f code calls).follow (schedule ++ [i])).floor.table.present code)
    (hbegun : i ∈ schedule → s.Pays code id (fun _ o => o = none) owed)
    (hwaits : i ∉ schedule → owed = none) :
    ∃ left paid, (s.advance ((receiving f code calls).follow schedule).floor).1.Pays code id
        (fun _ o => o = none) left ∧
      ((receiving f code calls).follow (schedule ++ [i])).floor.frames id =
        ((receiving f code calls).follow schedule).floor.frames id ++ paid ∧
      ∃ news, shown f code calls (schedule ++ [i]) = shown f code calls schedule ++ news ∧
        paid ++ left.toList = owed.toList ++ news := by
  rw [shown_snoc]
  rw [follow_snoc, turn_goesOn hs] at hid ⊢
  -- after its first turn, at which it places its bet, a script only delivers
  by_cases hi : i ∈ schedule
  · rw [if_pos hi]
    obtain ⟨h, e⟩ | ⟨F, rfl, h, e⟩ := (hbegun hi).advance (distinct_follow hd schedule) hid
    · exact ⟨owed, [], h, e.trans (List.append_nil _).symm, [], rfl, (List.append_nil _).symm⟩
    · exact ⟨none, [F], h, e, [], rfl, rfl⟩
  · rw [if_neg hi, hwaits hi]
    rw [scripts_follow_of_not_mem hi, scripts_receiving, Option.map_eq_some_iff] at hs
    obtain ⟨call, hcall, rfl⟩ := hs
    rw [hcall, Option.bind_some]
    obtain ⟨hshowing, h⟩ := Tableside.advance_receives code call
      ((receiving f code calls).follow schedule).floor
    refine ⟨_, [], hshowing.pays id, ?_, _, rfl, rfl⟩
    obtain ⟨-, e⟩ | ⟨t, u, -, -, -, e⟩ := h <;> rw [e, List.append_nil]
    rfl

/-- What a connection has been shown, and what the scripts still owe to it, is together what has been
shown at all. -/
theorem exists_owes (hd : f.table.Distinct)
    (hid : id ∈ ((receiving f code calls).follow schedule).floor.table.present code) :
    ∃ news debts, Owes code id ((receiving f code calls).follow schedule) schedule debts ∧
      ((receiving f code calls).follow schedule).floor.frames id = f.frames id ++ news ∧
      (news ++ debts.reduceOption).Perm (shown f code calls schedule) := by
  -- on the turns, the latest last: each pays a debt, or takes one on with the bet that it places
  induction schedule using List.reverseRecOn with
  | nil =>
    refine ⟨[], _, .receiving f code id calls, (List.append_nil _).symm, ?_⟩
    rw [List.reduceOption_replicate_none]
    exact List.Perm.nil
  | append_singleton schedule j ih =>
    obtain ⟨news, debts, howes, hframes, hperm⟩ :=
      ih ((present_follow_snoc schedule j code).subset hid)
    cases hs : ((receiving f code calls).follow schedule).scripts[j]? with
    | none =>
      obtain ⟨e, eshown⟩ := follow_snoc_of_none hs
      rw [e, eshown]
      exact ⟨news, debts, howes.pass hs, hframes, hperm⟩
    | some s =>
      have hj : j < debts.length := howes.length ▸ (List.getElem?_eq_some_iff.1 hs).1
      have howed : debts[j]? = some debts[j] := List.getElem?_eq_getElem hj
      obtain ⟨left, paid, hleft, hpaid, bets, hbets, hbalance⟩ := pays_turn hd hs hid
        (fun h => howes.begun j h s _ hs howed) fun h => howes.waits j h _ howed
      rw [hpaid, hbets, hframes, follow_snoc]
      refine ⟨news ++ paid, _, howes.turn hs hleft, List.append_assoc .., ?_⟩
      classical
      refine List.perm_iff_count.2 fun F => ?_
      have hset := (perm_reduceOption_set (b := left) howed).count_eq F
      have hbalance := congrArg (List.count F) hbalance
      have hperm := hperm.count_eq F
      simp only [List.count_append] at hset hbalance hperm ⊢
      omega

/-! ### Who sees the table in the end -/

/-- Users send frames to a table, and the scripts that take them take turns in any way. When all have
come to their end, the table is as the last bet that was placed has shown it. Everyone who has stayed
has been shown every bet once; who saw the table as it was at first sees it as it is now if and only
if the last frame to arrive is that of the last bet. After any run a table stands under its own room
(`every_drawn_after`) and nobody attends twice (`tidy_after`). -/
theorem bets_shown_iff (f : Floor σ) (code : RoomCode) (t : Table) (ht : f.table? code = some t)
    (hroom : t.room = code) (hd : f.table.Distinct) (calls : List (UserId × String))
    (schedule : List Nat) (hover : ((receiving f code calls).follow schedule).isOver = true) :
    let g := ((receiving f code calls).follow schedule).floor
    let bets := shown f code calls schedule
    ∃ u, g.table? code = some u ∧ u.betState = bets.getLast?.getD t.betState ∧
      ∀ id ∈ g.table.present code, ∃ news, g.frames id = f.frames id ++ news ∧ news.Perm bets ∧
        (f.lastFrame? Frame.isBetState id = some t.betState →
          (g.lastFrame? Frame.isBetState id = some u.betState ↔
            news.getLast? = bets.getLast?)) := by
  intro g bets
  obtain ⟨u, hu, -, hbets⟩ := table?_follow ht hroom schedule
  refine ⟨u, hu, hbets, fun id hid => ?_⟩
  obtain ⟨news, debts, howes, hframes, hperm⟩ := exists_owes hd hid
  rw [howes.reduceOption_eq_nil hover, List.append_nil] at hperm
  refine ⟨news, hframes, hperm, fun hfirst => ?_⟩
  have hkind : news.filter Frame.isBetState = news :=
    List.filter_eq_self.2 fun F hF => isBetState_of_mem_shown (hperm.mem_iff.1 hF)
  rw [lastFrame?_eq_frames, hframes, List.filter_append, hkind, List.getLast?_append,
    ← lastFrame?_eq_frames, hfirst, hbets]
  -- nothing has arrived if and only if nothing has been placed
  cases hlast : bets.getLast? with
  | none =>
    have hnone : bets = [] := List.getLast?_eq_none_iff.1 hlast
    have hnil : news = [] := List.Perm.eq_nil (hperm.trans (.of_eq hnone))
    simp [hnil]
  | some F =>
    have hne : news ≠ [] := by
      rintro rfl
      have hnil : bets = [] := hperm.nil_eq.symm
      rw [hnil] at hlast
      cases hlast
    rw [List.getLast?_eq_some_getLast hne]
    simp

def annAtTable : Floor Rooms :=
  salon.after [.client (.opens 0 1 (.steady (.takes 0))), .table (.joins salonRoom 0)]

def cyBets : List (UserId × String) :=
  [(3, "\x7b\"type\":\"bet_update\",\"bet\":10\x7d"),
    (3, "\x7b\"type\":\"bet_update\",\"bet\":20\x7d")]

/-- The second bet is placed and shown after the first has been placed and before it is shown. -/
def overtaking : List Nat := [0, 1, 1, 1, 1, 0, 0, 0]

def betsOf : Frame → List Int
  | .betState _ players _ => players.map (·.bet)
  | _ => []

/-- The bet of ten arrives last, and Ann goes on seeing it while Cy has bet twenty. -/
theorem bets_shown_iff_overtaken :
    let f := annAtTable
    let w := (receiving f salonRoom cyBets).follow overtaking
    let bets := shown f salonRoom cyBets overtaking
    ∃ t, f.table? salonRoom = some t ∧ t.room = salonRoom ∧ f.table.Distinct ∧ w.isOver = true ∧
      0 ∈ w.floor.table.present salonRoom ∧
      f.lastFrame? Frame.isBetState 0 = some t.betState ∧
      ∃ u, w.floor.table? salonRoom = some u ∧
        w.floor.lastFrame? Frame.isBetState 0 ≠ some u.betState ∧
        ∃ news, w.floor.frames 0 = f.frames 0 ++ news ∧ news.Perm bets ∧
          news.getLast? ≠ bets.getLast? := by
  intro f w bets
  have hd : f.table.Distinct := Floor.tidy_after {} "" salon.store (.ofSeed 0) _ .table
  have hbefore : (f.table? salonRoom).isSome = true ∧
      f.lastFrame? Frame.isBetState 0 = (f.table? salonRoom).map Table.betState := by
    decide +kernel
  have hafter : w.isOver = true ∧ 0 ∈ w.floor.table.present salonRoom ∧
      (w.floor.lastFrame? Frame.isBetState 0).map betsOf = some [0, 0, 10] ∧
      (w.floor.table? salonRoom).map (betsOf ·.betState) = some [0, 0, 20] := by
    decide +kernel
  obtain ⟨hsome, hfirst⟩ := hbefore
  obtain ⟨hover, hpresent, hten, htwenty⟩ := hafter
  obtain ⟨t, ht⟩ := Option.isSome_iff_exists.1 hsome
  rw [ht] at hfirst
  have hroom : t.room = salonRoom := (Floor.every_drawn_after _ salonRoom t ht).room_eq
  have hshown := bets_shown_iff f salonRoom t ht hroom hd cyBets overtaking hover
  have hw : (receiving f salonRoom cyBets).follow overtaking = w := rfl
  rw [hw] at hshown
  -- what follows does not look into what has happened
  clear_value w
  obtain ⟨u, hu, -, hall⟩ := hshown
  obtain ⟨news, hframes, hperm, hiff⟩ := hall 0 hpresent
  have hstale : w.floor.lastFrame? Frame.isBetState 0 ≠ some u.betState := by
    intro h
    rw [h] at hten
    rw [hu] at htwenty
    exact absurd (hten.symm.trans htwenty) (by decide)
  exact ⟨t, ht, hroom, hd, hover, hpresent, hfirst, u, hu, hstale, news, hframes, hperm,
    (hiff hfirst).not.1 hstale⟩

end Bustle

end Cardroom
