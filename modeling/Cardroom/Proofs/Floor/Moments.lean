import Cardroom.Proofs.Floor.Turns
/-!
The moments of a run: the floor after each single move of its acts. `Script.Along` says of every move
of a script, as it is made when the script starts from a given floor, that a relation allows it; what
`Script.Within` says of moves on whatever floor is a special case.
-/

namespace Cardroom

variable {σ α β : Type}

namespace Script

def passes : Script σ α → Floor σ → List (Floor σ)
  | .done _, _ => []
  | .step change next, f => change f :: (next f).passes (change f)
  | .write id p next, f => (f.write id p).2 :: (next (f.write id p).1).passes (f.write id p).2
  | .close id next, f => f.close id :: next.passes (f.close id)

/-- Each move that the script makes from here is one that `R` allows. -/
def Along (R : Floor σ → Floor σ → Prop) : Script σ α → Floor σ → Prop
  | .done _, _ => True
  | .step change next, f => R f (change f) ∧ (next f).Along R (change f)
  | .write id p next, f =>
    R f (f.write id p).2 ∧ (next (f.write id p).1).Along R (f.write id p).2
  | .close id next, f => R f (f.close id) ∧ next.Along R (f.close id)

variable {R S : Floor σ → Floor σ → Prop} {f : Floor σ}

theorem Along.imp {s : Script σ α} (h : s.Along R f) (hRS : ∀ f g, R f g → S f g) :
    s.Along S f := by
  induction s generalizing f with
  | done a => trivial
  | step change next ih => exact ⟨hRS _ _ h.1, ih f h.2⟩
  | write id p next ih => exact ⟨hRS _ _ h.1, ih _ h.2⟩
  | close id next ih => exact ⟨hRS _ _ h.1, ih h.2⟩

theorem Along.bind {s : Script σ α} {g : α → Script σ β} (h : s.Along R f)
    (hg : (g (s.run f).1).Along R (s.run f).2) : (s.bind g).Along R f := by
  induction s generalizing f with
  | done a => exact hg
  | step change next ih => exact ⟨h.1, ih f h.2 hg⟩
  | write id p next ih => exact ⟨h.1, ih _ h.2 hg⟩
  | close id next ih => exact ⟨h.1, ih h.2 hg⟩

theorem Along.monad_bind {s : Script σ α} {g : α → Script σ β} (h : s.Along R f)
    (hg : (g (s.run f).1).Along R (s.run f).2) : (s >>= g).Along R f :=
  h.bind hg

theorem along_pure (a : α) : (pure a : Script σ α).Along R f := trivial

theorem Along.discard {s : Script σ α} (h : s.Along R f) : (Functor.discard s).Along R f :=
  h.bind trivial

theorem along_look (hR : Steps R) (view : Floor σ → α) : (look view).Along R f :=
  ⟨hR.refl f, trivial⟩

theorem along_change {c : Floor σ → Floor σ} (h : R f (c f)) : (change c).Along R f := ⟨h, trivial⟩

theorem along_update {c : Floor σ → α × Floor σ} (h : R f (c f).2) : (update c).Along R f :=
  ⟨h, trivial⟩

theorem along_writeTo {id : ConnId} {p : Payload} (h : R f (f.write id p).2) :
    (writeTo id p).Along R f := ⟨h, trivial⟩

theorem along_closeOne {id : ConnId} (h : R f (f.close id)) : (closeOne id).Along R f :=
  ⟨h, trivial⟩

theorem Along.run {s : Script σ α} (hR : Steps R) (h : s.Along R f) : R f (s.run f).2 := by
  induction s generalizing f with
  | done a => exact hR.refl f
  | step change next ih => exact hR.trans h.1 (ih f h.2)
  | write id p next ih => exact hR.trans h.1 (ih _ h.2)
  | close id next ih => exact hR.trans h.1 (ih h.2)

theorem Within.along {s : Script σ α} (h : s.Within R) (f : Floor σ) : s.Along R f := by
  induction s generalizing f with
  | done a => trivial
  | step change next ih => exact ⟨(h f).1, ih f (h f).2 _⟩
  | write id p next ih => exact ⟨h.1 f, ih _ (h.2 _) _⟩
  | close id next ih => exact ⟨h.1 f, ih h.2 _⟩

theorem Along.isChain {s : Script σ α} (h : s.Along R f) {rest : List (Floor σ)}
    (hrest : ((s.run f).2 :: rest).IsChain R) : (f :: (s.passes f ++ rest)).IsChain R := by
  induction s generalizing f with
  | done a => exact hrest
  | step change next ih => exact (ih f h.2 hrest).cons_cons h.1
  | write id p next ih => exact (ih _ h.2 hrest).cons_cons h.1
  | close id next ih => exact (ih h.2 hrest).cons_cons h.1

/-- What each move keeps holds after each of them. -/
theorem Along.holds {P : Floor σ → Prop} {s : Script σ α} (h : s.Along (fun f g => P f → P g) f)
    (hf : P f) : (∀ g ∈ s.passes f, P g) ∧ P (s.run f).2 := by
  induction s generalizing f with
  | done a => exact ⟨fun _ h => (nomatch h), hf⟩
  | step change next ih =>
    exact (ih f h.2 (h.1 hf)).imp_left fun k => List.forall_mem_cons.2 ⟨h.1 hf, k⟩
  | write id p next ih =>
    exact (ih _ h.2 (h.1 hf)).imp_left fun k => List.forall_mem_cons.2 ⟨h.1 hf, k⟩
  | close id next ih =>
    exact (ih h.2 (h.1 hf)).imp_left fun k => List.forall_mem_cons.2 ⟨h.1 hf, k⟩

/-- A relation that is promised of floors of some kind, and that keeps them so. -/
theorem Along.given {P : Floor σ → Prop} {s : Script σ α}
    (h : s.Along (fun f g => P f → P g ∧ R f g) f) (hf : P f) : s.Along R f := by
  induction s generalizing f with
  | done a => trivial
  | step change next ih => exact ⟨(h.1 hf).2, ih f h.2 (h.1 hf).1⟩
  | write id p next ih => exact ⟨(h.1 hf).2, ih _ h.2 (h.1 hf).1⟩
  | close id next ih => exact ⟨(h.1 hf).2, ih h.2 (h.1 hf).1⟩

theorem passes_bind (s : Script σ α) (g : α → Script σ β) (f : Floor σ) :
    (s.bind g).passes f = s.passes f ++ (g (s.run f).1).passes (s.run f).2 := by
  induction s generalizing f with
  | done a => rfl
  | step change next ih => exact congrArg _ (ih f (change f))
  | write id p next ih => exact congrArg _ (ih _ _)
  | close id next ih => exact congrArg _ (ih _)

theorem passes_monad_bind (s : Script σ α) (g : α → Script σ β) (f : Floor σ) :
    (s >>= g).passes f = s.passes f ++ (g (s.run f).1).passes (s.run f).2 := passes_bind s g f

theorem passes_discard (s : Script σ α) (f : Floor σ) :
    (Functor.discard s).passes f = s.passes f :=
  (passes_bind s (fun _ => .done ()) f).trans (List.append_nil _)

theorem run_mem_passes (s : Script σ α) (f : Floor σ) : (s.run f).2 ∈ f :: s.passes f := by
  induction s generalizing f with
  | done a => exact List.mem_singleton_self f
  | step change next ih => exact List.mem_cons_of_mem f (ih f (change f))
  | write id p next ih => exact List.mem_cons_of_mem f (ih _ _)
  | close id next ih => exact List.mem_cons_of_mem f (ih _)

end Script

open Script

namespace Floor

variable [RoomStore σ]

def passes (f : Floor σ) : List (Act σ) → List (Floor σ)
  | [] => []
  | a :: acts => a.script.passes f ++ (f.perform a).passes acts

/-- All moments of a run, the first of them included. -/
def moments (f : Floor σ) (acts : List (Act σ)) : List (Floor σ) := f :: f.passes acts

theorem after_mem_moments (f : Floor σ) (acts : List (Act σ)) : f.after acts ∈ f.moments acts := by
  induction acts generalizing f with
  | nil => exact List.mem_singleton_self f
  | cons a acts ih =>
    have hrun : f.perform a ∈ f :: a.script.passes f := a.script.run_mem_passes f
    have hmem : ∀ g ∈ f :: a.script.passes f, g ∈ f.moments (a :: acts) := fun g hg =>
      List.mem_append_left ((f.perform a).passes acts) hg
    rw [after_cons]
    rcases List.mem_cons.1 (ih (f.perform a)) with h | h
    · rw [h]
      exact hmem _ hrun
    · exact List.mem_cons_of_mem f (List.mem_append_right _ h)

theorem passes_append (f : Floor σ) (acts more : List (Act σ)) :
    f.passes (acts ++ more) = f.passes acts ++ (f.after acts).passes more := by
  induction acts generalizing f with
  | nil => rfl
  | cons a acts ih =>
    rw [List.cons_append, passes, passes, ih, List.append_assoc]
    rfl

/-- What every move of a run keeps holds at every moment of it. -/
theorem moments_of_within {P : Floor σ → Prop}
    (h : ∀ a : Act σ, a.script.Within fun f g => P f → P g) {f : Floor σ} (hf : P f)
    (acts : List (Act σ)) : ∀ g ∈ f.moments acts, P g := by
  refine List.forall_mem_cons.2 ⟨hf, ?_⟩
  induction acts generalizing f with
  | nil => exact fun _ h => nomatch h
  | cons a acts ih =>
    obtain ⟨hpass, hrun⟩ := ((h a).along f).holds hf
    exact List.forall_mem_append.2 ⟨hpass, ih hrun⟩

end Floor

structure Attendance.Kept (P : Attendance → Prop) : Prop where
  enter : ∀ {a} room id, P a → P (a.enter room id)
  shrinks : ∀ {a b : Attendance}, a.Shrinks b → P a → P b

namespace Floor

def Keeps (P : Attendance → Prop) (f g : Floor σ) : Prop :=
  (∀ side, P (f.attendance side)) → ∀ side, P (g.attendance side)

namespace Keeps

variable {P : Attendance → Prop} {f g : Floor σ}

theorem steps : Steps (Keeps (σ := σ) P) where
  refl _ h := h
  trans h k hf := k (h hf)

theorem of_same (h : ∀ side, g.attendance side = f.attendance side) : Keeps P f g := by
  intro hf side
  rw [h]
  exact hf side

theorem setAttendance {side : Side} {a : Attendance} (h : P (f.attendance side) → P a) :
    Keeps P f (f.setAttendance side a) := by
  intro hf other
  rw [attendance_setAttendance]
  split
  · exact h (hf side)
  · exact hf other

variable (hP : Attendance.Kept P)
include hP

theorem delivery (side : Side) (K : Frame → Prop) :
    Delivery.Allowed (Keeps (σ := σ) P) side K where
  toSteps := steps
  write f id _ _ := of_same fun side => attendance_write f id _ side
  close f id := of_same fun side => attendance_close f id side
  shrink _ _ ha := setAttendance fun h => hP.shrinks ha h
  count f m n := of_same fun side => attendance_count f m n side

theorem lobby [RoomStore σ] : Lobby.Allowed (Keeps (σ := σ) P) where
  toAllowed := delivery hP .lobby _
  enter _ code id := setAttendance fun h => hP.enter code id h
  ready f code user ready := by
    obtain ⟨s, e⟩ := Lobby.setReady_eq code user ready f
    rw [e]
    exact of_same fun side => by cases side <;> rfl

theorem table : Tableside.Allowed (Keeps (σ := σ) P) where
  toAllowed := delivery hP .table _
  enter _ code id := setAttendance fun h => hP.enter code id h
  seat f code members _ := by
    obtain ⟨tables, entropy, e⟩ := Tableside.seatMembers_eq code members f
    rw [e]
    exact of_same fun side => by cases side <;> rfl
  bet f code user c := by
    obtain ⟨tables, e⟩ := Tableside.placeBet_eq code user c f
    rw [e]
    exact of_same fun side => by cases side <;> rfl
  clear _ _ := of_same fun side => by cases side <;> rfl

omit hP in
theorem client : ClientAct.Allowed (Keeps (σ := σ) P) where
  toSteps := steps
  connect f id user sink :=
    of_same fun side => (ClientAct.same_attendance side).connect f id user sink
  turn f id sink := of_same fun side => (ClientAct.same_attendance side).turn f id sink
  close f id := of_same fun side => attendance_close f id side
  write f id p _ := of_same fun side => attendance_write f id p side

theorem act [RoomStore σ] : Act.Allowed (Keeps (σ := σ) P) where
  client := client
  lobby := lobby hP
  table := table hP
  edit _ _ := of_same fun side => by cases side <;> rfl

variable [RoomStore σ]

/-- What letting people in and taking them off keeps holds at every moment, also while scripts are
under way. -/
theorem play (h0 : P .empty) (config : Config) (secret : String) (store : σ)
    (entropy : Random.Source) (turns : List (Turn σ)) (side : Side) :
    P (((Bustle.idle (new config secret store entropy)).play turns).floor.attendance side) := by
  refine Bustle.play_of_within (act hP) (w := .idle (new config secret store entropy))
    (fun _ h => nomatch h) turns (fun side => ?_) side
  cases side <;> exact h0

end Keeps

end Floor

theorem Attendance.kept_distinct : Attendance.Kept Attendance.Distinct where
  enter room id h := h.enter room id
  shrinks hs h room := (h room).sublist (hs.sublist room)

theorem Attendance.kept_listed : Attendance.Kept Attendance.Listed where
  enter room id h := h.enter room id
  shrinks hs h := hs.listed h

namespace Floor

def Tidy (f : Floor σ) : Prop := ∀ side, (f.attendance side).Distinct

theorem tidy_new (config : Config) (secret : String) (store : σ) (entropy : Random.Source) :
    (new config secret store entropy).Tidy := by
  intro side
  cases side <;> exact Attendance.distinct_empty

def KeepsTidy (f g : Floor σ) : Prop := f.Tidy → g.Tidy

namespace KeepsTidy

variable {f g : Floor σ}

theorem steps : Steps (KeepsTidy (σ := σ)) := Keeps.steps

theorem of_same (h : ∀ side, g.attendance side = f.attendance side) : KeepsTidy f g :=
  Keeps.of_same h

theorem setAttendance {side : Side} {a : Attendance}
    (h : (f.attendance side).Distinct → a.Distinct) : KeepsTidy f (f.setAttendance side a) :=
  Keeps.setAttendance h

theorem lobby [RoomStore σ] : Lobby.Allowed (KeepsTidy (σ := σ)) :=
  Keeps.lobby Attendance.kept_distinct

theorem act [RoomStore σ] : Act.Allowed (KeepsTidy (σ := σ)) := Keeps.act Attendance.kept_distinct

end KeepsTidy

variable [RoomStore σ]

theorem tidy_play (config : Config) (secret : String) (store : σ) (entropy : Random.Source)
    (turns : List (Turn σ)) :
    ((Bustle.idle (new config secret store entropy)).play turns).floor.Tidy :=
  Keeps.play Attendance.kept_distinct Attendance.distinct_empty config secret store entropy turns

structure Neat (f : Floor σ) : Prop where
  tidy : f.Tidy
  listed : ∀ side, (f.attendance side).Listed

theorem neat_play (config : Config) (secret : String) (store : σ) (entropy : Random.Source)
    (turns : List (Turn σ)) :
    ((Bustle.idle (new config secret store entropy)).play turns).floor.Neat where
  tidy := tidy_play config secret store entropy turns
  listed :=
    Keeps.play Attendance.kept_listed Attendance.listed_empty config secret store entropy turns

theorem neat_after (config : Config) (secret : String) (store : σ) (entropy : Random.Source)
    (acts : List (Act σ)) : ((new config secret store entropy).after acts).Neat := by
  obtain ⟨turns, e⟩ := Bustle.exists_play_after (.idle (new config secret store entropy)) acts
  have h := neat_play config secret store entropy turns
  rw [e] at h
  exact h

theorem tidy_moments (config : Config) (secret : String) (store : σ) (entropy : Random.Source)
    (acts : List (Act σ)) : ∀ g ∈ (new config secret store entropy).moments acts, g.Tidy :=
  moments_of_within (fun a => a.within KeepsTidy.act) (tidy_new config secret store entropy) acts

theorem tidy_after (config : Config) (secret : String) (store : σ) (entropy : Random.Source)
    (acts : List (Act σ)) : ((new config secret store entropy).after acts).Tidy :=
  tidy_moments config secret store entropy acts _ (after_mem_moments _ acts)

end Floor

end Cardroom
