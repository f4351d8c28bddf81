import Cardroom.Proofs.Floor.Run
/-!
Scripts that run beside each other. At each turn something begins, or one of the scripts under way
makes its next move; the others may come in between any two moves. What every move keeps, all turns
keep (`Bustle.play_of_within`), and a run of acts one after the other is one way to take turns
(`Bustle.exists_play_after`).
-/

namespace Cardroom

variable {σ α : Type}

namespace Script

def advance : Script σ α → Floor σ → Script σ α × Floor σ
  | .done a, f => (.done a, f)
  | .step change next, f => (next f, change f)
  | .write id p next, f => (next (f.write id p).1, (f.write id p).2)
  | .close id next, f => (next, f.close id)

theorem Within.advance {R : Floor σ → Floor σ → Prop} {s : Script σ α} (h : s.Within R)
    (hR : Script.Steps R) (f : Floor σ) : (s.advance f).1.Within R ∧ R f (s.advance f).2 := by
  cases s with
  | done a => exact ⟨h, hR.refl f⟩
  | step change next => exact (h f).symm
  | write id p next => exact ⟨h.2 _, h.1 f⟩
  | close id next => exact ⟨h.2, h.1 f⟩

end Script

/-- A floor and the scripts that are under way on it. -/
structure Bustle (σ : Type) where
  floor : Floor σ
  scripts : List (Script σ Unit)

inductive Turn (σ : Type) where
  | begins (a : Act σ)
  | goesOn (i : Nat)

namespace Bustle

variable [RoomStore σ]

def turn (w : Bustle σ) : Turn σ → Bustle σ
  | .begins a => { w with scripts := w.scripts ++ [a.script] }
  | .goesOn i =>
    match w.scripts[i]? with
    | none => w
    | some s => ⟨(s.advance w.floor).2, w.scripts.set i (s.advance w.floor).1⟩

theorem turn_goesOn {w : Bustle σ} {i : Nat} {s : Script σ Unit} (h : w.scripts[i]? = some s) :
    w.turn (.goesOn i) = ⟨(s.advance w.floor).2, w.scripts.set i (s.advance w.floor).1⟩ := by
  simp only [turn, h]

def play (w : Bustle σ) (turns : List (Turn σ)) : Bustle σ := turns.foldl turn w

def idle (f : Floor σ) : Bustle σ := ⟨f, []⟩

variable {R : Floor σ → Floor σ → Prop}

theorem turn_of_each (hR : Script.Steps R) {w : Bustle σ} (hw : ∀ s ∈ w.scripts, s.Within R) {t : Turn σ}
    (ht : ∀ a, t = .begins a → a.script.Within R) :
    (∀ s ∈ (w.turn t).scripts, s.Within R) ∧ R w.floor (w.turn t).floor := by
  cases t with
  | begins a =>
    refine ⟨fun s hs => ?_, hR.refl w.floor⟩
    rcases List.mem_append.1 hs with hs | hs
    · exact hw s hs
    · rw [List.mem_singleton.1 hs]
      exact ht a rfl
  | goesOn i =>
    cases hs : w.scripts[i]? with
    | none =>
      simp only [turn, hs]
      exact ⟨hw, hR.refl w.floor⟩
    | some s =>
      rw [turn_goesOn hs]
      obtain ⟨hrest, hmove⟩ := (hw s (List.mem_of_getElem? hs)).advance hR w.floor
      refine ⟨fun r hr => ?_, hmove⟩
      rcases List.mem_or_eq_of_mem_set hr with hr | rfl
      · exact hw r hr
      · exact hrest

theorem play_of_each (hR : Script.Steps R) {w : Bustle σ} (hw : ∀ s ∈ w.scripts, s.Within R)
    {turns : List (Turn σ)} (ht : ∀ a, .begins a ∈ turns → a.script.Within R) :
    R w.floor (w.play turns).floor := by
  induction turns generalizing w with
  | nil => exact hR.refl w.floor
  | cons t turns ih =>
    obtain ⟨hrest, hmove⟩ := turn_of_each hR hw (t := t) fun a e => ht a (e ▸ List.mem_cons_self)
    exact hR.trans hmove (ih hrest fun a ha => ht a (List.mem_cons_of_mem t ha))

theorem play_of_within (h : Act.Allowed R) {w : Bustle σ} (hw : ∀ s ∈ w.scripts, s.Within R)
    (turns : List (Turn σ)) : R w.floor (w.play turns).floor :=
  play_of_each h.client.toSteps hw fun a _ => a.within h

theorem play_append (w : Bustle σ) (turns more : List (Turn σ)) :
    w.play (turns ++ more) = (w.play turns).play more :=
  List.foldl_append ..

theorem play_goesOn_succ {scripts : List (Script σ Unit)} {i : Nat} (hi : i < scripts.length)
    (s : Script σ Unit) (f : Floor σ) (n : Nat) :
    (⟨f, scripts.set i s⟩ : Bustle σ).play (List.replicate (n + 1) (.goesOn i)) =
      (⟨(s.advance f).2, scripts.set i (s.advance f).1⟩ : Bustle σ).play
        (List.replicate n (.goesOn i)) := by
  have hturn : (⟨f, scripts.set i s⟩ : Bustle σ).turn (.goesOn i) =
      ⟨(s.advance f).2, scripts.set i (s.advance f).1⟩ := by
    rw [turn_goesOn (List.getElem?_set_self hi), List.set_set]
  rw [List.replicate_succ, play, List.foldl_cons, hturn]
  rfl

/-- A script that nobody comes in between runs from start to end. -/
theorem exists_play_run {scripts : List (Script σ Unit)} {i : Nat} (hi : i < scripts.length)
    (s : Script σ Unit) (f : Floor σ) : ∃ n,
      (⟨f, scripts.set i s⟩ : Bustle σ).play (List.replicate n (.goesOn i)) =
        ⟨(s.run f).2, scripts.set i (.done ())⟩ := by
  induction s generalizing f with
  | done a => exact ⟨0, rfl⟩
  | step change next ih =>
    obtain ⟨n, e⟩ := ih f (change f)
    exact ⟨n + 1, (play_goesOn_succ hi _ f n).trans e⟩
  | write id p next ih =>
    obtain ⟨n, e⟩ := ih _ (f.write id p).2
    exact ⟨n + 1, (play_goesOn_succ hi _ f n).trans e⟩
  | close id next ih =>
    obtain ⟨n, e⟩ := ih (f.close id)
    exact ⟨n + 1, (play_goesOn_succ hi _ f n).trans e⟩

theorem exists_play_perform (w : Bustle σ) (a : Act σ) :
    ∃ turns, (w.play turns).floor = w.floor.perform a := by
  have hi : w.scripts.length < (w.scripts ++ [a.script]).length := by simp
  obtain ⟨n, e⟩ := exists_play_run hi a.script w.floor
  refine ⟨.begins a :: List.replicate n (.goesOn w.scripts.length), ?_⟩
  have hbegin : w.turn (.begins a) =
      ⟨w.floor, (w.scripts ++ [a.script]).set w.scripts.length a.script⟩ := by
    simp [turn]
  rw [play, List.foldl_cons, hbegin, ← play, e]
  rfl

/-- One act after the other is a way to take turns. -/
theorem exists_play_after (w : Bustle σ) (acts : List (Act σ)) :
    ∃ turns, (w.play turns).floor = w.floor.after acts := by
  induction acts generalizing w with
  | nil => exact ⟨[], rfl⟩
  | cons a acts ih =>
    obtain ⟨first, e⟩ := exists_play_perform w a
    obtain ⟨rest, e'⟩ := ih (w.play first)
    exact ⟨first ++ rest, by rw [play_append, e', e, Floor.after_cons]⟩

end Bustle

end Cardroom
