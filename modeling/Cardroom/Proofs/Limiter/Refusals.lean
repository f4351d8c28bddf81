import Cardroom.Proofs.Limiter.Windows

namespace Cardroom

namespace Limiter

variable {k l m : Limiter} {now next : Nat}

theorem dropWhile_dropWhile {α : Type} {p q : α → Bool} (h : ∀ a, q a = true → p a = true)
    (as : List α) : (as.dropWhile q).dropWhile p = as.dropWhile p := by
  induction as with
  | nil => rfl
  | cons a as ih =>
    cases hq : q a with
    | true => rw [List.dropWhile_cons_of_pos hq, ih, List.dropWhile_cons_of_pos (h a hq)]
    | false => rw [List.dropWhile_cons_of_neg (by simp [hq])]

theorem evict_evict (h : now ≤ next) (l : Limiter) : (l.evict now).evict next = l.evict next := by
  have hold : ∀ t, decide (now - t ≥ l.window) = true → decide (next - t ≥ l.window) = true := by
    intro t ht
    simp only [decide_eq_true_eq] at ht ⊢
    omega
  exact congrArg (Limiter.mk l.most l.window) (dropWhile_dropWhile hold l.admitted)

/-- From now on the two remember the same frames whenever they have forgotten what they may. -/
def Agree (now : Nat) (l m : Limiter) : Prop := ∀ next, now ≤ next → l.evict next = m.evict next

namespace Agree

theorem refl (now : Nat) (l : Limiter) : Agree now l l := fun _ _ => rfl

theorem trans (h : Agree now k l) (h' : Agree now l m) : Agree now k m :=
  fun next hn => (h next hn).trans (h' next hn)

theorem later (h : Agree now l m) (hn : now ≤ next) : Agree next l m :=
  fun t ht => h t (Nat.le_trans hn ht)

theorem evict (now : Nat) (l : Limiter) : Agree now l (l.evict now) :=
  fun _ hn => (evict_evict hn l).symm

end Agree

end Limiter

namespace FrameLimiter

open Limiter (Limit Keeps Upto ofLimit counts_check_both)

variable {α : Type} {k l m : FrameLimiter} {now next : Nat}

structure Agree (now : Nat) (l m : FrameLimiter) : Prop where
  burst : l.burst.Agree now m.burst
  sustained : l.sustained.Agree now m.sustained

namespace Agree

theorem refl (now : Nat) (l : FrameLimiter) : Agree now l l := ⟨.refl now _, .refl now _⟩

theorem trans (h : Agree now k l) (h' : Agree now l m) : Agree now k m :=
  ⟨h.burst.trans h'.burst, h.sustained.trans h'.sustained⟩

theorem later (h : Agree now l m) (hn : now ≤ next) : Agree next l m :=
  ⟨h.burst.later hn, h.sustained.later hn⟩

theorem check (h : Agree now l m) :
    (l.check now).1 = (m.check now).1 ∧ Agree now (l.check now).2 (m.check now).2 := by
  unfold FrameLimiter.check
  dsimp only
  rw [h.burst now (Nat.le_refl now)]
  split
  · rw [h.sustained now (Nat.le_refl now)]
    split <;> exact ⟨rfl, .refl now _⟩
  -- the second limit has not been asked
  · exact ⟨rfl, .refl now _, h.sustained⟩

/-- A refused frame leaves a limiter that remembers the same. -/
theorem of_refused (h : (l.check now).1 = false) : Agree now l (l.check now).2 := by
  unfold FrameLimiter.check at h ⊢
  dsimp only at h ⊢
  split at h
  · rename_i hburst
    split at h
    · cases h
    · rename_i hsustained
      rw [if_pos hburst, if_neg hsustained]
      exact ⟨.evict now _, .evict now _⟩
  · rename_i hburst
    rw [if_neg hburst]
    exact ⟨.evict now _, .refl now _⟩

end Agree

inductive Move (α : Type) where
  | waits (ms : Nat)
  | arrives (mark : α)

def Move.stays (keep : α → Bool) : Move α → Bool
  | waits _ => true
  | arrives mark => keep mark

structure Answer (α : Type) where
  mark : α
  time : Nat
  admitted : Bool
  deriving DecidableEq

structure Watch where
  limiter : FrameLimiter
  now : Nat

namespace Watch

variable {v w : Watch}

def move (w : Watch) : Move α → Watch
  | .waits ms => { w with now := w.now + ms }
  | .arrives _ => { w with limiter := (w.limiter.check w.now).2 }

def after (w : Watch) (moves : List (Move α)) : Watch := moves.foldl move w

def answers (w : Watch) : List (Move α) → List (Answer α)
  | [] => []
  | .waits ms :: moves => (w.move (.waits ms : Move α)).answers moves
  | .arrives mark :: moves =>
    ⟨mark, w.now, (w.limiter.check w.now).1⟩ :: (w.move (.arrives mark)).answers moves

def admittedTimes (as : List (Answer α)) : List Nat := (as.filter (·.admitted)).map (·.time)

structure Agree (v w : Watch) : Prop where
  now : v.now = w.now
  limiter : v.limiter.Agree v.now w.limiter

namespace Agree

theorem refl (w : Watch) : Agree w w := ⟨rfl, .refl w.now _⟩

theorem waits (h : Agree v w) (ms : Nat) :
    Agree (v.move (.waits ms : Move α)) (w.move (.waits ms : Move α)) :=
  ⟨congrArg (· + ms) h.now, h.limiter.later (Nat.le_add_right v.now ms)⟩

theorem arrives (h : Agree v w) (mark : α) :
    (v.limiter.check v.now).1 = (w.limiter.check w.now).1 ∧
      Agree (v.move (.arrives mark)) (w.move (.arrives mark)) := by
  obtain ⟨hsame, hrest⟩ := h.limiter.check
  refine ⟨hsame.trans (by rw [h.now]), h.now, ?_⟩
  simpa only [move, ← h.now] using hrest

theorem refused (h : Agree v w) (mark : α) (hno : (w.limiter.check w.now).1 = false) :
    Agree v (w.move (.arrives mark)) :=
  ⟨h.now, h.limiter.trans (h.now ▸ .of_refused hno)⟩

theorem answers (h : Agree v w) (moves : List (Move α)) : v.answers moves = w.answers moves := by
  induction moves generalizing v w with
  | nil => rfl
  | cons m moves ih =>
    cases m with
    | waits ms => exact ih (h.waits ms)
    | arrives mark =>
      obtain ⟨hsame, hrest⟩ := h.arrives mark
      rw [Watch.answers, Watch.answers, hsame, h.now, ih hrest]

/-- Of two that agree one goes through a schedule and the other leaves out some frames of it, all of
which are refused. -/
theorem answers_filter {keep : α → Bool} (h : Agree v w) {moves : List (Move α)}
    (hno : ∀ a ∈ w.answers moves, keep a.mark = false → a.admitted = false) :
    v.answers (moves.filter (Move.stays keep)) =
      (w.answers moves).filter fun a => keep a.mark := by
  -- agreement is kept by a frame that both check and by one that only `w` checks and refuses
  induction moves generalizing v w with
  | nil => rfl
  | cons m moves ih =>
    cases m with
    | waits ms => exact ih (h.waits ms) hno
    | arrives mark =>
      obtain ⟨hfirst, hno⟩ := List.forall_mem_cons.1 hno
      cases hkeep : keep mark with
      | true =>
        obtain ⟨hsame, hrest⟩ := h.arrives mark
        have hstays : Move.stays keep (.arrives mark) = true := hkeep
        rw [List.filter_cons_of_pos hstays, Watch.answers, Watch.answers, hsame, h.now,
          ih hrest hno, List.filter_cons, if_pos hkeep]
      | false =>
        have hgoes : ¬ Move.stays keep (.arrives mark) = true := by simp [Move.stays, hkeep]
        rw [List.filter_cons_of_neg hgoes, Watch.answers, List.filter_cons_of_neg (by simp [hkeep])]
        exact ih (h.refused mark (hfirst hkeep)) hno

end Agree

/-- After nothing but refusals a limiter remembers what it would remember after silence. -/
theorem agree_after {moves : List (Move α)} (h : FrameLimiter.Agree w.now l w.limiter)
    (hno : ∀ a ∈ w.answers moves, a.admitted = false) :
    FrameLimiter.Agree (w.after moves).now l (w.after moves).limiter := by
  induction moves generalizing w with
  | nil => exact h
  | cons m moves ih =>
    cases m with
    | waits ms => exact @ih (w.move (.waits ms : Move α)) (h.later (Nat.le_add_right w.now ms)) hno
    | arrives mark =>
      obtain ⟨hfirst, hno⟩ := List.forall_mem_cons.1 hno
      exact @ih (w.move (.arrives mark)) (h.trans (.of_refused hfirst)) hno

theorem keeps_after {burst sustained : Limit} {times : List Nat}
    (h : Keeps burst w.limiter.burst w.now times ∧ Keeps sustained w.limiter.sustained w.now times)
    (hu : Upto w.now times) (moves : List (Move α)) :
    (Keeps burst (w.after moves).limiter.burst (w.after moves).now
        (times ++ admittedTimes (w.answers moves)) ∧
      Keeps sustained (w.after moves).limiter.sustained (w.after moves).now
        (times ++ admittedTimes (w.answers moves))) ∧
      Upto (w.after moves).now (times ++ admittedTimes (w.answers moves)) := by
  induction moves generalizing w times with
  | nil =>
    rw [answers, admittedTimes, List.filter_nil, List.map_nil, List.append_nil]
    exact ⟨h, hu⟩
  | cons m moves ih =>
    have hcounts := counts_check_both burst sustained
    cases m with
    | waits ms =>
      have hle : w.now ≤ w.now + ms := Nat.le_add_right w.now ms
      exact @ih (w.move (.waits ms : Move α)) _ (hcounts.later h hle) (hu.later hle)
    | arrives mark =>
      have hkeeps := hcounts.keeps h hu
      have hrest := @ih (w.move (.arrives mark)) _ hkeeps (by split; exacts [hu.snoc, hu])
      have htimes : (if (w.limiter.check w.now).1 = true then times ++ [w.now] else times) ++
          admittedTimes ((w.move (.arrives mark)).answers moves) =
          times ++ admittedTimes (w.answers (.arrives mark :: moves)) := by
        cases hadmit : (w.limiter.check w.now).1 with
        | true => simp [answers, admittedTimes, hadmit]
        | false => simp [answers, admittedTimes, hadmit]
      rwa [htimes] at hrest

end Watch

/-- Frames that are refused leave no trace. Any of them may be left out of a schedule, and every other
frame is answered as before. Who keeps sending while refused is treated from then on as who was
silent; a refused frame uses up nothing of either limit; and once the longer window has passed since
the last frame that was admitted, the next one is admitted. -/
theorem refusals_leave_no_trace :
    (∀ (w : Watch) (keep : α → Bool) (moves : List (Move α)),
      (∀ a ∈ w.answers moves, keep a.mark = false → a.admitted = false) →
      w.answers (moves.filter (Move.stays keep)) =
        (w.answers moves).filter fun a => keep a.mark) ∧
    (∀ (w : Watch) (moves more : List (Move α)), (∀ a ∈ w.answers moves, a.admitted = false) →
      (w.after moves).answers more = Watch.answers ⟨w.limiter, (w.after moves).now⟩ more) ∧
    (∀ (l : FrameLimiter) (now : Nat), (l.check now).1 = false → ∀ next, now ≤ next →
      (l.check now).2.burst.evict next = l.burst.evict next ∧
        (l.check now).2.sustained.evict next = l.sustained.evict next) ∧
    ∀ (burst sustained : Limit) (start : Nat) (moves : List (Move α)),
      0 < burst.most → 0 < sustained.most →
      let w : Watch := ⟨⟨ofLimit burst, ofLimit sustained⟩, start⟩
      (∀ a ∈ w.answers moves, a.admitted = true →
        a.time + max burst.window sustained.window ≤ (w.after moves).now) →
      ((w.after moves).limiter.check (w.after moves).now).1 = true := by
  refine ⟨fun w keep moves hno => ?_, fun w moves more hno => ?_, fun l now hno next hn => ?_, ?_⟩
  · exact (Watch.Agree.refl w).answers_filter hno
  · have h : Watch.Agree ⟨w.limiter, (w.after moves).now⟩ (w.after moves) :=
      ⟨rfl, Watch.agree_after (.refl w.now w.limiter) hno⟩
    exact (h.answers more).symm
  · have h := Agree.of_refused hno
    exact ⟨(h.burst next hn).symm, (h.sustained next hn).symm⟩
  · intro burst sustained start moves hburst hsustained w hpast
    obtain ⟨hkeeps, hu⟩ := @Watch.keeps_after α w burst sustained []
      ⟨.start burst start, .start sustained start⟩ ⟨.nil, fun _ h => nomatch h⟩ moves
    refine ((counts_check_both burst sustained).admits hkeeps hu).2 ?_
    -- nothing that was admitted counts any more
    have hnone : ∀ k : Limit, k.window ≤ max burst.window sustained.window →
        k.recent (w.after moves).now ([] ++ Watch.admittedTimes (w.answers moves)) = 0 := by
      intro k hk
      refine List.countP_eq_zero.2 fun t ht => ?_
      obtain ⟨a, ha, rfl⟩ := List.mem_map.1 ht
      obtain ⟨ha, hadmitted⟩ := List.mem_filter.1 ha
      have := hpast a ha hadmitted
      rw [decide_eq_true_eq]
      omega
    intro k hk
    rcases List.mem_cons.1 hk with rfl | hk
    · rw [hnone k (Nat.le_max_left ..)]
      exact hburst
    · cases List.mem_singleton.1 hk
      rw [hnone sustained (Nat.le_max_right ..)]
      exact hsustained

/-- Under these limits frames 3 and 4 find the first one reached, and frames 6 and 7 the second. -/
def impatient : List (Move Nat) :=
  [.arrives 1, .waits 60, .arrives 2, .arrives 3, .arrives 4, .waits 40, .arrives 5, .waits 70,
    .arrives 6, .waits 200, .arrives 7]

theorem refusals_leave_no_trace_impatient :
    let w : Watch := ⟨⟨ofLimit ⟨2, 100⟩, ofLimit ⟨3, 1000⟩⟩, 0⟩
    (w.answers impatient).map (·.admitted) = [true, true, false, false, true, false, false] ∧
    w.answers (impatient.filter (Move.stays (! [3, 6].contains ·))) =
      [⟨1, 0, true⟩, ⟨2, 60, true⟩, ⟨4, 60, false⟩, ⟨5, 100, true⟩, ⟨7, 370, false⟩] ∧
    ((w.after (impatient ++ [.waits 730])).limiter.check 1100).1 = true := by
  intro w
  obtain ⟨hleft, -, -, hpast⟩ := refusals_leave_no_trace (α := Nat)
  refine ⟨by decide, ?_, ?_⟩
  · exact (hleft w (! [3, 6].contains ·) impatient (by decide)).trans (by decide)
  · have hnow : (w.after (impatient ++ [.waits 730])).now = 1100 := rfl
    have hlast := hpast ⟨2, 100⟩ ⟨3, 1000⟩ 0 (impatient ++ [.waits 730]) (by decide) (by decide)
    rw [← hnow]
    exact hlast (by decide)

end FrameLimiter

end Cardroom
