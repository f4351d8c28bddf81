import Cardroom.Proofs.Limiter.Windows

namespace Cardroom.Limiter

inductive Move where
  | waits (ms : Nat)
  | arrives

structure Watch where
  log : Log Limiter
  now : Nat
  asked : Nat

namespace Watch

def start (k : Limit) (now : Nat) : Watch := ⟨⟨ofLimit k, []⟩, now, now⟩

def move (w : Watch) : Move → Watch
  | .waits ms => { w with now := w.now + ms }
  | .arrives => ⟨w.log.arrive check w.now, w.now, w.now⟩

def after (w : Watch) (moves : List Move) : Watch := moves.foldl move w

/-- What the limiter reports. -/
def reported (w : Watch) : Nat := w.log.limiter.count

/-- How many admitted frames are in the window now. -/
def recent (w : Watch) (k : Limit) : Nat := k.recent w.now w.log.admitted

/-- What is reported was right when the limiter was last asked. -/
structure Faithful (k : Limit) (w : Watch) : Prop where
  keeps : Keeps k w.log.limiter w.asked w.log.admitted
  upto : Upto w.asked w.log.admitted
  asked : w.asked ≤ w.now
  reported : w.reported = k.recent w.asked w.log.admitted
  most : w.reported ≤ k.most

variable {k : Limit} {w : Watch}

theorem faithful_start (k : Limit) (now : Nat) : Faithful k (start k now) where
  keeps := .start k now
  upto := ⟨.nil, fun _ h => nomatch h⟩
  asked := Nat.le_refl now
  reported := rfl
  most := Nat.zero_le _

theorem recent_snoc (hk : 0 < k.window) (now : Nat) (times : List Nat) :
    k.recent now (times ++ [now]) = k.recent now times + 1 := by
  have hnow : decide (now < now + k.window) = true := decide_eq_true (by omega)
  rw [Limit.recent, List.countP_append, List.countP_singleton, if_pos hnow]
  rfl

theorem Faithful.arrives (hk : 0 < k.window) (h : Faithful k w) : Faithful k (w.move .arrives) := by
  have hkeeps := h.keeps.later h.asked
  have hupto := h.upto.later h.asked
  have hevict := hkeeps.count_evict hupto
  have hroom : (w.log.limiter.evict w.now).hasRoom = true ↔
      (w.log.limiter.evict w.now).count < k.most := by
    rw [← (hkeeps.evict hupto).most]
    exact decide_eq_true_iff
  cases hadmit : (w.log.limiter.evict w.now).hasRoom with
  | true =>
    have hmove : w.move .arrives =
        ⟨⟨(w.log.limiter.evict w.now).record w.now, w.log.admitted ++ [w.now]⟩, w.now, w.now⟩ := by
      simp [move, Log.arrive, check, hadmit]
    have hcount : ((w.log.limiter.evict w.now).record w.now).count =
        (w.log.limiter.evict w.now).count + 1 := List.length_append
    rw [hmove]
    refine ⟨(hkeeps.evict hupto).record, hupto.snoc, Nat.le_refl _, ?_, ?_⟩
    · exact hcount.trans (by rw [hevict, recent_snoc hk])
    · exact hcount.trans_le (hroom.1 hadmit)
  | false =>
    have hmove : w.move .arrives =
        ⟨⟨w.log.limiter.evict w.now, w.log.admitted⟩, w.now, w.now⟩ := by
      simp [move, Log.arrive, check, hadmit]
    rw [hmove]
    refine ⟨hkeeps.evict hupto, hupto, Nat.le_refl _, hevict, ?_⟩
    exact (List.length_dropWhile_le _ _).trans h.most

theorem Faithful.move (hk : 0 < k.window) (h : Faithful k w) (m : Move) :
    Faithful k (w.move m) := by
  cases m with
  | waits ms => exact ⟨h.keeps, h.upto, Nat.le_add_right_of_le h.asked, h.reported, h.most⟩
  | arrives => exact h.arrives hk

theorem Faithful.after (hk : 0 < k.window) (h : Faithful k w) (moves : List Move) :
    Faithful k (w.after moves) := by
  induction moves generalizing w with
  | nil => exact h
  | cons m moves ih => exact ih (h.move hk m)

theorem Faithful.recent_le (h : Faithful k w) : w.recent k ≤ w.reported := by
  rw [h.reported]
  refine List.countP_mono_left fun t _ ht => ?_
  have hle := h.asked
  simp only [decide_eq_true_eq] at ht ⊢
  omega

/-- Of two conditions one of which implies the other, as many meet both only if the same do. -/
theorem countP_eq_countP_iff {p q : Nat → Bool} {times : List Nat}
    (h : ∀ t ∈ times, q t = true → p t = true) :
    times.countP p = times.countP q ↔ ∀ t ∈ times, p t = true → q t = true := by
  have hboth : (times.filter p).countP q = times.countP q := by
    rw [List.countP_filter]
    refine List.countP_congr fun t ht => ?_
    rw [Bool.and_eq_true]
    exact and_iff_left_of_imp (h t ht)
  rw [← hboth, List.countP_eq_length_filter, eq_comm, List.countP_eq_length]
  simp only [List.mem_filter, and_imp]

theorem Faithful.reported_eq_iff (h : Faithful k w) : w.reported = w.recent k ↔
    ∀ t ∈ w.log.admitted, w.asked < t + k.window → w.now < t + k.window := by
  rw [h.reported]
  refine (countP_eq_countP_iff fun t _ ht => ?_).trans ?_
  · have hle := h.asked
    simp only [decide_eq_true_eq] at ht ⊢
    omega
  · simp only [decide_eq_true_eq]

end Watch

/-- A limiter reports how many admitted frames were in the window when it was last asked. That is never
too few and never more than it may admit; it is the number of those that are in the window now if and
only if none of them has left the window since. -/
theorem count_right_iff (k : Limit) (hk : 0 < k.window) (start : Nat) (moves : List Move) :
    let w := (Watch.start k start).after moves
    w.reported = k.recent w.asked w.log.admitted ∧ w.recent k ≤ w.reported ∧
      w.reported ≤ k.most ∧
      (w.reported = w.recent k ↔
        ∀ t ∈ w.log.admitted, w.asked < t + k.window → w.now < t + k.window) := by
  have h := (Watch.faithful_start k start).after hk moves
  exact ⟨h.reported, h.recent_le, h.most, h.reported_eq_iff⟩

/-- After a burst and a silence three frames are reported and none is in the window. -/
theorem count_right_iff_silence :
    let w := (Watch.start ⟨3, 1000⟩ 0).after [.arrives, .arrives, .arrives, .waits 2000]
    0 < (⟨3, 1000⟩ : Limit).window ∧ w.log.admitted = [0, 0, 0] ∧ w.reported = 3 ∧
      w.recent ⟨3, 1000⟩ = 0 ∧
      ¬ ∀ t ∈ w.log.admitted, w.asked < t + 1000 → w.now < t + 1000 := by
  intro w
  obtain ⟨-, -, -, hright⟩ := count_right_iff ⟨3, 1000⟩ (by decide) 0
    [.arrives, .arrives, .arrives, .waits 2000]
  refine ⟨by decide, by decide, by decide, by decide, fun hall => ?_⟩
  have heq : w.reported = w.recent ⟨3, 1000⟩ := hright.2 hall
  exact absurd heq (by decide)

end Cardroom.Limiter
