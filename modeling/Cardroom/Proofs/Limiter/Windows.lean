import Cardroom.Limiter
import Mathlib.Data.List.Induction
import Mathlib.Data.List.Pairwise
import Mathlib.Data.List.TakeWhile
import Mathlib.Order.Nat

namespace Cardroom.Limiter

/-- No more than so many frames within a window of that length. -/
structure Limit where
  most : Nat
  window : Nat
  deriving DecidableEq, Repr

def ofLimit (k : Limit) : Limiter := .new k.most k.window

namespace Limit

/-- How many of these times are later than a window before `now`. -/
def recent (k : Limit) (now : Nat) (times : List Nat) : Nat :=
  times.countP fun t => now < t + k.window

/-- How many of these times are in the window that begins at `start`. -/
def inWindow (k : Limit) (start : Nat) (times : List Nat) : Nat :=
  times.countP fun t => start ≤ t ∧ t < start + k.window

end Limit

structure Upto (now : Nat) (times : List Nat) : Prop where
  sorted : times.Pairwise (· ≤ ·)
  past : ∀ t ∈ times, t ≤ now

namespace Upto

variable {now : Nat} {times : List Nat}

theorem later (h : Upto now times) {next : Nat} (hn : now ≤ next) : Upto next times :=
  ⟨h.sorted, fun t ht => Nat.le_trans (h.past t ht) hn⟩

theorem snoc (h : Upto now times) : Upto now (times ++ [now]) where
  sorted := List.pairwise_append.2 ⟨h.sorted, List.pairwise_singleton .., fun t ht u hu => by
    rw [List.mem_singleton.1 hu]
    exact h.past t ht⟩
  past t ht := by
    rcases List.mem_append.1 ht with ht | ht
    · exact h.past t ht
    · exact Nat.le_of_eq (List.mem_singleton.1 ht)

theorem of_pairwise {before after : List Nat}
    (h : (before ++ now :: after).Pairwise (· ≤ ·)) : Upto now before where
  sorted := (List.pairwise_append.1 h).1
  past t ht := (List.pairwise_append.1 h).2.2 t ht now List.mem_cons_self

/-- The frames that count at a moment are all in the window that ends there. -/
theorem recent_le (h : Upto now times) (k : Limit) :
    k.recent now times ≤ k.inWindow (now + 1 - k.window) times := by
  refine List.countP_mono_left fun t ht hr => ?_
  have hp := h.past t ht
  simp only [decide_eq_true_eq] at hr ⊢
  omega

end Upto

/-- Of the frames admitted up to `now`, a limiter has forgotten only such as lie a window back. -/
structure Keeps (k : Limit) (l : Limiter) (now : Nat) (times : List Nat) : Prop where
  most : l.most = k.most
  window : l.window = k.window
  kept : ∃ gone, times = gone ++ l.admitted ∧ ∀ t ∈ gone, t + k.window ≤ now

theorem length_dropWhile_of_pairwise {p : Nat → Bool} {l : List Nat}
    (h : l.Pairwise fun x y => p y = true → p x = true) :
    (l.dropWhile p).length = l.countP fun x => !p x := by
  induction l with
  | nil => rfl
  | cons x l ih =>
    obtain ⟨hx, hl⟩ := List.pairwise_cons.1 h
    cases hp : p x with
    | true => simp [hp, ih hl]
    | false =>
      have hall : ∀ y ∈ l, (!p y) = true := fun y hy => by
        cases hy' : p y with
        | true => exact absurd (hx y hy hy') (by simp [hp])
        | false => rfl
      simp [hp, List.countP_eq_length.2 hall]

variable {k : Limit} {l : Limiter} {now : Nat} {times : List Nat}

namespace Keeps

theorem start (k : Limit) (now : Nat) : Keeps k (ofLimit k) now [] :=
  ⟨rfl, rfl, [], rfl, fun _ h => nomatch h⟩

theorem later (h : Keeps k l now times) {next : Nat} (hn : now ≤ next) : Keeps k l next times := by
  obtain ⟨gone, e, hgone⟩ := h.kept
  exact ⟨h.most, h.window, gone, e, fun t ht => Nat.le_trans (hgone t ht) hn⟩

theorem record (h : Keeps k l now times) : Keeps k (l.record now) now (times ++ [now]) := by
  obtain ⟨gone, e, hgone⟩ := h.kept
  exact ⟨h.most, h.window, gone, by rw [e, List.append_assoc]; rfl, hgone⟩

theorem evict (h : Keeps k l now times) (hu : Upto now times) : Keeps k (l.evict now) now times := by
  obtain ⟨gone, rfl, hgone⟩ := h.kept
  let old : Nat → Bool := fun t => now - t ≥ l.window
  refine ⟨h.most, h.window, gone ++ l.admitted.takeWhile old, ?_, fun t ht => ?_⟩
  · rw [List.append_assoc]
    exact congrArg _ List.takeWhile_append_dropWhile.symm
  · rcases List.mem_append.1 ht with ht | ht
    · exact hgone t ht
    · have hold := List.mem_takeWhile_imp ht
      have hpast := hu.past t (List.mem_append_right _ ((List.takeWhile_sublist _).subset ht))
      simp only [old, decide_eq_true_eq, h.window] at hold
      omega

theorem count_evict (h : Keeps k l now times) (hu : Upto now times) :
    (l.evict now).count = k.recent now times := by
  obtain ⟨gone, rfl, hgone⟩ := h.kept
  obtain ⟨-, hsorted, -⟩ := List.pairwise_append.1 hu.sorted
  have hmono : l.admitted.Pairwise fun x y =>
      decide (now - y ≥ l.window) = true → decide (now - x ≥ l.window) = true :=
    hsorted.imp fun hxy hy => by
      simp only [decide_eq_true_eq] at hy ⊢
      omega
  have hnone : gone.countP (fun t => decide (now < t + k.window)) = 0 :=
    List.countP_eq_zero.2 fun t ht => by
      have := hgone t ht
      simp only [decide_eq_true_eq]
      omega
  rw [Limit.recent, List.countP_append, hnone, Nat.zero_add]
  refine (length_dropWhile_of_pairwise hmono).trans (List.countP_congr fun t ht => ?_)
  have hpast := hu.past t (List.mem_append_right _ ht)
  simp only [Bool.not_eq_true', decide_eq_false_iff_not, decide_eq_true_eq, h.window]
  omega

theorem hasRoom_evict (h : Keeps k l now times) (hu : Upto now times) :
    (l.evict now).hasRoom = true ↔ k.recent now times < k.most := by
  rw [← h.count_evict hu, ← (h.evict hu).most]
  exact decide_eq_true_iff

end Keeps

variable {L : Type}

/-- A limiter of some kind together with the times of all the frames that it has admitted. -/
structure Log (L : Type) where
  limiter : L
  admitted : List Nat

def Log.arrive (check : L → Nat → Bool × L) (g : Log L) (now : Nat) : Log L :=
  ⟨(check g.limiter now).2, if (check g.limiter now).1 then g.admitted ++ [now] else g.admitted⟩

def Log.after (check : L → Nat → Bool × L) (start : L) (times : List Nat) : Log L :=
  times.foldl (arrive check) ⟨start, []⟩

/-- Frames are admitted exactly as long as no window is full of admitted frames. -/
structure Exact (check : L → Nat → Bool × L) (start : L) (limits : List Limit)
    (times : List Nat) : Prop where
  admits : ∀ before now after, times = before ++ now :: after →
    ((check (Log.after check start before).limiter now).1 = true ↔
      ∀ k ∈ limits, k.recent now (Log.after check start before).admitted < k.most)
  refuses : ∀ before now after, times = before ++ now :: after →
    (check (Log.after check start before).limiter now).1 = false →
      ∃ k ∈ limits, k.recent now (Log.after check start before).admitted = k.most
  apart : ∀ k ∈ limits, ∀ i, (h : i + k.most < (Log.after check start times).admitted.length) →
    (Log.after check start times).admitted[i] + k.window ≤
      (Log.after check start times).admitted[i + k.most]
  atMost : ∀ k ∈ limits, ∀ first, k.inWindow first (Log.after check start times).admitted ≤ k.most

/-- A kind of limiter that decides by the frames that count, as far as what it keeps is kept so that
`I` holds. -/
structure Counts (check : L → Nat → Bool × L) (limits : List Limit)
    (I : L → Nat → List Nat → Prop) : Prop where
  later : ∀ {l now next times}, I l now times → now ≤ next → I l next times
  admits : ∀ {l now times}, I l now times → Upto now times →
    ((check l now).1 = true ↔ ∀ k ∈ limits, k.recent now times < k.most)
  keeps : ∀ {l now times}, I l now times → Upto now times →
    I (check l now).2 now (if (check l now).1 then times ++ [now] else times)

theorem inWindow_snoc_le {k : Limit} (h : ∀ start, k.inWindow start times ≤ k.most)
    (hn : k.recent now times < k.most) (start : Nat) :
    k.inWindow start (times ++ [now]) ≤ k.most := by
  rw [Limit.inWindow, List.countP_append, List.countP_singleton]
  split
  · rename_i hin
    simp only [decide_eq_true_eq] at hin
    -- whatever else is in the window counts when this frame arrives
    have hle : k.inWindow start times ≤ k.recent now times :=
      List.countP_mono_left fun t _ ht => by
        simp only [decide_eq_true_eq] at ht ⊢
        omega
    exact Nat.lt_of_le_of_lt hle hn
  · exact h start

theorem apart_of_inWindow_le {k : Limit} (hs : times.Pairwise (· ≤ ·))
    (h : ∀ start, k.inWindow start times ≤ k.most) (i : Nat) (hi : i + k.most < times.length) :
    times[i] + k.window ≤ times[i + k.most] := by
  by_contra hlt
  have hall : ∀ t ∈ (times.drop i).take (k.most + 1),
      decide (times[i] ≤ t ∧ t < times[i] + k.window) = true := fun t ht => by
    obtain ⟨j, hj, rfl⟩ := List.mem_iff_getElem.1 ht
    simp only [List.length_take, List.length_drop] at hj
    rw [List.getElem_take, List.getElem_drop, decide_eq_true_eq]
    have hfirst := hs.rel_get_of_le (a := ⟨i, by omega⟩) (b := ⟨i + j, by omega⟩)
      (Fin.mk_le_mk.2 (Nat.le_add_right i j))
    have hlast := hs.rel_get_of_le (a := ⟨i + j, by omega⟩) (b := ⟨i + k.most, hi⟩)
      (Fin.mk_le_mk.2 (by omega))
    simp only [List.get_eq_getElem] at hfirst hlast
    omega
  have hcount := ((List.take_sublist (k.most + 1) _).trans
    (List.drop_sublist i times)).countP_le (p := fun t =>
      decide (times[i] ≤ t ∧ t < times[i] + k.window))
  rw [List.countP_eq_length.2 hall, List.length_take, List.length_drop] at hcount
  have hle : times.countP (fun t => decide (times[i] ≤ t ∧ t < times[i] + k.window)) ≤ k.most :=
    h times[i]
  omega

namespace Counts

variable {check : L → Nat → Bool × L} {limits : List Limit} {I : L → Nat → List Nat → Prop}
variable {start : L}

theorem after_snoc (times : List Nat) (now : Nat) : Log.after check start (times ++ [now]) =
    (Log.after check start times).arrive check now := by
  rw [Log.after, List.foldl_append]
  rfl

theorem after (h : Counts check limits I) (h0 : ∀ now, I start now []) (hu : Upto now times) :
    I (Log.after check start times).limiter now (Log.after check start times).admitted ∧
      Upto now (Log.after check start times).admitted ∧
      ∀ k ∈ limits, ∀ s, k.inWindow s (Log.after check start times).admitted ≤ k.most := by
  induction times using List.reverseRecOn generalizing now with
  | nil => exact ⟨h0 now, ⟨List.Pairwise.nil, fun _ h => nomatch h⟩, fun k _ s => Nat.zero_le _⟩
  | append_singleton times t ih =>
    have hnow : t ≤ now := hu.past t (by simp)
    obtain ⟨hI, hpast, hmost⟩ := ih (Upto.of_pairwise hu.sorted)
    have hkeeps := h.keeps hI hpast
    rw [after_snoc, Log.arrive]
    refine ⟨h.later hkeeps hnow, ?_, fun k hk s => ?_⟩
    · dsimp only
      split
      · exact hpast.snoc.later hnow
      · exact hpast.later hnow
    · dsimp only
      split
      · rename_i hok
        exact inWindow_snoc_le (hmost k hk) ((h.admits hI hpast).1 hok k hk) s
      · exact hmost k hk s

theorem exact (h : Counts check limits I) (h0 : ∀ now, I start now [])
    (hs : times.Pairwise (· ≤ ·)) : Exact check start limits times := by
  have hlast : Upto (times.foldr max 0) times := ⟨hs, fun t ht => by
    induction times with
    | nil => cases ht
    | cons u times ih =>
      rcases List.mem_cons.1 ht with rfl | ht
      · exact Nat.le_max_left ..
      · exact Nat.le_trans (ih (List.pairwise_cons.1 hs).2 ht) (Nat.le_max_right ..)⟩
  obtain ⟨-, hsorted, hmost⟩ := h.after h0 hlast
  refine ⟨fun before now rest e => ?_, fun before now rest e hno => ?_, fun k hk i hi => ?_, hmost⟩
  · obtain ⟨hI, hpast, -⟩ := h.after h0 (Upto.of_pairwise (e ▸ hs))
    exact h.admits hI hpast
  · obtain ⟨hI, hpast, hat⟩ := h.after h0 (Upto.of_pairwise (e ▸ hs))
    have hfull : ¬ ∀ k ∈ limits, k.recent now (Log.after check start before).admitted < k.most :=
      fun hall => by simp [(h.admits hI hpast).2 hall] at hno
    simp only [not_forall, Nat.not_lt] at hfull
    obtain ⟨k, hk, hle⟩ := hfull
    exact ⟨k, hk, Nat.le_antisymm (Nat.le_trans (hpast.recent_le k) (hat k hk _)) hle⟩
  · exact apart_of_inWindow_le hsorted.sorted (hmost k hk) i hi

end Counts

theorem counts_check (k : Limit) : Counts Limiter.check [k] (Keeps k) where
  later h hn := h.later hn
  admits h hu := by
    rw [List.forall_mem_singleton, ← h.hasRoom_evict hu, check]
    split <;> simp_all
  keeps h hu := by
    rw [check]
    split
    · exact (h.evict hu).record
    · exact h.evict hu

/-- Both limits keep the same frames in mind: those that both of them have admitted. -/
theorem counts_check_both (burst sustained : Limit) :
    Counts FrameLimiter.check [burst, sustained] fun l now times =>
      Keeps burst l.burst now times ∧ Keeps sustained l.sustained now times where
  later h hn := ⟨h.1.later hn, h.2.later hn⟩
  admits h hu := by
    rw [List.forall_mem_cons, List.forall_mem_singleton, ← h.1.hasRoom_evict hu,
      ← h.2.hasRoom_evict hu, FrameLimiter.check]
    dsimp only
    split
    · split <;> simp_all
    · simp_all
  keeps h hu := by
    have hburst := h.1.evict hu
    have hsustained := h.2.evict hu
    rw [FrameLimiter.check]
    dsimp only
    split
    · split
      · exact ⟨hburst.record, hsustained.record⟩
      · exact ⟨hburst, hsustained⟩
    -- the second limit has not been asked and forgets nothing
    · exact ⟨hburst, h.2⟩

/-- Frames that arrive in the order of time are admitted exactly as long as no window is full of
admitted frames, by two limits at once or by one. -/
theorem windows_exact (burst sustained : Limit) {times : List Nat}
    (hs : times.Pairwise (· ≤ ·)) :
    Exact FrameLimiter.check ⟨ofLimit burst, ofLimit sustained⟩ [burst, sustained] times ∧
      ∀ k : Limit, Exact Limiter.check (ofLimit k) [k] times :=
  ⟨(counts_check_both burst sustained).exact
      (fun now => ⟨Keeps.start burst now, Keeps.start sustained now⟩) hs,
    fun k => (counts_check k).exact (Keeps.start k) hs⟩

/-- The third frame finds the first window full and the last one the second; the fourth arrives when
the first has just left the window. -/
theorem windows_exact_full : [0, 60, 60, 100, 170].Pairwise (· ≤ ·) ∧
    (Log.after FrameLimiter.check ⟨.new 2 100, .new 3 1000⟩ [0, 60, 60, 100, 170]).admitted =
      [0, 60, 100] ∧
    Exact FrameLimiter.check ⟨.new 2 100, .new 3 1000⟩ [⟨2, 100⟩, ⟨3, 1000⟩]
      [0, 60, 60, 100, 170] :=
  ⟨by decide, by decide, (windows_exact ⟨2, 100⟩ ⟨3, 1000⟩ (by decide)).1⟩

end Cardroom.Limiter
