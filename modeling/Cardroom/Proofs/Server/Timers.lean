import Cardroom.Proofs.Server.Kept
import Cardroom.Proofs.Server.Prompt

namespace Cardroom

variable {σ : Type}

namespace Wire

variable {w : Wire} {id : ConnId} {shape : Countdown} {start now index : Nat} {stopped : Prop}
  {last : Option (Except TransportError Unit)} {progress : Progress σ}

def shown (w : Wire) : List Float := w.attempts.filterMap (·.payload.timer?)

def heard (w : Wire) : List Float := (w.attempts.filter (·.isDelivered)).filterMap (·.payload.timer?)

theorem filterMap_timer (attempts : List Attempt) :
    (attempts.filter (·.payload.isTimer)).filterMap (·.payload.timer?) =
      attempts.filterMap (·.payload.timer?) := by
  rw [List.filterMap_filter]
  refine List.filterMap_congr fun a _ => ?_
  unfold Payload.isTimer
  cases a.payload.timer? <;> rfl

theorem shown_eq (w : Wire) : w.shown = w.timers.filterMap (·.payload.timer?) :=
  (filterMap_timer w.attempts).symm

theorem heard_eq (w : Wire) :
    w.heard = (w.timers.filter (·.isDelivered)).filterMap (·.payload.timer?) := by
  rw [heard, ← filterMap_timer, timers, List.filter_comm]

def reached (shape : Countdown) (n : Nat) : Attempt := ⟨.frame (shape.frame n), .ok ()⟩

theorem filterMap_reached (n : Nat) :
    ((List.range n).map (reached shape)).filterMap (·.payload.timer?) =
      (List.range n).map fun k => (shape.valueAt k).1 := by
  rw [List.filterMap_map, ← List.filterMap_eq_map']
  rfl

theorem filter_reached (n : Nat) :
    ((List.range n).map (reached shape)).filter (·.isDelivered) = (List.range n).map (reached shape) :=
  List.filter_eq_self.2 fun a ha => by
    obtain ⟨k, -, rfl⟩ := List.mem_map.1 ha
    rfl

namespace Counted

theorem timers_cases (h : w.Counted shape start now index last) :
    w.timers = (List.range w.timers.length).map (reached shape) ∨
      ∃ e, w.timers = (List.range index).map (reached shape) ++
        [⟨.frame (shape.frame index), .error e⟩] := by
  have hlength := h.length
  rcases last with _ | e | _
  · refine .inl ?_
    rw [hlength, h.timers]
    exact List.append_nil _
  · exact .inr ⟨e, h.timers⟩
  · refine .inl ?_
    rw [hlength, h.timers]
    exact (congrArg (List.map (reached shape)) List.range_succ).trans List.map_append |>.symm

theorem more_of_lt (h : w.Counted shape start now index last) (k : Nat)
    (hk : k + 1 < w.timers.length) : (shape.valueAt k).2 = true := by
  refine h.more k ?_
  rw [h.length] at hk
  have hle : last.toList.length ≤ 1 := by cases last <;> simp
  omega

theorem values_eq (h : w.Counted shape start now index last) {n : Nat} (hn : n ≤ w.timers.length) :
    (shape.values n).1 = (List.range n).map fun k => (shape.valueAt k).1 :=
  Countdown.values_of_more fun k hk => h.more_of_lt k (Nat.lt_of_lt_of_le hk hn)

theorem shown (h : w.Counted shape start now index last) :
    w.shown = (shape.values w.timers.length).1 := by
  rw [shown_eq, h.values_eq (Nat.le_refl _)]
  obtain e | ⟨_, e⟩ := h.timers_cases
  · rw [e, filterMap_reached, List.length_map, List.length_range]
  · rw [e, List.filterMap_append, filterMap_reached, List.length_append, List.length_map,
      List.length_range, List.length_singleton, List.range_succ, List.map_append]
    rfl

theorem heard (h : w.Counted shape start now index last) :
    ∃ n ≤ w.timers.length, w.heard = (shape.values n).1 ∧
      ((∀ a ∈ w.timers, a.isDelivered = true) → n = w.timers.length) := by
  obtain e | ⟨_, e⟩ := h.timers_cases
  · refine ⟨w.timers.length, Nat.le_refl _, ?_, fun _ => rfl⟩
    rw [heard_eq, h.values_eq (Nat.le_refl _), e, filter_reached, filterMap_reached, List.length_map,
      List.length_range]
  · have hle : index ≤ w.timers.length := h.length ▸ Nat.le_add_right ..
    refine ⟨index, hle, ?_, fun hall => ?_⟩
    · rw [heard_eq, h.values_eq hle, e, List.filter_append, filter_reached]
      exact (congrArg _ (List.append_nil _)).trans (filterMap_reached index)
    · have hlast := hall _ (e ▸ List.mem_append_right _ (List.mem_singleton_self _))
      cases hlast

/-- No value follows one that has not reached the client. -/
theorem silent (h : w.Counted shape start now index last) :
    w.attempts.Pairwise fun a b =>
      a.payload.isTimer = true → a.isDelivered = false → b.payload.isTimer = false := by
  have hall : w.timers.Pairwise fun a _ => a.isDelivered = true := by
    have hreached : ∀ n, ((List.range n).map (reached shape)).Pairwise fun a _ =>
        a.isDelivered = true := fun n =>
      List.pairwise_map.2 (List.pairwise_of_forall fun _ _ => rfl)
    obtain e | ⟨_, e⟩ := h.timers_cases
    · rw [e]
      exact hreached _
    · rw [e]
      refine List.pairwise_append.2 ⟨hreached _, List.pairwise_singleton _ _, fun a ha _ _ => ?_⟩
      obtain ⟨k, -, rfl⟩ := List.mem_map.1 ha
      rfl
  refine (List.pairwise_filter.1 hall).imp fun {a b} hab ha hfailed => ?_
  cases hb : b.payload.isTimer with
  | false => rfl
  | true =>
    rw [hab ha hb] at hfailed
    cases hfailed

/-- No value comes before its time. -/
theorem length_le (h : w.Counted shape start now index last) (htick : 0 < shape.tick) :
    w.timers.length ≤ (now - start) / shape.tick + 1 := by
  cases hlength : w.timers.length with
  | zero => exact Nat.zero_le _
  | succ n =>
    have hdue := h.due n (by omega)
    exact Nat.succ_le_succ ((Nat.le_div_iff_mul_le htick).2 (by omega))

end Counted

/-- So many values are due when so much time has gone by since the start. -/
theorem due_eq {n : Nat} (htick : 0 < shape.tick) (hstart : start ≤ now)
    (hbefore : ∀ k < n, start + k * shape.tick ≤ now) (hnext : now < start + n * shape.tick) :
    n = (now - start) / shape.tick + 1 := by
  cases n with
  | zero => omega
  | succ n =>
    have hlast := hbefore n (Nat.lt_succ_self n)
    have hle : n ≤ (now - start) / shape.tick := (Nat.le_div_iff_mul_le htick).2 (by omega)
    have hlt : (now - start) / shape.tick < n + 1 := (Nat.div_lt_iff_lt_mul htick).2 (by omega)
    omega

theorem Told.exists_counted (h : w.Told stopped id shape start now index progress) :
    ∃ last, w.Counted shape start now index last := by
  cases h with
  | ready h => exact ⟨none, h⟩
  | queued h => exact ⟨none, h⟩
  | @written _ _ r h => exact ⟨some r, h⟩
  | @ended last h => exact ⟨last, h⟩

/-- A countdown that is neither stopped nor late has shown all the values that are due, if they could
reach the client. -/
theorem Told.heard_eq (h : w.Told stopped id shape start now index progress)
    (htick : 0 < shape.tick) (hstart : start ≤ now) (hgoing : ¬ stopped) (hopen : w.closed = false)
    (hworks : ∀ a ∈ w.timers, a.isDelivered = true)
    (hprompt : progress = .ended ∨ progress = .ready ∧ now < start + index * shape.tick) :
    w.heard = (shape.values ((now - start) / shape.tick + 1)).1 := by
  cases h with
  | ready h hp =>
    obtain hended | ⟨-, hnow⟩ := hprompt
    · cases hended
    · obtain ⟨n, -, hheard, hn⟩ := h.heard
      have hlength : w.timers.length = index := h.length
      have hdue := due_eq htick hstart (fun k hk => h.due k (hlength ▸ hk)) hnow
      rw [hheard, hn hworks, hlength, ← hdue]
  | queued h hp hdue => obtain hended | ⟨hready, -⟩ := hprompt <;> contradiction
  | written h hp hk => obtain hended | ⟨hready, -⟩ := hprompt <;> contradiction
  | @ended last h hp hwhy =>
    obtain hstopped | ⟨-, hclosed⟩ | ⟨r, rfl, hr⟩ := hwhy
    · exact absurd hstopped hgoing
    · rw [hopen] at hclosed
      cases hclosed
    · obtain ⟨n, -, hheard, hn⟩ := h.heard
      have hlength : w.timers.length = index + 1 := h.length
      have hok : r.isOk = true := by
        have hlast := hworks ⟨.frame (shape.frame index), r⟩
          (h.timers ▸ List.mem_append_right _ (List.mem_singleton_self _))
        cases r with
        | ok _ => rfl
        | error _ => cases hlast
      rw [hheard, hn hworks, hlength]
      exact (Countdown.values_of_last h.more (hr hok) (hlength ▸ h.length_le htick)).symm

end Wire

end Cardroom
