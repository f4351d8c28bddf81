import Cardroom.Proofs.Server.Countdowns
import Cardroom.Proofs.Server.Moves

namespace Cardroom

variable {σ : Type}

namespace Wire

variable {w v : Wire} {id : ConnId} {mine : Nat → Prop} {p : Payload}

/-! ### Order on the wire -/

def asked (w : Wire) : List Payload :=
  w.attempts.map (·.payload) ++ w.queue.map (·.payload)

/-- Every ticket in the line was issued, no two are the same, and no result is kept for any of them.
No countdown comes after a close, and there is a close only on a closed connection. -/
structure Tidy (id : ConnId) (w : Wire) : Prop where
  own : ∀ q ∈ w.queue, q.ticket.id = id
  fresh : ∀ q ∈ w.queue, q.ticket.number < w.issued
  nodup : (w.queue.map (·.ticket.number)).Nodup
  keptFresh : ∀ n r, w.kept n = some r → n < w.issued
  apart : ∀ q ∈ w.queue, w.kept q.ticket.number = none
  order : w.asked.Pairwise fun p q => p.isClose = true → q.isTimer = false
  shut : ∀ p ∈ w.asked, p.isClose = true → w.closed = true

namespace Tidy

variable (h : w.Tidy id)
include h

theorem pairwise_concat (hopen : w.closed = false) (p : Payload) :
    (w.asked ++ [p]).Pairwise fun p q => p.isClose = true → q.isTimer = false := by
  refine List.pairwise_append.2 ⟨h.order, List.pairwise_singleton _ _, fun q hq _ _ hclose => ?_⟩
  rw [h.shut q hq hclose] at hopen
  cases hopen

theorem shut_concat (p : Payload) :
    ∀ q ∈ w.asked ++ [p], q.isClose = true → (w.closed || p.isClose) = true := by
  intro q hq hclose
  rcases List.mem_append.1 hq with hq | hq
  · rw [h.shut q hq hclose, Bool.true_or]
  · rw [← List.mem_singleton.1 hq, hclose, Bool.or_true]

theorem now (hopen : w.closed = false) (hqueue : w.queue = []) (p : Payload)
    (r : Except TransportError Unit) : ((w.mark p.isClose).attempt p r).Tidy id := by
  have hasked : ((w.mark p.isClose).attempt p r).asked = w.asked ++ [p] := by
    simp [asked, attempt, mark, hqueue]
  exact ⟨h.own, h.fresh, h.nodup, h.keptFresh, h.apart, hasked ▸ h.pairwise_concat hopen p,
    hasked ▸ h.shut_concat p⟩

theorem later (hopen : w.closed = false) (p : Payload) :
    ((w.mark p.isClose).enqueue id p).Tidy id := by
  have hasked : ((w.mark p.isClose).enqueue id p).asked = w.asked ++ [p] := by
    simp [asked, enqueue, mark]
  have hall : ∀ {P : Request → Prop}, (∀ q ∈ w.queue, P q) → P ⟨⟨id, w.issued⟩, p⟩ →
      ∀ q ∈ ((w.mark p.isClose).enqueue id p).queue, P q := fun hP hnew q hq =>
    (List.mem_append.1 hq).elim (hP q) fun hq => List.mem_singleton.1 hq ▸ hnew
  refine ⟨hall h.own rfl, hall (fun q hq => Nat.lt_succ_of_lt (h.fresh q hq)) (Nat.lt_succ_self _),
    ?_, fun n r hn => Nat.lt_succ_of_lt (h.keptFresh n r hn), hall h.apart ?_,
    hasked ▸ h.pairwise_concat hopen p, hasked ▸ h.shut_concat p⟩
  · rw [enqueue, List.map_append, List.nodup_append]
    refine ⟨h.nodup, List.nodup_singleton _, fun n hn m hm e => ?_⟩
    obtain ⟨q, hq, rfl⟩ := List.mem_map.1 hn
    have hlt := h.fresh q hq
    rw [e, List.mem_singleton.1 hm] at hlt
    exact Nat.lt_irrefl _ hlt
  · cases hkept : w.kept w.issued with
    | none => exact hkept
    | some r => exact absurd (h.keptFresh _ r hkept) (Nat.lt_irrefl _)

theorem finish {q : Request} {rest : List Request} (hqueue : w.queue = q :: rest)
    (r : Except TransportError Unit) : (w.finish q rest r).Tidy id := by
  have hasked : (w.finish q rest r).asked = w.asked := by
    simp [asked, Wire.finish, attempt, hqueue]
  have hmem : ∀ x ∈ rest, x ∈ w.queue := fun x hx => hqueue ▸ List.mem_cons_of_mem q hx
  have hnodup := h.nodup
  rw [hqueue, List.map_cons, List.nodup_cons] at hnodup
  refine ⟨fun x hx => h.own x (hmem x hx), fun x hx => h.fresh x (hmem x hx), hnodup.2,
    fun n r' hn => ?_, fun x hx => ?_, hasked ▸ h.order, hasked ▸ h.shut⟩
  · simp only [Wire.finish, attempt, Function.update_apply] at hn
    split at hn
    · rename_i e
      exact e ▸ h.fresh q (hqueue ▸ List.mem_cons_self)
    · exact h.keptFresh n r' hn
  · have hne : x.ticket.number ≠ q.ticket.number := fun e =>
      hnodup.1 (List.mem_map.2 ⟨x, hx, e⟩)
    simp only [Wire.finish, Function.update_of_ne hne]
    exact h.apart x (hmem x hx)

theorem drop (n : Nat) : (w.drop n).Tidy id := by
  have hsub : (w.drop n).queue.Sublist w.queue := List.filter_sublist
  have hasked : (w.drop n).asked.Sublist w.asked := (hsub.map _).append_left _
  exact ⟨fun q hq => h.own q (hsub.subset hq), fun q hq => h.fresh q (hsub.subset hq),
    h.nodup.sublist (hsub.map _), h.keptFresh, fun q hq => h.apart q (hsub.subset hq),
    h.order.sublist hasked, fun p hp => h.shut p (hasked.subset hp)⟩

theorem take (n : Nat) : (w.take n).Tidy id := by
  have hkept : ∀ m r, (w.take n).kept m = some r → w.kept m = some r := fun m r hm => by
    simp only [Wire.take, Function.update_apply] at hm
    split at hm
    · cases hm
    · exact hm
  refine ⟨h.own, h.fresh, h.nodup, fun m r hm => h.keptFresh m r (hkept m r hm), fun q hq => ?_,
    h.order, h.shut⟩
  refine Option.eq_none_iff_forall_ne_some.2 fun r hr => ?_
  have hnone := h.apart q hq
  rw [hkept _ r hr] at hnone
  cases hnone

theorem pong (data : String) (r : Except TransportError Unit) :
    (w.attempt (.pong data) r).Tidy id := by
  have hasked : (w.attempt (.pong data) r).asked =
      w.attempts.map (·.payload) ++ .pong data :: w.queue.map (·.payload) := by
    simp [asked, attempt]
  refine ⟨h.own, h.fresh, h.nodup, h.keptFresh, h.apart, hasked ▸ ?_, hasked ▸ fun p hp => ?_⟩
  · obtain ⟨hbefore, hafter, hacross⟩ := List.pairwise_append.1 h.order
    have hhead : ∀ q ∈ w.queue.map (·.payload), (Payload.pong data).isClose = true →
        q.isTimer = false := fun _ _ hclose => absurd hclose Bool.false_ne_true
    refine List.pairwise_append.2 ⟨hbefore, List.pairwise_cons.2 ⟨hhead, hafter⟩, ?_⟩
    intro p hp q hq
    rcases List.mem_cons.1 hq with rfl | hq
    · exact fun _ => rfl
    · exact hacross p hp q hq
  · intro hclose
    refine h.shut p ?_ hclose
    rcases List.mem_append.1 hp with hp | hp
    · exact List.mem_append_left _ hp
    · rcases List.mem_cons.1 hp with rfl | hp
      · cases hclose
      · exact List.mem_append_right _ hp

theorem step (hs : Step id mine w v) : v.Tidy id := by
  cases hs with
  | now hp hopen hqueue r => exact h.now hopen hqueue _ r
  | later hp hopen => exact h.later hopen _
  | finish hqueue r => exact h.finish hqueue r
  | drop _ => exact h.drop _
  | take _ => exact h.take _
  | pong data r => exact h.pong data r

theorem steps (hs : Steps id mine w v) : v.Tidy id := by
  induction hs with
  | refl => exact h
  | tail _ hstep ih => exact ih.step hstep

end Tidy

/-! ### Timers on the wire -/

theorem isTimer_frame (c : Countdown) (n : Nat) : (Payload.frame (c.frame n)).isTimer = true := rfl

/-- The attempts that show a countdown. -/
def timers (w : Wire) : List Attempt := w.attempts.filter (·.payload.isTimer)

def pending (w : Wire) : List Request := w.queue.filter (·.payload.isTimer)

theorem timers_attempt (w : Wire) (p : Payload) (r : Except TransportError Unit) :
    (w.attempt p r).timers = if p.isTimer then w.timers ++ [⟨p, r⟩] else w.timers := by
  simp only [timers, attempt, List.filter_append]
  cases hp : p.isTimer <;> simp [hp]

theorem pending_enqueue (w : Wire) (id : ConnId) (p : Payload) :
    (w.enqueue id p).pending =
      if p.isTimer then w.pending ++ [⟨⟨id, w.issued⟩, p⟩] else w.pending := by
  simp only [pending, enqueue, List.filter_append]
  cases hp : p.isTimer <;> simp [hp]

theorem pending_drop (w : Wire) (n : Nat) :
    (w.drop n).pending = w.pending.filter (·.ticket.number ≠ n) := by
  simp only [pending, drop, List.filter_filter]
  exact List.filter_congr fun q _ => Bool.and_comm _ _

/-- What was written of a countdown: the values before the `index`-th, each not the last one and each
at its time, and the `index`-th if there was a result for it. -/
structure Counted (shape : Countdown) (start now index : Nat)
    (last : Option (Except TransportError Unit)) (w : Wire) : Prop where
  timers : w.timers = (List.range index).map (fun k => ⟨.frame (shape.frame k), .ok ()⟩) ++
    (last.map fun r => ⟨.frame (shape.frame index), r⟩).toList
  more : ∀ k < index, (shape.valueAt k).2 = true
  due : ∀ k < w.timers.length, start + k * shape.tick ≤ now

variable {shape : Countdown} {start now index : Nat} {last : Option (Except TransportError Unit)}
  {r : Except TransportError Unit} {stopped : Prop} {progress : Progress σ}

theorem Counted.congr (h : w.Counted shape start now index last) (hv : v.timers = w.timers) :
    v.Counted shape start now index last :=
  ⟨hv.trans h.timers, h.more, hv ▸ h.due⟩

theorem Counted.length (h : w.Counted shape start now index last) :
    w.timers.length = index + last.toList.length := by
  rw [h.timers]
  cases last <;> simp

theorem Counted.write (h : w.Counted shape start now index none)
    (hdue : start + index * shape.tick ≤ now)
    (hv : v.timers = w.timers ++ [⟨.frame (shape.frame index), r⟩]) :
    v.Counted shape start now index (some r) where
  timers := by
    rw [hv, h.timers]
    simp
  more := h.more
  due k hk := by
    rw [hv, List.length_append, h.length] at hk
    have hle : k ≤ index := by simpa [Nat.lt_succ_iff] using hk
    exact Nat.le_trans (Nat.add_le_add_left (Nat.mul_le_mul_right shape.tick hle) start) hdue

theorem Counted.next (h : w.Counted shape start now index (some (.ok ())))
    (hmore : (shape.valueAt index).2 = true) : w.Counted shape start now (index + 1) none where
  timers := by
    rw [h.timers, List.range_succ, List.map_append]
    simp
  more k hk := by
    rcases Nat.lt_succ_iff_lt_or_eq.1 hk with hk | rfl
    · exact h.more k hk
    · exact hmore
  due := h.due

/-- Where a countdown stands: it is on its way to the next value, it waits for a write that stands in
the line or is over, or it has ended, for the reason given. -/
inductive Told (stopped : Prop) (id : ConnId) (shape : Countdown) (start now : Nat) (w : Wire) :
    Nat → Progress σ → Prop where
  | ready {index : Nat} (h : w.Counted shape start now index none) (hpending : w.pending = []) :
    Told stopped id shape start now w index .ready
  | queued {index number : Nat} {resume : Except TransportError Unit → Script σ Next}
    (h : w.Counted shape start now index none)
    (hpending : w.pending = [⟨⟨id, number⟩, .frame (shape.frame index)⟩])
    (hdue : start + index * shape.tick ≤ now) :
    Told stopped id shape start now w index (.writing ⟨id, number⟩ resume)
  | written {index number : Nat} {resume : Except TransportError Unit → Script σ Next}
    {r : Except TransportError Unit} (h : w.Counted shape start now index (some r))
    (hpending : w.pending = []) (hkept : w.kept number = some r) :
    Told stopped id shape start now w index (.writing ⟨id, number⟩ resume)
  | ended {index : Nat} {last : Option (Except TransportError Unit)}
    (h : w.Counted shape start now index last) (hpending : w.pending = [])
    (hwhy : stopped ∨ (last = none ∧ w.closed = true) ∨
      ∃ r, last = some r ∧ (r.isOk = true → (shape.valueAt index).2 = false)) :
    Told stopped id shape start now w index .ended

namespace Told

theorem congr (h : w.Told stopped id shape start now index progress) (htimers : v.timers = w.timers)
    (hpending : v.pending = w.pending) (hclosed : w.closed = true → v.closed = true)
    (hkept : ∀ n r, ⟨id, n⟩ ∈ progress.tickets → w.kept n = some r → v.kept n = some r) :
    v.Told stopped id shape start now index progress := by
  cases h with
  | ready h hp => exact .ready (h.congr htimers) (hpending.trans hp)
  | queued h hp hdue => exact .queued (h.congr htimers) (hpending.trans hp) hdue
  | written h hp hk =>
    exact .written (h.congr htimers) (hpending.trans hp) (hkept _ _ (List.mem_singleton_self _) hk)
  | ended h hp hwhy =>
    exact .ended (h.congr htimers) (hpending.trans hp)
      (hwhy.imp_right (Or.imp_left (And.imp_right hclosed)))

theorem imp {stopped' : Prop} (h : w.Told stopped id shape start now index progress)
    (himp : stopped → stopped') : w.Told stopped' id shape start now index progress := by
  cases h with
  | ready h hp => exact .ready h hp
  | queued h hp hdue => exact .queued h hp hdue
  | written h hp hk => exact .written h hp hk
  | ended h hp hwhy => exact .ended h hp (hwhy.imp_left himp)

theorem wait {later : Nat} (h : w.Told stopped id shape start now index progress)
    (hle : now ≤ later) : w.Told stopped id shape start later index progress := by
  have hcounted : ∀ {last}, w.Counted shape start now index last →
      w.Counted shape start later index last := fun h =>
    ⟨h.timers, h.more, fun k hk => Nat.le_trans (h.due k hk) hle⟩
  cases h with
  | ready h hp => exact .ready (hcounted h) hp
  | queued h hp hdue => exact .queued (hcounted h) hp (Nat.le_trans hdue hle)
  | written h hp hk => exact .written (hcounted h) hp hk
  | ended h hp hwhy => exact .ended (hcounted h) hp hwhy

theorem finish (htidy : w.Tidy id) (h : w.Told stopped id shape start now index progress)
    {q : Request} {rest : List Request} (hqueue : w.queue = q :: rest)
    (r : Except TransportError Unit) :
    (w.finish q rest r).Told stopped id shape start now index progress := by
  have htimers : (w.finish q rest r).timers =
      if q.payload.isTimer then w.timers ++ [⟨q.payload, r⟩] else w.timers :=
    timers_attempt w q.payload r
  have hrest : w.pending = if q.payload.isTimer then q :: rest.filter (·.payload.isTimer)
      else rest.filter (·.payload.isTimer) := by
    rw [pending, hqueue, List.filter_cons]
  cases hq : q.payload.isTimer with
  | false =>
    rw [hq, if_neg Bool.false_ne_true] at htimers hrest
    refine h.congr htimers hrest.symm (fun hc => hc) fun n r' _ hn => ?_
    have hne : n ≠ q.ticket.number := by
      rintro rfl
      rw [htidy.apart q (hqueue ▸ List.mem_cons_self)] at hn
      cases hn
    simp only [Wire.finish, Function.update_of_ne hne]
    exact hn
  | true =>
    rw [hq, if_pos rfl] at htimers hrest
    cases h with
    | ready h hp => exact nomatch hrest.symm.trans hp
    | written h hp hk => exact nomatch hrest.symm.trans hp
    | ended h hp hwhy => exact nomatch hrest.symm.trans hp
    | queued h hp hdue =>
      obtain ⟨rfl, hnil⟩ := List.cons.inj (hrest.symm.trans hp)
      exact .written (h.write hdue htimers) hnil (by simp [Wire.finish])

theorem drop (h : w.Told stopped id shape start now index progress) {n : Nat}
    (hn : ⟨id, n⟩ ∉ progress.tickets) : (w.drop n).Told stopped id shape start now index progress := by
  refine h.congr rfl ?_ (fun hc => hc) fun _ _ _ hk => hk
  rw [pending_drop]
  cases h with
  | ready h hp => rw [hp]; rfl
  | written h hp hk => rw [hp]; rfl
  | ended h hp hwhy => rw [hp]; rfl
  | @queued number _ h hp hdue =>
    have hne : number ≠ n := by
      rintro rfl
      exact hn (List.mem_singleton_self _)
    rw [hp]
    simp [hne]

theorem step (htidy : w.Tidy id) (h : w.Told stopped id shape start now index progress)
    (hs : Step id (fun n => ⟨id, n⟩ ∈ progress.tickets) w v) :
    v.Told stopped id shape start now index progress := by
  cases hs with
  | now hp hopen hqueue r =>
    refine h.congr ?_ rfl (fun hc => ?_) fun _ _ _ hk => hk
    · rw [timers_attempt, hp, if_neg Bool.false_ne_true]
      rfl
    · rw [hopen] at hc
      cases hc
  | later hp hopen =>
    refine h.congr rfl ?_ (fun hc => ?_) fun _ _ _ hk => hk
    · rw [pending_enqueue, hp, if_neg Bool.false_ne_true]
      rfl
    · rw [hopen] at hc
      cases hc
  | finish hqueue r => exact h.finish htidy hqueue r
  | drop hn => exact h.drop hn
  | @take number hn =>
    refine h.congr rfl rfl (fun hc => hc) fun n r hmem hk => ?_
    have hne : n ≠ number := fun e => hn (e ▸ hmem)
    simp only [Wire.take, Function.update_of_ne hne]
    exact hk
  | pong data r =>
    refine h.congr ?_ rfl (fun hc => hc) fun _ _ _ hk => hk
    exact timers_attempt w (.pong data) r

theorem steps (htidy : w.Tidy id) (h : w.Told stopped id shape start now index progress)
    (hs : Steps id (fun n => ⟨id, n⟩ ∈ progress.tickets) w v) :
    v.Told stopped id shape start now index progress := by
  induction hs with
  | refl => exact h
  | tail hsteps hstep ih => exact ih.step (htidy.steps hsteps) hstep

/-! ### Turns of the countdown -/

theorem refuse (h : w.Told stopped id shape start now index (.ready : Progress σ))
    (hclosed : w.closed = true) :
    w.Told stopped id shape start now index (.ended : Progress σ) := by
  cases h with
  | ready h hp => exact .ended h hp (.inr (.inl ⟨rfl, hclosed⟩))

/-- The result of a write decides how the countdown goes on. -/
theorem counted (h : w.Counted shape start now index (some r)) (hpending : w.pending = []) :
    ∃ next, (Server.counted id shape start index r : Task σ).work = .countdown id shape start next ∧
      w.Told stopped id shape start now next
        (Server.counted id shape start index r : Task σ).progress := by
  unfold Server.counted
  cases r with
  | error e => exact ⟨index, rfl, .ended h hpending (.inr (.inr ⟨_, rfl, nofun⟩))⟩
  | ok _ =>
    cases hmore : (shape.valueAt index).2 with
    | true => exact ⟨index + 1, rfl, .ready (h.next hmore) hpending⟩
    | false => exact ⟨index, rfl, .ended h hpending (.inr (.inr ⟨_, rfl, fun _ => hmore⟩))⟩

theorem write_now (h : w.Told stopped id shape start now index (.ready : Progress σ))
    (hdue : start + index * shape.tick ≤ now) :
    (w.attempt (.frame (shape.frame index)) r).Counted shape start now index (some r) ∧
      (w.attempt (.frame (shape.frame index)) r).pending = [] := by
  cases h with
  | ready h hp => exact ⟨h.write hdue (timers_attempt w _ r), hp⟩

theorem write_later (h : w.Told stopped id shape start now index (.ready : Progress σ))
    (hdue : start + index * shape.tick ≤ now)
    (resume : Except TransportError Unit → Script σ Next) :
    (w.enqueue id (.frame (shape.frame index))).Told stopped id shape start now index
      (.writing ⟨id, w.issued⟩ resume) := by
  cases h with
  | ready h hp =>
    refine .queued (h.congr rfl) ?_ hdue
    rw [pending_enqueue, if_pos (isTimer_frame shape index), hp]
    rfl

theorem heard (htidy : w.Tidy id) {number : Nat}
    {resume : Except TransportError Unit → Script σ Next}
    (h : w.Told stopped id shape start now index (.writing ⟨id, number⟩ resume))
    (hkept : w.kept number = some r) :
    (w.take number).Counted shape start now index (some r) ∧ (w.take number).pending = [] := by
  cases h with
  | queued h hp hdue =>
    have hmem : (⟨⟨id, number⟩, .frame (shape.frame index)⟩ : Request) ∈ w.pending :=
      hp ▸ List.mem_singleton_self _
    have hnone := htidy.apart _ (List.mem_of_mem_filter hmem)
    rw [hkept] at hnone
    cases hnone
  | written h hp hk =>
    rw [hkept] at hk
    cases hk
    exact ⟨h.congr rfl, hp⟩

theorem stop (h : w.Told stopped id shape start now index progress) (hstopped : stopped) :
    (∀ number, ⟨id, number⟩ ∉ progress.tickets) ∧
        w.Told stopped id shape start now index (.ended : Progress σ) ∨
      ∃ number resume, progress = .writing ⟨id, number⟩ resume ∧
        (w.drop number).Told stopped id shape start now index (.ended : Progress σ) := by
  cases h with
  | ready h hp => exact .inl ⟨nofun, .ended h hp (.inl hstopped)⟩
  | ended h hp hwhy => exact .inl ⟨nofun, .ended h hp (.inl hstopped)⟩
  | queued h hp hdue =>
    refine .inr ⟨_, _, rfl, .ended (h.congr rfl) ?_ (.inl hstopped)⟩
    rw [pending_drop, hp]
    simp
  | written h hp hk =>
    refine .inr ⟨_, _, rfl, .ended (h.congr rfl) ?_ (.inl hstopped)⟩
    rw [pending_drop, hp]
    rfl

end Told

end Wire

end Cardroom
