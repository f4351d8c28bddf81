import Cardroom.Proofs.Server.Wire

namespace Cardroom

variable {σ : Type}

namespace Countdown

variable {c : Countdown} {n m k : Nat}

theorem valuesFrom_of_more (h : ∀ k, k + 1 < n → (c.valueAt (m + k)).2 = true) :
    (c.valuesFrom m n).1 = (List.range n).map fun k => (c.valueAt (m + k)).1 := by
  induction n generalizing m with
  | zero => rfl
  | succ n ih =>
    rw [List.range_succ_eq_map, List.map_cons, List.map_map]
    unfold valuesFrom
    split
    · rename_i value hvalue
      cases n with
      | zero => simp [hvalue]
      | succ n =>
        have hmore := h 0 (by omega)
        rw [Nat.add_zero, hvalue] at hmore
        cases hmore
    · rename_i value hvalue
      have hrest := ih (m := m + 1) fun k hk => by
        rw [Nat.add_right_comm]
        exact h (k + 1) (by omega)
      simp only [hrest, Nat.add_zero, hvalue]
      refine congrArg _ (List.map_congr_left fun k _ => ?_)
      simp only [Function.comp_apply, Nat.succ_eq_add_one]
      rw [Nat.add_right_comm, Nat.add_assoc]

theorem valuesFrom_of_last (h : ∀ k < n, (c.valueAt (m + k)).2 = true)
    (hlast : (c.valueAt (m + n)).2 = false) (extra : Nat) :
    (c.valuesFrom m (n + 1 + extra)).1 = (c.valuesFrom m (n + 1)).1 := by
  induction n generalizing m with
  | zero =>
    obtain ⟨value, hvalue⟩ : ∃ value, c.valueAt m = (value, false) := ⟨_, Prod.ext rfl hlast⟩
    rw [Nat.zero_add, Nat.add_comm 1 extra]
    simp only [valuesFrom, hvalue]
  | succ n ih =>
    obtain ⟨value, hvalue⟩ : ∃ value, c.valueAt m = (value, true) :=
      ⟨_, Prod.ext rfl (h 0 (by omega))⟩
    have hrest := ih (m := m + 1)
      (fun k hk => by rw [Nat.add_right_comm]; exact h (k + 1) (by omega))
      (by rw [Nat.add_right_comm]; exact hlast)
    rw [show n + 1 + 1 + extra = n + 1 + extra + 1 by omega]
    simp only [valuesFrom, hvalue] at hrest ⊢
    rw [hrest]

theorem values_of_more (h : ∀ k, k + 1 < n → (c.valueAt k).2 = true) :
    (c.values n).1 = (List.range n).map fun k => (c.valueAt k).1 := by
  rw [values, valuesFrom_of_more fun k hk => by rw [Nat.zero_add]; exact h k hk]
  simp only [Nat.zero_add]

theorem values_of_last (h : ∀ k < n, (c.valueAt k).2 = true) (hlast : (c.valueAt n).2 = false)
    (hm : n + 1 ≤ m) : (c.values m).1 = (c.values (n + 1)).1 := by
  obtain ⟨extra, rfl⟩ := Nat.exists_eq_add_of_le hm
  refine valuesFrom_of_last (fun k hk => ?_) ?_ extra
  · rw [Nat.zero_add]
    exact h k hk
  · rw [Nat.zero_add]
    exact hlast

/-- What a countdown does when its `n`-th value has been written. -/
def nextAfter (c : Countdown) (n : Nat) : Next := if (c.valueAt n).2 then .again else .finish

end Countdown

/-- A countdown waits for its own writes only, any other task for nothing that has to do with time. -/
def Task.Proper (k : Task σ) : Prop :=
  ∀ ticket resume, k.progress = .writing ticket resume →
    match k.work with
    | .countdown id shape _ index =>
      ticket.id = id ∧ resume = Server.afterWrite (shape.nextAfter index)
    | _ => ∀ r, (resume r).Untimed

theorem Task.proper_iff {k : Task σ} (h : k.work.isCountdown = false) : k.Proper ↔ k.Untimed := by
  unfold Task.Proper Task.Untimed
  cases hwork : k.work with
  | countdown id shape start index =>
    rw [hwork] at h
    cases h
  | ping id interval due => rfl
  | attend client phase => rfl

theorem Task.proper_of_tickets {k : Task σ} (h : k.progress.tickets = []) : k.Proper :=
  fun ticket resume hk => by
    rw [hk] at h
    cases h

theorem Task.Proper.id_of_mem {k : Task σ} {id : ConnId} {shape : Countdown} {start index : Nat}
    {ticket : Ticket} (h : k.Proper) (hwork : k.work = .countdown id shape start index)
    (hticket : ticket ∈ k.progress.tickets) : ticket.id = id := by
  cases hprogress : k.progress with
  | writing other resume =>
    have hown := h other resume hprogress
    rw [hwork] at hown
    rw [hprogress] at hticket
    rw [List.mem_singleton.1 hticket]
    exact hown.1
  | ready => rw [hprogress] at hticket; cases hticket
  | ended => rw [hprogress] at hticket; cases hticket

namespace Server

variable {s t : Server σ} {id : ConnId} {shape : Countdown} {start index i : Nat} {k : Task σ}

theorem isCountdownOf_iff {work : Work} :
    isCountdownOf id work = true ↔ ∃ shape start index, work = .countdown id shape start index := by
  cases work <;> simp [isCountdownOf]

theorem not_isCountdownOf {work : Work} (h : work.isCountdown = false) :
    isCountdownOf id work = false := by
  cases work with
  | countdown _ _ _ _ => cases h
  | _ => rfl

theorem isCountdownOf_countdown {x : ConnId} (h : x ≠ id) :
    isCountdownOf id (.countdown x shape start index) = false :=
  decide_eq_false h

def counted (id : ConnId) (shape : Countdown) (start index : Nat) (r : Except TransportError Unit) :
    Task σ :=
  if r.isOk && (shape.valueAt index).2 then ⟨.countdown id shape start (index + 1), .ready⟩
  else ⟨.countdown id shape start index, .ended⟩

theorem tickets_counted (r : Except TransportError Unit) :
    (counted id shape start index r : Task σ).progress.tickets = [] := by
  unfold counted
  split <;> rfl

theorem work_counted (r : Except TransportError Unit) :
    ∃ next, (counted id shape start index r : Task σ).work = .countdown id shape start next := by
  unfold counted
  split
  · exact ⟨_, rfl⟩
  · exact ⟨_, rfl⟩

inductive Counts (s : Server σ) (i : Nat) (id : ConnId) (shape : Countdown) (start index : Nat) :
    Progress σ → Bool × Server σ → Prop where
  | ended : Counts s i id shape start index .ended (false, s)
  | early (h : s.now < start + index * shape.tick) :
    Counts s i id shape start index .ready (false, s)
  | refused (hdue : start + index * shape.tick ≤ s.now) (hclosed : s.floor.isClosed id = true) :
    Counts s i id shape start index .ready
      (true, s.setTask i ⟨.countdown id shape start index, .ended⟩)
  | now {r : Except TransportError Unit} {t : Server σ}
    (hdue : start + index * shape.tick ≤ s.now) (hopen : s.floor.isClosed id = false)
    (hask : s.ask id (.frame (shape.frame index)) = (.inl r, t)) :
    Counts s i id shape start index .ready (true, t.setTask i (counted id shape start index r))
  | later {ticket : Ticket} {t : Server σ} (hdue : start + index * shape.tick ≤ s.now)
    (hopen : s.floor.isClosed id = false)
    (hask : s.ask id (.frame (shape.frame index)) = (.inr ticket, t)) :
    Counts s i id shape start index .ready (true, t.setTask i
      ⟨.countdown id shape start index, .writing ticket (afterWrite (shape.nextAfter index))⟩)
  | unheard {ticket : Ticket} {resume : Except TransportError Unit → Script σ Next}
    (h : s.takeResult? ticket = none) :
    Counts s i id shape start index (.writing ticket resume) (false, s)
  | heard {ticket : Ticket} {resume : Except TransportError Unit → Script σ Next}
    {r : Except TransportError Unit} {t : Server σ} (h : s.takeResult? ticket = some (r, t)) :
    Counts s i id shape start index (.writing ticket resume)
      (true, t.setTask i (counted id shape start index r))

theorem goOn_afterWrite (s : Server σ) (i : Nat) (r : Except TransportError Unit) :
    s.goOn i (.countdown id shape start index) (afterWrite (shape.nextAfter index) r) =
      s.setTask i (counted id shape start index r) := by
  unfold counted Countdown.nextAfter
  cases r with
  | error e => rfl
  | ok _ => cases (shape.valueAt index).2 <;> rfl

section

variable {work : Work} {p : Payload} {next : Except TransportError Unit → Script σ Next}

theorem goOn_write_of_closed (h : s.floor.isClosed id = true) :
    s.goOn i work (.write id p next) = s.goOn i work (next (.error .closed)) := by
  rw [goOn, drive, if_pos h, goOn]

theorem goOn_write_now (h : s.floor.isClosed id = false) {r : Except TransportError Unit}
    (hask : s.ask id p = (.inl r, t)) :
    s.goOn i work (.write id p next) = t.goOn i work (next r) := by
  rw [goOn, drive, if_neg (by simp [h]), hask, goOn]

theorem goOn_write_later (h : s.floor.isClosed id = false) {ticket : Ticket}
    (hask : s.ask id p = (.inr ticket, t)) :
    s.goOn i work (.write id p next) = t.setTask i ⟨work, .writing ticket next⟩ := by
  rw [goOn, drive, if_neg (by simp [h]), hask]

end

variable [RoomStore σ]

/-- All that a turn of a countdown can do. -/
theorem counts_runTask (hi : s.tasks[i]? = some k) (hwork : k.work = .countdown id shape start index)
    (hproper : k.Proper) : s.Counts i id shape start index k.progress (s.runTask i) := by
  obtain ⟨work, progress⟩ := k
  cases hwork
  unfold runTask
  rw [hi]
  cases progress with
  | ended => exact .ended
  | ready =>
    dsimp only
    unfold script?
    by_cases hdue : start + index * shape.tick ≤ s.now
    · simp only [hdue, if_true]
      rw [writeOrFinish_eq]
      change Counts s i id shape start index .ready (true, s.goOn i _ (.write id
        (.frame (shape.frame index)) (afterWrite (shape.nextAfter index))))
      cases hclosed : s.floor.isClosed id with
      | true =>
        rw [goOn_write_of_closed hclosed]
        exact .refused hdue hclosed
      | false =>
        rcases hask : s.ask id (.frame (shape.frame index)) with ⟨r | ticket, t⟩
        · rw [goOn_write_now hclosed hask, goOn_afterWrite]
          exact .now hdue hclosed hask
        · rw [goOn_write_later hclosed hask]
          exact .later hdue hclosed hask
    · simp only [hdue, if_false]
      exact .early (by omega)
  | writing ticket resume =>
    obtain ⟨-, hresume⟩ := hproper ticket resume rfl
    dsimp only
    cases htake : s.takeResult? ticket with
    | none => exact .unheard htake
    | some taken =>
      obtain ⟨r, t⟩ := taken
      dsimp only
      rw [hresume, goOn_afterWrite]
      exact .heard htake

end Server

end Cardroom
