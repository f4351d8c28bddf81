import Cardroom.Proofs.Server.Course

namespace Cardroom.Server

variable {σ : Type}

/-- The `i`-th task counts down for a connection. If no write to the connection had to wait since it
had been issued so many tickets, then the task is over or its next value is not due before so long. -/
structure Prompt (i : Nat) (id : ConnId) (shape : Countdown) (start tickets slack : Nat)
    (s : Server σ) : Prop where
  issued : tickets ≤ (s.issued.get? id).getD 0
  proper : ∀ k ∈ s.tasks, k.Proper
  task : ∃ index progress, s.tasks[i]? = some ⟨.countdown id shape start index, progress⟩ ∧
    ((s.issued.get? id).getD 0 = tickets → progress = .ended ∨
      progress = .ready ∧ s.now < start + index * shape.tick + slack)

variable {s t : Server σ} {i j : Nat} {id x : ConnId} {shape : Countdown}
  {start tickets slack : Nat} {k l : Task σ}

namespace Prompt

theorem mono (h : s.Prompt i id shape start tickets slack) {more : Nat} (hle : slack ≤ more) :
    s.Prompt i id shape start tickets more := by
  obtain ⟨index, progress, hi, htime⟩ := h.task
  refine ⟨h.issued, h.proper, index, progress, hi, fun hsame => (htime hsame).imp_right fun h => ?_⟩
  exact ⟨h.1, Nat.lt_of_lt_of_le h.2 (Nat.add_le_add_left hle _)⟩

theorem congr (h : s.Prompt i id shape start tickets slack) (htask : t.tasks[i]? = s.tasks[i]?)
    (hproper : ∀ k ∈ t.tasks, k.Proper) (hnow : t.now = s.now)
    (hissued : (s.issued.get? id).getD 0 ≤ (t.issued.get? id).getD 0) :
    t.Prompt i id shape start tickets slack := by
  obtain ⟨index, progress, hi, htime⟩ := h.task
  refine ⟨Nat.le_trans h.issued hissued, hproper, index, progress, htask.trans hi, fun hsame => ?_⟩
  rw [hnow]
  exact htime (Nat.le_antisymm (hsame ▸ hissued) h.issued)

theorem stays (h : s.Prompt i id shape start tickets slack) (hstays : s.Stays t) :
    t.Prompt i id shape start tickets slack :=
  h.congr (by rw [hstays.tasks]) (hstays.tasks ▸ h.proper) hstays.now (hstays.issued id)

theorem setOther (h : s.Prompt i id shape start tickets slack) (hij : i ≠ j) (hl : l.Proper) :
    (s.setTask j l).Prompt i id shape start tickets slack :=
  h.congr (List.getElem?_set_ne hij.symm)
    (fun m hm => (List.mem_or_eq_of_mem_set hm).elim (h.proper m) fun e => e ▸ hl) rfl (Nat.le_refl _)

theorem addTask (h : s.Prompt i id shape start tickets slack) {work : Work} {progress : Progress σ}
    (hprogress : progress.tickets = []) :
    (s.addTask work progress).Prompt i id shape start tickets slack := by
  refine h.congr ?_ (fun m hm => ?_) rfl (Nat.le_refl _)
  · obtain ⟨index, progress, hi, -⟩ := h.task
    exact List.getElem?_append_left (List.getElem?_eq_some_iff.1 hi).1
  · rcases List.mem_append.1 hm with hm | hm
    · exact h.proper m hm
    · rw [List.mem_singleton.1 hm]
      exact Task.proper_of_tickets hprogress

theorem ne_of_not_countdown (h : s.Prompt i id shape start tickets slack)
    (hj : s.tasks[j]? = some k) (hk : k.work.isCountdown = false) : i ≠ j := by
  rintro rfl
  obtain ⟨index, progress, hi, -⟩ := h.task
  cases hi.symm.trans hj
  cases hk

theorem setOwn (h : s.Prompt i id shape start tickets slack) {next more : Nat} {progress : Progress σ}
    (hstays : s.Stays t) (hproper : Task.Proper ⟨.countdown id shape start next, progress⟩)
    (htime : (t.issued.get? id).getD 0 = tickets → progress = .ended ∨
      progress = .ready ∧ s.now < start + next * shape.tick + more) :
    (t.setTask i ⟨.countdown id shape start next, progress⟩).Prompt i id shape start tickets more where
  issued := Nat.le_trans h.issued (hstays.issued id)
  proper m hm := (List.mem_or_eq_of_mem_set hm).elim (hstays.tasks ▸ h.proper m) fun e => e ▸ hproper
  task := by
    obtain ⟨index, old, hi, -⟩ := h.task
    have hlt : i < t.tasks.length := by
      rw [hstays.tasks]
      exact (List.getElem?_eq_some_iff.1 hi).1
    refine ⟨next, progress, List.getElem?_set_self hlt, ?_⟩
    change _ → _ ∨ _ ∧ t.now < _
    rw [hstays.now]
    exact htime

theorem endTask (h : s.Prompt i id shape start tickets slack) (j : Nat) :
    (s.endTask j).Prompt i id shape start tickets slack := by
  cases hj : s.tasks[j]? with
  | none =>
    unfold Server.endTask
    rw [hj]
    exact h
  | some k =>
    have hset : (s.setTask j ⟨k.work, .ended⟩).Prompt i id shape start tickets slack := by
      by_cases hij : i = j
      · subst hij
        obtain ⟨index, progress, hi, -⟩ := h.task
        cases hi.symm.trans hj
        exact h.setOwn (.refl s) (Task.proper_of_tickets rfl) fun _ => .inl rfl
      · exact h.setOther hij (Task.proper_of_tickets rfl)
    obtain ⟨e, -⟩ | ⟨ticket, resume, -, e⟩ := endTask_eq hj
    · exact e ▸ hset
    · exact e ▸ hset.stays (stays_cancel _ ticket)

theorem endLast (h : s.Prompt i id shape start tickets slack) (of : Work → Bool) :
    (s.endLast of).Prompt i id shape start tickets slack := by
  unfold Server.endLast
  split
  · exact h.endTask _
  · exact h

theorem abort (h : s.Prompt i id shape start tickets slack) (x : ConnId) :
    (s.abort x).Prompt i id shape start tickets slack :=
  (h.endLast _).endLast _

end Prompt

namespace Prompt

theorem countOther (h : s.Prompt i id shape start tickets slack) (hij : i ≠ j) {shape' : Countdown}
    {start' index : Nat} {progress : Progress σ} {run : Bool × Server σ}
    (hproper : Task.Proper ⟨.countdown x shape' start' index, progress⟩)
    (hcounts : s.Counts j x shape' start' index progress run) :
    run.2.Prompt i id shape start tickets slack := by
  cases hcounts with
  | ended => exact h
  | early _ => exact h
  | unheard _ => exact h
  | refused _ _ => exact h.setOther hij (Task.proper_of_tickets rfl)
  | @now r t _ _ e =>
    exact (h.stays (stays_of_ask e)).setOther hij (Task.proper_of_tickets (tickets_counted r))
  | @later ticket t _ hopen e =>
    refine (h.stays (stays_of_ask e)).setOther hij fun other resume e' => ?_
    cases e'
    exact ⟨congrArg Ticket.id (ticket_of_ask (isSome_of_open hopen) e).1, rfl⟩
  | @heard ticket resume r t htake =>
    exact (h.stays (stays_takeResult htake)).setOther hij (Task.proper_of_tickets (tickets_counted r))

/-- A countdown that is at most one millisecond late is no longer late after its turn. -/
theorem countOwn (h : s.Prompt i id shape start tickets 1) (htick : 0 < shape.tick) {index : Nat}
    {progress : Progress σ} {run : Bool × Server σ}
    (hi : s.tasks[i]? = some ⟨.countdown id shape start index, progress⟩)
    (hcounts : s.Counts i id shape start index progress run) :
    run.2.Prompt i id shape start tickets 0 := by
  have htime : (s.issued.get? id).getD 0 = tickets → progress = .ended ∨
      progress = .ready ∧ s.now < start + index * shape.tick + 1 := by
    obtain ⟨index', progress', hi', htime⟩ := h.task
    cases hi'.symm.trans hi
    exact htime
  -- Nobody had to wait before if nobody has had to wait up to now.
  have hbefore : ∀ {t : Server σ}, s.Stays t → (t.issued.get? id).getD 0 = tickets →
      (s.issued.get? id).getD 0 = tickets := fun hstays hsame =>
    Nat.le_antisymm (hsame ▸ hstays.issued id) h.issued
  have hcounted : ∀ {t : Server σ} (r : Except TransportError Unit), s.Stays t →
      ((t.issued.get? id).getD 0 = tickets → s.now < start + index * shape.tick + 1) →
      (t.setTask i (counted id shape start index r)).Prompt i id shape start tickets 0 := by
    intro t r hstays hnow
    unfold counted
    split
    · refine h.setOwn hstays (Task.proper_of_tickets rfl) fun hsame => .inr ⟨rfl, ?_⟩
      have hlt := hnow hsame
      rw [Nat.succ_mul]
      omega
    · exact h.setOwn hstays (Task.proper_of_tickets rfl) fun _ => .inl rfl
  cases hcounts with
  | ended => exact ⟨h.issued, h.proper, index, .ended, hi, fun _ => .inl rfl⟩
  | early hearly => exact ⟨h.issued, h.proper, index, .ready, hi, fun _ => .inr ⟨rfl, hearly⟩⟩
  | unheard htake =>
    exact ⟨h.issued, h.proper, index, _, hi, fun hsame => (htime hsame).imp_right fun h => nomatch h.1⟩
  | refused _ _ => exact h.setOwn (.refl s) (Task.proper_of_tickets rfl) fun _ => .inl rfl
  | now _ hopen e =>
    have hask := stays_of_ask e
    refine hcounted _ hask fun hsame => ?_
    obtain hended | ⟨-, hnow⟩ := htime (hbefore hask hsame)
    · cases hended
    · exact hnow
  | later _ hopen e =>
    have hask := stays_of_ask e
    obtain ⟨rfl, hwire⟩ := ticket_of_ask (isSome_of_open hopen) e
    refine h.setOwn hask (fun other resume e' => ?_) fun hsame => ?_
    · cases e'
      exact ⟨rfl, rfl⟩
    · have hissued : (Option.getD _ 0 : Nat) = _ + 1 := congrArg Wire.issued hwire
      have hold := hbefore hask hsame
      exact absurd (hsame.symm.trans hissued) (hold ▸ Nat.ne_of_lt (Nat.lt_succ_self _))
  | heard htake =>
    refine hcounted _ (stays_takeResult htake) fun hsame => ?_
    obtain hended | ⟨hready, -⟩ := htime (hbefore (stays_takeResult htake) hsame)
    · cases hended
    · cases hready

variable [RoomStore σ]

theorem runOther (h : s.Prompt i id shape start tickets slack) (hij : i ≠ j)
    (hj : s.tasks[j]? = some k) (hk : k.work.isCountdown = true) :
    (s.runTask j).2.Prompt i id shape start tickets slack := by
  obtain ⟨work, progress⟩ := k
  have hproper := h.proper _ (List.mem_of_getElem? hj)
  cases work with
  | countdown x shape' start' index => exact h.countOther hij hproper (counts_runTask hj rfl hproper)
  | _ => cases hk

theorem runOwn (h : s.Prompt i id shape start tickets 1) (htick : 0 < shape.tick) :
    (s.runTask i).2.Prompt i id shape start tickets 0 := by
  obtain ⟨index, progress, hi, -⟩ := h.task
  exact h.countOwn htick hi (counts_runTask hi rfl (h.proper _ (List.mem_of_getElem? hi)))

end Prompt

variable [RoomStore σ]

theorem lasting_prompt (htick : 0 < shape.tick) (hslack : slack ≤ 1) :
    Lasting fun (_ : List Ticket) (s : Server σ) => s.Prompt i id shape start tickets slack where
  subset _ h := h
  floor _ h := h.stays (.of_issued rfl rfl rfl rfl)
  ask _ _ h := h.stays (stays_ask ..)
  close _ h := h.stays (stays_askToClose ..)
  advanceLine x h := h.stays (stays_advanceLine _ x)
  takeResult hresult _ h := h.stays (stays_takeResult hresult)
  untimed h hk hwork := (Task.proper_iff hwork).1 (h.proper _ hk)
  setTask hj hfollows h := h.setOther (h.ne_of_not_countdown hj hfollows.before)
    ((Task.proper_iff hfollows.after).2 hfollows.untimed)
  endTask _ _ h := h.endTask _
  addTask _ hprogress h := h.addTask hprogress
  startCountdown _ h := h.addTask (tickets_startingProgress _)
  count {_ s j k} hj hk h := by
    by_cases hij : i = j
    · subst hij
      exact ((h.mono hslack).runOwn htick).mono (Nat.zero_le slack)
    · exact h.runOther hij hj hk
  clients _ h := h.congr rfl h.proper rfl (Nat.le_refl _)
  answerPing _ _ h := h.stays (.of_issued rfl rfl rfl rfl)

theorem prompt_runTasks (htick : 0 < shape.tick) {n : Nat} (hj : j ≤ i) (hn : i < j + n)
    (h : s.Prompt i id shape start tickets 1) :
    (s.runTasks j n).2.Prompt i id shape start tickets 0 := by
  -- up to its turn the task is late by a millisecond at most, and from then on not at all
  induction n generalizing s j with
  | zero => omega
  | succ n ih =>
    rw [runTasks]
    by_cases hij : j = i
    · subst hij
      exact @Lasting.runTasks _ _ [] _ _ (lasting_prompt htick (Nat.zero_le 1)) _ n (h.runOwn htick)
    · exact ih (by omega) (by omega)
        (@Lasting.runTask _ _ [] _ _ (lasting_prompt htick (Nat.le_refl 1)) j h)

/-- A countdown that is a millisecond late makes up for it in one pass. -/
theorem prompt_pass (htick : 0 < shape.tick) (h : s.Prompt i id shape start tickets 1) :
    s.pass.2.Prompt i id shape start tickets 0 := by
  have hlines := @Lasting.advanceLines _ _ [] _ _ (lasting_prompt htick (Nat.le_refl 1)) h
  obtain ⟨index, progress, hi, -⟩ := hlines.task
  have hlt : i < 0 + s.advanceLines.tasks.length := by
    rw [Nat.zero_add]
    exact (List.getElem?_eq_some_iff.1 hi).1
  have htasks := prompt_runTasks htick (Nat.zero_le i) hlt hlines
  exact @Lasting.reactClients _ _ [] _ _ (lasting_prompt htick (Nat.zero_le 1)) 0 _ htasks

theorem prompt_settle (htick : 0 < shape.tick) (h : s.Prompt i id shape start tickets 1) :
    s.settle.Prompt i id shape start tickets 0 := by
  have hpass := prompt_pass htick h
  obtain ⟨n, hn⟩ : ∃ n, passLimit = n + 1 := ⟨999999999, rfl⟩
  rw [settle, hn, settleWithin]
  generalize s.pass = passed at hpass ⊢
  obtain ⟨_ | _, t⟩ := passed
  · exact hpass
  · exact @Lasting.settleWithin _ _ [] _ _ (lasting_prompt htick (Nat.zero_le 1)) n hpass

theorem enduring_prompt (htick : 0 < shape.tick) :
    Enduring fun (_ : List Ticket) (s : Server σ) => s.Prompt i id shape start tickets 0 where
  toLasting := lasting_prompt htick (Nat.zero_le 1)
  tick {_ s} h := by
    have hlater : Prompt i id shape start tickets 1 { s with now := s.now + 1 } := by
      obtain ⟨index, progress, hi, htime⟩ := h.task
      refine ⟨h.issued, h.proper, index, progress, hi, fun hsame => (htime hsame).imp_right fun h => ?_⟩
      exact ⟨h.1, Nat.succ_lt_succ h.2⟩
    exact prompt_settle htick hlater
  connect _ _ h := h.stays (.of_issued rfl rfl rfl rfl)
  enter _ _ _ _ h := h.congr rfl h.proper rfl (Nat.le_refl _)
  turn _ _ h := h.stays (.of_issued rfl rfl rfl rfl)

/-- A countdown that is started when all else is done is prompt ever after. -/
theorem prompt_after (id : ConnId) (htick : 0 < shape.tick) (hproper : ∀ k ∈ s.tasks, k.Proper)
    (moves : List (Move σ)) :
    ((s.startCountdown id shape).settle.after moves).Prompt s.tasks.length id shape s.now
      ((s.issued.get? id).getD 0) 0 := by
  have hstart : (s.startCountdown id shape).Prompt s.tasks.length id shape s.now
      ((s.issued.get? id).getD 0) 1 := by
    refine ⟨Nat.le_refl _, fun k hk => ?_, 0, .ready, ?_, fun _ => .inr ⟨rfl, ?_⟩⟩
    · rcases List.mem_append.1 hk with hk | hk
      · exact hproper k hk
      · rw [List.mem_singleton.1 hk]
        exact Task.proper_of_tickets (tickets_startingProgress _)
    · rw [startCountdown, startingProgress, if_neg (Nat.ne_of_gt htick)]
      exact List.getElem?_concat_length
    · rw [Nat.zero_mul]
      exact Nat.lt_succ_self _
  exact (enduring_prompt htick).after moves
    (fun code x t ht => (enduring_prompt htick).joinTable code x
      (fun u hu => hu.addTask (tickets_startingProgress _)) ht)
    (fun x t ht => ht.abort x) (prompt_settle htick hstart)

end Cardroom.Server
