import Cardroom.Proofs.Server.Timers
/-!
The countdown that goes with joining a table. Whatever happens, the client receives the first values of
the countdown, each of them once and none before its time, and none after the last one, after one that
did not reach it, or after a close. As long as the connection is open, takes its timers and is not
left by its countdown, it has received all that are due whenever nothing is left to do and no write is
under way; and no turn of a countdown takes anybody off the floor (`Server.countdown_stream`). A value
may be due while an earlier write still takes its time (`Server.not_received_when_due`).
-/

namespace Cardroom

variable {σ : Type}

namespace Server

variable {s t u : Server σ} {id x : ConnId} {w : Watch} {i j n : Nat} {k : Task σ}

theorem received_timers (s : Server σ) (id : ConnId) :
    (s.floor.received id).filterMap Payload.timer? = (s.wire id).heard := by
  rw [Wire.heard, wire, Floor.received]
  cases s.floor.connection? id with
  | none => rfl
  | some c =>
    change c.received.filterMap _ = (c.attempts.reverse.filter _).filterMap _
    rw [Connection.received, Connection.receivedSince, Nat.sub_zero, List.take_length,
      List.filter_reverse, ← List.map_reverse, List.filterMap_map]
    rfl

/-! ### Who stays on the floor -/

/-- Nobody comes or goes and nobody is closed; of the floor, only what was sent to the connections
changes. -/
structure Harmless (s t : Server σ) : Prop where
  floor : t.floor = { s.floor with connections := t.floor.connections }
  keys : t.floor.connections.keys = s.floor.connections.keys
  closed : ∀ x, t.floor.isClosed x = s.floor.isClosed x

namespace Harmless

theorem refl (s : Server σ) : s.Harmless s := ⟨rfl, rfl, fun _ => rfl⟩

theorem trans (hst : s.Harmless t) (htu : t.Harmless u) : s.Harmless u where
  floor := by rw [htu.floor, hst.floor]
  keys := htu.keys.trans hst.keys
  closed x := (htu.closed x).trans (hst.closed x)

theorem of_floor (h : t.floor = s.floor) : s.Harmless t := ⟨by rw [h], by rw [h], fun _ => by rw [h]⟩

end Harmless

theorem harmless_react (s : Server σ) (id : ConnId) : s.Harmless (s.react id).2.2 :=
  have htouches := touches_react s id
  ⟨htouches.floor, htouches.keys, fun x => congrArg Wire.closed (wire_react s id x)⟩

theorem harmless_record (s : Server σ) (id : ConnId) (p : Payload) (r : Reaction) :
    s.Harmless (s.record id p r).2 := by
  have htouches := touches_record s id p r
  refine ⟨htouches.floor, htouches.keys, fun x => ?_⟩
  cases hc : s.floor.connection? id with
  | none =>
    rw [record, hc]
  | some c =>
    have hwire := congrArg Wire.closed (wire_record hc p r x)
    refine hwire.trans ?_
    split <;> rfl

theorem harmless_giveTurns (s : Server σ) (id : ConnId) (waiting : List Request) :
    s.Harmless (s.giveTurns id waiting) := by
  induction waiting generalizing s with
  | nil => exact .of_floor rfl
  | cons q waiting ih =>
    have hreact := harmless_react s id
    rw [giveTurns]
    generalize s.react id = reacted at hreact ⊢
    obtain ⟨r, duration, t⟩ := reacted
    dsimp only
    split
    · have hkeep : (t.record id q.payload r).2.Harmless ((t.record id q.payload r).2.keepResult
          q.ticket (t.record id q.payload r).1) := .of_floor rfl
      exact hreact.trans ((harmless_record ..).trans (hkeep.trans (ih _)))
    · exact hreact.trans (.of_floor rfl)

/-- Nor does the end of a write take anybody off the floor. -/
theorem harmless_advanceLine (s : Server σ) (id : ConnId) : s.Harmless (s.advanceLine id) := by
  unfold advanceLine
  split
  · exact .refl s
  · split
    · rename_i line _ _
      have hrecord := harmless_record s id line.current.request.payload line.current.reaction
      generalize s.record id line.current.request.payload line.current.reaction = recorded
        at hrecord ⊢
      have hkeep : recorded.2.Harmless
          (recorded.2.keepResult line.current.request.ticket recorded.1) := .of_floor rfl
      exact hrecord.trans (hkeep.trans (harmless_giveTurns ..))
    · exact .refl s

theorem harmless_ask (s : Server σ) (id : ConnId) (p : Payload) : s.Harmless (s.ask id p).2 := by
  unfold ask
  split
  · exact .of_floor rfl
  · have hreact := harmless_react s id
    generalize s.react id = reacted at hreact ⊢
    obtain ⟨r, duration, t⟩ := reacted
    dsimp only
    split
    · exact hreact.trans (harmless_record t id p r)
    · exact hreact.trans (.of_floor rfl)

/-- A turn of a countdown takes nobody off the floor, whether its write fails or not. -/
theorem harmless_count [RoomStore σ] (hi : s.tasks[i]? = some k) (hk : k.work.isCountdown = true)
    (hproper : k.Proper) : s.Harmless (s.runTask i).2 := by
  obtain ⟨work, progress⟩ := k
  cases work with
  | countdown x shape start index =>
    have hask := harmless_ask s x (.frame (shape.frame index))
    have hcounts := counts_runTask hi rfl hproper
    generalize s.runTask i = run at hcounts ⊢
    cases hcounts with
    | ended => exact .refl s
    | early _ => exact .refl s
    | unheard _ => exact .refl s
    | refused _ _ => exact .of_floor rfl
    | now _ _ e =>
      rw [e] at hask
      exact hask.trans (.of_floor rfl)
    | later _ _ e =>
      rw [e] at hask
      exact hask.trans (.of_floor rfl)
    | heard htake =>
      obtain ⟨r, -, e⟩ := Option.map_eq_some_iff.1 htake
      cases e
      exact .of_floor rfl
  | _ => cases hk

/-! ### When nothing is left to do -/

theorem wire_queue_eq_nil_iff : (s.wire id).queue = [] ↔ s.lines.get? id = none := by
  rw [wire]
  cases s.lines.get? id with
  | none => exact iff_of_true rfl rfl
  | some line => exact iff_of_false (List.cons_ne_nil _ _) (Option.some_ne_none line)

theorem foldl_advanceLine (hs : s.Wired) (ids : List ConnId) (hqueue : (s.wire id).queue = []) :
    (ids.foldl advanceLine s).wire id = s.wire id := by
  induction ids generalizing s with
  | nil => rfl
  | cons x ids ih =>
    have hx : (s.advanceLine x).wire id = s.wire id := by
      by_cases hid : id = x
      · subst hid
        rw [advanceLine, wire_queue_eq_nil_iff.1 hqueue]
      · exact (touches_advanceLine hs x).others id hid
    rw [List.foldl_cons, ih ((touches_advanceLine hs x).wired hs) (hx ▸ hqueue), hx]

variable [RoomStore σ]

theorem runTask_idle (h : (s.runTask i).1 = false) : (s.runTask i).2 = s := by
  unfold runTask at h ⊢
  cases hi : s.tasks[i]? with
  | none => rfl
  | some k =>
    obtain ⟨work, progress⟩ := k
    simp only [hi] at h
    cases progress with
    | ended => rfl
    | ready =>
      cases hscript : s.script? work with
      | none => simp only [hscript]
      | some started =>
        simp only [hscript] at h
        cases h
    | writing ticket resume =>
      cases htake : s.takeResult? ticket with
      | none => simp only [htake]
      | some taken =>
        simp only [htake] at h
        cases h

theorem runTask_of_runTasks (h : (s.runTasks j n).1 = false) (hj : j ≤ i) (hn : i < j + n) :
    (s.runTask i).1 = false := by
  induction n generalizing s j with
  | zero => omega
  | succ n ih =>
    rw [runTasks] at h
    obtain ⟨hfirst, hrest⟩ := Bool.or_eq_false_iff.1 h
    by_cases hij : j = i
    · exact hij ▸ hfirst
    · rw [runTask_idle hfirst] at hrest
      exact ih hrest (by omega) (by omega)

/-- When nothing is left to do, a countdown that does not wait has ended or is not due. -/
theorem not_late_of_rest (h : OnCourse w [] s) (hrest : s.pass.1 = false)
    (hline : s.lines.get? w.id = none) (hk : k ∈ s.tasks) {shape : Countdown} {start index : Nat}
    (hwork : k.work = .countdown w.id shape start index) {stopped : Prop}
    (htold : (s.wire w.id).Told stopped w.id shape start s.now index k.progress) :
    k.progress = .ended ∨ k.progress = .ready ∧ s.now < start + index * shape.tick := by
  obtain ⟨i, hi⟩ := List.mem_iff_getElem?.1 hk
  have hstays := stays_advanceLines s
  have hi' : s.advanceLines.tasks[i]? = some k := by rw [hstays.tasks, hi]
  have hwire : s.advanceLines.wire w.id = s.wire w.id :=
    foldl_advanceLine h.wired s.lines.keys (wire_queue_eq_nil_iff.2 hline)
  have hidle : (s.advanceLines.runTask i).1 = false := by
    refine runTask_of_runTasks (j := 0) (n := s.advanceLines.tasks.length) ?_ (Nat.zero_le i) ?_
    · exact (Bool.or_eq_false_iff.1 hrest).1
    · rw [Nat.zero_add]
      exact (List.getElem?_eq_some_iff.1 hi').1
  have hcounts := counts_runTask hi' hwork (h.proper k hk)
  generalize s.advanceLines.runTask i = run at hidle hcounts
  generalize k.progress = progress at htold hcounts ⊢
  cases hcounts with
  | ended => exact .inl rfl
  | early hearly => exact .inr ⟨rfl, hstays.now ▸ hearly⟩
  | unheard htake =>
    -- The write of such a countdown would stand in the line, or its result would be there.
    cases htold with
    | queued _ hp _ =>
      rw [Wire.pending, wire_queue_eq_nil_iff.2 hline] at hp
      cases hp
    | @written number _ _ _ _ hkept =>
      have hresult : ∃ t, s.advanceLines.takeResult? ⟨w.id, number⟩ = some (_, t) :=
        takeResult?_of_kept (hwire ▸ hkept)
      obtain ⟨t, ht⟩ := hresult
      rw [htake] at ht
      cases ht
  | refused _ _ => cases hidle
  | now _ _ _ => cases hidle
  | later _ _ _ => cases hidle
  | heard _ => cases hidle

/-! ### Joining a table -/

omit [RoomStore σ] in
theorem starts_startCountdown (s : Server σ) (id : ConnId) (shape : Countdown) :
    ((s.startCountdown id shape).countdowns id).map Task.start =
      (s.countdowns id).map Task.start ++ [s.now] := by
  have hof : isCountdownOf id (.countdown id shape s.now 0) = true := decide_eq_true rfl
  rw [startCountdown, countdowns_addTask, if_pos hof, List.map_append]
  rfl

theorem after_join {before : List (Move σ)} {code : RoomCode}
    (hknown : ((s.after before).floor.connection? id).isSome = true)
    (after : List (Move σ)) :
    s.after (before ++ .joins code id :: after) =
      ((s.after before).joinTable code id).2.after after := by
  rw [after_append, after_cons, step, if_pos hknown]

section

variable {code : RoomCode} {start : Nat} (htick : 0 < w.config.countdownTick) (h : OnCourse w [] s)
  (hknown : (s.floor.connection? w.id).isSome = true)
  (hjoin : s.perform (Tableside.join code w.id) = (some (.ok ()), t))
include htick h hknown hjoin

theorem onCourse_perform : OnCourse { w with opened := True } [] t := by
  have hopened : OnCourse { w with opened := True } [] s :=
    h.rewatch id (fun _ => hknown) h.starts h.only
  have hkeeps : Enduring (OnCourse { w with opened := True } : List Ticket → Server σ → Prop) :=
    enduring_onCourse htick
  have hperform := hkeeps.perform hkeeps.tick (Tableside.untimed_join code w.id) hopened
  rw [hjoin] at hperform
  exact hperform

theorem joinTable_eq : (s.joinTable code w.id).2 =
    (t.startCountdown w.id (countdownShape w.config)).settle := by
  rw [joinTable, hjoin]
  exact congrArg (fun c => (t.startCountdown w.id (countdownShape c)).settle)
    (onCourse_perform htick h hknown hjoin).configured

/-- Joining a table adds a countdown that starts when the join is over. -/
theorem onCourse_join (hmore : ¬ w.only) :
    OnCourse { w with base := (t.countdowns w.id).map Task.start ++ [t.now] } []
      (s.joinTable code w.id).2 := by
  have ht := onCourse_perform htick h hknown hjoin
  have hstart := ht.startCountdown (x := w.id) htick fun _ => ⟨.inr (ht.opened trivial), hmore⟩
  rw [ht.configured] at hstart
  have hadded : OnCourse { w with base := (t.countdowns w.id).map Task.start ++ [t.now] } []
      (t.startCountdown w.id (countdownShape w.config)) :=
    hstart.rewatch id (fun _ => hstart.opened trivial) (t.starts_startCountdown w.id _ ▸ List.prefix_rfl)
      fun honly => absurd honly hmore
  rw [joinTable_eq htick h hknown hjoin]
  refine (lasting_onCourse ?_).settle hadded
  exact htick

/-- A connection that joins once, and not through a web socket, counts down once. -/
theorem countdowns_of_join (hnone : s.countdowns w.id = []) (hclients : ∀ c ∈ s.clients, c.id ≠ w.id)
    {moves : List (Move σ)} (hmoves : ∀ code, .joins code w.id ∉ moves) :
    (((s.joinTable code w.id).2.after moves).countdowns w.id).map Task.start = [t.now] := by
  have honly : OnCourse { w with only := True, base := [] } [] s :=
    h.rewatch id h.opened List.nil_prefix fun _ => ⟨hknown, congrArg _ hnone, hclients⟩
  have ht := onCourse_perform (w := { w with only := True, base := [] }) htick honly hknown hjoin
  obtain ⟨hthere, hstarts, hothers⟩ := ht.only trivial
  have hmany : OnCourse { w with opened := True, only := False, base := [] } [] t :=
    ht.rewatch id (fun _ => hthere) List.nil_prefix nofun
  have hstart := hmany.startCountdown (x := w.id) htick fun _ => ⟨.inr hthere, not_false⟩
  rw [hmany.configured] at hstart
  have hbase : ((t.startCountdown w.id (countdownShape w.config)).countdowns w.id).map Task.start =
      [t.now] := by
    rw [starts_startCountdown, hstarts]
    rfl
  have hadded : OnCourse { w with only := True, base := [t.now] } []
      (t.startCountdown w.id (countdownShape w.config)).settle := by
    refine (lasting_onCourse ?_).settle (hstart.rewatch id (fun _ => hthere)
      (hbase ▸ List.prefix_rfl) fun _ => ⟨hthere, hbase, hothers⟩)
    exact htick
  have hafter := onCourse_after (w := { w with only := True, base := [t.now] }) hadded htick moves
    fun code hmem => absurd hmem (hmoves code)
  rw [joinTable_eq htick h hknown hjoin]
  exact (hafter.only trivial).2.1

/-- If the join was the only one, then the countdown started when it was over; and if no write to the
connection ever had to wait, then it is not late. -/
theorem prompt_join (hmore : ¬ w.only) (moves : List (Move σ))
    (honce : (((s.joinTable code w.id).2.after moves).countdowns w.id).map Task.start = [start]) :
    start = t.now ∧ (((s.joinTable code w.id).2.after moves).issued.get? w.id = none →
      ∃ k ∈ ((s.joinTable code w.id).2.after moves).countdowns w.id, ∃ index,
        k.work = .countdown w.id (countdownShape w.config) start index ∧
          (k.progress = .ended ∨ k.progress = .ready ∧
            ((s.joinTable code w.id).2.after moves).now <
              start + index * (countdownShape w.config).tick)) := by
  have hcourse := onCourse_after (onCourse_join htick h hknown hjoin hmore) htick moves
    fun _ _ => hmore
  obtain rfl : start = t.now := by
    have hstarts := hcourse.starts
    rw [honce] at hstarts
    have hlast : t.now ∈ [start] := hstarts.subset (List.mem_append_right _ (List.mem_singleton_self _))
    exact (List.mem_singleton.1 hlast).symm
  refine ⟨rfl, fun hnone => ?_⟩
  have htick' : 0 < (countdownShape w.config).tick := htick
  have hprompt := prompt_after w.id htick' (onCourse_perform htick h hknown hjoin).proper moves
  rw [← joinTable_eq htick h hknown hjoin] at hprompt
  obtain ⟨index, progress, hi, htime⟩ := hprompt.task
  refine ⟨_, mem_countdowns.2 ⟨List.mem_of_getElem? hi, decide_eq_true rfl⟩, index, rfl, htime ?_⟩
  have hissued := hprompt.issued
  rw [hnone] at hissued ⊢
  exact (Nat.le_zero.1 hissued).symm

end

/-- A connection that has joined no table before, joins one and joins no other later counts down once,
from the time when the join is over. -/
theorem starts_of_join (config : Config) (htick : 0 < config.countdownTick) (secret : String) (store : σ)
    (entropy : Random.Source) (started : Int) {before after : List (Move σ)} {code : RoomCode}
    {id : ConnId} {t : Server σ} :
    let first : Server σ := .new (.new config secret store entropy) started
    ((first.after before).floor.connection? id).isSome = true →
    (first.after before).perform (Tableside.join code id) = (some (.ok ()), t) →
    (first.after before).countdowns id = [] → (∀ c ∈ (first.after before).clients, c.id ≠ id) →
    (∀ other, .joins other id ∉ after) →
    ((first.after (before ++ .joins code id :: after)).countdowns id).map Task.start = [t.now] := by
  intro first hknown hjoin hnone hclients hafter
  have hcourse := onCourse_after (onCourse_new config secret store entropy started id) htick before
    fun _ _ => not_false
  rw [after_join hknown]
  exact countdowns_of_join htick hcourse hknown hjoin hnone hclients hafter

/-- The connection is open, its timers have reached the client, and its countdown has not been
stopped, neither by a move nor by a web socket that is leaving. -/
structure Unhindered (s : Server σ) (moves : List (Move σ)) (id : ConnId) : Prop where
  opened : (s.after moves).floor.isClosed id = false
  works : ∀ a ∈ ((s.after moves).wire id).timers, a.isDelivered = true
  going : ¬ s.Aborts moves id
  staying : ¬ (s.after moves).Leaving id

theorem after_waits (s : Server σ) (ms : List Nat) :
    s.after (ms.map .waits) = s.advance (ms.foldr Nat.add 0) := by
  induction ms generalizing s with
  | nil => rfl
  | cons m ms ih =>
    rw [List.map_cons, after_cons, ih, step]
    exact (advance_add s m _).symm

/-- A connection that joins a table once, at the time `start`, is shown the values of the countdown
from then on. Those that were written are the first values, as many as are due at most, and so are those
that were received; a value that was not received is the last one written, and none is written after a
close. While nothing hinders the countdown, exactly the values that are due have been received whenever
nothing is left to do and no write is under way, and always if no write to the connection ever had to
wait. Neither a turn of a countdown nor the end of a write takes anybody off the floor, and it
makes no difference in how many pieces time goes by. -/
theorem countdown_stream (config : Config) (htick : 0 < config.countdownTick) (secret : String)
    (store : σ) (entropy : Random.Source) (started : Int) (moves : List (Move σ)) (id : ConnId)
    (start : Nat) :
    let first : Server σ := .new (.new config secret store entropy) started
    let s := first.after moves
    let shape := countdownShape config
    let due := (s.now - start) / shape.tick + 1
    let received := (s.floor.received id).filterMap Payload.timer?
    (s.countdowns id).map Task.start = [start] →
      (∃ n ≤ due, (s.wire id).shown = (shape.values n).1) ∧
      (∃ n ≤ due, received = (shape.values n).1) ∧
      ((s.wire id).attempts.Pairwise fun a b =>
        a.payload.isClose = true ∨ a.payload.isTimer = true ∧ a.isDelivered = false →
          b.payload.isTimer = false) ∧
      (first.Unhindered moves id → s.pass.1 = false → s.lines.get? id = none →
        received = (shape.values due).1) ∧
      (∀ before code after t, moves = before ++ .joins code id :: after →
        ((first.after before).floor.connection? id).isSome = true →
        (first.after before).perform (Tableside.join code id) = (some (.ok ()), t) →
        start = t.now ∧ (first.Unhindered moves id → s.issued.get? id = none →
          received = (shape.values due).1)) ∧
      (∀ u : Server σ, (∀ k ∈ u.tasks, k.Proper) → ∀ i k, u.tasks[i]? = some k →
        k.work.isCountdown = true → u.Harmless (u.runTask i).2) ∧
      (∀ (u : Server σ) x, u.Harmless (u.advanceLine x)) ∧
      (∀ k ∈ s.tasks, k.Proper) ∧
      ∀ ms : List Nat, s.after (ms.map .waits) = s.after [.waits (ms.foldr Nat.add 0)] := by
  intro first s shape due received honce
  have hcourse : OnCourse _ [] s :=
    onCourse_after (onCourse_new config secret store entropy started id) htick moves fun _ _ => not_false
  obtain ⟨k, hk, hstart⟩ := List.map_eq_singleton_iff.1 honce
  obtain ⟨start', index, hwork, hnow, htold⟩ := hcourse.sole k hk
  obtain rfl : start' = start := by
    rw [← hstart, Task.start, hwork]
  obtain ⟨last, hcounted⟩ := htold.exists_counted
  have hreceived : received = (s.wire id).heard := received_timers s id
  have hle : (s.wire id).timers.length ≤ due := hcounted.length_le htick
  have hexact : first.Unhindered moves id →
      (k.progress = .ended ∨ k.progress = .ready ∧ s.now < start' + index * shape.tick) →
      received = (shape.values due).1 := fun hfree hprompt =>
    hreceived.trans (htold.heard_eq htick hnow
      (not_or.2 ⟨not_or.2 ⟨not_false, hfree.going⟩, hfree.staying⟩) hfree.opened hfree.works hprompt)
  refine ⟨⟨_, hle, hcounted.shown⟩, ?_, ?_, fun hfree hrest hline => ?_, ?_, ?_,
    harmless_advanceLine, hcourse.proper, fun ms => ?_⟩
  · obtain ⟨n, hn, hheard, -⟩ := hcounted.heard
    exact ⟨n, Nat.le_trans hn hle, hreceived.trans hheard⟩
  · have hclose : (s.wire id).attempts.Pairwise fun a b =>
        a.payload.isClose = true → b.payload.isTimer = false :=
      List.pairwise_map.1 (List.pairwise_append.1 hcourse.tidy.order).1
    exact (hclose.and hcounted.silent).imp fun h hab => hab.elim h.1 fun ha => h.2 ha.1 ha.2
  · have hmem : k ∈ s.tasks := (mem_countdowns.1 (hk ▸ List.mem_singleton_self k)).1
    exact hexact hfree (not_late_of_rest hcourse hrest hline hmem hwork htold)
  · intro before code after t hmoves hknown hjoin
    have hbefore := onCourse_after (onCourse_new config secret store entropy started id) htick before
      fun _ _ => not_false
    have hs : s = ((first.after before).joinTable code id).2.after after :=
      (congrArg first.after hmoves).trans (after_join hknown after)
    obtain ⟨hsame, hprompt⟩ := prompt_join htick hbefore hknown hjoin not_false after (hs ▸ honce)
    refine ⟨hsame, fun hfree hnone => ?_⟩
    obtain ⟨l, hl, index', hwork', htime⟩ := hprompt (hs ▸ hnone)
    rw [← hs] at hl htime
    obtain rfl : l = k := List.mem_singleton.1 (hk ▸ hl)
    cases hwork.symm.trans hwork'
    exact hexact hfree htime
  · intro u hproper i l hi hl
    exact harmless_count hi hl (hproper l (List.mem_of_getElem? hi))
  · rw [after_waits, after_cons]
    rfl

/-- A client that takes fifty milliseconds for each write joins the table of the parlour. -/
def slowVisit (ms : Nat) : List (Move Rooms) :=
  [.connects 1 (.steady (.takes 50)), .joins parlourRoom 0, .waits ms]

/-- Cy has been at the table of the salon for a while when Ann joins it. -/
def salonDusk : List (Move Rooms) :=
  [.connects 1 (.steady (.takes 0)), .connects 3 (.steady (.takes 0)), .joins salonRoom 1, .waits 4]

def salonNight : List (Move Rooms) := [.waits 15, .does (.bets salonRoom 3 hundred), .waits 10]

def salonDawn : List (Move Rooms) := [.does (.closesTable salonRoom), .waits 20]

theorem unhindered_of_all {s : Server σ} {moves : List (Move σ)} {id : ConnId}
    (h : (s.after moves).floor.isClosed id = false ∧
      (∀ a ∈ ((s.after moves).wire id).timers, a.isDelivered = true) ∧
      (s.after moves).clients.map Client.id = []) (hmoves : .aborts id ∉ moves) :
    s.Unhindered moves id where
  opened := h.1
  works := h.2.1
  going := by
    rintro ⟨before, after, rfl, -⟩
    exact hmoves (List.mem_append_right _ List.mem_cons_self)
  staying := by
    rintro ⟨client, -, hid⟩
    rw [h.2.2] at hid
    cases hid

def briskly : Config := { countdownTick := 10 }

theorem countdown_stream_salon :
    let quiet : Server Rooms := .new (.new briskly "" salon.store (.ofSeed 0)) 0
    let slow : Server Rooms := .new (.new {} "" parlour.store (.ofSeed 0)) 0
    let moves := salonDusk ++ .joins salonRoom 0 :: salonNight
    let late := quiet.after moves
    let closed := quiet.after (moves ++ salonDawn)
    let rested := slow.after (slowVisit 160)
    let shape := countdownShape briskly
    let slowShape := countdownShape {}
    (0 < briskly.countdownTick ∧ (late.countdowns 0).map Task.start = [4] ∧
      quiet.Unhindered moves 0 ∧ late.issued.get? 0 = none ∧
      (late.floor.received 0).filterMap Payload.timer? =
        (shape.values ((late.now - 4) / shape.tick + 1)).1 ∧
      (shape.values ((late.now - 4) / shape.tick + 1)).1 = [15, 14.9, 14.8]) ∧
    ((rested.countdowns 0).map Task.start = [100] ∧ slow.Unhindered (slowVisit 160) 0 ∧
      rested.pass.1 = false ∧ rested.lines.get? 0 = none ∧
      (rested.floor.received 0).filterMap Payload.timer? =
        (slowShape.values ((rested.now - 100) / slowShape.tick + 1)).1 ∧
      (slowShape.values ((rested.now - 100) / slowShape.tick + 1)).1 = [15, 14.9]) ∧
    (closed.countdowns 0).map Task.start = [4] ∧
      (∃ n ≤ (closed.now - 4) / shape.tick + 1,
        (closed.floor.received 0).filterMap Payload.timer? = (shape.values n).1) ∧
      (shape.values ((closed.now - 4) / shape.tick + 1)).1 = [15, 14.9, 14.8, 14.7, 14.6] := by
  intro quiet slow moves late closed rested shape slowShape
  have htick : 0 < briskly.countdownTick := by decide
  -- said of any pair, so that taking the result apart does not evaluate the run
  have hpair : ∀ (p : Option (Except RoomError Unit) × Server Rooms) r, p.1 = r → p = (r, p.2) :=
    fun p r h => Prod.ext h rfl
  have hdusk : ((quiet.after salonDusk).floor.connection? 0).isSome = true ∧
      (quiet.after salonDusk).countdowns 0 = [] ∧ ∀ c ∈ (quiet.after salonDusk).clients, c.id ≠ 0 := by
    decide +kernel
  obtain ⟨⟨hfst, hnow⟩, hnone, hvalues, hfree⟩ :
      (((quiet.after salonDusk).perform (Tableside.join salonRoom 0)).1 = some (.ok ()) ∧
        ((quiet.after salonDusk).perform (Tableside.join salonRoom 0)).2.now = 4) ∧
      late.issued.get? 0 = none ∧
      (shape.values ((late.now - 4) / shape.tick + 1)).1 = [15, 14.9, 14.8] ∧
      late.floor.isClosed 0 = false ∧ (∀ a ∈ (late.wire 0).timers, a.isDelivered = true) ∧
      late.clients.map Client.id = [] := by
    decide +kernel
  have hjoin := hpair _ _ hfst
  have hstart : (late.countdowns 0).map Task.start = [4] :=
    (starts_of_join briskly htick "" salon.store (.ofSeed 0) 0 hdusk.1 hjoin hdusk.2.1 hdusk.2.2
      (by simp [salonNight])).trans (congrArg (fun n => [n]) hnow)
  have hunhindered : quiet.Unhindered moves 0 :=
    unhindered_of_all hfree (by simp [moves, salonDusk, salonNight])
  have hlate := (countdown_stream briskly htick "" salon.store (.ofSeed 0) 0 moves 0 4
    hstart).2.2.2.2.1 salonDusk salonRoom salonNight _ rfl hdusk.1 hjoin
  obtain ⟨hslowStart, hrest, hlines, hslowValues, hslowFree⟩ :
      (rested.countdowns 0).map Task.start = [100] ∧
      rested.pass.1 = false ∧ rested.lines.get? 0 = none ∧
      (slowShape.values ((rested.now - 100) / slowShape.tick + 1)).1 = [15, 14.9] ∧
      rested.floor.isClosed 0 = false ∧ (∀ a ∈ (rested.wire 0).timers, a.isDelivered = true) ∧
      rested.clients.map Client.id = [] := by
    decide +kernel
  have hslow : slow.Unhindered (slowVisit 160) 0 := unhindered_of_all hslowFree (by simp [slowVisit])
  have hrested := (countdown_stream {} (by decide) "" parlour.store (.ofSeed 0) 0 (slowVisit 160) 0 100
    hslowStart).2.2.2.1 hslow hrest hlines
  obtain ⟨hclosedStart, hclosedValues⟩ :
      (closed.countdowns 0).map Task.start = [4] ∧
      (shape.values ((closed.now - 4) / shape.tick + 1)).1 = [15, 14.9, 14.8, 14.7, 14.6] := by
    decide +kernel
  have hclosed := (countdown_stream briskly htick "" salon.store (.ofSeed 0) 0 (moves ++ salonDawn) 0 4
    hclosedStart).2.1
  exact ⟨⟨htick, hstart, hunhindered, hnone, hlate.2 hunhindered hnone, hvalues⟩,
    ⟨hslowStart, hslow, hrest, hlines, hrested, hslowValues⟩, hclosedStart, hclosed, hclosedValues⟩

/-- While a write takes its time, a value that is due has not been received. -/
theorem not_received_when_due :
    let first : Server Rooms := .new parlour 0
    let s := first.after (slowVisit 120)
    let shape := countdownShape parlour.config
    let joined := (first.after ((slowVisit 120).take 1)).perform (Tableside.join parlourRoom 0)
    (joined.1 = some (.ok ()) ∧ joined.2.now = 100) ∧
      ((s.countdowns 0).map Task.start = [100] ∧ s.now = 220 ∧ shape.tick = 100) ∧
      (s.pass.1 = false ∧ first.Unhindered (slowVisit 120) 0 ∧
        ∀ a ∈ (s.wire 0).attempts, a.isDelivered = true) ∧
      (s.floor.received 0).filterMap Payload.timer? = [15] ∧
      (shape.values ((s.now - 100) / shape.tick + 1)).1 = [15, 14.9] ∧
      (s.floor.received 0).filterMap Payload.timer? ≠
        (shape.values ((s.now - 100) / shape.tick + 1)).1 := by
  intro first s shape joined
  obtain ⟨hjoin, hstart, hworks, hreceived, hvalues, hfree⟩ :
      (joined.1 = some (.ok ()) ∧ joined.2.now = 100) ∧
      ((s.countdowns 0).map Task.start = [100] ∧ s.now = 220 ∧ shape.tick = 100) ∧
      (s.pass.1 = false ∧ ∀ a ∈ (s.wire 0).attempts, a.isDelivered = true) ∧
      (s.floor.received 0).filterMap Payload.timer? = [15] ∧
      (shape.values ((s.now - 100) / shape.tick + 1)).1 = [15, 14.9] ∧
      s.floor.isClosed 0 = false ∧ (∀ a ∈ (s.wire 0).timers, a.isDelivered = true) ∧
      s.clients.map Client.id = [] := by
    decide +kernel
  have hunhindered : first.Unhindered (slowVisit 120) 0 :=
    unhindered_of_all hfree (by simp [slowVisit])
  refine ⟨hjoin, hstart, ⟨hworks.1, hunhindered, hworks.2⟩, hreceived, hvalues, ?_⟩
  rw [hreceived, hvalues]
  exact fun h => nomatch h

end Server

end Cardroom
