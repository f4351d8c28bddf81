import Cardroom.Proofs.Server.Stream
/-!
A connection and its countdowns on a server (`Server.OnCourse`). If a connection counts down once, then
its wire shows the stream of that countdown, the ticket that the countdown waits with is in no other
hand, and the countdown goes on unless it is stopped. This is so after every write, every turn of a
countdown (`Server.OnCourse.count`) and every task that is started, goes on or is ended.
-/

namespace Cardroom

variable {σ α : Type}

namespace Wire

variable {w v : Wire} {id : ConnId} {mine : Nat → Prop}

theorem Step.mono {fewer : Nat → Prop} (h : Step id mine w v) (hfewer : ∀ n, fewer n → mine n) :
    Step id fewer w v := by
  cases h with
  | now hp hopen hqueue r => exact .now hp hopen hqueue r
  | later hp hopen => exact .later hp hopen
  | finish hqueue r => exact .finish hqueue r
  | drop hn => exact .drop fun h => hn (hfewer _ h)
  | take hn => exact .take fun h => hn (hfewer _ h)
  | pong data r => exact .pong data r

theorem Steps.mono {fewer : Nat → Prop} (h : Steps id mine w v) (hfewer : ∀ n, fewer n → mine n) :
    Steps id fewer w v := by
  induction h with
  | refl => exact .refl
  | tail _ hstep ih => exact ih.tail (hstep.mono hfewer)

theorem Steps.known (h : Steps id mine w v) : v.known = w.known := by
  induction h with
  | refl => rfl
  | tail _ hstep ih => cases hstep <;> exact ih

theorem Steps.issued_le (h : Steps id mine w v) : w.issued ≤ v.issued := by
  induction h with
  | refl => exact Nat.le_refl _
  | tail _ hstep ih =>
    cases hstep with
    | later hp hopen => exact Nat.le_succ_of_le ih
    | _ => exact ih

end Wire

def Task.start (k : Task σ) : Nat :=
  match k.work with
  | .countdown _ _ start _ => start
  | _ => 0

namespace Server

variable {s t : Server σ} {id x : ConnId} {hand fewer : List Ticket} {i : Nat} {k l : Task σ}
  {ticket : Ticket}

def countdowns (s : Server σ) (id : ConnId) : List (Task σ) :=
  s.tasks.filter fun k => isCountdownOf id k.work

theorem mem_countdowns : k ∈ s.countdowns id ↔ k ∈ s.tasks ∧ isCountdownOf id k.work = true :=
  List.mem_filter

theorem countdowns_of_other (htasks : t.tasks = s.tasks.set i l) (hi : s.tasks[i]? = some k)
    (hk : isCountdownOf id k.work = false) (hl : isCountdownOf id l.work = false) :
    t.countdowns id = s.countdowns id := by
  obtain ⟨before, after, htask, hset⟩ := exists_split hi
  rw [countdowns, countdowns, htasks, hset, htask]
  simp [hk, hl]

theorem countdowns_of_own (htasks : t.tasks = s.tasks.set i l) (hi : s.tasks[i]? = some k)
    (hk : isCountdownOf id k.work = true) (hl : isCountdownOf id l.work = true) :
    ∃ before after, s.countdowns id = before ++ k :: after ∧
      t.countdowns id = before ++ l :: after := by
  obtain ⟨before, after, htask, hset⟩ := exists_split hi
  refine ⟨before.filter fun k => isCountdownOf id k.work,
    after.filter fun k => isCountdownOf id k.work, ?_, ?_⟩
  · rw [countdowns, htask]
    simp [hk]
  · rw [countdowns, htasks, hset]
    simp [hl]

theorem countdowns_addTask (s : Server σ) (id : ConnId) (work : Work) (progress : Progress σ) :
    (s.addTask work progress).countdowns id =
      s.countdowns id ++ if isCountdownOf id work then [⟨work, progress⟩] else [] := by
  rw [countdowns, addTask, List.filter_append]
  refine congrArg _ ?_
  cases h : isCountdownOf id work <;> simp [h]

theorem Leaving.set (h : s.Leaving id) (hi : s.tasks[i]? = some k) (htasks : t.tasks = s.tasks.set i l)
    (hclients : t.clients = s.clients)
    (hleaving : ∀ client, k.work = .attend client .leaving → l.work = .attend client .leaving) :
    t.Leaving id := by
  obtain ⟨before, after, htask, hset⟩ := exists_split hi
  refine h.mono (fun client hwork => ?_) (hclients ▸ List.prefix_rfl)
  rw [htasks, hset]
  rw [htask] at hwork
  simp only [List.map_append, List.map_cons, List.mem_append, List.mem_cons] at hwork ⊢
  exact hwork.imp_right (Or.imp_left fun h => (hleaving client h.symm).symm)

theorem endTask_eq (hi : s.tasks[i]? = some k) :
    s.endTask i = s.setTask i ⟨k.work, .ended⟩ ∧ k.progress.tickets = [] ∨
      ∃ ticket resume, k.progress = .writing ticket resume ∧
        s.endTask i = (s.setTask i ⟨k.work, .ended⟩).cancel ticket := by
  unfold endTask
  rw [hi]
  obtain ⟨work, progress⟩ := k
  cases progress with
  | writing ticket resume => exact .inr ⟨ticket, resume, rfl, rfl⟩
  | ready => exact .inl ⟨rfl, rfl⟩
  | ended => exact .inl ⟨rfl, rfl⟩

def Mine (s : Server σ) (id : ConnId) (number : Nat) : Prop :=
  ∃ k ∈ s.countdowns id, ⟨id, number⟩ ∈ k.progress.tickets

end Server

/-- What is told of a connection and its countdowns: they may have come to an unusual end if they
were `stopped`; the connection is there if it is `opened`; they were started at the times of `base`, and
at no later ones if these are the `only` ones. -/
structure Watch where
  config : Config
  id : ConnId
  stopped : Prop
  opened : Prop
  only : Prop
  base : List Nat

namespace Server

/-- The server as far as a connection and its countdowns are concerned. -/
structure OnCourse (w : Watch) (hand : List Ticket) (s : Server σ) : Prop where
  configured : s.floor.config = w.config
  wired : s.Wired
  ids : ∀ x ∈ s.floor.connections.keys, x < s.floor.nextId
  clients : ∀ c ∈ s.clients, (s.floor.connection? c.id).isSome = true
  tidy : (s.wire w.id).Tidy w.id
  known : w.stopped ∨ s.countdowns w.id = [] ∨ (s.wire w.id).known = true
  opened : w.opened → (s.wire w.id).known = true
  handFresh : ∀ ticket ∈ hand, ticket.id = w.id → ticket.number < (s.wire w.id).issued
  taskFresh : ∀ k ∈ s.tasks, ∀ ticket ∈ k.progress.tickets, ticket.id = w.id →
    ticket.number < (s.wire w.id).issued
  alone : ∀ k ∈ s.countdowns w.id, ∀ ticket ∈ k.progress.tickets,
    ticket ∉ hand ∧ ∀ l ∈ s.tasks, ticket ∈ l.progress.tickets → isCountdownOf w.id l.work = true
  proper : ∀ k ∈ s.tasks, k.Proper
  silent : s.countdowns w.id = [] → ∀ start, (s.wire w.id).Told (w.stopped ∨ s.Leaving w.id) w.id
    (countdownShape w.config) start s.now 0 (.ready : Progress σ)
  sole : ∀ k, s.countdowns w.id = [k] → ∃ start index,
    k.work = .countdown w.id (countdownShape w.config) start index ∧ start ≤ s.now ∧
      (s.wire w.id).Told (w.stopped ∨ s.Leaving w.id) w.id (countdownShape w.config) start s.now index
        k.progress
  starts : w.base <+: (s.countdowns w.id).map Task.start
  only : w.only → (s.wire w.id).known = true ∧ (s.countdowns w.id).map Task.start = w.base ∧
    ∀ c ∈ s.clients, c.id ≠ w.id

variable {s t : Server σ} {x : ConnId} {hand fewer : List Ticket} {i : Nat} {k l : Task σ}
  {ticket : Ticket} {w : Watch}

namespace OnCourse

theorem id_of_mem (h : OnCourse w hand s) (hk : k ∈ s.countdowns w.id)
    (hticket : ticket ∈ k.progress.tickets) : ticket.id = w.id := by
  obtain ⟨hmem, hof⟩ := mem_countdowns.1 hk
  obtain ⟨shape, start, index, hwork⟩ := isCountdownOf_iff.1 hof
  exact (h.proper k hmem).id_of_mem hwork hticket

theorem known_iff (hkeys : t.floor.connections.keys = s.floor.connections.keys) (x : ConnId) :
    (t.floor.connection? x).isSome = (s.floor.connection? x).isSome := by
  have hmem : ∀ f : Floor σ, (f.connection? x).isSome = true ↔ x ∈ f.connections.keys := fun f =>
    KeyMap.mem_keys_iff.symm
  rw [Bool.eq_iff_iff, hmem, hmem, hkeys]

theorem ids_of_keys (h : OnCourse w hand s)
    (hkeys : t.floor.connections.keys = s.floor.connections.keys) :
    ∀ x ∈ t.floor.connections.keys, x < t.floor.nextId := by
  have hsize : t.floor.nextId = s.floor.nextId := by
    have hlength := congrArg List.length hkeys
    rwa [KeyMap.keys, KeyMap.keys, List.length_map, List.length_map] at hlength
  rw [hkeys, hsize]
  exact h.ids

/-! ### What leaves the tasks alone -/

theorem go (h : OnCourse w hand s) (hstays : s.Stays t) (hconfig : t.floor.config = s.floor.config)
    (hkeys : t.floor.connections.keys = s.floor.connections.keys) (hwired : t.Wired)
    (hsteps : Wire.Steps w.id (s.Mine w.id) (s.wire w.id) (t.wire w.id))
    (hhand : ∀ ticket ∈ fewer, ticket ∈ hand ∨ (ticket.id = w.id →
      (s.wire w.id).issued ≤ ticket.number ∧ ticket.number < (t.wire w.id).issued)) :
    OnCourse w fewer t := by
  have hcountdowns : t.countdowns w.id = s.countdowns w.id := by
    rw [countdowns, countdowns, hstays.tasks]
  have hleaving : w.stopped ∨ s.Leaving w.id → w.stopped ∨ t.Leaving w.id := Or.imp_right fun h =>
    h.congr (by rw [hstays.tasks]) hstays.clients
  have hle := hsteps.issued_le
  refine
    { configured := hconfig.trans h.configured
      wired := hwired
      ids := h.ids_of_keys hkeys
      clients := fun c hc => (known_iff hkeys c.id).trans (h.clients c (hstays.clients ▸ hc))
      tidy := h.tidy.steps hsteps
      known := by rw [hcountdowns, hsteps.known]; exact h.known
      opened := fun hopened => hsteps.known.trans (h.opened hopened)
      handFresh := fun ticket hticket hid => ?_
      taskFresh := fun k hk ticket hticket hid => ?_
      alone := fun k hk ticket hticket => ?_
      proper := hstays.tasks ▸ h.proper
      silent := fun hnone start => ?_
      sole := fun k hk => ?_
      starts := hcountdowns ▸ h.starts
      only := by rw [hcountdowns, hsteps.known, hstays.clients]; exact h.only }
  · exact (hhand ticket hticket).elim
      (fun hmem => Nat.lt_of_lt_of_le (h.handFresh ticket hmem hid) hle) fun hnew => (hnew hid).2
  · exact Nat.lt_of_lt_of_le (h.taskFresh k (hstays.tasks ▸ hk) ticket hticket hid) hle
  · rw [hcountdowns] at hk
    obtain ⟨hnot, hothers⟩ := h.alone k hk ticket hticket
    refine ⟨fun hmem => ?_, hstays.tasks ▸ hothers⟩
    have hid := h.id_of_mem hk hticket
    rcases hhand ticket hmem with hmem | hnew
    · exact hnot hmem
    · have hlt := h.taskFresh k (mem_countdowns.1 hk).1 ticket hticket hid
      have hge := (hnew hid).1
      omega
  · rw [hstays.now]
    exact ((h.silent (hcountdowns ▸ hnone) start).steps h.tidy (hsteps.mono nofun)).imp hleaving
  · rw [hcountdowns] at hk
    obtain ⟨start, index, hwork, hstart, htold⟩ := h.sole k hk
    refine ⟨start, index, hwork, hstays.now ▸ hstart, ?_⟩
    rw [hstays.now]
    refine (htold.steps h.tidy (hsteps.mono fun n hn => ?_)).imp hleaving
    exact ⟨k, hk ▸ List.mem_singleton_self k, hn⟩

theorem touch (h : OnCourse w hand s) (hstays : s.Stays t) (htouches : s.Touches x t)
    (hsteps : x = w.id → Wire.Steps w.id (s.Mine w.id) (s.wire w.id) (t.wire w.id))
    (hhand : ∀ ticket ∈ fewer, ticket ∈ hand ∨ ticket.id = x ∧ (x = w.id →
      (s.wire w.id).issued ≤ ticket.number ∧ ticket.number < (t.wire w.id).issued)) :
    OnCourse w fewer t := by
  refine h.go hstays (by rw [htouches.floor]) htouches.keys (htouches.wired h.wired) ?_
    fun ticket hticket => (hhand ticket hticket).imp_right fun hnew hid => hnew.2 (hnew.1 ▸ hid)
  by_cases hx : x = w.id
  · exact hsteps hx
  · exact .of_eq (htouches.others w.id fun e => hx e.symm)

theorem handOut (h : OnCourse w hand s) (hstays : s.Stays t) (htouches : s.Touches x t)
    (hsteps : x = w.id → Wire.Steps w.id (s.Mine w.id) (s.wire w.id) (t.wire w.id))
    (hissued : (t.wire x).issued = (s.wire x).issued + 1) :
    OnCourse w (⟨x, (s.wire x).issued⟩ :: hand) t := by
  refine h.touch hstays htouches hsteps fun ticket hticket => ?_
  refine (List.mem_cons.1 hticket).symm.imp id fun e => ⟨by rw [e], fun hx => ?_⟩
  subst hx
  rw [hissued, e]
  exact ⟨Nat.le_refl _, Nat.lt_succ_self _⟩

theorem subset (h : OnCourse w hand s) (hsub : fewer ⊆ hand) : OnCourse w fewer s :=
  h.go (.refl s) rfl rfl h.wired .refl fun _ hticket => .inl (hsub hticket)

theorem floor (h : OnCourse w hand s) {g : Floor σ} (hspared : s.floor.Spared g) :
    OnCourse w hand (s.onFloor fun _ => g) := by
  have hconnection : ∀ x, g.connection? x = s.floor.connection? x := fun x => by
    rw [Floor.connection?, hspared.connections, Floor.connection?]
  refine h.go (.of_issued rfl rfl rfl rfl) hspared.config (by rw [onFloor, hspared.connections])
    (fun x line hline => ?_) (.of_eq ?_) fun _ hticket => .inl hticket
  · obtain ⟨hof, hknown⟩ := h.wired x line hline
    exact ⟨hof, (congrArg Option.isSome (hconnection x)).trans hknown⟩
  · exact congrArg (Wire.of · _ _ _) (hconnection w.id)

theorem ask (h : OnCourse w hand s) {p : Payload} (hp : p.Plain)
    (hopen : s.floor.isClosed x = false) :
    OnCourse w (tickets (s.ask x p).1 ++ hand) (s.ask x p).2 := by
  have hknown := isSome_of_open hopen
  have hmark : (s.wire x).mark p.isClose = s.wire x := by
    rw [hp.close, Wire.mark, Bool.or_false]
  obtain ⟨r, t, hask, hline, hwire⟩ | ⟨t, hask, hwire⟩ := wire_ask hknown p
  all_goals
    have hstays := stays_ask s x p
    have htouches := touches_ask h.wired hknown p
    rw [hask] at hstays htouches ⊢
  · refine h.touch hstays htouches (fun hx => ?_) fun _ hticket => .inl hticket
    subst hx
    have hqueue : (s.wire w.id).queue = [] := by rw [wire, hline]; rfl
    have hnow : Wire.Step w.id (s.Mine w.id) (s.wire w.id) _ := .now hp.timer hopen hqueue r
    rw [hmark] at hnow
    exact hwire ▸ .single hnow
  · refine h.handOut hstays htouches (fun hx => ?_) (by rw [hwire]; rfl)
    subst hx
    have hlater : Wire.Step w.id (s.Mine w.id) (s.wire w.id) _ := .later hp.timer hopen
    rw [hmark] at hlater
    exact hwire ▸ .single hlater

theorem close (h : OnCourse w hand s) (hopen : s.floor.isClosed x = false) :
    OnCourse w (tickets (s.askToClose x).1 ++ hand) (s.askToClose x).2 := by
  have hknown := isSome_of_open hopen
  obtain ⟨r, t, hask, hline, hwire⟩ | ⟨t, hask, hwire⟩ := wire_askToClose hknown
  all_goals
    have hstays := stays_askToClose s x
    have htouches := touches_askToClose h.wired hknown
    rw [hask] at hstays htouches ⊢
  · refine h.touch hstays htouches (fun hx => ?_) fun _ hticket => .inl hticket
    subst hx
    have hqueue : (s.wire w.id).queue = [] := by rw [wire, hline]; rfl
    rw [hwire]
    exact .single (.now (p := .close) rfl hopen hqueue r)
  · refine h.handOut hstays htouches (fun hx => ?_) (by rw [hwire]; rfl)
    subst hx
    rw [hwire]
    exact .single (.later (p := .close) rfl hopen)

theorem advanceLine (h : OnCourse w hand s) (x : ConnId) : OnCourse w hand (s.advanceLine x) :=
  h.touch (stays_advanceLine s x) (touches_advanceLine h.wired x)
    (fun hx => hx ▸ steps_advanceLine h.wired x) fun _ hticket => .inl hticket

theorem takeResult (h : OnCourse w hand s) {r : Except TransportError Unit}
    (hresult : s.takeResult? ticket = some (r, t))
    (hmine : ticket.id = w.id → ¬ s.Mine w.id ticket.number) : OnCourse w hand t := by
  refine h.touch (stays_takeResult hresult) (touches_takeResult hresult) (fun hx => ?_)
    fun _ hticket => .inl hticket
  have hwire := wire_takeResult hresult w.id
  rw [if_pos hx.symm] at hwire
  rw [hwire]
  exact .single (.take (hmine hx))

theorem answerPing (h : OnCourse w hand s) (x : ConnId) (data : String) :
    OnCourse w hand (s.answerPing x data) :=
  h.touch (.of_issued rfl rfl rfl rfl) (touches_answerPing s x data)
    (fun hx => hx ▸ steps_answerPing s x data) fun _ hticket => .inl hticket

theorem not_mine (h : OnCourse w hand s)
    (hticket : ticket ∈ hand ∨
      ∃ k ∈ s.tasks, isCountdownOf w.id k.work = false ∧ ticket ∈ k.progress.tickets)
    (hid : ticket.id = w.id) : ¬ s.Mine w.id ticket.number := by
  rintro ⟨k, hk, hmem⟩
  have hsame : (⟨w.id, ticket.number⟩ : Ticket) = ticket := (ticket_eq_iff hid.symm).2 rfl
  rw [hsame] at hmem
  obtain ⟨hnot, hothers⟩ := h.alone k hk ticket hmem
  rcases hticket with hticket | ⟨l, hl, hof, hticket⟩
  · exact hnot hticket
  · rw [hothers l hl hticket] at hof
    cases hof

/-! ### Tasks -/

theorem setOther (h : OnCourse w (l.progress.tickets ++ hand) s) (hi : s.tasks[i]? = some k)
    (hk : isCountdownOf w.id k.work = false) (hl : isCountdownOf w.id l.work = false)
    (hleaving : ∀ client, k.work = .attend client .leaving → l.work = .attend client .leaving)
    (hproper : l.Proper) : OnCourse w hand (s.setTask i l) := by
  have hcountdowns : (s.setTask i l).countdowns w.id = s.countdowns w.id :=
    countdowns_of_other rfl hi hk hl
  have hleave : w.stopped ∨ s.Leaving w.id → w.stopped ∨ (s.setTask i l).Leaving w.id :=
    Or.imp_right fun h => h.set hi rfl rfl hleaving
  have hmem : ∀ {m : Task σ}, m ∈ (s.setTask i l).tasks → m ∈ s.tasks ∨ m = l :=
    List.mem_or_eq_of_mem_set
  refine
    { h with
      known := hcountdowns ▸ h.known
      handFresh := fun ticket hticket => h.handFresh ticket (List.mem_append_right _ hticket)
      taskFresh := fun m hm ticket hticket => ?_
      alone := fun m hm ticket hticket => ?_
      proper := fun m hm => (hmem hm).elim (h.proper m) fun e => e ▸ hproper
      silent := fun hnone start => (h.silent (hcountdowns ▸ hnone) start).imp hleave
      sole := fun m hm => ?_
      starts := hcountdowns ▸ h.starts
      only := hcountdowns ▸ h.only }
  · rcases hmem hm with hm | rfl
    · exact h.taskFresh m hm ticket hticket
    · exact h.handFresh ticket (List.mem_append_left _ hticket)
  · obtain ⟨hnot, hothers⟩ := h.alone m (hcountdowns ▸ hm) ticket hticket
    rw [List.mem_append, not_or] at hnot
    refine ⟨hnot.2, fun l' hl' hmem' => ?_⟩
    rcases hmem hl' with hl' | rfl
    · exact hothers l' hl' hmem'
    · exact absurd hmem' hnot.1
  · obtain ⟨start, index, hwork, hstart, htold⟩ := h.sole m (hcountdowns ▸ hm)
    exact ⟨start, index, hwork, hstart, htold.imp hleave⟩

theorem alone_set (h : OnCourse w hand s) (hi : s.tasks[i]? = some k)
    (hk : isCountdownOf w.id k.work = true) (hl : isCountdownOf w.id l.work = true)
    (htasks : t.tasks = s.tasks.set i l)
    (hfresh : ∀ ticket ∈ l.progress.tickets, ticket ∈ k.progress.tickets ∨
      ticket.id = w.id ∧ (s.wire w.id).issued ≤ ticket.number) :
    ∀ m ∈ t.countdowns w.id, ∀ ticket ∈ m.progress.tickets,
      ticket ∉ hand ∧ ∀ m' ∈ t.tasks, ticket ∈ m'.progress.tickets → isCountdownOf w.id m'.work = true := by
  have hmem : ∀ {m : Task σ}, m ∈ t.tasks → m ∈ s.tasks ∨ m = l := fun hm =>
    List.mem_or_eq_of_mem_set (htasks ▸ hm)
  intro m hm ticket hticket
  have hold : ∀ n ∈ s.countdowns w.id, ticket ∈ n.progress.tickets → ticket ∉ hand ∧
      ∀ m' ∈ t.tasks, ticket ∈ m'.progress.tickets → isCountdownOf w.id m'.work = true := by
    intro n hn hticket'
    obtain ⟨hnot, hothers⟩ := h.alone n hn ticket hticket'
    exact ⟨hnot, fun m' hm' hmem' => (hmem hm').elim (fun hm' => hothers m' hm' hmem') fun e => e ▸ hl⟩
  obtain ⟨hmt, hofm⟩ := mem_countdowns.1 hm
  rcases hmem hmt with hmt | rfl
  · exact hold m (mem_countdowns.2 ⟨hmt, hofm⟩) hticket
  rcases hfresh ticket hticket with hticket' | ⟨hid, hnew⟩
  · exact hold k (mem_countdowns.2 ⟨List.mem_of_getElem? hi, hk⟩) hticket'
  -- What the connection has yet to hand out is with nobody.
  refine ⟨fun hhand => absurd (h.handFresh ticket hhand hid) (Nat.not_lt.2 hnew), fun m' hm' hmem' => ?_⟩
  rcases hmem hm' with hm' | rfl
  · exact absurd (h.taskFresh m' hm' ticket hmem' hid) (Nat.not_lt.2 hnew)
  · exact hl

theorem setOwn (h : OnCourse w hand s) {shape : Countdown} {start index : Nat}
    (hi : s.tasks[i]? = some k) (hk : k.work = .countdown w.id shape start index)
    (hl : ∃ next, l.work = .countdown w.id shape start next) (hproper : l.Proper)
    (hstays : { s with tasks := s.tasks.set i l }.Stays t) (htouches : s.Touches w.id t)
    (htidy : (t.wire w.id).Tidy w.id)
    (hfresh : ∀ ticket ∈ l.progress.tickets, ticket ∈ k.progress.tickets ∨
      (s.wire w.id).issued ≤ ticket.number ∧ ticket.number < (t.wire w.id).issued)
    (htold : (s.wire w.id).Told (w.stopped ∨ s.Leaving w.id) w.id shape start s.now index k.progress →
      ∃ next, l.work = .countdown w.id shape start next ∧
        (t.wire w.id).Told (w.stopped ∨ s.Leaving w.id) w.id shape start s.now next l.progress) :
    OnCourse w hand t := by
  have hissued : (s.wire w.id).issued ≤ (t.wire w.id).issued := hstays.issued w.id
  have hnow : t.now = s.now := hstays.now
  have htasks : t.tasks = s.tasks.set i l := hstays.tasks
  have hclients : t.clients = s.clients := hstays.clients
  have hofk : isCountdownOf w.id k.work = true := isCountdownOf_iff.2 ⟨shape, start, index, hk⟩
  have hofl : isCountdownOf w.id l.work = true :=
    isCountdownOf_iff.2 ⟨shape, start, hl.choose, hl.choose_spec⟩
  have hsame : l.start = k.start := by
    obtain ⟨next, hl⟩ := hl
    rw [Task.start, Task.start, hk, hl]
  obtain ⟨before, after, hs, ht⟩ := countdowns_of_own htasks hi hofk hofl
  have hstarts : (t.countdowns w.id).map Task.start = (s.countdowns w.id).map Task.start := by
    rw [hs, ht, List.map_append, List.map_append, List.map_cons, List.map_cons, hsame]
  have hleave : w.stopped ∨ s.Leaving w.id → w.stopped ∨ t.Leaving w.id :=
    Or.imp_right fun h => h.set hi htasks hclients fun client hwork => by rw [hk] at hwork; cases hwork
  have hmem : ∀ {m : Task σ}, m ∈ t.tasks → m ∈ s.tasks ∨ m = l := fun hm =>
    List.mem_or_eq_of_mem_set (htasks ▸ hm)
  have hmemk : k ∈ s.tasks := List.mem_of_getElem? hi
  refine
    { configured := (congrArg Floor.config htouches.floor).trans h.configured
      wired := htouches.wired h.wired
      ids := h.ids_of_keys htouches.keys
      clients := fun c hc => (htouches.known c.id).trans (h.clients c (hclients ▸ hc))
      tidy := htidy
      known := h.known.imp_right (Or.imp (fun hnone => ?_) (htouches.known w.id).trans)
      opened := fun hopened => (htouches.known w.id).trans (h.opened hopened)
      handFresh := fun ticket hticket hid =>
        Nat.lt_of_lt_of_le (h.handFresh ticket hticket hid) hissued
      taskFresh := fun m hm ticket hticket hid => ?_
      alone := h.alone_set hi hofk hofl htasks fun ticket hticket => (hfresh ticket hticket).imp_right
        fun hnew => ⟨hproper.id_of_mem hl.choose_spec hticket, hnew.1⟩
      proper := fun m hm => (hmem hm).elim (h.proper m) fun e => e ▸ hproper
      silent := fun hnone => by rw [ht] at hnone; simp at hnone
      sole := fun m hm => ?_
      starts := hstarts ▸ h.starts
      only := fun honly => ?_ }
  · rw [hs] at hnone
    simp at hnone
  · rcases hmem hm with hm | rfl
    · exact Nat.lt_of_lt_of_le (h.taskFresh m hm ticket hticket hid) hissued
    · rcases hfresh ticket hticket with hold | hnew
      · exact Nat.lt_of_lt_of_le (h.taskFresh k hmemk ticket hold hid) hissued
      · exact hnew.2
  · rw [ht, List.append_eq_singleton_iff] at hm
    obtain ⟨rfl, e⟩ | ⟨-, e⟩ := hm
    · cases e
      obtain ⟨start', index', hwork, hstart, htold'⟩ := h.sole k hs
      rw [hk] at hwork
      cases hwork
      obtain ⟨next, hwork, htold⟩ := htold htold'
      exact ⟨start, next, hwork, hnow ▸ hstart, hnow ▸ htold.imp hleave⟩
    · cases e
  · obtain ⟨hknown, hbase, hno⟩ := h.only honly
    exact ⟨(htouches.known w.id).trans hknown, hstarts.trans hbase, hclients ▸ hno⟩

theorem setOtherCountdown (h : OnCourse w (l.progress.tickets ++ hand) s)
    {id : ConnId} {shape : Countdown} {start index : Nat} (hid : id ≠ w.id)
    (hi : s.tasks[i]? = some k) (hk : k.work = .countdown id shape start index)
    (hl : ∃ next, l.work = .countdown id shape start next) (hproper : l.Proper) :
    OnCourse w hand (s.setTask i l) := by
  refine h.setOther hi (hk ▸ isCountdownOf_countdown hid) ?_
    (fun client hwork => by rw [hk] at hwork; cases hwork) hproper
  obtain ⟨next, hl⟩ := hl
  exact hl ▸ isCountdownOf_countdown hid

theorem ownTurn (h : OnCourse w hand s) {shape : Countdown} {start index : Nat}
    (hi : s.tasks[i]? = some k) (hk : k.work = .countdown w.id shape start index)
    (hl : ∃ next, l.work = .countdown w.id shape start next) (hproper : l.Proper)
    (hstays : s.Stays t) (htouches : s.Touches w.id t) (htidy : (t.wire w.id).Tidy w.id)
    (hfresh : ∀ ticket ∈ l.progress.tickets, ticket ∈ k.progress.tickets ∨
      (s.wire w.id).issued ≤ ticket.number ∧ ticket.number < (t.wire w.id).issued)
    (htold : (s.wire w.id).Told (w.stopped ∨ s.Leaving w.id) w.id shape start s.now index k.progress →
      ∃ next, l.work = .countdown w.id shape start next ∧
        (t.wire w.id).Told (w.stopped ∨ s.Leaving w.id) w.id shape start s.now next l.progress) :
    OnCourse w hand (t.setTask i l) :=
  h.setOwn hi hk hl hproper
    ⟨by rw [setTask, hstays.tasks], hstays.clients, hstays.now, hstays.issued⟩
    ⟨htouches.floor, htouches.keys, htouches.others, htouches.wired⟩ htidy hfresh htold

theorem mark_frame (v : Wire) (f : Frame) : v.mark (Payload.frame f).isClose = v := by
  have hopen : (Payload.frame f).isClose = false := rfl
  rw [hopen, Wire.mark, Bool.or_false]

/-- A turn of a countdown of the connection. -/
theorem countOwn (h : OnCourse w hand s) {shape : Countdown} {start index : Nat}
    {run : Bool × Server σ} (hi : s.tasks[i]? = some k)
    (hk : k.work = .countdown w.id shape start index)
    (hcounts : s.Counts i w.id shape start index k.progress run) : OnCourse w hand run.2 := by
  have hproper := h.proper k (List.mem_of_getElem? hi)
  generalize hprogress : k.progress = progress at hcounts
  cases hcounts with
  | ended => exact h
  | early _ => exact h
  | unheard _ => exact h
  | refused hdue hclosed =>
    refine h.ownTurn hi hk ⟨index, rfl⟩ (Task.proper_of_tickets rfl) (.refl s) (.refl w.id s) h.tidy
      nofun fun htold => ?_
    rw [hprogress] at htold
    exact ⟨index, rfl, htold.refuse hclosed⟩
  | @now r t hdue hopen hask =>
    have hknown := isSome_of_open hopen
    obtain ⟨hqueue, hwire⟩ := wire_of_ask hknown hask
    have htidy := h.tidy.now hopen hqueue (.frame (shape.frame index)) r
    rw [mark_frame, ← hwire] at htidy
    refine h.ownTurn hi hk (work_counted r) (Task.proper_of_tickets (tickets_counted r))
      (stays_of_ask hask) (touches_of_ask h.wired hknown hask) htidy
      (by rw [tickets_counted]; nofun) fun htold => ?_
    rw [hprogress] at htold
    obtain ⟨hcounted, hpending⟩ := htold.write_now (r := r) hdue
    rw [← hwire] at hcounted hpending
    exact Wire.Told.counted hcounted hpending
  | @later ticket t hdue hopen hask =>
    have hknown := isSome_of_open hopen
    have htouches := touches_of_ask h.wired hknown hask
    have hstays := stays_of_ask hask
    obtain ⟨rfl, hwire⟩ := ticket_of_ask hknown hask
    have htidy := h.tidy.later hopen (.frame (shape.frame index))
    rw [mark_frame, ← hwire] at htidy
    refine h.ownTurn hi hk ⟨index, rfl⟩ (fun ticket resume e => ?_) hstays htouches htidy
      (fun ticket hticket => .inr ?_) fun htold => ?_
    · cases e
      exact ⟨rfl, rfl⟩
    · rw [List.mem_singleton.1 hticket, hwire]
      exact ⟨Nat.le_refl _, Nat.lt_succ_self _⟩
    · rw [hprogress] at htold
      exact ⟨index, rfl, hwire ▸ htold.write_later hdue _⟩
  | @heard ticket resume r t htake =>
    have hid : ticket.id = w.id :=
      hproper.id_of_mem hk (by rw [hprogress]; exact List.mem_singleton_self ticket)
    obtain ⟨id, number⟩ := ticket
    subst hid
    have hwire := wire_takeResult htake w.id
    rw [if_pos rfl] at hwire
    refine h.ownTurn hi hk (work_counted r) (Task.proper_of_tickets (tickets_counted r))
      (stays_takeResult htake) (touches_takeResult htake) (hwire ▸ h.tidy.take number)
      (by rw [tickets_counted]; nofun) fun htold => ?_
    rw [hprogress] at htold
    obtain ⟨hcounted, hpending⟩ := htold.heard h.tidy (kept_of_takeResult htake)
    rw [hwire]
    exact Wire.Told.counted hcounted hpending

theorem countOther (h : OnCourse w hand s) {id : ConnId} {shape : Countdown} {start index : Nat}
    {run : Bool × Server σ} (hid : id ≠ w.id) (hi : s.tasks[i]? = some k)
    (hk : k.work = .countdown id shape start index)
    (hcounts : s.Counts i id shape start index k.progress run) : OnCourse w hand run.2 := by
  have hmem : k ∈ s.tasks := List.mem_of_getElem? hi
  have hproper := h.proper k hmem
  generalize hprogress : k.progress = progress at hcounts
  have hcounted : ∀ {t : Server σ} (r : Except TransportError Unit), s.Stays t → OnCourse w hand t →
      OnCourse w hand (t.setTask i (counted id shape start index r)) := fun r hstays ht => by
    refine OnCourse.setOtherCountdown (k := k) ?_ hid (by rw [hstays.tasks, hi]) hk (work_counted r)
      (Task.proper_of_tickets (tickets_counted r))
    rw [tickets_counted]
    exact ht
  cases hcounts with
  | ended => exact h
  | early _ => exact h
  | unheard _ => exact h
  | refused hdue hclosed =>
    exact OnCourse.setOtherCountdown (k := k) h hid hi hk ⟨index, rfl⟩ (Task.proper_of_tickets rfl)
  | @now r t hdue hopen hask =>
    have htouches := touches_of_ask h.wired (isSome_of_open hopen) hask
    refine hcounted r (stays_of_ask hask) ?_
    exact h.touch (stays_of_ask hask) htouches (fun e => absurd e hid) fun _ hticket => .inl hticket
  | @later ticket t hdue hopen hask =>
    have hknown := isSome_of_open hopen
    have htouches := touches_of_ask h.wired hknown hask
    have hstays := stays_of_ask hask
    obtain ⟨rfl, hwire⟩ := ticket_of_ask hknown hask
    have ht : OnCourse w (⟨id, (s.wire id).issued⟩ :: hand) t :=
      h.handOut hstays htouches (fun e => absurd e hid) (by rw [hwire]; rfl)
    refine OnCourse.setOtherCountdown (k := k) ht hid (by rw [hstays.tasks, hi]) hk ⟨index, rfl⟩
      fun other resume e => ?_
    cases e
    exact ⟨rfl, rfl⟩
  | @heard ticket resume r t htake =>
    have hticket : ticket.id = id :=
      hproper.id_of_mem hk (by rw [hprogress]; exact List.mem_singleton_self ticket)
    exact hcounted r (stays_takeResult htake)
      (h.takeResult htake fun e => absurd (hticket.symm.trans e) hid)

theorem count [RoomStore σ] (h : OnCourse w hand s) (hi : s.tasks[i]? = some k)
    (hk : k.work.isCountdown = true) : OnCourse w hand (s.runTask i).2 := by
  obtain ⟨work, progress⟩ := k
  cases work with
  | countdown id shape start index =>
    have hcounts := counts_runTask hi rfl (h.proper _ (List.mem_of_getElem? hi))
    by_cases hid : id = w.id
    · subst hid
      exact h.countOwn hi rfl hcounts
    · exact h.countOther hid hi rfl hcounts
  | _ => cases hk

/-! ### Tasks that come and are ended -/

theorem cancel (h : OnCourse w hand s)
    (hmine : ticket.id = w.id → ¬ s.Mine w.id ticket.number) : OnCourse w hand (s.cancel ticket) := by
  refine h.touch (stays_cancel s ticket) (touches_cancel h.wired ticket) (fun hx => ?_)
    fun _ hticket => .inl hticket
  have hdrop : Wire.Step w.id (s.Mine w.id) (s.wire w.id) ((s.wire w.id).drop ticket.number) :=
    .drop (hmine hx)
  have hsteps : Wire.Steps ticket.id (s.Mine w.id) _ _ := steps_cancel h.wired ticket (hx ▸ h.tidy.nodup)
  rw [hx] at hsteps
  exact .head hdrop hsteps

/-- A countdown of the connection ends unusually only if it is stopped. -/
theorem endTask (h : OnCourse w hand s) (hi : s.tasks[i]? = some k)
    (hend : isCountdownOf w.id k.work = true → w.stopped ∨ s.Leaving w.id) :
    OnCourse w hand (s.endTask i) := by
  have hmem : k ∈ s.tasks := List.mem_of_getElem? hi
  have hproper := h.proper k hmem
  cases hof : isCountdownOf w.id k.work with
  | false =>
    have hset : OnCourse w hand (s.setTask i ⟨k.work, .ended⟩) :=
      OnCourse.setOther (k := k) h hi hof hof (fun _ hwork => hwork) (Task.proper_of_tickets rfl)
    obtain ⟨e, -⟩ | ⟨ticket, resume, hprogress, e⟩ := endTask_eq hi
    · exact e ▸ hset
    · refine e ▸ hset.cancel fun hid hmine => ?_
      refine h.not_mine (.inr ⟨k, hmem, hof, ?_⟩) hid ?_
      · rw [hprogress]
        exact List.mem_singleton_self ticket
      · obtain ⟨m, hm, hticket⟩ := hmine
        have hsame : (s.setTask i ⟨k.work, .ended⟩).countdowns w.id = s.countdowns w.id :=
          countdowns_of_other rfl hi hof hof
        exact ⟨m, hsame ▸ hm, hticket⟩
  | true =>
    obtain ⟨shape, start, index, hwork⟩ := isCountdownOf_iff.1 hof
    have hstop := hend hof
    obtain ⟨e, hnone⟩ | ⟨⟨id, number⟩, resume, hprogress, e⟩ := endTask_eq hi
    · rw [e]
      refine h.ownTurn hi hwork ⟨index, hwork⟩ (Task.proper_of_tickets rfl) (.refl s) (.refl w.id s)
        h.tidy nofun fun htold => ⟨index, hwork, ?_⟩
      obtain ⟨-, htold⟩ | ⟨number, resume, hprogress, -⟩ := htold.stop hstop
      · exact htold
      · rw [hprogress] at hnone
        cases hnone
    · have hid : id = w.id :=
        hproper.id_of_mem hwork (by rw [hprogress]; exact List.mem_singleton_self (⟨id, number⟩ : Ticket))
      subst hid
      have hsteps : Wire.Steps w.id (fun _ => False) ((s.wire w.id).drop number)
          ((s.endTask i).wire w.id) := by
        rw [e]
        exact steps_cancel (s := s.setTask i ⟨k.work, .ended⟩) h.wired ⟨w.id, number⟩ h.tidy.nodup
      have htouches := touches_cancel (s := s.setTask i ⟨k.work, .ended⟩) h.wired ⟨w.id, number⟩
      refine h.setOwn (l := ⟨k.work, .ended⟩) hi hwork ⟨index, hwork⟩ (Task.proper_of_tickets rfl)
        (e ▸ stays_cancel (s.setTask i ⟨k.work, .ended⟩) ⟨w.id, number⟩)
        (e ▸ ⟨htouches.floor, htouches.keys, htouches.others, htouches.wired⟩)
        ((h.tidy.drop number).steps hsteps) nofun fun htold => ⟨index, hwork, ?_⟩
      obtain ⟨hnone, -⟩ | ⟨number', resume', hprogress', htold⟩ := htold.stop hstop
      · exact absurd (hprogress ▸ List.mem_singleton_self (⟨w.id, number⟩ : Ticket)) (hnone number)
      · rw [hprogress] at hprogress'
        cases hprogress'
        exact htold.steps (h.tidy.drop number) (hsteps.mono nofun)

theorem alone_addTask (h : OnCourse w hand s) {work : Work} {progress : Progress σ}
    (hprogress : progress.tickets = []) :
    ∀ m ∈ (s.addTask work progress).countdowns w.id, ∀ ticket ∈ m.progress.tickets,
      ticket ∉ hand ∧ ∀ m' ∈ (s.addTask work progress).tasks, ticket ∈ m'.progress.tickets →
        isCountdownOf w.id m'.work = true := by
  -- Who has a ticket was there before.
  have hmem : ∀ m ∈ (s.addTask work progress).tasks, ∀ ticket ∈ m.progress.tickets, m ∈ s.tasks := by
    intro m hm ticket hticket
    rcases List.mem_append.1 hm with hm | hm
    · exact hm
    · rw [List.mem_singleton.1 hm, hprogress] at hticket
      cases hticket
  intro m hm ticket hticket
  obtain ⟨hmt, hof⟩ := mem_countdowns.1 hm
  obtain ⟨hnot, hothers⟩ := h.alone m (mem_countdowns.2 ⟨hmem m hmt ticket hticket, hof⟩) ticket hticket
  exact ⟨hnot, fun m' hm' hticket' => hothers m' (hmem m' hm' ticket hticket') hticket'⟩

theorem addTask (h : OnCourse w hand s) {work : Work} {progress : Progress σ}
    (hprogress : progress.tickets = [])
    (hown : isCountdownOf w.id work = true →
      work = .countdown w.id (countdownShape w.config) s.now 0 ∧ progress = .ready ∧
        (w.stopped ∨ (s.wire w.id).known = true) ∧ ¬ w.only) :
    OnCourse w hand (s.addTask work progress) := by
  have hcountdowns := s.countdowns_addTask w.id work progress
  have hleave : w.stopped ∨ s.Leaving w.id → w.stopped ∨ (s.addTask work progress).Leaving w.id :=
    Or.imp_right fun h => h.mono (fun client hmem => by
      rw [Server.addTask, List.map_append]
      exact List.mem_append_left _ hmem) List.prefix_rfl
  have hmem : ∀ {m : Task σ}, m ∈ (s.addTask work progress).tasks →
      m ∈ s.tasks ∨ m = ⟨work, progress⟩ := fun hm =>
    (List.mem_append.1 hm).imp_right List.mem_singleton.1
  refine
    { h with
      known := ?_
      taskFresh := fun m hm ticket hticket => ?_
      alone := h.alone_addTask hprogress
      proper := fun m hm => (hmem hm).elim (h.proper m) fun e => e ▸ Task.proper_of_tickets hprogress
      silent := fun hnone start => ?_
      sole := fun m hm => ?_
      starts := ?_
      only := fun honly => ?_ }
  · cases hof : isCountdownOf w.id work with
    | true => exact (hown hof).2.2.1.imp_right .inr
    | false =>
      rw [hcountdowns, hof, if_neg Bool.false_ne_true, List.append_nil]
      exact h.known
  · rcases hmem hm with hm | rfl
    · exact h.taskFresh m hm ticket hticket
    · rw [hprogress] at hticket
      cases hticket
  · rw [hcountdowns] at hnone
    exact (h.silent (List.append_eq_nil_iff.1 hnone).1 start).imp hleave
  · cases hof : isCountdownOf w.id work with
    | true =>
      obtain ⟨rfl, rfl, -⟩ := hown hof
      rw [hcountdowns, hof, if_pos rfl, List.append_eq_singleton_iff] at hm
      obtain ⟨hnone, e⟩ | ⟨-, e⟩ := hm
      · cases e
        exact ⟨s.now, 0, rfl, Nat.le_refl _, (h.silent hnone s.now).imp hleave⟩
      · cases e
    | false =>
      rw [hcountdowns, hof, if_neg Bool.false_ne_true, List.append_nil] at hm
      obtain ⟨start, index, hwork, hstart, htold⟩ := h.sole m hm
      exact ⟨start, index, hwork, hstart, htold.imp hleave⟩
  · rw [hcountdowns, List.map_append]
    exact h.starts.trans (List.prefix_append ..)
  · cases hof : isCountdownOf w.id work with
    | true => exact absurd honly (hown hof).2.2.2
    | false =>
      rw [hcountdowns, hof, if_neg Bool.false_ne_true, List.append_nil]
      exact h.only honly

theorem startCountdown (h : OnCourse w hand s) (htick : 0 < w.config.countdownTick)
    (hown : x = w.id → (w.stopped ∨ (s.wire w.id).known = true) ∧ ¬ w.only) :
    OnCourse w hand (s.startCountdown x (countdownShape s.floor.config)) := by
  rw [h.configured]
  refine h.addTask (tickets_startingProgress _) fun hof => ?_
  obtain rfl : x = w.id := of_decide_eq_true hof
  exact ⟨rfl, if_neg (Nat.ne_of_gt htick), hown rfl⟩

end OnCourse

end Server

end Cardroom
