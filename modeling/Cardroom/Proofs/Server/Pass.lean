import Cardroom.Proofs.Server.Apart
import Cardroom.Server.Clock

namespace Cardroom

variable {home : ConnId → RoomCode} {room : RoomCode}

open Server (Apart Orderly Shadow)

namespace Work

def id? : Work → Option ConnId
  | countdown id .. | ping id .. => some id
  | attend .. => none

def due? (now : Nat) : Work → Option (Script Rooms Next)
  | countdown id shape start index =>
    if start + index * shape.tick ≤ now then
      some (Server.writeOrFinish id (.frame (shape.frame index))
        (if (shape.valueAt index).2 then .again else .finish))
    else none
  | ping id _ due => if due ≤ now then some (Server.writeOrFinish id (.ping Server.pingData) .again)
    else none
  | attend .. => none

def after : Work → Next → Task Rooms
  | countdown id shape start index, .again => ⟨.countdown id shape start (index + 1), .ready⟩
  | ping id interval due, .again => ⟨.ping id interval (due + interval), .ready⟩
  | work, _ => ⟨work, .ended⟩

variable {work : Work} {id : ConnId}

theorem script?_eq (h : work.id? = some id) (s : Server Rooms) :
    s.script? work = (work.due? s.now).map fun script => (s, script) := by
  cases work with
  | countdown =>
    simp only [Server.script?, due?]
    split <;> rfl
  | ping =>
    simp only [Server.script?, due?]
    split <;> rfl
  | attend => cases h

theorem afterScript_eq (h : work.id? = some id) (s : Server Rooms) (i : Nat) (next : Next) :
    s.afterScript i work next = s.setTask i (work.after next) := by
  cases work with
  | countdown => cases next <;> rfl
  | ping => cases next <;> rfl
  | attend => cases h

theorem confined_writeOrFinish (hid : home id = room) (p : Payload) (next : Next) :
    (Server.writeOrFinish id p next : Script Rooms Next).Confined home room fun _ => True := by
  refine (Script.confined_writeTo hid p).monad_bind fun answer _ => ?_
  cases answer <;> exact Script.confined_pure trivial

theorem confined_due (h : work.id? = some id) (hid : home id = room) {now : Nat}
    {script : Script Rooms Next} (hdue : work.due? now = some script) :
    script.Confined home room fun _ => True := by
  cases work with
  | countdown x shape start index =>
    cases h
    simp only [due?] at hdue
    split at hdue
    · cases hdue
      exact confined_writeOrFinish hid _ _
    · cases hdue
  | ping x interval due =>
    cases h
    simp only [due?] at hdue
    split at hdue
    · cases hdue
      exact confined_writeOrFinish hid _ _
    · cases hdue
  | attend => cases h

end Work

def Stage.task (work : Work) : Stage Rooms Next → Task Rooms
  | .finished next => work.after next
  | .blocked ticket resume => ⟨work, .writing ticket resume⟩

namespace Task

structure Confined (home : ConnId → RoomCode) (room : RoomCode) (t : Task Rooms) : Prop where
  work : ∃ id, t.work.id? = some id ∧ home id = room
  progress : ∀ ticket resume, t.progress = .writing ticket resume →
    (Stage.blocked ticket resume).Confined home room fun _ => True

def go (t : Task Rooms) (s : Server Rooms) : Task Rooms × Server Rooms :=
  match t.progress with
  | .ended => (t, s)
  | .ready =>
    match t.work.due? s.now with
    | none => (t, s)
    | some script => ((Server.drive script s).1.task t.work, (Server.drive script s).2)
  | .writing ticket resume =>
    (((Stage.blocked ticket resume).goOn s).1.task t.work,
      ((Stage.blocked ticket resume).goOn s).2)

def isOf (home : ConnId → RoomCode) (room : RoomCode) (t : Task Rooms) : Bool :=
  t.work.id?.any (isAt home room)

variable {t : Task Rooms}

theorem Confined.isOf (h : t.Confined home room) : t.isOf home room = true := by
  obtain ⟨id, hid, hat⟩ := h.work
  rw [Task.isOf, hid]
  exact isAt_iff.2 hat

theorem Confined.not_isOf (h : t.Confined home room) {other : RoomCode} (hne : other ≠ room) :
    ¬ t.isOf home other = true := by
  obtain ⟨id, hid, hat⟩ := h.work
  rw [Task.isOf, hid]
  exact not_isAt hat hne

theorem confined_task {work : Work} (h : ∃ id, work.id? = some id ∧ home id = room)
    {stage : Stage Rooms Next} (hstage : stage.Confined home room fun _ => True) :
    (stage.task work).Confined home room := by
  obtain ⟨id, hid, hat⟩ := h
  cases stage with
  | finished next =>
    have hwork : (work.after next).work.id? = some id := by
      cases work with
      | countdown => cases next <;> exact hid
      | ping => cases next <;> exact hid
      | attend => cases hid
    have hprogress : ∀ ticket resume, (work.after next).progress ≠ .writing ticket resume := by
      intro ticket resume
      cases work <;> cases next <;> exact nofun
    exact ⟨⟨id, hwork, hat⟩, fun ticket resume h => absurd h (hprogress ticket resume)⟩
  | blocked ticket resume =>
    refine ⟨⟨id, hid, hat⟩, fun x r h => ?_⟩
    cases h
    exact hstage

theorem apart_go (h : t.Confined home room) : Apart home room (Task.Confined home room) t.go := by
  have htask : ∀ stage : Stage Rooms Next, (stage.Confined home room fun _ => True) →
      Apart home room (Task.Confined home room) fun s => (stage.task t.work, s) :=
    fun stage hstage => Server.apart_pure (confined_task h.work hstage)
  cases hp : t.progress with
  | ended => exact (Server.apart_pure h).congr fun s => by rw [go, hp]
  | ready =>
    obtain ⟨id, hid, hat⟩ := h.work
    refine Server.apart_of_view (fun _ _ hst => hst.now) fun s _ => ?_
    cases hdue : t.work.due? s.now with
    | none =>
      refine ⟨_, Server.apart_pure h, fun u hu => ?_⟩
      simp only [go, hp, hu, hdue]
    | some script =>
      refine ⟨_, (Server.apart_drive (Work.confined_due hid hat hdue)).bind htask, fun u hu => ?_⟩
      simp only [go, hp, hu, hdue]
  | writing ticket resume =>
    refine ((Stage.apart_goOn (h.progress ticket resume hp)).bind htask).congr fun s => ?_
    rw [go, hp]

end Task

namespace Server

variable {s t : Server Rooms}

/-- Two orderly servers without web sockets that one room cannot tell apart. -/
structure Beside (home : ConnId → RoomCode) (room : RoomCode) (s t : Server Rooms) : Prop where
  left : Orderly home s
  right : Orderly home t
  shadow : Shadow home room s t
  clients : s.clients = [] ∧ t.clients = []

theorem Beside.refl (room : RoomCode) (h : Orderly home s) (hclients : s.clients = []) :
    Beside home room s s :=
  ⟨h, h, .refl s, hclients, hclients⟩

theorem Beside.setTasks (h : Beside home room s t) (ks ls : List (Task Rooms)) :
    Beside home room { s with tasks := ks } { t with tasks := ls } where
  left := ⟨h.left.floor, h.left.lines⟩
  right := ⟨h.right.floor, h.right.lines⟩
  shadow := ⟨h.shadow.floor, h.shadow.now, h.shadow.started, h.shadow.lines, h.shadow.results,
    h.shadow.issued⟩
  clients := h.clients

variable {α : Type} {P : α → Prop} {c : Server Rooms → α × Server Rooms}

/-- What is done in another room need not be done on the other side. -/
theorem Beside.elsewhere {other : RoomCode} (h : Beside home room s t) (hc : Apart home other P c)
    (hne : room ≠ other) : Beside home room (c s).2 t where
  left := hc.orderly s h.left
  right := h.right
  shadow := (hc.elsewhere s h.left room hne).symm.trans h.shadow
  clients := ⟨(hc.crew s h.left).2.trans h.clients.1, h.clients.2⟩

/-- What is done in the room is done on both sides, and comes to the same. -/
theorem Beside.both (h : Beside home room s t) (hc : Apart home room P c) :
    (c s).1 = (c t).1 ∧ Beside home room (c s).2 (c t).2 := by
  obtain ⟨hvalue, hshadow⟩ := hc.alike s t h.left h.right h.shadow
  refine ⟨hvalue, hc.orderly s h.left, hc.orderly t h.right, hshadow, ?_, ?_⟩
  · exact (hc.crew s h.left).2.trans h.clients.1
  · exact (hc.crew t h.right).2.trans h.clients.2

/-! ### Lines -/

/-- Lines of other connections may be left where they are. -/
theorem Beside.advanceEach (h : Beside home room s t) (ids : List ConnId) :
    Beside home room (ids.foldl advanceLine s)
      ((ids.filter (isAt home room)).foldl advanceLine t) := by
  induction ids generalizing s t with
  | nil => exact h
  | cons id ids ih =>
    rw [List.filter_cons]
    split
    · rename_i hid
      exact ih (h.both (apart_advanceLine (isAt_iff.1 hid))).2
    · rename_i hid
      have hne : room ≠ home id := fun e => hid (isAt_iff.2 e.symm)
      exact ih (h.elsewhere (apart_advanceLine rfl) hne)

theorem keys_filter_isAt (h : Shadow home room s t) :
    s.lines.keys.filter (isAt home room) = t.lines.keys.filter (isAt home room) := by
  have hrestrict : ∀ m : KeyMap ConnId Line,
      m.keys.filter (isAt home room) = (m.restrict (isAt home room)).map Prod.fst := fun m =>
    List.filter_map
  rw [hrestrict, hrestrict, h.lines]

theorem Beside.advanceLines (h : Beside home room s t) :
    Beside home room s.advanceLines t.advanceLines := by
  have hs := h.advanceEach s.lines.keys
  have ht := (Beside.refl room h.right h.clients.2).advanceEach t.lines.keys
  rw [keys_filter_isAt h.shadow] at hs
  exact ⟨hs.left, ht.left, hs.shadow.trans ht.shadow.symm, hs.clients.1, ht.clients.1⟩

theorem tasks_advanceEach (hs : Orderly home s) (ids : List ConnId) :
    (ids.foldl advanceLine s).tasks = s.tasks := by
  induction ids generalizing s with
  | nil => rfl
  | cons id ids ih =>
    have hline := @apart_advanceLine home (home id) id rfl
    exact (ih (hline.orderly s hs)).trans (hline.crew s hs).1

/-! ### Tasks -/

theorem setTask_self {i : Nat} {k : Task Rooms} (h : s.tasks[i]? = some k) : s.setTask i k = s := by
  have hset : s.tasks.set i k = s.tasks := by
    refine List.ext_getElem? fun j => ?_
    by_cases hj : i = j
    · subst hj
      rw [List.getElem?_set_self', h]
      rfl
    · rw [List.getElem?_set_ne hj]
  rw [setTask, hset]

theorem goOn_eq {work : Work} {id : ConnId} (h : work.id? = some id) (s : Server Rooms) (i : Nat)
    (script : Script Rooms Next) :
    s.goOn i work script = (drive script s).2.setTask i ((drive script s).1.task work) := by
  rcases hd : drive script s with ⟨next | ⟨ticket, resume⟩, u⟩
  · rw [goOn, hd]
    exact Work.afterScript_eq h u i next
  · rw [goOn, hd]
    rfl

theorem runTask_eq {i : Nat} {k : Task Rooms} (hi : s.tasks[i]? = some k)
    (hk : k.Confined home room) : (s.runTask i).2 = (k.go s).2.setTask i (k.go s).1 := by
  obtain ⟨id, hid, -⟩ := hk.work
  have hself := setTask_self hi
  cases hp : k.progress with
  | ended => simp only [runTask, hi, hp, Task.go, hself]
  | ready =>
    simp only [runTask, hi, hp, Task.go, Work.script?_eq hid]
    cases k.work.due? s.now with
    | none => exact hself.symm
    | some script => exact goOn_eq hid s i script
  | writing ticket resume =>
    have htask : (Stage.blocked ticket resume).task k.work = k := by
      rw [Stage.task, ← hp]
    simp only [runTask, hi, hp, Task.go, Stage.goOn]
    cases s.takeResult? ticket with
    | none => simp only [htask, hself]
    | some r => exact goOn_eq hid r.2 i (resume r.1)

/-- Tasks are run one after the other, each in its place. -/
theorem runTasks_cons {other : RoomCode} {k : Task Rooms} {pre rest : List (Task Rooms)}
    (hk : k.Confined home other) (hs : Orderly home s) (htasks : s.tasks = pre ++ k :: rest) :
    ((k.go s).2.setTask pre.length (k.go s).1).tasks = (pre ++ [(k.go s).1]) ++ rest ∧
    (s.runTasks pre.length (k :: rest).length).2 =
      (((k.go s).2.setTask pre.length (k.go s).1).runTasks
        (pre ++ [(k.go s).1]).length rest.length).2 := by
  have hi : s.tasks[pre.length]? = some k := by rw [htasks]; simp
  constructor
  · rw [setTask, ((Task.apart_go hk).crew s hs).1, htasks]
    simp
  · rw [List.length_append, ← runTask_eq hi hk]
    rfl

/-- Beside a server that runs the tasks of all rooms, another one runs those of one room. -/
theorem Beside.runTasks (h : Beside home room s t) {pre pre' rest : List (Task Rooms)}
    (hconfined : ∀ k ∈ rest, ∃ other, k.Confined home other) (hs : s.tasks = pre ++ rest)
    (ht : t.tasks = pre' ++ rest.filter (Task.isOf home room)) :
    ∃ rest' : List (Task Rooms), (∀ k ∈ rest', ∃ other, k.Confined home other) ∧
      (s.runTasks pre.length rest.length).2.tasks = pre ++ rest' ∧
      (t.runTasks pre'.length (rest.filter (Task.isOf home room)).length).2.tasks =
        pre' ++ rest'.filter (Task.isOf home room) ∧
      Beside home room (s.runTasks pre.length rest.length).2
        (t.runTasks pre'.length (rest.filter (Task.isOf home room)).length).2 := by
  induction rest generalizing s t pre pre' with
  | nil => exact ⟨[], hconfined, hs, ht, h⟩
  | cons k rest ih =>
    obtain ⟨other, hk⟩ := hconfined k List.mem_cons_self
    have hrest := fun x hx => hconfined x (List.mem_cons_of_mem k hx)
    have hgo := Task.apart_go hk
    have hk' := hgo.result s h.left
    obtain ⟨hs', hrun⟩ := runTasks_cons hk h.left hs
    rw [hrun]
    by_cases hroom : room = other
    · subst hroom
      rw [List.filter_cons_of_pos hk.isOf] at ht ⊢
      obtain ⟨ht', hrun'⟩ := runTasks_cons hk h.right ht
      obtain ⟨hvalue, hnext⟩ := h.both hgo
      rw [← hvalue] at ht' hrun'
      rw [hrun']
      have hset : Beside home room ((k.go s).2.setTask pre.length (k.go s).1)
          ((k.go t).2.setTask pre'.length (k.go s).1) := hnext.setTasks _ _
      obtain ⟨rest', hrest', htasks, htasks', hbeside⟩ := ih hset hrest hs' ht'
      refine ⟨(k.go s).1 :: rest', ?_, ?_, ?_, hbeside⟩
      · exact List.forall_mem_cons.2 ⟨⟨room, hk'⟩, hrest'⟩
      · rw [htasks, List.append_assoc, List.singleton_append]
      · rw [htasks', List.filter_cons_of_pos hk'.isOf, List.append_assoc, List.singleton_append]
    · rw [List.filter_cons_of_neg (hk.not_isOf hroom)] at ht ⊢
      have hset : Beside home room ((k.go s).2.setTask pre.length (k.go s).1) t :=
        (h.elsewhere hgo hroom).setTasks _ t.tasks
      obtain ⟨rest', hrest', htasks, htasks', hbeside⟩ := ih hset hrest hs' ht
      refine ⟨(k.go s).1 :: rest', ?_, ?_, ?_, hbeside⟩
      · exact List.forall_mem_cons.2 ⟨⟨other, hk'⟩, hrest'⟩
      · rw [htasks, List.append_assoc, List.singleton_append]
      · rw [List.filter_cons_of_neg (hk'.not_isOf hroom)]
        exact htasks'

structure Twin (home : ConnId → RoomCode) (room : RoomCode) (s t : Server Rooms) : Prop
    extends Beside home room s t where
  confined : ∀ k ∈ s.tasks, ∃ other, k.Confined home other
  tasks : t.tasks = s.tasks.filter (Task.isOf home room)

theorem pass_eq {n : Nat} (hn : s.advanceLines.tasks.length = n)
    (h : (s.advanceLines.runTasks 0 n).2.clients = []) :
    s.pass.2 = (s.advanceLines.runTasks 0 n).2 := by
  subst hn
  simp only [pass, h]
  rfl

theorem Twin.pass (h : Twin home room s t) : Twin home room s.pass.2 t.pass.2 := by
  have hs : s.advanceLines.tasks = [] ++ s.tasks := tasks_advanceEach h.left _
  have ht : t.advanceLines.tasks = [] ++ s.tasks.filter (Task.isOf home room) :=
    (tasks_advanceEach h.right _).trans h.tasks
  obtain ⟨rest, hrest, hrun, hrun', hbeside⟩ := h.toBeside.advanceLines.runTasks h.confined hs ht
  simp only [List.length_nil, List.nil_append] at hrun hrun' hbeside
  rw [pass_eq (congrArg List.length hs) hbeside.clients.1,
    pass_eq (congrArg List.length ht) hbeside.clients.2]
  refine ⟨hbeside, fun k hk => hrest k ?_, ?_⟩
  · exact hrun ▸ hk
  · exact hrun'.trans (congrArg _ hrun.symm)

/-! ### What else two servers go through together -/

theorem Twin.elsewhere {other : RoomCode} (h : Twin home room s t) (hc : Apart home other P c)
    (hne : room ≠ other) : Twin home room (c s).2 t where
  toBeside := h.toBeside.elsewhere hc hne
  confined := by
    rw [(hc.crew s h.left).1]
    exact h.confined
  tasks := by
    rw [(hc.crew s h.left).1]
    exact h.tasks

theorem Twin.both (h : Twin home room s t) (hc : Apart home room P c) :
    (c s).1 = (c t).1 ∧ Twin home room (c s).2 (c t).2 := by
  obtain ⟨hvalue, hbeside⟩ := h.toBeside.both hc
  refine ⟨hvalue, hbeside, ?_, ?_⟩
  · rw [(hc.crew s h.left).1]
    exact h.confined
  · rw [(hc.crew s h.left).1, (hc.crew t h.right).1]
    exact h.tasks

theorem confined_starting {work : Work} {id : ConnId} (h : work.id? = some id)
    (hid : home id = room) (interval : Nat) :
    (Task.mk work (startingProgress interval)).Confined home room := by
  refine ⟨⟨id, h, hid⟩, fun ticket resume hw => ?_⟩
  simp only [startingProgress] at hw
  split at hw <;> cases hw

theorem Twin.addTask_elsewhere {other : RoomCode} {work : Work} {progress : Progress Rooms}
    (h : Twin home room s t) (hk : (Task.mk work progress).Confined home other)
    (hne : room ≠ other) : Twin home room (s.addTask work progress) t where
  toBeside := h.toBeside.setTasks _ t.tasks
  confined k hmem := by
    rcases List.mem_append.1 hmem with hmem | hmem
    · exact h.confined k hmem
    · rw [List.mem_singleton.1 hmem]
      exact ⟨other, hk⟩
  tasks := by
    rw [addTask, List.filter_append, List.filter_cons_of_neg (hk.not_isOf hne), ← h.tasks]
    exact (List.append_nil _).symm

theorem Twin.addTask_both {work : Work} {progress : Progress Rooms}
    (h : Twin home room s t) (hk : (Task.mk work progress).Confined home room) :
    Twin home room (s.addTask work progress) (t.addTask work progress) where
  toBeside := h.toBeside.setTasks _ _
  confined k hmem := by
    rcases List.mem_append.1 hmem with hmem | hmem
    · exact h.confined k hmem
    · rw [List.mem_singleton.1 hmem]
      exact ⟨room, hk⟩
  tasks := by
    rw [addTask, addTask, List.filter_append, List.filter_cons_of_pos hk.isOf, ← h.tasks]
    rfl

theorem Twin.startCountdown_elsewhere {id : ConnId} (h : Twin home room s t)
    (hne : room ≠ home id) (shape : Countdown) : Twin home room (s.startCountdown id shape) t :=
  h.addTask_elsewhere (@confined_starting home _ _ id rfl rfl _) hne

theorem Twin.startCountdown_both {id : ConnId} (h : Twin home room s t) (hid : home id = room)
    (shape : Countdown) :
    Twin home room (s.startCountdown id shape) (t.startCountdown id shape) := by
  have hboth := h.addTask_both
    (@confined_starting home room (.countdown id shape s.now 0) id rfl hid shape.tick)
  rw [startCountdown, startCountdown, ← h.shadow.now]
  exact hboth

theorem Twin.startPinger_elsewhere {id : ConnId} (h : Twin home room s t)
    (hne : room ≠ home id) (interval : Nat) : Twin home room (s.startPinger id interval) t :=
  h.addTask_elsewhere (@confined_starting home _ _ id rfl rfl _) hne

theorem Twin.startPinger_both {id : ConnId} (h : Twin home room s t) (hid : home id = room)
    (interval : Nat) : Twin home room (s.startPinger id interval) (t.startPinger id interval) := by
  have hboth := h.addTask_both
    (@confined_starting home room (.ping id interval (s.now + interval)) id rfl hid interval)
  rw [startPinger, startPinger, ← h.shadow.now]
  exact hboth

theorem Twin.wait (h : Twin home room s t) (n : Nat) :
    Twin home room { s with now := s.now + n } { t with now := t.now + n } where
  left := ⟨h.left.floor, h.left.lines⟩
  right := ⟨h.right.floor, h.right.lines⟩
  shadow := ⟨h.shadow.floor, congrArg (· + n) h.shadow.now, h.shadow.started, h.shadow.lines,
    h.shadow.results, h.shadow.issued⟩
  clients := h.clients
  confined := h.confined
  tasks := h.tasks

end Server

end Cardroom
