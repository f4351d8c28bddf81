import Cardroom.Proofs.Floor.Untimed
import Cardroom.Server.Clock
/-!
What lasts while a server works. A property of servers that every single move keeps, be it a write, a
result, a change of a task or a turn of a countdown, is kept by all tasks, by passes and by settling
(`Lasting.settle`), and by what is done in the foreground if time may go by (`Lasting.perform`). The
property may depend on the tickets that are in somebody's hand.
-/

namespace Cardroom

variable {σ α : Type}

/-! ### One entry of a list -/

theorem exists_split {l : List α} {i : Nat} {a : α} (h : l[i]? = some a) :
    ∃ before after, l = before ++ a :: after ∧ ∀ b, l.set i b = before ++ b :: after := by
  obtain ⟨hi, rfl⟩ := List.getElem?_eq_some_iff.1 h
  refine ⟨l.take i, l.drop (i + 1), ?_, fun b => ?_⟩
  · rw [List.getElem_cons_drop, List.take_append_drop]
  · rw [List.set_eq_take_append_cons_drop, if_pos hi]

/-! ### Tickets and scripts that wait -/

def Stage.tickets : Stage σ α → List Ticket
  | .finished _ => []
  | .blocked ticket _ => [ticket]

def Stage.Untimed : Stage σ α → Prop
  | .finished _ => True
  | .blocked _ resume => ∀ r, (resume r).Untimed

def Progress.tickets : Progress σ → List Ticket
  | .writing ticket _ => [ticket]
  | _ => []

def Work.isCountdown : Work → Bool
  | .countdown .. => true
  | _ => false

namespace Task

/-- What the task waits to do has nothing to do with time. -/
def Untimed (k : Task σ) : Prop :=
  ∀ ticket resume, k.progress = .writing ticket resume → ∀ r, (resume r).Untimed

/-- A task other than a countdown goes on as another one; who leaves does not come back. -/
structure Follows (k l : Task σ) : Prop where
  before : k.work.isCountdown = false
  after : l.work.isCountdown = false
  leaving : ∀ client, k.work = .attend client .leaving → l.work = .attend client .leaving
  untimed : l.Untimed

theorem untimed_of_tickets {k : Task σ} (h : k.progress.tickets = []) : k.Untimed :=
  fun ticket resume hk => by
    rw [hk] at h
    cases h

end Task

namespace Server

variable {s t u : Server σ} {id : ConnId} {p : Payload} {ticket : Ticket} {hand : List Ticket}
  {i : Nat} {k l : Task σ}

def tickets : Except TransportError Unit ⊕ Ticket → List Ticket
  | .inl _ => []
  | .inr ticket => [ticket]

def askToClose (s : Server σ) (id : ConnId) : (Except TransportError Unit ⊕ Ticket) × Server σ :=
  (s.onFloor (·.modifyConnection id .markClosed)).ask id .close

/-! ### What writing leaves alone -/

structure Stays (s t : Server σ) : Prop where
  tasks : t.tasks = s.tasks
  clients : t.clients = s.clients
  now : t.now = s.now
  issued : ∀ x, (s.issued.get? x).getD 0 ≤ (t.issued.get? x).getD 0

namespace Stays

theorem of_issued (htasks : t.tasks = s.tasks) (hclients : t.clients = s.clients)
    (hnow : t.now = s.now) (hissued : t.issued = s.issued) : s.Stays t :=
  ⟨htasks, hclients, hnow, fun _ => Nat.le_of_eq (by rw [hissued])⟩

theorem refl (s : Server σ) : s.Stays s := .of_issued rfl rfl rfl rfl

theorem trans (hst : s.Stays t) (htu : t.Stays u) : s.Stays u :=
  ⟨htu.tasks.trans hst.tasks, htu.clients.trans hst.clients, htu.now.trans hst.now,
    fun x => Nat.le_trans (hst.issued x) (htu.issued x)⟩

end Stays

theorem stays_issue (h : t.issued = s.issued) (id : ConnId) : t.Stays (t.issue (s.nextTicket id)) where
  tasks := rfl
  clients := rfl
  now := rfl
  issued x := by
    change _ ≤ ((t.issued.insert id _).get? x).getD 0
    rw [KeyMap.get?_insert, h]
    split
    · rename_i hx
      rw [hx]
      exact Nat.le_succ _
    · exact Nat.le_refl _

theorem stays_react (s : Server σ) (id : ConnId) : s.Stays (s.react id).2.2 := by
  unfold react
  split <;> exact .of_issued rfl rfl rfl rfl

theorem stays_record (s : Server σ) (id : ConnId) (p : Payload) (r : Reaction) :
    s.Stays (s.record id p r).2 := by
  unfold record
  split <;> exact .of_issued rfl rfl rfl rfl

theorem stays_giveTurns (s : Server σ) (id : ConnId) (waiting : List Request) :
    s.Stays (s.giveTurns id waiting) := by
  induction waiting generalizing s with
  | nil => exact .of_issued rfl rfl rfl rfl
  | cons q waiting ih =>
    have hreact := stays_react s id
    rw [giveTurns]
    generalize s.react id = reacted at hreact ⊢
    obtain ⟨r, duration, t⟩ := reacted
    dsimp only
    split
    · have hkeep : (t.record id q.payload r).2.Stays ((t.record id q.payload r).2.keepResult q.ticket
          (t.record id q.payload r).1) := .of_issued rfl rfl rfl rfl
      exact hreact.trans ((stays_record ..).trans (hkeep.trans (ih _)))
    · exact ⟨hreact.tasks, hreact.clients, hreact.now, hreact.issued⟩

theorem stays_advanceLine (s : Server σ) (id : ConnId) : s.Stays (s.advanceLine id) := by
  unfold advanceLine
  split
  · exact .refl s
  · split
    · rename_i line _ _
      have hrecord := stays_record s id line.current.request.payload line.current.reaction
      generalize s.record id line.current.request.payload line.current.reaction = recorded
        at hrecord ⊢
      have hkeep : recorded.2.Stays (recorded.2.keepResult line.current.request.ticket recorded.1) :=
        .of_issued rfl rfl rfl rfl
      exact hrecord.trans (hkeep.trans (stays_giveTurns ..))
    · exact .refl s

theorem stays_foldl_advanceLine (ids : List ConnId) (s : Server σ) :
    s.Stays (ids.foldl advanceLine s) := by
  induction ids generalizing s with
  | nil => exact .refl s
  | cons id ids ih => exact (stays_advanceLine s id).trans (ih _)

theorem stays_advanceLines (s : Server σ) : s.Stays s.advanceLines :=
  stays_foldl_advanceLine s.lines.keys s

theorem stays_ask (s : Server σ) (id : ConnId) (p : Payload) : s.Stays (s.ask id p).2 := by
  have hjoin : ∀ (t : Server σ) (line : Line), t.issued = s.issued →
      t.Stays { t.issue (s.nextTicket id) with lines := t.lines.insert id line } := fun t line h =>
    (stays_issue h id).trans (.of_issued rfl rfl rfl rfl)
  unfold ask
  split
  · exact hjoin s _ rfl
  · have hreact := stays_react s id
    have hissued : (s.react id).2.2.issued = s.issued := by
      unfold react
      split <;> rfl
    generalize s.react id = reacted at hreact hissued ⊢
    obtain ⟨r, duration, t⟩ := reacted
    dsimp only
    split
    · exact hreact.trans (stays_record t id p r)
    · exact hreact.trans (hjoin t _ hissued)

theorem stays_of_ask {p : Payload} {asked : Except TransportError Unit ⊕ Ticket}
    (h : s.ask id p = (asked, t)) : s.Stays t := by
  have hstays := stays_ask s id p
  rwa [h] at hstays

theorem stays_askToClose (s : Server σ) (id : ConnId) : s.Stays (s.askToClose id).2 := by
  have hmark : s.Stays (s.onFloor (·.modifyConnection id .markClosed)) :=
    .of_issued rfl rfl rfl rfl
  exact hmark.trans (stays_ask _ id .close)

theorem stays_takeResult {r : Except TransportError Unit} (h : s.takeResult? ticket = some (r, t)) :
    s.Stays t := by
  obtain ⟨r', -, e⟩ := Option.map_eq_some_iff.1 h
  cases e
  exact .of_issued rfl rfl rfl rfl

theorem stays_cancel (s : Server σ) (ticket : Ticket) : s.Stays (s.cancel ticket) := by
  unfold cancel
  split
  · exact .refl s
  · split
    · exact stays_giveTurns ..
    · exact .of_issued rfl rfl rfl rfl

theorem stays_drive (script : Script σ α) (s : Server σ) : s.Stays (drive script s).2 := by
  -- a script is driven on only where a write is over at once; there the rest is driven
  induction script generalizing s with
  | done a => exact .refl s
  | step change next ih =>
    have hchange : s.Stays (s.onFloor change) := .of_issued rfl rfl rfl rfl
    exact hchange.trans (ih s.floor (s.onFloor change))
  | write id p next ih =>
    have hask := stays_ask s id p
    rw [drive]
    split
    · exact ih _ s
    · generalize s.ask id p = asked at hask ⊢
      obtain ⟨result | ticket, t⟩ := asked
      · exact hask.trans (ih result t)
      · exact hask
  | close id next ih =>
    have hask := stays_askToClose s id
    unfold askToClose at hask
    rw [drive]
    split
    · exact ih s
    · generalize (s.onFloor (·.modifyConnection id .markClosed)).ask id .close = asked at hask ⊢
      obtain ⟨result | ticket, t⟩ := asked
      · exact hask.trans (ih t)
      · exact hask

/-! ### Tasks -/

theorem works_endTask (s : Server σ) (i : Nat) :
    (s.endTask i).tasks.map Task.work = s.tasks.map Task.work := by
  unfold endTask
  split
  · rfl
  · rename_i k hk
    have hset : (s.tasks.set i { k with progress := .ended }).map Task.work =
        s.tasks.map Task.work := by
      obtain ⟨before, after, htasks, hset⟩ := exists_split hk
      rw [hset, htasks, List.map_append, List.map_append, List.map_cons, List.map_cons]
    dsimp only
    split
    · rw [(stays_cancel ..).tasks]
      exact hset
    · exact hset

theorem clients_endTask (s : Server σ) (i : Nat) : (s.endTask i).clients = s.clients := by
  unfold endTask
  split
  · rfl
  · dsimp only
    split
    · rw [(stays_cancel ..).clients]
    · rfl

theorem lastTask?_spec {of : Work → Bool} (h : s.lastTask? of = some i) :
    ∃ k, s.tasks[i]? = some k ∧ of k.work = true := by
  obtain ⟨⟨k, j⟩, hlast, rfl⟩ := Option.map_eq_some_iff.1 h
  obtain ⟨hmem, hof⟩ := List.mem_filter.1 (List.mem_of_getLast? hlast)
  exact ⟨k, List.mem_zipIdx_iff_getElem?.1 hmem, hof⟩

/-- The server's side of a web socket on the connection is leaving. -/
def Leaving (s : Server σ) (id : ConnId) : Prop :=
  ∃ client, Work.attend client .leaving ∈ s.tasks.map Task.work ∧
    (s.clients.map Client.id)[client]? = some id

theorem Leaving.mono (h : s.Leaving id)
    (htasks : ∀ client, Work.attend client .leaving ∈ s.tasks.map Task.work →
      Work.attend client .leaving ∈ t.tasks.map Task.work)
    (hclients : s.clients.map Client.id <+: t.clients.map Client.id) : t.Leaving id := by
  obtain ⟨client, hwork, hid⟩ := h
  obtain ⟨more, hmore⟩ := hclients
  refine ⟨client, htasks client hwork, ?_⟩
  rw [← hmore, List.getElem?_append_left (List.getElem?_eq_some_iff.1 hid).1]
  exact hid

theorem Leaving.congr (h : s.Leaving id) (htasks : t.tasks.map Task.work = s.tasks.map Task.work)
    (hclients : t.clients = s.clients) : t.Leaving id :=
  h.mono (fun _ hwork => htasks ▸ hwork) (hclients ▸ List.prefix_rfl)

theorem tickets_startingProgress (interval : Nat) :
    (startingProgress interval : Progress σ).tickets = [] := by
  unfold startingProgress
  split <;> rfl

def afterWrite (next : Next) : Except TransportError Unit → Script σ Next
  | .ok _ => .done next
  | .error _ => .done .finish

theorem writeOrFinish_eq (id : ConnId) (p : Payload) (next : Next) :
    (writeOrFinish id p next : Script σ Next) = .write id p (afterWrite next) := by
  unfold writeOrFinish Script.writeTo
  refine congrArg (Script.write id p) (funext fun r => ?_)
  cases r <;> rfl

theorem untimed_afterWrite (next : Next) (r : Except TransportError Unit) :
    (afterWrite next r : Script σ Next).Untimed := by
  cases r <;> exact trivial

/-! ### The scripts of web sockets -/

section

variable [RoomStore σ] (c : Client)

theorem untimed_joinScript : (joinScript c : Script σ Next).Untimed := by
  refine (Script.untimed_count _ _).monad_bind fun _ =>
    (Script.untimed_count _ _).monad_bind fun _ => ?_
  cases c.side with
  | lobby => exact (Lobby.untimed_enter c.room c.id).monad_bind fun _ => Script.untimed_pure _
  | table =>
    refine (Tableside.untimed_join c.room c.id).monad_bind fun r => ?_
    cases r with
    | ok _ => exact Script.untimed_pure _
    | error e =>
      exact (Script.untimed_closeOne c.id).monad_bind fun _ =>
        (Script.untimed_count _ _).monad_bind fun _ => Script.untimed_pure _

theorem untimed_leaveScript : (leaveScript c : Script σ Next).Untimed := by
  have hclose : ∀ side, (do
      Script.closeOne c.id
      Script.change (·.count (.active side) (-1))
      return .finish : Script σ Next).Untimed := fun side =>
    (Script.untimed_closeOne c.id).monad_bind fun _ =>
      (Script.untimed_count _ _).monad_bind fun _ => Script.untimed_pure _
  unfold leaveScript
  cases c.side with
  | lobby => exact (Lobby.untimed_leave c.room c.id).monad_bind fun _ => hclose .lobby
  | table => exact (Tableside.untimed_leave c.room c.id).monad_bind fun _ => hclose .table

omit [RoomStore σ] in
theorem untimed_countOutcome (side : Side) (o : Outcome) :
    (Script.change (σ := σ) (countOutcome side o)).Untimed :=
  Script.untimed_change fun f => by
    unfold countOutcome
    split
    · exact ⟨rfl, rfl⟩
    · split <;> exact ⟨rfl, rfl⟩

theorem untimed_receive (raw : String) : (receive c raw : Script σ Outcome).Untimed := by
  unfold receive
  cases c.side with
  | lobby => exact Lobby.untimed_receive c.room c.user raw
  | table => exact Tableside.untimed_receive c.room c.user raw

theorem untimed_frameScript (raw : String) (admitted : Bool) :
    (frameScript c raw admitted : Script σ Next).Untimed := by
  refine (Script.untimed_count _ _).monad_bind fun _ => ?_
  split
  · refine (untimed_receive c raw).monad_bind fun outcome =>
      (untimed_countOutcome c.side outcome).monad_bind fun _ =>
        (Script.untimed_look _).monad_bind fun closed => ?_
    split <;> exact Script.untimed_pure _
  · exact (untimed_countOutcome c.side _).monad_bind fun _ => Script.untimed_pure _

omit [RoomStore σ] in
theorem untimed_malformedScript : (malformedScript c : Script σ Next).Untimed :=
  (untimed_countOutcome c.side _).monad_bind fun _ => Script.untimed_pure _

theorem messageScript_cases (s : Server σ) (i : Nat) (m : Message) :
    s.messageScript i c m = (s, pure .leave) ∨ s.messageScript i c m = (s, pure .again) ∨
      s.messageScript i c m = (s, malformedScript c) ∨
      (∃ raw, s.messageScript i c m = s.takeFrame i c raw) ∨
      ∃ data, s.messageScript i c m = (s.answerPing c.id data, pure .again) := by
  have hframe : ∀ raw, ∃ raw', s.takeFrame i c raw = s.takeFrame i c raw' := fun raw => ⟨raw, rfl⟩
  unfold messageScript
  split
  · split
    · exact .inl rfl
    · exact .inr (.inr (.inr (.inl (hframe _))))
  · split
    · exact .inl rfl
    · split
      · exact .inr (.inr (.inr (.inl (hframe _))))
      · exact .inr (.inr (.inl rfl))
  · exact .inr (.inr (.inr (.inr ⟨_, rfl⟩)))
  · exact .inr (.inl rfl)
  · exact .inl rfl
  · exact .inl rfl

end

/-! ### Moves -/

variable [RoomStore σ]

/-- A property of servers, and of the tickets in somebody's hand, that each move of a server at work
keeps. It tells that what waits has nothing to do with time, save for countdowns. -/
structure Lasting (P : List Ticket → Server σ → Prop) : Prop where
  subset : ∀ {hand fewer s}, fewer ⊆ hand → P hand s → P fewer s
  floor : ∀ {hand s} {g : Floor σ}, s.floor.Spared g → P hand s → P hand (s.onFloor fun _ => g)
  ask : ∀ {hand s id p}, p.Plain → s.floor.isClosed id = false → P hand s →
    P (tickets (s.ask id p).1 ++ hand) (s.ask id p).2
  close : ∀ {hand s id}, s.floor.isClosed id = false → P hand s →
    P (tickets (s.askToClose id).1 ++ hand) (s.askToClose id).2
  advanceLine : ∀ {hand s} id, P hand s → P hand (s.advanceLine id)
  takeResult : ∀ {hand s ticket r t}, s.takeResult? ticket = some (r, t) →
    (ticket ∈ hand ∨ ∃ k ∈ s.tasks, k.work.isCountdown = false ∧ ticket ∈ k.progress.tickets) →
    P hand s → P hand t
  untimed : ∀ {hand s} {k : Task σ}, P hand s → k ∈ s.tasks → k.work.isCountdown = false → k.Untimed
  setTask : ∀ {hand s i} {k l : Task σ}, s.tasks[i]? = some k → k.Follows l →
    P (l.progress.tickets ++ hand) s → P hand (s.setTask i l)
  endTask : ∀ {hand s i} {k : Task σ}, s.tasks[i]? = some k →
    (∀ id, isCountdownOf id k.work = true → s.Leaving id) → P hand s → P hand (s.endTask i)
  addTask : ∀ {hand s work} {progress : Progress σ}, work.isCountdown = false → progress.tickets = [] →
    P hand s → P hand (s.addTask work progress)
  startCountdown : ∀ {hand s} {c : Client}, c ∈ s.clients → P hand s →
    P hand (s.startCountdown c.id (countdownShape s.floor.config))
  count : ∀ {hand s i} {k : Task σ}, s.tasks[i]? = some k → k.work.isCountdown = true → P hand s →
    P hand (s.runTask i).2
  clients : ∀ {hand s} {cs : List Client}, cs.map Client.id = s.clients.map Client.id →
    P hand s → P hand { s with clients := cs }
  answerPing : ∀ {hand s} id data, P hand s → P hand (s.answerPing id data)

namespace Lasting

variable {P : List Ticket → Server σ → Prop} (h : Lasting P)
include h

theorem drive {script : Script σ α} (hscript : script.Untimed) (hP : P hand s) :
    P ((drive script s).1.tickets ++ hand) (drive script s).2 ∧ (drive script s).1.Untimed := by
  induction script generalizing s with
  | done a => exact ⟨hP, trivial⟩
  | step change next ih => exact ih s.floor (hscript.2 s.floor) (h.floor (hscript.1 s.floor) hP)
  | write id p next ih =>
    rw [Server.drive]
    split
    · exact ih _ (hscript.2 _) hP
    · rename_i hopen
      have hask := h.ask hscript.1 (Bool.not_eq_true _ ▸ hopen) hP
      generalize s.ask id p = asked at hask ⊢
      obtain ⟨result | ticket, t⟩ := asked
      · exact ih result (hscript.2 result) hask
      · exact ⟨hask, hscript.2⟩
  | close id next ih =>
    rw [Server.drive]
    split
    · exact ih hscript hP
    · rename_i hopen
      have hask := h.close (Bool.not_eq_true _ ▸ hopen) hP
      unfold askToClose at hask
      generalize (s.onFloor (·.modifyConnection id .markClosed)).ask id .close = asked at hask ⊢
      obtain ⟨result | ticket, t⟩ := asked
      · exact ih hscript hask
      · exact ⟨hask, fun _ => hscript⟩

/-! ### Looking after web sockets -/

theorem modifyClient {g : Client → Client} (hg : ∀ c, (g c).id = c.id) (i : Nat) (hP : P hand s) :
    P hand (s.modifyClient i g) := by
  refine h.clients (List.ext_getElem? fun j => ?_) hP
  rw [List.getElem?_map, List.getElem?_map, List.getElem?_modify, Option.map_eq_map, Option.map_map]
  refine congrArg (Option.map · s.clients[j]?) (funext fun c => ?_)
  simp only [Function.comp_apply]
  split
  · exact hg c
  · rfl

theorem endLast {of : Work → Bool}
    (hof : ∀ work, of work = true → ∀ id, isCountdownOf id work = true → s.Leaving id)
    (hP : P hand s) : P hand (s.endLast of) := by
  unfold Server.endLast
  split
  · rename_i i hi
    obtain ⟨k, hk, hwork⟩ := lastTask?_spec hi
    exact h.endTask hk (hof k.work hwork) hP
  · exact hP

theorem abort (hleaving : s.Leaving id) (hP : P hand s) : P hand (s.abort id) := by
  have hping : P hand (s.endLast (isPingerOf id)) := by
    refine h.endLast (fun work hwork other hother => ?_) hP
    cases work <;> first | cases hwork | cases hother
  refine h.endLast (fun work hwork other hother => ?_) hping
  have hsame : other = id := by
    cases work with
    | countdown x shape start index =>
      exact (of_decide_eq_true hother).symm.trans (of_decide_eq_true hwork)
    | _ => cases hwork
  subst hsame
  unfold Server.endLast
  split
  · exact hleaving.congr (works_endTask ..) (clients_endTask ..)
  · exact hleaving

theorem setReady {work : Work} (hi : s.tasks[i]? = some k) (hk : k.work.isCountdown = false)
    (hwork : work.isCountdown = false)
    (hleaving : ∀ client, k.work = .attend client .leaving → work = .attend client .leaving)
    {progress : Progress σ} (hprogress : progress.tickets = []) (hP : P hand s) :
    P hand (s.setTask i ⟨work, progress⟩) := by
  refine h.setTask hi ⟨hk, hwork, hleaving, Task.untimed_of_tickets hprogress⟩ ?_
  rw [hprogress]
  exact hP

theorem startListening {client : Nat} {c : Client} (hi : s.tasks[i]? = some k)
    (hk : k.work = .attend client .joining) (hc : s.clients[client]? = some c) (hP : P hand s) :
    P hand (s.startListening i client c) := by
  have hset : P hand (s.setTask i
      ⟨.attend client (.listening (s.now + s.floor.config.readTimeout)), .ready⟩) :=
    h.setReady hi (by rw [hk]; rfl) rfl (fun x hx => by rw [hk] at hx; cases hx) rfl hP
  refine h.addTask rfl (tickets_startingProgress _) ?_
  split
  · exact h.startCountdown (List.mem_of_getElem? hc) hset
  · exact hset

theorem afterAttending {client : Nat} {phase : Attending} (hi : s.tasks[i]? = some k)
    (hk : k.work = .attend client phase) (next : Next) (hP : P hand s) :
    P hand (s.afterAttending i client phase next) := by
  have hcountdown : k.work.isCountdown = false := by rw [hk]; rfl
  have hended : P hand (s.setTask i ⟨.attend client phase, .ended⟩) :=
    h.setReady hi hcountdown rfl (fun x hx => hk ▸ hx) rfl hP
  unfold Server.afterAttending
  split
  · rename_i c hc
    exact h.startListening hi hk hc hP
  · rename_i c deadline hc
    have hleaving : (s.setTask i ⟨.attend client .leaving, .ready⟩).Leaving c.id := by
      refine ⟨client, ?_, ?_⟩
      · have hlt : i < s.tasks.length := (List.getElem?_eq_some_iff.1 hi).1
        exact List.mem_map.2 ⟨_, List.mem_set hlt _, rfl⟩
      · rw [List.getElem?_map]
        exact congrArg (Option.map Client.id) hc
    exact h.abort hleaving
      (h.setReady hi hcountdown rfl (fun x hx => by rw [hk] at hx; cases hx) rfl hP)
  · exact h.setReady hi hcountdown rfl (fun x hx => by rw [hk] at hx; cases hx) rfl hP
  · exact h.modifyClient (fun _ => by rfl) client hended

theorem afterScript (hi : s.tasks[i]? = some k) (hk : k.work.isCountdown = false) (next : Next)
    (hP : P hand s) : P hand (s.afterScript i k.work next) := by
  have hended : P hand (s.setTask i ⟨k.work, .ended⟩) :=
    h.setReady hi hk hk (fun _ hx => hx) rfl hP
  unfold Server.afterScript
  split
  · rename_i hwork
    rw [hwork] at hk
    cases hk
  · rename_i hwork
    exact h.setReady hi hk rfl (fun x hx => by rw [hwork] at hx; cases hx) rfl hP
  · rename_i hwork
    exact h.afterAttending hi hwork _ hP
  · exact hended

theorem goOn {script : Script σ Next} (hi : s.tasks[i]? = some k)
    (hk : k.work.isCountdown = false) (hscript : script.Untimed) (hP : P hand s) :
    P hand (s.goOn i k.work script) := by
  obtain ⟨hdrive, hstage⟩ := h.drive hscript hP
  have hi' : (Server.drive script s).2.tasks[i]? = some k := by rw [(stays_drive script s).tasks, hi]
  unfold Server.goOn
  rcases hd : Server.drive script s with ⟨next | ⟨ticket, resume⟩, t⟩
  · rw [hd] at hdrive hi'
    exact h.afterScript hi' hk next hdrive
  · rw [hd] at hdrive hstage hi'
    refine h.setTask hi' ⟨hk, hk, fun _ hx => hx, ?_⟩ hdrive
    intro ticket' resume' e
    cases e
    exact hstage

theorem scriptOfMessage (client : Nat) (c : Client) (m : Message) (hP : P hand s) :
    P hand (s.messageScript client c m).1 ∧ (s.messageScript client c m).2.Untimed ∧
      (s.messageScript client c m).1.tasks = s.tasks := by
  obtain e | e | e | ⟨raw, e⟩ | ⟨data, e⟩ := messageScript_cases c s client m <;> rw [e]
  · exact ⟨hP, trivial, rfl⟩
  · exact ⟨hP, trivial, rfl⟩
  · exact ⟨hP, untimed_malformedScript c, rfl⟩
  · have hlimiter : P hand
        (s.modifyClient client ({ · with limiter := (c.limiter.check s.now).2 })) :=
      h.modifyClient (fun _ => by rfl) client hP
    exact ⟨hlimiter, untimed_frameScript c raw _, rfl⟩
  · exact ⟨h.answerPing c.id data hP, trivial, rfl⟩

theorem scriptOf {work : Work} (hwork : work.isCountdown = false) {t : Server σ}
    {script : Script σ Next} (hs : s.script? work = some (t, script)) (hP : P hand s) :
    P hand t ∧ script.Untimed ∧ t.tasks = s.tasks := by
  cases work with
  | countdown id shape start index => cases hwork
  | ping id interval due =>
    simp only [script?, Option.ite_none_right_eq_some, Option.some.injEq, Prod.mk.injEq] at hs
    obtain ⟨-, rfl, rfl⟩ := hs
    exact ⟨hP, writeOrFinish_eq id _ _ ▸ ⟨⟨rfl, rfl⟩, untimed_afterWrite _⟩, rfl⟩
  | attend client phase =>
    obtain ⟨c, -, hs⟩ := Option.bind_eq_some_iff.1 hs
    cases phase with
    | joining =>
      cases hs
      exact ⟨hP, untimed_joinScript c, rfl⟩
    | leaving =>
      cases hs
      exact ⟨hP, untimed_leaveScript c, rfl⟩
    | listening deadline =>
      simp only [attendScript?] at hs
      split at hs
      · rename_i m rest _
        have hmessage := h.scriptOfMessage client c m
          (h.modifyClient (g := ({ · with inbox := rest })) (fun _ => rfl) client hP)
        rw [Option.some.inj hs] at hmessage
        exact hmessage
      · simp only [Option.ite_none_right_eq_some, Option.some.injEq, Prod.mk.injEq] at hs
        obtain ⟨-, rfl, rfl⟩ := hs
        exact ⟨hP, trivial, rfl⟩

/-! ### Passes -/

theorem runTask (i : Nat) (hP : P hand s) : P hand (s.runTask i).2 := by
  cases hi : s.tasks[i]? with
  | none =>
    rw [Server.runTask, hi]
    exact hP
  | some k =>
    cases hk : k.work.isCountdown with
    | true => exact h.count hi hk hP
    | false =>
      rw [Server.runTask, hi]
      dsimp only
      split
      · exact hP
      · split
        · exact hP
        · rename_i t script hscript
          obtain ⟨ht, huntimed, htasks⟩ := h.scriptOf hk hscript hP
          exact h.goOn (by rw [htasks, hi]) hk huntimed ht
      · rename_i ticket resume hprogress
        split
        · exact hP
        · rename_i r t hresult
          have hmem : k ∈ s.tasks := List.mem_of_getElem? hi
          have ht : P hand t := h.takeResult hresult
            (.inr ⟨k, hmem, hk, by rw [hprogress]; exact List.mem_singleton_self ticket⟩) hP
          exact h.goOn (by rw [(stays_takeResult hresult).tasks, hi]) hk
            (h.untimed hP hmem hk ticket resume hprogress r) ht

theorem runTasks (i n : Nat) (hP : P hand s) : P hand (s.runTasks i n).2 := by
  induction n generalizing s i with
  | zero => exact hP
  | succ n ih => exact ih (i + 1) (h.runTask i hP)

theorem reactClient (i : Nat) (hP : P hand s) : P hand (s.reactClient i).2 := by
  unfold Server.reactClient
  split
  · exact hP
  · split
    · exact hP
    · split
      · exact h.modifyClient (fun _ => by rfl) i hP
      · exact hP

theorem reactClients (i n : Nat) (hP : P hand s) : P hand (s.reactClients i n).2 := by
  induction n generalizing s i with
  | zero => exact hP
  | succ n ih => exact ih (i + 1) (h.reactClient i hP)

theorem advanceLines (hP : P hand s) : P hand s.advanceLines := by
  unfold Server.advanceLines
  generalize s.lines.keys = ids
  induction ids generalizing s with
  | nil => exact hP
  | cons id ids ih => exact ih (h.advanceLine id hP)

theorem pass (hP : P hand s) : P hand s.pass.2 :=
  h.reactClients 0 _ (h.runTasks 0 _ (h.advanceLines hP))

theorem settleWithin (n : Nat) (hP : P hand s) : P hand (s.settleWithin n) := by
  induction n generalizing s with
  | zero => exact hP
  | succ n ih =>
    have hpass := h.pass hP
    rw [Server.settleWithin]
    generalize s.pass = passed at hpass ⊢
    obtain ⟨_ | _, t⟩ := passed
    · exact hpass
    · exact ih hpass

theorem settle (hP : P hand s) : P hand s.settle := h.settleWithin passLimit hP

/-! ### In the foreground -/

variable (htick : ∀ {hand : List Ticket} {s : Server σ}, P hand s → P hand s.tick)
include htick

omit h in
theorem advance (n : Nat) (hP : P hand s) : P hand (s.advance n) := by
  induction n generalizing s with
  | zero => exact hP
  | succ n ih => exact ih (htick hP)

theorem finishWithin {stage : Stage σ α} (n : Nat) (hstage : stage.Untimed)
    (hP : P (stage.tickets ++ hand) s) : P hand (s.finishWithin stage n).2 := by
  induction n generalizing stage s with
  | zero => exact h.subset (List.subset_append_right ..) hP
  | succ n ih =>
    cases stage with
    | finished a => exact hP
    | blocked ticket resume =>
      rw [Server.finishWithin]
      cases hresult : s.takeResult? ticket with
      | none => exact ih hstage (htick hP)
      | some taken =>
        obtain ⟨r, t⟩ := taken
        have ht : P hand t := h.subset (List.subset_append_right ..)
          (h.takeResult hresult (.inl List.mem_cons_self) hP)
        obtain ⟨hdrive, huntimed⟩ := h.drive (hstage r) ht
        exact ih huntimed (h.settle hdrive)

theorem perform {script : Script σ α} (hscript : script.Untimed) (hP : P hand s) :
    P hand (s.perform script).2 := by
  obtain ⟨hdrive, huntimed⟩ := h.drive hscript hP
  exact h.finishWithin htick patience huntimed (h.settle hdrive)

omit htick in
theorem startAll {scripts : List (Script σ α)} (hscripts : ∀ x ∈ scripts, x.Untimed)
    (hP : P hand s) :
    P ((startAll scripts s).1.flatMap Stage.tickets ++ hand) (startAll scripts s).2 ∧
      ∀ stage ∈ (startAll scripts s).1, stage.Untimed := by
  induction scripts generalizing s hand with
  | nil => exact ⟨hP, by simp [Server.startAll]⟩
  | cons script scripts ih =>
    obtain ⟨hscript, hscripts⟩ := List.forall_mem_cons.1 hscripts
    obtain ⟨hdrive, huntimed⟩ := h.drive hscript hP
    obtain ⟨hrest, hall⟩ := ih hscripts hdrive
    refine ⟨h.subset (fun ticket hmem => ?_) hrest, List.forall_mem_cons.2 ⟨huntimed, hall⟩⟩
    simp only [Server.startAll, List.flatMap_cons, List.mem_append] at hmem ⊢
    tauto

theorem finishAll {stages : List (Stage σ α)} (hstages : ∀ x ∈ stages, x.Untimed)
    (hP : P (stages.flatMap Stage.tickets ++ hand) s) : P hand (finishAll stages s).2 := by
  induction stages generalizing s with
  | nil => exact hP
  | cons stage stages ih =>
    obtain ⟨hstage, hstages⟩ := List.forall_mem_cons.1 hstages
    rw [List.flatMap_cons, List.append_assoc] at hP
    exact ih hstages (h.finishWithin htick patience hstage hP)

theorem performAll {scripts : List (Script σ α)} (hscripts : ∀ x ∈ scripts, x.Untimed)
    (hP : P hand s) : P hand (s.performAll scripts).2 := by
  obtain ⟨hstart, huntimed⟩ := h.startAll hscripts hP
  exact h.finishAll htick huntimed (h.settle hstart)

end Lasting

end Server

end Cardroom
