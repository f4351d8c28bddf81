import Cardroom.Proofs.Server.Apart
import Cardroom.Proofs.Server.Lasting
import Mathlib.Logic.Function.Basic
import Mathlib.Logic.Relation
/-!
One connection of a server at work: what was attempted on it, what stands in its line, and which
results are kept for whoever waits for them. Whatever the server does, but for the turns of the
connection's own countdown, comes down to a few steps on this wire (`Wire.Step`), and does not show on
the wires of other connections.
-/

namespace Cardroom

variable {σ : Type}

def Line.requests (line : Line) : List Request := line.current.request :: line.waiting

/-- What can be told of one connection. The attempts are in the order in which they were made; the
results are kept under the numbers of the connection's tickets. -/
@[ext] structure Wire where
  known : Bool
  closed : Bool
  attempts : List Attempt
  queue : List Request
  kept : Nat → Option (Except TransportError Unit)
  issued : Nat

namespace Wire

variable {w v : Wire} {id : ConnId} {mine : Nat → Prop}

def of (connection : Option Connection) (line : Option Line)
    (kept : Nat → Option (Except TransportError Unit)) (issued : Option Nat) : Wire where
  known := connection.isSome
  closed := connection.all (·.closed)
  attempts := connection.elim [] (·.attempts.reverse)
  queue := line.elim [] Line.requests
  kept := kept
  issued := issued.getD 0

def attempt (w : Wire) (p : Payload) (r : Except TransportError Unit) : Wire :=
  { w with attempts := w.attempts ++ [⟨p, r⟩] }

def enqueue (w : Wire) (id : ConnId) (p : Payload) : Wire :=
  { w with queue := w.queue ++ [⟨⟨id, w.issued⟩, p⟩], issued := w.issued + 1 }

def finish (w : Wire) (q : Request) (rest : List Request) (r : Except TransportError Unit) : Wire :=
  { w.attempt q.payload r with
    queue := rest
    kept := Function.update w.kept q.ticket.number (some r) }

def drop (w : Wire) (number : Nat) : Wire :=
  { w with queue := w.queue.filter (·.ticket.number ≠ number) }

def take (w : Wire) (number : Nat) : Wire :=
  { w with kept := Function.update w.kept number none }

def mark (w : Wire) (closing : Bool) : Wire := { w with closed := w.closed || closing }

/-- What happens to a connection while `mine` are the tickets of its own countdown. -/
inductive Step (id : ConnId) (mine : Nat → Prop) : Wire → Wire → Prop where
  | now {w : Wire} {p : Payload} (hp : p.isTimer = false) (hopen : w.closed = false)
    (hqueue : w.queue = []) (r : Except TransportError Unit) :
    Step id mine w ((w.mark p.isClose).attempt p r)
  | later {w : Wire} {p : Payload} (hp : p.isTimer = false) (hopen : w.closed = false) :
    Step id mine w ((w.mark p.isClose).enqueue id p)
  | finish {w : Wire} {q : Request} {rest : List Request} (hqueue : w.queue = q :: rest)
    (r : Except TransportError Unit) : Step id mine w (w.finish q rest r)
  | drop {w : Wire} {number : Nat} (h : ¬ mine number) : Step id mine w (w.drop number)
  | take {w : Wire} {number : Nat} (h : ¬ mine number) : Step id mine w (w.take number)
  | pong {w : Wire} (data : String) (r : Except TransportError Unit) :
    Step id mine w (w.attempt (.pong data) r)

abbrev Steps (id : ConnId) (mine : Nat → Prop) : Wire → Wire → Prop :=
  Relation.ReflTransGen (Step id mine)

theorem Steps.of_eq (h : v = w) : Steps id mine w v := h ▸ .refl

end Wire

namespace Server

variable {s t : Server σ} {id x : ConnId} {p : Payload} {ticket : Ticket} {mine : Nat → Prop}
  {waiting : List Request} {c : Connection}

def wire (s : Server σ) (id : ConnId) : Wire :=
  .of (s.floor.connection? id) (s.lines.get? id) (fun n => s.results.get? ⟨id, n⟩)
    (s.issued.get? id)

/-- Every line belongs to a connection that there is, and only its own writes stand in it. -/
def Wired (s : Server σ) : Prop :=
  ∀ x line, s.lines.get? x = some line → line.Of x ∧ (s.floor.connection? x).isSome = true

/-! ### Small changes -/

theorem wire_setConnection (s : Server σ) (id x : ConnId) (c : Connection) :
    (s.onFloor (·.setConnection id c)).wire x =
      if x = id then .of (some c) (s.lines.get? x) (s.wire x).kept (s.issued.get? x)
      else s.wire x := by
  have hget : (s.floor.setConnection id c).connection? x =
      if x = id then some c else s.floor.connection? x := s.floor.connection?_setConnection id x c
  change Wire.of ((s.floor.setConnection id c).connection? x) _ _ _ = _
  rw [hget]
  split <;> rfl

theorem wire_insertLine (s : Server σ) (id x : ConnId) (line : Line) :
    wire { s with lines := s.lines.insert id line } x =
      if x = id then { s.wire x with queue := line.requests } else s.wire x := by
  change Wire.of _ ((s.lines.insert id line).get? x) _ _ = _
  rw [KeyMap.get?_insert]
  split <;> rfl

theorem wire_eraseLine (s : Server σ) (id x : ConnId) :
    wire { s with lines := s.lines.erase id } x =
      if x = id then { s.wire x with queue := [] } else s.wire x := by
  change Wire.of _ ((s.lines.erase id).get? x) _ _ = _
  rw [KeyMap.get?_erase]
  split <;> rfl

theorem wire_keepResult (s : Server σ) (ticket : Ticket) (r : Except TransportError Unit)
    (x : ConnId) :
    (s.keepResult ticket r).wire x =
      if x = ticket.id then
        { s.wire x with kept := Function.update (s.wire x).kept ticket.number (some r) }
      else s.wire x := by
  obtain ⟨id, number⟩ := ticket
  change Wire.of _ _ (fun n => (s.results.insert ⟨id, number⟩ r).get? ⟨x, n⟩) _ = _
  have hkept : ∀ n, (s.results.insert ⟨id, number⟩ r).get? ⟨x, n⟩ =
      if x = id ∧ n = number then some r else s.results.get? ⟨x, n⟩ := fun n => by
    rw [KeyMap.get?_insert]
    simp only [Ticket.mk.injEq]
  simp only [hkept]
  by_cases hx : x = id
  · subst hx
    simp only [true_and, if_true]
    congr 1
    funext n
    rw [Function.update_apply]
    rfl
  · simp only [hx, false_and, if_false]
    rfl

theorem wire_issue (s : Server σ) (id x : ConnId) (number : Nat) :
    (s.issue ⟨id, number⟩).wire x =
      if x = id then { s.wire x with issued := number + 1 } else s.wire x := by
  change Wire.of _ _ _ ((s.issued.insert id (number + 1)).get? x) = _
  rw [KeyMap.get?_insert]
  split <;> rfl

theorem wire_react (s : Server σ) (id x : ConnId) : (s.react id).2.2.wire x = s.wire x := by
  unfold react
  split
  · rfl
  · rename_i c hc
    change (s.onFloor (·.setConnection id c.react.2)).wire x = _
    rw [wire_setConnection]
    split
    · rename_i hx
      rw [wire, hx, hc]
      rfl
    · rfl

theorem wire_record (hc : s.floor.connection? id = some c) (p : Payload) (r : Reaction) (x : ConnId) :
    (s.record id p r).2.wire x =
      if x = id then (s.wire x).attempt p (s.record id p r).1 else s.wire x := by
  unfold record
  rw [hc]
  dsimp only
  rw [wire_setConnection]
  split
  · rename_i hx
    rw [wire, hx, hc]
    simp [Wire.of, Wire.attempt, Connection.record]
  · rfl

/-! ### What is touched -/

structure Touches (id : ConnId) (s t : Server σ) : Prop where
  floor : t.floor = { s.floor with connections := t.floor.connections }
  keys : t.floor.connections.keys = s.floor.connections.keys
  others : ∀ x, x ≠ id → t.wire x = s.wire x
  wired : s.Wired → t.Wired

namespace Touches

variable {u : Server σ}

theorem refl (id : ConnId) (s : Server σ) : s.Touches id s := ⟨rfl, rfl, fun _ _ => rfl, fun h => h⟩

theorem trans (hst : s.Touches id t) (htu : t.Touches id u) : s.Touches id u where
  floor := by rw [htu.floor, hst.floor]
  keys := htu.keys.trans hst.keys
  others x hx := (htu.others x hx).trans (hst.others x hx)
  wired h := htu.wired (hst.wired h)

theorem known (h : s.Touches id t) (x : ConnId) :
    (t.floor.connection? x).isSome = (s.floor.connection? x).isSome := by
  have hmem : ∀ f : Floor σ, (f.connection? x).isSome = true ↔ x ∈ f.connections.keys := fun f =>
    KeyMap.mem_keys_iff.symm
  rw [Bool.eq_iff_iff, hmem, hmem, h.keys]

end Touches

theorem touches_setConnection (hknown : (s.floor.connection? id).isSome = true) (c : Connection) :
    s.Touches id (s.onFloor (·.setConnection id c)) where
  floor := rfl
  keys := KeyMap.keys_insert_of_mem (KeyMap.mem_keys_iff.2 hknown) c
  others x hx := by rw [wire_setConnection, if_neg hx]
  wired h x line hline := by
    refine ⟨(h x line hline).1, ?_⟩
    change ((s.floor.setConnection id c).connection? x).isSome = true
    rw [Floor.connection?_setConnection]
    split
    · rfl
    · exact (h x line hline).2

theorem touches_modifyConnection (s : Server σ) (id : ConnId) (g : Connection → Connection) :
    s.Touches id (s.onFloor (·.modifyConnection id g)) := by
  cases hc : s.floor.connections.get? id with
  | none =>
    have hsame : s.onFloor (·.modifyConnection id g) = s := by
      simp only [onFloor, Floor.modifyConnection, KeyMap.modify, hc]
    rw [hsame]
    exact .refl id s
  | some c =>
    have hset : s.onFloor (·.modifyConnection id g) = s.onFloor (·.setConnection id (g c)) := by
      simp only [onFloor, Floor.modifyConnection, Floor.setConnection, KeyMap.modify, hc]
    rw [hset]
    exact touches_setConnection (Option.isSome_of_eq_some hc) (g c)

theorem touches_react (s : Server σ) (id : ConnId) : s.Touches id (s.react id).2.2 := by
  unfold react
  split
  · exact .refl id s
  · rename_i c hc
    exact touches_setConnection (by rw [hc]; rfl) c.react.2

theorem touches_record (s : Server σ) (id : ConnId) (p : Payload) (r : Reaction) :
    s.Touches id (s.record id p r).2 := by
  unfold record
  split
  · exact .refl id s
  · rename_i c hc
    exact touches_setConnection (by rw [hc]; rfl) (c.record p r)

theorem touches_keepResult (hticket : ticket.id = id) (s : Server σ)
    (r : Except TransportError Unit) : s.Touches id (s.keepResult ticket r) where
  floor := rfl
  keys := rfl
  others x hx := by rw [wire_keepResult, if_neg (hticket ▸ hx)]
  wired h := h

theorem touches_issue (s : Server σ) (id : ConnId) (number : Nat) :
    s.Touches id (s.issue ⟨id, number⟩) where
  floor := rfl
  keys := rfl
  others x hx := by rw [wire_issue, if_neg hx]
  wired h := h

theorem touches_eraseLine (s : Server σ) (id : ConnId) :
    s.Touches id { s with lines := s.lines.erase id } where
  floor := rfl
  keys := rfl
  others x hx := by rw [wire_eraseLine, if_neg hx]
  wired h x line hline := by
    change (s.lines.erase id).get? x = some line at hline
    rw [KeyMap.get?_erase] at hline
    split at hline
    · cases hline
    · exact h x line hline

theorem touches_insertLine {line : Line} (hline : line.Of id)
    (hknown : (s.floor.connection? id).isSome = true) :
    s.Touches id { s with lines := s.lines.insert id line } where
  floor := rfl
  keys := rfl
  others x hx := by rw [wire_insertLine, if_neg hx]
  wired h x other hother := by
    change (s.lines.insert id line).get? x = some other at hother
    rw [KeyMap.get?_insert] at hother
    split at hother
    · rename_i hx
      cases hother
      subst hx
      exact ⟨hline, hknown⟩
    · exact h x other hother

/-! ### Turns -/

theorem touches_giveTurns (hknown : (s.floor.connection? id).isSome = true)
    (hown : ∀ q ∈ waiting, q.ticket.id = id) : s.Touches id (s.giveTurns id waiting) := by
  induction waiting generalizing s with
  | nil => exact touches_eraseLine s id
  | cons q waiting ih =>
    obtain ⟨hq, hown⟩ := List.forall_mem_cons.1 hown
    have hreact := touches_react s id
    rw [giveTurns]
    generalize s.react id = reacted at hreact ⊢
    obtain ⟨r, duration, t⟩ := reacted
    dsimp only
    have ht : (t.floor.connection? id).isSome = true := (hreact.known id).trans hknown
    split
    · have hover := (touches_record t id q.payload r).trans
        (touches_keepResult hq (t.record id q.payload r).2 (t.record id q.payload r).1)
      exact hreact.trans (hover.trans (ih ((hover.known id).trans ht) hown))
    · exact hreact.trans (touches_insertLine ⟨hq, hown⟩ ht)

theorem steps_giveTurns (hknown : (s.floor.connection? id).isSome = true)
    (hown : ∀ q ∈ waiting, q.ticket.id = id) :
    Wire.Steps id mine { s.wire id with queue := waiting } ((s.giveTurns id waiting).wire id) := by
  induction waiting generalizing s with
  | nil =>
    refine .of_eq ?_
    rw [giveTurns, wire_eraseLine, if_pos rfl]
  | cons q waiting ih =>
    obtain ⟨hq, hown⟩ := List.forall_mem_cons.1 hown
    have hreact := wire_react s id id
    have hknown' := (touches_react s id).known id
    rw [giveTurns]
    generalize s.react id = reacted at hreact hknown' ⊢
    obtain ⟨r, duration, t⟩ := reacted
    dsimp only at hreact hknown' ⊢
    obtain ⟨c, hc⟩ := Option.isSome_iff_exists.1 (hknown'.trans hknown)
    split
    · have hover := (touches_record t id q.payload r).trans
        (touches_keepResult hq (t.record id q.payload r).2 (t.record id q.payload r).1)
      refine .head ?_ (ih ((hover.known id).trans (hknown'.trans hknown)) hown)
      have hfinish : Wire.Step id mine { s.wire id with queue := q :: waiting } _ :=
        .finish rfl (t.record id q.payload r).1
      convert hfinish using 1
      rw [wire_keepResult, if_pos hq.symm, wire_record hc, if_pos rfl, hreact]
      rfl
    · refine .of_eq ?_
      rw [wire_insertLine, if_pos rfl, hreact]
      rfl

theorem wire_queue_of_line {line : Line} (h : s.lines.get? id = some line) :
    (s.wire id).queue = line.current.request :: line.waiting := by
  rw [wire, h]
  rfl

theorem touches_advanceLine (hs : s.Wired) (id : ConnId) : s.Touches id (s.advanceLine id) := by
  unfold advanceLine
  split
  · exact .refl id s
  · rename_i line hline
    obtain ⟨hof, hknown⟩ := hs id line hline
    split
    · have hover := (touches_record s id line.current.request.payload line.current.reaction).trans
        (touches_keepResult hof.1 _ (s.record id line.current.request.payload
          line.current.reaction).1)
      exact hover.trans (touches_giveTurns ((hover.known id).trans hknown) hof.2)
    · exact .refl id s

theorem steps_advanceLine (hs : s.Wired) (id : ConnId) :
    Wire.Steps id mine (s.wire id) ((s.advanceLine id).wire id) := by
  unfold advanceLine
  split
  · exact .refl
  · rename_i line hline
    obtain ⟨hof, hknown⟩ := hs id line hline
    obtain ⟨c, hc⟩ := Option.isSome_iff_exists.1 hknown
    split
    · have hrecord := wire_record hc line.current.request.payload line.current.reaction id
      have hknown' := (touches_record s id line.current.request.payload
        line.current.reaction).known id
      generalize s.record id line.current.request.payload line.current.reaction = recorded
        at hrecord hknown' ⊢
      obtain ⟨result, t⟩ := recorded
      refine .head ?_ (steps_giveTurns (hknown'.trans hknown) hof.2)
      have hfinish : Wire.Step id mine (s.wire id) _ := .finish (wire_queue_of_line hline) result
      convert hfinish using 1
      dsimp only at hrecord
      rw [wire_keepResult, if_pos hof.1.symm, hrecord, if_pos rfl]
      rfl
    · exact .refl

/-! ### Asking for writes -/

theorem isSome_of_open (h : s.floor.isClosed id = false) :
    (s.floor.connection? id).isSome = true := by
  unfold Floor.isClosed at h
  cases hc : s.floor.connection? id with
  | none => rw [hc] at h; cases h
  | some c => rfl

theorem touches_ask (hs : s.Wired) (hknown : (s.floor.connection? id).isSome = true)
    (p : Payload) : s.Touches id (s.ask id p).2 := by
  unfold ask
  have hissue := touches_issue s id ((s.issued.get? id).getD 0)
  split
  · rename_i line hline
    obtain ⟨hof, -⟩ := hs id line hline
    refine hissue.trans (touches_insertLine ⟨hof.1, fun q hq => ?_⟩ hknown)
    rcases List.mem_append.1 hq with hq | hq
    · exact hof.2 q hq
    · rw [List.mem_singleton.1 hq]
      rfl
  · have hreact := touches_react s id
    generalize s.react id = reacted at hreact ⊢
    obtain ⟨r, duration, t⟩ := reacted
    dsimp only
    split
    · exact hreact.trans (touches_record t id p r)
    · have ht : (t.floor.connection? id).isSome = true := (hreact.known id).trans hknown
      exact hreact.trans ((touches_issue t id _).trans (touches_insertLine ⟨rfl, by simp⟩ ht))

theorem touches_of_ask (hs : s.Wired) (hknown : (s.floor.connection? id).isSome = true)
    {asked : Except TransportError Unit ⊕ Ticket} (h : s.ask id p = (asked, t)) : s.Touches id t := by
  have htouches := touches_ask hs hknown p
  rwa [h] at htouches

theorem wire_joinLine {line : Line}
    (h : line.requests = (s.wire id).queue ++ [⟨⟨id, (s.wire id).issued⟩, p⟩]) :
    wire { s.issue (s.nextTicket id) with lines := s.lines.insert id line } id =
      (s.wire id).enqueue id p := by
  have hinsert := wire_insertLine (s.issue (s.nextTicket id)) id id line
  rw [if_pos rfl, nextTicket, wire_issue, if_pos rfl, h] at hinsert
  exact hinsert

/-- A write is over at once, or it joins the line under a new ticket. -/
theorem wire_ask (hknown : (s.floor.connection? id).isSome = true) (p : Payload) :
    (∃ r t, s.ask id p = (.inl r, t) ∧ s.lines.get? id = none ∧
      t.wire id = (s.wire id).attempt p r) ∨
    ∃ t, s.ask id p = (.inr ⟨id, (s.wire id).issued⟩, t) ∧
      t.wire id = (s.wire id).enqueue id p := by
  unfold ask
  split
  · rename_i line hline
    refine .inr ⟨_, rfl, wire_joinLine ?_⟩
    rw [wire_queue_of_line hline]
    rfl
  · rename_i hline
    have hreact := wire_react s id id
    have hknown' := (touches_react s id).known id
    have hissued : ((s.react id).2.2.issued.get? id).getD 0 = (s.wire id).issued :=
      congrArg Wire.issued hreact
    generalize s.react id = reacted at hreact hknown' hissued ⊢
    obtain ⟨r, duration, t⟩ := reacted
    dsimp only at hreact hknown' hissued ⊢
    obtain ⟨c, hc⟩ := Option.isSome_iff_exists.1 (hknown'.trans hknown)
    split
    · refine .inl ⟨_, _, rfl, hline, ?_⟩
      rw [wire_record hc, if_pos rfl, hreact]
    · have hticket : s.nextTicket id = t.nextTicket id := by
        rw [nextTicket, nextTicket, hissued]
        rfl
      have hqueue : (t.wire id).queue = [] := by
        rw [hreact, wire, hline]
        rfl
      refine .inr ⟨_, rfl, ?_⟩
      rw [hticket, wire_joinLine, hreact]
      rw [hqueue]
      rfl

/-- Who has to wait gets a new ticket of the connection. -/
theorem ticket_of_ask (hknown : (s.floor.connection? id).isSome = true)
    (h : s.ask id p = (.inr ticket, t)) :
    ticket = ⟨id, (s.wire id).issued⟩ ∧ t.wire id = (s.wire id).enqueue id p := by
  obtain ⟨r, u, hask, -⟩ | ⟨u, hask, hwire⟩ := wire_ask hknown p
  all_goals
    rw [h] at hask
    cases hask
  exact ⟨rfl, hwire⟩

theorem wire_of_ask {r : Except TransportError Unit} (hknown : (s.floor.connection? id).isSome = true)
    (h : s.ask id p = (.inl r, t)) :
    (s.wire id).queue = [] ∧ t.wire id = (s.wire id).attempt p r := by
  obtain ⟨r', u, hask, hline, hwire⟩ | ⟨u, hask, -⟩ := wire_ask hknown p
  all_goals
    rw [h] at hask
    cases hask
  refine ⟨?_, hwire⟩
  rw [wire, hline]
  rfl

theorem wire_markClosed (hknown : (s.floor.connection? id).isSome = true) :
    (s.onFloor (·.modifyConnection id .markClosed)).wire id = (s.wire id).mark true := by
  obtain ⟨c, hc⟩ := Option.isSome_iff_exists.1 hknown
  have hget : (s.onFloor (·.modifyConnection id .markClosed)).floor.connection? id =
      some c.markClosed := by
    change (s.floor.modifyConnection id .markClosed).connection? id = _
    rw [Floor.connection?_modifyConnection, if_pos rfl, hc]
    rfl
  rw [wire, hget, wire, hc]
  simp [Wire.of, Wire.mark, Connection.markClosed]
  exact ⟨rfl, rfl, rfl⟩

theorem touches_askToClose (hs : s.Wired) (hknown : (s.floor.connection? id).isSome = true) :
    s.Touches id (s.askToClose id).2 := by
  have hmark := touches_modifyConnection s id .markClosed
  exact hmark.trans (touches_ask (hmark.wired hs) ((hmark.known id).trans hknown) .close)

theorem wire_askToClose (hknown : (s.floor.connection? id).isSome = true) :
    (∃ r t, s.askToClose id = (.inl r, t) ∧ s.lines.get? id = none ∧
      t.wire id = ((s.wire id).mark true).attempt .close r) ∨
    ∃ t, s.askToClose id = (.inr ⟨id, (s.wire id).issued⟩, t) ∧
      t.wire id = ((s.wire id).mark true).enqueue id .close := by
  have hmark := touches_modifyConnection s id .markClosed
  have hask := wire_ask ((hmark.known id).trans hknown) .close
  rw [wire_markClosed hknown] at hask
  exact hask

/-! ### Results, pings and requests given up -/

theorem wire_takeResult {r : Except TransportError Unit} (h : s.takeResult? ticket = some (r, t))
    (x : ConnId) :
    t.wire x = if x = ticket.id then (s.wire x).take ticket.number else s.wire x := by
  obtain ⟨r', -, e⟩ := Option.map_eq_some_iff.1 h
  cases e
  obtain ⟨id, number⟩ := ticket
  change Wire.of _ _ (fun n => (s.results.erase ⟨id, number⟩).get? ⟨x, n⟩) _ = _
  have hkept : ∀ n, (s.results.erase ⟨id, number⟩).get? ⟨x, n⟩ =
      if x = id ∧ n = number then none else s.results.get? ⟨x, n⟩ := fun n => by
    rw [KeyMap.get?_erase]
    simp only [Ticket.mk.injEq]
  simp only [hkept]
  by_cases hx : x = id
  · subst hx
    simp only [true_and, if_true]
    ext1 <;> try rfl
    funext n
    simp only [Wire.take, Function.update_apply]
    rfl
  · simp only [hx, false_and, if_false]
    rfl

theorem kept_of_takeResult {r : Except TransportError Unit}
    (h : s.takeResult? ticket = some (r, t)) : (s.wire ticket.id).kept ticket.number = some r := by
  obtain ⟨r', hr, e⟩ := Option.map_eq_some_iff.1 h
  cases e
  exact hr

theorem takeResult?_of_kept {r : Except TransportError Unit}
    (h : (s.wire ticket.id).kept ticket.number = some r) : ∃ t, s.takeResult? ticket = some (r, t) :=
  ⟨_, Option.map_eq_some_iff.2 ⟨r, h, rfl⟩⟩

theorem touches_takeResult {r : Except TransportError Unit}
    (h : s.takeResult? ticket = some (r, t)) : s.Touches ticket.id t := by
  have hwire := wire_takeResult h
  obtain ⟨r', -, e⟩ := Option.map_eq_some_iff.1 h
  cases e
  exact ⟨rfl, rfl, fun x hx => (hwire x).trans (if_neg hx), fun hs => hs⟩

theorem touches_answerPing (s : Server σ) (id : ConnId) (data : String) :
    s.Touches id (s.answerPing id data) :=
  touches_modifyConnection s id _

theorem steps_answerPing (s : Server σ) (id : ConnId) (data : String) :
    Wire.Steps id mine (s.wire id) ((s.answerPing id data).wire id) := by
  have hget : (s.answerPing id data).floor.connection? id =
      (s.floor.connection? id).map fun c => (c.attempt (.pong data)).2 := by
    change (s.floor.modifyConnection id _).connection? id = _
    rw [Floor.connection?_modifyConnection, if_pos rfl]
  cases hc : s.floor.connection? id with
  | none =>
    refine .of_eq ?_
    rw [wire, hget, wire, hc]
    rfl
  | some c =>
    have hpong : Wire.Step id mine (s.wire id) _ := .pong data (c.attempt (.pong data)).1
    refine .single ?_
    convert hpong using 1
    rw [wire, hget, wire, hc]
    simp [Wire.of, Wire.attempt, Connection.attempt, Connection.react, Connection.record]
    exact ⟨rfl, rfl, rfl⟩

theorem ticket_eq_iff {a b : Ticket} (h : a.id = b.id) : a = b ↔ a.number = b.number := by
  obtain ⟨_, _⟩ := a
  obtain ⟨_, _⟩ := b
  cases h
  simp

theorem find_line (hs : s.Wired) {line : Line}
    (h : (s.lines.entries.find? fun (_, line) =>
      line.current.request.ticket = ticket || line.waiting.any (·.ticket = ticket)) = some (x, line)) :
    x = ticket.id ∧ s.lines.get? x = some line := by
  have hline : s.lines.get? x = some line := KeyMap.mem_entries_iff.1 (List.mem_of_find?_eq_some h)
  obtain ⟨⟨hcurrent, hwaiting⟩, -⟩ := hs x line hline
  have hfound := List.find?_some h
  simp only [Bool.or_eq_true, decide_eq_true_eq, List.any_eq_true] at hfound
  refine ⟨?_, hline⟩
  rcases hfound with hfound | ⟨q, hq, hfound⟩
  · rw [← hfound, hcurrent]
  · rw [← hfound, hwaiting q hq]

theorem drop_of_find_none (hs : s.Wired)
    (h : (s.lines.entries.find? fun (_, line) =>
      line.current.request.ticket = ticket || line.waiting.any (·.ticket = ticket)) = none) :
    (s.wire ticket.id).drop ticket.number = s.wire ticket.id := by
  rw [Wire.drop, List.filter_eq_self.2]
  intro q hq
  refine decide_eq_true fun hnumber => ?_
  cases hline : s.lines.get? ticket.id with
  | none =>
    rw [wire, hline] at hq
    cases hq
  | some line =>
    obtain ⟨⟨hcurrent, hwaiting⟩, -⟩ := hs _ line hline
    have hnot := List.find?_eq_none.1 h _ (KeyMap.mem_entries_iff.2 hline)
    simp only [Bool.or_eq_true, decide_eq_true_eq, List.any_eq_true, not_or, not_exists,
      not_and] at hnot
    rw [wire_queue_of_line hline] at hq
    rcases List.mem_cons.1 hq with rfl | hq
    · exact hnot.1 ((ticket_eq_iff hcurrent).2 hnumber)
    · exact hnot.2 q hq ((ticket_eq_iff (hwaiting q hq)).2 hnumber)

theorem line_of_filter {line : Line} (h : line.Of x) (keep : Request → Bool) :
    ({ line with waiting := line.waiting.filter keep } : Line).Of x :=
  ⟨h.1, fun q hq => h.2 q (List.mem_filter.1 hq).1⟩

theorem touches_cancel (hs : s.Wired) (ticket : Ticket) :
    s.Touches ticket.id (s.cancel ticket) := by
  unfold cancel
  split
  · exact .refl ticket.id s
  · rename_i x line hfind
    obtain ⟨rfl, hline⟩ := find_line hs hfind
    obtain ⟨hof, hknown⟩ := hs _ line hline
    split
    · exact touches_giveTurns hknown hof.2
    · exact touches_insertLine (line_of_filter hof _) hknown

theorem steps_cancel (hs : s.Wired) (ticket : Ticket)
    (hnodup : ((s.wire ticket.id).queue.map (·.ticket.number)).Nodup) :
    Wire.Steps ticket.id mine ((s.wire ticket.id).drop ticket.number)
      ((s.cancel ticket).wire ticket.id) := by
  unfold cancel
  split
  · rename_i hfind
    exact .of_eq (drop_of_find_none hs hfind).symm
  · rename_i x line hfind
    obtain ⟨rfl, hline⟩ := find_line hs hfind
    obtain ⟨hof, hknown⟩ := hs _ line hline
    have hqueue := wire_queue_of_line hline
    rw [hqueue, List.map_cons, List.nodup_cons] at hnodup
    split
    · rename_i hcurrent
      have hrest : (line.waiting.filter fun q => q.ticket.number ≠ ticket.number) = line.waiting :=
        List.filter_eq_self.2 fun q hq => decide_eq_true fun hnumber =>
          hnodup.1 (List.mem_map.2 ⟨q, hq, by rw [hnumber, hcurrent]⟩)
      have hdrop : (s.wire ticket.id).drop ticket.number =
          { s.wire ticket.id with queue := line.waiting } := by
        rw [Wire.drop, hqueue, List.filter_cons_of_neg (by simp [hcurrent]), hrest]
      rw [hdrop]
      exact steps_giveTurns hknown hof.2
    · rename_i hcurrent
      have hrest : (line.waiting.filter fun q => q.ticket ≠ ticket) =
          line.waiting.filter fun q => q.ticket.number ≠ ticket.number :=
        List.filter_congr fun q hq => by simp [ticket_eq_iff (hof.2 q hq)]
      have hkeep : decide (line.current.request.ticket.number ≠ ticket.number) = true := by
        simpa [ticket_eq_iff hof.1] using hcurrent
      refine .of_eq ?_
      rw [wire_insertLine, if_pos rfl, Wire.drop, hqueue, List.filter_cons, if_pos hkeep, ← hrest]
      rfl

end Server

end Cardroom
