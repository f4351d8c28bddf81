import Cardroom.Server.Basic

namespace Cardroom.Server

variable {σ α : Type}

def keepResult (s : Server σ) (ticket : Ticket) (r : Except TransportError Unit) : Server σ :=
  { s with results := s.results.insert ticket r }

def takeResult? (s : Server σ) (ticket : Ticket) :
    Option (Except TransportError Unit × Server σ) :=
  (s.results.get? ticket).map fun r => (r, { s with results := s.results.erase ticket })

def react (s : Server σ) (id : ConnId) : Reaction × Nat × Server σ :=
  match s.floor.connection? id with
  | none => (.gone, 0, s)
  | some c =>
    let (r, c) := c.react
    (r, r.duration c.timeout, s.onFloor (·.setConnection id c))

def record (s : Server σ) (id : ConnId) (p : Payload) (r : Reaction) :
    Except TransportError Unit × Server σ :=
  match s.floor.connection? id with
  | none => (.error .closed, s)
  | some c => (r.result c.timeout, s.onFloor (·.setConnection id (c.record p r)))

def giveTurns (s : Server σ) (id : ConnId) : List Request → Server σ
  | [] => { s with lines := s.lines.erase id }
  | q :: waiting =>
    let (r, duration, s) := s.react id
    if duration = 0 then
      let (result, s) := s.record id q.payload r
      (s.keepResult q.ticket result).giveTurns id waiting
    else { s with lines := s.lines.insert id ⟨⟨q, s.now + duration, r⟩, waiting⟩ }

def advanceLine (s : Server σ) (id : ConnId) : Server σ :=
  match s.lines.get? id with
  | none => s
  | some line =>
    if line.current.due ≤ s.now then
      let (result, s) := s.record id line.current.request.payload line.current.reaction
      (s.keepResult line.current.request.ticket result).giveTurns id line.waiting
    else s

def advanceLines (s : Server σ) : Server σ := s.lines.keys.foldl advanceLine s

def nextTicket (s : Server σ) (id : ConnId) : Ticket := ⟨id, (s.issued.get? id).getD 0⟩

def issue (s : Server σ) (ticket : Ticket) : Server σ :=
  { s with issued := s.issued.insert ticket.id (ticket.number + 1) }

/-- A write as far as it goes at once: its result, or the ticket to wait with. -/
def ask (s : Server σ) (id : ConnId) (p : Payload) :
    (Except TransportError Unit ⊕ Ticket) × Server σ :=
  let ticket := s.nextTicket id
  match s.lines.get? id with
  | some line =>
    (.inr ticket,
      { s.issue ticket with
        lines := s.lines.insert id { line with waiting := line.waiting ++ [⟨ticket, p⟩] } })
  | none =>
    let (r, duration, s) := s.react id
    if duration = 0 then
      let (result, s) := s.record id p r
      (.inl result, s)
    else
      (.inr ticket,
        { s.issue ticket with
          lines := s.lines.insert id ⟨⟨⟨ticket, p⟩, s.now + duration, r⟩, []⟩ })

/-- Drives a script until it ends or has to wait. -/
def drive : Script σ α → Server σ → Stage σ α × Server σ
  | .done a, s => (.finished a, s)
  | .step change next, s => drive (next s.floor) (s.onFloor change)
  | .write id p next, s =>
    if s.floor.isClosed id then drive (next (.error .closed)) s
    else
      match s.ask id p with
      | (.inl result, s) => drive (next result) s
      | (.inr ticket, s) => (.blocked ticket next, s)
  | .close id next, s =>
    if s.floor.isClosed id then drive next s
    else
      match (s.onFloor (·.modifyConnection id .markClosed)).ask id .close with
      | (.inl _, s) => drive next s
      | (.inr ticket, s) => (.blocked ticket fun _ => next, s)

/-- Drops a request that nobody waits for any more. -/
def cancel (s : Server σ) (ticket : Ticket) : Server σ :=
  match s.lines.entries.find? fun (_, line) =>
      line.current.request.ticket = ticket || line.waiting.any (·.ticket = ticket) with
  | none => s
  | some (id, line) =>
    if line.current.request.ticket = ticket then s.giveTurns id line.waiting
    else
      { s with
        lines := s.lines.insert id
          { line with waiting := line.waiting.filter (·.ticket ≠ ticket) } }

end Cardroom.Server
