import Cardroom.Proofs.Floor.ConfinedTable
import Cardroom.Proofs.KeyMap
import Cardroom.Server.Writing
/-!
What one room can tell of a server, and what is done in one room alone while writes are under way. A
script that is confined to a room is driven in that room alone, up to its end or to a write that it
has to wait for, and so are the lines of the room's connections.
-/

namespace Cardroom

variable {α β : Type} {home : ConnId → RoomCode} {room : RoomCode}

open Floor (Alike Local)

def isAt (home : ConnId → RoomCode) (room : RoomCode) (id : ConnId) : Bool := home id = room

theorem isAt_iff {id : ConnId} : isAt home room id = true ↔ home id = room := decide_eq_true_iff

theorem not_isAt {id : ConnId} (hid : home id = room) {other : RoomCode} (h : other ≠ room) :
    ¬ isAt home other id = true :=
  fun hat => h ((isAt_iff.1 hat).symm.trans hid)

def Stage.Confined (home : ConnId → RoomCode) (room : RoomCode) (P : α → Prop) :
    Stage Rooms α → Prop
  | .finished a => P a
  | .blocked ticket resume => home ticket.id = room ∧ ∀ r, (resume r).Confined home room P

def Line.Of (id : ConnId) (line : Line) : Prop :=
  line.current.request.ticket.id = id ∧ ∀ q ∈ line.waiting, q.ticket.id = id

namespace Server

structure Orderly (home : ConnId → RoomCode) (s : Server Rooms) : Prop where
  floor : s.floor.Orderly home
  lines : ∀ id line, s.lines.get? id = some line → line.Of id

/-- The same server, as far as one room can tell. -/
structure Shadow (home : ConnId → RoomCode) (room : RoomCode) (s t : Server Rooms) : Prop where
  floor : Alike home room s.floor t.floor
  now : s.now = t.now
  started : s.started = t.started
  lines : s.lines.restrict (isAt home room) = t.lines.restrict (isAt home room)
  results : ∀ ticket : Ticket, home ticket.id = room → s.results.get? ticket = t.results.get? ticket
  issued : ∀ id, home id = room → s.issued.get? id = t.issued.get? id

theorem Shadow.refl (s : Server Rooms) : Shadow home room s s :=
  ⟨.refl _, rfl, rfl, rfl, fun _ _ => rfl, fun _ _ => rfl⟩

theorem Shadow.trans {s t u : Server Rooms} (hst : Shadow home room s t)
    (htu : Shadow home room t u) : Shadow home room s u where
  floor := hst.floor.trans htu.floor
  now := hst.now.trans htu.now
  started := hst.started.trans htu.started
  lines := hst.lines.trans htu.lines
  results ticket h := (hst.results ticket h).trans (htu.results ticket h)
  issued id h := (hst.issued id h).trans (htu.issued id h)

theorem Shadow.symm {s t : Server Rooms} (h : Shadow home room s t) : Shadow home room t s where
  floor := h.floor.symm
  now := h.now.symm
  started := h.started.symm
  lines := h.lines.symm
  results ticket hid := (h.results ticket hid).symm
  issued id hid := (h.issued id hid).symm

theorem Shadow.line {s t : Server Rooms} (h : Shadow home room s t) {id : ConnId}
    (hid : home id = room) : s.lines.get? id = t.lines.get? id :=
  KeyMap.get?_congr h.lines (isAt_iff.2 hid)

/-- Something that is done in one room alone: no other room can tell that it has been done, and what
comes of it depends on what the room itself can tell. -/
structure Apart (home : ConnId → RoomCode) (room : RoomCode) (P : α → Prop)
    (c : Server Rooms → α × Server Rooms) : Prop where
  orderly : ∀ s, Orderly home s → Orderly home (c s).2
  result : ∀ s, Orderly home s → P (c s).1
  crew : ∀ s, Orderly home s → (c s).2.tasks = s.tasks ∧ (c s).2.clients = s.clients
  elsewhere : ∀ s, Orderly home s → ∀ other, other ≠ room → Shadow home other s (c s).2
  alike : ∀ s t, Orderly home s → Orderly home t → Shadow home room s t →
    (c s).1 = (c t).1 ∧ Shadow home room (c s).2 (c t).2

variable {P : α → Prop} {Q : β → Prop}

theorem Apart.congr {c d : Server Rooms → α × Server Rooms} (h : Apart home room P c)
    (heq : ∀ s, c s = d s) : Apart home room P d :=
  funext heq ▸ h

theorem Apart.mono {P' : α → Prop} {c : Server Rooms → α × Server Rooms} (h : Apart home room P c)
    (hmono : ∀ a, P a → P' a) : Apart home room P' c :=
  { h with result := fun s hs => hmono _ (h.result s hs) }

theorem apart_pure {a : α} (h : P a) : Apart home room P fun s => (a, s) where
  orderly _ hs := hs
  result _ _ := h
  crew _ _ := ⟨rfl, rfl⟩
  elsewhere s _ _ _ := .refl s
  alike _ _ _ _ h := ⟨rfl, h⟩

theorem apart_look {view : Server Rooms → α}
    (hview : ∀ s t, Shadow home room s t → view s = view t) (h : ∀ s, P (view s)) :
    Apart home room P fun s => (view s, s) where
  orderly _ hs := hs
  result s _ := h s
  crew _ _ := ⟨rfl, rfl⟩
  elsewhere s _ _ _ := .refl s
  alike s t _ _ hst := ⟨hview s t hst, hst⟩

/-- To say what is done, it is enough to say it for each thing that the room can tell first. -/
theorem apart_of_view {view : Server Rooms → β} {c : Server Rooms → α × Server Rooms}
    (hview : ∀ s t, Shadow home room s t → view s = view t)
    (h : ∀ s, Orderly home s →
      ∃ d, Apart home room P d ∧ ∀ t, view t = view s → c t = d t) : Apart home room P c where
  orderly s hs := by
    obtain ⟨d, hd, heq⟩ := h s hs
    rw [heq s rfl]
    exact hd.orderly s hs
  result s hs := by
    obtain ⟨d, hd, heq⟩ := h s hs
    rw [heq s rfl]
    exact hd.result s hs
  crew s hs := by
    obtain ⟨d, hd, heq⟩ := h s hs
    rw [heq s rfl]
    exact hd.crew s hs
  elsewhere s hs := by
    obtain ⟨d, hd, heq⟩ := h s hs
    rw [heq s rfl]
    exact hd.elsewhere s hs
  alike s t hs ht hst := by
    obtain ⟨d, hd, heq⟩ := h s hs
    rw [heq s rfl, heq t (hview s t hst).symm]
    exact hd.alike s t hs ht hst

theorem Apart.bind {c : Server Rooms → α × Server Rooms} {g : α → Server Rooms → β × Server Rooms}
    (h : Apart home room P c) (hg : ∀ a, P a → Apart home room Q (g a)) :
    Apart home room Q fun s => g (c s).1 (c s).2 where
  orderly s hs := (hg _ (h.result s hs)).orderly _ (h.orderly s hs)
  result s hs := (hg _ (h.result s hs)).result _ (h.orderly s hs)
  crew s hs := by
    obtain ⟨htasks, hclients⟩ := h.crew s hs
    obtain ⟨htasks', hclients'⟩ := (hg _ (h.result s hs)).crew _ (h.orderly s hs)
    exact ⟨htasks'.trans htasks, hclients'.trans hclients⟩
  elsewhere s hs other hother :=
    (h.elsewhere s hs other hother).trans
      ((hg _ (h.result s hs)).elsewhere _ (h.orderly s hs) other hother)
  alike s t hs ht hst := by
    obtain ⟨hvalue, hshadow⟩ := h.alike s t hs ht hst
    have hnext := (hg _ (h.result s hs)).alike _ _ (h.orderly s hs) (h.orderly t ht) hshadow
    rw [hvalue] at hnext ⊢
    exact hnext

/-! ### Changes of one part of the server -/

theorem apart_onFloor {c : Floor Rooms → Floor Rooms} (h : Local home room c) :
    Apart home room (fun _ => True) fun s => ((), s.onFloor c) where
  orderly _ hs := ⟨h.orderly _ hs.floor, hs.lines⟩
  result _ _ := trivial
  crew _ _ := ⟨rfl, rfl⟩
  elsewhere _ hs other hother :=
    ⟨h.elsewhere _ hs.floor other hother, rfl, rfl, rfl, fun _ _ => rfl, fun _ _ => rfl⟩
  alike _ _ hs ht hst :=
    ⟨rfl, h.alike _ _ hs.floor ht.floor hst.floor, hst.now, hst.started, hst.lines, hst.results,
      hst.issued⟩

theorem apart_insertLine {id : ConnId} (hid : home id = room) {line : Line} (hline : line.Of id) :
    Apart home room (fun _ => True) fun s => ((), { s with lines := s.lines.insert id line }) where
  orderly s hs := by
    refine ⟨hs.floor, fun x l hl => ?_⟩
    rw [KeyMap.get?_insert] at hl
    split at hl
    · rename_i hx
      cases hl
      exact hx ▸ hline
    · exact hs.lines x l hl
  result _ _ := trivial
  crew _ _ := ⟨rfl, rfl⟩
  elsewhere s _ other hother :=
    ⟨.refl _, rfl, rfl, (KeyMap.restrict_insert_of_neg (not_isAt hid hother) _ _).symm,
      fun _ _ => rfl, fun _ _ => rfl⟩
  alike s t _ _ hst :=
    ⟨rfl, hst.floor, hst.now, hst.started,
      KeyMap.restrict_insert_congr hst.lines (isAt_iff.2 hid) line, hst.results, hst.issued⟩

theorem apart_eraseLine {id : ConnId} (hid : home id = room) :
    Apart home room (fun _ => True) fun s => ((), { s with lines := s.lines.erase id }) where
  orderly s hs := by
    refine ⟨hs.floor, fun x l hl => ?_⟩
    rw [KeyMap.get?_erase] at hl
    split at hl
    · cases hl
    · exact hs.lines x l hl
  result _ _ := trivial
  crew _ _ := ⟨rfl, rfl⟩
  elsewhere s _ other hother :=
    ⟨.refl _, rfl, rfl, (KeyMap.restrict_erase_of_neg (not_isAt hid hother) _).symm,
      fun _ _ => rfl, fun _ _ => rfl⟩
  alike s t _ _ hst := by
    refine ⟨rfl, hst.floor, hst.now, hst.started, ?_, hst.results, hst.issued⟩
    rw [KeyMap.restrict_erase, KeyMap.restrict_erase, hst.lines]

theorem apart_keepResult {ticket : Ticket} (hticket : home ticket.id = room)
    (r : Except TransportError Unit) :
    Apart home room (fun _ => True) fun s => ((), s.keepResult ticket r) where
  orderly _ hs := ⟨hs.floor, hs.lines⟩
  result _ _ := trivial
  crew _ _ := ⟨rfl, rfl⟩
  elsewhere s _ other hother := by
    refine ⟨.refl _, rfl, rfl, rfl, fun x hx => ?_, fun _ _ => rfl⟩
    have hne : x ≠ ticket := fun h => hother (by rw [← hx, h, hticket])
    exact ((KeyMap.get?_insert s.results ticket x r).trans (if_neg hne)).symm
  alike s t _ _ hst := by
    refine ⟨rfl, hst.floor, hst.now, hst.started, hst.lines, fun x hx => ?_, hst.issued⟩
    exact (KeyMap.get?_insert s.results ticket x r).trans
      (hst.results x hx ▸ (KeyMap.get?_insert t.results ticket x r).symm)

theorem apart_eraseResult {ticket : Ticket} (hticket : home ticket.id = room) :
    Apart home room (fun _ => True) fun s =>
      ((), { s with results := s.results.erase ticket }) where
  orderly _ hs := ⟨hs.floor, hs.lines⟩
  result _ _ := trivial
  crew _ _ := ⟨rfl, rfl⟩
  elsewhere s _ other hother := by
    refine ⟨.refl _, rfl, rfl, rfl, fun x hx => ?_, fun _ _ => rfl⟩
    have hne : x ≠ ticket := fun h => hother (by rw [← hx, h, hticket])
    exact ((KeyMap.get?_erase s.results ticket x).trans (if_neg hne)).symm
  alike s t _ _ hst := by
    refine ⟨rfl, hst.floor, hst.now, hst.started, hst.lines, fun x hx => ?_, hst.issued⟩
    exact (KeyMap.get?_erase s.results ticket x).trans
      (hst.results x hx ▸ (KeyMap.get?_erase t.results ticket x).symm)

theorem apart_issue {ticket : Ticket} (hticket : home ticket.id = room) :
    Apart home room (fun _ => True) fun s => ((), s.issue ticket) where
  orderly _ hs := ⟨hs.floor, hs.lines⟩
  result _ _ := trivial
  crew _ _ := ⟨rfl, rfl⟩
  elsewhere s _ other hother := by
    refine ⟨.refl _, rfl, rfl, rfl, fun _ _ => rfl, fun x hx => ?_⟩
    have hne : x ≠ ticket.id := fun h => hother (by rw [← hx, h, hticket])
    exact ((KeyMap.get?_insert s.issued ticket.id x _).trans (if_neg hne)).symm
  alike s t _ _ hst := by
    refine ⟨rfl, hst.floor, hst.now, hst.started, hst.lines, hst.results, fun x hx => ?_⟩
    exact (KeyMap.get?_insert s.issued ticket.id x _).trans
      (hst.issued x hx ▸ (KeyMap.get?_insert t.issued ticket.id x _).symm)

/-! ### Writing -/

variable {id : ConnId}

theorem apart_react (hid : home id = room) :
    Apart home room (fun _ => True)
      fun s => (((s.react id).1, (s.react id).2.1), (s.react id).2.2) := by
  refine apart_of_view (fun _ _ hst => hst.floor.connection id hid) fun s _ => ?_
  cases hc : s.floor.connection? id with
  | none =>
    refine ⟨_, apart_pure (a := (.gone, 0)) trivial, fun t ht => ?_⟩
    simp only [react, ht]
  | some c =>
    refine ⟨_, (apart_onFloor (Floor.local_setConnection hid c.react.2)).bind fun _ _ =>
      apart_pure (a := (c.react.1, c.react.1.duration c.react.2.timeout)) trivial, fun t ht => ?_⟩
    simp only [react, ht]

theorem apart_record (hid : home id = room) (p : Payload) (r : Reaction) :
    Apart home room (fun _ => True) fun s => s.record id p r := by
  refine apart_of_view (fun _ _ hst => hst.floor.connection id hid) fun s _ => ?_
  cases hc : s.floor.connection? id with
  | none =>
    refine ⟨_, apart_pure (a := .error .closed) trivial, fun t ht => ?_⟩
    simp only [record, ht]
  | some c =>
    refine ⟨_, (apart_onFloor (Floor.local_setConnection hid (c.record p r))).bind fun _ _ =>
      apart_pure (a := r.result c.timeout) trivial, fun t ht => ?_⟩
    simp only [record, ht]

/-- The requests that get their turn write to their own connection, and their results are kept for
whoever holds its tickets. -/
theorem apart_giveTurns (hid : home id = room) {waiting : List Request}
    (h : ∀ q ∈ waiting, q.ticket.id = id) :
    Apart home room (fun _ => True) fun s => ((), s.giveTurns id waiting) := by
  induction waiting with
  | nil => exact apart_eraseLine hid
  | cons q waiting ih =>
    have hq : home q.ticket.id = room := (h q List.mem_cons_self).symm ▸ hid
    have hnext := ih fun x hx => h x (List.mem_cons_of_mem q hx)
    have hgo : ∀ a : Reaction × Nat, True → Apart home room (fun _ => True) fun s =>
        ((), if a.2 = 0 then
            ((s.record id q.payload a.1).2.keepResult q.ticket
              (s.record id q.payload a.1).1).giveTurns id waiting
          else { s with lines := s.lines.insert id ⟨⟨q, s.now + a.2, a.1⟩, waiting⟩ }) := by
      intro a _
      split
      · exact (apart_record hid q.payload a.1).bind fun result _ =>
          (apart_keepResult hq result).bind fun _ _ => hnext
      · have hline : ∀ due, Line.Of id ⟨⟨q, due, a.1⟩, waiting⟩ := fun _ =>
          ⟨h q List.mem_cons_self, fun x hx => h x (List.mem_cons_of_mem q hx)⟩
        refine apart_of_view (fun _ _ hst => hst.now) fun s _ => ?_
        exact ⟨_, apart_insertLine hid (hline (s.now + a.2)), fun t ht => by rw [ht]⟩
    exact ((apart_react hid).bind hgo).congr fun s => rfl

theorem apart_advanceLine (hid : home id = room) :
    Apart home room (fun _ => True) fun s => ((), s.advanceLine id) := by
  have hview : ∀ s t : Server Rooms, Shadow home room s t →
      (s.now, s.lines.get? id) = (t.now, t.lines.get? id) := fun s t hst => by
    rw [hst.now, hst.line hid]
  refine apart_of_view hview fun s hs => ?_
  cases hl : s.lines.get? id with
  | none =>
    refine ⟨_, apart_pure (a := ()) trivial, fun t ht => ?_⟩
    simp only [advanceLine, (Prod.mk.inj ht).2]
  | some line =>
    obtain ⟨hcurrent, hwaiting⟩ := hs.lines id line hl
    by_cases hdue : line.current.due ≤ s.now
    · have hticket : home line.current.request.ticket.id = room := hcurrent.symm ▸ hid
      refine ⟨_, (apart_record hid line.current.request.payload line.current.reaction).bind
        fun result _ => (apart_keepResult hticket result).bind fun _ _ =>
          apart_giveTurns hid hwaiting, fun t ht => ?_⟩
      obtain ⟨hnow, hline⟩ := Prod.mk.inj ht
      simp only [advanceLine, hline, hnow, hdue, if_true]
    · refine ⟨_, apart_pure (a := ()) trivial, fun t ht => ?_⟩
      obtain ⟨hnow, hline⟩ := Prod.mk.inj ht
      simp only [advanceLine, hline, hnow, hdue, if_false]

/-! ### Driving scripts -/

/-- If a write has to wait, then with a ticket of the room. -/
def Held (home : ConnId → RoomCode) (room : RoomCode)
    (answer : Except TransportError Unit ⊕ Ticket) : Prop :=
  ∀ ticket, answer = .inr ticket → home ticket.id = room

theorem apart_ask (hid : home id = room) (p : Payload) :
    Apart home room (Held home room) fun s => s.ask id p := by
  have hview : ∀ s t : Server Rooms, Shadow home room s t →
      (s.nextTicket id, s.lines.get? id) = (t.nextTicket id, t.lines.get? id) := fun s t hst => by
    rw [nextTicket, nextTicket, hst.issued id hid, hst.line hid]
  refine apart_of_view hview fun s hs => ?_
  have hwait : ∀ line : Line, line.Of id → Apart home room (Held home room) fun t =>
      (.inr (s.nextTicket id),
        { t.issue (s.nextTicket id) with lines := t.lines.insert id line }) := fun line hline =>
    (@apart_issue home room (s.nextTicket id) hid).bind fun _ _ =>
      (apart_insertLine hid hline).bind fun _ _ =>
        apart_pure fun ticket ht => (Sum.inr.inj ht) ▸ hid
  cases hl : s.lines.get? id with
  | some line =>
    obtain ⟨hcurrent, hwaiting⟩ := hs.lines id line hl
    refine ⟨_, hwait { line with waiting := line.waiting ++ [⟨s.nextTicket id, p⟩] } ⟨hcurrent, ?_⟩,
      fun t ht => ?_⟩
    · intro q hq
      rcases List.mem_append.1 hq with hq | hq
      · exact hwaiting q hq
      · rw [List.mem_singleton.1 hq]
        rfl
    · obtain ⟨hticket, hline⟩ := Prod.mk.inj ht
      simp only [ask, hline, hticket]
  | none =>
    have hgo : ∀ a : Reaction × Nat, True → Apart home room (Held home room) fun t =>
        if a.2 = 0 then (.inl (t.record id p a.1).1, (t.record id p a.1).2)
        else (.inr (s.nextTicket id),
          { t.issue (s.nextTicket id) with
            lines := t.lines.insert id ⟨⟨⟨s.nextTicket id, p⟩, t.now + a.2, a.1⟩, []⟩ }) := by
      intro a _
      by_cases hd : a.2 = 0
      · simp only [hd, if_true]
        exact (apart_record hid p a.1).bind fun result _ => apart_pure fun ticket ht => by cases ht
      · simp only [hd, if_false]
        refine apart_of_view (fun _ _ hst => hst.now) fun u _ => ?_
        exact ⟨_, hwait ⟨⟨⟨s.nextTicket id, p⟩, u.now + a.2, a.1⟩, []⟩ ⟨rfl, by simp⟩,
          fun t ht => by rw [ht]⟩
    refine ⟨_, (apart_react hid).bind hgo, fun t ht => ?_⟩
    obtain ⟨hticket, hline⟩ := Prod.mk.inj ht
    simp only [ask, hline, hticket]

def goOnWith (next : Except TransportError Unit → Script Rooms α) :
    Except TransportError Unit ⊕ Ticket → Server Rooms → Stage Rooms α × Server Rooms
  | .inl result, s => drive (next result) s
  | .inr ticket, s => (.blocked ticket next, s)

theorem apart_drive {script : Script Rooms α} (h : script.Confined home room P) :
    Apart home room (Stage.Confined home room P) (drive script) := by
  induction script with
  | done a => exact apart_pure h
  | step change next ih =>
    obtain ⟨hlocal, hsame, hnext⟩ := h
    have hstep : Apart home room (fun script => ∃ f, Floor.Orderly home f ∧ script = next f)
        fun s => (next s.floor, s.onFloor change) :=
      { apart_onFloor hlocal with
        result := fun s hs => ⟨s.floor, hs.floor, rfl⟩
        alike := fun s t hs ht hst =>
          ⟨hsame _ _ hs.floor ht.floor hst.floor,
            ((apart_onFloor hlocal).alike s t hs ht hst).2⟩ }
    refine (hstep.bind fun script hscript => ?_).congr fun s => rfl
    obtain ⟨f, hf, rfl⟩ := hscript
    exact ih f (hnext f hf)
  | write id p next ih =>
    obtain ⟨hid, hnext⟩ := h
    refine apart_of_view (fun _ _ hst => hst.floor.isClosed hid) fun s _ => ?_
    cases hc : s.floor.isClosed id with
    | true =>
      refine ⟨_, ih (.error .closed) (hnext _), fun t ht => ?_⟩
      rw [drive, ht, if_pos rfl]
    | false =>
      have hgo : ∀ answer, Held home room answer →
          Apart home room (Stage.Confined home room P) (goOnWith next answer) := by
        intro answer ha
        cases answer with
        | inl result => exact ih result (hnext result)
        | inr ticket => exact apart_pure ⟨ha ticket rfl, hnext⟩
      refine ⟨_, (apart_ask hid p).bind hgo, fun t ht => ?_⟩
      rw [drive, ht]
      rcases t.ask id p with ⟨result | ticket, u⟩ <;> rfl
  | close id next ih =>
    obtain ⟨hid, hnext⟩ := h
    refine apart_of_view (fun _ _ hst => hst.floor.isClosed hid) fun s _ => ?_
    cases hc : s.floor.isClosed id with
    | true =>
      refine ⟨_, ih hnext, fun t ht => ?_⟩
      rw [drive, ht, if_pos rfl]
    | false =>
      have hgo : ∀ answer, Held home room answer →
          Apart home room (Stage.Confined home room P) (goOnWith (fun _ => next) answer) := by
        intro answer ha
        cases answer with
        | inl result => exact ih hnext
        | inr ticket => exact apart_pure ⟨ha ticket rfl, fun _ => hnext⟩
      refine ⟨_, (apart_onFloor (Floor.local_modifyConnection hid .markClosed)).bind
        fun _ _ => (apart_ask hid .close).bind hgo, fun t ht => ?_⟩
      rw [drive, ht]
      rcases (t.onFloor (·.modifyConnection id .markClosed)).ask id .close with
        ⟨result | ticket, u⟩ <;> rfl

end Server

def Stage.goOn : Stage Rooms α → Server Rooms → Stage Rooms α × Server Rooms
  | .finished a, s => (.finished a, s)
  | .blocked ticket resume, s =>
    match s.takeResult? ticket with
    | none => (.blocked ticket resume, s)
    | some (r, s) => Server.drive (resume r) s

theorem Stage.apart_goOn {P : α → Prop} {stage : Stage Rooms α}
    (h : stage.Confined home room P) :
    Server.Apart home room (Stage.Confined home room P) stage.goOn := by
  cases stage with
  | finished a => exact Server.apart_pure h
  | blocked ticket resume =>
    refine Server.apart_of_view (fun _ _ hst => hst.results ticket h.1) fun s _ => ?_
    cases hr : s.results.get? ticket with
    | none =>
      refine ⟨_, Server.apart_pure (a := .blocked ticket resume) h, fun t ht => ?_⟩
      simp only [goOn, Server.takeResult?, ht, Option.map_none]
    | some r =>
      refine ⟨_, (Server.apart_eraseResult h.1).bind fun _ _ =>
        Server.apart_drive (h.2 r), fun t ht => ?_⟩
      simp only [goOn, Server.takeResult?, ht, Option.map_some]

end Cardroom
