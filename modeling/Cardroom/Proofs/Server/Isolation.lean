import Cardroom.Proofs.Server.Venue

namespace Cardroom

variable {home : ConnId → RoomCode} {room : RoomCode}

open Server (Apart Orderly Shadow)

namespace Operation

def Joins (home : ConnId → RoomCode) (room : RoomCode) (a : Answer) : Prop :=
  ∀ id r, a = .joined id r → home id = room

theorem confined_script (op : Operation) (h : ∀ id ∈ op.ids, home id = room) :
    (op.script room).Confined home room (Joins home room) := by
  have hother : ∀ {α : Type} {s : Script Rooms α} (g : α → Answer),
      (∀ a id r, g a ≠ .joined id r) → (s.Confined home room fun _ => True) →
      (g <$> s).Confined home room (Joins home room) := fun g hg hs =>
    hs.map fun a _ id r ha => absurd ha (hg a id r)
  cases op with
  | enterLobby id => exact hother _ nofun (Lobby.confined_enter (h id List.mem_cons_self))
  | leaveLobby id => exact hother _ nofun (Lobby.confined_leave (h id List.mem_cons_self))
  | receiveInLobby user raw => exact hother _ nofun (Lobby.confined_receive user raw)
  | showRoom => exact hother _ nofun Lobby.confined_showRoom
  | announceGame game => exact hother _ nofun (Lobby.confined_announceGame game)
  | joinTable id =>
    have hid := h id List.mem_cons_self
    refine (Tableside.confined_join hid).map fun r _ x r' hx => ?_
    cases hx
    exact hid
  | leaveTable id => exact hother _ nofun (Tableside.confined_leave (h id List.mem_cons_self))
  | receiveAtTable user raw => exact hother _ nofun (Tableside.confined_receive user raw)
  | closeTable => exact hother _ nofun Tableside.confined_closeRoom
  | ensureTable => exact hother _ nofun Tableside.confined_ensureTable
  | removeTable => exact hother _ nofun Tableside.confined_removeTable
  | roomChanged => exact hother _ nofun Door.confined_roomChanged
  | gameStarted game => exact hother _ nofun (Door.confined_gameStarted game)
  | userLeft user => exact hother _ nofun (Door.confined_userLeft user)
  | roomClosed => exact hother _ nofun Door.confined_roomClosed
  | register side id =>
    exact hother _ nofun
      (Script.confined_change (Delivery.local_enter (h id List.mem_cons_self)))
  | unregister side id =>
    exact hother _ nofun (Delivery.confined_unregister (h id List.mem_cons_self))
  | prune side failed => exact hother _ nofun (Delivery.confined_prune failed)
  | broadcast side text => exact hother _ nofun (Delivery.confined_broadcast _)
  | send side targets text => exact hother _ nofun (Delivery.confined_send _ h)
  | closeUser side user => exact hother _ nofun (Delivery.confined_closeUser user)
  | dropRoom side => exact hother _ nofun Delivery.confined_dropRoom
  | write id p => exact hother _ nofun (Script.confined_writeTo (h id List.mem_cons_self) p)
  | close id => exact hother _ nofun (Script.confined_closeOne (h id List.mem_cons_self))

end Operation

namespace Answer

variable {s t : Server Rooms} {a : Answer}

theorem start_elsewhere {code : RoomCode} (h : Server.Twin home room s t)
    (ha : Operation.Joins home code a) (hne : room ≠ code) :
    Server.Twin home room (a.start s) t := by
  cases a with
  | joined id r =>
    have hid : home id = code := ha id r rfl
    cases r with
    | error e => exact h
    | ok _ => exact h.startCountdown_elsewhere (hid.symm ▸ hne) _
  | _ => exact h

theorem start_both (h : Server.Twin home room s t) (ha : Operation.Joins home room a) :
    Server.Twin home room (a.start s) (a.start t) := by
  cases a with
  | joined id r =>
    have hid : home id = room := ha id r rfl
    cases r with
    | error e => exact h
    | ok _ =>
      have hboth := h.startCountdown_both hid (Server.countdownShape s.floor.config)
      simp only [start, ← h.shadow.floor.config]
      exact hboth
  | _ => exact h

end Answer

namespace Errand

variable {e : Errand} {s t : Server Rooms}

def Confined (home : ConnId → RoomCode) (e : Errand) : Prop :=
  (∃ code, e.room? = some code ∧ e.stage.Confined home code (Operation.Joins home code)) ∨
    e.room? = none ∧ ∃ r, e.stage = .finished (.admitted r)

theorem concerns_of_none (h : e.room? = none) : e.concerns room = true := by
  rw [concerns, h]
  rfl

theorem concerns_iff {code : RoomCode} (h : e.room? = some code) :
    e.concerns room = true ↔ code = room := by
  rw [concerns, h]
  exact decide_eq_true_iff

@[simp] theorem room?_goOn (e : Errand) (s : Server Rooms) : (e.goOn s).1.room? = e.room? := by
  unfold goOn
  split
  · split <;> rfl
  · rfl

theorem goOn_of_settled {a : Answer} (h : e.stage = .finished a) (hsettled : e.settled = true)
    (s : Server Rooms) : e.goOn s = (e, s) := by
  rw [goOn, h]
  exact if_pos hsettled

theorem goOn_of_finished {a : Answer} (h : e.stage = .finished a) (hsettled : ¬ e.settled = true)
    (s : Server Rooms) : e.goOn s = ({ e with settled := true }, a.start s) := by
  rw [goOn, h]
  exact if_neg hsettled

theorem goOn_of_blocked {ticket : Ticket}
    {resume : Except TransportError Unit → Script Rooms Answer}
    (h : e.stage = .blocked ticket resume) (s : Server Rooms) :
    e.goOn s = ({ e with stage := (e.stage.goOn s).1 }, (e.stage.goOn s).2) := by
  rw [goOn, h]

theorem goOn_elsewhere {code : RoomCode} (h : Server.Twin home room s t)
    (he : e.stage.Confined home code (Operation.Joins home code)) (hne : room ≠ code) :
    (e.goOn s).1.stage.Confined home code (Operation.Joins home code) ∧
      Server.Twin home room (e.goOn s).2 t := by
  cases hs : e.stage with
  | finished a =>
    by_cases hsettled : e.settled = true
    · rw [goOn_of_settled hs hsettled]
      exact ⟨he, h⟩
    · rw [goOn_of_finished hs hsettled]
      have ha := he
      rw [hs] at ha
      exact ⟨he, Answer.start_elsewhere h ha hne⟩
  | blocked ticket resume =>
    have hgo := Stage.apart_goOn he
    rw [goOn_of_blocked hs]
    exact ⟨hgo.result s h.left, h.elsewhere hgo hne⟩

theorem goOn_both (h : Server.Twin home room s t)
    (he : e.stage.Confined home room (Operation.Joins home room)) :
    (e.goOn s).1 = (e.goOn t).1 ∧
      (e.goOn s).1.stage.Confined home room (Operation.Joins home room) ∧
      Server.Twin home room (e.goOn s).2 (e.goOn t).2 := by
  cases hs : e.stage with
  | finished a =>
    by_cases hsettled : e.settled = true
    · rw [goOn_of_settled hs hsettled, goOn_of_settled hs hsettled]
      exact ⟨rfl, he, h⟩
    · rw [goOn_of_finished hs hsettled, goOn_of_finished hs hsettled]
      have ha := he
      rw [hs] at ha
      exact ⟨rfl, he, Answer.start_both h ha⟩
  | blocked ticket resume =>
    have hgo := Stage.apart_goOn he
    obtain ⟨hvalue, htwin⟩ := h.both hgo
    rw [goOn_of_blocked hs, goOn_of_blocked hs]
    exact ⟨by rw [hvalue], hgo.result s h.left, htwin⟩

theorem concerns_goOn (e : Errand) (s : Server Rooms) :
    (e.goOn s).1.concerns room = e.concerns room := by
  rw [concerns, concerns, room?_goOn]

/-- Errands of the room, and answers that need none, go on beside each other; other errands go on
alone. -/
theorem goOn_cases (h : Server.Twin home room s t) (he : e.Confined home) :
    (e.goOn s).1.Confined home ∧
      (e.concerns room = true ∧ (e.goOn s).1 = (e.goOn t).1 ∧
          Server.Twin home room (e.goOn s).2 (e.goOn t).2 ∨
        ¬ e.concerns room = true ∧ Server.Twin home room (e.goOn s).2 t) := by
  obtain ⟨code, hcode, hstage⟩ | ⟨hnone, r, hr⟩ := he
  · by_cases hroom : room = code
    · subst hroom
      obtain ⟨hvalue, hstage', htwin⟩ := goOn_both h hstage
      refine ⟨.inl ⟨room, ?_, hstage'⟩, .inl ⟨(concerns_iff hcode).2 rfl, hvalue, htwin⟩⟩
      rw [room?_goOn, hcode]
    · obtain ⟨hstage', htwin⟩ := goOn_elsewhere h hstage hroom
      have hne : ¬ e.concerns room = true := fun hc => hroom ((concerns_iff hcode).1 hc).symm
      refine ⟨.inl ⟨code, ?_, hstage'⟩, .inr ⟨hne, htwin⟩⟩
      rw [room?_goOn, hcode]
  · by_cases hsettled : e.settled = true
    · rw [goOn_of_settled hr hsettled, goOn_of_settled hr hsettled]
      exact ⟨.inr ⟨hnone, r, hr⟩, .inl ⟨concerns_of_none hnone, rfl, h⟩⟩
    · rw [goOn_of_finished hr hsettled, goOn_of_finished hr hsettled]
      exact ⟨.inr ⟨hnone, r, hr⟩, .inl ⟨concerns_of_none hnone, rfl, h⟩⟩

end Errand

namespace Venue

/-- Beside a venue of all rooms, one of a single room. -/
structure Twin (home : ConnId → RoomCode) (room : RoomCode) (v w : Venue) : Prop where
  server : Server.Twin home room v.server w.server
  errands : w.errands = v.errands.filter (Errand.concerns room)
  confined : ∀ e ∈ v.errands, e.Confined home

variable {v w : Venue}

theorem Twin.view (h : Twin home room v w) : v.view home room = w.view home room := by
  have hfloor := h.server.shadow.floor
  have hclosed : ∀ id, (if home id = room then some (v.server.floor.isClosed id) else none) =
      if home id = room then some (w.server.floor.isClosed id) else none := by
    intro id
    split
    · rename_i hid
      rw [hfloor.isClosed hid]
    · rfl
  have hreceived : ∀ id, (if home id = room then some (v.server.floor.received id) else none) =
      if home id = room then some (w.server.floor.received id) else none := by
    intro id
    split
    · rename_i hid
      rw [Floor.received, Floor.received, hfloor.connection id hid]
    · rfl
  have herrands : w.errands.filter (Errand.concerns room) =
      v.errands.filter (Errand.concerns room) := by
    rw [h.errands, List.filter_filter]
    simp only [Bool.and_self]
  simp only [Venue.view, hfloor.entry, hfloor.table, funext hfloor.present, funext hclosed,
    funext hreceived, herrands]

theorem Twin.goOnEach {s t : Server Rooms} (h : Server.Twin home room s t) {es : List Errand}
    (hes : ∀ e ∈ es, e.Confined home) :
    (∀ e ∈ (Venue.goOnEach es s).1, e.Confined home) ∧
      (Venue.goOnEach (es.filter (Errand.concerns room)) t).1 =
        (Venue.goOnEach es s).1.filter (Errand.concerns room) ∧
      Server.Twin home room (Venue.goOnEach es s).2
        (Venue.goOnEach (es.filter (Errand.concerns room)) t).2 := by
  induction es generalizing s t with
  | nil => exact ⟨hes, rfl, h⟩
  | cons e es ih =>
    have hrest := fun x hx => hes x (List.mem_cons_of_mem e hx)
    have hcons : ∀ (x : Errand) (xs : List Errand) (u : Server Rooms), Venue.goOnEach (x :: xs) u =
        ((x.goOn u).1 :: (Venue.goOnEach xs (x.goOn u).2).1,
          (Venue.goOnEach xs (x.goOn u).2).2) := fun _ _ _ => rfl
    obtain ⟨he, ⟨hpos, hvalue, htwin⟩ | ⟨hneg, htwin⟩⟩ :=
      Errand.goOn_cases h (hes e List.mem_cons_self)
    · obtain ⟨hconfined, herrands, hserver⟩ := ih htwin hrest
      have hpos' : (e.goOn s).1.concerns room = true := (Errand.concerns_goOn e s).trans hpos
      rw [List.filter_cons_of_pos hpos, hcons, hcons, List.filter_cons_of_pos hpos', ← hvalue]
      exact ⟨List.forall_mem_cons.2 ⟨he, hconfined⟩, congrArg (_ :: ·) herrands, hserver⟩
    · obtain ⟨hconfined, herrands, hserver⟩ := ih htwin hrest
      have hneg' : ¬ (e.goOn s).1.concerns room = true := by rwa [Errand.concerns_goOn]
      rw [List.filter_cons_of_neg hneg, hcons, List.filter_cons_of_neg hneg']
      exact ⟨List.forall_mem_cons.2 ⟨he, hconfined⟩, herrands, hserver⟩

theorem letIn_shadow {s t : Server Rooms} {raw : String} (h : Shadow home room s t)
    (hraw : ∀ code, RoomCode.parse raw = .ok code → code = room) (token : Option String) :
    Door.letIn s.floor s.timeOfDay token raw = Door.letIn t.floor t.timeOfDay token raw := by
  rw [Server.timeOfDay, Server.timeOfDay, h.now, h.started, Door.letIn_congr h.floor hraw]

/-- All that a step can do that is addressed to a room: it keeps what comes of an operation in that
room, it changes that room, or it starts a countdown or pings there. -/
theorem step_cases (x : Step) (hids : ∀ id ∈ x.ids, x.room? = some (home id)) {code : RoomCode}
    (hcode : x.room? = some code) :
    (∃ c, Apart home code (Stage.Confined home code (Operation.Joins home code)) c ∧
      ∀ v : Venue, v.step x = v.enlist (some code) (c v.server).1 (c v.server).2) ∨
    (∃ c, Apart home code (fun _ => True) (fun s => ((), c s)) ∧
      ∀ v : Venue, v.step x = v.onServer c) ∨
    (∃ id, home id = code ∧ ∀ v : Venue, v.step x =
      v.onServer fun s => s.startCountdown id (Server.countdownShape s.floor.config)) ∨
    ∃ id n, home id = code ∧ ∀ v : Venue, v.step x = v.onServer (·.startPinger id n) := by
  have hhome : ∀ id ∈ x.ids, home id = code := fun id hid =>
    Option.some.inj ((hids id hid).symm.trans hcode)
  cases x with
  | begins room op =>
    cases hcode
    exact .inl ⟨_, Server.apart_drive (op.confined_script hhome), fun v => rfl⟩
  | edits e =>
    cases hcode
    have hlook : Apart home e.code (Stage.Confined home e.code (Operation.Joins home e.code))
        fun s => (.finished (.stored (e.answer s.floor.store)), s) :=
      Server.apart_look (fun s t hst => by rw [(Edit.apply_congr e hst.floor.entry).2])
        fun _ id r ha => by cases ha
    exact .inl ⟨_, hlook.bind fun _ hstage => (Server.apart_onFloor (Edit.local_apply e)).bind
      fun _ _ => Server.apart_pure hstage, fun v => rfl⟩
  | admits raw token =>
    have hparse : RoomCode.parse raw = .ok code := by
      cases hp : RoomCode.parse raw with
      | error e =>
        rw [Step.room?, hp] at hcode
        cases hcode
      | ok c =>
        rw [Step.room?, hp] at hcode
        exact congrArg Except.ok (Option.some.inj hcode)
    have hraw : ∀ c, RoomCode.parse raw = .ok c → c = code := fun c hc =>
      Except.ok.inj (hc.symm.trans hparse)
    have hlook : Apart home code (Stage.Confined home code (Operation.Joins home code))
        fun s => (.finished (.admitted (Door.letIn s.floor s.timeOfDay token raw)), s) :=
      Server.apart_look (fun s t hst => by rw [letIn_shadow hst hraw]) fun _ id r ha => by cases ha
    exact .inl ⟨_, hlook, fun v => congrArg (v.enlist · _ _) hcode⟩
  | opens room id user sink =>
    cases hcode
    exact .inr (.inl ⟨_, Server.apart_onFloor
      (Floor.local_connect (hhome id List.mem_cons_self) user sink), fun v => rfl⟩)
  | turns room id sink =>
    cases hcode
    exact .inr (.inl ⟨_, Server.apart_onFloor
      (Floor.local_turn (hhome id List.mem_cons_self) sink), fun v => rfl⟩)
  | countsDown room id =>
    cases hcode
    exact .inr (.inr (.inl ⟨id, hhome id List.mem_cons_self, fun v => rfl⟩))
  | pings room id interval =>
    cases hcode
    exact .inr (.inr (.inr ⟨id, interval, hhome id List.mem_cons_self, fun v => rfl⟩))
  | waits n => cases hcode
  | works => cases hcode
  | goesOn => cases hcode

theorem Twin.enlist_elsewhere (h : Twin home room v w) {room? : Option RoomCode}
    {stage : Stage Rooms Answer} {s : Server Rooms} (hserver : Server.Twin home room s w.server)
    (hconfined : Errand.Confined home ⟨room?, stage, false⟩)
    (hneg : ¬ Errand.concerns room ⟨room?, stage, false⟩ = true) :
    Twin home room (v.enlist room? stage s) w where
  server := hserver
  errands := by
    rw [enlist, List.filter_append, List.filter_cons_of_neg hneg, h.errands]
    exact (List.append_nil _).symm
  confined := List.forall_mem_append.2 ⟨h.confined, List.forall_mem_singleton.2 hconfined⟩

theorem Twin.enlist_both (h : Twin home room v w) {room? : Option RoomCode}
    {stage : Stage Rooms Answer} {s t : Server Rooms} (hserver : Server.Twin home room s t)
    (hconfined : Errand.Confined home ⟨room?, stage, false⟩)
    (hpos : Errand.concerns room ⟨room?, stage, false⟩ = true) :
    Twin home room (v.enlist room? stage s) (w.enlist room? stage t) where
  server := hserver
  errands := by
    rw [enlist, enlist, List.filter_append, List.filter_cons_of_pos hpos, h.errands]
    rfl
  confined := List.forall_mem_append.2 ⟨h.confined, List.forall_mem_singleton.2 hconfined⟩

theorem Twin.step_elsewhere (h : Twin home room v w) {x : Step}
    (hids : ∀ id ∈ x.ids, x.room? = some (home id)) {code : RoomCode}
    (hcode : x.room? = some code) (hne : room ≠ code) : Twin home room (v.step x) w := by
  obtain ⟨c, hc, hstep⟩ | ⟨c, hc, hstep⟩ | ⟨id, hid, hstep⟩ | ⟨id, n, hid, hstep⟩ :=
    step_cases x hids hcode
  · have hstage := hc.result v.server h.server.left
    rw [hstep]
    exact h.enlist_elsewhere (h.server.elsewhere hc hne) (.inl ⟨code, rfl, hstage⟩)
      fun hconcerns => hne ((Errand.concerns_iff rfl).1 hconcerns).symm
  · rw [hstep]
    exact ⟨h.server.elsewhere hc hne, h.errands, h.confined⟩
  · rw [hstep]
    exact ⟨h.server.startCountdown_elsewhere (hid.symm ▸ hne) _, h.errands, h.confined⟩
  · rw [hstep]
    exact ⟨h.server.startPinger_elsewhere (hid.symm ▸ hne) n, h.errands, h.confined⟩

theorem Twin.step_both (h : Twin home room v w) {x : Step}
    (hids : ∀ id ∈ x.ids, x.room? = some (home id)) (hroom : x.room? = some room) :
    Twin home room (v.step x) (w.step x) := by
  obtain ⟨c, hc, hstep⟩ | ⟨c, hc, hstep⟩ | ⟨id, hid, hstep⟩ | ⟨id, n, hid, hstep⟩ :=
    step_cases x hids hroom
  · have hstage := hc.result v.server h.server.left
    obtain ⟨hvalue, htwin⟩ := h.server.both hc
    rw [hstep, hstep, ← hvalue]
    exact h.enlist_both htwin (.inl ⟨room, rfl, hstage⟩) ((Errand.concerns_iff rfl).2 rfl)
  · rw [hstep, hstep]
    exact ⟨(h.server.both hc).2, h.errands, h.confined⟩
  · rw [hstep, hstep]
    have hboth := h.server.startCountdown_both hid (Server.countdownShape v.server.floor.config)
    refine ⟨?_, h.errands, h.confined⟩
    simp only [onServer, ← h.server.shadow.floor.config]
    exact hboth
  · rw [hstep, hstep]
    exact ⟨h.server.startPinger_both hid n, h.errands, h.confined⟩

/-- What is addressed to no room goes on beside each other. -/
theorem Twin.step_none (h : Twin home room v w) {x : Step} (hnone : x.room? = none) :
    Twin home room (v.step x) (w.step x) := by
  cases x with
  | admits raw token =>
    have hraw : ∀ code, RoomCode.parse raw = .ok code → code = room := by
      intro code hcode
      rw [Step.room?, hcode] at hnone
      cases hnone
    simp only [Venue.step, hnone, ← letIn_shadow h.server.shadow hraw]
    exact h.enlist_both h.server (.inr ⟨rfl, _, rfl⟩) (Errand.concerns_of_none rfl)
  | waits n => exact ⟨h.server.wait n, h.errands, h.confined⟩
  | works => exact ⟨h.server.pass, h.errands, h.confined⟩
  | goesOn =>
    obtain ⟨hconfined, herrands, hserver⟩ := Twin.goOnEach h.server h.confined
    rw [← h.errands] at herrands hserver
    exact ⟨hserver, herrands, hconfined⟩
  | begins | edits | opens | turns | countsDown | pings => cases hnone

/-- A step is either made on both sides or, if it is addressed to another room, on one only. -/
theorem Twin.step_cases (h : Twin home room v w) {x : Step}
    (hids : ∀ id ∈ x.ids, x.room? = some (home id)) :
    x.concerns room = true ∧ Twin home room (v.step x) (w.step x) ∨
      ¬ x.concerns room = true ∧ Twin home room (v.step x) w := by
  cases hx : x.room? with
  | none => exact .inl ⟨by rw [Step.concerns, hx]; rfl, h.step_none hx⟩
  | some code =>
    have hconcerns : x.concerns room = true ↔ code = room := by
      rw [Step.concerns, hx]
      exact decide_eq_true_iff
    by_cases hroom : code = room
    · exact .inl ⟨hconcerns.2 hroom, h.step_both hids (hroom ▸ hx)⟩
    · exact .inr ⟨fun hc => hroom (hconcerns.1 hc), h.step_elsewhere hids hx (Ne.symm hroom)⟩

theorem Twin.views (h : Twin home room v w) {steps : List Step}
    (hids : ∀ x ∈ steps, ∀ id ∈ x.ids, x.room? = some (home id)) :
    w.views home room (steps.filter (Step.concerns room)) = v.views home room steps := by
  -- a step of another room is made on one side only, and the two stay twins all the same
  induction steps generalizing v w with
  | nil => rfl
  | cons x steps ih =>
    have hrest := fun y hy => hids y (List.mem_cons_of_mem x hy)
    obtain ⟨hpos, hstep⟩ | ⟨hneg, hstep⟩ := h.step_cases (hids x List.mem_cons_self)
    · rw [List.filter_cons_of_pos hpos, Venue.views, Venue.views, if_pos hpos, if_pos hpos,
        hstep.view, ih hstep hrest]
    · rw [List.filter_cons_of_neg hneg, Venue.views, if_neg hneg, ih hstep hrest]

theorem Twin.new {config : Config} (hseed : config.dealerSeed.isSome = true) (secret : String)
    (store : Rooms) (entropy : Random.Source) (started : Int) :
    Twin home room (.new config secret store entropy started)
      (.new config secret store entropy started) := by
  have hfloor : Floor.Orderly home (.new config secret store entropy) := by
    refine ⟨fun side code id hid => ?_, fun code t ht => ?_, hseed⟩
    · cases side <;> cases hid
    · cases ht
  have horderly : Orderly home (.new (.new config secret store entropy) started) :=
    ⟨hfloor, fun id line hl => by cases hl⟩
  refine ⟨⟨.refl room horderly rfl, ?_, rfl⟩, rfl, ?_⟩
  · intro k hk
    cases hk
  · intro e he
    cases he

/-- No room can tell what is done in other rooms. If every connection is used with one room only,
and all that is addressed to other rooms is taken out of a run, then after every step that is left
there is the same to see of the room: its entry in the store, its table, who attends, what its
connections have received and whether they are closed, and what has come of the operations on it. -/
theorem rooms_apart (config : Config) (hseed : config.dealerSeed.isSome = true) (secret : String)
    (store : Rooms) (entropy : Random.Source) (started : Int) (home : ConnId → RoomCode)
    (steps : List Step) (hids : ∀ x ∈ steps, ∀ id ∈ x.ids, x.room? = some (home id))
    (room : RoomCode) :
    (Venue.new config secret store entropy started).views home room
        (steps.filter (Step.concerns room)) =
      (Venue.new config secret store entropy started).views home room steps :=
  (Twin.new hseed secret store entropy started).views hids

def cellarRoom : RoomCode := ⟨"8", by decide⟩

def parlourOrCellar (id : ConnId) : RoomCode := if id = 0 then parlourRoom else cellarRoom

/-- While somebody joins a table over a slow line, another room is filled and closed. -/
def parlourAndCellar : List Step :=
  [.edits (.create ⟨parlourRoom, .waiting, 6, 1⟩), .edits (.addMember parlourRoom 1 "Ann"),
    .opens parlourRoom 0 1 (.steady (.takes 5)), .begins parlourRoom (.joinTable 0),
    .edits (.create ⟨cellarRoom, .waiting, 6, 2⟩), .edits (.addMember cellarRoom 2 "Bob"),
    .opens cellarRoom 1 2 (.steady (.takes 0)), .begins cellarRoom (.joinTable 1),
    .begins cellarRoom .roomClosed, .waits 5, .works, .goesOn, .waits 5, .works, .goesOn]

theorem rooms_apart_parlour_cellar :
    (∀ x ∈ parlourAndCellar, ∀ id ∈ x.ids, x.room? = some (parlourOrCellar id)) ∧
    (parlourAndCellar.filter (Step.concerns parlourRoom)).length + 5 = parlourAndCellar.length ∧
    (Venue.new { dealerSeed := some 7 } "" .empty (.ofSeed 0) 0).views parlourOrCellar parlourRoom
        (parlourAndCellar.filter (Step.concerns parlourRoom)) =
      (Venue.new { dealerSeed := some 7 } "" .empty (.ofSeed 0) 0).views parlourOrCellar parlourRoom
        parlourAndCellar :=
  ⟨by decide, by decide, rooms_apart { dealerSeed := some 7 } rfl "" .empty (.ofSeed 0) 0
    parlourOrCellar parlourAndCellar (by decide) parlourRoom⟩

end Venue

end Cardroom
