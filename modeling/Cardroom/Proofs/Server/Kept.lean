import Cardroom.Proofs.Server.Course
import Mathlib.Data.List.Induction

namespace Cardroom

variable {σ : Type}

namespace Wire

variable {w : Wire} {id : ConnId} {shape : Countdown} {start now index : Nat} {stopped : Prop}
  {progress : Progress σ}

def opened (w : Wire) : Wire := { w with known := true, closed := false }

theorem Tidy.opened (h : w.Tidy id) (hasked : w.asked = []) : w.opened.Tidy id :=
  { h with shut := fun p hp => absurd (show p ∈ w.asked from hp) (hasked ▸ List.not_mem_nil) }

theorem Told.opened (h : w.Told stopped id shape start now index progress)
    (hstopped : stopped ∨ progress.tickets = [] ∧ progress ≠ .ended) :
    w.opened.Told stopped id shape start now index progress := by
  cases h with
  | ready h hp => exact .ready (h.congr rfl) hp
  | queued h hp hdue => exact .queued (h.congr rfl) hp hdue
  | written h hp hk => exact .written (h.congr rfl) hp hk
  | ended h hp hwhy =>
    exact .ended (h.congr rfl) hp (.inl (hstopped.resolve_right fun h => h.2 rfl))

end Wire

namespace Server

variable {s t : Server σ} {x : ConnId} {hand : List Ticket} {w v : Watch}

theorem wire_openConnection (hnew : s.floor.connection? s.floor.nextId = none) (user : UserId)
    (sink : Sink) (x : ConnId) :
    (s.onFloor fun f => f.openConnection f.nextId user sink).wire x =
      if x = s.floor.nextId then (s.wire x).opened else s.wire x := by
  change (s.onFloor (·.setConnection s.floor.nextId _)).wire x = _
  rw [wire_setConnection]
  split
  · rename_i hx
    subst hx
    rw [wire, hnew]
    rfl
  · rfl

namespace OnCourse

theorem not_known_nextId (h : OnCourse w hand s) : s.floor.connection? s.floor.nextId = none := by
  cases hget : s.floor.connection? s.floor.nextId with
  | none => rfl
  | some c =>
    have hmem : s.floor.nextId ∈ s.floor.connections.keys :=
      KeyMap.mem_keys_iff.2 (Option.isSome_of_eq_some hget)
    exact absurd (h.ids _ hmem) (Nat.lt_irrefl _)

theorem ne_nextId (h : OnCourse w hand s) (hx : (s.floor.connection? x).isSome = true) :
    x ≠ s.floor.nextId := by
  rintro rfl
  rw [h.not_known_nextId] at hx
  cases hx

theorem asked_of_unknown (h : OnCourse w hand s) (hx : s.floor.connection? w.id = none) :
    (s.wire w.id).asked = [] := by
  have hline : s.lines.get? w.id = none := by
    refine Option.eq_none_iff_forall_ne_some.2 fun line hline => ?_
    have hknown := (h.wired w.id line hline).2
    rw [hx] at hknown
    cases hknown
  rw [Wire.asked, wire, hx, hline]
  rfl

theorem ids_openConnection {f : Floor σ} (h : ∀ x ∈ f.connections.keys, x < f.nextId) (user : UserId)
    (sink : Sink) : ∀ x ∈ (f.openConnection f.nextId user sink).connections.keys,
      x < (f.openConnection f.nextId user sink).nextId := by
  have hkeys : (f.openConnection f.nextId user sink).connections.keys =
      f.connections.keys ++ [f.nextId] :=
    (KeyMap.keys_insert ..).trans (if_neg fun hmem => Nat.lt_irrefl _ (h _ hmem))
  have hsize : (f.openConnection f.nextId user sink).nextId = f.nextId + 1 := by
    have hlength := congrArg List.length hkeys
    rwa [List.length_append, KeyMap.keys, KeyMap.keys, List.length_map, List.length_map] at hlength
  rw [hkeys, hsize]
  intro x hx
  rcases List.mem_append.1 hx with hx | hx
  · exact Nat.lt_succ_of_lt (h x hx)
  · rw [List.mem_singleton.1 hx]
    exact Nat.lt_succ_self _

theorem connect (h : OnCourse w hand s) (user : UserId) (sink : Sink) :
    OnCourse w hand (s.onFloor fun f => f.openConnection f.nextId user sink) := by
  have hnew := h.not_known_nextId
  have hwire := wire_openConnection hnew user sink w.id
  have hknown : ∀ x, (s.floor.connection? x).isSome = true →
      ((s.floor.openConnection s.floor.nextId user sink).connection? x).isSome = true := fun x hx => by
    rw [Floor.openConnection, Floor.connection?_setConnection]
    split
    · rfl
    · exact hx
  have hids := ids_openConnection h.ids user sink
  have hwired : (s.onFloor fun f => f.openConnection f.nextId user sink).Wired := fun x line hline =>
    (h.wired x line hline).imp_right (hknown x)
  by_cases hid : w.id = s.floor.nextId
  · rw [if_pos hid] at hwire
    have hunknown : (s.wire w.id).known = false := by
      rw [wire, hid, hnew]
      rfl
    have hstopped : s.countdowns w.id ≠ [] → w.stopped := fun hsome =>
      h.known.resolve_right (not_or.2 ⟨hsome, by rw [hunknown]; exact Bool.false_ne_true⟩)
    exact
      { h with
        wired := hwired
        ids := hids
        clients := fun c hc => hknown c.id (h.clients c hc)
        tidy := hwire ▸ h.tidy.opened (h.asked_of_unknown (hid ▸ hnew))
        known := .inr (.inr (by rw [hwire]; rfl))
        opened := fun _ => by rw [hwire]; rfl
        handFresh := hwire ▸ h.handFresh
        taskFresh := hwire ▸ h.taskFresh
        silent := fun hnone start => hwire ▸ (h.silent hnone start).opened (.inr ⟨rfl, fun h => by cases h⟩)
        sole := fun k hk => by
          obtain ⟨start, index, hwork, hstart, htold⟩ := h.sole k hk
          have hsome : s.countdowns w.id ≠ [] := hk ▸ List.cons_ne_nil k []
          exact ⟨start, index, hwork, hstart, hwire ▸ htold.opened (.inl (.inl (hstopped hsome)))⟩
        only := fun honly => by
          rw [(h.only honly).1] at hunknown
          cases hunknown }
  · rw [if_neg hid] at hwire
    exact
      { h with
        wired := hwired
        ids := hids
        clients := fun c hc => hknown c.id (h.clients c hc)
        tidy := hwire ▸ h.tidy
        known := hwire ▸ h.known
        opened := hwire ▸ h.opened
        handFresh := hwire ▸ h.handFresh
        taskFresh := hwire ▸ h.taskFresh
        silent := hwire ▸ h.silent
        sole := hwire ▸ h.sole
        only := hwire ▸ h.only }

theorem setClients (h : OnCourse w hand s) {cs : List Client}
    (hids : s.clients.map Client.id <+: cs.map Client.id)
    (hclients : ∀ c ∈ cs, (s.floor.connection? c.id).isSome = true)
    (honly : w.only → ∀ c ∈ cs, c.id ≠ w.id) : OnCourse w hand { s with clients := cs } := by
  have hleave : w.stopped ∨ s.Leaving w.id → w.stopped ∨ Leaving { s with clients := cs } w.id :=
    Or.imp_right fun h => h.mono (fun _ hwork => hwork) hids
  exact
    { h with
      clients := hclients
      silent := fun hnone start => (h.silent hnone start).imp hleave
      sole := fun k hk => by
        obtain ⟨start, index, hwork, hstart, htold⟩ := h.sole k hk
        exact ⟨start, index, hwork, hstart, htold.imp hleave⟩
      only := fun ho => ⟨(h.only ho).1, (h.only ho).2.1, honly ho⟩ }

theorem enter (h : OnCourse w hand s) (user : UserId) (sink : Sink) {c : Client}
    (hc : c.id = s.floor.nextId) :
    OnCourse w hand
      { s.onFloor fun f => f.openConnection f.nextId user sink with clients := s.clients ++ [c] } := by
  have hconnect := h.connect user sink
  refine hconnect.setClients (by rw [List.map_append]; exact List.prefix_append ..)
    (fun d hd => ?_) fun honly d hd => ?_
  · rcases List.mem_append.1 hd with hd | hd
    · exact hconnect.clients d hd
    · rw [List.mem_singleton.1 hd, hc]
      change ((s.floor.setConnection _ _).connection? _).isSome = true
      rw [Floor.connection?_setConnection, if_pos rfl]
      rfl
  · rcases List.mem_append.1 hd with hd | hd
    · exact (h.only honly).2.2 d hd
    · rw [List.mem_singleton.1 hd, hc]
      exact fun e => h.ne_nextId (h.only honly).1 e.symm

theorem turn (h : OnCourse w hand s) (x : ConnId) (g : Sink → Sink) :
    OnCourse w hand (s.onFloor (·.modifyConnection x fun c => { c with sink := g c.sink })) := by
  refine h.touch (.of_issued rfl rfl rfl rfl) (touches_modifyConnection s x _) (fun hx => ?_)
    fun _ hticket => .inl hticket
  subst hx
  have hget : (s.floor.modifyConnection w.id fun c => { c with sink := g c.sink }).connection? w.id =
      (s.floor.connection? w.id).map fun c => { c with sink := g c.sink } := by
    rw [Floor.connection?_modifyConnection, if_pos rfl]
  refine .of_eq ((congrArg (Wire.of · _ _ _) hget).trans ?_)
  rw [wire]
  cases s.floor.connection? w.id <;> rfl

theorem later (h : OnCourse w hand s) : OnCourse w hand { s with now := s.now + 1 } :=
  { h with
    silent := fun hnone start => (h.silent hnone start).wait (Nat.le_succ _)
    sole := fun k hk => by
      obtain ⟨start, index, hwork, hstart, htold⟩ := h.sole k hk
      exact ⟨start, index, hwork, Nat.le_succ_of_le hstart, htold.wait (Nat.le_succ _)⟩ }

end OnCourse

variable [RoomStore σ]

theorem lasting_onCourse (htick : 0 < w.config.countdownTick) :
    Lasting (OnCourse w : List Ticket → Server σ → Prop) where
  subset hsub h := h.subset hsub
  floor hspared h := h.floor hspared
  ask hp hopen h := h.ask hp hopen
  close hopen h := h.close hopen
  advanceLine x h := h.advanceLine x
  takeResult hresult hticket h := h.takeResult hresult <| h.not_mine <| hticket.imp_right
    fun ⟨k, hk, hwork, hmem⟩ => ⟨k, hk, not_isCountdownOf hwork, hmem⟩
  untimed h hk hwork := (Task.proper_iff hwork).1 (h.proper _ hk)
  setTask hi hfollows h := h.setOther hi (not_isCountdownOf hfollows.before)
    (not_isCountdownOf hfollows.after) hfollows.leaving ((Task.proper_iff hfollows.after).2 hfollows.untimed)
  endTask hi hend h := h.endTask hi fun hof => .inr (hend _ hof)
  addTask hwork hprogress h := h.addTask hprogress fun hof => by
    rw [not_isCountdownOf hwork] at hof
    cases hof
  startCountdown hc h := h.startCountdown htick fun e =>
    ⟨.inr (e ▸ h.clients _ hc), fun honly => (h.only honly).2.2 _ hc e⟩
  count hi hk h := h.count hi hk
  clients {_ s cs} hids h := by
    have hold : ∀ c ∈ cs, ∃ d ∈ s.clients, d.id = c.id := fun c hc =>
      List.mem_map.1 (hids ▸ List.mem_map_of_mem hc)
    refine h.setClients (hids ▸ List.prefix_rfl) (fun c hc => ?_) fun honly c hc => ?_
    · obtain ⟨d, hd, e⟩ := hold c hc
      exact e ▸ h.clients d hd
    · obtain ⟨d, hd, e⟩ := hold c hc
      exact e ▸ (h.only honly).2.2 d hd
  answerPing x data h := h.answerPing x data

theorem enduring_onCourse (htick : 0 < w.config.countdownTick) :
    Enduring (OnCourse w : List Ticket → Server σ → Prop) where
  toLasting := lasting_onCourse htick
  tick h := (lasting_onCourse htick).settle h.later
  connect user sink h := h.connect user sink
  enter user sink _ hc h := h.enter user sink hc
  turn x g h := h.turn x g

omit [RoomStore σ] in
theorem onCourse_new (config : Config) (secret : String) (store : σ) (entropy : Random.Source)
    (started : Int) (id : ConnId) :
    OnCourse ⟨config, id, False, False, False, []⟩ [] (.new (.new config secret store entropy) started) where
  configured := rfl
  wired := nofun
  ids := nofun
  clients := nofun
  tidy := ⟨nofun, nofun, .nil, nofun, nofun, .nil, nofun⟩
  known := .inr (.inl rfl)
  opened := nofun
  handFresh := nofun
  taskFresh := nofun
  alone := nofun
  proper := nofun
  silent _ _ := .ready ⟨rfl, nofun, nofun⟩ rfl
  sole := nofun
  starts := List.prefix_rfl
  only := nofun

namespace OnCourse

omit [RoomStore σ] in
theorem rewatch (h : OnCourse w hand s) {stopped opened only : Prop} {base : List Nat}
    (hstopped : w.stopped → stopped) (hopened : opened → (s.wire w.id).known = true)
    (hbase : base <+: (s.countdowns w.id).map Task.start)
    (honly : only → (s.wire w.id).known = true ∧ (s.countdowns w.id).map Task.start = base ∧
      ∀ c ∈ s.clients, c.id ≠ w.id) :
    OnCourse ⟨w.config, w.id, stopped, opened, only, base⟩ hand s :=
  { h with
    known := h.known.imp_left hstopped
    opened := hopened
    silent := fun hnone start => (h.silent hnone start).imp (Or.imp_left hstopped)
    sole := fun k hk => by
      obtain ⟨start, index, hwork, hstart, htold⟩ := h.sole k hk
      exact ⟨start, index, hwork, hstart, htold.imp (Or.imp_left hstopped)⟩
    starts := hbase
    only := honly }

/-- Joining a table, with the countdown that follows. -/
theorem joinTable (h : OnCourse w [] s) (htick : 0 < w.config.countdownTick) (code : RoomCode)
    (hjoin : x = w.id → (s.floor.connection? x).isSome = true ∧ ¬ w.only) :
    OnCourse w [] (s.joinTable code x).2 := by
  by_cases hx : x = w.id
  · subst hx
    obtain ⟨hknown, hmore⟩ := hjoin rfl
    have hv : OnCourse { w with opened := True } [] s := h.rewatch id (fun _ => hknown) h.starts h.only
    have hjoined := (enduring_onCourse (w := { w with opened := True }) htick).joinTable code w.id
      (fun t ht => ht.startCountdown htick fun _ => ⟨.inr (ht.opened trivial), hmore⟩) hv
    exact hjoined.rewatch id (fun _ => hjoined.opened trivial) hjoined.starts hjoined.only
  · exact (enduring_onCourse htick).joinTable code x
      (fun t ht => ht.startCountdown htick fun e => absurd e hx) h

omit [RoomStore σ] in
theorem endLast (h : OnCourse w hand s) {of : Work → Bool}
    (hof : ∀ k ∈ s.countdowns w.id, of k.work = true → w.stopped ∨ s.Leaving w.id) :
    OnCourse w hand (s.endLast of) := by
  unfold Server.endLast
  split
  · rename_i i hi
    obtain ⟨k, hk, hwork⟩ := lastTask?_spec hi
    exact h.endTask hk fun hown =>
      hof k (mem_countdowns.2 ⟨List.mem_of_getElem? hk, hown⟩) hwork
  · exact h

omit [RoomStore σ] in
theorem abort (h : OnCourse w hand s)
    (hstop : x = w.id → s.countdowns w.id ≠ [] → w.stopped) : OnCourse w hand (s.abort x) := by
  have hping : OnCourse w hand (s.endLast (isPingerOf x)) := h.endLast fun k hk hwork => by
    obtain ⟨shape, start, index, hcountdown⟩ := isCountdownOf_iff.1 (mem_countdowns.1 hk).2
    rw [hcountdown] at hwork
    cases hwork
  refine hping.endLast fun k hk hwork => .inl ?_
  obtain ⟨shape, start, index, hcountdown⟩ := isCountdownOf_iff.1 (mem_countdowns.1 hk).2
  rw [hcountdown] at hwork
  refine hstop (of_decide_eq_true hwork).symm fun hnone => ?_
  have hworks : (s.endLast (isPingerOf x)).tasks.map Task.work = s.tasks.map Task.work := by
    unfold Server.endLast
    split
    · exact works_endTask ..
    · rfl
  have hmem : k.work ∈ s.tasks.map Task.work :=
    hworks ▸ List.mem_map_of_mem (mem_countdowns.1 hk).1
  obtain ⟨l, hl, e⟩ := List.mem_map.1 hmem
  have hl' : l ∈ s.countdowns w.id := mem_countdowns.2 ⟨hl, e ▸ (mem_countdowns.1 hk).2⟩
  rw [hnone] at hl'
  cases hl'

/-- Nothing but another join or a stopped task takes a countdown off its course. -/
theorem step (h : OnCourse w [] s) (htick : 0 < w.config.countdownTick) (m : Move σ)
    (hjoin : ∀ code, m = .joins code w.id → ¬ w.only)
    (hstop : m = .aborts w.id → s.countdowns w.id ≠ [] → w.stopped) : OnCourse w [] (s.step m) := by
  refine (enduring_onCourse htick).step m (fun code x e hknown => ?_) (fun x e => ?_) h
  · exact h.joinTable htick code fun hx => ⟨hknown, hjoin code (hx ▸ e)⟩
  · exact h.abort fun hx => hstop (hx ▸ e)

end OnCourse

def Aborts (s : Server σ) (moves : List (Move σ)) (id : ConnId) : Prop :=
  ∃ before after, moves = before ++ .aborts id :: after ∧ (s.after before).countdowns id ≠ []

/-- A connection is on course after every schedule, and its countdown stopped only by that schedule. -/
theorem onCourse_after (h : OnCourse w [] s) (htick : 0 < w.config.countdownTick)
    (moves : List (Move σ)) (hjoin : ∀ code, .joins code w.id ∈ moves → ¬ w.only) :
    OnCourse { w with stopped := w.stopped ∨ s.Aborts moves w.id } [] (s.after moves) := by
  -- whether a move stops a countdown depends on those before it, so the last one is taken off
  induction moves using List.reverseRecOn with
  | nil => exact h.rewatch .inl h.opened h.starts h.only
  | append_singleton moves m ih =>
    have hmoves := ih fun code hmem => hjoin code (List.mem_append_left _ hmem)
    rw [after_append]
    have hlonger : w.stopped ∨ s.Aborts moves w.id → w.stopped ∨ s.Aborts (moves ++ [m]) w.id :=
      Or.imp_right fun ⟨before, after, e, hsome⟩ =>
        ⟨before, after ++ [m], by rw [e, List.append_assoc, List.cons_append], hsome⟩
    have hlast := hmoves.rewatch hlonger hmoves.opened hmoves.starts hmoves.only
    refine hlast.step htick m (fun code e => hjoin code ?_) fun e hsome => .inr ?_
    · exact List.mem_append_right _ (e ▸ List.mem_singleton_self _)
    · exact ⟨moves, [], by rw [e], hsome⟩

end Server

end Cardroom
