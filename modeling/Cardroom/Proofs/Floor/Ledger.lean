import Cardroom.Proofs.Floor.Lifecycle

namespace Cardroom

variable {σ α κ : Type}

open Script

/-! ### How many attend -/

namespace KeyMap

variable [DecidableEq κ] {k : κ}

theorem length_flatten_place (ids : List α) (l : List (κ × List α)) :
    ((place k ids l).flatMap Prod.snd).length + ((l.lookup k).getD []).length =
      (l.flatMap Prod.snd).length + ids.length := by
  induction l with
  | nil => simp [place]
  | cons e l ih =>
    obtain ⟨j, b⟩ := e
    rw [place, lookup_cons_eq_ite]
    by_cases h : j = k
    · rw [if_pos h, if_pos h.symm]
      simp only [List.flatMap_cons, List.length_append, Option.getD_some]
      omega
    · rw [if_neg h, if_neg (Ne.symm h)]
      simp only [List.flatMap_cons, List.length_append]
      omega

theorem length_flatten_filter_ne {l : List (κ × List α)} (hn : (l.map Prod.fst).Nodup) :
    ((l.filter (·.1 ≠ k)).flatMap Prod.snd).length + ((l.lookup k).getD []).length =
      (l.flatMap Prod.snd).length := by
  induction l with
  | nil => rfl
  | cons e l ih =>
    obtain ⟨j, b⟩ := e
    obtain ⟨hj, hn⟩ := List.nodup_cons.1 (List.map_cons ▸ hn)
    have ih := ih hn
    rw [List.filter_cons, lookup_cons_eq_ite]
    by_cases h : j = k
    · -- no later entry has the key
      subst h
      have hnone : l.lookup j = none := by
        rw [← Option.not_isSome_iff_eq_none, isSome_lookup_iff]
        exact hj
      rw [hnone, Option.getD_none, List.length_nil] at ih
      rw [if_neg (by simp), if_pos rfl]
      simp only [Option.getD_some, List.flatMap_cons, List.length_append]
      omega
    · rw [if_pos (decide_eq_true h), if_neg (Ne.symm h)]
      simp only [List.flatMap_cons, List.length_append]
      omega

end KeyMap

namespace Attendance

def everyone (a : Attendance) : List ConnId := a.rooms.entries.flatMap Prod.snd

def total (a : Attendance) : Nat := a.everyone.length

variable {a : Attendance} {room : RoomCode} {id : ConnId}

theorem total_put (a : Attendance) (room : RoomCode) (ids : List ConnId) :
    (a.put room ids).total + (a.present room).length = a.total + ids.length := by
  rw [put]
  split
  · rename_i h
    rw [List.isEmpty_iff.1 h]
    exact KeyMap.length_flatten_filter_ne a.rooms.nodup_keys
  · exact KeyMap.length_flatten_place ids a.rooms.entries

theorem total_enter (h : id ∉ a.present room) : (a.enter room id).total = a.total + 1 := by
  have hput := a.total_put room (a.present room ++ [id])
  rw [enter, if_neg fun e => h (has_iff.1 e)]
  rw [List.length_append, List.length_singleton] at hput
  omega

theorem total_leave (a : Attendance) (room : RoomCode) (id : ConnId) :
    (a.leave room id).total + (if a.has room id then 1 else 0) = a.total := by
  unfold leave
  split
  · rename_i h
    have hput := a.total_put room ((a.present room).erase id)
    have hpos := List.length_pos_of_mem (has_iff.1 h)
    rw [List.length_erase_of_mem (has_iff.1 h)] at hput
    omega
  · rfl

theorem total_withdraw (a : Attendance) (room : RoomCode) (ids : List ConnId) :
    (a.withdraw room ids).2.total + (a.withdraw room ids).1.length = a.total := by
  induction ids generalizing a with
  | nil => rfl
  | cons id ids ih =>
    rw [withdraw_cons]
    split
    · rename_i h
      have hleave := a.total_leave room id
      have hrest := ih (a.leave room id)
      rw [if_pos h] at hleave
      simp only [List.length_cons]
      omega
    · exact ih a

end Attendance

namespace Floor

def registered (f : Floor σ) : Nat := f.lobby.total + f.table.total

variable {f g : Floor σ}

theorem registered_congr (h : ∀ side, g.attendance side = f.attendance side) :
    g.registered = f.registered := by
  have hlobby : g.lobby = f.lobby := h .lobby
  have htable : g.table = f.table := h .table
  rw [registered, hlobby, htable, registered]

theorem registered_setAttendance (f : Floor σ) (side : Side) (a : Attendance) :
    (f.setAttendance side a).registered + (f.attendance side).total = f.registered + a.total := by
  cases side <;> simp only [registered, setAttendance, attendance] <;> omega

end Floor

/-! ### What the removals report -/

open Floor

/-- A script that reports as many removals as there have been. -/
def Script.Reports (s : Script σ Nat) (f : Floor σ) : Prop :=
  (s.run f).2.registered + (s.run f).1 = f.registered

namespace Script.Reports

variable {f : Floor σ} {s t : Script σ Nat}

theorem none (h : ∀ side, (s.run f).2.attendance side = f.attendance side) (h0 : (s.run f).1 = 0) :
    s.Reports f := by
  rw [Reports, h0, registered_congr h, Nat.add_zero]

theorem add (hs : s.Reports f) (ht : t.Reports (s.run f).2) :
    (do let m ← s; let n ← t; return m + n : Script σ Nat).Reports f := by
  simp only [Reports, run_monad_bind, run_pure] at hs ht ⊢
  omega

end Script.Reports

namespace Delivery

variable (side : Side) (room : RoomCode) {f : Floor σ}

theorem reports_takeOff (ids : Floor σ → List ConnId) (f : Floor σ) :
    (takeOff side room ids).Reports f := by
  have hput := registered_setAttendance f side ((f.attendance side).withdraw room (ids f)).2
  have htotal := (f.attendance side).total_withdraw room (ids f)
  have hclose : ∀ g : Floor σ, ∀ l : List ConnId,
      ((closeEach l).run g).2.registered = g.registered := fun g l =>
    registered_congr fun on => attendance_closeEach on l g
  rw [Reports, takeOff, run_monad_bind, run_update, run_monad_bind, run_pure, hclose]
  simp only [withdraw]
  omega

theorem reports_prune (failed : List ConnId) (f : Floor σ) :
    (prune side room failed).Reports f := by
  have h : (remove side room failed).Reports f := reports_takeOff side room (fun _ => failed) f
  rw [Reports] at h
  rw [Reports, prune, run_monad_bind, ← h]
  split
  · rw [run_monad_bind, run_change, run_pure]
    rw [registered_congr fun on => attendance_count ..]
  · rfl

def sendPruned (targets : List ConnId) (p : Payload) : Script σ Nat := do
  let failed ← writeEach p targets
  prune side room failed

theorem snd_sendPruned (targets : List ConnId) (p : Payload) (f : Floor σ) :
    ((sendPruned side room targets p).run f).2 = ((send side room targets p).run f).2 := by
  rw [sendPruned, run_monad_bind, run_send]

theorem reports_sendPruned (targets : List ConnId) (p : Payload) (f : Floor σ) :
    (sendPruned side room targets p).Reports f := by
  have h := reports_prune side room ((writeEach p targets).run f).1 ((writeEach p targets).run f).2
  rw [Reports, registered_congr fun on => attendance_writeEach on p targets f] at h
  rwa [Reports, sendPruned, run_monad_bind]

def broadcastPruned (p : Payload) : Script σ Nat := do
  let targets ← Script.look fun f => (f.attendance side).present room
  sendPruned side room targets p

theorem snd_broadcastPruned (p : Payload) (f : Floor σ) :
    ((broadcastPruned side room p).run f).2 = ((broadcast side room p).run f).2 :=
  snd_sendPruned side room _ p f

theorem reports_broadcastPruned (p : Payload) (f : Floor σ) :
    (broadcastPruned side room p).Reports f :=
  reports_sendPruned side room ((f.attendance side).present room) p f

def unregisterCounted (id : ConnId) : Script σ Nat := do
  let user ← unregister side room id
  return if user.isSome then 1 else 0

theorem snd_unregisterCounted (id : ConnId) (f : Floor σ) :
    ((unregisterCounted side room id).run f).2 = ((unregister side room id).run f).2 := by
  rw [unregisterCounted, run_monad_bind, run_pure]

/-- Whoever attends with an open connection is reported by its user. -/
theorem reports_unregisterCounted (hf : f.Placed) (id : ConnId) :
    (unregisterCounted side room id).Reports f := by
  have hput := registered_setAttendance f side ((f.attendance side).leave room id)
  have htotal := (f.attendance side).total_leave room id
  have huser : (f.attendance side).has room id = true → (f.user? id).isSome = true := by
    intro h
    have ho := hf.opened ⟨side, room, Attendance.has_iff.1 h⟩
    rw [user?, Option.isSome_map]
    by_contra hnone
    rw [isClosed, Option.not_isSome_iff_eq_none.1 hnone] at ho
    cases ho
  rw [Reports, unregisterCounted, run_monad_bind, unregister, run_update, run_pure]
  by_cases h : (f.attendance side).has room id = true
  · rw [if_pos h] at htotal
    simp only [h, huser h, if_true]
    omega
  · rw [if_neg h] at htotal
    simp only [h, Bool.false_eq_true, if_false, Option.isSome_none]
    omega

end Delivery

/-- How many have been let in, and how many have been reported as removed. -/
structure Tally where
  entered : Nat
  removed : Nat

namespace Tally

instance : Zero Tally := ⟨0, 0⟩

instance : Add Tally := ⟨fun a b => ⟨a.entered + b.entered, a.removed + b.removed⟩⟩

theorem add_entered (a b : Tally) : (a + b).entered = a.entered + b.entered := rfl

theorem add_removed (a b : Tally) : (a + b).removed = a.removed + b.removed := rfl

end Tally

namespace Lobby

def tellHostPruned (code : RoomCode) (ids : List ConnId) (members : List Member) : Script σ Nat :=
  match readyHost? members with
  | none => pure 0
  | some host => do
    let hosts ← Script.look (openConnections ids host)
    Delivery.sendPruned .lobby code hosts (.frame (allReadyFrame code))

theorem snd_tellHostPruned (code : RoomCode) (ids : List ConnId) (members : List Member)
    (f : Floor σ) :
    ((tellHostPruned code ids members).run f).2 = ((tellHost code ids members).run f).2 := by
  unfold tellHostPruned tellHost
  cases readyHost? members with
  | none => rfl
  | some host => exact Delivery.snd_sendPruned .lobby code _ _ f

theorem reports_tellHostPruned (code : RoomCode) (ids : List ConnId) (members : List Member)
    (f : Floor σ) : (tellHostPruned code ids members).Reports f := by
  unfold tellHostPruned
  cases readyHost? members with
  | none => rfl
  | some host => exact Delivery.reports_sendPruned .lobby code _ _ f

variable [RoomStore σ]

def refreshPruned (code : RoomCode) : Script σ Nat := do
  let targets ← Script.look fun f => f.lobby.present code
  if targets.isEmpty then return 0
  match ← Script.look (readRoom code) with
  | .error _ => return 0
  | .ok (room, members) =>
    let shown ← Delivery.sendPruned .lobby code targets (.frame (statusFrame room code members))
    let told ← tellHostPruned code targets members
    return shown + told

theorem snd_refreshPruned (code : RoomCode) (f : Floor σ) :
    ((refreshPruned code).run f).2 = ((refresh code).run f).2 := by
  rw [refresh, run_discard, refreshPruned, showRoom, run_monad_bind, run_look, run_monad_bind,
    run_look]
  split
  · rfl
  · rw [run_monad_bind, run_look, run_monad_bind, run_look]
    cases readRoom code f with
    | error e => rfl
    | ok answer =>
      simp only [run_monad_bind, run_pure, snd_tellHostPruned, Delivery.snd_sendPruned]

theorem reports_refreshPruned (code : RoomCode) (f : Floor σ) :
    (refreshPruned code).Reports f := by
  unfold refreshPruned Reports
  rw [run_monad_bind, run_look]
  split
  · rfl
  · rw [run_monad_bind, run_look]
    cases readRoom code f with
    | error e => rfl
    | ok answer =>
      exact (Delivery.reports_sendPruned .lobby code _ _ f).add (reports_tellHostPruned code _ _ _)

theorem registered_setReady (code : RoomCode) (user : UserId) (ready : Bool) (f : Floor σ) :
    (setReady code user ready f).2.registered = f.registered := by
  obtain ⟨s, e⟩ := setReady_eq code user ready f
  rw [e]
  rfl

def leaveCounted (code : RoomCode) (id : ConnId) : Script σ Nat := do
  let user ← Script.look (·.user? id)
  match user with
  | some user => discard (Script.update (setReady code user false))
  | none => pure ()
  let out ← Delivery.unregisterCounted .lobby code id
  let pruned ← refreshPruned code
  return out + pruned

theorem snd_leaveCounted (code : RoomCode) (id : ConnId) (f : Floor σ) :
    ((leaveCounted code id).run f).2 = ((leave code id).run f).2 := by
  rw [leaveCounted, leave, run_monad_bind, run_look, run_monad_bind, run_look]
  cases f.user? id <;>
    simp only [run_monad_bind, run_discard, run_pure, snd_refreshPruned,
      Delivery.snd_unregisterCounted]

theorem reports_leaveCounted {f : Floor σ} (hf : f.Placed) (code : RoomCode) (id : ConnId) :
    (leaveCounted code id).Reports f := by
  have hout : ∀ g : Floor σ, g.Placed → (do
      let out ← Delivery.unregisterCounted .lobby code id
      let pruned ← refreshPruned code
      return out + pruned : Script σ Nat).Reports g := fun g hg =>
    (Delivery.reports_unregisterCounted .lobby code hg id).add (reports_refreshPruned code _)
  unfold leaveCounted Reports
  rw [run_monad_bind, run_look]
  cases f.user? id with
  | none => exact hout f hf
  | some user =>
    have h := hout _ (stays_setReady code user false f hf).1
    rw [Reports, registered_setReady] at h
    simp only
    rwa [run_monad_bind, run_discard, run_update]

def receivePruned (code : RoomCode) (user : UserId) (raw : String) : Script σ Nat :=
  match ReadyUpdate.parse raw with
  | .error _ => pure 0
  | .ok update => do
    match ← Script.update (setReady code user update.isReady) with
    | .error _ => return 0
    | .ok _ => refreshPruned code

theorem snd_receivePruned (code : RoomCode) (user : UserId) (raw : String) (f : Floor σ) :
    ((receivePruned code user raw).run f).2 = ((receive code user raw).run f).2 := by
  unfold receivePruned receive
  cases ReadyUpdate.parse raw with
  | error reason => rfl
  | ok update =>
    simp only
    rw [run_monad_bind, run_update, run_monad_bind, run_update]
    cases (setReady code user update.isReady f).1 with
    | error e => rfl
    | ok _ =>
      simp only
      rw [run_monad_bind, run_pure, snd_refreshPruned]

theorem reports_receivePruned (code : RoomCode) (user : UserId) (raw : String) (f : Floor σ) :
    (receivePruned code user raw).Reports f := by
  unfold receivePruned
  cases ReadyUpdate.parse raw with
  | error reason => rfl
  | ok update =>
    simp only [Reports]
    rw [run_monad_bind, run_update, ← registered_setReady code user update.isReady f]
    cases (setReady code user update.isReady f).1 with
    | error e => rfl
    | ok _ => exact reports_refreshPruned code _

end Lobby

namespace Tableside

def receivePruned (code : RoomCode) (user : UserId) (raw : String) : Script σ Nat :=
  match BetCommand.parse raw with
  | .error _ => pure 0
  | .ok c => do
    let (_, bets) ← Script.update (placeBet code user c)
    match bets with
    | some bets => Delivery.broadcastPruned .table code (.frame bets)
    | none => pure 0

theorem snd_receivePruned (code : RoomCode) (user : UserId) (raw : String) (f : Floor σ) :
    ((receivePruned code user raw).run f).2 = ((receive code user raw).run f).2 := by
  unfold receivePruned receive
  cases BetCommand.parse raw with
  | error reason => rfl
  | ok c =>
    simp only
    rw [run_monad_bind, run_update, run_monad_bind, run_update]
    obtain ⟨reason, e⟩ | ⟨t, -, e⟩ := placeBet_cases code user c f
    · rw [e]
      rfl
    · rw [e]
      simp only
      rw [run_monad_bind, run_discard, run_pure, Delivery.snd_broadcastPruned]
      rfl

theorem reports_receivePruned (code : RoomCode) (user : UserId) (raw : String) (f : Floor σ) :
    (receivePruned code user raw).Reports f := by
  unfold receivePruned
  cases BetCommand.parse raw with
  | error reason => rfl
  | ok c =>
    simp only [Reports]
    rw [run_monad_bind, run_update]
    obtain ⟨reason, e⟩ | ⟨t, -, e⟩ := placeBet_cases code user c f
    · rw [e]
      rfl
    · rw [e]
      exact Delivery.reports_broadcastPruned .table code _ (f.setTable _)

def closeRoomCounted (code : RoomCode) : Script σ Nat := do
  let dropped ← Delivery.dropRoom .table code
  Script.change (·.removeTable code)
  return dropped

theorem snd_closeRoomCounted (code : RoomCode) (f : Floor σ) :
    ((closeRoomCounted code).run f).2 = ((closeRoom code).run f).2 := by
  rw [closeRoomCounted, closeRoom, run_monad_bind, run_monad_bind, run_monad_bind, run_discard]
  rfl

theorem reports_closeRoomCounted (code : RoomCode) (f : Floor σ) :
    (closeRoomCounted code).Reports f := by
  have h : (Delivery.dropRoom .table code).Reports f :=
    Delivery.reports_takeOff .table code (fun f => f.table.present code) f
  rw [Reports, closeRoomCounted, run_monad_bind, run_monad_bind, run_change, run_pure]
  exact h

def greetCounted (code : RoomCode) (id : ConnId) (order bets : Frame) : Script σ Nat := do
  match ← Script.writeTo id (.frame order) with
  | .error _ =>
    let out ← Delivery.unregisterCounted .table code id
    Script.closeOne id
    return out
  | .ok _ => Delivery.broadcastPruned .table code (.frame bets)

theorem snd_greetCounted (code : RoomCode) (id : ConnId) (order bets : Frame) (f : Floor σ) :
    ((greetCounted code id order bets).run f).2 = ((greet code id order bets).run f).2 := by
  rw [greetCounted, greet, run_monad_bind, run_writeTo, run_monad_bind, run_writeTo]
  cases (f.write id (.frame order)).1 with
  | error e =>
    simp only [run_monad_bind, run_discard, run_pure, Delivery.snd_unregisterCounted]
  | ok _ =>
    simp only [run_monad_bind, run_discard, run_pure, Delivery.snd_broadcastPruned]
    rfl

theorem reports_greetCounted {f : Floor σ} (hf : f.Placed) {code : RoomCode} {id : ConnId}
    (hid : id ∈ f.table.present code) (order bets : Frame) :
    (greetCounted code id order bets).Reports f := by
  have hsame : (f.write id (.frame order)).2.registered = f.registered :=
    registered_congr fun side => attendance_write f id _ side
  have hwrite : Stays none f (f.write id (.frame order)).2 :=
    Stays.write (.inl ⟨.table, code, hid⟩)
  have hg := (hwrite hf).1
  rw [Reports, greetCounted, run_monad_bind, run_writeTo, ← hsame]
  cases (f.write id (.frame order)).1 with
  | error e =>
    have h := Delivery.reports_unregisterCounted .table code hg id
    rw [Reports] at h
    simp only [run_monad_bind, run_closeOne, run_pure]
    rw [← h, registered_congr fun side => attendance_close _ id side]
  | ok _ => exact Delivery.reports_broadcastPruned .table code _ _

end Tableside

/-! ### The tally of an act -/

def Script.leaving (s : Script σ Nat) : Script σ Tally := do
  let n ← s
  return ⟨0, n⟩

theorem snd_leaving (s : Script σ Nat) (f : Floor σ) : (s.leaving.run f).2 = (s.run f).2 := by
  rw [Script.leaving, run_monad_bind, run_pure]

/-- Whoever is let in comes to those who attend, and whoever is reported as removed goes. -/
def Script.Balances (s : Script σ Tally) (f : Floor σ) : Prop :=
  (s.run f).2.registered + (s.run f).1.removed = f.registered + (s.run f).1.entered

theorem Script.Reports.leaving {s : Script σ Nat} {f : Floor σ} (h : s.Reports f) :
    s.leaving.Balances f := by
  rw [Script.Balances, Script.leaving, run_monad_bind, run_pure]
  exact h

theorem registered_enter {f : Floor σ} (side : Side) (code : RoomCode) {id : ConnId}
    (hx : ¬ f.attends id) :
    (Delivery.enter side code id f).registered = f.registered + 1 := by
  have hput := registered_setAttendance f side ((f.attendance side).enter code id)
  rw [Attendance.total_enter fun h => hx ⟨side, code, h⟩] at hput
  rw [Delivery.enter]
  omega

variable [RoomStore σ]

def LobbyAct.tallied : LobbyAct → Script σ Tally
  | enters code id => do
    Script.change (Delivery.enter .lobby code id)
    let pruned ← Lobby.refreshPruned code
    return ⟨1, pruned⟩
  | leaves code id => .leaving (Lobby.leaveCounted code id)
  | receives code user raw => .leaving (Lobby.receivePruned code user raw)
  | roomChanged code => .leaving (Lobby.refreshPruned code)
  | gameStarted code game =>
    .leaving (Delivery.broadcastPruned .lobby code (.frame (Lobby.startFrame code game)))
  | userLeft code user => .leaving do
    let closed ← Lobby.closeUser code user
    let pruned ← Lobby.refreshPruned code
    return closed + pruned

def TableAct.tallied : TableAct → Script σ Tally
  | joins code id => do
    match ← Script.look fun f => RoomStore.members f.store code with
    | .error _ => return 0
    | .ok [] => return 0
    | .ok members =>
      let (order, bets) ← Script.update (Tableside.seatMembers code members)
      Script.change (Delivery.enter .table code id)
      let removed ← Tableside.greetCounted code id order bets
      return ⟨1, removed⟩
  | receives code user raw => .leaving (Tableside.receivePruned code user raw)
  | leaves code id => .leaving (Delivery.unregisterCounted .table code id)
  | closes code => .leaving (Tableside.closeRoomCounted code)

def Act.tallied : Act σ → Script σ Tally
  | client a => .leaving do
    a.script
    return 0
  | edits edit => .leaving do
    Script.change fun f => { f with store := edit f.store }
    return 0
  | lobby a => a.tallied
  | table a => a.tallied
  | roomClosed code => .leaving do
    let closed ← Lobby.closeRoom code
    let dropped ← Tableside.closeRoomCounted code
    return closed + dropped

theorem LobbyAct.snd_tallied (a : LobbyAct) (f : Floor σ) :
    (a.tallied.run f).2 = (a.script.run f).2 := by
  cases a with
  | enters code id =>
    rw [tallied, script, Lobby.enter, run_monad_bind, run_monad_bind, run_monad_bind, run_change,
      run_pure, Lobby.snd_refreshPruned]
  | leaves code id => rw [tallied, snd_leaving, Lobby.snd_leaveCounted, script]
  | receives code user raw =>
    rw [tallied, snd_leaving, Lobby.snd_receivePruned, script, run_discard]
  | roomChanged code => rw [tallied, snd_leaving, Lobby.snd_refreshPruned, script, Door.roomChanged]
  | gameStarted code game =>
    rw [tallied, snd_leaving, Delivery.snd_broadcastPruned, script, Door.gameStarted, run_discard,
      Lobby.announceGame]
  | userLeft code user =>
    rw [tallied, snd_leaving, run_monad_bind, run_monad_bind, run_pure, Lobby.snd_refreshPruned,
      script, Door.userLeft, run_monad_bind, run_discard]

theorem TableAct.snd_tallied (a : TableAct) (f : Floor σ) :
    (a.tallied.run f).2 = (a.script.run f).2 := by
  cases a with
  | joins code id =>
    rw [tallied, script, run_discard, Tableside.join, run_monad_bind, run_look, run_monad_bind,
      run_look]
    cases RoomStore.members f.store code with
    | error e => rfl
    | ok members =>
      cases members with
      | nil => rfl
      | cons m ms =>
        simp only [Tableside.letIn_eq, run_monad_bind, run_update, run_change, run_pure,
          Tableside.snd_greetCounted]
  | receives code user raw =>
    rw [tallied, snd_leaving, Tableside.snd_receivePruned, script, run_discard]
  | leaves code id =>
    rw [tallied, snd_leaving, Delivery.snd_unregisterCounted, script, Tableside.leave, run_discard]
  | closes code => rw [tallied, snd_leaving, Tableside.snd_closeRoomCounted, script]

theorem Act.snd_tallied (a : Act σ) (f : Floor σ) : (a.tallied.run f).2 = f.perform a := by
  cases a with
  | client a => rw [tallied, snd_leaving, run_monad_bind, run_pure, Floor.perform, script]
  | edits change => rfl
  | lobby a => exact a.snd_tallied f
  | table a => exact a.snd_tallied f
  | roomClosed code =>
    rw [tallied, snd_leaving, run_monad_bind, run_monad_bind, run_pure,
      Tableside.snd_closeRoomCounted, Floor.perform, script, Door.roomClosed, run_monad_bind,
      run_discard]

theorem LobbyAct.balances {a : LobbyAct} {f : Floor σ} (h : Fit f (.lobby a)) :
    a.tallied.Balances f := by
  have hf := h.placed
  cases a with
  | enters code id =>
    obtain ⟨hx, -⟩ := h.handed id rfl
    have hrest := Lobby.reports_refreshPruned code (Delivery.enter .lobby code id f)
    rw [Reports, registered_enter .lobby code hx] at hrest
    rw [Balances, tallied, run_monad_bind, run_change, run_monad_bind, run_pure]
    exact hrest
  | leaves code id => exact (Lobby.reports_leaveCounted hf code id).leaving
  | receives code user raw => exact (Lobby.reports_receivePruned code user raw f).leaving
  | roomChanged code => exact (Lobby.reports_refreshPruned code f).leaving
  | gameStarted code game => exact (Delivery.reports_broadcastPruned .lobby code _ f).leaving
  | userLeft code user =>
    have hclose : (Lobby.closeUser code user).Reports f :=
      Delivery.reports_takeOff .lobby code (Delivery.connectionsOf .lobby code user) f
    exact (hclose.add (Lobby.reports_refreshPruned code _)).leaving

theorem TableAct.balances {a : TableAct} {f : Floor σ} (h : Fit f (.table a)) :
    a.tallied.Balances f := by
  have hf := h.placed
  cases a with
  | joins code id =>
    obtain ⟨hx, ho⟩ := h.handed id rfl
    rw [Balances, tallied, run_monad_bind, run_look]
    split
    · rfl
    · rfl
    · rename_i members _ _
      obtain ⟨tables, entropy, e⟩ := Tableside.seatMembers_eq code members f
      obtain ⟨hseat, hx, henter, -⟩ := along_admitted hf hx ho code members
        (Tableside.seatMembers code members f).1.1 (Tableside.seatMembers code members f).1.2
      have hplaced := (henter (hseat hf).1).1
      have hid : id ∈ (Delivery.enter .table code id
          (Tableside.seatMembers code members f).2).table.present code :=
        Attendance.mem_present_enter.2 (.inr ⟨rfl, rfl⟩)
      have hgreet := Tableside.reports_greetCounted hplaced hid
        (Tableside.seatMembers code members f).1.1 (Tableside.seatMembers code members f).1.2
      have hsame : (Tableside.seatMembers code members f).2.registered = f.registered := by
        rw [e]
        rfl
      rw [Reports, registered_enter .table code hx, hsame] at hgreet
      rw [run_monad_bind, run_update, run_monad_bind, run_change, run_monad_bind, run_pure]
      exact hgreet
  | receives code user raw => exact (Tableside.reports_receivePruned code user raw f).leaving
  | leaves code id => exact (Delivery.reports_unregisterCounted .table code hf id).leaving
  | closes code => exact (Tableside.reports_closeRoomCounted code f).leaving

theorem Floor.Fit.balances {a : Act σ} {f : Floor σ} (h : Fit f a) : a.tallied.Balances f := by
  cases a with
  | client a =>
    refine Reports.leaving (Reports.none (fun side => ?_) (by rw [run_monad_bind, run_pure]))
    rw [run_monad_bind, run_pure]
    exact (a.within (ClientAct.same_attendance side)).run (Same.steps _) f
  | edits change => exact Reports.leaving (Reports.none (fun side => by cases side <;> rfl) rfl)
  | lobby a => exact LobbyAct.balances h
  | table a => exact TableAct.balances h
  | roomClosed code =>
    have hclose : (Lobby.closeRoom code).Reports f :=
      Delivery.reports_takeOff .lobby code (fun f => f.lobby.present code) f
    exact (hclose.add (Tableside.reports_closeRoomCounted code _)).leaving

/-! ### The tally of a run -/

namespace Floor

def tally (f : Floor σ) : List (Act σ) → Tally
  | [] => 0
  | a :: acts => (a.tallied.run f).1 + (f.perform a).tally acts

theorem Fits.balances {acts : List (Act σ)} {f : Floor σ} (h : f.Fits acts) :
    (f.after acts).registered + (f.tally acts).removed =
      f.registered + (f.tally acts).entered := by
  -- the balance of the first act and that of the others, added up
  induction acts generalizing f with
  | nil => rfl
  | cons a acts ih =>
    have hfirst := h.1.balances
    have hrest := ih h.2
    rw [Balances, a.snd_tallied] at hfirst
    rw [after_cons, tally, Tally.add_removed, Tally.add_entered]
    omega

/-- In a careful run, whoever attends is open, and no sink is asked for anything after it has been
asked to close. Whoever has ceased to attend stays outside and receives no frame of a room any more.
Those who were let in are those who still attend and those who are reported as removed. -/
theorem lifecycle (config : Config) (secret : String) (store : σ) (entropy : Random.Source)
    {acts : List (Act σ)} (hc : Act.Careful acts) :
    let start := new config secret store entropy
    (∀ g ∈ start.moments acts, g.Sealed ∧ ∀ x, g.attends x → g.isClosed x = false) ∧
    (∀ x f g k, [f, g, k].Sublist (start.moments acts) → f.attends x → ¬ g.attends x →
      ¬ k.attends x ∧ k.roomFrames x = g.roomFrames x) ∧
    (start.tally acts).entered = (start.after acts).registered + (start.tally acts).removed := by
  intro start
  have hnew : start.Accounted [] := accounted_new config secret store entropy
  have hfits : start.Fits acts := fits_of_careful config secret store entropy hc
  refine ⟨fun g hg => ⟨?_, fun x => ?_⟩, fun x f g k hs hf hg => ?_, ?_⟩
  · exact sealed_moments config secret store entropy acts g hg
  · exact (hfits.placed_moments hnew.placed g hg).opened
  · exact (hfits.passing_moments (hnew.known.not_attends nofun) hc.once).left hs hf hg
  · have hbalance := hfits.balances
    rw [show start.registered = 0 from rfl, Nat.zero_add] at hbalance
    exact hbalance.symm

def salonGathering : List (Act Rooms) :=
  [.client (.opens 0 1 (.steady (.takes 0))), .client (.opens 1 2 (.steady (.takes 0))),
    .client (.opens 2 3 (.steady (.takes 0))), .lobby (.enters salonRoom 0),
    .lobby (.enters salonRoom 1), .table (.joins salonRoom 2)]

/-- Bo goes deaf and cannot be shown that Ann is ready. -/
def salonLoss : List (Act Rooms) :=
  [.client (.turns 1 (.steady (.refuses "boom"))),
    .lobby (.receives salonRoom 1 readily)]

def salonFarewell : List (Act Rooms) := [.lobby (.leaves salonRoom 0), .client (.closes 0)]

theorem lifecycle_salon :
    let acts := salonGathering ++ salonLoss ++ salonFarewell
    let arrived := salon.after salonGathering
    let lost := salon.after (salonGathering ++ salonLoss)
    let last := salon.after acts
    Act.Careful acts ∧ arrived.attends 1 ∧ ¬ lost.attends 1 ∧
    last.Sealed ∧ last.attends 2 ∧ last.isClosed 2 = false ∧
    ¬ last.attends 1 ∧ last.roomFrames 1 = lost.roomFrames 1 ∧
    (salon.tally acts).entered = 3 ∧ last.registered = 1 ∧ (salon.tally acts).removed = 2 := by
  intro acts arrived lost last
  have hopened : Act.Careful (salonGathering.take 3) :=
    Act.careful_nil.append_plain (by simp [Act.handed?, Act.hands?])
  have harrived : Act.Careful salonGathering := by
    have hann := hopened.hand .lobby salonRoom 0 ⟨1, .steady (.takes 0), by simp [salonGathering]⟩
      (by decide)
    have hbo := hann.hand .lobby salonRoom 1 ⟨2, .steady (.takes 0), by simp [salonGathering]⟩
      (by decide)
    exact hbo.hand .table salonRoom 2 ⟨3, .steady (.takes 0), by simp [salonGathering]⟩ (by decide)
  have hcareful : Act.Careful acts := by
    have hleaves : Act.Careful (salonGathering ++ salonLoss ++ salonFarewell.take 1) := by
      rw [List.append_assoc]
      refine harrived.append_plain ?_
      simp [salonLoss, salonFarewell, Act.handed?, Act.hands?, LobbyAct.hands?]
    refine hleaves.snoc (fun id e => absurd e (Option.some_ne_none id).symm) fun id e => ?_
    cases e
    have henters : [Act.lobby (.enters salonRoom 0)].Sublist (salonGathering ++ salonLoss) :=
      List.singleton_sublist.2 (List.mem_append_left _ (by simp [salonGathering]))
    exact ⟨.lobby, salonRoom, henters.append (.refl [Act.lobby (.leaves salonRoom 0)])⟩
  have hentered : (salon.tally acts).entered = 3 := by decide +kernel
  have hregistered : last.registered = 1 := by decide +kernel
  have hlobby : arrived.lobby.present salonRoom = [0, 1] ∧ lost.lobby.present salonRoom = [0] ∧
      last.lobby.present salonRoom = [] := by decide +kernel
  have htable : last.table.present salonRoom = [2] := by decide +kernel
  have hdeaf : lost.isClosed 1 = true := by decide +kernel
  have hlost : lost = arrived.after salonLoss := after_append _ _ _
  have hlast : last = lost.after salonFarewell := after_append _ _ _
  have hcycle := lifecycle {} "" salon.store (.ofSeed 0) hcareful
  rw [new_salon] at hcycle
  obtain ⟨hmoments, hleft, hledger⟩ := hcycle
  have hpasses : salon.moments acts =
      salon.moments salonGathering ++ arrived.passes salonLoss ++ lost.passes salonFarewell := by
    rw [moments, passes_append, passes_append, ← List.cons_append, ← List.cons_append]
    rfl
  obtain ⟨hwas, his, hwill⟩ := hlobby
  have hmem : arrived ∈ salon.moments salonGathering := after_mem_moments ..
  have hmem' : lost ∈ arrived.passes salonLoss := by
    refine (List.mem_cons.1 (hlost ▸ after_mem_moments arrived salonLoss)).resolve_left fun e => ?_
    rw [e, hwas] at his
    cases his
  have hmem'' : last ∈ lost.passes salonFarewell := by
    refine (List.mem_cons.1 (hlast ▸ after_mem_moments lost salonFarewell)).resolve_left fun e => ?_
    rw [e, his] at hwill
    cases hwill
  have hsub : [arrived, lost, last].Sublist (salon.moments acts) := by
    rw [hpasses]
    exact ((List.singleton_sublist.2 hmem).append (List.singleton_sublist.2 hmem')).append
      (List.singleton_sublist.2 hmem'')
  have hattends : arrived.attends 1 := ⟨.lobby, salonRoom, by rw [attendance, hwas]; decide⟩
  have hgone : ¬ lost.attends 1 := fun h => by
    have hopen := (hmoments lost (hsub.subset (by simp))).2 1 h
    rw [hdeaf] at hopen
    cases hopen
  obtain ⟨hsealed, hopen⟩ := hmoments last (hsub.subset (by simp))
  have hcy : last.attends 2 := ⟨.table, salonRoom, by rw [attendance, htable]; decide⟩
  obtain ⟨hnever, hquiet⟩ := hleft 1 _ _ _ hsub hattends hgone
  rw [hentered, show (salon.after acts).registered = 1 from hregistered] at hledger
  exact ⟨hcareful, hattends, hgone, hsealed, hcy, hopen 2 hcy, hnever, hquiet, hentered, hregistered,
    (Nat.add_left_cancel hledger).symm⟩

end Floor

end Cardroom
