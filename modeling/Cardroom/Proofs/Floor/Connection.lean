import Cardroom.Floor.Basic

namespace Cardroom

namespace Connection

def works (c : Connection) : Bool := !c.closed && (c.sink.react.1.result c.timeout).isOk

def lastFrame? (kind : Frame → Bool) (c : Connection) : Option Frame :=
  (c.frames.filter kind).getLast?

@[simp] theorem lastFrame?_fresh (kind : Frame → Bool) (user : UserId) (sink : Sink) (n : Nat) :
    (fresh user sink n).lastFrame? kind = none := rfl

theorem received_eq (c : Connection) :
    c.received = ((c.attempts.filter Attempt.isDelivered).map Attempt.payload).reverse := by
  simp [received, receivedSince]

theorem isOk_write (c : Connection) (p : Payload) : (c.write p).1.isOk = c.works := by
  simp only [write, works]
  cases c.closed <;> rfl

theorem received_attempt (c : Connection) (p : Payload) :
    (c.attempt p).2.received =
      if (c.sink.react.1.result c.timeout).isOk then c.received ++ [p] else c.received := by
  simp only [received_eq, attempt, react, record, List.filter_cons, Attempt.isDelivered]
  cases c.sink.react.1.result c.timeout with
  | error e => rfl
  | ok _ => simp [Except.isOk, Except.toBool]

theorem frames_attempt (c : Connection) (p : Payload) :
    (c.attempt p).2.frames =
      if (c.sink.react.1.result c.timeout).isOk then c.frames ++ p.frame?.toList else c.frames := by
  rw [frames, received_attempt]
  split
  · rw [List.filterMap_append, frames]
    cases hp : p.frame? <;> simp [hp]
  · rfl

theorem frames_write (c : Connection) (p : Payload) :
    (c.write p).2.frames = if c.works then c.frames ++ p.frame?.toList else c.frames := by
  by_cases hc : c.closed = true
  · simp [write, works, hc]
  · simp only [write, works, hc, Bool.not_false, Bool.true_and]
    exact frames_attempt c p

theorem lastFrame?_write_of_works {c : Connection} (h : c.works = true) {kind : Frame → Bool}
    {F : Frame} (hF : kind F = true) : (c.write (.frame F)).2.lastFrame? kind = some F := by
  simp [lastFrame?, frames_write, h, Payload.frame?, hF]

theorem lastFrame?_write_of_other (c : Connection) {kind : Frame → Bool} {p : Payload}
    (hp : ∀ F, p.frame? = some F → kind F = false) :
    (c.write p).2.lastFrame? kind = c.lastFrame? kind := by
  simp only [lastFrame?, frames_write]
  split
  · cases hf : p.frame? with
    | none => simp
    | some F => simp [hp F hf]
  · rfl

@[simp] theorem lastFrame?_close (c : Connection) (kind : Frame → Bool) :
    c.close.lastFrame? kind = c.lastFrame? kind := by
  simp only [close]
  split
  · rfl
  · simp only [lastFrame?, frames_attempt]
    split
    · simp [Payload.frame?, markClosed, frames, received_eq]
    · rfl

end Connection

namespace Floor

variable {σ : Type}

def works (f : Floor σ) (id : ConnId) : Bool := (f.connection? id).any Connection.works

def lastFrame? (kind : Frame → Bool) (f : Floor σ) (id : ConnId) : Option Frame :=
  (f.connection? id).bind (Connection.lastFrame? kind)

theorem connection?_modifyConnection (f : Floor σ) (id x : ConnId) (g : Connection → Connection) :
    (f.modifyConnection id g).connection? x =
      if x = id then (f.connection? x).map g else f.connection? x :=
  KeyMap.get?_modify f.connections id x g

theorem connection?_setConnection (f : Floor σ) (id x : ConnId) (c : Connection) :
    (f.setConnection id c).connection? x = if x = id then some c else f.connection? x :=
  KeyMap.get?_insert f.connections id x c

theorem write_of_none {f : Floor σ} {id : ConnId} (h : f.connection? id = none) (p : Payload) :
    f.write id p = (.error .closed, f) := by
  simp only [write, h]

theorem write_of_some {f : Floor σ} {id : ConnId} {c : Connection} (h : f.connection? id = some c)
    (p : Payload) : f.write id p = ((c.write p).1, f.setConnection id (c.write p).2) := by
  simp only [write, h]

theorem write_eq (f : Floor σ) (id : ConnId) (p : Payload) :
    ∃ c, (f.write id p).2 = { f with connections := c } := by
  unfold write
  split
  · exact ⟨f.connections, rfl⟩
  · exact ⟨_, rfl⟩

theorem connection?_write (f : Floor σ) (id x : ConnId) (p : Payload) :
    (f.write id p).2.connection? x =
      if x = id then (f.connection? x).map (fun c => (c.write p).2) else f.connection? x := by
  cases h : f.connection? id with
  | none =>
    rw [write_of_none h]
    by_cases hx : x = id
    · subst hx
      simp [h]
    · rw [if_neg hx]
  | some c =>
    rw [write_of_some h, connection?_setConnection]
    by_cases hx : x = id
    · subst hx
      simp [h]
    · rw [if_neg hx, if_neg hx]

theorem isOk_write (f : Floor σ) (id : ConnId) (p : Payload) :
    (f.write id p).1.isOk = f.works id := by
  unfold works
  cases h : f.connection? id with
  | none =>
    rw [write_of_none h]
    rfl
  | some c =>
    rw [write_of_some h]
    exact Connection.isOk_write c p

theorem fst_write_congr {f g : Floor σ} {id : ConnId} (h : g.connection? id = f.connection? id)
    (p : Payload) : (g.write id p).1 = (f.write id p).1 := by
  cases hc : f.connection? id with
  | none => rw [write_of_none hc, write_of_none (h.trans hc)]
  | some c => rw [write_of_some hc, write_of_some (h.trans hc)]

theorem works_write_of_ne {f : Floor σ} {id x : ConnId} (h : x ≠ id) (p : Payload) :
    (f.write id p).2.works x = f.works x := by
  simp only [works, connection?_write, if_neg h]

theorem connection?_close (f : Floor σ) (id x : ConnId) :
    (f.close id).connection? x =
      if x = id then (f.connection? x).map Connection.close else f.connection? x :=
  connection?_modifyConnection f id x Connection.close

@[simp] theorem lastFrame?_close (f : Floor σ) (id x : ConnId) (kind : Frame → Bool) :
    (f.close id).lastFrame? kind x = f.lastFrame? kind x := by
  simp only [lastFrame?, connection?_close]
  split
  · cases f.connection? x <;> simp
  · rfl

theorem lastFrame?_write_of_other (f : Floor σ) (id x : ConnId) {kind : Frame → Bool} {p : Payload}
    (hp : ∀ F, p.frame? = some F → kind F = false) :
    (f.write id p).2.lastFrame? kind x = f.lastFrame? kind x := by
  simp only [lastFrame?, connection?_write]
  split
  · cases f.connection? x with
    | none => rfl
    | some c => simp [Connection.lastFrame?_write_of_other c hp]
  · rfl

theorem lastFrame?_write_of_ne (f : Floor σ) {id x : ConnId} (h : x ≠ id) (kind : Frame → Bool)
    (p : Payload) : (f.write id p).2.lastFrame? kind x = f.lastFrame? kind x := by
  simp only [lastFrame?, connection?_write, if_neg h]

theorem lastFrame?_write_of_works {f : Floor σ} {id : ConnId} (h : f.works id = true)
    {kind : Frame → Bool} {F : Frame} (hF : kind F = true) :
    (f.write id (.frame F)).2.lastFrame? kind id = some F := by
  unfold works at h
  cases hc : f.connection? id with
  | none => simp [hc] at h
  | some c =>
    rw [hc] at h
    simp [lastFrame?, connection?_write, hc, Connection.lastFrame?_write_of_works h hF]

end Floor

end Cardroom
