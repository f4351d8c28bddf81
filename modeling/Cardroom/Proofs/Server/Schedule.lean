import Cardroom.Proofs.Server.Venue

namespace Cardroom

variable {α β : Type}

def Stage.map (g : α → β) : Stage Rooms α → Stage Rooms β
  | .finished a => .finished (g a)
  | .blocked ticket resume => .blocked ticket fun r => g <$> resume r

namespace Server

theorem drive_map (g : α → β) (script : Script Rooms α) (s : Server Rooms) :
    drive (g <$> script) s = ((drive script s).1.map g, (drive script s).2) := by
  induction script generalizing s with
  | done a => rfl
  | step change next ih => exact ih s.floor (s.onFloor change)
  | write id p next ih =>
    have hmap : g <$> Script.write id p next = .write id p fun r => g <$> next r := rfl
    rw [hmap, drive, drive]
    split
    · exact ih (.error .closed) s
    · rcases s.ask id p with ⟨result | ticket, u⟩
      · exact ih result u
      · rfl
  | close id next ih =>
    have hmap : g <$> Script.close id next = .close id (g <$> next) := rfl
    rw [hmap, drive, drive]
    split
    · exact ih s
    · rcases (s.onFloor (·.modifyConnection id .markClosed)).ask id .close with ⟨result | ticket, u⟩
      · exact ih u
      · rfl

theorem finishWithin_map (g : α → β) (n : Nat) (stage : Stage Rooms α) (s : Server Rooms) :
    s.finishWithin (stage.map g) n =
      ((s.finishWithin stage n).1.map g, (s.finishWithin stage n).2) := by
  induction n generalizing stage s with
  | zero => rfl
  | succ n ih =>
    cases stage with
    | finished a => rfl
    | blocked ticket resume =>
      rw [Stage.map, finishWithin, finishWithin]
      cases s.takeResult? ticket with
      | none => exact ih (.blocked ticket resume) s.tick
      | some r =>
        simp only [drive_map]
        exact ih _ _

theorem perform_map (g : α → β) (script : Script Rooms α) (s : Server Rooms) :
    s.perform (g <$> script) = ((s.perform script).1.map g, (s.perform script).2) := by
  rw [perform, drive_map]
  exact finishWithin_map g patience _ _

end Server

namespace Venue

def after (v : Venue) (steps : List Step) : Venue := steps.foldl step v

theorem after_append (v : Venue) (xs ys : List Step) :
    v.after (xs ++ ys) = (v.after xs).after ys :=
  List.foldl_append ..

end Venue

def Step.isIdle : Step → Bool
  | waits _ | works | goesOn => true
  | _ => false

/-- One venue becomes another while nothing new is begun. -/
def Venue.Leads (v w : Venue) : Prop := ∃ steps, (∀ x ∈ steps, x.isIdle = true) ∧ v.after steps = w

namespace Venue

variable {v w u : Venue} {s : Server Rooms} {es : List Errand}

theorem Leads.refl (v : Venue) : v.Leads v := ⟨[], by simp, rfl⟩

theorem Leads.trans (hvw : v.Leads w) (hwu : w.Leads u) : v.Leads u := by
  obtain ⟨xs, hxs, rfl⟩ := hvw
  obtain ⟨ys, hys, rfl⟩ := hwu
  exact ⟨xs ++ ys, List.forall_mem_append.2 ⟨hxs, hys⟩, after_append v xs ys⟩

theorem leads_step (x : Step) (hx : x.isIdle = true) (v : Venue) : v.Leads (v.step x) :=
  ⟨[x], by simpa using hx, rfl⟩

theorem leads_settleWithin (s : Server Rooms) (es : List Errand) (n : Nat) :
    Leads ⟨s, es⟩ ⟨s.settleWithin n, es⟩ := by
  induction n generalizing s with
  | zero => exact .refl _
  | succ n ih =>
    have hwork : Leads ⟨s, es⟩ ⟨s.pass.2, es⟩ := leads_step .works rfl ⟨s, es⟩
    rw [Server.settleWithin]
    rcases hpass : s.pass with ⟨_ | _, t⟩
    · rw [hpass] at hwork
      exact hwork
    · rw [hpass] at hwork
      exact hwork.trans (ih t)

theorem leads_settle (s : Server Rooms) (es : List Errand) : Leads ⟨s, es⟩ ⟨s.settle, es⟩ :=
  leads_settleWithin s es Server.passLimit

theorem leads_tick (s : Server Rooms) (es : List Errand) : Leads ⟨s, es⟩ ⟨s.tick, es⟩ := by
  have hwait : Leads ⟨s, es⟩ ⟨{ s with now := s.now + 1 }, es⟩ :=
    leads_step (.waits 1) rfl ⟨s, es⟩
  exact hwait.trans (leads_settle _ es)

theorem leads_advance (s : Server Rooms) (es : List Errand) (n : Nat) :
    Leads ⟨s, es⟩ ⟨s.advance n, es⟩ := by
  induction n generalizing s with
  | zero => exact .refl _
  | succ n ih => exact (leads_tick s es).trans (ih s.tick)

def Settled (es : List Errand) : Prop := ∀ e ∈ es, e.settled = true ∧ ∃ a, e.stage = .finished a

theorem goOnEach_append (hes : Settled es) (e : Errand) (s : Server Rooms) :
    goOnEach (es ++ [e]) s = (es ++ [(e.goOn s).1], (e.goOn s).2) := by
  induction es with
  | nil => rfl
  | cons x es ih =>
    obtain ⟨hsettled, a, ha⟩ := hes x List.mem_cons_self
    have hx : x.goOn s = (x, s) := by
      rw [Errand.goOn, ha]
      exact if_pos hsettled
    have hrest : Settled es := fun y hy => hes y (List.mem_cons_of_mem x hy)
    simp only [List.cons_append, goOnEach, hx, ih hrest]

theorem leads_goOn (hes : Settled es) (e : Errand) (s : Server Rooms) :
    Leads ⟨s, es ++ [e]⟩ ⟨(e.goOn s).2, es ++ [(e.goOn s).1]⟩ := by
  have hstep := leads_step .goesOn rfl ⟨s, es ++ [e]⟩
  rw [Venue.step, goOnEach_append hes] at hstep
  exact hstep

/-- Waiting for the end of the last errand is a run. -/
theorem leads_finishWithin (hes : Settled es) {room? : Option RoomCode} (n : Nat)
    {stage : Stage Rooms Answer} {s t : Server Rooms} {a : Answer}
    (h : s.finishWithin stage n = (some a, t)) :
    Leads ⟨s, es ++ [⟨room?, stage, false⟩]⟩ ⟨t, es ++ [⟨room?, .finished a, false⟩]⟩ := by
  induction n generalizing stage s with
  | zero => cases h
  | succ n ih =>
    cases stage with
    | finished b =>
      cases h
      exact .refl _
    | blocked ticket resume =>
      rw [Server.finishWithin] at h
      cases hr : s.takeResult? ticket with
      | none =>
        simp only [hr] at h
        exact (leads_tick s _).trans (ih h)
      | some r =>
        simp only [hr] at h
        have hgo := leads_goOn hes ⟨room?, .blocked ticket resume, false⟩ s
        simp only [Errand.goOn, Stage.goOn, hr] at hgo
        exact hgo.trans ((leads_settle _ _).trans (ih h))

/-- Doing an operation from start to end is a run in which it is begun. -/
theorem leads_perform (hv : Settled v.errands) {code : RoomCode} {op : Operation} {a : Answer}
    {t : Server Rooms} (h : v.server.perform (op.script code) = (some a, t)) :
    Leads (v.step (.begins code op)) ⟨t, v.errands ++ [⟨some code, .finished a, false⟩]⟩ := by
  rw [Server.perform] at h
  exact (leads_settle _ _).trans (leads_finishWithin hv _ h)

theorem leads_joinTable (hv : Settled v.errands) {code : RoomCode} {id : ConnId}
    {t : Server Rooms} (h : v.server.joinTable code id = (some (.ok ()), t)) :
    Leads (v.step (.begins code (.joinTable id)))
      ⟨t, v.errands ++ [⟨some code, .finished (.joined id (.ok ())), true⟩]⟩ := by
  rcases hp : v.server.perform (Tableside.join code id) with ⟨_ | (e | _), u⟩
  · rw [Server.joinTable, hp] at h
    cases h
  · rw [Server.joinTable, hp] at h
    cases h
  · rw [Server.joinTable, hp] at h
    cases h
    have hperform : v.server.perform ((Operation.joinTable id).script code) =
        (some (.joined id (.ok ())), u) := by
      rw [Operation.script, Server.perform_map, hp]
      rfl
    have hgo := leads_goOn hv ⟨some code, .finished (.joined id (.ok ())), false⟩ u
    exact (leads_perform hv hperform).trans (hgo.trans (leads_settle _ _))

end Venue

end Cardroom
