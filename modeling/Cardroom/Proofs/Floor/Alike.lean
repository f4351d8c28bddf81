import Cardroom.Proofs.Floor.Run
import Cardroom.Proofs.Store.Edits

namespace Cardroom

variable {σ α : Type} {home : ConnId → RoomCode} {room other : RoomCode}

namespace Attendance

variable {a b : Attendance} {id : ConnId} {ids : List ConnId}

theorem present_leave_of_ne (h : other ≠ room) (a : Attendance) (id : ConnId) :
    (a.leave room id).present other = a.present other := by
  rw [present_leave, if_neg h]

theorem present_withdraw_of_ne (h : other ≠ room) (a : Attendance) (ids : List ConnId) :
    (a.withdraw room ids).2.present other = a.present other := by
  induction ids generalizing a with
  | nil => rfl
  | cons id ids ih =>
    rw [withdraw_cons]
    split
    · exact (ih (a.leave room id)).trans (present_leave_of_ne h a id)
    · exact ih a

theorem present_of_mem_withdraw (h : id ∈ (a.withdraw room ids).1) : id ∈ a.present room := by
  induction ids generalizing a with
  | nil => cases h
  | cons x ids ih =>
    rw [withdraw_cons] at h
    split at h
    · rename_i hx
      rcases List.mem_cons.1 h with rfl | h
      · exact has_iff.1 hx
      · exact (present_leave_sublist a room room x).subset (ih h)
    · exact ih h

theorem has_congr (h : a.present room = b.present room) : a.has room id = b.has room id := by
  rw [has, has, h]

theorem withdraw_congr (h : a.present room = b.present room) :
    (a.withdraw room ids).1 = (b.withdraw room ids).1 ∧
      (a.withdraw room ids).2.present room = (b.withdraw room ids).2.present room := by
  induction ids generalizing a b with
  | nil => exact ⟨rfl, h⟩
  | cons id ids ih =>
    have hleave : (a.leave room id).present room = (b.leave room id).present room := by
      rw [present_leave, present_leave, h]
    rw [withdraw_cons, withdraw_cons, has_congr h]
    split
    · exact ⟨congrArg (id :: ·) (ih hleave).1, (ih hleave).2⟩
    · exact ih h

end Attendance

namespace Floor

/-- Nobody attends a room that is not their own, every table stands under its own room, and there is
a seed to draw the dealers with. -/
structure Orderly (home : ConnId → RoomCode) (f : Floor Rooms) : Prop where
  atHome : ∀ side room, ∀ id ∈ (f.attendance side).present room, home id = room
  tables : ∀ room t, f.table? room = some t → t.room = room
  seeded : f.config.dealerSeed.isSome = true

/-- The same floor, as far as one room can tell. -/
structure Alike (home : ConnId → RoomCode) (room : RoomCode) (f g : Floor Rooms) : Prop where
  config : f.config = g.config
  secret : f.tokenSecret = g.tokenSecret
  entry : f.store.entry? room = g.store.entry? room
  connection : ∀ id, home id = room → f.connection? id = g.connection? id
  present : ∀ side, (f.attendance side).present room = (g.attendance side).present room
  table : f.table? room = g.table? room

theorem Alike.refl (f : Floor Rooms) : Alike home room f f :=
  ⟨rfl, rfl, rfl, fun _ _ => rfl, fun _ => rfl, rfl⟩

theorem Alike.trans {f g h : Floor Rooms} (hfg : Alike home room f g) (hgh : Alike home room g h) :
    Alike home room f h where
  config := hfg.config.trans hgh.config
  secret := hfg.secret.trans hgh.secret
  entry := hfg.entry.trans hgh.entry
  connection id hid := (hfg.connection id hid).trans (hgh.connection id hid)
  present side := (hfg.present side).trans (hgh.present side)
  table := hfg.table.trans hgh.table

theorem Alike.symm {f g : Floor Rooms} (h : Alike home room f g) : Alike home room g f where
  config := h.config.symm
  secret := h.secret.symm
  entry := h.entry.symm
  connection id hid := (h.connection id hid).symm
  present side := (h.present side).symm
  table := h.table.symm

theorem Alike.isClosed {f g : Floor Rooms} (h : Alike home room f g) {id : ConnId}
    (hid : home id = room) : f.isClosed id = g.isClosed id := by
  rw [Floor.isClosed, Floor.isClosed, h.connection id hid]

theorem Alike.user? {f g : Floor Rooms} (h : Alike home room f g) {id : ConnId}
    (hid : home id = room) : f.user? id = g.user? id := by
  rw [Floor.user?, Floor.user?, h.connection id hid]

/-- A change that is made in one room alone. -/
structure Local (home : ConnId → RoomCode) (room : RoomCode) (c : Floor Rooms → Floor Rooms) :
    Prop where
  orderly : ∀ f, Orderly home f → Orderly home (c f)
  elsewhere : ∀ f, Orderly home f → ∀ other, other ≠ room → Alike home other f (c f)
  alike : ∀ f g, Orderly home f → Orderly home g → Alike home room f g →
    Alike home room (c f) (c g)

theorem local_id : Local home room id where
  orderly _ hf := hf
  elsewhere f _ _ _ := .refl f
  alike _ _ _ _ h := h

theorem local_of_same {c : Floor Rooms → Floor Rooms}
    (hsame : ∀ f, (c f).lobby = f.lobby ∧ (c f).table = f.table ∧ (c f).config = f.config ∧
      (c f).tokenSecret = f.tokenSecret)
    (htables : ∀ f, Orderly home f → ∀ code t, (c f).table? code = some t → t.room = code)
    (helsewhere : ∀ f, Orderly home f → ∀ other, other ≠ room →
      Rooms.entry? (c f).store other = f.store.entry? other ∧
      (∀ id, home id = other → (c f).connection? id = f.connection? id) ∧
      (c f).table? other = f.table? other)
    (halike : ∀ f g, Orderly home f → Orderly home g → Alike home room f g →
      Rooms.entry? (c f).store room = Rooms.entry? (c g).store room ∧
      (∀ id, home id = room → (c f).connection? id = (c g).connection? id) ∧
      (c f).table? room = (c g).table? room) : Local home room c := by
  have hattendance : ∀ f side, (c f).attendance side = f.attendance side := by
    intro f side
    obtain ⟨hlobby, htable, -⟩ := hsame f
    cases side
    · exact hlobby
    · exact htable
  constructor
  · intro f hf
    refine ⟨fun side => ?_, htables f hf, ?_⟩
    · rw [hattendance]
      exact hf.atHome side
    · rw [(hsame f).2.2.1]
      exact hf.seeded
  · intro f hf other hother
    obtain ⟨hentry, hconnection, htable⟩ := helsewhere f hf other hother
    obtain ⟨-, -, hconfig, hsecret⟩ := hsame f
    refine ⟨hconfig.symm, hsecret.symm, hentry.symm, fun id hid => (hconnection id hid).symm,
      fun side => ?_, htable.symm⟩
    rw [hattendance]
  · intro f g hf hg hfg
    obtain ⟨hentry, hconnection, htable⟩ := halike f g hf hg hfg
    obtain ⟨-, -, hconfig, hsecret⟩ := hsame f
    obtain ⟨-, -, hconfig', hsecret'⟩ := hsame g
    refine ⟨?_, ?_, hentry, hconnection, fun side => ?_, htable⟩
    · rw [hconfig, hconfig', hfg.config]
    · rw [hsecret, hsecret', hfg.secret]
    · rw [hattendance, hattendance, hfg.present side]

theorem local_count (m : Metric) (n : Int) : Local home room (·.count m n) :=
  local_of_same (fun _ => ⟨rfl, rfl, rfl, rfl⟩) (fun _ hf => hf.tables)
    (fun _ _ _ _ => ⟨rfl, fun _ _ => rfl, rfl⟩)
    fun _ _ _ _ hfg => ⟨hfg.entry, hfg.connection, hfg.table⟩

theorem local_setAttendance (side : Side) {c : Floor Rooms → Attendance}
    (hhome : ∀ f, Orderly home f → ∀ id ∈ (c f).present room, home id = room)
    (helsewhere : ∀ f other, other ≠ room → (c f).present other = (f.attendance side).present other)
    (halike : ∀ f g, Orderly home f → Alike home room f g →
      (c f).present room = (c g).present room) :
    Local home room fun f => f.setAttendance side (c f) where
  orderly f hf := by
    refine ⟨fun other code id hid => ?_, fun code t ht => ?_, ?_⟩
    · rw [attendance_setAttendance] at hid
      split at hid
      · by_cases hcode : code = room
        · subst hcode
          exact hhome f hf id hid
        · rw [helsewhere f code hcode] at hid
          exact hf.atHome side code id hid
      · exact hf.atHome other code id hid
    · rw [table?_setAttendance] at ht
      exact hf.tables code t ht
    · cases side <;> exact hf.seeded
  elsewhere f _ other hother := by
    refine ⟨by cases side <;> rfl, by cases side <;> rfl, by cases side <;> rfl,
      fun _ _ => by cases side <;> rfl, fun on => ?_, (table?_setAttendance f side _ _).symm⟩
    rw [attendance_setAttendance]
    split
    · rename_i hon
      rw [hon, helsewhere f other hother]
    · rfl
  alike f g hf _ h := by
    refine ⟨by cases side <;> exact h.config, by cases side <;> exact h.secret,
      by cases side <;> exact h.entry, fun id hid => by cases side <;> exact h.connection id hid,
      fun on => ?_, by rw [table?_setAttendance, table?_setAttendance]; exact h.table⟩
    rw [attendance_setAttendance, attendance_setAttendance]
    split
    · exact halike f g hf h
    · exact h.present on

theorem local_tables {c : Floor Rooms → Floor Rooms}
    (hsame : ∀ f, ∃ tables entropy, c f = { f with tables := tables, entropy := entropy })
    (hroom : ∀ f t, Orderly home f → (c f).table? room = some t → t.room = room)
    (helsewhere : ∀ f other, other ≠ room → Orderly home f → (c f).table? other = f.table? other)
    (halike : ∀ f g, Orderly home f → Orderly home g → Alike home room f g →
      (c f).table? room = (c g).table? room) : Local home room c := by
  have hstore : ∀ f, (c f).store = f.store := fun f => by
    obtain ⟨_, _, e⟩ := hsame f
    rw [e]
  have hconnection : ∀ f id, (c f).connection? id = f.connection? id := fun f id => by
    obtain ⟨_, _, e⟩ := hsame f
    rw [e]
    rfl
  refine local_of_same (fun f => ?_) (fun f hf code t ht => ?_) (fun f hf other hother => ?_)
    fun f g hf hg hfg => ?_
  · obtain ⟨_, _, e⟩ := hsame f
    rw [e]
    exact ⟨rfl, rfl, rfl, rfl⟩
  · by_cases hcode : code = room
    · subst hcode
      exact hroom f t hf ht
    · rw [helsewhere f code hcode hf] at ht
      exact hf.tables code t ht
  · exact ⟨by rw [hstore], fun id _ => hconnection f id, helsewhere f other hother hf⟩
  · refine ⟨?_, fun id hid => ?_, halike f g hf hg hfg⟩
    · rw [hstore, hstore, hfg.entry]
    · rw [hconnection, hconnection, hfg.connection id hid]

theorem local_removeTable : Local home room (·.removeTable room) := by
  refine local_tables (fun f => ⟨_, f.entropy, rfl⟩) ?_ ?_ ?_
  · intro f t _ ht
    rw [table?_removeTable, if_pos rfl] at ht
    cases ht
  · intro f other hother _
    rw [table?_removeTable, if_neg hother]
  · intro f g _ _ _
    rw [table?_removeTable, table?_removeTable, if_pos rfl, if_pos rfl]

theorem local_connections {c : Floor Rooms → Floor Rooms}
    (hsame : ∀ f, ∃ m, c f = { f with connections := m })
    (helsewhere : ∀ f x, home x ≠ room → (c f).connection? x = f.connection? x)
    (halike : ∀ f g, Alike home room f g → ∀ x, home x = room →
      (c f).connection? x = (c g).connection? x) : Local home room c := by
  have hstore : ∀ f, (c f).store = f.store := fun f => by
    obtain ⟨_, e⟩ := hsame f
    rw [e]
  have htable : ∀ f code, (c f).table? code = f.table? code := fun f code => by
    obtain ⟨_, e⟩ := hsame f
    rw [e]
    rfl
  refine local_of_same (fun f => ?_) (fun f hf code t ht => ?_) (fun f _ other hother => ?_)
    fun f g _ _ hfg => ?_
  · obtain ⟨_, e⟩ := hsame f
    rw [e]
    exact ⟨rfl, rfl, rfl, rfl⟩
  · rw [htable] at ht
    exact hf.tables code t ht
  · exact ⟨by rw [hstore], fun x hx => helsewhere f x (hx ▸ hother), htable f other⟩
  · refine ⟨?_, halike f g hfg, ?_⟩
    · rw [hstore, hstore, hfg.entry]
    · rw [htable, htable, hfg.table]

theorem local_modifyConnection {id : ConnId} (hid : home id = room) (m : Connection → Connection) :
    Local home room (·.modifyConnection id m) := by
  refine local_connections (fun f => ⟨_, rfl⟩) ?_ ?_
  · intro f x hx
    have hne : x ≠ id := fun h => hx (h ▸ hid)
    rw [connection?_modifyConnection, if_neg hne]
  · intro f g h x hx
    rw [connection?_modifyConnection, connection?_modifyConnection, h.connection x hx]

theorem local_setConnection {id : ConnId} (hid : home id = room) (c : Connection) :
    Local home room (·.setConnection id c) := by
  refine local_connections (fun f => ⟨_, rfl⟩) ?_ ?_
  · intro f x hx
    have hne : x ≠ id := fun h => hx (h ▸ hid)
    rw [connection?_setConnection, if_neg hne]
  · intro f g h x hx
    rw [connection?_setConnection, connection?_setConnection, h.connection x hx]

theorem local_connect {id : ConnId} (hid : home id = room) (user : UserId) (sink : Sink) :
    Local home room (·.connect id user sink) := by
  refine local_connections (fun f => ?_) ?_ ?_
  · unfold connect
    split
    · exact ⟨f.connections, rfl⟩
    · exact ⟨_, rfl⟩
  · intro f x hx
    have hne : x ≠ id := fun h => hx (h ▸ hid)
    unfold connect
    split
    · rfl
    · rw [openConnection, connection?_setConnection, if_neg hne]
  · intro f g h x hx
    unfold connect
    rw [h.connection id hid]
    split
    · exact h.connection x hx
    · rw [openConnection, openConnection, connection?_setConnection, connection?_setConnection,
        h.connection x hx, h.config]

theorem local_turn {id : ConnId} (hid : home id = room) (sink : Sink) :
    Local home room (·.turn id sink) :=
  local_modifyConnection hid _

theorem local_store {c : Rooms → Rooms}
    (helsewhere : ∀ s other, other ≠ room → Rooms.entry? (c s) other = s.entry? other)
    (halike : ∀ s t : Rooms, s.entry? room = t.entry? room →
      Rooms.entry? (c s) room = Rooms.entry? (c t) room) :
    Local home room fun f => { f with store := c f.store } :=
  local_of_same (fun _ => ⟨rfl, rfl, rfl, rfl⟩) (fun _ hf => hf.tables)
    (fun f _ other hother => ⟨helsewhere f.store other hother, fun _ _ => rfl, rfl⟩)
    fun f g _ _ hfg => ⟨halike f.store g.store hfg.entry, hfg.connection, hfg.table⟩

end Floor

namespace Rooms

variable {s t : Rooms}

theorem update_congr (h : s.entry? room = t.entry? room) (g : RoomEntry → RoomEntry) :
    (∃ e, s.update room g = .error e ∧ t.update room g = .error e) ∨
    ∃ s' t', s.update room g = .ok s' ∧ t.update room g = .ok t' ∧
      s'.entry? room = t'.entry? room := by
  cases he : t.entry? room with
  | none =>
    rw [he] at h
    exact .inl ⟨.roomNotFound room, by rw [update, h], by rw [update, he]⟩
  | some e =>
    rw [he] at h
    have hs : s.update room g = .ok ⟨s.rooms.insert room (g e)⟩ := by rw [update, h]
    have ht : t.update room g = .ok ⟨t.rooms.insert room (g e)⟩ := by rw [update, he]
    refine .inr ⟨_, _, hs, ht, ?_⟩
    rw [ entry?_of_update hs, entry?_of_update ht, if_pos rfl, if_pos rfl, h, he]

theorem members_congr (h : s.entry? room = t.entry? room) : s.members room = t.members room := by
  rw [members, members, h]

end Rooms

namespace Edit

theorem apply_congr {s t : Rooms} (e : Edit) (h : s.entry? e.code = t.entry? e.code) :
    Rooms.entry? (e.apply s) e.code = Rooms.entry? (e.apply t) e.code ∧
      e.answer s = e.answer t := by
  have hupdate : ∀ (g : RoomEntry → RoomEntry),
      Rooms.entry? ((s.update e.code g).toOption.getD s) e.code =
        Rooms.entry? ((t.update e.code g).toOption.getD t) e.code ∧
      (s.update e.code g).map (fun _ => true) = (t.update e.code g).map fun _ => true := by
    intro g
    obtain ⟨error, hs, ht⟩ | ⟨s', t', hs, ht, hst⟩ := Rooms.update_congr h g
    · rw [hs, ht]
      exact ⟨h, rfl⟩
    · rw [hs, ht]
      exact ⟨hst, rfl⟩
  cases e with
  | create room =>
    refine ⟨?_, rfl⟩
    simp only [apply, code, Rooms.entry?_create, if_true]
  | addMember code user name => exact hupdate _
  | removeMember code user =>
    have hcode : s.entry? code = t.entry? code := h
    obtain ⟨error, hs, ht⟩ | ⟨s', t', hs, ht, hst⟩ := Rooms.update_congr hcode (·.leave user)
    · simp only [apply, answer, Rooms.removeMember, hs, ht]
      exact ⟨h, rfl⟩
    · simp only [apply, answer, Rooms.removeMember, hs, ht]
      exact ⟨hst, congrArg (fun e => Except.ok (Option.any (RoomEntry.has · user) e)) hcode⟩
  | setOwner code owner => exact hupdate _
  | setStatus code status => exact hupdate _
  | setReady code user ready => exact hupdate _

theorem local_apply (e : Edit) :
    Floor.Local home e.code fun f => { f with store := e.apply f.store } :=
  Floor.local_store (fun _ _ hne => entry?_apply e hne) fun _ _ h => (apply_congr e h).1

end Edit

end Cardroom
