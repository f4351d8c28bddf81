import Cardroom.Proofs.Floor.Lifetime
import Cardroom.Proofs.Floor.Presence
import Cardroom.Proofs.Floor.Reception

namespace Cardroom

open Script Floor

/-! ### A user who has left -/

namespace Lobby

variable {f g : Floor Rooms} {code : RoomCode} {user : UserId} {e : RoomEntry}

/-- The user's connections in the lobby have been closed. Those of the others have been shown the
room, and the host has been told if all are ready; where a write failed they are gone and closed.
Nothing else has changed. -/
structure UserGone (code : RoomCode) (user : UserId) (e : RoomEntry) (f g : Floor Rooms) :
    Prop where
  closed : ∀ id ∈ f.lobby.present code, f.user? id = some user →
    id ∉ g.lobby.present code ∧ g.isClosed id = true ∧
      g.received id = f.received id ++ if f.works id then [.close] else []
  stays_iff : ∀ id ∈ f.lobby.present code, f.user? id ≠ some user →
    (id ∈ g.lobby.present code ↔
      f.works id = true ∧ failsToTell e.members (e.shown code) f id = false)
  shown : ∀ id ∈ f.lobby.present code, f.user? id ≠ some user → id ∈ g.lobby.present code →
    g.received id = f.received id ++ .frame (e.shown code) ::
      if tells e.members (e.shown code) f id then [.frame (allReadyFrame code)] else []
  pruned : ∀ id ∈ f.lobby.present code, f.user? id ≠ some user → id ∉ g.lobby.present code →
    g.isClosed id = true ∧ g.frames id = f.frames id ++ if f.works id then [e.shown code] else []
  others : ∀ id ∉ f.lobby.present code,
    id ∉ g.lobby.present code ∧ g.connection? id = f.connection? id
  elsewhere : ∀ other, other ≠ code →
    ∀ id, id ∈ g.lobby.present other ↔ id ∈ f.lobby.present other
  table : g.table = f.table
  tables : g.tables = f.tables
  store : g.store = f.store

def dismissed (code : RoomCode) (user : UserId) (f : Floor Rooms) : Floor Rooms :=
  ((closeUser code user).run f).2

section

variable (hd : f.lobby.Distinct)
include hd

theorem distinct_dismissed (code : RoomCode) (user : UserId) :
    (dismissed code user f).lobby.Distinct :=
  (OnSide.closeUser .lobby hd code user).distinct

theorem mem_present_dismissed {room : RoomCode} {x : ConnId} :
    x ∈ (dismissed code user f).lobby.present room ↔
      x ∈ f.lobby.present room ∧ ¬ (room = code ∧ f.user? x = some user) :=
  Delivery.mem_present_closeUser .lobby code hd user

theorem connection?_dismissed (x : ConnId) :
    (dismissed code user f).connection? x =
      if x ∈ f.lobby.present code ∧ f.user? x = some user then
        (f.connection? x).map Connection.close
      else f.connection? x :=
  Delivery.connection?_closeUser .lobby code user hd x

theorem connection?_dismissed_of_ne (code : RoomCode) {x : ConnId} (hu : f.user? x ≠ some user) :
    (dismissed code user f).connection? x = f.connection? x := by
  rw [connection?_dismissed hd, if_neg fun h => hu h.2]

theorem run_userLeft (he : f.store.entry? code = some e) (user : UserId) :
    ((Door.userLeft code user).run f).2 =
      told code e.members (e.shown code) (dismissed code user f) := by
  have hstore : Same Floor.store f (dismissed code user f) :=
    (Delivery.only_closeUser .lobby code user).same (fun _ _ => rfl) (fun _ _ => rfl)
      (fun _ _ => rfl) f
  rw [Door.userLeft, run_monad_bind, run_discard]
  exact run_refresh_of_some (distinct_dismissed hd code user) (hstore ▸ he)

theorem mem_present_userLeft (he : f.store.entry? code = some e) {room : RoomCode} {x : ConnId} :
    x ∈ ((Door.userLeft code user).run f).2.lobby.present room ↔
      x ∈ f.lobby.present room ∧ (room = code → f.user? x ≠ some user ∧ f.works x = true ∧
        failsToTell e.members (e.shown code) f x = false) := by
  rw [run_userLeft hd he, mem_present_told _ (distinct_dismissed hd code user),
    mem_present_dismissed hd]
  by_cases hu : f.user? x = some user
  · simp +contextual [hu]
  · have hlike := connection?_dismissed_of_ne hd code hu
    rw [works_congr hlike, (tells_congr hlike _).2]
    simp [hu]

theorem connection?_userLeft (he : f.store.entry? code = some e) {x : ConnId}
    (hx : x ∈ f.lobby.present code → f.user? x = some user) :
    ((Door.userLeft code user).run f).2.connection? x =
      (dismissed code user f).connection? x := by
  rw [run_userLeft hd he]
  refine connection?_told_of_not_mem _ (distinct_dismissed hd code user) fun h => ?_
  obtain ⟨hin, hout⟩ := (mem_present_dismissed hd).1 h
  exact hout ⟨rfl, hx hin⟩

end

theorem only_userLeft (code : RoomCode) (user : UserId) :
    Delivery.Only (σ := Rooms) .lobby (fun F => F.side? = some .lobby) (Door.userLeft code user) :=
  fun _ h => (Delivery.within_closeUser h code user).discard.monad_bind fun _ =>
    within_refresh h code

theorem userGone (hf : f.Tidy) (he : f.store.entry? code = some e) (user : UserId) :
    UserGone code user e f ((Door.userLeft code user).run f).2 := by
  have hd : f.lobby.Distinct := hf .lobby
  have hd' := distinct_dismissed hd code user
  have hstays : ∀ id ∈ f.lobby.present code, f.user? id ≠ some user →
      (id ∈ ((Door.userLeft code user).run f).2.lobby.present code ↔
        f.works id = true ∧ failsToTell e.members (e.shown code) f id = false) := by
    intro id hid hu
    rw [mem_present_userLeft hd he]
    simp [hid, hu]
  have hstill : ∀ id ∈ f.lobby.present code, f.user? id ≠ some user →
      id ∈ (dismissed code user f).lobby.present code := fun id hid hu =>
    (mem_present_dismissed hd).2 ⟨hid, fun h => hu h.2⟩
  refine ⟨fun id hid hu => ?_, hstays, fun id hid hu hin => ?_, fun id hid hu hout => ?_,
    fun id hid => ?_, fun other hne id => ?_, ?_, ?_, ?_⟩
  · -- the user's connections
    have hclose : ((Door.userLeft code user).run f).2.connection? id =
        (f.connection? id).map Connection.close := by
      rw [connection?_userLeft hd he fun _ => hu, connection?_dismissed hd, if_pos ⟨hid, hu⟩]
    refine ⟨fun h => ?_, isClosed_of_close hclose, received_of_close hclose⟩
    exact (((mem_present_userLeft hd he).1 h).2 rfl).1 hu
  · -- those of the others who stay
    obtain ⟨hw, hfail⟩ := (hstays id hid hu).1 hin
    have hlike := connection?_dismissed_of_ne hd code hu
    rw [run_userLeft hd he, received_told _ hd' (hstill id hid hu) ((works_congr hlike).trans hw)
      ((tells_congr hlike _).2.trans hfail), received_congr hlike, (tells_congr hlike _).1]
  · -- those whom a write to failed: the first one, or the one that tells the host
    have hleft : f.works id = false ∨ failsToTell e.members (e.shown code) f id = true := by
      rw [hstays id hid hu, not_and_or, Bool.not_eq_true, Bool.not_eq_false] at hout
      exact hout
    have hlike := connection?_dismissed_of_ne hd code hu
    rw [run_userLeft hd he, isClosed_told _ hd' (hstill id hid hu), frames_told _ hd', news,
      works_congr hlike, (tells_congr hlike _).2, (tells_congr hlike _).1, frames_congr hlike]
    cases hw : f.works id with
    | false => simp
    | true =>
      have hfails := hleft.resolve_left (by simp [hw])
      simp [hstill id hid hu, hfails, tells_of_failsToTell hfails]
  · refine ⟨fun h => hid ((mem_present_userLeft hd he).1 h).1, ?_⟩
    rw [connection?_userLeft hd he fun h => absurd h hid, connection?_dismissed hd,
      if_neg fun h => hid h.1]
  · rw [mem_present_userLeft hd he]
    simp [hne]
  · exact (only_userLeft code user).same (fun _ _ => rfl) (fun _ _ => rfl) (fun _ _ => rfl) f
  · exact (only_userLeft code user).same (fun _ _ => rfl) (fun _ _ => rfl) (fun _ _ => rfl) f
  · exact (only_userLeft code user).same (fun _ _ => rfl) (fun _ _ => rfl) (fun _ _ => rfl) f

end Lobby

/-! ### A room that is gone -/

namespace Floor

variable {σ : Type} {f g : Floor σ} {code : RoomCode}

/-- Nobody attends the room any more, and it has no table. Whoever attended has been closed; nobody
else and no other room has been touched. -/
structure RoomGone (code : RoomCode) (f g : Floor σ) : Prop where
  deserted : ∀ side, (g.attendance side).present code = []
  closed : ∀ side, ∀ id ∈ (f.attendance side).present code, g.isClosed id = true ∧
    g.received id = f.received id ++ if f.works id then [.close] else []
  others : ∀ id, (∀ side, id ∉ (f.attendance side).present code) →
    g.connection? id = f.connection? id
  elsewhere : ∀ side other, other ≠ code →
    ∀ id, id ∈ (g.attendance side).present other ↔ id ∈ (f.attendance side).present other
  tables : ∀ other, g.table? other = if other = code then none else f.table? other
  store : g.store = f.store

@[simp] theorem attendance_removeTable (f : Floor σ) (room : RoomCode) (side : Side) :
    (f.removeTable room).attendance side = f.attendance side := by
  cases side <;> rfl

@[simp] theorem connection?_removeTable (f : Floor σ) (room : RoomCode) (x : ConnId) :
    (f.removeTable room).connection? x = f.connection? x := rfl

@[simp] theorem store_removeTable (f : Floor σ) (room : RoomCode) :
    (f.removeTable room).store = f.store := rfl

def emptied (code : RoomCode) (f : Floor σ) : Floor σ :=
  ((Delivery.dropRoom .lobby code).run f).2

theorem run_roomClosed (code : RoomCode) (f : Floor σ) :
    ((Door.roomClosed code).run f).2 =
      ((Delivery.dropRoom .table code).run (emptied code f)).2.removeTable code := by
  rw [Door.roomClosed, run_monad_bind, run_discard, Lobby.closeRoom, Tableside.closeRoom,
    run_monad_bind, run_discard, run_change, emptied]

theorem store_roomClosed (code : RoomCode) (f : Floor σ) :
    ((Door.roomClosed code).run f).2.store = f.store := by
  have hlobby : Same Floor.store f (emptied code f) :=
    (Delivery.only_dropRoom .lobby code).same (fun _ _ => rfl) (fun _ _ => rfl) (fun _ _ => rfl) f
  have htable : Same Floor.store (emptied code f)
      ((Delivery.dropRoom .table code).run (emptied code f)).2 :=
    (Delivery.only_dropRoom .table code).same (fun _ _ => rfl) (fun _ _ => rfl) (fun _ _ => rfl) _
  rw [run_roomClosed, store_removeTable]
  exact htable.trans hlobby

section

variable (hf : f.Tidy)
include hf

theorem table_emptied : (emptied code f).attendance .table = f.attendance .table :=
  (OnSide.dropRoom .lobby (hf .lobby) code).others .table nofun

theorem distinct_emptied : ((emptied code f).attendance .table).Distinct := by
  rw [table_emptied hf]
  exact hf .table

theorem mem_present_roomClosed {side : Side} {other : RoomCode} {x : ConnId} :
    x ∈ (((Door.roomClosed code).run f).2.attendance side).present other ↔
      x ∈ (f.attendance side).present other ∧ other ≠ code := by
  rw [run_roomClosed, attendance_removeTable]
  cases side with
  | lobby =>
    rw [(OnSide.dropRoom .table (distinct_emptied hf) code).others .lobby nofun, emptied,
      Delivery.mem_present_dropRoom .lobby code (hf .lobby)]
  | table =>
    rw [Delivery.mem_present_dropRoom .table code (distinct_emptied hf), table_emptied hf]

/-- Who attends both sides is closed once, for what is closed stays as it is. -/
theorem connection?_roomClosed (x : ConnId) :
    ((Door.roomClosed code).run f).2.connection? x =
      if x ∈ f.lobby.present code ∨ x ∈ f.table.present code then
        (f.connection? x).map Connection.close
      else f.connection? x := by
  rw [run_roomClosed, connection?_removeTable,
    Delivery.connection?_dropRoom .table code (distinct_emptied hf), table_emptied hf, emptied,
    Delivery.connection?_dropRoom .lobby code (hf .lobby)]
  change (if x ∈ f.table.present code then Option.map _ (if x ∈ f.lobby.present code then _ else _)
    else if x ∈ f.lobby.present code then _ else _) = _
  by_cases hl : x ∈ f.lobby.present code <;> by_cases ht : x ∈ f.table.present code <;>
    simp [hl, ht, Function.comp_def]

theorem connection?_roomClosed_of_mem {side : Side} {x : ConnId}
    (hx : x ∈ (f.attendance side).present code) :
    ((Door.roomClosed code).run f).2.connection? x = (f.connection? x).map Connection.close := by
  rw [connection?_roomClosed hf, if_pos]
  cases side with
  | lobby => exact .inl hx
  | table => exact .inr hx

end

theorem roomGone (hf : f.Tidy) (code : RoomCode) :
    RoomGone code f ((Door.roomClosed code).run f).2 := by
  refine ⟨fun side => ?_, fun side id hid => ?_, fun id hid => ?_, fun side other hne id => ?_,
    fun other => ?_, ?_⟩
  · exact List.eq_nil_iff_forall_not_mem.2 fun id h =>
      ((mem_present_roomClosed hf).1 h).2 rfl
  · have hclose := connection?_roomClosed_of_mem hf hid
    exact ⟨isClosed_of_close hclose, received_of_close hclose⟩
  · rw [connection?_roomClosed hf, if_neg]
    exact not_or.2 ⟨hid .lobby, hid .table⟩
  · exact (mem_present_roomClosed hf).trans (and_iff_left hne)
  · rw [run_roomClosed, table?_removeTable, table?_dropRoom, emptied, table?_dropRoom]
  · exact store_roomClosed code f

/-! ### Until somebody joins again -/

/-- The room has no table, and nobody attends one. -/
structure Vacant (code : RoomCode) (f : Floor σ) : Prop where
  table? : f.table? code = none
  present : f.table.present code = []

theorem RoomGone.vacant (h : RoomGone code f g) : Vacant code g :=
  ⟨(h.tables code).trans (if_pos rfl), h.deserted .table⟩

namespace Vacant

/-- Nothing is shown to anybody. -/
theorem run_broadcast (h : Vacant code f) (p : Payload) :
    (Delivery.broadcast .table code p).run f = (0, f) := by
  have hnobody : (f.attendance .table).present code = [] := h.present
  rw [Delivery.run_broadcast, hnobody, Delivery.send_nil]

theorem run_receive (h : Vacant code f) (user : UserId) {raw : String} {c : BetCommand}
    (hparse : BetCommand.parse raw = .ok c) :
    (Tableside.receive code user raw).run f = (.ignored .noTable, f) := by
  simp only [Tableside.receive, hparse, run_monad_bind, run_update, Tableside.placeBet, h.table?,
    run_pure]

end Vacant

theorem eq_joins_of_hands? {a : Act σ} {x : ConnId} (h : a.hands? = some (.table, code, x)) :
    a = .table (.joins code x) := by
  cases a with
  | table a =>
    cases a with
    | joins room id =>
      cases h
      rfl
    | receives | leaves | closes => cases h
  | lobby a =>
    obtain ⟨_, -, e⟩ := Option.map_eq_some_iff.1 h
    cases e
  | client | edits | roomClosed => cases h

variable [RoomStore σ]

/-- None of the acts is a join in the room that finds members there. -/
def Unjoined (f : Floor σ) (code : RoomCode) (acts : List (Act σ)) : Prop :=
  ∀ before a after, acts = before ++ a :: after →
    ∀ members, ¬ (f.after before).Gathers a code members

theorem Unjoined.of_append {acts more : List (Act σ)} (h : f.Unjoined code (acts ++ more)) :
    f.Unjoined code acts := by
  rintro before a after rfl
  exact h before a (after ++ more) (by simp)

theorem unjoined_of_not_joins {acts : List (Act σ)}
    (h : ∀ a ∈ acts, ∀ id, a ≠ .table (.joins code id)) : f.Unjoined code acts := by
  rintro before a after rfl members hg
  obtain ⟨id, ha⟩ := hg.act
  exact h a (by simp) id ha

/-- Only such a join sets up a table, and only such a join lets anybody in. -/
theorem Vacant.perform (h : Vacant code f) (hf : f.Tidy) (hd : f.Every Table.Drawn) {a : Act σ}
    (ha : ∀ members, ¬ f.Gathers a code members) : Vacant code (f.perform a) := by
  refine ⟨Option.eq_none_iff_forall_ne_some.2 fun t ht => ?_,
    List.eq_nil_iff_forall_not_mem.2 fun x hx => ?_⟩
  · obtain ⟨members, hg⟩ := table?_perform_of_none hd h.table? ht
    exact ha members hg
  · have hnobody : x ∉ (f.attendance .table).present code := by
      change x ∉ f.table.present code
      rw [h.present]
      exact List.not_mem_nil
    have hattends : x ∈ ((f.perform a).attendance .table).present code := hx
    have hhands := (mem_present_perform hf a hattends).resolve_left hnobody
    obtain rfl := eq_joins_of_hands? hhands
    obtain ⟨e, -⟩ | ⟨members, hread, hne, -⟩ := Tableside.join_cases code x f
    · rw [Floor.perform, Act.script, TableAct.script, run_discard, e] at hx
      exact hnobody hx
    · exact ha members ⟨⟨x, rfl⟩, hread, hne⟩

theorem Vacant.after (h : Vacant code f) (hf : ∀ acts, (f.after acts).Tidy)
    (hd : ∀ acts, (f.after acts).Every Table.Drawn) {acts : List (Act σ)}
    (hu : f.Unjoined code acts) : Vacant code (f.after acts) := by
  induction acts using List.reverseRecOn with
  | nil => exact h
  | append_singleton pre a ih =>
    rw [after_snoc]
    exact (ih hu.of_append).perform (hf pre) (hd pre) (hu pre a [] rfl)

theorem received_after_of_closed {x : ConnId} {c : Connection} (hc : f.connection? x = some c)
    (hclosed : c.closed = true) (acts : List (Act σ)) : (f.after acts).received x = f.received x := by
  have honward : Onward f (f.after acts) := by
    induction acts using List.reverseRecOn with
    | nil => exact Onward.steps.refl f
    | append_singleton pre a ih =>
      rw [after_snoc]
      exact Onward.steps.trans ih (Onward.perform _ a)
  obtain ⟨d, hd, hcd⟩ := honward x c hc
  rw [received, received, hd, hc, Option.elim_some, Option.elim_some, Connection.received_eq,
    Connection.received_eq, (hcd.closed hclosed).2]

/-- What is done at the table of a room that is gone, until somebody joins again: frames are ignored,
for want of a table if they are commands at all, nothing is shown to anybody, and those who were
there receive nothing. -/
structure TableGone (code : RoomCode) (f g : Floor σ) : Prop extends Vacant code g where
  malformed : ∀ user raw reason, BetCommand.parse raw = .error reason →
    (Tableside.receive code user raw).run g = (.ignored reason, g)
  noTable : ∀ user raw c, BetCommand.parse raw = .ok c →
    (Tableside.receive code user raw).run g = (.ignored .noTable, g)
  unheard : ∀ p, (Delivery.broadcast .table code p).run g = (0, g)
  final : ∀ side, ∀ id ∈ (f.attendance side).present code, (f.connection? id).isSome →
    g.received id = f.received id ++ if f.works id then [.close] else []

/-- Whatever has happened and is under way: when a user has left a room, only the user's connections
in its lobby are closed, and the others there are shown the room; when a room is gone, everyone who
attends it is closed and hears nothing else, its table is cleared, and until a join finds members
again nothing comes of its table. -/
theorem departures_exact (config : Config) (secret : String) (store : Rooms)
    (entropy : Random.Source) (turns : List (Turn Rooms)) (code : RoomCode) :
    let f := ((Bustle.idle (new config secret store entropy)).play turns).floor
    let closed := ((Door.roomClosed code).run f).2
    (∀ user e, f.store.entry? code = some e →
      Lobby.UserGone code user e f ((Door.userLeft code user).run f).2) ∧
    RoomGone code f closed ∧
    ∀ acts, closed.Unjoined code acts → TableGone code f (closed.after acts) := by
  intro f closed
  have htidy : f.Tidy := tidy_play config secret store entropy turns
  have hgone : RoomGone code f closed := roomGone htidy code
  refine ⟨fun user e he => Lobby.userGone htidy he user, hgone, fun acts hu => ?_⟩
  -- the floors after the room was closed can come about by turns as well
  have hplay : ∀ acts, ∃ all, ((Bustle.idle (new config secret store entropy)).play all).floor =
      closed.after acts := by
    intro acts
    obtain ⟨more, e⟩ := Bustle.exists_play_after
      ((Bustle.idle (new config secret store entropy)).play turns) (.roomClosed code :: acts)
    exact ⟨turns ++ more, by rw [Bustle.play_append, e, after_cons]; rfl⟩
  have hvacant : Vacant code (closed.after acts) := by
    refine hgone.vacant.after (fun acts => ?_) (fun acts => ?_) hu
    · obtain ⟨all, e⟩ := hplay acts
      exact e ▸ tidy_play config secret store entropy all
    · obtain ⟨all, e⟩ := hplay acts
      exact e ▸ every_play (Table.kept_drawn _) secret store entropy all
  refine ⟨hvacant, fun user raw reason h => ?_, fun user raw c h => hvacant.run_receive user h,
    hvacant.run_broadcast, fun side id hid hsome => ?_⟩
  · simp only [Tableside.receive, h, run_pure]
  · obtain ⟨c, hc⟩ := Option.isSome_iff_exists.1 hsome
    have hclosed : closed.connection? id = some c.close := by
      rw [connection?_roomClosed_of_mem htidy hid, hc, Option.map_some]
    rw [received_after_of_closed hclosed (Connection.closed_close c), (hgone.closed side id hid).2]

def inTurn (acts : List (Act Rooms)) : List (Turn Rooms) :=
  acts.zipIdx.flatMap fun (a, i) => .begins a :: List.replicate 20 (.goesOn i)

/-- All three have come into the lobby, where Cy has gone deaf, and Cy has also joined the table. Ann
has just said that she is ready, which nobody has been shown yet. -/
def salonEvening : List (Turn Rooms) :=
  inTurn [.client (.opens 0 1 (.steady (.takes 0))), .client (.opens 1 2 (.steady (.takes 0))),
    .client (.opens 2 3 (.steady (.takes 0))), .client (.opens 3 3 (.steady (.takes 0))),
    .lobby (.enters salonRoom 0), .lobby (.enters salonRoom 1), .lobby (.enters salonRoom 2),
    .table (.joins salonRoom 3), .client (.turns 2 (.steady (.refuses "boom")))] ++
  [.begins (.lobby (.receives salonRoom 1 readily)), .goesOn 9]

def salonEntry : RoomEntry :=
  ⟨⟨salonRoom, .waiting, 6, 1⟩, [⟨1, "Ann", true⟩, ⟨2, "Bo", false⟩, ⟨3, "Cy", false⟩]⟩

/-- Bo leaves: he is closed, Ann is shown the room, and Cy, who cannot be shown it, is let out of the
lobby. The room is closed instead: all are closed, and what is done later reaches nobody. -/
theorem departures_exact_salon :
    let f := ((Bustle.idle salon).play salonEvening).floor
    let left := ((Door.userLeft salonRoom 2).run f).2
    let closed := ((Door.roomClosed salonRoom).run f).2
    let later := closed.after [.table (.receives salonRoom 1 hundred), .lobby (.enters salonRoom 0)]
    f.lobby.present salonRoom = [0, 1, 2] ∧ f.table.present salonRoom = [3] ∧
    f.store.entry? salonRoom = some salonEntry ∧
    1 ∉ left.lobby.present salonRoom ∧ left.received 1 = f.received 1 ++ [.close] ∧
    0 ∈ left.lobby.present salonRoom ∧
    left.received 0 = f.received 0 ++ [.frame (salonEntry.shown salonRoom)] ∧
    2 ∉ left.lobby.present salonRoom ∧ left.isClosed 2 = true ∧
    left.connection? 3 = f.connection? 3 ∧
    closed.lobby.present salonRoom = [] ∧ closed.table.present salonRoom = [] ∧
    closed.received 3 = f.received 3 ++ [.close] ∧
    later.table? salonRoom = none ∧ later.received 3 = f.received 3 ++ [.close] := by
  intro f left closed later
  have hexact := departures_exact {} "" salon.store (.ofSeed 0) salonEvening salonRoom
  rw [new_salon] at hexact
  obtain ⟨hleft, hgone, hlater⟩ := hexact
  have hlobby : f.lobby.present salonRoom = [0, 1, 2] := by decide +kernel
  have htable : f.table.present salonRoom = [3] := by decide +kernel
  have hentry : f.store.entry? salonRoom = some salonEntry := by decide +kernel
  have hleft : Lobby.UserGone salonRoom 2 salonEntry f left := hleft 2 salonEntry hentry
  have hwho : f.user? 0 = some 1 ∧ f.user? 1 = some 2 ∧ f.user? 2 = some 3 := by decide +kernel
  have hworks : f.works 0 = true ∧ f.works 1 = true ∧ f.works 2 = false ∧ f.works 3 = true := by
    decide +kernel
  obtain ⟨hann, hbo, hcy⟩ := hwho
  obtain ⟨hannWorks, hboWorks, hcyWorks, htableWorks⟩ := hworks
  have hmem : ∀ id ∈ [0, 1, 2], id ∈ f.lobby.present salonRoom := fun id hid => hlobby ▸ hid
  have hquiet : closed.Unjoined salonRoom
      [.table (.receives salonRoom 1 hundred), .lobby (.enters salonRoom 0)] :=
    unjoined_of_not_joins fun a ha id e => by
      subst e
      simp at ha
  have hshut : TableGone salonRoom f later := hlater _ hquiet
  have hgone : RoomGone salonRoom f closed := hgone
  obtain ⟨hboOut, -, hboHeard⟩ := hleft.closed 1 (hmem 1 (by decide)) hbo
  have hannTold : Lobby.failsToTell salonEntry.members (salonEntry.shown salonRoom) f 0 = false ∧
      Lobby.tells salonEntry.members (salonEntry.shown salonRoom) f 0 = false := by decide +kernel
  have hthere : (f.connection? 3).isSome = true := by decide +kernel
  -- from here on it does not matter how the evening went
  clear_value later closed left f
  have hannStays : 0 ∈ left.lobby.present salonRoom :=
    (hleft.stays_iff 0 (hmem 0 (by decide)) (by rw [hann]; decide)).2 ⟨hannWorks, hannTold.1⟩
  have hcyOut : 2 ∉ left.lobby.present salonRoom := fun h => by
    have hworks := ((hleft.stays_iff 2 (hmem 2 (by decide)) (by rw [hcy]; decide)).1 h).1
    rw [hcyWorks] at hworks
    cases hworks
  have hannHeard := hleft.shown 0 (hmem 0 (by decide)) (by rw [hann]; decide) hannStays
  rw [hannTold.2] at hannHeard
  rw [hboWorks] at hboHeard
  have hpruned := hleft.pruned 2 (hmem 2 (by decide)) (by rw [hcy]; decide) hcyOut
  have hcyTable : 3 ∈ f.table.present salonRoom := htable ▸ List.mem_singleton_self 3
  have hclosed := (hgone.closed .table 3 hcyTable).2
  have hfinal := hshut.final .table 3 hcyTable hthere
  rw [htableWorks] at hclosed hfinal
  exact ⟨hlobby, htable, hentry, hboOut, hboHeard, hannStays, hannHeard, hcyOut, hpruned.1,
    (hleft.others 3 (by rw [hlobby]; decide)).2, hgone.deserted .lobby, hgone.deserted .table, hclosed,
    hshut.table?, hfinal⟩

end Floor

end Cardroom
