import Cardroom.Proofs.Floor.Lifecycle
import Cardroom.Proofs.Floor.LobbyStream
import Cardroom.Proofs.Floor.TableStream

namespace Cardroom

variable {σ : Type}

open Script

namespace Floor

/-! ### What an act adds -/

theorem frames_client (a : ClientAct) (f : Floor σ) {x : ConnId} (hx : ∀ r, a ≠ .ticks x r) :
    (a.script.run f).2.frames x = f.frames x := by
  cases a with
  | opens id user sink => exact frames_connect f id x user sink
  | turns id sink => exact frames_turn f id x sink
  | closes id => exact frames_close f id x
  | pings id data =>
    rw [ClientAct.script, run_discard, run_writeTo, frames_write]
    split <;> simp [Payload.frame?]
  | ticks id remaining =>
    have hne : x ≠ id := fun e => hx remaining (e ▸ rfl)
    rw [ClientAct.script, run_discard, run_writeTo, frames_write, if_neg fun h => hne h.1]

theorem frames_write_of_closed {f : Floor σ} {x : ConnId} {c : Connection}
    (hc : f.connection? x = some c) (hclosed : c.closed = true) (p : Payload) :
    (f.write x p).2.frames x = f.frames x := by
  have hw : f.works x = false := by
    rw [works, hc, Option.any_some, Connection.works, hclosed]
    rfl
  rw [frames_write, if_neg fun h => Bool.false_ne_true (hw.symm.trans h.2)]

theorem silent_roomClosed [RoomStore σ] (code : RoomCode) (f : Floor σ) :
    Silent f ((Door.roomClosed code).run f).2 := by
  have hlobby := Silent.of_only (Delivery.only_dropRoom .lobby code) f
  rw [Door.roomClosed, run_monad_bind, run_discard, Lobby.closeRoom]
  exact Silent.steps.trans hlobby (Tableside.silent_closeRoom code _)

variable [RoomStore σ] {f : Floor σ} {a : Act σ} {x : ConnId}

theorem frames_perform (hf : f.Tidy) (hx : ¬ f.attends x) (ha : a.handed? ≠ some x)
    (ht : ∀ r, a ≠ .client (.ticks x r)) : (f.perform a).frames x = f.frames x := by
  cases a with
  | client c => exact frames_client c f fun r e => ht r (e ▸ rfl)
  | _ =>
    refine frames_congr (connection?_perform hf hx (fun side code e => ha ?_)
      fun c e => by cases e)
    rw [Act.handed?, e]
    rfl

theorem lobbyStream_perform (hf : f.Tidy) (hx : ∀ code, x ∉ f.table.present code)
    (ha : ∀ code, a ≠ .enters .table code x) (ht : ∀ r, a ≠ .client (.ticks x r))
    (h : LobbyStream (f.user? x) (f.frames x)) :
    LobbyStream ((f.perform a).user? x) ((f.perform a).frames x) := by
  cases a with
  | client c =>
    have hframes : (f.perform (.client c)).frames x = f.frames x :=
      frames_client c f fun r e => ht r (e ▸ rfl)
    rw [hframes]
    cases hc : f.connection? x with
    | none =>
      rw [frames, hc]
      exact .nil _
    | some d =>
      have huser : f.user? x = some d.user := by rw [user?, hc, Option.map_some]
      rw [(Onward.perform f (.client c)).user? huser, ← huser]
      exact h
  | edits change => exact h
  | lobby a =>
    obtain ⟨huser, news, hframes, hnews⟩ := a.hears (hf .lobby) x
    change LobbyStream ((a.script.run f).2.user? x) ((a.script.run f).2.frames x)
    rw [huser, hframes]
    exact h.append hnews
  | table a =>
    have hsame : (f.perform (.table a)).connection? x = f.connection? x := by
      refine (a.onSide_script (hf .table)).absent x fun code => ⟨hx code, fun e => ha code ?_⟩
      exact Act.hands?_eq_some.1 (by rw [Act.hands?, e]; rfl)
    rw [user?_congr hsame, frames_congr hsame]
    exact h
  | roomClosed code =>
    obtain ⟨huser, hframes⟩ := silent_roomClosed code f x
    change LobbyStream (((Door.roomClosed code).run f).2.user? x)
      (((Door.roomClosed code).run f).2.frames x)
    rw [huser, hframes]
    exact h

theorem follows_perform (hf : f.Tidy) (hx : ∀ code, x ∉ f.lobby.present code)
    (ha : a.handed? ≠ some x) : Follows x f (f.perform a) := by
  have hhands : ∀ side code, a.hands? ≠ some (side, code, x) := fun side code e =>
    ha (by rw [Act.handed?, e]; rfl)
  cases a with
  | client c =>
    by_cases hc : ∃ r, c = .ticks x r
    · obtain ⟨r, rfl⟩ := hc
      rw [perform, Act.script, ClientAct.script, run_discard, run_writeTo, Follows, frames_write]
      split
      · exact ⟨_, rfl, List.forall_mem_singleton.2 rfl⟩
      · exact (Follows.steps x).refl f
    · exact .of_frames (frames_client c f fun r e => hc ⟨r, e⟩)
  | edits change => exact (Follows.steps x).refl f
  | lobby a =>
    refine .of_frames (frames_congr ((a.onSide_script (hf .lobby)).absent x fun code => ⟨hx code, ?_⟩))
    exact fun e => hhands .lobby code (by rw [Act.hands?, e]; rfl)
  | table a =>
    exact a.follows (hf .table) fun code e => hhands .table code (by rw [e]; rfl)
  | roomClosed code => exact .of_frames (silent_roomClosed code f x).2

/-! ### Regular runs -/

def Joined (start : Floor σ) (past : List (Act σ)) (x : ConnId) : Prop :=
  ∃ before code, before ++ [.table (.joins code x)] <+: past ∧
    ((Tableside.join code x).run (start.after before)).1.isOk = true

/-- Each connection is handed over once, and the countdown is shown to those who have joined. -/
structure Regular (start : Floor σ) (acts : List (Act σ)) : Prop where
  once : (acts.filterMap Act.handed?).Nodup
  ticks : ∀ pre id remaining post, acts = pre ++ .client (.ticks id remaining) :: post →
    start.Joined pre id

variable {start : Floor σ} {past : List (Act σ)}

theorem Regular.of_append {post : List (Act σ)} (h : Regular start (past ++ post)) :
    Regular start past where
  once := h.once.sublist ((List.sublist_append_left past post).filterMap _)
  ticks pre id remaining more e :=
    h.ticks pre id remaining (more ++ post) (by rw [e, List.append_assoc, List.cons_append])

theorem Joined.mem (h : start.Joined past x) : ∃ code, .enters .table code x ∈ past := by
  obtain ⟨before, code, hbefore, -⟩ := h
  exact ⟨code, hbefore.subset (List.mem_append_right _ List.mem_cons_self)⟩

theorem Regular.joined {r : Float} (h : Regular start (past ++ [a]))
    (e : a = .client (.ticks x r)) : start.Joined past x :=
  h.ticks past x r [] (by rw [e])

structure Streaming (start : Floor σ) (past : List (Act σ)) (f : Floor σ) : Prop where
  tidy : f.Tidy
  known : f.Known past
  fresh : ∀ x, x ∉ past.filterMap Act.handed? → f.frames x = []
  lobby : ∀ code x, .enters .lobby code x ∈ past → LobbyStream (f.user? x) (f.frames x)
  table : ∀ code x, .enters .table code x ∈ past → TableStream (f.frames x)
  shown : ∀ code x, x ∈ f.table.present code → Underway (f.frames x)
  joined : ∀ x, start.Joined past x →
    Underway (f.frames x) ∨ ∃ c, f.connection? x = some c ∧ c.closed = true

namespace Streaming

theorem new (config : Config) (secret : String) (store : σ) (entropy : Random.Source)
    (start : Floor σ) : Streaming start [] (new config secret store entropy) where
  tidy := tidy_new config secret store entropy
  known := known_new config secret store entropy
  fresh _ _ := rfl
  lobby _ _ h := nomatch h
  table _ _ h := nomatch h
  shown _ _ h := nomatch h
  joined _ h := nomatch h.mem.choose_spec

variable {post : List (Act σ)}

section

variable (h : Streaming start past f) (hn : (past.filterMap Act.handed?).Nodup)
include h hn

theorem off_table {code : RoomCode} (hx : .enters .lobby code x ∈ past) :
    ∀ room, x ∉ f.table.present room := fun room hmem =>
  nomatch (Act.enters_unique hn hx (h.known .table room x hmem)).1

theorem off_lobby {code : RoomCode} (hx : .enters .table code x ∈ past) :
    ∀ room, x ∉ f.lobby.present room := fun room hmem =>
  nomatch (Act.enters_unique hn hx (h.known .lobby room x hmem)).1

end

variable (h : Streaming start past f) (ho : Regular start (past ++ [a]))
include h ho

theorem fresh_perform (hx : x ∉ (past ++ [a]).filterMap Act.handed?) :
    (f.perform a).frames x = [] := by
  rw [List.filterMap_append, List.mem_append, not_or] at hx
  have ha : a.handed? ≠ some x := fun e => hx.2 (List.mem_filterMap.2 ⟨a, List.mem_cons_self, e⟩)
  rw [frames_perform h.tidy (h.known.not_attends hx.1) ha fun r e => ?_, h.fresh x hx.1]
  obtain ⟨code, hmem⟩ := (ho.joined e).mem
  exact hx.1 (Act.mem_handed hmem)

theorem lobby_perform {code : RoomCode} (hx : .enters .lobby code x ∈ past ++ [a]) :
    LobbyStream ((f.perform a).user? x) ((f.perform a).frames x) := by
  have hn := ho.once
  rcases List.mem_append.1 hx with hpast | hnow
  · have hold := Act.mem_handed hpast
    have honce := ho.of_append.once
    refine lobbyStream_perform h.tidy (h.off_table honce hpast) (fun room e => ?_) (fun r e => ?_)
      (h.lobby code x hpast)
    · exact Act.not_mem_handed hn (e ▸ Act.handed?_enters .table room x) hold
    · obtain ⟨room, hmem⟩ := (ho.joined e).mem
      nomatch (Act.enters_unique honce hpast hmem).1
  · cases List.mem_singleton.1 hnow
    have hnew := Act.not_mem_handed hn (Act.handed?_enters .lobby code x)
    refine lobbyStream_perform h.tidy (fun room hmem => ?_) nofun nofun ?_
    · exact h.known.not_attends hnew ⟨.table, room, hmem⟩
    · rw [h.fresh x hnew]
      exact .nil _

theorem joining {code : RoomCode} (ha : a = .enters .table code x) :
    Tableside.Joining ((Tableside.join code x).run f).1.isOk (f.perform a) x := by
  subst ha
  have hnew := Act.not_mem_handed ho.once (Act.handed?_enters .table code x)
  change Tableside.Joining _ ((discard (Tableside.join code x)).run f).2 x
  rw [run_discard]
  exact Tableside.joining_join (h.tidy .table)
    (fun room hmem => h.known.not_attends hnew ⟨.table, room, hmem⟩) (h.fresh x hnew) code

theorem underway_perform {code : RoomCode} (hx : .enters .table code x ∈ past)
    (hu : Underway (f.frames x)) : Underway ((f.perform a).frames x) := by
  refine (follows_perform h.tidy (h.off_lobby ho.of_append.once hx) fun ha => ?_).underway hu
  exact Act.not_mem_handed ho.once ha (Act.mem_handed hx)

/-- Whoever has been at a table and has left hears of the countdown at most. -/
theorem away_perform {code : RoomCode} (hx : .enters .table code x ∈ past) (hout : ¬ f.attends x) :
    TableStream ((f.perform a).frames x) := by
  have hold := h.table code x hx
  by_cases ht : ∃ r, a = .client (.ticks x r)
  · obtain ⟨r, e⟩ := ht
    obtain hu | ⟨c, hc, hclosed⟩ := h.joined x (ho.joined e)
    · exact (h.underway_perform ho hx hu).stream
    · rw [e, perform, Act.script, ClientAct.script, run_discard, run_writeTo,
        frames_write_of_closed hc hclosed]
      exact hold
  · have ha : a.handed? ≠ some x := fun e => Act.not_mem_handed ho.once e (Act.mem_handed hx)
    rw [frames_perform h.tidy hout ha fun r e => ht ⟨r, e⟩]
    exact hold

theorem table_perform {code : RoomCode} (hx : .enters .table code x ∈ past ++ [a]) :
    TableStream ((f.perform a).frames x) := by
  rcases List.mem_append.1 hx with hpast | hnow
  · by_cases hattends : ∃ room, x ∈ f.table.present room
    · obtain ⟨room, hmem⟩ := hattends
      exact (h.underway_perform ho hpast (h.shown room x hmem)).stream
    · refine h.away_perform ho hpast ?_
      rintro ⟨side, room, hmem⟩
      cases side with
      | lobby => exact h.off_lobby ho.of_append.once hpast room hmem
      | table => exact hattends ⟨room, hmem⟩
  · cases h.joining ho (List.mem_singleton.1 hnow).symm with
    | shown frames => exact frames.stream
    | cut frames _ _ => exact frames
    | refused _ frames _ =>
      rw [frames]
      exact .empty

theorem shown_perform {code : RoomCode} (hx : x ∈ (f.perform a).table.present code) :
    Underway ((f.perform a).frames x) := by
  obtain hmem | hands : x ∈ (f.attendance .table).present code ∨
      a.hands? = some (.table, code, x) := mem_present_perform h.tidy a hx
  · exact h.underway_perform ho (h.known .table code x hmem) (h.shown code x hmem)
  · cases h.joining ho (Act.hands?_eq_some.1 hands) with
    | shown frames => exact frames
    | cut _ out _ => exact absurd hx (out code)
    | refused _ _ out => exact absurd hx (out code)

theorem joined_perform (hf : f = start.after past) (hx : start.Joined (past ++ [a]) x) :
    Underway ((f.perform a).frames x) ∨
      ∃ c, (f.perform a).connection? x = some c ∧ c.closed = true := by
  obtain ⟨before, code, hbefore, hok⟩ := hx
  obtain e | hbefore := List.prefix_concat_iff.1 hbefore
  · -- the connection joins now
    obtain ⟨rfl, ha⟩ := List.append_inj' e rfl
    rw [← hf] at hok
    cases h.joining ho (List.singleton_inj.1 ha).symm with
    | shown frames => exact .inl frames
    | cut _ _ closed => exact .inr closed
    | refused fails _ _ => exact absurd hok (Bool.eq_false_iff.1 fails)
  · have hjoined : start.Joined past x := ⟨before, code, hbefore, hok⟩
    obtain ⟨room, hmem⟩ := hjoined.mem
    obtain hu | ⟨c, hc, hclosed⟩ := h.joined x hjoined
    · exact .inl (h.underway_perform ho hmem hu)
    · obtain ⟨d, hd, honward⟩ := Onward.perform f a x c hc
      exact .inr ⟨d, hd, (honward.closed hclosed).1⟩

theorem perform (hf : f = start.after past) : Streaming start (past ++ [a]) (f.perform a) where
  tidy := (a.within KeepsTidy.act).run KeepsTidy.steps f h.tidy
  known := h.known.perform h.tidy a
  fresh _ hx := h.fresh_perform ho hx
  lobby _ _ hx := h.lobby_perform ho hx
  table _ _ hx := h.table_perform ho hx
  shown _ _ hx := h.shown_perform ho hx
  joined _ hx := h.joined_perform ho hf hx

end Streaming

/-! ### Runs -/

def heardBy (f : Floor σ) (a : Act σ) (x : ConnId) : List Frame :=
  ((f.perform a).frames x).drop (f.frames x).length

/-- An order of players is heard by nobody but the one who joins. -/
theorem Streaming.joins_of_order (h : Streaming start past f)
    (h' : Streaming start (past ++ [a]) (f.perform a)) (ho : Regular start (past ++ [a]))
    {order : List PlayerEntry} (hx : .playerOrder order ∈ f.heardBy a x) :
    ∃ code, a = .enters .table code x := by
  have hmem : .playerOrder order ∈ (f.perform a).frames x := List.mem_of_mem_drop hx
  by_contra hnot
  by_cases hhanded : x ∈ (past ++ [a]).filterMap Act.handed?
  · obtain ⟨b, hb, hbx⟩ := List.mem_filterMap.1 hhanded
    obtain ⟨side, code, rfl⟩ := Act.handed?_eq_some hbx
    cases side with
    | lobby => exact (h'.lobby code x hb).not_playerOrder order hmem
    | table =>
      obtain hpast | hnow := List.mem_append.1 hb
      · have ha : a.handed? ≠ some x := fun e => Act.not_mem_handed ho.once e (Act.mem_handed hpast)
        obtain ⟨news, e, hnews⟩ :=
          follows_perform h.tidy (h.off_lobby ho.of_append.once hpast) ha
        rw [heardBy, e, List.drop_left] at hx
        nomatch hnews _ hx
      · exact hnot ⟨code, (List.mem_singleton.1 hnow).symm⟩
  · rw [h'.fresh x hhanded] at hmem
    nomatch hmem

end Floor

/-- The connection has been written no text but that of frames. -/
def Connection.Framed (c : Connection) : Prop := ∀ a ∈ c.attempts, ∀ s, a.payload ≠ .text s

namespace Connection.Framed

variable {c : Connection}

theorem attempt (h : c.Framed) {p : Payload} (hp : ∀ s, p ≠ .text s) : (c.attempt p).2.Framed :=
  List.forall_mem_cons.2 ⟨hp, h⟩

theorem write (h : c.Framed) {p : Payload} (hp : ∀ s, p ≠ .text s) : (c.write p).2.Framed := by
  unfold Connection.write
  split
  · exact h
  · exact h.attempt hp

theorem close (h : c.Framed) : c.close.Framed := by
  unfold Connection.close
  split
  · exact h
  · exact attempt (c := c.markClosed) h nofun

theorem lasting : Connection.Lasting Framed where
  fresh _ _ _ _ h := nomatch h
  turn _ _ h := h
  frame _ _ h := h.write nofun
  ping _ _ h := h.write nofun
  close _ h := h.close

theorem texts (h : c.Framed) :
    c.received.filterMap Payload.text? = c.frames.map Frame.text := by
  have htext : ∀ p ∈ c.received, p.text? = p.frame?.map Frame.text := by
    intro p hp
    rw [received_eq, List.mem_reverse] at hp
    obtain ⟨a, ha, rfl⟩ := List.mem_map.1 hp
    have hne := h a (List.mem_of_mem_filter ha)
    cases hpayload : a.payload with
    | text s => exact absurd hpayload (hne s)
    | _ => rfl
  rw [frames, List.map_filterMap]
  exact List.filterMap_congr htext

end Connection.Framed

namespace Floor

variable [RoomStore σ] {config : Config} {secret : String} {store : σ} {entropy : Random.Source}

theorem streaming_after {acts : List (Act σ)}
    (ho : Regular (new config secret store entropy) acts) :
    Streaming (new config secret store entropy) acts
      ((new config secret store entropy).after acts) := by
  induction acts using List.reverseRecOn with
  | nil => exact .new config secret store entropy _
  | append_singleton past a ih =>
    rw [after_append]
    exact (ih ho.of_append).perform ho rfl

theorem texts_after (acts : List (Act σ)) (x : ConnId) :
    (((new config secret store entropy).after acts).received x).filterMap Payload.text? =
      (((new config secret store entropy).after acts).frames x).map Frame.text := by
  have hframed := each_moments Connection.Framed.lasting config secret store entropy acts _
    (after_mem_moments _ acts)
  rw [received, frames]
  cases hc : ((new config secret store entropy).after acts).connection? x with
  | none => rfl
  | some c => exact (hframed x c hc).texts

/-- In a regular run, clients of a lobby receive its frames only, each call to a host directly after
the status that calls for it; clients of a table receive one order of players, then bets, then bets and
the countdown, or a part of that from the start. An order of players is heard in its own join by the
one who joins and by nobody else. Clients receive no other text than that of the frames. Whenever a
room is shown, those in its lobby are shown it and every reachable connection of its host is told when
all are ready, and what is returned are the numbers of the frames that arrive. -/
theorem streams (config : Config) (secret : String) (store : σ) (entropy : Random.Source)
    {acts : List (Act σ)} (ho : Regular (new config secret store entropy) acts) :
    let start := new config secret store entropy
    (∀ code x, .lobby (.enters code x) ∈ acts →
      LobbyStream ((start.after acts).user? x) ((start.after acts).frames x)) ∧
    (∀ code x, .table (.joins code x) ∈ acts → TableStream ((start.after acts).frames x)) ∧
    (∀ pre a post, acts = pre ++ a :: post → ∀ x order,
      .playerOrder order ∈ (start.after pre).heardBy a x → ∃ code, a = .table (.joins code x)) ∧
    (∀ x, ((start.after acts).received x).filterMap Payload.text? =
      ((start.after acts).frames x).map Frame.text) ∧
    ∀ g ∈ start.moments acts, ∀ code room members,
      Lobby.readRoom code g = .ok (room, members) → Lobby.RoomShown code room members g := by
  intro start
  have hall : Streaming start acts (start.after acts) := streaming_after ho
  refine ⟨hall.lobby, hall.table, fun pre a post e x order hx => ?_, texts_after acts,
    fun g hg code room members hread => ?_⟩
  · subst e
    rw [List.append_cons] at ho
    have hpre : Streaming start pre (start.after pre) := streaming_after ho.of_append.of_append
    exact hpre.joins_of_order (hpre.perform ho.of_append rfl) ho.of_append hx
  · exact Lobby.roomShown (tidy_moments config secret store entropy acts g hg .lobby) hread

/-- Ann and Bo are in the lobby and Cy is at the table; all say that they are ready, and Cy bets. -/
def salonRound : List (Act Rooms) :=
  [.client (.opens 0 1 (.steady (.takes 0))), .client (.opens 1 2 (.steady (.takes 0))),
    .client (.opens 2 3 (.steady (.takes 0))), .lobby (.enters salonRoom 0),
    .lobby (.enters salonRoom 1), .table (.joins salonRoom 2),
    .lobby (.receives salonRoom 1 readily), .lobby (.receives salonRoom 2 readily),
    .lobby (.receives salonRoom 3 readily), .table (.receives salonRoom 3 hundred)]

theorem streams_salon :
    let acts := salonRound ++ [.client (.ticks 2 15)]
    let g := salon.after acts
    Regular salon acts ∧
    (g.frames 0).map Frame.tag =
      ["room_status", "room_status", "room_status", "room_status", "room_status", "all_ready"] ∧
    LobbyStream (some 1) (g.frames 0) ∧
    (g.frames 2).map Frame.tag = ["player_order", "bet_state", "bet_state", "timer"] ∧
    TableStream (g.frames 2) ∧
    (∀ x order, .playerOrder order ∈
      (salon.after (salonRound.take 5)).heardBy (.table (.joins salonRoom 2)) x → x = 2) ∧
    ∃ status, Lobby.heard salonRoom g 0 = [status, Lobby.allReadyFrame salonRoom] := by
  intro acts g
  have hjoined : salon.Joined salonRound 2 :=
    ⟨salonRound.take 5, salonRoom, ⟨salonRound.drop 6, rfl⟩, by decide +kernel⟩
  have hregular : Regular salon acts := by
    refine ⟨by decide, fun pre id remaining post e => ?_⟩
    obtain ⟨rfl, hlast⟩ | ⟨more, hsplit⟩ := Act.split_snoc e
    · cases hlast
      exact hjoined
    · have hmem : .client (.ticks id remaining) ∈ salonRound :=
        hsplit ▸ List.mem_append_right pre List.mem_cons_self
      simp [salonRound] at hmem
  have hstreams := streams {} "" salon.store (.ofSeed 0) hregular
  rw [new_salon] at hstreams
  obtain ⟨hlobby, htable, horder, -, hshown⟩ := hstreams
  obtain ⟨htags, htags', huser, hmem, hworks, hworks'⟩ : (g.frames 0).map Frame.tag =
      ["room_status", "room_status", "room_status", "room_status", "room_status", "all_ready"] ∧
      (g.frames 2).map Frame.tag = ["player_order", "bet_state", "bet_state", "timer"] ∧
      g.user? 0 = some 1 ∧ 0 ∈ g.lobby.present salonRoom ∧ g.works 0 = true ∧
      (g.write 0 (.frame (.roomStatus "11" [⟨1, "Ann", true, true, false⟩,
        ⟨2, "Bo", true, false, false⟩, ⟨3, "Cy", true, false, false⟩] 6))).2.works 0 = true := by
    decide +kernel
  have hread : Lobby.readRoom salonRoom g = .ok (⟨salonRoom, .waiting, 6, 1⟩,
      [⟨1, "Ann", true, true⟩, ⟨2, "Bo", true, false⟩, ⟨3, "Cy", true, false⟩]) := by decide +kernel
  have hhosts := (hshown g (after_mem_moments salon acts) salonRoom _ _ hread).hosts
    (List.cons_ne_nil _ _) (by decide) ⟨1, "Ann", true, true⟩ (by decide) 0 hmem huser hworks hworks'
  refine ⟨hregular, htags, ?_, htags', htable salonRoom 2 ?_, fun x order h => ?_, _, hhosts⟩
  · rw [← huser]
    exact hlobby salonRoom 0 (List.mem_append_left _ (by simp [salonRound]))
  · exact List.mem_append_left _ (by simp [salonRound])
  · obtain ⟨code, e⟩ := horder (salonRound.take 5) (.table (.joins salonRoom 2))
      (salonRound.drop 6 ++ [.client (.ticks 2 15)]) rfl x order h
    cases e
    rfl

end Floor

end Cardroom
