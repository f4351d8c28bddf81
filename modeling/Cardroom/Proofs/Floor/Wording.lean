import Cardroom.Proofs.Floor.Moments
import Cardroom.Proofs.Store.Edits

namespace Cardroom

theorem RoomEntry.filter_setReady_of_ne {user other : UserId} (hne : other ≠ user) (e : RoomEntry)
    (ready : Bool) :
    (e.setReady user ready).joined.filter (·.user = other) = e.joined.filter (·.user = other) := by
  simp only [RoomEntry.setReady]
  induction e.joined with
  | nil => rfl
  | cons m joined ih =>
    by_cases hm : m.user = user
    · have hother : ¬ decide (m.user = other) = true := by simp [hm, hne.symm]
      simp only [List.map_cons, List.filter_cons, if_pos hm, if_neg hother, ih]
    · rw [List.map_cons, if_neg hm, List.filter_cons, List.filter_cons]
      exact ite_congr rfl (fun _ => congrArg _ ih) fun _ => ih

namespace Rooms

/-- How ready somebody is in a room: one flag for each membership. -/
def readiness (s : Rooms) (code : RoomCode) (user : UserId) : List Bool :=
  (s.entry? code).elim [] fun e => (e.joined.filter (·.user = user)).map (·.isReady)

theorem readiness_setReady_of_ne {s t : Rooms} {code room : RoomCode} {user other : UserId}
    {ready : Bool} (h : s.setReady code user ready = .ok t) (hne : (room, other) ≠ (code, user)) :
    t.readiness room other = s.readiness room other := by
  rw [readiness, readiness, entry?_of_update h]
  split
  · rename_i hroom
    have hother : other ≠ user := fun e => hne (by rw [hroom, e])
    rw [hroom]
    cases s.entry? code with
    | none => rfl
    | some e =>
      rw [Option.map_some, Option.elim_some, Option.elim_some,
        RoomEntry.filter_setReady_of_ne hother]
  · rfl

end Rooms

open Script

namespace Lobby

variable {code room : RoomCode} {user other : UserId} {raw raw' : String} {u u' : ReadyUpdate}

theorem receive_congr {σ : Type} [RoomStore σ] (h : ReadyUpdate.parse raw = .ok u)
    (h' : ReadyUpdate.parse raw' = .ok u') (hready : u.isReady = u'.isReady) :
    (receive code user raw : Script σ Outcome) = receive code user raw' := by
  simp only [receive, h, h', hready]

theorem within_receive_of_ne (hne : (room, other) ≠ (code, user)) (raw : String) :
    (receive code user raw : Script Rooms Outcome).Within
      (Floor.Same (·.store.readiness room other)) := by
  have hrefresh : (refresh code : Script Rooms Unit).Within
      (Floor.Same (·.store.readiness room other)) :=
    within_refresh (Delivery.same _ (fun _ _ => rfl) (fun _ _ => rfl) fun _ _ => rfl) code
  unfold receive
  split
  · exact within_pure _
  · rename_i update _
    refine (within_update fun f => ?_).monad_bind fun r => ?_
    · unfold setReady
      split
      · rename_i store hstore
        exact Rooms.readiness_setReady_of_ne hstore hne
      · rfl
    · cases r with
      | error e => exact within_pure _
      | ok _ => exact hrefresh.monad_bind fun _ => within_pure _

end Lobby

variable {σ : Type} [RoomStore σ]

/-- The same act, or a frame from the same connection that says as much in other words. -/
inductive Act.Rephrases : Act σ → Act σ → Prop where
  | same (a : Act σ) : Rephrases a a
  | frame (code : RoomCode) (user : UserId) {raw raw' : String} {u u' : ReadyUpdate}
    (h : ReadyUpdate.parse raw = .ok u) (h' : ReadyUpdate.parse raw' = .ok u')
    (hready : u.isReady = u'.isReady) :
    Rephrases (.lobby (.receives code user raw)) (.lobby (.receives code user raw'))

inductive Turn.Rephrases : Turn σ → Turn σ → Prop where
  | begins {a b : Act σ} (h : a.Rephrases b) : Rephrases (.begins a) (.begins b)
  | goesOn (i : Nat) : Rephrases (.goesOn i) (.goesOn i)

theorem Act.Rephrases.script {a b : Act σ} (h : a.Rephrases b) : a.script = b.script := by
  cases h with
  | same a => rfl
  | frame code user h h' hready =>
    exact congrArg Functor.discard (Lobby.receive_congr h h' hready)

theorem Bustle.play_congr {turns turns' : List (Turn σ)} (h : List.Forall₂ Turn.Rephrases turns turns')
    (w : Bustle σ) : w.play turns = w.play turns' := by
  induction h generalizing w with
  | nil => rfl
  | @cons t t' turns turns' ht _ ih =>
    have hturn : w.turn t = w.turn t' := by
      cases ht with
      | begins h => simp only [Bustle.turn, h.script]
      | goesOn i => rfl
    exact (congrArg (Bustle.play · turns) hturn).trans (ih _)

namespace Lobby

/-- A frame in the lobby speaks for its connection only. Two frames of the same connection that are
read with the same readiness, whatever room they name and whatever else they say, have the same
outcome and leave the same floor, with all that has reached anybody; so they may stand for each other
in any bustle. And at no moment does a frame change the readiness of anybody but its own user in its
own room, nor do any number of frames beside each other. -/
theorem frames_speak_for_their_connection :
    (∀ (f : Floor Rooms) (code : RoomCode) (user : UserId) (raw raw' : String) (u u' : ReadyUpdate),
      ReadyUpdate.parse raw = .ok u → ReadyUpdate.parse raw' = .ok u' → u.isReady = u'.isReady →
      (receive code user raw).run f = (receive code user raw').run f ∧
        (receive code user raw).passes f = (receive code user raw').passes f) ∧
    (∀ (w : Bustle Rooms) (turns turns' : List (Turn Rooms)),
      List.Forall₂ Turn.Rephrases turns turns' → w.play turns = w.play turns') ∧
    (∀ (f : Floor Rooms) (code room : RoomCode) (user other : UserId) (raw : String),
      (room, other) ≠ (code, user) → ∀ g ∈ f :: (receive code user raw).passes f,
        g.store.readiness room other = f.store.readiness room other) ∧
    ∀ (f : Floor Rooms) (room : RoomCode) (other : UserId) (turns : List (Turn Rooms)),
      (∀ a, .begins a ∈ turns → ∃ code user raw,
        a = .lobby (.receives code user raw) ∧ (room, other) ≠ (code, user)) →
      ((Bustle.idle f).play turns).floor.store.readiness room other =
        f.store.readiness room other := by
  refine ⟨fun f code user raw raw' u u' h h' hready => ?_, fun w turns turns' h => ?_,
    fun f code room user other raw hne g hg => ?_, fun f room other turns hall => ?_⟩
  · rw [receive_congr h h' hready]
    exact ⟨rfl, rfl⟩
  · exact Bustle.play_congr h w
  · let P : Floor Rooms → Prop := fun g => g.store.readiness room other = f.store.readiness room other
    have hmoves : (receive code user raw).Along (fun g g' => P g → P g') f :=
      ((within_receive_of_ne hne raw).along f).imp fun g g' hsame hP => Eq.trans hsame hP
    have hpasses : P f ∧ ∀ g ∈ (receive code user raw).passes f, P g := ⟨rfl, (hmoves.holds rfl).1⟩
    exact List.forall_mem_cons.2 hpasses g hg
  · refine Bustle.play_of_each (Floor.Same.steps fun g : Floor Rooms => g.store.readiness room other)
      (w := .idle f) (fun _ h => nomatch h) fun a ha => ?_
    obtain ⟨code, user, raw, rfl, hne⟩ := hall a ha
    exact (within_receive_of_ne hne raw).discard

def nextDoor : RoomCode := ⟨"6", by decide⟩

def parlours : Floor Rooms :=
  { parlour with store := ⟨parlour.store.rooms.insert nextDoor
      ⟨⟨nextDoor, .waiting, 6, 2⟩, [⟨2, "Bo", false⟩, ⟨1, "Ann", false⟩]⟩⟩ }

def plainly : String := "\x7b\"is_ready\":true\x7d"

def naming : String := " \x7b\"user\":[2],\"is_ready\" :true,\"room_code\":\"6\"\x7d"

theorem frames_speak_for_their_connection_parlours :
    let g := ((receive parlourRoom 1 naming).run parlours).2
    ReadyUpdate.parse plainly = .ok ⟨none, true⟩ ∧ ReadyUpdate.parse naming = .ok ⟨some "6", true⟩ ∧
    (receive parlourRoom 1 plainly).run parlours = (receive parlourRoom 1 naming).run parlours ∧
    g.store.readiness parlourRoom 1 = [true] ∧ g.store.readiness nextDoor 1 = [false] ∧
    (Bustle.idle parlours).play [.begins (.lobby (.receives parlourRoom 1 plainly)), .goesOn 0] =
      (Bustle.idle parlours).play
        [.begins (.lobby (.receives parlourRoom 1 naming)), .goesOn 0] ∧
    ((Bustle.idle parlours).play [.begins (.lobby (.receives parlourRoom 1 naming)),
      .goesOn 0]).floor.store.readiness nextDoor 1 = [false] := by
  intro g
  have hplain : ReadyUpdate.parse plainly = .ok ⟨none, true⟩ := by decide +kernel
  have hnaming : ReadyUpdate.parse naming = .ok ⟨some "6", true⟩ := by decide +kernel
  have hne : (nextDoor, (1 : UserId)) ≠ (parlourRoom, 1) := by decide
  have hbefore : parlours.store.readiness nextDoor 1 = [false] := by decide
  obtain ⟨hsame, hplay, hothers, hall⟩ := frames_speak_for_their_connection
  refine ⟨hplain, hnaming, (hsame _ _ _ _ _ _ _ hplain hnaming rfl).1, by decide +kernel,
    (hothers _ _ _ _ _ _ hne g (run_mem_passes _ _)).trans hbefore, hplay _ _ _ ?_, ?_⟩
  · exact .cons (.begins (.frame parlourRoom 1 hplain hnaming rfl)) (.cons (.goesOn 0) .nil)
  · refine (hall parlours nextDoor 1 _ fun a ha => ?_).trans hbefore
    simp only [List.mem_cons, Turn.begins.injEq, reduceCtorEq, List.not_mem_nil, or_false] at ha
    exact ⟨parlourRoom, 1, naming, ha, hne⟩

end Lobby

end Cardroom
