import Cardroom.Proofs.KeyMap
import Cardroom.Proofs.Store.Edits
import Mathlib.Data.List.Induction
/-!
Who is a member of a room, read off the history of the store. The joining of a member is the change
that added them while they were no member, with nothing after it that took them out
(`History.Joined`). Members are listed by their joinings, the host first, and are ready if the last
change since then says so (`History.Roll`); the store holds just this (`memberships_exact`).
-/

namespace Cardroom

/-! ### What a history says -/

namespace Edit

def store (acts : List Edit) : Rooms := acts.foldl (fun s e => e.apply s) Rooms.empty

theorem store_snoc (acts : List Edit) (e : Edit) : store (acts ++ [e]) = e.apply (store acts) :=
  List.foldl_concat ..

variable (code : RoomCode) (u : UserId)

def owner? : Edit → Option UserId
  | create room => if room.code = code then some room.owner else none
  | setOwner c owner => if c = code then some owner else none
  | addMember .. | removeMember .. | setStatus .. | setReady .. => none

def takes? : Edit → Option Bool
  | create room => if room.code = code then some false else none
  | addMember c v _ => if c = code ∧ v = u then some true else none
  | removeMember c v => if c = code ∧ v = u then some false else none
  | setOwner .. | setStatus .. | setReady .. => none

def ready? : Edit → Option Bool
  | setReady c v ready => if c = code ∧ v = u then some ready else none
  | create _ | addMember .. | removeMember .. | setOwner .. | setStatus .. => none

theorem takes?_addMember (c : RoomCode) (v : UserId) (name : String) :
    (addMember c v name).takes? code u ≠ some false := by
  rw [takes?]
  split <;> simp

end Edit

namespace History

variable {α : Type} {code : RoomCode} {u : UserId} {name : String}
variable {acts before after : List Edit} {e : Edit}

def latest? (view : Edit → Option α) (acts : List Edit) : Option α := (acts.filterMap view).getLast?

theorem latest?_snoc (view : Edit → Option α) (acts : List Edit) (e : Edit) :
    latest? view (acts ++ [e]) = (view e).or (latest? view acts) := by
  rw [latest?, latest?, List.filterMap_append, List.getLast?_append]
  cases h : view e <;> simp [h]

theorem latest?_snoc_of_none {view : Edit → Option α} (h : view e = none) (acts : List Edit) :
    latest? view (acts ++ [e]) = latest? view acts := by
  rw [latest?_snoc, h, Option.none_or]

def Known (code : RoomCode) (acts : List Edit) : Prop :=
  ∃ room, .create room ∈ acts ∧ room.code = code

/-- The last that was said of the user's membership is that they be taken in. -/
def belongs (code : RoomCode) (u : UserId) (acts : List Edit) : Bool :=
  (latest? (Edit.takes? code u) acts).getD false

/-- The latest joining of a member, with what came before it and after it. -/
structure Joined (code : RoomCode) (u : UserId) (name : String)
    (acts before after : List Edit) : Prop where
  split : acts = before ++ .addMember code u name :: after
  known : Known code before
  new : belongs code u before = false
  stays : ∀ e ∈ after, e.takes? code u ≠ some false

structure Roll (code : RoomCode) (acts : List Edit) (l : List Member) : Prop where
  once : (l.map Member.user).Nodup
  listed : ∀ u, u ∈ l.map Member.user ↔
    ∃ name before after, Joined code u name acts before after
  entry : ∀ m ∈ l, ∃ before after, Joined code m.user m.name acts before after ∧
    m.isReady = (latest? (Edit.ready? code m.user) after).getD false
  host : ∀ m ∈ l, m.isHost = true ↔ latest? (Edit.owner? code) acts = some m.user
  order : l.Pairwise fun m n => n.isHost = false ∧ (m.isHost = false → ∀ b a b' a',
    Joined code m.user m.name acts b a → Joined code n.user n.name acts b' a' →
      b.length < b'.length)

theorem known_snoc :
    Known code (acts ++ [e]) ↔ Known code acts ∨ ∃ room, e = .create room ∧ room.code = code := by
  simp only [Known, List.mem_append, List.mem_singleton, or_and_right, exists_or]
  exact or_congr_right (exists_congr fun room => and_congr_left fun _ => eq_comm)

theorem belongs_snoc :
    belongs code u (acts ++ [e]) = (e.takes? code u).getD (belongs code u acts) := by
  rw [belongs, latest?_snoc]
  cases e.takes? code u <;> rfl

theorem belongs_of_stays (h : ∀ e ∈ after, e.takes? code u ≠ some false) :
    belongs code u (before ++ .addMember code u name :: after) = true := by
  induction after using List.reverseRecOn with
  | nil => rw [belongs_snoc, Edit.takes?, if_pos ⟨rfl, rfl⟩, Option.getD_some]
  | append_singleton after e ih =>
    have hlast := h e (by simp)
    rw [← List.cons_append, ← List.append_assoc, belongs_snoc,
      ih fun d hd => h d (List.mem_append_left _ hd)]
    cases he : e.takes? code u with
    | none => rfl
    | some b =>
      cases b with
      | false => exact absurd he hlast
      | true => rfl

theorem Joined.belongs (h : Joined code u name acts before after) : belongs code u acts = true := by
  rw [h.split]
  exact belongs_of_stays h.stays

theorem Joined.snoc (h : Joined code u name acts before after) (he : e.takes? code u ≠ some false) :
    Joined code u name (acts ++ [e]) before (after ++ [e]) where
  split := by rw [h.split, List.append_assoc, List.cons_append]
  known := h.known
  new := h.new
  stays d hd := by
    rcases List.mem_append.1 hd with hd | hd
    · exact h.stays d hd
    · rwa [List.mem_singleton.1 hd]

theorem Joined.length_le {name' : String} {before' after' : List Edit}
    (h : Joined code u name acts before after) (h' : Joined code u name' acts before' after') :
    before'.length ≤ before.length := by
  obtain ⟨mid, rfl, e⟩ | ⟨mid, rfl, -⟩ := List.append_eq_append_iff.1 (h.split.symm.trans h'.split)
  · cases mid with
    | nil => simp
    | cons d mid =>
      -- the user joined at `d` and has been a member since
      obtain ⟨rfl, rfl⟩ := List.cons.inj e
      have hstays : ∀ x ∈ mid, x.takes? code u ≠ some false := fun x hx =>
        h.stays x (List.mem_append_left _ hx)
      exact absurd (belongs_of_stays hstays) (by rw [h'.new]; nofun)
  · simp

theorem Joined.known_acts (h : Joined code u name acts before after) : Known code acts := by
  obtain ⟨room, hroom, hcode⟩ := h.known
  exact ⟨room, h.split ▸ List.mem_append_left _ hroom, hcode⟩

/-! ### What is stored of it -/

/-- The member joined after so many changes and is ready or not as the changes since then say. -/
def Since (code : RoomCode) (acts : List Edit) (m : Membership) (n : Nat) : Prop :=
  ∃ before after, before.length = n ∧ Joined code m.user m.name acts before after ∧
    m.isReady = (latest? (Edit.ready? code m.user) after).getD false

theorem Since.snoc {m : Membership} {n : Nat} (h : Since code acts m n)
    (he : e.takes? code m.user ≠ some false) :
    Since code (acts ++ [e]) { m with isReady := (e.ready? code m.user).getD m.isReady } n := by
  obtain ⟨before, after, hn, hj, hready⟩ := h
  refine ⟨before, after ++ [e], hn, hj.snoc he, ?_⟩
  rw [latest?_snoc, hready]
  cases e.ready? code m.user <;> rfl

theorem Since.lt_length {m : Membership} {n : Nat} (h : Since code acts m n) : n < acts.length := by
  obtain ⟨before, after, rfl, hj, -⟩ := h
  rw [hj.split, List.length_append, List.length_cons]
  omega

def Standing (code : RoomCode) (acts : List Edit) (l : List Membership) : Prop :=
  ∃ start : UserId → Nat, (∀ m ∈ l, Since code acts m (start m.user)) ∧
    l.Pairwise fun m n => start m.user < start n.user

namespace Standing

variable {l r : List Membership}

theorem nil : Standing code acts [] := ⟨fun _ => 0, nofun, .nil⟩

theorem sublist (h : Standing code acts l) (hr : r.Sublist l) : Standing code acts r := by
  obtain ⟨start, hsince, horder⟩ := h
  exact ⟨start, fun m hm => hsince m (hr.subset hm), horder.sublist hr⟩

theorem snoc (h : Standing code acts l) (he : ∀ m ∈ l, e.takes? code m.user ≠ some false) :
    Standing code (acts ++ [e])
      (l.map fun m => { m with isReady := (e.ready? code m.user).getD m.isReady }) := by
  obtain ⟨start, hsince, horder⟩ := h
  refine ⟨start, fun m' hm' => ?_, List.pairwise_map.2 horder⟩
  obtain ⟨m, hm, rfl⟩ := List.mem_map.1 hm'
  exact (hsince m hm).snoc (he m hm)

theorem snoc_same (h : Standing code acts l) (he : ∀ m ∈ l, e.takes? code m.user ≠ some false)
    (hr : ∀ u, e.ready? code u = none) : Standing code (acts ++ [e]) l := by
  have hsnoc := h.snoc he
  simp only [hr, Option.getD_none] at hsnoc
  rwa [List.map_id'] at hsnoc

theorem join (h : Standing code acts l) (hk : Known code acts) (hu : u ∉ l.map Membership.user)
    (hb : belongs code u acts = false) (name : String) :
    Standing code (acts ++ [.addMember code u name]) (l ++ [⟨u, name, false⟩]) := by
  have hne : ∀ m ∈ l, m.user ≠ u := fun m hm hmu => hu (List.mem_map.2 ⟨m, hm, hmu⟩)
  obtain ⟨start, hsince, horder⟩ := h
  have hstart : ∀ m ∈ l, Function.update start u acts.length m.user = start m.user := fun m hm =>
    Function.update_of_ne (hne m hm) _ _
  refine ⟨Function.update start u acts.length, fun m hm => ?_, List.pairwise_append.2 ⟨?_, ?_, ?_⟩⟩
  · rcases List.mem_append.1 hm with hm | hm
    · rw [hstart m hm]
      exact (hsince m hm).snoc (Edit.takes?_addMember code m.user code u name)
    · rw [List.mem_singleton.1 hm, Function.update_self]
      exact ⟨acts, [], rfl, ⟨rfl, hk, hb, nofun⟩, rfl⟩
  · refine horder.imp_of_mem fun {m n} hm hn hlt => ?_
    rwa [hstart m hm, hstart n hn]
  · exact List.pairwise_singleton ..
  · intro m hm n hn
    rw [hstart m hm, List.mem_singleton.1 hn, Function.update_self]
    exact (hsince m hm).lt_length

end Standing

end History

namespace Edit

def change : Edit → RoomEntry → RoomEntry
  | create room, _ => ⟨room, []⟩
  | addMember _ u name, e => e.join u name
  | removeMember _ u, e => e.leave u
  | setOwner _ owner, e => { e with room := { e.room with owner := owner } }
  | setStatus _ status, e => { e with room := { e.room with status := status } }
  | setReady _ u ready, e => e.setReady u ready

variable {s : Rooms} {x : Edit}

def alters : Edit → Bool
  | create _ => false
  | addMember .. | removeMember .. | setOwner .. | setStatus .. | setReady .. => true

theorem apply_of_alters (h : x.alters = true) (s : Rooms) :
    x.apply s = (s.update x.code x.change).toOption.getD s := by
  cases x with
  | create room => cases h
  | removeMember code u =>
    rw [apply, Rooms.removeMember]
    show _ = (s.update code (·.leave u)).toOption.getD s
    cases s.update code (·.leave u) <;> rfl
  | addMember code u name => rfl
  | setOwner code owner => rfl
  | setStatus code status => rfl
  | setReady code u ready => rfl

theorem answer_of_alters (h : x.alters = true) (hs : s.entry? x.code = none) :
    x.answer s = .error (.roomNotFound x.code) := by
  have hupdate : ∀ g, s.update x.code g = .error (.roomNotFound x.code) := fun g => by
    rw [Rooms.update, hs]
  cases x with
  | create room => cases h
  | addMember code u name => exact congrArg (Except.map fun _ => true) (hupdate _)
  | removeMember code u =>
    rw [answer, Rooms.removeMember]
    exact congrArg (fun r => Except.map Prod.fst (Except.map _ r)) (hupdate _)
  | setOwner code owner => exact congrArg (Except.map fun _ => true) (hupdate _)
  | setStatus code status => exact congrArg (Except.map fun _ => true) (hupdate _)
  | setReady code u ready => exact congrArg (Except.map fun _ => true) (hupdate _)

theorem entry?_of_alters (h : x.alters = true) (s : Rooms) :
    Rooms.entry? (x.apply s) x.code = (s.entry? x.code).map x.change := by
  rw [apply_of_alters h]
  cases hu : s.update x.code x.change with
  | ok t => exact (Rooms.entry?_of_update hu x.code).trans (if_pos rfl)
  | error e =>
    rw [Rooms.update] at hu
    cases he : s.entry? x.code with
    | none => exact he
    | some r =>
      rw [he] at hu
      cases hu

theorem quiet_of_ne {code : RoomCode} (h : x.code ≠ code) :
    x.owner? code = none ∧ ∀ u, x.takes? code u = none ∧ x.ready? code u = none := by
  cases x with
  | create room => exact ⟨if_neg h, fun u => ⟨if_neg h, rfl⟩⟩
  | addMember c v name => exact ⟨rfl, fun u => ⟨if_neg fun e => h e.1, rfl⟩⟩
  | removeMember c v => exact ⟨rfl, fun u => ⟨if_neg fun e => h e.1, rfl⟩⟩
  | setOwner c owner => exact ⟨if_neg h, fun u => ⟨rfl, rfl⟩⟩
  | setStatus c status => exact ⟨rfl, fun u => ⟨rfl, rfl⟩⟩
  | setReady c v ready => exact ⟨rfl, fun u => ⟨rfl, if_neg fun e => h e.1⟩⟩

end Edit

namespace History

variable {code : RoomCode} {acts : List Edit} {e : RoomEntry} {x : Edit}

/-- The entry of a room holds what the history says of it. -/
structure Stored (code : RoomCode) (acts : List Edit) (e : RoomEntry) : Prop where
  known : Known code acts
  owner : latest? (Edit.owner? code) acts = some e.room.owner
  distinct : e.Distinct
  belongs : ∀ u, e.has u = belongs code u acts
  standing : Standing code acts e.joined

theorem Stored.elsewhere (h : Stored code acts e) (hx : x.code ≠ code) :
    Stored code (acts ++ [x]) e := by
  obtain ⟨howner, hquiet⟩ := Edit.quiet_of_ne hx
  exact {
    known := known_snoc.2 (.inl h.known)
    owner := (latest?_snoc_of_none howner acts).trans h.owner
    distinct := h.distinct
    belongs := fun u => by rw [belongs_snoc, (hquiet u).1, Option.getD_none, h.belongs]
    standing := h.standing.snoc_same (fun m _ => by simp [(hquiet m.user).1])
      fun u => (hquiet u).2 }

theorem stored_create (acts : List Edit) (room : Room) :
    Stored room.code (acts ++ [.create room]) ⟨room, []⟩ where
  known := known_snoc.2 (.inr ⟨room, rfl, rfl⟩)
  owner := by rw [latest?_snoc, Edit.owner?, if_pos rfl, Option.some_or]
  distinct := List.nodup_nil
  belongs u := by rw [belongs_snoc, Edit.takes?, if_pos rfl]; rfl
  standing := .nil

theorem Stored.alters (h : Stored x.code acts e) (hx : x.alters = true) :
    Stored x.code (acts ++ [x]) (x.change e) := by
  have hknown : Known x.code (acts ++ [x]) := known_snoc.2 (.inl h.known)
  cases x with
  | create room => cases hx
  | addMember code u name =>
    refine ⟨hknown, ?_, h.distinct.join u name, fun v => ?_, ?_⟩
    · rw [latest?_snoc_of_none rfl, Edit.change, RoomEntry.room_join]
      exact h.owner
    · rw [Edit.change, RoomEntry.has_join, belongs_snoc, ← h.belongs, Edit.takes?]
      by_cases huv : u = v <;> simp [huv, Edit.code]
    · rw [Edit.change, RoomEntry.join]
      split
      · exact h.standing.snoc_same (fun m _ => Edit.takes?_addMember code m.user code u name)
          fun _ => rfl
      · rename_i hu
        refine h.standing.join h.known (fun hmem => hu (RoomEntry.has_iff.2 hmem)) ?_ name
        rw [← h.belongs]
        exact Bool.eq_false_iff.2 hu
  | removeMember code u =>
    refine ⟨hknown, ?_, h.distinct.leave u, fun v => ?_, ?_⟩
    · rw [latest?_snoc_of_none rfl]
      exact h.owner
    · rw [Edit.change, RoomEntry.has_leave, belongs_snoc, ← h.belongs, Edit.takes?]
      by_cases huv : u = v <;> simp [huv, Edit.code]
    · refine (h.standing.sublist List.filter_sublist).snoc_same (fun m hm => ?_) fun _ => rfl
      have hne : m.user ≠ u := of_decide_eq_true (List.mem_filter.1 hm).2
      rw [Edit.takes?, if_neg fun e => hne e.2.symm]
      exact (Option.some_ne_none false).symm
  | setOwner code owner =>
    refine ⟨hknown, ?_, h.distinct, fun v => ?_,
      h.standing.snoc_same (fun _ _ => (Option.some_ne_none false).symm) fun _ => rfl⟩
    · rw [latest?_snoc, Edit.owner?, Edit.code, if_pos rfl, Option.some_or, Edit.change]
    · rw [belongs_snoc]
      exact h.belongs v
  | setStatus code status =>
    refine ⟨hknown, ?_, h.distinct, fun v => ?_,
      h.standing.snoc_same (fun _ _ => (Option.some_ne_none false).symm) fun _ => rfl⟩
    · rw [latest?_snoc_of_none rfl]
      exact h.owner
    · rw [belongs_snoc]
      exact h.belongs v
  | setReady code u ready =>
    refine ⟨hknown, ?_, h.distinct.setReady u ready, fun v => ?_, ?_⟩
    · rw [latest?_snoc_of_none rfl]
      exact h.owner
    · rw [belongs_snoc, Edit.change, RoomEntry.has_setReady]
      exact h.belongs v
    · have hmap : (e.setReady u ready).joined = e.joined.map fun m => { m with
          isReady := ((Edit.setReady code u ready).ready? code m.user).getD m.isReady } := by
        refine List.map_congr_left fun m _ => ?_
        rw [Edit.ready?]
        by_cases hmu : u = m.user
        · simp [hmu]
        · simp [hmu, Ne.symm hmu]
      rw [Edit.change, hmap]
      exact h.standing.snoc fun _ _ => (Option.some_ne_none false).symm

/-- Whatever has happened to the store, a room is there if it has been created, and it is as its
history says. -/
theorem stored_store (acts : List Edit) (code : RoomCode) :
    (¬ Known code acts ∧ Rooms.entry? (Edit.store acts) code = none) ∨
    ∃ e, Rooms.entry? (Edit.store acts) code = some e ∧ Stored code acts e := by
  -- the last change creates the room, or alters its entry, or is one to another room
  induction acts using List.reverseRecOn with
  | nil => exact .inl ⟨fun ⟨_, h, _⟩ => List.not_mem_nil h, rfl⟩
  | append_singleton acts x ih =>
    rw [Edit.store_snoc]
    by_cases hx : x.code = code
    · subst hx
      cases ha : x.alters with
      | false =>
        cases x with
        | create room =>
          exact .inr ⟨_, (Rooms.entry?_create ..).trans (if_pos rfl), stored_create acts room⟩
        | _ => cases ha
      | true =>
        rw [Edit.entry?_of_alters ha]
        obtain ⟨hk, hnone⟩ | ⟨e, he, hs⟩ := ih
        · refine .inl ⟨fun h => ?_, by rw [hnone, Option.map_none]⟩
          obtain h | ⟨room, rfl, -⟩ := known_snoc.1 h
          · exact hk h
          · cases ha
        · exact .inr ⟨x.change e, by rw [he, Option.map_some], hs.alters ha⟩
    · rw [Edit.entry?_apply x (Ne.symm hx)]
      refine ih.imp (fun ⟨hk, hnone⟩ => ⟨fun h => ?_, hnone⟩) fun ⟨e, he, hs⟩ =>
        ⟨e, he, hs.elsewhere hx⟩
      obtain h | ⟨room, rfl, hroom⟩ := known_snoc.1 h
      · exact hk h
      · exact hx hroom

/-! ### What is listed of it -/

theorem users_members (e : RoomEntry) :
    (e.members.map Member.user).Perm (e.joined.map Membership.user) := by
  have hperm : e.members.Perm (e.joined.map e.member) := List.filter_append_perm ..
  have husers : (e.joined.map e.member).map Member.user = e.joined.map Membership.user :=
    List.map_map
  exact husers ▸ hperm.map Member.user

theorem mem_members {m : Member} : m ∈ e.members ↔ ∃ r ∈ e.joined, e.member r = m := by
  have hperm : e.members.Perm (e.joined.map e.member) := List.filter_append_perm ..
  rw [hperm.mem_iff, List.mem_map]

theorem isHost_member (e : RoomEntry) (r : Membership) :
    (e.member r).isHost = true ↔ r.user = e.room.owner := decide_eq_true_iff

/-- Of two members of whom the second is no host, the second has joined later. -/
theorem order_members (h : Stored code acts e) :
    e.members.Pairwise fun m n => n.isHost = false ∧ (m.isHost = false → ∀ b a b' a',
      Joined code m.user m.name acts b a → Joined code n.user n.name acts b' a' →
        b.length < b'.length) := by
  obtain ⟨start, hsince, horder⟩ := h.standing
  have hstart : ∀ r ∈ e.joined, ∀ b a, Joined code r.user r.name acts b a →
      b.length = start r.user := by
    intro r hr b a hj
    obtain ⟨b', a', hb, hj', -⟩ := hsince r hr
    rw [← hb]
    exact Nat.le_antisymm (hj'.length_le hj) (hj.length_le hj')
  have hhosts : ∀ m ∈ (e.joined.map e.member).filter (·.isHost), m.user = e.room.owner := by
    intro m hm
    obtain ⟨hm, hhost⟩ := List.mem_filter.1 hm
    obtain ⟨r, -, rfl⟩ := List.mem_map.1 hm
    exact (isHost_member e r).1 hhost
  refine List.pairwise_append.2 ⟨?_, ?_, fun m hm n hn => ?_⟩
  · -- there are no two hosts
    have hnodup : ((e.joined.map e.member).filter (·.isHost)).Pairwise
        fun m n => m.user ≠ n.user := by
      refine List.Pairwise.sublist List.filter_sublist (List.pairwise_map.2 ?_)
      exact List.pairwise_map.1 h.distinct
    refine hnodup.imp_of_mem fun {m n} hm hn hne => ?_
    exact absurd ((hhosts m hm).trans (hhosts n hn).symm) hne
  · have hlater : (e.joined.map e.member).Pairwise fun m n => ∀ b a b' a',
        Joined code m.user m.name acts b a → Joined code n.user n.name acts b' a' →
          b.length < b'.length := by
      refine List.pairwise_map.2 (horder.imp_of_mem fun {m n} hm hn hlt b a b' a' hj hj' => ?_)
      rw [hstart m hm b a hj, hstart n hn b' a' hj']
      exact hlt
    refine (hlater.sublist List.filter_sublist).imp_of_mem fun {m n} _ hn hlt => ⟨?_, fun _ => hlt⟩
    simpa using (List.mem_filter.1 hn).2
  · refine ⟨by simpa using (List.mem_filter.1 hn).2, fun hm' => ?_⟩
    exact absurd (List.mem_filter.1 hm).2 (by simp [hm'])

theorem Stored.roll (h : Stored code acts e) : Roll code acts e.members where
  once := (users_members e).nodup_iff.2 h.distinct
  listed u := by
    rw [(users_members e).mem_iff]
    constructor
    · intro hu
      obtain ⟨r, hr, rfl⟩ := List.mem_map.1 hu
      obtain ⟨start, hsince, -⟩ := h.standing
      obtain ⟨b, a, -, hj, -⟩ := hsince r hr
      exact ⟨r.name, b, a, hj⟩
    · rintro ⟨name, b, a, hj⟩
      rw [← RoomEntry.has_iff, h.belongs]
      exact hj.belongs
  entry m hm := by
    obtain ⟨r, hr, rfl⟩ := mem_members.1 hm
    obtain ⟨start, hsince, -⟩ := h.standing
    obtain ⟨b, a, -, hj, hready⟩ := hsince r hr
    exact ⟨b, a, hj, hready⟩
  host m hm := by
    obtain ⟨r, hr, rfl⟩ := mem_members.1 hm
    rw [isHost_member, h.owner, Option.some.injEq]
    exact eq_comm
  order := order_members h

theorem roll_of_unknown (h : ¬ Known code acts) : Roll code acts [] where
  once := List.nodup_nil
  listed _ := iff_of_false List.not_mem_nil fun ⟨_, _, _, hj⟩ => h hj.known_acts
  entry _ hm := nomatch hm
  host _ hm := nomatch hm
  order := .nil

end History

namespace Edit

theorem apply_addMember_of_isMember {s : Rooms} {code : RoomCode} {u : UserId}
    (h : s.isMember code u = true) (name : String) : (addMember code u name).apply s = s := by
  obtain ⟨e, he, hu⟩ := (Option.any_eq_true ..).1 h
  have hjoin : e.join u name = e := if_pos hu
  have hrooms : s.rooms.get? code = some e := he
  show (s.update code (·.join u name)).toOption.getD s = s
  rw [Rooms.update, he]
  show Rooms.mk (s.rooms.insert code (e.join u name)) = s
  rw [hjoin, KeyMap.insert_of_get? hrooms]

end Edit

section

open History

/-- After any history the store lists the members of each room as the history says, and says of the
same users that they are members. A room that is created has no members; whoever is taken out is
said to have been a member if they were one; and who is taken in again while a member stays as they
are. What fails because the room is not known changes nothing, and a change to one room leaves all
others alone. -/
theorem memberships_exact (acts : List Edit) :
    let s := Edit.store acts
    (∀ code, ∃ l, RoomStore.members s code = .ok l ∧ Roll code acts l ∧
      ∀ u, RoomStore.isMember s code u = .ok (decide (u ∈ l.map Member.user))) ∧
    (∀ room, RoomStore.members (s.create room) room.code = .ok []) ∧
    (∀ code u, Known code acts →
      (Edit.removeMember code u).answer s = RoomStore.isMember s code u) ∧
    (∀ code u name, RoomStore.isMember s code u = .ok true →
      (Edit.addMember code u name).apply s = s) ∧
    (∀ x : Edit, (∀ room, x ≠ .create room) → ¬ Known x.code acts →
      x.answer s = .error (.roomNotFound x.code) ∧ x.apply s = s) ∧
    ∀ (x : Edit) other, other ≠ x.code → Rooms.entry? (x.apply s) other = s.entry? other := by
  intro s
  have halters : ∀ x : Edit, (∀ room, x ≠ .create room) → x.alters = true := by
    intro x hx
    cases x with
    | create room => exact absurd rfl (hx room)
    | _ => rfl
  refine ⟨fun code => ⟨_, rfl, ?_⟩, fun room => ?_, fun code u hk => ?_, fun code u name h => ?_,
    fun x hx hk => ?_, fun x other hne => Edit.entry?_apply x hne⟩
  · obtain ⟨hk, hnone⟩ | ⟨e, he, hs⟩ := stored_store acts code
    · have hmembers : s.members code = [] := by rw [Rooms.members, hnone, Option.elim_none]
      rw [hmembers]
      refine ⟨roll_of_unknown hk, fun u => congrArg Except.ok ?_⟩
      rw [Rooms.isMember, hnone]
      rfl
    · have hmembers : s.members code = e.members := by rw [Rooms.members, he, Option.elim_some]
      rw [hmembers]
      refine ⟨hs.roll, fun u => congrArg Except.ok ?_⟩
      rw [Rooms.isMember, he, Option.any_some, Bool.eq_iff_iff, RoomEntry.has_iff,
        decide_eq_true_eq, (users_members e).mem_iff]
  · show Except.ok (Rooms.members (s.create room) room.code) = _
    rw [Rooms.members, Rooms.entry?_create, if_pos rfl]
    rfl
  · obtain ⟨hn, -⟩ | ⟨e, he, -⟩ := stored_store acts code
    · exact absurd hk hn
    · have hupdate : ∀ g, s.update code g = .ok ⟨s.rooms.insert code (g e)⟩ := fun g => by
        rw [Rooms.update, he]
      rw [Edit.answer, Rooms.removeMember, hupdate]
      rfl
  · exact Edit.apply_addMember_of_isMember (Except.ok.inj h) name
  · obtain ⟨-, hnone⟩ | ⟨e, -, hs⟩ := stored_store acts x.code
    · refine ⟨Edit.answer_of_alters (halters x hx) hnone, ?_⟩
      rw [Edit.apply_of_alters (halters x hx), Rooms.update, hnone]
      rfl
    · exact absurd hs.known hk

def clubRoom : Room := ⟨⟨"12", by decide⟩, .waiting, 4, 3⟩

/-- A member of the club leaves and comes back under another name; the other one is ready. -/
def clubEvening : List Edit :=
  [.create clubRoom, .addMember clubRoom.code 1 "Ann", .addMember clubRoom.code 2 "Bo",
    .removeMember clubRoom.code 1, .setReady clubRoom.code 2 true,
    .addMember clubRoom.code 1 "Anna"]

theorem memberships_exact_club :
    let s := Edit.store clubEvening
    RoomStore.members s clubRoom.code = .ok [⟨2, "Bo", true, false⟩, ⟨1, "Anna", false, false⟩] ∧
    (Edit.removeMember clubRoom.code 1).answer s = .ok true ∧
    (Edit.addMember clubRoom.code 2 "Bob").apply s = s ∧
    (Edit.setOwner ⟨"13", by decide⟩ 1).apply s = s := by
  intro s
  obtain ⟨-, -, hremove, hadd, hunknown, -⟩ := memberships_exact clubEvening
  have hknown : Known clubRoom.code clubEvening := ⟨clubRoom, List.mem_cons_self, rfl⟩
  have hother : ¬ Known ⟨"13", by decide⟩ clubEvening := by
    rintro ⟨room, hroom, hcode⟩
    simp [clubEvening] at hroom
    subst hroom
    exact absurd hcode (by decide)
  exact ⟨by rfl, (hremove clubRoom.code 1 hknown).trans (by rfl), hadd _ 2 "Bob" (by rfl),
    (hunknown (.setOwner ⟨"13", by decide⟩ 1) nofun hother).2⟩

end

end Cardroom
