import Cardroom.Proofs.Floor.Leaving

namespace Cardroom

variable {σ : Type}

open Script

namespace Act

def enters (side : Side) (code : RoomCode) (id : ConnId) : Act σ :=
  match side with
  | .lobby => .lobby (.enters code id)
  | .table => .table (.joins code id)

def leaves (side : Side) (code : RoomCode) (id : ConnId) : Act σ :=
  match side with
  | .lobby => .lobby (.leaves code id)
  | .table => .table (.leaves code id)

theorem hands?_eq_some {a : Act σ} {side : Side} {code : RoomCode} {id : ConnId} :
    a.hands? = some (side, code, id) ↔ a = enters side code id := by
  constructor
  · intro h
    cases a with
    | lobby a => cases a <;> cases h; rfl
    | table a => cases a <;> cases h; rfl
    | _ => cases h
  · rintro rfl
    cases side <;> rfl

theorem handed?_enters (side : Side) (code : RoomCode) (id : ConnId) :
    (enters side code id : Act σ).handed? = some id := by
  cases side <;> rfl

theorem handed?_eq_some {a : Act σ} {id : ConnId} (h : a.handed? = some id) :
    ∃ side code, a = enters side code id := by
  obtain ⟨⟨side, code, x⟩, hands, rfl⟩ := Option.map_eq_some_iff.1 h
  exact ⟨side, code, hands?_eq_some.1 hands⟩

/-- Connections are opened before they are handed over, which happens to each only once, and clients
close a connection only after it has been let in somewhere and out again. -/
structure Careful (acts : List (Act σ)) : Prop where
  opened : ∀ pre a post id, acts = pre ++ a :: post → a.handed? = some id →
    ∃ user sink, .client (.opens id user sink) ∈ pre
  once : (acts.filterMap handed?).Nodup
  closed : ∀ pre id post, acts = pre ++ .client (.closes id) :: post →
    ∃ side code, [enters side code id, leaves side code id].Sublist pre

theorem careful_nil : Careful ([] : List (Act σ)) where
  opened pre a post _ h := by simp at h
  once := .nil
  closed pre _ post h := by simp at h

theorem split_snoc {acts pre post : List (Act σ)} {a b : Act σ}
    (e : acts ++ [a] = pre ++ b :: post) :
    (pre = acts ∧ b = a) ∨ ∃ more, acts = pre ++ b :: more := by
  obtain rfl | ⟨more, c, rfl⟩ := post.eq_nil_or_concat
  · obtain ⟨rfl, h⟩ := List.append_inj' e rfl
    exact .inl ⟨rfl, (List.singleton_inj.1 h).symm⟩
  · rw [List.concat_eq_append, ← List.cons_append, ← List.append_assoc] at e
    exact .inr ⟨more, (List.append_inj' e rfl).1⟩

theorem Careful.snoc {acts : List (Act σ)} {a : Act σ} (h : Careful acts)
    (ho : ∀ id, a.handed? = some id →
      (∃ user sink, .client (.opens id user sink) ∈ acts) ∧ id ∉ acts.filterMap handed?)
    (hc : ∀ id, a = .client (.closes id) →
      ∃ side code, [enters side code id, leaves side code id].Sublist acts) :
    Careful (acts ++ [a]) where
  opened pre b post id e hb := by
    obtain ⟨rfl, rfl⟩ | ⟨more, e⟩ := split_snoc e
    · exact (ho id hb).1
    · exact h.opened pre b more id e hb
  once := by
    rw [List.filterMap_append, List.nodup_append]
    refine ⟨h.once, ?_, fun x hx y hy e => ?_⟩
    · cases ha : a.handed? <;> simp [ha]
    · obtain ⟨b, hb, hy⟩ := List.mem_filterMap.1 hy
      cases List.mem_singleton.1 hb
      exact (ho y hy).2 (e ▸ hx)
  closed pre id post e := by
    obtain ⟨rfl, ha⟩ | ⟨more, e⟩ := split_snoc e
    · exact hc id ha.symm
    · exact h.closed pre id more e

theorem Careful.append_plain {acts more : List (Act σ)} (h : Careful acts)
    (hmore : ∀ a ∈ more, a.handed? = none ∧ ∀ id, a ≠ .client (.closes id)) :
    Careful (acts ++ more) := by
  induction more using List.reverseRecOn with
  | nil => rwa [List.append_nil]
  | append_singleton more a ih =>
    obtain ⟨hhands, hcloses⟩ := hmore a (List.mem_append_right more (List.mem_singleton_self a))
    rw [← List.append_assoc]
    refine (ih fun b hb => hmore b (List.mem_append_left _ hb)).snoc (fun id e => ?_) fun id e => ?_
    · rw [hhands] at e
      cases e
    · exact absurd e (hcloses id)

theorem Careful.hand {acts : List (Act σ)} (h : Careful acts) (side : Side) (code : RoomCode)
    (id : ConnId) (ho : ∃ user sink, .client (.opens id user sink) ∈ acts)
    (hn : id ∉ acts.filterMap handed?) : Careful (acts ++ [enters side code id]) := by
  refine h.snoc (fun x e => ?_) fun x e => by cases side <;> cases e
  rw [handed?_enters] at e
  cases e
  exact ⟨ho, hn⟩

theorem mem_handed {acts : List (Act σ)} {side : Side} {code : RoomCode} {id : ConnId}
    (h : .enters side code id ∈ acts) : id ∈ acts.filterMap handed? :=
  List.mem_filterMap.2 ⟨_, h, handed?_enters side code id⟩

theorem not_mem_handed {past post : List (Act σ)} {a : Act σ} {id : ConnId}
    (hn : ((past ++ a :: post).filterMap handed?).Nodup) (ha : a.handed? = some id) :
    id ∉ past.filterMap handed? := by
  rw [List.filterMap_append, List.filterMap_cons_some ha] at hn
  exact fun hmem => (List.nodup_append.1 hn).2.2 id hmem id List.mem_cons_self rfl

theorem enters_unique {acts : List (Act σ)} (hn : (acts.filterMap handed?).Nodup)
    {side other : Side} {code room : RoomCode} {id : ConnId} (h : .enters side code id ∈ acts)
    (h' : .enters other room id ∈ acts) : side = other ∧ code = room := by
  have hp := List.pairwise_filterMap.1 hn
  have hsymm : Std.Symm fun a b : Act σ => ∀ x, a.handed? = some x → ∀ y, b.handed? = some y →
      x ≠ y := ⟨fun _ _ hab y hy x hx => (hab x hx y hy).symm⟩
  by_contra hne
  have hacts : (enters side code id : Act σ) ≠ enters other room id := by
    intro e
    have hands := hands?_eq_some.2 e
    rw [hands?_eq_some.2 rfl] at hands
    cases hands
    exact hne ⟨rfl, rfl⟩
  exact hp.forall h h' hacts id (handed?_enters ..) id (handed?_enters ..) rfl

end Act

namespace Floor

variable {f : Floor σ} {past acts : List (Act σ)} {x : ConnId}

/-- Whoever attends has been handed over in the past. -/
def Known (past : List (Act σ)) (f : Floor σ) : Prop :=
  ∀ side code x, x ∈ (f.attendance side).present code → .enters side code x ∈ past

theorem known_new (config : Config) (secret : String) (store : σ) (entropy : Random.Source) :
    (new config secret store entropy).Known [] := by
  intro side _ _ h
  cases side <;> nomatch h

theorem Known.not_attends (h : f.Known past) (hx : x ∉ past.filterMap Act.handed?) :
    ¬ f.attends x := by
  rintro ⟨side, code, hmem⟩
  exact hx (Act.mem_handed (h side code x hmem))

theorem Known.perform [RoomStore σ] (h : f.Known past) (hf : f.Tidy) (a : Act σ) :
    (f.perform a).Known (past ++ [a]) := by
  intro side code x hx
  refine List.mem_append.2 ((mem_present_perform hf a hx).imp (h side code x) fun e => ?_)
  exact List.mem_singleton.2 (Act.hands?_eq_some.1 e).symm

structure Accounted (past : List (Act σ)) (f : Floor σ) : Prop where
  placed : f.Placed
  known : f.Known past
  untouched : ∀ x, x ∉ past.filterMap Act.handed? → ∀ c, f.connection? x = some c →
    c.closed = false
  opened : ∀ id user sink, .client (.opens id user sink) ∈ past → (f.connection? id).isSome
  left : ∀ side code x, [.enters side code x, .leaves side code x].Sublist past → ¬ f.attends x

theorem accounted_new (config : Config) (secret : String) (store : σ) (entropy : Random.Source) :
    (new config secret store entropy).Accounted [] where
  placed := placed_new config secret store entropy
  known := known_new config secret store entropy
  untouched _ _ _ h := nomatch h
  opened _ _ _ h := nomatch h
  left _ _ _ h := nomatch h.subset List.mem_cons_self

/-- The next act of a careful run is fit for the floor. -/
theorem Accounted.fit {a : Act σ} {post : List (Act σ)} (h : f.Accounted past)
    (hc : Act.Careful (past ++ a :: post)) : Fit f a where
  placed := h.placed
  handed id ha := by
    have hid := Act.not_mem_handed hc.once ha
    obtain ⟨user, sink, hopen⟩ := hc.opened past a post id rfl ha
    obtain ⟨c, hconn⟩ := Option.isSome_iff_exists.1 (h.opened id user sink hopen)
    refine ⟨h.known.not_attends hid, ?_⟩
    rw [isClosed, hconn]
    exact h.untouched id hid c hconn
  closes id ha := by
    subst ha
    obtain ⟨side, code, hs⟩ := hc.closed past id post rfl
    exact h.left side code id hs

variable [RoomStore σ]

/-! ### Runs of acts that are fit for what they find -/

/-- Each act of the run is fit for the floor that it finds. -/
def Fits (f : Floor σ) : List (Act σ) → Prop
  | [] => True
  | a :: acts => Fit f a ∧ (f.perform a).Fits acts

theorem Fits.placed_moments (hf : f.Placed) (h : f.Fits acts) : ∀ g ∈ f.moments acts, g.Placed := by
  refine List.forall_mem_cons.2 ⟨hf, ?_⟩
  induction acts generalizing f with
  | nil => exact nofun
  | cons a acts ih =>
    obtain ⟨hpass, hrun⟩ := (h.1.along.imp fun _ _ hs hp => (hs hp).1).holds hf
    exact List.forall_mem_append.2 ⟨hpass, ih hrun h.2⟩

/-- Who is not handed over in the run stays outside once outside. -/
theorem Fits.kept_moments (h : f.Fits acts) (hx : x ∉ acts.filterMap Act.handed?) :
    (f.moments acts).IsChain (Kept x) := by
  induction acts generalizing f with
  | nil => exact .singleton f
  | cons a acts ih =>
    have ha : a.handed? ≠ some x := fun e => hx (List.mem_filterMap.2 ⟨a, List.mem_cons_self, e⟩)
    have hacts : x ∉ acts.filterMap Act.handed? := fun h =>
      hx (((List.sublist_cons_self a acts).filterMap _).subset h)
    exact (Stays.kept h.1.along h.1.placed ha).isChain (ih h.2 hacts)

theorem Fits.passing_moments (h : f.Fits acts) (hout : ¬ f.attends x)
    (hn : (acts.filterMap Act.handed?).Nodup) : Passing x (f.moments acts) := by
  induction acts generalizing f with
  | nil => exact .of_chain (.singleton f)
  | cons a acts ih =>
    have hfirst : ∀ g ∈ [f], ¬ g.attends x := List.forall_mem_singleton.2 hout
    refine Passing.prepend hfirst ?_
    by_cases ha : a.handed? = some x
    · have hacts : x ∉ acts.filterMap Act.handed? := by
        rw [List.filterMap_cons_some ha] at hn
        exact (List.nodup_cons.1 hn).1
      exact h.1.passing ha (h.2.kept_moments hacts)
    · have hstays := Stays.kept h.1.along h.1.placed ha
      obtain ⟨hpass, hrun⟩ := (hstays.imp fun _ _ hk => hk.away).holds hout
      have hn' : (acts.filterMap Act.handed?).Nodup := by
        refine hn.sublist ?_
        exact (List.sublist_cons_self a acts).filterMap _
      exact .prepend hpass (ih h.2 hrun hn').tail

/-! ### Careful runs -/

theorem not_mem_present_leaves (hf : f.Tidy) (side : Side) (code : RoomCode) (x : ConnId) :
    x ∉ ((f.perform (.leaves side code x)).attendance side).present code := by
  have hout : ∀ {g : Floor σ}, g.Tidy →
      x ∉ (((Delivery.unregister side code x).run g).2.attendance side).present code := by
    intro g hg h
    rw [Delivery.attendance_unregister, Attendance.mem_present_leave (hg side)] at h
    exact h.2 ⟨rfl, rfl⟩
  cases side with
  | table =>
    change x ∉ (((Tableside.leave code x).run f).2.attendance .table).present code
    rw [Tableside.leave, run_discard]
    exact hout hf
  | lobby =>
    have hlobby : ∀ g : Floor σ, g.Tidy → x ∉ (((do
        discard (Delivery.unregister .lobby code x)
        Lobby.refresh code : Script σ Unit).run g).2.attendance .lobby).present code := by
      intro g hg h
      rw [run_monad_bind, run_discard] at h
      have hd := (OnSide.unregister .lobby (hg .lobby) code x).distinct
      exact hout hg (((Lobby.onSide_refresh hd code).present code x h).resolve_right (by simp))
    change x ∉ (((Lobby.leave code x).run f).2.attendance .lobby).present code
    rw [Lobby.leave, run_monad_bind, run_look]
    cases f.user? x with
    | none => exact hlobby f hf
    | some user =>
      simp only
      rw [run_monad_bind, run_discard, run_update]
      exact hlobby _ (KeepsTidy.lobby.ready f code user false hf)

namespace Accounted

variable {a : Act σ} {post : List (Act σ)}

theorem untouched_client (h : f.Accounted past) {a : ClientAct}
    (hc : Act.Careful (past ++ .client a :: post)) (hx : x ∉ past.filterMap Act.handed?)
    {c : Connection} (hconn : (f.perform (.client a)).connection? x = some c) :
    c.closed = false := by
  have hmap : ∀ {id : ConnId} {u : Connection → Connection} {g : Floor σ},
      (g.connection? x = if x = id then (f.connection? x).map u else f.connection? x) →
      (∀ d, (u d).closed = d.closed) → g.connection? x = some c → c.closed = false := by
    intro id u g hg hu hconn
    rw [hg] at hconn
    split at hconn
    · obtain ⟨d, hd, rfl⟩ := Option.map_eq_some_iff.1 hconn
      rw [hu, h.untouched x hx d hd]
    · exact h.untouched x hx c hconn
  cases a with
  | opens id user sink =>
    change (f.connect id user sink).connection? x = some c at hconn
    unfold connect at hconn
    split at hconn
    · exact h.untouched x hx c hconn
    · rw [openConnection, connection?_setConnection] at hconn
      split at hconn
      · cases hconn
        rfl
      · exact h.untouched x hx c hconn
  | turns id sink =>
    exact hmap (connection?_modifyConnection f id x fun c => { c with sink := sink }) (fun _ => rfl)
      hconn
  | closes id =>
    obtain ⟨side, code, hs⟩ := hc.closed past id post rfl
    have hne : x ≠ id := fun e => hx (e ▸ Act.mem_handed (hs.subset List.mem_cons_self))
    exact h.untouched x hx c (((connection?_close ..).trans (if_neg hne)).symm.trans hconn)
  | pings id data =>
    rw [Floor.perform, Act.script, ClientAct.script, run_discard] at hconn
    exact hmap (connection?_write ..) (fun d => Connection.closed_write d _) hconn
  | ticks id remaining =>
    rw [Floor.perform, Act.script, ClientAct.script, run_discard] at hconn
    exact hmap (connection?_write ..) (fun d => Connection.closed_write d _) hconn

theorem untouched_perform (h : f.Accounted past) (hc : Act.Careful (past ++ a :: post))
    (hx : x ∉ (past ++ [a]).filterMap Act.handed?) {c : Connection}
    (hconn : (f.perform a).connection? x = some c) : c.closed = false := by
  rw [List.filterMap_append, List.mem_append, not_or] at hx
  have hhands : ∀ side code, a.hands? ≠ some (side, code, x) := fun side code e =>
    hx.2 (List.mem_filterMap.2 ⟨a, List.mem_cons_self, by rw [Act.handed?, e]; rfl⟩)
  cases a with
  | client a => exact h.untouched_client hc hx.1 hconn
  | _ =>
    rw [connection?_perform h.placed.tidy (h.known.not_attends hx.1) hhands nofun] at hconn
    exact h.untouched x hx.1 c hconn

theorem opened_perform (h : f.Accounted past) {id : ConnId} {user : UserId} {sink : Sink}
    (ho : .client (.opens id user sink) ∈ past ++ [a]) :
    ((f.perform a).connection? id).isSome := by
  rcases List.mem_append.1 ho with ho | ho
  · obtain ⟨c, hc⟩ := Option.isSome_iff_exists.1 (h.opened id user sink ho)
    obtain ⟨d, hd, -⟩ := Onward.perform f a id c hc
    rw [hd]
    rfl
  · cases List.mem_singleton.1 ho
    change ((f.connect id user sink).connection? id).isSome
    unfold connect
    split
    · rename_i h
      exact h
    · rw [openConnection, connection?_setConnection, if_pos rfl]
      rfl

theorem left_perform (h : f.Accounted past) (hc : Act.Careful (past ++ a :: post)) {side : Side}
    {code : RoomCode} (hs : [.enters side code x, .leaves side code x].Sublist (past ++ [a])) :
    ¬ (f.perform a).attends x := by
  have hfit := h.fit hc
  have hpast : (past ++ [a]).Sublist (past ++ a :: post) :=
    (List.singleton_sublist.2 List.mem_cons_self).append_left past
  have hn : ((past ++ [a]).filterMap Act.handed?).Nodup := hc.once.sublist (hpast.filterMap _)
  obtain ⟨l₁, l₂, e, h₁, h₂⟩ := List.sublist_append_iff.1 hs
  match l₁, e with
  | [], e =>
    -- one act cannot do both
    rw [List.nil_append] at e
    subst e
    exact absurd h₂.length_le (by simp)
  | [_], e =>
    obtain ⟨rfl, rfl⟩ := List.cons.inj e
    cases List.mem_singleton.1 (h₂.subset List.mem_cons_self)
    rintro ⟨other, room, hx⟩
    have hold := (mem_present_perform h.placed.tidy _ hx).resolve_right (by cases side <;> nofun)
    obtain ⟨rfl, rfl⟩ := Act.enters_unique hn
      (List.mem_append_left _ (h.known other room x hold))
      (List.mem_append_left _ (h₁.subset List.mem_cons_self))
    exact not_mem_present_leaves h.placed.tidy other room x hx
  | _ :: _ :: _, e =>
    simp only [List.cons_append, List.cons.injEq] at e
    obtain ⟨rfl, rfl, -⟩ := e
    have hmem : .enters side code x ∈ past := h₁.subset List.mem_cons_self
    have hx : a.handed? ≠ some x := fun e => Act.not_mem_handed hn e (Act.mem_handed hmem)
    have hleft := h.left side code x ((by simp : [_, _].Sublist (_ :: _ :: _)).trans h₁)
    exact ((Stays.kept hfit.along h.placed hx).run (Kept.steps x)).away hleft

theorem perform (h : f.Accounted past) (hc : Act.Careful (past ++ a :: post)) :
    (f.perform a).Accounted (past ++ [a]) where
  placed := ((h.fit hc).along.run Stays.steps h.placed).1
  known := h.known.perform h.placed.tidy a
  untouched _ hx _ hconn := h.untouched_perform hc hx hconn
  opened _ _ _ ho := h.opened_perform ho
  left _ _ _ hs := h.left_perform hc hs

end Accounted

theorem Accounted.fits (h : f.Accounted past) (hc : Act.Careful (past ++ acts)) : f.Fits acts := by
  -- care is a property of the whole run, so the past goes along with the floor
  induction acts generalizing f past with
  | nil => trivial
  | cons a acts ih =>
    refine ⟨h.fit hc, ih (h.perform hc) ?_⟩
    rwa [List.append_assoc]

theorem fits_of_careful (config : Config) (secret : String) (store : σ) (entropy : Random.Source)
    (hc : Act.Careful acts) : (new config secret store entropy).Fits acts :=
  (accounted_new config secret store entropy).fits hc

end Floor

/-! ### What every connection keeps -/

/-- A property that connections have from the start and that no move of an act takes away. -/
structure Connection.Lasting (P : Connection → Prop) : Prop where
  fresh : ∀ user sink timeout, P (.fresh user sink timeout)
  turn : ∀ c sink, P c → P { c with sink := sink }
  frame : ∀ c F, P c → P (c.write (.frame F)).2
  ping : ∀ c data, P c → P (c.write (.ping data)).2
  close : ∀ c, P c → P c.close

namespace Floor

def Each (P : Connection → Prop) (f : Floor σ) : Prop := ∀ x c, f.connection? x = some c → P c

def KeepsEach (P : Connection → Prop) (f g : Floor σ) : Prop := f.Each P → g.Each P

namespace KeepsEach

variable {P : Connection → Prop} {f g : Floor σ}

theorem steps : Steps (KeepsEach (σ := σ) P) where
  refl _ h := h
  trans h k hf := k (h hf)

theorem of_same (h : ∀ x, g.connection? x = f.connection? x) : KeepsEach P f g :=
  fun hf x c hc => hf x c ((h x).symm.trans hc)

theorem of_map {id : ConnId} {u : Connection → Connection}
    (h : ∀ x, g.connection? x = if x = id then (f.connection? x).map u else f.connection? x)
    (hu : ∀ c, P c → P (u c)) : KeepsEach P f g := by
  intro hf x c hc
  rw [h] at hc
  split at hc
  · obtain ⟨d, hd, rfl⟩ := Option.map_eq_some_iff.1 hc
    exact hu d (hf x d hd)
  · exact hf x c hc

variable (hP : Connection.Lasting P)
include hP

theorem byConnection : ByConnection (KeepsEach (σ := σ) P) where
  toSteps := steps
  same := of_same
  write f id F := of_map (connection?_write f id · _) fun c => hP.frame c F
  close f id := of_map (connection?_close f id) hP.close

theorem client (a : ClientAct) : a.script.Within (KeepsEach (σ := σ) P) := by
  cases a with
  | opens id user sink =>
    refine within_change fun f hf x c hc => ?_
    unfold connect at hc
    split at hc
    · exact hf x c hc
    · rw [openConnection, connection?_setConnection] at hc
      split at hc
      · cases hc
        exact hP.fresh user sink _
      · exact hf x c hc
  | turns id sink =>
    exact within_change fun f => of_map (connection?_modifyConnection f id · _) fun c => hP.turn c sink
  | closes id => exact within_closeOne fun f => of_map (connection?_close f id) hP.close
  | pings id data =>
    exact (within_writeTo fun f => of_map (connection?_write f id · _) fun c => hP.ping c data).discard
  | ticks id remaining =>
    exact (within_writeTo fun f => of_map (connection?_write f id · _) fun c => hP.frame c _).discard

end KeepsEach

theorem each_moments [RoomStore σ] {P : Connection → Prop} (hP : Connection.Lasting P)
    (config : Config) (secret : String) (store : σ) (entropy : Random.Source)
    (acts : List (Act σ)) : ∀ g ∈ (new config secret store entropy).moments acts, g.Each P := by
  have hnew : (new config secret store entropy).Each P := fun _ _ h => nomatch h
  exact moments_of_within ((KeepsEach.byConnection hP).act (KeepsEach.client hP)) hnew acts

end Floor

/-! ### Closing comes last -/

def Connection.Sealed (c : Connection) : Prop :=
  ∀ newer a older, c.attempts = newer ++ a :: older → a.payload = .close →
    newer = [] ∧ c.closed = true

namespace Connection.Sealed

variable {c : Connection}

theorem fresh (user : UserId) (sink : Sink) (n : Nat) : (Connection.fresh user sink n).Sealed :=
  fun newer _ _ h _ => by cases newer <;> cases h

theorem attempt (h : c.Sealed) (ho : c.closed = false) {p : Payload} {d : Connection} {r}
    (hd : d.attempts = ⟨p, r⟩ :: c.attempts) (hp : p = .close → d.closed = true) : d.Sealed := by
  intro newer a older e ha
  rw [hd] at e
  cases newer with
  | nil =>
    cases e
    exact ⟨rfl, hp ha⟩
  | cons b newer =>
    obtain ⟨-, e⟩ := List.cons.inj e
    exact absurd (ho.symm.trans (h newer a older e ha).2) Bool.false_ne_true

theorem write (h : c.Sealed) {p : Payload} (hp : p ≠ .close) : (c.write p).2.Sealed := by
  unfold Connection.write
  split
  · exact h
  · rename_i ho
    exact h.attempt (Bool.eq_false_iff.2 ho) rfl fun e => absurd e hp

theorem close (h : c.Sealed) : c.close.Sealed := by
  unfold Connection.close
  split
  · exact h
  · rename_i ho
    exact h.attempt (Bool.eq_false_iff.2 ho) rfl fun _ => rfl

theorem lasting : Connection.Lasting Sealed where
  fresh := fresh
  turn _ _ h := h
  frame _ _ h := h.write nofun
  ping _ _ h := h.write nofun
  close _ h := h.close

end Connection.Sealed

namespace Floor

def Sealed (f : Floor σ) : Prop := f.Each Connection.Sealed

theorem sealed_moments [RoomStore σ] (config : Config) (secret : String) (store : σ)
    (entropy : Random.Source) (acts : List (Act σ)) :
    ∀ g ∈ (new config secret store entropy).moments acts, g.Sealed :=
  each_moments Connection.Sealed.lasting config secret store entropy acts

end Floor

end Cardroom
