import Cardroom.Proofs.Json.Records
import Cardroom.Proofs.Json.Spelling

namespace Cardroom

open Json

def PlayerEntry.Fits (p : PlayerEntry) : Prop := isInt64 p.user = true

def BetEntry.Fits (p : BetEntry) : Prop :=
  isInt64 p.user = true ∧ isInt64 p.bet = true ∧ isInt64 p.chips = true

/-- The integers in the frame fit the wire. A timer holds none, but a fraction. -/
def Frame.Fits : Frame → Prop
  | .roomStatus _ players maxPlayers => (∀ p ∈ players, p.Fits) ∧ isWord64 maxPlayers = true
  | .allReady .. => True
  | .startGame _ game => isInt64 game = true
  | .playerOrder players => ∀ p ∈ players, p.Fits
  | .betState _ players _ => ∀ p ∈ players, p.Fits
  | .timer _ => False

theorem plain_ofInt {i : Int} (h : isInt64 i = true) : Plain (.ofInt i) :=
  .ofInt (natAbs_lt_of_isInt64 h)

theorem PlayerEntry.plain_json {p : PlayerEntry} (hp : p.Fits) : Plain p.json := by
  refine .record fun field hfield => ?_
  simp only [List.mem_cons, List.not_mem_nil, or_false] at hfield
  rcases hfield with rfl | rfl | rfl | rfl | rfl
  · exact plain_ofInt hp
  · exact .ofText _
  all_goals exact .bool _

theorem BetEntry.plain_json {p : BetEntry} (hp : p.Fits) : Plain p.json := by
  obtain ⟨huser, hbet, hchips⟩ := hp
  refine .record fun field hfield => ?_
  simp only [List.mem_cons, List.not_mem_nil, or_false] at hfield
  rcases hfield with rfl | rfl | rfl | rfl | rfl
  · exact plain_ofInt huser
  · exact .ofText _
  · exact plain_ofInt hbet
  · exact .bool _
  · exact plain_ofInt hchips

theorem PlayerEntry.ofJson?_json {p : PlayerEntry} (hp : p.Fits) : ofJson? p.json = some p := by
  have hfields : p.json.components? ["user_id", "name", "is_ready", "is_host", "is_dealer"] =
      some [.ofInt p.user, .ofText p.name, .bool p.isReady, .bool p.isHost, .bool p.isDealer] := by
    rw [json, components?_record]
    rfl
  rw [ofJson?, hfields]
  simp only [Option.bind_eq_bind, Option.bind_some, int64?_ofInt hp, text?_ofText]
  rfl

theorem BetEntry.ofJson?_json {p : BetEntry} (hp : p.Fits) : ofJson? p.json = some p := by
  obtain ⟨huser, hbet, hchips⟩ := hp
  have hfields : p.json.components? ["user_id", "name", "bet", "confirmed", "total_chips"] =
      some [.ofInt p.user, .ofText p.name, .ofInt p.bet, .bool p.confirmed, .ofInt p.chips] := by
    rw [json, components?_record]
    rfl
  rw [ofJson?, hfields]
  simp only [Option.bind_eq_bind, Option.bind_some, int64?_ofInt huser, int64?_ofInt hbet,
    int64?_ofInt hchips, text?_ofText]
  rfl

theorem PlayerEntry.fits_of_ofJson? {j : Json} {p : PlayerEntry} (h : ofJson? j = some p) :
    p.Fits := by
  obtain ⟨values, _, h⟩ := Option.bind_eq_some_iff.1 h
  split at h
  · simp only [Option.bind_eq_bind, Option.bind_eq_some_iff, Option.pure_def,
      Option.some.injEq] at h
    obtain ⟨user, huser, _, _, _, _, _, _, _, _, rfl⟩ := h
    exact isInt64_of_int64? huser
  · cases h

theorem BetEntry.fits_of_ofJson? {j : Json} {p : BetEntry} (h : ofJson? j = some p) : p.Fits := by
  obtain ⟨values, _, h⟩ := Option.bind_eq_some_iff.1 h
  split at h
  · simp only [Option.bind_eq_bind, Option.bind_eq_some_iff, Option.pure_def,
      Option.some.injEq] at h
    obtain ⟨user, huser, _, _, bet, hbet, _, _, chips, hchips, rfl⟩ := h
    exact ⟨isInt64_of_int64? huser, isInt64_of_int64? hbet, isInt64_of_int64? hchips⟩
  · cases h

namespace Frame

variable {f g : Frame}

theorem players_plain {players : List PlayerEntry} (h : ∀ p ∈ players, p.Fits) :
    Plain (.array (players.map PlayerEntry.json)) ∧
      (Json.array (players.map PlayerEntry.json)).depth ≤ 2 := by
  refine ⟨.array fun j hj => ?_, depth_array_le fun j hj => ?_⟩
  · obtain ⟨p, hp, rfl⟩ := List.mem_map.1 hj
    exact PlayerEntry.plain_json (h p hp)
  · obtain ⟨p, hp, rfl⟩ := List.mem_map.1 hj
    exact Nat.le_refl 1

theorem bets_plain {players : List BetEntry} (h : ∀ p ∈ players, p.Fits) :
    Plain (.array (players.map BetEntry.json)) ∧
      (Json.array (players.map BetEntry.json)).depth ≤ 2 := by
  refine ⟨.array fun j hj => ?_, depth_array_le fun j hj => ?_⟩
  · obtain ⟨p, hp, rfl⟩ := List.mem_map.1 hj
    exact BetEntry.plain_json (h p hp)
  · obtain ⟨p, hp, rfl⟩ := List.mem_map.1 hj
    exact Nat.le_refl 1

theorem fields_plain (hf : f.Fits) :
    ∀ field ∈ f.fields, Plain field.2 ∧ field.2.depth ≤ 2 := by
  have htext : ∀ s : String, Plain (.ofText s) ∧ (Json.ofText s).depth ≤ 2 :=
    fun s => ⟨.ofText s, Nat.zero_le 2⟩
  have hbool : ∀ b : Bool, Plain (.bool b) ∧ (Json.bool b).depth ≤ 2 :=
    fun b => ⟨.bool b, Nat.zero_le 2⟩
  intro field hfield
  cases f with
  | roomStatus room players maxPlayers =>
    obtain ⟨hplayers, hmax⟩ := hf
    have hplain : Plain (.ofInt maxPlayers) := .ofInt (lt_of_isWord64 hmax)
    simp only [fields, List.mem_cons, List.not_mem_nil, or_false] at hfield
    rcases hfield with rfl | rfl | rfl
    · exact htext room
    · exact players_plain hplayers
    · exact ⟨hplain, Nat.zero_le 2⟩
  | allReady room ready =>
    simp only [fields, List.mem_cons, List.not_mem_nil, or_false] at hfield
    rcases hfield with rfl | rfl
    · exact htext room
    · exact hbool ready
  | startGame room game =>
    simp only [fields, List.mem_cons, List.not_mem_nil, or_false] at hfield
    rcases hfield with rfl | rfl
    · exact htext room
    · exact ⟨plain_ofInt hf, Nat.zero_le 2⟩
  | playerOrder players =>
    simp only [fields, List.mem_cons, List.not_mem_nil, or_false] at hfield
    subst hfield
    exact players_plain hf
  | betState room players allConfirmed =>
    simp only [fields, List.mem_cons, List.not_mem_nil, or_false] at hfield
    rcases hfield with rfl | rfl | rfl
    · exact htext room
    · exact bets_plain hf
    · exact hbool allConfirmed
  | timer remaining => cases hf

theorem plain_json (hf : f.Fits) : Plain f.json := by
  refine .record fun field hfield => ?_
  rcases List.mem_cons.1 hfield with rfl | hfield
  · exact .ofText f.tag
  · exact (fields_plain hf field hfield).1

theorem depth_json_le (hf : f.Fits) : f.json.depth ≤ 3 := by
  refine depth_record_le fun field hfield => ?_
  rcases List.mem_cons.1 hfield with rfl | hfield
  · exact Nat.zero_le 2
  · exact (fields_plain hf field hfield).2

theorem tagged?_json (f : Frame) : tagged? f.json = some (f.tag, f.json) := by
  have htype : once? "type" (("type", Json.ofText f.tag) :: f.fields) = some (.ofText f.tag) := by
    cases f <;> rfl
  change ((fields? _).bind fun fs => (once? "type" fs).bind fun j => j.text?.bind
    fun tag => some (tag, f.json)) = _
  rw [fields?_record, Option.bind_some, htype, Option.bind_some, text?_ofText, Option.bind_some]

theorem ofJson?_json (hf : f.Fits) : ofJson? f.json = some f := by
  rw [ofJson?, tagged?_json]
  change ofTagged? f.tag f.json = some f
  cases f with
  | roomStatus room players maxPlayers =>
    obtain ⟨hplayers, hmax⟩ := hf
    have hvalues : (json (.roomStatus room players maxPlayers)).components?
        ["room_code", "players", "max_players"] =
        some [.ofText room, .array (players.map PlayerEntry.json), .ofNat maxPlayers] := by
      rw [json, components?_record]
      rfl
    have hentries := mapM_map_eq fun p hp => PlayerEntry.ofJson?_json (hplayers p hp)
    simp only [ofTagged?, tag, hvalues, items?, hentries, word64?_ofNat hmax, text?_ofText,
      Option.bind_eq_bind, Option.bind_some, Option.pure_def]
  | allReady room ready =>
    have hvalues : (json (.allReady room ready)).components? ["room_code", "all_ready"] =
        some [.ofText room, .bool ready] := by
      rw [json, components?_record]
      rfl
    simp only [ofTagged?, tag, hvalues, bool?, text?_ofText, Option.bind_eq_bind, Option.bind_some,
      Option.pure_def]
  | startGame room game =>
    have hvalues : (json (.startGame room game)).components? ["room_code", "game_id"] =
        some [.ofText room, .ofInt game] := by
      rw [json, components?_record]
      rfl
    simp only [ofTagged?, tag, hvalues, int64?_ofInt hf, text?_ofText, Option.bind_eq_bind,
      Option.bind_some, Option.pure_def]
  | playerOrder players =>
    have hvalues : (json (.playerOrder players)).components? ["players"] =
        some [.array (players.map PlayerEntry.json)] := by
      rw [json, components?_record]
      rfl
    have hentries := mapM_map_eq fun p hp => PlayerEntry.ofJson?_json (hf p hp)
    simp only [ofTagged?, tag, hvalues, items?, hentries, Option.bind_eq_bind, Option.bind_some,
      Option.pure_def]
  | betState room players allConfirmed =>
    have hvalues : (json (.betState room players allConfirmed)).components?
        ["room_code", "players", "all_confirmed"] =
        some [.ofText room, .array (players.map BetEntry.json), .bool allConfirmed] := by
      rw [json, components?_record]
      rfl
    have hentries := mapM_map_eq fun p hp => BetEntry.ofJson?_json (hf p hp)
    simp only [ofTagged?, tag, hvalues, items?, hentries, bool?, text?_ofText,
      Option.bind_eq_bind, Option.bind_some, Option.pure_def]
  | timer remaining => cases hf

theorem fits_of_ofTagged? {tag : String} {j : Json} (h : ofTagged? tag j = some f)
    (htimer : ∀ remaining, f ≠ .timer remaining) : f.Fits := by
  have hplayers : ∀ {items : List Json} {entries : List PlayerEntry},
      items.mapM PlayerEntry.ofJson? = some entries → ∀ p ∈ entries, p.Fits := by
    intro items entries hentries p hp
    obtain ⟨_, _, hread⟩ := exists_of_mem_mapM hentries p hp
    exact PlayerEntry.fits_of_ofJson? hread
  have hbets : ∀ {items : List Json} {entries : List BetEntry},
      items.mapM BetEntry.ofJson? = some entries → ∀ p ∈ entries, p.Fits := by
    intro items entries hentries p hp
    obtain ⟨_, _, hread⟩ := exists_of_mem_mapM hentries p hp
    exact BetEntry.fits_of_ofJson? hread
  unfold ofTagged? at h
  split at h
  case h_7 => cases h
  all_goals
    obtain ⟨values, _, h⟩ := Option.bind_eq_some_iff.1 h
    split at h
    case h_2 => cases h
    simp only [Option.bind_eq_bind, Option.bind_eq_some_iff, Option.pure_def,
      Option.some.injEq] at h
  · obtain ⟨_, _, _, _, entries, hentries, maxPlayers, hmax, rfl⟩ := h
    exact ⟨hplayers hentries, isWord64_of_word64? hmax⟩
  · obtain ⟨_, _, _, _, rfl⟩ := h
    exact True.intro
  · obtain ⟨_, _, game, hgame, rfl⟩ := h
    exact isInt64_of_int64? hgame
  · obtain ⟨_, _, entries, hentries, rfl⟩ := h
    exact hplayers hentries
  · obtain ⟨_, _, _, _, entries, hentries, _, _, rfl⟩ := h
    exact hbets hentries
  · obtain ⟨remaining, _, rfl⟩ := h
    exact absurd rfl (htimer remaining)

theorem parse?_text (hf : f.Fits) : parse? f.text = some f := by
  have hdepth : f.json.depth ≤ depthLimit := Nat.le_trans (depth_json_le hf) (by decide)
  rw [parse?, text, (plain_json hf).parseStrict?_render hdepth, Option.bind_some, ofJson?_json hf]

theorem fits_of_parse? {s : String} (h : parse? s = some f)
    (htimer : ∀ remaining, f ≠ .timer remaining) : f.Fits := by
  obtain ⟨j, _, hread⟩ := Option.bind_eq_some_iff.1 h
  obtain ⟨⟨tag, k⟩, _, hframe⟩ := Option.bind_eq_some_iff.1 hread
  exact fits_of_ofTagged? hframe htimer

/-- Every frame but a timer survives the wire. Its text reads back as the frame and holds no control
character, so no two frames share a text; and whatever text a frame was read from, the one that is
written for it reads the same. -/
theorem texts_read_back :
    (∀ f : Frame, f.Fits → parse? f.text = some f ∧ ∀ c ∈ f.text.toList, 0x20 ≤ c.toNat) ∧
      (∀ f g : Frame, f.Fits → g.Fits → f.text = g.text → f = g) ∧
      ∀ (s : String) (f : Frame), parse? s = some f → (∀ remaining, f ≠ .timer remaining) →
        parse? f.text = some f := by
  refine ⟨fun f hf => ⟨parse?_text hf, fun c hc => (plain_json hf).le_of_mem_render hc⟩, ?_, ?_⟩
  · intro f g hf hg htext
    have hread : some f = some g := by rw [← parse?_text hf, htext, parse?_text hg]
    exact Option.some.inj hread
  · intro s f hread htimer
    exact parse?_text (fits_of_parse? hread htimer)

theorem texts_read_back_hostile :
    let hostile : PlayerEntry := ⟨-0x8000000000000000, "\"\x7d],\\\u0000\u007f\u2028\n", true, false, true⟩
    let f : Frame := .roomStatus "[]" [hostile, hostile] 0xFFFFFFFFFFFFFFFF
    parse? f.text = some f ∧ (∀ c ∈ f.text.toList, 0x20 ≤ c.toNat) ∧
      (∀ g : Frame, g.Fits → f.text = g.text → f = g) ∧
      ∀ g : Frame, parse? f.text = some g → parse? g.text = some g := by
  intro hostile f
  have hf : f.Fits := by
    refine ⟨fun p hp => ?_, rfl⟩
    simp only [List.mem_cons, List.not_mem_nil, or_false, or_self] at hp
    subst hp
    rfl
  obtain ⟨hwrite, hdistinct, hagain⟩ := texts_read_back
  refine ⟨(hwrite f hf).1, (hwrite f hf).2, fun g => hdistinct f g hf, fun g hg => ?_⟩
  have heq : f = g := Option.some.inj ((hwrite f hf).1.symm.trans hg)
  subst heq
  exact hagain _ f hg fun remaining => by simp [f]

end Frame

end Cardroom
