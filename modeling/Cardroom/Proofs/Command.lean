import Cardroom.Command
import Cardroom.Proofs.Json.Doubles
import Cardroom.Proofs.Json.Meaning

namespace Cardroom

open Json

namespace ReadyUpdate

inductive OptionalText : Json → Option String → Prop where
  | null : OptionalText .null none
  | text {q : Quoted} {s : String} (h : q.Means s.toList) : OptionalText (.text q) (some s)

/-- The document `j` says `update`: as an object, whatever else it holds, or as an array. -/
inductive SaidBy : ReadyUpdate → Json → Prop where
  | object {members : List (Quoted × Json)} {room : Option String} {isReady : Bool}
    (hnames : ∀ m ∈ members, ∃ cs, m.1.Means cs)
    (hready : valuesUnder ["is_ready"] (.object members) = [.bool isReady])
    (hroom : valuesUnder ["room_code"] (.object members) = [] ∧ room = none ∨
      ∃ v, valuesUnder ["room_code"] (.object members) = [v] ∧ OptionalText v room) :
    SaidBy ⟨room, isReady⟩ (.object members)
  | array {v : Json} {room : Option String} {isReady : Bool} (hroom : OptionalText v room) :
    SaidBy ⟨room, isReady⟩ (.array [v, .bool isReady])

theorem optionalText?_eq_some_iff {j : Json} {room : Option String} :
    j.optionalText? = some room ↔ OptionalText j room := by
  constructor
  · intro h
    cases j with
    | null =>
      cases h
      exact .null
    | text q =>
      obtain ⟨s, hs, rfl⟩ := Option.map_eq_some_iff.1 h
      exact .text (Quoted.text?_eq_some_iff.1 hs)
    | _ => cases h
  · rintro (_ | h)
    · rfl
    · exact Option.map_eq_some_iff.2 ⟨_, Quoted.text?_eq_some_iff.2 h, rfl⟩

/-- A room that is not named is read as one that is null. -/
theorem room_iff {members : List (Quoted × Json)} {fields : List (String × Json)}
    {room : Option String} (h : fields? members = some fields) :
    (∃ found, atMostOnce? ["room_code"] fields = some found ∧
        (found.getD .null).optionalText? = some room) ↔
      (valuesUnder ["room_code"] (.object members) = [] ∧ room = none ∨
        ∃ v, valuesUnder ["room_code"] (.object members) = [v] ∧ OptionalText v room) := by
  constructor
  · rintro ⟨found, hfound, hroom⟩
    have hvalues := (atMostOnce?_eq_some_iff h).1 hfound
    cases found with
    | none =>
      cases hroom
      exact .inl ⟨hvalues, rfl⟩
    | some v => exact .inr ⟨v, hvalues, optionalText?_eq_some_iff.1 hroom⟩
  · rintro (⟨hnone, rfl⟩ | ⟨v, hone, hroom⟩)
    · exact ⟨none, (atMostOnce?_eq_some_iff h).2 hnone, rfl⟩
    · exact ⟨some v, (atMostOnce?_eq_some_iff h).2 hone, optionalText?_eq_some_iff.2 hroom⟩

theorem ofJson?_eq_some_iff {j : Json} {update : ReadyUpdate} :
    ofJson? j = some update ↔ update.SaidBy j := by
  constructor
  · intro h
    unfold ofJson? at h
    split at h
    · obtain ⟨fields, hfields, h⟩ := Option.bind_eq_some_iff.1 h
      obtain ⟨found, hfound, h⟩ := Option.bind_eq_some_iff.1 h
      obtain ⟨ready, hready, h⟩ := Option.bind_eq_some_iff.1 h
      obtain ⟨room, hroom, h⟩ := Option.bind_eq_some_iff.1 h
      obtain ⟨isReady, hbool, h⟩ := Option.bind_eq_some_iff.1 h
      cases h
      cases bool?_eq_some_iff.1 hbool
      exact .object (isSome_fields?_iff.1 (Option.isSome_of_eq_some hfields))
        ((once?_eq_some_iff hfields).1 hready) ((room_iff hfields).1 ⟨found, hfound, hroom⟩)
    · obtain ⟨room, hroom, h⟩ := Option.bind_eq_some_iff.1 h
      obtain ⟨isReady, hbool, h⟩ := Option.bind_eq_some_iff.1 h
      cases h
      cases bool?_eq_some_iff.1 hbool
      exact .array (optionalText?_eq_some_iff.1 hroom)
    · cases h
  · intro h
    cases h with
    | object hnames hready hroom =>
      obtain ⟨fields, hfields⟩ := Option.isSome_iff_exists.1 (isSome_fields?_iff.2 hnames)
      obtain ⟨found, hfound, hroom⟩ := (room_iff hfields).2 hroom
      have hready := (once?_eq_some_iff hfields).2 hready
      simp [ofJson?, hfields, hfound, hready, hroom, bool?]
    | array hroom =>
      have hroom := optionalText?_eq_some_iff.2 hroom
      simp [ofJson?, hroom, bool?]

/-- A lobby frame is read from the texts that spell a document that says it, and from no other. -/
theorem ready_texts_exact (raw : String) :
    (∀ update, parse raw = .ok update ↔ ∃ j, Spells raw j ∧ update.SaidBy j) ∧
      (parse raw = .error .malformed ↔ ¬∃ update j, Spells raw j ∧ SaidBy update j) := by
  have hread : ∀ update, (parse? raw).bind ofJson? = some update ↔
      ∃ j, Spells raw j ∧ update.SaidBy j := by
    intro update
    rw [Option.bind_eq_some_iff]
    exact exists_congr fun j => and_congr parse?_eq_some_iff ofJson?_eq_some_iff
  unfold parse
  split
  · rename_i update hupdate
    refine ⟨fun other => ?_, ?_⟩
    · rw [← hread other, hupdate, Except.ok.injEq, Option.some.injEq]
    · exact ⟨nofun, fun hnone => absurd ⟨update, (hread update).1 hupdate⟩ hnone⟩
  · rename_i hnone
    refine ⟨fun other => ?_, ?_⟩
    · rw [← hread other, hnone]
      exact ⟨nofun, nofun⟩
    · refine ⟨fun _ ⟨update, hsaid⟩ => ?_, fun _ => rfl⟩
      rw [← hread update, hnone] at hsaid
      cases hsaid

example : parse "\x7b\"a\":[\"\\ud800\",1e999],\"is_ready\":true\x7d" = .ok ⟨none, true⟩ := by
  decide +kernel

end ReadyUpdate

namespace BetCommand

/-- The document `j` says `command`: of each name the last value counts, and a bet that does not say
whether it is confirmed is not. -/
structure SaidBy (command : BetCommand) (j : Json) : Prop where
  ofType : ∃ q, (j.valuesUnder ["type"]).getLast? = some (.text q) ∧ q.Means "bet_update".toList
  bet : ∃ n, (j.valuesUnder ["bet"]).getLast? = some (.number n) ∧ n.IsInteger command.bet
  fits : -0x8000000000000000 ≤ command.bet ∧ command.bet < 0x8000000000000000
  confirm : j.valuesUnder ["confirm"] = [] ∧ command.confirm = false ∨
    (j.valuesUnder ["confirm"]).getLast? = some (.bool command.confirm)

/-- The document is a frame of a type that the table does not know. -/
def OfOtherType (j : Json) : Prop :=
  ∃ q tag, (j.valuesUnder ["type"]).getLast? = some (.text q) ∧ q.Means tag ∧
    tag ≠ "bet_update".toList

section

variable {members : List (Quoted × Json)} {fields : List (String × Json)} {command : BetCommand}

theorem last?_text_iff (h : fields? members = some fields) {name tag : String} :
    (last? name fields).bind Json.text? = some tag ↔
      ∃ q, (valuesUnder [name] (.object members)).getLast? = some (.text q) ∧
        q.Means tag.toList := by
  rw [last?_eq h, Option.bind_eq_some_iff]
  constructor
  · rintro ⟨v, hv, htag⟩
    cases v with
    | text q => exact ⟨q, hv, Quoted.text?_eq_some_iff.1 htag⟩
    | _ => cases htag
  · rintro ⟨q, hq, hmeans⟩
    exact ⟨.text q, hq, Quoted.text?_eq_some_iff.2 hmeans⟩

theorem ofFields?_eq_some_iff (h : fields? members = some fields) :
    ofFields? fields = some command ↔
      (∃ v, (valuesUnder ["bet"] (.object members)).getLast? = some v ∧
        v.int64? = some command.bet) ∧
      (valuesUnder ["confirm"] (.object members) = [] ∧ command.confirm = false ∨
        (valuesUnder ["confirm"] (.object members)).getLast? = some (.bool command.confirm)) := by
  rw [← List.getLast?_eq_none_iff, ← last?_eq h, ← last?_eq h, ofFields?]
  constructor
  · intro hread
    obtain ⟨v, hv, hread⟩ := Option.bind_eq_some_iff.1 hread
    obtain ⟨bet, hbet, hread⟩ := Option.bind_eq_some_iff.1 hread
    split at hread
    · rename_i hnone
      cases hread
      exact ⟨⟨v, hv, hbet⟩, .inl ⟨hnone, rfl⟩⟩
    · rename_i w hsome
      obtain ⟨confirm, hconfirm, hread⟩ := Option.bind_eq_some_iff.1 hread
      cases hread
      cases bool?_eq_some_iff.1 hconfirm
      exact ⟨⟨v, hv, hbet⟩, .inr hsome⟩
  · obtain ⟨bet, confirm⟩ := command
    rintro ⟨⟨v, hv, hbet⟩, ⟨hnone, rfl⟩ | hsome⟩
    · simp [hv, hbet, hnone]
    · simp [hv, hbet, hsome, bool?]

theorem saidBy_iff (h : fields? members = some fields) : command.SaidBy (.object members) ↔
    (last? "type" fields).bind Json.text? = some "bet_update" ∧ ofFields? fields = some command := by
  rw [last?_text_iff h, ofFields?_eq_some_iff h]
  constructor
  · rintro ⟨htype, ⟨n, hbet, hinteger⟩, hfits, hconfirm⟩
    exact ⟨htype, ⟨.number n, hbet, int64?_eq_some_iff.2 ⟨n, rfl, hinteger, hfits⟩⟩, hconfirm⟩
  · rintro ⟨htype, ⟨v, hbet, hv⟩, hconfirm⟩
    obtain ⟨n, rfl, hinteger, hfits⟩ := int64?_eq_some_iff.1 hv
    exact ⟨htype, ⟨n, hbet, hinteger⟩, hfits, hconfirm⟩

theorem ofOtherType_iff (h : fields? members = some fields) : OfOtherType (.object members) ↔
    ∃ tag, (last? "type" fields).bind Json.text? = some tag ∧ tag ≠ "bet_update" := by
  constructor
  · rintro ⟨q, tag, hq, hmeans, hne⟩
    refine ⟨String.ofList tag, (last?_text_iff h).2 ⟨q, hq, ?_⟩, ?_⟩
    · rwa [String.toList_ofList]
    · rintro heq
      rw [← heq, String.toList_ofList] at hne
      exact hne rfl
  · rintro ⟨tag, htag, hne⟩
    obtain ⟨q, hq, hmeans⟩ := (last?_text_iff h).1 htag
    exact ⟨q, tag.toList, hq, hmeans, fun heq => hne (String.toList_injective heq)⟩

end

theorem parse_object {raw : String} {members : List (Quoted × Json)}
    (h : parseStrict? raw = some (.object members)) :
    (∀ command, parse raw = .ok command ↔ SaidBy command (.object members)) ∧
      (parse raw = .error .unknownType ↔ OfOtherType (.object members)) ∧
      (parse raw = .error .malformed ↔
        ¬((∃ command, SaidBy command (.object members)) ∨ OfOtherType (.object members))) := by
  obtain ⟨fields, hfields⟩ : ∃ fields, fields? members = some fields := by
    cases (parseStrict?_eq_some_iff.1 h).2 with
    | object hnames _ => exact Option.isSome_iff_exists.1 (isSome_fields?_iff.2 hnames)
  simp only [saidBy_iff hfields, ofOtherType_iff hfields, parse, h, hfields, Option.getD_some]
  cases (last? "type" fields).bind Json.text? with
  | none => simp
  | some tag =>
    by_cases htag : tag = "bet_update"
    · cases ofFields? fields <;> simp [htag]
    · simp [htag]

theorem parse_of_no_object {raw : String}
    (h : ¬∃ members, parseStrict? raw = some (.object members)) :
    parse raw = .error .malformed := by
  unfold parse
  split
  · rename_i members hobject
    exact absurd ⟨members, hobject⟩ h
  · rfl

theorem SaidBy.eq_object {command : BetCommand} {j : Json} (h : command.SaidBy j) :
    ∃ members, j = .object members := by
  obtain ⟨q, hq, _⟩ := h.ofType
  exact eq_object_of_valuesUnder (List.mem_of_getLast? hq)

theorem OfOtherType.eq_object {j : Json} (h : OfOtherType j) : ∃ members, j = .object members := by
  obtain ⟨q, _, hq, _⟩ := h
  exact eq_object_of_valuesUnder (List.mem_of_getLast? hq)

theorem exists_iff_of_parseStrict? {raw : String} {j : Json} (h : parseStrict? raw = some j)
    {P : Json → Prop} : (∃ k, Spells raw k ∧ Admissible 127 k ∧ P k) ↔ P j := by
  obtain ⟨hspells, hadmissible⟩ := parseStrict?_eq_some_iff.1 h
  constructor
  · rintro ⟨k, hother, _, hP⟩
    rwa [hspells.unique hother]
  · intro hP
    exact ⟨j, hspells, hadmissible, hP⟩

theorem parse_exact (raw : String) :
    (∀ command, parse raw = .ok command ↔
        ∃ j, Spells raw j ∧ Admissible 127 j ∧ command.SaidBy j) ∧
      (parse raw = .error .unknownType ↔
        ∃ j, Spells raw j ∧ Admissible 127 j ∧ OfOtherType j) ∧
      (parse raw = .error .malformed ↔ ¬∃ j, Spells raw j ∧ Admissible 127 j ∧
        ((∃ command, SaidBy command j) ∨ OfOtherType j)) := by
  by_cases hobject : ∃ members, parseStrict? raw = some (.object members)
  · obtain ⟨members, hmembers⟩ := hobject
    simp only [exists_iff_of_parseStrict? hmembers]
    exact parse_object hmembers
  · have hnone : ∀ {P : Json → Prop}, (∀ j, P j → ∃ members, j = .object members) →
        ¬∃ j, Spells raw j ∧ Admissible 127 j ∧ P j := by
      rintro P hP ⟨j, hspells, hadmissible, hj⟩
      obtain ⟨members, rfl⟩ := hP j hj
      exact hobject ⟨members, parseStrict?_eq_some_iff.2 ⟨hspells, hadmissible⟩⟩
    rw [parse_of_no_object hobject]
    refine ⟨fun command => ⟨nofun, fun hsaid => ?_⟩, ⟨nofun, fun hother => ?_⟩, ?_⟩
    · exact absurd hsaid (hnone fun j hj => hj.eq_object)
    · exact absurd hother (hnone fun j hj => hj.eq_object)
    · refine iff_of_true rfl (hnone fun j hj => ?_)
      rcases hj with ⟨command, hsaid⟩ | hother
      · exact hsaid.eq_object
      · exact hother.eq_object

theorem getLast?_perm {name : String} {ms ns : List (Quoted × Json)} {v : Json}
    (hperm : ms.Perm ns) (h : valuesUnder [name] (.object ns) = [v]) :
    (valuesUnder [name] (.object ms)).getLast? = some v := by
  have hvalues := valuesUnder_perm [name] hperm
  rw [h] at hvalues
  rw [List.perm_singleton.1 hvalues]
  rfl

inductive Gives (command : BetCommand) : List (Quoted × Json) → Prop where
  | inOrder {typeName betName confirmName tag : Quoted} {others members : List (Quoted × Json)}
    (fits : -0x8000000000000000 ≤ command.bet ∧ command.bet < 0x8000000000000000)
    (htype : typeName.Means "type".toList) (htag : tag.Means "bet_update".toList)
    (hbet : betName.Means "bet".toList) (hconfirm : confirmName.Means "confirm".toList)
    (hothers : ∀ m ∈ others, Admissible 126 m.2 ∧
      ∃ name : String, m.1.Means name.toList ∧ name ∉ ["type", "bet", "confirm"])
    (horder : members.Perm ((typeName, .text tag) :: (betName, .ofInt command.bet) ::
      (confirmName, .bool command.confirm) :: others)) : Gives command members

namespace Gives

variable {command : BetCommand} {members : List (Quoted × Json)}

theorem admissible (h : command.Gives members) : Admissible 127 (.object members) := by
  obtain ⟨hfits, htype, htag, hbet, hconfirm, hothers, horder⟩ := h
  have hfinite : (Number.ofInt command.bet).isFinite = true :=
    Number.isFinite_ofInt (natAbs_lt_of_isInt64 (isInt64_iff.2 hfits))
  have hall : ∀ m ∈ members, (∃ cs, m.1.Means cs) ∧ Admissible 126 m.2 := by
    intro m hm
    have hm := horder.mem_iff.1 hm
    simp only [List.mem_cons] at hm
    rcases hm with rfl | rfl | rfl | hm
    · exact ⟨⟨_, htype⟩, .text _ ⟨_, htag⟩⟩
    · exact ⟨⟨_, hbet⟩, .number _ hfinite⟩
    · exact ⟨⟨_, hconfirm⟩, .bool _ _⟩
    · obtain ⟨hvalue, name, hname, _⟩ := hothers m hm
      exact ⟨⟨_, hname⟩, hvalue⟩
  exact .object (fun m hm => (hall m hm).1) fun m hm => (hall m hm).2

theorem saidBy (h : command.Gives members) : command.SaidBy (.object members) := by
  obtain ⟨hfits, htype, htag, hbet, hconfirm, hothers, horder⟩ := h
  -- a name that stands for one of the three stands for no other
  have hother : ∀ {q : Quoted} {name : String}, q.Means name.toList → ∀ other : String,
      name ≠ other → ¬q.Means other.toList := fun hq other hne hmeans =>
    hne (String.toList_injective (hq.unique hmeans))
  have hrest : ∀ name ∈ ["type", "bet", "confirm"], valuesUnder [name] (.object _) = [] :=
    fun name hname => valuesUnder_eq_nil fun m hm => by
      obtain ⟨_, other, hmeans, hnot⟩ := hothers m hm
      exact hother hmeans name fun heq => hnot (heq ▸ hname)
  have hinteger : (Number.ofInt command.bet).IsInteger command.bet :=
    Number.integer?_eq_some_iff.1 (Number.integer?_ofInt command.bet)
  refine ⟨⟨_, getLast?_perm horder ?_, htag⟩, ⟨_, getLast?_perm horder ?_, hinteger⟩, hfits,
    .inr (getLast?_perm horder ?_)⟩
  · rw [valuesUnder_cons_of_means htype, valuesUnder_cons_of_not_means (hother hbet _ (by decide)),
      valuesUnder_cons_of_not_means (hother hconfirm _ (by decide)), hrest _ (by decide)]
  · rw [valuesUnder_cons_of_not_means (hother htype _ (by decide)),
      valuesUnder_cons_of_means hbet,
      valuesUnder_cons_of_not_means (hother hconfirm _ (by decide)), hrest _ (by decide)]
    rfl
  · rw [valuesUnder_cons_of_not_means (hother htype _ (by decide)),
      valuesUnder_cons_of_not_means (hother hbet _ (by decide)),
      valuesUnder_cons_of_means hconfirm, hrest _ (by decide)]

end Gives

/-- A text asks for a bet if it spells an admissible document that says it, has an unknown type if it
spells one of another type, and is malformed otherwise. In what order the members of the object
stand, which others stand among them, and how the text spells them makes no difference. -/
theorem bet_texts_exact (raw : String) :
    (∀ command, parse raw = .ok command ↔
        ∃ j, Spells raw j ∧ Admissible 127 j ∧ command.SaidBy j) ∧
      (parse raw = .error .unknownType ↔
        ∃ j, Spells raw j ∧ Admissible 127 j ∧ OfOtherType j) ∧
      (parse raw = .error .malformed ↔ ¬∃ j, Spells raw j ∧ Admissible 127 j ∧
        ((∃ command, SaidBy command j) ∨ OfOtherType j)) ∧
      ∀ (command : BetCommand) (members : List (Quoted × Json)), command.Gives members →
        Spells raw (.object members) → parse raw = .ok command := by
  obtain ⟨hok, hother, hmalformed⟩ := parse_exact raw
  refine ⟨hok, hother, hmalformed, fun command members hgives hspells => ?_⟩
  exact (hok command).2 ⟨_, hspells, hgives.admissible, hgives.saidBy⟩

theorem bet_texts_exact_escaped : ∃ raw members, Gives ⟨-7, true⟩ members ∧
    Spells raw (.object members) ∧ parse raw = .ok ⟨-7, true⟩ := by
  let raw := " \x7b\"\\u0062et\": -7,\r\n\"x\" :[null,\"\\uD83d\\ude00\"],\"type\":\"bet_\\u0075pdate\",\t\"confirm\":true\x7d"
  let bet := (Quoted.ofText "bet", Json.ofInt (-7))
  let face := (Quoted.ofText "x", Json.array [.null, .text [.surrogate 0xD83D, .surrogate 0xDE00]])
  let type := (Quoted.ofText "type", Json.text (.ofText "bet_update"))
  let confirm := (Quoted.ofText "confirm", Json.bool true)
  have hspells : Spells raw (.object [bet, face, type, confirm]) :=
    words_of_ofChars? (by decide +kernel)
  have horder : [bet, face, type, confirm].Perm [type, bet, confirm, face] := by
    have hfirst : ([bet, face] ++ type :: [confirm]).Perm (type :: ([bet, face] ++ [confirm])) :=
      List.perm_middle
    exact hfirst.trans (.cons _ (.cons _ (.swap _ _ _)))
  have hgives : Gives ⟨-7, true⟩ [bet, face, type, confirm] := by
    refine .inOrder ⟨by decide, by decide⟩ (Quoted.means_ofText _) (Quoted.means_ofText _)
      (Quoted.means_ofText _) (Quoted.means_ofText _) ?_ horder
    intro m hm
    cases List.mem_singleton.1 hm
    refine ⟨.array fun j hj => ?_, "x", Quoted.means_ofText _, by decide⟩
    simp only [List.mem_cons, List.not_mem_nil, or_false] at hj
    rcases hj with rfl | rfl
    · exact .null _
    · exact .text _ ⟨_, .pair (by decide) (by decide) .nil⟩
  exact ⟨raw, _, hgives, hspells, (bet_texts_exact raw).2.2.2 _ _ hgives hspells⟩

end BetCommand

end Cardroom
