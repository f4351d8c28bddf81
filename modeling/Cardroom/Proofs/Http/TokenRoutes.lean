import Cardroom.Proofs.Http.Discretion
import Cardroom.Proofs.Text.Percent

namespace Cardroom.Http

open AccessToken Text
open Text.Percent (isTokenChar IsOther Spells)

variable {t query : String} {authorization more : List (List UInt8)}

structure IsTokenText (t : String) : Prop where
  ne : t ≠ ""
  chars : ∀ c ∈ t.toList, isTokenChar c = true

theorem isVisible_of_isTokenChar {c : Char} (h : isTokenChar c = true) : isVisible c = true :=
  Percent.of_isTokenChar (by decide) h

theorem isTokenChar_digit (v : Nat) : isTokenChar (Base64Url.digit v) = true := by
  have hall : ∀ n : Fin 64, isTokenChar (Base64Url.digit n.val) = true := by decide
  by_cases hv : v < 64
  · exact hall ⟨v, hv⟩
  · rw [Base64Url.digit, if_neg (by omega), if_neg (by omega), if_neg (by omega), if_neg (by omega)]
    decide

theorem isTokenText_issue (secret : String) (user expiry : Int) :
    IsTokenText (issue secret user expiry) where
  ne := issue_ne_empty secret user expiry
  chars c hc := by
    have hencode : ∀ bytes, ∀ c ∈ Base64Url.encode bytes, isTokenChar c = true := by
      intro bytes c hc
      rw [Base64Url.encode_eq] at hc
      obtain ⟨v, -, rfl⟩ := List.mem_map.1 hc
      exact isTokenChar_digit v
    rw [issue, String.toList_ofList] at hc
    simp only [List.mem_append, List.mem_cons, encodePart] at hc
    rcases hc with (hc | rfl | hc) | rfl | hc
    · exact hencode _ c hc
    · decide
    · exact hencode _ c hc
    · decide
    · exact hencode _ c hc

def bearerValue (m : Nat) (t : String) (n : Nat) : List UInt8 :=
  Utf8.encode (String.ofList
    ("Bearer".toList ++ (List.replicate m ' ' ++ t.toList ++ List.replicate n ' ')))

def StartsBearer (authorization : List (List UInt8)) : Prop :=
  ∃ rest, authorization.head?.bind headerText? = some ("Bearer".toList ++ rest) ∧
    (rest = [] ∨ ∃ r, rest = ' ' :: r)

theorem bearer?_eq_some_iff {cs rest : List Char} : bearer? cs = some rest ↔
    cs = "Bearer".toList ++ rest ∧ (rest = [] ∨ ∃ r, rest = ' ' :: r) := by
  have hword : "Bearer".toList = ['B', 'e', 'a', 'r', 'e', 'r'] := String.toList_ofList
  rw [hword]
  unfold bearer?
  split
  · rename_i behind
    simp only [List.cons_append, List.nil_append, List.cons.injEq, true_and]
    cases behind with
    | nil =>
      refine ⟨fun h => ?_, fun h => congrArg some h.1⟩
      cases h
      exact ⟨rfl, .inl rfl⟩
    | cons c r =>
      dsimp only
      split
      · rename_i hc
        refine ⟨fun h => ?_, fun h => congrArg some h.1⟩
        cases h
        exact ⟨rfl, .inr ⟨r, by rw [hc]⟩⟩
      · rename_i hc
        refine ⟨fun h => absurd h (Option.some_ne_none rest).symm, ?_⟩
        rintro ⟨rfl, h | ⟨_, h⟩⟩ <;> cases h
        exact absurd rfl hc
  · rename_i hno
    exact ⟨fun h => absurd h (Option.some_ne_none rest).symm, fun h => (hno rest h.1).elim⟩

theorem dropWhile_replicate_append (n : Nat) (cs : List Char) :
    (List.replicate n ' ' ++ cs).dropWhile isBlank = cs.dropWhile isBlank :=
  List.dropWhile_append_of_pos fun c hc => by
    rw [List.eq_of_mem_replicate hc]
    decide

theorem dropWhile_of_visible {cs : List Char} (h : ∀ c ∈ cs, isVisible c = true) (hne : cs ≠ [])
    (rest : List Char) : (cs ++ rest).dropWhile isBlank = cs ++ rest := by
  obtain ⟨c, cs, rfl⟩ := List.exists_cons_of_ne_nil hne
  rw [List.cons_append, List.dropWhile_cons_of_neg]
  simp [isBlank_of_isVisible (h c List.mem_cons_self)]

theorem trim_padded {cs : List Char} (h : ∀ c ∈ cs, isVisible c = true) (m n : Nat) :
    trim (List.replicate m ' ' ++ cs ++ List.replicate n ' ') = cs := by
  have hblanks : ∀ k, (List.replicate k ' ').dropWhile isBlank = [] := fun k => by
    simpa using dropWhile_replicate_append k []
  rw [trim, List.append_assoc, dropWhile_replicate_append]
  by_cases hne : cs = []
  · rw [hne, List.nil_append, hblanks]
    rfl
  · have hrev : ∀ c ∈ cs.reverse, isVisible c = true := fun c hc => h c (List.mem_reverse.1 hc)
    rw [dropWhile_of_visible h hne, List.reverse_append, List.reverse_replicate,
      dropWhile_replicate_append, ← List.append_nil cs.reverse,
      dropWhile_of_visible hrev (by simpa using hne), List.append_nil, List.reverse_reverse]

theorem credentials?_bearerValue (ht : ∀ c ∈ t.toList, isVisible c = true) {m : Nat}
    (hm : m = 0 → t = "") (n : Nat) (more : List (List UInt8)) :
    credentials? (bearerValue m t n :: more) = some t.toList := by
  have hword : ∀ c ∈ "Bearer".toList, isVisible c = true := by simp [isVisible]
  have htext : headerText? (bearerValue m t n) =
      some ("Bearer".toList ++ (List.replicate m ' ' ++ t.toList ++ List.replicate n ' ')) := by
    rw [bearerValue, headerText?_encode, String.toList_ofList]
    intro c hc
    simp only [String.toList_ofList, List.mem_append, List.mem_replicate] at hc
    obtain hc | (hc | hc) | hc := hc
    · exact .inl (hword c hc)
    · exact .inr hc.2
    · exact .inl (ht c hc)
    · exact .inr hc.2
  have hbearer : bearer? ("Bearer".toList ++
      (List.replicate m ' ' ++ t.toList ++ List.replicate n ' ')) =
        some (List.replicate m ' ' ++ t.toList ++ List.replicate n ' ') := by
    refine bearer?_eq_some_iff.2 ⟨rfl, ?_⟩
    cases m with
    | succ m => exact .inr ⟨_, rfl⟩
    | zero =>
      rw [hm rfl]
      cases n with
      | zero => exact .inl rfl
      | succ n => exact .inr ⟨_, rfl⟩
  rw [credentials?, List.head?_cons, Option.bind_some, htext, Option.bind_some, hbearer,
    Option.map_some, trim_padded ht]

theorem token?_bearerValue (ht : IsTokenText t) (m n : Nat) (more : List (List UInt8))
    (queryToken : Option String) :
    token? (bearerValue (m + 1) t n :: more) queryToken = some t := by
  have hcredentials := credentials?_bearerValue
    (fun c hc => isVisible_of_isTokenChar (ht.chars c hc)) (m := m + 1) (by simp) n more
  rw [token?, hcredentials]
  cases hlist : t.toList with
  | nil => exact absurd (String.toList_eq_nil_iff.1 hlist) ht.ne
  | cons c cs =>
    change some (String.ofList (c :: cs)) = _
    rw [← hlist, String.ofList_toList]

theorem token?_bearerValue_empty (n : Nat) (more : List (List UInt8)) (queryToken : Option String) :
    token? (bearerValue 0 "" n :: more) queryToken = none := by
  have hcredentials := credentials?_bearerValue (t := "") (by simp) (m := 0) (fun _ => rfl) n more
  rw [token?, hcredentials]
  rfl

theorem token?_of_not_startsBearer (h : ¬ StartsBearer authorization)
    (queryToken : Option String) : token? authorization queryToken = queryToken := by
  have hnone : credentials? authorization = none := by
    rw [credentials?, Option.map_eq_none_iff, Option.bind_eq_none_iff]
    intro cs hcs
    refine Option.eq_none_iff_forall_ne_some.2 fun rest hrest => ?_
    obtain ⟨rfl, hblank⟩ := bearer?_eq_some_iff.1 hrest
    exact h ⟨rest, hcs, hblank⟩
  rw [token?, hnone]

def tokenCount (query : String) : Nat :=
  ((Percent.pairs (Utf8.encode query)).filter (·.1 = "token")).length

/-- The query gives the token, spelled with any of its characters as they are and the others with a
percent sign, and nothing else under the same name. -/
structure GivesToken (query t : String) : Prop where
  parts : ∃ before name value after,
    Utf8.encode query = [0x26].intercalate (before ++ (name ++ 0x3D :: value) :: after) ∧
      (∀ part ∈ before, IsOther "token" part) ∧ (∀ part ∈ after, IsOther "token" part) ∧
      Spells "token".toList name ∧ Spells t.toList value

theorem isSome_queryToken?_iff : (queryToken? query).isSome = true ↔ tokenCount query ≤ 1 := by
  unfold queryToken? tokenCount
  generalize (Percent.pairs (Utf8.encode query)).filter (·.1 = "token") = pairs
  obtain _ | ⟨pair, _ | ⟨next, pairs⟩⟩ := pairs
  · simp
  · simp
  · simp

theorem GivesToken.queryToken?_eq (h : GivesToken query t) (ht : IsTokenText t) :
    queryToken? query = some (some t) := by
  obtain ⟨before, name, value, after, hquery, hbefore, hafter, hname, hvalue⟩ := h.parts
  have hword : "token".toList = ['t', 'o', 'k', 'e', 'n'] := String.toList_ofList
  have hchars : ∀ c ∈ "token".toList, isTokenChar c = true := by
    simp only [hword, List.forall_mem_cons]
    exact ⟨rfl, rfl, rfl, rfl, rfl, nofun⟩
  have hquiet : ∀ {bytes : List UInt8}, (∀ b ∈ bytes, Percent.isQuiet b = true) →
      0x26 ∉ bytes ∧ 0x3D ∉ bytes := fun hall =>
    ⟨fun hmem => absurd (hall _ hmem) (by decide), fun hmem => absurd (hall _ hmem) (by decide)⟩
  have hpairs := Percent.filter_pairs hbefore hafter
    ((Percent.formText_of_spells hname hchars).trans String.ofList_toList)
    (hquiet (hname.isQuiet hchars)) (hquiet (hvalue.isQuiet ht.chars)).1
  rw [Percent.formText_of_spells hvalue ht.chars, String.ofList_toList] at hpairs
  rw [queryToken?, hquery, hpairs]

theorem spells_plain (cs : List Char) : Spells cs (cs.map fun c => c.toNat.toUInt8) := by
  induction cs with
  | nil => exact .nil
  | cons c cs ih => exact .plain ih

theorem givesToken_plain (ht : IsTokenText t) : GivesToken ("token=" ++ t) t where
  parts := by
    have hword : "token=".toList = "token".toList ++ ['='] := by
      have hfront : "token".toList = ['t', 'o', 'k', 'e', 'n'] := String.toList_ofList
      have hwhole : "token=".toList = ['t', 'o', 'k', 'e', 'n', '='] := String.toList_ofList
      rw [hfront, hwhole]
      rfl
    have hbytes : ∀ cs : List Char, (∀ c ∈ cs, c.toNat < 0x7F) →
        cs.flatMap String.utf8EncodeChar = cs.map fun c => c.toNat.toUInt8 := fun cs hcs => by
      rw [List.map_eq_flatMap]
      exact List.flatMap_congr fun c hc => utf8EncodeChar_of_lt (hcs c hc)
    have hchars : ∀ c ∈ t.toList, c.toNat < 0x7F := fun c hc => by
      have hv := isVisible_of_isTokenChar (ht.chars c hc)
      simp only [isVisible, Bool.and_eq_true, decide_eq_true_eq] at hv
      exact hv.2
    refine ⟨[], _, _, [], ?_, List.forall_mem_nil _, List.forall_mem_nil _, spells_plain _, spells_plain _⟩
    have hfront : ∀ c ∈ "token".toList ++ ['='], c.toNat < 0x7F := by simp
    rw [Utf8.encode, String.toList_append, hword, List.flatMap_append, hbytes t.toList hchars,
      hbytes _ hfront]
    simp

/-- The token that comes with these header values and this query, if the query gives no two. -/
def presented? (authorization : List (List UInt8)) (query : String) : Option (Option String) :=
  (queryToken? query).map (token? authorization)

theorem presented?_eq_some_iff {token : Option String} :
    presented? authorization query = some token ↔
      ∃ queryToken, queryToken? query = some queryToken ∧ token? authorization queryToken = token :=
  Option.map_eq_some_iff

theorem presented?_of_forall {token : Option String} (hquery : tokenCount query ≤ 1)
    (h : ∀ queryToken, token? authorization queryToken = token) :
    presented? authorization query = some token := by
  obtain ⟨queryToken, hq⟩ := Option.isSome_iff_exists.1 (isSome_queryToken?_iff.2 hquery)
  exact presented?_eq_some_iff.2 ⟨queryToken, hq, h queryToken⟩

/-- Two requests that differ in nothing but the authorization and the query. -/
structure SameOtherwise (r r' : Request) : Prop where
  method : r.method = r'.method
  path : r.path = r'.path
  headers : ∀ name, name ≠ "authorization" → r.headerValues name = r'.headerValues name

variable {σ : Type} [RoomStore σ] {r r' : Request}

theorem SameOtherwise.handshakeFault? (h : SameOtherwise r r') (upgradable : Bool) :
    handshakeFault? r upgradable = handshakeFault? r' upgradable := by
  have hheader : ∀ name, name ≠ "authorization" → r.header? name = r'.header? name :=
    fun name hname => congrArg List.head? (h.headers name hname)
  simp only [Http.handshakeFault?, lowerHeader?, h.method, hheader "connection" (by decide),
    hheader "upgrade" (by decide), hheader "sec-websocket-key" (by decide),
    hheader "sec-websocket-version" (by decide)]
  rfl

/-- Requests that come with the same token are answered alike. -/
theorem SameOtherwise.reply (h : SameOtherwise r r') {token : Option String}
    (hr : presented? (r.headerValues "authorization") r.query = some token)
    (hr' : presented? (r'.headerValues "authorization") r'.query = some token) (s : Server σ)
    (upgradable : Bool) : reply s r upgradable = reply s r' upgradable := by
  obtain ⟨queryToken, hquery, htoken⟩ := presented?_eq_some_iff.1 hr
  obtain ⟨queryToken', hquery', htoken'⟩ := presented?_eq_some_iff.1 hr'
  have hget : ∀ route, getReply s r upgradable route = getReply s r' upgradable route := by
    rintro (_ | ⟨side, room⟩)
    · rfl
    · simp only [getReply, hquery, hquery', socketReply, h.handshakeFault?]
      cases Utf8.text? (Percent.decode room)
      · rfl
      · simp only [htoken, htoken']
  simp only [Http.reply, h.method, h.path, hget]

/-- A token comes out as it is after the word `Bearer` and blanks in the first authorization header,
whatever the query gives, and from the query where that header does not begin so. Every issued token
is one; so whoever comes with it is let in or refused, and the request answered, alike either way. The
word `Bearer` alone gives none. -/
theorem token_routes_agree :
    (∀ secret user expiry, IsTokenText (issue secret user expiry)) ∧
    (∀ t, IsTokenText t → ∀ m n more query, tokenCount query ≤ 1 →
      presented? (bearerValue (m + 1) t n :: more) query = some (some t)) ∧
    (∀ t, IsTokenText t → ∀ authorization query, ¬ StartsBearer authorization →
      GivesToken query t → presented? authorization query = some (some t)) ∧
    (∀ secret user expiry m n more query authorization query', tokenCount query ≤ 1 →
      ¬ StartsBearer authorization → GivesToken query' (issue secret user expiry) →
        ∀ (f : Floor σ) now room,
          ((presented? (bearerValue (m + 1) (issue secret user expiry) n :: more) query).map
            fun token => Door.letIn f now token room) =
          (presented? authorization query').map fun token => Door.letIn f now token room) ∧
    (∀ secret user expiry m n more (r r' : Request), SameOtherwise r r' →
      r.headerValues "authorization" = bearerValue (m + 1) (issue secret user expiry) n :: more →
      tokenCount r.query ≤ 1 → ¬ StartsBearer (r'.headerValues "authorization") →
      GivesToken r'.query (issue secret user expiry) →
        ∀ (s : Server σ) upgradable, reply s r upgradable = reply s r' upgradable) ∧
    (∀ n more query, tokenCount query ≤ 1 →
      presented? (bearerValue 0 "" n :: more) query = some none) := by
  have hheader : ∀ t, IsTokenText t → ∀ m n more query, tokenCount query ≤ 1 →
      presented? (bearerValue (m + 1) t n :: more) query = some (some t) :=
    fun t ht m n more query hquery =>
      presented?_of_forall hquery (token?_bearerValue ht m n more)
  have hquery : ∀ t, IsTokenText t → ∀ authorization query, ¬ StartsBearer authorization →
      GivesToken query t → presented? authorization query = some (some t) :=
    fun t ht authorization query hnone hgives => presented?_eq_some_iff.2
      ⟨some t, hgives.queryToken?_eq ht, token?_of_not_startsBearer hnone (some t)⟩
  refine ⟨isTokenText_issue, hheader, hquery, ?_, ?_, ?_⟩
  · intro secret user expiry m n more query authorization query' hcount hnone hgives f now room
    have ht := isTokenText_issue secret user expiry
    rw [hheader _ ht m n more query hcount, hquery _ ht authorization query' hnone hgives]
  · intro secret user expiry m n more r r' hsame hauthorization hcount hnone hgives s upgradable
    have ht := isTokenText_issue secret user expiry
    have hr : presented? (r.headerValues "authorization") r.query =
        some (some (issue secret user expiry)) := by
      rw [hauthorization]
      exact hheader _ ht m n more r.query hcount
    exact hsame.reply hr (hquery _ ht _ _ hnone hgives) s upgradable
  · intro n more query hcount
    exact presented?_of_forall hcount (token?_bearerValue_empty n more)

/-- Some of its characters spelled with a percent sign and other names around it, a token is the one
in the header; the member of the parlour is answered alike with the token in the header and in the
query. -/
theorem token_routes_agree_parlour :
    let token := issue "" 1 1700000000
    let inHeader : Request := ⟨"GET", "/api/ws/room/7", "token=other",
      ("authorization", bearerValue 1 token 0) :: handshakeHeaders⟩
    let inQuery : Request := ⟨"GET", "/api/ws/room/7", "token=" ++ token, handshakeHeaders⟩
    presented? [bearerValue 2 "a.b-_" 1, bearerValue 1 "c" 0] "token=c" = some (some "a.b-_") ∧
      presented? [[0xFF], bearerValue 1 "c" 0] "x=1&token=%61.b%2d_&&y" = some (some "a.b-_") ∧
      (presented? [bearerValue 1 token 0] "").map
          (fun token => Door.letIn parlour 1700000000 token "7") =
        (presented? [] ("token=" ++ token)).map
          (fun token => Door.letIn parlour 1700000000 token "7") ∧
      reply (Server.new parlour 1700000000) inHeader true =
        reply (Server.new parlour 1700000000) inQuery true ∧
      presented? [bearerValue 0 "" 3] "token=c" = some none := by
  intro token inHeader inQuery
  have hagree := token_routes_agree (σ := Rooms)
  have hlist : "a.b-_".toList = ['a', '.', 'b', '-', '_'] := String.toList_ofList
  have hshort : IsTokenText "a.b-_" := ⟨by decide, by
    simp only [hlist, List.forall_mem_cons]
    exact ⟨rfl, rfl, rfl, rfl, rfl, nofun⟩⟩
  have hvalue : Spells "a.b-_".toList (Utf8.encode "%61.b%2d_") := by
    have hbytes : Utf8.encode "%61.b%2d_" = [0x25, 0x36, 0x31, 0x2E, 0x62, 0x25, 0x32, 0x64, 0x5F] := by
      decide +kernel
    rw [hlist, hbytes]
    exact .percent rfl (.plain (.plain (.percent rfl (.plain .nil))))
  have hother : IsOther "token" (Utf8.encode "x=1") := ⟨by decide +kernel, by decide +kernel⟩
  have hempty : IsOther "token" [] := ⟨by decide +kernel, by decide +kernel⟩
  have hbare : IsOther "token" (Utf8.encode "y") := ⟨by decide +kernel, by decide +kernel⟩
  have hgives : GivesToken "x=1&token=%61.b%2d_&&y" "a.b-_" :=
    ⟨[Utf8.encode "x=1"], _, _, [[], Utf8.encode "y"], by decide +kernel, by simpa using hother,
      by simpa using ⟨hempty, hbare⟩, spells_plain _, hvalue⟩
  have hnone : ¬ StartsBearer [] := by
    rintro ⟨rest, h, -⟩
    cases h
  have hnoText : ¬ StartsBearer [[0xFF], bearerValue 1 "c" 0] := by
    rintro ⟨rest, h, -⟩
    cases h
  have hissued : GivesToken ("token=" ++ token) token :=
    givesToken_plain (isTokenText_issue "" 1 1700000000)
  refine ⟨?_, ?_, ?_, ?_, ?_⟩
  · exact hagree.2.1 _ hshort 1 1 _ _ (by decide +kernel)
  · exact hagree.2.2.1 _ hshort _ _ hnoText hgives
  · exact hagree.2.2.2.1 "" 1 1700000000 0 0 [] "" [] _ (by decide +kernel) hnone hissued
      parlour 1700000000 "7"
  · have hsame : SameOtherwise inHeader inQuery :=
      ⟨rfl, rfl, fun name hname => by
        rw [Request.headerValues, List.filter_cons_of_neg (by simpa using hname.symm)]
        rfl⟩
    have hquery : inQuery.headerValues "authorization" = [] := by
      decide +kernel
    have hheader : inHeader.headerValues "authorization" = [bearerValue 1 token 0] := by
      rw [Request.headerValues, List.filter_cons_of_pos (by simp)]
      exact congrArg _ hquery
    exact hagree.2.2.2.2.1 "" 1 1700000000 0 0 [] inHeader inQuery hsame hheader (by decide +kernel)
      (hquery ▸ hnone) hissued _ true
  · exact hagree.2.2.2.2.2 3 [] "token=c" (by decide +kernel)

end Cardroom.Http
