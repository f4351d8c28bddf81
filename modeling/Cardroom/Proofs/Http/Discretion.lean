import Cardroom.Http.Router
import Cardroom.Proofs.Http.Credentials
import Cardroom.Proofs.Floor.Run

namespace Cardroom

namespace AccessToken

variable {secret : String} {now : Int} {token : String} {e : AuthError}

theorem ne_missingToken_of_decodePart {part : List Char} (h : decodePart part = .error e) :
    e ≠ .missingToken := by
  unfold decodePart at h
  split at h <;> cases h
  exact nofun

theorem ne_missingToken_of_readPart {α : Type} {part : List Char} {read? : Json → Option α}
    (h : readPart part read? = .error e) : e ≠ .missingToken := by
  unfold readPart at h
  cases hbytes : decodePart part with
  | error e' =>
    rw [hbytes] at h
    cases h
    exact ne_missingToken_of_decodePart hbytes
  | ok bytes =>
    rw [hbytes] at h
    simp only [bind, Except.bind] at h
    split at h <;> cases h
    exact nofun

theorem ne_missingToken_of_check {c : Claims} (h : c.check now = .error e) :
    e ≠ .missingToken := by
  unfold Claims.check at h
  split at h
  · cases h
    exact nofun
  split at h
  · cases h
    exact nofun
  split at h
  · cases h
    exact nofun
  split at h
  · cases h
    exact nofun
  · cases h

theorem ne_missingToken_of_verifyParts {p : Parts} (h : verifyParts secret now p = .error e) :
    e ≠ .missingToken := by
  unfold verifyParts at h
  simp only [bind, Except.bind] at h
  split at h
  · rename_i hheader
    cases h
    exact ne_missingToken_of_readPart hheader
  split at h
  · cases h
    exact nofun
  split at h
  · rename_i hpresented
    cases h
    exact ne_missingToken_of_decodePart hpresented
  split at h
  · cases h
    exact nofun
  split at h
  · rename_i hclaims
    cases h
    exact ne_missingToken_of_readPart hclaims
  · exact ne_missingToken_of_check h

/-- What is wrong with a token is not told, only whether there was one. -/
theorem clientMessage_of_verify (h : verify secret now token = .error e) :
    e.clientMessage = if token = "" then "Missing token" else "Invalid token" := by
  unfold verify at h
  split at h
  · rename_i hempty
    cases h
    rw [if_pos (String.isEmpty_iff.1 hempty)]
    rfl
  · rename_i hempty
    rw [if_neg fun he => hempty (String.isEmpty_iff.2 he)]
    have hne : e ≠ .missingToken := by
      split at h
      · exact ne_missingToken_of_verifyParts h
      · cases h
        exact nofun
    cases e with
    | missingToken => exact absurd rfl hne
    | invalidToken fault => rfl
    | invalidUser user => rfl

end AccessToken

namespace Door

open AccessToken

variable {now : Int} {token : Option String} {room : String} {user : UserId} {record : Room}

theorem letIn_of_refused {σ : Type} [RoomStore σ] {f : Floor σ} {e : AuthError}
    (h : verify f.tokenSecret now (token.getD "") = .error e) (room : String) :
    letIn f now token room = .error (.auth e) := by
  rw [letIn, h]
  rfl

/-- Who is known by a token is asked for the room. -/
theorem letIn_of_verified {σ : Type} [RoomStore σ] {f : Floor σ}
    (h : verify f.tokenSecret now (token.getD "") = .ok user) (room : String) :
    letIn f now token room =
      match RoomCode.parse room with
      | .error fault => .error (.ofFault fault)
      | .ok code =>
        match openRoom code f with
        | .error e => .error e
        | .ok record =>
          match RoomStore.isMember f.store code user with
          | .error e => .error (.store e)
          | .ok true => .ok (user, record)
          | .ok false => .error (.notMember code user) := by
  rw [letIn, h]
  cases RoomCode.parse room with
  | error fault => rfl
  | ok code =>
    simp only [Except.mapError, bind, Except.bind]
    cases openRoom code f with
    | error e => rfl
    | ok record => rfl

theorem ne_auth_of_openRoom {σ : Type} [RoomStore σ] {f : Floor σ} {code : RoomCode}
    (e : AuthError) : openRoom code f ≠ .error (.auth e) := by
  unfold openRoom
  split
  · exact nofun
  · exact nofun
  · split <;> exact nofun

theorem ne_auth_of_verified {σ : Type} [RoomStore σ] {f : Floor σ}
    (h : verify f.tokenSecret now (token.getD "") = .ok user) (room : String) (e : AuthError) :
    letIn f now token room ≠ .error (.auth e) := by
  rw [letIn_of_verified h]
  split
  · exact nofun
  · split
    · rename_i hopen
      exact fun he => ne_auth_of_openRoom e (hopen.trans (congrArg Except.error (Except.error.inj he)))
    · split <;> exact nofun

theorem openRoom_eq_ok_iff {f : Floor Rooms} {code : RoomCode} : openRoom code f = .ok record ↔
    ∃ e, f.store.entry? code = some e ∧ e.room.status ≠ .closed ∧ record = e.room := by
  unfold openRoom
  simp only [RoomStore.room]
  cases f.store.entry? code with
  | none => simp
  | some e =>
    simp only [Option.map_some, Option.some.injEq, exists_eq_left']
    split <;> simp_all [eq_comm]

theorem isMember_eq {store : Rooms} {code : RoomCode} {e : RoomEntry}
    (h : store.entry? code = some e) (user : UserId) :
    RoomStore.isMember store code user = .ok (e.has user) := by
  simp only [RoomStore.isMember, Rooms.isMember, h, Option.any_some]

theorem letIn_eq_ok_iff (f : Floor Rooms) : letIn f now token room = .ok (user, record) ↔
    verify f.tokenSecret now (token.getD "") = .ok user ∧ ∃ code e, code.text = room ∧
      f.store.entry? code = some e ∧ e.room.status ≠ .closed ∧ e.has user = true ∧
        record = e.room := by
  cases hverify : verify f.tokenSecret now (token.getD "") with
  | error e =>
    rw [letIn_of_refused hverify]
    exact ⟨nofun, fun h => nomatch h.1⟩
  | ok known =>
    rw [letIn_of_verified hverify]
    constructor
    · intro h
      split at h
      · cases h
      rename_i code hparse
      split at h
      · cases h
      rename_i found hopen
      obtain ⟨e, he, hstatus, rfl⟩ := openRoom_eq_ok_iff.1 hopen
      rw [isMember_eq he] at h
      cases hhas : e.has known with
      | false =>
        rw [hhas] at h
        cases h
      | true =>
        rw [hhas] at h
        cases h
        exact ⟨rfl, code, e, RoomCode.text_of_parse hparse, he, hstatus, hhas, rfl⟩
    · rintro ⟨hknown, code, e, rfl, he, hstatus, hhas, rfl⟩
      cases hknown
      simp only [RoomCode.parse_text, openRoom_eq_ok_iff.2 ⟨e, he, hstatus, rfl⟩,
        isMember_eq he, hhas]

end Door

namespace Http

open AccessToken

/-- A request for a socket on a side of a room that comes with this text for the room and this token,
and that can be read so far. -/
structure Asks (r : Request) (side : Side) (room : String) (token : Option String) : Prop where
  method : r.method = "GET" ∨ r.method = "HEAD"
  path : ∃ bytes, Route.ofPath? r.path = some (.socket side bytes) ∧
    Text.Utf8.text? (Text.Percent.decode bytes) = some room
  token : ∃ queryToken, queryToken? r.query = some queryToken ∧
    token? (r.headerValues "authorization") queryToken = token

def socketAnswer (r : Request) (upgradable : Bool) : Except AuthError UserId → Response
  | .error e => .unauthorized e
  | .ok _ => .empty ((handshakeFault? r upgradable).getD 101)

section

variable {σ : Type} [RoomStore σ] {r : Request} {side : Side} {room : String}
variable {token : Option String}

theorem answer_socketReply (s : Server σ) (r : Request) (upgradable : Bool) (side : Side)
    (room : String) (token : Option String) :
    (socketReply s r upgradable side room token).answer =
      socketAnswer r upgradable (verify s.floor.tokenSecret s.timeOfDay (token.getD "")) := by
  cases hverify : verify s.floor.tokenSecret s.timeOfDay (token.getD "") with
  | error e =>
    rw [socketReply, Door.letIn_of_refused hverify]
    rfl
  | ok user =>
    unfold socketReply
    dsimp only
    split
    · rename_i e hauth
      exact absurd hauth (Door.ne_auth_of_verified hverify room e)
    · rw [socketAnswer]
      cases handshakeFault? r upgradable with
      | some status => rfl
      | none => cases Door.letIn s.floor s.timeOfDay token room <;> rfl

theorem answer_withoutBody (reply : Reply) :
    reply.withoutBody.answer = reply.answer.withoutBody := by
  cases reply <;> rfl

theorem Asks.reply_eq (h : Asks r side room token) (s : Server σ) (upgradable : Bool) :
    reply s r upgradable =
      if r.method = "GET" then socketReply s r upgradable side room token
      else (socketReply s r upgradable side room token).withoutBody := by
  obtain ⟨bytes, hpath, htext⟩ := h.path
  obtain ⟨queryToken, hquery, htoken⟩ := h.token
  have hget : getReply s r upgradable (.socket side bytes) =
      socketReply s r upgradable side room token := by
    rw [getReply, htext, hquery]
    dsimp only
    rw [htoken]
  have hoptions : r.method ≠ "OPTIONS" := by
    rcases h.method with hm | hm <;> rw [hm] <;> decide
  rw [reply, if_neg hoptions, hpath]
  dsimp only
  rw [hget]
  rcases h.method with hm | hm
  · rw [if_pos hm, if_pos hm]
  · have hne : r.method ≠ "GET" := by
      rw [hm]
      decide
    rw [if_neg hne, if_pos hm, if_neg hne]

theorem Asks.reply_cases (h : Asks r side room token) (s : Server σ) (upgradable : Bool) :
    reply s r upgradable = socketReply s r upgradable side room token ∨
      reply s r upgradable = (socketReply s r upgradable side room token).withoutBody := by
  rw [h.reply_eq s upgradable]
  split
  · exact .inl rfl
  · exact .inr rfl

/-- Neither the room nor the store decides the answer. -/
theorem Asks.answer_reply (h : Asks r side room token) (s : Server σ) (upgradable : Bool) :
    (reply s r upgradable).answer =
      if r.method = "GET" then
        socketAnswer r upgradable (verify s.floor.tokenSecret s.timeOfDay (token.getD ""))
      else
        (socketAnswer r upgradable
          (verify s.floor.tokenSecret s.timeOfDay (token.getD ""))).withoutBody := by
  rw [h.reply_eq s upgradable]
  split
  · rw [answer_socketReply]
  · rw [answer_withoutBody, answer_socketReply]

/-- All that a request can come to. Until a socket opens nothing happens to the server. -/
theorem openSocket_cases (s : Server σ) (r : Request) :
    (∃ response, openSocket s r = (.refused response, s)) ∨ openSocket s r = (.dropped, s) ∨
      ∃ side code user,
        openSocket s r = (.opened s.clients.length, (s.openClient side code user).settle) := by
  unfold openSocket
  cases reply s r true with
  | respond response => exact .inl ⟨response, rfl⟩
  | drop => exact .inr (.inl rfl)
  | attend side code user => exact .inr (.inr ⟨side, code, user, rfl⟩)

theorem openSocket_of_unknown (h : Asks r side room token) {s : Server σ} {e : AuthError}
    (hverify : verify s.floor.tokenSecret s.timeOfDay (token.getD "") = .error e) :
    openSocket s r = (.refused (reply s r true).answer, s) := by
  have hreply : socketReply s r true side room token = .respond (.unauthorized e) := by
    rw [socketReply, Door.letIn_of_refused hverify]
  obtain e | e := h.reply_cases s true
  · rw [openSocket, e, hreply]
    rfl
  · rw [openSocket, e, hreply]
    rfl

theorem openSocket_of_turnedAway (h : Asks r side room token) {s : Server σ} {user : UserId}
    {e : RoomError}
    (hverify : verify s.floor.tokenSecret s.timeOfDay (token.getD "") = .ok user)
    (hdoor : Door.letIn s.floor s.timeOfDay token room = .error e) :
    openSocket s r = (.dropped, s) ∨ ∃ status, openSocket s r = (.refused (.empty status), s) := by
  have hreply : socketReply s r true side room token = .drop ∨
      ∃ status, socketReply s r true side room token = .respond (.empty status) := by
    unfold socketReply
    rw [hdoor]
    dsimp only
    split
    · rename_i e' hauth
      exact absurd (hdoor.trans hauth) (Door.ne_auth_of_verified hverify room e')
    · cases handshakeFault? r true with
      | none => exact .inl rfl
      | some status => exact .inr ⟨status, rfl⟩
  obtain hdrop | ⟨status, hrefused⟩ := hreply
  · left
    obtain e | e := h.reply_cases s true <;> rw [openSocket, e, hdrop]
    rfl
  · refine .inr ⟨status, ?_⟩
    obtain e | e := h.reply_cases s true <;> rw [openSocket, e, hrefused]
    rfl

theorem openSocket_of_letIn (h : Asks r side room token) {s : Server σ} {user : UserId}
    {record : Room} (hdoor : Door.letIn s.floor s.timeOfDay token room = .ok (user, record))
    (hhandshake : handshakeFault? r true = none) :
    openSocket s r =
      (.opened s.clients.length, (s.openClient side record.code user).settle) := by
  have hreply : socketReply s r true side room token = .attend side record.code user := by
    rw [socketReply, hdoor, hhandshake]
  obtain e | e := h.reply_cases s true <;> rw [openSocket, e, hreply]
  rfl

end

theorem handshakeFault?_congr {r r' : Request} (hmethod : r.method = r'.method)
    (hheaders : r.headers = r'.headers) (upgradable : Bool) :
    handshakeFault? r upgradable = handshakeFault? r' upgradable := by
  obtain ⟨method, path, query, headers⟩ := r
  obtain ⟨method', path', query', headers'⟩ := r'
  cases hmethod
  cases hheaders
  rfl

/-- Let in is exactly who is known by the token and a member of a room that the store has and that is
not closed. Who is not known gets one answer, whatever the room and the store. Who is known gets one
answer for all rooms and all stores; if the room is not for them the server does nothing else, and a
client who is let in is all that it takes on otherwise. -/
theorem rooms_hidden :
    (∀ (f : Floor Rooms) (now : Int) (token : Option String) (room : String) (user : UserId)
      (record : Room), Door.letIn f now token room = .ok (user, record) ↔
        verify f.tokenSecret now (token.getD "") = .ok user ∧ ∃ code e, code.text = room ∧
          f.store.entry? code = some e ∧ e.room.status ≠ .closed ∧ e.has user = true ∧
            record = e.room) ∧
    (∀ (f : Floor Rooms) (now : Int) (token : Option String) (e : AuthError),
      verify f.tokenSecret now (token.getD "") = .error e →
        ∀ room, Door.letIn f now token room = .error (.auth e)) ∧
    (∀ (s : Server Rooms) (r : Request) (upgradable : Bool) (side : Side) (room : String)
      (token : Option String) (e : AuthError), Asks r side room token →
      verify s.floor.tokenSecret s.timeOfDay (token.getD "") = .error e →
        (reply s r upgradable).answer = ⟨401, .text (if r.method = "GET" then
          if token.getD "" = "" then "Missing token" else "Invalid token" else "")⟩ ∧
        openSocket s r = (.refused (reply s r true).answer, s)) ∧
    (∀ (s s' : Server Rooms) (r r' : Request) (upgradable : Bool) (side side' : Side)
      (room room' : String) (token token' : Option String) (user user' : UserId),
      Asks r side room token → Asks r' side' room' token' →
      verify s.floor.tokenSecret s.timeOfDay (token.getD "") = .ok user →
      verify s'.floor.tokenSecret s'.timeOfDay (token'.getD "") = .ok user' →
      r.method = r'.method → r.headers = r'.headers →
        (reply s r upgradable).answer = (reply s' r' upgradable).answer) ∧
    (∀ (s : Server Rooms) (r : Request) (side : Side) (room : String) (token : Option String)
      (user : UserId), Asks r side room token →
      verify s.floor.tokenSecret s.timeOfDay (token.getD "") = .ok user →
        (∀ e, Door.letIn s.floor s.timeOfDay token room = .error e →
          openSocket s r = (.dropped, s) ∨
            ∃ status, openSocket s r = (.refused (.empty status), s)) ∧
        ∀ record, Door.letIn s.floor s.timeOfDay token room = .ok (user, record) →
          handshakeFault? r true = none → openSocket s r =
            (.opened s.clients.length, (s.openClient side record.code user).settle)) ∧
    ∀ (s : Server Rooms) (r : Request), (openSocket s r).2 = s ∨ ∃ side code user,
      (openSocket s r).2 = (s.openClient side code user).settle ∧
      (s.openClient side code user).floor.store = s.floor.store ∧
      (s.openClient side code user).floor.tables = s.floor.tables ∧
      (s.openClient side code user).floor.lobby = s.floor.lobby ∧
      (s.openClient side code user).floor.table = s.floor.table := by
  refine ⟨fun f now token room user record => Door.letIn_eq_ok_iff f,
    fun f now token e h room => Door.letIn_of_refused h room, ?_, ?_, ?_, ?_⟩
  · intro s r upgradable side room token e h hverify
    refine ⟨?_, openSocket_of_unknown h hverify⟩
    rw [h.answer_reply, hverify, socketAnswer, Response.unauthorized,
      clientMessage_of_verify hverify]
    split <;> rfl
  · intro s s' r r' upgradable side side' room room' token token' user user' h h' hv hv' hm hh
    rw [h.answer_reply, h'.answer_reply, hv, hv', hm, socketAnswer, socketAnswer,
      handshakeFault?_congr hm hh]
  · intro s r side room token user h hverify
    exact ⟨fun e hdoor => openSocket_of_turnedAway h hverify hdoor,
      fun record hdoor hhandshake => openSocket_of_letIn h hdoor hhandshake⟩
  · intro s r
    obtain ⟨response, h⟩ | h | ⟨side, code, user, h⟩ := openSocket_cases s r
    · exact .inl (congrArg Prod.snd h)
    · exact .inl (congrArg Prod.snd h)
    · exact .inr ⟨side, code, user, congrArg Prod.snd h, rfl, rfl, rfl, rfl⟩

def knock (path token : String) : Request where
  method := "GET"
  path := path
  query := ""
  headers := ("authorization", Text.Utf8.encode ("Bearer " ++ token)) :: handshakeHeaders

theorem asks_knock {path room token : String} (bytes : List UInt8)
    (hpath : Route.ofPath? path = some (.socket .lobby bytes))
    (hroom : Text.Utf8.text? (Text.Percent.decode bytes) = some room)
    (hvisible : ∀ c ∈ token.toList, isVisible c = true) (hne : token ≠ "") :
    Asks (knock path token) .lobby room (some token) where
  method := .inl rfl
  path := ⟨bytes, hpath, hroom⟩
  token := by
    have hquery : queryToken? "" = some none := by decide +kernel
    have hothers : handshakeHeaders.filter (fun x => decide (x.1 = "authorization")) = [] := by
      decide +kernel
    refine ⟨none, hquery, ?_⟩
    rw [Request.headerValues, knock, List.filter_cons_of_pos (by simp), hothers]
    exact token?_bearer hvisible hne [] none

/-- The member of the parlour comes with a token; there is no room of another code. Without a token
that holds, both doors say the same. -/
theorem rooms_hidden_parlour :
    let token := issue "" 1 1700000000
    let server := Server.new parlour 1700000000
    Door.letIn parlour 1700000000 (some token) "7" =
        .ok (1, ⟨parlourRoom, .waiting, 6, 1⟩) ∧
      (reply server (knock "/api/ws/room/7" token) true).answer =
        (reply server (knock "/api/ws/room/8" token) true).answer ∧
      (openSocket server (knock "/api/ws/room/8" token)).2 = server ∧
      (reply server (knock "/api/ws/room/7" "forged") true).answer = ⟨401, .text "Invalid token"⟩ ∧
      (reply server (knock "/api/ws/room/8" "forged") true).answer =
        ⟨401, .text "Invalid token"⟩ := by
  intro token server
  have htime : server.timeOfDay = 1700000000 := by decide
  have hverify : verify server.floor.tokenSecret server.timeOfDay ((some token).getD "") = .ok 1 := by
    rw [htime]
    exact (verify_issued rfl rfl).trans rfl
  have hforged : verify server.floor.tokenSecret server.timeOfDay ((some "forged").getD "") =
      .error (.invalidToken .malformed) := by
    decide +kernel
  have hseven : ∀ t : String, (∀ c ∈ t.toList, isVisible c = true) → t ≠ "" →
      Asks (knock "/api/ws/room/7" t) .lobby "7" (some t) := fun t hv hne =>
    asks_knock [55] (by decide +kernel) (by decide +kernel) hv hne
  have height : ∀ t : String, (∀ c ∈ t.toList, isVisible c = true) → t ≠ "" →
      Asks (knock "/api/ws/room/8" t) .lobby "8" (some t) := fun t hv hne =>
    asks_knock [56] (by decide +kernel) (by decide +kernel) hv hne
  have hvisible : ∀ c ∈ token.toList, isVisible c = true := fun c hc => isVisible_of_mem_issue hc
  have hne : token ≠ "" := issue_ne_empty "" 1 1700000000
  have hvisible' : ∀ c ∈ "forged".toList, isVisible c = true := by simp [isVisible]
  have hnoRoom : ∃ e, Door.letIn server.floor server.timeOfDay (some token) "8" = .error e := by
    obtain ⟨eight, htext⟩ : ∃ code : RoomCode, code.text = "8" := ⟨⟨"8", by decide⟩, rfl⟩
    have hentry : server.floor.store.entry? eight = none := by
      obtain ⟨_, _⟩ := eight
      cases htext
      rfl
    refine ⟨.notFound eight, ?_⟩
    rw [Door.letIn_of_verified hverify, ← htext, RoomCode.parse_text]
    simp only [Door.openRoom, RoomStore.room, hentry, Option.map_none]
  refine ⟨?_, ?_, ?_, ?_, ?_⟩
  · rw [← htime]
    exact (rooms_hidden.1 parlour _ _ _ _ _).2
      ⟨hverify, parlourRoom, _, rfl, rfl, by decide, rfl, rfl⟩
  · exact rooms_hidden.2.2.2.1 server server _ _ true .lobby .lobby "7" "8" _ _ 1 1
      (hseven token hvisible hne) (height token hvisible hne) hverify hverify rfl rfl
  · obtain ⟨e, hnoRoom⟩ := hnoRoom
    obtain h | ⟨status, h⟩ := (rooms_hidden.2.2.2.2.1 server _ .lobby "8" _ 1
      (height token hvisible hne) hverify).1 e hnoRoom <;> rw [h]
  · exact (rooms_hidden.2.2.1 server _ true .lobby "7" _ _ (hseven _ hvisible' (by decide))
      hforged).1.trans (by simp [knock])
  · exact (rooms_hidden.2.2.1 server _ true .lobby "8" _ _ (height _ hvisible' (by decide))
      hforged).1.trans (by simp [knock])

end Http

end Cardroom
