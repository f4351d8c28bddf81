import Cardroom.Proofs.Json.Records
import Cardroom.Proofs.Json.Spelling
import Cardroom.Proofs.Text.Base64Url
import Cardroom.Proofs.Text.Utf8
import Cardroom.Proofs.Token.Parts

namespace Cardroom.AccessToken

open Json Text

variable {secret : String} {user expiry now : Int}

theorem dot_not_mem_encodePart (j : Json) : '.' ∉ encodePart j := Base64Url.dot_not_mem_encode _

theorem decode?_encodePart {j : Json} (hj : Plain j) :
    (Base64Url.decode? (encodePart j)).bind parseBytes? = some j := by
  rw [encodePart, Base64Url.decode?_encode, Option.bind_some, parseBytes?_encode, hj.parse?_render]

theorem readPart_encodePart {α : Type} {j : Json} (hj : Plain j) {read? : Json → Option α} {a : α}
    (hread : read? j = some a) : readPart (encodePart j) read? = .ok a := by
  simp only [readPart, decodePart, encodePart, Base64Url.decode?_encode, bind, Except.bind,
    parseBytes?_encode, hj.parse?_render, Option.bind_some, hread]

theorem plain_headerJson : Plain headerJson := by
  refine .record fun field hfield => ?_
  simp only [List.mem_cons, List.not_mem_nil, or_false] at hfield
  rcases hfield with rfl | rfl <;> exact .ofText _

theorem plain_claimsJson (huser : isInt64 user = true) (hexpiry : isInt64 expiry = true) :
    Plain (claimsJson user expiry) := by
  refine .record fun field hfield => ?_
  simp only [List.mem_cons, List.not_mem_nil, or_false] at hfield
  rcases hfield with rfl | rfl
  · exact .ofInt (natAbs_lt_of_isInt64 huser)
  · exact .ofInt (natAbs_lt_of_isInt64 hexpiry)

theorem headerAlgorithm?_headerJson : headerAlgorithm? headerJson = some algorithm := by
  simp only [headerAlgorithm?, headerJson, record, fields?_record, Option.bind_eq_bind,
    Option.bind_some]
  rfl

theorem claimsOfJson?_claimsJson (huser : isInt64 user = true) (hexpiry : isInt64 expiry = true) :
    Claims.ofJson? (claimsJson user expiry) = some ⟨user, expiry, false⟩ := by
  simp only [Claims.ofJson?, claimsJson, record, fields?_record, Option.bind_eq_bind,
    Option.bind_some]
  change (int64? (.ofInt user)).bind (fun user => (int64? (.ofInt expiry)).bind fun expiry =>
    some (Claims.mk user expiry false)) = _
  rw [int64?_ofInt huser, int64?_ofInt hexpiry]
  rfl

/-- What was put together as a token: header and claims, and the signature over both. -/
def Parts.issued (secret : String) (user : UserId) (expiry : Int) : Parts where
  header := encodePart headerJson
  claims := encodePart (claimsJson user expiry)
  signature := Base64Url.encode
    (AccessToken.signature secret (encodePart headerJson ++ '.' :: encodePart (claimsJson user expiry)))

theorem decode?_signature_issued (secret : String) (user expiry : Int) :
    Base64Url.decode? (Parts.issued secret user expiry).signature =
      some (AccessToken.signature secret (Parts.issued secret user expiry).signed) := by
  simp only [Parts.issued, Parts.signed, Base64Url.decode?_encode]

theorem ofToken?_issue (secret : String) (user expiry : Int) :
    Parts.ofToken? (issue secret user expiry) = some (.issued secret user expiry) := by
  rw [issue, Parts.issued]
  exact Parts.ofToken?_ofList (dot_not_mem_encodePart _) (Base64Url.dot_not_mem_encode _)

theorem issue_ne_empty (secret : String) (user expiry : Int) : issue secret user expiry ≠ "" := by
  intro hempty
  have hparts := ofToken?_issue secret user expiry
  rw [hempty] at hparts
  exact absurd hparts (by simp [Parts.ofToken?, splitLast?])

theorem check_of_no_audience (user : UserId) (expiry now : Int) :
    Claims.check ⟨user, expiry, false⟩ now =
      if expiry < 0 then .error (.invalidToken .missingExpiry)
      else if expiry < now - 60 then .error (.invalidToken .expired)
      else if user ≤ 0 then .error (.invalidUser user)
      else .ok user := rfl

theorem verifyParts_issued (huser : isInt64 user = true) (hexpiry : isInt64 expiry = true) :
    verifyParts secret now (.issued secret user expiry) =
      Claims.check ⟨user, expiry, false⟩ now := by
  have hheader := readPart_encodePart plain_headerJson headerAlgorithm?_headerJson
  have hclaims := readPart_encodePart (plain_claimsJson huser hexpiry)
    (claimsOfJson?_claimsJson huser hexpiry)
  simp only [verifyParts, Parts.issued, Parts.signed, hheader, hclaims, decodePart,
    Base64Url.decode?_encode, bind, Except.bind, ne_eq, not_true_eq_false, if_false]

theorem verify_issued (huser : isInt64 user = true) (hexpiry : isInt64 expiry = true) :
    verify secret now (issue secret user expiry) = Claims.check ⟨user, expiry, false⟩ now := by
  have hempty : (issue secret user expiry).isEmpty = false := by
    rw [Bool.eq_false_iff, ne_eq, String.isEmpty_iff]
    exact issue_ne_empty secret user expiry
  simp only [verify, hempty, ofToken?_issue, Bool.false_eq_true, if_false]
  exact verifyParts_issued huser hexpiry

/-- An issued token comes out as what it was issued for. It is never empty, it falls into its three
parts at the last two dots and each part is read as it was written, whatever the secret. -/
theorem verify_issue (secret : String) (now : Int) {user expiry : Int}
    (huser : isInt64 user = true) (hexpiry : isInt64 expiry = true) :
    issue secret user expiry ≠ "" ∧
      (∃ p : Parts, Parts.ofToken? (issue secret user expiry) = some p ∧
        (Base64Url.decode? p.header).bind parseBytes? = some headerJson ∧
        (Base64Url.decode? p.claims).bind parseBytes? = some (claimsJson user expiry) ∧
        Base64Url.decode? p.signature = some (signature secret p.signed)) ∧
      verify secret now (issue secret user expiry) =
        if expiry < 0 then .error (.invalidToken .missingExpiry)
        else if expiry < now - 60 then .error (.invalidToken .expired)
        else if user ≤ 0 then .error (.invalidUser user)
        else .ok user := by
  refine ⟨issue_ne_empty secret user expiry, ⟨_, ofToken?_issue secret user expiry,
    decode?_encodePart plain_headerJson, decode?_encodePart (plain_claimsJson huser hexpiry),
    decode?_signature_issued secret user expiry⟩, ?_⟩
  rw [verify_issued huser hexpiry, check_of_no_audience]

theorem verify_issue_extremes :
    verify "" 1700000000 (issue "" (-0x8000000000000000) 0x7FFFFFFFFFFFFFFF) =
        .error (.invalidUser (-0x8000000000000000)) ∧
      verify "\"." 1700000000 (issue "\"." 7 1699999940) = .ok 7 ∧
      verify "\"." 1700000000 (issue "\"." 7 1699999939) = .error (.invalidToken .expired) ∧
      verify "\"." 0 (issue "\"." 7 (-1)) = .error (.invalidToken .missingExpiry) := by
  refine ⟨?_, ?_, ?_, ?_⟩
  · exact (@verify_issue "" 1700000000 (-0x8000000000000000) 0x7FFFFFFFFFFFFFFF rfl rfl).2.2.trans rfl
  · exact (@verify_issue "\"." 1700000000 7 1699999940 rfl rfl).2.2.trans rfl
  · exact (@verify_issue "\"." 1700000000 7 1699999939 rfl rfl).2.2.trans rfl
  · exact (@verify_issue "\"." 0 7 (-1) rfl rfl).2.2.trans rfl

end Cardroom.AccessToken
