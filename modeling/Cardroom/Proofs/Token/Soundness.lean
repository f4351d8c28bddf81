import Cardroom.Proofs.Token.Issue

namespace Cardroom

namespace AccessToken

open Json Text

variable {secret : String} {now : Int} {user : UserId}

/-- The document that a part of a token spells. -/
def decoded? (part : List Char) : Option Json := (Base64Url.decode? part).bind parseBytes?

theorem of_readPart {α : Type} {part : List Char} {read? : Json → Option α} {a : α}
    (h : readPart part read? = .ok a) : ∃ j, decoded? part = some j ∧ read? j = some a := by
  unfold readPart decodePart at h
  unfold decoded?
  cases hbytes : Base64Url.decode? part with
  | none =>
    rw [hbytes] at h
    cases h
  | some bytes =>
    rw [hbytes] at h
    simp only [bind, Except.bind] at h
    split at h
    · rename_i b hread
      cases h
      exact Option.bind_eq_some_iff.1 hread
    · cases h

theorem of_decodePart {part : List Char} {bytes : List UInt8} (h : decodePart part = .ok bytes) :
    part = Base64Url.encode bytes := by
  unfold decodePart at h
  split at h
  · rename_i hbytes
    cases h
    exact Base64Url.encode_of_decode? hbytes
  · cases h

theorem of_check {c : Claims} (h : c.check now = .ok user) :
    c.user = user ∧ 0 < user ∧ 0 ≤ c.expiry ∧ now - 60 ≤ c.expiry ∧ c.hasAudience = false := by
  unfold Claims.check at h
  split at h
  · cases h
  split at h
  · cases h
  split at h
  · cases h
  split at h
  · cases h
  · rename_i hpast hexpired haudience huser
    cases h
    exact ⟨rfl, Int.not_le.1 huser, Int.not_lt.1 hpast, Int.not_lt.1 hexpired,
      Bool.eq_false_iff.2 haudience⟩

/-- The stages that an accepted token has passed. -/
theorem of_verify {token : String} (h : verify secret now token = .ok user) :
    ∃ p c, Parts.ofToken? token = some p ∧ readPart p.header headerAlgorithm? = .ok algorithm ∧
      decodePart p.signature = .ok (signature secret p.signed) ∧
      readPart p.claims Claims.ofJson? = .ok c ∧ c.check now = .ok user := by
  unfold verify at h
  split at h
  · cases h
  split at h
  · rename_i p hparts
    unfold verifyParts at h
    cases hheader : readPart p.header headerAlgorithm? with
    | error e =>
      rw [hheader] at h
      cases h
    | ok name =>
      rw [hheader] at h
      simp only [bind, Except.bind] at h
      split at h
      · cases h
      rename_i hname
      split at h
      · cases h
      rename_i presented hpresented
      split at h
      · cases h
      rename_i hsame
      split at h
      · cases h
      rename_i c hclaims
      rw [not_not] at hname hsame
      subst hname hsame
      exact ⟨p, c, hparts, hheader, hpresented, hclaims, h⟩
  · cases h

theorem of_headerAlgorithm? {j : Json} {name : String} (h : headerAlgorithm? j = some name) :
    ∃ v, j.valuesUnder ["alg"] = [v] ∧ v.text? = some name := by
  unfold headerAlgorithm? at h
  split at h
  · obtain ⟨fields, hfields, h⟩ := Option.bind_eq_some_iff.1 h
    obtain ⟨v, hv, h⟩ := Option.bind_eq_some_iff.1 h
    obtain ⟨text, htext, h⟩ := Option.bind_eq_some_iff.1 h
    split at h
    · cases h
      exact ⟨v, (once?_eq_some_iff hfields).1 hv, htext⟩
    · cases h
  · cases h

def IsText (j : Json) : Prop := ∃ q, j = .text q

theorem isSome_text?_of_isStrict {j : Json} (h : j.isStrict = true) (htext : IsText j) :
    j.text?.isSome = true := by
  obtain ⟨q, rfl⟩ := htext
  rwa [isStrict] at h

theorem of_not_isAudience {v : Json} (hreadable : isReadableClaim v = true)
    (h : isAudience v = false) :
    ¬IsText v ∧ ∀ items, v = .array items → ∃ i ∈ items, ¬IsText i := by
  obtain ⟨htext, hitems⟩ := Bool.or_eq_false_iff.1 h
  constructor
  · intro hv
    obtain ⟨q, rfl⟩ := hv
    have hstrict := (Bool.and_eq_true_iff.1 hreadable).1
    rw [isSome_text?_of_isStrict hstrict ⟨q, rfl⟩] at htext
    cases htext
  · rintro items rfl
    have hstrict := (Bool.and_eq_true_iff.1 hreadable).1
    rw [isStrict, isStrictItems_iff] at hstrict
    obtain ⟨i, hi, hnone⟩ := List.all_eq_false.1 hitems
    exact ⟨i, hi, fun hitext =>
      hnone (isSome_text?_of_isStrict (hstrict i hi) hitext)⟩

theorem of_claimsOfJson? {j : Json} {c : Claims} (h : Claims.ofJson? j = some c) :
    (∃ v, j.valuesUnder ["user_id", "sub"] = [v] ∧ v.int64? = some c.user) ∧
      (∃ v, j.valuesUnder ["exp"] = [v] ∧ v.int64? = some c.expiry) ∧
      (c.hasAudience = false → ∀ v ∈ j.valuesUnder ["aud"],
        ¬IsText v ∧ ∀ items, v = .array items → ∃ i ∈ items, ¬IsText i) := by
  unfold Claims.ofJson? at h
  split at h
  · obtain ⟨fields, hfields, h⟩ := Option.bind_eq_some_iff.1 h
    obtain ⟨found, hfound, h⟩ := Option.bind_eq_some_iff.1 h
    obtain ⟨u, hu, h⟩ := Option.bind_eq_some_iff.1 h
    obtain ⟨user, huser, h⟩ := Option.bind_eq_some_iff.1 h
    obtain ⟨e, he, h⟩ := Option.bind_eq_some_iff.1 h
    obtain ⟨expiry, hexpiry, h⟩ := Option.bind_eq_some_iff.1 h
    obtain ⟨start, _, h⟩ := Option.bind_eq_some_iff.1 h
    obtain ⟨issuer, _, h⟩ := Option.bind_eq_some_iff.1 h
    obtain ⟨audience, haudience, h⟩ := Option.bind_eq_some_iff.1 h
    have hvalues := (atMostOnce?_eq_some_iff hfields).1 hfound
    rw [hu] at hvalues
    split at h
    · rename_i hreadable
      cases h
      refine ⟨⟨u, hvalues, huser⟩, ⟨e, (once?_eq_some_iff hfields).1 he, hexpiry⟩, fun hnone v hv => ?_⟩
      rw [(atMostOnce?_eq_some_iff hfields).1 haudience, Option.mem_toList] at hv
      subst hv
      exact of_not_isAudience (Bool.and_eq_true_iff.1 hreadable).2 hnone
    · cases h
  · cases h

theorem signature_of_verify {token : String} {signed presented : List Char}
    (h : verify secret now token = .ok user) (htoken : token.toList = signed ++ '.' :: presented)
    (hdot : '.' ∉ presented) : presented = Base64Url.encode (signature secret signed) := by
  obtain ⟨p, _, hparts, _, hsignature, _⟩ := of_verify h
  obtain ⟨hlist, _, hp⟩ := Parts.toList_of_ofToken? hparts
  have hsplit : some (signed, presented) = some (p.signed, p.signature) := by
    rw [← splitLast?_append hdot, ← splitLast?_append hp, ← htoken, ← hlist]
  injection hsplit with hpair
  injection hpair with hsigned hpresented
  rw [hsigned, hpresented]
  exact of_decodePart hsignature

/-- Whoever holds an accepted token was given it. The token falls at its last two dots into a header
that names the one algorithm, claims that name this one user, have not expired and are for no
audience, and the signature over both in its one spelling. So no accepted token can be given
another signature, and no header that names another algorithm is accepted. -/
theorem verify_sound :
    (∀ (secret : String) (now : Int) (token : String) (user : UserId),
      verify secret now token = .ok user →
      0 < user ∧ ∃ header claims presented : List Char,
        token.toList = header ++ '.' :: claims ++ '.' :: presented ∧
        '.' ∉ claims ∧ '.' ∉ presented ∧
        (∃ members v, decoded? header = some (.object members) ∧
          valuesUnder ["alg"] (.object members) = [v] ∧ v.text? = some "HS256") ∧
        presented = Base64Url.encode (Digest.hmacSha256 (Utf8.encode secret)
          (Utf8.encode (String.ofList (header ++ '.' :: claims)))) ∧
        ∃ members u e expiry, decoded? claims = some (.object members) ∧
          valuesUnder ["user_id", "sub"] (.object members) = [u] ∧ u.int64? = some user ∧
          valuesUnder ["exp"] (.object members) = [e] ∧ e.int64? = some expiry ∧
          0 ≤ expiry ∧ now - 60 ≤ expiry ∧
          ∀ v ∈ valuesUnder ["aud"] (.object members),
            ¬IsText v ∧ ∀ items, v = .array items → ∃ i ∈ items, ¬IsText i) ∧
    (∀ (secret : String) (now₁ now₂ : Int) (token₁ token₂ : String) (user₁ user₂ : UserId)
      (signed presented₁ presented₂ : List Char),
      verify secret now₁ token₁ = .ok user₁ → verify secret now₂ token₂ = .ok user₂ →
      token₁.toList = signed ++ '.' :: presented₁ → token₂.toList = signed ++ '.' :: presented₂ →
      '.' ∉ presented₁ → '.' ∉ presented₂ → token₁ = token₂) ∧
    ∀ (secret : String) (now : Int) (token : String) (header claims presented : List Char)
      (j v : Json), token.toList = header ++ '.' :: claims ++ '.' :: presented →
      '.' ∉ claims → '.' ∉ presented → decoded? header = some j → v ∈ j.valuesUnder ["alg"] →
      v.text? ≠ some "HS256" → ∀ user, verify secret now token ≠ .ok user := by
  refine ⟨fun secret now token user h => ?_, ?_, ?_⟩
  · obtain ⟨p, c, hparts, hheader, hsignature, hclaims, hcheck⟩ := of_verify h
    obtain ⟨hlist, hdotClaims, hdotSignature⟩ := Parts.toList_of_ofToken? hparts
    obtain ⟨rfl, huser, hpast, hexpired, hnone⟩ := of_check hcheck
    obtain ⟨header, hdecodedHeader, hname⟩ := of_readPart hheader
    obtain ⟨a, ha, hatext⟩ := of_headerAlgorithm? hname
    obtain ⟨hmembers, rfl⟩ := eq_object_of_valuesUnder (ha ▸ List.mem_cons_self)
    obtain ⟨claims, hdecodedClaims, hread⟩ := of_readPart hclaims
    obtain ⟨⟨u, hu, huint⟩, ⟨e, he, heint⟩, haudience⟩ := of_claimsOfJson? hread
    obtain ⟨cmembers, rfl⟩ := eq_object_of_valuesUnder (hu ▸ List.mem_cons_self)
    exact ⟨huser, p.header, p.claims, p.signature, hlist, hdotClaims, hdotSignature,
      ⟨hmembers, a, hdecodedHeader, ha, hatext⟩, of_decodePart hsignature,
      cmembers, u, e, c.expiry, hdecodedClaims, hu, huint, he, heint, hpast, hexpired,
      haudience hnone⟩
  · intro secret now₁ now₂ token₁ token₂ user₁ user₂ signed s₁ s₂ h₁ h₂ ht₁ ht₂ hs₁ hs₂
    have hsame : s₁ = s₂ := by
      rw [signature_of_verify h₁ ht₁ hs₁, signature_of_verify h₂ ht₂ hs₂]
    rw [← String.toList_inj, ht₁, ht₂, hsame]
  · intro secret now token header claims s j v ht hc hs hj hv hother user h
    obtain ⟨p, _, hparts, hheader, _⟩ := of_verify h
    have hp : p = ⟨header, claims, s⟩ := by
      rw [← String.ofList_toList (s := token), ht, Parts.ofToken?_ofList hc hs] at hparts
      exact (Option.some.inj hparts).symm
    subst hp
    obtain ⟨k, hk, hname⟩ := of_readPart hheader
    obtain ⟨a, ha, hatext⟩ := of_headerAlgorithm? hname
    rw [hj] at hk
    cases hk
    rw [ha, List.mem_singleton] at hv
    subst hv
    exact hother hatext

theorem verify_sound_issued :
    let token := issue "secret" 7 1700000000
    (∃ header claims presented : List Char,
      token.toList = header ++ '.' :: claims ++ '.' :: presented ∧
      presented = Base64Url.encode (signature "secret" (header ++ '.' :: claims))) ∧
    (∀ (other : String) (signed presented presented' : List Char),
      verify "secret" 1700000060 other = .ok 7 → token.toList = signed ++ '.' :: presented →
      other.toList = signed ++ '.' :: presented' → '.' ∉ presented → '.' ∉ presented' →
      token = other) ∧
    ∀ user, verify "secret" 0 (String.ofList (encodePart (.record [("alg", .ofText "HS384")]) ++
      '.' :: [] ++ '.' :: [])) ≠ .ok user := by
  intro token
  have haccepted : ∀ now, now = 0 ∨ now = 1700000060 → verify "secret" now token = .ok 7 := by
    rintro now (rfl | rfl) <;> exact (verify_issued rfl rfl).trans rfl
  refine ⟨?_, ?_, ?_⟩
  · obtain ⟨_, h, c, s, hlist, _, _, _, hs, _⟩ :=
      verify_sound.1 "secret" 0 token 7 (haccepted 0 (.inl rfl))
    exact ⟨h, c, s, hlist, hs⟩
  · intro other signed s s' hother ht ho hs hs'
    exact verify_sound.2.1 "secret" 0 1700000060 token other 7 7 signed s s'
      (haccepted 0 (.inl rfl)) hother ht ho hs hs'
  · have hplain : Plain (.record [("alg", .ofText "HS384")]) := by
      refine .record fun field hfield => ?_
      rw [List.mem_singleton.1 hfield]
      exact .ofText _
    have hvalues : valuesUnder ["alg"] (.record [("alg", .ofText "HS384")]) =
        [.ofText "HS384"] := rfl
    have htext : (Json.ofText "HS384").text? ≠ some "HS256" := by
      rw [text?_ofText]
      decide
    exact verify_sound.2.2 "secret" 0 _ _ [] [] _ (.ofText "HS384") (String.toList_ofList)
      List.not_mem_nil List.not_mem_nil (decode?_encodePart hplain)
      (hvalues ▸ List.mem_cons_self) htext

end AccessToken

end Cardroom
