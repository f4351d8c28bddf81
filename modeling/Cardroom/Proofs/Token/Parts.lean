import Cardroom.AccessToken

namespace Cardroom.AccessToken

variable {separator : Char} {cs before behind : List Char}

theorem splitLast?_eq_none_iff : splitLast? separator cs = none ↔ separator ∉ cs := by
  induction cs with
  | nil => exact ⟨fun _ => List.not_mem_nil, fun _ => rfl⟩
  | cons c cs ih =>
    rw [splitLast?, List.mem_cons, not_or]
    cases hrest : splitLast? separator cs with
    | some parts => simp [← ih, hrest]
    | none => simp [← ih, hrest, eq_comm]

theorem splitLast?_append (h : separator ∉ behind) :
    splitLast? separator (before ++ separator :: behind) = some (before, behind) := by
  induction before with
  | nil =>
    rw [List.nil_append, splitLast?, splitLast?_eq_none_iff.2 h]
    exact if_pos rfl
  | cons c before ih => rw [List.cons_append, splitLast?, ih]

theorem eq_of_splitLast? (h : splitLast? separator cs = some (before, behind)) :
    cs = before ++ separator :: behind ∧ separator ∉ behind := by
  induction cs generalizing before behind with
  | nil => cases h
  | cons c cs ih =>
    rw [splitLast?] at h
    cases hrest : splitLast? separator cs with
    | some parts =>
      obtain ⟨front, back⟩ := parts
      rw [hrest] at h
      cases h
      obtain ⟨hcs, hback⟩ := ih hrest
      exact ⟨by rw [hcs, List.cons_append], hback⟩
    | none =>
      rw [hrest] at h
      simp only at h
      split at h
      · rename_i hc
        cases h
        exact ⟨by rw [hc, List.nil_append], splitLast?_eq_none_iff.1 hrest⟩
      · cases h

theorem Parts.ofToken?_ofList {header claims signature : List Char} (hclaims : '.' ∉ claims)
    (hsignature : '.' ∉ signature) :
    Parts.ofToken? (String.ofList (header ++ '.' :: claims ++ '.' :: signature)) =
      some ⟨header, claims, signature⟩ := by
  rw [Parts.ofToken?, String.toList_ofList, splitLast?_append hsignature]
  change (splitLast? '.' (header ++ '.' :: claims)).bind _ = _
  rw [splitLast?_append hclaims]
  rfl

theorem Parts.toList_of_ofToken? {token : String} {p : Parts} (h : Parts.ofToken? token = some p) :
    token.toList = p.signed ++ '.' :: p.signature ∧ '.' ∉ p.claims ∧ '.' ∉ p.signature := by
  obtain ⟨⟨signed, signature⟩, hlast, h⟩ := Option.bind_eq_some_iff.1 h
  obtain ⟨⟨header, claims⟩, hfirst, h⟩ := Option.bind_eq_some_iff.1 h
  cases h
  obtain ⟨htoken, hsignature⟩ := eq_of_splitLast? hlast
  obtain ⟨hsigned, hclaims⟩ := eq_of_splitLast? hfirst
  exact ⟨by rw [htoken, hsigned]; rfl, hclaims, hsignature⟩

end Cardroom.AccessToken
