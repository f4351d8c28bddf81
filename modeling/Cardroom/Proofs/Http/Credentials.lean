import Cardroom.Http.Request
import Cardroom.Proofs.Token.Issue

namespace Cardroom.Http

open Text

def isVisible (c : Char) : Bool := 0x20 < c.toNat && c.toNat < 0x7F

theorem isBlank_of_isVisible {c : Char} (h : isVisible c = true) : isBlank c = false := by
  simp only [isVisible, Bool.and_eq_true, decide_eq_true_eq] at h
  simp only [isBlank, Bool.or_eq_false_iff, decide_eq_false_iff_not]
  constructor <;> rintro rfl <;> exact absurd h (by decide)

theorem utf8EncodeChar_of_lt {c : Char} (h : c.toNat < 0x7F) :
    String.utf8EncodeChar c = [UInt8.ofNat c.toNat] :=
  if_pos (Nat.le_of_lt h)

theorem headerText?_encode {s : String} (h : ∀ c ∈ s.toList, isVisible c = true ∨ c = ' ') :
    headerText? (Utf8.encode s) = some s.toList := by
  have hrange : ∀ c ∈ s.toList, 0x20 ≤ c.toNat ∧ c.toNat < 0x7F := fun c hc => by
    rcases h c hc with hv | rfl
    · simp only [isVisible, Bool.and_eq_true, decide_eq_true_eq] at hv
      omega
    · decide
  have hbytes : Utf8.encode s = s.toList.map fun c => UInt8.ofNat c.toNat := by
    rw [Utf8.encode, List.map_eq_flatMap]
    exact List.flatMap_congr fun c hc => utf8EncodeChar_of_lt (hrange c hc).2
  have htoNat : ∀ c ∈ s.toList, (UInt8.ofNat c.toNat).toNat = c.toNat := fun c hc =>
    UInt8.toNat_ofNat_of_lt (Nat.lt_trans (hrange c hc).2 (by decide))
  rw [headerText?, hbytes, if_pos, List.map_map]
  · congr 1
    refine (List.map_congr_left fun c hc => ?_).trans (List.map_id _)
    rw [Function.comp_apply, htoNat c hc, Char.ofNat_toNat, id]
  · rw [List.all_map, List.all_eq_true]
    intro c hc
    obtain ⟨hlow, hhigh⟩ := hrange c hc
    rw [← htoNat c hc] at hlow hhigh
    have hle : (0x20 : UInt8) ≤ UInt8.ofNat c.toNat := UInt8.le_iff_toNat_le.2 hlow
    have hlt : UInt8.ofNat c.toNat < 0x7F := UInt8.lt_iff_toNat_lt.2 hhigh
    simp [hle, hlt]

theorem trim_of_visible {cs : List Char} (h : ∀ c ∈ cs, isVisible c = true) :
    trim (' ' :: cs) = cs := by
  have hnone : ∀ l : List Char, (∀ c ∈ l, isVisible c = true) → l.dropWhile isBlank = l := by
    rintro (_ | ⟨c, l⟩) hl
    · rfl
    · rw [List.dropWhile_cons, isBlank_of_isVisible (hl c List.mem_cons_self)]
      rfl
  have hblank : isBlank ' ' = true := by decide
  rw [trim, List.dropWhile_cons, if_pos hblank, hnone cs h,
    hnone _ fun c hc => h c (List.mem_reverse.1 hc), List.reverse_reverse]

theorem token?_bearer {token : String} (h : ∀ c ∈ token.toList, isVisible c = true)
    (hne : token ≠ "") (more : List (List UInt8)) (queryToken : Option String) :
    token? (Utf8.encode ("Bearer " ++ token) :: more) queryToken = some token := by
  have hword : "Bearer ".toList = ['B', 'e', 'a', 'r', 'e', 'r', ' '] := String.toList_ofList
  have hvalue : headerText? (Utf8.encode ("Bearer " ++ token)) =
      some (['B', 'e', 'a', 'r', 'e', 'r', ' '] ++ token.toList) := by
    rw [← hword, ← String.toList_append]
    refine headerText?_encode fun c hc => ?_
    rw [String.toList_append, hword, List.mem_append] at hc
    rcases hc with hc | hc
    · have hall : ∀ c ∈ ['B', 'e', 'a', 'r', 'e', 'r', ' '], isVisible c = true ∨ c = ' ' := by
        simp [isVisible]
      exact hall c hc
    · exact .inl (h c hc)
  have hcredentials :
      credentials? (Utf8.encode ("Bearer " ++ token) :: more) = some token.toList := by
    rw [credentials?, List.head?_cons, Option.bind_some, hvalue, Option.bind_some]
    exact congrArg some (trim_of_visible h)
  cases hlist : token.toList with
  | nil => exact absurd (String.toList_eq_nil_iff.1 hlist) hne
  | cons c cs =>
    rw [token?, hcredentials, hlist]
    change some (String.ofList (c :: cs)) = _
    rw [← hlist, String.ofList_toList]

end Cardroom.Http

namespace Cardroom.AccessToken

open Text

theorem isVisible_digit (v : Nat) : Http.isVisible (Base64Url.digit v) = true := by
  have hall : ∀ n : Fin 64, Http.isVisible (Base64Url.digit n.val) = true := by decide
  by_cases hv : v < 64
  · exact hall ⟨v, hv⟩
  · rw [Base64Url.digit, if_neg (by omega), if_neg (by omega), if_neg (by omega), if_neg (by omega)]
    decide

theorem isVisible_of_mem_issue {secret : String} {user expiry : Int} {c : Char}
    (hc : c ∈ (issue secret user expiry).toList) : Http.isVisible c = true := by
  have hencode : ∀ bytes, ∀ c ∈ Base64Url.encode bytes, Http.isVisible c = true := by
    intro bytes c hc
    rw [Base64Url.encode_eq] at hc
    obtain ⟨v, -, rfl⟩ := List.mem_map.1 hc
    exact isVisible_digit v
  rw [issue, String.toList_ofList] at hc
  simp only [List.mem_append, List.mem_cons, encodePart] at hc
  rcases hc with (hc | rfl | hc) | rfl | hc
  · exact hencode _ c hc
  · decide
  · exact hencode _ c hc
  · decide
  · exact hencode _ c hc

end Cardroom.AccessToken
