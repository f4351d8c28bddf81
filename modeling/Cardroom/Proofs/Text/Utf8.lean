import Cardroom.Json.Bytes

namespace Cardroom.Text.Utf8

variable {b : UInt8} {bs : List UInt8} {bits : Nat} {low high : UInt8}

theorem decodeFrom_last (hlow : low.toNat ≤ b.toNat) (hhigh : b.toNat ≤ high.toNat) :
    decodeFrom (.within 0 bits low high) (b :: bs) =
      some (Char.ofNat (bits * 64 + (b.toNat - 0x80))) :: decodeFrom .idle bs := by
  have hstep : step (.within 0 bits low high) b =
      ([some (Char.ofNat (bits * 64 + (b.toNat - 0x80)))], .idle) :=
    if_pos ⟨UInt8.le_iff_toNat_le.2 hlow, UInt8.le_iff_toNat_le.2 hhigh⟩
  rw [decodeFrom, hstep]
  rfl

theorem decodeFrom_next {missing : Nat} (hlow : low.toNat ≤ b.toNat)
    (hhigh : b.toNat ≤ high.toNat) :
    decodeFrom (.within (missing + 1) bits low high) (b :: bs) =
      decodeFrom (.within missing (bits * 64 + (b.toNat - 0x80)) 0x80 0xBF) bs := by
  have hstep : step (.within (missing + 1) bits low high) b =
      ([], .within missing (bits * 64 + (b.toNat - 0x80)) 0x80 0xBF) :=
    if_pos ⟨UInt8.le_iff_toNat_le.2 hlow, UInt8.le_iff_toNat_le.2 hhigh⟩
  rw [decodeFrom, hstep]
  rfl

theorem not_lt_of_toNat {n : UInt8} (h : n.toNat ≤ b.toNat) : ¬b < n := by
  rw [UInt8.lt_iff_toNat_lt]
  omega

theorem decodeFrom_two (hlow : 0xC2 ≤ b.toNat) (hhigh : b.toNat < 0xE0) :
    decodeFrom .idle (b :: bs) = decodeFrom (.within 0 (b.toNat - 0xC0) 0x80 0xBF) bs := by
  have h₁ : ¬b < 0x80 := not_lt_of_toNat (show 0x80 ≤ b.toNat by omega)
  have h₂ : ¬b < 0xC2 := not_lt_of_toNat hlow
  have h₃ : b < 0xE0 := UInt8.lt_iff_toNat_lt.2 hhigh
  rw [decodeFrom_idle_cons, start, if_neg h₁, if_neg h₂, if_pos h₃]
  rfl

theorem decodeFrom_three (hlow : 0xE0 ≤ b.toNat) (hhigh : b.toNat < 0xF0) :
    decodeFrom .idle (b :: bs) =
      decodeFrom (.within 1 (b.toNat - 0xE0) (if b = 0xE0 then 0xA0 else 0x80)
        (if b = 0xED then 0x9F else 0xBF)) bs := by
  have h₁ : ¬b < 0x80 := not_lt_of_toNat (show 0x80 ≤ b.toNat by omega)
  have h₂ : ¬b < 0xC2 := not_lt_of_toNat (show 0xC2 ≤ b.toNat by omega)
  have h₃ : ¬b < 0xE0 := not_lt_of_toNat hlow
  have h₄ : b < 0xF0 := UInt8.lt_iff_toNat_lt.2 hhigh
  rw [decodeFrom_idle_cons, start, if_neg h₁, if_neg h₂, if_neg h₃, if_pos h₄]
  rfl

theorem decodeFrom_four (hlow : 0xF0 ≤ b.toNat) (hhigh : b.toNat < 0xF5) :
    decodeFrom .idle (b :: bs) =
      decodeFrom (.within 2 (b.toNat - 0xF0) (if b = 0xF0 then 0x90 else 0x80)
        (if b = 0xF4 then 0x8F else 0xBF)) bs := by
  have h₁ : ¬b < 0x80 := not_lt_of_toNat (show 0x80 ≤ b.toNat by omega)
  have h₂ : ¬b < 0xC2 := not_lt_of_toNat (show 0xC2 ≤ b.toNat by omega)
  have h₃ : ¬b < 0xE0 := not_lt_of_toNat (show 0xE0 ≤ b.toNat by omega)
  have h₄ : ¬b < 0xF0 := not_lt_of_toNat hlow
  have h₅ : b < 0xF5 := UInt8.lt_iff_toNat_lt.2 hhigh
  rw [decodeFrom_idle_cons, start, if_neg h₁, if_neg h₂, if_neg h₃, if_neg h₄, if_pos h₅]
  rfl

theorem toNat_ite_eq (x m n : UInt8) :
    (if b = x then m else n).toNat = if b.toNat = x.toNat then m.toNat else n.toNat := by
  by_cases h : b = x
  · rw [if_pos h, if_pos (congrArg UInt8.toNat h)]
  · rw [if_neg h, if_neg fun heq => h (UInt8.toNat_inj.1 heq)]

theorem decodeFrom_utf8EncodeChar (c : Char) (bs : List UInt8) :
    decodeFrom .idle (String.utf8EncodeChar c ++ bs) = some c :: decodeFrom .idle bs := by
  have hvalid : c.toNat < 0xD800 ∨ 0xDFFF < c.toNat ∧ c.toNat < 0x110000 := c.valid
  have hbyte : ∀ n : Nat, n < 256 → ∃ b, UInt8.ofNat n = b ∧ b.toNat = n := fun n h =>
    ⟨_, rfl, UInt8.toNat_ofNat_of_lt h⟩
  have hchar : ∀ {n : Nat}, n = c.toNat → some (Char.ofNat n) = some c := by
    intro n hn
    rw [hn, Char.ofNat_toNat]
  unfold String.utf8EncodeChar
  change decodeFrom .idle ((if c.toNat ≤ _ then [UInt8.ofNat c.toNat] else
    if c.toNat ≤ _ then [UInt8.ofNat (c.toNat / 64 % 32 + 192), UInt8.ofNat (c.toNat % 64 + 128)]
    else if c.toNat ≤ _ then [UInt8.ofNat (c.toNat / 4096 % 16 + 224),
      UInt8.ofNat (c.toNat / 64 % 64 + 128), UInt8.ofNat (c.toNat % 64 + 128)]
    else [UInt8.ofNat (c.toNat / 262144 % 8 + 240), UInt8.ofNat (c.toNat / 4096 % 64 + 128),
      UInt8.ofNat (c.toNat / 64 % 64 + 128), UInt8.ofNat (c.toNat % 64 + 128)]) ++ bs) = _
  obtain ⟨last, hlast, hlastn⟩ := hbyte (c.toNat % 64 + 128) (by omega)
  obtain ⟨mid, hmid, hmidn⟩ := hbyte (c.toNat / 64 % 64 + 128) (by omega)
  have hend : ∀ bits, decodeFrom (.within 0 bits 0x80 0xBF) (last :: bs) =
      some (Char.ofNat (bits * 64 + (last.toNat - 0x80))) :: decodeFrom .idle bs := fun bits =>
    decodeFrom_last (show 0x80 ≤ last.toNat by omega) (show last.toNat ≤ 0xBF by omega)
  split
  · obtain ⟨b, hb, hbn⟩ := hbyte c.toNat (by omega)
    have hlt : b < 0x80 := UInt8.lt_iff_toNat_lt.2 (show b.toNat < 0x80 by omega)
    rw [hb, List.singleton_append, decodeFrom_idle_cons, start, if_pos hlt]
    change some (Char.ofNat b.toNat) :: decodeFrom .idle bs = _
    rw [hchar hbn]
  split
  · obtain ⟨b, hb, hbn⟩ := hbyte (c.toNat / 64 % 32 + 192) (by omega)
    rw [hb, hlast, List.cons_append, List.singleton_append,
      decodeFrom_two (by omega) (by omega), hend, hchar (by omega)]
  split
  · obtain ⟨b, hb, hbn⟩ := hbyte (c.toNat / 4096 % 16 + 224) (by omega)
    have hlow : (if b = 0xE0 then 0xA0 else 0x80 : UInt8).toNat ≤ mid.toNat := by
      rw [toNat_ite_eq]
      change (if b.toNat = 0xE0 then 0xA0 else 0x80) ≤ mid.toNat
      split <;> omega
    have hhigh : mid.toNat ≤ (if b = 0xED then 0x9F else 0xBF : UInt8).toNat := by
      rw [toNat_ite_eq]
      change mid.toNat ≤ if b.toNat = 0xED then 0x9F else 0xBF
      split <;> omega
    rw [hb, hmid, hlast, List.cons_append, List.cons_append, List.singleton_append,
      decodeFrom_three (by omega) (by omega), decodeFrom_next hlow hhigh, hend,
      hchar (by omega)]
  · obtain ⟨b, hb, hbn⟩ := hbyte (c.toNat / 262144 % 8 + 240) (by omega)
    obtain ⟨snd, hsnd, hsndn⟩ := hbyte (c.toNat / 4096 % 64 + 128) (by omega)
    have hlow : (if b = 0xF0 then 0x90 else 0x80 : UInt8).toNat ≤ snd.toNat := by
      rw [toNat_ite_eq]
      change (if b.toNat = 0xF0 then 0x90 else 0x80) ≤ snd.toNat
      split <;> omega
    have hhigh : snd.toNat ≤ (if b = 0xF4 then 0x8F else 0xBF : UInt8).toNat := by
      rw [toNat_ite_eq]
      change snd.toNat ≤ if b.toNat = 0xF4 then 0x8F else 0xBF
      split <;> omega
    have hthird : ∀ bits, decodeFrom (.within 1 bits 0x80 0xBF) (mid :: last :: bs) =
        decodeFrom (.within 0 (bits * 64 + (mid.toNat - 0x80)) 0x80 0xBF) (last :: bs) := fun bits =>
      decodeFrom_next (show 0x80 ≤ mid.toNat by omega) (show mid.toNat ≤ 0xBF by omega)
    rw [hb, hsnd, hmid, hlast, List.cons_append, List.cons_append, List.cons_append,
      List.singleton_append, decodeFrom_four (by omega) (by omega), decodeFrom_next hlow hhigh,
      hthird, hend, hchar (by omega)]

theorem decode_encode (s : String) : decode (encode s) = s.toList.map some := by
  unfold decode encode
  induction s.toList with
  | nil => rfl
  | cons c cs ih => rw [List.flatMap_cons, decodeFrom_utf8EncodeChar, ih, List.map_cons]

end Cardroom.Text.Utf8

namespace Cardroom.Json

theorem parseBytes?_encode (s : String) : parseBytes? (Text.Utf8.encode s) = parse? s := by
  unfold parseBytes? parse?
  rw [Text.Utf8.decode_encode]
  congr 1
  induction s.toList with
  | nil => rfl
  | cons c cs ih => rw [List.map_cons, List.flatMap_cons, ih, List.singleton_append]

end Cardroom.Json
