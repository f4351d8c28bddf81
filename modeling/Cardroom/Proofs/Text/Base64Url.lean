import Cardroom.Text.Base64Url

namespace Cardroom.Text.Base64Url

theorem lt_of_value? {c : Char} {v : Nat} (h : value? c = some v) : c.toNat < 128 := by
  unfold value? at h
  split at h
  · rename_i hc
    exact Nat.lt_of_le_of_lt hc.2 (by decide)
  split at h
  · rename_i hc
    exact Nat.lt_of_le_of_lt hc.2 (by decide)
  split at h
  · rename_i hc
    exact Nat.lt_of_le_of_lt hc.2 (by decide)
  split at h
  · rename_i hc
    rw [hc]
    decide
  split at h
  · rename_i hc
    rw [hc]
    decide
  · cases h

theorem digit_of_value? {c : Char} {v : Nat} (h : value? c = some v) : v < 64 ∧ digit v = c := by
  have hall : ∀ n : Fin 128, (value? (Char.ofNat n.val)).all
      (fun v => decide (v < 64) && decide (digit v = Char.ofNat n.val)) = true := by decide
  have hc := hall ⟨c.toNat, lt_of_value? h⟩
  rw [Char.ofNat_toNat, h] at hc
  simpa using hc

theorem digits_of_values {cs : List Char} {vs : List Nat} (h : cs.mapM value? = some vs) :
    (∀ v ∈ vs, v < 64) ∧ cs = vs.map digit := by
  induction cs generalizing vs with
  | nil =>
    cases h
    exact ⟨fun v hv => (List.not_mem_nil hv).elim, rfl⟩
  | cons c cs ih =>
    rw [List.mapM_cons] at h
    obtain ⟨v, hv, h⟩ := Option.bind_eq_some_iff.1 h
    obtain ⟨ws, hws, h⟩ := Option.bind_eq_some_iff.1 h
    cases h
    obtain ⟨hlt, hdigit⟩ := digit_of_value? hv
    obtain ⟨hall, hcs⟩ := ih hws
    refine ⟨fun w hw => ?_, by rw [List.map_cons, hdigit, ← hcs]⟩
    rcases List.mem_cons.1 hw with rfl | hw
    · exact hlt
    · exact hall w hw

theorem encode_eq (bytes : List UInt8) : encode bytes = (values bytes).map digit := by
  fun_induction values bytes with
  | case1 => rfl
  | case2 a => rfl
  | case3 a b => rfl
  | case4 a b c r ih => rw [encode, ih]; rfl

theorem digit_ne_dot (v : Nat) : digit v ≠ '.' := by
  intro hdot
  by_cases hv : v < 64
  · have hvalue := value?_digit hv
    have hnone : value? '.' = none := by decide
    rw [hdot, hnone] at hvalue
    cases hvalue
  · rw [digit, if_neg (by omega), if_neg (by omega), if_neg (by omega), if_neg (by omega)] at hdot
    exact absurd hdot (by decide)

theorem dot_not_mem_encode (bytes : List UInt8) : '.' ∉ encode bytes := by
  intro hdot
  rw [encode_eq] at hdot
  obtain ⟨v, _, hv⟩ := List.mem_map.1 hdot
  exact digit_ne_dot v hv

theorem toNat_byte {n m : Nat} (h : n + m < 256) : (byte n m).toNat = n + m := by
  rw [byte, Nat.toUInt8, UInt8.toNat_ofNat']
  exact Nat.mod_eq_of_lt h

theorem values_of_join? {vs : List Nat} {bytes : List UInt8} (hlt : ∀ v ∈ vs, v < 64)
    (h : join? vs = some bytes) : values bytes = vs := by
  fun_induction join? vs generalizing bytes with
  | case1 =>
    cases h
    rfl
  | case2 => cases h
  | case3 w x hx =>
    cases h
    have hw := hlt w (by simp)
    have hx₁ := hlt x (by simp)
    have ha := @toNat_byte (w * 4) (x / 16) (by omega)
    simp only [values, ha, List.cons.injEq, and_true]
    omega
  | case4 w x hx => cases h
  | case5 w x y hy =>
    cases h
    have hw := hlt w (by simp)
    have hx := hlt x (by simp)
    have hy₁ := hlt y (by simp)
    have ha := @toNat_byte (w * 4) (x / 16) (by omega)
    have hb := @toNat_byte (x % 16 * 16) (y / 4) (by omega)
    simp only [values, ha, hb, List.cons.injEq, and_true]
    omega
  | case6 w x y hy => cases h
  | case7 w x y z r ih =>
    obtain ⟨rest, hrest, rfl⟩ := Option.map_eq_some_iff.1 h
    have hw := hlt w (by simp)
    have hx := hlt x (by simp)
    have hy := hlt y (by simp)
    have hz := hlt z (by simp)
    have hr := ih (fun v hv => hlt v (by simp [hv])) hrest
    have ha := @toNat_byte (w * 4) (x / 16) (by omega)
    have hb := @toNat_byte (x % 16 * 16) (y / 4) (by omega)
    have hc := @toNat_byte (y % 4 * 64) z (by omega)
    simp only [values, ha, hb, hc, hr, List.cons.injEq, and_true]
    omega

theorem encode_of_decode? {cs : List Char} {bytes : List UInt8} (h : decode? cs = some bytes) :
    cs = encode bytes := by
  obtain ⟨vs, hvs, hjoin⟩ := Option.bind_eq_some_iff.1 h
  obtain ⟨hlt, hcs⟩ := digits_of_values hvs
  rw [encode_eq, values_of_join? hlt hjoin, hcs]

end Cardroom.Text.Base64Url
