import Cardroom.Json.Strict
import Mathlib
/-!
Integers of sixty-four bits as doubles. A double is reckoned with as a mantissa and an exponent; no
step of the reckoning makes the exponent grow by more than a few times the bits of the mantissa, so
what is read from an integer stays far below infinity (`Number.isFinite_ofInt`).
-/

namespace Cardroom.Json

open Float.Model
open Float.Model.UnpackedFloat hiding pack unpack

/-- Zero, or a number with a mantissa of so many bits and an exponent that is not too high. -/
inductive Moderate (bits : Nat) (high : Int) : UnpackedFloat → Prop where
  | zero (s : Sign) : Moderate bits high (.zero s)
  | finite {s : Sign} {m : Nat} {e : Int} {hpos : 0 < m} (hm : m < 2 ^ bits) (he : e ≤ high) :
    Moderate bits high (.finite s m e hpos)

namespace Moderate

variable {a b : Nat} {h k : Int} {u v : UnpackedFloat}

theorem mono (hu : Moderate a h u) (hab : a ≤ b) (hhk : h ≤ k) : Moderate b k u := by
  cases hu with
  | zero s => exact .zero s
  | finite hm he =>
    have hpow : 2 ^ a ≤ 2 ^ b := Nat.pow_le_pow_right (by decide) hab
    exact .finite (by omega) (by omega)

theorem not_isInf (hu : Moderate a h u) : u.isInf = false := by
  cases hu <;> rfl

end Moderate

theorem mantissa_shiftRight_le (em : ExtendedMantissa) (k : Nat) :
    (em >>> k).mantissa ≤ em.mantissa := by
  induction k with
  | zero => exact Nat.le_refl _
  | succ k ih => exact Nat.le_trans (Nat.div_le_self _ 2) ih

theorem roundedMantissa_le (em : ExtendedMantissa) : em.roundedMantissa ≤ em.mantissa + 1 := by
  have hmod := Nat.mod_lt em.mantissa (y := 2) (by decide)
  unfold ExtendedMantissa.roundedMantissa
  cases em.accuracy with
  | exact => exact Nat.le_succ _
  | inexact o =>
    cases o with
    | lt => exact Nat.le_succ _
    | eq =>
      change em.mantissa + em.mantissa % 2 ≤ _
      omega
    | gt => exact Nat.le_refl _

theorem shiftToTargetExponent_le {m bits : Nat} {e high : Int} (hm : m < 2 ^ bits) (he : e ≤ high)
    (hlow : -1074 ≤ high) :
    (shiftToTargetExponent Format.binary64 m e .exact).1.mantissa ≤ m ∧
      (shiftToTargetExponent Format.binary64 m e .exact).2 ≤ high + bits := by
  have hlog : m.log2 ≤ bits := by
    by_cases h0 : m = 0
    · subst h0
      simp
    · exact Nat.le_of_lt ((Nat.log2_lt h0).2 hm)
  refine ⟨mantissa_shiftRight_le _ _, ?_⟩
  simp only [shiftToTargetExponent, shiftToExponent, Format.targetExponent, totalExponent,
    Format.mantissaBits, Format.minExponent]
  omega

theorem moderate_round {s : Sign} {m bits : Nat} {e high : Int} (hm : m < 2 ^ bits) (he : e ≤ high)
    (hlow : -1074 ≤ high) :
    Moderate (bits + 1) (high + 2 * bits + 1)
      (roundWithAccuracy Format.binary64 s m e .exact) := by
  obtain ⟨hm₁, he₁⟩ := shiftToTargetExponent_le hm he hlow
  have hround := roundedMantissa_le (shiftToTargetExponent Format.binary64 m e .exact).1
  have hbits : (shiftToTargetExponent Format.binary64 m e .exact).1.roundedMantissa <
      2 ^ (bits + 1) := by
    have hpow : 2 ^ (bits + 1) = 2 ^ bits + 2 ^ bits := by rw [Nat.pow_succ, Nat.mul_two]
    omega
  obtain ⟨hm₂, he₂⟩ := shiftToTargetExponent_le hbits he₁ (by omega)
  unfold roundWithAccuracy
  simp only
  split
  · exact .zero s
  · exact .finite (by omega) (by push_cast at he₂ ⊢; omega)

theorem moderate_unpack {b : BitVec 64} {n : Nat}
    (hn : (@unpackExponent Format.binary64 b).toNat ≤ n) (hlow : 1 ≤ n) (hhigh : n < 2047) :
    Moderate 53 (n - 1075) (UnpackedFloat.unpack Format.binary64 b) := by
  have hmantissa := (@unpackMantissa Format.binary64 b).isLt
  change _ < 2 ^ 52 at hmantissa
  unfold UnpackedFloat.unpack
  simp only
  split
  · rename_i h
    have hall := congrArg BitVec.toNat h
    change _ = 2047 at hall
    omega
  · split
    · split
      · exact .zero _
      · rename_i hzero _
        have hexp := congrArg BitVec.toNat hzero
        change _ = 0 at hexp
        refine .finite (by omega) ?_
        change ((@unpackExponent Format.binary64 b).toNat : Int) - (1023 + 52) + 1 ≤ _
        omega
    · refine .finite ?_ ?_
      · have happend : (1#1 ++ @unpackMantissa Format.binary64 b).toNat =
            2 ^ 52 + (@unpackMantissa Format.binary64 b).toNat := by
          rw [BitVec.toNat_append, ← Nat.shiftLeft_add_eq_or_of_lt (BitVec.isLt _)]
          rfl
        omega
      · change ((@unpackExponent Format.binary64 b).toNat : Int) - (1023 + 52) ≤ _
        omega

theorem unpackExponent_pack_le {bits : Nat} {high : Int} {u : UnpackedFloat}
    (hu : Moderate bits high u) (hlow : -1074 ≤ high) (hhigh : high ≤ 970) :
    (unpackExponent (UnpackedFloat.pack Format.binary64 u)).toNat ≤ (high + 1075).toNat := by
  cases hu with
  | zero s =>
    rw [UnpackedFloat.pack, packedZero, unpackExponent_packComponents]
    exact Nat.zero_le _
  | @finite s m e hpos hm he =>
    simp only [UnpackedFloat.pack]
    split
    · rename_i hbig
      change 2 ^ 11 ≤ (e + (1023 : Nat) + (52 : Nat)).toNat + 1 at hbig
      omega
    · split
      · rw [unpackExponent_packComponents]
        change (e + (1023 : Nat) + (52 : Nat)).toNat % 2 ^ 11 ≤ _
        omega
      · rw [unpackExponent_packComponents]
        exact Nat.zero_le _

/-- What is not too high comes out of its packed form with at most fifty-three bits. -/
theorem moderate_unpack_pack {bits : Nat} {high : Int} {u : UnpackedFloat}
    (hu : Moderate bits high u)
    (hlow : -1074 ≤ high) (hhigh : high ≤ 970) :
    Moderate 53 high (Float.Model.pack u).unpack := by
  have hexp := unpackExponent_pack_le hu hlow hhigh
  have hunpack := moderate_unpack hexp (by omega) (by omega)
  have hhigh : (((high + 1075).toNat : Nat) : Int) - 1075 = high := by omega
  rwa [hhigh] at hunpack

theorem moderate_mul {a b : Nat} {h k : Int} {u v : UnpackedFloat} (hu : Moderate a h u)
    (hv : Moderate b k v) (hlow : -1074 ≤ h + k) :
    Moderate (a + b + 1) (h + k + 2 * (a + b) + 1) (UnpackedFloat.mul Format.binary64 u v) := by
  cases hu with
  | zero s => cases hv <;> exact .zero _
  | @finite s m e hmpos hm he =>
    cases hv with
    | zero t => exact .zero _
    | @finite t n f hnpos hn hf =>
      have hprod : m * n < 2 ^ (a + b) := by
        rw [Nat.pow_add]
        exact Nat.mul_lt_mul'' hm hn
      have hround := moderate_round (s := s * t) hprod (show e + f ≤ h + k by omega) hlow
      push_cast at hround
      exact hround

theorem unpack_one :
    (Number.tenTo 0).toModel.unpack = .finite .positive (2 ^ 52) (-52) (by decide) :=
  rfl

theorem moderate_mul_one {h : Int} {x : Float} (hx : Moderate 53 h x.toModel.unpack)
    (hlow : -1022 ≤ h)
    (hhigh : h ≤ 600) : Moderate 53 (h + 161) (x * Number.tenTo 0).toModel.unpack := by
  have hone : Moderate 53 (-52) (Number.tenTo 0).toModel.unpack := by
    rw [unpack_one]
    exact .finite (by decide) (by decide)
  have hmul := moderate_mul hx hone (by omega)
  have hpack := moderate_unpack_pack hmul (by push_cast; omega) (by push_cast; omega)
  exact hpack.mono (Nat.le_refl _) (by push_cast; omega)

theorem moderate_normalize {n : Nat} (hn : n < 2 ^ 64) :
    Moderate 117 233 (UnpackedFloat.normalize Format.binary64 n 0 .positive) := by
  unfold UnpackedFloat.normalize
  split
  · rename_i h
    have hneg := Int.compare_eq_lt.1 h
    omega
  · exact .zero _
  · have htarget : -52 ≤ Format.binary64.targetExponent (totalExponent (n : Int).toNat 0) := by
      simp only [Format.targetExponent, totalExponent, Format.mantissaBits, Format.minExponent]
      omega
    have hshift :
        (0 - Format.binary64.targetExponent (totalExponent (n : Int).toNat 0)).toNat ≤ 52 := by
      omega
    refine @moderate_round _ _ 116 _ 0 ?_ ?_ (by decide)
    · rw [Nat.shiftLeft_eq]
      calc
        _ < 2 ^ 64 * 2 ^ 52 := Nat.mul_lt_mul_of_lt_of_le (by omega)
          (Nat.pow_le_pow_right (by decide) hshift) (by decide)
        _ = 2 ^ 116 := by decide
    · omega

theorem moderate_ofScientific {n : Nat} (hn : n < 2 ^ 64) :
    Moderate 119 184 (UnpackedFloat.ofScientific Format.binary64 n 0) := by
  unfold UnpackedFloat.ofScientific
  split
  · exact .zero _
  · have hlow : ¬ (0 : Int) < -((2 ^ 11 : Int) + n.log2) := by omega
    rw [if_neg (by decide), if_neg hlow, if_pos (Int.le_refl 0)]
    have hbits : n <<< 53 < 2 ^ 117 := by
      rw [Nat.shiftLeft_eq]
      omega
    exact moderate_mul (a := 117) (b := 1) (h := -53) (k := 0) (.finite hbits (Int.le_refl _))
      (.finite (show 1 < 2 ^ 1 by decide) (Int.le_refl 0)) (by decide)

theorem moderate_ofNat {n : Nat} (hn : n < 2 ^ 64) :
    Moderate 53 400 (Float.ofNat n).toModel.unpack := by
  change Moderate 53 400 (Float.ofScientific n false 0).toModel.unpack
  unfold Float.ofScientific
  split
  · have hword : n.toUInt64.toNat = n := by
      rw [Nat.toUInt64, UInt64.toNat_ofNat']
      exact Nat.mod_eq_of_lt hn
    have hnorm := moderate_normalize hn
    rw [← hword] at hnorm
    have hfloat : Moderate 53 233 n.toUInt64.toFloat.toModel.unpack :=
      moderate_unpack_pack hnorm (by decide) (by decide)
    exact (moderate_mul_one hfloat (by decide) (by decide)).mono (Nat.le_refl _) (by decide)
  · have hpack := moderate_unpack_pack (moderate_ofScientific hn) (by decide) (by decide)
    exact hpack.mono (Nat.le_refl _) (by decide)

namespace Number

theorem le_ofDigitChars (n : Nat) (ds : List Char) : n ≤ Nat.ofDigitChars 10 ds n := by
  rw [Nat.ofDigitChars_eq_ofDigitChars_zero]
  have hpow : 1 * n ≤ 10 ^ ds.length * n := Nat.mul_le_mul_right n (Nat.one_le_pow _ _ (by decide))
  omega

theorem gather_of_lt {n : Nat} {ds : List Char} (h : Nat.ofDigitChars 10 ds n < 2 ^ 64) :
    gather n ds = (Nat.ofDigitChars 10 ds n, ds.length) := by
  induction ds generalizing n with
  | nil => rfl
  | cons d ds ih =>
    rw [Nat.ofDigitChars_cons, Nat.mul_comm] at h ⊢
    have hstep := le_ofDigitChars (n * 10 + (d.toNat - '0'.toNat)) ds
    have hword : n * 10 + (d.toNat - '0'.toNat) < UInt64.size := Nat.lt_of_le_of_lt hstep h
    rw [gather, if_pos hword, ih h]
    rfl

theorem magnitude?_ofInt {i : Int} (h : i.natAbs < UInt64.size) :
    (ofInt i).magnitude? = some (Float.ofNat i.natAbs * tenTo 0) := by
  have hvalue : Nat.ofDigitChars 10 (Nat.toDigits 10 i.natAbs) 0 = i.natAbs :=
    Nat.ofDigitChars_ten_toDigits
  have hgather := @gather_of_lt 0 (Nat.toDigits 10 i.natAbs) (by rwa [hvalue])
  have hfinite := (moderate_mul_one (moderate_ofNat h) (by decide) (by decide)).not_isInf
  rw [hvalue] at hgather
  simp only [magnitude?, ofInt, hgather, gather, Nat.sub_self]
  change scale (Float.ofNat i.natAbs) 0 = _
  rw [scale, if_pos (Int.le_refl 0), if_pos (by decide)]
  exact if_neg (by rw [Float.isInf]; exact ne_true_of_eq_false hfinite)

theorem isFinite_ofInt {i : Int} (h : i.natAbs < UInt64.size) : (ofInt i).isFinite = true := by
  rw [isFinite, real?, magnitude?_ofInt h]
  rfl

end Number

end Cardroom.Json
