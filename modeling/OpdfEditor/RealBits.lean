import OpdfEditor.StructuralDiff

/-!
The bits of a single-precision number determine it, and are 32.
-/
namespace OpdfEditor
namespace Roundtrip

open Binary32 (F32 Representable significandOf exponentOf significandOf_representable)

/-- Exponent and significand of a magnitude. -/
def magnitudeBits (value : ℚ) : ℕ :=
  if (significandOf value).natAbs < 2 ^ 23 then (significandOf value).natAbs
  else (exponentOf value + 150).toNat * 2 ^ 23 + ((significandOf value).natAbs - 2 ^ 23)

theorem realBits_finite (value : ℚ) (h : Representable value) :
    realBits (.finite value h) =
      if value < 0 then 2 ^ 31 + magnitudeBits value else magnitudeBits value := rfl

/-- The magnitude that such bits stand for. -/
def bitsMagnitude (bits : ℕ) : ℚ :=
  if bits < 2 ^ 23 then bits * (2 : ℚ) ^ (-149 : ℤ)
  else (2 ^ 23 + bits % 2 ^ 23 : ℕ) * (2 : ℚ) ^ ((bits / 2 ^ 23 : ℕ) - 150 : ℤ)

theorem abs_eq_significand_mul {value : ℚ} (h : Representable value) :
    |value| = (significandOf value).natAbs * (2 : ℚ) ^ exponentOf value := by
  have hpow : (0 : ℚ) < 2 ^ exponentOf value := by positivity
  calc |value| = |(significandOf value : ℚ) * 2 ^ exponentOf value| := by
        rw [significandOf_representable h]
    _ = (significandOf value).natAbs * 2 ^ exponentOf value := by
        rw [abs_mul, abs_of_pos hpow, Nat.cast_natAbs, Int.cast_abs]

/-- A significand has 24 bits. -/
theorem natAbs_significandOf_lt {value : ℚ} (h : Representable value) :
    (significandOf value).natAbs < 2 ^ 24 := by
  have hpow : (0 : ℚ) < 2 ^ exponentOf value := by positivity
  have hlog : |value| < (2 : ℚ) ^ (Int.log 2 |value| + 1) := by
    simpa using Int.lt_zpow_succ_log_self (b := 2) (by decide) |value|
  have hexp : Int.log 2 |value| + 1 ≤ 24 + exponentOf value := by
    unfold exponentOf
    omega
  have hmono : (2 : ℚ) ^ (Int.log 2 |value| + 1) ≤ 2 ^ (24 + exponentOf value) :=
    zpow_le_zpow_right₀ (by norm_num) hexp
  rw [zpow_add₀ (by norm_num) 24] at hmono
  have hlt : ((significandOf value).natAbs : ℚ) < 2 ^ (24 : ℤ) := by
    refine lt_of_mul_lt_mul_right ?_ hpow.le
    rw [← abs_eq_significand_mul h]
    exact hlog.trans_le hmono
  exact_mod_cast hlt

theorem neg_le_exponentOf (value : ℚ) : -149 ≤ exponentOf value := le_max_right _ _

/-- Only subnormal numbers have a significand of fewer bits. -/
theorem exponentOf_of_lt {value : ℚ} (hvalue : value ≠ 0)
    (h : (significandOf value).natAbs < 2 ^ 23) : exponentOf value = -149 := by
  by_contra hne
  have hlow := neg_le_exponentOf value
  have hbig := Binary32.le_abs_significandOf hvalue (by omega)
  rw [Int.abs_eq_natAbs] at hbig
  omega

theorem exponentOf_le {value : ℚ} (h : Representable value) : exponentOf value ≤ 104 := by
  have hlog : Int.log 2 |value| < 128 := by
    rcases eq_or_ne value 0 with rfl | hvalue
    · simp
    · rw [← Int.lt_zpow_iff_log_lt (by decide) (abs_pos.2 hvalue)]
      exact_mod_cast h.abs_lt
  unfold exponentOf
  omega

theorem magnitudeBits_lt {value : ℚ} (h : Representable value) :
    magnitudeBits value < 255 * 2 ^ 23 := by
  have hsignificand := natAbs_significandOf_lt h
  have hlow := neg_le_exponentOf value
  have hhigh := exponentOf_le h
  unfold magnitudeBits
  split_ifs <;> omega

/-- The bits of a magnitude stand for it. -/
theorem bitsMagnitude_magnitudeBits {value : ℚ} (h : Representable value) :
    bitsMagnitude (magnitudeBits value) = |value| := by
  have hsignificand := natAbs_significandOf_lt h
  have hlow := neg_le_exponentOf value
  rw [abs_eq_significand_mul h]
  unfold magnitudeBits
  split_ifs with hsmall
  · rw [bitsMagnitude, if_pos hsmall]
    rcases eq_or_ne value 0 with rfl | hvalue
    · simp [significandOf, Binary32.roundHalfEven]
    · rw [exponentOf_of_lt hvalue hsmall]
  · have hdiv : ((exponentOf value + 150).toNat * 2 ^ 23 +
        ((significandOf value).natAbs - 2 ^ 23)) / 2 ^ 23 = (exponentOf value + 150).toNat := by omega
    have hmod : 2 ^ 23 + ((exponentOf value + 150).toNat * 2 ^ 23 +
        ((significandOf value).natAbs - 2 ^ 23)) % 2 ^ 23 = (significandOf value).natAbs := by omega
    have hexponent : ((exponentOf value + 150).toNat : ℤ) - 150 = exponentOf value := by omega
    rw [bitsMagnitude, if_neg (by omega), hdiv, hmod, hexponent]

theorem realBits_lt (value : F32) : realBits value < 2 ^ 32 := by
  cases value with
  | nan => decide
  | inf negative => cases negative <;> decide
  | finite value h =>
    have hbits := magnitudeBits_lt h
    rw [realBits_finite]
    split_ifs <;> omega

theorem realBits_mod (value : ℚ) (h : Representable value) :
    realBits (.finite value h) % 2 ^ 31 = magnitudeBits value := by
  have hbits := magnitudeBits_lt h
  rw [realBits_finite]
  split_ifs <;> omega

/-- The largest exponent is kept for what is not finite. -/
theorem realBits_mod_lt_iff {value : F32} :
    realBits value % 2 ^ 31 < 255 * 2 ^ 23 ↔ value.isFinite = true := by
  cases value with
  | nan => decide
  | inf negative => cases negative <;> decide
  | finite value h =>
    rw [realBits_mod]
    exact iff_of_true (magnitudeBits_lt h) rfl

theorem realBits_injective : Function.Injective realBits := by
  intro value value' heq
  have hfinite : value.isFinite = value'.isFinite := by
    rw [Bool.eq_iff_iff, ← realBits_mod_lt_iff, heq, realBits_mod_lt_iff]
  cases value with
  | nan =>
    cases value' with
    | nan => rfl
    | inf negative => cases negative <;> cases heq
    | finite => cases hfinite
  | inf negative =>
    cases value' with
    | nan => cases negative <;> cases heq
    | inf negative' => cases negative <;> cases negative' <;> first | rfl | cases heq
    | finite => cases hfinite
  | finite value h =>
    cases value' with
    | nan => cases hfinite
    | inf => cases hfinite
    | finite value' h' =>
      have hbits := magnitudeBits_lt h
      have hbits' := magnitudeBits_lt h'
      have hmagnitude : magnitudeBits value = magnitudeBits value' := by
        rw [← realBits_mod value h, heq, realBits_mod]
      have hsign : value < 0 ↔ value' < 0 := by
        rw [realBits_finite, realBits_finite] at heq
        split_ifs at heq <;> grind
      have habs : |value| = |value'| := by
        rw [← bitsMagnitude_magnitudeBits h, hmagnitude, bitsMagnitude_magnitudeBits h']
      have hvalue : value = value' := by
        rcases abs_eq_abs.1 habs with hvalue | hvalue <;> grind
      subst hvalue
      rfl

end Roundtrip
end OpdfEditor
