import Mathlib.Data.Int.Log
import Mathlib.Data.Rat.Floor
import Mathlib.Algebra.Order.Field.Power
import Mathlib.Tactic.Linarith
import Mathlib.Tactic.Positivity
import Mathlib.Tactic.FieldSimp
import Mathlib.Tactic.Ring

/-!
Single-precision numbers as values: every finite datum is `m * 2^e` with a
24-bit significand and a bounded exponent, and arithmetic is the exact rational
result rounded to nearest, ties to even. The two zeros are one value, and so are
all NaNs: comparing and computing do not tell them apart. Their bits do, so where a
program reads the bits of a number off, what is modelled of it is one value for both.
-/
namespace Binary32

/-- The finite values of the format. -/
def Representable (q : ℚ) : Prop :=
  ∃ m e : ℤ, |m| < 2 ^ 24 ∧ -149 ≤ e ∧ e ≤ 104 ∧ q = m * (2 : ℚ) ^ e

inductive F32 where
  | nan
  | inf (negative : Bool)
  | finite (value : ℚ) (representable : Representable value)
  deriving DecidableEq

theorem representable_intCast {m : ℤ} (h : |m| < 2 ^ 24) : Representable m :=
  ⟨m, 0, h, by decide, by decide, by simp⟩

theorem representable_natCast {n : ℕ} (h : n < 2 ^ 24) : Representable n := by
  have := representable_intCast (m := n) (by simpa using h)
  simpa using this

theorem representable_zero : Representable 0 := by
  simpa using representable_natCast (n := 0) (by decide)

theorem Representable.abs {q : ℚ} (h : Representable q) : Representable |q| := by
  obtain ⟨m, e, hm, hlo, hhi, rfl⟩ := h
  refine ⟨|m|, e, by simpa using hm, hlo, hhi, ?_⟩
  rw [abs_mul, abs_of_pos (a := (2 : ℚ) ^ e) (by positivity)]
  simp

def roundHalfEven (x : ℚ) : ℤ :=
  if x - ⌊x⌋ < 1 / 2 then ⌊x⌋
  else if 1 / 2 < x - ⌊x⌋ then ⌊x⌋ + 1
  else if ⌊x⌋ % 2 = 0 then ⌊x⌋ else ⌊x⌋ + 1

@[simp] theorem roundHalfEven_intCast (m : ℤ) : roundHalfEven m = m := by
  simp [roundHalfEven]

theorem roundHalfEven_le {x : ℚ} {n : ℤ} (h : x ≤ n) : roundHalfEven x ≤ n := by
  have hfloor : ⌊x⌋ ≤ n := Int.floor_le_iff.2 (by linarith)
  rcases hfloor.lt_or_eq with hlt | heq
  · unfold roundHalfEven
    split_ifs <;> omega
  · have : x - ⌊x⌋ < 1 / 2 := by rw [heq]; linarith
    rw [roundHalfEven, if_pos this]
    exact hfloor

theorem le_roundHalfEven {x : ℚ} {n : ℤ} (h : (n : ℚ) ≤ x) : n ≤ roundHalfEven x := by
  have hfloor : n ≤ ⌊x⌋ := Int.le_floor.2 h
  unfold roundHalfEven
  split_ifs <;> omega

/-- The exponent the nearest representable value of a nonzero `q` is written with. -/
def exponentOf (q : ℚ) : ℤ := max (Int.log 2 |q| - 23) (-149)

/-- The significand `q` is rounded to at that exponent. -/
def significandOf (q : ℚ) : ℤ := roundHalfEven (q / (2 : ℚ) ^ exponentOf q)

theorem abs_div_exponent_le (q : ℚ) : |q / (2 : ℚ) ^ exponentOf q| ≤ 2 ^ 24 := by
  have hpow : (0 : ℚ) < 2 ^ exponentOf q := by positivity
  rw [abs_div, abs_of_pos hpow, div_le_iff₀ hpow]
  have hlog : |q| < (2 : ℚ) ^ (Int.log 2 |q| + 1) := by
    simpa using Int.lt_zpow_succ_log_self (b := 2) (by decide) |q|
  have hexp : Int.log 2 |q| + 1 ≤ 24 + exponentOf q := by unfold exponentOf; omega
  have hmono : (2 : ℚ) ^ (Int.log 2 |q| + 1) ≤ 2 ^ (24 + exponentOf q) :=
    zpow_le_zpow_right₀ (by norm_num) hexp
  have hsplit : (2 : ℚ) ^ (24 + exponentOf q) = 2 ^ 24 * 2 ^ exponentOf q := by
    rw [zpow_add₀ (by norm_num)]; norm_num
  linarith

theorem abs_significandOf_le (q : ℚ) : |significandOf q| ≤ 2 ^ 24 := by
  obtain ⟨hlo, hhi⟩ := abs_le.1 (abs_div_exponent_le q)
  refine abs_le.2 ⟨le_roundHalfEven ?_, roundHalfEven_le ?_⟩
  · push_cast; linarith
  · push_cast; linarith

/-- Above the subnormal range the significand keeps all 24 bits. -/
theorem le_abs_significandOf {q : ℚ} (hq : q ≠ 0) (he : -149 < exponentOf q) :
    2 ^ 23 ≤ |significandOf q| := by
  have hexp : exponentOf q = Int.log 2 |q| - 23 := by unfold exponentOf at *; omega
  have hpow : (0 : ℚ) < 2 ^ exponentOf q := by positivity
  have hlog : (2 : ℚ) ^ (Int.log 2 |q|) ≤ |q| := by
    simpa using Int.zpow_log_le_self (b := 2) (by decide) (abs_pos.2 hq)
  have hbig : (2 : ℚ) ^ 23 ≤ |q| / 2 ^ exponentOf q := by
    have hsum : (23 : ℤ) + exponentOf q = Int.log 2 |q| := by omega
    rw [le_div_iff₀ hpow, ← zpow_ofNat, ← zpow_add₀ (by norm_num), hsum]
    exact hlog
  rcases lt_or_gt_of_ne hq with hneg | hpos
  · have hle : q / (2 : ℚ) ^ exponentOf q ≤ ((-(2 ^ 23) : ℤ) : ℚ) := by
      rw [abs_of_neg hneg, neg_div] at hbig
      push_cast; linarith
    have := roundHalfEven_le hle
    exact le_abs.2 (Or.inr (by unfold significandOf; omega))
  · have hle : ((2 ^ 23 : ℤ) : ℚ) ≤ q / (2 : ℚ) ^ exponentOf q := by
      rw [abs_of_pos hpos] at hbig
      push_cast; linarith
    exact le_abs.2 (Or.inl (le_roundHalfEven hle))

/-- A rounded magnitude is representable unless it reaches `2^128`. -/
theorem representable_rounded {q : ℚ}
    (hbound : |(significandOf q : ℚ) * 2 ^ exponentOf q| < 2 ^ 128) :
    Representable (significandOf q * 2 ^ exponentOf q) := by
  by_cases hq : q = 0
  · subst hq
    have : significandOf 0 = 0 := by
      simpa [significandOf] using roundHalfEven_intCast 0
    simpa [this] using representable_zero
  have hlo : -149 ≤ exponentOf q := le_max_right _ _
  have hpow : (0 : ℚ) < 2 ^ exponentOf q := by positivity
  have hhi : exponentOf q ≤ 104 := by
    by_contra hgt
    have hm : (2 : ℚ) ^ 23 ≤ |(significandOf q : ℚ)| := by
      exact_mod_cast le_abs_significandOf hq (by omega)
    have he : (2 : ℚ) ^ (105 : ℤ) ≤ 2 ^ exponentOf q :=
      zpow_le_zpow_right₀ (by norm_num) (by omega)
    rw [abs_mul, abs_of_pos hpow] at hbound
    have : (2 : ℚ) ^ 23 * 2 ^ (105 : ℤ) ≤ |(significandOf q : ℚ)| * 2 ^ exponentOf q :=
      mul_le_mul hm he (by positivity) (by positivity)
    norm_num at this hbound
    linarith
  rcases (abs_significandOf_le q).lt_or_eq with hlt | heq
  · exact ⟨_, _, hlt, hlo, hhi, rfl⟩
  -- a significand rounded up to 2^24 moves one bit into the exponent
  · have heven : (2 : ℤ) ∣ significandOf q := by
      rw [← dvd_abs, heq]; norm_num
    obtain ⟨k, hk⟩ := heven
    have hk24 : |k| < 2 ^ 24 := by
      rw [hk, abs_mul] at heq
      norm_num at heq ⊢
      omega
    have htop : exponentOf q ≠ 104 := by
      intro h104
      rw [abs_mul, abs_of_pos hpow, h104] at hbound
      have : |(significandOf q : ℚ)| = 2 ^ 24 := by exact_mod_cast heq
      rw [this] at hbound
      norm_num at hbound
    refine ⟨k, exponentOf q + 1, hk24, by omega, by omega, ?_⟩
    rw [hk, zpow_add₀ (by norm_num)]
    push_cast
    ring

/-- The nearest value of the format, overflowing to infinity. -/
def F32.round (q : ℚ) : F32 :=
  if h : |(significandOf q : ℚ) * 2 ^ exponentOf q| < 2 ^ 128 then
    .finite (significandOf q * 2 ^ exponentOf q) (representable_rounded h)
  else .inf (decide (q < 0))

/-- Rounding is exact where there is nothing to round. -/
theorem significandOf_representable {q : ℚ} (h : Representable q) :
    (significandOf q : ℚ) * 2 ^ exponentOf q = q := by
  obtain ⟨m, e, hm, hlo, -, rfl⟩ := h
  by_cases hm0 : m = 0
  · have hzero : significandOf 0 = 0 := by
      simpa [significandOf] using roundHalfEven_intCast 0
    simp [hm0, hzero]
  have hle : exponentOf (m * (2 : ℚ) ^ e) ≤ e := by
    refine max_le ?_ hlo
    have hpow : (0 : ℚ) < 2 ^ e := by positivity
    have hmpos : (0 : ℚ) < |(m : ℚ)| := abs_pos.2 (by exact_mod_cast hm0)
    have hlt : |(m : ℚ) * 2 ^ e| < ((2 : ℕ) : ℚ) ^ (24 + e) := by
      have hmq : |(m : ℚ)| < 2 ^ 24 := by exact_mod_cast hm
      rw [abs_mul, abs_of_pos hpow]
      push_cast
      rw [zpow_add₀ (by norm_num)]
      norm_num at hmq ⊢
      nlinarith
    have := (Int.lt_zpow_iff_log_lt (by decide) (by positivity)).1 hlt
    omega
  obtain ⟨n, hn⟩ := Int.eq_ofNat_of_zero_le (sub_nonneg.2 hle)
  have hexp : e = n + exponentOf (m * (2 : ℚ) ^ e) := by
    have hn' : e - exponentOf (m * (2 : ℚ) ^ e) = n := hn
    linarith
  have hquot : (m : ℚ) * 2 ^ e / 2 ^ exponentOf (m * (2 : ℚ) ^ e) = ((m * 2 ^ n : ℤ) : ℚ) := by
    rw [div_eq_iff (by positivity)]
    push_cast
    rw [mul_assoc, ← zpow_natCast, ← zpow_add₀ (by norm_num), ← hexp]
  unfold significandOf
  rw [hquot, roundHalfEven_intCast, ← hquot, div_mul_cancel₀]
  positivity

theorem Representable.abs_lt {q : ℚ} (h : Representable q) : |q| < 2 ^ 128 := by
  obtain ⟨m, e, hm, -, hhi, rfl⟩ := h
  have hmq : |(m : ℚ)| < 2 ^ 24 := by exact_mod_cast hm
  have hpow : (2 : ℚ) ^ e ≤ 2 ^ (104 : ℤ) := zpow_le_zpow_right₀ (by norm_num) hhi
  rw [abs_mul, abs_of_pos (a := (2 : ℚ) ^ e) (by positivity)]
  calc |(m : ℚ)| * 2 ^ e ≤ |(m : ℚ)| * 2 ^ (104 : ℤ) := by gcongr
    _ < 2 ^ 24 * 2 ^ (104 : ℤ) := by gcongr
    _ = 2 ^ 128 := by norm_num

theorem F32.round_representable {q : ℚ} (h : Representable q) : F32.round q = .finite q h := by
  have hexact := significandOf_representable h
  have hbound : |(significandOf q : ℚ) * 2 ^ exponentOf q| < 2 ^ 128 := by
    rw [hexact]; exact h.abs_lt
  simp only [F32.round, dif_pos hbound]
  congr 1

namespace F32

def isFinite : F32 → Bool
  | .finite .. => true
  | _ => false

def ofInt (n : ℤ) : F32 := round n

def abs : F32 → F32
  | .nan => .nan
  | .inf _ => .inf false
  | .finite q h => .finite |q| h.abs

def sub : F32 → F32 → F32
  | .finite p _, .finite q _ => round (p - q)
  | .inf a, .finite .. => .inf a
  | .finite .., .inf b => .inf !b
  | .inf a, .inf b => if a = b then .nan else .inf a
  | _, _ => .nan

def zero : F32 := .finite 0 representable_zero

def value : F32 → ℚ
  | .finite q _ => q
  | _ => 0

def IsPositive : F32 → Prop
  | .finite q _ => 0 < q
  | _ => False

instance : DecidablePred IsPositive := fun x =>
  match x with
  | .finite q _ => inferInstanceAs (Decidable (0 < q))
  | .inf _ => inferInstanceAs (Decidable False)
  | .nan => inferInstanceAs (Decidable False)

theorem ofInt_eq {n : ℤ} (h : |n| < 2 ^ 24) : ofInt n = .finite n (representable_intCast h) :=
  round_representable _

@[simp] theorem ofInt_zero : ofInt 0 = zero := by
  rw [ofInt_eq (by decide)]
  simp [zero]

@[simp] theorem sub_zero_finite (q : ℚ) (h : Representable q) :
    sub (.finite q h) zero = .finite q h := by
  simp only [sub, zero, sub_zero]
  exact round_representable h

/-- Measuring a box whose lower corner is the origin gives back its upper corner. -/
theorem abs_sub_zero {x : F32} (h : x.IsPositive) : (sub x zero).abs = x := by
  cases x with
  | finite q hq =>
    have hpos : (0 : ℚ) < q := h
    simp [abs, abs_of_pos hpos]
  | inf negative => exact h.elim
  | nan => exact h.elim

end F32

/-! ### Rounding between halves of integers -/

/-- Below 2^23 every half of an integer is on the grid a number is rounded to. -/
theorem half_on_grid {q : ℚ} (hq : |q| < 2 ^ 23) (m : ℤ) :
    ∃ n : ℤ, (m : ℚ) / 2 / 2 ^ exponentOf q = n := by
  have hexp : exponentOf q ≤ -1 := by
    have hlog : Int.log 2 |q| ≤ 22 := by
      by_cases hzero : q = 0
      · simp [hzero]
      · have hlt : |q| < ((2 : ℕ) : ℚ) ^ (23 : ℤ) := by exact_mod_cast hq
        have := (Int.lt_zpow_iff_log_lt (by decide) (abs_pos.2 hzero)).1 hlt
        omega
    unfold exponentOf
    omega
  obtain ⟨k, hk⟩ := Int.eq_ofNat_of_zero_le (show 0 ≤ -1 - exponentOf q by omega)
  have hexp' : exponentOf q = -1 - (k : ℤ) := by omega
  refine ⟨m * 2 ^ k, ?_⟩
  rw [hexp', zpow_sub₀ (by norm_num), zpow_neg_one, zpow_natCast]
  push_cast
  field_simp

/-- Below 2^23 rounding passes no half of an integer. -/
theorem F32.round_between {q : ℚ} (hq : |q| < 2 ^ 23) :
    ∃ v h, F32.round q = .finite v h ∧
      ∀ m : ℤ, (q ≤ (m : ℚ) / 2 → v ≤ (m : ℚ) / 2) ∧ ((m : ℚ) / 2 ≤ q → (m : ℚ) / 2 ≤ v) := by
  have hpow : (0 : ℚ) < 2 ^ exponentOf q := by positivity
  have hbetween : ∀ m : ℤ,
      (q ≤ (m : ℚ) / 2 → significandOf q * 2 ^ exponentOf q ≤ (m : ℚ) / 2) ∧
      ((m : ℚ) / 2 ≤ q → (m : ℚ) / 2 ≤ significandOf q * 2 ^ exponentOf q) := by
    intro m
    obtain ⟨n, hn⟩ := half_on_grid hq m
    have hhalf : (m : ℚ) / 2 = n * 2 ^ exponentOf q := by
      rw [← hn, div_mul_cancel₀ _ hpow.ne']
    rw [hhalf]
    constructor
    · intro h
      have hle : significandOf q ≤ n := roundHalfEven_le ((div_le_iff₀ hpow).2 h)
      have hcast : (significandOf q : ℚ) ≤ n := by exact_mod_cast hle
      gcongr
    · intro h
      have hle : n ≤ significandOf q := le_roundHalfEven ((le_div_iff₀ hpow).2 h)
      have hcast : (n : ℚ) ≤ significandOf q := by exact_mod_cast hle
      gcongr
  have hbound : |(significandOf q : ℚ) * 2 ^ exponentOf q| < 2 ^ 128 := by
    obtain ⟨hlow, hhigh⟩ := abs_lt.1 hq
    have htop := (hbetween (2 ^ 24)).1 (by push_cast; linarith)
    have hbottom := (hbetween (-2 ^ 24)).2 (by push_cast; linarith)
    push_cast at htop hbottom
    exact abs_lt.2 ⟨by linarith, by linarith⟩
  exact ⟨_, representable_rounded hbound, dif_pos hbound, hbetween⟩

/-- A number below zero is not rounded above it. -/
theorem F32.round_nonpos {q : ℚ} (hq : q < 0) :
    F32.round q = .inf true ∨ ∃ v h, F32.round q = .finite v h ∧ v ≤ 0 := by
  by_cases hbound : |(significandOf q : ℚ) * 2 ^ exponentOf q| < 2 ^ 128
  · refine .inr ⟨_, representable_rounded hbound, dif_pos hbound, ?_⟩
    have hpow : (0 : ℚ) < 2 ^ exponentOf q := by positivity
    have hle : significandOf q ≤ 0 := by
      refine roundHalfEven_le ?_
      push_cast
      exact (div_neg_of_neg_of_pos hq hpow).le
    exact mul_nonpos_of_nonpos_of_nonneg (by exact_mod_cast hle) hpow.le
  · refine .inl ?_
    rw [F32.round, dif_neg hbound, decide_eq_true hq]

end Binary32
