import OpdfEditor.Binary32

/-!
Double-precision numbers, as far as they are computed from integers and single-precision
numbers, subtracted and compared: finite values are the exact results rounded to nearest, ties
to even. The two zeros are one value.
-/
namespace Binary64

open Binary32 (F32 roundHalfEven)

inductive F64 where
  | nan
  | inf (negative : Bool)
  | finite (value : ℚ)
  deriving DecidableEq

/-- The exponent the nearest double of a nonzero `q` is written with. -/
def exponentOf (q : ℚ) : ℤ := max (Int.log 2 |q| - 52) (-1074)

def rounded (q : ℚ) : ℚ := roundHalfEven (q / (2 : ℚ) ^ exponentOf q) * (2 : ℚ) ^ exponentOf q

namespace F64

def round (q : ℚ) : F64 :=
  if |rounded q| < 2 ^ 1024 then .finite (rounded q) else .inf (decide (rounded q < 0))

def ofInt (n : ℤ) : F64 := round n

/-- Widening is exact. -/
def ofF32 : F32 → F64
  | .nan => .nan
  | .inf negative => .inf negative
  | .finite value _ => .finite value

def abs : F64 → F64
  | .nan => .nan
  | .inf _ => .inf false
  | .finite value => .finite |value|

def sub : F64 → F64 → F64
  | .finite p, .finite q => round (p - q)
  | .inf a, .finite _ => .inf a
  | .finite _, .inf b => .inf !b
  | .inf a, .inf b => if a = b then .nan else .inf a
  | _, _ => .nan

/-- Comparison with `==`: nothing equals what is not a number, itself included. -/
def eq (x y : F64) : Bool := decide (x ≠ .nan ∧ x = y)

@[simp] theorem eq_self (x : F64) : eq x x = decide (x ≠ .nan) := by simp [eq]

@[simp] theorem abs_eq_nan {x : F64} : x.abs = .nan ↔ x = .nan := by
  cases x <;> simp [abs]

theorem round_ne_nan (q : ℚ) : round q ≠ .nan := by
  unfold round
  split <;> simp

/-- Two numbers have no difference when either is none, or both are the same infinity. -/
def Indeterminate (x y : F64) : Prop := x = .nan ∨ y = .nan ∨ ∃ negative, x = .inf negative ∧ y = .inf negative

theorem sub_eq_nan {x y : F64} : sub x y = .nan ↔ Indeterminate x y := by
  cases x with
  | nan => cases y <;> simp [sub, Indeterminate]
  | inf a =>
    cases y with
    | nan => simp [sub, Indeterminate]
    | inf b => simp [sub, Indeterminate, eq_comm]
    | finite q => simp [sub, Indeterminate]
  | finite p =>
    cases y with
    | nan => simp [sub, Indeterminate]
    | inf b => simp [sub, Indeterminate]
    | finite q => simp [sub, Indeterminate, round_ne_nan]

end F64
end Binary64
