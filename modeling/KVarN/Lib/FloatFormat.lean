import Mathlib.Data.Int.Log
import Mathlib.Data.Rat.Floor

/-!
# Binary floating-point formats

The numbers of a format near `x` are the multiples of a power of two. An operation of the
format is the exact one, rounded to the nearest of them, and to an even multiple if `x` is
half-way between two. Numbers that overflow are left out.
-/

namespace KVarN.Lib

/-- The bits of the significand, and the exponent of the least positive number. -/
structure FloatFormat where
  precision : ℕ
  minExponent : ℤ

namespace FloatFormat

variable (f : FloatFormat) (x : ℚ)

/-- The spacing of the numbers of the format at `x`. -/
def spacing : ℚ := 2 ^ max (Int.log 2 |x| + 1 - f.precision) f.minExponent

/-- Rounding to nearest, ties to even. -/
def round : ℚ :=
  let q := x / f.spacing x
  let n := ⌊q⌋
  (if q - n < 1 / 2 then n else if 1 / 2 < q - n then n + 1 else if n % 2 = 0 then n else n + 1) *
    f.spacing x

@[simp] theorem round_zero : f.round 0 = 0 := by
  simp [round]

end FloatFormat

/-- `float32`. -/
def float32 : ℚ → ℚ := FloatFormat.round ⟨24, -149⟩

/-- `float`, a double. -/
def float64 : ℚ → ℚ := FloatFormat.round ⟨53, -1074⟩

@[simp] theorem float32_zero : float32 0 = 0 := FloatFormat.round_zero _

end KVarN.Lib
