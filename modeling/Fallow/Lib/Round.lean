import Mathlib

/-! Rounding a rational to the nearest integer, ties to even, as Python's `round` and `timedelta`
    do it. Floats are read as exact rationals throughout. -/

namespace Fallow.Lib

/-- Nearest integer, a tie going to the even neighbour. -/
def roundHalfEven (q : ℚ) : ℤ :=
  let lo := ⌊q⌋
  if q - lo < 1 / 2 then lo
  else if 1 / 2 < q - lo then lo + 1
  else if lo % 2 = 0 then lo else lo + 1

end Fallow.Lib
