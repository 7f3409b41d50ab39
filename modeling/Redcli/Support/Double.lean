import Mathlib.Algebra.Field.Rat

/-!
# Floating Point Values in Exact Arithmetic

The values of a floating point type whose finite values are not rounded: rationals, the two
infinities, and the value that is not a number.
-/

/-- A floating point value in exact arithmetic. -/
inductive Double where
  | finite (x : ℚ)
  | infinite (negative : Bool)
  | nan
  deriving DecidableEq, Repr

namespace Double

instance : Coe ℚ Double := ⟨finite⟩

/-- The product with a positive number. -/
def scale (k : ℚ) : Double → Double
  | finite x => finite (x * k)
  | infinite negative => infinite negative
  | nan => nan

/-- The rational number that a value is. -/
def toRat? : Double → Option ℚ
  | finite x => some x
  | _ => none

@[simp] theorem scale_finite (k x : ℚ) : scale k (finite x) = finite (x * k) := rfl

@[simp] theorem toRat?_finite (x : ℚ) : toRat? (finite x) = some x := rfl

end Double
