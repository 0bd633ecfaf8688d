import Mathlib.Tactic

/-! # Signed fixed-width integers as integers

A machine integer is an `Int` together with the width it has to fit in.  The
checked, wrapping and saturating operations of a `w`-bit signed type are the
exact operation followed by a range test, a reduction modulo `2 ^ w`, or a
clamp; on results that fit all three are the exact operation.
-/

namespace FixedWidth

def lo (w : Nat) : Int := -2 ^ (w - 1)

def hi (w : Nat) : Int := 2 ^ (w - 1) - 1

/-- The exact value is representable in `w` bits. -/
def Fits (w : Nat) (x : Int) : Prop := lo w ≤ x ∧ x ≤ hi w

instance (w : Nat) (x : Int) : Decidable (Fits w x) := inferInstanceAs (Decidable (_ ∧ _))

def checkedAdd (w : Nat) (a b : Int) : Option Int :=
  if Fits w (a + b) then some (a + b) else none

def checkedSub (w : Nat) (a b : Int) : Option Int :=
  if Fits w (a - b) then some (a - b) else none

/-- Two's complement reduction of an exact result. -/
def wrap (w : Nat) (x : Int) : Int := x.bmod (2 ^ w)

def clamp (w : Nat) (x : Int) : Int := max (lo w) (min (hi w) x)

def saturatingAdd (w : Nat) (a b : Int) : Int := clamp w (a + b)

def saturatingSub (w : Nat) (a b : Int) : Int := clamp w (a - b)

theorem fits_iff_32 {x : Int} : Fits 32 x ↔ -2147483648 ≤ x ∧ x ≤ 2147483647 := by
  simp [Fits, lo, hi]

theorem fits_iff_64 {x : Int} :
    Fits 64 x ↔ -9223372036854775808 ≤ x ∧ x ≤ 9223372036854775807 := by
  simp [Fits, lo, hi]

theorem wrap_of_fits_32 {x : Int} (fits : Fits 32 x) : wrap 32 x = x := by
  rw [fits_iff_32] at fits
  apply Int.bmod_eq_of_le <;> norm_num <;> omega

theorem wrap_of_fits_64 {x : Int} (fits : Fits 64 x) : wrap 64 x = x := by
  rw [fits_iff_64] at fits
  apply Int.bmod_eq_of_le <;> norm_num <;> omega

theorem clamp_of_fits {w : Nat} {x : Int} (fits : Fits w x) : clamp w x = x := by
  simp only [clamp, min_eq_right fits.2, max_eq_right fits.1]

theorem le_of_le_clamp {w : Nat} {x m : Int} (above : lo w < m) (le : m ≤ clamp w x) : m ≤ x := by
  rcases le_max_iff.mp le with low | inside
  · exact absurd low (not_le.mpr above)
  · exact inside.trans (min_le_right _ _)

theorem lo_nonpos (w : Nat) : lo w ≤ 0 := by
  have : (0 : Int) ≤ 2 ^ (w - 1) := by positivity
  simp only [lo]
  omega

/-- A sum that is not negative overflows only at the upper end. -/
theorem checkedAdd_of_nonneg {w : Nat} {a b : Int} (nonneg : 0 ≤ a + b) :
    checkedAdd w a b = if a + b ≤ hi w then some (a + b) else none := by
  have low := (lo_nonpos w).trans nonneg
  simp [checkedAdd, Fits, low]

end FixedWidth
