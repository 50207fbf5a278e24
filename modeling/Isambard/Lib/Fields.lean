import Mathlib.Data.Nat.Notation
import Mathlib.Algebra.Order.Ring.Nat
import Mathlib.Tactic.Ring

/-!
# Lib.Fields — bit-fields of a word

Packed structures of bit-fields, as numbers: `field lo w r` is the field of `w`
bits at bit `lo` of `r`, and `setField lo w v r` is `r` with `v` stored there,
truncated to the width of the field. The rules are those of an array of fields:
what was stored is read back, and a field that lies wholly below or above is
not touched.
-/

namespace Isambard.Lib

/-- The `w` bits of `r` from bit `lo` up. -/
def field (lo w r : ℕ) : ℕ := r / 2 ^ lo % 2 ^ w

/-- Store `v` in the `w` bits of `r` from bit `lo` up. -/
def setField (lo w v r : ℕ) : ℕ :=
  (r / 2 ^ (lo + w) * 2 ^ w + v % 2 ^ w) * 2 ^ lo + r % 2 ^ lo

theorem field_lt (lo w r : ℕ) : field lo w r < 2 ^ w := Nat.mod_lt _ (Nat.two_pow_pos w)

theorem setField_div (lo w v r : ℕ) :
    setField lo w v r / 2 ^ lo = r / 2 ^ (lo + w) * 2 ^ w + v % 2 ^ w := by
  unfold setField
  rw [Nat.mul_comm, Nat.mul_add_div (Nat.two_pow_pos lo),
    Nat.div_eq_of_lt (Nat.mod_lt _ (Nat.two_pow_pos lo)), Nat.add_zero]

/-- What was stored is read back. -/
theorem field_setField (lo w v r : ℕ) : field lo w (setField lo w v r) = v % 2 ^ w := by
  unfold field
  rw [setField_div, Nat.mul_comm, Nat.mul_add_mod, Nat.mod_mod]

/-- A field stored as it was. -/
theorem setField_field (lo w r : ℕ) : setField lo w (field lo w r) r = r := by
  have hhigh : r / 2 ^ (lo + w) * 2 ^ w + r / 2 ^ lo % 2 ^ w = r / 2 ^ lo := by
    rw [pow_add, ← Nat.div_div_eq_div_mul, Nat.mul_comm]
    exact Nat.div_add_mod _ _
  unfold setField field
  rw [Nat.mod_mod, hhigh, Nat.mul_comm]
  exact Nat.div_add_mod r (2 ^ lo)

/-- The lowest bits stored. -/
theorem setField_zero (w v r : ℕ) : setField 0 w v r = r / 2 ^ w * 2 ^ w + v % 2 ^ w := by
  unfold setField
  rw [Nat.zero_add, pow_zero, Nat.mul_one, Nat.mod_one, Nat.add_zero]

/-- The bits below a stored field. -/
theorem setField_mod (lo w v r : ℕ) : setField lo w v r % 2 ^ lo = r % 2 ^ lo := by
  unfold setField
  rw [Nat.mul_comm, Nat.mul_add_mod, Nat.mod_mod]

/-- The bits above a stored field. -/
theorem setField_div_above (lo w v r : ℕ) :
    setField lo w v r / 2 ^ (lo + w) = r / 2 ^ (lo + w) := by
  rw [pow_add, ← Nat.div_div_eq_div_mul, setField_div, Nat.mul_comm,
    Nat.mul_add_div (Nat.two_pow_pos w), Nat.div_eq_of_lt (Nat.mod_lt _ (Nat.two_pow_pos w)),
    Nat.add_zero, pow_add]

/-- A field below the one that is stored. -/
theorem field_setField_below {lo w lo' w' : ℕ} (h : lo' + w' ≤ lo) (v r : ℕ) :
    field lo' w' (setField lo w v r) = field lo' w' r := by
  have hlow : ∀ x, field lo' w' x = field lo' w' (x % 2 ^ lo) := by
    intro x
    unfold field
    rw [← Nat.mod_mul_right_div_self, ← Nat.mod_mul_right_div_self, ← pow_add,
      Nat.mod_mod_of_dvd _ (pow_dvd_pow 2 h)]
  rw [hlow, setField_mod, ← hlow]

/-- A field above the one that is stored. -/
theorem field_setField_above {lo w lo' w' : ℕ} (h : lo + w ≤ lo') (v r : ℕ) :
    field lo' w' (setField lo w v r) = field lo' w' r := by
  have hhigh : ∀ x, field lo' w' x = x / 2 ^ (lo + w) / 2 ^ (lo' - (lo + w)) % 2 ^ w' := by
    intro x
    unfold field
    rw [Nat.div_div_eq_div_mul, ← pow_add]
    congr 3
    omega
  rw [hhigh, setField_div_above, ← hhigh]

end Isambard.Lib
