import Mathlib.Algebra.Order.Ring.Int
import Mathlib.Data.Int.DivMod
import Mathlib.Tactic.NormNum

/-!
# Conversions between machine integers

The values of fixed-width integers are kept as mathematical integers.  A
conversion to an unsigned type of width `w` reduces modulo `2 ^ w`; one to a
signed type takes the balanced representative.
-/

namespace CInt

/-- Conversion to an unsigned integer of `w` bits. -/
def toUnsigned (w : ℕ) (x : ℤ) : ℕ := (x % 2 ^ w).toNat

/-- Conversion to a two's complement integer of `w` bits. -/
def toSigned (w : ℕ) (x : ℤ) : ℤ := x.bmod (2 ^ w)

variable {w : ℕ} {x : ℤ}

theorem toUnsigned_of_lt (hx : 0 ≤ x) (hlt : x < 2 ^ w) : toUnsigned w x = x.toNat := by
  rw [toUnsigned, Int.emod_eq_of_lt hx hlt]

@[simp] theorem toUnsigned_natCast (w n : ℕ) : toUnsigned w n = n % 2 ^ w := by
  rw [toUnsigned]
  exact_mod_cast Int.toNat_natCast (n % 2 ^ w)

theorem toSigned_of_mem (hw : 0 < w) (hle : -2 ^ (w - 1) ≤ x) (hlt : x < 2 ^ (w - 1)) :
    toSigned w x = x := by
  obtain ⟨v, rfl⟩ : ∃ v, w = v + 1 := ⟨w - 1, by omega⟩
  simp only [Nat.add_sub_cancel] at hle hlt
  have hpow : (2 : ℕ) ^ (v + 1) = 2 * 2 ^ v := Nat.pow_succ'
  have hcast : ((2 ^ v : ℕ) : ℤ) = 2 ^ v := by push_cast; rfl
  rw [toSigned, hpow]
  exact Int.bmod_eq_of_le (by omega) (by omega)

theorem le_toSigned (w : ℕ) (x : ℤ) : -2 ^ w ≤ toSigned (w + 1) x := by
  have hpos : 0 < 2 ^ (w + 1) := Nat.two_pow_pos _
  have hpow : (2 : ℕ) ^ (w + 1) = 2 * 2 ^ w := Nat.pow_succ'
  have hcast : ((2 ^ w : ℕ) : ℤ) = 2 ^ w := by push_cast; rfl
  have hle := Int.le_bmod (x := x) hpos
  rw [hpow] at hle
  rw [toSigned, hpow]
  omega

theorem toSigned_natCast_le (w n : ℕ) : toSigned w n ≤ n := by
  have hle : (n : ℤ).bmod (2 ^ w) ≤ (n : ℤ) % ((2 ^ w : ℕ) : ℤ) := by
    rw [Int.bmod_def]
    split <;> omega
  have hmod : (n : ℤ) % ((2 ^ w : ℕ) : ℤ) ≤ n := by
    exact_mod_cast Nat.mod_le n (2 ^ w)
  exact hle.trans hmod

end CInt
