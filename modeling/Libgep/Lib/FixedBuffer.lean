import Mathlib.Data.Vector.Basic

/-!
# Arrays of fixed size

Reads, stores and overlapping moves on an array of `n` cells.  Cells past the
end are never written: the size is part of the type.
-/

namespace FixedBuffer

variable {α : Type*} {n : ℕ}

/-- The `len` cells from index `off` on. -/
def slice (b : List.Vector α n) (off len : ℕ) : List α :=
  (b.toList.drop off).take len

/-- Write `xs` from index `off` on. -/
def store (b : List.Vector α n) (off : ℕ) (xs : List α) : List.Vector α n :=
  ⟨(b.toList.take off ++ xs ++ b.toList.drop (off + xs.length)).take n, by
    simp only [List.length_take, List.length_append, List.length_drop,
      List.Vector.toList_length]
    omega⟩

/-- Copy `len` cells from index `src` to index `dst`; the ranges may overlap. -/
def move (b : List.Vector α n) (dst src len : ℕ) : List.Vector α n :=
  store b dst (slice b src len)

theorem length_slice (b : List.Vector α n) {off len : ℕ} (h : off + len ≤ n) :
    (slice b off len).length = len := by
  simp only [slice, List.length_take, List.length_drop, List.Vector.toList_length]
  omega

theorem slice_eq_slice_zero (b : List.Vector α n) {off len m : ℕ} (h : off + len ≤ m) :
    slice b off len = ((slice b 0 m).drop off).take len := by
  simp only [slice, List.drop_zero, List.drop_take, List.take_take]
  congr 1
  omega

theorem slice_zero_store (b : List.Vector α n) {off : ℕ} {xs : List α}
    (h : off + xs.length ≤ n) :
    slice (store b off xs) 0 (off + xs.length) = slice b 0 off ++ xs := by
  have hlen : (b.toList.take off ++ xs).length = off + xs.length := by
    simp only [List.length_append, List.length_take, List.Vector.toList_length]
    omega
  simp only [slice, store, List.Vector.toList_mk, List.drop_zero, List.take_take]
  rw [min_eq_left h, List.take_append_of_le_length hlen.ge, ← hlen, List.take_length]

theorem slice_zero_move (b : List.Vector α n) {src len : ℕ} (h : src + len ≤ n) :
    slice (move b 0 src len) 0 len = slice b src len := by
  have hlen := length_slice b h
  have hstore : slice (store b 0 (slice b src len)) 0 (0 + (slice b src len).length) =
      slice b 0 0 ++ slice b src len := slice_zero_store b (by omega)
  rw [hlen, Nat.zero_add] at hstore
  rw [move, hstore]
  simp [slice]

end FixedBuffer
