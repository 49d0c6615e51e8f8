import Mathlib.Algebra.Order.Ring.Int
import Mathlib.Data.List.TakeDrop
import Mathlib.Data.List.Infix
import Mathlib.Data.Nat.Find

/-!
# Stores into memory

Memory around a buffer is a function on indices relative to its start, which
may lie outside of it.  What a sequence of stores leaves behind is read off
piece by piece; a string ends at the first zero.
-/

namespace ByteMemory

variable {α : Type*}

/-- Some cells are stored from index `off` on. -/
structure Store (α : Type*) where
  off : ℤ
  cells : List α
  deriving DecidableEq

/-- All cells of the store have indices in `[0, size)`. -/
def Store.Inside (size : ℤ) (s : Store α) : Prop :=
  s.cells = [] ∨ 0 ≤ s.off ∧ s.off + s.cells.length ≤ size

def write (m : ℤ → α) (s : Store α) : ℤ → α := fun i ↦
  if s.off ≤ i then (s.cells[(i - s.off).toNat]?).getD (m i) else m i

/-- Memory after some stores. -/
def writeAll (m : ℤ → α) (stores : List (Store α)) : ℤ → α := stores.foldl write m

/-- The cells from index `off` on are `xs`. -/
def Holds (m : ℤ → α) (off : ℤ) (xs : List α) : Prop :=
  ∀ i : ℕ, ∀ h : i < xs.length, m (off + i) = xs[i]

/-- The first `n` cells. -/
def cells (m : ℤ → α) (n : ℕ) : List α := (List.range n).map fun i : ℕ ↦ m i

@[simp] theorem cells_zero (m : ℤ → α) : cells m 0 = [] := rfl

theorem cells_succ (m : ℤ → α) (n : ℕ) : cells m (n + 1) = cells m n ++ [m n] := by
  rw [cells, List.range_succ, List.map_append]
  rfl

/-- The first `size` cells are a text, cut off where it leaves no room for the
zero behind it. -/
def HoldsCut [Zero α] (m : ℤ → α) (size : ℕ) (text : List α) : Prop :=
  Holds m 0 (text.take (size - 1) ++ [0])

/-- The string from the first cell on is `text`. -/
def IsString [Zero α] (m : ℤ → α) (text : List α) : Prop :=
  Holds m 0 (text ++ [0]) ∧ 0 ∉ text

section Holds

variable {m : ℤ → α} {off off' : ℤ} {xs ys : List α}

theorem holds_write (m : ℤ → α) (off : ℤ) (xs : List α) : Holds (write m ⟨off, xs⟩) off xs := by
  intro i h
  simp only [write]
  rw [if_pos (by omega), show (off + i - off).toNat = i by omega, List.getElem?_eq_getElem h,
    Option.getD_some]

/-- A store behind some cells leaves them alone. -/
theorem Holds.write_behind (h : Holds m off xs) (hle : off + xs.length ≤ off') (ys : List α) :
    Holds (write m ⟨off', ys⟩) off xs := by
  intro i hi
  simp only [write]
  rw [if_neg (by omega), h i hi]

theorem Holds.append (h : Holds m off xs) (h' : Holds m (off + xs.length) ys) :
    Holds m off (xs ++ ys) := by
  intro i hi
  rw [List.length_append] at hi
  by_cases hlt : i < xs.length
  · rw [List.getElem_append_left hlt, h i hlt]
  · have hcell := h' (i - xs.length) (by omega)
    rw [List.getElem_append_right (by omega), ← hcell]
    congr 1
    omega

theorem Holds.left (h : Holds m off (xs ++ ys)) : Holds m off xs := by
  intro i hi
  rw [h i (by rw [List.length_append]; omega), List.getElem_append_left hi]

/-- A store behind some cells adds its own. -/
theorem Holds.extend (h : Holds m off xs) (heq : off' = off + xs.length) (ys : List α) :
    Holds (write m ⟨off', ys⟩) off (xs ++ ys) := by
  subst heq
  exact (h.write_behind le_rfl ys).append (holds_write m _ ys)

theorem Holds.cells_eq (h : Holds m 0 xs) {n : ℕ} (hn : n ≤ xs.length) :
    cells m n = xs.take n := by
  apply List.ext_getElem
  · simp [cells, hn]
  · intro i hi _
    have hlt : i < n := by simpa [cells] using hi
    have hcell := h i (by omega)
    rw [zero_add] at hcell
    simp [cells, hcell]

/-- Cells behind which there is a zero hold a string, which is a prefix of
what they hold. -/
theorem Holds.exists_string [Zero α] [DecidableEq α] (h : Holds m 0 (xs ++ [0])) :
    ∃ n : ℕ, n ≤ xs.length ∧ m n = 0 ∧ (∀ i : ℕ, i < n → m i ≠ 0) ∧ cells m n <+: xs := by
  have hlast : m xs.length = 0 := by
    have hcell := h xs.length (by simp)
    rwa [zero_add, List.getElem_concat_length rfl] at hcell
  have hzero : ∃ n : ℕ, m n = 0 := ⟨xs.length, hlast⟩
  have hle : Nat.find hzero ≤ xs.length := Nat.find_min' hzero hlast
  refine ⟨Nat.find hzero, hle, Nat.find_spec hzero, fun i hi ↦ Nat.find_min hzero hi, ?_⟩
  rw [h.left.cells_eq hle]
  exact List.take_prefix _ _

/-- A string ends where another one in the same place does. -/
theorem IsString.length_le [Zero α] (h : IsString m xs) (h' : IsString m ys) :
    ys.length ≤ xs.length := by
  by_contra hlt
  have hend : m (0 + xs.length) = 0 := by
    have hcell := h.1 xs.length (by simp)
    rwa [List.getElem_concat_length rfl] at hcell
  have hcell := h'.1 xs.length (by rw [List.length_append]; omega)
  rw [hend, List.getElem_append_left (by omega)] at hcell
  exact h'.2 (hcell ▸ List.getElem_mem _)

theorem IsString.unique [Zero α] (h : IsString m xs) (h' : IsString m ys) : xs = ys := by
  have hlength : xs.length = ys.length := le_antisymm (h'.length_le h) (h.length_le h')
  have hcells := h.1.left.cells_eq le_rfl
  have hcells' := h'.1.left.cells_eq le_rfl
  rw [List.take_length] at hcells hcells'
  exact hcells.symm.trans ((congrArg (cells m) hlength).trans hcells')

end Holds

/-! ## Texts that are cut off -/

section HoldsCut

variable [Zero α] {m : ℤ → α} {size : ℕ} {xs : List α}

theorem holdsCut_nil (m : ℤ → α) (size : ℕ) : HoldsCut (write m ⟨0, [0]⟩) size [] := by
  rw [HoldsCut, List.take_nil, List.nil_append]
  exact holds_write m 0 [0]

/-- Where there is room for more, as much of it is stored as fits. -/
theorem HoldsCut.extend (h : HoldsCut m size xs) (hroom : xs.length < size) (ys : List α) :
    HoldsCut (write m ⟨xs.length, ys.take (size - xs.length - 1) ++ [0]⟩) size (xs ++ ys) := by
  have hxs : xs.take (size - 1) = xs := List.take_of_length_le (by omega)
  have hall : (xs ++ ys).take (size - 1) = xs ++ ys.take (size - xs.length - 1) := by
    rw [List.take_append, hxs, Nat.sub_right_comm]
  unfold HoldsCut at h ⊢
  rw [hxs] at h
  rw [hall, List.append_assoc]
  exact h.left.extend (zero_add _).symm _

/-- Where there is no room for more, nothing has to be stored. -/
theorem HoldsCut.append_of_full (h : HoldsCut m size xs) (hfull : size ≤ xs.length) (ys : List α) :
    HoldsCut m size (xs ++ ys) := by
  rw [HoldsCut, List.take_append_of_le_length (by omega)]
  exact h

theorem HoldsCut.isString (h : HoldsCut m size xs) (hzero : 0 ∉ xs) :
    IsString m (xs.take (size - 1)) :=
  ⟨h, fun hmem ↦ hzero (List.mem_of_mem_take hmem)⟩

end HoldsCut

end ByteMemory
