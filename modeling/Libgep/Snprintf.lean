import Libgep.Lib.ByteMemory
import Libgep.Lib.CInt
import Mathlib.Data.Nat.Digits.Lemmas
import Mathlib.Data.UInt

/-!
# Bounded writers and dumps of bytes

`nice_snprintf` counts a truncated text for all the room that it had.  The
dumps print byte after byte behind each other, until there are no more bytes or
there is no more room.
-/

namespace Libgep

open CInt ByteMemory

/-- The characters of a string. -/
def ascii (s : String) : List UInt8 := s.toList.map fun c ↦ .ofNat c.toNat

/-! ## Bounded writers -/

/-- What a bounded writer returns, and the bytes that it stores. -/
structure Written where
  ret : ℤ
  bytes : List UInt8

/-- `vsnprintf`, where the format and the arguments make up `text`. -/
def vsnprintf (size : ℕ) (text : List UInt8) : Written :=
  ⟨text.length, if size = 0 then [] else text.take (size - 1) ++ [0]⟩

/-- `nice_snprintf`: a truncated text counts for the whole size. -/
def niceSnprintf (size : ℕ) (text : List UInt8) : Written :=
  let bi := vsnprintf size text
  if size < toUnsigned 64 bi.ret then ⟨toSigned 32 size, bi.bytes⟩ else bi

structure Formatted where
  ret : ℤ
  stores : List (Store UInt8)

theorem niceSnprintf_eq {size : ℕ} (hpos : 0 < size) (hlt : size < 2 ^ 31) {text : List UInt8}
    (htext : text.length < 2 ^ 31) :
    niceSnprintf size text =
      ⟨(min text.length size : ℕ), text.take (size - 1) ++ [0]⟩ := by
  have hcast : toUnsigned 64 text.length = text.length := by
    rw [toUnsigned_natCast, Nat.mod_eq_of_lt (by omega)]
  have hsigned : toSigned 32 size = size := toSigned_of_mem (by decide) (by omega) (by omega)
  unfold niceSnprintf vsnprintf
  dsimp only
  rw [hcast, hsigned, if_neg (by omega : ¬ size = 0)]
  split_ifs with htruncated
  · rw [min_eq_right htruncated.le]
  · rw [min_eq_left (Nat.le_of_not_lt htruncated)]

/-! ## Dumps -/

/-- The lower-case digits of `%x`. -/
def hexDigit (d : ℕ) : UInt8 := (ascii "0123456789abcdef").getD d 0

/-- `%02x`. -/
def printf02x (x : UInt8) : List UInt8 :=
  ((Nat.digits 16 x.toNat).reverse.map hexDigit).leftpad 2 48

/-- The loop of a dump that prints each byte with `format`; `n` bytes are left
from index `i` on. -/
def snprintfLoop (format : UInt8 → List UInt8) (bufsize : ℤ) (data : ℤ → UInt8) :
    (n i : ℕ) → (bi : ℤ) → Formatted
  | 0, _, bi => ⟨bi, []⟩
  | n + 1, i, bi =>
      if bi < bufsize then
        let text := niceSnprintf (toUnsigned 64 (bufsize - bi)) (format (data i))
        let rest := snprintfLoop format bufsize data n (i + 1) (bi + text.ret)
        ⟨rest.ret, ⟨bi, text.bytes⟩ :: rest.stores⟩
      else ⟨bi, []⟩

/-- A dump; `data` is the memory from the first of the bytes on. -/
def snprintfBytes (format : UInt8 → List UInt8) (bufsize : ℤ) (data : ℤ → UInt8) (len : ℤ) :
    Formatted :=
  let dump := snprintfLoop format bufsize data len.toNat 0 0
  -- the buffer holds something valid even if there is nothing to print
  ⟨dump.ret, ⟨0, [0]⟩ :: dump.stores⟩

/-- `snprintf_hex`. -/
def snprintfHex (bufsize : ℤ) (data : ℤ → UInt8) (len : ℤ) : Formatted :=
  snprintfBytes printf02x bufsize data len

section Printable

-- `isprint` depends on the locale
variable (isprint : UInt8 → Bool)

/-- The formats of `snprintf_printable`: `"%c"` and `"\\x%02x"`. -/
def printfPrintable (x : UInt8) : List UInt8 :=
  if isprint x then [x] else 92 :: 120 :: printf02x x

/-- `snprintf_printable`. -/
def snprintfPrintable (bufsize : ℤ) (data : ℤ → UInt8) (len : ℤ) : Formatted :=
  snprintfBytes (printfPrintable isprint) bufsize data len

end Printable

/-! ## What a dump leaves behind -/

/-- Two lower-case hex digits. -/
def hexPair (x : UInt8) : List UInt8 := [hexDigit (x.toNat / 16), hexDigit (x.toNat % 16)]

/-- A printable character as it is, and any other byte as a backslash, an `x`
and two digits. -/
def escaped (isprint : UInt8 → Bool) (x : UInt8) : List UInt8 :=
  if isprint x then [x] else [92, 120] ++ hexPair x

/-- As much of `text` is printed as fits with a terminator behind it, and
nothing is stored outside of the buffer. -/
structure PrintsPrefix (bufsize : ℤ) (text : List UInt8) (o : Formatted) : Prop where
  ret : o.ret = min (text.length : ℤ) bufsize
  inside : ∀ s ∈ o.stores, s.Inside bufsize
  string : ∀ m, IsString (writeAll m o.stores) (text.take (bufsize - 1).toNat)

/-- A text for which there is room is printed in full. -/
theorem PrintsPrefix.whole {bufsize : ℤ} {text : List UInt8} {o : Formatted}
    (h : PrintsPrefix bufsize text o) (hroom : text.length < bufsize) :
    o.ret = text.length ∧ ∀ m, IsString (writeAll m o.stores) text := by
  refine ⟨h.ret.trans (min_eq_left hroom.le), fun m ↦ ?_⟩
  have hstring := h.string m
  rwa [List.take_of_length_le (by omega)] at hstring

theorem printf02x_eq (x : UInt8) : printf02x x = hexPair x := by
  have hlt := x.toNat_lt
  unfold printf02x hexPair
  rcases Nat.lt_or_ge x.toNat 16 with hsmall | hlarge
  · rw [Nat.div_eq_of_lt hsmall, Nat.mod_eq_of_lt hsmall]
    by_cases hzero : x.toNat = 0
    · rw [hzero]
      rfl
    · rw [Nat.digits_of_lt 16 _ hzero hsmall]
      rfl
  · have hdiv : x.toNat / 16 ≠ 0 := by omega
    rw [Nat.digits_def' (by decide) (by omega), Nat.digits_of_lt 16 _ hdiv (by omega)]
    rfl

theorem printfPrintable_eq (isprint : UInt8 → Bool) (x : UInt8) :
    printfPrintable isprint x = escaped isprint x := by
  rw [printfPrintable, escaped, printf02x_eq]
  rfl

@[simp] theorem length_hexPair (x : UInt8) : (hexPair x).length = 2 := rfl

theorem length_escaped_le (isprint : UInt8 → Bool) (x : UInt8) :
    (escaped isprint x).length ≤ 4 := by
  unfold escaped
  split_ifs <;> simp

theorem hexPair_ne_zero (x : UInt8) : 0 ∉ hexPair x := by
  have hdigit : ∀ d ∈ List.range 16, hexDigit d ≠ 0 := by decide
  have hlt := x.toNat_lt
  have hhigh := hdigit (x.toNat / 16) (List.mem_range.mpr (by omega))
  have hlow := hdigit (x.toNat % 16) (List.mem_range.mpr (by omega))
  simp [hexPair, hhigh.symm, hlow.symm]

theorem escaped_ne_zero {isprint : UInt8 → Bool} (h0 : isprint 0 = false) (x : UInt8) :
    0 ∉ escaped isprint x := by
  unfold escaped
  split_ifs with hprint
  · intro hmem
    rw [← List.mem_singleton.mp hmem, h0] at hprint
    cases hprint
  · simp [hexPair_ne_zero x]

/-! ## The loop -/

/-- The text of the first `n` bytes. -/
def dumpText (format : UInt8 → List UInt8) (data : ℤ → UInt8) (n : ℕ) : List UInt8 :=
  (cells data n).flatMap format

/-- When `text` has been printed, the index stands behind it or, if it was cut
off, at the end of the buffer. -/
structure Printed (m : ℤ → UInt8) (bufsize : ℤ) (text : List UInt8) (bi : ℤ) : Prop where
  index : bi = min (text.length : ℤ) bufsize
  holds : HoldsCut m bufsize.toNat text

section Loop

variable {format : UInt8 → List UInt8} {m : ℤ → UInt8} {bufsize bi : ℤ} {text : List UInt8}

theorem dumpText_succ (data : ℤ → UInt8) (n : ℕ) :
    dumpText format data (n + 1) = dumpText format data n ++ format (data n) := by
  rw [dumpText, cells_succ, List.flatMap_append, List.flatMap_singleton]
  rfl

/-- A piece that is cut off moves the index to the end of the buffer, as does
one that fits exactly without its terminator. -/
theorem Printed.step (h : Printed m bufsize text bi) (hlt : bi < bufsize) (hmax : bufsize < 2 ^ 31)
    {piece : List UInt8} (hpiece : piece.length < 2 ^ 31) :
    (Store.mk bi (niceSnprintf (toUnsigned 64 (bufsize - bi)) piece).bytes).Inside bufsize ∧
      Printed (write m ⟨bi, (niceSnprintf (toUnsigned 64 (bufsize - bi)) piece).bytes⟩) bufsize
        (text ++ piece) (bi + (niceSnprintf (toUnsigned 64 (bufsize - bi)) piece).ret) := by
  have hindex := h.index
  have hbi : bi = text.length := by omega
  have hsize : toUnsigned 64 (bufsize - bi) = bufsize.toNat - text.length := by
    rw [toUnsigned_of_lt (by omega) (by omega)]
    omega
  rw [hsize, niceSnprintf_eq (by omega) (by omega) hpiece]
  dsimp only
  refine ⟨.inr ⟨by dsimp only; omega, ?_⟩, ?_, ?_⟩
  · have htake := List.length_take_le (bufsize.toNat - text.length - 1) piece
    rw [List.length_append, List.length_singleton]
    dsimp only
    omega
  · rw [List.length_append]
    omega
  · rw [hbi]
    exact h.holds.extend (by omega) piece

/-- Once the buffer is full, what follows does not matter. -/
theorem Printed.append_of_full (h : Printed m bufsize text bi) (hfull : ¬ bi < bufsize)
    (piece : List UInt8) : Printed m bufsize (text ++ piece) bi := by
  have hindex := h.index
  refine ⟨?_, h.holds.append_of_full (by omega) piece⟩
  rw [List.length_append]
  omega

theorem snprintfLoop_of_full (hfull : ¬ bi < bufsize) (data : ℤ → UInt8) (n i : ℕ) :
    snprintfLoop format bufsize data n i bi = ⟨bi, []⟩ := by
  cases n with
  | zero => rfl
  | succ n => exact if_neg hfull

theorem snprintfLoop_spec (hformat : ∀ x, (format x).length < 2 ^ 31) (hmax : bufsize < 2 ^ 31)
    (data : ℤ → UInt8) (n : ℕ) {i : ℕ} (h : Printed m bufsize (dumpText format data i) bi) :
    (∀ s ∈ (snprintfLoop format bufsize data n i bi).stores, s.Inside bufsize) ∧
      Printed (writeAll m (snprintfLoop format bufsize data n i bi).stores) bufsize
        (dumpText format data (i + n)) (snprintfLoop format bufsize data n i bi).ret := by
  induction n generalizing i bi m with
  | zero => exact ⟨List.forall_mem_nil _, h⟩
  | succ n ih =>
      have hsucc : i + (n + 1) = i + 1 + n := by omega
      rw [hsucc]
      by_cases hlt : bi < bufsize
      · obtain ⟨hinside, hstep⟩ := h.step hlt hmax (hformat (data i))
        rw [← dumpText_succ] at hstep
        obtain ⟨hrest, hend⟩ := ih hstep
        rw [snprintfLoop, if_pos hlt]
        exact ⟨List.forall_mem_cons.mpr ⟨hinside, hrest⟩, hend⟩
      · have hnext := h.append_of_full hlt (format (data i))
        rw [← dumpText_succ] at hnext
        have hrest := ih hnext
        rw [snprintfLoop_of_full hlt] at hrest ⊢
        exact hrest

theorem snprintfBytes_printed (hformat : ∀ x, (format x).length < 2 ^ 31) (hpos : 1 ≤ bufsize)
    (hmax : bufsize < 2 ^ 31) (data : ℤ → UInt8) (len : ℤ) :
    (∀ s ∈ (snprintfBytes format bufsize data len).stores, s.Inside bufsize) ∧
      ∀ m, Printed (writeAll m (snprintfBytes format bufsize data len).stores) bufsize
        (dumpText format data len.toNat) (snprintfBytes format bufsize data len).ret := by
  have hfirst : ∀ m, Printed (write m ⟨0, [0]⟩) bufsize (dumpText format data 0) 0 := by
    intro m
    exact ⟨by simp [dumpText]; omega, holdsCut_nil m _⟩
  have hloop := fun m ↦ snprintfLoop_spec hformat hmax data len.toNat (hfirst m)
  rw [Nat.zero_add] at hloop
  refine ⟨List.forall_mem_cons.mpr ⟨.inr ⟨le_rfl, ?_⟩, (hloop fun _ ↦ 0).1⟩, fun m ↦ (hloop m).2⟩
  simpa using hpos

theorem snprintfBytes_spec (hformat : ∀ x, (format x).length < 2 ^ 31) (hzero : ∀ x, 0 ∉ format x)
    (hpos : 1 ≤ bufsize) (hmax : bufsize < 2 ^ 31) (data : ℤ → UInt8) (len : ℤ) :
    PrintsPrefix bufsize (dumpText format data len.toNat)
      (snprintfBytes format bufsize data len) := by
  obtain ⟨hinside, hprinted⟩ := snprintfBytes_printed hformat hpos hmax data len
  have htext : 0 ∉ dumpText format data len.toNat := by
    rw [dumpText, List.mem_flatMap]
    rintro ⟨x, -, hmem⟩
    exact hzero x hmem
  refine ⟨(hprinted fun _ ↦ 0).index, hinside, fun m ↦ ?_⟩
  have hstring := (hprinted m).holds.isString htext
  rwa [show bufsize.toNat - 1 = (bufsize - 1).toNat by omega] at hstring

end Loop

theorem length_printfPrintable_lt (isprint : UInt8 → Bool) (x : UInt8) :
    (printfPrintable isprint x).length < 2 ^ 31 := by
  rw [printfPrintable_eq]
  exact (length_escaped_le isprint x).trans_lt (by decide)

section Dumps

variable {isprint : UInt8 → Bool} {bufsize : ℤ}

theorem snprintfPrintable_spec (h0 : isprint 0 = false) (hpos : 1 ≤ bufsize)
    (hmax : bufsize < 2 ^ 31) (data : ℤ → UInt8) (len : ℤ) :
    PrintsPrefix bufsize ((cells data len.toNat).flatMap (escaped isprint))
      (snprintfPrintable isprint bufsize data len) := by
  have hformat : printfPrintable isprint = escaped isprint :=
    funext (printfPrintable_eq isprint)
  have hlen := length_printfPrintable_lt isprint
  unfold snprintfPrintable
  rw [hformat] at hlen ⊢
  exact snprintfBytes_spec hlen (escaped_ne_zero h0) hpos hmax data len

theorem snprintfHex_spec (hpos : 1 ≤ bufsize) (hmax : bufsize < 2 ^ 31) (data : ℤ → UInt8)
    (len : ℤ) : PrintsPrefix bufsize ((cells data len.toNat).flatMap hexPair)
      (snprintfHex bufsize data len) := by
  have hformat : printf02x = hexPair := funext printf02x_eq
  have hlen : ∀ x, (hexPair x).length < 2 ^ 31 := by
    intro x
    rw [length_hexPair]
    decide
  unfold snprintfHex
  rw [hformat]
  exact snprintfBytes_spec hlen hexPair_ne_zero hpos hmax data len

/-- Whatever the bytes are, and wherever the buffer ends, a dump is a prefix of
the text of all the bytes. -/
theorem dumps_print_prefix (h0 : isprint 0 = false) (hpos : 1 ≤ bufsize) (hmax : bufsize < 2 ^ 31)
    (data : ℤ → UInt8) (len : ℤ) :
    PrintsPrefix bufsize ((cells data len.toNat).flatMap (escaped isprint))
        (snprintfPrintable isprint bufsize data len) ∧
      PrintsPrefix bufsize ((cells data len.toNat).flatMap hexPair)
        (snprintfHex bufsize data len) :=
  ⟨snprintfPrintable_spec h0 hpos hmax data len, snprintfHex_spec hpos hmax data len⟩

end Dumps

/-- `isprint` in the C locale. -/
def isprintC (x : UInt8) : Bool := 32 ≤ x && x < 127

/-- The bytes of the tests. -/
def testBytes : ℤ → UInt8 := write (fun _ ↦ 0) ⟨0, [1, 2, 97, 4, 0, 1, 255]⟩

-- the index ends behind the terminator of what was cut off
example : ([7, 8, 9, 1024].map fun size ↦ (snprintfPrintable isprintC size testBytes 7).ret) =
    [7, 8, 9, 25] := by
  decide

/-- The second escape fits into 8 bytes without its last digit. -/
theorem dumps_print_prefix_8 :
    PrintsPrefix 8 (ascii "\\x01\\x02a\\x04\\x00\\x01\\xff")
        (snprintfPrintable isprintC 8 testBytes 7) ∧
      PrintsPrefix 8 (ascii "010261040001ff") (snprintfHex 8 testBytes 7) := by
  have h0 : isprintC 0 = false := by decide
  have hprintable : (cells testBytes 7).flatMap (escaped isprintC) =
      ascii "\\x01\\x02a\\x04\\x00\\x01\\xff" := by decide
  have hhex : (cells testBytes 7).flatMap hexPair = ascii "010261040001ff" := by decide
  rw [← hprintable, ← hhex]
  exact dumps_print_prefix h0 (by decide) (by decide) testBytes 7

end Libgep
