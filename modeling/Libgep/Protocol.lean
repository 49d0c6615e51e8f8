import Mathlib.Algebra.Group.Nat.Defs
import Mathlib.Data.Int.Notation
import Mathlib.Data.List.GetD

/-!
# The wire protocol

A frame is a 12-byte header (magic, tag and value length, each big-endian)
followed by the serialized message.  The protobuf library is a parameter:
only the choice between its text and its binary format is made here.
-/

namespace Libgep

/-! ## Byte order -/

/-- The macro `UINT32`: the big-endian word at the head of `x`. -/
def uint32 (x : List UInt8) : UInt32 :=
  ((x.getD 0 0).toUInt32 <<< 24) ||| ((x.getD 1 0).toUInt32 <<< 16) |||
    ((x.getD 2 0).toUInt32 <<< 8) ||| (x.getD 3 0).toUInt32

/-- The macro `SET_UINT32`: the four bytes it stores. -/
def setUint32 (y : UInt32) : List UInt8 :=
  [(y >>> 24).toUInt8, (y >>> 16).toUInt8, (y >>> 8).toUInt8, y.toUInt8]

theorem uint32_setUint32 (y : UInt32) (rest : List UInt8) :
    uint32 (setUint32 y ++ rest) = y := by
  apply UInt32.eq_of_toBitVec_eq
  simp only [uint32, setUint32, List.cons_append, List.nil_append, List.getD_cons_zero,
    List.getD_cons_succ, UInt32.toBitVec_or, UInt32.toBitVec_shiftLeft,
    UInt8.toBitVec_toUInt32, UInt32.toBitVec_toUInt8, UInt32.toBitVec_shiftRight,
    UInt32.toBitVec_ofNat]
  -- bit `i` of the word comes from exactly one of the four bytes
  ext i hi
  simp only [BitVec.getElem_or, BitVec.shiftLeft_eq', BitVec.ushiftRight_eq',
    BitVec.getElem_shiftLeft, BitVec.getElem_setWidth, BitVec.getLsbD_setWidth,
    BitVec.getLsbD_ushiftRight]
  simp
  grind

theorem uint32_append {xs : List UInt8} (h : 4 ≤ xs.length) (ys : List UInt8) :
    uint32 (xs ++ ys) = uint32 xs := by
  simp only [uint32]
  rw [List.getD_append _ _ _ _ (by omega), List.getD_append _ _ _ _ (by omega),
    List.getD_append _ _ _ _ (by omega), List.getD_append _ _ _ _ (by omega)]

/-! ## Constants -/

/-- Maximum length of a single message, the 12-byte header included. -/
def kMaxMsgLen : ℕ := 2 ^ 20

def kOffsetMagic : ℕ := 0
def kOffsetTag : ℕ := 4
def kOffsetLen : ℕ := 8
def kOffsetValue : ℕ := 12
def kHdrLen : ℕ := kOffsetValue

def kMaxTagString : ℕ := 4 * 4 + 1

/-- `MakeTag`: four characters as a big-endian word. -/
def makeTag (a b c d : Char) : UInt32 :=
  (a.val <<< 24) ||| (b.val <<< 16) ||| (c.val <<< 8) ||| d.val

def kMagic : UInt32 := makeTag 'g' 'e' 'p' 'p'

theorem kMaxMsgLen_eq : kMaxMsgLen = 1048576 := rfl

theorem kHdrLen_eq : kHdrLen = 12 := rfl

/-! ## The protocol object -/

inductive Mode where
  | text
  | binary
  deriving DecidableEq, Repr

/-- The calls into the protobuf library; `none` is a `false` status.  The
parsers fill the object they are handed. -/
structure Protobuf (Msg : Type*) where
  printToString : Msg → Option (List UInt8)
  parseText : List UInt8 → Msg → Option Msg
  serializeToString : Msg → Option (List UInt8)
  parseFromString : List UInt8 → Msg → Option Msg
  clear : Msg → Msg

/-- `GepProtocol` with the two virtual functions of the user's subclass. -/
structure GepProtocol (Msg : Type*) where
  port : ℤ
  mode : Mode
  magic : UInt32
  lib : Protobuf Msg
  getTag : Msg → UInt32
  getMessage : UInt32 → Msg

namespace GepProtocol

variable {Msg : Type*}

/-- The status of `ScanHeader` and the tag and value length it stores. -/
def scanHeader (p : GepProtocol Msg) (buf : List UInt8) : Bool × UInt32 × UInt32 :=
  let magic := uint32 (buf.drop kOffsetMagic)
  (magic == p.magic, uint32 (buf.drop kOffsetTag), uint32 (buf.drop kOffsetLen))

/-- The bytes `PrintHeader` stores from `buf + kOffsetMagic` on. -/
def printHeader (p : GepProtocol Msg) (tag valueLen : UInt32) : List UInt8 :=
  setUint32 p.magic ++ setUint32 tag ++ setUint32 valueLen

/-- The bytes `TagString` escapes: `htonl(tag)` as it lies in memory. -/
def tagString (tag : UInt32) : List UInt8 := setUint32 tag

def serialize (p : GepProtocol Msg) (msg : Msg) : Option (List UInt8) :=
  match p.mode with
  | .text => p.lib.printToString msg
  | .binary => p.lib.serializeToString msg

def unserialize (p : GepProtocol Msg) (s : List UInt8) (msg : Msg) : Option Msg :=
  match p.mode with
  | .text => p.lib.parseText s msg
  | .binary =>
      let msg := p.lib.clear msg
      if s.isEmpty then some msg else p.lib.parseFromString s msg

@[simp] theorem length_printHeader (p : GepProtocol Msg) (tag valueLen : UInt32) :
    (p.printHeader tag valueLen).length = kHdrLen := rfl

theorem scanHeader_append (p : GepProtocol Msg) {xs : List UInt8} (h : kHdrLen ≤ xs.length)
    (ys : List UInt8) : p.scanHeader (xs ++ ys) = p.scanHeader xs := by
  rw [kHdrLen_eq] at h
  simp only [scanHeader, kOffsetMagic, kOffsetTag, kOffsetLen]
  rw [List.drop_append_of_le_length (by omega), List.drop_append_of_le_length (by omega),
    List.drop_append_of_le_length (by omega), uint32_append (by simp; omega),
    uint32_append (by simp; omega), uint32_append (by simp; omega)]

theorem scanHeader_take (p : GepProtocol Msg) {xs : List UInt8} {n : ℕ} (hn : kHdrLen ≤ n)
    (h : kHdrLen ≤ xs.length) : p.scanHeader (xs.take n) = p.scanHeader xs := by
  have hlen : kHdrLen ≤ (xs.take n).length := by
    rw [List.length_take]
    omega
  calc
    p.scanHeader (xs.take n) = p.scanHeader (xs.take n ++ xs.drop n) :=
      (scanHeader_append p hlen _).symm
    _ = p.scanHeader xs := by rw [List.take_append_drop]

theorem scanHeader_printHeader (p q : GepProtocol Msg) (tag valueLen : UInt32)
    (rest : List UInt8) :
    p.scanHeader (q.printHeader tag valueLen ++ rest) =
      (q.magic == p.magic, tag, valueLen) := by
  have hmagic : (q.printHeader tag valueLen ++ rest).drop kOffsetMagic =
      setUint32 q.magic ++ (setUint32 tag ++ (setUint32 valueLen ++ rest)) := by
    simp [printHeader, kOffsetMagic]
  have htag : (q.printHeader tag valueLen ++ rest).drop kOffsetTag =
      setUint32 tag ++ (setUint32 valueLen ++ rest) := by
    simp [printHeader, kOffsetTag, setUint32]
  have hlen : (q.printHeader tag valueLen ++ rest).drop kOffsetLen =
      setUint32 valueLen ++ rest := by
    simp [printHeader, kOffsetLen, setUint32]
  rw [scanHeader, hmagic, htag, hlen, uint32_setUint32, uint32_setUint32, uint32_setUint32]

end GepProtocol

end Libgep
