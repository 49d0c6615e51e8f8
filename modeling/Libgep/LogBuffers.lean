import Libgep.RecvCleanup
import Libgep.Snprintf

/-!
# The scratch buffers of the log

What has been received is printed into local arrays before it is logged.  Each
array but one has room for the escapes of all bytes and a terminator.
-/

namespace Libgep

open CInt FixedBuffer ByteMemory

variable {Msg : Type*}

/-- `TagString`, into an array of `maxBuf` bytes. -/
def GepProtocol.tagStringInto (isprint : UInt8 → Bool) (tag : UInt32) (maxBuf : ℤ) : Formatted :=
  snprintfPrintable isprint maxBuf (write (fun _ ↦ 0) ⟨0, GepProtocol.tagString tag⟩) 4

/-- A call of `snprintf_printable` stores nothing outside of its scratch array. -/
def RecvEvent.ScratchSafe (isprint : UInt8 → Bool) : RecvEvent Msg → Prop
  | .printable scratch bufsize data len =>
      ∀ s ∈ (snprintfPrintable isprint bufsize (write (fun _ ↦ 0) ⟨0, data⟩) len).stores,
        s.Inside scratch
  | _ => True

def ScratchSafe (isprint : UInt8 → Bool) (events : List (RecvEvent Msg)) : Prop :=
  ∀ ev ∈ events, ev.ScratchSafe isprint

section ScratchSafe

variable {isprint : UInt8 → Bool} {ev : RecvEvent Msg} {xs ys : List (RecvEvent Msg)}

@[simp] theorem scratchSafe_nil : ScratchSafe isprint ([] : List (RecvEvent Msg)) :=
  List.forall_mem_nil _

@[simp] theorem scratchSafe_cons :
    ScratchSafe isprint (ev :: xs) ↔ ev.ScratchSafe isprint ∧ ScratchSafe isprint xs :=
  List.forall_mem_cons

@[simp] theorem scratchSafe_append :
    ScratchSafe isprint (xs ++ ys) ↔ ScratchSafe isprint xs ∧ ScratchSafe isprint ys :=
  List.forall_mem_append

/-- An array is safe for whatever is printed, unless it has no room for the
terminator. -/
theorem scratchSafe_printable {scratch : ℕ} {bufsize : ℤ} (hsize : bufsize = scratch)
    (hmax : scratch < 2 ^ 31) (data : List UInt8) (len : ℤ) :
    (RecvEvent.printable scratch bufsize data len : RecvEvent Msg).ScratchSafe isprint ↔
      0 < scratch := by
  subst hsize
  constructor
  · intro hsafe
    have hfirst := hsafe ⟨0, [0]⟩ List.mem_cons_self
    simpa [Store.Inside, Nat.succ_le_iff] using hfirst
  · intro hpos
    exact (snprintfBytes_printed (length_printfPrintable_lt isprint) (by omega) (by omega) _ len).1

/-- `TagString` has room for four escapes. -/
theorem scratchSafe_tagString (tag : UInt32) :
    (RecvEvent.printable kMaxTagString kMaxTagString (GepProtocol.tagString tag) 4 :
      RecvEvent Msg).ScratchSafe isprint :=
  (scratchSafe_printable rfl (by decide) _ 4).mpr (by decide)

end ScratchSafe

namespace GepChannel

/-! ## One pass -/

section Pass

variable {isprint : UInt8 → Bool} {e : Endpoint Msg} {c : GepChannel} {tag valueLen : UInt32}

theorem debugLog_scratchSafe (hlt : valueLen.toNat < kMaxMsgLen) :
    ScratchSafe isprint (debugLog e c tag valueLen) := by
  rw [kMaxMsgLen_eq] at hlt
  have hvalue : (RecvEvent.printable (valueLen.toNat * 4 + 1) (valueLen.toNat * 4 + 1)
      (slice c.buf kOffsetValue valueLen.toNat) valueLen.toNat : RecvEvent Msg).ScratchSafe
        isprint :=
    (scratchSafe_printable (by push_cast; rfl) (by omega) _ _).mpr (Nat.succ_pos _)
  rcases debugLog_events e c tag valueLen with h | h <;> rw [h]
  · exact scratchSafe_nil
  · exact scratchSafe_cons.mpr ⟨hvalue, scratchSafe_cons.mpr ⟨scratchSafe_tagString tag,
      scratchSafe_nil⟩⟩

/-- The report of a value that does not unserialize has no room for a
terminator of its own. -/
theorem recvTLV_scratchSafe_iff (hlt : valueLen.toNat < kMaxMsgLen) :
    ScratchSafe isprint (recvTLV e c tag valueLen.toNat kOffsetValue).events ↔
      ¬ (valueLen = 0 ∧ Rejects e c tag valueLen) := by
  rw [kMaxMsgLen_eq] at hlt
  have htag : (RecvEvent.printable kMaxTagString kMaxTagString (GepProtocol.tagString tag) 4 :
      RecvEvent Msg).ScratchSafe isprint := scratchSafe_tagString tag
  have hread : (RecvEvent.readValue kOffsetValue valueLen.toNat : RecvEvent Msg).ScratchSafe
      isprint := trivial
  have hdispatch : ∀ msg, (RecvEvent.dispatch ⟨tag, c.value valueLen, msg⟩ :
      RecvEvent Msg).ScratchSafe isprint := fun _ ↦ trivial
  have hclose : ∀ fd : Option ℤ,
      ScratchSafe isprint ((fd.map .close).toList : List (RecvEvent Msg)) := by
    rintro (_ | fd)
    · exact scratchSafe_nil
    · exact List.forall_mem_singleton.mpr trivial
  have hcase := recvTLV_inv e c tag valueLen.toNat kOffsetValue
  rw [toUnsigned_valueLen, ← value] at hcase
  cases hcase with
  | dropped ops eq => simp [eq, Rejects, ops, htag]
  | unpackable callback ops msg eq =>
      have hreport := @scratchSafe_printable Msg isprint (valueLen.toNat * 4 : ℤ).toNat
        (valueLen.toNat * 4) (by omega) (by omega) (c.value valueLen) valueLen.toNat
      have hzero : 0 < (valueLen.toNat * 4 : ℤ).toNat ↔ valueLen ≠ 0 := by
        rw [Ne, ← UInt32.toNat_inj, UInt32.toNat_zero]
        omega
      simp [eq, Rejects, ops, msg, htag, hread, hreport, hzero]
  | kept callback msg ops msg_eq effect eq =>
      simp [eq, Rejects, ops, msg_eq, htag, hread, hdispatch]
  | closed callback msg ops msg_eq effect eq =>
      simp [eq, Rejects, ops, msg_eq, htag, hread, hdispatch, hclose]

theorem processRemaining_scratchSafe (msgLen : ℕ) :
    ScratchSafe isprint (@processRemaining Msg c msgLen).events := by
  rcases @processRemaining_events Msg c msgLen with h | ⟨size, h⟩ <;> rw [h]
  · exact scratchSafe_nil
  · exact List.forall_mem_singleton.mpr trivial

/-- A frame at the head of the buffer is reported without room for a terminator
if it has no value. -/
theorem HeadFrame.reports_iff (head : HeadFrame e.proto c tag valueLen) :
    (∀ tag, HeadFrame e.proto c tag 0 → ¬ Rejects e c tag 0) ↔
      ¬ (valueLen = 0 ∧ Rejects e c tag valueLen) := by
  constructor
  · rintro hsafe ⟨rfl, rejects⟩
    exact hsafe tag head rejects
  · rintro hsafe tag' head' rejects
    obtain ⟨rfl, rfl⟩ := head.unique head'
    exact hsafe ⟨rfl, rejects⟩

theorem recvStringPass_scratchSafe_iff (hc : c.LenOk) :
    ScratchSafe isprint (recvStringPass e c).events ↔
      ∀ tag, HeadFrame e.proto c tag 0 → ¬ Rejects e c tag 0 := by
  have hread : ScratchSafe isprint [(.readHeader 0 kHdrLen : RecvEvent Msg)] :=
    List.forall_mem_singleton.mpr trivial
  have hmagic : ScratchSafe isprint
      [(.printable (4 * 4 + 1) (4 * 4 + 1) (slice c.buf 0 4) 4 : RecvEvent Msg)] :=
    List.forall_mem_singleton.mpr ((scratchSafe_printable rfl (by decide) _ 4).mpr (by decide))
  unfold recvStringPass
  rcases hscan : e.proto.scanHeader (slice c.buf 0 kHdrLen) with ⟨ok, tag, valueLen⟩
  dsimp only
  split_ifs with hok hlarge hfrag hret
  · refine iff_of_true (scratchSafe_append.mpr ⟨hread, hmagic⟩) fun tag' head ↦ ?_
    simp [(head.of_scan hscan).1] at hok
  · refine iff_of_true hread fun tag' head ↦ ?_
    obtain ⟨-, -, rfl⟩ := head.of_scan hscan
    exact absurd hlarge ((headFrame_iff hc).mp head).2.1
  · refine iff_of_true hread fun tag' head ↦ ?_
    obtain ⟨-, -, rfl⟩ := head.of_scan hscan
    exact absurd hfrag ((headFrame_iff hc).mp head).2.2
  all_goals
    obtain rfl : ok = true := by simpa using hok
    have head : HeadFrame e.proto c tag valueLen := (headFrame_iff hc).mpr ⟨hscan, hlarge, hfrag⟩
    have hlt : valueLen.toNat < kMaxMsgLen := head.lt.trans_le (Nat.sub_le _ _)
    have hlog : ScratchSafe isprint ([.readHeader 0 kHdrLen] ++ debugLog e c tag valueLen) :=
      scratchSafe_append.mpr ⟨hread, debugLog_scratchSafe hlt⟩
    rw [head.reports_iff, ← @recvTLV_scratchSafe_iff Msg isprint e c tag valueLen hlt]
  · rw [scratchSafe_append, and_iff_right hlog]
  · rw [Recv.prepend_events, scratchSafe_append, scratchSafe_append, and_iff_right hlog,
      and_iff_left (processRemaining_scratchSafe _)]

end Pass

/-! ## The loop -/

section Loop

variable {isprint : UInt8 → Bool} {e : Endpoint Msg} {c : GepChannel}

theorem not_rejects_of_scratchSafe {p : GepChannel} {tag : UInt32} (hp : AfterFrames e c p)
    (hc : c.LenOk) (hopen : c.socket ≠ -1) (head : HeadFrame e.proto p tag 0)
    (hsafe : ScratchSafe isprint (recvString e c).events) : ¬ Rejects e p tag 0 := by
  have hok := hp.lenOk hc
  have hmem := hp.mem_recvStringPasses hc hopen (head.hdrLen_le hok)
  have hpass : ScratchSafe isprint (recvStringPass e p).events := by
    intro ev hev
    apply hsafe
    rw [recvString_events]
    exact List.mem_flatMap.mpr ⟨p, hmem, hev⟩
  exact (recvStringPass_scratchSafe_iff hok).mp hpass tag head

theorem recvString_scratchSafe (hc : c.LenOk) (hopen : c.socket ≠ -1)
    (hempty : ∀ p tag, AfterFrames e c p → HeadFrame e.proto p tag 0 → ¬ Rejects e p tag 0) :
    ScratchSafe isprint (recvString e c).events := by
  intro ev hev
  rw [recvString_events] at hev
  obtain ⟨p, hmem, hev⟩ := List.mem_flatMap.mp hev
  have hp := (mem_recvStringPasses hc hopen hmem).1
  exact (recvStringPass_scratchSafe_iff (hp.lenOk hc)).mpr (fun tag ↦ hempty p tag hp) ev hev

/-- Nothing is stored behind a scratch array, unless an empty value does not
unserialize. -/
theorem scratchSafe_iff (hc : c.LenOk) (hopen : c.socket ≠ -1) :
    ScratchSafe isprint (recvString e c).events ↔ ∀ p tag, AfterFrames e c p →
      HeadFrame e.proto p tag 0 → ¬ Rejects e p tag 0 := by
  constructor
  · intro hsafe p tag hp head
    exact not_rejects_of_scratchSafe hp hc hopen head hsafe
  · intro hempty
    exact recvString_scratchSafe hc hopen hempty

/-- In binary mode an empty value always unserializes. -/
theorem not_rejects_empty (hmode : e.proto.mode = .binary) (tag : UInt32) :
    ¬ Rejects e c tag 0 := by
  have hvalue : c.value 0 = [] := by
    rw [value, slice, UInt32.toNat_zero, List.take_zero]
  rintro ⟨-, hnone⟩
  rw [hvalue, GepProtocol.unserialize, hmode] at hnone
  cases hnone

/-- In binary mode nothing that is received can overrun a scratch array. -/
theorem recvData_scratchSafe (hmode : e.proto.mode = .binary) (hc : c.LenOk) {r : RawRecv}
    (hfits : ∀ bytes, r = .data bytes → bytes.length ≤ kMaxMsgLen - toUnsigned 64 c.len) :
    ScratchSafe isprint (recvData e c r).events := by
  have hrecv : (RecvEvent.recv c.socket (kMaxMsgLen - toUnsigned 64 c.len) r :
      RecvEvent Msg).ScratchSafe isprint := trivial
  cases recvData_inv e c r with
  | refused _ eq =>
      rw [eq]
      exact scratchSafe_nil
  | failed _ _ _ _ eq | closed _ _ _ eq =>
      rw [eq]
      exact scratchSafe_cons.mpr ⟨hrecv, scratchSafe_nil⟩
  | received bytes hsocket _ data _ eq =>
      rw [eq]
      refine scratchSafe_cons.mpr ⟨hrecv, ?_⟩
      apply recvString_scratchSafe (append_lenOk hc (hfits bytes data))
      · rw [append_socket]
        omega
      · intro p tag _ _
        exact not_rejects_empty hmode tag

end Loop

end GepChannel

/-! ## Tags -/

/-- A tag is printed in full. -/
theorem GepProtocol.tagStringInto_whole {isprint : UInt8 → Bool} (h0 : isprint 0 = false)
    (tag : UInt32) :
    (tagStringInto isprint tag kMaxTagString).ret =
        ((tagString tag).flatMap (escaped isprint)).length ∧
      ∀ m, IsString (writeAll m (tagStringInto isprint tag kMaxTagString).stores)
        ((tagString tag).flatMap (escaped isprint)) := by
  have hcells : cells (write (fun _ ↦ 0) ⟨0, tagString tag⟩) 4 = tagString tag :=
    (holds_write _ 0 (tagString tag)).cells_eq le_rfl
  have hspec := snprintfPrintable_spec h0 (by decide) (by decide : (kMaxTagString : ℤ) < 2 ^ 31)
    (write (fun _ ↦ 0) ⟨0, tagString tag⟩) 4
  rw [show (4 : ℤ).toNat = 4 from rfl, hcells] at hspec
  apply hspec.whole
  have hescaped := length_escaped_le isprint
  have h₁ := hescaped (tag >>> 24).toUInt8
  have h₂ := hescaped (tag >>> 16).toUInt8
  have h₃ := hescaped (tag >>> 8).toUInt8
  have h₄ := hescaped tag.toUInt8
  simp only [tagString, setUint32, List.flatMap_cons, List.flatMap_nil, List.length_append,
    List.length_nil, kMaxTagString]
  omega

open GepChannel

namespace TestProtocol

/-- The library for messages whose field `id` is required: of the texts of such
messages it knows the one that is used here. -/
def requiredProtobuf : Protobuf Message :=
  { protobuf with
    parseText := fun s msg ↦ if s = ascii "id: 7" then some { msg with fields := [8, 7] } else none }

/-- Messages with a required field in text mode, which is the default. -/
def textEndpoint : Endpoint Message :=
  { endpoint with proto := { proto with mode := .text, lib := requiredProtobuf } }

/-- A frame without a value. -/
def emptyCommand4 : List UInt8 :=
  [0x67, 0x65, 0x70, 0x70, 0x63, 0x6d, 0x64, 0x34, 0, 0, 0, 0]

end TestProtocol

open TestProtocol

/-- The empty text lacks the required field, and the terminator of its report
is stored behind an array of no bytes. -/
theorem not_scratchSafe_emptyCommand4 :
    (received emptyCommand4).LenOk ∧ (received emptyCommand4).socket = 5 ∧
      ¬ ScratchSafe isprintC (recvString textEndpoint (received emptyCommand4)).events := by
  obtain ⟨hok, hsocket, -, -⟩ := @received_spec emptyCommand4 (by rw [kMaxMsgLen_eq]; decide)
  obtain ⟨head, hvalue⟩ := @headFrame_received emptyCommand4 (msgTag .command4) 0
    (by rw [kMaxMsgLen_eq]; decide) (by decide) (by decide) (by decide) (by decide) (by decide)
  have rejects : Rejects textEndpoint (received emptyCommand4) (msgTag .command4) 0 := by
    refine ⟨by decide, ?_⟩
    rw [hvalue]
    decide
  have hopen : (received emptyCommand4).socket ≠ -1 := by
    rw [hsocket]
    decide
  have hhead : HeadFrame textEndpoint.proto (received emptyCommand4) (msgTag .command4) 0 :=
    ⟨head.header, head.lt, head.whole⟩
  refine ⟨hok, hsocket, fun hsafe ↦ ?_⟩
  exact not_rejects_of_scratchSafe (.start _) hok hopen hhead hsafe rejects

/-- A value of two bytes that does not unserialize. -/
theorem scratchSafe_garbledCommand4 :
    ScratchSafe isprintC (recvString endpoint (received garbledCommand4)).events := by
  obtain ⟨hok, hsocket, -, -⟩ := @received_spec garbledCommand4 (by rw [kMaxMsgLen_eq]; decide)
  refine (scratchSafe_iff hok (by rw [hsocket]; decide)).mpr fun p tag _ _ ↦ ?_
  exact not_rejects_empty rfl tag

end Libgep
