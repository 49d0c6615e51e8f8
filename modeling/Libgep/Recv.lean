import Libgep.Channel

/-!
# The receive path

`RecvData` appends what the socket delivers to `buf_`; `RecvString` consumes
the complete frames at its head and moves the rest to the front.
-/

namespace Libgep

open CInt FixedBuffer

variable {Msg : Type*}

namespace GepChannel

/-- `RecvTLV`; `value` is an index into `buf_`. -/
def recvTLV (e : Endpoint Msg) (c : GepChannel) (tag : UInt32) (valueLen : ℤ) (value : ℕ) :
    Recv Result Msg :=
  let tagString := .printable kMaxTagString kMaxTagString (GepProtocol.tagString tag) 4
  match e.ops tag with
  | some callback =>
      let msg := e.proto.getMessage tag
      let len := toUnsigned 64 valueLen
      let valueStr := slice c.buf value len
      let log := [tagString, .readValue value len]
      match e.proto.unserialize valueStr msg with
      | none =>
          -- `char tmp[value_len * 4]` has no room for a terminator of its own
          let tmp := .printable (valueLen * 4).toNat (valueLen * 4) valueStr valueLen
          ⟨.cmdError, c, log ++ [tmp]⟩
      | some msg =>
          let log := log ++ [.dispatch ⟨tag, valueStr, msg⟩]
          match (callback msg c).2 with
          | .keep => ⟨.cmdOk, c, log⟩
          | .close =>
              let (_, c', fd) := c.close
              ⟨.cmdOk, c', log ++ (fd.map .close).toList⟩
  | none => ⟨.cmdDropped, c, [tagString]⟩

inductive Pass where
  | ret (r : Result)
  | again
  /-- A `memmove` outside of `buf_`. -/
  | undefined
  deriving DecidableEq

def Pass.result : Pass → Option Result
  | .ret r => some r
  | _ => none

/-- The end of a pass: the bytes behind the frame move to the front. -/
def processRemaining (c : GepChannel) (msgLen : ℕ) : Recv Pass Msg :=
  let remain := toSigned 32 (toUnsigned 32 c.len - msgLen)
  if remain ≠ 0 then
    -- the signed remainder is widened to the `size_t` of `memmove`
    let size := toUnsigned 64 remain
    if msgLen + size ≤ kMaxMsgLen then
      ⟨.again, { c with buf := move c.buf 0 msgLen size, len := remain },
        [.memmove 0 msgLen size]⟩
    else ⟨.undefined, c, [.memmove 0 msgLen size]⟩
  else ⟨.again, { c with len := remain }, []⟩

def debugLog (e : Endpoint Msg) (c : GepChannel) (tag valueLen : UInt32) :
    List (RecvEvent Msg) :=
  let n := valueLen.toNat
  if e.logLevel = .debug then
    [.printable (n * 4 + 1) (n * 4 + 1) (slice c.buf kOffsetValue n) n,
      .printable kMaxTagString kMaxTagString (GepProtocol.tagString tag) 4]
  else []

/-- The body of the loop of `RecvString`. -/
def recvStringPass (e : Endpoint Msg) (c : GepChannel) : Recv Pass Msg :=
  let (ok, tag, valueLen) := e.proto.scanHeader (slice c.buf 0 kHdrLen)
  let log := [.readHeader 0 kHdrLen]
  if !ok then
    let tmp := .printable (4 * 4 + 1) (4 * 4 + 1) (slice c.buf 0 4) 4
    ⟨.ret .cmdError, { c with len := 0 }, log ++ [tmp]⟩
  else if kMaxMsgLen - kHdrLen ≤ valueLen.toNat then
    ⟨.ret .cmdError, { c with len := 0 }, log⟩
  else
    let msgLen := (kHdrLen + valueLen.toNat) % 2 ^ 32
    if toUnsigned 32 c.len < msgLen then ⟨.ret .cmdFragmented, c, log⟩
    else
      let tlv := recvTLV e c tag valueLen.toNat kOffsetValue
      let log := log ++ debugLog e c tag valueLen ++ tlv.events
      if !tlv.ret.isRecoverable then ⟨.ret tlv.ret, tlv.chan, log⟩
      else (processRemaining tlv.chan msgLen).prepend log

/-! ## The ways through a pass -/

section Events

variable (e : Endpoint Msg) (c : GepChannel) (tag : UInt32)

/-- What comes of a value: `valueStr` is the copy of its `len` bytes that is
unserialized. -/
inductive TLVCase (valueLen : ℤ) (value len : ℕ) (valueStr : List UInt8)
    (r : Recv Result Msg) : Prop where
  | dropped (ops : e.ops tag = none)
      (eq : r = ⟨.cmdDropped, c,
        [.printable kMaxTagString kMaxTagString (GepProtocol.tagString tag) 4]⟩)
  | unpackable (callback : GepCallback Msg) (ops : e.ops tag = some callback)
      (msg : e.proto.unserialize valueStr (e.proto.getMessage tag) = none)
      (eq : r = ⟨.cmdError, c,
        [.printable kMaxTagString kMaxTagString (GepProtocol.tagString tag) 4,
          .readValue value len,
          .printable (valueLen * 4).toNat (valueLen * 4) valueStr valueLen]⟩)
  | kept (callback : GepCallback Msg) (msg : Msg) (ops : e.ops tag = some callback)
      (msg_eq : e.proto.unserialize valueStr (e.proto.getMessage tag) = some msg)
      (effect : (callback msg c).2 = .keep)
      (eq : r = ⟨.cmdOk, c,
        [.printable kMaxTagString kMaxTagString (GepProtocol.tagString tag) 4,
          .readValue value len, .dispatch ⟨tag, valueStr, msg⟩]⟩)
  | closed (callback : GepCallback Msg) (msg : Msg) (ops : e.ops tag = some callback)
      (msg_eq : e.proto.unserialize valueStr (e.proto.getMessage tag) = some msg)
      (effect : (callback msg c).2 = .close)
      (eq : r = ⟨.cmdOk, c.close.2.1,
        [.printable kMaxTagString kMaxTagString (GepProtocol.tagString tag) 4,
          .readValue value len, .dispatch ⟨tag, valueStr, msg⟩] ++
          (c.close.2.2.map .close).toList⟩)

theorem recvTLV_inv (valueLen : ℤ) (value : ℕ) :
    TLVCase e c tag valueLen value (toUnsigned 64 valueLen)
      (slice c.buf value (toUnsigned 64 valueLen)) (recvTLV e c tag valueLen value) := by
  unfold recvTLV
  cases hops : e.ops tag with
  | none => exact .dropped hops rfl
  | some callback =>
      dsimp only
      cases hmsg : e.proto.unserialize (slice c.buf value (toUnsigned 64 valueLen))
        (e.proto.getMessage tag) with
      | none => exact .unpackable callback hops hmsg rfl
      | some msg =>
          dsimp only
          cases heffect : (callback msg c).2 with
          | keep => exact .kept callback msg hops hmsg heffect rfl
          | close => exact .closed callback msg hops hmsg heffect rfl

theorem processRemaining_events (msgLen : ℕ) :
    (@processRemaining Msg c msgLen).events = [] ∨
      ∃ size, (@processRemaining Msg c msgLen).events = [.memmove 0 msgLen size] := by
  unfold processRemaining
  dsimp only
  split_ifs
  · exact .inr ⟨_, rfl⟩
  · exact .inr ⟨_, rfl⟩
  · exact .inl rfl

theorem debugLog_events (valueLen : UInt32) :
    debugLog e c tag valueLen = [] ∨
      debugLog e c tag valueLen =
        [.printable (valueLen.toNat * 4 + 1) (valueLen.toNat * 4 + 1)
            (slice c.buf kOffsetValue valueLen.toNat) valueLen.toNat,
          .printable kMaxTagString kMaxTagString (GepProtocol.tagString tag) 4] := by
  unfold debugLog
  dsimp only
  split_ifs
  · exact .inr rfl
  · exact .inl rfl

end Events

/-- `RecvTLV` leaves the channel alone unless the callback closed it. -/
theorem recvTLV_chan (e : Endpoint Msg) (c : GepChannel) (tag : UInt32) (valueLen : ℤ)
    (value : ℕ) :
    (recvTLV e c tag valueLen value).chan = c ∨
      (recvTLV e c tag valueLen value).ret = .cmdOk ∧
        (recvTLV e c tag valueLen value).chan = c.close.2.1 := by
  cases recvTLV_inv e c tag valueLen value with
  | dropped _ eq | unpackable _ _ _ eq | kept _ _ _ _ _ eq =>
      rw [eq]
      exact .inl rfl
  | closed _ _ _ _ _ eq =>
      rw [eq]
      exact .inr ⟨rfl, rfl⟩

/-- The remainder is less than what was held: a channel that was closed holds
nothing, and its negative remainder is more than `memmove` can copy. -/
theorem processRemaining_shrinks {c : GepChannel} {msgLen : ℕ} (hmsg : 0 < msgLen)
    (hlt : msgLen < 2 ^ 31) (h : (@processRemaining Msg c msgLen).ret = .again) :
    toUnsigned 32 (@processRemaining Msg c msgLen).chan.len < toUnsigned 32 c.len := by
  have hge := le_toSigned 31 (toUnsigned 32 c.len - msgLen)
  have hwrap : toUnsigned 32 c.len < msgLen →
      toSigned 32 (toUnsigned 32 c.len - msgLen) = toUnsigned 32 c.len - msgLen := by
    intro hless
    exact toSigned_of_mem (by omega) (by omega) (by omega)
  have hnat : msgLen ≤ toUnsigned 32 c.len →
      toSigned 32 (toUnsigned 32 c.len - msgLen) ≤ toUnsigned 32 c.len - msgLen := by
    intro hle
    have hle' := toSigned_natCast_le 32 (toUnsigned 32 c.len - msgLen)
    rwa [Nat.cast_sub hle] at hle'
  unfold processRemaining at h ⊢
  dsimp only at h ⊢
  generalize toSigned 32 (toUnsigned 32 c.len - msgLen) = remain at *
  split_ifs at h ⊢ with h1 h2
  · rw [kMaxMsgLen_eq] at h2
    simp only [toUnsigned] at *
    omega
  · simp only [toUnsigned] at *
    omega

theorem close_len_le (c : GepChannel) : toUnsigned 32 c.close.2.1.len ≤ toUnsigned 32 c.len := by
  unfold close
  split
  · exact Nat.zero_le _
  · exact le_rfl

theorem recvTLV_len_le (e : Endpoint Msg) (c : GepChannel) (tag : UInt32) (valueLen : ℤ)
    (value : ℕ) :
    toUnsigned 32 (recvTLV e c tag valueLen value).chan.len ≤ toUnsigned 32 c.len := by
  rcases recvTLV_chan e c tag valueLen value with h | ⟨-, h⟩ <;> rw [h]
  exact close_len_le c

theorem recvStringPass_shrinks {e : Endpoint Msg} {c : GepChannel}
    (h : (recvStringPass e c).ret = .again) :
    toUnsigned 32 (recvStringPass e c).chan.len < toUnsigned 32 c.len := by
  unfold recvStringPass at h ⊢
  dsimp only at h ⊢
  split_ifs at h ⊢ with h1 h2 h3 h4
  have hmax := kMaxMsgLen_eq
  have hhdr := kHdrLen_eq
  exact (processRemaining_shrinks (by omega) (by omega) h).trans_le (recvTLV_len_le ..)

/-- `RecvString`; the result is `none` when the behaviour is undefined. -/
def recvString (e : Endpoint Msg) (c : GepChannel) : Recv (Option Result) Msg :=
  if kHdrLen ≤ toUnsigned 32 c.len then
    let pass := recvStringPass e c
    if _h : pass.ret = .again then (recvString e pass.chan).prepend pass.events
    else ⟨pass.ret.result, pass.chan, pass.events⟩
  else ⟨some (if c.len ≠ 0 then .cmdFragmented else .cmdOk), c, []⟩
termination_by toUnsigned 32 c.len
decreasing_by exact recvStringPass_shrinks _h

/-- `RecvData`; the result is `none` when the behaviour is undefined. -/
def recvData (e : Endpoint Msg) (c : GepChannel) (r : RawRecv) : Recv (Option ℤ) Msg :=
  if c.socket < 0 then ⟨some (-1), c, []⟩
  else if kMaxMsgLen ≤ toUnsigned 64 c.len then ⟨some (-1), c, []⟩
  else
    let recv := .recv c.socket (kMaxMsgLen - toUnsigned 64 c.len) r
    match r with
    | .error _ => ⟨some (-1), c, [recv]⟩
    | .data [] => ⟨some (-2), c, [recv]⟩
    | .data bytes =>
        let c := { c with
          buf := store c.buf c.len.toNat bytes
          len := c.len + bytes.length }
        let s := recvString e c
        ⟨s.ret.map fun ret => if ret = .cmdError then -1 else 0, s.chan, recv :: s.events⟩

/-- The channel once `RecvData` has appended what it received. -/
def append (c : GepChannel) (bytes : List UInt8) : GepChannel :=
  { c with
    buf := store c.buf c.len.toNat bytes
    len := c.len + bytes.length }

@[simp] theorem append_socket (c : GepChannel) (bytes : List UInt8) :
    (c.append bytes).socket = c.socket := rfl

/-- The ways through `RecvData`. -/
inductive RecvDataCase (e : Endpoint Msg) (c : GepChannel) (r : RawRecv)
    (o : Recv (Option ℤ) Msg) : Prop where
  | refused (reason : c.socket < 0 ∨ kMaxMsgLen ≤ toUnsigned 64 c.len)
      (eq : o = ⟨some (-1), c, []⟩)
  | failed (errno : ℕ) (socket : 0 ≤ c.socket) (room : toUnsigned 64 c.len < kMaxMsgLen)
      (data : r = .error errno)
      (eq : o = ⟨some (-1), c, [.recv c.socket (kMaxMsgLen - toUnsigned 64 c.len) r]⟩)
  | closed (socket : 0 ≤ c.socket) (room : toUnsigned 64 c.len < kMaxMsgLen)
      (data : r = .data [])
      (eq : o = ⟨some (-2), c, [.recv c.socket (kMaxMsgLen - toUnsigned 64 c.len) r]⟩)
  | received (bytes : List UInt8) (socket : 0 ≤ c.socket)
      (room : toUnsigned 64 c.len < kMaxMsgLen) (data : r = .data bytes) (ne : bytes ≠ [])
      (eq : o = ⟨(recvString e (c.append bytes)).ret.map fun ret ↦
          if ret = .cmdError then -1 else 0, (recvString e (c.append bytes)).chan,
        .recv c.socket (kMaxMsgLen - toUnsigned 64 c.len) r ::
          (recvString e (c.append bytes)).events⟩)

theorem recvData_inv (e : Endpoint Msg) (c : GepChannel) (r : RawRecv) :
    RecvDataCase e c r (recvData e c r) := by
  unfold recvData
  split_ifs with hsocket hroom
  · exact .refused (.inl hsocket) rfl
  · exact .refused (.inr hroom) rfl
  · rw [Int.not_lt] at hsocket
    rw [Nat.not_le] at hroom
    rcases r with (- | ⟨b, bytes⟩) | errno
    · exact .closed hsocket hroom rfl rfl
    · exact .received (b :: bytes) hsocket hroom rfl (List.cons_ne_nil _ _) rfl
    · exact .failed errno hsocket hroom rfl rfl

theorem recvData_of_neg {e : Endpoint Msg} {c : GepChannel} {r : RawRecv} (h : c.socket < 0) :
    recvData e c r = ⟨some (-1), c, []⟩ := by
  cases recvData_inv e c r with
  | refused _ eq => exact eq
  | failed _ socket | closed socket | received _ socket => omega

end GepChannel

end Libgep
