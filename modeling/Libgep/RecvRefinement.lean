import Libgep.FrameParser
import Libgep.Recv
import Libgep.TestProtocol

/-!
# Receiving refines the reference parser

The bytes held in `buf_` are what the reference parser keeps.  One pass of
the loop of `RecvString` is one look of the parser, and a sequence of
`RecvData` calls is the parse of the concatenated input, however it was cut.
-/

namespace Libgep

open CInt FixedBuffer StreamParser

variable {Msg : Type*}

/-! ## One pass -/

namespace GepChannel

/-- `len_` counts bytes of `buf_`. -/
def LenOk (c : GepChannel) : Prop := 0 ≤ c.len ∧ c.len ≤ kMaxMsgLen

theorem LenOk.toUnsigned_eq {c : GepChannel} (h : c.LenOk) :
    (toUnsigned 32 c.len : ℤ) = c.len := by
  obtain ⟨h0, hmax⟩ := h
  rw [kMaxMsgLen_eq] at hmax
  rw [toUnsigned_of_lt h0 (by omega)]
  omega

theorem LenOk.length_contents {c : GepChannel} (h : c.LenOk) :
    c.contents.length = toUnsigned 32 c.len := by
  have heq := h.toUnsigned_eq
  have hlen := GepChannel.length_contents h.1 h.2
  omega

theorem slice_eq_contents {c : GepChannel} {off n : ℕ} (h : off + n ≤ c.len.toNat) :
    slice c.buf off n = (c.contents.drop off).take n :=
  slice_eq_slice_zero c.buf h

theorem recvTLV_spec {e : Endpoint Msg} (hk : e.CallbacksKeep) (c : GepChannel)
    (tag : UInt32) {n : ℕ} (hn : n < 2 ^ 64) (off : ℕ) (rest : List UInt8) :
    (recvTLV e c tag n off).chan = c ∧
      ((frameVerdict e tag (slice c.buf off n) rest = .fail ∧
          (recvTLV e c tag n off).ret = .cmdError ∧
          dispatched (recvTLV e c tag n off).events = []) ∨
        (∃ out, frameVerdict e tag (slice c.buf off n) rest = .emit out rest ∧
          (recvTLV e c tag n off).ret.isRecoverable = true ∧
          dispatched (recvTLV e c tag n off).events = out)) := by
  have hcast : toUnsigned 64 n = n := by
    rw [toUnsigned_natCast, Nat.mod_eq_of_lt hn]
  have hcase := recvTLV_inv e c tag n off
  rw [hcast] at hcase
  cases hcase with
  | dropped ops eq =>
      rw [eq, frameVerdict, ops]
      exact ⟨rfl, .inr ⟨[], rfl, rfl, rfl⟩⟩
  | unpackable callback ops msg eq =>
      simp only [eq, frameVerdict, ops, msg]
      exact ⟨trivial, .inl ⟨trivial, trivial, rfl⟩⟩
  | kept callback msg ops msg_eq effect eq =>
      simp only [eq, frameVerdict, ops, msg_eq]
      exact ⟨trivial, .inr ⟨_, rfl, rfl, rfl⟩⟩
  | closed callback msg ops msg_eq effect eq =>
      rw [hk tag callback ops msg c] at effect
      cases effect

theorem processRemaining_spec {c : GepChannel} (hc : c.LenOk) {msgLen : ℕ}
    (hle : msgLen ≤ toUnsigned 32 c.len) :
    ∃ buf events, @processRemaining Msg c msgLen =
        ⟨.again, { c with buf := buf, len := c.len - msgLen }, events⟩ ∧
      dispatched events = [] ∧
      slice buf 0 (c.len - msgLen).toNat = c.contents.drop msgLen := by
  have hlen := hc.toUnsigned_eq
  have hmax := hc.2
  have hmaxLen := kMaxMsgLen_eq
  have hsigned : toSigned 32 (toUnsigned 32 c.len - msgLen) = c.len - msgLen := by
    rw [hlen]
    exact toSigned_of_mem (by omega) (by omega) (by omega)
  have hcontents := hc.length_contents
  unfold processRemaining
  simp only [hsigned]
  by_cases hremain : c.len - msgLen = 0
  · refine ⟨c.buf, [], by simp [hremain], rfl, ?_⟩
    rw [List.drop_eq_nil_of_le (by omega), hremain]
    rfl
  · have hsize : toUnsigned 64 (c.len - msgLen) = (c.len - msgLen).toNat :=
      toUnsigned_of_lt (by omega) (by omega)
    rw [if_pos hremain, hsize, if_pos (by omega)]
    refine ⟨_, _, rfl, rfl, ?_⟩
    rw [slice_zero_move _ (by omega), slice_eq_contents (by omega)]
    exact List.take_of_length_le (by rw [List.length_drop]; omega)

/-- How a pass relates to the look of the reference parser at the contents. -/
inductive PassSpec (e : Endpoint Msg) (c : GepChannel) (r : Recv Pass Msg) : Prop where
  | wait (look : frameLook e c.contents = .wait) (ret : r.ret = .ret .cmdFragmented)
      (chan : r.chan = c) (events : dispatched r.events = [])
  | fail (look : frameLook e c.contents = .fail) (ret : r.ret = .ret .cmdError)
      (id : r.chan.id = c.id) (socket : r.chan.socket = c.socket)
      (events : dispatched r.events = [])
  | emit (out : List (Delivery Msg)) (rest : List UInt8)
      (look : frameLook e c.contents = .emit out rest) (ret : r.ret = .again)
      (id : r.chan.id = c.id) (socket : r.chan.socket = c.socket)
      (len : r.chan.LenOk) (contents : r.chan.contents = rest)
      (events : dispatched r.events = out)

theorem scanHeader_slice (p : GepProtocol Msg) {c : GepChannel} (hc : c.LenOk)
    (hhdr : kHdrLen ≤ toUnsigned 32 c.len) :
    p.scanHeader (slice c.buf 0 kHdrLen) =
      (uint32 c.contents == p.magic, uint32 (c.contents.drop 4),
        uint32 (c.contents.drop 8)) := by
  have hlen := hc.toUnsigned_eq
  have hcontents := hc.length_contents
  rw [slice_eq_contents (by omega), List.drop_zero,
    p.scanHeader_take le_rfl (by omega)]
  rfl

theorem debugLog_dispatched (e : Endpoint Msg) (c : GepChannel) (tag valueLen : UInt32) :
    dispatched (debugLog e c tag valueLen) = [] := by
  rcases debugLog_events e c tag valueLen with h | h <;> rw [h] <;> rfl

theorem recvStringPass_spec {e : Endpoint Msg} (hk : e.CallbacksKeep) {c : GepChannel}
    (hc : c.LenOk) (hhdr : kHdrLen ≤ toUnsigned 32 c.len) :
    PassSpec e c (recvStringPass e c) := by
  have hlen := hc.toUnsigned_eq
  have hcontents := hc.length_contents
  have hmaxLen := kMaxMsgLen_eq
  have hhdrLen := kHdrLen_eq
  have hlook : frameLook e c.contents = frameLook e c.contents := rfl
  unfold recvStringPass
  rw [scanHeader_slice e.proto hc hhdr]
  dsimp only
  conv at hlook => rhs; unfold frameLook
  rw [if_neg (by omega)] at hlook
  dsimp only at hlook
  generalize uint32 (c.contents.drop 4) = tag at hlook ⊢
  generalize uint32 (c.contents.drop 8) = valueLen at hlook ⊢
  by_cases hmagic : uint32 c.contents = e.proto.magic
  swap
  · rw [if_pos (.inl hmagic)] at hlook
    rw [if_pos (by simpa using hmagic)]
    exact .fail hlook rfl rfl rfl rfl
  rw [if_neg (by simpa using hmagic)]
  by_cases hmax : kMaxMsgLen - kHdrLen ≤ valueLen.toNat
  · rw [if_pos (.inr hmax)] at hlook
    rw [if_pos hmax]
    exact .fail hlook rfl rfl rfl rfl
  have hmod : (kHdrLen + valueLen.toNat) % 2 ^ 32 = kHdrLen + valueLen.toNat :=
    Nat.mod_eq_of_lt (by omega)
  rw [if_neg (by simpa [hmagic] using hmax)] at hlook
  rw [if_neg hmax, hmod]
  by_cases hfrag : toUnsigned 32 c.len < kHdrLen + valueLen.toNat
  · rw [if_pos (by omega)] at hlook
    rw [if_pos hfrag]
    exact .wait hlook rfl rfl rfl
  have hvalue : slice c.buf kOffsetValue valueLen.toNat =
      (c.contents.drop kHdrLen).take valueLen.toNat :=
    slice_eq_contents (show kHdrLen + valueLen.toNat ≤ c.len.toNat by omega)
  rw [if_neg (by omega), ← hvalue] at hlook
  rw [if_neg hfrag]
  have hsize : valueLen.toNat < 2 ^ 64 := by omega
  obtain ⟨hchan, htlv⟩ := recvTLV_spec hk c tag hsize kOffsetValue
    (c.contents.drop (kHdrLen + valueLen.toNat))
  rcases htlv with ⟨hv, hret, hev⟩ | ⟨out, hv, hret, hev⟩
  · rw [if_pos (by simp [hret, Result.isRecoverable, Result.toInt])]
    refine .fail (hlook.trans hv) (by rw [hret]) (by rw [hchan]) (by rw [hchan]) ?_
    simp [hev, debugLog_dispatched, RecvEvent.delivery]
  · rw [if_neg (by simp [hret]), hchan]
    obtain ⟨buf, events, hremain, hnone, hslice⟩ :=
      @processRemaining_spec Msg c hc _ (Nat.le_of_not_lt hfrag)
    rw [hremain]
    refine .emit out _ (hlook.trans hv) rfl rfl rfl ?_ hslice ?_
    · have hle := hc.2
      exact ⟨by simp; omega, by simp; omega⟩
    · simp [hev, hnone, debugLog_dispatched, RecvEvent.delivery]

/-! ## The loop -/

/-- The outcome `r` of receiving, where the parser says `o`: a malformed
stream is reported as `bad`, any other as a `good` result. -/
structure Parsed {ρ : Type*} (bad good : ρ → Prop) (c : GepChannel)
    (o : Outcome UInt8 (Delivery Msg)) (r : Recv ρ Msg) : Prop where
  id : r.chan.id = c.id
  socket : r.chan.socket = c.socket
  events : dispatched r.events = o.out
  failed : o.left = none → bad r.ret
  kept : ∀ left, o.left = some left → good r.ret ∧ r.chan.LenOk ∧ r.chan.contents = left

def NoError (ret : Option Result) : Prop := ∃ r, ret = some r ∧ r ≠ .cmdError

theorem recvString_parsed {e : Endpoint Msg} (hk : e.CallbacksKeep) {c : GepChannel}
    (hc : c.LenOk) :
    Parsed (· = some .cmdError) NoError c (parse e c.contents) (recvString e c) := by
  fun_induction recvString e c with
  | case1 c hhdr pass hagain ih =>
      cases recvStringPass_spec hk hc hhdr with
      | wait _ ret | fail _ ret => cases ret.symm.trans hagain
      | emit out rest look ret id socket len contents events =>
          have hrest := ih len
          rw [contents] at hrest
          rw [parse, run_emit _ look]
          refine ⟨hrest.id.trans id, hrest.socket.trans socket, ?_, hrest.failed, hrest.kept⟩
          simp [pass, events, hrest.events, parse]
  | case2 c hhdr pass hstop =>
      cases recvStringPass_spec hk hc hhdr with
      | wait look ret chan events =>
          rw [parse, run_wait _ look, show pass.ret = _ from ret, show pass.chan = _ from chan]
          refine ⟨rfl, rfl, events, by simp, ?_⟩
          rintro left ⟨⟩
          exact ⟨⟨_, rfl, by decide⟩, hc, rfl⟩
      | fail look ret id socket events =>
          rw [parse, run_fail _ look, show pass.ret = _ from ret]
          exact ⟨id, socket, events, fun _ ↦ rfl, by simp⟩
      | emit _ _ _ ret => exact absurd ret hstop
  | case3 c hhdr =>
      have hcontents := hc.length_contents
      have hlook : frameLook e c.contents = .wait := by
        unfold frameLook
        rw [if_pos (by omega)]
      rw [parse, run_wait _ hlook]
      refine ⟨rfl, rfl, rfl, by simp, ?_⟩
      rintro left ⟨⟩
      refine ⟨⟨_, rfl, ?_⟩, hc, rfl⟩
      split <;> decide

/-! ## One receive -/

theorem length_lt_of_wait {e : Endpoint Msg} {xs : List UInt8} (h : frameLook e xs = .wait) :
    xs.length + 1 < kMaxMsgLen := by
  have hmaxLen := kMaxMsgLen_eq
  have hhdrLen := kHdrLen_eq
  unfold frameLook at h
  dsimp only at h
  split_ifs at h with h1 h2 h3
  · omega
  · omega
  · unfold frameVerdict at h
    split at h
    · cases h
    · split at h <;> cases h

theorem parse_left_length {e : Endpoint Msg} {xs left : List UInt8}
    (h : (parse e xs).left = some left) : left.length + 1 < kMaxMsgLen :=
  length_lt_of_wait (look_left _ h)

theorem contents_store {c : GepChannel} (hc : c.LenOk) {bytes : List UInt8}
    (hfit : c.len + bytes.length ≤ kMaxMsgLen) :
    slice (store c.buf c.len.toNat bytes) 0 (c.len + bytes.length).toNat =
      c.contents ++ bytes := by
  have h0 := hc.1
  have hadd : (c.len + bytes.length).toNat = c.len.toNat + bytes.length := by omega
  rw [hadd, slice_zero_store _ (by omega), contents]

theorem recvData_parsed {e : Endpoint Msg} (hk : e.CallbacksKeep) {c : GepChannel}
    (hsocket : 0 ≤ c.socket) (hc : c.LenOk) {bytes : List UInt8} (hne : bytes ≠ [])
    (hfit : c.len + bytes.length ≤ kMaxMsgLen) :
    Parsed (· = some (-1)) (· = some 0) c (parse e (c.contents ++ bytes))
      (recvData e c (.data bytes)) := by
  have hmaxLen := kMaxMsgLen_eq
  have h0 := hc.1
  have hpos : 0 < bytes.length := List.length_pos_iff.mpr hne
  have hroom : toUnsigned 64 c.len < kMaxMsgLen := by
    rw [toUnsigned_of_lt h0 (by omega)]
    omega
  cases recvData_inv e c (.data bytes) with
  | refused reason => omega
  | failed errno _ _ data => cases data
  | closed _ _ data => exact absurd (RawRecv.data.inj data) hne
  | received bytes' _ _ data _ eq =>
      obtain rfl := RawRecv.data.inj data
      have hc' : (c.append bytes).LenOk := ⟨by rw [append]; dsimp only; omega, hfit⟩
      have hstring := recvString_parsed hk hc'
      rw [show (c.append bytes).contents = _ from contents_store hc hfit] at hstring
      rw [eq]
      refine ⟨hstring.id, hstring.socket, ?_, ?_, ?_⟩
      · simpa [RecvEvent.delivery] using hstring.events
      · intro hleft
        simp [hstring.failed hleft]
      · intro left hleft
        obtain ⟨⟨ret, hret, hok⟩, hlen, hkept⟩ := hstring.kept left hleft
        exact ⟨by simp [hret, hok], hlen, hkept⟩

/-! ## Any sequence of receives -/

/-- Feed chunks to `RecvData` up to the first negative result. -/
def recvAll (e : Endpoint Msg) (c : GepChannel) : List (List UInt8) → Recv (Option ℤ) Msg
  | [] => ⟨some 0, c, []⟩
  | chunk :: chunks =>
      let r := recvData e c (.data chunk)
      if r.ret = some 0 then (recvAll e r.chan chunks).prepend r.events else r

/-- Every chunk is a possible outcome of its `Recv`: it is not empty and no
longer than the free space of `buf_` at that moment. -/
def ChunksFit (e : Endpoint Msg) (c : GepChannel) : List (List UInt8) → Prop
  | [] => True
  | chunk :: chunks =>
      chunk ≠ [] ∧ (chunk.length : ℤ) ≤ kMaxMsgLen - c.len ∧
        ((recvData e c (.data chunk)).ret = some 0 →
          ChunksFit e (recvData e c (.data chunk)).chan chunks)

/-- A stream that fits into `buf_` as a whole may be cut in any way. -/
theorem chunksFit_of_length_le {e : Endpoint Msg} (hk : e.CallbacksKeep) {c : GepChannel}
    (hsocket : 0 ≤ c.socket) (hc : c.LenOk) {chunks : List (List UInt8)}
    (hne : ∀ chunk ∈ chunks, chunk ≠ [])
    (hle : c.len + chunks.flatten.length ≤ kMaxMsgLen) : ChunksFit e c chunks := by
  induction chunks generalizing c with
  | nil => trivial
  | cons chunk chunks ih =>
      rw [List.flatten_cons, List.length_append] at hle
      push_cast at hle
      have hchunk := hne chunk List.mem_cons_self
      refine ⟨hchunk, by omega, fun hret ↦ ?_⟩
      have hdata := recvData_parsed hk hsocket hc hchunk (by omega)
      cases hleft : (parse e (c.contents ++ chunk)).left with
      | none => simp [hdata.failed hleft] at hret
      | some left =>
          obtain ⟨-, hlen, hkept⟩ := hdata.kept left hleft
          have hshort := left_length_le _ hleft
          have hold := GepChannel.length_contents hc.1 hc.2
          have hnew := GepChannel.length_contents hlen.1 hlen.2
          rw [List.length_append] at hshort
          rw [hkept] at hnew
          exact ih (hdata.socket ▸ hsocket) hlen
            (fun d hd ↦ hne d (List.mem_cons_of_mem _ hd)) (by omega)

theorem recvAll_parsed {e : Endpoint Msg} (hk : e.CallbacksKeep) {c : GepChannel}
    (hsocket : 0 ≤ c.socket) (hc : c.LenOk) {chunks : List (List UInt8)}
    (hfit : ChunksFit e c chunks) (hwait : frameLook e c.contents = .wait) :
    Parsed (· = some (-1)) (· = some 0) c (parse e (c.contents ++ chunks.flatten))
      (recvAll e c chunks) := by
  induction chunks generalizing c with
  | nil =>
      rw [List.flatten_nil, List.append_nil, parse, run_wait _ hwait]
      refine ⟨rfl, rfl, rfl, by simp, ?_⟩
      rintro left ⟨⟩
      exact ⟨rfl, hc, rfl⟩
  | cons chunk chunks ih =>
      obtain ⟨hne, hroom, hrest⟩ := hfit
      have hdata := recvData_parsed hk hsocket hc hne (by omega)
      rw [List.flatten_cons, ← List.append_assoc, recvAll]
      cases hleft : (parse e (c.contents ++ chunk)).left with
      | none =>
          have hret := hdata.failed hleft
          rw [if_neg (by simp [hret]), parse, run_append_of_failed _ hleft]
          exact hdata
      | some left =>
          obtain ⟨hret, hlen, hkept⟩ := hdata.kept left hleft
          have hnext := ih (hdata.socket ▸ hsocket) hlen (hrest hret)
            (hkept ▸ look_left _ hleft)
          have happend : parse e (c.contents ++ chunk ++ chunks.flatten) =
              (parse e (left ++ chunks.flatten)).after (parse e (c.contents ++ chunk)).out :=
            run_append_of_waiting _ hleft _
          rw [if_pos hret, happend]
          rw [hkept] at hnext
          refine ⟨hnext.id.trans hdata.id, hnext.socket.trans hdata.socket, ?_,
            hnext.failed, hnext.kept⟩
          simp [hdata.events, hnext.events]

/-- Receiving from an empty buffer parses all that is received. -/
theorem recvAll_parsed_of_empty {e : Endpoint Msg} (hk : e.CallbacksKeep) {c : GepChannel}
    (hsocket : 0 ≤ c.socket) (hlen : c.len = 0) {chunks : List (List UInt8)}
    (hfit : ChunksFit e c chunks) :
    Parsed (· = some (-1)) (· = some 0) c (parse e chunks.flatten) (recvAll e c chunks) := by
  have hc : c.LenOk := ⟨hlen.ge, by rw [hlen]; exact Int.natCast_nonneg _⟩
  have hempty : c.contents = [] := by
    rw [contents, hlen]
    rfl
  have hparsed := recvAll_parsed hk hsocket hc hfit (by rw [hempty]; rfl)
  rwa [hempty, List.nil_append] at hparsed

end GepChannel

open GepChannel

/-- Whatever way a byte stream is cut into receives, the messages dispatched
are those of the reference parser on the whole stream.  Receiving fails
exactly on malformed streams, and otherwise keeps what the parser keeps. -/
theorem receive_eq_reference (e : Endpoint Msg) (hk : e.CallbacksKeep) (c : GepChannel)
    (hsocket : 0 ≤ c.socket) (hlen : c.len = 0) (chunks : List (List UInt8))
    (hfit : ChunksFit e c chunks) :
    dispatched (recvAll e c chunks).events = (parse e chunks.flatten).out ∧
      ((recvAll e c chunks).ret = some (-1) ↔ (parse e chunks.flatten).left = none) ∧
      ∀ left, (parse e chunks.flatten).left = some left →
        (recvAll e c chunks).ret = some 0 ∧
          (recvAll e c chunks).chan.len = left.length ∧
          (recvAll e c chunks).chan.contents = left := by
  have hparsed := recvAll_parsed_of_empty hk hsocket hlen hfit
  refine ⟨hparsed.events, ⟨?_, hparsed.failed⟩, ?_⟩
  · intro hret
    cases hleft : (parse e chunks.flatten).left with
    | none => rfl
    | some left =>
        obtain ⟨hzero, -, -⟩ := hparsed.kept left hleft
        simp [hzero] at hret
  · intro left hleft
    obtain ⟨hzero, hle, hkept⟩ := hparsed.kept left hleft
    refine ⟨hzero, ?_, hkept⟩
    rw [← length_contents hle.1 hle.2, hkept]

/-- A `Command4` frame that arrives in three pieces, over stale bytes. -/
theorem receive_fragmented_command4 :
    dispatched (recvAll TestProtocol.endpoint
        (.new 0 5 (List.Vector.replicate kMaxMsgLen 0xff))
        [[0x67, 0x65, 0x70], [0x70, 0x63, 0x6d, 0x64, 0x34, 0, 0, 0, 2, 8], [7]]).events =
      [⟨makeTag 'c' 'm' 'd' '4', [8, 7], ⟨.command4, [8, 7]⟩⟩] := by
  have hfit : ChunksFit TestProtocol.endpoint (.new 0 5 (List.Vector.replicate kMaxMsgLen 0xff))
      [[0x67, 0x65, 0x70], [0x70, 0x63, 0x6d, 0x64, 0x34, 0, 0, 0, 2, 8], [7]] :=
    chunksFit_of_length_le TestProtocol.endpoint_callbacksKeep (by decide)
      ⟨le_rfl, by decide⟩ (by decide) (by decide)
  refine (receive_eq_reference TestProtocol.endpoint TestProtocol.endpoint_callbacksKeep
    _ (by decide) rfl _ hfit).1.trans ?_
  decide

end Libgep
