import Libgep.RecvEvents
import Libgep.RecvRefinement

/-!
# The passes of the receive loop

What one pass of the loop of `RecvString` does with the head of the buffer,
for any callbacks, and how the passes of a whole loop follow each other.
-/

namespace Libgep

open CInt FixedBuffer

variable {Msg : Type*}

/-! ## Accesses to the buffer -/

/-- The ranges of `buf_`, as an offset and a length, that are read or written. -/
def RecvEvent.accesses : RecvEvent Msg → List (ℕ × ℕ)
  | .readHeader off n => [(off, n)]
  | .readValue off n => [(off, n)]
  | .memmove dst src n => [(dst, n), (src, n)]
  | _ => []

/-- All accesses lie within the first `len_` bytes of `buf_`. -/
def Within (c : GepChannel) (events : List (RecvEvent Msg)) : Prop :=
  ∀ ev ∈ events, ∀ a ∈ ev.accesses, ((a.1 + a.2 : ℕ) : ℤ) ≤ c.len

section Within

variable {c : GepChannel} {ev : RecvEvent Msg} {xs ys : List (RecvEvent Msg)}

@[simp] theorem within_nil : Within c ([] : List (RecvEvent Msg)) := by
  simp [Within]

@[simp] theorem within_cons :
    Within c (ev :: xs) ↔ (∀ a ∈ ev.accesses, ((a.1 + a.2 : ℕ) : ℤ) ≤ c.len) ∧ Within c xs :=
  List.forall_mem_cons

@[simp] theorem within_append : Within c (xs ++ ys) ↔ Within c xs ∧ Within c ys :=
  List.forall_mem_append

theorem within_of_noAccess (h : ∀ ev ∈ xs, ev.accesses = []) : Within c xs := by
  intro ev hev a ha
  rw [h ev hev] at ha
  cases ha

end Within

namespace GepChannel

/-! ## The head of the buffer -/

/-- A complete frame at the head of the buffer. -/
structure HeadFrame (p : GepProtocol Msg) (c : GepChannel) (tag valueLen : UInt32) : Prop where
  header : p.scanHeader (slice c.buf 0 kHdrLen) = (true, tag, valueLen)
  lt : valueLen.toNat < kMaxMsgLen - kHdrLen
  whole : ((kHdrLen + valueLen.toNat : ℕ) : ℤ) ≤ c.len

def value (c : GepChannel) (valueLen : UInt32) : List UInt8 :=
  slice c.buf kOffsetValue valueLen.toNat

/-- The channel without the first `n` bytes of its buffer. -/
def consume (c : GepChannel) (n : ℕ) : GepChannel :=
  if c.len = n then { c with len := 0 }
  else { c with buf := move c.buf 0 n (c.len - n).toNat, len := c.len - n }

/-- The frame is dropped, or its callback leaves the channel alone. -/
def Accepts (e : Endpoint Msg) (c : GepChannel) (tag valueLen : UInt32) : Prop :=
  ∀ callback, e.ops tag = some callback →
    ∃ msg, e.proto.unserialize (c.value valueLen) (e.proto.getMessage tag) = some msg ∧
      (callback msg c).2 = .keep

/-- The tag has a callback, but the value does not unserialize. -/
def Rejects (e : Endpoint Msg) (c : GepChannel) (tag valueLen : UInt32) : Prop :=
  (e.ops tag).isSome ∧ e.proto.unserialize (c.value valueLen) (e.proto.getMessage tag) = none

/-- The callback closes the channel. -/
def Closes (e : Endpoint Msg) (c : GepChannel) (tag valueLen : UInt32) : Prop :=
  ∃ callback msg, e.ops tag = some callback ∧
    e.proto.unserialize (c.value valueLen) (e.proto.getMessage tag) = some msg ∧
      (callback msg c).2 = .close

section Head

variable {e : Endpoint Msg} {p : GepProtocol Msg} {c : GepChannel}
  {tag valueLen tag' valueLen' : UInt32}

theorem HeadFrame.unique (h : HeadFrame p c tag valueLen) (h' : HeadFrame p c tag' valueLen') :
    tag' = tag ∧ valueLen' = valueLen := by
  have heq := h'.header.symm.trans h.header
  rw [Prod.mk.injEq, Prod.mk.injEq] at heq
  exact heq.2

theorem HeadFrame.of_scan {ok : Bool} (h : HeadFrame p c tag' valueLen')
    (hscan : p.scanHeader (slice c.buf 0 kHdrLen) = (ok, tag, valueLen)) :
    ok = true ∧ tag' = tag ∧ valueLen' = valueLen := by
  have heq := h.header.symm.trans hscan
  rw [Prod.mk.injEq, Prod.mk.injEq] at heq
  exact ⟨heq.1.symm, heq.2⟩

/-- A complete frame is what passes the three checks of a pass. -/
theorem headFrame_iff (hc : c.LenOk) :
    HeadFrame p c tag valueLen ↔ p.scanHeader (slice c.buf 0 kHdrLen) = (true, tag, valueLen) ∧
      ¬ kMaxMsgLen - kHdrLen ≤ valueLen.toNat ∧
      ¬ toUnsigned 32 c.len < (kHdrLen + valueLen.toNat) % 2 ^ 32 := by
  have hlen := hc.toUnsigned_eq
  have hmaxLen := kMaxMsgLen_eq
  have hhdrLen := kHdrLen_eq
  constructor
  · rintro ⟨header, lt, whole⟩
    refine ⟨header, by omega, ?_⟩
    rw [Nat.mod_eq_of_lt (by omega)]
    omega
  · rintro ⟨header, hlarge, hfrag⟩
    rw [Nat.mod_eq_of_lt (by omega)] at hfrag
    exact ⟨header, by omega, by omega⟩

theorem HeadFrame.hdrLen_le (h : HeadFrame p c tag valueLen) (hc : c.LenOk) :
    kHdrLen ≤ toUnsigned 32 c.len := by
  have hlen := hc.toUnsigned_eq
  have hwhole := h.whole
  omega

theorem Accepts.not_rejects (h : Accepts e c tag valueLen) : ¬ Rejects e c tag valueLen := by
  rintro ⟨hops, hnone⟩
  obtain ⟨callback, hcallback⟩ := Option.isSome_iff_exists.mp hops
  obtain ⟨msg, hmsg, -⟩ := h callback hcallback
  rw [hnone] at hmsg
  cases hmsg

theorem Accepts.not_closes (h : Accepts e c tag valueLen) : ¬ Closes e c tag valueLen := by
  rintro ⟨callback, msg, hcallback, hmsg, hclose⟩
  obtain ⟨msg', hmsg', hkeep⟩ := h callback hcallback
  rw [hmsg] at hmsg'
  cases hmsg'
  rw [hclose] at hkeep
  cases hkeep

theorem Rejects.not_closes (h : Rejects e c tag valueLen) : ¬ Closes e c tag valueLen := by
  rintro ⟨callback, msg, -, hmsg, -⟩
  rw [h.2] at hmsg
  cases hmsg

end Head

theorem consume_len (c : GepChannel) (n : ℕ) : (c.consume n).len = c.len - n := by
  unfold consume
  split
  · dsimp only
    omega
  · rfl

theorem consume_socket (c : GepChannel) (n : ℕ) : (c.consume n).socket = c.socket := by
  unfold consume
  split <;> rfl

theorem consume_lenOk {c : GepChannel} (hc : c.LenOk) {n : ℕ} (hle : (n : ℤ) ≤ c.len) :
    (c.consume n).LenOk := by
  have hmax := hc.2
  unfold LenOk
  rw [consume_len]
  omega

theorem processRemaining_eq {c : GepChannel} (hc : c.LenOk) {n : ℕ} (hle : (n : ℤ) ≤ c.len) :
    (@processRemaining Msg c n).ret = .again ∧ (@processRemaining Msg c n).chan = c.consume n ∧
      Within c (@processRemaining Msg c n).events ∧
        dispatched (@processRemaining Msg c n).events = [] := by
  have hlen := hc.toUnsigned_eq
  have hmax := hc.2
  have hmaxLen := kMaxMsgLen_eq
  have hsigned : toSigned 32 (toUnsigned 32 c.len - n) = c.len - n := by
    rw [hlen]
    exact toSigned_of_mem (by omega) (by omega) (by omega)
  unfold processRemaining consume
  simp only [hsigned]
  by_cases hremain : c.len = n
  · rw [if_neg (by omega), if_pos hremain, hremain]
    exact ⟨rfl, by simp, within_nil, rfl⟩
  · have hsize : toUnsigned 64 (c.len - n) = (c.len - n).toNat :=
      toUnsigned_of_lt (by omega) (by omega)
    rw [if_pos (by omega), if_neg hremain, hsize, if_pos (by omega)]
    refine ⟨rfl, rfl, ?_, rfl⟩
    simp [RecvEvent.accesses]
    omega

/-! ## One pass -/

theorem toUnsigned_valueLen (valueLen : UInt32) :
    toUnsigned 64 valueLen.toNat = valueLen.toNat := by
  have hlt := valueLen.toNat_lt
  rw [toUnsigned_natCast, Nat.mod_eq_of_lt (by omega)]

theorem recvTLV_accesses (e : Endpoint Msg) (c : GepChannel) (tag valueLen : UInt32) {ev : RecvEvent Msg}
    (hev : ev ∈ (recvTLV e c tag valueLen.toNat kOffsetValue).events) :
    ∀ a ∈ ev.accesses, a = (kOffsetValue, valueLen.toNat) := by
  have hcase := recvTLV_inv e c tag valueLen.toNat kOffsetValue
  rw [toUnsigned_valueLen] at hcase
  cases hcase with
  | dropped _ eq =>
      rw [eq] at hev
      obtain rfl := List.mem_singleton.mp hev
      simp [RecvEvent.accesses]
  | unpackable _ _ _ eq | kept _ _ _ _ _ eq =>
      rw [eq] at hev
      simp only [List.mem_cons, List.not_mem_nil, or_false] at hev
      rcases hev with rfl | rfl | rfl <;> simp [RecvEvent.accesses]
  | closed _ _ _ _ _ eq =>
      rw [eq] at hev
      simp only [List.mem_append, List.mem_cons, List.not_mem_nil, or_false, Option.mem_toList,
        Option.map_eq_some_iff] at hev
      rcases hev with (rfl | rfl | rfl) | ⟨fd, -, rfl⟩ <;> simp [RecvEvent.accesses]

theorem debugLog_accesses (e : Endpoint Msg) (c : GepChannel) (tag valueLen : UInt32) :
    ∀ ev ∈ debugLog e c tag valueLen, ev.accesses = [] := by
  rcases debugLog_events e c tag valueLen with h | h <;> rw [h] <;> simp [RecvEvent.accesses]

/-- What `RecvTLV` does with a frame at the head of the buffer. -/
theorem recvTLV_cases (e : Endpoint Msg) (c : GepChannel) (tag valueLen : UInt32) :
    (Rejects e c tag valueLen ∧ (recvTLV e c tag valueLen.toNat kOffsetValue).ret = .cmdError ∧
      (recvTLV e c tag valueLen.toNat kOffsetValue).chan = c) ∨
    (Accepts e c tag valueLen ∧
      (recvTLV e c tag valueLen.toNat kOffsetValue).ret.isRecoverable = true ∧
      (recvTLV e c tag valueLen.toNat kOffsetValue).chan = c) ∨
    (Closes e c tag valueLen ∧ (recvTLV e c tag valueLen.toNat kOffsetValue).ret = .cmdOk ∧
      (recvTLV e c tag valueLen.toNat kOffsetValue).chan = c.close.2.1) := by
  have hcase := recvTLV_inv e c tag valueLen.toNat kOffsetValue
  rw [toUnsigned_valueLen] at hcase
  cases hcase with
  | dropped ops eq =>
      refine .inr (.inl ⟨?_, by rw [eq]; rfl, by rw [eq]⟩)
      intro callback hcallback
      rw [ops] at hcallback
      cases hcallback
  | unpackable callback ops msg eq =>
      exact .inl ⟨⟨by rw [ops]; rfl, msg⟩, by rw [eq], by rw [eq]⟩
  | kept callback msg ops msg_eq effect eq =>
      refine .inr (.inl ⟨?_, by rw [eq]; rfl, by rw [eq]⟩)
      intro callback' hcallback
      rw [ops] at hcallback
      cases hcallback
      exact ⟨msg, msg_eq, effect⟩
  | closed callback msg ops msg_eq effect eq =>
      exact .inr (.inr ⟨⟨callback, msg, ops, msg_eq, effect⟩, by rw [eq], by rw [eq]⟩)

/-- The ways through a pass of the loop. -/
inductive PassCase (e : Endpoint Msg) (c : GepChannel) (r : Recv Pass Msg) : Prop where
  | malformed (noHead : ∀ tag valueLen, ¬ HeadFrame e.proto c tag valueLen)
      (ret : r.ret = .ret .cmdError) (chan : r.chan = { c with len := 0 })
      (within : Within c r.events)
  | fragmented (noHead : ∀ tag valueLen, ¬ HeadFrame e.proto c tag valueLen)
      (ret : r.ret = .ret .cmdFragmented) (chan : r.chan = c) (within : Within c r.events)
  | unpackable (tag valueLen : UInt32) (head : HeadFrame e.proto c tag valueLen)
      (rejects : Rejects e c tag valueLen) (ret : r.ret = .ret .cmdError) (chan : r.chan = c)
      (within : Within c r.events)
  | consumed (tag valueLen : UInt32) (head : HeadFrame e.proto c tag valueLen)
      (accepts : Accepts e c tag valueLen) (ret : r.ret = .again)
      (chan : r.chan = c.consume (kHdrLen + valueLen.toNat)) (within : Within c r.events)
  | closed (tag valueLen : UInt32) (head : HeadFrame e.proto c tag valueLen)
      (closes : Closes e c tag valueLen) (ret : r.ret = .undefined)
      (moves : .memmove 0 (kHdrLen + valueLen.toNat) (2 ^ 64 - (kHdrLen + valueLen.toNat)) ∈
        r.events)

theorem recvStringPass_cases (e : Endpoint Msg) {c : GepChannel} (hc : c.LenOk)
    (hopen : c.socket ≠ -1) (hhdr : kHdrLen ≤ toUnsigned 32 c.len) :
    PassCase e c (recvStringPass e c) := by
  have hlen := hc.toUnsigned_eq
  have hmaxLen := kMaxMsgLen_eq
  have hhdrLen := kHdrLen_eq
  have hread : ∀ a ∈ (RecvEvent.readHeader 0 kHdrLen : RecvEvent Msg).accesses,
      ((a.1 + a.2 : ℕ) : ℤ) ≤ c.len := by
    simp [RecvEvent.accesses]
    omega
  unfold recvStringPass
  rcases hscan : e.proto.scanHeader (slice c.buf 0 kHdrLen) with ⟨ok, tag, valueLen⟩
  dsimp only
  split_ifs with hok hlarge hfrag hret
  · refine .malformed (fun tag' valueLen' h ↦ ?_) rfl rfl (by simpa [RecvEvent.accesses] using hread)
    simp [(h.of_scan hscan).1] at hok
  · refine .malformed (fun tag' valueLen' h ↦ ?_) rfl rfl (by simpa using hread)
    obtain ⟨-, rfl, rfl⟩ := h.of_scan hscan
    exact ((headFrame_iff hc).mp h).2.1 hlarge
  · refine .fragmented (fun tag' valueLen' h ↦ ?_) rfl rfl (by simpa using hread)
    obtain ⟨-, rfl, rfl⟩ := h.of_scan hscan
    exact ((headFrame_iff hc).mp h).2.2 hfrag
  all_goals
    have hmod : (kHdrLen + valueLen.toNat) % 2 ^ 32 = kHdrLen + valueLen.toNat :=
      Nat.mod_eq_of_lt (by omega)
    obtain rfl : ok = true := by simpa using hok
    have hhead : HeadFrame e.proto c tag valueLen := (headFrame_iff hc).mpr ⟨hscan, hlarge, hfrag⟩
    have hlog : Within c ([.readHeader 0 kHdrLen] ++ debugLog e c tag valueLen ++
        (recvTLV e c tag valueLen.toNat kOffsetValue).events) := by
      rw [within_append, within_append, within_cons]
      refine ⟨⟨⟨hread, within_nil⟩, within_of_noAccess (debugLog_accesses e c tag valueLen)⟩, ?_⟩
      intro ev hev a ha
      rw [recvTLV_accesses e c tag valueLen hev a ha]
      exact hhead.whole
    obtain htlv | htlv | htlv := recvTLV_cases e c tag valueLen
  · obtain ⟨hrejects, hcmd, hchan⟩ := htlv
    exact .unpackable tag valueLen hhead hrejects (by rw [hcmd]) hchan hlog
  · rw [htlv.2.1] at hret
    cases hret
  · rw [htlv.2.1] at hret
    cases hret
  · rw [htlv.2.1] at hret
    exact absurd rfl hret
  · obtain ⟨haccepts, -, hchan⟩ := htlv
    obtain ⟨hagain, hconsume, hwithin, -⟩ := @processRemaining_eq Msg c hc _ hhead.whole
    rw [hchan, hmod]
    exact .consumed tag valueLen hhead haccepts hagain hconsume (within_append.mpr ⟨hlog, hwithin⟩)
  · obtain ⟨hcloses, -, hchan⟩ := htlv
    have hempty : c.close.2.1.len = 0 := by
      rw [close, if_pos hopen]
    refine .closed tag valueLen hhead hcloses ?_ ?_ <;>
      rw [hchan, hmod, processRemaining_of_closed hempty (by omega) (by omega)]
    · rfl
    · exact List.mem_append_right _ (List.mem_singleton_self _)

theorem recvStringPass_of_accepts {e : Endpoint Msg} {c : GepChannel} (hc : c.LenOk)
    (hopen : c.socket ≠ -1) {tag valueLen : UInt32} (head : HeadFrame e.proto c tag valueLen)
    (accepts : Accepts e c tag valueLen) :
    (recvStringPass e c).ret = .again ∧
      (recvStringPass e c).chan = c.consume (kHdrLen + valueLen.toNat) := by
  cases recvStringPass_cases e hc hopen (head.hdrLen_le hc) with
  | malformed noHead | fragmented noHead => exact absurd head (noHead _ _)
  | unpackable tag' valueLen' head' rejects =>
      obtain ⟨rfl, rfl⟩ := head.unique head'
      exact absurd rejects accepts.not_rejects
  | consumed tag' valueLen' head' _ ret chan =>
      obtain ⟨rfl, rfl⟩ := head.unique head'
      exact ⟨ret, chan⟩
  | closed tag' valueLen' head' closes =>
      obtain ⟨rfl, rfl⟩ := head.unique head'
      exact absurd closes accepts.not_closes

/-- A pass behind which the loop goes on has consumed a frame. -/
theorem recvStringPass_again {e : Endpoint Msg} {c : GepChannel} (hc : c.LenOk)
    (hopen : c.socket ≠ -1) (hhdr : kHdrLen ≤ toUnsigned 32 c.len)
    (h : (recvStringPass e c).ret = .again) :
    ∃ tag valueLen, HeadFrame e.proto c tag valueLen ∧ Accepts e c tag valueLen ∧
      (recvStringPass e c).chan = c.consume (kHdrLen + valueLen.toNat) := by
  cases recvStringPass_cases e hc hopen hhdr with
  | consumed tag valueLen head accepts _ chan => exact ⟨tag, valueLen, head, accepts, chan⟩
  | malformed _ ret | fragmented _ ret | unpackable _ _ _ _ ret | closed _ _ _ _ ret =>
      rw [ret] at h
      cases h

/-! ## The loop -/

/-- The channel at the beginning of each pass of the loop of `RecvString`. -/
def recvStringPasses (e : Endpoint Msg) (c : GepChannel) : List GepChannel :=
  if kHdrLen ≤ toUnsigned 32 c.len then
    if _h : (recvStringPass e c).ret = .again then c :: recvStringPasses e (recvStringPass e c).chan
    else [c]
  else []
termination_by toUnsigned 32 c.len
decreasing_by exact recvStringPass_shrinks _h

theorem recvString_events (e : Endpoint Msg) (c : GepChannel) :
    (recvString e c).events =
      (recvStringPasses e c).flatMap fun p ↦ (recvStringPass e p).events := by
  fun_induction recvString e c with
  | case1 c hhdr pass hagain ih =>
      rw [recvStringPasses, if_pos hhdr, dif_pos hagain, List.flatMap_cons, Recv.prepend_events, ih]
  | case2 c hhdr pass hstop =>
      rw [recvStringPasses, if_pos hhdr, dif_neg hstop, List.flatMap_singleton]
  | case3 c hhdr =>
      rw [recvStringPasses, if_neg hhdr]
      rfl

/-- What is left behind some frames at the head of the buffer, each of which
is dropped or whose callback leaves the channel alone. -/
inductive AfterFrames (e : Endpoint Msg) : GepChannel → GepChannel → Prop where
  | start (c : GepChannel) : AfterFrames e c c
  | next {c p : GepChannel} {tag valueLen : UInt32} (head : HeadFrame e.proto c tag valueLen)
      (accepts : Accepts e c tag valueLen)
      (h : AfterFrames e (c.consume (kHdrLen + valueLen.toNat)) p) : AfterFrames e c p

section Loop

variable {e : Endpoint Msg} {c p : GepChannel}

theorem AfterFrames.lenOk (h : AfterFrames e c p) (hc : c.LenOk) : p.LenOk := by
  induction h with
  | start => exact hc
  | next head _ _ ih => exact ih (consume_lenOk hc head.whole)

theorem AfterFrames.socket (h : AfterFrames e c p) : p.socket = c.socket := by
  induction h with
  | start => rfl
  | next _ _ _ ih => rw [ih, consume_socket]

/-- The loop goes on behind these frames. -/
theorem AfterFrames.recvString (h : AfterFrames e c p) (hc : c.LenOk) (hopen : c.socket ≠ -1) :
    ∃ log, GepChannel.recvString e c = (GepChannel.recvString e p).prepend log := by
  induction h with
  | start c => exact ⟨[], rfl⟩
  | @next c p tag valueLen head accepts _ ih =>
      obtain ⟨hagain, hchan⟩ := recvStringPass_of_accepts hc hopen head accepts
      obtain ⟨log, hlog⟩ := ih (consume_lenOk hc head.whole) (by rwa [consume_socket])
      refine ⟨(recvStringPass e c).events ++ log, ?_⟩
      rw [GepChannel.recvString]
      dsimp only
      rw [if_pos (head.hdrLen_le hc), dif_pos hagain, hchan, hlog]
      simp [Recv.prepend]

/-- Every pass begins behind such frames. -/
theorem mem_recvStringPasses (hc : c.LenOk) (hopen : c.socket ≠ -1)
    (h : p ∈ recvStringPasses e c) : AfterFrames e c p ∧ kHdrLen ≤ toUnsigned 32 p.len := by
  fun_induction recvStringPasses e c with
  | case1 c hhdr hagain ih =>
      rcases List.mem_cons.mp h with rfl | h
      · exact ⟨.start p, hhdr⟩
      obtain ⟨tag, valueLen, head, accepts, chan⟩ := recvStringPass_again hc hopen hhdr hagain
      rw [chan] at h ih
      have hrest := ih (consume_lenOk hc head.whole) (by rwa [consume_socket]) h
      exact ⟨.next head accepts hrest.1, hrest.2⟩
  | case2 c hhdr hstop =>
      obtain rfl := List.mem_singleton.mp h
      exact ⟨.start p, hhdr⟩
  | case3 c hhdr => cases h

theorem AfterFrames.mem_recvStringPasses (h : AfterFrames e c p) (hc : c.LenOk)
    (hopen : c.socket ≠ -1) (hhdr : kHdrLen ≤ toUnsigned 32 p.len) : p ∈ recvStringPasses e c := by
  induction h with
  | start c =>
      rw [recvStringPasses, if_pos hhdr]
      split <;> exact List.mem_cons_self
  | @next c p tag valueLen head accepts _ ih =>
      obtain ⟨hagain, hchan⟩ := recvStringPass_of_accepts hc hopen head accepts
      have hrest := ih (consume_lenOk hc head.whole) (by rwa [consume_socket]) hhdr
      rw [recvStringPasses, if_pos (head.hdrLen_le hc), dif_pos hagain, hchan]
      exact List.mem_cons_of_mem _ hrest

/-- The loop ends behind some frames, in a pass that returns or before one. -/
theorem exists_stop (e : Endpoint Msg) (hc : c.LenOk) (hopen : c.socket ≠ -1) :
    ∃ p, AfterFrames e c p ∧ (toUnsigned 32 p.len < kHdrLen ∨
      kHdrLen ≤ toUnsigned 32 p.len ∧ (recvStringPass e p).ret ≠ .again) := by
  induction c using recvStringPasses.induct e with
  | case1 c hhdr hagain ih =>
      obtain ⟨tag, valueLen, head, accepts, chan⟩ := recvStringPass_again hc hopen hhdr hagain
      rw [chan] at ih
      obtain ⟨p, hp, hstop⟩ := ih (consume_lenOk hc head.whole) (by rwa [consume_socket])
      exact ⟨p, .next head accepts hp, hstop⟩
  | case2 c hhdr hstop => exact ⟨c, .start c, .inr ⟨hhdr, hstop⟩⟩
  | case3 c hhdr => exact ⟨c, .start c, .inl (Nat.lt_of_not_le hhdr)⟩

end Loop

end GepChannel

end Libgep
