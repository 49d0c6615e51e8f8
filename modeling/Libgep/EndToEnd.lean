import Libgep.RecvRefinement
import Libgep.Send

/-!
# From the sender to the receiver

What the send path writes, the receive path reads: frames that are not too
long come out as the messages that went in, whatever way the sends and the
receives cut the stream between them.
-/

namespace Libgep

open CInt StreamParser GepChannel

variable {Msg : Type*} {p : GepProtocol Msg} {e : Endpoint Msg}

/-! ## Frames on the wire -/

theorem frameLook_printHeader (hmagic : p.magic = e.proto.magic) (tag valueLen : UInt32)
    (rest : List UInt8) :
    frameLook e (p.printHeader tag valueLen ++ rest) =
      if kMaxMsgLen - kHdrLen ≤ valueLen.toNat then .fail
      else if rest.length < valueLen.toNat then .wait
      else frameVerdict e tag (rest.take valueLen.toNat) (rest.drop valueLen.toNat) := by
  have hscan := e.proto.scanHeader_printHeader p tag valueLen rest
  simp only [GepProtocol.scanHeader, Prod.mk.injEq] at hscan
  obtain ⟨hword, htag, hlen⟩ := hscan
  rw [hmagic, beq_self_eq_true, beq_iff_eq] at hword
  have hhdr := p.length_printHeader tag valueLen
  have hdrop : ∀ n, (p.printHeader tag valueLen ++ rest).drop (kHdrLen + n) = rest.drop n := by
    intro n
    rw [← hhdr, List.drop_length_add_append]
  have hvalue := hdrop 0
  rw [Nat.add_zero, List.drop_zero] at hvalue
  unfold frameLook
  rw [if_neg (by rw [List.length_append]; omega)]
  simp only [kOffsetMagic, kOffsetTag, kOffsetLen, List.drop_zero] at hword htag hlen
  dsimp only
  rw [hword, htag, hlen, hdrop, hvalue]
  simp only [ne_eq, not_true_eq_false, false_or, List.length_append, hhdr,
    Nat.add_lt_add_iff_left]

theorem toNat_ofNat_length {s : List UInt8} (h : s.length < 2 ^ 32) :
    (UInt32.ofNat s.length).toNat = s.length := by
  rw [UInt32.toNat_ofNat', Nat.mod_eq_of_lt h]

theorem frameLook_frame (hmagic : p.magic = e.proto.magic) (tag : UInt32) {s : List UInt8}
    (hshort : s.length < kMaxMsgLen - kHdrLen) (rest : List UInt8) :
    frameLook e (frame p tag s.length s ++ rest) = frameVerdict e tag s rest := by
  have hmaxLen := kMaxMsgLen_eq
  rw [frame_eq, List.append_assoc, frameLook_printHeader hmagic,
    toNat_ofNat_length (by omega), if_neg (by omega),
    if_neg (by rw [List.length_append]; omega), List.take_left, List.drop_left]

/-! ## Messages both ends agree on -/

/-- The sender serializes `msg` as `s`; the receiver has a callback for its
tag, and unserializes `s` into `msg` again. -/
structure Exchangeable (p : GepProtocol Msg) (e : Endpoint Msg) (msg : Msg)
    (s : List UInt8) : Prop where
  serialize : p.serialize msg = some s
  supported : (e.ops (p.getTag msg)).isSome
  unserialize : e.proto.unserialize s (e.proto.getMessage (p.getTag msg)) = some msg

theorem Exchangeable.frameVerdict_eq {msg : Msg} {s : List UInt8} (h : Exchangeable p e msg s)
    (rest : List UInt8) :
    frameVerdict e (p.getTag msg) s rest = .emit [⟨p.getTag msg, s, msg⟩] rest := by
  obtain ⟨callback, hops⟩ := Option.isSome_iff_exists.mp h.supported
  simp only [frameVerdict, hops, h.unserialize]

/-- A message sent, its serialized value, and the answers of the environment. -/
structure Sending (Msg : Type*) where
  msg : Msg
  value : List UInt8
  env : TLVEnv

def Sending.frame (p : GepProtocol Msg) (m : Sending Msg) : List UInt8 :=
  GepChannel.frame p (p.getTag m.msg) m.value.length m.value

def Sending.delivery (p : GepProtocol Msg) (m : Sending Msg) : Delivery Msg :=
  ⟨p.getTag m.msg, m.value, m.msg⟩

/-- A message within the size limit that both ends agree on. -/
structure Sending.Ok (p : GepProtocol Msg) (e : Endpoint Msg) (m : Sending Msg) : Prop where
  exchangeable : Exchangeable p e m.msg m.value
  short : m.value.length < kMaxMsgLen - kHdrLen

instance decidableOk [DecidableEq Msg] (p : GepProtocol Msg) (e : Endpoint Msg) (m : Sending Msg) :
    Decidable (m.Ok p e) :=
  decidable_of_iff
    (p.serialize m.msg = some m.value ∧ (e.ops (p.getTag m.msg)).isSome ∧
      e.proto.unserialize m.value (e.proto.getMessage (p.getTag m.msg)) = some m.msg ∧
      m.value.length < kMaxMsgLen - kHdrLen)
    ⟨fun h ↦ ⟨⟨h.1, h.2.1, h.2.2.1⟩, h.2.2.2⟩,
      fun h ↦ ⟨h.exchangeable.serialize, h.exchangeable.supported, h.exchangeable.unserialize,
        h.short⟩⟩

theorem Sending.Ok.look {m : Sending Msg} (h : m.Ok p e) (hmagic : p.magic = e.proto.magic)
    (rest : List UInt8) : frameLook e (m.frame p ++ rest) = .emit [m.delivery p] rest := by
  rw [Sending.frame, frameLook_frame hmagic _ h.short, h.exchangeable.frameVerdict_eq]
  rfl

theorem parse_frames (hmagic : p.magic = e.proto.magic) {ms : List (Sending Msg)}
    (hok : ∀ m ∈ ms, m.Ok p e) (rest : List UInt8) :
    parse e (ms.flatMap (Sending.frame p) ++ rest) =
      (parse e rest).after (ms.map (Sending.delivery p)) := by
  induction ms with
  | nil => simp
  | cons m ms ih =>
      obtain ⟨hm, hms⟩ := List.forall_mem_cons.mp hok
      rw [List.flatMap_cons, List.append_assoc, parse, run_emit _ (hm.look hmagic _)]
      change (parse e _).after _ = _
      rw [ih hms, Outcome.after_after]
      rfl

theorem parse_nil (e : Endpoint Msg) : parse e [] = ⟨[], some []⟩ := run_wait _ rfl

theorem Sending.Ok.tlvSpec {m : Sending Msg} (h : m.Ok p e) {o : SendOutcome}
    (ho : sendMessage p m.msg m.env = some o) : TLVSpec (m.frame p) o := by
  have hmaxLen := kMaxMsgLen_eq
  have hshort := h.short
  rw [sendMessage, h.exchangeable.serialize] at ho
  dsimp only at ho
  rw [sendString, toSigned_length (by omega)] at ho
  exact sendTLV_spec le_rfl ho

/-! ## The round trip -/

def Sending.Succeeds (m : Sending Msg) : Prop := m.env.Succeeds (toSigned 32 m.value.length)

theorem Sending.Ok.sendMessage_eq {m : Sending Msg} (h : m.Ok p e) (hsend : m.Succeeds) :
    ∃ o, sendMessage p m.msg m.env = some o ∧ o.ret = 0 ∧ o.accepted = m.frame p := by
  obtain ⟨o, ho, hret⟩ : ∃ o, sendMessage p m.msg m.env = some o ∧ o.ret = 0 := by
    rw [sendMessage, h.exchangeable.serialize]
    exact sendTLV_of_succeeds hsend
  exact ⟨o, ho, hret, (h.tlvSpec ho).whole.mp hret⟩

def sendAll (p : GepProtocol Msg) (ms : List (Sending Msg)) : Option (List SendOutcome) :=
  ms.mapM fun m ↦ sendMessage p m.msg m.env

def wire (outs : List SendOutcome) : List UInt8 := outs.flatMap SendOutcome.accepted

theorem sendAll_eq {ms : List (Sending Msg)} (hok : ∀ m ∈ ms, m.Ok p e)
    (hsend : ∀ m ∈ ms, m.Succeeds) :
    ∃ outs, sendAll p ms = some outs ∧ (∀ o ∈ outs, o.ret = 0) ∧
      wire outs = ms.flatMap (Sending.frame p) := by
  induction ms with
  | nil => exact ⟨[], rfl, by simp, rfl⟩
  | cons m ms ih =>
      obtain ⟨hm, hms⟩ := List.forall_mem_cons.mp hok
      obtain ⟨hs, hss⟩ := List.forall_mem_cons.mp hsend
      obtain ⟨o, ho, hret, haccepted⟩ := hm.sendMessage_eq hs
      obtain ⟨outs, houts, hrets, hwire⟩ := ih hms hss
      refine ⟨o :: outs, ?_, List.forall_mem_cons.mpr ⟨hret, hrets⟩, ?_⟩
      · rw [sendAll] at houts ⊢
        rw [List.mapM_cons, ho, houts]
        rfl
      · rw [wire] at hwire ⊢
        rw [List.flatMap_cons, List.flatMap_cons, haccepted, hwire]

/-- A stream of whole frames is received without an error or a remainder. -/
theorem recvAll_frames (hmagic : p.magic = e.proto.magic) (hk : e.CallbacksKeep)
    {ms : List (Sending Msg)} (hok : ∀ m ∈ ms, m.Ok p e) {c : GepChannel}
    {chunks : List (List UInt8)} (hsocket : 0 ≤ c.socket) (hlen : c.len = 0)
    (hfit : ChunksFit e c chunks) (hflat : chunks.flatten = ms.flatMap (Sending.frame p)) :
    (recvAll e c chunks).ret = some 0 ∧
      dispatched (recvAll e c chunks).events = ms.map (Sending.delivery p) ∧
      (recvAll e c chunks).chan.len = 0 := by
  have hparse : parse e chunks.flatten = ⟨ms.map (Sending.delivery p), some []⟩ := by
    have hframes := parse_frames hmagic hok []
    rw [List.append_nil] at hframes
    rw [hflat, hframes, parse_nil]
    simp [Outcome.after]
  have hparsed := recvAll_parsed_of_empty hk hsocket hlen hfit
  rw [hparse] at hparsed
  obtain ⟨hret, hle, hempty⟩ := hparsed.kept [] rfl
  refine ⟨hret, hparsed.events, ?_⟩
  rw [← GepChannel.length_contents hle.1 hle.2, hempty]
  rfl

/-- Messages that both ends agree on, sent one after the other without a
failure, reach the callbacks of the peer once each and in order, and leave
nothing behind in its buffer. -/
theorem roundTrip (hmagic : p.magic = e.proto.magic) (hk : e.CallbacksKeep)
    (ms : List (Sending Msg)) (hok : ∀ m ∈ ms, m.Ok p e) (hsend : ∀ m ∈ ms, m.Succeeds) :
    ∃ outs, sendAll p ms = some outs ∧ (∀ o ∈ outs, o.ret = 0) ∧
      ∀ (c : GepChannel) (chunks : List (List UInt8)), 0 ≤ c.socket → c.len = 0 →
        ChunksFit e c chunks → chunks.flatten = wire outs →
          (recvAll e c chunks).ret = some 0 ∧
            dispatched (recvAll e c chunks).events = ms.map (Sending.delivery p) ∧
            (recvAll e c chunks).chan.len = 0 := by
  obtain ⟨outs, houts, hrets, hwire⟩ := sendAll_eq hok hsend
  refine ⟨outs, houts, hrets, fun c chunks hsocket hlen hfit hflat ↦ ?_⟩
  exact recvAll_frames hmagic hk hok hsocket hlen hfit (hflat.trans hwire)

theorem roundTrip_command4 :
    ∃ outs, sendAll TestProtocol.proto
        [⟨⟨.command4, [8, 7]⟩, [8, 7], .acceptAll⟩, ⟨⟨.command4, []⟩, [], .acceptAll⟩] =
        some outs ∧ ∀ o ∈ outs, o.ret = 0 := by
  have hok : ∀ m ∈ ([⟨⟨.command4, [8, 7]⟩, [8, 7], .acceptAll⟩,
      ⟨⟨.command4, []⟩, [], .acceptAll⟩] : List (Sending TestProtocol.Message)),
      m.Ok TestProtocol.proto TestProtocol.endpoint := by
    simp only [List.forall_mem_cons]
    exact ⟨⟨⟨rfl, by decide, rfl⟩, by decide⟩, ⟨⟨rfl, by decide, rfl⟩, by decide⟩, by simp⟩
  obtain ⟨outs, houts, hrets, -⟩ := roundTrip rfl TestProtocol.endpoint_callbacksKeep _ hok
    fun m hm ↦ by
      simp only [List.mem_cons, List.not_mem_nil, or_false] at hm
      rcases hm with rfl | rfl <;> exact TLVEnv.acceptAll_succeeds _
  exact ⟨outs, houts, hrets⟩

/-! ## The size limit -/

/-- Sender, receiver and the documented limit agree on the serialized message
`s`: sending succeeds up to `kMaxMsgLen` bytes with the header, the peer
accepts whatever was sent successfully, and the header tells its length. -/
structure SizesAgree (p : GepProtocol Msg) (e : Endpoint Msg) (msg : Msg) (s : List UInt8)
    (o : SendOutcome) : Prop where
  limit : o.ret = 0 ↔ kHdrLen + s.length ≤ kMaxMsgLen
  delivered : o.ret = 0 → ∀ (c : GepChannel) (chunks : List (List UInt8)),
    0 ≤ c.socket → c.len = 0 → ChunksFit e c chunks → chunks.flatten = o.accepted →
      (recvAll e c chunks).ret = some 0 ∧
        dispatched (recvAll e c chunks).events = [⟨p.getTag msg, s, msg⟩]
  header : (uint32 (o.accepted.drop kOffsetLen)).toNat = (o.accepted.drop kOffsetValue).length

section Limit

variable {msg : Msg} {s : List UInt8} {env : TLVEnv} {o : SendOutcome}

theorem sendMessage_of_succeeds (hx : Exchangeable p e msg s)
    (hsend : env.Succeeds (toSigned 32 s.length)) :
    ∃ o, sendMessage p msg env = some o ∧ o.ret = 0 := by
  rw [sendMessage, hx.serialize]
  exact sendTLV_of_succeeds hsend

theorem accepted_of_ret_zero (hx : Exchangeable p e msg s) (hlt : s.length < 2 ^ 31)
    (ho : sendMessage p msg env = some o) (hret : o.ret = 0) :
    o.accepted = p.printHeader (p.getTag msg) (.ofNat s.length) ++ s := by
  rw [sendMessage, hx.serialize] at ho
  dsimp only at ho
  rw [sendString, toSigned_length hlt] at ho
  rw [(sendTLV_spec le_rfl ho).whole.mp hret, frame_eq]

/-- A frame of exactly `kMaxMsgLen` bytes fits into the buffer of the peer,
which rejects it. -/
theorem recvAll_limit_frame (hmagic : p.magic = e.proto.magic) (hk : e.CallbacksKeep)
    {c : GepChannel} (hsocket : 0 ≤ c.socket) (hlen : c.len = 0) (tag : UInt32)
    (hs : kHdrLen + s.length = kMaxMsgLen) :
    ChunksFit e c [p.printHeader tag (.ofNat s.length) ++ s] ∧
      (recvAll e c [p.printHeader tag (.ofNat s.length) ++ s]).ret = some (-1) := by
  have hmaxLen := kMaxMsgLen_eq
  have hhdrLen := kHdrLen_eq
  have hhdr := p.length_printHeader tag (.ofNat s.length)
  have hc : c.LenOk := ⟨hlen.ge, by omega⟩
  have hfit : ChunksFit e c [p.printHeader tag (.ofNat s.length) ++ s] := by
    apply chunksFit_of_length_le hk hsocket hc
    · rintro chunk hchunk rfl
      simp [← List.length_eq_zero_iff, hhdr, hhdrLen] at hchunk
    · simp only [List.flatten_cons, List.flatten_nil, List.append_nil, List.length_append]
      omega
  have hlook : frameLook e ([p.printHeader tag (.ofNat s.length) ++ s].flatten) = .fail := by
    rw [List.flatten_cons, List.flatten_nil, List.append_nil, frameLook_printHeader hmagic,
      toNat_ofNat_length (by omega), if_pos (by omega)]
  have hparsed := recvAll_parsed_of_empty hk hsocket hlen hfit
  rw [parse, run_fail _ hlook] at hparsed
  exact ⟨hfit, hparsed.failed rfl⟩

theorem not_sizesAgree (hmagic : p.magic = e.proto.magic) (hk : e.CallbacksKeep)
    (hx : Exchangeable p e msg s) (hsend : env.Succeeds (toSigned 32 s.length))
    (hlong : kMaxMsgLen ≤ kHdrLen + s.length) :
    ¬ ∃ o, sendMessage p msg env = some o ∧ SizesAgree p e msg s o := by
  rintro ⟨o, ho, hagree⟩
  have hmaxLen := kMaxMsgLen_eq
  obtain ⟨o', ho', hret⟩ := sendMessage_of_succeeds hx hsend
  obtain rfl : o' = o := Option.some.inj (ho'.symm.trans ho)
  have hlimit := hagree.limit.mp hret
  have haccepted := accepted_of_ret_zero hx (by omega) ho hret
  generalize hnew : GepChannel.new 0 0 (List.Vector.replicate kMaxMsgLen 0) = c
  have hsocket : 0 ≤ c.socket := by
    rw [← hnew, GepChannel.new]
  have hlen : c.len = 0 := by
    rw [← hnew, GepChannel.new]
  have hs : kHdrLen + s.length = kMaxMsgLen := by omega
  obtain ⟨hfit, hrejected⟩ := recvAll_limit_frame hmagic hk hsocket hlen (p.getTag msg) hs
  obtain ⟨hzero, -⟩ := hagree.delivered hret c _ hsocket hlen hfit (by simp [haccepted])
  rw [hrejected] at hzero
  simp at hzero

theorem sizesAgree_of_short (hmagic : p.magic = e.proto.magic) (hk : e.CallbacksKeep)
    (hx : Exchangeable p e msg s) (hsend : env.Succeeds (toSigned 32 s.length))
    (hshort : kHdrLen + s.length < kMaxMsgLen) :
    ∃ o, sendMessage p msg env = some o ∧ SizesAgree p e msg s o := by
  have hmaxLen := kMaxMsgLen_eq
  obtain ⟨o, ho, hret⟩ := sendMessage_of_succeeds hx hsend
  have haccepted := accepted_of_ret_zero hx (by omega) ho hret
  refine ⟨o, ho, iff_of_true hret hshort.le, fun _ c chunks hsocket hlen hfit hflat ↦ ?_, ?_⟩
  · have hok : ∀ m ∈ [(⟨msg, s, env⟩ : Sending Msg)], m.Ok p e := by
      simp only [List.mem_singleton, forall_eq]
      exact ⟨hx, show s.length < kMaxMsgLen - kHdrLen by omega⟩
    obtain ⟨hzero, hdispatched, -⟩ := recvAll_frames hmagic hk hok hsocket hlen hfit
      (by simp [hflat, haccepted, Sending.frame, frame_eq])
    exact ⟨hzero, hdispatched⟩
  · have hscan := p.scanHeader_printHeader p (p.getTag msg) (.ofNat s.length) s
    simp only [GepProtocol.scanHeader, Prod.mk.injEq] at hscan
    have hvalue : (p.printHeader (p.getTag msg) (.ofNat s.length) ++ s).drop kOffsetValue = s :=
      List.drop_left' (p.length_printHeader _ _)
    rw [haccepted, hscan.2.2, toNat_ofNat_length (by omega), hvalue]

/-- The ends agree on the size of a message exactly below the limit.  At the
limit the receiver rejects what the sender sent; above it the sender, which
checks nothing, reports a success. -/
theorem sizesAgree_iff (hmagic : p.magic = e.proto.magic) (hk : e.CallbacksKeep)
    (hx : Exchangeable p e msg s) (hsend : env.Succeeds (toSigned 32 s.length)) :
    (∃ o, sendMessage p msg env = some o ∧ SizesAgree p e msg s o) ↔
      kHdrLen + s.length < kMaxMsgLen := by
  constructor
  · intro hagree
    by_contra hlong
    exact not_sizesAgree hmagic hk hx hsend (Nat.le_of_not_lt hlong) hagree
  · exact sizesAgree_of_short hmagic hk hx hsend

end Limit

theorem sizesAgree_iff_command4 :
    (∃ o, sendMessage TestProtocol.proto ⟨.command4, [8, 7]⟩ .acceptAll = some o ∧
      SizesAgree TestProtocol.proto TestProtocol.endpoint ⟨.command4, [8, 7]⟩ [8, 7] o) ↔
      kHdrLen + 2 < kMaxMsgLen :=
  sizesAgree_iff rfl TestProtocol.endpoint_callbacksKeep ⟨rfl, by decide, rfl⟩
    (TLVEnv.acceptAll_succeeds _)

/-- A `Command4` with an unknown field of `1048560` bytes `data`, which fills
up `kMaxMsgLen` exactly. -/
def limitCommand4 (data : List UInt8) : TestProtocol.Message :=
  ⟨.command4, 18 :: 240 :: 255 :: 63 :: data⟩

theorem limitCommand4_exchangeable {data : List UInt8} (h : data.length = 1048560) :
    Exchangeable TestProtocol.proto TestProtocol.endpoint (limitCommand4 data)
      (limitCommand4 data).fields := by
  have hwell : TestProtocol.wellFormed (18 :: 240 :: 255 :: 63 :: data) = true := by
    rw [TestProtocol.wellFormed, h]
    decide
  refine ⟨rfl, rfl, ?_⟩
  simp only [limitCommand4, GepProtocol.unserialize, TestProtocol.endpoint, TestProtocol.proto,
    TestProtocol.protobuf, hwell]
  rfl

theorem not_sizesAgree_of_length {data : List UInt8} (h : data.length = 1048560) :
    ¬ ∃ o, sendMessage TestProtocol.proto (limitCommand4 data) .acceptAll = some o ∧
      SizesAgree TestProtocol.proto TestProtocol.endpoint (limitCommand4 data)
        (limitCommand4 data).fields o := by
  apply not_sizesAgree rfl TestProtocol.endpoint_callbacksKeep (limitCommand4_exchangeable h)
    (TLVEnv.acceptAll_succeeds _)
  have hlen : (limitCommand4 data).fields.length = 1048564 := by
    simp only [limitCommand4, List.length_cons, h]
  rw [hlen]
  decide

/-- A message that fills up the documented maximum is sent with success and
then rejected. -/
theorem not_sizesAgree_limitCommand4 :
    Exchangeable TestProtocol.proto TestProtocol.endpoint
        (limitCommand4 (List.replicate 1048560 0))
        (limitCommand4 (List.replicate 1048560 0)).fields ∧
      TLVEnv.acceptAll.Succeeds
        (toSigned 32 (limitCommand4 (List.replicate 1048560 0)).fields.length) ∧
      ¬ ∃ o, sendMessage TestProtocol.proto (limitCommand4 (List.replicate 1048560 0))
          .acceptAll = some o ∧
        SizesAgree TestProtocol.proto TestProtocol.endpoint
          (limitCommand4 (List.replicate 1048560 0))
          (limitCommand4 (List.replicate 1048560 0)).fields o :=
  ⟨limitCommand4_exchangeable List.length_replicate, TLVEnv.acceptAll_succeeds _,
    not_sizesAgree_of_length List.length_replicate⟩

end Libgep
