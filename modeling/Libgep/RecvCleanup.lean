import Libgep.RecvSafety

/-!
# Rejections and closing callbacks

What `RecvString` leaves behind when it rejects what it has received, and
when a callback closes the channel in the middle of the loop.
-/

namespace Libgep

open CInt FixedBuffer

variable {Msg : Type*}

namespace GepChannel

section Stop

variable {e : Endpoint Msg} {c p : GepChannel}

theorem recvString_of_stop (hhdr : kHdrLen ≤ toUnsigned 32 c.len)
    (hstop : (recvStringPass e c).ret ≠ .again) :
    recvString e c = ⟨(recvStringPass e c).ret.result, (recvStringPass e c).chan,
      (recvStringPass e c).events⟩ := by
  rw [recvString]
  dsimp only
  rw [if_pos hhdr, dif_neg hstop]

theorem recvString_of_lt (hhdr : toUnsigned 32 c.len < kHdrLen) :
    recvString e c = ⟨some (if c.len ≠ 0 then .cmdFragmented else .cmdOk), c, []⟩ := by
  rw [recvString]
  dsimp only
  rw [if_neg (Nat.not_le_of_lt hhdr)]

end Stop

/-! ## Rejections -/

/-- Whenever `RecvString` returns `CMD_ERROR`, the buffer is empty. -/
def RejectionClears (e : Endpoint Msg) (c : GepChannel) : Prop :=
  (recvString e c).ret = some .cmdError → (recvString e c).chan.len = 0

section Reject

variable {e : Endpoint Msg} {c p : GepChannel} {tag valueLen : UInt32}

/-- A value that does not unserialize stays in the buffer. -/
theorem recvString_of_rejects (hc : c.LenOk) (hopen : c.socket ≠ -1) (hp : AfterFrames e c p)
    (head : HeadFrame e.proto p tag valueLen) (rejects : Rejects e p tag valueLen) :
    (recvString e c).ret = some .cmdError ∧ (recvString e c).chan = p := by
  have hok := hp.lenOk hc
  obtain ⟨log, hlog⟩ := hp.recvString hc hopen
  rw [hlog, Recv.prepend_ret, Recv.prepend_chan]
  have hhdr := head.hdrLen_le hok
  cases recvStringPass_cases e hok (by rwa [hp.socket]) hhdr with
  | malformed noHead | fragmented noHead => exact absurd head (noHead _ _)
  | unpackable tag' valueLen' _ _ ret chan =>
      rw [recvString_of_stop hhdr (by rw [ret]; simp), ret]
      exact ⟨rfl, chan⟩
  | consumed tag' valueLen' head' accepts =>
      obtain ⟨rfl, rfl⟩ := head.unique head'
      exact absurd rejects accepts.not_rejects
  | closed tag' valueLen' head' closes =>
      obtain ⟨rfl, rfl⟩ := head.unique head'
      exact absurd closes rejects.not_closes

/-- A rejection empties the buffer, unless it is that of a complete frame
whose value does not unserialize. -/
theorem rejectionClears_iff (hc : c.LenOk) (hopen : c.socket ≠ -1) :
    RejectionClears e c ↔ ∀ p tag valueLen, AfterFrames e c p →
      HeadFrame e.proto p tag valueLen → ¬ Rejects e p tag valueLen := by
  constructor
  · intro hclears p tag valueLen hp head rejects
    obtain ⟨hret, hchan⟩ := recvString_of_rejects hc hopen hp head rejects
    have hempty := hclears hret
    have hwhole := head.whole
    have hhdrLen := kHdrLen_eq
    rw [hchan] at hempty
    omega
  · intro hgood hret
    obtain ⟨p, hp, hstop⟩ := exists_stop e hc hopen
    obtain ⟨log, hlog⟩ := hp.recvString hc hopen
    rw [hlog, Recv.prepend_ret] at hret
    rw [hlog, Recv.prepend_chan]
    rcases hstop with hshort | ⟨hhdr, hstop⟩
    · rw [recvString_of_lt hshort] at hret
      dsimp only at hret
      split at hret <;> cases hret
    rw [recvString_of_stop hhdr hstop] at hret ⊢
    cases recvStringPass_cases e (hp.lenOk hc) (by rwa [hp.socket]) hhdr with
    | malformed noHead ret chan =>
        dsimp only
        rw [chan]
    | fragmented noHead ret =>
        rw [ret] at hret
        cases hret
    | unpackable tag valueLen head rejects => exact absurd rejects (hgood p tag valueLen hp head)
    | consumed tag valueLen head accepts ret => exact absurd ret hstop
    | closed tag valueLen head closes ret =>
        rw [ret] at hret
        cases hret

end Reject

/-! ## Closing callbacks -/

/-- The loop ends and moves no more than it holds; once a callback has closed
the channel nothing is dispatched, and the channel is left closed and empty. -/
structure CloseSafe (e : Endpoint Msg) (c : GepChannel) : Prop where
  returns : (recvString e c).ret.isSome
  moves : ∀ p ∈ recvStringPasses e c, ∀ dst src n : ℕ,
    .memmove dst src n ∈ (recvStringPass e p).events → (n : ℤ) ≤ p.len
  last : (recvString e c).events.Pairwise fun x y ↦ x.closed.isSome → y.delivery = none
  closed : closedFds (recvString e c).events ≠ [] →
    (recvString e c).chan.socket = -1 ∧ (recvString e c).chan.len = 0

section Close

variable {e : Endpoint Msg} {c p : GepChannel} {tag valueLen : UInt32}

/-- A callback that closes the channel leads to a `memmove` out of the buffer. -/
theorem recvString_of_closes (hc : c.LenOk) (hopen : c.socket ≠ -1) (hp : AfterFrames e c p)
    (head : HeadFrame e.proto p tag valueLen) (closes : Closes e p tag valueLen) :
    (recvString e c).ret = none ∧
      .memmove 0 (kHdrLen + valueLen.toNat) (2 ^ 64 - (kHdrLen + valueLen.toNat)) ∈
        (recvString e c).events := by
  have hok := hp.lenOk hc
  obtain ⟨log, hlog⟩ := hp.recvString hc hopen
  rw [hlog, Recv.prepend_ret, Recv.prepend_events]
  have hhdr := head.hdrLen_le hok
  cases recvStringPass_cases e hok (by rwa [hp.socket]) hhdr with
  | malformed noHead | fragmented noHead => exact absurd head (noHead _ _)
  | unpackable tag' valueLen' head' rejects =>
      obtain ⟨rfl, rfl⟩ := head.unique head'
      exact absurd closes rejects.not_closes
  | consumed tag' valueLen' head' accepts =>
      obtain ⟨rfl, rfl⟩ := head.unique head'
      exact absurd closes accepts.not_closes
  | closed tag' valueLen' head' _ ret moves =>
      obtain ⟨rfl, rfl⟩ := head.unique head'
      rw [recvString_of_stop hhdr (by rw [ret]; simp), ret]
      exact ⟨rfl, List.mem_append_right _ moves⟩

theorem recvString_returns (hc : c.LenOk) (hopen : c.socket ≠ -1)
    (hkept : ∀ p tag valueLen, AfterFrames e c p → HeadFrame e.proto p tag valueLen →
      ¬ Closes e p tag valueLen) : ∃ r, (recvString e c).ret = some r := by
  obtain ⟨p, hp, hstop⟩ := exists_stop e hc hopen
  obtain ⟨log, hlog⟩ := hp.recvString hc hopen
  rw [hlog, Recv.prepend_ret]
  rcases hstop with hshort | ⟨hhdr, hstop⟩
  · rw [recvString_of_lt hshort]
    exact ⟨_, rfl⟩
  rw [recvString_of_stop hhdr hstop]
  cases recvStringPass_cases e (hp.lenOk hc) (by rwa [hp.socket]) hhdr with
  | malformed noHead ret | fragmented noHead ret | unpackable _ _ _ _ ret =>
      rw [ret]
      exact ⟨_, rfl⟩
  | consumed tag valueLen head accepts ret => exact absurd ret hstop
  | closed tag valueLen head closes => exact absurd closes (hkept p tag valueLen hp head)

/-- Closing the channel in a callback is never safe. -/
theorem closeSafe_iff (hc : c.LenOk) (hopen : c.socket ≠ -1) :
    CloseSafe e c ↔ ∀ p tag valueLen, AfterFrames e c p →
      HeadFrame e.proto p tag valueLen → ¬ Closes e p tag valueLen := by
  constructor
  · intro hsafe p tag valueLen hp head closes
    have hreturns := hsafe.returns
    rw [(recvString_of_closes hc hopen hp head closes).1] at hreturns
    cases hreturns
  · intro hkept
    obtain ⟨r, hr⟩ := recvString_returns hc hopen hkept
    have hsocket := recvString_socket hr
    have hnone : closedFds (recvString e c).events = [] := by
      rcases (recvString_socketKept e c).socket with ⟨-, hnone⟩ | ⟨-, hgone, -⟩
      · exact hnone
      · exact absurd (hsocket.symm.trans hgone) hopen
    refine ⟨by rw [hr]; rfl, ?_, ?_, fun hclosed ↦ absurd hnone hclosed⟩
    · intro p hp dst src n hmem
      obtain ⟨hafter, hhdr⟩ := mem_recvStringPasses hc hopen hp
      have hsafe := passSafe_of_not_closes (hafter.lenOk hc) (by rwa [hafter.socket]) hhdr
        fun tag valueLen ↦ hkept p tag valueLen hafter
      have hle := hsafe.within _ hmem (dst, n) (by simp [RecvEvent.accesses])
      dsimp only at hle
      omega
    · refine List.pairwise_of_forall_mem_list fun x hx y _ hclosed ↦ ?_
      have hopenEv := List.filterMap_eq_nil_iff.mp hnone x hx
      rw [hopenEv] at hclosed
      cases hclosed

end Close

end GepChannel

open GepChannel

namespace TestProtocol

/-- An open channel that has just received `bytes`. -/
def received (bytes : List UInt8) : GepChannel :=
  (GepChannel.new 0 5 (List.Vector.replicate kMaxMsgLen 0)).append bytes

theorem received_spec {bytes : List UInt8} (h : bytes.length ≤ kMaxMsgLen) :
    (received bytes).LenOk ∧ (received bytes).socket = 5 ∧
      (received bytes).len = bytes.length ∧ (received bytes).contents = bytes := by
  have hnew : (GepChannel.new 0 5 (List.Vector.replicate kMaxMsgLen 0)).LenOk :=
    ⟨le_rfl, Int.natCast_nonneg _⟩
  have hlen : (received bytes).len = bytes.length := by
    rw [received, append, GepChannel.new, zero_add]
  have hfit : (GepChannel.new 0 5 (List.Vector.replicate kMaxMsgLen 0)).len + bytes.length ≤
      kMaxMsgLen := by
    rw [GepChannel.new, zero_add]
    exact_mod_cast h
  have hcontents := contents_store hnew hfit
  rw [contents_new, List.nil_append] at hcontents
  exact ⟨⟨by omega, by omega⟩, rfl, hlen, hcontents⟩

/-- Whether the head of `bytes` is a frame is seen from the bytes alone. -/
theorem headFrame_received {bytes : List UInt8} {tag valueLen : UInt32}
    (hmax : bytes.length ≤ kMaxMsgLen) (hmagic : uint32 bytes = kMagic)
    (htag : uint32 (bytes.drop 4) = tag) (hlen : uint32 (bytes.drop 8) = valueLen)
    (hwhole : kHdrLen + valueLen.toNat ≤ bytes.length)
    (hlt : valueLen.toNat < kMaxMsgLen - kHdrLen) :
    HeadFrame proto (received bytes) tag valueLen ∧
      (received bytes).value valueLen = (bytes.drop kHdrLen).take valueLen.toNat := by
  obtain ⟨hok, -, hcount, hcontents⟩ := received_spec hmax
  have hunsigned := hok.toUnsigned_eq
  refine ⟨⟨?_, hlt, by omega⟩, ?_⟩
  · rw [scanHeader_slice proto hok (by omega), hcontents, hmagic, htag, hlen]
    rfl
  · have hslice : slice (received bytes).buf kHdrLen valueLen.toNat =
        ((received bytes).contents.drop kHdrLen).take valueLen.toNat :=
      slice_eq_contents (by omega)
    rwa [hcontents] at hslice

def command4Frame : List UInt8 :=
  [0x67, 0x65, 0x70, 0x70, 0x63, 0x6d, 0x64, 0x34, 0, 0, 0, 2, 8, 7]

/-- The same frame with a value that does not unserialize. -/
def garbledCommand4 : List UInt8 :=
  [0x67, 0x65, 0x70, 0x70, 0x63, 0x6d, 0x64, 0x34, 0, 0, 0, 2, 8, 0xff]

/-- Every tag of the protocol has a callback that closes the channel. -/
def closingEndpoint : Endpoint Message :=
  ⟨proto, fun tag ↦ (ops tag).map fun _ _ _ ↦ (1, .close), .warning⟩

end TestProtocol

open TestProtocol

/-- The rejected frame stays, and a good frame behind it is rejected too. -/
theorem not_rejectionClears_garbledCommand4 :
    (received garbledCommand4).LenOk ∧ (received garbledCommand4).socket = 5 ∧
      (recvString endpoint (received garbledCommand4)).chan.len = 14 ∧
      (recvData endpoint (recvString endpoint (received garbledCommand4)).chan
        (.data command4Frame)).ret = some (-1) ∧
      ¬ RejectionClears endpoint (received garbledCommand4) := by
  obtain ⟨hok, hsocket, hlen, hcontents⟩ :=
    @received_spec garbledCommand4 (by rw [kMaxMsgLen_eq]; decide)
  have hopen : (received garbledCommand4).socket ≠ -1 := by
    rw [hsocket]
    decide
  obtain ⟨head, hvalue⟩ := @headFrame_received garbledCommand4 (msgTag .command4) 2
    (by rw [kMaxMsgLen_eq]; decide) (by decide) (by decide) (by decide) (by decide) (by decide)
  have rejects : Rejects endpoint (received garbledCommand4) (msgTag .command4) 2 := by
    refine ⟨by decide, ?_⟩
    rw [hvalue]
    decide
  obtain ⟨hret, hchan⟩ := recvString_of_rejects hok hopen (.start _) head rejects
  have hparsed := recvData_parsed endpoint_callbacksKeep (by rw [hsocket]; decide) hok
    (show command4Frame ≠ [] by decide) (by rw [hlen, kMaxMsgLen_eq]; decide)
  refine ⟨hok, hsocket, by rw [hchan, hlen]; rfl, ?_, fun hclears ↦ ?_⟩
  · rw [hchan]
    rw [hcontents] at hparsed
    exact hparsed.failed (by decide)
  · have hzero := hclears hret
    rw [hchan, hlen] at hzero
    cases hzero

/-- The callback of a lone frame closes the channel. -/
theorem not_closeSafe_command4 :
    (received command4Frame).LenOk ∧ (received command4Frame).socket = 5 ∧
      .memmove 0 14 (2 ^ 64 - 14) ∈
        (recvString closingEndpoint (received command4Frame)).events ∧
      ¬ CloseSafe closingEndpoint (received command4Frame) := by
  obtain ⟨hok, hsocket, hlen, hcontents⟩ :=
    @received_spec command4Frame (by rw [kMaxMsgLen_eq]; decide)
  have hopen : (received command4Frame).socket ≠ -1 := by
    rw [hsocket]
    decide
  obtain ⟨head, hvalue⟩ := @headFrame_received command4Frame (msgTag .command4) 2
    (by rw [kMaxMsgLen_eq]; decide) (by decide) (by decide) (by decide) (by decide) (by decide)
  have closes : Closes closingEndpoint (received command4Frame) (msgTag .command4) 2 := by
    have hops : ops (msgTag .command4) = some fun _ _ ↦ (1, .keep) := if_pos (by decide)
    refine ⟨fun _ _ ↦ (1, .close), ⟨.command4, [8, 7]⟩, ?_, ?_, rfl⟩
    · simp only [closingEndpoint, hops, Option.map_some]
    · rw [hvalue]
      decide
  refine ⟨hok, hsocket, ?_, fun hsafe ↦ ?_⟩
  · exact (recvString_of_closes hok hopen (.start _) head closes).2
  · have hreturns := hsafe.returns
    rw [(recvString_of_closes hok hopen (.start _) head closes).1] at hreturns
    cases hreturns

theorem closeSafe_command4 : CloseSafe endpoint (received command4Frame) := by
  obtain ⟨hok, hsocket, -, -⟩ := @received_spec command4Frame (by rw [kMaxMsgLen_eq]; decide)
  refine (closeSafe_iff hok (by rw [hsocket]; decide)).mpr fun p tag valueLen _ _ ↦ ?_
  exact not_closes_of_callbacksKeep endpoint_callbacksKeep tag valueLen

/-- Twelve bytes without the magic. -/
def garbage : List UInt8 := List.replicate 12 0x78

theorem rejectionClears_garbage : RejectionClears endpoint (received garbage) := by
  obtain ⟨hok, hsocket, hlen, hcontents⟩ :=
    @received_spec garbage (by rw [kMaxMsgLen_eq]; decide)
  have hunsigned := hok.toUnsigned_eq
  have hhdr : kHdrLen ≤ toUnsigned 32 (received garbage).len := by
    rw [hlen]
    decide
  have hnoHead : ∀ tag valueLen, ¬ HeadFrame proto (received garbage) tag valueLen := by
    intro tag valueLen head
    have hheader := head.header
    rw [scanHeader_slice proto hok hhdr, hcontents, Prod.mk.injEq] at hheader
    exact absurd hheader.1 (by decide)
  refine (rejectionClears_iff hok (by rw [hsocket]; decide)).mpr ?_
  intro p tag valueLen hp head
  cases hp with
  | start => exact absurd head (hnoHead tag valueLen)
  | next head' => exact absurd head' (hnoHead _ _)

end Libgep
