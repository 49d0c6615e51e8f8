import Libgep.Channel
import Libgep.FullSend
import Libgep.TestProtocol

/-!
# The send path

`SendMessage` serializes a message and sends it as a frame: the header, and
then the value if there is one.  The lock of the socket is held throughout.
-/

namespace Libgep

open CInt

variable {Msg : Type*}

namespace GepChannel

def kGepSendTimeoutMs : ℤ := 5

def sendData (buf : List UInt8) (bytes : ℤ) (env : FullSendEnv) : Option SendOutcome :=
  fullSend buf bytes kGepSendTimeoutMs env

structure TLVEnv where
  header : FullSendEnv
  value : FullSendEnv

/-- `SendTLV`; the value is `none` for a null pointer. -/
def sendTLV (p : GepProtocol Msg) (tag : UInt32) (valueLen : ℤ) (value : Option (List UInt8))
    (env : TLVEnv) : Option SendOutcome :=
  let valueLen := if value.isNone then 0 else valueLen
  let hdrLen : ℤ := kHdrLen
  let buf := p.printHeader tag (.ofNat (toUnsigned 32 valueLen))
  (sendData buf hdrLen env.header).bind fun ret1 ↦
    if ret1.ret ≠ hdrLen then some ⟨-1, ret1.accepted, ret1.events⟩
    else if valueLen ≤ 0 then some ⟨0, ret1.accepted, ret1.events⟩
    else
      (sendData (value.getD []) valueLen env.value).map fun ret2 ↦
        ⟨if ret2.ret ≠ valueLen then -1 else 0, ret1.accepted ++ ret2.accepted,
          ret1.events ++ ret2.events⟩

/-- `SendString`: the length of the string is narrowed to an `int`. -/
def sendString (p : GepProtocol Msg) (tag : UInt32) (s : List UInt8) (env : TLVEnv) :
    Option SendOutcome :=
  sendTLV p tag (toSigned 32 s.length) (some s) env

def sendMessage (p : GepProtocol Msg) (msg : Msg) (env : TLVEnv) : Option SendOutcome :=
  match p.serialize msg with
  | none => some ⟨-1, [], []⟩
  | some s => sendString p (p.getTag msg) s env

/-! ## Frames -/

/-- The bytes `SendTLV` is asked to put on the wire. -/
def frame (p : GepProtocol Msg) (tag : UInt32) (valueLen : ℤ) (value : List UInt8) :
    List UInt8 :=
  p.printHeader tag (.ofNat (toUnsigned 32 valueLen)) ++ value.take valueLen.toNat

theorem frame_eq {p : GepProtocol Msg} {s : List UInt8} (tag : UInt32) :
    frame p tag s.length s = p.printHeader tag (.ofNat s.length) ++ s := by
  have hmod : UInt32.ofNat (s.length % 2 ^ 32) = .ofNat s.length := by
    apply UInt32.toNat_inj.mp
    simp
  rw [frame, toUnsigned_natCast, hmod, Int.toNat_natCast, List.take_length]

theorem toSigned_length {s : List UInt8} (h : s.length < 2 ^ 31) :
    toSigned 32 s.length = s.length :=
  toSigned_of_mem (by omega) (by omega) (by omega)

/-- What a `SendTLV` that returned has put on the wire: a prefix of its frame,
and the whole of it exactly when it returned `0`. -/
structure TLVSpec (frame : List UInt8) (o : SendOutcome) : Prop where
  ret : o.ret = 0 ∨ o.ret = -1
  accepted : o.accepted <+: frame
  whole : o.ret = 0 ↔ o.accepted = frame

theorem sendData_spec {buf : List UInt8} {bytes : ℤ} {env : FullSendEnv} {o : SendOutcome}
    (hpos : 0 < bytes) (hle : bytes ≤ buf.length) (h : sendData buf bytes env = some o) :
    o.accepted <+: buf.take bytes.toNat ∧ (o.ret = bytes ↔ o.accepted = buf.take bytes.toNat) :=
  (fullSend_spec hpos h).accepted_iff hle

theorem sendTLV_spec {p : GepProtocol Msg} {tag : UInt32} {valueLen : ℤ} {value : List UInt8}
    {env : TLVEnv} {o : SendOutcome} (hle : valueLen ≤ value.length)
    (h : sendTLV p tag valueLen (some value) env = some o) :
    TLVSpec (frame p tag valueLen value) o := by
  have hhdrLen := kHdrLen_eq
  unfold sendTLV at h
  simp only [Option.isNone_some, Bool.false_eq_true, if_false, Option.getD_some] at h
  unfold frame
  generalize hhdr : p.printHeader tag (.ofNat (toUnsigned 32 valueLen)) = hdr at h ⊢
  have hlen : hdr.length = kHdrLen := by rw [← hhdr, GepProtocol.length_printHeader]
  obtain ⟨o1, ho1, h⟩ := Option.bind_eq_some_iff.mp h
  obtain ⟨hprefix1, hwhole1⟩ := sendData_spec (by omega) (by omega) ho1
  rw [Int.toNat_natCast, ← hlen, List.take_length] at hprefix1 hwhole1
  rw [← hlen] at h
  by_cases hret1 : o1.ret = hdr.length
  swap
  · -- the header is incomplete: nothing of the value has been sent
    rw [if_pos hret1] at h
    cases h
    refine ⟨.inr rfl, hprefix1.trans (List.prefix_append _ _), by simp, ?_⟩
    intro hall
    have hfull : hdr <+: o1.accepted := by
      rw [show o1.accepted = _ from hall]
      exact List.prefix_append _ _
    exact absurd (hwhole1.mpr (hprefix1.eq_of_length_le hfull.length_le)) hret1
  rw [if_neg (not_not.mpr hret1), hwhole1.mp hret1] at h
  by_cases hvalue : valueLen ≤ 0
  · rw [if_pos hvalue] at h
    cases h
    have hnone : value.take valueLen.toNat = [] := by
      rw [Int.toNat_of_nonpos hvalue, List.take_zero]
    rw [hnone, List.append_nil]
    exact ⟨.inl rfl, List.prefix_rfl, by simp⟩
  · rw [if_neg hvalue] at h
    obtain ⟨o2, ho2, h⟩ := Option.map_eq_some_iff.mp h
    obtain ⟨hprefix2, hwhole2⟩ := sendData_spec (by omega) hle ho2
    subst h
    refine ⟨?_, (List.prefix_append_right_inj _).mpr hprefix2, ?_⟩
    · dsimp only
      split <;> simp
    · dsimp only
      rw [List.append_right_inj, ← hwhole2]
      split <;> simp_all

def TLVEnv.Succeeds (valueLen : ℤ) (env : TLVEnv) : Prop :=
  env.header.Succeeds kGepSendTimeoutMs kHdrLen ∧
    (0 < valueLen → env.value.Succeeds kGepSendTimeoutMs valueLen)

def TLVEnv.acceptAll : TLVEnv := ⟨.acceptAll, .acceptAll⟩

theorem TLVEnv.acceptAll_succeeds (valueLen : ℤ) : TLVEnv.acceptAll.Succeeds valueLen :=
  ⟨FullSendEnv.acceptAll_succeeds _ (by decide), FullSendEnv.acceptAll_succeeds _⟩

theorem sendTLV_of_succeeds {p : GepProtocol Msg} {tag : UInt32} {valueLen : ℤ}
    {value : List UInt8} {env : TLVEnv} (h : env.Succeeds valueLen) :
    ∃ o, sendTLV p tag valueLen (some value) env = some o ∧ o.ret = 0 := by
  obtain ⟨hheader, hvalue⟩ := h
  unfold sendTLV
  simp only [Option.isNone_some, Bool.false_eq_true, if_false, Option.getD_some]
  obtain ⟨o1, ho1, hret1⟩ :=
    fullSend_of_succeeds (p.printHeader tag (.ofNat (toUnsigned 32 valueLen))) hheader
  rw [sendData, ho1, Option.bind_some, if_neg (not_not.mpr hret1)]
  by_cases hpos : valueLen ≤ 0
  · rw [if_pos hpos]
    exact ⟨_, rfl, rfl⟩
  · obtain ⟨o2, ho2, hret2⟩ := fullSend_of_succeeds value (hvalue (by omega))
    rw [if_neg hpos, sendData, ho2, Option.map_some]
    exact ⟨_, rfl, if_neg (not_not.mpr hret2)⟩

/-- `FullSend` and `SendTLV` report exactly what the kernel has accepted. -/
theorem sends_report_accepted (p : GepProtocol Msg) :
    (∀ (buf : List UInt8) (timeoutMs : ℤ) (env : FullSendEnv) (o : SendOutcome), buf ≠ [] →
      fullSend buf buf.length timeoutMs env = some o →
        (o.ret = buf.length ∨ o.ret = 0 ∨ o.ret = -1 ∨ o.ret = -2) ∧ o.accepted <+: buf ∧
          (o.ret = buf.length ↔ o.accepted = buf)) ∧
      ∀ (tag : UInt32) (value : List UInt8) (env : TLVEnv) (o : SendOutcome),
        value.length < 2 ^ 31 → sendTLV p tag value.length (some value) env = some o →
          (o.ret = 0 ↔ o.accepted = p.printHeader tag (.ofNat value.length) ++ value) ∧
            (o.ret ≠ 0 → o.ret = -1 ∧
              o.accepted <+: p.printHeader tag (.ofNat value.length) ++ value ∧
              o.accepted ≠ p.printHeader tag (.ofNat value.length) ++ value) := by
  constructor
  · intro buf timeoutMs env o hne h
    have hpos : 0 < buf.length := List.length_pos_iff.mpr hne
    have hspec := fullSend_spec (by omega) h
    have haccepted := hspec.accepted_iff le_rfl
    rw [Int.toNat_natCast, List.take_length] at haccepted
    refine ⟨?_, haccepted⟩
    rcases hspec.ret with hsize | ⟨hge, hle⟩
    · exact .inl hsize
    · omega
  · intro tag value env o hlt h
    have hspec := sendTLV_spec le_rfl h
    rw [frame_eq] at hspec
    refine ⟨hspec.whole, fun hne ↦ ⟨?_, hspec.accepted, fun hall ↦ hne (hspec.whole.mpr hall)⟩⟩
    exact hspec.ret.resolve_left hne

/-- The kernel takes the header, and fails on the value. -/
def TLVEnv.resetOnValue : TLVEnv :=
  ⟨.acceptAll, 0, [⟨fun n ↦ ⟨-1, SendStep.neg_one_le n⟩, ebadf, 0, 0⟩]⟩

theorem sends_report_accepted_reset :
    ∃ o, sendTLV TestProtocol.proto 7 2 (some [8, 9]) .resetOnValue = some o ∧
      o.accepted = TestProtocol.proto.printHeader 7 2 ∧
      o.ret = -1 ∧ o.accepted <+: TestProtocol.proto.printHeader 7 2 ++ [8, 9] ∧
      o.accepted ≠ TestProtocol.proto.printHeader 7 2 ++ [8, 9] := by
  obtain ⟨o, ho, hret, haccepted⟩ :
      ∃ o, sendTLV TestProtocol.proto 7 2 (some [8, 9]) .resetOnValue = some o ∧ o.ret ≠ 0 ∧
        o.accepted = TestProtocol.proto.printHeader 7 2 := ⟨_, rfl, by decide, by decide⟩
  have hsent := (sends_report_accepted TestProtocol.proto).2 7 [8, 9] .resetOnValue o (by decide) ho
  exact ⟨o, ho, haccepted, hsent.2 hret⟩

end GepChannel

end Libgep
