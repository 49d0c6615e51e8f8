import Libgep.Lib.Transition
import Libgep.RecvPasses

/-!
# The receive buffer neither jams nor overruns

A channel whose callbacks leave it alone is fed by any number of `RecvData`
calls.  Between the calls there is always room in `buf_`, and within a call
the loop stays inside of what has been received.
-/

namespace Libgep

open CInt FixedBuffer Transition

variable {Msg : Type*}

namespace GepChannel

/-- The calls of `RecvData` on a channel that is dropped after the first
negative result; a label is what the call receives. -/
def recvMachine (e : Endpoint Msg) (c : GepChannel) :
    Machine GepChannel (List UInt8) (RecvEvent Msg) where
  init := c
  step c bytes :=
    if bytes ≠ [] ∧ bytes.length ≤ kMaxMsgLen - toUnsigned 64 c.len then
      let r := recvData e c (.data bytes)
      match r.ret with
      | none => none
      | some ret => if 0 ≤ ret then some (r.chan, r.events) else none
    else none

/-- What a pass of the loop keeps to, with `c` as it is when it begins. -/
structure PassSafe (e : Endpoint Msg) (c : GepChannel) : Prop where
  len : c.LenOk
  defined : (recvStringPass e c).ret ≠ .undefined
  within : Within c (recvStringPass e c).events
  msgLen : ∀ tag valueLen, e.proto.scanHeader (slice c.buf 0 kHdrLen) = (true, tag, valueLen) →
    valueLen.toNat < kMaxMsgLen - kHdrLen →
      (kHdrLen + valueLen.toNat) % 2 ^ 32 = kHdrLen + valueLen.toNat
  remain : (recvStringPass e c).ret = .again → 0 ≤ (recvStringPass e c).chan.len

section Pass

variable {e : Endpoint Msg} {c p : GepChannel}

theorem not_closes_of_callbacksKeep (hk : e.CallbacksKeep) (tag valueLen : UInt32) :
    ¬ Closes e c tag valueLen := by
  rintro ⟨callback, msg, hops, -, hclose⟩
  rw [hk tag callback hops msg c] at hclose
  cases hclose

theorem passSafe_of_not_closes (hc : c.LenOk) (hopen : c.socket ≠ -1)
    (hhdr : kHdrLen ≤ toUnsigned 32 c.len)
    (hcloses : ∀ tag valueLen, HeadFrame e.proto c tag valueLen → ¬ Closes e c tag valueLen) :
    PassSafe e c := by
  have hmsgLen : ∀ valueLen : UInt32, valueLen.toNat < kMaxMsgLen - kHdrLen →
      (kHdrLen + valueLen.toNat) % 2 ^ 32 = kHdrLen + valueLen.toNat := by
    intro valueLen hlt
    have hmaxLen := kMaxMsgLen_eq
    exact Nat.mod_eq_of_lt (by omega)
  cases recvStringPass_cases e hc hopen hhdr with
  | malformed noHead ret chan within | fragmented noHead ret chan within
  | unpackable _ _ _ _ ret chan within =>
      exact ⟨hc, by simp [ret], within, fun _ valueLen _ ↦ hmsgLen valueLen, by simp [ret]⟩
  | consumed tag valueLen head accepts ret chan within =>
      refine ⟨hc, by simp [ret], within, fun _ valueLen _ ↦ hmsgLen valueLen, fun _ ↦ ?_⟩
      rw [chan]
      exact (consume_lenOk hc head.whole).1
  | closed tag valueLen head closes => exact absurd closes (hcloses tag valueLen head)

/-- Every pass consumes at least a header. -/
theorem length_recvStringPasses (e : Endpoint Msg) (hc : c.LenOk) (hopen : c.socket ≠ -1) :
    ((kHdrLen * (recvStringPasses e c).length : ℕ) : ℤ) ≤ c.len := by
  have hhdrLen := kHdrLen_eq
  have hlen := hc.toUnsigned_eq
  fun_induction recvStringPasses e c with
  | case1 c hhdr hagain ih =>
      obtain ⟨tag, valueLen, head, _, chan⟩ := recvStringPass_again hc hopen hhdr hagain
      rw [chan] at ih ⊢
      have hrest := consume_lenOk hc head.whole
      have hpasses := ih hrest (by rwa [consume_socket]) hrest.toUnsigned_eq
      rw [consume_len] at hpasses
      rw [List.length_cons, Nat.mul_succ]
      omega
  | case2 c hhdr hstop =>
      rw [List.length_singleton]
      omega
  | case3 c hhdr =>
      rw [List.length_nil]
      exact hc.1

end Pass

/-! ## Sequences of receives -/

section Machine

variable {e : Endpoint Msg} {c c' : GepChannel} {bytes : List UInt8} {es : List (RecvEvent Msg)}

theorem recvMachine_spec {c₀ : GepChannel} (h : (recvMachine e c₀).step c bytes = some (c', es)) :
    bytes ≠ [] ∧ bytes.length ≤ kMaxMsgLen - toUnsigned 64 c.len ∧
      ∃ ret, (recvData e c (.data bytes)).ret = some ret ∧ 0 ≤ ret ∧
        c' = (recvData e c (.data bytes)).chan := by
  simp only [recvMachine] at h
  split_ifs at h with hbytes
  split at h
  · cases h
  · rename_i ret hret
    split_ifs at h with hnonneg
    cases h
    exact ⟨hbytes.1, hbytes.2, ret, hret, hnonneg, rfl⟩

theorem LenOk.toUnsigned_64_eq (hc : c.LenOk) : (toUnsigned 64 c.len : ℤ) = c.len := by
  have hmaxLen := kMaxMsgLen_eq
  have hle := hc.2
  rw [toUnsigned_of_lt hc.1 (by omega), Int.toNat_of_nonneg hc.1]

theorem append_lenOk (hc : c.LenOk) (hfit : bytes.length ≤ kMaxMsgLen - toUnsigned 64 c.len) :
    (c.append bytes).LenOk := by
  have hlen := hc.toUnsigned_64_eq
  have hle := hc.2
  have h0 := hc.1
  unfold LenOk append
  dsimp only
  omega

theorem recvData_append (hsocket : 0 ≤ c.socket) (hroom : toUnsigned 64 c.len < kMaxMsgLen)
    (hne : bytes ≠ []) :
    (recvData e c (.data bytes)).events =
      .recv c.socket (kMaxMsgLen - toUnsigned 64 c.len) (.data bytes) ::
        (recvString e (c.append bytes)).events := by
  cases recvData_inv e c (.data bytes) with
  | refused hrefused => omega
  | failed errno _ _ data => cases data
  | closed _ _ data => exact absurd (RawRecv.data.inj data) hne
  | received bytes' _ _ data _ eq =>
      obtain rfl := RawRecv.data.inj data
      rw [eq]

/-- Between two calls the buffer has room for two more bytes. -/
def HasRoom (c : GepChannel) : Prop := c.LenOk ∧ c.len + 2 ≤ kMaxMsgLen

theorem HasRoom.step (hk : e.CallbacksKeep) {c₀ : GepChannel} (hc : c.HasRoom)
    (h : (recvMachine e c₀).step c bytes = some (c', es)) : c'.HasRoom := by
  obtain ⟨hne, hfit, ret, hret, hnonneg, rfl⟩ := recvMachine_spec h
  have hlen := hc.1.toUnsigned_64_eq
  have hmax := hc.1.2
  have hsocket : 0 ≤ c.socket := by
    by_contra hneg
    rw [recvData_of_neg (by omega)] at hret
    cases hret
    omega
  have hparsed := recvData_parsed hk hsocket hc.1 hne (by omega)
  cases hleft : (parse e (c.contents ++ bytes)).left with
  | none =>
      have hbad := hparsed.failed hleft
      rw [hret] at hbad
      cases hbad
      omega
  | some left =>
      obtain ⟨-, hok, hcontents⟩ := hparsed.kept left hleft
      have hshort := parse_left_length hleft
      rw [← hcontents] at hshort
      have hcount := GepChannel.length_contents hok.1 hok.2
      exact ⟨hok, by omega⟩

end Machine

end GepChannel

open GepChannel

/-- Whatever a channel receives, in whatever portions: there is room before
every call, and no pass of the loop leaves the bytes received. -/
theorem recvData_never_jams {e : Endpoint Msg} (hk : e.CallbacksKeep) {c₀ : GepChannel}
    (hlen : c₀.len = 0) {c : GepChannel} {log : List (RecvEvent Msg)}
    (h : (recvMachine e c₀).Reaches (fun _ _ _ ↦ True) c log) :
    (0 ≤ c.len ∧ c.len ≤ (kMaxMsgLen - 2 : ℕ)) ∧
      ¬ kMaxMsgLen ≤ toUnsigned 64 c.len ∧ 0 < kMaxMsgLen - toUnsigned 64 c.len ∧
      ∀ bytes, 0 ≤ c.socket → bytes ≠ [] → bytes.length ≤ kMaxMsgLen - toUnsigned 64 c.len →
        (recvData e c (.data bytes)).events =
            .recv c.socket (kMaxMsgLen - toUnsigned 64 c.len) (.data bytes) ::
              (recvStringPasses e (c.append bytes)).flatMap
                (fun p ↦ (recvStringPass e p).events) ∧
          ((recvStringPasses e (c.append bytes)).length : ℤ) ≤ (c.append bytes).len / 12 ∧
          ∀ p ∈ recvStringPasses e (c.append bytes), PassSafe e p := by
  have hmaxLen := kMaxMsgLen_eq
  have hroom : c.HasRoom := by
    refine h.invariant (P := fun c _ ↦ c.HasRoom) ?_ fun _ hc _ hstep ↦ hc.step hk hstep
    show c₀.HasRoom
    unfold HasRoom LenOk
    rw [hlen, kMaxMsgLen_eq]
    decide
  have hunsigned := hroom.1.toUnsigned_64_eq
  have h0 := hroom.1.1
  have h2 := hroom.2
  refine ⟨⟨h0, by omega⟩, by omega, by omega, ?_⟩
  intro bytes hsocket hne hfit
  have hc' := append_lenOk hroom.1 hfit
  have hopen : (c.append bytes).socket ≠ -1 := by
    rw [append_socket]
    omega
  refine ⟨?_, ?_, fun p hp ↦ ?_⟩
  · rw [recvData_append hsocket (by omega) hne, recvString_events]
  · have hcount := length_recvStringPasses e hc' hopen
    rw [kHdrLen_eq] at hcount
    omega
  · obtain ⟨hafter, hhdr⟩ := mem_recvStringPasses hc' hopen hp
    apply passSafe_of_not_closes (hafter.lenOk hc')
    · rwa [hafter.socket]
    · exact hhdr
    · exact fun tag valueLen _ ↦ not_closes_of_callbacksKeep hk tag valueLen

/-- A `Command4` frame, and the magic of the next frame but for a byte. -/
def command4AndMore : List UInt8 :=
  [0x67, 0x65, 0x70, 0x70, 0x63, 0x6d, 0x64, 0x34, 0, 0, 0, 2, 8, 7, 0x67, 0x65, 0x70]

theorem recvData_never_jams_command4 :
    ∃ c log, (recvMachine TestProtocol.endpoint
        (.new 0 5 (List.Vector.replicate kMaxMsgLen 0xff))).Reaches (fun _ _ _ ↦ True) c log ∧
      c.contents = [0x67, 0x65, 0x70] ∧ 0 ≤ c.len ∧ c.len ≤ (kMaxMsgLen - 2 : ℕ) := by
  generalize hnew : GepChannel.new 0 5 (List.Vector.replicate kMaxMsgLen 0xff) = c₀
  have hlen : c₀.len = 0 := by
    rw [← hnew, GepChannel.new]
  have hempty : c₀.contents = [] := by
    rw [← hnew, GepChannel.contents_new]
  have hsocket : 0 ≤ c₀.socket := by
    rw [← hnew, GepChannel.new]
    decide
  have hmaxLen := kMaxMsgLen_eq
  have hfit : c₀.len + command4AndMore.length ≤ kMaxMsgLen := by
    rw [hlen, kMaxMsgLen_eq]
    decide
  have hparsed := recvData_parsed TestProtocol.endpoint_callbacksKeep hsocket
    ⟨hlen.ge, by omega⟩ (show command4AndMore ≠ [] by decide) hfit
  rw [hempty, List.nil_append] at hparsed
  obtain ⟨hret, -, hcontents⟩ := hparsed.kept [0x67, 0x65, 0x70] (by decide)
  have hstep : (recvMachine TestProtocol.endpoint c₀).step c₀ command4AndMore =
      some ((recvData TestProtocol.endpoint c₀ (.data command4AndMore)).chan,
        (recvData TestProtocol.endpoint c₀ (.data command4AndMore)).events) := by
    have hlabel : command4AndMore ≠ [] ∧
        command4AndMore.length ≤ kMaxMsgLen - toUnsigned 64 c₀.len := by
      rw [hlen, kMaxMsgLen_eq]
      decide
    simp only [recvMachine, if_pos hlabel, hret]
    rfl
  have hreach : (recvMachine TestProtocol.endpoint c₀).Reaches (fun _ _ _ ↦ True) _ _ :=
    .step .init trivial hstep
  exact ⟨_, _, hreach, hcontents, (recvData_never_jams TestProtocol.endpoint_callbacksKeep hlen
    hreach).1⟩

end Libgep
