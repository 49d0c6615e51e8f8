import Libgep.EndToEnd

/-!
# Delivery after failed sends

A `SendMessage` that fails may have put a part of its frame on the wire, and
the channel stays open.  As long as nothing follows such a part, each message
is delivered once or not at all, and those whose send succeeded once.
-/

namespace Libgep

open StreamParser GepChannel

variable {Msg : Type*} {p : GepProtocol Msg} {e : Endpoint Msg}

theorem Sending.Ok.look_of_prefix {m : Sending Msg} (h : m.Ok p e)
    (hmagic : p.magic = e.proto.magic) {xs : List UInt8} (hpre : xs <+: m.frame p)
    (hne : xs ≠ m.frame p) : frameLook e xs = .wait := by
  by_contra hlook
  obtain ⟨ys, hys⟩ := hpre
  have hframe := h.look hmagic []
  rw [List.append_nil, ← hys, frameLook_append hlook] at hframe
  cases hxs : frameLook e xs with
  | wait => exact hlook hxs
  | fail =>
      rw [hxs] at hframe
      cases hframe
  | emit out rest =>
      rw [hxs, Verdict.extend_emit] at hframe
      injection hframe with _ hrest
      have hnil : ys = [] := (List.append_eq_nil_iff.mp hrest).2
      exact hne (by rw [← hys, hnil, List.append_nil])

/-! ## Calls on one connection -/

structure Call (p : GepProtocol Msg) where
  sending : Sending Msg
  outcome : SendOutcome
  returned : sendMessage p sending.msg sending.env = some outcome

namespace Call

variable (k : Call p)

def frame : List UInt8 := k.sending.frame p

def delivery : Delivery Msg := k.sending.delivery p

/-- The bytes of the frame that the kernel has taken. -/
def accepted : List UInt8 := k.outcome.accepted

/-- The kernel took some bytes of the frame, and not all of them. -/
def Truncated : Prop := k.accepted ≠ [] ∧ k.accepted ≠ k.frame

def succeeded : Bool := k.outcome.ret = 0

def wire (calls : List (Call p)) : List UInt8 := calls.flatMap accepted

variable {k}

theorem accepted_prefix_frame (hok : k.sending.Ok p e) : k.accepted <+: k.frame :=
  (hok.tlvSpec k.returned).accepted

theorem succeeded_iff (hok : k.sending.Ok p e) : k.succeeded = true ↔ k.accepted = k.frame := by
  rw [succeeded, decide_eq_true_iff]
  exact (hok.tlvSpec k.returned).whole

theorem frame_ne_nil (k : Call p) : k.frame ≠ [] := by
  have hhdr := p.length_printHeader (p.getTag k.sending.msg)
    (.ofNat (CInt.toUnsigned 32 (k.sending.value.length : ℤ)))
  have hhdrLen := kHdrLen_eq
  intro hnil
  rw [frame, Sending.frame, GepChannel.frame, List.append_eq_nil_iff] at hnil
  rw [hnil.1, List.length_nil] at hhdr
  omega

theorem not_succeeded_of_nil (hok : k.sending.Ok p e) (hnil : k.accepted = []) :
    k.succeeded = false := by
  rw [← Bool.not_eq_true, succeeded_iff hok, hnil]
  intro heq
  exact k.frame_ne_nil heq.symm

theorem wire_of_silent {calls : List (Call p)} (hok : ∀ k ∈ calls, k.sending.Ok p e)
    (hsilent : ∀ k ∈ calls, k.accepted = []) :
    wire calls = [] ∧ calls.filter succeeded = [] := by
  constructor
  · exact List.flatMap_eq_nil_iff.mpr hsilent
  · refine List.filter_eq_nil_iff.mpr fun k hk ↦ ?_
    rw [not_succeeded_of_nil (hok k hk) (hsilent k hk)]
    exact Bool.false_ne_true

/-- Nothing is put on the wire behind the part of a truncated frame. -/
def NothingBehindTruncated (calls : List (Call p)) : Prop :=
  calls.Pairwise fun k k' ↦ k.Truncated → k'.accepted = []

theorem parse_wire (hmagic : p.magic = e.proto.magic) {calls : List (Call p)}
    (hok : ∀ k ∈ calls, k.sending.Ok p e) (hcalls : NothingBehindTruncated calls) :
    ∃ left, parse e (wire calls) = ⟨(calls.filter succeeded).map delivery, some left⟩ := by
  induction calls with
  | nil => exact ⟨[], parse_nil e⟩
  | cons k calls ih =>
      obtain ⟨hk, hoks⟩ := List.forall_mem_cons.mp hok
      obtain ⟨hbehind, hpair⟩ := List.pairwise_cons.mp hcalls
      rw [wire, List.flatMap_cons]
      by_cases hwhole : k.accepted = k.frame
      · obtain ⟨left, hleft⟩ := ih hoks hpair
        refine ⟨left, ?_⟩
        rw [List.filter_cons_of_pos ((succeeded_iff hk).mpr hwhole), hwhole, parse,
          run_emit _ (hk.look hmagic _)]
        change (parse e (wire calls)).after _ = _
        rw [hleft]
        rfl
      have hfailed : ¬ k.succeeded = true := fun h ↦ hwhole ((succeeded_iff hk).mp h)
      rw [List.filter_cons_of_neg hfailed]
      by_cases hnil : k.accepted = []
      · rw [hnil, List.nil_append]
        exact ih hoks hpair
      · obtain ⟨hwire, hnone⟩ := wire_of_silent hoks fun k' hk' ↦ hbehind k' hk' ⟨hnil, hwhole⟩
        rw [wire] at hwire
        rw [hwire, List.append_nil, hnone, parse,
          run_wait _ (hk.look_of_prefix hmagic (accepted_prefix_frame hk) hwhole)]
        exact ⟨_, rfl⟩

end Call

/-! ## Zero-or-one delivery -/

/-- However the stream that the calls produced is received, it is not
malformed, and the messages dispatched are those of some of the calls, in
order, with all of those that succeeded among them. -/
def ZeroOrOne (e : Endpoint Msg) (calls : List (Call p)) : Prop :=
  ∀ (c : GepChannel) (chunks : List (List UInt8)), 0 ≤ c.socket → c.len = 0 →
    ChunksFit e c chunks → chunks.flatten = Call.wire calls →
      (recvAll e c chunks).ret = some 0 ∧
        ∃ delivered : List (Call p), delivered.Sublist calls ∧
          (calls.filter Call.succeeded).Sublist delivered ∧
          dispatched (recvAll e c chunks).events = delivered.map Call.delivery

/-- Delivery is zero-or-one, with errors reported, in every run that puts
nothing behind a truncated frame. -/
theorem zeroOrOne_of_nothingBehindTruncated (hmagic : p.magic = e.proto.magic)
    (hk : e.CallbacksKeep) (calls : List (Call p)) (hok : ∀ k ∈ calls, k.sending.Ok p e)
    (hcalls : Call.NothingBehindTruncated calls) : ZeroOrOne e calls := by
  intro c chunks hsocket hlen hfit hflat
  obtain ⟨left, hleft⟩ := Call.parse_wire hmagic hok hcalls
  have hparsed := recvAll_parsed_of_empty hk hsocket hlen hfit
  rw [hflat, hleft] at hparsed
  obtain ⟨hret, -⟩ := hparsed.kept left rfl
  exact ⟨hret, _, List.filter_sublist, List.Sublist.refl _, hparsed.events⟩

def SendStep.acceptUpTo (n : ℕ) : SendStep :=
  ⟨fun offered ↦ ⟨min n offered, by omega⟩, 0, 0, 1⟩

/-- The socket has no space, and `select` reports none before its timeout. -/
def SendStep.full : SendStep := ⟨fun _ ↦ ⟨-1, by omega⟩, eagain, 0, 0⟩

def Call.run (m : Sending Msg) (h : (sendMessage p m.msg m.env).isSome) : Call p :=
  ⟨m, (sendMessage p m.msg m.env).get h, (Option.some_get h).symm⟩

def wholeCommand4 : Call TestProtocol.proto :=
  .run ⟨⟨.command4, [8, 7]⟩, [8, 7], .acceptAll⟩ (by decide)

/-- A `Command4` whose send times out after 5 bytes of the header. -/
def truncatedCommand4 : Call TestProtocol.proto :=
  .run ⟨⟨.command4, [8, 7]⟩, [8, 7], ⟨⟨0, [.acceptUpTo 5, .full]⟩, .acceptAll⟩⟩ (by decide)

theorem wholeCommand4_ok :
    wholeCommand4.sending.Ok TestProtocol.proto TestProtocol.endpoint :=
  ⟨⟨rfl, by decide, rfl⟩, by decide⟩

theorem truncatedCommand4_ok :
    truncatedCommand4.sending.Ok TestProtocol.proto TestProtocol.endpoint :=
  ⟨⟨rfl, by decide, rfl⟩, by decide⟩

theorem zeroOrOne_command4 :
    ZeroOrOne TestProtocol.endpoint [wholeCommand4, truncatedCommand4] := by
  apply zeroOrOne_of_nothingBehindTruncated rfl TestProtocol.endpoint_callbacksKeep
  · rintro k (- | ⟨_, - | ⟨_, ⟨⟩⟩⟩)
    · exact wholeCommand4_ok
    · exact truncatedCommand4_ok
  · refine List.pairwise_pair.mpr fun htruncated ↦ ?_
    exact absurd (by decide) htruncated.2

/-- A send that succeeds after one that timed out: its peer takes the stream
for malformed, and the message is lost. -/
theorem not_zeroOrOne_command4 :
    (∀ k ∈ [truncatedCommand4, wholeCommand4],
        k.sending.Ok TestProtocol.proto TestProtocol.endpoint) ∧
      truncatedCommand4.outcome.ret = -1 ∧ wholeCommand4.outcome.ret = 0 ∧
      ¬ ZeroOrOne TestProtocol.endpoint [truncatedCommand4, wholeCommand4] := by
  refine ⟨?_, by decide, by decide, fun hzero ↦ ?_⟩
  · rintro k (- | ⟨_, - | ⟨_, ⟨⟩⟩⟩)
    · exact truncatedCommand4_ok
    · exact wholeCommand4_ok
  generalize hnew : GepChannel.new 0 0 (List.Vector.replicate kMaxMsgLen 0) = c
  have hsocket : 0 ≤ c.socket := by
    rw [← hnew, GepChannel.new]
  have hlen : c.len = 0 := by
    rw [← hnew, GepChannel.new]
  have hfit : ChunksFit TestProtocol.endpoint c
      [Call.wire [truncatedCommand4, wholeCommand4]] := by
    apply chunksFit_of_length_le TestProtocol.endpoint_callbacksKeep hsocket
      ⟨hlen.ge, by rw [hlen]; exact Int.natCast_nonneg _⟩
    · decide
    · rw [hlen]
      decide
  have hparsed := recvAll_parsed_of_empty TestProtocol.endpoint_callbacksKeep hsocket hlen hfit
  obtain ⟨hret, -⟩ := hzero c _ hsocket hlen hfit (by simp)
  have hbad := hparsed.failed (by decide)
  rw [hret] at hbad
  cases hbad

end Libgep
