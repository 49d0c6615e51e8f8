import Libgep.Delivery
import Libgep.Lib.Mutex

/-!
# Concurrent senders

Any number of threads call `SendTLV` on one channel, which is closed and
reconnected meanwhile.  Each call has the lock of the socket from its first
raw send to its last, so that its bytes stay together.
-/

namespace Libgep

open CInt Transition Mutex

variable {Msg : Type*}

/-! ## Calls -/

/-- The arguments of a `SendTLV`; the value is `none` for a null pointer, and
otherwise at least as long as its length says. -/
structure TLV where
  tag : UInt32
  valueLen : ℤ
  value : Option (List UInt8)
  readable : ∀ bytes, value = some bytes → valueLen ≤ bytes.length

inductive TLVPart where
  | header
  | value

namespace TLV

variable (p : GepProtocol Msg) (call : TLV)

def len : ℤ := if call.value.isNone then 0 else call.valueLen

def bytes : List UInt8 := call.value.getD []

def buf : TLVPart → List UInt8
  | .header => p.printHeader call.tag (.ofNat (toUnsigned 32 call.len))
  | .value => call.bytes

def size : TLVPart → ℤ
  | .header => kHdrLen
  | .value => call.len

def frame : List UInt8 := GepChannel.frame p call.tag call.len call.bytes

theorem len_le : call.len ≤ call.bytes.length := by
  obtain ⟨tag, valueLen, value, readable⟩ := call
  cases value with
  | none => exact le_rfl
  | some bytes => exact readable bytes rfl

theorem sendTLV_eq (env : GepChannel.TLVEnv) :
    GepChannel.sendTLV p call.tag call.valueLen call.value env =
      GepChannel.sendTLV p call.tag call.len (some call.bytes) env := by
  obtain ⟨tag, valueLen, value, readable⟩ := call
  cases value <;> rfl

end TLV

/-! ## Steps -/

/-- Where a `SendTLV` is that has the lock. -/
inductive TLVLoc where
  | calling (part : TLVPart)
  | sending (part : TLVPart) (startedMs totalSent : ℤ)

inductive SendInput where
  /-- The clock when a `FullSend` starts. -/
  | fullSend (startNs : ℕ)
  | rawSend (step : SendStep)

/-- The channel, and the number of the connection that it had last. -/
structure SharedChannel where
  chan : GepChannel
  lastConn : ℕ

/-- The bytes that the kernel took from a raw send, on which connection. -/
structure RawSend where
  conn : Option ℕ
  bytes : List UInt8
  deriving DecidableEq

namespace SharedChannel

variable (sh : SharedChannel)

/-- The connection that the socket of the channel belongs to. -/
def conn : Option ℕ := if sh.chan.socket = -1 then none else some sh.lastConn

/-- What a raw send is answered; `-1` is no descriptor. -/
def answer (step : SendStep) : SendStep :=
  if sh.chan.socket = -1 then { step with count := fun n ↦ ⟨-1, SendStep.neg_one_le n⟩, errno := ebadf }
  else step

end SharedChannel

/-- What else is done with the lock of the socket. -/
inductive ChannelUpdate where
  | close
  | openClientSocket (env : GepChannel.OpenEnv)

def SharedChannel.update (sh : SharedChannel) : ChannelUpdate → SharedChannel
  | .close => { sh with chan := sh.chan.close.2.1 }
  | .openClientSocket env =>
      let opened := sh.chan.openClientSocket env
      ⟨opened.chan, if opened.ret < 0 then sh.lastConn else sh.lastConn + 1⟩

namespace TLV

/-- What `SendTLV` does with the result of a `SendData`. -/
def returned (call : TLV) (part : TLVPart) (ret : ℤ) : Status TLVLoc ℤ :=
  match part with
  | .header =>
      if ret ≠ kHdrLen then .finished (-1)
      else if call.len ≤ 0 then .finished 0
      else .running (.calling .value)
  | .value => .finished (if ret ≠ call.len then -1 else 0)

/-- `SendTLV`, once it has the lock. -/
def body (p : GepProtocol Msg) : Body TLV TLVLoc ℤ SharedChannel SendInput RawSend where
  start _ := .calling .header
  step sh call loc input :=
    match loc, input with
    | .calling part, .fullSend startNs =>
        some (.running (.sending part (toSigned 64 (msElapse startNs 0)) 0), [])
    | .sending part startedMs totalSent, .rawSend step =>
        let it := fullSendIter (call.buf p part) (call.size part) GepChannel.kGepSendTimeoutMs
          startedMs totalSent (sh.answer step)
        let next := match it.next with
          | .sent totalSent => .running (.sending part startedMs totalSent)
          | .ret value => call.returned part value
        some (next, [⟨sh.conn, it.accepted⟩])
    | _, _ => none

end TLV

/-! ## A call by itself -/

/-- The loop of a `FullSend` has come so far, and the kernel has taken `acc`. -/
def LoopAt (buf : List UInt8) (size startedMs totalSent : ℤ) (acc : List UInt8) : Prop :=
  totalSent < size ∧ ∃ startNs steps events, startedMs = toSigned 64 (msElapse startNs 0) ∧
    ∀ rest, fullSendLoop buf size GepChannel.kGepSendTimeoutMs startedMs 0 (steps ++ rest) =
      (fullSendLoop buf size GepChannel.kGepSendTimeoutMs startedMs totalSent rest).map fun o ↦
        ⟨o.ret, acc ++ o.accepted, events ++ o.events⟩

namespace LoopAt

variable {buf acc : List UInt8} {size startedMs totalSent : ℤ}

theorem start (hsize : 0 < size) (startNs : ℕ) :
    LoopAt buf size (toSigned 64 (msElapse startNs 0)) 0 [] := by
  refine ⟨hsize, startNs, [], [], rfl, fun rest ↦ ?_⟩
  simp

theorem sent (h : LoopAt buf size startedMs totalSent acc) (step : SendStep) {totalSent' : ℤ}
    (hnext : (fullSendIter buf size GepChannel.kGepSendTimeoutMs startedMs totalSent step).next =
      .sent totalSent') :
    LoopAt buf size startedMs totalSent' (acc ++
      (fullSendIter buf size GepChannel.kGepSendTimeoutMs startedMs totalSent step).accepted) := by
  obtain ⟨hlt, startNs, steps, events, hstarted, hloop⟩ := h
  have hlt' : totalSent' < size := IterSpec.sent_lt (fullSendIter_spec hlt) hnext
  refine ⟨hlt', startNs, steps ++ [step], events ++
    (fullSendIter buf size GepChannel.kGepSendTimeoutMs startedMs totalSent step).events,
    hstarted, fun rest ↦ ?_⟩
  rw [List.append_assoc, List.singleton_append, hloop, fullSendLoop, if_pos hlt]
  dsimp only
  rw [hnext]
  simp [Function.comp_def]

theorem ret (h : LoopAt buf size startedMs totalSent acc) (step : SendStep) {value : ℤ}
    (hnext : (fullSendIter buf size GepChannel.kGepSendTimeoutMs startedMs totalSent step).next =
      .ret value) :
    ∃ env o, GepChannel.sendData buf size env = some o ∧ o.ret = value ∧ o.accepted = acc ++
      (fullSendIter buf size GepChannel.kGepSendTimeoutMs startedMs totalSent step).accepted := by
  obtain ⟨hlt, startNs, steps, events, hstarted, hloop⟩ := h
  refine ⟨⟨startNs, steps ++ [step]⟩, ?_⟩
  rw [GepChannel.sendData, fullSend, ← hstarted, hloop, fullSendLoop, if_pos hlt]
  dsimp only
  rw [hnext]
  exact ⟨_, rfl, rfl, rfl⟩

end LoopAt

namespace TLV

variable {p : GepProtocol Msg} {call : TLV}

/-- What a call has sent when it is at `status`, in terms of `SendTLV`. -/
def Progress (p : GepProtocol Msg) (call : TLV) (sent : List UInt8) : Status TLVLoc ℤ → Prop
  | .running (.calling .header) => sent = []
  | .running (.sending .header startedMs totalSent) =>
      LoopAt (call.buf p .header) kHdrLen startedMs totalSent sent
  | .running (.calling .value) =>
      0 < call.len ∧ ∃ env o, GepChannel.sendData (call.buf p .header) kHdrLen env = some o ∧
        o.ret = kHdrLen ∧ o.accepted = sent
  | .running (.sending .value startedMs totalSent) =>
      0 < call.len ∧ ∃ env o acc,
        GepChannel.sendData (call.buf p .header) kHdrLen env = some o ∧ o.ret = kHdrLen ∧
          LoopAt call.bytes call.len startedMs totalSent acc ∧ sent = o.accepted ++ acc
  | .finished ret =>
      ∃ env o, GepChannel.sendTLV p call.tag call.valueLen call.value env = some o ∧
        o.ret = ret ∧ o.accepted = sent

def sent (outs : List RawSend) : List UInt8 := outs.flatMap RawSend.bytes

@[simp] theorem sent_nil : sent [] = [] := rfl

@[simp] theorem sent_append (outs out : List RawSend) : sent (outs ++ out) = sent outs ++ sent out :=
  List.flatMap_append

@[simp] theorem sent_singleton (o : RawSend) : sent [o] = o.bytes := List.flatMap_singleton ..

theorem sendTLV_unfold (p : GepProtocol Msg) (call : TLV) (env : GepChannel.TLVEnv) :
    GepChannel.sendTLV p call.tag call.valueLen call.value env =
      (GepChannel.sendData (call.buf p .header) kHdrLen env.header).bind fun o ↦
        if o.ret ≠ kHdrLen then some ⟨-1, o.accepted, o.events⟩
        else if call.len ≤ 0 then some ⟨0, o.accepted, o.events⟩
        else
          (GepChannel.sendData call.bytes call.len env.value).map fun o' ↦
            ⟨if o'.ret ≠ call.len then -1 else 0, o.accepted ++ o'.accepted,
              o.events ++ o'.events⟩ :=
  rfl

theorem Progress.headerReturned {env : FullSendEnv} {o : SendOutcome}
    (ho : GepChannel.sendData (call.buf p .header) kHdrLen env = some o) :
    Progress p call o.accepted (call.returned .header o.ret) := by
  unfold returned
  dsimp only
  split_ifs with hret hlen
  · refine ⟨⟨env, env⟩, ⟨-1, o.accepted, o.events⟩, ?_, rfl, rfl⟩
    rw [sendTLV_unfold, ho, Option.bind_some, if_pos hret]
  · refine ⟨⟨env, env⟩, ⟨0, o.accepted, o.events⟩, ?_, rfl, rfl⟩
    rw [sendTLV_unfold, ho, Option.bind_some, if_neg hret, if_pos hlen]
  · exact ⟨Int.not_le.mp hlen, env, o, ho, not_not.mp hret, rfl⟩

theorem Progress.valueReturned {env env' : FullSendEnv} {o o' : SendOutcome} (hlen : 0 < call.len)
    (ho : GepChannel.sendData (call.buf p .header) kHdrLen env = some o) (hret : o.ret = kHdrLen)
    (ho' : GepChannel.sendData call.bytes call.len env' = some o') :
    Progress p call (o.accepted ++ o'.accepted) (call.returned .value o'.ret) := by
  refine ⟨⟨env, env'⟩, ⟨if o'.ret ≠ call.len then -1 else 0, o.accepted ++ o'.accepted,
    o.events ++ o'.events⟩, ?_, rfl, rfl⟩
  rw [sendTLV_unfold, ho, Option.bind_some, if_neg (not_not.mpr hret),
    if_neg (Int.not_le.mpr hlen), ho', Option.map_some]

theorem Progress.step {sh : SharedChannel} {loc : TLVLoc} {input : SendInput}
    {next : Status TLVLoc ℤ} {out : List RawSend} {bytes : List UInt8}
    (h : Progress p call bytes (.running loc))
    (hstep : (body p).step sh call loc input = some (next, out)) :
    Progress p call (bytes ++ sent out) next := by
  cases loc with
  | calling part =>
      cases input with
      | rawSend step => cases hstep
      | fullSend startNs =>
          cases hstep
          rw [sent_nil, List.append_nil]
          cases part with
          | header =>
              rw [show bytes = [] from h]
              exact .start (by decide) startNs
          | value =>
              obtain ⟨hlen, env, o, ho, hret, rfl⟩ := h
              exact ⟨hlen, env, o, [], ho, hret, .start hlen startNs, (List.append_nil _).symm⟩
  | sending part startedMs totalSent =>
      cases input with
      | fullSend startNs => cases hstep
      | rawSend step =>
          cases hstep
          rw [sent_singleton]
          dsimp only
          cases part with
          | header =>
              cases hnext : (fullSendIter (call.buf p .header) (call.size .header)
                GepChannel.kGepSendTimeoutMs startedMs totalSent (sh.answer step)).next with
              | sent totalSent' => exact LoopAt.sent h _ hnext
              | ret value =>
                  obtain ⟨env, o, ho, rfl, haccepted⟩ := LoopAt.ret h _ hnext
                  exact haccepted ▸ Progress.headerReturned ho
          | value =>
              obtain ⟨hlen, env, o, acc, ho, hret, hloop, rfl⟩ := h
              cases hnext : (fullSendIter (call.buf p .value) (call.size .value)
                GepChannel.kGepSendTimeoutMs startedMs totalSent (sh.answer step)).next with
              | sent totalSent' =>
                  refine ⟨hlen, env, o, _, ho, hret, hloop.sent _ hnext, ?_⟩
                  exact List.append_assoc ..
              | ret value =>
                  obtain ⟨env', o', ho', rfl, haccepted⟩ := hloop.ret _ hnext
                  rw [List.append_assoc]
                  exact haccepted ▸ Progress.valueReturned hlen ho hret ho'

/-- A call that runs alone does what `SendTLV` does. -/
theorem progress_of_runs {sh : SharedChannel} {ins : List SendInput} {status : Status TLVLoc ℤ}
    {outs : List RawSend} (h : (body p).Runs sh call ins status outs) :
    Progress p call (sent outs) status := by
  induction h with
  | start => exact rfl
  | step _ hstep ih =>
      rw [sent_append]
      exact ih.step hstep

theorem runs_fullSendLoop {sh : SharedChannel} (hopen : sh.chan.socket ≠ -1) {part : TLVPart}
    {startedMs totalSent : ℤ} {steps : List SendStep} {o : SendOutcome}
    (hlt : totalSent < call.size part)
    (h : fullSendLoop (call.buf p part) (call.size part) GepChannel.kGepSendTimeoutMs startedMs
      totalSent steps = some o)
    {ins : List SendInput} {outs : List RawSend}
    (hruns : (body p).Runs sh call ins (.running (.sending part startedMs totalSent)) outs) :
    ∃ ins' outs', (body p).Runs sh call ins' (call.returned part o.ret) outs' ∧
      sent outs' = sent outs ++ o.accepted := by
  induction steps generalizing totalSent o ins outs with
  | nil => simp [fullSendLoop, hlt] at h
  | cons step steps ih =>
      have hstep : ∀ next, (match (fullSendIter (call.buf p part) (call.size part)
          GepChannel.kGepSendTimeoutMs startedMs totalSent step).next with
            | .sent totalSent => .running (.sending part startedMs totalSent)
            | .ret value => call.returned part value) = next →
          (body p).step sh call (.sending part startedMs totalSent) (.rawSend step) =
            some (next, [⟨sh.conn, (fullSendIter (call.buf p part) (call.size part)
              GepChannel.kGepSendTimeoutMs startedMs totalSent step).accepted⟩]) := by
        rintro next rfl
        simp only [body, SharedChannel.answer, if_neg hopen]
      rw [fullSendLoop, if_pos hlt] at h
      dsimp only at h
      cases @fullSendIter_spec (call.buf p part) (call.size part) GepChannel.kGepSendTimeoutMs
        startedMs totalSent step hlt with
      | more n next lt accepted =>
          rw [next] at h hstep
          obtain ⟨o', ho', rfl⟩ := Option.map_eq_some_iff.mp h
          obtain ⟨ins', outs', hruns', hsent⟩ := ih lt ho' (hruns.step (hstep _ rfl))
          exact ⟨ins', outs', hruns', by simp [hsent]⟩
      | done n next | stop n value next =>
          rw [next] at h hstep
          cases h
          exact ⟨_, _, hruns.step (hstep _ rfl), by simp⟩

theorem runs_sendData {sh : SharedChannel} (hopen : sh.chan.socket ≠ -1) {part : TLVPart}
    (hsize : 0 < call.size part) {env : FullSendEnv} {o : SendOutcome}
    (h : GepChannel.sendData (call.buf p part) (call.size part) env = some o)
    {ins : List SendInput} {outs : List RawSend}
    (hruns : (body p).Runs sh call ins (.running (.calling part)) outs) :
    ∃ ins' outs', (body p).Runs sh call ins' (call.returned part o.ret) outs' ∧
      sent outs' = sent outs ++ o.accepted := by
  have hstarted := hruns.step
    (show (body p).step sh call (.calling part) (.fullSend env.startNs) = _ from rfl)
  rw [List.append_nil] at hstarted
  exact runs_fullSendLoop hopen hsize h hstarted

/-- On an open channel, whatever `SendTLV` does a call that runs alone can do. -/
theorem exists_runs {sh : SharedChannel} (hopen : sh.chan.socket ≠ -1)
    {env : GepChannel.TLVEnv} {o : SendOutcome}
    (h : GepChannel.sendTLV p call.tag call.valueLen call.value env = some o) :
    ∃ ins outs, (body p).Runs sh call ins (.finished o.ret) outs ∧ sent outs = o.accepted := by
  rw [sendTLV_unfold] at h
  obtain ⟨o₁, ho₁, h⟩ := Option.bind_eq_some_iff.mp h
  have hheader : 0 < call.size .header := Int.natCast_pos.mpr (by decide)
  obtain ⟨ins, outs, hruns, hsent⟩ := runs_sendData hopen hheader ho₁ .start
  rw [sent_nil, List.nil_append] at hsent
  unfold returned at hruns
  dsimp only at hruns
  split_ifs at h hruns with hret hlen
  · cases h
    exact ⟨ins, outs, hruns, hsent⟩
  · cases h
    exact ⟨ins, outs, hruns, hsent⟩
  · obtain ⟨o₂, ho₂, rfl⟩ := Option.map_eq_some_iff.mp h
    have hvalue : 0 < call.size .value := Int.not_le.mp hlen
    obtain ⟨ins', outs', hruns', hsent'⟩ := runs_sendData hopen hvalue ho₂ hruns
    exact ⟨ins', outs', hruns', by rw [hsent', hsent]⟩

/-! ## The frame of a call -/

def failed : SendStep := ⟨fun n ↦ ⟨-1, SendStep.neg_one_le n⟩, ebadf, 0, 0⟩

theorem fullSendIter_failed {buf : List UInt8} {size timeoutMs startedMs totalSent : ℤ}
    {step : SendStep} (hcount : ∀ offered, (step.count offered).1 = -1)
    (herrno : step.errno = ebadf) :
    (fullSendIter buf size timeoutMs startedMs totalSent step).next = .ret (-1) ∧
      (fullSendIter buf size timeoutMs startedMs totalSent step).accepted = [] := by
  unfold fullSendIter
  simp only [hcount, herrno]
  exact ⟨rfl, rfl⟩

theorem answer_closed {sh : SharedChannel} (hclosed : sh.conn = none) (step : SendStep) :
    (∀ offered, ((sh.answer step).count offered).1 = -1) ∧ (sh.answer step).errno = ebadf := by
  have hsocket : sh.chan.socket = -1 := by
    by_contra hopen
    rw [SharedChannel.conn, if_neg hopen] at hclosed
    cases hclosed
  rw [SharedChannel.answer, if_pos hsocket]
  exact ⟨fun _ ↦ rfl, rfl⟩

theorem answer_failed (sh : SharedChannel) : sh.answer failed = failed := by
  unfold SharedChannel.answer
  split <;> rfl

/-- Every call can fail at its next raw send, and then the kernel has taken
no more of it. -/
theorem exists_finished {sh : SharedChannel} {ins : List SendInput} {loc : TLVLoc}
    {outs : List RawSend} (h : (body p).Runs sh call ins (.running loc) outs) :
    ∃ ins' ret outs', (body p).Runs sh call ins' (.finished ret) outs' ∧ sent outs' = sent outs := by
  have hsending : ∀ {ins part startedMs totalSent},
      (body p).Runs sh call ins (.running (.sending part startedMs totalSent)) outs →
        ∃ ins' ret outs', (body p).Runs sh call ins' (.finished ret) outs' ∧
          sent outs' = sent outs := by
    intro ins part startedMs totalSent hruns
    obtain ⟨hnext, haccepted⟩ := @fullSendIter_failed (call.buf p part) (call.size part)
      GepChannel.kGepSendTimeoutMs startedMs totalSent failed (fun _ ↦ rfl) rfl
    have hreturned : ∃ ret, call.returned part (-1) = .finished ret := by
      cases part <;> exact ⟨_, rfl⟩
    obtain ⟨ret, hret⟩ := hreturned
    have hstep : (body p).step sh call (.sending part startedMs totalSent) (.rawSend failed) =
        some (.finished ret, [⟨sh.conn, []⟩]) := by
      simp only [body, answer_failed, hnext, haccepted, hret]
    exact ⟨_, ret, outs ++ [⟨sh.conn, []⟩], hruns.step hstep, by simp⟩
  cases loc with
  | calling part =>
      have hstarted := h.step (show (body p).step sh call (.calling part) (.fullSend 0) = _ from rfl)
      rw [List.append_nil] at hstarted
      exact hsending hstarted
  | sending part startedMs totalSent => exact hsending h

/-- What a call has put on the wire: a prefix of its frame, and the whole of
it exactly when it returned `0`. -/
structure PieceSpec (p : GepProtocol Msg) (call : TLV) (bytes : List UInt8)
    (status : Status TLVLoc ℤ) : Prop where
  accepted : bytes <+: call.frame p
  whole : ∀ ret, status = .finished ret → (ret = 0 ↔ bytes = call.frame p)

theorem pieceSpec_of_finished {sh : SharedChannel} {ins : List SendInput} {ret : ℤ}
    {outs : List RawSend} (h : (body p).Runs sh call ins (.finished ret) outs) :
    PieceSpec p call (sent outs) (.finished ret) := by
  obtain ⟨env, o, ho, rfl, haccepted⟩ := progress_of_runs h
  rw [sendTLV_eq] at ho
  have hspec := GepChannel.sendTLV_spec call.len_le ho
  rw [← haccepted]
  refine ⟨hspec.accepted, ?_⟩
  rintro ret ⟨⟩
  exact hspec.whole

theorem pieceSpec {sh : SharedChannel} {ins : List SendInput} {status : Status TLVLoc ℤ}
    {outs : List RawSend} (h : (body p).Runs sh call ins status outs) :
    PieceSpec p call (sent outs) status := by
  cases status with
  | running loc =>
      obtain ⟨ins', ret, outs', hruns, hsent⟩ := exists_finished h
      refine ⟨hsent ▸ (pieceSpec_of_finished hruns).accepted, ?_⟩
      rintro ret ⟨⟩
  | finished ret => exact pieceSpec_of_finished h

/-- All raw sends of a call are made on one connection, and none of them
takes a byte when the channel is closed. -/
theorem outs_conn {sh : SharedChannel} {ins : List SendInput} {status : Status TLVLoc ℤ}
    {outs : List RawSend} (h : (body p).Runs sh call ins status outs) :
    ∀ o ∈ outs, o.conn = sh.conn ∧ (sh.conn = none → o.bytes = []) := by
  induction h with
  | start => exact List.forall_mem_nil _
  | @step ins loc outs out input next _ hstep ih =>
      rw [List.forall_mem_append]
      refine ⟨ih, ?_⟩
      cases loc <;> cases input <;> cases hstep
      · exact List.forall_mem_nil _
      · rw [List.forall_mem_singleton]
        refine ⟨rfl, fun hclosed ↦ ?_⟩
        obtain ⟨hcount, herrno⟩ := answer_closed hclosed _
        exact (fullSendIter_failed hcount herrno).2

end TLV

/-! ## The wire -/

/-- A `SendTLV` that has had the lock: the connection it ran on, the bytes
that the kernel took, and its status once it has returned. -/
structure Piece (ι : Type*) where
  thread : ι
  call : TLV
  conn : Option ℕ
  bytes : List UInt8
  ret : Option ℤ

section Wire

variable {ι : Type*}

abbrev SenderState (ι : Type*) := State ι TLV TLVLoc ℤ SharedChannel

abbrev SenderEvent (ι : Type*) := Event ι TLV ℤ SharedChannel RawSend

/-- The bytes that the kernel accepted on a connection. -/
def connWire (conn : ℕ) (log : List (SenderEvent ι)) : List UInt8 :=
  ((log.filterMap Event.output).filter (·.conn = some conn)).flatMap RawSend.bytes

def startedCalls (log : List (SenderEvent ι)) : List (ι × TLV × Option ℕ) :=
  (log.filterMap Event.acquisition).map fun (i, call, sh) ↦ (i, call, sh.conn)

def returnedCalls (log : List (SenderEvent ι)) : List (ι × TLV × ℤ) := log.filterMap Event.result

def pieceOf (x : Section ι TLV ℤ SharedChannel RawSend) : Piece ι :=
  ⟨x.thread, x.task, x.shared.conn, TLV.sent x.outs, x.res⟩

/-- The wire of every connection is a sequence of pieces of frames, one for
each call, and those of a thread are in order. -/
structure InPieces [DecidableEq ι] (p : GepProtocol Msg) (todo : ι → List TLV) (s : SenderState ι)
    (log : List (SenderEvent ι)) (pieces : List (Piece ι)) : Prop where
  started : startedCalls log = pieces.map fun x ↦ (x.thread, x.call, x.conn)
  returned : returnedCalls log =
    pieces.filterMap fun x ↦ x.ret.map fun ret ↦ (x.thread, x.call, ret)
  wire : ∀ conn, connWire conn log = (pieces.filter (·.conn = some conn)).flatMap Piece.bytes
  accepted : ∀ x ∈ pieces, x.bytes <+: x.call.frame p
  whole : ∀ x ∈ pieces, ∀ ret, x.ret = some ret → (ret = 0 ↔ x.bytes = x.call.frame p)
  closed : ∀ x ∈ pieces, x.conn = none → x.bytes = []
  order : ∀ i, (pieces.filter (·.thread = i)).map Piece.call ++ (s.threads i).todo = todo i

theorem wire_of_section {p : GepProtocol Msg} {x : Section ι TLV ℤ SharedChannel RawSend}
    (h : x.Ran (TLV.body p)) (conn : ℕ) :
    (x.outs.filter (·.conn = some conn)).flatMap RawSend.bytes =
      if x.shared.conn = some conn then TLV.sent x.outs else [] := by
  obtain ⟨ins, status, hruns, -⟩ := h
  have hconn := TLV.outs_conn hruns
  split_ifs with hsame
  · rw [List.filter_eq_self.mpr]
    · rfl
    · intro o ho
      exact decide_eq_true ((hconn o ho).1.trans hsame)
  · rw [List.filter_eq_nil_iff.mpr]
    · rfl
    · intro o ho
      rw [(hconn o ho).1]
      simpa using hsame

theorem wire_of_sections {p : GepProtocol Msg}
    {sections : List (Section ι TLV ℤ SharedChannel RawSend)}
    (hran : ∀ x ∈ sections, x.Ran (TLV.body p)) (conn : ℕ) :
    ((sections.flatMap Section.outs).filter (·.conn = some conn)).flatMap RawSend.bytes =
      ((sections.map pieceOf).filter (·.conn = some conn)).flatMap Piece.bytes := by
  induction sections with
  | nil => rfl
  | cons x sections ih =>
      obtain ⟨hx, hrest⟩ := List.forall_mem_cons.mp hran
      rw [List.flatMap_cons, List.filter_append, List.flatMap_append, wire_of_section hx,
        ih hrest, List.map_cons, List.filter_cons]
      by_cases hsame : x.shared.conn = some conn
      · have hpiece : decide ((pieceOf x).conn = some conn) = true := decide_eq_true hsame
        rw [if_pos hsame, if_pos hpiece, List.flatMap_cons]
        rfl
      · have hpiece : ¬ decide ((pieceOf x).conn = some conn) = true :=
          fun hdec ↦ hsame (of_decide_eq_true hdec)
        rw [if_neg hsame, if_neg hpiece, List.nil_append]

end Wire

variable {ι : Type*} [DecidableEq ι]

/-- The channel `chan`, and threads that send the messages in `todo`. -/
def sendersMachine (p : GepProtocol Msg) (chan : GepChannel) (todo : ι → List TLV) :
    Machine (SenderState ι) (Label ι SendInput ChannelUpdate) (SenderEvent ι) :=
  machine (TLV.body p) SharedChannel.update ⟨chan, 0⟩ todo

/-- The frames of concurrent senders neither mix nor straddle connections. -/
theorem senders_inPieces (p : GepProtocol Msg) (chan : GepChannel) (todo : ι → List TLV)
    {s : SenderState ι} {log : List (SenderEvent ι)}
    (h : (sendersMachine p chan todo).Reaches (fun _ _ _ ↦ True) s log) :
    ∃ pieces, InPieces p todo s log pieces := by
  obtain ⟨sections, current, hserial, -, -⟩ := serialized h
  generalize sections ++ current.toList = sections at hserial
  refine ⟨sections.map pieceOf, ?_, ?_, fun conn ↦ ?_, ?_, ?_, ?_, fun i ↦ ?_⟩
  · rw [startedCalls, hserial.acquired, List.map_map, List.map_map]
    rfl
  · rw [returnedCalls, hserial.released, List.filterMap_map]
    rfl
  · rw [connWire, hserial.outs]
    exact wire_of_sections hserial.ran conn
  · refine List.forall_mem_map.mpr fun x hx ↦ ?_
    obtain ⟨ins, status, hruns, -⟩ := hserial.ran x hx
    exact (TLV.pieceSpec hruns).accepted
  · refine List.forall_mem_map.mpr fun x hx ret hret ↦ ?_
    obtain ⟨ins, status, hruns, hres⟩ := hserial.ran x hx
    exact (TLV.pieceSpec hruns).whole ret (hres ret hret)
  · refine List.forall_mem_map.mpr fun x hx hclosed ↦ ?_
    obtain ⟨ins, status, hruns, -⟩ := hserial.ran x hx
    exact List.flatMap_eq_nil_iff.mpr fun o ho ↦ (TLV.outs_conn hruns o ho).2 hclosed
  · rw [← hserial.order i, List.filter_map, List.map_map]
    rfl

def command4 (id : UInt8) : TLV :=
  ⟨TestProtocol.msgTag .command4, 2, some [8, id], by rintro _ ⟨⟩; exact le_rfl⟩

/-- The first sender times out after 5 bytes, the channel is reconnected, and
the second sender succeeds. -/
def twoSendersRun : List (Label Bool SendInput ChannelUpdate) :=
  [.acquire false, .work false (.fullSend 0), .work false (.rawSend (.acceptUpTo 5)),
    .work false (.rawSend .full), .release false, .update .close,
    .update (.openClientSocket ⟨3, false⟩), .acquire true, .work true (.fullSend 0),
    .work true (.rawSend .acceptAll), .work true (.fullSend 0), .work true (.rawSend .acceptAll),
    .release true]

theorem senders_inPieces_reconnect : ∃ (s : SenderState Bool) (log : List (SenderEvent Bool)),
    (returnedCalls log).map (fun x ↦ (x.1, x.2.2)) = [(false, -1), (true, 0)] ∧
      connWire 0 log = ((command4 7).frame TestProtocol.proto).take 5 ∧
      connWire 1 log = (command4 8).frame TestProtocol.proto ∧
      ∃ pieces, InPieces TestProtocol.proto (bif · then [command4 8] else [command4 7]) s log
        pieces := by
  obtain ⟨s, log, hrun, hreturned, hfirst, hsecond⟩ : ∃ s log,
      (sendersMachine TestProtocol.proto (.new 0 3 (List.Vector.replicate kMaxMsgLen 0))
        (bif · then [command4 8] else [command4 7])).runFrom
        ⟨⟨.new 0 3 (List.Vector.replicate kMaxMsgLen 0), 0⟩, none,
          fun i ↦ ⟨bif i then [command4 8] else [command4 7], none⟩⟩ twoSendersRun =
          some (s, log) ∧
        (returnedCalls log).map (fun x ↦ (x.1, x.2.2)) = [(false, -1), (true, 0)] ∧
        connWire 0 log = ((command4 7).frame TestProtocol.proto).take 5 ∧
        connWire 1 log = (command4 8).frame TestProtocol.proto :=
    ⟨_, _, rfl, by decide, by decide, by decide⟩
  refine ⟨s, log, hreturned, hfirst, hsecond, senders_inPieces TestProtocol.proto
    (.new 0 3 (List.Vector.replicate kMaxMsgLen 0)) _ ?_⟩
  exact Machine.Reaches.run .init (.of_forall (fun _ _ _ ↦ trivial) _ _ _) hrun

end Libgep
