import Libgep.Client
import Libgep.Listening
import Libgep.NetworkDelivery

/-!
# Stopping

`Stop` clears `thread_ctrl_` and joins the thread.  The thread looks at the
flag after `select` and after each of the calls that may take long, so that it
exits after a few more steps, and `Stop` returns.
-/

namespace Libgep

open Transition
open CInt (toUnsigned)

variable {Msg : Type*}

/-! ## The server -/

namespace GepServer

/-- `Start` alone sets `thread_ctrl_`, and inside of `RecvData` there is a
channel to serve. -/
structure StopOk (s : GepServer) : Prop where
  ok : ServerOk s
  ctrl : s.stopping = true → s.threadCtrl = false
  receiving : ∀ serverSocket readFds, s.pc = .receiving serverSocket readFds →
    s.array.serving.isSome

/-- The steps that the thread takes at most before it exits. -/
def toExit (s : GepServer) : ℕ :=
  match s.pc with
  | .idle | .exited => 0
  | .head _ | .selected _ _ | .received _ _ => 1
  | .entry | .selecting _ _ | .accepting _ _ => 2
  | .receiving _ _ =>
      match s.array.serving with
      | some ⟨_, some _⟩ => 2
      | _ => 3

/-- The channels that the thread still serves. -/
def toServe (s : GepServer) : ℕ :=
  match s.array.serving with
  | some ⟨_, none⟩ => 1
  | _ => 0

/-- The connections that the thread still accepts: it is past the check of
`thread_ctrl_` already. -/
def toAccept (s : GepServer) : ℕ :=
  match s.pc with
  | .accepting _ _ => 1
  | _ => 0

theorem toExit_le (s : GepServer) : s.toExit ≤ 3 := by
  unfold toExit
  split <;> try omega
  split <;> omega

theorem toServe_le (s : GepServer) : s.toServe ≤ 1 := by
  unfold toServe
  split <;> omega

/-- The thread goes on, whatever the call returns that it is in: `select`, the
`Recv` of the channel that is served, or `Accept`, unless it runs out of ids. -/
def Proceeds (e : Endpoint Msg) (s : GepServer) : Prop :=
  match s.pc with
  | .idle => False
  | .entry => (serverStep e s .enter).isSome
  | .head _ => (serverStep e s .loop).isSome
  | .selecting _ _ => ∀ r, (serverStep e s (.select r)).isSome
  | .selected _ _ => (serverStep e s .recvBegin).isSome
  | .receiving _ _ =>
      match s.array.serving with
      | none => False
      | some ⟨addr, none⟩ =>
          ∀ r : RawRecv, r.Fits (kMaxMsgLen - toUnsigned 64 (s.array.array.heap addr).len) →
            (serverStep e s (.recv r)).isSome
      | some ⟨_, some _⟩ => (serverStep e s .recvEnd).isSome
  | .received _ _ => (serverStep e s .acceptBegin).isSome
  | .accepting _ _ =>
      ∀ fd stale, s.array.array.lastChannelId + 1 ≠ 2 ^ 31 →
        (serverStep e s (.accept fd stale)).isSome
  | .exited => True

/-- A thread with no step left to take has exited. -/
theorem Proceeds.exited {e : Endpoint Msg} {s : GepServer} (h : s.Proceeds e)
    (hexit : s.toExit = 0) : s.pc = .exited := by
  unfold toExit at hexit
  split at hexit
  · simp [Proceeds, *] at h
  · assumption
  all_goals try cases hexit
  split at hexit <;> cases hexit

end GepServer

def ServerLabel.served : ServerLabel → ℕ
  | .recv _ => 1
  | _ => 0

def ServerLabel.accepted : ServerLabel → ℕ
  | .accept _ _ => 1
  | _ => 0

/-- A descriptor is opened, or a client is added. -/
def ArrayEvent.LetsIn : ArrayEvent Msg → Prop
  | .socket _ => True
  | .accept _ _ => True
  | .addClient _ => True
  | _ => False

theorem ArrayEvent.IsClosing.not_letsIn {ev : ArrayEvent Msg} (h : ev.IsClosing) :
    ¬ ev.LetsIn := by
  cases ev with
  | closeServer | delClient | close => exact not_false
  | _ => exact h.elim

namespace GepServer.StopOk

variable {e : Endpoint Msg} {s s' : GepServer} {l : ServerLabel} {es : List (ArrayEvent Msg)}

theorem step (hs : s.StopOk) (h : serverStep e s l = some (s', es)) : s'.StopOk := by
  refine ⟨hs.ok.step h, ?_, ?_⟩
  · cases serverStep_spec h with
    | start env hpc =>
        have hstopping := (hs.ok.idle hpc).2
        unfold GepServer.start
        dsimp only
        split_ifs <;> simp [hstopping]
    | stop => exact fun _ ↦ rfl
    | join => rintro ⟨⟩
    | _ => exact hs.ctrl
  · cases serverStep_spec h with
    | start env hpc =>
        unfold GepServer.start
        dsimp only
        split_ifs <;> simp [hpc]
    | stop => exact hs.receiving
    | recvBegin serverSocket readFds array es hpc hctrl harray =>
        dsimp only
        split_ifs with hsome
        · exact fun _ _ _ ↦ hsome
        · rintro _ _ ⟨⟩
    | recv r serverSocket readFds array es hpc harray =>
        cases arrayStep_spec harray with
        | served => exact fun _ _ _ ↦ rfl
    | enter | select | accept =>
        dsimp only
        split_ifs <;> rintro _ _ ⟨⟩
    | _ => rintro _ _ ⟨⟩

/-- While `Stop` waits, each step takes the thread nearer to its exit, and lets
nobody in but by an `Accept` that it was about to call. -/
theorem nearer (hs : s.StopOk) (hstopping : s.stopping = true) (hl : l ≠ .join)
    (h : serverStep e s l = some (s', es)) :
    s'.stopping = true ∧ 1 + s'.toExit ≤ s.toExit ∧ l.served + s'.toServe ≤ s.toServe ∧
      l.accepted + s'.toAccept ≤ s.toAccept ∧ (l.accepted = 0 → ∀ ev ∈ es, ¬ ev.LetsIn) := by
  have hctrl := hs.ctrl hstopping
  cases serverStep_spec h with
  | start env hpc =>
      rw [(hs.ok.idle hpc).2] at hstopping
      cases hstopping
  | stop hpc hnot =>
      rw [hstopping] at hnot
      cases hnot
  | join => exact absurd rfl hl
  | enter hpc =>
      refine ⟨hstopping, ?_, le_of_eq (Nat.zero_add _), ?_, fun _ ↦ List.forall_mem_nil _⟩
      · simp only [toExit, hpc]
        split_ifs <;> simp
      · simp only [toAccept, hpc]
        split_ifs <;> simp [ServerLabel.accepted]
  | select r serverSocket passed hpc =>
      refine ⟨hstopping, ?_, le_of_eq (Nat.zero_add _), ?_, fun _ ↦ List.forall_mem_nil _⟩
      · simp only [toExit, hpc]
        split_ifs <;> simp
      · simp only [toAccept, hpc]
        split_ifs <;> simp [ServerLabel.accepted]
  | loopQuit serverSocket hpc | recvQuit serverSocket readFds hpc
  | acceptQuit serverSocket readFds hpc =>
      refine ⟨hstopping, ?_, le_of_eq (Nat.zero_add _), ?_, fun _ ↦ List.forall_mem_nil _⟩
      · simp [toExit, hpc]
      · simp [toAccept, hpc, ServerLabel.accepted]
  | loop _ _ _ htrue | recvBegin _ _ _ _ _ htrue | acceptNone _ _ _ htrue
  | acceptBegin _ _ _ htrue =>
      rw [hctrl] at htrue
      cases htrue
  | recv r serverSocket readFds array es hpc harray =>
      cases arrayStep_spec harray with
      | served addr r ret hserving =>
          refine ⟨hstopping, ?_, ?_, ?_, fun _ ↦ ?_⟩
          · simp [toExit, hpc, hserving]
          · simp [toServe, ServerLabel.served, hserving]
          · simp [toAccept, hpc, ServerLabel.accepted]
          · simp [ArrayEvent.LetsIn]
  | recvEnd serverSocket readFds array es hpc harray =>
      cases arrayStep_spec harray with
      | finished addr ret hserving =>
          refine ⟨hstopping, ?_, ?_, ?_, fun _ ev hev ↦ ?_⟩
          · simp [toExit, hpc, hserving]
          · simp [toServe, ServerLabel.served]
          · simp [toAccept, hpc, ServerLabel.accepted]
          · exact (finish_closing _ _ _ ev hev).not_letsIn
  | accept fd stale serverSocket readFds array es hpc harray =>
      have hserving : array.serving = s.array.serving := by
        cases arrayStep_spec harray <;> rfl
      refine ⟨hstopping, ?_, ?_, ?_, by rintro ⟨⟩⟩
      · simp only [toExit, hpc]
        split_ifs <;> simp
      · simp [toServe, ServerLabel.served, hserving]
      · simp only [toAccept, hpc]
        split_ifs <;> simp [ServerLabel.accepted]

/-- While `Stop` waits, the thread is never stuck. -/
theorem proceeds (hs : s.StopOk) (hstopping : s.stopping = true) (hk : e.CallbacksKeep)
    {log : List (ArrayEvent Msg)} (hi : IsolationOk e s.array log)
    (hretained : ∀ addr ∈ s.array.retained, addr ∈ s.array.array.vector) : s.Proceeds e := by
  have hctrl := hs.ctrl hstopping
  unfold Proceeds
  split
  · have hnot := (hs.ok.idle ‹_›).2
    rw [hstopping] at hnot
    cases hnot
  · rename_i hpc
    simp [serverStep, hpc]
  · rename_i hpc
    simp [serverStep, hpc, hctrl]
  · rename_i hpc
    simp [serverStep, hpc]
  · rename_i hpc
    simp [serverStep, hpc, hctrl]
  · rename_i hpc
    split
    · rename_i hnone
      have hsome := hs.receiving _ _ hpc
      rw [hnone] at hsome
      cases hsome
    · rename_i addr hserving
      intro r hfits
      have hmem : addr ∈ s.array.array.vector :=
        hretained addr (by simp [ArrayState.retained, hserving])
      have hnotFailed := s.array.not_failed (by simp [hserving]) addr
      have hret := (hi.holds addr hmem hnotFailed).returns hk hfits
      simp [serverStep, hpc, GepServer.onArray, arrayStep, hserving, hfits,
        GepChannelArray.serve, hret]
    · rename_i hserving
      simp [serverStep, hpc, GepServer.onArray, arrayStep, hserving]
  · rename_i hpc
    simp [serverStep, hpc]
  · rename_i hpc
    intro fd stale hid
    simp only [serverStep, hpc, GepServer.onArray, arrayStep, GepChannelArray.acceptConnection,
      GepChannelArray.addChannel, if_neg hid, Option.isSome_map]
    split_ifs <;> rfl
  · trivial

/-- `Stop` returns once the thread has exited, and leaves nothing behind. -/
theorem join (hs : s.StopOk) (hstopping : s.stopping = true) (hpc : s.pc = .exited)
    (e : Endpoint Msg) :
    ∃ s', serverStep e s .join = some (s', (s.array.array.stop []).events) ∧ s'.pc = .idle ∧
      s'.stopping = false ∧ s'.array.array.vector = [] ∧ s'.array.array.serverSocket < 0 := by
  have hserving : s.array.serving = none := hs.ok.serving_eq_none (by simp [hpc])
  have hsocket : (@s.array.array.stop Msg []).array.serverSocket < 0 := by
    obtain ⟨-, rest, -, ⟨-, hclosed, -⟩ | ⟨hneg, hsame, -⟩⟩ := @s.array.array.stop_listening Msg []
    · simp [hclosed]
    · simpa [hsame] using hneg
  refine ⟨⟨⟨(@s.array.array.stop Msg []).array, none⟩, s.threadCtrl, .idle, false⟩, ?_, rfl, rfl,
    GepChannelArray.stop_vector _ _, hsocket⟩
  simp [serverStep, hpc, hstopping, GepServer.onArray, arrayStep, hserving, ArrayState.retained,
    ArrayCall.withServing]

end GepServer.StopOk

theorem stopOk {e : Endpoint Msg} {a : GepChannelArray} (hempty : a.vector = [])
    {ok : GepServer → List (ArrayEvent Msg) → ServerLabel → Prop} {s : GepServer}
    {log : List (ArrayEvent Msg)} (h : (serverMachine e a).Reaches ok s log) : s.StopOk := by
  refine h.invariant (P := fun s _ ↦ s.StopOk) ?_ fun _ hs _ hstep ↦ hs.step hstep
  exact ⟨@serverOk Msg e a hempty ok _ _ .init, fun _ ↦ rfl, by rintro _ _ ⟨⟩⟩

section Server

variable {e : Endpoint Msg} {maxChannels port : ℤ} {heap : ℕ → GepChannel} {s s' : GepServer}
  {log es : List (ArrayEvent Msg)} {ls : List ServerLabel}

/-- What the thread still does while `Stop` waits. -/
theorem GepServer.StopOk.runFrom_nearer {a : GepChannelArray} (hs : s.StopOk) (hstopping : s.stopping = true)
    (hls : ∀ l ∈ ls, l ≠ .join) (hrun : (serverMachine e a).runFrom s ls = some (s', es)) :
    s'.stopping = true ∧ ls.length + s'.toExit ≤ s.toExit ∧
      (ls.map ServerLabel.served).sum + s'.toServe ≤ s.toServe ∧
      (ls.map ServerLabel.accepted).sum + s'.toAccept ≤ s.toAccept ∧
      (s.toAccept = 0 → ∀ ev ∈ es, ¬ ev.LetsIn) := by
  let P (s : GepServer) : Prop := s.StopOk ∧ s.stopping = true
  have hP : P s := ⟨hs, hstopping⟩
  have hkept : ∀ {s s' : GepServer} {l : ServerLabel} {es : List (ArrayEvent Msg)}, P s →
      l ≠ .join → serverStep e s l = some (s', es) →
        P s' ∧ 1 + s'.toExit ≤ s.toExit ∧ l.served + s'.toServe ≤ s.toServe ∧
          l.accepted + s'.toAccept ≤ s.toAccept ∧ (l.accepted = 0 → ∀ ev ∈ es, ¬ ev.LetsIn) := by
    rintro s s' l es ⟨hs, hstopping⟩ hl hstep
    obtain ⟨hstopping', hrest⟩ := hs.nearer hstopping hl hstep
    exact ⟨⟨hs.step hstep, hstopping'⟩, hrest⟩
  have hsteps := Machine.sum_cost_add_rank_le (m := serverMachine e a) (P := P)
    (fun hs hl hstep ↦ ⟨(hkept hs hl hstep).1, (hkept hs hl hstep).2.1⟩) hP hls hrun
  have hserved := Machine.sum_cost_add_rank_le (m := serverMachine e a) (P := P)
    (fun hs hl hstep ↦ ⟨(hkept hs hl hstep).1, (hkept hs hl hstep).2.2.1⟩) hP hls hrun
  have haccepted := Machine.sum_cost_add_rank_le (m := serverMachine e a) (P := P)
    (fun hs hl hstep ↦ ⟨(hkept hs hl hstep).1, (hkept hs hl hstep).2.2.2.1⟩) hP hls hrun
  refine ⟨hsteps.1.2, by simpa using hsteps.2, hserved.2, haccepted.2, fun hnone ↦ ?_⟩
  refine Machine.forall_mem_runFrom (m := serverMachine e a) (P := fun s ↦ P s ∧ s.toAccept = 0)
    (fun {s s' l es} hs hl hstep ↦ ?_) ⟨hP, hnone⟩ hls hrun
  obtain ⟨hP', -, -, haccept, hquiet⟩ := hkept hs.1 hl hstep
  rw [hs.2] at haccept
  exact ⟨⟨hP', by omega⟩, hquiet (by omega)⟩

/-- `Stop` of a server returns.  Once it has cleared `thread_ctrl_`, the thread
takes at most three more steps, calls `Recv` at most once, and lets nobody in,
unless it was about to call `Accept`; it is never stuck, whatever its calls
return, and when it has exited `Stop` empties the array. -/
theorem server_stop_returns (hk : e.CallbacksKeep)
    (h : (serverMachine e (.new maxChannels port heap)).Reaches
      (fun _ log l ↦ FreshServerFds log l) s log) (hstopping : s.stopping = true)
    (hls : ∀ l ∈ ls, l ≠ .join)
    (hfresh : (serverMachine e (.new maxChannels port heap)).Along
      (fun _ log l ↦ FreshServerFds log l) s log ls)
    (hrun : (serverMachine e (.new maxChannels port heap)).runFrom s ls = some (s', es)) :
    ls.length ≤ 3 ∧ (ls.map ServerLabel.served).sum ≤ 1 ∧
      (ls.map ServerLabel.accepted).sum ≤ s.toAccept ∧
      (s.toAccept = 0 → ∀ ev ∈ es, ¬ ev.LetsIn) ∧ s'.Proceeds e ∧
      (s'.pc = .exited → ∃ s'', serverStep e s' .join = some (s'', (s'.array.array.stop []).events) ∧
        s''.pc = .idle ∧ s''.stopping = false ∧ s''.array.array.vector = [] ∧
        s''.array.array.serverSocket < 0) := by
  have hs := stopOk rfl h
  obtain ⟨hstopping', hlength, hserved, haccepted, hquiet⟩ :=
    hs.runFrom_nearer hstopping hls hrun
  have hnext := h.run hfresh hrun
  have hs' := stopOk rfl hnext
  have harray := fresh_array hnext
  have hserial := harray.mono fun s _ l hl ↦ (⟨trivial, hl.2⟩ : True ∧ Serial s l)
  have hexit := s.toExit_le
  have hserve := s.toServe_le
  exact ⟨by omega, by omega, by omega, hquiet,
    hs'.proceeds hstopping' hk (isolationOk hk harray) (lifecycleOk hserial).serving,
    fun hpc ↦ hs'.join hstopping' hpc e⟩

end Server

/-- The server is stopped when it is about to call `Accept`. -/
def stopAcceptingRun : List ServerLabel :=
  [.start ⟨3, false, false, false, none⟩, .enter, .loop, .select (.ready (· == 3)), .recvBegin,
    .acceptBegin, .stop]

/-- The server is stopped when it is about to call `Recv`. -/
def stopReceivingRun : List ServerLabel :=
  stopAcceptingRun.dropLast ++
    [.accept 4 TestProtocol.blank, .loop, .select (.ready (· == 4)), .recvBegin, .stop]

theorem stopRun_fresh : (serverMachine TestProtocol.endpoint (.new 1 7 unallocated)).Along
      (fun _ log l ↦ FreshServerFds log l) (.new (.new 1 7 unallocated)) []
      (stopAcceptingRun ++ [.accept 4 TestProtocol.blank, .loop]) ∧
    (serverMachine TestProtocol.endpoint (.new 1 7 unallocated)).Along
      (fun _ log l ↦ FreshServerFds log l) (.new (.new 1 7 unallocated)) []
      (stopReceivingRun ++
        [.recv (.data (TestProtocol.frame ⟨.command4, [8, 7]⟩)), .recvEnd, .acceptBegin]) := by
  decide +kernel

theorem server_stop_returns_accepting :
    (∃ s log s' es s'',
      (serverMachine TestProtocol.endpoint (.new 1 7 unallocated)).runFrom
          (.new (.new 1 7 unallocated)) stopAcceptingRun = some (s, log) ∧ s.toAccept = 1 ∧
        (serverMachine TestProtocol.endpoint (.new 1 7 unallocated)).runFrom s
          [.accept 4 TestProtocol.blank, .loop] = some (s', es) ∧
        es = [.accept 3 4, .addClient 0] ∧ s'.Proceeds TestProtocol.endpoint ∧
        serverStep TestProtocol.endpoint s' .join =
          some (s'', (s'.array.array.stop []).events) ∧ s''.array.array.vector = []) ∧
      ∃ s log s' es s'',
        (serverMachine TestProtocol.endpoint (.new 1 7 unallocated)).runFrom
            (.new (.new 1 7 unallocated)) stopReceivingRun = some (s, log) ∧ s.toAccept = 0 ∧
          (serverMachine TestProtocol.endpoint (.new 1 7 unallocated)).runFrom s
            [.recv (.data (TestProtocol.frame ⟨.command4, [8, 7]⟩)), .recvEnd, .acceptBegin] =
              some (s', es) ∧
          (dispatchedTo 0 es).map Delivery.msg = [⟨.command4, [8, 7]⟩] ∧
          (∀ ev ∈ es, ¬ ev.LetsIn) ∧
          serverStep TestProtocol.endpoint s' .join =
            some (s'', (s'.array.array.stop []).events) ∧ s''.array.array.vector = [] := by
  obtain ⟨haccepting, hreceiving⟩ := stopRun_fresh
  constructor
  · obtain ⟨s, log, s', es, hstart, hstopping, haccept, hrun, hevents, hpc⟩ : ∃ s log s' es,
        (serverMachine TestProtocol.endpoint (.new 1 7 unallocated)).runFrom
            (.new (.new 1 7 unallocated)) stopAcceptingRun = some (s, log) ∧
          s.stopping = true ∧ s.toAccept = 1 ∧
          (serverMachine TestProtocol.endpoint (.new 1 7 unallocated)).runFrom s
            [.accept 4 TestProtocol.blank, .loop] = some (s', es) ∧
          es = [.accept 3 4, .addClient 0] ∧ s'.pc = .exited :=
      ⟨_, _, _, _, rfl, rfl, rfl, rfl, rfl, rfl⟩
    obtain ⟨-, -, -, -, hproceeds, hjoin⟩ := server_stop_returns
      TestProtocol.endpoint_callbacksKeep (.run .init haccepting.left hstart) hstopping (by simp)
      (haccepting.right hstart) hrun
    obtain ⟨s'', hnext, -, -, hempty, -⟩ := hjoin hpc
    exact ⟨s, log, s', es, s'', hstart, haccept, hrun, hevents, hproceeds, hnext, hempty⟩
  · have hends : ((serverMachine TestProtocol.endpoint (.new 1 7 unallocated)).runFrom
        (.new (.new 1 7 unallocated)) stopReceivingRun).bind (fun first ↦
          ((serverMachine TestProtocol.endpoint (.new 1 7 unallocated)).runFrom first.1
            [.recv (.data (TestProtocol.frame ⟨.command4, [8, 7]⟩)), .recvEnd,
              .acceptBegin]).map fun last ↦
            (first.1.stopping, first.1.toAccept, last.1.toExit,
              (dispatchedTo 0 last.2).map Delivery.msg)) =
        some (true, 0, 0, [⟨.command4, [8, 7]⟩]) := by
      decide +kernel
    obtain ⟨⟨s, log⟩, hstart, hends⟩ := Option.bind_eq_some_iff.mp hends
    obtain ⟨⟨s', es⟩, hrun, hends⟩ := Option.map_eq_some_iff.mp hends
    simp only [Prod.mk.injEq] at hends
    obtain ⟨hstopping, haccept, hexit, hout⟩ := hends
    obtain ⟨-, -, -, hquiet, hproceeds, hjoin⟩ := server_stop_returns
      TestProtocol.endpoint_callbacksKeep (.run .init hreceiving.left hstart) hstopping (by simp)
      (hreceiving.right hstart) hrun
    obtain ⟨s'', hnext, -, -, hempty, -⟩ := hjoin (hproceeds.exited hexit)
    exact ⟨s, log, s', es, s'', hstart, haccept, hrun, hout, hquiet haccept, hnext, hempty⟩

/-! ## The client -/

namespace GepClient

structure StopOk (s : GepClient) : Prop where
  idle : s.pc = .idle → s.stopping = false
  ctrl : s.stopping = true → s.threadCtrl = false

/-- The steps that the thread takes at most before it exits. -/
def toExit (s : GepClient) : ℕ :=
  match s.pc with
  | .idle | .exited => 0
  | .head _ | .selected _ _ => 1
  | .entry | .reconnecting | .selecting _ _ | .received _ _ => 2
  | .receiving _ => 3

/-- The connection attempts before the thread exits. -/
def toConnect (s : GepClient) : ℕ :=
  match s.pc with
  | .reconnecting => 1
  | _ => 0

/-- The calls of `Recv` before the thread exits: it is past the check of
`thread_ctrl_` already. -/
def toReceive (s : GepClient) : ℕ :=
  match s.pc with
  | .receiving _ => 1
  | _ => 0

theorem toExit_le (s : GepClient) : s.toExit ≤ 3 := by
  unfold toExit
  split <;> omega

theorem toConnect_le (s : GepClient) : s.toConnect ≤ 1 := by
  unfold toConnect
  split <;> omega

/-- The thread goes on, whatever the call returns that it is in: a connection
attempt, `select` or `Recv`. -/
def Proceeds (e : Endpoint Msg) (s : GepClient) : Prop :=
  match s.pc with
  | .idle => False
  | .entry => (clientStep e s .enter).isSome
  | .head _ => (clientStep e s .loop).isSome
  | .reconnecting => ∀ env, (clientStep e s (.reconnect env)).isSome
  | .selecting _ _ => ∀ r, (clientStep e s (.select r)).isSome
  | .selected _ _ => (clientStep e s .recvBegin).isSome
  | .receiving _ =>
      ∀ r : RawRecv, r.Fits (kMaxMsgLen - toUnsigned 64 s.channel.len) →
        (clientStep e s (.recv r)).isSome
  | .received _ _ => (clientStep e s .recvEnd).isSome
  | .exited => True

/-- A thread with no step left to take has exited. -/
theorem Proceeds.exited {e : Endpoint Msg} {s : GepClient} (h : s.Proceeds e)
    (hexit : s.toExit = 0) : s.pc = .exited := by
  unfold toExit at hexit
  split at hexit
  · simp [Proceeds, *] at h
  · assumption
  all_goals cases hexit

end GepClient

def ClientLabel.connected : ClientLabel → ℕ
  | .reconnect _ => 1
  | _ => 0

def ClientLabel.received : ClientLabel → ℕ
  | .recv _ => 1
  | _ => 0

namespace GepClient.StopOk

variable {e : Endpoint Msg} {s s' : GepClient} {l : ClientLabel} {es : List (ClientEvent Msg)}

theorem step (hs : s.StopOk) (h : clientStep e s l = some (s', es)) : s'.StopOk := by
  cases clientStep_spec h with
  | start env hpc =>
      have hstopping := hs.idle hpc
      unfold GepClient.start
      dsimp only
      split_ifs
      · exact ⟨fun _ ↦ hstopping, hs.ctrl⟩
      · exact ⟨by rintro ⟨⟩, by simp [hstopping]⟩
  | stop hpc => exact ⟨fun hidle ↦ absurd hidle hpc, fun _ ↦ rfl⟩
  | join => exact ⟨fun _ ↦ rfl, by rintro ⟨⟩⟩
  | select =>
      refine ⟨?_, hs.ctrl⟩
      dsimp only
      split_ifs <;> rintro ⟨⟩
  | _ => exact ⟨by rintro ⟨⟩, hs.ctrl⟩

/-- While `Stop` waits, each step takes the thread nearer to its exit, and
nothing is received but by a `Recv` that it was about to call. -/
theorem nearer (hs : s.StopOk) (hstopping : s.stopping = true) (hl : l ≠ .join)
    (h : clientStep e s l = some (s', es)) :
    s'.stopping = true ∧ 1 + s'.toExit ≤ s.toExit ∧ l.connected + s'.toConnect ≤ s.toConnect ∧
      l.received + s'.toReceive ≤ s.toReceive ∧
      (l.received = 0 → ∀ ev ∈ es, ∀ recv, ev ≠ .channel recv) := by
  have hctrl := hs.ctrl hstopping
  cases clientStep_spec h with
  | start env hpc =>
      rw [hs.idle hpc] at hstopping
      cases hstopping
  | stop hpc hnot =>
      rw [hstopping] at hnot
      cases hnot
  | join => exact absurd rfl hl
  | enter hpc | succeeded _ _ hpc | recvQuit _ _ hpc | loopQuit _ hpc =>
      refine ⟨hstopping, ?_, ?_, ?_, fun _ ↦ List.forall_mem_nil _⟩
      · simp [toExit, hpc]
      · simp [toConnect, hpc, ClientLabel.connected]
      · simp [toReceive, hpc, ClientLabel.received]
  | reconnect env hpc =>
      refine ⟨hstopping, ?_, ?_, ?_, fun _ ↦ ?_⟩
      · simp [toExit, hpc, GepClient.reconnect]
      · simp [toConnect, hpc, GepClient.reconnect, ClientLabel.connected]
      · simp [toReceive, hpc, GepClient.reconnect, ClientLabel.received]
      · simp only [GepChannel.Opened.events, List.mem_append, Option.mem_toList,
          Option.map_eq_some_iff]
        rintro _ (⟨fd, -, rfl⟩ | ⟨fd, -, rfl⟩) recv ⟨⟩
  | select r socket passed hpc =>
      refine ⟨hstopping, ?_, ?_, ?_, fun _ ↦ List.forall_mem_nil _⟩
      · simp only [toExit, hpc]
        split_ifs <;> simp
      · simp only [toConnect, hpc, ClientLabel.connected]
        split_ifs <;> simp
      · simp only [toReceive, hpc, ClientLabel.received]
        split_ifs <;> simp
  | recv r socket res hpc =>
      refine ⟨hstopping, ?_, ?_, ?_, by rintro ⟨⟩⟩
      · simp [toExit, hpc]
      · simp [toConnect, hpc, ClientLabel.connected]
      · simp [toReceive, hpc, ClientLabel.received]
  | failed socket res hpc =>
      refine ⟨hstopping, ?_, ?_, ?_, fun _ ↦ ?_⟩
      · simp [toExit, hpc]
      · simp [toConnect, hpc, ClientLabel.connected]
      · simp [toReceive, hpc, ClientLabel.received]
      · simp
  | loopClosed _ htrue | loop _ _ _ htrue | recvNone _ _ _ htrue | recvBegin _ _ _ htrue =>
      rw [hctrl] at htrue
      cases htrue

/-- While `Stop` waits, the thread is never stuck. -/
theorem proceeds (hs : s.StopOk) (hstopping : s.stopping = true) (hk : e.CallbacksKeep)
    {log : List (ClientEvent Msg)} (hloop : LoopOk s) (hok : s.Ok e log) : s.Proceeds e := by
  have hctrl := hs.ctrl hstopping
  unfold Proceeds
  split
  · have hnot := hs.idle ‹_›
    rw [hstopping] at hnot
    cases hnot
  · rename_i hpc
    simp [clientStep, hpc]
  · rename_i hpc
    simp [clientStep, hpc, hctrl]
  · rename_i hpc
    simp [clientStep, hpc]
  · rename_i hpc
    simp [clientStep, hpc]
  · rename_i hpc
    simp [clientStep, hpc]
  · rename_i hpc
    intro r hfits
    have hopen : s.channel.socket ≠ -1 := hloop.waiting (by rw [hpc]; trivial)
    obtain ⟨conn, older, -, -, hholds⟩ := hok.current hopen
    have hret := (hholds (by rw [hpc]; exact id)).returns hk hfits
    simp [clientStep, hpc, hfits, hret]
  · rename_i hpc
    simp only [clientStep, hpc]
    split_ifs <;> rfl
  · trivial

/-- `Stop` returns once the thread has exited, with the channel closed. -/
theorem join (hstopping : s.stopping = true) (hpc : s.pc = .exited) (e : Endpoint Msg) :
    ∃ s', clientStep e s .join = some (s', (s.channel.close.2.2.map .close).toList) ∧
      s'.pc = .idle ∧ s'.stopping = false ∧ s'.channel.socket = -1 ∧ s'.reconnectCount = 0 :=
  ⟨⟨s.channel.close.2.1, s.threadCtrl, 0, .idle, false⟩,
    by simp [clientStep, hpc, hstopping, GepClient.close], rfl, rfl, close_socket _, rfl⟩

end GepClient.StopOk

theorem GepClient.stopOk {e : Endpoint Msg} {stale : Buffer}
    {ok : GepClient → List (ClientEvent Msg) → ClientLabel → Prop} {s : GepClient}
    {log : List (ClientEvent Msg)} (h : (clientMachine e stale).Reaches ok s log) : s.StopOk :=
  h.invariant (P := fun s _ ↦ s.StopOk) ⟨fun _ ↦ rfl, fun _ ↦ rfl⟩ fun _ hs _ hstep ↦ hs.step hstep

section Client

variable {e : Endpoint Msg} {stale : Buffer} {s s' : GepClient} {log es : List (ClientEvent Msg)}
  {ls : List ClientLabel}

/-- What the thread still does while `Stop` waits. -/
theorem GepClient.StopOk.runFrom_nearer (hs : s.StopOk) (hstopping : s.stopping = true)
    (hls : ∀ l ∈ ls, l ≠ .join) (hrun : (clientMachine e stale).runFrom s ls = some (s', es)) :
    s'.stopping = true ∧ ls.length + s'.toExit ≤ s.toExit ∧
      (ls.map ClientLabel.connected).sum + s'.toConnect ≤ s.toConnect ∧
      (ls.map ClientLabel.received).sum + s'.toReceive ≤ s.toReceive ∧
      (s.toReceive = 0 → ∀ ev ∈ es, ∀ recv, ev ≠ .channel recv) := by
  let P (s : GepClient) : Prop := s.StopOk ∧ s.stopping = true
  have hP : P s := ⟨hs, hstopping⟩
  have hkept : ∀ {s s' : GepClient} {l : ClientLabel} {es : List (ClientEvent Msg)}, P s →
      l ≠ .join → clientStep e s l = some (s', es) →
        P s' ∧ 1 + s'.toExit ≤ s.toExit ∧ l.connected + s'.toConnect ≤ s.toConnect ∧
          l.received + s'.toReceive ≤ s.toReceive ∧
          (l.received = 0 → ∀ ev ∈ es, ∀ recv, ev ≠ .channel recv) := by
    rintro s s' l es ⟨hs, hstopping⟩ hl hstep
    obtain ⟨hstopping', hrest⟩ := hs.nearer hstopping hl hstep
    exact ⟨⟨hs.step hstep, hstopping'⟩, hrest⟩
  have hsteps := Machine.sum_cost_add_rank_le (m := clientMachine e stale) (P := P)
    (fun hs hl hstep ↦ ⟨(hkept hs hl hstep).1, (hkept hs hl hstep).2.1⟩) hP hls hrun
  have hconnects := Machine.sum_cost_add_rank_le (m := clientMachine e stale) (P := P)
    (fun hs hl hstep ↦ ⟨(hkept hs hl hstep).1, (hkept hs hl hstep).2.2.1⟩) hP hls hrun
  have hreceives := Machine.sum_cost_add_rank_le (m := clientMachine e stale) (P := P)
    (fun hs hl hstep ↦ ⟨(hkept hs hl hstep).1, (hkept hs hl hstep).2.2.2.1⟩) hP hls hrun
  refine ⟨hsteps.1.2, by simpa using hsteps.2, hconnects.2, hreceives.2, fun hnone ↦ ?_⟩
  refine Machine.forall_mem_runFrom (m := clientMachine e stale)
    (P := fun s ↦ P s ∧ s.toReceive = 0) (fun {s s' l es} hs hl hstep ↦ ?_) ⟨hP, hnone⟩ hls hrun
  obtain ⟨hP', -, -, hreceive, hquiet⟩ := hkept hs.1 hl hstep
  rw [hs.2] at hreceive
  exact ⟨⟨hP', by omega⟩, hquiet (by omega)⟩

/-- `Stop` of a client returns.  Once it has cleared `thread_ctrl_`, the thread
takes at most three more steps, tries to connect at most once, and receives
nothing, unless it was about to call `Recv`; it is never stuck, whatever its
calls return, and when it has exited `Stop` closes the channel. -/
theorem client_stop_returns (hk : e.CallbacksKeep)
    (h : (clientMachine e stale).Reaches (fun _ _ _ ↦ True) s log) (hstopping : s.stopping = true)
    (hls : ∀ l ∈ ls, l ≠ .join) (hrun : (clientMachine e stale).runFrom s ls = some (s', es)) :
    ls.length ≤ 3 ∧ (ls.map ClientLabel.connected).sum ≤ 1 ∧
      (ls.map ClientLabel.received).sum ≤ s.toReceive ∧
      (s.toReceive = 0 → ∀ ev ∈ es, ∀ recv, ev ≠ .channel recv) ∧ s'.Proceeds e ∧
      (s'.pc = .exited → ∃ s'', clientStep e s' .join =
          some (s'', (s'.channel.close.2.2.map .close).toList) ∧ s''.pc = .idle ∧
        s''.stopping = false ∧ s''.channel.socket = -1 ∧ s''.reconnectCount = 0) := by
  have hs := GepClient.stopOk h
  obtain ⟨hstopping', hlength, hconnects, hreceives, hquiet⟩ :=
    hs.runFrom_nearer hstopping hls hrun
  have hnext := h.run (.of_forall (fun _ _ _ ↦ trivial) _ _ _) hrun
  have hs' := GepClient.stopOk hnext
  have hexit := s.toExit_le
  have hconnect := s.toConnect_le
  exact ⟨by omega, by omega, by omega, hquiet,
    hs'.proceeds hstopping' hk (loopOk hnext) (GepClient.ok_of_reaches hk hnext),
    fun hpc ↦ GepClient.StopOk.join hstopping' hpc e⟩

end Client

/-- The client is stopped when it is about to call `Recv`. -/
def stopClientRun : List ClientLabel :=
  [.start ⟨3, false⟩, .enter, .loop, .select (.ready fun _ ↦ true), .recvBegin, .stop]

/-- The client is stopped before it connects again. -/
def stopConnectingRun : List ClientLabel :=
  stopClientRun.dropLast ++ [.recv (.data []), .recvEnd, .loop, .stop]

theorem client_stop_returns_receiving :
    (∃ s log s' es s'',
      (clientMachine TestProtocol.endpoint TestProtocol.blank).runFrom (.new TestProtocol.blank)
          stopClientRun = some (s, log) ∧ s.toReceive = 1 ∧
        (clientMachine TestProtocol.endpoint TestProtocol.blank).runFrom s
            [.recv (.data (TestProtocol.frame ⟨.command4, [8, 7]⟩)), .recvEnd, .loop] =
          some (s', es) ∧ s'.Proceeds TestProtocol.endpoint ∧
        clientStep TestProtocol.endpoint s' .join = some (s'', [.close 3]) ∧
        s''.channel.socket = -1) ∧
      ∃ s log s' es s'',
        (clientMachine TestProtocol.endpoint TestProtocol.blank).runFrom (.new TestProtocol.blank)
            stopConnectingRun = some (s, log) ∧ s.toReceive = 0 ∧
          (clientMachine TestProtocol.endpoint TestProtocol.blank).runFrom s
            [.reconnect ⟨4, false⟩, .loop] = some (s', es) ∧
          (∀ ev ∈ es, ∀ recv, ev ≠ .channel recv) ∧
          clientStep TestProtocol.endpoint s' .join = some (s'', [.close 4]) ∧
          s''.channel.socket = -1 := by
  constructor
  · have hends : ((clientMachine TestProtocol.endpoint TestProtocol.blank).runFrom
        (.new TestProtocol.blank) stopClientRun).bind (fun first ↦
          ((clientMachine TestProtocol.endpoint TestProtocol.blank).runFrom first.1
            [.recv (.data (TestProtocol.frame ⟨.command4, [8, 7]⟩)), .recvEnd, .loop]).map
              fun last ↦ (first.1.stopping, first.1.toReceive, last.1.toExit,
                last.1.channel.close.2.2)) = some (true, 1, 0, some 3) := by
      decide +kernel
    obtain ⟨⟨s, log⟩, hstart, hends⟩ := Option.bind_eq_some_iff.mp hends
    obtain ⟨⟨s', es⟩, hrun, hends⟩ := Option.map_eq_some_iff.mp hends
    simp only [Prod.mk.injEq] at hends
    obtain ⟨hstopping, hreceive, hexit, hclose⟩ := hends
    obtain ⟨-, -, -, -, hproceeds, hjoin⟩ := client_stop_returns
      TestProtocol.endpoint_callbacksKeep
      (.run .init (.of_forall (fun _ _ _ ↦ trivial) _ _ _) hstart) hstopping (by simp) hrun
    obtain ⟨s'', hnext, -, -, hclosed, -⟩ := hjoin (hproceeds.exited hexit)
    rw [hclose] at hnext
    exact ⟨s, log, s', es, s'', hstart, hreceive, hrun, hproceeds, hnext, hclosed⟩
  · obtain ⟨s, log, s', es, hstart, hstopping, hreceive, hrun, hpc, hclose⟩ : ∃ s log s' es,
        (clientMachine TestProtocol.endpoint TestProtocol.blank).runFrom (.new TestProtocol.blank)
            stopConnectingRun = some (s, log) ∧ s.stopping = true ∧ s.toReceive = 0 ∧
          (clientMachine TestProtocol.endpoint TestProtocol.blank).runFrom s
            [.reconnect ⟨4, false⟩, .loop] = some (s', es) ∧ s'.pc = .exited ∧
          s'.channel.close.2.2 = some 4 :=
      ⟨_, _, _, _, rfl, rfl, rfl, rfl, rfl, rfl⟩
    obtain ⟨-, -, -, hquiet, -, hjoin⟩ := client_stop_returns
      TestProtocol.endpoint_callbacksKeep
      (.run .init (.of_forall (fun _ _ _ ↦ trivial) _ _ _) hstart) hstopping (by simp) hrun
    obtain ⟨s'', hnext, -, -, hclosed, -⟩ := hjoin hpc
    rw [hclose] at hnext
    exact ⟨s, log, s', es, s'', hstart, hreceive, hrun, hquiet hreceive, hnext, hclosed⟩

end Libgep
