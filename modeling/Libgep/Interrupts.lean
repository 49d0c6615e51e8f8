import Libgep.Client
import Libgep.Lifecycle

/-!
# Interrupted waits

After a `select` that a signal interrupted, the two service loops consult the
set that it left behind as if all of its descriptors were ready.  This module
follows the rest of such an iteration, for every answer to its `Recv` and its
`Accept`, and tells when it does no harm.
-/

namespace Libgep

open Transition

variable {Msg : Type*} {e : Endpoint Msg}

/-! ## The descriptors waited for -/

namespace GepChannelArray

theorem getVectorReadFds_eq_true {a : GepChannelArray} {fds fds' : FdSet} {fd : ℤ}
    (h : a.getVectorReadFds fds = some fds') : fds' fd = true ↔
      fds fd = true ∨ ∃ addr ∈ a.vector, 0 ≤ (a.heap addr).socket ∧ (a.heap addr).socket = fd := by
  unfold getVectorReadFds at h
  generalize a.vector = addrs at h ⊢
  induction addrs generalizing fds with
  | nil =>
      cases h
      simp
  | cons addr addrs ih =>
      rw [List.foldlM_cons] at h
      obtain ⟨fds₁, hfirst, hrest⟩ := Option.bind_eq_some_iff.mp h
      rw [ih hrest]
      split_ifs at hfirst with hneg
      · cases hfirst
        simp [Int.not_le.mpr hneg]
      · rw [FdSet.insert_eq_true hfirst, List.exists_mem_cons_iff,
          and_iff_right (Int.not_lt.mp hneg), or_assoc, @eq_comm _ fd]

theorem pick_eq_none {a : GepChannelArray} {readFds : FdSet}
    (hall : ∀ addr ∈ a.vector, 0 ≤ (a.heap addr).socket → readFds (a.heap addr).socket = true)
    (h : a.pick readFds = none) : ∀ addr ∈ a.vector, (a.heap addr).socket < 0 := by
  intro addr hmem
  have hnot := List.find?_eq_none.mp h addr hmem
  simp only [decide_eq_true_eq, not_and] at hnot
  by_contra hopen
  exact hnot (Int.not_lt.mp hopen) (hall addr hmem (Int.not_lt.mp hopen))

theorem finish_acts {a : GepChannelArray} {addr : ℕ} (hmem : addr ∈ a.vector) :
    (@a.finish Msg addr (-1)).events ≠ [] := by
  have hremove : (@a.remove Msg addr (-1)).events = [.delClient (a.heap addr).id] := by
    rw [remove, if_pos ⟨by decide, hmem⟩]
  unfold finish
  dsimp only
  rw [hremove]
  exact List.cons_ne_nil _ _

end GepChannelArray

theorem GepChannel.recvData_acts (e : Endpoint Msg) (c : GepChannel) (r : RawRecv) :
    (c.recvData e r).events ≠ [] ∨ (c.recvData e r).ret = some (-1) := by
  cases recvData_inv e c r with
  | refused _ eq =>
      rw [eq]
      exact .inr rfl
  | failed _ _ _ _ eq | closed _ _ _ eq | received _ _ _ _ _ eq =>
      rw [eq]
      exact .inl (List.cons_ne_nil _ _)

theorem GepServer.readFds_eq_true {s : GepServer} {serverSocket fd : ℤ} {readFds : FdSet}
    (h : s.readFds serverSocket = some readFds) : readFds fd = true ↔
      fd = serverSocket ∨ ∃ addr ∈ s.array.array.vector,
        0 ≤ (s.array.array.heap addr).socket ∧ (s.array.array.heap addr).socket = fd := by
  obtain ⟨fds, hserver, hvector⟩ := Option.bind_eq_some_iff.mp h
  rw [GepChannelArray.getVectorReadFds_eq_true hvector, FdSet.insert_eq_true hserver]
  simp

/-- The set that `select` is waiting for is the one of the array. -/
def GepServer.PassedOk (s : GepServer) : Prop :=
  ∀ serverSocket passed, s.pc = .selecting serverSocket passed →
    s.readFds serverSocket = some passed

theorem GepServer.PassedOk.step {s s' : GepServer} {l : ServerLabel} {es : List (ArrayEvent Msg)}
    (hs : s.PassedOk) (h : serverStep e s l = some (s', es)) : s'.PassedOk := by
  intro serverSocket passed hpc'
  cases serverStep_spec h with
  | start env hpc =>
      unfold GepServer.start at hpc'
      dsimp only at hpc'
      split at hpc'
      · rw [hpc] at hpc'
        cases hpc'
      · cases hpc'
  | stop => exact hs serverSocket passed hpc'
  | loop serverSocket' readFds hpc hctrl hfds =>
      cases hpc'
      exact hfds
  | enter | select | recvBegin | accept =>
      dsimp only at hpc'
      split at hpc' <;> cases hpc'
  | join | loopQuit | recvQuit | recv | recvEnd | acceptQuit | acceptNone | acceptBegin => cases hpc'

theorem GepServer.passedOk {a : GepChannelArray}
    {ok : GepServer → List (ArrayEvent Msg) → ServerLabel → Prop} {s : GepServer}
    {log : List (ArrayEvent Msg)} (h : (serverMachine e a).Reaches ok s log) : s.PassedOk :=
  h.invariant (P := fun s _ ↦ s.PassedOk) (by rintro _ _ ⟨⟩) fun _ hs _ hstep ↦ hs.step hstep

/-! ## The server -/

/-- The steps of an iteration that follow its `select`, and `Stop`. -/
def ServerLabel.IsRest : ServerLabel → Prop
  | .stop => True
  | .recvBegin => True
  | .recv _ => True
  | .recvEnd => True
  | .acceptBegin => True
  | .accept _ _ => True
  | _ => False

def ServerPc.AtEnd : ServerPc → Prop
  | .head _ => True
  | .exited => True
  | _ => False

/-- The value of `thread_ctrl_` at a check that follows `select`. -/
def GepServer.check (s : GepServer) : ServerLabel → Option Bool
  | .recvBegin => some s.threadCtrl
  | .acceptBegin => some s.threadCtrl
  | _ => none

abbrev ServerRest (e : Endpoint Msg) (a : GepChannelArray) :=
  (serverMachine e a).Segment ServerLabel.IsRest (ServerPc.AtEnd ∘ GepServer.pc)

/-- Nothing was attempted on any descriptor, no callback was invoked and
nothing was closed or removed, and the loop goes on unless it was stopped. -/
structure ServerHarmless (s s' : GepServer) (es : List (ArrayEvent Msg)) : Prop where
  quiet : es = []
  array : s'.array = s.array
  goesOn : s'.threadCtrl = true → ∃ serverSocket, s'.pc = .head serverSocket

/-- The server was stopped before the first check, or no client is connected
and it was stopped before the second one. -/
def ServerSpared (s : GepServer) (checks : List Bool) : Prop :=
  checks[0]? = some false ∨
    (∀ addr ∈ s.array.array.vector, (s.array.array.heap addr).socket < 0) ∧
      checks[1]? = some false

/-- A `select` of the server was interrupted, and `ls` is the rest of the
iteration. -/
structure ServerInterrupt (e : Endpoint Msg) (a : GepChannelArray) (s : GepServer)
    (ls : List ServerLabel) (s' : GepServer) (es : List (ArrayEvent Msg)) : Prop where
  interrupted : ∃ s₀ log, (serverMachine e a).Reaches (fun _ _ _ ↦ True) s₀ log ∧
    serverStep e s₀ (.select (.error eintr)) = some (s, [])
  rest : ServerRest e a s ls s' es

theorem ServerHarmless.of_array {s s₁ s' : GepServer} {es : List (ArrayEvent Msg)}
    (h : ServerHarmless s₁ s' es) (harray : s₁.array = s.array) : ServerHarmless s s' es :=
  ⟨h.quiet, h.array.trans harray, h.goesOn⟩

namespace ServerRest

variable {a : GepChannelArray} {s s' : GepServer} {ls : List ServerLabel}
  {es : List (ArrayEvent Msg)} {serverSocket : ℤ} {readFds : FdSet}

theorem ended (h : ServerRest e a s ls s' es) (hend : s.pc.AtEnd) (hctrl : s.threadCtrl = false) :
    ServerHarmless s s' es := by
  induction ls generalizing s es with
  | nil =>
      obtain ⟨rfl, rfl, -⟩ := h.nil
      exact ⟨rfl, rfl, fun hrun ↦ absurd (hctrl.symm.trans hrun) Bool.false_ne_true⟩
  | cons l ls ih =>
      obtain ⟨s₁, es₁, es₂, hl, hstep, hrest, rfl⟩ := h.cons
      cases serverStep_spec hstep with
      | stop => exact (ih hrest hend rfl).of_array rfl
      | recvQuit _ _ hpc | recvBegin _ _ _ _ hpc | recv _ _ _ _ _ hpc | recvEnd _ _ _ _ hpc
      | acceptQuit _ _ hpc | acceptNone _ _ hpc | acceptBegin _ _ hpc | accept _ _ _ _ _ _ hpc =>
          rw [hpc] at hend
          exact hend.elim
      | _ => exact hl.elim

theorem accepting (h : ServerRest e a s ls s' es) (hpc : s.pc = .accepting serverSocket readFds) :
    es ≠ [] := by
  induction ls generalizing s es with
  | nil =>
      obtain ⟨-, -, hend⟩ := h.nil
      rw [Function.comp_apply, hpc] at hend
      exact hend.elim
  | cons l ls ih =>
      obtain ⟨s₁, es₁, es₂, hl, hstep, hrest, rfl⟩ := h.cons
      cases serverStep_spec hstep with
      | stop => exact ih hrest hpc
      | accept fd stale serverSocket' readFds' array es₁ hpc' harray =>
          apply List.append_ne_nil_of_left_ne_nil
          cases arrayStep_spec harray <;> exact List.cons_ne_nil _ _
      | recvQuit _ _ hpc' | recvBegin _ _ _ _ hpc' | recv _ _ _ _ _ hpc' | recvEnd _ _ _ _ hpc'
      | acceptQuit _ _ hpc' | acceptNone _ _ hpc' | acceptBegin _ _ hpc' =>
          rw [hpc] at hpc'
          cases hpc'
      | _ => exact hl.elim

/-- `Accept` is attempted unless the loop was stopped. -/
theorem received (h : ServerRest e a s ls s' es) (hpc : s.pc = .received serverSocket readFds)
    (hset : readFds serverSocket = true) :
    let checks := (serverMachine e a).observe GepServer.check s ls
    checks[0]? = some false ∧ ServerHarmless s s' es ∨ checks[0]? = some true ∧ es ≠ [] := by
  induction ls generalizing s es with
  | nil =>
      obtain ⟨-, -, hend⟩ := h.nil
      rw [Function.comp_apply, hpc] at hend
      exact hend.elim
  | cons l ls ih =>
      obtain ⟨s₁, es₁, es₂, hl, hstep, hrest, rfl⟩ := h.cons
      rw [Machine.observe_cons hstep]
      cases serverStep_spec hstep with
      | stop => exact (ih hrest hpc).imp_left fun hquiet ↦ ⟨hquiet.1, hquiet.2.of_array rfl⟩
      | acceptQuit serverSocket' readFds' hpc' hctrl =>
          refine .inl ⟨by simp [GepServer.check, hctrl], ?_⟩
          exact (ended hrest trivial hctrl).of_array rfl
      | acceptNone serverSocket' readFds' hpc' hctrl hnot =>
          rw [hpc] at hpc'
          cases hpc'
          exact absurd (hset.symm.trans hnot) Bool.true_eq_false.mp
      | acceptBegin serverSocket' readFds' hpc' hctrl hset' =>
          exact .inr ⟨by simp [GepServer.check, hctrl], accepting hrest rfl⟩
      | recvQuit _ _ hpc' | recvBegin _ _ _ _ hpc' | recv _ _ _ _ _ hpc' | recvEnd _ _ _ _ hpc'
      | accept _ _ _ _ _ _ hpc' =>
          rw [hpc] at hpc'
          cases hpc'
      | _ => exact hl.elim

/-- A channel that is being served reads its socket, or fails and is removed. -/
theorem receiving (h : ServerRest e a s ls s' es) (hpc : s.pc = .receiving serverSocket readFds)
    {addr : ℕ} (hmem : addr ∈ s.array.array.vector)
    (hserving : s.array.serving = some ⟨addr, none⟩ ∨ s.array.serving = some ⟨addr, some (-1)⟩) :
    es ≠ [] := by
  induction ls generalizing s es with
  | nil =>
      obtain ⟨-, -, hend⟩ := h.nil
      rw [Function.comp_apply, hpc] at hend
      exact hend.elim
  | cons l ls ih =>
      obtain ⟨s₁, es₁, es₂, hl, hstep, hrest, rfl⟩ := h.cons
      cases serverStep_spec hstep with
      | stop => exact ih hrest hpc hmem hserving
      | recv r serverSocket' readFds' array es₁ hpc' harray =>
          rw [hpc] at hpc'
          cases hpc'
          cases arrayStep_spec harray with
          | served addr' r ret hserving' hfits hret =>
              have haddr : addr' = addr := by
                rw [hserving'] at hserving
                rcases hserving with heq | heq <;> cases heq
                rfl
              subst haddr
              rcases GepChannel.recvData_acts e (s.array.array.heap addr') r with hacts | hfails
              · apply List.append_ne_nil_of_left_ne_nil
                intro hnil
                exact hacts (List.map_eq_nil_iff.mp hnil)
              · apply List.append_ne_nil_of_right_ne_nil
                have hret' : ret = -1 := Option.some.inj (hret.symm.trans hfails)
                subst hret'
                exact ih hrest rfl hmem (.inr rfl)
      | recvEnd serverSocket' readFds' array es₁ hpc' harray =>
          apply List.append_ne_nil_of_left_ne_nil
          cases arrayStep_spec harray with
          | finished addr' ret hserving' =>
              have heq : addr' = addr ∧ ret = -1 := by
                rw [hserving'] at hserving
                rcases hserving with heq | heq <;> cases heq
                exact ⟨rfl, rfl⟩
              obtain ⟨rfl, rfl⟩ := heq
              exact GepChannelArray.finish_acts hmem
      | recvQuit _ _ hpc' | recvBegin _ _ _ _ hpc' | acceptQuit _ _ hpc' | acceptNone _ _ hpc'
      | acceptBegin _ _ hpc' | accept _ _ _ _ _ _ hpc' =>
          rw [hpc] at hpc'
          cases hpc'
      | _ => exact hl.elim

/-- The rest of an iteration whose `select` left a set behind that holds the
server socket and every socket of the array. -/
theorem selected (h : ServerRest e a s ls s' es) (hpc : s.pc = .selected serverSocket readFds)
    (hset : readFds serverSocket = true)
    (hall : ∀ addr ∈ s.array.array.vector, 0 ≤ (s.array.array.heap addr).socket →
      readFds (s.array.array.heap addr).socket = true) :
    ServerHarmless s s' es ↔
      ServerSpared s ((serverMachine e a).observe GepServer.check s ls) := by
  induction ls generalizing s es with
  | nil =>
      obtain ⟨-, -, hend⟩ := h.nil
      rw [Function.comp_apply, hpc] at hend
      exact hend.elim
  | cons l ls ih =>
      obtain ⟨s₁, es₁, es₂, hl, hstep, hrest, rfl⟩ := h.cons
      rw [Machine.observe_cons hstep]
      cases serverStep_spec hstep with
      | stop =>
          have hiff := ih hrest hpc hall
          exact ⟨fun hharmless ↦ hiff.mp (hharmless.of_array rfl),
            fun hspared ↦ (hiff.mpr hspared).of_array rfl⟩
      | recvQuit serverSocket' readFds' hpc' hctrl =>
          refine ⟨fun _ ↦ .inl ?_, fun _ ↦ (ended hrest trivial hctrl).of_array rfl⟩
          simp [GepServer.check, hctrl]
      | recvBegin serverSocket' readFds' array es₁ hpc' hctrl harray =>
          rw [hpc] at hpc'
          cases hpc'
          have hfirst : (s.check .recvBegin).toList = [true] := by simp [GepServer.check, hctrl]
          rw [hfirst, List.singleton_append]
          cases arrayStep_spec harray with
          | idle _ hserving hpick =>
              have hnone := GepChannelArray.pick_eq_none hall hpick
              rcases received hrest (by simp [hserving]) hset with ⟨hcheck, hharmless⟩ | ⟨hcheck, hacts⟩
              · exact ⟨fun _ ↦ .inr ⟨hnone, hcheck⟩, fun _ ↦ hharmless.of_array rfl⟩
              · refine ⟨fun hharmless ↦ absurd hharmless.quiet hacts, ?_⟩
                rintro (hstopped | ⟨-, hsecond⟩)
                · cases hstopped
                · rw [List.getElem?_cons_succ, hcheck] at hsecond
                  cases hsecond
          | picked _ addr hserving hpick =>
              obtain ⟨hmem, hopen, -⟩ := GepChannelArray.pick_mem _ hpick
              have hacts := receiving hrest rfl hmem (.inl rfl)
              refine ⟨fun hharmless ↦ absurd hharmless.quiet hacts, ?_⟩
              rintro (hstopped | ⟨hnone, -⟩)
              · cases hstopped
              · exact absurd (hnone addr hmem) (Int.not_lt.mpr hopen)
      | recv _ _ _ _ _ hpc' | recvEnd _ _ _ _ hpc' | acceptQuit _ _ hpc' | acceptNone _ _ hpc'
      | acceptBegin _ _ hpc' | accept _ _ _ _ _ _ hpc' =>
          rw [hpc] at hpc'
          cases hpc'
      | _ => exact hl.elim

end ServerRest

theorem ServerInterrupt.harmless_iff {maxChannels port : ℤ} {heap : ℕ → GepChannel}
    {s s' : GepServer} {ls : List ServerLabel} {es : List (ArrayEvent Msg)}
    (h : ServerInterrupt e (.new maxChannels port heap) s ls s' es) :
    ServerHarmless s s' es ↔ ServerSpared s
      ((serverMachine e (.new maxChannels port heap)).observe GepServer.check s ls) := by
  obtain ⟨s₀, log, hreaches, hselect⟩ := h.interrupted
  have hpassed := GepServer.passedOk hreaches
  cases serverStep_spec hselect with
  | select _ serverSocket passed hpc =>
      have hfds : s₀.readFds serverSocket = some passed := hpassed serverSocket passed hpc
      refine ServerRest.selected h.rest rfl ?_ fun addr hmem hopen ↦ ?_
      · exact (GepServer.readFds_eq_true hfds).mpr (.inl rfl)
      · exact (GepServer.readFds_eq_true hfds).mpr (.inr ⟨addr, hmem, hopen, rfl⟩)

/-! ## The client -/

/-- The set that `select` is waiting for holds the socket of the loop. -/
def GepClient.PassedOk (s : GepClient) : Prop :=
  ∀ socket passed, s.pc = .selecting socket passed → passed socket = true

theorem GepClient.PassedOk.step {s s' : GepClient} {l : ClientLabel}
    {es : List (ClientEvent Msg)} (hs : s.PassedOk) (h : clientStep e s l = some (s', es)) :
    s'.PassedOk := by
  intro socket passed hpc'
  cases clientStep_spec h with
  | start env hpc =>
      unfold GepClient.start at hpc'
      dsimp only at hpc'
      split at hpc'
      · rw [hpc] at hpc'
        cases hpc'
      · cases hpc'
  | stop => exact hs socket passed hpc'
  | loop socket' readFds hpc hctrl hopen hfds =>
      cases hpc'
      exact (FdSet.insert_eq_true hfds).mpr (.inr rfl)
  | select =>
      dsimp only at hpc'
      split at hpc' <;> cases hpc'
  | join | enter | loopQuit | loopClosed | reconnect | recvQuit | recvNone | recvBegin | recv
  | failed | succeeded => cases hpc'

theorem GepClient.passedOk {stale : Buffer}
    {ok : GepClient → List (ClientEvent Msg) → ClientLabel → Prop} {s : GepClient}
    {log : List (ClientEvent Msg)} (h : (clientMachine e stale).Reaches ok s log) : s.PassedOk :=
  h.invariant (P := fun s _ ↦ s.PassedOk) (by rintro _ _ ⟨⟩) fun _ hs _ hstep ↦ hs.step hstep

def ClientLabel.IsRest : ClientLabel → Prop
  | .stop => True
  | .recvBegin => True
  | .recv _ => True
  | .recvEnd => True
  | _ => False

def ClientPc.AtEnd : ClientPc → Prop
  | .head _ => True
  | .exited => True
  | _ => False

def GepClient.check (s : GepClient) : ClientLabel → Option Bool
  | .recvBegin => some s.threadCtrl
  | _ => none

abbrev ClientRest (e : Endpoint Msg) (stale : Buffer) :=
  (clientMachine e stale).Segment ClientLabel.IsRest (ClientPc.AtEnd ∘ GepClient.pc)

structure ClientHarmless (s s' : GepClient) (es : List (ClientEvent Msg)) : Prop where
  quiet : es = []
  channel : s'.channel = s.channel
  goesOn : s'.threadCtrl = true → ∃ socket, s'.pc = .head socket

/-- The client was stopped before the check. -/
def ClientSpared (checks : List Bool) : Prop := checks[0]? = some false

structure ClientInterrupt (e : Endpoint Msg) (stale : Buffer) (s : GepClient)
    (ls : List ClientLabel) (s' : GepClient) (es : List (ClientEvent Msg)) : Prop where
  interrupted : ∃ s₀ log, (clientMachine e stale).Reaches (fun _ _ _ ↦ True) s₀ log ∧
    clientStep e s₀ (.select (.error eintr)) = some (s, [])
  rest : ClientRest e stale s ls s' es

theorem ClientHarmless.of_channel {s s₁ s' : GepClient} {es : List (ClientEvent Msg)}
    (h : ClientHarmless s₁ s' es) (hchannel : s₁.channel = s.channel) : ClientHarmless s s' es :=
  ⟨h.quiet, h.channel.trans hchannel, h.goesOn⟩

theorem close_acts {c : GepChannel} (hopen : c.socket ≠ -1) : c.close.2.2 = some c.socket := by
  rw [GepChannel.close, if_pos hopen]

namespace ClientRest

variable {stale : Buffer} {s s' : GepClient} {ls : List ClientLabel}
  {es : List (ClientEvent Msg)} {socket : ℤ} {readFds : FdSet}

theorem ended (h : ClientRest e stale s ls s' es) (hend : s.pc.AtEnd)
    (hctrl : s.threadCtrl = false) : ClientHarmless s s' es := by
  induction ls generalizing s es with
  | nil =>
      obtain ⟨rfl, rfl, -⟩ := h.nil
      exact ⟨rfl, rfl, fun hrun ↦ absurd (hctrl.symm.trans hrun) Bool.false_ne_true⟩
  | cons l ls ih =>
      obtain ⟨s₁, es₁, es₂, hl, hstep, hrest, rfl⟩ := h.cons
      cases clientStep_spec hstep with
      | stop => exact (ih hrest hend rfl).of_channel rfl
      | recvQuit _ _ hpc | recvNone _ _ hpc | recvBegin _ _ hpc | recv _ _ _ hpc | failed _ _ hpc
      | succeeded _ _ hpc =>
          rw [hpc] at hend
          exact hend.elim
      | _ => exact hl.elim

theorem received (h : ClientRest e stale s ls s' es) {res : ℤ} (hres : res < 0)
    (hpc : s.pc = .received socket res) (hopen : s.channel.socket ≠ -1) : es ≠ [] := by
  induction ls generalizing s es with
  | nil =>
      obtain ⟨-, -, hend⟩ := h.nil
      rw [Function.comp_apply, hpc] at hend
      exact hend.elim
  | cons l ls ih =>
      obtain ⟨s₁, es₁, es₂, hl, hstep, hrest, rfl⟩ := h.cons
      cases clientStep_spec hstep with
      | stop => exact ih hrest hpc hopen
      | failed =>
          rw [close_acts hopen]
          exact List.cons_ne_nil _ _
      | succeeded socket' res' hpc' hres' =>
          rw [hpc] at hpc'
          cases hpc'
          exact absurd hres (Int.not_lt.mpr hres')
      | recvQuit _ _ hpc' | recvNone _ _ hpc' | recvBegin _ _ hpc' | recv _ _ _ hpc' =>
          rw [hpc] at hpc'
          cases hpc'
      | _ => exact hl.elim

/-- The socket is read, or the receive path fails and closes it. -/
theorem receiving (h : ClientRest e stale s ls s' es) (hpc : s.pc = .receiving socket)
    (hopen : s.channel.socket ≠ -1) : es ≠ [] := by
  induction ls generalizing s es with
  | nil =>
      obtain ⟨-, -, hend⟩ := h.nil
      rw [Function.comp_apply, hpc] at hend
      exact hend.elim
  | cons l ls ih =>
      obtain ⟨s₁, es₁, es₂, hl, hstep, hrest, rfl⟩ := h.cons
      cases clientStep_spec hstep with
      | stop => exact ih hrest hpc hopen
      | recv r socket' res hpc' hfits hres =>
          rcases GepChannel.recvData_acts e s.channel r with hacts | hfails
          · apply List.append_ne_nil_of_left_ne_nil
            intro hnil
            exact hacts (List.map_eq_nil_iff.mp hnil)
          · apply List.append_ne_nil_of_right_ne_nil
            have hneg : res = -1 := Option.some.inj (hres.symm.trans hfails)
            apply received hrest (by rw [hneg]; decide) rfl
            exact (GepChannel.recvData_socket hres).trans_ne hopen
      | recvQuit _ _ hpc' | recvNone _ _ hpc' | recvBegin _ _ hpc' | failed _ _ hpc'
      | succeeded _ _ hpc' =>
          rw [hpc] at hpc'
          cases hpc'
      | _ => exact hl.elim

theorem selected (h : ClientRest e stale s ls s' es) (hpc : s.pc = .selected socket readFds)
    (hset : readFds socket = true) (hopen : s.channel.socket ≠ -1) :
    ClientHarmless s s' es ↔
      ClientSpared ((clientMachine e stale).observe GepClient.check s ls) := by
  induction ls generalizing s es with
  | nil =>
      obtain ⟨-, -, hend⟩ := h.nil
      rw [Function.comp_apply, hpc] at hend
      exact hend.elim
  | cons l ls ih =>
      obtain ⟨s₁, es₁, es₂, hl, hstep, hrest, rfl⟩ := h.cons
      rw [Machine.observe_cons hstep]
      cases clientStep_spec hstep with
      | stop =>
          have hiff := ih hrest hpc hopen
          exact ⟨fun hharmless ↦ hiff.mp (hharmless.of_channel rfl),
            fun hspared ↦ (hiff.mpr hspared).of_channel rfl⟩
      | recvQuit socket' readFds' hpc' hctrl =>
          refine ⟨fun _ ↦ ?_, fun _ ↦ (ended hrest trivial hctrl).of_channel rfl⟩
          simp [ClientSpared, GepClient.check, hctrl]
      | recvNone socket' readFds' hpc' hctrl hnot =>
          rw [hpc] at hpc'
          cases hpc'
          exact absurd (hset.symm.trans hnot) Bool.true_eq_false.mp
      | recvBegin socket' readFds' hpc' hctrl hset' =>
          have hacts := receiving hrest rfl hopen
          refine ⟨fun hharmless ↦ absurd hharmless.quiet hacts, fun hspared ↦ ?_⟩
          simp [ClientSpared, GepClient.check, hctrl] at hspared
      | recv _ _ _ hpc' | failed _ _ hpc' | succeeded _ _ hpc' =>
          rw [hpc] at hpc'
          cases hpc'
      | _ => exact hl.elim

end ClientRest

theorem ClientInterrupt.harmless_iff {stale : Buffer} {s s' : GepClient} {ls : List ClientLabel}
    {es : List (ClientEvent Msg)} (h : ClientInterrupt e stale s ls s' es) :
    ClientHarmless s s' es ↔
      ClientSpared ((clientMachine e stale).observe GepClient.check s ls) := by
  obtain ⟨s₀, log, hreaches, hselect⟩ := h.interrupted
  have hloop := loopOk hreaches
  have hpassed := GepClient.passedOk hreaches
  cases clientStep_spec hselect with
  | select _ socket passed hpc =>
      refine ClientRest.selected h.rest rfl ?_ ?_
      · exact hpassed socket passed hpc
      · exact hloop.waiting (by rw [hpc]; trivial)

/-! ## Runs -/

/-- A server with one client, on descriptor 4, waits. -/
def waitingServerRun : List ServerLabel :=
  [.start ⟨3, false, false, false, none⟩, .enter, .loop, .select (.ready fun _ ↦ true),
    .recvBegin, .acceptBegin, .accept 4 TestProtocol.blank, .loop]

def waitingClientRun : List ClientLabel := [.start ⟨3, false⟩, .enter, .loop]

theorem ServerInterrupt.of_run {a : GepChannelArray} {s₀ s s' : GepServer}
    {log es : List (ArrayEvent Msg)} {ls' : List ServerLabel} (ls : List ServerLabel)
    (hrun : (serverMachine e a).runFrom (.new a) ls = some (s₀, log))
    (hselect : serverStep e s₀ (.select (.error eintr)) = some (s, []))
    (hrest : (serverMachine e a).runFrom s ls' = some (s', es))
    (hlabels : ∀ l ∈ ls', l.IsRest) (hend : s'.pc.AtEnd) : ServerInterrupt e a s ls' s' es :=
  ⟨⟨s₀, log, .run .init (.of_forall (fun _ _ _ ↦ trivial) _ _ _) hrun, hselect⟩,
    hlabels, hrest, hend⟩

theorem ClientInterrupt.of_run {stale : Buffer} {s₀ s s' : GepClient}
    {log es : List (ClientEvent Msg)} {ls' : List ClientLabel} (ls : List ClientLabel)
    (hrun : (clientMachine e stale).runFrom (.new stale) ls = some (s₀, log))
    (hselect : clientStep e s₀ (.select (.error eintr)) = some (s, []))
    (hrest : (clientMachine e stale).runFrom s ls' = some (s', es))
    (hlabels : ∀ l ∈ ls', l.IsRest) (hend : s'.pc.AtEnd) : ClientInterrupt e stale s ls' s' es :=
  ⟨⟨s₀, log, .run .init (.of_forall (fun _ _ _ ↦ trivial) _ _ _) hrun, hselect⟩,
    hlabels, hrest, hend⟩

/-! ## Both loops -/

/-- What a service loop does after an interrupted `select` is harmless exactly
when it finds that it was stopped: at its next check or, for a server without
clients, at the one after that. -/
theorem interruptHarmless_iff (e : Endpoint Msg) (maxChannels port : ℤ) (heap : ℕ → GepChannel)
    (stale : Buffer) :
    (∀ s ls s' es, ServerInterrupt e (.new maxChannels port heap) s ls s' es →
      (ServerHarmless s s' es ↔ ServerSpared s
        ((serverMachine e (.new maxChannels port heap)).observe GepServer.check s ls))) ∧
    ∀ s ls s' es, ClientInterrupt e stale s ls s' es →
      (ClientHarmless s s' es ↔
        ClientSpared ((clientMachine e stale).observe GepClient.check s ls)) := by
  constructor
  · intro s ls s' es h
    exact h.harmless_iff
  · intro s ls s' es h
    exact h.harmless_iff

/-- A server and a client that are stopped right after the signal. -/
theorem interruptHarmless_stopped : ∃ s s' c c',
    ServerHarmless s s' ([] : List (ArrayEvent TestProtocol.Message)) ∧
      s.array.array.vector = [0] ∧
      ClientHarmless c c' ([] : List (ClientEvent TestProtocol.Message)) ∧ c.channel.socket = 3 := by
  have hiff := interruptHarmless_iff TestProtocol.endpoint 1 7 unallocated
    TestProtocol.blank
  obtain ⟨s, s', hserver, hvector, hchecks⟩ : ∃ s s',
      ServerInterrupt TestProtocol.endpoint (.new 1 7 unallocated) s [.stop, .recvBegin] s' [] ∧
        s.array.array.vector = [0] ∧
        (serverMachine TestProtocol.endpoint (.new 1 7 unallocated)).observe GepServer.check s
          [.stop, .recvBegin] = [false] := by
    refine ⟨_, _, .of_run waitingServerRun rfl rfl rfl ?_ trivial, rfl, rfl⟩
    simp [ServerLabel.IsRest]
  obtain ⟨c, c', hclient, hsocket, hchecks'⟩ : ∃ c c',
      ClientInterrupt TestProtocol.endpoint TestProtocol.blank c
        [.stop, .recvBegin] c' [] ∧ c.channel.socket = 3 ∧
        (clientMachine TestProtocol.endpoint TestProtocol.blank).observe
          GepClient.check c [.stop, .recvBegin] = [false] := by
    refine ⟨_, _, .of_run waitingClientRun rfl rfl rfl ?_ trivial, rfl, rfl⟩
    simp [ClientLabel.IsRest]
  refine ⟨s, s', c, c', (hiff.1 s _ s' [] hserver).mpr (.inl ?_), hvector,
    (hiff.2 c _ c' [] hclient).mpr ?_, hsocket⟩
  · rw [hchecks]
    rfl
  · rw [ClientSpared, hchecks']
    rfl

/-- With nothing pending on any descriptor, the server loses its client and
exits.  A client waits in `Recv`, and loses its connection when that is
interrupted as well. -/
theorem not_interruptHarmless :
    (∃ s s', ServerInterrupt TestProtocol.endpoint (.new 1 7 unallocated) s
      [.recvBegin, .recv (.error eagain), .recvEnd, .acceptBegin,
        .accept (-1) TestProtocol.blank] s'
      [.channel 0 (.recv 4 1048576 (.error eagain)), .delClient 0, .close 4, .accept 3 (-1)] ∧
      s'.threadCtrl = true ∧ s'.pc = .exited ∧
      ¬ ServerHarmless s s' [.channel 0 (.recv 4 1048576 (.error eagain)), .delClient 0, .close 4,
        (.accept 3 (-1) : ArrayEvent TestProtocol.Message)]) ∧
    ∃ s s', ClientInterrupt TestProtocol.endpoint TestProtocol.blank s
      [.recvBegin, .recv (.error eintr), .recvEnd] s'
      [.channel (.recv 3 1048576 (.error eintr)), .close 3] ∧
      ¬ ClientHarmless s s' [.channel (.recv 3 1048576 (.error eintr)),
        (.close 3 : ClientEvent TestProtocol.Message)] := by
  constructor
  · refine ⟨_, _, .of_run waitingServerRun rfl rfl rfl ?_ trivial, rfl, rfl, ?_⟩
    · simp [ServerLabel.IsRest]
    · intro hharmless
      exact absurd hharmless.quiet (List.cons_ne_nil _ _)
  · refine ⟨_, _, .of_run waitingClientRun rfl rfl rfl ?_ trivial, ?_⟩
    · simp [ClientLabel.IsRest]
    · intro hharmless
      exact absurd hharmless.quiet (List.cons_ne_nil _ _)

end Libgep
