import Libgep.Server

/-!
# The service loop of a client

`GepClient` has one channel.  Its `RunThread` keeps the socket in a local
variable, and opens a new one whenever that is `-1`.  A user starts a client
only while it is stopped, and stops it only while it runs.
-/

namespace Libgep

open CInt Transition

variable {Msg : Type*}

/-! ## State -/

/-- Where the thread is in `RunThread`, with its local variables. -/
inductive ClientPc where
  | idle
  | entry
  | head (socket : ℤ)
  | reconnecting
  | selecting (socket : ℤ) (readFds : FdSet)
  /-- Before the check of `thread_ctrl_` that follows `select`. -/
  | selected (socket : ℤ) (readFds : FdSet)
  /-- Past that check, with something to receive. -/
  | receiving (socket : ℤ)
  | received (socket : ℤ) (res : ℤ)
  | exited

structure GepClient where
  channel : GepChannel
  threadCtrl : Bool
  reconnectCount : ℤ
  pc : ClientPc
  /-- A call of `Stop` waits for the thread. -/
  stopping : Bool

inductive ClientEvent (Msg : Type*) where
  | socket (fd : ℤ)
  | close (fd : ℤ)
  | channel (ev : RecvEvent Msg)
  deriving DecidableEq

inductive ClientLabel where
  | start (env : GepChannel.OpenEnv)
  /-- The first part of `Stop`, which clears `thread_ctrl_`. -/
  | stop
  /-- The rest of `Stop`, once the thread has exited. -/
  | join
  | enter
  | loop
  | reconnect (env : GepChannel.OpenEnv)
  | select (r : SelectResult)
  | recvBegin
  | recv (r : RawRecv)
  | recvEnd

/-! ## Steps -/

def GepChannel.Opened.events (o : GepChannel.Opened) : List (ClientEvent Msg) :=
  (o.opened.map .socket).toList ++ (o.closed.map .close).toList

namespace GepClient

/-- The constructor, where `stale` is what the buffer of the channel holds. -/
def new (stale : Buffer) : GepClient := ⟨.new 0 (-1) stale, false, 0, .idle, false⟩

def start (s : GepClient) (env : GepChannel.OpenEnv) : GepClient :=
  let opened := s.channel.openClientSocket env
  if opened.ret < 0 then { s with channel := opened.chan }
  else { s with channel := opened.chan, threadCtrl := true, pc := .entry }

/-- `Reconnect`, after which the loop reads the socket of the channel again. -/
def reconnect (s : GepClient) (env : GepChannel.OpenEnv) : GepClient :=
  let opened := s.channel.openClientSocket env
  { s with
    channel := opened.chan
    reconnectCount := if opened.ret < 0 then s.reconnectCount else s.reconnectCount + 1
    pc := .head opened.chan.socket }

/-- The channel is closed, if it is open, and the thread is at `pc`. -/
def close (s : GepClient) (pc : ClientPc) : GepClient × List (ClientEvent Msg) :=
  let (_, c, fd) := s.channel.close
  ({ s with channel := c, pc := pc }, (fd.map .close).toList)

end GepClient

def clientStep (e : Endpoint Msg) (s : GepClient) :
    ClientLabel → Option (GepClient × List (ClientEvent Msg))
  | .start env =>
      match s.pc with
      | .idle => some (s.start env, (s.channel.openClientSocket env).events)
      | _ => none
  | .stop =>
      match s.pc with
      | .idle => none
      | _ => if s.stopping then none else some ({ s with threadCtrl := false, stopping := true }, [])
  | .join =>
      match s.pc with
      | .exited =>
          if s.stopping then
            some (({ s with stopping := false, reconnectCount := 0 } : GepClient).close .idle)
          else none
      | _ => none
  | .enter =>
      match s.pc with
      | .entry => some ({ s with pc := .head s.channel.socket }, [])
      | _ => none
  | .loop =>
      match s.pc with
      | .head socket =>
          if s.threadCtrl then
            if socket = -1 then some ({ s with pc := .reconnecting }, [])
            else
              (FdSet.insert (fun _ ↦ false) socket).map fun readFds ↦
                ({ s with pc := .selecting socket readFds }, [])
          else some ({ s with pc := .exited }, [])
      | _ => none
  | .reconnect env =>
      match s.pc with
      | .reconnecting => some (s.reconnect env, (s.channel.openClientSocket env).events)
      | _ => none
  | .select r =>
      match s.pc with
      | .selecting socket passed =>
          some ({ s with
            pc := if r.isFatal then .exited else .selected socket (r.readFds passed) }, [])
      | _ => none
  | .recvBegin =>
      match s.pc with
      | .selected socket readFds =>
          some ({ s with
            pc := if s.threadCtrl then if readFds socket then .receiving socket else .head socket
              else .exited }, [])
      | _ => none
  | .recv r =>
      match s.pc with
      | .receiving socket =>
          if r.Fits (kMaxMsgLen - toUnsigned 64 s.channel.len) then
            (s.channel.recvData e r).ret.map fun res ↦
              ({ s with
                channel := (s.channel.recvData e r).chan
                pc := .received socket res },
                (s.channel.recvData e r).events.map .channel)
          else none
      | _ => none
  | .recvEnd =>
      match s.pc with
      | .received socket res =>
          -- any failure tosses the connection
          if res < 0 then some (s.close (.head (-1))) else some ({ s with pc := .head socket }, [])
      | _ => none

def clientMachine (e : Endpoint Msg) (stale : Buffer) :
    Machine GepClient ClientLabel (ClientEvent Msg) :=
  ⟨.new stale, clientStep e⟩

/-! ## What a step does -/

inductive ClientStep (e : Endpoint Msg) (s : GepClient) :
    ClientLabel → GepClient → List (ClientEvent Msg) → Prop where
  | start (env : GepChannel.OpenEnv) (hpc : s.pc = .idle) :
      ClientStep e s (.start env) (s.start env) (s.channel.openClientSocket env).events
  | stop (hpc : s.pc ≠ .idle) (hstopping : s.stopping = false) :
      ClientStep e s .stop { s with threadCtrl := false, stopping := true } []
  | join (hpc : s.pc = .exited) (hstopping : s.stopping = true) :
      ClientStep e s .join
        { s with
          channel := s.channel.close.2.1
          reconnectCount := 0
          pc := .idle
          stopping := false }
        (s.channel.close.2.2.map .close).toList
  | enter (hpc : s.pc = .entry) : ClientStep e s .enter { s with pc := .head s.channel.socket } []
  | loopQuit (socket : ℤ) (hpc : s.pc = .head socket) (hctrl : s.threadCtrl = false) :
      ClientStep e s .loop { s with pc := .exited } []
  | loopClosed (hpc : s.pc = .head (-1)) (hctrl : s.threadCtrl = true) :
      ClientStep e s .loop { s with pc := .reconnecting } []
  | loop (socket : ℤ) (readFds : FdSet) (hpc : s.pc = .head socket) (hctrl : s.threadCtrl = true)
      (hopen : socket ≠ -1) (hfds : FdSet.insert (fun _ ↦ false) socket = some readFds) :
      ClientStep e s .loop { s with pc := .selecting socket readFds } []
  | reconnect (env : GepChannel.OpenEnv) (hpc : s.pc = .reconnecting) :
      ClientStep e s (.reconnect env) (s.reconnect env) (s.channel.openClientSocket env).events
  | select (r : SelectResult) (socket : ℤ) (passed : FdSet) (hpc : s.pc = .selecting socket passed) :
      ClientStep e s (.select r)
        { s with pc := if r.isFatal then .exited else .selected socket (r.readFds passed) } []
  | recvQuit (socket : ℤ) (readFds : FdSet) (hpc : s.pc = .selected socket readFds)
      (hctrl : s.threadCtrl = false) : ClientStep e s .recvBegin { s with pc := .exited } []
  | recvNone (socket : ℤ) (readFds : FdSet) (hpc : s.pc = .selected socket readFds)
      (hctrl : s.threadCtrl = true) (hset : readFds socket = false) :
      ClientStep e s .recvBegin { s with pc := .head socket } []
  | recvBegin (socket : ℤ) (readFds : FdSet) (hpc : s.pc = .selected socket readFds)
      (hctrl : s.threadCtrl = true) (hset : readFds socket = true) :
      ClientStep e s .recvBegin { s with pc := .receiving socket } []
  | recv (r : RawRecv) (socket : ℤ) (res : ℤ) (hpc : s.pc = .receiving socket)
      (hfits : r.Fits (kMaxMsgLen - toUnsigned 64 s.channel.len))
      (hres : (s.channel.recvData e r).ret = some res) :
      ClientStep e s (.recv r)
        { s with channel := (s.channel.recvData e r).chan, pc := .received socket res }
        ((s.channel.recvData e r).events.map .channel)
  | failed (socket res : ℤ) (hpc : s.pc = .received socket res) (hres : res < 0) :
      ClientStep e s .recvEnd { s with channel := s.channel.close.2.1, pc := .head (-1) }
        (s.channel.close.2.2.map .close).toList
  | succeeded (socket res : ℤ) (hpc : s.pc = .received socket res) (hres : 0 ≤ res) :
      ClientStep e s .recvEnd { s with pc := .head socket } []

theorem clientStep_spec {e : Endpoint Msg} {s s' : GepClient} {l : ClientLabel}
    {es : List (ClientEvent Msg)} (h : clientStep e s l = some (s', es)) :
    ClientStep e s l s' es := by
  cases l with
  | start env =>
      simp only [clientStep] at h
      split at h <;> cases h
      exact .start env ‹_›
  | stop =>
      simp only [clientStep] at h
      split at h
      · cases h
      · split_ifs at h with hstopping
        cases h
        exact .stop ‹_› (Bool.eq_false_of_not_eq_true hstopping)
  | join =>
      simp only [clientStep] at h
      split at h
      · split_ifs at h with hstopping
        cases h
        exact .join ‹_› hstopping
      · cases h
  | enter =>
      simp only [clientStep] at h
      split at h <;> cases h
      exact .enter ‹_›
  | loop =>
      simp only [clientStep] at h
      split at h
      · split_ifs at h with hctrl hclosed
        · cases h
          subst hclosed
          exact .loopClosed ‹_› hctrl
        · obtain ⟨readFds, hfds, heq⟩ := Option.map_eq_some_iff.mp h
          cases heq
          exact .loop _ readFds ‹_› hctrl hclosed hfds
        · cases h
          exact .loopQuit _ ‹_› (Bool.eq_false_of_not_eq_true hctrl)
      · cases h
  | reconnect env =>
      simp only [clientStep] at h
      split at h <;> cases h
      exact .reconnect env ‹_›
  | select r =>
      simp only [clientStep] at h
      split at h <;> cases h
      exact .select r _ _ ‹_›
  | recvBegin =>
      simp only [clientStep] at h
      split at h
      · split_ifs at h with hctrl hset <;> cases h
        · exact .recvBegin _ _ ‹_› hctrl hset
        · exact .recvNone _ _ ‹_› hctrl (Bool.eq_false_of_not_eq_true hset)
        · exact .recvQuit _ _ ‹_› (Bool.eq_false_of_not_eq_true hctrl)
      · cases h
  | recv r =>
      simp only [clientStep] at h
      split at h
      · split_ifs at h with hfits
        obtain ⟨res, hres, heq⟩ := Option.map_eq_some_iff.mp h
        cases heq
        exact .recv r _ res ‹_› hfits hres
      · cases h
  | recvEnd =>
      simp only [clientStep] at h
      split at h
      · split_ifs at h with hres
        · cases h
          exact .failed _ _ ‹_› hres
        · cases h
          exact .succeeded _ _ ‹_› (Int.not_lt.mp hres)
      · cases h

/-! ## The loop and its channel -/

/-- The local variable `socket` of the loop. -/
def ClientPc.socket : ClientPc → Option ℤ
  | .head socket => some socket
  | .reconnecting => some (-1)
  | .selecting socket _ => some socket
  | .selected socket _ => some socket
  | .receiving socket => some socket
  | .received socket _ => some socket
  | _ => none

def ClientPc.IsWaiting : ClientPc → Prop
  | .selecting _ _ => True
  | .selected _ _ => True
  | .receiving _ => True
  | .received _ _ => True
  | _ => False

/-- The local variable is the socket of the channel, which is open while the
loop waits, and closed between `Stop` and `Start`. -/
structure LoopOk (s : GepClient) : Prop where
  idle : s.pc = .idle → s.channel.socket = -1
  socket : ∀ socket, s.pc.socket = some socket → socket = s.channel.socket
  waiting : s.pc.IsWaiting → s.channel.socket ≠ -1

theorem close_socket (c : GepChannel) : c.close.2.1.socket = -1 := by
  unfold GepChannel.close
  split_ifs with hopen
  · rfl
  · exact not_not.mp hopen

/-- A socket that could not be connected is not kept. -/
theorem openClientSocket_failed {c : GepChannel} {env : GepChannel.OpenEnv}
    (h : (c.openClientSocket env).ret < 0) : (c.openClientSocket env).chan = c := by
  unfold GepChannel.openClientSocket at h ⊢
  split_ifs at h ⊢
  · rfl
  · rfl
  · exact absurd h (lt_irrefl _)

namespace LoopOk

variable {s : GepClient}

theorem of_head {socket : ℤ} (hpc : s.pc = .head socket) (hsocket : socket = s.channel.socket) :
    LoopOk s := by
  constructor <;> rw [hpc]
  · rintro ⟨⟩
  · rintro _ ⟨⟩
    exact hsocket
  · rintro ⟨⟩

/-- Outside of the loop there is no local variable. -/
theorem of_outside (hidle : s.pc ≠ .idle) (hsocket : s.pc.socket = none)
    (hwaiting : ¬ s.pc.IsWaiting) : LoopOk s := by
  constructor
  · intro hpc
    exact absurd hpc hidle
  · intro socket hsome
    rw [hsocket] at hsome
    cases hsome
  · intro hpc
    exact absurd hpc hwaiting

theorem step {e : Endpoint Msg} {s' : GepClient} {l : ClientLabel} {es : List (ClientEvent Msg)}
    (hs : LoopOk s) (h : clientStep e s l = some (s', es)) : LoopOk s' := by
  cases clientStep_spec h with
  | start env hpc =>
      unfold GepClient.start
      dsimp only
      split_ifs with hret
      · have hsame := openClientSocket_failed hret
        rw [hsame]
        exact hs
      · exact of_outside (by rintro ⟨⟩) rfl not_false
  | stop => exact ⟨hs.idle, hs.socket, hs.waiting⟩
  | join => exact ⟨fun _ ↦ close_socket _, by rintro _ ⟨⟩, by rintro ⟨⟩⟩
  | enter | reconnect => exact of_head rfl rfl
  | loopClosed hpc =>
      refine ⟨by rintro ⟨⟩, ?_, by rintro ⟨⟩⟩
      rintro _ ⟨⟩
      exact hs.socket (-1) (by rw [hpc]; rfl)
  | loop socket readFds hpc hctrl hopen =>
      have hsocket := hs.socket socket (by rw [hpc]; rfl)
      refine ⟨by rintro ⟨⟩, ?_, fun _ ↦ hsocket ▸ hopen⟩
      rintro _ ⟨⟩
      exact hsocket
  | recvBegin socket readFds hpc =>
      refine ⟨by rintro ⟨⟩, ?_, fun _ ↦ hs.waiting (by rw [hpc]; trivial)⟩
      rintro _ ⟨⟩
      exact hs.socket socket (by rw [hpc]; rfl)
  | select r socket passed hpc =>
      have hsocket := hs.socket socket (by rw [hpc]; rfl)
      have hopen := hs.waiting (by rw [hpc]; trivial)
      split_ifs
      · exact of_outside (by rintro ⟨⟩) rfl not_false
      · refine ⟨by rintro ⟨⟩, ?_, fun _ ↦ hopen⟩
        rintro _ ⟨⟩
        exact hsocket
  | loopQuit | recvQuit => exact of_outside (by rintro ⟨⟩) rfl not_false
  | recvNone _ _ hpc | succeeded _ _ hpc =>
      have hsocket := hs.socket _ (by rw [hpc]; rfl)
      exact of_head rfl hsocket
  | recv r socket res hpc hfits hres =>
      have hkept := GepChannel.recvData_socket hres
      refine ⟨by rintro ⟨⟩, ?_, fun _ ↦ ?_⟩
      · rintro _ ⟨⟩
        exact (hs.socket socket (by rw [hpc]; rfl)).trans hkept.symm
      · exact hkept.trans_ne (hs.waiting (by rw [hpc]; trivial))
  | failed => exact of_head rfl (close_socket _).symm

end LoopOk

theorem loopOk {e : Endpoint Msg} {stale : Buffer}
    {ok : GepClient → List (ClientEvent Msg) → ClientLabel → Prop} {s : GepClient}
    {log : List (ClientEvent Msg)} (h : (clientMachine e stale).Reaches ok s log) : LoopOk s :=
  h.invariant (P := fun s _ ↦ LoopOk s) ⟨fun _ ↦ rfl, by rintro _ ⟨⟩, by rintro ⟨⟩⟩
    fun _ hs _ hstep ↦ hs.step hstep

end Libgep
