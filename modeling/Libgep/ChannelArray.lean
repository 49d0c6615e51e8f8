import Libgep.Lib.Transition
import Libgep.Recv
import Mathlib.Logic.Function.Basic

/-!
# Arrays of channels

`GepChannelArray` owns the channels of a server, one per client.  Its methods
are given as functions on its state; the machine at the end interleaves them,
with `RecvData` cut at the points where it does not hold the lock.
-/

namespace Libgep

open CInt Transition

variable {Msg : Type*}

/-! ## State -/

/-- `FD_SETSIZE`. -/
def fdSetSize : ℤ := 1024

/-- The descriptors in an `fd_set`. -/
abbrev FdSet := ℤ → Bool

/-- `FD_SET`; the set has no room for a descriptor from `fdSetSize` on, and to
put one into it is undefined. -/
def FdSet.insert (fds : FdSet) (fd : ℤ) : Option FdSet :=
  if 0 ≤ fd ∧ fd < fdSetSize then some (Function.update fds fd true) else none

theorem FdSet.insert_eq_true {fds fds' : FdSet} {fd fd' : ℤ} (h : fds.insert fd = some fds') :
    fds' fd' = true ↔ fds fd' = true ∨ fd' = fd := by
  unfold FdSet.insert at h
  split_ifs at h
  cases h
  by_cases hfd : fd' = fd
  · simp [hfd]
  · simp [hfd]

/-- The array, with the channels that its shared pointers refer to, and the
port of its protocol, which `OpenServerSocket` may set. -/
structure GepChannelArray where
  maxChannels : ℤ
  lastChannelId : ℤ
  vector : List ℕ
  heap : ℕ → GepChannel
  nextAddr : ℕ
  serverSocket : ℤ
  port : ℤ

/-- What an array does besides changing its state: system calls, calls of the
virtual functions of the server, and what its channels do. -/
inductive ArrayEvent (Msg : Type*) where
  | socket (fd : ℤ)
  /-- `Bind` to a port, after `htons`. -/
  | bind (fd : ℤ) (port : ℕ)
  | closeServer (fd : ℤ)
  /-- `Accept` on the descriptor `on`, with its result. -/
  | accept (on fd : ℤ)
  | addClient (id : ℤ)
  | delClient (id : ℤ)
  | channel (id : ℤ) (ev : RecvEvent Msg)
  /-- The destructor of a channel closes its socket. -/
  | close (fd : ℤ)
  deriving DecidableEq

structure ArrayCall (ρ Msg : Type*) where
  ret : ρ
  array : GepChannelArray
  events : List (ArrayEvent Msg)

/-- What the kernel answers to `OpenServerSocket`; `sockName` is the port that
`getsockname` reports, if it does. -/
structure ListenEnv where
  socket : ℤ
  reuseAddrFails : Bool
  bindFails : Bool
  listenFails : Bool
  sockName : Option UInt16

namespace GepChannelArray

variable (a : GepChannelArray)

/-- The constructor; `heap` is memory not allocated yet. -/
def new (maxChannels port : ℤ) (heap : ℕ → GepChannel) : GepChannelArray :=
  ⟨maxChannels, 0, [], heap, 0, -1, port⟩

def ids : List ℤ := a.vector.map fun addr ↦ (a.heap addr).id

/-! ## Opening and accepting -/

def openServerSocket (env : ListenEnv) : ArrayCall ℤ Msg :=
  let fd := env.socket
  let port := toUnsigned 16 a.port
  if fd = -1 then ⟨-1, a, []⟩
  else if env.reuseAddrFails then ⟨-1, a, [.socket fd, .closeServer fd]⟩
  else if env.bindFails then ⟨-1, a, [.socket fd, .bind fd port, .closeServer fd]⟩
  else if env.listenFails then ⟨-1, a, [.socket fd, .bind fd port, .closeServer fd]⟩
  else if a.port = 0 then
    match env.sockName with
    | none => ⟨-1, a, [.socket fd, .bind fd port, .closeServer fd]⟩
    | some assigned =>
        ⟨0, { a with port := assigned.toNat, serverSocket := fd }, [.socket fd, .bind fd port]⟩
  else ⟨0, { a with serverSocket := fd }, [.socket fd, .bind fd port]⟩

def withChannel (socket : ℤ) (stale : Buffer) : GepChannelArray :=
  { a with
    lastChannelId := a.lastChannelId + 1
    heap := Function.update a.heap a.nextAddr (.new a.lastChannelId socket stale)
    nextAddr := a.nextAddr + 1
    vector := a.vector ++ [a.nextAddr] }

def withState (addr : ℕ) (c : GepChannel) : GepChannelArray :=
  { a with heap := Function.update a.heap addr c }

/-- `AddChannel`; `stale` is what the buffer of a new channel holds.  An id
counter that overflows is undefined. -/
def addChannel (socket : ℤ) (stale : Buffer) : Option (ArrayCall ℤ Msg) :=
  if toUnsigned 64 a.maxChannels ≤ a.vector.length then some ⟨-1, a, []⟩
  else if a.lastChannelId + 1 = 2 ^ 31 then none
  else some ⟨0, a.withChannel socket stale, [.addClient a.lastChannelId]⟩

/-- `AcceptConnection`, where `Accept` returns `fd`; the result of
`AddChannel` is ignored. -/
def acceptConnection (fd : ℤ) (stale : Buffer) : Option (ArrayCall ℤ Msg) :=
  if fd = -1 then some ⟨-1, a, [.accept a.serverSocket fd]⟩
  else
    (a.addChannel fd stale).map fun add ↦
      ⟨0, add.array, .accept a.serverSocket fd :: add.events⟩

/-- `GetVectorReadFds`, on the descriptors put into the set so far. -/
def getVectorReadFds (readFds : FdSet) : Option FdSet :=
  a.vector.foldlM
    (fun fds addr ↦
      if (a.heap addr).socket < 0 then some fds else FdSet.insert fds (a.heap addr).socket)
    readFds

/-- The set has room for all descriptors of the array. -/
theorem isSome_getVectorReadFds {a : GepChannelArray} {fds : FdSet} :
    (a.getVectorReadFds fds).isSome ↔ ∀ addr ∈ a.vector, (a.heap addr).socket < fdSetSize := by
  unfold getVectorReadFds
  generalize a.vector = addrs
  induction addrs generalizing fds with
  | nil => simp
  | cons addr addrs ih =>
      have hpos : 0 < fdSetSize := by decide
      rw [List.foldlM_cons, List.forall_mem_cons, Option.bind_eq_bind]
      by_cases hneg : (a.heap addr).socket < 0
      · rw [if_pos hneg, Option.bind_some, ih]
        exact ⟨fun h ↦ ⟨hneg.trans hpos, h⟩, And.right⟩
      · rw [if_neg hneg]
        by_cases hfits : (a.heap addr).socket < fdSetSize
        · rw [FdSet.insert, if_pos ⟨Int.not_lt.mp hneg, hfits⟩, Option.bind_some, ih]
          exact ⟨fun h ↦ ⟨hfits, h⟩, And.right⟩
        · rw [FdSet.insert, if_neg fun h ↦ hfits h.2]
          exact ⟨fun h ↦ absurd h Bool.false_ne_true, fun h ↦ absurd h.1 hfits⟩

/-! ## Destroying channels -/

/-- An owner of the channel at `addr` is gone; the destructor runs unless the
vector or one of the pointers `retained` owns it as well. -/
def release (retained : List ℕ) (addr : ℕ) : ArrayCall Unit Msg :=
  if addr ∈ a.vector ∨ addr ∈ retained then ⟨(), a, []⟩
  else
    let (_, c, fd) := (a.heap addr).close
    ⟨(), a.withState addr c, (fd.map .close).toList⟩

def releaseAll (retained : List ℕ) (a : GepChannelArray) : List ℕ → ArrayCall Unit Msg
  | [] => ⟨(), a, []⟩
  | addr :: addrs =>
      let first : ArrayCall Unit Msg := a.release retained addr
      let rest := releaseAll retained first.array addrs
      ⟨(), rest.array, first.events ++ rest.events⟩

/-- The first part of `Stop`: close the service socket. -/
def closeServerSocket : ArrayCall Unit Msg :=
  if 0 ≤ a.serverSocket then ⟨(), { a with serverSocket := -1 }, [.closeServer a.serverSocket]⟩
  else ⟨(), a, []⟩

/-- `Stop`, while the pointers `retained` are in use elsewhere. -/
def stop (retained : List ℕ) : ArrayCall Unit Msg :=
  let server : ArrayCall Unit Msg := a.closeServerSocket
  let clear := releaseAll retained { server.array with vector := [] } a.vector
  ⟨(), clear.array, server.events ++ a.ids.map .delClient ++ clear.events⟩

/-! ## Receiving -/

/-- The first part of `RecvData`: look for an open channel that is ready. -/
def pick (readFds : FdSet) : Option ℕ :=
  a.vector.find? fun addr ↦ 0 ≤ (a.heap addr).socket ∧ readFds (a.heap addr).socket

/-- The second part: serve the channel, without the lock.  The result is
`none` when the behaviour is undefined. -/
def serve (e : Endpoint Msg) (addr : ℕ) (r : RawRecv) : Option (ArrayCall ℤ Msg) :=
  let c := a.heap addr
  let recv := c.recvData e r
  recv.ret.map fun ret ↦
    ⟨ret, a.withState addr recv.chan, recv.events.map (.channel c.id)⟩

/-- The third part: take a channel that failed out of the vector, if it is
still there. -/
def remove (addr : ℕ) (ret : ℤ) : ArrayCall Unit Msg :=
  if ret < 0 ∧ addr ∈ a.vector then
    ⟨(), { a with vector := a.vector.erase addr }, [.delClient (a.heap addr).id]⟩
  else ⟨(), a, []⟩

/-- The end of `RecvData`: remove the channel, and let go of it. -/
def finish (addr : ℕ) (ret : ℤ) : ArrayCall Unit Msg :=
  let removed : ArrayCall Unit Msg := a.remove addr ret
  let released : ArrayCall Unit Msg := removed.array.release [] addr
  ⟨(), released.array, removed.events ++ released.events⟩

/-- `RecvData`, undisturbed by other threads. -/
def recvData (e : Endpoint Msg) (readFds : FdSet) (r : RawRecv) : Option (ArrayCall Unit Msg) :=
  match a.pick readFds with
  | none => some ⟨(), a, []⟩
  | some addr =>
      (a.serve e addr r).map fun served ↦
        let done : ArrayCall Unit Msg := served.array.finish addr served.ret
        ⟨(), done.array, served.events ++ done.events⟩

end GepChannelArray

/-! ## The machine -/

/-- The kernel stores no more bytes than it was asked for. -/
def RawRecv.Fits (size : ℕ) : RawRecv → Prop
  | .data bytes => bytes.length ≤ size
  | .error _ => True

instance (size : ℕ) : (r : RawRecv) → Decidable (r.Fits size)
  | .data bytes => inferInstanceAs (Decidable (bytes.length ≤ size))
  | .error _ => inferInstanceAs (Decidable True)

/-- A `RecvData` in progress: the channel that it holds on to, and the result
once it has served it. -/
structure Serving where
  addr : ℕ
  ret : Option ℤ
  deriving DecidableEq

structure ArrayState where
  array : GepChannelArray
  serving : Option Serving

def ArrayState.retained (s : ArrayState) : List ℕ := (s.serving.map Serving.addr).toList

inductive ArrayLabel where
  | openServerSocket (env : ListenEnv)
  | acceptConnection (fd : ℤ) (stale : Buffer)
  | pick (readFds : FdSet)
  | serve (r : RawRecv)
  | finish
  | stop

def ArrayCall.withServing {ρ : Type*} (serving : Option Serving) (call : ArrayCall ρ Msg) :
    ArrayState × List (ArrayEvent Msg) :=
  (⟨call.array, serving⟩, call.events)

def arrayStep (e : Endpoint Msg) (s : ArrayState) :
    ArrayLabel → Option (ArrayState × List (ArrayEvent Msg))
  | .openServerSocket env => some ((s.array.openServerSocket env).withServing s.serving)
  | .acceptConnection fd stale =>
      (s.array.acceptConnection fd stale).map (ArrayCall.withServing s.serving)
  | .pick readFds =>
      match s.serving with
      | some _ => none
      | none => some (⟨s.array, (s.array.pick readFds).map (⟨·, none⟩)⟩, [])
  | .serve r =>
      match s.serving with
      | some ⟨addr, none⟩ =>
          if r.Fits (kMaxMsgLen - toUnsigned 64 (s.array.heap addr).len) then
            (s.array.serve e addr r).map fun call ↦ call.withServing (some ⟨addr, some call.ret⟩)
          else none
      | _ => none
  | .finish =>
      match s.serving with
      | some ⟨addr, some ret⟩ => some ((s.array.finish addr ret).withServing none)
      | _ => none
  | .stop => some ((s.array.stop s.retained).withServing s.serving)

def arrayMachine (e : Endpoint Msg) (a : GepChannelArray) :
    Machine ArrayState ArrayLabel (ArrayEvent Msg) :=
  ⟨⟨a, none⟩, arrayStep e⟩

/-! ## What a step does -/

/-- The steps that can be taken, with their conditions. -/
inductive ArrayStep (e : Endpoint Msg) (s : ArrayState) :
    ArrayLabel → ArrayState → List (ArrayEvent Msg) → Prop where
  | openServerSocket (env : ListenEnv) :
      ArrayStep e s (.openServerSocket env)
        ⟨(@s.array.openServerSocket Msg env).array, s.serving⟩
        (s.array.openServerSocket env).events
  | refused (stale : Buffer) :
      ArrayStep e s (.acceptConnection (-1) stale) s [.accept s.array.serverSocket (-1)]
  | full (fd : ℤ) (stale : Buffer) (hfd : fd ≠ -1)
      (hfull : toUnsigned 64 s.array.maxChannels ≤ s.array.vector.length) :
      ArrayStep e s (.acceptConnection fd stale) s [.accept s.array.serverSocket fd]
  | added (fd : ℤ) (stale : Buffer) (hfd : fd ≠ -1)
      (hroom : s.array.vector.length < toUnsigned 64 s.array.maxChannels) :
      ArrayStep e s (.acceptConnection fd stale) ⟨s.array.withChannel fd stale, s.serving⟩
        [.accept s.array.serverSocket fd, .addClient s.array.lastChannelId]
  | idle (readFds : FdSet) (hserving : s.serving = none)
      (hpick : s.array.pick readFds = none) : ArrayStep e s (.pick readFds) s []
  | picked (readFds : FdSet) (addr : ℕ) (hserving : s.serving = none)
      (hpick : s.array.pick readFds = some addr) :
      ArrayStep e s (.pick readFds) ⟨s.array, some ⟨addr, none⟩⟩ []
  | served (addr : ℕ) (r : RawRecv) (ret : ℤ) (hserving : s.serving = some ⟨addr, none⟩)
      (hfits : r.Fits (kMaxMsgLen - toUnsigned 64 (s.array.heap addr).len))
      (hret : ((s.array.heap addr).recvData e r).ret = some ret) :
      ArrayStep e s (.serve r)
        ⟨s.array.withState addr ((s.array.heap addr).recvData e r).chan,
          some ⟨addr, some ret⟩⟩
        (((s.array.heap addr).recvData e r).events.map (.channel (s.array.heap addr).id))
  | finished (addr : ℕ) (ret : ℤ) (hserving : s.serving = some ⟨addr, some ret⟩) :
      ArrayStep e s .finish ⟨(@s.array.finish Msg addr ret).array, none⟩
        (s.array.finish addr ret).events
  | stopped :
      ArrayStep e s .stop ⟨(@s.array.stop Msg s.retained).array, s.serving⟩
        (s.array.stop s.retained).events

theorem arrayStep_spec {e : Endpoint Msg} {s s' : ArrayState} {l : ArrayLabel}
    {es : List (ArrayEvent Msg)} (h : arrayStep e s l = some (s', es)) :
    ArrayStep e s l s' es := by
  obtain ⟨a, serving⟩ := s
  cases l with
  | openServerSocket env =>
      cases h
      exact .openServerSocket env
  | acceptConnection fd stale =>
      obtain ⟨call, hcall, heq⟩ := Option.map_eq_some_iff.mp h
      unfold GepChannelArray.acceptConnection GepChannelArray.addChannel at hcall
      split_ifs at hcall with hfd hfull hlast
      · cases hcall
        cases heq
        subst hfd
        exact .refused stale
      · cases hcall
        cases heq
        exact .full fd stale hfd hfull
      · simp at hcall
      · cases hcall
        cases heq
        exact .added fd stale hfd (Nat.lt_of_not_le hfull)
  | pick readFds =>
      cases serving with
      | some _ => cases h
      | none =>
          cases hpick : a.pick readFds with
          | none =>
              simp only [arrayStep, hpick] at h
              cases h
              exact .idle readFds rfl hpick
          | some addr =>
              simp only [arrayStep, hpick] at h
              cases h
              exact .picked readFds addr rfl hpick
  | serve r =>
      rcases serving with - | ⟨addr, - | ret⟩
      · cases h
      · simp only [arrayStep] at h
        split_ifs at h with hfits
        obtain ⟨call, hcall, heq⟩ := Option.map_eq_some_iff.mp h
        obtain ⟨ret, hret, rfl⟩ := Option.map_eq_some_iff.mp hcall
        cases heq
        exact .served addr r ret rfl hfits hret
      · cases h
  | finish =>
      rcases serving with - | ⟨addr, - | ret⟩
      · cases h
      · cases h
      · cases h
        exact .finished addr ret rfl
  | stop =>
      cases h
      exact .stopped

/-- The three steps of a `RecvData` that nothing comes between. -/
theorem runFrom_recvData {e : Endpoint Msg} {a₀ a : GepChannelArray} {readFds : FdSet}
    {addr : ℕ} {r : RawRecv} (hpick : a.pick readFds = some addr)
    (hfits : r.Fits (kMaxMsgLen - toUnsigned 64 (a.heap addr).len)) :
    (arrayMachine e a₀).runFrom ⟨a, none⟩ [.pick readFds, .serve r, .finish] =
      (a.recvData e readFds r).map (ArrayCall.withServing none) := by
  simp only [Machine.runFrom, arrayMachine, arrayStep, hpick, Option.map_some, hfits, if_true,
    Option.bind_some, GepChannelArray.recvData, List.nil_append]
  cases hserve : a.serve e addr r with
  | none => rfl
  | some call => simp [ArrayCall.withServing]

end Libgep
