import Libgep.ArrayInvariant
import Libgep.FullSend

/-!
# The service loop of a server

`GepServer` runs `RunThread` in a thread of its own.  The machine interleaves
the steps of that thread with `Start` and `Stop`, called by a user that stops
a server only while it runs, and starts it only while it does not; anything
else terminates the process.
-/

namespace Libgep

open Transition

variable {Msg : Type*}

/-! ## State -/

/-- The result of `select`: the descriptors of its set that are ready, or `-1`
and an error number, with the set left as it was. -/
inductive SelectResult where
  | ready (fds : FdSet)
  | error (errno : ℕ)

def SelectResult.readFds (passed : FdSet) : SelectResult → FdSet
  | .ready fds => fun fd ↦ passed fd && fds fd
  | .error _ => passed

/-- `select` has failed, and not because of a signal. -/
def SelectResult.isFatal : SelectResult → Bool
  | .ready _ => false
  | .error errno => errno ≠ eintr

/-- Where the thread is in `RunThread`, with its local variables. -/
inductive ServerPc where
  /-- There is no thread to join. -/
  | idle
  | entry
  | head (serverSocket : ℤ)
  | selecting (serverSocket : ℤ) (readFds : FdSet)
  /-- Before the check of `thread_ctrl_` that follows `select`. -/
  | selected (serverSocket : ℤ) (readFds : FdSet)
  /-- Inside `RecvData`, with a channel to serve. -/
  | receiving (serverSocket : ℤ) (readFds : FdSet)
  /-- Before the check of `thread_ctrl_` that follows `RecvData`. -/
  | received (serverSocket : ℤ) (readFds : FdSet)
  /-- Past that check, with a connection to accept. -/
  | accepting (serverSocket : ℤ) (readFds : FdSet)
  | exited

structure GepServer where
  array : ArrayState
  threadCtrl : Bool
  pc : ServerPc
  /-- A call of `Stop` waits for the thread. -/
  stopping : Bool

inductive ServerLabel where
  | start (env : ListenEnv)
  /-- The first part of `Stop`, which clears `thread_ctrl_`. -/
  | stop
  /-- The rest of `Stop`, once the thread has exited. -/
  | join
  | enter
  | loop
  | select (r : SelectResult)
  | recvBegin
  | recv (r : RawRecv)
  | recvEnd
  | acceptBegin
  | accept (fd : ℤ) (stale : Buffer)

/-! ## Steps -/

namespace GepServer

def new (a : GepChannelArray) : GepServer := ⟨⟨a, none⟩, false, .idle, false⟩

def start (s : GepServer) (env : ListenEnv) : GepServer × List (ArrayEvent Msg) :=
  let opened := s.array.array.openServerSocket env
  let array := ⟨opened.array, s.array.serving⟩
  if opened.ret < 0 then ({ s with array := array }, opened.events)
  else ({ s with array := array, threadCtrl := true, pc := .entry }, opened.events)

def readFds (s : GepServer) (serverSocket : ℤ) : Option FdSet :=
  (FdSet.insert (fun _ ↦ false) serverSocket).bind s.array.array.getVectorReadFds

/-- A step of the array, after which the thread is at `pc`. -/
def onArray (e : Endpoint Msg) (s : GepServer) (l : ArrayLabel) (pc : ArrayState → ServerPc) :
    Option (GepServer × List (ArrayEvent Msg)) :=
  (arrayStep e s.array l).map fun next ↦ ({ s with array := next.1, pc := pc next.1 }, next.2)

theorem isSome_readFds {s : GepServer} {serverSocket : ℤ} :
    (s.readFds serverSocket).isSome ↔ (0 ≤ serverSocket ∧ serverSocket < fdSetSize) ∧
      ∀ addr ∈ s.array.array.vector, (s.array.array.heap addr).socket < fdSetSize := by
  unfold readFds FdSet.insert
  split_ifs with hfits
  · rw [Option.bind_some, GepChannelArray.isSome_getVectorReadFds]
    exact ⟨fun h ↦ ⟨hfits, h⟩, And.right⟩
  · exact ⟨fun h ↦ absurd h Bool.false_ne_true, fun h ↦ absurd h.1 hfits⟩

end GepServer

def serverStep (e : Endpoint Msg) (s : GepServer) :
    ServerLabel → Option (GepServer × List (ArrayEvent Msg))
  | .start env =>
      match s.pc with
      | .idle => some (s.start env)
      | _ => none
  | .stop =>
      match s.pc with
      | .idle => none
      | _ => if s.stopping then none else some ({ s with threadCtrl := false, stopping := true }, [])
  | .join =>
      match s.pc with
      | .exited =>
          if s.stopping then
            ({ s with stopping := false } : GepServer).onArray e .stop fun _ ↦ .idle
          else none
      | _ => none
  | .enter =>
      match s.pc with
      | .entry =>
          let serverSocket := s.array.array.serverSocket
          some ({ s with pc := if serverSocket < 0 then .exited else .head serverSocket }, [])
      | _ => none
  | .loop =>
      match s.pc with
      | .head serverSocket =>
          if s.threadCtrl then
            (s.readFds serverSocket).map fun readFds ↦
              ({ s with pc := .selecting serverSocket readFds }, [])
          else some ({ s with pc := .exited }, [])
      | _ => none
  | .select r =>
      match s.pc with
      | .selecting serverSocket passed =>
          some ({ s with
            pc := if r.isFatal then .exited
              else .selected serverSocket (r.readFds passed) }, [])
      | _ => none
  | .recvBegin =>
      match s.pc with
      | .selected serverSocket readFds =>
          if s.threadCtrl then
            s.onArray e (.pick readFds) fun array ↦
              if array.serving.isSome then .receiving serverSocket readFds
              else .received serverSocket readFds
          else some ({ s with pc := .exited }, [])
      | _ => none
  | .recv r =>
      match s.pc with
      | .receiving serverSocket readFds =>
          s.onArray e (.serve r) fun _ ↦ .receiving serverSocket readFds
      | _ => none
  | .recvEnd =>
      match s.pc with
      | .receiving serverSocket readFds =>
          s.onArray e .finish fun _ ↦ .received serverSocket readFds
      | _ => none
  | .acceptBegin =>
      match s.pc with
      | .received serverSocket readFds =>
          some ({ s with
            pc := if s.threadCtrl then
                if readFds serverSocket then .accepting serverSocket readFds
                else .head serverSocket
              else .exited }, [])
      | _ => none
  | .accept fd stale =>
      match s.pc with
      | .accepting serverSocket _ =>
          -- `AcceptConnection` is negative exactly when `Accept` returns `-1`
          s.onArray e (.acceptConnection fd stale) fun _ ↦
            if fd = -1 then .exited else .head serverSocket
      | _ => none

def serverMachine (e : Endpoint Msg) (a : GepChannelArray) :
    Machine GepServer ServerLabel (ArrayEvent Msg) :=
  ⟨.new a, serverStep e⟩

/-! ## What a step does -/

inductive ServerStep (e : Endpoint Msg) (s : GepServer) :
    ServerLabel → GepServer → List (ArrayEvent Msg) → Prop where
  | start (env : ListenEnv) (hpc : s.pc = .idle) :
      ServerStep e s (.start env) (@s.start Msg env).1 (s.start env).2
  | stop (hpc : s.pc ≠ .idle) (hstopping : s.stopping = false) :
      ServerStep e s .stop { s with threadCtrl := false, stopping := true } []
  | join (array : ArrayState) (es : List (ArrayEvent Msg)) (hpc : s.pc = .exited)
      (hstopping : s.stopping = true) (h : arrayStep e s.array .stop = some (array, es)) :
      ServerStep e s .join { s with array := array, pc := .idle, stopping := false } es
  | enter (hpc : s.pc = .entry) :
      ServerStep e s .enter
        { s with
          pc := if s.array.array.serverSocket < 0 then .exited
            else .head s.array.array.serverSocket } []
  | loopQuit (serverSocket : ℤ) (hpc : s.pc = .head serverSocket) (hctrl : s.threadCtrl = false) :
      ServerStep e s .loop { s with pc := .exited } []
  | loop (serverSocket : ℤ) (readFds : FdSet) (hpc : s.pc = .head serverSocket)
      (hctrl : s.threadCtrl = true) (hfds : s.readFds serverSocket = some readFds) :
      ServerStep e s .loop { s with pc := .selecting serverSocket readFds } []
  | select (r : SelectResult) (serverSocket : ℤ) (passed : FdSet)
      (hpc : s.pc = .selecting serverSocket passed) :
      ServerStep e s (.select r)
        { s with
          pc := if r.isFatal then .exited else .selected serverSocket (r.readFds passed) } []
  | recvQuit (serverSocket : ℤ) (readFds : FdSet) (hpc : s.pc = .selected serverSocket readFds)
      (hctrl : s.threadCtrl = false) : ServerStep e s .recvBegin { s with pc := .exited } []
  | recvBegin (serverSocket : ℤ) (readFds : FdSet) (array : ArrayState)
      (es : List (ArrayEvent Msg)) (hpc : s.pc = .selected serverSocket readFds)
      (hctrl : s.threadCtrl = true)
      (h : arrayStep e s.array (.pick readFds) = some (array, es)) :
      ServerStep e s .recvBegin
        { s with
          array := array
          pc := if array.serving.isSome then .receiving serverSocket readFds
            else .received serverSocket readFds } es
  | recv (r : RawRecv) (serverSocket : ℤ) (readFds : FdSet) (array : ArrayState)
      (es : List (ArrayEvent Msg)) (hpc : s.pc = .receiving serverSocket readFds)
      (h : arrayStep e s.array (.serve r) = some (array, es)) :
      ServerStep e s (.recv r) { s with array := array, pc := .receiving serverSocket readFds } es
  | recvEnd (serverSocket : ℤ) (readFds : FdSet) (array : ArrayState)
      (es : List (ArrayEvent Msg)) (hpc : s.pc = .receiving serverSocket readFds)
      (h : arrayStep e s.array .finish = some (array, es)) :
      ServerStep e s .recvEnd { s with array := array, pc := .received serverSocket readFds } es
  | acceptQuit (serverSocket : ℤ) (readFds : FdSet) (hpc : s.pc = .received serverSocket readFds)
      (hctrl : s.threadCtrl = false) : ServerStep e s .acceptBegin { s with pc := .exited } []
  | acceptNone (serverSocket : ℤ) (readFds : FdSet) (hpc : s.pc = .received serverSocket readFds)
      (hctrl : s.threadCtrl = true) (hset : readFds serverSocket = false) :
      ServerStep e s .acceptBegin { s with pc := .head serverSocket } []
  | acceptBegin (serverSocket : ℤ) (readFds : FdSet) (hpc : s.pc = .received serverSocket readFds)
      (hctrl : s.threadCtrl = true) (hset : readFds serverSocket = true) :
      ServerStep e s .acceptBegin { s with pc := .accepting serverSocket readFds } []
  | accept (fd : ℤ) (stale : Buffer) (serverSocket : ℤ) (readFds : FdSet) (array : ArrayState)
      (es : List (ArrayEvent Msg)) (hpc : s.pc = .accepting serverSocket readFds)
      (h : arrayStep e s.array (.acceptConnection fd stale) = some (array, es)) :
      ServerStep e s (.accept fd stale)
        { s with array := array, pc := if fd = -1 then .exited else .head serverSocket } es

theorem GepServer.onArray_eq_some {e : Endpoint Msg} {s s' : GepServer} {l : ArrayLabel}
    {pc : ArrayState → ServerPc} {es : List (ArrayEvent Msg)}
    (h : s.onArray e l pc = some (s', es)) :
    ∃ array, arrayStep e s.array l = some (array, es) ∧
      s' = { s with array := array, pc := pc array } := by
  obtain ⟨⟨array, es'⟩, hnext, heq⟩ := Option.map_eq_some_iff.mp h
  cases heq
  exact ⟨array, hnext, rfl⟩

theorem serverStep_spec {e : Endpoint Msg} {s s' : GepServer} {l : ServerLabel}
    {es : List (ArrayEvent Msg)} (h : serverStep e s l = some (s', es)) :
    ServerStep e s l s' es := by
  cases l with
  | start env =>
      simp only [serverStep] at h
      split at h
      · have hstart : s.start env = (s', es) := Option.some.inj h
        have hstep : ServerStep e s (.start env) (s.start env).1 (s.start env).2 :=
          .start env ‹_›
        rwa [hstart] at hstep
      · cases h
  | stop =>
      simp only [serverStep] at h
      split at h
      · cases h
      · split_ifs at h with hstopping
        cases h
        exact .stop ‹_› (Bool.eq_false_of_not_eq_true hstopping)
  | join =>
      simp only [serverStep] at h
      split at h
      · split_ifs at h with hstopping
        obtain ⟨array, hnext, rfl⟩ := GepServer.onArray_eq_some h
        exact .join array es ‹_› hstopping hnext
      · cases h
  | enter =>
      simp only [serverStep] at h
      split at h <;> cases h
      exact .enter ‹_›
  | loop =>
      simp only [serverStep] at h
      split at h
      · split_ifs at h with hctrl
        · obtain ⟨readFds, hfds, heq⟩ := Option.map_eq_some_iff.mp h
          cases heq
          exact .loop _ readFds ‹_› hctrl hfds
        · cases h
          exact .loopQuit _ ‹_› (Bool.eq_false_of_not_eq_true hctrl)
      · cases h
  | select r =>
      simp only [serverStep] at h
      split at h <;> cases h
      exact .select r _ _ ‹_›
  | recvBegin =>
      simp only [serverStep] at h
      split at h
      · split_ifs at h with hctrl
        · obtain ⟨array, hnext, rfl⟩ := GepServer.onArray_eq_some h
          exact .recvBegin _ _ array es ‹_› hctrl hnext
        · cases h
          exact .recvQuit _ _ ‹_› (Bool.eq_false_of_not_eq_true hctrl)
      · cases h
  | recv r =>
      simp only [serverStep] at h
      split at h
      · obtain ⟨array, hnext, rfl⟩ := GepServer.onArray_eq_some h
        exact .recv r _ _ array es ‹_› hnext
      · cases h
  | recvEnd =>
      simp only [serverStep] at h
      split at h
      · obtain ⟨array, hnext, rfl⟩ := GepServer.onArray_eq_some h
        exact .recvEnd _ _ array es ‹_› hnext
      · cases h
  | acceptBegin =>
      simp only [serverStep] at h
      split at h
      · split_ifs at h with hctrl hset <;> cases h
        · exact .acceptBegin _ _ ‹_› hctrl hset
        · exact .acceptNone _ _ ‹_› hctrl (Bool.eq_false_of_not_eq_true hset)
        · exact .acceptQuit _ _ ‹_› (Bool.eq_false_of_not_eq_true hctrl)
      · cases h
  | accept fd stale =>
      simp only [serverStep] at h
      split at h
      · obtain ⟨array, hnext, rfl⟩ := GepServer.onArray_eq_some h
        exact .accept fd stale _ _ array es ‹_› hnext
      · cases h

theorem acceptConnection_ret_neg_iff {a : GepChannelArray} {fd : ℤ} {stale : Buffer}
    {call : ArrayCall ℤ Msg} (h : a.acceptConnection fd stale = some call) :
    call.ret < 0 ↔ fd = -1 := by
  unfold GepChannelArray.acceptConnection at h
  split_ifs at h with hfd
  · cases h
    simp [hfd]
  · obtain ⟨add, -, rfl⟩ := Option.map_eq_some_iff.mp h
    simp [hfd]

/-! ## The server drives its array -/

/-- The step of the array that a step of the server takes, if it takes one. -/
inductive Drives (s : GepServer) : ServerLabel → ArrayLabel → Prop where
  | start (env : ListenEnv) : Drives s (.start env) (.openServerSocket env)
  | join (hpc : s.pc = .exited) : Drives s .join .stop
  | recvBegin (readFds : FdSet) : Drives s .recvBegin (.pick readFds)
  | recv (r : RawRecv) : Drives s (.recv r) (.serve r)
  | recvEnd : Drives s .recvEnd .finish
  | accept (fd : ℤ) (stale : Buffer) : Drives s (.accept fd stale) (.acceptConnection fd stale)

theorem GepServer.start_array (s : GepServer) (env : ListenEnv) :
    (@s.start Msg env).1.array = ⟨(@s.array.array.openServerSocket Msg env).array,
        s.array.serving⟩ ∧
      (s.start env).2 = (@s.array.array.openServerSocket Msg env).events := by
  unfold GepServer.start
  dsimp only
  split <;> exact ⟨rfl, rfl⟩

theorem serverStep_array {e : Endpoint Msg} {s s' : GepServer} {l : ServerLabel}
    {es : List (ArrayEvent Msg)} (h : serverStep e s l = some (s', es)) :
    (s'.array = s.array ∧ es = []) ∨
      ∃ l', Drives s l l' ∧ arrayStep e s.array l' = some (s'.array, es) := by
  cases serverStep_spec h with
  | start env hpc =>
      obtain ⟨harray, hes⟩ := @GepServer.start_array Msg s env
      rw [harray, hes]
      exact .inr ⟨_, .start env, rfl⟩
  | stop | enter | loopQuit | loop | select | recvQuit | acceptQuit | acceptNone | acceptBegin =>
      exact .inl ⟨rfl, rfl⟩
  | join array es hpc hstopping h => exact .inr ⟨_, .join hpc, h⟩
  | recvBegin serverSocket readFds array es hpc hctrl h => exact .inr ⟨_, .recvBegin _, h⟩
  | recv r serverSocket readFds array es hpc h => exact .inr ⟨_, .recv r, h⟩
  | recvEnd serverSocket readFds array es hpc h => exact .inr ⟨_, .recvEnd, h⟩
  | accept fd stale serverSocket readFds array es hpc h =>
      exact .inr ⟨_, .accept fd stale, h⟩

/-- The thread is inside `RecvData` exactly while a channel is being served,
and between `Stop` and `Start` the array is empty. -/
structure ServerOk (s : GepServer) : Prop where
  receiving : s.array.serving.isSome → ∃ serverSocket readFds,
    s.pc = .receiving serverSocket readFds
  idle : s.pc = .idle → s.array.array.vector = [] ∧ s.stopping = false

/-- A step outside of `RecvData` that serves nobody, and does not join. -/
theorem ServerOk.of_quiet {s s' : GepServer} (hs : ServerOk s)
    (hpc : ∀ serverSocket readFds, s.pc ≠ .receiving serverSocket readFds)
    (hserving : s'.array.serving = s.array.serving) (hidle : s'.pc ≠ .idle) : ServerOk s' := by
  constructor
  · intro hsome
    rw [hserving] at hsome
    obtain ⟨serverSocket, readFds, hreceiving⟩ := hs.receiving hsome
    exact absurd hreceiving (hpc serverSocket readFds)
  · intro h
    exact absurd h hidle

theorem ServerOk.step {e : Endpoint Msg} {s s' : GepServer} {l : ServerLabel}
    {es : List (ArrayEvent Msg)} (hs : ServerOk s) (h : serverStep e s l = some (s', es)) :
    ServerOk s' := by
  have hserving : (∀ serverSocket readFds, s.pc ≠ .receiving serverSocket readFds) →
      ¬ s.array.serving.isSome := by
    intro hpc hsome
    obtain ⟨serverSocket, readFds, hreceiving⟩ := hs.receiving hsome
    exact hpc serverSocket readFds hreceiving
  cases serverStep_spec h with
  | start env hpc =>
      obtain ⟨harray, -⟩ := @GepServer.start_array Msg s env
      have hnone := hserving (by simp [hpc])
      obtain ⟨hempty, hstopping⟩ := hs.idle hpc
      refine ⟨fun hsome ↦ ?_, fun _ ↦ ⟨?_, ?_⟩⟩
      · rw [harray] at hsome
        exact absurd hsome hnone
      · rw [harray]
        exact (GepChannelArray.openServerSocket_vector _ env).trans hempty
      · unfold GepServer.start
        dsimp only
        split <;> exact hstopping
  | stop hpc hstopping => exact ⟨hs.receiving, fun hidle ↦ absurd hidle hpc⟩
  | join array es hpc hstopping h =>
      have hnone := hserving (by simp [hpc])
      cases arrayStep_spec h with
      | stopped => exact ⟨fun hsome ↦ absurd hsome hnone, fun _ ↦ ⟨GepChannelArray.stop_vector _ _, rfl⟩⟩
  | enter hpc | select _ _ _ hpc =>
      apply hs.of_quiet (by simp [hpc])
      · rfl
      · dsimp only
        split <;> rintro ⟨⟩
  | loopQuit _ hpc | loop _ _ hpc | recvQuit _ _ hpc | acceptQuit _ _ hpc | acceptNone _ _ hpc
    | acceptBegin _ _ hpc =>
      apply hs.of_quiet (by simp [hpc])
      · rfl
      · rintro ⟨⟩
  | recvBegin serverSocket readFds array es hpc hctrl h =>
      refine ⟨fun hsome ↦ ⟨serverSocket, readFds, if_pos hsome⟩, fun hidle ↦ ?_⟩
      dsimp only at hidle
      split at hidle <;> cases hidle
  | recv r serverSocket readFds array es hpc h =>
      exact ⟨fun _ ↦ ⟨serverSocket, readFds, rfl⟩, by rintro ⟨⟩⟩
  | recvEnd serverSocket readFds array es hpc h =>
      cases arrayStep_spec h with
      | finished => exact ⟨by rintro ⟨⟩, by rintro ⟨⟩⟩
  | accept fd stale serverSocket readFds array es hpc h =>
      apply hs.of_quiet (by simp [hpc])
      · cases arrayStep_spec h <;> rfl
      · dsimp only
        split <;> rintro ⟨⟩

theorem serverOk {e : Endpoint Msg} {a : GepChannelArray} (hempty : a.vector = [])
    {ok : GepServer → List (ArrayEvent Msg) → ServerLabel → Prop} {s : GepServer}
    {log : List (ArrayEvent Msg)} (h : (serverMachine e a).Reaches ok s log) : ServerOk s :=
  h.invariant (P := fun s _ ↦ ServerOk s) ⟨by rintro ⟨⟩, fun _ ↦ ⟨hempty, rfl⟩⟩
    fun _ hs _ hstep ↦ hs.step hstep

theorem ServerOk.serving_eq_none {s : GepServer} (hs : ServerOk s)
    (hpc : ∀ serverSocket readFds, s.pc ≠ .receiving serverSocket readFds) :
    s.array.serving = none := by
  by_contra hne
  obtain ⟨serverSocket, readFds, hreceiving⟩ := hs.receiving (Option.isSome_iff_ne_none.mpr hne)
  exact hpc serverSocket readFds hreceiving

/-- `Stop` is not called while a channel is being served. -/
def Serial (s : ArrayState) (l : ArrayLabel) : Prop := l = .stop → s.serving = none

/-- Whatever the server reaches, its array reaches, by itself and without a
`Stop` in the middle of a `RecvData`. -/
theorem reaches_array {e : Endpoint Msg} {a : GepChannelArray} (hempty : a.vector = [])
    {ok : GepServer → List (ArrayEvent Msg) → ServerLabel → Prop}
    {ok' : ArrayState → List (ArrayEvent Msg) → ArrayLabel → Prop}
    (hok : ∀ {s log l l'}, ok s log l → Drives s l l' → ok' s.array log l') {s : GepServer}
    {log : List (ArrayEvent Msg)} (h : (serverMachine e a).Reaches ok s log) :
    (arrayMachine e a).Reaches (fun s log l ↦ ok' s log l ∧ Serial s l) s.array log := by
  refine h.simulate (f := GepServer.array) rfl fun {s s' log es l} hs hl hstep ↦ ?_
  rcases serverStep_array hstep with hnone | ⟨l', hdrives, hnext⟩
  · exact .inl hnone
  · refine .inr ⟨l', ⟨hok hl hdrives, ?_⟩, hnext⟩
    rintro rfl
    cases hdrives with
    | join hpc =>
        by_contra hserving
        obtain ⟨_, _, hreceiving⟩ :=
          (serverOk hempty hs).receiving (Option.isSome_iff_ne_none.mpr hserving)
        rw [hpc] at hreceiving
        cases hreceiving

end Libgep
