import Libgep.Broadcast
import Libgep.Lifecycle
import Libgep.Lib.Mutex

/-!
# The order of broadcasts

Any number of threads call `SendMessage` on one array, which accepts, serves
and removes clients meanwhile.  Every call has the lock of the vector while it
walks through the clients, so that all of them see the calls in one order.
-/

namespace Libgep

open CInt Transition Mutex

variable {Msg : Type*}

/-! ## Calls -/

/-- A call of `SendMessage`, to all clients or to the one with an id. -/
inductive Cast (Msg : Type*) where
  | all (msg : Msg)
  | one (msg : Msg) (id : ℤ)
  deriving DecidableEq

/-- The clients in the vector: their channels and their ids. -/
abbrev Clients := List (ℕ × ℤ)

def GepChannelArray.clients (a : GepChannelArray) : Clients :=
  a.vector.map fun addr ↦ (addr, (a.heap addr).id)

/-- Where a call is in its loop, and what it would return at the end. -/
structure CastLoc where
  index : ℕ
  ret : ℤ

/-- What a call reads in one iteration: the sockets as they are now, and the
answers that the channel gets if it sends. -/
structure CastInput where
  isOpen : ℕ → Bool
  env : GepChannel.TLVEnv

namespace Cast

def msg : Cast Msg → Msg
  | .all msg => msg
  | .one msg _ => msg

def selects : Cast Msg → ℤ → Bool
  | .all _, _ => true
  | .one _ id, id' => id = id'

/-- What the loop does after a channel has sent. -/
def sent (loc : CastLoc) (ret : ℤ) : Cast Msg → Status CastLoc ℤ
  | .all _ => .running ⟨loc.index + 1, if ret < 0 then -1 else loc.ret⟩
  | .one _ _ => .finished ret

/-- `SendMessage`, once it has the lock. -/
def body (p : GepProtocol Msg) : Body (Cast Msg) CastLoc ℤ Clients CastInput Attempt where
  start
    | .all _ => ⟨0, 0⟩
    | .one _ _ => ⟨0, -1⟩
  step clients cast loc input :=
    match clients[loc.index]? with
    | none => some (.finished loc.ret, [])
    | some (addr, id) =>
        if input.isOpen addr ∧ cast.selects id then
          (GepChannel.sendMessage p cast.msg input.env).map fun o ↦
            (cast.sent loc o.ret, [⟨addr, id, o⟩])
        else some (.running ⟨loc.index + 1, loc.ret⟩, [])

end Cast

/-! ## A call by itself -/

def Attempt.client (t : Attempt) : ℕ × ℤ := (t.addr, t.id)

namespace Cast

variable {p : GepProtocol Msg} {cast : Cast Msg} {clients : Clients}

/-- One iteration of the loop. -/
inductive LoopStep (p : GepProtocol Msg) (cast : Cast Msg) (clients : Clients) (loc : CastLoc)
    (input : CastInput) : Status CastLoc ℤ → List Attempt → Prop where
  | ended (hlength : clients.length ≤ loc.index) :
      LoopStep p cast clients loc input (.finished loc.ret) []
  | skipped (client : ℕ × ℤ) (hclient : clients[loc.index]? = some client)
      (hskip : ¬ (input.isOpen client.1 = true ∧ cast.selects client.2 = true)) :
      LoopStep p cast clients loc input (.running ⟨loc.index + 1, loc.ret⟩) []
  | attempted (t : Attempt) (hclient : clients[loc.index]? = some t.client)
      (hselects : cast.selects t.id = true)
      (hsend : GepChannel.sendMessage p cast.msg input.env = some t.outcome) :
      LoopStep p cast clients loc input (cast.sent loc t.outcome.ret) [t]

theorem step_spec {loc : CastLoc} {input : CastInput} {next : Status CastLoc ℤ}
    {out : List Attempt} (h : (body p).step clients cast loc input = some (next, out)) :
    LoopStep p cast clients loc input next out := by
  simp only [body] at h
  cases hclient : clients[loc.index]? with
  | none =>
      rw [hclient] at h
      cases h
      exact .ended (List.getElem?_eq_none_iff.mp hclient)
  | some client =>
      rw [hclient] at h
      dsimp only at h
      split_ifs at h with hselected
      · obtain ⟨o, ho, heq⟩ := Option.map_eq_some_iff.mp h
        cases heq
        exact .attempted ⟨client.1, client.2, o⟩ hclient hselected.2 ho
      · cases h
        exact .skipped client hclient hselected

/-- The clients that a call has come past. -/
def passed (clients : Clients) : Status CastLoc ℤ → Clients
  | .running loc => clients.take loc.index
  | .finished _ => clients

theorem take_succ_of_getElem? {index : ℕ} {client : ℕ × ℤ} (h : clients[index]? = some client) :
    clients.take (index + 1) = clients.take index ++ [client] := by
  rw [List.take_add_one, h, Option.toList_some]

/-- The attempts of a call are on clients that it has come past, in order. -/
structure Walked (p : GepProtocol Msg) (cast : Cast Msg) (clients : Clients)
    (status : Status CastLoc ℤ) (outs : List Attempt) : Prop where
  clients : (outs.map Attempt.client).Sublist (passed clients status)
  selects : ∀ t ∈ outs, cast.selects t.id = true
  framed : ∀ t ∈ outs, GepChannelArray.Framed p cast.msg t.outcome

theorem Walked.step {loc : CastLoc} {input : CastInput} {next : Status CastLoc ℤ}
    {outs out : List Attempt} (h : Walked p cast clients (.running loc) outs)
    (hstep : LoopStep p cast clients loc input next out) :
    Walked p cast clients next (outs ++ out) := by
  obtain ⟨hclients, hselects, hframed⟩ := h
  cases hstep with
  | ended =>
      rw [List.append_nil]
      exact ⟨hclients.trans (List.take_sublist _ _), hselects, hframed⟩
  | skipped client hclient =>
      rw [List.append_nil]
      refine ⟨hclients.trans ?_, hselects, hframed⟩
      rw [passed, passed, take_succ_of_getElem? hclient]
      exact List.sublist_append_left _ _
  | attempted t hclient hselected hsend =>
      have hsucc : ((outs ++ [t]).map Attempt.client).Sublist (clients.take (loc.index + 1)) := by
        rw [take_succ_of_getElem? hclient, List.map_append]
        exact hclients.append (List.Sublist.refl _)
      refine ⟨?_, ?_, ?_⟩
      · cases cast with
        | all msg => exact hsucc
        | one msg id => exact hsucc.trans (List.take_sublist _ _)
      · exact List.forall_mem_append.mpr ⟨hselects, List.forall_mem_singleton.mpr hselected⟩
      · refine List.forall_mem_append.mpr ⟨hframed, List.forall_mem_singleton.mpr ?_⟩
        exact GepChannelArray.framed hsend

theorem walked_of_runs {ins : List CastInput} {status : Status CastLoc ℤ} {outs : List Attempt}
    (h : (body p).Runs clients cast ins status outs) : Walked p cast clients status outs := by
  induction h with
  | start => exact ⟨List.nil_sublist _, List.forall_mem_nil _, List.forall_mem_nil _⟩
  | step _ hstep ih => exact ih.step (step_spec hstep)

/-- A channel that a broadcast finds open whenever it looks is attempted when
the broadcast comes past it. -/
theorem count_step {msg : Msg} {loc : CastLoc} {input : CastInput} {next : Status CastLoc ℤ}
    {outs out : List Attempt} {addr : ℕ} (hopen : input.isOpen addr = true)
    (hstep : LoopStep p (.all msg) clients loc input next out)
    (h : (outs.map Attempt.addr).count addr =
      ((passed clients (.running loc)).map Prod.fst).count addr) :
    ((outs ++ out).map Attempt.addr).count addr =
      ((passed clients next).map Prod.fst).count addr := by
  cases hstep with
  | ended hlength =>
      rw [List.append_nil, h, passed, passed, List.take_of_length_le hlength]
  | skipped client hclient hskip =>
      have hne : client.1 ≠ addr := by
        rintro rfl
        exact hskip ⟨hopen, rfl⟩
      rw [List.append_nil, h, passed, passed, take_succ_of_getElem? hclient, List.map_append,
        List.count_append, List.map_singleton, List.count_singleton, if_neg (by simpa using hne)]
      rfl
  | attempted t hclient =>
      change _ = ((clients.take (loc.index + 1)).map Prod.fst).count addr
      rw [List.map_append, List.count_append, h, take_succ_of_getElem? hclient, List.map_append,
        List.count_append]
      rfl

/-! ## A call on an array that does not change -/

variable {a : GepChannelArray} {env : ℕ → GepChannel.TLVEnv} {msg : Msg}

/-- What a call reads in the iteration for `addr`. -/
def inputOf (a : GepChannelArray) (env : ℕ → GepChannel.TLVEnv) (addr : ℕ) : CastInput :=
  ⟨fun addr ↦ (a.heap addr).isOpenSocket, env addr⟩

theorem clients_getElem? {done addrs : List ℕ} {addr : ℕ}
    (h : a.vector = done ++ addr :: addrs) :
    a.clients[done.length]? = some (addr, (a.heap addr).id) := by
  simp [GepChannelArray.clients, h]

/-- One more iteration. -/
theorem runs_iteration {cast : Cast Msg} {before : List ℕ} {loc : CastLoc} {outs out : List Attempt}
    {next : Status CastLoc ℤ} {addr : ℕ}
    (hruns : (body p).Runs a.clients cast (before.map (inputOf a env)) (.running loc) outs)
    (hstep : (body p).step a.clients cast loc (inputOf a env addr) = some (next, out)) :
    (body p).Runs a.clients cast ((before ++ [addr]).map (inputOf a env)) next (outs ++ out) := by
  rw [List.map_append, List.map_singleton]
  exact hruns.step hstep

/-- The end of the loop. -/
theorem runs_end {cast : Cast Msg} {before done : List ℕ} {ret : ℤ} {outs : List Attempt}
    (hvector : a.vector = done)
    (hruns : (body p).Runs a.clients cast (before.map (inputOf a env))
      (.running ⟨done.length, ret⟩) outs) :
    ∃ addrs : List ℕ, (body p).Runs a.clients cast (addrs.map (inputOf a env)) (.finished ret)
      outs := by
  have hend : a.clients[done.length]? = none := by
    simp [GepChannelArray.clients, hvector]
  have hstep : (body p).step a.clients cast ⟨done.length, ret⟩ (inputOf a env 0) =
      some (.finished ret, []) := by
    simp only [body, hend]
  have hrun := runs_iteration hruns hstep
  rw [List.append_nil] at hrun
  exact ⟨_, hrun⟩

theorem runs_sendMessageLoop {done addrs : List ℕ} (hvector : a.vector = done ++ addrs)
    {ret ret' : ℤ} {attempts : List Attempt}
    (h : a.sendMessageLoop p msg env ret addrs = some (ret', attempts)) {before : List ℕ}
    {outs : List Attempt}
    (hruns : (body p).Runs a.clients (.all msg) (before.map (inputOf a env))
      (.running ⟨done.length, ret⟩) outs) :
    ∃ addrs : List ℕ, (body p).Runs a.clients (.all msg) (addrs.map (inputOf a env))
      (.finished ret') (outs ++ attempts) := by
  induction addrs generalizing done ret attempts before outs with
  | nil =>
      cases h
      rw [List.append_nil] at hvector ⊢
      exact runs_end hvector hruns
  | cons addr addrs ih =>
      have hclient := clients_getElem? hvector
      have hnext : a.vector = (done ++ [addr]) ++ addrs := by simpa using hvector
      have hlength : (done ++ [addr]).length = done.length + 1 := by simp
      rw [GepChannelArray.sendMessageLoop] at h
      split_ifs at h with hopen
      · obtain ⟨o, ho, hrest⟩ := Option.bind_eq_some_iff.mp h
        obtain ⟨⟨last, rest⟩, hloop, heq⟩ := Option.map_eq_some_iff.mp hrest
        cases heq
        have hstep : (body p).step a.clients (.all msg) ⟨done.length, ret⟩ (inputOf a env addr) =
            some (.running ⟨done.length + 1, if o.ret < 0 then -1 else ret⟩,
              [⟨addr, (a.heap addr).id, o⟩]) := by
          simp [body, hclient, inputOf, hopen, selects, Cast.msg, ho, sent]
        rw [← hlength] at hstep
        have hall := ih hnext hloop (runs_iteration hruns hstep)
        rwa [List.append_assoc] at hall
      · have hstep : (body p).step a.clients (.all msg) ⟨done.length, ret⟩ (inputOf a env addr) =
            some (.running ⟨done.length + 1, ret⟩, []) := by
          simp [body, hclient, inputOf, hopen]
        rw [← hlength] at hstep
        have hrun := runs_iteration hruns hstep
        rw [List.append_nil] at hrun
        exact ih hnext h hrun

theorem runs_sendMessageToLoop {id : ℤ} {done addrs : List ℕ} (hvector : a.vector = done ++ addrs)
    {ret : ℤ} {attempts : List Attempt}
    (h : a.sendMessageToLoop p msg env id addrs = some (ret, attempts)) {before : List ℕ}
    (hruns : (body p).Runs a.clients (.one msg id) (before.map (inputOf a env))
      (.running ⟨done.length, -1⟩) []) :
    ∃ addrs : List ℕ, (body p).Runs a.clients (.one msg id) (addrs.map (inputOf a env))
      (.finished ret) attempts := by
  induction addrs generalizing done before with
  | nil =>
      cases h
      rw [List.append_nil] at hvector
      exact runs_end hvector hruns
  | cons addr addrs ih =>
      have hclient := clients_getElem? hvector
      have hnext : a.vector = (done ++ [addr]) ++ addrs := by simpa using hvector
      have hlength : (done ++ [addr]).length = done.length + 1 := by simp
      rw [GepChannelArray.sendMessageToLoop] at h
      split_ifs at h with hmatch
      · obtain ⟨o, ho, heq⟩ := Option.map_eq_some_iff.mp h
        cases heq
        have hstep : (body p).step a.clients (.one msg id) ⟨done.length, -1⟩
            (inputOf a env addr) = some (.finished o.ret, [⟨addr, (a.heap addr).id, o⟩]) := by
          simp [body, hclient, inputOf, hmatch.1, hmatch.2, selects, Cast.msg, ho, sent]
        exact ⟨_, runs_iteration hruns hstep⟩
      · have hstep : (body p).step a.clients (.one msg id) ⟨done.length, -1⟩
            (inputOf a env addr) = some (.running ⟨done.length + 1, -1⟩, []) := by
          simpa [body, hclient, inputOf, selects] using hmatch
        rw [← hlength] at hstep
        exact ih hnext h (runs_iteration hruns hstep)

/-- A call that nothing disturbs does what `SendMessage` does. -/
theorem runs_sendMessage {call : SendCall} (h : a.sendMessage p msg env = some call) :
    ∃ addrs : List ℕ, (body p).Runs a.clients (.all msg) (addrs.map (inputOf a env))
      (.finished call.ret) call.attempts := by
  obtain ⟨⟨ret, attempts⟩, hloop, rfl⟩ := Option.map_eq_some_iff.mp h
  have hstart : (body p).Runs a.clients (.all msg) (([] : List ℕ).map (inputOf a env))
      (.running ⟨0, 0⟩) [] := .start
  exact runs_sendMessageLoop (List.nil_append _).symm hloop hstart

theorem runs_sendMessageTo {id : ℤ} {call : SendCall}
    (h : a.sendMessageTo p msg env id = some call) :
    ∃ addrs : List ℕ, (body p).Runs a.clients (.one msg id) (addrs.map (inputOf a env))
      (.finished call.ret) call.attempts := by
  obtain ⟨⟨ret, attempts⟩, hloop, rfl⟩ := Option.map_eq_some_iff.mp h
  have hstart : (body p).Runs a.clients (.one msg id) (([] : List ℕ).map (inputOf a env))
      (.running ⟨0, -1⟩) [] := .start
  exact runs_sendMessageToLoop (List.nil_append _).symm hloop hstart

end Cast

/-! ## The machine -/

abbrev SendsState (ι Msg : Type*) := State ι (Cast Msg) CastLoc ℤ Clients

abbrev CastEvent (ι Msg : Type*) := Event ι (Cast Msg) ℤ Clients Attempt

/-- The array and the threads that send.  The lock is recursive: its `owner`,
which is in another method of the array, may call `SendMessage` as well, from
`AddClient` or `DelClient`. -/
structure CastState (ι Msg : Type*) where
  array : ArrayState
  owner : Option ι
  sends : SendsState ι Msg

inductive CastLabel (ι : Type*) where
  | acquire (i : ι)
  | work (i : ι) (env : GepChannel.TLVEnv)
  | release (i : ι)
  | lock (i : ι)
  | unlock (i : ι)
  | array (i : ι) (l : ArrayLabel)

/-- The steps of the array that are taken with the lock of the vector. -/
def ArrayState.locks (s : ArrayState) : ArrayLabel → Bool
  | .openServerSocket _ => false
  | .acceptConnection fd _ => fd ≠ -1
  | .pick _ => true
  | .serve _ => false
  | .finish =>
      match s.serving with
      | some ⟨_, some ret⟩ => ret < 0
      | _ => false
  | .stop => true

section Machine

variable {ι : Type*} [DecidableEq ι]

abbrev SendsLabel (ι : Type*) := Label ι CastInput Clients

def sendsStep (p : GepProtocol Msg) (s : SendsState ι Msg) (l : SendsLabel ι) :
    Option (SendsState ι Msg × List (CastEvent ι Msg)) :=
  Mutex.step (Cast.body p) (fun _ clients ↦ clients) s l

def CastState.onSends (p : GepProtocol Msg) (s : CastState ι Msg) (l : SendsLabel ι) :
    Option (CastState ι Msg × List (CastEvent ι Msg)) :=
  (sendsStep p s.sends l).map fun next ↦ ({ s with sends := next.1 }, next.2)

def castStep (p : GepProtocol Msg) (e : Endpoint Msg) (s : CastState ι Msg) :
    CastLabel ι → Option (CastState ι Msg × List (CastEvent ι Msg))
  | .acquire i =>
      if s.owner = none ∨ s.owner = some i then s.onSends p (.acquire i) else none
  | .work i env =>
      s.onSends p (.work i ⟨fun addr ↦ (s.array.array.heap addr).isOpenSocket, env⟩)
  | .release i => s.onSends p (.release i)
  | .lock i =>
      if s.owner = none ∧ s.sends.holder = none then some ({ s with owner := some i }, []) else none
  | .unlock i =>
      if s.owner = some i ∧ s.sends.holder = none then some ({ s with owner := none }, []) else none
  | .array i l =>
      if s.array.locks l then
        if s.owner = some i then
          (arrayStep e s.array l).bind fun next ↦
            { s with array := next.1 }.onSends p (.update next.1.array.clients)
        else none
      else (arrayStep e s.array l).map fun next ↦ ({ s with array := next.1 }, [])

def castMachine (p : GepProtocol Msg) (e : Endpoint Msg) (a : GepChannelArray)
    (todo : ι → List (Cast Msg)) :
    Machine (CastState ι Msg) (CastLabel ι) (CastEvent ι Msg) :=
  ⟨⟨⟨a, none⟩, none, ⟨a.clients, none, fun i ↦ ⟨todo i, none⟩⟩⟩, castStep p e⟩

/-- The steps of the machine: those of the sends, those of the array, and
those that take or leave the lock. -/
inductive CastStep (p : GepProtocol Msg) (e : Endpoint Msg) (s : CastState ι Msg) :
    CastLabel ι → CastState ι Msg → List (CastEvent ι Msg) → Prop where
  | acquire (i : ι) (next : SendsState ι Msg) (es : List (CastEvent ι Msg))
      (howner : s.owner = none ∨ s.owner = some i)
      (hsends : sendsStep p s.sends (.acquire i) = some (next, es)) :
      CastStep p e s (.acquire i) { s with sends := next } es
  | work (i : ι) (env : GepChannel.TLVEnv) (next : SendsState ι Msg)
      (es : List (CastEvent ι Msg))
      (hsends : sendsStep p s.sends
        (.work i ⟨fun addr ↦ (s.array.array.heap addr).isOpenSocket, env⟩) = some (next, es)) :
      CastStep p e s (.work i env) { s with sends := next } es
  | release (i : ι) (next : SendsState ι Msg) (es : List (CastEvent ι Msg))
      (hsends : sendsStep p s.sends (.release i) = some (next, es)) :
      CastStep p e s (.release i) { s with sends := next } es
  | lock (i : ι) (howner : s.owner = none) (hholder : s.sends.holder = none) :
      CastStep p e s (.lock i) { s with owner := some i } []
  | unlock (i : ι) (howner : s.owner = some i) (hholder : s.sends.holder = none) :
      CastStep p e s (.unlock i) { s with owner := none } []
  | locked (i : ι) (l : ArrayLabel) (array : ArrayState) (aes : List (ArrayEvent Msg))
      (next : SendsState ι Msg) (es : List (CastEvent ι Msg)) (hlocks : s.array.locks l = true)
      (howner : s.owner = some i) (harray : arrayStep e s.array l = some (array, aes))
      (hsends : sendsStep p s.sends (.update array.array.clients) = some (next, es)) :
      CastStep p e s (.array i l) { s with array := array, sends := next } es
  | free (i : ι) (l : ArrayLabel) (array : ArrayState) (aes : List (ArrayEvent Msg))
      (hlocks : ¬ s.array.locks l = true)
      (harray : arrayStep e s.array l = some (array, aes)) :
      CastStep p e s (.array i l) { s with array := array } []

theorem onSends_spec {p : GepProtocol Msg} {s s' : CastState ι Msg} {l : SendsLabel ι}
    {es : List (CastEvent ι Msg)} (h : s.onSends p l = some (s', es)) :
    ∃ next, sendsStep p s.sends l = some (next, es) ∧ s' = { s with sends := next } := by
  obtain ⟨⟨next, es'⟩, hnext, heq⟩ := Option.map_eq_some_iff.mp h
  cases heq
  exact ⟨next, hnext, rfl⟩

theorem castStep_spec {p : GepProtocol Msg} {e : Endpoint Msg} {s s' : CastState ι Msg}
    {l : CastLabel ι} {es : List (CastEvent ι Msg)} (h : castStep p e s l = some (s', es)) :
    CastStep p e s l s' es := by
  cases l with
  | acquire i =>
      simp only [castStep] at h
      split_ifs at h with howner
      obtain ⟨next, hnext, rfl⟩ := onSends_spec h
      exact .acquire i next es howner hnext
  | work i env =>
      obtain ⟨next, hnext, rfl⟩ := onSends_spec h
      exact .work i env next es hnext
  | release i =>
      obtain ⟨next, hnext, rfl⟩ := onSends_spec h
      exact .release i next es hnext
  | lock i =>
      simp only [castStep] at h
      split_ifs at h with hfree
      cases h
      exact .lock i hfree.1 hfree.2
  | unlock i =>
      simp only [castStep] at h
      split_ifs at h with hfree
      cases h
      exact .unlock i hfree.1 hfree.2
  | array i l =>
      simp only [castStep] at h
      split_ifs at h with hlocks howner
      · obtain ⟨⟨array, aes⟩, harray, hsends⟩ := Option.bind_eq_some_iff.mp h
        obtain ⟨next, hnext, rfl⟩ := onSends_spec hsends
        exact .locked i l array aes next es hlocks howner harray hnext
      · obtain ⟨⟨array, aes⟩, harray, heq⟩ := Option.map_eq_some_iff.mp h
        cases heq
        exact .free i l array aes hlocks harray

/-! ## The clients -/

namespace GepChannelArray

variable {a a' : GepChannelArray}

theorem clients_eq (hkeeps : Keeps a a') (hvector : a'.vector = a.vector) :
    a'.clients = a.clients := by
  rw [clients, clients, hvector]
  exact List.map_congr_left fun addr _ ↦ by rw [hkeeps.id]

theorem clients_addrs (a : GepChannelArray) : a.clients.map Prod.fst = a.vector := by
  rw [clients, List.map_map]
  exact List.map_id _

end GepChannelArray

/-- A step that is taken without the lock leaves the vector alone. -/
theorem free_clients {e : Endpoint Msg} {s s' : ArrayState} {l : ArrayLabel}
    {es : List (ArrayEvent Msg)} (hlocks : ¬ s.locks l = true)
    (h : arrayStep e s l = some (s', es)) : s'.array.clients = s.array.clients := by
  cases arrayStep_spec h with
  | openServerSocket env =>
      exact GepChannelArray.clients_eq (s.array.openServerSocket_keeps env)
        (s.array.openServerSocket_vector env)
  | refused | full | idle | picked => rfl
  | added fd stale hfd => exact absurd (decide_eq_true hfd) hlocks
  | served addr r ret =>
      exact GepChannelArray.clients_eq
        (s.array.withState_keeps (GepChannel.recvData_socketKept e _ r).id) rfl
  | finished addr ret hserving =>
      have hret : ¬ ret < 0 := by simpa [ArrayState.locks, hserving] using hlocks
      apply GepChannelArray.clients_eq (s.array.finish_keeps addr ret)
      rw [GepChannelArray.finish_vector, if_neg hret]
  | stopped => exact absurd rfl hlocks

/-- The sends see the vector as it is, and its channels and ids are distinct. -/
structure CastOk (s : CastState ι Msg) : Prop where
  clients : s.sends.shared = s.array.array.clients
  array : ArrayOk s.array.array s.array.retained

theorem castOk_step {p : GepProtocol Msg} {e : Endpoint Msg} {s s' : CastState ι Msg}
    {l : CastLabel ι} {es : List (CastEvent ι Msg)} (hs : CastOk s)
    (h : castStep p e s l = some (s', es)) : CastOk s' := by
  obtain ⟨hclients, harrayOk⟩ := hs
  cases castStep_spec h with
  | acquire _ _ _ _ hsends | work _ _ _ _ hsends | release _ _ _ hsends =>
      exact ⟨(step_shared hsends (by rintro _ ⟨⟩)).trans hclients, harrayOk⟩
  | lock | unlock => exact ⟨hclients, harrayOk⟩
  | locked i l array aes next es hlocks howner harray hsends =>
      refine ⟨?_, arrayOk_step harrayOk harray⟩
      cases step_spec hsends
      rfl
  | free i l array aes hlocks harray =>
      exact ⟨hclients.trans (free_clients hlocks harray).symm, arrayOk_step harrayOk harray⟩

variable {p : GepProtocol Msg} {e : Endpoint Msg} {maxChannels port : ℤ}
  {heap : ℕ → GepChannel} {todo : ι → List (Cast Msg)}
  {ok : CastState ι Msg → List (CastEvent ι Msg) → CastLabel ι → Prop}
  {s : CastState ι Msg} {log : List (CastEvent ι Msg)}

theorem castOk (h : (castMachine p e (.new maxChannels port heap) todo).Reaches ok s log) :
    CastOk s := by
  refine h.invariant (P := fun s _ ↦ CastOk s) ?_ fun _ hs _ hstep ↦ castOk_step hs hstep
  exact ⟨rfl, List.nodup_nil, by rintro _ ⟨⟩, List.Pairwise.nil, le_rfl, by rintro _ ⟨⟩,
    Nat.zero_le _⟩

/-- The sends are threads that share a lock. -/
theorem serialized_of_castMachine
    (h : (castMachine p e (.new maxChannels port heap) todo).Reaches ok s log) :
    Serialized (Cast.body p) todo s.sends log := by
  have hsends : (machine (Cast.body p) (fun _ clients ↦ clients)
      (GepChannelArray.new maxChannels port heap).clients todo).Reaches (fun _ _ _ ↦ True)
      s.sends log := by
    refine h.simulate (f := CastState.sends) rfl fun {s s' log es l} _ _ hstep ↦ ?_
    cases castStep_spec hstep with
    | acquire i next es howner hsends => exact .inr ⟨.acquire i, trivial, hsends⟩
    | work i env next es hsends => exact .inr ⟨.work i _, trivial, hsends⟩
    | release i next es hsends => exact .inr ⟨.release i, trivial, hsends⟩
    | lock | unlock | free => exact .inl ⟨rfl, rfl⟩
    | locked i l array aes next es hlocks howner harray hsends =>
        exact .inr ⟨.update array.array.clients, trivial, hsends⟩
  exact serialized hsends

/-- The clients that the calls have found. -/
def foundClients (log : List (CastEvent ι Msg)) : List Clients :=
  (log.filterMap Event.acquisition).map fun x ↦ x.2.2

theorem foundClients_nodup
    (h : (castMachine p e (.new maxChannels port heap) todo).Reaches ok s log) :
    ∀ clients ∈ foundClients log, (clients.map Prod.fst).Nodup := by
  refine h.invariant (P := fun _ log ↦ ∀ clients ∈ foundClients log, (clients.map Prod.fst).Nodup)
    (List.forall_mem_nil _) ?_
  intro s s' log es l hs hlog _ hstep
  have hold : ∀ {es : List (CastEvent ι Msg)}, es.filterMap Event.acquisition = [] →
      ∀ clients ∈ foundClients (log ++ es), (clients.map Prod.fst).Nodup := by
    intro es hnone
    rwa [foundClients, List.filterMap_append, hnone, List.append_nil]
  cases castStep_spec hstep with
  | acquire i next es howner hsends =>
      cases step_spec hsends with
      | acquire _ task rest hholder hnone htodo =>
          rw [foundClients, List.filterMap_append, List.map_append, List.forall_mem_append]
          refine ⟨hlog, List.forall_mem_singleton.mpr ?_⟩
          have hcastOk := castOk hs
          change (s.sends.shared.map Prod.fst).Nodup
          rw [hcastOk.clients, GepChannelArray.clients_addrs]
          exact hcastOk.array.nodup
  | work i env next es hsends =>
      cases step_spec hsends
      exact hold (by simp)
  | release _ _ _ hsends | locked _ _ _ _ _ _ _ _ _ hsends =>
      cases step_spec hsends
      exact hold rfl
  | lock | unlock | free => exact hold rfl

/-! ## The order of the calls -/

/-- A call that has had the lock. -/
abbrev SendSection (ι Msg : Type*) := Section ι (Cast Msg) ℤ Clients Attempt

/-- The attempts to send on the connection of a client, in order. -/
def attemptsOn (addr : ℕ) (log : List (CastEvent ι Msg)) : List Attempt :=
  (log.filterMap Event.output).filter (·.addr = addr)

/-- What a call has done on the connection of a client. -/
def attemptOf (addr : ℕ) (x : SendSection ι Msg) : Option Attempt := x.outs.find? (·.addr = addr)

/-- The frames on every connection, complete or truncated, are in the order of
the calls, which is that of each thread. -/
structure InOrder (p : GepProtocol Msg) (todo : ι → List (Cast Msg)) (s : SendsState ι Msg)
    (log : List (CastEvent ι Msg)) (calls : List (SendSection ι Msg)) : Prop where
  started : log.filterMap Event.acquisition = calls.map fun x ↦ (x.thread, x.task, x.shared)
  returned : log.filterMap Event.result =
    calls.filterMap fun x ↦ x.res.map fun ret ↦ (x.thread, x.task, ret)
  order : ∀ i, (calls.filter (·.thread = i)).map Section.task ++ (s.threads i).todo = todo i
  attempts : ∀ addr, attemptsOn addr log = calls.filterMap (attemptOf addr)
  once : ∀ x ∈ calls, (x.outs.map Attempt.addr).Nodup
  clients : ∀ x ∈ calls, ∀ t ∈ x.outs, t.client ∈ x.shared ∧ x.task.selects t.id = true
  framed : ∀ x ∈ calls, ∀ t ∈ x.outs, GepChannelArray.Framed p x.task.msg t.outcome

omit [DecidableEq ι] in
/-- A call has at most one attempt for each client. -/
theorem filter_outs {x : SendSection ι Msg} (honce : (x.outs.map Attempt.addr).Nodup) (addr : ℕ) :
    x.outs.filter (·.addr = addr) = (attemptOf addr x).toList := by
  unfold attemptOf
  generalize x.outs = outs at honce ⊢
  induction outs with
  | nil => rfl
  | cons t outs ih =>
      obtain ⟨hnot, hrest⟩ := List.nodup_cons.mp honce
      rw [List.filter_cons, List.find?_cons]
      by_cases haddr : t.addr = addr
      · have hnone : outs.filter (·.addr = addr) = [] := by
          refine List.filter_eq_nil_iff.mpr fun t' ht' hsame ↦ hnot ?_
          rw [haddr, ← of_decide_eq_true hsame]
          exact List.mem_map_of_mem ht'
        simp [haddr, hnone]
      · simp [haddr, ih hrest]

omit [DecidableEq ι] in
theorem filter_calls {calls : List (SendSection ι Msg)}
    (honce : ∀ x ∈ calls, (x.outs.map Attempt.addr).Nodup) (addr : ℕ) :
    (calls.flatMap Section.outs).filter (·.addr = addr) = calls.filterMap (attemptOf addr) := by
  induction calls with
  | nil => rfl
  | cons x calls ih =>
      obtain ⟨hx, hrest⟩ := List.forall_mem_cons.mp honce
      rw [List.flatMap_cons, List.filter_append, filter_outs hx, ih hrest, List.filterMap_cons]
      cases attemptOf addr x <;> rfl

theorem inOrder (h : (castMachine p e (.new maxChannels port heap) todo).Reaches ok s log) :
    ∃ calls, InOrder p todo s.sends log calls := by
  obtain ⟨sections, current, hserial, -, -⟩ := serialized_of_castMachine h
  generalize sections ++ current.toList = calls at hserial
  have hwalked : ∀ x ∈ calls, ∃ status, Cast.Walked p x.task x.shared status x.outs := by
    intro x hx
    obtain ⟨ins, status, hruns, -⟩ := hserial.ran x hx
    exact ⟨status, Cast.walked_of_runs hruns⟩
  have hsublist : ∀ x ∈ calls, (x.outs.map Attempt.client).Sublist x.shared := by
    intro x hx
    obtain ⟨status, hclients, -, -⟩ := hwalked x hx
    cases status with
    | running loc => exact hclients.trans (List.take_sublist _ _)
    | finished ret => exact hclients
  have honce : ∀ x ∈ calls, (x.outs.map Attempt.addr).Nodup := by
    intro x hx
    have hfound : x.shared ∈ foundClients log := by
      rw [foundClients, hserial.acquired, List.map_map]
      exact List.mem_map_of_mem hx
    have haddrs := ((hsublist x hx).map Prod.fst).nodup (foundClients_nodup h _ hfound)
    rwa [List.map_map] at haddrs
  refine ⟨calls, hserial.acquired, hserial.released, hserial.order, fun addr ↦ ?_, honce, ?_, ?_⟩
  · rw [attemptsOn, hserial.outs, filter_calls honce]
  · intro x hx t ht
    obtain ⟨status, -, hselects, -⟩ := hwalked x hx
    exact ⟨(hsublist x hx).subset (List.mem_map_of_mem ht), hselects t ht⟩
  · intro x hx
    obtain ⟨status, -, -, hframed⟩ := hwalked x hx
    exact hframed

omit [DecidableEq ι] in
/-- Two clients that both get two calls get them in the same order. -/
theorem sameOrder {calls : List (SendSection ι Msg)} {before between after : List (SendSection ι Msg)}
    {x y : SendSection ι Msg} (hcalls : calls = before ++ x :: between ++ y :: after)
    {addr : ℕ} {t t' : Attempt} (ht : attemptOf addr x = some t) (ht' : attemptOf addr y = some t') :
    calls.filterMap (attemptOf addr) = before.filterMap (attemptOf addr) ++ t ::
      between.filterMap (attemptOf addr) ++ t' :: after.filterMap (attemptOf addr) := by
  simp [hcalls, ht, ht']

/-! ## A client that stays -/

/-- The channel is in the vector, and its socket is open. -/
def Stays (addr : ℕ) (s : CastState ι Msg) : Prop :=
  addr ∈ s.array.array.vector ∧ (s.array.array.heap addr).isOpenSocket = true

/-- The rest of a broadcast, during which the channel at `addr` stays. -/
theorem count_rest {i : ι} {msg : Msg} {status : Status CastLoc ℤ} {addr : ℕ}
    {outs : List Attempt} (hheld : Held s.sends i (.all msg) status)
    (hcount : (outs.map Attempt.addr).count addr =
      ((Cast.passed s.sends.shared status).map Prod.fst).count addr)
    {a : GepChannelArray} {mid : List (CastLabel ι)} (hmid : .release i ∉ mid)
    {s' : CastState ι Msg} {es : List (CastEvent ι Msg)}
    (hrun : (castMachine p e a todo).runFrom s (mid ++ [.release i]) = some (s', es))
    (hstays : (castMachine p e a todo).Along (fun s _ _ ↦ Stays addr s) s log
      (mid ++ [.release i])) :
    ((outs ++ es.filterMap Event.output).map Attempt.addr).count addr =
      (s.sends.shared.map Prod.fst).count addr := by
  have hbusy : s.sends.holder ≠ none := by
    rw [hheld.holder]
    exact Option.some_ne_none i
  induction mid generalizing s status outs log es with
  | nil =>
      obtain ⟨s₁, es₁, es₂, hstep, hrest, rfl⟩ := Machine.runFrom_cons hrun
      cases hrest
      have hstep : castStep p e s (.release i) = some (s', es₁) := hstep
      cases castStep_spec hstep with
      | release _ next _ hsends =>
          rcases hheld.step hsends with ⟨_, _, _, _, hl, _⟩ | ⟨ret, -, rfl, rfl⟩
          · cases hl
          · have hnone : List.filterMap Event.output
                ([.released i (.all msg) ret] ++ [] : List (CastEvent ι Msg)) = [] := rfl
            rw [hnone, List.append_nil]
            exact hcount
  | cons l mid ih =>
      obtain ⟨s₁, es₁, es₂, hstep, hrest, rfl⟩ := Machine.runFrom_cons hrun
      have hstays' := hstays.2 s₁ es₁ hstep
      obtain ⟨hl, hmid'⟩ : .release i ≠ l ∧ .release i ∉ mid := by simpa using hmid
      have hstep : castStep p e s l = some (s₁, es₁) := hstep
      cases castStep_spec hstep with
      | acquire j next _ howner hsends =>
          rcases hheld.step hsends with ⟨_, _, _, _, hlabel, _⟩ | ⟨_, hlabel, _⟩ <;> cases hlabel
      | work j env next _ hsends =>
          rcases hheld.step hsends with
            ⟨input, loc, status', out, hlabel, rfl, hnext, hheld', hshared, rfl⟩ | ⟨_, hlabel, _⟩
          · cases hlabel
            have hcount' := Cast.count_step hstays.1.2 (Cast.step_spec hnext) hcount
            rw [← hshared] at hcount'
            have hall := ih hheld' hcount' hmid' hrest hstays' (by simp [hheld'.holder])
            rw [List.append_assoc] at hall
            simpa [hshared, Function.comp_def] using hall
          · cases hlabel
      | release j next _ hsends =>
          rcases hheld.step hsends with ⟨_, _, _, _, hlabel, _⟩ | ⟨_, hlabel, _⟩
          · cases hlabel
          · cases hlabel
            exact absurd rfl hl
      | lock j howner hholder => exact absurd hholder hbusy
      | unlock j howner hholder => exact absurd hholder hbusy
      | locked j l array aes next _ hlocks howner harray hsends =>
          rcases hheld.step hsends with ⟨_, _, _, _, hlabel, _⟩ | ⟨_, hlabel, _⟩ <;> cases hlabel
      | free j l array aes hlocks harray =>
          exact ih (s := { s with array := array }) hheld hcount hmid' hrest hstays' hbusy

/-- Only the array opens, closes and removes channels. -/
theorem stays_along {a : GepChannelArray} {addr : ℕ} {ls : List (CastLabel ι)}
    (hls : ∀ l ∈ ls, ∀ i l', l ≠ .array i l') (h : Stays addr s) :
    (castMachine p e a todo).Along (fun s _ _ ↦ Stays addr s) s log ls := by
  induction ls generalizing s log with
  | nil => trivial
  | cons l ls ih =>
      obtain ⟨hl, hls⟩ := List.forall_mem_cons.mp hls
      refine ⟨h, fun s' es hstep ↦ ih hls ?_⟩
      have hstep : castStep p e s l = some (s', es) := hstep
      cases castStep_spec hstep with
      | locked i l | free i l => exact absurd rfl (hl i l)
      | _ => exact h

/-- A broadcast of the thread `i`, from the moment when it gets the lock until
it releases it. -/
structure BroadcastRun (m : Machine (CastState ι Msg) (CastLabel ι) (CastEvent ι Msg))
    (s : CastState ι Msg) (i : ι) (msg : Msg) (mid : List (CastLabel ι)) (s' : CastState ι Msg)
    (es : List (CastEvent ι Msg)) : Prop where
  next : (s.sends.threads i).todo.head? = some (.all msg)
  call : .release i ∉ mid
  run : m.runFrom s (.acquire i :: (mid ++ [.release i])) = some (s', es)

theorem attempted_once (h : (castMachine p e (.new maxChannels port heap) todo).Reaches ok s log)
    {i : ι} {msg : Msg} {mid : List (CastLabel ι)} {s' : CastState ι Msg}
    {es : List (CastEvent ι Msg)}
    (hrun : BroadcastRun (castMachine p e (.new maxChannels port heap) todo) s i msg mid s' es)
    {addr : ℕ}
    (hstays : (castMachine p e (.new maxChannels port heap) todo).Along
      (fun s _ _ ↦ Stays addr s) s log (.acquire i :: (mid ++ [.release i]))) :
    (attemptsOn addr es).length = 1 := by
  obtain ⟨hnext, hcall, hrun⟩ := hrun
  obtain ⟨s₁, es₁, es₂, hstep, hrest, rfl⟩ := Machine.runFrom_cons hrun
  have hstays' := hstays.2 s₁ es₁ hstep
  have hcastOk := castOk h
  have hserial := serialized_of_castMachine h
  have hstep : castStep p e s (.acquire i) = some (s₁, es₁) := hstep
  cases castStep_spec hstep with
  | acquire _ next _ howner hsends =>
      obtain ⟨task, rest, htodo, hheld, hshared, rfl⟩ := hserial.acquire_held hsends
      rw [htodo] at hnext
      cases hnext
      have hnone : (([] : List Attempt).map Attempt.addr).count addr =
          ((Cast.passed next.shared (.running ((Cast.body p).start (.all msg)))).map
            Prod.fst).count addr := rfl
      have hall := count_rest hheld hnone hcall hrest hstays'
      rw [hshared, hcastOk.clients, GepChannelArray.clients_addrs, List.nil_append,
        List.count_eq_one_of_mem hcastOk.array.nodup hstays.1.1, List.count, List.countP_map,
        List.countP_eq_length_filter] at hall
      exact hall

/-- All clients see the calls in one order, in which those of a thread are as
it makes them, and a client that stays throughout a broadcast is attempted by
it once. -/
theorem broadcasts_totally_ordered
    (h : (castMachine p e (.new maxChannels port heap) todo).Reaches ok s log) :
    (∃ calls, InOrder p todo s.sends log calls ∧
      ∀ before x between y after, calls = before ++ x :: between ++ y :: after →
        ∀ addr t t', attemptOf addr x = some t → attemptOf addr y = some t' →
          ∃ l₁ l₂ l₃, attemptsOn addr log = l₁ ++ t :: l₂ ++ t' :: l₃) ∧
      ∀ i msg mid s' es,
        BroadcastRun (castMachine p e (.new maxChannels port heap) todo) s i msg mid s' es →
        ∀ addr, (castMachine p e (.new maxChannels port heap) todo).Along
            (fun s _ _ ↦ Stays addr s) s log (.acquire i :: (mid ++ [.release i])) →
          (attemptsOn addr es).length = 1 := by
  constructor
  · obtain ⟨calls, hcalls⟩ := inOrder h
    refine ⟨calls, hcalls, fun before x between y after heq addr t t' ht ht' ↦ ?_⟩
    exact ⟨_, _, _, (hcalls.attempts addr).trans (sameOrder heq ht ht')⟩
  · intro i msg mid s' es hrun addr hstays
    exact attempted_once h hrun hstays

end Machine

/-- Two threads that broadcast one message each. -/
def twoBroadcasts : Machine (CastState Bool TestProtocol.Message) (CastLabel Bool)
    (CastEvent Bool TestProtocol.Message) :=
  castMachine TestProtocol.proto TestProtocol.endpoint (.new 4 7 unallocated)
    fun i ↦ [.all ⟨.command4, [8, bif i then 2 else 1]⟩]

/-- The first thread accepts two clients before its broadcast. -/
def firstBroadcast : List (CastLabel Bool) :=
  [.lock false, .array false (.acceptConnection 4 (List.Vector.replicate kMaxMsgLen 0)),
    .array false (.acceptConnection 5 (List.Vector.replicate kMaxMsgLen 0)), .unlock false,
    .acquire false, .work false .acceptAll, .work false .acceptAll, .work false .acceptAll,
    .release false]

def secondBroadcast : List (CastLabel Bool) :=
  [.work true .acceptAll, .work true .acceptAll, .work true .acceptAll]

theorem broadcasts_totally_ordered_twoBroadcasts : ∃ s log s' es calls,
    BroadcastRun twoBroadcasts s true ⟨.command4, [8, 2]⟩ secondBroadcast s' es ∧
      (attemptsOn 0 es).length = 1 ∧ (attemptsOn 1 es).length = 1 ∧
      (attemptsOn 0 (log ++ es)).map (fun t ↦ t.outcome.accepted.drop kHdrLen) = [[8, 1], [8, 2]] ∧
      InOrder TestProtocol.proto (fun i ↦ [.all ⟨.command4, [8, bif i then 2 else 1]⟩]) s.sends log
        calls := by
  obtain ⟨s, log, s', es, hfirst, hrun, hstay, hnext, hwire⟩ : ∃ s log s' es,
      twoBroadcasts.runFrom twoBroadcasts.init firstBroadcast = some (s, log) ∧
        twoBroadcasts.runFrom s (.acquire true :: (secondBroadcast ++ [.release true])) =
          some (s', es) ∧
        (∀ addr < 2, Stays addr s) ∧
        (s.sends.threads true).todo = [.all ⟨.command4, [8, 2]⟩] ∧
        (attemptsOn 0 (log ++ es)).map (fun t ↦ t.outcome.accepted.drop kHdrLen) =
          [[8, 1], [8, 2]] :=
    ⟨_, _, _, _, rfl, rfl, by unfold Stays; decide, rfl, by decide⟩
  have hreaches : twoBroadcasts.Reaches (fun _ _ _ ↦ True) s log :=
    Machine.Reaches.run .init (.of_forall (fun _ _ _ ↦ trivial) _ _ _) hfirst
  have hbroadcast : BroadcastRun twoBroadcasts s true ⟨.command4, [8, 2]⟩ secondBroadcast s' es :=
    ⟨by rw [hnext]; rfl, by simp [secondBroadcast], hrun⟩
  obtain ⟨⟨calls, hcalls, -⟩, honce⟩ := broadcasts_totally_ordered hreaches
  have hstays : ∀ addr < 2, twoBroadcasts.Along (fun s _ _ ↦ Stays addr s) s log
      (.acquire true :: (secondBroadcast ++ [.release true])) := by
    intro addr hlt
    exact stays_along (by simp [secondBroadcast]) (hstay addr hlt)
  exact ⟨s, log, s', es, calls, hbroadcast, honce _ _ _ _ _ hbroadcast 0 (hstays 0 (by decide)),
    honce _ _ _ _ _ hbroadcast 1 (hstays 1 (by decide)), hwire, hcalls⟩

end Libgep
