import Libgep.Delivery
import Libgep.Isolation
import Libgep.Reconnect
import Libgep.TotalOrder

/-!
# A server, its clients, and the connections between them

The server and every client are processes of their own, the clients perhaps of
different programs, and threads of the user send on both sides.  Between them
is the operating system, of which the model keeps the descriptors and what is
in transit.  What it hands out of that, and when a connection breaks, is up to
the operating system, and what is relied on is named where it is.
-/

namespace Libgep

open Transition
open GepChannel (sendMessage TLVEnv)

variable {κ Msg : Type*}

/-! ## What is relied on -/

/-- The answers of the operating system to a `recv`: whether it may hand out
`bytes` of the `queue` that is in transit to the reader, or none at all for
the end of the stream; `senderOpen` tells whether the other end is open, and
`wasReset` whether the connection was reset. -/
structure Tcp where
  offers (queue : List UInt8) (senderOpen wasReset : Bool) (bytes : List UInt8) : Bool

namespace Tcp

/-- Bytes are handed out in the order in which they were accepted; those that
are lost in a reset are never handed out. -/
def InOrder (t : Tcp) : Prop :=
  ∀ {queue senderOpen wasReset bytes}, t.offers queue senderOpen wasReset bytes = true →
    bytes <+: queue

/-- The stream ends when the other end is closed and everything was handed
out, unless the connection was reset. -/
def EndsLast (t : Tcp) : Prop :=
  ∀ {queue senderOpen}, t.offers queue senderOpen false [] = true → senderOpen = false ∧ queue = []

/-- What is in transit may come in any pieces; once the connection was reset,
nothing of it comes anymore. -/
def stream : Tcp where
  offers queue senderOpen wasReset bytes :=
    if bytes = [] then wasReset ∨ senderOpen = false ∧ queue = [] else !wasReset ∧ bytes <+: queue

theorem stream_inOrder : stream.InOrder := by
  intro queue senderOpen wasReset bytes h
  simp only [stream] at h
  split_ifs at h with hnil
  · rw [hnil]
    exact List.nil_prefix
  · exact (of_decide_eq_true h).2

theorem stream_endsLast : stream.EndsLast := by
  intro queue senderOpen h
  simpa [stream] using h

end Tcp

/-! ## Connections -/

variable {p : GepProtocol Msg}

/-- One direction of a connection: the calls that have sent on it, and the
bytes that the kernel has accepted and not handed out yet. -/
structure Pipe (p : GepProtocol Msg) where
  calls : List (Call p)
  queue : List UInt8

namespace Pipe

def empty : Pipe p := ⟨[], []⟩

def push (pipe : Pipe p) (calls : List (Call p)) : Pipe p :=
  ⟨pipe.calls ++ calls, pipe.queue ++ Call.wire calls⟩

def pop (pipe : Pipe p) (bytes : List UInt8) : Pipe p :=
  { pipe with queue := pipe.queue.drop bytes.length }

end Pipe

/-- A connection from a client, which sends with `p`, to the server, which
sends with `q`. -/
structure Link (p q : GepProtocol Msg) where
  /-- It is established, and has not been accepted yet. -/
  waiting : Bool
  clientOpen : Bool
  serverOpen : Bool
  wasReset : Bool
  /-- It does not lead to the server: on the loopback device a client may be
  connected to itself. -/
  elsewhere : Bool
  /-- The client that the server has added for it; the kernel does not know it. -/
  id : Option ℤ
  up : Pipe p
  down : Pipe q

def Link.new {p q : GepProtocol Msg} : Link p q :=
  ⟨false, false, false, false, false, none, .empty, .empty⟩

/-! ## The kernel -/

/-- The connections, numbered by client and by the sockets that it has opened
before, and the descriptors of the processes that refer to them. -/
structure Kernel (κ : Type*) (p : κ → GepProtocol Msg) (q : GepProtocol Msg) where
  links : (x : κ × ℕ) → Link (p x.1) q
  serverFds : ℤ → Option (κ × ℕ)
  clientFds : κ → ℤ → Option ℕ
  opened : κ → ℕ

namespace Kernel

variable {p : κ → GepProtocol Msg} {q : GepProtocol Msg}

def new : Kernel κ p q := ⟨fun _ ↦ .new, fun _ ↦ none, fun _ _ ↦ none, fun _ ↦ 0⟩

variable [DecidableEq κ] (t : Tcp) (k : Kernel κ p q)

def onLink (x : κ × ℕ) (f : ∀ {i}, Link (p i) q → Link (p i) q) : Kernel κ p q :=
  { k with links := Function.update k.links x (f (k.links x)) }

omit [DecidableEq κ] in
def setServerFd (fd : ℤ) (x : Option (κ × ℕ)) : Kernel κ p q :=
  { k with serverFds := Function.update k.serverFds fd x }

def setClientFd (i : κ) (fd : ℤ) (n : Option ℕ) : Kernel κ p q :=
  { k with clientFds := Function.update k.clientFds i (Function.update (k.clientFds i) fd n) }

def serverClose (fd : ℤ) : Kernel κ p q :=
  match k.serverFds fd with
  | none => k
  | some x => (k.onLink x fun l ↦ { l with serverOpen := false }).setServerFd fd none

def serverAccept (x : κ × ℕ) (fd : ℤ) : Kernel κ p q :=
  (k.onLink x fun l ↦ { l with waiting := false, serverOpen := true }).setServerFd fd (some x)

/-- A service socket is closed, and whoever was not accepted is sent away. -/
def closeListener (fd : ℤ) : Kernel κ p q :=
  { k.serverClose fd with links := fun y ↦ { (k.serverClose fd).links y with waiting := false } }

/-- What becomes of an event of the server, where `x` is the connection that
an `Accept` takes; `none` if the kernel gives no such answer. -/
def serverEvent (x : κ × ℕ) (k : Kernel κ p q) : ArrayEvent Msg → Option (Kernel κ p q)
  | .closeServer fd => some (k.closeListener fd)
  | .accept _ fd =>
      if fd = -1 then some k
      else if (k.links x).waiting then some (k.serverAccept x fd)
      else none
  | .addClient id => some (k.onLink x fun l ↦ { l with id := some id })
  | .channel _ (.recv fd _ (.data bytes)) =>
      match k.serverFds fd with
      | none => none
      | some y =>
          if t.offers (k.links y).up.queue (k.links y).clientOpen (k.links y).wasReset bytes then
            some (k.onLink y fun l ↦ { l with up := l.up.pop bytes })
          else none
  | .channel _ (.close fd) => some (k.serverClose fd)
  | .close fd => some (k.serverClose fd)
  | _ => some k

def clientClose (i : κ) (fd : ℤ) : Kernel κ p q :=
  match k.clientFds i fd with
  | none => k
  | some n => (k.onLink (i, n) fun l ↦ { l with clientOpen := false }).setClientFd i fd none

/-- The client opens a socket, and is connected unless `connect` fails. -/
def clientSocket (i : κ) (connects elsewhere : Bool) (fd : ℤ) : Kernel κ p q :=
  let next := { k with opened := Function.update k.opened i (k.opened i + 1) }
  if connects then
    (next.onLink (i, k.opened i) fun l ↦
      { l with waiting := !elsewhere, clientOpen := true, elsewhere := elsewhere }).setClientFd
      i fd (some (k.opened i))
  else next

/-- What becomes of an event of a client; what it may read from elsewhere is
left open. -/
def clientEvent (i : κ) (connects elsewhere : Bool) (k : Kernel κ p q) :
    ClientEvent Msg → Option (Kernel κ p q)
  | .socket fd => some (k.clientSocket i connects elsewhere fd)
  | .close fd => some (k.clientClose i fd)
  | .channel (.close fd) => some (k.clientClose i fd)
  | .channel (.recv fd _ (.data bytes)) =>
      match k.clientFds i fd with
      | none => none
      | some n =>
          let l := k.links (i, n)
          if l.elsewhere then some k
          else if t.offers l.down.queue (l.waiting || l.serverOpen) l.wasReset bytes then
            some (k.onLink (i, n) fun l ↦ { l with down := l.down.pop bytes })
          else none
  | _ => some k

/-- The connection breaks. -/
def reset (x : κ × ℕ) : Kernel κ p q := k.onLink x fun l ↦ { l with wasReset := true }

def pushUp (x : κ × ℕ) (calls : List (Call (p x.1))) : Kernel κ p q :=
  { k with
    links := Function.update k.links x { k.links x with up := (k.links x).up.push calls } }

omit [DecidableEq κ] in
def pushDown (calls : κ × ℕ → List (Call q)) : Kernel κ p q :=
  { k with links := fun x ↦ { k.links x with down := (k.links x).down.push (calls x) } }

end Kernel

/-! ## The system -/

structure Net (κ : Type*) (p : κ → GepProtocol Msg) (q : GepProtocol Msg) where
  server : GepServer
  clients : κ → GepClient
  kernel : Kernel κ p q

inductive NetEvent (κ Msg : Type*) where
  | server (ev : ArrayEvent Msg)
  | client (i : κ) (ev : ClientEvent Msg)
  /-- A call of `Send` on the server has returned. -/
  | cast (cast : Cast Msg)

/-- A call of `Send` is a single step: the locks keep it in one piece. -/
inductive NetLabel (κ Msg : Type*) where
  /-- If the server accepts a connection, it is `x`. -/
  | server (l : ServerLabel) (x : κ × ℕ)
  /-- If the client is connected, it is to the server, or elsewhere. -/
  | client (i : κ) (l : ClientLabel) (elsewhere : Bool)
  | clientSend (i : κ) (m : Sending Msg)
  /-- The message is serialized as `value`. -/
  | serverSend (cast : Cast Msg) (value : List UInt8) (env : ℕ → TLVEnv)
  /-- A connection is reset, by whomever. -/
  | reset (x : κ × ℕ)

/-- The kernel answers that the client is connected. -/
def ClientLabel.connects : ClientLabel → Bool
  | .start env => env.socket ≠ -1 ∧ env.connectFails = false
  | .reconnect env => env.socket ≠ -1 ∧ env.connectFails = false
  | _ => false

/-- The call that sends `m`, if the answers that it gets make it return. -/
def Call.make (m : Sending Msg) : Option (Call p) :=
  match h : sendMessage p m.msg m.env with
  | none => none
  | some o => some ⟨m, o, h⟩

/-- `GepServer::Send`. -/
def GepChannelArray.cast (a : GepChannelArray) (q : GepProtocol Msg) (env : ℕ → TLVEnv) :
    Cast Msg → Option SendCall
  | .all msg => a.sendMessage q msg env
  | .one msg id => a.sendMessageTo q msg env id

/-- The sends of a call that go to the channel on `fd`. -/
def SendCall.callsOn {q : GepProtocol Msg} (call : SendCall) (m : ℕ → Sending Msg)
    (on : ℤ → Bool) : List (Call q) :=
  (call.attempts.filter fun t ↦ on (call.array.heap t.addr).socket).filterMap fun t ↦
    Call.make (m t.addr)

section System

/-- The protocols that the clients send with. -/
abbrev protos (ec : κ → Endpoint Msg) (i : κ) : GepProtocol Msg := (ec i).proto

variable [DecidableEq κ] (t : Tcp) (ec : κ → Endpoint Msg) (es : Endpoint Msg)

def netStep (s : Net κ (protos ec) es.proto) :
    NetLabel κ Msg → Option (Net κ (protos ec) es.proto × List (NetEvent κ Msg))
  | .server l x =>
      (serverStep es s.server l).bind fun next ↦
        (next.2.foldlM (Kernel.serverEvent t x) s.kernel).map fun kernel ↦
          ({ s with server := next.1, kernel := kernel }, next.2.map .server)
  | .client i l elsewhere =>
      -- nobody is connected to a server that does not listen
      if l.connects ∧ ¬ elsewhere ∧ s.server.array.array.serverSocket < 0 then none
      else
        (clientStep (ec i) (s.clients i) l).bind fun next ↦
          (next.2.foldlM (Kernel.clientEvent t i l.connects elsewhere) s.kernel).map fun kernel ↦
            ({ s with clients := Function.update s.clients i next.1, kernel := kernel },
              next.2.map (.client i))
  | .clientSend i m =>
      (Call.make m : Option (Call (ec i).proto)).bind fun call ↦
        match s.kernel.clientFds i (s.clients i).channel.socket with
        | some n => some ({ s with kernel := s.kernel.pushUp (i, n) [call] }, [])
        | none => if call.accepted = [] then some (s, []) else none
  | .serverSend cast value env =>
      (s.server.array.array.cast es.proto env cast).map fun call ↦
        ({ s with
          kernel := s.kernel.pushDown fun x ↦
            call.callsOn (fun addr ↦ ⟨cast.msg, value, env addr⟩) fun fd ↦
              s.kernel.serverFds fd = some x },
          [.cast cast])
  | .reset x =>
      if x.2 < s.kernel.opened x.1 then some ({ s with kernel := s.kernel.reset x }, []) else none

def netMachine (stale : κ → Buffer) (a : GepChannelArray) :
    Machine (Net κ (protos ec) es.proto) (NetLabel κ Msg) (NetEvent κ Msg) :=
  ⟨⟨.new a, fun i ↦ .new (stale i), .new⟩, netStep t ec es⟩

/-! ## What a step does -/

variable {ec es}

inductive NetStep (s : Net κ (protos ec) es.proto) :
    NetLabel κ Msg → Net κ (protos ec) es.proto → List (NetEvent κ Msg) → Prop where
  | server (l : ServerLabel) (x : κ × ℕ) (next : GepServer) (events : List (ArrayEvent Msg))
      (kernel : Kernel κ (protos ec) es.proto)
      (hnext : serverStep es s.server l = some (next, events))
      (hkernel : events.foldlM (Kernel.serverEvent t x) s.kernel = some kernel) :
      NetStep s (.server l x) { s with server := next, kernel := kernel } (events.map .server)
  | client (i : κ) (l : ClientLabel) (elsewhere : Bool) (next : GepClient)
      (events : List (ClientEvent Msg)) (kernel : Kernel κ (protos ec) es.proto)
      (hnext : clientStep (ec i) (s.clients i) l = some (next, events))
      (hkernel : events.foldlM (Kernel.clientEvent t i l.connects elsewhere) s.kernel =
        some kernel) :
      NetStep s (.client i l elsewhere)
        { s with clients := Function.update s.clients i next, kernel := kernel }
        (events.map (.client i))
  | clientSend (i : κ) (m : Sending Msg) (call : Call (ec i).proto) (n : ℕ)
      (hfd : s.kernel.clientFds i (s.clients i).channel.socket = some n) :
      NetStep s (.clientSend i m) { s with kernel := s.kernel.pushUp (i, n) [call] } []
  | unsent (i : κ) (m : Sending Msg) : NetStep s (.clientSend i m) s []
  | serverSend (cast : Cast Msg) (value : List UInt8) (env : ℕ → TLVEnv) (call : SendCall)
      (hcall : s.server.array.array.cast es.proto env cast = some call) :
      NetStep s (.serverSend cast value env)
        { s with
          kernel := s.kernel.pushDown fun x ↦
            call.callsOn (fun addr ↦ ⟨cast.msg, value, env addr⟩) fun fd ↦
              s.kernel.serverFds fd = some x }
        [.cast cast]
  | reset (x : κ × ℕ) (hx : x.2 < s.kernel.opened x.1) :
      NetStep s (.reset x) { s with kernel := s.kernel.reset x } []

variable {t}

theorem netStep_spec {s s' : Net κ (protos ec) es.proto} {l : NetLabel κ Msg}
    {events : List (NetEvent κ Msg)} (h : netStep t ec es s l = some (s', events)) :
    NetStep t s l s' events := by
  cases l with
  | server l x =>
      obtain ⟨⟨next, events'⟩, hnext, h⟩ := Option.bind_eq_some_iff.mp h
      obtain ⟨kernel, hkernel, heq⟩ := Option.map_eq_some_iff.mp h
      cases heq
      exact .server l x next events' kernel hnext hkernel
  | client i l elsewhere =>
      simp only [netStep] at h
      split_ifs at h
      obtain ⟨⟨next, events'⟩, hnext, h⟩ := Option.bind_eq_some_iff.mp h
      obtain ⟨kernel, hkernel, heq⟩ := Option.map_eq_some_iff.mp h
      cases heq
      exact .client i l elsewhere next events' kernel hnext hkernel
  | clientSend i m =>
      obtain ⟨call, -, h⟩ := Option.bind_eq_some_iff.mp h
      split at h
      · cases h
        exact .clientSend i m call _ ‹_›
      · split_ifs at h
        cases h
        exact .unsent i m
  | serverSend cast value env =>
      obtain ⟨call, hcall, heq⟩ := Option.map_eq_some_iff.mp h
      cases heq
      exact .serverSend cast value env call hcall
  | reset x =>
      simp only [netStep] at h
      split_ifs at h with hx
      cases h
      exact .reset x hx

end System

end Libgep
