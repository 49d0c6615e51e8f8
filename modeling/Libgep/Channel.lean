import Libgep.Lib.CInt
import Libgep.Lib.FixedBuffer
import Libgep.Protocol

/-!
# Channels

The state of a `GepChannel`, what its receive path can be seen doing, and the
operations that open and close its socket.
-/

namespace Libgep

open CInt FixedBuffer

variable {Msg : Type*}

/-! ## State -/

/-- The receive buffer `buf_`.  Its contents past `len_` are unspecified. -/
abbrev Buffer := List.Vector UInt8 kMaxMsgLen

structure GepChannel where
  id : ℤ
  socket : ℤ
  len : ℤ
  buf : Buffer

inductive Result where
  | cmdError
  | cmdOk
  | cmdFragmented
  | cmdDropped
  deriving DecidableEq, Repr

def Result.toInt : Result → ℤ
  | .cmdError => -1
  | .cmdOk => 0
  | .cmdFragmented => 1
  | .cmdDropped => 2

def Result.isRecoverable (ret : Result) : Bool := 0 ≤ ret.toInt

inductive LogLevel where
  | error
  | warning
  | debug
  deriving DecidableEq, Repr

/-! ## User callbacks -/

inductive CallbackEffect where
  | keep
  | close
  deriving DecidableEq, Repr

/-- A callback sees the message and the channel; its status is only logged. -/
abbrev GepCallback (Msg : Type*) := Msg → GepChannel → ℤ × CallbackEffect

/-- The map from tags to callbacks. -/
abbrev GepVFT (Msg : Type*) := UInt32 → Option (GepCallback Msg)

/-- What the pointers `proto_` and `ops_` of a channel refer to, and the
global log level. -/
structure Endpoint (Msg : Type*) where
  proto : GepProtocol Msg
  ops : GepVFT Msg
  logLevel : LogLevel

/-- No callback modifies the channel it is handed. -/
def Endpoint.CallbacksKeep (e : Endpoint Msg) : Prop :=
  ∀ tag callback, e.ops tag = some callback → ∀ msg c, (callback msg c).2 = .keep

/-! ## Observations -/

/-- The outcome of a raw `Recv`: the bytes stored (none at all when the peer
has closed), or `-1` and an error number. -/
inductive RawRecv where
  | data (bytes : List UInt8)
  | error (errno : ℕ)
  deriving DecidableEq

structure Delivery (Msg : Type*) where
  tag : UInt32
  value : List UInt8
  msg : Msg
  deriving DecidableEq

/-- What the receive path does besides changing the channel: system calls,
accesses to `buf_`, calls of `snprintf_printable`, and callbacks. -/
inductive RecvEvent (Msg : Type*) where
  | recv (fd : ℤ) (size : ℕ) (r : RawRecv)
  | readHeader (off n : ℕ)
  | readValue (off n : ℕ)
  /-- `snprintf_printable(tmp, bufsize, data, len)` on an array of `scratch` bytes. -/
  | printable (scratch : ℕ) (bufsize : ℤ) (data : List UInt8) (len : ℤ)
  | memmove (dst src n : ℕ)
  | dispatch (d : Delivery Msg)
  | close (fd : ℤ)
  deriving DecidableEq

def RecvEvent.delivery : RecvEvent Msg → Option (Delivery Msg)
  | .dispatch d => some d
  | _ => none

def dispatched (events : List (RecvEvent Msg)) : List (Delivery Msg) :=
  events.filterMap RecvEvent.delivery

@[simp] theorem dispatched_nil : dispatched ([] : List (RecvEvent Msg)) = [] := rfl

@[simp] theorem dispatched_cons (ev : RecvEvent Msg) (events : List (RecvEvent Msg)) :
    dispatched (ev :: events) = ev.delivery.toList ++ dispatched events := by
  cases ev <;> rfl

@[simp] theorem dispatched_append (xs ys : List (RecvEvent Msg)) :
    dispatched (xs ++ ys) = dispatched xs ++ dispatched ys :=
  List.filterMap_append

@[simp] theorem delivery_dispatch (d : Delivery Msg) :
    (RecvEvent.dispatch d).delivery = some d := rfl

/-- A result together with the channel left behind and the events. -/
structure Recv (ρ Msg : Type*) where
  ret : ρ
  chan : GepChannel
  events : List (RecvEvent Msg)

def Recv.prepend {ρ : Type*} (log : List (RecvEvent Msg)) (r : Recv ρ Msg) : Recv ρ Msg :=
  ⟨r.ret, r.chan, log ++ r.events⟩

section Prepend

variable {ρ : Type*} (log : List (RecvEvent Msg)) (r : Recv ρ Msg)

@[simp] theorem Recv.prepend_ret : (r.prepend log).ret = r.ret := rfl

@[simp] theorem Recv.prepend_chan : (r.prepend log).chan = r.chan := rfl

@[simp] theorem Recv.prepend_events : (r.prepend log).events = log ++ r.events := rfl

end Prepend

/-! ## Opening and closing -/

namespace GepChannel

/-- The constructor; `buf_` is not initialized. -/
def new (id socket : ℤ) (stale : Buffer) : GepChannel := ⟨id, socket, 0, stale⟩

/-- The bytes received and not yet consumed. -/
def contents (c : GepChannel) : List UInt8 := slice c.buf 0 c.len.toNat

/-- `Close`, also run by the destructor: the status and the descriptor that
was closed. -/
def close (c : GepChannel) : ℤ × GepChannel × Option ℤ :=
  if c.socket ≠ -1 then (0, { c with socket := -1, len := 0 }, some c.socket)
  else (-1, c, none)

/-- What the kernel answers to `OpenClientSocket`: the result of `socket` and
whether `connect` fails. -/
structure OpenEnv where
  socket : ℤ
  connectFails : Bool
  deriving DecidableEq

/-- What `OpenClientSocket` did: its status, the channel, the descriptor it
opened and whether it closed that one again. -/
structure Opened where
  ret : ℤ
  chan : GepChannel
  opened : Option ℤ
  closed : Option ℤ

def openClientSocket (c : GepChannel) (env : OpenEnv) : Opened :=
  if env.socket = -1 then ⟨-1, c, none, none⟩
  else if env.connectFails then ⟨-1, c, some env.socket, some env.socket⟩
  else ⟨0, { c with socket := env.socket }, some env.socket, none⟩

@[simp] theorem contents_new (id socket : ℤ) (stale : Buffer) :
    (new id socket stale).contents = [] := by
  simp [contents, new, slice]

theorem length_contents {c : GepChannel} (h0 : 0 ≤ c.len) (h : c.len ≤ kMaxMsgLen) :
    (c.contents.length : ℤ) = c.len := by
  have hlen : (slice c.buf 0 c.len.toNat).length = c.len.toNat :=
    length_slice c.buf (by omega)
  rw [contents, hlen]
  omega

end GepChannel

end Libgep
