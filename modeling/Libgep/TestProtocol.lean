import Libgep.Channel

/-!
# The protocol of the test suite

`TestProtocol` instantiates the virtual functions of `GepProtocol`.  A message
is represented by its type and the binary encoding of its fields; the codec
covers what is sent here: the optional `id` field below 128, and one unknown
field of many bytes, which the library preserves.
-/

namespace Libgep.TestProtocol

inductive MessageType where
  | command1
  | command2
  | command3
  | command4
  | controlMessage
  deriving DecidableEq, Repr

structure Message where
  type : MessageType
  fields : List UInt8
  deriving DecidableEq, Repr

/-- The encodings of no field, of field 1 as a varint of one byte, and of a
length-delimited field 2 whose length is a varint of three bytes. -/
def wellFormed : List UInt8 → Bool
  | [] => true
  | [key, id] => key == 8 && id < 128
  | key :: n₀ :: n₁ :: n₂ :: data =>
      key == 18 && 128 ≤ n₀ && 128 ≤ n₁ && n₂ < 128 &&
        data.length == (n₀.toNat - 128) + 128 * (n₁.toNat - 128) + 16384 * n₂.toNat
  | _ => false

def protobuf : Protobuf Message where
  printToString _ := none
  parseText _ _ := none
  serializeToString msg := some msg.fields
  parseFromString s msg := if wellFormed s then some { msg with fields := s } else none
  clear msg := { msg with fields := [] }

def msgTag : MessageType → UInt32
  | .command1 => makeTag 'c' 'm' 'd' '1'
  | .command2 => makeTag 'c' 'm' 'd' '2'
  | .command3 => makeTag 'c' 'm' 'd' '3'
  | .command4 => makeTag 'c' 'm' 'd' '4'
  | .controlMessage => makeTag 'c' 't' 'r' 'l'

def getTag (msg : Message) : UInt32 := msgTag msg.type

/-- `GetMessage`; the null pointer of an unknown tag is never asked for, since
only the tags of the callbacks are looked up. -/
def getMessage (tag : UInt32) : Message :=
  if tag = msgTag .command1 then ⟨.command1, []⟩
  else if tag = msgTag .command2 then ⟨.command2, []⟩
  else if tag = msgTag .command3 then ⟨.command3, []⟩
  else if tag = msgTag .command4 then ⟨.command4, []⟩
  else ⟨.controlMessage, []⟩

def proto : GepProtocol Message where
  port := 0
  mode := .binary
  magic := kMagic
  lib := protobuf
  getTag := getTag
  getMessage := getMessage

/-- Every tag of the protocol has a callback that reports success. -/
def ops : GepVFT Message := fun tag ↦
  if tag ∈ [MessageType.command1, .command2, .command3, .command4, .controlMessage].map msgTag
  then some fun _ _ ↦ (1, .keep) else none

def endpoint : Endpoint Message := ⟨proto, ops, .warning⟩

theorem endpoint_callbacksKeep : endpoint.CallbacksKeep := by
  intro tag callback h msg c
  simp only [endpoint, ops] at h
  split at h
  · cases h
    rfl
  · cases h

/-- The bytes that a message is sent as. -/
def frame (msg : Message) : List UInt8 :=
  proto.printHeader (getTag msg) (.ofNat msg.fields.length) ++ msg.fields

def blank : Buffer := List.Vector.replicate kMaxMsgLen 0

end Libgep.TestProtocol
