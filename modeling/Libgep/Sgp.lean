import Libgep.Callbacks

/-!
# The example protocol

`SGPProtocol` has four commands.  Its servers and clients are told about each
by a callback that casts the message to the class of its tag, and the example
programs count what they receive.  No cast fails, whatever the bytes are.
-/

namespace Libgep

open Transition

/-! ## Typed callbacks -/

section Typed

variable {Msg σ Ty : Type*} [DecidableEq Ty]

/-- `RecvMessageId` casts the message to the class `ty`, and hands it with the
id of the channel to the object that is the context of the channel; `none` is
the exception of a cast that fails, or a `Recv` that is undefined. -/
def recvMessageId (typeOf : Msg → Option Ty) (recv : σ → Ty → Msg → ℤ → Option (σ × Bool))
    (ty : Ty) (that : σ) (msg : Msg) (id : ℤ) : Option (σ × Bool) :=
  if typeOf msg = some ty then recv that ty msg id else none

/-- `RecvMessage` does the same without the id. -/
def recvMessage (typeOf : Msg → Option Ty) (recv : σ → Ty → Msg → Option (σ × Bool)) (ty : Ty)
    (that : σ) (msg : Msg) (_id : ℤ) : Option (σ × Bool) :=
  if typeOf msg = some ty then recv that ty msg else none

/-- Some calls of callbacks, one after the other, as the table `vft` has them. -/
def runCallbacks (vft : UInt32 → Option Ty) (callback : Ty → σ → Msg → ℤ → Option (σ × Bool))
    (that : σ) (calls : List (ℤ × Delivery Msg)) : Option σ :=
  calls.foldlM (fun that call ↦ (vft call.2.tag).bind fun ty ↦
    (callback ty that call.2.msg call.1).map Prod.fst) that

omit [DecidableEq Ty] in
/-- Calls that all pass their casts come down to the classes of the messages. -/
theorem runCallbacks_eq {vft : UInt32 → Option Ty} {typeOf : Msg → Option Ty}
    (callback : Ty → σ → Msg → ℤ → Option (σ × Bool)) (f : σ → Ty → Option σ)
    (hcallback : ∀ ty that msg id, typeOf msg = some ty →
      (callback ty that msg id).map Prod.fst = f that ty) (that : σ)
    {calls : List (ℤ × Delivery Msg)}
    (hcalls : ∀ call ∈ calls, ∃ ty, vft call.2.tag = some ty ∧ typeOf call.2.msg = some ty) :
    runCallbacks vft callback that calls =
      (calls.filterMap fun call ↦ typeOf call.2.msg).foldlM f that := by
  induction calls generalizing that with
  | nil => rfl
  | cons call calls ih =>
      obtain ⟨⟨ty, htag, hty⟩, hcalls⟩ := List.forall_mem_cons.mp hcalls
      have hall : (call :: calls).filterMap (fun call ↦ typeOf call.2.msg) =
          ty :: calls.filterMap fun call ↦ typeOf call.2.msg := List.filterMap_cons_some hty
      rw [runCallbacks, List.foldlM_cons, htag, Option.bind_some, hcallback ty that _ _ hty, hall,
        List.foldlM_cons]
      exact congrArg (f that ty).bind (funext fun that ↦ ih that hcalls)

end Typed

namespace Sgp

/-! ## The protocol -/

inductive CommandType where
  | command1
  | command2
  | command3
  | command4
  deriving DecidableEq, Repr

/-- A message, with its class if that is one of the protocol. -/
structure Message (Fields : Type*) where
  type : Option CommandType
  fields : Fields

/-- `MSG_TAG_COMMAND_1` and the others. -/
def msgTag : CommandType → UInt32
  | .command1 => makeTag 'c' 'm' 'd' '1'
  | .command2 => makeTag 'c' 'm' 'd' '2'
  | .command3 => makeTag 'c' 'm' 'd' '3'
  | .command4 => makeTag 'c' 'm' 'd' '4'

variable {Fields : Type*}

def getTag (msg : Message Fields) : UInt32 :=
  match msg.type with
  | some type => msgTag type
  | none => 0

/-- `GetMessage`, where a new object has the fields `empty`. -/
def getMessage (empty : Fields) (tag : UInt32) : Option (Message Fields) :=
  if tag = msgTag .command1 then some ⟨some .command1, empty⟩
  else if tag = msgTag .command2 then some ⟨some .command2, empty⟩
  else if tag = msgTag .command3 then some ⟨some .command3, empty⟩
  else if tag = msgTag .command4 then some ⟨some .command4, empty⟩
  else none

def kPort : ℤ := 3456

/-- `SGPProtocol`.  The null pointer that `GetMessage` returns for an unknown
tag is never unserialized into, since such a tag has no callback. -/
def proto (lib : Protobuf (Message Fields)) (mode : Mode) (empty : Fields) (port : ℤ) :
    GepProtocol (Message Fields) where
  port := port
  mode := mode
  magic := kMagic
  lib := lib
  getTag := getTag
  getMessage tag := (getMessage empty tag).getD ⟨none, empty⟩

/-- The classes that the callbacks of a server cast to. -/
def kSGPServerOps (tag : UInt32) : Option CommandType :=
  [(msgTag .command1, CommandType.command1), (msgTag .command2, .command2),
    (msgTag .command3, .command3), (msgTag .command4, .command4)].lookup tag

/-- The classes that the callbacks of a client cast to. -/
def kSGPClientOps (tag : UInt32) : Option CommandType :=
  [(msgTag .command1, CommandType.command1), (msgTag .command2, .command2),
    (msgTag .command3, .command3), (msgTag .command4, .command4)].lookup tag

/-! ## The example programs -/

/-- `++` on an `int`; that it overflows is undefined. -/
def increment (cnt : ℤ) : Option ℤ := if cnt + 1 = 2 ^ 31 then none else some (cnt + 1)

structure MyServer where
  cnt1 : ℤ
  cnt2 : ℤ
  cnt3 : ℤ
  cnt4 : ℤ
  seenClient : Bool

namespace MyServer

def new : MyServer := ⟨0, 0, 0, 0, false⟩

/-- The four overloads of `Recv`. -/
def recv (that : MyServer) (type : CommandType) (_msg : Message Fields) (_id : ℤ) :
    Option (MyServer × Bool) :=
  match type with
  | .command1 =>
      (increment that.cnt1).map fun cnt ↦ ({ that with cnt1 := cnt, seenClient := true }, true)
  | .command2 =>
      (increment that.cnt2).map fun cnt ↦ ({ that with cnt2 := cnt, seenClient := true }, true)
  | .command3 =>
      (increment that.cnt3).map fun cnt ↦ ({ that with cnt3 := cnt, seenClient := true }, true)
  | .command4 =>
      (increment that.cnt4).map fun cnt ↦ ({ that with cnt4 := cnt, seenClient := true }, true)

def cnt (that : MyServer) : CommandType → ℤ
  | .command1 => that.cnt1
  | .command2 => that.cnt2
  | .command3 => that.cnt3
  | .command4 => that.cnt4

end MyServer

/-- Its counters are atomic, and wrap around. -/
structure MyClient where
  cnt1 : Int32
  cnt2 : Int32
  cnt3 : Int32
  cnt4 : Int32

namespace MyClient

def new : MyClient := ⟨0, 0, 0, 0⟩

/-- The four overloads of `Recv`. -/
def recv (that : MyClient) (type : CommandType) (_msg : Message Fields) :
    Option (MyClient × Bool) :=
  match type with
  | .command1 => some ({ that with cnt1 := that.cnt1 + 1 }, true)
  | .command2 => some ({ that with cnt2 := that.cnt2 + 1 }, true)
  | .command3 => some ({ that with cnt3 := that.cnt3 + 1 }, true)
  | .command4 => some ({ that with cnt4 := that.cnt4 + 1 }, true)

def cnt (that : MyClient) : CommandType → Int32
  | .command1 => that.cnt1
  | .command2 => that.cnt2
  | .command3 => that.cnt3
  | .command4 => that.cnt4

end MyClient

/-- A `MyServer`; the `true` of its callbacks is the status 1. -/
def serverEndpoint (lib : Protobuf (Message Fields)) (mode : Mode) (empty : Fields) (port : ℤ)
    (level : LogLevel) : Endpoint (Message Fields) :=
  ⟨proto lib mode empty port, fun tag ↦ (kSGPServerOps tag).map fun _ _ _ ↦ (1, .keep), level⟩

/-- A `MyClient`. -/
def clientEndpoint (lib : Protobuf (Message Fields)) (mode : Mode) (empty : Fields) (port : ℤ)
    (level : LogLevel) : Endpoint (Message Fields) :=
  ⟨proto lib mode empty port, fun tag ↦ (kSGPClientOps tag).map fun _ _ _ ↦ (1, .keep), level⟩

/-! ## No cast fails -/

/-- The library fills the objects that it is handed; their class stays. -/
structure KeepsClass (lib : Protobuf (Message Fields)) : Prop where
  parseText : ∀ s msg msg', lib.parseText s msg = some msg' → msg'.type = msg.type
  parseFromString : ∀ s msg msg', lib.parseFromString s msg = some msg' → msg'.type = msg.type
  clear : ∀ msg, (lib.clear msg).type = msg.type

section Casts

variable {lib : Protobuf (Message Fields)} {mode : Mode} {empty : Fields} {port : ℤ}
  {level : LogLevel}

theorem KeepsClass.unserialize (hlib : KeepsClass lib) {s : List UInt8}
    {msg msg' : Message Fields} (h : (proto lib mode empty port).unserialize s msg = some msg') :
    msg'.type = msg.type := by
  unfold GepProtocol.unserialize at h
  cases mode with
  | text => exact hlib.parseText _ _ _ h
  | binary =>
      simp only [proto] at h
      split_ifs at h
      · cases h
        exact hlib.clear msg
      · exact (hlib.parseFromString _ _ _ h).trans (hlib.clear msg)

/-- A tag with a callback is that of the class that the callback casts to. -/
theorem tag_of_kSGPServerOps {tag : UInt32} {type : CommandType}
    (h : kSGPServerOps tag = some type) : tag = msgTag type := by
  obtain ⟨front, rest, htable, -⟩ := List.lookup_eq_some_iff.mp h
  have hmem : (tag, type) ∈ [(msgTag .command1, CommandType.command1),
      (msgTag .command2, .command2), (msgTag .command3, .command3),
      (msgTag .command4, .command4)] := by
    rw [htable]
    exact List.mem_append_right _ List.mem_cons_self
  simp only [List.mem_cons, Prod.mk.injEq, List.not_mem_nil, or_false] at hmem
  obtain ⟨rfl, rfl⟩ | ⟨rfl, rfl⟩ | ⟨rfl, rfl⟩ | ⟨rfl, rfl⟩ := hmem <;> rfl

theorem getMessage_msgTag (empty : Fields) (type : CommandType) :
    getMessage empty (msgTag type) = some ⟨some type, empty⟩ := by
  cases type <;> rfl

/-- What is unpacked is of the class that the callback of its tag casts to. -/
theorem unpacks_typed (hlib : KeepsClass lib) {vft : UInt32 → Option CommandType}
    (hvft : ∀ tag type, vft tag = some type → tag = msgTag type)
    {e : Endpoint (Message Fields)} (hproto : e.proto = proto lib mode empty port)
    (hops : ∀ tag, (e.ops tag).isSome = (vft tag).isSome) {d : Delivery (Message Fields)}
    (hd : e.Unpacks d) : ∃ type, vft d.tag = some type ∧ d.msg.type = some type := by
  have hsome := hd.supported
  rw [hops] at hsome
  obtain ⟨type, htype⟩ := Option.isSome_iff_exists.mp hsome
  have hunserialize := hd.unserialize
  rw [hproto, hvft _ _ htype] at hunserialize
  refine ⟨type, htype, (hlib.unserialize hunserialize).trans ?_⟩
  simp [proto, getMessage_msgTag]

end Casts

/-! ## Counting -/

/-- What `Recv` makes of a server. -/
def MyServer.bump (that : MyServer) (type : CommandType) : Option MyServer :=
  (that.recv type (⟨some type, ()⟩ : Message Unit) 0).map Prod.fst

theorem MyServer.bump_eq_some {that : MyServer} {type : CommandType}
    (h : that.cnt type + 1 < 2 ^ 31) : ∃ that', that.bump type = some that' ∧
      (∀ type', that'.cnt type' = that.cnt type' + if type = type' then 1 else 0) ∧
      that'.seenClient = true := by
  have hincrement : increment (that.cnt type) = some (that.cnt type + 1) := if_neg h.ne
  cases type <;> refine ⟨_, by simp only [bump, recv, cnt] at hincrement ⊢; rw [hincrement]; rfl,
    fun type' ↦ ?_, rfl⟩ <;> cases type' <;> simp [cnt]

/-- As long as none of them overflows, the counters are the numbers of the
messages of their types. -/
theorem MyServer.foldlM_bump {types : List CommandType} {that : MyServer}
    (h : ∀ type, that.cnt type + types.count type < 2 ^ 31) :
    ∃ my, types.foldlM bump that = some my ∧
      (∀ type, my.cnt type = that.cnt type + types.count type) ∧
      my.seenClient = (that.seenClient || !types.isEmpty) := by
  induction types generalizing that with
  | nil => exact ⟨that, rfl, by simp, by simp⟩
  | cons type types ih =>
      have hcount : ∀ type', ((type :: types).count type' : ℤ) =
          types.count type' + if type = type' then 1 else 0 := by
        intro type'
        by_cases heq : type = type' <;> simp [heq]
      have hroom : that.cnt type + 1 < 2 ^ 31 := by
        have htype := h type
        rw [hcount, if_pos rfl] at htype
        omega
      obtain ⟨that', hbump, hcnt, hseen⟩ := bump_eq_some hroom
      have hrest : ∀ type', that'.cnt type' + types.count type' < 2 ^ 31 := by
        intro type'
        have htype := h type'
        rw [hcount] at htype
        rw [hcnt]
        omega
      obtain ⟨my, hrun, hmy, hseen'⟩ := ih hrest
      refine ⟨my, ?_, fun type' ↦ ?_, ?_⟩
      · rw [List.foldlM_cons, hbump]
        exact hrun
      · rw [hmy, hcnt, hcount]
        omega
      · simp [hseen', hseen]

/-- What `Recv` makes of a client. -/
def MyClient.bump (that : MyClient) (type : CommandType) : Option MyClient :=
  (that.recv type (⟨some type, ()⟩ : Message Unit)).map Prod.fst

theorem MyClient.bump_eq_some (that : MyClient) (type : CommandType) :
    ∃ that', that.bump type = some that' ∧
      ∀ type', that'.cnt type' = that.cnt type' + if type = type' then 1 else 0 := by
  cases type <;> refine ⟨_, rfl, fun type' ↦ ?_⟩ <;> cases type' <;> simp [cnt]

theorem MyClient.foldlM_bump (types : List CommandType) (that : MyClient) :
    ∃ my, types.foldlM bump that = some my ∧
      ∀ type, my.cnt type = that.cnt type + .ofNat (types.count type) := by
  induction types generalizing that with
  | nil => exact ⟨that, rfl, by simp⟩
  | cons type types ih =>
      obtain ⟨that', hbump, hcnt⟩ := that.bump_eq_some type
      obtain ⟨my, hrun, hmy⟩ := ih that'
      refine ⟨my, ?_, fun type' ↦ ?_⟩
      · rw [List.foldlM_cons, hbump]
        exact hrun
      · rw [hmy, hcnt, List.count_cons, Int32.ofNat_add, Int32.add_assoc]
        by_cases heq : type = type' <;> simp [heq, Int32.add_comm]

theorem count_types {calls : List (ℤ × Delivery (Message Fields))} (type : CommandType) :
    (calls.filterMap fun call ↦ call.2.msg.type).count type =
      calls.countP fun call ↦ call.2.msg.type = some type := by
  rw [List.count, List.countP_filterMap]
  refine List.countP_congr fun call _ ↦ ?_
  cases call.2.msg.type <;> simp

theorem filterMap_type_eq_nil {vft : UInt32 → Option CommandType}
    {calls : List (ℤ × Delivery (Message Fields))}
    (hcalls : ∀ call ∈ calls, ∃ type, vft call.2.tag = some type ∧ call.2.msg.type = some type) :
    (calls.filterMap fun call ↦ call.2.msg.type) = [] ↔ calls = [] := by
  rw [List.filterMap_eq_nil_iff]
  constructor
  · intro hnone
    refine List.eq_nil_iff_forall_not_mem.mpr fun call hcall ↦ ?_
    obtain ⟨type, -, htype⟩ := hcalls call hcall
    rw [hnone call hcall] at htype
    cases htype
  · rintro rfl
    exact List.forall_mem_nil _

section System

variable {κ : Type*} [DecidableEq κ] {t : Tcp} {lib : Protobuf (Message Fields)} {mode : κ → Mode}
  {mode' : Mode} {empty : Fields} {port : κ → ℤ} {port' : ℤ} {level : κ → LogLevel}
  {level' : LogLevel} {stale : κ → Buffer} {a : GepChannelArray}
  {s : Net κ (protos fun i ↦ clientEndpoint lib (mode i) empty (port i) (level i))
    (serverEndpoint lib mode' empty port' level').proto}
  {log : List (NetEvent κ (Message Fields))}

/-- In every run of a server and clients of SGP, no callback casts a message to
a class that is not its own, and the counters of the example programs count
the messages that they are handed, those of the server as long as they fit. -/
theorem casts_never_fail (hlib : KeepsClass lib)
    (h : (netMachine t (fun i ↦ clientEndpoint lib (mode i) empty (port i) (level i))
      (serverEndpoint lib mode' empty port' level') stale a).Reaches
        (fun _ log l ↦ NetFresh log l) s log) :
    ((∀ call ∈ serverCallbacks (serverLog log), ∃ type,
          kSGPServerOps call.2.tag = some type ∧ call.2.msg.type = some type) ∧
        ((∀ type, (serverCallbacks (serverLog log)).countP
            (fun call ↦ call.2.msg.type = some type) < 2 ^ 31) →
          ∃ my : MyServer,
            runCallbacks kSGPServerOps (recvMessageId Message.type MyServer.recv) .new
              (serverCallbacks (serverLog log)) = some my ∧
            (∀ type, my.cnt type = (serverCallbacks (serverLog log)).countP fun call ↦
              call.2.msg.type = some type) ∧
            (my.seenClient = true ↔ serverCallbacks (serverLog log) ≠ []))) ∧
      ∀ i, (∀ call ∈ clientCallbacks (clientLog i log), ∃ type,
          kSGPClientOps call.2.tag = some type ∧ call.2.msg.type = some type) ∧
        ∃ my : MyClient,
          runCallbacks kSGPClientOps (recvMessage Message.type MyClient.recv) .new
            (clientCallbacks (clientLog i log)) = some my ∧
          ∀ type, my.cnt type = .ofNat ((clientCallbacks (clientLog i log)).countP fun call ↦
            call.2.msg.type = some type) := by
  constructor
  · have hcalls : ∀ call ∈ serverCallbacks (serverLog log), ∃ type,
        kSGPServerOps call.2.tag = some type ∧ call.2.msg.type = some type := by
      intro call hcall
      refine unpacks_typed hlib (fun _ _ ↦ tag_of_kSGPServerOps) rfl (fun tag ↦ ?_)
        (serverCallbacks_unpacked (net_server h) call hcall)
      exact Option.isSome_map
    refine ⟨hcalls, fun hfits ↦ ?_⟩
    have hrun := runCallbacks_eq (recvMessageId Message.type MyServer.recv)
      MyServer.bump (fun type that msg id hmsg ↦ ?_) .new hcalls
    · have hroom : ∀ type, MyServer.new.cnt type +
          ((serverCallbacks (serverLog log)).filterMap fun call ↦ call.2.msg.type).count type <
            2 ^ 31 := by
        intro type
        have hzero : MyServer.new.cnt type = 0 := by
          cases type <;> rfl
        have htype := hfits type
        rw [count_types, hzero]
        omega
      obtain ⟨my, hmy, hcnt, hseen⟩ := MyServer.foldlM_bump hroom
      refine ⟨my, hrun.trans hmy, fun type ↦ ?_, ?_⟩
      · rw [hcnt, count_types]
        cases type <;> exact Int.zero_add _
      · rw [hseen]
        simp [MyServer.new, filterMap_type_eq_nil hcalls]
    · rw [recvMessageId, if_pos hmsg]
      cases type <;> rfl
  · intro i
    have hcalls : ∀ call ∈ clientCallbacks (clientLog i log), ∃ type,
        kSGPClientOps call.2.tag = some type ∧ call.2.msg.type = some type := by
      intro call hcall
      refine unpacks_typed hlib (fun _ _ ↦ tag_of_kSGPServerOps) rfl (fun tag ↦ ?_)
        (clientCallbacks_unpacked (net_client h i) call hcall)
      exact Option.isSome_map
    refine ⟨hcalls, ?_⟩
    have hrun := runCallbacks_eq (recvMessage Message.type MyClient.recv)
      MyClient.bump (fun type that msg id hmsg ↦ ?_) .new hcalls
    · obtain ⟨my, hmy, hcnt⟩ := MyClient.foldlM_bump
        ((clientCallbacks (clientLog i log)).filterMap fun call ↦ call.2.msg.type) .new
      refine ⟨my, hrun.trans hmy, fun type ↦ ?_⟩
      rw [hcnt, count_types]
      cases type <;> exact Int32.zero_add _
    · rw [recvMessage, if_pos hmsg]
      cases type <;> rfl

end System

/-- A library that keeps the bytes of a message. -/
def rawProtobuf : Protobuf (Message (List UInt8)) where
  printToString msg := some msg.fields
  parseText s msg := some { msg with fields := s }
  serializeToString msg := some msg.fields
  parseFromString s msg := some { msg with fields := s }
  clear msg := { msg with fields := [] }

theorem rawProtobuf_keepsClass : KeepsClass rawProtobuf := by
  constructor
  · rintro s msg _ ⟨⟩
    rfl
  · rintro s msg _ ⟨⟩
    rfl
  · exact fun _ ↦ rfl

def sgpClients : Machine
    (Net Bool (protos fun _ ↦ clientEndpoint rawProtobuf .text [] kPort .warning)
      (serverEndpoint rawProtobuf .text [] kPort .warning).proto)
    (NetLabel Bool (Message (List UInt8))) (NetEvent Bool (Message (List UInt8))) :=
  netMachine .stream (fun _ ↦ clientEndpoint rawProtobuf .text [] kPort .warning)
    (serverEndpoint rawProtobuf .text [] kPort .warning) (fun _ ↦ TestProtocol.blank)
    (.new 16 kPort unallocated)

def sgpFrame (type : CommandType) (fields : List UInt8) : List UInt8 :=
  (proto rawProtobuf .text [] kPort).printHeader (msgTag type) (.ofNat fields.length) ++ fields

/-- Both clients send commands, one of them two, and the server answers. -/
def commandsRun : List (NetLabel Bool (Message (List UInt8))) :=
  twoConnectRun ++
    [.clientSend false ⟨⟨some .command1, [7]⟩, [7], .acceptAll⟩,
      .clientSend true ⟨⟨some .command1, [8]⟩, [8], .acceptAll⟩,
      .clientSend true ⟨⟨some .command2, [9]⟩, [9], .acceptAll⟩] ++
    serveRun 4 (sgpFrame .command1 [7]) ++
    serveRun 5 (sgpFrame .command1 [8] ++ sgpFrame .command2 [9]) ++
    [.serverSend (.all ⟨some .command3, [5]⟩) [5] fun _ ↦ .acceptAll] ++
    readRun false (sgpFrame .command3 [5])

theorem commandsRun_fresh :
    sgpClients.Along (fun _ log l ↦ NetFresh log l) sgpClients.init [] commandsRun := by
  decide +kernel

theorem casts_never_fail_commands : ∃ s log my mine,
    sgpClients.runFrom sgpClients.init commandsRun = some (s, log) ∧
      runCallbacks kSGPServerOps (recvMessageId Message.type MyServer.recv) .new
        (serverCallbacks (serverLog log)) = some my ∧
      my.cnt .command1 = 2 ∧ my.cnt .command2 = 1 ∧ my.seenClient = true ∧
      runCallbacks kSGPClientOps (recvMessage Message.type MyClient.recv) .new
        (clientCallbacks (clientLog false log)) = some mine ∧
      mine.cnt .command3 = 1 := by
  have hends : (sgpClients.runFrom sgpClients.init commandsRun).map (fun next ↦
      ([CommandType.command1, .command2, .command3, .command4].map fun type ↦
        (serverCallbacks (serverLog next.2)).countP fun call ↦ call.2.msg.type = some type,
        (clientCallbacks (clientLog false next.2)).countP fun call ↦
          call.2.msg.type = some .command3)) = some ([2, 1, 0, 0], 1) := by
    decide +kernel
  obtain ⟨⟨s, log⟩, hrun, hends⟩ := Option.map_eq_some_iff.mp hends
  simp only [Prod.mk.injEq, List.map_cons, List.map_nil, List.cons.injEq, and_true] at hends
  obtain ⟨⟨hone, htwo, hthree, hfour⟩, hread⟩ := hends
  obtain ⟨⟨-, hserver⟩, hclient⟩ :=
    casts_never_fail rawProtobuf_keepsClass (.run .init commandsRun_fresh hrun)
  have hfits : ∀ type, (serverCallbacks (serverLog ([] ++ log))).countP
      (fun call ↦ call.2.msg.type = some type) < 2 ^ 31 := by
    rintro (- | - | - | -)
    · exact hone.trans_lt (by decide)
    · exact htwo.trans_lt (by decide)
    · exact hthree.trans_lt (by decide)
    · exact hfour.trans_lt (by decide)
  obtain ⟨my, hmy, hcnt, hseen⟩ := hserver hfits
  obtain ⟨-, mine, hmine, hcnt'⟩ := hclient false
  refine ⟨s, log, my, mine, hrun, hmy, ?_, ?_, hseen.mpr ?_, hmine, ?_⟩
  · exact (hcnt _).trans (congrArg Nat.cast hone)
  · exact (hcnt _).trans (congrArg Nat.cast htwo)
  · intro hnil
    change serverCallbacks (serverLog log) = [] at hnil
    rw [hnil] at hone
    cases hone
  · exact (hcnt' _).trans (congrArg Int32.ofNat hread)

end Sgp

end Libgep
