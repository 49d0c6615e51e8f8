import Libgep.ArrayInvariant
import Libgep.Send

/-!
# Broadcast and directed sends

`GepChannelArray::SendMessage` walks through the vector and lets open channels
send: all of them, or the one with a given id.
-/

namespace Libgep

open CInt

variable {Msg : Type*}

namespace GepChannel

def isOpenSocket (c : GepChannel) : Bool := c.socket ≠ -1

/-- What a `SendMessage` of a channel that returned has put on the wire. -/
theorem sendMessage_spec {p : GepProtocol Msg} {msg : Msg} {env : TLVEnv} {o : SendOutcome}
    (h : sendMessage p msg env = some o) :
    (o.ret = 0 ∨ o.ret = -1) ∧ (o.ret = 0 ↔ ∃ s, p.serialize msg = some s ∧
      o.accepted = frame p (p.getTag msg) (toSigned 32 s.length) s) ∧
      (o.accepted = [] ∨ ∃ s, p.serialize msg = some s ∧
        o.accepted <+: frame p (p.getTag msg) (toSigned 32 s.length) s) := by
  unfold sendMessage at h
  cases hs : p.serialize msg with
  | none =>
      rw [hs] at h
      cases h
      exact ⟨.inr rfl, by simp, .inl rfl⟩
  | some s =>
      rw [hs] at h
      have hspec := sendTLV_spec (toSigned_natCast_le 32 s.length) h
      refine ⟨hspec.ret, ?_, .inr ⟨s, rfl, hspec.accepted⟩⟩
      simp [hspec.whole]

end GepChannel

/-- A `SendMessage` of one of the channels, and what came of it. -/
structure Attempt where
  addr : ℕ
  id : ℤ
  outcome : SendOutcome

structure SendCall where
  ret : ℤ
  array : GepChannelArray
  attempts : List Attempt

/-- The bytes that a call has put on the wire of a channel. -/
def SendCall.wire (call : SendCall) (addr : ℕ) : List UInt8 :=
  (call.attempts.filter (·.addr = addr)).flatMap (·.outcome.accepted)

namespace GepChannelArray

variable (a : GepChannelArray) (p : GepProtocol Msg) (msg : Msg) (env : ℕ → GepChannel.TLVEnv)

/-- The loop of `SendMessage(msg)`; `env` is what each channel is answered. -/
def sendMessageLoop (ret : ℤ) : List ℕ → Option (ℤ × List Attempt)
  | [] => some (ret, [])
  | addr :: addrs =>
      if (a.heap addr).isOpenSocket then
        (GepChannel.sendMessage p msg (env addr)).bind fun o ↦
          (sendMessageLoop (if o.ret < 0 then -1 else ret) addrs).map fun rest ↦
            (rest.1, ⟨addr, (a.heap addr).id, o⟩ :: rest.2)
      else sendMessageLoop ret addrs

/-- `SendMessage(msg)`. -/
def sendMessage : Option SendCall :=
  (a.sendMessageLoop p msg env 0 a.vector).map fun r ↦ ⟨r.1, a, r.2⟩

def sendMessageToLoop (id : ℤ) : List ℕ → Option (ℤ × List Attempt)
  | [] => some (-1, [])
  | addr :: addrs =>
      if (a.heap addr).isOpenSocket ∧ id = (a.heap addr).id then
        (GepChannel.sendMessage p msg (env addr)).map fun o ↦
          (o.ret, [⟨addr, (a.heap addr).id, o⟩])
      else sendMessageToLoop id addrs

/-- `SendMessage(msg, id)`. -/
def sendMessageTo (id : ℤ) : Option SendCall :=
  (a.sendMessageToLoop p msg env id a.vector).map fun r ↦ ⟨r.1, a, r.2⟩

/-! ## The loops -/

/-- The attempts on some channels, where `o` is what comes of them. -/
def attempts (o : ℕ → SendOutcome) (addrs : List ℕ) : List Attempt :=
  addrs.map fun addr ↦ ⟨addr, (a.heap addr).id, o addr⟩

def openChannels : List ℕ := a.vector.filter fun addr ↦ (a.heap addr).isOpenSocket

/-- The open channels answer the call with `o`. -/
def Answers (o : ℕ → SendOutcome) : Prop :=
  ∀ addr ∈ a.openChannels, GepChannel.sendMessage p msg (env addr) = some (o addr)

variable {a p msg env} {o : ℕ → SendOutcome}

theorem sendMessageLoop_eq {ret : ℤ} {addrs : List ℕ}
    (h : ∀ addr ∈ addrs, (a.heap addr).isOpenSocket →
      GepChannel.sendMessage p msg (env addr) = some (o addr)) :
    a.sendMessageLoop p msg env ret addrs =
      some (if ∃ addr ∈ addrs, (a.heap addr).isOpenSocket ∧ (o addr).ret < 0 then -1 else ret,
        a.attempts o (addrs.filter fun addr ↦ (a.heap addr).isOpenSocket)) := by
  induction addrs generalizing ret with
  | nil => simp [sendMessageLoop, attempts]
  | cons addr addrs ih =>
      obtain ⟨haddr, hrest⟩ := List.forall_mem_cons.mp h
      rw [sendMessageLoop]
      by_cases hopen : (a.heap addr).isOpenSocket = true
      · rw [if_pos hopen, haddr hopen, Option.bind_some, ih hrest, Option.map_some]
        by_cases hfailed : (o addr).ret < 0 <;> simp [attempts, hopen, hfailed]
      · rw [if_neg hopen, ih hrest]
        simp [attempts, hopen]

theorem sendMessageToLoop_eq {id : ℤ} {addrs : List ℕ}
    (h : ∀ addr ∈ addrs, (a.heap addr).isOpenSocket →
      GepChannel.sendMessage p msg (env addr) = some (o addr)) :
    (∃ addr ∈ addrs, (a.heap addr).isOpenSocket ∧ (a.heap addr).id = id ∧
      a.sendMessageToLoop p msg env id addrs = some ((o addr).ret, a.attempts o [addr])) ∨
    ((∀ addr ∈ addrs, (a.heap addr).id = id → ¬ (a.heap addr).isOpenSocket) ∧
      a.sendMessageToLoop p msg env id addrs = some (-1, [])) := by
  induction addrs with
  | nil => exact .inr ⟨List.forall_mem_nil _, rfl⟩
  | cons addr addrs ih =>
      obtain ⟨haddr, hrest⟩ := List.forall_mem_cons.mp h
      rw [sendMessageToLoop]
      by_cases hmatch : (a.heap addr).isOpenSocket = true ∧ id = (a.heap addr).id
      · refine .inl ⟨addr, List.mem_cons_self, hmatch.1, hmatch.2.symm, ?_⟩
        rw [if_pos hmatch, haddr hmatch.1, Option.map_some]
        rfl
      · rw [if_neg hmatch]
        rcases ih hrest with ⟨addr', hmem, hfound⟩ | ⟨hnone, heq⟩
        · exact .inl ⟨addr', List.mem_cons_of_mem _ hmem, hfound⟩
        · refine .inr ⟨List.forall_mem_cons.mpr ⟨?_, hnone⟩, heq⟩
          exact fun hid hopen ↦ hmatch ⟨hopen, hid.symm⟩

theorem mem_openChannels {addr : ℕ} :
    addr ∈ a.openChannels ↔ addr ∈ a.vector ∧ (a.heap addr).isOpenSocket :=
  List.mem_filter

theorem Answers.vector (h : a.Answers p msg env o) : ∀ addr ∈ a.vector,
    (a.heap addr).isOpenSocket → GepChannel.sendMessage p msg (env addr) = some (o addr) :=
  fun addr hmem hopen ↦ h addr (mem_openChannels.mpr ⟨hmem, hopen⟩)

/-- The wires of a call, if no channel is attempted twice. -/
theorem wire_attempts {addrs : List ℕ} (hnodup : addrs.Nodup) (ret : ℤ) (addr : ℕ) :
    (SendCall.mk ret a (a.attempts o addrs)).wire addr =
      if addr ∈ addrs then (o addr).accepted else [] := by
  unfold SendCall.wire attempts
  dsimp only
  induction addrs with
  | nil => rfl
  | cons addr' addrs ih =>
      obtain ⟨hnot, hrest⟩ := List.nodup_cons.mp hnodup
      rw [List.map_cons, List.filter_cons]
      by_cases heq : addr' = addr
      · subst heq
        rw [if_pos (by simp), List.flatMap_cons, ih hrest, if_neg hnot, if_pos List.mem_cons_self,
          List.append_nil]
      · rw [if_neg (by simpa using heq), ih hrest]
        simp [Ne.symm heq]

/-- What an attempt that returned has put on the wire of its channel. -/
structure Framed (p : GepProtocol Msg) (msg : Msg) (o : SendOutcome) : Prop where
  ret : o.ret = 0 ∨ o.ret = -1
  whole : o.ret = 0 → ∃ s, p.serialize msg = some s ∧
    o.accepted = GepChannel.frame p (p.getTag msg) (toSigned 32 s.length) s ∧
    (s.length < 2 ^ 31 → o.accepted = p.printHeader (p.getTag msg) (.ofNat s.length) ++ s)
  partly : o.accepted = [] ∨ ∃ s, p.serialize msg = some s ∧
    o.accepted <+: GepChannel.frame p (p.getTag msg) (toSigned 32 s.length) s

theorem framed {env : GepChannel.TLVEnv} {o : SendOutcome}
    (h : GepChannel.sendMessage p msg env = some o) : Framed p msg o := by
  obtain ⟨hret, hwhole, haccepted⟩ := GepChannel.sendMessage_spec h
  refine ⟨hret, fun hzero ↦ ?_, haccepted⟩
  obtain ⟨s, hs, hframe⟩ := hwhole.mp hzero
  refine ⟨s, hs, hframe, fun hlt ↦ ?_⟩
  rw [hframe, GepChannel.toSigned_length hlt, GepChannel.frame_eq]

/-- Every open channel is attempted once, and no other channel. -/
structure IsBroadcast (a : GepChannelArray) (o : ℕ → SendOutcome) (call : SendCall) : Prop where
  array : call.array = a
  attempts : call.attempts = a.attempts o a.openChannels
  once : (call.attempts.map Attempt.addr).Nodup
  ret : call.ret = 0 ∨ call.ret = -1
  failed : call.ret = -1 ↔ ∃ x ∈ call.attempts, x.outcome.ret < 0
  wire : ∀ addr, call.wire addr = if addr ∈ a.openChannels then (o addr).accepted else []

/-- The one channel with the id is attempted. -/
structure IsDirected (a : GepChannelArray) (o : ℕ → SendOutcome) (addr : ℕ) (call : SendCall) :
    Prop where
  array : call.array = a
  attempts : call.attempts = a.attempts o [addr]
  ret : call.ret = (o addr).ret
  wire : ∀ addr', call.wire addr' = if addr' = addr then (o addr).accepted else []

/-- Nothing is attempted. -/
structure IsMissed (a : GepChannelArray) (call : SendCall) : Prop where
  array : call.array = a
  attempts : call.attempts = []
  ret : call.ret = -1
  wire : ∀ addr, call.wire addr = []

theorem nodup_of_ids (hids : a.ids.Nodup) : a.vector.Nodup := hids.of_map _

theorem sendMessage_isBroadcast (hids : a.ids.Nodup) (ho : a.Answers p msg env o) :
    ∃ call, a.sendMessage p msg env = some call ∧ a.IsBroadcast o call := by
  have hnodup : a.openChannels.Nodup := (nodup_of_ids hids).filter _
  have haddrs : (a.attempts o a.openChannels).map Attempt.addr = a.openChannels := by
    rw [attempts, List.map_map]
    exact List.map_id _
  have hfailed : (∃ x ∈ a.attempts o a.openChannels, x.outcome.ret < 0) ↔
      ∃ addr ∈ a.vector, (a.heap addr).isOpenSocket ∧ (o addr).ret < 0 := by
    simp [attempts, mem_openChannels, and_assoc]
  refine ⟨_, by rw [sendMessage, sendMessageLoop_eq ho.vector]; rfl, rfl, rfl, ?_, ?_, ?_,
    wire_attempts hnodup _⟩
  · rwa [← openChannels, haddrs]
  · dsimp only
    split_ifs <;> simp
  · rw [← openChannels, hfailed]
    dsimp only
    split_ifs with hsome <;> simp [hsome]

theorem sendMessageTo_isDirected (hids : a.ids.Nodup) (ho : a.Answers p msg env o) (id : ℤ) :
    ∃ call, a.sendMessageTo p msg env id = some call ∧
      ((∃ addr ∈ a.openChannels, (a.heap addr).id = id ∧
          (∀ addr' ∈ a.vector, (a.heap addr').id = id → addr' = addr) ∧
          a.IsDirected o addr call) ∨
        ((∀ addr ∈ a.openChannels, (a.heap addr).id ≠ id) ∧ a.IsMissed call)) := by
  rcases sendMessageToLoop_eq ho.vector with ⟨addr, hmem, hopen, hid, heq⟩ | ⟨hnone, heq⟩
  · refine ⟨_, by rw [sendMessageTo, heq]; rfl, .inl ⟨addr, mem_openChannels.mpr ⟨hmem, hopen⟩,
      hid, fun addr' hmem' hid' ↦ ?_, rfl, rfl, rfl, fun addr' ↦ ?_⟩⟩
    · exact List.inj_on_of_nodup_map hids hmem' hmem (hid'.trans hid.symm)
    · rw [wire_attempts (List.nodup_singleton addr)]
      by_cases heq : addr' = addr <;> simp [heq]
  · refine ⟨_, by rw [sendMessageTo, heq]; rfl, .inr ⟨fun addr hmem hid ↦ ?_, rfl, rfl, rfl,
      fun _ ↦ rfl⟩⟩
    obtain ⟨hvector, hopen⟩ := mem_openChannels.mp hmem
    exact hnone addr hvector hid hopen

/-- Whatever the sends of the channels come to, a broadcast attempts every open
channel once, and a directed send the channel with the id, if it is open. -/
theorem sends_reach_clients (hids : a.ids.Nodup) (ho : a.Answers p msg env o) :
    (∃ call, a.sendMessage p msg env = some call ∧ a.IsBroadcast o call) ∧
      (∀ id, ∃ call, a.sendMessageTo p msg env id = some call ∧
        ((∃ addr ∈ a.openChannels, (a.heap addr).id = id ∧
            (∀ addr' ∈ a.vector, (a.heap addr').id = id → addr' = addr) ∧
            a.IsDirected o addr call) ∨
          ((∀ addr ∈ a.openChannels, (a.heap addr).id ≠ id) ∧ a.IsMissed call))) ∧
      ∀ addr ∈ a.openChannels, Framed p msg (o addr) :=
  ⟨sendMessage_isBroadcast hids ho, sendMessageTo_isDirected hids ho,
    fun addr hmem ↦ framed (ho addr hmem)⟩

/-- Three clients, the second of which has been closed. -/
def threeClients : GepChannelArray :=
  { maxChannels := 4
    lastChannelId := 3
    vector := [0, 1, 2]
    heap := fun addr ↦
      .new addr (if addr = 1 then -1 else addr + 5) (List.Vector.replicate kMaxMsgLen 0)
    nextAddr := 3
    serverSocket := 3
    port := 7 }

/-- The first client is lost in the middle of a frame, and the third one still
gets the whole of it. -/
theorem sends_reach_clients_threeClients :
    ∃ call, threeClients.sendMessage TestProtocol.proto ⟨.command4, [8, 7]⟩
        (fun addr ↦ if addr = 0 then .resetOnValue else .acceptAll) = some call ∧
      call.ret = -1 ∧ call.attempts.map Attempt.addr = [0, 2] ∧ call.wire 1 = [] ∧
      call.wire 2 = TestProtocol.proto.printHeader (TestProtocol.msgTag .command4) 2 ++ [8, 7] := by
  obtain ⟨o₀, ho₀, hret₀⟩ : ∃ o, GepChannel.sendMessage TestProtocol.proto ⟨.command4, [8, 7]⟩
      .resetOnValue = some o ∧ o.ret < 0 := ⟨_, rfl, by decide⟩
  obtain ⟨o₂, ho₂, haccepted⟩ : ∃ o, GepChannel.sendMessage TestProtocol.proto
      ⟨.command4, [8, 7]⟩ .acceptAll = some o ∧ o.accepted =
        TestProtocol.proto.printHeader (TestProtocol.msgTag .command4) 2 ++ [8, 7] :=
    ⟨_, rfl, by decide⟩
  have hopen : threeClients.openChannels = [0, 2] := by decide
  have hanswers : threeClients.Answers TestProtocol.proto ⟨.command4, [8, 7]⟩
      (fun addr ↦ if addr = 0 then .resetOnValue else .acceptAll)
      (fun addr ↦ if addr = 0 then o₀ else o₂) := by
    intro addr hmem
    rw [hopen] at hmem
    rcases hmem with - | ⟨_, - | ⟨_, ⟨⟩⟩⟩
    · exact ho₀
    · exact ho₂
  obtain ⟨⟨call, hcall, hbroadcast⟩, -, -⟩ := sends_reach_clients (by decide) hanswers
  have hattempts := hbroadcast.attempts
  have hwire := hbroadcast.wire
  rw [hopen] at hattempts hwire
  refine ⟨call, hcall, hbroadcast.failed.mpr ?_, ?_, hwire 1, (hwire 2).trans haccepted⟩
  · rw [hattempts]
    exact ⟨_, List.mem_cons_self, hret₀⟩
  · rw [hattempts]
    rfl

/-- The ids of an array that can be reached are distinct. -/
theorem ids_nodup {e : Endpoint Msg} {maxChannels port : ℤ} {heap : ℕ → GepChannel}
    {ok : ArrayState → List (ArrayEvent Msg) → ArrayLabel → Prop} {s : ArrayState}
    {log : List (ArrayEvent Msg)}
    (h : (arrayMachine e (.new maxChannels port heap)).Reaches ok s log) : s.array.ids.Nodup :=
  (arrayOk h).ids.imp fun hlt ↦ hlt.ne

end GepChannelArray

end Libgep
