import Libgep.Lifecycle
import Libgep.Session

/-!
# Isolation of the clients

What is dispatched for a client is what its own bytes mean, no matter what the
other clients send and when they come and go.  Its own bytes are those read
from the descriptor that was accepted for it; a ledger keeps track of these.
-/

namespace Libgep

open CInt Transition

variable {Msg : Type*}

/-! ## The ledger -/

/-- Who has which descriptor, and what each client has sent. -/
structure Ledger where
  last : ℤ
  owner : ℤ → Option ℤ
  isOpen : ℤ → Bool
  chunks : ℤ → List (List UInt8)

namespace Ledger

def opened (l : Ledger) (fd : ℤ) : Ledger :=
  { l with isOpen := Function.update l.isOpen fd true }

def closed (l : Ledger) (fd : ℤ) : Ledger :=
  { l with owner := Function.update l.owner fd none, isOpen := Function.update l.isOpen fd false }

def received (l : Ledger) (fd : ℤ) (r : RawRecv) : Ledger :=
  match l.owner fd with
  | some id => { l with chunks := Function.update l.chunks id (l.chunks id ++ r.chunks) }
  | none => l

/-- The connection accepted last belongs to the client that is added next. -/
def record (l : Ledger) : ArrayEvent Msg → Ledger
  | .socket fd => l.opened fd
  | .accept _ fd => if fd = -1 then l else { l.opened fd with last := fd }
  | .addClient id => { l with owner := Function.update l.owner l.last (some id) }
  | .channel _ (.recv fd _ r) => l.received fd r
  | .channel _ (.close fd) => l.closed fd
  | .close fd => l.closed fd
  | .closeServer fd => l.closed fd
  | _ => l

def empty : Ledger := ⟨-1, fun _ ↦ none, fun _ ↦ false, fun _ ↦ []⟩

end Ledger

def ledger (log : List (ArrayEvent Msg)) : Ledger := log.foldl Ledger.record .empty

theorem ledger_append (xs ys : List (ArrayEvent Msg)) :
    ledger (xs ++ ys) = ys.foldl Ledger.record (ledger xs) :=
  List.foldl_append

def dispatchedTo (id : ℤ) (log : List (ArrayEvent Msg)) : List (Delivery Msg) :=
  log.filterMap fun
    | .channel id' (.dispatch d) => if id' = id then some d else none
    | _ => none

theorem dispatchedTo_append (id : ℤ) (xs ys : List (ArrayEvent Msg)) :
    dispatchedTo id (xs ++ ys) = dispatchedTo id xs ++ dispatchedTo id ys :=
  List.filterMap_append

theorem dispatchedTo_channel (id id' : ℤ) (events : List (RecvEvent Msg)) :
    dispatchedTo id (events.map (.channel id')) = if id' = id then dispatched events else [] := by
  rw [dispatchedTo, List.filterMap_map]
  by_cases hid : id' = id
  · rw [if_pos hid]
    refine List.filterMap_congr fun ev _ ↦ ?_
    cases ev <;> simp [RecvEvent.delivery, hid]
  · rw [if_neg hid]
    refine List.filterMap_eq_nil_iff.mpr fun ev _ ↦ ?_
    cases ev <;> simp [hid]

section Ledger

variable (l : Ledger) {fd fd' : ℤ}

theorem Ledger.closed_of_ne (h : fd' ≠ fd) :
    (l.closed fd).isOpen fd' = l.isOpen fd' ∧ (l.closed fd).owner fd' = l.owner fd' :=
  ⟨Function.update_of_ne h _ _, Function.update_of_ne h _ _⟩

theorem Ledger.opened_of_ne (h : fd' ≠ fd) :
    (l.opened fd).isOpen fd' = l.isOpen fd' ∧ (l.opened fd).owner fd' = l.owner fd' :=
  ⟨Function.update_of_ne h _ _, rfl⟩

theorem Ledger.owner_of_closed {id : ℤ} (h : (l.closed fd).owner fd' = some id) :
    l.owner fd' = some id := by
  by_cases hfd : fd' = fd
  · simp [Ledger.closed, hfd] at h
  · rwa [(l.closed_of_ne hfd).2] at h

end Ledger

/-! ## What is not recorded -/

/-- The events read nothing, add no client, and open no descriptor. -/
def ArrayEvent.IsClosing : ArrayEvent Msg → Prop
  | .closeServer _ => True
  | .delClient _ => True
  | .close _ => True
  | _ => False

section Closing

variable {es : List (ArrayEvent Msg)} (h : ∀ ev ∈ es, ev.IsClosing)

include h

theorem closing_chunks (l : Ledger) : (es.foldl Ledger.record l).chunks = l.chunks := by
  induction es generalizing l with
  | nil => rfl
  | cons ev es ih =>
      obtain ⟨hev, hes⟩ := List.forall_mem_cons.mp h
      rw [List.foldl_cons, ih hes]
      cases ev <;> first | rfl | exact hev.elim

theorem closing_owner (l : Ledger) {fd id : ℤ}
    (howner : (es.foldl Ledger.record l).owner fd = some id) : l.owner fd = some id := by
  induction es generalizing l with
  | nil => exact howner
  | cons ev es ih =>
      obtain ⟨hev, hes⟩ := List.forall_mem_cons.mp h
      have hnext := ih hes (l.record ev) howner
      cases ev with
      | closeServer fd' | close fd' => exact l.owner_of_closed hnext
      | delClient => exact hnext
      | _ => exact hev.elim

theorem closing_dispatchedTo (id : ℤ) : dispatchedTo id es = [] := by
  refine List.filterMap_eq_nil_iff.mpr fun ev hev ↦ ?_
  have hclosing := h ev hev
  cases ev <;> first | rfl | exact hclosing.elim

end Closing

theorem isClosing_closes {es : List (ArrayEvent Msg)} (h : ∀ ev ∈ es, ∃ fd, ev = .close fd) :
    ∀ ev ∈ es, ev.IsClosing := by
  intro ev hev
  obtain ⟨fd, rfl⟩ := h ev hev
  trivial

theorem stop_closing (a : GepChannelArray) (retained : List ℕ) :
    ∀ ev ∈ (@a.stop Msg retained).events, ev.IsClosing := by
  have hserver : ∀ ev ∈ (@a.closeServerSocket Msg).events, ev.IsClosing := by
    unfold GepChannelArray.closeServerSocket
    split_ifs <;> simp [ArrayEvent.IsClosing]
  intro ev hev
  simp only [GepChannelArray.stop, List.mem_append] at hev
  rcases hev with (hev | hev) | hev
  · exact hserver ev hev
  · obtain ⟨id, -, rfl⟩ := List.mem_map.mp hev
    trivial
  · exact isClosing_closes (GepChannelArray.releaseAll_events _ _ _) ev hev

theorem foldl_record_channel (l : Ledger) (id : ℤ) {events : List (RecvEvent Msg)}
    (hrecv : NoRecv events) (hclosed : closedFds events = []) :
    (events.map (ArrayEvent.channel id)).foldl Ledger.record l = l := by
  induction events generalizing l with
  | nil => rfl
  | cons ev events ih =>
      obtain ⟨hev, hrecv⟩ := noRecv_cons.mp hrecv
      rw [closedFds_cons, List.append_eq_nil_iff] at hclosed
      have hsame : l.record (.channel id ev) = l := by
        cases ev with
        | recv => exact (hev trivial).elim
        | close => cases hclosed.1
        | _ => rfl
      rw [List.map_cons, List.foldl_cons, hsame]
      exact ih l hrecv hclosed.2

/-! ## The invariant -/

/-- The kernel gives out no descriptor that is open. -/
def FreshFds (log : List (ArrayEvent Msg)) : ArrayLabel → Prop
  | .openServerSocket env => env.socket ≠ -1 → (ledger log).isOpen env.socket = false
  | .acceptConnection fd _ => fd ≠ -1 → 0 ≤ fd ∧ (ledger log).isOpen fd = false
  | _ => True

/-- A `RecvData` in progress has served the channel and failed. -/
def ArrayState.Failed (s : ArrayState) (addr : ℕ) : Prop :=
  ∃ ret < 0, s.serving = some ⟨addr, some ret⟩

/-- Before the channel was served, nothing has failed. -/
theorem ArrayState.not_failed (s : ArrayState) (h : ∀ served ∈ s.serving, served.ret = none)
    (addr : ℕ) : ¬ s.Failed addr := by
  rintro ⟨ret, -, hsome⟩
  cases h _ hsome

structure IsolationOk (e : Endpoint Msg) (s : ArrayState) (log : List (ArrayEvent Msg)) :
    Prop where
  /-- The descriptor of every channel belongs to its client. -/
  socket : ∀ addr ∈ s.array.vector, 0 ≤ (s.array.heap addr).socket ∧
    (ledger log).isOpen (s.array.heap addr).socket = true ∧
    (ledger log).owner (s.array.heap addr).socket = some (s.array.heap addr).id
  owner : ∀ fd id, (ledger log).owner fd = some id → id < s.array.lastChannelId
  fresh : ∀ id, s.array.lastChannelId ≤ id →
    (ledger log).chunks id = [] ∧ dispatchedTo id log = []
  session : ∀ id, Session e ((ledger log).chunks id) (dispatchedTo id log)
  holds : ∀ addr ∈ s.array.vector, ¬ s.Failed addr →
    Holds e ((ledger log).chunks (s.array.heap addr).id) (s.array.heap addr)

/-! ## One step -/

namespace IsolationOk

variable {e : Endpoint Msg} {s s' : ArrayState} {log es : List (ArrayEvent Msg)}

/-- A step that serves nobody and adds nobody, and leaves the channels that
remain, and their descriptors, alone. -/
theorem carry (hs : IsolationOk e s log) {l : Ledger} (hledger : ledger (log ++ es) = l)
    (hlast : s'.array.lastChannelId = s.array.lastChannelId)
    (hchunks : l.chunks = (ledger log).chunks) (hout : ∀ id, dispatchedTo id es = [])
    (howner : ∀ fd id, l.owner fd = some id → (ledger log).owner fd = some id)
    (hremain : ∀ addr ∈ s'.array.vector, addr ∈ s.array.vector ∧
      s'.array.heap addr = s.array.heap addr ∧ (s.Failed addr → s'.Failed addr))
    (hfds : ∀ addr ∈ s'.array.vector, ∀ fd, fd = (s.array.heap addr).socket →
      l.isOpen fd = (ledger log).isOpen fd ∧ l.owner fd = (ledger log).owner fd) :
    IsolationOk e s' (log ++ es) := by
  have hsame : ∀ id, dispatchedTo id (log ++ es) = dispatchedTo id log := by
    intro id
    rw [dispatchedTo_append, hout, List.append_nil]
  refine ⟨fun addr hmem ↦ ?_, fun fd id hfd ↦ ?_, fun id hid ↦ ?_, fun id ↦ ?_,
    fun addr hmem hfailed ↦ ?_⟩
  · obtain ⟨hold, hheap, -⟩ := hremain addr hmem
    obtain ⟨hopen, howns⟩ := hfds addr hmem _ rfl
    rw [hledger, hheap, hopen, howns]
    exact hs.socket addr hold
  · rw [hledger] at hfd
    rw [hlast]
    exact hs.owner fd id (howner fd id hfd)
  · rw [hledger, hchunks, hsame]
    exact hs.fresh id (hlast ▸ hid)
  · rw [hledger, hchunks, hsame]
    exact hs.session id
  · obtain ⟨hold, hheap, himp⟩ := hremain addr hmem
    rw [hledger, hchunks, hheap]
    exact hs.holds addr hold fun h ↦ hfailed (himp h)

theorem socket_ne (hs : IsolationOk e s log) {fd : ℤ} (hfd : (ledger log).isOpen fd = false)
    {addr : ℕ} (hmem : addr ∈ s.array.vector) : (s.array.heap addr).socket ≠ fd := by
  rintro rfl
  rw [(hs.socket addr hmem).2.1] at hfd
  cases hfd

theorem openServerSocket (hs : IsolationOk e s log) {env : ListenEnv}
    (hfresh : FreshFds log (.openServerSocket env)) :
    IsolationOk e ⟨(@s.array.openServerSocket Msg env).array, s.serving⟩
      (log ++ (s.array.openServerSocket env).events) := by
  have hremain : ∀ addr ∈ (@s.array.openServerSocket Msg env).array.vector,
      addr ∈ s.array.vector ∧ (@s.array.openServerSocket Msg env).array.heap addr =
        s.array.heap addr ∧ (s.Failed addr → s.Failed addr) := by
    intro addr hmem
    rw [s.array.openServerSocket_vector] at hmem
    rw [s.array.openServerSocket_heap]
    exact ⟨hmem, rfl, id⟩
  have hledger : ∀ l : Ledger,
      (@s.array.openServerSocket Msg env).events.foldl Ledger.record l = l ∨
        env.socket ≠ -1 ∧
          ((@s.array.openServerSocket Msg env).events.foldl Ledger.record l =
              l.opened env.socket ∨
            (@s.array.openServerSocket Msg env).events.foldl Ledger.record l =
              (l.opened env.socket).closed env.socket) := by
    intro l
    rcases @s.array.openServerSocket_events Msg env with
      ⟨-, hes⟩ | ⟨hsocket, hes | hes | hes⟩ <;> rw [hes]
    · exact .inl rfl
    · exact .inr ⟨hsocket, .inr rfl⟩
    · exact .inr ⟨hsocket, .inr rfl⟩
    · exact .inr ⟨hsocket, .inl rfl⟩
  have hout : ∀ id, dispatchedTo id (@s.array.openServerSocket Msg env).events = [] := by
    intro id
    rcases @s.array.openServerSocket_events Msg env with ⟨-, hes⟩ | ⟨-, hes | hes | hes⟩ <;>
      rw [hes] <;> rfl
  have hlast := (@s.array.openServerSocket_keeps Msg env).lastChannelId
  rcases hledger (ledger log) with hsame | ⟨hsocket, hopened | hclosed⟩
  · exact hs.carry ((ledger_append _ _).trans hsame) hlast rfl hout (fun _ _ ↦ id) hremain
      fun _ _ _ _ ↦ ⟨rfl, rfl⟩
  · refine hs.carry ((ledger_append _ _).trans hopened) hlast rfl hout (fun _ _ ↦ id) hremain ?_
    rintro addr hmem _ rfl
    exact Ledger.opened_of_ne _ (hs.socket_ne (hfresh hsocket) (hremain addr hmem).1)
  · refine hs.carry ((ledger_append _ _).trans hclosed) hlast rfl hout ?_ hremain ?_
    · intro _ _ howner
      exact Ledger.owner_of_closed _ howner
    · rintro addr hmem _ rfl
      have hne := hs.socket_ne (hfresh hsocket) (hremain addr hmem).1
      have hthen := Ledger.closed_of_ne ((ledger log).opened env.socket) hne
      have hfirst := Ledger.opened_of_ne (ledger log) hne
      exact ⟨hthen.1.trans hfirst.1, hthen.2.trans hfirst.2⟩

/-- `Accept` has failed, or the connection was refused. -/
theorem notAdded (hs : IsolationOk e s log) {fd : ℤ} (server : ℤ)
    (hfresh : fd ≠ -1 → (ledger log).isOpen fd = false) :
    IsolationOk e s (log ++ [.accept server fd]) := by
  have hremain : ∀ addr ∈ s.array.vector, addr ∈ s.array.vector ∧
      s.array.heap addr = s.array.heap addr ∧ (s.Failed addr → s.Failed addr) :=
    fun _ hmem ↦ ⟨hmem, rfl, id⟩
  by_cases hfd : fd = -1
  · have hsame : ledger (log ++ [@ArrayEvent.accept Msg server fd]) = ledger log := by
      rw [ledger_append]
      exact if_pos hfd
    exact hs.carry hsame rfl rfl (fun _ ↦ rfl) (fun _ _ ↦ id) hremain fun _ _ _ _ ↦ ⟨rfl, rfl⟩
  · have hsame : ledger (log ++ [@ArrayEvent.accept Msg server fd]) =
        { (ledger log).opened fd with last := fd } := by
      rw [ledger_append]
      exact if_neg hfd
    refine hs.carry hsame rfl rfl (fun _ ↦ rfl) (fun _ _ ↦ id) hremain ?_
    rintro addr hmem _ rfl
    exact Ledger.opened_of_ne _ (hs.socket_ne (hfresh hfd) hmem)

theorem added (hs : IsolationOk e s log) (ha : ArrayOk s.array s.retained) {fd : ℤ}
    (hfd : fd ≠ -1) (hpos : 0 ≤ fd) (hfresh : (ledger log).isOpen fd = false) (stale : Buffer) :
    IsolationOk e ⟨s.array.withChannel fd stale, s.serving⟩
      (log ++ [.accept s.array.serverSocket fd, .addClient s.array.lastChannelId]) := by
  have hledger : ledger (log ++ [@ArrayEvent.accept Msg s.array.serverSocket fd,
      .addClient s.array.lastChannelId]) =
        { (ledger log).opened fd with
          last := fd
          owner := Function.update (ledger log).owner fd (some s.array.lastChannelId) } := by
    rw [ledger_append]
    simp only [List.foldl_cons, List.foldl_nil, Ledger.record, if_neg hfd]
    rfl
  have hsame : ∀ id, dispatchedTo id (log ++ [.accept s.array.serverSocket fd,
      .addClient s.array.lastChannelId]) = dispatchedTo id log := by
    intro id
    rw [dispatchedTo_append]
    exact List.append_nil _
  have hnew := ArrayOk.withChannel_heap_self s.array fd stale
  have hold : ∀ addr ∈ s.array.vector,
      (s.array.withChannel fd stale).heap addr = s.array.heap addr := fun addr hmem ↦
    ArrayOk.withChannel_heap_of_lt _ _ _ (ha.addr addr (List.mem_append_left _ hmem))
  have hcases : ∀ addr ∈ (s.array.withChannel fd stale).vector,
      addr ∈ s.array.vector ∨ addr = s.array.nextAddr := by
    intro addr hmem
    simpa using List.mem_append.mp hmem
  refine ⟨fun addr hmem ↦ ?_, fun fd' id howner ↦ ?_, fun id hid ↦ ?_, fun id ↦ ?_,
    fun addr hmem hfailed ↦ ?_⟩
  · rw [hledger]
    dsimp only
    rcases hcases addr hmem with hmem | rfl
    · have hne := hs.socket_ne hfresh hmem
      rw [hold addr hmem, Function.update_of_ne hne, ((ledger log).opened_of_ne hne).1]
      exact hs.socket addr hmem
    · rw [hnew, GepChannel.new, Function.update_self]
      exact ⟨hpos, Function.update_self _ _ _, rfl⟩
  · rw [hledger] at howner
    dsimp only at howner
    change id < s.array.lastChannelId + 1
    by_cases heq : fd' = fd
    · rw [heq, Function.update_self] at howner
      rw [← Option.some.inj howner]
      exact Int.lt_succ _
    · rw [Function.update_of_ne heq] at howner
      exact (hs.owner fd' id howner).trans (Int.lt_succ _)
  · rw [hledger, hsame]
    exact hs.fresh id ((Int.le_add_one le_rfl).trans hid)
  · rw [hledger, hsame]
    exact hs.session id
  · rw [hledger]
    dsimp only
    rcases hcases addr hmem with hmem | rfl
    · rw [hold addr hmem]
      exact hs.holds addr hmem hfailed
    · rw [hnew]
      have hnone : (ledger log).chunks s.array.lastChannelId = [] := (hs.fresh _ le_rfl).1
      have hholds := Holds.new e s.array.lastChannelId fd stale
      rwa [← hnone] at hholds

/-- The client whose channel is served has sent what its `Recv` read. -/
theorem ledger_served {c : GepChannel} {r : RawRecv} {ret : ℤ} (hpos : 0 ≤ c.socket)
    (hroom : toUnsigned 64 c.len < kMaxMsgLen) (hret : (c.recvData e r).ret = some ret)
    (howns : (ledger log).owner c.socket = some c.id) :
    ledger (log ++ (c.recvData e r).events.map (.channel c.id)) =
      { ledger log with
        chunks := Function.update (ledger log).chunks c.id
          ((ledger log).chunks c.id ++ r.chunks) } := by
  obtain ⟨events, hevents, hnoRecv⟩ := GepChannel.recvData_events e r hpos hroom
  have hopen : c.socket ≠ -1 := by omega
  have hclosed := GepChannel.recvData_closedFds hopen hret
  rw [hevents, closedFds_cons, List.append_eq_nil_iff] at hclosed
  rw [ledger_append, hevents, List.map_cons, List.foldl_cons,
    foldl_record_channel _ _ hnoRecv hclosed.2]
  simp only [Ledger.record, Ledger.received, howns]

theorem served (hk : e.CallbacksKeep) (hs : IsolationOk e s log)
    (ha : ArrayOk s.array s.retained) {addr : ℕ} (hmem : addr ∈ s.array.vector)
    (hserving : s.serving = some ⟨addr, none⟩) {r : RawRecv}
    (hfits : r.Fits (kMaxMsgLen - toUnsigned 64 (s.array.heap addr).len)) {ret : ℤ}
    (hret : ((s.array.heap addr).recvData e r).ret = some ret) :
    IsolationOk e
      ⟨s.array.withState addr ((s.array.heap addr).recvData e r).chan, some ⟨addr, some ret⟩⟩
      (log ++ ((s.array.heap addr).recvData e r).events.map
        (.channel (s.array.heap addr).id)) := by
  obtain ⟨hpos, hopen, howns⟩ := hs.socket addr hmem
  have hnotFailed := s.not_failed (by simp [hserving])
  have hholds := hs.holds addr hmem (hnotFailed addr)
  have hother : ∀ addr' ∈ s.array.vector, addr' ≠ addr →
      (s.array.heap addr').id ≠ (s.array.heap addr).id :=
    fun addr' hmem' hne hid ↦ hne (ha.id_injective hmem' hmem hid)
  have hheap : ∀ addr', addr' ≠ addr →
      (s.array.withState addr ((s.array.heap addr).recvData e r).chan).heap addr' =
        s.array.heap addr' := fun addr' hne ↦ s.array.withState_heap_of_ne _ hne
  have hself := s.array.withState_heap_self addr ((s.array.heap addr).recvData e r).chan
  have hid : ((s.array.heap addr).recvData e r).chan.id = (s.array.heap addr).id :=
    (GepChannel.recvData_socketKept e _ r).id
  have hsocket := GepChannel.recvData_socket hret
  obtain ⟨hsession, hnext⟩ :=
    (hs.session (s.array.heap addr).id).recvData hk hholds hpos hfits hret
  have hledger := ledger_served hpos hholds.room hret howns
  have hthis : dispatchedTo (s.array.heap addr).id (log ++
      ((s.array.heap addr).recvData e r).events.map (.channel (s.array.heap addr).id)) =
        dispatchedTo (s.array.heap addr).id log ++
          dispatched ((s.array.heap addr).recvData e r).events := by
    rw [dispatchedTo_append, dispatchedTo_channel, if_pos rfl]
  have hthat : ∀ id', id' ≠ (s.array.heap addr).id → dispatchedTo id' (log ++
      ((s.array.heap addr).recvData e r).events.map (.channel (s.array.heap addr).id)) =
        dispatchedTo id' log := by
    intro id' hne
    rw [dispatchedTo_append, dispatchedTo_channel, if_neg (Ne.symm hne), List.append_nil]
  have hlast : (s.array.heap addr).id < s.array.lastChannelId := hs.owner _ _ howns
  refine ⟨fun addr' hmem' ↦ ?_, fun fd id' howner ↦ ?_, fun id' hge ↦ ?_, fun id' ↦ ?_,
    fun addr' hmem' hfailed ↦ ?_⟩
  · rw [hledger]
    by_cases heq : addr' = addr
    · subst heq
      dsimp only
      rw [hself, hsocket, hid]
      exact ⟨hpos, hopen, howns⟩
    · dsimp only
      rw [hheap addr' heq]
      exact hs.socket addr' hmem'
  · rw [hledger] at howner
    exact hs.owner fd id' howner
  · have hne : id' ≠ (s.array.heap addr).id := (hlast.trans_le hge).ne'
    rw [hledger, hthat id' hne]
    dsimp only
    rw [Function.update_of_ne hne]
    exact hs.fresh id' hge
  · rw [hledger]
    dsimp only
    by_cases heq : id' = (s.array.heap addr).id
    · rw [heq, hthis, Function.update_self]
      exact hsession
    · rw [hthat id' heq, Function.update_of_ne heq]
      exact hs.session id'
  · rw [hledger]
    dsimp only
    by_cases heq : addr' = addr
    · subst heq
      rw [hself, hid, Function.update_self]
      exact hnext.resolve_left fun hneg ↦ hfailed ⟨ret, hneg, rfl⟩
    · rw [hheap addr' heq, Function.update_of_ne (hother addr' hmem' heq)]
      exact hs.holds addr' hmem' (hnotFailed addr')

theorem finished (hs : IsolationOk e s log) (ha : ArrayOk s.array s.retained) {addr : ℕ}
    (hmem : addr ∈ s.array.vector) {ret : ℤ} (hserving : s.serving = some ⟨addr, some ret⟩) :
    IsolationOk e ⟨(@s.array.finish Msg addr ret).array, none⟩
      (log ++ (s.array.finish addr ret).events) := by
  have hfailed : ∀ addr', s.Failed addr' → addr' = addr ∧ ret < 0 := by
    rintro addr' ⟨ret', hneg, hsome⟩
    rw [hserving] at hsome
    cases hsome
    exact ⟨rfl, hneg⟩
  by_cases hret : ret < 0
  · have hvector : (@s.array.finish Msg addr ret).array.vector = s.array.vector.erase addr := by
      rw [s.array.finish_vector, if_pos hret]
    have hgone : ∀ addr' ∈ (@s.array.finish Msg addr ret).array.vector,
        addr' ≠ addr ∧ addr' ∈ s.array.vector := by
      intro addr' hmem'
      rw [hvector] at hmem'
      exact ha.nodup.mem_erase_iff.mp hmem'
    have hne : ∀ addr' ∈ (@s.array.finish Msg addr ret).array.vector,
        (s.array.heap addr').socket ≠ (s.array.heap addr).socket := by
      intro addr' hmem' hsame
      obtain ⟨hne, hold⟩ := hgone addr' hmem'
      have howns := (hs.socket addr' hold).2.2
      rw [hsame, (hs.socket addr hmem).2.2] at howns
      exact hne (ha.id_injective hold hmem (Option.some.inj howns).symm)
    have hopen : (s.array.heap addr).socket ≠ -1 := by
      have hpos := (hs.socket addr hmem).1
      omega
    have hfinish := @GepChannelArray.finish_failed Msg s.array ha.nodup addr hmem ret hret hopen
    have hledger : ledger (log ++ (@s.array.finish Msg addr ret).events) =
        (ledger log).closed (s.array.heap addr).socket := by
      rw [ledger_append, hfinish]
      rfl
    have hclosing : ∀ ev ∈ (@s.array.finish Msg addr ret).events, ev.IsClosing := by
      rw [hfinish]
      simp [ArrayEvent.IsClosing]
    refine hs.carry hledger (s.array.finish_keeps addr ret).lastChannelId rfl
      (closing_dispatchedTo hclosing) ?_ (fun addr' hmem' ↦ ?_) ?_
    · intro _ _ howner
      exact Ledger.owner_of_closed _ howner
    · obtain ⟨hother, hold⟩ := hgone addr' hmem'
      refine ⟨hold, ?_, fun h ↦ absurd (hfailed addr' h).1 hother⟩
      rw [hfinish]
      exact GepChannelArray.withState_heap_of_ne _ _ hother
    · rintro addr' hmem' _ rfl
      exact Ledger.closed_of_ne _ (hne addr' hmem')
  · have hsame : @s.array.finish Msg addr ret = ⟨(), s.array, []⟩ := by
      rw [GepChannelArray.finish, GepChannelArray.remove, if_neg fun hand ↦ hret hand.1]
      dsimp only
      rw [GepChannelArray.release, if_pos (.inl hmem)]
      rfl
    rw [hsame]
    exact hs.carry (congrArg ledger (List.append_nil log)) rfl rfl (fun _ ↦ rfl) (fun _ _ ↦ id)
      (fun addr' hmem' ↦ ⟨hmem', rfl, fun h ↦ absurd (hfailed addr' h).2 hret⟩)
      fun _ _ _ _ ↦ ⟨rfl, rfl⟩

theorem stopped (hs : IsolationOk e s log) :
    IsolationOk e ⟨(@s.array.stop Msg s.retained).array, s.serving⟩
      (log ++ (s.array.stop s.retained).events) := by
  have hclosing := @stop_closing Msg s.array s.retained
  have hempty := @s.array.stop_vector Msg s.retained
  refine hs.carry (ledger_append _ _) (s.array.stop_keeps _).lastChannelId
    (closing_chunks hclosing _) (closing_dispatchedTo hclosing) ?_ ?_ ?_
  · exact fun fd id howner ↦ closing_owner hclosing _ howner
  · intro addr hmem
    rw [hempty] at hmem
    cases hmem
  · intro addr hmem
    rw [hempty] at hmem
    cases hmem

theorem step (hk : e.CallbacksKeep) {l : ArrayLabel} (hs : IsolationOk e s log)
    (ha : ArrayOk s.array s.retained) (hretained : ∀ addr ∈ s.retained, addr ∈ s.array.vector)
    (hfresh : FreshFds log l) (h : arrayStep e s l = some (s', es)) :
    IsolationOk e s' (log ++ es) := by
  cases arrayStep_spec h with
  | openServerSocket env => exact hs.openServerSocket hfresh
  | refused stale => exact hs.notAdded _ fun hne ↦ absurd rfl hne
  | full fd stale hfd hfull => exact hs.notAdded _ fun hne ↦ (hfresh hne).2
  | added fd stale hfd hroom => exact hs.added ha hfd (hfresh hfd).1 (hfresh hfd).2 stale
  | idle => rwa [List.append_nil]
  | picked readFds addr hserving hpick =>
      rw [List.append_nil]
      refine ⟨hs.socket, hs.owner, hs.fresh, hs.session, fun addr' hmem' _ ↦ ?_⟩
      apply hs.holds addr' hmem'
      exact s.not_failed (by simp [hserving]) addr'
  | served addr r ret hserving hfits hret =>
      have hmem := hretained addr (by simp [ArrayState.retained, hserving])
      exact hs.served hk ha hmem hserving hfits hret
  | finished addr ret hserving =>
      have hmem := hretained addr (by simp [ArrayState.retained, hserving])
      exact hs.finished ha hmem hserving
  | stopped => exact hs.stopped

end IsolationOk

/-! ## Every run -/

theorem isolationOk {e : Endpoint Msg} (hk : e.CallbacksKeep) {maxChannels port : ℤ}
    {heap : ℕ → GepChannel} {s : ArrayState} {log : List (ArrayEvent Msg)}
    (h : (arrayMachine e (.new maxChannels port heap)).Reaches
      (fun s log l ↦ FreshFds log l ∧ Serial s l) s log) : IsolationOk e s log := by
  refine h.invariant ?_ fun {s s' log es l} hreach hs hok hstep ↦ ?_
  · refine ⟨by rintro _ ⟨⟩, by rintro _ _ ⟨⟩, fun _ _ ↦ ⟨rfl, rfl⟩, fun _ ↦ Session.nil e,
      by rintro _ ⟨⟩⟩
  · have hserial : (arrayMachine e (.new maxChannels port heap)).Reaches
        (fun s _ l ↦ True ∧ Serial s l) s log :=
      hreach.mono fun _ _ _ hl ↦ ⟨trivial, hl.2⟩
    exact hs.step hk (arrayOk hreach) (lifecycleOk hserial).serving hok.1 hstep

def FreshServerFds (log : List (ArrayEvent Msg)) : ServerLabel → Prop
  | .start env => FreshFds log (.openServerSocket env)
  | .accept fd stale => FreshFds log (.acceptConnection fd stale)
  | _ => True

/-- The step leaves all channels alone but the one that is being served, which
is removed when it has failed. -/
structure StepIsolated (s s' : ArrayState) : Prop where
  others : ∀ addr ∈ s.array.vector, addr ∉ s.retained →
    addr ∈ s'.array.vector ∧ s'.array.heap addr = s.array.heap addr
  order : (s.array.vector.filter (· ∉ s.retained)).Sublist s'.array.vector
  failed : ∀ addr ret, s.serving = some ⟨addr, some ret⟩ → s'.serving = none → ret < 0 →
    s'.array.vector = s.array.vector.erase addr

theorem StepIsolated.of_array_eq {s s' : ArrayState} (harray : s'.array = s.array)
    (hserving : s'.serving = none → s.serving = none) : StepIsolated s s' := by
  refine ⟨fun addr hmem _ ↦ ?_, ?_, fun addr ret hsome hnone ↦ ?_⟩
  · rw [harray]
    exact ⟨hmem, rfl⟩
  · rw [harray]
    exact List.filter_sublist
  · rw [hserving hnone] at hsome
    cases hsome

theorem arrayStep_isolated {e : Endpoint Msg} {s s' : ArrayState} {l : ArrayLabel}
    {es : List (ArrayEvent Msg)} (ha : ArrayOk s.array s.retained) (hl : l ≠ .stop)
    (h : arrayStep e s l = some (s', es)) : StepIsolated s s' := by
  cases arrayStep_spec h with
  | openServerSocket env =>
      have hvector := @s.array.openServerSocket_vector Msg env
      refine ⟨fun addr hmem _ ↦ ?_, ?_, fun addr ret hserving hnone ↦ ?_⟩
      · rw [hvector, s.array.openServerSocket_heap]
        exact ⟨hmem, rfl⟩
      · rw [hvector]
        exact List.filter_sublist
      · exact absurd (hserving.symm.trans hnone) (by rintro ⟨⟩)
  | refused | full => exact .of_array_eq rfl id
  | added fd stale hfd hroom =>
      refine ⟨fun addr hmem _ ↦ ⟨List.mem_append_left _ hmem, ?_⟩,
        List.filter_sublist.trans (List.sublist_append_left _ _),
        fun addr ret hserving hnone ↦ ?_⟩
      · exact ArrayOk.withChannel_heap_of_lt _ _ _ (ha.addr addr (List.mem_append_left _ hmem))
      · exact absurd (hserving.symm.trans hnone) (by rintro ⟨⟩)
  | idle readFds hserving => exact .of_array_eq rfl fun _ ↦ hserving
  | picked readFds addr hserving => exact .of_array_eq rfl fun _ ↦ hserving
  | served addr r ret hserving =>
      refine ⟨fun addr' hmem hnot ↦ ⟨hmem, ?_⟩, List.filter_sublist, fun addr ret _ ↦ ?_⟩
      · apply s.array.withState_heap_of_ne
        rintro rfl
        exact hnot (by simp [ArrayState.retained, hserving])
      · rintro ⟨⟩
  | finished addr ret hserving =>
      have hretained : s.retained = [addr] := by
        rw [ArrayState.retained, hserving]
        rfl
      have herase : s.array.vector.filter (· ∉ s.retained) = s.array.vector.erase addr := by
        rw [hretained, ha.nodup.erase_eq_filter]
        refine List.filter_congr fun addr' _ ↦ ?_
        by_cases heq : addr' = addr <;> simp [heq]
      have hsublist : (s.array.vector.filter (· ∉ s.retained)).Sublist
          (@s.array.finish Msg addr ret).array.vector := by
        rw [herase, s.array.finish_vector]
        split
        · exact List.Sublist.refl _
        · exact List.erase_sublist
      refine ⟨fun addr' hmem hnot ↦ ⟨?_, ?_⟩, hsublist, fun addr' ret' hsome _ hret ↦ ?_⟩
      · exact hsublist.subset (List.mem_filter.mpr ⟨hmem, by simpa using hnot⟩)
      · apply s.array.finish_heap_of_ne
        rintro rfl
        exact hnot (by simp [hretained])
      · rw [hserving] at hsome
        cases hsome
        exact (s.array.finish_vector addr ret).trans (if_pos hret)
  | stopped => exact absurd rfl hl

/-- The clients of a server are isolated from each other: what is dispatched
for one of them is what an untouched channel would dispatch for its bytes, and
a step touches no other channel than the one it serves.  The service loop goes
on for as long as its `fd_set` has room for all descriptors. -/
theorem clients_isolated (e : Endpoint Msg) (hk : e.CallbacksKeep) (maxChannels port : ℤ)
    (heap : ℕ → GepChannel) {s : GepServer} {log : List (ArrayEvent Msg)}
    (h : (serverMachine e (.new maxChannels port heap)).Reaches
      (fun _ log l ↦ FreshServerFds log l) s log) :
    (∀ id (c : GepChannel), 0 ≤ c.socket → c.len = 0 →
      GepChannel.ChunksFit e c ((ledger log).chunks id) ∧
        dispatchedTo id log =
          dispatched (GepChannel.recvAll e c ((ledger log).chunks id)).events) ∧
    (∀ l s' es, l ≠ .join → serverStep e s l = some (s', es) →
      StepIsolated s.array s'.array) ∧
    ∀ serverSocket, s.pc = .head serverSocket → s.threadCtrl = true →
      ((serverStep e s .loop).isSome ↔ (0 ≤ serverSocket ∧ serverSocket < fdSetSize) ∧
        ∀ addr ∈ s.array.array.vector, (s.array.array.heap addr).socket < fdSetSize) := by
  have harray : (arrayMachine e (.new maxChannels port heap)).Reaches
      (fun s log l ↦ FreshFds log l ∧ Serial s l) s.array log := by
    refine reaches_array rfl (fun {s log l l'} hok hdrives ↦ ?_) h
    cases hdrives with
    | start env => exact hok
    | accept fd stale => exact hok
    | _ => trivial
  have hisolation := isolationOk hk harray
  refine ⟨fun id c hsocket hlen ↦ ?_, fun l s' es hl hstep ↦ ?_, fun serverSocket hpc hctrl ↦ ?_⟩
  · have hsession := hisolation.session id
    exact ⟨hsession.fits c hsocket hlen, hsession.isolated hk hsocket hlen⟩
  · rcases serverStep_array hstep with ⟨hsame, -⟩ | ⟨l', hdrives, hnext⟩
    · rw [hsame]
      exact .of_array_eq rfl id
    · refine arrayStep_isolated (arrayOk harray) ?_ hnext
      rintro rfl
      cases hdrives
      exact hl rfl
  · rw [← GepServer.isSome_readFds]
    simp [serverStep, hpc, hctrl]

/-! ## Two clients -/

instance decidableFreshServerFds (log : List (ArrayEvent Msg)) :
    (l : ServerLabel) → Decidable (FreshServerFds log l)
  | .start env => inferInstanceAs
      (Decidable (env.socket ≠ -1 → (ledger log).isOpen env.socket = false))
  | .accept fd _ => inferInstanceAs
      (Decidable (fd ≠ -1 → 0 ≤ fd ∧ (ledger log).isOpen fd = false))
  | .stop | .join | .enter | .loop | .select _ | .recvBegin | .recv _ | .recvEnd | .acceptBegin =>
      isTrue trivial

/-- Two clients are accepted, on descriptors 4 and 5. -/
def twoAcceptedRun : List ServerLabel :=
  [.start ⟨3, false, false, false, none⟩, .enter, .loop, .select (.ready (· == 3)), .recvBegin,
    .acceptBegin, .accept 4 TestProtocol.blank, .loop, .select (.ready (· == 3)), .recvBegin,
    .acceptBegin, .accept 5 TestProtocol.blank]

/-- The frames of the two clients come in two parts each, in turn; the second
one has sent something else behind its frame. -/
def leavingRun : List ServerLabel :=
  twoAcceptedRun ++
    [.loop, .select (.ready (· == 4)), .recvBegin,
      .recv (.data ((TestProtocol.frame ⟨.command4, [8, 7]⟩).take 5)), .recvEnd, .acceptBegin,
      .loop, .select (.ready (· == 5)), .recvBegin,
      .recv (.data ((TestProtocol.frame ⟨.command2, [8, 9]⟩).take 13)), .recvEnd, .acceptBegin,
      .loop, .select (.ready (· == 4)), .recvBegin,
      .recv (.data ((TestProtocol.frame ⟨.command4, [8, 7]⟩).drop 5)), .recvEnd, .acceptBegin,
      .loop, .select (.ready (· == 5)), .recvBegin,
      .recv (.data ((TestProtocol.frame ⟨.command2, [8, 9]⟩).drop 13 ++ List.replicate 12 0))]

theorem leavingRun_fresh :
    (serverMachine TestProtocol.endpoint (.new 2 7 unallocated)).Along
      (fun _ log l ↦ FreshServerFds log l) (.new (.new 2 7 unallocated)) [] leavingRun := by
  decide +kernel

theorem clients_isolated_leaving : ∃ s log s',
    (serverMachine TestProtocol.endpoint (.new 2 7 unallocated)).runFrom
        (.new (.new 2 7 unallocated)) leavingRun = some (s, log) ∧
      serverStep TestProtocol.endpoint s .recvEnd = some (s', [.delClient 1, .close 5]) ∧
      StepIsolated s.array s'.array ∧ s'.array.array.ids = [0] ∧
      (dispatchedTo 0 log).map Delivery.msg = [⟨.command4, [8, 7]⟩] ∧
      (dispatchedTo 1 log).map Delivery.msg = [⟨.command2, [8, 9]⟩] ∧
      dispatchedTo 0 log = dispatched (GepChannel.recvAll TestProtocol.endpoint
        (.new 0 4 TestProtocol.blank) ((ledger log).chunks 0)).events := by
  have hends : ((serverMachine TestProtocol.endpoint (.new 2 7 unallocated)).runFrom
      (.new (.new 2 7 unallocated)) leavingRun).bind (fun next ↦
        (serverStep TestProtocol.endpoint next.1 .recvEnd).map fun last ↦
          (last.2, last.1.array.array.ids, (dispatchedTo 0 next.2).map Delivery.msg,
            (dispatchedTo 1 next.2).map Delivery.msg)) =
      some ([.delClient 1, .close 5], [0], [⟨.command4, [8, 7]⟩], [⟨.command2, [8, 9]⟩]) := by
    decide +kernel
  obtain ⟨⟨s, log⟩, hrun, hends⟩ := Option.bind_eq_some_iff.mp hends
  obtain ⟨⟨s', es⟩, hstep, hends⟩ := Option.map_eq_some_iff.mp hends
  simp only [Prod.mk.injEq] at hends
  obtain ⟨rfl, hids, hfirst, hsecond⟩ := hends
  have hisolated := clients_isolated TestProtocol.endpoint TestProtocol.endpoint_callbacksKeep
    2 7 unallocated (.run .init leavingRun_fresh hrun)
  have hsession := (hisolated.1 0 (.new 0 4 TestProtocol.blank) (by decide) rfl).2
  exact ⟨s, log, s', hrun, hstep, hisolated.2.1 _ _ _ (by rintro ⟨⟩) hstep, hids, hfirst, hsecond,
    hsession⟩

end Libgep
