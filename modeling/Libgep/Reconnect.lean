import Libgep.Client
import Libgep.Session
import Mathlib.Data.List.Monad

/-!
# Connections of a client

A client has one descriptor at a time, and every connection starts with an
empty buffer: what is dispatched while it lasts is what its own bytes mean.
-/

namespace Libgep

open CInt Transition

variable {Msg : Type*}

/-! ## Descriptors in the log -/

/-- The descriptor that is open after an event, when `cur` is open before it.
Opening a second one, or closing one that is not open, is an error. -/
def ClientEvent.track (cur : Option ℤ) : ClientEvent Msg → Option (Option ℤ)
  | .socket fd => if cur = none then some (some fd) else none
  | .close fd => if cur = some fd then some none else none
  | .channel (.close fd) => if cur = some fd then some none else none
  | .channel _ => some cur

def trackFrom (cur : Option ℤ) (log : List (ClientEvent Msg)) : Option (Option ℤ) :=
  log.foldlM ClientEvent.track cur

/-- The descriptor that is open after some events, if at any time only one was
open, and none was closed twice. -/
def openFd (log : List (ClientEvent Msg)) : Option (Option ℤ) := trackFrom none log

theorem openFd_append {xs ys : List (ClientEvent Msg)} {cur : Option ℤ}
    (h : openFd xs = some cur) : openFd (xs ++ ys) = trackFrom cur ys := by
  rw [openFd, trackFrom, List.foldlM_append]
  change (openFd xs).bind _ = _
  rw [h]
  rfl

theorem trackFrom_channel (cur : Option ℤ) {events : List (RecvEvent Msg)}
    (hclosed : closedFds events = []) :
    trackFrom cur (events.map .channel) = some cur := by
  induction events with
  | nil => rfl
  | cons ev events ih =>
      rw [closedFds_cons, List.append_eq_nil_iff] at hclosed
      obtain ⟨hev, hrest⟩ := hclosed
      have hsame : (ClientEvent.channel ev).track cur = some cur := by
        cases ev with
        | close => cases hev
        | _ => rfl
      rw [trackFrom, List.map_cons, List.foldlM_cons, hsame]
      exact ih hrest

/-! ## Connections in the log -/

/-- What was received on a connection, and what was dispatched meanwhile. -/
structure Connection (Msg : Type*) where
  fd : ℤ
  chunks : List (List UInt8)
  out : List (Delivery Msg)

def receivedOn (fd : ℤ) (r : RawRecv) : List (Connection Msg) → List (Connection Msg)
  | [] => []
  | conn :: conns =>
      if conn.fd = fd then { conn with chunks := conn.chunks ++ r.chunks } :: conns
      else conn :: receivedOn fd r conns

/-- The connections after an event, the last one first. -/
def recordConnection (conns : List (Connection Msg)) : ClientEvent Msg → List (Connection Msg)
  | .socket fd => ⟨fd, [], []⟩ :: conns
  | .channel (.recv fd _ r) => receivedOn fd r conns
  | .channel (.dispatch d) =>
      match conns with
      | [] => []
      | conn :: conns => { conn with out := conn.out ++ [d] } :: conns
  | _ => conns

def connections (log : List (ClientEvent Msg)) : List (Connection Msg) :=
  log.foldl recordConnection []

theorem connections_append (xs ys : List (ClientEvent Msg)) :
    connections (xs ++ ys) = ys.foldl recordConnection (connections xs) :=
  List.foldl_append

theorem foldl_recordConnection_channel (conn : Connection Msg) (conns : List (Connection Msg))
    {events : List (RecvEvent Msg)} (hrecv : NoRecv events) :
    (events.map ClientEvent.channel).foldl recordConnection (conn :: conns) =
      { conn with out := conn.out ++ dispatched events } :: conns := by
  induction events generalizing conn with
  | nil => simp
  | cons ev events ih =>
      obtain ⟨hev, hrest⟩ := noRecv_cons.mp hrecv
      rw [List.map_cons, List.foldl_cons]
      cases ev with
      | recv => exact (hev trivial).elim
      | dispatch d =>
          change (events.map ClientEvent.channel).foldl recordConnection
            ({ conn with out := conn.out ++ [d] } :: conns) = _
          rw [ih _ hrest]
          simp
      | _ => exact ih conn hrest

/-! ## The channel -/

namespace GepChannel

def fd (c : GepChannel) : Option ℤ := if c.socket = -1 then none else some c.socket

/-- The log tells what a channel holds, unless receiving has `failed`. -/
structure ConnectionOk (e : Endpoint Msg) (c : GepChannel) (failed : Prop)
    (log : List (ClientEvent Msg)) : Prop where
  len : c.socket = -1 → c.len = 0
  fd : openFd log = some c.fd
  sessions : ∀ conn ∈ connections log, Session e conn.chunks conn.out
  current : c.socket ≠ -1 → ∃ conn conns, connections log = conn :: conns ∧
    conn.fd = c.socket ∧ (¬ failed → Holds e conn.chunks c)

namespace ConnectionOk

variable {e : Endpoint Msg} {c : GepChannel} {failed : Prop} {log : List (ClientEvent Msg)}

theorem opened (h : ConnectionOk e c failed log) (hclosed : c.socket = -1) (env : OpenEnv)
    (failed' : Prop) :
    ConnectionOk e (c.openClientSocket env).chan failed'
      (log ++ (c.openClientSocket env).events) := by
  have hfd : openFd log = some none := by
    rw [h.fd, GepChannel.fd, if_pos hclosed]
  have hnew : ∀ conn ∈ (⟨env.socket, [], []⟩ : Connection Msg) :: connections log,
      Session e conn.chunks conn.out := by
    intro conn hmem
    rcases List.mem_cons.mp hmem with rfl | hmem
    · exact .nil e
    · exact h.sessions conn hmem
  unfold openClientSocket
  split_ifs with hsocket hfails
  · rw [show (log ++ Opened.events ⟨-1, c, none, none⟩) = log from List.append_nil log]
    exact ⟨h.len, h.fd, h.sessions, fun hopen ↦ absurd hclosed hopen⟩
  · refine ⟨h.len, ?_, ?_, fun hopen ↦ absurd hclosed hopen⟩
    · rw [openFd_append hfd, GepChannel.fd, if_pos hclosed]
      simp [Opened.events, trackFrom, ClientEvent.track]
    · rw [connections_append]
      exact hnew
  · refine ⟨fun hnone ↦ absurd hnone hsocket, ?_, ?_, fun _ ↦
      ⟨⟨env.socket, [], []⟩, connections log, ?_, rfl, fun _ ↦ ?_⟩⟩
    · rw [openFd_append hfd, GepChannel.fd, if_neg hsocket]
      rfl
    · rw [connections_append]
      exact hnew
    · rw [connections_append]
      rfl
    · have hlen := h.len hclosed
      have hempty : ({ c with socket := env.socket } : GepChannel).contents = [] := by
        rw [contents, hlen]
        rfl
      refine ⟨⟨hlen.ge, ?_⟩, ?_⟩
      · rw [hlen]
        exact Int.natCast_nonneg _
      · rw [hempty]
        rfl

theorem closed (h : ConnectionOk e c failed log) (failed' : Prop) :
    ConnectionOk e c.close.2.1 failed' (log ++ (c.close.2.2.map .close).toList) := by
  unfold close
  split_ifs with hopen
  · refine ⟨fun _ ↦ rfl, ?_, ?_, fun hopen' ↦ absurd rfl hopen'⟩
    · have hfd : openFd log = some (some c.socket) := by
        rw [h.fd, GepChannel.fd, if_neg hopen]
      rw [openFd_append hfd]
      simp [trackFrom, ClientEvent.track, GepChannel.fd]
    · rw [connections_append]
      exact h.sessions
  · rw [show log ++ (Option.map ClientEvent.close none).toList = log from List.append_nil log]
    rw [not_not] at hopen
    exact ⟨h.len, h.fd, h.sessions, fun hopen' ↦ absurd hopen hopen'⟩

theorem received (hk : e.CallbacksKeep) (h : ConnectionOk e c False log) {r : RawRecv}
    (hfits : r.Fits (kMaxMsgLen - toUnsigned 64 c.len)) {res : ℤ}
    (hres : (c.recvData e r).ret = some res) :
    ConnectionOk e (c.recvData e r).chan (res < 0)
      (log ++ (c.recvData e r).events.map .channel) := by
  by_cases hneg : c.socket < 0
  · rw [recvData_of_neg hneg] at hres ⊢
    cases hres
    rw [List.map_nil, List.append_nil]
    refine ⟨h.len, h.fd, h.sessions, fun hopen ↦ ?_⟩
    obtain ⟨conn, conns, hconns, hfd, -⟩ := h.current hopen
    exact ⟨conn, conns, hconns, hfd, fun hpos ↦ absurd (by decide) hpos⟩
  · have hpos : 0 ≤ c.socket := Int.not_lt.mp hneg
    have hopen : c.socket ≠ -1 := by omega
    obtain ⟨conn, conns, hconns, hfd, hholds⟩ := h.current hopen
    have hholds := hholds not_false
    have hconn : Session e conn.chunks conn.out := h.sessions conn (by simp [hconns])
    have hsocket := recvData_socket hres
    obtain ⟨hsession, hnext⟩ := hconn.recvData hk hholds hpos hfits hres
    obtain ⟨events, hevents, hnoRecv⟩ := recvData_events e r hpos hholds.room
    have hclosed := recvData_closedFds hopen hres
    have hafter : connections (log ++ (c.recvData e r).events.map .channel) =
        ⟨conn.fd, conn.chunks ++ r.chunks,
          conn.out ++ dispatched (c.recvData e r).events⟩ :: conns := by
      rw [connections_append, hconns, hevents, List.map_cons, List.foldl_cons]
      simp only [recordConnection, receivedOn, if_pos hfd]
      rw [foldl_recordConnection_channel _ _ hnoRecv]
      rfl
    refine ⟨fun hnone ↦ absurd (hsocket.symm.trans hnone) hopen, ?_, ?_, fun _ ↦ ?_⟩
    · rw [openFd_append h.fd, trackFrom_channel _ hclosed, GepChannel.fd, GepChannel.fd, hsocket]
    · rw [hafter]
      intro conn' hmem
      rcases List.mem_cons.mp hmem with rfl | hmem
      · exact hsession
      · exact h.sessions conn' (by simp [hconns, hmem])
    · exact ⟨_, _, hafter, hfd.trans hsocket.symm, hnext.resolve_left⟩

theorem mono (h : ConnectionOk e c failed log) {failed' : Prop} (himp : failed → failed') :
    ConnectionOk e c failed' log := by
  refine ⟨h.len, h.fd, h.sessions, fun hopen ↦ ?_⟩
  obtain ⟨conn, conns, hconns, hfd, hholds⟩ := h.current hopen
  exact ⟨conn, conns, hconns, hfd, fun hnot ↦ hholds fun hfailed ↦ hnot (himp hfailed)⟩

end ConnectionOk

end GepChannel

/-! ## The client -/

def ClientPc.Failed : ClientPc → Prop
  | .received _ res => res < 0
  | _ => False

namespace GepClient

variable {e : Endpoint Msg} {s s' : GepClient} {log es : List (ClientEvent Msg)}

/-- The log tells what the channel of a client holds. -/
def Ok (e : Endpoint Msg) (s : GepClient) (log : List (ClientEvent Msg)) : Prop :=
  s.channel.ConnectionOk e s.pc.Failed log

theorem Ok.goOn (hs : s.Ok e log) (hchannel : s'.channel = s.channel)
    (hfailed : s.pc.Failed → s'.pc.Failed) : s'.Ok e (log ++ []) := by
  rw [List.append_nil, Ok, hchannel]
  exact GepChannel.ConnectionOk.mono hs hfailed

theorem Ok.step (hk : e.CallbacksKeep) {l : ClientLabel} (hs : s.Ok e log) (hloop : LoopOk s)
    (h : clientStep e s l = some (s', es)) : s'.Ok e (log ++ es) := by
  have hopened : ∀ env (s' : GepClient), s.channel.socket = -1 →
      s'.channel = (s.channel.openClientSocket env).chan →
        s'.Ok e (log ++ (s.channel.openClientSocket env).events) := by
    intro env s' hclosed hchannel
    rw [Ok, hchannel]
    exact GepChannel.ConnectionOk.opened hs hclosed env _
  cases clientStep_spec h with
  | start env hpc =>
      apply hopened env _ (hloop.idle hpc)
      unfold start
      dsimp only
      split <;> rfl
  | stop => exact hs.goOn rfl id
  | join => exact GepChannel.ConnectionOk.closed hs _
  | enter hpc | loopQuit _ hpc | loopClosed hpc | loop _ _ hpc | select _ _ _ hpc
    | recvQuit _ _ hpc | recvNone _ _ hpc | recvBegin _ _ hpc =>
      refine hs.goOn ?_ ?_
      · rfl
      · rw [hpc]
        exact False.elim
  | reconnect env hpc =>
      exact hopened env _ (hloop.socket (-1) (by rw [hpc]; rfl)).symm rfl
  | recv r socket res hpc hfits hres =>
      have hconnection : s.channel.ConnectionOk e False log := by
        apply GepChannel.ConnectionOk.mono hs
        rw [hpc]
        exact id
      exact hconnection.received hk hfits hres
  | failed => exact GepChannel.ConnectionOk.closed hs _
  | succeeded socket res hpc hres =>
      refine hs.goOn ?_ ?_
      · rfl
      · rw [hpc]
        intro hfailed
        exact absurd hfailed (Int.not_lt.mpr hres)

theorem ok_of_reaches (hk : e.CallbacksKeep) {stale : Buffer}
    (h : (clientMachine e stale).Reaches (fun _ _ _ ↦ True) s log) : s.Ok e log := by
  refine h.invariant ?_ fun hreach hs _ hstep ↦ hs.step hk (loopOk hreach) hstep
  refine ⟨fun _ ↦ rfl, rfl, by rintro _ ⟨⟩, fun hopen ↦ ?_⟩
  exact absurd rfl hopen

end GepClient

structure CleanReconnects (e : Endpoint Msg) (s : GepClient) (log : List (ClientEvent Msg)) :
    Prop where
  empty : s.channel.socket = -1 → s.channel.len = 0
  head : ∀ socket, s.pc = .head socket → socket = s.channel.socket
  descriptor : openFd log = some (if s.channel.socket = -1 then none else some s.channel.socket)
  connections : ∀ conn ∈ connections log, ∀ c : GepChannel, 0 ≤ c.socket → c.len = 0 →
    GepChannel.ChunksFit e c conn.chunks ∧
      conn.out = dispatched (GepChannel.recvAll e c conn.chunks).events

/-- In every run of a client: a closed channel is empty, the loop knows the
socket of the channel, one descriptor is open at a time, and what is dispatched
during a connection is what an untouched channel would dispatch for the bytes
of that connection. -/
theorem cleanReconnects (e : Endpoint Msg) (hk : e.CallbacksKeep) (stale : Buffer)
    {s : GepClient} {log : List (ClientEvent Msg)}
    (h : (clientMachine e stale).Reaches (fun _ _ _ ↦ True) s log) : CleanReconnects e s log := by
  have hs : s.channel.ConnectionOk e s.pc.Failed log := GepClient.ok_of_reaches hk h
  refine ⟨hs.len, fun socket hpc ↦ ?_, hs.fd, fun conn hmem c hsocket hlen ↦ ?_⟩
  · exact (loopOk h).socket socket (by rw [hpc]; rfl)
  · have hsession := hs.sessions conn hmem
    exact ⟨hsession.fits c hsocket hlen, hsession.isolated hk hsocket hlen⟩

/-- The first connection is refused.  The peer closes the second one in the
middle of a frame, and sends a whole one on the third. -/
def reconnectRun : List ClientLabel :=
  [.start ⟨3, true⟩, .start ⟨3, false⟩, .enter, .loop, .select (.ready fun _ ↦ true), .recvBegin,
    .recv (.data ((TestProtocol.frame ⟨.command4, [8, 7]⟩).take 13)), .recvEnd, .loop,
    .select (.ready fun _ ↦ true), .recvBegin, .recv (.data []), .recvEnd, .loop,
    .reconnect ⟨4, false⟩, .loop, .select (.ready fun _ ↦ true), .recvBegin,
    .recv (.data (TestProtocol.frame ⟨.command4, [8, 9]⟩)), .recvEnd]

theorem cleanReconnects_closedByPeer : ∃ s log,
    (clientMachine TestProtocol.endpoint TestProtocol.blank).runFrom (.new TestProtocol.blank)
        reconnectRun = some (s, log) ∧
      CleanReconnects TestProtocol.endpoint s log ∧ s.channel.socket = 4 ∧
      (connections log).map (fun conn ↦ (conn.fd, conn.chunks.flatten.length,
        conn.out.map Delivery.msg)) = [(4, 14, [⟨.command4, [8, 9]⟩]), (3, 13, []), (3, 0, [])] := by
  have hends : ((clientMachine TestProtocol.endpoint TestProtocol.blank).runFrom
      (.new TestProtocol.blank) reconnectRun).map (fun next ↦ (next.1.channel.socket,
        (connections next.2).map fun conn ↦ (conn.fd, conn.chunks.flatten.length,
          conn.out.map Delivery.msg))) =
      some (4, [(4, 14, [⟨.command4, [8, 9]⟩]), (3, 13, []), (3, 0, [])]) := by
    decide +kernel
  obtain ⟨⟨s, log⟩, hrun, hends⟩ := Option.map_eq_some_iff.mp hends
  obtain ⟨hsocket, hconnections⟩ := Prod.mk.inj hends
  exact ⟨s, log, hrun, cleanReconnects TestProtocol.endpoint TestProtocol.endpoint_callbacksKeep _
    (.run .init (.of_forall (fun _ _ _ ↦ trivial) _ _ _) hrun), hsocket, hconnections⟩

end Libgep
