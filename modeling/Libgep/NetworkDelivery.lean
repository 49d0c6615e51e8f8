import Libgep.Links

/-!
# Delivery between a server and its clients

In every run of a server and its clients, what one side dispatches is what the
bytes of the other side mean, as far as they have been read.  Nobody gets the
messages of somebody else, and nothing is lost at the end of a stream.
-/

namespace Libgep

open StreamParser Transition

variable {κ Msg : Type*} {p : κ → GepProtocol Msg} {q : GepProtocol Msg} {t : Tcp}

/-! ## What has been received -/

/-- The messages `out` are those of the bytes that have been read.  If the two
ends agree on all messages, and nothing was sent behind a truncated frame,
they are the first of those that were sent with success, and all of them once
everything has been read. -/
structure Received (e : Endpoint Msg) (pipe : Pipe q) (out : List (Delivery Msg)) : Prop where
  parsed : ∃ read, Call.wire pipe.calls = read ++ pipe.queue ∧ out = (parse e read).out
  inOrder : (∀ call ∈ pipe.calls, call.sending.Ok q e) → Call.NothingBehindTruncated pipe.calls →
    out <+: (pipe.calls.filter Call.succeeded).map Call.delivery
  whole : (∀ call ∈ pipe.calls, call.sending.Ok q e) → Call.NothingBehindTruncated pipe.calls →
    pipe.queue = [] → out = (pipe.calls.filter Call.succeeded).map Call.delivery

theorem received_of_wire {e : Endpoint Msg} (hmagic : q.magic = e.proto.magic) {pipe : Pipe q}
    {read : List UInt8} (hwire : Call.wire pipe.calls = read ++ pipe.queue) :
    Received e pipe (parse e read).out := by
  refine ⟨⟨read, hwire, rfl⟩, fun hok hnothing ↦ ?_, fun hok hnothing hqueue ↦ ?_⟩
  · obtain ⟨left, hleft⟩ := Call.parse_wire hmagic hok hnothing
    have hprefix : (parse e read).out <+: (parse e (Call.wire pipe.calls)).out :=
      run_out_prefix _ ⟨pipe.queue, hwire.symm⟩
    rwa [hleft] at hprefix
  · obtain ⟨left, hleft⟩ := Call.parse_wire hmagic hok hnothing
    rw [hqueue, List.append_nil] at hwire
    rw [← hwire, hleft]

/-! ## Steps of the server -/

section Server

variable [DecidableEq κ] {e : Endpoint Msg} {s s' : ArrayState} {log es : List (ArrayEvent Msg)}
  {k k' : Kernel κ p q} {x : κ × ℕ}

structure ArrayView (s : ArrayState) (log : List (ArrayEvent Msg)) (k : Kernel κ p q) : Prop where
  view : ServerView (ledger log) k
  ids : ∀ x id, (k.links x).id = some id → id < s.array.lastChannelId

theorem Ledger.received_error (l : Ledger) (fd : ℤ) (errno : ℕ) :
    l.received fd (.error errno) = l := by
  unfold Ledger.received
  split
  · simp [RawRecv.chunks]
  · rfl

omit [DecidableEq κ] in
/-- What a channel does while it dispatches is nothing to the kernel. -/
theorem foldlM_dispatching {E : Type*} {f : Kernel κ p q → E → Option (Kernel κ p q)}
    {c : RecvEvent Msg → E}
    (hf : ∀ ev : RecvEvent Msg, ¬ ev.IsRecv → ev.closed = none → f k (c ev) = some k)
    {events : List (RecvEvent Msg)} (hrecv : NoRecv events) (hclosed : closedFds events = []) :
    (events.map c).foldlM f k = some k := by
  induction events with
  | nil => rfl
  | cons ev events ih =>
      obtain ⟨hev, hrecv⟩ := noRecv_cons.mp hrecv
      rw [closedFds_cons, List.append_eq_nil_iff, Option.toList_eq_nil_iff] at hclosed
      rw [List.map_cons, List.foldlM_cons, hf ev hev hclosed.1]
      exact ih hrecv hclosed.2

theorem serverEvent_dispatching (id : ℤ) (ev : RecvEvent Msg) (hrecv : ¬ ev.IsRecv)
    (hclosed : ev.closed = none) : Kernel.serverEvent t x k (.channel id ev) = some k := by
  cases ev with
  | recv => exact (hrecv trivial).elim
  | close => cases hclosed
  | _ => rfl

theorem finish_closing (a : GepChannelArray) (addr : ℕ) (ret : ℤ) :
    ∀ ev ∈ (@a.finish Msg addr ret).events, ev.IsClosing := by
  refine List.forall_mem_append.mpr ⟨?_, isClosing_closes (GepChannelArray.release_events _ _ _)⟩
  unfold GepChannelArray.remove
  split_ifs <;> simp [ArrayEvent.IsClosing]

theorem closing_ne_addClient {es : List (ArrayEvent Msg)} (hes : ∀ ev ∈ es, ev.IsClosing) :
    ∀ ev ∈ es, ∀ id, ev ≠ .addClient id := by
  rintro _ hev id rfl
  exact hes _ hev

namespace ArrayView

theorem closing (hs : ArrayView s log k) (hes : ∀ ev ∈ es, ev.IsClosing)
    (hlast : s'.array.lastChannelId = s.array.lastChannelId)
    (hk : es.foldlM (Kernel.serverEvent t x) k = some k') : ArrayView s' (log ++ es) k' := by
  refine ⟨?_, fun y id hy ↦ ?_⟩
  · rw [ledger_append]
    exact hs.view.closing hes hk
  · rw [Kernel.server_id (closing_ne_addClient hes) hk] at hy
    rw [hlast]
    exact hs.ids y id hy

theorem openServerSocket (hs : ArrayView s log k) {env : ListenEnv}
    (hk : (@s.array.openServerSocket Msg env).events.foldlM (Kernel.serverEvent t x) k = some k') :
    ArrayView ⟨(@s.array.openServerSocket Msg env).array, s.serving⟩
      (log ++ (s.array.openServerSocket env).events) k' := by
  have hlast := (@s.array.openServerSocket_keeps Msg env).lastChannelId
  have hids : ∀ y id, (k'.links y).id = some id →
      id < (@s.array.openServerSocket Msg env).array.lastChannelId := by
    intro y id hy
    rw [Kernel.server_id _ hk] at hy
    · rw [hlast]
      exact hs.ids y id hy
    · rcases @s.array.openServerSocket_events Msg env with ⟨-, hes⟩ | ⟨-, hes | hes | hes⟩ <;>
        rw [hes] <;> simp
  refine ⟨?_, hids⟩
  have hopened := hs.view.opened env.socket
  have hfailed : ∀ ev ∈ [@ArrayEvent.closeServer Msg env.socket], ev.IsClosing := by
    simp [ArrayEvent.IsClosing]
  rw [ledger_append]
  rcases @s.array.openServerSocket_events Msg env with ⟨-, hes⟩ | ⟨-, hes | hes | hes⟩ <;>
    rw [hes] at hk ⊢
  · cases hk
    exact hs.view
  · have hclosed := hopened.closing (t := t) (x := x) hfailed hk
    exact hclosed
  · have hclosed := hopened.closing (t := t) (x := x) hfailed hk
    exact hclosed
  · cases hk
    exact hopened

theorem accepted (hs : ArrayView s log k) {server fd : ℤ} (hfd : fd ≠ -1)
    (hfresh : (ledger log).isOpen fd = false)
    (hk : Kernel.serverEvent t x k (.accept server fd) = some k') :
    ArrayView s (log ++ [.accept server fd]) k' ∧ k'.serverFds fd = some x ∧
      (k'.links x).id = none ∧ (ledger (log ++ [@ArrayEvent.accept Msg server fd])).last = fd := by
  have hledger : ledger (log ++ [@ArrayEvent.accept Msg server fd]) =
      { (ledger log).opened fd with last := fd } := by
    rw [ledger_append]
    exact if_neg hfd
  simp only [Kernel.serverEvent] at hk
  rw [if_neg hfd] at hk
  split_ifs at hk with hwaiting
  cases hk
  have hsame := k.serverAccept_same (x := x) Link.id (fun _ ↦ rfl) fd
  refine ⟨⟨?_, fun y id hy ↦ ?_⟩, Function.update_self _ _ _, ?_, ?_⟩
  · rw [hledger]
    exact hs.view.accepted hfresh hwaiting
  · rw [hsame] at hy
    exact hs.ids y id hy
  · rw [hsame]
    exact (hs.view.waiting x hwaiting).1
  · rw [hledger]

theorem added (hs : ArrayView s log k) {fd : ℤ} (hfd : fd ≠ -1)
    (hfresh : (ledger log).isOpen fd = false) (stale : Buffer)
    (hk : [@ArrayEvent.accept Msg s.array.serverSocket fd,
      .addClient s.array.lastChannelId].foldlM (Kernel.serverEvent t x) k = some k') :
    ArrayView ⟨s.array.withChannel fd stale, s.serving⟩
      (log ++ [.accept s.array.serverSocket fd, .addClient s.array.lastChannelId]) k' := by
  obtain ⟨k₁, hk₁, hk⟩ := Option.bind_eq_some_iff.mp hk
  cases hk
  obtain ⟨hs, hx, hnone, hlast⟩ := hs.accepted hfd hfresh hk₁
  have hnew : ∀ y, (k₁.links y).id ≠ some s.array.lastChannelId :=
    fun y hy ↦ lt_irrefl _ (hs.ids y _ hy)
  refine ⟨?_, fun y id hy ↦ ?_⟩
  · rw [List.append_cons, ledger_append]
    exact hs.view.added (by rwa [hlast]) hnone hnew
  · change id < s.array.lastChannelId + 1
    rw [Kernel.onLink_links] at hy
    split_ifs at hy
    · rw [← Option.some.inj hy]
      exact Int.lt_succ _
    · exact (hs.ids y id hy).trans (Int.lt_succ _)

theorem served (ht : t.InOrder) (hs : ArrayView s log k) (hi : IsolationOk e s log) {addr : ℕ}
    (hmem : addr ∈ s.array.vector) (hserving : s.serving = some ⟨addr, none⟩) {r : RawRecv}
    {ret : ℤ} (hret : ((s.array.heap addr).recvData e r).ret = some ret)
    (hk : (((s.array.heap addr).recvData e r).events.map
      (ArrayEvent.channel (s.array.heap addr).id)).foldlM (Kernel.serverEvent t x) k = some k') :
    ArrayView
      ⟨s.array.withState addr ((s.array.heap addr).recvData e r).chan, some ⟨addr, some ret⟩⟩
      (log ++ ((s.array.heap addr).recvData e r).events.map (.channel (s.array.heap addr).id))
      k' := by
  obtain ⟨hpos, -, howns⟩ := hi.socket addr hmem
  have hnotFailed := s.not_failed (by simp [hserving]) addr
  have hroom := (hi.holds addr hmem hnotFailed).room
  obtain ⟨events, hevents, hnoRecv⟩ := GepChannel.recvData_events e r hpos hroom
  have hclosed := GepChannel.recvData_closedFds (by omega) hret
  rw [hevents, closedFds_cons, List.append_eq_nil_iff] at hclosed
  have hids := Kernel.server_id (by simp) hk
  refine ⟨?_, fun y id hy ↦ hs.ids y id ((hids y).symm.trans hy)⟩
  rw [hevents, List.map_cons] at hk ⊢
  obtain ⟨k₁, hk₁, hk⟩ := Option.bind_eq_some_iff.mp hk
  rw [foldlM_dispatching (serverEvent_dispatching _) hnoRecv hclosed.2] at hk
  cases hk
  rw [ledger_append, List.foldl_cons, foldl_record_channel _ _ hnoRecv hclosed.2]
  change ServerView ((ledger log).received (s.array.heap addr).socket r) k'
  cases r with
  | error errno =>
      cases hk₁
      rw [Ledger.received_error]
      exact hs.view
  | data bytes =>
      simp only [Kernel.serverEvent] at hk₁
      split at hk₁
      · cases hk₁
      · split_ifs at hk₁ with hoffers
        cases hk₁
        rename_i y hy
        exact hs.view.received hy ((hs.view.owner _ y hy).2.symm.trans howns) (ht hoffers)

theorem step (ht : t.InOrder) (hs : ArrayView s log k) (hi : IsolationOk e s log)
    (hretained : ∀ addr ∈ s.retained, addr ∈ s.array.vector) {l : ArrayLabel}
    (hfresh : FreshFds log l) (h : arrayStep e s l = some (s', es))
    (hk : es.foldlM (Kernel.serverEvent t x) k = some k') : ArrayView s' (log ++ es) k' := by
  cases arrayStep_spec h with
  | openServerSocket env => exact hs.openServerSocket hk
  | refused stale =>
      cases hk
      refine ⟨?_, hs.ids⟩
      rw [ledger_append]
      exact hs.view
  | full fd stale hfd =>
      obtain ⟨next, hnext, hk⟩ := Option.bind_eq_some_iff.mp hk
      cases hk
      exact (hs.accepted hfd (hfresh hfd).2 hnext).1
  | added fd stale hfd => exact hs.added hfd (hfresh hfd).2 stale hk
  | idle | picked =>
      cases hk
      rw [List.append_nil]
      exact ⟨hs.view, hs.ids⟩
  | served addr r ret hserving hfits hret =>
      have hmem := hretained addr (by simp [ArrayState.retained, hserving])
      exact hs.served ht hi hmem hserving hret hk
  | finished addr ret =>
      exact hs.closing (finish_closing _ _ _) (s.array.finish_keeps addr ret).lastChannelId hk
  | stopped =>
      exact hs.closing (stop_closing _ _) (s.array.stop_keeps _).lastChannelId hk

end ArrayView

end Server

/-! ## Every run -/

def serverLog (log : List (NetEvent κ Msg)) : List (ArrayEvent Msg) :=
  log.filterMap fun
    | .server ev => some ev
    | _ => none

def clientLog [DecidableEq κ] (i : κ) (log : List (NetEvent κ Msg)) : List (ClientEvent Msg) :=
  log.filterMap fun
    | .client j ev => if j = i then some ev else none
    | _ => none

/-- The calls of `Send` on the server, as they returned. -/
def casts (log : List (NetEvent κ Msg)) : List (Cast Msg) :=
  log.filterMap fun
    | .cast cast => some cast
    | _ => none

/-- The kernel gives the server no descriptor that is open. -/
def NetFresh (log : List (NetEvent κ Msg)) : NetLabel κ Msg → Prop
  | .server l _ => FreshServerFds (serverLog log) l
  | _ => True

theorem serverLog_append (xs ys : List (NetEvent κ Msg)) :
    serverLog (xs ++ ys) = serverLog xs ++ serverLog ys :=
  List.filterMap_append

theorem clientLog_append [DecidableEq κ] (i : κ) (xs ys : List (NetEvent κ Msg)) :
    clientLog i (xs ++ ys) = clientLog i xs ++ clientLog i ys :=
  List.filterMap_append

theorem serverLog_map_server (es : List (ArrayEvent Msg)) :
    serverLog (κ := κ) (es.map .server) = es := by
  rw [serverLog, List.filterMap_map]
  exact List.filterMap_some

section Net

variable [DecidableEq κ] {ec : κ → Endpoint Msg} {es : Endpoint Msg} {stale : κ → Buffer}
  {maxChannels port : ℤ} {heap : ℕ → GepChannel} {s : Net κ (protos ec) es.proto}
  {log : List (NetEvent κ Msg)}

theorem net_server {a : GepChannelArray}
    (h : (netMachine t ec es stale a).Reaches (fun _ log l ↦ NetFresh log l) s log) :
    (serverMachine es a).Reaches (fun _ log l ↦ FreshServerFds log l) s.server (serverLog log) := by
  refine h.project (f := Net.server) rfl fun {s s' log evs l} _ hl hstep ↦ ?_
  cases netStep_spec hstep with
  | server l x next events kernel hnext hkernel =>
      refine .inr ⟨l, hl, ?_⟩
      change serverStep es s.server l = some (next, serverLog _)
      rw [serverLog_map_server]
      exact hnext
  | client => exact .inl ⟨rfl, by simp⟩
  | clientSend | unsent | serverSend | reset => exact .inl ⟨rfl, rfl⟩

theorem clientLog_map_client (i : κ) (events : List (ClientEvent Msg)) :
    clientLog i (events.map (.client i)) = events := by
  rw [clientLog, List.filterMap_map]
  exact (List.filterMap_congr fun ev _ ↦ if_pos rfl).trans List.filterMap_some

theorem clientLog_map_client_of_ne {i j : κ} (hj : j ≠ i) (events : List (ClientEvent Msg)) :
    clientLog j (events.map (.client i)) = [] := by
  rw [clientLog, List.filterMap_map]
  exact List.filterMap_eq_nil_iff.mpr fun ev _ ↦ if_neg (Ne.symm hj)

theorem net_client {a : GepChannelArray}
    (h : (netMachine t ec es stale a).Reaches (fun _ log l ↦ NetFresh log l) s log) (i : κ) :
    (clientMachine (ec i) (stale i)).Reaches (fun _ _ _ ↦ True) (s.clients i) (clientLog i log) := by
  have hinit : (netMachine t ec es stale a).init.clients i = (clientMachine (ec i) (stale i)).init := rfl
  refine h.project (f := fun s ↦ s.clients i) hinit fun {s s' log evs l} _ _ hstep ↦ ?_
  cases netStep_spec hstep with
  | client j l elsewhere next events kernel hnext hkernel =>
      by_cases hj : i = j
      · subst hj
        refine .inr ⟨l, trivial, ?_⟩
        change clientStep (ec i) (s.clients i) l =
          some (Function.update s.clients i next i, clientLog i _)
        rw [Function.update_self, clientLog_map_client]
        exact hnext
      · exact .inl ⟨Function.update_of_ne hj _ _, clientLog_map_client_of_ne hj events⟩
  | server => exact .inl ⟨rfl, by simp⟩
  | clientSend | unsent | serverSend | reset => exact .inl ⟨rfl, rfl⟩

theorem fresh_array {e : Endpoint Msg} {s : GepServer} {log : List (ArrayEvent Msg)}
    (h : (serverMachine e (.new maxChannels port heap)).Reaches
      (fun _ log l ↦ FreshServerFds log l) s log) :
    (arrayMachine e (.new maxChannels port heap)).Reaches
      (fun s log l ↦ FreshFds log l ∧ Serial s l) s.array log := by
  refine reaches_array rfl (fun {s log l l'} hok hdrives ↦ ?_) h
  cases hdrives with
  | start env => exact hok
  | accept fd stale => exact hok
  | _ => trivial

/-- A step of the server, which may be a step of its array. -/
theorem ArrayView.server_step {e : Endpoint Msg} (ht : t.InOrder) (hk : e.CallbacksKeep) {s s' : GepServer}
    {log events : List (ArrayEvent Msg)} {k k' : Kernel κ p q} {x : κ × ℕ} {l : ServerLabel}
    (hs : ArrayView s.array log k)
    (hreach : (serverMachine e (.new maxChannels port heap)).Reaches
      (fun _ log l ↦ FreshServerFds log l) s log) (hfresh : FreshServerFds log l)
    (h : serverStep e s l = some (s', events))
    (hkernel : events.foldlM (Kernel.serverEvent t x) k = some k') :
    ArrayView s'.array (log ++ events) k' := by
  have harray := fresh_array hreach
  have hserial := harray.mono fun s _ l hl ↦ (⟨trivial, hl.2⟩ : True ∧ Serial s l)
  rcases serverStep_array h with ⟨hsame, rfl⟩ | ⟨l', hdrives, hnext⟩
  · cases hkernel
    rw [hsame, List.append_nil]
    exact hs
  · refine hs.step ht (isolationOk hk harray) (lifecycleOk hserial).serving ?_ hnext hkernel
    cases hdrives with
    | start env => exact hfresh
    | accept fd stale => exact hfresh
    | _ => trivial

/-- The logs of all parties agree with the kernel. -/
structure NetView (s : Net κ (protos ec) es.proto) (log : List (NetEvent κ Msg)) : Prop where
  server : ArrayView s.server.array (serverLog log) s.kernel
  client : ∀ i, ClientView i (s.clients i).channel.fd (connections (clientLog i log)) s.kernel

namespace NetView

theorem init {a : GepChannelArray} : NetView (netMachine t ec es stale a).init [] := by
  refine ⟨⟨⟨?_, ?_, ?_, ?_, ?_, ?_, ?_, ?_, ?_, ?_⟩, ?_⟩, fun i ↦ ⟨rfl, ?_, ?_⟩⟩
  · rintro _ _ ⟨⟩
  · exact fun _ _ ↦ rfl
  · rintro _ _ _ ⟨⟩
  · rintro _ _ _ ⟨⟩
  · rintro _ ⟨⟩
  · rintro _ ⟨⟩
  · exact fun _ _ ↦ rfl
  · exact fun _ ↦ rfl
  · rintro _ _ ⟨⟩
  · exact fun _ _ ↦ rfl
  · rintro _ _ ⟨⟩
  · rintro _ _ ⟨⟩
  · intro conn rest hsuffix
    cases List.suffix_nil.mp hsuffix

/-- A client takes a step; `hok` and `hok'` say which descriptor it has open. -/
theorem client_step (ht : t.InOrder) (hs : NetView s log) {i : κ} {next : GepClient}
    {events : List (ClientEvent Msg)} {kernel : Kernel κ (protos ec) es.proto}
    {connects elsewhere : Bool} (hok : (s.clients i).Ok (ec i) (clientLog i log))
    (hok' : next.Ok (ec i) (clientLog i log ++ events))
    (hkernel : events.foldlM (Kernel.clientEvent t i connects elsewhere) s.kernel = some kernel) :
    NetView { s with clients := Function.update s.clients i next, kernel := kernel }
      (log ++ events.map (.client i)) := by
  obtain ⟨hserver, hclient⟩ := hs
  have htrack : trackFrom (s.clients i).channel.fd events = some next.channel.fd := by
    rw [← openFd_append hok.fd]
    exact hok'.fd
  obtain ⟨hview, hserver'⟩ := (hclient i).events ht hserver.view htrack hkernel
  have hkeeps := Kernel.client_keeps hkernel
  have hlog : serverLog (log ++ events.map (.client i)) = serverLog log := by
    simp [serverLog]
  refine ⟨⟨?_, fun x id hx ↦ ?_⟩, fun j ↦ ?_⟩
  · rw [hlog]
    exact hserver'
  · exact hserver.ids x id ((hkeeps.id x).symm.trans hx)
  · dsimp only
    by_cases hj : j = i
    · subst hj
      rw [Function.update_self, clientLog_append, clientLog_map_client, connections_append]
      exact hview
    · rw [Function.update_of_ne hj, clientLog_append, clientLog_map_client_of_ne hj,
        List.append_nil]
      exact (hclient j).congr (hkeeps.opened j hj) (hkeeps.clientFds j hj)
        (fun n ↦ congrArg Link.down (hkeeps.links j hj n))
        fun n ↦ congrArg Link.elsewhere (hkeeps.links j hj n)

/-- A thread of a client has sent on its connection. -/
theorem pushUp (hs : NetView s log) {i : κ} {n : ℕ} {fd : ℤ}
    (hfd : s.kernel.clientFds i fd = some n) (calls : List (Call (ec i).proto)) :
    NetView { s with kernel := s.kernel.pushUp (i, n) calls } log := by
  obtain ⟨hserver, hclient⟩ := hs
  have hid := Kernel.pushUp_id (k := s.kernel) (x := (i, n)) calls
  have hdown := Kernel.pushUp_same (k := s.kernel) (x := (i, n)) Link.down calls rfl
  have helsewhere := Kernel.pushUp_same (k := s.kernel) (x := (i, n)) Link.elsewhere calls rfl
  refine ⟨⟨hserver.view.pushUp (x := (i, n)) ((hclient i).known hfd) calls, fun x id hx ↦ ?_⟩,
    fun j ↦ ?_⟩
  · exact hserver.ids x id ((hid x).symm.trans hx)
  · exact (hclient j).congr rfl rfl (fun m ↦ hdown (j, m)) fun m ↦ helsewhere (j, m)

/-- A thread of the server has sent on some of its connections. -/
theorem pushDown (hs : NetView s log) (cast : Cast Msg) {calls : κ × ℕ → List (Call es.proto)}
    (hcalls : ∀ y, (∀ fd, s.kernel.serverFds fd ≠ some y) → calls y = []) :
    NetView { s with kernel := s.kernel.pushDown calls } (log ++ [.cast cast]) := by
  obtain ⟨hserver, hclient⟩ := hs
  have hlog : serverLog (log ++ [.cast cast]) = serverLog log := by
    simp [serverLog]
  have hlogs : ∀ i, clientLog i (log ++ [.cast cast]) = clientLog i log := by
    simp [clientLog]
  refine ⟨⟨?_, hserver.ids⟩, fun i ↦ ?_⟩
  · rw [hlog]
    refine hserver.view.pushDown fun y hy ↦ hcalls y fun fd hfd ↦ ?_
    exact absurd (hserver.view.known fd y hfd) (Nat.not_lt.mpr hy)
  · rw [hlogs]
    exact (hclient i).pushDown calls

/-- A connection breaks. -/
theorem reset (hs : NetView s log) {x : κ × ℕ} (hx : x.2 < s.kernel.opened x.1) :
    NetView { s with kernel := s.kernel.reset x } log := by
  obtain ⟨hserver, hclient⟩ := hs
  refine ⟨⟨hserver.view.reset hx, fun y id hy ↦ ?_⟩, fun j ↦ (hclient j).reset x⟩
  exact hserver.ids y id ((s.kernel.reset_same Link.id (fun _ ↦ rfl) y).symm.trans hy)

end NetView

theorem callsOn_eq_nil {call : SendCall} {m : ℕ → Sending Msg} {on : ℤ → Bool}
    (h : ∀ fd, on fd = false) : (call.callsOn m on : List (Call q)) = [] := by
  simp [SendCall.callsOn, h]

theorem netView (ht : t.InOrder) (hks : es.CallbacksKeep) (hkc : ∀ i, (ec i).CallbacksKeep)
    (h : (netMachine t ec es stale (.new maxChannels port heap)).Reaches
      (fun _ log l ↦ NetFresh log l) s log) : NetView s log := by
  refine h.invariant NetView.init fun {s s' log evs l} hreach hs hl hstep ↦ ?_
  have hnext : (netMachine t ec es stale (.new maxChannels port heap)).Reaches
      (fun _ log l ↦ NetFresh log l) s' (log ++ evs) := hreach.step hl hstep
  cases netStep_spec hstep with
  | server l x next events kernel hserver hkernel =>
      have hkeeps := Kernel.server_keeps hkernel
      have hlogs : ∀ i, clientLog i (log ++ events.map .server) = clientLog i log := by
        simp [clientLog]
      refine ⟨?_, fun i ↦ ?_⟩
      · rw [serverLog_append, serverLog_map_server]
        exact hs.server.server_step ht hks (net_server hreach) hl hserver hkernel
      · rw [hlogs]
        exact (hs.client i).congr (congrFun hkeeps.opened i) (congrFun hkeeps.clientFds i)
          (fun n ↦ hkeeps.down (i, n)) fun n ↦ hkeeps.elsewhere (i, n)
  | client i l elsewhere next events kernel hclient hkernel =>
      have hok := GepClient.ok_of_reaches (hkc i) (net_client hreach i)
      have hok' := GepClient.ok_of_reaches (hkc i) (net_client hnext i)
      dsimp only at hok'
      rw [Function.update_self, clientLog_append, clientLog_map_client] at hok'
      exact hs.client_step ht hok hok' hkernel
  | clientSend i m call n hfd =>
      rw [List.append_nil]
      exact hs.pushUp hfd [call]
  | unsent => rwa [List.append_nil]
  | serverSend cast value env call hcall =>
      refine hs.pushDown cast fun y hy ↦ callsOn_eq_nil fun fd ↦ ?_
      exact decide_eq_false (hy fd)
  | reset x hx =>
      rw [List.append_nil]
      exact hs.reset hx

/-! ## Delivery -/

/-- What the server has read of the connection of a client. -/
theorem NetView.read_up (hs : NetView s log) {x : κ × ℕ} {id : ℤ}
    (hid : (s.kernel.links x).id = some id) :
    Call.wire (s.kernel.links x).up.calls =
      ((ledger (serverLog log)).chunks id).flatten ++ (s.kernel.links x).up.queue := by
  have hwire := hs.server.view.wire x
  rwa [hid] at hwire

/-- What the server dispatches for a client was sent on its connection. -/
theorem received_up (ht : t.InOrder) (hkc : ∀ i, (ec i).CallbacksKeep) (hks : es.CallbacksKeep)
    (h : (netMachine t ec es stale (.new maxChannels port heap)).Reaches
      (fun _ log l ↦ NetFresh log l) s log) {x : κ × ℕ} {id : ℤ}
    (hid : (s.kernel.links x).id = some id) (hmagic : (ec x.1).proto.magic = es.proto.magic) :
    Received es (s.kernel.links x).up (dispatchedTo id (serverLog log)) := by
  have hisolation := isolationOk hks (fresh_array (net_server h))
  rw [(hisolation.session id).out]
  exact received_of_wire hmagic ((netView ht hks hkc h).read_up hid)

/-- What a client dispatches was sent on its connection. -/
theorem received_down (ht : t.InOrder) (hkc : ∀ i, (ec i).CallbacksKeep) (hks : es.CallbacksKeep)
    (h : (netMachine t ec es stale (.new maxChannels port heap)).Reaches
      (fun _ log l ↦ NetFresh log l) s log) {i : κ} {newer older : List (Connection Msg)}
    {conn : Connection Msg} (hconn : connections (clientLog i log) = newer ++ conn :: older)
    (helsewhere : (s.kernel.links (i, older.length)).elsewhere = false)
    (hmagic : es.proto.magic = (ec i).proto.magic) :
    Received (ec i) (s.kernel.links (i, older.length)).down conn.out := by
  have hview := netView ht hks hkc h
  have hok : (s.clients i).Ok (ec i) (clientLog i log) :=
    GepClient.ok_of_reaches (hkc i) (net_client h i)
  have hwire := (hview.client i).wire conn older (hconn ▸ List.suffix_append _ _) helsewhere
  rw [(hok.sessions conn (by simp [hconn])).out]
  exact received_of_wire hmagic hwire

/-- Nothing is dispatched for an id that no connection has. -/
theorem exists_link (ht : t.InOrder) (hkc : ∀ i, (ec i).CallbacksKeep) (hks : es.CallbacksKeep)
    (h : (netMachine t ec es stale (.new maxChannels port heap)).Reaches
      (fun _ log l ↦ NetFresh log l) s log) {id : ℤ}
    (hsome : dispatchedTo id (serverLog log) ≠ []) : ∃ x, (s.kernel.links x).id = some id := by
  have hisolation := isolationOk hks (fresh_array (net_server h))
  by_contra hnone
  apply hsome
  rw [(hisolation.session id).out,
    (netView ht hks hkc h).server.view.silent id fun x hid ↦ hnone ⟨x, hid⟩, List.flatten_nil,
    parse_nil]

/-- The server dispatches for each client what this client has sent on its one
connection, and nothing else. -/
theorem server_receives (ht : t.InOrder) (hkc : ∀ i, (ec i).CallbacksKeep) (hks : es.CallbacksKeep)
    (h : (netMachine t ec es stale (.new maxChannels port heap)).Reaches
      (fun _ log l ↦ NetFresh log l) s log) :
    (∀ x id, (s.kernel.links x).id = some id → (ec x.1).proto.magic = es.proto.magic →
        Received es (s.kernel.links x).up (dispatchedTo id (serverLog log))) ∧
      (∀ x y id, (s.kernel.links x).id = some id → (s.kernel.links y).id = some id → x = y) ∧
      ∀ id, dispatchedTo id (serverLog log) ≠ [] → ∃ x, (s.kernel.links x).id = some id :=
  ⟨fun _ _ hid hmagic ↦ received_up ht hkc hks h hid hmagic,
    (netView ht hks hkc h).server.view.id_inj, fun _ hsome ↦ exists_link ht hkc hks h hsome⟩

/-- A client dispatches on each of its connections to the server what the
server has sent on it. -/
theorem client_receives (ht : t.InOrder) (hkc : ∀ i, (ec i).CallbacksKeep) (hks : es.CallbacksKeep)
    (h : (netMachine t ec es stale (.new maxChannels port heap)).Reaches
      (fun _ log l ↦ NetFresh log l) s log) (i : κ) (hmagic : es.proto.magic = (ec i).proto.magic)
    (newer older : List (Connection Msg)) (conn : Connection Msg)
    (hconn : connections (clientLog i log) = newer ++ conn :: older)
    (helsewhere : (s.kernel.links (i, older.length)).elsewhere = false) :
    Received (ec i) (s.kernel.links (i, older.length)).down conn.out :=
  received_down ht hkc hks h hconn helsewhere hmagic

/-! ## The end of a stream -/

/-- If the two ends agree on all messages, and nothing was sent behind a
truncated frame, the messages `out` are all that were sent with success. -/
def Complete (e : Endpoint Msg) (pipe : Pipe q) (out : List (Delivery Msg)) : Prop :=
  (∀ call ∈ pipe.calls, call.sending.Ok q e) → Call.NothingBehindTruncated pipe.calls →
    out = (pipe.calls.filter Call.succeeded).map Call.delivery

theorem Received.complete {e : Endpoint Msg} {pipe : Pipe q} {out : List (Delivery Msg)}
    (h : Received e pipe out) (hqueue : pipe.queue = []) : Complete e pipe out :=
  fun hok hnothing ↦ h.whole hok hnothing hqueue

omit [DecidableEq κ] in
/-- Only a step that serves a channel lets one do anything. -/
theorem arrayStep_channel {e : Endpoint Msg} {s s' : ArrayState} {l : ArrayLabel}
    {events : List (ArrayEvent Msg)} (h : arrayStep e s l = some (s', events)) {id : ℤ}
    {ev : RecvEvent Msg} (hev : .channel id ev ∈ events) :
    ∃ addr r ret, s.serving = some ⟨addr, none⟩ ∧
      ((s.array.heap addr).recvData e r).ret = some ret ∧ (s.array.heap addr).id = id ∧
      ev ∈ ((s.array.heap addr).recvData e r).events ∧
      events = ((s.array.heap addr).recvData e r).events.map (.channel id) := by
  have hclosing : ∀ {es : List (ArrayEvent Msg)}, (∀ ev ∈ es, ev.IsClosing) →
      .channel id ev ∉ es := fun hes hmem ↦ hes _ hmem
  cases arrayStep_spec h with
  | openServerSocket env =>
      rcases @s.array.openServerSocket_events Msg env with ⟨-, hes⟩ | ⟨-, hes | hes | hes⟩ <;>
        simp [hes] at hev
  | refused | full | added | idle | picked => simp at hev
  | served addr r ret hserving hfits hret =>
      obtain ⟨ev', hmem, heq⟩ := List.mem_map.mp hev
      cases heq
      exact ⟨addr, r, ret, hserving, hret, rfl, hmem, rfl⟩
  | finished addr ret => exact absurd hev (hclosing (finish_closing _ _ _))
  | stopped => exact absurd hev (hclosing (stop_closing _ _))

omit [DecidableEq κ] in
/-- The only `Recv` of a `RecvData` comes first. -/
theorem recvData_recv {e : Endpoint Msg} {c : GepChannel} {r r' : RawRecv} {fd : ℤ} {size : ℕ}
    (hsocket : 0 ≤ c.socket) (hroom : CInt.toUnsigned 64 c.len < kMaxMsgLen)
    (h : .recv fd size r' ∈ (c.recvData e r).events) :
    ∃ events, (c.recvData e r).events = .recv c.socket size r' :: events := by
  obtain ⟨events, hevents, hnoRecv⟩ := GepChannel.recvData_events e r hsocket hroom
  rw [hevents] at h
  rcases List.mem_cons.mp h with heq | hmem
  · cases heq
    exact ⟨events, hevents⟩
  · exact absurd trivial (hnoRecv _ hmem)

theorem server_end (ht : t.InOrder) (hkc : ∀ i, (ec i).CallbacksKeep) (hks : es.CallbacksKeep)
    (h : (netMachine t ec es stale (.new maxChannels port heap)).Reaches
      (fun _ log l ↦ NetFresh log l) s log) {l : ServerLabel} {x : κ × ℕ} {next : GepServer}
    {events : List (ArrayEvent Msg)} {kernel : Kernel κ (protos ec) es.proto}
    (hnext : serverStep es s.server l = some (next, events))
    (hkernel : events.foldlM (Kernel.serverEvent t x) s.kernel = some kernel) {id fd : ℤ} {size : ℕ}
    (hev : .channel id (.recv fd size (.data [])) ∈ events) :
    ∃ y, (s.kernel.links y).id = some id ∧
      t.offers (s.kernel.links y).up.queue (s.kernel.links y).clientOpen
        (s.kernel.links y).wasReset [] = true := by
  have hview := (netView ht hks hkc h).server.view
  have harray := fresh_array (net_server h)
  have hi := isolationOk hks harray
  have hserial := harray.mono fun s _ l hl ↦ (⟨trivial, hl.2⟩ : True ∧ Serial s l)
  rcases serverStep_array hnext with ⟨-, rfl⟩ | ⟨l', -, harrayStep⟩
  · cases hev
  obtain ⟨addr, r, ret, hserving, hret, rfl, hmem, rfl⟩ := arrayStep_channel harrayStep hev
  have haddr : addr ∈ s.server.array.array.vector :=
    (lifecycleOk hserial).serving addr (by simp [ArrayState.retained, hserving])
  obtain ⟨hpos, -, howns⟩ := hi.socket addr haddr
  have hnotFailed := s.server.array.not_failed (by simp [hserving]) addr
  obtain ⟨rest, hrest⟩ := recvData_recv hpos (hi.holds addr haddr hnotFailed).room hmem
  rw [hrest, List.map_cons] at hkernel
  obtain ⟨k₁, hk₁, -⟩ := Option.bind_eq_some_iff.mp hkernel
  simp only [Kernel.serverEvent] at hk₁
  split at hk₁
  · cases hk₁
  · split_ifs at hk₁ with hoffers
    rename_i y hy
    exact ⟨y, (hview.owner _ y hy).2.symm.trans howns, hoffers⟩

theorem client_end (ht : t.InOrder) (hkc : ∀ i, (ec i).CallbacksKeep) (hks : es.CallbacksKeep)
    (h : (netMachine t ec es stale (.new maxChannels port heap)).Reaches
      (fun _ log l ↦ NetFresh log l) s log) {i : κ} {l : ClientLabel} {next : GepClient}
    {events : List (ClientEvent Msg)} {kernel : Kernel κ (protos ec) es.proto}
    {connects elsewhere : Bool} (hnext : clientStep (ec i) (s.clients i) l = some (next, events))
    (hkernel : events.foldlM (Kernel.clientEvent t i connects elsewhere) s.kernel = some kernel)
    {fd : ℤ} {size : ℕ} (hev : .channel (.recv fd size (.data [])) ∈ events) :
    ∃ conn older, connections (clientLog i log) = conn :: older ∧
      ((s.kernel.links (i, older.length)).elsewhere = false →
        t.offers (s.kernel.links (i, older.length)).down.queue
          ((s.kernel.links (i, older.length)).waiting ||
            (s.kernel.links (i, older.length)).serverOpen)
          (s.kernel.links (i, older.length)).wasReset [] = true) := by
  have hview := (netView ht hks hkc h).client i
  have hreach := net_client h i
  have hok : (s.clients i).Ok (ec i) (clientLog i log) := GepClient.ok_of_reaches (hkc i) hreach
  have hopened : ∀ o : GepChannel.Opened,
      .channel (.recv fd size (.data [])) ∉ (o.events : List (ClientEvent Msg)) := by
    simp [GepChannel.Opened.events]
  have hclosed : ∀ o : Option ℤ, .channel (.recv fd size (.data [])) ∉
      (o.map ClientEvent.close : Option (ClientEvent Msg)).toList := by
    simp
  cases clientStep_spec hnext with
  | start | reconnect => exact absurd hev (hopened _)
  | join | failed => exact absurd hev (hclosed _)
  | stop | enter | loopQuit | loopClosed | loop | select | recvQuit | recvNone | recvBegin
  | succeeded => cases hev
  | recv r socket res hpc hfits hres =>
      obtain ⟨ev, hmem, heq⟩ := List.mem_map.mp hev
      cases heq
      have hopen : (s.clients i).channel.socket ≠ -1 := (loopOk hreach).waiting (by rw [hpc]; trivial)
      have hpos : 0 ≤ (s.clients i).channel.socket := by
        by_contra hneg
        rw [GepChannel.recvData_of_neg (Int.not_le.mp hneg)] at hmem
        cases hmem
      obtain ⟨conn, older, hconns, hfd, hholds⟩ := hok.current hopen
      have hroom := (hholds (by rw [hpc]; exact id)).room
      obtain ⟨rest, hrest⟩ := recvData_recv hpos hroom hmem
      rw [hrest, List.map_cons] at hkernel
      obtain ⟨k₁, hk₁, -⟩ := Option.bind_eq_some_iff.mp hkernel
      simp only [Kernel.clientEvent] at hk₁
      split at hk₁
      · cases hk₁
      · rename_i n hn
        obtain ⟨-, conn', older', heq, -, rfl⟩ := hview.fd _ n hn
        refine ⟨conn', older', heq, fun helsewhere ↦ ?_⟩
        rw [helsewhere] at hk₁
        simp only [Bool.false_eq_true, if_false] at hk₁
        split_ifs at hk₁ with hoffers
        exact hoffers

/-- Before a side is told that its peer has closed the connection, it has
dispatched everything that the peer has sent, unless the connection was reset. -/
theorem nothing_lost_at_end (ht : t.InOrder) (hend : t.EndsLast)
    (hkc : ∀ i, (ec i).CallbacksKeep) (hks : es.CallbacksKeep)
    (h : (netMachine t ec es stale (.new maxChannels port heap)).Reaches
      (fun _ log l ↦ NetFresh log l) s log) {l : NetLabel κ Msg}
    {s' : Net κ (protos ec) es.proto} {evs : List (NetEvent κ Msg)}
    (hstep : netStep t ec es s l = some (s', evs)) :
    (∀ id fd size, .server (.channel id (.recv fd size (.data []))) ∈ evs →
        ∃ x, (s.kernel.links x).id = some id ∧
          ((ec x.1).proto.magic = es.proto.magic → (s.kernel.links x).wasReset = false →
            Complete es (s.kernel.links x).up (dispatchedTo id (serverLog log)))) ∧
      ∀ i fd size, .client i (.channel (.recv fd size (.data []))) ∈ evs →
        ∃ conn older, connections (clientLog i log) = conn :: older ∧
          (es.proto.magic = (ec i).proto.magic →
            (s.kernel.links (i, older.length)).elsewhere = false →
            (s.kernel.links (i, older.length)).wasReset = false →
            Complete (ec i) (s.kernel.links (i, older.length)).down conn.out) := by
  constructor
  · intro id fd size hev
    cases netStep_spec hstep with
    | server l x next events kernel hnext hkernel =>
        obtain ⟨ev, hmem, heq⟩ := List.mem_map.mp hev
        cases heq
        obtain ⟨y, hy, hoffers⟩ := server_end ht hkc hks h hnext hkernel hmem
        refine ⟨y, hy, fun hmagic hreset ↦ ?_⟩
        rw [hreset] at hoffers
        exact (received_up ht hkc hks h hy hmagic).complete (hend hoffers).2
    | client | clientSend | unsent | serverSend | reset => simp at hev
  · intro i fd size hev
    cases netStep_spec hstep with
    | client j l elsewhere next events kernel hnext hkernel =>
        obtain ⟨ev, hmem, heq⟩ := List.mem_map.mp hev
        cases heq
        obtain ⟨conn, older, hconns, hoffers⟩ := client_end ht hkc hks h hnext hkernel hmem
        refine ⟨conn, older, hconns, fun hmagic helsewhere hreset ↦ ?_⟩
        have hlast : connections (clientLog i log) = [] ++ conn :: older := hconns
        have hoffers := hoffers helsewhere
        rw [hreset] at hoffers
        exact (received_down ht hkc hks h hlast helsewhere hmagic).complete (hend hoffers).2
    | server | clientSend | unsent | serverSend | reset => simp at hev

end Net

/-! ## Two clients -/

theorem mem_serverLog {log : List (NetEvent κ Msg)} {ev : ArrayEvent Msg}
    (h : ev ∈ serverLog log) : .server ev ∈ log := by
  obtain ⟨ev', hmem, heq⟩ := List.mem_filterMap.mp h
  cases ev' <;> cases heq
  exact hmem

theorem mem_clientLog [DecidableEq κ] {i : κ} {log : List (NetEvent κ Msg)} {ev : ClientEvent Msg}
    (h : ev ∈ clientLog i log) : .client i ev ∈ log := by
  obtain ⟨ev', hmem, heq⟩ := List.mem_filterMap.mp h
  cases ev' with
  | client j ev' =>
      simp only at heq
      split_ifs at heq with hj
      cases heq
      rwa [← hj]
  | _ => cases heq

instance decidableNetFresh (log : List (NetEvent κ Msg)) :
    (l : NetLabel κ Msg) → Decidable (NetFresh log l)
  | .server l _ => decidableFreshServerFds (serverLog log) l
  | .client _ _ _ | .clientSend _ _ | .serverSend _ _ _ | .reset _ => isTrue trivial

def twoClients : Machine (Net Bool (protos fun _ ↦ TestProtocol.endpoint) TestProtocol.proto)
    (NetLabel Bool TestProtocol.Message) (NetEvent Bool TestProtocol.Message) :=
  netMachine .stream (fun _ ↦ TestProtocol.endpoint) TestProtocol.endpoint
    (fun _ ↦ TestProtocol.blank) (.new 2 7 unallocated)

/-- The server accepts the connection `x` on `fd`. -/
def acceptRun (x : Bool × ℕ) (fd : ℤ) : List (NetLabel Bool Msg) :=
  [ServerLabel.loop, .select (.ready (· == 3)), .recvBegin, .acceptBegin,
    .accept fd TestProtocol.blank].map (.server · x)

/-- The server reads `bytes` from `fd`. -/
def serveRun (fd : ℤ) (bytes : List UInt8) : List (NetLabel Bool Msg) :=
  [ServerLabel.loop, .select (.ready (· == fd)), .recvBegin, .recv (.data bytes), .recvEnd,
    .acceptBegin].map (.server · (false, 0))

/-- The client `i` reads `bytes`. -/
def readRun (i : Bool) (bytes : List UInt8) : List (NetLabel Bool Msg) :=
  [ClientLabel.loop, .select (.ready fun _ ↦ true), .recvBegin, .recv (.data bytes),
    .recvEnd].map (.client i · false)

def twoConnectRun : List (NetLabel Bool Msg) :=
  [.server (.start ⟨3, false, false, false, none⟩) (false, 0), .server .enter (false, 0),
    .client false (.start ⟨3, false⟩) false, .client true (.start ⟨3, false⟩) false,
    .client false .enter false, .client true .enter false] ++
    acceptRun (false, 0) 4 ++ acceptRun (true, 0) 5

/-- The clients send, the first one twice, and the server reads a part of a
frame from it before it turns to the other one. -/
def exchangeRun : List (NetLabel Bool TestProtocol.Message) :=
  [.clientSend false ⟨⟨.command4, [8, 7]⟩, [8, 7], .acceptAll⟩,
    .clientSend true ⟨⟨.command2, [8, 9]⟩, [8, 9], .acceptAll⟩] ++
    serveRun 4 ((TestProtocol.frame ⟨.command4, [8, 7]⟩).take 5) ++
    serveRun 5 (TestProtocol.frame ⟨.command2, [8, 9]⟩) ++
    [.clientSend false ⟨⟨.command1, [8, 1]⟩, [8, 1], .acceptAll⟩] ++
    serveRun 4 ((TestProtocol.frame ⟨.command4, [8, 7]⟩).drop 5 ++
      TestProtocol.frame ⟨.command1, [8, 1]⟩)

theorem exchangeRun_fresh : twoClients.Along (fun _ log l ↦ NetFresh log l) twoClients.init []
    (twoConnectRun ++ exchangeRun) := by
  decide +kernel

theorem server_receives_exchange : ∃ s log,
    twoClients.runFrom twoClients.init (twoConnectRun ++ exchangeRun) = some (s, log) ∧
      (dispatchedTo 0 (serverLog log)).map Delivery.msg =
        [⟨.command4, [8, 7]⟩, ⟨.command1, [8, 1]⟩] ∧
      (dispatchedTo 1 (serverLog log)).map Delivery.msg = [⟨.command2, [8, 9]⟩] ∧
      Received TestProtocol.endpoint (s.kernel.links (false, 0)).up
        (dispatchedTo 0 (serverLog log)) ∧
      Received TestProtocol.endpoint (s.kernel.links (true, 0)).up
        (dispatchedTo 1 (serverLog log)) := by
  have hends : (twoClients.runFrom twoClients.init (twoConnectRun ++ exchangeRun)).map
      (fun next ↦ ((next.1.kernel.links (false, 0)).id, (next.1.kernel.links (true, 0)).id,
        (dispatchedTo 0 (serverLog next.2)).map Delivery.msg,
        (dispatchedTo 1 (serverLog next.2)).map Delivery.msg)) =
      some (some 0, some 1, [⟨.command4, [8, 7]⟩, ⟨.command1, [8, 1]⟩],
        [⟨.command2, [8, 9]⟩]) := by
    decide +kernel
  obtain ⟨⟨s, log⟩, hrun, hends⟩ := Option.map_eq_some_iff.mp hends
  simp only [Prod.mk.injEq] at hends
  obtain ⟨hfirst, hsecond, hout, hout'⟩ := hends
  have hreceives := server_receives Tcp.stream_inOrder
    (fun _ ↦ TestProtocol.endpoint_callbacksKeep) TestProtocol.endpoint_callbacksKeep
    (.run .init exchangeRun_fresh hrun)
  exact ⟨s, log, hrun, hout, hout', hreceives.1 _ 0 hfirst rfl, hreceives.1 _ 1 hsecond rfl⟩

/-- The server sends to everybody and to the first client alone, and is
restarted when the first client has read that in two parts. -/
def castRun : List (NetLabel Bool TestProtocol.Message) :=
  [.serverSend (.all ⟨.command4, [8, 3]⟩) [8, 3] fun _ ↦ .acceptAll,
    .serverSend (.one ⟨.command2, [8, 4]⟩ 0) [8, 4] fun _ ↦ .acceptAll] ++
    readRun false ((TestProtocol.frame ⟨.command4, [8, 3]⟩).take 5) ++
    readRun false ((TestProtocol.frame ⟨.command4, [8, 3]⟩).drop 5 ++
      TestProtocol.frame ⟨.command2, [8, 4]⟩) ++
    [ServerLabel.stop, .loop, .join, .start ⟨3, false, false, false, none⟩, .enter].map
      (.server · (false, 0))

/-- The first client connects again, and gets another message. -/
def rejoinRun : List (NetLabel Bool TestProtocol.Message) :=
  castRun ++ readRun false [] ++
    [.client false .loop false, .client false (.reconnect ⟨4, false⟩) false] ++
    acceptRun (false, 1) 4 ++
    [.serverSend (.one ⟨.command1, [8, 5]⟩ 2) [8, 5] fun _ ↦ .acceptAll] ++
    readRun false (TestProtocol.frame ⟨.command1, [8, 5]⟩)

theorem rejoinRun_fresh : twoClients.Along (fun _ log l ↦ NetFresh log l) twoClients.init []
    (twoConnectRun ++ rejoinRun) := by
  decide +kernel

theorem client_receives_rejoin : ∃ s log older newer,
    twoClients.runFrom twoClients.init (twoConnectRun ++ rejoinRun) = some (s, log) ∧
      connections (clientLog false log) = [newer, older] ∧
      older.out.map Delivery.msg = [⟨.command4, [8, 3]⟩, ⟨.command2, [8, 4]⟩] ∧
      newer.out.map Delivery.msg = [⟨.command1, [8, 5]⟩] ∧
      Received TestProtocol.endpoint (s.kernel.links (false, 0)).down older.out ∧
      Received TestProtocol.endpoint (s.kernel.links (false, 1)).down newer.out := by
  have hends : (twoClients.runFrom twoClients.init (twoConnectRun ++ rejoinRun)).map
      (fun next ↦ ((next.1.kernel.links (false, 0)).elsewhere,
        (next.1.kernel.links (false, 1)).elsewhere,
        (connections (clientLog false next.2)).map fun conn ↦ conn.out.map Delivery.msg)) =
      some (false, false,
        [[⟨.command1, [8, 5]⟩], [⟨.command4, [8, 3]⟩, ⟨.command2, [8, 4]⟩]]) := by
    decide +kernel
  obtain ⟨⟨s, log⟩, hrun, hends⟩ := Option.map_eq_some_iff.mp hends
  simp only [Prod.mk.injEq] at hends
  obtain ⟨holder, hnewer, hends⟩ := hends
  obtain ⟨newer, rest, hconns, hout, hends⟩ := List.map_eq_cons_iff.mp hends
  obtain ⟨older, rest, rfl, hout', hends⟩ := List.map_eq_cons_iff.mp hends
  obtain rfl := List.map_eq_nil_iff.mp hends
  have hreceives := client_receives Tcp.stream_inOrder
    (fun _ ↦ TestProtocol.endpoint_callbacksKeep) TestProtocol.endpoint_callbacksKeep
    (.run .init rejoinRun_fresh hrun) false rfl
  exact ⟨s, log, older, newer, hrun, hconns, hout', hout,
    hreceives [newer] [] older hconns holder, hreceives [] [older] newer hconns hnewer⟩

/-- The first client leaves when the server has read one of its two messages. -/
def leaveRun : List (NetLabel Bool TestProtocol.Message) :=
  [.clientSend false ⟨⟨.command4, [8, 7]⟩, [8, 7], .acceptAll⟩,
    .clientSend false ⟨⟨.command1, [8, 1]⟩, [8, 1], .acceptAll⟩] ++
    serveRun 4 (TestProtocol.frame ⟨.command4, [8, 7]⟩) ++
    [.client false .stop false, .client false .loop false, .client false .join false] ++
    serveRun 4 (TestProtocol.frame ⟨.command1, [8, 1]⟩) ++
    (serveRun 4 []).take 3

theorem leaveRun_fresh : twoClients.Along (fun _ log l ↦ NetFresh log l) twoClients.init []
    (twoConnectRun ++ leaveRun) := by
  decide +kernel

theorem castRun_fresh : twoClients.Along (fun _ log l ↦ NetFresh log l) twoClients.init []
    (twoConnectRun ++ castRun ++ (readRun false []).take 3) := by
  decide +kernel

theorem nothing_lost_at_end_leave :
    (∃ s log s' evs,
      twoClients.runFrom twoClients.init (twoConnectRun ++ leaveRun) = some (s, log) ∧
        twoClients.step s (.server (.recv (.data [])) (false, 0)) = some (s', evs) ∧
        (dispatchedTo 0 (serverLog log)).map Delivery.msg =
          [⟨.command4, [8, 7]⟩, ⟨.command1, [8, 1]⟩] ∧
        Complete TestProtocol.endpoint (s.kernel.links (false, 0)).up
          (dispatchedTo 0 (serverLog log))) ∧
      ∃ s log s' evs conn,
        twoClients.runFrom twoClients.init
            (twoConnectRun ++ castRun ++ (readRun false []).take 3) = some (s, log) ∧
          twoClients.step s (.client false (.recv (.data [])) false) = some (s', evs) ∧
          connections (clientLog false log) = [conn] ∧
          conn.out.map Delivery.msg = [⟨.command4, [8, 3]⟩, ⟨.command2, [8, 4]⟩] ∧
          Complete TestProtocol.endpoint (s.kernel.links (false, 0)).down conn.out := by
  constructor
  · have hends : (twoClients.runFrom twoClients.init (twoConnectRun ++ leaveRun)).bind (fun next ↦
        (twoClients.step next.1 (.server (.recv (.data [])) (false, 0))).map fun last ↦
          (serverLog last.2, (next.1.kernel.links (false, 0)).id,
            (next.1.kernel.links (false, 0)).wasReset,
            (dispatchedTo 0 (serverLog next.2)).map Delivery.msg)) =
        some ([.channel 0 (.recv 4 1048576 (.data []))], some 0, false,
          [⟨.command4, [8, 7]⟩, ⟨.command1, [8, 1]⟩]) := by
      decide +kernel
    obtain ⟨⟨s, log⟩, hrun, hends⟩ := Option.bind_eq_some_iff.mp hends
    obtain ⟨⟨s', evs⟩, hstep, hends⟩ := Option.map_eq_some_iff.mp hends
    simp only [Prod.mk.injEq] at hends
    obtain ⟨hlog, hid, hreset, hout⟩ := hends
    have hreach := Machine.Reaches.run .init leaveRun_fresh hrun
    have hread : netStep .stream (fun _ ↦ TestProtocol.endpoint) TestProtocol.endpoint s
        (.server (.recv (.data [])) (false, 0)) = some (s', evs) := hstep
    have hend := nothing_lost_at_end Tcp.stream_inOrder Tcp.stream_endsLast
      (fun _ ↦ TestProtocol.endpoint_callbacksKeep) TestProtocol.endpoint_callbacksKeep hreach hread
    obtain ⟨x, hx, hcomplete⟩ :=
      hend.1 0 4 1048576 (mem_serverLog (hlog ▸ List.mem_singleton_self _))
    have hview := netView Tcp.stream_inOrder TestProtocol.endpoint_callbacksKeep
      (fun _ ↦ TestProtocol.endpoint_callbacksKeep) hreach
    obtain rfl := hview.server.view.id_inj x (false, 0) 0 hx hid
    exact ⟨s, log, s', evs, hrun, hstep, hout, hcomplete rfl hreset⟩
  · have hends : (twoClients.runFrom twoClients.init
        (twoConnectRun ++ castRun ++ (readRun false []).take 3)).bind (fun next ↦
          (twoClients.step next.1 (.client false (.recv (.data [])) false)).map fun last ↦
            (clientLog false last.2, (next.1.kernel.links (false, 0)).elsewhere,
              (next.1.kernel.links (false, 0)).wasReset,
              (connections (clientLog false next.2)).map fun conn ↦
                conn.out.map Delivery.msg)) =
        some ([.channel (.recv 3 1048576 (.data []))], false, false,
          [[⟨.command4, [8, 3]⟩, ⟨.command2, [8, 4]⟩]]) := by
      decide +kernel
    obtain ⟨⟨s, log⟩, hrun, hends⟩ := Option.bind_eq_some_iff.mp hends
    obtain ⟨⟨s', evs⟩, hstep, hends⟩ := Option.map_eq_some_iff.mp hends
    simp only [Prod.mk.injEq] at hends
    obtain ⟨hlog, helsewhere, hreset, hconns⟩ := hends
    obtain ⟨conn, hconn, hout⟩ := List.map_eq_singleton_iff.mp hconns
    have hread : netStep .stream (fun _ ↦ TestProtocol.endpoint) TestProtocol.endpoint s
        (.client false (.recv (.data [])) false) = some (s', evs) := hstep
    have hend := nothing_lost_at_end Tcp.stream_inOrder Tcp.stream_endsLast
      (fun _ ↦ TestProtocol.endpoint_callbacksKeep) TestProtocol.endpoint_callbacksKeep
      (.run .init castRun_fresh hrun) hread
    obtain ⟨conn', older, hconns', hcomplete⟩ :=
      hend.2 false 3 1048576 (mem_clientLog (hlog ▸ List.mem_singleton_self _))
    obtain ⟨rfl, rfl⟩ := List.cons_eq_cons.mp (hconn.symm.trans hconns')
    exact ⟨s, log, s', evs, conn, hrun, hstep, hconn, hout, hcomplete rfl helsewhere hreset⟩

end Libgep
