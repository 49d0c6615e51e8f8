import Libgep.Interrupts
import Libgep.Listening
import Libgep.NetworkDelivery

/-!
# Calls on descriptors

A number that has been closed may be given out again, so that a call on a
closed descriptor reaches a stranger.  The service loop makes none: whatever
it binds, waits for, reads, accepts from or closes is open at that time, and
the service socket is never the connection of a client.  That the `fd_set` has
room for a descriptor is checked nowhere: as long as all of them are below
`fdSetSize`, the loop goes on.
-/

namespace Libgep

open Transition

variable {Msg : Type*} {e : Endpoint Msg}

/-! ## Calls -/

/-- The descriptor that a call is made on. -/
def ArrayEvent.uses : ArrayEvent Msg → Option ℤ
  | .bind fd _ => some fd
  | .closeServer fd => some fd
  | .accept on _ => some on
  | .channel _ (.recv fd _ _) => some fd
  | .channel _ (.close fd) => some fd
  | .close fd => some fd
  | _ => none

/-- Each call is made on a descriptor that is open at that time. -/
def UsesOpen : Ledger → List (ArrayEvent Msg) → Prop
  | _, [] => True
  | l, ev :: es => (∀ fd, ev.uses = some fd → l.isOpen fd = true) ∧ UsesOpen (l.record ev) es

theorem usesOpen_append {l : Ledger} {xs ys : List (ArrayEvent Msg)} (hxs : UsesOpen l xs)
    (hys : UsesOpen (xs.foldl Ledger.record l) ys) : UsesOpen l (xs ++ ys) := by
  induction xs generalizing l with
  | nil => exact hys
  | cons ev xs ih => exact ⟨hxs.1, ih hxs.2 hys⟩

section Events

variable {l : Ledger}

@[simp] theorem opened_isOpen_self (l : Ledger) (fd : ℤ) : (l.opened fd).isOpen fd = true :=
  Function.update_self _ _ _

/-- A descriptor that is opened hides none of the others. -/
theorem opened_isOpen {fd fd' : ℤ} (h : l.isOpen fd' = true) : (l.opened fd).isOpen fd' = true := by
  by_cases hfd : fd' = fd
  · rw [hfd, opened_isOpen_self]
  · rwa [(l.opened_of_ne hfd).1]

/-- What a channel does while it dispatches is no call on a descriptor. -/
theorem usesOpen_channel (l : Ledger) (id : ℤ) {events : List (RecvEvent Msg)}
    (hrecv : NoRecv events) (hclosed : closedFds events = []) :
    UsesOpen l (events.map (.channel id)) := by
  induction events generalizing l with
  | nil => trivial
  | cons ev events ih =>
      obtain ⟨hev, hrecv⟩ := noRecv_cons.mp hrecv
      rw [closedFds_cons, List.append_eq_nil_iff] at hclosed
      refine ⟨fun fd huses ↦ ?_, ih _ hrecv hclosed.2⟩
      cases ev with
      | recv => exact (hev trivial).elim
      | close => cases hclosed.1
      | _ => cases huses

/-- Distinct descriptors may be closed one after the other. -/
theorem usesOpen_closes {fds : List ℤ} (hnodup : fds.Nodup)
    (hopen : ∀ fd ∈ fds, l.isOpen fd = true) :
    UsesOpen l (fds.map (@ArrayEvent.close Msg)) := by
  induction fds generalizing l with
  | nil => trivial
  | cons fd fds ih =>
      obtain ⟨hnot, hnodup⟩ := List.nodup_cons.mp hnodup
      obtain ⟨hfd, hfds⟩ := List.forall_mem_cons.mp hopen
      refine ⟨?_, ih hnodup fun fd' hmem ↦ ?_⟩
      · rintro _ ⟨⟩
        exact hfd
      · have hne : fd' ≠ fd := fun heq ↦ hnot (heq ▸ hmem)
        exact (l.closed_of_ne hne).1.trans (hfds fd' hmem)

theorem usesOpen_delClients (l : Ledger) (ids : List ℤ) :
    UsesOpen l (ids.map (@ArrayEvent.delClient Msg)) := by
  induction ids generalizing l with
  | nil => trivial
  | cons id ids ih => exact ⟨by rintro _ ⟨⟩, ih _⟩

theorem foldl_delClients (l : Ledger) (ids : List ℤ) :
    (ids.map (@ArrayEvent.delClient Msg)).foldl Ledger.record l = l := by
  induction ids with
  | nil => rfl
  | cons id ids ih => exact ih

end Events

/-- Destroyed channels that are not in use elsewhere close their sockets. -/
theorem GepChannelArray.releaseAll_closes {a : GepChannelArray} (hvector : a.vector = [])
    {addrs : List ℕ} (hnodup : addrs.Nodup)
    (hopen : ∀ addr ∈ addrs, (a.heap addr).socket ≠ -1) :
    (@releaseAll Msg [] a addrs).events =
      (addrs.map fun addr ↦ (a.heap addr).socket).map .close := by
  induction addrs generalizing a with
  | nil => rfl
  | cons addr addrs ih =>
      obtain ⟨hnot, hnodup⟩ := List.nodup_cons.mp hnodup
      obtain ⟨haddr, haddrs⟩ := List.forall_mem_cons.mp hopen
      have hrelease : @a.release Msg [] addr =
          ⟨(), a.withState addr { a.heap addr with socket := -1, len := 0 },
            [.close (a.heap addr).socket]⟩ := by
        rw [release, if_neg (by simp [hvector]), GepChannel.close, if_pos haddr]
        rfl
      have hheap : ∀ addr' ∈ addrs,
          (@a.release Msg [] addr).array.heap addr' = a.heap addr' := by
        intro addr' hmem
        rw [hrelease]
        exact withState_heap_of_ne _ _ fun heq ↦ hnot (heq ▸ hmem)
      have hrest := ih (a := (@a.release Msg [] addr).array) (by rw [release_vector, hvector]) hnodup
        fun addr' hmem ↦ by rw [hheap addr' hmem]; exact haddrs addr' hmem
      have hsockets : (addrs.map fun addr' ↦ ((@a.release Msg [] addr).array.heap addr').socket) =
          addrs.map fun addr' ↦ (a.heap addr').socket :=
        List.map_congr_left fun addr' hmem ↦ by rw [hheap addr' hmem]
      rw [releaseAll, hrest, hsockets, hrelease]
      rfl

/-! ## The service socket -/

structure ServiceOk (a : GepChannelArray) (l : Ledger) : Prop where
  /-- Only open descriptors belong to clients. -/
  owned : ∀ fd id, l.owner fd = some id → l.isOpen fd = true
  /-- The service socket is open, and no client's. -/
  service : 0 ≤ a.serverSocket →
    l.isOpen a.serverSocket = true ∧ l.owner a.serverSocket = none

namespace ServiceOk

variable {a a' : GepChannelArray} {l : Ledger}

theorem opened (h : ServiceOk a l) (fd : ℤ) : ServiceOk a (l.opened fd) :=
  ⟨fun fd' id howner ↦ opened_isOpen (h.owned fd' id howner),
    fun hopen ↦ ⟨opened_isOpen (h.service hopen).1, (h.service hopen).2⟩⟩

theorem closed (h : ServiceOk a l) {fd : ℤ} (hne : 0 ≤ a.serverSocket → a.serverSocket ≠ fd) :
    ServiceOk a (l.closed fd) := by
  refine ⟨fun fd' id howner ↦ ?_, fun hopen ↦ ?_⟩
  · have hfd : fd' ≠ fd := by
      rintro rfl
      simp [Ledger.closed] at howner
    rw [(l.closed_of_ne hfd).1]
    exact h.owned fd' id (l.owner_of_closed howner)
  · rw [(l.closed_of_ne (hne hopen)).1, (l.closed_of_ne (hne hopen)).2]
    exact h.service hopen

/-- The descriptor of an open connection is not the service socket. -/
theorem ne_of_owner (h : ServiceOk a l) {fd id : ℤ} (howner : l.owner fd = some id) :
    0 ≤ a.serverSocket → a.serverSocket ≠ fd := by
  rintro hopen rfl
  rw [(h.service hopen).2] at howner
  cases howner

theorem ne_of_closed (h : ServiceOk a l) {fd : ℤ} (hfd : l.isOpen fd = false) :
    0 ≤ a.serverSocket → a.serverSocket ≠ fd := by
  rintro hopen rfl
  rw [(h.service hopen).1] at hfd
  cases hfd

theorem owner_of_closed (h : ServiceOk a l) {fd : ℤ} (hfd : l.isOpen fd = false) :
    l.owner fd = none := by
  by_contra hne
  obtain ⟨id, hid⟩ := Option.ne_none_iff_exists'.mp hne
  rw [h.owned fd id hid] at hfd
  cases hfd

theorem openServerSocket (h : ServiceOk a l) {env : ListenEnv}
    (hfresh : env.socket ≠ -1 → l.isOpen env.socket = false) :
    ServiceOk (@a.openServerSocket Msg env).array
        ((@a.openServerSocket Msg env).events.foldl Ledger.record l) ∧
      UsesOpen l (@a.openServerSocket Msg env).events := by
  have hself : ∀ fd, some env.socket = some fd → (l.opened env.socket).isOpen fd = true := by
    rintro _ ⟨⟩
    exact opened_isOpen_self _ _
  have hfailed : env.socket ≠ -1 →
      ServiceOk a ((l.opened env.socket).closed env.socket) := fun hsocket ↦
    (h.opened env.socket).closed (h.ne_of_closed (hfresh hsocket))
  have hstarted : env.socket ≠ -1 → ∀ port, ServiceOk
      { a with port := port, serverSocket := env.socket } (l.opened env.socket) := fun hsocket _ ↦
    ⟨(h.opened env.socket).owned,
      fun _ ↦ ⟨opened_isOpen_self _ _, h.owner_of_closed (hfresh hsocket)⟩⟩
  unfold GepChannelArray.openServerSocket
  dsimp only
  split_ifs with hsocket hreuse hbind hlisten hport
  · exact ⟨h, trivial⟩
  · exact ⟨hfailed hsocket, by rintro _ ⟨⟩, hself, trivial⟩
  · exact ⟨hfailed hsocket, by rintro _ ⟨⟩, hself, hself, trivial⟩
  · exact ⟨hfailed hsocket, by rintro _ ⟨⟩, hself, hself, trivial⟩
  · split
    · exact ⟨hfailed hsocket, by rintro _ ⟨⟩, hself, hself, trivial⟩
    · exact ⟨hstarted hsocket _, by rintro _ ⟨⟩, hself, trivial⟩
  · exact ⟨hstarted hsocket a.port, by rintro _ ⟨⟩, hself, trivial⟩

theorem accepted (h : ServiceOk a l) (hservice : 0 ≤ a.serverSocket) (fd : ℤ) :
    ServiceOk a (l.record (.accept a.serverSocket fd : ArrayEvent Msg)) ∧
      UsesOpen l [(.accept a.serverSocket fd : ArrayEvent Msg)] := by
  refine ⟨?_, ?_, trivial⟩
  · simp only [Ledger.record]
    split_ifs
    · exact h
    · exact ⟨(h.opened fd).owned, (h.opened fd).service⟩
  · rintro _ ⟨⟩
    exact (h.service hservice).1

/-- The descriptor accepted last is given to a new client. -/
theorem added (h : ServiceOk a l) {fd : ℤ} (hfd : fd ≠ -1) (hfresh : l.isOpen fd = false)
    (stale : Buffer) :
    ServiceOk (a.withChannel fd stale)
      ([.accept a.serverSocket fd, (.addClient a.lastChannelId : ArrayEvent Msg)].foldl
        Ledger.record l) := by
  have hledger : [.accept a.serverSocket fd, (.addClient a.lastChannelId : ArrayEvent Msg)].foldl
      Ledger.record l = { l.opened fd with
        last := fd
        owner := Function.update l.owner fd (some a.lastChannelId) } := by
    simp only [List.foldl_cons, List.foldl_nil, Ledger.record, if_neg hfd]
    rfl
  rw [hledger]
  refine ⟨fun fd' id howner ↦ ?_, fun hopen ↦ ⟨opened_isOpen (h.service hopen).1, ?_⟩⟩
  · by_cases heq : fd' = fd
    · rw [heq]
      exact opened_isOpen_self _ _
    · dsimp only at howner
      rw [Function.update_of_ne heq] at howner
      exact opened_isOpen (h.owned fd' id howner)
  · exact (Function.update_of_ne (h.ne_of_closed hfresh hopen) _ _).trans (h.service hopen).2

/-- What closes descriptors keeps the rest. -/
theorem owned_closing (h : ServiceOk a l) {es : List (ArrayEvent Msg)}
    (hes : ∀ ev ∈ es, ev.IsClosing) (hservice : a'.serverSocket < 0) :
    ServiceOk a' (es.foldl Ledger.record l) := by
  have hstopped : ServiceOk a' l := ⟨h.owned, fun hopen ↦ absurd hopen (Int.not_le.mpr hservice)⟩
  clear h
  induction es generalizing l with
  | nil => exact hstopped
  | cons ev es ih =>
      obtain ⟨hev, hes⟩ := List.forall_mem_cons.mp hes
      apply ih hes
      cases ev with
      | closeServer fd | close fd =>
          exact hstopped.closed fun hopen ↦ absurd hopen (Int.not_le.mpr hservice)
      | delClient => exact hstopped
      | _ => exact hev.elim

end ServiceOk

/-! ## Steps -/

/-- `Accept` is called while the server listens. -/
def AcceptsOn (s : ArrayState) (l : ArrayLabel) : Prop :=
  ∀ fd stale, l = .acceptConnection fd stale → 0 ≤ s.array.serverSocket

section Step

variable {s s' : ArrayState} {log es : List (ArrayEvent Msg)} {l : ArrayLabel}

theorem served_usesOpen (hi : IsolationOk e s log) {addr : ℕ} (hmem : addr ∈ s.array.vector)
    (hserving : s.serving = some ⟨addr, none⟩) {r : RawRecv} {ret : ℤ}
    (hret : ((s.array.heap addr).recvData e r).ret = some ret) :
    UsesOpen (ledger log)
      (((s.array.heap addr).recvData e r).events.map (.channel (s.array.heap addr).id)) := by
  obtain ⟨hpos, hopen, -⟩ := hi.socket addr hmem
  have hnotFailed := s.not_failed (by simp [hserving]) addr
  obtain ⟨events, hevents, hnoRecv⟩ :=
    GepChannel.recvData_events e r hpos (hi.holds addr hmem hnotFailed).room
  have hclosed := GepChannel.recvData_closedFds (by omega) hret
  rw [hevents, closedFds_cons, List.append_eq_nil_iff] at hclosed
  rw [hevents, List.map_cons]
  refine ⟨?_, usesOpen_channel _ _ hnoRecv hclosed.2⟩
  rintro _ ⟨⟩
  exact hopen

theorem finish_succeeded {a : GepChannelArray} {addr : ℕ} (hmem : addr ∈ a.vector) {ret : ℤ}
    (hret : 0 ≤ ret) : @a.finish Msg addr ret = ⟨(), a, []⟩ := by
  rw [GepChannelArray.finish, GepChannelArray.remove, if_neg fun hand ↦ by omega]
  dsimp only
  rw [GepChannelArray.release, if_pos (.inl hmem)]
  rfl

/-- The sockets of the channels are distinct. -/
theorem IsolationOk.socket_inj (hi : IsolationOk e s log) (ha : ArrayOk s.array s.retained)
    {addr addr' : ℕ} (hmem : addr ∈ s.array.vector) (hmem' : addr' ∈ s.array.vector)
    (hsame : (s.array.heap addr).socket = (s.array.heap addr').socket) : addr = addr' := by
  have howns := (hi.socket addr hmem).2.2
  rw [hsame, (hi.socket addr' hmem').2.2] at howns
  exact ha.id_injective hmem hmem' (Option.some.inj howns).symm

theorem stopped_usesOpen (hs : ServiceOk s.array (ledger log)) (hi : IsolationOk e s log)
    (ha : ArrayOk s.array s.retained) (hserving : s.serving = none) :
    UsesOpen (ledger log) (@s.array.stop Msg s.retained).events := by
  have hretained : s.retained = [] := by
    rw [ArrayState.retained, hserving]
    rfl
  have hnodup : (s.array.vector.map fun addr ↦ (s.array.heap addr).socket).Nodup := by
    refine ha.nodup.map_on fun addr hmem addr' hmem' hsame ↦ ?_
    exact hi.socket_inj ha hmem hmem' hsame
  have hopen : ∀ l, (∀ addr ∈ s.array.vector, l.isOpen (s.array.heap addr).socket = true) →
      UsesOpen l (s.array.ids.map .delClient ++ (@GepChannelArray.releaseAll Msg []
        { (@s.array.closeServerSocket Msg).array with vector := [] } s.array.vector).events) := by
    intro l hl
    have hheap : (@s.array.closeServerSocket Msg).array.heap = s.array.heap := by
      unfold GepChannelArray.closeServerSocket
      split <;> rfl
    refine usesOpen_append (usesOpen_delClients _ _) ?_
    rw [foldl_delClients, GepChannelArray.releaseAll_closes rfl ha.nodup]
    · dsimp only
      rw [hheap]
      exact usesOpen_closes hnodup (List.forall_mem_map.mpr hl)
    · intro addr hmem
      have hpos := (hi.socket addr hmem).1
      dsimp only
      rw [hheap]
      omega
  have hsockets : ∀ addr ∈ s.array.vector,
      (ledger log).isOpen (s.array.heap addr).socket = true := fun addr hmem ↦
    (hi.socket addr hmem).2.1
  rw [hretained]
  rw [GepChannelArray.stop, List.append_assoc]
  by_cases hservice : 0 ≤ s.array.serverSocket
  · have hclose : (@s.array.closeServerSocket Msg).events = [.closeServer s.array.serverSocket] := by
      rw [GepChannelArray.closeServerSocket, if_pos hservice]
    rw [hclose]
    refine ⟨?_, hopen _ fun addr hmem ↦ ?_⟩
    · rintro _ ⟨⟩
      exact (hs.service hservice).1
    · have hne := hs.ne_of_owner (hi.socket addr hmem).2.2 hservice
      exact ((ledger log).closed_of_ne hne.symm).1.trans (hsockets addr hmem)
  · have hclose : (@s.array.closeServerSocket Msg).events = [] := by
      rw [GepChannelArray.closeServerSocket, if_neg hservice]
    rw [hclose]
    exact hopen _ hsockets

/-- A step of the array calls nothing on a closed descriptor. -/
theorem ServiceOk.step (hs : ServiceOk s.array (ledger log)) (hi : IsolationOk e s log)
    (ha : ArrayOk s.array s.retained) (hretained : ∀ addr ∈ s.retained, addr ∈ s.array.vector)
    (hfresh : FreshFds log l) (hserial : Serial s l) (haccepts : AcceptsOn s l)
    (h : arrayStep e s l = some (s', es)) :
    ServiceOk s'.array (ledger (log ++ es)) ∧ UsesOpen (ledger log) es := by
  rw [ledger_append]
  cases arrayStep_spec h with
  | openServerSocket env => exact hs.openServerSocket hfresh
  | refused stale => exact hs.accepted (haccepts _ stale rfl) (-1)
  | full fd stale => exact hs.accepted (haccepts fd stale rfl) fd
  | added fd stale hfd =>
      have huses : UsesOpen (ledger log) [(.accept s.array.serverSocket fd : ArrayEvent Msg)] :=
        (hs.accepted (haccepts fd stale rfl) fd).2
      exact ⟨hs.added hfd (hfresh hfd).2 stale, huses.1, by rintro _ ⟨⟩, trivial⟩
  | idle | picked => exact ⟨hs, trivial⟩
  | served addr r ret hserving hfits hret =>
      have hmem := hretained addr (by simp [ArrayState.retained, hserving])
      refine ⟨?_, served_usesOpen hi hmem hserving hret⟩
      obtain ⟨hpos, -, howns⟩ := hi.socket addr hmem
      have hnotFailed := s.not_failed (by simp [hserving]) addr
      have hledger := IsolationOk.ledger_served hpos (hi.holds addr hmem hnotFailed).room hret howns
      rw [ledger_append] at hledger
      rw [hledger]
      exact ⟨hs.owned, hs.service⟩
  | finished addr ret hserving =>
      have hmem := hretained addr (by simp [ArrayState.retained, hserving])
      obtain ⟨hpos, hopen, howns⟩ := hi.socket addr hmem
      by_cases hret : ret < 0
      · have hfinish := @GepChannelArray.finish_failed Msg s.array ha.nodup addr hmem ret hret
          (by omega)
        rw [hfinish]
        have hclosed := hs.closed (hs.ne_of_owner howns)
        refine ⟨⟨hclosed.owned, hclosed.service⟩, by rintro _ ⟨⟩, ?_, trivial⟩
        rintro _ ⟨⟩
        exact hopen
      · rw [finish_succeeded hmem (Int.not_lt.mp hret)]
        exact ⟨hs, trivial⟩
  | stopped =>
      refine ⟨hs.owned_closing (stop_closing _ _) ?_, stopped_usesOpen hs hi ha (hserial rfl)⟩
      obtain ⟨-, rest, -, ⟨-, hclosed, -⟩ | ⟨hneg, hsame, -⟩⟩ :=
        @s.array.stop_listening Msg s.retained
      · simp [hclosed]
      · simpa [hsame] using hneg

end Step

/-! ## The service loop -/

/-- The local variable `server_socket` of the loop. -/
def ServerPc.serverSocket : ServerPc → Option ℤ
  | .head serverSocket => some serverSocket
  | .selecting serverSocket _ => some serverSocket
  | .selected serverSocket _ => some serverSocket
  | .receiving serverSocket _ => some serverSocket
  | .received serverSocket _ => some serverSocket
  | .accepting serverSocket _ => some serverSocket
  | _ => none

/-- The local variable is the service socket of the array. -/
def GepServer.LoopOk (s : GepServer) : Prop :=
  ∀ fd, s.pc.serverSocket = some fd → fd = s.array.array.serverSocket ∧ 0 ≤ fd

theorem arrayStep_serverSocket {s s' : ArrayState} {l : ArrayLabel} {es : List (ArrayEvent Msg)}
    (h : arrayStep e s l = some (s', es)) (hstart : ∀ env, l ≠ .openServerSocket env)
    (hstop : l ≠ .stop) : s'.array.serverSocket = s.array.serverSocket := by
  cases arrayStep_spec h with
  | openServerSocket env => exact absurd rfl (hstart env)
  | stopped => exact absurd rfl hstop
  | finished addr ret => exact (@s.array.finish_serverSocket Msg addr ret).1
  | _ => rfl

theorem GepServer.LoopOk.step {s s' : GepServer} {l : ServerLabel} {es : List (ArrayEvent Msg)}
    (hs : s.LoopOk) (h : serverStep e s l = some (s', es)) : s'.LoopOk := by
  cases serverStep_spec h with
  | start env hpc =>
      unfold GepServer.start
      dsimp only
      split_ifs
      · simp [LoopOk, ServerPc.serverSocket, hpc]
      · rintro _ ⟨⟩
  | stop => exact hs
  | join | loopQuit | recvQuit | acceptQuit => rintro _ ⟨⟩
  | enter hpc =>
      intro fd hfd
      dsimp only at hfd
      split_ifs at hfd with hneg <;> cases hfd
      exact ⟨rfl, Int.not_lt.mp hneg⟩
  | select _ serverSocket _ hpc =>
      have hsocket := hs serverSocket (by rw [hpc]; rfl)
      intro fd hfd
      dsimp only at hfd
      split_ifs at hfd <;> cases hfd
      exact hsocket
  | loop serverSocket _ hpc | acceptNone serverSocket _ hpc | acceptBegin serverSocket _ hpc =>
      have hsocket := hs serverSocket (by rw [hpc]; rfl)
      rintro _ ⟨⟩
      exact hsocket
  | recvBegin serverSocket readFds array es hpc hctrl harray =>
      have hsocket := hs serverSocket (by rw [hpc]; rfl)
      rw [← arrayStep_serverSocket harray (by simp) (by simp)] at hsocket
      intro fd hfd
      dsimp only at hfd
      split_ifs at hfd <;> cases hfd <;> exact hsocket
  | recv _ serverSocket readFds array es hpc harray | recvEnd serverSocket readFds array es hpc harray =>
      have hsocket := hs serverSocket (by rw [hpc]; rfl)
      rw [← arrayStep_serverSocket harray (by simp) (by simp)] at hsocket
      rintro _ ⟨⟩
      exact hsocket
  | accept _ _ serverSocket readFds array es hpc harray =>
      have hsocket := hs serverSocket (by rw [hpc]; rfl)
      rw [← arrayStep_serverSocket harray (by simp) (by simp)] at hsocket
      intro fd hfd
      dsimp only at hfd
      split_ifs at hfd <;> cases hfd
      exact hsocket

theorem GepServer.loopOk {a : GepChannelArray}
    {ok : GepServer → List (ArrayEvent Msg) → ServerLabel → Prop} {s : GepServer}
    {log : List (ArrayEvent Msg)} (h : (serverMachine e a).Reaches ok s log) : s.LoopOk :=
  h.invariant (P := fun s _ ↦ s.LoopOk) (by rintro _ ⟨⟩) fun _ hs _ hstep ↦ hs.step hstep

section Runs

variable {maxChannels port : ℤ} {heap : ℕ → GepChannel} {s : GepServer}
  {log : List (ArrayEvent Msg)}

theorem serviceOk (hk : e.CallbacksKeep)
    (h : (serverMachine e (.new maxChannels port heap)).Reaches
      (fun _ log l ↦ FreshServerFds log l) s log) :
    ServiceOk s.array.array (ledger log) ∧ UsesOpen .empty log := by
  refine h.invariant (P := fun s log ↦ ServiceOk s.array.array (ledger log) ∧ UsesOpen .empty log)
    ?_ fun {s s' log es l} hreach hs hl hstep ↦ ?_
  · refine ⟨⟨by rintro _ _ ⟨⟩, fun hopen ↦ ?_⟩, trivial⟩
    exact absurd (show (0 : ℤ) ≤ -1 from hopen) (by decide)
  have harray := fresh_array hreach
  have hserial := harray.mono fun s _ l hl ↦ (⟨trivial, hl.2⟩ : True ∧ Serial s l)
  rcases serverStep_array hstep with ⟨hsame, rfl⟩ | ⟨l', hdrives, hnext⟩
  · rw [hsame, List.append_nil]
    exact hs
  · have hfresh : FreshFds log l' := by
      cases hdrives with
      | start env => exact hl
      | accept fd stale => exact hl
      | _ => trivial
    have hserving : Serial s.array l' := by
      rintro rfl
      cases hdrives with
      | join hpc => exact (serverOk rfl hreach).serving_eq_none (by simp [hpc])
    have haccepts : AcceptsOn s.array l' := by
      rintro fd stale rfl
      cases hdrives with
      | accept =>
          have hserver : serverStep e s (.accept fd stale) = some (s', es) := hstep
          have hpc : ∃ serverSocket, s.pc.serverSocket = some serverSocket := by
            cases serverStep_spec hserver with
            | accept _ _ serverSocket _ _ _ hpc => exact ⟨serverSocket, by rw [hpc]; rfl⟩
          obtain ⟨serverSocket, hsocket⟩ := hpc
          obtain ⟨rfl, hpos⟩ := GepServer.loopOk hreach serverSocket hsocket
          exact hpos
    obtain ⟨hservice, huses⟩ := hs.1.step (isolationOk hk harray) (arrayOk harray)
      (lifecycleOk hserial).serving hfresh hserving haccepts hnext
    exact ⟨hservice, usesOpen_append hs.2 huses⟩

/-- The largest descriptor in the set, as `GetVectorReadFds` counts it. -/
def GepChannelArray.getVectorMaxFds (a : GepChannelArray) (maxFds : ℤ) : ℤ :=
  a.vector.foldl
    (fun fds addr ↦
      let socket := (a.heap addr).socket
      if socket < 0 then fds else max socket fds)
    maxFds

theorem GepChannelArray.le_getVectorMaxFds (a : GepChannelArray) (maxFds : ℤ) :
    maxFds ≤ a.getVectorMaxFds maxFds ∧ ∀ addr ∈ a.vector, 0 ≤ (a.heap addr).socket →
      (a.heap addr).socket ≤ a.getVectorMaxFds maxFds := by
  unfold getVectorMaxFds
  induction a.vector generalizing maxFds with
  | nil => simp
  | cons addr addrs ih =>
      rw [List.foldl_cons]
      dsimp only
      split_ifs with hneg
      · refine ⟨(ih _).1, List.forall_mem_cons.mpr ⟨fun hpos ↦ ?_, (ih _).2⟩⟩
        exact absurd hneg (Int.not_lt.mpr hpos)
      · obtain ⟨hle, hrest⟩ := ih (max (a.heap addr).socket maxFds)
        exact ⟨(le_max_right _ _).trans hle,
          List.forall_mem_cons.mpr ⟨fun _ ↦ (le_max_left _ _).trans hle, hrest⟩⟩

/-- What a server does with descriptors. -/
structure DescriptorsOk (s : GepServer) (log : List (ArrayEvent Msg)) : Prop where
  uses : UsesOpen .empty log
  /-- The thread waits for the service socket and for all clients. -/
  watched : ∀ serverSocket passed, s.pc = .selecting serverSocket passed → ∀ fd,
    (passed fd = true ↔
      fd = serverSocket ∨ ∃ addr ∈ s.array.array.vector, (s.array.array.heap addr).socket = fd)
  /-- They are open, the set has room for them, and `select` looks as far as the
  last one of them. -/
  isOpen : ∀ serverSocket passed, s.pc = .selecting serverSocket passed → ∀ fd,
    passed fd = true → (ledger log).isOpen fd = true ∧ fd < fdSetSize ∧
      fd < s.array.array.getVectorMaxFds serverSocket + 1
  /-- There is no such set once a descriptor is too large for it. -/
  room : ∀ serverSocket, s.pc = .head serverSocket →
    ((s.readFds serverSocket).isSome ↔ serverSocket < fdSetSize ∧
      ∀ addr ∈ s.array.array.vector, (s.array.array.heap addr).socket < fdSetSize)
  apart : 0 ≤ s.array.array.serverSocket → ∀ addr ∈ s.array.array.vector,
    (s.array.array.heap addr).socket ≠ s.array.array.serverSocket
  distinct : (s.array.array.vector.map fun addr ↦ (s.array.array.heap addr).socket).Nodup

/-- In every run of a server, all calls are made on descriptors that are open,
`select` waits for the service socket and for every client, all of them open
and within the set, and no two of these are the same.  The loop builds a set
exactly if it has room for all of them. -/
theorem descriptorsOk (e : Endpoint Msg) (hk : e.CallbacksKeep) (maxChannels port : ℤ)
    (heap : ℕ → GepChannel) {s : GepServer} {log : List (ArrayEvent Msg)}
    (h : (serverMachine e (.new maxChannels port heap)).Reaches
      (fun _ log l ↦ FreshServerFds log l) s log) : DescriptorsOk s log := by
  obtain ⟨hservice, huses⟩ := serviceOk hk h
  have harray := fresh_array h
  have hi := isolationOk hk harray
  have ha := arrayOk harray
  have hwatched : ∀ serverSocket passed, s.pc = .selecting serverSocket passed → ∀ fd,
      (passed fd = true ↔ fd = serverSocket ∨
        ∃ addr ∈ s.array.array.vector, (s.array.array.heap addr).socket = fd) := by
    intro serverSocket passed hpc fd
    rw [GepServer.readFds_eq_true (GepServer.passedOk h serverSocket passed hpc)]
    refine or_congr_right (exists_congr fun addr ↦ and_congr_right fun hmem ↦ ?_)
    exact and_iff_right (hi.socket addr hmem).1
  refine ⟨huses, hwatched, fun serverSocket passed hpc fd hset ↦ ?_, fun serverSocket hpc ↦ ?_,
    fun hopen addr hmem ↦ ?_, ?_⟩
  · obtain ⟨hsame, hpos⟩ := GepServer.loopOk h serverSocket (by rw [hpc]; rfl)
    obtain ⟨hleast, hle⟩ := s.array.array.le_getVectorMaxFds serverSocket
    have hbuilt : (s.readFds serverSocket).isSome := by
      rw [GepServer.passedOk h serverSocket passed hpc]
      rfl
    obtain ⟨⟨-, hroom⟩, hrooms⟩ := GepServer.isSome_readFds.mp hbuilt
    rcases (hwatched serverSocket passed hpc fd).mp hset with rfl | ⟨addr, hmem, rfl⟩
    · refine ⟨?_, hroom, Int.lt_add_one_of_le hleast⟩
      rw [hsame] at hpos ⊢
      exact (hservice.service hpos).1
    · obtain ⟨hpos, hopen, -⟩ := hi.socket addr hmem
      exact ⟨hopen, hrooms addr hmem, Int.lt_add_one_of_le (hle addr hmem hpos)⟩
  · obtain ⟨-, hpos⟩ := GepServer.loopOk h serverSocket (by rw [hpc]; rfl)
    rw [GepServer.isSome_readFds, and_iff_right hpos]
  · exact (hservice.ne_of_owner (hi.socket addr hmem).2.2 hopen).symm
  · exact ha.nodup.map_on fun addr hmem addr' hmem' hsame ↦ hi.socket_inj ha hmem hmem' hsame

end Runs

/-- The second client is served to the end, and the loop waits again. -/
def waitingAgainRun : List ServerLabel := leavingRun ++ [.recvEnd, .acceptBegin, .loop]

theorem waitingAgainRun_fresh :
    (serverMachine TestProtocol.endpoint (.new 2 7 unallocated)).Along
      (fun _ log l ↦ FreshServerFds log l) (.new (.new 2 7 unallocated)) [] waitingAgainRun := by
  decide +kernel

theorem descriptorsOk_waitingAgain : ∃ s log passed,
    (serverMachine TestProtocol.endpoint (.new 2 7 unallocated)).runFrom
        (.new (.new 2 7 unallocated)) waitingAgainRun = some (s, log) ∧
      DescriptorsOk s log ∧ s.pc = .selecting 3 passed ∧
      (∀ fd, passed fd = true ↔ fd = 3 ∨ fd = 4) ∧ (ledger log).isOpen 5 = false := by
  have hends : ((serverMachine TestProtocol.endpoint (.new 2 7 unallocated)).runFrom
      (.new (.new 2 7 unallocated)) waitingAgainRun).bind (fun next ↦
        (serverStep TestProtocol.endpoint next.1 (.select (.error eintr))).map fun _ ↦
          (next.1.pc.serverSocket, next.1.array.array.vector.map fun addr ↦
            (next.1.array.array.heap addr).socket, (ledger next.2).isOpen 5)) =
      some (some 3, [4], false) := by
    decide +kernel
  obtain ⟨⟨s, log⟩, hrun, hends⟩ := Option.bind_eq_some_iff.mp hends
  obtain ⟨⟨s', es⟩, hstep, hends⟩ := Option.map_eq_some_iff.mp hends
  simp only [Prod.mk.injEq] at hends
  obtain ⟨hsocket, hsockets, hclosed⟩ := hends
  have hok := descriptorsOk TestProtocol.endpoint TestProtocol.endpoint_callbacksKeep 2 7 unallocated
    (.run .init waitingAgainRun_fresh hrun)
  cases serverStep_spec hstep with
  | select _ serverSocket passed hpc =>
      dsimp only at hpc hsocket
      rw [hpc] at hsocket
      cases hsocket
      refine ⟨s, log, passed, hrun, hok, hpc, fun fd ↦ ?_, hclosed⟩
      have hmem : (∃ addr ∈ s.array.array.vector, (s.array.array.heap addr).socket = fd) ↔
          fd ∈ s.array.array.vector.map fun addr ↦ (s.array.array.heap addr).socket :=
        List.mem_map.symm
      rw [hok.watched 3 passed hpc fd, hmem, hsockets, List.mem_singleton]

end Libgep
