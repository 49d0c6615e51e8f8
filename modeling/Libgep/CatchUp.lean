import Libgep.Waiting

/-!
# Catching up

A piece that is read from a stream has at least one byte.  Once a side has
read as many pieces of a connection as there were bytes in transit, it has
dispatched whatever had been sent on it, however the stream was cut and
whatever else was sent meanwhile.
-/

namespace Libgep

open StreamParser Transition

variable {κ Msg : Type*} {p : κ → GepProtocol Msg} {q : GepProtocol Msg} {t : Tcp}

/-! ## Pieces -/

/-- More pieces are read, and none of them is empty. -/
def ReadsOn (xs ys : List (List UInt8)) : Prop :=
  ∃ more, ys = xs ++ more ∧ ∀ bytes ∈ more, bytes ≠ []

namespace ReadsOn

variable {xs ys zs : List (List UInt8)}

theorem refl (xs : List (List UInt8)) : ReadsOn xs xs :=
  ⟨[], (List.append_nil xs).symm, List.forall_mem_nil _⟩

theorem trans (h : ReadsOn xs ys) (h' : ReadsOn ys zs) : ReadsOn xs zs := by
  obtain ⟨more, rfl, hmore⟩ := h
  obtain ⟨more', rfl, hmore'⟩ := h'
  exact ⟨more ++ more', List.append_assoc _ _ _, List.forall_mem_append.mpr ⟨hmore, hmore'⟩⟩

/-- `Recv` returns at most one piece. -/
theorem recv (xs : List (List UInt8)) (r : RawRecv) : ReadsOn xs (xs ++ r.chunks) := by
  refine ⟨r.chunks, rfl, fun bytes hmem ↦ ?_⟩
  rcases r with (- | ⟨b, rest⟩) | errno
  · cases hmem
  · rw [List.mem_singleton.mp hmem]
    exact List.cons_ne_nil b rest
  · cases hmem

theorem length_le (h : ReadsOn xs ys) :
    ys.length + xs.flatten.length ≤ xs.length + ys.flatten.length := by
  obtain ⟨more, rfl, hmore⟩ := h
  have hbytes : more.length ≤ more.flatten.length := by
    induction more with
    | nil => exact Nat.le_refl 0
    | cons bytes more ih =>
        obtain ⟨hfirst, hrest⟩ := List.forall_mem_cons.mp hmore
        have hpos := List.length_pos_iff_ne_nil.mpr hfirst
        have hmore := ih hrest
        rw [List.flatten_cons, List.length_append, List.length_cons]
        omega
  rw [List.length_append, List.flatten_append, List.length_append]
  omega

end ReadsOn

theorem Ledger.received_readsOn (l : Ledger) (fd : ℤ) (r : RawRecv) (id : ℤ) :
    ReadsOn (l.chunks id) ((l.received fd r).chunks id) := by
  unfold Ledger.received
  split
  · rename_i owner howner
    by_cases hid : id = owner
    · rw [hid]
      dsimp only
      rw [Function.update_self]
      exact .recv _ r
    · dsimp only
      rw [Function.update_of_ne hid]
      exact .refl _
  · exact .refl _

theorem Ledger.record_readsOn (l : Ledger) (ev : ArrayEvent Msg) (id : ℤ) :
    ReadsOn (l.chunks id) ((l.record ev).chunks id) := by
  cases ev with
  | accept on fd =>
      rw [Ledger.record]
      split_ifs <;> exact .refl _
  | channel id' ev =>
      cases ev with
      | recv fd size r => exact l.received_readsOn fd r id
      | _ => exact .refl _
  | _ => exact .refl _

/-- What the server reads of a client only grows. -/
theorem ledger_readsOn (log es : List (ArrayEvent Msg)) (id : ℤ) :
    ReadsOn ((ledger log).chunks id) ((ledger (log ++ es)).chunks id) := by
  rw [ledger_append]
  generalize ledger log = l
  induction es generalizing l with
  | nil => exact .refl _
  | cons ev es ih => exact (l.record_readsOn ev id).trans (ih (l.record ev))

theorem length_receivedOn (fd : ℤ) (r : RawRecv) (conns : List (Connection Msg)) :
    (receivedOn fd r conns).length = conns.length := by
  induction conns with
  | nil => rfl
  | cons conn conns ih =>
      rw [receivedOn]
      split_ifs
      · rfl
      · rw [List.length_cons, List.length_cons, ih]

/-- Every connection is still there, and more has been read from it. -/
def ConnectionsReadOn (conns conns' : List (Connection Msg)) : Prop :=
  ∀ conn older, conn :: older <:+ conns → ∃ conn' older', conn' :: older' <:+ conns' ∧
    older'.length = older.length ∧ ReadsOn conn.chunks conn'.chunks

namespace ConnectionsReadOn

variable {conns conns' conns'' : List (Connection Msg)}

theorem refl (conns : List (Connection Msg)) : ConnectionsReadOn conns conns :=
  fun conn older hsuffix ↦ ⟨conn, older, hsuffix, rfl, .refl _⟩

theorem trans (h : ConnectionsReadOn conns conns') (h' : ConnectionsReadOn conns' conns'') :
    ConnectionsReadOn conns conns'' := by
  intro conn older hsuffix
  obtain ⟨conn', older', hsuffix, hlength, hreads⟩ := h conn older hsuffix
  obtain ⟨conn'', older'', hsuffix, hlength', hreads'⟩ := h' conn' older' hsuffix
  exact ⟨conn'', older'', hsuffix, hlength'.trans hlength, hreads.trans hreads'⟩

/-- More is read from the last connection, or it dispatches a message. -/
theorem last {conn conn' : Connection Msg} (h : ReadsOn conn.chunks conn'.chunks)
    (conns : List (Connection Msg)) : ConnectionsReadOn (conn :: conns) (conn' :: conns) := by
  intro conn₁ older hsuffix
  rcases List.suffix_cons_iff.mp hsuffix with heq | hsuffix
  · cases heq
    exact ⟨conn', conns, List.suffix_rfl, rfl, h⟩
  · exact ⟨conn₁, older, hsuffix.trans (List.suffix_cons _ _), rfl, .refl _⟩

theorem receivedOn (fd : ℤ) (r : RawRecv) (conns : List (Connection Msg)) :
    ConnectionsReadOn conns (receivedOn fd r conns) := by
  induction conns with
  | nil => exact .refl _
  | cons conn conns ih =>
      rw [Libgep.receivedOn]
      split_ifs
      · exact .last (.recv _ r) conns
      · intro conn₁ older hsuffix
        rcases List.suffix_cons_iff.mp hsuffix with heq | hsuffix
        · cases heq
          exact ⟨conn, _, List.suffix_rfl, length_receivedOn fd r conns, .refl _⟩
        · obtain ⟨conn', older', hsuffix', hlength, hreads⟩ := ih conn₁ older hsuffix
          exact ⟨conn', older', hsuffix'.trans (List.suffix_cons _ _), hlength, hreads⟩

theorem record (conns : List (Connection Msg)) (ev : ClientEvent Msg) :
    ConnectionsReadOn conns (recordConnection conns ev) := by
  cases ev with
  | socket fd =>
      exact fun conn older hsuffix ↦
        ⟨conn, older, hsuffix.trans (List.suffix_cons _ _), rfl, .refl _⟩
  | close fd => exact .refl _
  | channel ev =>
      cases ev with
      | recv fd size r => exact .receivedOn fd r conns
      | dispatch d =>
          cases conns with
          | nil => exact .refl _
          | cons conn conns =>
              have hsame : ReadsOn conn.chunks { conn with out := conn.out ++ [d] }.chunks := .refl _
              exact .last hsame conns
      | _ => exact .refl _

end ConnectionsReadOn

/-- What a client reads of a connection only grows. -/
theorem connections_readOn (log es : List (ClientEvent Msg)) :
    ConnectionsReadOn (connections log) (connections (log ++ es)) := by
  rw [connections_append]
  generalize connections log = conns
  induction es generalizing conns with
  | nil => exact .refl _
  | cons ev es ih => exact (ConnectionsReadOn.record conns ev).trans (ih _)

/-! ## What has been sent -/

/-- Calls are added to the connections, and no connection that was opened
leads elsewhere than before. -/
structure Kernel.Grows (k k' : Kernel κ p q) : Prop where
  opened : ∀ i, k.opened i ≤ k'.opened i
  up : ∀ x, (k.links x).up.calls <+: (k'.links x).up.calls
  down : ∀ x, (k.links x).down.calls <+: (k'.links x).down.calls
  elsewhere : ∀ x, x.2 < k.opened x.1 → (k'.links x).elsewhere = (k.links x).elsewhere

namespace Kernel.Grows

variable {k k' k'' : Kernel κ p q}

theorem refl (k : Kernel κ p q) : k.Grows k :=
  ⟨fun _ ↦ le_rfl, fun _ ↦ List.prefix_rfl, fun _ ↦ List.prefix_rfl, fun _ _ ↦ rfl⟩

theorem trans (h : k.Grows k') (h' : k'.Grows k'') : k.Grows k'' :=
  ⟨fun i ↦ (h.opened i).trans (h'.opened i), fun x ↦ (h.up x).trans (h'.up x),
    fun x ↦ (h.down x).trans (h'.down x), fun x hx ↦
      (h'.elsewhere x (hx.trans_le (h.opened x.1))).trans (h.elsewhere x hx)⟩

theorem server (h : ServerKeeps k k') : k.Grows k' := by
  refine ⟨fun i ↦ (congrFun h.opened i).ge, fun x ↦ ?_, fun x ↦ ?_, fun x _ ↦ h.elsewhere x⟩
  · rw [h.calls x]
  · rw [h.down x]

variable [DecidableEq κ]

theorem client {i : κ} (h : ClientKeeps i k k') : k.Grows k' := by
  refine ⟨fun j ↦ ?_, fun x ↦ ?_, fun x ↦ ?_, fun x hx ↦ ?_⟩
  · by_cases hj : j = i
    · rw [hj]
      exact h.opens
    · exact (h.opened j hj).ge
  · rw [h.calls x]
  · rw [h.sent x]
  · obtain ⟨j, n⟩ := x
    by_cases hj : j = i
    · subst hj
      exact h.elsewhere n hx
    · rw [h.links j hj n]

theorem pushUp (x : κ × ℕ) (calls : List (Call (p x.1))) : k.Grows (k.pushUp x calls) := by
  refine ⟨fun _ ↦ le_rfl, fun y ↦ ?_, fun y ↦ ?_, fun y _ ↦ ?_⟩
  · by_cases hy : y = x
    · subst hy
      rw [Kernel.pushUp_links_self]
      exact List.prefix_append _ _
    · rw [k.pushUp_links_of_ne calls hy]
  · rw [k.pushUp_same (fun l ↦ l.down.calls) calls rfl]
  · exact k.pushUp_same Link.elsewhere calls rfl y

omit [DecidableEq κ] in
theorem pushDown (calls : κ × ℕ → List (Call q)) : k.Grows (k.pushDown calls) :=
  ⟨fun _ ↦ le_rfl, fun _ ↦ List.prefix_rfl, fun _ ↦ List.prefix_append _ _, fun _ _ ↦ rfl⟩

theorem reset (x : κ × ℕ) : k.Grows (k.reset x) := by
  refine ⟨fun _ ↦ le_rfl, fun y ↦ ?_, fun y ↦ ?_, fun y _ ↦ ?_⟩
  · rw [k.reset_same (fun l ↦ l.up.calls) fun _ ↦ rfl]
  · rw [k.reset_same (fun l ↦ l.down.calls) fun _ ↦ rfl]
  · exact k.reset_same Link.elsewhere (fun _ ↦ rfl) y

end Kernel.Grows

section System

variable [DecidableEq κ] {ec : κ → Endpoint Msg} {es : Endpoint Msg}
  {s s' : Net κ (protos ec) es.proto} {stale : κ → Buffer} {maxChannels port : ℤ}
  {heap : ℕ → GepChannel} {log evs : List (NetEvent κ Msg)}

theorem kernel_grows_step {l : NetLabel κ Msg} (h : netStep t ec es s l = some (s', evs)) :
    s.kernel.Grows s'.kernel := by
  cases netStep_spec h with
  | server l x next events kernel hnext hkernel => exact .server (Kernel.server_keeps hkernel)
  | client i l elsewhere next events kernel hnext hkernel =>
      exact .client (Kernel.client_keeps hkernel)
  | clientSend i m call n => exact Kernel.Grows.pushUp (p := protos ec) (i, n) [call]
  | unsent => exact .refl _
  | serverSend cast value env call hcall => exact .pushDown _
  | reset x => exact .reset x

theorem kernel_grows {a : GepChannelArray} {ls : List (NetLabel κ Msg)}
    (hrun : (netMachine t ec es stale a).runFrom s ls = some (s', evs)) :
    s.kernel.Grows s'.kernel := by
  induction ls generalizing s evs with
  | nil =>
      cases hrun
      exact .refl _
  | cons l ls ih =>
      obtain ⟨s₁, es₁, es₂, hstep, hrest, -⟩ := Machine.runFrom_cons hrun
      exact (kernel_grows_step hstep).trans (ih hrest)

/-! ## What has been dispatched -/

omit [DecidableEq κ] in
/-- If the two ends agree on all messages, and nothing was sent behind a
truncated frame, the messages `out` begin with all that were sent with
success. -/
def CaughtUp (e : Endpoint Msg) (pipe : Pipe q) (out : List (Delivery Msg)) : Prop :=
  (∀ call ∈ pipe.calls, call.sending.Ok q e) → Call.NothingBehindTruncated pipe.calls →
    (pipe.calls.filter Call.succeeded).map Call.delivery <+: out

omit [DecidableEq κ] in
theorem caughtUp_of_pieces {e : Endpoint Msg} (hmagic : q.magic = e.proto.magic)
    {pipe pipe' : Pipe q} {xs ys : List (List UInt8)}
    (hwire : Call.wire pipe.calls = xs.flatten ++ pipe.queue)
    (hwire' : Call.wire pipe'.calls = ys.flatten ++ pipe'.queue)
    (hcalls : pipe.calls <+: pipe'.calls) (hreads : ReadsOn xs ys)
    (hpieces : xs.length + pipe.queue.length ≤ ys.length) :
    CaughtUp e pipe (parse e ys.flatten).out := by
  intro hok hnothing
  have hlength : (Call.wire pipe.calls).length ≤ ys.flatten.length := by
    have hbytes := hreads.length_le
    rw [hwire, List.length_append]
    omega
  have hsent : Call.wire pipe.calls <+: Call.wire pipe'.calls := by
    obtain ⟨calls, hcalls⟩ := hcalls
    rw [← hcalls, Call.wire_append]
    exact List.prefix_append _ _
  have hread : ys.flatten <+: Call.wire pipe'.calls := ⟨pipe'.queue, hwire'.symm⟩
  have hprefix : Call.wire pipe.calls <+: ys.flatten :=
    List.prefix_of_prefix_length_le hsent hread hlength
  obtain ⟨left, hleft⟩ := Call.parse_wire hmagic hok hnothing
  have hout := run_out_prefix (frameParser e) hprefix
  change (parse e (Call.wire pipe.calls)).out <+: _ at hout
  rwa [hleft] at hout

/-- Once as many pieces have been read as there were bytes in transit, all
that had been sent with success has been dispatched, by the server and by each
client. -/
theorem caught_up (ht : t.InOrder) (hkc : ∀ i, (ec i).CallbacksKeep) (hks : es.CallbacksKeep)
    (h : (netMachine t ec es stale (.new maxChannels port heap)).Reaches
      (fun _ log l ↦ NetFresh log l) s log) {ls : List (NetLabel κ Msg)}
    (hfresh : (netMachine t ec es stale (.new maxChannels port heap)).Along
      (fun _ log l ↦ NetFresh log l) s log ls)
    (hrun : (netMachine t ec es stale (.new maxChannels port heap)).runFrom s ls = some (s', evs)) :
    (∀ x id, (s.kernel.links x).id = some id → (ec x.1).proto.magic = es.proto.magic →
        ((ledger (serverLog log)).chunks id).length + (s.kernel.links x).up.queue.length ≤
          ((ledger (serverLog (log ++ evs))).chunks id).length →
        CaughtUp es (s.kernel.links x).up (dispatchedTo id (serverLog (log ++ evs)))) ∧
      ∀ i newer conn older newer' conn' older', es.proto.magic = (ec i).proto.magic →
        connections (clientLog i log) = newer ++ conn :: older →
        connections (clientLog i (log ++ evs)) = newer' ++ conn' :: older' →
        older'.length = older.length → (s.kernel.links (i, older.length)).elsewhere = false →
        conn.chunks.length + (s.kernel.links (i, older.length)).down.queue.length ≤
          conn'.chunks.length →
        CaughtUp (ec i) (s.kernel.links (i, older.length)).down conn'.out := by
  have h' := h.run hfresh hrun
  have hview := netView ht hks hkc h
  have hview' := netView ht hks hkc h'
  have hgrows := kernel_grows hrun
  constructor
  · intro x id hid hmagic hpieces
    have hid' := link_id_kept ht hkc hks h hfresh hrun hid
    have hsession := (isolationOk hks (fresh_array (net_server h'))).session id
    rw [hsession.out]
    refine caughtUp_of_pieces hmagic (hview.read_up hid) (hview'.read_up hid') (hgrows.up x) ?_
      hpieces
    rw [serverLog_append]
    exact ledger_readsOn _ _ id
  · intro i newer conn older newer' conn' older' hmagic hconn hconn' hsame helsewhere hpieces
    have hsuffix : conn :: older <:+ connections (clientLog i log) :=
      hconn ▸ List.suffix_append _ _
    have hsuffix' : conn' :: older' <:+ connections (clientLog i (log ++ evs)) :=
      hconn' ▸ List.suffix_append _ _
    have hknown : older.length < s.kernel.opened i := by
      rw [(hview.client i).opened]
      exact hsuffix.length_le
    have helsewhere' : (s'.kernel.links (i, older'.length)).elsewhere = false := by
      rw [hsame, hgrows.elsewhere (i, older.length) hknown, helsewhere]
    have hok : (s'.clients i).Ok (ec i) (clientLog i (log ++ evs)) :=
      GepClient.ok_of_reaches (hkc i) (net_client h' i)
    have hwire' := (hview'.client i).wire conn' older' hsuffix' helsewhere'
    rw [hsame] at hwire'
    rw [(hok.sessions conn' (by simp [hconn'])).out]
    refine caughtUp_of_pieces hmagic ((hview.client i).wire conn older hsuffix helsewhere) hwire'
      (hgrows.down _) ?_ hpieces
    have hreads : ConnectionsReadOn (connections (clientLog i log))
        (connections (clientLog i (log ++ evs))) := by
      rw [clientLog_append]
      exact connections_readOn _ _
    obtain ⟨conn₁, older₁, hsuffix₁, hlength, hreads⟩ := hreads conn older hsuffix
    have hlength' : (conn₁ :: older₁).length = (conn' :: older').length := by
      simp [hlength, hsame]
    have heq := (List.suffix_of_suffix_length_le hsuffix₁ hsuffix' hlength'.le).eq_of_length hlength'
    cases heq
    exact hreads

end System

/-! ## Both sides read in pieces -/

/-- Both the server and the first client have read the header of a message. -/
def headersRun : List (NetLabel Bool TestProtocol.Message) :=
  twoConnectRun ++
    [.clientSend false ⟨⟨.command4, [8, 7]⟩, [8, 7], .acceptAll⟩,
      .serverSend (.all ⟨.command2, [8, 3]⟩) [8, 3] fun _ ↦ .acceptAll] ++
    serveRun 4 ((TestProtocol.frame ⟨.command4, [8, 7]⟩).take 12) ++
    readRun false ((TestProtocol.frame ⟨.command2, [8, 3]⟩).take 12)

/-- They go on while both send another message, of which a part is left. -/
def piecesRun : List (NetLabel Bool TestProtocol.Message) :=
  [.clientSend false ⟨⟨.command4, [8, 1]⟩, [8, 1], .acceptAll⟩,
    .serverSend (.all ⟨.command2, [8, 5]⟩) [8, 5] fun _ ↦ .acceptAll] ++
    serveRun 4 [8] ++ readRun false [8] ++
    serveRun 4 (7 :: (TestProtocol.frame ⟨.command4, [8, 1]⟩).take 3) ++
    readRun false (3 :: (TestProtocol.frame ⟨.command2, [8, 5]⟩).take 3)

theorem piecesRun_fresh : twoClients.Along (fun _ log l ↦ NetFresh log l) twoClients.init []
    (headersRun ++ piecesRun) := by
  decide +kernel

theorem caught_up_pieces : ∃ s log s' evs conn,
    twoClients.runFrom twoClients.init headersRun = some (s, log) ∧
      twoClients.runFrom s piecesRun = some (s', evs) ∧
      (dispatchedTo 0 (serverLog (log ++ evs))).map Delivery.msg = [⟨.command4, [8, 7]⟩] ∧
      ((s.kernel.links (false, 0)).up.calls.filter Call.succeeded).map Call.delivery <+:
        dispatchedTo 0 (serverLog (log ++ evs)) ∧
      connections (clientLog false (log ++ evs)) = [conn] ∧
      conn.out.map Delivery.msg = [⟨.command2, [8, 3]⟩] ∧
      ((s.kernel.links (false, 0)).down.calls.filter Call.succeeded).map Call.delivery <+:
        conn.out := by
  have hends : ((twoClients.runFrom twoClients.init headersRun).bind fun next ↦
      (twoClients.runFrom next.1 piecesRun).map fun last ↦
        ((dispatchedTo 0 (serverLog (next.2 ++ last.2))).map Delivery.msg,
          (connections (clientLog false (next.2 ++ last.2))).map fun conn ↦
            conn.out.map Delivery.msg)) =
      some ([⟨.command4, [8, 7]⟩], [[⟨.command2, [8, 3]⟩]]) := by
    decide +kernel
  have hcounts : ((twoClients.runFrom twoClients.init headersRun).bind fun next ↦
      (twoClients.runFrom next.1 piecesRun).map fun last ↦
        [[(next.1.kernel.links (false, 0)).up.queue.length,
          (next.1.kernel.links (false, 0)).down.queue.length,
          ((ledger (serverLog next.2)).chunks 0).length,
          ((ledger (serverLog (next.2 ++ last.2))).chunks 0).length],
          (connections (clientLog false next.2)).map fun conn ↦ conn.chunks.length,
          (connections (clientLog false (next.2 ++ last.2))).map fun conn ↦ conn.chunks.length]) =
      some [[2, 2, 1, 3], [1], [3]] := by
    decide +kernel
  have hlink : (twoClients.runFrom twoClients.init headersRun).map (fun next ↦
      ((next.1.kernel.links (false, 0)).id, (next.1.kernel.links (false, 0)).elsewhere,
        [decide (∀ call ∈ (next.1.kernel.links (false, 0)).up.calls,
            call.sending.Ok TestProtocol.proto TestProtocol.endpoint ∧ call.succeeded = true),
          decide (∀ call ∈ (next.1.kernel.links (false, 0)).down.calls,
            call.sending.Ok TestProtocol.proto TestProtocol.endpoint ∧ call.succeeded = true)])) =
      some (some 0, false, [true, true]) := by
    decide +kernel
  obtain ⟨⟨s, log⟩, hstart, hends⟩ := Option.bind_eq_some_iff.mp hends
  obtain ⟨⟨s', evs⟩, hrun, hends⟩ := Option.map_eq_some_iff.mp hends
  rw [hstart, Option.bind_some, hrun] at hcounts
  rw [hstart] at hlink
  simp only [Option.map_some, Option.some.injEq, Prod.mk.injEq, List.cons.injEq, and_true,
    decide_eq_true_eq] at hends hcounts hlink
  obtain ⟨hout, hconns⟩ := hends
  obtain ⟨⟨hup, hdown, hread, hread'⟩, hconn, hconn'⟩ := hcounts
  obtain ⟨hid, helsewhere, hcalls, hcasts⟩ := hlink
  obtain ⟨conn, hconn, hpieces⟩ := List.map_eq_singleton_iff.mp hconn
  obtain ⟨conn', hconns', hpieces'⟩ := List.map_eq_singleton_iff.mp hconn'
  rw [hconns', List.map_singleton, List.cons.injEq] at hconns
  have hcaught := caught_up Tcp.stream_inOrder (fun _ ↦ TestProtocol.endpoint_callbacksKeep)
    TestProtocol.endpoint_callbacksKeep (.run .init piecesRun_fresh.left hstart)
    (piecesRun_fresh.right hstart) hrun
  refine ⟨s, log, s', evs, conn', hstart, hrun, hout, ?_, hconns', hconns.1, ?_⟩
  · refine hcaught.1 (false, 0) 0 hid rfl ?_ (fun call hmem ↦ (hcalls call hmem).1)
      (nothingBehindTruncated_of_succeeded hcalls)
    change ((ledger (serverLog log)).chunks 0).length + (s.kernel.links (false, 0)).up.queue.length ≤
      ((ledger (serverLog (log ++ evs))).chunks 0).length
    rw [hread, hup, hread']
  · refine hcaught.2 false [] conn [] [] conn' [] rfl hconn hconns' rfl helsewhere ?_
      (fun call hmem ↦ (hcasts call hmem).1) (nothingBehindTruncated_of_succeeded hcasts)
    change conn.chunks.length + (s.kernel.links (false, 0)).down.queue.length ≤
      conn'.chunks.length
    rw [hpieces, hdown, hpieces']

end Libgep
