import Libgep.NetworkDelivery

/-!
# Peers of another protocol

The magic number tells the protocols apart that share a port.  A side whose
peer uses another magic number dispatches nothing of what the peer sends, and
drops the connection once a header has arrived.
-/

namespace Libgep

open CInt StreamParser Transition

variable {κ Msg : Type*} {p q : GepProtocol Msg}

/-! ## What the peer sends -/

namespace Call

/-- Nothing follows a send that broke off within the magic number. -/
def MagicWhole (calls : List (Call p)) : Prop :=
  calls.Pairwise fun k k' ↦ k.accepted ≠ [] → k.accepted.length < kOffsetTag → k'.accepted = []

/-- Whatever becomes of a send, it puts a part of a frame on the wire. -/
theorem accepted_header (k : Call p) :
    ∃ tag valueLen value, k.accepted <+: p.printHeader tag valueLen ++ value := by
  have hreturned := k.returned
  unfold GepChannel.sendMessage at hreturned
  cases hs : p.serialize k.sending.msg with
  | none =>
      simp only [hs, Option.some.injEq] at hreturned
      refine ⟨0, 0, [], ?_⟩
      rw [accepted, ← hreturned]
      exact List.nil_prefix
  | some s =>
      simp only [hs, GepChannel.sendString] at hreturned
      exact ⟨_, _, _, (GepChannel.sendTLV_spec (toSigned_natCast_le _ _) hreturned).accepted⟩

/-- The first bytes of a send are the magic number. -/
theorem uint32_accepted (k : Call p) (h : kOffsetTag ≤ k.accepted.length) (rest : List UInt8) :
    uint32 (k.accepted ++ rest) = p.magic := by
  obtain ⟨tag, valueLen, value, ys, hys⟩ := k.accepted_header
  calc
    uint32 (k.accepted ++ rest) = uint32 k.accepted := uint32_append h rest
    _ = uint32 (k.accepted ++ ys) := (uint32_append h ys).symm
    _ = uint32 (setUint32 p.magic ++ (setUint32 tag ++ setUint32 valueLen ++ value)) := by
      rw [hys, GepProtocol.printHeader]
      simp only [List.append_assoc]
    _ = p.magic := uint32_setUint32 _ _

theorem wire_magic {calls : List (Call p)} (hcalls : MagicWhole calls)
    (h : kOffsetTag ≤ (wire calls).length) : uint32 (wire calls) = p.magic := by
  induction calls with
  | nil => exact absurd h (Nat.not_succ_le_zero _)
  | cons k calls ih =>
      obtain ⟨hbehind, hpair⟩ := List.pairwise_cons.mp hcalls
      rw [wire, List.flatMap_cons] at h ⊢
      by_cases hnil : k.accepted = []
      · rw [hnil, List.nil_append] at h ⊢
        exact ih hpair h
      by_cases hshort : k.accepted.length < kOffsetTag
      · have hsilent : calls.flatMap accepted = [] :=
          List.flatMap_eq_nil_iff.mpr fun k' hk' ↦ hbehind k' hk' hnil hshort
        rw [hsilent, List.append_nil] at h
        exact absurd hshort (Nat.not_lt.mpr h)
      · exact k.uint32_accepted (Nat.not_lt.mp hshort) _

end Call

/-! ## What the other side makes of it -/

/-- With a foreign magic number a stream is malformed as soon as there is a
header. -/
theorem parse_foreign {e : Endpoint Msg} (hmagic : p.magic ≠ e.proto.magic)
    {calls : List (Call p)} (hcalls : Call.MagicWhole calls) {xs : List UInt8}
    (hxs : xs <+: Call.wire calls) :
    parse e xs = ⟨[], if xs.length < kHdrLen then some xs else none⟩ := by
  have hhdrLen := kHdrLen_eq
  split_ifs with hshort
  · exact run_wait _ (if_pos hshort)
  · obtain ⟨ys, hys⟩ := hxs
    have hword : uint32 xs = p.magic := by
      rw [← uint32_append (by omega) ys, hys]
      apply Call.wire_magic hcalls
      rw [← hys, List.length_append, kOffsetTag]
      omega
    apply run_fail
    have hlook : frameLook e xs = .fail := by
      unfold frameLook
      rw [if_neg hshort]
      exact if_pos (.inl (hword ▸ hmagic))
    exact hlook

/-- Nothing of what was sent is dispatched, and from a connection that is
`kept` no header has been read. -/
structure Ignored (pipe : Pipe p) (out : List (Delivery Msg)) (kept : Prop) : Prop where
  nothing : out = []
  short : kept → (Call.wire pipe.calls).length < pipe.queue.length + kHdrLen

theorem ignored_of_wire {e : Endpoint Msg} (hmagic : p.magic ≠ e.proto.magic) {pipe : Pipe p}
    (hcalls : Call.MagicWhole pipe.calls) {read : List UInt8} {kept : Prop}
    (hwire : Call.wire pipe.calls = read ++ pipe.queue)
    (hkept : kept → (parse e read).left ≠ none) : Ignored pipe (parse e read).out kept := by
  have hparse := parse_foreign hmagic hcalls ⟨pipe.queue, hwire.symm⟩
  rw [hparse] at hkept ⊢
  refine ⟨rfl, fun h ↦ ?_⟩
  have hshort : read.length < kHdrLen := by
    by_contra hnot
    exact hkept h (if_neg hnot)
  rw [hwire, List.length_append]
  omega

section System

variable [DecidableEq κ] {t : Tcp} {ec : κ → Endpoint Msg} {es : Endpoint Msg}
  {s : Net κ (protos ec) es.proto} {stale : κ → Buffer} {maxChannels port : ℤ}
  {heap : ℕ → GepChannel} {log : List (NetEvent κ Msg)}

/-- Between sides with different magic numbers no message is dispatched, and
at the head of its loop neither side keeps a connection that it has read a
header from. -/
theorem foreign_magic_ignored (ht : t.InOrder) (hkc : ∀ i, (ec i).CallbacksKeep)
    (hks : es.CallbacksKeep)
    (h : (netMachine t ec es stale (.new maxChannels port heap)).Reaches
      (fun _ log l ↦ NetFresh log l) s log) :
    (∀ x id, (s.kernel.links x).id = some id → (ec x.1).proto.magic ≠ es.proto.magic →
        Call.MagicWhole (s.kernel.links x).up.calls →
          Ignored (s.kernel.links x).up (dispatchedTo id (serverLog log))
            (id ∈ s.server.array.array.ids ∧ ∃ serverSocket, s.server.pc = .head serverSocket)) ∧
      ∀ i newer older conn, connections (clientLog i log) = newer ++ conn :: older →
        es.proto.magic ≠ (ec i).proto.magic →
        (s.kernel.links (i, older.length)).elsewhere = false →
        Call.MagicWhole (s.kernel.links (i, older.length)).down.calls →
          Ignored (s.kernel.links (i, older.length)).down conn.out
            (newer = [] ∧ (s.clients i).channel.socket ≠ -1 ∧
              ∃ socket, (s.clients i).pc = .head socket) := by
  have hview := netView ht hks hkc h
  constructor
  · intro x id hid hmagic hcalls
    have hserver := net_server h
    have hi := isolationOk hks (fresh_array hserver)
    rw [(hi.session id).out]
    apply ignored_of_wire hmagic hcalls (hview.read_up hid)
    rintro ⟨hmem, serverSocket, hpc⟩
    obtain ⟨addr, haddr, rfl⟩ := s.server.array.array.mem_ids.mp hmem
    have hserving := (serverOk rfl hserver).serving_eq_none (by simp [hpc])
    have hholds := hi.holds addr haddr fun ⟨ret, _, hsome⟩ ↦ by
      rw [hserving] at hsome
      cases hsome
    simp [hholds.left]
  · intro i newer older conn hconn hmagic helsewhere hcalls
    have hok : (s.clients i).Ok (ec i) (clientLog i log) :=
      GepClient.ok_of_reaches (hkc i) (net_client h i)
    have hwire := (hview.client i).wire conn older (hconn ▸ List.suffix_append _ _) helsewhere
    rw [(hok.sessions conn (by simp [hconn])).out]
    apply ignored_of_wire hmagic hcalls hwire
    rintro ⟨rfl, hopen, socket, hpc⟩
    obtain ⟨conn', conns, hconns, -, hholds⟩ := hok.current hopen
    obtain ⟨rfl, rfl⟩ := List.cons.inj (hconns.symm.trans hconn)
    have hleft := (hholds (by simp [hpc, ClientPc.Failed])).left
    simp [hleft]

end System

/-! ## An ordinary client and a foreign one -/

/-- The test protocol under another magic number. -/
def foreignEndpoint : Endpoint TestProtocol.Message :=
  { TestProtocol.endpoint with
    proto := { TestProtocol.proto with magic := makeTag 'r' 'f' 'l' 'a' } }

def mixedEndpoints (i : Bool) : Endpoint TestProtocol.Message :=
  if i then foreignEndpoint else TestProtocol.endpoint

theorem mixedEndpoints_callbacksKeep (i : Bool) : (mixedEndpoints i).CallbacksKeep := by
  cases i <;> exact TestProtocol.endpoint_callbacksKeep

def mixedClients : Machine (Net Bool (protos mixedEndpoints) TestProtocol.proto)
    (NetLabel Bool TestProtocol.Message) (NetEvent Bool TestProtocol.Message) :=
  netMachine .stream mixedEndpoints TestProtocol.endpoint (fun _ ↦ TestProtocol.blank)
    (.new 2 7 unallocated)

def foreignFrame (msg : TestProtocol.Message) : List UInt8 :=
  foreignEndpoint.proto.printHeader (TestProtocol.getTag msg) (.ofNat msg.fields.length) ++ msg.fields

/-- Everybody sends, and everything is read. -/
def mixedRun : List (NetLabel Bool TestProtocol.Message) :=
  twoConnectRun ++
    [.clientSend false ⟨⟨.command4, [8, 7]⟩, [8, 7], .acceptAll⟩,
      .clientSend true ⟨⟨.command4, [8, 9]⟩, [8, 9], .acceptAll⟩,
      .serverSend (.all ⟨.command4, [8, 3]⟩) [8, 3] fun _ ↦ .acceptAll] ++
    serveRun 5 (foreignFrame ⟨.command4, [8, 9]⟩) ++
    serveRun 4 (TestProtocol.frame ⟨.command4, [8, 7]⟩) ++
    readRun false (TestProtocol.frame ⟨.command4, [8, 3]⟩) ++
    readRun true (TestProtocol.frame ⟨.command4, [8, 3]⟩)

theorem mixedRun_fresh : mixedClients.Along (fun _ log l ↦ NetFresh log l) mixedClients.init []
    mixedRun := by
  decide +kernel

theorem Call.magicWhole_of_length {p : GepProtocol Msg} {calls : List (Call p)}
    (h : calls.length = 1) : MagicWhole calls := by
  obtain ⟨call, rfl⟩ := List.length_eq_one_iff.mp h
  exact List.pairwise_singleton _ _

theorem foreign_magic_ignored_mixed : ∃ s log conn foreign,
    mixedClients.runFrom mixedClients.init mixedRun = some (s, log) ∧
      (dispatchedTo 0 (serverLog log)).map Delivery.msg = [⟨.command4, [8, 7]⟩] ∧
      connections (clientLog false log) = [conn] ∧
      conn.out.map Delivery.msg = [⟨.command4, [8, 3]⟩] ∧
      s.server.array.array.ids = [0] ∧ ((ledger (serverLog log)).chunks 1).flatten.length = 14 ∧
      Ignored (s.kernel.links (true, 0)).up (dispatchedTo 1 (serverLog log))
        (1 ∈ s.server.array.array.ids ∧ ∃ serverSocket, s.server.pc = .head serverSocket) ∧
      connections (clientLog true log) = [foreign] ∧ foreign.chunks.flatten.length = 14 ∧
      (s.clients true).channel.socket = -1 ∧
      Ignored (s.kernel.links (true, 0)).down foreign.out
        (@List.nil (Connection TestProtocol.Message) = [] ∧ (s.clients true).channel.socket ≠ -1 ∧
          ∃ socket, (s.clients true).pc = .head socket) := by
  have hends : (mixedClients.runFrom mixedClients.init mixedRun).map (fun next ↦
      ((dispatchedTo 0 (serverLog next.2)).map Delivery.msg,
        (connections (clientLog false next.2)).map fun conn ↦ conn.out.map Delivery.msg)) =
      some ([⟨.command4, [8, 7]⟩], [[⟨.command4, [8, 3]⟩]]) := by
    decide +kernel
  have hcounts : (mixedClients.runFrom mixedClients.init mixedRun).map (fun next ↦
      ([next.1.server.array.array.ids, [(next.1.clients true).channel.socket],
          (next.1.kernel.links (true, 0)).id.toList], (next.1.kernel.links (true, 0)).elsewhere,
        [[((ledger (serverLog next.2)).chunks 1).flatten.length,
          (next.1.kernel.links (true, 0)).up.calls.length,
          (next.1.kernel.links (true, 0)).down.calls.length],
          (connections (clientLog true next.2)).map fun conn ↦ conn.chunks.flatten.length])) =
      some ([[0], [-1], [1]], false, [[14, 1, 1], [14]]) := by
    decide +kernel
  obtain ⟨⟨s, log⟩, hrun, hends⟩ := Option.map_eq_some_iff.mp hends
  rw [hrun] at hcounts
  simp only [Option.map_some, Option.some.injEq, Prod.mk.injEq, List.cons.injEq] at hends hcounts
  obtain ⟨hout, hconns⟩ := hends
  obtain ⟨⟨hids, ⟨hsocket, -⟩, hid, -⟩, helsewhere, ⟨hread, hup, hdown, -⟩, hforeign, -⟩ := hcounts
  obtain ⟨conn, hconn, hout'⟩ := List.map_eq_singleton_iff.mp hconns
  obtain ⟨foreign, hforeign, hread'⟩ := List.map_eq_singleton_iff.mp hforeign
  have hignored := foreign_magic_ignored Tcp.stream_inOrder mixedEndpoints_callbacksKeep
    TestProtocol.endpoint_callbacksKeep (.run .init mixedRun_fresh hrun)
  have hid := Option.toList_eq_singleton_iff.mp hid
  have hdiffer : foreignEndpoint.proto.magic ≠ TestProtocol.endpoint.proto.magic := by
    decide
  exact ⟨s, log, conn, foreign, hrun, hout, hconn, hout', hids, hread,
    hignored.1 (true, 0) 1 hid hdiffer (Call.magicWhole_of_length hup), hforeign,
    hread', hsocket, hignored.2 true [] [] foreign hforeign hdiffer.symm helsewhere
      (Call.magicWhole_of_length hdown)⟩

end Libgep
