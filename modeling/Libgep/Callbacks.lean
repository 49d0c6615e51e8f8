import Libgep.CastOrder
import Mathlib.Algebra.BigOperators.Group.Finset.Basic
import Mathlib.Data.Set.Finite.Basic

/-!
# Calls of callbacks

What a server or a client hands to its callbacks has been unpacked by the
protocol, whatever the bytes are.  Over all its clients, a server hands over
each message as often as it was sent to it with success.
-/

namespace Libgep

open CInt StreamParser Transition

variable {κ Msg : Type*}

/-! ## What is dispatched -/

/-- There is a callback for the tag, and the message has been unserialized
into a new object for it, from a value that is short enough. -/
structure Endpoint.Unpacks (e : Endpoint Msg) (d : Delivery Msg) : Prop where
  supported : (e.ops d.tag).isSome
  unserialize : e.proto.unserialize d.value (e.proto.getMessage d.tag) = some d.msg
  short : d.value.length < kMaxMsgLen - kHdrLen

section Receiving

variable {e : Endpoint Msg}

open GepChannel

theorem dispatched_recvTLV {c : GepChannel} {tag : UInt32} {valueLen : ℕ}
    (hshort : valueLen < kMaxMsgLen - kHdrLen) (value : ℕ) :
    ∀ d ∈ dispatched (recvTLV e c tag valueLen value).events, e.Unpacks d := by
  have hmaxLen := kMaxMsgLen_eq
  have hlength : (FixedBuffer.slice c.buf value (toUnsigned 64 valueLen)).length <
      kMaxMsgLen - kHdrLen := by
    rw [toUnsigned_natCast, FixedBuffer.slice, List.length_take]
    omega
  have hclose : ∀ fd : Option ℤ,
      dispatched ((fd.map .close).toList : List (RecvEvent Msg)) = [] := by
    rintro (_ | fd) <;> rfl
  cases recvTLV_inv e c tag valueLen value with
  | dropped _ eq | unpackable _ _ _ eq => simp [eq, RecvEvent.delivery]
  | kept callback msg ops msg_eq _ eq =>
      simp only [eq, dispatched_cons, RecvEvent.delivery, dispatched_nil]
      simpa using ⟨by simp [ops], msg_eq, hlength⟩
  | closed callback msg ops msg_eq _ eq =>
      simp only [eq, dispatched_append, dispatched_cons, RecvEvent.delivery, dispatched_nil, hclose]
      simpa using ⟨by simp [ops], msg_eq, hlength⟩

theorem dispatched_recvStringPass (c : GepChannel) :
    ∀ d ∈ dispatched (recvStringPass e c).events, e.Unpacks d := by
  have hremaining : ∀ c' msgLen, dispatched (@processRemaining Msg c' msgLen).events = [] := by
    intro c' msgLen
    rcases @processRemaining_events Msg c' msgLen with h | ⟨size, h⟩ <;> rw [h] <;> rfl
  unfold recvStringPass
  dsimp only
  split_ifs with hok hlong hshort hret
  · simp [RecvEvent.delivery]
  · simp [RecvEvent.delivery]
  · simp [RecvEvent.delivery]
  · simp only [dispatched_append, dispatched_cons, RecvEvent.delivery, dispatched_nil,
      debugLog_dispatched, Option.toList_none, List.nil_append]
    exact dispatched_recvTLV (Nat.not_le.mp hlong) _
  · simp only [Recv.prepend_events, dispatched_append, dispatched_cons, RecvEvent.delivery,
      dispatched_nil, debugLog_dispatched, hremaining, Option.toList_none, List.nil_append,
      List.append_nil]
    exact dispatched_recvTLV (Nat.not_le.mp hlong) _

theorem dispatched_recvString (c : GepChannel) :
    ∀ d ∈ dispatched (recvString e c).events, e.Unpacks d := by
  fun_induction recvString e c with
  | case1 c hhdr pass hagain ih =>
      rw [Recv.prepend_events, dispatched_append]
      exact List.forall_mem_append.mpr ⟨dispatched_recvStringPass c, ih⟩
  | case2 c hhdr pass hstop => exact dispatched_recvStringPass c
  | case3 c hhdr => exact List.forall_mem_nil _

/-- Whatever a channel receives, all that it dispatches has been unpacked. -/
theorem dispatched_recvData (c : GepChannel) (r : RawRecv) :
    ∀ d ∈ dispatched (c.recvData e r).events, e.Unpacks d := by
  cases recvData_inv e c r with
  | refused _ eq | failed _ _ _ _ eq | closed _ _ _ eq => simp [eq, RecvEvent.delivery]
  | received bytes _ _ _ _ eq =>
      simp only [eq, dispatched_cons, RecvEvent.delivery, Option.toList_none, List.nil_append]
      exact dispatched_recvString _

/-- The calls of callbacks in a server, each with the id of the client. -/
def serverCallbacks (log : List (ArrayEvent Msg)) : List (ℤ × Delivery Msg) :=
  log.filterMap fun
    | .channel id' (.dispatch d) => some (id', d)
    | _ => none

/-- The calls of callbacks in a client, whose channel has the id 0. -/
def clientCallbacks (log : List (ClientEvent Msg)) : List (ℤ × Delivery Msg) :=
  log.filterMap fun
    | .channel (.dispatch d) => some (0, d)
    | _ => none

theorem serverCallbacks_unpacked {a : GepChannelArray}
    {ok : GepServer → List (ArrayEvent Msg) → ServerLabel → Prop} {s : GepServer}
    {log : List (ArrayEvent Msg)} (h : (serverMachine e a).Reaches ok s log) :
    ∀ call ∈ serverCallbacks log, e.Unpacks call.2 := by
  refine h.invariant (P := fun _ log ↦ ∀ call ∈ serverCallbacks log, e.Unpacks call.2)
    (List.forall_mem_nil _) fun {s s' log es l} _ hlog _ hstep ↦ ?_
  rw [serverCallbacks, List.filterMap_append]
  refine List.forall_mem_append.mpr ⟨hlog, fun call hcall ↦ ?_⟩
  obtain ⟨ev, hev, heq⟩ := List.mem_filterMap.mp hcall
  split at heq <;> cases heq
  rcases serverStep_array hstep with ⟨-, rfl⟩ | ⟨l', -, hnext⟩
  · cases hev
  · obtain ⟨addr, r, ret, -, -, -, hmem, -⟩ := arrayStep_channel hnext hev
    exact dispatched_recvData _ r _ (List.mem_filterMap.mpr ⟨_, hmem, rfl⟩)

theorem clientCallbacks_unpacked {stale : Buffer}
    {ok : GepClient → List (ClientEvent Msg) → ClientLabel → Prop} {s : GepClient}
    {log : List (ClientEvent Msg)} (h : (clientMachine e stale).Reaches ok s log) :
    ∀ call ∈ clientCallbacks log, e.Unpacks call.2 := by
  refine h.invariant (P := fun _ log ↦ ∀ call ∈ clientCallbacks log, e.Unpacks call.2)
    (List.forall_mem_nil _) fun {s s' log es l} _ hlog _ hstep ↦ ?_
  rw [clientCallbacks, List.filterMap_append]
  refine List.forall_mem_append.mpr ⟨hlog, fun call hcall ↦ ?_⟩
  obtain ⟨ev, hev, heq⟩ := List.mem_filterMap.mp hcall
  split at heq <;> cases heq
  cases clientStep_spec hstep with
  | recv r socket res hpc hfits hres =>
      obtain ⟨ev', hmem, heq⟩ := List.mem_map.mp hev
      cases heq
      exact dispatched_recvData _ r _ (List.mem_filterMap.mpr ⟨_, hmem, rfl⟩)
  | start env | reconnect env =>
      simp [GepChannel.Opened.events] at hev
  | join | failed => simp at hev
  | _ => cases hev

end Receiving

/-! ## Accounts -/

/-- Where every element of a list belongs to one index, the list is counted
index by index. -/
theorem countP_eq_sum {α ι : Type*} {X : Finset ι} {R : ι → α → Bool} {L : List α}
    (h : ∀ a ∈ L, ∃ x ∈ X, R x a = true ∧ ∀ y ∈ X, R y a = true → y = x) (P : α → Bool) :
    L.countP P = ∑ x ∈ X, L.countP fun a ↦ P a && R x a := by
  classical
  induction L with
  | nil => simp
  | cons a L ih =>
      obtain ⟨⟨x, hx, hxa, hunique⟩, hL⟩ := List.forall_mem_cons.mp h
      have hone : ∑ y ∈ X, (if (P a && R y a) = true then 1 else 0) = if P a = true then 1 else 0 := by
        rw [Finset.sum_eq_single_of_mem x hx]
        · simp [hxa]
        · intro y hy hne
          have hnot : R y a = false := by
            by_contra hya
            exact hne (hunique y hy (Bool.eq_true_of_not_eq_false hya))
          simp [hnot]
      simp only [List.countP_cons, Finset.sum_add_distrib, hone, ih hL]

/-- The calls of callbacks for one client. -/
theorem countP_serverCallbacks (P : Msg → Bool) (id : ℤ) (log : List (ArrayEvent Msg)) :
    (serverCallbacks log).countP (fun call ↦ P call.2.msg && decide (call.1 = id)) =
      (dispatchedTo id log).countP fun d ↦ P d.msg := by
  rw [serverCallbacks, dispatchedTo, List.countP_filterMap, List.countP_filterMap]
  refine List.countP_congr fun ev _ ↦ ?_
  split
  · rename_i id' d _
    by_cases hid : id' = id <;> simp [hid]
  · simp

theorem mem_dispatchedTo {id : ℤ} {d : Delivery Msg} {log : List (ArrayEvent Msg)} :
    d ∈ dispatchedTo id log ↔ (id, d) ∈ serverCallbacks log := by
  rw [serverCallbacks, dispatchedTo, List.mem_filterMap, List.mem_filterMap]
  refine exists_congr fun ev ↦ and_congr_right fun _ ↦ ?_
  split
  · simp
  · simp

section System

variable [DecidableEq κ] {t : Tcp} {ec : κ → Endpoint Msg} {es : Endpoint Msg}
  {s : Net κ (protos ec) es.proto} {stale : κ → Buffer} {maxChannels port : ℤ}
  {heap : ℕ → GepChannel} {log : List (NetEvent κ Msg)}

/-- Only finitely many connections have been accepted. -/
theorem accepted_finite (ht : t.InOrder) (hkc : ∀ i, (ec i).CallbacksKeep)
    (hks : es.CallbacksKeep)
    (h : (netMachine t ec es stale (.new maxChannels port heap)).Reaches
      (fun _ log l ↦ NetFresh log l) s log) : {x | (s.kernel.links x).id ≠ none}.Finite := by
  have hinit : {x | ((netMachine t ec es stale (.new maxChannels port heap)).init.kernel.links x).id ≠
      none}.Finite := Set.finite_empty.subset fun x hx ↦ absurd rfl hx
  refine h.invariant (P := fun s _ ↦ {x | (s.kernel.links x).id ≠ none}.Finite) hinit
    fun {s s' log evs l} hs ih hl hstep ↦ ?_
  have hkept : (∀ y, (s'.kernel.links y).id = (s.kernel.links y).id) →
      {x | (s'.kernel.links x).id ≠ none}.Finite := by
    intro hid
    simpa only [hid] using ih
  have hview := netView ht hks hkc hs
  have hview' := netView ht hks hkc (hs.step hl hstep)
  cases netStep_spec hstep with
  | server l x next events kernel hserver hkernel =>
      rcases serverStep_array hserver with ⟨-, rfl⟩ | ⟨l', -, harray⟩
      · cases hkernel
        exact ih
      · -- at most one connection gets the new id
        have hnew : {y | (kernel.links y).id = some s.server.array.array.lastChannelId}.Finite :=
          Set.Subsingleton.finite fun y hy z hz ↦ hview'.server.view.id_inj y z _ hy hz
        refine (ih.union hnew).subset fun y hy ↦ ?_
        rcases hview.server.new_id harray hkernel y with hsame | ⟨hid, -⟩
        · exact .inl fun hnone ↦ hy (hsame.trans hnone)
        · exact .inr hid
  | client i l elsewhere next events kernel hclient hkernel =>
      exact hkept (Kernel.client_keeps hkernel).id
  | clientSend i m call n hfd =>
      exact hkept (Kernel.pushUp_id (k := s.kernel) (x := (i, n)) [call])
  | unsent => exact ih
  | serverSend => exact ih
  | reset x => exact hkept (s.kernel.reset_same Link.id fun _ ↦ rfl)

/-- Once the server has read all of its connections, it has called its
callbacks for as many messages of any kind as were sent with success on them. -/
theorem server_accounts (ht : t.InOrder) (hkc : ∀ i, (ec i).CallbacksKeep)
    (hks : es.CallbacksKeep)
    (h : (netMachine t ec es stale (.new maxChannels port heap)).Reaches
      (fun _ log l ↦ NetFresh log l) s log) :
    ∃ X : Finset (κ × ℕ), (∀ x, x ∈ X ↔ (s.kernel.links x).id ≠ none) ∧
      ((∀ x ∈ X, (ec x.1).proto.magic = es.proto.magic ∧
          (∀ call ∈ (s.kernel.links x).up.calls, call.sending.Ok (ec x.1).proto es) ∧
          Call.NothingBehindTruncated (s.kernel.links x).up.calls ∧
          (s.kernel.links x).up.queue = []) →
        ∀ P : Msg → Bool, (serverCallbacks (serverLog log)).countP (fun call ↦ P call.2.msg) =
          ∑ x ∈ X, (s.kernel.links x).up.calls.countP fun call ↦
            P call.sending.msg && call.succeeded) := by
  have hview := netView ht hks hkc h
  refine ⟨(accepted_finite ht hkc hks h).toFinset, fun x ↦ by simp, fun hgood P ↦ ?_⟩
  have hone : ∀ call ∈ serverCallbacks (serverLog log),
      ∃ x ∈ (accepted_finite ht hkc hks h).toFinset, decide ((s.kernel.links x).id = some call.1) = true ∧
        ∀ y ∈ (accepted_finite ht hkc hks h).toFinset,
          decide ((s.kernel.links y).id = some call.1) = true → y = x := by
    rintro ⟨id, d⟩ hcall
    obtain ⟨x, hx⟩ := exists_link ht hkc hks h (List.ne_nil_of_mem (mem_dispatchedTo.mpr hcall))
    refine ⟨x, by simp [hx], by simpa using hx, fun y _ hy ↦ ?_⟩
    exact hview.server.view.id_inj y x id (of_decide_eq_true hy) hx
  rw [countP_eq_sum hone]
  refine Finset.sum_congr rfl fun x hx ↦ ?_
  obtain ⟨id, hid⟩ : ∃ id, (s.kernel.links x).id = some id :=
    Option.ne_none_iff_exists'.mp (by simpa using hx)
  obtain ⟨hmagic, hok, hnothing, hread⟩ := hgood x hx
  have hwhole := (received_up ht hkc hks h hid hmagic).whole hok hnothing hread
  calc
    (serverCallbacks (serverLog log)).countP
          (fun call ↦ P call.2.msg && decide ((s.kernel.links x).id = some call.1)) =
        (serverCallbacks (serverLog log)).countP
          (fun call ↦ P call.2.msg && decide (call.1 = id)) := by
      simp only [hid, Option.some.injEq, eq_comm]
    _ = (dispatchedTo id (serverLog log)).countP fun d ↦ P d.msg :=
      countP_serverCallbacks P id (serverLog log)
    _ = (s.kernel.links x).up.calls.countP fun call ↦ P call.sending.msg && call.succeeded := by
      rw [hwhole, List.countP_map, List.countP_filter]
      rfl

end System

theorem server_accounts_exchange : ∃ s log,
    twoClients.runFrom twoClients.init (twoConnectRun ++ exchangeRun) = some (s, log) ∧
      ((serverCallbacks (serverLog log)).map fun call ↦ (call.1, call.2.msg)) =
        [(1, ⟨.command2, [8, 9]⟩), (0, ⟨.command4, [8, 7]⟩), (0, ⟨.command1, [8, 1]⟩)] ∧
      (serverCallbacks (serverLog log)).countP (fun call ↦ call.2.msg.type ≠ .command4) = 2 := by
  have hends : (twoClients.runFrom twoClients.init (twoConnectRun ++ exchangeRun)).map (fun next ↦
      ((serverCallbacks (serverLog next.2)).map fun call ↦ (call.1, call.2.msg))) =
      some [(1, ⟨.command2, [8, 9]⟩), (0, ⟨.command4, [8, 7]⟩), (0, ⟨.command1, [8, 1]⟩)] := by
    decide +kernel
  have hlinks : (twoClients.runFrom twoClients.init (twoConnectRun ++ exchangeRun)).map (fun next ↦
      [false, true].map fun i ↦ (next.1.kernel.opened i, (next.1.kernel.links (i, 0)).id,
        [(next.1.kernel.links (i, 0)).up.queue.length,
          (next.1.kernel.links (i, 0)).up.calls.countP fun call ↦
            decide (call.sending.msg.type ≠ .command4) && call.succeeded],
        decide (∀ call ∈ (next.1.kernel.links (i, 0)).up.calls,
          call.sending.Ok TestProtocol.proto TestProtocol.endpoint ∧ call.succeeded = true))) =
      some [(1, some 0, [0, 1], true), (1, some 1, [0, 1], true)] := by
    decide +kernel
  obtain ⟨⟨s, log⟩, hrun, hends⟩ := Option.map_eq_some_iff.mp hends
  rw [hrun] at hlinks
  simp only [Option.map_some, Option.some.injEq, List.map_cons, List.map_nil, Prod.mk.injEq,
    List.cons.injEq, and_true, decide_eq_true_eq] at hlinks
  obtain ⟨⟨hopened, hid, ⟨hqueue, hcount⟩, hcalls⟩, hopened', hid', ⟨hqueue', hcount'⟩, hcalls'⟩ :=
    hlinks
  have hkeep := TestProtocol.endpoint_callbacksKeep
  have hreach := Machine.Reaches.run .init exchangeRun_fresh hrun
  have hview := netView Tcp.stream_inOrder hkeep (fun _ ↦ hkeep) hreach
  obtain ⟨X, hX, haccounts⟩ :=
    server_accounts Tcp.stream_inOrder (fun _ ↦ hkeep) hkeep hreach
  have hpair : X = {(false, 0), (true, 0)} := by
    ext ⟨i, n⟩
    rw [hX, Finset.mem_insert, Finset.mem_singleton]
    constructor
    · intro hsome
      have hknown : n < s.kernel.opened i := by
        by_contra hlate
        exact hsome (congrArg Link.id (hview.server.view.new (i, n) (Nat.not_lt.mp hlate)))
      cases i
      · simp [Nat.lt_one_iff.mp (hopened ▸ hknown)]
      · simp [Nat.lt_one_iff.mp (hopened' ▸ hknown)]
    · rintro (heq | heq) <;> rw [heq]
      · simp [hid]
      · simp [hid']
  refine ⟨s, log, hrun, hends, ?_⟩
  have hgood : ∀ x ∈ X, TestProtocol.proto.magic = TestProtocol.endpoint.proto.magic ∧
      (∀ call ∈ (s.kernel.links x).up.calls,
        call.sending.Ok TestProtocol.proto TestProtocol.endpoint) ∧
      Call.NothingBehindTruncated (s.kernel.links x).up.calls ∧
      (s.kernel.links x).up.queue = [] := by
    intro x hx
    rw [hpair, Finset.mem_insert, Finset.mem_singleton] at hx
    rcases hx with rfl | rfl
    · exact ⟨rfl, fun call hmem ↦ (hcalls call hmem).1, nothingBehindTruncated_of_succeeded hcalls,
        List.length_eq_zero_iff.mp hqueue⟩
    · exact ⟨rfl, fun call hmem ↦ (hcalls' call hmem).1, nothingBehindTruncated_of_succeeded hcalls',
        List.length_eq_zero_iff.mp hqueue'⟩
  have hsum := haccounts hgood fun msg ↦ decide (msg.type ≠ .command4)
  rw [hpair, Finset.sum_pair (by decide)] at hsum
  exact hsum.trans (congrArg₂ (· + ·) hcount hcount')

end Libgep
