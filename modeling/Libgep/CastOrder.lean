import Libgep.NetworkDelivery

/-!
# What the clients see of the broadcasts

A client is sent exactly the messages of the calls of `Send` that are made
while it is connected, and that mean it.  So all clients see the broadcasts in
one order, and none of them misses one in between.
-/

namespace Libgep

open Transition
open GepChannel (TLVEnv)

variable {κ Msg : Type*} {p : κ → GepProtocol Msg} {q : GepProtocol Msg} {t : Tcp}

/-! ## The calls that concern a client -/

/-- The calls that are made while the client is connected, where `phase` is
what it is in before these events. -/
def castsFrom (id : ℤ) : Option Phase → List (NetEvent κ Msg) → List (Cast Msg)
  | _, [] => []
  | phase, .cast cast :: log =>
      if phase = some .connected then cast :: castsFrom id phase log else castsFrom id phase log
  | phase, .server ev :: log =>
      castsFrom id (phase.bind fun phase ↦ phase.run (ev.user id).toList) log
  | phase, .client _ _ :: log => castsFrom id phase log

/-- The calls that are made between the `AddClient` and the `DelClient` of a
client. -/
def castsTo (id : ℤ) (log : List (NetEvent κ Msg)) : List (Cast Msg) :=
  castsFrom id (some .unknown) log

def phaseAfter (id : ℤ) (phase : Option Phase) (log : List (NetEvent κ Msg)) : Option Phase :=
  phase.bind fun phase ↦ phase.run (userEvents id (serverLog log))

theorem userEvents_server (id : ℤ) (ev : ArrayEvent Msg) (log : List (NetEvent κ Msg)) :
    userEvents id (serverLog (.server ev :: log)) =
      (ev.user id).toList ++ userEvents id (serverLog log) := by
  change userEvents id (ev :: serverLog log) = _
  rw [userEvents, List.filterMap_cons]
  cases ev.user id <;> rfl

theorem phaseAfter_server (id : ℤ) (phase : Option Phase) (ev : ArrayEvent Msg)
    (log : List (NetEvent κ Msg)) :
    phaseAfter id phase (.server ev :: log) =
      phaseAfter id (phase.bind fun phase ↦ phase.run (ev.user id).toList) log := by
  unfold phaseAfter
  rw [userEvents_server]
  cases phase with
  | none => rfl
  | some phase => exact phase.run_append _ _

theorem castsFrom_append (id : ℤ) (phase : Option Phase) (xs ys : List (NetEvent κ Msg)) :
    castsFrom id phase (xs ++ ys) =
      castsFrom id phase xs ++ castsFrom id (phaseAfter id phase xs) ys := by
  induction xs generalizing phase with
  | nil => cases phase <;> rfl
  | cons ev xs ih =>
      cases ev with
      | server ev =>
          rw [phaseAfter_server]
          exact ih _
      | client i ev => exact ih phase
      | cast cast =>
          simp only [List.cons_append, castsFrom]
          split_ifs
          · rw [ih]
            rfl
          · exact ih phase

theorem castsFrom_server (id : ℤ) (phase : Option Phase) (events : List (ArrayEvent Msg)) :
    castsFrom (κ := κ) id phase (events.map .server) = [] := by
  induction events generalizing phase with
  | nil => cases phase <;> rfl
  | cons ev events ih => exact ih _

theorem castsFrom_client (id : ℤ) (phase : Option Phase) (i : κ)
    (events : List (ClientEvent Msg)) : castsFrom id phase (events.map (.client i)) = [] := by
  induction events generalizing phase with
  | nil => cases phase <;> rfl
  | cons ev events ih => exact ih _

/-! ### They follow one another -/

theorem castsFrom_none (id : ℤ) (log : List (NetEvent κ Msg)) : castsFrom id none log = [] := by
  induction log with
  | nil => rfl
  | cons ev log ih => cases ev <;> exact ih

theorem castsFrom_gone (id : ℤ) (log : List (NetEvent κ Msg)) :
    castsFrom id (some .gone) log = [] := by
  induction log with
  | nil => rfl
  | cons ev log ih =>
      cases ev with
      | server ev =>
          change castsFrom id (Phase.gone.run (ev.user id).toList) log = []
          rcases ev.user id with - | - | - | -
          · exact ih
          · exact castsFrom_none id log
          · exact castsFrom_none id log
          · exact castsFrom_none id log
      | client | cast => exact ih

theorem castsFrom_connected (id : ℤ) (log : List (NetEvent κ Msg)) :
    castsFrom id (some .connected) log <+: casts log := by
  induction log with
  | nil => exact List.prefix_rfl
  | cons ev log ih =>
      cases ev with
      | server ev =>
          change castsFrom id (Phase.connected.run (ev.user id).toList) log <+: casts log
          rcases ev.user id with - | - | - | -
          · exact ih
          · rw [show Phase.connected.run (some UserEvent.add).toList = none from rfl,
              castsFrom_none]
            exact List.nil_prefix
          · exact ih
          · rw [show Phase.connected.run (some UserEvent.del).toList = some .gone from rfl,
              castsFrom_gone]
            exact List.nil_prefix
      | client => exact ih
      | cast cast => exact List.cons_prefix_cons.mpr ⟨rfl, ih⟩

/-- Between its first and its last call a client misses none. -/
theorem castsTo_infix (id : ℤ) (log : List (NetEvent κ Msg)) : castsTo id log <:+: casts log := by
  unfold castsTo
  induction log with
  | nil => exact List.infix_rfl
  | cons ev log ih =>
      cases ev with
      | server ev =>
          change castsFrom id (Phase.unknown.run (ev.user id).toList) log <:+: casts log
          rcases ev.user id with - | - | - | -
          · exact ih
          · exact (castsFrom_connected id log).isInfix
          · rw [show Phase.unknown.run (some UserEvent.message).toList = none from rfl,
              castsFrom_none]
            exact List.nil_infix
          · rw [show Phase.unknown.run (some UserEvent.del).toList = none from rfl,
              castsFrom_none]
            exact List.nil_infix
      | client => exact ih
      | cast cast => exact ih.trans (List.suffix_cons _ _).isInfix

/-- A client that has not been added is sent nothing. -/
theorem castsTo_eq_nil {id : ℤ} {log : List (NetEvent κ Msg)}
    (h : userEvents id (serverLog log) = []) : castsTo id log = [] := by
  unfold castsTo
  induction log with
  | nil => rfl
  | cons ev log ih =>
      cases ev with
      | server ev =>
          rw [userEvents_server, List.append_eq_nil_iff] at h
          change castsFrom id (Phase.unknown.run (ev.user id).toList) log = []
          rw [h.1]
          exact ih h.2
      | client => exact ih h
      | cast cast => exact ih h

/-! ## What a call sends -/

/-- The attempts of a call on an array all of whose channels are open: each
client that the call means is attempted once. -/
structure CastSends (a : GepChannelArray) (p : GepProtocol Msg) (cast : Cast Msg)
    (env : ℕ → TLVEnv) (attempts : List Attempt) : Prop where
  sent : ∀ t ∈ attempts, t.addr ∈ a.vector ∧
    GepChannel.sendMessage p cast.msg (env t.addr) = some t.outcome
  count : a.ids.Nodup → (∀ addr ∈ a.vector, (a.heap addr).isOpenSocket = true) → ∀ id,
    attempts.countP (fun t ↦ (a.heap t.addr).id = id) =
      if id ∈ a.ids ∧ cast.selects id = true then 1 else 0

section Sends

variable {a : GepChannelArray} {msg : Msg} {env : ℕ → TLVEnv}

theorem sendMessageLoop_sends {ret ret' : ℤ} {addrs : List ℕ} {attempts : List Attempt}
    (h : a.sendMessageLoop q msg env ret addrs = some (ret', attempts)) :
    attempts.map Attempt.addr = addrs.filter (fun addr ↦ (a.heap addr).isOpenSocket) ∧
      ∀ t ∈ attempts, GepChannel.sendMessage q msg (env t.addr) = some t.outcome := by
  induction addrs generalizing ret attempts with
  | nil =>
      cases h
      exact ⟨rfl, List.forall_mem_nil _⟩
  | cons addr addrs ih =>
      rw [GepChannelArray.sendMessageLoop] at h
      split_ifs at h with hopen
      · obtain ⟨o, ho, hrest⟩ := Option.bind_eq_some_iff.mp h
        obtain ⟨⟨last, rest⟩, hloop, heq⟩ := Option.map_eq_some_iff.mp hrest
        cases heq
        obtain ⟨haddrs, hsent⟩ := ih hloop
        refine ⟨?_, List.forall_mem_cons.mpr ⟨ho, hsent⟩⟩
        rw [List.map_cons, haddrs, List.filter_cons, if_pos hopen]
      · rw [List.filter_cons, if_neg hopen]
        exact ih h

theorem sendMessageToLoop_sends {id ret : ℤ} {addrs : List ℕ} {attempts : List Attempt}
    (h : a.sendMessageToLoop q msg env id addrs = some (ret, attempts)) :
    (∃ t, attempts = [t] ∧ t.addr ∈ addrs ∧ (a.heap t.addr).id = id ∧
        GepChannel.sendMessage q msg (env t.addr) = some t.outcome) ∨
      attempts = [] ∧ ∀ addr ∈ addrs, (a.heap addr).isOpenSocket = true → (a.heap addr).id ≠ id := by
  induction addrs with
  | nil =>
      cases h
      exact .inr ⟨rfl, List.forall_mem_nil _⟩
  | cons addr addrs ih =>
      rw [GepChannelArray.sendMessageToLoop] at h
      split_ifs at h with hmatch
      · obtain ⟨o, ho, heq⟩ := Option.map_eq_some_iff.mp h
        cases heq
        exact .inl ⟨_, rfl, List.mem_cons_self, hmatch.2.symm, ho⟩
      · rcases ih h with ⟨t, rfl, hmem, hid, hsent⟩ | ⟨rfl, hnone⟩
        · exact .inl ⟨t, rfl, List.mem_cons_of_mem _ hmem, hid, hsent⟩
        · refine .inr ⟨rfl, List.forall_mem_cons.mpr ⟨fun hopen hid ↦ ?_, hnone⟩⟩
          exact hmatch ⟨hopen, hid.symm⟩

theorem castSends {cast : Cast Msg} {call : SendCall} (h : a.cast q env cast = some call) :
    call.array = a ∧ CastSends a q cast env call.attempts := by
  cases cast with
  | all msg =>
      obtain ⟨⟨ret, attempts⟩, hloop, rfl⟩ := Option.map_eq_some_iff.mp h
      obtain ⟨haddrs, hsent⟩ := sendMessageLoop_sends hloop
      refine ⟨rfl, fun t ht ↦ ⟨?_, hsent t ht⟩, fun hids hopen id ↦ ?_⟩
      · have hmem := List.mem_map_of_mem (f := Attempt.addr) ht
        rw [haddrs] at hmem
        exact (List.mem_filter.mp hmem).1
      · rw [List.filter_eq_self.mpr hopen] at haddrs
        calc
          attempts.countP (fun t ↦ (a.heap t.addr).id = id) =
              (attempts.map Attempt.addr).countP (fun addr ↦ (a.heap addr).id = id) := by
            rw [List.countP_map]
            rfl
          _ = a.ids.count id := by
            rw [haddrs, GepChannelArray.ids, List.count, List.countP_map]
            rfl
          _ = if id ∈ a.ids ∧ (Cast.all msg).selects id = true then 1 else 0 := by
            rw [List.Nodup.count hids]
            simp [Cast.selects]
  | one msg id' =>
      obtain ⟨⟨ret, attempts⟩, hloop, rfl⟩ := Option.map_eq_some_iff.mp h
      refine ⟨rfl, ?_⟩
      rcases sendMessageToLoop_sends hloop with ⟨t, rfl, hmem, hid, hsent⟩ | ⟨rfl, hnone⟩
      · refine ⟨List.forall_mem_singleton.mpr ⟨hmem, hsent⟩, fun _ _ id ↦ ?_⟩
        have hids : id' ∈ a.ids := hid ▸ List.mem_map_of_mem hmem
        dsimp only
        rw [List.countP_singleton, hid]
        by_cases heq : id' = id
        · simp [heq ▸ hids, heq, Cast.selects]
        · simp [heq, Cast.selects]
      · refine ⟨List.forall_mem_nil _, fun _ hopen id ↦ ?_⟩
        rw [if_neg]
        · rfl
        · rintro ⟨hmem, hselects⟩
          obtain ⟨addr, haddr, rfl⟩ := List.mem_map.mp hmem
          exact hnone addr haddr (hopen addr haddr) (of_decide_eq_true hselects).symm

theorem make_of_sent {m : Sending Msg} {o : SendOutcome}
    (h : GepChannel.sendMessage q m.msg m.env = some o) :
    ∃ call : Call q, Call.make m = some call ∧ call.sending = m := by
  unfold Call.make
  split
  · rename_i hnone
    rw [h] at hnone
    cases hnone
  · exact ⟨_, rfl, rfl⟩

/-- What a call sends on the connections that `on` stands for. -/
theorem callsOn_msgs {cast : Cast Msg} {call : SendCall} (harray : call.array = a)
    (hsends : CastSends a q cast env call.attempts) (value : List UInt8) (on : ℤ → Bool) :
    (call.callsOn (q := q) (fun addr ↦ ⟨cast.msg, value, env addr⟩) on).map (·.sending.msg) =
      List.replicate (call.attempts.countP fun t ↦ on (a.heap t.addr).socket) cast.msg := by
  obtain ⟨ret, array, attempts⟩ := call
  dsimp only at harray hsends ⊢
  subst harray
  have hsent := hsends.sent
  clear hsends
  unfold SendCall.callsOn
  dsimp only
  induction attempts with
  | nil => rfl
  | cons t attempts ih =>
      obtain ⟨ht, hrest⟩ := List.forall_mem_cons.mp hsent
      rw [List.filter_cons, List.countP_cons]
      split_ifs
      · obtain ⟨call, hcall, hsending⟩ :=
          make_of_sent (m := ⟨cast.msg, value, env t.addr⟩) ht.2
        rw [List.filterMap_cons, hcall, List.map_cons, ih hrest, hsending, List.replicate_succ]
      · exact ih hrest

end Sends

/-! ## Every run -/

section Net

variable [DecidableEq κ] {ec : κ → Endpoint Msg} {es : Endpoint Msg} {stale : κ → Buffer}
  {maxChannels port : ℤ} {heap : ℕ → GepChannel} {s : Net κ (protos ec) es.proto}
  {log : List (NetEvent κ Msg)}

/-- The messages sent on a connection are those of the calls that concern its
client. -/
structure CastView (k : Kernel κ p q) (log : List (NetEvent κ Msg)) : Prop where
  silent : ∀ y, (k.links y).id = none → (k.links y).down.calls = []
  sent : ∀ y id, (k.links y).id = some id →
    (k.links y).down.calls.map (·.sending.msg) =
      ((castsTo id log).filter (Cast.selects · id)).map Cast.msg

omit [DecidableEq κ] in
/-- Steps that send nothing to a client, and add none, except with a new id. -/
theorem CastView.keep {k k' : Kernel κ p q} {evs : List (NetEvent κ Msg)} (hs : CastView k log)
    (hcalls : ∀ y, (k'.links y).down.calls = (k.links y).down.calls)
    (hcasts : ∀ id phase, castsFrom id phase evs = [])
    (hid : ∀ y, (k'.links y).id = (k.links y).id ∨ ∃ id, (k'.links y).id = some id ∧
      (k.links y).id = none ∧ castsTo id log = []) : CastView k' (log ++ evs) := by
  have hsame : ∀ id, castsTo id (log ++ evs) = castsTo id log := by
    intro id
    rw [castsTo, castsFrom_append, hcasts, List.append_nil]
    rfl
  refine ⟨fun y hy ↦ ?_, fun y id hy ↦ ?_⟩
  · rw [hcalls]
    rcases hid y with heq | ⟨id, hsome, -, -⟩
    · exact hs.silent y (heq ▸ hy)
    · rw [hy] at hsome
      cases hsome
  · rw [hcalls, hsame]
    rcases hid y with heq | ⟨id', hsome, hnone, hnil⟩
    · exact hs.sent y id (heq ▸ hy)
    · rw [hy] at hsome
      cases hsome
      rw [hs.silent y hnone, hnil]
      rfl

/-- A step of the server gives an id to a connection that had none. -/
theorem ArrayView.new_id {e : Endpoint Msg} {s s' : ArrayState} {log events : List (ArrayEvent Msg)}
    {k k' : Kernel κ p q} {x : κ × ℕ} {l : ArrayLabel} (hs : ArrayView s log k)
    (h : arrayStep e s l = some (s', events))
    (hk : events.foldlM (Kernel.serverEvent t x) k = some k') (y : κ × ℕ) :
    (k'.links y).id = (k.links y).id ∨
      (k'.links y).id = some s.array.lastChannelId ∧ (k.links y).id = none := by
  by_cases hadded : ∃ id, .addClient id ∈ events
  · obtain ⟨id, hid⟩ := hadded
    have hclosing : ∀ {es : List (ArrayEvent Msg)}, (∀ ev ∈ es, ev.IsClosing) →
        .addClient id ∉ es := fun hes hmem ↦ hes _ hmem
    cases arrayStep_spec h with
    | openServerSocket env =>
        rcases @s.array.openServerSocket_events Msg env with ⟨-, hes⟩ | ⟨-, hes | hes | hes⟩ <;>
          simp [hes] at hid
    | refused | full | idle | picked | served => simp at hid
    | finished addr ret => exact absurd hid (hclosing (finish_closing _ _ _))
    | stopped => exact absurd hid (hclosing (stop_closing _ _))
    | added fd stale hfd =>
        obtain ⟨k₁, hk₁, hk⟩ := Option.bind_eq_some_iff.mp hk
        cases hk
        simp only [Kernel.serverEvent] at hk₁
        rw [if_neg hfd] at hk₁
        split_ifs at hk₁ with hwaiting
        cases hk₁
        rw [Kernel.onLink_links]
        split_ifs with heq
        · rw [heq]
          exact .inr ⟨rfl, (hs.view.waiting x hwaiting).1⟩
        · exact .inl (Kernel.serverAccept_same Link.id (fun _ ↦ rfl) _ y)
  · refine .inl (Kernel.server_id ?_ hk y)
    rintro _ hev id rfl
    exact hadded ⟨id, hev⟩

/-- A client in the vector has its descriptor, and no other client has it. -/
theorem NetView.serverFds_iff (hs : NetView s log)
    (hi : IsolationOk es s.server.array (serverLog log)) {y : κ × ℕ} {id : ℤ}
    (hy : (s.kernel.links y).id = some id) {addr : ℕ} (hmem : addr ∈ s.server.array.array.vector) :
    s.kernel.serverFds (s.server.array.array.heap addr).socket = some y ↔
      (s.server.array.array.heap addr).id = id := by
  obtain ⟨-, -, howns⟩ := hi.socket addr hmem
  have hview := hs.server.view
  constructor
  · intro hfd
    rw [(hview.owner _ y hfd).2, hy] at howns
    exact (Option.some.inj howns).symm
  · rintro rfl
    cases hfd : s.kernel.serverFds (s.server.array.array.heap addr).socket with
    | none =>
        rw [hview.unowned _ hfd] at howns
        cases howns
    | some z =>
        rw [(hview.owner _ z hfd).2] at howns
        rw [hview.id_inj z y _ howns hy]

omit [DecidableEq κ] in
/-- A call of `Send` is recorded for the clients that are connected. -/
theorem castsTo_cast {id : ℤ} {phase : Phase}
    (hphase : Phase.unknown.run (userEvents id (serverLog log)) = some phase) (cast : Cast Msg) :
    castsTo id (log ++ [.cast cast]) =
      castsTo id log ++ if phase = .connected then [cast] else [] := by
  rw [castsTo, castsFrom_append]
  change castsTo id log ++ castsFrom id (Phase.unknown.run _) _ = _
  rw [hphase]
  simp [castsFrom]

theorem CastView.cast (hs : CastView s.kernel log) (hview : NetView s log)
    (hi : IsolationOk es s.server.array (serverLog log))
    (ha : ArrayOk s.server.array.array s.server.array.retained)
    (hphase : ∀ id, Phase.unknown.run (userEvents id (serverLog log)) =
      some (s.server.array.array.phaseOf id)) {cast : Cast Msg} {value : List UInt8}
    {env : ℕ → TLVEnv} {call : SendCall}
    (hcall : s.server.array.array.cast es.proto env cast = some call) :
    CastView (s.kernel.pushDown fun x ↦
      call.callsOn (fun addr ↦ ⟨cast.msg, value, env addr⟩) fun fd ↦
        s.kernel.serverFds fd = some x) (log ++ [.cast cast]) := by
  obtain ⟨harray, hsends⟩ := castSends hcall
  have hids : s.server.array.array.ids.Nodup := ha.ids.imp fun hlt ↦ hlt.ne
  have hopen : ∀ addr ∈ s.server.array.array.vector,
      (s.server.array.array.heap addr).isOpenSocket = true := by
    intro addr hmem
    have hpos := (hi.socket addr hmem).1
    exact decide_eq_true (by omega)
  refine ⟨fun y hy ↦ ?_, fun y id hy ↦ ?_⟩
  · change (s.kernel.links y).id = none at hy
    have hnone : ∀ t ∈ call.attempts,
        s.kernel.serverFds (s.server.array.array.heap t.addr).socket ≠ some y := by
      intro t ht hfd
      have howns := (hi.socket t.addr (hsends.sent t ht).1).2.2
      rw [(hview.server.view.owner _ y hfd).2, hy] at howns
      cases howns
    have hmsgs := callsOn_msgs harray hsends value
      fun fd ↦ s.kernel.serverFds fd = some y
    rw [List.countP_eq_zero.mpr (by simpa using hnone)] at hmsgs
    change (s.kernel.links y).down.calls ++ _ = []
    rw [hs.silent y hy, List.nil_append]
    exact List.map_eq_nil_iff.mp hmsgs
  · change (s.kernel.links y).id = some id at hy
    have hmsgs := callsOn_msgs harray hsends value
      fun fd ↦ s.kernel.serverFds fd = some y
    have hcount : call.attempts.countP (fun t ↦
          s.kernel.serverFds (s.server.array.array.heap t.addr).socket = some y) =
        call.attempts.countP fun t ↦ (s.server.array.array.heap t.addr).id = id := by
      refine List.countP_congr fun t ht ↦ ?_
      simp only [decide_eq_true_eq]
      exact hview.serverFds_iff hi hy (hsends.sent t ht).1
    rw [hcount, hsends.count hids hopen] at hmsgs
    change ((s.kernel.links y).down.calls ++ _).map _ = _
    rw [List.map_append, hs.sent y id hy, hmsgs, castsTo_cast (hphase id), List.filter_append,
      List.map_append, GepChannelArray.phaseOf]
    congr 1
    by_cases hin : id ∈ s.server.array.array.ids
    · by_cases hselects : cast.selects id = true <;> simp [hin, hselects]
    · split_ifs <;> simp_all

theorem castView (ht : t.InOrder) (hks : es.CallbacksKeep) (hkc : ∀ i, (ec i).CallbacksKeep)
    (h : (netMachine t ec es stale (.new maxChannels port heap)).Reaches
      (fun _ log l ↦ NetFresh log l) s log) : CastView s.kernel log := by
  refine h.invariant (P := fun s log ↦ CastView s.kernel log) ?_ ?_
  · exact ⟨fun _ _ ↦ rfl, by rintro _ _ ⟨⟩⟩
  intro s s' log evs l hreach hs hl hstep
  have hview := netView ht hks hkc hreach
  have harray := fresh_array (net_server hreach)
  have hlifecycle := lifecycleOk
    (harray.mono fun s _ l hl ↦ (⟨trivial, hl.2⟩ : True ∧ Serial s l))
  cases netStep_spec hstep with
  | server l x next events kernel hserver hkernel =>
      have hdown := (Kernel.server_keeps hkernel).down
      refine hs.keep (fun y ↦ congrArg Pipe.calls (hdown y))
        (fun id phase ↦ castsFrom_server id phase events) fun y ↦ ?_
      rcases serverStep_array hserver with ⟨-, rfl⟩ | ⟨l', -, harrayStep⟩
      · cases hkernel
        exact .inl rfl
      · rcases hview.server.new_id harrayStep hkernel y with hsame | ⟨hnew, hnone⟩
        · exact .inl hsame
        · refine .inr ⟨_, hnew, hnone, castsTo_eq_nil ?_⟩
          have hunknown : s.server.array.array.phaseOf s.server.array.array.lastChannelId =
              .unknown :=
            (phaseOf_eq_unknown_iff (arrayOk harray) _).mpr fun hlt ↦ lt_irrefl _ hlt.2
          have hphase := hlifecycle.phase s.server.array.array.lastChannelId
          rw [hunknown] at hphase
          obtain ⟨-, hevents⟩ | ⟨n, ⟨hsome, -⟩ | ⟨hsome, -⟩⟩ := Phase.run_unknown hphase
          · exact hevents
          · cases hsome
          · cases hsome
  | client i l elsewhere next events kernel hclient hkernel =>
      have hkeeps := Kernel.client_keeps hkernel
      exact hs.keep hkeeps.sent (fun id phase ↦ castsFrom_client id phase i events)
        fun y ↦ .inl (hkeeps.id y)
  | clientSend i m call n hfd =>
      refine hs.keep (fun y ↦ ?_) (fun _ phase ↦ by cases phase <;> rfl) fun y ↦ .inl ?_
      · exact s.kernel.pushUp_same (x := (i, n)) (fun l ↦ l.down.calls) [call] rfl y
      · exact s.kernel.pushUp_id (x := (i, n)) [call] y
  | unsent =>
      rw [List.append_nil]
      exact hs
  | serverSend cast value env call hcall =>
      exact hs.cast hview (isolationOk hks harray) (arrayOk harray) hlifecycle.phase hcall
  | reset x hx =>
      refine hs.keep (fun y ↦ ?_) (fun _ phase ↦ by cases phase <;> rfl) fun y ↦ .inl ?_
      · exact s.kernel.reset_same (fun l ↦ l.down.calls) (fun _ ↦ rfl) y
      · exact s.kernel.reset_same Link.id (fun _ ↦ rfl) y

/-- What the clients see of the calls of `Send` on the server. -/
structure SeesCasts (s : Net κ (protos ec) es.proto) (log : List (NetEvent κ Msg)) : Prop where
  /-- Between its first and its last call no client misses one. -/
  gapless : ∀ id, castsTo id log <:+: casts log
  silent : ∀ y, (s.kernel.links y).id = none → (s.kernel.links y).down.calls = []
  sent : ∀ y id, (s.kernel.links y).id = some id →
    (s.kernel.links y).down.calls.map (·.sending.msg) =
      ((castsTo id log).filter (Cast.selects · id)).map Cast.msg
  /-- As long as no send fails, they are dispatched in this order. -/
  dispatched : ∀ i newer (conn : Connection Msg) older id,
    es.proto.magic = (ec i).proto.magic →
      connections (clientLog i log) = newer ++ conn :: older →
        (s.kernel.links (i, older.length)).id = some id →
          (∀ call ∈ (s.kernel.links (i, older.length)).down.calls,
            call.sending.Ok es.proto (ec i) ∧ call.succeeded = true) →
              conn.out.map Delivery.msg <+:
                ((castsTo id log).filter (Cast.selects · id)).map Cast.msg

theorem nothingBehindTruncated_of_succeeded {e : Endpoint Msg} {calls : List (Call q)}
    (h : ∀ call ∈ calls, call.sending.Ok q e ∧ call.succeeded = true) :
    Call.NothingBehindTruncated calls := by
  refine List.Pairwise.imp_of_mem ?_ (List.pairwise_of_forall fun _ _ ↦ trivial)
  intro call call' hmem _ _ htruncated
  obtain ⟨hok, hsucceeded⟩ := h call hmem
  exact absurd ((Call.succeeded_iff hok).mp hsucceeded) htruncated.2

/-- The server sends to each client the messages of the calls that are made
while it is connected and mean it, in the order of the calls. -/
theorem clients_see_casts (ht : t.InOrder) (hkc : ∀ i, (ec i).CallbacksKeep)
    (hks : es.CallbacksKeep)
    (h : (netMachine t ec es stale (.new maxChannels port heap)).Reaches
      (fun _ log l ↦ NetFresh log l) s log) : SeesCasts s log := by
  have hview := castView ht hks hkc h
  refine ⟨fun id ↦ castsTo_infix id log, hview.silent, hview.sent,
    fun i newer conn older id hmagic hconn hid hcalls ↦ ?_⟩
  have helsewhere := (netView ht hks hkc h).server.view.not_elsewhere hid
  have hreceived := received_down ht hkc hks h hconn helsewhere hmagic
  have hprefix := hreceived.inOrder (fun call hmem ↦ (hcalls call hmem).1)
    (nothingBehindTruncated_of_succeeded hcalls)
  rw [List.filter_eq_self.mpr fun call hmem ↦ (hcalls call hmem).2] at hprefix
  have hmsgs := hprefix.map Delivery.msg
  rw [List.map_map] at hmsgs
  rw [← hview.sent _ id hid]
  exact hmsgs

end Net

/-- Everybody is sent a message, and the first client another one.  The second
client leaves before the next broadcast. -/
def leavingCastRun : List (NetLabel Bool TestProtocol.Message) :=
  [.serverSend (.all ⟨.command4, [8, 3]⟩) [8, 3] fun _ ↦ .acceptAll,
    .serverSend (.one ⟨.command2, [8, 4]⟩ 0) [8, 4] fun _ ↦ .acceptAll,
    .client true .stop false, .client true .loop false, .client true .join false] ++
    serveRun 5 [] ++
    [.serverSend (.all ⟨.command1, [8, 5]⟩) [8, 5] fun _ ↦ .acceptAll] ++
    readRun false (TestProtocol.frame ⟨.command4, [8, 3]⟩ ++
      TestProtocol.frame ⟨.command2, [8, 4]⟩)

theorem leavingCastRun_fresh : twoClients.Along (fun _ log l ↦ NetFresh log l) twoClients.init []
    (twoConnectRun ++ leavingCastRun) := by
  decide +kernel

theorem clients_see_casts_leaving : ∃ s log conn,
    twoClients.runFrom twoClients.init (twoConnectRun ++ leavingCastRun) = some (s, log) ∧
      casts log = [.all ⟨.command4, [8, 3]⟩, .one ⟨.command2, [8, 4]⟩ 0,
        .all ⟨.command1, [8, 5]⟩] ∧
      castsTo 0 log <:+: casts log ∧ castsTo 1 log <:+: casts log ∧
      (s.kernel.links (false, 0)).down.calls.map (·.sending.msg) =
        [⟨.command4, [8, 3]⟩, ⟨.command2, [8, 4]⟩, ⟨.command1, [8, 5]⟩] ∧
      (s.kernel.links (true, 0)).down.calls.map (·.sending.msg) = [⟨.command4, [8, 3]⟩] ∧
      connections (clientLog false log) = [conn] ∧
      conn.out.map Delivery.msg = [⟨.command4, [8, 3]⟩, ⟨.command2, [8, 4]⟩] ∧
      conn.out.map Delivery.msg <+: ((castsTo 0 log).filter (Cast.selects · 0)).map Cast.msg := by
  have hends : (twoClients.runFrom twoClients.init (twoConnectRun ++ leavingCastRun)).map
      (fun next ↦ ([casts next.2, castsTo 0 next.2, castsTo 1 next.2],
        [(next.1.kernel.links (false, 0)).id, (next.1.kernel.links (true, 0)).id],
        decide (∀ call ∈ (next.1.kernel.links (false, 0)).down.calls,
          call.sending.Ok TestProtocol.proto TestProtocol.endpoint ∧ call.succeeded = true),
        (connections (clientLog false next.2)).map fun conn ↦ conn.out.map Delivery.msg)) =
      some ([[.all ⟨.command4, [8, 3]⟩, .one ⟨.command2, [8, 4]⟩ 0, .all ⟨.command1, [8, 5]⟩],
          [.all ⟨.command4, [8, 3]⟩, .one ⟨.command2, [8, 4]⟩ 0, .all ⟨.command1, [8, 5]⟩],
          [.all ⟨.command4, [8, 3]⟩, .one ⟨.command2, [8, 4]⟩ 0]], [some 0, some 1], true,
        [[⟨.command4, [8, 3]⟩, ⟨.command2, [8, 4]⟩]]) := by
    decide +kernel
  obtain ⟨⟨s, log⟩, hrun, hends⟩ := Option.map_eq_some_iff.mp hends
  simp only [Prod.mk.injEq, List.cons.injEq, and_true] at hends
  obtain ⟨⟨hcasts, hto, hto'⟩, ⟨hfirst, hsecond⟩, hcalls, hconns⟩ := hends
  obtain ⟨conn, hconn, hout⟩ := List.map_eq_singleton_iff.mp hconns
  have hreach : twoClients.Reaches (fun _ log l ↦ NetFresh log l) s log :=
    .run .init leavingCastRun_fresh hrun
  obtain ⟨hgapless, -, hsent, hdispatched⟩ := clients_see_casts Tcp.stream_inOrder
    (fun _ ↦ TestProtocol.endpoint_callbacksKeep) TestProtocol.endpoint_callbacksKeep hreach
  refine ⟨s, log, conn, hrun, hcasts, hgapless 0, hgapless 1, ?_, ?_, hconn, hout, ?_⟩
  · refine (hsent _ 0 hfirst).trans ?_
    rw [hto]
    decide
  · refine (hsent _ 1 hsecond).trans ?_
    rw [hto']
    decide
  · exact hdispatched false [] conn [] 0 rfl hconn hfirst (of_decide_eq_true hcalls)

end Libgep
