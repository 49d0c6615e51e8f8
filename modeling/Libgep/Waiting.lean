import Libgep.CastOrder
import Libgep.DescriptorUse
import Mathlib.Algebra.BigOperators.Group.Finset.Basic
import Mathlib.Algebra.Order.BigOperators.Group.Finset

/-!
# Waiting for older clients

`RecvData` serves the first channel of the vector that is ready, and a new
channel is put behind the others.  A client with something to read so waits
for those that have been connected for longer, and for each of them no more
often than there is something to read from it.
-/

namespace Libgep

open CInt Transition

variable {κ Msg : Type*}

/-! ## The calls of `Recv` -/

/-- What `Recv` has returned for a client. -/
def recvResults (id : ℤ) (log : List (ArrayEvent Msg)) : List RawRecv :=
  log.filterMap fun
    | .channel id' (.recv _ _ r) => if id' = id then some r else none
    | _ => none

theorem recvResults_append (id : ℤ) (xs ys : List (ArrayEvent Msg)) :
    recvResults id (xs ++ ys) = recvResults id xs ++ recvResults id ys :=
  List.filterMap_append

theorem recvResults_closing (id : ℤ) {es : List (ArrayEvent Msg)}
    (h : ∀ ev ∈ es, ev.IsClosing) : recvResults id es = [] := by
  refine List.filterMap_eq_nil_iff.mpr fun ev hev ↦ ?_
  have hclosing := h ev hev
  cases ev <;> first | rfl | exact hclosing.elim

theorem recvResults_channel (id id' : ℤ) {events : List (RecvEvent Msg)} (h : NoRecv events) :
    recvResults id (events.map (.channel id')) = [] := by
  rw [recvResults, List.filterMap_map]
  refine List.filterMap_eq_nil_iff.mpr fun ev hev ↦ ?_
  have hnot := h ev hev
  cases ev <;> first | rfl | exact absurd trivial hnot

/-- A `RecvData` calls `Recv` once. -/
theorem recvResults_served {e : Endpoint Msg} {c : GepChannel} {r : RawRecv}
    (hsocket : 0 ≤ c.socket) (hroom : toUnsigned 64 c.len < kMaxMsgLen) (id : ℤ) :
    recvResults id ((c.recvData e r).events.map (.channel c.id)) = if c.id = id then [r] else [] := by
  obtain ⟨events, hevents, hnoRecv⟩ := GepChannel.recvData_events e r hsocket hroom
  have hrest : recvResults id (events.map (.channel c.id)) = [] :=
    recvResults_channel id c.id hnoRecv
  rw [hevents, List.map_cons, ← List.singleton_append, recvResults_append, hrest, List.append_nil]
  by_cases hid : c.id = id <;> simp [recvResults, hid]

/-- The clients that `Recv` was called for. -/
def recvIds (log : List (ArrayEvent Msg)) : List ℤ :=
  log.filterMap fun
    | .channel id (.recv _ _ _) => some id
    | _ => none

theorem recvIds_append (xs ys : List (ArrayEvent Msg)) :
    recvIds (xs ++ ys) = recvIds xs ++ recvIds ys :=
  List.filterMap_append

theorem count_recvIds (id : ℤ) (log : List (ArrayEvent Msg)) :
    (recvIds log).count id = (recvResults id log).length := by
  induction log with
  | nil => rfl
  | cons ev log ih =>
      rw [← List.singleton_append, recvIds_append, recvResults_append, List.count_append,
        List.length_append, ih]
      congr 1
      cases ev with
      | channel id' ev =>
          cases ev with
          | recv => by_cases hid : id' = id <;> simp [recvIds, recvResults, hid]
          | _ => rfl
      | _ => rfl

theorem recvIds_served {e : Endpoint Msg} {c : GepChannel} {r : RawRecv}
    (hsocket : 0 ≤ c.socket) (hroom : toUnsigned 64 c.len < kMaxMsgLen) :
    c.id ∈ recvIds ((c.recvData e r).events.map (.channel c.id)) := by
  obtain ⟨events, hevents, -⟩ := GepChannel.recvData_events e r hsocket hroom
  rw [hevents]
  exact List.mem_cons_self

/-- A `RecvData` that gets nothing fails. -/
theorem recvData_neg_of_chunks {e : Endpoint Msg} {c : GepChannel} {r : RawRecv}
    (h : r.chunks = []) {ret : ℤ} (hret : (c.recvData e r).ret = some ret) : ret < 0 := by
  cases GepChannel.recvData_inv e c r with
  | refused _ eq | failed _ _ _ _ eq | closed _ _ _ eq =>
      rw [eq] at hret
      cases hret
      decide
  | received bytes _ _ data ne =>
      obtain ⟨b, bytes, rfl⟩ := List.exists_cons_of_ne_nil ne
      rw [data] at h
      cases h

/-- Every call but those that get nothing takes a byte. -/
theorem length_le_bytes (rs : List RawRecv) :
    rs.length ≤ (rs.flatMap RawRecv.chunks).flatten.length + rs.countP (·.chunks.isEmpty) := by
  induction rs with
  | nil => exact Nat.le_refl 0
  | cons r rs ih =>
      have hfirst : 1 ≤ r.chunks.flatten.length + if r.chunks.isEmpty then 1 else 0 := by
        rcases r with (- | ⟨b, bytes⟩) | errno <;> simp [RawRecv.chunks]
      rw [List.flatMap_cons, List.flatten_append, List.length_append, List.countP_cons,
        List.length_cons]
      omega

/-! ## How often a client is served -/

/-- The ledger adds up what the calls of `Recv` have returned; only the last
call for a client may have got nothing, and then the client goes. -/
structure RecvsOk (s : ArrayState) (log : List (ArrayEvent Msg)) : Prop where
  chunks : ∀ id, (ledger log).chunks id = (recvResults id log).flatMap RawRecv.chunks
  fresh : ∀ id, s.array.lastChannelId ≤ id → recvResults id log = []
  nonempty : ∀ addr ∈ s.array.vector, ¬ s.Failed addr →
    ∀ r ∈ recvResults (s.array.heap addr).id log, r.chunks ≠ []
  once : ∀ id, (recvResults id log).countP (·.chunks.isEmpty) ≤ 1

namespace RecvsOk

variable {e : Endpoint Msg} {s s' : ArrayState} {log es : List (ArrayEvent Msg)}

/-- A step that serves nobody. -/
theorem carry (hs : RecvsOk s log) (hchunks : (ledger (log ++ es)).chunks = (ledger log).chunks)
    (hnone : ∀ id, recvResults id es = [])
    (hlast : s.array.lastChannelId ≤ s'.array.lastChannelId)
    (hremain : ∀ addr ∈ s'.array.vector, s.array.lastChannelId ≤ (s'.array.heap addr).id ∨
      addr ∈ s.array.vector ∧ (s'.array.heap addr).id = (s.array.heap addr).id ∧
        (s.Failed addr → s'.Failed addr)) : RecvsOk s' (log ++ es) := by
  have hsame : ∀ id, recvResults id (log ++ es) = recvResults id log := by
    intro id
    rw [recvResults_append, hnone, List.append_nil]
  refine ⟨fun id ↦ ?_, fun id hid ↦ ?_, fun addr hmem hfailed ↦ ?_, fun id ↦ ?_⟩
  · rw [hchunks, hsame]
    exact hs.chunks id
  · rw [hsame]
    exact hs.fresh id (hlast.trans hid)
  · rw [hsame]
    rcases hremain addr hmem with hnew | ⟨hold, hid, himp⟩
    · rw [hs.fresh _ hnew]
      exact List.forall_mem_nil _
    · rw [hid]
      exact hs.nonempty addr hold fun h ↦ hfailed (himp h)
  · rw [hsame]
    exact hs.once id

theorem served (hs : RecvsOk s log) (hi : IsolationOk e s log) (ha : ArrayOk s.array s.retained)
    {addr : ℕ} (hmem : addr ∈ s.array.vector) (hserving : s.serving = some ⟨addr, none⟩)
    {r : RawRecv} {ret : ℤ} (hret : ((s.array.heap addr).recvData e r).ret = some ret) :
    RecvsOk
      ⟨s.array.withState addr ((s.array.heap addr).recvData e r).chan, some ⟨addr, some ret⟩⟩
      (log ++ ((s.array.heap addr).recvData e r).events.map (.channel (s.array.heap addr).id)) := by
  obtain ⟨hpos, -, howns⟩ := hi.socket addr hmem
  have hnotFailed := s.not_failed (by simp [hserving])
  have hroom := (hi.holds addr hmem (hnotFailed addr)).room
  have hresults := recvResults_served (e := e) (r := r) hpos hroom
  have hledger := IsolationOk.ledger_served hpos hroom hret howns
  have hold := hs.nonempty addr hmem (hnotFailed addr)
  have hkeeps : GepChannelArray.Keeps s.array
      (s.array.withState addr ((s.array.heap addr).recvData e r).chan) :=
    s.array.withState_keeps (GepChannel.recvData_socketKept e _ r).id
  refine ⟨fun id ↦ ?_, fun id hge ↦ ?_, fun addr' hmem' hfailed ↦ ?_, fun id ↦ ?_⟩
  · rw [hledger, recvResults_append, List.flatMap_append, hresults]
    by_cases hid : (s.array.heap addr).id = id
    · subst hid
      rw [if_pos rfl, List.flatMap_singleton, ← hs.chunks]
      exact Function.update_self _ _ _
    · rw [if_neg hid, List.flatMap_nil, List.append_nil, ← hs.chunks]
      exact Function.update_of_ne (Ne.symm hid) _ _
  · have hlt : (s.array.heap addr).id < id := (hi.owner _ _ howns).trans_le hge
    rw [recvResults_append, hresults, if_neg hlt.ne, List.append_nil]
    exact hs.fresh id hge
  · rw [hkeeps.id, recvResults_append, hresults]
    by_cases heq : addr' = addr
    · subst heq
      rw [if_pos rfl]
      refine List.forall_mem_append.mpr ⟨hold, List.forall_mem_singleton.mpr fun hnil ↦ ?_⟩
      exact hfailed ⟨ret, recvData_neg_of_chunks hnil hret, rfl⟩
    · have hid : (s.array.heap addr).id ≠ (s.array.heap addr').id :=
        fun hid ↦ heq (ha.id_injective hmem hmem' hid).symm
      rw [if_neg hid, List.append_nil]
      exact hs.nonempty addr' hmem' (hnotFailed addr')
  · rw [recvResults_append, hresults, List.countP_append]
    by_cases hid : (s.array.heap addr).id = id
    · subst hid
      have hzero : (recvResults (s.array.heap addr).id log).countP (·.chunks.isEmpty) = 0 :=
        List.countP_eq_zero.mpr fun r' hr' ↦ by simpa using hold r' hr'
      rw [hzero, Nat.zero_add]
      exact List.countP_le_length.trans (by simp)
    · rw [if_neg hid]
      exact hs.once id

theorem step (hs : RecvsOk s log) (hi : IsolationOk e s log) (ha : ArrayOk s.array s.retained)
    (hretained : ∀ addr ∈ s.retained, addr ∈ s.array.vector) {l : ArrayLabel}
    (h : arrayStep e s l = some (s', es)) : RecvsOk s' (log ++ es) := by
  have hremain : ∀ {a : GepChannelArray} {addr : ℕ}, GepChannelArray.Keeps s.array a →
      addr ∈ s.array.vector → (s.Failed addr → s'.Failed addr) →
        s.array.lastChannelId ≤ (a.heap addr).id ∨ addr ∈ s.array.vector ∧
          (a.heap addr).id = (s.array.heap addr).id ∧ (s.Failed addr → s'.Failed addr) :=
    fun hkeeps hmem hfailed ↦ .inr ⟨hmem, hkeeps.id _, hfailed⟩
  cases arrayStep_spec h with
  | openServerSocket env =>
      have hkeeps := @s.array.openServerSocket_keeps Msg env
      refine hs.carry ?_ (fun id ↦ ?_) hkeeps.lastChannelId.ge fun addr hmem ↦ ?_
      · rw [ledger_append]
        rcases @s.array.openServerSocket_events Msg env with ⟨-, hes⟩ | ⟨-, hes | hes | hes⟩ <;>
          rw [hes] <;> rfl
      · rcases @s.array.openServerSocket_events Msg env with ⟨-, hes⟩ | ⟨-, hes | hes | hes⟩ <;>
          rw [hes] <;> rfl
      · rw [s.array.openServerSocket_vector] at hmem
        exact hremain hkeeps hmem id
  | refused stale | full fd stale =>
      refine hs.carry ?_ (fun _ ↦ rfl) le_rfl fun addr hmem ↦ hremain (.refl _) hmem id
      rw [ledger_append, List.foldl_cons, List.foldl_nil, Ledger.record]
      split <;> rfl
  | added fd stale hfd hroom =>
      refine hs.carry ?_ (fun _ ↦ rfl) (Int.le_of_lt (Int.lt_succ _)) fun addr hmem ↦ ?_
      · rw [ledger_append]
        simp only [List.foldl_cons, List.foldl_nil, Ledger.record, if_neg hfd]
        rfl
      · rcases List.mem_append.mp hmem with hmem | hmem
        · refine .inr ⟨hmem, ?_, id⟩
          rw [ArrayOk.withChannel_heap_of_lt _ _ _ (ha.addr addr (List.mem_append_left _ hmem))]
        · rw [List.mem_singleton.mp hmem, ArrayOk.withChannel_heap_self]
          exact .inl le_rfl
  | idle readFds hserving | picked readFds addr hserving =>
      rw [List.append_nil]
      have hnotFailed := s.not_failed (by simp [hserving])
      exact ⟨hs.chunks, hs.fresh, fun addr' hmem _ ↦ hs.nonempty addr' hmem (hnotFailed addr'), hs.once⟩
  | served addr r ret hserving hfits hret =>
      exact hs.served hi ha (hretained addr (by simp [ArrayState.retained, hserving])) hserving hret
  | finished addr ret hserving =>
      have hkeeps := @s.array.finish_keeps Msg addr ret
      have hclosing := @finish_closing Msg s.array addr ret
      refine hs.carry ?_ (recvResults_closing · hclosing) hkeeps.lastChannelId.ge fun addr' hmem ↦ ?_
      · rw [ledger_append]
        exact closing_chunks hclosing _
      · rw [s.array.finish_vector] at hmem
        split_ifs at hmem with hret
        · -- the channel that has failed is not in the vector any more
          refine hremain hkeeps (List.mem_of_mem_erase hmem) ?_
          rintro ⟨ret', -, hsome⟩
          rw [hserving] at hsome
          cases hsome
          exact absurd hmem ha.nodup.not_mem_erase
        · refine hremain hkeeps hmem ?_
          rintro ⟨ret', hneg, hsome⟩
          rw [hserving] at hsome
          cases hsome
          exact absurd hneg hret
  | stopped =>
      have hclosing := @stop_closing Msg s.array s.retained
      refine hs.carry ?_ (recvResults_closing · hclosing) (s.array.stop_keeps _).lastChannelId.ge ?_
      · rw [ledger_append]
        exact closing_chunks hclosing _
      · rw [s.array.stop_vector]
        exact List.forall_mem_nil _

end RecvsOk

theorem recvsOk {e : Endpoint Msg} (hk : e.CallbacksKeep) {maxChannels port : ℤ}
    {heap : ℕ → GepChannel} {s : ArrayState} {log : List (ArrayEvent Msg)}
    (h : (arrayMachine e (.new maxChannels port heap)).Reaches
      (fun s log l ↦ FreshFds log l ∧ Serial s l) s log) : RecvsOk s log := by
  refine h.invariant ?_ fun {s s' log es l} hreach hs hok hstep ↦ ?_
  · exact ⟨fun _ ↦ rfl, fun _ _ ↦ rfl, by rintro _ ⟨⟩, fun _ ↦ Nat.zero_le 1⟩
  · have hserial := hreach.mono fun s _ l hl ↦ (⟨trivial, hl.2⟩ : True ∧ Serial s l)
    exact hs.step (isolationOk hk hreach) (arrayOk hreach) (lifecycleOk hserial).serving hstep

/-! ## The oldest client first -/

/-- `select` reports `fd`, and the server is not stopped. -/
def ServerLabel.Reports (fd : ℤ) : ServerLabel → Prop
  | .join => False
  | .select (.ready fds) => fds fd = true
  | _ => True

/-- Among the channels that are ready the one of the oldest client is served. -/
theorem pick_oldest {a : GepChannelArray} {retained : List ℕ} (ha : ArrayOk a retained)
    {readFds : FdSet} {addr addr' : ℕ} (hpick : a.pick readFds = some addr') (hmem : addr ∈ a.vector)
    (hpos : 0 ≤ (a.heap addr).socket) (hready : readFds (a.heap addr).socket = true) :
    addr' = addr ∨ (a.heap addr').id < (a.heap addr).id := by
  obtain ⟨-, younger, older, hvector, hnot⟩ := List.find?_eq_some_iff_append.mp hpick
  have hids := ha.ids
  rw [GepChannelArray.ids, hvector, List.map_append, List.map_cons] at hids
  rw [hvector] at hmem
  rcases List.mem_append.mp hmem with hbefore | hbehind
  · have hskipped := hnot addr hbefore
    simp [hpos, hready] at hskipped
  · rcases List.mem_cons.mp hbehind with rfl | hbehind
    · exact .inl rfl
    · have hrest := (List.pairwise_append.mp hids).2.1
      exact .inr (List.rel_of_pairwise_cons hrest (List.mem_map_of_mem hbehind))

/-- The client of the channel `c` has not been served, and nobody younger is
being served: its descriptor is among those that are ready. -/
structure WaitsBehind (s : GepServer) (addr : ℕ) (c : GepChannel) : Prop where
  mem : addr ∈ s.array.array.vector
  heap : s.array.array.heap addr = c
  passed : ∀ serverSocket passed, s.pc = .selecting serverSocket passed → passed c.socket = true
  ready : ∀ serverSocket readFds, s.pc = .selected serverSocket readFds →
    readFds c.socket = true
  serving : ∀ addr' ret, s.array.serving = some ⟨addr', ret⟩ →
    addr' = addr ∧ ret = none ∨ (s.array.array.heap addr').id < c.id

namespace WaitsBehind

variable {e : Endpoint Msg} {s s' : GepServer} {log es : List (ArrayEvent Msg)} {addr : ℕ}
  {c : GepChannel} {l : ServerLabel}

/-- At the head of the loop everybody waits. -/
theorem of_head {serverSocket : ℤ} (hserver : ServerOk s) (hpc : s.pc = .head serverSocket)
    (hmem : addr ∈ s.array.array.vector) : WaitsBehind s addr (s.array.array.heap addr) := by
  have hnone := hserver.serving_eq_none (by simp [hpc])
  exact ⟨hmem, rfl, by simp [hpc], by simp [hpc], by simp [hnone]⟩

/-- The thread goes on to where it does not look at the descriptors. -/
theorem of_pc (hs : WaitsBehind s addr c) (harray : s'.array = s.array)
    (hselecting : ∀ serverSocket passed, s'.pc ≠ .selecting serverSocket passed)
    (hselected : ∀ serverSocket readFds, s'.pc ≠ .selected serverSocket readFds) :
    WaitsBehind s' addr c := by
  refine ⟨?_, ?_, fun _ _ hpc ↦ absurd hpc (hselecting _ _),
    fun _ _ hpc ↦ absurd hpc (hselected _ _), ?_⟩
  · rw [harray]
    exact hs.mem
  · rw [harray]
    exact hs.heap
  · rw [harray]
    exact hs.serving

theorem step (hs : WaitsBehind s addr c) (hserver : ServerOk s) (hi : IsolationOk e s.array log)
    (ha : ArrayOk s.array.array s.array.retained)
    (hretained : ∀ addr ∈ s.array.retained, addr ∈ s.array.array.vector) (hl : l.Reports c.socket)
    (h : serverStep e s l = some (s', es)) (hnot : recvResults c.id es = []) :
    WaitsBehind s' addr c ∧
      ∀ id, recvResults id es ≠ [] → id ∈ s.array.array.ids ∧ id < c.id := by
  obtain ⟨hmem, rfl, hpassed, hready, hserving⟩ := id hs
  have hpos := (hi.socket addr hmem).1
  have hnobody : ∀ id, recvResults id ([] : List (ArrayEvent Msg)) ≠ [] →
      id ∈ s.array.array.ids ∧ id < (s.array.array.heap addr).id := fun _ h ↦ absurd rfl h
  cases serverStep_spec h with
  | start env hpc =>
      rw [(hserver.idle hpc).1] at hmem
      cases hmem
  | join => exact hl.elim
  | stop => exact ⟨⟨hmem, rfl, hpassed, hready, hserving⟩, hnobody⟩
  | enter hpc =>
      refine ⟨hs.of_pc rfl (fun _ _ ↦ ?_) fun _ _ ↦ ?_, hnobody⟩ <;> dsimp only <;> split <;>
        rintro ⟨⟩
  | loopQuit | recvQuit | acceptQuit | acceptNone | acceptBegin =>
      exact ⟨hs.of_pc rfl (by rintro _ _ ⟨⟩) (by rintro _ _ ⟨⟩), hnobody⟩
  | loop serverSocket readFds hpc hctrl hfds =>
      refine ⟨⟨hmem, rfl, ?_, by rintro _ _ ⟨⟩, hserving⟩, hnobody⟩
      rintro _ _ ⟨⟩
      exact (GepServer.readFds_eq_true hfds).mpr (.inr ⟨addr, hmem, hpos, rfl⟩)
  | select r serverSocket passed hpc =>
      refine ⟨⟨hmem, rfl, fun _ _ hnext ↦ ?_, fun _ _ hnext ↦ ?_, hserving⟩, hnobody⟩ <;>
        dsimp only at hnext <;> split_ifs at hnext
      cases hnext
      have hset := hpassed _ _ hpc
      cases r with
      | ready fds => exact Bool.and_eq_true_iff.mpr ⟨hset, hl⟩
      | error errno => exact hset
  | recvBegin serverSocket readFds array es hpc hctrl harray =>
      cases arrayStep_spec harray with
      | idle _ hnone hpick =>
          refine ⟨⟨hmem, rfl, fun _ _ hnext ↦ ?_, fun _ _ hnext ↦ ?_, hserving⟩, hnobody⟩ <;>
            dsimp only at hnext <;> split_ifs at hnext
      | picked _ addr' hnone hpick =>
          refine ⟨⟨hmem, rfl, fun _ _ hnext ↦ ?_, fun _ _ hnext ↦ ?_, ?_⟩, hnobody⟩
          · dsimp only at hnext
            split_ifs at hnext
          · dsimp only at hnext
            split_ifs at hnext
          · rintro _ _ ⟨⟩
            exact (pick_oldest ha hpick hmem hpos (hready _ _ hpc)).imp (⟨·, rfl⟩) id
  | recv r serverSocket readFds array es hpc harray =>
      cases arrayStep_spec harray with
      | served addr' _ ret hsome hfits hret =>
          have hmem' := hretained addr' (by simp [ArrayState.retained, hsome])
          have hpos' := (hi.socket addr' hmem').1
          have hnotFailed := s.array.not_failed (by simp [hsome]) addr'
          have hroom := (hi.holds addr' hmem' hnotFailed).room
          have hresults := recvResults_served (e := e) (r := r) hpos' hroom
          rcases hserving addr' none hsome with ⟨rfl, -⟩ | hlt
          · -- the client that waits would be served
            rw [hresults, if_pos rfl] at hnot
            cases hnot
          · have hne : addr ≠ addr' := by
              rintro rfl
              exact hlt.false
            have hkeeps : GepChannelArray.Keeps s.array.array
                (s.array.array.withState addr' ((s.array.array.heap addr').recvData e r).chan) :=
              s.array.array.withState_keeps (GepChannel.recvData_socketKept e _ r).id
            refine ⟨⟨hmem, s.array.array.withState_heap_of_ne _ hne, by rintro _ _ ⟨⟩,
              by rintro _ _ ⟨⟩, ?_⟩, fun id hid ↦ ?_⟩
            · rintro _ _ ⟨⟩
              rw [hkeeps.id]
              exact .inr hlt
            · rw [hresults] at hid
              obtain rfl : (s.array.array.heap addr').id = id := by
                by_contra hother
                exact hid (if_neg hother)
              exact ⟨s.array.array.mem_ids.mpr ⟨addr', hmem', rfl⟩, hlt⟩
  | recvEnd serverSocket readFds array es hpc harray =>
      cases arrayStep_spec harray with
      | finished addr' ret hsome =>
          have hne : addr ≠ addr' := by
            rintro rfl
            rcases hserving _ _ hsome with ⟨-, hnone⟩ | hlt
            · cases hnone
            · exact hlt.false
          refine ⟨⟨?_, s.array.array.finish_heap_of_ne ret hne, by rintro _ _ ⟨⟩,
            by rintro _ _ ⟨⟩, by rintro _ _ ⟨⟩⟩, fun id hid ↦ ?_⟩
          · rw [s.array.array.finish_vector]
            split
            · exact (List.mem_erase_of_ne hne).mpr hmem
            · exact hmem
          · exact absurd (recvResults_closing id (finish_closing _ _ _)) hid
  | accept fd stale serverSocket readFds array es hpc harray =>
      have hnone := hserver.serving_eq_none (by simp [hpc])
      have hnext : ∀ (array : ArrayState), array.serving = s.array.serving →
          addr ∈ array.array.vector → array.array.heap addr = s.array.array.heap addr →
            WaitsBehind { s with array := array, pc := if fd = -1 then .exited else .head serverSocket }
              addr (s.array.array.heap addr) := by
        intro array hsame hmem' hheap
        refine ⟨hmem', hheap, fun _ _ hpc' ↦ ?_, fun _ _ hpc' ↦ ?_, fun addr' ret hsome ↦ ?_⟩
        · dsimp only at hpc'
          split_ifs at hpc'
        · dsimp only at hpc'
          split_ifs at hpc'
        · rw [hsame, hnone] at hsome
          cases hsome
      cases arrayStep_spec harray with
      | refused | full => exact ⟨hnext s.array rfl hmem rfl, fun _ hid ↦ absurd rfl hid⟩
      | added fd stale hfd hroom =>
          have hlt := ha.addr addr (List.mem_append_left _ hmem)
          exact ⟨hnext _ rfl (List.mem_append_left _ hmem)
            (ArrayOk.withChannel_heap_of_lt _ _ _ hlt), fun _ hid ↦ absurd rfl hid⟩

end WaitsBehind

/-- A `RecvData` that has begun, and has not called `Recv`; the last of a
thread that exits may never do that. -/
def GepServer.pending (s : GepServer) : ℕ :=
  match s.pc, s.array.serving with
  | .exited, _ => 1
  | _, some ⟨_, none⟩ => 1
  | _, _ => 0

def ServerLabel.isRound : ServerLabel → Bool
  | .recvBegin => true
  | _ => false

/-- While a client waits, `RecvData` serves somebody in each round. -/
theorem WaitsBehind.round {e : Endpoint Msg} {s s' : GepServer} {log es : List (ArrayEvent Msg)}
    {addr : ℕ} {c : GepChannel} (hs : WaitsBehind s addr c) (hserver : ServerOk s)
    (hi : IsolationOk e s.array log)
    (hretained : ∀ addr ∈ s.array.retained, addr ∈ s.array.array.vector) {l : ServerLabel}
    (hl : l.Reports c.socket) (h : serverStep e s l = some (s', es)) :
    l.isRound.toNat + s.pending ≤ (recvIds es).length + s'.pending := by
  obtain ⟨hmem, rfl, -, hready, -⟩ := hs
  have hpos := (hi.socket addr hmem).1
  have hnone : (∀ serverSocket readFds, s.pc ≠ .receiving serverSocket readFds) →
      s.array.serving = none := hserver.serving_eq_none
  cases serverStep_spec h with
  | start env hpc =>
      rw [(hserver.idle hpc).1] at hmem
      cases hmem
  | join => exact hl.elim
  | stop => exact (Nat.zero_add _).trans_le (Nat.le_add_left _ _)
  | enter hpc | loop _ _ hpc | select _ _ _ hpc | loopQuit _ hpc | recvQuit _ _ hpc
    | acceptQuit _ _ hpc | acceptNone _ _ hpc | acceptBegin _ _ hpc | accept _ _ _ _ _ _ hpc =>
      simp [GepServer.pending, ServerLabel.isRound, hpc, hnone (by simp [hpc])]
  | recvBegin serverSocket readFds array es hpc hctrl harray =>
      cases arrayStep_spec harray with
      | idle _ hserving hpick =>
          have hskipped := List.find?_eq_none.mp hpick addr hmem
          simp [hpos, hready _ _ hpc] at hskipped
      | picked _ addr' hserving hpick =>
          simp [GepServer.pending, ServerLabel.isRound, hpc, hserving]
  | recv r serverSocket readFds array es hpc harray =>
      cases arrayStep_spec harray with
      | served addr' _ ret hsome hfits hret =>
          have hmem' := hretained addr' (by simp [ArrayState.retained, hsome])
          have hpos' := (hi.socket addr' hmem').1
          have hnotFailed := s.array.not_failed (by simp [hsome]) addr'
          have hids := recvIds_served (e := e) (r := r) hpos' (hi.holds addr' hmem' hnotFailed).room
          have hone := List.length_pos_of_mem hids
          simp only [GepServer.pending, ServerLabel.isRound, hpc, hsome]
          exact hone
  | recvEnd serverSocket readFds array es hpc harray =>
      cases arrayStep_spec harray with
      | finished addr' ret hsome => simp [GepServer.pending, ServerLabel.isRound, hpc, hsome]

/-- Whoever is added is younger than all clients so far. -/
theorem arrayStep_mem_ids {e : Endpoint Msg} {s s' : ArrayState} {l : ArrayLabel}
    {es : List (ArrayEvent Msg)} (ha : ArrayOk s.array s.retained)
    (h : arrayStep e s l = some (s', es)) {id : ℤ} (hid : id ∈ s'.array.ids) :
    id ∈ s.array.ids ∨ s.array.lastChannelId ≤ id := by
  have hkept : ∀ {a : GepChannelArray}, GepChannelArray.Keeps s.array a →
      a.vector ⊆ s.array.vector → id ∈ a.ids → id ∈ s.array.ids := by
    intro a hkeeps hvector hid
    obtain ⟨addr, hmem, rfl⟩ := a.mem_ids.mp hid
    exact s.array.mem_ids.mpr ⟨addr, hvector hmem, (hkeeps.id addr).symm⟩
  cases arrayStep_spec h with
  | openServerSocket env =>
      refine .inl (hkept (s.array.openServerSocket_keeps env) ?_ hid)
      rw [s.array.openServerSocket_vector]
      exact List.Subset.refl _
  | refused | full | idle | picked => exact .inl hid
  | added fd stale =>
      rw [ha.withChannel_ids, List.mem_append] at hid
      exact hid.imp_right fun hnew ↦ (List.mem_singleton.mp hnew).ge
  | served addr r =>
      have hkeeps : GepChannelArray.Keeps s.array
          (s.array.withState addr ((s.array.heap addr).recvData e r).chan) :=
        s.array.withState_keeps (GepChannel.recvData_socketKept e _ r).id
      exact .inl (hkept hkeeps (List.Subset.refl _) hid)
  | finished addr ret =>
      refine .inl (hkept (s.array.finish_keeps addr ret) ?_ hid)
      rw [s.array.finish_vector]
      split
      · exact List.erase_subset
      · exact List.Subset.refl _
  | stopped =>
      rw [GepChannelArray.ids, s.array.stop_vector] at hid
      cases hid

/-! ## Runs of the system -/

def NetLabel.Reports (fd : ℤ) : NetLabel κ Msg → Prop
  | .server l _ => l.Reports fd
  | _ => True

section System

variable [DecidableEq κ] {t : Tcp} {ec : κ → Endpoint Msg} {es : Endpoint Msg}
  {s s' : Net κ (protos ec) es.proto} {stale : κ → Buffer} {maxChannels port : ℤ}
  {heap : ℕ → GepChannel} {log evs : List (NetEvent κ Msg)}

/-- While a client waits, a step of the system calls `Recv` for older clients
only, and adds nobody who is older. -/
theorem WaitsBehind.net_step (hks : es.CallbacksKeep)
    (h : (netMachine t ec es stale (.new maxChannels port heap)).Reaches
      (fun _ log l ↦ NetFresh log l) s log) {addr : ℕ} {c : GepChannel}
    (hs : WaitsBehind s.server addr c) {l : NetLabel κ Msg} (hl : l.Reports c.socket)
    (hstep : netStep t ec es s l = some (s', evs)) (hnot : recvResults c.id (serverLog evs) = []) :
    WaitsBehind s'.server addr c ∧
      (∀ id, recvResults id (serverLog evs) ≠ [] → id ∈ s.server.array.array.ids ∧ id < c.id) ∧
      ∀ id ∈ s'.server.array.array.ids, id < c.id → id ∈ s.server.array.array.ids := by
  have hserver := net_server h
  have harray := fresh_array hserver
  have ha := arrayOk harray
  have hserial := harray.mono fun s _ l hl ↦ (⟨trivial, hl.2⟩ : True ∧ Serial s l)
  cases netStep_spec hstep with
  | server l x next events kernel hnext =>
      rw [serverLog_map_server] at hnot ⊢
      obtain ⟨hs', holder⟩ := hs.step (serverOk rfl hserver) (isolationOk hks harray) ha
        (lifecycleOk hserial).serving hl hnext hnot
      refine ⟨hs', holder, fun id hid hlt ↦ ?_⟩
      have hlast : c.id < s.server.array.array.lastChannelId :=
        (ha.id c.id (s.server.array.array.mem_ids.mpr ⟨addr, hs.mem, by rw [hs.heap]⟩)).2
      rcases serverStep_array hnext with ⟨hsame, -⟩ | ⟨l', -, harrayStep⟩
      · rwa [← hsame]
      · exact (arrayStep_mem_ids ha harrayStep hid).resolve_right (hlt.trans hlast).not_ge
  | client i l elsewhere next events =>
      have hnone : serverLog (events.map (.client i) : List (NetEvent κ Msg)) = [] := by
        simp [serverLog]
      rw [hnone]
      exact ⟨hs, fun _ hid ↦ absurd rfl hid, fun _ hid _ ↦ hid⟩
  | clientSend | unsent | serverSend | reset =>
      exact ⟨hs, fun _ hid ↦ absurd rfl hid, fun _ hid _ ↦ hid⟩

theorem recvs_of_older (hks : es.CallbacksKeep)
    (h : (netMachine t ec es stale (.new maxChannels port heap)).Reaches
      (fun _ log l ↦ NetFresh log l) s log) {addr : ℕ} {c : GepChannel}
    (hs : WaitsBehind s.server addr c) {ls : List (NetLabel κ Msg)}
    (hfresh : (netMachine t ec es stale (.new maxChannels port heap)).Along
      (fun _ log l ↦ NetFresh log l) s log ls) (hls : ∀ l ∈ ls, l.Reports c.socket)
    (hrun : (netMachine t ec es stale (.new maxChannels port heap)).runFrom s ls = some (s', evs))
    (hnot : recvResults c.id (serverLog evs) = []) {id : ℤ}
    (hid : recvResults id (serverLog evs) ≠ []) :
    id ∈ s.server.array.array.ids ∧ id < c.id := by
  induction ls generalizing s log evs with
  | nil =>
      cases hrun
      exact absurd rfl hid
  | cons l ls ih =>
      obtain ⟨s₁, es₁, es₂, hstep, hrest, rfl⟩ := Machine.runFrom_cons hrun
      obtain ⟨hl, hls⟩ := List.forall_mem_cons.mp hls
      rw [serverLog_append, recvResults_append] at hnot hid
      obtain ⟨hnot₁, hnot₂⟩ := List.append_eq_nil_iff.mp hnot
      obtain ⟨hs₁, hfirst, hold⟩ := hs.net_step hks h hl hstep hnot₁
      by_cases hid₁ : recvResults id (serverLog es₁) = []
      · rw [hid₁, List.nil_append] at hid
        obtain ⟨hmem, hlt⟩ := ih (h.step hfresh.1 hstep) hs₁ (hfresh.2 s₁ es₁ hstep) hls hrest
          hnot₂ hid
        exact ⟨hold id hmem hlt, hlt⟩
      · exact hfirst id hid₁

/-- The connection of a client is that of its descriptor. -/
theorem exists_link_of_mem (ht : t.InOrder) (hkc : ∀ i, (ec i).CallbacksKeep)
    (hks : es.CallbacksKeep)
    (h : (netMachine t ec es stale (.new maxChannels port heap)).Reaches
      (fun _ log l ↦ NetFresh log l) s log) {id : ℤ} (hid : id ∈ s.server.array.array.ids) :
    ∃ x, (s.kernel.links x).id = some id := by
  have hview := (netView ht hks hkc h).server.view
  obtain ⟨addr, hmem, rfl⟩ := s.server.array.array.mem_ids.mp hid
  have howns := ((isolationOk hks (fresh_array (net_server h))).socket addr hmem).2.2
  cases hfd : s.kernel.serverFds (s.server.array.array.heap addr).socket with
  | none =>
      rw [hview.unowned _ hfd] at howns
      cases howns
  | some x => exact ⟨x, (hview.owner _ x hfd).2.symm.trans howns⟩

/-- A connection keeps the id of its client. -/
theorem link_id_step (ht : t.InOrder) (hkc : ∀ i, (ec i).CallbacksKeep) (hks : es.CallbacksKeep)
    (h : (netMachine t ec es stale (.new maxChannels port heap)).Reaches
      (fun _ log l ↦ NetFresh log l) s log) {l : NetLabel κ Msg}
    (hstep : netStep t ec es s l = some (s', evs)) {x : κ × ℕ} {id : ℤ}
    (hid : (s.kernel.links x).id = some id) : (s'.kernel.links x).id = some id := by
  cases netStep_spec hstep with
  | server l y next events kernel hnext hkernel =>
      rcases serverStep_array hnext with ⟨-, rfl⟩ | ⟨l', -, harray⟩
      · cases hkernel
        exact hid
      · rcases (netView ht hks hkc h).server.new_id harray hkernel x with hsame | ⟨-, hnone⟩
        · exact hsame.trans hid
        · rw [hnone] at hid
          cases hid
  | client i l elsewhere next events kernel hclient hkernel =>
      exact ((Kernel.client_keeps hkernel).id x).trans hid
  | clientSend i m call n hfd =>
      exact (Kernel.pushUp_id (k := s.kernel) (x := (i, n)) [call] x).trans hid
  | unsent | serverSend => exact hid
  | reset y => exact (s.kernel.reset_same Link.id (fun _ ↦ rfl) x).trans hid

theorem link_id_kept (ht : t.InOrder) (hkc : ∀ i, (ec i).CallbacksKeep) (hks : es.CallbacksKeep)
    (h : (netMachine t ec es stale (.new maxChannels port heap)).Reaches
      (fun _ log l ↦ NetFresh log l) s log) {ls : List (NetLabel κ Msg)}
    (hfresh : (netMachine t ec es stale (.new maxChannels port heap)).Along
      (fun _ log l ↦ NetFresh log l) s log ls)
    (hrun : (netMachine t ec es stale (.new maxChannels port heap)).runFrom s ls = some (s', evs))
    {x : κ × ℕ} {id : ℤ} (hid : (s.kernel.links x).id = some id) :
    (s'.kernel.links x).id = some id := by
  induction ls generalizing s log evs with
  | nil =>
      cases hrun
      exact hid
  | cons l ls ih =>
      obtain ⟨s₁, es₁, es₂, hstep, hrest, rfl⟩ := Machine.runFrom_cons hrun
      exact ih (h.step hfresh.1 hstep) (hfresh.2 s₁ es₁ hstep) hrest
        (link_id_step ht hkc hks h hstep hid)

/-- In any part of a run `Recv` is called for a client no more often than for
each byte that was left in its connection or was sent since, and once more. -/
theorem length_recvResults_le (ht : t.InOrder) (hkc : ∀ i, (ec i).CallbacksKeep) (hks : es.CallbacksKeep)
    (h : (netMachine t ec es stale (.new maxChannels port heap)).Reaches
      (fun _ log l ↦ NetFresh log l) s log)
    (h' : (netMachine t ec es stale (.new maxChannels port heap)).Reaches
      (fun _ log l ↦ NetFresh log l) s' (log ++ evs)) {x : κ × ℕ} {id : ℤ}
    (hid : (s.kernel.links x).id = some id) (hid' : (s'.kernel.links x).id = some id) :
    (recvResults id (serverLog evs)).length + (Call.wire (s.kernel.links x).up.calls).length ≤
      (s.kernel.links x).up.queue.length + (Call.wire (s'.kernel.links x).up.calls).length + 1 := by
  have hrecvs := recvsOk hks (fresh_array (net_server h))
  have hrecvs' := recvsOk hks (fresh_array (net_server h'))
  have hwire := congrArg List.length ((netView ht hks hkc h).read_up hid)
  have hwire' := congrArg List.length ((netView ht hks hkc h').read_up hid')
  have honce := hrecvs'.once id
  have hbytes := length_le_bytes (recvResults id (serverLog evs))
  rw [hrecvs.chunks, List.length_append] at hwire
  rw [hrecvs'.chunks, serverLog_append, recvResults_append, List.flatMap_append,
    List.flatten_append, List.length_append, List.length_append] at hwire'
  rw [serverLog_append, recvResults_append, List.countP_append] at honce
  omega

/-- A client with something to read waits for older clients only, and for each
of them once for each byte that it has sent, or sends meanwhile, and once for
its leaving. -/
theorem waits_for_older (ht : t.InOrder) (hkc : ∀ i, (ec i).CallbacksKeep) (hks : es.CallbacksKeep)
    (h : (netMachine t ec es stale (.new maxChannels port heap)).Reaches
      (fun _ log l ↦ NetFresh log l) s log) {serverSocket : ℤ}
    (hpc : s.server.pc = .head serverSocket) {addr : ℕ}
    (hmem : addr ∈ s.server.array.array.vector) {ls : List (NetLabel κ Msg)}
    (hfresh : (netMachine t ec es stale (.new maxChannels port heap)).Along
      (fun _ log l ↦ NetFresh log l) s log ls)
    (hls : ∀ l ∈ ls, l.Reports (s.server.array.array.heap addr).socket)
    (hrun : (netMachine t ec es stale (.new maxChannels port heap)).runFrom s ls = some (s', evs))
    (hnot : recvResults (s.server.array.array.heap addr).id (serverLog evs) = []) :
    ∀ id, recvResults id (serverLog evs) ≠ [] → id < (s.server.array.array.heap addr).id ∧
      ∃ x, (s.kernel.links x).id = some id ∧
        (recvResults id (serverLog evs)).length + (Call.wire (s.kernel.links x).up.calls).length ≤
          (s.kernel.links x).up.queue.length +
            (Call.wire (s'.kernel.links x).up.calls).length + 1 := by
  intro id hid
  have hs := WaitsBehind.of_head (serverOk rfl (net_server h)) hpc hmem
  obtain ⟨hold, hlt⟩ := recvs_of_older hks h hs hfresh hls hrun hnot hid
  obtain ⟨x, hx⟩ := exists_link_of_mem ht hkc hks h hold
  have hx' := link_id_kept ht hkc hks h hfresh hrun hx
  exact ⟨hlt, x, hx, length_recvResults_le ht hkc hks h (h.run hfresh hrun) hx hx'⟩

/-! ## Rounds -/

/-- The rounds of the loop that come to `RecvData`. -/
def rounds (ls : List (NetLabel κ Msg)) : ℕ :=
  ls.countP fun
    | .server l _ => l.isRound
    | _ => false

omit [DecidableEq κ] in
/-- Whoever is counted belongs to one of the connections. -/
theorem length_le_sum_countP {α : Type*} {as : List α} {xs : Finset (κ × ℕ)}
    {owns : κ × ℕ → α → Bool} (h : ∀ a ∈ as, ∃ x ∈ xs, owns x a = true) :
    as.length ≤ ∑ x ∈ xs, as.countP (owns x) := by
  induction as with
  | nil => exact Nat.zero_le _
  | cons a as ih =>
      obtain ⟨hfirst, hrest⟩ := List.forall_mem_cons.mp h
      obtain ⟨x, hx, howns⟩ := hfirst
      have hone : 1 ≤ ∑ x ∈ xs, if owns x a = true then 1 else 0 := by
        refine le_of_eq_of_le ?_ (Finset.single_le_sum (fun _ _ ↦ Nat.zero_le _) hx)
        rw [if_pos howns]
      simp only [List.countP_cons, Finset.sum_add_distrib, List.length_cons]
      exact Nat.add_le_add (ih hrest) hone

theorem WaitsBehind.net_round (hks : es.CallbacksKeep)
    (h : (netMachine t ec es stale (.new maxChannels port heap)).Reaches
      (fun _ log l ↦ NetFresh log l) s log) {addr : ℕ} {c : GepChannel}
    (hs : WaitsBehind s.server addr c) {l : NetLabel κ Msg} (hl : l.Reports c.socket)
    (hstep : netStep t ec es s l = some (s', evs)) :
    rounds [l] + s.server.pending ≤ (recvIds (serverLog evs)).length + s'.server.pending := by
  have hserver := net_server h
  have harray := fresh_array hserver
  have hserial := harray.mono fun s _ l hl ↦ (⟨trivial, hl.2⟩ : True ∧ Serial s l)
  cases netStep_spec hstep with
  | server l x next events kernel hnext =>
      have hround := hs.round (serverOk rfl hserver) (isolationOk hks harray)
        (lifecycleOk hserial).serving hl hnext
      rw [serverLog_map_server]
      cases hl : l.isRound <;> simp_all [rounds]
  | client | clientSend | unsent | serverSend | reset =>
      exact (Nat.zero_add _).trans_le (Nat.le_add_left _ _)

theorem rounds_le (hks : es.CallbacksKeep)
    (h : (netMachine t ec es stale (.new maxChannels port heap)).Reaches
      (fun _ log l ↦ NetFresh log l) s log) {addr : ℕ} {c : GepChannel}
    (hs : WaitsBehind s.server addr c) {ls : List (NetLabel κ Msg)}
    (hfresh : (netMachine t ec es stale (.new maxChannels port heap)).Along
      (fun _ log l ↦ NetFresh log l) s log ls) (hls : ∀ l ∈ ls, l.Reports c.socket)
    (hrun : (netMachine t ec es stale (.new maxChannels port heap)).runFrom s ls = some (s', evs))
    (hnot : recvResults c.id (serverLog evs) = []) :
    rounds ls + s.server.pending ≤ (recvIds (serverLog evs)).length + s'.server.pending := by
  induction ls generalizing s log evs with
  | nil =>
      cases hrun
      exact Nat.add_le_add_right (Nat.zero_le _) _
  | cons l ls ih =>
      obtain ⟨s₁, es₁, es₂, hstep, hrest, rfl⟩ := Machine.runFrom_cons hrun
      obtain ⟨hl, hls⟩ := List.forall_mem_cons.mp hls
      rw [serverLog_append, recvResults_append] at hnot
      obtain ⟨hnot₁, hnot₂⟩ := List.append_eq_nil_iff.mp hnot
      have hs₁ := (hs.net_step hks h hl hstep hnot₁).1
      have hfirst := hs.net_round hks h hl hstep
      have hrest := ih (h.step hfresh.1 hstep) hs₁ (hfresh.2 s₁ es₁ hstep) hls hrest hnot₂
      rw [serverLog_append, recvIds_append, List.length_append]
      have hcons : rounds (l :: ls) = rounds [l] + rounds ls := by
        rw [← List.singleton_append, rounds, List.countP_append]
        rfl
      omega

/-- A client with something to read is served when as many rounds have passed
as there have been bytes to read from older clients, one more for the end of
each of these, and one that was under way. -/
theorem served_in_time (ht : t.InOrder) (hkc : ∀ i, (ec i).CallbacksKeep) (hks : es.CallbacksKeep)
    (h : (netMachine t ec es stale (.new maxChannels port heap)).Reaches
      (fun _ log l ↦ NetFresh log l) s log) {serverSocket : ℤ}
    (hpc : s.server.pc = .head serverSocket) {addr : ℕ}
    (hmem : addr ∈ s.server.array.array.vector) {ls : List (NetLabel κ Msg)}
    (hfresh : (netMachine t ec es stale (.new maxChannels port heap)).Along
      (fun _ log l ↦ NetFresh log l) s log ls)
    (hls : ∀ l ∈ ls, l.Reports (s.server.array.array.heap addr).socket)
    (hrun : (netMachine t ec es stale (.new maxChannels port heap)).runFrom s ls = some (s', evs))
    {older : Finset (κ × ℕ)}
    (holder : ∀ x, ∀ id ∈ s.server.array.array.ids, id < (s.server.array.array.heap addr).id →
      (s.kernel.links x).id = some id → x ∈ older)
    (hrounds : 1 + ∑ x ∈ older, ((s.kernel.links x).up.queue.length +
      ((Call.wire (s'.kernel.links x).up.calls).length -
        (Call.wire (s.kernel.links x).up.calls).length) + 1) < rounds ls) :
    recvResults (s.server.array.array.heap addr).id (serverLog evs) ≠ [] := by
  intro hnot
  have hs := WaitsBehind.of_head (serverOk rfl (net_server h)) hpc hmem
  have hle := rounds_le hks h hs hfresh hls hrun hnot
  have hlast : s'.server.pending ≤ 1 := by
    unfold GepServer.pending
    split <;> omega
  have howned : ∀ id ∈ recvIds (serverLog evs), ∃ x ∈ older,
      decide ((s.kernel.links x).id = some id) = true := by
    intro id hid
    have hsome : recvResults id (serverLog evs) ≠ [] := by
      rw [← List.length_pos_iff_ne_nil, ← count_recvIds]
      exact List.count_pos_iff.mpr hid
    obtain ⟨hold, hlt⟩ := recvs_of_older hks h hs hfresh hls hrun hnot hsome
    obtain ⟨x, hx⟩ := exists_link_of_mem ht hkc hks h hold
    exact ⟨x, holder x id hold hlt hx, decide_eq_true hx⟩
  have hcount := length_le_sum_countP howned
  have heach : ∀ x ∈ older, (recvIds (serverLog evs)).countP
      (fun id ↦ decide ((s.kernel.links x).id = some id)) ≤ (s.kernel.links x).up.queue.length +
        ((Call.wire (s'.kernel.links x).up.calls).length -
          (Call.wire (s.kernel.links x).up.calls).length) + 1 := by
    intro x hx
    cases hid : (s.kernel.links x).id with
    | none => simp
    | some id =>
        have hid' := link_id_kept ht hkc hks h hfresh hrun hid
        have hbound := length_recvResults_le ht hkc hks h (h.run hfresh hrun) hid hid'
        have hsame : (recvIds (serverLog evs)).countP (fun id' ↦ decide (some id = some id')) =
            (recvResults id (serverLog evs)).length := by
          rw [← count_recvIds, List.count]
          refine List.countP_congr fun id' _ ↦ ?_
          rw [decide_eq_true_iff, Option.some_inj, beq_iff_eq, eq_comm]
        omega
  have hsum := Finset.sum_le_sum heach
  omega

end System

/-! ## Two clients -/

/-- Both clients send a message. -/
def bothSendRun : List (NetLabel Bool TestProtocol.Message) :=
  twoConnectRun ++
    [.clientSend false ⟨⟨.command4, [8, 7]⟩, [8, 7], .acceptAll⟩,
      .clientSend true ⟨⟨.command4, [8, 9]⟩, [8, 9], .acceptAll⟩]

/-- The descriptors `fds` are ready, and `bytes` are read from one of them. -/
def readyRun (fds : List ℤ) (bytes : List UInt8) : List (NetLabel Bool TestProtocol.Message) :=
  [ServerLabel.loop, .select (.ready fun fd ↦ fds.contains fd), .recvBegin, .recv (.data bytes),
    .recvEnd, .acceptBegin].map (.server · (false, 0))

theorem readyRun_reports {fds : List ℤ} {fd : ℤ} (hfd : fd ∈ fds) (bytes : List UInt8) :
    ∀ l ∈ readyRun fds bytes, l.Reports fd := by
  simp [readyRun, NetLabel.Reports, ServerLabel.Reports, hfd]

theorem readyRun_fresh (fds : List ℤ) (bytes : List UInt8) :
    ∀ l ∈ readyRun fds bytes, ∀ log : List (NetEvent Bool TestProtocol.Message), NetFresh log l := by
  simp [readyRun, NetFresh, FreshServerFds]

/-- The older client is served, although both are ready. -/
def olderRun : List (NetLabel Bool TestProtocol.Message) := readyRun [4, 5] [0x67]

theorem bothSendRun_fresh :
    twoClients.Along (fun _ log l ↦ NetFresh log l) twoClients.init [] bothSendRun := by
  decide +kernel

theorem head_of_loop {s s' : Net Bool (protos fun _ ↦ TestProtocol.endpoint) TestProtocol.proto}
    {evs : List (NetEvent Bool TestProtocol.Message)} {x : Bool × ℕ}
    {ls : List (NetLabel Bool TestProtocol.Message)}
    (hrun : twoClients.runFrom s (.server .loop x :: ls) = some (s', evs)) :
    ∃ serverSocket, s.server.pc = .head serverSocket := by
  obtain ⟨_, _, _, hloop, -⟩ := Machine.runFrom_cons hrun
  obtain ⟨⟨_, _⟩, hnext, -⟩ := Option.bind_eq_some_iff.mp hloop
  cases serverStep_spec hnext with
  | loopQuit serverSocket hpc | loop serverSocket _ hpc => exact ⟨serverSocket, hpc⟩

theorem waits_for_older_twoClients : ∃ s log s' evs,
    twoClients.runFrom twoClients.init bothSendRun = some (s, log) ∧
      twoClients.runFrom s olderRun = some (s', evs) ∧
      recvResults 1 (serverLog evs) = [] ∧ recvResults 0 (serverLog evs) = [.data [0x67]] ∧
      ∃ x, (s.kernel.links x).id = some 0 ∧
        1 + (Call.wire (s.kernel.links x).up.calls).length ≤
          (s.kernel.links x).up.queue.length +
            (Call.wire (s'.kernel.links x).up.calls).length + 1 := by
  have hends : ((twoClients.runFrom twoClients.init bothSendRun).bind fun next ↦
      (twoClients.runFrom next.1 olderRun).map fun last ↦
        (next.1.server.array.array.vector, [(next.1.server.array.array.heap 1).socket,
          (next.1.server.array.array.heap 1).id], recvResults 1 (serverLog last.2),
          recvResults 0 (serverLog last.2))) =
      some ([0, 1], [5, 1], [], [.data [0x67]]) := by
    decide +kernel
  obtain ⟨⟨s, log⟩, hstart, hends⟩ := Option.bind_eq_some_iff.mp hends
  obtain ⟨⟨s', evs⟩, hrun, hends⟩ := Option.map_eq_some_iff.mp hends
  simp only [Prod.mk.injEq, List.cons.injEq] at hends
  obtain ⟨hvector, ⟨hsocket, hid, -⟩, hnot, hserved⟩ := hends
  obtain ⟨serverSocket, hpc⟩ := head_of_loop hrun
  have hmem : 1 ∈ s.server.array.array.vector := by
    simp [hvector]
  have hwaits := waits_for_older Tcp.stream_inOrder (fun _ ↦ TestProtocol.endpoint_callbacksKeep)
    TestProtocol.endpoint_callbacksKeep (.run .init bothSendRun_fresh hstart) hpc hmem
    (.of_forall_mem (fun l hl _ log ↦ readyRun_fresh _ _ l hl log) _ _)
    (hsocket ▸ readyRun_reports (by simp) _) hrun (hid ▸ hnot) 0 (by simp [hserved])
  rw [hserved] at hwaits
  exact ⟨s, log, s', evs, hstart, hrun, hnot, hserved, hwaits.2⟩

/-- Two bytes of the older client are left to read. -/
def headerRun : List (NetLabel Bool TestProtocol.Message) :=
  bothSendRun ++ serveRun 4 ((TestProtocol.frame ⟨.command4, [8, 7]⟩).take 12)

/-- They are read one by one, and the younger client is served when no more
comes from the older one. -/
def turns : List (List ℤ × List UInt8) :=
  [([4, 5], [8]), ([4, 5], [7]), ([5], (TestProtocol.frame ⟨.command4, [8, 9]⟩).take 5),
    ([5], ((TestProtocol.frame ⟨.command4, [8, 9]⟩).drop 5).take 5),
    ([5], (TestProtocol.frame ⟨.command4, [8, 9]⟩).drop 10)]

def turnsRun : List (NetLabel Bool TestProtocol.Message) :=
  turns.flatMap fun turn ↦ readyRun turn.1 turn.2

theorem turnsRun_fresh : ∀ l ∈ turnsRun, ∀ log : List (NetEvent Bool TestProtocol.Message),
    NetFresh log l := by
  intro l hl log
  obtain ⟨turn, -, hl⟩ := List.mem_flatMap.mp hl
  exact readyRun_fresh _ _ l hl log

theorem turnsRun_reports : ∀ l ∈ turnsRun, l.Reports 5 := by
  intro l hl
  obtain ⟨turn, hturn, hl⟩ := List.mem_flatMap.mp hl
  have hready : ∀ turn ∈ turns, 5 ∈ turn.1 := by
    simp [turns]
  exact readyRun_reports (hready turn hturn) _ l hl

theorem headerRun_fresh :
    twoClients.Along (fun _ log l ↦ NetFresh log l) twoClients.init [] headerRun := by
  decide +kernel

theorem served_in_time_twoClients : ∃ s log s' evs,
    twoClients.runFrom twoClients.init headerRun = some (s, log) ∧
      twoClients.runFrom s turnsRun = some (s', evs) ∧
      (recvResults 0 (serverLog evs)).length = 2 ∧
      (dispatchedTo 0 (serverLog evs)).map Delivery.msg = [⟨.command4, [8, 7]⟩] ∧
      (dispatchedTo 1 (serverLog evs)).map Delivery.msg = [⟨.command4, [8, 9]⟩] ∧
      recvResults 1 (serverLog evs) ≠ [] := by
  have hends : ((twoClients.runFrom twoClients.init headerRun).bind fun next ↦
      (twoClients.runFrom next.1 turnsRun).map fun last ↦
        ([next.1.server.array.array.vector, [(next.1.kernel.links (false, 0)).up.queue.length,
          (Call.wire (next.1.kernel.links (false, 0)).up.calls).length,
          (Call.wire (last.1.kernel.links (false, 0)).up.calls).length,
          (recvResults 0 (serverLog last.2)).length]], [next.1.server.array.array.ids,
          [(next.1.server.array.array.heap 1).socket, (next.1.server.array.array.heap 1).id]],
          (next.1.kernel.links (false, 0)).id,
          [0, 1].map fun id ↦ (dispatchedTo id (serverLog last.2)).map Delivery.msg)) =
      some ([[0, 1], [2, 14, 14, 2]], [[0, 1], [5, 1]], some 0,
        [[⟨.command4, [8, 7]⟩], [⟨.command4, [8, 9]⟩]]) := by
    decide +kernel
  obtain ⟨⟨s, log⟩, hstart, hends⟩ := Option.bind_eq_some_iff.mp hends
  obtain ⟨⟨s', evs⟩, hrun, hends⟩ := Option.map_eq_some_iff.mp hends
  simp only [Prod.mk.injEq, List.map_cons, List.cons.injEq] at hends
  obtain ⟨⟨hvector, ⟨hqueue, hwire, hwire', hserved, -⟩, -⟩, ⟨hids, ⟨hsocket, hid, -⟩, -⟩, hlink,
    hout, hout', -⟩ := hends
  obtain ⟨serverSocket, hpc⟩ := head_of_loop hrun
  have hmem : 1 ∈ s.server.array.array.vector := by
    simp [hvector]
  have hreach := Machine.Reaches.run .init headerRun_fresh hstart
  have holder : ∀ x, ∀ id ∈ s.server.array.array.ids, id < (s.server.array.array.heap 1).id →
      (s.kernel.links x).id = some id → x ∈ ({(false, 0)} : Finset (Bool × ℕ)) := by
    intro x id hold hlt hx
    have hview := netView Tcp.stream_inOrder TestProtocol.endpoint_callbacksKeep
      (fun _ ↦ TestProtocol.endpoint_callbacksKeep) hreach
    obtain rfl : id = 0 := by
      simp [hids] at hold
      omega
    exact Finset.mem_singleton.mpr (hview.server.view.id_inj x (false, 0) 0 hx hlink)
  have htime := served_in_time Tcp.stream_inOrder (fun _ ↦ TestProtocol.endpoint_callbacksKeep)
    TestProtocol.endpoint_callbacksKeep hreach hpc hmem
    (.of_forall_mem (fun l hl _ log ↦ turnsRun_fresh l hl log) _ _) (hsocket ▸ turnsRun_reports)
    hrun holder
    (by rw [Finset.sum_singleton, hqueue, hwire, hwire']; decide)
  exact ⟨s, log, s', evs, hstart, hrun, hserved, hout, hout', hid ▸ htime⟩

end Libgep
