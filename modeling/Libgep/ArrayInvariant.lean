import Libgep.ChannelArray
import Libgep.RecvEvents

/-!
# The invariant of an array

Addresses are never used twice, and the ids in the vector are distinct,
increasing, and below the counter.  This holds in any run of an array.
-/

namespace Libgep

open CInt Transition

variable {Msg : Type*}

namespace GepChannelArray

/-! ## What the operations keep -/

/-- The counters and the ids of the channels are the same. -/
structure Keeps (a a' : GepChannelArray) : Prop where
  maxChannels : a'.maxChannels = a.maxChannels
  lastChannelId : a'.lastChannelId = a.lastChannelId
  nextAddr : a'.nextAddr = a.nextAddr
  id : ∀ addr, (a'.heap addr).id = (a.heap addr).id

theorem Keeps.refl (a : GepChannelArray) : Keeps a a := ⟨rfl, rfl, rfl, fun _ ↦ rfl⟩

theorem Keeps.trans {a a' a'' : GepChannelArray} (h : Keeps a a') (h' : Keeps a' a'') :
    Keeps a a'' :=
  ⟨h'.maxChannels.trans h.maxChannels, h'.lastChannelId.trans h.lastChannelId,
    h'.nextAddr.trans h.nextAddr, fun addr ↦ (h'.id addr).trans (h.id addr)⟩

variable (a : GepChannelArray)

theorem withState_heap_of_ne {addr addr' : ℕ} (c : GepChannel) (h : addr' ≠ addr) :
    (a.withState addr c).heap addr' = a.heap addr' :=
  Function.update_of_ne h _ _

@[simp] theorem withState_heap_self (addr : ℕ) (c : GepChannel) :
    (a.withState addr c).heap addr = c :=
  Function.update_self _ _ _

theorem withState_keeps {addr : ℕ} {c : GepChannel} (hid : c.id = (a.heap addr).id) :
    Keeps a (a.withState addr c) := by
  refine ⟨rfl, rfl, rfl, fun addr' ↦ ?_⟩
  by_cases h : addr' = addr
  · subst h
    rw [withState_heap_self, hid]
  · rw [withState_heap_of_ne a c h]

theorem openServerSocket_array (env : ListenEnv) : ∃ serverSocket port,
    (@a.openServerSocket Msg env).array = { a with serverSocket := serverSocket, port := port } := by
  unfold openServerSocket
  dsimp only
  split_ifs
  any_goals exact ⟨_, _, rfl⟩
  split <;> exact ⟨_, _, rfl⟩

theorem openServerSocket_keeps (env : ListenEnv) :
    Keeps a (@a.openServerSocket Msg env).array := by
  obtain ⟨serverSocket, port, h⟩ := @openServerSocket_array Msg a env
  rw [h]
  exact ⟨rfl, rfl, rfl, fun _ ↦ rfl⟩

theorem openServerSocket_vector (env : ListenEnv) :
    (@a.openServerSocket Msg env).array.vector = a.vector := by
  obtain ⟨serverSocket, port, h⟩ := @openServerSocket_array Msg a env
  rw [h]

theorem openServerSocket_heap (env : ListenEnv) :
    (@a.openServerSocket Msg env).array.heap = a.heap := by
  obtain ⟨serverSocket, port, h⟩ := @openServerSocket_array Msg a env
  rw [h]

theorem openServerSocket_events (env : ListenEnv) :
    (env.socket = -1 ∧ (@a.openServerSocket Msg env).events = []) ∨
      (env.socket ≠ -1 ∧
        ((@a.openServerSocket Msg env).events = [.socket env.socket, .closeServer env.socket] ∨
          (@a.openServerSocket Msg env).events =
            [.socket env.socket, .bind env.socket (toUnsigned 16 a.port), .closeServer env.socket] ∨
          (@a.openServerSocket Msg env).events =
            [.socket env.socket, .bind env.socket (toUnsigned 16 a.port)])) := by
  unfold openServerSocket
  dsimp only
  split_ifs with hsocket
  · exact .inl ⟨hsocket, rfl⟩
  · exact .inr ⟨hsocket, .inl rfl⟩
  · exact .inr ⟨hsocket, .inr (.inl rfl)⟩
  · exact .inr ⟨hsocket, .inr (.inl rfl)⟩
  · split
    · exact .inr ⟨hsocket, .inr (.inl rfl)⟩
    · exact .inr ⟨hsocket, .inr (.inr rfl)⟩
  · exact .inr ⟨hsocket, .inr (.inr rfl)⟩

theorem close_id (c : GepChannel) : c.close.2.1.id = c.id := by
  unfold GepChannel.close
  split <;> rfl

theorem release_keeps (retained : List ℕ) (addr : ℕ) :
    Keeps a (@a.release Msg retained addr).array := by
  unfold release
  split
  · exact Keeps.refl a
  · exact a.withState_keeps (close_id _)

theorem release_vector (retained : List ℕ) (addr : ℕ) :
    (@a.release Msg retained addr).array.vector = a.vector := by
  unfold release
  split <;> rfl

/-- Destroying a channel closes its socket at most. -/
theorem release_events (retained : List ℕ) (addr : ℕ) :
    ∀ ev ∈ (@a.release Msg retained addr).events, ∃ fd, ev = .close fd := by
  unfold release GepChannel.close
  split_ifs <;> simp

theorem releaseAll_events (retained addrs : List ℕ) :
    ∀ ev ∈ (@releaseAll Msg retained a addrs).events, ∃ fd, ev = .close fd := by
  induction addrs generalizing a with
  | nil => exact List.forall_mem_nil _
  | cons addr addrs ih =>
      exact List.forall_mem_append.mpr ⟨a.release_events retained addr, ih _⟩

theorem releaseAll_keeps (retained addrs : List ℕ) :
    Keeps a (@releaseAll Msg retained a addrs).array := by
  induction addrs generalizing a with
  | nil => exact Keeps.refl a
  | cons addr addrs ih => exact (@release_keeps Msg a retained addr).trans (ih _)

theorem releaseAll_vector (retained addrs : List ℕ) :
    (@releaseAll Msg retained a addrs).array.vector = a.vector := by
  induction addrs generalizing a with
  | nil => rfl
  | cons addr addrs ih => exact (ih _).trans (@release_vector Msg a retained addr)

theorem stop_keeps (retained : List ℕ) : Keeps a (@a.stop Msg retained).array := by
  have hserver : Keeps a { (@a.closeServerSocket Msg).array with vector := [] } := by
    unfold closeServerSocket
    split <;> exact ⟨rfl, rfl, rfl, fun _ ↦ rfl⟩
  exact hserver.trans (releaseAll_keeps _ _ _)

theorem stop_vector (retained : List ℕ) : (@a.stop Msg retained).array.vector = [] :=
  releaseAll_vector ..

theorem remove_keeps (addr : ℕ) (ret : ℤ) : Keeps a (@a.remove Msg addr ret).array := by
  unfold remove
  split <;> exact ⟨rfl, rfl, rfl, fun _ ↦ rfl⟩

theorem remove_vector (addr : ℕ) (ret : ℤ) :
    (@a.remove Msg addr ret).array.vector = if ret < 0 then a.vector.erase addr else a.vector := by
  unfold remove
  split_ifs with h hret hret
  · rfl
  · exact absurd h.1 hret
  · have hmem : addr ∉ a.vector := fun hmem ↦ h ⟨hret, hmem⟩
    exact (List.erase_of_not_mem hmem).symm
  · rfl

theorem finish_keeps (addr : ℕ) (ret : ℤ) : Keeps a (@a.finish Msg addr ret).array :=
  (@remove_keeps Msg a addr ret).trans (release_keeps _ _ _)

theorem finish_vector (addr : ℕ) (ret : ℤ) :
    (@a.finish Msg addr ret).array.vector = if ret < 0 then a.vector.erase addr else a.vector :=
  (release_vector _ _ _).trans (remove_vector a addr ret)

/-- A channel that has failed is taken out of the vector, and destroyed. -/
theorem finish_failed (hnodup : a.vector.Nodup) {addr : ℕ} (hmem : addr ∈ a.vector) {ret : ℤ}
    (hret : ret < 0) (hopen : (a.heap addr).socket ≠ -1) :
    @a.finish Msg addr ret =
      ⟨(), GepChannelArray.withState { a with vector := a.vector.erase addr } addr
          { a.heap addr with socket := -1, len := 0 },
        [.delClient (a.heap addr).id, .close (a.heap addr).socket]⟩ := by
  have hnot : ¬ (addr ∈ a.vector.erase addr ∨ addr ∈ ([] : List ℕ)) := by
    simpa using hnodup.not_mem_erase
  rw [finish, remove, if_pos ⟨hret, hmem⟩]
  dsimp only
  rw [release, if_neg hnot, GepChannel.close, if_pos hopen]
  rfl

theorem finish_heap_of_ne {addr addr' : ℕ} (ret : ℤ) (hne : addr' ≠ addr) :
    (@a.finish Msg addr ret).array.heap addr' = a.heap addr' := by
  have hheap : (@a.remove Msg addr ret).array.heap = a.heap := by
    unfold remove
    split <;> rfl
  rw [← hheap, finish]
  dsimp only
  unfold release
  split
  · rfl
  · exact withState_heap_of_ne _ _ hne

theorem pick_mem {readFds : FdSet} {addr : ℕ} (h : a.pick readFds = some addr) :
    addr ∈ a.vector ∧ 0 ≤ (a.heap addr).socket ∧ readFds (a.heap addr).socket = true := by
  have hmem := List.mem_of_find?_eq_some h
  have hready := List.find?_some h
  simp only [decide_eq_true_eq] at hready
  exact ⟨hmem, hready⟩

theorem mem_ids {id : ℤ} : id ∈ a.ids ↔ ∃ addr ∈ a.vector, (a.heap addr).id = id :=
  List.mem_map

end GepChannelArray

/-! ## The invariant -/

structure ArrayOk (a : GepChannelArray) (retained : List ℕ) : Prop where
  nodup : a.vector.Nodup
  addr : ∀ addr ∈ a.vector ++ retained, addr < a.nextAddr
  ids : a.ids.Pairwise (· < ·)
  last : 0 ≤ a.lastChannelId
  id : ∀ id ∈ a.ids, 0 ≤ id ∧ id < a.lastChannelId
  size : a.vector.length ≤ toUnsigned 64 a.maxChannels

namespace ArrayOk

variable {a a' : GepChannelArray} {retained retained' : List ℕ}

theorem ids_of_keeps (hkeeps : GepChannelArray.Keeps a a') {addrs : List ℕ} :
    addrs.map (fun addr ↦ (a'.heap addr).id) = addrs.map fun addr ↦ (a.heap addr).id :=
  List.map_congr_left fun addr _ ↦ hkeeps.id addr

theorem of_sublist (h : ArrayOk a retained) (hkeeps : GepChannelArray.Keeps a a')
    (hvector : a'.vector.Sublist a.vector)
    (hretained : ∀ addr ∈ retained', addr ∈ a.vector ++ retained) : ArrayOk a' retained' := by
  have hids : a'.ids.Sublist a.ids := by
    rw [GepChannelArray.ids, ids_of_keeps hkeeps]
    exact hvector.map _
  refine ⟨hvector.nodup h.nodup, ?_, h.ids.sublist hids, ?_, ?_, ?_⟩
  · intro addr hmem
    rw [hkeeps.nextAddr]
    rcases List.mem_append.mp hmem with hmem | hmem
    · exact h.addr addr (List.mem_append_left _ (hvector.subset hmem))
    · exact h.addr addr (hretained addr hmem)
  · rw [hkeeps.lastChannelId]
    exact h.last
  · intro id hid
    rw [hkeeps.lastChannelId]
    exact h.id id (hids.subset hid)
  · rw [hkeeps.maxChannels]
    exact hvector.length_le.trans h.size

theorem withChannel_heap_of_lt (a : GepChannelArray) (socket : ℤ) (stale : Buffer) {addr : ℕ}
    (h : addr < a.nextAddr) : (a.withChannel socket stale).heap addr = a.heap addr :=
  Function.update_of_ne h.ne _ _

theorem withChannel_heap_self (a : GepChannelArray) (socket : ℤ) (stale : Buffer) :
    (a.withChannel socket stale).heap a.nextAddr = .new a.lastChannelId socket stale :=
  Function.update_self _ _ _

theorem withChannel_ids (h : ArrayOk a retained) (socket : ℤ) (stale : Buffer) :
    (a.withChannel socket stale).ids = a.ids ++ [a.lastChannelId] := by
  have hold : a.vector.map (fun addr ↦ ((a.withChannel socket stale).heap addr).id) = a.ids := by
    refine List.map_congr_left fun addr hmem ↦ ?_
    rw [withChannel_heap_of_lt a socket stale (h.addr addr (List.mem_append_left _ hmem))]
  unfold GepChannelArray.ids at hold ⊢
  rw [← hold, GepChannelArray.withChannel]
  simp [GepChannel.new]

theorem withChannel (h : ArrayOk a retained) (socket : ℤ) (stale : Buffer)
    (hroom : a.vector.length < toUnsigned 64 a.maxChannels) :
    ArrayOk (a.withChannel socket stale) retained := by
  have hlast := h.last
  have hnew : ∀ addr ∈ a.vector ++ retained, addr < a.nextAddr + 1 :=
    fun addr hmem ↦ (h.addr addr hmem).trans (Nat.lt_succ_self _)
  refine ⟨?_, ?_, ?_, ?_, ?_, ?_⟩
  · refine List.nodup_append.mpr ⟨h.nodup, List.nodup_singleton _, ?_⟩
    rintro addr hmem _ (- | ⟨_, ⟨⟩⟩) rfl
    exact (h.addr _ (List.mem_append_left _ hmem)).false
  · intro addr hmem
    simp only [GepChannelArray.withChannel, List.mem_append, List.mem_singleton] at hmem hnew ⊢
    rcases hmem with (hmem | rfl) | hmem
    · exact hnew addr (.inl hmem)
    · exact Nat.lt_succ_self _
    · exact hnew addr (.inr hmem)
  · rw [h.withChannel_ids]
    refine List.pairwise_append.mpr ⟨h.ids, List.pairwise_singleton _ _, ?_⟩
    rintro id hid _ (- | ⟨_, ⟨⟩⟩)
    exact (h.id id hid).2
  · exact Int.le_add_one hlast
  · intro id hid
    rw [h.withChannel_ids, List.mem_append, List.mem_singleton] at hid
    change 0 ≤ id ∧ id < a.lastChannelId + 1
    rcases hid with hid | rfl
    · have hold := h.id id hid
      omega
    · omega
  · simpa [GepChannelArray.withChannel] using Nat.succ_le_of_lt hroom

theorem id_injective (h : ArrayOk a retained) {addr addr' : ℕ} (hmem : addr ∈ a.vector)
    (hmem' : addr' ∈ a.vector) (hid : (a.heap addr).id = (a.heap addr').id) : addr = addr' := by
  have hnodup : a.ids.Nodup := h.ids.imp fun hlt ↦ hlt.ne
  exact List.inj_on_of_nodup_map hnodup hmem hmem' hid

end ArrayOk

theorem arrayOk_step {e : Endpoint Msg} {s s' : ArrayState} {l : ArrayLabel}
    {es : List (ArrayEvent Msg)} (hs : ArrayOk s.array s.retained)
    (h : arrayStep e s l = some (s', es)) : ArrayOk s'.array s'.retained := by
  have hretained : ∀ addr ∈ s.retained, addr ∈ s.array.vector ++ s.retained :=
    fun _ ↦ List.mem_append_right _
  cases arrayStep_spec h with
  | openServerSocket env =>
      exact hs.of_sublist (s.array.openServerSocket_keeps env)
        (s.array.openServerSocket_vector env ▸ List.Sublist.refl _) hretained
  | refused | full | idle => exact hs
  | added fd stale hfd hroom => exact hs.withChannel fd stale hroom
  | picked readFds addr hserving hpick =>
      apply hs.of_sublist (GepChannelArray.Keeps.refl _) (List.Sublist.refl _)
      rintro _ (- | ⟨_, ⟨⟩⟩)
      exact List.mem_append_left _ (s.array.pick_mem hpick).1
  | served addr r ret hserving hfits hret =>
      refine hs.of_sublist (s.array.withState_keeps ?_) (List.Sublist.refl _) ?_
      · exact (GepChannel.recvData_socketKept e _ r).id
      · have hsame : s.retained = [addr] := by
          rw [ArrayState.retained, hserving]
          rfl
        rwa [hsame] at hretained ⊢
  | finished addr ret hserving =>
      refine hs.of_sublist (s.array.finish_keeps addr ret) ?_ (by rintro _ ⟨⟩)
      rw [GepChannelArray.finish_vector]
      split
      · exact List.erase_sublist
      · exact List.Sublist.refl _
  | stopped =>
      refine hs.of_sublist (s.array.stop_keeps _) ?_ hretained
      rw [GepChannelArray.stop_vector]
      exact List.nil_sublist _

theorem arrayStep_maxChannels {e : Endpoint Msg} {s s' : ArrayState} {l : ArrayLabel}
    {es : List (ArrayEvent Msg)} (h : arrayStep e s l = some (s', es)) :
    s'.array.maxChannels = s.array.maxChannels := by
  cases arrayStep_spec h with
  | openServerSocket env => exact (s.array.openServerSocket_keeps env).maxChannels
  | finished addr ret => exact (s.array.finish_keeps addr ret).maxChannels
  | stopped => exact (s.array.stop_keeps _).maxChannels
  | _ => rfl

theorem maxChannels_eq {e : Endpoint Msg} {a : GepChannelArray}
    {ok : ArrayState → List (ArrayEvent Msg) → ArrayLabel → Prop} {s : ArrayState}
    {log : List (ArrayEvent Msg)} (h : (arrayMachine e a).Reaches ok s log) :
    s.array.maxChannels = a.maxChannels :=
  h.invariant (P := fun s _ ↦ s.array.maxChannels = a.maxChannels) rfl
    fun _ hs _ hstep ↦ (arrayStep_maxChannels hstep).trans hs

theorem arrayOk {e : Endpoint Msg} {maxChannels port : ℤ} {heap : ℕ → GepChannel}
    {ok : ArrayState → List (ArrayEvent Msg) → ArrayLabel → Prop} {s : ArrayState}
    {log : List (ArrayEvent Msg)}
    (h : (arrayMachine e (.new maxChannels port heap)).Reaches ok s log) :
    ArrayOk s.array s.retained := by
  refine h.invariant (P := fun s _ ↦ ArrayOk s.array s.retained) ?_
    fun _ hs _ hstep ↦ arrayOk_step hs hstep
  exact ⟨List.nodup_nil, by rintro _ ⟨⟩, List.Pairwise.nil, le_rfl, by rintro _ ⟨⟩,
    Nat.zero_le _⟩

end Libgep
