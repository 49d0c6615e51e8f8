import Libgep.ArrayInvariant
import Libgep.TestProtocol
import Mathlib.Data.Finset.Card
import Mathlib.Data.Finset.Insert

/-!
# The descriptors of an array

A descriptor that `Accept` returned belongs to the channel built around it,
until that closes it.  The exception is a connection refused because the
array is full, whose descriptor nobody closes.
-/

namespace Libgep

open CInt Transition

variable {Msg : Type*}

/-! ## Descriptors in the log -/

def ArrayEvent.accepted : ArrayEvent Msg → Option ℤ
  | .accept _ fd => if fd = -1 then none else some fd
  | _ => none

def ArrayEvent.closed : ArrayEvent Msg → Option ℤ
  | .close fd => some fd
  | .channel _ ev => ev.closed
  | _ => none

def acceptedFds (log : List (ArrayEvent Msg)) : List ℤ := log.filterMap ArrayEvent.accepted

def closedSockets (log : List (ArrayEvent Msg)) : List ℤ := log.filterMap ArrayEvent.closed

theorem acceptedFds_append (xs ys : List (ArrayEvent Msg)) :
    acceptedFds (xs ++ ys) = acceptedFds xs ++ acceptedFds ys :=
  List.filterMap_append

theorem closedSockets_append (xs ys : List (ArrayEvent Msg)) :
    closedSockets (xs ++ ys) = closedSockets xs ++ closedSockets ys :=
  List.filterMap_append

theorem channel_acceptedFds (id : ℤ) (events : List (RecvEvent Msg)) :
    acceptedFds (events.map (.channel id)) = [] :=
  List.filterMap_eq_nil_iff.mpr fun _ hev ↦ by
    obtain ⟨ev, -, rfl⟩ := List.mem_map.mp hev
    rfl

theorem channel_closedSockets (id : ℤ) (events : List (RecvEvent Msg)) :
    closedSockets (events.map (.channel id)) = closedFds events := by
  rw [closedSockets, List.filterMap_map]
  rfl

/-! ## Channels that hold a descriptor -/

def holding (heap : ℕ → GepChannel) (owners : Finset ℕ) (fd : ℤ) : Finset ℕ :=
  owners.filter fun addr ↦ (heap addr).socket = fd

/-- The channels that exist: those in the vector, and the one being served. -/
def ArrayState.owners (s : ArrayState) : Finset ℕ := (s.array.vector ++ s.retained).toFinset

section Holding

variable {heap heap' : ℕ → GepChannel} {owners : Finset ℕ} {fd : ℤ}

theorem holding_congr (h : ∀ addr ∈ owners, (heap' addr).socket = (heap addr).socket) :
    holding heap' owners fd = holding heap owners fd :=
  Finset.filter_congr fun addr hmem ↦ by rw [h addr hmem]

theorem card_holding_insert {addr : ℕ} (h : addr ∉ owners) :
    (holding heap (insert addr owners) fd).card =
      [(heap addr).socket].count fd + (holding heap owners fd).card := by
  unfold holding
  rw [Finset.filter_insert, List.count_singleton]
  by_cases hfd : (heap addr).socket = fd
  · rw [if_pos hfd, if_pos (by simpa using hfd), Finset.card_insert_of_notMem, Nat.add_comm]
    intro hmem
    exact h (Finset.mem_of_mem_filter _ hmem)
  · rw [if_neg hfd, if_neg (by simpa using hfd), Nat.zero_add]

end Holding

/-- The descriptors accepted in `es`, and those held before, are those closed
in `es` and those held after. -/
def Balanced (heap : ℕ → GepChannel) (owners : Finset ℕ) (es : List (ArrayEvent Msg))
    (heap' : ℕ → GepChannel) (owners' : Finset ℕ) : Prop :=
  ∀ fd, fd ≠ -1 → (acceptedFds es).count fd + (holding heap owners fd).card =
    (closedSockets es).count fd + (holding heap' owners' fd).card

theorem Balanced.of_quiet {heap heap' : ℕ → GepChannel} {owners : Finset ℕ}
    {es : List (ArrayEvent Msg)} (haccepted : acceptedFds es = [])
    (hclosed : closedSockets es = [])
    (h : ∀ addr ∈ owners, (heap' addr).socket = (heap addr).socket) :
    Balanced heap owners es heap' owners := by
  intro fd _
  rw [haccepted, hclosed, holding_congr h]

theorem Balanced.trans {heap heap' heap'' : ℕ → GepChannel} {owners owners' owners'' : Finset ℕ}
    {es es' : List (ArrayEvent Msg)} (h : Balanced heap owners es heap' owners')
    (h' : Balanced heap' owners' es' heap'' owners'') :
    Balanced heap owners (es ++ es') heap'' owners'' := by
  intro fd hfd
  have hfirst := h fd hfd
  have hsecond := h' fd hfd
  rw [acceptedFds_append, closedSockets_append, List.count_append, List.count_append]
  omega

/-! ## Destroying channels -/

def GepChannelArray.owned (a : GepChannelArray) (retained : List ℕ) : Finset ℕ :=
  (a.vector ++ retained).toFinset

/-- A channel is gone once nobody owns it, and with it its descriptor. -/
theorem release_balanced (a : GepChannelArray) (retained : List ℕ) {addr : ℕ}
    {others : Finset ℕ} (hothers : addr ∉ others) :
    Balanced a.heap (insert addr (a.owned retained ∪ others))
      (@a.release Msg retained addr).events (@a.release Msg retained addr).array.heap
      (a.owned retained ∪ others) := by
  unfold GepChannelArray.release
  split_ifs with howned
  · have hmem : addr ∈ a.owned retained ∪ others := by
      rw [GepChannelArray.owned, Finset.mem_union, List.mem_toFinset, List.mem_append]
      exact .inl howned
    rw [Finset.insert_eq_of_mem hmem]
    exact .of_quiet rfl rfl fun _ _ ↦ rfl
  · have hnot : addr ∉ a.owned retained ∪ others := by
      rw [GepChannelArray.owned, Finset.mem_union, List.mem_toFinset, List.mem_append]
      exact not_or.mpr ⟨howned, hothers⟩
    intro fd hfd
    have hrest : holding (a.withState addr (a.heap addr).close.2.1).heap
        (a.owned retained ∪ others) fd = holding a.heap (a.owned retained ∪ others) fd := by
      refine holding_congr fun addr' hmem ↦ ?_
      have hne : addr' ≠ addr := by
        rintro rfl
        exact hnot hmem
      rw [a.withState_heap_of_ne _ hne]
    rw [card_holding_insert hnot]
    dsimp only
    rw [hrest, GepChannel.close]
    split_ifs with hopen
    · exact Nat.zero_add _
    · rw [not_not] at hopen
      simp [acceptedFds, closedSockets, hopen, Ne.symm hfd]

theorem releaseAll_balanced (a : GepChannelArray) (retained : List ℕ) {addrs : List ℕ}
    (hnodup : addrs.Nodup) :
    Balanced a.heap (a.owned retained ∪ addrs.toFinset)
      (@GepChannelArray.releaseAll Msg retained a addrs).events
      (@GepChannelArray.releaseAll Msg retained a addrs).array.heap (a.owned retained) := by
  induction addrs generalizing a with
  | nil =>
      rw [List.toFinset_nil, Finset.union_empty]
      exact .of_quiet rfl rfl fun _ _ ↦ rfl
  | cons addr addrs ih =>
      obtain ⟨hnot, hnodup⟩ := List.nodup_cons.mp hnodup
      have hfirst := @release_balanced Msg a retained addr addrs.toFinset (by simpa using hnot)
      have howned : (@a.release Msg retained addr).array.owned retained = a.owned retained := by
        rw [GepChannelArray.owned, a.release_vector, GepChannelArray.owned]
      have hrest := ih (@a.release Msg retained addr).array hnodup
      rw [howned] at hrest
      rw [List.toFinset_cons, Finset.union_insert]
      exact hfirst.trans hrest

/-! ## One step -/

theorem openServerSocket_quiet (a : GepChannelArray) (env : ListenEnv) :
    acceptedFds (@a.openServerSocket Msg env).events = [] ∧
      closedSockets (@a.openServerSocket Msg env).events = [] := by
  rcases @a.openServerSocket_events Msg env with ⟨-, hes⟩ | ⟨-, hes | hes | hes⟩ <;>
    rw [hes] <;> exact ⟨rfl, rfl⟩

theorem delClients_quiet (ids : List ℤ) :
    acceptedFds (ids.map (@ArrayEvent.delClient Msg)) = [] ∧
      closedSockets (ids.map (@ArrayEvent.delClient Msg)) = [] := by
  constructor <;>
  · refine List.filterMap_eq_nil_iff.mpr fun ev hev ↦ ?_
    obtain ⟨id, -, rfl⟩ := List.mem_map.mp hev
    rfl

section Step

variable {a : GepChannelArray} {retained : List ℕ} {addr : ℕ}

theorem added_balanced (h : ArrayOk a retained) {fd : ℤ} (hfd : fd ≠ -1) (stale : Buffer) :
    Balanced a.heap (a.owned retained)
      [@ArrayEvent.accept Msg a.serverSocket fd, .addClient a.lastChannelId]
      (a.withChannel fd stale).heap ((a.withChannel fd stale).owned retained) := by
  have hlt : ∀ addr ∈ a.owned retained, addr < a.nextAddr := by
    intro addr hmem
    exact h.addr addr (List.mem_toFinset.mp hmem)
  have howned : (a.withChannel fd stale).owned retained =
      insert a.nextAddr (a.owned retained) := by
    ext addr
    simp [GepChannelArray.owned, GepChannelArray.withChannel]
  intro fd' hfd'
  have hrest : holding (a.withChannel fd stale).heap (a.owned retained) fd' =
      holding a.heap (a.owned retained) fd' := by
    refine holding_congr fun addr hmem ↦ ?_
    rw [ArrayOk.withChannel_heap_of_lt a fd stale (hlt addr hmem)]
  rw [howned, card_holding_insert fun hmem ↦ (hlt _ hmem).false, hrest,
    ArrayOk.withChannel_heap_self]
  simp [acceptedFds, closedSockets, ArrayEvent.accepted, ArrayEvent.closed, hfd, GepChannel.new,
    List.filterMap_cons]

theorem served_balanced (e : Endpoint Msg) (hmem : addr ∈ a.owned retained)
    (r : RawRecv) :
    Balanced a.heap (a.owned retained)
      (((a.heap addr).recvData e r).events.map (.channel (a.heap addr).id))
      (a.withState addr ((a.heap addr).recvData e r).chan).heap (a.owned retained) := by
  have hkept := GepChannel.recvData_socketKept e (a.heap addr) r
  generalize (a.heap addr).recvData e r = recv at hkept ⊢
  intro fd hfd
  have hrest : holding (a.withState addr recv.chan).heap ((a.owned retained).erase addr) fd =
      holding a.heap ((a.owned retained).erase addr) fd := by
    refine holding_congr fun addr' hmem' ↦ ?_
    rw [a.withState_heap_of_ne _ (Finset.ne_of_mem_erase hmem')]
  rw [channel_acceptedFds, channel_closedSockets, ← Finset.insert_erase hmem,
    card_holding_insert (Finset.notMem_erase _ _), card_holding_insert (Finset.notMem_erase _ _),
    hrest, a.withState_heap_self]
  rcases hkept.socket with ⟨hsame, hnone⟩ | ⟨hopen, hgone, hclosed⟩
  · rw [hsame, hnone]
  · rw [hgone, hclosed]
    simp [Ne.symm hfd]

theorem finished_balanced (h : ArrayOk a [addr]) (ret : ℤ) :
    Balanced a.heap (a.owned [addr]) (@a.finish Msg addr ret).events
      (@a.finish Msg addr ret).array.heap ((@a.finish Msg addr ret).array.owned []) := by
  have hquiet : acceptedFds (@a.remove Msg addr ret).events = [] ∧
      closedSockets (@a.remove Msg addr ret).events = [] := by
    unfold GepChannelArray.remove
    split <;> exact ⟨rfl, rfl⟩
  have hheap : (@a.remove Msg addr ret).array.heap = a.heap := by
    unfold GepChannelArray.remove
    split <;> rfl
  have howned : a.owned [addr] = insert addr ((@a.remove Msg addr ret).array.owned []) := by
    ext addr'
    rw [GepChannelArray.owned, GepChannelArray.owned, a.remove_vector]
    split
    · simp [h.nodup.mem_erase_iff]
      tauto
    · simp
  have hfinished : (@a.finish Msg addr ret).array.owned [] =
      (@a.remove Msg addr ret).array.owned [] := by
    rw [GepChannelArray.owned, GepChannelArray.owned, a.finish_vector, a.remove_vector]
  have hrelease := @release_balanced Msg (@a.remove Msg addr ret).array [] addr ∅
    (Finset.notMem_empty addr)
  rw [Finset.union_empty, ← howned, ← hfinished, hheap] at hrelease
  refine Balanced.trans ?_ hrelease
  exact .of_quiet hquiet.1 hquiet.2 fun _ _ ↦ rfl

theorem stopped_balanced (h : ArrayOk a retained) :
    Balanced a.heap (a.owned retained) (@a.stop Msg retained).events
      (@a.stop Msg retained).array.heap ((@a.stop Msg retained).array.owned retained) := by
  have hserver : acceptedFds (@a.closeServerSocket Msg).events = [] ∧
      closedSockets (@a.closeServerSocket Msg).events = [] ∧
      (@a.closeServerSocket Msg).array.heap = a.heap := by
    unfold GepChannelArray.closeServerSocket
    split <;> exact ⟨rfl, rfl, rfl⟩
  obtain ⟨haccepted, hclosed, hheap⟩ := hserver
  have hdel := @delClients_quiet Msg a.ids
  have hclear := @releaseAll_balanced Msg { (@a.closeServerSocket Msg).array with vector := [] }
    retained _ h.nodup
  have howned : (@a.stop Msg retained).array.owned retained = retained.toFinset := by
    rw [GepChannelArray.owned, a.stop_vector, List.nil_append]
  have hcleared : GepChannelArray.owned { (@a.closeServerSocket Msg).array with vector := [] }
      retained ∪ a.vector.toFinset = a.owned retained := by
    rw [GepChannelArray.owned, GepChannelArray.owned, List.nil_append, List.toFinset_append,
      Finset.union_comm]
  rw [hcleared] at hclear
  rw [howned]
  refine Balanced.trans (.of_quiet ?_ ?_ fun _ _ ↦ ?_) hclear
  · rw [acceptedFds_append, haccepted, hdel.1, List.nil_append]
  · rw [closedSockets_append, hclosed, hdel.2, List.nil_append]
  · rw [hheap]

end Step

/-- Whenever `Accept` returns a descriptor, the array has room for a channel. -/
def NotFull (s : ArrayState) (l : ArrayLabel) : Prop :=
  ∀ fd stale, l = .acceptConnection fd stale → fd ≠ -1 →
    s.array.vector.length < toUnsigned 64 s.array.maxChannels

theorem arrayStep_balanced {e : Endpoint Msg} {s s' : ArrayState} {l : ArrayLabel}
    {es : List (ArrayEvent Msg)} (hs : ArrayOk s.array s.retained) (hroom : NotFull s l)
    (h : arrayStep e s l = some (s', es)) :
    Balanced s.array.heap s.owners es s'.array.heap s'.owners := by
  cases arrayStep_spec h with
  | openServerSocket env =>
      obtain ⟨haccepted, hclosed⟩ := @openServerSocket_quiet Msg s.array env
      have howners : ArrayState.owners ⟨(@s.array.openServerSocket Msg env).array, s.serving⟩ =
          s.owners := by
        rw [ArrayState.owners, ArrayState.owners, s.array.openServerSocket_vector]
        rfl
      rw [howners]
      exact .of_quiet haccepted hclosed fun _ _ ↦ by rw [s.array.openServerSocket_heap]
  | refused | idle => exact .of_quiet rfl rfl fun _ _ ↦ rfl
  | full fd stale hfd hfull => exact absurd (hroom fd stale rfl hfd) (Nat.not_lt_of_le hfull)
  | added fd stale hfd => exact added_balanced hs hfd stale
  | picked readFds addr hserving hpick =>
      have hmem := (s.array.pick_mem hpick).1
      have howners : ArrayState.owners ⟨s.array, some ⟨addr, none⟩⟩ = s.owners := by
        ext addr'
        simp only [ArrayState.owners, ArrayState.retained, hserving, List.mem_toFinset,
          List.mem_append, Option.map_some, Option.map_none, Option.toList_some,
          Option.toList_none, List.mem_singleton, List.not_mem_nil, or_false]
        exact ⟨fun h ↦ h.elim id fun heq ↦ heq ▸ hmem, .inl⟩
      rw [howners]
      exact .of_quiet rfl rfl fun _ _ ↦ rfl
  | served addr r ret hserving hfits hret =>
      have howners : s.owners = s.array.owned [addr] := by
        rw [ArrayState.owners, ArrayState.retained, hserving]
        rfl
      rw [howners]
      exact served_balanced e (by simp [GepChannelArray.owned]) r
  | finished addr ret hserving =>
      have hretained : s.retained = [addr] := by
        rw [ArrayState.retained, hserving]
        rfl
      rw [ArrayState.owners, hretained]
      exact finished_balanced (hretained ▸ hs) ret
  | stopped => exact stopped_balanced hs

/-! ## Every run -/

def ArrayState.holders (s : ArrayState) (fd : ℤ) : Finset ℕ := holding s.array.heap s.owners fd

/-- `Accept` never returned a descriptor that was open already. -/
def FreshAccepts (log : List (ArrayEvent Msg)) : Prop :=
  ∀ pre server fd post, log = pre ++ .accept server fd :: post → fd ≠ -1 →
    (acceptedFds pre).count fd = (closedSockets pre).count fd

/-- Every descriptor that `Accept` has returned has been closed, once, or is
the socket of a channel; and as long as the kernel gives out no descriptor
twice, of no more than one channel. -/
structure NoSocketLost (s : ArrayState) (log : List (ArrayEvent Msg)) : Prop where
  accounted : ∀ fd, fd ≠ -1 →
    (acceptedFds log).count fd = (closedSockets log).count fd + (s.holders fd).card
  unique : FreshAccepts log → ∀ fd, fd ≠ -1 → (s.holders fd).card ≤ 1

theorem FreshAccepts.count_le {log : List (ArrayEvent Msg)} (h : FreshAccepts log) (fd : ℤ)
    (hfd : fd ≠ -1) : (acceptedFds log).count fd ≤ (closedSockets log).count fd + 1 := by
  induction log using List.reverseRecOn with
  | nil => exact Nat.zero_le _
  | append_singleton log ev ih =>
      have hlog : FreshAccepts log := by
        rintro pre server fd post rfl
        exact h pre server fd (post ++ [ev]) (by simp)
      have hle := ih hlog
      rw [acceptedFds_append, closedSockets_append, List.count_append, List.count_append]
      by_cases hev : ∃ server, ev = .accept server fd
      · obtain ⟨server, rfl⟩ := hev
        have hfresh := h log server fd [] rfl hfd
        have hone : (acceptedFds [@ArrayEvent.accept Msg server fd]).count fd ≤ 1 :=
          List.count_le_length.trans (List.length_filterMap_le _ _)
        omega
      · have hnone : (acceptedFds [ev]).count fd = 0 := by
          refine List.count_eq_zero.mpr fun hmem ↦ ?_
          obtain ⟨ev', hev', heq⟩ := List.mem_filterMap.mp hmem
          rw [List.mem_singleton.mp hev'] at heq
          cases ev with
          | accept server fd' =>
              simp only [ArrayEvent.accepted] at heq
              split_ifs at heq
              cases heq
              exact hev ⟨server, rfl⟩
          | _ => cases heq
        omega

/-- No accepted socket is lost in a run that accepts no connection while the
array is full, whatever else happens in it. -/
theorem noSocketLost_of_notFull (e : Endpoint Msg) (maxChannels port : ℤ)
    (heap : ℕ → GepChannel) {s : ArrayState} {log : List (ArrayEvent Msg)}
    (h : (arrayMachine e (.new maxChannels port heap)).Reaches (fun s _ l ↦ NotFull s l) s log) :
    NoSocketLost s log := by
  have haccounted : ∀ fd, fd ≠ -1 →
      (acceptedFds log).count fd = (closedSockets log).count fd + (s.holders fd).card := by
    refine h.invariant (P := fun s log ↦ ∀ fd, fd ≠ -1 → (acceptedFds log).count fd =
      (closedSockets log).count fd + (s.holders fd).card) (fun fd _ ↦ rfl) ?_
    intro s s' log es l hs hlog hroom hstep fd hfd
    have hbalanced := arrayStep_balanced (arrayOk hs) hroom hstep fd hfd
    have hbefore := hlog fd hfd
    rw [acceptedFds_append, closedSockets_append, List.count_append, List.count_append]
    unfold ArrayState.holders at hbefore ⊢
    omega
  refine ⟨haccounted, fun hfresh fd hfd ↦ ?_⟩
  have hle := hfresh.count_le fd hfd
  have heq := haccounted fd hfd
  omega

def oneChannel : GepChannelArray :=
  .new 1 7 fun _ ↦ .new 0 (-1) (List.Vector.replicate kMaxMsgLen 0)

def acceptedRun : List ArrayLabel :=
  [.openServerSocket ⟨3, false, false, false, none⟩,
    .acceptConnection 4 (List.Vector.replicate kMaxMsgLen 0)]

theorem acceptedRun_notFull :
    (arrayMachine TestProtocol.endpoint oneChannel).Along (fun s _ l ↦ NotFull s l)
      ⟨oneChannel, none⟩ [] acceptedRun := by
  refine ⟨by rintro _ _ ⟨⟩, ?_⟩
  rintro s es ⟨⟩
  refine ⟨?_, fun _ _ _ ↦ trivial⟩
  rintro _ _ ⟨⟩ -
  decide

theorem noSocketLost_accepted :
    ∃ s, NoSocketLost s [.socket 3, .bind 3 7, @ArrayEvent.accept TestProtocol.Message 3 4,
      .addClient 0] ∧ (s.holders 4).card = 1 := by
  obtain ⟨s, hrun, hone⟩ : ∃ s, (arrayMachine TestProtocol.endpoint oneChannel).runFrom
      ⟨oneChannel, none⟩ acceptedRun =
        some (s, [.socket 3, .bind 3 7, .accept 3 4, .addClient 0]) ∧ (s.holders 4).card = 1 :=
    ⟨_, rfl, rfl⟩
  exact ⟨s, noSocketLost_of_notFull TestProtocol.endpoint 1 7 _
    (.run .init acceptedRun_notFull hrun), hone⟩

/-- The second client is refused, since the first one is still there. -/
def refusedRun : List ArrayLabel :=
  [.openServerSocket ⟨3, false, false, false, none⟩,
    .acceptConnection 4 (List.Vector.replicate kMaxMsgLen 0),
    .acceptConnection 5 (List.Vector.replicate kMaxMsgLen 0)]

theorem refusedRun_ends :
    ∃ s, (arrayMachine TestProtocol.endpoint oneChannel).runFrom ⟨oneChannel, none⟩
        refusedRun = some (s, [.socket 3, .bind 3 7, .accept 3 4, .addClient 0, .accept 3 5]) ∧
      (s.holders 5).card = 0 :=
  ⟨_, rfl, rfl⟩

/-- The descriptor of a refused connection is neither held nor closed. -/
theorem not_noSocketLost_refused :
    ∃ s log, (arrayMachine TestProtocol.endpoint oneChannel).Reaches (fun _ _ _ ↦ True) s log ∧
      ¬ NoSocketLost s log := by
  obtain ⟨s, hrun, hnone⟩ := refusedRun_ends
  refine ⟨s, _, .run .init (.of_forall (fun _ _ _ ↦ trivial) _ _ _) hrun, fun hs ↦ ?_⟩
  have haccounted := hs.accounted 5 (by decide)
  rw [hnone] at haccounted
  exact absurd haccounted (by decide)

end Libgep
