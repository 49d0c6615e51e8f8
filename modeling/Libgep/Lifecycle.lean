import Libgep.Server
import Libgep.TestProtocol

/-!
# The life of a client

What the user of a server sees of one client: `AddClient`, then its messages,
then at most one `DelClient`.  The vector holds exactly the clients between
the two.
-/

namespace Libgep

open CInt Transition

variable {Msg : Type*}

/-! ## What the user sees -/

inductive UserEvent where
  | add
  | message
  | del
  deriving DecidableEq

def ArrayEvent.user (id : ℤ) : ArrayEvent Msg → Option UserEvent
  | .addClient id' => if id' = id then some .add else none
  | .delClient id' => if id' = id then some .del else none
  | .channel id' (.dispatch _) => if id' = id then some .message else none
  | _ => none

def userEvents (id : ℤ) (log : List (ArrayEvent Msg)) : List UserEvent :=
  log.filterMap (ArrayEvent.user id)

theorem userEvents_append (id : ℤ) (xs ys : List (ArrayEvent Msg)) :
    userEvents id (xs ++ ys) = userEvents id xs ++ userEvents id ys :=
  List.filterMap_append

def addedIds (log : List (ArrayEvent Msg)) : List ℤ :=
  log.filterMap fun
    | .addClient id => some id
    | _ => none

def deletedIds (log : List (ArrayEvent Msg)) : List ℤ :=
  log.filterMap fun
    | .delClient id => some id
    | _ => none

theorem addedIds_append (xs ys : List (ArrayEvent Msg)) :
    addedIds (xs ++ ys) = addedIds xs ++ addedIds ys :=
  List.filterMap_append

/-! ## Phases -/

inductive Phase where
  | unknown
  | connected
  | gone
  deriving DecidableEq

def Phase.next : Phase → UserEvent → Option Phase
  | .unknown, .add => some .connected
  | .connected, .message => some .connected
  | .connected, .del => some .gone
  | _, _ => none

/-- The phase after some more events, unless these come in a wrong order. -/
def Phase.run (phase : Phase) (events : List UserEvent) : Option Phase :=
  events.foldlM Phase.next phase

theorem Phase.run_append (phase : Phase) (xs ys : List UserEvent) :
    phase.run (xs ++ ys) = (phase.run xs).bind fun phase ↦ phase.run ys :=
  List.foldlM_append

theorem Phase.run_messages {events : List UserEvent} (h : ∀ ev ∈ events, ev = .message) :
    Phase.connected.run events = some .connected := by
  induction events with
  | nil => rfl
  | cons ev events ih =>
      obtain ⟨rfl, hrest⟩ := List.forall_mem_cons.mp h
      exact ih hrest

theorem Phase.run_gone {events : List UserEvent} {phase : Phase}
    (h : Phase.gone.run events = some phase) : events = [] ∧ phase = .gone := by
  cases events with
  | nil => exact ⟨rfl, (Option.some.inj h).symm⟩
  | cons ev events => cases ev <;> cases h

theorem Phase.run_connected {events : List UserEvent} {phase : Phase}
    (h : Phase.connected.run events = some phase) :
    ∃ n, (phase = .connected ∧ events = List.replicate n .message) ∨
      (phase = .gone ∧ events = List.replicate n .message ++ [.del]) := by
  induction events with
  | nil => exact ⟨0, .inl ⟨(Option.some.inj h).symm, rfl⟩⟩
  | cons ev events ih =>
      cases ev with
      | add => cases h
      | message =>
          obtain ⟨n, ⟨hphase, hevents⟩ | ⟨hphase, hevents⟩⟩ := ih h
          · exact ⟨n + 1, .inl ⟨hphase, by rw [hevents]; rfl⟩⟩
          · exact ⟨n + 1, .inr ⟨hphase, by rw [hevents]; rfl⟩⟩
      | del =>
          obtain ⟨rfl, hphase⟩ := Phase.run_gone h
          exact ⟨0, .inr ⟨hphase, rfl⟩⟩

theorem Phase.run_unknown {events : List UserEvent} {phase : Phase}
    (h : Phase.unknown.run events = some phase) :
    (phase = .unknown ∧ events = []) ∨
      ∃ n, (phase = .connected ∧ events = .add :: List.replicate n .message) ∨
        (phase = .gone ∧ events = .add :: (List.replicate n .message ++ [.del])) := by
  cases events with
  | nil => exact .inl ⟨(Option.some.inj h).symm, rfl⟩
  | cons ev events =>
      cases ev with
      | message | del => cases h
      | add =>
          obtain ⟨n, ⟨hphase, hevents⟩ | ⟨hphase, hevents⟩⟩ := Phase.run_connected h
          · exact .inr ⟨n, .inl ⟨hphase, by rw [hevents]⟩⟩
          · exact .inr ⟨n, .inr ⟨hphase, by rw [hevents]⟩⟩

/-- The phase of a client, told from the array. -/
def GepChannelArray.phaseOf (a : GepChannelArray) (id : ℤ) : Phase :=
  if id ∈ a.ids then .connected
  else if 0 ≤ id ∧ id < a.lastChannelId then .gone
  else .unknown

/-! ## One step -/

/-- The events of a step lead every client from its phase before to its phase
after. -/
def Advances (a : GepChannelArray) (es : List (ArrayEvent Msg)) (a' : GepChannelArray) : Prop :=
  ∀ id, (a.phaseOf id).run (userEvents id es) = some (a'.phaseOf id)

theorem phaseOf_of_keeps {a a' : GepChannelArray} (hkeeps : GepChannelArray.Keeps a a')
    (hvector : a'.vector = a.vector) (id : ℤ) : a'.phaseOf id = a.phaseOf id := by
  have hids : a'.ids = a.ids := by
    rw [GepChannelArray.ids, hvector]
    exact ArrayOk.ids_of_keeps hkeeps
  rw [GepChannelArray.phaseOf, GepChannelArray.phaseOf, hids, hkeeps.lastChannelId]

theorem Advances.of_silent {a a' : GepChannelArray} {es : List (ArrayEvent Msg)}
    (hkeeps : GepChannelArray.Keeps a a') (hvector : a'.vector = a.vector)
    (hsilent : ∀ id, userEvents id es = []) : Advances a es a' := by
  intro id
  rw [hsilent, phaseOf_of_keeps hkeeps hvector]
  rfl

theorem openServerSocket_userEvents (a : GepChannelArray) (env : ListenEnv) (id : ℤ) :
    userEvents id (@a.openServerSocket Msg env).events = [] := by
  rcases @a.openServerSocket_events Msg env with ⟨-, hes⟩ | ⟨-, hes | hes | hes⟩ <;>
    rw [hes] <;> rfl

theorem userEvents_closes {es : List (ArrayEvent Msg)} (h : ∀ ev ∈ es, ∃ fd, ev = .close fd)
    (id : ℤ) : userEvents id es = [] := by
  refine List.filterMap_eq_nil_iff.mpr fun ev hev ↦ ?_
  obtain ⟨fd, rfl⟩ := h ev hev
  rfl

theorem channel_userEvents (id id' : ℤ) (events : List (RecvEvent Msg)) :
    userEvents id (events.map (ArrayEvent.channel id')) =
      if id' = id then (dispatched events).map fun _ ↦ .message else [] := by
  induction events with
  | nil => split <;> rfl
  | cons ev events ih =>
      have hcons : userEvents id ((ev :: events).map (.channel id')) =
          ((ArrayEvent.channel id' ev).user id).toList ++
            userEvents id (events.map (.channel id')) := by
        rw [List.map_cons, userEvents, List.filterMap_cons]
        cases (ArrayEvent.channel id' ev).user id <;> rfl
      rw [hcons, ih, dispatched_cons, List.map_append]
      by_cases hid : id' = id
      · rw [if_pos hid, if_pos hid]
        cases ev <;> simp [ArrayEvent.user, RecvEvent.delivery, hid]
      · rw [if_neg hid, if_neg hid]
        cases ev <;> simp [ArrayEvent.user, hid]

theorem delClients_userEvents {ids : List ℤ} (hnodup : ids.Nodup) (id : ℤ) :
    userEvents id (ids.map (@ArrayEvent.delClient Msg)) = if id ∈ ids then [.del] else [] := by
  induction ids with
  | nil => rfl
  | cons id' ids ih =>
      obtain ⟨hnot, hnodup⟩ := List.nodup_cons.mp hnodup
      rw [userEvents] at ih ⊢
      rw [List.map_cons, List.filterMap_cons, ih hnodup]
      by_cases hid : id' = id
      · subst hid
        simp [ArrayEvent.user, hnot]
      · simp [ArrayEvent.user, hid, Ne.symm hid]

section Step

variable {a : GepChannelArray} {retained : List ℕ}

theorem Advances.added (h : ArrayOk a retained) (fd : ℤ) (stale : Buffer) :
    Advances a [@ArrayEvent.accept Msg a.serverSocket fd, .addClient a.lastChannelId]
      (a.withChannel fd stale) := by
  have hlast := h.last
  intro id
  have hafter : (a.withChannel fd stale).lastChannelId = a.lastChannelId + 1 := rfl
  simp only [GepChannelArray.phaseOf, h.withChannel_ids, List.mem_append, List.mem_singleton,
    hafter]
  by_cases hid : id = a.lastChannelId
  · subst hid
    have hnot : a.lastChannelId ∉ a.ids := fun hmem ↦ (h.id _ hmem).2.false
    simp only [hnot, false_or, if_true, if_false, lt_irrefl, and_false]
    have hevents : userEvents a.lastChannelId [@ArrayEvent.accept Msg a.serverSocket fd,
        .addClient a.lastChannelId] = [.add] := by
      simp [userEvents, ArrayEvent.user, List.filterMap_cons]
    rw [hevents]
    rfl
  · have hevents : userEvents id [@ArrayEvent.accept Msg a.serverSocket fd,
        .addClient a.lastChannelId] = [] := by
      simp [userEvents, ArrayEvent.user, Ne.symm hid]
    have hlt : id < a.lastChannelId + 1 ↔ id < a.lastChannelId := by omega
    rw [hevents]
    simp only [hid, or_false, hlt]
    rfl

theorem Advances.served {id : ℤ} (hmem : id ∈ a.ids) {a' : GepChannelArray}
    (hkeeps : GepChannelArray.Keeps a a') (hvector : a'.vector = a.vector)
    (events : List (RecvEvent Msg)) : Advances a (events.map (.channel id)) a' := by
  intro id'
  rw [phaseOf_of_keeps hkeeps hvector, channel_userEvents]
  by_cases hid : id = id'
  · subst hid
    rw [if_pos rfl, GepChannelArray.phaseOf, if_pos hmem]
    exact Phase.run_messages fun ev hev ↦ (List.mem_map.mp hev).choose_spec.2.symm
  · rw [if_neg hid]
    rfl

theorem finish_mem_ids (h : ArrayOk a retained) {addr : ℕ} (hmem : addr ∈ a.vector) {ret : ℤ}
    (hret : ret < 0) {id : ℤ} :
    id ∈ (@a.finish Msg addr ret).array.ids ↔ id ≠ (a.heap addr).id ∧ id ∈ a.ids := by
  rw [GepChannelArray.ids, a.finish_vector, if_pos hret,
    ArrayOk.ids_of_keeps (a.finish_keeps addr ret), List.mem_map, GepChannelArray.mem_ids]
  constructor
  · rintro ⟨addr', hmem', rfl⟩
    obtain ⟨hne, hmem'⟩ := h.nodup.mem_erase_iff.mp hmem'
    exact ⟨fun hid ↦ hne (h.id_injective hmem' hmem hid), addr', hmem', rfl⟩
  · rintro ⟨hne, addr', hmem', rfl⟩
    refine ⟨addr', h.nodup.mem_erase_iff.mpr ⟨?_, hmem'⟩, rfl⟩
    rintro rfl
    exact hne rfl

theorem Advances.finished (h : ArrayOk a retained) {addr : ℕ} (hmem : addr ∈ a.vector) {ret : ℤ}
    (hret : ret < 0) :
    Advances a (@a.finish Msg addr ret).events (@a.finish Msg addr ret).array := by
  intro id
  have hevents : userEvents id (@a.finish Msg addr ret).events =
      if (a.heap addr).id = id then [.del] else [] := by
    rw [GepChannelArray.finish]
    dsimp only
    rw [userEvents_append, userEvents_closes (GepChannelArray.release_events _ _ _),
      List.append_nil, GepChannelArray.remove, if_pos ⟨hret, hmem⟩]
    exact (delClients_userEvents (List.nodup_singleton _) id).trans (by simp [eq_comm])
  rw [hevents]
  simp only [GepChannelArray.phaseOf, finish_mem_ids h hmem hret,
    (a.finish_keeps addr ret).lastChannelId]
  by_cases hid : (a.heap addr).id = id
  · have hin : id ∈ a.ids := a.mem_ids.mpr ⟨addr, hmem, hid⟩
    simp [hid, hin, h.id id hin, Phase.run, Phase.next]
  · simp only [hid, Ne.symm hid, ne_eq, not_false_eq_true, true_and, if_false]
    rfl

theorem Advances.stopped (h : ArrayOk a retained) :
    Advances a (@a.stop Msg retained).events (@a.stop Msg retained).array := by
  intro id
  have hevents : userEvents id (@a.stop Msg retained).events =
      if id ∈ a.ids then [.del] else [] := by
    have hserver : userEvents id (@a.closeServerSocket Msg).events = [] := by
      unfold GepChannelArray.closeServerSocket
      split <;> rfl
    rw [GepChannelArray.stop]
    dsimp only
    rw [userEvents_append, userEvents_append, hserver,
      userEvents_closes (GepChannelArray.releaseAll_events _ _ _), List.append_nil,
      List.nil_append, delClients_userEvents (h.ids.imp fun hlt ↦ hlt.ne)]
  have hempty : (@a.stop Msg retained).array.ids = [] := by
    rw [GepChannelArray.ids, a.stop_vector, List.map_nil]
  rw [hevents, GepChannelArray.phaseOf, GepChannelArray.phaseOf, hempty,
    (a.stop_keeps retained).lastChannelId]
  by_cases hin : id ∈ a.ids
  · simp [hin, h.id id hin, Phase.run, Phase.next]
  · simp [hin, Phase.run]

end Step

/-- A step of an array whose vector holds the channel that is being served. -/
theorem arrayStep_advances {e : Endpoint Msg} {s s' : ArrayState} {l : ArrayLabel}
    {es : List (ArrayEvent Msg)} (hs : ArrayOk s.array s.retained)
    (hserving : ∀ addr ∈ s.retained, addr ∈ s.array.vector)
    (h : arrayStep e s l = some (s', es)) : Advances s.array es s'.array := by
  cases arrayStep_spec h with
  | openServerSocket env =>
      exact .of_silent (s.array.openServerSocket_keeps env)
        (s.array.openServerSocket_vector env) (openServerSocket_userEvents _ _)
  | refused | full | idle | picked =>
      exact .of_silent (.refl _) rfl fun _ ↦ rfl
  | added fd stale hfd hroom => exact .added hs fd stale
  | served addr r ret hret hfits hret =>
      have hmem : addr ∈ s.array.vector := hserving addr (by simp [ArrayState.retained, *])
      exact .served (s.array.mem_ids.mpr ⟨addr, hmem, rfl⟩)
        (s.array.withState_keeps (GepChannel.recvData_socketKept e _ r).id) rfl _
  | finished addr ret hfinish =>
      have hmem : addr ∈ s.array.vector := hserving addr (by simp [ArrayState.retained, *])
      by_cases hret : ret < 0
      · exact .finished hs hmem hret
      · refine .of_silent (s.array.finish_keeps addr ret) ?_ fun id ↦ ?_
        · rw [s.array.finish_vector, if_neg hret]
        · rw [GepChannelArray.finish, GepChannelArray.remove, if_neg fun hand ↦ hret hand.1]
          exact userEvents_closes (GepChannelArray.release_events _ _ _) id
  | stopped => exact .stopped hs

/-! ## Every run -/

theorem Phase.run_add {phase phase' : Phase} {events : List UserEvent}
    (h : phase.run events = some phase') (hadd : .add ∈ events) :
    phase = .unknown ∧ phase' ≠ .unknown := by
  cases phase with
  | unknown =>
      rcases Phase.run_unknown h with ⟨-, rfl⟩ | ⟨n, ⟨rfl, -⟩ | ⟨rfl, -⟩⟩
      · cases hadd
      · exact ⟨rfl, by rintro ⟨⟩⟩
      · exact ⟨rfl, by rintro ⟨⟩⟩
  | connected =>
      obtain ⟨n, ⟨-, rfl⟩ | ⟨-, rfl⟩⟩ := Phase.run_connected h <;> simp at hadd
  | gone =>
      obtain ⟨rfl, -⟩ := Phase.run_gone h
      cases hadd

theorem phaseOf_eq_unknown_iff {a : GepChannelArray} {retained : List ℕ}
    (h : ArrayOk a retained) (id : ℤ) :
    a.phaseOf id = .unknown ↔ ¬ (0 ≤ id ∧ id < a.lastChannelId) := by
  unfold GepChannelArray.phaseOf
  split_ifs with hin hlt
  · exact iff_of_false (by rintro ⟨⟩) (not_not.mpr (h.id id hin))
  · exact iff_of_false (by rintro ⟨⟩) (not_not.mpr hlt)
  · exact iff_of_true rfl hlt

theorem count_addedIds (log : List (ArrayEvent Msg)) (id : ℤ) :
    (addedIds log).count id = (userEvents id log).count .add := by
  rw [addedIds, userEvents, List.count_filterMap, List.count_filterMap]
  refine List.countP_congr fun ev _ ↦ ?_
  rcases ev with - | - | - | - | - | - | ⟨id', ev⟩ | -
  case channel => cases ev <;> simp [ArrayEvent.user]
  all_goals simp [ArrayEvent.user]

theorem count_deletedIds (log : List (ArrayEvent Msg)) (id : ℤ) :
    (deletedIds log).count id = (userEvents id log).count .del := by
  rw [deletedIds, userEvents, List.count_filterMap, List.count_filterMap]
  refine List.countP_congr fun ev _ ↦ ?_
  rcases ev with - | - | - | - | - | - | ⟨id', ev⟩ | -
  case channel => cases ev <;> simp [ArrayEvent.user]
  all_goals simp [ArrayEvent.user]

theorem Advances.addedIds_eq_nil {a a' : GepChannelArray} {retained retained' : List ℕ}
    {es : List (ArrayEvent Msg)} (h : Advances a es a') (ha : ArrayOk a retained)
    (ha' : ArrayOk a' retained') (hlast : a'.lastChannelId = a.lastChannelId) :
    addedIds es = [] := by
  refine List.eq_nil_iff_forall_not_mem.mpr fun id hid ↦ ?_
  have hadd : .add ∈ userEvents id es := by
    rw [← List.count_pos_iff, ← count_addedIds]
    exact List.count_pos_iff.mpr hid
  obtain ⟨hunknown, hknown⟩ := Phase.run_add (h id) hadd
  rw [phaseOf_eq_unknown_iff ha] at hunknown
  rw [ne_eq, phaseOf_eq_unknown_iff ha', hlast] at hknown
  exact hknown hunknown

/-- The log tells the phase of every client; ids are used once, in order. -/
structure LifecycleOk (s : ArrayState) (log : List (ArrayEvent Msg)) : Prop where
  serving : ∀ addr ∈ s.retained, addr ∈ s.array.vector
  phase : ∀ id, Phase.unknown.run (userEvents id log) = some (s.array.phaseOf id)
  added : (addedIds log).Pairwise (· < ·)
  lt : ∀ id ∈ addedIds log, id < s.array.lastChannelId
  last : s.array.lastChannelId = (addedIds log).length

theorem LifecycleOk.step {e : Endpoint Msg} {s s' : ArrayState} {l : ArrayLabel}
    {log es : List (ArrayEvent Msg)} (hs : LifecycleOk s log) (ha : ArrayOk s.array s.retained)
    (hserial : Serial s l) (h : arrayStep e s l = some (s', es)) :
    LifecycleOk s' (log ++ es) := by
  have hadvances := arrayStep_advances ha hs.serving h
  have ha' := arrayOk_step ha h
  have hphase : ∀ id, Phase.unknown.run (userEvents id (log ++ es)) =
      some (s'.array.phaseOf id) := by
    intro id
    rw [userEvents_append, Phase.run_append, hs.phase id, Option.bind_some, hadvances id]
  have hquiet : (∀ addr ∈ s'.retained, addr ∈ s'.array.vector) →
      s'.array.lastChannelId = s.array.lastChannelId → LifecycleOk s' (log ++ es) := by
    intro hserving hlast
    have hnone := hadvances.addedIds_eq_nil ha ha' hlast
    have hadded : addedIds (log ++ es) = addedIds log := by
      rw [addedIds_append, hnone, List.append_nil]
    exact ⟨hserving, hphase, hadded ▸ hs.added, hadded ▸ hlast ▸ hs.lt,
      hadded ▸ hlast ▸ hs.last⟩
  cases arrayStep_spec h with
  | openServerSocket env =>
      refine hquiet ?_ (s.array.openServerSocket_keeps env).lastChannelId
      rw [s.array.openServerSocket_vector env]
      exact hs.serving
  | refused | full | idle => exact hquiet hs.serving rfl
  | added fd stale hfd hroom =>
      have hadded : addedIds (log ++ [.accept s.array.serverSocket fd,
          .addClient s.array.lastChannelId]) = addedIds log ++ [s.array.lastChannelId] := by
        rw [addedIds_append]
        rfl
      refine ⟨fun addr hmem ↦ List.mem_append_left _ (hs.serving addr hmem), hphase, ?_, ?_, ?_⟩
      · rw [hadded]
        refine List.pairwise_append.mpr ⟨hs.added, List.pairwise_singleton _ _, ?_⟩
        rintro id hid _ (- | ⟨_, ⟨⟩⟩)
        exact hs.lt id hid
      · rw [hadded]
        intro id hid
        change id < s.array.lastChannelId + 1
        rcases List.mem_append.mp hid with hid | hid
        · exact (hs.lt id hid).trans (Int.lt_succ _)
        · rw [List.mem_singleton.mp hid]
          exact Int.lt_succ _
      · rw [hadded, List.length_append, List.length_singleton, Nat.cast_succ, ← hs.last]
        rfl
  | picked readFds addr hserving hpick =>
      refine hquiet ?_ rfl
      rintro _ (- | ⟨_, ⟨⟩⟩)
      exact (s.array.pick_mem hpick).1
  | served addr r ret hserving hfits hret =>
      refine hquiet ?_ rfl
      rintro _ (- | ⟨_, ⟨⟩⟩)
      exact hs.serving addr (by simp [ArrayState.retained, hserving])
  | finished addr ret hserving =>
      exact hquiet (by rintro _ ⟨⟩) (s.array.finish_keeps addr ret).lastChannelId
  | stopped =>
      refine hquiet ?_ (s.array.stop_keeps _).lastChannelId
      rw [ArrayState.retained, hserial rfl]
      rintro _ ⟨⟩

theorem lifecycleOk {e : Endpoint Msg} {maxChannels port : ℤ} {heap : ℕ → GepChannel}
    {s : ArrayState} {log : List (ArrayEvent Msg)}
    (h : (arrayMachine e (.new maxChannels port heap)).Reaches
      (fun s _ l ↦ True ∧ Serial s l) s log) : LifecycleOk s log := by
  refine h.invariant ?_ fun hreach hs hok hstep ↦ hs.step (arrayOk hreach) hok.2 hstep
  refine ⟨by rintro _ ⟨⟩, fun id ↦ ?_, List.Pairwise.nil, by rintro _ ⟨⟩, rfl⟩
  have hunknown : (GepChannelArray.new maxChannels port heap).phaseOf id = .unknown := by
    unfold GepChannelArray.phaseOf
    rw [if_neg (by rintro ⟨⟩), if_neg fun hlt ↦ (hlt.1.trans_lt hlt.2).false]
  exact congrArg some hunknown.symm

/-- The id counter does not overflow before so many clients have been added. -/
theorem acceptConnection_isSome {s : ArrayState} {log : List (ArrayEvent Msg)}
    (hs : LifecycleOk s log) (hcount : (addedIds log).length + 1 < 2 ^ 31) (fd : ℤ)
    (stale : Buffer) : (@s.array.acceptConnection Msg fd stale).isSome := by
  have hlast := hs.last
  unfold GepChannelArray.acceptConnection GepChannelArray.addChannel
  rw [if_neg (show ¬ s.array.lastChannelId + 1 = 2 ^ 31 by omega)]
  split_ifs <;> rfl

/-! ## Servers -/

/-- `AddClient`, then messages, then at most one `DelClient`, or nothing. -/
def IsLifecycle (events : List UserEvent) : Prop :=
  events = [] ∨ ∃ n, events = .add :: List.replicate n .message ∨
    events = .add :: (List.replicate n .message ++ [.del])

/-- The clients of a server: what the log shows of each, and what is held of
them in the array. -/
structure ClientsOk (maxChannels : ℤ) (s : GepServer) (log : List (ArrayEvent Msg)) : Prop where
  increasing : (addedIds log).Pairwise (· < ·)
  lifecycle : ∀ id, IsLifecycle (userEvents id log)
  nodup : s.array.array.ids.Nodup
  connected : ∀ id, id ∈ s.array.array.ids ↔ id ∈ addedIds log ∧ id ∉ deletedIds log
  size : (s.array.array.vector.length : ℤ) ≤ maxChannels
  stopped : s.pc = .idle → s.array.array.vector = [] ∧
    ∀ id ∈ addedIds log, (deletedIds log).count id = 1

theorem mem_addedIds_iff {log : List (ArrayEvent Msg)} {id : ℤ} :
    id ∈ addedIds log ↔ .add ∈ userEvents id log := by
  rw [← List.count_pos_iff, count_addedIds, List.count_pos_iff]

theorem mem_deletedIds_iff {log : List (ArrayEvent Msg)} {id : ℤ} :
    id ∈ deletedIds log ↔ .del ∈ userEvents id log := by
  rw [← List.count_pos_iff, count_deletedIds, List.count_pos_iff]

theorem LifecycleOk.connected_iff {s : ArrayState} {log : List (ArrayEvent Msg)}
    (hs : LifecycleOk s log) (id : ℤ) :
    s.array.phaseOf id = .connected ↔ id ∈ addedIds log ∧ id ∉ deletedIds log := by
  rw [mem_addedIds_iff, mem_deletedIds_iff]
  rcases Phase.run_unknown (hs.phase id) with
    ⟨hphase, hevents⟩ | ⟨n, ⟨hphase, hevents⟩ | ⟨hphase, hevents⟩⟩
  all_goals
    rw [hphase, hevents]
    simp

theorem LifecycleOk.count_deletedIds {s : ArrayState} {log : List (ArrayEvent Msg)}
    (hs : LifecycleOk s log) {id : ℤ} (hadded : id ∈ addedIds log) :
    (deletedIds log).count id = if s.array.phaseOf id = .connected then 0 else 1 := by
  rw [mem_addedIds_iff] at hadded
  rw [Libgep.count_deletedIds]
  rcases Phase.run_unknown (hs.phase id) with
    ⟨hphase, hevents⟩ | ⟨n, ⟨hphase, hevents⟩ | ⟨hphase, hevents⟩⟩
  · rw [hevents] at hadded
    cases hadded
  all_goals
    rw [hphase, hevents]
    simp [List.count_append, List.count_replicate]

theorem phaseOf_eq_connected_iff (a : GepChannelArray) (id : ℤ) :
    a.phaseOf id = .connected ↔ id ∈ a.ids := by
  unfold GepChannelArray.phaseOf
  split_ifs with hin hlt
  · exact iff_of_true rfl hin
  · exact iff_of_false (by rintro ⟨⟩) hin
  · exact iff_of_false (by rintro ⟨⟩) hin

/-- In every run of a server, clients are added under increasing ids, each is
seen added, served and deleted in this order, and the vector holds exactly
those that are added and not yet deleted.  A server that has stopped has
deleted all of them. -/
theorem clientsOk (e : Endpoint Msg) {maxChannels : ℤ} (hmax : 0 ≤ maxChannels) (port : ℤ)
    (heap : ℕ → GepChannel) {s : GepServer} {log : List (ArrayEvent Msg)}
    (h : (serverMachine e (.new maxChannels port heap)).Reaches (fun _ _ _ ↦ True) s log) :
    ClientsOk maxChannels s log := by
  have harray : (arrayMachine e (.new maxChannels port heap)).Reaches
      (fun s _ l ↦ True ∧ Serial s l) s.array log :=
    reaches_array rfl (fun _ _ ↦ trivial) h
  have hok := arrayOk harray
  have hlife := lifecycleOk harray
  have hvector : ∀ id, id ∈ s.array.array.ids ↔ id ∈ addedIds log ∧ id ∉ deletedIds log := by
    intro id
    rw [← phaseOf_eq_connected_iff, hlife.connected_iff]
  refine ⟨hlife.added, fun id ↦ ?_, hok.ids.imp fun hlt ↦ hlt.ne, hvector, ?_, fun hidle ↦ ?_⟩
  · rcases Phase.run_unknown (hlife.phase id) with ⟨-, hnone⟩ | ⟨n, ⟨-, hevents⟩ | ⟨-, hevents⟩⟩
    · exact .inl hnone
    · exact .inr ⟨n, .inl hevents⟩
    · exact .inr ⟨n, .inr hevents⟩
  · have hsize := hok.size
    have hsame : s.array.array.maxChannels = maxChannels := maxChannels_eq harray
    rw [hsame, toUnsigned] at hsize
    omega
  · have hempty := ((serverOk rfl h).idle hidle).1
    refine ⟨hempty, fun id hadded ↦ ?_⟩
    have hids : s.array.array.ids = [] := by
      rw [GepChannelArray.ids, hempty, List.map_nil]
    rw [hlife.count_deletedIds hadded, if_neg]
    rw [phaseOf_eq_connected_iff, hids]
    exact List.not_mem_nil

def unallocated (_ : ℕ) : GepChannel := .new 0 (-1) TestProtocol.blank

/-- Two clients are accepted, on descriptors 4 and 5; the first one sends a
message, the second one leaves, and the server is stopped.  It is started
again, and accepts a third client. -/
def threeClientsRun : List ServerLabel :=
  [.start ⟨3, false, false, false, none⟩, .enter, .loop, .select (.ready (· == 3)), .recvBegin,
    .acceptBegin, .accept 4 TestProtocol.blank, .loop, .select (.ready (· == 3)), .recvBegin,
    .acceptBegin, .accept 5 TestProtocol.blank, .loop, .select (.ready (· == 4)), .recvBegin,
    .recv (.data (TestProtocol.frame ⟨.command4, [8, 7]⟩)), .recvEnd, .acceptBegin, .loop,
    .select (.ready (· == 5)), .recvBegin, .recv (.data []), .recvEnd, .acceptBegin, .stop, .loop,
    .join, .start ⟨3, false, false, false, none⟩, .enter, .loop, .select (.ready (· == 3)),
    .recvBegin, .acceptBegin, .accept 4 TestProtocol.blank]

theorem clientsOk_threeClients : ∃ s log,
    (serverMachine TestProtocol.endpoint (.new 2 7 unallocated)).runFrom
        (.new (.new 2 7 unallocated)) threeClientsRun = some (s, log) ∧
      ClientsOk 2 s log ∧ userEvents 0 log = [.add, .message, .del] ∧
      userEvents 1 log = [.add, .del] ∧ s.array.array.ids = [2] := by
  have hends : ((serverMachine TestProtocol.endpoint (.new 2 7 unallocated)).runFrom
      (.new (.new 2 7 unallocated)) threeClientsRun).map (fun next ↦
        (userEvents 0 next.2, userEvents 1 next.2, next.1.array.array.ids)) =
      some ([.add, .message, .del], [.add, .del], [2]) := by
    decide +kernel
  obtain ⟨⟨s, log⟩, hrun, hends⟩ := Option.map_eq_some_iff.mp hends
  obtain ⟨hfirst, hrest⟩ := Prod.mk.inj hends
  obtain ⟨hsecond, hids⟩ := Prod.mk.inj hrest
  have hreaches : (serverMachine TestProtocol.endpoint (.new 2 7 unallocated)).Reaches
      (fun _ _ _ ↦ True) s log :=
    Machine.Reaches.run .init (.of_forall (fun _ _ _ ↦ trivial) _ _ _) hrun
  exact ⟨s, log, hrun, clientsOk TestProtocol.endpoint (by decide) 7 unallocated hreaches, hfirst,
    hsecond, hids⟩

end Libgep
