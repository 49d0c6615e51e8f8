import Libgep.ArrayInvariant
import Libgep.Lib.LockOrder
import Libgep.Lifecycle

/-!
# The locks around user code

A server calls code of the user when it dispatches a message and when a client
comes or goes.  Each operation of the array is given as a program that takes
the locks of the vector and of the sockets; the machine interleaves the
programs of the service thread with those of threads that send.
-/

namespace Libgep

open CInt Transition LockOrder

variable {Msg : Type*}

/-! ## Locks and programs -/

inductive ServerLock where
  /-- A mutex of the user. -/
  | user
  /-- `gep_channel_vector_lock_`. -/
  | vector
  /-- The `socket_lock_` of the channel at `addr`. -/
  | socket (addr : ℕ)
  deriving DecidableEq

namespace ServerLock

/-- `gep_channel_vector_lock_` is the only recursive mutex. -/
def recursive : ServerLock → Bool
  | .vector => true
  | _ => false

def rank : ServerLock → ℕ
  | .user => 0
  | .vector => 1
  | .socket _ => 2

end ServerLock

/-- A program of the server; the code that it calls is given as the event. -/
abbrev Program (Msg : Type*) := List (Act ServerLock (ArrayEvent Msg))

/-- The events that are calls of user code. -/
def ArrayEvent.isCallback : ArrayEvent Msg → Bool
  | .addClient _ => true
  | .delClient _ => true
  | .channel _ (.dispatch _) => true
  | _ => false

/-- `GetSocket`, `IsOpenSocket`, `Close`, `SendTLV`, and `Recv` in `RecvData`,
as far as locks are concerned. -/
def withSocket (addr : ℕ) : Program Msg := critical (.socket addr) []

/-- A `SendMessage` that uses the sockets of `addrs`. -/
def sendProgram (addrs : List ℕ) : Program Msg := critical .vector (addrs.flatMap withSocket)

/-- Code of the user, which may take its mutex and send meanwhile; `sends` are
the sockets that each `Send` uses. -/
structure UserCode where
  mutex : Bool
  sends : List (List ℕ)

def UserCode.program (code : UserCode) : Program Msg :=
  if code.mutex then critical .user (code.sends.flatMap sendProgram)
  else code.sends.flatMap sendProgram

section Operations

variable (user : ArrayEvent Msg → UserCode)

def invoke (ev : ArrayEvent Msg) : Program Msg := .call ev :: (user ev).program

def callbacks (es : List (ArrayEvent Msg)) : Program Msg :=
  (es.filter ArrayEvent.isCallback).flatMap (invoke user)

/-- `RecvData` of the channel at `addr`, event by event. -/
def recvProgram (addr : ℕ) (ev : ArrayEvent Msg) : Program Msg :=
  match ev with
  | .channel _ (.recv _ _ _) => withSocket addr
  | .channel _ (.dispatch _) => invoke user ev
  | .channel _ (.close _) => withSocket addr
  | _ => []

namespace GepChannelArray

variable (a : GepChannelArray)

def getVectorReadFdsProgram : Program Msg := critical .vector (a.vector.flatMap withSocket)

/-- The channels that `RecvData` looks at until it finds one that is ready. -/
def lookedAt (readFds : FdSet) : List ℕ :=
  a.vector.takeWhile (fun addr ↦ ¬ (0 ≤ (a.heap addr).socket ∧ readFds (a.heap addr).socket)) ++
    (a.pick readFds).toList

end GepChannelArray

/-- The channels that `Stop` destroys while they are open. -/
def ArrayState.destroyed (s : ArrayState) : List ℕ :=
  s.array.vector.filter fun addr ↦ addr ∉ s.retained ∧ (s.array.heap addr).socket ≠ -1

def ArrayEvent.isClose : ArrayEvent Msg → Bool
  | .close _ => true
  | _ => false

/-- The program of a step of the array that has the events `es`. -/
def operation (s : ArrayState) (es : List (ArrayEvent Msg)) : ArrayLabel → Program Msg
  | .openServerSocket _ => []
  | .acceptConnection fd _ => if fd = -1 then [] else critical .vector (callbacks user es)
  | .pick readFds => critical .vector ((s.array.lookedAt readFds).flatMap withSocket)
  | .serve _ =>
      match s.serving with
      | some serving => es.flatMap (recvProgram user serving.addr)
      | none => []
  | .finish =>
      match s.serving with
      | some ⟨addr, some ret⟩ =>
          -- the channel is destroyed when the lock has been released
          (if ret < 0 then critical .vector (callbacks user es) else []) ++
            (es.filter ArrayEvent.isClose).flatMap fun _ ↦ withSocket addr
      | _ => []
  | .stop => critical .vector (callbacks user es ++ s.destroyed.flatMap withSocket)

end Operations

/-! ## The user code of a step -/

/-- `AddClient` or `DelClient`. -/
def ArrayEvent.isClientCallback : ArrayEvent Msg → Bool
  | .addClient _ => true
  | .delClient _ => true
  | _ => false

/-- A step that calls neither `AddClient` nor `DelClient`. -/
def Quiet (s : ArrayState) : ArrayLabel → Prop
  | .acceptConnection fd _ =>
      fd = -1 ∨ toUnsigned 64 s.array.maxChannels ≤ s.array.vector.length
  | .finish => ∀ addr ret, s.serving = some ⟨addr, some ret⟩ → 0 ≤ ret ∨ addr ∉ s.array.vector
  | .stop => s.array.vector = []
  | _ => True

namespace GepChannelArray

variable (a : GepChannelArray)

theorem openServerSocket_callbacks (env : ListenEnv) :
    (@a.openServerSocket Msg env).events.filter ArrayEvent.isCallback = [] := by
  rcases @a.openServerSocket_events Msg env with ⟨-, hes⟩ | ⟨-, hes | hes | hes⟩ <;>
    rw [hes] <;> rfl

theorem filter_isCallback_closes {es : List (ArrayEvent Msg)}
    (h : ∀ ev ∈ es, ∃ fd, ev = .close fd) : es.filter ArrayEvent.isCallback = [] := by
  refine List.filter_eq_nil_iff.mpr fun ev hev ↦ ?_
  obtain ⟨fd, rfl⟩ := h ev hev
  exact Bool.false_ne_true

theorem finish_callbacks (addr : ℕ) (ret : ℤ) :
    (@a.finish Msg addr ret).events.filter ArrayEvent.isCallback =
      if ret < 0 ∧ addr ∈ a.vector then [.delClient (a.heap addr).id] else [] := by
  rw [finish]
  dsimp only
  rw [List.filter_append, filter_isCallback_closes (release_events _ _ _),
    List.append_nil, remove]
  split_ifs <;> rfl

theorem stop_callbacks (retained : List ℕ) :
    (@a.stop Msg retained).events.filter ArrayEvent.isCallback = a.ids.map .delClient := by
  have hserver : (@a.closeServerSocket Msg).events.filter ArrayEvent.isCallback = [] := by
    unfold closeServerSocket
    split_ifs <;> rfl
  have hall : (a.ids.map (@ArrayEvent.delClient Msg)).filter ArrayEvent.isCallback =
      a.ids.map .delClient := by
    refine List.filter_eq_self.mpr fun ev hev ↦ ?_
    obtain ⟨id, -, rfl⟩ := List.mem_map.mp hev
    rfl
  rw [stop]
  dsimp only
  rw [List.filter_append, List.filter_append, hserver, hall,
    filter_isCallback_closes (releaseAll_events _ _ _), List.nil_append, List.append_nil]

end GepChannelArray

/-- The user code that a step calls: callbacks of messages when it serves a
channel, and else `AddClient` and `DelClient`, unless it is quiet. -/
structure StepCallbacks (s : ArrayState) (l : ArrayLabel) (es : List (ArrayEvent Msg)) : Prop where
  client : (∀ r, l ≠ .serve r) → ∀ ev ∈ es, ev.isCallback = true → ev.isClientCallback = true
  message : ∀ r, l = .serve r → ∀ ev ∈ es, ev.isClientCallback = false
  quiet : Quiet s l ↔ ∀ ev ∈ es, ev.isClientCallback = false

theorem StepCallbacks.of_filter {s : ArrayState} {l : ArrayLabel} {es evs : List (ArrayEvent Msg)}
    (hl : ∀ r, l ≠ .serve r) (hfilter : es.filter ArrayEvent.isCallback = evs)
    (hclient : ∀ ev ∈ evs, ev.isClientCallback = true) (hquiet : Quiet s l ↔ evs = []) :
    StepCallbacks s l es := by
  have hmem : ∀ ev ∈ es, ev.isCallback = true → ev ∈ evs := by
    intro ev hev hcallback
    rw [← hfilter]
    exact List.mem_filter.mpr ⟨hev, hcallback⟩
  refine ⟨fun _ ev hev hcallback ↦ hclient ev (hmem ev hev hcallback),
    fun r hr ↦ absurd hr (hl r), hquiet.trans ⟨fun hnone ev hev ↦ ?_, fun hnone ↦ ?_⟩⟩
  · by_contra hev'
    have hcallback : ev.isCallback = true := by
      cases ev <;> first | rfl | exact absurd rfl hev'
    have hin := hmem ev hev hcallback
    rw [hnone] at hin
    cases hin
  · refine List.eq_nil_iff_forall_not_mem.mpr fun ev hev ↦ ?_
    have hes : ev ∈ es := by
      rw [← hfilter] at hev
      exact List.mem_of_mem_filter hev
    exact absurd (hclient ev hev) (by simp [hnone ev hes])

theorem StepCallbacks.silent {s : ArrayState} {l : ArrayLabel} {es : List (ArrayEvent Msg)}
    (hl : ∀ r, l ≠ .serve r) (hfilter : es.filter ArrayEvent.isCallback = []) (hquiet : Quiet s l) :
    StepCallbacks s l es :=
  .of_filter hl hfilter (List.forall_mem_nil _) (by simpa using hquiet)

theorem stepCallbacks {e : Endpoint Msg} {s s' : ArrayState} {l : ArrayLabel}
    {es : List (ArrayEvent Msg)} (h : arrayStep e s l = some (s', es)) : StepCallbacks s l es := by
  cases arrayStep_spec h with
  | openServerSocket env =>
      exact .silent (by rintro _ ⟨⟩) (s.array.openServerSocket_callbacks env) trivial
  | refused => exact .silent (by rintro _ ⟨⟩) rfl (.inl rfl)
  | full fd stale hfd hfull => exact .silent (by rintro _ ⟨⟩) rfl (.inr hfull)
  | added fd stale hfd hroom =>
      have hadd : List.filter ArrayEvent.isCallback [.accept s.array.serverSocket fd,
          .addClient s.array.lastChannelId] = [@ArrayEvent.addClient Msg s.array.lastChannelId] :=
        rfl
      refine .of_filter (by rintro _ ⟨⟩) hadd (List.forall_mem_singleton.mpr rfl) ?_
      simp [Quiet, hfd, hroom]
  | idle | picked => exact .silent (by rintro _ ⟨⟩) rfl trivial
  | served addr r ret hserving =>
      have hnone : ∀ ev ∈ ((s.array.heap addr).recvData e r).events.map
          (ArrayEvent.channel (s.array.heap addr).id), ev.isClientCallback = false := by
        intro ev hev
        obtain ⟨ev, -, rfl⟩ := List.mem_map.mp hev
        rfl
      exact ⟨fun hl ↦ absurd rfl (hl r), fun _ _ ↦ hnone, fun _ ↦ hnone, fun _ ↦ trivial⟩
  | finished addr ret hserving =>
      refine .of_filter (by rintro _ ⟨⟩) (s.array.finish_callbacks addr ret) ?_ ?_
      · split_ifs
        · exact List.forall_mem_singleton.mpr rfl
        · exact List.forall_mem_nil _
      · have hquiet : Quiet s .finish ↔ 0 ≤ ret ∨ addr ∉ s.array.vector := by
          simp [Quiet, hserving]
        rw [hquiet, ← not_lt, ← not_and_or]
        split_ifs with hfailed <;> simp [hfailed]
  | stopped =>
      refine .of_filter (by rintro _ ⟨⟩) (s.array.stop_callbacks s.retained) ?_ ?_
      · intro ev hev
        obtain ⟨id, -, rfl⟩ := List.mem_map.mp hev
        rfl
      · simp [Quiet, GepChannelArray.ids]

/-! ## The programs -/

theorem withSocket_releases (addr : ℕ) : Releases (withSocket addr : Program Msg) :=
  releases_nil.critical _

theorem sendProgram_releases (addrs : List ℕ) : Releases (sendProgram addrs : Program Msg) :=
  (releases_flatMap withSocket_releases addrs).critical _

theorem UserCode.program_releases (code : UserCode) : Releases (code.program : Program Msg) := by
  have hsends : Releases (code.sends.flatMap sendProgram : Program Msg) :=
    releases_flatMap sendProgram_releases _
  unfold UserCode.program
  split_ifs
  · exact hsends.critical _
  · exact hsends

section Operations

variable {user : ArrayEvent Msg → UserCode}

theorem invoke_releases (ev : ArrayEvent Msg) : Releases (invoke user ev) :=
  (releases_call ev).append (user ev).program_releases

theorem callbacks_releases (es : List (ArrayEvent Msg)) : Releases (callbacks user es) :=
  releases_flatMap invoke_releases _

theorem recvProgram_releases (addr : ℕ) (ev : ArrayEvent Msg) :
    Releases (recvProgram user addr ev) := by
  unfold recvProgram
  split
  · exact withSocket_releases addr
  · exact invoke_releases _
  · exact withSocket_releases addr
  · exact releases_nil

theorem operation_releases (s : ArrayState) (es : List (ArrayEvent Msg)) (l : ArrayLabel) :
    Releases (operation user s es l) := by
  cases l with
  | openServerSocket env => exact releases_nil
  | acceptConnection fd stale =>
      rw [operation]
      split_ifs
      · exact releases_nil
      · exact (callbacks_releases es).critical _
  | pick readFds => exact (releases_flatMap withSocket_releases _).critical _
  | serve r =>
      rw [operation]
      split
      · exact releases_flatMap (recvProgram_releases _) _
      · exact releases_nil
  | finish =>
      rw [operation]
      split
      · refine Releases.append ?_ (releases_flatMap (fun _ ↦ withSocket_releases _) _)
        split_ifs
        · exact (callbacks_releases es).critical _
        · exact releases_nil
      · exact releases_nil
  | stop =>
      exact ((callbacks_releases es).append (releases_flatMap withSocket_releases _)).critical _

/-- What a program of the array meets, if its critical sections and the user
code that it calls do: callbacks of messages without a lock, and the others
with the lock of the vector. -/
structure Allows (P : List ServerLock → Act ServerLock (ArrayEvent Msg) → Prop)
    (user : ArrayEvent Msg → UserCode) (es : List (ArrayEvent Msg)) : Prop where
  vector : P [] (.acquire .vector) ∧ P [.vector] (.release .vector)
  socket : ∀ addr, Meets P [] (withSocket addr) ∧ Meets P [.vector] (withSocket addr)
  message : ∀ ev ∈ es, ev.isClientCallback = false → Meets P [] (invoke user ev)
  client : ∀ ev ∈ es, ev.isClientCallback = true → Meets P [.vector] (invoke user ev)

variable {P : List ServerLock → Act ServerLock (ArrayEvent Msg) → Prop}
  {es : List (ArrayEvent Msg)}

theorem Allows.critical (h : Allows P user es) {acts : Program Msg} (hreleases : Releases acts)
    (hacts : Meets P [.vector] acts) : Meets P [] (LockOrder.critical .vector acts) :=
  (meets_critical hreleases).mpr ⟨h.vector.1, hacts, h.vector.2⟩

theorem Allows.sockets (h : Allows P user es) (addrs : List ℕ) :
    Meets P [.vector] (addrs.flatMap withSocket) :=
  meets_flatMap withSocket_releases fun addr _ ↦ (h.socket addr).2

theorem Allows.callbacks (h : Allows P user es)
    (hclient : ∀ ev ∈ es, ev.isCallback = true → ev.isClientCallback = true) :
    Meets P [.vector] (Libgep.callbacks user es) := by
  refine meets_flatMap invoke_releases fun ev hev ↦ ?_
  obtain ⟨hmem, hcallback⟩ := List.mem_filter.mp hev
  exact h.client ev hmem (hclient ev hmem hcallback)

theorem Allows.operation (h : Allows P user es) {s : ArrayState} {l : ArrayLabel}
    (hes : StepCallbacks s l es) : Meets P [] (Libgep.operation user s es l) := by
  cases l with
  | openServerSocket env => trivial
  | acceptConnection fd stale =>
      rw [Libgep.operation]
      split_ifs
      · trivial
      · exact h.critical (callbacks_releases es) (h.callbacks (hes.client (by rintro _ ⟨⟩)))
  | pick readFds =>
      exact h.critical (releases_flatMap withSocket_releases _) (h.sockets _)
  | serve r =>
      rw [Libgep.operation]
      split
      · refine meets_flatMap (recvProgram_releases _) fun ev hev ↦ ?_
        unfold recvProgram
        split
        · exact (h.socket _).1
        · exact h.message _ hev rfl
        · exact (h.socket _).1
        · trivial
      · trivial
  | finish =>
      rw [Libgep.operation]
      split
      · rw [meets_append]
        have hcallbacks := h.callbacks (hes.client (by rintro _ ⟨⟩))
        split_ifs
        · refine ⟨h.critical (callbacks_releases es) hcallbacks, ?_⟩
          rw [(callbacks_releases es).critical]
          exact meets_flatMap (fun _ ↦ withSocket_releases _) fun _ _ ↦ (h.socket _).1
        · exact ⟨trivial,
            meets_flatMap (fun _ ↦ withSocket_releases _) fun _ _ ↦ (h.socket _).1⟩
      · trivial
  | stop =>
      refine h.critical ((callbacks_releases es).append
        (releases_flatMap withSocket_releases _)) ?_
      rw [meets_append, callbacks_releases es]
      exact ⟨h.callbacks (hes.client (by rintro _ ⟨⟩)), h.sockets _⟩

/-- Every event that is a call of user code is one in the program. -/
theorem call_mem_operation {e : Endpoint Msg} {s s' : ArrayState} {l : ArrayLabel}
    (h : arrayStep e s l = some (s', es)) {ev : ArrayEvent Msg} (hev : ev ∈ es)
    (hcallback : ev.isCallback = true) : .call ev ∈ operation user s es l := by
  have hcallbacks : .call ev ∈ callbacks user es :=
    List.mem_flatMap.mpr ⟨ev, List.mem_filter.mpr ⟨hev, hcallback⟩, List.mem_cons_self⟩
  have hcritical : ∀ acts, .call ev ∈ acts →
      .call ev ∈ (LockOrder.critical .vector acts : Program Msg) :=
    fun acts hmem ↦ List.mem_cons_of_mem _ (List.mem_append_left _ hmem)
  have hsilent : ∀ {P : Prop}, es.filter ArrayEvent.isCallback = [] → P := by
    intro P hnone
    have hmem : ev ∈ es.filter ArrayEvent.isCallback := List.mem_filter.mpr ⟨hev, hcallback⟩
    rw [hnone] at hmem
    cases hmem
  cases arrayStep_spec h with
  | openServerSocket env => exact hsilent (s.array.openServerSocket_callbacks env)
  | refused => exact hsilent rfl
  | full fd stale hfd | added fd stale hfd =>
      rw [operation, if_neg hfd]
      exact hcritical _ hcallbacks
  | idle | picked => exact hsilent rfl
  | served addr r ret hserving =>
      rw [operation, hserving]
      refine List.mem_flatMap.mpr ⟨ev, hev, ?_⟩
      obtain ⟨rev, -, rfl⟩ := List.mem_map.mp hev
      cases rev <;> first | exact List.mem_cons_self | cases hcallback
  | finished addr ret hserving =>
      rw [operation, hserving]
      dsimp only
      split_ifs with hret
      · exact List.mem_append_left _ (hcritical _ hcallbacks)
      · exact hsilent (by rw [s.array.finish_callbacks, if_neg fun hfailed ↦ hret hfailed.1])
  | stopped => exact hcritical _ (List.mem_append_left _ hcallbacks)

/-! ## The order of the locks -/

theorem withSocket_ordered {held : List ServerLock}
    (h : ∀ l ∈ held, l = .user ∨ l = .vector) (addr : ℕ) :
    Meets (Ordered ServerLock.rank ServerLock.recursive) held (withSocket addr : Program Msg) := by
  refine (meets_critical releases_nil).mpr ⟨.inr fun l hl ↦ ?_, trivial, trivial⟩
  rcases h l hl with rfl | rfl <;> simp [ServerLock.rank]

theorem sendProgram_ordered {held : List ServerLock} (h : ∀ l ∈ held, l = .user ∨ l = .vector)
    (addrs : List ℕ) :
    Meets (Ordered ServerLock.rank ServerLock.recursive) held (sendProgram addrs : Program Msg) := by
  refine (meets_critical (releases_flatMap withSocket_releases _)).mpr ⟨?_, ?_, trivial⟩
  · by_cases hvector : .vector ∈ held
    · exact .inl ⟨hvector, rfl⟩
    · refine .inr fun l hl ↦ ?_
      rcases h l hl with rfl | rfl
      · decide
      · exact absurd hl hvector
  · refine meets_flatMap withSocket_releases fun addr _ ↦ withSocket_ordered ?_ addr
    exact List.forall_mem_cons.mpr ⟨.inr rfl, h⟩

/-- Code of the user keeps to the order, if it does not take its mutex with
the lock of the vector. -/
theorem UserCode.program_ordered {code : UserCode} {held : List ServerLock}
    (h : held = [] ∨ (held = [.vector] ∧ code.mutex = false)) :
    Meets (Ordered ServerLock.rank ServerLock.recursive) held (code.program : Program Msg) := by
  have hsends : ∀ held' : List ServerLock, (∀ l ∈ held', l = .user ∨ l = .vector) →
      Meets (Ordered ServerLock.rank ServerLock.recursive) held'
        (code.sends.flatMap sendProgram : Program Msg) :=
    fun held' hheld ↦ meets_flatMap sendProgram_releases fun addrs _ ↦ sendProgram_ordered hheld addrs
  unfold UserCode.program
  rcases h with rfl | ⟨rfl, hmutex⟩
  · split_ifs
    · refine (meets_critical (releases_flatMap sendProgram_releases _)).mpr
        ⟨.inr (List.forall_mem_nil _), hsends _ ?_, trivial⟩
      exact List.forall_mem_singleton.mpr (.inl rfl)
    · exact hsends [] (List.forall_mem_nil _)
  · rw [hmutex]
    exact hsends _ (List.forall_mem_singleton.mpr (.inr rfl))

theorem allows_ordered
    (h : ∀ ev ∈ es, ev.isClientCallback = true → (user ev).mutex = false) :
    Allows (Ordered ServerLock.rank ServerLock.recursive) user es := by
  refine ⟨⟨.inr (List.forall_mem_nil _), trivial⟩, fun addr ↦ ⟨?_, ?_⟩, fun ev _ _ ↦ ?_,
    fun ev hev hclient ↦ ?_⟩
  · exact withSocket_ordered (List.forall_mem_nil _) addr
  · exact withSocket_ordered (List.forall_mem_singleton.mpr (.inr rfl)) addr
  · exact ⟨trivial, UserCode.program_ordered (.inl rfl)⟩
  · exact ⟨trivial, UserCode.program_ordered (.inr ⟨rfl, h ev hev hclient⟩)⟩

/-! ## The locks around calls -/

theorem UserCode.noCalls (code : UserCode) (ev : ArrayEvent Msg) : .call ev ∉ code.program := by
  unfold UserCode.program
  split_ifs <;> simp [sendProgram, withSocket, LockOrder.critical]

theorem invoke_calls {Q : ArrayEvent Msg → List ServerLock → Prop} {ev : ArrayEvent Msg}
    {held : List ServerLock} (h : Q ev held) : Meets (CallsWith Q) held (invoke user ev) :=
  ⟨h, meets_of_noCalls (user ev).noCalls⟩

theorem allows_calls {Q : ArrayEvent Msg → List ServerLock → Prop}
    (hmessage : ∀ ev ∈ es, ev.isClientCallback = false → Q ev [])
    (hclient : ∀ ev ∈ es, ev.isClientCallback = true → Q ev [.vector]) :
    Allows (CallsWith Q) user es := by
  have hsocket : ∀ held addr, Meets (CallsWith Q) held (withSocket addr) := by
    intro held addr
    exact meets_of_noCalls (by simp [withSocket, LockOrder.critical])
  exact ⟨⟨trivial, trivial⟩, fun addr ↦ ⟨hsocket _ addr, hsocket _ addr⟩,
    fun ev hev hev' ↦ invoke_calls (hmessage ev hev hev'),
    fun ev hev hev' ↦ invoke_calls (hclient ev hev hev')⟩

/-- `AddClient` and `DelClient` are called with the lock of the vector, and
callbacks of messages without a lock. -/
def HeldFor (ev : ArrayEvent Msg) (held : List ServerLock) : Prop :=
  held = if ev.isClientCallback then [.vector] else []

/-- An operation calls all user code without a lock exactly if it is quiet. -/
theorem operation_lockFree_iff {e : Endpoint Msg} {s s' : ArrayState} {l : ArrayLabel}
    (h : arrayStep e s l = some (s', es)) :
    Meets (CallsWith fun _ held ↦ held = []) [] (operation user s es l) ↔ Quiet s l := by
  have hes := stepCallbacks h
  constructor
  · intro hfree
    refine hes.quiet.mpr fun ev hev ↦ ?_
    by_contra hclient
    rw [Bool.not_eq_false] at hclient
    have hheld : Meets (CallsWith HeldFor) [] (operation user s es l) :=
      Allows.operation (allows_calls (fun ev _ hev' ↦ by simp [HeldFor, hev'])
        fun ev _ hev' ↦ by simp [HeldFor, hev']) hes
    have hcallback : ev.isCallback = true := by
      cases ev <;> first | rfl | cases hclient
    obtain ⟨held, hnone, hvector⟩ := (hfree.and hheld).of_mem (call_mem_operation h hev hcallback)
    change held = [] at hnone
    change held = if ev.isClientCallback then [.vector] else [] at hvector
    rw [hnone, hclient] at hvector
    cases hvector
  · intro hquiet
    refine Allows.operation (P := CallsWith fun _ held ↦ held = [])
      (allows_calls (fun _ _ _ ↦ rfl) fun ev hev hclient ↦ ?_) hes
    rw [hes.quiet.mp hquiet ev hev] at hclient
    cases hclient

end Operations

/-! ## The machine -/

/-- The array, the service thread `none`, and the threads that send. -/
structure CrossState (κ Msg : Type*) where
  array : ArrayState
  locks : State (Option κ) ServerLock (ArrayEvent Msg)

inductive CrossLabel (κ : Type*) where
  /-- The service thread starts an operation of the array. -/
  | operate (l : ArrayLabel)
  | getVectorReadFds
  | send (k : κ) (code : UserCode)
  | step (i : Option κ)

section Machine

variable {κ : Type*} [DecidableEq κ]

abbrev UserCall (κ Msg : Type*) := Call (Option κ) ServerLock (ArrayEvent Msg)

def CrossState.onLocks (s : CrossState κ Msg) (l : Label (Option κ) ServerLock (ArrayEvent Msg)) :
    Option (CrossState κ Msg × List (UserCall κ Msg)) :=
  (LockOrder.step ServerLock.recursive s.locks l).map fun next ↦
    ({ s with locks := next.1 }, next.2)

def crossStep (user : ArrayEvent Msg → UserCode) (e : Endpoint Msg) (s : CrossState κ Msg) :
    CrossLabel κ → Option (CrossState κ Msg × List (UserCall κ Msg))
  | .operate l =>
      (arrayStep e s.array l).bind fun next ↦
        { s with array := next.1 }.onLocks (.start none (operation user s.array next.2 l))
  | .getVectorReadFds => s.onLocks (.start none s.array.array.getVectorReadFdsProgram)
  | .send k code => s.onLocks (.start (some k) code.program)
  | .step i => s.onLocks (.step i)

def crossMachine (user : ArrayEvent Msg → UserCode) (e : Endpoint Msg) (s : ArrayState) :
    Machine (CrossState κ Msg) (CrossLabel κ) (UserCall κ Msg) :=
  ⟨⟨s, (machine ServerLock.recursive).init⟩, crossStep user e⟩

/-! ## Runs -/

variable {user : ArrayEvent Msg → UserCode} {e : Endpoint Msg} {s₀ : ArrayState}
  {ok : CrossState κ Msg → List (UserCall κ Msg) → CrossLabel κ → Prop}
  {s : CrossState κ Msg} {log : List (UserCall κ Msg)}

/-- The threads run programs that meet `P`, if the operations that are started
allow it. -/
theorem locks_reaches {P : List ServerLock → Act ServerLock (ArrayEvent Msg) → Prop}
    (hidle : Allows P user []) (hsend : ∀ code : UserCode, Meets P [] code.program)
    (hoperate : ∀ {s : CrossState κ Msg} {log : List (UserCall κ Msg)} {l : ArrayLabel}
      {s' : ArrayState} {es : List (ArrayEvent Msg)}, ok s log (.operate l) →
        arrayStep e s.array l = some (s', es) → Allows P user es)
    (h : (crossMachine user e s₀).Reaches ok s log) :
    (machine ServerLock.recursive).Reaches (fun _ _ l ↦ Starts P l) s.locks log := by
  refine h.simulate (f := CrossState.locks) rfl fun {s s' log es l} _ hl hstep ↦ .inr ?_
  have hlocks : ∀ (t : CrossState κ Msg) (l' : Label (Option κ) ServerLock (ArrayEvent Msg)),
      t.onLocks l' = some (s', es) → Starts P l' →
        ∃ l', Starts P l' ∧ LockOrder.step ServerLock.recursive t.locks l' =
          some (s'.locks, es) := by
    intro t l' hnext hstarts
    obtain ⟨next, hlocks, heq⟩ := Option.map_eq_some_iff.mp hnext
    cases heq
    exact ⟨l', hstarts, hlocks⟩
  cases l with
  | operate l =>
      obtain ⟨next, harray, hnext⟩ := Option.bind_eq_some_iff.mp hstep
      refine hlocks { s with array := next.1 } _ hnext ⟨?_, operation_releases _ _ _⟩
      exact (hoperate hl harray).operation (stepCallbacks harray)
  | getVectorReadFds =>
      have hreleases := releases_flatMap (@withSocket_releases Msg) s.array.array.vector
      exact hlocks s _ hstep ⟨hidle.critical hreleases (hidle.sockets _), hreleases.critical _⟩
  | send k code => exact hlocks s _ hstep ⟨hsend code, code.program_releases⟩
  | step i => exact hlocks s (.step i) hstep trivial

theorem calls_heldFor (h : (crossMachine user e s₀).Reaches ok s log) :
    ∀ x ∈ log, HeldFor x.code x.held := by
  have hallows : ∀ es : List (ArrayEvent Msg), Allows (CallsWith HeldFor) user es :=
    fun es ↦ allows_calls (fun ev _ hev ↦ by simp [HeldFor, hev]) fun ev _ hev ↦ by
      simp [HeldFor, hev]
  have hlocks := locks_reaches (hallows []) (fun code ↦ meets_of_noCalls code.noCalls)
    (fun _ _ ↦ hallows _) h
  exact calls (fun _ _ _ hl ↦ hl) hlocks

theorem no_cycle_of_mutex
    (hok : ∀ {s : CrossState κ Msg} {log : List (UserCall κ Msg)} {l : ArrayLabel}
      {s' : ArrayState} {es : List (ArrayEvent Msg)}, ok s log (.operate l) →
        arrayStep e s.array l = some (s', es) →
          ∀ ev ∈ es, ev.isClientCallback = true → (user ev).mutex = false)
    (h : (crossMachine user e s₀).Reaches ok s log) (i : Option κ) :
    ¬ Relation.TransGen (WaitsFor ServerLock.recursive s.locks) i i := by
  have hlocks := locks_reaches (allows_ordered (List.forall_mem_nil _))
    (fun code ↦ UserCode.program_ordered (.inl rfl)) (fun hl harray ↦ allows_ordered (hok hl harray))
    h
  exact (sound (fun _ _ _ hl ↦ hl) hlocks).no_cycle i

/-- A condition on the operations that are started. -/
def OnOperations (Q : ArrayState → ArrayLabel → Prop) (s : CrossState κ Msg) :
    CrossLabel κ → Prop
  | .operate l => Q s.array l
  | _ => True

/-- No user code has been called with a lock of the library. -/
def CallsLockFree (log : List (UserCall κ Msg)) : Prop :=
  ∀ x ∈ log, .vector ∉ x.held ∧ ∀ addr, .socket addr ∉ x.held

/-- No threads wait for each other. -/
def NoDeadlock (s : CrossState κ Msg) : Prop :=
  ∀ i, ¬ Relation.TransGen (WaitsFor ServerLock.recursive s.locks) i i

theorem calls_lockFree
    (h : (crossMachine user e s₀).Reaches (fun s _ l ↦ OnOperations Quiet s l) s log) :
    CallsLockFree log := by
  have hallows : ∀ es : List (ArrayEvent Msg), (∀ ev ∈ es, ev.isClientCallback = false) →
      Allows (CallsWith fun _ held ↦ held = []) user es := by
    refine fun es hes ↦ allows_calls (fun _ _ _ ↦ rfl) fun ev hev hclient ↦ ?_
    rw [hes ev hev] at hclient
    cases hclient
  have hlocks := locks_reaches (hallows [] (List.forall_mem_nil _))
    (fun code ↦ meets_of_noCalls code.noCalls)
    (fun hquiet harray ↦ hallows _ ((stepCallbacks harray).quiet.mp hquiet)) h
  intro x hx
  have hheld : x.held = [] := calls (fun _ _ _ hl ↦ hl) hlocks x hx
  simp [hheld]

/-- User code runs without a lock of the library, and without deadlocks with
threads that send, as long as no operation calls `AddClient` or `DelClient`:
these two run with the lock of the vector, and there is no deadlock if they do
not take the mutex of the user. -/
theorem userCode_lockFree (user : ArrayEvent Msg → UserCode) (e : Endpoint Msg)
    (s₀ : ArrayState) :
    (∀ (s : CrossState κ Msg) log,
      (crossMachine user e s₀).Reaches (fun s _ l ↦ OnOperations Quiet s l) s log →
        CallsLockFree log ∧ NoDeadlock s) ∧
      (∀ (s : CrossState κ Msg) log,
        (crossMachine user e s₀).Reaches (fun _ _ _ ↦ True) s log →
          (∀ x ∈ log, HeldFor x.code x.held) ∧
          ((∀ ev, ev.isClientCallback = true → (user ev).mutex = false) → NoDeadlock s)) ∧
      ∀ s l s' es, arrayStep e s l = some (s', es) →
        (Meets (CallsWith fun _ held ↦ held = []) [] (operation user s es l) ↔ Quiet s l) := by
  refine ⟨fun s log h ↦ ⟨calls_lockFree h, no_cycle_of_mutex ?_ h⟩,
    fun s log h ↦ ⟨calls_heldFor h, fun hmutex ↦ no_cycle_of_mutex ?_ h⟩, ?_⟩
  · intro s log l s' es hquiet harray ev hev hclient
    rw [(stepCallbacks harray).quiet.mp hquiet ev hev] at hclient
    cases hclient
  · exact fun _ _ ev _ hclient ↦ hmutex ev hclient
  · exact fun s l s' es harray ↦ operation_lockFree_iff harray

end Machine

/-- The service thread looks for a channel to serve, while a sender holds the
mutex and waits for the lock of the vector. -/
def pickingRun : List (CrossLabel Unit) :=
  [.operate (.pick fun _ ↦ true), .step none, .send () ⟨true, [[0]]⟩, .step (some ())]

theorem userCode_lockFree_picking : ∃ (s : CrossState Unit TestProtocol.Message) (log : _),
    (crossMachine (fun _ ↦ ⟨true, []⟩) TestProtocol.endpoint
      ⟨(GepChannelArray.new 1 7 unallocated).withChannel 4 (List.Vector.replicate kMaxMsgLen 0),
        none⟩).Reaches (fun s _ l ↦ OnOperations Quiet s l) s log ∧
      WaitsFor ServerLock.recursive s.locks (some ()) none ∧ CallsLockFree log ∧ NoDeadlock s := by
  generalize hs₀ : (⟨(GepChannelArray.new 1 7 unallocated).withChannel 4
    (List.Vector.replicate kMaxMsgLen 0), none⟩ : ArrayState) = s₀
  obtain ⟨s, log, hrun, hwaits⟩ : ∃ (s : CrossState Unit TestProtocol.Message) (log : _),
      (crossMachine (fun _ ↦ ⟨true, []⟩) TestProtocol.endpoint s₀).runFrom
          ⟨s₀, (machine ServerLock.recursive).init⟩ pickingRun = some (s, log) ∧
        WaitsFor ServerLock.recursive s.locks (some ()) none := by
    subst hs₀
    exact ⟨_, _, rfl, ⟨.vector, _, rfl, rfl, by simp⟩⟩
  have hreaches : (crossMachine (fun _ ↦ ⟨true, []⟩) TestProtocol.endpoint s₀).Reaches
      (fun s _ l ↦ OnOperations Quiet s l) s log := by
    refine .run .init ?_ hrun
    exact ⟨trivial, fun _ _ _ ↦ ⟨trivial, fun _ _ _ ↦ ⟨trivial, fun _ _ _ ↦ ⟨trivial,
      fun _ _ _ ↦ trivial⟩⟩⟩⟩
  obtain ⟨hfree, hdeadlock⟩ := (userCode_lockFree (fun _ ↦ ⟨true, []⟩) TestProtocol.endpoint
    s₀).1 s log hreaches
  exact ⟨s, log, hreaches, hwaits, hfree, hdeadlock⟩

/-- `AddClient` takes the mutex that a sender holds, which waits for the lock
of the vector. -/
def crossedRun : List (CrossLabel Unit) :=
  [.operate (.openServerSocket ⟨3, false, false, false, none⟩),
    .operate (.acceptConnection 4 (List.Vector.replicate kMaxMsgLen 0)), .step none, .step none,
    .send () ⟨true, [[0]]⟩, .step (some ())]

theorem userCode_crossed : ∃ (s : CrossState Unit TestProtocol.Message) (log : _),
    (crossMachine (fun _ ↦ ⟨true, []⟩) TestProtocol.endpoint ⟨.new 1 7 unallocated, none⟩).Reaches
        (fun _ _ _ ↦ True) s log ∧
      ¬ CallsLockFree log ∧ WaitsFor ServerLock.recursive s.locks none (some ()) ∧
      WaitsFor ServerLock.recursive s.locks (some ()) none := by
  obtain ⟨s, log, hrun, hlog, hservice, hsender⟩ :
      ∃ (s : CrossState Unit TestProtocol.Message) (log : _),
        (crossMachine (fun _ ↦ ⟨true, []⟩) TestProtocol.endpoint
          ⟨.new 1 7 unallocated, none⟩).runFrom
            ⟨⟨.new 1 7 unallocated, none⟩, (machine ServerLock.recursive).init⟩ crossedRun =
          some (s, log) ∧
        log = [⟨none, .addClient 0, [.vector]⟩] ∧
        WaitsFor ServerLock.recursive s.locks none (some ()) ∧
        WaitsFor ServerLock.recursive s.locks (some ()) none :=
    ⟨_, _, rfl, rfl, ⟨.user, _, rfl, rfl, by simp⟩, ⟨.vector, _, rfl, rfl, by simp⟩⟩
  refine ⟨s, log, .run .init (.of_forall (fun _ _ _ ↦ trivial) _ _ _) hrun, ?_, hservice, hsender⟩
  intro hfree
  rw [hlog] at hfree
  exact (hfree _ List.mem_cons_self).1 List.mem_cons_self

end Libgep
