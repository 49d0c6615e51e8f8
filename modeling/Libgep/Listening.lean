import Libgep.Lifecycle

/-!
# Starting and stopping

The listening socket of a server and its port, over any sequence of starts
that fail or succeed and of stops, with anything in between.
-/

namespace Libgep

open CInt Transition

variable {Msg : Type*}

/-! ## Listening descriptors in the log -/

/-- The listening descriptors that are open after `events`, if `fds` were
before; `none` as soon as one is closed that is not open. -/
def openListening (fds : List ℤ) : List (ArrayEvent Msg) → Option (List ℤ)
  | [] => some fds
  | .socket fd :: events => openListening (fd :: fds) events
  | .closeServer fd :: events =>
      if fd ∈ fds then openListening (fds.erase fd) events else none
  | _ :: events => openListening fds events

/-- The ports bound in `events`. -/
def boundPorts (events : List (ArrayEvent Msg)) : List ℕ :=
  events.filterMap fun
    | .bind _ port => some port
    | _ => none

/-- The event is about no listening descriptor. -/
def ArrayEvent.NotListening : ArrayEvent Msg → Prop
  | .socket _ | .bind _ _ | .closeServer _ => False
  | _ => True

section Events

variable {xs ys : List (ArrayEvent Msg)} {fds : List ℤ}

theorem openListening_append (fds : List ℤ) (xs ys : List (ArrayEvent Msg)) :
    openListening fds (xs ++ ys) = (openListening fds xs).bind (openListening · ys) := by
  induction xs generalizing fds with
  | nil => rfl
  | cons ev xs ih =>
      cases ev with
      | socket fd => exact ih _
      | closeServer fd =>
          simp only [List.cons_append, openListening]
          split_ifs
          · exact ih _
          · rfl
      | bind | accept | addClient | delClient | channel | close => exact ih _

theorem boundPorts_append (xs ys : List (ArrayEvent Msg)) :
    boundPorts (xs ++ ys) = boundPorts xs ++ boundPorts ys :=
  List.filterMap_append

theorem openListening_of_notListening (h : ∀ ev ∈ xs, ev.NotListening) (fds : List ℤ) :
    openListening fds xs = some fds := by
  induction xs with
  | nil => rfl
  | cons ev xs ih =>
      obtain ⟨hev, hxs⟩ := List.forall_mem_cons.mp h
      cases ev with
      | socket | bind | closeServer => exact absurd hev id
      | accept | addClient | delClient | channel | close => exact ih hxs

theorem boundPorts_of_notListening (h : ∀ ev ∈ xs, ev.NotListening) : boundPorts xs = [] := by
  refine List.filterMap_eq_nil_iff.mpr fun ev hev ↦ ?_
  have hquiet := h ev hev
  cases ev with
  | bind => exact absurd hquiet id
  | socket | closeServer | accept | addClient | delClient | channel | close => rfl

end Events

namespace GepChannelArray

variable (a : GepChannelArray)

/-- A start that fails leaves everything as it was; one that succeeds has
opened the service socket and knows its port. -/
inductive StartSpec (env : ListenEnv) (call : ArrayCall ℤ Msg) : Prop where
  | failed (ret : call.ret = -1) (array : call.array = a)
      (fds : openListening [] call.events = some [])
      (ports : ∀ port ∈ boundPorts call.events, port = toUnsigned 16 a.port)
  | started (socket : env.socket ≠ -1) (ret : call.ret = 0)
      (serverSocket : call.array.serverSocket = env.socket)
      (port : if a.port = 0 then env.sockName.map (fun port ↦ (port.toNat : ℤ)) = some call.array.port
        else call.array.port = a.port)
      (fds : openListening [] call.events = some [env.socket])
      (ports : boundPorts call.events = [toUnsigned 16 a.port])

theorem openServerSocket_spec (env : ListenEnv) :
    a.StartSpec env (@a.openServerSocket Msg env) := by
  have hclosed : ∀ events : List (ArrayEvent Msg),
      events = [.socket env.socket, .closeServer env.socket] ∨
        events = [.socket env.socket, .bind env.socket (toUnsigned 16 a.port),
          .closeServer env.socket] →
        openListening [] events = some [] ∧
          ∀ port ∈ boundPorts events, port = toUnsigned 16 a.port := by
    rintro events (rfl | rfl) <;> simp [openListening, boundPorts]
  unfold openServerSocket
  dsimp only
  split_ifs with hsocket hreuse hbind hlisten hport
  · exact .failed rfl rfl rfl (by simp [boundPorts])
  · obtain ⟨hfds, hports⟩ := hclosed _ (.inl rfl)
    exact .failed rfl rfl hfds hports
  · obtain ⟨hfds, hports⟩ := hclosed _ (.inr rfl)
    exact .failed rfl rfl hfds hports
  · obtain ⟨hfds, hports⟩ := hclosed _ (.inr rfl)
    exact .failed rfl rfl hfds hports
  · cases hname : env.sockName with
    | none =>
        obtain ⟨hfds, hports⟩ := hclosed _ (.inr rfl)
        exact .failed rfl rfl hfds hports
    | some port => exact .started hsocket rfl rfl (by rw [if_pos hport, hname]; rfl) rfl rfl
  · exact .started hsocket rfl rfl (by rw [if_neg hport]) rfl rfl

theorem notListening_closes {es : List (ArrayEvent Msg)} (h : ∀ ev ∈ es, ∃ fd, ev = .close fd) :
    ∀ ev ∈ es, ev.NotListening := by
  intro ev hev
  obtain ⟨fd, rfl⟩ := h ev hev
  trivial

theorem finish_notListening (addr : ℕ) (ret : ℤ) :
    ∀ ev ∈ (@a.finish Msg addr ret).events, ev.NotListening := by
  refine List.forall_mem_append.mpr ⟨?_, notListening_closes (release_events _ _ _)⟩
  unfold remove
  split_ifs <;> simp [ArrayEvent.NotListening]

theorem release_serverSocket (retained : List ℕ) (addr : ℕ) :
    (@a.release Msg retained addr).array.serverSocket = a.serverSocket ∧
      (@a.release Msg retained addr).array.port = a.port := by
  unfold release
  split_ifs <;> exact ⟨rfl, rfl⟩

theorem releaseAll_serverSocket (retained addrs : List ℕ) :
    (@releaseAll Msg retained a addrs).array.serverSocket = a.serverSocket ∧
      (@releaseAll Msg retained a addrs).array.port = a.port := by
  induction addrs generalizing a with
  | nil => exact ⟨rfl, rfl⟩
  | cons addr addrs ih =>
      obtain ⟨hsocket, hport⟩ := @release_serverSocket Msg a retained addr
      obtain ⟨hsocket', hport'⟩ := ih (@a.release Msg retained addr).array
      exact ⟨hsocket'.trans hsocket, hport'.trans hport⟩

theorem finish_serverSocket (addr : ℕ) (ret : ℤ) :
    (@a.finish Msg addr ret).array.serverSocket = a.serverSocket ∧
      (@a.finish Msg addr ret).array.port = a.port := by
  have hremove : (@a.remove Msg addr ret).array.serverSocket = a.serverSocket ∧
      (@a.remove Msg addr ret).array.port = a.port := by
    unfold remove
    split_ifs <;> exact ⟨rfl, rfl⟩
  obtain ⟨hsocket, hport⟩ := @release_serverSocket Msg (@a.remove Msg addr ret).array [] addr
  exact ⟨hsocket.trans hremove.1, hport.trans hremove.2⟩

theorem stop_listening (retained : List ℕ) :
    (@a.stop Msg retained).array.port = a.port ∧
      ∃ rest : List (ArrayEvent Msg), (∀ ev ∈ rest, ev.NotListening) ∧
        ((0 ≤ a.serverSocket ∧ (@a.stop Msg retained).array.serverSocket = -1 ∧
            (a.stop retained).events = .closeServer a.serverSocket :: rest) ∨
          (a.serverSocket < 0 ∧ (@a.stop Msg retained).array.serverSocket = a.serverSocket ∧
            (a.stop retained).events = rest)) := by
  obtain ⟨hsocket, hport⟩ := @releaseAll_serverSocket Msg
    { (@a.closeServerSocket Msg).array with vector := [] } retained a.vector
  have hquiet : ∀ ev ∈ a.ids.map .delClient ++ (@releaseAll Msg retained
      { (@a.closeServerSocket Msg).array with vector := [] } a.vector).events,
      ev.NotListening := by
    refine List.forall_mem_append.mpr ⟨?_, notListening_closes (releaseAll_events _ _ _)⟩
    exact List.forall_mem_map.mpr fun _ _ ↦ trivial
  unfold stop
  dsimp only
  rw [hsocket, hport]
  unfold closeServerSocket at hquiet ⊢
  split_ifs at hquiet ⊢ with hopen
  · exact ⟨rfl, _, hquiet, .inl ⟨hopen, rfl, List.append_assoc ..⟩⟩
  · exact ⟨rfl, _, hquiet, .inr ⟨by omega, rfl, List.append_assoc ..⟩⟩

end GepChannelArray

/-! ## Runs -/

/-- What a step does to the service socket and the port. -/
inductive ListenStep (a : GepChannelArray) (l : ArrayLabel) (a' : GepChannelArray)
    (es : List (ArrayEvent Msg)) : Prop where
  | other (serverSocket : a'.serverSocket = a.serverSocket) (port : a'.port = a.port)
      (quiet : ∀ ev ∈ es, ev.NotListening)
  | start (env : ListenEnv) (label : l = .openServerSocket env) (ret : ℤ)
      (spec : a.StartSpec env ⟨ret, a', es⟩)
  | stop (rest : List (ArrayEvent Msg)) (isOpen : 0 ≤ a.serverSocket)
      (serverSocket : a'.serverSocket = -1) (port : a'.port = a.port)
      (events : es = .closeServer a.serverSocket :: rest) (quiet : ∀ ev ∈ rest, ev.NotListening)

section Runs

variable {e : Endpoint Msg} {s s' : ArrayState} {l : ArrayLabel} {log es : List (ArrayEvent Msg)}

theorem arrayStep_listening (h : arrayStep e s l = some (s', es)) :
    ListenStep s.array l s'.array es := by
  cases arrayStep_spec h with
  | openServerSocket env =>
      exact .start env rfl _ (@GepChannelArray.openServerSocket_spec Msg s.array env)
  | refused | full => exact .other rfl rfl (by simp [ArrayEvent.NotListening])
  | idle | picked => exact .other rfl rfl (List.forall_mem_nil _)
  | added => exact .other rfl rfl (by simp [ArrayEvent.NotListening])
  | served => exact .other rfl rfl (List.forall_mem_map.mpr fun _ _ ↦ trivial)
  | finished addr ret =>
      obtain ⟨hsocket, hport⟩ := @GepChannelArray.finish_serverSocket Msg s.array addr ret
      exact .other hsocket hport (s.array.finish_notListening addr ret)
  | stopped =>
      obtain ⟨hport, rest, hquiet, h⟩ := @GepChannelArray.stop_listening Msg s.array s.retained
      rcases h with ⟨hopen, hsocket, hes⟩ | ⟨-, hsocket, hes⟩
      · exact .stop rest hopen hsocket hport hes hquiet
      · exact .other hsocket hport (by rwa [hes])

/-- A start is made while the service socket is closed, and the kernel
answers with a descriptor or with `-1`. -/
def StartsWhenStopped (s : ArrayState) (_ : List (ArrayEvent Msg)) (l : ArrayLabel) : Prop :=
  ∀ env, l = .openServerSocket env →
    s.array.serverSocket = -1 ∧ (env.socket = -1 ∨ 0 ≤ env.socket)

/-- The listening descriptor that an array has. -/
def GepChannelArray.listening (a : GepChannelArray) : List ℤ :=
  if 0 ≤ a.serverSocket then [a.serverSocket] else []

/-- Every listening descriptor that was opened has been closed once, except
for the service socket. -/
def ListeningOk (s : ArrayState) (log : List (ArrayEvent Msg)) : Prop :=
  (s.array.serverSocket = -1 ∨ 0 ≤ s.array.serverSocket) ∧
    openListening [] log = some s.array.listening

theorem ListeningOk.step (h : ListeningOk s log) (hl : StartsWhenStopped s log l)
    (hstep : arrayStep e s l = some (s', es)) : ListeningOk s' (log ++ es) := by
  obtain ⟨hvalid, hlog⟩ := h
  unfold ListeningOk
  rw [openListening_append, hlog, Option.bind_some]
  cases arrayStep_listening hstep with
  | other serverSocket port quiet =>
      rw [openListening_of_notListening quiet, GepChannelArray.listening,
        GepChannelArray.listening, serverSocket]
      exact ⟨hvalid, rfl⟩
  | start env label ret spec =>
      obtain ⟨hstopped, henv⟩ := hl env label
      have hnone : s.array.listening = [] := by
        rw [GepChannelArray.listening, if_neg (by omega)]
      rw [hnone]
      cases spec with
      | failed ret array fds =>
          rw [show s'.array = s.array from array, hnone]
          exact ⟨hvalid, fds⟩
      | started socket ret serverSocket port fds =>
          have hfd : s'.array.serverSocket = env.socket := serverSocket
          rw [GepChannelArray.listening, hfd, if_pos (by omega)]
          exact ⟨.inr (by omega), fds⟩
  | stop rest isOpen serverSocket port events quiet =>
      rw [events, GepChannelArray.listening, GepChannelArray.listening, if_pos isOpen, serverSocket]
      simp [openListening, openListening_of_notListening quiet]

/-- A port that is not zero is kept, and every start binds it. -/
theorem port_kept (hport : s.array.port ≠ 0) {a₀ : GepChannelArray} {ls : List ArrayLabel}
    (h : (arrayMachine e a₀).runFrom s ls = some (s', es)) :
    s'.array.port = s.array.port ∧ ∀ port ∈ boundPorts es, port = toUnsigned 16 s.array.port := by
  induction ls generalizing s es with
  | nil =>
      cases h
      exact ⟨rfl, List.forall_mem_nil _⟩
  | cons l ls ih =>
      obtain ⟨s₁, es₁, es₂, hstep, hrun, rfl⟩ := Machine.runFrom_cons h
      have hfirst : s₁.array.port = s.array.port ∧
          ∀ port ∈ boundPorts es₁, port = toUnsigned 16 s.array.port := by
        cases arrayStep_listening hstep with
        | other serverSocket port quiet =>
            rw [boundPorts_of_notListening quiet]
            exact ⟨port, List.forall_mem_nil _⟩
        | start env label ret spec =>
            cases spec with
            | failed ret array fds ports =>
                exact ⟨congrArg GepChannelArray.port array, ports⟩
            | started socket ret serverSocket port fds ports =>
                rw [if_neg hport] at port
                have hbound : boundPorts es₁ = [toUnsigned 16 s.array.port] := ports
                exact ⟨port, by simp [hbound]⟩
        | stop rest isOpen serverSocket port events quiet =>
            have hbound : boundPorts rest = [] := boundPorts_of_notListening quiet
            rw [events, show boundPorts (.closeServer s.array.serverSocket :: rest) = [] from hbound]
            exact ⟨port, List.forall_mem_nil _⟩
      obtain ⟨hkept, hbound⟩ := ih (by rwa [hfirst.1]) hrun
      rw [hfirst.1] at hkept hbound
      rw [boundPorts_append]
      exact ⟨hkept, List.forall_mem_append.mpr ⟨hfirst.2, hbound⟩⟩

/-- A port that is a port number stays one. -/
theorem port_fits {a : GepChannelArray} (hpos : 0 ≤ a.port) (hlt : a.port < 2 ^ 16)
    {ok : ArrayState → List (ArrayEvent Msg) → ArrayLabel → Prop}
    (h : (arrayMachine e a).Reaches ok s log) : 0 ≤ s.array.port ∧ s.array.port < 2 ^ 16 := by
  refine h.invariant (P := fun s _ ↦ 0 ≤ s.array.port ∧ s.array.port < 2 ^ 16) ⟨hpos, hlt⟩ ?_
  intro s s' log es l _ hs _ hstep
  cases arrayStep_listening hstep with
  | other _ port | stop _ _ _ port =>
      rw [port]
      exact hs
  | start env label ret spec =>
      cases spec with
      | failed ret array =>
          rw [show s'.array = s.array from array]
          exact hs
      | started socket ret serverSocket port =>
          split_ifs at port with hzero
          · obtain ⟨assigned, -, heq⟩ := Option.map_eq_some_iff.mp port
            rw [← show _ = s'.array.port from heq]
            have hfits := assigned.toNat_lt
            omega
          · rw [show s'.array.port = s.array.port from port]
            exact hs

end Runs

/-- The listening socket and the port survive failed starts and restarts. -/
theorem listening_survives (e : Endpoint Msg) (maxChannels port : ℤ) (heap : ℕ → GepChannel)
    {s : ArrayState} {log : List (ArrayEvent Msg)}
    (h : (arrayMachine e (.new maxChannels port heap)).Reaches StartsWhenStopped s log) :
    (s.array.serverSocket = -1 ∨ 0 ≤ s.array.serverSocket) ∧
      openListening [] log =
        some (if 0 ≤ s.array.serverSocket then [s.array.serverSocket] else []) ∧
      (∀ env, s.array.StartSpec env (@s.array.openServerSocket Msg env)) ∧
      (s.array.port ≠ 0 → ∀ ls s' es,
        (arrayMachine e (.new maxChannels port heap)).runFrom s ls = some (s', es) →
          s'.array.port = s.array.port ∧
            ∀ port ∈ boundPorts es, port = toUnsigned 16 s.array.port) ∧
      (0 ≤ port → port < 2 ^ 16 → (toUnsigned 16 s.array.port : ℤ) = s.array.port) := by
  have hok : ListeningOk s log := by
    refine h.invariant (P := ListeningOk) ⟨.inl rfl, rfl⟩ ?_
    exact fun _ hs hl hstep ↦ hs.step hl hstep
  refine ⟨hok.1, hok.2, fun env ↦ s.array.openServerSocket_spec env, fun hport ls s' es hrun ↦ ?_,
    fun hpos hlt ↦ ?_⟩
  · exact port_kept hport hrun
  · obtain ⟨hpos', hlt'⟩ := port_fits hpos hlt h
    rw [toUnsigned_of_lt hpos' hlt', Int.toNat_of_nonneg hpos']

/-- A start that fails to bind, one that is assigned the port 5000, and,
after a stop, one that binds it again. -/
def restartRun : List ArrayLabel :=
  [.openServerSocket ⟨3, false, true, false, none⟩,
    .openServerSocket ⟨3, false, false, false, some 5000⟩, .stop,
    .openServerSocket ⟨3, false, false, false, none⟩]

theorem listening_survives_restart :
    ∃ (s : ArrayState) (log : List (ArrayEvent TestProtocol.Message)),
      boundPorts log = [0, 0, 5000] ∧ s.array.serverSocket = 3 ∧
      openListening [] log =
        some (if 0 ≤ s.array.serverSocket then [s.array.serverSocket] else []) := by
  obtain ⟨s, log, hrun, hports, hsocket⟩ : ∃ s log,
      (arrayMachine TestProtocol.endpoint (.new 2 0 unallocated)).runFrom
        ⟨.new 2 0 unallocated, none⟩ restartRun = some (s, log) ∧
      boundPorts log = [0, 0, 5000] ∧ s.array.serverSocket = 3 := ⟨_, _, rfl, by decide, rfl⟩
  have hstopped : (arrayMachine TestProtocol.endpoint (.new 2 0 unallocated)).Along
      StartsWhenStopped ⟨.new 2 0 unallocated, none⟩ [] restartRun := by
    refine ⟨?_, fun s₁ es₁ h₁ ↦ ⟨?_, fun s₂ es₂ h₂ ↦ ⟨?_, fun s₃ es₃ h₃ ↦ ⟨?_, ?_⟩⟩⟩⟩
    · rintro env ⟨⟩
      decide
    · cases h₁
      rintro env ⟨⟩
      decide
    · rintro env ⟨⟩
    · cases h₁
      cases h₂
      cases h₃
      rintro env ⟨⟩
      decide
    · exact fun _ _ _ ↦ trivial
  have hreach := Machine.Reaches.run .init hstopped hrun
  exact ⟨s, log, hports, hsocket,
    (listening_survives TestProtocol.endpoint 2 0 unallocated hreach).2.1⟩

end Libgep
