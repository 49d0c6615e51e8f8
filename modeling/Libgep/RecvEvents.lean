import Libgep.Recv

/-!
# What receiving does to a descriptor

`RecvData` reads from its own socket at most once, never changes its id, and
gives the socket up only by closing it.  This holds of any callbacks.
-/

namespace Libgep

open CInt

variable {Msg ρ : Type*}

def RecvEvent.closed : RecvEvent Msg → Option ℤ
  | .close fd => some fd
  | _ => none

def closedFds (events : List (RecvEvent Msg)) : List ℤ := events.filterMap RecvEvent.closed

@[simp] theorem closedFds_cons (ev : RecvEvent Msg) (events : List (RecvEvent Msg)) :
    closedFds (ev :: events) = ev.closed.toList ++ closedFds events := by
  cases ev <;> rfl

@[simp] theorem closedFds_append (xs ys : List (RecvEvent Msg)) :
    closedFds (xs ++ ys) = closedFds xs ++ closedFds ys :=
  List.filterMap_append

def RecvEvent.IsRecv : RecvEvent Msg → Prop
  | .recv _ _ _ => True
  | _ => False

def NoRecv (events : List (RecvEvent Msg)) : Prop := ∀ ev ∈ events, ¬ ev.IsRecv

@[simp] theorem noRecv_nil : NoRecv ([] : List (RecvEvent Msg)) := by
  simp [NoRecv]

@[simp] theorem noRecv_cons {ev : RecvEvent Msg} {events : List (RecvEvent Msg)} :
    NoRecv (ev :: events) ↔ ¬ ev.IsRecv ∧ NoRecv events :=
  List.forall_mem_cons

@[simp] theorem noRecv_append {xs ys : List (RecvEvent Msg)} :
    NoRecv (xs ++ ys) ↔ NoRecv xs ∧ NoRecv ys :=
  List.forall_mem_append

namespace GepChannel

/-- The channel keeps its id, and its socket unless it has been closed. -/
structure SocketKept (c : GepChannel) (r : Recv ρ Msg) : Prop where
  id : r.chan.id = c.id
  socket : (r.chan.socket = c.socket ∧ closedFds r.events = []) ∨
    (c.socket ≠ -1 ∧ r.chan.socket = -1 ∧ closedFds r.events = [c.socket])

theorem SocketKept.prepend {c : GepChannel} {r : Recv ρ Msg} (h : SocketKept c r)
    {log : List (RecvEvent Msg)} (hlog : closedFds log = []) : SocketKept c (r.prepend log) := by
  refine ⟨h.id, ?_⟩
  rw [Recv.prepend_chan, Recv.prepend_events, closedFds_append, hlog, List.nil_append]
  exact h.socket

theorem SocketKept.trans {ρ' : Type*} {c : GepChannel} {r : Recv ρ Msg} {r' : Recv ρ' Msg}
    (h : SocketKept c r) (h' : SocketKept r.chan r') : SocketKept c (r'.prepend r.events) := by
  refine ⟨h'.id.trans h.id, ?_⟩
  rw [Recv.prepend_chan, Recv.prepend_events, closedFds_append]
  rcases h.socket with ⟨hs, hnone⟩ | ⟨hopen, hs, hclosed⟩
  · rw [hnone, List.nil_append, ← hs]
    exact h'.socket
  · rw [hclosed]
    rcases h'.socket with ⟨hs', hnone'⟩ | ⟨hopen', -, -⟩
    · exact .inr ⟨hopen, hs'.trans hs, by rw [hnone', List.append_nil]⟩
    · exact absurd hs hopen'

theorem recvTLV_socketKept (e : Endpoint Msg) (c : GepChannel) (tag : UInt32) (valueLen : ℤ)
    (value : ℕ) : SocketKept c (recvTLV e c tag valueLen value) := by
  cases recvTLV_inv e c tag valueLen value with
  | dropped _ eq | unpackable _ _ _ eq | kept _ _ _ _ _ eq =>
      rw [eq]
      exact ⟨rfl, .inl ⟨rfl, rfl⟩⟩
  | closed _ _ _ _ _ eq =>
      rw [eq]
      unfold close
      split_ifs with hopen
      · exact ⟨rfl, .inr ⟨hopen, rfl, rfl⟩⟩
      · exact ⟨rfl, .inl ⟨rfl, rfl⟩⟩

theorem processRemaining_socketKept (c : GepChannel) (msgLen : ℕ) :
    SocketKept c (@processRemaining Msg c msgLen) := by
  unfold processRemaining
  dsimp only
  split_ifs <;> exact ⟨rfl, .inl ⟨rfl, rfl⟩⟩

theorem debugLog_closedFds (e : Endpoint Msg) (c : GepChannel) (tag valueLen : UInt32) :
    closedFds (debugLog e c tag valueLen) = [] := by
  rcases debugLog_events e c tag valueLen with h | h <;> rw [h] <;> rfl

theorem recvStringPass_socketKept (e : Endpoint Msg) (c : GepChannel) :
    SocketKept c (recvStringPass e c) := by
  unfold recvStringPass
  dsimp only
  split_ifs
  · exact ⟨rfl, .inl ⟨rfl, rfl⟩⟩
  · exact ⟨rfl, .inl ⟨rfl, rfl⟩⟩
  · exact ⟨rfl, .inl ⟨rfl, rfl⟩⟩
  all_goals
    generalize (e.proto.scanHeader _).2.1 = tag
    generalize (e.proto.scanHeader _).2.2 = valueLen
    have htlv := recvTLV_socketKept e c tag valueLen.toNat kOffsetValue
  · refine ⟨htlv.id, ?_⟩
    simpa [debugLog_closedFds, RecvEvent.closed] using htlv.socket
  · have hrest := htlv.trans (processRemaining_socketKept _
      ((kHdrLen + valueLen.toNat) % 2 ^ 32))
    refine ⟨hrest.id, ?_⟩
    simpa [debugLog_closedFds, RecvEvent.closed] using hrest.socket

theorem recvString_socketKept (e : Endpoint Msg) (c : GepChannel) :
    SocketKept c (recvString e c) := by
  fun_induction recvString e c with
  | case1 c hhdr pass hagain ih => exact (recvStringPass_socketKept e c).trans ih
  | case2 c hhdr pass hstop =>
      have hpass := recvStringPass_socketKept e c
      exact ⟨hpass.id, hpass.socket⟩
  | case3 c hhdr => split_ifs <;> exact ⟨rfl, .inl ⟨rfl, rfl⟩⟩

theorem recvData_socketKept (e : Endpoint Msg) (c : GepChannel) (r : RawRecv) :
    SocketKept c (recvData e c r) := by
  cases recvData_inv e c r with
  | refused _ eq | failed _ _ _ _ eq | closed _ _ _ eq =>
      rw [eq]
      exact ⟨rfl, .inl ⟨rfl, rfl⟩⟩
  | received bytes _ _ _ _ eq =>
      have hstring := recvString_socketKept e (c.append bytes)
      rw [eq]
      refine ⟨hstring.id, ?_⟩
      simpa [RecvEvent.closed] using hstring.socket

theorem recvTLV_noRecv (e : Endpoint Msg) (c : GepChannel) (tag : UInt32) (valueLen : ℤ)
    (value : ℕ) : NoRecv (recvTLV e c tag valueLen value).events := by
  have hclose : ∀ fd : Option ℤ, NoRecv ((fd.map .close).toList : List (RecvEvent Msg)) := by
    rintro (_ | fd) <;> simp [RecvEvent.IsRecv]
  cases recvTLV_inv e c tag valueLen value with
  | dropped _ eq | unpackable _ _ _ eq | kept _ _ _ _ _ eq | closed _ _ _ _ _ eq =>
      rw [eq]
      simp [RecvEvent.IsRecv, hclose]

theorem recvStringPass_noRecv (e : Endpoint Msg) (c : GepChannel) :
    NoRecv (recvStringPass e c).events := by
  have hdebug : ∀ tag valueLen, NoRecv (debugLog e c tag valueLen) := by
    intro tag valueLen
    rcases debugLog_events e c tag valueLen with h | h <;> rw [h] <;> simp [RecvEvent.IsRecv]
  have hremaining : ∀ c' msgLen, NoRecv (@processRemaining Msg c' msgLen).events := by
    intro c' msgLen
    rcases @processRemaining_events Msg c' msgLen with h | ⟨size, h⟩ <;> rw [h] <;>
      simp [RecvEvent.IsRecv]
  unfold recvStringPass
  dsimp only
  split_ifs <;> simp [RecvEvent.IsRecv, hdebug, hremaining, recvTLV_noRecv]

theorem recvString_noRecv (e : Endpoint Msg) (c : GepChannel) :
    NoRecv (recvString e c).events := by
  fun_induction recvString e c with
  | case1 c hhdr pass hagain ih =>
      rw [Recv.prepend_events, noRecv_append]
      exact ⟨recvStringPass_noRecv e c, ih⟩
  | case2 c hhdr pass hstop => exact recvStringPass_noRecv e c
  | case3 c hhdr => split_ifs <;> exact noRecv_nil

theorem recvData_events (e : Endpoint Msg) {c : GepChannel} (r : RawRecv)
    (hsocket : 0 ≤ c.socket) (hroom : toUnsigned 64 c.len < kMaxMsgLen) :
    ∃ events, (recvData e c r).events =
        .recv c.socket (kMaxMsgLen - toUnsigned 64 c.len) r :: events ∧ NoRecv events := by
  cases recvData_inv e c r with
  | refused reason => omega
  | failed _ _ _ _ eq | closed _ _ _ eq =>
      rw [eq]
      exact ⟨[], rfl, noRecv_nil⟩
  | received bytes _ _ _ _ eq =>
      rw [eq]
      exact ⟨_, rfl, recvString_noRecv e _⟩

/-- A channel that a callback has closed holds less than its frame: the bytes
behind it cannot be moved. -/
theorem processRemaining_of_closed {c : GepChannel} {msgLen : ℕ} (hlen : c.len = 0)
    (hpos : 0 < msgLen) (hlt : msgLen < 2 ^ 31) :
    @processRemaining Msg c msgLen =
      ⟨.undefined, c, [.memmove 0 msgLen (2 ^ 64 - msgLen)]⟩ := by
  have hmaxLen := kMaxMsgLen_eq
  have hremain : toSigned 32 (toUnsigned 32 c.len - msgLen) = -msgLen := by
    rw [hlen, show ((toUnsigned 32 0 : ℕ) : ℤ) = 0 from rfl, zero_sub]
    exact toSigned_of_mem (by omega) (by omega) (by omega)
  have hsize : toUnsigned 64 (-msgLen) = 2 ^ 64 - msgLen := by
    unfold toUnsigned
    omega
  unfold processRemaining
  dsimp only
  rw [hremain, hsize, if_pos (by omega), if_neg (by omega)]

theorem processRemaining_socket (c : GepChannel) (msgLen : ℕ) :
    (@processRemaining Msg c msgLen).chan.socket = c.socket := by
  unfold processRemaining
  dsimp only
  split_ifs <;> rfl

theorem recvStringPass_socket {e : Endpoint Msg} {c : GepChannel}
    (h : (recvStringPass e c).ret ≠ .undefined) :
    (recvStringPass e c).chan.socket = c.socket := by
  have hmaxLen := kMaxMsgLen_eq
  have hhdrLen := kHdrLen_eq
  unfold recvStringPass at h ⊢
  dsimp only at h ⊢
  split_ifs at h ⊢ with h1 h2 h3 h4
  · rfl
  · rfl
  · rfl
  all_goals
    generalize (e.proto.scanHeader _).2.1 = tag at *
    generalize (e.proto.scanHeader _).2.2 = valueLen at *
    rcases recvTLV_chan e c tag valueLen.toNat kOffsetValue with hchan | ⟨hret, hchan⟩
  · exact congrArg GepChannel.socket hchan
  · rw [hret] at h4
    exact absurd h4 (by decide)
  · rw [Recv.prepend_chan, processRemaining_socket, hchan]
  · rw [Recv.prepend_chan, processRemaining_socket, hchan]
    rw [Recv.prepend_ret, hchan] at h
    unfold close at h ⊢
    split_ifs at h ⊢ with hopen
    · rw [processRemaining_of_closed rfl (by omega) (by omega)] at h
      exact absurd rfl h
    · rfl

theorem recvString_socket {e : Endpoint Msg} {c : GepChannel} {r : Result}
    (h : (recvString e c).ret = some r) : (recvString e c).chan.socket = c.socket := by
  fun_induction recvString e c with
  | case1 c hhdr pass hagain ih =>
      have hsocket : pass.chan.socket = c.socket := recvStringPass_socket (by simp [pass, hagain])
      exact (ih h).trans hsocket
  | case2 c hhdr pass hstop =>
      refine recvStringPass_socket fun hundefined ↦ ?_
      rw [show pass.ret = _ from hundefined] at h
      cases h
  | case3 c hhdr => split_ifs <;> rfl

theorem recvData_socket {e : Endpoint Msg} {c : GepChannel} {r : RawRecv} {ret : ℤ}
    (h : (recvData e c r).ret = some ret) : (recvData e c r).chan.socket = c.socket := by
  cases recvData_inv e c r with
  | refused _ eq | failed _ _ _ _ eq | closed _ _ _ eq => rw [eq]
  | received bytes _ _ _ _ eq =>
      rw [eq] at h ⊢
      obtain ⟨res, hres, -⟩ := Option.map_eq_some_iff.mp h
      exact recvString_socket hres

/-- A `RecvData` that returns has not closed the descriptor that it read. -/
theorem recvData_closedFds {e : Endpoint Msg} {c : GepChannel} {r : RawRecv} {ret : ℤ}
    (hopen : c.socket ≠ -1) (h : (recvData e c r).ret = some ret) :
    closedFds (recvData e c r).events = [] := by
  rcases (recvData_socketKept e c r).socket with ⟨-, hnone⟩ | ⟨-, hgone, -⟩
  · exact hnone
  · exact absurd ((recvData_socket h).symm.trans hgone) hopen

end GepChannel

end Libgep
