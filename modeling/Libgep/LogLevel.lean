import Libgep.Network

/-!
# The log level

At `LOG_DEBUG` the receive path dumps what it has received, and nothing else
depends on the level: whatever the levels of a server and of its clients are,
the same steps lead to the same states, and the same things happen but for the
dumps.
-/

namespace Libgep

open Transition

variable {κ Msg : Type*} {p : κ → GepProtocol Msg} {q : GepProtocol Msg} {t : Tcp}

/-! ## What can be seen -/

/-- It is not a dump, which only writes into a scratch buffer. -/
def RecvEvent.observed : RecvEvent Msg → Bool
  | .printable _ _ _ _ => false
  | _ => true

def ArrayEvent.observed : ArrayEvent Msg → Bool
  | .channel _ ev => ev.observed
  | _ => true

def ClientEvent.observed : ClientEvent Msg → Bool
  | .channel ev => ev.observed
  | _ => true

def NetEvent.observed : NetEvent κ Msg → Bool
  | .server ev => ev.observed
  | .client _ ev => ev.observed
  | .cast _ => true

def Endpoint.withLogLevel (e : Endpoint Msg) (level : LogLevel) : Endpoint Msg :=
  { e with logLevel := level }

/-! ## The receive path -/

/-- Two results that differ in dumps only. -/
structure Recv.Similar {ρ : Type*} (o o' : Recv ρ Msg) : Prop where
  ret : o.ret = o'.ret
  chan : o.chan = o'.chan
  events : o.events.filter RecvEvent.observed = o'.events.filter RecvEvent.observed

theorem Recv.Similar.refl {ρ : Type*} (o : Recv ρ Msg) : o.Similar o := ⟨rfl, rfl, rfl⟩

namespace GepChannel

variable (e : Endpoint Msg) (level : LogLevel)

theorem debugLog_observed (c : GepChannel) (tag valueLen : UInt32) :
    (debugLog e c tag valueLen).filter RecvEvent.observed = [] := by
  rcases debugLog_events e c tag valueLen with h | h <;> rw [h] <;> rfl

theorem recvStringPass_similar (c : GepChannel) :
    (recvStringPass (e.withLogLevel level) c).Similar (recvStringPass e c) := by
  have htlv : recvTLV (e.withLogLevel level) = recvTLV e := rfl
  have hproto : (e.withLogLevel level).proto = e.proto := rfl
  unfold recvStringPass
  rw [htlv, hproto]
  dsimp only
  split_ifs
  · exact .refl _
  · exact .refl _
  · exact .refl _
  · refine ⟨rfl, rfl, ?_⟩
    simp only [List.filter_append, debugLog_observed]
  · refine ⟨rfl, rfl, ?_⟩
    simp only [Recv.prepend, List.filter_append, debugLog_observed]

theorem recvString_similar (c : GepChannel) :
    (recvString (e.withLogLevel level) c).Similar (recvString e c) := by
  fun_induction recvString e c with
  | case1 c hlen pass hagain ih =>
      obtain ⟨hret, hchan, hevents⟩ := recvStringPass_similar e level c
      rw [recvString, if_pos hlen]
      dsimp only
      rw [dif_pos (hret.trans hagain), hchan]
      refine ⟨ih.ret, ih.chan, ?_⟩
      simp only [Recv.prepend, List.filter_append, hevents, ih.events, pass]
  | case2 c hlen pass hagain =>
      obtain ⟨hret, hchan, hevents⟩ := recvStringPass_similar e level c
      rw [recvString, if_pos hlen]
      dsimp only
      rw [dif_neg fun h ↦ hagain (hret.symm.trans h)]
      exact ⟨congrArg Pass.result hret, hchan, hevents⟩
  | case3 c hlen =>
      rw [recvString, if_neg hlen]
      exact .refl _

theorem recvData_similar (c : GepChannel) (r : RawRecv) :
    (recvData (e.withLogLevel level) c r).Similar (recvData e c r) := by
  have hstring := recvString_similar e level
  unfold recvData
  split_ifs
  · exact .refl _
  · exact .refl _
  · dsimp only
    split
    · exact .refl _
    · exact .refl _
    · obtain ⟨hret, hchan, hevents⟩ := hstring _
      exact ⟨by rw [hret], hchan, by simp only [List.filter_cons, hevents]⟩

end GepChannel

/-! ## The service loops -/

section

variable (e : Endpoint Msg) (level : LogLevel)

theorem filter_map_channel (id : ℤ) (events : List (RecvEvent Msg)) :
    (events.map (ArrayEvent.channel id)).filter ArrayEvent.observed =
      (events.filter RecvEvent.observed).map (.channel id) := by
  rw [List.filter_map]
  rfl

theorem arrayStep_seen (s : ArrayState) (l : ArrayLabel) :
    seen ArrayEvent.observed (arrayStep (e.withLogLevel level) s l) =
      seen ArrayEvent.observed (arrayStep e s l) := by
  cases l with
  | serve r =>
      simp only [arrayStep]
      split
      · split_ifs
        · rename_i addr hserving hfits
          obtain ⟨hret, hchan, hevents⟩ :=
            GepChannel.recvData_similar e level (s.array.heap addr) r
          simp only [GepChannelArray.serve, hret, hchan, Option.map_map, seen]
          refine congrFun (congrArg _ (funext fun ret ↦ ?_)) _
          refine Prod.ext rfl ?_
          change List.filter _ (List.map _ _) = List.filter _ (List.map _ _)
          rw [filter_map_channel, filter_map_channel, hevents]
        · rfl
      · rfl
  | _ => rfl

theorem serverStep_seen (s : GepServer) (l : ServerLabel) :
    seen ArrayEvent.observed (serverStep (e.withLogLevel level) s l) =
      seen ArrayEvent.observed (serverStep e s l) := by
  cases l with
  | recv r =>
      simp only [serverStep]
      split
      · exact seen_map (arrayStep_seen e level s.array _) fun _ _ _ hes ↦ ⟨rfl, hes⟩
      · rfl
  | _ => rfl

theorem clientStep_seen (s : GepClient) (l : ClientLabel) :
    seen ClientEvent.observed (clientStep (e.withLogLevel level) s l) =
      seen ClientEvent.observed (clientStep e s l) := by
  cases l with
  | recv r =>
      simp only [clientStep]
      split
      · split_ifs
        · obtain ⟨hret, hchan, hevents⟩ := GepChannel.recvData_similar e level s.channel r
          simp only [hret, hchan, Option.map_map, seen]
          refine congrFun (congrArg _ (funext fun res ↦ ?_)) _
          refine Prod.ext rfl ?_
          change List.filter _ (List.map _ _) = List.filter _ (List.map _ _)
          rw [List.filter_map, List.filter_map]
          exact congrArg _ hevents
        · rfl
      · rfl
  | _ => rfl

end

/-! ## The system -/

variable [DecidableEq κ]

theorem serverEvent_hidden (x : κ × ℕ) (k : Kernel κ p q) {ev : ArrayEvent Msg}
    (h : ev.observed = false) : Kernel.serverEvent t x k ev = some k := by
  cases ev with
  | channel id ev =>
      cases ev with
      | printable => rfl
      | _ => cases h
  | _ => cases h

theorem clientEvent_hidden (i : κ) (connects elsewhere : Bool) (k : Kernel κ p q)
    {ev : ClientEvent Msg} (h : ev.observed = false) :
    Kernel.clientEvent t i connects elsewhere k ev = some k := by
  cases ev with
  | channel ev =>
      cases ev with
      | printable => rfl
      | _ => cases h
  | _ => cases h

variable (t : Tcp) (ec : κ → Endpoint Msg) (es : Endpoint Msg) (clientLevel : κ → LogLevel)
  (serverLevel : LogLevel)

theorem netStep_seen (s : Net κ (protos ec) es.proto) (l : NetLabel κ Msg) :
    seen NetEvent.observed
        (netStep t (fun i ↦ (ec i).withLogLevel (clientLevel i)) (es.withLogLevel serverLevel)
          s l) =
      seen NetEvent.observed (netStep t ec es s l) := by
  cases l with
  | server l x =>
      refine seen_bind (serverStep_seen es serverLevel s.server l) fun next events events' hes ↦ ?_
      apply seen_foldlM
      · exact fun k _ hidden ↦ serverEvent_hidden x k hidden
      · exact fun _ ↦ rfl
      · exact hes
  | client i l elsewhere =>
      simp only [netStep]
      split_ifs
      · rfl
      · refine seen_bind (clientStep_seen (ec i) (clientLevel i) (s.clients i) l)
          fun next events events' hes ↦ ?_
        apply seen_foldlM
        · exact fun k _ hidden ↦ clientEvent_hidden i l.connects elsewhere k hidden
        · exact fun _ ↦ rfl
        · exact hes
  | _ => rfl

/-- The log levels of a server and of its clients make no difference: whatever
they do under any other levels, they do as well, and all that can be seen of it
is the same.  The clients may be of different programs, each at a level of its
own. -/
theorem logLevel_unobserved (stale : κ → Buffer) (a : GepChannelArray)
    (s : Net κ (protos ec) es.proto) (ls : List (NetLabel κ Msg)) :
    seen NetEvent.observed ((netMachine t (fun i ↦ (ec i).withLogLevel (clientLevel i))
        (es.withLogLevel serverLevel) stale a).runFrom s ls) =
      seen NetEvent.observed ((netMachine t ec es stale a).runFrom s ls) :=
  Machine.runFrom_seen (netStep_seen t ec es clientLevel serverLevel) s ls

end Libgep
