import Libgep.ArrayInvariant
import Libgep.RecvRefinement

/-!
# Sessions

A session is what one connection delivers: the chunks received on it and the
messages dispatched.  It is sound when an untouched channel, given the same
chunks, dispatches the same messages.
-/

namespace Libgep

open CInt StreamParser GepChannel

variable {Msg : Type*} {e : Endpoint Msg}

/-! ## One more chunk -/

theorem chunksFit_concat {c : GepChannel} {chunks : List (List UInt8)} {chunk : List UInt8}
    (hfit : ChunksFit e c chunks) (hne : chunk ≠ [])
    (hroom : (recvAll e c chunks).ret = some 0 →
      (chunk.length : ℤ) ≤ kMaxMsgLen - (recvAll e c chunks).chan.len) :
    ChunksFit e c (chunks ++ [chunk]) := by
  induction chunks generalizing c with
  | nil => exact ⟨hne, hroom rfl, fun _ ↦ trivial⟩
  | cons first chunks ih =>
      obtain ⟨hfirst, hle, hrest⟩ := hfit
      refine ⟨hfirst, hle, fun hret ↦ ih (hrest hret) fun hzero ↦ ?_⟩
      rw [recvAll] at hroom
      rw [if_pos hret] at hroom
      exact hroom hzero

def RawRecv.chunks : RawRecv → List (List UInt8)
  | .data [] => []
  | .data bytes => [bytes]
  | .error _ => []

/-! ## Sound sessions -/

/-- A channel of its own, whatever its buffer holds, takes in the chunks and
dispatches `out`. -/
structure Session (e : Endpoint Msg) (chunks : List (List UInt8)) (out : List (Delivery Msg)) :
    Prop where
  fits : ∀ c : GepChannel, 0 ≤ c.socket → c.len = 0 → ChunksFit e c chunks
  out : out = (parse e chunks.flatten).out

/-- The channel holds what is left over from the chunks. -/
structure Holds (e : Endpoint Msg) (chunks : List (List UInt8)) (c : GepChannel) : Prop where
  len : c.LenOk
  left : (parse e chunks.flatten).left = some c.contents

/-- What is dispatched in a sound session is what an untouched channel
dispatches in isolation. -/
theorem Session.isolated (hk : e.CallbacksKeep) {chunks : List (List UInt8)}
    {out : List (Delivery Msg)} (h : Session e chunks out) {c : GepChannel}
    (hsocket : 0 ≤ c.socket) (hlen : c.len = 0) :
    out = dispatched (recvAll e c chunks).events := by
  rw [(recvAll_parsed_of_empty hk hsocket hlen (h.fits c hsocket hlen)).events]
  exact h.out

theorem Session.nil (e : Endpoint Msg) : Session e [] [] := ⟨fun _ _ _ ↦ trivial, rfl⟩

theorem Holds.new (e : Endpoint Msg) (id socket : ℤ) (stale : Buffer) :
    Holds e [] (.new id socket stale) :=
  ⟨⟨le_rfl, Int.natCast_nonneg _⟩, by rw [contents_new]; rfl⟩

theorem Holds.room {chunks : List (List UInt8)} {c : GepChannel} (h : Holds e chunks c) :
    toUnsigned 64 c.len < kMaxMsgLen := by
  have hmaxLen := kMaxMsgLen_eq
  have hshort := parse_left_length h.left
  have hlen := length_contents h.len.1 h.len.2
  rw [toUnsigned_of_lt h.len.1 (by omega)]
  omega

theorem Session.concat (hk : e.CallbacksKeep) {chunks : List (List UInt8)}
    {out : List (Delivery Msg)} (h : Session e chunks out) {c : GepChannel}
    (hc : Holds e chunks c) (hsocket : 0 ≤ c.socket) {bytes : List UInt8} (hne : bytes ≠ [])
    (hfit : c.len + bytes.length ≤ kMaxMsgLen) :
    Session e (chunks ++ [bytes])
        (out ++ dispatched (recvData e c (.data bytes)).events) ∧
      ((recvData e c (.data bytes)).ret = some (-1) ∨
        (recvData e c (.data bytes)).ret = some 0 ∧
          Holds e (chunks ++ [bytes]) (recvData e c (.data bytes)).chan) := by
  have hdata := recvData_parsed hk hsocket hc.len hne hfit
  have hflat : (chunks ++ [bytes]).flatten = chunks.flatten ++ bytes := by simp
  have hparse : parse e (chunks.flatten ++ bytes) =
      (parse e (c.contents ++ bytes)).after (parse e chunks.flatten).out :=
    run_append_of_waiting _ hc.left _
  refine ⟨⟨fun c' hsocket' hlen' ↦ ?_, ?_⟩, ?_⟩
  · have hfits := h.fits c' hsocket' hlen'
    refine chunksFit_concat hfits hne fun _ ↦ ?_
    have hall := recvAll_parsed_of_empty hk hsocket' hlen' hfits
    obtain ⟨-, hle, hkept⟩ := hall.kept _ hc.left
    have hsame := length_contents hle.1 hle.2
    rw [hkept, length_contents hc.len.1 hc.len.2] at hsame
    omega
  · rw [hflat, hparse, Outcome.after_out, hdata.events, ← h.out]
  · cases hleft : (parse e (c.contents ++ bytes)).left with
    | none => exact .inl (hdata.failed hleft)
    | some left =>
        obtain ⟨hret, hlen, hkept⟩ := hdata.kept left hleft
        refine .inr ⟨hret, hlen, ?_⟩
        rw [hflat, hparse, Outcome.after_left, hleft, hkept]

theorem Holds.returns (hk : e.CallbacksKeep) {chunks : List (List UInt8)} {c : GepChannel}
    (hc : Holds e chunks c) {r : RawRecv} (hfits : r.Fits (kMaxMsgLen - toUnsigned 64 c.len)) :
    (c.recvData e r).ret.isSome := by
  have hmaxLen := kMaxMsgLen_eq
  have hroom := hc.room
  have h0 := hc.len.1
  have hmax := hc.len.2
  cases recvData_inv e c r with
  | refused _ eq | failed _ _ _ _ eq | closed _ _ _ eq => simp [eq]
  | received bytes hsocket _ data hne =>
      subst data
      rw [toUnsigned_of_lt h0 (by omega)] at hfits hroom
      have hle : bytes.length ≤ kMaxMsgLen - c.len.toNat := hfits
      have hdata := recvData_parsed hk hsocket hc.len hne (by omega)
      cases hleft : (parse e (c.contents ++ bytes)).left with
      | none => simp [hdata.failed hleft]
      | some left => simp [(hdata.kept left hleft).1]

/-- Whatever `Recv` returns, the session stays sound, and the channel is left
in order unless the result is negative. -/
theorem Session.recvData (hk : e.CallbacksKeep) {chunks : List (List UInt8)}
    {out : List (Delivery Msg)} (h : Session e chunks out) {c : GepChannel}
    (hc : Holds e chunks c) (hsocket : 0 ≤ c.socket) {r : RawRecv}
    (hfits : r.Fits (kMaxMsgLen - toUnsigned 64 c.len)) {ret : ℤ}
    (hret : (c.recvData e r).ret = some ret) :
    Session e (chunks ++ r.chunks) (out ++ dispatched (c.recvData e r).events) ∧
      (ret < 0 ∨ Holds e (chunks ++ r.chunks) (c.recvData e r).chan) := by
  have hmaxLen := kMaxMsgLen_eq
  have hroom := hc.room
  have hmax := hc.len.2
  cases recvData_inv e c r with
  | refused reason => omega
  | failed errno _ _ data eq | closed _ _ data eq =>
      rw [eq] at hret ⊢
      cases hret
      refine ⟨?_, .inl (by decide)⟩
      simp only [data, RawRecv.chunks, List.append_nil, dispatched_cons, RecvEvent.delivery,
        Option.toList_none, dispatched_nil]
      exact h
  | received bytes _ _ data hne =>
      subst data
      rw [toUnsigned_of_lt hc.len.1 (by omega)] at hfits hroom
      have hle : bytes.length ≤ kMaxMsgLen - c.len.toNat := hfits
      have h0 := hc.len.1
      obtain ⟨hsession, hnext⟩ := h.concat hk hc hsocket hne (by omega)
      obtain ⟨b, bytes, rfl⟩ := List.exists_cons_of_ne_nil hne
      refine ⟨hsession, ?_⟩
      rcases hnext with hfailed | ⟨-, hholds⟩
      · rw [hfailed] at hret
        cases hret
        exact .inl (by decide)
      · exact .inr hholds

end Libgep
