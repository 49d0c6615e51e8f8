import Libgep.Channel
import Libgep.Lib.StreamParser

/-!
# The reference parser

What a stream of bytes means, stated on the whole stream and without any
buffer: frames are read one after the other until the stream is malformed or
its last frame is incomplete.
-/

namespace Libgep

open StreamParser

variable {Msg : Type*}

/-- What becomes of a complete frame: dropped, rejected, or dispatched. -/
def frameVerdict (e : Endpoint Msg) (tag : UInt32) (value rest : List UInt8) :
    Verdict UInt8 (Delivery Msg) :=
  match e.ops tag with
  | none => .emit [] rest
  | some _ =>
      match e.proto.unserialize value (e.proto.getMessage tag) with
      | none => .fail
      | some msg => .emit [⟨tag, value, msg⟩] rest

def frameLook (e : Endpoint Msg) (bytes : List UInt8) : Verdict UInt8 (Delivery Msg) :=
  if bytes.length < kHdrLen then .wait
  else
    let magic := uint32 bytes
    let tag := uint32 (bytes.drop 4)
    let valueLen := (uint32 (bytes.drop 8)).toNat
    if magic ≠ e.proto.magic ∨ kMaxMsgLen - kHdrLen ≤ valueLen then .fail
    else if bytes.length < kHdrLen + valueLen then .wait
    else
      frameVerdict e tag ((bytes.drop kHdrLen).take valueLen) (bytes.drop (kHdrLen + valueLen))

theorem frameVerdict_rest {e : Endpoint Msg} {tag : UInt32} {value rest rest' : List UInt8}
    {out : List (Delivery Msg)} (h : frameVerdict e tag value rest = .emit out rest') :
    rest' = rest := by
  unfold frameVerdict at h
  split at h
  · cases h
    rfl
  · split at h <;> cases h
    rfl

theorem frameVerdict_append (e : Endpoint Msg) (tag : UInt32) (value rest ys : List UInt8) :
    frameVerdict e tag value (rest ++ ys) = (frameVerdict e tag value rest).extend ys := by
  unfold frameVerdict
  split
  · rfl
  · split <;> rfl

theorem frameLook_shrinks {e : Endpoint Msg} {xs rest : List UInt8}
    {out : List (Delivery Msg)} (h : frameLook e xs = .emit out rest) :
    rest.length < xs.length := by
  have hhdr := kHdrLen_eq
  unfold frameLook at h
  dsimp only at h
  split_ifs at h with h1 h2 h3
  rw [frameVerdict_rest h, List.length_drop]
  omega

theorem uint32_drop_append {xs : List UInt8} {n : ℕ} (h : n + 4 ≤ xs.length)
    (ys : List UInt8) : uint32 ((xs ++ ys).drop n) = uint32 (xs.drop n) := by
  rw [List.drop_append_of_le_length (by omega), uint32_append (by simp; omega)]

/-- More bytes only matter to a parser that waits. -/
theorem frameLook_append {e : Endpoint Msg} {xs : List UInt8} (h : frameLook e xs ≠ .wait)
    (ys : List UInt8) : frameLook e (xs ++ ys) = (frameLook e xs).extend ys := by
  have hhdr := kHdrLen_eq
  have hlen : (xs ++ ys).length = xs.length + ys.length := List.length_append
  by_cases h1 : xs.length < kHdrLen
  · simp [frameLook, h1] at h
  have hmagic : uint32 (xs ++ ys) = uint32 xs := uint32_append (by omega) ys
  have htag : uint32 ((xs ++ ys).drop 4) = uint32 (xs.drop 4) :=
    uint32_drop_append (by omega) ys
  have hvl : uint32 ((xs ++ ys).drop 8) = uint32 (xs.drop 8) :=
    uint32_drop_append (by omega) ys
  unfold frameLook at h ⊢
  dsimp only at h ⊢
  rw [hmagic, htag, hvl, if_neg h1, if_neg (by omega)]
  rw [if_neg h1] at h
  by_cases h2 : uint32 xs ≠ e.proto.magic ∨ kMaxMsgLen - kHdrLen ≤ (uint32 (xs.drop 8)).toNat
  · rw [if_pos h2, if_pos h2, Verdict.extend_fail]
  rw [if_neg h2] at h
  have h3 : ¬ xs.length < kHdrLen + (uint32 (xs.drop 8)).toNat := by
    intro h3
    exact h (if_pos h3)
  rw [if_neg h2, if_neg h2, if_neg h3, if_neg (by omega),
    List.drop_append_of_le_length (by omega), List.drop_append_of_le_length (by omega),
    List.take_append_of_le_length (by rw [List.length_drop]; omega), frameVerdict_append]

def frameParser (e : Endpoint Msg) : Parser UInt8 (Delivery Msg) where
  look := frameLook e
  shrinks := frameLook_shrinks
  stable := frameLook_append

/-- What the bytes `bytes` mean to `e`: the messages to dispatch, and the
bytes to keep unless the stream is malformed. -/
def parse (e : Endpoint Msg) (bytes : List UInt8) : Outcome UInt8 (Delivery Msg) :=
  run (frameParser e) bytes

end Libgep
