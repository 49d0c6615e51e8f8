import Libgep.LogBuffers

/-!
# Tags in the log

The log shows a tag as the text that `TagString` makes of its four bytes.  The
escapes of a dump can be mistaken for printable bytes, but not within so few
of them: the text of a tag tells which tag it is.
-/

namespace Libgep

open ByteMemory

/-! ## Digits -/

theorem hexDigit_injOn {d d' : ℕ} (hd : d < 16) (hd' : d' < 16) (h : hexDigit d = hexDigit d') :
    d = d' := by
  have hall : ∀ d < 16, ∀ d' < 16, hexDigit d = hexDigit d' → d = d' := by decide
  exact hall d hd d' hd' h

theorem hexDigit_ne_backslash {d : ℕ} (hd : d < 16) : hexDigit d ≠ 92 := by
  have hall : ∀ d < 16, hexDigit d ≠ 92 := by decide
  exact hall d hd

theorem hexPair_injective : Function.Injective hexPair := by
  intro x y h
  have hx := x.toNat_lt
  have hy := y.toNat_lt
  obtain ⟨hhigh, hlow⟩ := List.cons.inj h
  have hdiv := hexDigit_injOn (by omega) (by omega) hhigh
  have hmod := hexDigit_injOn (by omega) (by omega) (List.cons.inj hlow).1
  apply UInt8.toNat_inj.mp
  omega

/-! ## Escapes -/

variable {isprint : UInt8 → Bool}

/-- A byte at the head of a dump that does not start an escape is printed as it
is. -/
theorem cons_of_flatMap_escaped {x : UInt8} {ys text : List UInt8}
    (h : ys.flatMap (escaped isprint) = x :: text) (hx : x ≠ 92) :
    ∃ ys', ys = x :: ys' ∧ ys'.flatMap (escaped isprint) = text := by
  cases ys with
  | nil => cases h
  | cons y ys =>
      rw [List.flatMap_cons, escaped] at h
      split_ifs at h
      · obtain ⟨rfl, htext⟩ := List.cons.inj h
        exact ⟨ys, rfl, htext⟩
      · exact absurd (List.cons.inj h).1.symm hx

/-- Where the text of one dump starts with an escape and that of another with
the same characters, the other one has four bytes there. -/
theorem four_of_escape {y : UInt8} {xs ys : List UInt8}
    (h : [92, 120] ++ hexPair y ++ xs.flatMap (escaped isprint) =
      92 :: ys.flatMap (escaped isprint)) :
    ∃ ys' : List UInt8, ys.length = ys'.length + 3 ∧
      xs.flatMap (escaped isprint) = ys'.flatMap (escaped isprint) := by
  have hlt := y.toNat_lt
  have htail := (List.cons.inj h).2.symm
  obtain ⟨ys₁, rfl, h₁⟩ := cons_of_flatMap_escaped htail (by decide)
  obtain ⟨ys₂, rfl, h₂⟩ := cons_of_flatMap_escaped h₁ (hexDigit_ne_backslash (by omega))
  obtain ⟨ys₃, rfl, h₃⟩ := cons_of_flatMap_escaped h₂ (hexDigit_ne_backslash (by omega))
  exact ⟨ys₃, rfl, h₃.symm⟩

theorem flatMap_escaped_eq_nil {xs : List UInt8} (h : xs.flatMap (escaped isprint) = []) :
    xs = [] := by
  cases xs with
  | nil => rfl
  | cons x xs =>
      rw [List.flatMap_cons, escaped] at h
      split_ifs at h <;> cases h

/-- An escape that another dump of as few bytes spells out leaves that one no
bytes to go on. -/
theorem escape_ne_spelled {x : UInt8} {xs ys : List UInt8} (hlength : xs.length = ys.length)
    (hfew : xs.length < 4) :
    [92, 120] ++ hexPair x ++ xs.flatMap (escaped isprint) ≠
      92 :: ys.flatMap (escaped isprint) := by
  intro h
  obtain ⟨ys', hys', hrest⟩ := four_of_escape h
  have hnil : ys' = [] := List.length_eq_zero_iff.mp (by omega)
  rw [hnil] at hys' hrest
  have hxs := flatMap_escaped_eq_nil hrest
  rw [hxs, hys'] at hlength
  cases hlength

/-- Dumps of the same few bytes are the same. -/
theorem flatMap_escaped_injective {xs ys : List UInt8} (hlength : xs.length = ys.length)
    (hfew : xs.length ≤ 4)
    (h : xs.flatMap (escaped isprint) = ys.flatMap (escaped isprint)) : xs = ys := by
  induction xs generalizing ys with
  | nil => exact (List.length_eq_zero_iff.mp hlength.symm).symm
  | cons x xs ih =>
      cases ys with
      | nil => cases hlength
      | cons y ys =>
          have hlen : xs.length = ys.length := Nat.succ.inj hlength
          have hlt : xs.length < 4 := hfew
          simp only [List.flatMap_cons, escaped] at h
          split_ifs at h with hx hy hy
          · obtain ⟨rfl, hrest⟩ := List.cons.inj h
            rw [ih hlen hlt.le hrest]
          · obtain ⟨rfl, -⟩ := List.cons.inj h
            exact absurd h.symm (escape_ne_spelled hlen.symm (hlen ▸ hlt))
          · obtain ⟨rfl, -⟩ := List.cons.inj h
            exact absurd h (escape_ne_spelled hlen hlt)
          · obtain ⟨hpair, hrest⟩ := List.append_inj h rfl
            rw [hexPair_injective (List.append_cancel_left hpair), ih hlen hlt.le hrest]

-- five bytes can be confused
example : [92, 120, 48, 49, 1].flatMap (escaped isprintC) =
    [1, 92, 120, 48, 49].flatMap (escaped isprintC) := by
  decide

/-! ## Tags -/

namespace GepProtocol

theorem tagString_injective : Function.Injective tagString := by
  intro tag tag' h
  have hword := congrArg (fun bytes ↦ uint32 (bytes ++ [])) h
  simpa only [tagString, uint32_setUint32] using hword

/-- The text of a tag. -/
def tagText (isprint : UInt8 → Bool) (tag : UInt32) : List UInt8 :=
  (tagString tag).flatMap (escaped isprint)

theorem tagText_injective : Function.Injective (tagText isprint) := by
  intro tag tag' h
  exact tagString_injective (flatMap_escaped_injective rfl le_rfl h)

theorem tagStringInto_tagText (h0 : isprint 0 = false) (m : ℤ → UInt8) (tag : UInt32) :
    IsString (writeAll m (tagStringInto isprint tag kMaxTagString).stores) (tagText isprint tag) :=
  (tagStringInto_whole h0 tag).2 m

/-- The bytes of a word are those that it is made of. -/
theorem setUint32_uint32 (a b c d : UInt8) : setUint32 (uint32 [a, b, c, d]) = [a, b, c, d] := by
  simp only [setUint32, uint32, List.getD_cons_zero, List.getD_cons_succ, List.cons.injEq,
    and_true]
  refine ⟨?_, ?_, ?_, ?_⟩
  all_goals
    apply UInt8.eq_of_toBitVec_eq
    simp only [UInt32.toBitVec_or, UInt32.toBitVec_shiftLeft, UInt8.toBitVec_toUInt32,
      UInt32.toBitVec_toUInt8, UInt32.toBitVec_shiftRight, UInt32.toBitVec_ofNat]
    ext i hi
    simp only [BitVec.shiftLeft_eq', BitVec.ushiftRight_eq', BitVec.getElem_setWidth,
      BitVec.getLsbD_ushiftRight]
    simp
    grind

theorem val_eq_toUInt32 {c : Char} (hc : c.toNat < 128) :
    c.val = (UInt8.ofNat c.toNat).toUInt32 := by
  apply UInt32.toNat_inj.mp
  rw [UInt8.toNat_toUInt32, UInt8.toNat_ofNat', Nat.mod_eq_of_lt (by omega)]
  rfl

/-- A tag made of characters consists of these. -/
theorem tagString_makeTag {a b c d : Char} (h : ∀ x ∈ [a, b, c, d], x.toNat < 128) :
    tagString (makeTag a b c d) = ascii (.ofList [a, b, c, d]) := by
  simp only [List.forall_mem_cons] at h
  obtain ⟨ha, hb, hc, hd, -⟩ := h
  rw [tagString, makeTag, val_eq_toUInt32 ha, val_eq_toUInt32 hb, val_eq_toUInt32 hc,
    val_eq_toUInt32 hd]
  rw [ascii, String.toList_ofList]
  exact setUint32_uint32 _ _ _ _

theorem flatMap_escaped_of_printable {xs : List UInt8} (h : ∀ x ∈ xs, isprint x = true) :
    xs.flatMap (escaped isprint) = xs := by
  induction xs with
  | nil => rfl
  | cons x xs ih =>
      obtain ⟨hx, hxs⟩ := List.forall_mem_cons.mp h
      rw [List.flatMap_cons, escaped, if_pos hx, ih hxs, List.singleton_append]

/-- Two tags have the same text in the log only if they are the same, and one
made of printable characters shows these. -/
theorem tagString_tells (h0 : isprint 0 = false) (m m' : ℤ → UInt8) :
    (∀ tag tag', (∃ text,
        IsString (writeAll m (tagStringInto isprint tag kMaxTagString).stores) text ∧
          IsString (writeAll m' (tagStringInto isprint tag' kMaxTagString).stores) text) ↔
        tag = tag') ∧
      ∀ a b c d : Char, (∀ x ∈ [a, b, c, d], x.toNat < 128 ∧ isprint (.ofNat x.toNat) = true) →
        IsString (writeAll m (tagStringInto isprint (makeTag a b c d) kMaxTagString).stores)
          (ascii (.ofList [a, b, c, d])) := by
  constructor
  · intro tag tag'
    constructor
    · rintro ⟨text, htext, htext'⟩
      apply @tagText_injective isprint
      calc
        tagText isprint tag = text := (tagStringInto_tagText h0 m tag).unique htext
        _ = tagText isprint tag' := htext'.unique (tagStringInto_tagText h0 m' tag')
    · rintro rfl
      exact ⟨_, tagStringInto_tagText h0 m tag, tagStringInto_tagText h0 m' tag⟩
  · intro a b c d h
    have htext := tagStringInto_tagText h0 m (makeTag a b c d)
    rw [tagText, tagString_makeTag fun x hx ↦ (h x hx).1] at htext
    rwa [flatMap_escaped_of_printable] at htext
    intro y hy
    rw [ascii, String.toList_ofList] at hy
    obtain ⟨x, hx, rfl⟩ := List.mem_map.mp hy
    exact (h x hx).2

theorem tagString_tells_command1 :
    IsString (writeAll (fun _ ↦ 7)
        (tagStringInto isprintC (makeTag 'c' 'm' 'd' '1') kMaxTagString).stores) (ascii "cmd1") ∧
      ¬ ∃ text,
        IsString (writeAll (fun _ ↦ 7)
          (tagStringInto isprintC (makeTag 'c' 'm' 'd' '1') kMaxTagString).stores) text ∧
        IsString (writeAll (fun _ ↦ 7)
          (tagStringInto isprintC 1 kMaxTagString).stores) text := by
  obtain ⟨hiff, hshows⟩ := tagString_tells (by decide : isprintC 0 = false) (fun _ ↦ 7) fun _ ↦ 7
  have hne : makeTag 'c' 'm' 'd' '1' ≠ 1 := by decide
  refine ⟨hshows 'c' 'm' 'd' '1' ?_, fun hsame ↦ hne ((hiff _ _).mp hsame)⟩
  simp [isprintC]

end GepProtocol

end Libgep
