import Libgep.Snprintf

/-!
# Formatting dates

`snprintf_date` chains three bounded writers through one running index: one
that writes nothing useful when there is no room, and one that truncates.
The C library is a parameter as far as calendars and zones go.
-/

namespace Libgep

open CInt ByteMemory

/-! ## Formats -/

/-- What a format of `strftime` makes up; if it does not fit, the contents of
the array are undefined. -/
structure DateText where
  text : List UInt8
  undefinedBytes : (max : ℕ) → List UInt8

def DateText.strftime (max : ℕ) (t : DateText) : Written :=
  if t.text.length < max then ⟨t.text.length, t.text ++ [0]⟩
  else ⟨0, (t.undefinedBytes max).take max⟩

/-- The digits of `%d`, for an argument that is not zero. -/
def digits (n : ℕ) : List UInt8 := (Nat.digits 10 n).reverse.map fun d ↦ .ofNat (48 + d)

/-- `%03d`. -/
def printf03d (n : ℤ) : List UInt8 :=
  if n < 0 then 45 :: (digits n.natAbs).leftpad 2 48 else (digits n.toNat).leftpad 3 48

/-! ## `snprintf_date` -/

structure Timeval where
  tvSec : ℤ
  tvUsec : ℤ

/-- A broken-down time: the calendar, and the two fields that are used here. -/
structure Tm (Calendar : Type*) where
  calendar : Calendar
  isdst : ℤ
  gmtoff : ℤ

inductive DateFormat where
  /-- `"%FT%T"` -/
  | full
  /-- `"%d,%T"` -/
  | short
  /-- `"%z"` -/
  | zone
  deriving DecidableEq

structure TimeLib (Calendar : Type*) where
  now : Timeval
  localtime : ℤ → Tm Calendar
  gmtime : ℤ → Tm Calendar
  format : DateFormat → Tm Calendar → DateText

section Date

variable {Calendar : Type*} (lib : TimeLib Calendar)

/-- The calendar time that is printed, in Pacific Time. -/
def pacificTime (tv : Timeval) : Tm Calendar :=
  let isDst := 0 < (lib.localtime tv.tvSec).isdst
  let offset := if isDst then 3600 * 7 else 3600 * 8
  let ltm := lib.gmtime (tv.tvSec - offset)
  { ltm with gmtoff := ltm.gmtoff - offset }

/-- `snprintf_date`; `tvin` is `none` for a null pointer. -/
def snprintfDate (bufsize : ℤ) (tvin : Option Timeval) (full : Bool) : Formatted :=
  let tv := tvin.getD lib.now
  let ltm := pacificTime lib tv
  let date := (lib.format (if full then .full else .short) ltm).strftime (toUnsigned 64 bufsize)
  let ret := toSigned 32 date.ret
  if ret ≤ 0 then ⟨0, [⟨0, date.bytes⟩, ⟨0, [0]⟩]⟩
  else
    let bi := ret
    let msec := niceSnprintf (toUnsigned 64 (bufsize - bi)) (46 :: printf03d (tv.tvUsec.tdiv 1000))
    let stores := [⟨0, date.bytes⟩, ⟨bi, msec.bytes⟩]
    let bi := bi + msec.ret
    if full then
      let zone := (lib.format .zone ltm).strftime (toUnsigned 64 (bufsize - bi))
      let ret := toSigned 32 zone.ret
      if ret ≤ 0 then ⟨bi, stores ++ [⟨bi, zone.bytes⟩, ⟨bi, [0]⟩]⟩
      else ⟨bi + ret, stores ++ [⟨bi, zone.bytes⟩]⟩
    else ⟨bi, stores⟩

/-- The date, without the milliseconds and the zone. -/
def dateText (tvin : Option Timeval) (full : Bool) : List UInt8 :=
  (lib.format (if full then .full else .short) (pacificTime lib (tvin.getD lib.now))).text

def zoneText (tvin : Option Timeval) : List UInt8 :=
  (lib.format .zone (pacificTime lib (tvin.getD lib.now))).text

/-- The date, a dot, the milliseconds, and the zone of a full date. -/
def dateRendering (tvin : Option Timeval) (full : Bool) : List UInt8 :=
  dateText lib tvin full ++ 46 :: printf03d ((tvin.getD lib.now).tvUsec.tdiv 1000) ++
    if full then zoneText lib tvin else []

/-- There is a string that begins like `text`, in the first `size` cells. -/
def HoldsString (size : ℤ) (text : List UInt8) (m : ℤ → UInt8) : Prop :=
  ∃ n : ℕ, n < size ∧ m n = 0 ∧ (∀ i : ℕ, i < n → m i ≠ 0) ∧ cells m n <+: text

/-- Nothing is stored outside of the buffer, and whatever it held before, what
is left in it is a string that begins like the rendering. -/
structure DateSafe (bufsize : ℤ) (tvin : Option Timeval) (full : Bool) : Prop where
  inside : ∀ s ∈ (snprintfDate lib bufsize tvin full).stores, s.Inside bufsize
  string : ∀ m, HoldsString bufsize (dateRendering lib tvin full)
    (writeAll m (snprintfDate lib bufsize tvin full).stores)

end Date

/-! ## The writers -/

theorem length_printf03d {n : ℤ} (h0 : 0 ≤ n) (h : n < 1000) : (printf03d n).length = 3 := by
  have hdigits : (digits n.toNat).length ≤ 3 := by
    rw [digits, List.length_map, List.length_reverse]
    exact (Nat.digits_length_le_iff (by decide) _).mpr (by omega)
  rw [printf03d, if_neg (by omega), List.length_leftpad]
  omega

/-- The dot and the milliseconds of a time within a second. -/
theorem length_msec {usec : ℤ} (h0 : 0 ≤ usec) (hlt : usec < 1000000) :
    (46 :: printf03d (usec.tdiv 1000)).length = 4 := by
  rw [List.length_cons, Int.tdiv_eq_ediv_of_nonneg h0, length_printf03d (by omega) (by omega)]

theorem strftime_of_fits {t : DateText} {max : ℕ} (hlt : t.text.length < max) :
    t.strftime max = ⟨t.text.length, t.text ++ [0]⟩ :=
  if_pos hlt

/-- `strftime` returns zero for a text that is empty as well. -/
theorem strftime_of_not_fits {t : DateText} {max : ℕ} (h : t.text = [] ∨ max ≤ t.text.length) :
    (t.strftime max).ret = 0 ∧ (t.strftime max).bytes.length ≤ max := by
  unfold DateText.strftime
  split_ifs with hlt
  · have hnil : t.text = [] := h.resolve_right (Nat.not_le_of_lt hlt)
    rw [hnil] at hlt ⊢
    exact ⟨rfl, hlt⟩
  · exact ⟨rfl, List.length_take_le _ _⟩

/-! ## The stores of `snprintf_date` -/

section Date

variable {Calendar : Type*} {lib : TimeLib Calendar} {bufsize : ℤ} {tvin : Option Timeval}
  {full : Bool}

/-- The ways through `snprintf_date`, for the strings that the C library
makes up. -/
inductive DateCase (bufsize : ℤ) (date msec zone : List UInt8) (full : Bool) :
    List (Store UInt8) → Prop where
  | noDate (bytes : List UInt8) (hdate : date = [] ∨ bufsize ≤ date.length)
      (hbytes : bytes.length ≤ bufsize) :
      DateCase bufsize date msec zone full [⟨0, bytes⟩, ⟨0, [0]⟩]
  | short (hfull : full = false) (hdate : date ≠ [] ∧ date.length < bufsize) :
      DateCase bufsize date msec zone full
        [⟨0, date ++ [0]⟩,
          ⟨date.length, msec.take (bufsize - date.length - 1).toNat ++ [0]⟩]
  | noRoom (bytes : List UInt8) (hfull : full = true) (hdate : date ≠ [] ∧ date.length < bufsize)
      (hroom : bufsize ≤ date.length + 4) :
      DateCase bufsize date msec zone full
        [⟨0, date ++ [0]⟩,
          ⟨date.length, msec.take (bufsize - date.length - 1).toNat ++ [0]⟩,
          ⟨bufsize, bytes⟩, ⟨bufsize, [0]⟩]
  | noZone (bytes : List UInt8) (hfull : full = true) (hroom : date.length + 4 < bufsize)
      (hbytes : date.length + 4 + bytes.length ≤ bufsize) :
      DateCase bufsize date msec zone full
        [⟨0, date ++ [0]⟩, ⟨date.length, msec ++ [0]⟩, ⟨date.length + 4, bytes⟩,
          ⟨date.length + 4, [0]⟩]
  | zone (hfull : full = true) (hroom : date.length + 4 + zone.length < bufsize) :
      DateCase bufsize date msec zone full
        [⟨0, date ++ [0]⟩, ⟨date.length, msec ++ [0]⟩, ⟨date.length + 4, zone ++ [0]⟩]

theorem snprintfDate_cases (hpos : 1 ≤ bufsize) (hmax : bufsize < 2 ^ 31)
    (h0 : 0 ≤ (tvin.getD lib.now).tvUsec) (hlt : (tvin.getD lib.now).tvUsec < 1000000) :
    DateCase bufsize (dateText lib tvin full)
      (46 :: printf03d ((tvin.getD lib.now).tvUsec.tdiv 1000)) (zoneText lib tvin) full
      (snprintfDate lib bufsize tvin full).stores := by
  have hunsigned : ∀ n : ℤ, 0 ≤ n → n ≤ bufsize → toUnsigned 64 n = n.toNat := by
    intro n hn hle
    exact toUnsigned_of_lt hn (by omega)
  have hsigned : ∀ n : ℕ, (n : ℤ) ≤ bufsize → toSigned 32 n = n := by
    intro n hle
    exact toSigned_of_mem (by decide) (by omega) (by omega)
  have hmsec := length_msec h0 hlt
  unfold snprintfDate
  dsimp only
  rw [hunsigned bufsize (by omega) le_rfl]
  unfold dateText zoneText
  generalize lib.format (if full then .full else .short)
    (pacificTime lib (tvin.getD lib.now)) = date
  generalize lib.format .zone (pacificTime lib (tvin.getD lib.now)) = zone
  generalize 46 :: printf03d ((tvin.getD lib.now).tvUsec.tdiv 1000) = msec at hmsec ⊢
  by_cases hdate : date.text = [] ∨ bufsize ≤ date.text.length
  · obtain ⟨hret, hbytes⟩ := @strftime_of_not_fits date bufsize.toNat
      (hdate.imp_right fun hle ↦ by omega)
    rw [hret, if_pos (by decide)]
    exact .noDate _ hdate (by omega)
  obtain ⟨hne, hfits⟩ := not_or.mp hdate
  have hlen : 0 < date.text.length := List.length_pos_iff.mpr hne
  rw [strftime_of_fits (by omega)]
  dsimp only
  rw [hsigned _ (by omega), if_neg (by omega),
    hunsigned (bufsize - date.text.length) (by omega) (by omega),
    niceSnprintf_eq (by omega) (by omega) (by omega), hmsec]
  dsimp only
  have htake : (bufsize - date.text.length).toNat - 1 =
      (bufsize - date.text.length - 1).toNat := by omega
  rw [htake]
  cases full with
  | false =>
      rw [if_neg (by decide)]
      exact .short rfl ⟨hne, by omega⟩
  | true =>
      rw [if_pos rfl]
      by_cases hroom : bufsize ≤ date.text.length + 4
      · have hfull : (date.text.length : ℤ) + (min 4 (bufsize - date.text.length).toNat : ℕ) =
            bufsize := by omega
        obtain ⟨hret, -⟩ := @strftime_of_not_fits zone 0 (.inr (Nat.zero_le _))
        rw [hfull, Int.sub_self, hunsigned 0 le_rfl (by omega), Int.toNat_zero, hret,
          if_pos (by decide)]
        exact .noRoom _ rfl ⟨hne, by omega⟩ hroom
      · have hmin : min 4 (bufsize - date.text.length).toNat = 4 := by omega
        have hwhole : msec.take (bufsize - date.text.length - 1).toNat = msec :=
          List.take_of_length_le (by omega)
        rw [hmin, hwhole,
          hunsigned (bufsize - (date.text.length + (4 : ℕ))) (by omega) (by omega)]
        by_cases hzone : zone.text = [] ∨
            (bufsize - (date.text.length + (4 : ℕ))).toNat ≤ zone.text.length
        · obtain ⟨hret, hbytes⟩ := strftime_of_not_fits hzone
          rw [hret, if_pos (by decide)]
          exact .noZone _ rfl (by omega) (by omega)
        · obtain ⟨hzne, hzfits⟩ := not_or.mp hzone
          have hzlen : 0 < zone.text.length := List.length_pos_iff.mpr hzne
          rw [strftime_of_fits (by omega)]
          dsimp only
          rw [hsigned _ (by omega), if_neg (by omega)]
          exact .zone rfl (by omega)

theorem holdsString_of_holds {size : ℤ} {text xs : List UInt8} {m : ℤ → UInt8}
    (h : Holds m 0 (xs ++ [0])) (hlt : xs.length < size) (htext : xs <+: text) :
    HoldsString size text m := by
  obtain ⟨n, hn, hzero, hbefore, hcells⟩ := h.exists_string
  exact ⟨n, by omega, hzero, hbefore, hcells.trans htext⟩

/-- The milliseconds, written behind the date. -/
theorem holds_msec (m : ℤ → UInt8) (date msec : List UInt8) :
    Holds (write (write m ⟨0, date ++ [0]⟩) ⟨date.length, msec ++ [0]⟩) 0 (date ++ msec) := by
  have hdate : Holds (write m ⟨0, date ++ [0]⟩) 0 date := (holds_write m 0 _).left
  have hall := hdate.extend (zero_add _).symm (msec ++ [0])
  rw [← List.append_assoc] at hall
  exact hall.left

/-- Every way through `snprintf_date` but one stays inside of the buffer. -/
theorem DateCase.safe {date msec zone : List UInt8} {stores : List (Store UInt8)}
    (h : DateCase bufsize date msec zone full stores) (hpos : 1 ≤ bufsize)
    (hmsec : msec.length = 4)
    (hroom : full = true → date ≠ [] → date.length < bufsize → date.length + 4 < bufsize) :
    (∀ s ∈ stores, s.Inside bufsize) ∧ ∀ m, HoldsString bufsize
      (date ++ msec ++ if full then zone else []) (writeAll m stores) := by
  have hbehind : (0 : ℤ) + (date ++ msec).length = date.length + 4 := by
    rw [List.length_append, hmsec]
    omega
  cases h with
  | noDate bytes hdate hbytes =>
      refine ⟨?_, fun m ↦ ?_⟩
      · simp [Store.Inside]
        omega
      · exact holdsString_of_holds (show Holds _ 0 ([] ++ [0]) from holds_write _ 0 [0])
          (by rw [List.length_nil]; omega) List.nil_prefix
  | short hfull hdate =>
      have htake : (msec.take (bufsize - date.length - 1).toNat).length ≤
          (bufsize - date.length - 1).toNat := List.length_take_le _ _
      refine ⟨?_, fun m ↦ ?_⟩
      · simp only [List.forall_mem_cons, List.not_mem_nil, false_implies, implies_true, and_true,
          Store.Inside, List.length_append, List.length_singleton]
        omega
      · have hdate : Holds (write m ⟨0, date ++ [0]⟩) 0 date := (holds_write m 0 _).left
        have hall := hdate.extend (zero_add _).symm
          (msec.take (bufsize - date.length - 1).toNat ++ [0])
        rw [← List.append_assoc] at hall
        apply holdsString_of_holds hall
        · rw [List.length_append]
          omega
        · rw [List.append_assoc, List.prefix_append_right_inj]
          exact (List.take_prefix _ _).trans (List.prefix_append _ _)
  | noRoom bytes hfull hdate hfits => exact absurd (hroom hfull hdate.1 hdate.2) (by omega)
  | noZone bytes hfull hfits hbytes =>
      refine ⟨?_, fun m ↦ ?_⟩
      · simp only [List.forall_mem_cons, List.not_mem_nil, false_implies, implies_true, and_true,
          Store.Inside, List.length_append, List.length_singleton]
        omega
      · have hboth := holds_msec m date msec
        have hall := (hboth.write_behind hbehind.le bytes).extend hbehind.symm [0]
        apply holdsString_of_holds hall
        · omega
        · exact List.prefix_append _ _
  | zone hfull hfits =>
      refine ⟨?_, fun m ↦ ?_⟩
      · simp only [List.forall_mem_cons, List.not_mem_nil, false_implies, implies_true, and_true,
          Store.Inside, List.length_append, List.length_singleton]
        omega
      · have hboth := holds_msec m date msec
        have hall := hboth.extend hbehind.symm (zone ++ [0])
        rw [← List.append_assoc] at hall
        apply holdsString_of_holds hall
        · rw [List.length_append]
          omega
        · rw [hfull, if_pos rfl]

theorem DateCase.overruns {date msec zone : List UInt8} {stores : List (Store UInt8)}
    (h : DateCase bufsize date msec zone full stores) (hfull : full = true) (hne : date ≠ [])
    (hlt : date.length < bufsize) (hroom : bufsize ≤ date.length + 4) :
    ∃ s ∈ stores, ¬ s.Inside bufsize := by
  cases h with
  | noDate bytes hdate => exact absurd hdate (not_or.mpr ⟨hne, by omega⟩)
  | short hshort =>
      rw [hfull] at hshort
      cases hshort
  | noRoom bytes =>
      refine ⟨⟨bufsize, [0]⟩, by simp, ?_⟩
      simp [Store.Inside]
  | noZone bytes _ hfits | zone _ hfits => omega

/-- `snprintf_date` is safe unless it cuts off the milliseconds of a full date. -/
theorem dateSafe_iff (hpos : 1 ≤ bufsize) (hmax : bufsize < 2 ^ 31)
    (h0 : 0 ≤ (tvin.getD lib.now).tvUsec) (hlt : (tvin.getD lib.now).tvUsec < 1000000) :
    DateSafe lib bufsize tvin full ↔
      ¬ (full = true ∧ dateText lib tvin full ≠ [] ∧ (dateText lib tvin full).length < bufsize ∧
        bufsize ≤ (dateText lib tvin full).length + 4) := by
  have hcases := @snprintfDate_cases _ lib bufsize tvin full hpos hmax h0 hlt
  constructor
  · rintro hsafe ⟨hfull, hne, hdate, hroom⟩
    obtain ⟨s, hs, houtside⟩ := hcases.overruns hfull hne hdate hroom
    exact houtside (hsafe.inside s hs)
  · intro hroom
    obtain ⟨hinside, hstring⟩ := hcases.safe hpos (length_msec h0 hlt) fun hfull hne hdate ↦ by
      by_contra hle
      exact hroom ⟨hfull, hne, hdate, by omega⟩
    exact ⟨hinside, hstring⟩

end Date

/-- A C library that makes up the texts of a date that the tests format. -/
def testTimeLib : TimeLib Unit where
  now := ⟨1425808800, 0⟩
  localtime _ := ⟨(), 1, 0⟩
  gmtime _ := ⟨(), 0, 0⟩
  format
    | .full, _ => ⟨ascii "2015-03-08T03:00:00", fun _ ↦ []⟩
    | .short, _ => ⟨ascii "08,03:00:00", fun _ ↦ []⟩
    | .zone, _ => ⟨ascii "-0700", fun _ ↦ []⟩

theorem dateSafe_24 : DateSafe testTimeLib 24 (some ⟨1425808800, 0⟩) true :=
  (dateSafe_iff (by decide) (by decide) (by decide) (by decide)).mpr (by decide)

/-- The date fits into 20 bytes, the milliseconds do not, and a terminator in
place of the zone is stored behind the buffer. -/
theorem not_dateSafe_20 :
    ⟨20, [0]⟩ ∈ (snprintfDate testTimeLib 20 (some ⟨1425808800, 0⟩) true).stores ∧
      ¬ DateSafe testTimeLib 20 (some ⟨1425808800, 0⟩) true := by
  have hstore : ⟨20, [0]⟩ ∈ (snprintfDate testTimeLib 20 (some ⟨1425808800, 0⟩) true).stores := by
    decide
  refine ⟨hstore, fun hsafe ↦ ?_⟩
  have hinside := hsafe.inside _ hstore
  simp [Store.Inside] at hinside

end Libgep
