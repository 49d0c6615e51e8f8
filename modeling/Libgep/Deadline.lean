import Libgep.FullSend
import Mathlib.Data.Stream.Init

/-!
# The deadline of a send

`FullSend` compares what has elapsed with its timeout in two places, each
with its own conversions between signed and unsigned milliseconds.  Under a
clock that does not go back these comparisons are those of the integers, and
the loop ends once the clock has passed the deadline.
-/

namespace Libgep

open CInt

/-! ## The clock -/

/-- The milliseconds at `nowNs`, counted from the start in whole milliseconds. -/
def elapsedMs (startNs nowNs : ℕ) : ℤ :=
  ((nowNs : ℤ) - (startNs / kNsecsPerMsec * kNsecsPerMsec : ℕ)) / kNsecsPerMsec

/-- The clock does not go back, and fits in 63 bits until it has passed the
deadline. -/
structure MonotoneClock (timeoutMs : ℤ) (startNs : ℕ) (nowNs : ℕ → ℕ) : Prop where
  start : startNs ≤ nowNs 0
  monotone : Monotone nowNs
  fits : ∀ i, (∀ j < i, elapsedMs startNs (nowNs j) ≤ timeoutMs) → nowNs i < 2 ^ 63

/-- The same of the readings of a script. -/
def ClockFits (timeoutMs : ℤ) (startNs : ℕ) : List SendStep → Prop
  | [] => True
  | step :: steps => startNs ≤ step.nowNs ∧ step.nowNs < 2 ^ 63 ∧
      (elapsedMs startNs step.nowNs ≤ timeoutMs → ClockFits timeoutMs startNs steps)

theorem elapsedMs_sub_nonneg {startNs nowNs : ℕ} (h : startNs ≤ nowNs) :
    0 ≤ (nowNs : ℤ) - (startNs / kNsecsPerMsec * kNsecsPerMsec : ℕ) := by
  have hle := Nat.div_mul_le_self startNs kNsecsPerMsec
  omega

/-- What `FullSend` takes for its start, in milliseconds. -/
theorem toUnsigned_startedMs {startNs : ℕ} (h : startNs < 2 ^ 63) :
    toUnsigned 64 (toSigned 64 (msElapse startNs 0)) = startNs / kNsecsPerMsec := by
  have hms : msElapse startNs 0 = startNs / kNsecsPerMsec := by
    rw [msElapse, Nat.cast_zero, zero_mul, sub_zero, toUnsigned_natCast,
      Nat.mod_eq_of_lt (by omega)]
  have hlt : startNs / kNsecsPerMsec < 2 ^ 63 := (Nat.div_le_self _ _).trans_lt h
  rw [hms, toSigned_of_mem (by decide) (by omega) (by omega), toUnsigned_natCast,
    Nat.mod_eq_of_lt (by omega)]

/-- No elapsed time wraps around. -/
theorem msElapse_eq {startNs nowNs : ℕ} (hle : startNs ≤ nowNs) (hlt : nowNs < 2 ^ 63) :
    (msElapse nowNs (toUnsigned 64 (toSigned 64 (msElapse startNs 0))) : ℤ) =
      elapsedMs startNs nowNs := by
  have h0 := elapsedMs_sub_nonneg hle
  rw [toUnsigned_startedMs (hle.trans_lt hlt), msElapse, elapsedMs, ← Nat.cast_mul,
    toUnsigned_of_lt h0 (by omega), Int.natCast_ediv, Int.toNat_of_nonneg h0]

/-! ## One iteration -/

def SendEvent.elapsed : SendEvent → Option ℤ
  | .clock elapsedMs => some elapsedMs
  | _ => none

def SendEvent.IsSend : SendEvent → Prop
  | .send _ _ => True
  | _ => False

/-- A reading of the clock behind the deadline. -/
def SendEvent.Late (timeoutMs : ℤ) : SendEvent → Prop
  | .clock elapsedMs => timeoutMs < elapsedMs
  | _ => False

/-- A `timeval` in normal form that is worth so many milliseconds. -/
structure IsTimeval (tvSec tvUsec ms : ℤ) : Prop where
  sec : 0 ≤ tvSec
  usec : 0 ≤ tvUsec
  usec_lt : tvUsec < 1000000
  worth : tvSec * 1000000 + tvUsec = ms * 1000

/-- When an iteration reads the clock, and what it does then. -/
inductive IterTime (timeoutMs : ℤ) (elapsedMs : ℕ) (it : SendIteration) : Prop where
  | untimed (offered : List UInt8) (count value : ℤ) (events : it.events = [.send offered count])
      (next : it.next = .ret value) (ne : value ≠ 0)
  | late (offered : List UInt8) (count : ℤ)
      (events : it.events = [.send offered count, .clock elapsedMs]) (next : it.next = .ret 0)
      (late : timeoutMs < elapsedMs)
  | progress (offered : List UInt8) (count totalSent : ℤ)
      (events : it.events = [.send offered count, .clock elapsedMs])
      (next : it.next = .sent totalSent) (inTime : elapsedMs ≤ timeoutMs)
  | timedOut (offered : List UInt8) (count tvSec tvUsec : ℤ)
      (events : it.events = [.send offered count, .clock elapsedMs, .select tvSec tvUsec 0])
      (next : it.next = .ret 0) (inTime : elapsedMs ≤ timeoutMs)
      (timeval : IsTimeval tvSec tvUsec (timeoutMs - elapsedMs))
  | woken (offered : List UInt8) (count tvSec tvUsec num totalSent : ℤ)
      (events : it.events = [.send offered count, .clock elapsedMs, .select tvSec tvUsec num])
      (next : it.next = .sent totalSent) (inTime : elapsedMs ≤ timeoutMs)
      (timeval : IsTimeval tvSec tvUsec (timeoutMs - elapsedMs))

theorem timeval_of_nonneg {ms : ℤ} (h : 0 ≤ ms) : IsTimeval (ms / 1000) (ms % 1000 * 1000) ms := by
  constructor <;> omega

section Iteration

variable {buf : List UInt8} {size timeoutMs startedMs totalSent : ℤ} {step : SendStep}

theorem fullSendIter_time {elapsed : ℕ} (hpos : 0 < size) (h0 : 0 ≤ timeoutMs)
    (hmax : timeoutMs < 2 ^ 63) (hlt : elapsed < 2 ^ 63)
    (helapsed : msElapse step.nowNs (toUnsigned 64 startedMs) = elapsed) :
    IterTime timeoutMs elapsed
      (fullSendIter buf size timeoutMs startedMs totalSent step) := by
  have htimeout : (toUnsigned 64 timeoutMs : ℤ) = timeoutMs := by
    rw [toUnsigned_of_lt h0 (by omega), Int.toNat_of_nonneg h0]
  have hsleep : toSigned 64 (timeoutMs - elapsed) = timeoutMs - elapsed :=
    toSigned_of_mem (by decide) (by omega) (by omega)
  unfold fullSendIter
  dsimp only
  rw [helapsed, hsleep]
  split_ifs with hcount hlast hlate hzero herrno hpassed hselect
  · exact .untimed _ _ _ rfl rfl (by omega)
  · exact .late _ _ rfl rfl (by omega)
  · exact .progress _ _ _ rfl rfl (by omega)
  · exact .untimed _ _ _ rfl rfl (by decide)
  · exact .untimed _ _ _ rfl rfl (by decide)
  · exact .late _ _ rfl rfl (by omega)
  · rw [hselect]
    exact .timedOut _ _ _ _ rfl rfl (by omega) (timeval_of_nonneg (by omega))
  · exact .woken _ _ _ _ _ _ rfl rfl (by omega) (timeval_of_nonneg (by omega))

end Iteration

/-! ## The loop -/

/-- The events of the loop on a script, whether or not it makes it return. -/
def fullSendTrace (buf : List UInt8) (size timeoutMs startedMs : ℤ) :
    ℤ → List SendStep → List SendEvent
  | _, [] => []
  | totalSent, step :: steps =>
      if totalSent < size then
        let it := fullSendIter buf size timeoutMs startedMs totalSent step
        match it.next with
        | .ret _ => it.events
        | .sent totalSent =>
            it.events ++ fullSendTrace buf size timeoutMs startedMs totalSent steps
      else []

/-- A `Select` directly follows the reading that its `timeval` is left from. -/
def TimedBy (timeoutMs : ℤ) (x y : SendEvent) : Prop :=
  ∀ tvSec tvUsec num, y = .select tvSec tvUsec num →
    ∃ elapsedMs : ℕ, x = .clock elapsedMs ∧ IsTimeval tvSec tvUsec (timeoutMs - elapsedMs)

/-- The events of a loop whose clock has the readings `elapsed`. -/
structure OnTime (timeoutMs : ℤ) (elapsed : List ℤ) (events : List SendEvent) : Prop where
  clocks : events.filterMap SendEvent.elapsed <+: elapsed
  first : ∀ ev ∈ events.head?, ev.IsSend
  selects : events.IsChain (TimedBy timeoutMs)
  sends : events.Pairwise fun x y ↦ x.Late timeoutMs → ¬ y.IsSend

namespace OnTime

variable {timeoutMs : ℤ} {elapsed : List ℤ} {events : List SendEvent}

theorem nil (timeoutMs : ℤ) (elapsed : List ℤ) : OnTime timeoutMs elapsed [] := by
  constructor
  · exact List.nil_prefix
  · simp
  · exact .nil
  · exact .nil

/-- Before a raw send, there is nothing that a `Select` could follow. -/
theorem chain_cons (h : OnTime timeoutMs elapsed events) (ev : SendEvent) :
    (ev :: events).IsChain (TimedBy timeoutMs) := by
  obtain ⟨-, first, selects, -⟩ := h
  cases events with
  | nil => exact .singleton _
  | cons y events =>
      refine List.isChain_cons_cons.mpr ⟨?_, selects⟩
      rintro tvSec tvUsec num rfl
      exact absurd (first _ rfl) id

theorem send (offered : List UInt8) (count : ℤ) :
    OnTime timeoutMs elapsed [.send offered count] := by
  constructor
  · exact List.nil_prefix
  · simp [SendEvent.IsSend]
  · exact .singleton _
  · exact List.pairwise_singleton _ _

theorem late (offered : List UInt8) (count : ℤ) (elapsedMs : ℕ) :
    OnTime timeoutMs (elapsedMs :: elapsed) [.send offered count, .clock elapsedMs] := by
  constructor
  · exact List.prefix_append [(elapsedMs : ℤ)] elapsed
  · simp [SendEvent.IsSend]
  · simp [TimedBy]
  · simp [SendEvent.Late]

theorem progress (h : OnTime timeoutMs elapsed events) (offered : List UInt8) (count : ℤ)
    {elapsedMs : ℕ} (hle : elapsedMs ≤ timeoutMs) :
    OnTime timeoutMs (elapsedMs :: elapsed)
      (.send offered count :: .clock elapsedMs :: events) := by
  constructor
  · exact (List.prefix_cons_inj _).mpr h.clocks
  · simp [SendEvent.IsSend]
  · exact List.isChain_cons_cons.mpr ⟨by simp [TimedBy], h.chain_cons _⟩
  · simpa [SendEvent.Late, hle.not_gt] using h.sends

theorem slept (h : OnTime timeoutMs elapsed events) (offered : List UInt8) (count num : ℤ)
    {tvSec tvUsec : ℤ} {elapsedMs : ℕ} (hle : elapsedMs ≤ timeoutMs)
    (htimeval : IsTimeval tvSec tvUsec (timeoutMs - elapsedMs)) :
    OnTime timeoutMs (elapsedMs :: elapsed)
      (.send offered count :: .clock elapsedMs :: .select tvSec tvUsec num :: events) := by
  constructor
  · exact (List.prefix_cons_inj _).mpr h.clocks
  · simp [SendEvent.IsSend]
  · refine List.isChain_cons_cons.mpr ⟨by simp [TimedBy], ?_⟩
    refine List.isChain_cons_cons.mpr ⟨?_, h.chain_cons _⟩
    rintro _ _ _ ⟨⟩
    exact ⟨elapsedMs, rfl, htimeval⟩
  · simpa [SendEvent.Late, hle.not_gt] using h.sends

end OnTime

section Loop

variable {buf : List UInt8} {size timeoutMs totalSent : ℤ} {startNs : ℕ} {steps : List SendStep}

theorem fullSendLoop_events {startedMs : ℤ} {o : SendOutcome}
    (h : fullSendLoop buf size timeoutMs startedMs totalSent steps = some o) :
    o.events = fullSendTrace buf size timeoutMs startedMs totalSent steps := by
  induction steps generalizing totalSent o with
  | nil =>
      rw [fullSendLoop] at h
      split_ifs at h
      cases h
      rfl
  | cons step steps ih =>
      rw [fullSendLoop] at h
      rw [fullSendTrace]
      split_ifs at h ⊢
      · dsimp only at h ⊢
        cases hnext : (fullSendIter buf size timeoutMs startedMs totalSent step).next with
        | ret value =>
            rw [hnext] at h
            cases h
            rfl
        | sent totalSent' =>
            rw [hnext] at h
            obtain ⟨o', ho', rfl⟩ := Option.map_eq_some_iff.mp h
            dsimp only
            rw [ih ho']
      · cases h
        rfl

/-- What an iteration does under a clock that does not go back. -/
theorem fullSendIter_time_of_fits {step : SendStep} (hpos : 0 < size) (h0 : 0 ≤ timeoutMs)
    (hmax : timeoutMs < 2 ^ 63) (hle : startNs ≤ step.nowNs) (hlt : step.nowNs < 2 ^ 63) :
    ∃ elapsed : ℕ, elapsed = elapsedMs startNs step.nowNs ∧
      IterTime timeoutMs elapsed (fullSendIter buf size timeoutMs
        (toSigned 64 (msElapse startNs 0)) totalSent step) := by
  have heq := msElapse_eq hle hlt
  have hself := Int.ediv_le_self (kNsecsPerMsec : ℤ) (elapsedMs_sub_nonneg hle)
  rw [← elapsedMs, ← heq] at hself
  exact ⟨_, heq, fullSendIter_time hpos h0 hmax (by omega) rfl⟩

theorem fullSendTrace_onTime (hpos : 0 < size) (h0 : 0 ≤ timeoutMs) (hmax : timeoutMs < 2 ^ 63)
    (hfits : ClockFits timeoutMs startNs steps) :
    OnTime timeoutMs (steps.map fun step ↦ elapsedMs startNs step.nowNs)
      (fullSendTrace buf size timeoutMs (toSigned 64 (msElapse startNs 0)) totalSent steps) := by
  induction steps generalizing totalSent with
  | nil => exact .nil _ _
  | cons step steps ih =>
      obtain ⟨hle, hlt, hrest⟩ := hfits
      rw [fullSendTrace, List.map_cons]
      split_ifs
      swap
      · exact .nil _ _
      dsimp only
      obtain ⟨elapsed, heq, htime⟩ := @fullSendIter_time_of_fits buf size timeoutMs totalSent
        startNs step hpos h0 hmax hle hlt
      rw [← heq] at hrest ⊢
      cases htime with
      | untimed offered count value events next ne =>
          rw [next, events]
          exact .send _ _
      | late offered count events next late =>
          rw [next, events]
          exact .late _ _ _
      | progress offered count totalSent events next inTime =>
          rw [next, events]
          exact (ih (hrest inTime)).progress _ _ inTime
      | timedOut offered count tvSec tvUsec events next inTime timeval =>
          rw [next, events]
          exact (OnTime.nil _ _).slept _ _ _ inTime timeval
      | woken offered count tvSec tvUsec num totalSent events next inTime timeval =>
          rw [next, events]
          exact (ih (hrest inTime)).slept _ _ _ inTime timeval

/-- Why a loop has returned `0`. -/
theorem fullSendLoop_zero {o : SendOutcome} (hpos : 0 < size) (h0 : 0 ≤ timeoutMs)
    (hmax : timeoutMs < 2 ^ 63) (hfits : ClockFits timeoutMs startNs steps)
    (h : fullSendLoop buf size timeoutMs (toSigned 64 (msElapse startNs 0)) totalSent steps =
      some o) (hlt : totalSent < size) (hret : o.ret = 0) :
    ∃ ev ∈ o.events, ev.Late timeoutMs ∨ ∃ tvSec tvUsec, ev = .select tvSec tvUsec 0 := by
  induction steps generalizing totalSent o with
  | nil => simp [fullSendLoop, hlt] at h
  | cons step steps ih =>
      obtain ⟨hle, hnow, hrest⟩ := hfits
      rw [fullSendLoop, if_pos hlt] at h
      dsimp only at h
      obtain ⟨elapsed, heq, htime⟩ := @fullSendIter_time_of_fits buf size timeoutMs totalSent
        startNs step hpos h0 hmax hle hnow
      rw [← heq] at hrest
      have hspec := @fullSendIter_spec buf size timeoutMs (toSigned 64 (msElapse startNs 0))
        totalSent step hlt
      cases htime with
      | untimed offered count value events next ne =>
          rw [next] at h
          cases h
          exact absurd hret ne
      | late offered count events next late =>
          rw [next, events] at h
          cases h
          exact ⟨.clock elapsed, by simp, .inl late⟩
      | timedOut offered count tvSec tvUsec events next inTime timeval =>
          rw [next, events] at h
          cases h
          exact ⟨.select tvSec tvUsec 0, by simp, .inr ⟨_, _, rfl⟩⟩
      | progress offered count totalSent' events next inTime
      | woken offered count tvSec tvUsec num totalSent' events next inTime timeval =>
          rw [next] at h
          obtain ⟨o', ho', rfl⟩ := Option.map_eq_some_iff.mp h
          obtain ⟨ev, hev, hwhy⟩ := ih (hrest inTime) ho' (hspec.sent_lt next) hret
          exact ⟨ev, List.mem_append_right _ hev, hwhy⟩

/-- A reading behind the deadline makes the loop return. -/
theorem fullSendLoop_returns (hpos : 0 < size) (h0 : 0 ≤ timeoutMs) (hmax : timeoutMs < 2 ^ 63)
    (hfits : ClockFits timeoutMs startNs steps) (hlt : totalSent < size)
    (hlate : ∃ step ∈ steps, timeoutMs < elapsedMs startNs step.nowNs) :
    ∃ o, fullSendLoop buf size timeoutMs (toSigned 64 (msElapse startNs 0)) totalSent steps =
      some o := by
  induction steps generalizing totalSent with
  | nil => simp at hlate
  | cons step steps ih =>
      obtain ⟨hle, hnow, hrest⟩ := hfits
      rw [fullSendLoop, if_pos hlt]
      dsimp only
      obtain ⟨elapsed, heq, htime⟩ := @fullSendIter_time_of_fits buf size timeoutMs totalSent
        startNs step hpos h0 hmax hle hnow
      simp only [List.mem_cons, exists_eq_or_imp, ← heq] at hlate
      rw [← heq] at hrest
      have hspec := @fullSendIter_spec buf size timeoutMs (toSigned 64 (msElapse startNs 0))
        totalSent step hlt
      cases htime with
      | untimed offered count value events next
      | late offered count events next
      | timedOut offered count tvSec tvUsec events next =>
          rw [next]
          exact ⟨_, rfl⟩
      | progress offered count totalSent' events next inTime
      | woken offered count tvSec tvUsec num totalSent' events next inTime timeval =>
          have hlate' := hlate.resolve_left (by omega)
          obtain ⟨o, ho⟩ := ih (hrest inTime) (hspec.sent_lt next) hlate'
          rw [next]
          dsimp only
          exact ⟨_, by rw [ho, Option.map_some]⟩

end Loop

/-! ## Endless scripts -/

section Stream

variable {timeoutMs : ℤ} {startNs : ℕ} {steps : Stream' SendStep}

theorem clockFits_take (hstart : ∀ i, startNs ≤ (steps.get i).nowNs)
    (hfits : ∀ i, (∀ j < i, elapsedMs startNs (steps.get j).nowNs ≤ timeoutMs) →
      (steps.get i).nowNs < 2 ^ 63) (n : ℕ) : ClockFits timeoutMs startNs (steps.take n) := by
  induction n generalizing steps with
  | zero => trivial
  | succ n ih =>
      rw [Stream'.take_succ]
      refine ⟨hstart 0, hfits 0 (by simp), fun hinTime ↦ ih (fun i ↦ hstart (i + 1)) ?_⟩
      intro i hbefore
      apply hfits (i + 1)
      rintro (- | j) hj
      · exact hinTime
      · exact hbefore j (Nat.lt_of_succ_lt_succ hj)

theorem MonotoneClock.start_le
    (h : MonotoneClock timeoutMs startNs fun i ↦ (steps.get i).nowNs) (i : ℕ) :
    startNs ≤ (steps.get i).nowNs :=
  h.start.trans (h.monotone i.zero_le)

/-- An unbounded clock passes every deadline. -/
theorem exists_late_of_unbounded (timeoutMs : ℤ) (startNs : ℕ)
    (hunbounded : ∀ bound, ∃ i, bound < (steps.get i).nowNs) :
    ∃ i, timeoutMs < elapsedMs startNs (steps.get i).nowNs := by
  obtain ⟨i, hi⟩ := hunbounded (startNs + (timeoutMs.toNat + 1) * kNsecsPerMsec)
  refine ⟨i, Int.lt_of_add_one_le ((Int.le_ediv_iff_mul_le (by decide)).mpr ?_)⟩
  have hle := Nat.div_mul_le_self startNs kNsecsPerMsec
  rw [kNsecsPerMsec] at *
  omega

end Stream

/-- `FullSend` keeps its deadline, whatever the kernel answers. -/
theorem fullSend_keeps_deadline {buf : List UInt8} {size timeoutMs : ℤ} {startNs : ℕ}
    {steps : Stream' SendStep} (hsize : 0 < size) (h0 : 0 ≤ timeoutMs) (hmax : timeoutMs < 2 ^ 63)
    (hclock : MonotoneClock timeoutMs startNs fun i ↦ (steps.get i).nowNs) :
    (∀ i, 0 ≤ ((steps.get i).nowNs : ℤ) - (startNs / kNsecsPerMsec * kNsecsPerMsec : ℕ)) ∧
      (∀ n, OnTime timeoutMs ((steps.take n).map fun step ↦ elapsedMs startNs step.nowNs)
        (fullSendTrace buf size timeoutMs (toSigned 64 (msElapse startNs 0)) 0 (steps.take n))) ∧
      (∀ n o, fullSend buf size timeoutMs ⟨startNs, steps.take n⟩ = some o →
        o.events = fullSendTrace buf size timeoutMs (toSigned 64 (msElapse startNs 0)) 0
          (steps.take n) ∧
        (o.ret = 0 →
          ∃ ev ∈ o.events, ev.Late timeoutMs ∨ ∃ tvSec tvUsec, ev = .select tvSec tvUsec 0)) ∧
      ((∀ bound, ∃ i, bound < (steps.get i).nowNs) →
        ∃ n o, fullSend buf size timeoutMs ⟨startNs, steps.take n⟩ = some o) := by
  refine ⟨fun i ↦ elapsedMs_sub_nonneg (hclock.start_le i), fun n ↦ ?_, fun n o h ↦ ?_, ?_⟩
  · exact fullSendTrace_onTime hsize h0 hmax (clockFits_take hclock.start_le hclock.fits n)
  · refine ⟨fullSendLoop_events h, fun hret ↦ ?_⟩
    exact fullSendLoop_zero hsize h0 hmax (clockFits_take hclock.start_le hclock.fits n) h hsize hret
  · intro hunbounded
    obtain ⟨i, hlate⟩ := exists_late_of_unbounded timeoutMs startNs hunbounded
    have hmem : steps.get i ∈ steps.take (i + 1) := by
      rw [Stream'.take_succ']
      exact List.mem_append_right _ (List.mem_singleton_self _)
    exact ⟨i + 1, fullSendLoop_returns hsize h0 hmax (clockFits_take hclock.start_le hclock.fits _) hsize ⟨_, hmem, hlate⟩⟩

/-- A kernel that says that it has space, and never has: the clock advances
by a second in each iteration. -/
def neverSpace : Stream' SendStep := fun i ↦
  ⟨fun n ↦ ⟨-1, SendStep.neg_one_le n⟩, eagain, i * 1000000000, 1⟩

theorem neverSpace_clock : MonotoneClock 5 0 fun i ↦ (neverSpace.get i).nowNs := by
  refine ⟨le_rfl, fun i j hij ↦ Nat.mul_le_mul_right _ hij, fun i hbefore ↦ ?_⟩
  rcases i with - | - | i
  · decide
  · decide
  · exact absurd (hbefore 1 (by omega)) (by decide)

theorem fullSend_keeps_deadline_neverSpace :
    OnTime 5 [0, 1000] [.send [7] (-1), .clock 0, .select 0 5000 1, .send [7] (-1), .clock 1000] ∧
      ∃ n o, fullSend [7] 1 5 ⟨0, neverSpace.take n⟩ = some o := by
  obtain ⟨-, hontime, -, hreturns⟩ := @fullSend_keeps_deadline [7] 1 5 0 neverSpace (by decide)
    (by decide) (by decide) neverSpace_clock
  refine ⟨hontime 2, hreturns fun bound ↦ ⟨bound + 1, ?_⟩⟩
  show bound < (bound + 1) * 1000000000
  omega

end Libgep
