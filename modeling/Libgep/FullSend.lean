import Libgep.Lib.CInt
import Mathlib.Data.List.TakeDrop

/-!
# Sending a buffer before a deadline

`SocketInterface::FullSend` offers the rest of a buffer to the kernel again
and again, until it has all been accepted, an error occurs, or the timeout
has passed.  What the kernel and the clock answer is a script, one entry for
each iteration of the loop.
-/

namespace Libgep

open CInt

/-! ## The environment -/

def eintr : ℕ := 4
def ebadf : ℕ := 9
def eagain : ℕ := 11
def ewouldblock : ℕ := eagain

def kNsecsPerMsec : ℕ := 1000000

/-- `TimeManager::ms_elapse` at the clock reading `nowNs`, in 64-bit unsigned
arithmetic. -/
def msElapse (nowNs startTimeMs : ℕ) : ℕ :=
  toUnsigned 64 (nowNs - startTimeMs * kNsecsPerMsec) / kNsecsPerMsec

/-- The answers during one iteration: the result of `Send` when so many bytes
are offered, never more than that, and `errno`; the clock, if it is read; the
result of `Select`, if it is reached. -/
structure SendStep where
  count : (offered : ℕ) → {n : ℤ // n ≤ offered}
  errno : ℕ
  nowNs : ℕ
  select : ℤ

/-- A send that fails is within the bound. -/
theorem SendStep.neg_one_le (offered : ℕ) : (-1 : ℤ) ≤ offered := by omega

/-- The answers during one call: the clock when it starts, and one entry for
each iteration until it returns. -/
structure FullSendEnv where
  startNs : ℕ
  steps : List SendStep

inductive SendEvent where
  | send (offered : List UInt8) (count : ℤ)
  | clock (elapsedMs : ℕ)
  | select (tvSec tvUsec num : ℤ)
  deriving DecidableEq

structure SendOutcome where
  ret : ℤ
  accepted : List UInt8
  events : List SendEvent

/-! ## The loop -/

inductive SendProgress where
  | sent (totalSent : ℤ)
  | ret (value : ℤ)
  deriving DecidableEq

structure SendIteration where
  next : SendProgress
  accepted : List UInt8
  events : List SendEvent

def fullSendIter (buf : List UInt8) (size timeoutMs startedMs totalSent : ℤ)
    (step : SendStep) : SendIteration :=
  let offered := (buf.drop totalSent.toNat).take (size - totalSent).toNat
  let count := (step.count (size - totalSent).toNat).1
  let accepted := offered.take count.toNat
  let send := .send offered count
  let elapsed := msElapse step.nowNs (toUnsigned 64 startedMs)
  if 0 < count then
    let totalSent := totalSent + count
    if size ≤ totalSent then ⟨.ret totalSent, accepted, [send]⟩
    else if toUnsigned 64 timeoutMs < elapsed then ⟨.ret 0, accepted, [send, .clock elapsed]⟩
    else ⟨.sent totalSent, accepted, [send, .clock elapsed]⟩
  else if count = 0 then ⟨.ret (-2), accepted, [send]⟩
  else if step.errno ≠ eagain ∧ step.errno ≠ ewouldblock then ⟨.ret (-1), accepted, [send]⟩
  else
    let sleeptimeMs := toSigned 64 (timeoutMs - elapsed)
    if sleeptimeMs < 0 then ⟨.ret 0, accepted, [send, .clock elapsed]⟩
    else
      let select := .select (sleeptimeMs / 1000) (sleeptimeMs % 1000 * 1000) step.select
      if step.select = 0 then ⟨.ret 0, accepted, [send, .clock elapsed, select]⟩
      else ⟨.sent totalSent, accepted, [send, .clock elapsed, select]⟩

/-- The loop of `FullSend`; `none` while the script has not made it return. -/
def fullSendLoop (buf : List UInt8) (size timeoutMs startedMs : ℤ) :
    ℤ → List SendStep → Option SendOutcome
  | totalSent, [] => if totalSent < size then none else some ⟨totalSent, [], []⟩
  | totalSent, step :: steps =>
      if totalSent < size then
        let it := fullSendIter buf size timeoutMs startedMs totalSent step
        match it.next with
        | .ret value => some ⟨value, it.accepted, it.events⟩
        | .sent totalSent =>
            (fullSendLoop buf size timeoutMs startedMs totalSent steps).map fun o ↦
              ⟨o.ret, it.accepted ++ o.accepted, it.events ++ o.events⟩
      else some ⟨totalSent, [], []⟩

/-- `FullSend` on the first `size` bytes of `buf`, for a descriptor below
`FD_SETSIZE`: `FD_SET` has no room for others. -/
def fullSend (buf : List UInt8) (size timeoutMs : ℤ) (env : FullSendEnv) :
    Option SendOutcome :=
  fullSendLoop buf size timeoutMs (toSigned 64 (msElapse env.startNs 0)) 0 env.steps

/-! ## What a call puts on the wire -/

section Iteration

variable {buf : List UInt8} {size timeoutMs startedMs totalSent : ℤ} {step : SendStep}

/-- How one iteration moves on through the buffer: it accepts `n` more bytes,
and it returns the size exactly when these were the last. -/
inductive IterSpec (buf : List UInt8) (size totalSent : ℤ) (it : SendIteration) : Prop where
  | more (n : ℕ) (next : it.next = .sent (totalSent + n)) (lt : totalSent + n < size)
      (accepted : it.accepted = (buf.drop totalSent.toNat).take n)
  | done (n : ℕ) (next : it.next = .ret size) (eq : totalSent + n = size)
      (accepted : it.accepted = (buf.drop totalSent.toNat).take n)
  | stop (n : ℕ) (value : ℤ) (next : it.next = .ret value) (neg : value ≤ 0)
      (ge : -2 ≤ value) (lt : totalSent + n < size)
      (accepted : it.accepted = (buf.drop totalSent.toNat).take n)

theorem fullSendIter_spec (hlt : totalSent < size) :
    IterSpec buf size totalSent
      (fullSendIter buf size timeoutMs startedMs totalSent step) := by
  have hcount := (step.count (size - totalSent).toNat).2
  unfold fullSendIter
  dsimp only
  generalize (step.count (size - totalSent).toNat).1 = count at hcount ⊢
  generalize msElapse step.nowNs (toUnsigned 64 startedMs) = elapsed
  have htake : ((buf.drop totalSent.toNat).take (size - totalSent).toNat).take count.toNat =
      (buf.drop totalSent.toNat).take count.toNat := by
    rw [List.take_take, min_eq_left (by omega)]
  rw [htake]
  split_ifs with h1 h2 h3 h4 h5 h6 h7
  · have hsize : totalSent + count = size := by omega
    exact .done count.toNat (by rw [hsize]) (by omega) rfl
  · exact .stop count.toNat 0 rfl (by omega) (by omega) (by omega) rfl
  · exact .more count.toNat (by rw [Int.toNat_of_nonneg h1.le]) (by omega) rfl
  · exact .stop count.toNat _ rfl (by omega) (by omega) (by omega) rfl
  · exact .stop count.toNat _ rfl (by omega) (by omega) (by omega) rfl
  · exact .stop count.toNat _ rfl (by omega) (by omega) (by omega) rfl
  · exact .stop count.toNat _ rfl (by omega) (by omega) (by omega) rfl
  · refine .more count.toNat ?_ (by omega) rfl
    rw [Int.toNat_of_nonpos (by omega)]
    simp

theorem IterSpec.sent_lt {it : SendIteration} (h : IterSpec buf size totalSent it)
    {totalSent' : ℤ} (hnext : it.next = .sent totalSent') : totalSent' < size := by
  cases h with
  | more n next lt =>
      cases next.symm.trans hnext
      exact lt
  | done n next => cases next.symm.trans hnext
  | stop n value next => cases next.symm.trans hnext

end Iteration

/-- What a call that returned has put on the wire: a prefix of the buffer,
the whole of it exactly when the size is returned. -/
structure SendSpec (buf : List UInt8) (size : ℤ) (o : SendOutcome) : Prop where
  ret : o.ret = size ∨ -2 ≤ o.ret ∧ o.ret ≤ 0
  accepted : ∃ n : ℕ, n ≤ size ∧ o.accepted = buf.take n ∧ (o.ret = size ↔ n = size)

theorem fullSendLoop_spec {buf : List UInt8} {size timeoutMs startedMs totalSent : ℤ}
    {steps : List SendStep} {o : SendOutcome} (h0 : 0 ≤ totalSent) (hlt : totalSent < size)
    (h : fullSendLoop buf size timeoutMs startedMs totalSent steps = some o) :
    (o.ret = size ∨ -2 ≤ o.ret ∧ o.ret ≤ 0) ∧
      ∃ n : ℕ, totalSent + n ≤ size ∧ o.accepted = (buf.drop totalSent.toNat).take n ∧
        (o.ret = size ↔ totalSent + n = size) := by
  induction steps generalizing totalSent o with
  | nil => simp [fullSendLoop, hlt] at h
  | cons step steps ih =>
      rw [fullSendLoop, if_pos hlt] at h
      dsimp only at h
      cases @fullSendIter_spec buf size timeoutMs startedMs totalSent step hlt with
      | more n next lt accepted =>
          rw [next] at h
          obtain ⟨o', ho', rfl⟩ := Option.map_eq_some_iff.mp h
          obtain ⟨hret, m, hle, haccepted, hiff⟩ := ih (by omega) lt ho'
          refine ⟨hret, n + m, by push_cast; omega, ?_, by push_cast; omega⟩
          have hdrop : (totalSent + n).toNat = totalSent.toNat + n := by omega
          dsimp only
          rw [accepted, haccepted, hdrop, ← List.drop_drop, List.take_add]
      | done n next eq accepted =>
          rw [next] at h
          cases h
          exact ⟨.inl rfl, n, eq.le, accepted, by simp [eq]⟩
      | stop n value next neg ge lt accepted =>
          rw [next] at h
          cases h
          exact ⟨.inr ⟨ge, neg⟩, n, lt.le, accepted, by dsimp only; omega⟩

theorem fullSend_spec {buf : List UInt8} {size timeoutMs : ℤ} {env : FullSendEnv}
    {o : SendOutcome} (hsize : 0 < size) (h : fullSend buf size timeoutMs env = some o) :
    SendSpec buf size o := by
  obtain ⟨hret, n, hle, haccepted, hiff⟩ := fullSendLoop_spec le_rfl hsize h
  exact ⟨hret, n, by omega, by simpa using haccepted, by omega⟩

theorem SendSpec.accepted_iff {buf : List UInt8} {size : ℤ} {o : SendOutcome}
    (h : SendSpec buf size o) (hle : size ≤ buf.length) :
    o.accepted <+: buf.take size.toNat ∧ (o.ret = size ↔ o.accepted = buf.take size.toNat) := by
  obtain ⟨n, hn, haccepted, hiff⟩ := h.accepted
  have hprefix : buf.take n <+: buf.take size.toNat := by
    refine ⟨(buf.take size.toNat).drop n, ?_⟩
    rw [List.drop_take, ← List.take_add]
    congr 1
    omega
  refine ⟨haccepted ▸ hprefix, hiff.trans ⟨?_, ?_⟩⟩
  · intro hsize
    rw [haccepted, ← hsize, Int.toNat_natCast]
  · intro heq
    have hlen := congrArg List.length (haccepted.symm.trans heq)
    rw [List.length_take, List.length_take] at hlen
    omega

/-! ## Sends that do not fail -/

/-- The script splits `n` offered bytes into positive counts, and the clock
never passes the timeout before the last of them. -/
def SplitsInTime (timeoutMs startedMs : ℤ) : ℤ → List SendStep → Prop
  | n, [] => n = 0
  | n, step :: steps =>
      0 < n ∧ 0 < (step.count n.toNat).1 ∧
        ((step.count n.toNat).1 < n →
          msElapse step.nowNs (toUnsigned 64 startedMs) ≤ toUnsigned 64 timeoutMs) ∧
        SplitsInTime timeoutMs startedMs (n - (step.count n.toNat).1) steps

def FullSendEnv.Succeeds (timeoutMs size : ℤ) (env : FullSendEnv) : Prop :=
  SplitsInTime timeoutMs (toSigned 64 (msElapse env.startNs 0)) size env.steps

theorem fullSendLoop_of_splitsInTime {buf : List UInt8} {size timeoutMs startedMs totalSent : ℤ}
    {steps : List SendStep} (h0 : 0 ≤ totalSent)
    (h : SplitsInTime timeoutMs startedMs (size - totalSent) steps) :
    ∃ o, fullSendLoop buf size timeoutMs startedMs totalSent steps = some o ∧ o.ret = size := by
  induction steps generalizing totalSent with
  | nil =>
      have heq : totalSent = size := by
        have hzero : size - totalSent = 0 := h
        omega
      exact ⟨_, by rw [fullSendLoop, if_neg (by omega)], heq⟩
  | cons step steps ih =>
      obtain ⟨hpos, hcount, htime, hrest⟩ := h
      have hbound := (step.count (size - totalSent).toNat).2
      rw [fullSendLoop, if_pos (by omega)]
      unfold fullSendIter
      dsimp only
      generalize (step.count (size - totalSent).toNat).1 = count at *
      rw [if_pos hcount]
      by_cases hlast : size ≤ totalSent + count
      · rw [if_pos hlast]
        exact ⟨_, rfl, show totalSent + count = size by omega⟩
      · have helapsed := htime (by omega)
        have hnext : 0 ≤ totalSent + count := by omega
        obtain ⟨o, ho, hret⟩ := ih hnext (by rwa [← Int.sub_sub])
        rw [if_neg hlast, if_neg (by omega)]
        dsimp only
        refine ⟨_, by rw [ho, Option.map_some], ?_⟩
        exact hret

def SendStep.acceptAll : SendStep := ⟨fun offered ↦ ⟨offered, le_rfl⟩, 0, 0, 1⟩

def FullSendEnv.acceptAll : FullSendEnv := ⟨0, [.acceptAll]⟩

theorem FullSendEnv.acceptAll_succeeds (timeoutMs : ℤ) {size : ℤ} (h : 0 < size) :
    FullSendEnv.acceptAll.Succeeds timeoutMs size := by
  have hcount : ((SendStep.acceptAll.count size.toNat).1 : ℤ) = size := Int.toNat_of_nonneg h.le
  refine ⟨h, by omega, fun hlt ↦ by omega, ?_⟩
  rw [hcount]
  exact Int.sub_self size

theorem fullSend_of_succeeds (buf : List UInt8) {size timeoutMs : ℤ} {env : FullSendEnv}
    (h : env.Succeeds timeoutMs size) :
    ∃ o, fullSend buf size timeoutMs env = some o ∧ o.ret = size :=
  fullSendLoop_of_splitsInTime le_rfl (by rwa [Int.sub_zero])

end Libgep
