import Mathlib.Data.List.Basic

/-!
# Incremental stream parsers

A parser looks at the head of the input it holds and waits for more, fails,
or emits some items and keeps a strictly shorter rest.  A verdict other than
waiting must survive the arrival of more input; this single stability law is
what makes the parsed items independent of how the input was cut.
-/

namespace StreamParser

variable {α β : Type*}

inductive Verdict (α β : Type*) where
  | wait
  | fail
  | emit (out : List β) (rest : List α)

/-- The same verdict on an input with `ys` behind it. -/
def Verdict.extend (ys : List α) : Verdict α β → Verdict α β
  | .wait => .wait
  | .fail => .fail
  | .emit out rest => .emit out (rest ++ ys)

@[simp] theorem Verdict.extend_fail (ys : List α) :
    (Verdict.fail : Verdict α β).extend ys = .fail := rfl

@[simp] theorem Verdict.extend_emit (ys : List α) (out : List β) (rest : List α) :
    (Verdict.emit out rest).extend ys = .emit out (rest ++ ys) := rfl

/-- A look whose emissions make progress and whose verdicts are stable. -/
structure Parser (α β : Type*) where
  look : List α → Verdict α β
  shrinks : ∀ {xs out rest}, look xs = .emit out rest → rest.length < xs.length
  stable : ∀ {xs}, look xs ≠ .wait → ∀ ys, look (xs ++ ys) = (look xs).extend ys

theorem Parser.fail_append (p : Parser α β) {xs : List α} (h : p.look xs = .fail)
    (ys : List α) : p.look (xs ++ ys) = .fail := by
  rw [p.stable (by simp [h]), h, Verdict.extend_fail]

theorem Parser.emit_append (p : Parser α β) {xs rest : List α} {out : List β}
    (h : p.look xs = .emit out rest) (ys : List α) :
    p.look (xs ++ ys) = .emit out (rest ++ ys) := by
  rw [p.stable (by simp [h]), h, Verdict.extend_emit]

/-- The items of a parse and the input it keeps, `none` once it has failed. -/
@[ext]
structure Outcome (α β : Type*) where
  out : List β
  left : Option (List α)

def Outcome.after (out : List β) (o : Outcome α β) : Outcome α β :=
  ⟨out ++ o.out, o.left⟩

@[simp] theorem Outcome.after_nil (o : Outcome α β) : o.after [] = o := rfl

@[simp] theorem Outcome.after_after (xs ys : List β) (o : Outcome α β) :
    (o.after ys).after xs = o.after (xs ++ ys) := by
  simp [Outcome.after]

@[simp] theorem Outcome.after_out (out : List β) (o : Outcome α β) :
    (o.after out).out = out ++ o.out := rfl

@[simp] theorem Outcome.after_left (out : List β) (o : Outcome α β) :
    (o.after out).left = o.left := rfl

def runFuel (p : Parser α β) : ℕ → List α → Outcome α β
  | 0, xs => ⟨[], some xs⟩
  | n + 1, xs =>
      match p.look xs with
      | .wait => ⟨[], some xs⟩
      | .fail => ⟨[], none⟩
      | .emit out rest => (runFuel p n rest).after out

def run (p : Parser α β) (xs : List α) : Outcome α β :=
  runFuel p (xs.length + 1) xs

theorem runFuel_congr (p : Parser α β) {n m : ℕ} {xs : List α}
    (hn : xs.length < n) (hm : xs.length < m) : runFuel p n xs = runFuel p m xs := by
  induction n generalizing m xs with
  | zero => omega
  | succ n ih =>
      obtain ⟨m, rfl⟩ : ∃ k, m = k + 1 := ⟨m - 1, by omega⟩
      simp only [runFuel]
      cases hl : p.look xs with
      | wait => rfl
      | fail => rfl
      | emit out rest =>
          have hlt := p.shrinks hl
          simp only
          rw [ih (by omega) (show rest.length < m by omega)]

theorem run_wait (p : Parser α β) {xs : List α} (h : p.look xs = .wait) :
    run p xs = ⟨[], some xs⟩ := by
  simp [run, runFuel, h]

theorem run_fail (p : Parser α β) {xs : List α} (h : p.look xs = .fail) :
    run p xs = ⟨[], none⟩ := by
  simp [run, runFuel, h]

theorem run_emit (p : Parser α β) {xs rest : List α} {out : List β}
    (h : p.look xs = .emit out rest) : run p xs = (run p rest).after out := by
  have hlt := p.shrinks h
  calc
    run p xs = (runFuel p xs.length rest).after out := by simp only [run, runFuel, h]
    _ = (run p rest).after out := by
      rw [run, runFuel_congr p hlt (Nat.lt_succ_self _)]

theorem look_left (p : Parser α β) {xs left : List α} (h : (run p xs).left = some left) :
    p.look left = .wait := by
  induction hn : xs.length using Nat.strongRecOn generalizing xs with
  | ind n ih =>
      subst hn
      cases hl : p.look xs with
      | wait =>
          rw [run_wait p hl] at h
          simpa [← Option.some.inj h] using hl
      | fail =>
          rw [run_fail p hl] at h
          simp at h
      | emit out rest =>
          rw [run_emit p hl] at h
          exact ih _ (p.shrinks hl) h rfl

theorem left_length_le (p : Parser α β) {xs left : List α} (h : (run p xs).left = some left) :
    left.length ≤ xs.length := by
  induction hn : xs.length using Nat.strongRecOn generalizing xs with
  | ind n ih =>
      subst hn
      cases hl : p.look xs with
      | wait =>
          rw [run_wait p hl] at h
          cases h
          exact Nat.le_refl _
      | fail =>
          rw [run_fail p hl] at h
          cases h
      | emit out rest =>
          rw [run_emit p hl] at h
          exact Nat.le_trans (ih _ (p.shrinks hl) h rfl) (Nat.le_of_lt (p.shrinks hl))

/-- Go on with more input from where an outcome stopped. -/
def resume (p : Parser α β) (o : Outcome α β) (ys : List α) : Outcome α β :=
  match o.left with
  | none => o
  | some left => (run p (left ++ ys)).after o.out

theorem resume_after (p : Parser α β) (out : List β) (o : Outcome α β) (ys : List α) :
    resume p (o.after out) ys = (resume p o ys).after out := by
  cases h : o.left <;> simp [resume, h]

/-- Parsing `xs ++ ys` is parsing `xs` and going on with `ys`. -/
theorem run_append (p : Parser α β) (xs ys : List α) :
    run p (xs ++ ys) = resume p (run p xs) ys := by
  induction hn : xs.length using Nat.strongRecOn generalizing xs with
  | ind n ih =>
      subst hn
      cases hl : p.look xs with
      | wait => simp [run_wait p hl, resume]
      | fail => rw [run_fail p hl, run_fail p (p.fail_append hl ys), resume]
      | emit out rest =>
          rw [run_emit p hl, run_emit p (p.emit_append hl ys), resume_after,
            ih _ (p.shrinks hl) rest rfl]

theorem run_append_of_failed (p : Parser α β) {xs : List α} (h : (run p xs).left = none)
    (ys : List α) : run p (xs ++ ys) = run p xs := by
  rw [run_append, resume, h]

/-- What has been parsed of a stream stays when more of it arrives. -/
theorem run_out_prefix (p : Parser α β) {xs ys : List α} (h : xs <+: ys) :
    (run p xs).out <+: (run p ys).out := by
  obtain ⟨zs, rfl⟩ := h
  rw [run_append, resume]
  split
  · exact List.prefix_rfl
  · rw [Outcome.after_out]
    exact List.prefix_append _ _

/-- A parse that waits goes on from the input it kept. -/
theorem run_append_of_waiting (p : Parser α β) {xs left : List α}
    (h : (run p xs).left = some left) (ys : List α) :
    run p (xs ++ ys) = (run p (left ++ ys)).after (run p xs).out := by
  rw [run_append, resume, h]

end StreamParser
