import Libgep.Lib.Transition
import Mathlib.Logic.Function.Basic
import Mathlib.Logic.Relation
import Mathlib.Order.Defs.PartialOrder

/-!
# Programs that take locks

Threads run programs that take and release locks, some of which their owner
may take once more, and that call code from outside.  Where all programs take
the locks in one order, no threads wait for each other.
-/

namespace LockOrder

open Transition

variable {ι Lock Code : Type*} [DecidableEq Lock]

/-! ## Programs -/

inductive Act (Lock Code : Type*) where
  | acquire (l : Lock)
  | release (l : Lock)
  | call (code : Code)

/-- The locks held after an act. -/
def Act.after (held : List Lock) : Act Lock Code → List Lock
  | .acquire l => l :: held
  | .release l => held.erase l
  | .call _ => held

def heldAfter : List Lock → List (Act Lock Code) → List Lock
  | held, [] => held
  | held, act :: acts => heldAfter (act.after held) acts

/-- Every act of a program meets `P`, with the locks held before it. -/
def Meets (P : List Lock → Act Lock Code → Prop) : List Lock → List (Act Lock Code) → Prop
  | _, [] => True
  | held, act :: acts => P held act ∧ Meets P (act.after held) acts

/-- A program that releases what it takes. -/
def Releases (acts : List (Act Lock Code)) : Prop := ∀ held, heldAfter held acts = held

/-- A program that holds a lock. -/
def critical (l : Lock) (acts : List (Act Lock Code)) : List (Act Lock Code) :=
  .acquire l :: (acts ++ [.release l])

section Programs

variable {P Q : List Lock → Act Lock Code → Prop} {held : List Lock} {l : Lock}
  {acts acts' : List (Act Lock Code)}

theorem heldAfter_append :
    heldAfter held (acts ++ acts') = heldAfter (heldAfter held acts) acts' := by
  induction acts generalizing held with
  | nil => rfl
  | cons act acts ih => exact ih

theorem meets_append :
    Meets P held (acts ++ acts') ↔ Meets P held acts ∧ Meets P (heldAfter held acts) acts' := by
  induction acts generalizing held with
  | nil => simp [Meets, heldAfter]
  | cons act acts ih => simp only [List.cons_append, Meets, heldAfter, ih, and_assoc]

theorem Meets.and (h : Meets P held acts) (h' : Meets Q held acts) :
    Meets (fun held act ↦ P held act ∧ Q held act) held acts := by
  induction acts generalizing held with
  | nil => trivial
  | cons act acts ih => exact ⟨⟨h.1, h'.1⟩, ih h.2 h'.2⟩

theorem Meets.of_mem (h : Meets P held acts) {act : Act Lock Code} (hmem : act ∈ acts) :
    ∃ held', P held' act := by
  induction acts generalizing held with
  | nil => cases hmem
  | cons act' acts ih =>
      rcases List.mem_cons.mp hmem with rfl | hmem
      · exact ⟨held, h.1⟩
      · exact ih h.2 hmem

/-- Code from outside is called with locks that `Q` allows. -/
def CallsWith (Q : Code → List Lock → Prop) (held : List Lock) : Act Lock Code → Prop
  | .call code => Q code held
  | _ => True

theorem meets_of_noCalls {Q : Code → List Lock → Prop} (h : ∀ code, .call code ∉ acts) :
    Meets (CallsWith Q) held acts := by
  induction acts generalizing held with
  | nil => trivial
  | cons act acts ih =>
      refine ⟨?_, ih fun code hmem ↦ h code (List.mem_cons_of_mem _ hmem)⟩
      cases act with
      | call code => exact absurd List.mem_cons_self (h code)
      | _ => trivial

theorem releases_nil : Releases ([] : List (Act Lock Code)) := fun _ ↦ rfl

theorem releases_call (code : Code) : Releases ([.call code] : List (Act Lock Code)) :=
  fun _ ↦ rfl

theorem Releases.append (h : Releases acts) (h' : Releases acts') : Releases (acts ++ acts') := by
  intro held
  rw [heldAfter_append, h, h']

theorem Releases.critical (h : Releases acts) (l : Lock) : Releases (critical l acts) := by
  intro held
  change heldAfter (l :: held) (acts ++ [.release l]) = held
  rw [heldAfter_append, h]
  exact List.erase_cons_head ..

theorem releases_flatMap {α : Type*} {f : α → List (Act Lock Code)} (h : ∀ x, Releases (f x))
    (xs : List α) : Releases (xs.flatMap f) := by
  induction xs with
  | nil => exact releases_nil
  | cons x xs ih =>
      rw [List.flatMap_cons]
      exact (h x).append ih

theorem meets_flatMap {α : Type*} {f : α → List (Act Lock Code)} (hreleases : ∀ x, Releases (f x))
    {xs : List α} (h : ∀ x ∈ xs, Meets P held (f x)) : Meets P held (xs.flatMap f) := by
  induction xs with
  | nil => trivial
  | cons x xs ih =>
      obtain ⟨hx, hxs⟩ := List.forall_mem_cons.mp h
      rw [List.flatMap_cons, meets_append, hreleases x]
      exact ⟨hx, ih hxs⟩

theorem meets_critical (hreleases : Releases acts) :
    Meets P held (critical l acts) ↔
      P held (.acquire l) ∧ Meets P (l :: held) acts ∧ P (l :: held) (.release l) := by
  change P held (.acquire l) ∧ Meets P (l :: held) (acts ++ [.release l]) ↔ _
  rw [meets_append, hreleases]
  simp [Meets]

end Programs

/-! ## The machine -/

structure Thread (Lock Code : Type*) where
  todo : List (Act Lock Code)
  held : List Lock

structure State (ι Lock Code : Type*) where
  threads : ι → Thread Lock Code
  owner : Lock → Option ι

inductive Label (ι Lock Code : Type*) where
  /-- A thread that is idle starts a program. -/
  | start (i : ι) (acts : List (Act Lock Code))
  | step (i : ι)

/-- A call of code from outside, with the locks that are held. -/
structure Call (ι Lock Code : Type*) where
  thread : ι
  code : Code
  held : List Lock
  deriving DecidableEq

section Machine

variable [DecidableEq ι] (recursive : Lock → Bool)

def State.setThread (s : State ι Lock Code) (i : ι) (thread : Thread Lock Code) :
    State ι Lock Code :=
  { s with threads := Function.update s.threads i thread }

/-- The first act of a thread that has `acts` to do after it. -/
def State.perform (s : State ι Lock Code) (i : ι) (act : Act Lock Code)
    (acts : List (Act Lock Code)) : Option (State ι Lock Code × List (Call ι Lock Code)) :=
  let held := (s.threads i).held
  let next := s.setThread i ⟨acts, act.after held⟩
  match act with
  | .acquire l =>
      if s.owner l = none ∨ (s.owner l = some i ∧ recursive l = true) then
        some ({ next with owner := Function.update s.owner l (some i) }, [])
      else none
  | .release l =>
      if s.owner l = some i then
        let owner := if l ∈ held.erase l then s.owner else Function.update s.owner l none
        some ({ next with owner := owner }, [])
      else none
  | .call code => some (next, [⟨i, code, held⟩])

def step (s : State ι Lock Code) :
    Label ι Lock Code → Option (State ι Lock Code × List (Call ι Lock Code))
  | .start i acts =>
      match (s.threads i).todo with
      | [] => some (s.setThread i ⟨acts, (s.threads i).held⟩, [])
      | _ :: _ => none
  | .step i =>
      match (s.threads i).todo with
      | [] => none
      | act :: acts => s.perform recursive i act acts

def machine : Machine (State ι Lock Code) (Label ι Lock Code) (Call ι Lock Code) :=
  ⟨⟨fun _ ↦ ⟨[], []⟩, fun _ ↦ none⟩, step recursive⟩

inductive Step (s : State ι Lock Code) :
    Label ι Lock Code → State ι Lock Code → List (Call ι Lock Code) → Prop where
  | start (i : ι) (acts : List (Act Lock Code)) (htodo : (s.threads i).todo = []) :
      Step s (.start i acts) (s.setThread i ⟨acts, (s.threads i).held⟩) []
  | acquire (i : ι) (l : Lock) (acts : List (Act Lock Code))
      (htodo : (s.threads i).todo = .acquire l :: acts)
      (hfree : s.owner l = none ∨ (s.owner l = some i ∧ recursive l = true)) :
      Step s (.step i) { s.setThread i ⟨acts, l :: (s.threads i).held⟩ with
        owner := Function.update s.owner l (some i) } []
  | release (i : ι) (l : Lock) (acts : List (Act Lock Code))
      (htodo : (s.threads i).todo = .release l :: acts) (howner : s.owner l = some i) :
      Step s (.step i) { s.setThread i ⟨acts, (s.threads i).held.erase l⟩ with
        owner := if l ∈ (s.threads i).held.erase l then s.owner
          else Function.update s.owner l none } []
  | call (i : ι) (code : Code) (acts : List (Act Lock Code))
      (htodo : (s.threads i).todo = .call code :: acts) :
      Step s (.step i) (s.setThread i ⟨acts, (s.threads i).held⟩)
        [⟨i, code, (s.threads i).held⟩]

variable {recursive}

theorem step_spec {s s' : State ι Lock Code} {l : Label ι Lock Code}
    {es : List (Call ι Lock Code)} (h : step recursive s l = some (s', es)) :
    Step recursive s l s' es := by
  cases l with
  | start i acts =>
      simp only [step] at h
      split at h <;> cases h
      exact .start i acts ‹_›
  | step i =>
      simp only [step] at h
      cases htodo : (s.threads i).todo with
      | nil =>
          rw [htodo] at h
          cases h
      | cons act acts =>
          rw [htodo] at h
          cases act with
          | acquire l =>
              simp only [State.perform] at h
              split_ifs at h with hfree
              cases h
              exact .acquire i l acts htodo hfree
          | release l =>
              simp only [State.perform] at h
              split_ifs at h with howner hmem
              · cases h
                simpa [hmem, Act.after] using Step.release i l acts htodo howner
              · cases h
                simpa [hmem, Act.after] using Step.release i l acts htodo howner
          | call code =>
              cases h
              exact .call i code acts htodo

/-! ## The invariant -/

/-- What a thread still does meets `P`, and leaves it without a lock. -/
def Thread.Meets (P : List Lock → Act Lock Code → Prop) (t : Thread Lock Code) : Prop :=
  LockOrder.Meets P t.held t.todo ∧ heldAfter t.held t.todo = []

/-- The owner of a lock is the thread that holds it, and all threads meet `P`. -/
structure Sound (P : List Lock → Act Lock Code → Prop) (s : State ι Lock Code) : Prop where
  owned : ∀ l i, s.owner l = some i ↔ l ∈ (s.threads i).held
  meets : ∀ i, (s.threads i).Meets P

/-- Only programs that meet `P` are started. -/
def Starts (P : List Lock → Act Lock Code → Prop) : Label ι Lock Code → Prop
  | .start _ acts => Meets P [] acts ∧ Releases acts
  | .step _ => True

variable {P : List Lock → Act Lock Code → Prop} {s s' : State ι Lock Code}

omit [DecidableEq ι] in
/-- The first act of a thread, and the rest of its program. -/
theorem Sound.first (h : Sound P s) {i : ι} {act : Act Lock Code} {acts : List (Act Lock Code)}
    (htodo : (s.threads i).todo = act :: acts) :
    P (s.threads i).held act ∧ Thread.Meets P ⟨acts, act.after (s.threads i).held⟩ := by
  obtain ⟨hmeets, hreleases⟩ := h.meets i
  rw [htodo] at hmeets hreleases
  exact ⟨hmeets.1, hmeets.2, hreleases⟩

/-- A thread does something, and no other thread does. -/
theorem Sound.update (h : Sound P s) {i : ι} {t : Thread Lock Code} (ht : t.Meets P)
    {owner : Lock → Option ι} (hself : ∀ l, owner l = some i ↔ l ∈ t.held)
    (hothers : ∀ l j, j ≠ i → (owner l = some j ↔ s.owner l = some j)) :
    Sound P { s.setThread i t with owner := owner } := by
  refine ⟨fun l j ↦ ?_, fun j ↦ ?_⟩
  · by_cases hj : j = i
    · subst hj
      simpa [State.setThread] using hself l
    · simpa [State.setThread, Function.update_of_ne hj, h.owned] using hothers l j hj
  · by_cases hj : j = i
    · subst hj
      simpa [State.setThread] using ht
    · simpa [State.setThread, Function.update_of_ne hj] using h.meets j

theorem Sound.step {l : Label ι Lock Code} {es : List (Call ι Lock Code)} (h : Sound P s)
    (hl : Starts P l) (hstep : step recursive s l = some (s', es)) : Sound P s' := by
  cases step_spec hstep with
  | start i acts htodo =>
      have hheld : (s.threads i).held = [] := by
        have hreleases := (h.meets i).2
        rwa [htodo] at hreleases
      refine h.update ⟨?_, ?_⟩ (h.owned · i) fun _ _ _ ↦ Iff.rfl
      · rw [hheld]
        exact hl.1
      · rw [hheld]
        exact hl.2 []
  | acquire i l acts htodo hfree =>
      refine h.update (h.first htodo).2 (fun l' ↦ ?_) fun l' j hj ↦ ?_
      · by_cases hl' : l' = l
        · simp [hl', Act.after]
        · simp [h.owned, hl', Act.after]
      · by_cases hl' : l' = l
        · subst hl'
          rcases hfree with hfree | ⟨hfree, -⟩ <;> simp [hfree, Ne.symm hj]
        · rw [Function.update_of_ne hl']
  | release i l acts htodo howner =>
      refine h.update (h.first htodo).2 (fun l' ↦ ?_) fun l' j hj ↦ ?_
      · by_cases hl' : l' = l
        · subst hl'
          by_cases hmem : l' ∈ (s.threads i).held.erase l' <;> simp [hmem, howner, Act.after]
        · have hsame : l' ∈ (s.threads i).held.erase l ↔ l' ∈ (s.threads i).held :=
            List.mem_erase_of_ne hl'
          split_ifs <;> simp [Function.update_of_ne hl', h.owned, hsame, Act.after]
      · by_cases hl' : l' = l
        · subst hl'
          split_ifs <;> simp [howner, Ne.symm hj]
        · split_ifs
          · exact Iff.rfl
          · rw [Function.update_of_ne hl']
  | call i code acts htodo =>
      exact h.update (h.first htodo).2 (h.owned · i) fun _ _ _ ↦ Iff.rfl

theorem sound {ok : State ι Lock Code → List (Call ι Lock Code) → Label ι Lock Code → Prop}
    (hok : ∀ s log l, ok s log l → Starts P l) {log : List (Call ι Lock Code)}
    (h : (machine recursive).Reaches ok s log) : Sound P s := by
  refine h.invariant (P := fun s _ ↦ Sound P s) ?_ fun _ hs hl hstep ↦ hs.step (hok _ _ _ hl) hstep
  exact ⟨fun l i ↦ by simp [machine], fun i ↦ ⟨trivial, rfl⟩⟩

/-- Code from outside is called as `P` allows it. -/
theorem calls {ok : State ι Lock Code → List (Call ι Lock Code) → Label ι Lock Code → Prop}
    (hok : ∀ s log l, ok s log l → Starts P l) {log : List (Call ι Lock Code)}
    (h : (machine recursive).Reaches ok s log) : ∀ x ∈ log, P x.held (.call x.code) := by
  refine h.invariant (P := fun _ log ↦ ∀ x ∈ log, P x.held (.call x.code))
    (List.forall_mem_nil _) ?_
  intro s s' log es l hs hlog _ hstep
  rw [List.forall_mem_append]
  refine ⟨hlog, ?_⟩
  cases step_spec hstep with
  | call i code acts htodo => exact List.forall_mem_singleton.mpr ((sound hok hs).first htodo).1
  | _ => exact List.forall_mem_nil _

/-! ## Waiting -/

/-- The next act of `i` has to wait until `j` releases a lock. -/
def WaitsFor (recursive : Lock → Bool) (s : State ι Lock Code) (i j : ι) : Prop :=
  ∃ l acts, (s.threads i).todo = .acquire l :: acts ∧ s.owner l = some j ∧
    ¬ (i = j ∧ recursive l = true)

/-- A lock is taken when all locks that are held come before it. -/
def Ordered {R : Type*} [LT R] (rank : Lock → R) (recursive : Lock → Bool) (held : List Lock) :
    Act Lock Code → Prop
  | .acquire l => (l ∈ held ∧ recursive l = true) ∨ ∀ l' ∈ held, rank l' < rank l
  | _ => True

variable {R : Type*} [Preorder R] {rank : Lock → R}

omit [DecidableEq ι] in
/-- A thread waits for a lock that comes before what its owner waits for. -/
theorem Sound.rank_lt (h : Sound (Ordered rank recursive) s) {i j k : ι}
    (hij : WaitsFor recursive s i j) (hjk : WaitsFor recursive s j k) :
    ∃ l acts l' acts', (s.threads i).todo = .acquire l :: acts ∧
      (s.threads j).todo = .acquire l' :: acts' ∧ rank l < rank l' := by
  obtain ⟨l, acts, hi, howner, -⟩ := hij
  obtain ⟨l', acts', hj, howner', hnot⟩ := hjk
  refine ⟨l, acts, l', acts', hi, hj, ?_⟩
  rcases (h.first hj).1 with ⟨hmem, hrecursive⟩ | hlt
  · -- the thread itself is the owner of what it takes once more
    rw [(h.owned l' j).mpr hmem] at howner'
    cases howner'
    exact absurd ⟨rfl, hrecursive⟩ hnot
  · exact hlt l ((h.owned l j).mp howner)

omit [DecidableEq ι] in
/-- Threads that take the locks in order never wait for each other. -/
theorem Sound.no_cycle (h : Sound (Ordered rank recursive) s) (i : ι) :
    ¬ Relation.TransGen (WaitsFor recursive s) i i := by
  intro hcycle
  have hchain : ∀ j, Relation.TransGen (WaitsFor recursive s) i j → ∀ k,
      WaitsFor recursive s j k → ∃ l acts l' acts', (s.threads i).todo = .acquire l :: acts ∧
        (s.threads j).todo = .acquire l' :: acts' ∧ rank l < rank l' := by
    intro j hij
    induction hij with
    | single hwaits => exact fun k hk ↦ h.rank_lt hwaits hk
    | tail _ hwaits ih =>
        intro k hk
        obtain ⟨l, acts, l₁, acts₁, hi, hj, hlt⟩ := ih _ hwaits
        obtain ⟨l₁', acts₁', l', acts', hj', hk', hlt'⟩ := h.rank_lt hwaits hk
        rw [hj] at hj'
        cases hj'
        exact ⟨l, acts, l', acts', hi, hk', lt_trans hlt hlt'⟩
  obtain ⟨k, hik, -⟩ := Relation.TransGen.head'_iff.mp hcycle
  obtain ⟨l, acts, l', acts', hi, hi', hlt⟩ := hchain i hcycle k hik
  rw [hi] at hi'
  cases hi'
  exact lt_irrefl _ hlt

end Machine

end LockOrder
