import Libgep.Lib.Transition
import Mathlib.Logic.Function.Basic

/-!
# Critical sections

Threads work through lists of tasks, each task under one lock that they all
share.  A task takes many steps, and reads a state that changes only while the
lock is free.  Whatever the interleaving is, the log is that of the tasks run
one after the other.
-/

namespace Mutex

open Transition

variable {ι Task Loc Res Shared In Out Upd : Type*}

/-! ## Tasks and threads -/

/-- Where a task is that has the lock. -/
inductive Status (Loc Res : Type*) where
  | running (loc : Loc)
  | finished (res : Res)

/-- How a task runs: a step reads the shared state and an input. -/
structure Body (Task Loc Res Shared In Out : Type*) where
  start : Task → Loc
  step : Shared → Task → Loc → In → Option (Status Loc Res × List Out)

structure Thread (Task Loc Res : Type*) where
  todo : List Task
  /-- The task that has the lock, if it is one of this thread. -/
  current : Option (Task × Status Loc Res)

structure State (ι Task Loc Res Shared : Type*) where
  shared : Shared
  holder : Option ι
  threads : ι → Thread Task Loc Res

inductive Label (ι In Upd : Type*) where
  | acquire (i : ι)
  | work (i : ι) (input : In)
  | release (i : ι)
  | update (u : Upd)

inductive Event (ι Task Res Shared Out : Type*) where
  | acquired (i : ι) (task : Task) (shared : Shared)
  | out (o : Out)
  | released (i : ι) (task : Task) (res : Res)

@[simp] def Event.acquisition : Event ι Task Res Shared Out → Option (ι × Task × Shared)
  | .acquired i task shared => some (i, task, shared)
  | _ => none

@[simp] def Event.output : Event ι Task Res Shared Out → Option Out
  | .out o => some o
  | _ => none

@[simp] def Event.result : Event ι Task Res Shared Out → Option (ι × Task × Res)
  | .released i task res => some (i, task, res)
  | _ => none

section Machine

variable [DecidableEq ι] (b : Body Task Loc Res Shared In Out) (update : Shared → Upd → Shared)

def State.setThread (s : State ι Task Loc Res Shared) (i : ι) (thread : Thread Task Loc Res) :
    State ι Task Loc Res Shared :=
  { s with threads := Function.update s.threads i thread }

def step (s : State ι Task Loc Res Shared) :
    Label ι In Upd → Option (State ι Task Loc Res Shared × List (Event ι Task Res Shared Out))
  | .acquire i =>
      match s.holder, (s.threads i).current, (s.threads i).todo with
      | none, none, task :: todo =>
          some ({ s.setThread i ⟨todo, some (task, .running (b.start task))⟩ with
            holder := some i }, [.acquired i task s.shared])
      | _, _, _ => none
  | .work i input =>
      match (s.threads i).current with
      | some (task, .running loc) =>
          (b.step s.shared task loc input).map fun next ↦
            (s.setThread i ⟨(s.threads i).todo, some (task, next.1)⟩, next.2.map .out)
      | _ => none
  | .release i =>
      match (s.threads i).current with
      | some (task, .finished res) =>
          some ({ s.setThread i ⟨(s.threads i).todo, none⟩ with holder := none },
            [.released i task res])
      | _ => none
  | .update u =>
      match s.holder with
      | none => some ({ s with shared := update s.shared u }, [])
      | some _ => none

/-- The lock is free at first, and every thread has its tasks before it. -/
def machine (shared : Shared) (todo : ι → List Task) :
    Machine (State ι Task Loc Res Shared) (Label ι In Upd) (Event ι Task Res Shared Out) :=
  ⟨⟨shared, none, fun i ↦ ⟨todo i, none⟩⟩, step b update⟩

inductive Step (s : State ι Task Loc Res Shared) :
    Label ι In Upd → State ι Task Loc Res Shared → List (Event ι Task Res Shared Out) → Prop where
  | acquire (i : ι) (task : Task) (todo : List Task) (hholder : s.holder = none)
      (hcurrent : (s.threads i).current = none) (htodo : (s.threads i).todo = task :: todo) :
      Step s (.acquire i)
        { s.setThread i ⟨todo, some (task, .running (b.start task))⟩ with holder := some i }
        [.acquired i task s.shared]
  | work (i : ι) (input : In) (task : Task) (loc : Loc) (next : Status Loc Res) (out : List Out)
      (hcurrent : (s.threads i).current = some (task, .running loc))
      (hstep : b.step s.shared task loc input = some (next, out)) :
      Step s (.work i input) (s.setThread i ⟨(s.threads i).todo, some (task, next)⟩)
        (out.map .out)
  | release (i : ι) (task : Task) (res : Res)
      (hcurrent : (s.threads i).current = some (task, .finished res)) :
      Step s (.release i) { s.setThread i ⟨(s.threads i).todo, none⟩ with holder := none }
        [.released i task res]
  | update (u : Upd) (hholder : s.holder = none) :
      Step s (.update u) { s with shared := update s.shared u } []

variable {b update}

theorem step_spec {s s' : State ι Task Loc Res Shared} {l : Label ι In Upd}
    {es : List (Event ι Task Res Shared Out)} (h : step b update s l = some (s', es)) :
    Step b update s l s' es := by
  cases l with
  | acquire i =>
      simp only [step] at h
      split at h <;> cases h
      exact .acquire i _ _ ‹_› ‹_› ‹_›
  | work i input =>
      simp only [step] at h
      split at h
      · obtain ⟨⟨next, out⟩, hnext, heq⟩ := Option.map_eq_some_iff.mp h
        cases heq
        exact .work i input _ _ next out ‹_› hnext
      · cases h
  | release i =>
      simp only [step] at h
      split at h <;> cases h
      exact .release i _ _ ‹_›
  | update u =>
      simp only [step] at h
      split at h <;> cases h
      exact .update u ‹_›

end Machine

/-! ## Tasks run alone -/

/-- A task that runs alone, on a shared state that does not change. -/
inductive Body.Runs (b : Body Task Loc Res Shared In Out) (shared : Shared) (task : Task) :
    List In → Status Loc Res → List Out → Prop where
  | start : Runs b shared task [] (.running (b.start task)) []
  | step {ins : List In} {loc : Loc} {outs out : List Out} {input : In} {next : Status Loc Res}
      (h : Runs b shared task ins (.running loc) outs)
      (hstep : b.step shared task loc input = some (next, out)) :
      Runs b shared task (ins ++ [input]) next (outs ++ out)

/-- A task that has had the lock, with its result once it has released it. -/
structure Section (ι Task Res Shared Out : Type*) where
  thread : ι
  task : Task
  shared : Shared
  outs : List Out
  res : Option Res

def Section.Ran (b : Body Task Loc Res Shared In Out) (x : Section ι Task Res Shared Out) :
    Prop :=
  ∃ ins status, b.Runs x.shared x.task ins status x.outs ∧
    ∀ res, x.res = some res → status = .finished res

/-! ## Serialization -/

variable [DecidableEq ι]

/-- The log is that of some sections one after the other, in the order in
which the lock was acquired. -/
structure Serial (b : Body Task Loc Res Shared In Out) (todo : ι → List Task)
    (s : State ι Task Loc Res Shared) (log : List (Event ι Task Res Shared Out))
    (sections : List (Section ι Task Res Shared Out)) : Prop where
  acquired : log.filterMap Event.acquisition =
    sections.map fun x ↦ (x.thread, x.task, x.shared)
  outs : log.filterMap Event.output = sections.flatMap Section.outs
  released : log.filterMap Event.result =
    sections.filterMap fun x ↦ x.res.map fun res ↦ (x.thread, x.task, res)
  ran : ∀ x ∈ sections, x.Ran b
  order : ∀ i, (sections.filter (·.thread = i)).map Section.task ++ (s.threads i).todo = todo i
  held : ∀ x ∈ sections, x.res = none → s.holder = some x.thread

/-- The section that has the lock, if there is one. -/
def Current (b : Body Task Loc Res Shared In Out) (s : State ι Task Loc Res Shared) :
    Option (Section ι Task Res Shared Out) → Prop
  | none => s.holder = none ∧ ∀ i, (s.threads i).current = none
  | some x => s.holder = some x.thread ∧ x.shared = s.shared ∧ x.res = none ∧
      (∃ ins status, b.Runs x.shared x.task ins status x.outs ∧
        (s.threads x.thread).current = some (x.task, status)) ∧
      ∀ i, i ≠ x.thread → (s.threads i).current = none

section Steps

variable {b : Body Task Loc Res Shared In Out} {todo : ι → List Task}
  {s : State ι Task Loc Res Shared} {log : List (Event ι Task Res Shared Out)}
  {sections : List (Section ι Task Res Shared Out)}

theorem map_task_of_same (x x' : Section ι Task Res Shared Out) (hthread : x'.thread = x.thread)
    (htask : x'.task = x.task) (i : ι) :
    ((sections ++ [x']).filter (·.thread = i)).map Section.task =
      ((sections ++ [x]).filter (·.thread = i)).map Section.task := by
  by_cases hi : x.thread = i <;> simp [List.filter_append, hi, hthread, htask]

theorem Serial.acquire (h : Serial b todo s log sections) (hres : ∀ x ∈ sections, x.res ≠ none)
    {i : ι} {task : Task} {rest : List Task} (htodo : (s.threads i).todo = task :: rest) :
    Serial b todo
      { s.setThread i ⟨rest, some (task, .running (b.start task))⟩ with holder := some i }
      (log ++ [.acquired i task s.shared]) (sections ++ [⟨i, task, s.shared, [], none⟩]) := by
  constructor
  · simp [h.acquired]
  · simp [h.outs]
  · simp [h.released]
  · rw [List.forall_mem_append, List.forall_mem_singleton]
    exact ⟨h.ran, [], _, .start, by rintro _ ⟨⟩⟩
  · intro j
    have hj := h.order j
    by_cases hij : j = i
    · subst hij
      simp [State.setThread, ← hj, htodo]
    · simp [State.setThread, Function.update_of_ne hij, Ne.symm hij, hj]
  · rw [List.forall_mem_append, List.forall_mem_singleton]
    exact ⟨fun x hx hnone ↦ absurd hnone (hres x hx), fun _ ↦ rfl⟩

theorem Serial.work {x : Section ι Task Res Shared Out} (h : Serial b todo s log (sections ++ [x]))
    {ins : List In} {status : Status Loc Res} {out : List Out}
    (hruns : b.Runs x.shared x.task ins status (x.outs ++ out)) (hnone : x.res = none) (i : ι) :
    Serial b todo (s.setThread i ⟨(s.threads i).todo, some (x.task, status)⟩)
      (log ++ out.map .out) (sections ++ [{ x with outs := x.outs ++ out }]) := by
  constructor
  · simp [h.acquired]
  · simp [h.outs, Function.comp_def]
  · simp [h.released, hnone]
  · have hran := h.ran
    rw [List.forall_mem_append, List.forall_mem_singleton] at hran ⊢
    refine ⟨hran.1, ins, status, hruns, fun res hres ↦ ?_⟩
    rw [hnone] at hres
    cases hres
  · intro j
    have hj := h.order j
    rw [map_task_of_same x { x with outs := x.outs ++ out } rfl rfl]
    by_cases hij : j = i
    · subst hij
      simpa [State.setThread] using hj
    · simpa [State.setThread, Function.update_of_ne hij] using hj
  · have hheld := h.held
    rw [List.forall_mem_append, List.forall_mem_singleton] at hheld ⊢
    exact hheld

theorem Serial.release {x : Section ι Task Res Shared Out}
    (h : Serial b todo s log (sections ++ [x])) (hres : ∀ x ∈ sections, x.res ≠ none)
    {ins : List In} {res : Res} (hruns : b.Runs x.shared x.task ins (.finished res) x.outs)
    (hnone : x.res = none) :
    Serial b todo
      { s.setThread x.thread ⟨(s.threads x.thread).todo, none⟩ with holder := none }
      (log ++ [.released x.thread x.task res]) (sections ++ [{ x with res := some res }]) := by
  constructor
  · simp [h.acquired]
  · simp [h.outs]
  · simp [h.released, hnone]
  · have hran := h.ran
    rw [List.forall_mem_append, List.forall_mem_singleton] at hran ⊢
    refine ⟨hran.1, ins, _, hruns, ?_⟩
    rintro _ ⟨⟩
    rfl
  · intro j
    have hj := h.order j
    rw [map_task_of_same x { x with res := some res } rfl rfl]
    by_cases hij : j = x.thread
    · subst hij
      simpa [State.setThread] using hj
    · simpa [State.setThread, Function.update_of_ne hij] using hj
  · rw [List.forall_mem_append, List.forall_mem_singleton]
    exact ⟨fun y hy hnone ↦ absurd hnone (hres y hy), by rintro ⟨⟩⟩

/-- The sections so far, the last of which may have the lock. -/
def Serialized (b : Body Task Loc Res Shared In Out) (todo : ι → List Task)
    (s : State ι Task Loc Res Shared) (log : List (Event ι Task Res Shared Out)) : Prop :=
  ∃ sections current, Serial b todo s log (sections ++ Option.toList current) ∧
    Current b s current ∧ ∀ x ∈ sections, x.res ≠ none

omit [DecidableEq ι] in
theorem Current.eq_none {current : Option (Section ι Task Res Shared Out)}
    (h : Current b s current) (hholder : s.holder = none) : current = none := by
  cases current with
  | none => rfl
  | some x =>
      have hheld := h.1
      rw [hholder] at hheld
      cases hheld

/-- A thread with a task in progress is the one that has the lock. -/
theorem Current.of_thread {current : Option (Section ι Task Res Shared Out)}
    (h : Current b s current) {i : ι} {task : Task} {status : Status Loc Res}
    (hi : (s.threads i).current = some (task, status)) :
    ∃ x ins, current = some x ∧ x.thread = i ∧ x.task = task ∧
      b.Runs x.shared x.task ins status x.outs := by
  cases current with
  | none =>
      rw [h.2 i] at hi
      cases hi
  | some x =>
      obtain ⟨-, -, -, ⟨ins, status', hruns, hx⟩, hothers⟩ := h
      have hthread : x.thread = i := by
        by_contra hne
        rw [hothers i (Ne.symm hne)] at hi
        cases hi
      rw [hthread, hi] at hx
      cases hx
      exact ⟨x, ins, rfl, hthread, rfl, hruns⟩

theorem Serialized.step {update : Shared → Upd → Shared} {s' : State ι Task Loc Res Shared}
    {l : Label ι In Upd} {es : List (Event ι Task Res Shared Out)}
    (h : Serialized b todo s log) (hstep : step b update s l = some (s', es)) :
    Serialized b todo s' (log ++ es) := by
  obtain ⟨sections, current, hserial, hcurrent, hres⟩ := h
  cases step_spec hstep with
  | acquire i task rest hholder hnone htodo =>
      obtain rfl := hcurrent.eq_none hholder
      rw [Option.toList_none, List.append_nil] at hserial
      refine ⟨sections, some ⟨i, task, s.shared, [], none⟩, hserial.acquire hres htodo, ?_, hres⟩
      refine ⟨rfl, rfl, rfl, ⟨[], _, .start, ?_⟩, fun j hj ↦ ?_⟩
      · simp [State.setThread]
      · simpa [State.setThread, Function.update_of_ne hj] using hcurrent.2 j
  | work i input task loc next out hrunning hnext =>
      obtain ⟨x, ins, rfl, rfl, rfl, hruns⟩ := hcurrent.of_thread hrunning
      obtain ⟨hholder, hshared, hnone, -, hothers⟩ := hcurrent
      rw [← hshared] at hnext
      have hruns' := hruns.step hnext
      refine ⟨sections, some { x with outs := x.outs ++ out }, hserial.work hruns' hnone _, ?_, hres⟩
      refine ⟨hholder, hshared, hnone, ⟨_, _, hruns', ?_⟩, fun j hj ↦ ?_⟩
      · simp [State.setThread]
      · simpa [State.setThread, Function.update_of_ne hj] using hothers j hj
  | release i task res hfinished =>
      obtain ⟨x, ins, rfl, rfl, rfl, hruns⟩ := hcurrent.of_thread hfinished
      obtain ⟨hholder, hshared, hnone, -, hothers⟩ := hcurrent
      refine ⟨sections ++ [{ x with res := some res }], none, ?_, ⟨rfl, fun j ↦ ?_⟩, ?_⟩
      · rw [Option.toList_none, List.append_nil]
        exact hserial.release hres hruns hnone
      · by_cases hj : j = x.thread
        · simp [State.setThread, hj]
        · simpa [State.setThread, Function.update_of_ne hj] using hothers j hj
      · rw [List.forall_mem_append, List.forall_mem_singleton]
        exact ⟨hres, Option.some_ne_none _⟩
  | update u hholder =>
      obtain rfl := hcurrent.eq_none hholder
      rw [List.append_nil]
      refine ⟨sections, none, ?_, hcurrent, hres⟩
      exact ⟨hserial.acquired, hserial.outs, hserial.released, hserial.ran, hserial.order,
        hserial.held⟩

/-- Whatever the interleaving is, the log is that of sections one after the
other. -/
theorem serialized {update : Shared → Upd → Shared} {shared : Shared}
    {ok : State ι Task Loc Res Shared → List (Event ι Task Res Shared Out) → Label ι In Upd → Prop}
    (h : (machine b update shared todo).Reaches ok s log) : Serialized b todo s log := by
  refine h.invariant (P := fun s log ↦ Serialized b todo s log) ?_
    fun _ hs _ hstep ↦ hs.step hstep
  refine ⟨[], none, ⟨rfl, rfl, rfl, ?_, fun i ↦ rfl, ?_⟩, ⟨rfl, fun i ↦ rfl⟩, ?_⟩
  · exact List.forall_mem_nil _
  · exact List.forall_mem_nil _
  · exact List.forall_mem_nil _

/-! ## The thread that has the lock -/

/-- The thread `i` has the lock for a task, and no other thread is in one. -/
structure Held (s : State ι Task Loc Res Shared) (i : ι) (task : Task) (status : Status Loc Res) :
    Prop where
  holder : s.holder = some i
  current : (s.threads i).current = some (task, status)
  others : ∀ j, j ≠ i → (s.threads j).current = none

/-- As long as a thread has the lock, only that thread takes a step. -/
theorem Held.step {update : Shared → Upd → Shared} {s' : State ι Task Loc Res Shared} {i : ι}
    {task : Task} {status : Status Loc Res} {l : Label ι In Upd}
    {es : List (Event ι Task Res Shared Out)} (h : Held s i task status)
    (hstep : step b update s l = some (s', es)) :
    (∃ input loc next out, l = .work i input ∧ status = .running loc ∧
        b.step s.shared task loc input = some (next, out) ∧ Held s' i task next ∧
        s'.shared = s.shared ∧ es = out.map .out) ∨
      ∃ res, l = .release i ∧ status = .finished res ∧ es = [.released i task res] := by
  obtain ⟨hholder, hcurrent, hothers⟩ := h
  have hsame : ∀ {j : ι} {task' : Task} {status' : Status Loc Res},
      (s.threads j).current = some (task', status') → j = i := by
    intro j task' status' hj
    by_contra hne
    rw [hothers j hne] at hj
    cases hj
  cases step_spec hstep with
  | acquire j task' rest hfree =>
      rw [hholder] at hfree
      cases hfree
  | update u hfree =>
      rw [hholder] at hfree
      cases hfree
  | work j input task' loc next out hrunning hnext =>
      obtain rfl := hsame hrunning
      rw [hcurrent] at hrunning
      cases hrunning
      refine .inl ⟨input, loc, next, out, rfl, rfl, hnext, ⟨hholder, ?_, fun j hj ↦ ?_⟩, rfl, rfl⟩
      · simp [State.setThread]
      · simpa [State.setThread, Function.update_of_ne hj] using hothers j hj
  | release j task' res hfinished =>
      obtain rfl := hsame hfinished
      rw [hcurrent] at hfinished
      cases hfinished
      exact .inr ⟨res, rfl, rfl, rfl⟩

theorem Serialized.acquire_held {update : Shared → Upd → Shared}
    {s' : State ι Task Loc Res Shared} {i : ι} {es : List (Event ι Task Res Shared Out)}
    (h : Serialized b todo s log)
    (hstep : Mutex.step b update s (.acquire i : Label ι In Upd) = some (s', es)) :
    ∃ task rest, (s.threads i).todo = task :: rest ∧
      Held s' i task (.running (b.start task)) ∧ s'.shared = s.shared ∧
      es = [.acquired i task s.shared] := by
  obtain ⟨sections, current, -, hcurrent, -⟩ := h
  cases step_spec hstep with
  | acquire _ task rest hholder hnone htodo =>
      obtain rfl := hcurrent.eq_none hholder
      refine ⟨task, rest, htodo, ⟨rfl, ?_, fun j hj ↦ ?_⟩, rfl, rfl⟩
      · simp [State.setThread]
      · simpa [State.setThread, Function.update_of_ne hj] using hcurrent.2 j

/-- Only an update changes the shared state. -/
theorem step_shared {update : Shared → Upd → Shared} {s' : State ι Task Loc Res Shared}
    {l : Label ι In Upd} {es : List (Event ι Task Res Shared Out)}
    (h : Mutex.step b update s l = some (s', es)) (hl : ∀ u, l ≠ .update u) :
    s'.shared = s.shared := by
  cases step_spec h with
  | update u => exact absurd rfl (hl u)
  | _ => rfl

end Steps

end Mutex
