import Mathlib.Algebra.GroupWithZero.Nat
import Mathlib.Data.List.Basic

/-!
# Transition systems with a log

A machine is a guarded step function: a label is refused, or leads to a new
state and some events.  Invariants speak about a state together with the log
of all events so far, and may rely on a condition that every step of the run
meets.
-/

namespace Transition

variable {S L E S' L' O : Type*}

structure Machine (S L E : Type*) where
  init : S
  step : S → L → Option (S × List E)

namespace Machine

variable (m : Machine S L E) (ok : S → List E → L → Prop)

def runFrom : S → List L → Option (S × List E)
  | s, [] => some (s, [])
  | s, l :: ls =>
      (m.step s l).bind fun next ↦
        (runFrom next.1 ls).map fun last ↦ (last.1, next.2 ++ last.2)

/-- A state and a log that a run leads to, all of whose steps are `ok`. -/
inductive Reaches : S → List E → Prop where
  | init : Reaches m.init []
  | step {s s' : S} {log es : List E} {l : L} (hs : Reaches s log) (hl : ok s log l)
      (h : m.step s l = some (s', es)) : Reaches s' (log ++ es)

/-- The steps `ls` are `ok`, as far as they can be taken. -/
def Along : S → List E → List L → Prop
  | _, _, [] => True
  | s, log, l :: ls =>
      ok s log l ∧ ∀ s' es, m.step s l = some (s', es) → Along s' (log ++ es) ls

/-- What `f` shows of the steps `ls`, as far as they can be taken. -/
def observe (f : S → L → Option O) : S → List L → List O
  | _, [] => []
  | s, l :: ls =>
      match m.step s l with
      | none => []
      | some next => (f s l).toList ++ observe f next.1 ls

/-- The steps `ls` are `allowed`, and lead to a state that is `final`. -/
structure Segment (allowed : L → Prop) (final : S → Prop) (s : S) (ls : List L) (s' : S)
    (es : List E) : Prop where
  allowed : ∀ l ∈ ls, allowed l
  run : m.runFrom s ls = some (s', es)
  final : final s'

variable {m ok}

theorem runFrom_cons {s s' : S} {l : L} {ls : List L} {es : List E}
    (h : m.runFrom s (l :: ls) = some (s', es)) :
    ∃ s₁ es₁ es₂, m.step s l = some (s₁, es₁) ∧ m.runFrom s₁ ls = some (s', es₂) ∧
      es = es₁ ++ es₂ := by
  obtain ⟨⟨s₁, es₁⟩, h₁, hrest⟩ := Option.bind_eq_some_iff.mp h
  obtain ⟨⟨s₂, es₂⟩, h₂, heq⟩ := Option.map_eq_some_iff.mp hrest
  cases heq
  exact ⟨s₁, es₁, es₂, h₁, h₂, rfl⟩

theorem observe_cons {f : S → L → Option O} {s s₁ : S} {l : L} {es₁ : List E}
    (h : m.step s l = some (s₁, es₁)) (ls : List L) :
    m.observe f s (l :: ls) = (f s l).toList ++ m.observe f s₁ ls := by
  simp only [observe, h]

namespace Segment

variable {allowed : L → Prop} {final : S → Prop} {s s' : S} {l : L} {ls : List L} {es : List E}

theorem nil (h : m.Segment allowed final s [] s' es) : s' = s ∧ es = [] ∧ final s := by
  cases h.run
  exact ⟨rfl, rfl, h.final⟩

theorem cons (h : m.Segment allowed final s (l :: ls) s' es) :
    ∃ s₁ es₁ es₂, allowed l ∧ m.step s l = some (s₁, es₁) ∧
      m.Segment allowed final s₁ ls s' es₂ ∧ es = es₁ ++ es₂ := by
  obtain ⟨s₁, es₁, es₂, hstep, hrun, heq⟩ := runFrom_cons h.run
  obtain ⟨hl, hls⟩ := List.forall_mem_cons.mp h.allowed
  exact ⟨s₁, es₁, es₂, hl, hstep, ⟨hls, hrun, h.final⟩, heq⟩

end Segment

theorem Along.of_forall (h : ∀ s log l, ok s log l) (s : S) (log : List E) (ls : List L) :
    m.Along ok s log ls := by
  induction ls generalizing s log with
  | nil => trivial
  | cons l ls ih => exact ⟨h s log l, fun s' es _ ↦ ih s' (log ++ es)⟩

theorem Along.of_forall_mem {ls : List L} (h : ∀ l ∈ ls, ∀ s log, ok s log l) (s : S)
    (log : List E) : m.Along ok s log ls := by
  induction ls generalizing s log with
  | nil => trivial
  | cons l ls ih =>
      obtain ⟨hl, hls⟩ := List.forall_mem_cons.mp h
      exact ⟨hl s log, fun s' es _ ↦ ih hls s' (log ++ es)⟩

/-- The only step that can be taken leads to `s'`. -/
theorem Along.cons {s s' : S} {log es : List E} {l : L} {ls : List L} (hl : ok s log l)
    (hstep : m.step s l = some (s', es)) (h : m.Along ok s' (log ++ es) ls) :
    m.Along ok s log (l :: ls) := by
  refine ⟨hl, fun s'' es' hstep' ↦ ?_⟩
  rw [hstep] at hstep'
  cases hstep'
  exact h

/-- Whether the steps are `ok` can be decided by taking them. -/
instance decidableAlong [∀ s log l, Decidable (ok s log l)] :
    (s : S) → (log : List E) → (ls : List L) → Decidable (m.Along ok s log ls)
  | _, _, [] => isTrue trivial
  | s, log, l :: ls =>
      match h : m.step s l with
      | none => decidable_of_iff (ok s log l) ⟨fun hl ↦ ⟨hl, by simp [h]⟩, And.left⟩
      | some (s₁, es₁) =>
          letI := decidableAlong s₁ (log ++ es₁) ls
          decidable_of_iff (ok s log l ∧ m.Along ok s₁ (log ++ es₁) ls)
            ⟨fun hls ↦ .cons hls.1 h hls.2, fun hls ↦ ⟨hls.1, hls.2 s₁ es₁ h⟩⟩

theorem Along.left {s : S} {log : List E} {xs ys : List L} (h : m.Along ok s log (xs ++ ys)) :
    m.Along ok s log xs := by
  induction xs generalizing s log with
  | nil => trivial
  | cons l xs ih => exact ⟨h.1, fun s₁ es₁ hstep ↦ ih (h.2 s₁ es₁ hstep)⟩

theorem Along.right {s s' : S} {log es : List E} {xs ys : List L}
    (h : m.Along ok s log (xs ++ ys)) (hrun : m.runFrom s xs = some (s', es)) :
    m.Along ok s' (log ++ es) ys := by
  induction xs generalizing s log es with
  | nil =>
      cases hrun
      rwa [List.append_nil]
  | cons l xs ih =>
      obtain ⟨s₁, es₁, es₂, h₁, h₂, rfl⟩ := runFrom_cons hrun
      rw [← List.append_assoc]
      exact ih (h.2 s₁ es₁ h₁) h₂

theorem Reaches.run {s s' : S} {log es : List E} {ls : List L} (hs : m.Reaches ok s log)
    (hls : m.Along ok s log ls) (h : m.runFrom s ls = some (s', es)) :
    m.Reaches ok s' (log ++ es) := by
  induction ls generalizing s log es with
  | nil =>
      cases h
      rwa [List.append_nil]
  | cons l ls ih =>
      obtain ⟨s₁, es₁, es₂, h₁, h₂, rfl⟩ := runFrom_cons h
      rw [← List.append_assoc]
      exact ih (hs.step hls.1 h₁) (hls.2 s₁ es₁ h₁) h₂

theorem Reaches.mono {ok' : S → List E → L → Prop} (himp : ∀ s log l, ok s log l → ok' s log l)
    {s : S} {log : List E} (h : m.Reaches ok s log) : m.Reaches ok' s log := by
  induction h with
  | init => exact .init
  | step _ hl h ih => exact ih.step (himp _ _ _ hl) h

/-- What holds at the start, and is preserved by every step that is `ok`,
holds in every state reached. -/
theorem Reaches.invariant {P : S → List E → Prop} (hinit : P m.init [])
    (hstep : ∀ {s s' : S} {log es : List E} {l : L}, m.Reaches ok s log → P s log →
      ok s log l → m.step s l = some (s', es) → P s' (log ++ es))
    {s : S} {log : List E} (h : m.Reaches ok s log) : P s log := by
  induction h with
  | init => exact hinit
  | step hs hl h ih => exact hstep hs ih hl h

/-- A machine whose every step is no step or one step of another one, with the
same events, only reaches what the other one reaches. -/
theorem Reaches.simulate {m' : Machine S' L' E} {ok' : S' → List E → L' → Prop} {f : S → S'}
    (hinit : f m.init = m'.init)
    (hstep : ∀ {s s' : S} {log es : List E} {l : L}, m.Reaches ok s log → ok s log l →
      m.step s l = some (s', es) →
        (f s' = f s ∧ es = []) ∨ ∃ l', ok' (f s) log l' ∧ m'.step (f s) l' = some (f s', es))
    {s : S} {log : List E} (h : m.Reaches ok s log) : m'.Reaches ok' (f s) log := by
  induction h with
  | init =>
      rw [hinit]
      exact .init
  | step hs hl h ih =>
      rcases hstep hs hl h with ⟨hsame, hnone⟩ | ⟨l', hl', h'⟩
      · rwa [hsame, hnone, List.append_nil]
      · exact ih.step hl' h'

/-- A component of a system: a machine whose every step is no step or one step
of the component, with the events that `g` takes from its own. -/
theorem Reaches.project {E' : Type*} {m' : Machine S' L' E'} {ok' : S' → List E' → L' → Prop}
    {f : S → S'} {g : E → Option E'} (hinit : f m.init = m'.init)
    (hstep : ∀ {s s' : S} {log es : List E} {l : L}, m.Reaches ok s log → ok s log l →
      m.step s l = some (s', es) →
        (f s' = f s ∧ es.filterMap g = []) ∨ ∃ l', ok' (f s) (log.filterMap g) l' ∧
          m'.step (f s) l' = some (f s', es.filterMap g))
    {s : S} {log : List E} (h : m.Reaches ok s log) :
    m'.Reaches ok' (f s) (log.filterMap g) := by
  induction h with
  | init =>
      rw [hinit]
      exact .init
  | step hs hl h ih =>
      rw [List.filterMap_append]
      rcases hstep hs hl h with ⟨hsame, hnone⟩ | ⟨l', hl', h'⟩
      · rwa [hsame, hnone, List.append_nil]
      · exact ih.step hl' h'

/-- If every allowed step is paid for by what it takes from a rank, the rank
pays for every run. -/
theorem sum_cost_add_rank_le {P : S → Prop} {allowed : L → Prop} {cost : L → ℕ} {rank : S → ℕ}
    (hstep : ∀ {s s' : S} {l : L} {es : List E}, P s → allowed l → m.step s l = some (s', es) →
      P s' ∧ cost l + rank s' ≤ rank s)
    {s s' : S} {ls : List L} {es : List E} (hs : P s) (hls : ∀ l ∈ ls, allowed l)
    (h : m.runFrom s ls = some (s', es)) : P s' ∧ (ls.map cost).sum + rank s' ≤ rank s := by
  induction ls generalizing s es with
  | nil =>
      cases h
      exact ⟨hs, by simp⟩
  | cons l ls ih =>
      obtain ⟨hl, hls⟩ := List.forall_mem_cons.mp hls
      obtain ⟨s₁, es₁, es₂, hnext, hrest, -⟩ := runFrom_cons h
      obtain ⟨hs₁, hfirst⟩ := hstep hs hl hnext
      obtain ⟨hs', hsum⟩ := ih hs₁ hls hrest
      refine ⟨hs', ?_⟩
      simp only [List.map_cons, List.sum_cons]
      omega

/-- What every allowed step shows of its events, a run shows of all of them. -/
theorem forall_mem_runFrom {P : S → Prop} {allowed : L → Prop} {Q : E → Prop}
    (hstep : ∀ {s s' : S} {l : L} {es : List E}, P s → allowed l → m.step s l = some (s', es) →
      P s' ∧ ∀ ev ∈ es, Q ev)
    {s s' : S} {ls : List L} {es : List E} (hs : P s) (hls : ∀ l ∈ ls, allowed l)
    (h : m.runFrom s ls = some (s', es)) : ∀ ev ∈ es, Q ev := by
  induction ls generalizing s es with
  | nil =>
      cases h
      exact List.forall_mem_nil _
  | cons l ls ih =>
      obtain ⟨hl, hls⟩ := List.forall_mem_cons.mp hls
      obtain ⟨s₁, es₁, es₂, hnext, hrest, rfl⟩ := runFrom_cons h
      obtain ⟨hs₁, hfirst⟩ := hstep hs hl hnext
      exact List.forall_mem_append.mpr ⟨hfirst, ih hs₁ hls hrest⟩

end Machine

/-! ## What is seen of the events -/

/-- The result of a step or of a run, without the events that `f` hides. -/
def seen (f : E → Bool) (next : Option (S × List E)) : Option (S × List E) :=
  next.map (Prod.map id (List.filter f))

/-- What is done with a result may depend on the events that can be seen. -/
theorem seen_bind {f : E → Bool} {g : E' → Bool} {next next' : Option (S × List E)}
    {k k' : S × List E → Option (S' × List E')} (h : seen f next = seen f next')
    (hk : ∀ s es es', es.filter f = es'.filter f → seen g (k (s, es)) = seen g (k' (s, es'))) :
    seen g (next.bind k) = seen g (next'.bind k') := by
  cases next with
  | none =>
      cases next' with
      | none => rfl
      | some _ => cases h
  | some next =>
      cases next' with
      | none => cases h
      | some next' =>
          obtain ⟨s, es⟩ := next
          obtain ⟨s', es'⟩ := next'
          obtain ⟨rfl, hes⟩ := Prod.mk.inj (Option.some.inj h)
          exact hk s es es' hes

theorem seen_map {f : E → Bool} {g : E' → Bool} {next next' : Option (S × List E)}
    {k k' : S × List E → S' × List E'} (h : seen f next = seen f next')
    (hk : ∀ s es es', es.filter f = es'.filter f →
      (k (s, es)).1 = (k' (s, es')).1 ∧ (k (s, es)).2.filter g = (k' (s, es')).2.filter g) :
    seen g (next.map k) = seen g (next'.map k') := by
  rw [Option.map_eq_bind, Option.map_eq_bind]
  refine seen_bind h fun s es es' hes ↦ ?_
  obtain ⟨hstate, hevents⟩ := hk s es es' hes
  exact congrArg some (Prod.ext hstate hevents)

/-- Two machines whose steps look the same have runs that look the same. -/
theorem Machine.runFrom_seen {m m' : Machine S L E} {f : E → Bool}
    (h : ∀ s l, seen f (m.step s l) = seen f (m'.step s l)) (s : S) (ls : List L) :
    seen f (m.runFrom s ls) = seen f (m'.runFrom s ls) := by
  induction ls generalizing s with
  | nil => rfl
  | cons l ls ih =>
      refine seen_bind (h s l) fun s' es es' hes ↦ seen_map (ih s') fun s'' es₁ es₁' hes₁ ↦ ?_
      exact ⟨rfl, by rw [List.filter_append, List.filter_append, hes, hes₁]⟩

/-! ## Folds that may stop -/

/-- Hidden events that a fold passes over do not change it. -/
theorem foldlM_filter {f : S → E → Option S} {g : E → Bool}
    (hskip : ∀ s ev, g ev = false → f s ev = some s) (es : List E) (s : S) :
    (es.filter g).foldlM f s = es.foldlM f s := by
  induction es generalizing s with
  | nil => rfl
  | cons ev es ih =>
      cases hev : g ev with
      | false =>
          rw [List.filter_cons_of_neg (by simp [hev]), List.foldlM_cons, hskip s ev hev]
          exact ih s
      | true =>
          rw [List.filter_cons_of_pos hev, List.foldlM_cons, List.foldlM_cons]
          exact congrArg _ (funext ih)

/-- What every element keeps, a fold that goes through keeps. -/
theorem rel_of_foldlM {f : S → E → Option S} {R : S → S → Prop} (hrefl : ∀ s, R s s)
    (htrans : ∀ {s s' s''}, R s s' → R s' s'' → R s s'') {es : List E}
    (hstep : ∀ ev ∈ es, ∀ {s s'}, f s ev = some s' → R s s') {s s' : S}
    (h : es.foldlM f s = some s') : R s s' := by
  induction es generalizing s with
  | nil =>
      cases h
      exact hrefl _
  | cons ev es ih =>
      obtain ⟨hev, hes⟩ := List.forall_mem_cons.mp hstep
      obtain ⟨next, hnext, h⟩ := Option.bind_eq_some_iff.mp h
      exact htrans (hev hnext) (ih hes h)

/-- A fold over events of a component, which become events of the system. -/
theorem seen_foldlM {K : Type*} {f : K → E → Option K} {g : E → Bool} {g' : E' → Bool}
    (hskip : ∀ k ev, g ev = false → f k ev = some k) {c : E → E'} (hc : ∀ ev, g' (c ev) = g ev)
    {es es' : List E} (hes : es.filter g = es'.filter g) (k : K) (state : K → S) :
    seen g' ((es.foldlM f k).map fun k' ↦ (state k', es.map c)) =
      seen g' ((es'.foldlM f k).map fun k' ↦ (state k', es'.map c)) := by
  have hseen : (es.map c).filter g' = (es'.map c).filter g' := by
    have hcomp : g' ∘ c = g := funext hc
    rw [List.filter_map, List.filter_map, hcomp, hes]
  rw [← foldlM_filter hskip es, hes, foldlM_filter hskip]
  cases es'.foldlM f k with
  | none => rfl
  | some k' => simp [seen, hseen]

end Transition
