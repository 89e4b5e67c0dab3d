import VideoCdn.Lib.Checked
import Mathlib.Data.List.Induction

/-!
# Runs of a machine with inputs

A machine is a checked step function `σ → ι → Checked (σ × List ε)`: it consumes one input of the
environment, moves to a new state and emits events.  A run over a list of inputs stops with a fault
as soon as one step does.

* `run step s is` — the run from `s`, with the events in the order they were emitted.
* `run_append_eq_ok` — a run is the run of its first part followed by the run of the rest.
* `run_history` — **history induction**: a relation between the inputs consumed, the events emitted
  and the state reached that every step preserves holds of every run.
* `Along step P s is` — every step of the run is taken from a state that meets `P`.
* `run_along`, `run_invariant` — **invariant rule**: what such steps preserve, the run preserves.
  `run_along_state` is the rule for what concerns the state alone.
* `logged step` — the machine that keeps its events in the state; `run_along_logged` is the invariant
  rule for conditions on the events so far.
* `run_progress` — **progress rule**: where every step returns, the run returns.  `run_isOk_iff` is for
  steps that return or not whatever the state is.
* `run_states_iff` — machines that take the same steps take the same runs, whatever they emit.
-/

set_option autoImplicit false

namespace Machine

open CLib

variable {σ ι ε : Type}

def run (step : σ → ι → Checked (σ × List ε)) : σ → List ι → Checked (σ × List ε)
  | s, [] => .ok (s, [])
  | s, i :: is => do
    let (s₁, es₁) ← step s i
    let (s₂, es₂) ← run step s₁ is
    return (s₂, es₁ ++ es₂)

variable {step : σ → ι → Checked (σ × List ε)}

@[simp] theorem run_nil (s : σ) : run step s [] = .ok (s, []) := rfl

theorem run_cons_eq_ok {s s' : σ} {i : ι} {is : List ι} {es : List ε} :
    run step s (i :: is) = .ok (s', es) ↔ ∃ s₁ es₁ es₂,
      step s i = .ok (s₁, es₁) ∧ run step s₁ is = .ok (s', es₂) ∧ es = es₁ ++ es₂ := by
  simp only [run, bind_eq_ok, pure_eq_ok, Except.ok.injEq, Prod.exists, Prod.mk.injEq]
  constructor
  · rintro ⟨s₁, es₁, h₁, s₂, es₂, h₂, rfl, rfl⟩
    exact ⟨s₁, es₁, es₂, h₁, h₂, rfl⟩
  · rintro ⟨s₁, es₁, es₂, h₁, h₂, rfl⟩
    exact ⟨s₁, es₁, h₁, s', es₂, h₂, rfl, rfl⟩

theorem run_append_eq_ok {s s' : σ} {is js : List ι} {es : List ε} :
    run step s (is ++ js) = .ok (s', es) ↔ ∃ s₁ es₁ es₂,
      run step s is = .ok (s₁, es₁) ∧ run step s₁ js = .ok (s', es₂) ∧ es = es₁ ++ es₂ := by
  induction is generalizing s es with
  | nil => simp
  | cons i is ih =>
    simp only [List.cons_append, run_cons_eq_ok, ih]
    constructor
    · rintro ⟨s₁, es₁, _, h₁, ⟨s₂, es₂, es₃, h₂, h₃, rfl⟩, rfl⟩
      exact ⟨s₂, es₁ ++ es₂, es₃, ⟨s₁, es₁, es₂, h₁, h₂, rfl⟩, h₃, by simp⟩
    · rintro ⟨s₂, _, es₃, ⟨s₁, es₁, es₂, h₁, h₂, rfl⟩, h₃, rfl⟩
      exact ⟨s₁, es₁, es₂ ++ es₃, h₁, ⟨s₂, es₂, es₃, h₂, h₃, rfl⟩, by simp⟩

theorem run_snoc_eq_ok {s s' : σ} {is : List ι} {i : ι} {es : List ε} :
    run step s (is ++ [i]) = .ok (s', es) ↔ ∃ s₁ es₁ es₂,
      run step s is = .ok (s₁, es₁) ∧ step s₁ i = .ok (s', es₂) ∧ es = es₁ ++ es₂ := by
  rw [run_append_eq_ok]
  simp only [run_cons_eq_ok, run_nil, Except.ok.injEq, Prod.mk.injEq]
  constructor
  · rintro ⟨s₁, es₁, _, h₁, ⟨s₂, es₂, _, h₂, ⟨rfl, rfl⟩, rfl⟩, rfl⟩
    exact ⟨s₁, es₁, es₂, h₁, h₂, by simp⟩
  · rintro ⟨s₁, es₁, es₂, h₁, h₂, rfl⟩
    exact ⟨s₁, es₁, es₂, h₁, ⟨s', es₂, [], h₂, ⟨rfl, rfl⟩, by simp⟩, rfl⟩

/-- **History induction.** -/
theorem run_history {s : σ} {P : List ι → List ε → σ → Prop} (hinit : P [] [] s)
    (hstep : ∀ is es s₁ i s₂ es₂, run step s is = .ok (s₁, es) → P is es s₁ →
      step s₁ i = .ok (s₂, es₂) → P (is ++ [i]) (es ++ es₂) s₂) :
    ∀ {is : List ι} {s' : σ} {es : List ε}, run step s is = .ok (s', es) → P is es s' := by
  intro is
  induction is using List.reverseRecOn with
  | nil =>
    intro s' es h
    simp only [run_nil, Except.ok.injEq, Prod.mk.injEq] at h
    obtain ⟨rfl, rfl⟩ := h
    exact hinit
  | append_singleton is i ih =>
    intro s' es h
    obtain ⟨s₁, es₁, es₂, h₁, h₂, rfl⟩ := run_snoc_eq_ok.mp h
    exact hstep is es₁ s₁ i s' es₂ h₁ (ih h₁) h₂

def Along (step : σ → ι → Checked (σ × List ε)) (P : σ → ι → Prop) : σ → List ι → Prop
  | _, [] => True
  | s, i :: is => P s i ∧ match step s i with
    | .error _ => True
    | .ok (s₁, _) => Along step P s₁ is

instance Along.instDecidable {P : σ → ι → Prop} [∀ s i, Decidable (P s i)] :
    ∀ (s : σ) (is : List ι), Decidable (Along step P s is)
  | _, [] => isTrue trivial
  | s, i :: is =>
    match h : step s i with
    | .error _ => decidable_of_iff (P s i) (by simp only [Along, h, and_true])
    | .ok (s₁, _) =>
      have := Along.instDecidable (P := P) s₁ is
      decidable_of_iff (P s i ∧ Along step P s₁ is) (by simp only [Along, h])

theorem along_cons {P : σ → ι → Prop} {i : ι} {is : List ι} {s : σ} :
    Along step P s (i :: is) ↔
      P s i ∧ ∀ s' es, step s i = .ok (s', es) → Along step P s' is := by
  change (P s i ∧ match step s i with
    | .error _ => True
    | .ok (s₁, _) => Along step P s₁ is) ↔ _
  refine and_congr_right fun _ => ?_
  cases h : step s i with
  | error e => simp
  | ok r =>
    obtain ⟨s₁, es₁⟩ := r
    constructor
    · intro hrest s' es heq
      cases heq
      exact hrest
    · exact fun hrest => hrest s₁ es₁ rfl

/-- The steps of the first part, and those of the rest from where it ends. -/
theorem along_append {P : σ → ι → Prop} {is js : List ι} {s : σ} :
    Along step P s (is ++ js) ↔ Along step P s is ∧
      ∀ s' es, run step s is = .ok (s', es) → Along step P s' js := by
  induction is generalizing s with
  | nil => simp [Along]
  | cons i is ih =>
    simp only [List.cons_append, along_cons, ih, run_cons_eq_ok]
    constructor
    · rintro ⟨hP, hrest⟩
      refine ⟨⟨hP, fun s₁ es₁ h₁ => (hrest s₁ es₁ h₁).1⟩, ?_⟩
      rintro s' _ ⟨s₁, es₁, es₂, h₁, h₂, -⟩
      exact (hrest s₁ es₁ h₁).2 s' es₂ h₂
    · rintro ⟨⟨hP, hfirst⟩, hrest⟩
      exact ⟨hP, fun s₁ es₁ h₁ => ⟨hfirst s₁ es₁ h₁,
        fun s' es₂ h₂ => hrest s' _ ⟨s₁, es₁, es₂, h₁, h₂, rfl⟩⟩⟩

/-- **Invariant rule**, for runs whose steps all meet a condition. -/
theorem run_along {P : σ → ι → Prop} {Q : List ε → σ → Prop}
    (hstep : ∀ es s i s' es', Q es s → P s i → step s i = .ok (s', es') → Q (es ++ es') s') :
    ∀ {is : List ι} {s s' : σ} {es₀ es : List ε}, Q es₀ s → Along step P s is →
      run step s is = .ok (s', es) → Q (es₀ ++ es) s' := by
  intro is
  induction is with
  | nil =>
    intro s s' es₀ es h₀ _ h
    simp only [run_nil, Except.ok.injEq, Prod.mk.injEq] at h
    obtain ⟨rfl, rfl⟩ := h
    rwa [List.append_nil]
  | cons i is ih =>
    intro s s' es₀ es h₀ hP h
    obtain ⟨s₁, es₁, es₂, h₁, h₂, rfl⟩ := run_cons_eq_ok.mp h
    unfold Along at hP
    rw [h₁] at hP
    rw [← List.append_assoc]
    exact ih (hstep es₀ s i s₁ es₁ h₀ hP.1 h₁) hP.2 h₂

theorem run_along_state {P : σ → ι → Prop} {R : σ → Prop}
    (hstep : ∀ s i s' es, R s → P s i → step s i = .ok (s', es) → R s')
    {is : List ι} {s s' : σ} {es : List ε} (h₀ : R s) (hP : Along step P s is)
    (h : run step s is = .ok (s', es)) : R s' :=
  @run_along _ _ _ step P (fun _ s => R s) (fun _ s i s' es => hstep s i s' es) is s s' [] es h₀ hP h

/-- The machine with the events so far in its state. -/
def logged (step : σ → ι → Checked (σ × List ε)) (s : List ε × σ) (i : ι) :
    Checked ((List ε × σ) × List ε) := do
  let (s', es) ← step s.2 i
  return ((s.1 ++ es, s'), es)

theorem logged_eq_ok {es₀ es : List ε} {s : σ} {i : ι} {t : List ε × σ} :
    logged step (es₀, s) i = .ok (t, es) ↔ ∃ s', step s i = .ok (s', es) ∧ t = (es₀ ++ es, s') := by
  simp only [logged, bind_eq_ok, pure_eq_ok, Except.ok.injEq, Prod.exists, Prod.mk.injEq]
  constructor
  · rintro ⟨s', _, hs, rfl, rfl⟩
    exact ⟨s', hs, rfl⟩
  · rintro ⟨s', hs, rfl⟩
    exact ⟨s', es, hs, rfl, rfl⟩

theorem run_logged {is : List ι} {s s' : σ} {es₀ es : List ε} (h : run step s is = .ok (s', es)) :
    run (logged step) (es₀, s) is = .ok ((es₀ ++ es, s'), es) := by
  induction is generalizing s es₀ es with
  | nil =>
    cases h
    rw [List.append_nil]
    rfl
  | cons i is ih =>
    obtain ⟨s₁, es₁, es₂, h₁, h₂, rfl⟩ := run_cons_eq_ok.mp h
    rw [← List.append_assoc]
    exact run_cons_eq_ok.mpr ⟨_, es₁, es₂, logged_eq_ok.mpr ⟨s₁, h₁, rfl⟩, ih h₂, rfl⟩

/-- **Invariant rule**, for runs whose steps all meet a condition on the events so far as well. -/
theorem run_along_logged {P : List ε × σ → ι → Prop} {Q : List ε → σ → Prop}
    (hstep : ∀ es s i s' es', Q es s → P (es, s) i → step s i = .ok (s', es') → Q (es ++ es') s')
    {is : List ι} {s s' : σ} {es₀ es : List ε} (h₀ : Q es₀ s)
    (hP : Along (logged step) P (es₀, s) is) (h : run step s is = .ok (s', es)) :
    Q (es₀ ++ es) s' := by
  refine run_along_state (R := fun t => Q t.1 t.2) (fun t i t' es' ht hi hlogged => ?_) h₀ hP
    (run_logged h)
  obtain ⟨s₁, h₁, rfl⟩ := logged_eq_ok.mp hlogged
  exact hstep t.1 t.2 i s₁ es' ht hi h₁

theorem along_of_forall {P : σ → ι → Prop} {is : List ι} (h : ∀ i ∈ is, ∀ s, P s i) (s : σ) :
    Along step P s is := by
  induction is generalizing s with
  | nil => trivial
  | cons i is ih =>
    exact along_cons.mpr ⟨h i List.mem_cons_self s,
      fun s₁ _ _ => ih (fun j hj => h j (List.mem_cons_of_mem i hj)) s₁⟩

theorem run_invariant {Q : List ε → σ → Prop}
    (hstep : ∀ es s i s' es', Q es s → step s i = .ok (s', es') → Q (es ++ es') s')
    {is : List ι} {s s' : σ} {es₀ es : List ε} (h₀ : Q es₀ s)
    (h : run step s is = .ok (s', es)) : Q (es₀ ++ es) s' :=
  run_along (fun es s i s' es' hq _ => hstep es s i s' es' hq) h₀
    (along_of_forall (fun _ _ _ => trivial) s) h

/-- **Progress rule**, for a condition on the inputs that are left and the state. -/
theorem run_progress {Q : List ι → σ → Prop}
    (hstep : ∀ i is s, Q (i :: is) s → ∃ s' es, step s i = .ok (s', es) ∧ Q is s') :
    ∀ {is : List ι} {s : σ}, Q is s → ∃ s' es, run step s is = .ok (s', es) ∧ Q [] s' := by
  intro is
  induction is with
  | nil => exact fun {s} h => ⟨s, [], rfl, h⟩
  | cons i is ih =>
    intro s h
    obtain ⟨s₁, es₁, h₁, hrest⟩ := hstep i is s h
    obtain ⟨s₂, es₂, h₂, hend⟩ := ih hrest
    exact ⟨s₂, es₁ ++ es₂, run_cons_eq_ok.mpr ⟨s₁, es₁, es₂, h₁, h₂, rfl⟩, hend⟩

/-- Where the input alone decides whether a step returns, a run returns exactly if all its inputs are of
that kind. -/
theorem run_isOk_iff {ok : ι → Prop} (hstep : ∀ s i, (∃ res, step s i = .ok res) ↔ ok i)
    {is : List ι} {s : σ} : (∃ res, run step s is = .ok res) ↔ ∀ i ∈ is, ok i := by
  constructor
  · rintro ⟨⟨s', es⟩, hrun⟩ i hi
    obtain ⟨pre, post, rfl⟩ := List.append_of_mem hi
    obtain ⟨s₁, _, _, -, hrest, -⟩ := run_append_eq_ok.mp hrun
    obtain ⟨s₂, es₂, _, hi, -⟩ := run_cons_eq_ok.mp hrest
    exact (hstep s₁ i).mp ⟨(s₂, es₂), hi⟩
  · intro hall
    obtain ⟨s', es, hrun, -⟩ := run_progress (Q := fun is _ => ∀ i ∈ is, ok i) (fun i is s h => by
      obtain ⟨hi, hrest⟩ := List.forall_mem_cons.mp h
      obtain ⟨⟨s', es⟩, hs⟩ := (hstep s i).mpr hi
      exact ⟨s', es, hs, hrest⟩) hall
    exact ⟨(s', es), hrun⟩

theorem run_states_iff {ε' : Type} {step' : σ → ι → Checked (σ × List ε')}
    (hstep : ∀ s i s', (∃ es, step s i = .ok (s', es)) ↔ ∃ es, step' s i = .ok (s', es))
    {s s' : σ} {is : List ι} :
    (∃ es, run step s is = .ok (s', es)) ↔ ∃ es, run step' s is = .ok (s', es) := by
  induction is generalizing s with
  | nil => simp
  | cons i is ih =>
    simp only [run_cons_eq_ok]
    constructor
    · rintro ⟨_, s₁, es₁, es₂, h₁, h₂, -⟩
      obtain ⟨es₁', h₁'⟩ := (hstep s i s₁).mp ⟨es₁, h₁⟩
      obtain ⟨es₂', h₂'⟩ := ih.mp ⟨es₂, h₂⟩
      exact ⟨_, s₁, es₁', es₂', h₁', h₂', rfl⟩
    · rintro ⟨_, s₁, es₁, es₂, h₁, h₂, -⟩
      obtain ⟨es₁', h₁'⟩ := (hstep s i s₁).mpr ⟨es₁, h₁⟩
      obtain ⟨es₂', h₂'⟩ := ih.mpr ⟨es₂, h₂⟩
      exact ⟨_, s₁, es₁', es₂', h₁', h₂', rfl⟩

end Machine
