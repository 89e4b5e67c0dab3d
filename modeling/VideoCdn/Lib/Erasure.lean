import VideoCdn.Lib.Machine

/-!
# Data that a machine does not depend on

`erase` takes a state to what is left of it without some of its data.

* `erased` — the outcome of a step, with the state erased: its fault or its events are kept.
* `Respects erase step` — states that are equal once erased have the same outcome once erased.
* `Respects.of_factor` — such a step is one on what is left of the state.
* `Respects.seq`, `Respects.run` — **composition**: a sequence of such steps, or a run of them, does
  not depend on the erased data either.
-/

set_option autoImplicit false

namespace Erasure

open CLib

variable {α β γ σ τ ι ε : Type}

theorem map_bind (x : Checked α) (f : α → Checked β) (g : β → γ) :
    (x >>= f).map g = x >>= fun a => (f a).map g := by
  cases x <;> rfl

/-- What is done with a result may be done after the rest of it has been dropped. -/
theorem bind_map (x : Checked α) (g : α → β) (f : β → Checked γ) :
    (x.map g >>= f) = x >>= fun a => f (g a) := by
  cases x <;> rfl

variable (erase : σ → τ)

def erased (result : Checked (σ × List ε)) : Checked (τ × List ε) :=
  result.map fun r => (erase r.1, r.2)

def Respects (step : σ → Checked (σ × List ε)) : Prop :=
  ∀ s s', erase s = erase s' → erased erase (step s) = erased erase (step s')

variable {erase}

@[simp] theorem erased_ok (s : σ) (es : List ε) :
    erased erase (.ok (s, es)) = .ok (erase s, es) := rfl

@[simp] theorem erased_error (e : Fault) :
    erased erase (.error e : Checked (σ × List ε)) = .error e := rfl

/-- What comes behind a step may come behind what is left of it. -/
theorem erased_bind {f : σ × List ε → Checked (σ × List ε)} {g : τ × List ε → Checked (τ × List ε)}
    (h : ∀ s es, erased erase (f (s, es)) = g (erase s, es)) (x : Checked (σ × List ε)) :
    erased erase (x >>= f) = erased erase x >>= g := by
  cases x with
  | error e => rfl
  | ok r => exact h r.1 r.2

theorem Respects.skip : Respects erase (fun s => (.ok (s, []) : Checked (σ × List ε))) := by
  intro s s' h
  rw [erased_ok, erased_ok, h]

/-- The outcome is a function of what is left of the state. -/
theorem Respects.of_factor {step : σ → Checked (σ × List ε)} {f : τ → Checked (τ × List ε)}
    (h : ∀ s, erased erase (step s) = f (erase s)) : Respects erase step := by
  intro s s' heq
  rw [h, h, heq]

/-- Two outcomes that agree fail in the same way, or both return. -/
theorem erased_cases {r r' : Checked (σ × List ε)} (h : erased erase r = erased erase r') :
    (∃ e, r = .error e ∧ r' = .error e) ∨
    ∃ s s' es, r = .ok (s, es) ∧ r' = .ok (s', es) ∧ erase s = erase s' := by
  cases r with
  | error e =>
    cases r' with
    | error e' =>
      rw [erased_error, erased_error, Except.error.injEq] at h
      exact Or.inl ⟨e, rfl, by rw [h]⟩
    | ok p' => cases h
  | ok p =>
    cases r' with
    | error e' => cases h
    | ok p' =>
      obtain ⟨s, es⟩ := p
      obtain ⟨s', es'⟩ := p'
      rw [erased_ok, erased_ok, Except.ok.injEq, Prod.mk.injEq] at h
      exact Or.inr ⟨s, s', es, rfl, by rw [h.2], h.1⟩

/-- **Two steps**, one after the other. -/
theorem Respects.seq {f g : σ → Checked (σ × List ε)} (hf : Respects erase f)
    (hg : Respects erase g) : Respects erase (fun s => do
      let (s₁, es₁) ← f s
      let (s₂, es₂) ← g s₁
      return (s₂, es₁ ++ es₂)) := by
  intro s s' h
  rcases erased_cases (hf s s' h) with ⟨e, hr, hr'⟩ | ⟨s₁, s₁', es₁, hr, hr', h₁⟩
  · simp only [hr, hr', error_bind]
  simp only [hr, hr', ok_bind]
  rcases erased_cases (hg s₁ s₁' h₁) with ⟨e, hr, hr'⟩ | ⟨s₂, s₂', es₂, hr, hr', h₂⟩
  · simp only [hr, hr', error_bind]
  · simp only [hr, hr', ok_bind, pure_eq_ok, erased_ok, h₂]

/-- **A run.** -/
theorem Respects.run {step : σ → ι → Checked (σ × List ε)}
    (hstep : ∀ i, Respects erase (fun s => step s i)) (is : List ι) :
    Respects erase (fun s => Machine.run step s is) := by
  induction is with
  | nil => exact .skip
  | cons i is ih => exact (hstep i).seq ih

end Erasure
