import Mathlib.Tactic.Common

/-!
# Logs that follow a protocol

A protocol is a partial step function `σ → ε → Option σ`: how far an exchange has come, and where an
event takes it, if the event may come there.

* `Follows next s es s'` — the events `es` may come in this order from `s` on, and lead to `s'`.
* `Follows.append`, `Follows.snoc` — logs are continued, event by event.
* `Follows.invariant` — what every event keeps holds at the end of a log.
* `Follows.countP_le` — **counting**: if no event earns less than it spends, counted with what is left
  in the state, then a log has no more events of the spending kind than of the earning one.
* `Follows.countP_eq` — **conservation**: if every event earns what it spends, then all that a log has
  earned is spent or left.
-/

set_option autoImplicit false

namespace Protocol

variable {σ ε : Type} (next : σ → ε → Option σ)

def Follows (s : σ) (es : List ε) (s' : σ) : Prop := es.foldlM next s = some s'

variable {next}

theorem Follows.nil (s : σ) : Follows next s [] s := rfl

theorem follows_cons {s s' : σ} {e : ε} {es : List ε} :
    Follows next s (e :: es) s' ↔ ∃ s₁, next s e = some s₁ ∧ Follows next s₁ es s' := by
  unfold Follows
  rw [List.foldlM_cons, Option.bind_eq_bind, Option.bind_eq_some_iff]

theorem follows_append {s s' : σ} {es fs : List ε} :
    Follows next s (es ++ fs) s' ↔ ∃ s₁, Follows next s es s₁ ∧ Follows next s₁ fs s' := by
  unfold Follows
  rw [List.foldlM_append, Option.bind_eq_bind, Option.bind_eq_some_iff]

theorem Follows.append {s s₁ s' : σ} {es fs : List ε} (h : Follows next s es s₁)
    (h' : Follows next s₁ fs s') : Follows next s (es ++ fs) s' :=
  follows_append.mpr ⟨s₁, h, h'⟩

theorem Follows.snoc {s s₁ s' : σ} {es : List ε} {e : ε} (h : Follows next s es s₁)
    (he : next s₁ e = some s') : Follows next s (es ++ [e]) s' :=
  h.append (follows_cons.mpr ⟨s', he, Follows.nil s'⟩)

/-- Events that may come in a state, and leave it as it is. -/
theorem Follows.of_stays {s : σ} {es : List ε} (h : ∀ e ∈ es, next s e = some s) :
    Follows next s es s := by
  induction es with
  | nil => exact .nil s
  | cons e es ih =>
    obtain ⟨he, hes⟩ := List.forall_mem_cons.mp h
    exact follows_cons.mpr ⟨s, he, ih hes⟩

/-- **Invariants**: what every event keeps holds at the end of a log. -/
theorem Follows.invariant {P : σ → Prop} (hstep : ∀ s e s', P s → next s e = some s' → P s') {s s' : σ}
    {es : List ε} (hs : P s) (h : Follows next s es s') : P s' := by
  induction es generalizing s with
  | nil =>
    cases h
    exact hs
  | cons e es ih =>
    obtain ⟨s₁, he, hes⟩ := follows_cons.mp h
    exact ih (hstep s e s₁ hs he) hes

/-- **Counting**: `left` is what an exchange may still spend, and `used` what it has spent. -/
theorem Follows.countP_add_le {spends earns : ε → Bool} {left used : σ → Nat}
    (hstep : ∀ s e s', next s e = some s' →
      (spends e).toNat + left s' + used s ≤ (earns e).toNat + left s + used s') {s s' : σ}
    {es : List ε} (h : Follows next s es s') :
    es.countP spends + left s' + used s ≤ es.countP earns + left s + used s' := by
  induction es generalizing s with
  | nil =>
    cases h
    simp
  | cons e es ih =>
    obtain ⟨s₁, he, hes⟩ := follows_cons.mp h
    have hone := hstep s e s₁ he
    have hrest := ih hes
    rw [List.countP_cons, List.countP_cons]
    cases hs : spends e <;> cases hr : earns e <;> simp only [hs, hr, Bool.toNat_true,
      Bool.toNat_false, if_true, if_false, Bool.false_eq_true] at hone ⊢ <;> omega

theorem Follows.countP_le {spends earns : ε → Bool} {left : σ → Nat}
    (hstep : ∀ s e s', next s e = some s' →
      (spends e).toNat + left s' ≤ (earns e).toNat + left s) {s s' : σ} {es : List ε}
    (h : Follows next s es s') : es.countP spends + left s' ≤ es.countP earns + left s :=
  @countP_add_le σ ε next spends earns left (fun _ => 0) hstep s s' es h

/-- **Conservation**: an event that is spent or earned changes what is left by as much. -/
theorem Follows.countP_eq {spends earns : ε → Bool} {left : σ → Nat}
    (hstep : ∀ s e s', next s e = some s' →
      (spends e).toNat + left s' = (earns e).toNat + left s) {s s' : σ} {es : List ε}
    (h : Follows next s es s') : es.countP spends + left s' = es.countP earns + left s := by
  refine Nat.le_antisymm (h.countP_le fun s e s' he => Nat.le_of_eq (hstep s e s' he)) ?_
  have hback : ∀ s e s', next s e = some s' →
      (earns e).toNat + 0 + left s ≤ (spends e).toNat + 0 + left s' := by
    intro s e s' he
    have hone := hstep s e s' he
    omega
  exact @countP_add_le σ ε next earns spends (fun _ => 0) left hback s s' es h

end Protocol
