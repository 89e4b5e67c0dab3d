import Mathlib.Tactic.Common

/-!
# Checked execution

A C function whose behaviour can be undefined, or that can end the process, is modelled as a
function into `Checked α = Except Fault α`: an error stands for an execution about which the
language promises nothing (or for the end of the process), a value for a defined execution.

* `Fault` — the ways a modelled execution can stop.
* `inBounds` — a bounds test in front of a store or a load.
* `bind_eq_ok`, `inBounds_bind_eq_ok` — inversion of a sequence of checked steps.
* `mapM_eq_ok` — a `mapM` whose calls all succeed is the `map` of their values.
-/

set_option autoImplicit false

namespace CLib

/-- How a modelled execution stops without a result. -/
inductive Fault where
  | outOfBounds
  | nullDeref
  | uninit
  | exit
  deriving DecidableEq, Repr

abbrev Checked (α : Type) := Except Fault α

variable {α β γ : Type}

@[simp] theorem ok_bind (a : α) (f : α → Checked β) : (Except.ok a >>= f : Checked β) = f a := rfl

@[simp] theorem error_bind (e : Fault) (f : α → Checked β) :
    (Except.error e >>= f : Checked β) = Except.error e := rfl

@[simp] theorem pure_eq_ok (a : α) : (pure a : Checked α) = Except.ok a := rfl

theorem bind_eq_ok {x : Checked α} {f : α → Checked β} {b : β} :
    (x >>= f) = .ok b ↔ ∃ a, x = .ok a ∧ f a = .ok b := by
  cases x <;> simp

theorem map_eq_ok {x : Checked α} {f : α → β} {b : β} :
    x.map f = .ok b ↔ ∃ a, x = .ok a ∧ f a = b := by
  cases x <;> simp [Except.map]

/-- The test in front of an access: the execution goes on only if `p` holds. -/
def inBounds (p : Prop) [Decidable p] : Checked Unit :=
  if p then .ok () else .error .outOfBounds

theorem inBounds_pos {p : Prop} [Decidable p] (h : p) : inBounds p = .ok () := if_pos h

theorem inBounds_neg {p : Prop} [Decidable p] (h : ¬ p) : inBounds p = .error .outOfBounds :=
  if_neg h

theorem inBounds_eq_ok {p : Prop} [Decidable p] {u : Unit} : inBounds p = .ok u ↔ p := by
  by_cases h : p <;> simp [inBounds, h]

theorem inBounds_bind_eq_ok {p : Prop} [Decidable p] {f : Unit → Checked β} {b : β} :
    (inBounds p >>= f) = .ok b ↔ p ∧ f () = .ok b := by
  by_cases h : p <;> simp [inBounds, h]

theorem mapM_eq_ok {f : α → Checked β} {g : α → β} :
    ∀ {l : List α}, (∀ a ∈ l, f a = .ok (g a)) → l.mapM f = .ok (l.map g)
  | [], _ => rfl
  | a :: l, h => by
    have ih := mapM_eq_ok (l := l) (fun b hb => h b (List.mem_cons_of_mem _ hb))
    simp only [List.mapM_cons, h a List.mem_cons_self, ih, ok_bind, pure_eq_ok, List.map_cons]

end CLib
