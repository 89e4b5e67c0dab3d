import Mathlib.Data.List.Induction
import Mathlib.Order.Defs.LinearOrder
import Mathlib.Tactic.Common

/-!
# Scanning for a first minimum

A loop that keeps the best element seen so far and replaces it only on a strict improvement returns
the first minimum below its starting bound.

* `scanMin key cap l` — the loop, started at the bound `cap` with nothing found.
* `FirstMin key cap l a` — `a` occurs in `l` with a key below `cap`, every earlier key is larger and
  no later key is smaller.
* `foldl_minStep`, `scanMin_eq_some_iff` — the loop computes exactly that.
* `find?_reverse_greatest` — a search from the end of a sorted table stops at the greatest element
  that passes.
-/

set_option autoImplicit false

namespace Scan

variable {α : Type} (key : α → Nat) (cap : Nat)

/-- One comparison of the scan: the best key so far, and where it was found. -/
def minStep (acc : Nat × Option α) (a : α) : Nat × Option α :=
  if key a < acc.1 then (key a, some a) else acc

def scanMin (l : List α) : Option α := (l.foldl (minStep key) (cap, none)).2

/-- `a` is the first element of `l` with the least key, and that key is below `cap`. -/
def FirstMin (l : List α) (a : α) : Prop :=
  ∃ pre post, l = pre ++ a :: post ∧ key a < cap ∧
    (∀ b ∈ pre, key a < key b) ∧ ∀ b ∈ post, key a ≤ key b

variable {key cap}

theorem FirstMin.mem {l : List α} {a : α} (h : FirstMin key cap l a) : a ∈ l := by
  obtain ⟨pre, post, rfl, -⟩ := h
  simp

theorem FirstMin.lt_cap {l : List α} {a : α} (h : FirstMin key cap l a) : key a < cap := by
  obtain ⟨-, -, -, hcap, -⟩ := h
  exact hcap

theorem FirstMin.le {l : List α} {a b : α} (h : FirstMin key cap l a) (hb : b ∈ l) :
    key a ≤ key b := by
  obtain ⟨pre, post, rfl, -, hpre, hpost⟩ := h
  rcases List.mem_append.mp hb with hb | hb
  · exact Nat.le_of_lt (hpre b hb)
  · rcases List.mem_cons.mp hb with rfl | hb
    · exact Nat.le_refl _
    · exact hpost b hb

/-- What is left of the list without elements other than the first minimum has the same one. -/
theorem FirstMin.filter {l : List α} {a : α} (h : FirstMin key cap l a) {keep : α → Bool}
    (ha : keep a = true) : FirstMin key cap (l.filter keep) a := by
  obtain ⟨pre, post, rfl, hcap, hpre, hpost⟩ := h
  refine ⟨pre.filter keep, post.filter keep, ?_, hcap, fun b hb => ?_, fun b hb => ?_⟩
  · rw [List.filter_append, List.filter_cons_of_pos ha]
  · exact hpre b (List.mem_filter.mp hb).1
  · exact hpost b (List.mem_filter.mp hb).1

variable (key cap) in
/-- The state of the scan after the whole of `l`. -/
theorem foldl_minStep (l : List α) :
    (l.foldl (minStep key) (cap, none) = (cap, none) ∧ ∀ a ∈ l, cap ≤ key a) ∨
    ∃ a, l.foldl (minStep key) (cap, none) = (key a, some a) ∧ FirstMin key cap l a := by
  induction l using List.reverseRecOn with
  | nil => exact Or.inl ⟨rfl, fun a ha => by cases ha⟩
  | append_singleton l x ih =>
    rw [List.foldl_append]
    rcases ih with ⟨he, hall⟩ | ⟨a, he, hmin⟩
    · rw [he]
      by_cases hx : key x < cap
      · refine Or.inr ⟨x, by simp [minStep, hx], l, [], rfl, hx, ?_, by simp⟩
        intro b hb
        exact Nat.lt_of_lt_of_le hx (hall b hb)
      · refine Or.inl ⟨by simp [minStep, hx], ?_⟩
        intro b hb
        rcases List.mem_append.mp hb with hb | hb
        · exact hall b hb
        · rw [List.mem_singleton.mp hb]; omega
    · rw [he]
      by_cases hx : key x < key a
      · refine Or.inr ⟨x, by simp [minStep, hx], l, [], rfl, ?_, ?_, by simp⟩
        · exact Nat.lt_trans hx hmin.lt_cap
        · intro b hb
          exact Nat.lt_of_lt_of_le hx (hmin.le hb)
      · refine Or.inr ⟨a, by simp [minStep, hx], ?_⟩
        obtain ⟨pre, post, rfl, hcap, hpre, hpost⟩ := hmin
        refine ⟨pre, post ++ [x], by simp, hcap, hpre, ?_⟩
        intro b hb
        rcases List.mem_append.mp hb with hb | hb
        · exact hpost b hb
        · rw [List.mem_singleton.mp hb]; omega

/-- Two first minima of one list are the same element. -/
theorem FirstMin.unique {l : List α} {a b : α} (ha : FirstMin key cap l a)
    (hb : FirstMin key cap l b) : a = b := by
  obtain ⟨p, q, rfl, -, hp, hq⟩ := ha
  obtain ⟨p', q', he, -, hp', hq'⟩ := hb
  rcases List.append_eq_append_iff.mp he with ⟨t, ht, hrest⟩ | ⟨t, ht, hrest⟩
  · cases t with
    | nil => simp only [List.nil_append, List.cons.injEq] at hrest; exact hrest.1
    | cons c t =>
      simp only [List.cons_append, List.cons.injEq] at hrest
      have h1 : key b < key a := hp' a (by rw [ht, hrest.1]; simp)
      have h2 : key a ≤ key b := hq b (by rw [hrest.2]; simp)
      omega
  · cases t with
    | nil => simp only [List.nil_append, List.cons.injEq] at hrest; exact hrest.1.symm
    | cons c t =>
      simp only [List.cons_append, List.cons.injEq] at hrest
      have h1 : key a < key b := hp b (by rw [ht, hrest.1]; simp)
      have h2 : key b ≤ key a := hq' a (by rw [hrest.2]; simp)
      omega

/-- **The scan returns the first minimum.** -/
theorem scanMin_eq_some_iff {l : List α} {a : α} :
    scanMin key cap l = some a ↔ FirstMin key cap l a := by
  unfold scanMin
  rcases foldl_minStep key cap l with ⟨he, hall⟩ | ⟨b, he, hmin⟩
  · rw [he]
    refine ⟨fun h => (by cases h), fun h => ?_⟩
    have := hall a h.mem
    have := h.lt_cap
    omega
  · rw [he]
    refine ⟨fun h => (by cases h; exact hmin), fun h => ?_⟩
    rw [h.unique hmin]

/-! ## Tables in order -/

theorem find?_reverse_greatest [Preorder α] {table : List α} (hsorted : table.Pairwise (· ≤ ·))
    {p : α → Bool} {a : α} (h : table.reverse.find? p = some a) :
    p a = true ∧ ∀ b ∈ table, p b = true → b ≤ a := by
  obtain ⟨ha, front, back, hsplit, hfront⟩ := List.find?_eq_some_iff_append.mp h
  refine ⟨ha, fun b hmem hb => ?_⟩
  have hdesc := List.pairwise_reverse.mpr hsorted
  rw [hsplit, List.pairwise_append, List.pairwise_cons] at hdesc
  rw [← List.mem_reverse, hsplit, List.mem_append, List.mem_cons] at hmem
  rcases hmem with hmem | rfl | hmem
  · have := hfront b hmem
    simp [hb] at this
  · exact le_refl b
  · exact hdesc.2.1.1 b hmem

end Scan
