import Mathlib.Algebra.BigOperators.Fin
import Mathlib.Algebra.Order.Archimedean.Basic
import Mathlib.Algebra.Order.Field.Basic
import Mathlib.Tactic.Linarith
import Mathlib.Tactic.Ring

/-!
# Exponential smoothing

A running estimate that each measurement pulls towards itself by a fixed weight.

* `smooth α e m` — the estimate `e` after the measurement `m`, which counts with weight `α`.
* `estimate α e ms` — the estimate after the measurements `ms`, from `e`.
* `estimate_eq` — **closed form**: every measurement counts with a weight that decays with its age.
* `exists_le_estimate`, `exists_estimate_le` — for a weight in the unit interval the estimate stays
  between the least and the greatest of its start and its measurements.
* `estimate_sub_le`, `exists_settled` — **settling**: measurements in an interval bring the estimate
  into every open interval around it, after a number of them that depends on the start alone.
-/

set_option autoImplicit false

namespace Smoothing

section estimate
variable {K : Type*} [Ring K]

def smooth (α e m : K) : K := m * α + e * (1 - α)

def estimate (α e : K) (ms : List K) : K := ms.foldl (smooth α) e

@[simp] theorem estimate_nil (α e : K) : estimate α e [] = e := rfl

@[simp] theorem estimate_cons (α e m : K) (ms : List K) :
    estimate α e (m :: ms) = estimate α (smooth α e m) ms := rfl

theorem estimate_append (α e : K) (ms ns : List K) :
    estimate α e (ms ++ ns) = estimate α (estimate α e ms) ns := List.foldl_append

end estimate

section closedForm
variable {K : Type*} [CommRing K]

/-- **The closed form.** -/
theorem estimate_eq (α e : K) (ms : List K) : estimate α e ms =
    (1 - α) ^ ms.length * e + ∑ i : Fin ms.length, α * (1 - α) ^ (ms.length - 1 - i) * ms[i] := by
  induction ms generalizing e with
  | nil => simp
  | cons m ms ih =>
    rw [estimate_cons, ih]
    simp only [List.length_cons, Fin.sum_univ_succ, Fin.getElem_fin, Fin.val_zero, Fin.val_succ,
      List.getElem_cons_zero, List.getElem_cons_succ, Nat.add_sub_cancel, Nat.sub_zero]
    have hage : ∀ i : Fin ms.length, ms.length - (i + 1) = ms.length - 1 - i := fun i => by omega
    simp only [hage, smooth]
    ring

/-- Smoothing has no direction. -/
theorem estimate_neg (α e : K) (ms : List K) :
    estimate α (-e) (ms.map Neg.neg) = -estimate α e ms := by
  induction ms generalizing e with
  | nil => rfl
  | cons m ms ih =>
    have hstep : smooth α (-e) (-m) = -smooth α e m := by
      unfold smooth
      ring
    rw [List.map_cons, estimate_cons, estimate_cons, hstep, ih]

end closedForm

section bounds
variable {K : Type*} [CommRing K] [LinearOrder K] [IsStrictOrderedRing K] {α : K}

/-- One step stays between the estimate and the measurement. -/
theorem le_smooth (h0 : 0 ≤ α) (h1 : α ≤ 1) {lo e m : K} (he : lo ≤ e) (hm : lo ≤ m) :
    lo ≤ smooth α e m := by
  have hnew := mul_le_mul_of_nonneg_right hm h0
  have hold := mul_le_mul_of_nonneg_right he (sub_nonneg.mpr h1)
  unfold smooth
  linarith

theorem smooth_le (h0 : 0 ≤ α) (h1 : α ≤ 1) {hi e m : K} (he : e ≤ hi) (hm : m ≤ hi) :
    smooth α e m ≤ hi := by
  have hnew := mul_le_mul_of_nonneg_right hm h0
  have hold := mul_le_mul_of_nonneg_right he (sub_nonneg.mpr h1)
  unfold smooth
  linarith

theorem exists_le_estimate (h0 : 0 ≤ α) (h1 : α ≤ 1) (e : K) (ms : List K) :
    ∃ lo ∈ e :: ms, lo ≤ estimate α e ms := by
  induction ms generalizing e with
  | nil => exact ⟨e, by simp, le_refl e⟩
  | cons m ms ih =>
    obtain ⟨lo, hlo, hle⟩ := ih (smooth α e m)
    rcases List.mem_cons.mp hlo with rfl | hlo
    · have hmin := le_smooth h0 h1 (min_le_left e m) (min_le_right e m)
      rcases min_choice e m with hm | hm
      · exact ⟨e, by simp, by rw [hm] at hmin; exact hmin.trans hle⟩
      · exact ⟨m, by simp, by rw [hm] at hmin; exact hmin.trans hle⟩
    · exact ⟨lo, by simp [hlo], hle⟩

theorem exists_estimate_le (h0 : 0 ≤ α) (h1 : α ≤ 1) (e : K) (ms : List K) :
    ∃ hi ∈ e :: ms, estimate α e ms ≤ hi := by
  induction ms generalizing e with
  | nil => exact ⟨e, by simp, le_refl e⟩
  | cons m ms ih =>
    obtain ⟨hi, hhi, hle⟩ := ih (smooth α e m)
    rcases List.mem_cons.mp hhi with rfl | hhi
    · have hmax := smooth_le h0 h1 (le_max_left e m) (le_max_right e m)
      rcases max_choice e m with hm | hm
      · exact ⟨e, by simp, by rw [hm] at hmax; exact hle.trans hmax⟩
      · exact ⟨m, by simp, by rw [hm] at hmax; exact hle.trans hmax⟩
    · exact ⟨hi, by simp [hhi], hle⟩

/-- What the estimate is too high decays with every measurement. -/
theorem smooth_sub_le (h0 : 0 ≤ α) (h1 : α ≤ 1) {hi e m : K} (hm : m ≤ hi) :
    max (smooth α e m - hi) 0 ≤ (1 - α) * max (e - hi) 0 := by
  have hweight : 0 ≤ 1 - α := sub_nonneg.mpr h1
  have hnew : (m - hi) * α ≤ 0 := mul_nonpos_of_nonpos_of_nonneg (sub_nonpos.mpr hm) h0
  have hold : (1 - α) * (e - hi) ≤ (1 - α) * max (e - hi) 0 :=
    mul_le_mul_of_nonneg_left (le_max_left _ _) hweight
  have hsplit : smooth α e m - hi = (m - hi) * α + (1 - α) * (e - hi) := by
    unfold smooth
    ring
  refine max_le ?_ (mul_nonneg hweight (le_max_right _ _))
  rw [hsplit]
  linarith

theorem estimate_sub_le (h0 : 0 ≤ α) (h1 : α ≤ 1) {hi : K} (e : K) {ms : List K}
    (hms : ∀ m ∈ ms, m ≤ hi) :
    estimate α e ms ≤ hi + (1 - α) ^ ms.length * max (e - hi) 0 := by
  induction ms generalizing e with
  | nil =>
    have hmax := le_max_left (e - hi) 0
    rw [estimate_nil, List.length_nil, pow_zero, one_mul]
    linarith
  | cons m ms ih =>
    have hrest := ih (smooth α e m) (fun x hx => hms x (List.mem_cons_of_mem m hx))
    have hpow : 0 ≤ (1 - α) ^ ms.length := pow_nonneg (sub_nonneg.mpr h1) _
    have hstep := mul_le_mul_of_nonneg_left
      (smooth_sub_le h0 h1 (e := e) (hms m List.mem_cons_self)) hpow
    rw [estimate_cons, List.length_cons, pow_succ, mul_assoc]
    linarith

end bounds

section settled
variable {K : Type*} [Field K] [LinearOrder K] [IsStrictOrderedRing K] [Archimedean K] {α : K}

theorem exists_estimate_lt (h0 : 0 < α) (h1 : α ≤ 1) {hi b : K} (hb : hi < b) (e : K) :
    ∃ N, ∀ ms : List K, N ≤ ms.length → (∀ m ∈ ms, m ≤ hi) → estimate α e ms < b := by
  have hexcess : 0 < max (e - hi) 0 + 1 := lt_of_le_of_lt (le_max_right (e - hi) 0) (lt_add_one _)
  obtain ⟨N, hN⟩ := exists_pow_lt_of_lt_one (div_pos (sub_pos.mpr hb) hexcess)
    (sub_lt_self 1 h0)
  refine ⟨N, fun ms hlength hms => ?_⟩
  have hpow : (1 - α) ^ ms.length ≤ (1 - α) ^ N :=
    pow_le_pow_of_le_one (sub_nonneg.mpr h1) (sub_le_self 1 h0.le) hlength
  have hnonneg : 0 ≤ (1 - α) ^ ms.length := pow_nonneg (sub_nonneg.mpr h1) _
  have hsmall : (1 - α) ^ ms.length * (max (e - hi) 0 + 1) < b - hi :=
    (lt_div_iff₀ hexcess).mp (lt_of_le_of_lt hpow hN)
  have hbound := estimate_sub_le h0.le h1 e hms
  rw [mul_add, mul_one] at hsmall
  linarith

/-- **Settling.** -/
theorem exists_settled (h0 : 0 < α) (h1 : α ≤ 1) {lo hi a b : K} (ha : a < lo) (hb : hi < b)
    (e : K) : ∃ N, ∀ ms : List K, N ≤ ms.length → (∀ m ∈ ms, lo ≤ m ∧ m ≤ hi) →
      a < estimate α e ms ∧ estimate α e ms < b := by
  obtain ⟨N₁, hbelow⟩ := exists_estimate_lt h0 h1 hb e
  obtain ⟨N₂, habove⟩ := exists_estimate_lt h0 h1 (neg_lt_neg ha) (-e)
  refine ⟨max N₁ N₂, fun ms hlength hms => ⟨?_, ?_⟩⟩
  · have hneg := habove (ms.map Neg.neg) (by rw [List.length_map]; omega) (by
      intro m hm
      obtain ⟨x, hx, rfl⟩ := List.mem_map.mp hm
      exact neg_le_neg (hms x hx).1)
    rw [estimate_neg] at hneg
    exact neg_lt_neg_iff.mp hneg
  · exact hbelow ms (by omega) fun m hm => (hms m hm).2

end settled

end Smoothing
