import Mathlib.Data.Set.Basic
import Mathlib.Data.Set.Insert
import Mathlib.Order.Bounds.Basic
import Mathlib.Tactic.Common

/-!
# Shortest paths up to a cap

Directed graphs with natural weights, `w u v = 0` meaning that there is no edge from `u` to `v`.

* `Walk w s v d` — a walk of total length `d` from `s` to `v`.
* `CappedDist w cap s dist` — `dist v` is the length of a shortest walk from `s` to `v` where that
  is less than `cap`, and `cap` elsewhere (`CappedDist.eq_min`, `CappedDist.eq_cap`).
* `Settling` — the invariant of Dijkstra's algorithm for a set of settled vertices; `settle` is one
  round (`Settling.settle`), `Settling.cappedDist` its use once no open edge is left.
* `Hops adj s v n` — `v` is `n` steps of the relation `adj` away from `s`; `CappedHops` is the
  distance in hops, obtained from the weights `1` and `cap` by `CappedDist.hops`.
-/

set_option autoImplicit false

namespace ShortestPath

variable {V : Type}

/-- A walk of total length `d` from `s`, over positive entries of `w`. -/
inductive Walk (w : V → V → Nat) (s : V) : V → Nat → Prop where
  | refl : Walk w s s 0
  | snoc {u v : V} {d : Nat} : Walk w s u d → 0 < w u v → Walk w s v (d + w u v)

/-- Shortest distances from `s`, cut off at `cap`. -/
structure CappedDist (w : V → V → Nat) (cap : Nat) (s : V) (dist : V → Nat) : Prop where
  source : dist s = 0
  le_cap : ∀ v, dist v ≤ cap
  walk : ∀ v, dist v < cap → Walk w s v (dist v)
  relaxed : ∀ u v, 0 < w u v → dist v ≤ dist u + w u v

variable {w : V → V → Nat} {cap : Nat} {s : V} {dist : V → Nat}

namespace CappedDist

theorem le_walk (h : CappedDist w cap s dist) {v : V} {d : Nat} (hw : Walk w s v d) :
    dist v ≤ d := by
  induction hw with
  | refl => exact Nat.le_of_eq h.source
  | @snoc u v d _ hpos ih => exact Nat.le_trans (h.relaxed u v hpos) (by omega)

/-- Where there is a shortest walk, its length up to the cap. -/
theorem eq_min (h : CappedDist w cap s dist) {v : V} {d : Nat} (hd : IsLeast {l | Walk w s v l} d) :
    dist v = min cap d := by
  have hle := h.le_walk hd.1
  have hcap := h.le_cap v
  by_cases hlt : dist v < cap
  · have := hd.2 (h.walk v hlt)
    omega
  · omega

/-- Where there is no walk, the cap. -/
theorem eq_cap (h : CappedDist w cap s dist) {v : V} (hno : ∀ d, ¬ Walk w s v d) : dist v = cap := by
  have hcap := h.le_cap v
  by_contra hne
  exact hno _ (h.walk v (by omega))

end CappedDist

/-! ## Dijkstra's algorithm -/

/-- The invariant of Dijkstra's algorithm: tentative distances `dist`, settled vertices `S`. -/
structure Settling (w : V → V → Nat) (cap : Nat) (s : V) (S : Set V) (dist : V → Nat) : Prop where
  source : dist s = 0
  le_cap : ∀ v, dist v ≤ cap
  walk : ∀ v, dist v < cap → Walk w s v (dist v)
  mono : ∀ u ∈ S, ∀ v, v ∉ S → dist u ≤ dist v
  edge : ∀ u ∈ S, ∀ v, 0 < w u v → dist v ≤ dist u + w u v

/-- Relaxation of the edges out of `u` towards the vertices outside `S`. -/
structure Relaxed (w : V → V → Nat) (cap : Nat) (u : V) (S : Set V) (dist dist' : V → Nat) :
    Prop where
  settled : ∀ v ∈ S, dist' v = dist v
  le : ∀ v, dist' v ≤ dist v
  edge : ∀ v, v ∉ S → 0 < w u v → dist u < cap → dist' v ≤ dist u + w u v
  source : ∀ v, dist' v = dist v ∨ 0 < w u v ∧ dist u < cap ∧ dist' v = dist u + w u v

namespace Settling

theorem init (w : V → V → Nat) (hs : dist s = 0) (hd : ∀ v, v ≠ s → dist v = cap) :
    Settling w cap s ∅ dist where
  source := hs
  le_cap v := by
    by_cases h : v = s
    · rw [h, hs]; exact Nat.zero_le _
    · rw [hd v h]
  walk v hv := by
    by_cases h : v = s
    · rw [h, hs]; exact Walk.refl
    · rw [hd v h] at hv; exact absurd hv (Nat.lt_irrefl _)
  mono _ hu := absurd hu (Set.notMem_empty _)
  edge _ hu := absurd hu (Set.notMem_empty _)

/-- **One round**: settling an unsettled vertex of least distance keeps the invariant. -/
theorem settle {S : Set V} {dist' : V → Nat} {u : V} (h : Settling w cap s S dist) (hu : u ∉ S)
    (hmin : ∀ v, v ∉ S → dist u ≤ dist v) (hr : Relaxed w cap u (insert u S) dist dist') :
    Settling w cap s (insert u S) dist' := by
  have hold : ∀ a ∈ insert u S, dist' a = dist a := hr.settled
  have hbound : ∀ a ∈ insert u S, dist a ≤ dist u := by
    intro a ha
    rcases Set.mem_insert_iff.mp ha with rfl | ha
    · exact Nat.le_refl _
    · exact h.mono a ha u hu
  refine ⟨?_, ?_, ?_, ?_, ?_⟩
  · have := hr.le s
    have := h.source
    omega
  · intro v
    exact Nat.le_trans (hr.le v) (h.le_cap v)
  · intro v hv
    rcases hr.source v with he | ⟨hpos, hlt, he⟩
    · rw [he] at hv ⊢; exact h.walk v hv
    · rw [he]; exact (h.walk u hlt).snoc hpos
  · intro a ha v hv
    rw [hold a ha]
    have hua : dist a ≤ dist u := hbound a ha
    have huv : dist u ≤ dist v := hmin v (fun hvS => hv (Set.mem_insert_of_mem u hvS))
    rcases hr.source v with he | ⟨-, -, he⟩ <;> omega
  · intro a ha v hpos
    rw [hold a ha]
    rcases Set.mem_insert_iff.mp ha with rfl | haS
    · by_cases hv : v ∈ insert a S
      · have := hbound v hv
        rw [hold v hv]
        omega
      · by_cases hlt : dist a < cap
        · exact hr.edge v hv hpos hlt
        · have := h.le_cap v
          have := hr.le v
          omega
    · exact Nat.le_trans (hr.le v) (h.edge a haS v hpos)

/-- The distances are final once every open edge is a loop. -/
theorem cappedDist {S : Set V} (h : Settling w cap s S dist)
    (hdone : ∀ u v, 0 < w u v → u ∉ S → v ∉ S → u = v) : CappedDist w cap s dist where
  source := h.source
  le_cap := h.le_cap
  walk := h.walk
  relaxed u v hpos := by
    by_cases hu : u ∈ S
    · exact h.edge u hu v hpos
    · by_cases hv : v ∈ S
      · have := h.mono v hv u hu
        omega
      · rw [hdone u v hpos hu hv]
        omega

end Settling

/-! ## Hops -/

/-- `v` is reached from `s` in exactly `n` steps of `adj`. -/
inductive Hops (adj : V → V → Prop) (s : V) : V → Nat → Prop where
  | refl : Hops adj s s 0
  | snoc {u v : V} {n : Nat} : Hops adj s u n → adj u v → Hops adj s v (n + 1)

theorem Hops.mono {adj adj' : V → V → Prop} (hsub : ∀ u v, adj u v → adj' u v) {s v : V} {n : Nat}
    (h : Hops adj s v n) : Hops adj' s v n := by
  induction h with
  | refl => exact .refl
  | snoc _ huv ih => exact ih.snoc (hsub _ _ huv)

/-- `n` is the least number of steps from `s` to `v`. -/
def HopDist (adj : V → V → Prop) (s v : V) (n : Nat) : Prop :=
  Hops adj s v n ∧ ∀ m, Hops adj s v m → n ≤ m

/-- Hop distances from `s`, cut off at `cap`. -/
structure CappedHops (adj : V → V → Prop) (cap : Nat) (s : V) (dist : V → Nat) : Prop where
  le_cap : ∀ v, dist v ≤ cap
  hops : ∀ v, dist v < cap → Hops adj s v (dist v)
  le_hops : ∀ v n, Hops adj s v n → dist v ≤ n

/-- A walk shorter than `cap` over the weights `1` (an edge) and `cap` (none) counts hops. -/
theorem Walk.hops {adj : V → V → Prop} (hw : ∀ u v, 0 < w u v → w u v < cap → w u v = 1 ∧ adj u v)
    {v : V} {d : Nat} (h : Walk w s v d) (hd : d < cap) : Hops adj s v d := by
  induction h with
  | refl => exact Hops.refl
  | @snoc u v d _ hpos ih =>
    obtain ⟨h1, hadj⟩ := hw u v hpos (by omega)
    rw [h1]
    exact (ih (by omega)).snoc hadj

theorem CappedDist.hops {adj : V → V → Prop} (h : CappedDist w cap s dist)
    (hw : ∀ u v, 0 < w u v → w u v < cap → w u v = 1 ∧ adj u v)
    (hadj : ∀ u v, adj u v → u ≠ v → w u v = 1) : CappedHops adj cap s dist where
  le_cap := h.le_cap
  hops v hv := (h.walk v hv).hops hw hv
  le_hops v n hn := by
    induction hn with
    | refl => exact Nat.le_of_eq h.source
    | @snoc u v n _ huv ih =>
      by_cases hne : u = v
      · subst hne; omega
      · have h1 := hadj u v huv hne
        have := h.relaxed u v (by omega)
        omega

theorem CappedHops.eq_of_hopDist {adj : V → V → Prop} (h : CappedHops adj cap s dist) {v : V}
    {n : Nat} (hn : HopDist adj s v n) : dist v = min n cap := by
  have h1 := h.le_hops v n hn.1
  have h2 := h.le_cap v
  by_cases hlt : dist v < cap
  · have := hn.2 _ (h.hops v hlt)
    omega
  · omega

theorem CappedHops.lt_iff {adj : V → V → Prop} (h : CappedHops adj cap s dist) {v : V} {n : Nat}
    (hn : n < cap) : n < dist v ↔ ∀ m, Hops adj s v m → n < m := by
  constructor
  · intro hlt m hm
    exact Nat.lt_of_lt_of_le hlt (h.le_hops v m hm)
  · intro hall
    rcases Nat.lt_or_eq_of_le (h.le_cap v) with hlt | heq
    · exact hall _ (h.hops v hlt)
    · rw [heq]; exact hn

theorem CappedHops.le_iff {adj : V → V → Prop} (h : CappedHops adj cap s dist) {v : V} {n : Nat}
    (hn : n < cap) : n ≤ dist v ↔ ∀ m, Hops adj s v m → n ≤ m := by
  constructor
  · intro hle m hm
    exact Nat.le_trans hle (h.le_hops v m hm)
  · intro hall
    rcases Nat.lt_or_eq_of_le (h.le_cap v) with hlt | heq
    · exact hall _ (h.hops v hlt)
    · rw [heq]; exact Nat.le_of_lt hn

theorem CappedHops.eq_iff_hopDist {adj : V → V → Prop} (h : CappedHops adj cap s dist) {v : V}
    {n : Nat} (hn : n < cap) : dist v = n ↔ HopDist adj s v n := by
  constructor
  · rintro rfl
    exact ⟨h.hops v hn, h.le_hops v⟩
  · intro hd
    rw [h.eq_of_hopDist hd]
    omega

end ShortestPath
