import VideoCdn.Dijkstra

/-!
# The arithmetic of `dijkstra` (`src/dijkstra.c`)

The same rounds with the additions of two `int`s checked: a sum that does not fit in 32 bits is
undefined behaviour.

* `relaxStepInt`, `dijkstraInt` — the inner loop and the algorithm with checked additions.
* `dijkstraRoundInt_eq` — a tentative distance never exceeds `INT_MAX`, so that on weights up to
  `maxWeight` no addition overflows, and a round is the round over the natural numbers.
* `dijkstraInt_eq` — the checked algorithm is `dijkstra`.
* `dijkstraInt_shortest` — every distance is the length of a shortest path, up to `INT_MAX`, and
  every round finds its vertex.
-/

set_option autoImplicit false

namespace VideoCdn

open CLib ShortestPath

/-- An addition of two `int`s that are not negative. -/
def addInt (a b : Nat) : Checked Nat := do
  inBounds (a + b < 2147483648)
  return a + b

/-- The body of the inner loop.  The sum is formed only if the tests in front of it hold. -/
def relaxStepInt (graph : List (List Nat)) (u : Nat) (sptSet : List Bool) (dist : List Nat)
    (v : Nat) : Checked (List Nat) :=
  if sptSet[v]? = some false ∧ entry graph u v ≠ 0 ∧ distAt dist u ≠ INT_MAX then do
    let sum ← addInt (distAt dist u) (entry graph u v)
    if sum < distAt dist v then return dist.set v sum else return dist
  else .ok dist

def dijkstraRoundInt (graph : List (List Nat)) (V : Nat) (st : List Nat × List Bool)
    (_count : Nat) : Checked (List Nat × List Bool) := do
  let u ← minDistance st.1 st.2 V
  let sptSet := st.2.set u true
  let dist ← (List.range V).foldlM (relaxStepInt graph u sptSet) st.1
  return (dist, sptSet)

/-- The arrays `dist` and `sptSet` in front of round `k`. -/
def roundsInt (graph : List (List Nat)) (src V k : Nat) : Checked (List Nat × List Bool) :=
  (List.range k).foldlM (dijkstraRoundInt graph V)
    ((List.replicate V INT_MAX).set src 0, List.replicate V false)

def dijkstraInt (graph : List (List Nat)) (src V : Nat) : Checked (List Nat) := do
  inBounds (src < V)
  let st ← roundsInt graph src V (V - 1)
  return st.1

/-- The largest weight for which no sum can overflow. -/
def maxWeight : Nat := 2147483638

/-! ## No overflow -/

theorem relaxStepInt_eq {graph : List (List Nat)} {u v : Nat} {dist : List Nat}
    (sptSet : List Bool) (hcap : distAt dist u ≤ INT_MAX) (hw : entry graph u v ≤ maxWeight) :
    relaxStepInt graph u sptSet dist v = .ok (relaxStep graph u sptSet dist v) := by
  unfold relaxStepInt relaxStep
  by_cases h : sptSet[v]? = some false ∧ entry graph u v ≠ 0 ∧ distAt dist u ≠ INT_MAX
  · obtain ⟨hfree, hpos, hfin⟩ := h
    have hsum : distAt dist u + entry graph u v < 2147483648 := by
      unfold INT_MAX at hcap hfin
      unfold maxWeight at hw
      omega
    rw [if_pos ⟨hfree, hpos, hfin⟩]
    unfold addInt
    rw [inBounds_pos hsum, ok_bind, pure_eq_ok, ok_bind]
    by_cases hlt : distAt dist u + entry graph u v < distAt dist v
    · rw [if_pos hlt, if_pos ⟨hfree, hpos, hfin, hlt⟩, pure_eq_ok]
    · rw [if_neg hlt, if_neg (fun hc => hlt hc.2.2.2), pure_eq_ok]
  · rw [if_neg h, if_neg (fun hc => h ⟨hc.1, hc.2.1, hc.2.2.1⟩)]

/-- A relaxation lowers distances only. -/
theorem distAt_relaxStep_le (graph : List (List Nat)) (u : Nat) (sptSet : List Bool)
    (dist : List Nat) (v x : Nat) :
    distAt (relaxStep graph u sptSet dist v) x ≤ max (distAt dist x) INT_MAX := by
  unfold relaxStep
  split
  · rename_i h
    by_cases hv : v < dist.length
    · rw [distAt_set hv]
      split
      · rename_i hx
        subst hx
        exact Nat.le_trans (Nat.le_of_lt h.2.2.2) (Nat.le_max_left _ _)
      · exact Nat.le_max_left _ _
    · rw [List.set_eq_of_length_le (by omega)]
      exact Nat.le_max_left _ _
  · exact Nat.le_max_left _ _

theorem foldlM_relaxStepInt {graph : List (List Nat)} {u : Nat} (sptSet : List Bool) :
    ∀ {l : List Nat} {dist : List Nat}, (∀ v ∈ l, entry graph u v ≤ maxWeight) →
      (∀ x, distAt dist x ≤ INT_MAX) →
      l.foldlM (relaxStepInt graph u sptSet) dist = .ok (l.foldl (relaxStep graph u sptSet) dist)
  | [], _, _, _ => rfl
  | v :: l, dist, hw, hcap => by
    have hcap' : ∀ x, distAt (relaxStep graph u sptSet dist v) x ≤ INT_MAX := by
      intro x
      have := distAt_relaxStep_le graph u sptSet dist v x
      rwa [Nat.max_eq_right (hcap x)] at this
    rw [List.foldlM_cons, relaxStepInt_eq sptSet (hcap u) (hw v List.mem_cons_self), ok_bind,
      foldlM_relaxStepInt sptSet (fun x hx => hw x (List.mem_cons_of_mem v hx)) hcap', List.foldl_cons]

/-- **No addition overflows** in a round. -/
theorem dijkstraRoundInt_eq {graph : List (List Nat)} {src V k : Nat}
    (hw : ∀ u < V, ∀ v < V, entry graph u v ≤ maxWeight) {st : List Nat × List Bool}
    (h : RoundInv graph src V k st) (hk : k < V) (count : Nat) :
    dijkstraRoundInt graph V st count = dijkstraRound graph V st count := by
  obtain ⟨u, hmin, huV, -⟩ := minDistance_spec h.settling.le_cap h.spt_length
    (List.count_pos_iff.mp (by have := h.left; omega))
  have hrelax := foldlM_relaxStepInt (st.2.set u true)
    (fun v hv => hw u huV v (List.mem_range.mp hv)) h.settling.le_cap
  unfold dijkstraRoundInt dijkstraRound relax
  rw [hmin, ok_bind, ok_bind]
  dsimp only
  rw [hrelax, ok_bind]

/-- **The rounds** are defined, they are those of `dijkstra`, and each keeps the invariant. -/
theorem roundsInt_spec {graph : List (List Nat)} {src V : Nat} (hsrc : src < V)
    (hw : ∀ u < V, ∀ v < V, entry graph u v ≤ maxWeight) {k : Nat} (hk : k ≤ V) :
    ∃ st, roundsInt graph src V k = .ok st ∧ RoundInv graph src V k st ∧
      (List.range k).foldlM (dijkstraRound graph V)
        ((List.replicate V INT_MAX).set src 0, List.replicate V false) = .ok st := by
  induction k with
  | zero => exact ⟨_, rfl, RoundInv.init graph hsrc, rfl⟩
  | succ k ih =>
    obtain ⟨st, hrun, hinv, hrun'⟩ := ih (by omega)
    obtain ⟨st', hround, hinv'⟩ := dijkstraRound_spec hinv (by omega) k
    refine ⟨st', ?_, hinv', ?_⟩
    · unfold roundsInt at hrun ⊢
      rw [List.range_succ, List.foldlM_append, hrun, ok_bind, List.foldlM_cons,
        dijkstraRoundInt_eq hw hinv (by omega), hround]
      rfl
    · rw [List.range_succ, List.foldlM_append, hrun', ok_bind, List.foldlM_cons, hround]
      rfl

/-- The checked algorithm is the algorithm. -/
theorem dijkstraInt_eq {graph : List (List Nat)} {src V : Nat} (hsrc : src < V)
    (hw : ∀ u < V, ∀ v < V, entry graph u v ≤ maxWeight) :
    dijkstraInt graph src V = dijkstra graph src V := by
  obtain ⟨st, hrun, -, hrun'⟩ := roundsInt_spec hsrc hw (Nat.sub_le V 1)
  unfold dijkstraInt dijkstra
  rw [hrun, ok_bind]
  dsimp only
  rw [hrun', ok_bind]

/-- The vertex that `minDistance` finds in a round is in bounds and unsettled. -/
def FindsVertex (graph : List (List Nat)) (src V k : Nat) : Prop :=
  ∃ st u, roundsInt graph src V k = .ok st ∧ minDistance st.1 st.2 V = .ok u ∧ u < V ∧
    st.2[u]? = some false

/-- `dist` holds the lengths of the shortest paths from `src`, up to `INT_MAX`, and `INT_MAX` where
there is no path. -/
structure ShortestUpToMax (graph : List (List Nat)) (src V : Nat) (dist : List Nat) : Prop where
  length : dist.length = V
  reached : ∀ v < V, ∀ d, IsLeast {l | Walk (weight graph V) src v l} d →
    dist[v]? = some (min INT_MAX d)
  unreached : ∀ v < V, (∀ d, ¬ Walk (weight graph V) src v d) → dist[v]? = some INT_MAX

/-- **Shortest paths in 32 bits**: `dijkstra` is defined on every matrix whose weights leave room
for a distance, every round finds its vertex, and the distances are the shortest ones. -/
theorem dijkstraInt_shortest (graph : List (List Nat)) {src V : Nat} (hsrc : src < V)
    (hw : ∀ u < V, ∀ v < V, entry graph u v ≤ maxWeight) :
    ∃ dist, dijkstraInt graph src V = .ok dist ∧ ShortestUpToMax graph src V dist ∧
      ∀ k < V - 1, FindsVertex graph src V k := by
  obtain ⟨st, hrun, hinv, -⟩ := roundsInt_spec hsrc hw (Nat.sub_le V 1)
  have hcapped := hinv.cappedDist
  have hget : ∀ v < V, st.1[v]? = some (distAt st.1 v) := by
    intro v hv
    have hlt : v < st.1.length := by rw [hinv.dist_length]; exact hv
    rw [distAt, List.getD_eq_getElem?_getD, List.getElem?_eq_getElem hlt, Option.getD_some]
  refine ⟨st.1, ?_, ⟨hinv.dist_length, ?_, ?_⟩, ?_⟩
  · unfold dijkstraInt
    rw [inBounds_pos hsrc, ok_bind, hrun, ok_bind, pure_eq_ok]
  · intro v hv d hd
    rw [hget v hv, hcapped.eq_min hd]
  · intro v hv hno
    rw [hget v hv, hcapped.eq_cap hno]
  · intro k hk
    obtain ⟨stk, hrunk, hinvk, -⟩ := roundsInt_spec hsrc hw (k := k) (by omega)
    have hleft : false ∈ stk.2 := List.count_pos_iff.mp (by have := hinvk.left; omega)
    obtain ⟨u, hmin, huV, hfree, -⟩ :=
      minDistance_spec hinvk.settling.le_cap hinvk.spt_length hleft
    exact ⟨stk, u, hrunk, hmin, huV, hfree⟩

/-- Three vertices in a row, the weight of the last edge the largest allowed. -/
theorem dijkstraInt_shortest_chain : ∃ dist,
    dijkstraInt [[0, 4, 0], [0, 0, 2147483638], [0, 0, 0]] 0 3 = .ok dist ∧
    ShortestUpToMax [[0, 4, 0], [0, 0, 2147483638], [0, 0, 0]] 0 3 dist ∧
    ∀ k < 2, FindsVertex [[0, 4, 0], [0, 0, 2147483638], [0, 0, 0]] 0 3 k :=
  dijkstraInt_shortest _ (by decide) (by decide)

end VideoCdn
