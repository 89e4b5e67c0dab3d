import VideoCdn.Graph
import VideoCdn.Lib.ShortestPath

/-!
# Shortest paths over the distance matrix (`dijkstra` of `src/dijkstra.c`)

* `existRoute` — one entry of the matrix: `1` for a neighbour, `INT_MAX = 9` for none.
* `minDistance`, `relax`, `dijkstra` — the algorithm, `V - 1` rounds over the arrays `dist` and
  `sptSet`.
* `dijkstra_spec` — for every matrix and every source below `V` the run is defined and its result
  is the shortest distance where that is below `INT_MAX`, and `INT_MAX` elsewhere.
* `dijkstra_routeArray` — on the matrix of a graph it counts hops, up to `INT_MAX`.
-/

set_option autoImplicit false

namespace VideoCdn

open CLib ShortestPath

/-- The file's own `INT_MAX`. -/
def INT_MAX : Nat := 9

/-- `exist_route`; the nodes carry the indices of their positions. -/
def existRoute (g : Graph) (src dst : Nat) : Checked Nat :=
  if src = dst then .ok INT_MAX
  else match g[src]? with
    | none => .ok INT_MAX
    | some q =>
      if q.neighbors = [] then .ok INT_MAX
      else match g[dst]? with
        | none => .error .nullDeref
        | some p => .ok (if p.name ∈ q.neighbors then 1 else INT_MAX)

/-- The matrix that `query_dns` fills. -/
def routeArray (g : Graph) : Checked (List (List Nat)) :=
  (List.range g.length).mapM fun i => (List.range g.length).mapM fun j => existRoute g i j

def entry (graph : List (List Nat)) (u v : Nat) : Nat := (graph.getD u []).getD v 0

def distAt (dist : List Nat) (v : Nat) : Nat := dist.getD v INT_MAX

/-- One comparison of `minDistance`. -/
def minDistanceStep (dist : List Nat) (sptSet : List Bool) (acc : Nat × Option Nat) (v : Nat) :
    Nat × Option Nat :=
  if sptSet[v]? = some false ∧ distAt dist v ≤ acc.1 then (distAt dist v, some v) else acc

/-- `minDistance`: `min_index` stays uninitialised when no vertex qualifies. -/
def minDistance (dist : List Nat) (sptSet : List Bool) (V : Nat) : Checked Nat :=
  match ((List.range V).foldl (minDistanceStep dist sptSet) (INT_MAX, none)).2 with
  | none => .error .uninit
  | some v => .ok v

/-- The body of the inner loop of `dijkstra`. -/
def relaxStep (graph : List (List Nat)) (u : Nat) (sptSet : List Bool) (dist : List Nat) (v : Nat) :
    List Nat :=
  if sptSet[v]? = some false ∧ entry graph u v ≠ 0 ∧ distAt dist u ≠ INT_MAX ∧
      distAt dist u + entry graph u v < distAt dist v then
    dist.set v (distAt dist u + entry graph u v)
  else dist

def relax (graph : List (List Nat)) (u V : Nat) (sptSet : List Bool) (dist : List Nat) : List Nat :=
  (List.range V).foldl (relaxStep graph u sptSet) dist

/-- One round of `dijkstra`. -/
def dijkstraRound (graph : List (List Nat)) (V : Nat) (st : List Nat × List Bool) (_count : Nat) :
    Checked (List Nat × List Bool) := do
  let u ← minDistance st.1 st.2 V
  let sptSet := st.2.set u true
  return (relax graph u V sptSet st.1, sptSet)

def dijkstra (graph : List (List Nat)) (src V : Nat) : Checked (List Nat) := do
  inBounds (src < V)
  let dist := (List.replicate V INT_MAX).set src 0
  let st ← (List.range (V - 1)).foldlM (dijkstraRound graph V) (dist, List.replicate V false)
  return st.1

/-! ## The selection -/

/-- The vertices whose `sptSet` entry is no longer `-1`. -/
def Settled (sptSet : List Bool) : Set Nat := fun v => sptSet[v]? ≠ some false

theorem foldl_minDistanceStep (dist : List Nat) (sptSet : List Bool) (n : Nat) :
    let acc := (List.range n).foldl (minDistanceStep dist sptSet) (INT_MAX, none)
    acc.1 ≤ INT_MAX ∧ (acc.2 = none → acc.1 = INT_MAX) ∧
    (∀ v < n, sptSet[v]? = some false → distAt dist v ≤ INT_MAX →
      acc.2.isSome ∧ acc.1 ≤ distAt dist v) ∧
    ∀ u, acc.2 = some u → u < n ∧ sptSet[u]? = some false ∧ acc.1 = distAt dist u := by
  induction n with
  | zero => exact ⟨Nat.le_refl _, fun _ => rfl, fun v hv => by omega, fun u hu => by cases hu⟩
  | succ n ih =>
    obtain ⟨hcap, hnone, hall, hsome⟩ := ih
    rw [List.range_succ, List.foldl_append, List.foldl_cons, List.foldl_nil]
    generalize (List.range n).foldl (minDistanceStep dist sptSet) (INT_MAX, none) = acc at *
    dsimp only
    unfold minDistanceStep
    split
    · rename_i h
      refine ⟨Nat.le_trans h.2 hcap, fun hn => (by cases hn), fun v hv hfree hle => ⟨rfl, ?_⟩,
        fun u hu => ?_⟩
      · rcases Nat.lt_succ_iff_lt_or_eq.mp hv with hlt | rfl
        · exact Nat.le_trans h.2 (hall v hlt hfree hle).2
        · exact Nat.le_refl _
      · cases hu
        exact ⟨Nat.lt_succ_self n, h.1, rfl⟩
    · rename_i h
      refine ⟨hcap, hnone, fun v hv hfree hle => ?_, fun u hu => ?_⟩
      · rcases Nat.lt_succ_iff_lt_or_eq.mp hv with hlt | rfl
        · exact hall v hlt hfree hle
        · have hgt : ¬ distAt dist v ≤ acc.1 := fun hle' => h ⟨hfree, hle'⟩
          refine ⟨?_, by omega⟩
          cases hacc : acc.2 with
          | none => have := hnone hacc; omega
          | some _ => rfl
      · obtain ⟨hlt, hrest⟩ := hsome u hu
        exact ⟨Nat.lt_succ_of_lt hlt, hrest⟩

/-- **Selection**: an unsettled vertex of least distance, if any is left. -/
theorem minDistance_spec {dist : List Nat} {sptSet : List Bool} {V : Nat}
    (hcap : ∀ v, distAt dist v ≤ INT_MAX) (hlen : sptSet.length = V) (hleft : false ∈ sptSet) :
    ∃ u, minDistance dist sptSet V = .ok u ∧ u < V ∧ sptSet[u]? = some false ∧
      ∀ v, sptSet[v]? = some false → distAt dist u ≤ distAt dist v := by
  obtain ⟨-, -, hall, hsome⟩ := foldl_minDistanceStep dist sptSet V
  obtain ⟨i, hi, hget⟩ := List.mem_iff_getElem.mp hleft
  have hfree : sptSet[i]? = some false := by rw [List.getElem?_eq_getElem hi, hget]
  obtain ⟨u, hu⟩ := Option.isSome_iff_exists.mp (hall i (hlen ▸ hi) hfree (hcap i)).1
  obtain ⟨hlt, hufree, hacc⟩ := hsome u hu
  refine ⟨u, by unfold minDistance; rw [hu], hlt, hufree, fun v hv => ?_⟩
  have hvV : v < V := hlen ▸ (List.getElem?_eq_some_iff.mp hv).1
  rw [← hacc]
  exact (hall v hvV hv (hcap v)).2

/-! ## The relaxation -/

theorem distAt_set {dist : List Nat} {v : Nat} (hv : v < dist.length) (d : Nat) (x : Nat) :
    distAt (dist.set v d) x = if x = v then d else distAt dist x := by
  unfold distAt
  by_cases hx : x = v
  · subst hx
    simp [hv]
  · rw [if_neg hx, List.getD_eq_getElem?_getD, List.getD_eq_getElem?_getD,
      List.getElem?_set_ne (fun h => hx h.symm)]

/-- What the inner loop has done to `dist` after the vertices below `n`. -/
theorem foldl_relaxStep (graph : List (List Nat)) {u : Nat} {sptSet : List Bool} {dist : List Nat}
    (hu : sptSet[u]? = some true) {n : Nat} (hn : n ≤ dist.length) :
    let dist' := (List.range n).foldl (relaxStep graph u sptSet) dist
    dist'.length = dist.length ∧ ∀ v, distAt dist' v =
      if v < n ∧ sptSet[v]? = some false ∧ entry graph u v ≠ 0 ∧ distAt dist u ≠ INT_MAX ∧
          distAt dist u + entry graph u v < distAt dist v then
        distAt dist u + entry graph u v
      else distAt dist v := by
  induction n with
  | zero => exact ⟨rfl, fun v => by rw [if_neg (by omega)]; rfl⟩
  | succ n ih =>
    obtain ⟨hlen, hval⟩ := ih (by omega)
    rw [List.range_succ, List.foldl_append, List.foldl_cons, List.foldl_nil]
    generalize (List.range n).foldl (relaxStep graph u sptSet) dist = dist' at *
    dsimp only
    have hkeep : distAt dist' u = distAt dist u := by
      rw [hval u, if_neg (by rw [hu]; simp)]
    have hcur : distAt dist' n = distAt dist n := by
      rw [hval n, if_neg (by omega)]
    unfold relaxStep
    rw [hkeep, hcur]
    split
    · rename_i h
      refine ⟨by rw [List.length_set, hlen], fun v => ?_⟩
      rw [distAt_set (by omega)]
      by_cases hv : v = n
      · subst hv
        rw [if_pos rfl, if_pos ⟨Nat.lt_succ_self v, h⟩]
      · have hlt : v < n + 1 ↔ v < n := by omega
        rw [if_neg hv, hval v]
        simp only [hlt]
    · rename_i h
      refine ⟨hlen, fun v => ?_⟩
      by_cases hv : v = n
      · subst hv
        rw [hcur, if_neg (fun hc => h hc.2)]
      · have hlt : v < n + 1 ↔ v < n := by omega
        rw [hval v]
        simp only [hlt]

/-- The weights of a matrix: the entries between vertices, and no edge elsewhere. -/
def weight (graph : List (List Nat)) (V : Nat) (u v : Nat) : Nat :=
  if u < V ∧ v < V then entry graph u v else 0

theorem relax_spec (graph : List (List Nat)) {u V : Nat} {sptSet : List Bool} {dist : List Nat}
    (huV : u < V) (hdist : dist.length = V) (hspt : sptSet.length = V) (hu : sptSet[u]? = some true)
    (hcap : ∀ v, distAt dist v ≤ INT_MAX) :
    (relax graph u V sptSet dist).length = V ∧
    Relaxed (weight graph V) INT_MAX u (Settled sptSet) (distAt dist)
      (distAt (relax graph u V sptSet dist)) := by
  obtain ⟨hlen, hval⟩ := foldl_relaxStep graph hu (Nat.le_of_eq hdist.symm)
  refine ⟨by unfold relax; rw [hlen, hdist], ⟨?_, ?_, ?_, ?_⟩⟩
  · intro v hv
    unfold relax
    rw [hval v, if_neg (fun h => hv h.2.1)]
  · intro v
    unfold relax
    rw [hval v]
    split <;> omega
  · intro v hv hpos hlt
    have hfree : sptSet[v]? = some false := Classical.not_not.mp hv
    have hvV : v < V := hspt ▸ (List.getElem?_eq_some_iff.mp hfree).1
    have hw : weight graph V u v = entry graph u v := if_pos ⟨huV, hvV⟩
    rw [hw] at hpos ⊢
    unfold relax
    rw [hval v]
    split
    · exact Nat.le_refl _
    · rename_i h
      by_contra hgt
      exact h ⟨hvV, hfree, by omega, by omega, by omega⟩
  · intro v
    unfold relax
    rw [hval v]
    split
    · rename_i h
      have hw : weight graph V u v = entry graph u v := if_pos ⟨huV, h.1⟩
      have := hcap u
      exact Or.inr ⟨by omega, by omega, by rw [hw]⟩
    · exact Or.inl rfl

/-! ## The rounds -/

/-- The state in front of round `k`. -/
structure RoundInv (graph : List (List Nat)) (src V k : Nat) (st : List Nat × List Bool) : Prop where
  dist_length : st.1.length = V
  spt_length : st.2.length = V
  left : st.2.count false + k = V
  settling : Settling (weight graph V) INT_MAX src (Settled st.2 ∩ {v | v < V}) (distAt st.1)

theorem RoundInv.init (graph : List (List Nat)) {src V : Nat} (hsrc : src < V) :
    RoundInv graph src V 0 ((List.replicate V INT_MAX).set src 0, List.replicate V false) where
  dist_length := by simp
  spt_length := by simp
  left := by simp
  settling := by
    have hempty : Settled (List.replicate V false) ∩ {v | v < V} = ∅ := by
      ext v
      simp only [Set.mem_inter_iff, Set.mem_ofPred_eq, Set.mem_empty_iff_false, iff_false, not_and]
      intro hv hlt
      exact hv (by rw [List.getElem?_replicate, if_pos hlt])
    rw [hempty]
    have hrep : ∀ v, distAt (List.replicate V INT_MAX) v = INT_MAX := by
      intro v
      unfold distAt
      rw [List.getD_eq_getElem?_getD, List.getElem?_replicate]
      split <;> rfl
    have hlen : src < (List.replicate V INT_MAX).length := by simpa using hsrc
    have hset := distAt_set hlen 0
    refine Settling.init _ ?_ (fun v hv => ?_)
    · rw [hset, if_pos rfl]
    · rw [hset, if_neg hv, hrep]

/-- Marking a vertex settles it, and no other. -/
theorem settled_set {sptSet : List Bool} {u V : Nat} (hlen : sptSet.length = V) (hu : u < V) :
    Settled (sptSet.set u true) ∩ {v | v < V} = insert u (Settled sptSet ∩ {v | v < V}) := by
  ext v
  simp only [Set.mem_inter_iff, Set.mem_ofPred_eq, Set.mem_insert_iff]
  by_cases hv : v = u
  · subst hv
    refine ⟨fun _ => Or.inl rfl, fun _ => ⟨?_, hu⟩⟩
    show (sptSet.set v true)[v]? ≠ some false
    rw [List.getElem?_set_self (hlen ▸ hu)]
    simp
  · have hsame : Settled (sptSet.set u true) v ↔ Settled sptSet v := by
      unfold Settled
      rw [List.getElem?_set_ne (fun h => hv h.symm)]
    simp only [hv, false_or]
    exact and_congr_left' hsame

/-- Behind the array there is nothing to relax. -/
theorem distAt_of_length_le {dist : List Nat} {v : Nat} (h : dist.length ≤ v) :
    distAt dist v = INT_MAX := by
  unfold distAt
  rw [List.getD_eq_getElem?_getD, List.getElem?_eq_none h]
  rfl

/-- **One round** settles one vertex more. -/
theorem dijkstraRound_spec {graph : List (List Nat)} {src V k : Nat} {st : List Nat × List Bool}
    (h : RoundInv graph src V k st) (hk : k < V) (count : Nat) :
    ∃ st', dijkstraRound graph V st count = .ok st' ∧ RoundInv graph src V (k + 1) st' := by
  obtain ⟨hdist, hspt, hleft, hset⟩ := h
  have hcap : ∀ v, distAt st.1 v ≤ INT_MAX := hset.le_cap
  have hmem : false ∈ st.2 := List.count_pos_iff.mp (by omega)
  obtain ⟨u, hmin, huV, hfree, hleast⟩ := minDistance_spec hcap hspt hmem
  obtain ⟨hu₀, hget⟩ := List.getElem?_eq_some_iff.mp hfree
  have hspt' : (st.2.set u true).length = V := by rw [List.length_set, hspt]
  have hu : (st.2.set u true)[u]? = some true := List.getElem?_set_self (hspt ▸ huV)
  obtain ⟨hlen', hrel⟩ := relax_spec graph huV hdist hspt' hu hcap
  refine ⟨_, by unfold dijkstraRound; rw [hmin, ok_bind, pure_eq_ok], hlen', hspt', ?_, ?_⟩
  · show (st.2.set u true).count false + (k + 1) = V
    rw [List.count_set hu₀, hget]
    have : 0 < st.2.count false := List.count_pos_iff.mpr hmem
    simp
    omega
  · dsimp only
    have hstep := settled_set hspt huV
    have hnot : u ∉ Settled st.2 ∩ {v | v < V} := fun hin => hin.1 hfree
    have hout : ∀ v, v ∉ Settled st.2 ∩ {v | v < V} → distAt st.1 u ≤ distAt st.1 v := by
      intro v hv
      by_cases hvV : v < V
      · exact hleast v (Classical.not_not.mp (fun hs => hv ⟨hs, hvV⟩))
      · have hbehind : distAt st.1 v = INT_MAX := distAt_of_length_le (by omega)
        rw [hbehind]
        exact hcap u
    rw [hstep]
    apply hset.settle hnot hout
    rw [← hstep]
    refine ⟨fun v hv => hrel.settled v hv.1, hrel.le, fun v hv hpos hlt => ?_, hrel.source⟩
    have hvV : v < V := by
      by_contra hge
      rw [weight, if_neg (fun h => hge h.2)] at hpos
      exact Nat.lt_irrefl _ hpos
    exact hrel.edge v (fun hs => hv ⟨hs, hvV⟩) hpos hlt

theorem foldlM_dijkstraRound {graph : List (List Nat)} {src V : Nat} :
    ∀ {l : List Nat} {k : Nat} {st : List Nat × List Bool}, RoundInv graph src V k st →
      k + l.length ≤ V → ∃ st', l.foldlM (dijkstraRound graph V) st = .ok st' ∧
        RoundInv graph src V (k + l.length) st'
  | [], k, st, h, _ => ⟨st, rfl, h⟩
  | c :: l, k, st, h, hle => by
    rw [List.length_cons] at hle
    obtain ⟨st₁, h₁, hinv₁⟩ := dijkstraRound_spec h (by omega) c
    obtain ⟨st', h', hinv'⟩ := foldlM_dijkstraRound (l := l) hinv₁ (by omega)
    refine ⟨st', by rw [List.foldlM_cons, h₁, ok_bind, h'], ?_⟩
    rw [List.length_cons]
    have : k + (l.length + 1) = k + 1 + l.length := by omega
    rw [this]
    exact hinv'

/-- Two unsettled vertices leave at least two entries at `-1`. -/
theorem eq_of_count_le_one {l : List Bool} (h : l.count false ≤ 1) {u v : Nat}
    (hu : l[u]? = some false) (hv : l[v]? = some false) : u = v := by
  induction l generalizing u v with
  | nil => simp at hu
  | cons b l ih =>
    have hzero : ∀ {w : Nat}, l.count false = 0 → l[w]? ≠ some false := by
      intro w hc hw
      exact List.count_eq_zero.mp hc (List.mem_of_getElem? hw)
    cases b with
    | true =>
      rw [List.count_cons_of_ne (by decide)] at h
      cases u with
      | zero => simp at hu
      | succ u => cases v with
        | zero => simp at hv
        | succ v =>
          have : u = v := ih h (by simpa using hu) (by simpa using hv)
          rw [this]
    | false =>
      rw [List.count_cons_self] at h
      have hc : l.count false = 0 := by omega
      cases u with
      | succ u => exact absurd (by simpa using hu) (hzero (w := u) hc)
      | zero => cases v with
        | succ v => exact absurd (by simpa using hv) (hzero (w := v) hc)
        | zero => rfl

/-- After `V - 1` rounds the distances are final: one vertex is left at most. -/
theorem RoundInv.cappedDist {graph : List (List Nat)} {src V : Nat} {st : List Nat × List Bool}
    (h : RoundInv graph src V (V - 1) st) :
    CappedDist (weight graph V) INT_MAX src (distAt st.1) := by
  apply h.settling.cappedDist
  intro u v hpos hu hv
  have hVV : u < V ∧ v < V := by
    by_contra h
    rw [weight, if_neg h] at hpos
    exact Nat.lt_irrefl _ hpos
  have hleft := h.left
  exact eq_of_count_le_one (l := st.2) (by omega)
    (Classical.not_not.mp (fun hs => hu ⟨hs, hVV.1⟩))
    (Classical.not_not.mp (fun hs => hv ⟨hs, hVV.2⟩))

/-- **Dijkstra's algorithm** computes the capped shortest distances of any matrix. -/
theorem dijkstra_spec (graph : List (List Nat)) {src V : Nat} (hsrc : src < V) :
    ∃ dist, dijkstra graph src V = .ok dist ∧
      CappedDist (weight graph V) INT_MAX src (distAt dist) := by
  obtain ⟨st, hrun, hinv⟩ := foldlM_dijkstraRound (l := List.range (V - 1))
    (RoundInv.init graph hsrc) (by rw [List.length_range]; omega)
  rw [List.length_range, Nat.zero_add] at hinv
  refine ⟨st.1, ?_, hinv.cappedDist⟩
  unfold dijkstra
  rw [inBounds_pos hsrc, ok_bind]
  dsimp only
  rw [hrun, ok_bind, pure_eq_ok]

/-! ## The matrix of a graph -/

/-- The node at index `j` is a neighbour of the node at index `i`. -/
def RouteTo (g : Graph) (i j : Nat) : Prop :=
  ∃ q p, g[i]? = some q ∧ g[j]? = some p ∧ p.name ∈ q.neighbors

theorem existRoute_spec {g : Graph} {i j : Nat} (hi : i < g.length) (hj : j < g.length) :
    ∃ n, existRoute g i j = .ok n ∧ (n = 1 ∧ RouteTo g i j ∨ n = INT_MAX) ∧
      (RouteTo g i j → i ≠ j → n = 1) := by
  have hgi : g[i]? = some g[i] := List.getElem?_eq_getElem hi
  have hgj : g[j]? = some g[j] := List.getElem?_eq_getElem hj
  have hroute : RouteTo g i j ↔ g[j].name ∈ g[i].neighbors := by
    unfold RouteTo
    rw [hgi, hgj]
    exact ⟨fun ⟨q, p, hq, hp, h⟩ => by cases hq; cases hp; exact h, fun h => ⟨_, _, rfl, rfl, h⟩⟩
  rw [hroute]
  unfold existRoute
  by_cases hij : i = j
  · exact ⟨INT_MAX, if_pos hij, Or.inr rfl, fun _ h => absurd hij h⟩
  · rw [if_neg hij, hgi, hgj]
    dsimp only
    by_cases hnone : g[i].neighbors = []
    · refine ⟨INT_MAX, if_pos hnone, Or.inr rfl, fun h => ?_⟩
      rw [hnone] at h
      cases h
    · rw [if_neg hnone]
      by_cases hmem : g[j].name ∈ g[i].neighbors
      · exact ⟨1, by rw [if_pos hmem], Or.inl ⟨rfl, hmem⟩, fun _ _ => rfl⟩
      · exact ⟨INT_MAX, by rw [if_neg hmem], Or.inr rfl, fun h => absurd h hmem⟩

/-- The value that a defined call returns. -/
def routeOf (g : Graph) (i j : Nat) : Nat := (existRoute g i j).toOption.getD 0

theorem existRoute_eq {g : Graph} {i j : Nat} (hi : i < g.length) (hj : j < g.length) :
    existRoute g i j = .ok (routeOf g i j) := by
  obtain ⟨n, hn, -⟩ := existRoute_spec hi hj
  unfold routeOf
  rw [hn]
  rfl

theorem routeArray_spec (g : Graph) : ∃ array, routeArray g = .ok array ∧
    ∀ i < g.length, ∀ j < g.length, entry array i j = routeOf g i j := by
  refine ⟨(List.range g.length).map fun i => (List.range g.length).map fun j => routeOf g i j,
    ?_, ?_⟩
  · refine mapM_eq_ok (fun i hi => mapM_eq_ok (fun j hj => ?_))
    exact existRoute_eq (List.mem_range.mp hi) (List.mem_range.mp hj)
  · intro i hi j hj
    simp [entry, hi, hj]

/-- **Hop counts**: on the matrix of a graph the run gives the hop distances, up to `INT_MAX`. -/
theorem dijkstra_routeArray {g : Graph} {src : Nat} (hsrc : src < g.length) :
    ∃ array dist, routeArray g = .ok array ∧ dijkstra array src g.length = .ok dist ∧
      CappedHops (RouteTo g) INT_MAX src (distAt dist) := by
  obtain ⟨array, harr, hentry⟩ := routeArray_spec g
  obtain ⟨dist, hdist, hcap⟩ := dijkstra_spec array hsrc
  have hspec : ∀ {i j : Nat}, i < g.length → j < g.length →
      (routeOf g i j = 1 ∧ RouteTo g i j ∨ routeOf g i j = INT_MAX) ∧
      (RouteTo g i j → i ≠ j → routeOf g i j = 1) := by
    intro i j hi hj
    obtain ⟨n, hn, hval, hone⟩ := existRoute_spec hi hj
    rw [existRoute_eq hi hj, Except.ok.injEq] at hn
    rw [hn]
    exact ⟨hval, hone⟩
  refine ⟨array, dist, harr, hdist, hcap.hops (fun i j hpos hlt => ?_) (fun i j hadj hne => ?_)⟩
  · unfold weight at hpos hlt ⊢
    split at hpos
    · rename_i hij
      rw [if_pos hij, hentry i hij.1 j hij.2] at hlt ⊢
      rcases (hspec hij.1 hij.2).1 with h | h
      · exact h
      · omega
    · exact absurd hpos (Nat.lt_irrefl _)
  · obtain ⟨q, p, hq, hp, -⟩ := id hadj
    have hi := (List.getElem?_eq_some_iff.mp hq).1
    have hj := (List.getElem?_eq_some_iff.mp hp).1
    rw [weight, if_pos ⟨hi, hj⟩, hentry i hi j hj]
    exact (hspec hi hj).2 hadj hne

end VideoCdn
