import VideoCdn.Lib.Worklist
import VideoCdn.Lib.ShortestPath

/-!
# Breadth-first search

A work list that is searched from the front, over the neighbour lists `nbrs` of any directed graph.
Elements are marked when they are taken, so that the list they start from may hold one twice.

* `Search nbrs visited toVisit order` — from this state the search takes the elements `order` and ends.
* `Search.mem_iff` — started with the neighbours of `s`, it takes what can be reached from `s`.
* `Layers` — the list holds elements of one distance and behind them elements of the next;
  `Search.ordered` — the elements come in the order of their distances.
* `Search.nodup` — none is taken twice if the list that it starts with has no duplicate.
-/

set_option autoImplicit false

namespace Worklist

open ShortestPath

variable {V : Type} [DecidableEq V]

inductive Search (nbrs : V → List V) : Finset V → List V → List V → Prop where
  | done (visited : Finset V) : Search nbrs visited [] []
  | turn {visited : Finset V} {current : V} {rest order : List V} :
      Search nbrs (insert current visited)
        (enqueue (insert current visited) rest (nbrs current)) order →
      Search nbrs visited (current :: rest) (current :: order)

/-- The state determines what the search takes. -/
theorem Search.unique {nbrs : V → List V} {visited : Finset V} {toVisit order order' : List V}
    (h : Search nbrs visited toVisit order) (h' : Search nbrs visited toVisit order') :
    order = order' := by
  induction h generalizing order' with
  | done visited =>
    cases h'
    rfl
  | turn _ ih =>
    cases h' with
    | turn hrest => rw [ih hrest]

/-- The neighbours that are new, in front of which the list is as it was. -/
theorem enqueue_eq (visited : Finset V) (toVisit neighbors : List V) :
    ∃ new, enqueue visited toVisit neighbors = toVisit ++ new ∧ new.Nodup ∧
      (∀ v ∈ new, v ∈ neighbors ∧ v ∉ visited ∧ v ∉ toVisit) ∧
      ∀ v ∈ neighbors, v ∈ visited ∨ v ∈ toVisit ++ new := by
  unfold enqueue
  induction neighbors generalizing toVisit with
  | nil => exact ⟨[], by simp, List.nodup_nil, by simp, by simp⟩
  | cons u neighbors ih =>
    rw [List.foldl_cons]
    by_cases hu : u ∈ visited ∨ toVisit.contains u
    · rw [if_pos hu]
      obtain ⟨new, heq, hnodup, hnew, hall⟩ := ih toVisit
      refine ⟨new, heq, hnodup, ?_, ?_⟩
      · intro v hv
        obtain ⟨hmem, hrest⟩ := hnew v hv
        exact ⟨List.mem_cons_of_mem u hmem, hrest⟩
      · intro v hv
        rcases List.mem_cons.mp hv with rfl | hv
        · exact hu.imp id (fun h => List.mem_append_left new (by simpa using h))
        · exact hall v hv
    · rw [if_neg hu]
      obtain ⟨new, heq, hnodup, hnew, hall⟩ := ih (toVisit ++ [u])
      have hu' : u ∉ visited ∧ u ∉ toVisit := by simpa using hu
      refine ⟨u :: new, ?_, ?_, ?_, ?_⟩
      · rw [heq, List.append_assoc]
        rfl
      · refine List.nodup_cons.mpr ⟨fun hmem => ?_, hnodup⟩
        exact (hnew u hmem).2.2 (by simp)
      · intro v hv
        rcases List.mem_cons.mp hv with rfl | hv
        · exact ⟨List.mem_cons_self, hu'⟩
        · obtain ⟨hmem, hvis, hlist⟩ := hnew v hv
          exact ⟨List.mem_cons_of_mem u hmem, hvis, fun h => hlist (List.mem_append_left _ h)⟩
      · have hsame : toVisit ++ u :: new = toVisit ++ [u] ++ new := by simp
        rw [hsame]
        intro v hv
        rcases List.mem_cons.mp hv with rfl | hv
        · exact Or.inr (by simp)
        · exact hall v hv

section search
variable {nbrs : V → List V} {visited : Finset V} {toVisit order : List V}

/-! ## What is taken -/

/-- What holds of the list and passes on to neighbours holds of all that is taken. -/
theorem Search.invariant {P : V → Prop} (hP : ∀ u, P u → ∀ v ∈ nbrs u, P v)
    (h : Search nbrs visited toVisit order) (hlist : ∀ v ∈ toVisit, P v) : ∀ v ∈ order, P v := by
  induction h with
  | done visited => simp
  | @turn visited current rest order _ ih =>
    have hcurrent := hlist current List.mem_cons_self
    refine List.forall_mem_cons.mpr ⟨hcurrent, ih (fun v hv => ?_)⟩
    rcases mem_enqueue hv with hv | hv
    · exact hlist v (List.mem_cons_of_mem _ hv)
    · exact hP current hcurrent v hv

/-- The neighbours of what is visited are visited or listed. -/
def Explored (nbrs : V → List V) (visited : Finset V) (toVisit : List V) : Prop :=
  ∀ u ∈ visited, ∀ v ∈ nbrs u, v ∈ visited ∨ v ∈ toVisit

theorem Explored.turn {current : V} {rest : List V}
    (h : Explored nbrs visited (current :: rest)) :
    Explored nbrs (insert current visited)
      (enqueue (insert current visited) rest (nbrs current)) := by
  obtain ⟨new, heq, -, -, hall⟩ := enqueue_eq (insert current visited) rest (nbrs current)
  rw [heq]
  intro u hu v hv
  rcases Finset.mem_insert.mp hu with rfl | hu
  · exact hall v hv
  · rcases h u hu v hv with hv | hv
    · exact Or.inl (Finset.mem_insert_of_mem hv)
    · rcases List.mem_cons.mp hv with rfl | hv
      · exact Or.inl (Finset.mem_insert_self _ _)
      · exact Or.inr (List.mem_append_left new hv)

/-- **In the end** the neighbours of all that was visited or taken have been. -/
theorem Search.closed (h : Search nbrs visited toVisit order) (hexp : Explored nbrs visited toVisit) :
    ∀ u, u ∈ visited ∨ u ∈ order → ∀ v ∈ nbrs u, v ∈ visited ∨ v ∈ order := by
  induction h with
  | done visited =>
    intro u hu v hv
    exact hexp u (hu.resolve_right (by simp)) v hv
  | @turn visited current rest order _ ih =>
    have hmove : ∀ w, w ∈ insert current visited ∨ w ∈ order ↔
        w ∈ visited ∨ w ∈ current :: order := by
      intro w
      rw [Finset.mem_insert, List.mem_cons]
      tauto
    intro u hu v hv
    exact (hmove v).mp (ih hexp.turn u ((hmove u).mpr hu) v hv)

/-- What is visited and not listed is not taken any more. -/
theorem Search.notMem (h : Search nbrs visited toVisit order) {s : V} (hs : s ∈ visited)
    (hlist : s ∉ toVisit) : s ∉ order := by
  induction h with
  | done visited => simp
  | @turn visited current rest order _ ih =>
    obtain ⟨new, heq, -, hnew, -⟩ := enqueue_eq (insert current visited) rest (nbrs current)
    rw [List.mem_cons, not_or] at hlist ⊢
    refine ⟨hlist.1, ih (Finset.mem_insert_of_mem hs) ?_⟩
    rw [heq, List.mem_append, not_or]
    exact ⟨hlist.2, fun hmem => (hnew s hmem).2.1 (Finset.mem_insert_of_mem hs)⟩

/-- **None is taken twice**, if the list has no duplicate and nothing visited. -/
theorem Search.nodup (h : Search nbrs visited toVisit order) (hnodup : toVisit.Nodup)
    (hfresh : ∀ v ∈ toVisit, v ∉ visited) : order.Nodup := by
  induction h with
  | done visited => exact List.nodup_nil
  | @turn visited current rest order hrest ih =>
    obtain ⟨new, heq, hnew, hnews, -⟩ := enqueue_eq (insert current visited) rest (nbrs current)
    obtain ⟨hcurrent, hnodup⟩ := List.nodup_cons.mp hnodup
    have hlist : ∀ v ∈ enqueue (insert current visited) rest (nbrs current),
        v ∉ insert current visited := by
      intro v hv
      rw [heq] at hv
      rcases List.mem_append.mp hv with hv | hv
      · rw [Finset.mem_insert, not_or]
        exact ⟨fun he => hcurrent (he ▸ hv), hfresh v (List.mem_cons_of_mem _ hv)⟩
      · exact (hnews v hv).2.1
    have hdisj : (enqueue (insert current visited) rest (nbrs current)).Nodup := by
      rw [heq]
      refine List.nodup_append.mpr ⟨hnodup, hnew, ?_⟩
      rintro v hv w hw rfl
      exact (hnews v hw).2.2 hv
    refine List.nodup_cons.mpr ⟨?_, ih hdisj hlist⟩
    refine hrest.notMem (Finset.mem_insert_self _ _) ?_
    intro hmem
    exact hlist current hmem (Finset.mem_insert_self _ _)

/-! ## In which order -/

/-- The steps of the search. -/
def Adj (nbrs : V → List V) (u v : V) : Prop := v ∈ nbrs u

/-- The list holds elements at distance `k` from `s`, and behind them elements at distance `k + 1`;
nothing nearer is missing. -/
structure Layers (nbrs : V → List V) (s : V) (k : Nat) (visited : Finset V) (near far : List V) :
    Prop where
  near_dist : ∀ v ∈ near, HopDist (Adj nbrs) s v k
  far_dist : ∀ v ∈ far, HopDist (Adj nbrs) s v (k + 1)
  nearer : ∀ v n, Hops (Adj nbrs) s v n → n ≤ k → v ∈ visited ∨ v ∈ near
  explored : Explored nbrs visited (near ++ far)

variable {s : V} {k : Nat} {near far : List V}

omit [DecidableEq V] in
/-- The next distance. -/
theorem Layers.next (h : Layers nbrs s k visited [] far) : Layers nbrs s (k + 1) visited far [] where
  near_dist := h.far_dist
  far_dist := by simp
  explored := by
    rw [List.append_nil]
    exact h.explored
  nearer v n hhops hle := by
    by_cases hk : n ≤ k
    · exact Or.inl ((h.nearer v n hhops hk).resolve_right (by simp))
    · obtain rfl : n = k + 1 := by omega
      cases hhops with
      | @snoc u _ _ hu hadj =>
        have hvisited := (h.nearer u k hu (Nat.le_refl k)).resolve_right (by simp)
        exact h.explored u hvisited v hadj

/-- **One turn**: the new neighbours are one step farther. -/
theorem Layers.turn {current : V} (h : Layers nbrs s k visited (current :: near) far) :
    ∃ new, enqueue (insert current visited) (near ++ far) (nbrs current) = near ++ (far ++ new) ∧
      Layers nbrs s k (insert current visited) near (far ++ new) := by
  obtain ⟨new, heq, -, hnew, -⟩ :=
    enqueue_eq (insert current visited) (near ++ far) (nbrs current)
  have hexp := h.explored.turn
  change Explored nbrs _ (enqueue (insert current visited) (near ++ far) (nbrs current)) at hexp
  rw [List.append_assoc] at heq
  rw [heq] at hexp
  have hnearer : ∀ v n, Hops (Adj nbrs) s v n → n ≤ k → v ∈ insert current visited ∨ v ∈ near := by
    intro v n hhops hle
    rcases h.nearer v n hhops hle with hv | hv
    · exact Or.inl (Finset.mem_insert_of_mem hv)
    · rcases List.mem_cons.mp hv with rfl | hv
      · exact Or.inl (Finset.mem_insert_self _ _)
      · exact Or.inr hv
  refine ⟨new, heq, ⟨?_, ?_, hnearer, hexp⟩⟩
  · intro v hv
    exact h.near_dist v (List.mem_cons_of_mem _ hv)
  · intro v hv
    rcases List.mem_append.mp hv with hv | hv
    · exact h.far_dist v hv
    · obtain ⟨hadj, hvisited, hlist⟩ := hnew v hv
      have hcurrent := (h.near_dist current List.mem_cons_self).1
      refine ⟨hcurrent.snoc hadj, fun m hm => ?_⟩
      by_contra hlt
      rcases hnearer v m hm (by omega) with hv' | hv'
      · exact hvisited hv'
      · exact hlist (List.mem_append_left far hv')

/-- **The elements come in the order of their distances.** -/
theorem Search.ordered (h : Search nbrs visited toVisit order) (hlist : toVisit = near ++ far)
    (hlayers : Layers nbrs s k visited near far) :
    (∀ v ∈ order, ∀ n, Hops (Adj nbrs) s v n → k ≤ n) ∧
      order.Pairwise (fun u v => ∀ m n, HopDist (Adj nbrs) s u m → Hops (Adj nbrs) s v n → m ≤ n) := by
  induction h generalizing k near far with
  | done visited => exact ⟨by simp, List.Pairwise.nil⟩
  | @turn visited current rest order _ ih =>
    -- the distance of the first element of the list
    obtain ⟨k', near', far', hk, hrest, hlayers'⟩ : ∃ k' near' far', k ≤ k' ∧
        rest = near' ++ far' ∧ Layers nbrs s k' visited (current :: near') far' := by
      cases near with
      | cons c near =>
        obtain ⟨rfl, rfl⟩ := List.cons.inj hlist
        exact ⟨k, near, far, Nat.le_refl k, rfl, hlayers⟩
      | nil =>
        rw [List.nil_append] at hlist
        subst hlist
        exact ⟨k + 1, rest, [], Nat.le_succ k, by simp, hlayers.next⟩
    obtain ⟨new, heq, hturn⟩ := hlayers'.turn
    rw [← hrest] at heq
    obtain ⟨hge, hpair⟩ := ih heq hturn
    have hdist := hlayers'.near_dist current List.mem_cons_self
    refine ⟨?_, List.pairwise_cons.mpr ⟨?_, hpair⟩⟩
    · intro v hv n hn
      rcases List.mem_cons.mp hv with rfl | hv
      · exact Nat.le_trans hk (hdist.2 n hn)
      · exact Nat.le_trans hk (hge v hv n hn)
    · intro v hv m n hm hn
      have hmk : m ≤ k' := hm.2 k' hdist.1
      exact Nat.le_trans hmk (hge v hv n hn)

/-! ## From the neighbours of one element -/

omit [DecidableEq V] in
/-- At the start. -/
theorem Layers.start (hs : s ∉ nbrs s) : Layers nbrs s 1 {s} (nbrs s) [] where
  near_dist v hv := by
    refine ⟨Hops.refl.snoc hv, fun m hm => ?_⟩
    cases hm with
    | refl => exact absurd hv hs
    | snoc _ _ => exact Nat.succ_le_succ (Nat.zero_le _)
  far_dist := by simp
  nearer v n hhops hle := by
    cases hhops with
    | refl => exact Or.inl (Finset.mem_singleton_self _)
    | @snoc u _ m hu hadj =>
      obtain rfl : m = 0 := by omega
      cases hu
      exact Or.inr hadj
  explored := by
    intro u hu v hv
    rw [Finset.mem_singleton.mp hu] at hv
    exact Or.inr (by simpa using hv)

/-- **What is taken** is what can be reached. -/
theorem Search.mem_iff (h : Search nbrs {s} (nbrs s) order) (hs : s ∉ nbrs s) {v : V} :
    v ∈ order ↔ v ≠ s ∧ ∃ n, Hops (Adj nbrs) s v n := by
  constructor
  · intro hv
    have hnot := h.notMem (Finset.mem_singleton_self s) hs
    refine ⟨fun he => hnot (he ▸ hv), ?_⟩
    refine h.invariant (P := fun v => ∃ n, Hops (Adj nbrs) s v n) ?_ ?_ v hv
    · rintro u ⟨n, hn⟩ w hw
      exact ⟨n + 1, hn.snoc hw⟩
    · intro w hw
      exact ⟨1, Hops.refl.snoc hw⟩
  · rintro ⟨hne, n, hhops⟩
    have hexp : Explored nbrs {s} (nbrs s) := by
      have hstart := (Layers.start hs).explored
      rwa [List.append_nil] at hstart
    have hall : v ∈ ({s} : Finset V) ∨ v ∈ order := by
      induction hhops with
      | refl => exact absurd rfl hne
      | @snoc u v n _ hadj ih =>
        by_cases hu : u = s
        · exact h.closed hexp u (Or.inl (Finset.mem_singleton.mpr hu)) v hadj
        · exact h.closed hexp u (ih hu) v hadj
    exact hall.resolve_left (fun hmem => hne (Finset.mem_singleton.mp hmem))

end search

end Worklist
