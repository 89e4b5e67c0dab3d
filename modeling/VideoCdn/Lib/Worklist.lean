import Mathlib.Data.Finset.Card
import Mathlib.Data.Finset.Basic
import Mathlib.Data.Finset.SDiff
import Mathlib.Tactic.Common

/-!
# Work lists

A search keeps the set of what it has visited and the list of what it still has to visit.  It takes
the first element of the list and puts the neighbours that are in neither at its end.

* `enqueue` — the list with the new neighbours at its end.
* `pending names visited toVisit` — the length of the list and the number of names in neither: it
  bounds the turns that are left.
* `pending_step` — each turn makes it smaller, so that the search ends.
-/

set_option autoImplicit false

namespace Worklist

variable {V : Type} [DecidableEq V]

/-- The neighbours that are not visited and not in the list yet go to its end, one by one. -/
def enqueue (visited : Finset V) (toVisit neighbors : List V) : List V :=
  neighbors.foldl (fun q v => if v ∈ visited ∨ q.contains v then q else q ++ [v]) toVisit

def pending (names visited : Finset V) (toVisit : List V) : Nat :=
  toVisit.length + (names \ (visited ∪ toVisit.toFinset)).card

theorem mem_enqueue {visited : Finset V} {toVisit neighbors : List V} {v : V}
    (h : v ∈ enqueue visited toVisit neighbors) : v ∈ toVisit ∨ v ∈ neighbors := by
  unfold enqueue at h
  induction neighbors generalizing toVisit with
  | nil => exact Or.inl h
  | cons u neighbors ih =>
    rw [List.foldl_cons] at h
    rcases ih h with h | h
    · split at h
      · exact Or.inl h
      · rcases List.mem_append.mp h with h | h
        · exact Or.inl h
        · rw [List.mem_singleton.mp h]
          exact Or.inr List.mem_cons_self
    · exact Or.inr (List.mem_cons_of_mem u h)

/-- An element that moves from the rest into the list leaves the bound as it is. -/
theorem pending_enqueue {names visited : Finset V} {toVisit neighbors : List V}
    (hnames : ∀ v ∈ neighbors, v ∈ names) :
    pending names visited (enqueue visited toVisit neighbors) = pending names visited toVisit := by
  unfold enqueue
  induction neighbors generalizing toVisit with
  | nil => rfl
  | cons v neighbors ih =>
    rw [List.foldl_cons, ih (fun u hu => hnames u (List.mem_cons_of_mem v hu))]
    split
    · rfl
    · rename_i hnew
      have hv : v ∈ names \ (visited ∪ toVisit.toFinset) := by
        have := hnames v List.mem_cons_self
        simpa [this] using hnew
      have hset : names \ (visited ∪ (toVisit ++ [v]).toFinset) =
          (names \ (visited ∪ toVisit.toFinset)).erase v := by
        ext u
        simp only [Finset.mem_sdiff, Finset.mem_union, List.mem_toFinset, List.mem_append,
          List.mem_singleton, Finset.mem_erase]
        tauto
      have hpos := Finset.card_pos.mpr ⟨v, hv⟩
      unfold pending
      rw [hset, Finset.card_erase_of_mem hv, List.length_append, List.length_singleton]
      omega

/-- **One turn** of the search makes the bound smaller. -/
theorem pending_step {names visited : Finset V} {current : V} {rest neighbors : List V}
    (hnames : ∀ v ∈ neighbors, v ∈ names) :
    pending names (insert current visited) (enqueue (insert current visited) rest neighbors) <
      pending names visited (current :: rest) := by
  have hset : insert current visited ∪ rest.toFinset =
      visited ∪ (current :: rest).toFinset := by
    rw [List.toFinset_cons, Finset.insert_union, Finset.union_insert]
  rw [pending_enqueue hnames]
  unfold pending
  rw [hset, List.length_cons]
  omega

end Worklist
