import VideoCdn.Dijkstra
import Mathlib.Logic.Relation

/-!
# The loader step by step (`graph_init`, `exist_route` of `src/dijkstra.c`)

* `Loaded` — the states that the turns reach from a file, as far as its tokens fit the buffers.
* `TurnEffect`, `graphStep_effect` — **a turn** drops a record that is older than the stored one, or
  stores it.
* `numberNodes`, `findIndex`, `existRouteIn` — the indices that `query_dns` gives the nodes, and
  `exist_route` with its two searches for them.
* `loader_keeps` — **after every turn** the names are distinct, no sequence number has decreased, and
  the routes are those to the stored neighbours.
-/

set_option autoImplicit false

namespace VideoCdn

open CLib

/-! ## One turn -/

/-- What a turn does to the list. -/
inductive TurnEffect (g : Graph) : Graph → Prop where
  | dropped (name : Bytes) (seq : Int) : stale g name seq = true → TurnEffect g g
  | stored (name : Bytes) (seq : Int) (neighbors : List Bytes) : stale g name seq = false →
      TurnEffect g (storeNode g name seq neighbors)

theorem graphStep_effect {t : Bytes} {toks toks' : List Bytes} {g g' : Graph}
    (h : graphStep t toks g = .ok (toks', g')) : TurnEffect g g' := by
  rcases graphStep_cases h with ⟨hstale, -, rfl⟩ | ⟨hstale, -, rfl⟩
  · exact .dropped _ _ hstale
  · exact .stored _ _ _ hstale

/-! ## The states that are reached -/

/-- The tokens that are left, and the list. -/
abbrev LoaderState := List Bytes × Graph

/-- A turn that stays inside the buffers. -/
def LoaderTurn (s s' : LoaderState) : Prop :=
  ∃ t toks, s.1 = t :: toks ∧ graphStep t toks s.2 = .ok s'

def LoaderTurns : LoaderState → LoaderState → Prop := Relation.ReflTransGen LoaderTurn

/-- The states of the loop over a file. -/
def Loaded (text : Bytes) : LoaderState → Prop := LoaderTurns (words text, [])

/-- **The whole loop** reaches its result. -/
theorem graphLoop_turns {toks : List Bytes} {g g' : Graph} (h : graphLoop toks g = .ok g') :
    LoaderTurns (toks, g) ([], g') := by
  refine graphLoop_induction (P := fun toks g g' => LoaderTurns (toks, g) ([], g')) ?_ ?_ h
  · intro g
    exact .refl
  · intro t toks g toks₁ g₁ g' hstep ih
    exact .head ⟨t, toks, rfl, hstep⟩ ih

theorem loaded_of_graphInit {text : Bytes} {g : Graph} (h : graphInit (some text) = .ok (0, g)) :
    Loaded text ([], g) :=
  graphLoop_turns (graphInit_eq_ok.mp h)

/-- **Rule of the turns**: what dropping and storing a record keep, the turns keep. -/
theorem loaderTurns_invariant {P : Graph → Prop} (hturn : ∀ g g', P g → TurnEffect g g' → P g')
    {s s' : LoaderState} (hs : P s.2) (h : LoaderTurns s s') : P s'.2 := by
  induction h with
  | refl => exact hs
  | tail _ hlast ih =>
    obtain ⟨t, toks, -, hstep⟩ := hlast
    exact hturn _ _ ih (graphStep_effect hstep)

theorem TurnEffect.nodup {g g' : Graph} (h : TurnEffect g g') (hg : g.names.Nodup) :
    g'.names.Nodup := by
  cases h with
  | dropped name seq _ => exact hg
  | stored name seq neighbors _ => exact nodup_storeNode hg name seq neighbors

theorem Loaded.nodup {text : Bytes} {s : LoaderState} (h : Loaded text s) : s.2.names.Nodup := by
  have hempty : Graph.names [] = [] := rfl
  refine loaderTurns_invariant (P := fun g => g.names.Nodup) ?_ ?_ h
  · intro g g' hg heff
    exact heff.nodup hg
  · simp [hempty]

/-! ## Sequence numbers -/

/-- Every name of `g` has a number in `g'` that is not smaller. -/
def SeqLe (g g' : Graph) : Prop :=
  ∀ name p, findNode g name = some p → ∃ q, findNode g' name = some q ∧ p.seq ≤ q.seq

theorem SeqLe.refl (g : Graph) : SeqLe g g := by
  intro name p hp
  exact ⟨p, hp, le_refl _⟩

theorem SeqLe.trans {g₁ g₂ g₃ : Graph} (h : SeqLe g₁ g₂) (h' : SeqLe g₂ g₃) : SeqLe g₁ g₃ := by
  intro name p hp
  obtain ⟨q, hq, hle⟩ := h name p hp
  obtain ⟨r, hr, hle'⟩ := h' name q hq
  exact ⟨r, hr, le_trans hle hle'⟩

/-- Updating a node leaves the others alone. -/
theorem findNode_updateNode (name : Bytes) (seq : Int) (neighbors : List Bytes) (g : Graph)
    (x : Bytes) : findNode (updateNode name seq neighbors g) x =
      (findNode g x).map fun p => if x = name then ⟨name, seq, neighbors⟩ else p := by
  induction g with
  | nil => rfl
  | cons p g ih =>
    unfold findNode at ih ⊢
    unfold updateNode
    by_cases hp : p.name = name
    · rw [if_pos hp, List.find?_cons, List.find?_cons]
      by_cases hx : p.name = x
      · have hxn : x = name := hx ▸ hp
        simp [hxn, hp]
      · have hxn : x ≠ name := fun h => hx (hp.trans h.symm)
        simp [beq_false_of_ne hx, hxn]
    · rw [if_neg hp, List.find?_cons, List.find?_cons, ih]
      by_cases hx : p.name = x
      · have hxn : x ≠ name := fun h => hp (hx.trans h)
        simp [hx, hxn]
      · simp [beq_false_of_ne hx]

theorem findNode_storeNode (g : Graph) (name : Bytes) (seq : Int) (neighbors : List Bytes)
    (x : Bytes) : findNode (storeNode g name seq neighbors) x =
      if x = name then some ⟨name, seq, neighbors⟩ else findNode g x := by
  unfold storeNode
  cases hfind : findNode g name with
  | some p =>
    rw [Option.isSome_some, if_pos rfl, findNode_updateNode]
    by_cases hx : x = name
    · rw [hx, hfind]
      simp
    · simp [hx]
  | none =>
    rw [Option.isSome_none, if_neg Bool.false_ne_true]
    unfold findNode
    rw [List.find?_cons]
    by_cases hx : x = name
    · simp [hx]
    · have hne : (name == x) = false := by simpa using fun h => hx h.symm
      simp [hx, hne]

/-- A record is stored unless a newer one is. -/
theorem TurnEffect.seqLe {g g' : Graph} (h : TurnEffect g g') : SeqLe g g' := by
  cases h with
  | dropped name seq _ => exact SeqLe.refl g
  | stored name seq neighbors hstale =>
    intro x p hp
    rw [findNode_storeNode]
    by_cases hx : x = name
    · rw [if_pos hx]
      refine ⟨_, rfl, ?_⟩
      show p.seq ≤ seq
      unfold stale at hstale
      rw [← hx, hp] at hstale
      simpa using hstale
    · rw [if_neg hx]
      exact ⟨p, hp, le_refl _⟩

theorem LoaderTurns.seqLe {s s' : LoaderState} (h : LoaderTurns s s') : SeqLe s.2 s'.2 :=
  loaderTurns_invariant (P := SeqLe s.2) (fun _ _ hg heff => hg.trans heff.seqLe) (SeqLe.refl s.2) h

/-! ## The indices -/

/-- `list_t`. -/
structure ListNode where
  index : Nat
  node : GraphNode
  deriving DecidableEq

/-- The loop of `query_dns` that numbers the nodes. -/
def numberNodes : Nat → Graph → List ListNode
  | _, [] => []
  | count, p :: g => ⟨count, p⟩ :: numberNodes (count + 1) g

/-- A search of `exist_route`. -/
def findIndex (list : List ListNode) (i : Nat) : Option ListNode :=
  list.find? (fun p => p.index == i)

/-- `exist_route`, with its two searches; `p` is not looked at where `q` has no neighbour. -/
def existRouteIn (list : List ListNode) (src dst : Nat) : Checked Nat :=
  if src = dst then .ok INT_MAX
  else match findIndex list src with
    | none => .ok INT_MAX
    | some q =>
      if q.node.neighbors = [] then .ok INT_MAX
      else match findIndex list dst with
        | none => .error .nullDeref
        | some p => .ok (if q.node.neighbors.contains p.node.name then 1 else INT_MAX)

/-- **A search** finds the node at the position. -/
theorem findIndex_numberNodes (count : Nat) (g : Graph) (i : Nat) :
    findIndex (numberNodes count g) (count + i) = (g[i]?).map (ListNode.mk (count + i)) := by
  induction g generalizing count i with
  | nil => rfl
  | cons p g ih =>
    unfold findIndex numberNodes
    rw [List.find?_cons]
    cases i with
    | zero => simp
    | succ i =>
      have hne : (count == count + (i + 1)) = false := by simp
      have hadd : count + (i + 1) = (count + 1) + i := by omega
      simp only [hne, List.getElem?_cons_succ]
      rw [hadd]
      exact ih (count + 1) i

/-- The searches come to the nodes that `existRoute` takes by their positions. -/
theorem existRouteIn_numberNodes (g : Graph) (src dst : Nat) :
    existRouteIn (numberNodes 0 g) src dst = existRoute g src dst := by
  have hfind : ∀ i, findIndex (numberNodes 0 g) i = (g[i]?).map (ListNode.mk i) := by
    intro i
    have h := findIndex_numberNodes 0 g i
    rwa [Nat.zero_add] at h
  unfold existRouteIn existRoute
  simp only [hfind src, hfind dst, List.contains_iff_mem]
  cases g[src]? with
  | none => rfl
  | some q => cases g[dst]? <;> rfl

/-- **A route** is one to a stored neighbour. -/
theorem existRouteIn_eq {g : Graph} {i j : Nat} {p q : GraphNode} (hi : g[i]? = some p)
    (hj : g[j]? = some q) : existRouteIn (numberNodes 0 g) i j =
      .ok (if i ≠ j ∧ q.name ∈ p.neighbors then 1 else INT_MAX) := by
  rw [existRouteIn_numberNodes]
  unfold existRoute
  rw [hi, hj]
  by_cases hij : i = j
  · simp [hij]
  · by_cases hnil : p.neighbors = []
    · simp [hij, hnil]
    · simp [hij, hnil]

/-- **After every turn** of the loader, whatever the tokens: the names are distinct; no turn that
follows makes a stored sequence number smaller; and once the nodes are numbered, both searches of
`exist_route` find the node at its position, and a route exists exactly to another node whose name is
among the stored neighbours. -/
theorem loader_keeps {text : Bytes} {s : LoaderState} (h : Loaded text s) :
    s.2.names.Nodup ∧
    (∀ s', LoaderTurns s s' → SeqLe s.2 s'.2) ∧
    ∀ i j, i < s.2.length → j < s.2.length → ∃ p q, s.2[i]? = some p ∧ s.2[j]? = some q ∧
      findIndex (numberNodes 0 s.2) i = some ⟨i, p⟩ ∧
      findIndex (numberNodes 0 s.2) j = some ⟨j, q⟩ ∧
      existRouteIn (numberNodes 0 s.2) i j =
        .ok (if i ≠ j ∧ q.name ∈ p.neighbors then 1 else INT_MAX) := by
  refine ⟨h.nodup, fun s' hs' => hs'.seqLe, ?_⟩
  intro i j hi hj
  have hp : s.2[i]? = some s.2[i] := List.getElem?_eq_getElem hi
  have hq : s.2[j]? = some s.2[j] := List.getElem?_eq_getElem hj
  have hfind : ∀ {k : Nat} {n : GraphNode}, s.2[k]? = some n →
      findIndex (numberNodes 0 s.2) k = some ⟨k, n⟩ := by
    intro k n hk
    have hnum := findIndex_numberNodes 0 s.2 k
    rw [Nat.zero_add, hk] at hnum
    exact hnum
  exact ⟨s.2[i], s.2[j], hp, hq, hfind hp, hfind hq, existRouteIn_eq hp hq⟩

/-- The records `a 2 b`, `b 1 a` and an older one of `a`. -/
def threeRecords : Bytes := ascii "a 2 b b 1 a a 1 b"

def threeNodes : Graph := [⟨ascii "b", 1, [ascii "a"]⟩, ⟨ascii "a", 2, [ascii "b"]⟩]

/-- The older record is dropped in front of its neighbour list, which then is the sender of a last
record without fields. -/
theorem loader_keeps_three : threeNodes.names.Nodup ∧ ∃ p q, threeNodes[0]? = some p ∧
    threeNodes[1]? = some q ∧ existRouteIn (numberNodes 0 threeNodes) 0 1 =
      .ok (if 0 ≠ 1 ∧ q.name ∈ p.neighbors then 1 else INT_MAX) := by
  have hload : graphInit (some threeRecords) = .ok (0, threeNodes) := by decide
  obtain ⟨hnodup, -, hroutes⟩ := loader_keeps (loaded_of_graphInit hload)
  obtain ⟨p, q, hp, hq, -, -, hroute⟩ := hroutes 0 1 (by decide) (by decide)
  exact ⟨hnodup, p, q, hp, hq, hroute⟩

end VideoCdn
