import VideoCdn.Lib.CString

/-!
# The LSA loader (`graph_init` of `src/dijkstra.c`)

The loader reads white-space separated tokens: a sender, a sequence number and a comma-separated
neighbour list for each record.

* `GraphNode`, `Graph` — a list node with its neighbours, and `graph_list` from its head on.
* `graphLoop` — the loop of `graph_init` over the tokens that are left.  A record older than the
  stored one is dropped *before its neighbour list is read*.
* `graphStep`, `graphStep_cases` — one turn of the loop, and what it does; `graphLoop_induction` — the
  loop by its turns.
* `graphLoop_invariant` — what storing a record keeps, the loader keeps; hence
  `nodup_of_graphLoop` and `names_subset_of_graphLoop` for every token stream.
-/

set_option autoImplicit false

namespace VideoCdn

open CLib

def LINE_LENGTH : Nat := 200
def LENTH : Nat := 50

/-- `graph_node_t`; `count_neighbors` is the length of `neighbors`. -/
structure GraphNode where
  name : Bytes
  seq : Int
  neighbors : List Bytes
  deriving DecidableEq, Repr

/-- `graph_list`, head first. -/
abbrev Graph := List GraphNode

def Graph.names (g : Graph) : List Bytes := g.map GraphNode.name

/-- `fscanf(fp, "%s", line)` for the next token. -/
def scanToken (tok : Bytes) : Checked Bytes := do
  inBounds (tok.length < LINE_LENGTH)
  return cstr tok

/-- `strcpy` into a `name_char[LENTH]`. -/
def strcpyName (s : Bytes) : Checked Bytes := do
  inBounds (s.length < LENTH)
  return s

/-- The `strtok` loop over a neighbour list. -/
def readNeighbors (line : Bytes) : Checked (List Bytes) := do
  inBounds ((strtok (· == 44) line).length ≤ LENTH)
  (strtok (· == 44) line).mapM strcpyName

/-- The search for the node of that name. -/
def findNode (g : Graph) (name : Bytes) : Option GraphNode := g.find? (fun p => p.name == name)

/-- `exist && new_element->node.seq < p->node.seq`. -/
def stale (g : Graph) (name : Bytes) (seq : Int) : Bool :=
  match findNode g name with
  | none => false
  | some p => decide (seq < p.seq)

/-- The node found gets the new sequence number and neighbours. -/
def updateNode (name : Bytes) (seq : Int) (neighbors : List Bytes) : Graph → Graph
  | [] => []
  | p :: g =>
    if p.name = name then { p with seq := seq, neighbors := neighbors } :: g
    else p :: updateNode name seq neighbors g

/-- A new node goes to the head of the list. -/
def storeNode (g : Graph) (name : Bytes) (seq : Int) (neighbors : List Bytes) : Graph :=
  if (findNode g name).isSome then updateNode name seq neighbors g
  else ⟨name, seq, neighbors⟩ :: g

def storeRecord (g : Graph) (name : Bytes) (seq : Int) (line : Bytes) : Checked Graph := do
  let neighbors ← readNeighbors line
  return storeNode g name seq neighbors

def readName (tok : Bytes) : Checked Bytes := do
  let line ← scanToken tok
  strcpyName line

/-- The loop of `graph_init`.  At the end of the file `line` has just been cleared, so a missing
sequence number or neighbour list is read from the empty string. -/
def graphLoop : List Bytes → Graph → Checked Graph
  | [], g => .ok g
  | [t], g => do
    let name ← readName t
    if stale g name (atoi []) then return g
    else storeRecord g name (atoi []) []
  | [t, u], g => do
    let name ← readName t
    let line ← scanToken u
    if stale g name (atoi line) then return g
    else storeRecord g name (atoi line) []
  | t :: u :: v :: rest, g => do
    let name ← readName t
    let line ← scanToken u
    -- `continue` goes on with the neighbour list `v` as the next sender
    if stale g name (atoi line) then graphLoop (v :: rest) g
    else do
      let line' ← scanToken v
      let g' ← storeRecord g name (atoi line) line'
      graphLoop rest g'

/-- `graph_init`: its result and `graph_list`; `none` is a file that cannot be opened. -/
def graphInit (file : Option Bytes) : Checked (Int × Graph) :=
  match file with
  | none => .ok (-1, [])
  | some text => do
    let g ← graphLoop (words text) []
    return (0, g)

theorem graphInit_eq_ok {text : Bytes} {g : Graph} :
    graphInit (some text) = .ok (0, g) ↔ graphLoop (words text) [] = .ok g := by
  simp [graphInit, bind_eq_ok]

/-! ## Reading tokens -/

theorem scanToken_eq_ok {t : Bytes} (h : t.length < LINE_LENGTH) (hn : (0 : UInt8) ∉ t) :
    scanToken t = .ok t := by
  unfold scanToken
  rw [inBounds_pos h, ok_bind, pure_eq_ok, cstr_of_no_nul hn]

theorem strcpyName_eq_ok {s t : Bytes} : strcpyName s = .ok t ↔ s.length < LENTH ∧ s = t := by
  unfold strcpyName
  rw [inBounds_bind_eq_ok, pure_eq_ok, Except.ok.injEq]

theorem readName_eq_ok {tok : Bytes} (h : tok.length < LENTH) (hn : (0 : UInt8) ∉ tok) :
    readName tok = .ok tok := by
  have hlt : LENTH < LINE_LENGTH := by decide
  unfold readName
  rw [scanToken_eq_ok (Nat.lt_trans h hlt) hn, ok_bind, strcpyName_eq_ok]
  exact ⟨h, rfl⟩

theorem scanToken_inv {tok line : Bytes} (h : scanToken tok = .ok line) : line = cstr tok := by
  unfold scanToken at h
  simp only [inBounds_bind_eq_ok, pure_eq_ok, Except.ok.injEq] at h
  exact h.2.symm

theorem readName_inv {tok name : Bytes} (h : readName tok = .ok name) : name = cstr tok := by
  unfold readName at h
  rw [bind_eq_ok] at h
  obtain ⟨line, hl, h⟩ := h
  obtain ⟨-, rfl⟩ := strcpyName_eq_ok.mp h
  exact scanToken_inv hl

theorem readNeighbors_eq_ok {line : Bytes} (hcount : (strtok (· == 44) line).length ≤ LENTH)
    (hfit : ∀ t ∈ strtok (· == 44) line, t.length < LENTH) :
    readNeighbors line = .ok (strtok (· == 44) line) := by
  unfold readNeighbors
  rw [inBounds_pos hcount, ok_bind, mapM_eq_ok (g := id)
    (fun t ht => strcpyName_eq_ok.mpr ⟨hfit t ht, rfl⟩), List.map_id]

theorem readNeighbors_inv : ∀ {line : Bytes} {neighbors : List Bytes},
    readNeighbors line = .ok neighbors → neighbors = strtok (· == 44) line := by
  intro line neighbors h
  unfold readNeighbors at h
  rw [inBounds_bind_eq_ok] at h
  obtain ⟨-, h⟩ := h
  generalize strtok (· == 44) line = toks at h
  induction toks generalizing neighbors with
  | nil => cases h; rfl
  | cons t ts ih =>
    rw [List.mapM_cons, bind_eq_ok] at h
    obtain ⟨t', ht, h⟩ := h
    rw [bind_eq_ok] at h
    obtain ⟨ts', hts, h⟩ := h
    cases h
    rw [(strcpyName_eq_ok.mp ht).2, ih hts]

/-! ## Storing a record -/

theorem findNode_isSome {g : Graph} {name : Bytes} :
    (findNode g name).isSome = true ↔ name ∈ g.names := by
  simp [findNode, Graph.names, List.find?_isSome]

theorem findNode_eq_some {g : Graph} {name : Bytes} {p : GraphNode} (h : findNode g name = some p) :
    p ∈ g ∧ p.name = name :=
  ⟨List.mem_of_find?_eq_some h, by simpa using List.find?_some h⟩

theorem names_updateNode (name : Bytes) (seq : Int) (neighbors : List Bytes) (g : Graph) :
    (updateNode name seq neighbors g).map GraphNode.name = g.map GraphNode.name := by
  induction g with
  | nil => rfl
  | cons p g ih =>
    unfold updateNode
    split
    · rfl
    · rw [List.map_cons, List.map_cons, ih]

theorem names_storeNode (g : Graph) (name : Bytes) (seq : Int) (neighbors : List Bytes) :
    (storeNode g name seq neighbors).names = if name ∈ g.names then g.names else name :: g.names := by
  unfold storeNode
  simp only [findNode_isSome]
  split
  · exact names_updateNode name seq neighbors g
  · rfl

theorem mem_names_of_stale {g : Graph} {name : Bytes} {seq : Int} (h : stale g name seq = true) :
    name ∈ g.names := by
  unfold stale at h
  split at h
  · cases h
  · rename_i p hp
    exact findNode_isSome.mp (by rw [hp]; rfl)

theorem nodup_storeNode {g : Graph} (hg : g.names.Nodup) (name : Bytes) (seq : Int)
    (neighbors : List Bytes) : (storeNode g name seq neighbors).names.Nodup := by
  rw [names_storeNode]
  split
  · exact hg
  · rename_i hin
    exact List.nodup_cons.mpr ⟨hin, hg⟩

theorem self_mem_names_storeNode (g : Graph) (name : Bytes) (seq : Int) (neighbors : List Bytes) :
    name ∈ (storeNode g name seq neighbors).names := by
  rw [names_storeNode]
  split
  · assumption
  · exact List.mem_cons_self

theorem mem_updateNode {g : Graph} (hg : g.names.Nodup) {name : Bytes} {seq : Int}
    {neighbors : List Bytes} {n : GraphNode} :
    n ∈ updateNode name seq neighbors g ↔
      (name ∈ g.names ∧ n = ⟨name, seq, neighbors⟩) ∨ n ∈ g ∧ n.name ≠ name := by
  induction g with
  | nil => simp [updateNode, Graph.names]
  | cons p g ih =>
    simp only [Graph.names, List.map_cons, List.nodup_cons] at hg
    have ih := ih hg.2
    have hrest : ∀ m ∈ g, m.name ≠ p.name :=
      fun m hm he => hg.1 (he ▸ List.mem_map_of_mem hm)
    unfold updateNode
    by_cases hp : p.name = name
    · rw [if_pos hp]
      simp only [List.mem_cons, Graph.names, List.map_cons, hp, true_or, true_and]
      constructor
      · rintro (rfl | hm)
        · exact Or.inl rfl
        · exact Or.inr ⟨Or.inr hm, hp ▸ hrest n hm⟩
      · rintro (rfl | ⟨rfl | hm, hne⟩)
        · exact Or.inl rfl
        · exact absurd hp hne
        · exact Or.inr hm
    · rw [if_neg hp]
      simp only [List.mem_cons, ih, Graph.names, List.map_cons]
      constructor
      · rintro (rfl | ⟨hin, rfl⟩ | ⟨hm, hne⟩)
        · exact Or.inr ⟨Or.inl rfl, hp⟩
        · exact Or.inl ⟨Or.inr hin, rfl⟩
        · exact Or.inr ⟨Or.inr hm, hne⟩
      · rintro (⟨rfl | hin, rfl⟩ | ⟨rfl | hm, hne⟩)
        · exact absurd rfl hp
        · exact Or.inr (Or.inl ⟨hin, rfl⟩)
        · exact Or.inl rfl
        · exact Or.inr (Or.inr ⟨hm, hne⟩)

/-- **The stored record replaces the node of its sender** and leaves the others alone. -/
theorem mem_storeNode {g : Graph} (hg : g.names.Nodup) {name : Bytes} {seq : Int}
    {neighbors : List Bytes} {n : GraphNode} :
    n ∈ storeNode g name seq neighbors ↔ n = ⟨name, seq, neighbors⟩ ∨ n ∈ g ∧ n.name ≠ name := by
  unfold storeNode
  by_cases hin : name ∈ g.names
  · rw [if_pos (findNode_isSome.mpr hin), mem_updateNode hg]
    simp [hin]
  · rw [if_neg (fun h => hin (findNode_isSome.mp h)), List.mem_cons]
    have : ∀ m ∈ g, m.name ≠ name := fun m hm he => hin (he ▸ List.mem_map_of_mem hm)
    exact ⟨fun h => h.imp id (fun hm => ⟨hm, this n hm⟩), fun h => h.imp id And.left⟩

/-! ## One turn -/

/-- `fscanf` at the end of the file leaves `line` cleared. -/
def nextToken : List Bytes → Bytes × List Bytes
  | [] => ([], [])
  | t :: toks => (t, toks)

/-- The body of the loop of `graph_init`, once `t` has been read as the sender: the tokens that are
left, and the list. -/
def graphStep (t : Bytes) (toks : List Bytes) (g : Graph) : Checked (List Bytes × Graph) := do
  let name ← readName t
  let line ← scanToken (nextToken toks).1
  let toks := (nextToken toks).2
  if stale g name (atoi line) then return (toks, g)
  else do
    let line' ← scanToken (nextToken toks).1
    let g' ← storeRecord g name (atoi line) line'
    return ((nextToken toks).2, g')

/-- The loop of `graph_init` takes such turns up to the end of the file. -/
theorem graphLoop_step (t : Bytes) (toks : List Bytes) (g : Graph) :
    graphLoop (t :: toks) g = (do
      let (toks', g') ← graphStep t toks g
      graphLoop toks' g') := by
  have hnil : scanToken [] = .ok [] := rfl
  unfold graphStep
  cases hname : readName t with
  | error e =>
    match toks with
    | [] => simp [graphLoop, hname]
    | [u] => simp [graphLoop, hname]
    | u :: v :: rest => simp [graphLoop, hname]
  | ok name =>
    match toks with
    | [] =>
      simp only [graphLoop, hname, nextToken, hnil, ok_bind]
      split
      · rfl
      · cases storeRecord g name (atoi []) [] <;> rfl
    | [u] =>
      simp only [graphLoop, hname, nextToken, hnil, ok_bind]
      cases scanToken u with
      | error e => rfl
      | ok line =>
        simp only [ok_bind]
        split
        · rfl
        · cases storeRecord g name (atoi line) [] <;> rfl
    | u :: v :: rest =>
      simp only [graphLoop, hname, nextToken, ok_bind]
      cases scanToken u with
      | error e => rfl
      | ok line =>
        simp only [ok_bind]
        split
        · rfl
        · cases scanToken v with
          | error e => rfl
          | ok line' =>
            simp only [ok_bind]
            cases storeRecord g name (atoi line) line' <;> rfl

/-- **What a turn does**: a record that is older than the stored one is dropped in front of its neighbour
list, and another one is stored. -/
theorem graphStep_cases {t : Bytes} {toks toks' : List Bytes} {g g' : Graph}
    (h : graphStep t toks g = .ok (toks', g')) :
    (stale g (cstr t) (atoi (cstr (nextToken toks).1)) = true ∧ toks' = (nextToken toks).2 ∧ g' = g) ∨
    (stale g (cstr t) (atoi (cstr (nextToken toks).1)) = false ∧
      toks' = (nextToken (nextToken toks).2).2 ∧
      g' = storeNode g (cstr t) (atoi (cstr (nextToken toks).1))
        (strtok (· == 44) (cstr (nextToken (nextToken toks).2).1))) := by
  unfold graphStep at h
  rw [bind_eq_ok] at h
  obtain ⟨name, hname, h⟩ := h
  rw [bind_eq_ok] at h
  obtain ⟨line, hline, h⟩ := h
  rw [← readName_inv hname, ← scanToken_inv hline]
  split at h
  · rename_i hstale
    cases h
    exact Or.inl ⟨hstale, rfl, rfl⟩
  · rename_i hstale
    simp only [storeRecord, bind_eq_ok, pure_eq_ok, Except.ok.injEq, Prod.mk.injEq] at h
    obtain ⟨line', hline', g₁, ⟨neighbors, hneighbors, rfl⟩, rfl, rfl⟩ := h
    rw [readNeighbors_inv hneighbors, scanToken_inv hline']
    exact Or.inr ⟨by simpa using hstale, rfl, rfl⟩

theorem length_nextToken_le (toks : List Bytes) : (nextToken toks).2.length ≤ toks.length := by
  cases toks with
  | nil => exact Nat.le_refl _
  | cons t toks => exact Nat.le_succ _

theorem graphStep_length {t : Bytes} {toks toks' : List Bytes} {g g' : Graph}
    (h : graphStep t toks g = .ok (toks', g')) : toks'.length ≤ toks.length := by
  rcases graphStep_cases h with ⟨-, rfl, -⟩ | ⟨-, rfl, -⟩
  · exact length_nextToken_le toks
  · exact Nat.le_trans (length_nextToken_le _) (length_nextToken_le toks)

/-- **Loop rule**: what holds at the end of the file and passes to the front over every turn. -/
theorem graphLoop_induction {P : List Bytes → Graph → Graph → Prop} (hnil : ∀ g, P [] g g)
    (hturn : ∀ t toks g toks₁ g₁ g', graphStep t toks g = .ok (toks₁, g₁) → P toks₁ g₁ g' →
      P (t :: toks) g g') {toks : List Bytes} {g g' : Graph} (h : graphLoop toks g = .ok g') :
    P toks g g' := by
  induction hn : toks.length using Nat.strong_induction_on generalizing toks g with
  | _ n ih =>
    cases toks with
    | nil =>
      cases h
      exact hnil _
    | cons t toks =>
      rw [graphLoop_step, bind_eq_ok] at h
      obtain ⟨⟨toks₁, g₁⟩, hstep, hrest⟩ := h
      have hle := graphStep_length hstep
      rw [List.length_cons] at hn
      exact hturn t toks g toks₁ g₁ g' hstep (ih toks₁.length (by omega) hrest rfl)

/-- The loop behind its first turn. -/
theorem graphLoop_cons {t : Bytes} {toks : List Bytes} {g g' : Graph}
    (h : graphLoop (t :: toks) g = .ok g') :
    (stale g (cstr t) (atoi (cstr (nextToken toks).1)) = true ∧
      graphLoop (nextToken toks).2 g = .ok g') ∨
    graphLoop (nextToken (nextToken toks).2).2 (storeNode g (cstr t) (atoi (cstr (nextToken toks).1))
      (strtok (· == 44) (cstr (nextToken (nextToken toks).2).1))) = .ok g' := by
  rw [graphLoop_step, bind_eq_ok] at h
  obtain ⟨⟨toks₁, g₁⟩, hstep, hrest⟩ := h
  rcases graphStep_cases hstep with ⟨hstale, rfl, rfl⟩ | ⟨-, rfl, rfl⟩
  · exact Or.inl ⟨hstale, hrest⟩
  · exact Or.inr hrest

/-! ## What the loader keeps -/

/-- **Loader rule**: what storing a record keeps, the loader keeps. -/
theorem graphLoop_invariant {P : Graph → Prop}
    (hstore : ∀ g name seq neighbors, P g → P (storeNode g name seq neighbors))
    {toks : List Bytes} {g g' : Graph} (hg : P g) (h : graphLoop toks g = .ok g') : P g' := by
  refine graphLoop_induction (P := fun _ g g' => P g → P g') (fun g hg => hg) ?_ h hg
  intro t toks g toks₁ g₁ g' hstep ih hg
  rcases graphStep_cases hstep with ⟨-, -, rfl⟩ | ⟨-, -, rfl⟩
  · exact ih hg
  · exact ih (hstore _ _ _ _ hg)

/-- **The names in the list are distinct**, whatever the tokens. -/
theorem nodup_of_graphLoop {toks : List Bytes} {g g' : Graph} (hg : g.names.Nodup)
    (h : graphLoop toks g = .ok g') : g'.names.Nodup := by
  apply graphLoop_invariant (P := fun g => g.names.Nodup) _ hg h
  intro g name seq neighbors hg
  exact nodup_storeNode hg name seq neighbors

/-- No name is ever removed. -/
theorem names_subset_of_graphLoop {toks : List Bytes} {g g' : Graph}
    (h : graphLoop toks g = .ok g') : ∀ x ∈ g.names, x ∈ g'.names := by
  refine graphLoop_invariant (P := fun g' => ∀ x ∈ g.names, x ∈ g'.names) ?_ (fun _ hx => hx) h
  intro g₁ name seq neighbors hg₁ x hx
  rw [names_storeNode]
  split
  · exact hg₁ x hx
  · exact List.mem_cons_of_mem _ (hg₁ x hx)

end VideoCdn
