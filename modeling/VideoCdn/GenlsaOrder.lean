import VideoCdn.Genlsa
import VideoCdn.Lib.BreadthFirst

/-!
# The order of the LSAs (`read_links`, `generate_LSAs` of `lsa/genlsa.py`)

* `LinkLines`, `neighborsIn`, `Linked` — the links in the lines of a file, and the neighbours that they
  give a node, in the order of the lines.
* `readLinks_lookup` — **the dictionary** has these neighbours.
* `bfs_search` — a round in which nothing is lost is a breadth-first search.
* `generateLsas_bfs` — it announces the nodes that are connected to the sink, in the order of their
  distances, each with its neighbours.
-/

set_option autoImplicit false

namespace VideoCdn

open CLib Worklist ShortestPath

/-! ## The dictionary -/

/-- The lines of the file hold these links. -/
def LinkLines (file : Bytes) (edges : List (Bytes × Bytes)) : Prop :=
  List.Forall₂ (fun line e => TwoNames line e.1 e.2) (getlines file) edges

/-- The other ends of the links of a node, in the order of the file; a link to itself counts twice. -/
def neighborsIn (edges : List (Bytes × Bytes)) (x : Bytes) : List Bytes :=
  edges.flatMap fun e => (if e.1 = x then [e.2] else []) ++ if e.2 = x then [e.1] else []

/-- The node is an end of a link. -/
def Mentioned (edges : List (Bytes × Bytes)) (x : Bytes) : Prop := ∃ e ∈ edges, e.1 = x ∨ e.2 = x

instance (edges : List (Bytes × Bytes)) (x : Bytes) : Decidable (Mentioned edges x) :=
  inferInstanceAs (Decidable (∃ e ∈ edges, e.1 = x ∨ e.2 = x))

/-- A link between two nodes, in either direction. -/
def Linked (edges : List (Bytes × Bytes)) (u v : Bytes) : Prop := (u, v) ∈ edges ∨ (v, u) ∈ edges

theorem mem_neighborsIn {edges : List (Bytes × Bytes)} {u v : Bytes} :
    v ∈ neighborsIn edges u ↔ Linked edges u v := by
  unfold neighborsIn Linked
  rw [List.mem_flatMap]
  constructor
  · rintro ⟨⟨a, b⟩, he, hv⟩
    rcases List.mem_append.mp hv with hv | hv
    · split at hv
      · rename_i ha
        rw [List.mem_singleton.mp hv, ← ha]
        exact Or.inl he
      · cases hv
    · split at hv
      · rename_i hb
        rw [List.mem_singleton.mp hv, ← hb]
        exact Or.inr he
      · cases hv
  · rintro (he | he)
    · exact ⟨(u, v), he, by simp⟩
    · exact ⟨(v, u), he, by simp⟩

theorem neighborsIn_eq_nil {edges : List (Bytes × Bytes)} {x : Bytes} (h : ¬ Mentioned edges x) :
    neighborsIn edges x = [] := by
  rw [List.eq_nil_iff_forall_not_mem]
  intro v hv
  rcases mem_neighborsIn.mp hv with he | he
  · exact h ⟨_, he, Or.inl rfl⟩
  · exact h ⟨_, he, Or.inr rfl⟩

theorem mentioned_concat {edges : List (Bytes × Bytes)} {a b x : Bytes} :
    Mentioned (edges ++ [(a, b)]) x ↔ Mentioned edges x ∨ a = x ∨ b = x := by
  unfold Mentioned
  simp [or_and_right, exists_or]

theorem neighborsIn_concat (edges : List (Bytes × Bytes)) (a b x : Bytes) :
    neighborsIn (edges ++ [(a, b)]) x =
      neighborsIn edges x ++ ((if a = x then [b] else []) ++ if b = x then [a] else []) := by
  unfold neighborsIn
  rw [List.flatMap_append, List.flatMap_singleton]

theorem Links.lookup_addNode (links : Links) (node x : Bytes) :
    (links.addNode node).lookup x = (links.lookup x).or (if node = x then some [] else none) := by
  unfold addNode
  split
  · rename_i hin
    have hmem : node ∈ links.keys := by simpa using hin
    by_cases hx : node = x
    · obtain ⟨ns, hns⟩ := Links.exists_lookup hmem
      rw [← hx, hns]
      rfl
    · rw [if_neg hx, Option.or_none]
  · rw [List.lookup_append]
    by_cases hx : node = x
    · simp [hx]
    · have hne : (x == node) = false := beq_false_of_ne (fun h => hx h.symm)
      simp [hx, List.lookup_cons, hne]

theorem Links.lookup_append (links : Links) (node neighbor x : Bytes) :
    (links.append node neighbor).lookup x =
      (links.lookup x).map fun ns => if node = x then ns ++ [neighbor] else ns := by
  induction links with
  | nil => rfl
  | cons p links ih =>
    obtain ⟨y, ns⟩ := p
    unfold Links.append at ih ⊢
    rw [List.map_cons]
    by_cases hx : x = y
    · subst hx
      by_cases hn : node = x
      · simp [hn]
      · have hn' : x ≠ node := fun h => hn h.symm
        simp [hn, hn']
    · have hne : (x == y) = false := beq_false_of_ne hx
      by_cases hn : y = node
      · simp only [hn, if_true, List.lookup_cons, hn ▸ hne]
        exact ih
      · simp only [hn, if_false, List.lookup_cons, hne]
        exact ih

/-- The dictionary of these links. -/
def DictionaryOf (edges : List (Bytes × Bytes)) (links : Links) : Prop :=
  ∀ x, links.lookup x = if Mentioned edges x then some (neighborsIn edges x) else none

/-- **One line** of the file. -/
theorem DictionaryOf.addLink {edges : List (Bytes × Bytes)} {links : Links}
    (h : DictionaryOf edges links) (a b : Bytes) : DictionaryOf (edges ++ [(a, b)])
      ((((links.addNode a).addNode b).append a b).append b a) := by
  intro x
  rw [Links.lookup_append, Links.lookup_append, Links.lookup_addNode, Links.lookup_addNode, h x,
    neighborsIn_concat]
  have hmentioned : Mentioned (edges ++ [(a, b)]) x ↔ Mentioned edges x ∨ a = x ∨ b = x :=
    mentioned_concat
  -- the entries in front of the two appends
  have hentry : ((if Mentioned edges x then some (neighborsIn edges x) else none).or
      (if a = x then some [] else none)).or (if b = x then some [] else none) =
        if Mentioned (edges ++ [(a, b)]) x then some (neighborsIn edges x) else none := by
    by_cases hx : Mentioned edges x
    · rw [if_pos hx, if_pos (hmentioned.mpr (Or.inl hx))]
      rfl
    · have hnil := neighborsIn_eq_nil hx
      simp only [hmentioned, hx, hnil, if_false, false_or]
      by_cases ha : a = x <;> by_cases hb : b = x <;> simp [ha, hb]
  rw [hentry]
  by_cases hx : Mentioned (edges ++ [(a, b)]) x
  · rw [if_pos hx, if_pos hx]
    by_cases ha : a = x <;> by_cases hb : b = x <;> simp [ha, hb]
  · rw [if_neg hx, if_neg hx]
    rfl

theorem readLinks_lookup {file : Bytes} {edges : List (Bytes × Bytes)} (hfile : LinkLines file edges) :
    ∃ links, readLinks file = .ok links ∧ DictionaryOf edges links := by
  unfold readLinks
  unfold LinkLines at hfile
  generalize getlines file = lines at hfile
  suffices ∀ links₀ edges₀, DictionaryOf edges₀ links₀ → ∃ links,
      lines.foldlM addLink links₀ = .ok links ∧ DictionaryOf (edges₀ ++ edges) links by
    exact this [] [] (fun x => by simp [Mentioned])
  intro links₀ edges₀ h₀
  induction hfile generalizing links₀ edges₀ with
  | nil => exact ⟨links₀, rfl, by rwa [List.append_nil]⟩
  | @cons line e lines edges hline _ ih =>
    obtain ⟨links, hrun, hlinks⟩ := ih _ _ (h₀.addLink e.1 e.2)
    refine ⟨links, ?_, ?_⟩
    · rw [List.foldlM_cons, addLink_eq hline, ok_bind, hrun]
    · rwa [List.append_assoc] at hlinks

/-- The neighbours that the search looks up. -/
def Links.neighbors (links : Links) (x : Bytes) : List Bytes := (links.lookup x).getD []

theorem DictionaryOf.neighbors_eq {edges : List (Bytes × Bytes)} {links : Links}
    (h : DictionaryOf edges links) : links.neighbors = neighborsIn edges := by
  funext x
  unfold Links.neighbors
  rw [h x]
  by_cases hx : Mentioned edges x
  · rw [if_pos hx]
    rfl
  · rw [if_neg hx, neighborsIn_eq_nil hx]
    rfl

/-- The other end of a link has an entry. -/
theorem LinkLines.closed {edges : List (Bytes × Bytes)} {links : Links} {file : Bytes}
    (hfile : LinkLines file edges) (hread : readLinks file = .ok links) :
    Closed (fun _ => True) links := by
  have hlines : ∀ line ∈ getlines file, ∃ a b, TwoNames line a b ∧ True ∧ True := by
    intro line hline
    obtain ⟨i, hi, rfl⟩ := List.mem_iff_getElem.mp hline
    have hlen : i < edges.length := hfile.length_eq ▸ hi
    exact ⟨_, _, hfile.get hi hlen, trivial, trivial⟩
  obtain ⟨links', hread', hclosed⟩ := readLinks_spec hlines
  rw [hread, Except.ok.injEq] at hread'
  rwa [hread']

/-! ## One round -/

/-- **A round in which nothing is lost** is a search over the neighbour lists. -/
theorem bfs_search {links : Links} {roundNum k : Nat} {visited : Finset Bytes}
    {toVisit : List Bytes} {lsas : List Lsa}
    (h : bfs links (fun _ => true) roundNum k visited toVisit = .ok lsas) :
    Search links.neighbors visited toVisit (lsas.map Lsa.sender) := by
  induction k, visited, toVisit using bfs.induct links generalizing lsas with
  | case1 k visited =>
    rw [bfs] at h
    cases h
    exact .done visited
  | case2 k visited current rest hnone =>
    rw [bfs] at h
    split at h
    · cases h
    · rename_i ns hns
      rw [hnone] at hns
      cases hns
  | case3 k visited current rest neighbors hlookup ih =>
    have hneighbors : links.neighbors current = neighbors := by
      unfold Links.neighbors
      rw [hlookup]
      rfl
    rw [bfs] at h
    split at h
    · rename_i hnone
      rw [hlookup] at hnone
      cases hnone
    · rename_i ns hns
      rw [hlookup, Option.some.injEq] at hns
      subst hns
      rw [bind_eq_ok] at h
      obtain ⟨later, hlater, h⟩ := h
      simp only [if_true, pure_eq_ok, Except.ok.injEq] at h
      subst h
      apply Search.turn
      rw [hneighbors]
      exact ih hlater

theorem DictionaryOf.search {edges : List (Bytes × Bytes)} {links : Links} {sinkNode : Bytes}
    {roundNum : Nat} {lsas : List Lsa} (h : DictionaryOf edges links)
    (hlookup : links.lookup sinkNode = some (neighborsIn edges sinkNode))
    (hrun : generateLsas links sinkNode roundNum (fun _ => true) = .ok lsas) :
    Search (neighborsIn edges) {sinkNode} (neighborsIn edges sinkNode) (lsas.map Lsa.sender) := by
  unfold generateLsas at hrun
  rw [hlookup] at hrun
  rw [← h.neighbors_eq]
  exact h.neighbors_eq ▸ bfs_search hrun

/-- What one round should announce: the nodes other than the sink that are connected to it, none
before one that is nearer, each with its neighbours; and each once, if no neighbour of the sink is
listed twice. -/
structure AnnouncesInOrder (edges : List (Bytes × Bytes)) (sinkNode : Bytes) (roundNum : Nat)
    (lsas : List Lsa) : Prop where
  announced : ∀ x, (∃ l ∈ lsas, l.sender = x) ↔
    x ≠ sinkNode ∧ ∃ n, Hops (Linked edges) sinkNode x n
  ordered : lsas.Pairwise fun l l' => ∀ m n, HopDist (Linked edges) sinkNode l.sender m →
    HopDist (Linked edges) sinkNode l'.sender n → m ≤ n
  entries : ∀ l ∈ lsas, l.seqnum = roundNum ∧ l.neighbors = neighborsIn edges l.sender
  once : (neighborsIn edges sinkNode).Nodup → (lsas.map Lsa.sender).Nodup

/-- **One round in which nothing is lost**, for a sink of the file that is not linked to itself: the
generator reads the file, ends, and announces the connected nodes in the order of their distances. -/
theorem generateLsas_bfs {file : Bytes} {edges : List (Bytes × Bytes)} (hfile : LinkLines file edges)
    {sinkNode : Bytes} (hsink : Mentioned edges sinkNode) (hself : (sinkNode, sinkNode) ∉ edges)
    (roundNum : Nat) : ∃ links lsas, readLinks file = .ok links ∧
      generateLsas links sinkNode roundNum (fun _ => true) = .ok lsas ∧
      (∀ l ∈ lsas, links.lookup l.sender = some l.neighbors) ∧
      AnnouncesInOrder edges sinkNode roundNum lsas := by
  obtain ⟨links, hread, hdict⟩ := readLinks_lookup hfile
  have hclosed := hfile.closed hread
  have hlookup : links.lookup sinkNode = some (neighborsIn edges sinkNode) := by
    rw [hdict sinkNode, if_pos hsink]
  have hkey : sinkNode ∈ links.keys := by
    have hmem := Closed.lookup_mem hlookup
    exact List.mem_map_of_mem hmem
  obtain ⟨lsas, hrun, hentries, -⟩ := generateLsas_spec hclosed hkey roundNum (fun _ => true)
  have hsearch := hdict.search hlookup hrun
  have hadj : Adj (neighborsIn edges) = Linked edges := by
    funext u v
    exact propext mem_neighborsIn
  have hnot : sinkNode ∉ neighborsIn edges sinkNode := by
    intro hmem
    rcases mem_neighborsIn.mp hmem with h | h
    · exact hself h
    · exact hself h
  refine ⟨links, lsas, hread, hrun, fun l hl => (hentries l hl).2, ⟨?_, ?_, ?_, ?_⟩⟩
  · intro x
    have hiff := hsearch.mem_iff hnot (v := x)
    rw [hadj, List.mem_map] at hiff
    exact hiff
  · have hstart := (hsearch.ordered (List.append_nil _).symm (Layers.start hnot)).2
    rw [hadj, List.pairwise_map] at hstart
    refine hstart.imp (fun hle m n hm hn => ?_)
    exact hle m n hm hn.1
  · intro l hl
    obtain ⟨hseq, hentry⟩ := hentries l hl
    refine ⟨hseq, ?_⟩
    have hneighbors := congrFun hdict.neighbors_eq l.sender
    unfold Links.neighbors at hneighbors
    rw [hentry] at hneighbors
    exact hneighbors
  · intro hnodup
    apply hsearch.nodup hnodup
    intro v hv hmem
    rw [Finset.mem_singleton.mp hmem] at hv
    exact hnot hv

/-- A triangle with a link behind it, of which one is repeated and one leads back to its node. -/
def triangleFile : Bytes := ascii "a b\nb c\nc a\nc d\nb c\nd d\n"

def triangleEdges : List (Bytes × Bytes) :=
  [(ascii "a", ascii "b"), (ascii "b", ascii "c"), (ascii "c", ascii "a"), (ascii "c", ascii "d"),
    (ascii "b", ascii "c"), (ascii "d", ascii "d")]

theorem generateLsas_bfs_triangle : ∃ links lsas, readLinks triangleFile = .ok links ∧
    generateLsas links (ascii "a") 3 (fun _ => true) = .ok lsas ∧
    (lsas.map Lsa.sender).Nodup := by
  have hfile : LinkLines triangleFile triangleEdges := by
    have hlines : getlines triangleFile = [ascii "a b\n", ascii "b c\n", ascii "c a\n",
      ascii "c d\n", ascii "b c\n", ascii "d d\n"] := by decide
    unfold LinkLines
    rw [hlines]
    refine .cons ⟨?_, ?_, ?_⟩ (.cons ⟨?_, ?_, ?_⟩ (.cons ⟨?_, ?_, ?_⟩ (.cons ⟨?_, ?_, ?_⟩
      (.cons ⟨?_, ?_, ?_⟩ (.cons ⟨?_, ?_, ?_⟩ .nil))))) <;> decide
  obtain ⟨links, lsas, hread, hrun, -, hannounces⟩ :=
    generateLsas_bfs hfile (show Mentioned triangleEdges (ascii "a") by decide) (by decide) 3
  exact ⟨links, lsas, hread, hrun, hannounces.once (by decide)⟩

end VideoCdn
