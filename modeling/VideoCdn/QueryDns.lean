import VideoCdn.Dijkstra
import VideoCdn.Servers
import VideoCdn.Lib.FirstMin

/-!
# Choosing a server (`query_dns` of `src/dijkstra.c`)

`query_dns` looks the source up but never uses what it finds: `dijkstra` is always run from index
`0`, the node at the head of the list.

* `queryDns` — the function; the caller copies the name of the result, so no server found is a
  null dereference.
* `ServedFromHead` — what it computes: the first server, in the order of the scan, among those
  fewest hops away from the *head of the list*; `queryDns_eq_ok_iff`.
* `Nearest` — what it is for: a listed node fewest hops away from the source.
* `queryDns_nearest_iff` — the exact condition under which the two agree;
  `queryDns_not_nearest` is a chain of three nodes on which they do not.
-/

set_option autoImplicit false

namespace VideoCdn

open CLib ShortestPath Scan

/-- `strncmp(q->sname, name, strlen(name)) == 0`. -/
def isServer (name : Bytes) (q : Server) : Bool := name.isPrefixOf q.sname

/-- The loop over the servers for one node at distance `d`: `min` and `ret`. -/
def scanServers (name : Bytes) (d : Nat) (head : List Server) (acc : Nat × Option Server) :
    Nat × Option Server :=
  head.foldl (fun acc q => if isServer name q ∧ d < acc.1 then (d, some q) else acc) acc

/-- `query_dns`; the element searched for in round `i` is the one at position `i`. -/
def queryDns (g : Graph) (_src : Bytes) (head : List Server) : Checked Server := do
  let array ← routeArray g
  let dist ← dijkstra array 0 g.length
  let (_, ret) := g.zipIdx.foldl
    (fun acc p => scanServers p.1.name (distAt dist p.2) head acc) (INT_MAX, none)
  match ret with
  | none => .error .nullDeref
  | some q => .ok q

/-! ## Hops between the names of a graph -/

/-- `b` is a node that `a` lists among its neighbours. -/
def Graph.Adj (g : Graph) (a b : Bytes) : Prop :=
  b ∈ g.names ∧ ∃ q ∈ g, q.name = a ∧ b ∈ q.neighbors

theorem Graph.mem_names {g : Graph} {p : GraphNode} {i : Nat} (h : g[i]? = some p) :
    p.name ∈ g.names :=
  List.mem_map_of_mem (List.mem_of_getElem? h)

/-- Distinct names: a node is found at one index only. -/
theorem Graph.index_unique {g : Graph} (hg : g.names.Nodup) {i j : Nat} {p q : GraphNode}
    (hi : g[i]? = some p) (hj : g[j]? = some q) (h : p.name = q.name) : i = j := by
  have hi' : g.names[i]? = some p.name := by unfold Graph.names; rw [List.getElem?_map, hi]; rfl
  have hj' : g.names[j]? = some p.name := by unfold Graph.names; rw [List.getElem?_map, hj, h]; rfl
  have hlt := (List.getElem?_eq_some_iff.mp hi').1
  exact (List.getElem?_inj hlt hg).mp (hi'.trans hj'.symm)

/-- Hops between indices are hops between names. -/
theorem hops_index_iff {g : Graph} (hg : g.names.Nodup) {h p : GraphNode} {s i n : Nat}
    (hs : g[s]? = some h) (hi : g[i]? = some p) :
    Hops (RouteTo g) s i n ↔ Hops g.Adj h.name p.name n := by
  constructor
  · intro hh
    induction hh generalizing p with
    | refl => rw [hs, Option.some.injEq] at hi; rw [hi]; exact Hops.refl
    | @snoc u v n _ huv ih =>
      obtain ⟨q, p', hq, hp', hmem⟩ := huv
      rw [hi, Option.some.injEq] at hp'
      rw [← hp'] at hmem
      exact (ih hq).snoc ⟨Graph.mem_names hi, q, List.mem_of_getElem? hq, rfl, hmem⟩
  · intro hh
    generalize hb : p.name = b at hh
    induction hh generalizing p i with
    | refl => rw [Graph.index_unique hg hi hs hb]; exact Hops.refl
    | @snoc a b n _ hab ih =>
      obtain ⟨-, q, hq, rfl, hmem⟩ := hab
      obtain ⟨j, hj⟩ := List.mem_iff_getElem?.mp hq
      exact (ih hj rfl).snoc ⟨q, p, hj, hi, hb ▸ hmem⟩

/-! ## What the scan returns -/

/-- The node and server pairs that the scan compares, in its order. -/
def serverMatches (g : Graph) (head : List Server) : List (GraphNode × Server) :=
  g.flatMap fun p => (head.filter (isServer p.name)).map (fun q => (p, q))

/-- `q` is the first server, in the order of the scan, whose node is fewest hops away from the head
of the list, by fewer than `INT_MAX` hops. -/
def ServedFromHead (g : Graph) (head : List Server) (q : Server) : Prop :=
  ∃ h rest pre p post n, g = h :: rest ∧ serverMatches g head = pre ++ (p, q) :: post ∧
    n < INT_MAX ∧ HopDist g.Adj h.name p.name n ∧
    (∀ c ∈ pre, ∀ m, Hops g.Adj h.name c.1.name m → n < m) ∧
    ∀ c ∈ post, ∀ m, Hops g.Adj h.name c.1.name m → n ≤ m

/-- The pairs with the index of the node. -/
def indexedMatches (g : Graph) (head : List Server) : List ((GraphNode × Nat) × Server) :=
  g.zipIdx.flatMap fun p => (head.filter (isServer p.1.name)).map (fun q => (p, q))

theorem map_indexedMatches (g : Graph) (head : List Server) :
    (indexedMatches g head).map (fun c => (c.1.1, c.2)) = serverMatches g head := by
  unfold indexedMatches serverMatches
  rw [List.map_flatMap]
  conv_rhs => rw [← List.zipIdx_map_fst 0 g, List.flatMap_map]
  simp [Function.comp_def]

theorem getElem?_of_mem_indexedMatches {g : Graph} {head : List Server}
    {c : (GraphNode × Nat) × Server} (hc : c ∈ indexedMatches g head) : g[c.1.2]? = some c.1.1 := by
  unfold indexedMatches at hc
  obtain ⟨p, hp, hc⟩ := List.mem_flatMap.mp hc
  obtain ⟨q, -, rfl⟩ := List.mem_map.mp hc
  exact List.mem_zipIdx_iff_getElem?.mp hp

/-- The locals of the scan, without the node of the server found. -/
def scanLocals (acc : Nat × Option ((GraphNode × Nat) × Server)) : Nat × Option Server :=
  (acc.1, acc.2.map Prod.snd)

theorem scanServers_eq_foldl (p : GraphNode × Nat) (dist : List Nat) (head : List Server)
    (acc : Nat × Option ((GraphNode × Nat) × Server)) :
    scanServers p.1.name (distAt dist p.2) head (scanLocals acc) =
      scanLocals (((head.filter (isServer p.1.name)).map (fun q => (p, q))).foldl
        (minStep fun c => distAt dist c.1.2) acc) := by
  unfold scanServers
  rw [List.foldl_map, List.foldl_filter]
  refine List.foldl_hom scanLocals (fun a q => ?_)
  unfold minStep scanLocals
  by_cases hq : isServer p.1.name q = true <;> by_cases hd : distAt dist p.2 < a.1 <;> simp [hq, hd]

/-- The two nested loops are one scan for a first minimum. -/
theorem foldl_scanServers (g : Graph) (head : List Server) (dist : List Nat) :
    g.zipIdx.foldl (fun acc p => scanServers p.1.name (distAt dist p.2) head acc) (INT_MAX, none) =
    scanLocals ((indexedMatches g head).foldl (minStep fun c => distAt dist c.1.2)
      (INT_MAX, none)) := by
  unfold indexedMatches
  rw [List.foldl_flatMap]
  show g.zipIdx.foldl _ (scanLocals (INT_MAX, none)) = _
  exact List.foldl_hom scanLocals (fun acc p => scanServers_eq_foldl p dist head acc)

theorem scanServers_eq_scanMin (g : Graph) (head : List Server) (dist : List Nat) :
    (g.zipIdx.foldl (fun acc p => scanServers p.1.name (distAt dist p.2) head acc)
      (INT_MAX, none)).2 =
    (scanMin (fun c => distAt dist c.1.2) INT_MAX (indexedMatches g head)).map Prod.snd := by
  rw [foldl_scanServers]
  rfl

/-- The distances of the nodes that the scan compares are their hops from the head of the list. -/
structure HeadDistances (g : Graph) (head : List Server) (h : GraphNode) (dist : List Nat) : Prop where
  eq_iff : ∀ c ∈ indexedMatches g head, ∀ n < INT_MAX,
    distAt dist c.1.2 = n ↔ HopDist g.Adj h.name c.1.1.name n
  lt_iff : ∀ c ∈ indexedMatches g head, ∀ n < INT_MAX,
    n < distAt dist c.1.2 ↔ ∀ m, Hops g.Adj h.name c.1.1.name m → n < m
  le_iff : ∀ c ∈ indexedMatches g head, ∀ n < INT_MAX,
    n ≤ distAt dist c.1.2 ↔ ∀ m, Hops g.Adj h.name c.1.1.name m → n ≤ m

/-- The first minimum of the scan is the server served from the head of the list. -/
theorem firstMin_iff_servedFromHead {g : Graph} {head : List Server} {h : GraphNode}
    {rest : List GraphNode} {dist : List Nat} (hcons : g = h :: rest)
    (hdist : HeadDistances g head h dist) (q : Server) :
    (∃ p, FirstMin (fun c => distAt dist c.1.2) INT_MAX (indexedMatches g head) (p, q)) ↔
      ServedFromHead g head q := by
  constructor
  · rintro ⟨p, pre, post, heq, hlt, hpre, hpost⟩
    have hmem : ∀ c ∈ pre ++ (p, q) :: post, c ∈ indexedMatches g head := fun c hc => heq ▸ hc
    refine ⟨h, rest, pre.map (fun c => (c.1.1, c.2)), p.1, post.map (fun c => (c.1.1, c.2)),
      distAt dist p.2, hcons, ?_, hlt, ?_, ?_, ?_⟩
    · rw [← map_indexedMatches, heq]
      simp
    · exact (hdist.eq_iff _ (hmem (p, q) (by simp)) _ hlt).mp rfl
    · simp only [List.mem_map]
      rintro _ ⟨c, hc, rfl⟩
      exact (hdist.lt_iff c (hmem c (by simp [hc])) _ hlt).mp (hpre c hc)
    · simp only [List.mem_map]
      rintro _ ⟨c, hc, rfl⟩
      exact (hdist.le_iff c (hmem c (by simp [hc])) _ hlt).mp (hpost c hc)
  · rintro ⟨h', rest', pre, p, post, n, hcons', hsplit, hlt, hd, hpre, hpost⟩
    rw [hcons'] at hcons
    cases hcons
    rw [← map_indexedMatches, List.map_eq_append_iff] at hsplit
    obtain ⟨pre', rest₁, heq, rfl, hrest₁⟩ := hsplit
    obtain ⟨⟨⟨p', i⟩, q'⟩, post', rfl, hpq, rfl⟩ := List.map_eq_cons_iff.mp hrest₁
    cases hpq
    have hmem : ∀ c ∈ pre' ++ ((p', i), q') :: post', c ∈ indexedMatches g head :=
      fun c hc => heq ▸ hc
    have hn : distAt dist i = n := (hdist.eq_iff _ (hmem ((p', i), q') (by simp)) n hlt).mpr hd
    refine ⟨(p', i), pre', post', heq, by show distAt dist i < INT_MAX; rw [hn]; exact hlt,
      ?_, ?_⟩
    · intro c hc
      show distAt dist i < distAt dist c.1.2
      rw [hn, hdist.lt_iff c (hmem c (by simp [hc])) n hlt]
      exact hpre (c.1.1, c.2) (List.mem_map_of_mem hc)
    · intro c hc
      show distAt dist i ≤ distAt dist c.1.2
      rw [hn, hdist.le_iff c (hmem c (by simp [hc])) n hlt]
      exact hpost (c.1.1, c.2) (List.mem_map_of_mem hc)

/-- The distances that the scan compares, on a graph with distinct names. -/
theorem exists_headDistances {g : Graph} (hg : g.names.Nodup) {h : GraphNode}
    {rest : List GraphNode} (hcons : g = h :: rest) (head : List Server) :
    ∃ array dist, routeArray g = .ok array ∧ dijkstra array 0 g.length = .ok dist ∧
      HeadDistances g head h dist := by
  have hs : g[0]? = some h := by rw [hcons]; rfl
  have hpos : 0 < g.length := by rw [hcons]; exact Nat.succ_pos _
  obtain ⟨array, dist, harr, hdist, hhops⟩ := dijkstra_routeArray hpos
  have hbound : ∀ c ∈ indexedMatches g head, ∀ m,
      Hops (RouteTo g) 0 c.1.2 m ↔ Hops g.Adj h.name c.1.1.name m :=
    fun c hc m => hops_index_iff hg hs (getElem?_of_mem_indexedMatches hc)
  refine ⟨array, dist, harr, hdist, fun c hc n hn => ?_, fun c hc n hn => ?_, fun c hc n hn => ?_⟩
  · rw [hhops.eq_iff_hopDist hn]
    unfold HopDist
    simp only [hbound c hc]
  · rw [hhops.lt_iff hn]
    simp only [hbound c hc]
  · rw [hhops.le_iff hn]
    simp only [hbound c hc]

/-- **What `query_dns` returns**, for every graph with distinct names and at least one node. -/
theorem queryDns_eq_ok_iff {g : Graph} (hg : g.names.Nodup) (hne : g ≠ []) (src : Bytes)
    (head : List Server) (q : Server) :
    queryDns g src head = .ok q ↔ ServedFromHead g head q := by
  obtain ⟨h, rest, hcons⟩ := List.exists_cons_of_ne_nil hne
  obtain ⟨array, dist, harr, hdist, hhead⟩ := exists_headDistances hg hcons head
  rw [← firstMin_iff_servedFromHead hcons hhead]
  unfold queryDns
  rw [harr, ok_bind, hdist, ok_bind]
  dsimp only
  rw [scanServers_eq_scanMin]
  simp only [← scanMin_eq_some_iff]
  generalize scanMin (fun c => distAt dist c.1.2) INT_MAX (indexedMatches g head) = res
  rcases res with _ | ⟨p, q'⟩ <;> simp

/-! ## The nearest server -/

/-- The address of an entry: its line without the line terminator. -/
def Server.address (q : Server) : Bytes := q.sname.takeWhile (fun c => c != 13 && c != 10)

/-- `q` is listed, its node is reachable from `src`, and no listed node is fewer hops away. -/
def Nearest (g : Graph) (servers : List Server) (src : Bytes) (q : Server) : Prop :=
  q ∈ servers ∧ q.address ∈ g.names ∧ ∃ n, HopDist g.Adj src q.address n ∧
    ∀ r ∈ servers, r.address ∈ g.names → ∀ m, Hops g.Adj src r.address m → n ≤ m

/-- A listed server is a node reachable from `src`. -/
def ServerReachable (g : Graph) (servers : List Server) (src : Bytes) : Prop :=
  ∃ q ∈ servers, q.address ∈ g.names ∧ ∃ n, Hops g.Adj src q.address n

/-- The query is answered with a nearest server whenever there is one. -/
def QueryNearest (g : Graph) (servers : List Server) (src : Bytes) : Prop :=
  ServerReachable g servers src → ∃ q, queryDns g src servers = .ok q ∧ Nearest g servers src q

theorem nodup_of_graphInit {file : Option Bytes} {r : Int} {g : Graph}
    (h : graphInit file = .ok (r, g)) : g.names.Nodup := by
  cases file with
  | none => cases h; exact List.nodup_nil
  | some text =>
    simp only [graphInit, bind_eq_ok, pure_eq_ok, Except.ok.injEq, Prod.mk.injEq] at h
    obtain ⟨g', hloop, -, rfl⟩ := h
    exact nodup_of_graphLoop (g := []) List.nodup_nil hloop

/-- **The exact condition**: a query from `src` is answered as it should be iff no server is
reachable from it or the server served from the head of the list is nearest to it as well. -/
theorem queryDns_nearest_iff {file : Option Bytes} {r : Int} {g : Graph}
    (hload : graphInit file = .ok (r, g)) (servers : List Server) {src : Bytes}
    (hsrc : src ∈ g.names) : QueryNearest g servers src ↔
      ¬ ServerReachable g servers src ∨
      ∃ q, ServedFromHead g servers q ∧ Nearest g servers src q := by
  have hne : g ≠ [] := by
    rintro rfl
    cases hsrc
  have hans := queryDns_eq_ok_iff (nodup_of_graphInit hload) hne src servers
  unfold QueryNearest
  simp only [hans]
  exact imp_iff_not_or

/-! ## A chain of three nodes -/

/-- `1.0.0.1 — 3.0.0.1 — 4.0.0.1`, the last record first in the list. -/
def chainFile : Bytes :=
  ascii "1.0.0.1 1 3.0.0.1\n3.0.0.1 1 1.0.0.1,4.0.0.1\n4.0.0.1 1 3.0.0.1\n"

def node1 : GraphNode := ⟨ascii "1.0.0.1", 1, [ascii "3.0.0.1"]⟩
def node3 : GraphNode := ⟨ascii "3.0.0.1", 1, [ascii "1.0.0.1", ascii "4.0.0.1"]⟩
def node4 : GraphNode := ⟨ascii "4.0.0.1", 1, [ascii "3.0.0.1"]⟩

def chain : Graph := [node4, node3, node1]

def server3 : Server := ⟨ascii "3.0.0.1\n", [3, 0, 0, 1], by decide, by decide, rfl⟩
def server4 : Server := ⟨ascii "4.0.0.1\n", [4, 0, 0, 1], by decide, by decide, rfl⟩

theorem graphInit_chain : graphInit (some chainFile) = .ok (0, chain) := by decide +kernel

/-- The node at the head of the list is served as it should be. -/
theorem queryDns_nearest_head : QueryNearest chain [server3, server4] node4.name := by
  refine (queryDns_nearest_iff graphInit_chain [server3, server4] (by decide)).mpr (Or.inr ?_)
  have hzero : HopDist chain.Adj node4.name node4.name 0 :=
    ⟨Hops.refl, fun m _ => Nat.zero_le m⟩
  refine ⟨server4, ?_, by decide, by decide, 0, hzero, fun _ _ _ m _ => Nat.zero_le m⟩
  refine ⟨node4, [node3, node1], [], node4, [(node3, server3)], 0, rfl, by decide, by decide,
    hzero, ?_, fun _ _ m _ => Nat.zero_le m⟩
  intro c hc
  cases hc

/-- **Two hops instead of one**: from `1.0.0.1` the answer is `4.0.0.1`, although `3.0.0.1` is the
neighbour. -/
theorem queryDns_not_nearest : ¬ ∀ (file : Option Bytes) (r : Int) (g : Graph)
    (servers : List Server) (src : Bytes), graphInit file = .ok (r, g) → src ∈ g.names →
    QueryNearest g servers src := by
  intro h
  have hadj : chain.Adj node1.name server3.address :=
    ⟨by decide, node1, by decide, rfl, by decide⟩
  have hone : Hops chain.Adj node1.name server3.address 1 := Hops.refl.snoc hadj
  have hreach : ServerReachable chain [server3, server4] node1.name :=
    ⟨server3, by decide, by decide, 1, hone⟩
  obtain ⟨q, hq, -, -, n, ⟨hhops, -⟩, hleast⟩ :=
    h _ 0 chain [server3, server4] node1.name graphInit_chain (by decide) hreach
  have hans : queryDns chain node1.name [server3, server4] = .ok server4 := by decide +kernel
  rw [hans, Except.ok.injEq] at hq
  subst hq
  have hle : n ≤ 1 := hleast server3 (by decide) (by decide) 1 hone
  generalize hb : server4.address = b at hhops
  cases hhops with
  | refl => exact absurd hb (by decide)
  | @snoc u _ m hu huv =>
    have hm : m = 0 := by omega
    subst hm
    cases hu
    obtain ⟨-, p, hp, hname, hmem⟩ := huv
    subst hb
    revert p
    decide

end VideoCdn
