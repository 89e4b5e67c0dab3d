import VideoCdn.QueryDns

/-!
# Finding and matching servers (`query_dns` of `src/dijkstra.c`)

* `queryScan` — the two nested loops of `query_dns` with both of their locals, `min` and `ret`.
* `FindsReachable`, `findsReachable_iff` — `ret` stays null although a server is reachable exactly
  when every match is nine hops away or more: `INT_MAX` is also the length of a path.
* `MatchesOwnNode`, `matchesOwnNode_iff` — the distance for which a server is taken is that of its
  own node unless a node whose name is a proper prefix of its line is nearer.
-/

set_option autoImplicit false

namespace VideoCdn

open CLib ShortestPath Scan

/-- `query_dns` up to the end of its loops: `min` and `ret`. -/
def queryScan (g : Graph) (head : List Server) : Checked (Nat × Option Server) := do
  let array ← routeArray g
  let dist ← dijkstra array 0 g.length
  return g.zipIdx.foldl
    (fun acc p => scanServers p.1.name (distAt dist p.2) head acc) (INT_MAX, none)

/-- A null `ret` is only printed here; the `strcpy` of the caller dereferences it. -/
theorem queryDns_eq_queryScan (g : Graph) (src : Bytes) (head : List Server) :
    queryDns g src head = queryScan g head >>= fun locals =>
      match locals.2 with
      | none => .error .nullDeref
      | some q => .ok q := by
  unfold queryDns queryScan
  cases routeArray g with
  | error e => rfl
  | ok array =>
    rw [ok_bind, ok_bind]
    cases dijkstra array 0 g.length with
    | error e => rfl
    | ok dist => rfl

/-- **The scan** on a graph with distinct names and a node: defined, and nothing found exactly when
every match is at distance `INT_MAX`. -/
theorem queryScan_spec {g : Graph} (hg : g.names.Nodup) {h : GraphNode} {rest : List GraphNode}
    (hcons : g = h :: rest) (head : List Server) :
    ∃ array dist, routeArray g = .ok array ∧ dijkstra array 0 g.length = .ok dist ∧
      HeadDistances g head h dist ∧
      ((queryScan g head = .ok (INT_MAX, none) ∧
          ∀ c ∈ indexedMatches g head, INT_MAX ≤ distAt dist c.1.2) ∨
        ∃ c, queryScan g head = .ok (distAt dist c.1.2, some c.2) ∧
          FirstMin (fun c => distAt dist c.1.2) INT_MAX (indexedMatches g head) c) := by
  obtain ⟨array, dist, harr, hdist, hhead⟩ := exists_headDistances hg hcons head
  refine ⟨array, dist, harr, hdist, hhead, ?_⟩
  have hrun : queryScan g head = .ok (scanLocals ((indexedMatches g head).foldl
      (minStep fun c => distAt dist c.1.2) (INT_MAX, none))) := by
    unfold queryScan
    rw [harr, ok_bind, hdist, ok_bind, pure_eq_ok, foldl_scanServers]
  rw [hrun]
  rcases foldl_minStep (fun c => distAt dist c.1.2) INT_MAX (indexedMatches g head) with
    ⟨he, hall⟩ | ⟨c, he, hmin⟩
  · rw [he]
    exact Or.inl ⟨rfl, hall⟩
  · rw [he]
    exact Or.inr ⟨c, rfl, hmin⟩

/-! ## Completeness -/

/-- `ret` stays null only if no listed server is a node reachable from the head of the list. -/
def FindsReachable (g : Graph) (servers : List Server) : Prop :=
  ∀ h rest, g = h :: rest → ∀ min, queryScan g servers = .ok (min, none) →
    ¬ ServerReachable g servers h.name

/-- Some match is fewer than `INT_MAX` hops away from the head of the list. -/
def MatchInRange (g : Graph) (servers : List Server) (head : Bytes) : Prop :=
  ∃ c ∈ serverMatches g servers, ∃ n < INT_MAX, Hops g.Adj head c.1.name n

/-- Nothing is found exactly when no match is in range. -/
theorem queryScan_none_iff {g : Graph} (hg : g.names.Nodup) {h : GraphNode} {rest : List GraphNode}
    (hcons : g = h :: rest) (servers : List Server) :
    (∃ min, queryScan g servers = .ok (min, none)) ↔ ¬ MatchInRange g servers h.name := by
  obtain ⟨array, dist, -, -, hhead, hscan⟩ := queryScan_spec hg hcons servers
  have hmem : ∀ c ∈ indexedMatches g servers, (c.1.1, c.2) ∈ serverMatches g servers := by
    intro c hc
    rw [← map_indexedMatches]
    exact List.mem_map_of_mem hc
  constructor
  · rintro ⟨min, hrun⟩ ⟨c, hc, n, hn, hhops⟩
    rcases hscan with ⟨-, hall⟩ | ⟨c', hrun', -⟩
    · rw [← map_indexedMatches] at hc
      obtain ⟨d, hd, rfl⟩ := List.mem_map.mp hc
      have hlt : n < distAt dist d.1.2 := Nat.lt_of_lt_of_le hn (hall d hd)
      exact Nat.lt_irrefl n ((hhead.lt_iff d hd n hn).mp hlt n hhops)
    · rw [hrun'] at hrun
      cases hrun
  · intro hno
    rcases hscan with ⟨hrun, -⟩ | ⟨c, -, hmin⟩
    · exact ⟨INT_MAX, hrun⟩
    · refine absurd ⟨_, hmem c hmin.mem, distAt dist c.1.2, hmin.lt_cap, ?_⟩ hno
      exact ((hhead.eq_iff c hmin.mem _ hmin.lt_cap).mp rfl).1

/-- **When the search is complete**: no listed server is reachable from the head of the list, or
some node that is compared as a server is fewer than `INT_MAX` hops away from it. -/
theorem findsReachable_iff {file : Option Bytes} {r : Int} {h : GraphNode} {rest : List GraphNode}
    (hload : graphInit file = .ok (r, h :: rest)) (servers : List Server) :
    FindsReachable (h :: rest) servers ↔
      (ServerReachable (h :: rest) servers h.name → MatchInRange (h :: rest) servers h.name) := by
  have hnone := queryScan_none_iff (nodup_of_graphInit hload) rfl servers
  constructor
  · intro hfinds hreach
    by_contra hno
    obtain ⟨min, hrun⟩ := hnone.mpr hno
    exact hfinds h rest rfl min hrun hreach
  · rintro himp h' rest' hcons min hrun hreach
    cases hcons
    exact hnone.mp ⟨min, hrun⟩ (himp hreach)

/-- The node `10.0.0.i`. -/
def rowName (i : Nat) : Bytes := ascii "10.0.0." ++ decimal i

/-- Ten nodes in a row, each with the next one as its neighbour. -/
def row : Graph := (List.range 10).map fun i => ⟨rowName i, 1, [rowName (i + 1)]⟩

/-- The records of the row, the last one first. -/
def rowFile : Bytes :=
  (List.range 10).reverse.flatMap fun i => rowName i ++ ascii " 1 " ++ rowName (i + 1) ++ [10]

theorem graphInit_row : graphInit (some rowFile) = .ok (0, row) := by decide +kernel

def rowServer : Server := ⟨ascii "10.0.0.9\n", [10, 0, 0, 9], by decide, by decide, rfl⟩

theorem hops_row : ∀ {i : Nat}, i < 10 → Hops row.Adj (rowName 0) (rowName i) i
  | 0, _ => Hops.refl
  | i + 1, hi => by
    have hmem : ∀ j < 10, rowName j ∈ row.names := by decide +kernel
    refine (hops_row (i := i) (by omega)).snoc ⟨hmem (i + 1) hi, ⟨rowName i, 1, [rowName (i + 1)]⟩,
      ?_, rfl, List.mem_singleton_self _⟩
    exact List.mem_map_of_mem (List.mem_range.mpr (by omega))

/-- A server at the head of the list is found. -/
theorem findsReachable_head : FindsReachable row
    [⟨ascii "10.0.0.0\n", [10, 0, 0, 0], by decide, by decide, rfl⟩] := by
  refine (findsReachable_iff graphInit_row _).mpr (fun _ => ?_)
  exact ⟨(⟨rowName 0, 1, [rowName 1]⟩, ⟨ascii "10.0.0.0\n", [10, 0, 0, 0], by decide, by decide, rfl⟩),
    by decide +kernel, 0, by decide, Hops.refl⟩

/-- **Nine hops** are as far as no path at all. -/
theorem query_misses_ninth_hop : ¬ ∀ (file : Option Bytes) (r : Int) (h : GraphNode)
    (rest : List GraphNode) (servers : List Server), graphInit file = .ok (r, h :: rest) →
    FindsReachable (h :: rest) servers := by
  intro hall
  have hrun : queryScan row [rowServer] = .ok (INT_MAX, none) := by decide +kernel
  refine hall _ 0 _ _ [rowServer] graphInit_row _ _ rfl INT_MAX hrun ?_
  have hops : Hops row.Adj (rowName 0) (rowName 9) 9 := hops_row (by decide)
  exact ⟨rowServer, List.mem_singleton_self _, by decide +kernel, 9, hops⟩

/-! ## Exact matches -/

/-- Whenever an entry is returned, a node has exactly its address for a name, and the distance for
which the entry was taken is the distance of that node. -/
def MatchesOwnNode (g : Graph) (servers : List Server) : Prop :=
  ∀ src q, queryDns g src servers = .ok q →
    ∃ array dist own i, routeArray g = .ok array ∧ dijkstra array 0 g.length = .ok dist ∧
      g[i]? = some own ∧ own.name = q.address ∧
      queryScan g servers = .ok (distAt dist i, some q)

/-- The node of the entry is no farther from the head of the list than any node that the entry is
compared with successfully. -/
def OwnNodeNearest (g : Graph) (q : Server) : Prop :=
  ∃ h rest n, g = h :: rest ∧ q.address ∈ g.names ∧ HopDist g.Adj h.name q.address n ∧
    ∀ p ∈ g, isServer p.name q = true → ∀ m, Hops g.Adj h.name p.name m → n ≤ m

/-- An entry is compared successfully with the node of its own name. -/
theorem isServer_address {q : Server} {name : Bytes} (h : name = q.address) :
    isServer name q = true := by
  unfold isServer
  rw [List.isPrefixOf_iff_prefix, h]
  exact List.takeWhile_prefix _

theorem mem_indexedMatches {g : Graph} {head : List Server} {p : GraphNode} {i : Nat} {q : Server} :
    ((p, i), q) ∈ indexedMatches g head ↔ g[i]? = some p ∧ q ∈ head ∧ isServer p.name q = true := by
  unfold indexedMatches
  rw [List.mem_flatMap]
  constructor
  · rintro ⟨a, ha, hc⟩
    obtain ⟨q', hq', he⟩ := List.mem_map.mp hc
    cases he
    exact ⟨List.mem_zipIdx_iff_getElem?.mp ha, List.mem_filter.mp hq'⟩
  · rintro ⟨hp, hq⟩
    exact ⟨(p, i), List.mem_zipIdx_iff_getElem?.mpr hp,
      List.mem_map_of_mem (List.mem_filter.mpr hq)⟩

/-- The entry served is the one that its own node, compared like any other, leads to. -/
theorem ownNodeNearest_of_matches {file : Option Bytes} {r : Int} {g : Graph}
    (hload : graphInit file = .ok (r, g)) {servers : List Server}
    (hmatch : MatchesOwnNode g servers) {q : Server} (hserved : ServedFromHead g servers q) :
    OwnNodeNearest g q := by
  have hg : g.names.Nodup := nodup_of_graphInit hload
  obtain ⟨h, rest, -, -, -, -, hcons, -⟩ := id hserved
  have hne : g ≠ [] := by
    rw [hcons]
    exact List.cons_ne_nil _ _
  obtain ⟨array, dist, own, i, harr, hdist, hown, haddr, hsel⟩ :=
    hmatch [] q ((queryDns_eq_ok_iff hg hne [] servers q).mpr hserved)
  obtain ⟨array', dist', harr', hdist', hhead, hscan⟩ := queryScan_spec hg hcons servers
  rw [harr, Except.ok.injEq] at harr'
  subst harr'
  rw [hdist, Except.ok.injEq] at hdist'
  subst hdist'
  rcases hscan with ⟨hnone, -⟩ | ⟨⟨⟨p, j⟩, q'⟩, hrun, hmin⟩
  · rw [hnone, Except.ok.injEq, Prod.mk.injEq] at hsel
    exact absurd hsel.2 (by simp)
  · rw [hrun, Except.ok.injEq, Prod.mk.injEq, Option.some.injEq] at hsel
    obtain ⟨heq, rfl⟩ := hsel
    dsimp only at heq hmin
    have hin : q' ∈ servers := (mem_indexedMatches.mp hmin.mem).2.1
    have hmem : ((own, i), q') ∈ indexedMatches g servers :=
      mem_indexedMatches.mpr ⟨hown, hin, isServer_address haddr⟩
    have hlt : distAt dist i < INT_MAX := heq ▸ hmin.lt_cap
    refine ⟨h, rest, distAt dist i, hcons, haddr ▸ Graph.mem_names hown, ?_, ?_⟩
    · rw [← haddr]
      exact (hhead.eq_iff _ hmem _ hlt).mp rfl
    · intro p' hp' hserver m hm
      obtain ⟨k, hk⟩ := List.mem_iff_getElem?.mp hp'
      have hmem' : ((p', k), q') ∈ indexedMatches g servers :=
        mem_indexedMatches.mpr ⟨hk, hin, hserver⟩
      refine (hhead.le_iff _ hmem' _ hlt).mp ?_ m hm
      rw [← heq]
      exact hmin.le hmem'

theorem matchesOwnNode_of_nearest {file : Option Bytes} {r : Int} {g : Graph}
    (hload : graphInit file = .ok (r, g)) {servers : List Server}
    (hcond : ∀ q, ServedFromHead g servers q → OwnNodeNearest g q) : MatchesOwnNode g servers := by
  have hg : g.names.Nodup := nodup_of_graphInit hload
  intro src q hq
  have hne : g ≠ [] := by
    rintro rfl
    cases hq
  obtain ⟨h, rest, hcons⟩ := List.exists_cons_of_ne_nil hne
  obtain ⟨array, dist, harr, hdist, hhead, hscan⟩ := queryScan_spec hg hcons servers
  have hserved := (queryDns_eq_ok_iff hg hne src servers q).mp hq
  rw [queryDns_eq_queryScan] at hq
  rcases hscan with ⟨hnone, -⟩ | ⟨⟨⟨p, j⟩, q'⟩, hrun, hmin⟩
  · rw [hnone] at hq
    cases hq
  · rw [hrun, ok_bind] at hq
    dsimp only at hq hmin
    rw [Except.ok.injEq] at hq
    subst hq
    obtain ⟨h', rest', n, hcons', hin, hn, hnear⟩ := hcond q' hserved
    rw [hcons'] at hcons
    cases hcons
    obtain ⟨hp, hq, hserver⟩ := mem_indexedMatches.mp hmin.mem
    obtain ⟨own, hown, haddr⟩ := List.mem_map.mp hin
    obtain ⟨i, hi⟩ := List.mem_iff_getElem?.mp hown
    have hmem : ((own, i), q') ∈ indexedMatches g servers :=
      mem_indexedMatches.mpr ⟨hi, hq, isServer_address haddr⟩
    -- the node found is compared successfully, and so is the node of the entry
    have hle : distAt dist j ≤ distAt dist i := hmin.le hmem
    have hge : n ≤ distAt dist j := by
      refine hnear p (List.mem_of_getElem? hp) hserver _ ?_
      exact ((hhead.eq_iff _ hmin.mem _ hmin.lt_cap).mp rfl).1
    have heq : distAt dist i = n := by
      refine (hhead.eq_iff _ hmem n (Nat.lt_of_le_of_lt hge hmin.lt_cap)).mpr ?_
      show HopDist g.Adj h.name own.name n
      rw [haddr]
      exact hn
    refine ⟨array, dist, own, i, harr, hdist, hi, haddr, ?_⟩
    rw [hrun]
    dsimp only
    rw [show distAt dist i = distAt dist j by omega]

/-- **When the match is exact**: the entry served has a node of its own name, and no node whose name
is a proper prefix of its line is nearer. -/
theorem matchesOwnNode_iff {file : Option Bytes} {r : Int} {g : Graph}
    (hload : graphInit file = .ok (r, g)) (servers : List Server) :
    MatchesOwnNode g servers ↔ ∀ q, ServedFromHead g servers q → OwnNodeNearest g q :=
  ⟨fun hmatch _ hserved => ownNodeNearest_of_matches hload hmatch hserved,
    matchesOwnNode_of_nearest hload⟩

/-- Two nodes, the name of one a prefix of the name of the other. -/
def prefixFile : Bytes := ascii "10.0.0.20 1 10.0.0.2\n10.0.0.2 1 10.0.0.20\n"

def nodeShort : GraphNode := ⟨ascii "10.0.0.2", 1, [ascii "10.0.0.20"]⟩
def nodeLong : GraphNode := ⟨ascii "10.0.0.20", 1, [ascii "10.0.0.2"]⟩

theorem graphInit_prefixFile : graphInit (some prefixFile) = .ok (0, [nodeShort, nodeLong]) := by
  decide +kernel

def serverShort : Server := ⟨ascii "10.0.0.2\n", [10, 0, 0, 2], by decide, by decide, rfl⟩
def serverLong : Server := ⟨ascii "10.0.0.20\n", [10, 0, 0, 20], by decide, by decide, rfl⟩

/-- The shorter name matches its own node only. -/
theorem matchesOwnNode_short : MatchesOwnNode [nodeShort, nodeLong] [serverShort] := by
  refine (matchesOwnNode_iff graphInit_prefixFile _).mpr ?_
  rintro q ⟨h, rest, pre, p, post, n, hcons, hsplit, -⟩
  have hone : serverMatches [nodeShort, nodeLong] [serverShort] = [(nodeShort, serverShort)] := by
    decide
  have hq : (p, q) ∈ serverMatches [nodeShort, nodeLong] [serverShort] := by
    rw [hsplit]
    simp
  rw [hone, List.mem_singleton] at hq
  cases hq
  exact ⟨nodeShort, [nodeLong], 0, rfl, by decide, ⟨Hops.refl, fun m _ => Nat.zero_le m⟩,
    fun _ _ _ m _ => Nat.zero_le m⟩

/-- **The longer name** is taken for the distance of the node with the shorter one. -/
theorem query_matches_prefix : ¬ ∀ (lsa serverFile : Bytes) (uninit : Nat → Nat → UInt8) (r : Int)
    (g : Graph) (servers : List Server), graphInit (some lsa) = .ok (r, g) →
    getServers uninit (some serverFile) = .ok servers → MatchesOwnNode g servers := by
  intro hall
  have hlist : getServers (fun _ _ => 0) (some (ascii "10.0.0.20\n")) = .ok [serverLong] := by
    decide +kernel
  have hans : queryDns [nodeShort, nodeLong] [] [serverLong] = .ok serverLong := by decide +kernel
  obtain ⟨array, dist, own, i, harr, hdist, hown, haddr, hsel⟩ :=
    hall _ _ _ 0 _ _ graphInit_prefixFile hlist [] serverLong hans
  have hloop : queryScan [nodeShort, nodeLong] [serverLong] = .ok (0, some serverLong) := by
    decide +kernel
  have hdist' : routeArray [nodeShort, nodeLong] >>= (fun a => dijkstra a 0 2) = .ok [0, 1] := by
    decide +kernel
  have hd : dist = [0, 1] := by
    rw [harr, ok_bind] at hdist'
    rw [show ([nodeShort, nodeLong] : Graph).length = 2 from rfl, hdist'] at hdist
    exact (Except.ok.inj hdist).symm
  rw [hloop, Except.ok.injEq, Prod.mk.injEq] at hsel
  rw [hd] at hsel
  match i, hown with
  | 0, hown =>
    cases hown
    exact absurd haddr (by decide)
  | 1, hown => exact absurd hsel.1 (by decide)

end VideoCdn
