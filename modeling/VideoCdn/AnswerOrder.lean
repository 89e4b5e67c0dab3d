import VideoCdn.GenlsaOrder
import VideoCdn.ServerMatch
import Mathlib.Data.List.Dedup

/-!
# What the answers of `query_dns` depend on (`lsa/genlsa.py`, `src/dijkstra.c`)

`graph_init` puts a node in front of the list when it is first heard of, and leaves it where it is
from then on; `query_dns` starts at the head of that list.

* `forgetSeq`, `queryDns_forgetSeq` — the sequence numbers do not matter.
* `lastFirst`, `graphLoop_names` — the order of the list.
* `refresh_answers` — **refreshes**: two transcripts for the same links give the same answers, if they
  announce the nodes for the first time in the same order, whatever else was lost.
* `answers_from_farthest` — **nothing lost**: the distances are those from a node that is farthest from
  the sink, over the links between the other nodes.
-/

set_option autoImplicit false

namespace VideoCdn

open CLib Scan ShortestPath Worklist

/-! ## Sequence numbers -/

def GraphNode.forgetSeq (p : GraphNode) : GraphNode := { p with seq := 0 }

def Graph.forgetSeq (g : Graph) : Graph := g.map GraphNode.forgetSeq

theorem existRoute_forgetSeq (g : Graph) (src dst : Nat) :
    existRoute g.forgetSeq src dst = existRoute g src dst := by
  unfold existRoute Graph.forgetSeq
  rw [List.getElem?_map, List.getElem?_map]
  cases g[src]? with
  | none => rfl
  | some q =>
    cases g[dst]? with
    | none => rfl
    | some p => rfl

theorem routeArray_forgetSeq (g : Graph) : routeArray g.forgetSeq = routeArray g := by
  have hlength : g.forgetSeq.length = g.length := List.length_map _
  unfold routeArray
  simp only [hlength, existRoute_forgetSeq]

/-- The choice rests on the names and the neighbour lists alone. -/
theorem queryDns_forgetSeq (g : Graph) (src : Bytes) (servers : List Server) :
    queryDns g.forgetSeq src servers = queryDns g src servers := by
  have hlength : g.forgetSeq.length = g.length := List.length_map _
  unfold queryDns
  rw [routeArray_forgetSeq, hlength]
  unfold Graph.forgetSeq
  simp only [List.zipIdx_map, List.foldl_map]
  rfl

/-! ## The order of the list -/

/-- The names, each where it occurs first; the last one is in front. -/
def lastFirst (names : List Bytes) : List Bytes := names.reverse.dedup

theorem lastFirst_snoc (names : List Bytes) (x : Bytes) : lastFirst (names ++ [x]) =
    if x ∈ lastFirst names then lastFirst names else x :: lastFirst names := by
  unfold lastFirst
  rw [List.reverse_append, List.reverse_singleton, List.singleton_append, List.dedup_cons]
  by_cases hx : x ∈ names
  · rw [if_pos (List.mem_reverse.mpr hx), if_pos (by simpa using hx)]
  · rw [if_neg (by simpa using hx), if_neg (by simpa using hx)]

theorem graphLoop_names {recs : List LsaRecord} (h : InOrder recs) {g : Graph}
    (hload : graphLoop (recs.flatMap LsaRecord.tokens) [] = .ok g) :
    g.names = lastFirst (recs.map fun r => r.sender.text) := by
  induction recs using List.reverseRecOn generalizing g with
  | nil =>
    cases hload
    rfl
  | append_singleton recs r ih =>
    obtain ⟨hrecs, -, hlast⟩ := List.pairwise_append.mp h
    obtain ⟨g₁, hg₁, hrun⟩ := graphLoop_inOrder hrecs
    have hfirst : graphLoop (recs.flatMap LsaRecord.tokens) [] = .ok g₁ := by
      rw [← List.append_nil (recs.flatMap LsaRecord.tokens), hrun]
      rfl
    have hnames := ih hrecs hfirst
    have hfresh : ¬ stale g₁ r.sender.text r.seq.value = true := by
      rw [stale_iff hg₁]
      rintro ⟨q, hq, hs, hlt⟩
      have hle := hlast q hq r (List.mem_singleton_self r) hs
      omega
    rw [List.flatMap_append, List.flatMap_singleton, hrun, ← List.append_nil r.tokens,
      graphLoop_record, if_neg hfresh] at hload
    cases hload
    rw [names_storeNode, hnames, List.map_append, List.map_singleton, lastFirst_snoc]

/-! ## Refreshes -/

/-- The transcript of the rounds, and the graph that is loaded from it. -/
structure Transcript (links : Links) (file sinkNode : Bytes) (heard : Nat → Nat → Bool) (n : Nat)
    (lsas : List Lsa) (g : Graph) : Prop where
  printed : genlsa file sinkNode heard n = .ok lsas
  loaded : graphInit (some (VideoCdn.printed lsas)) = .ok (0, g)
  last : LoadsLast links lsas g
  names : g.names = lastFirst (lsas.map Lsa.sender)

/-- The generator and the loader, with the order of the list. -/
theorem exists_transcript {file : Bytes} (hfile : LinksFile file) (hnul : (0 : UInt8) ∉ file)
    {links : Links} (hread : readLinks file = .ok links) (hfit : FitsLoader links)
    {sinkNode : Bytes} (hsink : sinkNode ∈ links.keys) (heard : Nat → Nat → Bool) {n : Nat}
    (hn : n ≤ 2147483648) : ∃ lsas g, Transcript links file sinkNode heard n lsas g ∧
      rounds links sinkNode heard n = .ok lsas := by
  obtain ⟨links', hread', hlinks⟩ := readLinks_loaded hfile hnul
  rw [hread, Except.ok.injEq] at hread'
  subst hread'
  obtain ⟨lsas, hrun, hentries, hsorted, -⟩ := rounds_spec hlinks hsink heard n
  have hbound : ∀ l ∈ lsas, l.seqnum < 2147483648 ∧ links.lookup l.sender = some l.neighbors :=
    fun l hl => ⟨Nat.lt_of_lt_of_le (hentries l hl).1 hn, (hentries l hl).2⟩
  have : Nonempty LsaRecord := ⟨newerA⟩
  choose! record hprints using
    fun l (hl : l ∈ lsas) => exists_prints hlinks hfit (hbound l hl).1 (hbound l hl).2
  have horder : InOrder (lsas.map record) := by
    refine List.pairwise_map.mpr (hsorted.imp_of_mem (fun {l l'} hl hl' hle _ => ?_))
    unfold SeqText.value
    rw [(hprints l hl).2.1, (hprints l' hl').2.1, atoi_decimal (hbound l hl).1,
      atoi_decimal (hbound l' hl').1]
    exact Int.ofNat_le.mpr hle
  obtain ⟨g, hload, hg⟩ := loadsFresh_of_readInStep (words_printed hprints) (Or.inl horder)
  have hloop : graphLoop ((lsas.map record).flatMap LsaRecord.tokens) [] = .ok g := by
    rw [← words_printed hprints]
    exact graphInit_eq_ok.mp hload
  have hsenders : (lsas.map record).map (fun r => r.sender.text) = lsas.map Lsa.sender := by
    rw [List.map_map]
    exact List.map_congr_left fun l hl => (hprints l hl).1
  refine ⟨lsas, g, ⟨?_, hload, LoadsLast.of_loads hprints hbound hg, ?_⟩, hrun⟩
  · unfold genlsa
    rw [hread, ok_bind, hrun]
  · rw [graphLoop_names horder hloop, hsenders]

/-- The list is determined by the order of its names and the links. -/
theorem Transcript.forgetSeq_eq {links : Links} {file sinkNode : Bytes} {heard : Nat → Nat → Bool}
    {n : Nat} {lsas : List Lsa} {g : Graph} (h : Transcript links file sinkNode heard n lsas g) :
    g.forgetSeq = (lastFirst (lsas.map Lsa.sender)).map fun x => ⟨x, 0, links.neighbors x⟩ := by
  rw [← h.names]
  unfold Graph.forgetSeq Graph.names
  rw [List.map_map]
  refine List.map_congr_left fun p hp => ?_
  have hentry := h.last.neighbors p hp
  unfold GraphNode.forgetSeq Links.neighbors
  rw [Function.comp_apply, hentry]
  rfl

/-- **Refreshes**: for the same links, the answers depend on the order in which the nodes are first
heard of, and not on what else was lost or how many rounds there were. -/
theorem refresh_answers {file : Bytes} (hfile : LinksFile file) (hnul : (0 : UInt8) ∉ file)
    {links : Links} (hread : readLinks file = .ok links) (hfit : FitsLoader links)
    {sinkNode sinkNode' : Bytes} (hsink : sinkNode ∈ links.keys) (hsink' : sinkNode' ∈ links.keys)
    (heard heard' : Nat → Nat → Bool) {n n' : Nat} (hn : n ≤ 2147483648) (hn' : n' ≤ 2147483648) :
    ∃ lsas lsas' g g', genlsa file sinkNode heard n = .ok lsas ∧
      genlsa file sinkNode' heard' n' = .ok lsas' ∧
      graphInit (some (printed lsas)) = .ok (0, g) ∧
      graphInit (some (printed lsas')) = .ok (0, g') ∧
      (lastFirst (lsas.map Lsa.sender) = lastFirst (lsas'.map Lsa.sender) →
        ∀ src servers, queryDns g src servers = queryDns g' src servers) := by
  obtain ⟨lsas, g, h, -⟩ := exists_transcript hfile hnul hread hfit hsink heard hn
  obtain ⟨lsas', g', h', -⟩ := exists_transcript hfile hnul hread hfit hsink' heard' hn'
  refine ⟨lsas, lsas', g, g', h.printed, h'.printed, h.loaded, h'.loaded, ?_⟩
  intro hnames src servers
  rw [← queryDns_forgetSeq g, ← queryDns_forgetSeq g', h.forgetSeq_eq, h'.forgetSeq_eq, hnames]

theorem readLinks_pair : readLinks pairFile = .ok pairLinks := by decide +kernel

theorem fitsLoader_pair : FitsLoader pairLinks := by
  unfold FitsLoader
  decide

/-- Three rounds of which one is heard, and one round of which all is heard. -/
theorem refresh_answers_pair : ∃ g g',
    graphInit (some (printed [⟨ascii "r2", 1, [ascii "r1"]⟩])) = .ok (0, g) ∧
    graphInit (some (printed [⟨ascii "r2", 0, [ascii "r1"]⟩])) = .ok (0, g') ∧
    ∀ src servers, queryDns g src servers = queryDns g' src servers := by
  have hkey : ascii "r1" ∈ pairLinks.keys := by decide
  obtain ⟨lsas, lsas', g, g', hprinted, hprinted', hloaded, hloaded', hsame⟩ :=
    refresh_answers linksFile_pair (by decide) readLinks_pair fitsLoader_pair hkey hkey
      (fun i _ => i == 1) (fun _ _ => true) (show 3 ≤ 2147483648 by decide)
      (show 1 ≤ 2147483648 by decide)
  have hthree : genlsa pairFile (ascii "r1") (fun i _ => i == 1) 3 =
      .ok [⟨ascii "r2", 1, [ascii "r1"]⟩] := by decide +kernel
  have hone : genlsa pairFile (ascii "r1") (fun _ _ => true) 1 =
      .ok [⟨ascii "r2", 0, [ascii "r1"]⟩] := by decide +kernel
  rw [hthree, Except.ok.injEq] at hprinted
  rw [hone, Except.ok.injEq] at hprinted'
  subst hprinted hprinted'
  exact ⟨g, g', hloaded, hloaded', hsame rfl⟩

/-! ## Nothing lost -/

/-- Names that have been heard before change nothing. -/
theorem lastFirst_append {names later : List Bytes} (h : later ⊆ names) :
    lastFirst (names ++ later) = lastFirst names := by
  unfold lastFirst
  rw [List.reverse_append]
  refine List.Subset.dedup_append_right fun x hx => ?_
  exact List.mem_reverse.mpr (h (List.mem_reverse.mp hx))

/-- Each round announces the same nodes in the same order. -/
theorem rounds_senders {edges : List (Bytes × Bytes)} {links : Links} {sinkNode : Bytes}
    (hdict : DictionaryOf edges links)
    (hlookup : links.lookup sinkNode = some (neighborsIn edges sinkNode)) {order : List Bytes}
    (horder : Search (neighborsIn edges) {sinkNode} (neighborsIn edges sinkNode) order) {n : Nat}
    {lsas : List Lsa} (hrun : rounds links sinkNode (fun _ _ => true) n = .ok lsas) :
    lsas.map Lsa.sender = (List.replicate n order).flatten := by
  induction n generalizing lsas with
  | zero =>
    cases hrun
    rfl
  | succ n ih =>
    rw [rounds_succ, bind_eq_ok] at hrun
    obtain ⟨before, hbefore, hrun⟩ := hrun
    rw [bind_eq_ok] at hrun
    obtain ⟨last, hlast, hrun⟩ := hrun
    cases hrun
    rw [List.map_append, ih hbefore, (hdict.search hlookup hlast).unique horder,
      List.replicate_succ', List.flatten_append, List.flatten_singleton]

theorem lastFirst_rounds (order : List Bytes) (n : Nat) :
    lastFirst (List.replicate (n + 1) order).flatten = lastFirst order := by
  rw [List.replicate_succ, List.flatten_cons]
  refine lastFirst_append fun x hx => ?_
  obtain ⟨l, hl, hx⟩ := List.mem_flatten.mp hx
  rw [List.eq_of_mem_replicate hl] at hx
  exact hx

/-- The list of the nodes other than the sink, with their links; in front of it is one that is
farthest from the sink. -/
structure FarthestFirst (edges : List (Bytes × Bytes)) (sinkNode : Bytes) (g : Graph)
    (head : GraphNode) : Prop where
  front : g.head? = some head
  names : ∀ x, x ∈ g.names ↔ x ≠ sinkNode ∧ ∃ n, Hops (Linked edges) sinkNode x n
  adj : ∀ a b, g.Adj a b ↔ a ∈ g.names ∧ b ∈ g.names ∧ Linked edges a b
  farthest : ∀ x ∈ g.names, ∀ m n, HopDist (Linked edges) sinkNode x m →
    HopDist (Linked edges) sinkNode head.name n → m ≤ n

theorem Transcript.adj_iff {edges : List (Bytes × Bytes)} {links : Links} {file sinkNode : Bytes}
    {heard : Nat → Nat → Bool} {n : Nat} {lsas : List Lsa} {g : Graph}
    (h : Transcript links file sinkNode heard n lsas g) (hdict : DictionaryOf edges links)
    (a b : Bytes) : g.Adj a b ↔ a ∈ g.names ∧ b ∈ g.names ∧ Linked edges a b := by
  have hneighbors : ∀ p ∈ g, p.neighbors = neighborsIn edges p.name := by
    intro p hp
    have heq := congrFun hdict.neighbors_eq p.name
    unfold Links.neighbors at heq
    rwa [h.last.neighbors p hp] at heq
  constructor
  · rintro ⟨hb, p, hp, rfl, hmem⟩
    rw [hneighbors p hp] at hmem
    exact ⟨List.mem_map_of_mem hp, hb, mem_neighborsIn.mp hmem⟩
  · rintro ⟨ha, hb, hlinked⟩
    obtain ⟨p, hp, rfl⟩ := List.mem_map.mp ha
    refine ⟨hb, p, hp, rfl, ?_⟩
    rw [hneighbors p hp]
    exact mem_neighborsIn.mpr hlinked

/-- **Nothing lost**: `query_dns` answers with the server that is nearest to a node farthest from the
sink, over the links between the other nodes. -/
theorem answers_from_farthest {file : Bytes} (hfile : LinksFile file) (hnul : (0 : UInt8) ∉ file)
    {edges : List (Bytes × Bytes)} (hedges : LinkLines file edges) {links : Links}
    (hread : readLinks file = .ok links) (hfit : FitsLoader links) {sinkNode : Bytes}
    (hsink : Mentioned edges sinkNode) (hself : (sinkNode, sinkNode) ∉ edges) {n : Nat}
    (hn : n < 2147483648) : ∃ lsas g head, genlsa file sinkNode (fun _ _ => true) (n + 1) = .ok lsas ∧
      graphInit (some (printed lsas)) = .ok (0, g) ∧ FarthestFirst edges sinkNode g head ∧
      ∀ src servers q, queryDns g src servers = .ok q ↔ ServedFromHead g servers q := by
  obtain ⟨links', hread', hdict⟩ := readLinks_lookup hedges
  rw [hread, Except.ok.injEq] at hread'
  subst hread'
  have hlookup : links.lookup sinkNode = some (neighborsIn edges sinkNode) := by
    rw [hdict sinkNode, if_pos hsink]
  have hkey : sinkNode ∈ links.keys := List.mem_map_of_mem (Closed.lookup_mem hlookup)
  have hnot : sinkNode ∉ neighborsIn edges sinkNode := by
    intro hmem
    rcases mem_neighborsIn.mp hmem with h | h
    · exact hself h
    · exact hself h
  have hadj : Adj (neighborsIn edges) = Linked edges := by
    funext u v
    exact propext mem_neighborsIn
  obtain ⟨first, hfirst, -, -⟩ :=
    generateLsas_spec (hedges.closed hread) hkey 0 (fun _ => true)
  have hsearch := hdict.search hlookup hfirst
  obtain ⟨lsas, g, htrans, hrun⟩ :=
    exists_transcript hfile hnul hread hfit hkey (fun _ _ => true) (Nat.succ_le_of_lt hn)
  have hnames : g.names = lastFirst (first.map Lsa.sender) := by
    rw [htrans.names, rounds_senders hdict hlookup hsearch hrun, lastFirst_rounds]
  have hmem : ∀ x, x ∈ g.names ↔ x ≠ sinkNode ∧ ∃ n, Hops (Linked edges) sinkNode x n := by
    intro x
    rw [hnames, lastFirst, List.mem_dedup, List.mem_reverse, ← hadj]
    exact hsearch.mem_iff hnot
  have hne : g ≠ [] := by
    obtain ⟨x, hx, hlinked⟩ : ∃ x, x ≠ sinkNode ∧ Linked edges sinkNode x := by
      obtain ⟨⟨a, b⟩, he, rfl | rfl⟩ := hsink
      · refine ⟨b, fun heq => hself ?_, Or.inl he⟩
        rwa [heq] at he
      · refine ⟨a, fun heq => hself ?_, Or.inr he⟩
        rwa [heq] at he
    have hlisted := (hmem x).mpr ⟨hx, 1, Hops.refl.snoc hlinked⟩
    rintro rfl
    cases hlisted
  obtain ⟨head, rest, rfl⟩ := List.exists_cons_of_ne_nil hne
  refine ⟨lsas, head :: rest, head, htrans.printed, htrans.loaded,
    ⟨rfl, hmem, htrans.adj_iff hdict, ?_⟩, fun src servers q =>
      queryDns_eq_ok_iff htrans.last.nodup hne src servers q⟩
  have hordered := (hsearch.ordered (List.append_nil _).symm (Layers.start hnot)).2
  rw [hadj] at hordered
  have hfar := (List.pairwise_reverse.mpr hordered).sublist (List.dedup_sublist _)
  rw [show (first.map Lsa.sender).reverse.dedup = head.name :: Graph.names rest from hnames.symm]
    at hfar
  obtain ⟨hhead, -⟩ := List.pairwise_cons.mp hfar
  intro x hx m n hm hn
  rcases List.mem_cons.mp hx with rfl | hx
  · exact hm.2 n hn.1
  · exact hhead x hx m n hm hn.1

/-- Two routers: the distances are those from the one that is not the sink. -/
theorem answers_from_farthest_pair : ∃ g head,
    graphInit (some (printed [⟨ascii "r2", 0, [ascii "r1"]⟩])) = .ok (0, g) ∧
    FarthestFirst [(ascii "r1", ascii "r2")] (ascii "r1") g head := by
  have hedges : LinkLines pairFile [(ascii "r1", ascii "r2")] := by
    have hlines : getlines pairFile = [ascii "r1 r2\n"] := by decide
    unfold LinkLines
    rw [hlines]
    refine .cons ⟨?_, ?_, ?_⟩ .nil <;> decide
  obtain ⟨lsas, g, head, hprinted, hloaded, hfirst, -⟩ :=
    answers_from_farthest linksFile_pair (by decide) hedges readLinks_pair fitsLoader_pair
      (show Mentioned [(ascii "r1", ascii "r2")] (ascii "r1") by decide) (by decide)
      (show 0 < 2147483648 by decide)
  have hone : genlsa pairFile (ascii "r1") (fun _ _ => true) 1 =
      .ok [⟨ascii "r2", 0, [ascii "r1"]⟩] := by decide +kernel
  rw [hone, Except.ok.injEq] at hprinted
  subst hprinted
  exact ⟨g, head, hloaded, hfirst⟩

end VideoCdn
