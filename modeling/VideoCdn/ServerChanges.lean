import VideoCdn.ServerMatch

/-!
# Servers and links that come and go (`query_dns` of `src/dijkstra.c`)

* `queryDns_withdraw` — **withdrawals**: the answer stays the same as long as only servers other than
  it are taken off the list.
* `Grows` — the same node at the head of the list, and every node still there with the neighbours it
  had.
* `queryScan_grows` — **growth**: with more links and more servers there is still an answer, and it is
  no farther from the head of the list.
-/

set_option autoImplicit false

namespace VideoCdn

open CLib ShortestPath Scan

/-! ## Withdrawals -/

theorem indexedMatches_filter (g : Graph) (servers : List Server) (keep : Server → Bool) :
    indexedMatches g (servers.filter keep) =
      (indexedMatches g servers).filter fun c => keep c.2 := by
  unfold indexedMatches
  rw [List.filter_flatMap]
  congr 1
  funext p
  rw [List.filter_map, List.filter_filter, List.filter_filter]
  congr 1
  refine List.filter_congr (fun q _ => ?_)
  simp [Bool.and_comm]

/-- The answer of `query_dns` as the first minimum of the scan. -/
theorem queryDns_eq_ok_iff_firstMin {g : Graph} {array : List (List Nat)} {dist : List Nat}
    (harr : routeArray g = .ok array) (hdist : dijkstra array 0 g.length = .ok dist) (src : Bytes)
    (servers : List Server) (q : Server) :
    queryDns g src servers = .ok q ↔
      ∃ p, FirstMin (fun c => distAt dist c.1.2) INT_MAX (indexedMatches g servers) (p, q) := by
  unfold queryDns
  rw [harr, ok_bind, hdist, ok_bind]
  dsimp only
  rw [scanServers_eq_scanMin]
  simp only [← scanMin_eq_some_iff]
  generalize scanMin (fun c => distAt dist c.1.2) INT_MAX (indexedMatches g servers) = res
  rcases res with _ | ⟨p, q'⟩ <;> simp

/-- **Withdrawals**: an answer is still given, and is the same, when any servers other than it are taken
off the list. -/
theorem queryDns_withdraw {g : Graph} {src : Bytes} {servers : List Server} {q : Server}
    (h : queryDns g src servers = .ok q) {keep : Server → Bool} (hq : keep q = true) :
    queryDns g src (servers.filter keep) = .ok q := by
  obtain ⟨array, harr, dist, hdist, -⟩ : ∃ array, routeArray g = .ok array ∧
      ∃ dist, dijkstra array 0 g.length = .ok dist ∧ True := by
    unfold queryDns at h
    simp only [bind_eq_ok] at h
    obtain ⟨array, harr, dist, hdist, -⟩ := h
    exact ⟨array, harr, dist, hdist, trivial⟩
  obtain ⟨p, hmin⟩ := (queryDns_eq_ok_iff_firstMin harr hdist src servers q).mp h
  apply (queryDns_eq_ok_iff_firstMin harr hdist src (servers.filter keep) q).mpr
  refine ⟨p, ?_⟩
  rw [indexedMatches_filter]
  exact hmin.filter hq

/-- From `4.0.0.1` the other server can be taken off the list. -/
theorem queryDns_withdraw_chain :
    queryDns chain node4.name ([server3, server4].filter (· == server4)) = .ok server4 :=
  queryDns_withdraw (show queryDns chain node4.name [server3, server4] = .ok server4 by decide +kernel)
    (by decide)

/-! ## Growth -/

/-- `g'` has the head of `g`, and every node of `g` with at least its neighbours. -/
structure Grows (g g' : Graph) : Prop where
  head : g'.names.head? = g.names.head?
  node : ∀ p ∈ g, ∃ p' ∈ g', p'.name = p.name ∧ p.neighbors ⊆ p'.neighbors

theorem Grows.adj {g g' : Graph} (h : Grows g g') {a b : Bytes} (hab : g.Adj a b) : g'.Adj a b := by
  obtain ⟨hb, q, hq, rfl, hmem⟩ := hab
  obtain ⟨p, hp, rfl⟩ := List.mem_map.mp hb
  obtain ⟨p', hp', hname, -⟩ := h.node p hp
  obtain ⟨q', hq', hname', hsub⟩ := h.node q hq
  exact ⟨hname ▸ List.mem_map_of_mem hp', q', hq', hname', hsub hmem⟩

/-- A comparison that is made before is made after, with a node of the same name. -/
theorem Grows.indexedMatches {g g' : Graph} (h : Grows g g') {servers servers' : List Server}
    (hsub : servers ⊆ servers') {c : (GraphNode × Nat) × Server}
    (hc : c ∈ indexedMatches g servers) :
    ∃ c' ∈ indexedMatches g' servers', c'.1.1.name = c.1.1.name := by
  obtain ⟨⟨p, i⟩, q⟩ := c
  obtain ⟨hp, hq, hmatch⟩ := mem_indexedMatches.mp hc
  obtain ⟨p', hp', hname, -⟩ := h.node p (List.mem_of_getElem? hp)
  obtain ⟨i', hi'⟩ := List.mem_iff_getElem?.mp hp'
  refine ⟨((p', i'), q), mem_indexedMatches.mpr ⟨hi', hsub hq, ?_⟩, hname⟩
  rw [hname]
  exact hmatch

/-- **Growth**: after links, nodes behind the head of the list and servers have been added, a query that
was answered is still answered, and no farther from the head of the list. -/
theorem queryScan_grows {file file' : Option Bytes} {r r' : Int} {g g' : Graph}
    (hload : graphInit file = .ok (r, g)) (hload' : graphInit file' = .ok (r', g'))
    (hgrows : Grows g g') {servers servers' : List Server} (hsub : servers ⊆ servers') {d : Nat}
    {q : Server} (hscan : queryScan g servers = .ok (d, some q)) (src : Bytes) :
    ∃ d' q', queryScan g' servers' = .ok (d', some q') ∧ d' ≤ d ∧
      queryDns g' src servers' = .ok q' := by
  obtain ⟨h, rest, rfl⟩ : ∃ h rest, g = h :: rest := by
    cases g with
    | nil => cases hscan
    | cons h rest => exact ⟨h, rest, rfl⟩
  obtain ⟨h', rest', rfl, hhead⟩ : ∃ h' rest', g' = h' :: rest' ∧ h'.name = h.name := by
    cases g' with
    | nil => cases hgrows.head
    | cons h' rest' => exact ⟨h', rest', rfl, Option.some.inj hgrows.head⟩
  obtain ⟨array, dist, -, -, hdist, hfound⟩ :=
    queryScan_spec (nodup_of_graphInit hload) rfl servers
  obtain ⟨array', dist', -, -, hdist', hfound'⟩ :=
    queryScan_spec (nodup_of_graphInit hload') rfl servers'
  obtain ⟨c, hmin, rfl⟩ : ∃ c, FirstMin (fun c => distAt dist c.1.2) INT_MAX
      (indexedMatches (h :: rest) servers) c ∧ distAt dist c.1.2 = d := by
    rcases hfound with ⟨hnone, -⟩ | ⟨c, hsome, hmin⟩
    · rw [hnone] at hscan
      cases hscan
    · rw [hsome, Except.ok.injEq, Prod.mk.injEq] at hscan
      exact ⟨c, hmin, hscan.1⟩
  -- The node of the old answer, in the new graph, is at most as far.
  obtain ⟨c', hc', hname⟩ := hgrows.indexedMatches hsub hmin.mem
  have hhops : Hops (Graph.Adj (h' :: rest')) h'.name c'.1.1.name (distAt dist c.1.2) := by
    obtain ⟨hold, -⟩ := (hdist.eq_iff c hmin.mem _ hmin.lt_cap).mp rfl
    rw [hname, hhead]
    exact hold.mono fun _ _ => hgrows.adj
  have hle : distAt dist' c'.1.2 ≤ distAt dist c.1.2 := by
    by_contra hlt
    have := (hdist'.lt_iff c' hc' _ hmin.lt_cap).mp (Nat.lt_of_not_le hlt) _ hhops
    omega
  rcases hfound' with ⟨-, hfar⟩ | ⟨best, hsome, hmin'⟩
  · have hcap := hmin.lt_cap
    have := hfar c' hc'
    omega
  · refine ⟨distAt dist' best.1.2, best.2, hsome, Nat.le_trans (hmin'.le hc') hle, ?_⟩
    rw [queryDns_eq_queryScan, hsome, ok_bind]

/-- The chain with a link from its head to `1.0.0.1`. -/
def ring : Graph := [⟨ascii "4.0.0.1", 1, [ascii "3.0.0.1", ascii "1.0.0.1"]⟩, node3, node1]

theorem graphInit_ring : graphInit (some (ascii
    "1.0.0.1 1 3.0.0.1\n3.0.0.1 1 1.0.0.1,4.0.0.1\n4.0.0.1 1 3.0.0.1,1.0.0.1\n")) =
    .ok (0, ring) := by
  decide +kernel

/-- In the ring, with a second server at its head, the answer is not farther. -/
theorem queryScan_grows_ring : ∃ d' q', queryScan ring [server3, server4] = .ok (d', some q') ∧
    d' ≤ 1 ∧ queryDns ring node1.name [server3, server4] = .ok q' := by
  have hgrows : Grows chain ring := ⟨rfl, by decide⟩
  have hscan : queryScan chain [server3] = .ok (1, some server3) := by decide +kernel
  exact queryScan_grows graphInit_chain graphInit_ring hgrows
    (show [server3] ⊆ [server3, server4] by simp) hscan node1.name

end VideoCdn
