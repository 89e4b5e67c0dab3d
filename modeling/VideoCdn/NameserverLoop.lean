import VideoCdn.Nameserver
import VideoCdn.ServerMatch

/-!
# The main loop of the nameserver (`main` of `src/nameserver.c`)

* `nameserver` — start and loop, over what `recvfrom` returns.
* `FindsServer`, `handleDnsRequest_isOk_iff` — when a request is answered: in either mode, whether an
  accepted one is does not depend on its source or on what came before.
* `nameserverTurn_isOk_iff` — when one turn goes through.
* `Survives`, `survives_iff` — the runs that end neither in an exit nor in a null dereference, with
  one reply for each datagram.
-/

set_option autoImplicit false

namespace VideoCdn

open CLib

/-- A call of `recvfrom`: the datagram, or `none` for a result of -1, with its source address as text
and what the stack held. -/
structure Received where
  recv : Option Bytes
  fromStr : Bytes
  stack : Bytes

/-- `handle_dns_request` compares its length -1 as an `int`, like that of an empty datagram. -/
def Received.request (r : Received) : Request := ⟨r.recv.getD [], r.fromStr, r.stack⟩

/-- `recvlen < sizeof(dns_header_t)` compares unsigned numbers, so that -1 is not less. -/
def Received.tooSmall (r : Received) : Bool := r.recv.any (fun d => d.length < headerSize)

/-- One turn of the loop: `rr_ptr` afterwards and the datagrams sent.  The `printf` at its end loads
nothing through a null `rr_ptr`: `sname` is an array in front of the entry, so its address is null, too,
and is printed as such. -/
def nameserverTurn (rrFlag : Bool) (graph : Graph) (servList : List Server) (rrPtr : Option Nat)
    (r : Received) : Checked (Option Nat × List Bytes) :=
  if r.tooSmall then .error .exit
  else handleDnsRequest rrFlag graph servList rrPtr r.request

/-- `graph_init` is called in Dijkstra mode, and its result is ignored. -/
def loadGraph (rrFlag : Bool) (lsa : Option Bytes) : Checked Graph :=
  if rrFlag then .ok [] else (graphInit lsa).map Prod.snd

/-- What `main` does in front of the loop. -/
def nameserverStart (rrFlag : Bool) (uninit : Nat → Nat → UInt8) (servers lsa : Option Bytes) :
    Checked (Graph × List Server) := do
  let graph ← loadGraph rrFlag lsa
  let servList ← getServers uninit servers
  return (graph, servList)

/-- `main`: the datagrams sent. -/
def nameserver (rrFlag : Bool) (uninit : Nat → Nat → UInt8) (servers lsa : Option Bytes)
    (received : List Received) : Checked (List Bytes) := do
  let (graph, servList) ← nameserverStart rrFlag uninit servers lsa
  let (_, sent) ← Machine.run (nameserverTurn rrFlag graph servList) none received
  return sent

/-- The nameserver is still there after these calls, and has sent a reply for each. -/
def Survives (rrFlag : Bool) (uninit : Nat → Nat → UInt8) (servers lsa : Option Bytes)
    (received : List Received) : Prop :=
  ∃ sent, nameserver rrFlag uninit servers lsa received = .ok sent ∧
    sent.length = received.length

/-! ## One request -/

/-- There is a server for an accepted request: any in round-robin mode, and otherwise one that matches
a node in range of the head of the graph. -/
def FindsServer (rrFlag : Bool) (graph : Graph) (servList : List Server) : Prop :=
  if rrFlag then servList ≠ []
  else ∃ h rest, graph = h :: rest ∧ MatchInRange graph servList h.name

theorem nextServer_found {servList : List Server} {rrPtr : Option Nat} :
    (∃ s, (nextServer servList rrPtr).bind (fun i => servList[i]?) = some s) ↔ servList ≠ [] := by
  constructor
  · rintro ⟨s, hs⟩ rfl
    cases hptr : nextServer [] rrPtr with
    | none => rw [hptr] at hs; cases hs
    | some i => rw [hptr] at hs; cases hs
  · intro hne
    have hpos : 0 < servList.length := List.length_pos_iff.mpr hne
    obtain ⟨i, hi, hlt⟩ : ∃ i, nextServer servList rrPtr = some i ∧ i < servList.length := by
      unfold nextServer
      rw [if_neg hne]
      cases rrPtr with
      | none => exact ⟨0, rfl, hpos⟩
      | some i =>
        dsimp only
        split
        · rename_i hlt
          exact ⟨i + 1, rfl, hlt⟩
        · exact ⟨0, rfl, hpos⟩
    rw [hi]
    exact ⟨servList[i], List.getElem?_eq_getElem hlt⟩

/-- The query, on a graph with distinct names, does not depend on the source. -/
theorem queryDns_isOk_iff {g : Graph} (hg : g.names.Nodup) (src : Bytes) (servList : List Server) :
    (∃ q, queryDns g src servList = .ok q) ↔ FindsServer false g servList := by
  unfold FindsServer
  rw [if_neg Bool.false_ne_true]
  cases g with
  | nil =>
    constructor
    · rintro ⟨q, hq⟩
      cases hq
    · rintro ⟨h, rest, hcons, -⟩
      cases hcons
  | cons h rest =>
    have hnone := queryScan_none_iff hg rfl servList
    obtain ⟨_, _, -, -, -, hscan⟩ := queryScan_spec hg rfl servList
    obtain ⟨⟨min, ret⟩, hrun⟩ : ∃ locals, queryScan (h :: rest) servList = .ok locals := by
      rcases hscan with ⟨hrun, -⟩ | ⟨c, hrun, -⟩
      · exact ⟨_, hrun⟩
      · exact ⟨_, hrun⟩
    rw [queryDns_eq_queryScan, hrun, ok_bind]
    constructor
    · rintro ⟨q, hq⟩
      refine ⟨h, rest, rfl, ?_⟩
      by_contra hno
      obtain ⟨min', hrun'⟩ := hnone.mpr hno
      rw [hrun, Except.ok.injEq, Prod.mk.injEq] at hrun'
      rw [hrun'.2] at hq
      cases hq
    · rintro ⟨h', rest', hcons, hmatch⟩
      cases hcons
      cases ret with
      | none => exact absurd hmatch (hnone.mp ⟨min, hrun⟩)
      | some q => exact ⟨q, rfl⟩

/-- **A request is answered** exactly if it is rejected, or there is a server for it. -/
theorem handleDnsRequest_isOk_iff {rrFlag : Bool} {graph : Graph} (hg : graph.names.Nodup)
    {servList : List Server} {rrPtr : Option Nat} {req : Request} :
    (∃ res, handleDnsRequest rrFlag graph servList rrPtr req = .ok res) ↔
      (acceptsName req.buffer = true → FindsServer rrFlag graph servList) := by
  unfold handleDnsRequest
  cases acceptsName req.buffer with
  | false => simp
  | true =>
    simp only [Bool.true_eq_false, if_false, forall_const]
    cases rrFlag with
    | true =>
      have hfound := @nextServer_found servList rrPtr
      unfold FindsServer
      simp only [if_true, ← hfound]
      constructor
      · rintro ⟨res, hrun⟩
        split at hrun
        · cases hrun
        · rename_i s hs
          exact ⟨s, hs⟩
      · rintro ⟨s, hs⟩
        rw [hs]
        exact ⟨_, rfl⟩
    | false =>
      rw [← queryDns_isOk_iff hg req.fromStr]
      simp only [Bool.false_eq_true, if_false, bind_eq_ok]
      constructor
      · rintro ⟨res, ret, hret, -⟩
        exact ⟨ret, hret⟩
      · rintro ⟨ret, hret⟩
        exact ⟨_, ret, hret, rfl⟩

/-- The replies are sent one by one. -/
theorem handleDnsRequest_reply {rrFlag : Bool} {graph : Graph} {servList : List Server}
    {rrPtr rrPtr' : Option Nat} {req : Request} {sent : List Bytes}
    (h : handleDnsRequest rrFlag graph servList rrPtr req = .ok (rrPtr', sent)) :
    sent.length = 1 := by
  unfold handleDnsRequest at h
  split at h
  · cases h
    rfl
  · split at h
    · dsimp only at h
      split at h
      · cases h
      · cases h
        rfl
    · rw [bind_eq_ok] at h
      obtain ⟨ret, -, h⟩ := h
      cases h
      rfl

/-! ## Turns and runs -/

theorem nameserverTurn_eq_ok {rrFlag : Bool} {graph : Graph} {servList : List Server}
    {rrPtr rrPtr' : Option Nat} {r : Received} {sent : List Bytes} :
    nameserverTurn rrFlag graph servList rrPtr r = .ok (rrPtr', sent) ↔ r.tooSmall = false ∧
      handleDnsRequest rrFlag graph servList rrPtr r.request = .ok (rrPtr', sent) := by
  unfold nameserverTurn
  cases r.tooSmall <;> simp

/-- **One turn** goes through exactly if the datagram is not too small, and there is a server for it
if it is accepted. -/
theorem nameserverTurn_isOk_iff {rrFlag : Bool} {graph : Graph} (hg : graph.names.Nodup)
    {servList : List Server} {rrPtr : Option Nat} {r : Received} :
    (∃ res, nameserverTurn rrFlag graph servList rrPtr r = .ok res) ↔ r.tooSmall = false ∧
      (acceptsName r.request.buffer = true → FindsServer rrFlag graph servList) := by
  rw [← @handleDnsRequest_isOk_iff rrFlag graph hg servList rrPtr r.request]
  simp only [Prod.exists, nameserverTurn_eq_ok, exists_and_left]

/-- One reply for each call, over a whole run. -/
theorem length_sent {rrFlag : Bool} {graph : Graph} {servList : List Server}
    {received : List Received} {rrPtr rrPtr' : Option Nat} {sent : List Bytes}
    (h : Machine.run (nameserverTurn rrFlag graph servList) rrPtr received = .ok (rrPtr', sent)) :
    sent.length = received.length := by
  induction received generalizing rrPtr sent with
  | nil =>
    cases h
    rfl
  | cons r received ih =>
    obtain ⟨p, sent₁, sent₂, hturn, hrest, rfl⟩ := Machine.run_cons_eq_ok.mp h
    have hone := handleDnsRequest_reply (nameserverTurn_eq_ok.mp hturn).2
    rw [List.length_append, ih hrest, hone, List.length_cons, Nat.add_comm]

/-- **The loop** goes through exactly if no datagram is too small, and there is a server if one is
accepted. -/
theorem run_nameserverTurn {graph : Graph} (hg : graph.names.Nodup) (rrFlag : Bool)
    (servList : List Server) (received : List Received) (rrPtr : Option Nat) :
    (∃ res, Machine.run (nameserverTurn rrFlag graph servList) rrPtr received = .ok res) ↔
      (∀ r ∈ received, r.tooSmall = false) ∧
        ((∃ r ∈ received, acceptsName r.request.buffer = true) →
          FindsServer rrFlag graph servList) := by
  rw [Machine.run_isOk_iff fun p r => @nameserverTurn_isOk_iff rrFlag graph hg servList p r]
  constructor
  · intro hall
    exact ⟨fun r hr => (hall r hr).1, fun ⟨r, hr, hacc⟩ => (hall r hr).2 hacc⟩
  · rintro ⟨hlong, hfound⟩ r hr
    exact ⟨hlong r hr, fun hacc => hfound ⟨r, hr, hacc⟩⟩

/-! ## The files -/

/-- A servers file that can be read: it exists, and each of its lines fits in `sname`. -/
def ServersFit (servers : Option Bytes) : Prop :=
  ∃ text, servers = some text ∧ ∀ line ∈ getlines text, (cstr line).length < 15

/-- The body of the loop of `get_servers`. -/
def addServer (uninit : Nat → Nat → UInt8) (list : List Server) (line : Bytes) :
    Checked (List Server) := do
  let tmp ← newServer (uninit list.length) line
  return list ++ [tmp]

theorem getServers_some (uninit : Nat → Nat → UInt8) (text : Bytes) :
    getServers uninit (some text) = (getlines text).foldlM (addServer uninit) [] := rfl

theorem addServer_isOk_iff (uninit : Nat → Nat → UInt8) (list : List Server) {line : Bytes} :
    (∃ list', addServer uninit list line = .ok list') ↔ (cstr line).length < 15 := by
  unfold addServer newServer
  by_cases hfit : (cstr line).length < 15
  · simp [hfit]
  · simp [hfit]

theorem length_addServer {uninit : Nat → Nat → UInt8} {list list' : List Server} {line : Bytes}
    (h : addServer uninit list line = .ok list') : list'.length = list.length + 1 := by
  unfold addServer at h
  rw [bind_eq_ok] at h
  obtain ⟨tmp, -, h⟩ := h
  cases h
  rw [List.length_append, List.length_singleton]

/-- The loop goes through exactly if all lines fit, and makes an entry for each. -/
theorem foldlM_addServer (uninit : Nat → Nat → UInt8) (lines : List Bytes) (list : List Server) :
    ((∃ servList, lines.foldlM (addServer uninit) list = .ok servList) ↔
      ∀ line ∈ lines, (cstr line).length < 15) ∧
    ∀ servList, lines.foldlM (addServer uninit) list = .ok servList →
      servList.length = list.length + lines.length := by
  induction lines generalizing list with
  | nil => simp [eq_comm]
  | cons line lines ih =>
    rw [List.forall_mem_cons, ← addServer_isOk_iff uninit list, List.length_cons]
    simp only [List.foldlM_cons, bind_eq_ok]
    constructor
    · constructor
      · rintro ⟨servList, list', hadd, hrest⟩
        exact ⟨⟨list', hadd⟩, (ih list').1.mp ⟨servList, hrest⟩⟩
      · rintro ⟨⟨list', hadd⟩, hall⟩
        obtain ⟨servList, hrest⟩ := (ih list').1.mpr hall
        exact ⟨servList, list', hadd, hrest⟩
    · rintro servList ⟨list', hadd, hrest⟩
      rw [(ih list').2 servList hrest, length_addServer hadd]
      omega

theorem getlines_eq_nil {text : Bytes} : getlines text = [] ↔ text = [] := by
  cases text with
  | nil => simp [getlines]
  | cons c text =>
    unfold getlines
    split
    · simp
    · split <;> simp

/-- **The servers file**: it can be read exactly if it exists and its lines fit, and only an empty
file gives an empty list. -/
theorem getServers_isOk_iff (uninit : Nat → Nat → UInt8) (servers : Option Bytes) :
    ((∃ servList, getServers uninit servers = .ok servList) ↔ ServersFit servers) ∧
    ∀ servList, getServers uninit servers = .ok servList →
      (servList = [] ↔ servers = some []) := by
  cases servers with
  | none => simp [ServersFit, getServers]
  | some text =>
    obtain ⟨hok, hlength⟩ := foldlM_addServer uninit (getlines text) []
    simp only [ServersFit, Option.some.injEq, exists_eq_left', getServers_some]
    refine ⟨hok, fun servList hrun => ?_⟩
    have hlen := hlength servList hrun
    rw [List.length_nil, Nat.zero_add] at hlen
    rw [← getlines_eq_nil, ← List.length_eq_zero_iff, ← List.length_eq_zero_iff, hlen]

theorem loadGraph_dijkstra {lsa : Option Bytes} {graph : Graph} :
    loadGraph false lsa = .ok graph ↔ ∃ r, graphInit lsa = .ok (r, graph) := by
  unfold loadGraph
  rw [if_neg Bool.false_ne_true, map_eq_ok]
  constructor
  · rintro ⟨⟨r, g⟩, hinit, rfl⟩
    exact ⟨r, hinit⟩
  · rintro ⟨r, hinit⟩
    exact ⟨(r, graph), hinit, rfl⟩

theorem nameserverStart_eq_ok {rrFlag : Bool} {uninit : Nat → Nat → UInt8}
    {servers lsa : Option Bytes} {graph : Graph} {servList : List Server} :
    nameserverStart rrFlag uninit servers lsa = .ok (graph, servList) ↔
      loadGraph rrFlag lsa = .ok graph ∧ getServers uninit servers = .ok servList := by
  unfold nameserverStart
  simp only [bind_eq_ok, pure_eq_ok, Except.ok.injEq, Prod.mk.injEq]
  constructor
  · rintro ⟨graph, hload, servList, hlist, rfl, rfl⟩
    exact ⟨hload, hlist⟩
  · rintro ⟨hload, hlist⟩
    exact ⟨graph, hload, servList, hlist, rfl, rfl⟩

theorem nameserverStart_isOk_iff (rrFlag : Bool) (uninit : Nat → Nat → UInt8)
    (servers lsa : Option Bytes) :
    (∃ graph servList, nameserverStart rrFlag uninit servers lsa = .ok (graph, servList)) ↔
      ServersFit servers ∧ (rrFlag = false → ∃ loaded, graphInit lsa = .ok loaded) := by
  have hservers := (getServers_isOk_iff uninit servers).1
  simp only [nameserverStart_eq_ok]
  rw [← hservers]
  cases rrFlag with
  | true => simp [loadGraph]
  | false =>
    simp only [loadGraph_dijkstra, forall_const]
    constructor
    · rintro ⟨graph, servList, ⟨r, hinit⟩, hlist⟩
      exact ⟨⟨servList, hlist⟩, (r, graph), hinit⟩
    · rintro ⟨⟨servList, hlist⟩, ⟨r, graph⟩, hinit⟩
      exact ⟨graph, servList, ⟨r, hinit⟩, hlist⟩

/-- The names that are loaded are distinct, in either mode. -/
theorem nodup_of_nameserverStart {rrFlag : Bool} {uninit : Nat → Nat → UInt8}
    {servers lsa : Option Bytes} {graph : Graph} {servList : List Server}
    (h : nameserverStart rrFlag uninit servers lsa = .ok (graph, servList)) :
    graph.names.Nodup := by
  obtain ⟨hload, -⟩ := nameserverStart_eq_ok.mp h
  cases rrFlag with
  | true =>
    cases hload
    exact List.nodup_nil
  | false =>
    obtain ⟨r, hinit⟩ := loadGraph_dijkstra.mp hload
    exact nodup_of_graphInit hinit

/-- There is a server in the files: the servers file is not empty, or a line of it matches a node that
is in range of the head of what is loaded from the LSA file. -/
def ServerInFiles (rrFlag : Bool) (uninit : Nat → Nat → UInt8) (servers lsa : Option Bytes) : Prop :=
  if rrFlag then servers ≠ some []
  else ∃ r h rest servList, graphInit lsa = .ok (r, h :: rest) ∧
    getServers uninit servers = .ok servList ∧ MatchInRange (h :: rest) servList h.name

theorem serverInFiles_iff {rrFlag : Bool} {uninit : Nat → Nat → UInt8} {servers lsa : Option Bytes}
    {graph : Graph} {servList : List Server}
    (h : nameserverStart rrFlag uninit servers lsa = .ok (graph, servList)) :
    ServerInFiles rrFlag uninit servers lsa ↔ FindsServer rrFlag graph servList := by
  obtain ⟨hload, hlist⟩ := nameserverStart_eq_ok.mp h
  unfold ServerInFiles FindsServer
  cases rrFlag with
  | true =>
    rw [if_pos rfl, if_pos rfl, ne_eq, ne_eq, (getServers_isOk_iff uninit servers).2 servList hlist]
  | false =>
    rw [if_neg Bool.false_ne_true, if_neg Bool.false_ne_true]
    obtain ⟨r, hinit⟩ := loadGraph_dijkstra.mp hload
    constructor
    · rintro ⟨r', head, rest, list', hinit', hlist', hmatch⟩
      rw [hinit, Except.ok.injEq, Prod.mk.injEq] at hinit'
      rw [hlist, Except.ok.injEq] at hlist'
      obtain ⟨-, rfl⟩ := hinit'
      subst hlist'
      exact ⟨head, rest, rfl, hmatch⟩
    · rintro ⟨head, rest, rfl, hmatch⟩
      exact ⟨r, head, rest, servList, hinit, hlist, hmatch⟩

/-- **When the nameserver survives**: the files can be read, no datagram is too small, and there is a
server in the files if one of the datagrams is accepted. -/
theorem survives_iff (rrFlag : Bool) (uninit : Nat → Nat → UInt8) (servers lsa : Option Bytes)
    (received : List Received) :
    Survives rrFlag uninit servers lsa received ↔
      (ServersFit servers ∧ (rrFlag = false → ∃ loaded, graphInit lsa = .ok loaded)) ∧
      (∀ r ∈ received, r.tooSmall = false) ∧
      ((∃ r ∈ received, acceptsName r.request.buffer = true) →
        ServerInFiles rrFlag uninit servers lsa) := by
  rw [← nameserverStart_isOk_iff rrFlag uninit servers lsa]
  unfold Survives nameserver
  simp only [bind_eq_ok, Prod.exists, pure_eq_ok, Except.ok.injEq]
  constructor
  · rintro ⟨sent, ⟨graph, servList, hstart, rrPtr, sent', hrun, rfl⟩, -⟩
    have hloop := run_nameserverTurn (nodup_of_nameserverStart hstart) rrFlag servList received none
    rw [serverInFiles_iff hstart]
    exact ⟨⟨graph, servList, hstart⟩, hloop.mp ⟨_, hrun⟩⟩
  · rintro ⟨⟨graph, servList, hstart⟩, hcalls⟩
    have hloop := run_nameserverTurn (nodup_of_nameserverStart hstart) rrFlag servList received none
    rw [serverInFiles_iff hstart] at hcalls
    obtain ⟨⟨rrPtr, sent⟩, hrun⟩ := hloop.mpr hcalls
    exact ⟨sent, ⟨graph, servList, hstart, rrPtr, sent, hrun, rfl⟩, length_sent hrun⟩

/-- **A valid request in Dijkstra mode**, where no server is a node of the graph: what `query_dns`
returns is found to be null, and then copied from. -/
theorem nameserver_dies : ¬ ∀ (rrFlag : Bool) (uninit : Nat → Nat → UInt8) (servers lsa : Bytes)
    (received : List Received), Survives rrFlag uninit (some servers) (some lsa) received := by
  intro hall
  obtain ⟨sent, hrun, -⟩ := hall false (fun _ _ => 0) (ascii "2.0.0.1\n") (ascii "1.0.0.1 1 1.0.0.1\n")
    [⟨some validRequest.buffer, ascii "1.0.0.1", []⟩]
  have hdead : nameserver false (fun _ _ => 0) (some (ascii "2.0.0.1\n"))
      (some (ascii "1.0.0.1 1 1.0.0.1\n")) [⟨some validRequest.buffer, ascii "1.0.0.1", []⟩] =
        .error .nullDeref := by decide +kernel
  rw [hdead] at hrun
  cases hrun

end VideoCdn
