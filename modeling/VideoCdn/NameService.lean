import VideoCdn.NameserverLoop
import VideoCdn.Resolve
import VideoCdn.Lib.Datagrams

/-!
# Proxies and the name server on one network (`resolve` of `src/mydns.c`, `main` of `src/nameserver.c`)

Every proxy resolves its server with one request and waits for one datagram; the name server answers
in round-robin mode.  The datagrams between them may be lost, doubled and overtaken, and other hosts
send the name server and the proxies datagrams of their own.

* `Arrival`, `nameService` — what `recvfrom` gives the name server, and the system.
* `run_roundRobin` — the loop of `main` keeps the invariant of round-robin mode.
* `nameService_resolved` — **agreement**: in every state that can be reached, a proxy that has resolved
  with a datagram of the name server holds the address of the line whose turn it was when its request
  was accepted; only a datagram that is too short stops the name server, and no proxy sends one.
* `nameService_balanced` — **balance**: the numbers of answers with two different addresses differ by at
  most one.
-/

set_option autoImplicit false

namespace VideoCdn

open CLib Datagrams

def BUFSIZE : Nat := 8192

/-- A datagram that the name server receives, and what the stack holds in its turn. -/
structure Arrival (Addr : Type) where
  source : Addr
  datagram : Bytes
  stack : Bytes

variable {Addr : Type}

/-- `recvfrom` with a buffer of `BUFSIZE` bytes; `text` is `inet_ntop` of an address. -/
def Arrival.recvfrom (text : Addr → Bytes) (a : Arrival Addr) : Received :=
  ⟨some (a.datagram.take BUFSIZE), text a.source, a.stack⟩

def Arrival.accepted (a : Arrival Addr) : Bool := acceptsName (a.datagram.take BUFSIZE)

/-- The request of `resolve("video.cs.cmu.edu", ...)`. -/
def proxyQuery : Bytes := (genDnsRequest videoHostName).toOption.getD []

theorem genDnsRequest_videoHostName : genDnsRequest videoHostName = .ok proxyQuery := by
  obtain ⟨query, hquery, -⟩ := exists_query
  unfold proxyQuery
  rw [hquery]
  rfl

/-- The name server in round-robin mode, the proxies and what they make of what they receive. -/
def nameService (text : Addr → Bytes) (IsProxy : Addr → Prop) (servList : List Server) :
    Service Addr Bytes (Arrival Addr) (Option Nat) (Checked (Int × Option Bytes)) where
  turn := fun rrPtr a => nameserverTurn true [] servList rrPtr (a.recvfrom text)
  start := none
  source := Arrival.source
  content := Arrival.datagram
  IsClient := IsProxy
  request := proxyQuery
  read := fun d => resolve videoHostName true (some (d.take BUFSIZE))

/-! ## The turns of the server -/

/-- The datagrams as `handle_dns_request` gets them. -/
def handled (text : Addr → Bytes) (received : List (Arrival Addr)) : List Request :=
  received.map fun a => (a.recvfrom text).request

theorem accepted_handled (text : Addr → Bytes) (received : List (Arrival Addr)) :
    accepted (handled text received) = (received.filter Arrival.accepted).length := by
  unfold accepted handled
  rw [List.countP_map, List.countP_eq_length_filter]
  rfl

section Turns
variable {text : Addr → Bytes} {IsProxy : Addr → Prop} {servList : List Server}
  {hne : servList ≠ []} {received : List (Arrival Addr)} {rrPtr rrPtr' : Option Nat}
  {sent out : List Bytes} {a : Arrival Addr}

/-- A turn is a call of `handle_dns_request`. -/
theorem RoundRobin.turn (h : RoundRobin servList hne (handled text received) sent rrPtr)
    (hturn : (nameService text IsProxy servList).turn rrPtr a = .ok (rrPtr', out)) :
    RoundRobin servList hne (handled text (received ++ [a])) (sent ++ out) rrPtr' := by
  have hhandle := (nameserverTurn_eq_ok.mp hturn).2
  obtain ⟨p, reply, hstep, hinv, -⟩ := h.step [] (a.recvfrom text).request
  rw [hhandle, Except.ok.injEq, Prod.mk.injEq] at hstep
  obtain ⟨rfl, rfl⟩ := hstep
  unfold handled at hinv ⊢
  rw [List.map_append]
  exact hinv

theorem run_roundRobin (hne : servList ≠ [])
    (hrun : Machine.run (nameService text IsProxy servList).turn none received =
      .ok (rrPtr, sent)) : RoundRobin servList hne (handled text received) sent rrPtr := by
  refine Machine.run_history
    (P := fun received sent rrPtr => RoundRobin servList hne (handled text received) sent rrPtr)
    ⟨rfl, rfl, rfl⟩ ?_ hrun
  intro received sent rrPtr a rrPtr' out _ hinv hturn
  exact hinv.turn hturn

/-- An accepted request is answered with the entry whose turn it is. -/
theorem RoundRobin.reply (h : RoundRobin servList hne (handled text received) sent rrPtr)
    (hacc : a.accepted = true)
    (hturn : (nameService text IsProxy servList).turn rrPtr a = .ok (rrPtr', out)) :
    ∃ s, servList[(received.filter Arrival.accepted).length % servList.length]? = some s ∧
      out = [genRespPkt s.hex] := by
  have hlt := Nat.mod_lt (accepted (handled text received)) (List.length_pos_of_ne_nil hne)
  have hhandle := (nameserverTurn_eq_ok.mp hturn).2
  unfold handleDnsRequest at hhandle
  rw [if_neg (by show ¬ a.accepted = false; rw [hacc]; simp), if_pos rfl, h.ptr] at hhandle
  dsimp only at hhandle
  rw [nextServer_spec hne, Option.bind_some, List.getElem?_eq_getElem hlt] at hhandle
  cases hhandle
  refine ⟨_, ?_, rfl⟩
  rw [← accepted_handled text, List.getElem?_eq_getElem hlt]

end Turns

/-! ## Agreement -/

theorem proxyQuery_accepted : acceptsName (proxyQuery.take BUFSIZE) = true := by
  obtain ⟨query, hquery, hacc⟩ := exists_query
  have hlen : query.length = 34 := by
    have hdecide : (genDnsRequest videoHostName).toOption.map List.length = some 34 := by
      decide +kernel
    rw [hquery] at hdecide
    exact Option.some.inj hdecide
  have heq : proxyQuery = query := by
    have hq := genDnsRequest_videoHostName
    rw [hquery, Except.ok.injEq] at hq
    exact hq.symm
  rw [heq, List.take_of_length_le (by rw [hlen]; decide)]
  exact hacc

theorem length_genRespPkt {hex : Bytes} (h : hex.length = 4) : (genRespPkt hex).length = 66 := by
  rw [genRespPkt_eq]
  simp [h, validDns]

/-- What `resolve` makes of an answer. -/
theorem resolve_genRespPkt {hex : Bytes} (h : hex.length = 4) :
    resolve videoHostName true (some ((genRespPkt hex).take BUFSIZE)) = .ok (0, some hex) := by
  rw [List.take_of_length_le (by rw [length_genRespPkt h]; decide)]
  unfold resolve
  rw [genDnsRequest_videoHostName, ok_bind, if_pos rfl, parseResponse_genRespPkt h, ok_bind]
  rfl

/-- A turn goes through exactly if the datagram is not too small. -/
theorem nameService_turn_isOk_iff (text : Addr → Bytes) (IsProxy : Addr → Prop)
    {servList : List Server} (hne : servList ≠ []) (rrPtr : Option Nat) (a : Arrival Addr) :
    (∃ res, (nameService text IsProxy servList).turn rrPtr a = .ok res) ↔
      headerSize ≤ a.datagram.length := by
  have hturn := @nameserverTurn_isOk_iff true [] List.nodup_nil servList rrPtr (a.recvfrom text)
  have hfound : FindsServer true [] servList := by
    unfold FindsServer
    rw [if_pos rfl]
    exact hne
  have hlong : (a.recvfrom text).tooSmall = false ↔ headerSize ≤ a.datagram.length := by
    have hsize : headerSize ≤ BUFSIZE := by decide
    simp only [Arrival.recvfrom, Received.tooSmall, Option.any_some, decide_eq_false_iff_not,
      List.length_take]
    omega
  rw [← hlong]
  exact hturn.trans (and_iff_left fun _ => hfound)

theorem headerSize_le_of_accepted {a : Arrival Addr} (h : a.accepted = true) :
    headerSize ≤ a.datagram.length := by
  unfold Arrival.accepted acceptsName at h
  rw [Bool.and_eq_true] at h
  have hlen : headerSize + NAMESIZE ≤ (a.datagram.take BUFSIZE).length := of_decide_eq_true h.1
  rw [List.length_take] at hlen
  omega

section Reachable
variable [DecidableEq Addr] {text : Addr → Bytes} {IsProxy : Addr → Prop} {servList : List Server}
  {net : Network Addr Bytes (Arrival Addr) (Option Nat) (Checked (Int × Option Bytes))}

/-- A proxy that has not asked yet can still resolve, while the server runs: its request is accepted in
every state. -/
theorem exists_resolved (hne : servList ≠ []) (hruns : net.stopped = none) {c : Addr}
    (hclient : IsProxy c) (hidle : net.clients c = .idle)
    (hreach : (nameService text IsProxy servList).Reachable net) : ∃ net' result,
      Relation.ReflTransGen (nameService text IsProxy servList).Step net net' ∧
      net'.clients c = .done true result := by
  have hacc : (⟨c, proxyQuery, []⟩ : Arrival Addr).accepted = true := proxyQuery_accepted
  obtain ⟨⟨rrPtr, out⟩, hturn⟩ := (nameService_turn_isOk_iff text IsProxy hne net.server
    ⟨c, proxyQuery, []⟩).mpr (headerSize_le_of_accepted hacc)
  obtain ⟨s, -, rfl⟩ := (run_roundRobin hne hreach.sound.server).reply hacc hturn
  obtain ⟨net', hsteps, hdone⟩ := Service.exists_done (S := nameService text IsProxy servList) hruns
    hclient hidle (i := ⟨c, proxyQuery, []⟩) rfl rfl hturn
  exact ⟨net', _, hsteps, hdone⟩

/-- What stops the server is too short, and comes from no proxy. -/
theorem stopped_by (hne : servList ≠ []) (hreach : (nameService text IsProxy servList).Reachable net)
    {a : Arrival Addr} (hstop : net.stopped = some a) :
    ¬ IsProxy a.source ∧ a.datagram.length < headerSize := by
  obtain ⟨hquery, e, hfault⟩ := hreach.sound.stopped a hstop
  have hshort : ¬ headerSize ≤ a.datagram.length := by
    rw [← nameService_turn_isOk_iff text IsProxy hne net.server a]
    rintro ⟨res, hok⟩
    rw [hfault] at hok
    cases hok
  refine ⟨fun hproxy => hshort (headerSize_le_of_accepted ?_), Nat.not_le.mp hshort⟩
  unfold Arrival.accepted
  rw [show a.datagram = proxyQuery from hquery hproxy]
  exact proxyQuery_accepted

/-- An empty datagram does it. -/
theorem exists_stopped (hne : servList ≠ []) (hruns : net.stopped = none) {a : Addr}
    (hstranger : ¬ IsProxy a) : ∃ net',
      Relation.ReflTransGen (nameService text IsProxy servList).Step net net' ∧
      net'.stopped ≠ none := by
  have hshort : ¬ headerSize ≤ (⟨a, [], []⟩ : Arrival Addr).datagram.length :=
    Nat.not_le.mpr (show 0 < headerSize by decide)
  rw [← nameService_turn_isOk_iff text IsProxy hne net.server] at hshort
  cases hturn : (nameService text IsProxy servList).turn net.server ⟨a, [], []⟩ with
  | ok res => exact absurd ⟨res, hturn⟩ hshort
  | error e =>
    obtain ⟨net', hsteps, hstop⟩ := Service.exists_stopped hruns hstranger hturn
    exact ⟨net', hsteps, by rw [hstop]; exact Option.some_ne_none _⟩

end Reachable

/-- **Agreement**: over any interleaving, a proxy that has resolved with a datagram of the server holds
the address of line `k mod n`, where `k` requests were accepted before its own.  Only a stranger's
datagram that is too short stops the server, and any stranger can send one; while it runs, a proxy that
has not asked yet can still resolve. -/
theorem nameService_resolved [DecidableEq Addr] (text : Addr → Bytes) (IsProxy : Addr → Prop)
    (uninit : Nat → Nat → UInt8) {file : Bytes} {lines : List QuadLine} (hlines : lines ≠ [])
    (hfile : getlines file = lines.map QuadLine.text) : ∃ servList,
      getServers uninit (some file) = .ok servList ∧
      ∀ net, (nameService text IsProxy servList).Reachable net →
        (∀ c result, net.clients c = .done true result → ∃ k a l,
          (net.received.filter Arrival.accepted)[k]? = some a ∧ a.source = c ∧
          lines[k % lines.length]? = some l ∧ result = .ok (0, some l.address)) ∧
        (∀ a, net.stopped = some a → ¬ IsProxy a.source ∧ a.datagram.length < headerSize) ∧
        (net.stopped = none → ∀ a, ¬ IsProxy a → ∃ net',
          Relation.ReflTransGen (nameService text IsProxy servList).Step net net' ∧
          net'.stopped ≠ none) ∧
        (net.stopped = none → ∀ c, IsProxy c → net.clients c = .idle → ∃ net' result,
          Relation.ReflTransGen (nameService text IsProxy servList).Step net net' ∧
          net'.clients c = .done true result) := by
  obtain ⟨servList, hservers, -, hhex⟩ := getServers_quadLines uninit lines hfile
  have hlen : servList.length = lines.length := by simpa using congrArg List.length hhex
  have hne : servList ≠ [] := by
    rintro rfl
    exact hlines (List.length_eq_zero_iff.mp hlen.symm)
  refine ⟨servList, hservers, fun net hreach => ⟨fun c result hdone => ?_,
    fun a hstop => stopped_by hne hreach hstop,
    fun hruns a hstranger => exists_stopped hne hruns hstranger,
    fun hruns c hclient hidle => exists_resolved hne hruns hclient hidle hreach⟩⟩
  have hsound := hreach.sound
  obtain ⟨d, rfl, pre, a, post, rrPtr, es, rrPtr', out, hsplit, hsource, hrun, hturn, hd⟩ :=
    hsound.done c result hdone
  have hclient : IsProxy a.source := by
    rw [show a.source = c from hsource]
    exact hsound.asked c (by rw [hdone]; simp)
  have hquery : a.datagram = proxyQuery :=
    hsound.received a (by rw [hsplit]; simp) hclient
  have hacc : a.accepted = true := by
    unfold Arrival.accepted
    rw [hquery]
    exact proxyQuery_accepted
  obtain ⟨s, hs, rfl⟩ := (run_roundRobin hne hrun).reply hacc hturn
  rw [List.mem_singleton.mp hd]
  rw [hlen] at hs
  have hline : lines[(pre.filter Arrival.accepted).length % lines.length]?.map QuadLine.address =
      some s.hex := by
    rw [← List.getElem?_map, ← hhex, List.getElem?_map, hs]
    rfl
  obtain ⟨l, hl, haddr⟩ := Option.map_eq_some_iff.mp hline
  refine ⟨(pre.filter Arrival.accepted).length, a, l, ?_, hsource, hl, ?_⟩
  · rw [hsplit, List.filter_append, List.filter_cons_of_pos hacc, List.getElem?_append_right
      (Nat.le_refl _), Nat.sub_self]
    rfl
  · rw [haddr]
    exact resolve_genRespPkt s.hex_length

/-- With two servers, a proxy gets the address of one of them. -/
theorem nameService_resolved_twoServers : ∃ servList,
    getServers (fun _ _ => 0) (some (ascii "3.0.0.1\n4.0.0.1\n")) = .ok servList ∧
    ∃ net result, (nameService (fun _ : Nat => []) (fun _ => True) servList).Reachable net ∧
      net.clients 0 = .done true result ∧ ∃ l ∈ [line3, line4], result = .ok (0, some l.address) := by
  obtain ⟨servList, hservers, hall⟩ := nameService_resolved (fun _ : Nat => []) (fun _ => True)
    (fun _ _ => 0) (show [line3, line4] ≠ [] by simp)
    (show getlines (ascii "3.0.0.1\n4.0.0.1\n") = [line3, line4].map QuadLine.text by decide)
  obtain ⟨net, result, hsteps, hdone⟩ :=
    (hall _ Relation.ReflTransGen.refl).2.2.2 rfl 0 trivial rfl
  obtain ⟨k, a, l, -, -, hl, hresult⟩ := (hall net hsteps).1 0 result hdone
  exact ⟨servList, hservers, net, result, hsteps, hdone, l, List.mem_of_getElem? hl, hresult⟩

/-! ## Balance -/

/-- The list and then the rest of its repetition. -/
theorem cyclic_add {α : Type} (l : List α) (h : l ≠ []) (m : Nat) :
    cyclic l h (l.length + m) = l ++ cyclic l h m := by
  refine List.ext_getElem? fun k => ?_
  by_cases hk : k < l.length
  · rw [getElem?_cyclic (by omega), List.getElem?_append_left hk, Nat.mod_eq_of_lt hk]
  · rw [List.getElem?_append_right (by omega)]
    by_cases hm : k < l.length + m
    · rw [getElem?_cyclic hm, getElem?_cyclic (by omega)]
      congr 1
      rw [Nat.mod_eq_sub_mod (by omega)]
    · rw [List.getElem?_eq_none (by rw [length_cyclic]; omega),
        List.getElem?_eq_none (by rw [length_cyclic]; omega)]

theorem cyclic_of_le {α : Type} (l : List α) (h : l ≠ []) {m : Nat} (hm : m ≤ l.length) :
    cyclic l h m = l.take m := by
  refine List.ext_getElem? fun k => ?_
  by_cases hk : k < m
  · rw [getElem?_cyclic hk, List.getElem?_take_of_lt hk, Nat.mod_eq_of_lt (by omega)]
  · rw [List.getElem?_eq_none (by rw [length_cyclic]; omega),
      List.getElem?_eq_none (by rw [List.length_take]; omega)]

/-- **A list without duplicates, repeated**, holds its elements equally often, up to one. -/
theorem count_cyclic_le {α : Type} [BEq α] [LawfulBEq α] {l : List α} (hnodup : l.Nodup) (h : l ≠ [])
    {a b : α} (ha : a ∈ l) (hb : b ∈ l) (m : Nat) :
    (cyclic l h m).count a ≤ (cyclic l h m).count b + 1 := by
  induction m using Nat.strong_induction_on with
  | _ m ih =>
    have hone : ∀ x ∈ l, l.count x = 1 := fun x hx => List.count_eq_one_of_mem hnodup hx
    have hpos : 0 < l.length := List.length_pos_of_ne_nil h
    by_cases hm : m ≤ l.length
    · have hle : (l.take m).count a ≤ l.count a := (List.take_sublist m l).count_le a
      rw [hone a ha] at hle
      rw [cyclic_of_le l h hm]
      omega
    · obtain ⟨k, rfl⟩ : ∃ k, m = l.length + k := ⟨m - l.length, by omega⟩
      have hk := ih k (by omega)
      rw [cyclic_add, List.count_append, List.count_append, hone a ha, hone b hb]
      omega

theorem genRespPkt_injective {hex hex' : Bytes} (h : hex.length = 4) (h' : hex'.length = 4)
    (heq : genRespPkt hex = genRespPkt hex') : hex = hex' := by
  have hparse := parseResponse_genRespPkt h
  rw [heq, parseResponse_genRespPkt h', Except.ok.injEq] at hparse
  exact hparse.symm

/-- An error packet is shorter than an answer. -/
theorem sendError_ne_genRespPkt (stack : Bytes) {hex : Bytes} (h : hex.length = 4) :
    sendError stack ≠ genRespPkt hex := by
  intro heq
  have hlen := congrArg List.length heq
  rw [length_genRespPkt h] at hlen
  have hle : (sendError stack).length ≤ 28 := List.length_take_le _ _
  omega

/-- A rejected request is answered with an error packet. -/
theorem turn_rejected {text : Addr → Bytes} {IsProxy : Addr → Prop} {servList : List Server}
    {rrPtr rrPtr' : Option Nat} {a : Arrival Addr} {out : List Bytes} (hrej : a.accepted = false)
    (hturn : (nameService text IsProxy servList).turn rrPtr a = .ok (rrPtr', out)) :
    out = [sendError a.stack] := by
  have hhandle := (nameserverTurn_eq_ok.mp hturn).2
  unfold handleDnsRequest at hhandle
  rw [if_pos (show acceptsName (a.recvfrom text).request.buffer = false from hrej)] at hhandle
  cases hhandle
  rfl

/-- Among all that is sent, the answers with an address are those of the entries that have it. -/
theorem count_sent {text : Addr → Bytes} {IsProxy : Addr → Prop} {servList : List Server}
    (hne : servList ≠ []) {hex : Bytes} (hhex : hex.length = 4) {received : List (Arrival Addr)}
    {rrPtr : Option Nat} {sent : List Bytes}
    (hrun : Machine.run (nameService text IsProxy servList).turn none received =
      .ok (rrPtr, sent)) : sent.count (genRespPkt hex) =
      ((cyclic servList hne (received.filter Arrival.accepted).length).map Server.hex).count hex := by
  refine Machine.run_history (P := fun received sent _ => sent.count (genRespPkt hex) =
      ((cyclic servList hne (received.filter Arrival.accepted).length).map Server.hex).count hex)
    rfl ?_ hrun
  intro received sent rrPtr a rrPtr' out hrun hcount hturn
  rw [List.count_append, hcount, List.filter_append, List.length_append]
  cases hacc : a.accepted with
  | true =>
    obtain ⟨s, hs, rfl⟩ := (run_roundRobin hne hrun).reply hacc hturn
    rw [List.filter_cons_of_pos hacc, List.filter_nil, List.length_singleton, cyclic_succ,
      List.map_append, List.count_append, List.map_singleton]
    congr 1
    have hget := (List.getElem?_eq_some_iff.mp hs).2
    rw [List.get_eq_getElem, hget]
    by_cases heq : s.hex = hex
    · rw [heq, List.count_singleton_self, List.count_singleton_self]
    · have hne' : genRespPkt hex ∉ [genRespPkt s.hex] := by
        rw [List.mem_singleton]
        exact fun h => heq (genRespPkt_injective hhex s.hex_length h).symm
      rw [List.count_eq_zero_of_not_mem hne', List.count_eq_zero_of_not_mem]
      rw [List.mem_singleton]
      exact Ne.symm heq
  | false =>
    have hother : genRespPkt hex ∉ [sendError a.stack] := by
      rw [List.mem_singleton]
      exact (sendError_ne_genRespPkt a.stack hhex).symm
    rw [turn_rejected hacc hturn, List.count_eq_zero_of_not_mem hother,
      List.filter_cons_of_neg (by rw [hacc]; simp), List.filter_nil, List.length_nil, Nat.add_zero,
      Nat.add_zero]

/-- **Balance**: of two addresses in the file, the one is sent at most once more than the other, over
any interleaving. -/
theorem nameService_balanced [DecidableEq Addr] (text : Addr → Bytes) (IsProxy : Addr → Prop)
    (uninit : Nat → Nat → UInt8) {file : Bytes} {lines : List QuadLine}
    (hfile : getlines file = lines.map QuadLine.text)
    (hdistinct : (lines.map QuadLine.address).Nodup) : ∃ servList,
      getServers uninit (some file) = .ok servList ∧
      ∀ net, (nameService text IsProxy servList).Reachable net → ∀ l ∈ lines, ∀ l' ∈ lines,
        net.sent.count (genRespPkt l.address) ≤ net.sent.count (genRespPkt l'.address) + 1 := by
  obtain ⟨servList, hservers, -, hhex⟩ := getServers_quadLines uninit lines hfile
  refine ⟨servList, hservers, fun net hreach l hl l' hl' => ?_⟩
  have hlen : servList.length = lines.length := by simpa using congrArg List.length hhex
  have hne : servList ≠ [] := by
    rintro rfl
    rw [List.length_eq_zero_iff.mp hlen.symm] at hl
    cases hl
  have hfour : ∀ q : QuadLine, q.address.length = 4 := fun q => by simp [QuadLine.address, q.four]
  have hrun := hreach.sound.server
  rw [count_sent hne (hfour l) hrun, count_sent hne (hfour l') hrun, map_cyclic]
  rw [← hhex] at hdistinct
  apply count_cyclic_le hdistinct
  · rw [hhex]
    exact List.mem_map_of_mem hl
  · rw [hhex]
    exact List.mem_map_of_mem hl'

theorem nameService_balanced_twoServers : ∃ servList,
    getServers (fun _ _ => 0) (some (ascii "3.0.0.1\n4.0.0.1\n")) = .ok servList ∧
    ∀ net, (nameService (fun _ : Nat => []) (fun _ => True) servList).Reachable net →
      net.sent.count (genRespPkt [3, 0, 0, 1]) ≤ net.sent.count (genRespPkt [4, 0, 0, 1]) + 1 := by
  obtain ⟨servList, hservers, hall⟩ := nameService_balanced (fun _ : Nat => []) (fun _ => True)
    (fun _ _ => 0)
    (show getlines (ascii "3.0.0.1\n4.0.0.1\n") = [line3, line4].map QuadLine.text by decide)
    (by decide)
  exact ⟨servList, hservers, fun net hreach => hall net hreach line3 (by simp) line4 (by simp)⟩

end VideoCdn
