import VideoCdn.Leak
import VideoCdn.Lib.Protocol

/-!
# One response for a connection (`main` of `src/proxy.c`)

A session knows its client by a number only, and the number goes to another client once the response
has closed it. From then on the session reads from and writes to that other client, in turn with the
session of its own.

* `Clients`, `Clients.next` — the connections of the clients, and which of them is open on a number: one
  is accepted on a number on which none is, and what happens in the name of a session happens while one
  is open on its number; a response goes to that connection, and closes it.
* `Clients.Once` — every connection is open, or has had its only response.
* `ProxyState.IsClient` — an open number that is a client's, read off the state.
* `Recorded` — the invariant: the log of a run says which numbers these are.
* `clients_run` — **runs** in which no read fails and the server can be reached: every connection that
  was accepted has had one response or is still open, and the descriptors are counted exactly.
-/

set_option autoImplicit false

namespace VideoCdn

open CLib Protocol

/-- The numbers of the connections in the order in which they were accepted, the numbers on which one is
open, the last connection on every number, and the connections that have had a response. -/
structure Clients where
  numbers : List Nat
  opened : Finset Nat
  latest : Nat → Nat
  answered : List Nat

namespace Clients

def start : Clients := ⟨[], ∅, fun _ => 0, []⟩

/-- Connection `k` is open. -/
def IsOpen (c : Clients) (k : Nat) : Prop := ∃ fd ∈ c.opened, c.latest fd = k

/-- The number of session `sid`, if a connection is open on it: that of the session, or a later one. -/
def clientOf (c : Clients) (sid : Nat) : Option Nat :=
  c.numbers[sid]?.filter (fun fd => decide (fd ∈ c.opened))

def next (c : Clients) : ProxyEvent → Option Clients
  | .accepted sid fd =>
    if sid = c.numbers.length ∧ fd ∉ c.opened then
      some ⟨c.numbers ++ [fd], insert fd c.opened, Function.update c.latest fd sid, c.answered⟩
    else none
  | .connected sid fd => if fd ∉ c.opened ∧ (c.clientOf sid).isSome then some c else none
  | .chunkRequest sid fd _ _ => if c.clientOf sid = some fd then some c else none
  | .upstream sid _ => if (c.clientOf sid).isSome then some c else none
  | .chunkResponse sid fd _ _ => if c.clientOf sid = some fd then some c else none
  | .downstream sid _ => (c.clientOf sid).map fun fd =>
      { c with opened := c.opened.erase fd, answered := c.answered ++ [c.latest fd] }

theorem clientOf_eq_some {c : Clients} {sid fd : Nat} :
    c.clientOf sid = some fd ↔ c.numbers[sid]? = some fd ∧ fd ∈ c.opened := by
  unfold clientOf
  rw [Option.filter_eq_some_iff, decide_eq_true_eq]

end Clients

namespace ProxyEvent

def isAccepted : ProxyEvent → Bool
  | accepted _ _ => true
  | _ => false

def isDownstream : ProxyEvent → Bool
  | downstream _ _ => true
  | _ => false

def responder : ProxyEvent → Option Nat
  | downstream sid _ => some sid
  | _ => none

end ProxyEvent

namespace Clients

/-- **What an event does**: two kinds of them open and close a connection, the others none. -/
theorem next_cases {c c' : Clients} {e : ProxyEvent} (h : c.next e = some c') :
    (∃ sid fd, e = .accepted sid fd ∧ fd ∉ c.opened ∧
      c' = ⟨c.numbers ++ [fd], insert fd c.opened, Function.update c.latest fd c.numbers.length,
        c.answered⟩) ∨
    (∃ sid bytes fd, e = .downstream sid bytes ∧ fd ∈ c.opened ∧
      c' = { c with opened := c.opened.erase fd, answered := c.answered ++ [c.latest fd] }) ∨
    e.isAccepted = false ∧ e.isDownstream = false ∧ c' = c := by
  cases e with
  | accepted sid fd =>
    obtain ⟨⟨rfl, hfd⟩, he⟩ := Option.ite_none_right_eq_some.mp h
    exact Or.inl ⟨_, fd, rfl, hfd, (Option.some.inj he).symm⟩
  | downstream sid bytes =>
    obtain ⟨fd, hfd, he⟩ := Option.map_eq_some_iff.mp h
    exact Or.inr (Or.inl ⟨sid, bytes, fd, rfl, (clientOf_eq_some.mp hfd).2, he.symm⟩)
  | connected sid fd =>
    obtain ⟨-, he⟩ := Option.ite_none_right_eq_some.mp h
    exact Or.inr (Or.inr ⟨rfl, rfl, (Option.some.inj he).symm⟩)
  | chunkRequest sid fd estimate rate =>
    obtain ⟨-, he⟩ := Option.ite_none_right_eq_some.mp h
    exact Or.inr (Or.inr ⟨rfl, rfl, (Option.some.inj he).symm⟩)
  | upstream sid bytes =>
    obtain ⟨-, he⟩ := Option.ite_none_right_eq_some.mp h
    exact Or.inr (Or.inr ⟨rfl, rfl, (Option.some.inj he).symm⟩)
  | chunkResponse sid fd download log =>
    obtain ⟨-, he⟩ := Option.ite_none_right_eq_some.mp h
    exact Or.inr (Or.inr ⟨rfl, rfl, (Option.some.inj he).symm⟩)

/-- A connection that is accepted is open until it gets a response. -/
theorem opened_next {c c' : Clients} {e : ProxyEvent} (h : c.next e = some c') :
    e.isDownstream.toNat + c'.opened.card = e.isAccepted.toNat + c.opened.card := by
  rcases next_cases h with ⟨sid, fd, rfl, hfd, rfl⟩ | ⟨sid, bytes, fd, rfl, hfd, rfl⟩ |
    ⟨haccepted, hdownstream, rfl⟩
  · rw [Finset.card_insert_of_notMem hfd]
    simp [ProxyEvent.isDownstream, ProxyEvent.isAccepted, Nat.add_comm]
  · have hcard := Finset.card_erase_add_one hfd
    simp only [ProxyEvent.isDownstream, ProxyEvent.isAccepted, Bool.toNat_true, Bool.toNat_false]
    omega
  · rw [haccepted, hdownstream]

/-- Every client that is accepted has a number from then on. -/
theorem numbers_next {c c' : Clients} {e : ProxyEvent} (h : c.next e = some c') :
    false.toNat + c'.numbers.length = e.isAccepted.toNat + c.numbers.length := by
  rcases next_cases h with ⟨sid, fd, rfl, hfd, rfl⟩ | ⟨sid, bytes, fd, rfl, hfd, rfl⟩ |
    ⟨haccepted, -, rfl⟩
  · simp [ProxyEvent.isAccepted, Nat.add_comm]
  · rfl
  · rw [haccepted]

/-- Every response goes to a connection. -/
theorem answered_next {c c' : Clients} {e : ProxyEvent} (h : c.next e = some c') :
    false.toNat + c'.answered.length = e.isDownstream.toNat + c.answered.length := by
  rcases next_cases h with ⟨sid, fd, rfl, hfd, rfl⟩ | ⟨sid, bytes, fd, rfl, hfd, rfl⟩ |
    ⟨-, hdownstream, rfl⟩
  · rfl
  · simp [ProxyEvent.isDownstream, Nat.add_comm]
  · rw [hdownstream]

/-- The last connection on an open number is one on that number, and every connection is either open or
answered, and answered once. -/
structure Once (c : Clients) : Prop where
  number : ∀ fd ∈ c.opened, c.numbers[c.latest fd]? = some fd
  known : ∀ k ∈ c.answered, k < c.numbers.length
  nodup : c.answered.Nodup
  answered : ∀ k < c.numbers.length, k ∈ c.answered ↔ ¬ c.IsOpen k

theorem once_start : Once start where
  number := nofun
  known := nofun
  nodup := List.nodup_nil
  answered := nofun

theorem Once.accept {c : Clients} (h : c.Once) {fd : Nat} (hfd : fd ∉ c.opened) :
    Once ⟨c.numbers ++ [fd], insert fd c.opened, Function.update c.latest fd c.numbers.length,
      c.answered⟩ := by
  have hlatest : ∀ fd' ∈ c.opened,
      Function.update c.latest fd c.numbers.length fd' = c.latest fd' := fun fd' hfd' =>
    Function.update_of_ne (ne_of_mem_of_not_mem hfd' hfd) _ _
  have hlt : ∀ fd' ∈ c.opened, c.latest fd' < c.numbers.length := fun fd' hfd' =>
    (List.getElem?_eq_some_iff.mp (h.number fd' hfd')).1
  refine ⟨fun fd' hfd' => ?_, fun k hk => ?_, h.nodup, fun k hk => ?_⟩
  · rcases Finset.mem_insert.mp hfd' with rfl | hfd'
    · simp
    · simp only [hlatest fd' hfd']
      rw [List.getElem?_append_left (hlt fd' hfd')]
      exact h.number fd' hfd'
  · have := h.known k hk
    rw [List.length_append]
    omega
  · rw [List.length_append, List.length_singleton] at hk
    by_cases hnew : k = c.numbers.length
    · -- the new connection is open, and no answer has gone to it
      subst hnew
      constructor
      · intro hmem
        exact absurd (h.known _ hmem) (Nat.lt_irrefl _)
      · intro hclosed
        exact absurd ⟨fd, Finset.mem_insert_self fd _, Function.update_self fd _ _⟩ hclosed
    · rw [h.answered k (by omega), not_iff_not]
      constructor
      · rintro ⟨fd', hfd', hk'⟩
        exact ⟨fd', Finset.mem_insert_of_mem hfd', (hlatest fd' hfd').trans hk'⟩
      · rintro ⟨fd', hfd', hk'⟩
        rcases Finset.mem_insert.mp hfd' with rfl | hfd'
        · exact absurd ((Function.update_self fd' _ _).symm.trans hk') (Ne.symm hnew)
        · exact ⟨fd', hfd', (hlatest fd' hfd').symm.trans hk'⟩

theorem Once.answer {c : Clients} (h : c.Once) {fd : Nat} (hfd : fd ∈ c.opened) :
    Once { c with opened := c.opened.erase fd, answered := c.answered ++ [c.latest fd] } := by
  have hlt : c.latest fd < c.numbers.length := (List.getElem?_eq_some_iff.mp (h.number fd hfd)).1
  have hnew : c.latest fd ∉ c.answered := fun hmem => (h.answered _ hlt).mp hmem ⟨fd, hfd, rfl⟩
  have hother : ∀ fd' ∈ c.opened, c.latest fd' = c.latest fd → fd' = fd := by
    intro fd' hfd' heq
    have hnumber := h.number fd' hfd'
    rw [heq, h.number fd hfd] at hnumber
    exact (Option.some.inj hnumber).symm
  refine ⟨fun fd' hfd' => h.number fd' (Finset.mem_of_mem_erase hfd'), fun k hk => ?_, ?_,
    fun k hk => ?_⟩
  · rcases List.mem_append.mp hk with hk | hk
    · exact h.known k hk
    · exact List.mem_singleton.mp hk ▸ hlt
  · exact h.nodup.append (List.nodup_singleton _) (List.disjoint_singleton.mpr hnew)
  · rw [List.mem_append, h.answered k hk, List.mem_singleton]
    constructor
    · rintro (hclosed | rfl) ⟨fd', hfd', hk'⟩
      · exact hclosed ⟨fd', Finset.mem_of_mem_erase hfd', hk'⟩
      · exact Finset.ne_of_mem_erase hfd' (hother fd' (Finset.mem_of_mem_erase hfd') hk')
    · intro hclosed
      by_cases hk' : k = c.latest fd
      · exact Or.inr hk'
      · refine Or.inl fun ⟨fd', hfd', hlatest⟩ => hclosed ⟨fd', ?_, hlatest⟩
        exact Finset.mem_erase.mpr ⟨fun heq => hk' (heq ▸ hlatest.symm), hfd'⟩

theorem Once.next {c c' : Clients} {e : ProxyEvent} (h : c.Once) (he : c.next e = some c') :
    c'.Once := by
  rcases next_cases he with ⟨sid, fd, rfl, hfd, rfl⟩ | ⟨sid, bytes, fd, rfl, hfd, rfl⟩ | ⟨-, -, rfl⟩
  · exact h.accept hfd
  · exact h.answer hfd
  · exact h

end Clients

/-! ## The events of a session -/

section Stays
variable {initial : Finset Nat} {alpha : ℚ} {turn : Turn} {sid : Nat} {node : Session}
  {st st' : ProxyState} {evs es : List ProxyEvent} {c : Clients}

/-- The choice of a rate is in the name of the client. -/
theorem Clients.stays_trackChunk {now : Timespec} {node : Session} {file buffer buffer' : Bytes}
    {st st' : ProxyState} (hopen : c.clientOf sid = some node.clientFd)
    (htrack : trackChunk now sid node file buffer st = .ok (buffer', st', es)) :
    ∀ e ∈ es, c.next e = some c := by
  rcases trackChunk_eq_ok.mp htrack with ⟨-, -, -, rfl⟩ | ⟨trackers, trackers', -, -, -, rfl⟩
  · exact List.forall_mem_nil _
  · exact List.forall_mem_singleton.mpr (if_pos hopen)

/-- The client's part of a pass neither opens nor closes a client's connection. -/
theorem ClientStep.stays {env : ClientRecv} (hopen : c.clientOf sid = some node.clientFd)
    (hnew : st.newServer node ∉ c.opened) (h : ClientStep env sid node st st' es) :
    ∀ e ∈ es, c.next e = some c := by
  have hsome : (c.clientOf sid).isSome = true := by
    rw [hopen]
    rfl
  have hconnected : c.next (.connected sid (st.newServer node)) = some c := if_pos ⟨hnew, hsome⟩
  have hupstream : ∀ bytes, c.next (.upstream sid bytes) = some c := fun _ => if_pos hsome
  have hclient : c.clientOf sid = some (node.connectedTo (st.newServer node)).clientFd := hopen
  cases h with
  | readError _ => exact List.forall_mem_nil _
  | noServer _ _ _ => exact List.forall_mem_nil _
  | refused _ _ => exact List.forall_mem_singleton.mpr hconnected
  | refusedRewritten _ _ _ _ _ htrack =>
    exact List.forall_mem_cons.mpr ⟨hconnected, Clients.stays_trackChunk hclient htrack⟩
  | forwarded _ _ _ _ _ htrack _ =>
    refine List.forall_mem_append.mpr ⟨?_, List.forall_mem_singleton.mpr (hupstream _)⟩
    exact List.forall_mem_cons.mpr ⟨hconnected, Clients.stays_trackChunk hclient htrack⟩
  | forwardedReady _ _ _ _ _ htrack _ _ =>
    refine List.forall_mem_append.mpr ⟨?_, List.forall_mem_singleton.mpr (hupstream _)⟩
    exact List.forall_mem_cons.mpr ⟨hconnected, Clients.stays_trackChunk hclient htrack⟩

/-! ## The open connections of a state -/

/-- The number is open, and neither one from in front of the loop nor held for a server. -/
def ProxyState.IsClient (initial : Finset Nat) (st : ProxyState) (fd : Nat) : Prop :=
  fd ∈ st.openFds ∧ fd ∉ initial ∧ ∀ sid, ¬ st.Holds sid fd

/-- A client that can be read from has not been closed. -/
theorem Holding.isClient (h : Holding initial st) (hnone : NoneAwaited st)
    (hnode : st.sessions[sid]? = some node) (hready : node.clientFd ∈ st.readyToRead) :
    st.IsClient initial node.clientFd :=
  ⟨h.watched hready, h.client node (List.mem_of_getElem? hnode), hnone.not_holds hready⟩

/-- The connection to the server takes no number of a client. -/
theorem newServer_not_isClient (hnode : st.sessions[sid]? = some node) :
    ¬ st.IsClient initial (st.newServer node) := by
  rintro ⟨hopen, -, hfree⟩
  have hnew : st.newServer node ∉ (st.closeServer node).openFds := lowestFree_notMem _
  exact hnew (ProxyState.mem_closeServer.mpr ⟨hopen, fun hfd => hfree sid ⟨node, hnode, hfd⟩⟩)

/-- ... and closes none. -/
theorem Connects.isClient_iff (h : Connects sid node st st')
    (hnode : st.sessions[sid]? = some node) {fd : Nat} :
    st'.IsClient initial fd ↔ st.IsClient initial fd := by
  constructor
  · rintro ⟨hopen, hinitial, hfree⟩
    have hne : fd ≠ st.newServer node :=
      fun heq => hfree sid ((h.holds_iff hnode).mpr (Or.inr ⟨rfl, heq⟩))
    rw [h.openFds] at hopen
    obtain ⟨hopen, hserver⟩ :=
      ProxyState.mem_closeServer.mp (Finset.mem_of_mem_insert_of_ne hopen hne)
    refine ⟨hopen, hinitial, fun sid' hold => ?_⟩
    by_cases hsid : sid' = sid
    · obtain ⟨node', hnode', hfd⟩ := hold
      rw [hsid, hnode, Option.some.injEq] at hnode'
      exact hserver (hnode' ▸ hfd)
    · exact hfree sid' ((h.holds_iff hnode).mpr (Or.inl ⟨hsid, hold⟩))
  · rintro ⟨hopen, hinitial, hfree⟩
    refine ⟨?_, hinitial, fun sid' hold => ?_⟩
    · rw [h.openFds]
      refine Finset.mem_insert_of_mem (ProxyState.mem_closeServer.mpr ⟨hopen, fun hfd => ?_⟩)
      exact hfree sid ⟨node, hnode, hfd⟩
    · rcases (h.holds_iff hnode).mp hold with ⟨-, hold⟩ | ⟨-, rfl⟩
      · exact hfree sid' hold
      · exact newServer_not_isClient hnode ⟨hopen, hinitial, hfree⟩

/-- A response closes its client. -/
theorem isClient_served (hnode : st.sessions[sid]? = some node) (fd : Nat) (bitrate : List Int)
    (trackers : Trackers) {fd' : Nat} :
    ProxyState.IsClient initial { st.served sid node fd bitrate with trackers := trackers } fd' ↔
      fd' ≠ node.clientFd ∧ st.IsClient initial fd' := by
  have hopen : fd' ∈ (st.served sid node fd bitrate).openFds ↔
      fd' ≠ node.clientFd ∧ fd' ∈ st.openFds := Finset.mem_erase
  unfold ProxyState.IsClient
  simp only [holds_served hnode]
  rw [hopen, and_assoc]

/-- A client that is accepted is another one. -/
theorem TopHolding.isClient_accepting (h : TopHolding initial st) {fd : Nat} :
    st.accepting.IsClient initial fd ↔ fd = lowestFree st.openFds ∨ st.IsClient initial fd := by
  have hnew : lowestFree st.openFds ∉ st.openFds := lowestFree_notMem _
  have hopen : fd ∈ st.accepting.openFds ↔ fd = lowestFree st.openFds ∨ fd ∈ st.openFds :=
    Finset.mem_insert
  unfold ProxyState.IsClient
  simp only [holds_accepting]
  rw [hopen]
  constructor
  · rintro ⟨rfl | hmem, hrest⟩
    · exact Or.inl rfl
    · exact Or.inr ⟨hmem, hrest⟩
  · rintro (rfl | ⟨hmem, hrest⟩)
    · refine ⟨Or.inl rfl, fun hbase => hnew (h.holding.base hbase), fun sid hold => ?_⟩
      exact hnew (h.holding.held hold).1
    · exact ⟨Or.inr hmem, hrest⟩

/-! ## Runs -/

/-- The log says which clients there are, and which of their connections are open. -/
structure Recorded (initial : Finset Nat) (evs : List ProxyEvent) (st : ProxyState) (c : Clients) :
    Prop where
  log : Follows Clients.next .start evs c
  numbers : c.numbers = st.sessions.map Session.clientFd
  opened : ∀ {fd}, fd ∈ c.opened ↔ st.IsClient initial fd

theorem Recorded.clientOf (h : Recorded initial evs st c) (hnode : st.sessions[sid]? = some node)
    (hclient : st.IsClient initial node.clientFd) : c.clientOf sid = some node.clientFd := by
  refine Clients.clientOf_eq_some.mpr ⟨?_, h.opened.mpr hclient⟩
  rw [h.numbers, List.getElem?_map, hnode]
  rfl

/-- The client's part of a pass. -/
theorem Recorded.connects {env : ClientRecv} (h : Recorded initial evs st c)
    (hnode : st.sessions[sid]? = some node) (hclient : st.IsClient initial node.clientFd)
    (hconn : Connects sid node st st') (hstep : ClientStep env sid node st st' es) :
    Recorded initial (evs ++ es) st' c := by
  have hnew : st.newServer node ∉ c.opened :=
    fun hmem => newServer_not_isClient hnode (h.opened.mp hmem)
  have hnumbers : st'.sessions.map Session.clientFd = c.numbers :=
    @KeptByHandlers.client 0 _ (clientFds_kept 0 _) evs st sid node env st' es h.numbers.symm hnode
      hstep
  refine ⟨h.log.append (.of_stays (hstep.stays (h.clientOf hnode hclient) hnew)), hnumbers.symm, ?_⟩
  intro fd
  rw [h.opened, hconn.isClient_iff hnode]

/-- The server's part of it. -/
theorem Recorded.serveServer (h : Recorded initial evs st c) (hnode : st.sessions[sid]? = some node)
    (hclient : st.IsClient initial node.clientFd)
    (hserver : VideoCdn.serveServer alpha turn sid st = .ok (st', es)) :
    ∃ c', Recorded initial (evs ++ es) st' c' := by
  have hopen : c.clientOf sid = some node.clientFd := h.clientOf hnode hclient
  have hnumbers : st'.sessions.map Session.clientFd = c.numbers :=
    @KeptByHandlers.serveServer alpha _ (clientFds_kept alpha _) turn sid st st' evs es
      h.numbers.symm hserver
  have hdownstream : ∀ out, c.next (.downstream sid out) =
      some { c with
        opened := c.opened.erase node.clientFd
        answered := c.answered ++ [c.latest node.clientFd] } := by
    intro out
    show (c.clientOf sid).map _ = _
    rw [hopen]
    rfl
  have hopened : ∀ fd bitrate trackers fd', fd' ∈ c.opened.erase node.clientFd ↔
      ProxyState.IsClient initial { st.served sid node fd bitrate with trackers := trackers } fd' := by
    intro fd bitrate trackers fd'
    rw [Finset.mem_erase, h.opened, isClient_served hnode]
  rcases serveServer_step hserver with ⟨rfl, rfl, -⟩ | ⟨p, _, hp, -, -, hstep⟩
  · rw [List.append_nil]
    exact ⟨c, h⟩
  rw [hnode, Option.some.injEq] at hp
  subst hp
  cases hstep with
  | passed fd bitrate out _ =>
    exact ⟨_, h.log.snoc (hdownstream out), hnumbers.symm, fun {fd'} =>
      hopened fd bitrate st.trackers fd'⟩
  | measured fd bitrate out ts trackers log _ _ _ =>
    have hmeasured : c.next (.chunkResponse sid node.clientFd
        ⟨out.length, ts, (turn.server sid).now⟩ log) = some c := if_pos hopen
    rw [List.append_cons evs]
    exact ⟨_, (h.log.snoc hmeasured).snoc (hdownstream out), hnumbers.symm, fun {fd'} =>
      hopened fd bitrate trackers fd'⟩

/-- **Step lemma**: the body of the loop. -/
theorem Recorded.serveSession (h : Recorded initial evs st c) (hholding : Holding initial st)
    (hnone : NoneAwaited st) (hworks : turn.Works)
    (hrun : VideoCdn.serveSession alpha turn st sid = .ok (st', es)) :
    ∃ c', Recorded initial (evs ++ es) st' c' := by
  obtain ⟨st₁, evs₁, evs₂, hclient, hserver, rfl⟩ := serveSession_eq_ok.mp hrun
  rcases serveClient_cases hclient with ⟨rfl, rfl, -⟩ | ⟨node, hnode, hready, hstep⟩
  · rcases serveServer_step hserver with ⟨rfl, rfl, -⟩ | ⟨p, fd, hp, hfd, hmem, -⟩
    · rw [List.append_nil, List.append_nil]
      exact ⟨c, h⟩
    · exact absurd hmem (hnone p (List.mem_of_getElem? hp) fd hfd)
  · obtain ⟨hread, hconnect⟩ := hworks sid
    have hconn := hstep.connects hread hconnect
    have hopen := hholding.isClient hnone hnode hready
    obtain ⟨node', hset, hclientFd, -⟩ := hconn.session
    have hlt : sid < st.sessions.length := (List.getElem?_eq_some_iff.mp hnode).1
    have hnode' : st₁.sessions[sid]? = some node' := by
      rw [hset, List.getElem?_set_self hlt]
    rw [← List.append_assoc]
    refine (h.connects hnode hopen hconn hstep).serveServer hnode' ?_ hserver
    rwa [hclientFd, hconn.isClient_iff hnode]

/-- A client is accepted on a number on which no other one is open. -/
theorem Recorded.accepting (h : Recorded initial evs st c) (htop : TopHolding initial st) :
    Recorded initial (evs ++ [.accepted st.sessions.length (lowestFree st.openFds)]) st.accepting
      ⟨c.numbers ++ [lowestFree st.openFds], insert (lowestFree st.openFds) c.opened,
        Function.update c.latest (lowestFree st.openFds) st.sessions.length, c.answered⟩ := by
  have hnew : lowestFree st.openFds ∉ c.opened :=
    fun hmem => lowestFree_notMem _ (h.opened.mp hmem).1
  have hlength : st.sessions.length = c.numbers.length := by
    rw [h.numbers, List.length_map]
  refine ⟨h.log.snoc (if_pos ⟨hlength, hnew⟩), ?_, ?_⟩
  · show _ = (st.sessions ++ [_]).map _
    rw [List.map_append, h.numbers]
    rfl
  · intro fd
    rw [Finset.mem_insert, h.opened, htop.isClient_accepting]

/-- At the top of the loop. -/
structure InRecord (initial : Finset Nat) (evs : List ProxyEvent) (st : ProxyState) : Prop where
  top : TopHolding initial st
  recorded : ∃ c, Recorded initial evs st c

theorem InRecord.run (evs : List ProxyEvent) (h : InRecord initial evs st) (hworks : turn.Works)
    {sids : List Nat}
    (hrun : Machine.run (VideoCdn.serveSession alpha turn) st sids = .ok (st', es)) :
    InRecord initial (evs ++ es) st' := by
  refine Machine.run_invariant (Q := InRecord initial) (fun evs st sid st' es hst hstep => ?_) h hrun
  obtain ⟨htop, c, hc⟩ := hst
  refine ⟨?_, hc.serveSession htop.holding htop.none_awaited hworks hstep⟩
  exact htop.holding.serveSession htop.none_awaited hworks
    (fun sid' hlt => Or.inl (htop.connected sid' hlt)) hstep

theorem InRecord.selected (h : InRecord initial evs st) (ready : Finset Nat) :
    InRecord initial evs (st.selected ready) := by
  obtain ⟨htop, c, hc⟩ := h
  exact ⟨htop.selected ready, c, hc.log, hc.numbers, hc.opened⟩

theorem InRecord.iterate {serverSockfd : Nat} (h : InRecord initial evs st) (hworks : turn.Works)
    (hturn : VideoCdn.iterate alpha serverSockfd st turn = .ok (st', es)) :
    InRecord initial (evs ++ es) st' := by
  cases iterate_step hturn with
  | failed _ => rwa [List.append_nil]
  | idle ready _ _ _ _ hserve => exact (h.selected ready).run evs hworks hserve
  | accepted ready _ es _ _ hserve =>
    obtain ⟨htop, c, hc⟩ := h.selected ready
    obtain ⟨hholding, hnone, hpending⟩ := htop.accepting
    obtain ⟨st₁, evs₁, evs₂, hfirst, hrest, rfl⟩ := serveSessions_accepting.mp hserve
    have hst₁ := (hc.accepting htop).serveSession hholding hnone hworks hfirst
    have htop₁ := hholding.serveSession hnone hworks hpending hfirst
    have hend := InRecord.run _ ⟨htop₁, hst₁⟩ hworks hrest
    rwa [List.append_assoc, List.append_assoc] at hend

/-- The descriptors that are open: those from in front of the loop, one to the server for each session,
and those of the clients. -/
theorem TopHolding.card_openFds (h : TopHolding initial st) {opened : Finset Nat}
    (hopened : ∀ fd, fd ∈ opened ↔ st.IsClient initial fd) :
    st.openFds.card = initial.card + st.sessions.length + opened.card := by
  obtain ⟨held, hmem, hcard⟩ := h.exists_held
  have hheld : Disjoint initial held := by
    refine Finset.disjoint_left.mpr fun fd hbase hfd => ?_
    obtain ⟨sid, hold⟩ := (hmem fd).mp hfd
    exact (h.holding.held hold).2 hbase
  have hclients : Disjoint (initial ∪ held) opened := by
    refine Finset.disjoint_left.mpr fun fd hfd hmem' => ?_
    obtain ⟨-, hinitial, hfree⟩ := (hopened fd).mp hmem'
    rcases Finset.mem_union.mp hfd with hbase | hfd
    · exact hinitial hbase
    · obtain ⟨sid, hold⟩ := (hmem fd).mp hfd
      exact hfree sid hold
  have hall : st.openFds = initial ∪ held ∪ opened := by
    ext fd
    rw [Finset.mem_union, Finset.mem_union, hmem, hopened]
    constructor
    · intro hfd
      by_cases hbase : fd ∈ initial
      · exact Or.inl (Or.inl hbase)
      by_cases hold : ∃ sid, st.Holds sid fd
      · exact Or.inl (Or.inr hold)
      · exact Or.inr ⟨hfd, hbase, not_exists.mp hold⟩
    · rintro ((hbase | ⟨sid, hold⟩) | hclient)
      · exact h.holding.base hbase
      · exact (h.holding.held hold).1
      · exact hclient.1
  rw [hall, Finset.card_union_of_disjoint hclients, Finset.card_union_of_disjoint hheld, hcard]

end Stays

/-- In front of the loop no client has been accepted. -/
theorem inRecord_start (openFds : Finset Nat) (serverSockfd : Nat) :
    InRecord (insert serverSockfd openFds) [] (.start openFds serverSockfd) := by
  refine ⟨topHolding_start openFds serverSockfd, .start, Follows.nil _, rfl, fun {fd} => ?_⟩
  constructor
  · exact nofun
  · rintro ⟨hopen, hinitial, -⟩
    exact absurd hopen hinitial

/-- **One response for a connection**: in a run in which no read fails and the server can be reached,
whatever happens in the name of a session happens while a connection is open on its number; every
connection that was accepted is open and has had no response, or has had one, from a session of its
number, and is closed; and of the descriptors two for each client are open but for those that a response
has closed. -/
theorem clients_run {alpha : ℚ} {openFds : Finset Nat} {serverSockfd : Nat} {turns : List Turn}
    {st : ProxyState} {evs : List ProxyEvent} (hworks : ∀ turn ∈ turns, turn.Works)
    (hrun : Machine.run (iterate alpha serverSockfd) (.start openFds serverSockfd) turns =
      .ok (st, evs)) :
    ∃ c, Follows Clients.next .start evs c ∧ c.numbers = st.sessions.map Session.clientFd ∧
      (∀ fd, fd ∈ c.opened ↔ st.IsClient (insert serverSockfd openFds) fd) ∧
      (∀ k < st.sessions.length, c.IsOpen k ∧ c.answered.count k = 0 ∨
        ¬ c.IsOpen k ∧ c.answered.count k = 1) ∧
      c.answered.length = evs.countP ProxyEvent.isDownstream ∧
      evs.countP ProxyEvent.isDownstream + c.opened.card = evs.countP ProxyEvent.isAccepted ∧
      st.openFds.card + evs.countP ProxyEvent.isDownstream =
        (insert serverSockfd openFds).card + 2 * evs.countP ProxyEvent.isAccepted := by
  obtain ⟨htop, c, hc⟩ : InRecord (insert serverSockfd openFds) evs st :=
    Machine.run_along (P := fun _ turn => turn.Works) (Q := InRecord (insert serverSockfd openFds))
      (fun _ _ _ _ _ hst hturn hstep => hst.iterate hturn hstep)
      (inRecord_start openFds serverSockfd)
      (Machine.along_of_forall (fun turn hturn _ => hworks turn hturn) _) hrun
  have hcount : evs.countP ProxyEvent.isDownstream + c.opened.card =
      evs.countP ProxyEvent.isAccepted + 0 := hc.log.countP_eq fun _ _ _ he => Clients.opened_next he
  have hnumbers : evs.countP (fun _ => false) + c.numbers.length =
      evs.countP ProxyEvent.isAccepted + 0 := hc.log.countP_eq fun _ _ _ he => Clients.numbers_next he
  have hanswered : evs.countP (fun _ => false) + c.answered.length =
      evs.countP ProxyEvent.isDownstream + 0 :=
    hc.log.countP_eq fun _ _ _ he => Clients.answered_next he
  simp only [List.countP_false, Function.const_apply] at hnumbers hanswered
  have hsessions : c.numbers.length = st.sessions.length := by
    rw [hc.numbers, List.length_map]
  have honce : c.Once :=
    hc.log.invariant (fun _ _ _ h he => h.next he) Clients.once_start
  have hcard := htop.card_openFds fun _ => hc.opened
  refine ⟨c, hc.log, hc.numbers, fun _ => hc.opened, fun k hk => ?_, by omega, hcount, by omega⟩
  have hiff := honce.answered k (hsessions ▸ hk)
  by_cases hmem : k ∈ c.answered
  · exact Or.inr ⟨hiff.mp hmem, List.count_eq_one_of_mem honce.nodup hmem⟩
  · exact Or.inl ⟨not_not.mp fun hclosed => hmem (hiff.mpr hclosed), List.count_eq_zero.mpr hmem⟩

/-- Session 1 reads a request that is not forwarded, and every other one a request for a page. -/
def staleTurn : Turn :=
  { pageTurn with client := fun sid => if sid = 1 then postRequest else wholeRequest }

/-- Two clients, one behind the other: the second one is answered by the session of the first. -/
theorem clients_run_pages : ∃ st evs c,
    Machine.run (iterate 1 3) (.start {0, 1, 2} 3) [pageTurn, staleTurn] = .ok (st, evs) ∧
    Follows Clients.next .start evs c ∧ c.numbers = st.sessions.map Session.clientFd ∧
    (∀ fd, fd ∈ c.opened ↔ st.IsClient (insert 3 {0, 1, 2}) fd) ∧
    (∀ k < st.sessions.length, c.IsOpen k ∧ c.answered.count k = 0 ∨
      ¬ c.IsOpen k ∧ c.answered.count k = 1) ∧
    c.answered.length = evs.countP ProxyEvent.isDownstream ∧
    evs.countP ProxyEvent.isDownstream + c.opened.card = evs.countP ProxyEvent.isAccepted ∧
    st.openFds.card + evs.countP ProxyEvent.isDownstream =
      (insert 3 {0, 1, 2} : Finset Nat).card + 2 * evs.countP ProxyEvent.isAccepted := by
  have hrun : (Machine.run (iterate 1 3) (.start {0, 1, 2} 3) [pageTurn, staleTurn]).map
      (fun r => r.2.countP ProxyEvent.isDownstream) = .ok 2 := by
    decide +kernel
  obtain ⟨⟨st, evs⟩, hrun, -⟩ := map_eq_ok.mp hrun
  have hworks : ∀ turn ∈ [pageTurn, staleTurn], turn.Works := by
    intro turn hturn sid
    obtain rfl | rfl : turn = pageTurn ∨ turn = staleTurn := by simpa using hturn
    · exact ⟨nofun, rfl⟩
    · by_cases hsid : sid = 1
      · simp only [staleTurn, if_pos hsid]
        exact ⟨nofun, rfl⟩
      · simp only [staleTurn, if_neg hsid]
        exact ⟨nofun, rfl⟩
  obtain ⟨c, hc⟩ := clients_run hworks hrun
  exact ⟨st, evs, c, hrun, hc⟩

/-- Both responses are those of session 0; they go to connection 0 and to connection 1. -/
example : (Machine.run (iterate 1 3) (.start {0, 1, 2} 3) [pageTurn, staleTurn]).map
    (fun r => (r.2.filterMap ProxyEvent.responder,
      (r.2.foldlM Clients.next .start).map Clients.answered)) = .ok ([0, 0], some [0, 1]) := by
  decide +kernel

end VideoCdn
