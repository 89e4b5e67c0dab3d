import VideoCdn.Deadlock
import VideoCdn.Isolation
import Mathlib.Data.Fintype.Card

/-!
# Connections that are never closed (`main` of `src/proxy.c`)

`handle_server_recv` closes the connection to the client, and leaves the one to the server open.

* `Turn.Works` — a turn in which no read from a client fails and the server can be reached.
* `ProxyState.Holds` — the connection to the server that a session stores.
* `Holding`, `TopHolding` — the invariants: what the sessions hold is open, and no two hold the same.
* `leak_run` — **the leak**: in a run of such turns every client that was ever accepted holds a
  connection to the server, so that all of them together are fewer than `FD_SETSIZE`.
-/

set_option autoImplicit false

namespace VideoCdn

open CLib

/-- No read fails, and the server can be reached. -/
def Turn.Works (turn : Turn) : Prop :=
  ∀ sid, (turn.client sid).read ≠ none ∧ (turn.client sid).connect = .connected

/-- Session `sid` stores `fd` as its connection to the server. -/
def ProxyState.Holds (st : ProxyState) (sid fd : Nat) : Prop :=
  ∃ node, st.sessions[sid]? = some node ∧ node.serverFd = some fd

def ProxyState.AllConnected (st : ProxyState) : Prop :=
  ∀ sid < st.sessions.length, ∃ fd, st.Holds sid fd

/-- The numbers `initial` are open, and not in use; the sessions hold open numbers of their own. -/
structure Holding (initial : Finset Nat) (st : ProxyState) : Prop where
  base : initial ⊆ st.openFds
  client : ∀ node ∈ st.sessions, node.clientFd ∉ initial
  held : ∀ {sid fd}, st.Holds sid fd → fd ∈ st.openFds ∧ fd ∉ initial
  once : ∀ {sid sid' fd}, st.Holds sid fd → st.Holds sid' fd → sid = sid'
  watched : st.readyToRead ⊆ st.openFds

/-- At the top of the loop every session holds a number. -/
structure TopHolding (initial : Finset Nat) (st : ProxyState) : Prop where
  holding : Holding initial st
  none_awaited : NoneAwaited st
  connected : st.AllConnected

/-! ## A new connection -/

/-- Session `sid` has another connection to the server, and may be watching it. -/
structure Connects (sid : Nat) (node : Session) (st st' : ProxyState) : Prop where
  openFds : st'.openFds = insert (st.newServer node) (st.closeServer node).openFds
  readyToRead : st'.readyToRead ⊆ insert (st.newServer node) st.readyToRead
  session : ∃ node', st'.sessions = st.sessions.set sid node' ∧
    node'.clientFd = node.clientFd ∧ node'.serverFd = some (st.newServer node)

theorem Reconnected.connects {sid : Nat} {node : Session} {st st' : ProxyState}
    (h : Reconnected sid node st st') : Connects sid node st st' := by
  refine ⟨h.openFds, ?_, h.session⟩
  rw [h.readyToRead]
  exact Finset.subset_insert _ _

theorem ClientStep.connects {env : ClientRecv} {sid : Nat} {node : Session} {st st' : ProxyState}
    {evs : List ProxyEvent} (hread : env.read ≠ none) (hconnect : env.connect = .connected)
    (h : ClientStep env sid node st st' evs) : Connects sid node st st' := by
  cases h with
  | readError hnone => exact absurd hnone hread
  | noServer _ _ hno => exact absurd hconnect hno
  | refused _ _ => exact (Reconnected.of_reconnect sid node st).connects
  | refusedRewritten _ _ _ _ _ htrack => exact (Reconnected.of_trackChunk htrack).connects
  | forwarded _ _ _ _ _ htrack _ => exact (Reconnected.of_trackChunk htrack).connects
  | forwardedReady _ _ st₂ _ _ htrack _ _ =>
    have hre := Reconnected.of_trackChunk htrack
    refine ⟨hre.openFds, ?_, hre.session⟩
    show insert (st.newServer node) st₂.readyToRead ⊆ _
    rw [hre.readyToRead]

theorem ProxyState.mem_closeServer {st : ProxyState} {node : Session} {fd : Nat} :
    fd ∈ (st.closeServer node).openFds ↔ fd ∈ st.openFds ∧ node.serverFd ≠ some fd := by
  unfold closeServer
  cases node.serverFd with
  | none => simp
  | some serverFd =>
    unfold close
    rw [Finset.mem_erase, and_comm, ne_eq, ne_eq, Option.some.injEq, eq_comm]

section Holding
variable {initial : Finset Nat} {alpha : ℚ} {turn : Turn} {sid : Nat} {node : Session}
  {st st' : ProxyState}

theorem Connects.holds_iff (h : Connects sid node st st') (hnode : st.sessions[sid]? = some node)
    {sid' fd : Nat} :
    st'.Holds sid' fd ↔ (sid' ≠ sid ∧ st.Holds sid' fd) ∨ (sid' = sid ∧ fd = st.newServer node) := by
  obtain ⟨node', hset, -, hserver⟩ := h.session
  have hlt : sid < st.sessions.length := (List.getElem?_eq_some_iff.mp hnode).1
  unfold ProxyState.Holds
  rw [hset]
  by_cases hsid : sid' = sid
  · subst hsid
    rw [List.getElem?_set_self hlt]
    simp [hserver, eq_comm]
  · rw [List.getElem?_set_ne (Ne.symm hsid)]
    simp [hsid]

/-- A number that is watched at the top of the loop is held by no session. -/
theorem NoneAwaited.not_holds (h : NoneAwaited st) {fd : Nat} (hmem : fd ∈ st.readyToRead)
    (sid' : Nat) : ¬ st.Holds sid' fd := by
  rintro ⟨p, hp, hfd⟩
  exact h p (List.mem_of_getElem? hp) fd hfd hmem

/-- **The client's part**: the new number is the session's own, and nobody holds the client's. -/
theorem Holding.connects (h : Holding initial st) (hnone : NoneAwaited st)
    (hnode : st.sessions[sid]? = some node) (hready : node.clientFd ∈ st.readyToRead)
    (hconn : Connects sid node st st') :
    Holding initial st' ∧ Awaited sid (st.newServer node) st' ∧
      ∀ sid', ¬ st'.Holds sid' node.clientFd := by
  have hnew : st.newServer node ∉ (st.closeServer node).openFds := lowestFree_notMem _
  have hkept : ∀ {fd}, fd ∈ st.openFds → node.serverFd ≠ some fd →
      fd ∈ (st.closeServer node).openFds := fun hfd hne => ProxyState.mem_closeServer.mpr ⟨hfd, hne⟩
  have hbase : ∀ {fd}, fd ∈ initial → fd ∈ (st.closeServer node).openFds :=
    fun hfd => hkept (h.base hfd) fun heq => (h.held ⟨node, hnode, heq⟩).2 hfd
  have hother : ∀ {sid' fd}, sid' ≠ sid → st.Holds sid' fd → fd ∈ (st.closeServer node).openFds :=
    fun hne hold => hkept (h.held hold).1 fun heq => hne (h.once hold ⟨node, hnode, heq⟩)
  have hwatched : ∀ {fd}, fd ∈ st.readyToRead → fd ∈ (st.closeServer node).openFds :=
    fun hmem => hkept (h.watched hmem) fun heq => hnone.not_holds hmem sid ⟨node, hnode, heq⟩
  obtain ⟨node', hset, hclient, hserver⟩ := hconn.session
  have hlt : sid < st.sessions.length := (List.getElem?_eq_some_iff.mp hnode).1
  refine ⟨⟨?_, ?_, ?_, ?_, ?_⟩, ⟨⟨node', ?_, hserver⟩, ?_⟩, ?_⟩
  · rw [hconn.openFds]
    exact fun fd hfd => Finset.mem_insert_of_mem (hbase hfd)
  · intro p hp
    rw [hset] at hp
    rcases List.mem_or_eq_of_mem_set hp with hp | rfl
    · exact h.client p hp
    · rw [hclient]
      exact h.client node (List.mem_of_getElem? hnode)
  · intro sid' fd hold
    rw [hconn.openFds]
    rcases (hconn.holds_iff hnode).mp hold with ⟨hne, hold⟩ | ⟨-, rfl⟩
    · exact ⟨Finset.mem_insert_of_mem (hother hne hold), (h.held hold).2⟩
    · exact ⟨Finset.mem_insert_self _ _, fun hmem => hnew (hbase hmem)⟩
  · intro s s' fd hold hold'
    rcases (hconn.holds_iff hnode).mp hold with ⟨hne, hold⟩ | ⟨hs, rfl⟩
    · rcases (hconn.holds_iff hnode).mp hold' with ⟨-, hold'⟩ | ⟨-, rfl⟩
      · exact h.once hold hold'
      · exact absurd (hother hne hold) hnew
    · rcases (hconn.holds_iff hnode).mp hold' with ⟨hne, hold'⟩ | ⟨hs', -⟩
      · exact absurd (hother hne hold') hnew
      · rw [hs, hs']
  · rw [hconn.openFds]
    intro fd hmem
    rcases Finset.mem_insert.mp (hconn.readyToRead hmem) with rfl | hmem
    · exact Finset.mem_insert_self _ _
    · exact Finset.mem_insert_of_mem (hwatched hmem)
  · rw [hset, List.getElem?_set_self hlt]
  · intro p hp fd hfd hmem
    rcases Finset.mem_insert.mp (hconn.readyToRead hmem) with heq | hmem
    · exact heq
    · rw [hset] at hp
      rcases List.mem_or_eq_of_mem_set hp with hp | rfl
      · exact absurd hmem (hnone p hp fd hfd)
      · exact Option.some.inj (hfd.symm.trans hserver)
  · intro sid' hold
    rcases (hconn.holds_iff hnode).mp hold with ⟨-, hold⟩ | ⟨-, heq⟩
    · exact hnone.not_holds hready sid' hold
    · exact hnew (heq ▸ hwatched hready)

theorem holds_served (hnode : st.sessions[sid]? = some node) (fd : Nat) (bitrate : List Int)
    (trackers : Trackers) {sid' fd' : Nat} :
    ProxyState.Holds { st.served sid node fd bitrate with trackers := trackers } sid' fd' ↔
      st.Holds sid' fd' := by
  have hlt : sid < st.sessions.length := (List.getElem?_eq_some_iff.mp hnode).1
  unfold ProxyState.Holds ProxyState.served
  dsimp only
  by_cases hsid : sid' = sid
  · subst hsid
    rw [List.getElem?_set_self hlt, hnode]
    simp
  · rw [List.getElem?_set_ne (Ne.symm hsid)]

/-- A response is passed on: the client's number is closed, and what the sessions hold stays open. -/
theorem Holding.served (h : Holding initial st) (hnode : st.sessions[sid]? = some node)
    (hfree : ∀ sid', ¬ st.Holds sid' node.clientFd) (fd : Nat) (bitrate : List Int)
    (trackers : Trackers) :
    Holding initial { st.served sid node fd bitrate with trackers := trackers } ∧
      (st.AllConnected →
        ProxyState.AllConnected { st.served sid node fd bitrate with trackers := trackers }) := by
  have hholds := @holds_served sid node st hnode fd bitrate trackers
  refine ⟨⟨?_, ?_, ?_, ?_, ?_⟩, ?_⟩
  · intro fd' hfd'
    refine Finset.mem_erase.mpr ⟨?_, h.base hfd'⟩
    rintro rfl
    exact h.client node (List.mem_of_getElem? hnode) hfd'
  · intro q hq
    rcases List.mem_or_eq_of_mem_set hq with hq | rfl
    · exact h.client q hq
    · exact h.client node (List.mem_of_getElem? hnode)
  · intro sid' fd' hold
    rw [hholds] at hold
    refine ⟨Finset.mem_erase.mpr ⟨?_, (h.held hold).1⟩, (h.held hold).2⟩
    rintro rfl
    exact hfree sid' hold
  · intro s s' fd' hold hold'
    rw [hholds] at hold hold'
    exact h.once hold hold'
  · exact Finset.erase_subset_erase _ ((Finset.erase_subset _ _).trans h.watched)
  · intro hall sid' hsid'
    have hlength : (st.served sid node fd bitrate).sessions.length = st.sessions.length :=
      List.length_set
    obtain ⟨fd', hold⟩ := hall sid' (hlength ▸ hsid')
    exact ⟨fd', hholds.mpr hold⟩

/-- **The server's part**. -/
theorem Holding.serveServer (h : Holding initial st) {fd : Nat} (hawaited : Awaited sid fd st)
    (hnode : st.sessions[sid]? = some node) (hfree : ∀ sid', ¬ st.Holds sid' node.clientFd)
    (hall : st.AllConnected) {evs : List ProxyEvent}
    (hserver : VideoCdn.serveServer alpha turn sid st = .ok (st', evs)) : TopHolding initial st' := by
  rcases serveServer_step hserver with ⟨rfl, -, hidle⟩ | ⟨p, fd', hp, hfd', hmem, hstep⟩
  · obtain ⟨q, hq, hserverFd⟩ := hawaited.session
    exact ⟨h, hawaited.unwatched (hidle q fd hq hserverFd), hall⟩
  rw [hnode, Option.some.injEq] at hp
  subst hp
  rw [← hawaited.only node (List.mem_of_getElem? hnode) fd' hfd' hmem] at hawaited
  cases hstep with
  | passed fd₁ bitrate out hfd₁ =>
    rw [hfd', Option.some.injEq] at hfd₁
    subst hfd₁
    obtain ⟨hholding, hconnected⟩ := h.served hnode hfree fd' bitrate st.trackers
    exact ⟨hholding, hawaited.served hfd' bitrate, hconnected hall⟩
  | measured fd₁ bitrate out ts trackers log hfd₁ _ _ =>
    rw [hfd', Option.some.injEq] at hfd₁
    subst hfd₁
    obtain ⟨hholding, hconnected⟩ := h.served hnode hfree fd' bitrate trackers
    exact ⟨hholding, hawaited.served hfd' bitrate, hconnected hall⟩

/-! ## The loop -/

/-- A client that is not ready is left alone. -/
theorem serveClient_cases {evs : List ProxyEvent}
    (hrun : VideoCdn.serveClient turn sid st = .ok (st', evs)) :
    (st' = st ∧ evs = [] ∧
      ∀ node, st.sessions[sid]? = some node → node.clientFd ∉ st.readyToRead) ∨
      ∃ node, st.sessions[sid]? = some node ∧ node.clientFd ∈ st.readyToRead ∧
        ClientStep (turn.client sid) sid node st st' evs := by
  unfold VideoCdn.serveClient at hrun
  cases hnode : st.sessions[sid]? with
  | none =>
    rw [hnode] at hrun
    cases hrun
    exact Or.inl ⟨rfl, rfl, nofun⟩
  | some node =>
    rw [hnode] at hrun
    dsimp only at hrun
    rw [bind_eq_ok] at hrun
    obtain ⟨ready, hready, hrun⟩ := hrun
    have hready := fdIsset_eq_ok hready
    simp only [Option.some.injEq, exists_eq_left'] at hready
    split at hrun
    · rename_i hset
      exact Or.inr ⟨node, rfl, hready.mp hset, handleClientRecv_step hrun⟩
    · rename_i hset
      cases hrun
      refine Or.inl ⟨rfl, rfl, fun node' hnode' hmem => hset (hready.mpr ?_)⟩
      rw [Option.some.injEq] at hnode'
      rwa [hnode']

/-- **Step lemma**: the body of the loop connects its session. -/
theorem Holding.serveSession (h : Holding initial st) (hnone : NoneAwaited st)
    (hworks : turn.Works)
    (hpending : ∀ sid' < st.sessions.length, (∃ fd, st.Holds sid' fd) ∨
      sid' = sid ∧ ∃ node, st.sessions[sid]? = some node ∧ node.clientFd ∈ st.readyToRead)
    {evs : List ProxyEvent} (hrun : VideoCdn.serveSession alpha turn st sid = .ok (st', evs)) :
    TopHolding initial st' := by
  obtain ⟨st₁, evs₁, evs₂, hclient, hserver, -⟩ := serveSession_eq_ok.mp hrun
  rcases serveClient_cases hclient with ⟨rfl, -, hidle⟩ | ⟨node, hnode, hready, hstep⟩
  · have hall : st₁.AllConnected := by
      intro sid' hlt
      rcases hpending sid' hlt with hold | ⟨-, node, hnode, hready⟩
      · exact hold
      · exact absurd hready (hidle node hnode)
    rcases serveServer_step hserver with ⟨rfl, -, -⟩ | ⟨p, fd, hp, hfd, hmem, -⟩
    · exact ⟨h, hnone, hall⟩
    · exact absurd hmem (hnone p (List.mem_of_getElem? hp) fd hfd)
  · obtain ⟨hread, hconnect⟩ := hworks sid
    have hconn := hstep.connects hread hconnect
    obtain ⟨hholding, hawaited, hfree⟩ := h.connects hnone hnode hready hconn
    obtain ⟨node', hset, hclientFd, -⟩ := hconn.session
    have hlt : sid < st.sessions.length := (List.getElem?_eq_some_iff.mp hnode).1
    have hnode' : st₁.sessions[sid]? = some node' := by
      rw [hset, List.getElem?_set_self hlt]
    refine hholding.serveServer hawaited hnode' (by rwa [hclientFd]) ?_ hserver
    intro sid' hlt'
    by_cases hsid : sid' = sid
    · exact ⟨_, (hconn.holds_iff hnode).mpr (Or.inr ⟨hsid, rfl⟩)⟩
    · rw [hset, List.length_set] at hlt'
      rcases hpending sid' hlt' with ⟨fd, hold⟩ | ⟨heq, -⟩
      · exact ⟨fd, (hconn.holds_iff hnode).mpr (Or.inl ⟨hsid, hold⟩)⟩
      · exact absurd heq hsid

/-- Once all sessions are connected, they stay so. -/
theorem TopHolding.run (h : TopHolding initial st) (hworks : turn.Works) {sids : List Nat}
    {evs : List ProxyEvent}
    (hrun : Machine.run (VideoCdn.serveSession alpha turn) st sids = .ok (st', evs)) :
    TopHolding initial st' := by
  refine Machine.run_along_state (P := fun _ _ => True) (R := TopHolding initial)
    (fun st sid st' evs hst _ hstep => ?_) h (Machine.along_of_forall (fun _ _ _ => trivial) st) hrun
  exact hst.holding.serveSession hst.none_awaited hworks (fun sid' hlt => Or.inl (hst.connected sid' hlt))
    hstep

theorem TopHolding.selected (h : TopHolding initial st) (ready : Finset Nat) :
    TopHolding initial (st.selected ready) := by
  refine ⟨⟨h.holding.base, h.holding.client, h.holding.held, h.holding.once, ?_⟩, ?_, h.connected⟩
  · exact Finset.inter_subset_left.trans h.holding.watched
  · exact fun p hp fd hfd hmem => h.none_awaited p hp fd hfd (Finset.mem_inter.mp hmem).1

theorem holds_accepting {fd : Nat} : st.accepting.Holds sid fd ↔ st.Holds sid fd := by
  constructor
  · rintro ⟨p, hp, hfd⟩
    rcases getElem?_accepting.mp hp with hp | ⟨-, rfl⟩
    · exact ⟨p, hp, hfd⟩
    · cases hfd
  · rintro ⟨p, hp, hfd⟩
    exact ⟨p, getElem?_accepting.mpr (Or.inl hp), hfd⟩

/-- A new client is the only session without a connection, and is ready. -/
theorem TopHolding.accepting (h : TopHolding initial st) :
    Holding initial st.accepting ∧ NoneAwaited st.accepting ∧
      ∀ sid < st.accepting.sessions.length, (∃ fd, st.accepting.Holds sid fd) ∨
        sid = st.sessions.length ∧ ∃ node, st.accepting.sessions[st.sessions.length]? = some node ∧
          node.clientFd ∈ st.accepting.readyToRead := by
  have hnew : lowestFree st.openFds ∉ st.openFds := lowestFree_notMem _
  refine ⟨⟨?_, ?_, ?_, ?_, ?_⟩, ?_, ?_⟩
  · exact h.holding.base.trans (Finset.subset_insert _ _)
  · intro p hp
    rcases List.mem_append.mp hp with hp | hp
    · exact h.holding.client p hp
    · rw [List.mem_singleton.mp hp]
      exact fun hmem => hnew (h.holding.base hmem)
  · intro sid fd hold
    obtain ⟨hopen, hfree⟩ := h.holding.held (holds_accepting.mp hold)
    exact ⟨Finset.mem_insert_of_mem hopen, hfree⟩
  · exact fun hold hold' => h.holding.once (holds_accepting.mp hold) (holds_accepting.mp hold')
  · exact Finset.insert_subset_insert _ h.holding.watched
  · intro p hp fd hfd hmem
    obtain ⟨sid, hsid⟩ := List.mem_iff_getElem?.mp hp
    have hold : st.Holds sid fd := holds_accepting.mp ⟨p, hsid, hfd⟩
    rcases Finset.mem_insert.mp hmem with rfl | hmem
    · exact hnew (h.holding.held hold).1
    · exact h.none_awaited.not_holds hmem sid hold
  · intro sid hlt
    by_cases hsid : sid = st.sessions.length
    · refine Or.inr ⟨hsid, _, getElem?_accepting.mpr (Or.inr ⟨rfl, rfl⟩), ?_⟩
      exact Finset.mem_insert_self _ _
    · have hlength : st.accepting.sessions.length = st.sessions.length + 1 := List.length_append
      obtain ⟨fd, hold⟩ := h.connected sid (by omega)
      exact Or.inl ⟨fd, holds_accepting.mpr hold⟩

/-- A new client is served first. -/
theorem serveSessions_accepting {evs : List ProxyEvent} :
    serveSessions alpha turn st.accepting = .ok (st', evs) ↔ ∃ st₁ evs₁ evs₂,
      VideoCdn.serveSession alpha turn st.accepting st.sessions.length = .ok (st₁, evs₁) ∧
      Machine.run (VideoCdn.serveSession alpha turn) st₁ (List.range st.sessions.length).reverse =
        .ok (st', evs₂) ∧ evs = evs₁ ++ evs₂ := by
  have hlength : st.accepting.sessions.length = st.sessions.length + 1 := List.length_append
  have hsids : (List.range st.accepting.sessions.length).reverse =
      st.sessions.length :: (List.range st.sessions.length).reverse := by
    rw [hlength, List.range_succ, List.reverse_append]
    rfl
  unfold serveSessions
  rw [hsids, Machine.run_cons_eq_ok]

theorem TopHolding.iterate {serverSockfd : Nat} (h : TopHolding initial st) (hworks : turn.Works)
    {evs : List ProxyEvent} (hturn : VideoCdn.iterate alpha serverSockfd st turn = .ok (st', evs)) :
    TopHolding initial st' := by
  cases iterate_step hturn with
  | failed _ => exact h
  | idle ready _ _ _ _ hserve => exact (h.selected ready).run hworks hserve
  | accepted ready _ evs _ _ hserve =>
    obtain ⟨hholding, hnone, hpending⟩ := (h.selected ready).accepting
    obtain ⟨st₁, evs₁, evs₂, hfirst, hrest, -⟩ := serveSessions_accepting.mp hserve
    exact (hholding.serveSession hnone hworks hpending hfirst).run hworks hrest

/-- The numbers that the sessions hold are as many as the sessions. -/
theorem TopHolding.exists_held (h : TopHolding initial st) : ∃ held : Finset Nat,
    (∀ fd, fd ∈ held ↔ ∃ sid, st.Holds sid fd) ∧ held.card = st.sessions.length := by
  have hall : ∀ i : Fin st.sessions.length, ∃ fd, st.Holds i fd := fun i => h.connected i i.isLt
  choose fdOf hfdOf using hall
  have hinj : Function.Injective fdOf := by
    intro i j heq
    exact Fin.ext (h.holding.once (hfdOf i) (heq ▸ hfdOf j))
  refine ⟨Finset.univ.image fdOf, fun fd => ?_, ?_⟩
  · rw [Finset.mem_image]
    constructor
    · rintro ⟨i, -, rfl⟩
      exact ⟨i, hfdOf i⟩
    · rintro ⟨sid, hold⟩
      obtain ⟨node, hnode, hserver⟩ := hold
      let i : Fin st.sessions.length := ⟨sid, (List.getElem?_eq_some_iff.mp hnode).1⟩
      obtain ⟨node', hnode', hserver'⟩ : st.Holds sid (fdOf i) := hfdOf i
      rw [hnode, Option.some.injEq] at hnode'
      rw [← hnode', hserver, Option.some.injEq] at hserver'
      exact ⟨i, Finset.mem_univ i, hserver'.symm⟩
  · rw [Finset.card_image_of_injective _ hinj, Finset.card_univ, Fintype.card_fin]

/-- The numbers that the sessions hold and those that were open are all different. -/
theorem TopHolding.length_add_card_le (h : TopHolding initial st) {n : Nat}
    (hheld : ∀ sid fd, st.Holds sid fd → fd < n) (hinitial : ∀ fd ∈ initial, fd < n) :
    st.sessions.length + initial.card ≤ n := by
  obtain ⟨held, hmem, hcard⟩ := h.exists_held
  have hdisjoint : Disjoint held initial := by
    refine Finset.disjoint_left.mpr (fun fd hfd hbase => ?_)
    obtain ⟨sid, hold⟩ := (hmem fd).mp hfd
    exact (h.holding.held hold).2 hbase
  have hrange : held ∪ initial ⊆ Finset.range n := by
    intro fd hfd
    rw [Finset.mem_range]
    rcases Finset.mem_union.mp hfd with hfd | hfd
    · obtain ⟨sid, hold⟩ := (hmem fd).mp hfd
      exact hheld sid fd hold
    · exact hinitial fd hfd
  have hle := Finset.card_le_card hrange
  rwa [Finset.card_union_of_disjoint hdisjoint, hcard, Finset.card_range] at hle

end Holding

/-- In front of the loop there are no sessions. -/
theorem topHolding_start (openFds : Finset Nat) (serverSockfd : Nat) :
    TopHolding (insert serverSockfd openFds) (.start openFds serverSockfd) := by
  refine ⟨⟨fun fd hfd => hfd, nofun, ?_, ?_, ?_⟩, nofun, nofun⟩
  · rintro sid fd ⟨p, hp, -⟩
    cases hp
  · rintro sid sid' fd ⟨p, hp, -⟩
    cases hp
  · exact Finset.singleton_subset_iff.mpr (Finset.mem_insert_self _ _)

/-- **The leak**: as long as no read fails and the server can be reached, every client that was ever
accepted holds an open connection to the server, and no two hold the same; together with the numbers
that were open in front of the loop they are at most `FD_SETSIZE`. -/
theorem leak_run {alpha : ℚ} {openFds : Finset Nat} {serverSockfd : Nat} {turns : List Turn}
    {st : ProxyState} {evs : List ProxyEvent}
    (hinitial : ∀ fd ∈ insert serverSockfd openFds, fd < FD_SETSIZE)
    (hworks : ∀ turn ∈ turns, turn.Works)
    (hrun : Machine.run (iterate alpha serverSockfd) (.start openFds serverSockfd) turns =
      .ok (st, evs)) :
    (∀ sid < st.sessions.length, ∃ fd ∈ st.openFds, st.Holds sid fd ∧
      ∀ sid', st.Holds sid' fd → sid' = sid) ∧
    st.sessions.length + (insert serverSockfd openFds).card ≤ FD_SETSIZE := by
  have htop : TopHolding (insert serverSockfd openFds) st :=
    Machine.run_along_state (P := fun _ turn => turn.Works)
      (fun _ _ _ _ hst hturn hstep => hst.iterate hturn hstep) (topHolding_start openFds serverSockfd)
      (Machine.along_of_forall (fun turn hturn _ => hworks turn hturn) _) hrun
  refine ⟨fun sid hlt => ?_, ?_⟩
  · obtain ⟨fd, hold⟩ := htop.connected sid hlt
    exact ⟨fd, (htop.holding.held hold).1, hold, fun _ hold' => htop.holding.once hold' hold⟩
  · refine htop.length_add_card_le (fun sid fd hold => ?_) hinitial
    obtain ⟨p, hp, hserver⟩ := hold
    exact (attended_run hrun).2 sid fd ⟨p, hp, Or.inr hserver⟩

/-- Two clients, one behind the other: the second one gets the first one's number, and another
connection to the server. -/
theorem leak_run_pages : ∃ st evs,
    Machine.run (iterate 1 3) (.start {0, 1, 2} 3) [pageTurn, pageTurn] = .ok (st, evs) ∧
    (∀ sid < st.sessions.length, ∃ fd ∈ st.openFds, st.Holds sid fd ∧
      ∀ sid', st.Holds sid' fd → sid' = sid) ∧
    st.sessions.length + (insert 3 {0, 1, 2} : Finset Nat).card ≤ FD_SETSIZE := by
  have hrun : (Machine.run (iterate 1 3) (.start {0, 1, 2} 3) [pageTurn, pageTurn]).map
      (fun r => r.1.sessions.length) = .ok 2 := by
    decide +kernel
  obtain ⟨⟨st, evs⟩, hrun, -⟩ := map_eq_ok.mp hrun
  have hworks : ∀ turn ∈ [pageTurn, pageTurn], turn.Works := by
    intro turn hturn
    obtain rfl : turn = pageTurn := by simpa using hturn
    exact fun _ => ⟨nofun, rfl⟩
  exact ⟨st, evs, hrun, leak_run (by decide) hworks hrun⟩

end VideoCdn
