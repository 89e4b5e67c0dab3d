import VideoCdn.Proxy

/-!
# The listening socket in `ready_to_read`

One set is what `select` watches and what it leaves behind.

* `ListenInv` — the listening socket stays open and belongs to no session, so that no handler can
  close it, clear it or set it.
* `listening_iff` — in every reachable state, the socket is in the set iff every `select` so far has
  found it ready: once it was not, no connection is noticed again.
* `listening_lost` — one client that sends twice.
-/

set_option autoImplicit false

namespace VideoCdn

open CLib

/-- The listening socket is open and no session has its number. -/
structure ListenInv (serverSockfd : Nat) (st : ProxyState) : Prop where
  isOpen : serverSockfd ∈ st.openFds
  client : ∀ node ∈ st.sessions, node.clientFd ≠ serverSockfd
  server : ∀ node ∈ st.sessions, node.serverFd ≠ some serverSockfd

section ListenInv
variable {serverSockfd : Nat} {st : ProxyState}

theorem ListenInv.lowestFree_ne (h : ListenInv serverSockfd st) :
    lowestFree st.openFds ≠ serverSockfd := by
  intro heq
  exact lowestFree_notMem st.openFds (heq ▸ h.isOpen)

theorem ListenInv.close (h : ListenInv serverSockfd st) {fd : Nat} (hfd : fd ≠ serverSockfd) :
    ListenInv serverSockfd (st.close fd) :=
  ⟨Finset.mem_erase.mpr ⟨hfd.symm, h.isOpen⟩, h.client, h.server⟩

theorem ListenInv.closeServer (h : ListenInv serverSockfd st) {node : Session}
    (hnode : node ∈ st.sessions) : ListenInv serverSockfd (st.closeServer node) := by
  unfold ProxyState.closeServer
  cases hs : node.serverFd with
  | none => exact h
  | some fd =>
    refine h.close (fun heq => h.server node hnode ?_)
    rw [hs, heq]

theorem ListenInv.setSession (h : ListenInv serverSockfd st) (sid : Nat) (node : Session)
    (hc : node.clientFd ≠ serverSockfd) (hs : node.serverFd ≠ some serverSockfd) :
    ListenInv serverSockfd (st.setSession sid node) := by
  have hmem : ∀ p ∈ (st.setSession sid node).sessions, p ∈ st.sessions ∨ p = node := by
    intro p hp
    exact List.mem_or_eq_of_mem_set hp
  refine ⟨h.isOpen, fun p hp => ?_, fun p hp => ?_⟩
  · rcases hmem p hp with hp | rfl
    · exact h.client p hp
    · exact hc
  · rcases hmem p hp with hp | rfl
    · exact h.server p hp
    · exact hs

/-- The number of the new connection is not the listening socket's. -/
theorem ListenInv.newServer_ne (h : ListenInv serverSockfd st) {node : Session}
    (hnode : node ∈ st.sessions) : st.newServer node ≠ serverSockfd :=
  (h.closeServer hnode).lowestFree_ne

theorem ListenInv.reconnect (h : ListenInv serverSockfd st) (sid : Nat) {node : Session}
    (hnode : node ∈ st.sessions) : ListenInv serverSockfd (st.reconnect sid node) := by
  have hclosed := h.closeServer hnode
  have hopened : ListenInv serverSockfd { st.closeServer node with
      openFds := insert (st.newServer node) (st.closeServer node).openFds } :=
    ⟨Finset.mem_insert_of_mem hclosed.isOpen, hclosed.client, hclosed.server⟩
  apply hopened.setSession sid (node.connectedTo (st.newServer node)) (h.client node hnode)
  intro heq
  exact h.newServer_ne hnode (Option.some.inj heq)

end ListenInv

theorem ProxyState.readyToRead_closeServer (st : ProxyState) (node : Session) :
    (st.closeServer node).readyToRead = st.readyToRead := by
  unfold closeServer
  cases node.serverFd <;> rfl

theorem ProxyState.sessions_closeServer (st : ProxyState) (node : Session) :
    (st.closeServer node).sessions = st.sessions := by
  unfold closeServer
  cases node.serverFd <;> rfl

theorem ProxyState.readyToRead_reconnect (st : ProxyState) (sid : Nat) (node : Session) :
    (st.reconnect sid node).readyToRead = st.readyToRead :=
  st.readyToRead_closeServer node

/-- What is done for a chunk concerns the session and the trackers. -/
theorem trackChunk_state {now : Timespec} {sid : Nat} {node : Session} {file buffer buffer' : Bytes}
    {st st' : ProxyState} {evs : List ProxyEvent}
    (h : trackChunk now sid node file buffer st = .ok (buffer', st', evs)) :
    st' = st ∨ ∃ trackers,
      st' = { st.setSession sid { node with ts := some now } with trackers := trackers } := by
  rcases trackChunk_eq_ok.mp h with ⟨-, -, rfl, -⟩ | ⟨_, trackers, -, -, rfl, -⟩
  · exact Or.inl rfl
  · exact Or.inr ⟨trackers, rfl⟩

/-- The invariant, and whether the listening socket is in the set. -/
structure ListenState (serverSockfd : Nat) (watched : Prop) (st : ProxyState) : Prop where
  inv : ListenInv serverSockfd st
  watched_iff : serverSockfd ∈ st.readyToRead ↔ watched

section ListenState
variable {serverSockfd : Nat} {watched : Prop} {st : ProxyState}

theorem ListenState.reconnect (h : ListenState serverSockfd watched st) (sid : Nat)
    {node : Session} (hnode : node ∈ st.sessions) :
    ListenState serverSockfd watched (st.reconnect sid node) :=
  ⟨h.inv.reconnect sid hnode, by rw [st.readyToRead_reconnect]; exact h.watched_iff⟩

theorem ListenState.trackChunk (h : ListenState serverSockfd watched st) {env : ClientRecv}
    {sid : Nat} {node : Session} {file buffer buffer' : Bytes} {st₂ : ProxyState}
    {evs : List ProxyEvent} (hnode : node ∈ st.sessions)
    (htrack : VideoCdn.trackChunk env.now sid (node.connectedTo (st.newServer node)) file buffer
      (st.reconnect sid node) = .ok (buffer', st₂, evs)) :
    ListenState serverSockfd watched st₂ := by
  have hre := h.reconnect sid hnode
  rcases trackChunk_state htrack with rfl | ⟨trackers, rfl⟩
  · exact hre
  · have hset := hre.inv.setSession sid
      { node.connectedTo (st.newServer node) with ts := some env.now } (h.inv.client node hnode)
      (fun heq => h.inv.newServer_ne hnode (Option.some.inj heq))
    exact ⟨⟨hset.isOpen, hset.client, hset.server⟩, hre.watched_iff⟩

theorem ListenState.fdSet (h : ListenState serverSockfd watched st) {fd : Nat}
    (hfd : fd ≠ serverSockfd) :
    ListenState serverSockfd watched { st with readyToRead := insert fd st.readyToRead } := by
  refine ⟨⟨h.inv.isOpen, h.inv.client, h.inv.server⟩, ?_⟩
  rw [Finset.mem_insert, ← h.watched_iff]
  exact or_iff_right hfd.symm

theorem ListenState.served (h : ListenState serverSockfd watched st) (sid : Nat) {node : Session}
    (hnode : node ∈ st.sessions) {fd : Nat} (hfd : node.serverFd = some fd) (bitrate : List Int) :
    ListenState serverSockfd watched (st.served sid node fd bitrate) := by
  have hclient := h.inv.client node hnode
  have hserver : fd ≠ serverSockfd := fun heq => h.inv.server node hnode (by rw [hfd, heq])
  have hset := h.inv.setSession sid { node with bitrate := bitrate } hclient
    (h.inv.server node hnode)
  refine ⟨⟨Finset.mem_erase.mpr ⟨hclient.symm, h.inv.isOpen⟩, hset.client, hset.server⟩, ?_⟩
  unfold ProxyState.served
  rw [Finset.mem_erase, Finset.mem_erase, ← h.watched_iff]
  constructor
  · rintro ⟨-, -, hmem⟩
    exact hmem
  · intro hmem
    exact ⟨hclient.symm, hserver.symm, hmem⟩

/-- A new connection gets another number. -/
theorem ListenState.accepting (h : ListenState serverSockfd watched st) :
    ListenState serverSockfd watched st.accepting := by
  have hne := h.inv.lowestFree_ne
  refine ⟨⟨Finset.mem_insert_of_mem h.inv.isOpen, ?_, ?_⟩, (h.fdSet hne).watched_iff⟩
  · intro node hnode
    rcases List.mem_append.mp hnode with hnode | hnode
    · exact h.inv.client node hnode
    · rw [List.mem_singleton.mp hnode]
      exact hne
  · intro node hnode
    rcases List.mem_append.mp hnode with hnode | hnode
    · exact h.inv.server node hnode
    · rw [List.mem_singleton.mp hnode]
      simp [Session.new]

/-- **Step lemma**: the handlers neither close the listening socket nor touch its bit. -/
theorem listenState_kept (alpha : ℚ) (serverSockfd : Nat) (watched : Prop) :
    KeptByHandlers alpha (fun _ st => ListenState serverSockfd watched st) where
  client := by
    intro _ st sid node env st' _ h hp hstep
    have hnode : node ∈ st.sessions := List.mem_of_getElem? hp
    cases hstep with
    | readError _ => exact ⟨h.inv.close (h.inv.client node hnode), h.watched_iff⟩
    | noServer _ _ _ =>
      exact ⟨h.inv.closeServer hnode, by rw [st.readyToRead_closeServer]; exact h.watched_iff⟩
    | refused _ _ => exact h.reconnect sid hnode
    | refusedRewritten _ _ _ _ _ htrack => exact h.trackChunk hnode htrack
    | forwarded _ _ _ _ _ htrack _ => exact h.trackChunk hnode htrack
    | forwardedReady _ _ st₂ _ _ htrack _ _ =>
      exact (h.trackChunk hnode htrack).fdSet (h.inv.newServer_ne hnode)
  server := by
    intro _ st sid node env st' _ h hp hstep
    have hnode : node ∈ st.sessions := List.mem_of_getElem? hp
    cases hstep with
    | passed fd bitrate _ hfd => exact h.served sid hnode hfd bitrate
    | measured fd bitrate _ _ trackers _ hfd _ _ =>
      have hserved := h.served sid hnode hfd bitrate
      exact ⟨⟨hserved.inv.isOpen, hserved.inv.client, hserved.inv.server⟩, hserved.watched_iff⟩

end ListenState

/-! ## Whole runs -/

/-- Every `select` that succeeded has found the listening socket ready. -/
def AlwaysReady (serverSockfd : Nat) (turns : List Turn) : Prop :=
  ∀ turn ∈ turns, ∀ ready, turn.select = some ready → serverSockfd ∈ ready

theorem alwaysReady_snoc {serverSockfd : Nat} {turns : List Turn} {turn : Turn} :
    AlwaysReady serverSockfd (turns ++ [turn]) ↔ AlwaysReady serverSockfd turns ∧
      ∀ ready, turn.select = some ready → serverSockfd ∈ ready := by
  unfold AlwaysReady
  rw [List.forall_mem_append, List.forall_mem_singleton]

/-- The socket is in the set afterwards iff it was in it and is ready. -/
theorem ListenState.iterate {alpha : ℚ} {serverSockfd : Nat} {watched : Prop} {turn : Turn}
    {st st' : ProxyState} {evs : List ProxyEvent} (h : ListenState serverSockfd watched st)
    (hturn : VideoCdn.iterate alpha serverSockfd st turn = .ok (st', evs)) :
    ListenState serverSockfd
      (watched ∧ ∀ ready, turn.select = some ready → serverSockfd ∈ ready) st' := by
  have hselected : ∀ {ready}, turn.select = some ready →
      ListenState serverSockfd
        (watched ∧ ∀ ready, turn.select = some ready → serverSockfd ∈ ready)
        (st.selected ready) := by
    intro ready hselect
    refine ⟨⟨h.inv.isOpen, h.inv.client, h.inv.server⟩, ?_⟩
    unfold ProxyState.selected
    simp only [Finset.mem_inter, h.watched_iff, hselect, Option.some.injEq, forall_eq']
  cases iterate_step hturn with
  | failed hselect =>
    refine ⟨h.inv, ?_⟩
    simp only [h.watched_iff, hselect, reduceCtorEq, false_imp_iff, implies_true, and_true]
  | idle ready _ _ hselect _ hserve =>
    exact (listenState_kept alpha _ _).serveSessions [] (hselected hselect) hserve
  | accepted ready _ es hselect _ hserve =>
    exact (listenState_kept alpha _ _).serveSessions [] (hselected hselect).accepting hserve

/-- **The exact condition**: the listening socket is watched iff every `select` so far found it
ready. -/
theorem listening_iff {alpha : ℚ} {openFds : Finset Nat} {serverSockfd : Nat} {turns : List Turn}
    {st : ProxyState} {evs : List ProxyEvent}
    (h : Machine.run (iterate alpha serverSockfd) (.start openFds serverSockfd) turns =
      .ok (st, evs)) :
    serverSockfd ∈ st.readyToRead ↔ AlwaysReady serverSockfd turns := by
  have hrun : ListenState serverSockfd (AlwaysReady serverSockfd turns) st := by
    refine Machine.run_history
      (P := fun turns _ st => ListenState serverSockfd (AlwaysReady serverSockfd turns) st)
      ?_ ?_ h
    · refine ⟨⟨Finset.mem_insert_self _ _, ?_, ?_⟩, ?_⟩
      · exact fun node hnode => absurd hnode List.not_mem_nil
      · exact fun node hnode => absurd hnode List.not_mem_nil
      · exact iff_of_true (Finset.mem_singleton_self _) (fun turn ht => absurd ht List.not_mem_nil)
    · intro turns _ st₁ turn st₂ _ _ hst hturn
      rw [alwaysReady_snoc]
      exact hst.iterate hturn
  exact hrun.watched_iff

/-! ## A client that sends twice -/

/-- A request that is not forwarded. -/
def postRequest : ClientRecv := clientSends (ascii "POST / HTTP/1.1\r\n\r\n") (by decide)

/-- A turn in which `ready` is what `select` finds, and every client sends this request. -/
def postTurn (ready : Finset Nat) : Turn where
  select := some ready
  accept := true
  client := fun _ => postRequest
  server := fun _ => ⟨[], [], ⟨0, 0⟩⟩

/-- Whether the listening socket, on descriptor 3, is in the set after the turns. -/
def watchedAfter (turns : List Turn) : Checked Bool :=
  (Machine.run (iterate 1 3) (.start {0, 1, 2} 3) turns).map
    (fun r => decide (3 ∈ r.1.readyToRead))

theorem watchedAfter_eq_ok {turns : List Turn} {watched : Bool}
    (h : watchedAfter turns = .ok watched) : ∃ st evs,
      Machine.run (iterate 1 3) (.start {0, 1, 2} 3) turns = .ok (st, evs) ∧
      decide (3 ∈ st.readyToRead) = watched := by
  obtain ⟨⟨st, evs⟩, hrun, hwatched⟩ := map_eq_ok.mp h
  exact ⟨st, evs, hrun, hwatched⟩

/-- While connections come in, the socket stays in the set. -/
theorem listening_firstClient : ∃ st evs,
    Machine.run (iterate 1 3) (.start {0, 1, 2} 3) [postTurn {3}] = .ok (st, evs) ∧
    3 ∈ st.readyToRead := by
  have hafter : watchedAfter [postTurn {3}] = .ok true := by decide +kernel
  obtain ⟨st, evs, hrun, -⟩ := watchedAfter_eq_ok hafter
  refine ⟨st, evs, hrun, (listening_iff hrun).mpr ?_⟩
  intro turn hturn ready hready
  rw [List.mem_singleton.mp hturn] at hready
  cases hready
  exact Finset.mem_singleton_self 3

/-- **One client that sends twice**: the second `select` takes the listening socket out for good. -/
theorem listening_lost : ¬ ∀ (alpha : ℚ) (openFds : Finset Nat) (serverSockfd : Nat)
    (turns : List Turn) (st : ProxyState) (evs : List ProxyEvent),
    Machine.run (iterate alpha serverSockfd) (.start openFds serverSockfd) turns = .ok (st, evs) →
    serverSockfd ∈ st.readyToRead := by
  intro h
  have hafter : watchedAfter [postTurn {3}, postTurn {4}] = .ok false := by decide +kernel
  obtain ⟨st, evs, hrun, hwatched⟩ := watchedAfter_eq_ok hafter
  exact absurd (h 1 _ 3 _ st evs hrun) (by simpa using hwatched)

end VideoCdn
