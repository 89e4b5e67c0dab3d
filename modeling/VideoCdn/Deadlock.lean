import VideoCdn.Descriptors
import VideoCdn.ResponseType
import VideoCdn.ServerResponse

/-!
# When the main loop of the proxy can go on (`main` of `src/proxy.c`)

`select` is given `ready_to_read` and no timeout, and the set is what it has left in it before.

* `SelectHonest` — what `select` may return: it fails as long as a number in the set is closed, and
  waits until something in the set is ready.
* `Attended` — an open descriptor in the set is the listening socket or in a session.
* `AllFit` — the numbers in the sessions fit in the set, since every pass of the loop tests them.
* `CanGoOn`, `goesOn_iff` — **deadlock**: at the top of the loop, anything can still happen exactly
  when the set is not empty and everything in it is open.
-/

set_option autoImplicit false

namespace VideoCdn

open CLib

/-- `select(FD_SETSIZE, &ready_to_read, &ready_to_write, NULL, NULL)`. -/
structure SelectHonest (st : ProxyState) (turn : Turn) : Prop where
  badFd : ¬ st.readyToRead ⊆ st.openFds → turn.select = none
  waits : ∀ ready, turn.select = some ready → (st.selected ready).readyToRead.Nonempty

/-- Some turns, in which `select` does what it may, make the proxy accept, connect or write. -/
def CanGoOn (alpha : ℚ) (serverSockfd : Nat) (st : ProxyState) : Prop :=
  ∃ turns st' evs, Machine.Along (iterate alpha serverSockfd) SelectHonest st turns ∧
    Machine.run (iterate alpha serverSockfd) st turns = .ok (st', evs) ∧ evs ≠ []

/-! ## What is in the set -/

/-- Every open descriptor in the set is looked at in the loop. -/
def Attended (serverSockfd : Nat) (st : ProxyState) : Prop :=
  ∀ fd ∈ st.readyToRead, fd ∈ st.openFds → fd = serverSockfd ∨ ∃ sid, st.Stores sid fd

section Attended
variable {serverSockfd : Nat} {st st' : ProxyState} {sid : Nat} {node : Session}

theorem attended_start (openFds : Finset Nat) (serverSockfd : Nat) :
    Attended serverSockfd (.start openFds serverSockfd) := by
  intro fd hfd _
  exact Or.inl (Finset.mem_singleton.mp hfd)

theorem Attended.of_subset (h : Attended serverSockfd st) (hopen : st'.openFds ⊆ st.openFds)
    (hready : st'.readyToRead ⊆ st.readyToRead)
    (hstores : ∀ sid fd, st.Stores sid fd → st'.Stores sid fd) : Attended serverSockfd st' := by
  intro fd hfd hmem
  rcases h fd (hready hfd) (hopen hmem) with rfl | ⟨sid, hs⟩
  · exact Or.inl rfl
  · exact Or.inr ⟨sid, hstores sid fd hs⟩

/-- The old connection of the session has been closed, and the new one is in it. -/
theorem Attended.reconnected (h : Attended serverSockfd st) (hnode : st.sessions[sid]? = some node)
    (hre : Reconnected sid node st st') : Attended serverSockfd st' := by
  intro fd hfd hmem
  rw [hre.readyToRead] at hfd
  rw [hre.openFds] at hmem
  rcases Finset.mem_insert.mp hmem with rfl | hmem
  · exact Or.inr ⟨sid, (hre.stores_self hnode).mpr (Or.inr rfl)⟩
  · rcases h fd hfd (st.openFds_closeServer_subset node hmem) with rfl | ⟨sid', hs⟩
    · exact Or.inl rfl
    · refine Or.inr ⟨sid', ?_⟩
      by_cases hsid : sid' = sid
      · subst hsid
        rcases (st.stores_iff hnode).mp hs with hclient | hserver
        · exact (hre.stores_self hnode).mpr (Or.inl hclient)
        · -- what has been closed is not open
          unfold ProxyState.closeServer at hmem
          rw [hserver] at hmem
          exact absurd hmem (Finset.notMem_erase _ _)
      · exact (hre.stores_of_ne hsid).mpr hs

theorem Attended.fdSet (h : Attended serverSockfd st) {fd : Nat} (hfd : st.Stores sid fd) :
    Attended serverSockfd { st with readyToRead := insert fd st.readyToRead } := by
  intro fd' hfd' hmem
  rcases Finset.mem_insert.mp hfd' with rfl | hfd'
  · exact Or.inr ⟨sid, hfd⟩
  · exact h fd' hfd' hmem

theorem Attended.served (h : Attended serverSockfd st) (hnode : st.sessions[sid]? = some node)
    (bitrate : List Int) (n : Nat) : Attended serverSockfd (st.served sid node n bitrate) := by
  refine h.of_subset (Finset.erase_subset _ _)
    ((Finset.erase_subset _ _).trans (Finset.erase_subset _ _)) ?_
  intro sid' fd hs
  exact (stores_served hnode bitrate n sid' fd).mpr hs

theorem attended_kept (alpha : ℚ) (serverSockfd : Nat) :
    KeptByHandlers alpha (fun _ st => Attended serverSockfd st) where
  client := by
    intro evs st sid node env st' es h hnode hstep
    cases hstep with
    | readError => exact h.of_subset (Finset.erase_subset _ _) subset_rfl fun _ _ hs => hs
    | noServer =>
      refine h.of_subset (st.openFds_closeServer_subset node) ?_ fun sid' fd hs => ?_
      · rw [st.readyToRead_closeServer]
      · unfold ProxyState.Stores
        rw [st.sessions_closeServer]
        exact hs
    | refused => exact h.reconnected hnode (.of_reconnect sid node st)
    | refusedRewritten _ _ _ _ _ htrack => exact h.reconnected hnode (.of_trackChunk htrack)
    | forwarded _ _ _ _ _ htrack => exact h.reconnected hnode (.of_trackChunk htrack)
    | forwardedReady _ _ _ _ _ htrack =>
      have hre := Reconnected.of_trackChunk htrack
      exact (h.reconnected hnode hre).fdSet ((hre.stores_self hnode).mpr (Or.inr rfl))
  server := by
    intro evs st sid node env st' es h hnode hstep
    cases hstep with
    | passed n bitrate => exact h.served hnode bitrate n
    | measured n bitrate => exact h.served hnode bitrate n

theorem Attended.selected (h : Attended serverSockfd st) (ready : Finset Nat) :
    Attended serverSockfd (st.selected ready) :=
  h.of_subset subset_rfl Finset.inter_subset_left fun _ _ hs => hs

theorem Attended.accepting (h : Attended serverSockfd st) : Attended serverSockfd st.accepting := by
  have hold : ∀ sid fd, st.Stores sid fd → st.accepting.Stores sid fd := by
    rintro sid fd ⟨p, hp, hfd⟩
    exact ⟨p, getElem?_accepting.mpr (Or.inl hp), hfd⟩
  have hnew : st.accepting.Stores st.sessions.length (lowestFree st.openFds) :=
    ⟨_, getElem?_accepting.mpr (Or.inr ⟨rfl, rfl⟩), Or.inl rfl⟩
  intro fd hfd hmem
  rcases Finset.mem_insert.mp hfd with rfl | hfd
  · exact Or.inr ⟨_, hnew⟩
  rcases Finset.mem_insert.mp hmem with rfl | hmem
  · exact Or.inr ⟨_, hnew⟩
  rcases h fd hfd hmem with rfl | ⟨sid, hs⟩
  · exact Or.inl rfl
  · exact Or.inr ⟨sid, hold sid fd hs⟩

/-- **Step lemma.** -/
theorem Attended.iterate {alpha : ℚ} {turn : Turn} {evs : List ProxyEvent}
    (h : Attended serverSockfd st)
    (hturn : VideoCdn.iterate alpha serverSockfd st turn = .ok (st', evs)) :
    Attended serverSockfd st' := by
  have hkept := attended_kept alpha serverSockfd
  cases iterate_step hturn with
  | failed => exact h
  | idle ready _ _ _ _ hserve => exact hkept.serveSessions [] (h.selected ready) hserve
  | accepted ready _ evs _ _ hserve =>
    exact hkept.serveSessions [] (h.selected ready).accepting hserve

end Attended

/-! ## What is in the sessions -/

/-- The numbers of session `sid` fit in the set. -/
def ProxyState.Fits (st : ProxyState) (sid : Nat) : Prop := ∀ fd, st.Stores sid fd → fd < FD_SETSIZE

def AllFit (st : ProxyState) : Prop := ∀ sid, st.Fits sid

section AllFit
variable {alpha : ℚ} {turn : Turn} {sid sid' : Nat} {node : Session} {st st' : ProxyState}
  {evs : List ProxyEvent}

/-- The handlers neither add a session nor change a client. -/
theorem clientFds_kept (alpha : ℚ) (fds : List Nat) :
    KeptByHandlers alpha (fun _ st => st.sessions.map Session.clientFd = fds) := by
  have hset : ∀ {st st' : ProxyState} {sid : Nat} {node node' : Session},
      st.sessions.map Session.clientFd = fds → st.sessions[sid]? = some node →
      st'.sessions = st.sessions.set sid node' → node'.clientFd = node.clientFd →
      st'.sessions.map Session.clientFd = fds := by
    intro st st' sid node node' h hnode hset hclient
    obtain ⟨hlt, hget⟩ := List.getElem?_eq_some_iff.mp hnode
    rw [hset, ← h]
    refine List.ext_getElem? fun k => ?_
    rw [List.getElem?_map, List.getElem?_map, List.getElem?_set]
    split
    · rename_i heq
      subst heq
      rw [hnode]
      simp [hclient]
    · rfl
  have hre : ∀ {st st' : ProxyState} {sid : Nat} {node : Session},
      st.sessions.map Session.clientFd = fds → st.sessions[sid]? = some node →
      Reconnected sid node st st' → st'.sessions.map Session.clientFd = fds := by
    intro st st' sid node h hnode hre
    obtain ⟨node', hsessions, hclient, -⟩ := hre.session
    exact hset h hnode hsessions hclient
  refine ⟨?_, ?_⟩
  · intro evs st sid node env st' es h hnode hstep
    cases hstep with
    | readError => exact h
    | noServer =>
      rw [st.sessions_closeServer]
      exact h
    | refused => exact hre h hnode (.of_reconnect sid node st)
    | refusedRewritten _ _ _ _ _ htrack => exact hre h hnode (.of_trackChunk htrack)
    | forwarded _ _ _ _ _ htrack => exact hre h hnode (.of_trackChunk htrack)
    | forwardedReady _ _ st₂ _ _ htrack =>
      have hkept : st₂.sessions.map Session.clientFd = fds := hre h hnode (.of_trackChunk htrack)
      exact hkept
  · intro evs st sid node env st' es h hnode hstep
    cases hstep with
    | passed => exact hset h hnode rfl rfl
    | measured => exact hset h hnode rfl rfl

theorem length_serveSessions (h : serveSessions alpha turn st = .ok (st', evs)) :
    st'.sessions.length = st.sessions.length := by
  have hfds := (clientFds_kept alpha _).serveSessions [] rfl h
  simpa using congrArg List.length hfds

theorem stores_serveServer (h : serveServer alpha turn sid st = .ok (st', evs)) (sid' fd : Nat) :
    st'.Stores sid' fd ↔ st.Stores sid' fd := by
  rcases serveServer_step h with ⟨rfl, -, -⟩ | ⟨p, _, hp, -, -, hstep⟩
  · rfl
  · cases hstep with
    | passed n bitrate => exact stores_served hp bitrate n sid' fd
    | measured n bitrate => exact stores_served hp bitrate n sid' fd

theorem stores_serveClient (h : serveClient turn sid st = .ok (st', evs)) (hne : sid' ≠ sid)
    (fd : Nat) : st'.Stores sid' fd ↔ st.Stores sid' fd := by
  rcases serveClient_step h with ⟨rfl, -⟩ | ⟨p, hp, hstep⟩
  · rfl
  cases hstep with
  | readError => rfl
  | noServer =>
    unfold ProxyState.Stores
    rw [st.sessions_closeServer]
  | refused => exact (Reconnected.of_reconnect sid p st).stores_of_ne hne
  | refusedRewritten _ _ _ _ _ htrack => exact (Reconnected.of_trackChunk htrack).stores_of_ne hne
  | forwarded _ _ _ _ _ htrack => exact (Reconnected.of_trackChunk htrack).stores_of_ne hne
  | forwardedReady _ _ _ _ _ htrack =>
    exact (Reconnected.of_trackChunk htrack).stores_of_ne hne

/-- The body of the loop gives both numbers of its session to `FD_ISSET`. -/
theorem fits_serveSession (h : serveSession alpha turn st sid = .ok (st', evs)) : st'.Fits sid := by
  obtain ⟨st₁, evs₁, evs₂, hclient, hserver, -⟩ := serveSession_eq_ok.mp h
  intro fd hs
  obtain ⟨p, hp, hfd⟩ := (stores_serveServer hserver sid fd).mp hs
  rcases hfd with rfl | hfd
  · have hfds : st₁.sessions.map Session.clientFd = st.sessions.map Session.clientFd :=
      @KeptByHandlers.serveClient alpha _ (clientFds_kept alpha _) turn sid st st₁ [] evs₁ rfl hclient
    have hget := congrArg (fun l => l[sid]?) hfds
    simp only [List.getElem?_map, hp, Option.map_some] at hget
    obtain ⟨node, hnode, heq⟩ := Option.map_eq_some_iff.mp hget.symm
    unfold serveClient at hclient
    rw [hnode] at hclient
    simp only [ProxyState.fdIsset, bind_eq_ok, inBounds_eq_ok] at hclient
    obtain ⟨_, ⟨_, hlt, -⟩, -⟩ := hclient
    rw [← heq]
    exact hlt
  · unfold serveServer at hserver
    rw [hp] at hserver
    simp only [hfd, ProxyState.fdIsset, bind_eq_ok, inBounds_eq_ok] at hserver
    obtain ⟨_, ⟨_, hlt, -⟩, -⟩ := hserver
    exact hlt

theorem stores_serveSession (h : serveSession alpha turn st sid = .ok (st', evs)) (hne : sid' ≠ sid)
    (fd : Nat) : st'.Stores sid' fd ↔ st.Stores sid' fd := by
  obtain ⟨st₁, evs₁, evs₂, hclient, hserver, -⟩ := serveSession_eq_ok.mp h
  rw [stores_serveServer hserver, stores_serveClient hclient hne]

/-- The loop over the sessions tests all numbers, and changes none that it has tested. -/
theorem allFit_serveSessions (h : serveSessions alpha turn st = .ok (st', evs)) : AllFit st' := by
  have hlength := length_serveSessions h
  have hlisted : ∀ sid ∈ (List.range st.sessions.length).reverse, st'.Fits sid := by
    refine Machine.run_history (P := fun sids _ st' => ∀ sid ∈ sids, st'.Fits sid)
      (fun _ hsid => absurd hsid List.not_mem_nil) ?_ h
    intro sids evs st₁ sid st₂ evs₂ _ ih hstep sid' hsid'
    by_cases hne : sid' = sid
    · rw [hne]
      exact fits_serveSession hstep
    · have hold : sid' ∈ sids := by simpa [hne] using hsid'
      intro fd hs
      exact ih sid' hold fd ((stores_serveSession hstep hne fd).mp hs)
  intro sid fd hs
  obtain ⟨p, hp, -⟩ := id hs
  have hlt : sid < st'.sessions.length := (List.getElem?_eq_some_iff.mp hp).1
  exact hlisted sid (by simpa [hlength] using hlt) fd hs

/-- **Step lemma.** -/
theorem AllFit.iterate {serverSockfd : Nat} (h : AllFit st)
    (hturn : VideoCdn.iterate alpha serverSockfd st turn = .ok (st', evs)) : AllFit st' := by
  cases iterate_step hturn with
  | failed => exact h
  | idle _ _ _ _ _ hserve => exact allFit_serveSessions hserve
  | accepted _ _ _ _ _ hserve => exact allFit_serveSessions hserve

end AllFit

/-- What holds at the top of the loop. -/
theorem attended_run {alpha : ℚ} {openFds : Finset Nat} {serverSockfd : Nat} {turns : List Turn}
    {st : ProxyState} {evs : List ProxyEvent}
    (hrun : Machine.run (iterate alpha serverSockfd) (.start openFds serverSockfd) turns =
      .ok (st, evs)) : Attended serverSockfd st ∧ AllFit st := by
  have hstart : AllFit (.start openFds serverSockfd) := by
    rintro sid fd ⟨p, hp, -⟩
    cases hp
  refine Machine.run_history (P := fun _ _ st => Attended serverSockfd st ∧ AllFit st)
    ⟨attended_start openFds serverSockfd, hstart⟩ ?_ hrun
  rintro _ _ s turn s' _ _ ⟨hattended, hfit⟩ hturn
  exact ⟨hattended.iterate hturn, hfit.iterate hturn⟩

/-! ## A deadlock -/

/-- **Nothing happens any more**, whatever the clients and the server do. -/
theorem stuck_run {alpha : ℚ} {serverSockfd : Nat} {st st' : ProxyState} {turns : List Turn}
    {evs : List ProxyEvent} (hstuck : ¬ (st.readyToRead.Nonempty ∧ st.readyToRead ⊆ st.openFds))
    (halong : Machine.Along (iterate alpha serverSockfd) SelectHonest st turns)
    (hrun : Machine.run (iterate alpha serverSockfd) st turns = .ok (st', evs)) :
    st' = st ∧ evs = [] := by
  refine Machine.run_along (P := SelectHonest) (Q := fun evs s => s = st ∧ evs = []) ?_
    ⟨rfl, rfl⟩ halong hrun
  rintro _ s turn s' es ⟨hs, rfl⟩ hhonest hturn
  subst hs
  have hselect : turn.select = none := by
    cases hselect : turn.select with
    | none => rfl
    | some ready =>
      by_cases hsubset : s.readyToRead ⊆ s.openFds
      · have hsome := (hhonest.waits ready hselect).mono Finset.inter_subset_left
        exact absurd ⟨hsome, hsubset⟩ hstuck
      · rw [hhonest.badFd hsubset] at hselect
        cases hselect
  unfold iterate at hturn
  rw [hselect] at hturn
  cases hturn
  exact ⟨rfl, rfl⟩

/-! ## Progress -/

theorem lowestFree_le {openFds : Finset Nat} {n : Nat} (h : n ∉ openFds) : lowestFree openFds ≤ n := by
  by_contra hlt
  unfold lowestFree at hlt
  cases hfind : (List.range (openFds.card + 1)).find? (fun fd => fd ∉ openFds) with
  | some fd =>
    rw [hfind, Option.getD_some, Nat.not_le] at hlt
    have hbelow := (List.find?_range_eq_some.mp hfind).2.2 n hlt
    simp [h] at hbelow
  | none =>
    rw [hfind, Option.getD_none, Nat.not_le] at hlt
    have hopen := List.find?_eq_none.mp hfind n (List.mem_range.mpr (by omega))
    simp [h] at hopen

/-- The new connection gets no higher number than a client that is accepted would. -/
theorem newServer_le (st : ProxyState) (node : Session) : st.newServer node ≤ lowestFree st.openFds :=
  lowestFree_le fun hmem => lowestFree_notMem _ (st.openFds_closeServer_subset node hmem)

/-- A response without a body. -/
def noContent : ServerRecv := ⟨ascii "HTTP/1.1 200 OK\r\nContent-Length: 0\r\n\r\n", [], ⟨0, 0⟩⟩

/-- A client whose connection is reset. -/
def resetClient : ClientRecv := { postRequest with read := none, read_le := nofun }

theorem otherResponse_noContent (node : Session) :
    OtherResponse noContent node noContent.reads 0 .other := by
  have hheader : readHeader noContent.reads 0 [] = .ok noContent.reads := by decide +kernel
  have hclass : classify (bigBuffer noContent.reads noContent.recv 0) =
      .ok (.other, noContent.reads.length) := by decide +kernel
  refine ⟨hheader, by decide +kernel, by decide +kernel, ⟨node.bitrate, ?_⟩, Or.inr rfl⟩
  rw [parseF4mResponse_eq, hclass]
  rfl

section Progress
variable {alpha : ℚ} {turn : Turn} {sid : Nat} {node : Session} {st : ProxyState}

theorem handleServerRecv_noContent (alpha : ℚ) (sid : Nat) (st : ProxyState) {fd : Nat}
    (h : Connected node fd) : ∃ st' out,
      handleServerRecv alpha noContent sid node st = .ok (st', [.downstream sid out]) := by
  obtain ⟨bitrate, hcall⟩ := handleServerRecv_other alpha sid st h (otherResponse_noContent node)
  obtain ⟨st', hrun⟩ := (hcall _).mpr ⟨_, rfl⟩
  exact ⟨st', _, hrun⟩

/-- Nothing has come from the server. -/
theorem serveServer_idle (hfit : AllFit st)
    (hidle : ∀ node fd, st.sessions[sid]? = some node → node.serverFd = some fd →
      fd ∉ st.readyToRead) : serveServer alpha turn sid st = .ok (st, []) := by
  unfold serveServer
  cases hnode : st.sessions[sid]? with
  | none => rfl
  | some p =>
    dsimp only
    cases hfd : p.serverFd with
    | none => rfl
    | some n =>
      have hn : n < FD_SETSIZE := hfit sid n ⟨p, hnode, Or.inr hfd⟩
      simp only [ProxyState.fdIsset, inBounds_pos hn, ok_bind, pure_eq_ok]
      rw [decide_eq_false (hidle p n hnode hfd), if_neg Bool.false_ne_true]

theorem serveServer_ready {fd : Nat} (hfit : AllFit st) (hnode : st.sessions[sid]? = some node)
    (hfd : node.serverFd = some fd) (hready : fd ∈ st.readyToRead) :
    serveServer alpha turn sid st = handleServerRecv alpha (turn.server sid) sid node st := by
  have hlt : fd < FD_SETSIZE := hfit sid fd ⟨node, hnode, Or.inr hfd⟩
  unfold serveServer
  rw [hnode]
  dsimp only
  rw [hfd]
  simp only [ProxyState.fdIsset, inBounds_pos hlt, ok_bind, pure_eq_ok]
  rw [decide_eq_true hready, if_pos rfl]

/-- The server is awaited in vain, or answers. -/
theorem serveServer_noContent (alpha : ℚ) (hfit : AllFit st) (henv : turn.server sid = noContent) :
    ∃ st' evs, serveServer alpha turn sid st = .ok (st', evs) ∧ AllFit st' ∧
      ∀ node fd, st.sessions[sid]? = some node → node.serverFd = some fd → fd ∈ st.readyToRead →
        evs ≠ [] := by
  obtain ⟨st', evs, hrun, hevs⟩ : ∃ st' evs, serveServer alpha turn sid st = .ok (st', evs) ∧
      ∀ node fd, st.sessions[sid]? = some node → node.serverFd = some fd → fd ∈ st.readyToRead →
        evs ≠ [] := by
    by_cases hready : ∃ node fd, st.sessions[sid]? = some node ∧ node.serverFd = some fd ∧
        fd ∈ st.readyToRead
    · obtain ⟨node, fd, hnode, hserver, hmem⟩ := hready
      have hfd : Connected node fd := ⟨hserver, hfit sid fd ⟨node, hnode, Or.inr hserver⟩,
        hfit sid _ ⟨node, hnode, Or.inl rfl⟩⟩
      obtain ⟨st', out, hcall⟩ := handleServerRecv_noContent alpha sid st hfd
      refine ⟨st', [.downstream sid out], ?_, fun _ _ _ _ _ => List.cons_ne_nil _ _⟩
      rw [serveServer_ready hfit hnode hserver hmem, henv, hcall]
    · have hidle : ∀ node fd, st.sessions[sid]? = some node → node.serverFd = some fd →
          fd ∉ st.readyToRead :=
        fun node fd hnode hfd hmem => hready ⟨node, fd, hnode, hfd, hmem⟩
      exact ⟨st, [], serveServer_idle hfit hidle,
        fun node fd hnode hfd hmem => absurd hmem (hidle node fd hnode hfd)⟩
  refine ⟨st', evs, hrun, fun sid' fd hs => ?_, hevs⟩
  exact hfit sid' fd ((stores_serveServer hrun sid' fd).mp hs)

/-- The client is not ready. -/
theorem serveClient_idle (hfit : AllFit st)
    (hidle : ∀ node, st.sessions[sid]? = some node → node.clientFd ∉ st.readyToRead) :
    serveClient turn sid st = .ok (st, []) := by
  unfold serveClient
  cases hnode : st.sessions[sid]? with
  | none => rfl
  | some p =>
    have hlt : p.clientFd < FD_SETSIZE := hfit sid _ ⟨p, hnode, Or.inl rfl⟩
    simp only [ProxyState.fdIsset, inBounds_pos hlt, ok_bind, pure_eq_ok]
    rw [decide_eq_false (hidle p hnode), if_neg Bool.false_ne_true]

theorem serveClient_ready (hfit : AllFit st) (hnode : st.sessions[sid]? = some node)
    (hready : node.clientFd ∈ st.readyToRead) :
    serveClient turn sid st = handleClientRecv (turn.client sid) sid node st := by
  have hlt : node.clientFd < FD_SETSIZE := hfit sid _ ⟨node, hnode, Or.inl rfl⟩
  unfold serveClient
  rw [hnode]
  simp only [ProxyState.fdIsset, inBounds_pos hlt, ok_bind, pure_eq_ok]
  rw [decide_eq_true hready, if_pos rfl]

/-- The client is not ready, or its connection is reset. -/
theorem serveClient_reset (hfit : AllFit st) (henv : turn.client sid = resetClient) :
    ∃ st', serveClient turn sid st = .ok (st', []) ∧ AllFit st' := by
  by_cases hready : ∃ node, st.sessions[sid]? = some node ∧ node.clientFd ∈ st.readyToRead
  · obtain ⟨node, hnode, hmem⟩ := hready
    refine ⟨st.close node.clientFd, ?_, fun sid' fd hs => hfit sid' fd hs⟩
    rw [serveClient_ready hfit hnode hmem, henv, handleClientRecv_readError sid node st rfl]
  · refine ⟨st, serveClient_idle hfit ?_, hfit⟩
    intro node hnode hmem
    exact hready ⟨node, hnode, hmem⟩

/-- The client sends a request that is not forwarded, and the server is reached. -/
theorem handleClientRecv_post (sid : Nat) (node : Session) (st : ProxyState) :
    handleClientRecv postRequest sid node st =
      .ok (st.reconnect sid node, [.connected sid (st.newServer node)]) := by
  rcases dropped_postRequest with hno | ⟨line, hscan, hget⟩
  · exact absurd rfl hno
  · rw [handleClientRecv_connected sid node st (Option.some_ne_none _) rfl, hscan, ok_bind,
      if_pos hget]
    rfl

/-- One session has got other numbers that fit. -/
theorem AllFit.setSession {node' : Session} {st' : ProxyState} (hfit : AllFit st)
    (hnode : st.sessions[sid]? = some node) (hset : st'.sessions = st.sessions.set sid node')
    (hclient : node'.clientFd = node.clientFd)
    (hserver : ∀ fd, node'.serverFd = some fd → fd < FD_SETSIZE) : AllFit st' := by
  have hlt : sid < st.sessions.length := (List.getElem?_eq_some_iff.mp hnode).1
  rintro sid' fd ⟨p, hp, hs⟩
  rw [hset] at hp
  by_cases hsid : sid' = sid
  · subst hsid
    rw [List.getElem?_set_self hlt, Option.some.injEq] at hp
    subst hp
    rcases hs with rfl | hs
    · rw [hclient]
      exact hfit sid' _ ⟨node, hnode, Or.inl rfl⟩
    · exact hserver fd hs
  · rw [List.getElem?_set_ne (Ne.symm hsid)] at hp
    exact hfit sid' fd ⟨p, hp, hs⟩

theorem AllFit.reconnect (hfit : AllFit st) (hnode : st.sessions[sid]? = some node)
    (hfree : lowestFree st.openFds < FD_SETSIZE) : AllFit (st.reconnect sid node) := by
  obtain ⟨node', hset, hclient, hserver⟩ := (Reconnected.of_reconnect sid node st).session
  refine hfit.setSession hnode hset hclient fun fd hfd => ?_
  rw [hserver, Option.some.injEq] at hfd
  rw [← hfd]
  exact Nat.lt_of_le_of_lt (newServer_le st node) hfree

/-- **The rest of the loop** returns, if all clients are reset and the server answers. -/
theorem run_reset {sids : List Nat} (hfit : AllFit st)
    (hclient : ∀ sid ∈ sids, turn.client sid = resetClient)
    (hserver : ∀ sid ∈ sids, turn.server sid = noContent) :
    ∃ st' evs, Machine.run (serveSession alpha turn) st sids = .ok (st', evs) := by
  have hstep : ∀ sid sids st, (∀ s ∈ sid :: sids,
      turn.client s = resetClient ∧ turn.server s = noContent) ∧ AllFit st →
      ∃ st' evs, serveSession alpha turn st sid = .ok (st', evs) ∧
        (∀ s ∈ sids, turn.client s = resetClient ∧ turn.server s = noContent) ∧ AllFit st' := by
    rintro sid sids st ⟨henv, hfit⟩
    obtain ⟨⟨hc, hs⟩, henv⟩ := List.forall_mem_cons.mp henv
    obtain ⟨st₁, hfirst, hfit₁⟩ := serveClient_reset hfit hc
    obtain ⟨st₂, evs₂, hsecond, hfit₂, -⟩ := serveServer_noContent alpha hfit₁ hs
    exact ⟨st₂, _, serveSession_eq_ok.mpr ⟨st₁, [], evs₂, hfirst, hsecond, rfl⟩, henv, hfit₂⟩
  obtain ⟨st', evs, hrun, -⟩ := Machine.run_progress
    (Q := fun sids st => (∀ s ∈ sids,
      turn.client s = resetClient ∧ turn.server s = noContent) ∧ AllFit st) hstep
    ⟨fun sid hsid => ⟨hclient sid hsid, hserver sid hsid⟩, hfit⟩
  exact ⟨st', evs, hrun⟩

/-- Sessions in which nothing is ready are passed over. -/
theorem run_idle {sids : List Nat} (hfit : AllFit st)
    (hidle : ∀ sid ∈ sids, ∀ fd ∈ st.readyToRead, ¬ st.Stores sid fd) :
    Machine.run (serveSession alpha turn) st sids = .ok (st, []) := by
  induction sids with
  | nil => rfl
  | cons sid sids ih =>
    obtain ⟨hfirst, hidle⟩ := List.forall_mem_cons.mp hidle
    have hclient : serveClient turn sid st = .ok (st, []) := by
      refine serveClient_idle hfit fun node hnode hmem => ?_
      exact hfirst _ hmem ⟨node, hnode, Or.inl rfl⟩
    have hserver : serveServer alpha turn sid st = .ok (st, []) :=
      serveServer_idle hfit fun node fd hnode hfd hmem => hfirst fd hmem ⟨node, hnode, Or.inr hfd⟩
    exact Machine.run_cons_eq_ok.mpr ⟨st, [], [],
      serveSession_eq_ok.mpr ⟨st, [], [], hclient, hserver, rfl⟩, ih hidle, rfl⟩

theorem AllFit.accepting (hfit : AllFit st) (hfree : lowestFree st.openFds < FD_SETSIZE) :
    AllFit st.accepting := by
  rintro sid fd ⟨p, hp, hfd⟩
  rcases getElem?_accepting.mp hp with hp | ⟨-, rfl⟩
  · exact hfit sid fd ⟨p, hp, hfd⟩
  · rcases hfd with rfl | hfd
    · exact hfree
    · cases hfd

/-- `accept` returns a number that fits. -/
theorem acceptClient_ready {serverSockfd : Nat} (hmem : serverSockfd ∈ st.readyToRead)
    (haccept : turn.accept = true) (hfree : lowestFree st.openFds < FD_SETSIZE) :
    acceptClient serverSockfd turn st =
      .ok (st.accepting, [.accepted st.sessions.length (lowestFree st.openFds)]) := by
  unfold acceptClient
  rw [if_neg (not_not.mpr hmem), if_neg (by rw [haccept]; simp), inBounds_pos hfree]
  rfl

theorem acceptClient_idle {serverSockfd : Nat} (hmem : serverSockfd ∉ st.readyToRead) :
    acceptClient serverSockfd turn st = .ok (st, []) := by
  unfold acceptClient
  rw [if_pos hmem]

/-- The parts of a turn in which `select` returns. -/
theorem iterate_of_select {serverSockfd : Nat} {ready : Finset Nat} {st₁ st₂ : ProxyState}
    {evs₁ evs₂ : List ProxyEvent} (hselect : turn.select = some ready)
    (haccept : acceptClient serverSockfd turn (st.selected ready) = .ok (st₁, evs₁))
    (hserve : serveSessions alpha turn st₁ = .ok (st₂, evs₂)) :
    iterate alpha serverSockfd st turn = .ok (st₂, evs₁ ++ evs₂) := by
  unfold iterate
  rw [hselect]
  dsimp only
  rw [haccept, ok_bind]
  dsimp only
  rw [hserve, ok_bind]
  rfl

/-- The listening socket is ready: a client is accepted. -/
theorem goesOn_listening {serverSockfd : Nat} (hfit : AllFit st)
    (hfree : lowestFree st.openFds < FD_SETSIZE) (hsubset : st.readyToRead ⊆ st.openFds)
    (hmem : serverSockfd ∈ st.readyToRead) : CanGoOn alpha serverSockfd st := by
  have hselected : serverSockfd ∈ (st.selected {serverSockfd}).readyToRead :=
    Finset.mem_inter.mpr ⟨hmem, Finset.mem_singleton_self _⟩
  have hfit₀ : AllFit (st.selected {serverSockfd}).accepting := AllFit.accepting hfit hfree
  let turn : Turn := ⟨some {serverSockfd}, true, fun _ => resetClient, fun _ => noContent⟩
  obtain ⟨st', evs, hserve⟩ : ∃ st' evs,
      serveSessions alpha turn (st.selected {serverSockfd}).accepting = .ok (st', evs) :=
    run_reset hfit₀ (fun _ _ => rfl) (fun _ _ => rfl)
  have haccept : acceptClient serverSockfd turn (st.selected {serverSockfd}) =
      .ok ((st.selected {serverSockfd}).accepting,
        [.accepted st.sessions.length (lowestFree st.openFds)]) :=
    acceptClient_ready hselected rfl hfree
  have hturn : iterate alpha serverSockfd st turn =
      .ok (st', .accepted st.sessions.length (lowestFree st.openFds) :: evs) :=
    iterate_of_select rfl haccept hserve
  have hhonest : SelectHonest st turn := by
    refine ⟨fun hnot => absurd hsubset hnot, fun ready hready => ?_⟩
    rw [← Option.some.inj hready]
    exact ⟨serverSockfd, hselected⟩
  exact ⟨[turn], st', _, Machine.along_cons.mpr ⟨hhonest, fun _ _ _ => trivial⟩,
    Machine.run_cons_eq_ok.mpr ⟨st', _, [], hturn, rfl, rfl⟩, List.cons_ne_nil _ _⟩

/-- One client sends a request, and the others are reset. -/
def onePost (fd sid : Nat) : Turn where
  select := some {fd}
  accept := true
  client := fun i => if i = sid then postRequest else resetClient
  server := fun _ => noContent

/-- The body of the loop for a session in which `fd` is ready. -/
theorem serveSession_ready {fd : Nat} (hfit : AllFit st) (hfree : lowestFree st.openFds < FD_SETSIZE)
    (hstores : st.Stores sid fd) (hready : fd ∈ st.readyToRead)
    (hclient : turn.client sid = postRequest) (hserver : turn.server sid = noContent) :
    ∃ st' evs, serveSession alpha turn st sid = .ok (st', evs) ∧ AllFit st' ∧ evs ≠ [] := by
  obtain ⟨node, hnode, hfd⟩ := hstores
  by_cases hmem : node.clientFd ∈ st.readyToRead
  · -- a new connection to the server, for the request
    have hfirst : serveClient turn sid st =
        .ok (st.reconnect sid node, [.connected sid (st.newServer node)]) := by
      rw [serveClient_ready hfit hnode hmem, hclient, handleClientRecv_post]
    obtain ⟨st', evs, hsecond, hfit', -⟩ :=
      serveServer_noContent alpha (hfit.reconnect hnode hfree) hserver
    exact ⟨st', _, serveSession_eq_ok.mpr ⟨_, _, evs, hfirst, hsecond, rfl⟩, hfit',
      List.cons_ne_nil _ _⟩
  · -- the response of the server
    have hfirst : serveClient turn sid st = .ok (st, []) := by
      refine serveClient_idle hfit fun p hp => ?_
      rw [hnode, Option.some.injEq] at hp
      rw [← hp]
      exact hmem
    have hfd' : node.serverFd = some fd := by
      rcases hfd with rfl | hfd
      · exact absurd hready hmem
      · exact hfd
    obtain ⟨st', evs, hsecond, hfit', hevs⟩ := serveServer_noContent alpha hfit hserver
    exact ⟨st', _, serveSession_eq_ok.mpr ⟨st, [], evs, hfirst, hsecond, rfl⟩, hfit',
      hevs node fd hnode hfd' hready⟩

/-- A descriptor of a session is ready. -/
theorem goesOn_session {serverSockfd fd : Nat} (hfit : AllFit st)
    (hfree : lowestFree st.openFds < FD_SETSIZE) (hsubset : st.readyToRead ⊆ st.openFds)
    (hmem : fd ∈ st.readyToRead) (hne : fd ≠ serverSockfd) (hstores : ∃ sid, st.Stores sid fd) :
    CanGoOn alpha serverSockfd st := by
  classical
  have hready : (st.selected {fd}).readyToRead = {fd} :=
    Finset.inter_singleton_of_mem hmem
  -- the first session of the loop in which the descriptor is
  obtain ⟨sid, hfirst⟩ : ∃ sid, (List.range st.sessions.length).reverse.find?
      (fun sid => decide (st.Stores sid fd)) = some sid := by
    rw [← Option.isSome_iff_exists, List.find?_isSome]
    obtain ⟨sid, p, hp, hfd⟩ := hstores
    have hlt : sid < st.sessions.length := (List.getElem?_eq_some_iff.mp hp).1
    exact ⟨sid, by simpa using hlt, decide_eq_true ⟨p, hp, hfd⟩⟩
  obtain ⟨hsid, pre, post, hsplit, hpre⟩ := List.find?_eq_some_iff_append.mp hfirst
  have hnodup : (pre ++ sid :: post).Nodup := hsplit ▸ List.nodup_reverse.mpr List.nodup_range
  have hidle : Machine.run (serveSession alpha (onePost fd sid)) (st.selected {fd}) pre =
      .ok (st.selected {fd}, []) := by
    refine run_idle hfit fun sid' hsid' fd' hfd' hs => ?_
    rw [hready, Finset.mem_singleton] at hfd'
    subst hfd'
    have hnot := hpre sid' hsid'
    rw [Bool.not_eq_true', decide_eq_false_iff_not] at hnot
    exact hnot hs
  obtain ⟨st₁, evs₁, hserve, hfit₁, hevs⟩ : ∃ st₁ evs₁,
      serveSession alpha (onePost fd sid) (st.selected {fd}) sid = .ok (st₁, evs₁) ∧ AllFit st₁ ∧
        evs₁ ≠ [] := by
    refine serveSession_ready hfit hfree (of_decide_eq_true hsid) ?_ (if_pos rfl) rfl
    rw [hready]
    exact Finset.mem_singleton_self fd
  obtain ⟨st₂, evs₂, hrest⟩ : ∃ st₂ evs₂,
      Machine.run (serveSession alpha (onePost fd sid)) st₁ post = .ok (st₂, evs₂) := by
    refine run_reset hfit₁ (fun sid' hsid' => if_neg ?_) (fun _ _ => rfl)
    rintro rfl
    exact (List.nodup_cons.mp (List.nodup_append.mp hnodup).2.1).1 hsid'
  have hsessions : serveSessions alpha (onePost fd sid) (st.selected {fd}) =
      .ok (st₂, [] ++ (evs₁ ++ evs₂)) := by
    unfold serveSessions
    rw [show (st.selected {fd}).sessions = st.sessions from rfl, hsplit]
    exact Machine.run_append_eq_ok.mpr ⟨_, [], _, hidle,
      Machine.run_cons_eq_ok.mpr ⟨st₁, evs₁, evs₂, hserve, hrest, rfl⟩, rfl⟩
  have haccept : acceptClient serverSockfd (onePost fd sid) (st.selected {fd}) =
      .ok (st.selected {fd}, []) := by
    refine acceptClient_idle ?_
    rw [hready, Finset.mem_singleton]
    exact hne.symm
  have hturn : iterate alpha serverSockfd st (onePost fd sid) =
      .ok (st₂, [] ++ ([] ++ (evs₁ ++ evs₂))) :=
    iterate_of_select rfl haccept hsessions
  have hhonest : SelectHonest st (onePost fd sid) := by
    refine ⟨fun hnot => absurd hsubset hnot, fun ready hselect => ?_⟩
    rw [← Option.some.inj hselect, hready]
    exact Finset.singleton_nonempty fd
  exact ⟨[onePost fd sid], st₂, _, Machine.along_cons.mpr ⟨hhonest, fun _ _ _ => trivial⟩,
    Machine.run_cons_eq_ok.mpr ⟨st₂, _, [], hturn, rfl, rfl⟩, by simp [hevs]⟩

end Progress

/-- **Deadlock**: at the top of the loop, anything can still happen exactly when the set is not empty
and everything in it is open. -/
theorem goesOn_iff {alpha : ℚ} {openFds : Finset Nat} {serverSockfd : Nat} {turns : List Turn}
    {st : ProxyState} {evs : List ProxyEvent}
    (hrun : Machine.run (iterate alpha serverSockfd) (.start openFds serverSockfd) turns =
      .ok (st, evs)) (hfree : lowestFree st.openFds < FD_SETSIZE) :
    CanGoOn alpha serverSockfd st ↔ st.readyToRead.Nonempty ∧ st.readyToRead ⊆ st.openFds := by
  obtain ⟨hattended, hfit⟩ := attended_run hrun
  constructor
  · rintro ⟨turns', st', evs', halong, hrun', hevs⟩
    by_contra hstuck
    exact hevs (stuck_run hstuck halong hrun').2
  · rintro ⟨⟨fd, hmem⟩, hsubset⟩
    by_cases hlistening : fd = serverSockfd
    · exact goesOn_listening hfit hfree hsubset (hlistening ▸ hmem)
    · have hstores := (hattended fd hmem (hsubset hmem)).resolve_left hlistening
      exact goesOn_session hfit hfree hsubset hmem hlistening hstores

/-- A client connects and is reset. -/
def resetTurn : Turn := ⟨some {3}, true, fun _ => resetClient, fun _ => noContent⟩

/-- **One client that is reset** stops the proxy for all. -/
theorem goesOn_resetTurn : ∃ st evs,
    Machine.run (iterate 1 3) (.start {0, 1, 2} 3) [resetTurn] = .ok (st, evs) ∧
    ¬ CanGoOn 1 3 st := by
  have hafter : (Machine.run (iterate 1 3) (.start {0, 1, 2} 3) [resetTurn]).map
      (fun r => (decide (4 ∈ r.1.readyToRead), decide (4 ∈ r.1.openFds),
        decide (lowestFree r.1.openFds < FD_SETSIZE))) = .ok (true, false, true) := by
    decide +kernel
  obtain ⟨⟨st, evs⟩, hrun, hstate⟩ := map_eq_ok.mp hafter
  simp only [Prod.mk.injEq, decide_eq_true_eq, decide_eq_false_iff_not] at hstate
  obtain ⟨hready, hclosed, hfree⟩ := hstate
  refine ⟨st, evs, hrun, fun hgoes => hclosed ?_⟩
  exact ((goesOn_iff hrun hfree).mp hgoes).2 hready

/-! ## Connections -/

/-- What `select` has found ready, turn by turn. -/
def selections (turns : List Turn) : List (Finset Nat) := turns.filterMap Turn.select

theorem selections_snoc (turns : List Turn) (turn : Turn) :
    selections (turns ++ [turn]) = selections turns ++ turn.select.toList := by
  unfold selections
  rw [List.filterMap_append]
  cases hselect : turn.select with
  | none => simp [hselect]
  | some ready => simp [hselect]

theorem alwaysReady_iff {serverSockfd : Nat} {turns : List Turn} :
    AlwaysReady serverSockfd turns ↔ ∀ ready ∈ selections turns, serverSockfd ∈ ready := by
  unfold AlwaysReady selections
  simp only [List.mem_filterMap]
  constructor
  · rintro h ready ⟨turn, hturn, hselect⟩
    exact h turn hturn ready hselect
  · intro h turn hturn ready hselect
    exact h ready ⟨turn, hturn, hselect⟩

/-- The selections up to the first without the listening socket. -/
def listened (serverSockfd : Nat) (turns : List Turn) : List (Finset Nat) :=
  (selections turns).takeWhile fun ready => decide (serverSockfd ∈ ready)

theorem listened_snoc_of_ready {serverSockfd : Nat} {turns : List Turn}
    (h : AlwaysReady serverSockfd turns) (turn : Turn) :
    listened serverSockfd (turns ++ [turn]) = listened serverSockfd turns ++
      turn.select.toList.takeWhile fun ready => decide (serverSockfd ∈ ready) := by
  have hall : ∀ ready ∈ selections turns, decide (serverSockfd ∈ ready) = true := by
    simpa using alwaysReady_iff.mp h
  have hself : (selections turns).takeWhile (fun ready => decide (serverSockfd ∈ ready)) =
      selections turns := by
    rw [List.takeWhile_eq_self_iff]
    exact hall
  unfold listened
  rw [selections_snoc, List.takeWhile_append_of_pos hall, hself]

theorem listened_snoc_of_not_ready {serverSockfd : Nat} {turns : List Turn}
    (h : ¬ AlwaysReady serverSockfd turns) (turn : Turn) :
    listened serverSockfd (turns ++ [turn]) = listened serverSockfd turns := by
  unfold listened
  rw [selections_snoc, List.takeWhile_append, if_neg]
  intro hlength
  have hself := (List.takeWhile_prefix _).eq_of_length hlength
  refine h (alwaysReady_iff.mpr fun ready hready => ?_)
  simpa using List.takeWhile_eq_self_iff.mp hself ready hready

/-- **Step lemma.** -/
theorem sessions_iterate {alpha : ℚ} {serverSockfd : Nat} {turns : List Turn} {turn : Turn}
    {st st' : ProxyState} {evs : List ProxyEvent}
    (hlisten : ListenState serverSockfd (AlwaysReady serverSockfd turns) st)
    (hlength : st.sessions.length = (listened serverSockfd turns).length)
    (hturn : iterate alpha serverSockfd st turn = .ok (st', evs)) :
    st'.sessions.length = (listened serverSockfd (turns ++ [turn])).length := by
  by_cases hready : AlwaysReady serverSockfd turns
  · have hmem : serverSockfd ∈ st.readyToRead := hlisten.watched_iff.mpr hready
    rw [listened_snoc_of_ready hready, List.length_append, ← hlength]
    cases iterate_step hturn with
    | failed hselect =>
      rw [hselect]
      rfl
    | idle ready _ _ hselect hnot hserve =>
      have hnot' : serverSockfd ∉ ready := fun h => hnot (Finset.mem_inter.mpr ⟨hmem, h⟩)
      rw [hselect, length_serveSessions hserve]
      simp [hnot', ProxyState.selected]
    | accepted ready _ _ hselect hin hserve =>
      have hin' : serverSockfd ∈ ready := (Finset.mem_inter.mp hin).2
      rw [hselect, length_serveSessions hserve]
      simp [hin', ProxyState.selected, ProxyState.accepting]
  · have hnot : serverSockfd ∉ st.readyToRead := fun h => hready (hlisten.watched_iff.mp h)
    rw [listened_snoc_of_not_ready hready, ← hlength]
    cases iterate_step hturn with
    | failed => rfl
    | idle _ _ _ _ _ hserve =>
      rw [length_serveSessions hserve]
      rfl
    | accepted ready _ _ _ hin _ => exact absurd (Finset.mem_inter.mp hin).1 hnot

/-- **A session for every selection** of the listening socket up to the first without it, and none
from there on. -/
theorem sessions_run {alpha : ℚ} {openFds : Finset Nat} {serverSockfd : Nat} {turns : List Turn}
    {st : ProxyState} {evs : List ProxyEvent}
    (hrun : Machine.run (iterate alpha serverSockfd) (.start openFds serverSockfd) turns =
      .ok (st, evs)) : st.sessions.length = (listened serverSockfd turns).length := by
  have hstart : ListenState serverSockfd (AlwaysReady serverSockfd [])
      (.start openFds serverSockfd) := by
    refine ⟨⟨Finset.mem_insert_self _ _, nofun, nofun⟩, ?_⟩
    exact iff_of_true (Finset.mem_singleton_self _) nofun
  have hboth : ListenState serverSockfd (AlwaysReady serverSockfd turns) st ∧
      st.sessions.length = (listened serverSockfd turns).length := by
    refine Machine.run_history (P := fun turns _ st =>
      ListenState serverSockfd (AlwaysReady serverSockfd turns) st ∧
        st.sessions.length = (listened serverSockfd turns).length) ⟨hstart, rfl⟩ ?_ hrun
    rintro turns _ st turn st' _ _ ⟨hlisten, hlength⟩ hturn
    refine ⟨?_, sessions_iterate hlisten hlength hturn⟩
    rw [alwaysReady_snoc]
    exact hlisten.iterate hturn
  exact hboth.2

/-- One connection is one session. -/
theorem sessions_run_resetTurn : ∃ st evs,
    Machine.run (iterate 1 3) (.start {0, 1, 2} 3) [resetTurn] = .ok (st, evs) ∧
    st.sessions.length = (listened 3 [resetTurn]).length := by
  have hdone : (Machine.run (iterate 1 3) (.start {0, 1, 2} 3) [resetTurn]).map
      (fun r => r.1.sessions.length) = .ok 1 := by
    decide +kernel
  obtain ⟨⟨st, evs⟩, hrun, -⟩ := map_eq_ok.mp hdone
  exact ⟨st, evs, hrun, sessions_run hrun⟩

end VideoCdn
