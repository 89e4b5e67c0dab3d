import VideoCdn.SplitRequest
import VideoCdn.Lib.Ownership

/-!
# Who has which descriptor (`main` of `src/proxy.c`, `src/handle.c`)

Sessions are never removed, and the numbers in them are never cleared.

* `OwnedFds` — the numbers in the sessions are open, each in one session, and every other number
  that is open was open in front of the loop.
* `Given` — the numbers that one turn of the loop gives to the macros of the set.
* `ClientKept`, `TurnKept` — nothing is closed whose number stays behind.
* `Dangling` — a number that stays behind, which no later turn of the loop over the sessions mends.
* `ownedThroughout_iff` — the runs whose sessions own what is open are the runs of such turns.
-/

set_option autoImplicit false

namespace VideoCdn

open CLib Ownership

/-- The number is in the session; -1 is no number. -/
def Session.Stores (node : Session) (fd : Nat) : Prop := node.clientFd = fd ∨ node.serverFd = some fd

def ProxyState.Stores (st : ProxyState) (sid fd : Nat) : Prop :=
  ∃ node, st.sessions[sid]? = some node ∧ node.Stores fd

/-- `initial` are the descriptors that are open in front of the loop. -/
def OwnedFds (initial : Finset Nat) (st : ProxyState) : Prop :=
  Owned initial st.openFds st.Stores

/-! ## One invocation for a client -/

/-- The request is written to the server. -/
def Forwards (env : ClientRecv) (fd : Nat) (trackers : Trackers) : Prop :=
  ∃ line, IsRequest env line ∧
    ((strstr (ascii "-Frag") (cstr line.httpRequestFile)).isNone = true ∨
      ∃ buffer name line', ChunkRewritten env fd trackers buffer name line line' ∧
        isHttpGet line' = true)

/-- Nothing is closed whose number stays in the session: the client is read, the server is reached,
and its response is not awaited, so that `handle_server_recv` does not close the client. -/
structure ClientKept (env : ClientRecv) (node : Session) (st : ProxyState) : Prop where
  read : env.read ≠ none
  connect : env.connect = .connected
  fits : st.newServer node < FD_SETSIZE
  unanswered : 0 < env.retWrite → ¬ Forwards env node.clientFd st.trackers

/-- **Under the condition** the session gets another connection, and nothing else changes. -/
theorem handleClientRecv_kept {env : ClientRecv} {sid : Nat} {node : Session} {st st' : ProxyState}
    {evs : List ProxyEvent} (hkept : ClientKept env node st)
    (hrun : handleClientRecv env sid node st = .ok (st', evs)) : Reconnected sid node st st' := by
  rw [handleClientRecv_connected sid node st hkept.read hkept.connect, bind_eq_ok] at hrun
  obtain ⟨line, hscan, hrun⟩ := hrun
  cases hget : isHttpGet line with
  | false =>
    rw [if_pos hget] at hrun
    cases hrun
    exact .of_reconnect sid node st
  | true =>
    rw [if_neg (by rw [hget]; simp), inBounds_bind_eq_ok, bind_eq_ok] at hrun
    obtain ⟨hterm, ⟨buffer, st₂, evs₂⟩, htrack, hrun⟩ := hrun
    have hre := Reconnected.of_trackChunk htrack
    dsimp only at hrun
    rw [bind_eq_ok] at hrun
    obtain ⟨line', hscan', hrun⟩ := hrun
    cases hget' : isHttpGet line' with
    | false =>
      rw [if_pos hget'] at hrun
      cases hrun
      exact hre
    | true =>
      rw [if_neg (by rw [hget']; simp)] at hrun
      split at hrun
      · -- the response would be awaited
        rename_i hwrite
        refine absurd ?_ (hkept.unanswered hwrite)
        have hline : IsRequest env line := ⟨hkept.connect, hscan, hget, hterm⟩
        rcases trackChunk_reconnect_iff.mp ⟨st₂, evs₂, htrack, rfl⟩ with
          ⟨hplain, -⟩ | ⟨hfrag, hrw, name, hname, -⟩
        · exact ⟨line, hline, Or.inl hplain⟩
        · exact ⟨line, hline, Or.inr ⟨buffer, name, line', ⟨hline, hfrag, hrw, hname, hscan'⟩, hget'⟩⟩
      · cases hrun
        exact hre

/-! ## The invariant -/

/-- Besides, the numbers fit in the set, and no connection to the server is watched. -/
structure FdInv (initial : Finset Nat) (st : ProxyState) : Prop where
  owned : OwnedFds initial st
  distinct : ∀ node ∈ st.sessions, node.serverFd ≠ some node.clientFd
  fits : ∀ sid fd, st.Stores sid fd → fd < FD_SETSIZE
  watched : st.readyToRead ⊆ st.openFds
  unwatched : ∀ node ∈ st.sessions, ∀ fd, node.serverFd = some fd → fd ∉ st.readyToRead

section FdInv
variable {initial : Finset Nat} {st st' : ProxyState} {sid : Nat} {node : Session}

theorem ProxyState.stores_iff (hnode : st.sessions[sid]? = some node) {fd : Nat} :
    st.Stores sid fd ↔ node.Stores fd := by
  unfold Stores
  simp only [hnode, Option.some.injEq, exists_eq_left']

/-- What the other sessions store has not changed. -/
theorem Reconnected.stores_of_ne (h : Reconnected sid node st st') {sid' : Nat} (hne : sid' ≠ sid)
    {fd : Nat} : st'.Stores sid' fd ↔ st.Stores sid' fd := by
  obtain ⟨node', hset, -, -⟩ := h.session
  unfold ProxyState.Stores
  rw [hset, List.getElem?_set_ne hne.symm]

/-- The session stores its client, and the new connection. -/
theorem Reconnected.stores_self (h : Reconnected sid node st st')
    (hnode : st.sessions[sid]? = some node) {fd : Nat} :
    st'.Stores sid fd ↔ node.clientFd = fd ∨ fd = st.newServer node := by
  obtain ⟨node', hset, hclient, hserver⟩ := h.session
  have hlt : sid < st.sessions.length := (List.getElem?_eq_some_iff.mp hnode).1
  have hnode' : st'.sessions[sid]? = some node' := by
    rw [hset, List.getElem?_set_self hlt]
  rw [st'.stores_iff hnode', Session.Stores, hclient, hserver, Option.some.injEq,
    eq_comm (a := fd)]

/-- The connection that is closed is given up. -/
theorem FdInv.closeServer (h : FdInv initial st) (node : Session) :
    Owned initial (st.closeServer node).openFds
      (fun sid' fd => st.Stores sid' fd ∧ node.serverFd ≠ some fd) := by
  unfold ProxyState.closeServer
  cases hserver : node.serverFd with
  | none =>
    simp only [reduceCtorEq, ne_eq, not_false_iff, and_true]
    exact h.owned
  | some serverFd =>
    refine h.owned.release fun sid' fd => ?_
    rw [Ne, Option.some.injEq, eq_comm (a := serverFd)]

/-- What is stored afterwards: what was stored, without the old connection and with the new one. -/
theorem FdInv.stores_reconnected (h : FdInv initial st) (hnode : st.sessions[sid]? = some node)
    (hre : Reconnected sid node st st') (sid' fd : Nat) : st'.Stores sid' fd ↔
      (st.Stores sid' fd ∧ node.serverFd ≠ some fd) ∨ sid' = sid ∧ fd = st.newServer node := by
  by_cases hsid : sid' = sid
  · subst hsid
    rw [hre.stores_self hnode, st.stores_iff hnode]
    constructor
    · rintro (rfl | rfl)
      · exact Or.inl ⟨Or.inl rfl, h.distinct node (List.mem_of_getElem? hnode)⟩
      · exact Or.inr ⟨rfl, rfl⟩
    · rintro (⟨hfd | hfd, hne⟩ | ⟨-, rfl⟩)
      · exact Or.inl hfd
      · exact absurd hfd hne
      · exact Or.inr rfl
  · rw [hre.stores_of_ne hsid]
    constructor
    · intro hs
      refine Or.inl ⟨hs, fun hserver => hsid ?_⟩
      exact h.owned.once hs ⟨node, hnode, Or.inr hserver⟩
    · rintro (⟨hs, -⟩ | ⟨heq, -⟩)
      · exact hs
      · exact absurd heq hsid

/-- The connection that is closed was not watched. -/
theorem FdInv.watched_closeServer (h : FdInv initial st) (hmem : node ∈ st.sessions) :
    st.readyToRead ⊆ (st.closeServer node).openFds := by
  intro fd hfd
  unfold ProxyState.closeServer
  cases hserver : node.serverFd with
  | none => exact h.watched hfd
  | some serverFd =>
    refine Finset.mem_erase.mpr ⟨?_, h.watched hfd⟩
    rintro rfl
    exact h.unwatched node hmem fd hserver hfd

theorem FdInv.reconnected (h : FdInv initial st) (hnode : st.sessions[sid]? = some node)
    (hfits : st.newServer node < FD_SETSIZE) (hre : Reconnected sid node st st') :
    FdInv initial st' := by
  have hmem : node ∈ st.sessions := List.mem_of_getElem? hnode
  have hnew : st.newServer node ∉ (st.closeServer node).openFds := lowestFree_notMem _
  have hwatched := h.watched_closeServer hmem
  have hclosed : Owned initial (st.closeServer node).openFds
      (fun sid' fd => st.Stores sid' fd ∧ node.serverFd ≠ some fd) :=
    h.closeServer node
  have hclientOpen : node.clientFd ∈ (st.closeServer node).openFds :=
    hclosed.isLive ⟨⟨node, hnode, Or.inl rfl⟩, h.distinct node hmem⟩
  obtain ⟨node', hset, hclient', hserver'⟩ := hre.session
  have hsessions : ∀ p ∈ st'.sessions, p ∈ st.sessions ∨ p = node' := by
    intro p hp
    rw [hset] at hp
    exact List.mem_or_eq_of_mem_set hp
  refine ⟨?_, ?_, ?_, ?_, ?_⟩
  · unfold OwnedFds
    rw [hre.openFds]
    exact hclosed.acquire hnew (h.stores_reconnected hnode hre)
  · intro p hp
    rcases hsessions p hp with hp | rfl
    · exact h.distinct p hp
    · rw [hserver', hclient', Ne, Option.some.injEq]
      exact fun heq => hnew (heq ▸ hclientOpen)
  · intro sid' fd hs
    rcases (h.stores_reconnected hnode hre sid' fd).mp hs with ⟨hs, -⟩ | ⟨-, rfl⟩
    · exact h.fits sid' fd hs
    · exact hfits
  · rw [hre.readyToRead, hre.openFds]
    exact hwatched.trans (Finset.subset_insert _ _)
  · intro p hp fd hfd
    rw [hre.readyToRead]
    rcases hsessions p hp with hp | rfl
    · exact h.unwatched p hp fd hfd
    · rw [hserver', Option.some.injEq] at hfd
      rw [← hfd]
      exact fun hready => hnew (hwatched hready)

theorem FdInv.selected (h : FdInv initial st) (ready : Finset Nat) :
    FdInv initial (st.selected ready) :=
  ⟨h.owned, h.distinct, h.fits, Finset.inter_subset_left.trans h.watched,
    fun p hp fd hfd hmem => h.unwatched p hp fd hfd (Finset.mem_inter.mp hmem).1⟩

/-- A new session is at the end. -/
theorem getElem?_accepting {sid : Nat} {p : Session} :
    st.accepting.sessions[sid]? = some p ↔ st.sessions[sid]? = some p ∨
      sid = st.sessions.length ∧ p = Session.new (lowestFree st.openFds) := by
  unfold ProxyState.accepting
  dsimp only
  rcases lt_trichotomy sid st.sessions.length with hlt | rfl | hgt
  · rw [List.getElem?_append_left hlt]
    simp [Nat.ne_of_lt hlt]
  · simp [eq_comm]
  · have hnone : st.sessions[sid]? = none := List.getElem?_eq_none (Nat.le_of_lt hgt)
    have hnone' : (st.sessions ++ [Session.new (lowestFree st.openFds)])[sid]? = none :=
      List.getElem?_eq_none (by rw [List.length_append]; exact hgt)
    rw [hnone, hnone']
    simp [Nat.ne_of_gt hgt]

theorem FdInv.accepting (h : FdInv initial st) (hfits : lowestFree st.openFds < FD_SETSIZE) :
    FdInv initial st.accepting := by
  have hnew : lowestFree st.openFds ∉ st.openFds := lowestFree_notMem _
  have hstores : ∀ sid fd, st.accepting.Stores sid fd ↔
      st.Stores sid fd ∨ sid = st.sessions.length ∧ fd = lowestFree st.openFds := by
    intro sid fd
    constructor
    · rintro ⟨p, hp, hfd⟩
      rcases getElem?_accepting.mp hp with hp | ⟨rfl, rfl⟩
      · exact Or.inl ⟨p, hp, hfd⟩
      · rcases hfd with hfd | hfd
        · exact Or.inr ⟨rfl, hfd.symm⟩
        · cases hfd
    · rintro (⟨p, hp, hfd⟩ | ⟨rfl, rfl⟩)
      · exact ⟨p, getElem?_accepting.mpr (Or.inl hp), hfd⟩
      · exact ⟨_, getElem?_accepting.mpr (Or.inr ⟨rfl, rfl⟩), Or.inl rfl⟩
  have hsessions : ∀ p ∈ st.accepting.sessions,
      p ∈ st.sessions ∨ p = Session.new (lowestFree st.openFds) := by
    intro p hp
    simpa [ProxyState.accepting] using hp
  refine ⟨h.owned.acquire hnew hstores, ?_, ?_, Finset.insert_subset_insert _ h.watched, ?_⟩
  · intro p hp
    rcases hsessions p hp with hp | rfl
    · exact h.distinct p hp
    · exact nofun
  · intro sid fd hs
    rcases (hstores sid fd).mp hs with hs | ⟨-, rfl⟩
    · exact h.fits sid fd hs
    · exact hfits
  · intro p hp fd hfd hmem
    rcases hsessions p hp with hp | rfl
    · rcases Finset.mem_insert.mp hmem with rfl | hready
      · obtain ⟨sid, hsid⟩ := List.mem_iff_getElem?.mp hp
        exact hnew (h.owned.isLive ⟨p, hsid, Or.inr hfd⟩)
      · exact h.unwatched p hp fd hfd hready
    · cases hfd

end FdInv

/-! ## One turn of the loop -/

/-- The loop over the sessions comes to session `sid` in state `st₁`. -/
def InFront (alpha : ℚ) (serverSockfd : Nat) (st : ProxyState) (turn : Turn) (sid : Nat)
    (st₁ : ProxyState) : Prop :=
  ∃ ready st₀ evs₀ pre later evs, turn.select = some ready ∧
    acceptClient serverSockfd turn (st.selected ready) = .ok (st₀, evs₀) ∧
    (List.range st₀.sessions.length).reverse = pre ++ sid :: later ∧
    Machine.run (serveSession alpha turn) st₀ pre = .ok (st₁, evs)

/-- The numbers that one turn gives to `FD_ISSET`, `FD_SET` and `FD_CLR`; `none` is -1.  Those for
`FD_CLR` have been given to `FD_ISSET` before. -/
inductive Given (alpha : ℚ) (serverSockfd : Nat) (st : ProxyState) (turn : Turn) :
    Option Nat → Prop where
  | listening : turn.select ≠ none → Given alpha serverSockfd st turn (some serverSockfd)
  | accepted (ready : Finset Nat) : turn.select = some ready →
      serverSockfd ∈ (st.selected ready).readyToRead → turn.accept = true →
      Given alpha serverSockfd st turn (some (lowestFree st.openFds))
  | client (sid : Nat) (st₁ : ProxyState) (node : Session) :
      InFront alpha serverSockfd st turn sid st₁ → st₁.sessions[sid]? = some node →
      Given alpha serverSockfd st turn (some node.clientFd)
  | forwarded (sid : Nat) (st₁ : ProxyState) (node : Session) :
      InFront alpha serverSockfd st turn sid st₁ → st₁.sessions[sid]? = some node →
      node.clientFd ∈ st₁.readyToRead → (turn.client sid).read ≠ none →
      Forwards (turn.client sid) node.clientFd st₁.trackers → 0 < (turn.client sid).retWrite →
      Given alpha serverSockfd st turn (some (st₁.newServer node))
  | server (sid : Nat) (st₁ st₂ : ProxyState) (evs : List ProxyEvent) (node : Session) :
      InFront alpha serverSockfd st turn sid st₁ →
      serveClient turn sid st₁ = .ok (st₂, evs) → st₂.sessions[sid]? = some node →
      Given alpha serverSockfd st turn node.serverFd

/-- A number that may be given to the macros. -/
def InRange (fd : Option Nat) : Prop := ∃ n, fd = some n ∧ n < FD_SETSIZE

/-- The number of a connection that is accepted fits in the set, and for every client that is served
nothing is closed whose number stays behind. -/
structure TurnKept (alpha : ℚ) (serverSockfd : Nat) (st : ProxyState) (turn : Turn) : Prop where
  accepted : ∀ ready, turn.select = some ready → serverSockfd ∈ (st.selected ready).readyToRead →
    turn.accept = true → lowestFree st.openFds < FD_SETSIZE
  served : ∀ sid st₁ node, InFront alpha serverSockfd st turn sid st₁ →
    st₁.sessions[sid]? = some node → node.clientFd ∈ st₁.readyToRead →
    ClientKept (turn.client sid) node st₁

section Turn
variable {initial : Finset Nat} {alpha : ℚ} {turn : Turn} {sid : Nat} {st st' : ProxyState}

/-- A session without a connection to the server is `left` to be served, and its client is ready. -/
def Pending (left : List Nat) (st : ProxyState) : Prop :=
  ∀ sid node, st.sessions[sid]? = some node → node.serverFd = none →
    sid ∈ left ∧ node.clientFd ∈ st.readyToRead

theorem Pending.tail {left : List Nat} (h : Pending (sid :: left) st)
    (hsid : ∀ node, st.sessions[sid]? = some node → node.serverFd ≠ none) : Pending left st := by
  intro sid' p hp hnone
  obtain ⟨hmem, hready⟩ := h sid' p hp hnone
  rcases List.mem_cons.mp hmem with rfl | hmem
  · exact absurd hnone (hsid p hp)
  · exact ⟨hmem, hready⟩

/-- The first half of the loop body: afterwards the session has a connection. -/
theorem FdInv.serveClient (h : FdInv initial st) {left : List Nat}
    (hpending : Pending (sid :: left) st) {evs : List ProxyEvent}
    (hkept : ∀ node, st.sessions[sid]? = some node → node.clientFd ∈ st.readyToRead →
      ClientKept (turn.client sid) node st)
    (hrun : serveClient turn sid st = .ok (st', evs)) :
    FdInv initial st' ∧ Pending left st' := by
  unfold VideoCdn.serveClient at hrun
  cases hnode : st.sessions[sid]? with
  | none =>
    rw [hnode] at hrun
    cases hrun
    exact ⟨h, hpending.tail fun p hp => by rw [hnode] at hp; cases hp⟩
  | some node =>
    rw [hnode] at hrun
    dsimp only at hrun
    rw [bind_eq_ok] at hrun
    obtain ⟨ready, hready, hrun⟩ := hrun
    have hready := fdIsset_eq_ok hready
    simp only [Option.some.injEq, exists_eq_left'] at hready
    split at hrun
    · rename_i hset
      have hclient := hkept node hnode (hready.mp hset)
      have hre := handleClientRecv_kept hclient hrun
      refine ⟨h.reconnected hnode hclient.fits hre, fun sid' p hp hnone => ?_⟩
      obtain ⟨node', hsessions, -, hserver⟩ := hre.session
      by_cases hsid : sid = sid'
      · subst hsid
        have hlt : sid < st.sessions.length := (List.getElem?_eq_some_iff.mp hnode).1
        rw [hsessions, List.getElem?_set_self hlt, Option.some.injEq] at hp
        rw [← hp, hserver] at hnone
        cases hnone
      · rw [hsessions, List.getElem?_set_ne hsid] at hp
        obtain ⟨hmem, hwatched⟩ := hpending sid' p hp hnone
        rw [hre.readyToRead]
        exact ⟨List.mem_of_ne_of_mem (fun heq => hsid heq.symm) hmem, hwatched⟩
    · rename_i hset
      cases hrun
      refine ⟨h, hpending.tail fun p hp hnone => hset (hready.mpr ?_)⟩
      rw [hnode, Option.some.injEq] at hp
      rw [hp]
      exact (hpending sid p (hp ▸ hnode) hnone).2

/-- No response is read. -/
theorem FdInv.serveServer (h : FdInv initial st) {evs : List ProxyEvent}
    (hrun : serveServer alpha turn sid st = .ok (st', evs)) : st' = st := by
  rcases serveServer_step hrun with ⟨rfl, -, -⟩ | ⟨p, fd, hp, hfd, hmem, -⟩
  · rfl
  · exact absurd hmem (h.unwatched p (List.mem_of_getElem? hp) fd hfd)

theorem FdInv.serveSession (h : FdInv initial st) {left : List Nat}
    (hpending : Pending (sid :: left) st) {evs : List ProxyEvent}
    (hkept : ∀ node, st.sessions[sid]? = some node → node.clientFd ∈ st.readyToRead →
      ClientKept (turn.client sid) node st)
    (hrun : serveSession alpha turn st sid = .ok (st', evs)) :
    FdInv initial st' ∧ Pending left st' := by
  obtain ⟨st₁, evs₁, evs₂, hclient, hserver, -⟩ := serveSession_eq_ok.mp hrun
  obtain ⟨hinv, hpending'⟩ := h.serveClient hpending hkept hclient
  obtain rfl := hinv.serveServer hserver
  exact ⟨hinv, hpending'⟩

/-- The loop over the sessions `sids`, up to those that are left. -/
theorem FdInv.loop (h : FdInv initial st) {sids : List Nat} (hpending : Pending sids st)
    (hkept : ∀ pre sid left st₁ evs, sids = pre ++ sid :: left →
      Machine.run (VideoCdn.serveSession alpha turn) st pre = .ok (st₁, evs) →
      ∀ node, st₁.sessions[sid]? = some node → node.clientFd ∈ st₁.readyToRead →
        ClientKept (turn.client sid) node st₁)
    {pre left : List Nat} (hsids : sids = pre ++ left) {evs : List ProxyEvent}
    (hrun : Machine.run (VideoCdn.serveSession alpha turn) st pre = .ok (st', evs)) :
    FdInv initial st' ∧ Pending left st' := by
  refine Machine.run_history
    (P := fun pre _ st' => ∀ left, sids = pre ++ left → FdInv initial st' ∧ Pending left st')
    ?_ ?_ hrun left hsids
  · rintro left rfl
    exact ⟨h, hpending⟩
  · intro pre evs₁ st₁ sid st₂ evs₂ hpre ih hstep left hsids
    rw [List.append_assoc] at hsids
    obtain ⟨hinv, hpending₁⟩ := ih (sid :: left) hsids
    exact hinv.serveSession hpending₁ (hkept pre sid left st₁ evs₁ hsids hpre) hstep

/-- A connection is accepted, or none is pending. -/
theorem acceptClient_eq_ok {serverSockfd : Nat} {evs : List ProxyEvent}
    (h : acceptClient serverSockfd turn st = .ok (st', evs)) :
    st' = st ∨ serverSockfd ∈ st.readyToRead ∧ turn.accept = true ∧ st' = st.accepting := by
  unfold acceptClient at h
  split at h
  · cases h
    exact Or.inl rfl
  · rename_i hmem
    split at h
    · cases h
    · rename_i haccept
      rw [inBounds_bind_eq_ok] at h
      obtain ⟨-, h⟩ := h
      cases h
      exact Or.inr ⟨not_not.mp hmem, by simpa using haccept, rfl⟩

/-- Between two turns every session has a connection to the server. -/
structure TopInv (initial : Finset Nat) (st : ProxyState) : Prop where
  inv : FdInv initial st
  connected : ∀ node ∈ st.sessions, node.serverFd ≠ none

theorem TopInv.acceptClient {serverSockfd : Nat} {ready : Finset Nat} (h : TopInv initial st)
    (hfits : serverSockfd ∈ (st.selected ready).readyToRead → turn.accept = true →
      lowestFree st.openFds < FD_SETSIZE) {evs : List ProxyEvent}
    (hrun : acceptClient serverSockfd turn (st.selected ready) = .ok (st', evs)) :
    FdInv initial st' ∧ Pending (List.range st'.sessions.length).reverse st' := by
  have hsome : ∀ p ∈ (st.selected ready).sessions, p.serverFd ≠ none := h.connected
  have hinv := h.inv.selected ready
  rcases acceptClient_eq_ok hrun with rfl | ⟨hmem, haccept, rfl⟩
  · refine ⟨hinv, fun sid p hp hnone => ?_⟩
    exact absurd hnone (hsome p (List.mem_of_getElem? hp))
  · refine ⟨hinv.accepting (hfits hmem haccept), fun sid p hp hnone => ?_⟩
    have hlt : sid < (st.selected ready).accepting.sessions.length :=
      (List.getElem?_eq_some_iff.mp hp).1
    refine ⟨List.mem_reverse.mpr (List.mem_range.mpr hlt), ?_⟩
    rcases getElem?_accepting.mp hp with hp | ⟨-, rfl⟩
    · exact absurd hnone (hsome p (List.mem_of_getElem? hp))
    · exact Finset.mem_insert_self _ _

/-- In front of every session the invariant holds, and the session is still to be served. -/
theorem TopInv.inFront {serverSockfd : Nat} {st₁ : ProxyState} (h : TopInv initial st)
    (hkept : TurnKept alpha serverSockfd st turn)
    (hfront : InFront alpha serverSockfd st turn sid st₁) :
    FdInv initial st₁ ∧ ∃ left, sid ∉ left ∧ Pending (sid :: left) st₁ := by
  obtain ⟨ready, st₀, evs₀, pre, left, evs, hselect, haccept, hsids, hrun⟩ := hfront
  obtain ⟨hinv, hpending⟩ := h.acceptClient (hkept.accepted ready hselect) haccept
  obtain ⟨hinv₁, hpending₁⟩ := hinv.loop hpending
    (fun pre sid left st₁ evs hsids hrun node hnode => hkept.served sid st₁ node
      ⟨ready, st₀, evs₀, pre, left, evs, hselect, haccept, hsids, hrun⟩ hnode) hsids hrun
  have hnodup : (pre ++ sid :: left).Nodup := hsids ▸ List.nodup_reverse.mpr List.nodup_range
  exact ⟨hinv₁, left, (List.nodup_cons.mp hnodup.of_append_right).1, hpending₁⟩

/-- **The numbers that a turn gives to the macros** are in their range. -/
theorem TopInv.given {serverSockfd : Nat} {fd : Option Nat} (h : TopInv initial st)
    (hsock : serverSockfd < FD_SETSIZE) (hkept : TurnKept alpha serverSockfd st turn)
    (hgiven : Given alpha serverSockfd st turn fd) : InRange fd := by
  cases hgiven with
  | listening => exact ⟨serverSockfd, rfl, hsock⟩
  | accepted ready hselect hmem haccept => exact ⟨_, rfl, hkept.accepted ready hselect hmem haccept⟩
  | client sid st₁ node hfront hnode =>
    obtain ⟨hinv, -⟩ := h.inFront hkept hfront
    exact ⟨node.clientFd, rfl, hinv.fits sid _ ⟨node, hnode, Or.inl rfl⟩⟩
  | forwarded sid st₁ node hfront hnode hready =>
    exact ⟨_, rfl, (hkept.served sid st₁ node hfront hnode hready).fits⟩
  | server sid st₁ st₂ evs node hfront hclient hnode =>
    obtain ⟨hinv, left, hnotin, hpending⟩ := h.inFront hkept hfront
    obtain ⟨hinv₂, hpending₂⟩ := hinv.serveClient hpending
      (fun node hnode hready => hkept.served sid st₁ node hfront hnode hready) hclient
    cases hserver : node.serverFd with
    | some fd => exact ⟨fd, rfl, hinv₂.fits sid fd ⟨node, hnode, Or.inr hserver⟩⟩
    | none =>
      -- a session that has been served is not left
      exact absurd (hpending₂ sid node hnode hserver).1 hnotin

theorem TopInv.iterate {serverSockfd : Nat} {evs : List ProxyEvent} (h : TopInv initial st)
    (hkept : TurnKept alpha serverSockfd st turn)
    (hrun : iterate alpha serverSockfd st turn = .ok (st', evs)) : TopInv initial st' := by
  unfold VideoCdn.iterate at hrun
  split at hrun
  · cases hrun
    exact h
  rename_i ready hselect
  simp only [bind_eq_ok, Prod.exists, pure_eq_ok, Except.ok.injEq, Prod.mk.injEq] at hrun
  obtain ⟨st₀, evs₀, haccept, st₁, evs₁, hserve, rfl, -⟩ := hrun
  obtain ⟨hinv, hpending⟩ := h.acceptClient (hkept.accepted ready hselect) haccept
  obtain ⟨hinv₁, hpending₁⟩ := hinv.loop hpending
    (fun pre sid left st₁ evs hsids hrun node hnode => hkept.served sid st₁ node
      ⟨ready, st₀, evs₀, pre, left, evs, hselect, haccept, hsids, hrun⟩ hnode)
    (List.append_nil _).symm hserve
  refine ⟨hinv₁, fun p hp hnone => ?_⟩
  obtain ⟨sid, hsid⟩ := List.mem_iff_getElem?.mp hp
  exact absurd (hpending₁ sid p hsid hnone).1 List.not_mem_nil

end Turn

/-! ## Numbers that stay behind -/

/-- Session `sid` stores a number that is not open, or that another session stores too. -/
def Dangling (sid fd : Nat) (st : ProxyState) : Prop :=
  st.Stores sid fd ∧ (fd ∉ st.openFds ∨ ∃ sid' ≠ sid, st.Stores sid' fd)

section Dangling
variable {initial : Finset Nat} {alpha : ℚ} {turn : Turn} {sid sid' fd : Nat} {node : Session}
  {st st' : ProxyState}

theorem Dangling.not_owned (h : Dangling sid fd st) : ¬ OwnedFds initial st := by
  obtain ⟨hs, hclosed | ⟨sid', hne, hs'⟩⟩ := h
  · exact fun howned => hclosed (howned.isLive hs)
  · exact fun howned => hne (howned.once hs' hs)

/-- Closing a descriptor does not help. -/
theorem Dangling.of_subset (h : Dangling sid fd st) (hopen : st'.openFds ⊆ st.openFds)
    (hstores : ∀ sid' fd, st'.Stores sid' fd ↔ st.Stores sid' fd) : Dangling sid fd st' := by
  obtain ⟨hs, hclosed | ⟨sid', hne, hs'⟩⟩ := h
  · exact ⟨(hstores sid fd).mpr hs, Or.inl fun hmem => hclosed (hopen hmem)⟩
  · exact ⟨(hstores sid fd).mpr hs, Or.inr ⟨sid', hne, (hstores sid' fd).mpr hs'⟩⟩

theorem ProxyState.openFds_closeServer_subset (st : ProxyState) (node : Session) :
    (st.closeServer node).openFds ⊆ st.openFds := by
  unfold closeServer
  cases node.serverFd with
  | none => exact Finset.Subset.refl _
  | some serverFd => exact Finset.erase_subset _ _

/-- If the number is handed out again, two sessions store it. -/
theorem Dangling.reconnected (h : Dangling sid fd st) (hne : sid' ≠ sid)
    (hnode : st.sessions[sid']? = some node) (hre : Reconnected sid' node st st') :
    Dangling sid fd st' := by
  obtain ⟨hs, hlost⟩ := h
  refine ⟨(hre.stores_of_ne hne.symm).mpr hs, ?_⟩
  by_cases hnew : fd = st.newServer node
  · exact Or.inr ⟨sid', hne, (hre.stores_self hnode).mpr (Or.inr hnew)⟩
  have hopen : fd ∈ st'.openFds → fd ∈ (st.closeServer node).openFds := by
    rw [hre.openFds, Finset.mem_insert]
    exact fun hmem => hmem.resolve_left hnew
  rcases hlost with hclosed | ⟨other, hother, hs'⟩
  · exact Or.inl fun hmem => hclosed (st.openFds_closeServer_subset node (hopen hmem))
  by_cases hsid : other = sid'
  · subst hsid
    rw [st.stores_iff hnode] at hs'
    rcases hs' with hclient | hserver
    · exact Or.inr ⟨other, hne, (hre.stores_self hnode).mpr (Or.inl hclient)⟩
    · -- the old connection of that session is closed
      refine Or.inl fun hmem => ?_
      have hmem := hopen hmem
      unfold ProxyState.closeServer at hmem
      rw [hserver] at hmem
      exact (Finset.mem_erase.mp hmem).1 rfl
  · exact Or.inr ⟨other, hother, (hre.stores_of_ne hsid).mpr hs'⟩

theorem Dangling.serveClient (h : Dangling sid fd st) (hne : sid' ≠ sid) {evs : List ProxyEvent}
    (hrun : serveClient turn sid' st = .ok (st', evs)) : Dangling sid fd st' := by
  rcases serveClient_step hrun with ⟨rfl, -⟩ | ⟨p, hp, hstep⟩
  · exact h
  cases hstep with
  | readError => exact h.of_subset (Finset.erase_subset _ _) fun _ _ => Iff.rfl
  | noServer =>
    refine h.of_subset (st.openFds_closeServer_subset p) fun _ _ => ?_
    unfold ProxyState.Stores
    rw [st.sessions_closeServer]
  | refused => exact h.reconnected hne hp (.of_reconnect _ _ _)
  | refusedRewritten _ _ _ _ _ htrack => exact h.reconnected hne hp (.of_trackChunk htrack)
  | forwarded _ _ _ _ _ htrack => exact h.reconnected hne hp (.of_trackChunk htrack)
  | forwardedReady _ _ _ _ _ htrack =>
    have hre := h.reconnected hne hp (.of_trackChunk htrack)
    exact hre.of_subset (Finset.Subset.refl _) fun _ _ => Iff.rfl

/-- The rates of a session are no descriptors. -/
theorem stores_served (hnode : st.sessions[sid']? = some node) (bitrate : List Int) (n sid fd : Nat) :
    (st.served sid' node n bitrate).Stores sid fd ↔ st.Stores sid fd := by
  have hlt : sid' < st.sessions.length := (List.getElem?_eq_some_iff.mp hnode).1
  unfold ProxyState.Stores ProxyState.served
  dsimp only
  by_cases hsid : sid' = sid
  · subst hsid
    rw [List.getElem?_set_self hlt, hnode]
    simp only [Option.some.injEq, exists_eq_left']
    rfl
  · rw [List.getElem?_set_ne hsid]

theorem Dangling.serveServer (h : Dangling sid fd st) {evs : List ProxyEvent}
    (hrun : serveServer alpha turn sid' st = .ok (st', evs)) : Dangling sid fd st' := by
  rcases serveServer_step hrun with ⟨rfl, -, -⟩ | ⟨p, _, hp, -, -, hstep⟩
  · exact h
  cases hstep with
  | passed n bitrate =>
    exact h.of_subset (Finset.erase_subset _ _) fun sid fd => stores_served hp bitrate n sid fd
  | measured n bitrate =>
    exact h.of_subset (Finset.erase_subset _ _) fun sid fd => stores_served hp bitrate n sid fd

/-- **A number that stays behind** is there at the end of the loop. -/
theorem Dangling.loop (h : Dangling sid fd st) {sids : List Nat} (hsids : sid ∉ sids)
    {evs : List ProxyEvent}
    (hrun : Machine.run (serveSession alpha turn) st sids = .ok (st', evs)) :
    Dangling sid fd st' := by
  have halong : Machine.Along (serveSession alpha turn) (fun _ sid' => sid' ≠ sid) st sids :=
    Machine.along_of_forall (fun sid' hmem _ => ne_of_mem_of_not_mem hmem hsids) st
  refine Machine.run_along_state ?_ h halong hrun
  intro st₁ sid' st₂ _ hst₁ hne hstep
  obtain ⟨st₃, _, _, hclient, hserver, -⟩ := serveSession_eq_ok.mp hstep
  exact (hst₁.serveClient hne hclient).serveServer hserver

end Dangling

/-! ## The condition is needed -/

section Needed
variable {initial : Finset Nat} {alpha : ℚ} {turn : Turn} {sid : Nat} {node : Session}
  {st st' : ProxyState}

theorem handleClientRecv_of_ready (hnode : st.sessions[sid]? = some node)
    (hready : node.clientFd ∈ st.readyToRead) {evs : List ProxyEvent}
    (hrun : serveClient turn sid st = .ok (st', evs)) :
    handleClientRecv (turn.client sid) sid node st = .ok (st', evs) := by
  unfold serveClient at hrun
  rw [hnode] at hrun
  dsimp only at hrun
  rw [bind_eq_ok] at hrun
  obtain ⟨ready, hset, hrun⟩ := hrun
  rwa [if_pos ((fdIsset_eq_ok hset).mpr ⟨node.clientFd, rfl, hready⟩)] at hrun

/-- A session whose server is reached has the new connection. -/
theorem serverFd_of_connected {env : ClientRecv} (hnode : st.sessions[sid]? = some node)
    (hread : env.read ≠ none) (hconn : env.connect = .connected) {evs : List ProxyEvent}
    (hrun : handleClientRecv env sid node st = .ok (st', evs)) :
    ∃ node', st'.sessions[sid]? = some node' ∧ node'.clientFd = node.clientFd ∧
      node'.serverFd = some (st.newServer node) := by
  have hlt : sid < st.sessions.length := (List.getElem?_eq_some_iff.mp hnode).1
  have hreconnected : ∀ {st₂}, Reconnected sid node st st₂ →
      ∃ node', st₂.sessions[sid]? = some node' ∧ node'.clientFd = node.clientFd ∧
        node'.serverFd = some (st.newServer node) := by
    rintro st₂ ⟨-, -, node', hset, hclient, hserver⟩
    exact ⟨node', by rw [hset, List.getElem?_set_self hlt], hclient, hserver⟩
  cases handleClientRecv_step hrun with
  | readError hnone => exact absurd hnone hread
  | noServer _ _ hno => exact absurd hconn hno
  | refused => exact hreconnected (.of_reconnect sid node st)
  | refusedRewritten _ _ _ _ _ htrack => exact hreconnected (.of_trackChunk htrack)
  | forwarded _ _ _ _ _ htrack => exact hreconnected (.of_trackChunk htrack)
  | forwardedReady _ _ _ _ _ htrack =>
    have hre := hreconnected (.of_trackChunk htrack)
    exact hre

/-- After a request that is forwarded the response is awaited. -/
theorem ready_of_forwards {env : ClientRecv} (hread : env.read ≠ none) (hwrite : 0 < env.retWrite)
    (hforwards : Forwards env node.clientFd st.trackers) {evs : List ProxyEvent}
    (hrun : handleClientRecv env sid node st = .ok (st', evs)) :
    st.newServer node ∈ st'.readyToRead := by
  obtain ⟨line, hline, hcase⟩ := hforwards
  rw [handleClientRecv_connected sid node st hread hline.connected, hline.scanned, ok_bind,
    hline.get, if_neg (by simp), inBounds_pos hline.terminated, ok_bind, bind_eq_ok] at hrun
  obtain ⟨⟨buffer, st₂, evs₂⟩, htrack, hrun⟩ := hrun
  dsimp only at hrun
  rw [bind_eq_ok] at hrun
  obtain ⟨line', hscan', hrun⟩ := hrun
  have hget' : isHttpGet line' = true := by
    rcases trackChunk_reconnect_iff.mp ⟨st₂, evs₂, htrack, rfl⟩ with
      ⟨-, rfl, -⟩ | ⟨hfrag, hrw, -⟩
    · -- not a chunk: the scan finds what it has found before
      rw [scanRequest_again hline.scanned, Except.ok.injEq] at hscan'
      rw [← hscan', hline.get]
    · rcases hcase with hplain | ⟨buffer', name, line₂, hchunk, hget⟩
      · rw [hplain] at hfrag
        cases hfrag
      · have hbuffer : buffer = buffer' := Except.ok.inj (hrw.symm.trans hchunk.rewritten)
        have hscan₂ := hchunk.scanned
        rw [← hbuffer, hscan', Except.ok.injEq] at hscan₂
        rw [hscan₂, hget]
  rw [hget', if_neg (by simp), if_pos hwrite, bind_eq_ok] at hrun
  obtain ⟨st₃, hset, hrun⟩ := hrun
  obtain ⟨-, rfl⟩ := ProxyState.fdSet_eq_ok.mp hset
  cases hrun
  exact Finset.mem_insert_self _ _

/-- **A client that is served** meets the condition, if its session is left with no number that
stays behind, and with a number for the macros. -/
theorem clientKept_of_not_dangling (hnode : st.sessions[sid]? = some node)
    (hready : node.clientFd ∈ st.readyToRead) {evs : List ProxyEvent}
    (hrun : serveSession alpha turn st sid = .ok (st', evs))
    (hleft : ∀ fd, ¬ Dangling sid fd st')
    (hgiven : ∀ st₁ evs₁ node', serveClient turn sid st = .ok (st₁, evs₁) →
      st₁.sessions[sid]? = some node' → InRange node'.serverFd) :
    ClientKept (turn.client sid) node st := by
  obtain ⟨st₁, evs₁, evs₂, hclient, hserver, -⟩ := serveSession_eq_ok.mp hrun
  have hleft₁ : ∀ fd, ¬ Dangling sid fd st₁ :=
    fun fd hdangling => hleft fd (hdangling.serveServer hserver)
  have hgiven₁ := fun node' => hgiven st₁ evs₁ node' hclient
  have hcall := handleClientRecv_of_ready hnode hready hclient
  have hread : (turn.client sid).read ≠ none := by
    intro hnone
    rw [handleClientRecv_readError sid node st hnone] at hcall
    cases hcall
    exact hleft₁ node.clientFd ⟨⟨node, hnode, Or.inl rfl⟩, Or.inl (Finset.notMem_erase _ _)⟩
  have hconn : (turn.client sid).connect = .connected := by
    by_contra hno
    rw [handleClientRecv_noServer sid node st hread hno] at hcall
    cases hcall
    have hnode₁ : (st.closeServer node).sessions[sid]? = some node := by
      rw [st.sessions_closeServer]
      exact hnode
    -- without a connection -1 is given to the macros, and with one its number stays behind
    obtain ⟨fd, hfd, -⟩ := hgiven₁ node hnode₁
    refine hleft₁ fd ⟨⟨node, hnode₁, Or.inr hfd⟩, Or.inl ?_⟩
    unfold ProxyState.closeServer
    rw [hfd]
    exact Finset.notMem_erase _ _
  obtain ⟨node₁, hnode₁, hclient₁, hserver₁⟩ := serverFd_of_connected hnode hread hconn hcall
  refine ⟨hread, hconn, ?_, fun hwrite hforwards => ?_⟩
  · obtain ⟨n, hn, hlt⟩ := hgiven₁ node₁ hnode₁
    rw [hserver₁, Option.some.injEq] at hn
    exact hn ▸ hlt
  · -- the response is awaited, and the client is closed behind it
    have hawaited := ready_of_forwards hread hwrite hforwards hcall
    rcases serveServer_step hserver with ⟨-, -, hidle⟩ | ⟨p, fd, hp, -, -, hstep⟩
    · exact hidle node₁ _ hnode₁ hserver₁ hawaited
    · refine hleft p.clientFd ⟨?_, Or.inl ?_⟩
      · have hstores : st₁.Stores sid p.clientFd := ⟨p, hp, Or.inl rfl⟩
        cases hstep with
        | passed n bitrate => exact (stores_served hp bitrate n _ _).mpr hstores
        | measured n bitrate => exact (stores_served hp bitrate n _ _).mpr hstores
      · cases hstep with
        | passed => exact Finset.notMem_erase _ _
        | measured => exact Finset.notMem_erase _ _

/-- A loop that ends with owned descriptors serves clients that meet the condition. -/
theorem clientKept_of_owned {sids : List Nat} (h : FdInv initial st) (hpending : Pending sids st)
    (hnodup : sids.Nodup) {evs : List ProxyEvent}
    (hrun : Machine.run (serveSession alpha turn) st sids = .ok (st', evs))
    (howned : OwnedFds initial st')
    (hgiven : ∀ pre sid left st₁ evs₁, sids = pre ++ sid :: left →
      Machine.run (serveSession alpha turn) st pre = .ok (st₁, evs₁) →
      ∀ st₂ evs₂ node, serveClient turn sid st₁ = .ok (st₂, evs₂) →
        st₂.sessions[sid]? = some node → InRange node.serverFd) :
    ∀ pre sid left st₁ evs₁, sids = pre ++ sid :: left →
      Machine.run (serveSession alpha turn) st pre = .ok (st₁, evs₁) →
      ∀ node, st₁.sessions[sid]? = some node → node.clientFd ∈ st₁.readyToRead →
        ClientKept (turn.client sid) node st₁ := by
  induction sids generalizing st evs with
  | nil => intro pre sid left _ _ hsids; simp at hsids
  | cons sid sids ih =>
    obtain ⟨hnotin, hnodup⟩ := List.nodup_cons.mp hnodup
    obtain ⟨st₁, evs₁, evs₂, hstep, hrest, -⟩ := Machine.run_cons_eq_ok.mp hrun
    have hfirst : ∀ node, st.sessions[sid]? = some node → node.clientFd ∈ st.readyToRead →
        ClientKept (turn.client sid) node st := by
      intro node hnode hready
      refine clientKept_of_not_dangling hnode hready hstep (fun fd hdangling => ?_)
        (fun st₂ evs₂ node' => hgiven [] sid sids st [] rfl rfl st₂ evs₂ node')
      exact (hdangling.loop hnotin hrest).not_owned howned
    obtain ⟨hinv, hpending₁⟩ := h.serveSession hpending hfirst hstep
    intro pre sid' left st₂ evs₃ hsids hpre
    cases pre with
    | nil =>
      cases hsids
      cases hpre
      exact hfirst
    | cons first pre =>
      rw [List.cons_append, List.cons.injEq] at hsids
      obtain ⟨rfl, hsids⟩ := hsids
      obtain ⟨st₁', evs₁', _, hstep', hpre', -⟩ := Machine.run_cons_eq_ok.mp hpre
      rw [hstep, Except.ok.injEq, Prod.mk.injEq] at hstep'
      obtain ⟨rfl, rfl⟩ := hstep'
      refine ih hinv hpending₁ hnodup hrest ?_ pre sid' left st₂ _ hsids hpre'
      intro pre sid'' left st₃ evs₄ hsids hpre
      exact hgiven (sid :: pre) sid'' left st₃ _ (by rw [hsids]; rfl)
        (Machine.run_cons_eq_ok.mpr ⟨st₁, evs₁, evs₄, hstep, hpre, rfl⟩)

/-- **A turn** that leaves the descriptors owned, and gives the macros numbers in their range, meets
the condition. -/
theorem turnKept_of_owned {serverSockfd : Nat} (h : TopInv initial st) {evs : List ProxyEvent}
    (hrun : iterate alpha serverSockfd st turn = .ok (st', evs)) (howned : OwnedFds initial st')
    (hgiven : ∀ fd, Given alpha serverSockfd st turn fd → InRange fd) :
    TurnKept alpha serverSockfd st turn := by
  have haccepted : ∀ ready, turn.select = some ready →
      serverSockfd ∈ (st.selected ready).readyToRead → turn.accept = true →
      lowestFree st.openFds < FD_SETSIZE := by
    intro ready hselect hmem haccept
    obtain ⟨n, hn, hlt⟩ := hgiven _ (.accepted ready hselect hmem haccept)
    rw [Option.some.injEq] at hn
    exact hn ▸ hlt
  refine ⟨haccepted, ?_⟩
  rintro sid st₁ node ⟨ready, st₀, evs₀, pre, left, evs₁, hselect, haccept, hsids, hpre⟩
  unfold iterate at hrun
  rw [hselect] at hrun
  dsimp only at hrun
  rw [haccept, ok_bind, bind_eq_ok] at hrun
  obtain ⟨⟨st₂, evs₂⟩, hserve, hrun⟩ := hrun
  cases hrun
  obtain ⟨hinv, hpending⟩ := h.acceptClient (haccepted ready hselect) haccept
  refine clientKept_of_owned hinv hpending (List.nodup_reverse.mpr List.nodup_range) hserve howned
    ?_ pre sid left st₁ evs₁ hsids hpre node
  intro pre sid left st₁ evs₁ hsids hpre st₂ evs₂ node hclient hnode
  exact hgiven _ (.server sid st₁ st₂ evs₂ node
    ⟨ready, st₀, evs₀, pre, left, evs₁, hselect, haccept, hsids, hpre⟩ hclient hnode)

end Needed

/-! ## Whole runs -/

/-- At the top of the loop the sessions own what is open, and the turn that comes next gives the
macros numbers in their range. -/
def OwnedThroughout (alpha : ℚ) (initial : Finset Nat) (serverSockfd : Nat) (st : ProxyState)
    (turns : List Turn) : Prop :=
  ∀ pre post st' evs, turns = pre ++ post →
    Machine.run (iterate alpha serverSockfd) st pre = .ok (st', evs) →
    OwnedFds initial st' ∧ ∀ turn rest, post = turn :: rest →
      ∀ fd, Given alpha serverSockfd st' turn fd → InRange fd

section Run
variable {alpha : ℚ} {initial : Finset Nat} {serverSockfd : Nat} {turns : List Turn}

theorem topInv_start (openFds : Finset Nat) (serverSockfd : Nat) :
    TopInv (insert serverSockfd openFds) (.start openFds serverSockfd) := by
  refine ⟨⟨⟨?_, ?_, fun hfd => Or.inl hfd⟩, ?_, ?_, ?_, ?_⟩, ?_⟩
  · rintro sid fd ⟨node, hnode, -⟩
    cases hnode
  · rintro sid sid' fd ⟨node, hnode, -⟩
    cases hnode
  · exact fun node hnode => absurd hnode List.not_mem_nil
  · rintro sid fd ⟨node, hnode, -⟩
    cases hnode
  · exact Finset.singleton_subset_iff.mpr (Finset.mem_insert_self _ _)
  · exact fun node hnode => absurd hnode List.not_mem_nil
  · exact fun node hnode => absurd hnode List.not_mem_nil

/-- Turns that meet the condition keep the descriptors owned. -/
theorem ownedThroughout_of_kept {st : ProxyState} (hsock : serverSockfd < FD_SETSIZE)
    (h : TopInv initial st)
    (hkept : Machine.Along (iterate alpha serverSockfd) (TurnKept alpha serverSockfd) st turns) :
    OwnedThroughout alpha initial serverSockfd st turns := by
  rintro pre post st' evs rfl hrun
  obtain ⟨hpre, hpost⟩ := Machine.along_append.mp hkept
  have htop : TopInv initial st' :=
    Machine.run_along_state (fun _ _ _ _ htop hkept hturn => htop.iterate hkept hturn) h hpre hrun
  refine ⟨htop.inv.owned, ?_⟩
  rintro turn rest rfl fd hgiven
  exact htop.given hsock (Machine.along_cons.mp (hpost st' evs hrun)).1 hgiven

/-- A run that returns with the descriptors owned throughout has made such turns. -/
theorem kept_of_ownedThroughout {st st' : ProxyState} {evs : List ProxyEvent}
    (h : TopInv initial st)
    (hrun : Machine.run (iterate alpha serverSockfd) st turns = .ok (st', evs))
    (howned : OwnedThroughout alpha initial serverSockfd st turns) :
    Machine.Along (iterate alpha serverSockfd) (TurnKept alpha serverSockfd) st turns := by
  induction turns generalizing st evs with
  | nil => trivial
  | cons turn turns ih =>
    obtain ⟨st₁, evs₁, evs₂, hturn, hrest, -⟩ := Machine.run_cons_eq_ok.mp hrun
    have hone : Machine.run (iterate alpha serverSockfd) st [turn] = .ok (st₁, evs₁ ++ []) :=
      Machine.run_cons_eq_ok.mpr ⟨st₁, evs₁, [], hturn, rfl, rfl⟩
    obtain ⟨-, hgiven⟩ := howned [] (turn :: turns) st [] rfl rfl
    obtain ⟨howned₁, -⟩ := howned [turn] turns st₁ _ rfl hone
    have hkept := turnKept_of_owned h hturn howned₁ (hgiven turn turns rfl)
    refine Machine.along_cons.mpr ⟨hkept, fun s es hstep => ?_⟩
    rw [hturn, Except.ok.injEq, Prod.mk.injEq] at hstep
    obtain ⟨rfl, rfl⟩ := hstep
    refine ih (h.iterate hkept hturn) hrest ?_
    intro pre post st₂ evs₃ hsplit hpre
    exact howned (turn :: pre) post st₂ _ (by rw [hsplit]; rfl)
      (Machine.run_cons_eq_ok.mpr ⟨st₁, evs₁, evs₃, hturn, hpre, rfl⟩)

/-- **The exact condition**: turns in which nothing is closed whose number stays behind.  It is
enough in every run, and it is met by every run that returns with the descriptors owned. -/
theorem ownedThroughout_iff {openFds : Finset Nat} (hsock : serverSockfd < FD_SETSIZE) :
    (Machine.Along (iterate alpha serverSockfd) (TurnKept alpha serverSockfd)
        (.start openFds serverSockfd) turns →
      OwnedThroughout alpha (insert serverSockfd openFds) serverSockfd
        (.start openFds serverSockfd) turns) ∧
    ((∃ st evs, Machine.run (iterate alpha serverSockfd) (.start openFds serverSockfd) turns =
        .ok (st, evs)) →
      OwnedThroughout alpha (insert serverSockfd openFds) serverSockfd
        (.start openFds serverSockfd) turns →
      Machine.Along (iterate alpha serverSockfd) (TurnKept alpha serverSockfd)
        (.start openFds serverSockfd) turns) :=
  ⟨ownedThroughout_of_kept hsock (topInv_start openFds serverSockfd),
    fun ⟨_, _, hrun⟩ => kept_of_ownedThroughout (topInv_start openFds serverSockfd) hrun⟩

end Run

/-! ## A client that is answered -/

theorem not_forwards_of_dropped {env : ClientRecv} (h : Dropped env) (fd : Nat)
    (trackers : Trackers) : ¬ Forwards env fd trackers := by
  rintro ⟨line, ⟨hconn, hscan, hget, -⟩, -⟩
  rcases h with h | ⟨line', hscan', hget'⟩
  · exact h hconn
  · rw [hscan, Except.ok.injEq] at hscan'
    rw [← hscan', hget] at hget'
    cases hget'

theorem dropped_postRequest : Dropped postRequest := by
  have hget : (scanRequest postRequest.stack (readBuffer postRequest.text)).map isHttpGet =
      .ok false := by decide +kernel
  exact Or.inr (map_eq_ok.mp hget)

/-- A turn behind which there is one session. -/
theorem turnKept_single {st st₀ : ProxyState} {turn : Turn} {ready : Finset Nat}
    {evs₀ : List ProxyEvent} {node : Session} (hselect : turn.select = some ready)
    (haccept : acceptClient 3 turn (st.selected ready) = .ok (st₀, evs₀))
    (hfits : lowestFree st.openFds < FD_SETSIZE) (hsessions : st₀.sessions = [node])
    (hkept : ClientKept (turn.client 0) node st₀) : TurnKept 1 3 st turn := by
  refine ⟨fun _ _ _ _ => hfits, ?_⟩
  rintro sid st₁ p ⟨ready', st₀', evs₀', pre, later, evs, hselect', haccept', hsids, hrun⟩ hp -
  rw [hselect, Option.some.injEq] at hselect'
  rw [← hselect', haccept, Except.ok.injEq, Prod.mk.injEq] at haccept'
  obtain ⟨rfl, -⟩ := haccept'
  rw [hsessions] at hsids
  cases pre with
  | nil =>
    cases hsids
    cases hrun
    rw [hsessions] at hp
    cases hp
    exact hkept
  | cons a pre => simp at hsids

/-- A client whose request is not forwarded. -/
theorem ownedThroughout_post :
    OwnedThroughout 1 {3, 0, 1, 2} 3 (.start {0, 1, 2} 3) [postTurn {3}] := by
  have haccept : acceptClient 3 (postTurn {3}) ((ProxyState.start {0, 1, 2} 3).selected {3}) =
      .ok (((ProxyState.start {0, 1, 2} 3).selected {3}).accepting, [.accepted 0 4]) := by
    decide +kernel
  have hkept : TurnKept 1 3 (.start {0, 1, 2} 3) (postTurn {3}) := by
    refine turnKept_single rfl haccept (by decide) rfl
      ⟨Option.some_ne_none _, rfl, by decide, fun _ => ?_⟩
    exact not_forwards_of_dropped dropped_postRequest _ _
  exact (ownedThroughout_iff (by decide)).1
    (Machine.along_cons.mpr ⟨hkept, fun _ _ _ => trivial⟩)

/-- A client connects, asks for a page and gets it. -/
def pageTurn : Turn where
  select := some {3}
  accept := true
  client := fun _ => wholeRequest
  server := fun _ => ⟨ascii "HTTP/1.1 200 OK\r\nContent-Length: 2\r\nContent-Type: text/html\r\n\r\n",
    ascii "ok", ⟨0, 0⟩⟩

/-- A client connects, and the server is not reached. -/
def refusedTurn : Turn where
  select := some {3}
  accept := true
  client := fun _ => { wholeRequest with connect := .refused }
  server := fun _ => ⟨[], [], ⟨0, 0⟩⟩

/-- **A number that stays behind**: the client that got its page has been closed, and its session
still has its number. -/
theorem pageTurn_dangling : ∃ st evs,
    Machine.run (iterate 1 3) (.start {0, 1, 2} 3) [pageTurn] = .ok (st, evs) ∧
    ¬ OwnedFds {3, 0, 1, 2} st := by
  have hafter : (Machine.run (iterate 1 3) (.start {0, 1, 2} 3) [pageTurn]).map
      (fun r => (decide (4 ∈ r.1.openFds), (r.1.sessions[0]?).map Session.clientFd)) =
        .ok (false, some 4) := by decide +kernel
  obtain ⟨⟨st, evs⟩, hrun, hstate⟩ := map_eq_ok.mp hafter
  rw [Prod.mk.injEq] at hstate
  refine ⟨st, evs, hrun, fun howned => ?_⟩
  obtain ⟨node, hnode, hclient⟩ := Option.map_eq_some_iff.mp hstate.2
  exact (of_decide_eq_false hstate.1) (howned.isLive ⟨node, hnode, Or.inl hclient⟩)

/-- **The number -1**: the session has no connection to the server, and is asked for it. -/
theorem refusedTurn_given : Given 1 3 (.start {0, 1, 2} 3) refusedTurn none := by
  have haccept : acceptClient 3 refusedTurn ((ProxyState.start {0, 1, 2} 3).selected {3}) =
      .ok (((ProxyState.start {0, 1, 2} 3).selected {3}).accepting, [.accepted 0 4]) := by
    decide +kernel
  have hclient : serveClient refusedTurn 0
      ((ProxyState.start {0, 1, 2} 3).selected {3}).accepting =
        .ok (((ProxyState.start {0, 1, 2} 3).selected {3}).accepting, []) := by
    decide +kernel
  exact .server 0 _ _ _ (Session.new 4) ⟨{3}, _, _, [], [], _, rfl, haccept, rfl, rfl⟩ hclient rfl

theorem ownedFds_lost :
    (¬ ∀ (alpha : ℚ) (openFds : Finset Nat) (serverSockfd : Nat) (turns : List Turn)
      (st : ProxyState) (evs : List ProxyEvent), serverSockfd < FD_SETSIZE →
      Machine.run (iterate alpha serverSockfd) (.start openFds serverSockfd) turns =
        .ok (st, evs) → OwnedFds (insert serverSockfd openFds) st) ∧
    ¬ ∀ (alpha : ℚ) (openFds : Finset Nat) (serverSockfd : Nat) (turns : List Turn)
      (st : ProxyState) (evs : List ProxyEvent) (turn : Turn) (fd : Option Nat),
      serverSockfd < FD_SETSIZE →
      Machine.run (iterate alpha serverSockfd) (.start openFds serverSockfd) turns =
        .ok (st, evs) → Given alpha serverSockfd st turn fd → InRange fd := by
  constructor
  · intro h
    obtain ⟨st, evs, hrun, hnot⟩ := pageTurn_dangling
    exact hnot (h 1 {0, 1, 2} 3 [pageTurn] st evs (by decide) hrun)
  · intro h
    obtain ⟨n, hn, -⟩ := h 1 {0, 1, 2} 3 [] _ [] refusedTurn none (by decide) rfl refusedTurn_given
    cases hn

end VideoCdn
