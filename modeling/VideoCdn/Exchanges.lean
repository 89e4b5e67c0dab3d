import VideoCdn.Isolation
import VideoCdn.Lib.Protocol

/-!
# One exchange at a time (`main` of `src/proxy.c`)

* `Progress`, `Progress.next` — how far the last request that was read has come, and what may happen
  next: its chunk may be renamed, it may be sent on, and then its response may be measured and passed
  on, all in the name of the session that has connected.
* `UnheldNumber` — no connection is accepted on a number that a session still holds for the server.
* `exchanges_run` — **runs**: whatever the clients and the servers do, the log of such a run is a
  sequence of exchanges, none inside another, and no session gets more responses than it has made
  connections to the server.
-/

set_option autoImplicit false

namespace VideoCdn

open CLib Protocol

/-- How far the last request has come. -/
inductive Progress where
  | idle
  | connected (sid : Nat)
  | renamed (sid : Nat)
  | sent (sid : Nat)
  | measured (sid : Nat)
  deriving DecidableEq, Repr

namespace Progress

/-- The request of session `sid` can be answered. -/
def awaits (sid : Nat) (p : Progress) : Bool := p = connected sid ∨ p = renamed sid ∨ p = sent sid

/-- No response is being passed on. -/
def paused : Progress → Bool
  | measured _ => false
  | _ => true

def next (p : Progress) : ProxyEvent → Option Progress
  | .accepted _ _ => if p.paused then some idle else none
  | .connected sid _ => if p.paused then some (connected sid) else none
  | .chunkRequest sid _ _ _ => if p = connected sid then some (renamed sid) else none
  | .upstream sid _ => if p = connected sid ∨ p = renamed sid then some (sent sid) else none
  | .chunkResponse sid _ _ _ => if p.awaits sid then some (measured sid) else none
  | .downstream sid _ => if p.awaits sid ∨ p = measured sid then some idle else none

theorem paused_of_awaits {sid : Nat} {p : Progress} (h : p.awaits sid = true) : p.paused = true := by
  simp only [awaits, decide_eq_true_eq] at h
  rcases h with rfl | rfl | rfl <;> rfl

end Progress

def isRequest (sid : Nat) : ProxyEvent → Bool
  | .connected sid' _ => sid' = sid
  | _ => false

def isResponse (sid : Nat) : ProxyEvent → Bool
  | .downstream sid' _ => sid' = sid
  | _ => false

/-- The responses that session `sid` can still get. -/
def Progress.left (sid : Nat) (p : Progress) : Nat :=
  if p.awaits sid ∨ p = measured sid then 1 else 0

/-- A response uses up what a connection has given. -/
theorem Progress.left_next {sid : Nat} {p p' : Progress} {e : ProxyEvent} (h : p.next e = some p') :
    (isResponse sid e).toNat + p'.left sid ≤ (isRequest sid e).toNat + p.left sid := by
  cases e with
  | accepted sid' fd =>
    obtain ⟨-, he⟩ := Option.ite_none_right_eq_some.mp h
    cases he
    simp [left, awaits, isResponse]
  | connected sid' fd =>
    obtain ⟨-, he⟩ := Option.ite_none_right_eq_some.mp h
    cases he
    by_cases hsid : sid' = sid <;> simp [left, awaits, isResponse, isRequest, hsid]
  | chunkRequest sid' fd estimate rate =>
    obtain ⟨rfl, he⟩ := Option.ite_none_right_eq_some.mp h
    cases he
    by_cases hsid : sid' = sid <;> simp [left, awaits, isResponse, isRequest, hsid]
  | upstream sid' bytes =>
    obtain ⟨rfl | rfl, he⟩ := Option.ite_none_right_eq_some.mp h <;> cases he <;>
      by_cases hsid : sid' = sid <;> simp [left, awaits, isResponse, isRequest, hsid]
  | chunkResponse sid' fd download log =>
    obtain ⟨hwait, he⟩ := Option.ite_none_right_eq_some.mp h
    cases he
    by_cases hsid : sid' = sid
    · subst hsid
      simp [left, hwait, isResponse]
    · simp [left, awaits, isResponse, hsid]
  | downstream sid' bytes =>
    obtain ⟨hwait, he⟩ := Option.ite_none_right_eq_some.mp h
    cases he
    by_cases hsid : sid' = sid
    · subst hsid
      have hleft : p.left sid' = 1 := if_pos hwait
      rw [hleft]
      simp [left, awaits, isResponse, isRequest]
    · simp [left, awaits, isResponse, hsid]

/-! ## The invariant -/

/-- A connection is accepted on no number that a session still holds for the server. -/
abbrev UnheldNumber (serverSockfd : Nat) (st : ProxyState) (turn : Turn) : Prop :=
  turn.accepts serverSockfd st = true →
    ∀ node ∈ st.sessions, node.serverFd ≠ some (lowestFree st.openFds)

/-- Between two passes of the loop over the sessions: no response is on its way. -/
structure InTurn (evs : List ProxyEvent) (st : ProxyState) : Prop where
  log : ∃ p, Follows Progress.next .idle evs p ∧ p.paused = true
  none_awaited : NoneAwaited st

/-- Within the pass of session `sid`: the only response on its way is the one for its request. -/
structure InPass (sid : Nat) (evs : List ProxyEvent) (st : ProxyState) : Prop where
  log : ∃ p, Follows Progress.next .idle evs p ∧ p.awaits sid = true
  awaited : ∃ fd, Awaited sid fd st

section InTurn
variable {alpha : ℚ} {evs es : List ProxyEvent} {turn : Turn} {sid : Nat} {st st' : ProxyState}

theorem InTurn.reconnect (h : InTurn evs st) {node : Session} (hnode : st.sessions[sid]? = some node) :
    Follows Progress.next .idle (evs ++ [.connected sid (st.newServer node)]) (.connected sid) ∧
      Awaited sid (st.newServer node) (st.reconnect sid node) := by
  obtain ⟨p, hlog, hpaused⟩ := h.log
  exact ⟨hlog.snoc (if_pos hpaused), h.none_awaited.reconnect hnode⟩

/-- The handling of a chunk comes behind the connection, and leaves room for the request. -/
theorem follows_trackChunk {now : Timespec} {node : Session} {file buffer buffer' : Bytes}
    (hlog : Follows Progress.next .idle evs (.connected sid))
    (htrack : trackChunk now sid node file buffer st = .ok (buffer', st', es)) :
    ∃ p, Follows Progress.next .idle (evs ++ es) p ∧ (p = .connected sid ∨ p = .renamed sid) := by
  rcases trackChunk_eq_ok.mp htrack with ⟨-, -, -, rfl⟩ | ⟨trackers, trackers', -, -, -, rfl⟩
  · rw [List.append_nil]
    exact ⟨.connected sid, hlog, Or.inl rfl⟩
  · exact ⟨.renamed sid, hlog.snoc (if_pos rfl), Or.inr rfl⟩

/-- The client's part of a pass. -/
theorem InTurn.serveClient (h : InTurn evs st)
    (hclient : VideoCdn.serveClient turn sid st = .ok (st', es)) :
    InTurn (evs ++ es) st' ∨ InPass sid (evs ++ es) st' := by
  rcases serveClient_step hclient with ⟨rfl, rfl⟩ | ⟨node, hnode, hstep⟩
  · rw [List.append_nil]
    exact Or.inl h
  obtain ⟨hconnected, hawaited⟩ := h.reconnect hnode
  cases hstep with
  | readError _ =>
    rw [List.append_nil]
    exact Or.inl ⟨h.log, h.none_awaited⟩
  | noServer _ _ _ =>
    rw [List.append_nil]
    refine Or.inl ⟨h.log, ?_⟩
    unfold NoneAwaited
    rw [st.sessions_closeServer, st.readyToRead_closeServer]
    exact h.none_awaited
  | refused _ _ => exact Or.inr ⟨⟨_, hconnected, by simp [Progress.awaits]⟩, _, hawaited⟩
  | refusedRewritten _ _ _ es _ htrack =>
    obtain ⟨p, hlog, hp⟩ := follows_trackChunk hconnected htrack
    rw [List.append_cons evs]
    refine Or.inr ⟨⟨p, hlog, ?_⟩, _, hawaited.trackChunk rfl htrack⟩
    rcases hp with rfl | rfl <;> simp [Progress.awaits]
  | forwarded _ _ _ es _ htrack _ =>
    obtain ⟨p, hlog, hp⟩ := follows_trackChunk hconnected htrack
    rw [← List.append_assoc, List.append_cons evs]
    exact Or.inr ⟨⟨.sent sid, hlog.snoc (if_pos hp), by simp [Progress.awaits]⟩, _,
      hawaited.trackChunk rfl htrack⟩
  | forwardedReady _ _ _ es _ htrack _ _ =>
    obtain ⟨p, hlog, hp⟩ := follows_trackChunk hconnected htrack
    rw [← List.append_assoc, List.append_cons evs]
    exact Or.inr ⟨⟨.sent sid, hlog.snoc (if_pos hp), by simp [Progress.awaits]⟩, _,
      (hawaited.trackChunk rfl htrack).fdSet⟩

/-- Without a response on its way the server's part of a pass does nothing. -/
theorem InTurn.serveServer (h : InTurn evs st)
    (hserver : VideoCdn.serveServer alpha turn sid st = .ok (st', es)) : InTurn (evs ++ es) st' := by
  rcases serveServer_step hserver with ⟨rfl, rfl, -⟩ | ⟨node, fd, hnode, hfd, hmem, -⟩
  · rwa [List.append_nil]
  · exact absurd hmem (h.none_awaited node (List.mem_of_getElem? hnode) fd hfd)

/-- With one, it is passed on in the name of the session. -/
theorem InPass.serveServer (h : InPass sid evs st)
    (hserver : VideoCdn.serveServer alpha turn sid st = .ok (st', es)) : InTurn (evs ++ es) st' := by
  obtain ⟨⟨p, hlog, hwait⟩, fd, hfd⟩ := h
  rcases serveServer_step hserver with ⟨rfl, rfl, hidle⟩ | ⟨node, fd', hnode, hfd', hmem, hstep⟩
  · rw [List.append_nil]
    obtain ⟨q, hq, hserverFd⟩ := hfd.session
    exact ⟨⟨p, hlog, Progress.paused_of_awaits hwait⟩, hfd.unwatched (hidle q fd hq hserverFd)⟩
  · rw [← hfd.only node (List.mem_of_getElem? hnode) fd' hfd' hmem] at hfd
    cases hstep with
    | passed fd₁ bitrate out hfd₁ =>
      rw [hfd', Option.some.injEq] at hfd₁
      subst hfd₁
      exact ⟨⟨.idle, hlog.snoc (if_pos (Or.inl hwait)), rfl⟩, hfd.served hfd' bitrate⟩
    | measured fd₁ bitrate out ts trackers log hfd₁ _ _ =>
      rw [hfd', Option.some.injEq] at hfd₁
      subst hfd₁
      have hmeasured : Follows Progress.next .idle
          (evs ++ [.chunkResponse sid node.clientFd ⟨out.length, ts, (turn.server sid).now⟩ log])
          (.measured sid) := hlog.snoc (if_pos hwait)
      rw [List.append_cons evs]
      exact ⟨⟨.idle, hmeasured.snoc (if_pos (Or.inr rfl)), rfl⟩, hfd.served hfd' bitrate⟩

/-- **Step lemma**: the loop over the sessions. -/
theorem InTurn.serveSessions (evs : List ProxyEvent) (h : InTurn evs st)
    (hserve : VideoCdn.serveSessions alpha turn st = .ok (st', es)) : InTurn (evs ++ es) st' := by
  refine Machine.run_invariant (Q := InTurn) (fun evs st sid st' es hst h => ?_) h hserve
  obtain ⟨st₁, evs₁, evs₂, hclient, hserver, rfl⟩ := serveSession_eq_ok.mp h
  rw [← List.append_assoc]
  rcases hst.serveClient hclient with hturn | hpass
  · exact hturn.serveServer hserver
  · exact hpass.serveServer hserver

theorem InTurn.iterate {serverSockfd : Nat} (h : InTurn evs st)
    (hunheld : UnheldNumber serverSockfd st turn)
    (hturn : VideoCdn.iterate alpha serverSockfd st turn = .ok (st', es)) : InTurn (evs ++ es) st' := by
  have hselected : ∀ ready, InTurn evs (st.selected ready) := by
    refine fun ready => ⟨h.log, fun node hnode fd hfd hmem => ?_⟩
    exact h.none_awaited node hnode fd hfd (Finset.mem_inter.mp hmem).1
  cases iterate_step hturn with
  | failed _ => rwa [List.append_nil]
  | idle ready _ _ _ _ hserve => exact (hselected ready).serveSessions evs hserve
  | accepted ready _ es hselect hmem hserve =>
    have haccepts : turn.accepts serverSockfd st = true := by
      unfold Turn.accepts
      rw [hselect]
      exact decide_eq_true hmem
    have hopened : InTurn (evs ++ [.accepted st.sessions.length (lowestFree st.openFds)])
        (st.selected ready).accepting := by
      obtain ⟨p, hlog, hpaused⟩ := h.log
      refine ⟨⟨.idle, hlog.snoc (if_pos hpaused), rfl⟩, fun node hnode fd hfd hmem => ?_⟩
      rcases List.mem_append.mp hnode with hnode | hnode
      · rcases Finset.mem_insert.mp hmem with rfl | hmem
        · exact hunheld haccepts node hnode hfd
        · exact (hselected ready).none_awaited node hnode fd hfd hmem
      · rw [List.mem_singleton.mp hnode] at hfd
        cases hfd
    have hserved := hopened.serveSessions _ hserve
    rwa [List.append_assoc] at hserved

end InTurn

/-- **Exchanges**: the log of a run that accepts connections on unheld numbers only is a sequence of
exchanges, each in the name of one session, and no session gets more responses than it has made
connections to the server. -/
theorem exchanges_run {alpha : ℚ} {openFds : Finset Nat} {serverSockfd : Nat} {turns : List Turn}
    {st : ProxyState} {evs : List ProxyEvent}
    (hunheld : Machine.Along (iterate alpha serverSockfd) (UnheldNumber serverSockfd)
      (.start openFds serverSockfd) turns)
    (h : Machine.run (iterate alpha serverSockfd) (.start openFds serverSockfd) turns =
      .ok (st, evs)) : (∃ p, Follows Progress.next .idle evs p) ∧
      ∀ sid, evs.countP (isResponse sid) ≤ evs.countP (isRequest sid) := by
  have hstart : InTurn [] (ProxyState.start openFds serverSockfd) :=
    ⟨⟨.idle, Follows.nil _, rfl⟩, nofun⟩
  have hrun : InTurn evs st := Machine.run_along (Q := InTurn)
    (fun _ _ _ _ _ hst hnumber hturn => hst.iterate hnumber hturn) hstart hunheld h
  obtain ⟨p, hlog, -⟩ := hrun.log
  refine ⟨⟨p, hlog⟩, fun sid => ?_⟩
  have hcount : evs.countP (isResponse sid) + p.left sid ≤
      evs.countP (isRequest sid) + Progress.left sid .idle :=
    hlog.countP_le (fun _ _ _ he => Progress.left_next he)
  have hidle : Progress.left sid .idle = 0 := rfl
  omega

/-- Two clients behind one another: the second one gets the number of the first. -/
theorem exchanges_run_behind : ∃ st evs,
    Machine.run (iterate 1 3) (.start {0, 1, 2} 3) [chunkTurn {3} [0], chunkTurn {3} [1]] =
      .ok (st, evs) ∧
    (∃ p, Follows Progress.next .idle evs p) ∧
    ∀ sid, evs.countP (isResponse sid) ≤ evs.countP (isRequest sid) := by
  obtain ⟨st, evs, hrun, -⟩ := firstEvents_eq_ok firstEvents_behind
  exact ⟨st, evs, hrun, exchanges_run (by decide +kernel) hrun⟩

end VideoCdn
