import VideoCdn.Listening

/-!
# Whose downloads an estimate rests on

Trackers are found by the number of a descriptor, and stay when the descriptor is closed.  A client may
connect again and again; a response closes the connection on which it was asked for.

* `ownerOf` — the client whose connection was last given a number.
* `ownDownloads` — the downloads of a client, over all its connections, with the numbers under which
  they were measured; `under` are those of one number.
* `ownEstimate` — the estimate that such downloads alone give.
* `FreshNumber` — no connection is accepted on a number under which a download of another client was
  measured, or that a session still holds for a server it could not connect to again.
* `Awaited` — the only response that can come in a pass of the loop is the one for the request that
  the pass has read.
* `Isolated` — the invariant of runs that meet this: every estimate rests on the downloads of the client
  that has the number.
* `chunkRequest_own` — in two such runs, equal downloads of one's own under the number give equal
  estimates and bitrates, whatever the other clients do.
* `chunkRequest_inherited` — the client that gets the number of another one.
-/

set_option autoImplicit false

namespace VideoCdn

open CLib

/-! ## Estimates of one's own -/

/-- The session that has connected to the server for a request, until it is served the response. -/
def askingStep (asking : Option Nat) : ProxyEvent → Option Nat
  | .accepted .. => none
  | .connected sid _ => some sid
  | .chunkRequest .. => asking
  | .upstream .. => asking
  | .downstream .. => none
  | .chunkResponse .. => none

def asking (evs : List ProxyEvent) : Option Nat := evs.foldl askingStep none

section Clients
variable {κ : Type} (client : Nat → κ)

/-- `client` says whose connection a session is accepted for. -/
def ownerStep (fd : Nat) (owner : Option κ) : ProxyEvent → Option κ
  | .accepted sid fd' => if fd' = fd then some (client sid) else owner
  | .connected .. => owner
  | .chunkRequest .. => owner
  | .upstream .. => owner
  | .downstream .. => owner
  | .chunkResponse .. => owner

/-- The client whose connection was last given the number `fd`. -/
def ownerOf (fd : Nat) (evs : List ProxyEvent) : Option κ := evs.foldl (ownerStep client fd) none

/-- A download that was measured under the number `fd`, and whose it is. -/
structure ClientDownload (κ : Type) where
  client : Option κ
  fd : Nat
  download : Download

/-- A download for a request read from a number belongs to the client that has it. -/
def downloadStep (before : List ProxyEvent) : ProxyEvent → List (ClientDownload κ)
  | .accepted .. => []
  | .connected .. => []
  | .chunkRequest .. => []
  | .upstream .. => []
  | .downstream .. => []
  | .chunkResponse sid fd download _ =>
    [⟨if asking before = some sid then ownerOf client fd before else none, fd, download⟩]

/-- All downloads that were measured. -/
def clientDownloads (evs : List ProxyEvent) : List (ClientDownload κ) :=
  (evs.foldl (fun hist e => (hist.1 ++ [e], hist.2 ++ downloadStep client hist.1 e)) ([], [])).2

/-- The downloads of client `k` over all its connections, with their numbers. -/
def ownDownloads [DecidableEq κ] (k : κ) (evs : List ProxyEvent) : List (Nat × Download) :=
  ((clientDownloads client evs).filter (fun d => decide (d.client = some k))).map
    fun d => (d.fd, d.download)

end Clients

/-- The downloads that were measured under the number `fd`. -/
def under (fd : Nat) (downloads : List (Nat × Download)) : List Download :=
  (downloads.filter (fun d => decide (d.1 = fd))).map Prod.snd

def ownEstimate (alpha : ℚ) (own : List Download) : ℚ :=
  own.foldl (fun tp download => (estTp alpha tp download.ts download.tf download.size).1) 100

theorem asking_snoc (evs : List ProxyEvent) (e : ProxyEvent) :
    asking (evs ++ [e]) = askingStep (asking evs) e := by
  unfold asking
  rw [List.foldl_append]
  rfl

theorem ownerOf_snoc {κ : Type} (client : Nat → κ) (fd : Nat) (evs : List ProxyEvent)
    (e : ProxyEvent) :
    ownerOf client fd (evs ++ [e]) = ownerStep client fd (ownerOf client fd evs) e := by
  unfold ownerOf
  rw [List.foldl_append]
  rfl

theorem clientDownloads_snoc {κ : Type} (client : Nat → κ) (evs : List ProxyEvent)
    (e : ProxyEvent) : clientDownloads client (evs ++ [e]) =
      clientDownloads client evs ++ downloadStep client evs e := by
  have hfst : ∀ hist : List ProxyEvent × List (ClientDownload κ),
      (evs.foldl (fun hist e => (hist.1 ++ [e], hist.2 ++ downloadStep client hist.1 e)) hist).1 =
        hist.1 ++ evs := by
    intro hist
    induction evs generalizing hist with
    | nil => simp
    | cons e evs ih =>
      rw [List.foldl_cons, ih, List.append_assoc]
      rfl
  have hbefore := hfst ([], [])
  rw [List.nil_append] at hbefore
  unfold clientDownloads
  rw [List.foldl_append]
  show _ ++ downloadStep client _ e = _
  rw [hbefore]

theorem ownEstimate_snoc (alpha : ℚ) (own : List Download) (d : Download) :
    ownEstimate alpha (own ++ [d]) = (estTp alpha (ownEstimate alpha own) d.ts d.tf d.size).1 := by
  unfold ownEstimate
  rw [List.foldl_append]
  rfl

/-- The connection that this turn accepts, if it accepts one. -/
def Turn.accepts (serverSockfd : Nat) (st : ProxyState) (turn : Turn) : Bool :=
  match turn.select with
  | none => false
  | some ready => decide (serverSockfd ∈ (st.selected ready).readyToRead)

/-- Behind the events `log.1`, a client gets a number under which no download but its own was measured,
and that no session still holds for a connection to the server. -/
abbrev FreshNumber {κ : Type} (client : Nat → κ) (serverSockfd : Nat)
    (log : List ProxyEvent × ProxyState) (turn : Turn) : Prop :=
  turn.accepts serverSockfd log.2 = true →
    (∀ d ∈ clientDownloads client log.1, d.fd = lowestFree log.2.openFds →
      d.client = some (client log.2.sessions.length)) ∧
    ∀ node ∈ log.2.sessions, node.serverFd ≠ some (lowestFree log.2.openFds)

/-! ## What the operations do to an estimate -/

theorem trackerOf_of_searchSeg {fd : Nat} {trackers : Trackers} {tl : ChunkTrackerList}
    (h : searchSeg fd trackers = some tl) : trackerOf fd trackers = tl := by
  unfold trackerOf
  rw [h]
  rfl

theorem trackerOf_congr {fd : Nat} {trackers trackers' : Trackers}
    (h : searchSeg fd trackers' = searchSeg fd trackers) :
    trackerOf fd trackers' = trackerOf fd trackers := by
  unfold trackerOf
  rw [h]

theorem createTracker_throughput {file : Bytes} {fd : Nat} {trackers trackers' : Trackers}
    (h : createTracker file fd trackers = some trackers') (fd' : Nat) :
    (trackerOf fd' trackers').throughput = (trackerOf fd' trackers).throughput := by
  obtain ⟨hsome, hother⟩ := createTracker_spec h
  by_cases hfd : fd' = fd
  · rw [hfd, trackerOf_of_searchSeg hsome]
  · rw [trackerOf_congr (hother fd' hfd)]

theorem updateBitrate_throughput {buffer buffer' : Bytes} {fd : Nat} {trackers trackers' : Trackers}
    (h : updateBitrate buffer fd trackers = .ok (buffer', trackers')) (fd' : Nat) :
    (trackerOf fd' trackers').throughput = (trackerOf fd' trackers).throughput := by
  obtain ⟨tl, _, _, _, hs, -, -, -, hs', hother⟩ := updateBitrate_spec h
  by_cases hfd : fd' = fd
  · rw [hfd, trackerOf_of_searchSeg hs', trackerOf_of_searchSeg hs]
  · rw [trackerOf_congr (hother fd' hfd)]

theorem updateBitrate_bitrate {buffer buffer' : Bytes} {fd : Nat} {trackers trackers' : Trackers}
    (h : updateBitrate buffer fd trackers = .ok (buffer', trackers')) :
    (trackerOf fd trackers').bitrate = selectRate (trackerOf fd trackers).throughput := by
  obtain ⟨tl, _, _, _, hs, -, -, -, hs', -⟩ := updateBitrate_spec h
  rw [trackerOf_of_searchSeg hs', trackerOf_of_searchSeg hs]

theorem updateThroughput_throughput {alpha : ℚ} {buckSize : Int} {fd : Nat} {ts tf : Timespec}
    {trackers trackers' : Trackers} {log : LogRecord}
    (h : updateThroughput alpha buckSize fd ts tf trackers = .ok (trackers', log)) (fd' : Nat) :
    (trackerOf fd' trackers').throughput =
      if fd = fd' then (estTp alpha (trackerOf fd' trackers).throughput ts tf buckSize).1
      else (trackerOf fd' trackers).throughput := by
  obtain ⟨node, hs, -, hs', hother⟩ := updateThroughput_spec h
  split
  · rename_i hfd
    subst hfd
    rw [trackerOf_of_searchSeg hs', trackerOf_of_searchSeg hs]
  · rename_i hfd
    rw [trackerOf_congr (hother fd' (fun heq => hfd heq.symm))]

/-! ## Responses to requests -/

/-- No connection to the server is watched: the responses so far have been served. -/
def NoneAwaited (st : ProxyState) : Prop :=
  ∀ node ∈ st.sessions, ∀ fd, node.serverFd = some fd → fd ∉ st.readyToRead

/-- Session `sid` has connected to the server on descriptor `fd`, and no other is watched. -/
structure Awaited (sid fd : Nat) (st : ProxyState) : Prop where
  session : ∃ p, st.sessions[sid]? = some p ∧ p.serverFd = some fd
  only : ∀ node ∈ st.sessions, ∀ fd', node.serverFd = some fd' → fd' ∈ st.readyToRead → fd' = fd

section Awaited
variable {sid fd : Nat} {node : Session} {st : ProxyState}

theorem NoneAwaited.reconnect (h : NoneAwaited st) (hnode : st.sessions[sid]? = some node) :
    Awaited sid (st.newServer node) (st.reconnect sid node) := by
  have hsessions : (st.reconnect sid node).sessions =
      st.sessions.set sid (node.connectedTo (st.newServer node)) := by
    show (st.closeServer node).sessions.set sid _ = _
    rw [st.sessions_closeServer]
    rfl
  refine ⟨⟨node.connectedTo (st.newServer node), ?_, rfl⟩, fun p hp fd' hfd' hmem => ?_⟩
  · rw [hsessions]
    exact List.getElem?_set_self (List.getElem?_eq_some_iff.mp hnode).1
  · rw [hsessions] at hp
    rw [st.readyToRead_reconnect] at hmem
    rcases List.mem_or_eq_of_mem_set hp with hp | rfl
    · exact absurd hmem (h p hp fd' hfd')
    · exact (Option.some.inj hfd').symm

theorem Awaited.setSession (h : Awaited sid fd st) (hfd : node.serverFd = some fd) :
    Awaited sid fd (st.setSession sid node) := by
  obtain ⟨p, hp, -⟩ := h.session
  refine ⟨⟨node, List.getElem?_set_self (List.getElem?_eq_some_iff.mp hp).1, hfd⟩, ?_⟩
  intro p' hp' fd' hfd' hmem
  rcases List.mem_or_eq_of_mem_set hp' with hp' | rfl
  · exact h.only p' hp' fd' hfd' hmem
  · rw [hfd, Option.some.injEq] at hfd'
    exact hfd'.symm

theorem Awaited.trackChunk {env : ClientRecv} {file buffer buffer' : Bytes} {st' : ProxyState}
    {es : List ProxyEvent} (h : Awaited sid fd st) (hfd : node.serverFd = some fd)
    (htrack : VideoCdn.trackChunk env.now sid node file buffer st = .ok (buffer', st', es)) :
    Awaited sid fd st' := by
  rcases trackChunk_state htrack with rfl | ⟨trackers, rfl⟩
  · exact h
  · have hset : Awaited sid fd (st.setSession sid { node with ts := some env.now }) :=
      h.setSession hfd
    exact ⟨hset.session, hset.only⟩

theorem Awaited.fdSet (h : Awaited sid fd st) :
    Awaited sid fd { st with readyToRead := insert fd st.readyToRead } := by
  refine ⟨h.session, fun p hp fd' hfd' hmem => ?_⟩
  rcases Finset.mem_insert.mp hmem with heq | hmem
  · exact heq
  · exact h.only p hp fd' hfd' hmem

/-- The response has been served. -/
theorem Awaited.served (h : Awaited sid fd st) (hfd : node.serverFd = some fd)
    (bitrate : List Int) : NoneAwaited (st.served sid node fd bitrate) := by
  intro p hp fd' hfd' hmem
  obtain ⟨-, hne, hmem⟩ : fd' ≠ node.clientFd ∧ fd' ≠ fd ∧ fd' ∈ st.readyToRead := by
    simpa only [ProxyState.served, Finset.mem_erase] using hmem
  rcases List.mem_or_eq_of_mem_set hp with hp | rfl
  · exact hne (h.only p hp fd' hfd' hmem)
  · exact hne (Option.some.inj (hfd'.symm.trans hfd))

/-- The server has not been watched at all. -/
theorem Awaited.unwatched (h : Awaited sid fd st) (hfd : fd ∉ st.readyToRead) : NoneAwaited st := by
  intro p hp fd' hfd' hmem
  rw [h.only p hp fd' hfd' hmem] at hmem
  exact hfd hmem

end Awaited

/-! ## The invariant -/

/-- Every tracker has the estimate that the downloads under its number give; these belong to the client
that has the number, and so they did at every chunk request. -/
structure EstimatesOwn {κ : Type} [DecidableEq κ] (client : Nat → κ) (alpha : ℚ)
    (evs : List ProxyEvent) (trackers : Trackers) : Prop where
  throughput : ∀ fd, (trackerOf fd trackers).throughput = ownEstimate alpha
    (((clientDownloads client evs).filter (fun d => decide (d.fd = fd))).map ClientDownload.download)
  owned : ∀ d ∈ clientDownloads client evs, d.client = ownerOf client d.fd evs
  requested : ∀ pre sid fd estimate rate, pre ++ [.chunkRequest sid fd estimate rate] <+: evs →
    ∀ k, ownerOf client fd pre = some k →
      estimate = ownEstimate alpha (under fd (ownDownloads client k pre)) ∧ rate = selectRate estimate

section EstimatesOwn
variable {κ : Type} [DecidableEq κ] {client : Nat → κ} {alpha : ℚ} {evs : List ProxyEvent}
  {trackers trackers' : Trackers}

/-- The downloads under a number are those of the client that has it. -/
theorem EstimatesOwn.under_ownDownloads (h : EstimatesOwn client alpha evs trackers) {fd : Nat} {k : κ}
    (hk : ownerOf client fd evs = some k) : under fd (ownDownloads client k evs) =
      ((clientDownloads client evs).filter (fun d => decide (d.fd = fd))).map
        ClientDownload.download := by
  unfold under ownDownloads
  rw [List.filter_map, List.map_map, List.filter_filter]
  have hsame : (clientDownloads client evs).filter (fun d => decide (d.fd = fd) &&
      decide (d.client = some k)) = (clientDownloads client evs).filter (fun d => decide (d.fd = fd)) := by
    refine List.filter_congr fun d hd => ?_
    by_cases hfd : d.fd = fd
    · have hclient : d.client = some k := by rw [h.owned d hd, hfd, hk]
      simp [hfd, hclient]
    · simp [hfd]
  exact congrArg (List.map ClientDownload.download) hsame

/-- One more event, with the estimates behind it. -/
theorem EstimatesOwn.snoc (h : EstimatesOwn client alpha evs trackers) {e : ProxyEvent}
    (hafter : ∀ fd, (trackerOf fd trackers').throughput = ownEstimate alpha
      (((clientDownloads client evs ++ downloadStep client evs e).filter
        (fun d => decide (d.fd = fd))).map ClientDownload.download))
    (howned : ∀ d ∈ clientDownloads client evs ++ downloadStep client evs e,
      d.client = ownerStep client d.fd (ownerOf client d.fd evs) e)
    (hreq : ∀ sid fd estimate rate, e = .chunkRequest sid fd estimate rate →
      estimate = (trackerOf fd trackers).throughput ∧ rate = selectRate estimate) :
    EstimatesOwn client alpha (evs ++ [e]) trackers' := by
  refine ⟨fun fd => ?_, fun d hd => ?_, fun pre sid fd estimate rate hpre k hk => ?_⟩
  · rw [clientDownloads_snoc, hafter fd]
  · rw [clientDownloads_snoc] at hd
    rw [ownerOf_snoc, howned d hd]
  · rcases List.prefix_concat_iff.mp hpre with heq | hpre
    · obtain ⟨rfl, he⟩ := List.append_inj' heq rfl
      obtain ⟨hest, hrate⟩ := hreq sid fd estimate rate (List.singleton_inj.mp he).symm
      rw [h.under_ownDownloads hk]
      exact ⟨hest.trans (h.throughput fd), hrate⟩
    · exact h.requested pre sid fd estimate rate hpre k hk

/-- An event that accepts and measures nothing. -/
theorem EstimatesOwn.quiet (h : EstimatesOwn client alpha evs trackers) {e : ProxyEvent}
    (hdownload : downloadStep client evs e = [])
    (howner : ∀ fd, ownerStep client fd (ownerOf client fd evs) e = ownerOf client fd evs)
    (hsame : ∀ fd, (trackerOf fd trackers').throughput = (trackerOf fd trackers).throughput)
    (hreq : ∀ sid fd estimate rate, e = .chunkRequest sid fd estimate rate →
      estimate = (trackerOf fd trackers).throughput ∧ rate = selectRate estimate) :
    EstimatesOwn client alpha (evs ++ [e]) trackers' := by
  refine h.snoc (fun fd => ?_) (fun d hd => ?_) hreq
  · rw [hdownload, List.append_nil, hsame fd, h.throughput fd]
  · rw [hdownload, List.append_nil] at hd
    rw [howner, h.owned d hd]

theorem EstimatesOwn.connected (h : EstimatesOwn client alpha evs trackers) (sid fd : Nat) :
    EstimatesOwn client alpha (evs ++ [.connected sid fd]) trackers :=
  h.quiet rfl (fun _ => rfl) (fun _ => rfl) (fun _ _ _ _ he => ProxyEvent.noConfusion he)

theorem EstimatesOwn.upstream (h : EstimatesOwn client alpha evs trackers) (sid : Nat)
    (bytes : Bytes) : EstimatesOwn client alpha (evs ++ [.upstream sid bytes]) trackers :=
  h.quiet rfl (fun _ => rfl) (fun _ => rfl) (fun _ _ _ _ he => ProxyEvent.noConfusion he)

theorem EstimatesOwn.downstream (h : EstimatesOwn client alpha evs trackers) (sid : Nat)
    (bytes : Bytes) : EstimatesOwn client alpha (evs ++ [.downstream sid bytes]) trackers :=
  h.quiet rfl (fun _ => rfl) (fun _ => rfl) (fun _ _ _ _ he => ProxyEvent.noConfusion he)

/-- The number goes to a client whose are all the downloads under it. -/
theorem EstimatesOwn.accepted (h : EstimatesOwn client alpha evs trackers) {sid fd : Nat}
    (hfresh : ∀ d ∈ clientDownloads client evs, d.fd = fd → d.client = some (client sid)) :
    EstimatesOwn client alpha (evs ++ [.accepted sid fd]) trackers := by
  have hnone : downloadStep client evs (.accepted sid fd) = [] := rfl
  refine h.snoc (fun fd' => ?_) (fun d hd => ?_) (fun _ _ _ _ he => ProxyEvent.noConfusion he)
  · rw [hnone, List.append_nil, h.throughput fd']
  · rw [hnone, List.append_nil] at hd
    show d.client = if fd = d.fd then some (client sid) else ownerOf client d.fd evs
    split
    · rename_i hfd
      exact hfresh d hd hfd.symm
    · exact h.owned d hd

theorem EstimatesOwn.trackChunk {now : Timespec} {sid : Nat} {node : Session}
    {file buffer buffer' : Bytes} {st st' : ProxyState} {es : List ProxyEvent}
    (h : EstimatesOwn client alpha evs st.trackers)
    (htrack : VideoCdn.trackChunk now sid node file buffer st = .ok (buffer', st', es)) :
    EstimatesOwn client alpha (evs ++ es) st'.trackers ∧ asking (evs ++ es) = asking evs := by
  rcases trackChunk_eq_ok.mp htrack with ⟨-, -, rfl, rfl⟩ | ⟨t₁, t₂, hcreate, hupd, rfl, rfl⟩
  · rw [List.append_nil]
    exact ⟨h, rfl⟩
  · have hsame : ∀ fd, (trackerOf fd t₂).throughput = (trackerOf fd st.trackers).throughput :=
      fun fd => (updateBitrate_throughput hupd fd).trans (createTracker_throughput hcreate fd)
    refine ⟨h.quiet rfl (fun _ => rfl) hsame ?_, asking_snoc evs _⟩
    intro sid' fd' estimate rate he
    cases he
    exact ⟨createTracker_throughput hcreate _, updateBitrate_bitrate hupd⟩

/-- The download for a request belongs to the client that has the number from which it was read. -/
theorem EstimatesOwn.chunkResponse (h : EstimatesOwn client alpha evs trackers) {sid fd : Nat}
    (hasking : asking evs = some sid) {size : Int} {ts tf : Timespec} {log : LogRecord}
    (hupd : updateThroughput alpha size fd ts tf trackers = .ok (trackers', log)) :
    EstimatesOwn client alpha (evs ++ [.chunkResponse sid fd ⟨size, ts, tf⟩ log]) trackers' := by
  have hstep : downloadStep client evs (.chunkResponse sid fd ⟨size, ts, tf⟩ log) =
      [⟨ownerOf client fd evs, fd, ⟨size, ts, tf⟩⟩] := by
    show [ClientDownload.mk (if asking evs = some sid then ownerOf client fd evs else none) fd _] = _
    rw [if_pos hasking]
  refine h.snoc (fun fd' => ?_) (fun d hd => ?_) (fun _ _ _ _ he => ProxyEvent.noConfusion he)
  · rw [updateThroughput_throughput hupd fd', h.throughput fd', hstep, List.filter_append,
      List.map_append]
    split
    · rename_i hfd
      rw [List.filter_cons_of_pos (by simpa using hfd), List.filter_nil, List.map_singleton,
        ownEstimate_snoc]
    · rename_i hfd
      rw [List.filter_cons_of_neg (by simpa using hfd), List.filter_nil, List.map_nil,
        List.append_nil]
  · rw [hstep] at hd
    rcases List.mem_append.mp hd with hd | hd
    · exact h.owned d hd
    · rw [List.mem_singleton.mp hd]
      rfl

end EstimatesOwn

/-- Estimates of one's own, between two passes of the loop over the sessions. -/
structure Isolated {κ : Type} [DecidableEq κ] (client : Nat → κ) (alpha : ℚ)
    (evs : List ProxyEvent) (st : ProxyState) : Prop where
  estimates : EstimatesOwn client alpha evs st.trackers
  none_awaited : NoneAwaited st

section Isolated
variable {κ : Type} [DecidableEq κ] {client : Nat → κ} {alpha : ℚ} {evs es : List ProxyEvent}
  {turn : Turn} {sid : Nat} {st st' : ProxyState}

/-- Behind the client's part of a pass, the only response to come is the one for its request. -/
theorem Isolated.serveClient (h : Isolated client alpha evs st)
    (hclient : VideoCdn.serveClient turn sid st = .ok (st', es)) :
    EstimatesOwn client alpha (evs ++ es) st'.trackers ∧
      (NoneAwaited st' ∨ ∃ fd, Awaited sid fd st' ∧ asking (evs ++ es) = some sid) := by
  rcases serveClient_step hclient with ⟨rfl, rfl⟩ | ⟨node, hnode, hstep⟩
  · rw [List.append_nil]
    exact ⟨h.estimates, Or.inl h.none_awaited⟩
  have hawaited := h.none_awaited.reconnect hnode
  have hconnected : EstimatesOwn client alpha (evs ++ [.connected sid (st.newServer node)])
      (st.reconnect sid node).trackers := by
    rw [st.trackers_reconnect]
    exact h.estimates.connected sid _
  have hasking := asking_snoc evs (.connected sid (st.newServer node))
  cases hstep with
  | readError _ =>
    rw [List.append_nil]
    exact ⟨h.estimates, Or.inl h.none_awaited⟩
  | noServer _ _ _ =>
    rw [List.append_nil, st.trackers_closeServer]
    refine ⟨h.estimates, Or.inl ?_⟩
    unfold NoneAwaited
    rw [st.sessions_closeServer, st.readyToRead_closeServer]
    exact h.none_awaited
  | refused _ _ => exact ⟨hconnected, Or.inr ⟨_, hawaited, hasking⟩⟩
  | refusedRewritten _ _ _ es _ htrack =>
    obtain ⟨hest, hask⟩ := hconnected.trackChunk htrack
    rw [List.append_cons evs]
    exact ⟨hest, Or.inr ⟨_, hawaited.trackChunk rfl htrack, hask.trans hasking⟩⟩
  | forwarded _ _ _ es _ htrack _ =>
    obtain ⟨hest, hask⟩ := hconnected.trackChunk htrack
    rw [← List.append_assoc, List.append_cons evs]
    refine ⟨hest.upstream sid _, Or.inr ⟨_, hawaited.trackChunk rfl htrack, ?_⟩⟩
    exact (asking_snoc _ _).trans (hask.trans hasking)
  | forwardedReady _ _ _ es _ htrack _ _ =>
    obtain ⟨hest, hask⟩ := hconnected.trackChunk htrack
    rw [← List.append_assoc, List.append_cons evs]
    refine ⟨hest.upstream sid _, Or.inr ⟨_, (hawaited.trackChunk rfl htrack).fdSet, ?_⟩⟩
    exact (asking_snoc _ _).trans (hask.trans hasking)

/-- The server's part of the pass serves that response, if any. -/
theorem Isolated.of_serveServer (hest : EstimatesOwn client alpha evs st.trackers)
    (hawaited : NoneAwaited st ∨ ∃ fd, Awaited sid fd st ∧ asking evs = some sid)
    (hserver : VideoCdn.serveServer alpha turn sid st = .ok (st', es)) :
    Isolated client alpha (evs ++ es) st' := by
  rcases serveServer_step hserver with ⟨rfl, rfl, hidle⟩ | ⟨node, fd, hnode, hfd, hmem, hstep⟩
  · rw [List.append_nil]
    rcases hawaited with hnone | ⟨fd, hfd, -⟩
    · exact ⟨hest, hnone⟩
    · obtain ⟨p, hp, hserverFd⟩ := hfd.session
      exact ⟨hest, hfd.unwatched (hidle p fd hp hserverFd)⟩
  · rcases hawaited with hnone | ⟨fd', hfd', hask⟩
    · exact absurd hmem (hnone node (List.mem_of_getElem? hnode) fd hfd)
    rw [← hfd'.only node (List.mem_of_getElem? hnode) fd hfd hmem] at hfd'
    cases hstep with
    | passed fd₁ bitrate out hfd₁ =>
      rw [hfd, Option.some.injEq] at hfd₁
      subst hfd₁
      exact ⟨hest.downstream sid out, hfd'.served hfd bitrate⟩
    | measured fd₁ bitrate out ts trackers log hfd₁ _ hupd =>
      rw [hfd, Option.some.injEq] at hfd₁
      subst hfd₁
      have hmeasured := (hest.chunkResponse hask hupd).downstream sid out
      rw [List.append_assoc] at hmeasured
      exact ⟨hmeasured, hfd'.served hfd bitrate⟩

/-- **Step lemma**: the loop over the sessions keeps every estimate its client's own. -/
theorem Isolated.serveSessions (evs : List ProxyEvent) (h : Isolated client alpha evs st)
    (hserve : VideoCdn.serveSessions alpha turn st = .ok (st', es)) :
    Isolated client alpha (evs ++ es) st' := by
  refine Machine.run_invariant (Q := Isolated client alpha) (fun evs st sid st' es hst h => ?_) h hserve
  obtain ⟨st₁, evs₁, evs₂, hclient, hserver, rfl⟩ := serveSession_eq_ok.mp h
  obtain ⟨hest, hawaited⟩ := hst.serveClient hclient
  rw [← List.append_assoc]
  exact Isolated.of_serveServer hest hawaited hserver

/-- A turn that gives out a fresh number, if any, keeps them as well. -/
theorem Isolated.iterate {serverSockfd : Nat} (h : Isolated client alpha evs st)
    (hfresh : FreshNumber client serverSockfd (evs, st) turn)
    (hturn : VideoCdn.iterate alpha serverSockfd st turn = .ok (st', es)) :
    Isolated client alpha (evs ++ es) st' := by
  have hselected : ∀ ready, Isolated client alpha evs (st.selected ready) := by
    refine fun ready => ⟨h.estimates, fun node hnode fd hfd hmem => ?_⟩
    exact h.none_awaited node hnode fd hfd (Finset.mem_inter.mp hmem).1
  cases iterate_step hturn with
  | failed _ => rwa [List.append_nil]
  | idle ready _ _ _ _ hserve => exact (hselected ready).serveSessions evs hserve
  | accepted ready _ es hselect hmem hserve =>
    have haccepts : turn.accepts serverSockfd st = true := by
      unfold Turn.accepts
      rw [hselect]
      exact decide_eq_true hmem
    obtain ⟨htracker, hnumber⟩ := hfresh haccepts
    have hopened : Isolated client alpha
        (evs ++ [.accepted st.sessions.length (lowestFree st.openFds)])
        (st.selected ready).accepting := by
      refine ⟨h.estimates.accepted htracker, fun node hnode fd hfd hmem => ?_⟩
      rcases List.mem_append.mp hnode with hnode | hnode
      · rcases Finset.mem_insert.mp hmem with rfl | hmem
        · exact hnumber node hnode hfd
        · exact (hselected ready).none_awaited node hnode fd hfd hmem
      · rw [List.mem_singleton.mp hnode] at hfd
        cases hfd
    have hserved := hopened.serveSessions _ hserve
    rwa [List.append_assoc] at hserved

end Isolated

/-- **Run lemma**. -/
theorem isolated_run {κ : Type} [DecidableEq κ] {client : Nat → κ} {alpha : ℚ} {openFds : Finset Nat}
    {serverSockfd : Nat} {turns : List Turn} {st : ProxyState} {evs : List ProxyEvent}
    (hfresh : Machine.Along (Machine.logged (iterate alpha serverSockfd))
      (FreshNumber client serverSockfd) ([], .start openFds serverSockfd) turns)
    (h : Machine.run (iterate alpha serverSockfd) (.start openFds serverSockfd) turns =
      .ok (st, evs)) : Isolated client alpha evs st := by
  have hstart : Isolated client alpha [] (ProxyState.start openFds serverSockfd) := by
    refine ⟨⟨fun fd => rfl, fun d hd => ?_, fun pre sid fd estimate rate hpre => ?_⟩,
      fun node hnode => ?_⟩
    · cases hd
    · exact absurd (List.prefix_nil.mp hpre) (by simp)
    · cases hnode
  exact Machine.run_along_logged (Q := Isolated client alpha)
    (fun _ _ _ _ _ hst hnew hturn => hst.iterate hnew hturn) hstart hfresh h

/-- **Isolation**: in two runs in which no client gets a number with downloads of another one, chunk
requests of a client get the same estimate and the same bitrate behind the same downloads of its own
under the number: whatever the other clients do, or without them. -/
theorem chunkRequest_own {κ : Type} [DecidableEq κ] {client₁ client₂ : Nat → κ} {alpha : ℚ}
    {openFds : Finset Nat} {serverSockfd : Nat} {turns₁ turns₂ : List Turn} {st₁ st₂ : ProxyState}
    {evs₁ evs₂ : List ProxyEvent}
    (hfresh₁ : Machine.Along (Machine.logged (iterate alpha serverSockfd))
      (FreshNumber client₁ serverSockfd) ([], .start openFds serverSockfd) turns₁)
    (hfresh₂ : Machine.Along (Machine.logged (iterate alpha serverSockfd))
      (FreshNumber client₂ serverSockfd) ([], .start openFds serverSockfd) turns₂)
    (h₁ : Machine.run (iterate alpha serverSockfd) (.start openFds serverSockfd) turns₁ =
      .ok (st₁, evs₁))
    (h₂ : Machine.run (iterate alpha serverSockfd) (.start openFds serverSockfd) turns₂ =
      .ok (st₂, evs₂))
    {pre₁ pre₂ : List ProxyEvent} {sid₁ sid₂ fd₁ fd₂ rate₁ rate₂ : Nat} {estimate₁ estimate₂ : ℚ}
    (hreq₁ : pre₁ ++ [.chunkRequest sid₁ fd₁ estimate₁ rate₁] <+: evs₁)
    (hreq₂ : pre₂ ++ [.chunkRequest sid₂ fd₂ estimate₂ rate₂] <+: evs₂)
    {k : κ} (hk₁ : ownerOf client₁ fd₁ pre₁ = some k) (hk₂ : ownerOf client₂ fd₂ pre₂ = some k)
    (hown : under fd₁ (ownDownloads client₁ k pre₁) = under fd₂ (ownDownloads client₂ k pre₂)) :
    estimate₁ = estimate₂ ∧ rate₁ = rate₂ := by
  obtain ⟨hest₁, hrate₁⟩ := (isolated_run hfresh₁ h₁).estimates.requested _ _ _ _ _ hreq₁ k hk₁
  obtain ⟨hest₂, hrate₂⟩ := (isolated_run hfresh₂ h₂).estimates.requested _ _ _ _ _ hreq₂ k hk₂
  have hest : estimate₁ = estimate₂ := by rw [hest₁, hest₂, hown]
  exact ⟨hest, by rw [hrate₁, hrate₂, hest]⟩

/-! ## A number that is used again -/

def chunkHeader : Bytes :=
  ascii "HTTP/1.1 200 OK\r\nContent-Length: 4\r\nContent-Type: video/f4f\r\n\r\n"

/-- A turn in which the sessions `chunks` ask for a chunk when they are served, and get it after one
second; the others send a request that is not forwarded. -/
def chunkTurn (ready : Finset Nat) (chunks : List Nat) : Turn where
  select := some ready
  accept := true
  client := fun sid =>
    if chunks.contains sid then clientSends sameWidth length_sameWidth else postRequest
  server := fun _ => ⟨chunkHeader, ascii "abcd", ⟨1, 0⟩⟩

/-- The first events of some turns, with the listening socket on descriptor 3. -/
def firstEvents (n : Nat) (turns : List Turn) : Checked (List ProxyEvent) :=
  (Machine.run (iterate 1 3) (.start {0, 1, 2} 3) turns).map (fun r => r.2.take n)

theorem firstEvents_eq_ok {n : Nat} {turns : List Turn} {first : List ProxyEvent}
    (h : firstEvents n turns = .ok first) : ∃ st evs,
      Machine.run (iterate 1 3) (.start {0, 1, 2} 3) turns = .ok (st, evs) ∧ first <+: evs := by
  obtain ⟨⟨st, evs⟩, hrun, hfirst⟩ := map_eq_ok.mp h
  exact ⟨st, evs, hrun, hfirst ▸ List.take_prefix n evs⟩

/-- The download of the chunk, and what is logged for it. -/
def measured (sid fd : Nat) : ProxyEvent :=
  .chunkResponse sid fd ⟨67, ⟨0, 0⟩, ⟨1, 0⟩⟩
    ⟨1, 67 / 128, 67 / 128, 10, ascii "/vod/10Seg1-Frag1"⟩

theorem firstEvents_alone : firstEvents 3 [chunkTurn {3} [0]] =
    .ok ([.accepted 0 4, .connected 0 5] ++ [.chunkRequest 0 4 100 10]) := by
  decide +kernel

theorem firstEvents_beside :
    firstEvents 18 [chunkTurn {3} [0], chunkTurn {3} [], chunkTurn {3} [2], chunkTurn {3} [3]] =
      .ok ([.accepted 0 4, .connected 0 5, .chunkRequest 0 4 100 10, .upstream 0 rewritten,
        measured 0 4, .downstream 0 (chunkHeader ++ ascii "abcd"), .accepted 1 4, .connected 1 6,
        .connected 0 5, .accepted 2 7, .connected 2 8, .chunkRequest 2 7 100 10,
        .upstream 2 rewritten, measured 2 7, .downstream 2 (chunkHeader ++ ascii "abcd"),
        .accepted 3 7, .connected 3 9] ++ [.chunkRequest 3 7 (67 / 128) 100]) := by
  decide +kernel

theorem firstEvents_behind : firstEvents 9 [chunkTurn {3} [0], chunkTurn {3} [1]] =
    .ok ([.accepted 0 4, .connected 0 5, .chunkRequest 0 4 100 10, .upstream 0 rewritten,
      measured 0 4, .downstream 0 (chunkHeader ++ ascii "abcd"), .accepted 1 4, .connected 1 6] ++
      [.chunkRequest 1 4 (67 / 128) 100]) := by
  decide +kernel

/-- A client that connects twice, for one chunk each time: beside another one, which has the number 4 for
its connections, and alone. -/
theorem chunkRequest_own_beside : ∃ pre₁ pre₂ st₁ st₂ evs₁ evs₂ estimate₁ estimate₂ rate₁ rate₂,
    Machine.run (iterate 1 3) (.start {0, 1, 2} 3)
      [chunkTurn {3} [0], chunkTurn {3} [], chunkTurn {3} [2], chunkTurn {3} [3]] = .ok (st₁, evs₁) ∧
    Machine.run (iterate 1 3) (.start {0, 1, 2} 3) [chunkTurn {3} [0], chunkTurn {3} [1]] =
      .ok (st₂, evs₂) ∧
    pre₁ ++ [.chunkRequest 3 7 estimate₁ rate₁] <+: evs₁ ∧
    pre₂ ++ [.chunkRequest 1 4 estimate₂ rate₂] <+: evs₂ ∧
    under 7 (ownDownloads (fun sid => if sid < 2 then 0 else 1) 1 pre₁) = [⟨67, ⟨0, 0⟩, ⟨1, 0⟩⟩] ∧
    estimate₁ = estimate₂ ∧ rate₁ = rate₂ := by
  obtain ⟨st₁, evs₁, h₁, hreq₁⟩ := firstEvents_eq_ok firstEvents_beside
  obtain ⟨st₂, evs₂, h₂, hreq₂⟩ := firstEvents_eq_ok firstEvents_behind
  refine ⟨_, _, st₁, st₂, evs₁, evs₂, _, _, _, _, h₁, h₂, hreq₁, hreq₂, by decide +kernel, ?_⟩
  exact @chunkRequest_own Nat _ (fun sid => if sid < 2 then 0 else 1) (fun _ => 1) 1 {0, 1, 2} 3 _ _ _ _
    _ _ (by decide +kernel) (by decide +kernel) h₁ h₂ _ _ _ _ _ _ _ _ _ _ hreq₁ hreq₂ 1
    (by decide +kernel) (by decide +kernel) (by decide +kernel)

/-- **The number of a closed connection**: the second client has downloaded nothing, and gets the
bitrate for the first client's download. -/
theorem chunkRequest_inherited : ¬ ∀ (client₁ client₂ : Nat → Nat) (alpha : ℚ) (openFds : Finset Nat)
    (serverSockfd : Nat) (turns₁ turns₂ : List Turn) (st₁ st₂ : ProxyState)
    (evs₁ evs₂ pre₁ pre₂ : List ProxyEvent) (sid₁ sid₂ fd₁ fd₂ rate₁ rate₂ : Nat)
    (estimate₁ estimate₂ : ℚ) (k : Nat),
    Machine.run (iterate alpha serverSockfd) (.start openFds serverSockfd) turns₁ =
      .ok (st₁, evs₁) →
    Machine.run (iterate alpha serverSockfd) (.start openFds serverSockfd) turns₂ =
      .ok (st₂, evs₂) →
    pre₁ ++ [.chunkRequest sid₁ fd₁ estimate₁ rate₁] <+: evs₁ →
    pre₂ ++ [.chunkRequest sid₂ fd₂ estimate₂ rate₂] <+: evs₂ →
    ownerOf client₁ fd₁ pre₁ = some k → ownerOf client₂ fd₂ pre₂ = some k →
    ownDownloads client₁ k pre₁ = ownDownloads client₂ k pre₂ →
      estimate₁ = estimate₂ ∧ rate₁ = rate₂ := by
  intro h
  obtain ⟨st₁, evs₁, h₁, hreq₁⟩ := firstEvents_eq_ok firstEvents_behind
  obtain ⟨st₂, evs₂, h₂, hreq₂⟩ := firstEvents_eq_ok firstEvents_alone
  obtain ⟨-, hrate⟩ := h id (fun _ => 1) 1 {0, 1, 2} 3 _ _ _ _ _ _ _ _ _ _ _ _ _ _ _ _ 1 h₁ h₂ hreq₁
    hreq₂ (by decide +kernel) (by decide +kernel) (by decide +kernel)
  exact absurd hrate (by decide)

end VideoCdn
