import VideoCdn.Leak
import VideoCdn.ChunkQueue
import VideoCdn.ContentLength
import VideoCdn.HeaderEnd
import VideoCdn.Measurement
import VideoCdn.RequestBounds
import VideoCdn.UnusedRates

/-!
# Runs without a fault (`main` of `src/proxy.c`, `src/handle.c`)

The proxy checks nothing that it reads.  What it reads is bounded here exchange by exchange, without
regard to what the other sessions do.

* `ClientRecv.Fits` — a request that stays inside its arrays at every rate.
* `BlockFits`, `ResponseFits` — a response that does, and is a chunk only if one has been asked for.
* `handleClientRecv_returns`, `handleServerRecv_returns` — **one call** on them returns.
* `Accounted` — every open descriptor was open in front of the loop or is in a session, so that there
  is a bound on the numbers that the system gives out.
* `run_returns` — **composition**: a run of such exchanges returns, in whatever order they come, if
  there are two descriptors for each client.
-/

set_option autoImplicit false

namespace VideoCdn

open CLib

/-! ## Requests -/

/-- The bytes ask for a chunk. -/
def AsksForChunk (env : ClientRecv) : Prop := FoundGet env ∧ FoundFrag env

/-- The bounds of a request, whatever rate is written into it. -/
structure ClientRecv.Fits (env : ClientRecv) : Prop where
  scan : ScanFits (readBuffer env.text)
  file : (words (cstr env.text)).length < 2 → 0 ∈ env.stack.httpRequestFile
  chunk : AsksForChunk env → ∀ rate ∈ rateGet, ChunkFits (cstr env.text) rate

/-- The connection to the server may be put into the set. -/
theorem Treated.writable {env : ClientRecv} {connect fd : Nat} {trackers trackers' : Trackers}
    {out : Bytes} (h : Treated { env with retWrite := 0 } connect fd trackers trackers' out)
    (hwrite : Writable env connect) : Treated env connect fd trackers trackers' out := by
  have hrequest : ∀ {line}, IsRequest { env with retWrite := 0 } line → IsRequest env line :=
    fun h => ⟨h.connected, h.scanned, h.get, h.terminated⟩
  have hrewritten : ∀ {buffer name line line'},
      ChunkRewritten { env with retWrite := 0 } fd trackers buffer name line line' →
        ChunkRewritten env fd trackers buffer name line line' :=
    fun h => ⟨hrequest h.request, h.isChunk, h.rewritten, h.named, h.scanned⟩
  cases h with
  | dropped h => exact .dropped h
  | plain h =>
    obtain ⟨line, hline, hplain, -⟩ := h
    exact .plain ⟨line, hrequest hline, hplain, hwrite⟩
  | chunk buffer name h =>
    obtain ⟨line, line', hchunk, hget, -⟩ := h
    exact .chunk buffer name ⟨line, line', hrewritten hchunk, hget, hwrite⟩
  | chunkDropped buffer name h =>
    obtain ⟨line, line', hchunk, hget⟩ := h
    exact .chunkDropped buffer name ⟨line, line', hrewritten hchunk, hget⟩

/-- **A call for a client** whose request fits returns. -/
theorem handleClientRecv_returns {env : ClientRecv} (sid : Nat) {node : Session} {st : ProxyState}
    (h : env.Fits) (hread : env.read ≠ none) (hconnect : env.connect = .connected)
    (hnew : st.newServer node < FD_SETSIZE) :
    ∃ st' evs, handleClientRecv env sid node st = .ok (st', evs) := by
  have hfits : RequestFits { env with retWrite := 0 } node.clientFd st.trackers :=
    ⟨h.scan, h.file, fun hget hfrag => h.chunk ⟨hget, hfrag⟩ _ (selectRate_mem _)⟩
  obtain ⟨trackers', out, htreated, -⟩ := hfits.treated hconnect rfl
  obtain ⟨st', evs, hrun, -⟩ := @handleClientRecv_of_treated env sid node st trackers' out hread
    (htreated.writable fun _ => hnew)
  exact ⟨st', evs, hrun⟩

/-- Its `LOG` finds a NUL. -/
theorem ClientRecv.Fits.logsInside {env : ClientRecv} (h : env.Fits) : LogsInside env :=
  fun _ _ => exists_loggedFile.mpr ⟨h.scan, h.file⟩

/-- Such a request is what `handle_client_recv` takes for one for a chunk. -/
theorem AsksForChunk.readsFrag {env : ClientRecv} (h : AsksForChunk env) (hfits : env.Fits)
    (hread : env.read ≠ none) (hconnect : env.connect = .connected) : ReadsFrag env := by
  obtain ⟨line, hline⟩ := (scanRequest_ok_iff env.sizes).mpr hfits.scan
  obtain ⟨hget, hfile, -⟩ := scan_found hline
  refine ⟨hread, hconnect, line, hline, hget.mpr h.1, ?_⟩
  rw [hfile]
  exact h.2

/-! ## Responses -/

/-- The first line that passes for a content type is read as a type, if there is one; a chunk comes
only if it is `asked` for, and a manifest is one that is rewritten as intended. -/
inductive BlockFits (asked : Prop) (block : Bytes) : Prop where
  | untyped : (readLines block).1.find? isTypeLine = none → (readLines block).2 = [] →
      BlockFits asked block
  | page (line : Bytes) : (readLines block).1.find? isTypeLine = some line → ReadAs .other line →
      BlockFits asked block
  | chunk (line : Bytes) : (readLines block).1.find? isTypeLine = some line → ReadAs .video line →
      asked → ((strstr (ascii "Content-Type: video/f4f") (cstr block)).isSome ∨ 0 ∈ block) →
      BlockFits asked block
  | manifest (r : F4mResponse) : SeamFits r → block = r.bytes → BlockFits asked block

/-- The response has the header `header`, which fits in the array, and `line` is the first line there
that passes for the length `nextRead` of the body. -/
structure ResponseFits (asked : Prop) (env : ServerRecv) (header line : Bytes) (nextRead : Nat) :
    Prop where
  header_read : EndsAt env.reads header
  header_fits : header.length ≤ MAX_LENGTH
  field : (readLines (readBuffer header)).1.find? isLengthLine = some line
  number : NumberRead line nextRead
  int : nextRead + header.length < 2147483648
  block : BlockFits asked (bigBuffer header env.recv nextRead)

section Response
variable {alpha : ℚ} {asked : Prop} {env : ServerRecv} {header line block : Bytes} {nextRead : Nat}

/-- `parse_f4m_response` decides, whatever is in the slots. -/
theorem BlockFits.parsed (h : BlockFits asked block) (slots : List Int) :
    ∃ result slots', parseF4mResponse block slots = .ok (result, slots') ∧ (result = .video →
      asked ∧ ((strstr (ascii "Content-Type: video/f4f") (cstr block)).isSome ∨ 0 ∈ block)) := by
  have hacts : ∀ {type total}, classify block = .ok (type, total) →
      parseF4mResponse block slots = actOnType block slots type total := by
    intro type total hclass
    rw [parseF4mResponse_eq, hclass]
    rfl
  cases h with
  | untyped hnone hrest =>
    obtain ⟨total, hclass⟩ := (classify_iff_of_none hnone).mpr ⟨rfl, hrest⟩
    exact ⟨.other, slots, hacts hclass, nofun⟩
  | page line hline hread =>
    obtain ⟨total, hclass⟩ := (classify_iff_of_some hline).mpr hread
    exact ⟨.other, slots, hacts hclass, nofun⟩
  | chunk line hline hread hasked hterm =>
    obtain ⟨total, hclass⟩ := (classify_iff_of_some hline).mpr hread
    exact ⟨.video, slots, hacts hclass, fun _ => ⟨hasked, hterm⟩⟩
  | manifest r hseam hblock =>
    obtain ⟨slots', hparse⟩ := wellRewritten_of_seamFits slots hseam
    exact ⟨.manifest r.rewritten, slots', hblock ▸ hparse, nofun⟩

theorem noLooseEnd_nil : NoLooseEnd [] := by
  rintro q hq ⟨a, -, rfl⟩
  simp at hq

/-- The loops over the header stay inside it, and the block has the announced size. -/
theorem ResponseFits.read (h : ResponseFits asked env header line nextRead) :
    readResponse env = .ok (bigBuffer header env.recv nextRead) := by
  have hheader : readHeader env.reads 0 [] = .ok header :=
    (readHeader_iff StateOf.nil noLooseEnd_nil (Nat.zero_le _)).mpr ⟨h.header_read, h.header_fits⟩
  have hlength : getResponseContentLength (readBuffer header) = .ok (nextRead : Int) :=
    getResponseContentLength_iff.mpr ⟨line, h.field, h.number⟩
  have hint := h.int
  unfold readResponse
  rw [hheader, ok_bind, hlength, ok_bind, inBounds_pos (by omega), ok_bind, Int.toNat_natCast]
  rfl

theorem endResponse_returns {fd : Nat} {node : Session} (st : ProxyState) (evs : List ProxyEvent)
    (hfd : fd < FD_SETSIZE) (hclient : node.clientFd < FD_SETSIZE) :
    ∃ st', endResponse fd node (st, evs) = .ok (st', evs) := by
  unfold endResponse ProxyState.fdClr
  simp only [inBounds_pos hfd, inBounds_pos hclient]
  exact ⟨_, rfl⟩

/-- **A call for a response** that fits returns, if a chunk has been asked for when it is `asked`. -/
theorem handleServerRecv_returns (alpha : ℚ) {sid fd : Nat} {node : Session} {st : ProxyState}
    (h : ResponseFits asked env header line nextRead) (hfd : Connected node fd)
    (hasked : asked → node.ts ≠ none ∧
      ∃ tracker, searchSeg node.clientFd st.trackers = some tracker ∧ tracker.chunks ≠ []) :
    ∃ st' evs, handleServerRecv alpha env sid node st = .ok (st', evs) := by
  obtain ⟨result, bitrate, hparse, hvideo⟩ := h.block.parsed node.bitrate
  obtain ⟨st₁, evs, hpass⟩ : ∃ st₁ evs, passResponse alpha env.now sid
      { node with bitrate := bitrate } (bigBuffer header env.recv nextRead) result
        (st.setSession sid { node with bitrate := bitrate }) = .ok (st₁, evs) := by
    cases result with
    | manifest newBuffer => exact ⟨_, _, rfl⟩
    | other => exact (passResponse_block _ _ _ _ _ _ (Or.inr rfl)).mp nofun
    | video =>
      refine (passResponse_block _ _ _ _ _ _ (Or.inl rfl)).mp fun _ => ?_
      obtain ⟨hchunk, hterm⟩ := hvideo rfl
      obtain ⟨hts, htracked⟩ := hasked hchunk
      exact ⟨hts, htracked, hterm⟩
  obtain ⟨st', hend⟩ := endResponse_returns st₁ evs hfd.server_fits hfd.client_fits
  refine ⟨st', evs, ?_⟩
  rw [handleServerRecv_eq, hfd.server]
  dsimp only
  rw [h.read, ok_bind]
  unfold passBlock
  rw [hparse, ok_bind, hpass, ok_bind, hend]

end Response

/-! ## How many descriptors are open -/

/-- Every open descriptor was open in front of the loop, or is in a session. -/
def Accounted (initial : Finset Nat) (st : ProxyState) : Prop :=
  ∀ fd ∈ st.openFds, fd ∈ initial ∨ ∃ sid, st.Stores sid fd

section Accounted
variable {initial : Finset Nat} {sid : Nat} {node : Session} {st st' : ProxyState}

theorem Accounted.of_subset (h : Accounted initial st) (hopen : st'.openFds ⊆ st.openFds)
    (hstores : ∀ sid fd, st.Stores sid fd → st'.Stores sid fd) : Accounted initial st' := by
  intro fd hfd
  exact (h fd (hopen hfd)).imp_right fun ⟨sid, hs⟩ => ⟨sid, hstores sid fd hs⟩

/-- What the session loses has been closed. -/
theorem Accounted.reconnected (h : Accounted initial st) (hnode : st.sessions[sid]? = some node)
    (hre : Reconnected sid node st st') : Accounted initial st' := by
  intro fd hfd
  rw [hre.openFds] at hfd
  rcases Finset.mem_insert.mp hfd with rfl | hfd
  · exact Or.inr ⟨sid, (hre.stores_self hnode).mpr (Or.inr rfl)⟩
  obtain ⟨hopen, hne⟩ := ProxyState.mem_closeServer.mp hfd
  refine (h fd hopen).imp_right fun ⟨sid', hs⟩ => ⟨sid', ?_⟩
  by_cases hsid : sid' = sid
  · subst hsid
    rcases (st.stores_iff hnode).mp hs with hclient | hserver
    · exact (hre.stores_self hnode).mpr (Or.inl hclient)
    · exact absurd hserver hne
  · exact (hre.stores_of_ne hsid).mpr hs

theorem accounted_kept (alpha : ℚ) (initial : Finset Nat) :
    KeptByHandlers alpha (fun _ st => Accounted initial st) where
  client := by
    intro evs st sid node env st' es h hnode hstep
    cases hstep with
    | readError => exact h.of_subset (Finset.erase_subset _ _) fun _ _ hs => hs
    | noServer =>
      refine h.of_subset (st.openFds_closeServer_subset node) fun sid' fd hs => ?_
      unfold ProxyState.Stores
      rw [st.sessions_closeServer]
      exact hs
    | refused => exact h.reconnected hnode (.of_reconnect sid node st)
    | refusedRewritten _ _ _ _ _ htrack => exact h.reconnected hnode (.of_trackChunk htrack)
    | forwarded _ _ _ _ _ htrack => exact h.reconnected hnode (.of_trackChunk htrack)
    | forwardedReady _ _ _ _ _ htrack =>
      have hre := h.reconnected hnode (.of_trackChunk htrack)
      exact hre.of_subset subset_rfl fun _ _ hs => hs
  server := by
    intro evs st sid node env st' es h hnode hstep
    have hserved : ∀ bitrate n, Accounted initial (st.served sid node n bitrate) := fun bitrate n =>
      h.of_subset (Finset.erase_subset _ _) fun sid' fd => (stores_served hnode bitrate n sid' fd).mpr
    cases hstep with
    | passed n bitrate => exact hserved bitrate n
    | measured n bitrate => exact hserved bitrate n

theorem Accounted.accepting (h : Accounted initial st) : Accounted initial st.accepting := by
  intro fd hfd
  rcases Finset.mem_insert.mp hfd with rfl | hfd
  · exact Or.inr ⟨_, _, getElem?_accepting.mpr (Or.inr ⟨rfl, rfl⟩), Or.inl rfl⟩
  · exact (h fd hfd).imp_right fun ⟨sid, p, hp, hs⟩ => ⟨sid, p, getElem?_accepting.mpr (Or.inl hp), hs⟩

theorem lowestFree_le_card (openFds : Finset Nat) : lowestFree openFds ≤ openFds.card := by
  obtain ⟨n, hn, hfree⟩ : ∃ n ∈ Finset.range (openFds.card + 1), n ∉ openFds :=
    Finset.exists_mem_notMem_of_card_lt_card (by simp)
  exact (lowestFree_le hfree).trans (by simpa [Nat.lt_succ_iff] using hn)

/-- A session has a number for its client, and one for the server at most. -/
theorem Accounted.card_le (h : Accounted initial st) : st.openFds.card ≤
    initial.card + st.sessions.length + (st.sessions.filterMap Session.serverFd).length := by
  have hsubset : st.openFds ⊆ initial ∪ ((st.sessions.map Session.clientFd).toFinset ∪
      (st.sessions.filterMap Session.serverFd).toFinset) := by
    intro fd hfd
    rw [Finset.mem_union, Finset.mem_union, List.mem_toFinset, List.mem_toFinset, List.mem_map,
      List.mem_filterMap]
    refine (h fd hfd).imp_right ?_
    rintro ⟨sid, p, hp, hclient | hserver⟩
    · exact Or.inl ⟨p, List.mem_of_getElem? hp, hclient⟩
    · exact Or.inr ⟨p, List.mem_of_getElem? hp, hserver⟩
  have hcard := (Finset.card_le_card hsubset).trans (Finset.card_union_le _ _)
  have hunion := Finset.card_union_le (st.sessions.map Session.clientFd).toFinset
    (st.sessions.filterMap Session.serverFd).toFinset
  have hclients := List.toFinset_card_le (st.sessions.map Session.clientFd)
  have hservers := List.toFinset_card_le (st.sessions.filterMap Session.serverFd)
  rw [List.length_map] at hclients
  omega

/-- A client that is accepted gets a number below this one. -/
theorem Accounted.lowestFree_le (h : Accounted initial st) :
    lowestFree st.openFds ≤ initial.card + 2 * st.sessions.length := by
  have hcard := h.card_le
  have hservers := List.length_filterMap_le Session.serverFd st.sessions
  have hfree := lowestFree_le_card st.openFds
  omega

/-- The session gives up its connection to the server before it gets another. -/
theorem Accounted.newServer_lt (h : Accounted initial st) (hnode : st.sessions[sid]? = some node) :
    st.newServer node < initial.card + 2 * st.sessions.length := by
  -- the session without a connection, as it is in between
  let between : ProxyState :=
    { st.closeServer node with sessions := st.sessions.set sid { node with serverFd := none } }
  have hlt : sid < st.sessions.length := (List.getElem?_eq_some_iff.mp hnode).1
  have hbetween : Accounted initial between := by
    intro fd hfd
    obtain ⟨hopen, hne⟩ := ProxyState.mem_closeServer.mp hfd
    refine (h fd hopen).imp_right ?_
    rintro ⟨sid', p, hp, hs⟩
    by_cases hsid : sid' = sid
    · subst hsid
      rw [hnode, Option.some.injEq] at hp
      subst hp
      exact ⟨sid', _, List.getElem?_set_self hlt, Or.inl (hs.resolve_right hne)⟩
    · exact ⟨sid', p, by rw [List.getElem?_set_ne (Ne.symm hsid), hp], hs⟩
  have hcard : (st.closeServer node).openFds.card ≤ _ := hbetween.card_le
  have hservers : (between.sessions.filterMap Session.serverFd).length < between.sessions.length :=
    List.length_filterMap_lt_length_iff_exists.mpr ⟨_, List.mem_set hlt _, rfl⟩
  have hlength : between.sessions.length = st.sessions.length := List.length_set
  have hfree : st.newServer node ≤ (st.closeServer node).openFds.card := lowestFree_le_card _
  omega

end Accounted

/-! ## The main loop -/

/-- Everything that a turn reads fits, and `accept` does not fail. -/
structure Turn.Fits (turn : Turn) : Prop where
  accept : turn.accept = true
  works : turn.Works
  request : ∀ sid, (turn.client sid).Fits
  response : ∀ sid, ∃ header line nextRead,
    ResponseFits (AsksForChunk (turn.client sid)) (turn.server sid) header line nextRead

/-- `select` reports the listening socket. -/
def Turn.reports (serverSockfd : Nat) (turn : Turn) : Bool :=
  turn.select.any (fun ready => decide (serverSockfd ∈ ready))

/-- In front of the sessions `sids`, which are still to be served; only the first of them may be
without a connection to the server. -/
structure Serving (initial : Finset Nat) (sids : List Nat) (st : ProxyState) : Prop where
  holding : Holding initial st
  none_awaited : NoneAwaited st
  fit : AllFit st
  accounted : Accounted initial st
  room : initial.card + 2 * st.sessions.length ≤ FD_SETSIZE
  pending : ∀ sid < st.sessions.length, (∃ fd, st.Holds sid fd) ∨
    sids.head? = some sid ∧ ∃ node, st.sessions[sid]? = some node ∧ node.clientFd ∈ st.readyToRead

/-- Between two turns, with room for `left` more clients. -/
structure TopServing (initial : Finset Nat) (left : Nat) (st : ProxyState) : Prop where
  top : TopHolding initial st
  fit : AllFit st
  accounted : Accounted initial st
  room : initial.card + 2 * (st.sessions.length + left) ≤ FD_SETSIZE

section Loop
variable {initial : Finset Nat} {alpha : ℚ} {turn : Turn} {sid left : Nat} {sids : List Nat}
  {node : Session} {st st' : ProxyState}

/-- **One pass** returns: the only response that can come is the one for the request just read. -/
theorem Serving.returns (alpha : ℚ) (h : Serving initial (sid :: sids) st) (hfits : turn.Fits) :
    ∃ st' evs, VideoCdn.serveSession alpha turn st sid = .ok (st', evs) := by
  by_cases hready : ∃ node, st.sessions[sid]? = some node ∧ node.clientFd ∈ st.readyToRead
  · obtain ⟨node, hnode, hready⟩ := hready
    obtain ⟨hread, hconnect⟩ := hfits.works sid
    have hnew : st.newServer node < FD_SETSIZE := (h.accounted.newServer_lt hnode).trans_le h.room
    obtain ⟨st₁, evs₁, hclient⟩ :=
      handleClientRecv_returns sid (hfits.request sid) hread hconnect hnew
    have hfirst : serveClient turn sid st = .ok (st₁, evs₁) := by
      rw [serveClient_ready h.fit hnode hready, hclient]
    have hconn := (handleClientRecv_step hclient).connects hread hconnect
    obtain ⟨node', hset, hclientFd, hserver⟩ := hconn.session
    have hfit : AllFit st₁ := by
      refine h.fit.setSession hnode hset hclientFd fun fd hfd => ?_
      rw [hserver, Option.some.injEq] at hfd
      rwa [← hfd]
    have hlt : sid < st.sessions.length := (List.getElem?_eq_some_iff.mp hnode).1
    have hnode' : st₁.sessions[sid]? = some node' := by
      rw [hset, List.getElem?_set_self hlt]
    obtain ⟨st₂, evs₂, hsecond⟩ : ∃ st₂ evs₂,
        serveServer alpha turn sid st₁ = .ok (st₂, evs₂) := by
      by_cases hanswer : st.newServer node ∈ st₁.readyToRead
      · rw [serveServer_ready hfit hnode' hserver hanswer]
        obtain ⟨header, line, nextRead, hresponse⟩ := hfits.response sid
        have hfd : Connected node' (st.newServer node) :=
          ⟨hserver, hnew, hfit sid _ ⟨node', hnode', Or.inl rfl⟩⟩
        refine handleServerRecv_returns alpha hresponse hfd fun hasked => ?_
        have hfrag := hasked.readsFrag (hfits.request sid) hread hconnect
        rcases handleClientRecv_chunk hclient with ⟨-, htracked⟩ | ⟨hnot, -⟩
        · rw [(htracked.session node' hnode').1, hclientFd]
          exact ⟨Option.some_ne_none _, htracked.tracked⟩
        · exact absurd hfrag hnot
      · refine ⟨st₁, [], serveServer_idle hfit fun p fd hp hfd hmem => hanswer ?_⟩
        rw [hnode', Option.some.injEq] at hp
        rw [← hp, hserver, Option.some.injEq] at hfd
        rwa [hfd]
    exact ⟨st₂, _, serveSession_eq_ok.mpr ⟨st₁, evs₁, evs₂, hfirst, hsecond, rfl⟩⟩
  · have hclient : serveClient turn sid st = .ok (st, []) :=
      serveClient_idle h.fit fun node hnode hmem => hready ⟨node, hnode, hmem⟩
    have hserver : serveServer alpha turn sid st = .ok (st, []) :=
      serveServer_idle h.fit fun node fd hnode hfd =>
        h.none_awaited node (List.mem_of_getElem? hnode) fd hfd
    exact ⟨st, _, serveSession_eq_ok.mpr ⟨st, [], [], hclient, hserver, rfl⟩⟩

/-- What the handlers keep of the state, a pass keeps. -/
theorem KeptByHandlers.serveSession {P : ProxyState → Prop}
    (hP : KeptByHandlers alpha (fun _ st => P st)) (hst : P st) {evs : List ProxyEvent}
    (hrun : VideoCdn.serveSession alpha turn st sid = .ok (st', evs)) : P st' := by
  obtain ⟨st₁, evs₁, evs₂, hclient, hserver, -⟩ := serveSession_eq_ok.mp hrun
  have hst₁ : P st₁ := @KeptByHandlers.serveClient alpha _ hP turn sid st st₁ [] evs₁ hst hclient
  exact @KeptByHandlers.serveServer alpha _ hP turn sid st₁ st' evs₁ evs₂ hst₁ hserver

/-- **Step lemma**: the pass leaves a state from which the others can be served. -/
theorem Serving.serveSession (h : Serving initial (sid :: sids) st) (hfits : turn.Fits)
    {evs : List ProxyEvent} (hrun : VideoCdn.serveSession alpha turn st sid = .ok (st', evs)) :
    Serving initial sids st' := by
  have htop : TopHolding initial st' := by
    refine h.holding.serveSession h.none_awaited hfits.works (fun sid' hlt => ?_) hrun
    refine (h.pending sid' hlt).imp_right fun ⟨hhead, hnode⟩ => ?_
    rw [List.head?_cons, Option.some.injEq] at hhead
    subst hhead
    exact ⟨rfl, hnode⟩
  have haccounted : Accounted initial st' :=
    (accounted_kept alpha initial).serveSession h.accounted hrun
  have hlength : st'.sessions.length = st.sessions.length := by
    have hfds := (clientFds_kept alpha (st.sessions.map Session.clientFd)).serveSession rfl hrun
    simpa using congrArg List.length hfds
  have hfit : AllFit st' := by
    intro sid'
    by_cases hsid : sid' = sid
    · rw [hsid]
      exact fits_serveSession hrun
    · exact fun fd hs => h.fit sid' fd ((stores_serveSession hrun hsid fd).mp hs)
  exact ⟨htop.holding, htop.none_awaited, hfit, haccounted, hlength ▸ h.room,
    fun sid' hlt => Or.inl (htop.connected sid' hlt)⟩

/-- **The loop over the sessions** returns. -/
theorem Serving.run (alpha : ℚ) (h : Serving initial sids st) (hfits : turn.Fits) : ∃ st' evs,
    Machine.run (VideoCdn.serveSession alpha turn) st sids = .ok (st', evs) ∧
      Serving initial [] st' := by
  refine Machine.run_progress (Q := Serving initial) (fun sid sids st hst => ?_) h
  obtain ⟨st', evs, hrun⟩ := hst.returns alpha hfits
  exact ⟨st', evs, hrun, hst.serveSession hfits hrun⟩

theorem TopServing.selected (h : TopServing initial left st) (ready : Finset Nat)
    (sids : List Nat) : Serving initial sids (st.selected ready) := by
  have htop := h.top.selected ready
  refine ⟨htop.holding, htop.none_awaited, h.fit, h.accounted, ?_,
    fun sid hlt => Or.inl (htop.connected sid hlt)⟩
  have hroom := h.room
  show initial.card + 2 * st.sessions.length ≤ FD_SETSIZE
  omega

/-- A client that is accepted is the first to be served. -/
theorem TopServing.accepting (h : TopServing initial (left + 1) st) (ready : Finset Nat) :
    lowestFree st.openFds < FD_SETSIZE ∧
      Serving initial (List.range (st.selected ready).accepting.sessions.length).reverse
        (st.selected ready).accepting := by
  have hroom := h.room
  have hnew : lowestFree st.openFds < FD_SETSIZE := by
    have hle := h.accounted.lowestFree_le
    omega
  have hlength : (st.selected ready).accepting.sessions.length = st.sessions.length + 1 :=
    List.length_append
  obtain ⟨hholding, hnone, hpending⟩ := (h.top.selected ready).accepting
  have hfit : AllFit (st.selected ready).accepting := AllFit.accepting h.fit hnew
  have haccounted : Accounted initial (st.selected ready).accepting :=
    Accounted.accepting h.accounted
  refine ⟨hnew, hholding, hnone, hfit, haccounted, ?_, fun sid hlt => ?_⟩
  · rw [hlength]
    omega
  · refine (hpending sid hlt).imp_right fun ⟨hsid, hnode⟩ => ⟨?_, hsid ▸ hnode⟩
    rw [hlength, List.range_succ, List.reverse_append]
    exact congrArg some hsid.symm

/-- All sessions have been served. -/
theorem Serving.top (h : Serving initial [] st)
    (hroom : initial.card + 2 * (st.sessions.length + left) ≤ FD_SETSIZE) :
    TopServing initial left st := by
  refine ⟨⟨h.holding, h.none_awaited, fun sid hlt => ?_⟩, h.fit, h.accounted, hroom⟩
  exact (h.pending sid hlt).resolve_right nofun

/-- **One turn** returns, and leaves room for the clients to come. -/
theorem TopServing.iterate (alpha : ℚ) {serverSockfd : Nat} {turns : List Turn} (hfits : turn.Fits)
    (h : TopServing initial ((turn :: turns).countP (Turn.reports serverSockfd)) st) :
    ∃ st' evs, VideoCdn.iterate alpha serverSockfd st turn = .ok (st', evs) ∧
      TopServing initial (turns.countP (Turn.reports serverSockfd)) st' := by
  have hroom := h.room
  have hcount : turns.countP (Turn.reports serverSockfd) ≤
      (turn :: turns).countP (Turn.reports serverSockfd) := (List.sublist_cons_self _ _).countP_le
  cases hselect : turn.select with
  | none =>
    refine ⟨st, [], ?_, h.top, h.fit, h.accounted, by omega⟩
    unfold VideoCdn.iterate
    rw [hselect]
  | some ready =>
    -- what is left to do once the listening socket has been looked at
    have hrest : ∀ {st₀ evs₀}, acceptClient serverSockfd turn (st.selected ready) = .ok (st₀, evs₀) →
        Serving initial (List.range st₀.sessions.length).reverse st₀ →
        initial.card + 2 * (st₀.sessions.length + turns.countP (Turn.reports serverSockfd)) ≤
          FD_SETSIZE →
        ∃ st' evs, VideoCdn.iterate alpha serverSockfd st turn = .ok (st', evs) ∧
          TopServing initial (turns.countP (Turn.reports serverSockfd)) st' := by
      intro st₀ evs₀ haccept hserving hroom₀
      obtain ⟨st', evs, hserve, hend⟩ := hserving.run alpha hfits
      refine ⟨st', evs₀ ++ evs, iterate_of_select hselect haccept hserve, hend.top ?_⟩
      rw [length_serveSessions hserve]
      exact hroom₀
    by_cases hmem : serverSockfd ∈ (st.selected ready).readyToRead
    · have hreports : turn.reports serverSockfd = true := by
        unfold Turn.reports
        rw [hselect]
        exact decide_eq_true (Finset.mem_inter.mp hmem).2
      rw [List.countP_cons_of_pos hreports] at h hroom
      obtain ⟨hnew, hserving⟩ := h.accepting ready
      have haccept : acceptClient serverSockfd turn (st.selected ready) =
          .ok ((st.selected ready).accepting,
            [.accepted st.sessions.length (lowestFree st.openFds)]) :=
        acceptClient_ready hmem hfits.accept hnew
      have hlength : (st.selected ready).accepting.sessions.length = st.sessions.length + 1 :=
        List.length_append
      exact hrest haccept hserving (by omega)
    · have hlength : (st.selected ready).sessions.length = st.sessions.length := rfl
      exact hrest (acceptClient_idle hmem) (h.selected ready _) (by omega)

end Loop

/-- **Composition**: a run of turns that fit returns, whatever their order, if there is room for two
descriptors for every client that may come; and the calls log inside their arrays. -/
theorem run_returns (alpha : ℚ) {openFds : Finset Nat} {serverSockfd : Nat} {turns : List Turn}
    (hfits : ∀ turn ∈ turns, turn.Fits)
    (hroom : (insert serverSockfd openFds).card +
      2 * turns.countP (Turn.reports serverSockfd) ≤ FD_SETSIZE) :
    (∃ st evs, Machine.run (iterate alpha serverSockfd) (.start openFds serverSockfd) turns =
      .ok (st, evs)) ∧ ∀ turn ∈ turns, ∀ sid, LogsInside (turn.client sid) := by
  have hlogs : ∀ turn ∈ turns, ∀ sid, LogsInside (turn.client sid) :=
    fun turn hturn sid => ((hfits turn hturn).request sid).logsInside
  refine ⟨?_, hlogs⟩
  have hstart : TopServing (insert serverSockfd openFds)
      (turns.countP (Turn.reports serverSockfd)) (.start openFds serverSockfd) := by
    refine ⟨topHolding_start openFds serverSockfd, ?_, fun fd hfd => Or.inl hfd, ?_⟩
    · rintro sid fd ⟨p, hp, -⟩
      cases hp
    · simpa [ProxyState.start] using hroom
  have hstep : ∀ turn turns st, (∀ t ∈ turn :: turns, t.Fits) ∧
      TopServing (insert serverSockfd openFds)
        ((turn :: turns).countP (Turn.reports serverSockfd)) st →
      ∃ st' evs, iterate alpha serverSockfd st turn = .ok (st', evs) ∧ (∀ t ∈ turns, t.Fits) ∧
        TopServing (insert serverSockfd openFds)
          (turns.countP (Turn.reports serverSockfd)) st' := by
    rintro turn turns st ⟨hfits, hst⟩
    obtain ⟨hturn, hrest⟩ := List.forall_mem_cons.mp hfits
    obtain ⟨st', evs, hturn, hst'⟩ := hst.iterate alpha hturn
    exact ⟨st', evs, hturn, hrest, hst'⟩
  obtain ⟨st, evs, hrun, -⟩ := Machine.run_progress (Q := fun turns st => (∀ t ∈ turns, t.Fits) ∧
    TopServing (insert serverSockfd openFds) (turns.countP (Turn.reports serverSockfd)) st)
    hstep ⟨hfits, hstart⟩
  exact ⟨st, evs, hrun⟩

/-- One more client in every turn; all of them ask for a chunk, and get it. -/
def askingTurn : Turn :=
  { chunkTurn {3} [] with client := fun _ => clientSends sameWidth length_sameWidth }

/-- The path of the request with another rate. -/
def ratePath (rate : Nat) : Bytes := ascii "/vod/" ++ decimal rate ++ ascii "Seg1-Frag1"

theorem chunkFits_sameWidth : ∀ rate ∈ rateGet, ChunkFits sameWidth rate := by
  intro rate hrate
  have hne : ∀ rate ∈ rateGet, ratePath rate ≠ [] := by decide
  have hword : ∀ rate ∈ rateGet, (ratePath rate).any isSpace = false := by decide
  have hle : ∀ rate ∈ rateGet, (ratePath rate).length ≤ 47 := by decide
  have hhttp : ∀ rate ∈ rateGet, strstr (ascii "HTTP/1.1") (ratePath rate) = none := by decide
  let l : ShortRequest :=
    { gap := 32, path := ratePath rate, gap' := 32, version := [], rest := ascii "\r\n\r\n"
      gap_space := rfl
      path_ne_nil := hne rate hrate
      path_word := not_of_any (hword rate hrate)
      path_le := hle rate hrate
      path_noHttp := hhttp rate hrate
      gap'_space := rfl
      version_word := not_of_any rfl
      version_le := by decide
      rest_sep := Or.inr ⟨13, ascii "\n\r\n", rfl, rfl⟩ }
  have htext : ∀ rate ∈ rateGet,
      ascii "GET /vod" ++ 47 :: (decimal rate ++ ascii "Seg1-Frag1 HTTP/1.1\r\n\r\n") =
        ascii "GET" ++ 32 :: (ratePath rate ++ 32 :: (ascii "HTTP/1.1" ++ [] ++ ascii "\r\n\r\n")) := by
    decide
  have hlen : ∀ rate ∈ rateGet, (ascii "GET" ++
      32 :: (ratePath rate ++ 32 :: (ascii "HTTP/1.1" ++ [] ++ ascii "\r\n\r\n"))).length <
        MAX_LENGTH := by
    decide
  exact ⟨ascii "GET /vod", ascii "20", ascii "Seg1-Frag1 HTTP/1.1\r\n\r\n", by decide, by decide,
    by decide, l, htext rate hrate, hlen rate hrate⟩

theorem responseFits_chunk (asked : Prop) (hasked : asked) : ∃ header line nextRead,
    ResponseFits asked ⟨chunkHeader, ascii "abcd", ⟨1, 0⟩⟩ header line nextRead := by
  obtain ⟨line, hline, hnumber⟩ := getResponseContentLength_iff.mp
    (show getResponseContentLength (readBuffer chunkHeader) = .ok (4 : Nat) by decide +kernel)
  have hheader : readHeader chunkHeader 0 [] = .ok chunkHeader := by decide +kernel
  obtain ⟨hread, hfits⟩ := (readHeader_iff StateOf.nil noLooseEnd_nil (Nat.zero_le _)).mp hheader
  refine ⟨chunkHeader, line, 4, hread, hfits, hline, hnumber, by decide, ?_⟩
  refine .chunk (ascii "Content-Type: video/f4f\r\n") (by decide +kernel)
    ⟨ascii "video/f4f", by decide +kernel, by decide⟩ hasked (Or.inl (by decide +kernel))

theorem fits_askingTurn : askingTurn.Fits := by
  have hwords : words (cstr (readBuffer sameWidth)) =
      [ascii "GET", ascii "/vod/20Seg1-Frag1", ascii "HTTP/1.1"] := by
    rw [cstr_readBuffer]
    decide +kernel
  have hscan : ScanFits (readBuffer sameWidth) := by
    refine ⟨List.mem_append_right _ (List.mem_replicate.mpr ⟨by decide, rfl⟩), ?_, ?_, ?_⟩
    all_goals
      rw [hwords]
      rintro w ⟨⟩
      decide
  have hcstr : cstr sameWidth = sameWidth := by decide
  have hrequest : (clientSends sameWidth length_sameWidth).Fits :=
    ⟨hscan, fun _ => by decide, fun _ rate hrate => by
      show ChunkFits (cstr sameWidth) rate
      rw [hcstr]
      exact chunkFits_sameWidth rate hrate⟩
  have hasks : AsksForChunk (clientSends sameWidth length_sameWidth) :=
    ⟨by unfold FoundGet; decide +kernel, by unfold FoundFrag; decide +kernel⟩
  exact ⟨rfl, fun _ => ⟨nofun, rfl⟩, fun _ => hrequest, fun _ => responseFits_chunk _ hasks⟩

/-- Two clients that ask for chunks, one behind the other. -/
theorem run_returns_chunks : (∃ st evs,
    Machine.run (iterate 1 3) (.start {0, 1, 2} 3) [askingTurn, askingTurn] = .ok (st, evs)) ∧
      ∀ turn ∈ [askingTurn, askingTurn], ∀ sid, LogsInside (turn.client sid) := by
  have hfits : ∀ turn ∈ [askingTurn, askingTurn], turn.Fits := by
    intro turn hturn
    obtain rfl : turn = askingTurn := by simpa using hturn
    exact fits_askingTurn
  exact run_returns 1 hfits (by decide)

end VideoCdn
