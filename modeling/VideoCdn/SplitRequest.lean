import VideoCdn.Listening

/-!
# Requests that arrive in pieces (`handle_client_recv` of `src/handle.c`)

Every invocation takes the bytes of its one `read` for a whole request.

* `Dropped`, `Plain`, `ChunkForwarded`, `ChunkDropped` — what an invocation can do with the bytes it
  reads; `Treated` collects them, and `handleClientRecv_treated` says that there is nothing else.
* `TreatedAll` — successive invocations on one session, which all get the same number for their
  connection to the server.
* `SameAsWhole`, `sameAsWhole_iff` — when the pieces of a request have the effect of the request.
-/

set_option autoImplicit false

namespace VideoCdn

open CLib

/-- The bytes read. -/
def ClientRecv.text (env : ClientRecv) : Bytes := env.read.getD []

/-- The bytes read by several invocations. -/
def texts (envs : List ClientRecv) : Bytes := envs.flatMap ClientRecv.text

/-- The bytes written to servers. -/
def upstreamBytes (evs : List ProxyEvent) : Bytes :=
  evs.flatMap fun ev => match ev with
    | .upstream _ bytes => bytes
    | _ => []

/-- `handle_client_recv` on session `sid` as it is. -/
def clientInvocation (sid : Nat) (st : ProxyState) (env : ClientRecv) :
    Checked (ProxyState × List ProxyEvent) :=
  match st.sessions[sid]? with
  | none => .ok (st, [])
  | some node => handleClientRecv env sid node st

/-! ## What one invocation does -/

/-- The server is reached, and the scan finds a request for a file. -/
structure IsRequest (env : ClientRecv) (line : RequestLine) : Prop where
  connected : env.connect = .connected
  scanned : scanRequest env.stack (readBuffer env.text) = .ok line
  get : isHttpGet line = true
  terminated : 0 ∈ line.httpRequestFile

/-- The server is not reached, or the scan finds no request. -/
def Dropped (env : ClientRecv) : Prop :=
  env.connect ≠ .connected ∨
    ∃ line, scanRequest env.stack (readBuffer env.text) = .ok line ∧ isHttpGet line = false

/-- The number of the connection fits in the set, if it is put there. -/
def Writable (env : ClientRecv) (connect : Nat) : Prop := 0 < env.retWrite → connect < FD_SETSIZE

/-- A request for a file that is no chunk. -/
def Plain (env : ClientRecv) (connect : Nat) : Prop :=
  ∃ line, IsRequest env line ∧
    (strstr (ascii "-Frag") (cstr line.httpRequestFile)).isNone = true ∧ Writable env connect

/-- The trackers after a request for the chunk that the rewritten text calls `name`. -/
def chunkTrackers (fd : Nat) (trackers : Trackers) (name : Bytes) : Trackers :=
  modifySeg fd
    (fun node => { node with
      bitrate := selectRate node.throughput
      chunks := name :: node.chunks })
    (if (searchSeg fd trackers).isNone then .fresh fd :: trackers else trackers)

/-- A request for a chunk: the buffer once the rate is written into it, the name of the chunk there,
and what the second scan finds. -/
structure ChunkRewritten (env : ClientRecv) (fd : Nat) (trackers : Trackers) (buffer name : Bytes)
    (line line' : RequestLine) : Prop where
  request : IsRequest env line
  isChunk : (strstr (ascii "-Frag") (cstr line.httpRequestFile)).isNone = false
  rewritten : rewriteRequest (selectRate (trackerOf fd trackers).throughput) (readBuffer env.text) =
    .ok buffer
  named : chunkName (cstr buffer) = .ok name
  scanned : scanRequest line buffer = .ok line'

/-- The rewritten text is a request. -/
def ChunkForwarded (env : ClientRecv) (connect fd : Nat) (trackers : Trackers)
    (buffer name : Bytes) : Prop :=
  ∃ line line', ChunkRewritten env fd trackers buffer name line line' ∧ isHttpGet line' = true ∧
    Writable env connect

/-- The rewritten text is no request any more. -/
def ChunkDropped (env : ClientRecv) (fd : Nat) (trackers : Trackers) (buffer name : Bytes) : Prop :=
  ∃ line line', ChunkRewritten env fd trackers buffer name line line' ∧ isHttpGet line' = false

/-- The trackers after an invocation, and what it writes to the server. -/
inductive Treated (env : ClientRecv) (connect fd : Nat) (trackers : Trackers) :
    Trackers → Bytes → Prop where
  | dropped : Dropped env → Treated env connect fd trackers trackers []
  | plain : Plain env connect → Treated env connect fd trackers trackers env.text
  | chunk (buffer name : Bytes) : ChunkForwarded env connect fd trackers buffer name →
      Treated env connect fd trackers (chunkTrackers fd trackers name)
        (buffer.take env.text.length)
  | chunkDropped (buffer name : Bytes) : ChunkDropped env fd trackers buffer name →
      Treated env connect fd trackers (chunkTrackers fd trackers name) []

/-- A word that has been stored is stored again in the same place. -/
theorem scanWord_again {array array' : Bytes} {word : Option Bytes}
    (h : scanWord array word = .ok array') : scanWord array' word = .ok array' := by
  cases word with
  | none => rfl
  | some w =>
    unfold scanWord at h ⊢
    dsimp only at h ⊢
    obtain ⟨hle, rfl⟩ := store_eq_ok.mp h
    rw [store_eq_ok]
    refine ⟨by rw [store_length h]; exact hle, ?_⟩
    simp only [List.take_zero, List.nil_append, Nat.zero_add, List.drop_left]

/-- The second scan of a buffer that has not changed finds the same. -/
theorem scanRequest_again {array line : RequestLine} {buffer : Bytes}
    (h : scanRequest array buffer = .ok line) : scanRequest line buffer = .ok line := by
  unfold scanRequest at h ⊢
  simp only [bind_eq_ok, pure_eq_ok, Except.ok.injEq] at h ⊢
  obtain ⟨u, hnul, httpMethod, hmethod, file, hfile, version, hversion, rfl⟩ := h
  exact ⟨u, hnul, httpMethod, scanWord_again hmethod, file, scanWord_again hfile, version,
    scanWord_again hversion, rfl⟩

theorem createTracker_none_iff {file : Bytes} {fd : Nat} {trackers : Trackers} :
    createTracker file fd trackers = none ↔ (strstr (ascii "-Frag") file).isNone = true := by
  unfold createTracker
  cases (strstr (ascii "-Frag") file).isNone <;> simp

theorem modifySeg_modifySeg {fd : Nat} {f g h : ChunkTrackerList → ChunkTrackerList}
    (hf : ∀ node, (f node).clientFd = node.clientFd) {trackers : Trackers}
    (heq : ∀ node, searchSeg fd trackers = some node → g (f node) = h node) :
    modifySeg fd g (modifySeg fd f trackers) = modifySeg fd h trackers := by
  induction trackers with
  | nil => rfl
  | cons a trackers ih =>
    rw [searchSeg_cons] at heq
    by_cases ha : a.clientFd = fd
    · rw [if_pos ha] at heq
      simp only [modifySeg, if_pos ha, if_pos ((hf a).trans ha), heq a rfl]
    · rw [if_neg ha] at heq
      simp only [modifySeg, if_neg ha, ih heq]

/-- The list that `create_tracker` searches or extends. -/
theorem searchSeg_withTracker {fd : Nat} {trackers : Trackers} :
    searchSeg fd (if (searchSeg fd trackers).isNone then ChunkTrackerList.fresh fd :: trackers
      else trackers) = some (trackerOf fd trackers) := by
  unfold trackerOf
  cases hs : searchSeg fd trackers with
  | none => exact (searchSeg_cons _ _).trans (if_pos rfl)
  | some node => exact hs

/-- `create_tracker` and `update_bitrate`, one after the other. -/
theorem trackers_chunk {file buffer buffer' : Bytes} {fd : Nat} {trackers trackers' : Trackers} :
    (∃ trackers₁, createTracker file fd trackers = some trackers₁ ∧
      updateBitrate buffer fd trackers₁ = .ok (buffer', trackers')) ↔
    (strstr (ascii "-Frag") file).isNone = false ∧
      rewriteRequest (selectRate (trackerOf fd trackers).throughput) buffer = .ok buffer' ∧
      ∃ name, chunkName (cstr buffer') = .ok name ∧
        trackers' = chunkTrackers fd trackers name := by
  cases hfrag : (strstr (ascii "-Frag") file).isNone with
  | true =>
    simp [createTracker_none_iff.mpr hfrag]
  | false =>
    obtain ⟨trackers₁, hcreate⟩ : ∃ t, createTracker file fd trackers = some t := by
      rw [← Option.ne_none_iff_exists', Ne, createTracker_none_iff, hfrag]
      simp
    obtain ⟨hsearch, -⟩ := createTracker_spec hcreate
    have htrackers₁ : modifySeg fd (fun node => { node with chunks := file.take 48 :: node.chunks })
        (if (searchSeg fd trackers).isNone then .fresh fd :: trackers else trackers) = trackers₁ := by
      unfold createTracker at hcreate
      rwa [if_neg (by rw [hfrag]; simp), Option.some.injEq] at hcreate
    have htwice : ∀ name, modifySeg fd (fun node => { node with
          bitrate := selectRate (trackerOf fd trackers).throughput
          chunks := name :: (trackerOf fd trackers).chunks }) trackers₁ =
        chunkTrackers fd trackers name := by
      intro name
      rw [← htrackers₁]
      unfold chunkTrackers
      apply modifySeg_modifySeg
      · exact fun _ => rfl
      · -- the tracker that is modified twice is the one that the estimate is read from
        intro node hnode
        rw [searchSeg_withTracker, Option.some.injEq] at hnode
        rw [hnode]
    simp only [hcreate, Option.some.injEq, exists_eq_left', true_and]
    unfold updateBitrate
    simp only [hsearch, bind_eq_ok, pure_eq_ok, Except.ok.injEq, Prod.mk.injEq, htwice]
    constructor
    · rintro ⟨b, hrw, name, hname, rfl, rfl⟩
      exact ⟨hrw, name, hname, rfl⟩
    · rintro ⟨hrw, name, hname, rfl⟩
      exact ⟨buffer', hrw, name, hname, rfl, rfl⟩

/-- An invocation that reaches the server. -/
theorem handleClientRecv_connected {env : ClientRecv} (sid : Nat) (node : Session)
    (st : ProxyState) (hread : env.read ≠ none) (hconn : env.connect = .connected) :
    handleClientRecv env sid node st = (do
      let line ← scanRequest env.stack (readBuffer env.text)
      if isHttpGet line = false then
        return (st.reconnect sid node, [.connected sid (st.newServer node)])
      else do
        inBounds (0 ∈ line.httpRequestFile)
        let (buffer, st₂, evs) ← trackChunk env.now sid (node.connectedTo (st.newServer node))
          (cstr line.httpRequestFile) (readBuffer env.text) (st.reconnect sid node)
        let evs := .connected sid (st.newServer node) :: evs
        let line ← scanRequest line buffer
        if isHttpGet line = false then return (st₂, evs)
        else do
          let evs := evs ++ [.upstream sid (buffer.take env.text.length)]
          if 0 < env.retWrite then
            let st₂ ← st₂.fdSet (st.newServer node)
            return (st₂, evs)
          else return (st₂, evs)) := by
  obtain ⟨req, hreq⟩ := Option.ne_none_iff_exists'.mp hread
  unfold handleClientRecv ClientRecv.text
  rw [hreq, hconn]
  rfl

/-- An invocation that cannot read closes the client. -/
theorem handleClientRecv_readError {env : ClientRecv} (sid : Nat) (node : Session) (st : ProxyState)
    (hread : env.read = none) :
    handleClientRecv env sid node st = .ok (st.close node.clientFd, []) := by
  unfold handleClientRecv
  rw [hread]

/-- An invocation that does not reach the server. -/
theorem handleClientRecv_noServer {env : ClientRecv} (sid : Nat) (node : Session)
    (st : ProxyState) (hread : env.read ≠ none) (hconn : env.connect ≠ .connected) :
    handleClientRecv env sid node st = .ok (st.closeServer node, []) := by
  obtain ⟨req, hreq⟩ := Option.ne_none_iff_exists'.mp hread
  unfold handleClientRecv
  rw [hreq]
  cases hc : env.connect with
  | noSocket => rfl
  | refused => rfl
  | connected => exact absurd hc hconn

theorem upstreamBytes_append (evs evs' : List ProxyEvent) :
    upstreamBytes (evs ++ evs') = upstreamBytes evs ++ upstreamBytes evs' := by
  unfold upstreamBytes
  exact List.flatMap_append

theorem upstreamBytes_trackChunk {now : Timespec} {sid : Nat} {node : Session} {file b b' : Bytes}
    {st st' : ProxyState} {evs : List ProxyEvent}
    (h : trackChunk now sid node file b st = .ok (b', st', evs)) (connect : Nat) :
    upstreamBytes (.connected sid connect :: evs) = [] := by
  rcases trackChunk_eq_ok.mp h with ⟨-, -, -, rfl⟩ | ⟨_, _, -, -, -, rfl⟩ <;> rfl

/-- The end of an invocation whose second scan has been made. -/
theorem treated_end (env : ClientRecv) (sid connect : Nat) {line : RequestLine} {buffer : Bytes}
    {st₂ : ProxyState} {evs : List ProxyEvent} {trackers : Trackers} {out : Bytes}
    (hevs : upstreamBytes evs = []) :
    (∃ st' evs', (if isHttpGet line = false then .ok (st₂, evs)
        else if 0 < env.retWrite then do
          let st₃ ← st₂.fdSet connect
          return (st₃, evs ++ [.upstream sid (buffer.take env.text.length)])
        else return (st₂, evs ++ [.upstream sid (buffer.take env.text.length)]) :
          Checked (ProxyState × List ProxyEvent)) = .ok (st', evs') ∧
      st'.trackers = trackers ∧ upstreamBytes evs' = out) ↔
    st₂.trackers = trackers ∧ (isHttpGet line = false ∧ out = [] ∨
      isHttpGet line = true ∧ Writable env connect ∧ out = buffer.take env.text.length) := by
  have hup : upstreamBytes (evs ++ [.upstream sid (buffer.take env.text.length)]) =
      buffer.take env.text.length := by
    rw [upstreamBytes_append, hevs]
    simp [upstreamBytes]
  unfold Writable
  cases isHttpGet line with
  | false =>
    simp only [if_true, Except.ok.injEq, Prod.mk.injEq, true_and, Bool.false_eq_true, false_and,
      or_false]
    constructor
    · rintro ⟨st', evs', ⟨rfl, rfl⟩, htrackers, rfl⟩
      exact ⟨htrackers, hevs⟩
    · rintro ⟨htrackers, rfl⟩
      exact ⟨st₂, evs, ⟨rfl, rfl⟩, htrackers, hevs⟩
  | true =>
    simp only [Bool.true_eq_false, if_false, false_and, true_and, false_or]
    by_cases hwrite : 0 < env.retWrite
    · simp only [hwrite, if_true, bind_eq_ok, ProxyState.fdSet_eq_ok, pure_eq_ok, Except.ok.injEq,
        Prod.mk.injEq, forall_const]
      constructor
      · rintro ⟨st', evs', ⟨st₃, ⟨hlt, rfl⟩, rfl, rfl⟩, htrackers, rfl⟩
        exact ⟨htrackers, hlt, hup⟩
      · rintro ⟨htrackers, hlt, rfl⟩
        exact ⟨_, _, ⟨_, ⟨hlt, rfl⟩, rfl, rfl⟩, htrackers, hup⟩
    · simp only [hwrite, if_false, pure_eq_ok, Except.ok.injEq, Prod.mk.injEq, false_imp_iff,
        true_and]
      constructor
      · rintro ⟨st', evs', ⟨rfl, rfl⟩, htrackers, rfl⟩
        exact ⟨htrackers, hup⟩
      · rintro ⟨htrackers, rfl⟩
        exact ⟨st₂, _, ⟨rfl, rfl⟩, htrackers, hup⟩

section Invocation
variable {env : ClientRecv} {sid : Nat} {node : Session} {st : ProxyState} {trackers : Trackers}
  {out : Bytes}

/-- What is done for the file of the request, once the server is reached. -/
theorem trackChunk_reconnect_iff {file buffer buffer' : Bytes} :
    (∃ st₂ evs, trackChunk env.now sid (node.connectedTo (st.newServer node)) file buffer
        (st.reconnect sid node) = .ok (buffer', st₂, evs) ∧ st₂.trackers = trackers) ↔
      ((strstr (ascii "-Frag") file).isNone = true ∧ buffer' = buffer ∧ trackers = st.trackers) ∨
      ((strstr (ascii "-Frag") file).isNone = false ∧
        rewriteRequest (selectRate (trackerOf node.clientFd st.trackers).throughput) buffer =
          .ok buffer' ∧
        ∃ name, chunkName (cstr buffer') = .ok name ∧
          trackers = chunkTrackers node.clientFd st.trackers name) := by
  rw [← trackers_chunk, ← st.trackers_reconnect sid node]
  simp only [trackChunk_eq_ok, createTracker_none_iff]
  constructor
  · rintro ⟨st₂, evs, ⟨hnone, rfl, rfl, -⟩ | ⟨trackers₁, trackers₂, hsome, hupd, rfl, -⟩, rfl⟩
    · exact Or.inl ⟨hnone, rfl, rfl⟩
    · exact Or.inr ⟨trackers₁, hsome, hupd⟩
  · rintro (⟨hnone, rfl, rfl⟩ | ⟨trackers₁, hsome, hupd⟩)
    · exact ⟨_, [], Or.inl ⟨hnone, rfl, rfl, rfl⟩, rfl⟩
    · exact ⟨_, _, Or.inr ⟨trackers₁, trackers, hsome, hupd, rfl, rfl⟩, rfl⟩

/-- An invocation whose first scan has found a request. -/
theorem handleClientRecv_request {line : RequestLine} (hread : env.read ≠ none)
    (hline : IsRequest env line) :
    (∃ st' evs, handleClientRecv env sid node st = .ok (st', evs) ∧ st'.trackers = trackers ∧
        upstreamBytes evs = out) ↔
      ∃ buffer line', (∃ st₂ evs, trackChunk env.now sid (node.connectedTo (st.newServer node))
          (cstr line.httpRequestFile) (readBuffer env.text) (st.reconnect sid node) =
            .ok (buffer, st₂, evs) ∧ st₂.trackers = trackers) ∧
        scanRequest line buffer = .ok line' ∧
        (isHttpGet line' = false ∧ out = [] ∨ isHttpGet line' = true ∧
          Writable env (st.newServer node) ∧ out = buffer.take env.text.length) := by
  obtain ⟨hconn, hscan, hget, hterm⟩ := hline
  rw [handleClientRecv_connected sid node st hread hconn, hscan, ok_bind, hget,
    if_neg (by simp), inBounds_pos hterm, ok_bind]
  constructor
  · rintro ⟨st', evs', hrun, htrackers, hout⟩
    rw [bind_eq_ok] at hrun
    obtain ⟨⟨buffer, st₂, evs⟩, htrack, hrun⟩ := hrun
    dsimp only at hrun
    rw [bind_eq_ok] at hrun
    obtain ⟨line', hscan', hrun⟩ := hrun
    have hevs : upstreamBytes (.connected sid (st.newServer node) :: evs) = [] :=
      upstreamBytes_trackChunk htrack _
    obtain ⟨htrackers, hend⟩ := (treated_end env sid _ hevs).mp ⟨st', evs', hrun, htrackers, hout⟩
    exact ⟨buffer, line', ⟨st₂, evs, htrack, htrackers⟩, hscan', hend⟩
  · rintro ⟨buffer, line', ⟨st₂, evs, htrack, htrackers⟩, hscan', hend⟩
    have hevs : upstreamBytes (.connected sid (st.newServer node) :: evs) = [] :=
      upstreamBytes_trackChunk htrack _
    obtain ⟨st', evs', hrun, hres⟩ := (treated_end env sid _ hevs).mpr ⟨htrackers, hend⟩
    refine ⟨st', evs', ?_, hres⟩
    rw [htrack, ok_bind]
    dsimp only
    rw [hscan', ok_bind]
    exact hrun

theorem treated_of_handleClientRecv (hread : env.read ≠ none)
    (h : ∃ st' evs, handleClientRecv env sid node st = .ok (st', evs) ∧ st'.trackers = trackers ∧
      upstreamBytes evs = out) :
    Treated env (st.newServer node) node.clientFd st.trackers trackers out := by
  by_cases hconn : env.connect = .connected
  · obtain ⟨st', evs, hrun, htrackers, hout⟩ := id h
    rw [handleClientRecv_connected sid node st hread hconn, bind_eq_ok] at hrun
    obtain ⟨line, hscan, hrun⟩ := hrun
    cases hget : isHttpGet line with
    | false =>
      rw [if_pos hget] at hrun
      cases hrun
      rw [← htrackers, ← hout, st.trackers_reconnect]
      exact .dropped (Or.inr ⟨line, hscan, hget⟩)
    | true =>
      rw [if_neg (by rw [hget]; simp), inBounds_bind_eq_ok] at hrun
      have hline : IsRequest env line := ⟨hconn, hscan, hget, hrun.1⟩
      obtain ⟨buffer, line', htrack, hscan', hend⟩ := (handleClientRecv_request hread hline).mp h
      rcases trackChunk_reconnect_iff.mp htrack with
        ⟨hplain, rfl, rfl⟩ | ⟨hfrag, hrw, name, hname, rfl⟩
      · -- the buffer is as it was, and so is what the scan finds
        rw [scanRequest_again hscan, Except.ok.injEq] at hscan'
        subst hscan'
        rcases hend with ⟨hno, -⟩ | ⟨-, hwrite, rfl⟩
        · rw [hget] at hno
          cases hno
        · rw [readBuffer_take env.text]
          exact .plain ⟨line, hline, hplain, hwrite⟩
      · have hchunk : ChunkRewritten env node.clientFd st.trackers buffer name line line' :=
          ⟨hline, hfrag, hrw, hname, hscan'⟩
        rcases hend with ⟨hno, rfl⟩ | ⟨hyes, hwrite, rfl⟩
        · exact .chunkDropped buffer name ⟨line, line', hchunk, hno⟩
        · exact .chunk buffer name ⟨line, line', hchunk, hyes, hwrite⟩
  · obtain ⟨st', evs, hrun, htrackers, hout⟩ := h
    rw [handleClientRecv_noServer sid node st hread hconn] at hrun
    cases hrun
    rw [← htrackers, ← hout, st.trackers_closeServer]
    exact .dropped (Or.inl hconn)

theorem handleClientRecv_of_treated (hread : env.read ≠ none)
    (h : Treated env (st.newServer node) node.clientFd st.trackers trackers out) :
    ∃ st' evs, handleClientRecv env sid node st = .ok (st', evs) ∧ st'.trackers = trackers ∧
      upstreamBytes evs = out := by
  cases h with
  | dropped h =>
    by_cases hconn : env.connect = .connected
    · rcases h with h | ⟨line, hscan, hget⟩
      · exact absurd hconn h
      · refine ⟨st.reconnect sid node, [.connected sid (st.newServer node)], ?_,
          st.trackers_reconnect sid node, rfl⟩
        rw [handleClientRecv_connected sid node st hread hconn, hscan, ok_bind, if_pos hget]
        rfl
    · exact ⟨_, _, handleClientRecv_noServer sid node st hread hconn,
        st.trackers_closeServer node, rfl⟩
  | plain h =>
    obtain ⟨line, hline, hplain, hwrite⟩ := h
    exact (handleClientRecv_request hread hline).mpr ⟨readBuffer env.text, line,
      trackChunk_reconnect_iff.mpr (Or.inl ⟨hplain, rfl, rfl⟩), scanRequest_again hline.scanned,
      Or.inr ⟨hline.get, hwrite, (readBuffer_take _).symm⟩⟩
  | chunk buffer name h =>
    obtain ⟨line, line', hchunk, hget, hwrite⟩ := h
    exact (handleClientRecv_request hread hchunk.request).mpr ⟨buffer, line',
      trackChunk_reconnect_iff.mpr
        (Or.inr ⟨hchunk.isChunk, hchunk.rewritten, name, hchunk.named, rfl⟩),
      hchunk.scanned, Or.inr ⟨hget, hwrite, rfl⟩⟩
  | chunkDropped buffer name h =>
    obtain ⟨line, line', hchunk, hget⟩ := h
    exact (handleClientRecv_request hread hchunk.request).mpr ⟨buffer, line',
      trackChunk_reconnect_iff.mpr
        (Or.inr ⟨hchunk.isChunk, hchunk.rewritten, name, hchunk.named, rfl⟩),
      hchunk.scanned, Or.inl ⟨hget, rfl⟩⟩

end Invocation

/-- **One invocation**: the trackers afterwards and the bytes for the server are one of the ways in
which the bytes read can be treated. -/
theorem handleClientRecv_treated {env : ClientRecv} {sid : Nat} {node : Session} {st : ProxyState}
    (hread : env.read ≠ none) {trackers : Trackers} {out : Bytes} :
    (∃ st' evs, handleClientRecv env sid node st = .ok (st', evs) ∧ st'.trackers = trackers ∧
        upstreamBytes evs = out) ↔
      Treated env (st.newServer node) node.clientFd st.trackers trackers out :=
  ⟨treated_of_handleClientRecv hread, handleClientRecv_of_treated hread⟩

/-! ## Successive invocations -/

/-- The session has another connection to the server. -/
structure Reconnected (sid : Nat) (node : Session) (st st' : ProxyState) : Prop where
  openFds : st'.openFds = insert (st.newServer node) (st.closeServer node).openFds
  readyToRead : st'.readyToRead = st.readyToRead
  session : ∃ node', st'.sessions = st.sessions.set sid node' ∧
    node'.clientFd = node.clientFd ∧ node'.serverFd = some (st.newServer node)

theorem Reconnected.of_reconnect (sid : Nat) (node : Session) (st : ProxyState) :
    Reconnected sid node st (st.reconnect sid node) := by
  refine ⟨rfl, st.readyToRead_closeServer node, node.connectedTo (st.newServer node), ?_, rfl, rfl⟩
  unfold ProxyState.reconnect ProxyState.setSession
  dsimp only
  rw [st.sessions_closeServer]
  rfl

theorem Reconnected.of_trackChunk {env : ClientRecv} {sid : Nat} {node : Session}
    {st st₂ : ProxyState} {file buffer buffer' : Bytes} {evs : List ProxyEvent}
    (h : trackChunk env.now sid (node.connectedTo (st.newServer node)) file buffer
      (st.reconnect sid node) = .ok (buffer', st₂, evs)) :
    Reconnected sid node st st₂ := by
  have hre := Reconnected.of_reconnect sid node st
  rcases trackChunk_state h with rfl | ⟨trackers, rfl⟩
  · exact hre
  · obtain ⟨node', hset, -, -⟩ := hre.session
    refine ⟨hre.openFds, hre.readyToRead,
      { node.connectedTo (st.newServer node) with ts := some env.now }, ?_, rfl, rfl⟩
    unfold ProxyState.setSession
    dsimp only
    rw [hset, List.set_set]

/-- The session's descriptor, and the number that its next connection gets. -/
def Attached (sid connect fd : Nat) (st : ProxyState) : Prop :=
  ∃ node, st.sessions[sid]? = some node ∧ node.clientFd = fd ∧ st.newServer node = connect

theorem ProxyState.newServer_watching (st : ProxyState) (ready : Finset Nat) (node : Session) :
    ProxyState.newServer { st with readyToRead := ready } node = st.newServer node := by
  unfold newServer closeServer
  cases node.serverFd <;> rfl

section Attached
variable {sid connect fd : Nat} {st : ProxyState}

/-- Closing the connection twice is closing it once. -/
theorem Attached.closeServer {node : Session} (h : st.sessions[sid]? = some node) :
    Attached sid (st.newServer node) node.clientFd (st.closeServer node) := by
  refine ⟨node, by rw [st.sessions_closeServer]; exact h, rfl, ?_⟩
  unfold ProxyState.newServer ProxyState.closeServer
  cases node.serverFd with
  | none => rfl
  | some serverFd => simp [ProxyState.close]

/-- The next connection gets the number of the one that it replaces. -/
theorem Attached.of_reconnected {node : Session} {st' : ProxyState}
    (hnode : st.sessions[sid]? = some node) (h : Reconnected sid node st st') :
    Attached sid (st.newServer node) node.clientFd st' := by
  obtain ⟨node', hset, hclient, hserver⟩ := h.session
  have hlt : sid < st.sessions.length := (List.getElem?_eq_some_iff.mp hnode).1
  refine ⟨node', by rw [hset, List.getElem?_set_self hlt], hclient, ?_⟩
  have hnew : st.newServer node ∉ (st.closeServer node).openFds := lowestFree_notMem _
  have herase : (st'.closeServer node').openFds = st'.openFds.erase (st.newServer node) := by
    unfold ProxyState.closeServer
    rw [hserver]
    rfl
  have hclosed : (st'.closeServer node').openFds = (st.closeServer node).openFds := by
    rw [herase, h.openFds, Finset.erase_insert hnew]
  exact congrArg lowestFree hclosed

/-- The number of the next connection is the same for all invocations. -/
theorem Attached.step {env : ClientRecv} {node : Session} {st' : ProxyState} {evs : List ProxyEvent}
    (hread : env.read ≠ none) (h : st.sessions[sid]? = some node)
    (hstep : ClientStep env sid node st st' evs) :
    Attached sid (st.newServer node) node.clientFd st' := by
  cases hstep with
  | readError hnone => exact absurd hnone hread
  | noServer => exact .closeServer h
  | refused => exact .of_reconnected h (.of_reconnect sid node st)
  | refusedRewritten _ _ _ _ _ htrack => exact .of_reconnected h (.of_trackChunk htrack)
  | forwarded _ _ _ _ _ htrack => exact .of_reconnected h (.of_trackChunk htrack)
  | forwardedReady _ _ _ _ _ htrack =>
    obtain ⟨node', hnode', hclient, hserver⟩ := Attached.of_reconnected h (.of_trackChunk htrack)
    refine ⟨node', hnode', hclient, ?_⟩
    rw [← hserver]
    exact ProxyState.newServer_watching _ _ node'

end Attached

/-- What successive invocations do, one after the other. -/
inductive TreatedAll (connect fd : Nat) :
    Trackers → List ClientRecv → Trackers → Bytes → Prop where
  | nil (trackers : Trackers) : TreatedAll connect fd trackers [] trackers []
  | cons {env : ClientRecv} {envs : List ClientRecv} {trackers trackers₁ trackers₂ : Trackers}
      {out out' : Bytes} : Treated env connect fd trackers trackers₁ out →
      TreatedAll connect fd trackers₁ envs trackers₂ out' →
      TreatedAll connect fd trackers (env :: envs) trackers₂ (out ++ out')

/-- **Successive invocations** on one session: the trackers afterwards, and the bytes for the
server. -/
theorem run_treatedAll {sid connect fd : Nat} {envs : List ClientRecv}
    (hread : ∀ env ∈ envs, env.read ≠ none) {st : ProxyState} (h : Attached sid connect fd st)
    {trackers : Trackers} {out : Bytes} :
    (∃ st' evs, Machine.run (clientInvocation sid) st envs = .ok (st', evs) ∧
        st'.trackers = trackers ∧ upstreamBytes evs = out) ↔
      TreatedAll connect fd st.trackers envs trackers out := by
  induction envs generalizing st trackers out with
  | nil =>
    constructor
    · rintro ⟨st', evs, hrun, rfl, rfl⟩
      cases hrun
      exact .nil st.trackers
    · intro hall
      cases hall
      exact ⟨st, [], rfl, rfl, rfl⟩
  | cons env envs ih =>
    obtain ⟨node, hnode, rfl, rfl⟩ := h
    have henv : env.read ≠ none := hread env List.mem_cons_self
    have henvs : ∀ env' ∈ envs, env'.read ≠ none :=
      fun env' hmem => hread env' (List.mem_cons_of_mem env hmem)
    have hstep : clientInvocation sid st env = handleClientRecv env sid node st := by
      unfold clientInvocation
      rw [hnode]
    constructor
    · rintro ⟨st', evs, hrun, htrackers, hout⟩
      obtain ⟨st₁, evs₁, evs₂, hone, hrest, rfl⟩ := Machine.run_cons_eq_ok.mp hrun
      rw [hstep] at hone
      have hatt := Attached.step henv hnode (handleClientRecv_step hone)
      have htreated := (handleClientRecv_treated henv).mp ⟨st₁, evs₁, hone, rfl, rfl⟩
      rw [← hout, upstreamBytes_append]
      exact .cons htreated ((ih henvs hatt).mp ⟨st', evs₂, hrest, htrackers, rfl⟩)
    · intro hall
      cases hall with
      | cons hone hrest =>
        obtain ⟨st₁, evs₁, hone, rfl, rfl⟩ := (handleClientRecv_treated henv).mpr hone
        have hatt := Attached.step henv hnode (handleClientRecv_step hone)
        obtain ⟨st', evs₂, hruns, htrackers, rfl⟩ := (ih henvs hatt).mpr hrest
        rw [← hstep] at hone
        exact ⟨st', evs₁ ++ evs₂, Machine.run_cons_eq_ok.mpr ⟨st₁, evs₁, evs₂, hone, hruns, rfl⟩,
          htrackers, upstreamBytes_append evs₁ evs₂⟩

/-! ## Pieces and the whole -/

/-- The reads of `pieces` return the bytes that the read of `whole` returns at once. -/
structure IsSplit (whole : ClientRecv) (pieces : List ClientRecv) : Prop where
  read : whole.read ≠ none
  reads : ∀ piece ∈ pieces, piece.read ≠ none
  nonempty : ∀ piece ∈ pieces, piece.text ≠ []
  joined : texts pieces = whole.text

/-- The pieces have the same effect as the whole: on the trackers, and on what the server gets. -/
def SameAsWhole (sid : Nat) (st : ProxyState) (whole : ClientRecv) (pieces : List ClientRecv) :
    Prop :=
  ∃ st₁ evs₁ st₂ evs₂, clientInvocation sid st whole = .ok (st₁, evs₁) ∧
    Machine.run (clientInvocation sid) st pieces = .ok (st₂, evs₂) ∧
    upstreamBytes evs₂ = upstreamBytes evs₁ ∧ st₂.trackers = st₁.trackers

/-- Every piece is by itself what the whole is: no request, or a request for a file that is no
chunk.  Of the pieces of a request for a chunk one is such a request, for the same chunk, and the
others are forwarded as they are, or dropped. -/
inductive SplitHarmless (connect fd : Nat) (trackers : Trackers) (whole : ClientRecv)
    (pieces : List ClientRecv) : Prop where
  | dropped : Dropped whole → (∀ piece ∈ pieces, Dropped piece) →
      SplitHarmless connect fd trackers whole pieces
  | plain : Plain whole connect → (∀ piece ∈ pieces, Plain piece connect) →
      SplitHarmless connect fd trackers whole pieces
  | chunk (pre post : List ClientRecv) (piece : ClientRecv) (buffer buffer' name : Bytes) :
      ChunkForwarded whole connect fd trackers buffer name →
      pieces = pre ++ piece :: post → (∀ piece ∈ pre ++ post, Plain piece connect) →
      ChunkForwarded piece connect fd trackers buffer' name →
      texts pre ++ buffer'.take piece.text.length ++ texts post = buffer.take whole.text.length →
      SplitHarmless connect fd trackers whole pieces
  | chunkDropped (pre post : List ClientRecv) (piece : ClientRecv) (buffer buffer' name : Bytes) :
      ChunkDropped whole fd trackers buffer name →
      pieces = pre ++ piece :: post → (∀ piece ∈ pre ++ post, Dropped piece) →
      ChunkDropped piece fd trackers buffer' name →
      SplitHarmless connect fd trackers whole pieces

theorem texts_cons (env : ClientRecv) (envs : List ClientRecv) :
    texts (env :: envs) = env.text ++ texts envs := List.flatMap_cons

theorem texts_append (envs envs' : List ClientRecv) :
    texts (envs ++ envs') = texts envs ++ texts envs' := List.flatMap_append

/-- How many chunks the tracker of the descriptor lists. -/
def listedChunks (fd : Nat) (trackers : Trackers) : Nat := (trackerOf fd trackers).chunks.length

section chunkTrackers
variable {fd : Nat} {trackers : Trackers} {name : Bytes}

theorem searchSeg_chunkTrackers : searchSeg fd (chunkTrackers fd trackers name) =
    some { trackerOf fd trackers with
      bitrate := selectRate (trackerOf fd trackers).throughput
      chunks := name :: (trackerOf fd trackers).chunks } := by
  unfold chunkTrackers
  apply searchSeg_modifySeg
  · exact fun _ => rfl
  · exact searchSeg_withTracker

theorem listedChunks_chunkTrackers :
    listedChunks fd (chunkTrackers fd trackers name) = listedChunks fd trackers + 1 := by
  unfold listedChunks
  rw [trackerOf, searchSeg_chunkTrackers]
  rfl

theorem chunkTrackers_inj {name' : Bytes}
    (h : chunkTrackers fd trackers name = chunkTrackers fd trackers name') : name = name' := by
  have hsearch := congrArg (searchSeg fd) h
  rw [searchSeg_chunkTrackers, searchSeg_chunkTrackers, Option.some.injEq,
    ChunkTrackerList.mk.injEq, List.cons.injEq] at hsearch
  exact hsearch.2.1.1

end chunkTrackers

theorem ClientRecv.length_text_le (env : ClientRecv) : env.text.length ≤ MAX_LENGTH := by
  unfold text
  cases hread : env.read with
  | none => exact Nat.zero_le _
  | some req => exact env.read_le req hread

/-- As many bytes are written as were read. -/
theorem ChunkRewritten.length_take {env : ClientRecv} {fd : Nat} {trackers : Trackers}
    {buffer name : Bytes} {line line' : RequestLine}
    (h : ChunkRewritten env fd trackers buffer name line line') :
    (buffer.take env.text.length).length = env.text.length := by
  have hlen : buffer.length = MAX_LENGTH := by
    have hrw := h.rewritten
    unfold rewriteRequest at hrw
    rw [bind_eq_ok] at hrw
    obtain ⟨text, -, hstore⟩ := hrw
    rw [store_length hstore, length_readBuffer env.length_text_le]
  rw [List.length_take, hlen]
  exact Nat.min_eq_left env.length_text_le

section TreatedAll
variable {connect fd : Nat} {trackers trackers' : Trackers} {envs : List ClientRecv} {out : Bytes}

theorem Treated.length_le {env : ClientRecv} (h : Treated env connect fd trackers trackers' out) :
    out.length ≤ env.text.length := by
  cases h with
  | dropped => exact Nat.zero_le _
  | plain => exact le_refl _
  | chunk buffer name h =>
    obtain ⟨line, line', hchunk, -⟩ := h
    exact hchunk.length_take.le
  | chunkDropped => exact Nat.zero_le _

theorem TreatedAll.length_le (h : TreatedAll connect fd trackers envs trackers' out) :
    out.length ≤ (texts envs).length := by
  induction h with
  | nil => exact le_refl _
  | cons hone _ ih =>
    rw [texts_cons, List.length_append, List.length_append]
    exact Nat.add_le_add hone.length_le ih

theorem TreatedAll.append {envs' : List ClientRecv} {trackers₂ : Trackers} {out' : Bytes}
    (h : TreatedAll connect fd trackers envs trackers' out)
    (h' : TreatedAll connect fd trackers' envs' trackers₂ out') :
    TreatedAll connect fd trackers (envs ++ envs') trackers₂ (out ++ out') := by
  induction h with
  | nil => exact h'
  | cons hone _ ih =>
    rw [List.cons_append, List.append_assoc]
    exact .cons hone (ih h')

theorem TreatedAll.of_dropped (h : ∀ env ∈ envs, Dropped env) :
    TreatedAll connect fd trackers envs trackers [] := by
  induction envs with
  | nil => exact .nil trackers
  | cons env envs ih =>
    exact .cons (.dropped (h env List.mem_cons_self))
      (ih fun env' hmem => h env' (List.mem_cons_of_mem env hmem))

theorem TreatedAll.of_plain (h : ∀ env ∈ envs, Plain env connect) :
    TreatedAll connect fd trackers envs trackers (texts envs) := by
  induction envs with
  | nil => exact .nil trackers
  | cons env envs ih =>
    exact .cons (.plain (h env List.mem_cons_self))
      (ih fun env' hmem => h env' (List.mem_cons_of_mem env hmem))

theorem TreatedAll.listedChunks_le (h : TreatedAll connect fd trackers envs trackers' out) :
    listedChunks fd trackers ≤ listedChunks fd trackers' := by
  induction h with
  | nil => exact le_refl _
  | cons hone _ ih =>
    cases hone with
    | dropped => exact ih
    | plain => exact ih
    | chunk | chunkDropped =>
      rw [listedChunks_chunkTrackers] at ih
      exact Nat.le_of_succ_le ih

/-- Invocations that list no chunk leave the trackers as they are.  If they write nothing they have
dropped every piece, and if they write everything they have forwarded every piece as it is. -/
structure Quiet (connect : Nat) (trackers trackers' : Trackers) (envs : List ClientRecv)
    (out : Bytes) : Prop where
  same : trackers' = trackers
  dropped : out = [] → ∀ env ∈ envs, Dropped env
  plain : (texts envs).length ≤ out.length → out = texts envs ∧ ∀ env ∈ envs, Plain env connect

theorem TreatedAll.quiet (h : TreatedAll connect fd trackers envs trackers' out)
    (hne : ∀ env ∈ envs, env.text ≠ [])
    (hlisted : listedChunks fd trackers' ≤ listedChunks fd trackers) :
    Quiet connect trackers trackers' envs out := by
  induction h with
  | nil => exact ⟨rfl, fun _ _ hmem => absurd hmem (by simp), fun _ => ⟨rfl, by simp⟩⟩
  | @cons env envs trackers trackers₁ trackers₂ out out' hone hrest ih =>
    have hpos : 0 < env.text.length := List.length_pos_iff.mpr (hne env List.mem_cons_self)
    have hne' : ∀ env' ∈ envs, env'.text ≠ [] :=
      fun env' hmem => hne env' (List.mem_cons_of_mem env hmem)
    cases hone with
    | dropped hdropped =>
      obtain ⟨hsame, hall, -⟩ := ih hne' hlisted
      refine ⟨hsame, fun hnil => List.forall_mem_cons.mpr ⟨hdropped, hall hnil⟩, fun hlen => ?_⟩
      have := hrest.length_le
      rw [texts_cons, List.length_append, List.nil_append] at hlen
      omega
    | plain hplain =>
      obtain ⟨hsame, -, hall⟩ := ih hne' hlisted
      refine ⟨hsame, fun hnil => ?_, fun hlen => ?_⟩
      · rw [(List.append_eq_nil_iff.mp hnil).1] at hpos
        exact absurd hpos (Nat.lt_irrefl 0)
      · rw [texts_cons, List.length_append, List.length_append] at hlen
        obtain ⟨hout, hplain'⟩ := hall (by omega)
        rw [texts_cons, hout]
        exact ⟨rfl, List.forall_mem_cons.mpr ⟨hplain, hplain'⟩⟩
    | chunk | chunkDropped =>
      have := hrest.listedChunks_le
      rw [listedChunks_chunkTrackers] at this
      omega

/-- The piece that is treated as a request for a chunk. -/
inductive ChunkPiece (connect fd : Nat) (trackers : Trackers) (piece : ClientRecv) (name : Bytes) :
    Bytes → Prop where
  | forwarded (buffer : Bytes) : ChunkForwarded piece connect fd trackers buffer name →
      ChunkPiece connect fd trackers piece name (buffer.take piece.text.length)
  | dropped (buffer : Bytes) : ChunkDropped piece fd trackers buffer name →
      ChunkPiece connect fd trackers piece name []

/-- Invocations that list one chunk: one of them does, and the others leave the trackers as they
are. -/
theorem TreatedAll.oneChunk (h : TreatedAll connect fd trackers envs trackers' out)
    (hne : ∀ env ∈ envs, env.text ≠ [])
    (hlisted : listedChunks fd trackers' = listedChunks fd trackers + 1) :
    ∃ pre piece post name outPre outPiece outPost, envs = pre ++ piece :: post ∧
      out = outPre ++ (outPiece ++ outPost) ∧ trackers' = chunkTrackers fd trackers name ∧
      TreatedAll connect fd trackers pre trackers outPre ∧
      ChunkPiece connect fd trackers piece name outPiece ∧
      TreatedAll connect fd trackers' post trackers' outPost := by
  induction h with
  | nil => omega
  | @cons env envs trackers trackers₁ trackers₂ out out' hone hrest ih =>
    have hne' : ∀ env' ∈ envs, env'.text ≠ [] :=
      fun env' hmem => hne env' (List.mem_cons_of_mem env hmem)
    -- a piece that lists a chunk is the only one
    have hlast : ∀ {name}, trackers₁ = chunkTrackers fd trackers name →
        ChunkPiece connect fd trackers env name out →
        ∃ pre piece post name outPre outPiece outPost, env :: envs = pre ++ piece :: post ∧
          out ++ out' = outPre ++ (outPiece ++ outPost) ∧
          trackers₂ = chunkTrackers fd trackers name ∧
          TreatedAll connect fd trackers pre trackers outPre ∧
          ChunkPiece connect fd trackers piece name outPiece ∧
          TreatedAll connect fd trackers₂ post trackers₂ outPost := by
      rintro name rfl hpiece
      have hcount : listedChunks fd (chunkTrackers fd trackers name) =
          listedChunks fd trackers + 1 := listedChunks_chunkTrackers
      rw [← hcount] at hlisted
      obtain rfl := (hrest.quiet hne' hlisted.le).same
      exact ⟨[], env, envs, name, [], out, out', rfl, rfl, rfl, .nil trackers, hpiece, hrest⟩
    cases hone with
    | dropped hdropped =>
      obtain ⟨pre, piece, post, name, outPre, outPiece, outPost, rfl, rfl, hname, hpre, hpost⟩ :=
        ih hne' hlisted
      exact ⟨env :: pre, piece, post, name, [] ++ outPre, outPiece, outPost, rfl, rfl, hname,
        .cons (.dropped hdropped) hpre, hpost⟩
    | plain hplain =>
      obtain ⟨pre, piece, post, name, outPre, outPiece, outPost, rfl, rfl, hname, hpre, hpost⟩ :=
        ih hne' hlisted
      exact ⟨env :: pre, piece, post, name, env.text ++ outPre, outPiece, outPost, rfl,
        (List.append_assoc _ _ _).symm, hname, .cons (.plain hplain) hpre, hpost⟩
    | chunk buffer name hchunk => exact hlast rfl (.forwarded buffer hchunk)
    | chunkDropped buffer name hchunk => exact hlast rfl (.dropped buffer hchunk)

end TreatedAll

/-- The two runs, in terms of what the invocations do. -/
theorem sameAsWhole_treated {sid : Nat} {st : ProxyState} {node : Session} {whole : ClientRecv}
    {pieces : List ClientRecv} (hnode : st.sessions[sid]? = some node)
    (hsplit : IsSplit whole pieces) : SameAsWhole sid st whole pieces ↔
      ∃ trackers out, Treated whole (st.newServer node) node.clientFd st.trackers trackers out ∧
        TreatedAll (st.newServer node) node.clientFd st.trackers pieces trackers out := by
  have hone : clientInvocation sid st whole = handleClientRecv whole sid node st := by
    unfold clientInvocation
    rw [hnode]
  have hatt : Attached sid (st.newServer node) node.clientFd st := ⟨node, hnode, rfl, rfl⟩
  unfold SameAsWhole
  rw [hone]
  constructor
  · rintro ⟨st₁, evs₁, st₂, evs₂, hrun, hruns, hout, htrackers⟩
    exact ⟨st₁.trackers, upstreamBytes evs₁,
      (handleClientRecv_treated hsplit.read).mp ⟨st₁, evs₁, hrun, rfl, rfl⟩,
      (run_treatedAll hsplit.reads hatt).mp ⟨st₂, evs₂, hruns, htrackers, hout⟩⟩
  · rintro ⟨trackers, out, hwhole, hpieces⟩
    obtain ⟨st₁, evs₁, hrun, htrackers₁, hout₁⟩ :=
      (handleClientRecv_treated hsplit.read).mpr hwhole
    obtain ⟨st₂, evs₂, hruns, htrackers₂, hout₂⟩ := (run_treatedAll hsplit.reads hatt).mpr hpieces
    exact ⟨st₁, evs₁, st₂, evs₂, hrun, hruns, hout₂.trans hout₁.symm,
      htrackers₂.trans htrackers₁.symm⟩

section SplitHarmless
variable {connect fd : Nat} {trackers : Trackers} {whole : ClientRecv} {pieces : List ClientRecv}

/-- Pieces that list the chunk of the whole: one of them does, and the others are quiet. -/
theorem IsSplit.oneChunk (hsplit : IsSplit whole pieces) {name out : Bytes}
    (hall : TreatedAll connect fd trackers pieces (chunkTrackers fd trackers name) out) :
    ∃ pre piece post outPre outPiece outPost, pieces = pre ++ piece :: post ∧
      out = outPre ++ (outPiece ++ outPost) ∧ ChunkPiece connect fd trackers piece name outPiece ∧
      piece.text ≠ [] ∧
      (outPre.length ≤ (texts pre).length ∧ Quiet connect trackers trackers pre outPre) ∧
      (outPost.length ≤ (texts post).length ∧ Quiet connect (chunkTrackers fd trackers name)
        (chunkTrackers fd trackers name) post outPost) := by
  obtain ⟨pre, piece, post, name', outPre, outPiece, outPost, rfl, hout, hname, hpre, hpiece,
    hpost⟩ := hall.oneChunk hsplit.nonempty listedChunks_chunkTrackers
  obtain rfl := chunkTrackers_inj hname
  have hnepre : ∀ env ∈ pre, env.text ≠ [] :=
    fun env hmem => hsplit.nonempty env (List.mem_append_left _ hmem)
  have hnepost : ∀ env ∈ post, env.text ≠ [] := fun env hmem =>
    hsplit.nonempty env (List.mem_append_right _ (List.mem_cons_of_mem _ hmem))
  exact ⟨pre, piece, post, outPre, outPiece, outPost, rfl, hout, hpiece,
    hsplit.nonempty piece (by simp), ⟨hpre.length_le, hpre.quiet hnepre (le_refl _)⟩,
    ⟨hpost.length_le, hpost.quiet hnepost (le_refl _)⟩⟩

/-- The pieces of a request for a chunk that is forwarded. -/
theorem splitHarmless_of_chunk (hsplit : IsSplit whole pieces) {buffer name : Bytes}
    (hwhole : ChunkForwarded whole connect fd trackers buffer name)
    (hall : TreatedAll connect fd trackers pieces (chunkTrackers fd trackers name)
      (buffer.take whole.text.length)) :
    SplitHarmless connect fd trackers whole pieces := by
  obtain ⟨line, line', hchunk, -⟩ := id hwhole
  obtain ⟨pre, piece, post, outPre, outPiece, outPost, rfl, hout, hpiece, hne, ⟨hlepre, hpre⟩,
    ⟨hlepost, hpost⟩⟩ := hsplit.oneChunk hall
  have hpos : 0 < piece.text.length := List.length_pos_iff.mpr hne
  -- every byte of the whole is written, so every piece writes all of its bytes
  have hlen := congrArg List.length hout
  have hjoined := congrArg List.length hsplit.joined
  rw [hchunk.length_take, List.length_append, List.length_append] at hlen
  rw [texts_append, texts_cons, List.length_append, List.length_append] at hjoined
  cases hpiece with
  | dropped => rw [List.length_nil] at hlen; omega
  | forwarded buffer' hpiece =>
    obtain ⟨_, _, hchunk', -⟩ := id hpiece
    rw [hchunk'.length_take] at hlen
    obtain ⟨houtpre, hplainpre⟩ := hpre.plain (by omega)
    obtain ⟨houtpost, hplainpost⟩ := hpost.plain (by omega)
    refine .chunk pre post piece buffer buffer' name hwhole rfl ?_ hpiece ?_
    · exact fun env hmem => (List.mem_append.mp hmem).elim (hplainpre env) (hplainpost env)
    · rw [hout, houtpre, houtpost, List.append_assoc]

/-- The pieces of a request for a chunk that is not forwarded any more. -/
theorem splitHarmless_of_chunkDropped (hsplit : IsSplit whole pieces) {buffer name : Bytes}
    (hwhole : ChunkDropped whole fd trackers buffer name)
    (hall : TreatedAll connect fd trackers pieces (chunkTrackers fd trackers name) []) :
    SplitHarmless connect fd trackers whole pieces := by
  obtain ⟨pre, piece, post, outPre, outPiece, outPost, rfl, hout, hpiece, hne, ⟨hlepre, hpre⟩,
    ⟨hlepost, hpost⟩⟩ := hsplit.oneChunk hall
  obtain ⟨houtpre, hrest⟩ := List.append_eq_nil_iff.mp hout.symm
  obtain ⟨houtpiece, houtpost⟩ := List.append_eq_nil_iff.mp hrest
  cases hpiece with
  | forwarded buffer' hpiece =>
    obtain ⟨_, _, hchunk', -⟩ := id hpiece
    have hlen := hchunk'.length_take
    rw [houtpiece, List.length_nil] at hlen
    exact absurd (List.length_eq_zero_iff.mp hlen.symm) hne
  | dropped buffer' hpiece =>
    have hdroppre := hpre.dropped houtpre
    have hdroppost := hpost.dropped houtpost
    exact .chunkDropped pre post piece buffer buffer' name hwhole rfl
      (fun env hmem => (List.mem_append.mp hmem).elim (hdroppre env) (hdroppost env)) hpiece

end SplitHarmless

/-- **The exact condition**: the pieces of a request have the effect of the whole request iff each
of them is by itself what the whole is. -/
theorem sameAsWhole_iff {sid : Nat} {st : ProxyState} {node : Session} {whole : ClientRecv}
    {pieces : List ClientRecv} (hnode : st.sessions[sid]? = some node)
    (hsplit : IsSplit whole pieces) : SameAsWhole sid st whole pieces ↔
      SplitHarmless (st.newServer node) node.clientFd st.trackers whole pieces := by
  rw [sameAsWhole_treated hnode hsplit]
  constructor
  · rintro ⟨trackers, out, hwhole, hall⟩
    cases hwhole with
    | dropped hdropped =>
      exact .dropped hdropped ((hall.quiet hsplit.nonempty (le_refl _)).dropped rfl)
    | plain hplain =>
      refine .plain hplain ((hall.quiet hsplit.nonempty (le_refl _)).plain ?_).2
      rw [hsplit.joined]
    | chunk buffer name hchunk => exact splitHarmless_of_chunk hsplit hchunk hall
    | chunkDropped buffer name hchunk => exact splitHarmless_of_chunkDropped hsplit hchunk hall
  · intro h
    cases h with
    | dropped hwhole hall => exact ⟨_, _, .dropped hwhole, .of_dropped hall⟩
    | plain hwhole hall =>
      refine ⟨_, _, .plain hwhole, ?_⟩
      rw [← hsplit.joined]
      exact .of_plain hall
    | chunk pre post piece buffer buffer' name hwhole heq hall hpiece htext =>
      obtain ⟨hpre, hpost⟩ := List.forall_mem_append.mp hall
      refine ⟨_, _, .chunk buffer name hwhole, ?_⟩
      rw [heq, ← htext, List.append_assoc]
      exact .append (.of_plain hpre) (.cons (.chunk buffer' name hpiece) (.of_plain hpost))
    | chunkDropped pre post piece buffer buffer' name hwhole heq hall hpiece =>
      obtain ⟨hpre, hpost⟩ := List.forall_mem_append.mp hall
      refine ⟨_, _, .chunkDropped buffer name hwhole, ?_⟩
      rw [heq]
      exact .append (.of_dropped hpre) (.cons (.chunkDropped buffer' name hpiece) (.of_dropped hpost))

/-! ## A request in two pieces -/

def blankLine : Bytes := ascii "\r\n\r\n"

def requestLine : Bytes := ascii "GET / HTTP/1.1"

/-- What the arrays hold behind the scan of the request line. -/
def scannedLine : RequestLine where
  httpMethod := ascii "GET" ++ List.replicate 5 0
  httpRequestFile := ascii "/" ++ List.replicate 127 0
  httpVersion := ascii "HTTP/1.1" ++ List.replicate 8 0

def wholeRequest : ClientRecv := clientSends (requestLine ++ blankLine) (by decide)

/-- The second invocation finds its arrays as the first one left them. -/
def cutBeforeBlankLine : List ClientRecv :=
  [clientSends requestLine (by decide),
    { clientSends blankLine (by decide) with
      stack := scannedLine
      stack_sizes := ⟨rfl, rfl, rfl⟩ }]

theorem plain_of_scanned {env : ClientRecv} (hconn : env.connect = .connected)
    (hscan : scanRequest env.stack (readBuffer env.text) = .ok scannedLine) : Plain env 5 :=
  ⟨scannedLine, ⟨hconn, hscan, by decide, by decide⟩, by decide, fun _ => by decide⟩

/-- A cut in front of the blank line has no effect, if the stack has not been used in between. -/
theorem sameAsWhole_blankLine : SameAsWhole 0 emptyState wholeRequest cutBeforeBlankLine := by
  have hnode : emptyState.sessions[0]? = some (Session.new 4) := rfl
  refine (sameAsWhole_iff hnode ⟨?_, ?_, ?_, ?_⟩).mpr (.plain ?_ ?_)
  · exact Option.some_ne_none _
  · simp [cutBeforeBlankLine, clientSends]
  · simp only [cutBeforeBlankLine, List.forall_mem_cons, List.not_mem_nil, false_imp_iff,
      implies_true, and_true]
    decide
  · decide
  · exact plain_of_scanned rfl (by decide +kernel)
  · simp only [cutBeforeBlankLine, List.forall_mem_cons, List.not_mem_nil, false_imp_iff,
      implies_true, and_true]
    exact ⟨plain_of_scanned rfl (by decide +kernel), plain_of_scanned rfl (by decide +kernel)⟩

/-- A cut inside the version, with arrays that hold zeros. -/
def cutInVersion : List ClientRecv :=
  [clientSends (ascii "GET / HT") (by decide), clientSends (ascii "TP/1.1" ++ blankLine) (by decide)]

def bytesSent (result : Checked (ProxyState × List ProxyEvent)) : Checked Bytes :=
  result.map (fun r => upstreamBytes r.2)

theorem bytesSent_whole : bytesSent (clientInvocation 0 emptyState wholeRequest) =
    .ok (requestLine ++ blankLine) := by
  decide +kernel

theorem bytesSent_cutInVersion :
    bytesSent (Machine.run (clientInvocation 0) emptyState cutInVersion) = .ok [] := by
  decide +kernel

/-- **A cut inside the version**: neither piece is a request, and the server gets nothing. -/
theorem splitRequest_dropped : ¬ ∀ (sid : Nat) (st : ProxyState) (node : Session)
    (whole : ClientRecv) (pieces : List ClientRecv), st.sessions[sid]? = some node →
    blankLine <:+ whole.text → IsSplit whole pieces → SameAsWhole sid st whole pieces := by
  intro h
  have hsplit : IsSplit wholeRequest cutInVersion := by
    refine ⟨Option.some_ne_none _, ?_, ?_, by decide⟩
    · simp [cutInVersion, clientSends]
    · simp only [cutInVersion, List.forall_mem_cons, List.not_mem_nil, false_imp_iff, implies_true,
        and_true]
      decide
  obtain ⟨st₁, evs₁, st₂, evs₂, hrun, hruns, hout, -⟩ :=
    h 0 emptyState (Session.new 4) wholeRequest cutInVersion rfl (List.suffix_append _ _) hsplit
  have hwhole := bytesSent_whole
  have hpieces := bytesSent_cutInVersion
  rw [hrun] at hwhole
  rw [hruns] at hpieces
  have hsent : Except.ok (upstreamBytes evs₂) = (Except.ok [] : Checked Bytes) := hpieces
  have hsent' : Except.ok (upstreamBytes evs₁) =
      (Except.ok (requestLine ++ blankLine) : Checked Bytes) := hwhole
  rw [Except.ok.injEq] at hsent hsent'
  rw [hsent, hsent'] at hout
  exact absurd hout (by decide)

end VideoCdn
