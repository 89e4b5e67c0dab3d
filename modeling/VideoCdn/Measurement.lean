import VideoCdn.Descriptors
import VideoCdn.Isolation
import VideoCdn.ServerResponse

/-!
# What a measured response rests on (`handle_client_recv`, `handle_server_recv` of `src/handle.c`)

The tracker and the start time are made for a request whose path names a chunk, and used for a response
whose type says so.

* `ReadsChunk` — the client's part of a pass of the loop reads a request for a chunk.
* `ReachesUpdate` — the server's part comes to `update_throughput`.
* `MeasuresOwn` — there is a tracker with a chunk, and the start time is that of the request of the
  same pass.
* `handleClientRecv_chunk` — **what is made** of a request: both, or no start time.
* `reachesUpdate_fault` — without them the call does not return.
* `measuredThroughout_iff` — over any run, every call that comes to `update_throughput` has them exactly
  if its pass has read a request for a chunk.
* `measured_page` — a page that the server sends as a chunk.
-/

set_option autoImplicit false

namespace VideoCdn

open CLib

/-! ## Requests for chunks -/

/-- The call reads a request that it parses, and whose path contains `-Frag`. -/
def ReadsFrag (env : ClientRecv) : Prop :=
  env.read ≠ none ∧ env.connect = .connected ∧ ∃ line,
    scanRequest env.stack (readBuffer env.text) = .ok line ∧ isHttpGet line = true ∧
      (strstr (ascii "-Frag") (cstr line.httpRequestFile)).isNone = false

/-- In a pass for session `sid` its client is ready, and such a request is read. -/
def ReadsChunk (turn : Turn) (sid : Nat) (st : ProxyState) : Prop :=
  ∃ node, st.sessions[sid]? = some node ∧ node.clientFd ∈ st.readyToRead ∧
    ReadsFrag (turn.client sid)

/-- A start time has been set for `sid`. -/
def Started (sid fd : Nat) (evs : List ProxyEvent) : Prop :=
  ∃ estimate rate, .chunkRequest sid fd estimate rate ∈ evs

section started
variable {sid fd : Nat} {evs : List ProxyEvent}

theorem not_started_nil : ¬ Started sid fd [] := by
  rintro ⟨_, _, hmem⟩
  cases hmem

theorem started_connected (sid' connect : Nat) :
    Started sid fd (.connected sid' connect :: evs) ↔ Started sid fd evs := by
  simp [Started]

theorem started_upstream (sid' : Nat) (out : Bytes) :
    Started sid fd (evs ++ [.upstream sid' out]) ↔ Started sid fd evs := by
  simp [Started]

end started

/-- What a request for a chunk makes of the session. -/
structure ChunkTracked (env : ClientRecv) (sid : Nat) (node : Session) (st' : ProxyState)
    (evs : List ProxyEvent) : Prop where
  started : Started sid node.clientFd evs
  session : ∀ node', st'.sessions[sid]? = some node' →
    node'.ts = some env.now ∧ node'.clientFd = node.clientFd
  tracked : ∃ tracker, searchSeg node.clientFd st'.trackers = some tracker ∧ tracker.chunks ≠ []

/-- The part of the call that `trackChunk` models. -/
theorem trackChunk_chunk {env : ClientRecv} {sid connect : Nat} {node : Session}
    {file buffer buffer' : Bytes} {st st' : ProxyState} {evs : List ProxyEvent}
    (h : trackChunk env.now sid (node.connectedTo connect) file buffer st = .ok (buffer', st', evs)) :
    ((strstr (ascii "-Frag") file).isNone = false ∧ ChunkTracked env sid node st' evs) ∨
      ((strstr (ascii "-Frag") file).isNone = true ∧ evs = []) := by
  rcases trackChunk_eq_ok.mp h with ⟨hnone, -, -, rfl⟩ | ⟨t₁, t₂, hcreate, hupd, rfl, rfl⟩
  · exact Or.inr ⟨createTracker_none_iff.mp hnone, rfl⟩
  · have hfrag : (strstr (ascii "-Frag") file).isNone = false := by
      rw [← Bool.not_eq_true, ← createTracker_none_iff, hcreate]
      simp
    refine Or.inl ⟨hfrag, ⟨_, _, List.mem_singleton.mpr rfl⟩, ?_, ?_⟩
    · intro node' hnode'
      have hget : (st.sessions.set sid
          { node.connectedTo connect with ts := some env.now })[sid]? = some node' := hnode'
      have hlt : sid < st.sessions.length := by
        have hlen := (List.getElem?_eq_some_iff.mp hget).1
        rwa [List.length_set] at hlen
      rw [List.getElem?_set_self hlt, Option.some.injEq] at hget
      rw [← hget]
      exact ⟨rfl, rfl⟩
    · obtain ⟨tl, c, chunks, file', -, -, -, -, hsearch, -⟩ := updateBitrate_spec hupd
      exact ⟨_, hsearch, List.cons_ne_nil _ _⟩

/-- The end of a call, behind the second scan: the session and the trackers stay. -/
theorem forward_eq_ok {line : RequestLine} {retWrite : Int} {connect sid : Nat} {out : Bytes}
    {st st' : ProxyState} {evs evs' : List ProxyEvent}
    (h : (if isHttpGet line = false then .ok (st, evs)
      else if 0 < retWrite then do
        let st ← st.fdSet connect
        return (st, evs ++ [.upstream sid out])
      else return (st, evs ++ [.upstream sid out]) : Checked (ProxyState × List ProxyEvent)) =
        .ok (st', evs')) :
    st'.sessions = st.sessions ∧ st'.trackers = st.trackers ∧
      ∀ sid' fd, Started sid' fd evs' ↔ Started sid' fd evs := by
  split at h
  · cases h
    exact ⟨rfl, rfl, fun _ _ => Iff.rfl⟩
  · split at h
    · rw [bind_eq_ok] at h
      obtain ⟨st₁, hset, h⟩ := h
      obtain ⟨-, rfl⟩ := ProxyState.fdSet_eq_ok.mp hset
      cases h
      exact ⟨rfl, rfl, fun _ _ => started_upstream sid out⟩
    · cases h
      exact ⟨rfl, rfl, fun _ _ => started_upstream sid out⟩

/-- **What a call makes** of a request: it reads one for a chunk and tracks it, or sets no start
time. -/
theorem handleClientRecv_chunk {env : ClientRecv} {sid : Nat} {node : Session}
    {st st' : ProxyState} {evs : List ProxyEvent}
    (h : handleClientRecv env sid node st = .ok (st', evs)) :
    (ReadsFrag env ∧ ChunkTracked env sid node st' evs) ∨
      (¬ ReadsFrag env ∧ ∀ fd, ¬ Started sid fd evs) := by
  by_cases hread : env.read = none
  · rw [handleClientRecv_readError sid node st hread] at h
    cases h
    exact Or.inr ⟨fun hfrag => hfrag.1 hread, fun _ => not_started_nil⟩
  by_cases hconn : env.connect = .connected
  · rw [handleClientRecv_connected sid node st hread hconn, bind_eq_ok] at h
    obtain ⟨line, hline, h⟩ := h
    have hfrag : ReadsFrag env ↔ isHttpGet line = true ∧
        (strstr (ascii "-Frag") (cstr line.httpRequestFile)).isNone = false := by
      unfold ReadsFrag
      rw [hline]
      simp [hread, hconn]
    rw [hfrag]
    cases hget : isHttpGet line with
    | false =>
      rw [if_pos hget] at h
      cases h
      refine Or.inr ⟨by simp, fun _ => ?_⟩
      rw [started_connected]
      exact not_started_nil
    | true =>
      rw [if_neg (by rw [hget]; simp), inBounds_bind_eq_ok, bind_eq_ok] at h
      obtain ⟨-, ⟨buffer, st₂, evs₂⟩, htrack, h⟩ := h
      dsimp only at h
      rw [bind_eq_ok] at h
      obtain ⟨line', -, hend⟩ := h
      obtain ⟨hsessions, htrackers, hstarted⟩ := forward_eq_ok hend
      rcases trackChunk_chunk htrack with ⟨hfile, hst₂⟩ | ⟨hfile, rfl⟩
      · refine Or.inl ⟨⟨rfl, hfile⟩, ?_, ?_, ?_⟩
        · rw [hstarted, started_connected]
          exact hst₂.started
        · rw [hsessions]
          exact hst₂.session
        · rw [htrackers]
          exact hst₂.tracked
      · refine Or.inr ⟨by simp [hfile], fun _ => ?_⟩
        rw [hstarted, started_connected]
        exact not_started_nil
  · rw [handleClientRecv_noServer sid node st hread hconn] at h
    cases h
    exact Or.inr ⟨fun hfrag => hconn hfrag.2.1, fun _ => not_started_nil⟩

/-! ## Responses that are measured -/

/-- The call for `node` comes to `update_throughput`. -/
def ReachesUpdate (env : ServerRecv) (node : Session) : Prop :=
  ∃ header bitrate, ∃ nextRead : Nat, readHeader env.reads 0 [] = .ok header ∧
    getResponseContentLength (readBuffer header) = .ok (nextRead : Int) ∧
    nextRead + header.length < 2147483648 ∧
    parseF4mResponse (bigBuffer header env.recv nextRead) node.bitrate = .ok (.video, bitrate) ∧
    ((strstr (ascii "Content-Type: video/f4f") (cstr (bigBuffer header env.recv nextRead))).isSome ∨
      0 ∈ bigBuffer header env.recv nextRead)

/-- **Without a start time or a tracker with a chunk** such a call does not return: it reads the
uninitialised time, or follows a null pointer. -/
theorem reachesUpdate_fault {alpha : ℚ} {env : ServerRecv} {sid : Nat} {node : Session}
    {st st' : ProxyState} {evs : List ProxyEvent} (h : ReachesUpdate env node)
    (hrun : handleServerRecv alpha env sid node st = .ok (st', evs)) :
    node.ts ≠ none ∧ ∃ tracker, searchSeg node.clientFd st.trackers = some tracker ∧
      tracker.chunks ≠ [] := by
  obtain ⟨header, bitrate, nextRead, hread, hlength, hint, hparse, -⟩ := h
  unfold handleServerRecv at hrun
  split at hrun
  · cases hrun
  · rw [hread, ok_bind, hlength, ok_bind, inBounds_pos (by omega), ok_bind, Int.toNat_natCast] at hrun
    unfold bigBuffer at hparse
    dsimp only at hrun
    rw [hparse, ok_bind] at hrun
    dsimp only at hrun
    rw [bind_eq_ok] at hrun
    obtain ⟨⟨st₁, evs₁⟩, hpass, -⟩ := hrun
    simp only [passResponse] at hpass
    rw [inBounds_bind_eq_ok] at hpass
    obtain ⟨-, hpass⟩ := hpass
    split at hpass
    · cases hpass
    · rename_i ts hts
      rw [bind_eq_ok] at hpass
      obtain ⟨res, hupd, -⟩ := hpass
      exact ⟨by rw [hts]; simp, updateThroughput_isOk_iff.mp ⟨res, hupd⟩⟩

/-- In a pass from `st`, the client's part leaves `st₁` and `evs`, and the server's part for `node` is
entered and comes to `update_throughput`. -/
structure TakenForChunk (turn : Turn) (sid : Nat) (st st₁ : ProxyState) (evs : List ProxyEvent)
    (node : Session) : Prop where
  client : serveClient turn sid st = .ok (st₁, evs)
  session : st₁.sessions[sid]? = some node
  ready : st₁.fdIsset node.serverFd = .ok true
  reaches : ReachesUpdate (turn.server sid) node

/-- `search_seg` finds a tracker with a chunk, and the start time has been set by the request that the
pass has read. -/
structure MeasuresOwn (turn : Turn) (sid : Nat) (st₁ : ProxyState) (evs : List ProxyEvent)
    (node : Session) : Prop where
  tracked : ∃ tracker, searchSeg node.clientFd st₁.trackers = some tracker ∧ tracker.chunks ≠ []
  started : Started sid node.clientFd evs ∧ node.ts = some (turn.client sid).now

/-- **One pass**: the request that it has read decides. -/
theorem measuresOwn_iff {turn : Turn} {sid : Nat} {st st₁ : ProxyState} {evs : List ProxyEvent}
    {node : Session} (hclient : serveClient turn sid st = .ok (st₁, evs))
    (hsession : st₁.sessions[sid]? = some node) :
    MeasuresOwn turn sid st₁ evs node ↔ ReadsChunk turn sid st := by
  unfold serveClient at hclient
  cases hp : st.sessions[sid]? with
  | none =>
    rw [hp] at hclient
    cases hclient
    rw [hp] at hsession
    cases hsession
  | some p =>
    rw [hp] at hclient
    dsimp only at hclient
    rw [bind_eq_ok] at hclient
    obtain ⟨ready, hready, hclient⟩ := hclient
    have hready := fdIsset_eq_ok hready
    simp only [Option.some.injEq, exists_eq_left'] at hready
    have hchunk : ReadsChunk turn sid st ↔ ready = true ∧ ReadsFrag (turn.client sid) := by
      unfold ReadsChunk
      rw [hp, hready]
      simp
    rw [hchunk]
    split at hclient
    · rename_i hset
      rcases handleClientRecv_chunk hclient with ⟨hfrag, hst₁⟩ | ⟨hfrag, hnot⟩
      · obtain ⟨hts, hfd⟩ := hst₁.session node hsession
        refine iff_of_true ⟨?_, ?_, hts⟩ ⟨hset, hfrag⟩
        · rw [hfd]
          exact hst₁.tracked
        · rw [hfd]
          exact hst₁.started
      · exact iff_of_false (fun hm => hnot _ hm.started.1) (fun hc => hfrag hc.2)
    · rename_i hset
      cases hclient
      exact iff_of_false (fun hm => not_started_nil hm.started.1) (fun hc => hset hc.1)

/-! ## Over whole runs -/

/-- `P` holds of every pass of a run whose response is taken for a chunk. -/
def AtMeasurements (alpha : ℚ) (openFds : Finset Nat) (serverSockfd : Nat) (turns : List Turn)
    (P : Turn → Nat → ProxyState → ProxyState → List ProxyEvent → Session → Prop) : Prop :=
  ∀ pre turn st₀ evs₀, pre ++ [turn] <+: turns →
    Machine.run (iterate alpha serverSockfd) (.start openFds serverSockfd) pre = .ok (st₀, evs₀) →
    ∀ sid st st₁ evs node, InFront alpha serverSockfd st₀ turn sid st →
      TakenForChunk turn sid st st₁ evs node → P turn sid st st₁ evs node

/-- In a run, every call that comes to `update_throughput` has what it relies on. -/
def MeasuredThroughout (alpha : ℚ) (openFds : Finset Nat) (serverSockfd : Nat)
    (turns : List Turn) : Prop :=
  AtMeasurements alpha openFds serverSockfd turns
    fun turn sid _ st₁ evs node => MeasuresOwn turn sid st₁ evs node

/-- **Over any run**, whatever the requests and responses: that is so exactly if every response that is
taken for a chunk comes in a pass that has read a request for a chunk. -/
theorem measuredThroughout_iff (alpha : ℚ) (openFds : Finset Nat) (serverSockfd : Nat)
    (turns : List Turn) : MeasuredThroughout alpha openFds serverSockfd turns ↔
      AtMeasurements alpha openFds serverSockfd turns
        fun turn sid st _ _ _ => ReadsChunk turn sid st := by
  constructor
  · intro h pre turn st₀ evs₀ hpre hrun sid st st₁ evs node hfront htaken
    exact (measuresOwn_iff htaken.client htaken.session).mp
      (h pre turn st₀ evs₀ hpre hrun sid st st₁ evs node hfront htaken)
  · intro h pre turn st₀ evs₀ hpre hrun sid st st₁ evs node hfront htaken
    exact (measuresOwn_iff htaken.client htaken.session).mpr
      (h pre turn st₀ evs₀ hpre hrun sid st st₁ evs node hfront htaken)

/-! ## A page that is sent as a chunk -/

/-- A client connects and asks for a page, and the server answers with a chunk. -/
def pageAsChunkTurn : Turn where
  select := some {3}
  accept := true
  client := fun _ => clientSends (ascii "GET / HTTP/1.1\r\n\r\n") (by decide)
  server := fun _ => ⟨chunkHeader, ascii "abcd", ⟨1, 0⟩⟩

/-- The state in front of the pass, in which the client has descriptor 4. -/
def pageAccepted : ProxyState := ((ProxyState.start {0, 1, 2} 3).selected {3}).accepting

/-- The state between the two parts of the pass. -/
def pageAsked : ProxyState := ⟨{5, 4, 3, 0, 1, 2}, {5, 4, 3}, [⟨4, some 5, List.replicate 10 (-1), none⟩], []⟩

theorem takenForChunk_page : TakenForChunk pageAsChunkTurn 0 pageAccepted pageAsked
    [.connected 0 5, .upstream 0 (ascii "GET / HTTP/1.1\r\n\r\n")]
    ⟨4, some 5, List.replicate 10 (-1), none⟩ := by
  refine ⟨by decide +kernel, rfl, by decide, chunkHeader, List.replicate 10 (-1), 4, ?_, ?_, ?_, ?_, ?_⟩
  · decide +kernel
  · decide +kernel
  · decide
  · decide +kernel
  · exact Or.inl (by decide +kernel)

/-- **A page that is sent as a chunk**: no tracker is found for it. -/
theorem measured_page : ¬ ∀ (alpha : ℚ) (openFds : Finset Nat) (serverSockfd : Nat)
    (turns : List Turn), MeasuredThroughout alpha openFds serverSockfd turns := by
  intro h
  have hfront : InFront 1 3 (.start {0, 1, 2} 3) pageAsChunkTurn 0 pageAccepted :=
    ⟨{3}, pageAccepted, [.accepted 0 4], [], [], [], rfl, by decide, rfl, rfl⟩
  have hown := h 1 {0, 1, 2} 3 [pageAsChunkTurn] [] pageAsChunkTurn _ [] (List.prefix_refl _) rfl
    0 _ _ _ _ hfront takenForChunk_page
  obtain ⟨tracker, hsearch, -⟩ := hown.tracked
  cases hsearch

end VideoCdn
