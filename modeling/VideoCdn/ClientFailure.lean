import VideoCdn.RequestWords
import VideoCdn.Descriptors

/-!
# Calls that fail (`handle_client_recv` of `src/handle.c`)

The old connection to the server is closed, and the new one opened and stored, in front of the first
test of the request.

* `Failed` — nothing is handed to `write`, or the write fails.
* `CleanFailure` — what a call that fails should leave behind: a `server_fd` that is open or -1, no
  connection of its own, and no closed client in the set.
* `cleanFailure_iff` — **when it does**: the read fails with a client that is not in the set, or there
  was no connection before and the server is not reached; every other call that fails leaks.
* `FailureDetermined` — the bytes that are read decide whether a call fails, whatever the arrays and the
  session hold.
* `failureDetermined_iff` — they do if there are three words, or a first one that is no method.
* `failsCleanly_iff` — both; `failure_leaks` has a call for each.
-/

set_option autoImplicit false

namespace VideoCdn

open CLib

/-! ## What a failure leaves behind -/

/-- No byte is handed to `write` (the read fails or finds the end, the server is not reached, the request
is none), or the write fails: the event of the bytes is there in either case. -/
def Failed (env : ClientRecv) (evs : List ProxyEvent) : Prop :=
  upstreamBytes evs = [] ∨ env.retWrite < 0

/-- The descriptor is open, and stored as the connection of this session only. -/
structure OwnServer (st : ProxyState) (sid fd : Nat) : Prop where
  isOpen : fd ∈ st.openFds
  notClient : ∀ node, st.sessions[sid]? = some node → node.clientFd ≠ fd
  notOther : ∀ sid', sid' ≠ sid → ¬ st.Stores sid' fd

/-- What a call that fails should leave behind. -/
structure CleanFailure (sid : Nat) (node : Session) (st st' : ProxyState) (evs : List ProxyEvent) :
    Prop where
  server : ∀ node', st'.sessions[sid]? = some node' → ∀ fd, node'.serverFd = some fd →
    OwnServer st' sid fd
  connection : ∀ sid' fd, .connected sid' fd ∈ evs → fd ∉ st'.openFds
  client : node.clientFd ∈ st.openFds → node.clientFd ∉ st'.openFds → node.clientFd ∉ st'.readyToRead

/-- The calls that leave it behind, or do not fail. -/
inductive CleanWhen (env : ClientRecv) (sid : Nat) (node : Session) (st : ProxyState) : Prop where
  | readError : env.read = none → (∀ fd, node.serverFd = some fd → OwnServer st sid fd) →
      (node.clientFd ∈ st.openFds → node.clientFd ∉ st.readyToRead) → CleanWhen env sid node st
  | noServer : env.read ≠ none → env.connect ≠ .connected → node.serverFd = none →
      CleanWhen env sid node st
  | forwarded : env.read ≠ none → env.text ≠ [] → Forwards env node.clientFd st.trackers →
      0 ≤ env.retWrite → CleanWhen env sid node st

theorem ChunkDropped.not_forwards {env : ClientRecv} {fd fd' : Nat} {trackers trackers' : Trackers}
    {buffer name : Bytes} (h : ChunkDropped env fd trackers buffer name) :
    ¬ Forwards env fd' trackers' := by
  obtain ⟨line, line', hchunk, hno⟩ := h
  rintro ⟨line₂, hline₂, hcase⟩
  have hline : line₂ = line :=
    Except.ok.inj (hline₂.scanned.symm.trans hchunk.request.scanned)
  rcases hcase with hplain | ⟨buffer', name', line₂', hchunk', hget⟩
  · rw [hline, hchunk.isChunk] at hplain
    cases hplain
  · -- another rate may have been written, but the test comes out in the same way
    rw [isHttpGet_rewritten (cstr_rewriteRequest hchunk'.rewritten)
      (cstr_rewriteRequest hchunk.rewritten) (hline ▸ hchunk'.scanned) hchunk.scanned, hno] at hget
    cases hget

theorem ChunkForwarded.forwards {env : ClientRecv} {connect fd : Nat} {trackers : Trackers}
    {buffer name : Bytes} (h : ChunkForwarded env connect fd trackers buffer name) :
    Forwards env fd trackers := by
  obtain ⟨line, line', hchunk, hget, -⟩ := h
  exact ⟨line, hchunk.request, Or.inr ⟨buffer, name, line', hchunk, hget⟩⟩

/-- Something is written exactly if something was read and the request is forwarded. -/
theorem Treated.out_ne_nil_iff {env : ClientRecv} {connect fd : Nat} {trackers trackers' : Trackers}
    {out : Bytes} (h : Treated env connect fd trackers trackers' out) :
    out ≠ [] ↔ env.text ≠ [] ∧ Forwards env fd trackers := by
  cases h with
  | dropped h => simp [not_forwards_of_dropped h fd trackers]
  | plain h =>
    obtain ⟨line, hline, hplain, -⟩ := h
    have hforwards : Forwards env fd trackers := ⟨line, hline, Or.inl hplain⟩
    simp [hforwards]
  | chunk buffer name h =>
    have hforwards := h.forwards
    obtain ⟨line, line', hchunk, -⟩ := h
    obtain ⟨text, -, -, rfl⟩ := rewriteRequest_eq_ok.mp hchunk.rewritten
    simp [hforwards, List.take_eq_nil_iff]
  | chunkDropped buffer name h => simp [h.not_forwards]

section Failure
variable {env : ClientRecv} {sid : Nat} {node : Session} {st st' : ProxyState}
  {evs : List ProxyEvent}

/-- A call that reaches the server succeeds if it forwards something, and the write does. -/
theorem failed_connected_iff (hread : env.read ≠ none)
    (hrun : handleClientRecv env sid node st = .ok (st', evs)) :
    Failed env evs ↔
      ¬ (env.text ≠ [] ∧ Forwards env node.clientFd st.trackers ∧ 0 ≤ env.retWrite) := by
  have htreated := (handleClientRecv_treated hread).mp ⟨st', evs, hrun, rfl, rfl⟩
  have hout := htreated.out_ne_nil_iff
  unfold Failed
  rw [← and_assoc, ← hout]
  constructor
  · rintro (hnil | hwrite) ⟨hne, hle⟩
    · exact hne hnil
    · omega
  · intro hno
    by_cases hnil : upstreamBytes evs = []
    · exact Or.inl hnil
    · exact Or.inr (Int.not_le.mp fun hle => hno ⟨hnil, hle⟩)

/-- **The new connection stays open** on every way out. -/
theorem connected_open (hread : env.read ≠ none) (hconn : env.connect = .connected)
    (hrun : handleClientRecv env sid node st = .ok (st', evs)) :
    .connected sid (st.newServer node) ∈ evs ∧ st.newServer node ∈ st'.openFds := by
  have hopen : ∀ {st₂}, Reconnected sid node st st₂ → st.newServer node ∈ st₂.openFds := by
    intro st₂ hre
    rw [hre.openFds]
    exact Finset.mem_insert_self _ _
  cases handleClientRecv_step hrun with
  | readError hnone => exact absurd hnone hread
  | noServer _ _ hno => exact absurd hconn hno
  | refused => exact ⟨List.mem_cons_self, hopen (.of_reconnect sid node st)⟩
  | refusedRewritten _ _ _ _ _ htrack => exact ⟨List.mem_cons_self, hopen (.of_trackChunk htrack)⟩
  | forwarded _ _ _ _ _ htrack => exact ⟨List.mem_cons_self, hopen (.of_trackChunk htrack)⟩
  | forwardedReady _ _ _ _ _ htrack =>
    have hmem := hopen (.of_trackChunk htrack)
    exact ⟨List.mem_cons_self, hmem⟩

/-- A read that fails: the client is closed, and nothing else changes. -/
theorem cleanFailure_readError (hnode : st.sessions[sid]? = some node) :
    CleanFailure sid node st (st.close node.clientFd) [] ↔
      (∀ fd, node.serverFd = some fd → OwnServer st sid fd) ∧
        (node.clientFd ∈ st.openFds → node.clientFd ∉ st.readyToRead) := by
  constructor
  · intro h
    refine ⟨fun fd hfd => ?_, fun hopen => h.client hopen (Finset.notMem_erase _ _)⟩
    have hown := h.server node hnode fd hfd
    exact ⟨Finset.mem_of_mem_erase hown.isOpen, hown.notClient, hown.notOther⟩
  · rintro ⟨hserver, hclient⟩
    refine ⟨fun node' hnode' fd hfd => ?_, fun _ _ hmem => absurd hmem List.not_mem_nil,
      fun hopen _ => hclient hopen⟩
    obtain rfl : node = node' := Option.some.inj (hnode.symm.trans hnode')
    have hown := hserver fd hfd
    refine ⟨Finset.mem_erase.mpr ⟨?_, hown.isOpen⟩, hown.notClient, hown.notOther⟩
    exact (hown.notClient node hnode).symm

/-- A server that is not reached: the number of the old connection stays in the session. -/
theorem cleanFailure_noServer (hnode : st.sessions[sid]? = some node) :
    CleanFailure sid node st (st.closeServer node) [] ↔ node.serverFd = none := by
  constructor
  · intro h
    by_contra hne
    obtain ⟨fd, hfd⟩ := Option.ne_none_iff_exists'.mp hne
    have hnode' : (st.closeServer node).sessions[sid]? = some node := by
      rw [st.sessions_closeServer]
      exact hnode
    have hopen := (h.server node hnode' fd hfd).isOpen
    unfold ProxyState.closeServer at hopen
    rw [hfd] at hopen
    exact absurd hopen (Finset.notMem_erase _ _)
  · intro hnone
    have hsame : st.closeServer node = st := by
      unfold ProxyState.closeServer
      rw [hnone]
    rw [hsame]
    refine ⟨fun node' hnode' fd hfd => ?_, fun _ _ hmem => absurd hmem List.not_mem_nil,
      fun hopen hclosed => absurd hopen hclosed⟩
    obtain rfl : node = node' := Option.some.inj (hnode.symm.trans hnode')
    rw [hnone] at hfd
    cases hfd

/-- **When a failure is clean**: never once the server has been reached. -/
theorem cleanFailure_iff (hnode : st.sessions[sid]? = some node)
    (hrun : handleClientRecv env sid node st = .ok (st', evs)) :
    (Failed env evs → CleanFailure sid node st st' evs) ↔ CleanWhen env sid node st := by
  by_cases hread : env.read = none
  · have hfailed : Failed env [] := Or.inl rfl
    rw [handleClientRecv_readError sid node st hread] at hrun
    cases hrun
    rw [cleanFailure_readError hnode]
    constructor
    · intro h
      exact .readError hread (h hfailed).1 (h hfailed).2
    · intro h _
      cases h with
      | readError _ hserver hclient => exact ⟨hserver, hclient⟩
      | noServer hread' => exact absurd hread hread'
      | forwarded hread' => exact absurd hread hread'
  by_cases hconn : env.connect = .connected
  · have hunclean : ¬ CleanFailure sid node st st' evs := by
      intro h
      obtain ⟨hmem, hopen⟩ := connected_open hread hconn hrun
      exact h.connection _ _ hmem hopen
    have hfailed := failed_connected_iff hread hrun
    constructor
    · intro h
      obtain ⟨hne, hforwards, hle⟩ := not_not.mp fun hno => hunclean (h (hfailed.mpr hno))
      exact .forwarded hread hne hforwards hle
    · intro h hfail
      cases h with
      | readError hnone => exact absurd hnone hread
      | noServer _ hno => exact absurd hconn hno
      | forwarded _ hne hforwards hle => exact absurd ⟨hne, hforwards, hle⟩ (hfailed.mp hfail)
  · have hfailed : Failed env [] := Or.inl rfl
    rw [handleClientRecv_noServer sid node st hread hconn] at hrun
    cases hrun
    rw [cleanFailure_noServer hnode]
    constructor
    · exact fun h => .noServer hread hconn (h hfailed)
    · intro h _
      cases h with
      | readError hnone => exact absurd hnone hread
      | noServer _ _ hnone => exact hnone
      | forwarded _ _ hforwards =>
        obtain ⟨line, hline, -⟩ := hforwards
        exact absurd hline.connected hconn

end Failure

/-! ## What decides whether a call fails -/

/-- The call returns, and has failed. -/
def Fails (env : ClientRecv) (sid : Nat) (node : Session) (st : ProxyState) : Prop :=
  ∃ st' evs, handleClientRecv env sid node st = .ok (st', evs) ∧ Failed env evs

/-- The call returns, and has not. -/
def Succeeds (env : ClientRecv) (sid : Nat) (node : Session) (st : ProxyState) : Prop :=
  ∃ st' evs, handleClientRecv env sid node st = .ok (st', evs) ∧ ¬ Failed env evs

/-- The system calls return the same; the arrays may hold anything. -/
structure SameResults (env env' : ClientRecv) : Prop where
  read : env.read = env'.read
  connect : env.connect = env'.connect
  now : env.now = env'.now
  retWrite : env.retWrite = env'.retWrite

/-- With the results of the system calls, the bytes read decide whether the call fails: what the arrays
hold makes no difference, and no session fails where another succeeds. -/
structure FailureDetermined (req : Bytes) : Prop where
  arrays : ∀ env env' sid node st, env.read = some req → SameResults env env' →
    (Fails env sid node st ↔ Fails env' sid node st) ∧
      (Succeeds env sid node st ↔ Succeeds env' sid node st)
  state : ∀ env env' sid node st sid' node' st', env.read = some req → SameResults env env' →
    Fails env sid node st → ¬ Succeeds env' sid' node' st'

/-- All arrays are filled, or the first word is no method, or the scan leaves its arrays. -/
def DecidesFailure (req : Bytes) : Prop :=
  3 ≤ (words (cstr req)).length ∨
    (∃ w, (words (cstr req))[0]? = some w ∧ (ascii "GET").isPrefixOf w = false) ∨
    ¬ ScanFits (readBuffer req)

theorem SameResults.symm {env env' : ClientRecv} (h : SameResults env env') :
    SameResults env' env :=
  ⟨h.read.symm, h.connect.symm, h.now.symm, h.retWrite.symm⟩

theorem SameResults.text {env env' : ClientRecv} (h : SameResults env env') : env.text = env'.text := by
  unfold ClientRecv.text
  rw [h.read]

theorem ClientRecv.sizes (env : ClientRecv) : Sizes env.stack :=
  ⟨env.stack_sizes.1, env.stack_sizes.2.1, env.stack_sizes.2.2⟩

theorem words_readBuffer (req : Bytes) : words (cstr (readBuffer req)) = words (cstr req) := by
  rw [cstr_readBuffer]

section Determined
variable {env env' : ClientRecv} {line : RequestLine}

/-- The other call scans as well, and with three words the arrays hold the same strings. -/
theorem SameResults.scanned (hsame : SameResults env env')
    (h : scanRequest env.stack (readBuffer env.text) = .ok line) :
    ∃ line', scanRequest env'.stack (readBuffer env'.text) = .ok line' ∧
      (3 ≤ (words (cstr env.text)).length → SameStrings line line') := by
  have hfits := (scanRequest_ok_iff env.sizes).mp ⟨line, h⟩
  obtain ⟨line', hline'⟩ := (scanRequest_ok_iff env'.sizes).mpr hfits
  rw [hsame.text] at h hline' ⊢
  refine ⟨line', hline', fun hthree => ?_⟩
  rw [← words_readBuffer] at hthree
  exact (scanRequest_stored h).same (scanRequest_stored hline') (Or.inr hthree)

/-- With a first word that is no method, neither call goes on. -/
theorem isHttpGet_noMethod {w : Bytes} (h : scanRequest env.stack (readBuffer env.text) = .ok line)
    (hw : (words (cstr env.text))[0]? = some w) (hget : (ascii "GET").isPrefixOf w = false) :
    isHttpGet line = false := by
  rw [(scanRequest_stored h).isHttpGet, words_readBuffer, hw, Option.getD_some, hget, Bool.false_and]

/-- A request that is scanned from three words is one for the other call. -/
theorem IsRequest.sameResults (hsame : SameResults env env') (h : IsRequest env line)
    (hthree : 3 ≤ (words (cstr env.text)).length) :
    ∃ line', IsRequest env' line' ∧ SameStrings line line' ∧ Sizes line ∧ Sizes line' := by
  obtain ⟨line', hline', hstrings⟩ := hsame.scanned h.scanned
  have hstored := scanRequest_stored hline'
  have hfile : ∃ w, (words (cstr (readBuffer env'.text)))[1]? = some w := by
    rw [words_readBuffer, ← hsame.text]
    exact ⟨_, List.getElem?_eq_getElem (Nat.lt_of_lt_of_le (by decide) hthree)⟩
  obtain ⟨w, hw⟩ := hfile
  refine ⟨line', ⟨hsame.connect ▸ h.connected, hline', ?_, (hstored.httpRequestFile.read w hw).2⟩,
    hstrings hthree, (scanRequest_stored h.scanned).sizes env.sizes, hstored.sizes env'.sizes⟩
  rw [← (hstrings hthree).isHttpGet]
  exact h.get

/-- What is done for a chunk, by the other call. -/
theorem ChunkRewritten.sameResults {fd : Nat} {trackers : Trackers} {buffer name : Bytes}
    {line' : RequestLine} (hsame : SameResults env env')
    (h : ChunkRewritten env fd trackers buffer name line line')
    (hthree : 3 ≤ (words (cstr env.text)).length) : ∃ line₂ line₂',
      ChunkRewritten env' fd trackers buffer name line₂ line₂' ∧ isHttpGet line₂' = isHttpGet line' := by
  obtain ⟨line₂, hline₂, hstrings, hsizes, hsizes₂⟩ := h.request.sameResults hsame hthree
  have hfits := (scanRequest_ok_iff hsizes).mp ⟨line', h.scanned⟩
  obtain ⟨line₂', hscan₂⟩ := (scanRequest_ok_iff hsizes₂).mpr hfits
  have hstrings' := (scanRequest_stored h.scanned).same (scanRequest_stored hscan₂) (Or.inl hstrings)
  refine ⟨line₂, line₂', ⟨hline₂, ?_, ?_, h.named, hscan₂⟩, hstrings'.isHttpGet.symm⟩
  · rw [← hstrings.httpRequestFile]
    exact h.isChunk
  · rw [← hsame.text]
    exact h.rewritten

/-- **Calls on the same bytes** do the same, if the bytes decide. -/
theorem Treated.sameResults {connect fd : Nat} {trackers trackers' : Trackers} {out : Bytes}
    (hsame : SameResults env env') (hdecides : DecidesFailure env.text)
    (h : Treated env connect fd trackers trackers' out) :
    Treated env' connect fd trackers trackers' out := by
  -- a request that is found has its three words
  have hthree : ∀ {line}, IsRequest env line → 3 ≤ (words (cstr env.text)).length := by
    intro line hline
    rcases hdecides with hthree | ⟨w, hw, hget⟩ | hno
    · exact hthree
    · have hfalse := isHttpGet_noMethod hline.scanned hw hget
      rw [hline.get] at hfalse
      cases hfalse
    · exact absurd ((scanRequest_ok_iff env.sizes).mp ⟨line, hline.scanned⟩) hno
  have hwritable : ∀ {n}, Writable env n → Writable env' n := by
    intro n hw hwrite
    exact hw (hsame.retWrite ▸ hwrite)
  cases h with
  | dropped h =>
    refine .dropped ?_
    rcases h with hconn | ⟨line, hline, hno⟩
    · exact Or.inl (hsame.connect ▸ hconn)
    obtain ⟨line', hline', hstrings⟩ := hsame.scanned hline
    refine Or.inr ⟨line', hline', ?_⟩
    rcases hdecides with hthree | ⟨w, hw, hget⟩ | hnofit
    · rw [← (hstrings hthree).isHttpGet, hno]
    · exact isHttpGet_noMethod hline' (hsame.text ▸ hw) hget
    · exact absurd ((scanRequest_ok_iff env.sizes).mp ⟨line, hline⟩) hnofit
  | plain h =>
    obtain ⟨line, hline, hplain, hw⟩ := h
    obtain ⟨line', hline', hstrings, -⟩ := hline.sameResults hsame (hthree hline)
    rw [hsame.text]
    exact .plain ⟨line', hline', hstrings.httpRequestFile ▸ hplain, hwritable hw⟩
  | chunk buffer name h =>
    obtain ⟨line, line', hchunk, hget, hw⟩ := h
    obtain ⟨line₂, line₂', hchunk₂, heq⟩ := hchunk.sameResults hsame (hthree hchunk.request)
    rw [hsame.text]
    exact .chunk buffer name ⟨line₂, line₂', hchunk₂, heq.trans hget, hwritable hw⟩
  | chunkDropped buffer name h =>
    obtain ⟨line, line', hchunk, hno⟩ := h
    obtain ⟨line₂, line₂', hchunk₂, heq⟩ := hchunk.sameResults hsame (hthree hchunk.request)
    exact .chunkDropped buffer name ⟨line₂, line₂', hchunk₂, heq.trans hno⟩

end Determined

section Outcome
variable {env env' : ClientRecv} {sid sid' : Nat} {node node' : Session} {st st' : ProxyState}

/-- A call returns with bytes for the server of some kind exactly if it is treated so. -/
theorem exists_run_iff (hread : env.read ≠ none) (P : Bytes → Prop) :
    (∃ st' evs, handleClientRecv env sid node st = .ok (st', evs) ∧ P (upstreamBytes evs)) ↔
      ∃ trackers out, Treated env (st.newServer node) node.clientFd st.trackers trackers out ∧ P out := by
  constructor
  · rintro ⟨st', evs, hrun, hbytes⟩
    exact ⟨_, _, (handleClientRecv_treated hread).mp ⟨st', evs, hrun, rfl, rfl⟩, hbytes⟩
  · rintro ⟨trackers, out, htreated, hbytes⟩
    obtain ⟨st', evs, hrun, -, rfl⟩ := (handleClientRecv_treated hread).mpr htreated
    exact ⟨st', evs, hrun, hbytes⟩

theorem fails_iff (hread : env.read ≠ none) : Fails env sid node st ↔ ∃ trackers out,
    Treated env (st.newServer node) node.clientFd st.trackers trackers out ∧
      (out = [] ∨ env.retWrite < 0) :=
  exists_run_iff hread fun out => out = [] ∨ env.retWrite < 0

theorem succeeds_iff (hread : env.read ≠ none) : Succeeds env sid node st ↔ ∃ trackers out,
    Treated env (st.newServer node) node.clientFd st.trackers trackers out ∧
      ¬ (out = [] ∨ env.retWrite < 0) :=
  exists_run_iff hread fun out => ¬ (out = [] ∨ env.retWrite < 0)

theorem text_of_read {req : Bytes} (hread : env.read = some req) : env.text = req := by
  unfold ClientRecv.text
  rw [hread]
  rfl

theorem fails_of_sameResults {req : Bytes} (hread : env.read = some req)
    (hsame : SameResults env env') (hdecides : DecidesFailure req) :
    (Fails env sid node st → Fails env' sid node st) ∧
      (Succeeds env sid node st → Succeeds env' sid node st) := by
  have hne : env.read ≠ none := by rw [hread]; simp
  have hne' : env'.read ≠ none := hsame.read ▸ hne
  rw [← text_of_read hread] at hdecides
  rw [fails_iff hne, fails_iff hne', succeeds_iff hne, succeeds_iff hne', hsame.retWrite]
  exact ⟨fun ⟨trackers, out, h, hfailed⟩ => ⟨trackers, out, h.sameResults hsame hdecides, hfailed⟩,
    fun ⟨trackers, out, h, hfailed⟩ => ⟨trackers, out, h.sameResults hsame hdecides, hfailed⟩⟩

/-- No session fails where another succeeds. -/
theorem not_succeeds_of_fails {req : Bytes} (hread : env.read = some req)
    (hsame : SameResults env env') (hdecides : DecidesFailure req) (hfails : Fails env sid node st) :
    ¬ Succeeds env' sid' node' st' := by
  have hne' : env'.read ≠ none := by rw [← hsame.read, hread]; simp
  rw [succeeds_iff hne']
  rintro ⟨trackers₂, out₂, h₂, hok⟩
  obtain ⟨hout₂, hwrite⟩ := not_or.mp hok
  obtain ⟨htext, hforwards⟩ := h₂.out_ne_nil_iff.mp hout₂
  -- the first call, with the arrays of the second one
  have hfails' := (fails_of_sameResults hread hsame hdecides).1 hfails
  obtain ⟨trackers₁, out₁, h₁, hbad⟩ := (fails_iff hne').mp hfails'
  have hnil : out₁ = [] := hbad.resolve_right hwrite
  cases h₁ with
  | dropped h => exact not_forwards_of_dropped h _ _ hforwards
  | plain h => exact htext hnil
  | chunk buffer name h =>
    exact (Treated.chunk buffer name h).out_ne_nil_iff.mpr ⟨htext, h.forwards⟩ hnil
  | chunkDropped buffer name h => exact h.not_forwards hforwards

theorem failureDetermined_of_decides {req : Bytes} (h : DecidesFailure req) :
    FailureDetermined req := by
  refine ⟨fun env env' sid node st hread hsame => ?_, fun _ _ _ _ _ _ _ _ hread hsame hfails =>
    not_succeeds_of_fails hread hsame h hfails⟩
  have hread' : env'.read = some req := hsame.read ▸ hread
  have hthere : (Fails env sid node st → Fails env' sid node st) ∧
      (Succeeds env sid node st → Succeeds env' sid node st) :=
    fails_of_sameResults hread hsame h
  have hback : (Fails env' sid node st → Fails env sid node st) ∧
      (Succeeds env' sid node st → Succeeds env sid node st) :=
    fails_of_sameResults hread' hsame.symm h
  exact ⟨⟨hthere.1, hback.1⟩, ⟨hthere.2, hback.2⟩⟩

end Outcome

/-- One call on a fresh session, with these bytes and these arrays. -/
def callWith (req : Bytes) (hlen : req.length ≤ MAX_LENGTH) (stack : RequestLine)
    (hstack : Sizes stack) : ClientRecv :=
  { clientSends req hlen with
    stack := stack
    stack_sizes := ⟨hstack.httpMethod, hstack.httpRequestFile, hstack.httpVersion⟩
    retWrite := 0 }

/-- Arrays that still hold a method and a version, and a file that does not end. -/
def leftLine : RequestLine :=
  ⟨ascii "GET" ++ List.replicate 5 0, List.replicate 128 1, ascii "HTTP/1.1" ++ List.replicate 8 0⟩

theorem sizes_zeroLine : Sizes zeroLine := ⟨rfl, rfl, rfl⟩

theorem sizes_leftLine : Sizes leftLine := ⟨rfl, rfl, rfl⟩

section Undecided
variable {req : Bytes} {hlen : req.length ≤ MAX_LENGTH}

/-- Without a third word the version is what the array holds: with zeros the call fails. -/
theorem fails_zeroLine (hfits : ScanFits (readBuffer req)) (hwords : (words (cstr req)).length < 3) :
    Fails (callWith req hlen zeroLine sizes_zeroLine) 0 (Session.new 4) emptyState := by
  obtain ⟨line, hline⟩ := (scanRequest_ok_iff sizes_zeroLine).mpr hfits
  have hno : isHttpGet line = false := by
    have hversion : (words (cstr (readBuffer req)))[2]? = none := by
      rw [words_readBuffer, List.getElem?_eq_none_iff]
      omega
    have hzero : (ascii "HTTP/1.1").isPrefixOf (cstr zeroLine.httpVersion) = false := by decide
    rw [(scanRequest_stored hline).isHttpGet, hversion, Option.getD_none, hzero, Bool.and_false]
  exact (fails_iff (by simp [callWith, clientSends])).mpr
    ⟨_, [], .dropped (Or.inr ⟨line, hline, hno⟩), Or.inl rfl⟩

/-- With the method and the version of another request in the arrays, two words or less are a request. -/
theorem isHttpGet_leftLine {line : RequestLine} (hwords : (words (cstr req)).length < 3)
    (hget : ∀ w, (words (cstr req))[0]? = some w → (ascii "GET").isPrefixOf w = true)
    (hline : scanRequest leftLine (readBuffer req) = .ok line) :
    isHttpGet line = true ∧ (ascii "HTTP/1.1").isPrefixOf (cstr line.httpVersion) = true := by
  have hmethod : (ascii "GET").isPrefixOf
      ((words (cstr req))[0]?.getD (cstr leftLine.httpMethod)) = true := by
    cases hw : (words (cstr req))[0]? with
    | none => decide
    | some w => exact hget w hw
  have hversion : (ascii "HTTP/1.1").isPrefixOf (cstr leftLine.httpVersion) = true := by decide
  have hnone : (words (cstr (readBuffer req)))[2]? = none := by
    rw [words_readBuffer, List.getElem?_eq_none_iff]
    omega
  have hstored := scanRequest_stored hline
  constructor
  · rw [hstored.isHttpGet, hnone, Option.getD_none, hversion, words_readBuffer, hmethod]
    rfl
  · rw [hstored.httpVersion.unread hnone]
    exact hversion

/-- The file there does not end, so one that does has been read. -/
theorem twoWords_of_terminated {line : RequestLine}
    (hline : scanRequest leftLine (readBuffer req) = .ok line) (hterm : 0 ∈ line.httpRequestFile) :
    2 ≤ (words (cstr req)).length := by
  by_contra hlt
  have hone : (words (cstr (readBuffer req)))[1]? = none := by
    rw [words_readBuffer, List.getElem?_eq_none_iff]
    omega
  rw [(scanRequest_stored hline).httpRequestFile.unread hone] at hterm
  exact absurd hterm (by decide)

/-- With a method and a version a call does not fail. -/
theorem not_fails_leftLine (hwords : (words (cstr req)).length < 3)
    (hget : ∀ w, (words (cstr req))[0]? = some w → (ascii "GET").isPrefixOf w = true) :
    ¬ Fails (callWith req hlen leftLine sizes_leftLine) 0 (Session.new 4) emptyState := by
  have hreq : 2 ≤ (words (cstr req)).length → req ≠ [] := by
    rintro h rfl
    exact absurd h (by decide)
  rw [fails_iff (by simp [callWith, clientSends])]
  rintro ⟨trackers, out, h, hbad⟩
  have hnil : out = [] := hbad.resolve_right (by simp [callWith])
  cases h with
  | dropped h =>
    rcases h with hconn | ⟨line, hline, hno⟩
    · exact hconn rfl
    · rw [(isHttpGet_leftLine hwords hget hline).1] at hno
      cases hno
  | plain h =>
    obtain ⟨line, hline, -⟩ := h
    exact hreq (twoWords_of_terminated hline.scanned hline.terminated) hnil
  | chunk buffer name h =>
    have hforwards := h.forwards
    obtain ⟨line, line', hchunk, -⟩ := id h
    have htext := hreq (twoWords_of_terminated hchunk.request.scanned hchunk.request.terminated)
    exact (Treated.chunk buffer name h).out_ne_nil_iff.mpr ⟨htext, hforwards⟩ hnil
  | chunkDropped buffer name h =>
    obtain ⟨line, line', hchunk, hno⟩ := h
    have hlen := twoWords_of_terminated hchunk.request.scanned hchunk.request.terminated
    have hget' : isHttpGet line' = true := by
      refine isHttpGet_twoWords (cstr_rewriteRequest hchunk.rewritten) hchunk.scanned ?_ ?_ ?_
      · show (words (cstr (readBuffer req))).length ≤ 2
        rw [words_readBuffer]
        omega
      · obtain ⟨w, hw⟩ : ∃ w, (words (cstr req))[0]? = some w :=
          ⟨_, List.getElem?_eq_getElem (Nat.lt_of_lt_of_le (by decide) hlen)⟩
        show (ascii "GET").isPrefixOf ((words (cstr (readBuffer req)))[0]?.getD _) = true
        rw [words_readBuffer, hw]
        exact hget w hw
      · exact (isHttpGet_leftLine hwords hget hchunk.request.scanned).2
    rw [hget'] at hno
    cases hno

/-- **Which bytes decide** whether a call fails. -/
theorem failureDetermined_iff (hlen : req.length ≤ MAX_LENGTH) :
    FailureDetermined req ↔ DecidesFailure req := by
  refine ⟨fun h => ?_, failureDetermined_of_decides⟩
  by_contra hno
  obtain ⟨hwords, hmethod, hfits⟩ : ¬ 3 ≤ (words (cstr req)).length ∧
      (¬ ∃ w, (words (cstr req))[0]? = some w ∧ (ascii "GET").isPrefixOf w = false) ∧
        ScanFits (readBuffer req) := by
    unfold DecidesFailure at hno
    rw [not_or, not_or, not_not] at hno
    exact hno
  have hget : ∀ w, (words (cstr req))[0]? = some w → (ascii "GET").isPrefixOf w = true := by
    intro w hw
    by_contra hfalse
    exact hmethod ⟨w, hw, Bool.eq_false_iff.mpr hfalse⟩
  have hlt := Nat.lt_of_not_le hwords
  have hsame : SameResults (callWith req hlen zeroLine sizes_zeroLine)
      (callWith req hlen leftLine sizes_leftLine) := ⟨rfl, rfl, rfl, rfl⟩
  have hiff := (h.arrays _ _ 0 (Session.new 4) emptyState rfl hsame).1
  exact not_fails_leftLine hlt hget (hiff.mp (fails_zeroLine hfits hlt))

end Undecided

/-- **Every way to fail**: when a call leaves its session as it was or torn down, and when the bytes
decide whether it fails. -/
theorem failsCleanly_iff {env : ClientRecv} {sid : Nat} {node : Session} {st st' : ProxyState}
    {evs : List ProxyEvent} {req : Bytes} (hnode : st.sessions[sid]? = some node)
    (hrun : handleClientRecv env sid node st = .ok (st', evs)) (hlen : req.length ≤ MAX_LENGTH) :
    ((Failed env evs → CleanFailure sid node st st' evs) ↔ CleanWhen env sid node st) ∧
      (FailureDetermined req ↔ DecidesFailure req) :=
  ⟨cleanFailure_iff hnode hrun, failureDetermined_iff hlen⟩

/-- The server refuses the first request of a session. -/
def refusedPost : ClientRecv := { postRequest with connect := .refused }

/-- Such a call leaves the session as it was; and any request of three words decides. -/
theorem failsCleanly_refused : CleanFailure 0 (Session.new 4) emptyState emptyState [] ∧
    FailureDetermined (ascii "POST / HTTP/1.1") := by
  have hnode : emptyState.sessions[0]? = some (Session.new 4) := rfl
  have hrun : handleClientRecv refusedPost 0 (Session.new 4) emptyState = .ok (emptyState, []) := rfl
  have hlen : (ascii "POST / HTTP/1.1").length ≤ MAX_LENGTH := by decide
  obtain ⟨hclean, hdetermined⟩ := failsCleanly_iff hnode hrun hlen
  have hread : refusedPost.read ≠ none := by simp [refusedPost, postRequest, clientSends]
  exact ⟨hclean.mpr (.noServer hread (by decide) rfl) (Or.inl rfl),
    hdetermined.mpr (Or.inl (by decide))⟩

/-! ## Calls that leak -/

/-- Arrays that still hold another request. -/
def staleLine : RequestLine :=
  ⟨ascii "GET" ++ List.replicate 5 0, ascii "/a" ++ List.replicate 126 0,
    ascii "HTTP/1.1" ++ List.replicate 8 0⟩

/-- A request that ends behind its method. -/
def shortGet (stack : RequestLine) (hstack : Sizes stack) : ClientRecv :=
  callWith (ascii "GET") (by decide) stack hstack

/-- The events of a call on the fresh session. -/
def eventsOn (env : ClientRecv) : Checked (List ProxyEvent) :=
  (handleClientRecv env 0 (Session.new 4) emptyState).map (fun r => r.2)

theorem eventsOn_post : eventsOn postRequest = .ok [.connected 0 5] := by decide +kernel

theorem eventsOn_zeroLine : eventsOn (shortGet zeroLine ⟨rfl, rfl, rfl⟩) = .ok [.connected 0 5] := by
  decide +kernel

theorem eventsOn_staleLine : eventsOn (shortGet staleLine ⟨rfl, rfl, rfl⟩) =
    .ok [.connected 0 5, .upstream 0 (ascii "GET")] := by
  decide +kernel

/-- **A `POST`** leaves its connection open, and what an earlier call left in the arrays decides whether
a request without a version fails. -/
theorem failure_leaks :
    (¬ ∀ (env : ClientRecv) (sid : Nat) (node : Session) (st st' : ProxyState)
      (evs : List ProxyEvent), st.sessions[sid]? = some node →
      handleClientRecv env sid node st = .ok (st', evs) → Failed env evs →
      CleanFailure sid node st st' evs) ∧
    ¬ ∀ req : Bytes, req.length ≤ MAX_LENGTH → FailureDetermined req := by
  constructor
  · intro h
    obtain ⟨⟨st', evs⟩, hrun, rfl⟩ := map_eq_ok.mp eventsOn_post
    have hclean := h postRequest 0 (Session.new 4) emptyState st' _ rfl hrun (Or.inl rfl)
    obtain ⟨hmem, hopen⟩ := connected_open (by simp [postRequest, clientSends]) rfl hrun
    exact hclean.connection _ _ hmem hopen
  · intro h
    obtain ⟨⟨st₁, evs₁⟩, hrun₁, rfl⟩ := map_eq_ok.mp eventsOn_zeroLine
    obtain ⟨⟨st₂, evs₂⟩, hrun₂, rfl⟩ := map_eq_ok.mp eventsOn_staleLine
    have hfails : Fails (shortGet zeroLine ⟨rfl, rfl, rfl⟩) 0 (Session.new 4) emptyState :=
      ⟨st₁, _, hrun₁, Or.inl rfl⟩
    have hsucceeds : Succeeds (shortGet staleLine ⟨rfl, rfl, rfl⟩) 0 (Session.new 4) emptyState :=
      ⟨st₂, _, hrun₂, not_or.mpr ⟨by decide, by decide⟩⟩
    have hsame : SameResults (shortGet zeroLine ⟨rfl, rfl, rfl⟩) (shortGet staleLine ⟨rfl, rfl, rfl⟩) :=
      ⟨rfl, rfl, rfl, rfl⟩
    exact (h (ascii "GET") (by decide)).state _ _ 0 (Session.new 4) emptyState 0 (Session.new 4)
      emptyState rfl hsame hfails hsucceeds

end VideoCdn
