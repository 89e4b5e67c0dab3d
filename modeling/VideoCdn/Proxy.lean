import VideoCdn.Handle
import VideoCdn.Manifest
import VideoCdn.Lib.Machine

/-!
# The main loop of the proxy (`src/proxy.c`, `handle_server_recv` of `src/handle.c`)

* `ServerRecv`, `handleServerRecv` — what the system calls of one invocation return, and the
  invocation.  `ServerStep` is what it can do.
* `Turn`, `iterate` — what the system calls of one turn of the loop return, and the turn: `select`
  overwrites the set, a connection is accepted, and the sessions are served, newest first.
* `KeptByHandlers` — an invariant of the two handlers; `KeptByHandlers.run` lifts it to the `for`
  loop over the sessions.

C leaves `FD_ISSET` of a `server_fd` of -1 undefined (as built it tests bit 63); here -1 is a member of no
set.
-/

set_option autoImplicit false

namespace VideoCdn

open CLib

/-! ## Responses of the server -/

/-- The bytes that the reads of one byte return before one of them returns none, the bytes that
`recv` stores, and the time of the end. -/
structure ServerRecv where
  reads : Bytes
  recv : Bytes
  now : Timespec

/-- The search for the blank line behind the header. -/
def blankLineStep (state : Nat) (ch : UInt8) : Nat :=
  if ch = 13 then
    let state := if state = 0 then state + 1 else state
    if state = 2 then state + 1 else state
  else if ch = 10 then
    if state = 1 then state + 1 else state
  else if state = 2 then 0 else state

/-- The loop that reads the header into `buffer`. -/
def readHeader : Bytes → Nat → Bytes → Checked Bytes
  | [], _, buffer => .ok buffer
  | ch :: reads, state, buffer => do
    inBounds (buffer.length < MAX_LENGTH)
    let state := blankLineStep state ch
    if ch = 10 ∧ state = 3 then return buffer ++ [ch]
    else readHeader reads state (buffer ++ [ch])

/-- What is done with the response, and what the client gets. -/
def passResponse (alpha : ℚ) (now : Timespec) (sid : Nat) (node : Session) (bigBuffer : Bytes)
    (result : ParseResult) (st : ProxyState) : Checked (ProxyState × List ProxyEvent) :=
  match result with
  | .manifest newBuffer => .ok (st, [.downstream sid newBuffer])
  | .other => .ok (st, [.downstream sid bigBuffer])
  | .video => do
    -- `strstr` stops at a match or at a NUL
    inBounds ((strstr (ascii "Content-Type: video/f4f") (cstr bigBuffer)).isSome ∨ 0 ∈ bigBuffer)
    match node.ts with
    | none => .error .uninit
    | some ts => do
      let (trackers, log) ←
        updateThroughput alpha bigBuffer.length node.clientFd ts now st.trackers
      return ({ st with trackers := trackers },
        [.chunkResponse sid node.clientFd ⟨bigBuffer.length, ts, now⟩ log,
          .downstream sid bigBuffer])

/-- `handle_server_recv` for the session `node`, which is number `sid` of the state. -/
def handleServerRecv (alpha : ℚ) (env : ServerRecv) (sid : Nat) (node : Session)
    (st : ProxyState) : Checked (ProxyState × List ProxyEvent) :=
  match node.serverFd with
  | none => .error .outOfBounds
  | some fd => do
    let header ← readHeader env.reads 0 []
    let nextRead ← getResponseContentLength (readBuffer header)
    inBounds (0 ≤ nextRead ∧ nextRead + header.length < 2147483648)
    let body := env.recv.take nextRead.toNat
    let bigBuffer := header ++ body ++ List.replicate (nextRead.toNat - body.length) 0
    let (result, bitrate) ← parseF4mResponse bigBuffer node.bitrate
    let node := { node with bitrate := bitrate }
    let (st, evs) ← passResponse alpha env.now sid node bigBuffer result (st.setSession sid node)
    let st ← st.fdClr fd
    let st ← st.fdClr node.clientFd
    return (st.close node.clientFd, evs)

/-- The state once the response for session `sid` has been passed on. -/
def ProxyState.served (st : ProxyState) (sid : Nat) (node : Session) (fd : Nat)
    (bitrate : List Int) : ProxyState where
  openFds := st.openFds.erase node.clientFd
  readyToRead := (st.readyToRead.erase fd).erase node.clientFd
  sessions := st.sessions.set sid { node with bitrate := bitrate }
  trackers := st.trackers

/-- The outcomes of an invocation that returns: the response is passed on, or it is a chunk and is
measured as well. -/
inductive ServerStep (alpha : ℚ) (env : ServerRecv) (sid : Nat) (node : Session)
    (st : ProxyState) : ProxyState → List ProxyEvent → Prop where
  | passed (fd : Nat) (bitrate : List Int) (out : Bytes) : node.serverFd = some fd →
      ServerStep alpha env sid node st (st.served sid node fd bitrate) [.downstream sid out]
  | measured (fd : Nat) (bitrate : List Int) (out : Bytes) (ts : Timespec) (trackers : Trackers)
      (log : LogRecord) : node.serverFd = some fd → node.ts = some ts →
      updateThroughput alpha out.length node.clientFd ts env.now st.trackers =
        .ok (trackers, log) →
      ServerStep alpha env sid node st { st.served sid node fd bitrate with trackers := trackers }
        [.chunkResponse sid node.clientFd ⟨out.length, ts, env.now⟩ log, .downstream sid out]

/-- **`handle_server_recv`** has one of these outcomes. -/
theorem handleServerRecv_step {alpha : ℚ} {env : ServerRecv} {sid : Nat} {node : Session}
    {st st' : ProxyState} {evs : List ProxyEvent}
    (h : handleServerRecv alpha env sid node st = .ok (st', evs)) :
    ServerStep alpha env sid node st st' evs := by
  unfold handleServerRecv at h
  split at h
  · cases h
  rename_i fd hfd
  simp only [bind_eq_ok, inBounds_eq_ok, exists_const, Prod.exists, ProxyState.fdClr_eq_ok,
    pure_eq_ok, Except.ok.injEq, Prod.mk.injEq] at h
  obtain ⟨header, -, nextRead, -, -, result, bitrate, -, st₁, evs₁, hpass, _, ⟨-, rfl⟩, _,
    ⟨-, rfl⟩, rfl, rfl⟩ := h
  unfold passResponse at hpass
  split at hpass
  · cases hpass
    exact .passed fd bitrate _ hfd
  · cases hpass
    exact .passed fd bitrate _ hfd
  · rw [inBounds_bind_eq_ok] at hpass
    obtain ⟨-, hpass⟩ := hpass
    split at hpass
    · cases hpass
    · rename_i ts hts
      simp only [bind_eq_ok, Prod.exists, pure_eq_ok, Except.ok.injEq, Prod.mk.injEq] at hpass
      obtain ⟨trackers, log, hupd, rfl, rfl⟩ := hpass
      exact .measured fd bitrate _ ts trackers log hfd hts hupd

/-! ## The main loop -/

/-- The results of the system calls of one turn.  `select` is `none` for an error, and otherwise what
is ready; the handlers of session `sid` find what `client sid` and `server sid` say. -/
structure Turn where
  select : Option (Finset Nat)
  accept : Bool
  client : Nat → ClientRecv
  server : Nat → ServerRecv

/-- The state in front of the loop. -/
def ProxyState.start (openFds : Finset Nat) (serverSockfd : Nat) : ProxyState :=
  ⟨insert serverSockfd openFds, {serverSockfd}, [], []⟩

/-- `select` leaves in the set what is ready of it. -/
def ProxyState.selected (st : ProxyState) (ready : Finset Nat) : ProxyState :=
  { st with readyToRead := st.readyToRead ∩ ready }

/-- `FD_ISSET(fd, &ready_to_read)`; `none` is -1, which C leaves undefined: as built, bit 63 is tested, and
here no set has it. -/
def ProxyState.fdIsset (st : ProxyState) (fd : Option Nat) : Checked Bool :=
  match fd with
  | none => .ok false
  | some fd => do
    inBounds (fd < FD_SETSIZE)
    return decide (fd ∈ st.readyToRead)

theorem fdIsset_eq_ok {st : ProxyState} {fd : Option Nat} {ready : Bool}
    (h : st.fdIsset fd = .ok ready) : ready = true ↔ ∃ n, fd = some n ∧ n ∈ st.readyToRead := by
  cases fd with
  | none =>
    cases h
    simp
  | some n =>
    rw [ProxyState.fdIsset, inBounds_bind_eq_ok, pure_eq_ok, Except.ok.injEq] at h
    rw [← h.2]
    simp

/-- A new session for the connection that is accepted. -/
def ProxyState.accepting (st : ProxyState) : ProxyState where
  openFds := insert (lowestFree st.openFds) st.openFds
  readyToRead := insert (lowestFree st.openFds) st.readyToRead
  sessions := st.sessions ++ [Session.new (lowestFree st.openFds)]
  trackers := st.trackers

/-- A pending connection is accepted. -/
def acceptClient (serverSockfd : Nat) (turn : Turn) (st : ProxyState) :
    Checked (ProxyState × List ProxyEvent) :=
  if serverSockfd ∉ st.readyToRead then .ok (st, [])
  else if turn.accept = false then .error .exit
  else do
    inBounds (lowestFree st.openFds < FD_SETSIZE)
    return (st.accepting, [.accepted st.sessions.length (lowestFree st.openFds)])

def serveClient (turn : Turn) (sid : Nat) (st : ProxyState) :
    Checked (ProxyState × List ProxyEvent) :=
  match st.sessions[sid]? with
  | none => .ok (st, [])
  | some p => do
    let ready ← st.fdIsset (some p.clientFd)
    if ready then handleClientRecv (turn.client sid) sid p st else return (st, [])

def serveServer (alpha : ℚ) (turn : Turn) (sid : Nat) (st : ProxyState) :
    Checked (ProxyState × List ProxyEvent) :=
  match st.sessions[sid]? with
  | none => .ok (st, [])
  | some p => do
    let ready ← st.fdIsset p.serverFd
    if ready then handleServerRecv alpha (turn.server sid) sid p st else return (st, [])

/-- The body of the loop over the sessions. -/
def serveSession (alpha : ℚ) (turn : Turn) (st : ProxyState) (sid : Nat) :
    Checked (ProxyState × List ProxyEvent) := do
  let (st, evs₁) ← serveClient turn sid st
  let (st, evs₂) ← serveServer alpha turn sid st
  return (st, evs₁ ++ evs₂)

/-- The loop over the sessions: new ones are put in front of the list. -/
def serveSessions (alpha : ℚ) (turn : Turn) (st : ProxyState) :
    Checked (ProxyState × List ProxyEvent) :=
  Machine.run (serveSession alpha turn) st (List.range st.sessions.length).reverse

/-- One turn of the loop of `main`. -/
def iterate (alpha : ℚ) (serverSockfd : Nat) (st : ProxyState) (turn : Turn) :
    Checked (ProxyState × List ProxyEvent) :=
  match turn.select with
  | none => .ok (st, [])
  | some ready => do
    let st := st.selected ready
    let (st, evs₁) ← acceptClient serverSockfd turn st
    let (st, evs₂) ← serveSessions alpha turn st
    return (st, evs₁ ++ evs₂)

/-- A turn that returns: `select` failed; no connection was pending; one was accepted. -/
inductive IterateStep (alpha : ℚ) (serverSockfd : Nat) (turn : Turn) (st : ProxyState) :
    ProxyState → List ProxyEvent → Prop where
  | failed : turn.select = none → IterateStep alpha serverSockfd turn st st []
  | idle (ready : Finset Nat) (st' : ProxyState) (evs : List ProxyEvent) :
      turn.select = some ready → serverSockfd ∉ (st.selected ready).readyToRead →
      serveSessions alpha turn (st.selected ready) = .ok (st', evs) →
      IterateStep alpha serverSockfd turn st st' evs
  | accepted (ready : Finset Nat) (st' : ProxyState) (evs : List ProxyEvent) :
      turn.select = some ready → serverSockfd ∈ (st.selected ready).readyToRead →
      serveSessions alpha turn (st.selected ready).accepting = .ok (st', evs) →
      IterateStep alpha serverSockfd turn st st'
        (.accepted st.sessions.length (lowestFree st.openFds) :: evs)

/-- **A turn of the loop** has one of these outcomes. -/
theorem iterate_step {alpha : ℚ} {serverSockfd : Nat} {turn : Turn} {st st' : ProxyState}
    {evs : List ProxyEvent} (h : iterate alpha serverSockfd st turn = .ok (st', evs)) :
    IterateStep alpha serverSockfd turn st st' evs := by
  unfold iterate at h
  split at h
  · rename_i hselect
    cases h
    exact .failed hselect
  rename_i ready hselect
  simp only [bind_eq_ok, Prod.exists, pure_eq_ok, Except.ok.injEq, Prod.mk.injEq] at h
  obtain ⟨st₁, evs₁, haccept, st₂, evs₂, hserve, rfl, rfl⟩ := h
  unfold acceptClient at haccept
  split at haccept
  · rename_i hmem
    cases haccept
    exact .idle ready st₂ evs₂ hselect hmem hserve
  · rename_i hmem
    split at haccept
    · cases haccept
    · rw [inBounds_bind_eq_ok] at haccept
      obtain ⟨-, haccept⟩ := haccept
      cases haccept
      exact .accepted ready st₂ evs₂ hselect (not_not.mp hmem) hserve

/-- The client of a session is served, if its descriptor is ready. -/
theorem serveClient_step {turn : Turn} {sid : Nat} {st st' : ProxyState} {evs : List ProxyEvent}
    (h : serveClient turn sid st = .ok (st', evs)) :
    (st' = st ∧ evs = []) ∨ ∃ p, st.sessions[sid]? = some p ∧
      ClientStep (turn.client sid) sid p st st' evs := by
  unfold serveClient at h
  split at h
  · cases h
    exact Or.inl ⟨rfl, rfl⟩
  · rename_i p hp
    rw [bind_eq_ok] at h
    obtain ⟨ready, -, h⟩ := h
    split at h
    · exact Or.inr ⟨p, hp, handleClientRecv_step h⟩
    · cases h
      exact Or.inl ⟨rfl, rfl⟩

/-- The connection of a session to the server is served if, and only if, its descriptor is ready. -/
theorem serveServer_step {alpha : ℚ} {turn : Turn} {sid : Nat} {st st' : ProxyState}
    {evs : List ProxyEvent} (h : serveServer alpha turn sid st = .ok (st', evs)) :
    (st' = st ∧ evs = [] ∧
      ∀ p fd, st.sessions[sid]? = some p → p.serverFd = some fd → fd ∉ st.readyToRead) ∨
    ∃ p fd, st.sessions[sid]? = some p ∧ p.serverFd = some fd ∧ fd ∈ st.readyToRead ∧
      ServerStep alpha (turn.server sid) sid p st st' evs := by
  unfold serveServer at h
  split at h
  · rename_i hnone
    cases h
    refine Or.inl ⟨rfl, rfl, fun p fd hp _ => ?_⟩
    rw [hnone] at hp
    cases hp
  · rename_i p hp
    rw [bind_eq_ok] at h
    obtain ⟨ready, hready, h⟩ := h
    have hready := fdIsset_eq_ok hready
    split at h
    · rename_i hset
      obtain ⟨fd, hfd, hmem⟩ := hready.mp hset
      exact Or.inr ⟨p, fd, hp, hfd, hmem, handleServerRecv_step h⟩
    · rename_i hset
      cases h
      refine Or.inl ⟨rfl, rfl, fun p' fd hp' hfd hmem => hset (hready.mpr ?_)⟩
      rw [hp, Option.some.injEq] at hp'
      exact ⟨fd, hp' ▸ hfd, hmem⟩

theorem serveSession_eq_ok {alpha : ℚ} {turn : Turn} {sid : Nat} {st st' : ProxyState}
    {evs : List ProxyEvent} : serveSession alpha turn st sid = .ok (st', evs) ↔
      ∃ st₁ evs₁ evs₂, serveClient turn sid st = .ok (st₁, evs₁) ∧
        serveServer alpha turn sid st₁ = .ok (st', evs₂) ∧ evs = evs₁ ++ evs₂ := by
  unfold serveSession
  simp only [bind_eq_ok, Prod.exists, pure_eq_ok, Except.ok.injEq, Prod.mk.injEq]
  constructor
  · rintro ⟨st₁, evs₁, hclient, st₂, evs₂, hserver, rfl, rfl⟩
    exact ⟨st₁, evs₁, evs₂, hclient, hserver, rfl⟩
  · rintro ⟨st₁, evs₁, evs₂, hclient, hserver, rfl⟩
    exact ⟨st₁, evs₁, hclient, st', evs₂, hserver, rfl, rfl⟩

/-! ## Invariants of the handlers -/

/-- What both handlers keep; `evs` are the events so far. -/
structure KeptByHandlers (alpha : ℚ) (P : List ProxyEvent → ProxyState → Prop) : Prop where
  client : ∀ {evs st sid node env st' es}, P evs st → st.sessions[sid]? = some node →
    ClientStep env sid node st st' es → P (evs ++ es) st'
  server : ∀ {evs st sid node env st' es}, P evs st → st.sessions[sid]? = some node →
    ServerStep alpha env sid node st st' es → P (evs ++ es) st'

section KeptByHandlers
variable {alpha : ℚ} {P : List ProxyEvent → ProxyState → Prop}

theorem KeptByHandlers.serveClient (hP : KeptByHandlers alpha P) {turn : Turn} {sid : Nat}
    {st st' : ProxyState} {evs es : List ProxyEvent} (hst : P evs st)
    (h : serveClient turn sid st = .ok (st', es)) : P (evs ++ es) st' := by
  rcases serveClient_step h with ⟨rfl, rfl⟩ | ⟨p, hp, hstep⟩
  · rwa [List.append_nil]
  · exact hP.client hst hp hstep

theorem KeptByHandlers.serveServer (hP : KeptByHandlers alpha P) {turn : Turn} {sid : Nat}
    {st st' : ProxyState} {evs es : List ProxyEvent} (hst : P evs st)
    (h : serveServer alpha turn sid st = .ok (st', es)) : P (evs ++ es) st' := by
  rcases serveServer_step h with ⟨rfl, rfl, -⟩ | ⟨p, _, hp, -, -, hstep⟩
  · rwa [List.append_nil]
  · exact hP.server hst hp hstep

/-- **The loop over the sessions** keeps what the handlers keep. -/
theorem KeptByHandlers.serveSessions (hP : KeptByHandlers alpha P) {turn : Turn}
    {st st' : ProxyState} (evs : List ProxyEvent) {es : List ProxyEvent} (hst : P evs st)
    (h : serveSessions alpha turn st = .ok (st', es)) : P (evs ++ es) st' := by
  refine Machine.run_invariant (fun evs st sid st' es hst h => ?_) hst h
  obtain ⟨st₁, evs₁, evs₂, hclient, hserver, rfl⟩ := serveSession_eq_ok.mp h
  rw [← List.append_assoc]
  exact hP.serveServer (hP.serveClient hst hclient) hserver

end KeptByHandlers

end VideoCdn
