import VideoCdn.Bitrate
import Mathlib.Data.Finset.Basic
import Mathlib.Data.Finset.Card

/-!
# Client requests (`handle_client_recv` of `src/handle.c`)

* `Session`, `ProxyState` — a session of the proxy, and its globals with the descriptors the process
  has open.
* `ClientRecv` — what the system calls of one invocation return, and what its uninitialised arrays
  hold.
* `handleClientRecv` — one invocation, with the events it causes.
* `forwardedExactly_iff` — when the bytes handed to `write` are the request as it should be:
  the length written is the length read, whatever the rewriting did to the text.
-/

set_option autoImplicit false

namespace VideoCdn

open CLib

def FD_SETSIZE : Nat := 1024

/-- `proxy_session_t`; a `server_fd` of -1 is `none`, and `ts` is unset before the first chunk. -/
structure Session where
  clientFd : Nat
  serverFd : Option Nat
  bitrate : List Int
  ts : Option Timespec
  deriving DecidableEq, Repr

/-- The session that `main` makes for an accepted descriptor. -/
def Session.new (clientFd : Nat) : Session := ⟨clientFd, none, List.replicate 10 (-1), none⟩

/-- The globals, with the sessions in the order of their creation, and the open descriptors. -/
structure ProxyState where
  openFds : Finset Nat
  readyToRead : Finset Nat
  sessions : List Session
  trackers : Trackers
  deriving DecidableEq

/-- A download that was measured: its size, its start and its end. -/
structure Download where
  size : Int
  ts : Timespec
  tf : Timespec
  deriving DecidableEq, Repr

inductive ProxyEvent where
  | accepted (sid fd : Nat)
  /-- The session has a new connection to the server, for a request that it has read. -/
  | connected (sid fd : Nat)
  /-- The estimate from which the bitrate of a chunk request is chosen, and that bitrate. -/
  | chunkRequest (sid fd : Nat) (estimate : ℚ) (rate : Nat)
  /-- The bytes handed to `write` for the server, whatever the write returns. -/
  | upstream (sid : Nat) (bytes : Bytes)
  | downstream (sid : Nat) (bytes : Bytes)
  | chunkResponse (sid fd : Nat) (download : Download) (log : LogRecord)
  deriving DecidableEq

namespace ProxyState

def close (st : ProxyState) (fd : Nat) : ProxyState := { st with openFds := st.openFds.erase fd }

/-- The connection to the server that the session has so far is closed. -/
def closeServer (st : ProxyState) (node : Session) : ProxyState :=
  match node.serverFd with
  | none => st
  | some serverFd => st.close serverFd

def setSession (st : ProxyState) (sid : Nat) (node : Session) : ProxyState :=
  { st with sessions := st.sessions.set sid node }

/-- `FD_SET(fd, &ready_to_read)`. -/
def fdSet (st : ProxyState) (fd : Nat) : Checked ProxyState := do
  inBounds (fd < FD_SETSIZE)
  return { st with readyToRead := insert fd st.readyToRead }

/-- `FD_CLR(fd, &ready_to_read)`. -/
def fdClr (st : ProxyState) (fd : Nat) : Checked ProxyState := do
  inBounds (fd < FD_SETSIZE)
  return { st with readyToRead := st.readyToRead.erase fd }

theorem fdSet_eq_ok {st st' : ProxyState} {fd : Nat} : st.fdSet fd = .ok st' ↔
    fd < FD_SETSIZE ∧ st' = { st with readyToRead := insert fd st.readyToRead } := by
  unfold fdSet
  rw [inBounds_bind_eq_ok, pure_eq_ok, Except.ok.injEq, eq_comm (a := st')]

theorem fdClr_eq_ok {st st' : ProxyState} {fd : Nat} : st.fdClr fd = .ok st' ↔
    fd < FD_SETSIZE ∧ st' = { st with readyToRead := st.readyToRead.erase fd } := by
  unfold fdClr
  rw [inBounds_bind_eq_ok, pure_eq_ok, Except.ok.injEq, eq_comm (a := st')]

end ProxyState

/-- The number the system gives to a new descriptor. -/
def lowestFree (openFds : Finset Nat) : Nat :=
  ((List.range (openFds.card + 1)).find? (fun fd => fd ∉ openFds)).getD openFds.card

theorem lowestFree_notMem (openFds : Finset Nat) : lowestFree openFds ∉ openFds := by
  unfold lowestFree
  cases h : (List.range (openFds.card + 1)).find? (fun fd => fd ∉ openFds) with
  | some fd => simpa using List.find?_some h
  | none =>
    -- otherwise the first `card + 1` numbers would all be open
    have hall : Finset.range (openFds.card + 1) ⊆ openFds := by
      intro fd hfd
      have := List.find?_eq_none.mp h fd (by simpa using hfd)
      simpa using this
    have := Finset.card_le_card hall
    rw [Finset.card_range] at this
    omega

/-! ## One invocation -/

/-- The arrays that `sscanf` fills. -/
structure RequestLine where
  httpMethod : Bytes
  httpRequestFile : Bytes
  httpVersion : Bytes
  deriving DecidableEq, Repr

inductive ConnectResult where
  | noSocket
  | refused
  | connected
  deriving DecidableEq, Repr

/-- The results of the system calls of one invocation; `read` is `none` for a result of -1.  `retWrite`
decides whether the connection to the server is put into the set, not which bytes are recorded. -/
structure ClientRecv where
  read : Option Bytes
  read_le : ∀ b ∈ read, b.length ≤ MAX_LENGTH
  connect : ConnectResult
  stack : RequestLine
  stack_sizes : stack.httpMethod.length = 8 ∧ stack.httpRequestFile.length = 128 ∧
    stack.httpVersion.length = 16
  now : Timespec
  retWrite : Int

/-- `connect_to_server`: a socket that is not connected is closed again. -/
def connectToServer (result : ConnectResult) (st : ProxyState) : ProxyState × Option Nat :=
  match result with
  | .noSocket => (st, none)
  | .refused => (st, none)
  | .connected =>
    let clientFd := lowestFree st.openFds
    ({ st with openFds := insert clientFd st.openFds }, some clientFd)

/-- One `%s` conversion into an array. -/
def scanWord (array : Bytes) (word : Option Bytes) : Checked Bytes :=
  match word with
  | none => .ok array
  | some w => store array 0 (w ++ [0])

/-- `sscanf(buffer, "%s %s %s", http_method, http_request_file, http_version)`. -/
def scanRequest (line : RequestLine) (buffer : Bytes) : Checked RequestLine := do
  inBounds (0 ∈ buffer)
  let tokens := words (cstr buffer)
  let httpMethod ← scanWord line.httpMethod tokens[0]?
  let httpRequestFile ← scanWord line.httpRequestFile tokens[1]?
  let httpVersion ← scanWord line.httpVersion tokens[2]?
  return ⟨httpMethod, httpRequestFile, httpVersion⟩

/-- The two `strncmp` calls. -/
def isHttpGet (line : RequestLine) : Bool :=
  (ascii "GET").isPrefixOf line.httpMethod && (ascii "HTTP/1.1").isPrefixOf line.httpVersion

/-- What is done for a chunk: the buffer and the globals afterwards. -/
def trackChunk (now : Timespec) (sid : Nat) (node : Session) (file : Bytes) (buffer : Bytes)
    (st : ProxyState) : Checked (Bytes × ProxyState × List ProxyEvent) :=
  match createTracker file node.clientFd st.trackers with
  | none => .ok (buffer, st, [])
  | some trackers => do
    let estimate := (trackerOf node.clientFd trackers).throughput
    let (buffer, trackers) ← updateBitrate buffer node.clientFd trackers
    return (buffer, { st.setSession sid { node with ts := some now } with trackers := trackers },
      [.chunkRequest sid node.clientFd estimate (trackerOf node.clientFd trackers).bitrate])

/-- `handle_client_recv` for the session `node`, which is number `sid` of the state.  `.upstream` records
what is handed to `write`, also when the write fails; the `LOG` behind the first `sscanf`, which reads
`http_request_file` for every method, is `loggedFile`. -/
def handleClientRecv (env : ClientRecv) (sid : Nat) (node : Session) (st : ProxyState) :
    Checked (ProxyState × List ProxyEvent) :=
  match env.read with
  | none => .ok (st.close node.clientFd, [])
  | some req =>
    match connectToServer env.connect (st.closeServer node) with
    | (st, none) => .ok (st, [])
    | (st, some connect) => do
      let node := { node with serverFd := some connect }
      let st := st.setSession sid node
      let line ← scanRequest env.stack (readBuffer req)
      if isHttpGet line = false then return (st, [.connected sid connect])
      else do
        inBounds (0 ∈ line.httpRequestFile)
        let (buffer, st, evs) ←
          trackChunk env.now sid node (cstr line.httpRequestFile) (readBuffer req) st
        let evs := .connected sid connect :: evs
        let line ← scanRequest line buffer
        if isHttpGet line = false then return (st, evs)
        else do
          let evs := evs ++ [.upstream sid (buffer.take req.length)]
          if 0 < env.retWrite then
            let st ← st.fdSet connect
            return (st, evs)
          else return (st, evs)

/-! ## What one invocation can do -/

/-- The path of the request, as `sscanf` finds it. -/
def requestFile (env : ClientRecv) (req : Bytes) : Bytes :=
  match scanRequest env.stack (readBuffer req) with
  | .ok line => cstr line.httpRequestFile
  | .error _ => []

/-- The session once it has a new connection. -/
def Session.connectedTo (node : Session) (connect : Nat) : Session :=
  { node with serverFd := some connect }

/-- The state once session `sid` has a new connection. -/
def ProxyState.reconnect (st : ProxyState) (sid : Nat) (node : Session) : ProxyState :=
  let st := st.closeServer node
  let connect := lowestFree st.openFds
  { st with openFds := insert connect st.openFds }.setSession sid (node.connectedTo connect)

/-- The descriptor of the new connection. -/
def ProxyState.newServer (st : ProxyState) (node : Session) : Nat :=
  lowestFree (st.closeServer node).openFds

/-- The outcomes of an invocation that returns: the read failed; the server is not reached; the
request is not one the proxy forwards, before or after the rewriting; it is forwarded. -/
inductive ClientStep (env : ClientRecv) (sid : Nat) (node : Session) (st : ProxyState) :
    ProxyState → List ProxyEvent → Prop where
  | readError : env.read = none → ClientStep env sid node st (st.close node.clientFd) []
  | noServer (req : Bytes) : env.read = some req → env.connect ≠ .connected →
      ClientStep env sid node st (st.closeServer node) []
  | refused (req : Bytes) : env.read = some req →
      ClientStep env sid node st (st.reconnect sid node) [.connected sid (st.newServer node)]
  | refusedRewritten (req buffer : Bytes) (st₂ : ProxyState) (evs : List ProxyEvent) :
      env.read = some req →
      trackChunk env.now sid (node.connectedTo (st.newServer node)) (requestFile env req)
        (readBuffer req) (st.reconnect sid node) = .ok (buffer, st₂, evs) →
      ClientStep env sid node st st₂ (.connected sid (st.newServer node) :: evs)
  | forwarded (req buffer : Bytes) (st₂ : ProxyState) (evs : List ProxyEvent) :
      env.read = some req →
      trackChunk env.now sid (node.connectedTo (st.newServer node)) (requestFile env req)
        (readBuffer req) (st.reconnect sid node) = .ok (buffer, st₂, evs) →
      env.retWrite ≤ 0 →
      ClientStep env sid node st st₂
        (.connected sid (st.newServer node) :: evs ++ [.upstream sid (buffer.take req.length)])
  | forwardedReady (req buffer : Bytes) (st₂ : ProxyState) (evs : List ProxyEvent) :
      env.read = some req →
      trackChunk env.now sid (node.connectedTo (st.newServer node)) (requestFile env req)
        (readBuffer req) (st.reconnect sid node) = .ok (buffer, st₂, evs) →
      0 < env.retWrite → st.newServer node < FD_SETSIZE →
      ClientStep env sid node st
        { st₂ with readyToRead := insert (st.newServer node) st₂.readyToRead }
        (.connected sid (st.newServer node) :: evs ++ [.upstream sid (buffer.take req.length)])

/-- **`handle_client_recv`** has one of these outcomes. -/
theorem handleClientRecv_step {env : ClientRecv} {sid : Nat} {node : Session}
    {st st' : ProxyState} {evs : List ProxyEvent}
    (h : handleClientRecv env sid node st = .ok (st', evs)) : ClientStep env sid node st st' evs := by
  unfold handleClientRecv at h
  split at h
  · rename_i hread
    cases h
    exact .readError hread
  · rename_i req hread
    cases hconn : env.connect with
    | noSocket =>
      rw [hconn] at h
      cases h
      exact .noServer req hread (by rw [hconn]; simp)
    | refused =>
      rw [hconn] at h
      cases h
      exact .noServer req hread (by rw [hconn]; simp)
    | connected =>
      rw [hconn] at h
      simp only [connectToServer] at h
      rw [bind_eq_ok] at h
      obtain ⟨line, hline, h⟩ := h
      have hfile : cstr line.httpRequestFile = requestFile env req := by
        unfold requestFile
        rw [hline]
      split at h
      · cases h
        exact .refused req hread
      · rw [inBounds_bind_eq_ok, bind_eq_ok] at h
        obtain ⟨-, ⟨buffer, st₂, evs₂⟩, htrack, h⟩ := h
        rw [hfile] at htrack
        simp only [bind_eq_ok] at h
        obtain ⟨line', -, h⟩ := h
        split at h
        · cases h
          exact .refusedRewritten req buffer _ _ hread htrack
        · split at h
          · rename_i hwrite
            rw [bind_eq_ok] at h
            obtain ⟨st₃, hset, h⟩ := h
            obtain ⟨hlt, rfl⟩ := ProxyState.fdSet_eq_ok.mp hset
            cases h
            exact .forwardedReady req buffer st₂ evs₂ hread htrack hwrite hlt
          · rename_i hwrite
            cases h
            exact .forwarded req buffer _ evs₂ hread htrack (Int.not_lt.mp hwrite)

/-- What happens for a chunk, and for any other file. -/
theorem trackChunk_eq_ok {now : Timespec} {sid : Nat} {node : Session} {file buffer buffer' : Bytes}
    {st st' : ProxyState} {evs : List ProxyEvent} :
    trackChunk now sid node file buffer st = .ok (buffer', st', evs) ↔
      (createTracker file node.clientFd st.trackers = none ∧ buffer' = buffer ∧ st' = st ∧
        evs = []) ∨
      ∃ trackers trackers', createTracker file node.clientFd st.trackers = some trackers ∧
        updateBitrate buffer node.clientFd trackers = .ok (buffer', trackers') ∧
        st' = { st.setSession sid { node with ts := some now } with trackers := trackers' } ∧
        evs = [.chunkRequest sid node.clientFd (trackerOf node.clientFd trackers).throughput
          (trackerOf node.clientFd trackers').bitrate] := by
  unfold trackChunk
  cases createTracker file node.clientFd st.trackers with
  | none => simp [eq_comm]
  | some trackers =>
    simp only [bind_eq_ok, pure_eq_ok, Except.ok.injEq, Prod.exists, Prod.mk.injEq, reduceCtorEq,
      false_and, Option.some.injEq, false_or]
    constructor
    · rintro ⟨b, trackers', hupd, rfl, rfl, rfl⟩
      exact ⟨trackers, trackers', rfl, hupd, rfl, rfl⟩
    · rintro ⟨_, trackers', rfl, hupd, rfl, rfl⟩
      exact ⟨_, trackers', hupd, rfl, rfl, rfl⟩

/-! ## The bytes written to the server -/

/-- The server gets the bytes read or, for a chunk request, the text that `update_bitrate` left in
the buffer. -/
structure ForwardedExactly (env : ClientRecv) (req : Bytes) (fd : Nat) (trackers : Trackers)
    (out : Bytes) : Prop where
  other : createTracker (requestFile env req) fd trackers = none → out = req
  chunk : ∀ trackers', createTracker (requestFile env req) fd trackers = some trackers' →
    ∃ buffer trackers'', updateBitrate (readBuffer req) fd trackers' = .ok (buffer, trackers'') ∧
      out = cstr buffer

/-- The new rate is as long as the text it replaces, if no NUL was read; in general the bytes behind
the first NUL count as well. -/
def RateFits (env : ClientRecv) (req : Bytes) (fd : Nat) (trackers : Trackers) : Prop :=
  (strstr (ascii "-Frag") (requestFile env req)).isNone = false → ∀ result slash,
    strstr (ascii "Seg") (cstr req) = some result → scanBack (cstr req) result = .ok slash →
    (cstr req).length + (decimal (selectRate (trackerOf fd trackers).throughput)).length =
      (result - (slash + 1)) + req.length

theorem ProxyState.trackers_closeServer (st : ProxyState) (node : Session) :
    (st.closeServer node).trackers = st.trackers := by
  unfold closeServer
  cases node.serverFd <;> rfl

theorem ProxyState.trackers_reconnect (st : ProxyState) (sid : Nat) (node : Session) :
    (st.reconnect sid node).trackers = st.trackers :=
  st.trackers_closeServer node

/-- A request that is forwarded has gone through `trackChunk`. -/
theorem handleClientRecv_upstream {env : ClientRecv} {sid : Nat} {node : Session}
    {st st' : ProxyState} {evs : List ProxyEvent} {req out : Bytes} (hread : env.read = some req)
    (hrun : handleClientRecv env sid node st = .ok (st', evs)) (hout : .upstream sid out ∈ evs) :
    ∃ buffer st₂ evs₂, trackChunk env.now sid (node.connectedTo (st.newServer node))
        (requestFile env req) (readBuffer req) (st.reconnect sid node) = .ok (buffer, st₂, evs₂) ∧
      out = buffer.take req.length := by
  have hnone : ∀ {buffer : Bytes} {st₂ : ProxyState} {evs₂ : List ProxyEvent} {req : Bytes},
      trackChunk env.now sid (node.connectedTo (st.newServer node)) (requestFile env req)
        (readBuffer req) (st.reconnect sid node) = .ok (buffer, st₂, evs₂) →
      .upstream sid out ∉ .connected sid (st.newServer node) :: evs₂ := by
    intro buffer st₂ evs₂ req h hmem
    rcases trackChunk_eq_ok.mp h with ⟨-, -, -, rfl⟩ | ⟨_, _, -, -, -, rfl⟩ <;> simp at hmem
  cases handleClientRecv_step hrun with
  | readError h => cases hout
  | noServer _ _ _ => cases hout
  | refused _ _ => simp at hout
  | refusedRewritten _ _ _ _ _ htrack => exact absurd hout (hnone htrack)
  | forwarded req' buffer _ evs₂ hread' htrack _ =>
    rw [hread, Option.some.injEq] at hread'
    subst hread'
    refine ⟨buffer, _, evs₂, htrack, ?_⟩
    rcases List.mem_append.mp hout with hout | hout
    · exact absurd hout (hnone htrack)
    · simpa using hout
  | forwardedReady req' buffer st₂ evs₂ hread' htrack _ _ =>
    rw [hread, Option.some.injEq] at hread'
    subst hread'
    refine ⟨buffer, st₂, evs₂, htrack, ?_⟩
    rcases List.mem_append.mp hout with hout | hout
    · exact absurd hout (hnone htrack)
    · simpa using hout

/-- The first bytes of the buffer are the bytes read. -/
theorem readBuffer_take (req : Bytes) : (readBuffer req).take req.length = req := by
  unfold readBuffer
  rw [List.take_left]

/-- **What is written** is what should be iff its length is the number of bytes read. -/
theorem updateBitrate_take_iff {req buffer : Bytes} {fd : Nat} {trackers trackers' : Trackers}
    (hreq : req.length ≤ MAX_LENGTH)
    (h : updateBitrate (readBuffer req) fd trackers = .ok (buffer, trackers')) :
    buffer.take req.length = cstr buffer ↔ (cstr buffer).length = req.length := by
  obtain ⟨_, _, _, _, -, -, hrw, -⟩ := updateBitrate_spec h
  obtain ⟨text, htext, hlen, rfl⟩ := rewriteRequest_eq_ok.mp hrw
  have hcstr := cstr_rewriteRequest hrw
  rw [htext, Except.ok.injEq] at hcstr
  rw [length_readBuffer hreq] at hlen
  rw [← hcstr]
  constructor
  · intro heq
    have := congrArg List.length heq
    rw [List.length_take, List.length_append, List.length_cons, List.length_drop,
      length_readBuffer hreq] at this
    omega
  · intro heq
    rw [← heq, List.take_left]

/-- The length of the new text: the rate takes the place of what is between the slash and `Seg`. -/
theorem length_rewriteText {rate : Nat} {text text' : Bytes} {result slash : Nat}
    (h : rewriteText rate text = .ok text') (hseg : strstr (ascii "Seg") text = some result)
    (hslash : scanBack text result = .ok slash) :
    text'.length + (result - (slash + 1)) = text.length + (decimal rate).length := by
  have hlt := scanBack_lt hslash hseg
  have hle := (strstr_spec hseg).1
  unfold rewriteText at h
  rw [hseg] at h
  dsimp only at h
  rw [hslash, ok_bind, pure_eq_ok, Except.ok.injEq] at h
  rw [← h]
  simp only [List.length_append, List.length_take, List.length_drop]
  omega

theorem exists_slash {rate : Nat} {text text' : Bytes} (h : rewriteText rate text = .ok text') :
    ∃ result slash, strstr (ascii "Seg") text = some result ∧ scanBack text result = .ok slash := by
  unfold rewriteText at h
  split at h
  · cases h
  · rename_i result hseg
    rw [bind_eq_ok] at h
    obtain ⟨slash, hslash, -⟩ := h
    exact ⟨result, slash, hseg, hslash⟩

section ForwardedExactly
variable {env : ClientRecv} {req : Bytes} {fd : Nat} {trackers trackers' : Trackers}

theorem isNone_of_createTracker (h : createTracker (requestFile env req) fd trackers = some trackers') :
    (strstr (ascii "-Frag") (requestFile env req)).isNone = false := by
  by_contra hno
  unfold createTracker at h
  rw [if_pos (by simpa using hno)] at h
  cases h

/-- A request that is not a chunk request arrives as it was read. -/
theorem forwardedExactly_other (hnone : createTracker (requestFile env req) fd trackers = none) :
    ForwardedExactly env req fd trackers req := by
  refine ⟨fun _ => rfl, fun trackers' hsome => ?_⟩
  rw [hnone] at hsome
  cases hsome

/-- A chunk request does iff the new text is as long as what was read. -/
theorem forwardedExactly_chunk_iff {buffer : Bytes} {trackers'' : Trackers}
    (hle : req.length ≤ MAX_LENGTH)
    (hsome : createTracker (requestFile env req) fd trackers = some trackers')
    (hupd : updateBitrate (readBuffer req) fd trackers' = .ok (buffer, trackers'')) :
    ForwardedExactly env req fd trackers (buffer.take req.length) ↔
      (cstr buffer).length = req.length := by
  rw [← updateBitrate_take_iff hle hupd]
  constructor
  · rintro ⟨-, hchunk⟩
    obtain ⟨b, t, hb, heq⟩ := hchunk trackers' hsome
    rw [hupd] at hb
    cases hb
    exact heq
  · intro heq
    refine ⟨fun hnone => ?_, fun t ht => ?_⟩
    · rw [hsome] at hnone
      cases hnone
    · rw [hsome, Option.some.injEq] at ht
      subst ht
      exact ⟨buffer, trackers'', hupd, heq⟩

theorem rateFits_other (hnone : createTracker (requestFile env req) fd trackers = none) :
    RateFits env req fd trackers := by
  intro hfrag
  unfold createTracker at hnone
  rw [hfrag] at hnone
  cases hnone

/-- The condition on the lengths, once the text has been rewritten. -/
theorem rateFits_chunk_iff {text : Bytes}
    (hfrag : (strstr (ascii "-Frag") (requestFile env req)).isNone = false)
    (htext : rewriteText (selectRate (trackerOf fd trackers).throughput) (cstr req) = .ok text) :
    RateFits env req fd trackers ↔ text.length = req.length := by
  unfold RateFits
  constructor
  · intro hfits
    obtain ⟨result, slash, hseg, hslash⟩ := exists_slash htext
    have := length_rewriteText htext hseg hslash
    have := hfits hfrag result slash hseg hslash
    omega
  · intro hlen _ result slash hseg hslash
    have := length_rewriteText htext hseg hslash
    omega

/-- The text that `update_bitrate` leaves behind `create_tracker`. -/
theorem cstr_updateBitrate {buffer : Bytes} {trackers'' : Trackers}
    (hsome : createTracker (requestFile env req) fd trackers = some trackers')
    (hupd : updateBitrate (readBuffer req) fd trackers' = .ok (buffer, trackers'')) :
    rewriteText (selectRate (trackerOf fd trackers).throughput) (cstr req) = .ok (cstr buffer) := by
  obtain ⟨hs, -⟩ := createTracker_spec hsome
  obtain ⟨tl, _, _, _, hs', -, hrw, -⟩ := updateBitrate_spec hupd
  have hrate : tl.throughput = (trackerOf fd trackers).throughput := by
    rw [hs, Option.some.injEq] at hs'
    rw [← hs']
  have htext := cstr_rewriteRequest hrw
  rwa [cstr_readBuffer, hrate] at htext

end ForwardedExactly

/-- **The exact condition**: a forwarded request reaches the server complete and exact iff it is not
a chunk request or the new rate is as long as what it replaces. -/
theorem forwardedExactly_iff {env : ClientRecv} {sid : Nat} {node : Session}
    {st st' : ProxyState} {evs : List ProxyEvent} {req out : Bytes} (hread : env.read = some req)
    (hrun : handleClientRecv env sid node st = .ok (st', evs)) (hout : .upstream sid out ∈ evs) :
    ForwardedExactly env req node.clientFd st.trackers out ↔
      RateFits env req node.clientFd st.trackers := by
  obtain ⟨buffer, st₂, evs₂, htrack, rfl⟩ := handleClientRecv_upstream hread hrun hout
  rw [trackChunk_eq_ok, st.trackers_reconnect] at htrack
  rcases htrack with ⟨hnone, rfl, -, -⟩ | ⟨trackers, trackers', hsome, hupd, -, -⟩
  · -- not a chunk: the buffer is the one that was read
    rw [readBuffer_take]
    exact iff_of_true (forwardedExactly_other hnone) (rateFits_other hnone)
  · have htext := cstr_updateBitrate hsome hupd
    exact (forwardedExactly_chunk_iff (env.read_le req hread) hsome hupd).trans
      (rateFits_chunk_iff (isNone_of_createTracker hsome) htext).symm

/-! ## Two requests for one chunk -/

def emptyState : ProxyState := ⟨{0, 1, 2, 3, 4}, {3, 4}, [Session.new 4], []⟩

/-- Arrays that hold zeros in front of the call. -/
def zeroLine : RequestLine :=
  ⟨List.replicate 8 0, List.replicate 128 0, List.replicate 16 0⟩

/-- One read that returns `req`, with a server that takes what is written. -/
def clientSends (req : Bytes) (h : req.length ≤ MAX_LENGTH) : ClientRecv where
  read := some req
  read_le := by
    intro b hb
    cases hb
    exact h
  connect := .connected
  stack := zeroLine
  stack_sizes := ⟨rfl, rfl, rfl⟩
  now := ⟨0, 0⟩
  retWrite := req.length

/-- The request asks for bitrate 20, and gets 10. -/
def sameWidth : Bytes := ascii "GET /vod/20Seg1-Frag1 HTTP/1.1\r\n\r\n"

theorem length_sameWidth : sameWidth.length ≤ MAX_LENGTH := by decide

/-- The request asks for bitrate 1000, and gets 10. -/
def twoShorter : Bytes := ascii "GET /vod/1000Seg1-Frag1 HTTP/1.1\r\n\r\n"

def rewritten : Bytes := ascii "GET /vod/10Seg1-Frag1 HTTP/1.1\r\n\r\n"

/-- The events of a call on a fresh session. -/
def sendsTo (req : Bytes) (h : req.length ≤ MAX_LENGTH) : Checked (List ProxyEvent) :=
  (handleClientRecv (clientSends req h) 0 (Session.new 4) emptyState).map (fun r => r.2)

theorem sendsTo_eq_ok {req : Bytes} {h : req.length ≤ MAX_LENGTH} {evs : List ProxyEvent}
    (hsends : sendsTo req h = .ok evs) : ∃ st',
      handleClientRecv (clientSends req h) 0 (Session.new 4) emptyState = .ok (st', evs) := by
  obtain ⟨⟨st', evs'⟩, hrun, hevs⟩ := map_eq_ok.mp hsends
  dsimp only at hevs
  exact ⟨st', hevs ▸ hrun⟩

theorem sendsTo_sameWidth : sendsTo sameWidth length_sameWidth =
    .ok [.connected 0 5, .chunkRequest 0 4 100 10, .upstream 0 rewritten] := by
  decide +kernel

theorem sendsTo_twoShorter : sendsTo twoShorter (by decide) =
    .ok [.connected 0 5, .chunkRequest 0 4 100 10, .upstream 0 (rewritten ++ [0, 10])] := by
  decide +kernel

theorem rateFits_sameWidth (env : ClientRecv) : RateFits env sameWidth 4 [] := by
  intro _ result slash hseg hslash
  have h11 : strstr (ascii "Seg") (cstr sameWidth) = some 11 := by decide
  rw [h11, Option.some.injEq] at hseg
  subst hseg
  have h8 : scanBack (cstr sameWidth) 11 = .ok 8 := by decide
  rw [h8, Except.ok.injEq] at hslash
  subst hslash
  decide +kernel

/-- The request for bitrate 20 arrives as it should. -/
theorem forwardedExactly_sameWidth :
    ForwardedExactly (clientSends sameWidth length_sameWidth) sameWidth 4 [] rewritten :=
  (sendsTo_eq_ok sendsTo_sameWidth).elim fun _ hrun =>
    (forwardedExactly_iff rfl hrun (by simp)).mpr
      (rateFits_sameWidth _)

/-- **Two bytes too many**: the request for bitrate 1000 arrives with a NUL and an old byte. -/
theorem forwarded_twoTooMany : ¬ ∀ (env : ClientRecv) (sid : Nat) (node : Session)
    (st st' : ProxyState) (evs : List ProxyEvent) (req out : Bytes), env.read = some req →
    handleClientRecv env sid node st = .ok (st', evs) → .upstream sid out ∈ evs →
    ForwardedExactly env req node.clientFd st.trackers out := by
  intro h
  obtain ⟨st', hrun⟩ := sendsTo_eq_ok sendsTo_twoShorter
  have hbad := h _ 0 _ _ st' _ twoShorter (rewritten ++ [0, 10]) rfl hrun (by simp)
  cases htracker : createTracker (requestFile (clientSends twoShorter (by decide)) twoShorter)
      (Session.new 4).clientFd emptyState.trackers with
  | none => exact absurd (hbad.other htracker) (by decide)
  | some trackers =>
    obtain ⟨buffer, -, -, heq⟩ := hbad.chunk trackers htracker
    have hnul := no_nul_cstr buffer
    rw [← heq] at hnul
    exact hnul (by decide)

end VideoCdn
