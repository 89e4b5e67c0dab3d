import VideoCdn.SplitRequest
import VideoCdn.ServerResponse
import VideoCdn.ResponseType
import VideoCdn.Lib.Erasure

/-!
# The rates of a manifest are not used (`src/proxy.c`, `src/handle.c`)

`parse_f4m_response` stores the advertised rates in the session, and `select_rate` has a table of its
own.

* `forgetRates` — what is left of a session, and of the state, without the advertised rates.
* `handleClientRecv_forgetRates`, `handleServerRecv_forgetRates` — the handlers do not read them.
* `run_forgetRates` — **no interference**: two runs from states that differ in the advertised rates
  alone fail alike, or emit the same events and end in such states.
-/

set_option autoImplicit false

namespace VideoCdn

open CLib Erasure

def Session.forgetRates (node : Session) : Session := { node with bitrate := [] }

def ProxyState.forgetRates (st : ProxyState) : ProxyState :=
  { st with sessions := st.sessions.map Session.forgetRates }

namespace ProxyState
variable (st : ProxyState) (sid : Nat) (node : Session)

theorem forgetRates_idem : st.forgetRates.forgetRates = st.forgetRates := by
  unfold forgetRates
  rw [List.map_map]
  rfl

theorem forgetRates_getElem? : st.forgetRates.sessions[sid]? =
    (st.sessions[sid]?).map Session.forgetRates := by
  unfold forgetRates
  rw [List.getElem?_map]

theorem forgetRates_setSession : (st.setSession sid node).forgetRates =
    st.forgetRates.setSession sid node.forgetRates := by
  unfold forgetRates setSession
  rw [List.map_set]

theorem forgetRates_closeServer : (st.closeServer node).forgetRates =
    st.forgetRates.closeServer node.forgetRates := by
  unfold closeServer Session.forgetRates
  cases node.serverFd <;> rfl

theorem forgetRates_selected (ready : Finset Nat) :
    (st.selected ready).forgetRates = st.forgetRates.selected ready := rfl

theorem forgetRates_accepting :
    st.forgetRates.accepting.forgetRates = st.accepting.forgetRates := by
  have hidem := congrArg ProxyState.sessions st.forgetRates_idem
  unfold forgetRates at hidem
  unfold accepting forgetRates
  dsimp only at hidem ⊢
  rw [List.map_append, List.map_append, hidem]

theorem erased_fdSet (fd : Nat) (evs : List ProxyEvent) :
    erased forgetRates (do let st ← st.fdSet fd; return (st, evs)) =
      (do let st ← st.forgetRates.fdSet fd; return (st, evs)) := by
  unfold fdSet
  by_cases hfd : fd < FD_SETSIZE
  · simp only [inBounds_pos hfd]
    rfl
  · simp only [inBounds_neg hfd]
    rfl

end ProxyState

/-! ## The handlers -/

section Handlers
variable {env : ClientRecv} {sid : Nat} {node : Session} {st : ProxyState}

theorem trackChunk_forgetRates (now : Timespec) (sid : Nat) (node : Session) (file buffer : Bytes)
    (st : ProxyState) : trackChunk now sid node.forgetRates file buffer st.forgetRates =
      (trackChunk now sid node file buffer st).map fun r => (r.1, r.2.1.forgetRates, r.2.2) := by
  have hfd : node.forgetRates.clientFd = node.clientFd := rfl
  have htrackers : st.forgetRates.trackers = st.trackers := rfl
  unfold trackChunk
  rw [hfd, htrackers]
  cases createTracker file node.clientFd st.trackers with
  | none => rfl
  | some trackers =>
    dsimp only
    cases updateBitrate buffer node.clientFd trackers with
    | error e => rfl
    | ok r =>
      simp only [ok_bind, pure_eq_ok, Except.map]
      simp only [ProxyState.setSession, ProxyState.forgetRates, List.map_set]
      rfl

theorem ProxyState.forgetRates_newServer (st : ProxyState) (node : Session) :
    st.forgetRates.newServer node.forgetRates = st.newServer node := by
  unfold newServer
  rw [← st.forgetRates_closeServer node]
  rfl

theorem ProxyState.forgetRates_reconnect (st : ProxyState) (sid : Nat) (node : Session) :
    (st.reconnect sid node).forgetRates = st.forgetRates.reconnect sid node.forgetRates := by
  unfold reconnect
  rw [forgetRates_setSession, ← st.forgetRates_closeServer node]
  rfl

/-- **The client's handler** does not read the advertised rates. -/
theorem handleClientRecv_forgetRates (env : ClientRecv) (sid : Nat) (node : Session)
    (st : ProxyState) : erased ProxyState.forgetRates (handleClientRecv env sid node st) =
      handleClientRecv env sid node.forgetRates st.forgetRates := by
  by_cases hread : env.read = none
  · rw [handleClientRecv_readError sid node st hread, handleClientRecv_readError _ _ _ hread]
    rfl
  by_cases hconn : env.connect = .connected
  · rw [handleClientRecv_connected sid node st hread hconn,
      handleClientRecv_connected sid _ _ hread hconn, ← st.forgetRates_reconnect sid node,
      st.forgetRates_newServer node]
    cases scanRequest env.stack (readBuffer env.text) with
    | error e => rfl
    | ok line =>
      simp only [ok_bind]
      split
      · rfl
      by_cases hterm : 0 ∈ line.httpRequestFile
      · simp only [inBounds_pos hterm, ok_bind]
        rw [show node.forgetRates.connectedTo (st.newServer node) =
          (node.connectedTo (st.newServer node)).forgetRates from rfl, trackChunk_forgetRates,
          bind_map]
        cases trackChunk env.now sid (node.connectedTo (st.newServer node))
            (cstr line.httpRequestFile) (readBuffer env.text) (st.reconnect sid node) with
        | error e => rfl
        | ok r =>
          obtain ⟨buffer, st₂, evs⟩ := r
          simp only [ok_bind]
          cases scanRequest line buffer with
          | error e => rfl
          | ok line' =>
            simp only [ok_bind]
            split
            · rfl
            split
            · exact ProxyState.erased_fdSet st₂ _ _
            · rfl
      · simp only [inBounds_neg hterm]
        rfl
  · rw [handleClientRecv_noServer sid node st hread hconn,
      handleClientRecv_noServer sid _ _ hread hconn, erased_ok, st.forgetRates_closeServer]

/-- The new body does not depend on the slots, which the loop fills. -/
theorem bodyLoop_fst (src : Bytes) (noWrite : Bool) (buffer : Bytes) (slots slots' : List Int) :
    (bodyLoop src noWrite buffer slots).map Prod.fst =
      (bodyLoop src noWrite buffer slots').map Prod.fst := by
  induction h : src.length using Nat.strong_induction_on generalizing src noWrite buffer slots slots'
    with
  | _ length ih =>
    subst h
    cases hline : readLine MAX_LENGTH src with
    | error e => rw [bodyLoop_stuck hline, bodyLoop_stuck hline]
    | ok r =>
      obtain ⟨n, line⟩ := r
      have hlt := readLine_drop_lt hline
      rw [bodyLoop_turn hline, bodyLoop_turn hline]
      split
      · rw [map_bind, map_bind]
        congr 1
        funext rate
        exact ih _ hlt _ _ _ _ _ rfl
      split
      · rw [map_bind, map_bind]
        congr 1
        funext buffer
        exact ih _ hlt _ _ _ _ _ rfl
      split
      · rw [map_bind, map_bind]
        rfl
      · rw [map_bind, map_bind]
        congr 1
        funext buffer
        exact ih _ hlt _ _ _ _ _ rfl

theorem writeF4mNolist_fst (src : Bytes) (offset : Nat) (slots slots' : List Int) :
    (writeF4mNolist src offset slots).map Prod.fst =
      (writeF4mNolist src offset slots').map Prod.fst := by
  have hsplit : ∀ slots, (writeF4mNolist src offset slots).map Prod.fst = (do
      inBounds (offset ≤ MAX_LENGTH ∧ offset ≤ src.length)
      let body ← (bodyLoop (src.drop offset) false [] slots).map Prod.fst
      let out ← headerLoop src.length (body.length - 1) (readBuffer (src.take offset)) []
      inBounds (out.length + 2 ≤ src.length ∧ out.length + 1 + body.length ≤ src.length)
      return out ++ [13] ++ body) := by
    intro slots
    unfold writeF4mNolist
    simp only [map_bind, bind_map]
    rfl
  rw [hsplit, hsplit, bodyLoop_fst _ _ _ slots slots']

/-- **The result** of `parse_f4m_response` does not depend on the slots. -/
theorem parseF4mResponse_fst (buffer : Bytes) (slots slots' : List Int) :
    (parseF4mResponse buffer slots).map Prod.fst =
      (parseF4mResponse buffer slots').map Prod.fst := by
  rw [parseF4mResponse_eq, parseF4mResponse_eq, map_bind, map_bind]
  congr 1
  funext r
  obtain ⟨type, total⟩ := r
  cases type with
  | video => rfl
  | other => rfl
  | manifest =>
    have hsplit : ∀ slots, (actOnType buffer slots .manifest total).map Prod.fst = (do
        let newBuffer ← (writeF4mNolist buffer (total + 1) slots).map Prod.fst
        return .manifest newBuffer) := by
      intro slots
      unfold actOnType
      simp only [map_bind, bind_map]
      rfl
    rw [hsplit, hsplit, writeF4mNolist_fst buffer (total + 1) slots slots']

theorem passResponse_forgetRates (alpha : ℚ) (now : Timespec) (sid : Nat) (node : Session)
    (bigBuffer : Bytes) (result : ParseResult) (st : ProxyState) :
    erased ProxyState.forgetRates (passResponse alpha now sid node bigBuffer result st) =
      passResponse alpha now sid node.forgetRates bigBuffer result st.forgetRates := by
  unfold passResponse
  cases result with
  | manifest newBuffer => rfl
  | other => rfl
  | video =>
    have hts : node.forgetRates.ts = node.ts := rfl
    have hfd : node.forgetRates.clientFd = node.clientFd := rfl
    have htrackers : st.forgetRates.trackers = st.trackers := rfl
    simp only [hts, hfd, htrackers]
    unfold erased
    rw [map_bind]
    congr 1
    funext _
    cases node.ts with
    | none => rfl
    | some ts =>
      dsimp only
      rw [map_bind]
      rfl

/-- What is left to do once the response has been passed on. -/
def endResponse (fd : Nat) (node : Session) (r : ProxyState × List ProxyEvent) :
    Checked (ProxyState × List ProxyEvent) := do
  let st ← r.1.fdClr fd
  let st ← st.fdClr node.clientFd
  return (st.close node.clientFd, r.2)

theorem endResponse_forgetRates (fd : Nat) (node : Session) (st : ProxyState)
    (evs : List ProxyEvent) :
    erased ProxyState.forgetRates (endResponse fd node (st, evs)) =
      endResponse fd node (st.forgetRates, evs) := by
  unfold endResponse ProxyState.fdClr
  by_cases hfd : fd < FD_SETSIZE
  · by_cases hclient : node.clientFd < FD_SETSIZE
    · simp only [inBounds_pos hfd, inBounds_pos hclient]
      rfl
    · simp only [inBounds_pos hfd, inBounds_neg hclient]
      rfl
  · simp only [inBounds_neg hfd]
    rfl

/-- The response, as one block, is looked at and passed on. -/
def passBlock (alpha : ℚ) (now : Timespec) (sid : Nat) (node : Session) (fd : Nat)
    (bigBuffer : Bytes) (st : ProxyState) : Checked (ProxyState × List ProxyEvent) := do
  let r ← parseF4mResponse bigBuffer node.bitrate
  let p ← passResponse alpha now sid { node with bitrate := r.2 } bigBuffer r.1
    (st.setSession sid { node with bitrate := r.2 })
  endResponse fd node p

theorem passBlock_forgetRates (alpha : ℚ) (now : Timespec) (sid : Nat) (node : Session) (fd : Nat)
    (bigBuffer : Bytes) (st : ProxyState) :
    erased ProxyState.forgetRates (passBlock alpha now sid node fd bigBuffer st) = (do
      let result ← (parseF4mResponse bigBuffer node.bitrate).map Prod.fst
      let p ← passResponse alpha now sid node.forgetRates bigBuffer result
        (st.forgetRates.setSession sid node.forgetRates)
      endResponse fd node.forgetRates p) := by
  unfold passBlock
  rw [bind_map]
  cases parseF4mResponse bigBuffer node.bitrate with
  | error e => rfl
  | ok r =>
    simp only [ok_bind]
    rw [erased_bind (endResponse_forgetRates fd node), passResponse_forgetRates,
      st.forgetRates_setSession]
    rfl

/-- What is read of the response, with room for the rest. -/
def readResponse (env : ServerRecv) : Checked Bytes := do
  let header ← readHeader env.reads 0 []
  let nextRead ← getResponseContentLength (readBuffer header)
  inBounds (0 ≤ nextRead ∧ nextRead + header.length < 2147483648)
  let body := env.recv.take nextRead.toNat
  return header ++ body ++ List.replicate (nextRead.toNat - body.length) 0

theorem handleServerRecv_eq (alpha : ℚ) (env : ServerRecv) (sid : Nat) (node : Session)
    (st : ProxyState) : handleServerRecv alpha env sid node st =
      match node.serverFd with
      | none => .error .outOfBounds
      | some fd => readResponse env >>= fun bigBuffer =>
        passBlock alpha env.now sid node fd bigBuffer st := by
  unfold handleServerRecv readResponse passBlock endResponse
  cases node.serverFd with
  | none => rfl
  | some fd =>
    dsimp only
    cases readHeader env.reads 0 [] with
    | error e => rfl
    | ok header =>
      simp only [ok_bind]
      cases getResponseContentLength (readBuffer header) with
      | error e => rfl
      | ok nextRead =>
        simp only [ok_bind]
        by_cases hint : 0 ≤ nextRead ∧ nextRead + header.length < 2147483648
        · simp only [inBounds_pos hint]
          rfl
        · simp only [inBounds_neg hint]
          rfl

/-- **The server's handler** fills the slots, and does not read the rates in them. -/
theorem handleServerRecv_forgetRates (alpha : ℚ) (env : ServerRecv) (sid : Nat) (node : Session)
    (st : ProxyState) : erased ProxyState.forgetRates (handleServerRecv alpha env sid node st) =
      erased ProxyState.forgetRates
        (handleServerRecv alpha env sid node.forgetRates st.forgetRates) := by
  rw [handleServerRecv_eq, handleServerRecv_eq]
  have hserver : node.forgetRates.serverFd = node.serverFd := rfl
  rw [hserver]
  cases node.serverFd with
  | none => rfl
  | some fd =>
    dsimp only
    cases readResponse env with
    | error e => rfl
    | ok bigBuffer =>
      rw [ok_bind, ok_bind, passBlock_forgetRates, passBlock_forgetRates, st.forgetRates_idem,
        parseF4mResponse_fst bigBuffer node.bitrate node.forgetRates.bitrate]
      rfl

end Handlers

/-! ## The main loop -/

section Loop
variable (alpha : ℚ) (turn : Turn) (sid : Nat)

theorem fdIsset_forgetRates (st : ProxyState) (fd : Option Nat) :
    st.forgetRates.fdIsset fd = st.fdIsset fd := by
  unfold ProxyState.fdIsset
  cases fd <;> rfl

theorem serveClient_forgetRates : Respects ProxyState.forgetRates (serveClient turn sid) := by
  refine .of_factor (f := serveClient turn sid) fun st => ?_
  unfold serveClient
  rw [st.forgetRates_getElem? sid]
  cases st.sessions[sid]? with
  | none => rfl
  | some p =>
    simp only [Option.map_some, fdIsset_forgetRates]
    rw [show p.forgetRates.clientFd = p.clientFd from rfl]
    cases st.fdIsset (some p.clientFd) with
    | error e => rfl
    | ok ready =>
      simp only [ok_bind]
      split
      · exact handleClientRecv_forgetRates (turn.client sid) sid p st
      · rfl

theorem serveServer_forgetRates : Respects ProxyState.forgetRates (serveServer alpha turn sid) := by
  refine .of_factor
    (f := fun st => erased ProxyState.forgetRates (serveServer alpha turn sid st)) fun st => ?_
  unfold serveServer
  rw [st.forgetRates_getElem? sid]
  cases st.sessions[sid]? with
  | none =>
    rw [Option.map_none, erased_ok, erased_ok, st.forgetRates_idem]
  | some p =>
    simp only [Option.map_some, fdIsset_forgetRates]
    rw [show p.forgetRates.serverFd = p.serverFd from rfl]
    cases st.fdIsset p.serverFd with
    | error e => rfl
    | ok ready =>
      simp only [ok_bind]
      split
      · exact handleServerRecv_forgetRates alpha (turn.server sid) sid p st
      · rw [pure_eq_ok, pure_eq_ok, erased_ok, erased_ok, st.forgetRates_idem]

theorem serveSession_forgetRates :
    Respects ProxyState.forgetRates (fun st => serveSession alpha turn st sid) :=
  (serveClient_forgetRates turn sid).seq (serveServer_forgetRates alpha turn sid)

theorem serveSessions_forgetRates : Respects ProxyState.forgetRates (serveSessions alpha turn) := by
  intro st st' h
  have hlength : st.sessions.length = st'.sessions.length := by
    have hmap := congrArg ProxyState.sessions h
    simpa [ProxyState.forgetRates] using congrArg List.length hmap
  unfold serveSessions
  rw [hlength]
  exact Respects.run (serveSession_forgetRates alpha turn) _ st st' h

theorem acceptClient_forgetRates (serverSockfd : Nat) :
    Respects ProxyState.forgetRates (acceptClient serverSockfd turn) := by
  refine .of_factor
    (f := fun st => erased ProxyState.forgetRates (acceptClient serverSockfd turn st)) fun st => ?_
  have hlength : st.forgetRates.sessions.length = st.sessions.length := by
    unfold ProxyState.forgetRates
    rw [List.length_map]
  unfold acceptClient
  rw [hlength]
  by_cases hmem : serverSockfd ∈ st.readyToRead
  · have hmem' : serverSockfd ∈ st.forgetRates.readyToRead := hmem
    rw [if_neg (not_not.mpr hmem), if_neg (not_not.mpr hmem')]
    split
    · rfl
    by_cases hfits : lowestFree st.openFds < FD_SETSIZE
    · have hfits' : lowestFree st.forgetRates.openFds < FD_SETSIZE := hfits
      simp only [inBounds_pos hfits, inBounds_pos hfits', ok_bind, pure_eq_ok, erased_ok]
      rw [st.forgetRates_accepting]
      rfl
    · have hfits' : ¬ lowestFree st.forgetRates.openFds < FD_SETSIZE := hfits
      simp only [inBounds_neg hfits, inBounds_neg hfits']
      rfl
  · have hmem' : serverSockfd ∉ st.forgetRates.readyToRead := hmem
    rw [if_pos hmem, if_pos hmem', erased_ok, erased_ok, st.forgetRates_idem]

/-- **Step lemma.** -/
theorem iterate_forgetRates (serverSockfd : Nat) :
    Respects ProxyState.forgetRates (fun st => iterate alpha serverSockfd st turn) := by
  unfold iterate
  cases turn.select with
  | none => exact .skip
  | some ready =>
    have hturn := (acceptClient_forgetRates turn serverSockfd).seq
      (serveSessions_forgetRates alpha turn)
    intro st st' h
    refine hturn (st.selected ready) (st'.selected ready) ?_
    rw [st.forgetRates_selected, st'.forgetRates_selected, h]

end Loop

/-- **No interference**: runs over the same turns, from states that differ in the advertised rates
alone, fail alike, or emit the same events and end in such states. -/
theorem run_forgetRates (alpha : ℚ) (serverSockfd : Nat) {st₁ st₂ : ProxyState}
    (h : st₁.forgetRates = st₂.forgetRates) (turns : List Turn) :
    (∃ e, Machine.run (iterate alpha serverSockfd) st₁ turns = .error e ∧
      Machine.run (iterate alpha serverSockfd) st₂ turns = .error e) ∨
    ∃ st₁' st₂' evs, Machine.run (iterate alpha serverSockfd) st₁ turns = .ok (st₁', evs) ∧
      Machine.run (iterate alpha serverSockfd) st₂ turns = .ok (st₂', evs) ∧
      st₁'.forgetRates = st₂'.forgetRates := by
  have hloop := Respects.run (fun turn => iterate_forgetRates alpha turn serverSockfd) turns
  exact erased_cases (hloop st₁ st₂ h)

/-- The server answers session 0. -/
def answeredTurn : Turn where
  select := some {5}
  accept := false
  client := fun _ => postRequest
  server := fun _ => pageRecv (ascii "ab")

/-- A session that has read a manifest gets the same page. -/
theorem run_forgetRates_page : ∃ st₁ st₂ evs,
    Machine.run (iterate 1 3) pageState [answeredTurn] = .ok (st₁, evs) ∧
    Machine.run (iterate 1 3) { pageState with sessions := [{ pageSession with bitrate := [7] }] }
      [answeredTurn] = .ok (st₂, evs) ∧ st₁.forgetRates = st₂.forgetRates := by
  have hreturns : (Machine.run (iterate 1 3) pageState [answeredTurn]).map (fun _ => ()) =
      .ok () := by decide +kernel
  rcases run_forgetRates 1 3 (show pageState.forgetRates = ProxyState.forgetRates
    { pageState with sessions := [{ pageSession with bitrate := [7] }] } from rfl) [answeredTurn]
    with ⟨e, herror, -⟩ | hsame
  · rw [herror] at hreturns
    cases hreturns
  · exact hsame

end VideoCdn
