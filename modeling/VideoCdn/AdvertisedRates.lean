import VideoCdn.ServerResponse
import VideoCdn.ManifestRewrite
import VideoCdn.Isolation

/-!
# The rates of a manifest and the rates of later requests

`write_f4m_nolist` collects the rates of a manifest in the session; `update_bitrate` chooses from
four rates of its own.

* `Notice`, `observe` — a turn of the proxy's loop, seen by its clients: the lists they are sent and
  the rates of the chunks that are requested for them.  `observe_run_iff`: the runs are the same.
* `WithinAdvertised` — each rate is in the lists that the client has been sent.
* `withinAdvertised_iff` — the lists have to hold the fixed rate for each estimate.
-/

set_option autoImplicit false

namespace VideoCdn

open CLib

/-! ## What the clients are sent -/

/-- The rates of a manifest, from its bitrate lines in front of `</manifest>`. -/
def advertisedIn (block : Bytes) : List Int :=
  let lines := (getlines block).takeWhile (fun line => decide (lineKind line ≠ .manifest))
  (lines.filter (fun line => decide (lineKind line = .bitrate))).map
    (fun line => atoi (quotedPart line))

/-- The response, if it is taken for a manifest. -/
def receivedManifest (env : ServerRecv) (node : Session) : Checked (Option Bytes) := do
  let header ← readHeader env.reads 0 []
  let nextRead ← getResponseContentLength (readBuffer header)
  let block := bigBuffer header env.recv nextRead.toNat
  let (result, _) ← parseF4mResponse block node.bitrate
  match result with
  | .manifest _ => return some block
  | .video => return none
  | .other => return none

/-- The connection is given by the session that was made for it. -/
inductive Notice where
  /-- A manifest with these rates has been sent. -/
  | advertised (conn : Nat) (rates : List Int)
  /-- A chunk request has been forwarded, with the rate chosen for the estimate. -/
  | requested (conn : Nat) (estimate : ℚ) (rate : Nat)
  deriving DecidableEq

/-- The last connection that was accepted with this number; sessions keep the numbers of closed
ones. -/
def ProxyState.holder (st : ProxyState) (fd : Nat) : Option Nat :=
  (List.range st.sessions.length).reverse.find? fun sid =>
    (st.sessions[sid]?).any (fun node => node.clientFd == fd)

def ProxyEvent.isUpstream : ProxyEvent → Bool
  | .upstream _ _ => true
  | _ => false

def requestNotice (st : ProxyState) : ProxyEvent → Option Notice
  | .chunkRequest sid fd estimate rate =>
    some (.requested ((st.holder fd).getD sid) estimate rate)
  | _ => none

/-- A rewritten request counts if it is forwarded. -/
def requestNotices (st : ProxyState) (evs : List ProxyEvent) : List Notice :=
  if evs.any ProxyEvent.isUpstream then evs.filterMap (requestNotice st) else []

/-- Of the responses that are passed on, `evs`, only manifests count. -/
def manifestNotices (st : ProxyState) (env : ServerRecv) (sid : Nat) (evs : List ProxyEvent) :
    List Notice :=
  match st.sessions[sid]? with
  | none => []
  | some node =>
    if evs = [] then []
    else match receivedManifest env node with
      | .ok (some block) =>
        [.advertised ((st.holder node.clientFd).getD sid) (advertisedIn block)]
      | _ => []

def observeSession (alpha : ℚ) (turn : Turn) (st : ProxyState) (sid : Nat) :
    Checked (ProxyState × List Notice) := do
  let (st₁, evs₁) ← serveClient turn sid st
  let (st₂, evs₂) ← serveServer alpha turn sid st₁
  return (st₂, requestNotices st evs₁ ++ manifestNotices st₁ (turn.server sid) sid evs₂)

/-- One turn of the loop of `main`, with what it means for the clients. -/
def observe (alpha : ℚ) (serverSockfd : Nat) (st : ProxyState) (turn : Turn) :
    Checked (ProxyState × List Notice) :=
  match turn.select with
  | none => .ok (st, [])
  | some ready => do
    let (st, _) ← acceptClient serverSockfd turn (st.selected ready)
    Machine.run (observeSession alpha turn) st (List.range st.sessions.length).reverse

/-! ## The same runs -/

theorem observeSession_eq_ok {alpha : ℚ} {turn : Turn} {sid : Nat} {st st' : ProxyState}
    {ns : List Notice} : observeSession alpha turn st sid = .ok (st', ns) ↔
      ∃ st₁ evs₁ evs₂, serveClient turn sid st = .ok (st₁, evs₁) ∧
        serveServer alpha turn sid st₁ = .ok (st', evs₂) ∧
        ns = requestNotices st evs₁ ++ manifestNotices st₁ (turn.server sid) sid evs₂ := by
  unfold observeSession
  simp only [bind_eq_ok, Prod.exists, pure_eq_ok, Except.ok.injEq, Prod.mk.injEq]
  constructor
  · rintro ⟨st₁, evs₁, hclient, st₂, evs₂, hserver, rfl, rfl⟩
    exact ⟨st₁, evs₁, evs₂, hclient, hserver, rfl⟩
  · rintro ⟨st₁, evs₁, evs₂, hclient, hserver, rfl⟩
    exact ⟨st₁, evs₁, hclient, st', evs₂, hserver, rfl, rfl⟩

theorem observeSession_iff (alpha : ℚ) (turn : Turn) (st : ProxyState) (sid : Nat)
    (st' : ProxyState) : (∃ ns, observeSession alpha turn st sid = .ok (st', ns)) ↔
      ∃ evs, serveSession alpha turn st sid = .ok (st', evs) := by
  simp only [observeSession_eq_ok, serveSession_eq_ok]
  constructor
  · rintro ⟨_, st₁, evs₁, evs₂, hclient, hserver, -⟩
    exact ⟨_, st₁, evs₁, evs₂, hclient, hserver, rfl⟩
  · rintro ⟨_, st₁, evs₁, evs₂, hclient, hserver, -⟩
    exact ⟨_, st₁, evs₁, evs₂, hclient, hserver, rfl⟩

theorem observe_iff (alpha : ℚ) (serverSockfd : Nat) (st : ProxyState) (turn : Turn)
    (st' : ProxyState) : (∃ ns, observe alpha serverSockfd st turn = .ok (st', ns)) ↔
      ∃ evs, iterate alpha serverSockfd st turn = .ok (st', evs) := by
  unfold observe iterate
  cases turn.select with
  | none => simp
  | some ready =>
    simp only [bind_eq_ok, Prod.exists, pure_eq_ok, Except.ok.injEq, Prod.mk.injEq]
    constructor
    · rintro ⟨ns, st₁, evs₁, haccept, hrun⟩
      obtain ⟨evs₂, hserve⟩ :=
        (Machine.run_states_iff (observeSession_iff alpha turn)).mp ⟨ns, hrun⟩
      exact ⟨_, st₁, evs₁, haccept, st', evs₂, hserve, rfl, rfl⟩
    · rintro ⟨_, st₁, evs₁, haccept, _, evs₂, hserve, rfl, -⟩
      obtain ⟨ns, hrun⟩ :=
        (Machine.run_states_iff (observeSession_iff alpha turn)).mpr ⟨evs₂, hserve⟩
      exact ⟨ns, st₁, evs₁, haccept, hrun⟩

/-- **The observed runs** are the runs of the loop. -/
theorem observe_run_iff (alpha : ℚ) (serverSockfd : Nat) {st st' : ProxyState}
    {turns : List Turn} :
    (∃ ns, Machine.run (observe alpha serverSockfd) st turns = .ok (st', ns)) ↔
      ∃ evs, Machine.run (iterate alpha serverSockfd) st turns = .ok (st', evs) :=
  Machine.run_states_iff (observe_iff alpha serverSockfd)

/-- A manifest that counts has been rewritten and sent, and its rates are kept in the session. -/
theorem handleServerRecv_manifest {alpha : ℚ} {env : ServerRecv} {sid : Nat} {node : Session}
    {st st' : ProxyState} {evs : List ProxyEvent} {block : Bytes}
    (hrun : handleServerRecv alpha env sid node st = .ok (st', evs))
    (hmanifest : receivedManifest env node = .ok (some block)) :
    ∃ newBuffer bitrate, parseF4mResponse block node.bitrate = .ok (.manifest newBuffer, bitrate) ∧
      evs = [.downstream sid newBuffer] ∧
      st'.sessions = st.sessions.set sid { node with bitrate := bitrate } := by
  unfold receivedManifest at hmanifest
  simp only [bind_eq_ok, Prod.exists] at hmanifest
  obtain ⟨header, hheader, nextRead, hlength, result, bitrate, hparse, hresult⟩ := hmanifest
  cases result with
  | video => cases hresult
  | other => cases hresult
  | manifest newBuffer =>
    cases hresult
    unfold handleServerRecv at hrun
    split at hrun
    · cases hrun
    · rw [hheader, ok_bind, hlength, ok_bind, inBounds_bind_eq_ok] at hrun
      obtain ⟨-, hrun⟩ := hrun
      unfold bigBuffer at hparse
      dsimp only at hrun
      rw [hparse, ok_bind] at hrun
      simp only [passResponse, ok_bind, bind_eq_ok, ProxyState.fdClr_eq_ok, pure_eq_ok,
        Except.ok.injEq, Prod.mk.injEq] at hrun
      obtain ⟨_, ⟨-, rfl⟩, _, ⟨-, rfl⟩, rfl, rfl⟩ := hrun
      exact ⟨newBuffer, bitrate, hparse, rfl, rfl⟩

/-! ## The choice -/

/-- The rate for an estimate: `update_bitrate` asks for half as much again. -/
def fixedRate (estimate : ℚ) : Nat :=
  if 1500 ≤ estimate then 1000
  else if 750 ≤ estimate then 500
  else if 150 ≤ estimate then 100
  else if 15 ≤ estimate then 10
  else 100

theorem selectRate_eq (estimate : ℚ) : selectRate estimate = fixedRate estimate := by
  have h1000 : ((1000 : Nat) : ℚ) * (3 / 2) = 1500 := by norm_num
  have h500 : ((500 : Nat) : ℚ) * (3 / 2) = 750 := by norm_num
  have h100 : ((100 : Nat) : ℚ) * (3 / 2) = 150 := by norm_num
  have h10 : ((10 : Nat) : ℚ) * (3 / 2) = 15 := by norm_num
  unfold selectRate fixedRate rateGet
  simp only [List.reverse_cons, List.reverse_nil, List.nil_append, List.cons_append,
    List.find?_cons, List.find?_nil, h1000, h500, h100, h10]
  by_cases hfast : 1500 ≤ estimate
  · simp [hfast]
  by_cases hgood : 750 ≤ estimate
  · simp [hfast, hgood]
  by_cases hfair : 150 ≤ estimate
  · simp [hfast, hgood, hfair]
  by_cases hslow : 15 ≤ estimate
  · simp [hfast, hgood, hfair, hslow]
  · simp [hfast, hgood, hfair, hslow]

theorem trackChunk_rate {now : Timespec} {sid sid' fd rate : Nat} {node : Session}
    {file buffer buffer' : Bytes} {st st' : ProxyState} {evs : List ProxyEvent} {estimate : ℚ}
    (h : trackChunk now sid node file buffer st = .ok (buffer', st', evs))
    (hmem : .chunkRequest sid' fd estimate rate ∈ evs) : rate = fixedRate estimate := by
  rcases trackChunk_eq_ok.mp h with ⟨-, -, -, rfl⟩ | ⟨trackers, trackers', -, hupd, -, rfl⟩
  · cases hmem
  · cases List.mem_singleton.mp hmem
    rw [updateBitrate_bitrate hupd, selectRate_eq]

/-- **The rate of a request** depends on the estimate alone. -/
theorem clientStep_rate {env : ClientRecv} {sid sid' fd rate : Nat} {node : Session}
    {st st' : ProxyState} {evs : List ProxyEvent} {estimate : ℚ}
    (h : ClientStep env sid node st st' evs)
    (hmem : .chunkRequest sid' fd estimate rate ∈ evs) : rate = fixedRate estimate := by
  cases h with
  | readError => cases hmem
  | noServer => cases hmem
  | refused => cases List.mem_singleton.mp hmem
  | refusedRewritten _ _ _ _ _ htrack =>
    exact trackChunk_rate htrack (by simpa using hmem)
  | forwarded _ _ _ _ _ htrack => exact trackChunk_rate htrack (by simpa using hmem)
  | forwardedReady _ _ _ _ _ htrack => exact trackChunk_rate htrack (by simpa using hmem)

/-- The rate is in the request that is forwarded: in the text whose first bytes the server gets. -/
theorem clientStep_carries {env : ClientRecv} {sid sid' fd rate : Nat} {node : Session}
    {st st' : ProxyState} {evs : List ProxyEvent} {estimate : ℚ} {out : Bytes}
    (h : ClientStep env sid node st st' evs) (hmem : .chunkRequest sid' fd estimate rate ∈ evs)
    (hout : .upstream sid out ∈ evs) :
    ∃ req buffer, env.read = some req ∧ rewriteText rate (cstr req) = .ok (cstr buffer) ∧
      out = buffer.take req.length := by
  have hcarries : ∀ {req buffer st₂ evs₂}, env.read = some req →
      trackChunk env.now sid (node.connectedTo (st.newServer node)) (requestFile env req)
        (readBuffer req) (st.reconnect sid node) = .ok (buffer, st₂, evs₂) →
      .chunkRequest sid' fd estimate rate ∈ .connected sid (st.newServer node) :: evs₂ ++
        [.upstream sid (buffer.take req.length)] →
      .upstream sid out ∈ .connected sid (st.newServer node) :: evs₂ ++
        [.upstream sid (buffer.take req.length)] →
      ∃ req buffer, env.read = some req ∧ rewriteText rate (cstr req) = .ok (cstr buffer) ∧
        out = buffer.take req.length := by
    intro req buffer st₂ evs₂ hread htrack hreq hup
    rcases trackChunk_eq_ok.mp htrack with ⟨-, -, -, rfl⟩ | ⟨trackers, trackers', hsome, hupd, -, rfl⟩
    · simp at hreq
    · simp only [List.cons_append, List.nil_append, List.mem_cons, reduceCtorEq,
        ProxyEvent.chunkRequest.injEq, ProxyEvent.upstream.injEq, List.not_mem_nil, or_false,
        false_or, true_and] at hreq hup
      obtain ⟨-, rfl, rfl, rfl⟩ := hreq
      refine ⟨req, buffer, hread, ?_, hup⟩
      rw [updateBitrate_bitrate hupd, createTracker_throughput hsome]
      exact cstr_updateBitrate hsome hupd
  cases h with
  | readError => cases hmem
  | noServer => cases hmem
  | refused => cases List.mem_singleton.mp hmem
  | refusedRewritten _ _ _ _ _ htrack =>
    rcases trackChunk_eq_ok.mp htrack with ⟨-, -, -, rfl⟩ | ⟨_, _, -, -, -, rfl⟩ <;> simp at hout
  | forwarded _ _ _ _ hread htrack => exact hcarries hread htrack hmem hout
  | forwardedReady _ _ _ _ hread htrack => exact hcarries hread htrack hmem hout

/-- Every rate requested is the fixed one. -/
def FixedRates (ns : List Notice) : Prop :=
  ∀ conn estimate rate, .requested conn estimate rate ∈ ns → rate = fixedRate estimate

theorem FixedRates.append {ns ns' : List Notice} (h : FixedRates ns) (h' : FixedRates ns') :
    FixedRates (ns ++ ns') :=
  fun conn estimate rate hmem =>
    (List.mem_append.mp hmem).elim (h conn estimate rate) (h' conn estimate rate)

theorem fixedRates_requestNotices {turn : Turn} {sid : Nat} {st st' : ProxyState}
    {evs : List ProxyEvent} (h : serveClient turn sid st = .ok (st', evs)) :
    FixedRates (requestNotices st evs) := by
  intro conn estimate rate hmem
  have hrate : ∀ sid' fd, .chunkRequest sid' fd estimate rate ∈ evs →
      rate = fixedRate estimate := by
    intro sid' fd hmem
    rcases serveClient_step h with ⟨-, rfl⟩ | ⟨p, -, hstep⟩
    · cases hmem
    · exact clientStep_rate hstep hmem
  unfold requestNotices at hmem
  split at hmem
  · obtain ⟨ev, hev, hnotice⟩ := List.mem_filterMap.mp hmem
    unfold requestNotice at hnotice
    split at hnotice
    · cases hnotice
      exact hrate _ _ hev
    · cases hnotice
  · cases hmem

theorem fixedRates_manifestNotices (st : ProxyState) (env : ServerRecv) (sid : Nat)
    (evs : List ProxyEvent) : FixedRates (manifestNotices st env sid evs) := by
  intro conn estimate rate hmem
  unfold manifestNotices at hmem
  split at hmem
  · cases hmem
  · split at hmem
    · cases hmem
    · split at hmem
      · cases List.mem_singleton.mp hmem
      · cases hmem

theorem fixedRates_observe {alpha : ℚ} {serverSockfd : Nat} {turn : Turn} {st st' : ProxyState}
    {ns : List Notice} (h : observe alpha serverSockfd st turn = .ok (st', ns)) : FixedRates ns := by
  unfold observe at h
  split at h
  · cases h
    exact fun _ _ _ hmem => absurd hmem List.not_mem_nil
  · simp only [bind_eq_ok, Prod.exists] at h
    obtain ⟨st₀, -, -, hrun⟩ := h
    refine Machine.run_history (P := fun _ ns _ => FixedRates ns) ?_ ?_ hrun
    · exact fun _ _ _ hmem => absurd hmem List.not_mem_nil
    · intro _ ns₁ st₁ sid st₂ ns₂ _ hns₁ hstep
      obtain ⟨st₃, evs₁, evs₂, hclient, -, rfl⟩ := observeSession_eq_ok.mp hstep
      exact hns₁.append
        ((fixedRates_requestNotices hclient).append (fixedRates_manifestNotices _ _ _ _))

theorem fixedRates_run {alpha : ℚ} {serverSockfd : Nat} {turns : List Turn} {st st' : ProxyState}
    {ns : List Notice} (h : Machine.run (observe alpha serverSockfd) st turns = .ok (st', ns)) :
    FixedRates ns := by
  refine Machine.run_history (P := fun _ ns _ => FixedRates ns) ?_ ?_ h
  · exact fun _ _ _ hmem => absurd hmem List.not_mem_nil
  · exact fun _ _ _ _ _ _ _ hns hturn => hns.append (fixedRates_observe hturn)

/-! ## Whole runs -/

/-- The second notice comes after the first one. -/
def Follows (ns : List Notice) (first second : Notice) : Prop := [first, second].Sublist ns

section Run
variable {κ : Type} (who : Nat → κ)

/-- The rate of each request is in every list that its client has been sent before; `who` tells
which connections are one client's. -/
def WithinAdvertised (ns : List Notice) : Prop :=
  ∀ conn rates conn' estimate rate,
    Follows ns (.advertised conn rates) (.requested conn' estimate rate) →
    who conn = who conn' → rates ≠ [] → (rate : Int) ∈ rates

/-- Every list holds the fixed rate for each estimate at which its client asks for a chunk. -/
def CoversEstimates (ns : List Notice) : Prop :=
  ∀ conn rates conn' estimate rate,
    Follows ns (.advertised conn rates) (.requested conn' estimate rate) →
    who conn = who conn' → rates ≠ [] → (fixedRate estimate : Int) ∈ rates

/-- **The exact condition**, for every run: the lists are not looked at, so they have to hold the
rates that would be chosen anyway. -/
theorem withinAdvertised_iff {alpha : ℚ} {openFds : Finset Nat} {serverSockfd : Nat}
    {turns : List Turn} {st : ProxyState} {ns : List Notice}
    (hrun : Machine.run (observe alpha serverSockfd) (.start openFds serverSockfd) turns =
      .ok (st, ns)) : WithinAdvertised who ns ↔ CoversEstimates who ns := by
  have hfixed : ∀ {conn rates conn' estimate rate},
      Follows ns (.advertised conn rates) (.requested conn' estimate rate) →
      rate = fixedRate estimate := by
    intro conn rates conn' estimate rate hsub
    exact fixedRates_run hrun conn' estimate rate (hsub.subset (by simp))
  constructor
  · intro hwithin conn rates conn' estimate rate hsub hwho hne
    rw [← hfixed hsub]
    exact hwithin conn rates conn' estimate rate hsub hwho hne
  · intro hcovers conn rates conn' estimate rate hsub hwho hne
    rw [hfixed hsub]
    exact hcovers conn rates conn' estimate rate hsub hwho hne

end Run

/-! ## A manifest and a chunk -/

/-- A manifest that advertises one rate. -/
def manifestBody (rate : Nat) : Bytes :=
  ascii "<manifest>\nbitrate=\"" ++ decimal rate ++ ascii "\"\n</manifest>\n\r\n"

def manifestHeader (rate : Nat) : Bytes :=
  ascii "HTTP/1.1 200 OK\r\nContent-Length: " ++ decimal (manifestBody rate).length ++
    ascii "\r\nContent-Type: text/xml\r\n\r\n"

/-- A client connects, and gets the manifest. -/
def manifestTurn (rate : Nat) : Turn where
  select := some {3}
  accept := true
  client := fun _ => clientSends (ascii "GET /vod/list.f4m HTTP/1.1\r\n\r\n") (by decide)
  server := fun _ => ⟨manifestHeader rate, manifestBody rate, ⟨0, 0⟩⟩

/-- The client comes back for a chunk. -/
def noticesAfter (rate : Nat) : Checked (List Notice) :=
  (Machine.run (observe 1 3) (.start {0, 1, 2} 3) [manifestTurn rate, chunkTurn {3} [1]]).map
    (fun r => r.2)

theorem noticesAfter_300 :
    noticesAfter 300 = .ok [.advertised 0 [300], .requested 1 100 10] := by
  decide +kernel

theorem noticesAfter_10 :
    noticesAfter 10 = .ok [.advertised 0 [10], .requested 1 100 10] := by
  decide +kernel

/-- A list with the rate that would be chosen anyway. -/
theorem withinAdvertised_ten : ∃ st ns,
    Machine.run (observe 1 3) (.start {0, 1, 2} 3) [manifestTurn 10, chunkTurn {3} [1]] =
      .ok (st, ns) ∧ ns ≠ [] ∧ WithinAdvertised (fun _ => ()) ns := by
  obtain ⟨⟨st, ns⟩, hrun, hns⟩ := map_eq_ok.mp noticesAfter_10
  dsimp only at hns
  refine ⟨st, ns, hrun, by rw [hns]; simp, (withinAdvertised_iff _ hrun).mpr ?_⟩
  intro conn rates conn' estimate rate hsub _ _
  rw [hns] at hsub
  cases List.Sublist.eq_of_length hsub rfl
  decide +kernel

/-- **A list that is not looked at**: the manifest has the rate 300 alone, and the rate 10 is asked
for. -/
theorem requested_unadvertised : ¬ ∀ (κ : Type) (who : Nat → κ) (alpha : ℚ)
    (openFds : Finset Nat) (serverSockfd : Nat) (turns : List Turn) (st : ProxyState)
    (ns : List Notice),
    Machine.run (observe alpha serverSockfd) (.start openFds serverSockfd) turns = .ok (st, ns) →
    WithinAdvertised who ns := by
  intro h
  obtain ⟨⟨st, ns⟩, hrun, hns⟩ := map_eq_ok.mp noticesAfter_300
  dsimp only at hns
  have hwithin := h Unit (fun _ => ()) 1 {0, 1, 2} 3 _ st ns hrun
  rw [hns] at hwithin
  exact absurd (hwithin 0 [300] 1 100 10 (List.Sublist.refl _) rfl (by simp)) (by decide)

end VideoCdn
