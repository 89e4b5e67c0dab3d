import VideoCdn.Isolation

/-!
# The trackers along the log of a run (`src/bitrate.c` under `src/proxy.c`)

* `KeptByTrackers` — what relates the events so far to the trackers, and is kept by the requests for
  chunks and by the measurements.
* `KeptByTrackers.handlers`, `KeptByTrackers.run` — the handlers keep it, and so it holds of every run.
-/

set_option autoImplicit false

namespace VideoCdn

open CLib

/-- Requests for chunks and measurements are the events that come with a change of the trackers. -/
def ProxyEvent.changesTrackers : ProxyEvent → Bool
  | .chunkRequest .. | .chunkResponse .. => true
  | .accepted .. | .connected .. | .upstream .. | .downstream .. => false

structure KeptByTrackers (alpha : ℚ) (P : List ProxyEvent → Trackers → Prop) : Prop where
  start : P [] []
  other : ∀ {evs trackers e}, P evs trackers → e.changesTrackers = false → P (evs ++ [e]) trackers
  request : ∀ {evs trackers t₁ t₂ file buffer buffer' fd} (sid : Nat), P evs trackers →
    createTracker file fd trackers = some t₁ → updateBitrate buffer fd t₁ = .ok (buffer', t₂) →
    P (evs ++ [.chunkRequest sid fd (trackerOf fd t₁).throughput (trackerOf fd t₂).bitrate]) t₂
  response : ∀ {evs trackers t₁ log fd} {size : Int} {ts tf} (sid : Nat), P evs trackers →
    updateThroughput alpha size fd ts tf trackers = .ok (t₁, log) →
    P (evs ++ [.chunkResponse sid fd ⟨size, ts, tf⟩ log]) t₁

namespace KeptByTrackers

variable {alpha : ℚ} {P : List ProxyEvent → Trackers → Prop} (hP : KeptByTrackers alpha P)
  {evs es : List ProxyEvent} {st st' : ProxyState}
include hP

theorem trackChunk {now : Timespec} {sid : Nat} {node : Session} {file buffer buffer' : Bytes}
    (h : P evs st.trackers)
    (htrack : VideoCdn.trackChunk now sid node file buffer st = .ok (buffer', st', es)) :
    P (evs ++ es) st'.trackers := by
  rcases trackChunk_eq_ok.mp htrack with ⟨-, -, rfl, rfl⟩ | ⟨t₁, t₂, hcreate, hupd, rfl, rfl⟩
  · rwa [List.append_nil]
  · exact hP.request sid h hcreate hupd

/-- A request, with what has been done for it if it is for a chunk, and its forwarding. -/
theorem forwarded {now : Timespec} {sid connect : Nat} {node : Session}
    {file buffer buffer' : Bytes} {st₂ : ProxyState}
    (h : P (evs ++ [.connected sid connect]) st.trackers)
    (htrack : VideoCdn.trackChunk now sid node file buffer st = .ok (buffer', st₂, es))
    (out : Bytes) : P (evs ++ (.connected sid connect :: es ++ [.upstream sid out])) st₂.trackers := by
  have hall : P (evs ++ [.connected sid connect] ++ es ++ [.upstream sid out]) st₂.trackers :=
    hP.other (hP.trackChunk h htrack) rfl
  rwa [List.append_assoc, List.append_assoc] at hall

theorem handlers : KeptByHandlers alpha (fun evs st => P evs st.trackers) where
  client := by
    intro evs st sid node env st' es h hnode hstep
    have hconnected : P (evs ++ [.connected sid (st.newServer node)])
        (st.reconnect sid node).trackers := by
      rw [st.trackers_reconnect sid node]
      exact hP.other h rfl
    cases hstep with
    | readError =>
      rw [List.append_nil]
      exact h
    | noServer =>
      rw [List.append_nil, st.trackers_closeServer node]
      exact h
    | refused => exact hconnected
    | refusedRewritten _ _ _ _ _ htrack =>
      have hall := hP.trackChunk hconnected htrack
      rwa [List.append_assoc] at hall
    | forwarded _ _ _ _ _ htrack => exact hP.forwarded hconnected htrack _
    | forwardedReady _ _ _ _ _ htrack => exact hP.forwarded hconnected htrack _
  server := by
    intro evs st sid node env st' es h hnode hstep
    cases hstep with
    | passed n bitrate out => exact hP.other h rfl
    | measured n bitrate out ts trackers log _ _ hupd =>
      have hall := hP.other (e := .downstream sid out) (hP.response sid h hupd) rfl
      rwa [List.append_assoc] at hall

/-- **Step lemma.** -/
theorem iterate {serverSockfd : Nat} {turn : Turn} (h : P evs st.trackers)
    (hturn : VideoCdn.iterate alpha serverSockfd st turn = .ok (st', es)) :
    P (evs ++ es) st'.trackers := by
  cases iterate_step hturn with
  | failed _ => rwa [List.append_nil]
  | idle ready _ _ _ _ hserve =>
    have hselected : P evs (st.selected ready).trackers := h
    exact hP.handlers.serveSessions evs hselected hserve
  | accepted ready _ es _ _ hserve =>
    have haccepted : P (evs ++ [.accepted st.sessions.length (lowestFree st.openFds)])
        (st.selected ready).accepting.trackers := hP.other h rfl
    have hserved := hP.handlers.serveSessions _ haccepted hserve
    rwa [List.append_assoc] at hserved

/-- **Run lemma.** -/
theorem run {openFds : Finset Nat} {serverSockfd : Nat} {turns : List Turn}
    (h : Machine.run (VideoCdn.iterate alpha serverSockfd) (.start openFds serverSockfd) turns =
      .ok (st, evs)) : P evs st.trackers := by
  have hstart : P [] (ProxyState.start openFds serverSockfd).trackers := hP.start
  exact Machine.run_invariant (Q := fun evs st => P evs st.trackers)
    (fun _ _ _ _ _ hst hturn => hP.iterate hst hturn) hstart h

end KeptByTrackers

end VideoCdn
