import VideoCdn.TrackerEvents
import VideoCdn.RateChoice

/-!
# The rates in the log (`update_throughput` in `src/bitrate.c` under `src/proxy.c`)

* `lastRate` — the rate of the last chunk that was asked for on a descriptor.
* `Reported` — the invariant of every run: trackers keep that rate, and every line of the log has it.
* `logged_run` — **what is logged** is the rate of the last request, which need not be the one that is
  answered; it is a rate of the table.
-/

set_option autoImplicit false

namespace VideoCdn

open CLib

def rateOf (fd : Nat) : ProxyEvent → Option Nat
  | .chunkRequest _ fd' _ rate => if fd' = fd then some rate else none
  | .accepted .. | .connected .. | .upstream .. | .chunkResponse .. | .downstream .. => none

/-- The rate of the last request for a chunk on the descriptor; 100 is that of a new tracker. -/
def lastRate (fd : Nat) (evs : List ProxyEvent) : Nat := ((evs.filterMap (rateOf fd)).getLast?).getD 100

theorem lastRate_snoc (fd : Nat) (evs : List ProxyEvent) (e : ProxyEvent) :
    lastRate fd (evs ++ [e]) = (rateOf fd e).getD (lastRate fd evs) := by
  unfold lastRate
  rw [List.filterMap_append]
  cases he : rateOf fd e with
  | none => simp [he]
  | some rate => simp [he]

structure Reported (evs : List ProxyEvent) (trackers : Trackers) : Prop where
  tracker : ∀ fd, (trackerOf fd trackers).bitrate = lastRate fd evs
  logged : ∀ pre sid fd download log, pre ++ [.chunkResponse sid fd download log] <+: evs →
    log.bitrate = lastRate fd pre ∧ log.bitrate ∈ rateGet
  listed : ∀ fd, lastRate fd evs ∈ rateGet

section Reported
variable {evs : List ProxyEvent} {trackers trackers' : Trackers}

theorem createTracker_bitrate {file : Bytes} {fd : Nat}
    (h : createTracker file fd trackers = some trackers') (fd' : Nat) :
    (trackerOf fd' trackers').bitrate = (trackerOf fd' trackers).bitrate := by
  obtain ⟨hsome, hother⟩ := createTracker_spec h
  by_cases hfd : fd' = fd
  · rw [hfd, trackerOf_of_searchSeg hsome]
  · rw [trackerOf_congr (hother fd' hfd)]

theorem updateBitrate_bitrate_other {buffer buffer' : Bytes} {fd fd' : Nat}
    (h : updateBitrate buffer fd trackers = .ok (buffer', trackers')) (hfd : fd' ≠ fd) :
    (trackerOf fd' trackers').bitrate = (trackerOf fd' trackers).bitrate := by
  obtain ⟨_, _, _, _, -, -, -, -, -, hother⟩ := updateBitrate_spec h
  rw [trackerOf_congr (hother fd' hfd)]

theorem updateThroughput_bitrate {alpha : ℚ} {buckSize : Int} {fd : Nat} {ts tf : Timespec}
    {log : LogRecord} (h : updateThroughput alpha buckSize fd ts tf trackers = .ok (trackers', log)) :
    log.bitrate = (trackerOf fd trackers).bitrate ∧
    ∀ fd', (trackerOf fd' trackers').bitrate = (trackerOf fd' trackers).bitrate := by
  obtain ⟨node, hs, -, hs', hother⟩ := updateThroughput_spec h
  constructor
  · rw [trackerOf_of_searchSeg hs]
    unfold updateThroughput at h
    rw [hs] at h
    dsimp only at h
    split at h <;> cases h
    rfl
  · intro fd'
    by_cases hfd : fd' = fd
    · rw [hfd, trackerOf_of_searchSeg hs', trackerOf_of_searchSeg hs]
    · rw [trackerOf_congr (hother fd' hfd)]

theorem Reported.snoc (h : Reported evs trackers) {e : ProxyEvent}
    (hafter : ∀ fd, (trackerOf fd trackers').bitrate = (rateOf fd e).getD (lastRate fd evs))
    (hlisted : ∀ fd, ∀ rate ∈ rateOf fd e, rate ∈ rateGet)
    (hlog : ∀ sid fd download log, e = .chunkResponse sid fd download log →
      log.bitrate = lastRate fd evs) : Reported (evs ++ [e]) trackers' := by
  refine ⟨fun fd => ?_, fun pre sid fd download log hpre => ?_, fun fd => ?_⟩
  · rw [lastRate_snoc, hafter fd]
  · rcases List.prefix_concat_iff.mp hpre with heq | hpre
    · obtain ⟨rfl, he⟩ := List.append_inj' heq rfl
      have hrate := hlog sid fd download log (List.singleton_inj.mp he).symm
      exact ⟨hrate, hrate ▸ h.listed fd⟩
    · exact h.logged pre sid fd download log hpre
  · rw [lastRate_snoc]
    cases he : rateOf fd e with
    | none => exact h.listed fd
    | some rate => exact hlisted fd rate he

theorem reported_kept (alpha : ℚ) : KeptByTrackers alpha Reported where
  start := by
    refine ⟨fun fd => rfl, fun pre sid fd download log hpre => ?_, fun fd => ?_⟩
    · exact absurd (List.prefix_nil.mp hpre) (by simp)
    · show 100 ∈ rateGet
      decide
  other := by
    intro evs trackers e h he
    have hnone : ∀ fd, rateOf fd e = none := by
      intro fd
      cases e <;> first | rfl | cases he
    refine h.snoc (fun fd => ?_) (fun fd rate hrate => ?_) fun sid fd download log heq => ?_
    · rw [hnone fd]
      exact h.tracker fd
    · rw [hnone fd] at hrate
      cases hrate
    · rw [heq] at he
      cases he
  request := by
    intro evs trackers t₁ t₂ file buffer buffer' fd sid h hcreate hupd
    refine h.snoc (fun fd' => ?_) (fun fd' rate hrate => ?_) nofun
    · by_cases hfd : fd = fd'
      · subst hfd
        simp [rateOf]
      · rw [updateBitrate_bitrate_other hupd (Ne.symm hfd), createTracker_bitrate hcreate fd',
          h.tracker fd']
        simp [rateOf, hfd]
    · obtain ⟨-, rfl⟩ : fd = fd' ∧ (trackerOf fd t₂).bitrate = rate := by
        simpa [rateOf] using hrate
      rw [updateBitrate_bitrate hupd]
      exact selectRate_mem _
  response := by
    intro evs trackers t₁ log fd size ts tf sid h hupd
    obtain ⟨hlog, hsame⟩ := updateThroughput_bitrate hupd
    refine h.snoc (fun fd' => (hsame fd').trans (h.tracker fd')) nofun ?_
    intro sid' fd' download log' he
    cases he
    exact hlog.trans (h.tracker fd)

end Reported

theorem reported_run {alpha : ℚ} {openFds : Finset Nat} {serverSockfd : Nat} {turns : List Turn}
    {st : ProxyState} {evs : List ProxyEvent}
    (h : Machine.run (iterate alpha serverSockfd) (.start openFds serverSockfd) turns =
      .ok (st, evs)) : Reported evs st.trackers := (reported_kept alpha).run h

/-- **What is logged**: every line of the log has the rate of the last chunk that was asked for on its
descriptor, whichever chunk it measures, and this is a rate of the table. -/
theorem logged_run {alpha : ℚ} {openFds : Finset Nat} {serverSockfd : Nat} {turns : List Turn}
    {st : ProxyState} {evs : List ProxyEvent}
    (hrun : Machine.run (iterate alpha serverSockfd) (.start openFds serverSockfd) turns =
      .ok (st, evs)) {pre : List ProxyEvent} {sid fd : Nat} {download : Download} {log : LogRecord}
    (hpre : pre ++ [.chunkResponse sid fd download log] <+: evs) :
    log.bitrate = lastRate fd pre ∧ log.bitrate ∈ rateGet :=
  (reported_run hrun).logged pre sid fd download log hpre

/-- The line of the first client's chunk, in a run in which a second client asks for one. -/
theorem logged_run_behind : ∃ pre st evs,
    Machine.run (iterate 1 3) (.start {0, 1, 2} 3) [chunkTurn {3} [0], chunkTurn {3} [1]] =
      .ok (st, evs) ∧
    pre ++ [measured 0 4] <+: evs ∧ 10 = lastRate 4 pre ∧ 10 ∈ rateGet := by
  obtain ⟨st, evs, hrun, hfirst⟩ := firstEvents_eq_ok firstEvents_behind
  have hpre : [.accepted 0 4, .connected 0 5, .chunkRequest 0 4 100 10, .upstream 0 rewritten] ++
      [measured 0 4] <+: evs := (List.prefix_append _ _).trans hfirst
  exact ⟨_, st, evs, hrun, hpre, logged_run hrun hpre⟩

end VideoCdn
