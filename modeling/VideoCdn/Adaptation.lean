import VideoCdn.TrackerEvents
import VideoCdn.RateChoice
import VideoCdn.Lib.Smoothing

/-!
# The rate settles (`src/bitrate.c` under the main loop of `src/proxy.c`)

* `Download.throughput`, `downloadsOn` — what `est_tp` makes of a download, and the downloads that are
  measured on a descriptor.
* `Adapted` — the invariant of every run: estimates are smoothed over those downloads, and every rate
  is chosen for the estimate at its request.
* `SteadyRate` — an interval without a threshold of `select_rate`.
* `rate_settles` — **settling**: downloads whose throughputs stay clear of the thresholds lead to one
  rate, after a number of them that only depends on what was measured before.
-/

set_option autoImplicit false

namespace VideoCdn

open CLib

/-- The new throughput in `est_tp`, for which neither weight nor estimate matters. -/
def Download.throughput (d : Download) : ℚ := (estTp 0 0 d.ts d.tf d.size).2.1

theorem estTp_smooth (alpha currTp : ℚ) (d : Download) :
    (estTp alpha currTp d.ts d.tf d.size).1 = Smoothing.smooth alpha currTp d.throughput := rfl

def downloadOf (fd : Nat) : ProxyEvent → Option Download
  | .accepted .. => none
  | .connected .. => none
  | .chunkRequest .. => none
  | .upstream .. => none
  | .downstream .. => none
  | .chunkResponse _ fd' download _ => if fd' = fd then some download else none

/-- The downloads measured on the descriptor, whoever has it. -/
def downloadsOn (fd : Nat) (evs : List ProxyEvent) : List Download := evs.filterMap (downloadOf fd)

theorem downloadsOn_snoc (fd : Nat) (evs : List ProxyEvent) (e : ProxyEvent) :
    downloadsOn fd (evs ++ [e]) = downloadsOn fd evs ++ (downloadOf fd e).toList := by
  unfold downloadsOn
  rw [List.filterMap_append]
  cases he : downloadOf fd e with
  | none => simp [he]
  | some d => simp [he]

/-- The estimate that downloads lead to; 100 is that of a new tracker. -/
def smoothedOver (alpha : ℚ) (downloads : List Download) : ℚ :=
  Smoothing.estimate alpha 100 (downloads.map Download.throughput)

theorem smoothedOver_append (alpha : ℚ) (old recent : List Download) :
    smoothedOver alpha (old ++ recent) =
      Smoothing.estimate alpha (smoothedOver alpha old) (recent.map Download.throughput) := by
  unfold smoothedOver
  rw [List.map_append, Smoothing.estimate_append]

/-! ## The estimates of a run -/

structure Adapted (alpha : ℚ) (evs : List ProxyEvent) (trackers : Trackers) : Prop where
  throughput : ∀ fd, (trackerOf fd trackers).throughput = smoothedOver alpha (downloadsOn fd evs)
  requested : ∀ pre sid fd estimate rate, pre ++ [.chunkRequest sid fd estimate rate] <+: evs →
    estimate = smoothedOver alpha (downloadsOn fd pre) ∧ rate = selectRate estimate

section Adapted
variable {alpha : ℚ} {evs : List ProxyEvent} {trackers trackers' : Trackers}

theorem Adapted.snoc (h : Adapted alpha evs trackers) {e : ProxyEvent}
    (hafter : ∀ fd, (trackerOf fd trackers').throughput =
      smoothedOver alpha (downloadsOn fd evs ++ (downloadOf fd e).toList))
    (hreq : ∀ sid fd estimate rate, e = .chunkRequest sid fd estimate rate →
      estimate = (trackerOf fd trackers).throughput ∧ rate = selectRate estimate) :
    Adapted alpha (evs ++ [e]) trackers' := by
  refine ⟨fun fd => ?_, fun pre sid fd estimate rate hpre => ?_⟩
  · rw [downloadsOn_snoc, hafter fd]
  · rcases List.prefix_concat_iff.mp hpre with heq | hpre
    · obtain ⟨rfl, he⟩ := List.append_inj' heq rfl
      obtain ⟨hest, hrate⟩ := hreq sid fd estimate rate (List.singleton_inj.mp he).symm
      exact ⟨hest.trans (h.throughput fd), hrate⟩
    · exact h.requested pre sid fd estimate rate hpre

theorem adapted_kept (alpha : ℚ) : KeptByTrackers alpha (Adapted alpha) where
  start := by
    refine ⟨fun fd => rfl, fun pre sid fd estimate rate hpre => ?_⟩
    exact absurd (List.prefix_nil.mp hpre) (by simp)
  other := by
    intro evs trackers e h he
    have hnone : ∀ fd, downloadOf fd e = none := by
      intro fd
      cases e <;> first | rfl | cases he
    refine h.snoc (fun fd => ?_) fun sid fd estimate rate heq => ?_
    · rw [hnone fd, Option.toList_none, List.append_nil]
      exact h.throughput fd
    · rw [heq] at he
      cases he
  request := by
    intro evs trackers t₁ t₂ file buffer buffer' fd sid h hcreate hupd
    refine h.snoc (fun fd' => ?_) ?_
    · rw [show downloadOf fd' (.chunkRequest sid fd _ _) = none from rfl,
        Option.toList_none, List.append_nil, updateBitrate_throughput hupd fd',
        createTracker_throughput hcreate fd']
      exact h.throughput fd'
    · intro sid' fd' estimate rate he
      cases he
      exact ⟨createTracker_throughput hcreate _, updateBitrate_bitrate hupd⟩
  response := by
    intro evs trackers t₁ log fd size ts tf sid h hupd
    refine h.snoc (fun fd' => ?_) nofun
    have hdownload : downloadOf fd' (.chunkResponse sid fd ⟨size, ts, tf⟩ log) =
        if fd = fd' then some ⟨size, ts, tf⟩ else none := rfl
    rw [updateThroughput_throughput hupd fd', h.throughput fd', hdownload]
    split
    · rw [Option.toList_some, smoothedOver_append]
      exact estTp_smooth alpha _ ⟨size, ts, tf⟩
    · rw [Option.toList_none, List.append_nil]

theorem adapted_run {openFds : Finset Nat} {serverSockfd : Nat} {turns : List Turn} {st : ProxyState}
    (h : Machine.run (iterate alpha serverSockfd) (.start openFds serverSockfd) turns =
      .ok (st, evs)) : Adapted alpha evs st.trackers := (adapted_kept alpha).run h

end Adapted

/-! ## Settling -/

/-- The same rate is chosen for all estimates between `a` and `b`. -/
def SteadyRate (a b : ℚ) (rate : Nat) : Prop := ∀ t, a < t → t < b → selectRate t = rate

/-- **Settling**: let the throughputs stay in an interval that is clear of the thresholds.  Then, from
some number of downloads on, every request for a chunk gets one and the same rate. -/
theorem rate_settles {alpha : ℚ} (h0 : 0 < alpha) (h1 : alpha ≤ 1) {a lo hi b : ℚ} (ha : a < lo)
    (hb : hi < b) {steady : Nat} (hsteady : SteadyRate a b steady) (old : List Download) :
    ∃ N, ∀ (openFds : Finset Nat) (serverSockfd : Nat) (turns : List Turn) (st : ProxyState)
      (evs : List ProxyEvent),
      Machine.run (iterate alpha serverSockfd) (.start openFds serverSockfd) turns = .ok (st, evs) →
      ∀ pre sid fd estimate rate recent, pre ++ [.chunkRequest sid fd estimate rate] <+: evs →
        downloadsOn fd pre = old ++ recent → N ≤ recent.length →
        (∀ d ∈ recent, lo ≤ d.throughput ∧ d.throughput ≤ hi) → rate = steady := by
  obtain ⟨N, hsettled⟩ := Smoothing.exists_settled h0 h1 ha hb (smoothedOver alpha old)
  refine ⟨N, fun openFds serverSockfd turns st evs hrun => ?_⟩
  intro pre sid fd estimate rate recent hpre hdownloads hlength hrecent
  obtain ⟨hestimate, hrate⟩ := (adapted_run hrun).requested pre sid fd estimate rate hpre
  rw [hdownloads, smoothedOver_append] at hestimate
  obtain ⟨habove, hbelow⟩ := hsettled (recent.map Download.throughput)
    (by rw [List.length_map]; exact hlength) (by
      intro m hm
      obtain ⟨d, hd, rfl⟩ := List.mem_map.mp hm
      exact hrecent d hd)
  rw [hrate, hestimate]
  exact hsteady _ habove hbelow

/-- There is no threshold between those of two rates that are next to each other in the table. -/
theorem steadyRate_table {rate next : Nat} (h : (rate, next) ∈ rateGet.zip rateGet.tail) :
    SteadyRate (rate * (3 / 2)) (next * (3 / 2)) rate := by
  have honly : ∀ p ∈ rateGet.zip rateGet.tail, 10 ≤ p.1 ∧ p.1 ∈ rateGet ∧
      ∀ r ∈ rateGet, p.1 ≤ r → r < p.2 → r = p.1 := by decide
  obtain ⟨hten, hlisted, honly⟩ := honly _ h
  intro t habove hbelow
  have hfair : (15 : ℚ) ≤ t := by
    have hcast : (10 : ℚ) ≤ rate := by exact_mod_cast hten
    linarith
  have hbest := (bestRate_selectRate_iff t).mpr hfair
  obtain ⟨hafford, hle⟩ := hbest.highest rate hlisted habove.le
  refine honly _ hbest.listed hle ?_
  unfold Affords at hafford
  have hlt : (selectRate t : ℚ) < next := by linarith
  exact_mod_cast hlt

/-- Throughputs between 20 and 100 lead to a rate of 10. -/
theorem rate_settles_slow : ∃ N, ∀ (openFds : Finset Nat) (serverSockfd : Nat) (turns : List Turn)
    (st : ProxyState) (evs : List ProxyEvent),
    Machine.run (iterate (1 / 2) serverSockfd) (.start openFds serverSockfd) turns = .ok (st, evs) →
    ∀ pre sid fd estimate rate recent, pre ++ [.chunkRequest sid fd estimate rate] <+: evs →
      downloadsOn fd pre = [] ++ recent → N ≤ recent.length →
      (∀ d ∈ recent, 20 ≤ d.throughput ∧ d.throughput ≤ 100) → rate = 10 := by
  have hsteady : SteadyRate ((10 : Nat) * (3 / 2)) ((100 : Nat) * (3 / 2)) 10 :=
    steadyRate_table (by decide)
  exact rate_settles (by norm_num) (by norm_num) (by norm_num) (by norm_num) hsteady []

end VideoCdn
