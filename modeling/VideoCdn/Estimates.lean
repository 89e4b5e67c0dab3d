import VideoCdn.Isolation
import VideoCdn.Lib.Smoothing
import Mathlib.Tactic.NormNum

/-!
# The estimates over a run (`est_tp` and `update_throughput` of `src/bitrate.c`)

* `elapsed` — the time of a download, computed in a `long` and stored in a `uint64_t`;
  `elapsed_eq_ok_iff`: it is the true number of nanoseconds as long as the `long` can hold it.
* `TrackerCall`, `trackerStep` — the calls that touch the trackers, in any order.
* `Tracked` — the invariant of a run: every estimate is the exponential smoothing of the rates
  measured for its descriptor, and every tracker has a chunk.
* `estimates_smoothed` — the closed form and the bounds of every estimate, and what the next
  measurement does.
* `duration_wraps` — a download of 585 years.
-/

set_option autoImplicit false

namespace VideoCdn

open CLib

/-! ## Elapsed time -/

def Timespec.nanos (t : Timespec) : Int := t.sec * 1000000000 + t.nsec

structure Timespec.Normalized (t : Timespec) : Prop where
  nonneg : 0 ≤ t.nsec
  lt : t.nsec < 1000000000

/-- The value of an expression of type `long`. -/
def toLong (x : Int) : Checked Int := do
  inBounds (-9223372036854775808 ≤ x ∧ x < 9223372036854775808)
  return x

theorem toLong_eq_ok {x y : Int} : toLong x = .ok y ↔
    (-9223372036854775808 ≤ x ∧ x < 9223372036854775808) ∧ x = y := by
  unfold toLong
  rw [inBounds_bind_eq_ok, pure_eq_ok, Except.ok.injEq]

/-- `diff` of `est_tp`, with every step of the expression in a `long`. -/
def elapsed (ts tf : Timespec) : Checked Int := do
  let sec ← toLong (tf.sec - ts.sec)
  let product ← toLong (BILLION * sec)
  let sum ← toLong (product + tf.nsec)
  let diff ← toLong (sum - ts.nsec)
  return diff % 18446744073709551616

/-- A download with normalized times whose end is after its start. -/
structure Elapses (ts tf : Timespec) : Prop where
  start : ts.Normalized
  stop : tf.Normalized
  later : ts.nanos < tf.nanos

/-- The end, counted from the second of the start, fits in a `long`: it is within 292 years. -/
def FitsLong (ts tf : Timespec) : Prop :=
  BILLION * (tf.sec - ts.sec) + tf.nsec < 9223372036854775808

/-- **The elapsed time** is exact iff the `long` holds it. -/
theorem elapsed_eq_ok_iff {ts tf : Timespec} (h : Elapses ts tf) :
    elapsed ts tf = .ok (tf.nanos - ts.nanos) ↔ FitsLong ts tf := by
  obtain ⟨⟨hs0, hs1⟩, ⟨hf0, hf1⟩, hlater⟩ := h
  unfold Timespec.nanos at hlater ⊢
  unfold elapsed FitsLong BILLION
  simp only [bind_eq_ok, toLong_eq_ok, pure_eq_ok, Except.ok.injEq]
  constructor
  · rintro ⟨_, ⟨-, rfl⟩, _, ⟨-, rfl⟩, _, ⟨⟨-, hlt⟩, rfl⟩, -⟩
    exact hlt
  · intro hlt
    refine ⟨_, ⟨by omega, rfl⟩, _, ⟨by omega, rfl⟩, _, ⟨by omega, rfl⟩, _, ⟨by omega, rfl⟩, ?_⟩
    omega

/-! ## Measured rates -/

/-- The seconds of a download. -/
def Download.seconds (d : Download) : ℚ := ((d.tf.nanos - d.ts.nanos : Int) : ℚ) / 1000000000

/-- The kilobits in a second. -/
def Download.rate (d : Download) : ℚ := 8 * d.size / d.seconds / 1024

/-- A download that `est_tp` can time. -/
structure Download.Timed (d : Download) : Prop where
  elapses : Elapses d.ts d.tf
  fits : FitsLong d.ts d.tf

/-- **`est_tp`** smooths the estimate with the true rate. -/
theorem estTp_timed {d : Download} (h : d.Timed) (alpha currTp : ℚ) :
    estTp alpha currTp d.ts d.tf d.size =
      (Smoothing.smooth alpha currTp d.rate, d.rate, d.seconds) := by
  have hdiff : (BILLION * (d.tf.sec - d.ts.sec) + d.tf.nsec - d.ts.nsec) % 18446744073709551616 =
      d.tf.nanos - d.ts.nanos := by
    obtain ⟨⟨⟨hs0, hs1⟩, ⟨hf0, hf1⟩, hlater⟩, hfits⟩ := h
    unfold Timespec.nanos at hlater ⊢
    unfold FitsLong BILLION at hfits
    unfold BILLION
    omega
  unfold estTp
  rw [hdiff]
  unfold Smoothing.smooth Download.rate Download.seconds
  rw [mul_comm (8 : ℚ)]

/-! ## Runs -/

/-- A call that reads or writes the trackers. -/
inductive TrackerCall where
  | create (file : Bytes) (fd : Nat)
  | choose (buffer : Bytes) (fd : Nat)
  | measure (fd : Nat) (download : Download)

def trackerStep (alpha : ℚ) (trackers : Trackers) :
    TrackerCall → Checked (Trackers × List LogRecord)
  | .create file fd => .ok ((createTracker file fd trackers).getD trackers, [])
  | .choose buffer fd => do
    let (_, trackers) ← updateBitrate buffer fd trackers
    return (trackers, [])
  | .measure fd d => do
    let (trackers, log) ← updateThroughput alpha d.size fd d.ts d.tf trackers
    return (trackers, [log])

/-- The rate that a call measures for a descriptor. -/
def TrackerCall.rateFor (fd : Nat) : TrackerCall → Option ℚ
  | .create .. => none
  | .choose .. => none
  | .measure fd' d => if fd' = fd then some d.rate else none

/-- The rates `m_1`, …, `m_k` of the downloads on a descriptor. -/
def measurements (fd : Nat) (calls : List TrackerCall) : List ℚ :=
  calls.filterMap (TrackerCall.rateFor fd)

/-- The measured downloads of the run can be timed. -/
def AllTimed (calls : List TrackerCall) : Prop := ∀ fd d, .measure fd d ∈ calls → d.Timed

theorem measurements_snoc (fd : Nat) (calls : List TrackerCall) (call : TrackerCall) :
    measurements fd (calls ++ [call]) = measurements fd calls ++ (call.rateFor fd).toList := by
  unfold measurements
  rw [List.filterMap_append]
  cases h : call.rateFor fd <;> simp [h]

/-- Every estimate is that of the measurements on its descriptor, and every tracker has a chunk. -/
structure Tracked (alpha : ℚ) (calls : List TrackerCall) (trackers : Trackers) : Prop where
  throughput : ∀ fd, (trackerOf fd trackers).throughput =
    Smoothing.estimate alpha 100 (measurements fd calls)
  chunks : ∀ fd tl, searchSeg fd trackers = some tl → tl.chunks ≠ []

section Tracked
variable {alpha : ℚ} {calls : List TrackerCall} {trackers trackers' : Trackers}

/-- A call that measures nothing leaves the estimates as they are. -/
theorem Tracked.unmeasured (h : Tracked alpha calls trackers) {call : TrackerCall}
    (hnone : ∀ fd, call.rateFor fd = none)
    (hsame : ∀ fd, (trackerOf fd trackers').throughput = (trackerOf fd trackers).throughput)
    (hchunks : ∀ fd tl, searchSeg fd trackers' = some tl → tl.chunks ≠ []) :
    Tracked alpha (calls ++ [call]) trackers' := by
  refine ⟨fun fd => ?_, hchunks⟩
  rw [hsame, h.throughput, measurements_snoc, hnone]
  simp

theorem Tracked.create (h : Tracked alpha calls trackers) (file : Bytes) (fd : Nat) :
    Tracked alpha (calls ++ [.create file fd]) ((createTracker file fd trackers).getD trackers) := by
  cases hcreate : createTracker file fd trackers with
  | none => exact h.unmeasured (fun _ => rfl) (fun _ => rfl) h.chunks
  | some trackers' =>
    refine h.unmeasured (fun _ => rfl) (createTracker_throughput hcreate) (fun fd' tl htl => ?_)
    obtain ⟨hown, hother⟩ := createTracker_spec hcreate
    by_cases hfd : fd' = fd
    · rw [hfd, Option.getD_some, hown, Option.some.injEq] at htl
      simp [← htl]
    · rw [Option.getD_some, hother fd' hfd] at htl
      exact h.chunks fd' tl htl

theorem Tracked.choose (h : Tracked alpha calls trackers) {buffer buffer' : Bytes} {fd : Nat}
    (hupd : updateBitrate buffer fd trackers = .ok (buffer', trackers')) :
    Tracked alpha (calls ++ [.choose buffer fd]) trackers' := by
  refine h.unmeasured (fun _ => rfl) (updateBitrate_throughput hupd) (fun fd' tl htl => ?_)
  obtain ⟨_, _, _, _, -, -, -, -, hown, hother⟩ := updateBitrate_spec hupd
  by_cases hfd : fd' = fd
  · rw [hfd, hown, Option.some.injEq] at htl
    simp [← htl]
  · rw [hother fd' hfd] at htl
    exact h.chunks fd' tl htl

theorem cutTail_ne_nil {chunks : List Bytes} (h : chunks ≠ []) : cutTail chunks ≠ [] := by
  unfold cutTail
  split
  · rename_i hlen
    have : chunks.dropLast.length = chunks.length - 1 := by simp
    exact List.ne_nil_of_length_pos (by omega)
  · exact h

theorem Tracked.measure (h : Tracked alpha calls trackers) {fd : Nat} {d : Download}
    (htimed : d.Timed) {log : LogRecord}
    (hupd : updateThroughput alpha d.size fd d.ts d.tf trackers = .ok (trackers', log)) :
    Tracked alpha (calls ++ [.measure fd d]) trackers' := by
  refine ⟨fun fd' => ?_, fun fd' tl htl => ?_⟩
  · rw [updateThroughput_throughput hupd, h.throughput, measurements_snoc, TrackerCall.rateFor]
    by_cases hfd : fd = fd'
    · rw [if_pos hfd, if_pos hfd, estTp_timed htimed, Smoothing.estimate_append]
      simp
    · rw [if_neg hfd, if_neg hfd]
      simp
  · obtain ⟨node, hs, hlast, hown, hother⟩ := updateThroughput_spec hupd
    by_cases hfd : fd' = fd
    · rw [hfd, hown, Option.some.injEq] at htl
      simpa [← htl] using cutTail_ne_nil (h.chunks fd node hs)
    · rw [hother fd' hfd] at htl
      exact h.chunks fd' tl htl

end Tracked

/-- **Every run** keeps the estimates. -/
theorem tracked_run {alpha : ℚ} {calls : List TrackerCall} {trackers : Trackers}
    {logs : List LogRecord} (hrun : Machine.run (trackerStep alpha) [] calls = .ok (trackers, logs))
    (htimed : AllTimed calls) : Tracked alpha calls trackers := by
  revert htimed
  refine Machine.run_history (P := fun calls _ trackers => AllTimed calls → Tracked alpha calls trackers)
    (fun _ => ⟨fun _ => rfl, fun _ _ htl => by cases htl⟩) ?_ hrun
  intro calls _ trackers call trackers' logs _ ih hstep htimed
  have h := ih fun fd d hmem => htimed fd d (List.mem_append_left _ hmem)
  cases call with
  | create file fd =>
    cases hstep
    exact h.create file fd
  | choose buffer fd =>
    simp only [trackerStep, bind_eq_ok] at hstep
    obtain ⟨⟨buffer', trackers'⟩, hupd, hstep⟩ := hstep
    cases hstep
    exact h.choose hupd
  | measure fd d =>
    simp only [trackerStep, bind_eq_ok] at hstep
    obtain ⟨⟨trackers', log⟩, hupd, hstep⟩ := hstep
    cases hstep
    exact h.measure (htimed fd d (by simp)) hupd

/-! ## The estimate of a tracker -/

/-- The estimate behind the measurements `ms`: each counts with a weight that decays with its age,
and the estimate is between the least and the greatest of 100 and the measurements. -/
structure Smoothed (alpha : ℚ) (ms : List ℚ) (estimate : ℚ) : Prop where
  closed : estimate = (1 - alpha) ^ ms.length * 100 +
    ∑ i : Fin ms.length, alpha * (1 - alpha) ^ (ms.length - 1 - i) * ms[i]
  above : ∃ lo ∈ 100 :: ms, lo ≤ estimate
  below : ∃ hi ∈ 100 :: ms, estimate ≤ hi

/-- One more measurement: it is exact, and no other tracker changes. -/
structure Measured (alpha : ℚ) (trackers : Trackers) (fd : Nat) (d : Download) : Prop where
  exact : elapsed d.ts d.tf = .ok (d.tf.nanos - d.ts.nanos)
  returns : ∃ trackers' log, updateThroughput alpha d.size fd d.ts d.tf trackers =
      .ok (trackers', log) ∧ log.duration = d.seconds ∧ log.throughput = d.rate ∧
    ∀ fd' ≠ fd, searchSeg fd' trackers' = searchSeg fd' trackers

theorem measured_of_chunks (alpha : ℚ) {trackers : Trackers} {fd : Nat} {tl : ChunkTrackerList}
    (hs : searchSeg fd trackers = some tl) (hchunks : tl.chunks ≠ []) {d : Download}
    (htimed : d.Timed) : Measured alpha trackers fd d := by
  refine ⟨(elapsed_eq_ok_iff htimed.elapses).mpr htimed.fits, ?_⟩
  have hupd : updateThroughput alpha d.size fd d.ts d.tf trackers = .ok
      (modifySeg fd (fun node => { node with
          throughput := Smoothing.smooth alpha tl.throughput d.rate
          chunks := cutTail node.chunks }) trackers,
        ⟨d.seconds, d.rate, Smoothing.smooth alpha tl.throughput d.rate, tl.bitrate,
          tl.chunks.getLast hchunks⟩) := by
    unfold updateThroughput
    rw [hs]
    dsimp only
    rw [List.getLast?_eq_getLast_of_ne_nil hchunks]
    dsimp only
    rw [estTp_timed htimed]
  obtain ⟨_, -, -, -, hother⟩ := updateThroughput_spec hupd
  exact ⟨_, _, hupd, rfl, rfl, hother⟩

/-- **The estimates**: in every run, that of every tracker is the smoothed one, and every further
download is measured exactly. -/
theorem estimates_smoothed {alpha : ℚ} (h0 : 0 ≤ alpha) (h1 : alpha ≤ 1) {calls : List TrackerCall}
    {trackers : Trackers} {logs : List LogRecord}
    (hrun : Machine.run (trackerStep alpha) [] calls = .ok (trackers, logs))
    (htimed : AllTimed calls) {fd : Nat} {tl : ChunkTrackerList}
    (hs : searchSeg fd trackers = some tl) :
    Smoothed alpha (measurements fd calls) tl.throughput ∧
      ∀ d : Download, d.Timed → Measured alpha trackers fd d := by
  have h := tracked_run hrun htimed
  have hest := h.throughput fd
  rw [trackerOf_of_searchSeg hs] at hest
  refine ⟨⟨?_, ?_, ?_⟩, fun d hd => measured_of_chunks alpha hs (h.chunks fd tl hs) hd⟩
  · rw [hest, Smoothing.estimate_eq]
  · rw [hest]
    exact Smoothing.exists_le_estimate h0 h1 100 _
  · rw [hest]
    exact Smoothing.exists_estimate_le h0 h1 100 _

/-- A download of 12800 bytes in a second whose nanoseconds wrap. -/
def wrapping : Download := ⟨12800, ⟨1, 600000000⟩, ⟨2, 600000000⟩⟩

/-- A chunk is requested and arrives: the estimate stays where it is. -/
theorem estimates_smoothed_chunk : Smoothed (1 / 2)
    (measurements 4 [.create (ascii "1-Frag1") 4, .measure 4 wrapping]) 100 := by
  have hrun : Machine.run (trackerStep (1 / 2)) []
      [.create (ascii "1-Frag1") 4, .measure 4 wrapping] =
        .ok ([⟨4, [ascii "1-Frag1"], 100, 100⟩], [⟨1, 100, 100, 100, ascii "1-Frag1"⟩]) := by
    decide +kernel
  have hs : searchSeg 4 [⟨4, [ascii "1-Frag1"], 100, 100⟩] =
      some ⟨4, [ascii "1-Frag1"], 100, 100⟩ := rfl
  refine (estimates_smoothed (by norm_num) (by norm_num) hrun (fun fd d hmem => ?_) hs).1
  simp only [List.mem_cons, TrackerCall.measure.injEq, reduceCtorEq, List.not_mem_nil, false_or,
    or_false] at hmem
  obtain ⟨rfl, rfl⟩ := hmem
  exact ⟨⟨⟨by decide, by decide⟩, ⟨by decide, by decide⟩, by decide⟩, by unfold FitsLong; decide⟩

/-- **585 years**: the `uint64_t` is too small for the nanoseconds. -/
theorem duration_wraps : ¬ ∀ (alpha currTp : ℚ) (d : Download), 0 ≤ d.size → Elapses d.ts d.tf →
    (estTp alpha currTp d.ts d.tf d.size).2.2 = d.seconds := by
  intro h
  have helapses : Elapses ⟨0, 0⟩ ⟨18446744074, 0⟩ :=
    ⟨⟨by decide, by decide⟩, ⟨by decide, by decide⟩, by decide⟩
  have hbad := h 0 0 ⟨0, ⟨0, 0⟩, ⟨18446744074, 0⟩⟩ (le_refl 0) helapses
  exact absurd hbad (by decide +kernel)

end VideoCdn
