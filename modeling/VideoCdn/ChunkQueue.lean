import VideoCdn.Bitrate
import VideoCdn.Lib.Machine

/-!
# The chunk list as a queue

Requests push at the head of a tracker's chunk list and completions take the tail off.

* `ChunkRequest`, `ChunkOp`, `chunkStep` — the operations on one client descriptor; a request carries
  the facts that make `update_bitrate` defined on it.
* `Queued` — what the list is for: the completions so far have logged the first names requested, and
  the list holds the others, newest first.
* `queued_iff` — over any sequence of operations, every completion leaves the list so iff at every
  completion at least two chunks are outstanding: `update_throughput` keeps a single element.
* `chunkQueue_keepsSingle` — one request and its completion.
-/

set_option autoImplicit false

namespace VideoCdn

open CLib

/-- A chunk request: its file name and its text, which `update_bitrate` can rewrite. -/
structure ChunkRequest where
  file : Bytes
  text : Bytes
  frag : (strstr (ascii "-Frag") file).isNone = false
  no_nul : (0 : UInt8) ∉ text
  fits : text.length < MAX_LENGTH
  rewritable : ∀ rate ∈ rateGet, ∃ text' file', rewriteText rate text = .ok text' ∧
    text'.length < MAX_LENGTH ∧ chunkName text' = .ok file'

theorem ChunkRequest.cstr_buffer (r : ChunkRequest) : cstr (readBuffer r.text) = r.text := by
  rw [cstr_readBuffer, cstr_of_no_nul r.no_nul]

inductive ChunkOp where
  | request (r : ChunkRequest)
  | complete (buckSize : Int) (ts tf : Timespec)

inductive ChunkEvent where
  | requested (file : Bytes)
  | logged (file : Bytes)
  deriving DecidableEq, Repr

/-- The calls made for one operation on the client descriptor `fd`. -/
def chunkStep (alpha : ℚ) (fd : Nat) (trackers : Trackers) : ChunkOp →
    Checked (Trackers × List ChunkEvent)
  | .request r =>
    match createTracker r.file fd trackers with
    | none => .ok (trackers, [])
    | some trackers => do
      let (buffer, trackers) ← updateBitrate (readBuffer r.text) fd trackers
      let file ← chunkName (cstr buffer)
      return (trackers, [.requested file])
  | .complete buckSize ts tf => do
    let (trackers, log) ← updateThroughput alpha buckSize fd ts tf trackers
    return (trackers, [.logged log.file])

def requestedNames (evs : List ChunkEvent) : List Bytes :=
  evs.filterMap fun | .requested file => some file | .logged _ => none

def loggedNames (evs : List ChunkEvent) : List Bytes :=
  evs.filterMap fun | .logged file => some file | .requested _ => none

def ChunkOp.isRequest : ChunkOp → Bool
  | .request _ => true
  | .complete .. => false

def requests (ops : List ChunkOp) : Nat := ops.countP ChunkOp.isRequest
def completions (ops : List ChunkOp) : Nat := ops.countP (fun op => !op.isRequest)

/-- No prefix has more completions than requests. -/
def Balanced (ops : List ChunkOp) : Prop := ∀ pre, pre <+: ops → completions pre ≤ requests pre

/-- The names logged are the first ones requested, and the list holds the others, newest first. -/
def Queued (fd : Nat) (trackers : Trackers) (evs : List ChunkEvent) : Prop :=
  loggedNames evs = (requestedNames evs).take (loggedNames evs).length ∧
  (trackerOf fd trackers).chunks = ((requestedNames evs).drop (loggedNames evs).length).reverse

/-- Every completion in the sequence leaves the list a queue. -/
def QueuedThroughout (alpha : ℚ) (fd : Nat) (trackers₀ : Trackers) (ops : List ChunkOp) : Prop :=
  ∀ pre buckSize ts tf, pre ++ [.complete buckSize ts tf] <+: ops → ∃ trackers evs,
    Machine.run (chunkStep alpha fd) trackers₀ (pre ++ [.complete buckSize ts tf]) =
      .ok (trackers, evs) ∧ Queued fd trackers evs

/-- At every completion at least two chunks are outstanding. -/
def TwoOutstanding (ops : List ChunkOp) : Prop :=
  ∀ pre buckSize ts tf, pre ++ [.complete buckSize ts tf] <+: ops →
    completions pre + 2 ≤ requests pre

/-! ## One operation -/

theorem selectRate_mem (t : ℚ) : selectRate t ∈ rateGet := by
  unfold selectRate
  cases h : rateGet.reverse.find? (fun r : Nat => decide ((r : ℚ) * (3 / 2) ≤ t)) with
  | none => decide
  | some r => exact List.mem_reverse.mp (List.mem_of_find?_eq_some h)

/-- A request is always served, and pushes its name. -/
theorem chunkStep_request (alpha : ℚ) (fd : Nat) (trackers : Trackers) (r : ChunkRequest) :
    ∃ trackers' file, chunkStep alpha fd trackers (.request r) =
        .ok (trackers', [.requested file]) ∧
      (trackerOf fd trackers').chunks = file :: (trackerOf fd trackers).chunks := by
  obtain ⟨trackers₁, h₁⟩ := createTracker_of_frag r.frag fd trackers
  obtain ⟨hs, -⟩ := createTracker_spec h₁
  generalize htl : ({ trackerOf fd trackers with
    chunks := r.file.take 48 :: (trackerOf fd trackers).chunks } : ChunkTrackerList) = tl at hs
  have hchunks : tl.chunks = r.file.take 48 :: (trackerOf fd trackers).chunks := by rw [← htl]
  obtain ⟨text, file, hrw, hfit, hname⟩ := r.rewritable _ (selectRate_mem tl.throughput)
  obtain ⟨buffer, hbuf⟩ : ∃ buffer, rewriteRequest (selectRate tl.throughput)
      (readBuffer r.text) = .ok buffer := by
    refine ⟨_, rewriteRequest_eq_ok.mpr ⟨text, by rw [r.cstr_buffer, hrw], ?_, rfl⟩⟩
    rw [length_readBuffer (Nat.le_of_lt r.fits)]
    exact hfit
  have hcstr : cstr buffer = text := by
    have := cstr_rewriteRequest hbuf
    rw [r.cstr_buffer, hrw, Except.ok.injEq] at this
    exact this.symm
  obtain ⟨trackers', hupd⟩ := (updateBitrate_iff hs (by rw [hchunks]; simp)).mpr
    ⟨hbuf, file, by rw [hcstr, hname]⟩
  refine ⟨trackers', file, ?_, ?_⟩
  · simp only [chunkStep, h₁]
    rw [hupd, ok_bind]
    dsimp only
    rw [hcstr, hname, ok_bind, pure_eq_ok]
  · obtain ⟨tl', c, chunks, file', hs', hchunks', -, hname', hs'', -⟩ := updateBitrate_spec hupd
    rw [hs, Option.some.injEq] at hs'
    subst hs'
    rw [hcstr, hname, Except.ok.injEq] at hname'
    rw [hchunks, List.cons.injEq] at hchunks'
    obtain ⟨-, rfl⟩ := hchunks'
    unfold trackerOf
    rw [hs'', hname']
    rfl

/-- A completion logs the tail and cuts it. -/
theorem chunkStep_complete (alpha : ℚ) {fd : Nat} {trackers : Trackers} {file : Bytes}
    (h : (trackerOf fd trackers).chunks.getLast? = some file) (buckSize : Int) (ts tf : Timespec) :
    ∃ trackers', chunkStep alpha fd trackers (.complete buckSize ts tf) =
        .ok (trackers', [.logged file]) ∧
      (trackerOf fd trackers').chunks = cutTail (trackerOf fd trackers).chunks := by
  unfold trackerOf at h
  cases hs : searchSeg fd trackers with
  | none =>
    rw [hs] at h
    cases h
  | some node =>
    rw [hs, Option.getD_some] at h
    obtain ⟨trackers', log, hupd, hlog⟩ : ∃ trackers' log,
        updateThroughput alpha buckSize fd ts tf trackers = .ok (trackers', log) ∧
          log.file = file := by
      unfold updateThroughput
      rw [hs]
      dsimp only
      rw [h]
      exact ⟨_, _, rfl, rfl⟩
    refine ⟨trackers', ?_, ?_⟩
    · simp only [chunkStep]
      rw [hupd, ok_bind, pure_eq_ok, hlog]
    · obtain ⟨node', hs', -, hs'', -⟩ := updateThroughput_spec hupd
      rw [hs, Option.some.injEq] at hs'
      subst hs'
      unfold trackerOf
      rw [hs'', hs]
      rfl

/-! ## Counting -/

theorem requestedNames_append (evs evs' : List ChunkEvent) :
    requestedNames (evs ++ evs') = requestedNames evs ++ requestedNames evs' :=
  List.filterMap_append

theorem loggedNames_append (evs evs' : List ChunkEvent) :
    loggedNames (evs ++ evs') = loggedNames evs ++ loggedNames evs' :=
  List.filterMap_append

theorem Balanced.of_append {ops ops' : List ChunkOp} (h : Balanced (ops ++ ops')) : Balanced ops :=
  fun _ hpre => h _ (hpre.trans (List.prefix_append ops ops'))

theorem QueuedThroughout.of_append {alpha : ℚ} {fd : Nat} {trackers₀ : Trackers}
    {ops ops' : List ChunkOp} (h : QueuedThroughout alpha fd trackers₀ (ops ++ ops')) :
    QueuedThroughout alpha fd trackers₀ ops :=
  fun pre buckSize ts tf hpre => h pre buckSize ts tf (hpre.trans (List.prefix_append ops ops'))

theorem TwoOutstanding.of_append {ops ops' : List ChunkOp} (h : TwoOutstanding (ops ++ ops')) :
    TwoOutstanding ops :=
  fun pre buckSize ts tf hpre => h pre buckSize ts tf (hpre.trans (List.prefix_append ops ops'))

/-- The state of a run: the list is a queue, and the events count the operations. -/
structure QueueInv (fd : Nat) (ops : List ChunkOp) (trackers : Trackers) (evs : List ChunkEvent) :
    Prop where
  queued : Queued fd trackers evs
  requested : (requestedNames evs).length = requests ops
  logged : (loggedNames evs).length = completions ops

theorem QueueInv.request (alpha : ℚ) {fd : Nat} {ops : List ChunkOp} {trackers : Trackers}
    {evs : List ChunkEvent} (hinv : QueueInv fd ops trackers evs)
    (hle : completions ops ≤ requests ops) (r : ChunkRequest) : ∃ trackers' evs',
      chunkStep alpha fd trackers (.request r) = .ok (trackers', evs') ∧
      QueueInv fd (ops ++ [.request r]) trackers' (evs ++ evs') := by
  obtain ⟨⟨hlog, hchunks⟩, hreq, hlogged⟩ := hinv
  obtain ⟨trackers', file, hstep, hpush⟩ := chunkStep_request alpha fd trackers r
  have hr : requestedNames (evs ++ [.requested file]) = requestedNames evs ++ [file] :=
    requestedNames_append _ _
  have hl : loggedNames (evs ++ [.requested file]) = loggedNames evs := by
    rw [loggedNames_append]
    exact List.append_nil _
  have hlen : (loggedNames evs).length ≤ (requestedNames evs).length := by omega
  refine ⟨trackers', _, hstep, ⟨⟨?_, ?_⟩, ?_, ?_⟩⟩
  · rw [hl, hr, List.take_append_of_le_length hlen]
    exact hlog
  · rw [hl, hr, List.drop_append_of_le_length hlen, List.reverse_append, hpush, hchunks]
    rfl
  · rw [hr, List.length_append, hreq]
    simp [requests, List.countP_append, ChunkOp.isRequest]
  · rw [hl, hlogged]
    simp [completions, List.countP_append, ChunkOp.isRequest]

/-- The tail is cut off unless it is the only chunk. -/
theorem cutTail_concat_eq_iff {chunks : List Bytes} {file : Bytes} :
    cutTail (chunks ++ [file]) = chunks ↔ 0 < chunks.length := by
  unfold cutTail
  rw [List.length_append, List.length_singleton]
  by_cases hpos : 2 ≤ chunks.length + 1
  · rw [if_pos hpos, List.dropLast_concat]
    exact ⟨fun _ => by omega, fun _ => rfl⟩
  · rw [if_neg hpos]
    refine ⟨fun hbad => ?_, fun hlt => by omega⟩
    have := congrArg List.length hbad
    simp at this

/-- A completion logs the right name; it leaves a queue iff the tail it cuts is not the only chunk. -/
theorem QueueInv.complete (alpha : ℚ) {fd : Nat} {ops : List ChunkOp} {trackers : Trackers}
    {evs : List ChunkEvent} (hinv : QueueInv fd ops trackers evs)
    (hlt : completions ops < requests ops) (buckSize : Int) (ts tf : Timespec) :
    ∃ trackers' evs', chunkStep alpha fd trackers (.complete buckSize ts tf) =
        .ok (trackers', evs') ∧
      (Queued fd trackers' (evs ++ evs') ↔ completions ops + 2 ≤ requests ops) ∧
      (Queued fd trackers' (evs ++ evs') →
        QueueInv fd (ops ++ [.complete buckSize ts tf]) trackers' (evs ++ evs')) := by
  obtain ⟨⟨hlog, hchunks⟩, hreq, hlogged⟩ := hinv
  -- the oldest outstanding chunk
  obtain ⟨file, rest, hrest⟩ : ∃ file rest,
      (requestedNames evs).drop (loggedNames evs).length = file :: rest := by
    refine List.exists_cons_of_ne_nil (fun hnil => ?_)
    rw [List.drop_eq_nil_iff] at hnil
    omega
  have hlenrest : rest.length + 1 = requests ops - completions ops := by
    have := congrArg List.length hrest
    rw [List.length_drop, List.length_cons] at this
    omega
  have hchunks' : (trackerOf fd trackers).chunks = rest.reverse ++ [file] := by
    rw [hchunks, hrest, List.reverse_cons]
  have hlast : (trackerOf fd trackers).chunks.getLast? = some file := by
    rw [hchunks', List.getLast?_concat]
  obtain ⟨trackers', hstep, hcut⟩ := chunkStep_complete alpha hlast buckSize ts tf
  have hr : requestedNames (evs ++ [.logged file]) = requestedNames evs := by
    rw [requestedNames_append]
    exact List.append_nil _
  have hl : loggedNames (evs ++ [.logged file]) = loggedNames evs ++ [file] :=
    loggedNames_append _ _
  have hdrop : (requestedNames evs).drop ((loggedNames evs).length + 1) = rest := by
    rw [← List.drop_drop, hrest]
    rfl
  have hnames : loggedNames evs ++ [file] =
      (requestedNames evs).take ((loggedNames evs).length + 1) := by
    rw [List.take_add_one, ← hlog, ← List.head?_drop, hrest]
    rfl
  have hiff : Queued fd trackers' (evs ++ [.logged file]) ↔
      completions ops + 2 ≤ requests ops := by
    unfold Queued
    rw [hr, hl, List.length_append, List.length_singleton, hdrop, hcut, hchunks']
    rw [cutTail_concat_eq_iff, List.length_reverse]
    exact ⟨fun hq => by omega, fun hge => ⟨hnames, by omega⟩⟩
  refine ⟨trackers', _, hstep, hiff, fun hq => ⟨hq, ?_, ?_⟩⟩
  · rw [hr, hreq]
    simp [requests, List.countP_append, ChunkOp.isRequest]
  · rw [hl, List.length_append, hlogged]
    simp [completions, List.countP_append, ChunkOp.isRequest]

/-! ## Every sequence of operations -/

theorem prefix_snoc {ops pre : List ChunkOp} {op : ChunkOp} (h : pre <+: ops ++ [op]) :
    pre <+: ops ∨ pre = ops ++ [op] :=
  (List.prefix_concat_iff.mp h).symm

theorem Balanced.nil : Balanced [] := by
  intro pre hpre
  rw [List.prefix_nil.mp hpre]
  exact Nat.le_refl _

theorem Balanced.snoc {ops : List ChunkOp} {op : ChunkOp} (h : Balanced ops)
    (hle : completions (ops ++ [op]) ≤ requests (ops ++ [op])) : Balanced (ops ++ [op]) := by
  intro pre hpre
  rcases prefix_snoc hpre with hpre | rfl
  · exact h pre hpre
  · exact hle

theorem TwoOutstanding.nil : TwoOutstanding [] :=
  fun _ _ _ _ hpre => absurd (List.prefix_nil.mp hpre) (by simp)

theorem TwoOutstanding.snoc_request {ops : List ChunkOp} (h : TwoOutstanding ops)
    (r : ChunkRequest) : TwoOutstanding (ops ++ [.request r]) := by
  intro pre buckSize ts tf hpre
  rcases prefix_snoc hpre with hpre | heq
  · exact h pre buckSize ts tf hpre
  · have := List.singleton_inj.mp (List.append_inj' heq rfl).2
    cases this

theorem TwoOutstanding.snoc_complete {ops : List ChunkOp} (h : TwoOutstanding ops)
    (hge : completions ops + 2 ≤ requests ops) (buckSize : Int) (ts tf : Timespec) :
    TwoOutstanding (ops ++ [.complete buckSize ts tf]) := by
  intro pre buckSize' ts' tf' hpre
  rcases prefix_snoc hpre with hpre | heq
  · exact h pre buckSize' ts' tf' hpre
  · rw [(List.append_inj' heq rfl).1]
    exact hge

/-- With two chunks outstanding at every completion, the list stays a queue. -/
theorem queueInv_of_twoOutstanding (alpha : ℚ) {fd : Nat} {trackers₀ : Trackers}
    (h₀ : searchSeg fd trackers₀ = none) {ops : List ChunkOp} (hbal : Balanced ops)
    (htwo : TwoOutstanding ops) : ∃ trackers evs,
      Machine.run (chunkStep alpha fd) trackers₀ ops = .ok (trackers, evs) ∧
      QueueInv fd ops trackers evs := by
  induction ops using List.reverseRecOn with
  | nil =>
    refine ⟨trackers₀, [], rfl, ⟨rfl, ?_⟩, rfl, rfl⟩
    unfold trackerOf
    rw [h₀]
    rfl
  | append_singleton ops op ih =>
    obtain ⟨trackers, evs, hrun, hinv⟩ := ih hbal.of_append htwo.of_append
    cases op with
    | request r =>
      obtain ⟨trackers', evs', hstep, hinv'⟩ :=
        hinv.request alpha (hbal ops (List.prefix_append _ _)) r
      exact ⟨trackers', _, Machine.run_snoc_eq_ok.mpr ⟨_, _, _, hrun, hstep, rfl⟩, hinv'⟩
    | complete buckSize ts tf =>
      have hge := htwo ops buckSize ts tf (List.prefix_refl _)
      obtain ⟨trackers', evs', hstep, hiff, hinv'⟩ :=
        hinv.complete alpha (by omega) buckSize ts tf
      exact ⟨trackers', _, Machine.run_snoc_eq_ok.mpr ⟨_, _, _, hrun, hstep, rfl⟩,
        hinv' (hiff.mpr hge)⟩

/-- The first completion with a single chunk outstanding breaks the queue. -/
theorem twoOutstanding_of_queued {alpha : ℚ} {fd : Nat} {trackers₀ : Trackers}
    (h₀ : searchSeg fd trackers₀ = none) {ops : List ChunkOp} (hbal : Balanced ops)
    (hq : QueuedThroughout alpha fd trackers₀ ops) : TwoOutstanding ops := by
  induction ops using List.reverseRecOn with
  | nil => exact TwoOutstanding.nil
  | append_singleton ops op ih =>
    have htwo := ih hbal.of_append hq.of_append
    intro pre buckSize ts tf hpre
    rcases prefix_snoc hpre with hpre | heq
    · exact htwo pre buckSize ts tf hpre
    · obtain ⟨rfl, hop⟩ := List.append_inj' heq rfl
      obtain rfl := List.singleton_inj.mp hop
      obtain ⟨trackers, evs, hrun, hinv⟩ :=
        queueInv_of_twoOutstanding alpha h₀ hbal.of_append htwo
      have hlt : completions pre < requests pre := by
        have := hbal _ (List.prefix_refl _)
        simp only [completions, requests, List.countP_append, List.countP_singleton,
          ChunkOp.isRequest] at this ⊢
        exact Nat.lt_of_succ_le (by simpa using this)
      obtain ⟨trackers', evs', hstep, hiff, -⟩ :=
        hinv.complete alpha hlt buckSize ts tf
      obtain ⟨trackers'', evs'', hrun', hqueued⟩ := hq pre buckSize ts tf (List.prefix_refl _)
      rw [Machine.run_snoc_eq_ok.mpr ⟨_, _, _, hrun, hstep, rfl⟩] at hrun'
      cases hrun'
      exact hiff.mp hqueued

/-- **The exact condition**: every completion logs the chunk requested longest ago and leaves the
outstanding chunks, newest first, iff at every completion at least two are outstanding. -/
theorem queued_iff (alpha : ℚ) {fd : Nat} {trackers₀ : Trackers}
    (h₀ : searchSeg fd trackers₀ = none) {ops : List ChunkOp} (hbal : Balanced ops) :
    QueuedThroughout alpha fd trackers₀ ops ↔ TwoOutstanding ops := by
  refine ⟨twoOutstanding_of_queued h₀ hbal, fun htwo pre buckSize ts tf hpre => ?_⟩
  obtain ⟨post, rfl⟩ := hpre
  obtain ⟨trackers, evs, hrun, hinv⟩ :=
    queueInv_of_twoOutstanding alpha h₀ hbal.of_append htwo.of_append
  exact ⟨trackers, evs, hrun, hinv.queued⟩

/-! ## A single chunk -/

def fragText : Bytes := ascii "GET /vod/1000Seg1-Frag1 HTTP/1.1\r\n\r\n"

theorem fragText_rewritable : ∀ rate ∈ rateGet, ∃ text' file', rewriteText rate fragText = .ok text' ∧
    text'.length < MAX_LENGTH ∧ chunkName text' = .ok file' := by
  simp only [rateGet, List.forall_mem_cons, List.not_mem_nil, false_imp_iff, implies_true, and_true]
  refine ⟨⟨_, _, rfl, ?_, rfl⟩, ⟨_, _, rfl, ?_, rfl⟩, ⟨_, _, rfl, ?_, rfl⟩, ⟨_, _, rfl, ?_, rfl⟩⟩ <;>
    decide

def frag1 : ChunkRequest where
  file := ascii "/vod/1000Seg1-Frag1"
  text := fragText
  frag := by decide
  no_nul := by decide
  fits := by decide
  rewritable := fragText_rewritable

/-- A completion of 1024 bytes in one second. -/
def oneSecond : ChunkOp := .complete 1024 ⟨0, 0⟩ ⟨1, 0⟩

theorem queued_iff_twoRequests :
    QueuedThroughout (1 / 2) 4 [] [.request frag1, .request frag1, oneSecond] := by
  have hbal : Balanced ([.request frag1] ++ [.request frag1] ++ [oneSecond]) :=
    ((Balanced.nil.snoc (by decide)).snoc (by decide)).snoc (by decide)
  refine (queued_iff (1 / 2) rfl hbal).mpr ?_
  exact ((TwoOutstanding.nil.snoc_request frag1).snoc_request frag1).snoc_complete (by decide) _ _ _

/-- **One request and its completion**: the completed chunk stays in the list. -/
theorem chunkQueue_keepsSingle : ¬ ∀ (alpha : ℚ) (fd : Nat) (trackers₀ : Trackers)
    (ops : List ChunkOp), searchSeg fd trackers₀ = none → Balanced ops →
    QueuedThroughout alpha fd trackers₀ ops := by
  intro h
  have hbal : Balanced ([.request frag1] ++ [oneSecond]) :=
    (Balanced.nil.snoc (by decide)).snoc (by decide)
  obtain ⟨trackers, evs, hrun, -, hchunks⟩ :=
    h (1 / 2) 4 [] _ rfl hbal [.request frag1] 1024 ⟨0, 0⟩ ⟨1, 0⟩ (List.prefix_refl _)
  have heval : (Machine.run (chunkStep (1 / 2) 4) [] [.request frag1, oneSecond]).map
      (fun r => ((trackerOf 4 r.1).chunks, requestedNames r.2, loggedNames r.2)) =
      .ok ([ascii "/vod/10Seg1-Frag1"], [ascii "/vod/10Seg1-Frag1"],
        [ascii "/vod/10Seg1-Frag1"]) := by decide +kernel
  change Machine.run (chunkStep (1 / 2) 4) [] [.request frag1, oneSecond] = _ at hrun
  rw [hrun] at heval
  simp only [Except.map, Except.ok.injEq, Prod.mk.injEq] at heval
  obtain ⟨hlist, hreq, hlog⟩ := heval
  rw [hlist, hreq, hlog] at hchunks
  exact absurd hchunks (by decide)

end VideoCdn
