import VideoCdn.Lib.CString
import Mathlib.Data.Rat.Defs
import Mathlib.Algebra.Order.Ring.Unbundled.Rat

/-!
# Trackers and bitrates (`src/bitrate.c`)

* `ChunkTrackerList`, `Trackers` — an element of the list at `tracker_head`, keyed by the client
  descriptor of its session, and the list.
* `createTracker`, `updateBitrate`, `updateThroughput` — the three operations, with exact rationals
  for `double`.
* `trackerOf` — the tracker of a descriptor, or the one that `create_tracker` would make; each
  operation has a lemma that gives it afterwards, and one that says no other tracker changes.
-/

set_option autoImplicit false

namespace VideoCdn

open CLib

/-- An element of the tracker list; `chunks` are the file names of its chunk list, newest first. -/
structure ChunkTrackerList where
  clientFd : Nat
  chunks : List Bytes
  bitrate : Nat
  throughput : ℚ
  deriving DecidableEq, Repr

abbrev Trackers := List ChunkTrackerList

/-- What `create_tracker` makes for a descriptor that has no tracker. -/
def ChunkTrackerList.fresh (fd : Nat) : ChunkTrackerList := ⟨fd, [], 100, 100⟩

def searchSeg (fd : Nat) (trackers : Trackers) : Option ChunkTrackerList :=
  trackers.find? (fun node => node.clientFd == fd)

/-- Assignments through the pointer that `search_seg` returns. -/
def modifySeg (fd : Nat) (f : ChunkTrackerList → ChunkTrackerList) : Trackers → Trackers
  | [] => []
  | node :: trackers =>
    if node.clientFd = fd then f node :: trackers else node :: modifySeg fd f trackers

/-- `create_tracker`; `none` is its NULL, for a file that is no chunk.  Otherwise the tracker it
returns is the one that `search_seg` finds in the new list. -/
def createTracker (file : Bytes) (fd : Nat) (trackers : Trackers) : Option Trackers :=
  if (strstr (ascii "-Frag") file).isNone then none
  else
    let trackers := if (searchSeg fd trackers).isNone then .fresh fd :: trackers else trackers
    some (modifySeg fd (fun node => { node with chunks := file.take 48 :: node.chunks }) trackers)

/-! ## Choosing and writing the bitrate -/

def MAX_LENGTH : Nat := 8192

/-- A `char[MAX_LENGTH]` that was cleared before `text` was read into it. -/
def readBuffer (text : Bytes) : Bytes := text ++ List.replicate (MAX_LENGTH - text.length) 0

def rateGet : List Nat := [10, 100, 500, 1000]

/-- The choice in `update_bitrate`: from the highest rate down. -/
def selectRate (throughput : ℚ) : Nat :=
  (rateGet.reverse.find? (fun r : Nat => decide ((r : ℚ) * (3 / 2) ≤ throughput))).getD 100

/-- `while(*result != '/') result--`, from index `i`. -/
def scanBack (text : Bytes) : Nat → Checked Nat
  | 0 => if text[0]? = some 47 then .ok 0 else .error .outOfBounds
  | i + 1 => if text[i + 1]? = some 47 then .ok (i + 1) else scanBack text i

/-- `first`, the rate and `second`: the rate goes between the last slash in front of the first `Seg`
and that `Seg`. -/
def rewriteText (rate : Nat) (text : Bytes) : Checked Bytes :=
  match strstr (ascii "Seg") text with
  | none => .error .nullDeref
  | some result => do
    let slash ← scanBack text result
    return text.take (slash + 1) ++ decimal rate ++ text.drop result

/-- The `strcpy` and the two `strcat` calls that write it back. -/
def rewriteRequest (rate : Nat) (buffer : Bytes) : Checked Bytes := do
  let text ← rewriteText rate (cstr buffer)
  store buffer 0 (text ++ [0])

/-- The new file name of the chunk: `tmp` has room for 47 bytes and the NUL at which the `printf` behind
the copies stops. -/
def chunkName (text : Bytes) : Checked Bytes :=
  match strstr (ascii "HTTP/1.1") text with
  | none => .error .nullDeref
  | some http => do
    inBounds (5 ≤ http ∧ http - 5 < 48)
    return (text.drop 4).take (http - 5)

/-- `update_bitrate`: the buffer and the trackers afterwards. -/
def updateBitrate (buffer : Bytes) (fd : Nat) (trackers : Trackers) : Checked (Bytes × Trackers) :=
  match searchSeg fd trackers with
  | none => .error .nullDeref
  | some tl => do
    let rate := selectRate tl.throughput
    let buffer ← rewriteRequest rate buffer
    let file ← chunkName (cstr buffer)
    match tl.chunks with
    | [] => .error .nullDeref
    | _ :: chunks => return (buffer,
        modifySeg fd (fun node => { node with bitrate := rate, chunks := file :: chunks }) trackers)

theorem no_nul_rewriteText {rate : Nat} {text text' : Bytes} (h : rewriteText rate text = .ok text')
    (hn : (0 : UInt8) ∉ text) : (0 : UInt8) ∉ text' := by
  unfold rewriteText at h
  split at h
  · cases h
  · rw [bind_eq_ok] at h
    obtain ⟨slash, -, h⟩ := h
    cases h
    have hdigit : (0 : UInt8) ∉ decimal rate :=
      fun h0 => absurd (isDigit_of_mem_decimal h0) (by decide)
    simp only [List.mem_append, not_or]
    exact ⟨⟨fun h0 => hn (List.mem_of_mem_take h0), hdigit⟩, fun h0 => hn (List.mem_of_mem_drop h0)⟩

theorem scanBack_eq_ok {text : Bytes} {i slash : Nat} : scanBack text i = .ok slash ↔
    slash ≤ i ∧ text[slash]? = some 47 ∧ ∀ j, slash < j → j ≤ i → text[j]? ≠ some 47 := by
  induction i with
  | zero =>
    rw [scanBack]
    split
    · rename_i h0
      rw [Except.ok.injEq]
      constructor
      · rintro rfl
        exact ⟨Nat.le_refl 0, h0, fun j hj hle => absurd hle (by omega)⟩
      · rintro ⟨hle, -, -⟩
        omega
    · rename_i h0
      simp only [reduceCtorEq, false_iff, not_and]
      intro hle hslash
      obtain rfl : slash = 0 := by omega
      exact absurd hslash h0
  | succ i ih =>
    rw [scanBack]
    split
    · rename_i hi
      rw [Except.ok.injEq]
      constructor
      · rintro rfl
        exact ⟨Nat.le_refl _, hi, fun j hj hle => absurd hle (by omega)⟩
      · rintro ⟨hle, -, hno⟩
        by_contra hne
        exact hno (i + 1) (by omega) (Nat.le_refl _) hi
    · rename_i hi
      rw [ih]
      constructor
      · rintro ⟨hle, hslash, hno⟩
        refine ⟨by omega, hslash, fun j hj hle' => ?_⟩
        rcases Nat.lt_or_ge i j with hlt | hge
        · obtain rfl : j = i + 1 := by omega
          exact hi
        · exact hno j hj hge
      · rintro ⟨hle, hslash, hno⟩
        have hne : slash ≠ i + 1 := by
          rintro rfl
          exact hi hslash
        exact ⟨by omega, hslash, fun j hj hle' => hno j hj (by omega)⟩

/-- The `Seg` that is found is not a slash. -/
theorem strstr_seg_ne_slash {text : Bytes} {p : Nat} (h : strstr (ascii "Seg") text = some p) :
    text[p]? = some 83 := by
  obtain ⟨-, ⟨rest, hrest⟩, -⟩ := strstr_spec h
  have hget : (text.drop p)[0]? = text[p]? := by rw [List.getElem?_drop, Nat.add_zero]
  rw [← hget, ← hrest]
  rfl

/-- The scan stops in front of the `Seg` it starts from. -/
theorem scanBack_lt {text : Bytes} {result slash : Nat} (h : scanBack text result = .ok slash)
    (hseg : strstr (ascii "Seg") text = some result) : slash < result := by
  obtain ⟨hle, hslash, -⟩ := scanBack_eq_ok.mp h
  have hne : slash ≠ result := by
    rintro rfl
    rw [strstr_seg_ne_slash hseg] at hslash
    cases hslash
  omega

theorem length_readBuffer {text : Bytes} (h : text.length ≤ MAX_LENGTH) :
    (readBuffer text).length = MAX_LENGTH := by
  unfold readBuffer
  rw [List.length_append, List.length_replicate]
  omega

theorem cstr_readBuffer {text : Bytes} : cstr (readBuffer text) = cstr text := by
  unfold readBuffer cstr
  rw [List.takeWhile_append]
  split
  · rename_i h
    rw [List.IsPrefix.eq_of_length (List.takeWhile_prefix _) h, List.takeWhile_replicate]
    simp
  · rfl

/-- The buffer afterwards holds the new text, in front of what was there behind it. -/
theorem rewriteRequest_eq_ok {rate : Nat} {buffer buffer' : Bytes} :
    rewriteRequest rate buffer = .ok buffer' ↔ ∃ text, rewriteText rate (cstr buffer) = .ok text ∧
      text.length < buffer.length ∧ buffer' = text ++ 0 :: buffer.drop (text.length + 1) := by
  unfold rewriteRequest
  simp only [bind_eq_ok, store_eq_ok, List.length_append, List.length_singleton, Nat.zero_add,
    List.take_zero, List.nil_append, List.append_assoc, List.singleton_append]
  rfl

theorem cstr_rewriteRequest {rate : Nat} {buffer buffer' : Bytes}
    (h : rewriteRequest rate buffer = .ok buffer') :
    rewriteText rate (cstr buffer) = .ok (cstr buffer') := by
  unfold rewriteRequest at h
  rw [bind_eq_ok] at h
  obtain ⟨text, htext, hstore⟩ := h
  rw [htext, cstr_store hstore (no_nul_rewriteText htext (no_nul_cstr buffer))]

/-! ## Measuring the throughput -/

structure Timespec where
  sec : Int
  nsec : Int
  deriving DecidableEq, Repr

def BILLION : Int := 1000000000

/-- `est_tp`: the new estimate, and the throughput and duration it stores through its pointers. -/
def estTp (alpha currTp : ℚ) (ts tf : Timespec) (buckSize : Int) : ℚ × ℚ × ℚ :=
  let diff := (BILLION * (tf.sec - ts.sec) + tf.nsec - ts.nsec) % 18446744073709551616
  let tdiff : ℚ := (diff : ℚ) / 1000000000
  let newTp : ℚ := (buckSize : ℚ) * 8 / tdiff / 1024
  (newTp * alpha + currTp * (1 - alpha), newTp, tdiff)

/-- What `update_throughput` logs, next to the time and the server's address. -/
structure LogRecord where
  duration : ℚ
  throughput : ℚ
  estimate : ℚ
  bitrate : Nat
  file : Bytes
  deriving DecidableEq, Repr

/-- The element in front of the last one becomes the last; a single element stays. -/
def cutTail (chunks : List Bytes) : List Bytes :=
  if 2 ≤ chunks.length then chunks.dropLast else chunks

/-- `update_throughput`; `ts` is the start time in the session and `tf` the time of the call. -/
def updateThroughput (alpha : ℚ) (buckSize : Int) (fd : Nat) (ts tf : Timespec)
    (trackers : Trackers) : Checked (Trackers × LogRecord) :=
  match searchSeg fd trackers with
  | none => .error .nullDeref
  | some node =>
    match node.chunks.getLast? with
    | none => .error .nullDeref
    | some file =>
      let (est, throughput, duration) := estTp alpha node.throughput ts tf buckSize
      .ok (modifySeg fd
          (fun node => { node with throughput := est, chunks := cutTail node.chunks }) trackers,
        ⟨duration, throughput, est, node.bitrate, file⟩)

/-! ## One tracker at a time -/

/-- The tracker of the descriptor, or the one that would be made for it. -/
def trackerOf (fd : Nat) (trackers : Trackers) : ChunkTrackerList :=
  (searchSeg fd trackers).getD (.fresh fd)

section modifySeg
variable {fd : Nat} {f : ChunkTrackerList → ChunkTrackerList} {trackers : Trackers}

theorem searchSeg_cons (node : ChunkTrackerList) (trackers : Trackers) :
    searchSeg fd (node :: trackers) =
      if node.clientFd = fd then some node else searchSeg fd trackers := by
  unfold searchSeg
  by_cases h : node.clientFd = fd
  · rw [List.find?_cons_of_pos (by simpa using h), if_pos h]
  · rw [List.find?_cons_of_neg (by simpa using h), if_neg h]

theorem searchSeg_modifySeg (hf : ∀ node, (f node).clientFd = node.clientFd)
    {node : ChunkTrackerList} (h : searchSeg fd trackers = some node) :
    searchSeg fd (modifySeg fd f trackers) = some (f node) := by
  induction trackers with
  | nil => cases h
  | cons a trackers ih =>
    rw [searchSeg_cons] at h
    unfold modifySeg
    by_cases ha : a.clientFd = fd
    · rw [if_pos ha, Option.some.injEq] at h
      rw [if_pos ha, searchSeg_cons, if_pos (by rw [hf, ha]), h]
    · rw [if_neg ha] at h
      rw [if_neg ha, searchSeg_cons, if_neg ha, ih h]

theorem searchSeg_modifySeg_of_ne (hf : ∀ node, (f node).clientFd = node.clientFd) {fd' : Nat}
    (hne : fd' ≠ fd) : searchSeg fd' (modifySeg fd f trackers) = searchSeg fd' trackers := by
  induction trackers with
  | nil => rfl
  | cons a trackers ih =>
    unfold modifySeg
    by_cases ha : a.clientFd = fd
    · have hne' : fd ≠ fd' := fun h => hne h.symm
      rw [if_pos ha, searchSeg_cons, searchSeg_cons, hf, ha, if_neg hne', if_neg hne']
    · rw [if_neg ha, searchSeg_cons, searchSeg_cons, ih]

end modifySeg

/-- **`create_tracker`** puts the file in front of the chunks of the descriptor's tracker. -/
theorem createTracker_spec {file : Bytes} {fd : Nat} {trackers trackers' : Trackers}
    (h : createTracker file fd trackers = some trackers') :
    searchSeg fd trackers' = some { trackerOf fd trackers with
      chunks := file.take 48 :: (trackerOf fd trackers).chunks } ∧
    ∀ fd' ≠ fd, searchSeg fd' trackers' = searchSeg fd' trackers := by
  unfold createTracker at h
  split at h
  · cases h
  · rw [Option.some.injEq] at h
    subst h
    unfold trackerOf
    cases hs : searchSeg fd trackers with
    | none =>
      simp only [Option.isNone_none, if_true]
      refine ⟨searchSeg_modifySeg (fun _ => by rfl) ?_, fun fd' hne => ?_⟩
      · rw [searchSeg_cons]
        exact if_pos rfl
      · have hne' : fd ≠ fd' := fun h => hne h.symm
        rw [searchSeg_modifySeg_of_ne (fun _ => by rfl) hne, searchSeg_cons]
        exact if_neg hne'
    | some node =>
      simp only [Option.isNone_some, Bool.false_eq_true, if_false]
      exact ⟨searchSeg_modifySeg (fun _ => by rfl) hs,
        fun fd' hne => searchSeg_modifySeg_of_ne (fun _ => by rfl) hne⟩

theorem createTracker_of_frag {file : Bytes} (h : (strstr (ascii "-Frag") file).isNone = false)
    (fd : Nat) (trackers : Trackers) : ∃ trackers', createTracker file fd trackers = some trackers' := by
  unfold createTracker
  rw [h]
  exact ⟨_, rfl⟩

/-- **`update_bitrate`** writes the rate for the tracker's estimate into the request, and the
rewritten name into the newest chunk. -/
theorem updateBitrate_spec {buffer buffer' : Bytes} {fd : Nat} {trackers trackers' : Trackers}
    (h : updateBitrate buffer fd trackers = .ok (buffer', trackers')) :
    ∃ tl c chunks file, searchSeg fd trackers = some tl ∧ tl.chunks = c :: chunks ∧
      rewriteRequest (selectRate tl.throughput) buffer = .ok buffer' ∧
      chunkName (cstr buffer') = .ok file ∧
      searchSeg fd trackers' =
        some { tl with bitrate := selectRate tl.throughput, chunks := file :: chunks } ∧
      ∀ fd' ≠ fd, searchSeg fd' trackers' = searchSeg fd' trackers := by
  unfold updateBitrate at h
  split at h
  · cases h
  · rename_i tl hs
    simp only [bind_eq_ok] at h
    obtain ⟨buffer₁, hrw, file, hname, h⟩ := h
    split at h
    · cases h
    · rename_i c chunks hchunks
      cases h
      exact ⟨tl, c, chunks, file, hs, hchunks, hrw, hname, searchSeg_modifySeg (fun _ => by rfl) hs,
        fun fd' hne => searchSeg_modifySeg_of_ne (fun _ => by rfl) hne⟩

theorem exists_chunkName {text : Bytes} : (∃ file, chunkName text = .ok file) ↔
    ∃ http, strstr (ascii "HTTP/1.1") text = some http ∧ 5 ≤ http ∧ http ≤ 52 := by
  unfold chunkName
  cases strstr (ascii "HTTP/1.1") text with
  | none => simp
  | some http =>
    simp only [inBounds_bind_eq_ok, exists_and_left, Option.some.injEq, exists_eq_left', pure_eq_ok,
      Except.ok.injEq, exists_eq', and_true]
    omega

/-- A call of `update_bitrate` for a tracker with a chunk. -/
theorem updateBitrate_iff {buffer buffer' : Bytes} {fd : Nat} {trackers : Trackers}
    {tl : ChunkTrackerList} (hs : searchSeg fd trackers = some tl) (hchunks : tl.chunks ≠ []) :
    (∃ trackers', updateBitrate buffer fd trackers = .ok (buffer', trackers')) ↔
      rewriteRequest (selectRate tl.throughput) buffer = .ok buffer' ∧
        ∃ file, chunkName (cstr buffer') = .ok file := by
  obtain ⟨c, chunks, hcons⟩ := List.exists_cons_of_ne_nil hchunks
  constructor
  · rintro ⟨trackers', h⟩
    obtain ⟨tl', _, _, file, hs', -, hrewrite, hname, -⟩ := updateBitrate_spec h
    rw [hs, Option.some.injEq] at hs'
    subst hs'
    exact ⟨hrewrite, file, hname⟩
  · rintro ⟨hrewrite, file, hname⟩
    unfold updateBitrate
    rw [hs]
    dsimp only
    rw [hrewrite, ok_bind, hname, ok_bind, hcons]
    exact ⟨_, rfl⟩

/-- **`update_throughput`** moves the estimate and cuts the tail. -/
theorem updateThroughput_spec {alpha : ℚ} {buckSize : Int} {fd : Nat} {ts tf : Timespec}
    {trackers trackers' : Trackers} {log : LogRecord}
    (h : updateThroughput alpha buckSize fd ts tf trackers = .ok (trackers', log)) :
    ∃ node, searchSeg fd trackers = some node ∧ node.chunks.getLast? = some log.file ∧
      searchSeg fd trackers' = some { node with
        throughput := (estTp alpha node.throughput ts tf buckSize).1
        chunks := cutTail node.chunks } ∧
      ∀ fd' ≠ fd, searchSeg fd' trackers' = searchSeg fd' trackers := by
  unfold updateThroughput at h
  split at h
  · cases h
  · rename_i node hs
    split at h
    · cases h
    · rename_i file hlast
      cases h
      exact ⟨node, hs, hlast, searchSeg_modifySeg (fun _ => by rfl) hs,
        fun fd' hne => searchSeg_modifySeg_of_ne (fun _ => by rfl) hne⟩

end VideoCdn
