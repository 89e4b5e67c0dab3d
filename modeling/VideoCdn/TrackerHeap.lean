import VideoCdn.Bitrate
import VideoCdn.Lib.LinkedList

/-!
# The trackers on the heap (`create_tracker`, `search_seg`, `update_throughput` of `src/bitrate.c`)

The list at `tracker_head` with its pointers: an element points to its session and to a list of chunks.

* `TrackerStore` — the elements and the chunks allocated so far, and `tracker_head`.
* `TrackerStore.searchSeg`, `TrackerStore.createTracker`, `TrackerStore.updateThroughput` — the three
  functions, through the pointers.
* `Represents` — the lists that the pointers form: every descriptor has one element, and no two chunk
  lists share a chunk.
* `Represents.searchSeg`, `Represents.createTracker`, `Represents.updateThroughput` — **the calls** on such
  lists; they refine the functions on `Trackers`.
* `TrackerCalls`, `trackerCalls_keep` — after any calls, the lists are such and every next call keeps
  them so.
-/

set_option autoImplicit false

namespace VideoCdn

open CLib LinkedList

/-- `chunk_tracker_list_t`, without its `next`; `ps` points to the session of the node. -/
structure TrackerNode (σ : Type) where
  ps : σ
  chunks : Option Nat
  bitrate : Nat
  throughput : ℚ

structure TrackerStore (σ : Type) where
  lists : Cells (TrackerNode σ)
  files : Cells Bytes
  head : Option Nat

variable {σ : Type}

namespace TrackerStore

def empty : TrackerStore σ := ⟨[], [], none⟩

section calls
variable (clientFd : σ → Nat)

/-- `search_seg`; `clientFd` is `client_fd` of a session. -/
def searchSeg (pl : σ) (st : TrackerStore σ) : Checked (Option Nat) :=
  seek st.lists (fun node => clientFd node.ps == clientFd pl) st.lists.length st.head

/-- A new element at `tracker_head`. -/
def addTracker (node : σ) (st : TrackerStore σ) : TrackerStore σ where
  lists := st.lists ++ [⟨⟨node, none, 100, 100⟩, st.head⟩]
  files := st.files
  head := some st.lists.length

/-- A new chunk in front of the list of the element at `p`, be that empty or not. -/
def pushChunk (file : Bytes) (p : Nat) (st : TrackerStore σ) : Checked (TrackerStore σ) := do
  let c ← load st.lists p
  return { st with
    lists := st.lists.set p { c with val := { c.val with chunks := some st.files.length } }
    files := st.files ++ [⟨file.take 48, c.val.chunks⟩] }

/-- `create_tracker`, with its result. -/
def createTracker (file : Bytes) (node : σ) (st : TrackerStore σ) :
    Checked (TrackerStore σ × Option Nat) :=
  if (strstr (ascii "-Frag") file).isNone then .ok (st, none)
  else do
    let found ← st.searchSeg clientFd node
    match found with
    | none => do
      let st' ← (st.addTracker node).pushChunk file st.lists.length
      return (st', some st.lists.length)
    | some p => do
      let st' ← st.pushChunk file p
      return (st', some p)

/-- `if (tmp_tracker != NULL) tmp_tracker->next = NULL`. -/
def cutAt (files : Cells Bytes) : Option Nat → Checked (Cells Bytes)
  | none => .ok files
  | some p => do
    let c ← load files p
    return files.set p { c with next := none }

/-- `update_throughput`, with what it logs; `tracker_list->chunks` is not tested. -/
def updateThroughput (alpha : ℚ) (buckSize : Int) (node : σ) (ts tf : Timespec)
    (st : TrackerStore σ) : Checked (TrackerStore σ × LogRecord) := do
  let found ← st.searchSeg clientFd node
  match found with
  | none => .error .nullDeref
  | some p => do
    let c ← load st.lists p
    match c.val.chunks with
    | none => .error .nullDeref
    | some chunks => do
      let (tmpTracker, tracker) ← lastTwo st.files st.files.length none chunks
      let (est, throughput, duration) := estTp alpha c.val.throughput ts tf buckSize
      let files ← cutAt st.files tmpTracker
      let file ← load files tracker
      return ({ st with
        lists := st.lists.set p { c with val := { c.val with throughput := est } }
        files := files }, ⟨duration, throughput, est, c.val.bitrate, file.val⟩)

end calls

end TrackerStore

/-! ## The lists that the pointers form -/

/-- An element with its address, and its chunks. -/
structure TrackerShape (σ : Type) where
  addr : Nat
  node : TrackerNode σ
  cells : List (Nat × Bytes)

namespace TrackerShape

/-- The address and value of the element. -/
def cell (s : TrackerShape σ) : Nat × TrackerNode σ := (s.addr, s.node)

/-- The descriptor of its session. -/
def owner (clientFd : σ → Nat) (s : TrackerShape σ) : Nat := clientFd s.node.ps

/-- What it stands for. -/
def tracker (clientFd : σ → Nat) (s : TrackerShape σ) : ChunkTrackerList where
  clientFd := s.owner clientFd
  chunks := s.cells.map Prod.snd
  bitrate := s.node.bitrate
  throughput := s.node.throughput

/-- With a new chunk. -/
def push (s : TrackerShape σ) (p : Nat) (file : Bytes) : TrackerShape σ where
  addr := s.addr
  node := { s.node with chunks := some p }
  cells := (p, file.take 48) :: s.cells

/-- With a new estimate; the last chunk is cut off, unless it is the only one. -/
def measured (s : TrackerShape σ) (est : ℚ) : TrackerShape σ where
  addr := s.addr
  node := { s.node with throughput := est }
  cells := if 2 ≤ s.cells.length then s.cells.dropLast else s.cells

end TrackerShape

/-- The pointers form these lists: each ends, no two share a chunk, and no two elements belong to one
descriptor. -/
structure Represents (clientFd : σ → Nat) (st : TrackerStore σ) (shape : List (TrackerShape σ)) :
    Prop where
  lists : Chain st.lists st.head (shape.map TrackerShape.cell)
  files : ∀ s ∈ shape, Chain st.files s.node.chunks s.cells
  apart : (shape.flatMap fun s => addresses s.cells).Nodup
  owners : (shape.map (TrackerShape.owner clientFd)).Nodup

/-- And every element has a chunk. -/
structure WellKept (clientFd : σ → Nat) (st : TrackerStore σ) (shape : List (TrackerShape σ)) :
    Prop extends Represents clientFd st shape where
  nonempty : ∀ s ∈ shape, s.cells ≠ []

/-- What a call for the descriptor `fd` may do: nothing; change its element; add one for it at the
head. -/
inductive CallEffect (clientFd : σ → Nat) (fd : Nat) :
    List (TrackerShape σ) → List (TrackerShape σ) → Prop where
  | unchanged (shape : List (TrackerShape σ)) : CallEffect clientFd fd shape shape
  | changed (pre post : List (TrackerShape σ)) (s s' : TrackerShape σ) : s.owner clientFd = fd →
      s'.addr = s.addr → s'.node.ps = s.node.ps →
      CallEffect clientFd fd (pre ++ s :: post) (pre ++ s' :: post)
  | added (s : TrackerShape σ) (shape : List (TrackerShape σ)) : s.owner clientFd = fd →
      (∀ t ∈ shape, t.owner clientFd ≠ fd) → CallEffect clientFd fd shape (s :: shape)

section represented
variable {clientFd : σ → Nat} {st : TrackerStore σ} {shape pre post : List (TrackerShape σ)}
  {s : TrackerShape σ}

/-! ## `search_seg` -/

/-- **`search_seg`** finds the element of the descriptor. -/
theorem Represents.searchSeg (h : Represents clientFd st shape) (pl : σ) :
    st.searchSeg clientFd pl = .ok
      ((shape.find? (fun s => s.owner clientFd == clientFd pl)).map TrackerShape.addr) := by
  unfold TrackerStore.searchSeg
  rw [seek_chain _ h.lists h.lists.length_le, List.find?_map, Option.map_map]
  rfl

/-- There is one. -/
theorem Represents.split (h : Represents clientFd st shape) {fd : Nat} (hs : s ∈ shape)
    (hfd : s.owner clientFd = fd) : ∃ pre post, shape = pre ++ s :: post ∧
      (∀ t ∈ pre, t.owner clientFd ≠ fd) ∧ ∀ t ∈ post, t.owner clientFd ≠ fd := by
  obtain ⟨pre, post, rfl⟩ := List.mem_iff_append.mp hs
  have howners := h.owners
  rw [List.map_append, List.map_cons, List.nodup_append, List.nodup_cons] at howners
  obtain ⟨-, ⟨hpost, -⟩, hpre⟩ := howners
  refine ⟨pre, post, rfl, ?_, ?_⟩
  · intro t ht heq
    have hmem : t.owner clientFd ∈ pre.map (TrackerShape.owner clientFd) := List.mem_map_of_mem ht
    exact hpre _ hmem _ List.mem_cons_self (heq.trans hfd.symm)
  · intro t ht heq
    apply hpost
    rw [hfd, ← heq]
    exact List.mem_map_of_mem ht

theorem Represents.searchSeg_eq_some (h : Represents clientFd st shape) {pl : σ} {p : Nat} :
    st.searchSeg clientFd pl = .ok (some p) ↔
      ∃ s ∈ shape, s.owner clientFd = clientFd pl ∧ s.addr = p := by
  rw [h.searchSeg, Except.ok.injEq, Option.map_eq_some_iff]
  constructor
  · rintro ⟨s, hfind, rfl⟩
    have howner := List.find?_some hfind
    exact ⟨s, List.mem_of_find?_eq_some hfind, by simpa using howner, rfl⟩
  · rintro ⟨s, hs, howner, rfl⟩
    obtain ⟨pre, post, rfl, hpre, -⟩ := h.split hs howner
    refine ⟨s, ?_, rfl⟩
    rw [List.find?_append, List.find?_eq_none.mpr (by simpa using hpre), List.find?_cons]
    simp [howner]

theorem Represents.searchSeg_eq_none (h : Represents clientFd st shape) {pl : σ} :
    st.searchSeg clientFd pl = .ok none ↔ ∀ s ∈ shape, s.owner clientFd ≠ clientFd pl := by
  rw [h.searchSeg, Except.ok.injEq, Option.map_eq_none_iff, List.find?_eq_none]
  simp

/-! ## `create_tracker` -/

/-- What an assignment to the element of `s` may do to it. -/
theorem Represents.set_node (h : Represents clientFd st (pre ++ s :: post)) :
    ∃ next, st.lists[s.addr]? = some ⟨s.node, next⟩ ∧ ∀ node cells,
      Chain (st.lists.set s.addr ⟨node, next⟩) st.head
        ((pre ++ ⟨s.addr, node, cells⟩ :: post).map TrackerShape.cell) := by
  have hlists := h.lists
  rw [List.map_append, List.map_cons] at hlists
  obtain ⟨next, hget, -⟩ := hlists.suffix
  refine ⟨next, hget, fun node cells => ?_⟩
  rw [List.map_append, List.map_cons]
  exact hlists.set_val hget node

theorem Represents.pushChunk (h : Represents clientFd st (pre ++ s :: post)) (file : Bytes) :
    ∃ st', st.pushChunk file s.addr = .ok st' ∧
      Represents clientFd st' (pre ++ s.push st.files.length file :: post) := by
  obtain ⟨next, hget, hset⟩ := h.set_node
  refine ⟨_, by unfold TrackerStore.pushChunk; rw [load_eq_ok.mpr hget]; rfl, ?_, ?_, ?_, ?_⟩
  · exact hset _ _
  · intro t ht
    simp only [List.mem_append, List.mem_cons] at ht
    rcases ht with ht | rfl | ht
    · exact (h.files t (by simp [ht])).malloc _
    · exact (h.files s (by simp)).push _
    · exact (h.files t (by simp [ht])).malloc _
  · have hfresh : st.files.length ∉ (pre ++ s :: post).flatMap (fun s => addresses s.cells) := by
      intro hmem
      obtain ⟨t, ht, hcell⟩ := List.mem_flatMap.mp hmem
      exact absurd ((h.files t ht).lt hcell) (Nat.lt_irrefl _)
    have hnodup := List.nodup_cons.mpr ⟨hfresh, h.apart⟩
    rw [List.flatMap_append, List.flatMap_cons] at hnodup ⊢
    exact (List.perm_middle.nodup_iff).mpr hnodup
  · have howners := h.owners
    rw [List.map_append, List.map_cons] at howners ⊢
    exact howners

theorem Represents.addTracker (h : Represents clientFd st shape) {node : σ}
    (hno : ∀ t ∈ shape, t.owner clientFd ≠ clientFd node) :
    Represents clientFd (st.addTracker node) (⟨st.lists.length, ⟨node, none, 100, 100⟩, []⟩ :: shape) := by
  constructor
  · exact h.lists.push _
  · intro t ht
    rcases List.mem_cons.mp ht with rfl | ht
    · exact .nil
    · exact h.files t ht
  · rw [List.flatMap_cons]
    exact h.apart
  · rw [List.map_cons, List.nodup_cons]
    refine ⟨?_, h.owners⟩
    intro hmem
    obtain ⟨t, ht, heq⟩ := List.mem_map.mp hmem
    exact hno t ht heq

/-- The element of a descriptor in the list that the elements stand for. -/
theorem searchSeg_tracker {fd : Nat} (hpre : ∀ t ∈ pre, t.owner clientFd ≠ fd)
    (hs : s.owner clientFd = fd) :
    searchSeg fd ((pre ++ s :: post).map (TrackerShape.tracker clientFd)) =
      some (s.tracker clientFd) := by
  induction pre with
  | nil =>
    rw [List.nil_append, List.map_cons, searchSeg_cons]
    exact if_pos hs
  | cons t pre ih =>
    obtain ⟨ht, hpre⟩ := List.forall_mem_cons.mp hpre
    rw [List.cons_append, List.map_cons, searchSeg_cons]
    exact (if_neg ht).trans (ih hpre)

theorem modifySeg_tracker {fd : Nat} (hpre : ∀ t ∈ pre, t.owner clientFd ≠ fd)
    (hs : s.owner clientFd = fd) (f : ChunkTrackerList → ChunkTrackerList) :
    modifySeg fd f ((pre ++ s :: post).map (TrackerShape.tracker clientFd)) =
      pre.map (TrackerShape.tracker clientFd) ++ f (s.tracker clientFd) ::
        post.map (TrackerShape.tracker clientFd) := by
  induction pre with
  | nil =>
    rw [List.nil_append, List.map_cons, modifySeg]
    exact if_pos hs
  | cons t pre ih =>
    obtain ⟨ht, hpre⟩ := List.forall_mem_cons.mp hpre
    rw [List.cons_append, List.map_cons, modifySeg]
    exact (if_neg ht).trans (congrArg _ (ih hpre))

theorem searchSeg_tracker_eq_none {fd : Nat} (h : ∀ t ∈ shape, t.owner clientFd ≠ fd) :
    searchSeg fd (shape.map (TrackerShape.tracker clientFd)) = none := by
  unfold searchSeg
  rw [List.find?_map, Option.map_eq_none_iff, List.find?_eq_none]
  intro t ht heq
  exact h t ht (beq_iff_eq.mp heq)

/-- A chunk of a descriptor that has an element goes to the head of its chunks. -/
theorem WellKept.createTracker_owned (h : WellKept clientFd st shape) {file : Bytes} {node : σ}
    (hfrag : (strstr (ascii "-Frag") file).isNone = false)
    (hown : ∃ s ∈ shape, s.owner clientFd = clientFd node) :
    ∃ st' r shape', st.createTracker clientFd file node = .ok (st', r) ∧
      WellKept clientFd st' shape' ∧ CallEffect clientFd (clientFd node) shape shape' ∧
      createTracker file (clientFd node) (shape.map (TrackerShape.tracker clientFd)) =
        some (shape'.map (TrackerShape.tracker clientFd)) := by
  obtain ⟨s, hs, howner⟩ := hown
  obtain ⟨pre, post, rfl, hpre, -⟩ := h.split hs howner
  have hseek := h.searchSeg_eq_some.mpr ⟨s, hs, howner, rfl⟩
  obtain ⟨st', hpush, hst'⟩ := h.pushChunk file
  refine ⟨st', some s.addr, _, ?_, ⟨hst', ?_⟩, .changed pre post s _ howner rfl rfl, ?_⟩
  · unfold TrackerStore.createTracker
    rw [hfrag, if_neg Bool.false_ne_true, hseek, ok_bind]
    dsimp only
    rw [hpush]
    rfl
  · intro t ht
    simp only [List.mem_append, List.mem_cons] at ht
    rcases ht with ht | rfl | ht
    · exact h.nonempty t (by simp [ht])
    · exact List.cons_ne_nil _ _
    · exact h.nonempty t (by simp [ht])
  · unfold VideoCdn.createTracker
    rw [hfrag, if_neg Bool.false_ne_true, searchSeg_tracker hpre howner]
    simp only [Option.isNone_some, Bool.false_eq_true, if_false]
    rw [modifySeg_tracker hpre howner, List.map_append, List.map_cons]
    rfl

/-- A descriptor that has none gets one at the head of the list. -/
theorem WellKept.createTracker_new (h : WellKept clientFd st shape) {file : Bytes} {node : σ}
    (hfrag : (strstr (ascii "-Frag") file).isNone = false)
    (hno : ∀ t ∈ shape, t.owner clientFd ≠ clientFd node) :
    ∃ st' r shape', st.createTracker clientFd file node = .ok (st', r) ∧
      WellKept clientFd st' shape' ∧ CallEffect clientFd (clientFd node) shape shape' ∧
      createTracker file (clientFd node) (shape.map (TrackerShape.tracker clientFd)) =
        some (shape'.map (TrackerShape.tracker clientFd)) := by
  have hseek := h.searchSeg_eq_none.mpr hno
  have hadd : Represents clientFd (st.addTracker node)
      ([] ++ ⟨st.lists.length, ⟨node, none, 100, 100⟩, []⟩ :: shape) := h.addTracker hno
  obtain ⟨st', hpush, hst'⟩ := hadd.pushChunk file
  refine ⟨st', some st.lists.length, _, ?_, ⟨hst', ?_⟩, .added _ shape rfl hno, ?_⟩
  · unfold TrackerStore.createTracker
    rw [hfrag, if_neg Bool.false_ne_true, hseek, ok_bind]
    dsimp only
    rw [hpush]
    rfl
  · intro t ht
    rcases List.mem_cons.mp ht with rfl | ht
    · exact List.cons_ne_nil _ _
    · exact h.nonempty t ht
  · unfold VideoCdn.createTracker
    rw [hfrag, if_neg Bool.false_ne_true, searchSeg_tracker_eq_none hno]
    simp only [Option.isNone_none, if_true]
    rw [modifySeg]
    exact congrArg some (if_pos rfl)

/-- **`create_tracker`** always returns.  The new lists stand for what the function on `Trackers`
makes of the old ones. -/
theorem WellKept.createTracker (h : WellKept clientFd st shape) (file : Bytes) (node : σ) :
    ∃ st' r shape', st.createTracker clientFd file node = .ok (st', r) ∧
      WellKept clientFd st' shape' ∧ CallEffect clientFd (clientFd node) shape shape' ∧
      shape'.map (TrackerShape.tracker clientFd) =
        (createTracker file (clientFd node) (shape.map (TrackerShape.tracker clientFd))).getD
          (shape.map (TrackerShape.tracker clientFd)) := by
  cases hfrag : (strstr (ascii "-Frag") file).isNone with
  | true =>
    unfold TrackerStore.createTracker VideoCdn.createTracker
    rw [hfrag, if_pos rfl, if_pos rfl]
    exact ⟨st, none, shape, rfl, h, .unchanged shape, rfl⟩
  | false =>
    by_cases hown : ∃ s ∈ shape, s.owner clientFd = clientFd node
    · obtain ⟨st', r, shape', hrun, hkept, heff, htrackers⟩ := h.createTracker_owned hfrag hown
      exact ⟨st', r, shape', hrun, hkept, heff, by rw [htrackers, Option.getD_some]⟩
    · have hno : ∀ t ∈ shape, t.owner clientFd ≠ clientFd node :=
        fun t ht heq => hown ⟨t, ht, heq⟩
      obtain ⟨st', r, shape', hrun, hkept, heff, htrackers⟩ := h.createTracker_new hfrag hno
      exact ⟨st', r, shape', hrun, hkept, heff, by rw [htrackers, Option.getD_some]⟩

/-! ## `update_throughput` -/

/-- Cutting a chunk list in front of its last element. -/
theorem cutAt_chain {files : Cells Bytes} {p : Option Nat} {front : List (Nat × Bytes)} {q : Nat}
    {a : Bytes} (hc : Chain files p (front ++ [(q, a)])) :
    ∃ files', TrackerStore.cutAt files ((front.getLast?).map Prod.fst) = .ok files' ∧
      Chain files' p (if 2 ≤ (front ++ [(q, a)]).length then front else front ++ [(q, a)]) ∧
      (∃ next, files'[q]? = some ⟨a, next⟩) ∧
      ∀ (p' : Option Nat) (l : List (Nat × Bytes)),
        (addresses (front ++ [(q, a)])).Disjoint (addresses l) → Chain files p' l → Chain files' p' l := by
  obtain ⟨next, hget, -⟩ := hc.suffix
  rcases List.eq_nil_or_concat front with rfl | ⟨front, ⟨t, b⟩, rfl⟩
  · exact ⟨files, rfl, hc, ⟨next, hget⟩, fun p' l _ hl => hl⟩
  · rw [List.concat_eq_append] at hc ⊢
    have hnodup := hc.nodup
    have hsplit : Chain files p (front ++ (t, b) :: [(q, a)]) := by simpa using hc
    obtain ⟨n, hget', -⟩ := hsplit.suffix
    have hne : t ≠ q := by
      rintro rfl
      simp [addresses, List.nodup_append] at hnodup
    refine ⟨files.set t ⟨b, none⟩, ?_, ?_, ⟨next, ?_⟩, ?_⟩
    · rw [List.getLast?_concat]
      show TrackerStore.cutAt files (some t) = _
      rw [TrackerStore.cutAt, load_eq_ok.mpr hget']
      rfl
    · have hlen : 2 ≤ (front ++ [(t, b)] ++ [(q, a)]).length := by simp
      rw [if_pos hlen]
      exact hsplit.splice .nil
    · rw [List.getElem?_set_ne hne, hget]
    · intro p' l hdisj hl
      apply hl.set_of_notMem
      intro hmem
      exact hdisj (by simp [addresses]) hmem

/-- No two chunk lists share a chunk. -/
theorem Represents.disjoint (h : Represents clientFd st (pre ++ s :: post)) {t : TrackerShape σ}
    (ht : t ∈ pre ∨ t ∈ post) : (addresses s.cells).Disjoint (addresses t.cells) := by
  have hapart := h.apart
  rw [List.flatMap_append, List.flatMap_cons, List.nodup_append, List.nodup_append] at hapart
  obtain ⟨-, ⟨-, -, hpost⟩, hpre⟩ := hapart
  intro q hq hqt
  rcases ht with ht | ht
  · exact hpre q (List.mem_flatMap_of_mem ht hqt) q (List.mem_append_left _ hq) rfl
  · exact hpost q hq q (List.mem_flatMap_of_mem ht hqt) rfl

theorem TrackerShape.tracker_measured (s : TrackerShape σ) (est : ℚ) :
    (s.measured est).tracker clientFd =
      { s.tracker clientFd with
        throughput := est
        chunks := cutTail (s.tracker clientFd).chunks } := by
  have hcut : (s.measured est).cells.map Prod.snd = cutTail (s.cells.map Prod.snd) := by
    unfold TrackerShape.measured cutTail
    rw [List.length_map]
    split
    · rw [List.map_dropLast]
    · rfl
  show ChunkTrackerList.mk _ ((s.measured est).cells.map Prod.snd) _ _ = _
  rw [hcut]
  rfl

theorem TrackerShape.measured_subset (s : TrackerShape σ) (est : ℚ) :
    List.Sublist (addresses (s.measured est).cells) (addresses s.cells) := by
  apply List.Sublist.map
  unfold TrackerShape.measured
  dsimp only
  split
  · exact List.dropLast_sublist s.cells
  · exact List.Sublist.refl s.cells

/-- The walk over the chunks of an element ends at the last one, and the list is cut in front of it. -/
theorem Represents.cutFiles (h : Represents clientFd st (pre ++ s :: post)) (hs : s.cells ≠ [])
    (est : ℚ) : ∃ c tmp q a next files, s.node.chunks = some c ∧
      lastTwo st.files st.files.length none c = .ok (tmp, q) ∧
      TrackerStore.cutAt st.files tmp = .ok files ∧ files[q]? = some ⟨a, next⟩ ∧
      s.cells.getLast? = some (q, a) ∧
      ∀ t ∈ pre ++ s.measured est :: post, Chain files t.node.chunks t.cells := by
  have hmem : s ∈ pre ++ s :: post := by simp
  obtain ⟨front, ⟨q, a⟩, hcells⟩ := (List.eq_nil_or_concat s.cells).resolve_left hs
  rw [List.concat_eq_append] at hcells
  have hchain := h.files s hmem
  rw [hcells] at hchain
  obtain ⟨c, hc⟩ : ∃ c, s.node.chunks = some c := by
    cases hchunks : s.node.chunks with
    | some c => exact ⟨c, rfl⟩
    | none =>
      rw [hchunks] at hchain
      have hnil := hchain.eq_nil
      simp at hnil
  have hwalk : lastTwo st.files st.files.length none c =
      .ok ((front.getLast?).map Prod.fst, q) := by
    have hle := hchain.length_le
    rw [List.length_append, List.length_singleton] at hle
    rw [hc] at hchain
    rw [lastTwo_chain hchain (by omega), Option.or_none]
  obtain ⟨files, hcut, hcutChain, ⟨next, hlast⟩, hothers⟩ := cutAt_chain hchain
  have hgetLast : s.cells.getLast? = some (q, a) := by
    rw [hcells]
    exact List.getLast?_concat
  -- the other elements have other chunks
  have hother : ∀ t, t ∈ pre ∨ t ∈ post → Chain files t.node.chunks t.cells := by
    intro t ht
    refine hothers _ _ (hcells ▸ h.disjoint ht) (h.files t ?_)
    rcases ht with ht | ht <;> simp [ht]
  refine ⟨c, _, q, a, next, files, hc, hwalk, hcut, hlast, hgetLast, fun t ht => ?_⟩
  simp only [List.mem_append, List.mem_cons] at ht
  rcases ht with ht | rfl | ht
  · exact hother t (Or.inl ht)
  · unfold TrackerShape.measured
    have hdrop : (front ++ [(q, a)]).dropLast = front := List.dropLast_concat
    rw [hcells, hdrop]
    exact hcutChain
  · exact hother t (Or.inr ht)

/-- The same measurement on the list of the trackers. -/
theorem updateThroughput_tracker {node : σ} (howner : s.owner clientFd = clientFd node)
    (hpre : ∀ t ∈ pre, t.owner clientFd ≠ clientFd node) {alpha : ℚ} {buckSize : Int}
    {ts tf : Timespec} {est throughput duration : ℚ} {q : Nat} {a : Bytes}
    (hest : estTp alpha s.node.throughput ts tf buckSize = (est, throughput, duration))
    (hlast : s.cells.getLast? = some (q, a)) :
    VideoCdn.updateThroughput alpha buckSize (clientFd node) ts tf
        ((pre ++ s :: post).map (TrackerShape.tracker clientFd)) =
      .ok ((pre ++ s.measured est :: post).map (TrackerShape.tracker clientFd),
        ⟨duration, throughput, est, s.node.bitrate, a⟩) := by
  have hlastFile : (s.tracker clientFd).chunks.getLast? = some a := by
    show (s.cells.map Prod.snd).getLast? = some a
    rw [List.getLast?_map, hlast]
    rfl
  unfold VideoCdn.updateThroughput
  rw [searchSeg_tracker hpre howner]
  dsimp only
  rw [hlastFile]
  dsimp only
  have hthr : (s.tracker clientFd).throughput = s.node.throughput := rfl
  rw [hthr, hest, modifySeg_tracker hpre howner, List.map_append, List.map_cons,
    TrackerShape.tracker_measured]
  rfl

theorem Represents.updateThroughput (h : Represents clientFd st (pre ++ s :: post))
    (hs : s.cells ≠ []) {node : σ} (howner : s.owner clientFd = clientFd node)
    (hpre : ∀ t ∈ pre, t.owner clientFd ≠ clientFd node)
    (alpha : ℚ) (buckSize : Int) (ts tf : Timespec) :
    ∃ st' log, st.updateThroughput clientFd alpha buckSize node ts tf = .ok (st', log) ∧
      Represents clientFd st'
        (pre ++ s.measured (estTp alpha s.node.throughput ts tf buckSize).1 :: post) ∧
      VideoCdn.updateThroughput alpha buckSize (clientFd node) ts tf
          ((pre ++ s :: post).map (TrackerShape.tracker clientFd)) =
        .ok ((pre ++ s.measured (estTp alpha s.node.throughput ts tf buckSize).1 :: post).map
          (TrackerShape.tracker clientFd), log) := by
  have hseek := h.searchSeg_eq_some.mpr ⟨s, by simp, howner, rfl⟩
  obtain ⟨next, hget, hset⟩ := h.set_node
  generalize hest : estTp alpha s.node.throughput ts tf buckSize = r
  obtain ⟨est, throughput, duration⟩ := r
  obtain ⟨c, tmp, q, a, next', files, hc, hwalk, hcut, hfile, hlast, hfiles⟩ := h.cutFiles hs est
  refine ⟨⟨st.lists.set s.addr ⟨{ s.node with throughput := est }, next⟩, files, st.head⟩,
    ⟨duration, throughput, est, s.node.bitrate, a⟩, ?_, ⟨hset _ _, hfiles, ?_, ?_⟩,
    updateThroughput_tracker howner hpre hest hlast⟩
  · unfold TrackerStore.updateThroughput
    rw [hseek, ok_bind]
    dsimp only
    rw [load_eq_ok.mpr hget, ok_bind]
    dsimp only
    rw [hc]
    dsimp only
    rw [hwalk, ok_bind]
    dsimp only
    rw [hest, hcut, ok_bind, load_eq_ok.mpr hfile, ok_bind]
    rfl
  · have hapart := h.apart
    rw [List.flatMap_append, List.flatMap_cons] at hapart ⊢
    have hsub := (s.measured_subset est).append_right (post.flatMap fun s => addresses s.cells)
    exact hapart.sublist (hsub.append_left _)
  · have howners := h.owners
    rw [List.map_append, List.map_cons] at howners ⊢
    exact howners

/-- **`update_throughput`** returns if the descriptor has an element: that has a chunk. -/
theorem WellKept.updateThroughput (h : WellKept clientFd st shape) {node : σ}
    (hown : ∃ s ∈ shape, s.owner clientFd = clientFd node) (alpha : ℚ) (buckSize : Int)
    (ts tf : Timespec) :
    ∃ st' log shape', st.updateThroughput clientFd alpha buckSize node ts tf = .ok (st', log) ∧
      WellKept clientFd st' shape' ∧ CallEffect clientFd (clientFd node) shape shape' ∧
      VideoCdn.updateThroughput alpha buckSize (clientFd node) ts tf
          (shape.map (TrackerShape.tracker clientFd)) =
        .ok (shape'.map (TrackerShape.tracker clientFd), log) := by
  obtain ⟨s, hs, howner⟩ := hown
  have hcells := h.nonempty s hs
  obtain ⟨pre, post, rfl, hpre, -⟩ := h.split hs howner
  obtain ⟨st', log, hrun, hst', htrackers⟩ :=
    h.toRepresents.updateThroughput hcells howner hpre alpha buckSize ts tf
  refine ⟨st', log, _, hrun, ⟨hst', ?_⟩, .changed pre post s _ howner rfl rfl, htrackers⟩
  intro t ht
  simp only [List.mem_append, List.mem_cons] at ht
  rcases ht with ht | rfl | ht
  · exact h.nonempty t (by simp [ht])
  · unfold TrackerShape.measured
    dsimp only
    split
    · rename_i hlen
      intro hnil
      have hzero := congrArg List.length hnil
      rw [List.length_dropLast, List.length_nil] at hzero
      omega
    · exact hcells
  · exact h.nonempty t (by simp [ht])

end represented

/-! ## Any calls -/

/-- The stores after any calls that returned. -/
inductive TrackerCalls (clientFd : σ → Nat) : TrackerStore σ → Prop where
  | start : TrackerCalls clientFd .empty
  | create {st st' : TrackerStore σ} {r : Option Nat} (file : Bytes) (node : σ) :
      TrackerCalls clientFd st → st.createTracker clientFd file node = .ok (st', r) →
      TrackerCalls clientFd st'
  | measure {st st' : TrackerStore σ} {log : LogRecord} (alpha : ℚ) (buckSize : Int) (node : σ)
      (ts tf : Timespec) : TrackerCalls clientFd st →
      st.updateThroughput clientFd alpha buckSize node ts tf = .ok (st', log) →
      TrackerCalls clientFd st'

/-- A call of `update_throughput` that returns has found an element. -/
theorem Represents.owner_of_measured {clientFd : σ → Nat} {st st' : TrackerStore σ}
    {shape : List (TrackerShape σ)} (h : Represents clientFd st shape) {alpha : ℚ} {buckSize : Int}
    {node : σ} {ts tf : Timespec} {log : LogRecord}
    (hrun : st.updateThroughput clientFd alpha buckSize node ts tf = .ok (st', log)) :
    ∃ s ∈ shape, s.owner clientFd = clientFd node := by
  unfold TrackerStore.updateThroughput at hrun
  rw [bind_eq_ok] at hrun
  obtain ⟨found, hseek, hrun⟩ := hrun
  cases found with
  | none => cases hrun
  | some p =>
    obtain ⟨s, hs, howner, -⟩ := h.searchSeg_eq_some.mp hseek
    exact ⟨s, hs, howner⟩

/-- **The lists are well kept** after any calls. -/
theorem TrackerCalls.wellKept {clientFd : σ → Nat} {st : TrackerStore σ}
    (h : TrackerCalls clientFd st) : ∃ shape, WellKept clientFd st shape := by
  induction h with
  | start => exact ⟨[], ⟨.nil, by simp, by simp, by simp⟩, by simp⟩
  | create file node _ hrun ih =>
    obtain ⟨shape, hkept⟩ := ih
    obtain ⟨st₁, r₁, shape₁, hrun₁, hkept₁, -⟩ := hkept.createTracker file node
    rw [hrun, Except.ok.injEq, Prod.mk.injEq] at hrun₁
    exact ⟨shape₁, hrun₁.1 ▸ hkept₁⟩
  | measure alpha buckSize node ts tf _ hrun ih =>
    obtain ⟨shape, hkept⟩ := ih
    have hown := hkept.owner_of_measured hrun
    obtain ⟨st₁, log₁, shape₁, hrun₁, hkept₁, -⟩ :=
      hkept.updateThroughput hown alpha buckSize ts tf
    rw [hrun, Except.ok.injEq, Prod.mk.injEq] at hrun₁
    exact ⟨shape₁, hrun₁.1 ▸ hkept₁⟩

/-- **After any calls**: no two elements belong to one descriptor, and every chunk list ends and is
not empty; `search_seg` returns the element of a descriptor, if it has one; and the next call, of
`create_tracker` for any session or of `update_throughput` for one whose descriptor has an element,
returns, keeps the lists so, and changes no element but the one of its descriptor. -/
theorem trackerCalls_keep {clientFd : σ → Nat} {st : TrackerStore σ}
    (h : TrackerCalls clientFd st) : ∃ shape, WellKept clientFd st shape ∧
      (∀ node, (∃ r, st.searchSeg clientFd node = .ok r) ∧
        ∀ p, st.searchSeg clientFd node = .ok (some p) ↔
          ∃ s ∈ shape, s.owner clientFd = clientFd node ∧ s.addr = p) ∧
      (∀ file node, ∃ st' r shape', st.createTracker clientFd file node = .ok (st', r) ∧
        WellKept clientFd st' shape' ∧ CallEffect clientFd (clientFd node) shape shape') ∧
      ∀ alpha buckSize node ts tf, (∃ s ∈ shape, s.owner clientFd = clientFd node) →
        ∃ st' log shape', st.updateThroughput clientFd alpha buckSize node ts tf = .ok (st', log) ∧
          WellKept clientFd st' shape' ∧ CallEffect clientFd (clientFd node) shape shape' := by
  obtain ⟨shape, hkept⟩ := h.wellKept
  refine ⟨shape, hkept, ?_, ?_, ?_⟩
  · intro node
    exact ⟨⟨_, hkept.searchSeg node⟩, fun p => hkept.searchSeg_eq_some⟩
  · intro file node
    obtain ⟨st', r, shape', hrun, hkept', heff, -⟩ := hkept.createTracker file node
    exact ⟨st', r, shape', hrun, hkept', heff⟩
  · intro alpha buckSize node ts tf hown
    obtain ⟨st', log, shape', hrun, hkept', heff, -⟩ :=
      hkept.updateThroughput hown alpha buckSize ts tf
    exact ⟨st', log, shape', hrun, hkept', heff⟩

/-- A first chunk of session 0. -/
theorem trackerCalls_keep_first : ∃ st r,
    TrackerStore.empty.createTracker (fun _ : Nat => 5) (ascii "/100Seg1-Frag1") 0 = .ok (st, r) ∧
      ∃ shape, WellKept (fun _ => 5) st shape := by
  obtain ⟨st, r, hrun⟩ : ∃ st r, TrackerStore.empty.createTracker (fun _ : Nat => 5)
      (ascii "/100Seg1-Frag1") 0 = .ok (st, r) := ⟨_, _, rfl⟩
  obtain ⟨shape, hkept, -⟩ := trackerCalls_keep (.create _ _ .start hrun)
  exact ⟨st, r, hrun, shape, hkept⟩

end VideoCdn
