import VideoCdn.Graph
import Mathlib.Data.List.Induction
import Mathlib.Data.List.Nodup

/-!
# The loader against the order of the records

* `LsaRecord` — a well-formed record, carrying the bounds its tokens meet.
* `Loads` — what the file means: one node for each sender, made from its freshest record.
* `graphLoop_record` — one record: stored, or cut in front of its neighbour list.
* `misaligned` — once a neighbour list is read as a sender, the list of nodes is wrong for good,
  unless the file ends there.
* `graphInit_readInStep` — records in an order in which no sender goes back are loaded as they
  should be; `graphInit_bogusNode` is a file of two records that is not.
-/

set_option autoImplicit false

namespace VideoCdn

open CLib

/-- What `%s` can read back: not empty, without white space and without NUL. -/
structure IsToken (t : Bytes) : Prop where
  ne_nil : t ≠ []
  no_space : ∀ c ∈ t, isSpace c = false
  no_nul : (0 : UInt8) ∉ t

/-- The name of a node. -/
structure NodeName where
  text : Bytes
  token : IsToken text
  no_comma : ∀ c ∈ text, (c == 44) = false
  fits : text.length < LENTH

/-- A sequence number as it stands in the file. -/
structure SeqText where
  text : Bytes
  token : IsToken text
  no_comma : ∀ c ∈ text, (c == 44) = false
  fits : text.length < LINE_LENGTH

def SeqText.value (s : SeqText) : Int := atoi s.text

/-- A well-formed record `sender seq n1,...,nk`. -/
structure LsaRecord where
  sender : NodeName
  seq : SeqText
  neighbors : List NodeName
  ne_nil : neighbors ≠ []
  count_le : neighbors.length ≤ LENTH
  fits : ([44].intercalate (neighbors.map NodeName.text)).length < LINE_LENGTH

namespace LsaRecord

/-- The neighbour list as one token. -/
def listText (r : LsaRecord) : Bytes := [44].intercalate (r.neighbors.map NodeName.text)

def tokens (r : LsaRecord) : List Bytes := [r.sender.text, r.seq.text, r.listText]

/-- The node that the record describes. -/
def node (r : LsaRecord) : GraphNode := ⟨r.sender.text, r.seq.value, r.neighbors.map NodeName.text⟩

/-- `q` is another record of the sender of `r`. -/
def SameSender (q r : LsaRecord) : Prop := q.sender.text = r.sender.text

end LsaRecord

open LsaRecord

/-- The node comes from a record that no earlier one exceeds and no later one reaches. -/
def Freshest (recs : List LsaRecord) (n : GraphNode) : Prop :=
  ∃ pre r post, recs = pre ++ r :: post ∧ n = r.node ∧
    (∀ q ∈ pre, SameSender q r → q.seq.value ≤ r.seq.value) ∧
    ∀ q ∈ post, SameSender q r → q.seq.value < r.seq.value

/-- What the records mean. -/
structure Loads (recs : List LsaRecord) (g : Graph) : Prop where
  nodup : g.names.Nodup
  names : ∀ x, x ∈ g.names ↔ ∃ r ∈ recs, r.sender.text = x
  freshest : ∀ n ∈ g, Freshest recs n

/-- `graph_init` on the file succeeds with the list that the records mean. -/
def LoadsFresh (file : Bytes) (recs : List LsaRecord) : Prop :=
  ∃ g, graphInit (some file) = .ok (0, g) ∧ Loads recs g

/-- No record is older than an earlier one of its sender. -/
def InOrder (recs : List LsaRecord) : Prop :=
  recs.Pairwise (fun q r => SameSender q r → q.seq.value ≤ r.seq.value)

/-- `r` is older than a record of its sender in `pre`. -/
def Outdated (pre : List LsaRecord) (r : LsaRecord) : Prop :=
  ∃ q ∈ pre, SameSender q r ∧ r.seq.value < q.seq.value

/-- Only the last record is outdated, and its list is one name, of a sender with a positive sequence
number: at the end of the file the name is dropped as another outdated sender. -/
def OutdatedTail (recs : List LsaRecord) : Prop :=
  ∃ pre r b, recs = pre ++ [r] ∧ InOrder pre ∧ Outdated pre r ∧ r.neighbors = [b] ∧
    ∃ q ∈ pre, q.sender.text = b.text ∧ 0 < q.seq.value

/-! ## Reading a record -/

theorem LsaRecord.strtok_listText (r : LsaRecord) :
    strtok (· == 44) r.listText = r.neighbors.map NodeName.text := by
  refine strtok_intercalate rfl (fun t ht => ?_)
  obtain ⟨n, -, rfl⟩ := List.mem_map.mp ht
  exact ⟨n.token.ne_nil, n.no_comma⟩

theorem LsaRecord.no_nul_listText (r : LsaRecord) : (0 : UInt8) ∉ r.listText := by
  refine notMem_intercalate (by decide) (fun t ht => ?_)
  obtain ⟨n, -, rfl⟩ := List.mem_map.mp ht
  exact n.token.no_nul

theorem LsaRecord.readNeighbors_listText (r : LsaRecord) :
    readNeighbors r.listText = .ok (r.neighbors.map NodeName.text) := by
  have htok := r.strtok_listText
  rw [readNeighbors_eq_ok, htok]
  · rw [htok, List.length_map]
    exact r.count_le
  · rw [htok]
    intro t ht
    obtain ⟨n, -, rfl⟩ := List.mem_map.mp ht
    exact n.fits

/-- **One record**: stored, or left in front of its neighbour list. -/
theorem graphLoop_record (r : LsaRecord) (rest : List Bytes) (g : Graph) :
    graphLoop (r.tokens ++ rest) g =
      if stale g r.sender.text r.seq.value then graphLoop (r.listText :: rest) g
      else graphLoop rest
        (storeNode g r.sender.text r.seq.value (r.neighbors.map NodeName.text)) := by
  show graphLoop (r.sender.text :: r.seq.text :: r.listText :: rest) g = _
  rw [graphLoop, readName_eq_ok r.sender.fits r.sender.token.no_nul, ok_bind,
    scanToken_eq_ok r.seq.fits r.seq.token.no_nul, ok_bind]
  apply if_congr Iff.rfl rfl
  rw [scanToken_eq_ok (t := r.listText) r.fits r.no_nul_listText, ok_bind, storeRecord, r.readNeighbors_listText,
    ok_bind, pure_eq_ok, ok_bind]
  rfl

/-! ## Records in order -/

theorem le_of_freshest {pre post : List LsaRecord} {q r : LsaRecord}
    (hpre : ∀ q ∈ pre, SameSender q r → q.seq.value ≤ r.seq.value)
    (hpost : ∀ q ∈ post, SameSender q r → q.seq.value < r.seq.value)
    (hq : q ∈ pre ++ r :: post) (hs : SameSender q r) : q.seq.value ≤ r.seq.value := by
  rcases List.mem_append.mp hq with hq | hq
  · exact hpre q hq hs
  · rcases List.mem_cons.mp hq with rfl | hq
    · exact Int.le_refl _
    · exact Int.le_of_lt (hpost q hq hs)

/-- The loader drops exactly the outdated records. -/
theorem stale_iff {recs : List LsaRecord} {g : Graph} (h : Loads recs g) {x : Bytes} {s : Int} :
    stale g x s = true ↔ ∃ q ∈ recs, q.sender.text = x ∧ s < q.seq.value := by
  unfold stale
  cases hf : findNode g x with
  | none =>
    refine ⟨fun hs => (by cases hs), ?_⟩
    rintro ⟨q, hq, hqx, -⟩
    have := findNode_isSome.mpr ((h.names x).mpr ⟨q, hq, hqx⟩)
    rw [hf] at this
    cases this
  | some p =>
    obtain ⟨hp, rfl⟩ := findNode_eq_some hf
    obtain ⟨pre, r, post, rfl, rfl, hpre, hpost⟩ := h.freshest p hp
    rw [decide_eq_true_iff]
    constructor
    · intro hs
      exact ⟨r, by simp, rfl, hs⟩
    · rintro ⟨q, hq, hqx, hs⟩
      exact Int.lt_of_lt_of_le hs (le_of_freshest hpre hpost hq hqx)

/-- Storing a record that is not outdated. -/
theorem Loads.store {recs : List LsaRecord} {g : Graph} (h : Loads recs g) {r : LsaRecord}
    (hr : ¬ Outdated recs r) : Loads (recs ++ [r])
      (storeNode g r.sender.text r.seq.value (r.neighbors.map NodeName.text)) where
  nodup := nodup_storeNode h.nodup _ _ _
  names x := by
    simp only [List.mem_append, List.mem_singleton, or_and_right, exists_or, exists_eq_left,
      ← h.names x, names_storeNode]
    split
    · rename_i hin
      exact ⟨Or.inl, fun hx => hx.elim id (fun he => he ▸ hin)⟩
    · rw [List.mem_cons]
      exact ⟨fun hx => hx.elim (fun he => Or.inr he.symm) Or.inl,
        fun hx => hx.elim Or.inr (fun he => Or.inl he.symm)⟩
  freshest n hn := by
    rcases (mem_storeNode h.nodup).mp hn with rfl | ⟨hng, hne⟩
    · refine ⟨recs, r, [], rfl, rfl, fun q hq hs => ?_, fun q hq => by cases hq⟩
      exact Int.not_lt.mp (fun hlt => hr ⟨q, hq, hs, hlt⟩)
    · obtain ⟨pre, q, post, rfl, rfl, hpre, hpost⟩ := h.freshest n hng
      refine ⟨pre, q, post ++ [r], by simp, rfl, hpre, fun p hp hs => ?_⟩
      rcases List.mem_append.mp hp with hp | hp
      · exact hpost p hp hs
      · rw [List.mem_singleton.mp hp] at hs
        exact absurd hs.symm hne

theorem Loads.nil : Loads [] [] :=
  ⟨List.nodup_nil, fun x => by simp [Graph.names], fun n hn => by cases hn⟩

/-- **Records in order** are loaded one by one, whatever follows them. -/
theorem graphLoop_inOrder {recs : List LsaRecord} (h : InOrder recs) :
    ∃ g, Loads recs g ∧ ∀ rest, graphLoop (recs.flatMap tokens ++ rest) [] = graphLoop rest g := by
  induction recs using List.reverseRecOn with
  | nil => exact ⟨[], Loads.nil, fun rest => rfl⟩
  | append_singleton recs r ih =>
    obtain ⟨hrecs, -, hlast⟩ := List.pairwise_append.mp h
    obtain ⟨g, hg, hrun⟩ := ih hrecs
    have hfresh : ¬ Outdated recs r := by
      rintro ⟨q, hq, hs, hlt⟩
      have := hlast q hq r (List.mem_singleton_self r) hs
      omega
    refine ⟨_, hg.store hfresh, fun rest => ?_⟩
    have hns : ¬ stale g r.sender.text r.seq.value = true :=
      fun hs => hfresh ((stale_iff hg).mp hs)
    rw [List.flatMap_append, List.append_assoc, hrun, List.flatMap_singleton, graphLoop_record,
      if_neg hns]

/-- Otherwise there is a first outdated record. -/
theorem exists_outdated {recs : List LsaRecord} (h : ¬ InOrder recs) :
    ∃ pre r post, recs = pre ++ r :: post ∧ InOrder pre ∧ Outdated pre r := by
  induction recs using List.reverseRecOn with
  | nil => exact absurd List.Pairwise.nil h
  | append_singleton recs r ih =>
    by_cases hrecs : InOrder recs
    · refine ⟨recs, r, [], rfl, hrecs, ?_⟩
      by_contra hno
      refine h (List.pairwise_append.mpr ⟨hrecs, List.pairwise_singleton _ _, ?_⟩)
      intro q hq p hp hs
      rw [List.mem_singleton.mp hp] at hs ⊢
      exact Int.not_lt.mp (fun hlt => hno ⟨q, hq, hs, hlt⟩)
    · obtain ⟨pre, q, post, rfl, hpre, hout⟩ := ih hrecs
      exact ⟨pre, q, post ++ [r], by simp, hpre, hout⟩

/-! ## Out of step -/

/-- The token in front is read as a sender: it is, or becomes, a name in the list. -/
theorem head_mem_names_of_graphLoop {t : Bytes} {rest : List Bytes} {g g' : Graph}
    (h : graphLoop (t :: rest) g = .ok g') : cstr t ∈ g'.names := by
  rcases graphLoop_cons h with ⟨hstale, hrest⟩ | hrest
  · exact names_subset_of_graphLoop hrest _ (mem_names_of_stale hstale)
  · exact names_subset_of_graphLoop hrest _ (self_mem_names_storeNode g _ _ _)

/-- No name in the file is also the text of a sequence number in it. -/
def NamesApart (recs : List LsaRecord) : Prop :=
  ∀ s ∈ recs, ∀ r ∈ recs, s.seq.text ≠ r.sender.text ∧
    s.seq.text ∉ r.neighbors.map NodeName.text

/-- A node that no record of the file describes. -/
def Bogus (recs : List LsaRecord) (g : Graph) : Prop :=
  (∃ s ∈ recs, s.seq.text ∈ g.names) ∨
  ∃ n ∈ g, n.neighbors = [] ∨ ∃ s ∈ recs, n.neighbors = [s.seq.text]

theorem Loads.not_bogus {recs : List LsaRecord} {g : Graph} (h : Loads recs g)
    (hap : NamesApart recs) : ¬ Bogus recs g := by
  rintro (⟨s, hs, hin⟩ | ⟨n, hn, hbad⟩)
  · obtain ⟨r, hr, he⟩ := (h.names _).mp hin
    exact (hap s hs r hr).1 he.symm
  · obtain ⟨pre, r, post, rfl, rfl, -⟩ := h.freshest n hn
    rcases hbad with hnil | ⟨s, hs, hseq⟩
    · exact r.ne_nil (List.map_eq_nil_iff.mp hnil)
    · apply (hap s hs r (by simp)).2
      show s.seq.text ∈ r.node.neighbors
      rw [hseq]
      exact List.mem_singleton_self _

/-- **Out of step**: reading on from a neighbour list leaves a bogus node, unless the file ends
there and the list is dropped as an outdated sender. -/
theorem misaligned {recs : List LsaRecord} : ∀ {post : List LsaRecord} {list : Bytes} {g g' : Graph},
    (∀ s ∈ post, s ∈ recs) → (0 : UInt8) ∉ list → g.names.Nodup →
    graphLoop (list :: post.flatMap tokens) g = .ok g' →
    Bogus recs g' ∨ post = [] ∧ stale g list 0 = true ∧ g' = g
  | [], list, g, g', _, hnul, hg, h => by
    have hturn := graphLoop_cons h
    rw [cstr_of_no_nul hnul] at hturn
    rcases hturn with ⟨hstale, hrest⟩ | hrest
    · cases hrest
      exact Or.inr ⟨rfl, hstale, rfl⟩
    · cases hrest
      exact Or.inl (Or.inr ⟨_, (mem_storeNode hg).mpr (Or.inl rfl), Or.inl rfl⟩)
  | s :: post, list, g, g', hsub, hnul, hg, h => by
    have hs : s ∈ recs := hsub s List.mem_cons_self
    apply Or.inl
    rcases graphLoop_cons h with ⟨-, hrest⟩ | hrest
    · -- the sequence number is the next sender
      have hmem := head_mem_names_of_graphLoop hrest
      rw [cstr_of_no_nul s.seq.token.no_nul] at hmem
      exact Or.inl ⟨s, hs, hmem⟩
    · -- the sequence number is the neighbour list
      change graphLoop (s.listText :: post.flatMap tokens) (storeNode g (cstr list) _
        (strtok (· == 44) (cstr s.seq.text))) = .ok g' at hrest
      rw [cstr_of_no_nul s.seq.token.no_nul, strtok_token s.seq.token.ne_nil s.seq.no_comma] at hrest
      rcases misaligned (fun q hq => hsub q (List.mem_cons_of_mem _ hq)) s.no_nul_listText
        (nodup_storeNode hg _ _ _) hrest with hbad | ⟨-, -, rfl⟩
      · exact hbad
      · exact Or.inr ⟨_, (mem_storeNode hg).mpr (Or.inl rfl), Or.inr ⟨s, hs, rfl⟩⟩

/-! ## The order of the records -/

/-- An outdated record changes nothing in what the records mean. -/
theorem Loads.skip {recs : List LsaRecord} {g : Graph} (h : Loads recs g) {r : LsaRecord}
    (hr : Outdated recs r) : Loads (recs ++ [r]) g where
  nodup := h.nodup
  names x := by
    obtain ⟨q, hq, hs, -⟩ := hr
    simp only [List.mem_append, List.mem_singleton, or_and_right, exists_or, exists_eq_left,
      ← h.names x]
    refine ⟨Or.inl, fun hx => hx.elim id ?_⟩
    rintro rfl
    exact (h.names _).mpr ⟨q, hq, hs⟩
  freshest n hn := by
    obtain ⟨pre, q, post, rfl, rfl, hpre, hpost⟩ := h.freshest n hn
    refine ⟨pre, q, post ++ [r], by simp, rfl, hpre, fun p hp hs => ?_⟩
    rcases List.mem_append.mp hp with hp | hp
    · exact hpost p hp hs
    · rw [List.mem_singleton.mp hp] at hs ⊢
      obtain ⟨q', hq', hs', hlt⟩ := hr
      exact Int.lt_of_lt_of_le hlt (le_of_freshest hpre hpost hq' (hs'.trans hs))

/-- The order in which every record is read as one. -/
def ReadInStep (recs : List LsaRecord) : Prop := InOrder recs ∨ OutdatedTail recs

theorem loadsFresh_of_readInStep {file : Bytes} {recs : List LsaRecord}
    (hfile : words file = recs.flatMap tokens) (h : ReadInStep recs) : LoadsFresh file recs := by
  unfold LoadsFresh
  simp only [graphInit_eq_ok, hfile]
  rcases h with h | ⟨pre, r, b, rfl, hpre, hout, hlist, hb⟩
  · obtain ⟨g, hg, hrun⟩ := graphLoop_inOrder h
    refine ⟨g, ?_, hg⟩
    have := hrun []
    rw [List.append_nil] at this
    rw [this, graphLoop]
  · obtain ⟨g, hg, hrun⟩ := graphLoop_inOrder hpre
    have htext : r.listText = b.text := by
      simp [LsaRecord.listText, hlist]
    refine ⟨g, ?_, hg.skip hout⟩
    rw [List.flatMap_append, hrun, List.flatMap_singleton, ← List.append_nil r.tokens,
      graphLoop_record, if_pos ((stale_iff hg).mpr hout), htext, graphLoop,
      readName_eq_ok b.fits b.token.no_nul, ok_bind]
    exact if_pos ((stale_iff hg).mpr hb)

/-- A list that names a node is a single name. -/
theorem LsaRecord.neighbors_eq_singleton {r : LsaRecord} {n : NodeName} (h : r.listText = n.text) :
    ∃ b, r.neighbors = [b] ∧ b.text = n.text := by
  have htok := r.strtok_listText
  rw [h, strtok_token n.token.ne_nil n.no_comma] at htok
  obtain ⟨b, hb, hbt⟩ := List.map_eq_singleton_iff.mp htok.symm
  exact ⟨b, hb, hbt⟩

theorem readInStep_of_loadsFresh {file : Bytes} {recs : List LsaRecord}
    (hfile : words file = recs.flatMap tokens) (hap : NamesApart recs) (h : LoadsFresh file recs) :
    ReadInStep recs := by
  obtain ⟨g, hrun, hg⟩ := h
  rw [graphInit_eq_ok, hfile] at hrun
  by_cases hord : InOrder recs
  · exact Or.inl hord
  · obtain ⟨pre, r, post, rfl, hpre, hout⟩ := exists_outdated hord
    obtain ⟨g₀, hg₀, hrun₀⟩ := graphLoop_inOrder hpre
    rw [List.flatMap_append, hrun₀, List.flatMap_cons, graphLoop_record,
      if_pos ((stale_iff hg₀).mpr hout)] at hrun
    have hsub : ∀ s ∈ post, s ∈ pre ++ r :: post := fun s hs => by simp [hs]
    rcases misaligned hsub r.no_nul_listText hg₀.nodup hrun with hbad | ⟨rfl, hstale, -⟩
    · exact absurd hbad (hg.not_bogus hap)
    · obtain ⟨q, hq, hqt, hpos⟩ := (stale_iff hg₀).mp hstale
      obtain ⟨b, hb, hbt⟩ := r.neighbors_eq_singleton hqt.symm
      exact Or.inr ⟨pre, r, b, rfl, hpre, hout, hb, q, hq, hbt.symm, hpos⟩

/-- No sender uses a sequence number twice. -/
def DistinctSeqs (recs : List LsaRecord) : Prop :=
  (recs.map (fun r => (r.sender.text, r.seq.value))).Nodup

theorem DistinctSeqs.eq_of_seq {recs : List LsaRecord} (h : DistinctSeqs recs) {q r : LsaRecord}
    (hq : q ∈ recs) (hr : r ∈ recs) (hs : SameSender q r) (hv : q.seq.value = r.seq.value) :
    q = r :=
  List.inj_on_of_nodup_map h hq hr (Prod.ext hs hv)

/-- The nodes do not depend on the order of the records. -/
theorem Loads.subset_of_perm {recs recs' : List LsaRecord} {g g' : Graph} (h : Loads recs g)
    (h' : Loads recs' g') (hperm : recs.Perm recs') (hdist : DistinctSeqs recs) {n : GraphNode}
    (hn : n ∈ g) : n ∈ g' := by
  obtain ⟨pre, r, post, hrecs, rfl, hpre, hpost⟩ := h.freshest n hn
  have hr : r ∈ recs := by rw [hrecs]; simp
  have hname : r.sender.text ∈ g'.names := (h'.names _).mpr ⟨r, hperm.mem_iff.mp hr, rfl⟩
  obtain ⟨n', hn', hnn'⟩ := List.mem_map.mp hname
  obtain ⟨pre', r', post', hrecs', rfl, hpre', hpost'⟩ := h'.freshest n' hn'
  have hr' : r' ∈ recs' := by rw [hrecs']; simp
  have hle : r.seq.value ≤ r'.seq.value :=
    le_of_freshest hpre' hpost' (hrecs' ▸ hperm.mem_iff.mp hr) hnn'.symm
  have hge : r'.seq.value ≤ r.seq.value :=
    le_of_freshest hpre hpost (hrecs ▸ hperm.mem_iff.mpr hr') hnn'
  rw [hdist.eq_of_seq hr (hperm.mem_iff.mpr hr') hnn'.symm (Int.le_antisymm hle hge)]
  exact hn'

/-- The two files are loaded into the same nodes. -/
def SameNodes (file file' : Bytes) : Prop :=
  ∃ g g', graphInit (some file) = .ok (0, g) ∧ graphInit (some file') = .ok (0, g') ∧
    ∀ n, n ∈ g ↔ n ∈ g'

/-- **The order of the records**: a file that is read in step is loaded as it should be; among the
files whose names are not sequence numbers, no other file is; and files read in step with the same
records are loaded into the same nodes. -/
theorem graphInit_readInStep {file : Bytes} {recs : List LsaRecord}
    (hfile : words file = recs.flatMap tokens) :
    (ReadInStep recs → LoadsFresh file recs) ∧
    (NamesApart recs → LoadsFresh file recs → ReadInStep recs) ∧
    ∀ (file' : Bytes) (recs' : List LsaRecord), words file' = recs'.flatMap tokens →
      recs.Perm recs' → DistinctSeqs recs → ReadInStep recs → ReadInStep recs' →
      SameNodes file file' := by
  refine ⟨loadsFresh_of_readInStep hfile, readInStep_of_loadsFresh hfile, ?_⟩
  intro file' recs' hfile' hperm hdist hstep hstep'
  obtain ⟨g, hrun, hg⟩ := loadsFresh_of_readInStep hfile hstep
  obtain ⟨g', hrun', hg'⟩ := loadsFresh_of_readInStep hfile' hstep'
  have hdist' : DistinctSeqs recs' := (hperm.map _).nodup_iff.mp hdist
  exact ⟨g, g', hrun, hrun', fun n => ⟨hg.subset_of_perm hg' hperm hdist,
    hg'.subset_of_perm hg hperm.symm hdist'⟩⟩

/-! ## Two records of one sender -/

def nodeA : NodeName := ⟨ascii "a", ⟨by decide, not_of_any rfl, by decide⟩, not_of_any rfl, by decide⟩
def nodeQ : NodeName := ⟨ascii "q", ⟨by decide, not_of_any rfl, by decide⟩, not_of_any rfl, by decide⟩
def nodeR : NodeName := ⟨ascii "r", ⟨by decide, not_of_any rfl, by decide⟩, not_of_any rfl, by decide⟩

def seq3 : SeqText := ⟨ascii "3", ⟨by decide, not_of_any rfl, by decide⟩, not_of_any rfl, by decide⟩
def seq5 : SeqText := ⟨ascii "5", ⟨by decide, not_of_any rfl, by decide⟩, not_of_any rfl, by decide⟩

/-- The older record `a 3 q,r` and the newer one `a 5 r`. -/
def olderA : LsaRecord := ⟨nodeA, seq3, [nodeQ, nodeR], by decide, by decide, by decide⟩
def newerA : LsaRecord := ⟨nodeA, seq5, [nodeR], by decide, by decide, by decide⟩

theorem graphInit_readInStep_newerLast :
    LoadsFresh (ascii "a 3 q,r\na 5 r\n") [olderA, newerA] := by
  refine (graphInit_readInStep (by decide)).1 (Or.inl ?_)
  refine List.pairwise_pair.mpr (fun _ => ?_)
  decide

/-- **The newer record first**: the list of the older one becomes a node. -/
theorem graphInit_bogusNode : ¬ ∀ (file : Bytes) (recs : List LsaRecord),
    words file = recs.flatMap tokens → LoadsFresh file recs := by
  intro h
  obtain ⟨g, hrun, hg⟩ := h (ascii "a 5 r\na 3 q,r\n") [newerA, olderA] (by decide)
  have hload : graphInit (some (ascii "a 5 r\na 3 q,r\n")) =
      .ok (0, [⟨ascii "q,r", 0, []⟩, ⟨ascii "a", 5, [ascii "r"]⟩]) := by decide +kernel
  rw [hload] at hrun
  cases hrun
  obtain ⟨r, hr, hname⟩ := (hg.names (ascii "q,r")).mp (by decide)
  rcases List.mem_cons.mp hr with rfl | hr
  · exact absurd hname (by decide)
  · rw [List.mem_singleton.mp hr] at hname
    exact absurd hname (by decide)

end VideoCdn
