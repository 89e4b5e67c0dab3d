import VideoCdn.LsaOrder
import VideoCdn.Lib.Worklist

/-!
# The generator of LSA files (`lsa/genlsa.py`)

* `Links`, `readLinks` — the dictionary of neighbour lists, and the loop that reads it.
* `bfs`, `generateLsas`, `genlsa` — one round in breadth-first order, with the LSAs that are heard,
  and the rounds.  An exception of Python ends the process.
* `readLinks_spec` — every name that is mentioned in the file has an entry.
* `generateLsas_spec` — a round ends, and what it prints are entries of the dictionary.
* `genlsa_loaded` — what `graph_init` makes of the text.
-/

set_option autoImplicit false

namespace VideoCdn

open CLib Worklist

/-! ## The generator -/

/-- The dictionary that `read_links` returns. -/
abbrev Links := List (Bytes × List Bytes)

/-- The names that are keys of the dictionary. -/
def Links.keys (links : Links) : List Bytes := links.map Prod.fst

/-- `if node not in links: links[node] = []`. -/
def Links.addNode (links : Links) (node : Bytes) : Links :=
  if links.keys.contains node then links else links ++ [(node, [])]

/-- `links[node].append(neighbor)`. -/
def Links.append (links : Links) (node neighbor : Bytes) : Links :=
  links.map fun p => if p.1 = node then (p.1, p.2 ++ [neighbor]) else p

/-- `line.strip()`. -/
def strip (line : Bytes) : Bytes :=
  (((line.dropWhile isSpace).reverse).dropWhile isSpace).reverse

/-- The body of the loop of `read_links`; a line without a second name is an `IndexError`. -/
def addLink (links : Links) (line : Bytes) : Checked Links :=
  match (strip line).splitOnP (· == 32) with
  | n₀ :: n₁ :: _ =>
    let links := (links.addNode n₀).addNode n₁
    .ok ((links.append n₀ n₁).append n₁ n₀)
  | _ => .error .exit

def readLinks (file : Bytes) : Checked Links := (getlines file).foldlM addLink []

/-- The arguments of `lsa_string`. -/
structure Lsa where
  sender : Bytes
  seqnum : Nat
  neighbors : List Bytes
  deriving DecidableEq, Repr

def lsaString (lsa : Lsa) : Bytes :=
  lsa.sender ++ [32] ++ decimal lsa.seqnum ++ [32] ++ [44].intercalate lsa.neighbors

/-- The names in the dictionary, as keys and as neighbours. -/
def Links.names (links : Links) : Finset Bytes :=
  (links.flatMap fun p => p.1 :: p.2).toFinset

theorem Links.mem_names {links : Links} {node : Bytes} {neighbors : List Bytes}
    (h : links.lookup node = some neighbors) : ∀ n ∈ neighbors, n ∈ links.names := by
  intro n hn
  unfold Links.names
  rw [List.mem_toFinset, List.mem_flatMap]
  obtain ⟨pre, post, hlinks, -⟩ := List.lookup_eq_some_iff.mp h
  exact ⟨(node, neighbors), by rw [hlinks]; simp, List.mem_cons_of_mem _ hn⟩

/-- The loop of `generate_LSAs`, from its turn `k` on: the LSA of that turn is printed if
`heard k`. -/
def bfs (links : Links) (heard : Nat → Bool) (roundNum k : Nat) (visited : Finset Bytes) :
    List Bytes → Checked (List Lsa)
  | [] => .ok []
  | current :: rest =>
    match h : links.lookup current with
    | none => .error .exit
    | some neighbors => do
      let lsas ← bfs links heard roundNum (k + 1) (insert current visited)
        (enqueue (insert current visited) rest neighbors)
      return if heard k then ⟨current, roundNum, neighbors⟩ :: lsas else lsas
termination_by toVisit => pending links.names visited toVisit
decreasing_by exact pending_step (Links.mem_names h)

/-- `generate_LSAs`; a sink that is no key is a `KeyError`. -/
def generateLsas (links : Links) (sinkNode : Bytes) (roundNum : Nat) (heard : Nat → Bool) :
    Checked (List Lsa) :=
  match links.lookup sinkNode with
  | none => .error .exit
  | some toVisit => bfs links heard roundNum 0 {sinkNode} toVisit

/-- The rounds of `main`. -/
def rounds (links : Links) (sinkNode : Bytes) (heard : Nat → Nat → Bool) (n : Nat) :
    Checked (List Lsa) :=
  (List.range n).foldlM (fun lsas i => do
    let printed ← generateLsas links sinkNode i (heard i)
    return lsas ++ printed) []

/-- `main`. -/
def genlsa (file sinkNode : Bytes) (heard : Nat → Nat → Bool) (n : Nat) : Checked (List Lsa) := do
  let links ← readLinks file
  rounds links sinkNode heard n

/-- The text on the terminal. -/
def printed (lsas : List Lsa) : Bytes := lsas.flatMap fun lsa => lsaString lsa ++ [10]

/-! ## The dictionary -/

/-- A name in the links file. -/
structure LinkName (t : Bytes) : Prop where
  ne_nil : t ≠ []
  fits : t.length ≤ 49
  no_space : ∀ c ∈ t, isSpace c = false
  no_comma : ∀ c ∈ t, (c == 44) = false

/-- Two names on each line, with a blank between them. -/
def LinksFile (file : Bytes) : Prop :=
  ∀ line ∈ getlines file, ∃ a b, LinkName a ∧ LinkName b ∧ strip line = a ++ 32 :: b

/-- A line with two names, and the blank between them; a name may hold any other byte. -/
structure TwoNames (line a b : Bytes) : Prop where
  line : strip line = a ++ 32 :: b
  left : (32 : UInt8) ∉ a
  right : (32 : UInt8) ∉ b

theorem LinkName.no_blank {t : Bytes} (h : LinkName t) : (32 : UInt8) ∉ t := by
  intro hmem
  exact absurd (h.no_space 32 hmem) (by decide)

/-- The entries of a dictionary whose names meet `P`: a neighbour at least, and each neighbour has an
entry of its own. -/
structure Closed (P : Bytes → Prop) (links : Links) : Prop where
  name : ∀ p ∈ links, P p.1
  ne_nil : ∀ p ∈ links, p.2 ≠ []
  neighbor : ∀ p ∈ links, ∀ n ∈ p.2, n ∈ links.keys

theorem Links.mem_keys_addNode {links : Links} {node x : Bytes} :
    x ∈ (links.addNode node).keys ↔ x ∈ links.keys ∨ x = node := by
  unfold addNode
  split
  · rename_i hin
    refine ⟨Or.inl, fun h => h.elim id ?_⟩
    rintro rfl
    simpa using hin
  · simp [keys]

theorem Links.mem_addNode {links : Links} {node : Bytes} {p : Bytes × List Bytes}
    (h : p ∈ links.addNode node) : p ∈ links ∨ p = (node, []) := by
  unfold addNode at h
  split at h
  · exact Or.inl h
  · simpa using h

theorem Links.keys_append (links : Links) (node neighbor : Bytes) :
    (links.append node neighbor).keys = links.keys := by
  unfold append keys
  rw [List.map_map]
  refine List.map_congr_left (fun p _ => ?_)
  rw [Function.comp_apply]
  split <;> rfl

/-- An entry after an append comes from one before it. -/
theorem Links.mem_append {links : Links} {node neighbor : Bytes} {p : Bytes × List Bytes}
    (h : p ∈ links.append node neighbor) : ∃ q ∈ links, p.1 = q.1 ∧
      (∀ n ∈ p.2, n ∈ q.2 ∨ n = neighbor) ∧ (q.2 ≠ [] ∨ q.1 = node → p.2 ≠ []) := by
  unfold append at h
  obtain ⟨q, hq, rfl⟩ := List.mem_map.mp h
  refine ⟨q, hq, ?_⟩
  split
  · exact ⟨rfl, fun n hn => by simpa using hn, fun _ => by simp⟩
  · rename_i hne
    exact ⟨rfl, fun n hn => Or.inl hn, fun hor => hor.elim id (fun he => absurd he hne)⟩

/-- **One line** adds its edge in both directions. -/
theorem addLink_eq {links : Links} {line a b : Bytes} (h : TwoNames line a b) :
    addLink links line = .ok ((((links.addNode a).addNode b).append a b).append b a) := by
  have hblank : ∀ {t : Bytes}, (32 : UInt8) ∉ t → ∀ c ∈ t, (c == 32) = false := by
    intro t ht c hc
    rw [beq_eq_false_iff_ne]
    rintro rfl
    exact ht hc
  have hsplit : (a ++ 32 :: b).splitOnP (· == 32) = [a, b] := by
    rw [List.splitOnP_append_cons_of_forall_mem (hblank h.left) 32 rfl,
      List.splitOnP_eq_singleton (hblank h.right)]
  unfold addLink
  rw [h.line, hsplit]

/-- An entry behind a new link was there before, or is new; the ends of the link have got each other
as neighbours. -/
theorem Links.mem_linked {links : Links} {a b : Bytes} {p : Bytes × List Bytes}
    (hp : p ∈ (((links.addNode a).addNode b).append a b).append b a) :
    ∃ q, (q ∈ links ∨ q = (a, []) ∨ q = (b, [])) ∧ p.1 = q.1 ∧
      (∀ n ∈ p.2, n ∈ q.2 ∨ n = a ∨ n = b) ∧ (q.2 ≠ [] ∨ q.1 = a ∨ q.1 = b → p.2 ≠ []) := by
  obtain ⟨p₁, hp₁, hname₁, hmem₁, hne₁⟩ := Links.mem_append hp
  obtain ⟨q, hq, hname, hmem, hne⟩ := Links.mem_append hp₁
  refine ⟨q, ?_, hname₁.trans hname, fun n hn => ?_, fun hor => hne₁ ?_⟩
  · rcases Links.mem_addNode hq with hq | rfl
    · rcases Links.mem_addNode hq with hq | rfl
      · exact Or.inl hq
      · exact Or.inr (Or.inl rfl)
    · exact Or.inr (Or.inr rfl)
  · rcases hmem₁ n hn with hn | rfl
    · exact (hmem n hn).imp id Or.inr
    · exact Or.inr (Or.inl rfl)
  · rcases hor with hor | hor | hor
    · exact Or.inl (hne (Or.inl hor))
    · exact Or.inl (hne (Or.inr hor))
    · exact Or.inr (hname.trans hor)

/-- A link keeps the dictionary closed. -/
theorem Closed.link {P : Bytes → Prop} {links : Links} {a b : Bytes} (hPa : P a) (hPb : P b)
    (h : Closed P links) : Closed P ((((links.addNode a).addNode b).append a b).append b a) := by
  have hkeys : ∀ x, x ∈ ((((links.addNode a).addNode b).append a b).append b a).keys ↔
      (x ∈ links.keys ∨ x = a) ∨ x = b := by
    intro x
    rw [Links.keys_append, Links.keys_append, Links.mem_keys_addNode, Links.mem_keys_addNode]
  refine ⟨fun p hp => ?_, fun p hp => ?_, fun p hp n hn => ?_⟩
  · obtain ⟨q, hq, hname, -⟩ := Links.mem_linked hp
    rw [hname]
    rcases hq with hq | rfl | rfl
    · exact h.name q hq
    · exact hPa
    · exact hPb
  · obtain ⟨q, hq, -, -, hne⟩ := Links.mem_linked hp
    apply hne
    rcases hq with hq | rfl | rfl
    · exact Or.inl (h.ne_nil q hq)
    · exact Or.inr (Or.inl rfl)
    · exact Or.inr (Or.inr rfl)
  · obtain ⟨q, hq, -, hmem, -⟩ := Links.mem_linked hp
    rw [hkeys]
    rcases hmem n hn with hn | rfl | rfl
    · rcases hq with hq | rfl | rfl
      · exact Or.inl (Or.inl (h.neighbor q hq n hn))
      · cases hn
      · cases hn
    · exact Or.inl (Or.inr rfl)
    · exact Or.inr rfl

theorem addLink_spec {P : Bytes → Prop} {links : Links} {line a b : Bytes}
    (hline : TwoNames line a b) (hPa : P a) (hPb : P b) (h : Closed P links) :
    ∃ links', addLink links line = .ok links' ∧ Closed P links' :=
  ⟨_, addLink_eq hline, h.link hPa hPb⟩

/-- **The dictionary** of a links file. -/
theorem readLinks_spec {P : Bytes → Prop} {file : Bytes}
    (hfile : ∀ line ∈ getlines file, ∃ a b, TwoNames line a b ∧ P a ∧ P b) : ∃ links, readLinks file = .ok links ∧ Closed P links := by
  unfold readLinks
  generalize getlines file = lines at hfile
  suffices ∀ links₀, Closed P links₀ → ∃ links, lines.foldlM addLink links₀ = .ok links ∧
      Closed P links by
    exact this [] ⟨by simp, by simp, by simp⟩
  intro links₀ h₀
  induction lines generalizing links₀ with
  | nil => exact ⟨links₀, rfl, h₀⟩
  | cons line lines ih =>
    obtain ⟨a, b, hline, hPa, hPb⟩ := hfile line List.mem_cons_self
    obtain ⟨links₁, hadd, h₁⟩ := addLink_spec hline hPa hPb h₀
    obtain ⟨links, hrest, hlinks⟩ :=
      ih (fun l hl => hfile l (List.mem_cons_of_mem _ hl)) links₁ h₁
    exact ⟨links, by rw [List.foldlM_cons, hadd, ok_bind, hrest], hlinks⟩

theorem Closed.lookup_mem {links : Links} {x : Bytes} {ns : List Bytes}
    (h : links.lookup x = some ns) : (x, ns) ∈ links := by
  obtain ⟨pre, post, hlinks, -⟩ := List.lookup_eq_some_iff.mp h
  rw [hlinks]
  simp

theorem Links.exists_lookup {links : Links} {x : Bytes} (h : x ∈ links.keys) :
    ∃ ns, links.lookup x = some ns := by
  rw [← Option.isSome_iff_exists, List.lookup_isSome_iff]
  obtain ⟨p, hp, rfl⟩ := List.mem_map.mp h
  exact ⟨p, hp, by simp⟩

/-! ## The rounds -/

/-- **The search** ends, and what it prints are entries of the dictionary. -/
theorem bfs_spec {P : Bytes → Prop} {links : Links} (hlinks : Closed P links)
    (heard : Nat → Bool) (roundNum k : Nat) (visited : Finset Bytes) (toVisit : List Bytes)
    (hkeys : ∀ x ∈ toVisit, x ∈ links.keys) :
    ∃ lsas, bfs links heard roundNum k visited toVisit = .ok lsas ∧
      (∀ l ∈ lsas, l.seqnum = roundNum ∧ links.lookup l.sender = some l.neighbors) ∧
      ((∀ j, heard j = false) → lsas = []) := by
  induction k, visited, toVisit using bfs.induct links with
  | case1 k visited => exact ⟨[], by rw [bfs], by simp, fun _ => rfl⟩
  | case2 k visited current rest hnone =>
    obtain ⟨ns, hns⟩ := Links.exists_lookup (hkeys current List.mem_cons_self)
    rw [hnone] at hns
    cases hns
  | case3 k visited current rest neighbors hlookup ih =>
    have hmem : ∀ n ∈ neighbors, n ∈ links.keys :=
      fun n hn => hlinks.neighbor _ (Closed.lookup_mem hlookup) n hn
    have hqueue : ∀ x ∈ enqueue (insert current visited) rest neighbors, x ∈ links.keys := by
      intro x hx
      rcases mem_enqueue hx with hx | hx
      · exact hkeys x (List.mem_cons_of_mem _ hx)
      · exact hmem x hx
    obtain ⟨lsas, hrun, hentries, hlost⟩ := ih hqueue
    refine ⟨if heard k then ⟨current, roundNum, neighbors⟩ :: lsas else lsas, ?_, ?_, ?_⟩
    · rw [bfs]
      split
      · rename_i hnone
        rw [hlookup] at hnone
        cases hnone
      · rename_i ns hns
        rw [hlookup, Option.some.injEq] at hns
        subst hns
        rw [hrun, ok_bind]
        split <;> rfl
    · split
      · exact List.forall_mem_cons.mpr ⟨⟨rfl, hlookup⟩, hentries⟩
      · exact hentries
    · intro hall
      rw [hall k, hlost hall]
      rfl

/-- **One round** of announcements. -/
theorem generateLsas_spec {P : Bytes → Prop} {links : Links} (hlinks : Closed P links)
    {sinkNode : Bytes} (hsink : sinkNode ∈ links.keys) (roundNum : Nat) (heard : Nat → Bool) :
    ∃ lsas, generateLsas links sinkNode roundNum heard = .ok lsas ∧
      (∀ l ∈ lsas, l.seqnum = roundNum ∧ links.lookup l.sender = some l.neighbors) ∧
      ((∀ j, heard j = false) → lsas = []) := by
  obtain ⟨ns, hns⟩ := Links.exists_lookup hsink
  unfold generateLsas
  rw [hns]
  exact bfs_spec hlinks heard roundNum 0 {sinkNode} ns
    (hlinks.neighbor _ (Closed.lookup_mem hns))

theorem rounds_succ (links : Links) (sinkNode : Bytes) (heard : Nat → Nat → Bool) (n : Nat) :
    rounds links sinkNode heard (n + 1) = (do
      let lsas ← rounds links sinkNode heard n
      let printed ← generateLsas links sinkNode n (heard n)
      return lsas ++ printed) := by
  unfold rounds
  rw [List.range_succ, List.foldlM_append]
  refine bind_congr (fun lsas => ?_)
  rw [List.foldlM_cons]
  exact bind_pure _

/-- **All rounds**: the sequence numbers are those of the rounds, in order. -/
theorem rounds_spec {P : Bytes → Prop} {links : Links} (hlinks : Closed P links) {sinkNode : Bytes}
    (hsink : sinkNode ∈ links.keys) (heard : Nat → Nat → Bool) (n : Nat) :
    ∃ lsas, rounds links sinkNode heard n = .ok lsas ∧
      (∀ l ∈ lsas, l.seqnum < n ∧ links.lookup l.sender = some l.neighbors) ∧
      lsas.Pairwise (fun l l' => l.seqnum ≤ l'.seqnum) ∧
      ((∀ i < n, ∀ j, heard i j = false) → lsas = []) := by
  induction n with
  | zero => exact ⟨[], rfl, by simp, List.Pairwise.nil, fun _ => rfl⟩
  | succ n ih =>
    obtain ⟨lsas, hrun, hentries, hsorted, hlost⟩ := ih
    obtain ⟨new, hnew, hnews, hnone⟩ := generateLsas_spec hlinks hsink n (heard n)
    refine ⟨lsas ++ new, ?_, ?_, ?_, ?_⟩
    · rw [rounds_succ, hrun, ok_bind, hnew, ok_bind, pure_eq_ok]
    · intro l hl
      rcases List.mem_append.mp hl with hl | hl
      · exact ⟨Nat.lt_succ_of_lt (hentries l hl).1, (hentries l hl).2⟩
      · exact ⟨Nat.lt_succ_of_le (Nat.le_of_eq (hnews l hl).1), (hnews l hl).2⟩
    · refine List.pairwise_append.mpr ⟨hsorted, ?_, fun l hl l' hl' => ?_⟩
      · refine List.pairwise_of_forall_mem_list (fun l hl l' hl' => ?_)
        rw [(hnews l hl).1, (hnews l' hl').1]
      · rw [(hnews l' hl').1]
        exact Nat.le_of_lt (hentries l hl).1
    · intro hall
      rw [hlost (fun i hi => hall i (Nat.lt_succ_of_lt hi)), hnone (hall n (Nat.lt_succ_self n))]
      rfl

/-! ## The text as records -/

/-- The record that stands in the text for an LSA. -/
def Prints (lsa : Lsa) (r : LsaRecord) : Prop :=
  r.sender.text = lsa.sender ∧ r.seq.text = decimal lsa.seqnum ∧
    r.neighbors.map NodeName.text = lsa.neighbors

/-- Each neighbour list fits in the loader's arrays. -/
def FitsLoader (links : Links) : Prop :=
  ∀ p ∈ links, p.2.length ≤ 50 ∧ ([44].intercalate p.2).length ≤ 199

/-- What `graph_init` should make of the LSAs: a node for each sender that was heard, with the last
round in which it was, and its entry of the dictionary. -/
structure LoadsLast (links : Links) (lsas : List Lsa) (g : Graph) : Prop where
  nodup : g.names.Nodup
  names : ∀ x, x ∈ g.names ↔ ∃ l ∈ lsas, l.sender = x
  neighbors : ∀ n ∈ g, links.lookup n.name = some n.neighbors
  seq : ∀ n ∈ g, ∃ i : Nat, n.seq = i ∧ (∃ l ∈ lsas, l.sender = n.name ∧ l.seqnum = i) ∧
    ∀ l ∈ lsas, l.sender = n.name → l.seqnum ≤ i

/-- The names that the loader reads back: those of the links file, without NUL. -/
def LoadedName (t : Bytes) : Prop := LinkName t ∧ (0 : UInt8) ∉ t

theorem exists_nodeName {t : Bytes} (h : LoadedName t) : ∃ n : NodeName, n.text = t :=
  ⟨⟨t, ⟨h.1.ne_nil, h.1.no_space, h.2⟩, h.1.no_comma, Nat.lt_succ_of_le h.1.fits⟩, rfl⟩

theorem exists_nodeNames {ts : List Bytes} (h : ∀ t ∈ ts, LoadedName t) :
    ∃ ns : List NodeName, ns.map NodeName.text = ts := by
  induction ts with
  | nil => exact ⟨[], rfl⟩
  | cons t ts ih =>
    obtain ⟨n, hn⟩ := exists_nodeName (h t List.mem_cons_self)
    obtain ⟨ns, hns⟩ := ih (fun u hu => h u (List.mem_cons_of_mem _ hu))
    exact ⟨n :: ns, by rw [List.map_cons, hn, hns]⟩

theorem exists_seqText {n : Nat} (hn : n < 2147483648) : ∃ s : SeqText, s.text = decimal n := by
  have hlen : (decimal n).length ≤ 10 := by
    unfold decimal
    rw [List.length_map]
    exact Nat.toDigits_length 10 n 10 (by decide) (by omega)
  have hdigit : ∀ c ∈ decimal n, isDigit c = true := fun c hc => isDigit_of_mem_decimal hc
  refine ⟨⟨decimal n, ⟨decimal_ne_nil n, fun c hc => not_isSpace_of_isDigit (hdigit c hc), ?_⟩, ?_,
    Nat.lt_of_le_of_lt hlen (by decide)⟩, rfl⟩
  · intro h0
    exact absurd (hdigit 0 h0) (by decide)
  · intro c hc
    rw [beq_eq_false_iff_ne]
    rintro rfl
    exact absurd (hdigit 44 hc) (by decide)

/-- **An LSA with an entry of the dictionary** is a record of the file. -/
theorem exists_prints {links : Links} (hlinks : Closed LoadedName links) (hfit : FitsLoader links)
    {l : Lsa} (hseq : l.seqnum < 2147483648) (hentry : links.lookup l.sender = some l.neighbors) :
    ∃ r, Prints l r := by
  have hmem : (l.sender, l.neighbors) ∈ links := Closed.lookup_mem hentry
  obtain ⟨sender, hsender⟩ := exists_nodeName (hlinks.name _ hmem)
  obtain ⟨seq, hseq⟩ := exists_seqText hseq
  have hnames : ∀ n ∈ l.neighbors, LoadedName n := by
    intro n hn
    obtain ⟨p, hp, rfl⟩ := List.mem_map.mp (hlinks.neighbor _ hmem n hn)
    exact hlinks.name p hp
  obtain ⟨neighbors, hneighbors⟩ := exists_nodeNames hnames
  have hlen : neighbors.length = l.neighbors.length := by
    rw [← hneighbors, List.length_map]
  refine ⟨⟨sender, seq, neighbors, ?_, ?_, ?_⟩, hsender, hseq, hneighbors⟩
  · rintro rfl
    exact hlinks.ne_nil _ hmem hneighbors.symm
  · rw [hlen]
    exact (hfit _ hmem).1
  · rw [hneighbors]
    exact Nat.lt_succ_of_le (hfit _ hmem).2

/-- The list of a record is one token. -/
theorem LsaRecord.isToken_listText (r : LsaRecord) : IsToken r.listText where
  ne_nil := by
    intro hnil
    have htok := r.strtok_listText
    rw [hnil] at htok
    exact r.ne_nil (List.map_eq_nil_iff.mp htok.symm)
  no_space c hc := by
    rw [← Bool.not_eq_true]
    intro hspace
    refine notMem_intercalate (c := c) (d := 44) ?_ (fun t ht htc => ?_) hc
    · rintro rfl
      exact absurd hspace (by decide)
    · obtain ⟨n, -, rfl⟩ := List.mem_map.mp ht
      rw [n.token.no_space c htc] at hspace
      cases hspace
  no_nul := r.no_nul_listText

/-- **A line of the output** is read as the three tokens of its record. -/
theorem words_lsaString {l : Lsa} {r : LsaRecord} (h : Prints l r) (rest : Bytes) :
    words (lsaString l ++ [10] ++ rest) = r.tokens ++ words rest := by
  obtain ⟨hsender, hseq, hneighbors⟩ := h
  have htext : lsaString l ++ [10] ++ rest =
      r.sender.text ++ 32 :: (r.seq.text ++ 32 :: (r.listText ++ 10 :: rest)) := by
    simp [lsaString, LsaRecord.listText, hsender, hseq, hneighbors]
  have hlist := r.isToken_listText
  unfold words
  rw [htext, strtok_token_append r.sender.token.ne_nil r.sender.token.no_space rfl,
    strtok_token_append r.seq.token.ne_nil r.seq.token.no_space rfl,
    strtok_token_append hlist.ne_nil hlist.no_space rfl]
  rfl

theorem words_printed {record : Lsa → LsaRecord} : ∀ {lsas : List Lsa},
    (∀ l ∈ lsas, Prints l (record l)) →
      words (printed lsas) = (lsas.map record).flatMap LsaRecord.tokens
  | [], _ => rfl
  | l :: lsas, h => by
    have ih := words_printed (fun k hk => h k (List.mem_cons_of_mem l hk))
    unfold printed at ih ⊢
    rw [List.flatMap_cons, words_lsaString (h l List.mem_cons_self), ih, List.map_cons,
      List.flatMap_cons]

/-- The last round of a sender is its freshest record. -/
theorem LoadsLast.of_loads {links : Links} {lsas : List Lsa} {record : Lsa → LsaRecord} {g : Graph}
    (hprints : ∀ l ∈ lsas, Prints l (record l))
    (hentries : ∀ l ∈ lsas, l.seqnum < 2147483648 ∧ links.lookup l.sender = some l.neighbors)
    (h : Loads (lsas.map record) g) : LoadsLast links lsas g := by
  have hvalue : ∀ l ∈ lsas, (record l).seq.value = l.seqnum := by
    intro l hl
    unfold SeqText.value
    rw [(hprints l hl).2.1, atoi_decimal (hentries l hl).1]
  have hlast : ∀ n ∈ g, ∃ l ∈ lsas, n = (record l).node ∧
      ∀ k ∈ lsas, k.sender = l.sender → k.seqnum ≤ l.seqnum := by
    intro n hn
    obtain ⟨pre, r, post, hsplit, rfl, hpre, hpost⟩ := h.freshest n hn
    have hr : r ∈ lsas.map record := by rw [hsplit]; simp
    obtain ⟨l, hl, rfl⟩ := List.mem_map.mp hr
    refine ⟨l, hl, rfl, fun k hk hsender => ?_⟩
    have hin : record k ∈ pre ++ record l :: post := by
      rw [← hsplit]
      exact List.mem_map_of_mem hk
    have hle := le_of_freshest hpre hpost hin
      ((hprints k hk).1.trans (hsender.trans (hprints l hl).1.symm))
    rw [hvalue k hk, hvalue l hl] at hle
    omega
  refine ⟨h.nodup, fun x => ?_, fun n hn => ?_, fun n hn => ?_⟩
  · rw [h.names x]
    constructor
    · rintro ⟨r, hr, rfl⟩
      obtain ⟨l, hl, rfl⟩ := List.mem_map.mp hr
      exact ⟨l, hl, (hprints l hl).1.symm⟩
    · rintro ⟨l, hl, rfl⟩
      exact ⟨record l, List.mem_map_of_mem hl, (hprints l hl).1⟩
  · obtain ⟨l, hl, rfl, -⟩ := hlast n hn
    obtain ⟨hsender, -, hneighbors⟩ := hprints l hl
    show links.lookup (record l).sender.text = some ((record l).neighbors.map NodeName.text)
    rw [hsender, hneighbors]
    exact (hentries l hl).2
  · obtain ⟨l, hl, rfl, hle⟩ := hlast n hn
    have hsender := (hprints l hl).1
    refine ⟨l.seqnum, hvalue l hl, ⟨l, hl, hsender.symm, rfl⟩, fun k hk hk' => ?_⟩
    exact hle k hk (hk'.trans hsender)

/-- The generator runs through, and if the sink has an entry and the lists fit, then the text is
loaded as it should be. -/
def GeneratorAgrees (file sinkNode : Bytes) (heard : Nat → Nat → Bool) (n : Nat) : Prop :=
  ∃ links, readLinks file = .ok links ∧ (sinkNode ∈ links.keys → FitsLoader links →
    ∃ lsas g, genlsa file sinkNode heard n = .ok lsas ∧
      graphInit (some (printed lsas)) = .ok (0, g) ∧ LoadsLast links lsas g)

theorem mem_of_mem_getlines {c : UInt8} : ∀ {s line : Bytes}, line ∈ getlines s → c ∈ line → c ∈ s
  | [], line, h, _ => by cases h
  | d :: s, line, h, hc => by
    unfold getlines at h
    split at h
    · rcases List.mem_cons.mp h with rfl | h
      · rw [List.mem_singleton.mp hc]
        exact List.mem_cons_self
      · exact List.mem_cons_of_mem d (mem_of_mem_getlines h hc)
    · split at h
      · rw [List.mem_singleton.mp h] at hc
        rw [List.mem_singleton.mp hc]
        exact List.mem_cons_self
      · rename_i l ls hls
        rcases List.mem_cons.mp h with rfl | h
        · rcases List.mem_cons.mp hc with rfl | hc
          · exact List.mem_cons_self
          · exact List.mem_cons_of_mem d (mem_of_mem_getlines (hls ▸ List.mem_cons_self) hc)
        · exact List.mem_cons_of_mem d
            (mem_of_mem_getlines (hls ▸ List.mem_cons_of_mem l h) hc)

theorem mem_of_mem_strip {c : UInt8} {line : Bytes} (h : c ∈ strip line) : c ∈ line := by
  unfold strip at h
  have h₁ := (List.dropWhile_suffix isSpace).subset (List.mem_reverse.mp h)
  exact (List.dropWhile_suffix isSpace).subset (List.mem_reverse.mp h₁)

theorem readLinks_loaded {file : Bytes} (hfile : LinksFile file) (hnul : (0 : UInt8) ∉ file) :
    ∃ links, readLinks file = .ok links ∧ Closed LoadedName links := by
  refine readLinks_spec (fun line hline => ?_)
  obtain ⟨a, b, ha, hb, hstrip⟩ := hfile line hline
  have hno : (0 : UInt8) ∉ strip line :=
    fun h0 => hnul (mem_of_mem_getlines hline (mem_of_mem_strip h0))
  rw [hstrip, List.mem_append, List.mem_cons, not_or, not_or] at hno
  exact ⟨a, b, ⟨hstrip, ha.no_blank, hb.no_blank⟩, ⟨ha, hno.1⟩, ⟨hb, hno.2.2⟩⟩

/-- **Generator and loader agree**, for every pattern of lost LSAs, as long as the round numbers fit
in an `int` and no name holds a NUL. -/
theorem genlsa_loaded {file : Bytes} (hfile : LinksFile file) (hnul : (0 : UInt8) ∉ file)
    (sinkNode : Bytes) (heard : Nat → Nat → Bool) {n : Nat} (hn : n ≤ 2147483648) :
    GeneratorAgrees file sinkNode heard n := by
  obtain ⟨links, hread, hlinks⟩ := readLinks_loaded hfile hnul
  refine ⟨links, hread, fun hsink hfit => ?_⟩
  obtain ⟨lsas, hrun, hentries, hsorted, -⟩ := rounds_spec hlinks hsink heard n
  have hbound : ∀ l ∈ lsas, l.seqnum < 2147483648 ∧ links.lookup l.sender = some l.neighbors :=
    fun l hl => ⟨Nat.lt_of_lt_of_le (hentries l hl).1 hn, (hentries l hl).2⟩
  have : Nonempty LsaRecord := ⟨newerA⟩
  choose! record hprints using
    fun l (hl : l ∈ lsas) => exists_prints hlinks hfit (hbound l hl).1 (hbound l hl).2
  have horder : InOrder (lsas.map record) := by
    refine List.pairwise_map.mpr (hsorted.imp_of_mem (fun {l l'} hl hl' hle _ => ?_))
    unfold SeqText.value
    rw [(hprints l hl).2.1, (hprints l' hl').2.1, atoi_decimal (hbound l hl).1,
      atoi_decimal (hbound l' hl').1]
    exact Int.ofNat_le.mpr hle
  obtain ⟨g, hload, hg⟩ := loadsFresh_of_readInStep (words_printed hprints) (Or.inl horder)
  refine ⟨lsas, g, ?_, hload, LoadsLast.of_loads hprints hbound hg⟩
  unfold genlsa
  rw [hread, ok_bind, hrun]

/-- Two routers, in the file of one line `r1 r2`. -/
def pairFile : Bytes := ascii "r1 r2\n"
def pairLinks : Links := [(ascii "r1", [ascii "r2"]), (ascii "r2", [ascii "r1"])]

/-- The name in front of the blank ends with a NUL. -/
def nulFile : Bytes := [97, 0] ++ ascii " b\n"
def nulLinks : Links := [([97, 0], [ascii "b"]), (ascii "b", [[97, 0]])]

theorem linksFile_oneLine {a b : Bytes} (ha : LinkName a) (hb : LinkName b)
    (hlines : getlines (a ++ 32 :: b ++ [10]) = [a ++ 32 :: b ++ [10]])
    (hstrip : strip (a ++ 32 :: b ++ [10]) = a ++ 32 :: b) : LinksFile (a ++ 32 :: b ++ [10]) := by
  intro line hline
  rw [hlines, List.mem_singleton] at hline
  subst hline
  exact ⟨a, b, ha, hb, hstrip⟩

theorem linksFile_pair : LinksFile pairFile :=
  linksFile_oneLine (a := ascii "r1") (b := ascii "r2")
    ⟨by decide, by decide, not_of_any rfl, not_of_any rfl⟩
    ⟨by decide, by decide, not_of_any rfl, not_of_any rfl⟩ (by decide) (by decide)

theorem linksFile_nul : LinksFile nulFile :=
  linksFile_oneLine (a := [97, 0]) (b := ascii "b")
    ⟨by decide, by decide, not_of_any rfl, not_of_any rfl⟩
    ⟨by decide, by decide, not_of_any rfl, not_of_any rfl⟩ (by decide) (by decide)

/-- Only the second round is heard. -/
theorem genlsa_loaded_pair : GeneratorAgrees pairFile (ascii "r1") (fun i _ => i == 1) 3 :=
  genlsa_loaded linksFile_pair (by decide) _ _ (by decide)

/-- The round `2147483648` is read as a negative number. -/
theorem not_agrees_lateRound : ¬ GeneratorAgrees pairFile (ascii "r1")
    (fun i _ => i == 2147483648) (2147483648 + 1) := by
  rintro ⟨links, hread, hagree⟩
  have hpair : readLinks pairFile = .ok pairLinks := by decide +kernel
  rw [hpair, Except.ok.injEq] at hread
  subst hread
  obtain ⟨lsas, g, hrun, hload, hg⟩ := hagree (by decide) (by
    unfold FitsLoader
    decide)
  have hlast : generateLsas pairLinks (ascii "r1") 2147483648 (fun _ => true) =
      .ok [⟨ascii "r2", 2147483648, [ascii "r1"]⟩] := by decide +kernel
  obtain ⟨links, hlinks, hclosed⟩ := readLinks_loaded linksFile_pair (by decide)
  rw [hpair, Except.ok.injEq] at hlinks
  subst hlinks
  have hsink : ascii "r1" ∈ pairLinks.keys := by decide
  obtain ⟨early, hearly, -, -, hlost⟩ := rounds_spec hclosed hsink
    (fun i _ => i == 2147483648) 2147483648
  have hnone : early = [] := by
    refine hlost (fun i hi _ => ?_)
    rw [beq_eq_false_iff_ne]
    exact Nat.ne_of_lt hi
  rw [genlsa, hpair, ok_bind, rounds_succ, hearly, ok_bind, hnone] at hrun
  simp only [beq_self_eq_true] at hrun
  rw [hlast] at hrun
  cases hrun
  have hwrap : graphInit (some (printed [⟨ascii "r2", 2147483648, [ascii "r1"]⟩])) =
      .ok (0, [⟨ascii "r2", -2147483648, [ascii "r1"]⟩]) := by decide +kernel
  rw [List.nil_append, hwrap] at hload
  cases hload
  obtain ⟨i, hi, -⟩ := hg.seq _ (List.mem_singleton_self _)
  dsimp only at hi
  omega

/-- The loader cuts the name at its NUL. -/
theorem not_agrees_nul : ¬ GeneratorAgrees nulFile (ascii "b") (fun _ _ => true) 1 := by
  rintro ⟨links, hread, hagree⟩
  have hnul : readLinks nulFile = .ok nulLinks := by decide +kernel
  rw [hnul, Except.ok.injEq] at hread
  subst hread
  obtain ⟨lsas, g, hrun, hload, hg⟩ := hagree (by decide) (by
    unfold FitsLoader
    decide)
  have hlsas : genlsa nulFile (ascii "b") (fun _ _ => true) 1 = .ok [⟨[97, 0], 0, [ascii "b"]⟩] := by
    decide +kernel
  rw [hlsas] at hrun
  cases hrun
  have hcut : graphInit (some (printed [⟨[97, 0], 0, [ascii "b"]⟩])) =
      .ok (0, [⟨ascii "a", 0, [ascii "b"]⟩]) := by decide +kernel
  rw [hcut] at hload
  cases hload
  obtain ⟨l, hl, hsender⟩ := (hg.names (ascii "a")).mp (by decide)
  rw [List.mem_singleton.mp hl] at hsender
  exact absurd hsender (by decide)

/-- **Neither bound can be left out**: the rounds have to fit in an `int`, and the names must not hold
a NUL. -/
theorem genlsa_misloaded :
    (¬ ∀ (file sinkNode : Bytes) (heard : Nat → Nat → Bool) (n : Nat), LinksFile file →
      (0 : UInt8) ∉ file → GeneratorAgrees file sinkNode heard n) ∧
    ¬ ∀ (file sinkNode : Bytes) (heard : Nat → Nat → Bool) (n : Nat), LinksFile file →
      n ≤ 2147483648 → GeneratorAgrees file sinkNode heard n :=
  ⟨fun h => not_agrees_lateRound (h pairFile (ascii "r1") _ _ linksFile_pair (by decide)),
    fun h => not_agrees_nul (h nulFile (ascii "b") _ 1 linksFile_nul (by decide))⟩

end VideoCdn
