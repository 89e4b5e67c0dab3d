import VideoCdn.Servers
import VideoCdn.Genlsa

/-!
# The two readers of a servers file (`get_servers` of `src/nameserver.c`, `common/util.py`,
`netsim/netsim.py`)

* `stripComments`, `getServerIpList` — the reader of `netsim.py`.
* `ServerLine` — the lines that it accepts: blanks, an address or none, and a comment or none.
* `getServerIpList_serverLines` — **what it returns**: the addresses.
* `newServer_serverLine` — what `get_servers` makes of such a line, if it fits in `sname`.
* `readersAgree_iff` — the two agree exactly if every line has an address and fits.
* `readers_blankLine` — a blank line.
-/

set_option autoImplicit false

namespace VideoCdn

open CLib

/-! ## The reader of `netsim.py` -/

/-- `strip_comments`: what is in front of the first `#` of each line, unless that is blank. -/
def stripComments (file : Bytes) : List Bytes :=
  (getlines file).filterMap fun line =>
    let line := strip (line.takeWhile (· != 35))
    if line = [] then none else some line

def getServerIpList (file : Bytes) : List Bytes := (stripComments file).map strip

/-- The octets of an address. -/
def octetsOf (ip : Bytes) : Bytes :=
  (ip.splitOnP (· == 46)).map fun octet => UInt8.ofNat (digitsValue octet)

/-- Both read the same addresses, in the same order; `uninit` is what `malloc` left in the entries. -/
def ReadersAgree (uninit : Nat → Nat → UInt8) (file : Bytes) : Prop :=
  ∃ servers, getServers uninit (some file) = .ok servers ∧
    servers.map Server.hex = (getServerIpList file).map octetsOf

/-! ## Lines with an address -/

/-- An address of at most 14 characters. -/
structure Quad where
  octets : List OctetText
  four : octets.length = 4
  short : ([46].intercalate (octets.map OctetText.text)).length ≤ 14

def Quad.text (q : Quad) : Bytes := [46].intercalate (q.octets.map OctetText.text)

def Quad.address (q : Quad) : Bytes := q.octets.map OctetText.value

/-- A blank inside a line. -/
structure Blank (s : Bytes) : Prop where
  space : ∀ c ∈ s, isSpace c = true
  no_newline : (10 : UInt8) ∉ s

/-- A line of the file. -/
structure ServerLine where
  lead : Bytes
  quad : Option Quad
  trail : Bytes
  comment : Bytes
  eol : Bytes
  lead_blank : Blank lead
  trail_blank : Blank trail
  comment_eq : comment = [] ∨ ∃ text, comment = 35 :: text ∧ (10 : UInt8) ∉ text
  eol_eq : eol = [10] ∨ eol = []

/-- The address, if the line has one. -/
def ServerLine.quadText (l : ServerLine) : Bytes :=
  match l.quad with
  | none => []
  | some q => q.text

def ServerLine.text (l : ServerLine) : Bytes :=
  l.lead ++ l.quadText ++ l.trail ++ (l.comment ++ l.eol)

section quad
variable (q : Quad)

theorem Quad.exists_octets : ∃ a b c d : OctetText, q.octets = [a, b, c, d] ∧
    q.text = a.text ++ 46 :: (b.text ++ 46 :: (c.text ++ 46 :: d.text)) := by
  obtain ⟨octets, four, short⟩ := q
  obtain ⟨a, b, c, d, rfl⟩ : ∃ a b c d, octets = [a, b, c, d] := by
    match octets, four with
    | [a, b, c, d], _ => exact ⟨a, b, c, d, rfl⟩
  exact ⟨a, b, c, d, rfl, by simp [Quad.text, List.intercalate]⟩

/-- The bytes of an address are digits and dots. -/
theorem Quad.mem_text {x : UInt8} (h : x ∈ q.text) : isDigit x = true ∨ x = 46 := by
  obtain ⟨a, b, c, d, -, htext⟩ := q.exists_octets
  rw [htext] at h
  simp only [List.mem_append, List.mem_cons] at h
  rcases h with h | rfl | h | rfl | h | rfl | h
  · exact Or.inl (a.digits x h)
  · exact Or.inr rfl
  · exact Or.inl (b.digits x h)
  · exact Or.inr rfl
  · exact Or.inl (c.digits x h)
  · exact Or.inr rfl
  · exact Or.inl (d.digits x h)

theorem Quad.not_space {x : UInt8} (h : x ∈ q.text) : isSpace x = false := by
  rcases q.mem_text h with hd | rfl
  · exact not_isSpace_of_isDigit hd
  · rfl

theorem Quad.no_nul : (0 : UInt8) ∉ q.text := by
  intro h
  rcases q.mem_text h with hd | hd
  · exact absurd hd (by decide)
  · exact absurd hd (by decide)

theorem Quad.no_hash : (35 : UInt8) ∉ q.text := by
  intro h
  rcases q.mem_text h with hd | hd
  · exact absurd hd (by decide)
  · exact absurd hd (by decide)

theorem Quad.ne_nil : q.text ≠ [] := by
  obtain ⟨a, b, c, d, -, htext⟩ := q.exists_octets
  rw [htext]
  simp

/-- The octets of the text are those of the address. -/
theorem Quad.octetsOf_text : octetsOf q.text = q.address := by
  obtain ⟨a, b, c, d, hoctets, htext⟩ := q.exists_octets
  have hdot : ((46 : UInt8) == 46) = true := rfl
  have hno : ∀ o : OctetText, ∀ x ∈ o.text, (x == 46) = false :=
    fun o x hx => not_dot_of_isDigit (o.digits x hx)
  unfold octetsOf Quad.address
  rw [htext, hoctets, List.splitOnP_append_cons_of_forall_mem (hno a) 46 hdot,
    List.splitOnP_append_cons_of_forall_mem (hno b) 46 hdot,
    List.splitOnP_append_cons_of_forall_mem (hno c) 46 hdot, List.splitOnP_eq_singleton (hno d)]
  rfl

end quad

/-- The first token of a text that begins with a word. -/
theorem exists_strtok_word {p : UInt8 → Bool} {word rest : Bytes} (hword : word ≠ [])
    (hp : ∀ c ∈ word, p c = false) :
    ∃ more, strtok p (word ++ rest) = (word ++ rest.takeWhile (fun c => !p c)) :: more := by
  have hfirst : ∀ c ∈ word ++ rest.takeWhile (fun c => !p c), p c = false := by
    intro c hc
    rcases List.mem_append.mp hc with hc | hc
    · exact hp c hc
    · simpa using List.mem_takeWhile_imp hc
  have hne : word ++ rest.takeWhile (fun c => !p c) ≠ [] := by simp [hword]
  have hsplit : word ++ rest = (word ++ rest.takeWhile (fun c => !p c)) ++
      rest.dropWhile (fun c => !p c) := by
    rw [List.append_assoc, List.takeWhile_append_dropWhile]
  rw [hsplit]
  cases hdrop : rest.dropWhile (fun c => !p c) with
  | nil =>
    rw [List.append_nil]
    exact ⟨[], strtok_token hne hfirst⟩
  | cons d s =>
    have hd : p d = true := by
      have hnot := List.head?_dropWhile_not (fun c => !p c) rest
      rw [hdrop] at hnot
      simpa using hnot
    exact ⟨strtok p s, strtok_token_append hne hfirst hd s⟩

/-- **The address bytes** of a line with blanks in front of its address, whatever stands behind it. -/
theorem translateIpToHex_quad (q : Quad) {lead rest : Bytes} (hlead : Blank lead)
    (hrest : ∀ c ∈ rest.head?, isDigit c = false ∧ c ≠ 46) (hex : Nat → UInt8) :
    translateIpToHex (lead ++ q.text ++ rest) hex = q.address := by
  obtain ⟨a, b, c, d, hoctets, htext⟩ := q.exists_octets
  have hdot : ((46 : UInt8) == 46) = true := rfl
  have hno : ∀ o : OctetText, ∀ x ∈ o.text, (x == 46) = false :=
    fun o x hx => not_dot_of_isDigit (o.digits x hx)
  have hfirst : ∀ x ∈ lead ++ a.text, (x == 46) = false := by
    intro x hx
    rcases List.mem_append.mp hx with hx | hx
    · rw [beq_eq_false_iff_ne]
      rintro rfl
      exact absurd (hlead.space 46 hx) (by decide)
    · exact hno a x hx
  obtain ⟨more, hlast⟩ : ∃ more, strtok (· == 46) (d.text ++ rest) =
      (d.text ++ rest.takeWhile (fun c => !(c == 46))) :: more :=
    exists_strtok_word d.ne_nil (hno d)
  have hsplit : lead ++ q.text ++ rest =
      (lead ++ a.text) ++ 46 :: (b.text ++ 46 :: (c.text ++ 46 :: (d.text ++ rest))) := by
    rw [htext]
    simp
  have htokens : strtok (· == 46) (lead ++ q.text ++ rest) = (lead ++ a.text) :: b.text :: c.text ::
      (d.text ++ rest.takeWhile (fun c => !(c == 46))) :: more := by
    rw [hsplit, strtok_token_append (by simp [a.ne_nil]) hfirst hdot,
      strtok_token_append b.ne_nil (hno b) hdot, strtok_token_append c.ne_nil (hno c) hdot, hlast]
  have hplain : ∀ o : OctetText, toChar (atoi o.text) = o.value := by
    intro o
    have hatoi := atoi_octet_append o (s := []) (by simp)
    rw [List.append_nil] at hatoi
    rw [hatoi, toChar_octet]
  have hhead : toChar (atoi (lead ++ a.text)) = a.value := by
    rw [atoi_space_append hlead.space, hplain]
  have hend : toChar (atoi (d.text ++ rest.takeWhile (fun c => !(c == 46)))) = d.value := by
    have hstop : ∀ x ∈ (rest.takeWhile (fun c => !(c == 46))).head?, isDigit x = false := by
      cases rest with
      | nil => simp
      | cons x rest =>
        obtain ⟨hdigit, hne⟩ := hrest x rfl
        simp [hne, hdigit]
    rw [atoi_octet_append d hstop, toChar_octet]
  unfold translateIpToHex Quad.address
  rw [htokens, hoctets]
  simp [hplain, hhead, hend]

/-! ## What `netsim.py` returns -/

/-- Blanks at both ends are stripped. -/
theorem strip_pad {lead word trail : Bytes} (hlead : ∀ c ∈ lead, isSpace c = true)
    (htrail : ∀ c ∈ trail, isSpace c = true) (hword : ∀ c ∈ word, isSpace c = false) :
    strip (lead ++ word ++ trail) = word := by
  unfold strip
  rw [List.append_assoc, List.dropWhile_append_of_pos hlead]
  cases word with
  | nil =>
    have hnil : trail.dropWhile isSpace = [] := List.dropWhile_eq_nil_iff.mpr htrail
    rw [List.nil_append, hnil]
    rfl
  | cons c word =>
    have hfirst : (c :: word ++ trail).dropWhile isSpace = c :: word ++ trail := by
      rw [List.cons_append, List.dropWhile_cons, hword c List.mem_cons_self]
      rfl
    have htrail' : ∀ x ∈ trail.reverse, isSpace x = true :=
      fun x hx => htrail x (List.mem_reverse.mp hx)
    have hlast : (c :: word).reverse.dropWhile isSpace = (c :: word).reverse := by
      cases hrev : (c :: word).reverse with
      | nil => rfl
      | cons d rest =>
        have hd : d ∈ c :: word := List.mem_reverse.mp (hrev ▸ List.mem_cons_self)
        rw [List.dropWhile_cons, hword d hd]
        rfl
    rw [hfirst, List.reverse_append, List.dropWhile_append_of_pos htrail', hlast,
      List.reverse_reverse]

section serverLine
variable (l : ServerLine)

theorem ServerLine.mem_quadText {x : UInt8} (h : x ∈ l.quadText) :
    isSpace x = false ∧ x ≠ 0 ∧ x ≠ 35 := by
  unfold ServerLine.quadText at h
  cases hq : l.quad with
  | none =>
    rw [hq] at h
    cases h
  | some q =>
    rw [hq] at h
    exact ⟨q.not_space h, fun h0 => q.no_nul (h0 ▸ h), fun h0 => q.no_hash (h0 ▸ h)⟩

/-- The comment is cut, and what is around the address is stripped. -/
theorem ServerLine.strip_text : strip (l.text.takeWhile (· != 35)) = l.quadText := by
  have hspace : ∀ {s : Bytes}, Blank s → ∀ c ∈ s, (c != 35) = true := by
    intro s hs c hc
    rw [bne_iff_ne]
    rintro rfl
    exact absurd (hs.space 35 hc) (by decide)
  have hfront : ∀ c ∈ l.lead ++ l.quadText ++ l.trail, (c != 35) = true := by
    intro c hc
    simp only [List.mem_append] at hc
    rcases hc with (hc | hc) | hc
    · exact hspace l.lead_blank c hc
    · rw [bne_iff_ne]
      exact (l.mem_quadText hc).2.2
    · exact hspace l.trail_blank c hc
  have hrest : ∀ c ∈ (l.comment ++ l.eol).takeWhile (· != 35), isSpace c = true := by
    intro c hc
    rcases l.comment_eq with hcomment | ⟨text, hcomment, -⟩
    · rw [hcomment, List.nil_append] at hc
      have hmem := (List.takeWhile_prefix _).subset hc
      rcases l.eol_eq with heol | heol
      · rw [heol, List.mem_singleton] at hmem
        rw [hmem]
        rfl
      · rw [heol] at hmem
        cases hmem
    · rw [hcomment] at hc
      simp at hc
  unfold ServerLine.text
  rw [List.takeWhile_append_of_pos hfront, List.append_assoc (l.lead ++ l.quadText)]
  apply strip_pad l.lead_blank.space
  · intro c hc
    rcases List.mem_append.mp hc with hc | hc
    · exact l.trail_blank.space c hc
    · exact hrest c hc
  · intro c hc
    exact (l.mem_quadText hc).1

end serverLine

/-- **What `get_server_ip_list` returns**: the addresses, in the order of their lines. -/
theorem getServerIpList_serverLines {file : Bytes} {lines : List ServerLine}
    (hfile : getlines file = lines.map ServerLine.text) :
    getServerIpList file = lines.filterMap fun l => l.quad.map Quad.text := by
  unfold getServerIpList stripComments
  rw [hfile, List.filterMap_map, List.map_filterMap]
  refine List.filterMap_congr (fun l _ => ?_)
  rw [Function.comp_apply, l.strip_text]
  unfold ServerLine.quadText
  cases l.quad with
  | none => rfl
  | some q =>
    have hstrip : strip q.text = q.text := by
      have hpad : strip ([] ++ q.text ++ []) = q.text :=
        strip_pad (by simp) (by simp) (fun c hc => q.not_space hc)
      simpa using hpad
    simp [q.ne_nil, hstrip]

/-! ## What `get_servers` makes of the lines -/

/-- The line has an address and, with its terminator, fits in `sname`. -/
structure ServerLine.Read (l : ServerLine) (q : Quad) : Prop where
  quad : l.quad = some q
  fits : (cstr l.text).length ≤ 14

/-- **Such a line** becomes an entry with its address. -/
theorem newServer_serverLine {l : ServerLine} {q : Quad} (h : l.Read q) (uninit : Nat → UInt8) :
    ∃ s, newServer uninit l.text = .ok s ∧ s.hex = q.address := by
  refine ⟨_, dif_pos (Nat.lt_succ_of_le h.fits), ?_⟩
  show translateIpToHex (cstr l.text) uninit = q.address
  have hblank : ∀ {s : Bytes}, Blank s → (0 : UInt8) ∉ s :=
    fun hs h0 => absurd (hs.space 0 h0) (by decide)
  have hfront : (0 : UInt8) ∉ l.lead ++ q.text ++ l.trail := by
    simp only [List.mem_append, not_or]
    exact ⟨⟨hblank l.lead_blank, q.no_nul⟩, hblank l.trail_blank⟩
  have htext : cstr l.text = l.lead ++ q.text ++ (l.trail ++ cstr (l.comment ++ l.eol)) := by
    unfold ServerLine.text ServerLine.quadText
    rw [h.quad]
    dsimp only
    rw [cstr_append hfront, List.append_assoc (l.lead ++ q.text)]
  rw [htext]
  apply translateIpToHex_quad q l.lead_blank
  -- behind the address stands a blank, the comment or the end of the line
  cases htrail : l.trail with
  | cons c trail =>
    intro x hx
    obtain rfl : c = x := by simpa using hx
    have hc := l.trail_blank.space c (htrail ▸ List.mem_cons_self)
    constructor
    · rw [← Bool.not_eq_true]
      intro hdigit
      rw [not_isSpace_of_isDigit hdigit] at hc
      cases hc
    · rintro rfl
      exact absurd hc (by decide)
  | nil =>
    rcases l.comment_eq with hcomment | ⟨text, hcomment, -⟩
    · rcases l.eol_eq with heol | heol
      · rw [hcomment, heol]
        simp [cstr, isDigit]
      · rw [hcomment, heol]
        simp [cstr]
    · rw [hcomment]
      simp [cstr, isDigit]

/-- The loop of `get_servers`. -/
def readServers (uninit : Nat → Nat → UInt8) (lines : List Bytes) (list : List Server) :
    Checked (List Server) :=
  lines.foldlM (fun list line => do
    let tmp ← newServer (uninit list.length) line
    return list ++ [tmp]) list

/-- Every line becomes an entry, if it fits. -/
theorem readServers_length {uninit : Nat → Nat → UInt8} {lines : List Bytes}
    {list servers : List Server} (h : readServers uninit lines list = .ok servers) :
    servers.length = list.length + lines.length ∧ ∀ line ∈ lines, (cstr line).length ≤ 14 := by
  unfold readServers at h
  induction lines generalizing list with
  | nil =>
    cases h
    exact ⟨rfl, by simp⟩
  | cons line lines ih =>
    rw [List.foldlM_cons] at h
    simp only [bind_eq_ok, pure_eq_ok, Except.ok.injEq] at h
    obtain ⟨_, ⟨s, hs, rfl⟩, hrest⟩ := h
    obtain ⟨hlen, hfits⟩ := ih hrest
    have hline : (cstr line).length ≤ 14 := by
      unfold newServer at hs
      split at hs
      · omega
      · cases hs
    refine ⟨?_, List.forall_mem_cons.mpr ⟨hline, hfits⟩⟩
    rw [hlen, List.length_append, List.length_singleton, List.length_cons]
    omega

theorem readServers_serverLines (uninit : Nat → Nat → UInt8) {lines : List ServerLine}
    (h : ∀ l ∈ lines, ∃ q, l.Read q) (list : List Server) :
    ∃ added, readServers uninit (lines.map ServerLine.text) list = .ok (list ++ added) ∧
      added.map Server.hex = lines.filterMap fun l => l.quad.map Quad.address := by
  unfold readServers
  induction lines generalizing list with
  | nil => exact ⟨[], by simp, rfl⟩
  | cons l lines ih =>
    obtain ⟨⟨q, hq⟩, hlines⟩ := List.forall_mem_cons.mp h
    obtain ⟨s, hs, hhex⟩ := newServer_serverLine hq (uninit list.length)
    obtain ⟨added, hadded, hhexs⟩ := ih hlines (list ++ [s])
    refine ⟨s :: added, ?_, ?_⟩
    · rw [List.map_cons, List.foldlM_cons, hs, ok_bind, pure_eq_ok, ok_bind, hadded]
      simp
    · rw [List.map_cons, hhex, hhexs, List.filterMap_cons, hq.quad]
      rfl

/-- **The readers agree** on a file of such lines exactly if every line has an address and is, with its
blanks, its comment and its terminator, at most 14 bytes long up to the first NUL. -/
theorem readersAgree_iff (uninit : Nat → Nat → UInt8) {file : Bytes} {lines : List ServerLine}
    (hfile : getlines file = lines.map ServerLine.text) :
    ReadersAgree uninit file ↔
      ∀ l ∈ lines, l.quad.isSome = true ∧ (cstr l.text).length ≤ 14 := by
  have hread : ∀ servers, getServers uninit (some file) = .ok servers ↔
      readServers uninit (lines.map ServerLine.text) [] = .ok servers := by
    intro servers
    rw [← hfile]
    rfl
  unfold ReadersAgree
  rw [getServerIpList_serverLines hfile]
  constructor
  · rintro ⟨servers, hservers, hhex⟩
    obtain ⟨hlen, hfits⟩ := readServers_length ((hread servers).mp hservers)
    have hcount := congrArg List.length hhex
    rw [List.length_map, List.length_map, hlen, List.length_map, List.length_nil, Nat.zero_add] at hcount
    have hall := List.filterMap_length_eq_length.mp hcount.symm
    intro l hl
    refine ⟨?_, hfits _ (List.mem_map_of_mem hl)⟩
    have hsome := hall l hl
    rwa [Option.isSome_map] at hsome
  · intro h
    have hlines : ∀ l ∈ lines, ∃ q, l.Read q := by
      intro l hl
      obtain ⟨hquad, hfits⟩ := h l hl
      obtain ⟨q, hq⟩ := Option.isSome_iff_exists.mp hquad
      exact ⟨q, hq, hfits⟩
    obtain ⟨servers, hservers, hhex⟩ := readServers_serverLines uninit hlines []
    refine ⟨servers, (hread servers).mpr hservers, ?_⟩
    rw [hhex, List.map_filterMap]
    refine List.filterMap_congr (fun l _ => ?_)
    cases l.quad with
    | none => rfl
    | some q =>
      show some q.address = some (octetsOf q.text)
      rw [q.octetsOf_text]

/-! ## A file with a blank line -/

theorem digitsValue_one : digitsValue [49] ≤ 255 := by decide

/-- An octet of one digit. -/
def octetOne : OctetText := ⟨[49], List.cons_ne_nil 49 [], by simp [isDigit], digitsValue_one⟩

/-- The address `1.1.1.1`. -/
def quadOnes : Quad := ⟨[octetOne, octetOne, octetOne, octetOne], rfl, by decide⟩

def serverOnes : ServerLine where
  lead := [32]
  quad := some quadOnes
  trail := [32]
  comment := ascii "#s"
  eol := [10]
  lead_blank := ⟨by simp [isSpace], by decide⟩
  trail_blank := ⟨by simp [isSpace], by decide⟩
  comment_eq := Or.inr ⟨ascii "s", rfl, by decide⟩
  eol_eq := Or.inl rfl

def blankServerLine : ServerLine where
  lead := []
  quad := none
  trail := []
  comment := []
  eol := [10]
  lead_blank := ⟨by simp, by simp⟩
  trail_blank := ⟨by simp, by simp⟩
  comment_eq := Or.inl rfl
  eol_eq := Or.inl rfl

theorem readersAgree_ones : ReadersAgree (fun _ _ => 0) serverOnes.text := by
  have hlines : getlines serverOnes.text = [serverOnes].map ServerLine.text := by decide
  apply (readersAgree_iff _ hlines).mpr
  intro l hl
  rw [List.mem_singleton.mp hl]
  exact ⟨rfl, by decide⟩

/-- **A blank line** becomes a server without an address. -/
theorem readers_blankLine : ¬ ∀ (uninit : Nat → Nat → UInt8) (file : Bytes) (lines : List ServerLine),
    getlines file = lines.map ServerLine.text → ReadersAgree uninit file := by
  intro h
  have hlines : getlines [10] = [blankServerLine].map ServerLine.text := by decide
  obtain ⟨servers, hservers, hhex⟩ := h (fun _ _ => 0) [10] [blankServerLine] hlines
  rw [getServerIpList_serverLines hlines] at hhex
  have hread : readServers (fun _ _ => 0) [[10]] [] = .ok servers := hservers
  obtain ⟨hlen, -⟩ := readServers_length hread
  have hcount := congrArg List.length hhex
  rw [List.length_map, hlen] at hcount
  exact absurd hcount (by decide)

end VideoCdn
