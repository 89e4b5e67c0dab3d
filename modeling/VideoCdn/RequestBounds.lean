import VideoCdn.ClientFailure
import VideoCdn.Measurement

/-!
# The arrays of a request (`handle_client_recv` of `src/handle.c`, `update_bitrate` of `src/bitrate.c`)

* `ShortRequest` — the text of a request line with one white-space byte on each side of a short path.
* `requestLine_of_named` — **the name** that is recorded is the path only in such a text.
* `loggedFile` — the array that the `LOG` behind the first `sscanf` reads, whatever the method is.
* `HandledInside` — a call reads and writes inside its arrays, the `LOG` included, and records the
  rewritten path of a chunk.
* `RequestFits` — the bytes read, the arrays they leave alone and the rate meet the bounds.
* `handledInside_iff` — a call is handled so exactly if they do; `longMethod_overflows` is a request
  that does not.
-/

set_option autoImplicit false

namespace VideoCdn

open CLib

/-! ## Request lines with a short path -/

/-- A request line from which `update_bitrate` takes the path as it is: `GET`, one white-space byte, a
path of at most 47 bytes, one more such byte, and a version that fits in its array. -/
structure ShortRequest where
  gap : UInt8
  path : Bytes
  gap' : UInt8
  version : Bytes
  rest : Bytes
  gap_space : isSpace gap = true
  path_ne_nil : path ≠ []
  path_word : ∀ c ∈ path, isSpace c = false
  path_le : path.length ≤ 47
  path_noHttp : strstr (ascii "HTTP/1.1") path = none
  gap'_space : isSpace gap' = true
  version_word : ∀ c ∈ version, isSpace c = false
  version_le : version.length ≤ 7
  rest_sep : rest = [] ∨ ∃ d p, rest = d :: p ∧ isSpace d = true

def ShortRequest.text (l : ShortRequest) : Bytes :=
  ascii "GET" ++ l.gap :: (l.path ++ l.gap' :: (ascii "HTTP/1.1" ++ l.version ++ l.rest))

namespace ShortRequest

variable (l : ShortRequest)

theorem words_text : words l.text =
    ascii "GET" :: l.path :: (ascii "HTTP/1.1" ++ l.version) :: words l.rest := by
  have hget : words (ascii "GET") = [ascii "GET"] := strtok_token (by decide) (not_of_any rfl)
  have hpath : words l.path = [l.path] := strtok_token l.path_ne_nil l.path_word
  have hversion : words (ascii "HTTP/1.1" ++ l.version) = [ascii "HTTP/1.1" ++ l.version] := by
    refine strtok_token (by simp [ascii]) (fun c hc => ?_)
    rcases List.mem_append.mp hc with hc | hc
    · exact not_of_any rfl c hc
    · exact l.version_word c hc
  have hend := words_append_sep (ascii "HTTP/1.1" ++ l.version) l.rest_sep
  unfold text
  unfold words at *
  rw [strtok_append l.gap_space, strtok_append l.gap'_space, hend, hget, hpath, hversion]
  rfl

/-- The path ends in front of the first `HTTP/1.1`. -/
theorem strstr_text : strstr (ascii "HTTP/1.1") l.text = some (5 + l.path.length) := by
  have hpre : l.text = (ascii "GET" ++ l.gap :: l.path ++ [l.gap']) ++
      (ascii "HTTP/1.1" ++ l.version ++ l.rest) := by
    unfold text
    simp
  have hlen : (ascii "GET" ++ l.gap :: l.path ++ [l.gap']).length = 5 + l.path.length := by
    simp [ascii]
    omega
  have hspace : ∀ {d : UInt8}, isSpace d = true → d ≠ 72 := by
    rintro d hd rfl
    exact absurd hd (by decide)
  refine strstr_of_first ?_ ?_ (fun j hj hp => ?_)
  · rw [hpre, List.length_append, hlen]
    omega
  · rw [hpre, List.drop_left' hlen, List.append_assoc]
    exact List.prefix_append _ _
  have hcons : ascii "HTTP/1.1" = 72 :: ascii "TTP/1.1" := rfl
  rcases Nat.lt_or_ge j 4 with h4 | h4
  · -- no byte of the method is an `H`
    have hgap := hspace l.gap_space
    unfold text at hp
    rw [hcons] at hp
    obtain rfl | rfl | rfl | rfl : j = 0 ∨ j = 1 ∨ j = 2 ∨ j = 3 := by omega
    · exact absurd (List.cons_prefix_cons.mp hp).1 (by decide)
    · exact absurd (List.cons_prefix_cons.mp hp).1 (by decide)
    · exact absurd (List.cons_prefix_cons.mp hp).1 (by decide)
    · exact hgap (List.cons_prefix_cons.mp hp).1.symm
  · obtain ⟨i, rfl⟩ : ∃ i, j = 4 + i := ⟨j - 4, by omega⟩
    have hdrop : l.text.drop (4 + i) =
        l.path.drop i ++ l.gap' :: (ascii "HTTP/1.1" ++ l.version ++ l.rest) := by
      rw [← List.drop_drop, ← List.drop_append_of_le_length (by omega)]
      rfl
    rw [hdrop] at hp
    rcases prefix_append_cons hp with hp | ⟨r, hr, -⟩
    · exact strstr_eq_none_iff.mp l.path_noHttp i (by omega) hp
    · -- the pattern has no white space
      have hmem : l.gap' ∈ ascii "HTTP/1.1" := by rw [hr]; simp
      have hno : ∀ c ∈ ascii "HTTP/1.1", isSpace c = false := not_of_any rfl
      have hfalse := hno l.gap' hmem
      rw [l.gap'_space] at hfalse
      cases hfalse

/-- **The name** that is taken from it is the path. -/
theorem chunkName_text : chunkName l.text = .ok l.path := by
  unfold chunkName
  rw [l.strstr_text]
  dsimp only
  have hle := l.path_le
  rw [inBounds_pos (by omega), ok_bind, pure_eq_ok, Except.ok.injEq]
  have hdrop : l.text.drop 4 = l.path ++ l.gap' :: (ascii "HTTP/1.1" ++ l.version ++ l.rest) := rfl
  rw [hdrop, Nat.add_sub_cancel_left, List.take_left]

end ShortRequest

/-- A text in which a name is found, cut around it. -/
theorem chunkName_split {t name : Bytes} (h : chunkName t = .ok name) : ∃ pre c rest,
    t = pre ++ (name ++ c :: (ascii "HTTP/1.1" ++ rest)) ∧ pre.length = 4 ∧ name.length ≤ 47 ∧
      ∀ j ≤ name.length, ¬ ascii "HTTP/1.1" <+: (name ++ c :: (ascii "HTTP/1.1" ++ rest)).drop j := by
  unfold chunkName at h
  split at h
  · cases h
  rename_i http hhttp
  rw [inBounds_bind_eq_ok, pure_eq_ok, Except.ok.injEq] at h
  obtain ⟨⟨h5, h48⟩, rfl⟩ := h
  obtain ⟨hle, ⟨rest, hrest⟩, hfirst⟩ := strstr_spec hhttp
  obtain ⟨k, rfl⟩ : ∃ k, http = k + 5 := ⟨http - 5, by omega⟩
  rw [Nat.add_sub_cancel] at *
  obtain ⟨c, hlast⟩ : ∃ c, (t.drop 4).drop k = c :: (ascii "HTTP/1.1" ++ rest) := by
    have hk : k < (t.drop 4).length := by
      rw [List.length_drop]
      omega
    have hadd : 4 + (k + 1) = k + 5 := by omega
    refine ⟨(t.drop 4)[k], ?_⟩
    rw [List.drop_eq_getElem_cons hk, List.drop_drop, hadd, ← hrest]
  have hsplit : t.drop 4 = (t.drop 4).take k ++ c :: (ascii "HTTP/1.1" ++ rest) := by
    rw [← hlast, List.take_append_drop]
  refine ⟨t.take 4, c, rest, ?_, ?_, ?_, fun j hj hp => ?_⟩
  · rw [← hsplit, List.take_append_drop]
  · rw [List.length_take]
    omega
  · rw [List.length_take]
    omega
  · rw [← hsplit, List.drop_drop] at hp
    rw [List.length_take] at hj
    exact hfirst (4 + j) (by omega) hp

/-- Four bytes with a method of three bytes in them, and white space behind it. -/
theorem words_four {pre w : Bytes} (hlen : pre.length ≤ 4)
    (hpre : ∃ p d, pre = p ++ [d] ∧ isSpace d = true) (hw : (words pre)[0]? = some w)
    (hget : (ascii "GET").isPrefixOf w = true) :
    words pre = [ascii "GET"] ∧ ∃ d, pre = ascii "GET" ++ [d] ∧ isSpace d = true := by
  obtain ⟨p, d, rfl, hd⟩ := hpre
  have hwords : words (p ++ [d]) = words p := by
    unfold words
    rw [strtok_append hd]
    simp [strtok]
  rw [hwords] at hw ⊢
  have hmem := List.mem_of_getElem? hw
  have hthree : (ascii "GET").length = 3 := rfl
  have hge := (List.isPrefixOf_iff_prefix.mp hget).length_le
  have hle : w.length ≤ p.length := length_of_mem_strtok hmem
  rw [List.length_append, List.length_singleton] at hlen
  -- the word is the method, and is all there is in front of the white space
  have hw3 : ascii "GET" = w :=
    (List.isPrefixOf_iff_prefix.mp hget).eq_of_length (by omega)
  have hsub : List.Sublist w p :=
    (List.sublist_flatten_of_mem hmem).trans (by
      unfold words
      rw [flatten_strtok]
      exact List.filter_sublist)
  have hp : w = p := hsub.eq_of_length (by omega)
  rw [← hp, ← hw3]
  exact ⟨strtok_token (by decide) (not_of_any rfl), d, rfl, hd⟩

/-- The first word of what begins with the name: the name, if white space comes behind it, and
otherwise one that goes on with the version. -/
theorem firstWord_name {x name : Bytes} (hx : ∀ d ∈ x, isSpace d = false) (hne : name ≠ [])
    (hname : ∀ d ∈ name, isSpace d = false) (c : UInt8) (rest : Bytes) :
    (isSpace c = true ∧ ∃ version post, rest = version ++ post ∧
      (post = [] ∨ ∃ d p, post = d :: p ∧ isSpace d = true) ∧ (∀ d ∈ version, isSpace d = false) ∧
      words (x ++ (name ++ c :: (ascii "HTTP/1.1" ++ rest))) =
        (x ++ name) :: (ascii "HTTP/1.1" ++ version) :: words post) ∨
    ∃ v vs, words (x ++ (name ++ c :: (ascii "HTTP/1.1" ++ rest))) = v :: vs ∧
      name.length + 9 ≤ v.length := by
  have hboth : ∀ d ∈ x ++ name, isSpace d = false := by
    intro d hd
    exact (List.mem_append.mp hd).elim (hx d) (hname d)
  have hhttp : ∀ d ∈ ascii "HTTP/1.1", isSpace d = false := not_of_any rfl
  cases hc : isSpace c with
  | true =>
    obtain ⟨version, post, rfl, hpost, hversion, hwords⟩ :=
      exists_firstWord (by decide) hhttp rest
    refine Or.inl ⟨rfl, version, post, rfl, hpost, hversion, ?_⟩
    rw [← List.append_assoc, ← hwords]
    unfold words
    rw [strtok_append hc, strtok_token (by simp [hne]) hboth]
    rfl
  | false =>
    have hall : ∀ d ∈ x ++ name ++ c :: ascii "HTTP/1.1", isSpace d = false := by
      intro d hd
      rcases List.mem_append.mp hd with hd | hd
      · exact hboth d hd
      · rcases List.mem_cons.mp hd with rfl | hd
        · exact hc
        · exact hhttp d hd
    obtain ⟨run, post, rfl, -, -, hwords⟩ := exists_firstWord (by simp) hall rest
    refine Or.inr ⟨_, _, by simpa using hwords, ?_⟩
    simp [ascii]
    omega

/-- If it has one word, that is not short. -/
theorem length_onlyWord {t name w : Bytes} (hname : chunkName t = .ok name)
    (h0 : (words t)[0]? = some w) (h1 : (words t)[1]? = none) : 8 ≤ w.length := by
  obtain ⟨pre, c, rest, rfl, -⟩ := chunkName_split hname
  obtain ⟨us, hwords⟩ : ∃ us, words (pre ++ (name ++ c :: (ascii "HTTP/1.1" ++ rest))) = w :: us := by
    cases hwords : words (pre ++ (name ++ c :: (ascii "HTTP/1.1" ++ rest))) with
    | nil => rw [hwords] at h0; cases h0
    | cons u us =>
      obtain rfl : u = w := by rw [hwords] at h0; simpa using h0
      exact ⟨us, rfl⟩
  have hnil : us = [] := by
    rw [hwords, List.getElem?_cons_succ, List.getElem?_eq_none_iff] at h1
    exact List.length_eq_zero_iff.mp (Nat.le_zero.mp h1)
  -- the word has every byte that is no white space
  have hflat := congrArg List.flatten hwords
  unfold words at hflat
  rw [flatten_strtok, hnil, List.flatten_singleton] at hflat
  have hsub : List.Sublist ((ascii "HTTP/1.1").filter fun c => !isSpace c) w := by
    rw [← hflat]
    refine List.Sublist.filter _ (List.IsInfix.sublist ⟨pre ++ name ++ [c], rest, ?_⟩)
    simp
  exact hsub.length_le

/-- **The recorded name is the path** only where the text is such a request line. -/
theorem requestLine_of_named {t name w : Bytes} (hname : chunkName t = .ok name)
    (h0 : (words t)[0]? = some w) (hget : (ascii "GET").isPrefixOf w = true) (hw : w.length < 8)
    (h1 : (words t)[1]? = some name) (h2 : ∀ v, (words t)[2]? = some v → v.length < 16) :
    ∃ l : ShortRequest, t = l.text := by
  obtain ⟨pre, c, rest, rfl, hfour, hle, hfirst⟩ := chunkName_split hname
  obtain ⟨hne, hword⟩ := word_spec (List.mem_of_getElem? h1)
  obtain ⟨q, run, rfl, hq, hrun⟩ := exists_lastRun pre
  rw [List.append_assoc, words_append hq] at h0 h1 h2
  rw [List.length_append] at hfour
  cases hwords : words q with
  | nil =>
    -- the name would be part of the first word
    rw [hwords, List.nil_append] at h0 h1
    rcases firstWord_name hrun hne hword c rest with ⟨-, version, _, -, -, -, hfw⟩ | ⟨v, vs, hfw, hv⟩
    · rw [hfw] at h1
      obtain rfl : ascii "HTTP/1.1" ++ version = name := by simpa using h1
      refine absurd ?_ (hfirst 0 (Nat.zero_le _))
      rw [List.drop_zero, List.append_assoc]
      exact List.prefix_append _ _
    · rw [hfw] at h0
      obtain rfl : v = w := by simpa using h0
      omega
  | cons u us =>
    have hu : u = w := by
      rw [hwords] at h0
      simpa using h0
    have hsep : ∃ p d, q = p ++ [d] ∧ isSpace d = true := by
      refine hq.resolve_left ?_
      rintro rfl
      cases hwords
    obtain ⟨hone, d, rfl, hd⟩ := words_four (by omega) hsep (by rw [hwords, hu]; rfl) hget
    have hnil : run = [] := by
      have hlen : (ascii "GET" ++ [d]).length = 4 := rfl
      exact List.length_eq_zero_iff.mp (by omega)
    subst hnil
    rw [hone, List.singleton_append, List.getElem?_cons_succ] at h1 h2
    rcases firstWord_name hrun hne hword c rest with
      ⟨hc, version, post, rfl, hpost, hversion, hfw⟩ | ⟨v, vs, hfw, hv⟩
    · have hver := h2 (ascii "HTTP/1.1" ++ version) (by rw [hfw]; rfl)
      have h8 : (ascii "HTTP/1.1").length = 8 := rfl
      rw [List.length_append] at hver
      refine ⟨⟨d, name, c, version, post, hd, hne, hword, hle, ?_, hc, hversion, by omega, hpost⟩, ?_⟩
      · rw [strstr_eq_none_iff]
        intro j hj hp
        refine hfirst j hj ?_
        rw [List.drop_append_of_le_length hj]
        exact hp.trans (List.prefix_append _ _)
      · unfold ShortRequest.text
        simp
    · rw [hfw] at h1
      obtain rfl : v = name := by simpa using h1
      omega

/-! ## One call -/

/-- The path in the rewritten request, as the second scan finds it. -/
def rewrittenPath (env : ClientRecv) (fd : Nat) (trackers : Trackers) : Checked Bytes := do
  let line ← scanRequest env.stack (readBuffer env.text)
  let buffer ← rewriteRequest (selectRate (trackerOf fd trackers).throughput) (readBuffer env.text)
  let line' ← scanRequest line buffer
  return cstr line'.httpRequestFile

/-- For a request for a chunk, the name of the newest chunk is the rewritten path. -/
def RecordsPath (env : ClientRecv) (fd : Nat) (trackers trackers' : Trackers) : Prop :=
  ReadsFrag env → ∀ path, rewrittenPath env fd trackers = .ok path →
    ∃ tl chunks, searchSeg fd trackers' = some tl ∧ tl.chunks = path :: chunks

/-- What `LOG("http_request_file:%s\n", http_request_file)` prints behind the first `sscanf`. -/
def loggedFile (env : ClientRecv) : Checked Bytes := do
  let line ← scanRequest env.stack (readBuffer env.text)
  inBounds (0 ∈ line.httpRequestFile)
  return cstr line.httpRequestFile

/-- A call that comes to that `LOG` finds a NUL in the array. -/
def LogsInside (env : ClientRecv) : Prop :=
  env.read ≠ none → env.connect = .connected → ∃ file, loggedFile env = .ok file

/-- The call stays inside its arrays, in its `LOG` as well, and records the path.  The write returns 0
here: the set of `FD_SET` is none of these arrays. -/
def HandledInside (env : ClientRecv) (sid : Nat) (node : Session) (st : ProxyState) : Prop :=
  LogsInside env ∧
    ∃ st' evs, handleClientRecv { env with retWrite := 0 } sid node st = .ok (st', evs) ∧
      RecordsPath env node.clientFd st.trackers st'.trackers

/-- The strings in the arrays behind the first scan. -/
def foundMethod (env : ClientRecv) : Bytes :=
  (words (cstr env.text))[0]?.getD (cstr env.stack.httpMethod)

def foundFile (env : ClientRecv) : Bytes :=
  (words (cstr env.text))[1]?.getD (cstr env.stack.httpRequestFile)

def foundVersion (env : ClientRecv) : Bytes :=
  (words (cstr env.text))[2]?.getD (cstr env.stack.httpVersion)

def FoundGet (env : ClientRecv) : Prop :=
  ((ascii "GET").isPrefixOf (foundMethod env) && (ascii "HTTP/1.1").isPrefixOf (foundVersion env)) =
    true

def FoundFrag (env : ClientRecv) : Prop := (strstr (ascii "-Frag") (foundFile env)).isNone = false

/-- The text has a first `Seg` with a slash in front of it, and with the rate between the last such
slash and that `Seg` it is a request line with a short path, and has room in the buffer. -/
def ChunkFits (text : Bytes) (rate : Nat) : Prop :=
  ∃ a mid tail, text = a ++ 47 :: (mid ++ tail) ∧ (47 : UInt8) ∉ mid ∧
    strstr (ascii "Seg") text = some (a.length + 1 + mid.length) ∧
    ∃ l : ShortRequest, a ++ 47 :: (decimal rate ++ tail) = l.text ∧ l.text.length < MAX_LENGTH

example : ChunkFits (ascii "GET /vod/1000Seg1-Frag1 HTTP/1.1\r\n\r\n") 10 :=
  ⟨ascii "GET /vod", ascii "1000", ascii "Seg1-Frag1 HTTP/1.1\r\n\r\n", by decide, by decide, by decide,
    { gap := 32, path := ascii "/vod/10Seg1-Frag1", gap' := 32, version := [], rest := ascii "\r\n\r\n"
      gap_space := rfl
      path_ne_nil := by decide
      path_word := not_of_any rfl
      path_le := by decide
      path_noHttp := by decide
      gap'_space := rfl
      version_word := not_of_any rfl
      version_le := by decide
      rest_sep := Or.inr ⟨13, ascii "\n\r\n", rfl, rfl⟩ },
    by decide, by decide⟩

/-- The bounds: the text and its first three words fit, a path that is not read ends inside its array,
whatever the method is, and the rewritten request for a chunk is a short one. -/
structure RequestFits (env : ClientRecv) (fd : Nat) (trackers : Trackers) : Prop where
  scan : ScanFits (readBuffer env.text)
  file : (words (cstr env.text)).length < 2 → 0 ∈ env.stack.httpRequestFile
  chunk : FoundGet env → FoundFrag env →
    ChunkFits (cstr env.text) (selectRate (trackerOf fd trackers).throughput)

section Call
variable {env : ClientRecv} {line line' : RequestLine} {fd : Nat} {trackers : Trackers}

theorem scan_found (h : scanRequest env.stack (readBuffer env.text) = .ok line) :
    (isHttpGet line = true ↔ FoundGet env) ∧ cstr line.httpRequestFile = foundFile env ∧
      (0 ∈ line.httpRequestFile ↔
        ((words (cstr env.text)).length < 2 → 0 ∈ env.stack.httpRequestFile)) := by
  have hstored := scanRequest_stored h
  rw [words_readBuffer] at hstored
  refine ⟨?_, hstored.httpRequestFile.cstr_eq, ?_⟩
  · rw [hstored.isHttpGet]
    exact Iff.rfl
  · have hfile := hstored.httpRequestFile
    rcases Nat.lt_or_ge (words (cstr env.text)).length 2 with hlt | hge
    · rw [hfile.unread (List.getElem?_eq_none (Nat.le_of_lt_succ hlt))]
      simp [hlt]
    · have hread := (hfile.read _ (List.getElem?_eq_getElem hge)).2
      exact iff_of_true hread fun hlt => absurd hlt (by omega)

theorem exists_loggedFile : (∃ file, loggedFile env = .ok file) ↔ ScanFits (readBuffer env.text) ∧
    ((words (cstr env.text)).length < 2 → 0 ∈ env.stack.httpRequestFile) := by
  unfold loggedFile
  constructor
  · rintro ⟨file, h⟩
    rw [bind_eq_ok] at h
    obtain ⟨line, hline, h⟩ := h
    rw [inBounds_bind_eq_ok] at h
    exact ⟨(scanRequest_ok_iff env.sizes).mp ⟨line, hline⟩, (scan_found hline).2.2.mp h.1⟩
  · rintro ⟨hscan, hfile⟩
    obtain ⟨line, hline⟩ := (scanRequest_ok_iff env.sizes).mpr hscan
    rw [hline, ok_bind, inBounds_pos ((scan_found hline).2.2.mpr hfile)]
    exact ⟨_, rfl⟩

/-- The rewritten buffer of a request that fits. -/
theorem ChunkFits.rewritten {rate : Nat} (h : ChunkFits (cstr env.text) rate) :
    ∃ (l : ShortRequest) (buffer : Bytes), rewriteRequest rate (readBuffer env.text) = .ok buffer ∧
      cstr buffer = l.text ∧ 0 ∈ buffer := by
  obtain ⟨a, mid, tail, hsplit, hmid, hseg, l, htext, hlen⟩ := h
  have hrw : rewriteText rate (cstr (readBuffer env.text)) = .ok l.text := by
    rw [cstr_readBuffer, ← htext]
    exact rewriteText_eq_ok.mpr ⟨a, mid, tail, hsplit, hmid, hseg, rfl⟩
  have hroom : l.text.length < (readBuffer env.text).length := by
    rw [length_readBuffer env.length_text_le]
    exact hlen
  have hbuffer := rewriteRequest_eq_ok.mpr ⟨l.text, hrw, hroom, rfl⟩
  refine ⟨l, _, hbuffer, ?_, by simp⟩
  have hcstr := cstr_rewriteRequest hbuffer
  rw [hrw, Except.ok.injEq] at hcstr
  exact hcstr.symm

/-- The scan of such a text finds the path. -/
theorem ShortRequest.scanned (l : ShortRequest) {buffer : Bytes} (hcstr : cstr buffer = l.text)
    (h0 : 0 ∈ buffer) (hline : Sizes line) : ∃ line', scanRequest line buffer = .ok line' ∧
      isHttpGet line' = true ∧ cstr line'.httpRequestFile = l.path := by
  have hwords := l.words_text
  have hle := l.path_le
  have hver := l.version_le
  rw [← hcstr] at hwords
  have hfits : ScanFits buffer := by
    refine ⟨h0, fun w hw => ?_, fun w hw => ?_, fun w hw => ?_⟩ <;> rw [hwords] at hw
    · obtain rfl : ascii "GET" = w := by simpa using hw
      decide
    · obtain rfl : l.path = w := by simpa using hw
      omega
    · obtain rfl : ascii "HTTP/1.1" ++ l.version = w := by simpa using hw
      have h8 : (ascii "HTTP/1.1").length = 8 := rfl
      rw [List.length_append]
      omega
  obtain ⟨line', hline'⟩ := (scanRequest_ok_iff hline).mpr hfits
  have hstored := scanRequest_stored hline'
  rw [hwords] at hstored
  refine ⟨line', hline', ?_, (hstored.httpRequestFile.read _ rfl).1⟩
  have hhttp : (ascii "HTTP/1.1").isPrefixOf (ascii "HTTP/1.1" ++ l.version) = true :=
    List.isPrefixOf_iff_prefix.mpr (List.prefix_append _ _)
  rw [hstored.isHttpGet]
  simp only [List.getElem?_cons_zero, List.getElem?_cons_succ, Option.getD_some, hhttp, Bool.and_true]
  rfl

end Call

section Handled
variable {env : ClientRecv} {connect fd : Nat} {trackers trackers' : Trackers} {out : Bytes}

/-- A chunk whose path is recorded is rewritten to a short request. -/
theorem ChunkRewritten.fits {buffer name : Bytes} {line line' : RequestLine}
    (h : ChunkRewritten env fd trackers buffer name line line')
    (hpath : RecordsPath env fd trackers (chunkTrackers fd trackers name)) (hread : env.read ≠ none) :
    ChunkFits (cstr env.text) (selectRate (trackerOf fd trackers).throughput) := by
  have hreads : ReadsFrag env :=
    ⟨hread, h.request.connected, line, h.request.scanned, h.request.get, h.isChunk⟩
  have hnew : rewrittenPath env fd trackers = .ok (cstr line'.httpRequestFile) := by
    unfold rewrittenPath
    rw [h.request.scanned, ok_bind, h.rewritten, ok_bind, h.scanned, ok_bind, pure_eq_ok]
  obtain ⟨tl, chunks, hsearch, hchunks⟩ := hpath hreads _ hnew
  rw [searchSeg_chunkTrackers, Option.some.injEq] at hsearch
  rw [← hsearch, List.cons.injEq] at hchunks
  have hname : name = cstr line'.httpRequestFile := hchunks.1
  -- the words of the new text
  have hrw := cstr_rewriteRequest h.rewritten
  rw [cstr_readBuffer] at hrw
  obtain ⟨w, w', hw, hw', hget⟩ := exists_first_rewritten hrw
  have hmethod : (ascii "GET").isPrefixOf w' = true := by
    have hfound := (scan_found h.request.scanned).1.mp h.request.get
    unfold FoundGet foundMethod at hfound
    rw [hw, Option.getD_some, Bool.and_eq_true] at hfound
    rw [hget]
    exact hfound.1
  have hsizes := (scanRequest_stored h.request.scanned).sizes env.sizes
  have hfits := (scanRequest_ok_iff hsizes).mp ⟨line', h.scanned⟩
  have hsecond : (words (cstr buffer))[1]? = some name := by
    cases hone : (words (cstr buffer))[1]? with
    | some v => rw [hname, ((scanRequest_stored h.scanned).httpRequestFile.read v hone).1]
    | none =>
      -- one word would hold the method and the version
      have hlong := length_onlyWord h.named hw' hone
      have hlt := hfits.httpMethod w' hw'
      omega
  obtain ⟨l, hl⟩ := requestLine_of_named h.named hw' hmethod (hfits.httpMethod w' hw') hsecond
    hfits.httpVersion
  obtain ⟨a, mid, tail, hsplit, hmid, hseg, hnewText⟩ := rewriteText_eq_ok.mp hrw
  obtain ⟨text, htext, hroom, -⟩ := rewriteRequest_eq_ok.mp h.rewritten
  rw [cstr_readBuffer, hrw, Except.ok.injEq] at htext
  rw [length_readBuffer env.length_text_le, ← htext, hl] at hroom
  exact ⟨a, mid, tail, hsplit, hmid, hseg, l, by rw [← hnewText, hl], hroom⟩

/-- A call that logs the path, returns and records it meets the bounds. -/
theorem RequestFits.of_treated (hlogs : LogsInside env)
    (htreated : Treated env connect fd trackers trackers' out)
    (hpath : RecordsPath env fd trackers trackers') (hread : env.read ≠ none)
    (hconn : env.connect = .connected) : RequestFits env fd trackers := by
  obtain ⟨hscan, hterm⟩ := exists_loggedFile.mp (hlogs hread hconn)
  refine ⟨hscan, hterm, fun hget hfrag => ?_⟩
  cases htreated with
  | dropped h =>
    obtain ⟨line, hline, hno⟩ := h.resolve_left (not_not_intro hconn)
    rw [← (scan_found hline).1, hno] at hget
    cases hget
  | plain h =>
    obtain ⟨line, hline, hplain, -⟩ := h
    obtain ⟨-, hfile, -⟩ := scan_found hline.scanned
    unfold FoundFrag at hfrag
    rw [← hfile, hplain] at hfrag
    cases hfrag
  | chunk buffer name h =>
    obtain ⟨line, line', hchunk, -⟩ := h
    exact hchunk.fits hpath hread
  | chunkDropped buffer name h =>
    obtain ⟨line, line', hchunk, -⟩ := h
    exact hchunk.fits hpath hread

/-- A request that meets the bounds is treated, and its path is recorded. -/
theorem RequestFits.treated (h : RequestFits env fd trackers) (hconn : env.connect = .connected)
    (hwrite : env.retWrite = 0) : ∃ trackers' out,
    Treated env connect fd trackers trackers' out ∧ RecordsPath env fd trackers trackers' := by
  have hwritable : Writable env connect := fun hpos => absurd hpos (by omega)
  obtain ⟨line, hline⟩ := (scanRequest_ok_iff env.sizes).mpr h.scan
  obtain ⟨hget, hfile, hterm⟩ := scan_found hline
  have hfound : ∀ {line₂}, scanRequest env.stack (readBuffer env.text) = .ok line₂ → line₂ = line :=
    fun hline₂ => Except.ok.inj (hline₂.symm.trans hline)
  cases hmethod : isHttpGet line with
  | false =>
    refine ⟨trackers, [], .dropped (Or.inr ⟨line, hline, hmethod⟩), fun hreads => ?_⟩
    obtain ⟨-, -, line₂, hline₂, hget₂, -⟩ := hreads
    rw [hfound hline₂, hmethod] at hget₂
    cases hget₂
  | true =>
    have hgetFound := hget.mp hmethod
    have hrequest : IsRequest env line := ⟨hconn, hline, hmethod, hterm.mpr h.file⟩
    cases hfrag : (strstr (ascii "-Frag") (cstr line.httpRequestFile)).isNone with
    | true =>
      refine ⟨trackers, env.text, .plain ⟨line, hrequest, hfrag, hwritable⟩, fun hreads => ?_⟩
      obtain ⟨-, -, line₂, hline₂, -, hfrag₂⟩ := hreads
      rw [hfound hline₂, hfrag] at hfrag₂
      cases hfrag₂
    | false =>
      have hfragFound : FoundFrag env := by
        unfold FoundFrag
        rw [← hfile]
        exact hfrag
      obtain ⟨l, buffer, hrewritten, hcstr, h0⟩ := (h.chunk hgetFound hfragFound).rewritten
      obtain ⟨line', hline', hget', hfile'⟩ :=
        l.scanned hcstr h0 ((scanRequest_stored hline).sizes env.sizes)
      have hnamed : chunkName (cstr buffer) = .ok l.path := by
        rw [hcstr]
        exact l.chunkName_text
      refine ⟨_, _, .chunk buffer l.path
        ⟨line, line', ⟨hrequest, hfrag, hrewritten, hnamed, hline'⟩, hget', hwritable⟩, ?_⟩
      intro _ path hpath
      unfold rewrittenPath at hpath
      rw [hline, ok_bind, hrewritten, ok_bind, hline', ok_bind, pure_eq_ok, Except.ok.injEq,
        hfile'] at hpath
      subst hpath
      exact ⟨_, _, searchSeg_chunkTrackers, rfl⟩

end Handled

/-- **A call stays inside its arrays, its `LOG` included, and records the rewritten path,** exactly if
nothing is read, or the server is not reached, or the request fits. -/
theorem handledInside_iff (env : ClientRecv) (sid : Nat) (node : Session) (st : ProxyState) :
    HandledInside env sid node st ↔
      (env.read ≠ none → env.connect = .connected → RequestFits env node.clientFd st.trackers) := by
  -- the write returns 0 in what is run
  let env₀ : ClientRecv := { env with retWrite := 0 }
  have hfits : RequestFits env₀ node.clientFd st.trackers ↔ RequestFits env node.clientFd st.trackers :=
    ⟨fun h => ⟨h.scan, h.file, h.chunk⟩, fun h => ⟨h.scan, h.file, h.chunk⟩⟩
  rw [← hfits]
  constructor
  · rintro ⟨hlogs, st', evs, hrun, hpath⟩ hread hconn
    have hread₀ : env₀.read ≠ none := hread
    have htreated := (handleClientRecv_treated hread₀).mp ⟨st', evs, hrun, rfl, rfl⟩
    exact .of_treated hlogs htreated hpath hread hconn
  · intro h
    refine ⟨fun hread hconn => exists_loggedFile.mpr ⟨(h hread hconn).scan, (h hread hconn).file⟩, ?_⟩
    by_cases hread : env.read = none
    · have hread₀ : env₀.read = none := hread
      exact ⟨_, _, handleClientRecv_readError sid node st hread₀,
        fun hreads => absurd hread hreads.1⟩
    by_cases hconn : env.connect = .connected
    · have hread₀ : env₀.read ≠ none := hread
      obtain ⟨trackers', out, htreated, hpath⟩ := (h hread hconn).treated hconn rfl
      obtain ⟨st', evs, hrun, rfl, -⟩ := (handleClientRecv_treated hread₀).mpr htreated
      exact ⟨st', evs, hrun, hpath⟩
    · have hread₀ : env₀.read ≠ none := hread
      have hconn₀ : env₀.connect ≠ .connected := hconn
      exact ⟨_, _, handleClientRecv_noServer sid node st hread₀ hconn₀,
        fun hreads => absurd hreads.2.1 hconn⟩

/-- A request whose method has eight bytes. -/
def longMethodRequest : ClientRecv :=
  clientSends (ascii "OPTIONSX / HTTP/1.1\r\n\r\n") (by decide)

/-- **A method of eight bytes** is stored with its NUL behind the end of the array. -/
theorem longMethod_overflows : ¬ ∀ (env : ClientRecv) (sid : Nat) (node : Session) (st : ProxyState),
    HandledInside env sid node st := by
  intro h
  obtain ⟨-, st', evs, hrun, -⟩ := h longMethodRequest 0 (Session.new 4) emptyState
  have hfault : eventsOn longMethodRequest = .error .outOfBounds := by decide +kernel
  have hevs : eventsOn longMethodRequest = .ok evs := congrArg (Except.map Prod.snd) hrun
  rw [hfault] at hevs
  cases hevs

end VideoCdn
