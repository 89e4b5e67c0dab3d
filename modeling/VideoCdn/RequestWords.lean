import VideoCdn.ChunkPath

/-!
# The words of a request (`sscanf` in `handle_client_recv` of `src/handle.c`)

* `ScanFits`, `scanRequest_ok_iff` — when the scan stays inside its arrays.
* `Stored`, `scanRequest_stored` — what an array holds behind it: the word, or what it held before.
* `SameStrings` — arrays that hold the same strings, whatever stands behind them.
* `exists_words_slash` — the words of a text around a slash; what is written behind the slash is part
  of one word.
* `isHttpGet_rewritten` — **the second test** does not depend on the rate that has been written.
-/

set_option autoImplicit false

namespace VideoCdn

open CLib

/-! ## One scan -/

/-- The arrays of the function. -/
structure Sizes (line : RequestLine) : Prop where
  httpMethod : line.httpMethod.length = 8
  httpRequestFile : line.httpRequestFile.length = 128
  httpVersion : line.httpVersion.length = 16

/-- The text ends inside the buffer, and its first three words fit. -/
structure ScanFits (buffer : Bytes) : Prop where
  terminated : 0 ∈ buffer
  httpMethod : ∀ w, (words (cstr buffer))[0]? = some w → w.length < 8
  httpRequestFile : ∀ w, (words (cstr buffer))[1]? = some w → w.length < 128
  httpVersion : ∀ w, (words (cstr buffer))[2]? = some w → w.length < 16

/-- What a conversion makes of its array. -/
structure Stored (array array' : Bytes) (word : Option Bytes) : Prop where
  length : array'.length = array.length
  unread : word = none → array' = array
  read : ∀ w, word = some w → cstr array' = w ∧ 0 ∈ array'

theorem Stored.cstr_eq {array array' : Bytes} {word : Option Bytes} (h : Stored array array' word) :
    cstr array' = word.getD (cstr array) := by
  cases word with
  | none => rw [h.unread rfl, Option.getD_none]
  | some w => exact (h.read w rfl).1

theorem scanWord_ok_iff (array : Bytes) (word : Option Bytes) :
    (∃ array', scanWord array word = .ok array') ↔ ∀ w, word = some w → w.length < array.length := by
  unfold scanWord
  cases word with
  | none => simp
  | some w =>
    simp only [exists_store_eq_ok, List.length_append, List.length_singleton, Option.some.injEq,
      forall_eq']
    omega

theorem scanWord_stored {array array' : Bytes} {word : Option Bytes}
    (h : scanWord array word = .ok array') (hnul : ∀ w, word = some w → (0 : UInt8) ∉ w) :
    Stored array array' word := by
  cases word with
  | none =>
    cases h
    exact ⟨rfl, fun _ => rfl, fun w hw => by cases hw⟩
  | some v =>
    unfold scanWord at h
    dsimp only at h
    refine ⟨store_length h, fun hw => absurd hw (by simp), fun w hw => ?_⟩
    cases hw
    refine ⟨cstr_store h (hnul v rfl), ?_⟩
    obtain ⟨-, rfl⟩ := store_eq_ok.mp h
    simp

theorem notMem_words {buffer w : Bytes} (h : w ∈ words (cstr buffer)) : (0 : UInt8) ∉ w := by
  intro h0
  have hflat : (0 : UInt8) ∈ (words (cstr buffer)).flatten := List.mem_flatten_of_mem h h0
  unfold words at hflat
  rw [flatten_strtok] at hflat
  exact no_nul_cstr buffer (List.mem_filter.mp hflat).1

/-- **The scan** stays inside its arrays exactly if the words fit. -/
theorem scanRequest_ok_iff {line : RequestLine} {buffer : Bytes} (hline : Sizes line) :
    (∃ line', scanRequest line buffer = .ok line') ↔ ScanFits buffer := by
  have hmethod := scanWord_ok_iff line.httpMethod (words (cstr buffer))[0]?
  have hfile := scanWord_ok_iff line.httpRequestFile (words (cstr buffer))[1]?
  have hversion := scanWord_ok_iff line.httpVersion (words (cstr buffer))[2]?
  rw [hline.httpMethod] at hmethod
  rw [hline.httpRequestFile] at hfile
  rw [hline.httpVersion] at hversion
  unfold scanRequest
  simp only [bind_eq_ok, inBounds_eq_ok, exists_const, pure_eq_ok, Except.ok.injEq]
  constructor
  · rintro ⟨_, h0, b₀, h₀, b₁, h₁, b₂, h₂, -⟩
    exact ⟨h0, hmethod.mp ⟨b₀, h₀⟩, hfile.mp ⟨b₁, h₁⟩, hversion.mp ⟨b₂, h₂⟩⟩
  · rintro ⟨h0, h₀, h₁, h₂⟩
    obtain ⟨b₀, h₀⟩ := hmethod.mpr h₀
    obtain ⟨b₁, h₁⟩ := hfile.mpr h₁
    obtain ⟨b₂, h₂⟩ := hversion.mpr h₂
    exact ⟨_, h0, b₀, h₀, b₁, h₁, b₂, h₂, rfl⟩

/-- What the arrays hold behind the scan. -/
structure ScanStored (line line' : RequestLine) (tokens : List Bytes) : Prop where
  httpMethod : Stored line.httpMethod line'.httpMethod tokens[0]?
  httpRequestFile : Stored line.httpRequestFile line'.httpRequestFile tokens[1]?
  httpVersion : Stored line.httpVersion line'.httpVersion tokens[2]?

theorem scanRequest_stored {line line' : RequestLine} {buffer : Bytes}
    (h : scanRequest line buffer = .ok line') : ScanStored line line' (words (cstr buffer)) := by
  unfold scanRequest at h
  simp only [bind_eq_ok, inBounds_eq_ok, exists_const, pure_eq_ok, Except.ok.injEq] at h
  obtain ⟨-, b₀, h₀, b₁, h₁, b₂, h₂, rfl⟩ := h
  have hnul : ∀ (i : Nat) (w : Bytes), (words (cstr buffer))[i]? = some w → (0 : UInt8) ∉ w :=
    fun i w hw => notMem_words (List.mem_of_getElem? hw)
  exact ⟨scanWord_stored h₀ (hnul 0), scanWord_stored h₁ (hnul 1), scanWord_stored h₂ (hnul 2)⟩

theorem ScanStored.sizes {line line' : RequestLine} {tokens : List Bytes}
    (h : ScanStored line line' tokens) (hline : Sizes line) : Sizes line' where
  httpMethod := h.httpMethod.length.trans hline.httpMethod
  httpRequestFile := h.httpRequestFile.length.trans hline.httpRequestFile
  httpVersion := h.httpVersion.length.trans hline.httpVersion

/-- `strncmp` does not look behind the end of the string. -/
theorem isPrefixOf_cstr {pat : Bytes} (hpat : (0 : UInt8) ∉ pat) (array : Bytes) :
    pat.isPrefixOf array = pat.isPrefixOf (cstr array) := by
  rw [Bool.eq_iff_iff, List.isPrefixOf_iff_prefix, List.isPrefixOf_iff_prefix]
  constructor
  · rintro ⟨rest, rfl⟩
    rw [cstr_append hpat]
    exact List.prefix_append _ _
  · exact fun h => h.trans (cstr_isPrefix array)

theorem isHttpGet_cstr (line : RequestLine) : isHttpGet line =
    ((ascii "GET").isPrefixOf (cstr line.httpMethod) &&
      (ascii "HTTP/1.1").isPrefixOf (cstr line.httpVersion)) := by
  unfold isHttpGet
  rw [isPrefixOf_cstr (by decide) line.httpMethod, isPrefixOf_cstr (by decide) line.httpVersion]

/-! ## Arrays that hold the same -/

/-- The strings in the arrays are the same. -/
structure SameStrings (line line' : RequestLine) : Prop where
  httpMethod : cstr line.httpMethod = cstr line'.httpMethod
  httpRequestFile : cstr line.httpRequestFile = cstr line'.httpRequestFile
  httpVersion : cstr line.httpVersion = cstr line'.httpVersion

theorem SameStrings.isHttpGet {line line' : RequestLine} (h : SameStrings line line') :
    isHttpGet line = isHttpGet line' := by
  rw [isHttpGet_cstr, isHttpGet_cstr, h.httpMethod, h.httpVersion]

theorem Stored.same {a a' b b' : Bytes} {word : Option Bytes} (ha : Stored a a' word)
    (hb : Stored b b' word) (hsame : word = none → cstr a = cstr b) : cstr a' = cstr b' := by
  cases word with
  | none =>
    rw [ha.unread rfl, hb.unread rfl]
    exact hsame rfl
  | some w => rw [(ha.read w rfl).1, (hb.read w rfl).1]

/-- Arrays that hold the same, or three words: behind the scan they hold the same. -/
theorem ScanStored.same {line₁ line₂ line₁' line₂' : RequestLine} {tokens : List Bytes}
    (h₁ : ScanStored line₁ line₁' tokens) (h₂ : ScanStored line₂ line₂' tokens)
    (hsame : SameStrings line₁ line₂ ∨ 3 ≤ tokens.length) : SameStrings line₁' line₂' := by
  have hnone : ∀ i < 3, tokens[i]? = none → SameStrings line₁ line₂ := by
    intro i hi hn
    rw [List.getElem?_eq_none_iff] at hn
    exact hsame.resolve_right (by omega)
  exact ⟨h₁.httpMethod.same h₂.httpMethod fun hn => (hnone 0 (by decide) hn).httpMethod,
    h₁.httpRequestFile.same h₂.httpRequestFile fun hn => (hnone 1 (by decide) hn).httpRequestFile,
    h₁.httpVersion.same h₂.httpVersion fun hn => (hnone 2 (by decide) hn).httpVersion⟩

/-! ## The words around a slash -/

/-- **The words around a slash**: what stands between the slash and `c` is part of the word with the
slash, or of that one and those behind it; the other words do not depend on it. -/
theorem exists_words_slash (a : Bytes) (c : UInt8) (t : Bytes) :
    ∃ front x s behind, (∀ d ∈ x, isSpace d = false) ∧ (∀ d ∈ s, isSpace d = false) ∧
      ∀ mid, words (a ++ 47 :: (mid ++ c :: t)) =
        front ++ words (x ++ 47 :: (mid ++ c :: s)) ++ behind := by
  obtain ⟨pre, x, rfl, hpre, hx⟩ := exists_lastRun a
  obtain ⟨s, post, rfl, hpost, hs⟩ := exists_firstRun t
  refine ⟨words pre, x, s, words post, hx, hs, fun mid => ?_⟩
  have hsplit : words (x ++ 47 :: (mid ++ c :: (s ++ post))) =
      words (x ++ 47 :: (mid ++ c :: s)) ++ words post := by
    rw [← words_append_sep _ hpost]
    simp only [List.append_assoc, List.cons_append]
  rw [List.append_assoc, words_append hpre, hsplit, List.append_assoc]

/-- The method is in front of any slash. -/
theorem prefix_get_slash (x y : Bytes) :
    (ascii "GET").isPrefixOf (x ++ 47 :: y) = (ascii "GET").isPrefixOf x := by
  rw [Bool.eq_iff_iff, List.isPrefixOf_iff_prefix, List.isPrefixOf_iff_prefix]
  refine ⟨fun h => ?_, fun h => h.trans (List.prefix_append _ _)⟩
  rcases prefix_append_cons h with h | ⟨rest, hget, -⟩
  · exact h
  · have hmem : (47 : UInt8) ∈ ascii "GET" := by rw [hget]; simp
    exact absurd hmem (by decide)

/-- The `1.1` of the version is no rate. -/
theorem prefix_http_slash (x s : Bytes) (rate : Nat) :
    (ascii "HTTP/1.1").isPrefixOf (x ++ 47 :: (decimal rate ++ 83 :: s)) =
      (ascii "HTTP/1.1").isPrefixOf x := by
  rw [Bool.eq_iff_iff, List.isPrefixOf_iff_prefix, List.isPrefixOf_iff_prefix]
  refine ⟨fun h => ?_, fun h => h.trans (List.prefix_append _ _)⟩
  rcases prefix_append_cons h with h | ⟨rest, hhttp, hrest⟩
  · exact h
  · -- then the rate would have a point
    have hsplit : ascii "HTTP" ++ 47 :: ascii "1.1" = x ++ 47 :: rest := hhttp
    have hx : (47 : UInt8) ∉ ascii "HTTP" := by decide
    have hz : (47 : UInt8) ∉ ascii "1.1" := by decide
    obtain ⟨-, -, rfl⟩ := (List.append_cons_inj_of_notMem hx hz).mp hsplit
    exact absurd hrest (not_point rate s)
where
  not_point (rate : Nat) (s : Bytes) : ¬ ascii "1.1" <+: decimal rate ++ 83 :: s := by
    intro h
    obtain ⟨d, ds, hd⟩ := List.exists_cons_of_ne_nil (decimal_ne_nil rate)
    rw [hd] at h
    obtain ⟨-, h⟩ := List.cons_prefix_cons.mp h
    cases ds with
    | nil => exact absurd (List.cons_prefix_cons.mp h).1 (by decide)
    | cons e ds =>
      have he : isDigit e = true := isDigit_of_mem_decimal (n := rate) (by rw [hd]; simp)
      rw [← (List.cons_prefix_cons.mp h).1] at he
      exact absurd he (by decide)

/-! ## The words of a rewritten text -/

/-- The word with the slash begins with what stands in front of the slash there. -/
theorem exists_slashWord {x : Bytes} (hx : ∀ c ∈ x, isSpace c = false) (y : Bytes) :
    ∃ run rest, words (x ++ 47 :: y) = (x ++ 47 :: run) :: rest ∧
      ((∀ c ∈ y, isSpace c = false) → run = y ∧ rest = []) := by
  have hslash : ∀ c ∈ x ++ [47], isSpace c = false := by
    intro c hc
    rcases List.mem_append.mp hc with hc | hc
    · exact hx c hc
    · rw [List.mem_singleton.mp hc]
      rfl
  obtain ⟨run, post, rfl, hpost, -, hwords⟩ := exists_firstWord (by simp) hslash y
  refine ⟨run, words post, by simpa using hwords, fun hy => ?_⟩
  rcases hpost with rfl | ⟨d, p, rfl, hd⟩
  · exact ⟨by simp, rfl⟩
  · rw [hy d (by simp)] at hd
    cases hd

/-- **The words of a rewritten text**, for all rates at once. -/
theorem words_rewriteText {rate : Nat} {text t : Bytes} (h : rewriteText rate text = .ok t) :
    ∃ front x mid s behind, (∀ c ∈ x, isSpace c = false) ∧
      words text = front ++ words (x ++ 47 :: (mid ++ 83 :: s)) ++ behind ∧
      ∀ rate' t', rewriteText rate' text = .ok t' →
        words t' = front ++ [x ++ 47 :: (decimal rate' ++ 83 :: s)] ++ behind := by
  obtain ⟨a, mid, tail, rfl, hmid, hseg, -⟩ := rewriteText_eq_ok.mp h
  obtain ⟨u, rfl⟩ : ∃ u, tail = 83 :: u := by
    obtain ⟨-, ⟨rest, hrest⟩, -⟩ := strstr_spec hseg
    have hdrop : (a ++ 47 :: (mid ++ tail)).drop (a.length + 1 + mid.length) = tail := by
      rw [show a ++ 47 :: (mid ++ tail) = (a ++ 47 :: mid) ++ tail by simp, List.drop_left']
      simp only [List.length_append, List.length_cons]
      omega
    rw [hdrop] at hrest
    exact ⟨_, hrest.symm⟩
  obtain ⟨front, x, s, behind, hx, hs, hwords⟩ := exists_words_slash a 83 u
  refine ⟨front, x, mid, s, behind, hx, hwords mid, fun rate' t' h' => ?_⟩
  have ht' : rewriteText rate' (a ++ 47 :: (mid ++ 83 :: u)) =
      .ok (a ++ 47 :: (decimal rate' ++ 83 :: u)) :=
    rewriteText_eq_ok.mpr ⟨a, mid, 83 :: u, rfl, hmid, hseg, rfl⟩
  rw [ht', Except.ok.injEq] at h'
  have hrun : ∀ c ∈ decimal rate' ++ 83 :: s, isSpace c = false := by
    intro c hc
    rcases List.mem_append.mp hc with hc | hc
    · exact not_isSpace_of_isDigit (isDigit_of_mem_decimal hc)
    · rcases List.mem_cons.mp hc with rfl | hc
      · rfl
      · exact hs c hc
  obtain ⟨run, rest, hword, hall⟩ := exists_slashWord hx (decimal rate' ++ 83 :: s)
  obtain ⟨rfl, rfl⟩ := hall hrun
  rw [← h', hwords, hword]

/-- The tests of a scan look at the words, and at the arrays where there is none. -/
theorem ScanStored.isHttpGet {line line' : RequestLine} {tokens : List Bytes}
    (h : ScanStored line line' tokens) : isHttpGet line' =
      ((ascii "GET").isPrefixOf (tokens[0]?.getD (cstr line.httpMethod)) &&
        (ascii "HTTP/1.1").isPrefixOf (tokens[2]?.getD (cstr line.httpVersion))) := by
  rw [isHttpGet_cstr, h.httpMethod.cstr_eq, h.httpVersion.cstr_eq]

/-- A test on one of the words, in a list of which one word is replaced by another. -/
theorem test_replaced {f : Bytes → Bool} {w w' : Bytes} (h : f w = f w') (z : Bytes)
    (behind : List Bytes) : ∀ (front : List Bytes) (i : Nat),
      f ((front ++ [w] ++ behind)[i]?.getD z) = f ((front ++ [w'] ++ behind)[i]?.getD z)
  | [], 0 => by simpa using h
  | [], i + 1 => by simp
  | v :: front, 0 => by simp
  | v :: front, i + 1 => by
    simpa using test_replaced h z behind front i

/-- **The second test** comes out in the same way for every rate. -/
theorem isHttpGet_rewritten {rate rate' : Nat} {text : Bytes} {b b' : Bytes}
    {line line₁ line₂ : RequestLine} (h : rewriteText rate text = .ok (cstr b))
    (h' : rewriteText rate' text = .ok (cstr b')) (hscan : scanRequest line b = .ok line₁)
    (hscan' : scanRequest line b' = .ok line₂) : isHttpGet line₁ = isHttpGet line₂ := by
  obtain ⟨front, x, mid, s, behind, -, -, hwords⟩ := words_rewriteText h
  rw [(scanRequest_stored hscan).isHttpGet, (scanRequest_stored hscan').isHttpGet,
    hwords rate _ h, hwords rate' _ h']
  congr 1
  · apply test_replaced
    rw [prefix_get_slash, prefix_get_slash]
  · apply test_replaced
    rw [prefix_http_slash, prefix_http_slash]

/-- **The first word** keeps its method. -/
theorem exists_first_rewritten {rate : Nat} {text t : Bytes} (h : rewriteText rate text = .ok t) :
    ∃ w w', (words text)[0]? = some w ∧ (words t)[0]? = some w' ∧
      (ascii "GET").isPrefixOf w' = (ascii "GET").isPrefixOf w := by
  obtain ⟨front, x, mid, s, behind, hx, htext, hwords⟩ := words_rewriteText h
  obtain ⟨run, rest, hslash, -⟩ := exists_slashWord hx (mid ++ 83 :: s)
  rw [htext, hslash, hwords rate t h]
  cases front with
  | nil => exact ⟨_, _, rfl, rfl, by rw [prefix_get_slash, prefix_get_slash]⟩
  | cons v front => exact ⟨v, v, rfl, rfl, rfl⟩

/-- There are no more words than before. -/
theorem length_words_rewritten {rate : Nat} {text t : Bytes} (h : rewriteText rate text = .ok t) :
    (words t).length ≤ (words text).length := by
  obtain ⟨front, x, mid, s, behind, hx, htext, hwords⟩ := words_rewriteText h
  obtain ⟨run, rest, hslash, -⟩ := exists_slashWord hx (mid ++ 83 :: s)
  rw [htext, hslash, hwords rate t h]
  simp only [List.length_append, List.length_cons, List.length_nil]
  omega

/-- **A text of two words**: the rewriting leaves the method, and finds no version. -/
theorem isHttpGet_twoWords {rate : Nat} {text b : Bytes} {line line' : RequestLine}
    (h : rewriteText rate text = .ok (cstr b)) (hscan : scanRequest line b = .ok line')
    (hlen : (words text).length ≤ 2)
    (hget : (ascii "GET").isPrefixOf ((words text)[0]?.getD (cstr line.httpMethod)) = true)
    (hversion : (ascii "HTTP/1.1").isPrefixOf (cstr line.httpVersion) = true) :
    isHttpGet line' = true := by
  obtain ⟨w, w', hw, hw', hsame⟩ := exists_first_rewritten h
  have hnone : (words (cstr b))[2]? = none :=
    List.getElem?_eq_none (Nat.le_trans (length_words_rewritten h) hlen)
  rw [hw, Option.getD_some] at hget
  rw [(scanRequest_stored hscan).isHttpGet, hw', hnone, Option.getD_some, Option.getD_none, hsame,
    hget, hversion]
  rfl

end VideoCdn
