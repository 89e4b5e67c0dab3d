import VideoCdn.Handle

/-!
# The name of a chunk (`update_bitrate` of `src/bitrate.c`)

`create_tracker` looks for `-Frag` in the path; `update_bitrate` looks for `Seg` in the whole request,
and from there back for a slash.

* `rewriteText_eq_ok` — what `update_bitrate` makes of a text, as a split of that text.
* `ChunkText` — the text of a request for a chunk, with the last component of its path;
  `ChunkText.intended` is the text with the rate in that component.
* `rewriteText_intended_iff` — when the code makes the one of the other.
* `nameRewritten_iff` — the same for a call, which also has to find room for the text and the name.
* `noSeg_dereferenced` — a chunk without a `Seg`.
-/

set_option autoImplicit false

namespace VideoCdn

open CLib

/-! ## The rewriting as a split of the text -/

/-- Where the scan stops, the text is cut in front of and behind the slash. -/
theorem split_at_slash {text : Bytes} {p slash : Nat} (hp : strstr (ascii "Seg") text = some p)
    (hscan : scanBack text p = .ok slash) : ∃ mid,
      text.take (slash + 1) = text.take slash ++ [47] ∧
      text = text.take slash ++ 47 :: (mid ++ text.drop p) ∧ (47 : UInt8) ∉ mid ∧
      p = (text.take slash).length + 1 + mid.length := by
  obtain ⟨-, hslash, hno⟩ := scanBack_eq_ok.mp hscan
  have hlt := scanBack_lt hscan hp
  have hple := (strstr_spec hp).1
  obtain ⟨hslt, hget⟩ := List.getElem?_eq_some_iff.mp hslash
  have hpad : slash + 1 + (p - (slash + 1)) = p := by omega
  refine ⟨(text.drop (slash + 1)).take (p - (slash + 1)), ?_, ?_, ?_, ?_⟩
  · rw [List.take_add_one, hslash]
    rfl
  · have hrest : text.drop (slash + 1) =
        (text.drop (slash + 1)).take (p - (slash + 1)) ++ text.drop p := by
      conv_lhs => rw [← List.take_append_drop (p - (slash + 1)) (text.drop (slash + 1))]
      rw [List.drop_drop, hpad]
    conv_lhs => rw [← List.take_append_drop slash text]
    rw [List.drop_eq_getElem_cons hslt, hget, ← hrest]
  · intro hmem
    obtain ⟨j, hj⟩ := List.mem_iff_getElem?.mp hmem
    have hjlt := (List.getElem?_eq_some_iff.mp hj).1
    rw [List.length_take, List.length_drop] at hjlt
    rw [List.getElem?_take_of_lt (by omega), List.getElem?_drop] at hj
    exact hno _ (by omega) (by omega) hj
  · rw [List.length_take, List.length_take, List.length_drop]
    omega

/-- From the `Seg` behind such a split the scan stops at its slash. -/
theorem scanBack_split {a mid tail : Bytes} (hmid : (47 : UInt8) ∉ mid)
    (hseg : strstr (ascii "Seg") (a ++ 47 :: (mid ++ tail)) = some (a.length + 1 + mid.length)) :
    scanBack (a ++ 47 :: (mid ++ tail)) (a.length + 1 + mid.length) = .ok a.length := by
  have hat : ∀ j, (a ++ 47 :: (mid ++ tail))[a.length + 1 + j]? = (mid ++ tail)[j]? := by
    intro j
    have hj : a.length + 1 + j - a.length = j + 1 := by omega
    rw [List.getElem?_append_right (by omega), hj, List.getElem?_cons_succ]
  rw [scanBack_eq_ok]
  refine ⟨by omega, by simp, fun j hj hle => ?_⟩
  obtain ⟨k, rfl⟩ : ∃ k, j = a.length + 1 + k := ⟨j - (a.length + 1), by omega⟩
  rcases Nat.lt_or_ge k mid.length with hlt | hge
  · rw [hat, List.getElem?_append_left hlt]
    exact fun hk => hmid (List.mem_of_getElem? hk)
  · obtain rfl : k = mid.length := by omega
    rw [strstr_seg_ne_slash hseg]
    decide

/-- **The rewriting**: the text between the first `Seg` and the last slash in front of it is replaced
by the rate. -/
theorem rewriteText_eq_ok {rate : Nat} {text text' : Bytes} : rewriteText rate text = .ok text' ↔
    ∃ a mid tail, text = a ++ 47 :: (mid ++ tail) ∧ (47 : UInt8) ∉ mid ∧
      strstr (ascii "Seg") text = some (a.length + 1 + mid.length) ∧
      text' = a ++ 47 :: (decimal rate ++ tail) := by
  unfold rewriteText
  constructor
  · intro h
    split at h
    · cases h
    rename_i p hp
    rw [bind_eq_ok] at h
    obtain ⟨slash, hscan, h⟩ := h
    cases h
    obtain ⟨mid, htake, hsplit, hmid, hlen⟩ := split_at_slash hp hscan
    refine ⟨text.take slash, mid, text.drop p, hsplit, hmid, by rw [hp, ← hlen], ?_⟩
    rw [htake]
    simp
  · rintro ⟨a, mid, tail, rfl, hmid, hseg, rfl⟩
    have htake : (a ++ 47 :: (mid ++ tail)).take (a.length + 1) = a ++ [47] := by
      rw [List.take_append, List.take_of_length_le (Nat.le_succ _), Nat.add_sub_cancel_left]
      rfl
    have hdrop : (a ++ 47 :: (mid ++ tail)).drop (a.length + 1 + mid.length) = tail := by
      have hassoc : a ++ 47 :: (mid ++ tail) = (a ++ 47 :: mid) ++ tail := by
        rw [List.append_assoc, List.cons_append]
      have hlen : a.length + 1 + mid.length = (a ++ 47 :: mid).length := by
        rw [List.length_append, List.length_cons]
        omega
      rw [hassoc, hlen, List.drop_left]
    rw [hseg]
    dsimp only
    rw [scanBack_split hmid hseg, ok_bind, htake, hdrop, pure_eq_ok, Except.ok.injEq]
    simp

/-! ## Requests for a chunk -/

/-- The text of a `GET` request for a chunk: `dirs` and `name` are the directories of the path and its
last component. -/
structure ChunkText where
  lead : Bytes
  gap : Bytes
  dirs : Bytes
  name : Bytes
  gap' : Bytes
  rest : Bytes
  lead_space : ∀ c ∈ lead, isSpace c = true
  gap_space : gap ≠ [] ∧ ∀ c ∈ gap, isSpace c = true
  path : ∀ c ∈ dirs ++ name, isSpace c = false
  dirs_slash : dirs = [] ∨ ∃ d, dirs = d ++ [47]
  name_noSlash : (47 : UInt8) ∉ name
  gap'_space : gap' ≠ [] ∧ ∀ c ∈ gap', isSpace c = true
  frag : (strstr (ascii "-Frag") (dirs ++ name)).isNone = false
  no_nul : (0 : UInt8) ∉ dirs ++ name ++ rest
  fits : (lead ++ ascii "GET" ++ gap ++ dirs ++ name ++ gap' ++ ascii "HTTP/1.1" ++ rest).length <
    MAX_LENGTH

namespace ChunkText

variable (t : ChunkText)

/-- What stands in front of the name. -/
def front : Bytes := t.lead ++ ascii "GET" ++ t.gap ++ t.dirs

/-- What stands behind it. -/
def behind : Bytes := t.gap' ++ ascii "HTTP/1.1" ++ t.rest

/-- The request, with another name for the chunk. -/
def withName (name : Bytes) : Bytes := t.front ++ name ++ t.behind

def text : Bytes := t.withName t.name

/-- The name with the rate in front of its `Seg`, if it has one. -/
def intendedName (rate : Nat) : Bytes :=
  match strstr (ascii "Seg") t.name with
  | none => t.name
  | some k => decimal rate ++ t.name.drop k

def intended (rate : Nat) : Bytes := t.withName (t.intendedName rate)

end ChunkText

/-- A byte at which a component of a path ends. -/
def isSep (c : UInt8) : Bool := c == 47 || isSpace c

/-- A text that ends with a separator, and one without any, are put together in one way only. -/
theorem append_inj_lastSep {a b x y : Bytes} (ha : ∃ a' c, a = a' ++ [c] ∧ isSep c = true)
    (hb : ∃ b' c, b = b' ++ [c] ∧ isSep c = true) (hx : ∀ c ∈ x, isSep c = false)
    (hy : ∀ c ∈ y, isSep c = false) (h : a ++ x = b ++ y) : a = b ∧ x = y := by
  -- the longer of the two prefixes would end inside the other rest
  have key : ∀ {a b x y : Bytes}, (∃ b' c, b = b' ++ [c] ∧ isSep c = true) →
      (∀ c ∈ x, isSep c = false) → ∀ e, b = a ++ e → x = e ++ y → a = b ∧ x = y := by
    rintro a b x y ⟨b', c, hb, hc⟩ hx e rfl rfl
    rcases List.eq_nil_or_concat e with rfl | ⟨e', d, rfl⟩
    · simp
    · rw [List.concat_eq_append, ← List.append_assoc] at hb
      obtain ⟨-, hd⟩ := List.append_inj' hb rfl
      have hsep := hx d (by simp)
      rw [List.singleton_inj.mp hd, hc] at hsep
      cases hsep
  rcases List.append_eq_append_iff.mp h with ⟨e, hbe, hxe⟩ | ⟨e, hae, hye⟩
  · exact key hb hx e hbe hxe
  · obtain ⟨h₁, h₂⟩ := key ha hy e hae hye
    exact ⟨h₁.symm, h₂.symm⟩

namespace ChunkText

variable {t : ChunkText} {rate : Nat}

theorem front_lastSep : ∃ a c, t.front = a ++ [c] ∧ isSep c = true := by
  unfold front
  rcases t.dirs_slash with h | ⟨d, h⟩
  · obtain ⟨gap, c, hgap⟩ := List.eq_nil_or_concat t.gap |>.resolve_left t.gap_space.1
    refine ⟨t.lead ++ ascii "GET" ++ gap, c, by rw [h, hgap]; simp, ?_⟩
    have hspace := t.gap_space.2 c (by rw [hgap]; simp)
    simp [isSep, hspace]
  · exact ⟨t.lead ++ ascii "GET" ++ t.gap ++ d, 47, by rw [h]; simp, rfl⟩

theorem name_noSep : ∀ c ∈ t.name, isSep c = false := by
  intro c hc
  have hspace := t.path c (List.mem_append_right _ hc)
  have hne : c ≠ 47 := by
    rintro rfl
    exact t.name_noSlash hc
  simp [isSep, hspace, hne]

theorem slash_notMem_decimal (rate : Nat) : (47 : UInt8) ∉ decimal rate :=
  fun h => absurd (isDigit_of_mem_decimal h) (by decide)

theorem intendedName_noSep : ∀ c ∈ t.intendedName rate, isSep c = false := by
  intro c hc
  unfold intendedName at hc
  split at hc
  · exact name_noSep c hc
  · rcases List.mem_append.mp hc with hc | hc
    · have hspace := not_isSpace_of_isDigit (isDigit_of_mem_decimal hc)
      have hne : c ≠ 47 := by
        rintro rfl
        exact slash_notMem_decimal rate hc
      simp [isSep, hspace, hne]
    · exact name_noSep c (List.mem_of_mem_drop hc)

/-- The first `Seg` behind the front is that of the name, if the name has one. -/
theorem seg_of_le {p k : Nat} (htext : strstr (ascii "Seg") t.text = some p)
    (hname : strstr (ascii "Seg") t.name = some k) (hle : t.front.length ≤ p) :
    p = t.front.length + k := by
  obtain ⟨-, htext, hfirst⟩ := strstr_spec htext
  obtain ⟨hk, hname, hfirstName⟩ := strstr_spec hname
  have hdrop : ∀ j, t.text.drop (t.front.length + j) = (t.name ++ t.behind).drop j := by
    intro j
    rw [text, withName, List.append_assoc, ← List.drop_drop, List.drop_left]
  have hlen := hname.length_le
  rw [List.length_drop] at hlen
  have hthree : (ascii "Seg").length = 3 := rfl
  rcases Nat.lt_trichotomy p (t.front.length + k) with hlt | heq | hgt
  · obtain ⟨j, rfl⟩ : ∃ j, p = t.front.length + j := ⟨p - t.front.length, by omega⟩
    rw [hdrop, List.drop_append_of_le_length (by omega)] at htext
    refine absurd (List.prefix_of_prefix_length_le htext (List.prefix_append _ _) ?_)
      (hfirstName j (by omega))
    rw [List.length_drop]
    omega
  · exact heq
  · refine absurd ?_ (hfirst _ hgt)
    rw [hdrop, List.drop_append_of_le_length hk]
    exact hname.trans (List.prefix_append _ _)

/-- The `Seg` that is found is that of the name, and the name stands behind a slash. -/
def SegInName (t : ChunkText) : Prop :=
  t.dirs ≠ [] ∧ ∃ k, strstr (ascii "Seg") t.name = some k ∧
    strstr (ascii "Seg") t.text = some (t.front.length + k)

/-- The text between the `Seg` that is found and the slash in front of it is the rate already, and so
is that of the name, if it has a `Seg`. -/
def HasRate (t : ChunkText) (rate : Nat) : Prop :=
  t.intendedName rate = t.name ∧ ∃ a b, t.text = a ++ 47 :: (decimal rate ++ b) ∧
    strstr (ascii "Seg") t.text = some (a.length + 1 + (decimal rate).length)

theorem rewriteText_of_segInName (h : SegInName t) :
    rewriteText rate t.text = .ok (t.intended rate) := by
  obtain ⟨hdirs, k, hname, htext⟩ := h
  obtain ⟨d, hd⟩ := t.dirs_slash.resolve_left hdirs
  have hfront : t.front = (t.lead ++ ascii "GET" ++ t.gap ++ d) ++ [47] := by
    rw [front, hd]
    simp
  have hk := (strstr_spec hname).1
  refine rewriteText_eq_ok.mpr ⟨t.lead ++ ascii "GET" ++ t.gap ++ d, t.name.take k,
    t.name.drop k ++ t.behind, ?_, fun h => t.name_noSlash (List.mem_of_mem_take h), ?_, ?_⟩
  · rw [text, withName, hfront, ← List.append_assoc (t.name.take k), List.take_append_drop]
    simp
  · rw [htext, hfront, List.length_take, Nat.min_eq_left hk]
    simp only [List.length_append, List.length_singleton]
  · rw [intended, intendedName, hname, withName, hfront]
    simp

theorem rewriteText_of_hasRate (h : HasRate t rate) :
    rewriteText rate t.text = .ok (t.intended rate) := by
  obtain ⟨hname, a, b, hsplit, htext⟩ := h
  have hintended : t.intended rate = t.text := by rw [intended, hname, text]
  rw [hintended, rewriteText_eq_ok]
  exact ⟨a, decimal rate, b, hsplit, slash_notMem_decimal rate, htext, hsplit⟩

/-- If the `Seg` that is found is in front of the name, the last separator there keeps its place, and
so the name is unchanged. -/
theorem intendedName_of_lt {a mid tail : Bytes} (hsplit : t.text = a ++ 47 :: (mid ++ tail))
    (hlt : a.length + 1 + mid.length < t.front.length)
    (hnew : t.intended rate = a ++ 47 :: (decimal rate ++ tail)) : t.intendedName rate = t.name := by
  have hreplaced : a ++ 47 :: mid <+: t.text :=
    ⟨tail, by rw [hsplit, List.append_assoc, List.cons_append]⟩
  have hbefore : t.front <+: t.text :=
    ⟨t.name ++ t.behind, by rw [text, withName, List.append_assoc]⟩
  obtain ⟨e, hfront⟩ : a ++ 47 :: mid <+: t.front := by
    refine List.prefix_of_prefix_length_le hreplaced hbefore ?_
    rw [List.length_append, List.length_cons]
    omega
  obtain ⟨f, c, hlast, hsep⟩ := front_lastSep (t := t)
  have he : ∃ e', e = e' ++ [c] := by
    rcases List.eq_nil_or_concat e with rfl | ⟨e', d, rfl⟩
    · rw [← hfront, List.length_append, List.length_append, List.length_cons,
        List.length_nil] at hlt
      omega
    · rw [← hfront, List.concat_eq_append, ← List.append_assoc] at hlast
      rw [List.singleton_inj.mp (List.append_inj' hlast rfl).2]
      exact ⟨e', List.concat_eq_append⟩
  obtain ⟨e', rfl⟩ := he
  have htail : tail = e' ++ [c] ++ t.name ++ t.behind := by
    rw [text, withName, ← hfront] at hsplit
    simpa using hsplit.symm
  have hjoin : t.front ++ t.intendedName rate =
      (a ++ 47 :: (decimal rate ++ e') ++ [c]) ++ t.name := by
    rw [intended, withName, htail] at hnew
    rw [← List.append_cancel_right_eq _ t.behind, hnew]
    simp
  exact (append_inj_lastSep front_lastSep ⟨_, c, rfl, hsep⟩ intendedName_noSep name_noSep hjoin).2

/-- If it is in the name, there have to be directories: otherwise the slash is further in front, and
the text gets shorter than it is meant to. -/
theorem dirs_ne_nil {a mid tail : Bytes} {k : Nat} (hsplit : t.text = a ++ 47 :: (mid ++ tail))
    (hname : strstr (ascii "Seg") t.name = some k)
    (hp : a.length + 1 + mid.length = t.front.length + k)
    (hnew : t.intended rate = a ++ 47 :: (decimal rate ++ tail)) : t.dirs ≠ [] := by
  intro hdirs
  have hk := (strstr_spec hname).1
  have hlenNew := congrArg List.length hnew
  have hlenOld := congrArg List.length hsplit
  simp only [intended, text, withName, intendedName, hname, List.length_append,
    List.length_cons, List.length_drop] at hlenNew hlenOld
  have hslash : t.front = a ++ [47] := by
    have htake := congrArg (List.take t.front.length) hsplit
    have hfrontLen : t.front.length = a.length + 1 := by omega
    rw [text, withName, List.append_assoc, List.take_left, hfrontLen, List.take_append,
      List.take_of_length_le (Nat.le_succ _), Nat.add_sub_cancel_left] at htake
    exact htake
  obtain ⟨gap, c, hgap⟩ := (List.eq_nil_or_concat t.gap).resolve_left t.gap_space.1
  rw [front, hdirs, List.append_nil, hgap, List.concat_eq_append, ← List.append_assoc] at hslash
  have hc := List.singleton_inj.mp (List.append_inj' hslash rfl).2
  have hspace := t.gap_space.2 c (by rw [hgap]; simp)
  rw [hc] at hspace
  exact absurd hspace (by decide)

/-- **The rewriting** does what it is for exactly when it works on the name, or changes nothing. -/
theorem rewriteText_intended_iff :
    rewriteText rate t.text = .ok (t.intended rate) ↔ SegInName t ∨ HasRate t rate := by
  constructor
  · intro h
    obtain ⟨a, mid, tail, hsplit, -, hseg, hnew⟩ := rewriteText_eq_ok.mp h
    -- if the name stays, so does the text, and what is replaced was the rate
    have hstays : t.intendedName rate = t.name → HasRate t rate := by
      intro hname
      have hsame : t.intended rate = t.text := by rw [intended, hname, text]
      rw [hsame, hsplit, List.append_cancel_left_eq, List.cons.injEq, List.append_cancel_right_eq]
        at hnew
      obtain ⟨-, rfl⟩ := hnew
      exact ⟨hname, a, tail, hsplit, hseg⟩
    rcases Nat.lt_or_ge (a.length + 1 + mid.length) t.front.length with hlt | hge
    · exact Or.inr (hstays (intendedName_of_lt hsplit hlt hnew))
    · cases hname : strstr (ascii "Seg") t.name with
      | none =>
        refine Or.inr (hstays ?_)
        rw [intendedName, hname]
      | some k =>
        have hp := seg_of_le hseg hname hge
        rw [hp] at hseg
        exact Or.inl ⟨dirs_ne_nil hsplit hname hp hnew, k, hname, hseg⟩
  · rintro (h | h)
    · exact rewriteText_of_segInName h
    · exact rewriteText_of_hasRate h

theorem text_noNul : (0 : UInt8) ∉ t.text := by
  have hspace : ∀ {gap : Bytes}, (∀ c ∈ gap, isSpace c = true) → (0 : UInt8) ∉ gap :=
    fun h h0 => absurd (h 0 h0) (by decide)
  have hno := t.no_nul
  simp only [List.mem_append, not_or] at hno
  simp only [text, withName, front, behind, List.mem_append, not_or]
  exact ⟨⟨⟨⟨⟨hspace t.lead_space, by decide⟩, hspace t.gap_space.2⟩, hno.1.1⟩, hno.1.2⟩,
    ⟨hspace t.gap'_space.2, by decide⟩, hno.2⟩

theorem text_fits : t.text.length < MAX_LENGTH := by
  have hfits := t.fits
  simp only [List.length_append] at hfits
  simp only [text, withName, front, behind, List.length_append]
  omega

end ChunkText

/-- `create_tracker` takes the path for a chunk, and `update_bitrate` returns and leaves the request
with the rate for the tracker's estimate in its name. -/
def NameRewritten (t : ChunkText) (fd : Nat) (trackers₀ : Trackers) : Prop :=
  ∃ trackers buffer trackers', createTracker (t.dirs ++ t.name) fd trackers₀ = some trackers ∧
    updateBitrate (readBuffer t.text) fd trackers = .ok (buffer, trackers') ∧
    cstr buffer = t.intended (selectRate (trackerOf fd trackers₀).throughput)

/-- The rewriting works on the name or changes nothing, the new text has room, and its first
`HTTP/1.1` stands where `tmp` has room for what is in front of it. -/
structure NameInPlace (t : ChunkText) (rate : Nat) : Prop where
  place : t.SegInName ∨ t.HasRate rate
  room : (t.intended rate).length < MAX_LENGTH
  file : ∃ http, strstr (ascii "HTTP/1.1") (t.intended rate) = some http ∧ 5 ≤ http ∧ http ≤ 52

/-- **The name is rewritten** exactly when it is in place. -/
theorem nameRewritten_iff (t : ChunkText) (fd : Nat) (trackers₀ : Trackers) :
    NameRewritten t fd trackers₀ ↔
      NameInPlace t (selectRate (trackerOf fd trackers₀).throughput) := by
  obtain ⟨trackers, hcreate⟩ := createTracker_of_frag t.frag fd trackers₀
  obtain ⟨hs, -⟩ := createTracker_spec hcreate
  have hcstr : cstr (readBuffer t.text) = t.text := by
    rw [cstr_readBuffer, cstr_of_no_nul t.text_noNul]
  have hlen : (readBuffer t.text).length = MAX_LENGTH :=
    length_readBuffer (Nat.le_of_lt t.text_fits)
  constructor
  · rintro ⟨_, buffer, trackers', hcreate', hupd, hnew⟩
    rw [hcreate, Option.some.injEq] at hcreate'
    subst hcreate'
    obtain ⟨hrewrite, hname⟩ := (updateBitrate_iff hs (by simp)).mp ⟨trackers', hupd⟩
    obtain ⟨text, htext, hroom, -⟩ := rewriteRequest_eq_ok.mp hrewrite
    have hresult := cstr_rewriteRequest hrewrite
    rw [htext, Except.ok.injEq, hnew] at hresult
    subst hresult
    rw [hcstr] at htext
    rw [hlen] at hroom
    rw [hnew] at hname
    exact ⟨ChunkText.rewriteText_intended_iff.mp htext, hroom, exists_chunkName.mp hname⟩
  · rintro ⟨hplace, hroom, hfile⟩
    have htext := ChunkText.rewriteText_intended_iff.mpr hplace
    obtain ⟨buffer, hrewrite⟩ : ∃ buffer, rewriteRequest
        (selectRate (trackerOf fd trackers₀).throughput) (readBuffer t.text) = .ok buffer :=
      ⟨_, rewriteRequest_eq_ok.mpr ⟨_, by rw [hcstr, htext], by rw [hlen]; exact hroom, rfl⟩⟩
    have hnew := cstr_rewriteRequest hrewrite
    rw [hcstr, htext, Except.ok.injEq] at hnew
    obtain ⟨trackers', hupd⟩ := (updateBitrate_iff hs (by simp)).mpr
      ⟨hrewrite, by rw [← hnew]; exact exists_chunkName.mpr hfile⟩
    exact ⟨trackers, buffer, trackers', hcreate, hupd, hnew.symm⟩

/-! ## A chunk without a `Seg` -/

/-- The request `GET /1-Frag1 HTTP/1.1`. -/
def plainFrag : ChunkText where
  lead := []
  gap := [32]
  dirs := [47]
  name := ascii "1-Frag1"
  gap' := [32]
  rest := ascii "\r\n\r\n"
  lead_space := by simp
  gap_space := by simp [isSpace]
  path := by simp [isSpace, ascii]
  dirs_slash := Or.inr ⟨[], rfl⟩
  name_noSlash := by decide
  gap'_space := by simp [isSpace]
  frag := by decide
  no_nul := by decide
  fits := by decide

/-- **A null pointer**: the request is taken for a chunk, and has no `Seg`. -/
theorem noSeg_dereferenced : ¬ ∀ t fd trackers₀, NameRewritten t fd trackers₀ := by
  intro h
  obtain ⟨trackers, buffer, trackers', hcreate, hupd, -⟩ := h plainFrag 4 []
  obtain ⟨_, _, _, _, -, -, hrewrite, -⟩ := updateBitrate_spec hupd
  have htext := cstr_rewriteRequest hrewrite
  rw [cstr_readBuffer, cstr_of_no_nul plainFrag.text_noNul] at htext
  have hnone : strstr (ascii "Seg") plainFrag.text = none := by decide
  unfold rewriteText at htext
  rw [hnone] at htext
  cases htext

end VideoCdn
