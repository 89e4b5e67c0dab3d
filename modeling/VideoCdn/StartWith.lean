import VideoCdn.Manifest

/-!
# Lines that start with a keyword (`start_with` of `src/handle.c`)

The two loops share the index `i`: the first one counts the blanks of the line up to the length of the
keyword, and the second one compares only the bytes that are left until `i` has that length.

* `startWithLoops` — the loops, on arrays; `startWithLoops_eq` — they stay inside the arrays and compute
  `startWith`.
* `startWith_iff` — **how much is compared**: the blanks count as bytes of the keyword.
* `EnoughCompared` — the bytes that are compared decide.
* `startWith_depth_iff` — for any keyword, lines that are indented go wrong.
* `startsWhole_iff` — `start_with` finds the lines that begin with the whole keyword exactly where
  enough is compared; `manifest_startsMedia` is a line where it is not.
-/

set_option autoImplicit false

namespace VideoCdn

open CLib

/-- The spaces and tabs at the front of a line. -/
def indentation (line : Bytes) : Bytes := line.takeWhile (fun c => c == 32 || c == 9)

/-- The line behind them. -/
def unindented (line : Bytes) : Bytes := line.dropWhile (fun c => c == 32 || c == 9)

/-! ## The loops -/

/-- The first loop; `left` is what `i` has to go to `size`. -/
def skipLoop (src : Bytes) : Nat → Nat → Checked Nat
  | 0, i => .ok i
  | left + 1, i => do
    let c ← charAt src i
    if c == 32 || c == 9 then skipLoop src left (i + 1) else return i

/-- The second loop. -/
def compareLoop (src dst : Bytes) : Nat → Nat → Nat → Checked Int
  | 0, _, _ => .ok 1
  | left + 1, i, j => do
    let c ← charAt src i
    let d ← charAt dst j
    if c ≠ d then return -1 else compareLoop src dst left (i + 1) (j + 1)

/-- `start_with` on the arrays `src` and `dst`. -/
def startWithLoops (src dst : Bytes) : Checked Int := do
  let size ← strlen dst
  let i ← skipLoop src size 0
  compareLoop src dst (size - i) i 0

/-- The next `left` bytes are there, or there is a NUL at which the loops stop. -/
def Readable (src : Bytes) (left : Nat) : Prop := left ≤ src.length ∨ 0 ∈ src

theorem Readable.cons {c : UInt8} {src : Bytes} {left : Nat} (h : Readable (c :: src) (left + 1))
    (hc : c ≠ 0) : Readable src left := by
  rcases h with hle | hmem
  · exact Or.inl (Nat.le_of_succ_le_succ hle)
  · exact Or.inr ((List.mem_cons.mp hmem).resolve_left hc.symm)

theorem Readable.exists_cons {src : Bytes} {left : Nat} (h : Readable src (left + 1)) :
    ∃ c rest, src = c :: rest := by
  cases src with
  | nil => simp [Readable] at h
  | cons c rest => exact ⟨c, rest, rfl⟩

/-- The first loop passes the blanks among the next `left` bytes. -/
theorem skipLoop_eq {src : Bytes} {left i : Nat} (h : Readable (src.drop i) left) :
    skipLoop src left i = .ok (i + (indentation ((src.drop i).take left)).length) := by
  unfold indentation
  induction left generalizing i with
  | zero => simp [skipLoop]
  | succ left ih =>
    obtain ⟨c, rest, hdrop⟩ := h.exists_cons
    obtain ⟨hchar, hrest⟩ := charAt_of_drop hdrop
    unfold skipLoop
    rw [hchar, ok_bind, hdrop, List.take_succ_cons, List.takeWhile_cons]
    cases hblank : (c == 32 || c == 9) with
    | false => simp
    | true =>
      have hc : c ≠ 0 := by
        rintro rfl
        cases hblank
      rw [hdrop] at h
      have hreads : Readable (src.drop (i + 1)) left := hrest ▸ h.cons hc
      rw [if_pos rfl, if_pos rfl, ih hreads, hrest, List.length_cons]
      congr 1
      omega

/-- The second loop compares the next `left` bytes. -/
theorem compareLoop_eq {src dst keyword behind : Bytes} {left i j : Nat}
    (h : Readable (src.drop i) left) (hdst : dst.drop j = keyword ++ 0 :: behind)
    (hnul : (0 : UInt8) ∉ keyword) (hleft : left ≤ keyword.length) :
    compareLoop src dst left i j =
      .ok (if (keyword.take left).isPrefixOf (src.drop i) then 1 else -1) := by
  induction left generalizing i j keyword with
  | zero => simp [compareLoop]
  | succ left ih =>
    obtain ⟨c, rest, hdrop⟩ := h.exists_cons
    obtain ⟨d, keyword, rfl⟩ := List.exists_cons_of_length_pos (Nat.lt_of_lt_of_le (by simp) hleft)
    obtain ⟨hchar, hrest⟩ := charAt_of_drop hdrop
    obtain ⟨hchar', hrest'⟩ := charAt_of_drop hdst
    unfold compareLoop
    rw [hchar, ok_bind, hchar', ok_bind, hdrop, List.take_succ_cons]
    by_cases hcd : c = d
    · subst hcd
      have hc : c ≠ 0 := fun hc => hnul (hc ▸ List.mem_cons_self)
      rw [hdrop] at h
      have hreads : Readable (src.drop (i + 1)) left := hrest ▸ h.cons hc
      rw [if_neg (not_not_intro rfl),
        ih hreads hrest' (fun hmem => hnul (List.mem_cons_of_mem c hmem)) (by simpa using hleft), hrest]
      simp [List.isPrefixOf]
    · have hdc : (d == c) = false := by simpa using Ne.symm hcd
      simp [hcd, hdc, List.isPrefixOf]

/-- Behind the blanks there is enough left for the second loop. -/
theorem Readable.drop_indentation {src : Bytes} {left : Nat} (h : Readable src left) :
    Readable (src.drop (indentation (src.take left)).length)
      (left - (indentation (src.take left)).length) := by
  unfold indentation
  induction left generalizing src with
  | zero => simp [Readable]
  | succ left ih =>
    obtain ⟨c, rest, rfl⟩ := h.exists_cons
    rw [List.take_succ_cons, List.takeWhile_cons]
    cases hblank : (c == 32 || c == 9) with
    | false => simpa using h
    | true =>
      have hc : c ≠ 0 := by
        rintro rfl
        cases hblank
      simpa using ih (h.cons hc)

/-- **The loops compute `startWith`** for any line that ends, or is as long as the keyword. -/
theorem startWithLoops_eq {src keyword : Bytes} (hnul : (0 : UInt8) ∉ keyword)
    (hsrc : Readable src keyword.length) (behind : Bytes) :
    startWithLoops src (keyword ++ 0 :: behind) = .ok (if startWith src keyword then 1 else -1) := by
  have hskip := skipLoop_eq (i := 0) hsrc
  rw [List.drop_zero, Nat.zero_add] at hskip
  have hcompare := compareLoop_eq hsrc.drop_indentation (List.drop_zero (l := keyword ++ 0 :: behind))
    hnul (Nat.sub_le _ _)
  unfold startWithLoops
  rw [strlen_append hnul, ok_bind, hskip, ok_bind, hcompare]
  rfl

/-! ## How much is compared -/

/-- A line is its blanks and what stands behind them. -/
theorem indentation_append_unindented (line : Bytes) : indentation line ++ unindented line = line :=
  List.takeWhile_append_dropWhile

theorem indentation_take (line : Bytes) (n : Nat) :
    indentation (line.take n) = (indentation line).take n :=
  List.take_takeWhile.symm

/-- **The blanks count as bytes of the keyword.** -/
theorem startWith_iff (line keyword : Bytes) : startWith line keyword = true ↔
    keyword.length ≤ (indentation line).length + commonLength keyword (unindented line) := by
  have hstart : startWith line keyword = true ↔
      keyword.take (keyword.length - (indentation (line.take keyword.length)).length) <+:
        line.drop (indentation (line.take keyword.length)).length :=
    List.isPrefixOf_iff_prefix
  rw [hstart, indentation_take, List.length_take]
  rcases Nat.lt_or_ge (indentation line).length keyword.length with hlt | hge
  · have hdrop : line.drop (indentation line).length = unindented line := by
      have hleft : (indentation line ++ unindented line).drop (indentation line).length =
          unindented line := List.drop_left
      rwa [indentation_append_unindented] at hleft
    rw [Nat.min_eq_right (Nat.le_of_lt hlt), hdrop, take_isPrefix_iff (Nat.sub_le _ _)]
    omega
  · -- nothing is left to be compared
    rw [Nat.min_eq_left hge, Nat.sub_self, List.take_zero]
    exact iff_of_true (List.nil_prefix) (by omega)

theorem indentation_append_nul (line behind : Bytes) :
    indentation (line ++ 0 :: behind) = indentation line := by
  unfold indentation
  induction line with
  | nil => rfl
  | cons c line ih => rw [List.cons_append, List.takeWhile_cons, List.takeWhile_cons, ih]

theorem unindented_append_nul (line behind : Bytes) :
    unindented (line ++ 0 :: behind) = unindented line ++ 0 :: behind := by
  have hwhole := indentation_append_unindented (line ++ 0 :: behind)
  conv_rhs at hwhole => rw [← indentation_append_unindented line, List.append_assoc]
  rw [indentation_append_nul] at hwhole
  exact List.append_cancel_left hwhole

/-- What stands behind the end of the line makes no difference. -/
theorem startWith_append_nul {keyword : Bytes} (hnul : (0 : UInt8) ∉ keyword) (line behind : Bytes) :
    startWith (line ++ 0 :: behind) keyword = startWith line keyword := by
  rw [Bool.eq_iff_iff, startWith_iff, startWith_iff, indentation_append_nul, unindented_append_nul,
    commonLength_append _ _ hnul]

/-- A line that starts with a keyword is at least as long. -/
theorem length_of_startWith {line keyword : Bytes} (h : startWith line keyword = true) :
    keyword.length ≤ line.length := by
  have hwhole := congrArg List.length (indentation_append_unindented line)
  rw [List.length_append] at hwhole
  have hle := commonLength_le_right keyword (unindented line)
  have hstart := (startWith_iff line keyword).mp h
  omega

/-- The calls of the source: the array `line` is cleared before `stored` is read into it. -/
theorem startWithLoops_line {stored keyword : Bytes} (hstored : stored.length ≤ MAX_LENGTH)
    (hnul : (0 : UInt8) ∉ keyword) (hkeyword : keyword.length ≤ MAX_LENGTH) (behind : Bytes) :
    startWithLoops (stored ++ List.replicate (MAX_LENGTH - stored.length) 0) (keyword ++ 0 :: behind) =
      .ok (if startWith stored keyword then 1 else -1) := by
  cases hfree : MAX_LENGTH - stored.length with
  | zero =>
    rw [List.replicate_zero, List.append_nil]
    exact startWithLoops_eq hnul (Or.inl (by omega)) behind
  | succ free =>
    rw [List.replicate_succ, startWithLoops_eq hnul (Or.inr (by simp)) behind,
      startWith_append_nul hnul]

/-! ## Lines that are not indented -/

/-- The first byte is one that `start_with` skips. -/
def startsBlank : Bytes → Bool
  | [] => false
  | c :: _ => c == 32 || c == 9

theorem indentation_of_not_blank {line : Bytes} (h : startsBlank line = false) :
    indentation line = [] := by
  cases line with
  | nil => rfl
  | cons c line =>
    rw [startsBlank] at h
    unfold indentation
    rw [List.takeWhile_cons, h]
    rfl

theorem unindented_of_not_blank {line : Bytes} (h : startsBlank line = false) :
    unindented line = line := by
  have hwhole := indentation_append_unindented line
  rwa [indentation_of_not_blank h, List.nil_append] at hwhole

/-- A line that is not indented is compared as a whole. -/
theorem startWith_eq_isPrefixOf {line : Bytes} (h : startsBlank line = false) (keyword : Bytes) :
    startWith line keyword = keyword.isPrefixOf line := by
  have hle := commonLength_le_left keyword line
  rw [Bool.eq_iff_iff, startWith_iff, List.isPrefixOf_iff_prefix, isPrefix_iff_commonLength,
    indentation_of_not_blank h, unindented_of_not_blank h, List.length_nil]
  omega

/-- A line that begins with the keyword itself starts with it. -/
theorem startWith_of_prefix {line keyword : Bytes} (h : keyword <+: line)
    (hblank : startsBlank keyword = false) : startWith line keyword = true := by
  cases keyword with
  | nil => simp [startWith_iff]
  | cons c keyword =>
    have hline : startsBlank line = false := by
      obtain ⟨rest, rfl⟩ := h
      exact hblank
    rw [startWith_eq_isPrefixOf hline]
    exact List.isPrefixOf_iff_prefix.mpr h

/-- A line that begins with something else does not. -/
theorem startWith_eq_false {line keyword : Bytes} (hblank : startsBlank line = false)
    (h : ¬ keyword <+: line) : startWith line keyword = false := by
  rw [startWith_eq_isPrefixOf hblank, ← Bool.not_eq_true, List.isPrefixOf_iff_prefix]
  exact h

/-! ## Whole keywords -/

/-- The bytes that are compared decide: the whole keyword stands behind the blanks, or the text there
differs from it so early that the blanks and the bytes in front of the difference are fewer than the
bytes of the keyword. -/
def EnoughCompared (line keyword : Bytes) : Prop :=
  commonLength keyword (unindented line) = keyword.length ∨
    (indentation line).length + commonLength keyword (unindented line) < keyword.length

theorem startWith_whole_iff (line keyword : Bytes) :
    (startWith line keyword = true ↔ keyword <+: unindented line) ↔ EnoughCompared line keyword := by
  have hle := commonLength_le_left keyword (unindented line)
  rw [startWith_iff, isPrefix_iff_commonLength]
  unfold EnoughCompared
  omega

theorem EnoughCompared.startWith_eq {line keyword : Bytes} (h : EnoughCompared line keyword) :
    startWith line keyword = keyword.isPrefixOf (unindented line) := by
  rw [Bool.eq_iff_iff, List.isPrefixOf_iff_prefix]
  exact (startWith_whole_iff line keyword).mpr h

theorem enoughCompared_of_not_blank {line : Bytes} (h : startsBlank line = false) (keyword : Bytes) :
    EnoughCompared line keyword := by
  have hle := commonLength_le_left keyword (unindented line)
  unfold EnoughCompared
  rw [indentation_of_not_blank h, List.length_nil]
  omega

/-- The line that has everything of the keyword but its last byte behind `k` blanks. -/
def cutLine (keyword : Bytes) (k : Nat) : Bytes := List.replicate k 32 ++ keyword.dropLast

theorem indentation_cutLine {keyword : Bytes} (h : startsBlank keyword = false) (k : Nat) :
    indentation (cutLine keyword k) = List.replicate k 32 := by
  have hrest : indentation keyword.dropLast = [] := by
    apply indentation_of_not_blank
    cases keyword with
    | nil => rfl
    | cons c keyword =>
      cases keyword with
      | nil => rfl
      | cons d keyword => exact h
  unfold cutLine
  induction k with
  | zero => exact hrest
  | succ k ih =>
    unfold indentation at ih ⊢
    rw [List.replicate_succ, List.cons_append, List.takeWhile_cons, ih]
    rfl

theorem unindented_cutLine {keyword : Bytes} (h : startsBlank keyword = false) (k : Nat) :
    unindented (cutLine keyword k) = keyword.dropLast := by
  have hwhole := indentation_append_unindented (cutLine keyword k)
  rw [indentation_cutLine h] at hwhole
  exact List.append_cancel_left hwhole

/-- **Every depth but 0 goes wrong**, whatever the keyword. -/
theorem startWith_depth_iff {keyword : Bytes} (hne : keyword ≠ [])
    (hblank : startsBlank keyword = false) (k : Nat) :
    (∀ line, (indentation line).length = k →
      (startWith line keyword = true ↔ keyword <+: unindented line)) ↔ k = 0 := by
  constructor
  · intro h
    by_contra hk
    have hpos := List.length_pos_of_ne_nil hne
    have hlen : (indentation (cutLine keyword k)).length = k := by
      rw [indentation_cutLine hblank, List.length_replicate]
    have hfront : keyword.take (keyword.length - 1) <+: keyword.dropLast := by
      simp [List.dropLast_eq_take]
    have hcommon := (take_isPrefix_iff (Nat.sub_le keyword.length 1)).mp hfront
    have hstart : startWith (cutLine keyword k) keyword = true := by
      rw [startWith_iff, hlen, unindented_cutLine hblank]
      omega
    have hpre := (h (cutLine keyword k) hlen).mp hstart
    rw [unindented_cutLine hblank] at hpre
    have hle := hpre.length_le
    rw [List.length_dropLast] at hle
    omega
  · rintro rfl line hlen
    rw [startWith_whole_iff]
    have hle := commonLength_le_left keyword (unindented line)
    unfold EnoughCompared
    omega

/-- **What `start_with` is for**: on a line and a keyword that end with a NUL, whatever stands behind
it, the result is 1 exactly if the line behind all its blanks begins with the whole keyword. -/
def StartsWhole (line keyword : CString) : Prop :=
  ∀ behind behind' : Bytes,
    startWithLoops (line.bytes ++ 0 :: behind) (keyword.bytes ++ 0 :: behind') = .ok 1 ↔
      keyword.bytes <+: unindented line.bytes

/-- The result on such arrays. -/
theorem startWithLoops_cstring (line keyword : CString) (behind behind' : Bytes) :
    startWithLoops (line.bytes ++ 0 :: behind) (keyword.bytes ++ 0 :: behind') =
      .ok (if startWith line.bytes keyword.bytes then 1 else -1) := by
  rw [startWithLoops_eq keyword.no_nul (Or.inr (by simp)), startWith_append_nul keyword.no_nul]

/-- **`start_with` does what it is for** exactly where enough of the line is compared. -/
theorem startsWhole_iff (line keyword : CString) :
    StartsWhole line keyword ↔ EnoughCompared line.bytes keyword.bytes := by
  rw [← startWith_whole_iff]
  unfold StartsWhole
  simp only [startWithLoops_cstring]
  cases startWith line.bytes keyword.bytes with
  | true => simp
  | false => simp

/-- **The last line of a manifest**, five blanks in front of it, passes for the end of a `media`. -/
theorem manifest_startsMedia : ¬ ∀ line keyword : CString, keyword.bytes ≠ [] →
    startsBlank keyword.bytes = false → StartsWhole line keyword := by
  intro h
  have hwhole := h ⟨ascii "     </manifest>", by decide⟩ ⟨ascii "</media>", by decide⟩ (by decide) rfl
  have hpre := (hwhole [] []).mp rfl
  exact absurd hpre (by decide)

end VideoCdn
