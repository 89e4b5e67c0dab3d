import VideoCdn.ManifestLoops

/-!
# What is kept of a manifest (`write_f4m_nolist` of `src/handle.c`)

`start_with` compares only as many bytes of a keyword as its indentation leaves room for, so a line
that is indented far enough passes for a line of another kind.

* `textKind` — the kind of a line by its first text that is not blank.
* `keptBy`, `ratesBy` — the lines that are kept and the numbers that are collected, for either notion
  of the kinds.
* `keptBy_eq_iff` — **the same text**: when two notions of the kinds keep the same of some lines.
* `fillFree_eq_iff` — **the same slots**: when two lists of numbers fill them alike.
* `manifestKept_iff` — the rewriting does what it is for exactly when the lines pass for what they
  are, as far as it matters, and everything fits.
* `manifest_deepLine` — a line that is indented by seven blanks is lost.
-/

set_option autoImplicit false

namespace VideoCdn

open CLib

/-! ## Kept lines -/

section kinds
variable (kind : Bytes → LineKind)

/-- The lines that are kept if these are their kinds. -/
def keptBy : List Bytes → Bytes
  | [] => []
  | line :: lines =>
    match kind line with
    | .bitrate => keptBy lines
    | .media => line
    | .manifest => []
    | .other => line ++ keptBy lines

/-- The numbers of the bitrate lines in front of the first `</manifest>` line. -/
def ratesBy : List Bytes → List Int
  | [] => []
  | line :: lines =>
    match kind line with
    | .bitrate => atoi (quotedPart line) :: ratesBy lines
    | .media => ratesBy lines
    | .manifest => []
    | .other => ratesBy lines

/-- Nothing of the lines is kept. -/
def KeepsNothing : List Bytes → Prop
  | [] => True
  | line :: lines =>
    match kind line with
    | .bitrate => KeepsNothing lines
    | .media => line = []
    | .manifest => True
    | .other => line = [] ∧ KeepsNothing lines

theorem keptBy_eq_nil {lines : List Bytes} : keptBy kind lines = [] ↔ KeepsNothing kind lines := by
  induction lines with
  | nil => simp [keptBy, KeepsNothing]
  | cons line lines ih =>
    unfold keptBy KeepsNothing
    cases kind line <;> simp [ih]

/-- A text without bytes adds nothing. -/
theorem keptBy_append_nil (lines : List Bytes) :
    keptBy kind (lines ++ [[]]) = keptBy kind lines := by
  induction lines with
  | nil =>
    rw [List.nil_append]
    unfold keptBy
    cases kind [] <;> rfl
  | cons line lines ih =>
    rw [List.cons_append]
    unfold keptBy
    cases kind line <;> simp [ih]

end kinds

theorem keptLines_eq (lines : List Bytes) : keptLines lines = keptBy lineKind lines := by
  induction lines with
  | nil => rfl
  | cons line lines ih =>
    unfold keptLines keptBy
    cases lineKind line <;> simp only [ih]

/-- A text begins with one whole line only. -/
theorem isLine_prefix_unique {a b t : Bytes} (ha : IsLine a) (hb : IsLine b) (hat : a <+: t)
    (hbt : b <+: t) : a = b := by
  obtain ⟨x, rfl, hx⟩ := ha.newline
  obtain ⟨y, rfl, hy⟩ := hb.newline
  obtain ⟨s, rfl⟩ := hat
  obtain ⟨u, hu⟩ := hbt
  have hlen : y.length = x.length := by
    have hfind := congrArg (List.findIdx? (· == 10)) hu
    simp only [List.append_assoc, List.singleton_append] at hfind
    rwa [findIdx?_newline hx, findIdx?_newline hy, Option.some.injEq] at hfind
  simp only [List.append_assoc] at hu
  rw [(List.append_inj hu hlen).1]

/-- What is kept does not begin with a line of a kind that is left out. -/
theorem not_prefix_keptBy {kind : Bytes → LineKind} {line tail : Bytes} {lines : List Bytes}
    (hlines : ∀ l ∈ lines, IsLine l) (hno : (10 : UInt8) ∉ tail) (hline : IsLine line)
    (hkind : kind line = .bitrate ∨ kind line = .manifest) :
    ¬ line <+: keptBy kind (lines ++ [tail]) := by
  obtain ⟨text, htext, -⟩ := hline.newline
  have hmem : (10 : UInt8) ∈ line := by rw [htext]; simp
  induction lines with
  | nil =>
    intro hpre
    have hkept : ∀ c ∈ keptBy kind ([] ++ [tail]), c ∈ tail := by
      intro c hc
      rw [List.nil_append] at hc
      unfold keptBy at hc
      cases hk : kind tail <;> rw [hk] at hc <;> simp_all [keptBy]
    exact hno (hkept 10 (hpre.subset hmem))
  | cons l lines ih =>
    have hl : IsLine l := hlines l List.mem_cons_self
    intro hpre
    rw [List.cons_append] at hpre
    unfold keptBy at hpre
    have hdiffer : kind l ≠ kind line → ∀ t, l <+: t → ¬ line <+: t := by
      intro hne t hlt hlinet
      exact hne (congrArg kind (isLine_prefix_unique hl hline hlt hlinet))
    cases hk : kind l with
    | bitrate =>
      rw [hk] at hpre
      exact ih (fun l hl => hlines l (List.mem_cons_of_mem _ hl)) hpre
    | manifest =>
      rw [hk] at hpre
      rw [List.prefix_nil.mp hpre] at hmem
      cases hmem
    | media =>
      rw [hk] at hpre
      refine hdiffer ?_ _ (List.prefix_refl l) hpre
      rcases hkind with h | h <;> rw [hk, h] <;> decide
    | other =>
      rw [hk] at hpre
      refine hdiffer ?_ _ (List.prefix_append l _) hpre
      rcases hkind with h | h <;> rw [hk, h] <;> decide

/-- Two notions of the kinds, of which only the first sees the text behind the last line, keep the
same: they agree line by line, until one of them has stopped and the other keeps nothing more. -/
def KeptAlike (k₁ k₂ : Bytes → LineKind) (tail : Bytes) : List Bytes → Prop
  | [] => KeepsNothing k₁ [tail]
  | line :: lines =>
    match k₁ line, k₂ line with
    | .bitrate, .bitrate => KeptAlike k₁ k₂ tail lines
    | .bitrate, .manifest => KeepsNothing k₁ (lines ++ [tail])
    | .manifest, .bitrate => KeepsNothing k₂ lines
    | .other, .other => KeptAlike k₁ k₂ tail lines
    | .other, .media => KeepsNothing k₁ (lines ++ [tail])
    | .media, .other => KeepsNothing k₂ lines
    | .media, .media => True
    | .manifest, .manifest => True
    | _, _ => False

/-- **The same text.** -/
theorem keptBy_eq_iff (k₁ k₂ : Bytes → LineKind) {lines : List Bytes} {tail : Bytes}
    (hlines : ∀ l ∈ lines, IsLine l) (hno : (10 : UInt8) ∉ tail) :
    keptBy k₁ (lines ++ [tail]) = keptBy k₂ lines ↔ KeptAlike k₁ k₂ tail lines := by
  induction lines with
  | nil => exact keptBy_eq_nil k₁
  | cons line lines ih =>
    have hline : IsLine line := hlines line List.mem_cons_self
    have hrest : ∀ l ∈ lines, IsLine l := fun l hl => hlines l (List.mem_cons_of_mem _ hl)
    have hne : line ≠ [] := by
      obtain ⟨text, rfl, -⟩ := hline.newline
      simp
    -- a line that only one of them keeps cannot be made up for by the lines behind it
    have hlost₁ : k₁ line = .bitrate ∨ k₁ line = .manifest →
        ∀ t, line <+: t → keptBy k₁ (lines ++ [tail]) ≠ t := by
      rintro hkind t hpre rfl
      exact not_prefix_keptBy hrest hno hline hkind hpre
    have hlost₂ : k₂ line = .bitrate ∨ k₂ line = .manifest →
        ∀ t, line <+: t → t ≠ keptBy k₂ lines := by
      rintro hkind t hpre rfl
      rw [← keptBy_append_nil] at hpre
      exact not_prefix_keptBy hrest List.not_mem_nil hline hkind hpre
    have ih := ih hrest
    rw [List.cons_append]
    unfold keptBy KeptAlike
    cases h₁ : k₁ line with
    | bitrate =>
      have hlost := hlost₁ (Or.inl h₁)
      cases h₂ : k₂ line with
      | bitrate => exact ih
      | media => exact iff_of_false (hlost _ (List.prefix_refl line)) id
      | manifest => exact keptBy_eq_nil k₁
      | other => exact iff_of_false (hlost _ (List.prefix_append line _)) id
    | media =>
      cases h₂ : k₂ line with
      | bitrate => exact iff_of_false (hlost₂ (Or.inl h₂) _ (List.prefix_refl line)) id
      | media => exact iff_of_true rfl trivial
      | manifest => exact iff_of_false hne id
      | other =>
        dsimp only
        rw [← keptBy_eq_nil, eq_comm, List.append_right_eq_self]
    | manifest =>
      cases h₂ : k₂ line with
      | bitrate =>
        dsimp only
        rw [eq_comm]
        exact keptBy_eq_nil k₂
      | media => exact iff_of_false hne.symm id
      | manifest => exact iff_of_true rfl trivial
      | other => exact iff_of_false (fun h => hne (List.append_eq_nil_iff.mp h.symm).1) id
    | other =>
      cases h₂ : k₂ line with
      | bitrate => exact iff_of_false (hlost₂ (Or.inl h₂) _ (List.prefix_append line _)) id
      | media =>
        dsimp only
        rw [← keptBy_eq_nil, List.append_right_eq_self]
      | manifest => exact iff_of_false (fun h => hne (List.append_eq_nil_iff.mp h).1) id
      | other =>
        dsimp only
        rw [List.append_cancel_left_eq]
        exact ih

/-! ## Filled slots -/

/-- The free slots, in order, take the numbers. -/
def fillFree : List Int → List Int → List Int
  | _, [] => []
  | rates, slot :: slots =>
    if slot = -1 then rates.headD (-1) :: fillFree rates.tail slots
    else slot :: fillFree rates slots

theorem fillFree_nil (slots : List Int) : fillFree [] slots = slots := by
  induction slots with
  | nil => rfl
  | cons slot slots ih =>
    unfold fillFree
    split
    · rename_i h
      rw [List.tail_nil, ih, h]
      rfl
    · rw [ih]

/-- A slot that takes -1 stays free. -/
theorem fillFree_fillSlot (rate : Int) (rates slots : List Int) :
    fillFree rates (fillSlot rate slots) =
      fillFree (if rate = -1 then rates else rate :: rates) slots := by
  induction slots with
  | nil => rfl
  | cons slot slots ih =>
    unfold fillSlot
    by_cases hslot : slot = -1
    · rw [if_pos hslot]
      by_cases hrate : rate = -1
      · rw [if_pos hrate, hrate, hslot]
      · rw [if_neg hrate]
        simp [fillFree, hslot, hrate]
    · rw [if_neg hslot]
      unfold fillFree
      rw [if_neg hslot, if_neg hslot, ih]

/-- The loop, slot by slot, fills the free slots with the numbers other than -1. -/
theorem foldl_fillSlot (rates slots : List Int) :
    rates.foldl (fun slots rate => fillSlot rate slots) slots =
      fillFree (rates.filter (fun rate => decide (rate ≠ -1))) slots := by
  induction rates generalizing slots with
  | nil => exact (fillFree_nil slots).symm
  | cons rate rates ih =>
    rw [List.foldl_cons, ih, fillFree_fillSlot]
    by_cases hrate : rate = -1 <;> simp [hrate]

theorem getD_tail (rates : List Int) (k : Nat) :
    rates.tail.getD k (-1) = rates.getD (k + 1) (-1) := by
  cases rates <;> rfl

/-- **The same slots.** -/
theorem fillFree_eq_iff {rates rates' slots : List Int} :
    fillFree rates slots = fillFree rates' slots ↔
      ∀ k < slots.count (-1), rates.getD k (-1) = rates'.getD k (-1) := by
  induction slots generalizing rates rates' with
  | nil => simp [fillFree]
  | cons slot slots ih =>
    unfold fillFree
    by_cases hslot : slot = -1
    · rw [if_pos hslot, if_pos hslot, hslot, List.count_cons_self, List.cons.injEq, ih]
      have hhead : ∀ l : List Int, l.headD (-1) = l.getD 0 (-1) := by
        intro l
        cases l <;> rfl
      simp only [getD_tail, hhead]
      constructor
      · rintro ⟨h0, hrest⟩ k hk
        cases k with
        | zero => exact h0
        | succ k => exact hrest k (by omega)
      · intro h
        exact ⟨h 0 (by omega), fun k hk => h (k + 1) (by omega)⟩
    · rw [if_neg hslot, if_neg hslot, List.count_cons_of_ne (fun h => hslot h), List.cons.injEq, ih]
      simp

/-! ## The loop over the body -/

theorem bodyLoop_slots {lines : List Bytes} (hlines : ∀ line ∈ lines, IsLine line) {tail : Bytes}
    (hno : (10 : UInt8) ∉ tail) (htail : tail.length < MAX_LENGTH) {noWrite : Bool}
    {buffer buffer' : Bytes} {slots slots' : List Int}
    (h : bodyLoop (lines.flatten ++ tail) noWrite buffer slots = .ok (buffer', slots')) :
    slots' = (ratesBy lineKind lines).foldl (fun slots rate => fillSlot rate slots) slots := by
  induction lines generalizing noWrite buffer slots with
  | nil =>
    rw [List.flatten_nil, List.nil_append, bodyLoop_stuck (readLine_noNewline hno htail)] at h
    cases h
  | cons line lines ih =>
    have ih := @ih (fun l hl => hlines l (List.mem_cons_of_mem _ hl))
    rw [List.flatten_cons, List.append_assoc, bodyLoop_line (hlines line List.mem_cons_self)] at h
    unfold ratesBy
    cases hk : lineKind line with
    | bitrate =>
      rw [hk] at h
      dsimp only at h
      rw [inBounds_bind_eq_ok] at h
      exact ih h.2
    | media =>
      rw [hk] at h
      dsimp only at h
      rw [bind_eq_ok] at h
      obtain ⟨_, -, h⟩ := h
      exact ih h
    | manifest =>
      rw [hk] at h
      dsimp only at h
      rw [inBounds_bind_eq_ok] at h
      cases h.2
      rfl
    | other =>
      rw [hk] at h
      dsimp only at h
      rw [bind_eq_ok] at h
      obtain ⟨_, -, h⟩ := h
      exact ih h

/-- **The loop over the body**, behind the line feed of the blank line. -/
theorem bodyLoop_eq_ok {lines : List Bytes} (hlines : ∀ line ∈ lines, IsLine line) {tail : Bytes}
    (hno : (10 : UInt8) ∉ tail) (htail : tail.length < MAX_LENGTH) {body : Bytes}
    {slots slots' : List Int} :
    bodyLoop (10 :: (lines.flatten ++ tail)) false [] slots = .ok (10 :: body, slots') ↔
      StopsSafely lines ∧ body.length < BODY_LENGTH ∧
      body = keptBy lineKind lines ++ ascii "</manifest>" ∧
      slots' = fillFree ((ratesBy lineKind lines).filter (fun rate => decide (rate ≠ -1))) slots := by
  have hlines' : ∀ line ∈ [10] :: lines, IsLine line :=
    List.forall_mem_cons.mpr ⟨isLine_lineFeed, hlines⟩
  have hrates : ratesBy lineKind ([10] :: lines) = ratesBy lineKind lines := by
    rw [ratesBy, lineKind_lineFeed]
  have hbody : rewrittenBody lines = keptBy lineKind lines ++ ascii "</manifest>" := by
    rw [rewrittenBody, keptLines_eq]
  have hsrc : 10 :: (lines.flatten ++ tail) = ([10] :: lines).flatten ++ tail := rfl
  have hloop := @bodyLoop_lineFeed_iff lines hlines tail hno htail slots (10 :: body)
  rw [List.cons.injEq, hbody] at hloop
  rw [hsrc]
  constructor
  · intro h
    obtain ⟨hstop, hlen, -, rfl⟩ := hloop.mp ⟨slots', h⟩
    refine ⟨hstop, hlen, rfl, ?_⟩
    rw [bodyLoop_slots hlines' hno htail h, hrates, foldl_fillSlot]
  · rintro ⟨hstop, hlen, rfl, rfl⟩
    obtain ⟨slots', h⟩ := hloop.mpr ⟨hstop, hlen, rfl, rfl⟩
    rw [h, bodyLoop_slots hlines' hno htail h, hrates, foldl_fillSlot]

/-! ## What is meant to be kept -/

/-- The kind of a line by its first text that is not blank. -/
def textKind (line : Bytes) : LineKind :=
  let text := line.dropWhile (fun c => c == 32 || c == 9)
  if (ascii "bitrate").isPrefixOf text then .bitrate
  else if (ascii "</media>").isPrefixOf text then .media
  else if (ascii "</manifest>").isPrefixOf text then .manifest
  else .other

/-- A `text/xml` response whose content type is its last header, with a body of lines, the last of
which may lack its newline; one of them is a `</manifest>` line. -/
structure ManifestResponse where
  response : XmlResponse
  typeLast : response.back = []
  lines : List Bytes
  tail : Bytes
  body_eq : response.body = lines.flatten ++ tail
  isLine : ∀ line ∈ lines, IsLine line
  tail_noNewline : (10 : UInt8) ∉ tail
  tail_fits : tail.length < MAX_LENGTH
  ends : ∃ line ∈ lines ++ [tail], textKind line = .manifest

/-- The lines up to the first `</media>` line, or to the `</manifest>` line, without the bitrate lines,
and the closing tag. -/
def ManifestResponse.intendedBody (m : ManifestResponse) : Bytes :=
  keptBy textKind (m.lines ++ [m.tail]) ++ ascii "</manifest>"

/-- The free slots with the numbers of the bitrate lines in front of the `</manifest>` line. -/
def ManifestResponse.intendedSlots (m : ManifestResponse) (slots : List Int) : List Int :=
  fillFree (ratesBy textKind (m.lines ++ [m.tail])) slots

/-- `write_f4m_nolist` returns a response that ends with this body, which its first loop has left in
`buffer` behind the line feed of the blank line, and has filled the slots. -/
def ManifestKept (m : ManifestResponse) (slots : List Int) : Prop :=
  bodyLoop (m.response.bytes.drop (m.response.total + 1)) false [] slots =
      .ok (10 :: m.intendedBody, m.intendedSlots slots) ∧
    ∃ head, writeF4mNolist m.response.bytes (m.response.total + 1) slots =
      .ok (head ++ [13, 10] ++ m.intendedBody, m.intendedSlots slots)

/-- The header lines with the new length. -/
def ManifestResponse.newHeader (m : ManifestResponse) : Bytes :=
  ((m.response.front ++ [m.response.typeLine]).map
    (copiedLine m.intendedBody.length)).flatten

/-- The lines pass for what they are, as far as it matters: the loop stops at one of them without
overrunning `bitrate`, the same text is kept, and the free slots get the same numbers; and the new
body and response have room. -/
structure PassesAsMeant (m : ManifestResponse) (slots : List Int) : Prop where
  stops : StopsSafely m.lines
  kept : KeptAlike textKind lineKind m.tail m.lines
  rates : ∀ k < slots.count (-1), (ratesBy textKind (m.lines ++ [m.tail])).getD k (-1) =
    ((ratesBy lineKind m.lines).filter (fun rate => decide (rate ≠ -1))).getD k (-1)
  bodyFits : m.intendedBody.length < BODY_LENGTH
  fits : m.newHeader.length + 2 + m.intendedBody.length ≤ m.response.bytes.length

theorem ManifestResponse.behind_eq (m : ManifestResponse) :
    m.response.behind = 13 :: 10 :: (m.lines.flatten ++ m.tail) := by
  rw [XmlResponse.behind, m.typeLast, m.body_eq]
  rfl

theorem ManifestResponse.bodyLoop_iff (m : ManifestResponse) (slots : List Int) :
    bodyLoop (m.response.bytes.drop (m.response.total + 1)) false [] slots =
      .ok (10 :: m.intendedBody, m.intendedSlots slots) ↔
    StopsSafely m.lines ∧ m.intendedBody.length < BODY_LENGTH ∧
      KeptAlike textKind lineKind m.tail m.lines ∧
      ∀ k < slots.count (-1), (ratesBy textKind (m.lines ++ [m.tail])).getD k (-1) =
        ((ratesBy lineKind m.lines).filter (fun rate => decide (rate ≠ -1))).getD k (-1) := by
  have hdrop : m.response.bytes.drop (m.response.total + 1) =
      10 :: (m.lines.flatten ++ m.tail) := by
    have htotal : (m.response.front ++ [m.response.typeLine]).flatten.length =
      m.response.total := rfl
    rw [m.response.bytes_eq, m.behind_eq, List.drop_append, htotal, Nat.add_sub_cancel_left,
      List.drop_eq_nil_of_le (htotal ▸ Nat.le_succ _)]
    rfl
  have hkept : m.intendedBody = keptBy lineKind m.lines ++ ascii "</manifest>" ↔
      KeptAlike textKind lineKind m.tail m.lines := by
    rw [← keptBy_eq_iff textKind lineKind m.isLine m.tail_noNewline]
    exact List.append_left_inj (ascii "</manifest>")
  rw [hdrop, bodyLoop_eq_ok m.isLine m.tail_noNewline m.tail_fits, hkept]
  unfold ManifestResponse.intendedSlots
  rw [fillFree_eq_iff]

/-- A new line for the length of a body that fits is short. -/
theorem length_copiedLine_le {length : Nat} {line : Bytes} (hline : IsLine line)
    (h : length < BODY_LENGTH) : (copiedLine length line).length ≤ MAX_LENGTH := by
  unfold copiedLine
  split
  · have hdigits : (decimal length).length ≤ 6 := by
      unfold decimal
      rw [List.length_map]
      refine (Nat.length_toDigits_le_iff (by omega) (by omega)).mpr ?_
      unfold BODY_LENGTH at h
      omega
    have hname : (ascii "Content-Length: ").length = 16 := rfl
    unfold contentLengthLine MAX_LENGTH
    simp only [List.length_append, List.length_cons, List.length_nil, hname]
    omega
  · exact Nat.le_of_lt hline.fits

/-- **What is kept of a manifest** is what is meant to be exactly when its lines pass for what they
are, as far as it matters, and everything has room. -/
theorem manifestKept_iff (m : ManifestResponse) (slots : List Int) :
    ManifestKept m slots ↔ PassesAsMeant m slots := by
  have hlines : ∀ line ∈ m.response.front ++ [m.response.typeLine], IsLine line := by
    intro line hline
    refine m.response.isLine line ?_
    rw [m.typeLast]
    exact hline
  have hbehind : m.response.behind ≠ [] := by simp [m.behind_eq]
  have hwrite := writeF4mNolist_lines hlines m.response.first m.response.isType
    (not_length_of_type m.response.word) hbehind slots
  have hsize : (m.response.front ++ [m.response.typeLine]).flatten.length +
      m.response.behind.length = m.response.bytes.length := by
    rw [m.response.bytes_eq, List.length_append]
  have htotal : m.response.total < MAX_LENGTH := by
    have hfits := m.response.fits
    rw [m.typeLast] at hfits
    unfold XmlResponse.total
    omega
  have hdrop : m.response.behind.drop 1 = m.response.bytes.drop (m.response.total + 1) := by
    rw [m.response.bytes_eq, List.drop_append, XmlResponse.total, Nat.add_sub_cancel_left,
      List.drop_eq_nil_of_le (Nat.le_succ _), List.nil_append]
  rw [← m.response.bytes_eq, hsize, hdrop] at hwrite
  have hloop := m.bodyLoop_iff slots
  constructor
  · rintro ⟨hbody, head, hnew⟩
    obtain ⟨hstop, hlen, hkept, hrates⟩ := hloop.mp hbody
    obtain ⟨-, body, hbody', -, hnew, hle, -⟩ := (hwrite _ _).mp hnew
    rw [hbody, Except.ok.injEq, Prod.mk.injEq] at hbody'
    obtain ⟨rfl, -⟩ := hbody'
    refine ⟨hstop, hkept, hrates, hlen, ?_⟩
    rw [hnew, List.length_cons, Nat.add_sub_cancel] at hle
    simp only [List.length_append, List.length_cons, List.length_nil] at hle
    unfold ManifestResponse.newHeader
    omega
  · rintro ⟨hstop, hkept, hrates, hlen, hfits⟩
    have hbody := hloop.mpr ⟨hstop, hlen, hkept, hrates⟩
    refine ⟨hbody, m.newHeader, (hwrite _ _).mpr ⟨htotal, _, hbody, ?_, ?_, ?_, ?_⟩⟩
    · intro line hline
      rw [List.length_cons, Nat.add_sub_cancel]
      exact length_copiedLine_le (hlines line hline) hlen
    · rw [List.length_cons, Nat.add_sub_cancel]
      simp [ManifestResponse.newHeader]
    · simp only [List.length_append, List.length_cons, List.length_nil]
      omega
    · simp only [List.length_append, List.length_cons, List.length_nil]
      omega

/-! ## Lines that are not indented -/

/-- A line of which enough is compared passes for what it is. -/
theorem lineKind_eq_textKind_of_enough {line : Bytes} (hbitrate : EnoughCompared line (ascii "bitrate"))
    (hmedia : EnoughCompared line (ascii "</media>"))
    (hmanifest : EnoughCompared line (ascii "</manifest>")) : lineKind line = textKind line := by
  unfold lineKind
  rw [hbitrate.startWith_eq, hmedia.startWith_eq, hmanifest.startWith_eq]
  rfl

/-- So does a line that does not begin with a blank. -/
theorem lineKind_eq_textKind {line : Bytes} (h : startsBlank line = false) :
    lineKind line = textKind line := by
  apply lineKind_eq_textKind_of_enough
  · exact enoughCompared_of_not_blank h _
  · exact enoughCompared_of_not_blank h _
  · exact enoughCompared_of_not_blank h _

theorem keptAlike_of_sameKinds {lines : List Bytes} (tail : Bytes)
    (hkind : ∀ line ∈ lines, lineKind line = textKind line) (hstop : StopsSafely lines) :
    KeptAlike textKind lineKind tail lines := by
  induction lines with
  | nil => exact absurd hstop id
  | cons line lines ih =>
    have ih := ih (fun l hl => hkind l (List.mem_cons_of_mem _ hl))
    unfold StopsSafely at hstop
    unfold KeptAlike
    rw [hkind line List.mem_cons_self] at hstop ⊢
    cases hk : textKind line with
    | bitrate =>
      rw [hk] at hstop
      exact ih hstop.2
    | media => trivial
    | manifest => trivial
    | other =>
      rw [hk] at hstop
      exact ih hstop

theorem ratesBy_of_sameKinds {lines : List Bytes} (tail : Bytes)
    (hkind : ∀ line ∈ lines, lineKind line = textKind line) (hstop : StopsSafely lines) :
    ratesBy textKind (lines ++ [tail]) = ratesBy lineKind lines := by
  induction lines with
  | nil => exact absurd hstop id
  | cons line lines ih =>
    have ih := ih (fun l hl => hkind l (List.mem_cons_of_mem _ hl))
    unfold StopsSafely at hstop
    rw [List.cons_append]
    unfold ratesBy
    rw [hkind line List.mem_cons_self] at hstop ⊢
    cases hk : textKind line with
    | bitrate =>
      rw [hk] at hstop
      exact congrArg _ (ih hstop.2)
    | media =>
      rw [hk] at hstop
      exact ih hstop
    | manifest => rfl
    | other =>
      rw [hk] at hstop
      exact ih hstop

/-- **Without indentation** only the room matters: a manifest none of whose lines begins with a blank
is kept as it is meant to be. -/
theorem passesAsMeant_notIndented {m : ManifestResponse} (slots : List Int)
    (hflat : ∀ line ∈ m.lines, startsBlank line = false) (hstop : StopsSafely m.lines)
    (hrates : (-1 : Int) ∉ ratesBy lineKind m.lines) (hbody : m.intendedBody.length < BODY_LENGTH)
    (hfits : m.newHeader.length + 2 + m.intendedBody.length ≤ m.response.bytes.length) :
    PassesAsMeant m slots := by
  have hkind : ∀ line ∈ m.lines, lineKind line = textKind line :=
    fun line hline => lineKind_eq_textKind (hflat line hline)
  have hfilter : (ratesBy lineKind m.lines).filter (fun rate => decide (rate ≠ -1)) =
      ratesBy lineKind m.lines := by
    rw [List.filter_eq_self]
    intro rate hrate
    rw [decide_eq_true_iff]
    rintro rfl
    exact hrates hrate
  refine ⟨hstop, keptAlike_of_sameKinds m.tail hkind hstop, fun k _ => ?_, hbody, hfits⟩
  rw [hfilter, ratesBy_of_sameKinds m.tail hkind hstop]

/-! ## A line that is indented -/

/-- A manifest with a line behind seven blanks. -/
def deepManifest : ManifestResponse where
  response := { cutManifest with body := ascii "       <id/>\n</manifest>\n\r" }
  typeLast := rfl
  lines := [ascii "       <id/>\n", ascii "</manifest>\n"]
  tail := ascii "\r"
  body_eq := by decide
  isLine := by
    rw [List.forall_mem_cons, List.forall_mem_singleton]
    exact ⟨⟨⟨ascii "       <id/>", by decide, by decide⟩, by decide⟩,
      ⟨⟨ascii "</manifest>", by decide, by decide⟩, by decide⟩⟩
  tail_noNewline := by decide
  tail_fits := by decide
  ends := ⟨ascii "</manifest>\n", by simp, by decide⟩

/-- **A lost line**: behind seven blanks, every line passes for a bitrate line. -/
theorem manifest_deepLine : ¬ ∀ m slots, ManifestKept m slots := by
  intro h
  obtain ⟨hbody, -⟩ := h deepManifest []
  have hrun : bodyLoop (deepManifest.response.bytes.drop (deepManifest.response.total + 1)) false []
      [] = .ok (10 :: ascii "</manifest>", []) := by decide +kernel
  rw [hrun, Except.ok.injEq, Prod.mk.injEq] at hbody
  exact absurd hbody.1 (by decide)

end VideoCdn
