import VideoCdn.Proxy

/-!
# The end of the header (`handle_server_recv` of `src/handle.c`)

The loop that reads the header looks for a blank line with four states.  A byte that fits into no
blank line takes only the third of them back to the first.

* `headerSection` — what the header is: the bytes up to the first CR LF CR LF.
* `OpenCr`, `CrLine`, `SecondCr`, `LooseEnd` — what the bytes read so far look like in each state, and
  when the loop stops.
* `StateOf`, `StateOf.step` — **the states** follow from the bytes alone.
* `readHeader_iff` — what the loop reads: up to the first loose end.
* `headerRead_iff` — it is the header exactly when no loose end comes earlier.
* `header_cut` — a header with a CR in the middle of a line is cut.
-/

set_option autoImplicit false

namespace VideoCdn

open CLib

/-- The blank line behind a header. -/
def blankLineBytes : Bytes := [13, 10, 13, 10]

/-- The bytes up to the first CR LF CR LF, or all of them. -/
def headerSection (stream : Bytes) : Bytes :=
  match strstr blankLineBytes stream with
  | none => stream
  | some k => stream.take (k + 4)

/-! ## What the states stand for -/

/-- A CR in the line that is being read. -/
def OpenCr (p : Bytes) : Prop := ∃ a x, p = a ++ 13 :: x ∧ (10 : UInt8) ∉ x

/-- The start of a line, behind a line with a CR and perhaps empty lines. -/
inductive CrLine : Bytes → Prop where
  | line (p : Bytes) : OpenCr p → CrLine (p ++ [10])
  | empty (p : Bytes) : CrLine p → CrLine (p ++ [10])

/-- In a line that begins with a CR, behind such a start. -/
def SecondCr (p : Bytes) : Prop := ∃ a x, CrLine a ∧ p = a ++ 13 :: x ∧ (10 : UInt8) ∉ x

/-- Such a line has ended. -/
def LooseEnd (p : Bytes) : Prop := ∃ a, SecondCr a ∧ p = a ++ [10]

/-- Where a byte of a text with one more byte is: at the end, or in front of it. -/
theorem snoc_eq_append_cons {p a x : Bytes} {c d : UInt8} (h : p ++ [c] = a ++ d :: x) :
    (x = [] ∧ a = p ∧ d = c) ∨ ∃ y, x = y ++ [c] ∧ p = a ++ d :: y := by
  rcases List.eq_nil_or_concat x with rfl | ⟨y, e, rfl⟩
  · obtain ⟨rfl, hc⟩ := List.append_inj' h rfl
    exact Or.inl ⟨rfl, rfl, (List.singleton_inj.mp hc).symm⟩
  · have h' : p ++ [c] = (a ++ d :: y) ++ [e] := by simpa using h
    obtain ⟨rfl, hc⟩ := List.append_inj' h' rfl
    exact Or.inr ⟨y, by simp [List.singleton_inj.mp hc], rfl⟩

theorem SecondCr.openCr {p : Bytes} (h : SecondCr p) : OpenCr p := by
  obtain ⟨a, x, -, rfl, hx⟩ := h
  exact ⟨a, x, rfl, hx⟩

theorem not_openCr_lf (p : Bytes) : ¬ OpenCr (p ++ [10]) := by
  rintro ⟨a, x, heq, hx⟩
  rcases snoc_eq_append_cons heq with ⟨-, -, h⟩ | ⟨y, rfl, -⟩
  · exact absurd h (by decide)
  · simp at hx

theorem CrLine.not_openCr {p : Bytes} (h : CrLine p) : ¬ OpenCr p := by
  cases h with
  | line p _ => exact not_openCr_lf p
  | empty p _ => exact not_openCr_lf p

section snoc
variable {p : Bytes} {c : UInt8}

theorem openCr_cr (p : Bytes) : OpenCr (p ++ [13]) := ⟨p, [], rfl, List.not_mem_nil⟩

theorem openCr_snoc (h13 : c ≠ 13) (h10 : c ≠ 10) : OpenCr (p ++ [c]) ↔ OpenCr p := by
  constructor
  · rintro ⟨a, x, heq, hx⟩
    rcases snoc_eq_append_cons heq with ⟨-, -, h⟩ | ⟨y, rfl, rfl⟩
    · exact absurd h.symm h13
    · exact ⟨a, y, rfl, fun hmem => hx (List.mem_append_left _ hmem)⟩
  · rintro ⟨a, x, rfl, hx⟩
    exact ⟨a, x ++ [c], by simp, by simpa [hx] using h10.symm⟩

theorem crLine_lf : CrLine (p ++ [10]) ↔ OpenCr p ∨ CrLine p := by
  constructor
  · intro h
    generalize hq : p ++ [10] = q at h
    cases h with
    | line p' h =>
      obtain ⟨rfl, -⟩ := List.append_inj' hq rfl
      exact Or.inl h
    | empty p' h =>
      obtain ⟨rfl, -⟩ := List.append_inj' hq rfl
      exact Or.inr h
  · rintro (h | h)
    · exact .line p h
    · exact .empty p h

theorem not_crLine_snoc (h10 : c ≠ 10) : ¬ CrLine (p ++ [c]) := by
  intro h
  generalize hq : p ++ [c] = q at h
  cases h with
  | line p' _ => exact h10 (List.singleton_inj.mp (List.append_inj_right' hq rfl))
  | empty p' _ => exact h10 (List.singleton_inj.mp (List.append_inj_right' hq rfl))

theorem secondCr_snoc (h10 : c ≠ 10) :
    SecondCr (p ++ [c]) ↔ (c = 13 ∧ CrLine p) ∨ SecondCr p := by
  constructor
  · rintro ⟨a, x, ha, heq, hx⟩
    rcases snoc_eq_append_cons heq with ⟨-, rfl, h⟩ | ⟨y, rfl, rfl⟩
    · exact Or.inl ⟨h.symm, ha⟩
    · exact Or.inr ⟨a, y, ha, rfl, fun hmem => hx (List.mem_append_left _ hmem)⟩
  · rintro (⟨rfl, h⟩ | ⟨a, x, ha, rfl, hx⟩)
    · exact ⟨p, [], h, rfl, List.not_mem_nil⟩
    · exact ⟨a, x ++ [c], ha, by simp, by simpa [hx] using h10.symm⟩

theorem looseEnd_snoc : LooseEnd (p ++ [c]) ↔ SecondCr p ∧ c = 10 := by
  constructor
  · rintro ⟨a, ha, heq⟩
    obtain ⟨rfl, hc⟩ := List.append_inj' heq rfl
    exact ⟨ha, List.singleton_inj.mp hc⟩
  · rintro ⟨h, rfl⟩
    exact ⟨p, h, rfl⟩

end snoc

/-- The state that the loop is in behind the bytes `p`. -/
def StateOf (p : Bytes) (state : Nat) : Prop :=
  (state = 0 ∧ ¬ OpenCr p ∧ ¬ CrLine p) ∨ (state = 1 ∧ OpenCr p ∧ ¬ SecondCr p) ∨
    (state = 2 ∧ CrLine p) ∨ (state = 3 ∧ SecondCr p)

theorem StateOf.nil : StateOf [] 0 := by
  refine Or.inl ⟨rfl, ?_, ?_⟩
  · rintro ⟨a, x, heq, -⟩
    simp at heq
  · intro h
    generalize hq : ([] : Bytes) = q at h
    cases h <;> simp at hq

/-- In the last state, and in no other, the loop is in a line that begins with a second CR. -/
theorem StateOf.eq_three_iff {p : Bytes} {state : Nat} (h : StateOf p state) :
    state = 3 ↔ SecondCr p := by
  rcases h with ⟨rfl, hopen, -⟩ | ⟨rfl, -, hno⟩ | ⟨rfl, hline⟩ | ⟨rfl, hsecond⟩
  · exact iff_of_false (by decide) (fun h => hopen h.openCr)
  · exact iff_of_false (by decide) hno
  · exact iff_of_false (by decide) (fun h => hline.not_openCr h.openCr)
  · exact iff_of_true rfl hsecond

/-- **One byte** on which the loop does not stop. -/
theorem StateOf.step {p : Bytes} {state : Nat} (h : StateOf p state) {ch : UInt8}
    (hgo : ¬ (ch = 10 ∧ state = 3)) : StateOf (p ++ [ch]) (blankLineStep state ch) := by
  by_cases h13 : ch = 13
  · subst h13
    have hopen := openCr_cr p
    have hsecond : SecondCr (p ++ [13]) ↔ CrLine p ∨ SecondCr p := by
      rw [secondCr_snoc (by decide)]
      simp
    rcases h with ⟨rfl, ho, hl⟩ | ⟨rfl, ho, hs⟩ | ⟨rfl, hl⟩ | ⟨rfl, hs⟩
    · exact Or.inr (Or.inl ⟨rfl, hopen, fun h => (hsecond.mp h).elim hl (fun h => ho h.openCr)⟩)
    · exact Or.inr (Or.inl ⟨rfl, hopen,
        fun h => (hsecond.mp h).elim (fun h => h.not_openCr ho) hs⟩)
    · exact Or.inr (Or.inr (Or.inr ⟨rfl, hsecond.mpr (Or.inl hl)⟩))
    · exact Or.inr (Or.inr (Or.inr ⟨rfl, hsecond.mpr (Or.inr hs)⟩))
  by_cases h10 : ch = 10
  · subst h10
    have hno := not_openCr_lf p
    rcases h with ⟨rfl, ho, hl⟩ | ⟨rfl, ho, -⟩ | ⟨rfl, hl⟩ | ⟨rfl, hs⟩
    · exact Or.inl ⟨rfl, hno, fun h => (crLine_lf.mp h).elim ho hl⟩
    · exact Or.inr (Or.inr (Or.inl ⟨rfl, crLine_lf.mpr (Or.inl ho)⟩))
    · exact Or.inr (Or.inr (Or.inl ⟨rfl, crLine_lf.mpr (Or.inr hl)⟩))
    · exact absurd ⟨rfl, rfl⟩ hgo
  · have hopen := openCr_snoc (p := p) h13 h10
    have hline := not_crLine_snoc (p := p) h10
    have hsecond : SecondCr (p ++ [ch]) ↔ SecondCr p := by
      rw [secondCr_snoc h10]
      simp [h13]
    unfold blankLineStep
    rw [if_neg h13, if_neg h10]
    rcases h with ⟨rfl, ho, -⟩ | ⟨rfl, ho, hs⟩ | ⟨rfl, hl⟩ | ⟨rfl, hs⟩
    · exact Or.inl ⟨rfl, fun h => ho (hopen.mp h), hline⟩
    · exact Or.inr (Or.inl ⟨rfl, hopen.mpr ho, fun h => hs (hsecond.mp h)⟩)
    · exact Or.inl ⟨rfl, fun h => hl.not_openCr (hopen.mp h), hline⟩
    · exact Or.inr (Or.inr (Or.inr ⟨rfl, hsecond.mpr hs⟩))

/-! ## Where the loop stops -/

/-- `b` is the stream up to its first loose end, or all of it. -/
structure EndsAt (stream b : Bytes) : Prop where
  isPrefix : b <+: stream
  ended : b = stream ∨ LooseEnd b
  first : ∀ p, p <+: b → p ≠ b → ¬ LooseEnd p

/-- Nothing has ended in the bytes `p`. -/
def NoLooseEnd (p : Bytes) : Prop := ∀ q, q <+: p → ¬ LooseEnd q

theorem NoLooseEnd.snoc {p : Bytes} (h : NoLooseEnd p) {state : Nat} (hs : StateOf p state)
    {ch : UInt8} (hgo : ¬ (ch = 10 ∧ state = 3)) : NoLooseEnd (p ++ [ch]) := by
  intro q hq hloose
  rcases List.prefix_concat_iff.mp hq with rfl | hq
  · obtain ⟨hsecond, hch⟩ := looseEnd_snoc.mp hloose
    exact hgo ⟨hch, hs.eq_three_iff.mpr hsecond⟩
  · exact h q hq hloose

/-- The end comes behind the bytes in which there is none. -/
theorem EndsAt.length_lt {p rest b : Bytes} {ch : UInt8} (h : EndsAt (p ++ ch :: rest) b)
    (hno : NoLooseEnd p) : p.length < b.length := by
  by_contra hle
  have hpre : b <+: p :=
    List.prefix_of_prefix_length_le h.isPrefix (List.prefix_append p _) (not_lt.mp hle)
  rcases h.ended with heq | hloose
  · have := hpre.length_le
    rw [heq] at this
    simp at this
  · exact hno b hpre hloose

/-- A loose end directly behind such bytes is the end. -/
theorem endsAt_iff_of_looseEnd {p rest b : Bytes} {ch : UInt8} (hno : NoLooseEnd p)
    (hloose : LooseEnd (p ++ [ch])) : EndsAt (p ++ ch :: rest) b ↔ b = p ++ [ch] := by
  have hpre : p ++ [ch] <+: p ++ ch :: rest := ⟨rest, by simp⟩
  constructor
  · intro h
    have hlt := h.length_lt hno
    have hle : p ++ [ch] <+: b :=
      List.prefix_of_prefix_length_le hpre h.isPrefix (by simp; omega)
    by_contra hne
    exact h.first _ hle (fun heq => hne heq.symm) hloose
  · rintro rfl
    refine ⟨hpre, Or.inr hloose, fun q hq hne => ?_⟩
    rcases List.prefix_concat_iff.mp hq with rfl | hq
    · exact absurd rfl hne
    · exact hno q hq

theorem blankLineStep_lf (state : Nat) : blankLineStep state 10 = 3 ↔ state = 3 := by
  unfold blankLineStep
  rw [if_neg (by decide), if_pos rfl]
  split
  · omega
  · exact Iff.rfl

/-- The loop, from the bytes that it has read. -/
theorem readHeader_iff {reads buffer b : Bytes} {state : Nat} (hs : StateOf buffer state)
    (hno : NoLooseEnd buffer) (hlen : buffer.length ≤ MAX_LENGTH) :
    readHeader reads state buffer = .ok b ↔
      EndsAt (buffer ++ reads) b ∧ b.length ≤ MAX_LENGTH := by
  induction reads generalizing state buffer with
  | nil =>
    rw [readHeader, Except.ok.injEq, List.append_nil]
    constructor
    · rintro rfl
      exact ⟨⟨List.prefix_refl _, Or.inl rfl, fun p hp _ => hno p hp⟩, hlen⟩
    · rintro ⟨⟨hpre, hended, -⟩, -⟩
      rcases hended with rfl | hloose
      · rfl
      · exact absurd hloose (hno b hpre)
  | cons ch reads ih =>
    have hstop : (ch = 10 ∧ blankLineStep state ch = 3) ↔ (ch = 10 ∧ state = 3) := by
      refine and_congr_right fun h => ?_
      rw [h]
      exact blankLineStep_lf state
    rw [readHeader, inBounds_bind_eq_ok]
    dsimp only
    by_cases hend : ch = 10 ∧ state = 3
    · have hloose : LooseEnd (buffer ++ [ch]) :=
        looseEnd_snoc.mpr ⟨hs.eq_three_iff.mp hend.2, hend.1⟩
      rw [if_pos (hstop.mpr hend), endsAt_iff_of_looseEnd hno hloose, pure_eq_ok, Except.ok.injEq,
        eq_comm (a := b)]
      constructor
      · rintro ⟨hlt, rfl⟩
        exact ⟨rfl, by simp; omega⟩
      · rintro ⟨rfl, hle⟩
        simp only [List.length_append, List.length_singleton] at hle
        exact ⟨by omega, rfl⟩
    · rw [if_neg (fun h => hend (hstop.mp h))]
      have hnext : buffer.length < MAX_LENGTH → (readHeader reads (blankLineStep state ch)
          (buffer ++ [ch]) = .ok b ↔ EndsAt (buffer ++ ch :: reads) b ∧ b.length ≤ MAX_LENGTH) := by
        intro hlt
        rw [ih (hs.step hend) (hno.snoc hs hend) (by simp; omega), List.append_assoc]
        rfl
      constructor
      · rintro ⟨hlt, hrun⟩
        exact (hnext hlt).mp hrun
      · rintro ⟨hends, hle⟩
        have hlt := Nat.lt_of_lt_of_le (hends.length_lt hno) hle
        exact ⟨hlt, (hnext hlt).mpr ⟨hends, hle⟩⟩

/-! ## The header -/

/-- A blank line is a loose end. -/
theorem looseEnd_blankLine (p : Bytes) : LooseEnd (p ++ blankLineBytes) := by
  have hopen : OpenCr (p ++ [13]) := openCr_cr p
  have hline : CrLine (p ++ [13] ++ [10]) := .line _ hopen
  exact ⟨p ++ [13, 10, 13], ⟨p ++ [13] ++ [10], [], hline, by simp, List.not_mem_nil⟩, by
    simp [blankLineBytes]⟩

theorem headerSection_isPrefix (stream : Bytes) : headerSection stream <+: stream := by
  unfold headerSection
  split
  · exact List.prefix_refl stream
  · exact List.take_prefix _ stream

theorem headerSection_ended (stream : Bytes) :
    headerSection stream = stream ∨ LooseEnd (headerSection stream) := by
  unfold headerSection
  cases h : strstr blankLineBytes stream with
  | none => exact Or.inl rfl
  | some k =>
    obtain ⟨hle, ⟨rest, hrest⟩, -⟩ := strstr_spec h
    have htake : stream.take (k + 4) = stream.take k ++ blankLineBytes := by
      rw [List.take_add, ← hrest]
      rfl
    dsimp only
    rw [htake]
    exact Or.inr (looseEnd_blankLine _)

/-- **The loop reads the header** exactly when nothing in front of the blank line looks like one to
it: no line that begins with a CR comes, apart from empty lines, behind a line with a CR. -/
theorem headerRead_iff {reads : Bytes} (hfits : (headerSection reads).length ≤ MAX_LENGTH) :
    readHeader reads 0 [] = .ok (headerSection reads) ↔
      ∀ p, p <+: headerSection reads → p ≠ headerSection reads → ¬ LooseEnd p := by
  have hno : NoLooseEnd [] := by
    rintro q hq ⟨a, -, rfl⟩
    simp at hq
  rw [readHeader_iff StateOf.nil hno (Nat.zero_le _), List.nil_append]
  constructor
  · rintro ⟨hends, -⟩
    exact hends.first
  · intro hfirst
    exact ⟨⟨headerSection_isPrefix reads, headerSection_ended reads, hfirst⟩, hfits⟩

/-- In a header of one line there is no loose end in front of the blank line. -/
theorem headerRead_oneLine :
    (headerSection (ascii "A\r\n\r\nB")).length ≤ MAX_LENGTH ∧
      readHeader (ascii "A\r\n\r\nB") 0 [] = .ok (headerSection (ascii "A\r\n\r\nB")) ∧
      ∀ p, p <+: headerSection (ascii "A\r\n\r\nB") →
        p ≠ headerSection (ascii "A\r\n\r\nB") → ¬ LooseEnd p := by
  have hfits : (headerSection (ascii "A\r\n\r\nB")).length ≤ MAX_LENGTH := by decide
  have hrun : readHeader (ascii "A\r\n\r\nB") 0 [] =
      .ok (headerSection (ascii "A\r\n\r\nB")) := by decide
  exact ⟨hfits, hrun, (headerRead_iff hfits).mp hrun⟩

/-- A header with a CR in the middle of a line is cut behind that line. -/
theorem header_cut :
    ¬ ∀ reads : Bytes, (headerSection reads).length ≤ MAX_LENGTH →
      readHeader reads 0 [] = .ok (headerSection reads) := by
  intro h
  have hrun := h (ascii "A\r\n\rB\nC\r\n\r\n") (by decide)
  revert hrun
  decide

end VideoCdn
