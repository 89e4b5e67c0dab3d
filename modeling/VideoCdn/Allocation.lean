import VideoCdn.ContentLength

/-!
# The block for a response (`handle_server_recv` of `src/handle.c`)

The size of the block is the length that the server announces and the length of the header, added as
`int`s.  Nothing is checked on the way.

* `Allocation`, `allocate` — the three numbers that the code computes.
* `NumberText` — the text that it converts.
* `AllocatesSafely` — no number overflows, none is negative, and the block has room for what is stored.
* `allocatesSafely_iff` — **when that is so**: the number is not negative, and fits in an `int` with
  the header.
* `handleServerRecv_allocates` — a call that returns has computed a block with room.
* `allocate_negative` — a header that announces a negative length.
-/

set_option autoImplicit false

namespace VideoCdn

open CLib

/-! ## The numbers -/

/-- The value of an `int` expression; overflow is undefined. -/
def toInt (v : Int) : Checked Int := do
  inBounds (-2147483648 ≤ v ∧ v < 2147483648)
  return v

/-- The conversion of an `int` to a `size_t`. -/
def toSize (v : Int) : Nat := (v % 18446744073709551616).toNat

/-- The numbers of `handle_server_recv`: `next_read`, the argument of both `malloc`s, and `total_read`
at the end. -/
structure Allocation where
  nextRead : Int
  size : Int
  totalRead : Int
  deriving DecidableEq

/-- They are computed from the header. -/
def allocate (header : Bytes) : Checked Allocation := do
  let nextRead ← getResponseContentLength (readBuffer header)
  let size ← toInt (nextRead + header.length)
  let totalRead ← toInt (header.length + nextRead)
  return ⟨nextRead, size, totalRead⟩

/-- What is stored in the block: `memcpy` copies the header, and `recv` stores `next_read` bytes
behind it. -/
structure Allocation.Holds (a : Allocation) (header : Nat) : Prop where
  nextRead_nonneg : 0 ≤ a.nextRead
  size_nonneg : 0 ≤ a.size
  totalRead_nonneg : 0 ≤ a.totalRead
  totalRead_le : a.totalRead ≤ toSize a.size
  copied : header ≤ toSize a.size
  received : header + toSize a.nextRead ≤ toSize a.size

/-- The text from column 16 to the carriage return of the first line that passes for the field. -/
def NumberText (header number : Bytes) : Prop :=
  ∃ line tail, (readLines (readBuffer header)).1.find? isLengthLine = some line ∧
    line.drop 16 = number ++ 13 :: tail ∧ (13 : UInt8) ∉ number

/-- The numbers are computed without an overflow, also the one that `atoi` makes of the text, and the
block has room. -/
def AllocatesSafely (header : Bytes) : Prop :=
  ∃ number a, NumberText header number ∧ allocate header = .ok a ∧
    a.nextRead = numeral number ∧ a.Holds header.length

/-! ## When the block has room -/

theorem toSize_nonneg {v : Int} (h : 0 ≤ v) (hlt : v < 2147483648) : toSize v = v.toNat := by
  unfold toSize
  omega

theorem toInt_eq_ok {v w : Int} : toInt v = .ok w ↔ (-2147483648 ≤ v ∧ v < 2147483648) ∧ v = w := by
  unfold toInt
  rw [inBounds_bind_eq_ok, pure_eq_ok, Except.ok.injEq]

/-- **The numbers**, from the one in the header. -/
theorem allocate_eq_ok {header : Bytes} {a : Allocation} :
    allocate header = .ok a ↔ ∃ v, getResponseContentLength (readBuffer header) = .ok v ∧
      (-2147483648 ≤ v + header.length ∧ v + header.length < 2147483648) ∧
        a = ⟨v, v + header.length, v + header.length⟩ := by
  unfold allocate
  simp only [bind_eq_ok, toInt_eq_ok, pure_eq_ok, Except.ok.injEq]
  constructor
  · rintro ⟨v, hv, size, ⟨hrange, rfl⟩, total, ⟨-, rfl⟩, rfl⟩
    refine ⟨v, hv, hrange, ?_⟩
    rw [Int.add_comm (header.length : Int) v]
  · rintro ⟨v, hv, hrange, rfl⟩
    refine ⟨v, hv, _, ⟨hrange, rfl⟩, _, ⟨?_, rfl⟩, ?_⟩
    · rwa [Int.add_comm (header.length : Int) v]
    · rw [Int.add_comm (header.length : Int) v]

/-- The block has room for the header and a body of `v` bytes. -/
theorem holds_iff {v : Int} {header : Nat} (hfits : v + header < 2147483648) :
    (Allocation.mk v (v + header) (v + header)).Holds header ↔ 0 ≤ v := by
  constructor
  · intro h
    exact h.nextRead_nonneg
  · intro hv
    have hvsize : toSize v = v.toNat := toSize_nonneg hv (by omega)
    have hsize : toSize (v + header) = (v + header).toNat := toSize_nonneg (by omega) hfits
    constructor
    · exact hv
    · show 0 ≤ v + header
      omega
    · show 0 ≤ v + header
      omega
    · show v + header ≤ toSize (v + header)
      omega
    · show header ≤ toSize (v + header)
      omega
    · show header + toSize v ≤ toSize (v + header)
      omega

/-- There is one such text, and it is the one that `atoi` is given. -/
theorem NumberText.length_eq_ok {header number : Bytes} (h : NumberText header number) {v : Int} :
    getResponseContentLength (readBuffer header) = .ok v ↔ number.length < 30 ∧ atoi number = v := by
  obtain ⟨line, tail, hfind, hsplit, hno⟩ := h
  rw [getResponseContentLength_iff, ← numberRead_split hsplit hno]
  constructor
  · rintro ⟨line', hfind', hnumber⟩
    rw [hfind] at hfind'
    cases hfind'
    exact hnumber
  · intro hnumber
    exact ⟨line, hfind, hnumber⟩

theorem allocatesSafely_iff_number {header number : Bytes} (h : NumberText header number) :
    AllocatesSafely header ↔ number.length < 30 ∧ 0 ≤ numeral number ∧
      numeral number + header.length < 2147483648 := by
  constructor
  · rintro ⟨number', a, htext, halloc, hvalue, hholds⟩
    obtain ⟨v, hv, hrange, rfl⟩ := allocate_eq_ok.mp halloc
    obtain ⟨hlen, hatoi⟩ := h.length_eq_ok.mp hv
    have hsame : number' = number := by
      obtain ⟨line, tail, hfind, hsplit, hno⟩ := h
      obtain ⟨line', tail', hfind', hsplit', hno'⟩ := htext
      rw [hfind] at hfind'
      cases hfind'
      rw [← takeWhile_upToCr hno tail, ← hsplit, hsplit', takeWhile_upToCr hno' tail']
    have hpos : 0 ≤ v := hholds.nextRead_nonneg
    have hnumeral : v = numeral number := hsame ▸ hvalue
    exact ⟨hlen, hnumeral ▸ hpos, hnumeral ▸ hrange.2⟩
  · rintro ⟨hlen, hpos, hfits⟩
    have hatoi : atoi number = numeral number := atoi_eq_numeral (by omega) (by omega)
    have halloc : allocate header = .ok ⟨numeral number, numeral number + header.length,
        numeral number + header.length⟩ := by
      apply allocate_eq_ok.mpr
      exact ⟨numeral number, h.length_eq_ok.mpr ⟨hlen, hatoi⟩, ⟨by omega, hfits⟩, rfl⟩
    exact ⟨number, _, h, halloc, rfl, (holds_iff hfits).mpr hpos⟩

/-! ## Fields with a sign -/

/-- A field whose value may have a sign. -/
structure SignedField where
  blanks : Bytes
  sign : Bytes
  digits : Bytes
  blank : ∀ c ∈ blanks, c = 32 ∨ c = 9
  sign_mem : sign = [] ∨ sign = [43] ∨ sign = [45]
  digit : ∀ c ∈ digits, isDigit c = true
  ne_nil : digits ≠ []

def SignedField.line (f : SignedField) : Bytes :=
  ascii "Content-Length:" ++ (f.blanks ++ (f.sign ++ f.digits) ++ [13, 10])

def SignedField.value (f : SignedField) : Int :=
  if f.sign = [45] then -(digitsValue f.digits : Int) else digitsValue f.digits

/-- What the code converts: it skips one byte behind the colon. -/
def SignedField.number (f : SignedField) : Bytes := (f.blanks ++ (f.sign ++ f.digits)).drop 1

theorem SignedField.cr_notMem (f : SignedField) : (13 : UInt8) ∉ f.blanks ++ (f.sign ++ f.digits) := by
  simp only [List.mem_append, not_or]
  refine ⟨fun h => ?_, fun h => ?_, fun h => ?_⟩
  · exact (f.blank 13 h).elim (by decide) (by decide)
  · rcases f.sign_mem with hs | hs | hs <;> simp [hs] at h
  · exact absurd (f.digit 13 h) (by decide)

theorem SignedField.ne_nil_append (f : SignedField) : f.blanks ++ (f.sign ++ f.digits) ≠ [] := by
  simp [f.ne_nil]

theorem SignedField.numberText {block : HeaderBlock} (f : SignedField)
    (h : block.lines.find? isLengthLine = some f.line) : NumberText block.bytes f.number := by
  refine ⟨f.line, [10], ?_, ?_, ?_⟩
  · rw [block.readLines_readBuffer, List.find?_append, h]
    rfl
  · have h16 : 16 = (ascii "Content-Length:").length + 1 := rfl
    have hpos := List.length_pos_iff.mpr f.ne_nil_append
    unfold SignedField.line SignedField.number
    rw [h16, ← List.drop_drop, List.drop_left, List.drop_append_of_le_length hpos]
  · intro hmem
    exact f.cr_notMem (List.mem_of_mem_drop hmem)

theorem numeral_space_append {t s : Bytes} (ht : ∀ c ∈ t, isSpace c = true) :
    numeral (t ++ s) = numeral s := by
  unfold numeral
  rw [List.dropWhile_append_of_pos ht]

theorem numeral_digits {s : Bytes} (hs : ∀ c ∈ s, isDigit c = true) :
    numeral s = digitsValue s := by
  cases s with
  | nil => rfl
  | cons c s =>
    have hc := hs c List.mem_cons_self
    have hrange := isDigit_iff.mp hc
    unfold numeral
    rw [List.dropWhile_cons, not_isSpace_of_isDigit hc]
    simp only [Bool.false_eq_true, if_false]
    split
    · rename_i heq
      cases heq
      simp at hrange
    · rename_i heq
      cases heq
      simp at hrange
    · rfl

/-- Behind the blanks, the number is the value of the field. -/
theorem SignedField.numeral_signed (f : SignedField) : numeral (f.sign ++ f.digits) = f.value := by
  unfold SignedField.value
  rcases f.sign_mem with hs | hs | hs
  · rw [hs, List.nil_append, numeral_digits f.digit]
    rfl
  · rw [hs]
    rfl
  · rw [hs]
    rfl

/-- With a blank to skip, the code converts the value. -/
theorem SignedField.numeral_number {f : SignedField} (hblank : f.blanks ≠ []) :
    numeral f.number = f.value := by
  obtain ⟨b, bs, hb⟩ := List.exists_cons_of_ne_nil hblank
  have hspace : ∀ c ∈ bs, isSpace c = true := by
    intro c hc
    rcases f.blank c (hb ▸ List.mem_cons_of_mem b hc) with rfl | rfl
    · rfl
    · rfl
  have hnumber : f.number = bs ++ (f.sign ++ f.digits) := by
    unfold SignedField.number
    rw [hb]
    rfl
  rw [hnumber, numeral_space_append hspace, f.numeral_signed]

/-- Without one, it loses the sign or the first digit. -/
theorem SignedField.numeral_noBlank {f : SignedField} (hblank : f.blanks = []) :
    numeral f.number = digitsValue ((f.sign ++ f.digits).drop 1) := by
  have hnumber : f.number = (f.sign ++ f.digits).drop 1 := by
    unfold SignedField.number
    rw [hblank, List.nil_append]
  rw [hnumber]
  apply numeral_digits
  intro c hc
  rcases f.sign_mem with hs | hs | hs
  · rw [hs, List.nil_append] at hc
    exact f.digit c (List.mem_of_mem_drop hc)
  · rw [hs] at hc
    exact f.digit c hc
  · rw [hs] at hc
    exact f.digit c hc

/-- **The numbers are safe** exactly when a line passes for the field and the number in it, which
`tmp_number` has room for, is not negative and fits in an `int` with the header.  For a field with
blanks behind the colon, that is the value of the field; without them, the value of the digits
behind the first byte. -/
theorem allocatesSafely_iff (header : Bytes) :
    (AllocatesSafely header ↔ ∃ number, NumberText header number ∧ number.length < 30 ∧
      0 ≤ numeral number ∧ numeral number + header.length < 2147483648) ∧
    ∀ (block : HeaderBlock) (f : SignedField), header = block.bytes →
      block.lines.find? isLengthLine = some f.line →
      (f.blanks ≠ [] → (AllocatesSafely header ↔
        f.blanks.length + (f.sign ++ f.digits).length ≤ 30 ∧ 0 ≤ f.value ∧
          f.value + header.length < 2147483648)) ∧
      (f.blanks = [] → (AllocatesSafely header ↔ (f.sign ++ f.digits).length ≤ 30 ∧
        digitsValue ((f.sign ++ f.digits).drop 1) + header.length < 2147483648)) := by
  constructor
  · constructor
    · intro hsafe
      have hcopy := hsafe
      obtain ⟨number, a, htext, -⟩ := hcopy
      exact ⟨number, htext, (allocatesSafely_iff_number htext).mp hsafe⟩
    · rintro ⟨number, htext, hnumber⟩
      exact (allocatesSafely_iff_number htext).mpr hnumber
  · rintro block f rfl hfirst
    have hiff := allocatesSafely_iff_number (f.numberText hfirst)
    have hpos := List.length_pos_iff.mpr f.ne_nil_append
    have hlen : f.number.length < 30 ↔ f.blanks.length + (f.sign ++ f.digits).length ≤ 30 := by
      rw [List.length_append] at hpos
      unfold SignedField.number
      rw [List.length_drop, List.length_append]
      omega
    constructor
    · intro hblank
      rw [hiff, hlen, f.numeral_number hblank]
    · intro hblank
      rw [hiff, hlen, f.numeral_noBlank hblank, hblank, List.length_nil, Nat.zero_add]
      constructor
      · rintro ⟨hshort, -, hfits⟩
        exact ⟨hshort, by omega⟩
      · rintro ⟨hshort, hfits⟩
        exact ⟨hshort, by omega, by omega⟩

/-- A header section with one field. -/
def signedHeader (f : SignedField) (h : f.line.length < MAX_LENGTH) (hno : (10 : UInt8) ∉ f.digits) :
    HeaderBlock :=
  ⟨[f.line], by
    intro line hline
    rw [List.mem_singleton.mp hline]
    refine ⟨⟨ascii "Content-Length:" ++ (f.blanks ++ (f.sign ++ f.digits) ++ [13]), ?_, ?_⟩, h⟩
    · simp [SignedField.line]
    · have hblanks : (10 : UInt8) ∉ f.blanks := fun hmem => by simpa using f.blank 10 hmem
      have hsign : (10 : UInt8) ∉ f.sign := by
        rcases f.sign_mem with hs | hs | hs <;> simp [hs]
      simp only [List.mem_append, hblanks, hsign, hno, false_or, not_or]
      exact ⟨by decide, by decide⟩⟩

theorem blank_space : ∀ c ∈ ([32] : Bytes), c = 32 ∨ c = 9 := by simp

theorem isDigit_five : ∀ c ∈ ([53] : Bytes), isDigit c = true := by simp [isDigit]

theorem five_ne_nil : ([53] : Bytes) ≠ [] := by simp

def minusFive : SignedField :=
  ⟨[32], [45], [53], blank_space, Or.inr (Or.inr rfl), isDigit_five, five_ne_nil⟩

def plusFive : SignedField :=
  ⟨[32], [43], [53], blank_space, Or.inr (Or.inl rfl), isDigit_five, five_ne_nil⟩

/-- The length of five bytes, with a sign. -/
theorem allocatesSafely_five :
    AllocatesSafely (signedHeader plusFive (by decide) (by decide)).bytes :=
  (((allocatesSafely_iff _).2 _ plusFive rfl (by decide)).1 (by decide)).mpr
    ⟨by decide, by decide, by decide⟩

/-- **A negative length**: `next_read` is negative, and the block is smaller than the header. -/
theorem allocate_negative : ¬ ∀ header : Bytes, header.length ≤ MAX_LENGTH →
    (∃ number, NumberText header number) → AllocatesSafely header := by
  intro h
  have hfirst : (signedHeader minusFive (by decide) (by decide)).lines.find? isLengthLine =
      some minusFive.line := by decide
  have htext := minusFive.numberText hfirst
  have hsafe := h _ (by decide) ⟨_, htext⟩
  obtain ⟨-, hpos, -⟩ := (allocatesSafely_iff_number htext).mp hsafe
  exact absurd hpos (by decide)

/-! ## The code -/

/-- **A call that returns** has computed a block with room; the number may still be one that `atoi` has
cut to 32 bits. -/
theorem handleServerRecv_allocates {alpha : ℚ} {env : ServerRecv} {sid : Nat} {node : Session}
    {st st' : ProxyState} {evs : List ProxyEvent}
    (h : handleServerRecv alpha env sid node st = .ok (st', evs)) :
    ∃ header a, readHeader env.reads 0 [] = .ok header ∧ allocate header = .ok a ∧
      a.Holds header.length := by
  unfold handleServerRecv at h
  split at h
  · cases h
  · simp only [bind_eq_ok, inBounds_eq_ok, exists_const] at h
    obtain ⟨header, hread, v, hv, ⟨hpos, hfits⟩, -⟩ := h
    refine ⟨header, ⟨v, v + header.length, v + header.length⟩, hread, ?_, ?_⟩
    · exact allocate_eq_ok.mpr ⟨v, hv, ⟨by omega, hfits⟩, rfl⟩
    · exact (holds_iff hfits).mpr hpos

end VideoCdn
