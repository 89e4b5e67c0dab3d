import VideoCdn.ResponseType
import VideoCdn.ManifestRewrite

/-!
# The length of the body (`get_response_content_length` of `src/handle.c`)

The search ends at a line that passes for the field, and takes the number from column 16 on.

* `claimedLength` — the value of the field, or 0 where there is none.
* `NumberRead` — what the code takes for the number of a line.
* `returnsLength_iff` — **what is returned**: when it is the value of the field; and for a well-formed
  field, when the number begins at column 16 and fits in an `int`.
* `getResponseContentLength_none` — without the field the search goes on past the array.
* `length_overrun` — such a header.
-/

set_option autoImplicit false

namespace VideoCdn

open CLib

def isLengthLine (line : Bytes) : Bool := startWith line (ascii "Content-Length:")

/-! ## The value of the field -/

/-- The value behind the colon and any number of blanks. -/
def lengthValue (line : Bytes) : Nat :=
  digitsValue ((line.drop (ascii "Content-Length:").length).dropWhile (fun c => c == 32 || c == 9))

/-- The value of the first header line that begins with the name of the field, 0 if none does. -/
def claimedLength (header : Bytes) : Nat :=
  match (getlines header).find? (ascii "Content-Length:").isPrefixOf with
  | none => 0
  | some line => lengthValue line

/-- The search, in the cleared array that the header was read into, returns that value. -/
def ReturnsLength (header : Bytes) : Prop :=
  getResponseContentLength (readBuffer header) = .ok (claimedLength header : Int)

/-! ## The value that is read -/

theorem contentLengthLoop_eq (src : Bytes) : contentLengthLoop src = (do
    let (_, line) ← scanLines isLengthLine src
    lengthNumber line) := by
  induction src using readLine_induction with
  | stuck src e h =>
    rw [scanLines_stuck h, contentLengthLoop]
    split
    · rename_i e' he
      rw [h] at he
      cases he
      rfl
    · rename_i n line he
      rw [h] at he
      cases he
  | line src n line h ih =>
    rw [scanLines_turn h, contentLengthLoop]
    split
    · rename_i e he
      rw [h] at he
      cases he
    · rename_i n' line' he
      rw [h] at he
      cases he
      have hline : startWith line (ascii "Content-Length:") = isLengthLine line := rfl
      rw [hline, ih]
      split
      · rfl
      · cases scanLines isLengthLine (src.drop n) <;> rfl

/-- The number from column 16 up to a carriage return has this value; `tmp_number` has room for 29
bytes. -/
def NumberRead (line : Bytes) (value : Int) : Prop :=
  ∃ number tail, line.drop 16 = number ++ 13 :: tail ∧ (13 : UInt8) ∉ number ∧
    number.length < 30 ∧ atoi number = value

theorem takeWhile_upToCr {number : Bytes} (h : (13 : UInt8) ∉ number) (tail : Bytes) :
    (number ++ 13 :: tail).takeWhile (· != 13) = number := by
  have hall : ∀ c ∈ number, (c != 13) = true := by
    intro c hc
    rw [bne_iff_ne]
    rintro rfl
    exact h hc
  rw [List.takeWhile_append_of_pos hall]
  simp

theorem lengthNumber_eq_ok {line : Bytes} {value : Int} :
    lengthNumber line = .ok value ↔ NumberRead line value := by
  unfold lengthNumber
  rw [inBounds_bind_eq_ok, pure_eq_ok, Except.ok.injEq]
  constructor
  · rintro ⟨⟨hmem, hlen⟩, hvalue⟩
    obtain ⟨number, tail, hsplit, hno⟩ := List.eq_append_cons_of_mem hmem
    rw [hsplit, takeWhile_upToCr hno] at hlen hvalue
    exact ⟨number, tail, hsplit, hno, hlen, hvalue⟩
  · rintro ⟨number, tail, hsplit, hno, hlen, hvalue⟩
    rw [hsplit, takeWhile_upToCr hno]
    exact ⟨⟨by simp, hlen⟩, hvalue⟩

/-- There is one such number. -/
theorem numberRead_split {line number tail : Bytes} {value : Int}
    (hsplit : line.drop 16 = number ++ 13 :: tail) (hno : (13 : UInt8) ∉ number) :
    NumberRead line value ↔ number.length < 30 ∧ atoi number = value := by
  rw [← lengthNumber_eq_ok]
  unfold lengthNumber
  rw [hsplit, takeWhile_upToCr hno, inBounds_bind_eq_ok, pure_eq_ok, Except.ok.injEq]
  simp

/-- **What is returned**: the number of the first line that passes for the field. -/
theorem getResponseContentLength_iff {buffer : Bytes} {value : Int} :
    getResponseContentLength buffer = .ok value ↔
      ∃ line, (readLines buffer).1.find? isLengthLine = some line ∧ NumberRead line value := by
  unfold getResponseContentLength
  rw [contentLengthLoop_eq]
  simp only [bind_eq_ok, Prod.exists, lengthNumber_eq_ok, ← scanLines_iff]
  constructor
  · rintro ⟨n, line, hscan, hnumber⟩
    exact ⟨line, ⟨n, hscan⟩, hnumber⟩
  · rintro ⟨line, ⟨n, hscan⟩, hnumber⟩
    exact ⟨n, line, hscan, hnumber⟩

/-! ## Whole header sections -/

/-- The array has no line behind a whole header section. -/
theorem HeaderBlock.readLines_readBuffer (header : HeaderBlock) :
    (readLines (readBuffer header.bytes)).1 = header.lines ++ [[13, 10]] := by
  have hzeros : readLine MAX_LENGTH (List.replicate (MAX_LENGTH - header.bytes.length) 0) =
      .error .outOfBounds := by
    refine readLine_noNewline (fun h => ?_) ?_
    · exact absurd (List.eq_of_mem_replicate h) (by decide)
    · have hpos : 0 < header.bytes.length := by simp [bytes]
      rw [List.length_replicate]
      unfold MAX_LENGTH
      omega
  unfold readBuffer
  rw [header.readLines_append, readLines_stuck hzeros]

/-- **Without the field** the search does not end in the array. -/
theorem getResponseContentLength_none {header : HeaderBlock}
    (h : header.lines.find? isLengthLine = none) :
    getResponseContentLength (readBuffer header.bytes) = .error .outOfBounds := by
  have hblank : isLengthLine [13, 10] = false := by decide
  have hfind : (readLines (readBuffer header.bytes)).1.find? isLengthLine = none := by
    rw [header.readLines_readBuffer, List.find?_append, h]
    simp [hblank]
  unfold getResponseContentLength
  rw [contentLengthLoop_eq, scanLines_eq_error hfind]
  rfl

theorem getlines_lines {lines : List Bytes} (h : ∀ line ∈ lines, IsLine line) :
    getlines lines.flatten = lines := by
  induction lines with
  | nil => rfl
  | cons line lines ih =>
    obtain ⟨text, rfl, hno⟩ := (h line List.mem_cons_self).newline
    have hcons : ((text ++ [10]) :: lines).flatten = text ++ 10 :: lines.flatten := by simp
    rw [hcons, getlines_line hno, ih (fun l hl => h l (List.mem_cons_of_mem _ hl))]

/-- A well-formed field: its name, blanks and digits. -/
structure LengthField where
  blanks : Bytes
  digits : Bytes
  blank : ∀ c ∈ blanks, c = 32 ∨ c = 9
  digit : ∀ c ∈ digits, isDigit c = true
  ne_nil : digits ≠ []

def LengthField.line (f : LengthField) : Bytes :=
  ascii "Content-Length:" ++ (f.blanks ++ (f.digits ++ [13, 10]))

/-- The number begins at column 16, and `tmp_number` and an `int` have room for it; without blanks its
first digit is lost. -/
structure LengthField.Fits (f : LengthField) : Prop where
  small : digitsValue f.digits < 2147483648
  short : f.blanks.length + f.digits.length ≤ 30
  first : f.blanks = [] → f.digits.head? = some 48

theorem LengthField.isPrefix (f : LengthField) : ascii "Content-Length:" <+: f.line :=
  List.prefix_append _ _

theorem LengthField.isSpace_blanks (f : LengthField) : ∀ c ∈ f.blanks, isSpace c = true := by
  intro c hc
  rcases f.blank c hc with rfl | rfl <;> decide

theorem LengthField.cr_notMem (f : LengthField) : (13 : UInt8) ∉ f.blanks ∧ (13 : UInt8) ∉ f.digits :=
  ⟨fun h => (f.blank 13 h).elim (by decide) (by decide),
    fun h => absurd (f.digit 13 h) (by decide)⟩

theorem lengthValue_line (f : LengthField) : lengthValue f.line = digitsValue f.digits := by
  have hblank : ∀ c ∈ f.blanks, (c == 32 || c == 9) = true := by
    intro c hc
    simpa using f.blank c hc
  have hdrop : (f.digits ++ [13, 10]).dropWhile (fun c => c == 32 || c == 9) =
      f.digits ++ [13, 10] := by
    obtain ⟨d, ds, hd⟩ := List.exists_cons_of_ne_nil f.ne_nil
    have hdigit := f.digit d (hd ▸ List.mem_cons_self)
    have hnot : (d == 32 || d == 9) = false := by
      rw [Bool.or_eq_false_iff, beq_eq_false_iff_ne, beq_eq_false_iff_ne]
      constructor
      · rintro rfl
        exact absurd hdigit (by decide)
      · rintro rfl
        exact absurd hdigit (by decide)
    rw [hd, List.cons_append, List.dropWhile_cons, hnot]
    rfl
  unfold lengthValue LengthField.line
  rw [List.drop_left, List.dropWhile_append_of_pos hblank, hdrop,
    digitsValue_append_of_not_digit (by simp [isDigit])]

/-- Behind the colon, the code skips one byte. -/
theorem LengthField.line_drop (f : LengthField) :
    f.line.drop 16 = (f.blanks ++ (f.digits ++ [13, 10])).drop 1 := by
  have h16 : 16 = (ascii "Content-Length:").length + 1 := rfl
  unfold line
  rw [h16, ← List.drop_drop, List.drop_left]

/-- With a blank to skip, the number is the one that is meant. -/
theorem numberRead_blank {f : LengthField} {b : UInt8} {bs : Bytes} (hb : f.blanks = b :: bs)
    (value : Int) : NumberRead f.line value ↔
      bs.length + f.digits.length < 30 ∧ atoi f.digits = value := by
  obtain ⟨hblanks, hdigits⟩ := f.cr_notMem
  rw [hb] at hblanks
  have hno : (13 : UInt8) ∉ bs ++ f.digits := by
    rw [List.mem_append, not_or]
    exact ⟨fun h => hblanks (List.mem_cons_of_mem _ h), hdigits⟩
  have hsplit : f.line.drop 16 = (bs ++ f.digits) ++ 13 :: [10] := by
    rw [f.line_drop, hb, List.append_assoc]
    rfl
  have hspace : ∀ c ∈ bs, isSpace c = true :=
    fun c hc => f.isSpace_blanks c (hb ▸ List.mem_cons_of_mem _ hc)
  rw [numberRead_split hsplit hno, atoi_space_append hspace, List.length_append]

/-- Without one, its first digit is lost. -/
theorem numberRead_noBlank {f : LengthField} {d : UInt8} {ds : Bytes} (hb : f.blanks = [])
    (hd : f.digits = d :: ds) (value : Int) : NumberRead f.line value ↔
      ds.length < 30 ∧ atoi ds = value := by
  have hdigits := f.cr_notMem.2
  rw [hd] at hdigits
  have hsplit : f.line.drop 16 = ds ++ 13 :: [10] := by
    rw [f.line_drop, hb, hd]
    rfl
  exact numberRead_split hsplit (fun h => hdigits (List.mem_cons_of_mem _ h))

/-- Digits are read as the number that they have with another digit in front of them exactly when that
is a zero, and the number fits in an `int`. -/
theorem atoi_eq_digitsValue_cons {d : UInt8} {ds : Bytes} (hd : isDigit d = true)
    (hds : ∀ c ∈ ds, isDigit c = true) :
    atoi ds = digitsValue (d :: ds) ↔ d = 48 ∧ digitsValue (d :: ds) < 2147483648 := by
  have hvalue := digitsValue_cons hd hds
  have hzero : d = 48 ↔ d.toNat - 48 = 0 := by
    have hrange := isDigit_iff.mp hd
    have h48 : (48 : UInt8).toNat = 48 := rfl
    rw [← UInt8.toNat_inj, h48]
    omega
  constructor
  · intro hatoi
    have hle := atoi_digits_le hds
    have hmul : (d.toNat - 48) * 10 ^ ds.length = 0 := by omega
    have hfirst : d.toNat - 48 = 0 :=
      (Nat.mul_eq_zero.mp hmul).resolve_right (Nat.ne_of_gt (Nat.pow_pos (by decide)))
    rw [hmul, Nat.zero_add] at hvalue
    rw [hvalue] at hatoi ⊢
    exact ⟨hzero.mpr hfirst, (atoi_digits_iff hds).mp hatoi⟩
  · rintro ⟨hfirst, hsmall⟩
    rw [hzero.mp hfirst, Nat.zero_mul, Nat.zero_add] at hvalue
    rw [hvalue] at hsmall ⊢
    exact (atoi_digits_iff hds).mpr hsmall

theorem numberRead_line_iff (f : LengthField) :
    NumberRead f.line (digitsValue f.digits : Int) ↔ f.Fits := by
  cases hb : f.blanks with
  | cons b bs =>
    rw [numberRead_blank hb, atoi_digits_iff f.digit]
    constructor
    · rintro ⟨hlen, hsmall⟩
      exact ⟨hsmall, by rw [hb, List.length_cons]; omega, fun hnil => by rw [hb] at hnil; cases hnil⟩
    · rintro ⟨hsmall, hshort, -⟩
      rw [hb, List.length_cons] at hshort
      exact ⟨by omega, hsmall⟩
  | nil =>
    obtain ⟨d, ds, hd⟩ := List.exists_cons_of_ne_nil f.ne_nil
    have hdigit := f.digit
    rw [hd, List.forall_mem_cons] at hdigit
    rw [numberRead_noBlank hb hd, hd, atoi_eq_digitsValue_cons hdigit.1 hdigit.2]
    constructor
    · rintro ⟨hlen, rfl, hsmall⟩
      refine ⟨by rwa [hd], ?_, fun _ => by rw [hd]; rfl⟩
      rw [hb, hd, List.length_nil, List.length_cons]
      omega
    · rintro ⟨hsmall, hshort, hfirst⟩
      have hfirst := hfirst hb
      rw [hd, List.head?_cons, Option.some.injEq] at hfirst
      rw [hb, hd, List.length_nil, List.length_cons] at hshort
      rw [hd] at hsmall
      exact ⟨by omega, hfirst, hsmall⟩

/-- The first line with the name of the field, where the first line that passes for it has the name. -/
theorem claimedLength_line {block : HeaderBlock} (f : LengthField)
    (h : block.lines.find? isLengthLine = some f.line) :
    claimedLength block.bytes = digitsValue f.digits := by
  obtain ⟨-, front, back, hsplit, hfront⟩ := List.find?_eq_some_iff_append.mp h
  have hfind : block.allLines.find? (ascii "Content-Length:").isPrefixOf = some f.line := by
    rw [HeaderBlock.allLines, List.find?_append, List.find?_eq_some_iff_append.mpr ⟨?_, front, back, hsplit, ?_⟩]
    · rfl
    · exact List.isPrefixOf_iff_prefix.mpr f.isPrefix
    · intro line hline
      have hno := hfront line hline
      simp only [Bool.not_eq_true', isLengthLine] at hno ⊢
      rw [← Bool.not_eq_true, List.isPrefixOf_iff_prefix]
      intro hpre
      have hpass := startWith_of_prefix hpre (by decide)
      rw [hpass] at hno
      cases hno
  unfold claimedLength
  rw [block.bytes_eq, getlines_lines block.isLine_allLines, hfind]
  exact lengthValue_line f

/-- **What is returned** is the value of the field exactly when the first line that passes for it has
that value from column 16 on.  In a header section whose first such line is well-formed, this says
that there is a blank or a leading zero, and that the number fits. -/
theorem returnsLength_iff (header : Bytes) :
    (ReturnsLength header ↔ ∃ line,
      (readLines (readBuffer header)).1.find? isLengthLine = some line ∧
        NumberRead line (claimedLength header)) ∧
    ∀ (block : HeaderBlock) (f : LengthField), header = block.bytes →
      block.lines.find? isLengthLine = some f.line → (ReturnsLength header ↔ f.Fits) := by
  refine ⟨getResponseContentLength_iff, ?_⟩
  rintro block f rfl hfirst
  have hfind : (readLines (readBuffer block.bytes)).1.find? isLengthLine = some f.line := by
    rw [block.readLines_readBuffer, List.find?_append, hfirst]
    rfl
  unfold ReturnsLength
  rw [getResponseContentLength_iff, hfind, claimedLength_line f hfirst, ← numberRead_line_iff]
  simp

/-- A header section of one field. -/
def fieldHeader (f : LengthField) (h : f.line.length < MAX_LENGTH) : HeaderBlock :=
  ⟨[f.line], by
    intro line hline
    obtain ⟨hblanks, hdigits⟩ : (10 : UInt8) ∉ f.blanks ∧ (10 : UInt8) ∉ f.digits :=
      ⟨fun h => (f.blank 10 h).elim (by decide) (by decide),
        fun h => absurd (f.digit 10 h) (by decide)⟩
    rw [List.mem_singleton.mp hline]
    refine ⟨⟨ascii "Content-Length:" ++ (f.blanks ++ (f.digits ++ [13])), ?_, ?_⟩, h⟩
    · simp [LengthField.line]
    · simp only [List.mem_append, hblanks, hdigits, false_or, not_or]
      exact ⟨by decide, by decide⟩⟩

def twoBytes : LengthField := ⟨[32], [50], by simp, by simp [isDigit], by simp⟩

/-- The length of two bytes. -/
theorem returnsLength_two : ReturnsLength (fieldHeader twoBytes (by decide)).bytes :=
  ((returnsLength_iff _).2 _ twoBytes rfl (by decide)).mpr ⟨by decide, by decide, by decide⟩

/-- **Past the array**: a header without the field. -/
theorem length_overrun : ¬ ∀ header : Bytes, header.length ≤ MAX_LENGTH → ReturnsLength header := by
  intro h
  have hreturn := h bareHeader.bytes (by decide)
  unfold ReturnsLength at hreturn
  rw [getResponseContentLength_none (by decide)] at hreturn
  cases hreturn

end VideoCdn
