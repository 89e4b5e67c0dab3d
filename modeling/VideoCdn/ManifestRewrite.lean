import VideoCdn.StartWith

/-!
# The rewritten manifest response

* `F4mResponse` — a `text/xml` response: its header lines in any order, one of them the length and
  one the type, and a body of lines that ends with a line starting with `</manifest>`.
* `rewrittenBody` — what the rewriting is for: the lines without the bitrate lines, up to the first
  `</media>` line, and the closing tag.  `bodyLoop_iff`: the loop writes it, and when it is defined.
* `WellRewritten` — the new response is the header with the new length, a blank line and that body.
* `wellRewritten_iff` — the exact condition: the content type comes last, no other line passes for
  the length or the type, and the body keeps the loop inside its arrays.
-/

set_option autoImplicit false

namespace VideoCdn

open CLib

/-! ## The body -/

inductive LineKind where
  | bitrate
  | media
  | manifest
  | other
  deriving DecidableEq, Repr

/-- The branch that the loop takes for a line. -/
def lineKind (line : Bytes) : LineKind :=
  if startWith line (ascii "bitrate") then .bitrate
  else if startWith line (ascii "</media>") then .media
  else if startWith line (ascii "</manifest>") then .manifest
  else .other

/-- The lines that are kept: not the bitrate lines, and none after the first `</media>`. -/
def keptLines : List Bytes → Bytes
  | [] => []
  | line :: lines =>
    match lineKind line with
    | .bitrate => keptLines lines
    | .media => line
    | .manifest => []
    | .other => line ++ keptLines lines

def rewrittenBody (lines : List Bytes) : Bytes := keptLines lines ++ ascii "</manifest>"

/-- What a bitrate line has behind its first quotation mark. -/
def quotedPart (line : Bytes) : Bytes := ((cstr line).dropWhile (· != 34)).drop 1

/-- There is a `</manifest>` line, and the bitrate lines in front of it fit in `bitrate[10]`. -/
def StopsSafely : List Bytes → Prop
  | [] => False
  | line :: lines =>
    match lineKind line with
    | .bitrate => (quotedPart line).length < 10 ∧ StopsSafely lines
    | .media => StopsSafely lines
    | .manifest => True
    | .other => StopsSafely lines

theorem advertisedRate_eq {line : Bytes} (h : IsLine line) :
    advertisedRate line = (inBounds ((quotedPart line).length < 10) >>= fun _ =>
      .ok (atoi (quotedPart line))) := by
  unfold advertisedRate lineString
  rw [inBounds_pos (Or.inl h.fits), ok_bind]
  rfl

/-- One turn of the loop on a whole line. -/
theorem bodyLoop_line {line : Bytes} (h : IsLine line) (rest : Bytes) (noWrite : Bool)
    (buffer : Bytes) (slots : List Int) : bodyLoop (line ++ rest) noWrite buffer slots =
      (match lineKind line with
      | .bitrate => do
        inBounds ((quotedPart line).length < 10)
        bodyLoop rest noWrite buffer (fillSlot (atoi (quotedPart line)) slots)
      | .media => do
        let buffer ← copyLine noWrite line.length line buffer
        bodyLoop rest true buffer slots
      | .manifest => do
        inBounds (buffer.length + (ascii "</manifest>").length ≤ BODY_LENGTH)
        return (buffer ++ ascii "</manifest>", slots)
      | .other => do
        let buffer ← copyLine noWrite line.length line buffer
        bodyLoop rest noWrite buffer slots) := by
  rw [bodyLoop_turn (readLine_line h rest), List.drop_left, advertisedRate_eq h]
  unfold lineKind
  split
  · by_cases hq : (quotedPart line).length < 10
    · rw [inBounds_pos hq, ok_bind, ok_bind]
      rfl
    · rw [inBounds_neg hq]
      rfl
  · split
    · rfl
    · split <;> rfl

/-- What `copyLine` adds. -/
def copied (noWrite : Bool) (bytes : Bytes) : Bytes := if noWrite then [] else bytes

theorem copyLine_eq_ok {noWrite : Bool} {line buffer buffer' : Bytes} (h : IsLine line) :
    copyLine noWrite line.length line buffer = .ok buffer' ↔
      buffer' = buffer ++ copied noWrite line ∧ (noWrite = false → buffer'.length ≤ BODY_LENGTH) := by
  unfold copyLine copied
  cases noWrite with
  | true => simp [eq_comm]
  | false =>
    have hfit : line.length ≤ MAX_LENGTH := Nat.le_of_lt h.fits
    simp only [Bool.false_eq_true, if_false, inBounds_bind_eq_ok, pure_eq_ok, Except.ok.injEq,
      forall_true_left]
    constructor
    · rintro ⟨⟨-, hle⟩, rfl⟩
      exact ⟨rfl, by rw [List.length_append]; exact hle⟩
    · rintro ⟨rfl, hle⟩
      rw [List.length_append] at hle
      exact ⟨⟨hfit, hle⟩, rfl⟩

/-- A line that is copied fits if what follows does: the buffer only grows. -/
theorem copyLine_bind_iff {noWrite : Bool} {line buffer buffer' tail : Bytes} (h : IsLine line)
    {next : Bytes → Checked (Bytes × List Int)} {stops : Prop}
    (hnext : (∃ slots', next (buffer ++ copied noWrite line) = .ok (buffer', slots')) ↔
      stops ∧ buffer'.length ≤ BODY_LENGTH ∧ buffer' = buffer ++ copied noWrite line ++ tail) :
    (∃ slots', (copyLine noWrite line.length line buffer >>= next) = .ok (buffer', slots')) ↔
      stops ∧ buffer'.length ≤ BODY_LENGTH ∧ buffer' = buffer ++ copied noWrite line ++ tail := by
  rw [← hnext]
  simp only [bind_eq_ok, copyLine_eq_ok h]
  constructor
  · rintro ⟨slots', b, ⟨rfl, -⟩, hrun⟩
    exact ⟨slots', hrun⟩
  · rintro ⟨slots', hrun⟩
    obtain ⟨-, hle, heq⟩ := hnext.mp ⟨slots', hrun⟩
    refine ⟨slots', _, ⟨rfl, fun _ => ?_⟩, hrun⟩
    rw [heq, List.length_append] at hle
    omega

/-- **The loop over the body**: it ends iff it stops safely with its buffer large enough, and then
it has written the kept lines and the closing tag. -/
theorem bodyLoop_iff {lines : List Bytes} (hlines : ∀ line ∈ lines, IsLine line) {tail : Bytes}
    (hno : (10 : UInt8) ∉ tail) (htail : tail.length < MAX_LENGTH) (noWrite : Bool)
    (buffer buffer' : Bytes) (slots : List Int) :
    (∃ slots', bodyLoop (lines.flatten ++ tail) noWrite buffer slots = .ok (buffer', slots')) ↔
      StopsSafely lines ∧ buffer'.length ≤ BODY_LENGTH ∧
      buffer' = buffer ++ copied noWrite (keptLines lines) ++ ascii "</manifest>" := by
  induction lines generalizing noWrite buffer slots with
  | nil =>
    rw [List.flatten_nil, List.nil_append, bodyLoop_stuck (readLine_noNewline hno htail)]
    simp [StopsSafely]
  | cons line lines ih =>
    have hline : IsLine line := hlines line List.mem_cons_self
    have ih := ih (fun l hl => hlines l (List.mem_cons_of_mem _ hl))
    rw [List.flatten_cons, List.append_assoc, bodyLoop_line hline]
    unfold StopsSafely keptLines
    cases lineKind line with
    | bitrate =>
      simp only [inBounds_bind_eq_ok, exists_and_left, ih, and_assoc]
    | media =>
      apply copyLine_bind_iff hline
      rw [ih true]
      simp [copied]
    | manifest =>
      simp only [inBounds_bind_eq_ok, pure_eq_ok, Except.ok.injEq, Prod.mk.injEq, true_and,
        exists_and_left, exists_eq', and_true]
      have hnil : copied noWrite ([] : Bytes) = [] := by cases noWrite <;> rfl
      rw [hnil, List.append_nil]
      constructor
      · rintro ⟨hle, rfl⟩
        exact ⟨by rw [List.length_append]; exact hle, rfl⟩
      · rintro ⟨hle, rfl⟩
        rw [List.length_append] at hle
        exact ⟨hle, rfl⟩
    | other =>
      have happ : copied noWrite (line ++ keptLines lines) =
          copied noWrite line ++ copied noWrite (keptLines lines) := by cases noWrite <;> rfl
      rw [happ, ← List.append_assoc, List.append_assoc _ _ (ascii "</manifest>")]
      apply copyLine_bind_iff hline
      rw [ih noWrite, List.append_assoc _ _ (ascii "</manifest>")]

theorem startWith_of_lineKind {line : Bytes} (h : lineKind line = .manifest) :
    startWith line (ascii "</manifest>") = true := by
  unfold lineKind at h
  split at h
  · cases h
  split at h
  · cases h
  split at h
  · assumption
  · cases h

/-- The rewriting never makes the body longer. -/
theorem length_rewrittenBody_le {lines : List Bytes} (h : StopsSafely lines) :
    (rewrittenBody lines).length ≤ lines.flatten.length := by
  induction lines with
  | nil => exact absurd h id
  | cons line lines ih =>
    unfold rewrittenBody at ih ⊢
    unfold StopsSafely at h
    unfold keptLines
    rw [List.flatten_cons, List.length_append, List.length_append]
    rw [List.length_append] at ih
    cases hk : lineKind line with
    | bitrate =>
      rw [hk] at h
      have := ih h.2
      dsimp only
      omega
    | media =>
      rw [hk] at h
      have := ih h
      dsimp only
      omega
    | manifest =>
      have := length_of_startWith (startWith_of_lineKind hk)
      dsimp only
      rw [List.length_nil]
      omega
    | other =>
      rw [hk] at h
      have := ih h
      dsimp only
      rw [List.length_append]
      omega

/-! ## Responses -/

inductive HeaderKind where
  | contentLength
  | contentType
  | other
  deriving DecidableEq, Repr

/-- A line of the header, the status line included, without its carriage return and line feed. -/
structure Header where
  kind : HeaderKind
  text : Bytes
  notBlank : ∃ c ∈ text.head?, c ≠ 13
  noNewline : (10 : UInt8) ∉ text
  fits : text.length + 2 < MAX_LENGTH

def Header.line (h : Header) : Bytes := h.text ++ [13, 10]

/-- The type is `text/xml`, with or without parameters. -/
def IsTextXml (line : Bytes) : Prop :=
  ∃ type, contentTypeWord line = .ok type ∧
    (type = ascii "text/xml" ∨ ascii "text/xml;" <+: type)

/-- A line of the kind it is listed as, in the response to be rewritten with a body of `length`
bytes. -/
def Header.Fits (length : Nat) (h : Header) : Prop :=
  match h.kind with
  | .contentLength => ∃ value, h.text = ascii "Content-Length: " ++ value ∧ value ≠ [] ∧
      (∀ c ∈ value, isDigit c = true) ∧ digitsValue value = length
  | .contentType => IsTextXml h.line
  | .other => ¬ ascii "Content-Length:" <+: h.line ∧ ¬ ascii "Content-Type:" <+: h.line

/-- A `text/xml` response; `tail` is what the body has behind its last newline. -/
structure F4mResponse where
  headers : List Header
  lines : List Bytes
  tail : Bytes
  header_fits : ∀ h ∈ headers, h.Fits (lines.flatten ++ tail).length
  has_length : ∃ h ∈ headers, h.kind = .contentLength
  has_type : ∃ h ∈ headers, h.kind = .contentType
  isLine : ∀ line ∈ lines, IsLine line
  tail_noNewline : (10 : UInt8) ∉ tail
  tail_fits : tail.length < MAX_LENGTH
  ends : ascii "</manifest>" <+: (if tail = [] then lines.getLastD [] else tail)

def headerBytes (headers : List Header) : Bytes := (headers.map Header.line).flatten

def F4mResponse.bytes (r : F4mResponse) : Bytes :=
  headerBytes r.headers ++ [13, 10] ++ (r.lines.flatten ++ r.tail)

/-- The line of the new response: only the length is another one. -/
def Header.rewritten (length : Nat) (h : Header) : Bytes :=
  if h.kind = .contentLength then contentLengthLine length else h.line

/-- The response that the rewriting is for. -/
def F4mResponse.rewritten (r : F4mResponse) : Bytes :=
  (r.headers.map (Header.rewritten (rewrittenBody r.lines).length)).flatten ++ [13, 10] ++
    rewrittenBody r.lines

def WellRewritten (r : F4mResponse) (slots : List Int) : Prop :=
  ∃ slots', parseF4mResponse r.bytes slots = .ok (.manifest r.rewritten, slots')

/-- The content type is the last line and the only one that starts like it; what starts like a
length is one; the header fits in `headbuffer`, and the body keeps the loop inside its arrays. -/
structure SeamFits (r : F4mResponse) : Prop where
  typeLast : ∃ front last, r.headers = front ++ [last] ∧
    (∀ h ∈ front, startWith h.line (ascii "Content-Type") = false) ∧
    contentTypeWord last.line = .ok (ascii "text/xml")
  onlyLength : ∀ h ∈ r.headers, startWith h.line (ascii "Content-Length") = true →
    h.kind = .contentLength
  headerFits : (headerBytes r.headers).length < MAX_LENGTH
  stops : StopsSafely r.lines
  bodyFits : (rewrittenBody r.lines).length < BODY_LENGTH

/-! ## Lines of the header -/

theorem Header.isLine (h : Header) : IsLine h.line := by
  refine ⟨⟨h.text ++ [13], by simp [line], ?_⟩, by simpa [line] using h.fits⟩
  simpa using h.noNewline

theorem contentTypeWord_isPrefix {line type : Bytes} (h : contentTypeWord line = .ok type) :
    ascii "Content-Type:" <+: line := by
  unfold contentTypeWord lineString at h
  rw [bind_eq_ok] at h
  obtain ⟨text, htext, h⟩ := h
  rw [inBounds_bind_eq_ok] at htext
  obtain ⟨-, htext⟩ := htext
  cases htext
  split at h
  · rename_i hpre
    exact (List.isPrefixOf_iff_prefix.mp hpre).trans (cstr_isPrefix line)
  · cases h

/-- A line has one name only. -/
theorem not_type_of_length {line : Bytes} (hlen : ascii "Content-Length" <+: line) :
    ¬ ascii "Content-Type:" <+: line := by
  intro htype
  exact absurd (List.prefix_of_prefix_length_le htype hlen (by decide)) (by decide)

theorem not_length_of_type {line type : Bytes} (h : contentTypeWord line = .ok type) :
    startWith line (ascii "Content-Length") = false := by
  have htype := contentTypeWord_isPrefix h
  refine startWith_eq_false ?_ (fun hlen => not_type_of_length hlen htype)
  obtain ⟨rest, rfl⟩ := htype
  rfl

/-- What passes for a length is one, unless it is a line of the kind `other`. -/
theorem Header.kind_of_length {n : Nat} {h : Header} (hfits : h.Fits n)
    (hlen : ascii "Content-Length:" <+: h.line) : h.kind = .contentLength := by
  unfold Fits at hfits
  cases hk : h.kind with
  | contentLength => rfl
  | contentType =>
    rw [hk] at hfits
    obtain ⟨type, htype, -⟩ := hfits
    have hshort : ascii "Content-Length" <+: h.line := List.IsPrefix.trans (by decide) hlen
    exact absurd (contentTypeWord_isPrefix htype) (not_type_of_length hshort)
  | other =>
    rw [hk] at hfits
    exact absurd hlen hfits.1

theorem Header.startWith_length {n : Nat} {h : Header} (hfits : h.Fits n)
    (hk : h.kind = .contentLength) : startWith h.line (ascii "Content-Length") = true := by
  unfold Fits at hfits
  rw [hk] at hfits
  obtain ⟨value, htext, -⟩ := hfits
  have hpre : ascii "Content-Length: " <+: h.line :=
    ⟨value ++ [13, 10], by rw [line, htext, List.append_assoc]⟩
  exact startWith_of_prefix (List.IsPrefix.trans (by decide) hpre) (by decide)

theorem Header.startWith_type {n : Nat} {h : Header} (hfits : h.Fits n)
    (hk : h.kind = .contentType) : startWith h.line (ascii "Content-Type") = true := by
  unfold Fits at hfits
  rw [hk] at hfits
  obtain ⟨type, htype, -⟩ := hfits
  exact startWith_of_prefix (List.IsPrefix.trans (by decide) (contentTypeWord_isPrefix htype))
    (by decide)

/-! ## The walk over the header -/

/-- What the loop over the header copies for a line. -/
def copiedLine (length : Nat) (line : Bytes) : Bytes :=
  if startWith line (ascii "Content-Length") then contentLengthLine length else line

def Header.copied (length : Nat) (h : Header) : Bytes :=
  if startWith h.line (ascii "Content-Length") then contentLengthLine length else h.line

theorem copyHeader_eq_ok {size n : Nat} {line out out' : Bytes} :
    copyHeader size n line out = .ok out' ↔
      n ≤ MAX_LENGTH ∧ out.length + n ≤ size ∧ out' = out ++ line := by
  unfold copyHeader
  rw [inBounds_bind_eq_ok, pure_eq_ok, Except.ok.injEq, eq_comm (a := out'), and_assoc]

/-- One turn on a line that is not the type. -/
theorem headerLoop_line {size length : Nat} {line : Bytes} (hline : IsLine line)
    (hh : startWith line (ascii "Content-Type") = false) (rest out : Bytes) :
    headerLoop size length (line ++ rest) out =
      (copyHeader size (copiedLine length line).length (copiedLine length line) out >>=
        headerLoop size length rest) := by
  rw [headerLoop_turn (readLine_line hline rest), List.drop_left, hh]
  unfold copiedLine
  split <;> rfl

/-- **The loop over the header** copies the lines up to the type, if they fit. -/
theorem headerLoop_lines {size length : Nat} {front : List Bytes} {last : Bytes}
    (hlines : ∀ line ∈ front ++ [last], IsLine line)
    (hfront : ∀ line ∈ front, startWith line (ascii "Content-Type") = false)
    (hlast : startWith last (ascii "Content-Type") = true)
    (hlastLength : startWith last (ascii "Content-Length") = false) (rest out out' : Bytes) :
    headerLoop size length ((front ++ [last]).flatten ++ rest) out = .ok out' ↔
      (∀ line ∈ front ++ [last], (copiedLine length line).length ≤ MAX_LENGTH) ∧
      out'.length ≤ size ∧ out' = out ++ ((front ++ [last]).map (copiedLine length)).flatten := by
  induction front generalizing out with
  | nil =>
    have hcopied : copiedLine length last = last := by
      unfold copiedLine
      rw [hlastLength]
      rfl
    have hlast' : IsLine last := hlines last (by simp)
    have hfit := Nat.le_of_lt hlast'.fits
    simp only [List.nil_append, List.map_cons, List.map_nil, List.flatten_cons,
      List.flatten_nil, List.append_nil, List.mem_singleton, forall_eq, hcopied]
    rw [headerLoop_turn (readLine_line hlast' rest), hlast, hlastLength]
    simp only [Bool.false_eq_true, if_false, if_true, copyHeader_eq_ok]
    constructor
    · rintro ⟨-, hle, rfl⟩
      exact ⟨hfit, by rw [List.length_append]; exact hle, rfl⟩
    · rintro ⟨-, hle, rfl⟩
      rw [List.length_append] at hle
      exact ⟨hfit, hle, rfl⟩
  | cons line front ih =>
    have ih := ih (fun l hl => hlines l (List.mem_cons_of_mem _ hl))
      (fun l hl => hfront l (List.mem_cons_of_mem _ hl))
    rw [List.cons_append, List.flatten_cons, List.append_assoc,
      headerLoop_line (hlines line List.mem_cons_self) (hfront line List.mem_cons_self), bind_eq_ok]
    simp only [copyHeader_eq_ok, ih, List.forall_mem_cons, List.map_cons, List.flatten_cons]
    constructor
    · rintro ⟨_, ⟨hfit, -, rfl⟩, hall, hle, rfl⟩
      exact ⟨⟨hfit, hall⟩, hle, by rw [List.append_assoc]⟩
    · rintro ⟨⟨hfit, hall⟩, hle, rfl⟩
      rw [← List.append_assoc] at hle ⊢
      refine ⟨_, ⟨hfit, ?_, rfl⟩, hall, hle, rfl⟩
      rw [List.length_append, List.length_append] at hle
      omega

/-! ## The parts of a response -/

theorem parseLoop_front {front : List Header}
    (hfront : ∀ h ∈ front, startWith h.line (ascii "Content-Type") = false) (buffer : Bytes)
    (slots : List Int) (rest : Bytes) (total : Nat) :
    parseLoop buffer slots (headerBytes front ++ rest) total =
      parseLoop buffer slots rest (total + (headerBytes front).length) := by
  induction front generalizing total with
  | nil => rfl
  | cons h front ih =>
    have ih := ih (fun g hg => hfront g (List.mem_cons_of_mem _ hg))
    unfold headerBytes at ih ⊢
    rw [List.map_cons, List.flatten_cons, List.append_assoc,
      parseLoop_turn (readLine_line h.isLine _), hfront h List.mem_cons_self, List.drop_left, ih,
      List.length_append, ← Nat.add_assoc]
    rfl

/-- What stands behind the first line that starts like a type. -/
def F4mResponse.behind (r : F4mResponse) (back : List Header) : Bytes :=
  headerBytes back ++ [13, 10] ++ (r.lines.flatten ++ r.tail)

theorem F4mResponse.bytes_split {r : F4mResponse} {front back : List Header} {last : Header}
    (h : r.headers = front ++ last :: back) :
    r.bytes = headerBytes (front ++ [last]) ++ r.behind back := by
  unfold bytes behind headerBytes
  rw [h]
  simp only [List.map_append, List.map_cons, List.map_nil, List.flatten_append, List.flatten_cons,
    List.flatten_nil, List.append_nil, List.append_assoc]

/-- The first line that starts like a type decides. -/
theorem parseF4mResponse_split {r : F4mResponse} {front back : List Header} {last : Header}
    (h : r.headers = front ++ last :: back)
    (hfront : ∀ h ∈ front, startWith h.line (ascii "Content-Type") = false)
    (hlast : startWith last.line (ascii "Content-Type") = true) (slots : List Int) :
    parseF4mResponse r.bytes slots = (do
      let type ← contentTypeWord last.line
      if type = ascii "video/f4f" then return (.video, slots)
      else if type = ascii "text/xml" then
        let (newBuffer, slots) ←
          writeF4mNolist r.bytes ((headerBytes (front ++ [last])).length + 1) slots
        return (.manifest newBuffer, slots)
      else return (.other, slots)) := by
  have hbytes : r.bytes = headerBytes front ++ (last.line ++ r.behind back) := by
    rw [F4mResponse.bytes_split h]
    simp [headerBytes]
  have hlen : (headerBytes (front ++ [last])).length =
      0 + (headerBytes front).length + last.line.length := by simp [headerBytes]
  unfold parseF4mResponse
  rw [hlen]
  conv_lhs =>
    arg 3
    rw [hbytes]
  rw [parseLoop_front hfront, parseLoop_turn (readLine_line last.isLine _), hlast]
  rfl

/-- The new response: the lines up to the type, a carriage return, and what the loop over the body
makes of the rest from its second byte on. -/
theorem writeF4mNolist_lines {front : List Bytes} {last behind : Bytes}
    (hlines : ∀ line ∈ front ++ [last], IsLine line)
    (hfront : ∀ line ∈ front, startWith line (ascii "Content-Type") = false)
    (hlast : startWith last (ascii "Content-Type") = true)
    (hlastLength : startWith last (ascii "Content-Length") = false) (hbehind : behind ≠ [])
    (slots slots' : List Int) (newBuffer : Bytes) :
    writeF4mNolist ((front ++ [last]).flatten ++ behind) ((front ++ [last]).flatten.length + 1)
        slots = .ok (newBuffer, slots') ↔
      (front ++ [last]).flatten.length < MAX_LENGTH ∧ ∃ body,
        bodyLoop (behind.drop 1) false [] slots = .ok (body, slots') ∧
        (∀ line ∈ front ++ [last], (copiedLine (body.length - 1) line).length ≤ MAX_LENGTH) ∧
        newBuffer = ((front ++ [last]).map (copiedLine (body.length - 1))).flatten ++ [13] ++
          body ∧
        newBuffer.length ≤ (front ++ [last]).flatten.length + behind.length ∧
        newBuffer.length + 1 ≤
          (front ++ [last]).flatten.length + behind.length + body.length := by
  have hpos := List.length_pos_of_ne_nil hbehind
  have hdrop : ((front ++ [last]).flatten ++ behind).drop ((front ++ [last]).flatten.length + 1) =
      behind.drop 1 := by
    rw [List.drop_append]
    simp
  have htake : ((front ++ [last]).flatten ++ behind).take ((front ++ [last]).flatten.length + 1) =
      (front ++ [last]).flatten ++ behind.take 1 := by
    rw [List.take_append, List.take_of_length_le (Nat.le_succ _), Nat.add_sub_cancel_left]
  unfold writeF4mNolist
  rw [inBounds_bind_eq_ok, htake, hdrop]
  unfold readBuffer
  simp only [bind_eq_ok, List.append_assoc, inBounds_eq_ok, exists_const, pure_eq_ok,
    Except.ok.injEq, Prod.mk.injEq, Prod.exists, @List.length_append _ (front ++ [last]).flatten,
    headerLoop_lines hlines hfront hlast hlastLength, List.nil_append]
  constructor
  · rintro ⟨⟨hfit, -⟩, body, _, hbody, out, ⟨hall, -, rfl⟩, ⟨htwo, hle⟩, rfl, rfl⟩
    refine ⟨by omega, body, hbody, hall, rfl, ?_⟩
    simp only [List.length_append, List.length_singleton] at htwo hle ⊢
    omega
  · rintro ⟨hfit, body, hbody, hall, rfl, hle, htwo⟩
    simp only [List.length_append, List.length_singleton] at htwo hle
    exact ⟨⟨by omega, by omega⟩, body, slots', hbody, _, ⟨hall, by omega, rfl⟩,
      ⟨by omega, by omega⟩, rfl, rfl⟩

theorem writeF4mNolist_eq_ok {r : F4mResponse} {front back : List Header} {last : Header}
    (h : r.headers = front ++ last :: back)
    (hfront : ∀ h ∈ front, startWith h.line (ascii "Content-Type") = false)
    (hlast : startWith last.line (ascii "Content-Type") = true)
    (hlastLength : startWith last.line (ascii "Content-Length") = false) (slots slots' : List Int)
    (newBuffer : Bytes) :
    writeF4mNolist r.bytes ((headerBytes (front ++ [last])).length + 1) slots =
        .ok (newBuffer, slots') ↔
      (headerBytes (front ++ [last])).length < MAX_LENGTH ∧ ∃ body,
        bodyLoop ((r.behind back).drop 1) false [] slots = .ok (body, slots') ∧
        (∀ h ∈ front ++ [last], (h.copied (body.length - 1)).length ≤ MAX_LENGTH) ∧
        newBuffer = ((front ++ [last]).map (Header.copied (body.length - 1))).flatten ++ [13] ++
          body ∧
        newBuffer.length ≤ r.bytes.length ∧
        newBuffer.length + 1 ≤ r.bytes.length + body.length := by
  have hbehind : r.behind back ≠ [] := by simp [F4mResponse.behind]
  have hmap : (front ++ [last]).map Header.line = front.map Header.line ++ [last.line] := by simp
  have hlines : ∀ line ∈ front.map Header.line ++ [last.line], IsLine line := by
    rw [← hmap, List.forall_mem_map]
    exact fun h _ => h.isLine
  have hbytes := F4mResponse.bytes_split h
  unfold headerBytes at hbytes ⊢
  rw [hmap] at hbytes ⊢
  rw [hbytes, writeF4mNolist_lines hlines (List.forall_mem_map.mpr hfront) hlast hlastLength hbehind,
    List.length_append]
  simp only [← hmap, List.forall_mem_map, List.map_map]
  rfl

/-! ## Comparing two responses -/

/-- Text with its only newline at the end. -/
def EndsLine (line : Bytes) : Prop := ∃ text, line = text ++ [10] ∧ (10 : UInt8) ∉ text

theorem endsLine_contentLengthLine (length : Nat) : EndsLine (contentLengthLine length) := by
  refine ⟨ascii "Content-Length: " ++ decimal length ++ [13], by simp [contentLengthLine], ?_⟩
  simp only [List.mem_append, not_or]
  exact ⟨⟨by decide, fun h => absurd (isDigit_of_mem_decimal h) (by decide)⟩, by decide⟩

theorem Header.endsLine_copied (length : Nat) (h : Header) : EndsLine (h.copied length) := by
  unfold copied
  split
  · exact endsLine_contentLengthLine length
  · exact h.isLine.newline

theorem Header.endsLine_rewritten (length : Nat) (h : Header) : EndsLine (h.rewritten length) := by
  unfold rewritten
  split
  · exact endsLine_contentLengthLine length
  · exact h.isLine.newline

theorem Header.head_rewritten (length : Nat) (h : Header) (rest : Bytes) :
    ∃ c s, h.rewritten length ++ rest = c :: s ∧ c ≠ 13 := by
  unfold rewritten
  split
  · exact ⟨67, _, rfl, by decide⟩
  · obtain ⟨c, hc, hne⟩ := h.notBlank
    obtain ⟨s, hs⟩ := List.head?_eq_some_iff.mp hc
    exact ⟨c, s ++ [13, 10] ++ rest, by rw [line, hs]; simp, hne⟩

/-- Texts that are equal as a whole are equal line by line. -/
theorem flatten_map_inj {f g : Header → Bytes} (hf : ∀ h, EndsLine (f h))
    (hg : ∀ h, EndsLine (g h)) {headers : List Header} {s t : Bytes}
    (h : (headers.map f).flatten ++ s = (headers.map g).flatten ++ t) :
    (∀ h ∈ headers, f h = g h) ∧ s = t := by
  induction headers with
  | nil => exact ⟨fun _ hmem => absurd hmem List.not_mem_nil, h⟩
  | cons a headers ih =>
    obtain ⟨x, hx, hnx⟩ := hf a
    obtain ⟨y, hy, hny⟩ := hg a
    simp only [List.map_cons, List.flatten_cons, List.append_assoc, hx, hy,
      List.singleton_append] at h
    have hlen : x.length = y.length := by
      have hfind := congrArg (List.findIdx? (· == 10)) h
      rwa [List.cons_append, List.cons_append, findIdx?_newline hnx, findIdx?_newline hny,
        Option.some.injEq] at hfind
    obtain ⟨hxy, htail⟩ := List.append_inj h hlen
    have hrest := List.tail_eq_of_cons_eq htail
    obtain ⟨hall, hst⟩ := ih hrest
    refine ⟨?_, hst⟩
    rw [List.forall_mem_cons]
    exact ⟨by rw [hx, hy, hxy], hall⟩

theorem F4mResponse.exists_type (r : F4mResponse) : ∃ front last back,
    r.headers = front ++ last :: back ∧
    (∀ h ∈ front, startWith h.line (ascii "Content-Type") = false) ∧
    startWith last.line (ascii "Content-Type") = true := by
  obtain ⟨h, hmem, hk⟩ := r.has_type
  have hstart := Header.startWith_type (r.header_fits h hmem) hk
  cases hfind : r.headers.find? (fun h => startWith h.line (ascii "Content-Type")) with
  | none => exact absurd hstart (List.find?_eq_none.mp hfind h hmem)
  | some last =>
    obtain ⟨hlast, front, back, hsplit, hfront⟩ := List.find?_eq_some_iff_append.mp hfind
    exact ⟨front, last, back, hsplit, fun h hh => by simpa using hfront h hh, hlast⟩

/-! ## The body behind the carriage return -/

theorem F4mResponse.behind_drop (r : F4mResponse) :
    (r.behind []).drop 1 = ([10] :: r.lines).flatten ++ r.tail := rfl

theorem isLine_lineFeed : IsLine [10] := ⟨⟨[], rfl, List.not_mem_nil⟩, by decide⟩

theorem lineKind_lineFeed : lineKind [10] = .other := by decide

/-- The line feed of the blank line is read as the first line of the body. -/
theorem bodyLoop_lineFeed_iff {lines : List Bytes} (hlines : ∀ line ∈ lines, IsLine line)
    {tail : Bytes} (hno : (10 : UInt8) ∉ tail) (htail : tail.length < MAX_LENGTH) (slots : List Int)
    {body : Bytes} :
    (∃ slots', bodyLoop (([10] :: lines).flatten ++ tail) false [] slots = .ok (body, slots')) ↔
      StopsSafely lines ∧ (rewrittenBody lines).length < BODY_LENGTH ∧
      body = 10 :: rewrittenBody lines := by
  have hlines' : ∀ line ∈ [10] :: lines, IsLine line :=
    List.forall_mem_cons.mpr ⟨isLine_lineFeed, hlines⟩
  have hkept : keptLines ([10] :: lines) = 10 :: keptLines lines := by
    rw [keptLines, lineKind_lineFeed]
    rfl
  have hstops : StopsSafely ([10] :: lines) = StopsSafely lines := by
    rw [StopsSafely, lineKind_lineFeed]
  rw [bodyLoop_iff hlines' hno htail, hkept, hstops]
  unfold rewrittenBody
  constructor
  · rintro ⟨hstop, hle, rfl⟩
    exact ⟨hstop, hle, rfl⟩
  · rintro ⟨hstop, hlt, rfl⟩
    exact ⟨hstop, hlt, rfl⟩

theorem bodyLoop_behind_iff (r : F4mResponse) (slots : List Int) {body : Bytes} :
    (∃ slots', bodyLoop ((r.behind []).drop 1) false [] slots = .ok (body, slots')) ↔
      StopsSafely r.lines ∧ (rewrittenBody r.lines).length < BODY_LENGTH ∧
      body = 10 :: rewrittenBody r.lines := by
  rw [r.behind_drop]
  exact bodyLoop_lineFeed_iff r.isLine r.tail_noNewline r.tail_fits slots

/-- The new length line is no longer than the old one. -/
theorem Header.length_rewritten_le {n length : Nat} {h : Header} (hfits : h.Fits n)
    (hle : length ≤ n) : (h.rewritten length).length ≤ h.line.length := by
  unfold rewritten
  split
  · rename_i hk
    unfold Fits at hfits
    rw [hk] at hfits
    obtain ⟨value, htext, hne, hdigits, hvalue⟩ := hfits
    have hlt : length < 10 ^ value.length := by
      rw [← hvalue] at hle
      exact Nat.lt_of_le_of_lt hle (digitsValue_lt value)
    have hdec : (decimal length).length ≤ value.length := by
      unfold decimal
      rw [List.length_map]
      exact (Nat.length_toDigits_le_iff (by omega) (List.length_pos_of_ne_nil hne)).mpr hlt
    unfold contentLengthLine line
    rw [htext]
    simp only [List.length_append]
    omega
  · exact Nat.le_refl _

theorem length_flatten_map_le {f g : Header → Bytes} {headers : List Header}
    (h : ∀ a ∈ headers, (f a).length ≤ (g a).length) :
    (headers.map f).flatten.length ≤ (headers.map g).flatten.length := by
  induction headers with
  | nil => exact Nat.le_refl _
  | cons a headers ih =>
    rw [List.forall_mem_cons] at h
    have := ih h.2
    simp only [List.map_cons, List.flatten_cons, List.length_append]
    omega

/-! ## The exact condition -/

theorem seamFits_of_wellRewritten {r : F4mResponse} {slots : List Int}
    (h : WellRewritten r slots) : SeamFits r := by
  obtain ⟨slots', h⟩ := h
  obtain ⟨front, last, back, hsplit, hfront, hlast⟩ := r.exists_type
  rw [parseF4mResponse_split hsplit hfront hlast, bind_eq_ok] at h
  obtain ⟨type, htype, h⟩ := h
  have hlastLength := not_length_of_type htype
  split at h
  · cases h
  split at h
  swap
  · cases h
  rename_i hxml
  subst hxml
  simp only [bind_eq_ok, pure_eq_ok, Except.ok.injEq, Prod.mk.injEq, ParseResult.manifest.injEq,
    Prod.exists] at h
  obtain ⟨_, slots', h, rfl, rfl⟩ := h
  obtain ⟨hfit, body, hbody, -, heq, -⟩ :=
    (writeF4mNolist_eq_ok hsplit hfront hlast hlastLength slots slots' _).mp h
  -- the lines up to the type agree one by one
  have hlines : r.headers = (front ++ [last]) ++ back := by rw [hsplit]; simp
  unfold F4mResponse.rewritten at heq
  rw [hlines, List.map_append, List.flatten_append] at heq
  simp only [List.append_assoc] at heq
  obtain ⟨hsame, heq⟩ := flatten_map_inj (Header.endsLine_rewritten _) (Header.endsLine_copied _) heq
  -- behind them, one response has a carriage return and the other the next line
  cases back with
  | cons next back =>
    rw [List.map_cons, List.flatten_cons, List.append_assoc] at heq
    obtain ⟨c, s, hc, hne⟩ := Header.head_rewritten (rewrittenBody r.lines).length next
      ((back.map (Header.rewritten (rewrittenBody r.lines).length)).flatten ++
        ([13, 10] ++ rewrittenBody r.lines))
    rw [hc] at heq
    cases heq
    exact absurd rfl hne
  | nil =>
    obtain ⟨hstop, hlt, -⟩ := (bodyLoop_behind_iff r slots).mp ⟨slots', hbody⟩
    refine ⟨⟨front, last, hsplit, hfront, htype⟩, ?_, by rwa [hsplit], hstop, hlt⟩
    intro h hmem hstart
    by_contra hk
    have hcopied := hsame h (by rwa [hsplit] at hmem)
    rw [Header.rewritten, if_neg hk, Header.copied, if_pos hstart] at hcopied
    refine hk (Header.kind_of_length (r.header_fits h hmem) ?_)
    rw [hcopied]
    exact ⟨32 :: (decimal _ ++ [13, 10]), rfl⟩

theorem wellRewritten_of_seamFits {r : F4mResponse} (slots : List Int) (h : SeamFits r) :
    WellRewritten r slots := by
  obtain ⟨⟨front, last, hsplit, hfront, htype⟩, honly, hfit, hstop, hlt⟩ := h
  have hlast : startWith last.line (ascii "Content-Type") = true :=
    startWith_of_prefix (List.IsPrefix.trans (by decide) (contentTypeWord_isPrefix htype)) (by decide)
  have hlastLength := not_length_of_type htype
  obtain ⟨slots', hbody⟩ := (bodyLoop_behind_iff r slots).mpr ⟨hstop, hlt, rfl⟩
  have hbodyLe : (rewrittenBody r.lines).length ≤ (r.lines.flatten ++ r.tail).length := by
    rw [List.length_append]
    exact Nat.le_trans (length_rewrittenBody_le hstop) (Nat.le_add_right _ _)
  -- what is copied is what the new response has
  have hcopied : ∀ h ∈ r.headers, h.copied (rewrittenBody r.lines).length =
      h.rewritten (rewrittenBody r.lines).length := by
    intro h hmem
    unfold Header.copied Header.rewritten
    by_cases hk : h.kind = .contentLength
    · rw [if_pos hk, if_pos (Header.startWith_length (r.header_fits h hmem) hk)]
    · rw [if_neg hk, if_neg (fun hstart => hk (honly h hmem hstart))]
  have hmap : r.headers.map (Header.copied (rewrittenBody r.lines).length) =
      r.headers.map (Header.rewritten (rewrittenBody r.lines).length) :=
    List.map_congr_left hcopied
  have hshort : ∀ h ∈ r.headers, (h.rewritten (rewrittenBody r.lines).length).length ≤
      h.line.length := fun h hmem => Header.length_rewritten_le (r.header_fits h hmem) hbodyLe
  have hlen : r.rewritten.length ≤ r.bytes.length := by
    have := length_flatten_map_le hshort
    unfold F4mResponse.rewritten F4mResponse.bytes headerBytes
    rw [List.length_append, List.length_append, List.length_append, List.length_append]
    omega
  have hwrite := (writeF4mNolist_eq_ok hsplit hfront hlast hlastLength slots slots' r.rewritten).mpr
  rw [← hsplit] at hwrite
  refine ⟨slots', ?_⟩
  rw [parseF4mResponse_split hsplit hfront hlast, htype, ok_bind, if_neg (by decide), if_pos rfl,
    ← hsplit, hwrite ⟨hfit, _, hbody, ?_, ?_, hlen, ?_⟩]
  · rfl
  · intro h hmem
    rw [List.length_cons, Nat.add_sub_cancel, hcopied h hmem]
    exact Nat.le_of_lt (Nat.lt_of_le_of_lt (hshort h hmem) h.isLine.fits)
  · rw [List.length_cons, Nat.add_sub_cancel, hmap]
    simp [F4mResponse.rewritten]
  · rw [List.length_cons]
    omega

/-- **The rewriting works** iff the content type comes last, and the rest fits. -/
theorem wellRewritten_iff (r : F4mResponse) (slots : List Int) :
    WellRewritten r slots ↔ SeamFits r :=
  ⟨seamFits_of_wellRewritten, wellRewritten_of_seamFits slots⟩

/-! ## A response with the length behind the type -/

def statusLine : Header := ⟨.other, ascii "HTTP/1.1 200 OK", ⟨72, rfl, by decide⟩, by decide, by decide⟩

def typeLine : Header :=
  ⟨.contentType, ascii "Content-Type: text/xml", ⟨67, rfl, by decide⟩, by decide, by decide⟩

def lengthLine : Header :=
  ⟨.contentLength, ascii "Content-Length: 23", ⟨67, rfl, by decide⟩, by decide, by decide⟩

def lengthLast : F4mResponse where
  headers := [statusLine, typeLine, lengthLine]
  lines := [ascii "<manifest>\n", ascii "</manifest>\n"]
  tail := []
  header_fits := by
    simp only [List.forall_mem_cons, List.not_mem_nil, false_imp_iff, implies_true, and_true]
    refine ⟨⟨by decide, by decide⟩, ⟨ascii "text/xml", by decide, Or.inl rfl⟩, ?_⟩
    exact ⟨ascii "23", rfl, by decide, List.all_eq_true.mp rfl, by decide⟩
  has_length := ⟨lengthLine, by simp, rfl⟩
  has_type := ⟨typeLine, by simp, rfl⟩
  isLine := by
    simp only [List.forall_mem_cons, List.not_mem_nil, false_imp_iff, implies_true, and_true]
    exact ⟨⟨⟨ascii "<manifest>", rfl, by decide⟩, by decide⟩,
      ⟨⟨ascii "</manifest>", rfl, by decide⟩, by decide⟩⟩
  tail_noNewline := List.not_mem_nil
  tail_fits := by decide
  ends := by decide

/-- The lines behind the type are lost in the body. -/
theorem lengthLast_not_wellRewritten : ¬ ∀ r slots, WellRewritten r slots := by
  intro h
  obtain ⟨⟨front, last, hsplit, -, htype⟩, -⟩ := seamFits_of_wellRewritten (h lengthLast [])
  have hlast : last = lengthLine := by
    have hconcat : [statusLine, typeLine] ++ [lengthLine] = front ++ [last] := hsplit
    exact ((List.append_inj' hconcat rfl).2 |> List.singleton_inj.mp).symm
  subst hlast
  exact absurd htype (by decide)

end VideoCdn
