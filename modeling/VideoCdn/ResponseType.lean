import VideoCdn.ResponseLines
import VideoCdn.HeaderEnd
import VideoCdn.ServerResponse

/-!
# The type of a response (`parse_f4m_response` of `src/handle.c`)

The search for the content type is bounded by the whole response, not by its header.

* `classify` — what `parse_f4m_response` decides; `parseF4mResponse_eq`: the rest of it follows.
* `HeaderBlock`, `HeaderBlock.type` — a header section, and the type that it gives the response.
* `DecidedBy` — what makes the code see that type, in the header or, where the header has no such
  line, in the body.
* `classified_iff` — **the type of a response** is the one in its header exactly then; it is so for
  every body exactly when the first line that passes for a content type is in the header.
* `body_classified` — a body that begins with a content type is taken for the header.
-/

set_option autoImplicit false

namespace VideoCdn

open CLib

/-- The three outcomes of the comparisons with the content type. -/
inductive ResponseType where
  | video
  | manifest
  | other
  deriving DecidableEq, Repr

def typeOfWord (type : Bytes) : ResponseType :=
  if type = ascii "video/f4f" then .video
  else if type = ascii "text/xml" then .manifest
  else .other

def isTypeLine (line : Bytes) : Bool := startWith line (ascii "Content-Type")

/-- What `parse_f4m_response` decides on, and how far it has read by then. -/
def classify (buffer : Bytes) : Checked (ResponseType × Nat) :=
  match scanLines isTypeLine buffer with
  | .ok (n, line) => do
    let type ← contentTypeWord line
    return (typeOfWord type, n)
  | .error e => if (readLines buffer).2 = [] then .ok (.other, buffer.length) else .error e

/-- What it does then. -/
def actOnType (buffer : Bytes) (slots : List Int) (type : ResponseType) (total : Nat) :
    Checked (ParseResult × List Int) :=
  match type with
  | .video => .ok (.video, slots)
  | .manifest => do
    let (newBuffer, slots) ← writeF4mNolist buffer (total + 1) slots
    return (.manifest newBuffer, slots)
  | .other => .ok (.other, slots)

theorem actOnType_typeOfWord (buffer : Bytes) (slots : List Int) (type : Bytes) (total : Nat) :
    actOnType buffer slots (typeOfWord type) total =
      if type = ascii "video/f4f" then .ok (.video, slots)
      else if type = ascii "text/xml" then do
        let (newBuffer, slots) ← writeF4mNolist buffer (total + 1) slots
        return (.manifest newBuffer, slots)
      else .ok (.other, slots) := by
  unfold typeOfWord
  split
  · rfl
  · split <;> rfl

theorem parseLoop_stuck {src : Bytes} {e : Fault} (h : readLine MAX_LENGTH src = .error e)
    (buffer : Bytes) (slots : List Int) (total : Nat) :
    parseLoop buffer slots src total = if src = [] then .ok (.other, slots) else .error e := by
  rw [parseLoop]
  split
  · rfl
  · split
    · rename_i e' he
      rw [h] at he
      cases he
      rfl
    · rename_i n line he
      rw [h] at he
      cases he

theorem parseLoop_eq (buffer : Bytes) (slots : List Int) (src : Bytes) (total : Nat) :
    parseLoop buffer slots src total =
      match scanLines isTypeLine src with
      | .ok (n, line) => do
        let type ← contentTypeWord line
        actOnType buffer slots (typeOfWord type) (total + n)
      | .error e => if (readLines src).2 = [] then .ok (.other, slots) else .error e := by
  induction src using readLine_induction generalizing total with
  | stuck src e h => rw [parseLoop_stuck h, scanLines_stuck h, readLines_stuck h]
  | line src n line h ih =>
    have htype : startWith line (ascii "Content-Type") = isTypeLine line := rfl
    rw [parseLoop_turn h, scanLines_turn h, readLines_turn h, ih, htype]
    by_cases hp : isTypeLine line = true
    · rw [if_pos hp, if_pos hp]
      simp only [actOnType_typeOfWord]
      rfl
    · rw [if_neg hp, if_neg hp]
      cases scanLines isTypeLine (src.drop n) with
      | error e => rfl
      | ok res => simp [Except.map, Nat.add_assoc]

/-- **`parse_f4m_response`** acts on its decision. -/
theorem parseF4mResponse_eq (buffer : Bytes) (slots : List Int) :
    parseF4mResponse buffer slots = (do
      let (type, total) ← classify buffer
      actOnType buffer slots type total) := by
  unfold parseF4mResponse classify
  rw [parseLoop_eq]
  cases scanLines isTypeLine buffer with
  | error e =>
    dsimp only
    split <;> rfl
  | ok res =>
    obtain ⟨n, line⟩ := res
    dsimp only
    rw [Nat.zero_add]
    cases contentTypeWord line <;> rfl

/-! ## What the header says -/

/-- The name of a field, without regard to case. -/
def fieldName (line : Bytes) : Bytes := (line.takeWhile (· != 58)).map toLower

/-- The media type in the value of a field, without its parameters. -/
def mediaType (line : Bytes) : Bytes :=
  let value := ((line.dropWhile (· != 58)).drop 1).dropWhile isSpace
  (value.takeWhile (fun c => !isSpace c && c != 59)).map toLower

/-- A header section: lines, and the blank line. -/
structure HeaderBlock where
  lines : List Bytes
  isLine : ∀ line ∈ lines, IsLine line

def HeaderBlock.bytes (header : HeaderBlock) : Bytes := header.lines.flatten ++ [13, 10]

def HeaderBlock.type (header : HeaderBlock) : ResponseType :=
  match header.lines.find? (fun line => fieldName line == ascii "content-type") with
  | none => .other
  | some line => typeOfWord (mediaType line)

/-- Every text up to a blank line that fits in `buffer` is one. -/
theorem exists_headerBlock {text : Bytes} (hend : blankLineBytes <:+ text)
    (hfits : text.length ≤ MAX_LENGTH) : ∃ header : HeaderBlock, header.bytes = text := by
  obtain ⟨front, rfl⟩ := hend
  have hline : ∀ line ∈ getlines (front ++ [13] ++ [10]), IsLine line := by
    intro line hmem
    refine ⟨getlines_newline _ line hmem, ?_⟩
    have hle : line.length ≤ (getlines (front ++ [13] ++ [10])).flatten.length :=
      (List.sublist_flatten_of_mem hmem).length_le
    rw [flatten_getlines] at hle
    simp only [List.length_append, List.length_singleton] at hle
    simp only [List.length_append, blankLineBytes, List.length_cons, List.length_nil] at hfits
    omega
  refine ⟨⟨_, hline⟩, ?_⟩
  unfold HeaderBlock.bytes
  rw [flatten_getlines]
  simp [blankLineBytes]

theorem isLine_blank : IsLine [13, 10] := ⟨⟨[13], rfl, by decide⟩, by decide⟩

/-- The lines with the blank one. -/
def HeaderBlock.allLines (header : HeaderBlock) : List Bytes := header.lines ++ [[13, 10]]

theorem HeaderBlock.bytes_eq (header : HeaderBlock) : header.bytes = header.allLines.flatten := by
  simp [bytes, allLines]

theorem HeaderBlock.isLine_allLines (header : HeaderBlock) : ∀ line ∈ header.allLines, IsLine line := by
  intro line hline
  rcases List.mem_append.mp hline with h | h
  · exact header.isLine line h
  · rw [List.mem_singleton.mp h]
    exact isLine_blank

/-- Header and body, as `read_line` takes them. -/
theorem HeaderBlock.readLines_append (header : HeaderBlock) (body : Bytes) :
    readLines (header.bytes ++ body) =
      (header.lines ++ [13, 10] :: (readLines body).1, (readLines body).2) := by
  rw [header.bytes_eq, readLines_lines header.isLine_allLines, allLines, List.append_assoc]
  rfl

/-! ## When the code sees it -/

/-- The response is taken for one of the type that its header gives it. -/
def Classified (header : HeaderBlock) (body : Bytes) : Prop :=
  ∃ total, classify (header.bytes ++ body) = .ok (header.type, total)

/-- The code reads this type from the line. -/
def ReadAs (type : ResponseType) (line : Bytes) : Prop :=
  ∃ word, contentTypeWord line = .ok word ∧ typeOfWord word = type

/-- The first line that passes for a content type is in the header, and is read as it is meant. -/
def HeaderDecides (header : HeaderBlock) : Prop :=
  ∃ line, header.lines.find? isTypeLine = some line ∧ ReadAs header.type line

/-- The body, by chance, is read as the header is meant: its first line that passes for a content
type, or that it has none and ends with a line. -/
def BodyAgrees (type : ResponseType) (body : Bytes) : Prop :=
  match (readLines body).1.find? isTypeLine with
  | some line => ReadAs type line
  | none => type = .other ∧ (readLines body).2 = []

def DecidedBy (header : HeaderBlock) (body : Bytes) : Prop :=
  HeaderDecides header ∨
    header.lines.find? isTypeLine = none ∧ BodyAgrees header.type body

theorem classify_iff_of_some {buffer line : Bytes} {type : ResponseType}
    (h : (readLines buffer).1.find? isTypeLine = some line) :
    (∃ total, classify buffer = .ok (type, total)) ↔ ReadAs type line := by
  obtain ⟨n, hscan⟩ := scanLines_iff.mpr h
  unfold classify ReadAs
  rw [hscan]
  simp only [bind_eq_ok, pure_eq_ok, Except.ok.injEq, Prod.mk.injEq]
  constructor
  · rintro ⟨_, word, hword, htype, -⟩
    exact ⟨word, hword, htype⟩
  · rintro ⟨word, hword, htype⟩
    exact ⟨n, word, hword, htype, rfl⟩

theorem classify_iff_of_none {buffer : Bytes} {type : ResponseType}
    (h : (readLines buffer).1.find? isTypeLine = none) :
    (∃ total, classify buffer = .ok (type, total)) ↔
      type = .other ∧ (readLines buffer).2 = [] := by
  unfold classify
  rw [scanLines_eq_error h]
  dsimp only
  split
  · rename_i hrest
    simp [hrest, eq_comm]
  · rename_i hrest
    simp [hrest]

/-- The first line of the whole response. -/
theorem HeaderBlock.find?_append (header : HeaderBlock) (body : Bytes) :
    (readLines (header.bytes ++ body)).1.find? isTypeLine =
      (header.lines.find? isTypeLine).or ((readLines body).1.find? isTypeLine) := by
  have hblank : isTypeLine [13, 10] = false := by decide
  rw [header.readLines_append, List.find?_append, List.find?_cons, hblank]

theorem classified_iff_decidedBy (header : HeaderBlock) (body : Bytes) :
    Classified header body ↔ DecidedBy header body := by
  have hfind := header.find?_append body
  unfold Classified DecidedBy HeaderDecides BodyAgrees
  cases hheader : header.lines.find? isTypeLine with
  | some line =>
    rw [hheader, Option.some_or] at hfind
    rw [classify_iff_of_some hfind]
    simp
  | none =>
    rw [hheader, Option.none_or] at hfind
    cases hbody : (readLines body).1.find? isTypeLine with
    | some line =>
      rw [classify_iff_of_some (hfind.trans hbody)]
      simp
    | none =>
      rw [classify_iff_of_none (hfind.trans hbody), header.readLines_append]
      simp

/-- A byte without a newline is read past its end. -/
theorem not_bodyAgrees_unended (type : ResponseType) : ¬ BodyAgrees type [0] := by
  have hread : readLine MAX_LENGTH [0] = .error .outOfBounds :=
    readLine_noNewline (by decide) (by decide)
  unfold BodyAgrees
  rw [readLines_stuck hread]
  simp

/-- **The type of a response** is the one that its header gives it exactly when the header decides,
or the body agrees; for every two bodies, exactly when the header decides. -/
theorem classified_iff (header : HeaderBlock) :
    (∀ body₁ body₂, Classified header body₁ ∧ Classified header body₂ ↔
      DecidedBy header body₁ ∧ DecidedBy header body₂) ∧
    ((∀ body₁ body₂, Classified header body₁ ∧ Classified header body₂) ↔
      HeaderDecides header) := by
  constructor
  · intro body₁ body₂
    rw [classified_iff_decidedBy, classified_iff_decidedBy]
  · simp only [classified_iff_decidedBy]
    constructor
    · intro h
      rcases (h [0] [0]).1 with h | ⟨-, h⟩
      · exact h
      · exact absurd h (not_bodyAgrees_unended _)
    · exact fun h body₁ body₂ => ⟨Or.inl h, Or.inl h⟩

/-- A header without a content type. -/
def bareHeader : HeaderBlock :=
  ⟨[ascii "HTTP/1.1 200 OK\r\n"], by
    intro line h
    rw [List.mem_singleton.mp h]
    exact ⟨⟨ascii "HTTP/1.1 200 OK\r", by decide, by decide⟩, by decide⟩⟩

/-- **The body is read for the header**: without a content type, a body that begins with one makes
the response a chunk of the video. -/
theorem body_classified :
    ¬ ∀ header body₁ body₂, Classified header body₁ ∧ Classified header body₂ := by
  intro h
  obtain ⟨total, hclass⟩ := (h bareHeader (ascii "Content-Type: video/f4f\n") []).1
  have hrun : classify (bareHeader.bytes ++ ascii "Content-Type: video/f4f\n") =
      .ok (.video, 43) := by decide +kernel
  rw [hrun, Except.ok.injEq, Prod.mk.injEq] at hclass
  exact absurd hclass.1 (by decide)

end VideoCdn
