import VideoCdn.Bitrate

/-!
# Responses of the server (`src/handle.c`)

* `readLine`, `startWith` — the two helpers of the response code.  A source that ends before the
  line does is read past its end.
* `getResponseContentLength` — the search for the length of the body.
* `bodyLoop`, `headerLoop`, `writeF4mNolist` — the manifest without its list of bitrates, and the
  header in front of it.
* `parseF4mResponse` — the classification of a response; `buffer` is the block of `total_read`
  bytes, and the block for the new response has the same size.

Arrays that a loop fills from the front are given by the bytes stored so far.
-/

set_option autoImplicit false

namespace VideoCdn

open CLib

/-- The `buffer` of `write_f4m_nolist`. -/
def BODY_LENGTH : Nat := 256000

/-- `read_line`: its result and the bytes it stores. -/
def readLine (size : Nat) (src : Bytes) : Checked (Nat × Bytes) :=
  match (src.take size).findIdx? (· == 10) with
  | some i => .ok (i + 1, src.take (i + 1))
  | none => do
    inBounds (size ≤ src.length)
    return (size + 1, src.take size)

/-- `start_with`: blanks in `src` count against the length of `dst`. -/
def startWith (src dst : Bytes) : Bool :=
  let i := ((src.take dst.length).takeWhile (fun c => c == 32 || c == 9)).length
  (dst.take (dst.length - i)).isPrefixOf (src.drop i)

/-- The string in the array `line`, which was cleared before `stored` was read into it. -/
def lineString (stored : Bytes) : Checked Bytes := do
  inBounds (stored.length < MAX_LENGTH ∨ 0 ∈ stored)
  return cstr stored

theorem readLine_pos {size n : Nat} {src line : Bytes} (h : readLine size src = .ok (n, line))
    (hsize : 0 < size) : 0 < n ∧ 0 < src.length := by
  unfold readLine at h
  split at h
  · rename_i i hi
    cases h
    have := (List.findIdx?_eq_some_iff_getElem.mp hi).1
    rw [List.length_take] at this
    omega
  · rw [inBounds_bind_eq_ok] at h
    obtain ⟨hle, h⟩ := h
    cases h
    omega

theorem readLine_drop_lt {n : Nat} {src line : Bytes}
    (h : readLine MAX_LENGTH src = .ok (n, line)) : (src.drop n).length < src.length := by
  have := readLine_pos h (by decide)
  rw [List.length_drop]
  omega

/-! ## The length of the body -/

/-- The digits after `Content-Length: `, copied into `tmp_number[30]`. -/
def lengthNumber (line : Bytes) : Checked Int := do
  let number := (line.drop 16).takeWhile (· != 13)
  inBounds (13 ∈ line.drop 16 ∧ number.length < 30)
  return atoi number

/-- The loop of `get_response_content_length` over what is left of the buffer. -/
def contentLengthLoop (src : Bytes) : Checked Int :=
  match _h : readLine MAX_LENGTH src with
  | .error e => .error e
  | .ok (n, line) =>
    if startWith line (ascii "Content-Length:") then lengthNumber line
    else contentLengthLoop (src.drop n)
termination_by src.length
decreasing_by exact readLine_drop_lt _h

def getResponseContentLength (buffer : Bytes) : Checked Int := contentLengthLoop buffer

/-! ## The manifest without its list -/

/-- The number in a line such as `bitrate="100"`: `bitrate[10]` has room for nine bytes. -/
def advertisedRate (line : Bytes) : Checked Int := do
  let text ← lineString line
  let quoted := (text.dropWhile (· != 34)).drop 1
  inBounds (quoted.length < 10)
  return atoi quoted

/-- The first free slot of the session takes the rate. -/
def fillSlot (rate : Int) : List Int → List Int
  | [] => []
  | slot :: slots => if slot = -1 then rate :: slots else slot :: fillSlot rate slots

/-- `memcpy(buffer + write_offset, line, read_length)` unless `no_write` is set. -/
def copyLine (noWrite : Bool) (n : Nat) (line buffer : Bytes) : Checked Bytes :=
  if noWrite then .ok buffer
  else do
    inBounds (n ≤ MAX_LENGTH ∧ buffer.length + n ≤ BODY_LENGTH)
    return buffer ++ line

/-- The loop over the body: what is written to `buffer`, and the slots of the session. -/
def bodyLoop (src : Bytes) (noWrite : Bool) (buffer : Bytes) (slots : List Int) :
    Checked (Bytes × List Int) :=
  match _h : readLine MAX_LENGTH src with
  | .error e => .error e
  | .ok (n, line) =>
    if startWith line (ascii "bitrate") then do
      let rate ← advertisedRate line
      bodyLoop (src.drop n) noWrite buffer (fillSlot rate slots)
    else if startWith line (ascii "</media>") then do
      let buffer ← copyLine noWrite n line buffer
      bodyLoop (src.drop n) true buffer slots
    else if startWith line (ascii "</manifest>") then do
      inBounds (buffer.length + (ascii "</manifest>").length ≤ BODY_LENGTH)
      return (buffer ++ ascii "</manifest>", slots)
    else do
      let buffer ← copyLine noWrite n line buffer
      bodyLoop (src.drop n) noWrite buffer slots
termination_by src.length
decreasing_by all_goals exact readLine_drop_lt _h

/-! ## The header in front of it -/

/-- `memcpy` of a line into the new response, a block of `size` bytes. -/
def copyHeader (size n : Nat) (line out : Bytes) : Checked Bytes := do
  inBounds (n ≤ MAX_LENGTH ∧ out.length + n ≤ size)
  return out ++ line

/-- The new line for the length. -/
def contentLengthLine (length : Nat) : Bytes :=
  ascii "Content-Length: " ++ decimal length ++ [13, 10]

/-- The loop over the header: it ends at the content type. -/
def headerLoop (size length : Nat) (src out : Bytes) : Checked Bytes :=
  match _h : readLine MAX_LENGTH src with
  | .error e => .error e
  | .ok (n, line) =>
    if startWith line (ascii "Content-Length") then do
      let out ← copyHeader size (contentLengthLine length).length (contentLengthLine length) out
      headerLoop size length (src.drop n) out
    else if startWith line (ascii "Content-Type") then copyHeader size n line out
    else do
      let out ← copyHeader size n line out
      headerLoop size length (src.drop n) out
termination_by src.length
decreasing_by all_goals exact readLine_drop_lt _h

/-- `write_f4m_nolist`: the new response and the slots of the session. -/
def writeF4mNolist (src : Bytes) (offset : Nat) (slots : List Int) : Checked (Bytes × List Int) := do
  inBounds (offset ≤ MAX_LENGTH ∧ offset ≤ src.length)
  let headbuffer := readBuffer (src.take offset)
  let (body, slots) ← bodyLoop (src.drop offset) false [] slots
  let out ← headerLoop src.length (body.length - 1) headbuffer []
  -- the line feed stored behind the carriage return is overwritten by the body
  inBounds (out.length + 2 ≤ src.length ∧ out.length + 1 + body.length ≤ src.length)
  return (out ++ [13] ++ body, slots)

/-! ## The classification -/

/-- The results -2 and -1 of `parse_f4m_response`, and a new response with its length. -/
inductive ParseResult where
  | video
  | other
  | manifest (newBuffer : Bytes)
  deriving DecidableEq, Repr

/-- `sscanf(line, "Content-Type: %s\n", type)`; without a conversion `type` is uninitialised. -/
def contentTypeWord (line : Bytes) : Checked Bytes := do
  let text ← lineString line
  if (ascii "Content-Type:").isPrefixOf text then
    match words (text.drop (ascii "Content-Type:").length) with
    | [] => .error .uninit
    | type :: _ => .ok type
  else .error .uninit

/-- The loop of `parse_f4m_response`; `src` is what is left of `buffer` from `total` on. -/
def parseLoop (buffer : Bytes) (slots : List Int) (src : Bytes) (total : Nat) :
    Checked (ParseResult × List Int) :=
  if src = [] then .ok (.other, slots)
  else match _h : readLine MAX_LENGTH src with
    | .error e => .error e
    | .ok (n, line) =>
      if startWith line (ascii "Content-Type") then do
        let type ← contentTypeWord line
        if type = ascii "video/f4f" then return (.video, slots)
        else if type = ascii "text/xml" then
          let (newBuffer, slots) ← writeF4mNolist buffer (total + n + 1) slots
          return (.manifest newBuffer, slots)
        else return (.other, slots)
      else parseLoop buffer slots (src.drop n) (total + n)
termination_by src.length
decreasing_by exact readLine_drop_lt _h

def parseF4mResponse (buffer : Bytes) (slots : List Int) : Checked (ParseResult × List Int) :=
  parseLoop buffer slots buffer 0

/-! ## One turn of each loop -/

theorem bodyLoop_turn {n : Nat} {src line : Bytes} (h : readLine MAX_LENGTH src = .ok (n, line))
    (noWrite : Bool) (buffer : Bytes) (slots : List Int) :
    bodyLoop src noWrite buffer slots =
      (if startWith line (ascii "bitrate") then do
        let rate ← advertisedRate line
        bodyLoop (src.drop n) noWrite buffer (fillSlot rate slots)
      else if startWith line (ascii "</media>") then do
        let buffer ← copyLine noWrite n line buffer
        bodyLoop (src.drop n) true buffer slots
      else if startWith line (ascii "</manifest>") then do
        inBounds (buffer.length + (ascii "</manifest>").length ≤ BODY_LENGTH)
        return (buffer ++ ascii "</manifest>", slots)
      else do
        let buffer ← copyLine noWrite n line buffer
        bodyLoop (src.drop n) noWrite buffer slots) := by
  rw [bodyLoop]
  split
  · rename_i e he
    rw [h] at he
    cases he
  · rename_i n' line' he
    rw [h] at he
    cases he
    rfl

theorem bodyLoop_stuck {src : Bytes} {e : Fault} (h : readLine MAX_LENGTH src = .error e)
    (noWrite : Bool) (buffer : Bytes) (slots : List Int) :
    bodyLoop src noWrite buffer slots = .error e := by
  rw [bodyLoop]
  split
  · rename_i e' he
    rw [h] at he
    cases he
    rfl
  · rename_i n' line' he
    rw [h] at he
    cases he

theorem headerLoop_turn {n : Nat} {src line : Bytes} (h : readLine MAX_LENGTH src = .ok (n, line))
    (size length : Nat) (out : Bytes) :
    headerLoop size length src out =
      (if startWith line (ascii "Content-Length") then do
        let out ← copyHeader size (contentLengthLine length).length (contentLengthLine length) out
        headerLoop size length (src.drop n) out
      else if startWith line (ascii "Content-Type") then copyHeader size n line out
      else do
        let out ← copyHeader size n line out
        headerLoop size length (src.drop n) out) := by
  rw [headerLoop]
  split
  · rename_i e he
    rw [h] at he
    cases he
  · rename_i n' line' he
    rw [h] at he
    cases he
    rfl

theorem parseLoop_turn {n : Nat} {src line : Bytes} (h : readLine MAX_LENGTH src = .ok (n, line))
    (buffer : Bytes) (slots : List Int) (total : Nat) :
    parseLoop buffer slots src total =
      if startWith line (ascii "Content-Type") then do
        let type ← contentTypeWord line
        if type = ascii "video/f4f" then return (.video, slots)
        else if type = ascii "text/xml" then
          let (newBuffer, slots) ← writeF4mNolist buffer (total + n + 1) slots
          return (.manifest newBuffer, slots)
        else return (.other, slots)
      else parseLoop buffer slots (src.drop n) (total + n) := by
  have hne : src ≠ [] := List.ne_nil_of_length_pos (readLine_pos h (by decide)).2
  rw [parseLoop, if_neg hne]
  split
  · rename_i e he
    rw [h] at he
    cases he
  · rename_i n' line' he
    rw [h] at he
    cases he
    rfl

/-! ## Whole lines -/

/-- Text that ends with its only newline. -/
structure IsLine (line : Bytes) : Prop where
  newline : ∃ text, line = text ++ [10] ∧ (10 : UInt8) ∉ text
  fits : line.length < MAX_LENGTH

theorem findIdx?_newline {text : Bytes} (h : (10 : UInt8) ∉ text) (rest : Bytes) :
    (text ++ 10 :: rest).findIdx? (· == 10) = some text.length := by
  induction text with
  | nil => rfl
  | cons c text ih =>
    simp only [List.mem_cons, not_or] at h
    have hc : (c == 10) = false := by simpa using fun he => h.1 he.symm
    rw [List.cons_append, List.findIdx?_cons, hc, ih h.2]
    rfl

/-- A whole line is read as one. -/
theorem readLine_line {line : Bytes} (h : IsLine line) (rest : Bytes) :
    readLine MAX_LENGTH (line ++ rest) = .ok (line.length, line) := by
  obtain ⟨text, rfl, hno⟩ := h.newline
  have hfit := h.fits
  rw [List.length_append, List.length_singleton] at hfit
  have htake : ((text ++ [10]) ++ rest).take MAX_LENGTH =
      text ++ 10 :: rest.take (MAX_LENGTH - (text.length + 1)) := by
    rw [List.take_append, List.take_of_length_le (by simp; omega)]
    simp
  unfold readLine
  rw [htake, findIdx?_newline hno]
  dsimp only
  have hlen : (text ++ [10]).length = text.length + 1 := by simp
  rw [← hlen, List.take_left]

/-- Without a newline in what is left, the source is read past its end. -/
theorem readLine_noNewline {src : Bytes} (hno : (10 : UInt8) ∉ src) (hlen : src.length < MAX_LENGTH) :
    readLine MAX_LENGTH src = .error .outOfBounds := by
  have hnone : (src.take MAX_LENGTH).findIdx? (· == 10) = none := by
    rw [List.take_of_length_le (Nat.le_of_lt hlen), List.findIdx?_eq_none_iff]
    intro c hc
    rw [beq_eq_false_iff_ne]
    rintro rfl
    exact hno hc
  unfold readLine
  rw [hnone]
  dsimp only
  rw [inBounds_neg (by omega), error_bind]

end VideoCdn
