import VideoCdn.ResponseType
import VideoCdn.ManifestRewrite

/-!
# How far a manifest is read (`write_f4m_nolist` of `src/handle.c`)

Neither loop is told how long its text is: each goes on until it finds its last line.

* `XmlResponse` — a response whose header makes the code rewrite it.
* `BodyInside`, `HeaderInside` — the reads of the two loops alone; `writeF4mNolist_reads`: a call that
  returns has made them.
* `headerInside` — **the loop over the header** always stops in time, at the line that
  `parse_f4m_response` has found.
* `readsInside_iff` — **the loop over the body** does if some line of it passes for `</manifest>`.
* `body_overrun` — a manifest that is cut off is read past its end.
-/

set_option autoImplicit false

namespace VideoCdn

open CLib

/-! ## The reads -/

/-- The loop over the body stops at such a line. -/
def isManifestLine (line : Bytes) : Bool := decide (lineKind line = .manifest)

/-- The loop over the header stops at such a line. -/
def isLastCopied (line : Bytes) : Bool :=
  !startWith line (ascii "Content-Length") && startWith line (ascii "Content-Type")

/-- The loop over the body, from `src` on, finds its last line before the bytes end. -/
def BodyInside (src : Bytes) : Prop := ∃ stop, scanLines isManifestLine src = .ok stop

/-- The loop over the header finds its last line in the array `headbuffer`. -/
def HeaderInside (headbuffer : Bytes) : Prop := ∃ stop, scanLines isLastCopied headbuffer = .ok stop

/-- `write_f4m_nolist` reads bytes of the response only. -/
structure ReadsInside (src : Bytes) (offset : Nat) : Prop where
  copied : offset ≤ src.length
  body : BodyInside (src.drop offset)
  header : HeaderInside (readBuffer (src.take offset))

theorem lineKind_eq_manifest {line : Bytes} : lineKind line = .manifest ↔
    startWith line (ascii "bitrate") = false ∧ startWith line (ascii "</media>") = false ∧
      startWith line (ascii "</manifest>") = true := by
  unfold lineKind
  cases startWith line (ascii "bitrate") <;> cases startWith line (ascii "</media>") <;>
    cases startWith line (ascii "</manifest>") <;> simp

/-- A loop goes on behind a line that it does not stop at. -/
theorem scanLines_turn_of_not {p : Bytes → Bool} {n : Nat} {src line : Bytes}
    (h : readLine MAX_LENGTH src = .ok (n, line)) (hp : p line = false) :
    (∃ stop, scanLines p src = .ok stop) ↔ ∃ stop, scanLines p (src.drop n) = .ok stop := by
  rw [scanLines_turn h, hp]
  simp only [Bool.false_eq_true, if_false, map_eq_ok]
  constructor
  · rintro ⟨_, res, hrest, -⟩
    exact ⟨res, hrest⟩
  · rintro ⟨res, hrest⟩
    exact ⟨_, res, hrest, rfl⟩

theorem bodyLoop_reads {src : Bytes} {noWrite : Bool} {buffer : Bytes} {slots : List Int}
    {res : Bytes × List Int} (h : bodyLoop src noWrite buffer slots = .ok res) :
    BodyInside src := by
  unfold BodyInside
  induction src using readLine_induction generalizing noWrite buffer slots with
  | stuck src e he =>
    rw [bodyLoop_stuck he] at h
    cases h
  | line src n line hl ih =>
    rw [bodyLoop_turn hl] at h
    by_cases hp : isManifestLine line = true
    · exact ⟨(n, line), by rw [scanLines_turn hl, if_pos hp]⟩
    · rw [scanLines_turn_of_not hl (Bool.eq_false_iff.mpr hp)]
      unfold isManifestLine at hp
      rw [decide_eq_true_iff, lineKind_eq_manifest] at hp
      split at h
      · rw [bind_eq_ok] at h
        obtain ⟨rate, -, h⟩ := h
        exact ih h
      · split at h
        · rw [bind_eq_ok] at h
          obtain ⟨buffer', -, h⟩ := h
          exact ih h
        · split at h
          · rename_i hbitrate hmedia hmanifest
            exact absurd ⟨Bool.eq_false_iff.mpr hbitrate, Bool.eq_false_iff.mpr hmedia, hmanifest⟩ hp
          · rw [bind_eq_ok] at h
            obtain ⟨buffer', -, h⟩ := h
            exact ih h

theorem headerLoop_reads {size length : Nat} {src out out' : Bytes}
    (h : headerLoop size length src out = .ok out') : HeaderInside src := by
  unfold HeaderInside
  induction src using readLine_induction generalizing out with
  | stuck src e he =>
    rw [headerLoop] at h
    split at h
    · cases h
    · rename_i n line hl
      rw [he] at hl
      cases hl
  | line src n line hl ih =>
    rw [headerLoop_turn hl] at h
    by_cases hp : isLastCopied line = true
    · exact ⟨(n, line), by rw [scanLines_turn hl, if_pos hp]⟩
    · rw [scanLines_turn_of_not hl (Bool.eq_false_iff.mpr hp)]
      unfold isLastCopied at hp
      split at h
      · rw [bind_eq_ok] at h
        obtain ⟨_, -, h⟩ := h
        exact ih h
      · split at h
        · rename_i hlength htype
          simp [hlength, htype] at hp
        · rw [bind_eq_ok] at h
          obtain ⟨_, -, h⟩ := h
          exact ih h

/-- **A call that returns** has read bytes of the response only. -/
theorem writeF4mNolist_reads {src : Bytes} {offset : Nat} {slots : List Int}
    {res : Bytes × List Int} (h : writeF4mNolist src offset slots = .ok res) :
    ReadsInside src offset := by
  unfold writeF4mNolist at h
  rw [inBounds_bind_eq_ok] at h
  simp only [bind_eq_ok, Prod.exists] at h
  obtain ⟨⟨-, hle⟩, _, _, hbody, _, hheader, -⟩ := h
  exact ⟨hle, bodyLoop_reads hbody, headerLoop_reads hheader⟩

/-! ## Responses that are rewritten -/

/-- A response whose header makes `parse_f4m_response` rewrite it: `typeLine` is the first line that
passes for a content type, and its word is `text/xml`. -/
structure XmlResponse where
  front : List Bytes
  typeLine : Bytes
  back : List Bytes
  body : Bytes
  isLine : ∀ line ∈ front ++ typeLine :: back, IsLine line
  first : ∀ line ∈ front, isTypeLine line = false
  isType : isTypeLine typeLine = true
  word : contentTypeWord typeLine = .ok (ascii "text/xml")
  fits : (front ++ typeLine :: back).flatten.length + 2 ≤ MAX_LENGTH

def XmlResponse.header (r : XmlResponse) : HeaderBlock := ⟨r.front ++ r.typeLine :: r.back, r.isLine⟩

def XmlResponse.bytes (r : XmlResponse) : Bytes := r.header.bytes ++ r.body

/-- Where the line with the type ends. -/
def XmlResponse.total (r : XmlResponse) : Nat := (r.front ++ [r.typeLine]).flatten.length

/-- What stands behind it. -/
def XmlResponse.behind (r : XmlResponse) : Bytes := r.back.flatten ++ [13, 10] ++ r.body

theorem XmlResponse.bytes_eq (r : XmlResponse) :
    r.bytes = (r.front ++ [r.typeLine]).flatten ++ r.behind := by
  simp [bytes, behind, header, HeaderBlock.bytes]

theorem XmlResponse.isLine_front (r : XmlResponse) : ∀ line ∈ r.front, IsLine line :=
  fun line hline => r.isLine line (List.mem_append_left _ hline)

theorem XmlResponse.isLine_typeLine (r : XmlResponse) : IsLine r.typeLine := r.isLine _ (by simp)

/-- A loop that passes over the lines in front stops at the type. -/
theorem XmlResponse.scanLines_total (r : XmlResponse) {p : Bytes → Bool}
    (hfront : ∀ line ∈ r.front, p line = false) (hp : p r.typeLine = true) (rest : Bytes) :
    scanLines p ((r.front ++ [r.typeLine]).flatten ++ rest) = .ok (r.total, r.typeLine) := by
  rw [List.flatten_append, List.append_assoc, scanLines_lines r.isLine_front hfront,
    List.flatten_singleton, scanLines_turn (readLine_line r.isLine_typeLine rest), if_pos hp]
  simp [Except.map, total]

/-- **The call**: `parse_f4m_response` hands the response over, from the second byte behind the line
with the type on. -/
theorem XmlResponse.parse (r : XmlResponse) (slots : List Int) :
    parseF4mResponse r.bytes slots = (do
      let (newBuffer, slots) ← writeF4mNolist r.bytes (r.total + 1) slots
      return (.manifest newBuffer, slots)) := by
  have hclass : classify r.bytes = .ok (.manifest, r.total) := by
    unfold classify
    rw [r.bytes_eq, r.scanLines_total r.first r.isType]
    dsimp only
    rw [r.word]
    rfl
  rw [parseF4mResponse_eq, hclass]
  rfl

theorem XmlResponse.total_lt (r : XmlResponse) : r.total + 1 ≤ r.bytes.length := by
  rw [r.bytes_eq, List.length_append]
  simp only [behind, List.length_append, List.length_cons]
  unfold total
  omega

/-- **The loop over the header** stops at the line with the type. -/
theorem headerInside (r : XmlResponse) :
    HeaderInside (readBuffer (r.bytes.take (r.total + 1))) := by
  have htake : r.bytes.take (r.total + 1) =
      (r.front ++ [r.typeLine]).flatten ++ r.behind.take 1 := by
    have htotal : (r.front ++ [r.typeLine]).flatten.length = r.total := rfl
    rw [r.bytes_eq, List.take_append, htotal, List.take_of_length_le (htotal ▸ Nat.le_succ _),
      Nat.add_sub_cancel_left]
  have hfront : ∀ line ∈ r.front, isLastCopied line = false := by
    intro line hline
    have := r.first line hline
    unfold isTypeLine at this
    simp [isLastCopied, this]
  have hlast : isLastCopied r.typeLine = true := by
    have htype := r.isType
    unfold isTypeLine at htype
    simp [isLastCopied, htype, not_length_of_type r.word]
  unfold HeaderInside readBuffer
  rw [htake, List.append_assoc, r.scanLines_total hfront hlast]
  exact ⟨_, rfl⟩

/-- **What is read** is inside the response exactly when some line behind its content type, as
`read_line` takes them, passes for `</manifest>`. -/
theorem readsInside_iff (r : XmlResponse) : ReadsInside r.bytes (r.total + 1) ↔
    ∃ line ∈ (readLines (r.bytes.drop (r.total + 1))).1, lineKind line = .manifest := by
  have hbody : BodyInside (r.bytes.drop (r.total + 1)) ↔
      ∃ line ∈ (readLines (r.bytes.drop (r.total + 1))).1, lineKind line = .manifest := by
    unfold BodyInside
    rw [Prod.exists, exists_comm]
    simp only [scanLines_iff, ← Option.isSome_iff_exists, List.find?_isSome, isManifestLine,
      decide_eq_true_iff]
  rw [← hbody]
  exact ⟨fun h => h.body, fun h => ⟨r.total_lt, h, headerInside r⟩⟩

/-- A manifest without its last line. -/
def cutManifest : XmlResponse where
  front := [ascii "HTTP/1.1 200 OK\r\n"]
  typeLine := ascii "Content-Type: text/xml\r\n"
  back := []
  body := ascii "<manifest>\n"
  isLine := by
    simp only [List.cons_append, List.nil_append, List.forall_mem_cons, List.not_mem_nil,
      false_imp_iff, forall_const, and_true]
    exact ⟨⟨⟨ascii "HTTP/1.1 200 OK\r", by decide, by decide⟩, by decide⟩,
      ⟨⟨ascii "Content-Type: text/xml\r", by decide, by decide⟩, by decide⟩⟩
  first := by decide
  isType := by decide
  word := by decide
  fits := by decide

/-- **Past the end**: nothing stops the loop in a manifest that is cut off. -/
theorem body_overrun : ¬ ∀ r : XmlResponse, ReadsInside r.bytes (r.total + 1) := by
  intro h
  obtain ⟨-, ⟨stop, hstop⟩, -⟩ := h cutManifest
  have hrun : scanLines isManifestLine (cutManifest.bytes.drop (cutManifest.total + 1)) =
      .error .outOfBounds := by decide +kernel
  rw [hrun] at hstop
  cases hstop

end VideoCdn
