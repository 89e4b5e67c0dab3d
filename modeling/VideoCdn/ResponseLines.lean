import VideoCdn.Manifest

/-!
# Lines of a response (`read_line` of `src/handle.c`)

Every loop over a response reads lines until it finds one that it is looking for.

* `readLines` — what `read_line` stores in turn, and what is left where no further line ends inside.
* `scanLines` — such a loop: the line it stops at, and how far it has read.
* `scanLines_iff` — **it stops** at the first line it is looking for, if there is one.
* `readLines_lines`, `scanLines_lines` — whole lines in front of a text.
-/

set_option autoImplicit false

namespace VideoCdn

open CLib

/-- The lines that `read_line` stores in turn; a line that does not fit in the array is cut, and the
byte behind the cut is lost. -/
def readLines (src : Bytes) : List Bytes × Bytes :=
  match _h : readLine MAX_LENGTH src with
  | .error _ => ([], src)
  | .ok (n, line) =>
    let (lines, rest) := readLines (src.drop n)
    (line :: lines, rest)
termination_by src.length
decreasing_by exact readLine_drop_lt _h

/-- A loop that reads lines until `p` accepts one: where that line ends, and the line. -/
def scanLines (p : Bytes → Bool) (src : Bytes) : Checked (Nat × Bytes) :=
  match _h : readLine MAX_LENGTH src with
  | .error e => .error e
  | .ok (n, line) =>
    if p line then .ok (n, line)
    else (scanLines p (src.drop n)).map fun (m, line) => (n + m, line)
termination_by src.length
decreasing_by exact readLine_drop_lt _h

section turn
variable {src line : Bytes} {n : Nat}

theorem readLines_turn (h : readLine MAX_LENGTH src = .ok (n, line)) :
    readLines src = (line :: (readLines (src.drop n)).1, (readLines (src.drop n)).2) := by
  rw [readLines]
  split
  · rename_i e he
    rw [h] at he
    cases he
  · rename_i n' line' he
    rw [h] at he
    cases he
    rfl

theorem readLines_stuck {e : Fault} (h : readLine MAX_LENGTH src = .error e) :
    readLines src = ([], src) := by
  rw [readLines]
  split
  · rfl
  · rename_i n' line' he
    rw [h] at he
    cases he

theorem scanLines_turn (h : readLine MAX_LENGTH src = .ok (n, line)) (p : Bytes → Bool) :
    scanLines p src = if p line then .ok (n, line)
      else (scanLines p (src.drop n)).map fun (m, line) => (n + m, line) := by
  rw [scanLines]
  split
  · rename_i e he
    rw [h] at he
    cases he
  · rename_i n' line' he
    rw [h] at he
    cases he
    rfl

theorem scanLines_stuck {e : Fault} (h : readLine MAX_LENGTH src = .error e) (p : Bytes → Bool) :
    scanLines p src = .error e := by
  rw [scanLines]
  split
  · rename_i e' he
    rw [h] at he
    cases he
    rfl
  · rename_i n' line' he
    rw [h] at he
    cases he

end turn

/-- An induction over the lines of a text, as `read_line` takes them. -/
theorem readLine_induction {motive : Bytes → Prop}
    (stuck : ∀ src e, readLine MAX_LENGTH src = .error e → motive src)
    (line : ∀ src n line, readLine MAX_LENGTH src = .ok (n, line) → motive (src.drop n) → motive src)
    (src : Bytes) : motive src := by
  induction hlen : src.length using Nat.strong_induction_on generalizing src with
  | _ len ih =>
    cases h : readLine MAX_LENGTH src with
    | error e => exact stuck src e h
    | ok res =>
      obtain ⟨n, l⟩ := res
      exact line src n l h (ih _ (hlen ▸ readLine_drop_lt h) _ rfl)

/-- A read fails only by going on past the end. -/
theorem readLine_error {size : Nat} {src : Bytes} {e : Fault} (h : readLine size src = .error e) :
    e = .outOfBounds := by
  unfold readLine at h
  split at h
  · cases h
  · by_cases hle : size ≤ src.length
    · rw [inBounds_pos hle] at h
      cases h
    · rw [inBounds_neg hle] at h
      cases h
      rfl

/-- **The loop stops** at the first line that it is looking for. -/
theorem scanLines_iff {p : Bytes → Bool} {src line : Bytes} :
    (∃ n, scanLines p src = .ok (n, line)) ↔ (readLines src).1.find? p = some line := by
  induction src using readLine_induction with
  | stuck src e h => simp [scanLines_stuck h, readLines_stuck h]
  | line src n l h ih =>
    rw [scanLines_turn h, readLines_turn h, List.find?_cons]
    by_cases hp : p l = true
    · simp [hp]
    · simp only [hp, Bool.false_eq_true, if_false, ← ih, map_eq_ok, Prod.exists, Prod.mk.injEq]
      constructor
      · rintro ⟨_, m, _, hm, -, rfl⟩
        exact ⟨m, hm⟩
      · rintro ⟨m, hm⟩
        exact ⟨n + m, m, line, hm, rfl, rfl⟩

/-- Without such a line it runs past the end. -/
theorem scanLines_eq_error {p : Bytes → Bool} {src : Bytes}
    (h : (readLines src).1.find? p = none) : scanLines p src = .error .outOfBounds := by
  induction src using readLine_induction with
  | stuck src e he => rw [scanLines_stuck he, readLine_error he]
  | line src n l hl ih =>
    rw [readLines_turn hl, List.find?_cons] at h
    rw [scanLines_turn hl]
    split at h
    · cases h
    · rename_i hp
      rw [hp, ih h]
      rfl

/-! ## Whole lines in front -/

/-- Whole lines are read one by one. -/
theorem readLines_lines {lines : List Bytes} (h : ∀ line ∈ lines, IsLine line) (rest : Bytes) :
    readLines (lines.flatten ++ rest) = (lines ++ (readLines rest).1, (readLines rest).2) := by
  induction lines with
  | nil => rfl
  | cons line lines ih =>
    rw [List.flatten_cons, List.append_assoc,
      readLines_turn (readLine_line (h line List.mem_cons_self) _), List.drop_left,
      ih (fun l hl => h l (List.mem_cons_of_mem _ hl))]
    rfl

/-- The loop goes over whole lines that it is not looking for. -/
theorem scanLines_lines {p : Bytes → Bool} {lines : List Bytes}
    (h : ∀ line ∈ lines, IsLine line) (hp : ∀ line ∈ lines, p line = false) (rest : Bytes) :
    scanLines p (lines.flatten ++ rest) =
      (scanLines p rest).map fun (m, line) => (lines.flatten.length + m, line) := by
  induction lines with
  | nil =>
    rw [List.flatten_nil, List.nil_append]
    cases h : scanLines p rest with
    | error e => rfl
    | ok res => simp [Except.map]
  | cons line lines ih =>
    rw [List.flatten_cons, List.append_assoc,
      scanLines_turn (readLine_line (h line List.mem_cons_self) _), List.drop_left,
      hp line List.mem_cons_self, ih (fun l hl => h l (List.mem_cons_of_mem _ hl))
        (fun l hl => hp l (List.mem_cons_of_mem _ hl))]
    cases scanLines p rest with
    | error e => rfl
    | ok res => simp [Except.map, Nat.add_assoc]

end VideoCdn
