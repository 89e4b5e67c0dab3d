import VideoCdn.Manifest

/-!
# A source in pieces (`read_line` of `src/handle.c`)

The loops over a response advance by what `read_line` returns.

* `readPieces` — the results of such calls and the bytes they store, up to the end of the source.
* `ReadsWhole` — what the calls are for: the pieces are the source, and a result is the length of its
  piece.
* `readLine_first` — **one call**: a first line that fits is read as one; a longer one is cut, and the
  result counts one byte more than the piece has.
* `readsWhole_iff` — nothing is lost as long as every line fits; `readPieces_losesByte` is a line that
  does not.
-/

set_option autoImplicit false

namespace VideoCdn

open CLib

/-- `read_line` never returns 0. -/
theorem readLine_result_pos {size n : Nat} {src piece : Bytes}
    (h : readLine size src = .ok (n, piece)) : 0 < n := by
  unfold readLine at h
  split at h
  · cases h
    exact Nat.succ_pos _
  · rw [inBounds_bind_eq_ok] at h
    cases h.2
    exact Nat.succ_pos _

/-- The loop `while (total < total_read && (n = read_line(line, buffer + total, size)) > 0)`. -/
def readPieces (size : Nat) (src : Bytes) : Checked (List (Nat × Bytes)) :=
  if _hsrc : src = [] then .ok []
  else match _hread : readLine size src with
    | .error e => .error e
    | .ok (n, piece) => do
      let pieces ← readPieces size (src.drop n)
      return (n, piece) :: pieces
termination_by src.length
decreasing_by
  have hlen := List.length_pos_of_ne_nil _hsrc
  have hn := readLine_result_pos _hread
  rw [List.length_drop]
  omega

/-- A result and its piece: the result is the number of bytes stored, at most `size`, and the piece
ends with a newline or fills `size` bytes. -/
structure GoodPiece (size : Nat) (p : Nat × Bytes) : Prop where
  le_size : p.1 ≤ size
  stored : p.1 = p.2.length
  stops : p.2.getLast? = some 10 ∨ p.2.length = size

/-- The pieces are the source, byte for byte. -/
def ReadsWhole (size : Nat) (src : Bytes) : Prop :=
  ∃ pieces, readPieces size src = .ok pieces ∧ (∀ p ∈ pieces, GoodPiece size p) ∧
    (pieces.map Prod.snd).flatten = src

theorem readPieces_turn {size n : Nat} {src piece : Bytes} (hsrc : src ≠ [])
    (h : readLine size src = .ok (n, piece)) : readPieces size src = (do
      let pieces ← readPieces size (src.drop n)
      return (n, piece) :: pieces) := by
  rw [readPieces, dif_neg hsrc]
  split
  · rename_i e he
    rw [h] at he
    cases he
  · rename_i n' piece' he
    rw [h] at he
    cases he
    rfl

/-! ## One call -/

/-- **One call** on a source with a newline: its first line, or `size` bytes of it. -/
theorem readLine_first (size : Nat) {text : Bytes} (hno : (10 : UInt8) ∉ text) (rest : Bytes) :
    readLine size (text ++ 10 :: rest) =
      if text.length < size then .ok (text.length + 1, text ++ [10])
      else .ok (size + 1, text.take size) := by
  unfold readLine
  by_cases hlt : text.length < size
  · have htake : (text ++ 10 :: rest).take size =
        text ++ 10 :: rest.take (size - (text.length + 1)) := by
      obtain ⟨k, hk⟩ : ∃ k, size = text.length + (k + 1) := ⟨size - (text.length + 1), by omega⟩
      have hrest : size - (text.length + 1) = k := by omega
      rw [hrest, hk, List.take_length_add_append, List.take_succ_cons]
    have hpiece : (text ++ 10 :: rest).take (text.length + 1) = text ++ [10] := by
      rw [List.take_length_add_append]
      rfl
    rw [htake, findIdx?_newline hno, if_pos hlt]
    dsimp only
    rw [hpiece]
  · have hle : size ≤ text.length := Nat.not_lt.mp hlt
    have hcut : (text ++ 10 :: rest).take size = text.take size :=
      List.take_append_of_le_length hle
    have hnone : (text.take size).findIdx? (· == 10) = none := by
      rw [List.findIdx?_eq_none_iff]
      intro c hc
      rw [beq_eq_false_iff_ne]
      rintro rfl
      exact hno (List.mem_of_mem_take hc)
    have hlong : size ≤ (text ++ 10 :: rest).length := by
      rw [List.length_append]
      omega
    rw [hcut, hnone, if_neg hlt]
    dsimp only
    rw [inBounds_pos hlong, ok_bind, pure_eq_ok]

/-- A first line that fits is the first piece. -/
theorem readsWhole_line_iff {size : Nat} {text : Bytes} (hno : (10 : UInt8) ∉ text)
    (hfits : text.length < size) (rest : Bytes) :
    ReadsWhole size (text ++ 10 :: rest) ↔ ReadsWhole size rest := by
  have hread := readLine_first size hno rest
  rw [if_pos hfits] at hread
  have hdrop : (text ++ 10 :: rest).drop (text.length + 1) = rest := by
    rw [List.drop_length_add_append]
    rfl
  have hturn := readPieces_turn (by simp) hread
  rw [hdrop] at hturn
  unfold ReadsWhole
  rw [hturn]
  simp only [bind_eq_ok, pure_eq_ok, Except.ok.injEq]
  constructor
  · rintro ⟨_, ⟨pieces, hpieces, rfl⟩, hgood, hflat⟩
    refine ⟨pieces, hpieces, fun p hp => hgood p (List.mem_cons_of_mem _ hp), ?_⟩
    rw [List.map_cons, List.flatten_cons, List.append_assoc] at hflat
    exact List.cons.inj (List.append_cancel_left hflat) |>.2
  · rintro ⟨pieces, hpieces, hgood, hflat⟩
    refine ⟨_, ⟨pieces, hpieces, rfl⟩, List.forall_mem_cons.mpr ⟨⟨?_, ?_, ?_⟩, hgood⟩, ?_⟩
    · exact hfits
    · simp
    · exact Or.inl (by simp)
    · simp [hflat]

/-- A longer one gives a result that is larger than `size`. -/
theorem not_readsWhole_longLine {size : Nat} {text : Bytes} (hno : (10 : UInt8) ∉ text)
    (hlong : size ≤ text.length) (rest : Bytes) : ¬ ReadsWhole size (text ++ 10 :: rest) := by
  rintro ⟨pieces, hpieces, hgood, -⟩
  have hread := readLine_first size hno rest
  rw [if_neg (Nat.not_lt.mpr hlong)] at hread
  rw [readPieces_turn (by simp) hread, bind_eq_ok] at hpieces
  obtain ⟨pieces', -, hpieces⟩ := hpieces
  cases hpieces
  have := (hgood _ List.mem_cons_self).le_size
  dsimp only at this
  omega

/-! ## The whole source -/

/-- An induction over the lines of a source in which every line ends with a newline. -/
theorem lines_induction {motive : Bytes → Prop} (nil : motive [])
    (line : ∀ text rest, (10 : UInt8) ∉ text → motive rest → motive (text ++ 10 :: rest))
    (src : Bytes) (hend : src = [] ∨ src.getLast? = some 10) : motive src := by
  induction hlen : src.length using Nat.strong_induction_on generalizing src with
  | _ len ih =>
    rcases hend with rfl | hend
    · exact nil
    · obtain ⟨text, rest, rfl, hno⟩ := List.eq_append_cons_of_mem (List.mem_of_getLast? hend)
      refine line text rest hno (ih rest.length ?_ rest ?_ rfl)
      · rw [← hlen, List.length_append, List.length_cons]
        omega
      · cases rest with
        | nil => exact Or.inl rfl
        | cons c rest =>
          refine Or.inr ?_
          rwa [List.getLast?_append_cons, List.getLast?_cons_cons] at hend

/-- **The exact condition**: a source that ends with a newline is read whole, with every result the
length of its piece, iff none of its lines is longer than `size` bytes. -/
theorem readsWhole_iff (size : Nat) (body : Bytes) :
    ReadsWhole size (body ++ [10]) ↔ ∀ line ∈ getlines (body ++ [10]), line.length ≤ size := by
  refine lines_induction (motive := fun src =>
    ReadsWhole size src ↔ ∀ line ∈ getlines src, line.length ≤ size) ?_ ?_ _ (Or.inr (by simp))
  · refine iff_of_true ⟨[], ?_, by simp, rfl⟩ (by simp [getlines])
    rw [readPieces]
    rfl
  · intro text rest hno ih
    rw [getlines_line hno, List.forall_mem_cons, List.length_append, List.length_singleton]
    by_cases hfits : text.length < size
    · rw [readsWhole_line_iff hno hfits, ih]
      exact (and_iff_right hfits).symm
    · exact iff_of_false (not_readsWhole_longLine hno (Nat.not_lt.mp hfits) rest)
        (fun h => hfits h.1)

/-- **One byte too many**: of `ab` and its newline, two bytes are stored and three are counted. -/
theorem readPieces_losesByte : ¬ ∀ (size : Nat) (body : Bytes), 0 < size →
    ReadsWhole size (body ++ [10]) :=
  fun h => not_readsWhole_longLine (show (10 : UInt8) ∉ ascii "ab" by decide) (Nat.le_refl 2) []
    (h 2 (ascii "ab") (by decide))

end VideoCdn
