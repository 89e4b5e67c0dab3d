import VideoCdn.Lib.Checked
import Mathlib.Data.List.Basic
import Mathlib.Data.List.Induction
import Mathlib.Data.List.Infix
import Mathlib.Data.List.TakeWhile
import Mathlib.Tactic.Common
import Mathlib.Tactic.Ring
import Mathlib.Data.Nat.Digits.Defs

/-!
# Byte strings of the C library

Byte-level models of the string functions of the C library that a translated program calls.

* `cstr` — the string held by a buffer: its bytes before the first NUL.
* `store`, `charAt` — a copy into an array and a read from it, with their bounds.
* `strtok` — the non-empty pieces between delimiters, in order; `words` is its instance for white
  space and gives what successive `scanf("%s")` conversions read.
* `words_append`, `exists_firstWord` — words around white space, and the one at the front of a text.
* `strstr` — offset of the first occurrence of a pattern (`strstr_spec`, `strstr_of_first`).
* `commonLength` — the number of bytes up to the first difference (`take_isPrefix_iff`).
* `getlines` — what successive `getline` calls return.
* `atoi`, `decimal` — decimal conversion in both directions (`digitsValue_decimal_append`).
-/

set_option autoImplicit false

namespace CLib

abbrev Bytes := List UInt8

/-- The bytes of an ASCII literal. -/
def ascii (s : String) : Bytes := s.toList.map (fun c => UInt8.ofNat c.toNat)

/-- `isspace` in the C locale. -/
def isSpace (c : UInt8) : Bool := c == 32 || (9 ≤ c && c ≤ 13)

def isDigit (c : UInt8) : Bool := 48 ≤ c && c ≤ 57

/-- A byte string with no NUL in it: what a `char *` argument denotes. -/
structure CString where
  bytes : Bytes
  no_nul : (0 : UInt8) ∉ bytes

theorem not_of_any {p : UInt8 → Bool} {b : Bytes} (h : b.any p = false) : ∀ c ∈ b, p c = false := by
  simpa using h

def cstr (b : Bytes) : Bytes := b.takeWhile (· != 0)

theorem cstr_of_no_nul {b : Bytes} (h : (0 : UInt8) ∉ b) : cstr b = b := by
  unfold cstr
  rw [List.takeWhile_eq_self_iff]
  intro c hc
  simp only [bne_iff_ne, ne_eq]
  rintro rfl
  exact h hc

theorem no_nul_cstr (b : Bytes) : (0 : UInt8) ∉ cstr b := by
  intro h
  have := List.mem_takeWhile_imp h
  simp at this

theorem cstr_isPrefix (b : Bytes) : cstr b <+: b := List.takeWhile_prefix _

theorem cstr_append {a b : Bytes} (ha : (0 : UInt8) ∉ a) : cstr (a ++ b) = a ++ cstr b := by
  unfold cstr
  apply List.takeWhile_append_of_pos
  intro c hc
  rw [bne_iff_ne]
  rintro rfl
  exact ha hc

/-! ## Arrays -/

/-- Copy `bs` into the array `a` from offset `i` on. -/
def store (a : Bytes) (i : Nat) (bs : Bytes) : Checked Bytes := do
  inBounds (i + bs.length ≤ a.length)
  return a.take i ++ bs ++ a.drop (i + bs.length)

theorem store_eq_ok {a b : Bytes} {i : Nat} {bs : Bytes} :
    store a i bs = .ok b ↔
      i + bs.length ≤ a.length ∧ b = a.take i ++ bs ++ a.drop (i + bs.length) := by
  unfold store
  rw [inBounds_bind_eq_ok]
  simp only [pure_eq_ok, Except.ok.injEq, eq_comm]

theorem store_length {a b : Bytes} {i : Nat} {bs : Bytes} (h : store a i bs = .ok b) :
    b.length = a.length := by
  obtain ⟨hle, rfl⟩ := store_eq_ok.mp h
  simp only [List.length_append, List.length_take, List.length_drop]
  omega

theorem exists_store_eq_ok {a : Bytes} {i : Nat} {s : Bytes} :
    (∃ b, store a i s = .ok b) ↔ i + s.length ≤ a.length :=
  ⟨fun ⟨_, h⟩ => (store_eq_ok.mp h).1, fun h => ⟨_, store_eq_ok.mpr ⟨h, rfl⟩⟩⟩

/-- A piece from the front of a buffer with a string. -/
theorem cstr_take {s : Bytes} (hs : (0 : UInt8) ∉ s) (rest : Bytes) (n : Nat) :
    cstr ((s ++ 0 :: rest).take n) = s.take n := by
  have htake : (0 : UInt8) ∉ s.take n := fun h => hs (List.mem_of_mem_take h)
  rw [List.take_append, cstr_append htake]
  cases n - s.length with
  | zero => simp [cstr]
  | succ k => simp [cstr]

/-- A string stored with its NUL at the start of an array is the string the array holds. -/
theorem cstr_store {a b s : Bytes} (h : store a 0 (s ++ [0]) = .ok b) (hs : (0 : UInt8) ∉ s) :
    cstr b = s := by
  obtain ⟨-, rfl⟩ := store_eq_ok.mp h
  unfold cstr
  rw [List.take_zero, List.nil_append, List.append_assoc, List.takeWhile_append_of_pos]
  · simp
  · intro c hc
    simp only [bne_iff_ne, ne_eq]
    rintro rfl
    exact hs hc

/-- A store leaves everything before its offset alone. -/
theorem store_take {a b : Bytes} {i j : Nat} {bs : Bytes} (h : store a i bs = .ok b) (hj : j ≤ i) :
    b.take j = a.take j := by
  obtain ⟨hle, rfl⟩ := store_eq_ok.mp h
  rw [List.append_assoc, List.take_append_of_le_length (by simp only [List.length_take]; omega),
    List.take_take, Nat.min_eq_left hj]

/-- Consecutive stores into fresh zeros build the array up from the front. -/
theorem store_replicate (pre bs : Bytes) {n : Nat} (h : bs.length ≤ n) :
    store (pre ++ List.replicate n 0) pre.length bs =
      .ok (pre ++ bs ++ List.replicate (n - bs.length) 0) := by
  rw [store_eq_ok]
  refine ⟨by simp only [List.length_append, List.length_replicate]; omega, ?_⟩
  rw [List.take_left, List.drop_append, List.drop_eq_nil_of_le (by omega), List.nil_append,
    List.drop_replicate]
  congr 2
  omega

/-- `a[i]`. -/
def charAt (a : Bytes) (i : Nat) : Checked UInt8 :=
  match a[i]? with
  | some c => .ok c
  | none => .error .outOfBounds

theorem charAt_of_drop {a rest : Bytes} {i : Nat} {c : UInt8} (h : a.drop i = c :: rest) :
    charAt a i = .ok c ∧ a.drop (i + 1) = rest := by
  have hget : a[i]? = some c := by
    rw [← List.head?_drop, h]
    rfl
  constructor
  · unfold charAt
    rw [hget]
  · rw [← List.tail_drop, h]
    rfl

/-- `strlen`: without a NUL in the array it reads past its end. -/
def strlen (a : Bytes) : Checked Nat := do
  inBounds (0 ∈ a)
  return (cstr a).length

theorem strlen_append {s : Bytes} (hs : (0 : UInt8) ∉ s) (behind : Bytes) :
    strlen (s ++ 0 :: behind) = .ok s.length := by
  have hcstr : cstr (s ++ 0 :: behind) = s := by
    rw [cstr_append hs]
    simp [cstr]
  unfold strlen
  rw [inBounds_pos (by simp), ok_bind, pure_eq_ok, hcstr]

/-! ## Tokens -/

/-- The tokens that successive `strtok` calls return for the delimiters `p`. -/
def strtok (p : UInt8 → Bool) (s : Bytes) : List Bytes :=
  (s.splitOnP p).filter (fun t => !t.isEmpty)

/-- The tokens that successive `%s` conversions return. -/
def words (s : Bytes) : List Bytes := strtok isSpace s

section strtok
variable {p : UInt8 → Bool}

theorem strtok_token {t : Bytes} (ht : t ≠ []) (hp : ∀ c ∈ t, p c = false) :
    strtok p t = [t] := by
  unfold strtok
  rw [List.splitOnP_eq_singleton hp]
  simp [ht]

theorem strtok_token_append {t : Bytes} (ht : t ≠ []) (hp : ∀ c ∈ t, p c = false) {d : UInt8}
    (hd : p d = true) (s : Bytes) : strtok p (t ++ d :: s) = t :: strtok p s := by
  unfold strtok
  rw [List.splitOnP_append_cons_of_forall_mem hp d hd]
  simp [ht]

/-- Splitting at the delimiter of a join gives the joined tokens back. -/
theorem strtok_intercalate {d : UInt8} (hd : p d = true) :
    ∀ {ts : List Bytes}, (∀ t ∈ ts, t ≠ [] ∧ ∀ c ∈ t, p c = false) →
      strtok p ([d].intercalate ts) = ts
  | [], _ => rfl
  | [t], h => by
    obtain ⟨ht, hp⟩ := h t List.mem_cons_self
    simpa using strtok_token ht hp
  | t :: u :: ts, h => by
    obtain ⟨ht, hp⟩ := h t List.mem_cons_self
    rw [List.intercalate_cons_cons, List.append_assoc, List.singleton_append,
      strtok_token_append ht hp hd,
      strtok_intercalate hd (fun v hv => h v (List.mem_cons_of_mem _ hv))]

/-- The tokens are those in front of a delimiter and those behind it. -/
theorem strtok_append {d : UInt8} (hd : p d = true) (s r : Bytes) :
    strtok p (s ++ d :: r) = strtok p s ++ strtok p r := by
  unfold strtok
  rw [List.splitOnP_append_cons s r hd, List.filter_append]

/-- The bytes of the tokens are those that are no delimiters. -/
theorem flatten_strtok (s : Bytes) : (strtok p s).flatten = s.filter (fun c => !p c) := by
  unfold strtok
  rw [List.flatten_filter_not_isEmpty]
  induction s with
  | nil => rfl
  | cons c s ih =>
    rw [List.splitOnP_cons_eq_if_modifyHead]
    by_cases hc : p c = true
    · simp [hc, ih]
    · obtain ⟨t, ts, hsplit⟩ := List.exists_cons_of_ne_nil (List.splitOnP_ne_nil p s)
      rw [hsplit] at ih ⊢
      simp only [List.flatten_cons] at ih
      simp [hc, ← ih]

theorem ne_nil_of_mem_strtok {s t : Bytes} (h : t ∈ strtok p s) : t ≠ [] := by
  unfold strtok at h
  simpa using (List.mem_filter.mp h).2

theorem length_flatten_strtok (s : Bytes) : (strtok p s).flatten.length ≤ s.length := by
  rw [flatten_strtok]
  exact List.length_filter_le _ s

theorem length_of_mem_strtok {s t : Bytes} (h : t ∈ strtok p s) : t.length ≤ s.length :=
  Nat.le_trans (List.sublist_flatten_of_mem h).length_le (length_flatten_strtok s)

theorem notMem_intercalate {c d : UInt8} (hcd : c ≠ d) :
    ∀ {ts : List Bytes}, (∀ t ∈ ts, c ∉ t) → c ∉ [d].intercalate ts
  | [], _ => by simp
  | [t], h => by simpa using h t List.mem_cons_self
  | t :: u :: ts, h => by
    rw [List.intercalate_cons_cons, List.mem_append, List.mem_append, not_or, not_or]
    refine ⟨⟨h t List.mem_cons_self, by simpa using hcd⟩, ?_⟩
    exact notMem_intercalate hcd (fun v hv => h v (List.mem_cons_of_mem _ hv))

end strtok

/-! ## Words -/

/-- A text ends with a run of bytes that are no white space. -/
theorem exists_lastRun (a : Bytes) : ∃ pre run, a = pre ++ run ∧
    (pre = [] ∨ ∃ p d, pre = p ++ [d] ∧ isSpace d = true) ∧ ∀ c ∈ run, isSpace c = false := by
  induction a using List.reverseRecOn with
  | nil => exact ⟨[], [], rfl, Or.inl rfl, by simp⟩
  | append_singleton a c ih =>
    obtain ⟨pre, run, rfl, hpre, hrun⟩ := ih
    cases hc : isSpace c with
    | true => exact ⟨pre ++ run ++ [c], [], by simp, Or.inr ⟨_, c, rfl, hc⟩, by simp⟩
    | false =>
      refine ⟨pre, run ++ [c], by simp, hpre, fun x hx => ?_⟩
      rcases List.mem_append.mp hx with hx | hx
      · exact hrun x hx
      · rw [List.mem_singleton.mp hx, hc]

/-- A text begins with one. -/
theorem exists_firstRun (s : Bytes) : ∃ run post, s = run ++ post ∧
    (post = [] ∨ ∃ d p, post = d :: p ∧ isSpace d = true) ∧ ∀ c ∈ run, isSpace c = false := by
  induction s with
  | nil => exact ⟨[], [], rfl, Or.inl rfl, by simp⟩
  | cons c s ih =>
    cases hc : isSpace c with
    | true => exact ⟨[], c :: s, rfl, Or.inr ⟨c, s, rfl, hc⟩, by simp⟩
    | false =>
      obtain ⟨run, post, rfl, hpost, hrun⟩ := ih
      exact ⟨c :: run, post, rfl, hpost, List.forall_mem_cons.mpr ⟨hc, hrun⟩⟩

/-- The bytes of a word are no white space, and there is one. -/
theorem word_spec {s w : Bytes} (h : w ∈ words s) : w ≠ [] ∧ ∀ c ∈ w, isSpace c = false := by
  refine ⟨ne_nil_of_mem_strtok h, fun c hc => ?_⟩
  have hflat : c ∈ (words s).flatten := List.mem_flatten_of_mem h hc
  unfold words at hflat
  rw [flatten_strtok] at hflat
  simpa using (List.mem_filter.mp hflat).2

/-- White space in front of `x` ends the words before. -/
theorem words_append {pre : Bytes} (hpre : pre = [] ∨ ∃ p d, pre = p ++ [d] ∧ isSpace d = true)
    (x : Bytes) : words (pre ++ x) = words pre ++ words x := by
  unfold words
  rcases hpre with rfl | ⟨p, d, rfl, hd⟩
  · simp [strtok]
  · rw [List.append_assoc, List.singleton_append, strtok_append hd, strtok_append hd]
    simp [strtok]

/-- White space behind `x` ends its words. -/
theorem words_append_sep (x : Bytes) {post : Bytes}
    (hpost : post = [] ∨ ∃ d p, post = d :: p ∧ isSpace d = true) :
    words (x ++ post) = words x ++ words post := by
  unfold words
  rcases hpost with rfl | ⟨d, p, rfl, hd⟩
  · simp [strtok]
  · have hpost : strtok isSpace (d :: p) = strtok isSpace p := by
      rw [← List.nil_append (d :: p), strtok_append hd]
      simp [strtok]
    rw [strtok_append hd, hpost]

/-- **The first word** of a text that begins with bytes that are no white space. -/
theorem exists_firstWord {x : Bytes} (hne : x ≠ []) (hx : ∀ c ∈ x, isSpace c = false) (y : Bytes) :
    ∃ run post, y = run ++ post ∧ (post = [] ∨ ∃ d p, post = d :: p ∧ isSpace d = true) ∧
      (∀ c ∈ run, isSpace c = false) ∧ words (x ++ y) = (x ++ run) :: words post := by
  obtain ⟨run, post, rfl, hpost, hrun⟩ := exists_firstRun y
  refine ⟨run, post, rfl, hpost, hrun, ?_⟩
  have hword : words (x ++ run) = [x ++ run] := by
    refine strtok_token (by simp [hne]) (fun c hc => ?_)
    rcases List.mem_append.mp hc with hc | hc
    · exact hx c hc
    · exact hrun c hc
  rw [← List.append_assoc, words_append_sep (x ++ run) hpost, hword]
  rfl

/-! ## Substrings -/

/-- Offset of the first occurrence of `pat`. -/
def strstr (pat : Bytes) : Bytes → Option Nat
  | [] => if pat.isPrefixOf [] then some 0 else none
  | c :: s => if pat.isPrefixOf (c :: s) then some 0 else (strstr pat s).map (· + 1)

theorem strstr_spec {pat : Bytes} : ∀ {s : Bytes} {k : Nat}, strstr pat s = some k →
    k ≤ s.length ∧ pat <+: s.drop k ∧ ∀ j < k, ¬ pat <+: s.drop j
  | [], k, h => by
    unfold strstr at h
    split at h
    · rename_i hp
      cases h
      exact ⟨Nat.le_refl _, by simpa using hp, fun j hj => by omega⟩
    · cases h
  | c :: s, k, h => by
    unfold strstr at h
    split at h
    · rename_i hp
      cases h
      exact ⟨Nat.zero_le _, by simpa using hp, fun j hj => by omega⟩
    · rename_i hp
      rw [Option.map_eq_some_iff] at h
      obtain ⟨m, hm, rfl⟩ := h
      obtain ⟨hle, hpre, hmin⟩ := strstr_spec hm
      refine ⟨by simpa using hle, by simpa using hpre, ?_⟩
      intro j hj
      cases j with
      | zero => simpa using hp
      | succ j => simpa using hmin j (by omega)

/-- The first occurrence is the one that is found. -/
theorem strstr_of_first {pat : Bytes} : ∀ {s : Bytes} {k : Nat}, k ≤ s.length → pat <+: s.drop k →
    (∀ j < k, ¬ pat <+: s.drop j) → strstr pat s = some k
  | [], k, hk, h, _ => by
    obtain rfl : k = 0 := Nat.le_zero.mp hk
    have hp : pat.isPrefixOf [] = true := List.isPrefixOf_iff_prefix.mpr h
    unfold strstr
    rw [if_pos hp]
  | c :: s, 0, _, h, _ => by
    have hp : pat.isPrefixOf (c :: s) = true := List.isPrefixOf_iff_prefix.mpr h
    unfold strstr
    rw [if_pos hp]
  | c :: s, k + 1, hk, h, hfirst => by
    have hno : ¬ pat.isPrefixOf (c :: s) = true :=
      fun hp => hfirst 0 (Nat.succ_pos k) (List.isPrefixOf_iff_prefix.mp hp)
    have ih := strstr_of_first (Nat.le_of_succ_le_succ hk) h
      (fun j hj => hfirst (j + 1) (Nat.succ_lt_succ hj))
    unfold strstr
    rw [if_neg hno, ih]
    rfl

/-- What is found in a text is found in a prefix of it in the same place, if at all. -/
theorem strstr_of_prefix {pat s s' : Bytes} {p q : Nat} (hpre : s' <+: s)
    (h : strstr pat s = some q) (h' : strstr pat s' = some p) : p = q := by
  obtain ⟨-, hfound, hfirst⟩ := strstr_spec h
  obtain ⟨hle, hfound', hfirst'⟩ := strstr_spec h'
  have hroom : pat.length ≤ s'.length - p := by
    have hlen := hfound'.length_le
    rwa [List.length_drop] at hlen
  have hge : q ≤ p := Nat.not_lt.mp fun hlt => hfirst p hlt (hfound'.trans (hpre.drop p))
  have hin : pat <+: s'.drop q := by
    refine List.prefix_of_prefix_length_le hfound (hpre.drop q) ?_
    rw [List.length_drop]
    omega
  exact Nat.le_antisymm (Nat.not_lt.mp fun hlt => hfirst' q hlt hin) hge

/-- Nothing is found exactly if there is no occurrence. -/
theorem strstr_eq_none_iff {pat : Bytes} : ∀ {s : Bytes},
    strstr pat s = none ↔ ∀ j ≤ s.length, ¬ pat <+: s.drop j := by
  intro s
  constructor
  · intro h j
    induction j using Nat.strong_induction_on with
    | _ j ih =>
      intro hj hp
      rw [strstr_of_first hj hp (fun i hi => ih i hi (by omega))] at h
      cases h
  · intro h
    by_contra hne
    obtain ⟨k, hk⟩ := Option.ne_none_iff_exists'.mp hne
    obtain ⟨hle, hp, -⟩ := strstr_spec hk
    exact h k hle hp

/-- A pattern at the beginning of a text ends in front of the byte `d`, or reaches over it. -/
theorem prefix_append_cons {pat x y : Bytes} {d : UInt8} (h : pat <+: x ++ d :: y) :
    pat <+: x ∨ ∃ rest, pat = x ++ d :: rest ∧ rest <+: y := by
  rcases Nat.lt_or_ge x.length pat.length with hlt | hle
  case inr =>
    exact Or.inl (List.prefix_of_prefix_length_le h (List.prefix_append _ _) hle)
  case inl =>
    obtain ⟨u, rfl⟩ := List.prefix_of_prefix_length_le (List.prefix_append _ _) h (Nat.le_of_lt hlt)
    rw [List.prefix_append_right_inj] at h
    cases u with
    | nil => simp at hlt
    | cons e u =>
      obtain ⟨rfl, hu⟩ := List.cons_prefix_cons.mp h
      exact Or.inr ⟨u, rfl, hu⟩

/-- How many bytes two texts have in common at the front. -/
def commonLength : Bytes → Bytes → Nat
  | c :: s, d :: t => if c = d then commonLength s t + 1 else 0
  | _, _ => 0

@[simp] theorem commonLength_cons (c d : UInt8) (s t : Bytes) :
    commonLength (c :: s) (d :: t) = if c = d then commonLength s t + 1 else 0 := rfl

@[simp] theorem commonLength_nil (s : Bytes) : commonLength s [] = 0 := by
  cases s <;> rfl

theorem commonLength_le_left : ∀ s t : Bytes, commonLength s t ≤ s.length
  | [], _ => Nat.zero_le _
  | _ :: _, [] => Nat.zero_le _
  | c :: s, d :: t => by
    have ih := commonLength_le_left s t
    by_cases hcd : c = d
    · simp [hcd, ih]
    · simp [hcd]

/-- **The front of a text** is a prefix of another one as far as they have bytes in common. -/
theorem take_isPrefix_iff : ∀ {s t : Bytes} {k : Nat}, k ≤ s.length →
    (s.take k <+: t ↔ k ≤ commonLength s t)
  | s, t, 0, _ => by simp
  | [], _, k + 1, h => by simp at h
  | c :: s, [], k + 1, _ => by simp
  | c :: s, d :: t, k + 1, h => by
    have ih := take_isPrefix_iff (s := s) (t := t) (Nat.le_of_succ_le_succ h)
    rw [List.take_succ_cons, List.cons_prefix_cons, ih]
    by_cases hcd : c = d
    · simp [hcd]
    · simp [hcd]

theorem isPrefix_iff_commonLength {s t : Bytes} : s <+: t ↔ commonLength s t = s.length := by
  have hle := commonLength_le_left s t
  have htake := take_isPrefix_iff (t := t) (Nat.le_refl s.length)
  rw [List.take_length] at htake
  rw [htake]
  omega

theorem commonLength_le_right (s t : Bytes) : commonLength s t ≤ t.length := by
  have hpre := (take_isPrefix_iff (commonLength_le_left s t)).mpr (Nat.le_refl _)
  have hlen := hpre.length_le
  rw [List.length_take, Nat.min_eq_left (commonLength_le_left s t)] at hlen
  exact hlen

/-- What stands behind a byte that `s` does not have makes no difference. -/
theorem commonLength_append {d : UInt8} : ∀ {s : Bytes} (t r : Bytes), d ∉ s →
    commonLength s (t ++ d :: r) = commonLength s t
  | [], _, _, _ => rfl
  | c :: s, [], r, h => by
    have hcd : c ≠ d := fun hcd => h (hcd ▸ List.mem_cons_self)
    simp [hcd]
  | c :: s, e :: t, r, h => by
    have ih := commonLength_append t r (fun hs => h (List.mem_cons_of_mem c hs))
    simp [ih]

/-! ## Lines -/

/-- The lines that successive `getline` calls return, each with its newline. -/
def getlines : Bytes → List Bytes
  | [] => []
  | c :: s =>
    if c = 10 then [c] :: getlines s
    else match getlines s with
      | [] => [[c]]
      | l :: ls => (c :: l) :: ls

theorem flatten_getlines (s : Bytes) : (getlines s).flatten = s := by
  induction s with
  | nil => rfl
  | cons c s ih =>
    unfold getlines
    split
    · rw [List.flatten_cons, ih, List.singleton_append]
    · cases h : getlines s with
      | nil =>
        rw [h] at ih
        simp [← ih]
      | cons l ls =>
        rw [h] at ih
        simp [← ih]

/-- Each line of a text that ends with a newline ends with its only one. -/
theorem getlines_newline (s : Bytes) :
    ∀ line ∈ getlines (s ++ [10]), ∃ text, line = text ++ [10] ∧ (10 : UInt8) ∉ text := by
  induction s with
  | nil =>
    intro line hline
    exact ⟨[], List.mem_singleton.mp hline, List.not_mem_nil⟩
  | cons c s ih =>
    rw [List.cons_append]
    unfold getlines
    split
    · rename_i hc
      subst hc
      rintro line (_ | ⟨_, hline⟩)
      · exact ⟨[], rfl, List.not_mem_nil⟩
      · exact ih line hline
    · rename_i hc
      cases hls : getlines (s ++ [10]) with
      | nil =>
        have hs := flatten_getlines (s ++ [10])
        rw [hls] at hs
        simp at hs
      | cons l ls =>
        rw [hls] at ih
        rintro line (_ | ⟨_, hline⟩)
        · obtain ⟨text, rfl, hno⟩ := ih l List.mem_cons_self
          refine ⟨c :: text, rfl, ?_⟩
          rw [List.mem_cons, not_or]
          exact ⟨fun he => hc he.symm, hno⟩
        · exact ih line (List.mem_cons_of_mem _ hline)

/-- A line in front of a text is its first line. -/
theorem getlines_line {text : Bytes} (h : (10 : UInt8) ∉ text) (rest : Bytes) :
    getlines (text ++ 10 :: rest) = (text ++ [10]) :: getlines rest := by
  induction text with
  | nil => rfl
  | cons c text ih =>
    rw [List.mem_cons, not_or] at h
    rw [List.cons_append, getlines, if_neg (fun hc => h.1 hc.symm), ih h.2]
    rfl

/-! ## Decimal numbers -/

/-- The value of the leading digits. -/
def digitsValue (s : Bytes) : Nat :=
  (s.takeWhile isDigit).foldl (fun v c => 10 * v + (c.toNat - 48)) 0

/-- `strtol` in base ten, with its saturation at the ends of a 64-bit `long`. -/
def strtol (s : Bytes) : Int :=
  let v : Int := match s.dropWhile isSpace with
    | 45 :: t => - (digitsValue t : Int)
    | 43 :: t => digitsValue t
    | t => digitsValue t
  max (-9223372036854775808) (min v 9223372036854775807)

/-- `atoi` is `(int) strtol`: the conversion keeps the low 32 bits. -/
def atoi (s : Bytes) : Int := (strtol s).bmod 4294967296

/-- The number that a text denotes, before `strtol` saturates it. -/
def numeral (s : Bytes) : Int :=
  match s.dropWhile isSpace with
  | 45 :: t => - (digitsValue t : Int)
  | 43 :: t => digitsValue t
  | t => digitsValue t

theorem strtol_eq (s : Bytes) :
    strtol s = max (-9223372036854775808) (min (numeral s) 9223372036854775807) := rfl

/-- **`atoi`** returns the number of its text where that is the value of an `int`. -/
theorem atoi_eq_numeral {s : Bytes} (hlo : -2147483648 ≤ numeral s) (hhi : numeral s < 2147483648) :
    atoi s = numeral s := by
  unfold atoi
  rw [strtol_eq, Int.bmod_eq_of_le] <;> omega

/-- What `%d` prints for a non-negative number. -/
def decimal (n : Nat) : Bytes := (Nat.toDigits 10 n).map (fun c => UInt8.ofNat c.toNat)

theorem toNat_of_isDigit {c : Char} (h : c.isDigit = true) :
    48 ≤ c.toNat ∧ c.toNat ≤ 57 ∧ (UInt8.ofNat c.toNat).toNat = c.toNat := by
  simp only [Char.isDigit, Bool.and_eq_true, decide_eq_true_eq, ge_iff_le, UInt32.le_iff_toNat_le] at h
  have h1 : 48 ≤ c.toNat := h.1
  have h2 : c.toNat ≤ 57 := h.2
  refine ⟨h1, h2, ?_⟩
  rw [UInt8.toNat_ofNat']
  omega

theorem isDigit_of_mem_decimal {n : Nat} {b : UInt8} (h : b ∈ decimal n) : isDigit b = true := by
  unfold decimal at h
  obtain ⟨c, hc, rfl⟩ := List.mem_map.mp h
  obtain ⟨h1, h2, h3⟩ := toNat_of_isDigit (Nat.isDigit_of_mem_toDigits (by omega) (by omega) hc)
  simp only [isDigit, Bool.and_eq_true, decide_eq_true_eq, UInt8.le_iff_toNat_le, h3]
  exact ⟨h1, h2⟩

theorem decimal_ne_nil (n : Nat) : decimal n ≠ [] := by
  simp [decimal, Nat.toDigits_ne_nil]

theorem digitsValue_decimal_append (n : Nat) {s : Bytes} (hs : ∀ c ∈ s.head?, isDigit c = false) :
    digitsValue (decimal n ++ s) = n := by
  have htw : (decimal n ++ s).takeWhile isDigit = decimal n := by
    rw [List.takeWhile_append_of_pos (fun b hb => isDigit_of_mem_decimal hb)]
    cases s with
    | nil => simp
    | cons c s => simp [hs c (by simp)]
  unfold digitsValue
  rw [htw]
  unfold decimal
  rw [List.foldl_map]
  have key := Nat.ofDigitChars_toDigits (b := 10) (n := n) (by omega) (by omega)
  unfold Nat.ofDigitChars at key
  refine Eq.trans ?_ key
  refine List.foldl_ext _ _ _ (fun v c hc => ?_)
  obtain ⟨-, -, h3⟩ := toNat_of_isDigit (Nat.isDigit_of_mem_toDigits (by omega) (by omega) hc)
  rw [h3]
  rfl

theorem digitsValue_lt (s : Bytes) : digitsValue s < 10 ^ s.length := by
  have hfold : ∀ (t : Bytes) (v : Nat), (∀ c ∈ t, isDigit c = true) →
      t.foldl (fun v c => 10 * v + (c.toNat - 48)) v < (v + 1) * 10 ^ t.length := by
    intro t
    induction t with
    | nil => intro v _; simp
    | cons c t ih =>
      intro v ht
      have hc := ht c List.mem_cons_self
      simp only [isDigit, Bool.and_eq_true, decide_eq_true_eq, UInt8.le_iff_toNat_le] at hc
      have h9 : c.toNat ≤ 57 := hc.2
      have := ih (10 * v + (c.toNat - 48)) (fun d hd => ht d (List.mem_cons_of_mem _ hd))
      rw [List.foldl_cons, List.length_cons, Nat.pow_succ', ← Nat.mul_assoc]
      exact Nat.lt_of_lt_of_le this (Nat.mul_le_mul_right _ (by omega))
  have h := hfold (s.takeWhile isDigit) 0 (fun c hc => List.mem_takeWhile_imp hc)
  have hlen : (s.takeWhile isDigit).length ≤ s.length := (List.takeWhile_prefix _).length_le
  rw [Nat.zero_add, Nat.one_mul] at h
  exact Nat.lt_of_lt_of_le h (Nat.pow_le_pow_right (by omega) hlen)

theorem isDigit_iff {c : UInt8} : isDigit c = true ↔ 48 ≤ c.toNat ∧ c.toNat ≤ 57 := by
  simp [isDigit, UInt8.le_iff_toNat_le]

theorem not_isSpace_of_isDigit {c : UInt8} (h : isDigit c = true) : isSpace c = false := by
  rw [isDigit_iff] at h
  simp only [isSpace, Bool.or_eq_false_iff, beq_eq_false_iff_ne, ne_eq, Bool.and_eq_false_iff,
    decide_eq_false_iff_not, UInt8.le_iff_toNat_le, ← UInt8.toNat_inj, UInt8.reduceToNat]
  omega

/-- A text that starts with a digit has no sign to read. -/
theorem strtol_of_digit {c : UInt8} {s : Bytes} (hc : isDigit c = true) :
    strtol (c :: s) =
      max (-9223372036854775808) (min (digitsValue (c :: s) : Int) 9223372036854775807) := by
  have h := isDigit_iff.mp hc
  unfold strtol
  rw [List.dropWhile_cons, not_isSpace_of_isDigit hc]
  simp only [Bool.false_eq_true, if_false]
  split
  · rename_i heq
    cases heq
    simp at h
  · rename_i heq
    cases heq
    simp at h
  · rfl

theorem digitsValue_append_of_not_digit {s t : Bytes} (ht : ∀ c ∈ t.head?, isDigit c = false) :
    digitsValue (s ++ t) = digitsValue s := by
  unfold digitsValue
  rw [List.takeWhile_append]
  split
  · rename_i hlen
    have hs : s.takeWhile isDigit = s := List.IsPrefix.eq_of_length (List.takeWhile_prefix _) hlen
    cases t with
    | nil => simp [hs]
    | cons c t => simp [hs, ht c (by simp)]
  · rfl

/-- **`atoi`** reads a number that fits in an `int`, up to the first byte that is no digit. -/
theorem atoi_digits_append {t s : Bytes} (ht : t ≠ []) (hdig : ∀ c ∈ t, isDigit c = true)
    (hlt : digitsValue t < 2147483648) (hs : ∀ c ∈ s.head?, isDigit c = false) :
    atoi (t ++ s) = digitsValue t := by
  cases t with
  | nil => exact absurd rfl ht
  | cons c t =>
    have hv := digitsValue_append_of_not_digit (s := c :: t) hs
    rw [List.cons_append] at hv ⊢
    unfold atoi
    rw [strtol_of_digit (hdig c List.mem_cons_self), hv]
    rw [Int.bmod_eq_of_le] <;> omega

theorem atoi_lt (s : Bytes) : atoi s < 2147483648 := by
  unfold atoi
  have := Int.bmod_lt (x := strtol s) (m := 4294967296) (by omega)
  omega

/-- White space in front of a number is skipped. -/
theorem atoi_space_append {t s : Bytes} (ht : ∀ c ∈ t, isSpace c = true) :
    atoi (t ++ s) = atoi s := by
  unfold atoi strtol
  rw [List.dropWhile_append_of_pos ht]

/-- **`atoi`** reads digits exactly when their number fits in an `int`. -/
theorem atoi_digits_iff {t : Bytes} (hdig : ∀ c ∈ t, isDigit c = true) :
    atoi t = digitsValue t ↔ digitsValue t < 2147483648 := by
  constructor
  · intro h
    have := atoi_lt t
    omega
  · intro hlt
    by_cases ht : t = []
    · subst ht
      rfl
    · have := atoi_digits_append (s := []) ht hdig hlt (by simp)
      rwa [List.append_nil] at this

theorem atoi_digits_le {t : Bytes} (hdig : ∀ c ∈ t, isDigit c = true) :
    atoi t ≤ digitsValue t := by
  by_cases hlt : digitsValue t < 2147483648
  · exact le_of_eq ((atoi_digits_iff hdig).mpr hlt)
  · have := atoi_lt t
    omega

theorem digitsValue_cons {c : UInt8} {s : Bytes} (hc : isDigit c = true)
    (hs : ∀ d ∈ s, isDigit d = true) :
    digitsValue (c :: s) = (c.toNat - 48) * 10 ^ s.length + digitsValue s := by
  have hfold : ∀ (s : Bytes) (v : Nat), s.foldl (fun v c => 10 * v + (c.toNat - 48)) v =
      v * 10 ^ s.length + s.foldl (fun v c => 10 * v + (c.toNat - 48)) 0 := by
    intro s
    induction s with
    | nil => simp
    | cons d s ih =>
      intro v
      rw [List.foldl_cons, List.foldl_cons, ih, ih (10 * 0 + (d.toNat - 48)), List.length_cons,
        Nat.pow_succ]
      ring
  have htw : s.takeWhile isDigit = s := List.takeWhile_eq_self_iff.mpr hs
  unfold digitsValue
  rw [List.takeWhile_cons, if_pos hc, htw, List.foldl_cons, hfold, Nat.mul_zero, Nat.zero_add]

theorem atoi_decimal {n : Nat} (hn : n < 2147483648) : atoi (decimal n) = n := by
  have hv := digitsValue_decimal_append n (s := []) (by simp)
  rw [List.append_nil] at hv
  have := atoi_digits_append (s := []) (decimal_ne_nil n) (fun c hc => isDigit_of_mem_decimal hc)
    (by rw [hv]; exact hn) (by simp)
  rwa [List.append_nil, hv] at this

end CLib
