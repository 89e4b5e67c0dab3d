import VideoCdn.LoggedRates
import VideoCdn.Lib.MultiMap
import Mathlib.Order.Bounds.Basic

/-!
# The plots of the rates (`plot/grapher.py`)

* `LogLine`, `readLogs`, `brList`, `spans`, `brRows`, `fair` — from the logs of some streams to their
  rates in every second, and to the fairness between two.
* `Shows` — what the plot is for: the rate of a stream is held from one line of its log to the next.
* `brRows_shows` — **the rates**: every point of the plot shows its second.
* `fair_bounds` — **the fairness** of two streams is defined in every second, and between 1/2 and 1.
-/

set_option autoImplicit false

namespace VideoCdn

open CLib

/-! ## The script -/

/-- The second `t` and the rate `br` in a line of a log. -/
structure LogLine where
  t : Int
  br : Int
  deriving DecidableEq, Repr

abbrev Rates := MultiMap Int (Nat × Int)

/-- The first value for `i` in a list of pairs. -/
def valueFor (i : Nat) (l : List (Nat × Int)) : Option Int := (l.find? (·.1 = i)).map Prod.snd

/-- The first line of a stream in a second counts. -/
def addLine (i : Nat) (BRs : Rates) (line : LogLine) : Rates :=
  if (valueFor i (BRs.get line.t)).isSome then BRs else BRs.append line.t (i, line.br)

/-- The loop that fills `BRs`. -/
def readLogs (lfs : List (List LogLine)) : Rates :=
  lfs.zipIdx.foldl (fun BRs lf => lf.1.foldl (addLine lf.2) BRs) []

def sortRates (BRs : Rates) : Rates := BRs.mergeSort fun a b => decide (a.1 ≤ b.1)

/-- `BR_list`, in seconds since `t0`. -/
def brList (t0 : Int) (BRs : Rates) : Rates := (sortRates BRs).map fun l => (l.1 - t0, l.2)

/-- The dictionaries `start` and `end`. -/
structure Spans where
  start : List (Nat × Int)
  finish : Nat → Option Int

namespace Spans

def see (s : Spans) (n : Nat) (t : Int) : Spans where
  start := if (valueFor n s.start).isSome then s.start else s.start ++ [(n, t)]
  finish := Function.update s.finish n (some t)

/-- `start[k]`; it is 0 for a stream without lines. -/
def startAt (s : Spans) (k : Nat) : Int := (valueFor k s.start).getD 0

/-- `end[k]`; it is 0 for a stream without lines. -/
def endAt (s : Spans) (k : Nat) : Int := (s.finish k).getD 0

/-- `max(end.values())`. -/
def last (s : Spans) : Option Int := (s.start.filterMap fun p => s.finish p.1).max?

end Spans

def spans (BR_list : Rates) : Spans :=
  BR_list.foldl (fun s l => l.2.foldl (fun s e => s.see e.1 l.1) s) ⟨[], fun _ => none⟩

/-- The rate of stream `k` in second `i`; `before` is that of the second in front. -/
def brCell (BR_list : Rates) (s : Spans) (k : Nat) (before : Int) (i : Nat) : Int :=
  if (i : Int) < s.startAt k ∨ s.endAt k < i then 0
  else (valueFor k (BR_list.get i)).getD before

/-- `BR_y[i][k]`. -/
def brY (BR_list : Rates) (s : Spans) (k : Nat) : Nat → Int
  | 0 => brCell BR_list s k 0 0
  | i + 1 => brCell BR_list s k (brY BR_list s k i) (i + 1)

/-- `BR_y`, with the dictionaries; `none` is for logs without any line. -/
def brRows (lfs : List (List LogLine)) : Option (Spans × List (List Int)) := do
  let (t0, _) ← (sortRates (readLogs lfs)).head?
  let BR_list := brList t0 (readLogs lfs)
  let s := spans BR_list
  let last ← s.last
  return (s, (List.range (last + 1).toNat).map fun i =>
    (List.range s.start.length).map fun k => brY BR_list s k i)

/-- Jain's index for two rates; `none` is a division by zero. -/
def fairness (x y : Int) : Option ℚ :=
  if 2 * (x * x + y * y) = 0 then none
  else some (((x + y) * (x + y) : Int) / (2 * (x * x + y * y) : Int))

/-- One point of `fair`; `none` is for rows that are not those of two streams. -/
def fairPoint (s : Spans) (i : Nat) : List Int → Option ℚ
  | [x, y] => if (i : Int) < s.startAt 0 ∨ (i : Int) < s.startAt 1 then some 1 else fairness x y
  | _ => none

def fair (lfs : List (List LogLine)) : Option (List ℚ) := do
  let (s, rows) ← brRows lfs
  rows.zipIdx.mapM fun row => fairPoint s row.2 row.1

/-! ## What is read -/

theorem valueFor_append (k : Nat) (l : List (Nat × Int)) (i : Nat) (br : Int) :
    valueFor k (l ++ [(i, br)]) = (valueFor k l).or (if i = k then some br else none) := by
  unfold valueFor
  rw [List.find?_append]
  cases l.find? (·.1 = k) with
  | some p => simp
  | none => by_cases h : i = k <;> simp [h]

theorem valueFor_addLine (k : Nat) (t : Int) (i : Nat) (BRs : Rates) (line : LogLine) :
    valueFor k ((addLine i BRs line).get t) = (valueFor k (BRs.get t)).or
      (if line.t = t ∧ i = k then some line.br else none) := by
  unfold addLine
  split
  · rename_i hsome
    split
    · rename_i heq
      rw [← heq.1, ← heq.2]
      obtain ⟨br, hbr⟩ := Option.isSome_iff_exists.mp hsome
      rw [hbr]
      rfl
    · rw [Option.or_none]
  · rw [MultiMap.get_append]
    by_cases ht : line.t = t
    · rw [if_pos ht, valueFor_append]
      simp [ht]
    · simp [ht]

theorem valueFor_log (k : Nat) (t : Int) (i : Nat) (lf : List LogLine) (BRs : Rates) :
    valueFor k ((lf.foldl (addLine i) BRs).get t) = (valueFor k (BRs.get t)).or
      (if i = k then (lf.find? (·.t = t)).map LogLine.br else none) := by
  induction lf generalizing BRs with
  | nil => simp
  | cons line lf ih =>
    rw [List.foldl_cons, ih, valueFor_addLine, Option.or_assoc]
    by_cases hk : i = k
    · by_cases ht : line.t = t <;> simp [hk, ht]
    · simp [hk]

/-- The first line of a log in a second. -/
def firstLine (lfs : List (List LogLine)) (k : Nat) (t : Int) : Option LogLine :=
  lfs[k]?.bind fun lf => lf.find? (·.t = t)

theorem valueFor_readLogs (lfs : List (List LogLine)) (k : Nat) (t : Int) :
    valueFor k ((readLogs lfs).get t) = (firstLine lfs k t).map LogLine.br := by
  induction lfs using List.reverseRecOn with
  | nil => rfl
  | append_singleton lfs lf ih =>
    have hread : readLogs (lfs ++ [lf]) = lf.foldl (addLine lfs.length) (readLogs lfs) := by
      simp [readLogs, List.zipIdx_append]
    rw [hread, valueFor_log, ih]
    unfold firstLine
    rcases Nat.lt_trichotomy k lfs.length with hk | hk | hk
    · rw [List.getElem?_append_left hk, if_neg (by omega), Option.or_none]
    · subst hk
      simp
    · rw [if_neg (by omega), Option.or_none, List.getElem?_eq_none (by omega),
        List.getElem?_eq_none (by simp; omega)]

theorem valid_readLogs (lfs : List (List LogLine)) : (readLogs lfs).Valid := by
  have hline : ∀ (i : Nat) (BRs : Rates) (line : LogLine), BRs.Valid → (addLine i BRs line).Valid := by
    intro i BRs line h
    unfold addLine
    split
    · exact h
    · exact h.append _ _
  have hlog : ∀ (i : Nat) (lf : List LogLine) (BRs : Rates), BRs.Valid →
      (lf.foldl (addLine i) BRs).Valid := by
    intro i lf
    induction lf with
    | nil => exact fun BRs h => h
    | cons line lf ih => exact fun BRs h => ih _ (hline i BRs line h)
  unfold readLogs
  generalize lfs.zipIdx = indexed
  suffices h : ∀ BRs : Rates, BRs.Valid →
      (indexed.foldl (fun BRs lf => lf.1.foldl (addLine lf.2) BRs) BRs).Valid from h [] .nil
  induction indexed with
  | nil => exact fun BRs h => h
  | cons lf indexed ih => exact fun BRs h => ih _ (hlog lf.2 lf.1 BRs h)

/-! ## The list by seconds -/

section brList
variable {lfs : List (List LogLine)}

theorem perm_sortRates (BRs : Rates) : BRs.Perm (sortRates BRs) := (List.mergeSort_perm _ _).symm

theorem valid_sortRates (lfs : List (List LogLine)) : (sortRates (readLogs lfs)).Valid :=
  (valid_readLogs lfs).perm (perm_sortRates _)

theorem sorted_sortRates (BRs : Rates) : (sortRates BRs).Pairwise fun a b => a.1 ≤ b.1 := by
  have h : (sortRates BRs).Pairwise fun a b => decide (a.1 ≤ b.1) = true :=
    List.pairwise_mergeSort
      (by simpa using fun a b c : Int => @Int.le_trans a b c)
      (by simpa using fun a b : Int => Int.le_total a b) BRs
  simpa using h

theorem exists_valueFor {l : List (Nat × Int)} : l ≠ [] ↔ ∃ k, (valueFor k l).isSome = true := by
  constructor
  · intro hne
    obtain ⟨⟨k, br⟩, l', rfl⟩ := List.exists_cons_of_ne_nil hne
    exact ⟨k, by simp [valueFor]⟩
  · rintro ⟨k, hk⟩ rfl
    cases hk

theorem isSome_firstLine {k : Nat} {t : Int} : (firstLine lfs k t).isSome = true ↔
    ∃ lf, lfs[k]? = some lf ∧ ∃ line ∈ lf, line.t = t := by
  unfold firstLine
  cases lfs[k]? with
  | none => simp
  | some lf => simp

/-- The seconds in the list are those of the lines. -/
theorem mem_keys_readLogs {t : Int} :
    t ∈ (readLogs lfs).keys ↔ ∃ lf ∈ lfs, ∃ line ∈ lf, line.t = t := by
  rw [(valid_readLogs lfs).mem_keys, exists_valueFor]
  simp only [valueFor_readLogs, Option.isSome_map, isSome_firstLine]
  constructor
  · rintro ⟨k, lf, hlf, hline⟩
    exact ⟨lf, List.mem_of_getElem? hlf, hline⟩
  · rintro ⟨lf, hlf, hline⟩
    obtain ⟨k, hk⟩ := List.mem_iff_getElem?.mp hlf
    exact ⟨k, lf, hk, hline⟩

theorem brList_get (t0 i : Int) :
    (brList t0 (readLogs lfs)).get i = (readLogs lfs).get (t0 + i) := by
  have hinj : Function.Injective fun t : Int => t - t0 := fun a b h => by
    simpa using h
  have hmap := MultiMap.get_map hinj (sortRates (readLogs lfs)) (t0 + i)
  rw [← MultiMap.get_perm (valid_readLogs lfs) (perm_sortRates _)] at hmap
  simpa [brList] using hmap

/-- The rate of a stream in the list is that of its first line of the second. -/
theorem valueFor_brList (t0 i : Int) (k : Nat) : valueFor k ((brList t0 (readLogs lfs)).get i) =
    (firstLine lfs k (t0 + i)).map LogLine.br := by
  rw [brList_get, valueFor_readLogs]

theorem valid_brList (t0 : Int) (lfs : List (List LogLine)) : (brList t0 (readLogs lfs)).Valid := by
  have h := valid_sortRates lfs
  constructor
  · have hkeys : (brList t0 (readLogs lfs)).keys = (sortRates (readLogs lfs)).keys.map (· - t0) := by
      simp [brList, MultiMap.keys]
    rw [hkeys]
    exact h.nodup.map fun a b hab => by simpa using hab
  · intro p hp
    obtain ⟨q, hq, rfl⟩ := List.mem_map.mp hp
    exact h.nonempty q hq

/-- The least second of the logs is the first of the list. -/
theorem head_sortRates (hlines : ∃ lf ∈ lfs, lf ≠ []) : ∃ t0 l,
    (sortRates (readLogs lfs)).head? = some (t0, l) ∧
    IsLeast {t | ∃ lf ∈ lfs, ∃ line ∈ lf, line.t = t} t0 := by
  have hkeys : ∀ t, t ∈ (sortRates (readLogs lfs)).keys ↔ ∃ lf ∈ lfs, ∃ line ∈ lf, line.t = t :=
    fun t => ((perm_sortRates _).map Prod.fst).mem_iff.symm.trans mem_keys_readLogs
  have hsorted := sorted_sortRates (readLogs lfs)
  cases hlist : sortRates (readLogs lfs) with
  | nil =>
    obtain ⟨lf, hlf, hne⟩ := hlines
    obtain ⟨line, lf', rfl⟩ := List.exists_cons_of_ne_nil hne
    have hmem := (hkeys line.t).mpr ⟨_, hlf, line, List.mem_cons_self, rfl⟩
    rw [hlist] at hmem
    cases hmem
  | cons p rest =>
    obtain ⟨t0, l⟩ := p
    rw [hlist] at hkeys hsorted
    refine ⟨t0, l, rfl, (hkeys t0).mp List.mem_cons_self, fun t ht => ?_⟩
    rcases List.mem_cons.mp ((hkeys t).mpr ht) with rfl | hmem
    · exact Int.le_refl _
    · obtain ⟨q, hq, rfl⟩ := List.mem_map.mp hmem
      exact (List.pairwise_cons.mp hsorted).1 q hq

end brList

/-! ## The first and the last second of a stream -/

/-- The streams in the list, with the seconds they are in. -/
def seen (BR_list : Rates) : List (Nat × Int) := BR_list.flatMap fun l => l.2.map fun e => (e.1, l.1)

def Spans.ofSeen (pairs : List (Nat × Int)) : Spans :=
  pairs.foldl (fun s p => s.see p.1 p.2) ⟨[], fun _ => none⟩

theorem spans_eq (BR_list : Rates) : spans BR_list = .ofSeen (seen BR_list) := by
  unfold spans Spans.ofSeen seen
  rw [List.foldl_flatMap]
  simp only [List.foldl_map]

theorem Spans.ofSeen_concat (pairs : List (Nat × Int)) (p : Nat × Int) :
    ofSeen (pairs ++ [p]) = (ofSeen pairs).see p.1 p.2 := by
  simp [ofSeen]

theorem valueFor_cons (k n : Nat) (t : Int) (l : List (Nat × Int)) :
    valueFor k ((n, t) :: l) = if n = k then some t else valueFor k l := by
  unfold valueFor
  by_cases h : n = k <;> simp [h]

theorem isSome_valueFor {k : Nat} {l : List (Nat × Int)} :
    (valueFor k l).isSome = true ↔ k ∈ l.map Prod.fst := by
  simp [valueFor]

/-- `start` and `end` have the first and the last second of each stream. -/
theorem Spans.ofSeen_spec (pairs : List (Nat × Int)) :
    (∀ k, valueFor k (ofSeen pairs).start = valueFor k pairs) ∧
    (∀ k, (ofSeen pairs).finish k = valueFor k pairs.reverse) ∧
    ((ofSeen pairs).start.map Prod.fst).Nodup := by
  induction pairs using List.reverseRecOn with
  | nil => exact ⟨fun _ => rfl, fun _ => rfl, List.nodup_nil⟩
  | append_singleton pairs p ih =>
    obtain ⟨hstart, hfinish, hnodup⟩ := ih
    obtain ⟨n, t⟩ := p
    rw [ofSeen_concat, List.reverse_append, List.reverse_singleton, List.singleton_append]
    refine ⟨fun k => ?_, fun k => ?_, ?_⟩
    · rw [valueFor_append, see]
      split
      · rename_i hsome
        rw [hstart k]
        by_cases hk : n = k
        · subst hk
          rw [hstart n] at hsome
          obtain ⟨t', ht'⟩ := Option.isSome_iff_exists.mp hsome
          rw [ht']
          rfl
        · rw [if_neg hk, Option.or_none]
      · rw [valueFor_append, hstart k]
    · rw [valueFor_cons, ← hfinish k]
      change Function.update (ofSeen pairs).finish n (some t) k = _
      rw [Function.update_apply]
      simp only [eq_comm]
    · rw [see]
      split
      · exact hnodup
      · rename_i hnone
        rw [isSome_valueFor] at hnone
        rw [List.map_append, List.nodup_append]
        refine ⟨hnodup, List.nodup_singleton n, fun a ha b hb hab => hnone ?_⟩
        rw [← List.mem_singleton.mp hb, ← hab]
        exact ha

/-- In a sorted list the first value for `k` is in front of all others. -/
theorem valueFor_sorted {r : Int → Int → Prop} (hrefl : ∀ t, r t t) {k : Nat} {t : Int}
    {pairs : List (Nat × Int)} (hsorted : pairs.Pairwise fun p q => r p.2 q.2)
    (h : valueFor k pairs = some t) : (k, t) ∈ pairs ∧ ∀ t', (k, t') ∈ pairs → r t t' := by
  induction pairs with
  | nil => cases h
  | cons p pairs ih =>
    obtain ⟨n, t₁⟩ := p
    obtain ⟨hfirst, hsorted⟩ := List.pairwise_cons.mp hsorted
    rw [valueFor_cons] at h
    split at h
    · rename_i hk
      cases h
      subst hk
      refine ⟨List.mem_cons_self, fun t' ht' => ?_⟩
      rcases List.mem_cons.mp ht' with heq | hmem
      · rw [show t' = t from congrArg Prod.snd heq]
        exact hrefl t
      · exact hfirst _ hmem
    · rename_i hk
      obtain ⟨hmem, hle⟩ := ih hsorted h
      refine ⟨List.mem_cons_of_mem _ hmem, fun t' ht' => ?_⟩
      rcases List.mem_cons.mp ht' with heq | hmem
      · exact absurd (congrArg Prod.fst heq).symm hk
      · exact hle t' hmem

section seen
variable {lfs : List (List LogLine)} {t0 : Int}

theorem mem_seen {k : Nat} {t : Int} : (k, t) ∈ seen (brList t0 (readLogs lfs)) ↔
    ∃ lf, lfs[k]? = some lf ∧ ∃ line ∈ lf, line.t = t0 + t := by
  have hvalid := valid_brList t0 lfs
  rw [← isSome_firstLine, ← Option.isSome_map (f := LogLine.br), ← valueFor_brList, isSome_valueFor]
  constructor
  · intro h
    obtain ⟨l, hl, hp⟩ := List.mem_flatMap.mp h
    obtain ⟨e, he, heq⟩ := List.mem_map.mp hp
    obtain ⟨rfl, rfl⟩ := Prod.mk.inj heq
    rw [hvalid.get_of_mem hl]
    exact List.mem_map_of_mem he
  · intro h
    obtain ⟨e, he, rfl⟩ := List.mem_map.mp h
    have hkey : t ∈ (brList t0 (readLogs lfs)).keys :=
      hvalid.mem_keys.mpr (List.ne_nil_of_mem he)
    obtain ⟨l, hl, rfl⟩ := List.mem_map.mp hkey
    rw [hvalid.get_of_mem hl] at he
    exact List.mem_flatMap.mpr ⟨l, hl, List.mem_map.mpr ⟨e, he, rfl⟩⟩

theorem sorted_seen (t0 : Int) (lfs : List (List LogLine)) :
    (seen (brList t0 (readLogs lfs))).Pairwise fun p q => p.2 ≤ q.2 := by
  have hsorted : (brList t0 (readLogs lfs)).Pairwise fun a b => a.1 ≤ b.1 := by
    refine List.pairwise_map.mpr ((sorted_sortRates _).imp ?_)
    intro a b hab
    simpa using hab
  unfold seen
  rw [List.pairwise_flatMap]
  refine ⟨fun l _ => ?_, hsorted.imp fun {a b} hab p hp q hq => ?_⟩
  · exact List.pairwise_map.mpr (List.pairwise_of_forall fun _ _ => Int.le_refl _)
  · obtain ⟨_, _, rfl⟩ := List.mem_map.mp hp
    obtain ⟨_, _, rfl⟩ := List.mem_map.mp hq
    exact hab

/-- The seconds of a log, from `t0` on. -/
def secondsOf (t0 : Int) (lf : List LogLine) : Set Int := {t | ∃ line ∈ lf, line.t = t0 + t}

theorem mem_seen_iff {k : Nat} {lf : List LogLine} (hlf : lfs[k]? = some lf) {t : Int} :
    (k, t) ∈ seen (brList t0 (readLogs lfs)) ↔ t ∈ secondsOf t0 lf := by
  rw [mem_seen, hlf]
  constructor
  · rintro ⟨_, heq, hline⟩
    cases heq
    exact hline
  · exact fun hline => ⟨lf, rfl, hline⟩

/-- The first and the last second of a stream. -/
theorem spans_spec (t0 : Int) {k : Nat} {lf : List LogLine} (hlf : lfs[k]? = some lf) (hne : lf ≠ []) :
    IsLeast (secondsOf t0 lf) ((spans (brList t0 (readLogs lfs))).startAt k) ∧
    (spans (brList t0 (readLogs lfs))).finish k =
      some ((spans (brList t0 (readLogs lfs))).endAt k) ∧
    IsGreatest (secondsOf t0 lf) ((spans (brList t0 (readLogs lfs))).endAt k) := by
  obtain ⟨line, lf', rfl⟩ := List.exists_cons_of_ne_nil hne
  have hseen : (k, line.t - t0) ∈ seen (brList t0 (readLogs lfs)) :=
    (mem_seen_iff hlf).mpr ⟨line, List.mem_cons_self, by omega⟩
  obtain ⟨hstart, hfinish, -⟩ := Spans.ofSeen_spec (seen (brList t0 (readLogs lfs)))
  rw [spans_eq]
  unfold Spans.startAt Spans.endAt
  rw [hstart k, hfinish k]
  have hfirst : (valueFor k (seen (brList t0 (readLogs lfs)))).isSome = true :=
    isSome_valueFor.mpr (List.mem_map_of_mem hseen)
  have hlast : (valueFor k (seen (brList t0 (readLogs lfs))).reverse).isSome = true :=
    isSome_valueFor.mpr (List.mem_map_of_mem (List.mem_reverse.mpr hseen))
  obtain ⟨first, hfirst⟩ := Option.isSome_iff_exists.mp hfirst
  obtain ⟨last, hlast⟩ := Option.isSome_iff_exists.mp hlast
  have hsorted := sorted_seen t0 lfs
  obtain ⟨hfirstMem, hle⟩ := valueFor_sorted (r := (· ≤ ·)) Int.le_refl hsorted hfirst
  obtain ⟨hlastMem, hge⟩ := valueFor_sorted (r := (· ≥ ·)) Int.le_refl
    (List.pairwise_reverse.mpr hsorted) hlast
  rw [hfirst, hlast]
  refine ⟨⟨(mem_seen_iff hlf).mp hfirstMem, fun t ht => hle t ((mem_seen_iff hlf).mpr ht)⟩, rfl,
    (mem_seen_iff hlf).mp (List.mem_reverse.mp hlastMem), fun t ht => ?_⟩
  exact hge t (List.mem_reverse.mpr ((mem_seen_iff hlf).mpr ht))

/-- Every log with a line has its stream. -/
theorem start_perm (t0 : Int) (hne : ∀ lf ∈ lfs, lf ≠ []) :
    ((spans (brList t0 (readLogs lfs))).start.map Prod.fst).Perm (List.range lfs.length) := by
  obtain ⟨hstart, -, hnodup⟩ := Spans.ofSeen_spec (seen (brList t0 (readLogs lfs)))
  rw [spans_eq]
  refine (List.perm_ext_iff_of_nodup hnodup List.nodup_range).mpr fun k => ?_
  rw [← isSome_valueFor, hstart k, isSome_valueFor, List.mem_range]
  constructor
  · intro hk
    obtain ⟨⟨_, t⟩, hp, rfl⟩ := List.mem_map.mp hk
    obtain ⟨lf, hlf, -⟩ := mem_seen.mp hp
    exact (List.getElem?_eq_some_iff.mp hlf).1
  · intro hk
    have hlf : lfs[k]? = some lfs[k] := List.getElem?_eq_getElem hk
    obtain ⟨line, rest, hcons⟩ := List.exists_cons_of_ne_nil (hne _ (List.getElem_mem hk))
    have hmem : line.t - t0 ∈ secondsOf t0 lfs[k] := by
      rw [hcons]
      exact ⟨line, List.mem_cons_self, by omega⟩
    exact List.mem_map_of_mem ((mem_seen_iff hlf).mpr hmem)

/-- `max(end.values())` is the last second of all. -/
theorem last_spec (t0 : Int) (hne : ∀ lf ∈ lfs, lf ≠ []) (hlogs : lfs ≠ []) :
    ∃ last, (spans (brList t0 (readLogs lfs))).last = some last ∧
      IsGreatest {t | ∃ lf ∈ lfs, t ∈ secondsOf t0 lf} last := by
  have hperm := start_perm t0 hne
  have hspec : ∀ {k lf}, lfs[k]? = some lf → _ := fun {k lf} hlf =>
    (spans_spec t0 hlf (hne lf (List.mem_of_getElem? hlf))).2
  have hends : ∀ {e}, e ∈ (spans (brList t0 (readLogs lfs))).start.filterMap
      (fun p => (spans (brList t0 (readLogs lfs))).finish p.1) ↔
      ∃ k lf, lfs[k]? = some lf ∧ (spans (brList t0 (readLogs lfs))).endAt k = e := by
    intro e
    constructor
    · intro he
      obtain ⟨p, hp, hfinish⟩ := List.mem_filterMap.mp he
      have hk := List.mem_range.mp (hperm.mem_iff.mp (List.mem_map_of_mem hp))
      have hlf : lfs[p.1]? = some lfs[p.1] := List.getElem?_eq_getElem hk
      refine ⟨p.1, lfs[p.1], hlf, ?_⟩
      rw [(hspec hlf).1, Option.some.injEq] at hfinish
      exact hfinish
    · rintro ⟨k, lf, hlf, rfl⟩
      have hk := List.mem_range.mpr (List.getElem?_eq_some_iff.mp hlf).1
      obtain ⟨p, hp, rfl⟩ := List.mem_map.mp (hperm.mem_iff.mpr hk)
      exact List.mem_filterMap.mpr ⟨p, hp, (hspec hlf).1⟩
  obtain ⟨lf₀, rest, hcons⟩ := List.exists_cons_of_ne_nil hlogs
  have hfirst : lfs[0]? = some lf₀ := by rw [hcons]; rfl
  cases hlast : (spans (brList t0 (readLogs lfs))).last with
  | none =>
    have hmem := hends.mpr ⟨0, lf₀, hfirst, rfl⟩
    rw [List.max?_eq_none_iff.mp hlast] at hmem
    cases hmem
  | some last =>
    obtain ⟨hmem, hle⟩ := List.max?_eq_some_iff.mp hlast
    refine ⟨last, rfl, ?_, fun t ⟨lf, hlf, ht⟩ => ?_⟩
    · obtain ⟨k, lf, hlf, rfl⟩ := hends.mp hmem
      exact ⟨lf, List.mem_of_getElem? hlf, (hspec hlf).2.1⟩
    · obtain ⟨k, hk⟩ := List.mem_iff_getElem?.mp hlf
      exact Int.le_trans ((hspec hk).2.2 ht) (hle _ (hends.mpr ⟨k, lf, hk, rfl⟩))

end seen

/-! ## The rates in the plot -/

/-- `line` is the first one of the latest second up to `s`. -/
structure LatestLine (lf : List LogLine) (s : Int) (line : LogLine) : Prop where
  first : lf.find? (·.t = line.t) = some line
  upTo : line.t ≤ s
  latest : ∀ line' ∈ lf, line'.t ≤ s → line'.t ≤ line.t

/-- The rate `br` in second `s`: 0 in front of the log and behind it, and otherwise that of the latest
line. -/
def Shows (lf : List LogLine) (s br : Int) : Prop :=
  (((∀ line ∈ lf, s < line.t) ∨ ∀ line ∈ lf, line.t < s) ∧ br = 0) ∨
  (∃ line ∈ lf, s ≤ line.t) ∧ ∃ line, LatestLine lf s line ∧ br = line.br

section plot
variable {lfs : List (List LogLine)} {t0 : Int}

/-- One second of a stream. -/
theorem brCell_shows {k : Nat} {lf : List LogLine} (hlf : lfs[k]? = some lf) (hne : lf ≠ []) (i : Nat)
    {before : Int} (hbefore : (spans (brList t0 (readLogs lfs))).startAt k < i →
      (i : Int) ≤ (spans (brList t0 (readLogs lfs))).endAt k →
      ∃ line, LatestLine lf (t0 + i - 1) line ∧ before = line.br) :
    Shows lf (t0 + i)
      (brCell (brList t0 (readLogs lfs)) (spans (brList t0 (readLogs lfs))) k before i) := by
  obtain ⟨⟨hfirst, hleast⟩, -, hlast, hgreatest⟩ := spans_spec t0 hlf hne
  have hmem : ∀ line ∈ lf, line.t - t0 ∈ secondsOf t0 lf := fun line hline => ⟨line, hline, by omega⟩
  unfold brCell
  split
  · rename_i hout
    refine Or.inl ⟨hout.imp (fun h line hline => ?_) (fun h line hline => ?_), rfl⟩
    · have := hleast (hmem line hline)
      omega
    · have := hgreatest (hmem line hline)
      omega
  · rename_i hin
    rw [not_or, Int.not_lt, Int.not_lt] at hin
    obtain ⟨lastLine, hlastMem, hlastT⟩ := hlast
    refine Or.inr ⟨⟨lastLine, hlastMem, by omega⟩, ?_⟩
    rw [valueFor_brList, firstLine, hlf, Option.bind_some]
    cases hfind : lf.find? (·.t = t0 + i) with
    | some line =>
      have ht : line.t = t0 + i := by simpa using List.find?_some hfind
      exact ⟨line, ⟨ht ▸ hfind, by omega, fun line' _ hle => by omega⟩, rfl⟩
    | none =>
      have hno : ∀ line ∈ lf, line.t ≠ t0 + i := by simpa using List.find?_eq_none.mp hfind
      have hstart : (spans (brList t0 (readLogs lfs))).startAt k < i := by
        obtain ⟨line, hline, ht⟩ := hfirst
        have := hno line hline
        omega
      obtain ⟨line, hlatest, hbr⟩ := hbefore hstart hin.2
      refine ⟨line, ⟨hlatest.first, by have := hlatest.upTo; omega, fun line' hline' hle => ?_⟩, hbr⟩
      have := hno line' hline'
      exact hlatest.latest line' hline' (by omega)

theorem brY_shows (t0 : Int) {k : Nat} {lf : List LogLine} (hlf : lfs[k]? = some lf) (hne : lf ≠ [])
    (hpos : ∀ t ∈ secondsOf t0 lf, 0 ≤ t) (i : Nat) : Shows lf (t0 + i)
      (brY (brList t0 (readLogs lfs)) (spans (brList t0 (readLogs lfs))) k i) := by
  obtain ⟨⟨hfirst, -⟩, -, ⟨hlast, -⟩⟩ := spans_spec t0 hlf hne
  induction i with
  | zero =>
    refine brCell_shows hlf hne 0 fun hstart => ?_
    have := hpos _ hfirst
    exact absurd hstart (by omega)
  | succ i ih =>
    refine brCell_shows hlf hne (i + 1) fun hstart hend => ?_
    have hsecond : t0 + ((i + 1 : Nat) : Int) - 1 = t0 + i := by omega
    rw [hsecond]
    rcases ih with ⟨hout, -⟩ | ⟨-, hlatest⟩
    · exfalso
      rcases hout with hout | hout
      · obtain ⟨line, hline, ht⟩ := hfirst
        have := hout line hline
        omega
      · obtain ⟨line, hline, ht⟩ := hlast
        have := hout line hline
        omega
    · exact hlatest

/-- The seconds of all logs. -/
def allSeconds (lfs : List (List LogLine)) : Set Int := {t | ∃ lf ∈ lfs, ∃ line ∈ lf, line.t = t}

theorem brRows_eq (hne : ∀ lf ∈ lfs, lf ≠ []) (hlogs : lfs ≠ []) : ∃ t0 t1,
    IsLeast (allSeconds lfs) t0 ∧ IsGreatest (allSeconds lfs) t1 ∧
    brRows lfs = some (spans (brList t0 (readLogs lfs)),
      (List.range (t1 - t0 + 1).toNat).map fun i => (List.range lfs.length).map fun k =>
        brY (brList t0 (readLogs lfs)) (spans (brList t0 (readLogs lfs))) k i) := by
  obtain ⟨lf₀, rest, hcons⟩ := List.exists_cons_of_ne_nil hlogs
  have hmem : lf₀ ∈ lfs := hcons ▸ List.mem_cons_self
  obtain ⟨t0, l, hhead, hleast⟩ := head_sortRates ⟨lf₀, hmem, hne lf₀ hmem⟩
  obtain ⟨last, hlast, ⟨lf, hlf, line, hline, ht⟩, hgreatest⟩ := last_spec t0 hne hlogs
  have hlength : (spans (brList t0 (readLogs lfs))).start.length = lfs.length := by
    have h := (start_perm t0 hne).length_eq
    rwa [List.length_map, List.length_range] at h
  refine ⟨t0, t0 + last, hleast, ⟨⟨lf, hlf, line, hline, ht⟩, ?_⟩, ?_⟩
  · rintro t ⟨lf', hlf', line', hline', rfl⟩
    have := hgreatest ⟨lf', hlf', line', hline', (by omega : line'.t = t0 + (line'.t - t0))⟩
    omega
  · have hcount : t0 + last - t0 + 1 = last + 1 := by omega
    unfold brRows
    rw [hhead, hcount]
    simp only [Option.bind_eq_bind, Option.bind_some, hlast, hlength]
    rfl

end plot

theorem getElem?_map_range {α : Type} {f : Nat → α} {n i : Nat} {a : α} :
    ((List.range n).map f)[i]? = some a ↔ i < n ∧ f i = a := by
  simp [List.getElem?_eq_some_iff]

/-- **The rates**: for logs that all have a line, the plot has a row for every second from the first to
the last, with a rate for every stream, and that rate shows the second. -/
theorem brRows_shows {lfs : List (List LogLine)} (hlogs : lfs ≠ []) (hne : ∀ lf ∈ lfs, lf ≠ []) :
    ∃ t0 t1 s rows, brRows lfs = some (s, rows) ∧ IsLeast (allSeconds lfs) t0 ∧
      IsGreatest (allSeconds lfs) t1 ∧ (rows.length : Int) = t1 - t0 + 1 ∧
      ∀ (i : Nat) row, rows[i]? = some row → row.length = lfs.length ∧
        ∀ (k : Nat) lf br, lfs[k]? = some lf → row[k]? = some br → Shows lf (t0 + i) br := by
  obtain ⟨t0, t1, hleast, hgreatest, hrows⟩ := brRows_eq hne hlogs
  refine ⟨t0, t1, _, _, hrows, hleast, hgreatest, ?_, fun i row hrow => ?_⟩
  · have := hgreatest.2 hleast.1
    rw [List.length_map, List.length_range]
    omega
  · obtain ⟨-, rfl⟩ := getElem?_map_range.mp hrow
    refine ⟨by rw [List.length_map, List.length_range], fun k lf br hlf hbr => ?_⟩
    obtain ⟨-, rfl⟩ := getElem?_map_range.mp hbr
    have hmem := List.mem_of_getElem? hlf
    refine brY_shows t0 hlf (hne lf hmem) ?_ i
    rintro t ⟨line, hline, ht⟩
    have := hleast.2 ⟨lf, hmem, line, hline, ht⟩
    omega

/-- Two streams, of which the second starts later. -/
theorem brRows_shows_two :
    let lfs : List (List LogLine) := [[⟨3, 100⟩, ⟨6, 10⟩], [⟨4, 500⟩]]
    ∃ t0 t1 s rows, brRows lfs = some (s, rows) ∧ IsLeast (allSeconds lfs) t0 ∧
      IsGreatest (allSeconds lfs) t1 ∧ (rows.length : Int) = t1 - t0 + 1 ∧
      ∀ (i : Nat) row, rows[i]? = some row → row.length = lfs.length ∧
        ∀ (k : Nat) lf br, lfs[k]? = some lf → row[k]? = some br → Shows lf (t0 + i) br :=
  brRows_shows (by decide) (by decide)

/-! ## The fairness -/

theorem fairness_bounds {x y : Int} (hx : 0 ≤ x) (hy : 0 ≤ y) (hpos : 0 < x ∨ 0 < y) :
    ∃ q, fairness x y = some q ∧ 1 / 2 ≤ q ∧ q ≤ 1 := by
  have hsum : 0 < x * x + y * y := by
    rcases hpos with h | h <;> nlinarith
  have hden : (0 : ℚ) < (2 * (x * x + y * y) : Int) := by exact_mod_cast (by omega)
  refine ⟨_, if_neg (by omega), ?_, ?_⟩
  · rw [div_le_div_iff₀ (by norm_num) hden]
    exact_mod_cast (by nlinarith [mul_nonneg hx hy])
  · rw [div_le_one₀ hden]
    exact_mod_cast (by nlinarith [sq_nonneg (x - y)])

section Shows
variable {lf : List LogLine} {s br : Int} (hpos : ∀ line ∈ lf, 0 < line.br)
include hpos

theorem Shows.pos (h : Shows lf s br) (hbefore : ∃ line ∈ lf, line.t ≤ s)
    (hafter : ∃ line ∈ lf, s ≤ line.t) : 0 < br := by
  rcases h with ⟨hout | hout, -⟩ | ⟨-, line, hlatest, rfl⟩
  · obtain ⟨line, hline, hle⟩ := hbefore
    exact absurd (hout line hline) (by omega)
  · obtain ⟨line, hline, hle⟩ := hafter
    exact absurd (hout line hline) (by omega)
  · exact hpos line (List.mem_of_find?_eq_some hlatest.first)

theorem Shows.nonneg (h : Shows lf s br) : 0 ≤ br := by
  rcases h with ⟨-, rfl⟩ | ⟨-, line, hlatest, rfl⟩
  · exact Int.le_refl 0
  · exact (hpos line (List.mem_of_find?_eq_some hlatest.first)).le

end Shows

theorem mapM_of_forall {α β : Type} {f : α → Option β} {P : β → Prop} {l : List α}
    (h : ∀ a ∈ l, ∃ b, f a = some b ∧ P b) : ∃ bs, l.mapM f = some bs ∧ ∀ b ∈ bs, P b := by
  induction l with
  | nil => exact ⟨[], rfl, nofun⟩
  | cons a l ih =>
    obtain ⟨b, hb, hP⟩ := h a List.mem_cons_self
    obtain ⟨bs, hbs, hall⟩ := ih fun a ha => h a (List.mem_cons_of_mem _ ha)
    refine ⟨b :: bs, by simp [List.mapM_cons, hb, hbs], fun b' hb' => ?_⟩
    rcases List.mem_cons.mp hb' with rfl | hb'
    · exact hP
    · exact hall b' hb'

/-- **The fairness** of two streams with lines, all with positive rates, is defined in every second, and
between 1/2 and 1. -/
theorem fair_bounds {lf₀ lf₁ : List LogLine} (h₀ : lf₀ ≠ []) (h₁ : lf₁ ≠ [])
    (hpos₀ : ∀ line ∈ lf₀, 0 < line.br) (hpos₁ : ∀ line ∈ lf₁, 0 < line.br) :
    ∃ points, fair [lf₀, lf₁] = some points ∧ ∀ q ∈ points, 1 / 2 ≤ q ∧ q ≤ 1 := by
  have hne : ∀ lf ∈ [lf₀, lf₁], lf ≠ [] := by simp [h₀, h₁]
  obtain ⟨t0, t1, hleast, ⟨hlast, -⟩, hrows⟩ := brRows_eq hne (by simp)
  unfold fair
  rw [hrows]
  simp only [Option.bind_eq_bind, Option.bind_some]
  refine mapM_of_forall fun ⟨row, i⟩ hrow => ?_
  obtain ⟨hi, hrow⟩ : i < (t1 - t0 + 1).toNat ∧ _ = row :=
    getElem?_map_range.mp (List.mem_zipIdx_iff_getElem?.mp hrow)
  subst hrow
  change ∃ q, (if (i : Int) < (spans (brList t0 (readLogs [lf₀, lf₁]))).startAt 0 ∨
    (i : Int) < (spans (brList t0 (readLogs [lf₀, lf₁]))).startAt 1 then some 1
    else fairness (brY _ _ 0 i) (brY _ _ 1 i)) = some q ∧ _
  split
  · exact ⟨1, rfl, by norm_num, le_refl 1⟩
  rename_i hstarted
  rw [not_or, Int.not_lt, Int.not_lt] at hstarted
  have hshows : ∀ {k lf}, [lf₀, lf₁][k]? = some lf → _ := fun {k lf} hlf =>
    brY_shows t0 hlf (hne lf (List.mem_of_getElem? hlf)) (fun t ⟨line, hline, ht⟩ => by
      have := hleast.2 ⟨lf, List.mem_of_getElem? hlf, line, hline, ht⟩
      omega) i
  have hfirst : ∀ {k lf}, [lf₀, lf₁][k]? = some lf →
      (spans (brList t0 (readLogs [lf₀, lf₁]))).startAt k ≤ i → ∃ line ∈ lf, line.t ≤ t0 + i := by
    intro k lf hlf hle
    obtain ⟨⟨line, hline, ht⟩, -⟩ := (spans_spec t0 hlf (hne lf (List.mem_of_getElem? hlf))).1
    exact ⟨line, hline, by omega⟩
  have hx := hshows (k := 0) rfl
  have hy := hshows (k := 1) rfl
  refine fairness_bounds (hx.nonneg hpos₀) (hy.nonneg hpos₁) ?_
  -- the stream with the last line of all still runs
  obtain ⟨lf, hlf, line, hline, rfl⟩ := hlast
  rcases List.mem_pair.mp hlf with rfl | rfl
  · exact Or.inl (hx.pos hpos₀ (hfirst rfl hstarted.1) ⟨line, hline, by omega⟩)
  · exact Or.inr (hy.pos hpos₁ (hfirst rfl hstarted.2) ⟨line, hline, by omega⟩)

end VideoCdn
