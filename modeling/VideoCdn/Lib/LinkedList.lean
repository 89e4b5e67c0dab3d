import VideoCdn.Lib.Checked
import Mathlib.Data.List.Nodup
import Mathlib.Data.List.Perm.Subperm

/-!
# Linked lists on a heap

A heap is the list of the cells allocated so far, and the address of a cell is its position.  `malloc`
appends a cell, and an assignment through a pointer sets one.

* `Cell`, `load` — a cell with its `next` pointer, and reading one.
* `Chain h p l` — the cells from the pointer `p` on are those of `l`, which lists their addresses and
  values.  `Chain.unique`, `Chain.nodup`, `Chain.length_le` — there is one such list, no cell is met
  twice, and it has at most as many cells as the heap.
* `Chain.frame` — what is not on the way does not matter; `Chain.malloc`, `Chain.set_of_notMem`.
* `Chain.push`, `Chain.splice` — a new head, and a cell that is set.
* `seek`, `seek_chain` — the search for a value; `lastTwo`, `lastTwo_chain` — the walk to the end.
-/

set_option autoImplicit false

namespace LinkedList

open CLib

variable {α : Type}

structure Cell (α : Type) where
  val : α
  next : Option Nat
  deriving DecidableEq

abbrev Cells (α : Type) := List (Cell α)

def load (h : Cells α) (p : Nat) : Checked (Cell α) :=
  match h[p]? with
  | none => .error .outOfBounds
  | some c => .ok c

theorem load_eq_ok {h : Cells α} {p : Nat} {c : Cell α} : load h p = .ok c ↔ h[p]? = some c := by
  unfold load
  cases h[p]? <;> simp

/-- The addresses and values of the cells from a pointer to the end. -/
inductive Chain (h : Cells α) : Option Nat → List (Nat × α) → Prop where
  | nil : Chain h none []
  | cons {p : Nat} {c : Cell α} {l : List (Nat × α)} : h[p]? = some c → Chain h c.next l →
      Chain h (some p) ((p, c.val) :: l)

variable {h h' : Cells α} {p : Option Nat} {l : List (Nat × α)}

def addresses (l : List (Nat × α)) : List Nat := l.map Prod.fst

/-! ## There is one chain -/

theorem Chain.unique {l' : List (Nat × α)} (hc : Chain h p l) (hc' : Chain h p l') : l = l' := by
  induction hc generalizing l' with
  | nil =>
    cases hc'
    rfl
  | cons hget _ ih =>
    cases hc' with
    | cons hget' hrest' =>
      rw [hget, Option.some.injEq] at hget'
      subst hget'
      rw [ih hrest']

theorem Chain.eq_nil (hc : Chain h none l) : l = [] := by
  cases hc
  rfl

theorem Chain.eq_none (hc : Chain h p []) : p = none := by
  cases hc
  rfl

/-- The cells behind one on the way. -/
theorem Chain.suffix {l₁ l₂ : List (Nat × α)} {q : Nat} {a : α}
    (hc : Chain h p (l₁ ++ (q, a) :: l₂)) : ∃ next, h[q]? = some ⟨a, next⟩ ∧ Chain h next l₂ := by
  induction l₁ generalizing p with
  | nil =>
    cases hc with
    | cons hget hrest => exact ⟨_, hget, hrest⟩
  | cons x l₁ ih =>
    cases hc with
    | cons _ hrest => exact ih hrest

theorem Chain.getElem? {q : Nat} {a : α} (hc : Chain h p l) (hmem : (q, a) ∈ l) :
    ∃ next, h[q]? = some ⟨a, next⟩ := by
  obtain ⟨l₁, l₂, rfl⟩ := List.mem_iff_append.mp hmem
  obtain ⟨next, hget, -⟩ := hc.suffix
  exact ⟨next, hget⟩

theorem Chain.lt {q : Nat} (hc : Chain h p l) (hmem : q ∈ addresses l) : q < h.length := by
  obtain ⟨⟨q, a⟩, hqa, rfl⟩ := List.mem_map.mp hmem
  obtain ⟨next, hget⟩ := hc.getElem? hqa
  exact (List.getElem?_eq_some_iff.mp hget).1

/-- **No cell is met twice**: the chain from it would be a part of itself. -/
theorem Chain.nodup (hc : Chain h p l) : (addresses l).Nodup := by
  induction hc with
  | nil => exact List.nodup_nil
  | @cons p c l hget hrest ih =>
    refine List.nodup_cons.mpr ⟨?_, ih⟩
    intro hmem
    obtain ⟨⟨q, a⟩, hqa, hq⟩ := List.mem_map.mp hmem
    obtain ⟨l₁, l₂, rfl⟩ := List.mem_iff_append.mp hqa
    obtain ⟨next, hget', hrest'⟩ := hrest.suffix
    have hpq : p = q := hq.symm
    rw [← hpq, hget, Option.some.injEq] at hget'
    subst hget'
    have hsame := hrest.unique hrest'
    have hlen := congrArg List.length hsame
    simp at hlen
    omega

theorem Chain.length_le (hc : Chain h p l) : l.length ≤ h.length := by
  have hsub : addresses l ⊆ List.range h.length := by
    intro q hq
    exact List.mem_range.mpr (hc.lt hq)
  have hle := (hc.nodup.subperm hsub).length_le
  simpa [addresses] using hle

/-! ## Cells that are not on the way -/

theorem Chain.frame (hc : Chain h p l) (heq : ∀ q ∈ addresses l, h'[q]? = h[q]?) : Chain h' p l := by
  induction hc with
  | nil => exact .nil
  | @cons p c l hget hrest ih =>
    have hhead := heq p (by simp [addresses])
    refine .cons (hhead.trans hget) (ih (fun q hq => ?_))
    exact heq q (List.mem_cons_of_mem _ hq)

theorem Chain.malloc (hc : Chain h p l) (c : Cell α) : Chain (h ++ [c]) p l := by
  apply hc.frame
  intro q hq
  rw [List.getElem?_append_left (hc.lt hq)]

theorem Chain.set_of_notMem (hc : Chain h p l) {q : Nat} (hq : q ∉ addresses l) (c : Cell α) :
    Chain (h.set q c) p l := by
  apply hc.frame
  intro r hr
  have hne : q ≠ r := fun heq => hq (heq ▸ hr)
  rw [List.getElem?_set_ne hne]

/-! ## New cells and cells that are set -/

/-- A new cell in front. -/
theorem Chain.push (hc : Chain h p l) (a : α) :
    Chain (h ++ [⟨a, p⟩]) (some h.length) ((h.length, a) :: l) := by
  have hget : (h ++ [⟨a, p⟩])[h.length]? = some (⟨a, p⟩ : Cell α) := by simp
  exact .cons hget (hc.malloc _)

theorem addresses_append (l₁ l₂ : List (Nat × α)) :
    addresses (l₁ ++ l₂) = addresses l₁ ++ addresses l₂ := List.map_append

/-- **A cell that is set**: the cells in front of it stay, and those behind it are the ones from its
new pointer on. -/
theorem Chain.splice {l₁ l₂ l₂' : List (Nat × α)} {q : Nat} {a b : α} {n : Option Nat}
    (hc : Chain h p (l₁ ++ (q, a) :: l₂)) (hrest : Chain (h.set q ⟨b, n⟩) n l₂') :
    Chain (h.set q ⟨b, n⟩) p (l₁ ++ (q, b) :: l₂') := by
  induction l₁ generalizing p with
  | nil =>
    cases hc with
    | cons hget _ =>
      have hlt := (List.getElem?_eq_some_iff.mp hget).1
      have hset : (h.set q ⟨b, n⟩)[q]? = some ⟨b, n⟩ := by simp [hlt]
      exact .cons hset hrest
  | cons x l₁ ih =>
    have hnodup := hc.nodup
    cases hc with
    | @cons p c _ hget hrest' =>
      have hne : q ≠ p := by
        rintro rfl
        simp [addresses] at hnodup
      exact .cons (by rw [List.getElem?_set_ne hne, hget]) (ih hrest')

/-- A new value. -/
theorem Chain.set_val {l₁ l₂ : List (Nat × α)} {q : Nat} {a : α} {n : Option Nat}
    (hc : Chain h p (l₁ ++ (q, a) :: l₂)) (hget : h[q]? = some ⟨a, n⟩) (b : α) :
    Chain (h.set q ⟨b, n⟩) p (l₁ ++ (q, b) :: l₂) := by
  obtain ⟨next, hget', hrest⟩ := hc.suffix
  rw [hget, Option.some.injEq, Cell.mk.injEq] at hget'
  have hnodup := hc.nodup
  rw [addresses_append] at hnodup
  have hnot : q ∉ addresses l₂ := (List.nodup_cons.mp (List.nodup_append.mp hnodup).2.1).1
  rw [← hget'.2] at hrest
  exact hc.splice (hrest.set_of_notMem hnot _)

/-! ## Walks -/

/-- `for (node = p; node != NULL; node = node->next) if (f(node)) break`.  A walk that has not ended
after as many cells as `fuel` is on a cycle. -/
def seek (h : Cells α) (f : α → Bool) : Nat → Option Nat → Checked (Option Nat)
  | _, none => .ok none
  | 0, some _ => .error .outOfBounds
  | fuel + 1, some p => do
    let c ← load h p
    if f c.val then return some p else seek h f fuel c.next

/-- **The search** finds the first cell with such a value. -/
theorem seek_chain (f : α → Bool) {fuel : Nat} (hc : Chain h p l) (hfuel : l.length ≤ fuel) :
    seek h f fuel p = .ok ((l.find? (fun x => f x.2)).map Prod.fst) := by
  induction hc generalizing fuel with
  | nil =>
    unfold seek
    rfl
  | @cons p c l hget hrest ih =>
    cases fuel with
    | zero => simp at hfuel
    | succ fuel =>
      rw [seek, load_eq_ok.mpr hget, ok_bind, List.find?_cons]
      cases hf : f c.val with
      | true => rfl
      | false =>
        simp only [Bool.false_eq_true, if_false]
        exact ih (by simpa using hfuel)

/-- `for (node = p; node->next != NULL; node = node->next) prev = node`: the last two cells. -/
def lastTwo (h : Cells α) : Nat → Option Nat → Nat → Checked (Option Nat × Nat)
  | 0, _, _ => .error .outOfBounds
  | fuel + 1, prev, p => do
    let c ← load h p
    match c.next with
    | none => return (prev, p)
    | some next => lastTwo h fuel (some p) next

/-- **The walk** ends at the last cell. -/
theorem lastTwo_chain {l₁ : List (Nat × α)} {q : Nat} {a : α} {fuel : Nat} {prev : Option Nat} {s : Nat}
    (hc : Chain h (some s) (l₁ ++ [(q, a)])) (hfuel : l₁.length < fuel) :
    lastTwo h fuel prev s = .ok (((l₁.getLast?).map Prod.fst).or prev, q) := by
  induction l₁ generalizing fuel prev s with
  | nil =>
    cases hc with
    | @cons _ c _ hget hrest =>
      cases fuel with
      | zero => simp at hfuel
      | succ fuel =>
        rw [lastTwo, load_eq_ok.mpr hget, ok_bind, hrest.eq_none]
        rfl
  | cons x l₁ ih =>
    cases hc with
    | @cons _ c _ hget hrest =>
      cases fuel with
      | zero => simp at hfuel
      | succ fuel =>
        rw [lastTwo, load_eq_ok.mpr hget, ok_bind]
        cases hn : c.next with
        | none =>
          rw [hn] at hrest
          have hnil := hrest.eq_nil
          simp at hnil
        | some next =>
          rw [hn] at hrest
          dsimp only
          rw [ih hrest (by simpa using hfuel)]
          cases l₁ with
          | nil => rfl
          | cons y l₁ =>
            rw [List.getLast?_cons_cons]
            cases hlast : (y :: l₁).getLast? with
            | none => simp at hlast
            | some z => rfl

end LinkedList
