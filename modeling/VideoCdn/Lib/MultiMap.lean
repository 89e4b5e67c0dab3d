import Mathlib.Data.List.Nodup
import Mathlib.Data.List.Perm.Basic
import Mathlib.Tactic.Common

/-!
# Dictionaries of lists

A dictionary whose values are lists, in the order in which its keys came in.

* `MultiMap.get`, `MultiMap.append` — the list of a key, empty for one that never came, and one more
  value at its end.
* `MultiMap.Valid` — each key is there once, with at least one value; `append` keeps it.
* `MultiMap.get_perm`, `MultiMap.get_map` — the order of the entries does not matter, and what the keys
  are called does not either.
-/

set_option autoImplicit false

namespace CLib

abbrev MultiMap (κ ν : Type) := List (κ × List ν)

namespace MultiMap

variable {κ ν : Type}

def keys (m : MultiMap κ ν) : List κ := m.map Prod.fst

/-- Each key is there once, with at least one value. -/
structure Valid (m : MultiMap κ ν) : Prop where
  nodup : m.keys.Nodup
  nonempty : ∀ p ∈ m, p.2 ≠ []

theorem Valid.nil : Valid ([] : MultiMap κ ν) := ⟨List.nodup_nil, nofun⟩

theorem Valid.perm {m m' : MultiMap κ ν} (hm : m.Valid) (h : m.Perm m') : m'.Valid :=
  ⟨(h.map Prod.fst).nodup_iff.mp hm.nodup, fun p hp => hm.nonempty p (h.mem_iff.mpr hp)⟩

variable [DecidableEq κ]

def get (m : MultiMap κ ν) (k : κ) : List ν := ((m.find? (·.1 = k)).map Prod.snd).getD []

def append (k : κ) (v : ν) : MultiMap κ ν → MultiMap κ ν
  | [] => [(k, [v])]
  | (k', vs) :: m => if k' = k then (k', vs ++ [v]) :: m else (k', vs) :: append k v m

@[simp] theorem get_nil (k : κ) : get ([] : MultiMap κ ν) k = [] := rfl

theorem get_cons (k' : κ) (vs : List ν) (m : MultiMap κ ν) (k : κ) :
    get ((k', vs) :: m) k = if k' = k then vs else m.get k := by
  unfold get
  by_cases h : k' = k <;> simp [h]

theorem get_append (k : κ) (v : ν) (m : MultiMap κ ν) (k' : κ) :
    (append k v m).get k' = m.get k' ++ if k = k' then [v] else [] := by
  induction m with
  | nil =>
    rw [append, get_cons]
    by_cases h : k = k' <;> simp [h]
  | cons p m ih =>
    obtain ⟨k₁, vs⟩ := p
    unfold append
    by_cases h₁ : k₁ = k
    · rw [if_pos h₁, get_cons, get_cons, h₁]
      by_cases h : k = k' <;> simp [h]
    · rw [if_neg h₁, get_cons, get_cons, ih]
      by_cases h : k₁ = k'
      · have hk : k ≠ k' := fun hk => h₁ (h.trans hk.symm)
        simp [h, hk]
      · simp [h]

theorem keys_append (k : κ) (v : ν) (m : MultiMap κ ν) :
    (append k v m).keys = if k ∈ m.keys then m.keys else m.keys ++ [k] := by
  induction m with
  | nil => simp [append, keys]
  | cons p m ih =>
    obtain ⟨k₁, vs⟩ := p
    unfold append
    by_cases h₁ : k₁ = k
    · simp [h₁, keys]
    · have hne : k ≠ k₁ := Ne.symm h₁
      unfold keys at ih ⊢
      rw [if_neg h₁, List.map_cons, ih, List.map_cons]
      by_cases h : k ∈ m.map Prod.fst <;> simp [h, hne]

theorem mem_append {k : κ} {v : ν} {m : MultiMap κ ν} {p : κ × List ν} (h : p ∈ append k v m) :
    p ∈ m ∨ ∃ vs, p = (k, vs ++ [v]) := by
  induction m with
  | nil => exact Or.inr ⟨[], List.mem_singleton.mp h⟩
  | cons q m ih =>
    obtain ⟨k₁, vs⟩ := q
    unfold append at h
    split at h
    · rename_i h₁
      rcases List.mem_cons.mp h with rfl | h
      · exact Or.inr ⟨vs, by rw [h₁]⟩
      · exact Or.inl (List.mem_cons_of_mem _ h)
    · rcases List.mem_cons.mp h with rfl | h
      · exact Or.inl List.mem_cons_self
      · exact (ih h).imp_left (List.mem_cons_of_mem _)

theorem Valid.append {m : MultiMap κ ν} (hm : m.Valid) (k : κ) (v : ν) : (m.append k v).Valid := by
  constructor
  · rw [keys_append]
    split
    · exact hm.nodup
    · rename_i hk
      exact List.nodup_append.mpr ⟨hm.nodup, List.nodup_singleton k,
        fun a ha b hb hab => hk (by rw [← List.mem_singleton.mp hb, ← hab]; exact ha)⟩
  · intro p hp
    rcases mem_append hp with hp | ⟨vs, rfl⟩
    · exact hm.nonempty p hp
    · simp

theorem Valid.get_of_mem {m : MultiMap κ ν} (hm : m.Valid) {p : κ × List ν} (hp : p ∈ m) :
    m.get p.1 = p.2 := by
  induction m with
  | nil => cases hp
  | cons q m ih =>
    obtain ⟨k₁, vs⟩ := q
    have hnodup := List.nodup_cons.mp hm.nodup
    rw [get_cons]
    rcases List.mem_cons.mp hp with rfl | hp
    · rw [if_pos rfl]
    · have hne : k₁ ≠ p.1 := fun h => hnodup.1 (List.mem_map.mpr ⟨p, hp, h.symm⟩)
      rw [if_neg hne]
      exact ih ⟨hnodup.2, fun p hp => hm.nonempty p (List.mem_cons_of_mem _ hp)⟩ hp

theorem get_eq_nil {m : MultiMap κ ν} {k : κ} (hk : k ∉ m.keys) : m.get k = [] := by
  unfold get
  rw [List.find?_eq_none.mpr]
  · rfl
  · intro p hp h
    exact hk (List.mem_map.mpr ⟨p, hp, by simpa using h⟩)

/-- The keys are those whose list is not empty. -/
theorem Valid.mem_keys {m : MultiMap κ ν} (hm : m.Valid) {k : κ} : k ∈ m.keys ↔ m.get k ≠ [] := by
  constructor
  · intro hk
    obtain ⟨p, hp, rfl⟩ := List.mem_map.mp hk
    rw [hm.get_of_mem hp]
    exact hm.nonempty p hp
  · exact fun hne => by_contra fun hk => hne (get_eq_nil hk)

theorem get_perm {m m' : MultiMap κ ν} (hm : m.Valid) (h : m.Perm m') (k : κ) :
    m.get k = m'.get k := by
  by_cases hk : k ∈ m.keys
  · obtain ⟨p, hp, rfl⟩ := List.mem_map.mp hk
    rw [hm.get_of_mem hp, (hm.perm h).get_of_mem (h.mem_iff.mp hp)]
  · have hk' : k ∉ m'.keys := fun hmem => hk ((h.map Prod.fst).mem_iff.mpr hmem)
    rw [get_eq_nil hk, get_eq_nil hk']

/-- Renaming the keys. -/
theorem get_map {f : κ → κ} (hf : Function.Injective f) (m : MultiMap κ ν) (k : κ) :
    get (m.map fun p => (f p.1, p.2)) (f k) = m.get k := by
  induction m with
  | nil => rfl
  | cons p m ih =>
    obtain ⟨k₁, vs⟩ := p
    rw [List.map_cons, get_cons, get_cons, ih]
    simp only [hf.eq_iff]

end MultiMap

end CLib
