import Mathlib.Data.Finset.Basic

/-!
# Owners of resources

Owners `κ` store resources `ν`; `live` are the resources that exist, and `base` those that exist
without an owner.

* `Owned` — what is stored is live and stored by one owner, and what is live and not in `base` is
  stored: nothing dangles, nothing is shared and nothing leaks.
* `Owned.release`, `Owned.acquire` — an owner gives up a resource that ends, or gets a new one.
-/

set_option autoImplicit false

namespace Ownership

variable {κ ν : Type} [DecidableEq ν]

structure Owned (base live : Finset ν) (stores : κ → ν → Prop) : Prop where
  isLive : ∀ {k r}, stores k r → r ∈ live
  once : ∀ {k k' r}, stores k r → stores k' r → k = k'
  stored : ∀ {r}, r ∈ live → r ∈ base ∨ ∃ k, stores k r

variable {base live : Finset ν} {stores stores' : κ → ν → Prop}

theorem Owned.release (h : Owned base live stores) {r : ν}
    (hrest : ∀ k r', stores' k r' ↔ stores k r' ∧ r' ≠ r) : Owned base (live.erase r) stores' := by
  refine ⟨fun {k r'} hs => ?_, fun {k k' r'} hs hs' => ?_, fun {r'} hlive => ?_⟩
  · obtain ⟨hs, hne⟩ := (hrest k r').mp hs
    exact Finset.mem_erase.mpr ⟨hne, h.isLive hs⟩
  · exact h.once ((hrest k r').mp hs).1 ((hrest k' r').mp hs').1
  · obtain ⟨hne, hlive⟩ := Finset.mem_erase.mp hlive
    exact (h.stored hlive).imp_right fun ⟨k, hs⟩ => ⟨k, (hrest k r').mpr ⟨hs, hne⟩⟩

theorem Owned.acquire (h : Owned base live stores) {k₀ : κ} {r : ν} (hnew : r ∉ live)
    (hmore : ∀ k r', stores' k r' ↔ stores k r' ∨ k = k₀ ∧ r' = r) :
    Owned base (insert r live) stores' := by
  refine ⟨fun {k r'} hs => ?_, fun {k k' r'} hs hs' => ?_, fun {r'} hlive => ?_⟩
  · rcases (hmore k r').mp hs with hs | ⟨-, rfl⟩
    · exact Finset.mem_insert_of_mem (h.isLive hs)
    · exact Finset.mem_insert_self r' live
  · rcases (hmore k r').mp hs with hs | ⟨rfl, rfl⟩ <;>
      rcases (hmore k' r').mp hs' with hs' | ⟨rfl, hr⟩
    · exact h.once hs hs'
    · exact absurd (hr ▸ h.isLive hs) hnew
    · exact absurd (h.isLive hs') hnew
    · rfl
  · rcases Finset.mem_insert.mp hlive with rfl | hlive
    · exact Or.inr ⟨k₀, (hmore k₀ r').mpr (Or.inr ⟨rfl, rfl⟩)⟩
    · exact (h.stored hlive).imp_right fun ⟨k, hs⟩ => ⟨k, (hmore k r').mpr (Or.inl hs)⟩

end Ownership
