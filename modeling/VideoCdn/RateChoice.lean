import VideoCdn.Isolation
import VideoCdn.ChunkQueue
import VideoCdn.Lib.FirstMin

/-!
# The choice of a rate (`update_bitrate` of `src/bitrate.c`)

The search goes from the highest rate down; where it finds none, `rate` keeps its first value, 100.

* `BestRate` — what the choice is for: the highest rate of the table that the estimate affords, and
  the lowest where it affords none.  `BestRate.mono`: faster estimates get no lower rate.
* `bestRate_selectRate_iff` — the estimates for which the code chooses it.
* `bestRate_iff` — the same for a call, and the pairs of estimates whose rates are in order.
* `selectRate_slow` — an estimate of 14 gets a higher rate than one of 20.
-/

set_option autoImplicit false

namespace VideoCdn

open CLib

/-- The estimate is at least half as much again as the rate. -/
def Affords (estimate : ℚ) (rate : Nat) : Prop := (rate : ℚ) * (3 / 2) ≤ estimate

structure BestRate (estimate : ℚ) (rate : Nat) : Prop where
  listed : rate ∈ rateGet
  highest : ∀ r ∈ rateGet, Affords estimate r → Affords estimate rate ∧ r ≤ rate
  lowest : (∀ r ∈ rateGet, ¬ Affords estimate r) → ∀ r ∈ rateGet, rate ≤ r

theorem Affords.mono {t₁ t₂ : ℚ} {rate : Nat} (h : Affords t₁ rate) (hle : t₁ ≤ t₂) :
    Affords t₂ rate := le_trans h hle

/-- **The intended choice is monotone.** -/
theorem BestRate.mono {t₁ t₂ : ℚ} {r₁ r₂ : Nat} (h₁ : BestRate t₁ r₁) (h₂ : BestRate t₂ r₂)
    (hle : t₁ ≤ t₂) : r₁ ≤ r₂ := by
  by_cases hnone : ∀ r ∈ rateGet, ¬ Affords t₁ r
  · exact h₁.lowest hnone r₂ h₂.listed
  · push Not at hnone
    obtain ⟨r, hr, hafford⟩ := hnone
    have hafford₁ := (h₁.highest r hr hafford).1
    exact (h₂.highest r₁ h₁.listed (hafford₁.mono hle)).2

/-- An estimate that affords some rate affords the lowest. -/
theorem exists_affords_iff (t : ℚ) : (∃ r ∈ rateGet, Affords t r) ↔ 15 ≤ t := by
  constructor
  · rintro ⟨r, hr, hafford⟩
    have hten : (10 : ℚ) ≤ r := by exact_mod_cast (by decide : ∀ r ∈ rateGet, 10 ≤ r) r hr
    unfold Affords at hafford
    linarith
  · intro hle
    refine ⟨10, by decide, ?_⟩
    unfold Affords
    norm_num
    exact hle

/-- Below 15 the search finds nothing. -/
theorem selectRate_of_slow {t : ℚ} (h : t < 15) : selectRate t = 100 := by
  have hnone : rateGet.reverse.find? (fun r : Nat => decide ((r : ℚ) * (3 / 2) ≤ t)) = none := by
    rw [List.find?_eq_none]
    intro r hr
    have hno : ¬ Affords t r := fun hafford =>
      not_lt.mpr ((exists_affords_iff t).mp ⟨r, List.mem_reverse.mp hr, hafford⟩) h
    simpa [Affords] using hno
  unfold selectRate
  rw [hnone]
  rfl

/-- **The code's choice** is the intended one from 15 on. -/
theorem bestRate_selectRate_iff (t : ℚ) : BestRate t (selectRate t) ↔ 15 ≤ t := by
  constructor
  · intro h
    by_contra hslow
    have hno : ∀ r ∈ rateGet, ¬ Affords t r := fun r hr hafford =>
      hslow ((exists_affords_iff t).mp ⟨r, hr, hafford⟩)
    have hten := h.lowest hno 10 (by decide)
    rw [selectRate_of_slow (not_le.mp hslow)] at hten
    omega
  · intro hok
    obtain ⟨r₀, hr₀, hafford₀⟩ := (exists_affords_iff t).mpr hok
    refine ⟨selectRate_mem t, fun r hr hafford => ?_, fun hno => absurd hafford₀ (hno r₀ hr₀)⟩
    unfold selectRate
    cases hfind : rateGet.reverse.find? (fun r : Nat => decide ((r : ℚ) * (3 / 2) ≤ t)) with
    | none =>
      have := List.find?_eq_none.mp hfind r (List.mem_reverse.mpr hr)
      exact absurd hafford (by simpa [Affords] using this)
    | some best =>
      obtain ⟨hbest, hgreatest⟩ := Scan.find?_reverse_greatest (by decide) hfind
      have hbest : Affords t best := by simpa [Affords] using hbest
      exact ⟨hbest, hgreatest r hr (by simpa [Affords] using hafford)⟩

/-- The rates of two estimates are in order unless only the slower one is below 15, and the faster
one does not reach the rate that it gets. -/
theorem selectRate_le_iff {t₁ t₂ : ℚ} (hle : t₁ ≤ t₂) :
    selectRate t₁ ≤ selectRate t₂ ↔ 15 ≤ t₁ ∨ t₂ < 15 ∨ 150 ≤ t₂ := by
  by_cases hok : 15 ≤ t₁
  · have h₁ := (bestRate_selectRate_iff t₁).mpr hok
    have h₂ := (bestRate_selectRate_iff t₂).mpr (hok.trans hle)
    exact iff_of_true (h₁.mono h₂ hle) (Or.inl hok)
  · rw [selectRate_of_slow (not_le.mp hok)]
    simp only [hok, false_or]
    by_cases hslow : t₂ < 15
    · rw [selectRate_of_slow hslow]
      exact iff_of_true (Nat.le_refl 100) (Or.inl hslow)
    · have hten : 15 ≤ t₂ := not_lt.mp hslow
      simp only [hslow, false_or]
      by_cases hfair : 150 ≤ t₂
      · have hbest := (bestRate_selectRate_iff t₂).mpr hten
        have hafford : Affords t₂ 100 := by
          unfold Affords
          norm_num
          exact hfair
        exact iff_of_true (hbest.highest 100 (by decide) hafford).2 hfair
      · refine iff_of_false (fun hge => ?_) hfair
        have hbest := (bestRate_selectRate_iff t₂).mpr hten
        obtain ⟨r, hr, hafford⟩ := (exists_affords_iff t₂).mpr hten
        have hafford' := (hbest.highest r hr hafford).1
        have hcast : (100 : ℚ) ≤ selectRate t₂ := by exact_mod_cast hge
        unfold Affords at hafford'
        linarith

/-- **`update_bitrate`** takes the best rate from 15 on, two estimates get rates in their order
unless the first is below 15 and the second from 15 to below 150, and this rate is the one that is
stored in the tracker and written into the request. -/
theorem bestRate_iff {t₁ t₂ : ℚ} (hle : t₁ ≤ t₂) :
    (BestRate t₁ (selectRate t₁) ↔ 15 ≤ t₁) ∧
    (selectRate t₁ ≤ selectRate t₂ ↔ 15 ≤ t₁ ∨ t₂ < 15 ∨ 150 ≤ t₂) ∧
    ∀ {buffer buffer' : Bytes} {fd : Nat} {trackers trackers' : Trackers},
      updateBitrate buffer fd trackers = .ok (buffer', trackers') →
      (trackerOf fd trackers).throughput = t₁ →
      (trackerOf fd trackers').bitrate = selectRate t₁ ∧
        rewriteText (selectRate t₁) (cstr buffer) = .ok (cstr buffer') := by
  refine ⟨bestRate_selectRate_iff t₁, selectRate_le_iff hle, fun hupd ht => ?_⟩
  obtain ⟨tl, _, _, _, hs, -, hrewrite, -⟩ := updateBitrate_spec hupd
  rw [trackerOf_of_searchSeg hs] at ht
  rw [updateBitrate_bitrate hupd, trackerOf_of_searchSeg hs, ht]
  rw [ht] at hrewrite
  exact ⟨rfl, cstr_rewriteRequest hrewrite⟩

/-- Estimates that the table covers. -/
theorem bestRate_covered : BestRate 20 (selectRate 20) ∧ selectRate 20 ≤ selectRate 200 := by
  obtain ⟨hbest, hmono, -⟩ := @bestRate_iff 20 200 (by norm_num)
  exact ⟨hbest.mpr (by norm_num), hmono.mpr (Or.inl (by norm_num))⟩

/-- **A slow link gets a high rate**: 100 at 14, and 10 at 20. -/
theorem selectRate_slow : ¬ ((∀ t : ℚ, 0 ≤ t → BestRate t (selectRate t)) ∧
    ∀ t₁ t₂ : ℚ, 0 ≤ t₁ → t₁ ≤ t₂ → selectRate t₁ ≤ selectRate t₂) := by
  rintro ⟨-, hmono⟩
  have := hmono 14 20 (by norm_num) (by norm_num)
  rw [selectRate_le_iff (by norm_num)] at this
  norm_num at this

end VideoCdn
