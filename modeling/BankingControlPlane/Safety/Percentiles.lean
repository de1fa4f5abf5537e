import BankingControlPlane.Data.Ranks
import BankingControlPlane.Evals.Metrics

/-!
# Percentiles

* `nearestRank` : the rank a fraction stands for, from the first to the last;
* `percentile_hasRank` : a percentile is the value of that rank;
* `percentile_nearest_rank` : so it is one of the values, at least that fraction of them are no greater and less are
  smaller, whatever their order, and it grows with the fraction;
* `latencyPercentile_observed`, `latencyPercentile_mono` : the same of the latencies of a run.
-/

namespace BankingControlPlane.Evals
open Ranks

variable {F : Type}

/-! ## Ranks -/

/-- The fraction of `n`, rounded up; neither below the first nor beyond the last. -/
def nearestRank (fraction : ℚ) (n : Nat) : Nat := min (max 1 ⌈fraction * n⌉₊) n

theorem nearestRank_mono {fraction larger : ℚ} (h : fraction ≤ larger) (n : Nat) :
    nearestRank fraction n ≤ nearestRank larger n := by
  have hceil : ⌈fraction * n⌉₊ ≤ ⌈larger * n⌉₊ := Nat.ceil_mono (mul_le_mul_of_nonneg_right h (Nat.cast_nonneg n))
  unfold nearestRank
  omega

theorem nearestRank_eq {fraction : ℚ} (hpos : 0 < fraction) (hone : fraction ≤ 1) {n : Nat} (hn : 0 < n) :
    nearestRank fraction n = ⌈fraction * n⌉₊ := by
  have hfirst : 0 < ⌈fraction * n⌉₊ := Nat.ceil_pos.mpr (mul_pos hpos (Nat.cast_pos.mpr hn))
  have hlast : ⌈fraction * n⌉₊ ≤ n := Nat.ceil_le.mpr (mul_le_of_le_one_left (Nat.cast_nonneg n) hone)
  unfold nearestRank
  omega

/-! ## Values -/

section Values
variable {values : List Int}

/-- **A percentile is the value of its rank.** -/
theorem percentile_hasRank (h : values ≠ []) (fraction : ℚ) :
    ∃ x, percentile values fraction = some x ∧ HasRank values (nearestRank fraction values.length) x := by
  have hlength : (values.mergeSort (· ≤ ·)).length = values.length := List.length_mergeSort values
  have hpos : 0 < values.length := List.length_pos_iff.mpr h
  -- the index of the source, in integers, is one less than the rank
  have hindex : (min (max 1 ⌈fraction * values.length⌉) (values.length : Int) - 1).toNat + 1 =
      nearestRank fraction values.length := by
    have hceil : ⌈fraction * values.length⌉.toNat = ⌈fraction * values.length⌉₊ := Int.ceil_toNat _
    unfold nearestRank
    omega
  have hplace : (min (max 1 ⌈fraction * values.length⌉) (values.length : Int) - 1).toNat <
      (values.mergeSort (· ≤ ·)).length := by
    rw [hlength]
    omega
  have hfound := List.getElem?_eq_getElem hplace
  refine ⟨_, ?_, hindex ▸ hasRank_mergeSort hfound⟩
  unfold percentile
  rw [if_neg h]
  dsimp only
  rw [hlength]
  exact hfound

theorem percentile_perm {shuffled : List Int} (h : shuffled.Perm values) (fraction : ℚ) :
    percentile shuffled fraction = percentile values fraction := by
  by_cases hnil : values = []
  · rw [hnil] at h ⊢
    rw [h.eq_nil]
  · have hshuffled : shuffled ≠ [] := fun heq => hnil (List.perm_nil.mp (heq ▸ h.symm))
    obtain ⟨x, hx, hrank⟩ := percentile_hasRank hnil fraction
    obtain ⟨y, hy, hyrank⟩ := percentile_hasRank hshuffled fraction
    rw [h.length_eq] at hyrank
    rw [hx, hy, hrank.unique (hyrank.perm h)]

theorem percentile_mono {fraction larger : ℚ} (h : fraction ≤ larger) {x : Int}
    (hx : percentile values fraction = some x) : ∃ y, percentile values larger = some y ∧ x ≤ y := by
  have hvalues : values ≠ [] := by
    rintro rfl
    cases hx
  obtain ⟨x', hx', hrank⟩ := percentile_hasRank hvalues fraction
  obtain ⟨y, hy, hyrank⟩ := percentile_hasRank hvalues larger
  obtain rfl : x = x' := Option.some.inj (hx.symm.trans hx')
  exact ⟨y, hy, hrank.mono hyrank (nearestRank_mono h values.length)⟩

/-- **Nearest rank**, the product of the fraction and the length taken exactly. -/
theorem percentile_nearest_rank (h : values ≠ []) {fraction : ℚ} (hpos : 0 < fraction) (hone : fraction ≤ 1) :
    ∃ x, percentile values fraction = some x ∧ x ∈ values ∧
      fraction * values.length ≤ values.countP (· ≤ x) ∧ (values.countP (· < x) : ℚ) < fraction * values.length ∧
      (∀ shuffled : List Int, shuffled.Perm values → percentile shuffled fraction = some x) ∧
      ∀ larger : ℚ, fraction ≤ larger → larger ≤ 1 → ∃ y, percentile values larger = some y ∧ x ≤ y := by
  obtain ⟨x, hx, hrank⟩ := percentile_hasRank h fraction
  rw [nearestRank_eq hpos hone (List.length_pos_iff.mpr h)] at hrank
  refine ⟨x, hx, hrank.mem, Nat.ceil_le.mp hrank.reached, Nat.lt_ceil.mp hrank.first, ?_, ?_⟩
  · intro shuffled hperm
    rw [percentile_perm hperm, hx]
  · intro larger hlarger _
    exact percentile_mono hlarger hx

/-- The median of four. -/
theorem percentile_nearest_rank_median :
    ∃ x, percentile [30, 10, 20, 20] (1 / 2) = some x ∧ x ∈ ([30, 10, 20, 20] : List Int) ∧
      (1 / 2 : ℚ) * ([30, 10, 20, 20] : List Int).length ≤ ([30, 10, 20, 20] : List Int).countP (· ≤ x) ∧
      (([30, 10, 20, 20] : List Int).countP (· < x) : ℚ) < 1 / 2 * ([30, 10, 20, 20] : List Int).length ∧
      (∀ shuffled : List Int, shuffled.Perm [30, 10, 20, 20] → percentile shuffled (1 / 2) = some x) ∧
      ∀ larger : ℚ, 1 / 2 ≤ larger → larger ≤ 1 → ∃ y, percentile [30, 10, 20, 20] larger = some y ∧ x ≤ y :=
  percentile_nearest_rank (List.cons_ne_nil _ _) (by norm_num) (by norm_num)

end Values

/-! ## Latencies of a run -/

section Latencies
variable {outcomes : List (CaseOutcome F)}

theorem mem_of_mapM {α β : Type} {read : α → Option β} {xs : List α} {ys : List β} (h : xs.mapM read = some ys) :
    ∀ y ∈ ys, ∃ x ∈ xs, read x = some y := by
  induction xs generalizing ys with
  | nil =>
    obtain rfl := Option.some.inj h
    exact fun y hy => absurd hy List.not_mem_nil
  | cons x rest ih =>
    rw [List.mapM_cons] at h
    obtain ⟨first, hfirst, h⟩ := Option.bind_eq_some_iff.mp h
    obtain ⟨later, hlater, h⟩ := Option.bind_eq_some_iff.mp h
    obtain rfl := Option.some.inj h
    intro y hy
    rcases List.mem_cons.mp hy with rfl | hy
    · exact ⟨x, List.mem_cons_self, hfirst⟩
    · obtain ⟨x', hx', hread⟩ := ih hlater y hy
      exact ⟨x', List.mem_cons_of_mem _ hx', hread⟩

/-- A percentile is a latency that some turn had. -/
theorem latencyPercentile_observed {fraction : ℚ} {ns : Int} (h : latencyPercentile outcomes fraction = some ns) :
    ∃ obs ∈ outcomes.flatMap CaseOutcome.observations, obs.ns = .int ns := by
  obtain ⟨values, hvalues, hns⟩ := Option.bind_eq_some_iff.mp h
  have hne : values ≠ [] := by
    rintro rfl
    cases hns
  obtain ⟨x, hx, hrank⟩ := percentile_hasRank hne fraction
  obtain rfl : ns = x := Option.some.inj (hns.symm.trans hx)
  obtain ⟨latency, hlatency, hint⟩ := mem_of_mapM hvalues ns hrank.mem
  obtain ⟨obs, hobs, rfl⟩ := List.mem_map.mp (List.mem_of_mem_filter hlatency)
  refine ⟨obs, hobs, ?_⟩
  cases hvalue : obs.ns with
  | int i =>
    rw [hvalue] at hint
    rw [Option.some.inj hint]
  | null | bool b | float f | str s | arr items | obj fields =>
    rw [hvalue] at hint
    cases hint

theorem latencyPercentile_mono {fraction larger : ℚ} (h : fraction ≤ larger) {ns : Int}
    (hns : latencyPercentile outcomes fraction = some ns) :
    ∃ more, latencyPercentile outcomes larger = some more ∧ ns ≤ more := by
  obtain ⟨values, hvalues, hns⟩ := Option.bind_eq_some_iff.mp hns
  obtain ⟨more, hmore, hle⟩ := percentile_mono h hns
  exact ⟨more, Option.bind_eq_some_iff.mpr ⟨values, hvalues, hmore⟩, hle⟩

end Latencies

end BankingControlPlane.Evals
