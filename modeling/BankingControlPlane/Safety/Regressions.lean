import BankingControlPlane.Evals.Baseline
import Mathlib.Tactic.NormNum
import Mathlib.Tactic.Linarith

/-!
# Regressions point the right way

* `MetricName.better` : the direction in which a metric is better;
* `RightWay` : a metric is listed only if it got worse, and always if it got worse by more than its band or below its
  bar;
* `right_way_iff` : two runs are compared the right way exactly when every metric without a bar that is better lower
  stayed within its band.
-/

namespace BankingControlPlane.Evals

/-- The direction in which a metric is better. -/
def MetricName.better : MetricName → Direction
  | .casePassRate | .groundingRate | .guardRecall => .atLeast
  | .turnErrorRate | .omissionRate | .fabricationRate | .wrongPathRate | .falseBlockRate | .latencyP50Ns
  | .latencyP95Ns | .costPerTurnUsd => .atMost

/-- It got worse, going in the direction that is better. -/
def Worse (better : Direction) (previous value : ℚ) : Prop :=
  match better with
  | .atLeast => value < previous
  | .atMost => previous < value

/-- It moved by more than its band. -/
def Moved (name : MetricName) (previous value : ℚ) : Prop := |previous| * drift name < |value - previous|

/-- It fails its bar. -/
def Crossed (threshold : Option Threshold) (value : ℚ) : Prop := ∃ t, threshold = some t ∧ t.clears (some value) = false

/-- The metric is among the regressions. -/
def Listed (regressions : List Regression) (name : MetricName) : Prop := ∃ r ∈ regressions, r.metric = name

structure RightWay (regressions : List Regression) (threshold : Option Threshold) (name : MetricName)
    (previous value : ℚ) : Prop where
  only : Listed regressions name → Worse name.better previous value
  always : Worse name.better previous value → Moved name previous value ∨ Crossed threshold value →
    Listed regressions name

/-! ## One metric -/

section Metric
variable {m : Metric} {previous value : ℚ}

theorem clears_iff (hvalue : m.value = some value) : m.clears = false ↔ Crossed m.threshold value := by
  unfold Metric.clears Crossed
  cases m.threshold with
  | none => simp
  | some t => simp [hvalue]

/-- The metric is listed if it is worse by the direction of its bar, and has crossed its bar or moved. -/
theorem regression_isSome (hvalue : m.value = some value) : (m.regression (some previous)).isSome ↔
    Worse ((m.threshold.map Threshold.direction).getD .atLeast) previous value ∧
      (Crossed m.threshold value ∨ Moved m.name previous value) := by
  have hcrossed : (m.threshold.isSome && !m.clears) = true ↔ Crossed m.threshold value := by
    rw [← clears_iff hvalue]
    unfold Metric.clears
    cases m.threshold <;> simp
  have hworse : (match (m.threshold.map Threshold.direction).getD .atLeast with
      | .atLeast => decide (value < previous)
      | .atMost => decide (previous < value)) = true ↔
      Worse ((m.threshold.map Threshold.direction).getD .atLeast) previous value := by
    unfold Worse
    cases (m.threshold.map Threshold.direction).getD .atLeast <;> exact decide_eq_true_iff
  have hmoved : decide (|previous| * drift m.name < |value - previous|) = true ↔ Moved m.name previous value :=
    decide_eq_true_iff
  unfold Metric.regression
  rw [hvalue]
  dsimp only
  rw [← hworse, ← hcrossed, ← hmoved, ← Bool.or_eq_true, ← Bool.and_eq_true]
  split_ifs with h
  · exact iff_of_true rfl h
  · exact iff_of_false Bool.false_ne_true h

theorem regression_metric {before : Option ℚ} {r : Regression} (h : m.regression before = some r) :
    r.metric = m.name := by
  unfold Metric.regression at h
  split at h
  · dsimp only at h
    split_ifs at h
    exact congrArg Regression.metric (Option.some.inj h).symm
  · cases h

end Metric

/-! ## Two runs -/

section Runs
variable {version : String} {thresholds : MetricName → Option Threshold} {now before : Measured} {name : MetricName}

theorem mem_all (name : MetricName) : name ∈ MetricName.all := by
  cases name <;> decide

/-- What a recorded run has under a name is what it measured. -/
theorem find_metricsJson (name : MetricName) :
    ((computed version thresholds before).metricsJson.find? fun entry => entry.1 = name) =
      some (name, before.value name) := by
  cases name <;> rfl

/-- The metric of a run. -/
def metricOf (thresholds : MetricName → Option Threshold) (run : Measured) (name : MetricName) : Metric :=
  { name := name, value := run.value name, threshold := thresholds name, judged := run.judged name }

theorem listed_iff : Listed (compareToBaseline (computed version thresholds now)
      (computed version thresholds before).metricsJson version) name ↔
    ((metricOf thresholds now name).regression (before.value name)).isSome := by
  have hcompare : compareToBaseline (computed version thresholds now)
      (computed version thresholds before).metricsJson version =
      MetricName.all.filterMap fun name => (metricOf thresholds now name).regression (before.value name) := by
    unfold compareToBaseline
    rw [if_neg fun h => h rfl]
    show (MetricName.all.map (metricOf thresholds now)).filterMap _ = _
    rw [List.filterMap_map]
    refine congrArg (fun f => List.filterMap f MetricName.all) (funext fun name => ?_)
    dsimp only [Function.comp]
    rw [find_metricsJson]
    rfl
  unfold Listed
  rw [hcompare, Option.isSome_iff_exists]
  constructor
  · rintro ⟨r, hr, rfl⟩
    obtain ⟨other, -, hother⟩ := List.mem_filterMap.mp hr
    obtain rfl : r.metric = other := regression_metric hother
    exact ⟨r, hother⟩
  · rintro ⟨r, hr⟩
    exact ⟨r, List.mem_filterMap.mpr ⟨name, mem_all name, hr⟩, regression_metric hr⟩

/-- A metric that did not move is in its band. -/
theorem not_moved {previous value : ℚ} : ¬ Moved name previous value ↔ |value - previous| ≤ |previous| * drift name :=
  not_lt

theorem moved_ne {previous value : ℚ} (h : Moved name previous value) : value ≠ previous := by
  rintro rfl
  have hdrift : 0 ≤ drift name := by cases name <;> norm_num [drift]
  unfold Moved at h
  rw [sub_self, abs_zero] at h
  exact absurd (mul_nonneg (abs_nonneg value) hdrift) h.not_ge

/-- One metric is compared the right way, unless it has no bar, is better lower, and moved. -/
theorem metric_right_way_iff (hdirections : ∀ name t, thresholds name = some t → t.direction = name.better)
    {previous value : ℚ} (hnow : now.value name = some value) (hbefore : before.value name = some previous) :
    RightWay (compareToBaseline (computed version thresholds now) (computed version thresholds before).metricsJson version)
        (thresholds name) name previous value ↔
      (thresholds name).isSome ∨ name.better = .atLeast ∨ |value - previous| ≤ |previous| * drift name := by
  have hlisted : Listed (compareToBaseline (computed version thresholds now)
      (computed version thresholds before).metricsJson version) name ↔
      Worse (((thresholds name).map Threshold.direction).getD .atLeast) previous value ∧
        (Crossed (thresholds name) value ∨ Moved name previous value) := by
    rw [listed_iff, hbefore]
    exact regression_isSome (m := metricOf thresholds now name) hnow
  -- where the direction is the right one, the list is
  have hright : ((thresholds name).map Threshold.direction).getD .atLeast = name.better →
      RightWay (compareToBaseline (computed version thresholds now)
        (computed version thresholds before).metricsJson version) (thresholds name) name previous value := by
    intro hdirection
    rw [hdirection] at hlisted
    exact ⟨fun h => (hlisted.mp h).1, fun hworse h => hlisted.mpr ⟨hworse, h.symm⟩⟩
  cases hthreshold : thresholds name with
  | some t =>
    rw [hthreshold] at hright
    exact iff_of_true (hright (hdirections name t hthreshold)) (.inl rfl)
  | none =>
    rw [hthreshold] at hright hlisted
    cases hbetter : name.better with
    | atLeast => exact iff_of_true (hright hbetter.symm) (.inr (.inl rfl))
    | atMost =>
      have hcrossed : ¬ Crossed none value := fun ⟨t, ht, _⟩ => nomatch ht
      constructor
      · rintro ⟨honly, halways⟩
        refine .inr (.inr (not_moved.mp fun hmoved => ?_))
        rw [hbetter] at honly halways
        obtain hlower | heq | hhigher := lt_trichotomy value previous
        · exact lt_asymm hlower (honly (hlisted.mpr ⟨hlower, .inr hmoved⟩))
        · exact moved_ne hmoved heq
        · exact lt_asymm hhigher (hlisted.mp (halways hhigher (.inl hmoved))).1
      · rintro (hthreshold | hdirection | hband)
        · cases hthreshold
        · cases hdirection
        · have hmoved := not_moved.mpr hband
          exact ⟨fun h => ((hlisted.mp h).2.elim hcrossed hmoved).elim, fun _ h => (h.elim hmoved hcrossed).elim⟩

/-- **Two runs of one version are compared the right way** exactly when every metric that has no bar and is better
lower stayed within its band. -/
theorem right_way_iff (hdirections : ∀ name t, thresholds name = some t → t.direction = name.better) :
    (∀ name value previous, now.value name = some value → before.value name = some previous →
      RightWay (compareToBaseline (computed version thresholds now)
        (computed version thresholds before).metricsJson version) (thresholds name) name previous value) ↔
    ∀ name value previous, now.value name = some value → before.value name = some previous →
      (thresholds name).isSome ∨ name.better = .atLeast ∨ |value - previous| ≤ |previous| * drift name := by
  refine forall_congr' fun name => forall_congr' fun value => forall_congr' fun previous => ?_
  exact forall₂_congr fun hnow hbefore => metric_right_way_iff hdirections hnow hbefore

end Runs

/-! Two runs without bars, the second twice as slow. -/

/-- All that a run measured is a latency. -/
def halfTimes (ns : ℚ) : Measured where
  value name := if name = .latencyP50Ns then some ns else none
  judged _ := false

theorem right_way_steady :
    RightWay (compareToBaseline (computed "v1" (fun _ => none) (halfTimes 110))
      (computed "v1" (fun _ => none) (halfTimes 100)).metricsJson "v1") none .latencyP50Ns 100 110 := by
  refine (right_way_iff fun name t ht => ?_).mpr ?_ .latencyP50Ns 110 100 rfl rfl
  · cases ht
  · intro name value previous hnow hbefore
    by_cases hname : name = .latencyP50Ns
    · subst hname
      obtain rfl : 110 = value := Option.some.inj hnow
      obtain rfl : 100 = previous := Option.some.inj hbefore
      exact .inr (.inr (by norm_num [drift]))
    · exact absurd ((if_neg hname).symm.trans hnow) (by simp)

/-- Twice the time is no regression, and half the time is one. -/
theorem faster_listed :
    compareToBaseline (computed "v1" (fun _ => none) (halfTimes 200))
      (computed "v1" (fun _ => none) (halfTimes 100)).metricsJson "v1" = [] ∧
    compareToBaseline (computed "v1" (fun _ => none) (halfTimes 100))
      (computed "v1" (fun _ => none) (halfTimes 200)).metricsJson "v1" =
        [{ metric := .latencyP50Ns, baseline := 200, current := 100, crossedThreshold := false, noisy := false }] ∧
    ¬ RightWay (compareToBaseline (computed "v1" (fun _ => none) (halfTimes 200))
      (computed "v1" (fun _ => none) (halfTimes 100)).metricsJson "v1") none .latencyP50Ns 100 200 := by
  have hslower : compareToBaseline (computed "v1" (fun _ => none) (halfTimes 200))
      (computed "v1" (fun _ => none) (halfTimes 100)).metricsJson "v1" = [] := by decide +kernel
  refine ⟨hslower, by decide +kernel, ?_⟩
  intro h
  rw [hslower] at h
  have hworse : Worse MetricName.latencyP50Ns.better 100 200 := by norm_num [Worse, MetricName.better]
  have hmoved : Moved .latencyP50Ns 100 200 := by norm_num [Moved, drift]
  obtain ⟨r, hr, -⟩ := h.always hworse (.inl hmoved)
  exact absurd hr (List.not_mem_nil)

end BankingControlPlane.Evals
