import Mathlib.Algebra.Order.Field.Rat
import Mathlib.Algebra.Order.Group.Abs

/-!
# A run against its baseline

Values are exact rationals.

* `MetricName`, `Metric` : the metrics of a run, each with its bar, if one was registered;
* `computed` : the metrics of a run, in order; `metricsJson` : what is kept of them for the runs after it;
* `compareToBaseline` : the metrics that got worse.
-/

namespace BankingControlPlane.Evals

inductive MetricName where
  | casePassRate | turnErrorRate | omissionRate | fabricationRate | wrongPathRate | groundingRate | guardRecall
  | falseBlockRate | latencyP50Ns | latencyP95Ns | costPerTurnUsd
deriving DecidableEq, Repr

/-- In the order in which `compute_metrics` lists them. -/
def MetricName.all : List MetricName :=
  [.casePassRate, .turnErrorRate, .omissionRate, .fabricationRate, .wrongPathRate, .groundingRate, .guardRecall,
    .falseBlockRate, .latencyP50Ns, .latencyP95Ns, .costPerTurnUsd]

/-- Which direction clears a bar: `>=` or `<=`. -/
inductive Direction where
  | atLeast | atMost
deriving DecidableEq, Repr

/-- A pre-registered bar. -/
structure Threshold where
  value : ℚ
  direction : Direction := .atLeast
deriving DecidableEq

/-- A measurement that was not taken clears every bar. -/
def Threshold.clears (t : Threshold) : Option ℚ → Bool
  | none => true
  | some observed =>
    match t.direction with
    | .atLeast => t.value ≤ observed
    | .atMost => observed ≤ t.value

structure Metric where
  name : MetricName
  value : Option ℚ
  threshold : Option Threshold := none
  judged : Bool := false
deriving DecidableEq

def Metric.clears (m : Metric) : Bool :=
  match m.threshold with
  | none => true
  | some t => t.clears m.value

/-- Of a report, what a comparison reads. -/
structure Report where
  goldenSetVersion : String
  metrics : List Metric

/-- What a run measured, and what of it is a model's opinion. -/
structure Measured where
  value : MetricName → Option ℚ
  judged : MetricName → Bool

/-- The metrics of a run, with the bars of its golden set. -/
def computed (version : String) (thresholds : MetricName → Option Threshold) (run : Measured) : Report where
  goldenSetVersion := version
  metrics := MetricName.all.map fun name =>
    { name := name, value := run.value name, threshold := thresholds name, judged := run.judged name }

/-- What a recorded run has under each name. -/
def Report.metricsJson (report : Report) : List (MetricName × Option ℚ) :=
  report.metrics.map fun m => (m.name, m.value)

/-- `DRIFT`, and `DRIFT_BY_METRIC` where it has the metric. -/
def drift : MetricName → ℚ
  | .latencyP50Ns => 3 / 10
  | .latencyP95Ns => 1 / 2
  | .costPerTurnUsd => 3 / 10
  | _ => 1 / 20

/-- One metric that got worse. -/
structure Regression where
  metric : MetricName
  baseline : ℚ
  current : ℚ
  crossedThreshold : Bool
  noisy : Bool
deriving DecidableEq

/-- Whether the metric is listed: it got worse, and crossed its bar or left its band. -/
def Metric.regression (m : Metric) (previous : Option ℚ) : Option Regression :=
  match previous, m.value with
  | some previous, some value =>
    let direction := (m.threshold.map Threshold.direction).getD .atLeast
    let worse : Bool := match direction with
      | .atLeast => value < previous
      | .atMost => previous < value
    let crossed := m.threshold.isSome && !m.clears
    let moved : Bool := |previous| * drift m.name < |value - previous|
    if worse && (crossed || moved) then
      some { metric := m.name, baseline := previous, current := value, crossedThreshold := crossed, noisy := m.judged }
    else none
  | _, _ => none

/-- Runs over different cases are not compared. -/
def compareToBaseline (current : Report) (baseline : List (MetricName × Option ℚ)) (baselineVersion : String) :
    List Regression :=
  if baselineVersion ≠ current.goldenSetVersion then []
  else current.metrics.filterMap fun m =>
    m.regression ((baseline.find? fun entry => entry.1 = m.name).bind Prod.snd)

end BankingControlPlane.Evals
