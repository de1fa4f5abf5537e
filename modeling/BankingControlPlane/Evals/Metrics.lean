import BankingControlPlane.Evals.Runner
import Mathlib.Data.Rat.Floor

/-!
# Outcomes into numbers

* `checkRate` : how many checks joined a metric, and how many of them passed;
* `totalTurns`, `latencies`, `priced` : what the metrics of turns are computed over;
* `percentile` : the nearest rank of a fraction, taken exactly; `latencyPercentile` : that of the latencies of a run.
-/

namespace BankingControlPlane.Evals

variable {F : Type}

section Outcomes
variable (outcomes : List (CaseOutcome F))

/-- `_check_rate`: passed and total, over the checks that joined the metric. -/
def checkRate (metric : String) : Nat × Nat :=
  let results := (outcomes.flatMap CaseOutcome.checks).filter fun c => c.metric = metric
  (results.countP CheckResult.passed, results.length)

/-- The denominator of `turn_error_rate`. -/
def totalTurns : Nat := (outcomes.map fun o => o.observations.length).sum

/-- The latencies that were measured. -/
def latencies : List (Json.Value F) :=
  ((outcomes.flatMap CaseOutcome.observations).map Observation.ns).filter fun ns => !isNone ns

/-- What a turn cost, where it priced itself. -/
def Observation.cost? (ops : Operators F) (obs : Observation F) : Option (Json.Value F) :=
  (obs.usage ops).bind Usage.cost

/-- The costs of the turns that carry a price. -/
def priced (ops : Operators F) : List (Json.Value F) :=
  (outcomes.flatMap CaseOutcome.observations).filterMap (Observation.cost? ops)

end Outcomes

/-! ## Percentiles -/

/-- The rank is the fraction of the number of values, rounded up, and at least the first. -/
def percentile (values : List Int) (fraction : ℚ) : Option Int :=
  if values = [] then none
  else
    let ordered := values.mergeSort (· ≤ ·)
    let rank : Int := max 1 ⌈fraction * ordered.length⌉
    ordered[(min rank ordered.length - 1).toNat]?

def intNs : Json.Value F → Option Int
  | .int ns => some ns
  | _ => none

/-- A percentile of the latencies of a run, where they are integers. -/
def latencyPercentile (outcomes : List (CaseOutcome F)) (fraction : ℚ) : Option Int := do
  percentile (← (latencies outcomes).mapM intNs) fraction

end BankingControlPlane.Evals
