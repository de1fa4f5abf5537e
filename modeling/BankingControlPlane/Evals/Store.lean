import BankingControlPlane.Effects.Pool
import BankingControlPlane.Effects.Run
import BankingControlPlane.Evals.Baseline
import BankingControlPlane.Evals.Runner
import BankingControlPlane.Plane.Policy

/-!
# Where a run goes after it is scored

* `RunRow`, `EvalTables` : `eval_runs` and `eval_findings`, as any number of harnesses leave them;
* `StoreCall` : the statements of `trail.evals.store`, and the printing of the scorecard;
* `Weather` : which statements fail, and what they had written by then; `evalTables` : what a call does;
* `latestBaseline`, `saveRun`, `persist`, `evaluate` : the programs, each call one atomic step.
-/

namespace BankingControlPlane.Evals
open Effects

/-! ## The tables -/

/-- What produced the numbers of a run. -/
structure Stamp where
  agent : String
  model : String
  guardrails : String
  judgeModel : String
deriving DecidableEq, Repr

/-- A row of `eval_runs`. -/
structure RunRow where
  id : Nat
  startedAt : Instant
  finishedAt : Instant
  goldenSetVersion : String
  stamp : Stamp
  status : RunStatus
  metrics : List (MetricName × Option ℚ)
  baselineId : Option Nat

/-- The run a new one is compared against. -/
structure Baseline where
  id : Nat
  goldenSetVersion : String
  metrics : List (MetricName × Option ℚ)

def RunRow.baseline (row : RunRow) : Baseline := ⟨row.id, row.goldenSetVersion, row.metrics⟩

/-- A run of this golden set that a later one may be compared against. -/
def RunRow.Qualifies (version : String) (row : RunRow) : Prop :=
  row.goldenSetVersion = version ∧ row.status = .completed

instance (version : String) (row : RunRow) : Decidable (row.Qualifies version) :=
  inferInstanceAs (Decidable (_ ∧ _))

/-- `RunReport`, with what filing the run adds to it. -/
structure Scorecard where
  report : Report
  run : RunReport
  baselineId : Option Nat := none
  regressions : List Regression := []
  runId : Option Nat := none

/-- The two tables, who drew each id of a run so far, how many statements there have been, and what each process
printed. -/
structure EvalTables where
  runs : List RunRow := []
  findings : List (Nat × Finding) := []
  drawn : List Nat := []
  calls : Nat := 0
  printed : List (Nat × Scorecard) := []

/-- `ORDER BY started_at DESC`: the rows no other of them was started after. -/
def newest (rows : List RunRow) : List RunRow :=
  rows.filter fun row => rows.all fun other => other.startedAt ≤ row.startedAt

namespace EvalTables

/-- The next id of the sequence. An id that was drawn is not drawn again. -/
def nextId (s : EvalTables) : Nat := s.drawn.length + 1

def qualifying (s : EvalTables) (version : String) : List RunRow := s.runs.filter fun row => row.Qualifies version

/-- `LIMIT 1`: any one of the newest. -/
def latest (s : EvalTables) (version : String) (pick : Nat) : Option RunRow :=
  (newest (s.qualifying version))[pick % (newest (s.qualifying version)).length]?

/-- The findings filed under a run. -/
def findingsOf (s : EvalTables) (id : Nat) : List Finding := (s.findings.filter fun f => f.1 = id).map Prod.snd

/-- What a process has printed. -/
def printedBy (s : EvalTables) (process : Nat) : List Scorecard :=
  (s.printed.filter fun p => p.1 = process).map Prod.snd

end EvalTables

/-! ## The statements -/

/-- What `save_run` writes in a row; the table gives the id and the end. -/
structure NewRun where
  startedAt : Instant
  goldenSetVersion : String
  stamp : Stamp
  status : RunStatus
  metrics : List (MetricName × Option ℚ)
  baselineId : Option Nat

def NewRun.row (run : NewRun) (id : Nat) (finishedAt : Instant) : RunRow :=
  { id := id, startedAt := run.startedAt, finishedAt := finishedAt, goldenSetVersion := run.goldenSetVersion,
    stamp := run.stamp, status := run.status, metrics := run.metrics, baselineId := run.baselineId }

/-- `connect` applies the schema too. A statement answers, or raises what the driver raises. -/
inductive StoreCall : Type → Type where
  | connect : StoreCall (Except String Unit)
  | selectBaseline (version : String) : StoreCall (Except String (Option Baseline))
  | insertRun (run : NewRun) : StoreCall (Except String Nat)
  | insertFindings (runId : Nat) (findings : List Finding) : StoreCall (Except String Unit)
  | render (card : Scorecard) : StoreCall Unit

/-- What the database does that the programs have no say in: the clock, the choice among rows that started
together, and which statements fail, after how many rows. -/
structure Weather where
  now : Nat → Instant
  pick : Nat → Nat
  fault : Nat → Option (Nat × String) := fun _ => none

/-- A statement that answers, or fails. -/
def answered {α : Type} (fault : Option (Nat × String)) (answer : α) : Except String α :=
  match fault with
  | none => .ok answer
  | some (_, exc) => .error exc

/-- The rows a statement has written: all of them, or those before it failed. -/
def written {α : Type} (fault : Option (Nat × String)) (rows : List α) : List α :=
  match fault with
  | none => rows
  | some (kept, _) => rows.take kept

/-- The answer to a call, and the tables after it. -/
def EvalTables.on (weather : Weather) (process : Nat) : {β : Type} → StoreCall β → EvalTables → β × EvalTables
  | _, .connect, s => (answered (weather.fault s.calls) (), { s with calls := s.calls + 1 })
  | _, .selectBaseline version, s =>
    (answered (weather.fault s.calls) ((s.latest version (weather.pick s.calls)).map RunRow.baseline),
      { s with calls := s.calls + 1 })
  | _, .insertRun run, s =>
    (answered (weather.fault s.calls) s.nextId,
      { s with
        runs := s.runs ++ written (weather.fault s.calls) [run.row s.nextId (weather.now s.calls)]
        drawn := s.drawn ++ [process]
        calls := s.calls + 1 })
  | _, .insertFindings runId findings, s =>
    (answered (weather.fault s.calls) (),
      { s with
        findings := s.findings ++ written (weather.fault s.calls) (findings.map fun f => (runId, f))
        calls := s.calls + 1 })
  | _, .render card, s => ((), { s with printed := s.printed ++ [(process, card)] })

def evalTables (weather : Weather) : Machine EvalTables StoreCall := ⟨fun process => EvalTables.on weather process⟩

/-- One process, with nobody else at the tables. -/
def alone (weather : Weather) (process : Nat) : Handler EvalTables StoreCall :=
  ⟨EvalTables.on weather process⟩

/-! ## The programs -/

abbrev Filing := Prog StoreCall String

/-- A statement whose exception is not caught. -/
def statement {α : Type} (c : StoreCall (Except String α)) : Filing α := do
  match ← Prog.perform c with
  | .ok answer => return answer
  | .error exc => .raise exc

def latestBaseline (version : String) : Filing (Option Baseline) := statement (.selectBaseline version)

/-- A scorecard as a row. -/
def Scorecard.newRun (card : Scorecard) (stamp : Stamp) (startedAt : Instant) : NewRun :=
  { startedAt := startedAt, goldenSetVersion := card.report.goldenSetVersion, stamp := stamp,
    status := card.run.status, metrics := card.report.metricsJson, baselineId := card.baselineId }

/-- The run, then its findings in one statement, where there are any. -/
def saveRun (card : Scorecard) (stamp : Stamp) (startedAt : Instant) : Filing Nat := do
  let runId ← statement (.insertRun (card.newRun stamp startedAt))
  if card.run.findings = [] then return runId
  else do
    statement (.insertFindings runId card.run.findings)
    return runId

/-- The metrics that do not clear their bars. -/
def crossed (report : Report) : List Metric := report.metrics.filter fun m => !m.clears

/-- The exit code is the criterion: a regression that stays inside its bar does not fail the command. -/
def Scorecard.exitCode (card : Scorecard) : Nat :=
  if card.run.status = .failed ∨ crossed card.report ≠ [] then 1 else 0

/-- The scorecard with the run it is compared against. -/
def Scorecard.against (card : Scorecard) : Option Baseline → Scorecard
  | none => card
  | some baseline =>
    { card with
      baselineId := some baseline.id
      regressions := compareToBaseline card.report baseline.metrics baseline.goldenSetVersion }

/-- A run whose tables cannot be reached is not filed; what fails after that is not caught. -/
def persist (card : Scorecard) (stamp : Stamp) (startedAt : Instant) : Filing Scorecard := do
  match ← Prog.perform .connect with
  | .error _ => return card
  | .ok () =>
    let baseline ← latestBaseline card.report.goldenSetVersion
    let card := card.against baseline
    let runId ← saveRun card stamp startedAt
    return { card with runId := some runId }

/-- A golden set that has been driven: its outcomes, what was measured of them, and what it is filed under. -/
structure Job (F : Type) where
  version : String
  thresholds : MetricName → Option Threshold
  measured : Measured
  outcomes : List (CaseOutcome F)
  stamp : Stamp
  startedAt : Instant

section Evaluate
variable {F : Type} (ops : Operators F)

/-- `compute_metrics`, whole. -/
def Job.scored (job : Job F) : Option Scorecard :=
  (computeMetrics ops job.outcomes).map fun run =>
    { report := computed job.version job.thresholds job.measured, run := run }

/-- `trail eval`, once the cases have run: the exit code. -/
def evaluate (job : Job F) : Filing Nat :=
  match job.scored ops with
  | none => .raise "compute_metrics"
  | some card => do
    let card ← persist card job.stamp job.startedAt
    Prog.perform (.render card)
    return card.exitCode

/-- Any number of harnesses on the same tables. -/
def harnesses (jobs : Nat → Job F) : Pool EvalTables StoreCall String Nat :=
  { shared := {}, threads := fun process => evaluate ops (jobs process) }

end Evaluate

end BankingControlPlane.Evals
