import BankingControlPlane.Evals.Cases

/-!
# Driving the golden set

* `driveTurn` : the frames of one turn as an observation; `applyChecks` : its findings;
* `Drive` : a case, and how the service answers it; `Drive.runCase` : its outcome, never an exception;
* `computeMetrics` : what the outcomes make of the run.
-/

namespace BankingControlPlane.Evals
open Json

variable {F : Type}

/-- What the language does with values of any type: `str`, truth, `+` and `sorted`, of which the last two may raise. -/
structure Operators (F : Type) where
  str : Value F → String
  truthy : Value F → Bool
  zero : F
  add : Value F → Value F → Option (Value F)
  sorted : List (Value F) → Option (List (Value F))

/-! ## One turn -/

def typeName : Value F → String
  | .null => "NoneType"
  | .bool _ => "bool"
  | .int _ => "int"
  | .float _ => "float"
  | .str _ => "str"
  | .arr _ => "list"
  | .obj _ => "dict"

/-- What `data.get` raises of what is no object. -/
def noGet (data : Value F) : String := "AttributeError: '" ++ typeName data ++ "' object has no attribute 'get'"

/-- How the service answers one turn: with a refusal, which raises, or with a stream of frames that may break off. -/
inductive TurnReply (F : Type) where
  | refused (exc : String)
  | streamed (frames : List (List Char × Value F)) (broken : Option String)

/-- One frame of the stream. -/
def Observation.frame (obs : Observation F) (event : List Char) (data : Value F) : Except String (Observation F) :=
  if event = WireName.stage.text then
    match data with
    | .obj fields =>
      if isText "start" (get "status" fields) then .ok obs
      else .ok { obs with stages := obs.stages ++ [fields] }
    | _ => .error (noGet data)
  else if event = WireName.turn.text then
    match data with
    | .obj fields => .ok { obs with answer := getOr "text" (.str "") fields, ns := get "ns" fields }
    | _ => .error (noGet data)
  else if event = WireName.error.text then .ok { obs with error := data }
  else if event = WireName.trace.text then
    match data with
    | .obj fields => .ok { obs with traceUrl := get "trace_url" fields }
    | _ => .error (noGet data)
  else .ok obs

def driveTurn (reply : TurnReply F) (caseId : String) (turn : Nat) (question : String) :
    Except String (Observation F) :=
  match reply with
  | .refused exc => .error exc
  | .streamed frames broken => do
    let start : Observation F := { caseId := caseId, turn := turn, question := question }
    let obs ← frames.foldlM (fun obs frame => obs.frame frame.1 frame.2) start
    match broken with
    | none => .ok obs
    | some exc => .error exc

/-! ## Checks -/

/-- The first two hundred characters. -/
def brief (text : String) : String := String.ofList (text.toList.take 200)

/-- What a check adds to the findings: a check that raises fails itself. -/
def Check.produced (check : Check F) (case : Case F) (obs : Observation F) : Except String (List Finding) :=
  match check.run obs with
  | .returns findings => .ok findings
  | .raises exc =>
    .ok [{ caseId := case.id, turn := obs.turn, kind := .error, check := check.name, source := .check,
           expected := "o check executa", actual := brief exc,
           detail := "o check falhou, o agente não foi avaliado neste ponto" }]
  | .returnsOther exc => .error exc

def applyChecks (case : Case F) (obs : Observation F) (label : String) :
    List (Check F) → Except String (List Finding × List CheckResult)
  | [] => .ok ([], [])
  | check :: rest => do
    let produced ← check.produced case obs
    let later ← applyChecks case obs label rest
    .ok (produced ++ later.1,
      { name := label ++ check.name, metric := check.metric, passed := produced.isEmpty } :: later.2)

/-! ## One case -/

/-- The outcome of a case whose conversation never completed: every check it declares has failed. -/
def failedEverything (case : Case F) (obs : Observation F) (reason : String) : CaseOutcome F :=
  { caseId := case.id, observations := [obs],
    findings := [{ caseId := case.id, turn := obs.turn, kind := .error, check := "turn", source := .check,
                   expected := "o turno responde", actual := brief reason,
                   detail := "o turno não chegou a produzir resposta" }],
    checks := case.allChecks.map fun check => { name := check.name, metric := check.metric, passed := false } }

/-- A case, what opening its thread may raise, and how the service answers each of its turns. -/
structure Drive (F : Type) where
  case : Case F
  unopened : Option String
  reply : Nat → TurnReply F

section Drive
variable (ops : Operators F) (d : Drive F)

/-- The outcome where an exception ended the case after these observations. -/
def Drive.raised (observations : List (Observation F)) (exc : String) : CaseOutcome F :=
  let last := observations.getLast?.getD { caseId := d.case.id, turn := 0, question := d.case.turns.headD "" }
  failedEverything d.case last exc

def Drive.observed (turn : String × Nat) : Except String (Observation F) :=
  driveTurn (d.reply turn.2) d.case.id turn.2 turn.1

/-- The turns, one after the other: what they gathered, or the outcome of the case that ended with one of them. -/
def Drive.turns : List (Observation F) → List (String × Nat) →
    Except (CaseOutcome F) (List (Observation F) × List Finding × List CheckResult)
  | observations, [] => .ok (observations, [], [])
  | observations, turn :: rest =>
    match d.observed turn with
    | .error exc => .error (d.raised observations exc)
    | .ok obs =>
      let sofar := observations ++ [obs]
      match obs.error with
      | .null =>
        match applyChecks d.case obs ("turno " ++ toString turn.2 ++ ": ") (d.case.checksFor turn.2) with
        | .error exc => .error (d.raised sofar exc)
        | .ok (findings, results) => do
          let later ← Drive.turns sofar rest
          .ok (later.1, findings ++ later.2.1, results ++ later.2.2)
      | .obj fields =>
        let reason := ops.str (get "status" fields) ++ " " ++ ops.str (get "detail" fields)
        .error (failedEverything d.case obs reason)
      | error => .error (d.raised sofar (noGet error))

/-- The checks on the last turn, after those of each turn. -/
def Drive.judged (observations : List (Observation F)) (last : Observation F) (findings : List Finding)
    (results : List CheckResult) : CaseOutcome F :=
  match applyChecks d.case last "" d.case.checks with
  | .error exc => d.raised observations exc
  | .ok (lastFindings, lastResults) =>
    { caseId := d.case.id, observations := observations, findings := findings ++ lastFindings,
      checks := results ++ lastResults }

def Drive.runCase : CaseOutcome F :=
  match d.unopened with
  | some exc => d.raised [] exc
  | none =>
    match d.turns ops [] d.case.turns.zipIdx with
    | .error outcome => outcome
    | .ok (observations, findings, results) =>
      match observations.getLast? with
      | none => d.raised [] "IndexError: list index out of range"
      | some last => d.judged observations last findings results

end Drive

/-! ## The run -/

inductive RunStatus where
  | completed | failed
deriving DecidableEq, Repr

structure RunReport where
  status : RunStatus
  findings : List Finding
  violations : List Finding
deriving DecidableEq, Repr

section Metrics
variable (ops : Operators F)

/-- `value or 0`. -/
def orZero (value : Value F) : Value F := if ops.truthy value then value else .int 0

/-- Tokens in and out, and the cost once a call has priced itself. -/
structure Usage (F : Type) where
  tokensIn : Value F := .int 0
  tokensOut : Value F := .int 0
  cost : Option (Value F) := none

/-- One stage added up, unless its detail cannot be read or its numbers cannot be added. -/
def Usage.stage (usage : Usage F) (stage : List (String × Value F)) : Option (Usage F) :=
  if isText "model" (get "kind" stage) && isText "done" (get "status" stage) then do
    let detail ← match get "detail" stage with
      | .obj fields => some fields
      | other => if ops.truthy other then none else some []
    let tokensIn ← ops.add usage.tokensIn (orZero ops (get "input_tokens" detail))
    let tokensOut ← ops.add usage.tokensOut (orZero ops (get "output_tokens" detail))
    let price := get "cost_usd" detail
    if isNone price then some { usage with tokensIn := tokensIn, tokensOut := tokensOut }
    else
      -- `cost or 0.0`
      let before := match usage.cost with
        | some cost => if ops.truthy cost then cost else .float ops.zero
        | none => .float ops.zero
      let cost ← ops.add before price
      some { tokensIn := tokensIn, tokensOut := tokensOut, cost := some cost }
  else some usage

def Observation.usage (obs : Observation F) : Option (Usage F) :=
  obs.stages.foldlM (fun usage stage => usage.stage ops stage) {}

/-- The numbers of the run can be computed: latencies in order, and the prices added up. -/
def measurable (outcomes : List (CaseOutcome F)) : Bool :=
  let observations := outcomes.flatMap CaseOutcome.observations
  let latencies := (observations.map Observation.ns).filter fun ns => !isNone ns
  let priced := (observations.mapM (Observation.usage ops)).bind fun usages =>
    (usages.filterMap Usage.cost).foldlM ops.add (.int 0)
  (ops.sorted latencies).isSome && priced.isSome

/-- The report on a finished run, unless its numbers cannot be computed. -/
def computeMetrics (outcomes : List (CaseOutcome F)) : Option RunReport :=
  let findings := outcomes.flatMap CaseOutcome.findings
  let violations := findings.filter (fun f => f.kind = .fabrication) ++
    findings.filter (fun f => f.check = "does_not_block")
  if measurable ops outcomes then
    some { status := if violations = [] then .completed else .failed, findings := findings, violations := violations }
  else none

end Metrics

end BankingControlPlane.Evals
