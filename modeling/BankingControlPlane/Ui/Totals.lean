import BankingControlPlane.Evals.Runner
import BankingControlPlane.Runtime.Rail
import Mathlib.Data.Rat.Defs

/-!
# What a rail adds up to

Costs are exact numbers.

* `StageEvent.payload` : a stage frame as the object it is on the wire;
* `TurnAccumulator`, `accumulateStage` : the browser's fold of the frames;
* `streamStages`, `costFold` : the terminal's; `observe` : the frames of a turn in the harness;
* `exact` : the language's operators, on numbers that are exact.
-/

namespace BankingControlPlane
open Json Evals

/-! ## Frames on the wire -/

def StageKind.text : StageKind → String
  | .guardIn => "guard_in"
  | .model => "model"
  | .tool => "tool"
  | .guardOut => "guard_out"
  | .io => "io"

def StageStatus.text : StageStatus → String
  | .start => "start"
  | .done => "done"
  | .skip => "skip"
  | .blocked => "blocked"

section Payloads
variable {K : Type}

def Violation.payload (v : Violation) : Value K :=
  .obj [("check", .str v.check), ("rule", .str v.rule), ("detail", .str v.detail), ("evidence", .str v.evidence)]

def StageDetail.payload : StageDetail K → List (String × Value K)
  | .violations vs => [("violations", .arr (vs.map Violation.payload))]
  | .usage u =>
    [("input_tokens", .int u.inputTokens), ("output_tokens", .int u.outputTokens),
      ("cost_usd", (u.costUsd.map Value.float).getD .null)]
  | .error type none => [("error", .str type)]
  | .error type (some message) => [("error", .str type), ("message", .str message)]

/-- `model_dump(mode="json")`. -/
def StageEvent.payload (e : StageEvent K) : List (String × Value K) :=
  [("name", .str e.name), ("kind", .str e.kind.text), ("label", .str e.label), ("status", .str e.status.text),
    ("ns", (e.ns.map fun ns => Value.int ns).getD .null),
    ("detail", (e.detail.map fun detail => Value.obj detail.payload).getD .null)]

end Payloads

/-! ## The browser -/

/-- A number, integer or not, is one type there. -/
def number? : Value ℚ → Option ℚ
  | .int i => some i
  | .float f => some f
  | _ => none

/-- `value ?? 0`, where what is there is a number. -/
def orNought (value : Value ℚ) : Option ℚ := if isNone value then some 0 else number? value

/-- What a turn's frames add up to. -/
structure TurnAccumulator where
  rail : List (List (String × Value ℚ)) := []
  violations : List (Value ℚ) := []
  blocked : Bool := false
  tokensIn : ℚ := 0
  tokensOut : ℚ := 0
  costUsd : Option ℚ := none
  sawUsage : Bool := false

/-- What the detail of a model call adds. A cost that is no number is no cost. -/
def TurnAccumulator.add (acc : TurnAccumulator) (detail : List (String × Value ℚ)) : Option TurnAccumulator := do
  let tokensIn ← orNought (get "input_tokens" detail)
  let tokensOut ← orNought (get "output_tokens" detail)
  some { acc with
    tokensIn := acc.tokensIn + tokensIn
    tokensOut := acc.tokensOut + tokensOut
    costUsd := match number? (get "cost_usd" detail) with
      | some cost => some (acc.costUsd.getD 0 + cost)
      | none => acc.costUsd
    sawUsage := true }

/-- A completed model call counts, if it has a detail. -/
def TurnAccumulator.count (acc : TurnAccumulator) (event : List (String × Value ℚ)) :
    Option (List (String × Value ℚ)) → Option TurnAccumulator
  | some detail =>
    if isText "model" (get "kind" event) && isText "done" (get "status" event) then acc.add detail else some acc
  | none => some acc

/-- A frame that was blocked, with the violations it has, if any. -/
def TurnAccumulator.block (acc : TurnAccumulator) (detail : Option (List (String × Value ℚ))) :
    Option TurnAccumulator :=
  match (detail.map (get "violations")).getD .null with
  | .null => some { acc with blocked := true }
  | .arr found => some { acc with blocked := true, violations := acc.violations ++ found }
  | _ => none

/-- `event.detail`: an object or null. -/
def detailOf (event : List (String × Value ℚ)) : Option (Option (List (String × Value ℚ))) :=
  match get "detail" event with
  | .null => some none
  | .obj detail => some (some detail)
  | _ => none

/-- One stage frame, unless it is not of the shape that the interface says. -/
def accumulateStage (acc : TurnAccumulator) (event : List (String × Value ℚ)) : Option TurnAccumulator :=
  if isText "start" (get "status" event) then some acc
  else do
    let detail ← detailOf event
    let next ← { acc with rail := acc.rail ++ [event] }.count event detail
    if isText "blocked" (get "status" event) then next.block detail else some next

/-! ## The terminal -/

section Terminal
variable {F : Type} (ops : Operators F)

/-- The stages of `_render_stream`: a stage that starts is shown and left out. -/
def streamStage (stages : List (List (String × Value F))) (data : List (String × Value F)) :
    Option (List (List (String × Value F))) := do
  let status ← getItem "status" data
  if isText "start" status then
    let _ ← getItem "label" data
    some stages
  else some (stages ++ [data])

def streamStages (events : List (List (String × Value F))) : Option (List (List (String × Value F))) :=
  events.foldlM streamStage []

/-- One stage in the fold of `_render_cost`, which adds up as the harness does, but asks for the kind of a stage, and
for the status of a model's. -/
def costStage (usage : Usage F) (stage : List (String × Value F)) : Option (Usage F) := do
  let kind ← getItem "kind" stage
  if isText "model" kind then
    let _ ← getItem "status" stage
    usage.stage ops stage
  else some usage

def costFold (stages : List (List (String × Value F))) : Option (Usage F) := stages.foldlM (costStage ops) {}

/-- What `_render_cost` prints the numbers of: nothing where no token was counted. -/
def renderCost (stages : List (List (String × Value F))) : Option (Option (Usage F)) :=
  (costFold ops stages).map fun usage =>
    if ops.truthy usage.tokensIn || ops.truthy usage.tokensOut then some usage else none

end Terminal

/-! ## The harness -/

/-- The observation of a turn whose frames are these. -/
def observe {F : Type} (caseId : String) (turn : Nat) (question : String) (events : List (List (String × Value F))) :
    Except String (Observation F) :=
  driveTurn (.streamed (events.map fun event => (WireName.stage.text, .obj event)) none) caseId turn question

/-- The operators of the language where numbers are exact: `base` does the rest. -/
def exact (base : Operators ℚ) : Operators ℚ :=
  { base with
    truthy := fun
      | .null => false
      | .bool b => b
      | .int i => i ≠ 0
      | .float f => f ≠ 0
      | .str s => s ≠ ""
      | .arr items => !items.isEmpty
      | .obj fields => !fields.isEmpty
    zero := 0
    add := fun
      | .int i, .int j => some (.int (i + j))
      | .int i, .float g => some (.float (i + g))
      | .float f, .int j => some (.float (f + j))
      | .float f, .float g => some (.float (f + g))
      | a, b => base.add a b }

end BankingControlPlane
