import BankingControlPlane.Data.Interleaved
import BankingControlPlane.Runtime.Turns

/-!
# The rail

* `StageEvent` : one step of the pipeline, as the client reads it;
* `TraceMiddleware`, `InputGuard.middleware`, `OutputGuard.middleware` : the hooks, with the frames they emit;
* `runBefore`, `runAfter` : how an agent runs the hooks of its middleware;
* `Narrated` : a turn with what was measured of it; `Narrated.run` : its frames, and the messages it leaves.
-/

namespace BankingControlPlane

/-! ## Stage frames -/

inductive StageKind where
  | guardIn | model | tool | guardOut | io
deriving DecidableEq, Repr

inductive StageStatus where
  | start | done | skip | blocked
deriving DecidableEq, Repr

/-- What a model call used: its cost is unknown where the model has no price. -/
structure CallUsage (K : Type) where
  inputTokens : Nat
  outputTokens : Nat
  costUsd : Option K
deriving DecidableEq, Repr

inductive StageDetail (K : Type) where
  | violations (vs : List Violation)
  | usage (u : CallUsage K)
  | error (type : String) (message : Option String)
deriving DecidableEq, Repr

structure StageEvent (K : Type) where
  name : String
  kind : StageKind
  label : String
  status : StageStatus
  ns : Option Nat := none
  detail : Option (StageDetail K) := none
deriving DecidableEq, Repr

def Gate.text : Gate → String
  | .guardIn => "guard_in"
  | .guardOut => "guard_out"

def Gate.stage : Gate → StageKind
  | .guardIn => .guardIn
  | .guardOut => .guardOut

/-- The label a gate has by default. -/
def Gate.label : Gate → String
  | .guardIn => "input"
  | .guardOut => "output"

/-- `OMITTED_BY_MODE`: the gates each mode leaves out. -/
def Mode.omitted : Mode → List Gate
  | .both => []
  | .input => [.guardOut]
  | .output => [.guardIn]
  | .none => [.guardIn, .guardOut]

section Frames
variable {K : Type}

def Gate.frame (gate : Gate) (status : StageStatus) (ns : Option Nat := none) (detail : Option (StageDetail K) := none) :
    StageEvent K :=
  { name := gate.text, kind := gate.stage, label := gate.label, status := status, ns := ns, detail := detail }

def modelSkip : StageEvent K := { name := "model", kind := .model, label := "model", status := .skip }

def modelStart : StageEvent K := { name := "model", kind := .model, label := "model", status := .start }

def finish : StageEvent K := { name := "finish", kind := .io, label := "finish", status := .done }

/-- What a model call turned out to be for. -/
def modelRole (calls : List String) : String × String :=
  match calls with
  | [] => ("model.answer", "model→answer")
  | [name] => ("model.tools", "model→" ++ name)
  | calls => ("model.tools", "model→" ++ toString calls.length ++ " tools")

/-- How long a model call took, and what it used. -/
structure ModelCall (K : Type) where
  ns : Nat
  usage : CallUsage K

/-- `awrap_model_call`, of a call that returns. -/
def ModelCall.frames (call : ModelCall K) (calls : List String) : List (StageEvent K) :=
  let role := modelRole calls
  [modelStart,
    { name := role.1, kind := .model, label := role.2, status := .done, ns := some call.ns,
      detail := some (.usage call.usage) }]

/-- How a tool call ends: it returns, it raises, or it is cut short where another raised, begun or not. -/
inductive ToolOutcome where
  | returned (ns : Nat)
  | raised (ns : Nat) (error : String)
  | cut (begun : Bool)
deriving DecidableEq, Repr

/-- `awrap_tool_call`. -/
def ToolOutcome.frames (tool : String) (outcome : ToolOutcome) : List (StageEvent K) :=
  let cell : StageEvent K := { name := "tool:" ++ tool, kind := .tool, label := tool, status := .start }
  match outcome with
  | .returned ns => [cell, { cell with status := .done, ns := some ns }]
  | .raised ns error => [cell, { cell with status := .blocked, ns := some ns, detail := some (.error error none) }]
  | .cut begun => if begun then [cell] else []

end Frames

/-! ## Hooks -/

/-- What a hook emits, and the message it jumps to the end with, if it does. -/
structure Hooked (K : Type) where
  frames : List (StageEvent K) := []
  refusal : Option Message := none

/-- A middleware's two hooks around a run of the agent; one it does not have does nothing. -/
structure Middleware (K : Type) where
  abeforeAgent : List Message → Hooked K := fun _ => {}
  aafterAgent : List Message → Hooked K := fun _ => {}

section Middlewares
variable {K : Type} (spec : GuardSpec) (mode : Mode)

/-- The skip of a gate that the mode leaves out. -/
def skipOmitted (gate : Gate) : List (StageEvent K) :=
  (mode.omitted.filter fun omitted => omitted = gate).map fun omitted => omitted.frame .skip

/-- Opens the rail and closes it, and says which gates were left out. -/
def TraceMiddleware : Middleware K where
  abeforeAgent _ := { frames := skipOmitted mode .guardIn }
  aafterAgent _ := { frames := skipOmitted mode .guardOut ++ [finish] }

/-- Screens the incoming message; a refused turn skips the model. -/
def InputGuard.middleware (ns : Nat) : Middleware K where
  abeforeAgent messages :=
    let text := lastText messages
    match spec.inputCheck text with
    | [] => { frames := [Gate.guardIn.frame .done ns] }
    | violations =>
      { frames := [Gate.guardIn.frame .blocked ns (some (.violations violations)), modelSkip]
        refusal := some (.refusal .guardIn (spec.inputReplacement.apply text)) }

/-- Screens the finished answer, once, and not what a gate said. -/
def OutputGuard.middleware (ns : Nat) : Middleware K where
  aafterAgent messages :=
    match refusedBy messages with
    | some .guardOut => {}
    | some .guardIn => { frames := [Gate.guardOut.frame .skip] }
    | none =>
      match spec.outputCheck (lastText messages) with
      | [] => { frames := [Gate.guardOut.frame .done ns] }
      | violations =>
        { frames := [Gate.guardOut.frame .blocked ns (some (.violations violations))]
          refusal := some (.refusal .guardOut (spec.outputReplacement.apply (lastUserText messages))) }

/-- The middleware of an agent: the rail first, and the gates its mode mounts. -/
def buildMiddleware (ns : Gate → Nat) : List (Middleware K) :=
  TraceMiddleware mode :: mode.mounts.map fun
    | .guardIn => InputGuard.middleware spec (ns .guardIn)
    | .guardOut => OutputGuard.middleware spec (ns .guardOut)

end Middlewares

/-! ## An agent's run of its hooks -/

section Hooks
variable {K : Type}

/-- The frames emitted, the messages left, and whether a hook jumped to the end. -/
structure Passage (K : Type) where
  frames : List (StageEvent K)
  messages : List Message
  jumped : Bool

/-- The `before_agent` hooks, in the order of the list. A jump leaves the later ones out. -/
def runBefore : List (Middleware K) → List Message → Passage K
  | [], messages => ⟨[], messages, false⟩
  | middleware :: rest, messages =>
    let hooked := middleware.abeforeAgent messages
    match hooked.refusal with
    | some refusal => ⟨hooked.frames, messages ++ [refusal], true⟩
    | none =>
      let later := runBefore rest messages
      { later with frames := hooked.frames ++ later.frames }

/-- The `after_agent` hooks, in the order they run in. One that jumps to the end runs once more, on what it left. -/
def runAfter : List (Middleware K) → List Message → List (StageEvent K) × List Message
  | [], messages => ([], messages)
  | middleware :: rest, messages =>
    let hooked := middleware.aafterAgent messages
    match hooked.refusal with
    | none =>
      let later := runAfter rest messages
      (hooked.frames ++ later.1, later.2)
    | some refusal =>
      let refused := messages ++ [refusal]
      let again := middleware.aafterAgent refused
      let later := runAfter rest (refused ++ again.refusal.toList)
      (hooked.frames ++ again.frames ++ later.1, later.2)

end Hooks

/-! ## Turns narrated -/

/-- A tool round as it is narrated: its tools run at the same time. -/
structure NarratedRound (K : Type) where
  content : Content
  call : ModelCall K
  calls : List (String × Nat)
  results : List Content
  emitted : List (StageEvent K)
  interleaved : Interleaved (calls.map fun call => (ToolOutcome.returned call.2).frames call.1) emitted

inductive NarratedEnding (K : Type) where
  | answers (content : Content) (call : ModelCall K)
  | modelRaises (ns : Nat) (error message : String)
  | toolRaises (content : Content) (call : ModelCall K) (calls : List (String × ToolOutcome))
    (emitted : List (StageEvent K)) (interleaved : Interleaved (calls.map fun call => call.2.frames call.1) emitted)

/-- A turn, and what was measured of it. -/
structure Narrated (K : Type) where
  message : String
  gateNs : Gate → Nat
  rounds : List (NarratedRound K) := []
  ending : NarratedEnding K

section Narrated
variable {K : Type}

def NarratedRound.round (r : NarratedRound K) : ToolRound :=
  { content := r.content, calls := r.calls.map Prod.fst, results := r.results }

def NarratedEnding.ending : NarratedEnding K → Ending
  | .answers content _ => .answers content
  | .modelRaises _ _ _ => .modelRaises
  | .toolRaises content _ calls _ _ => .toolRaises content (calls.map Prod.fst)

/-- The turn that is narrated. -/
def Narrated.turn (n : Narrated K) : Turn :=
  { message := n.message, rounds := n.rounds.map NarratedRound.round, ending := n.ending.ending }

def NarratedRound.frames (r : NarratedRound K) : List (StageEvent K) :=
  r.call.frames r.round.calls ++ r.emitted

def NarratedEnding.frames : NarratedEnding K → List (StageEvent K)
  | .answers _ call => call.frames []
  | .modelRaises ns error message =>
    [modelStart,
      { name := "model", kind := .model, label := "model", status := .blocked, ns := some ns,
        detail := some (.error error (some message)) }]
  | .toolRaises _ call calls emitted _ => call.frames (calls.map Prod.fst) ++ emitted

/-- What the loop emits. -/
def Narrated.loopFrames (n : Narrated K) : List (StageEvent K) :=
  n.rounds.flatMap NarratedRound.frames ++ n.ending.frames

/-- The frames of a turn, and the messages it leaves. What raises leaves the closing hooks out. -/
def Narrated.run (spec : GuardSpec) (mode : Mode) (history : List Message) (n : Narrated K) :
    List (StageEvent K) × List Message :=
  let middleware := buildMiddleware spec mode n.gateNs
  let before := runBefore middleware (history ++ [.human n.message])
  if before.jumped then
    let after := runAfter middleware.reverse before.messages
    (before.frames ++ after.1, after.2)
  else
    let looped := loop n.turn.ending n.turn.rounds before.messages
    if looped.failed then (before.frames ++ n.loopFrames, looped.final)
    else
      let after := runAfter middleware.reverse looped.final
      (before.frames ++ n.loopFrames ++ after.1, after.2)

end Narrated

end BankingControlPlane
