import BankingControlPlane.Runtime.Guards

/-!
# Turns

* `Turn` : what the customer says, and how model and tools behave in answer to it;
* `loop` : the tool-calling loop, with the requests it makes of the model and the states it saves;
* `runTurn` : gates around the loop; `converse` : the turns of one thread, each on the state the last left.
-/

namespace BankingControlPlane

/-- The model asks for tools, with or without a text, and the tools answer. -/
structure ToolRound where
  content : Content
  calls : List String
  results : List Content
deriving DecidableEq, Repr

/-- How a turn ends: with an answer, or with the model or a tool raising. -/
inductive Ending where
  | answers (content : Content)
  | modelRaises
  | toolRaises (content : Content) (calls : List String)
deriving DecidableEq, Repr

structure Turn where
  message : String
  rounds : List ToolRound := []
  ending : Ending
deriving DecidableEq, Repr

/-- The requests made of the model, every state the checkpointer saved, and the last. -/
structure TurnRun where
  requests : List (List Message)
  states : List (List Message)
  final : List Message
  failed : Bool
deriving DecidableEq, Repr

/-- The loop on the messages of the state: a request, its reply, its tools, and again. -/
def loop (ending : Ending) : List ToolRound → List Message → TurnRun
  | [], messages =>
    match ending with
    | .answers content =>
      let answered := messages ++ [.ai content]
      { requests := [messages], states := [answered], final := answered, failed := false }
    | .modelRaises => { requests := [messages], states := [], final := messages, failed := true }
    | .toolRaises content calls =>
      let asked := messages ++ [.ai content calls]
      { requests := [messages], states := [asked], final := asked, failed := true }
  | round :: rest, messages =>
    let asked := messages ++ [.ai round.content round.calls]
    let told := asked ++ round.results.map .tool
    let run := loop ending rest told
    { run with requests := messages :: run.requests, states := asked :: told :: run.states }

section Turns
variable (spec : GuardSpec) (mode : Mode)

/-- The turn has ended: the closing gate sees the final state. -/
def close (run : TurnRun) : TurnRun :=
  if run.failed then run
  else match afterAgent spec mode run.final with
    | none => run
    | some refusal =>
      let refused := run.final ++ [refusal]
      { run with states := run.states ++ [refused], final := refused }

/-- One turn on what the checkpointer has of the thread. -/
def runTurn (history : List Message) (turn : Turn) : TurnRun :=
  let start := history ++ [.human turn.message]
  match beforeAgent spec mode start with
  | some refusal =>
    let refused := start ++ [refusal]
    close spec mode { requests := [], states := [start, refused], final := refused, failed := false }
  | none =>
    let run := loop turn.ending turn.rounds start
    close spec mode { run with states := start :: run.states }

/-- The turns of one thread. -/
def converse : List Turn → List Message → List TurnRun
  | [], _ => []
  | turn :: rest, history =>
    let run := runTurn spec mode history turn
    run :: converse rest run.final

end Turns

/-- The `turn` frame's text, and the buffered answer's; an error has neither. -/
def TurnRun.answer (run : TurnRun) : Option String :=
  if run.failed then none else some (finalText run.final)

end BankingControlPlane
