import BankingControlPlane.Runtime.Messages

/-!
# Guardrails

A check is a pure function from text to a verdict; a gate runs it and answers in the agent's place when it
does not pass.

* `InputGuard.abeforeAgent` screens the incoming message before the model is called;
* `OutputGuard.aafterAgent` screens the last message of the final state;
* `Mode.mounts` : which gates a mode composes.
-/

namespace BankingControlPlane

structure Violation where
  check : String
  rule : String
  detail : String
  evidence : String
deriving DecidableEq, Repr

/-- A verdict is the list of violations found. -/
abbrev Check := String → List Violation

/-- The text passes the check. -/
def Passes (check : Check) (text : String) : Prop := check text = []

instance (check : Check) (text : String) : Decidable (Passes check text) :=
  inferInstanceAs (Decidable (_ = _))

/-- A check that passes everything. -/
def never : Check := fun _ => []

inductive Replacement where
  | text (s : String)
  | of (f : String → String)

def Replacement.apply : Replacement → String → String
  | .text s, _ => s
  | .of f, source => f source

structure GuardSpec where
  inputCheck : Check := never
  inputReplacement : Replacement := .text "Não posso seguir com essa mensagem."
  outputCheck : Check := never
  outputReplacement : Replacement := .text "Não posso responder isso."

inductive Mode where
  | both | input | output | none
deriving DecidableEq, Repr

/-- `GUARDRAIL_MODES`. -/
def Mode.mounts : Mode → List Gate
  | .both => [.guardIn, .guardOut]
  | .input => [.guardIn]
  | .output => [.guardOut]
  | .none => []

section Gates
variable (spec : GuardSpec)

/-- Refuses the incoming message, or lets it through. -/
def InputGuard.abeforeAgent (messages : List Message) : Option Message :=
  let text := lastText messages
  if Passes spec.inputCheck text then none
  else some (.refusal .guardIn (spec.inputReplacement.apply text))

/-- Replaces the finished answer, or lets it through. What a gate said is not screened. -/
def OutputGuard.aafterAgent (messages : List Message) : Option Message :=
  match refusedBy messages with
  | some _ => none
  | none =>
    if Passes spec.outputCheck (lastText messages) then none
    else some (.refusal .guardOut (spec.outputReplacement.apply (lastUserText messages)))

/-- The hooks a mode has mounted. -/
def beforeAgent (mode : Mode) (messages : List Message) : Option Message :=
  if .guardIn ∈ mode.mounts then InputGuard.abeforeAgent spec messages else none

def afterAgent (mode : Mode) (messages : List Message) : Option Message :=
  if .guardOut ∈ mode.mounts then OutputGuard.aafterAgent spec messages else none

end Gates

end BankingControlPlane
