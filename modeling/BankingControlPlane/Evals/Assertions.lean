import BankingControlPlane.Evals.Judge
import Mathlib.Data.List.Dedup
import Mathlib.Data.List.Infix
import Mathlib.Data.List.Sort
import Mathlib.Data.String.Basic

/-!
# The deterministic checks

Substrings are looked for in folded case, and in nothing else.

* `Observation.toolsCalled` : the tools that ran;
* `contains`, `notContains`, `callsTools`, `blocks`, `doesNotBlock` : the checks;
* `Assertion` : what a case may declare with them.
-/

namespace BankingControlPlane.Evals
open Json

/-- What the language makes of a text, and what it says where a check reads what is not there. -/
structure Language (F : Type) where
  ops : Operators F
  casefold : String → String
  repr : String → String
  complaint : Observation F → String

/-- `name.removeprefix(start)`. -/
def removeprefix (start name : String) : String :=
  if start.toList <+: name.toList then String.ofList (name.toList.drop start.toList.length) else name

/-- `", ".join(sorted(set(names)))`. -/
def listed (names : List String) : String :=
  ", ".intercalate (names.dedup.insertionSort (· ≤ ·))

def strOf {F : Type} : Value F → Option String
  | .str s => some s
  | _ => none

section Observed
variable {F : Type}

/-- A tool's frame, when the tool has run. -/
def ranTool (stage : List (String × Value F)) : Bool :=
  isText "tool" (get "kind" stage) && isText "done" (get "status" stage)

/-- The names of the tools that ran, as often as they did, unless a frame has none. -/
def Observation.toolsCalled (obs : Observation F) : Option (List String) :=
  (obs.stages.filter ranTool).mapM fun stage => ((getItem "name" stage).bind strOf).map <| removeprefix "tool:"

end Observed

section Checks
variable {F : Type} (lang : Language F)

/-- `needle.casefold() in answer.casefold()`. -/
def Language.Within (needle answer : String) : Prop :=
  (lang.casefold needle).toList <:+: (lang.casefold answer).toList

instance (needle answer : String) : Decidable (lang.Within needle answer) :=
  inferInstanceAs (Decidable ((lang.casefold needle).toList <:+: (lang.casefold answer).toList))

/-- The answer must contain every needle. -/
def contains (needles : List String) : Check F where
  name := "contains(" ++ ", ".intercalate needles ++ ")"
  run obs :=
    match obs.answer with
    | .str answer =>
      .returns ((needles.filter fun needle => ¬ lang.Within needle answer).map fun needle =>
        { caseId := obs.caseId, turn := obs.turn, kind := .omission, check := "contains", source := .check,
          expected := needle, actual := brief answer,
          detail := "a resposta não menciona o que a pergunta pedia" })
    | _ => .raises (lang.complaint obs)

/-- The answer must contain none of them. -/
def notContains (needles : List String) : Check F where
  name := "not_contains(" ++ ", ".intercalate needles ++ ")"
  run obs :=
    match obs.answer with
    | .str answer =>
      .returns ((needles.filter fun needle => lang.Within needle answer).map fun needle =>
        { caseId := obs.caseId, turn := obs.turn, kind := .fabrication, check := "not_contains", source := .check,
          expected := "ausência de " ++ lang.repr needle, actual := brief answer,
          detail := "a resposta afirma algo que não existe" })
    | _ => .raises (lang.complaint obs)

/-- Every named tool must have run. -/
def callsTools (names : List String) : Check F where
  name := "calls_tools(" ++ ", ".intercalate names ++ ")"
  metric := "grounding"
  run obs :=
    match obs.toolsCalled with
    | some called =>
      .returns ((names.filter fun name => name ∉ called).map fun name =>
        { caseId := obs.caseId, turn := obs.turn, kind := .wrongPath, check := "calls_tools", source := .check,
          expected := "ferramenta " ++ name,
          actual := if listed called = "" then "nenhuma ferramenta" else listed called,
          detail := "respondeu sem consultar a fonte" })
    | none => .raises (lang.complaint obs)

/-- The named gate must have fired. -/
def blocks (guard : String := "guard_in") : Check F where
  name := "blocks(" ++ guard ++ ")"
  metric := "guard_recall"
  run obs :=
    match obs.blockedBy with
    | some fired =>
      if fired.any (isText guard) then .returns []
      else match quoted lang.ops obs.answer with
        | .ok actual =>
          .returns
            [{ caseId := obs.caseId, turn := obs.turn, kind := .wrongPath, check := "blocks", source := .check,
               expected := guard ++ " bloqueia", actual := actual,
               detail := "a guardrail deixou passar o que deveria barrar" }]
        | .error exc => .raises exc
    | none => .raises (lang.complaint obs)

/-- No gate may fire. -/
def doesNotBlock : Check F where
  name := "does_not_block()"
  metric := "false_block"
  run obs :=
    match obs.blockedBy with
    | some [] => .returns []
    | some fired =>
      match fired.mapM strOf with
      | some names =>
        .returns
          [{ caseId := obs.caseId, turn := obs.turn, kind := .wrongPath, check := "does_not_block", source := .check,
             expected := "nenhuma guardrail dispara", actual := listed names,
             detail := "falso positivo: a guardrail barrou uma pergunta legítima" }]
      | none => .raises (lang.complaint obs)
    | none => .raises (lang.complaint obs)

end Checks

/-- What a case may declare of a turn, without a judge. -/
inductive Assertion where
  | contains (needles : List String)
  | notContains (needles : List String)
  | callsTools (names : List String)
  | blocks (guard : String)
  | doesNotBlock
deriving DecidableEq, Repr

def Assertion.check {F : Type} (lang : Language F) : Assertion → Check F
  | .contains needles => Evals.contains lang needles
  | .notContains needles => Evals.notContains lang needles
  | .callsTools names => Evals.callsTools lang names
  | .blocks guard => Evals.blocks lang guard
  | .doesNotBlock => Evals.doesNotBlock lang

/-- A case whose checks are all deterministic. -/
structure Script where
  id : String
  turns : List String
  checks : List Assertion := []
  turnChecks : List (Int × List Assertion) := []

def Script.case {F : Type} (lang : Language F) (script : Script) : Case F where
  id := script.id
  turns := script.turns
  checks := script.checks.map (Assertion.check lang)
  turnChecks := script.turnChecks.map fun entry => (entry.1, entry.2.map (Assertion.check lang))

end BankingControlPlane.Evals
