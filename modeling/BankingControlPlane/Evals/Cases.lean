import BankingControlPlane.Runtime.Events

/-!
# Golden cases

* `Observation` : one turn as it came off the wire, its payloads as they are; `Observation.blockedBy` : the gates that
  fired on it;
* `Check` : what it does with an observation: findings, an exception, or something that is no list;
* `Case`, `CaseOutcome` : a scripted conversation with its checks, and what it did.
-/

namespace BankingControlPlane.Evals
open Json

inductive FindingKind where
  | omission | fabrication | wrongPath | error
deriving DecidableEq, Repr

inductive Source where
  | check | judge
deriving DecidableEq, Repr

/-- One thing that was wrong with one turn. -/
structure Finding where
  caseId : String
  turn : Nat
  kind : FindingKind
  check : String
  source : Source
  expected : String
  actual : String
  detail : String := ""
deriving DecidableEq, Repr

/-- What makes a run fail whatever else it did: an invented fact, or a gate that refused a legitimate question. -/
def Finding.ZeroTolerance (f : Finding) : Prop := f.kind = .fabrication ∨ f.check = "does_not_block"

instance (f : Finding) : Decidable f.ZeroTolerance := inferInstanceAs (Decidable (_ ∨ _))

section Payloads
variable {F : Type}

/-- `fields.get(name)`. -/
def get (name : String) (fields : List (String × Value F)) : Value F :=
  ((fields.find? fun field => field.1 = name).map Prod.snd).getD .null

/-- `fields.get(name, default)`. -/
def getOr (name : String) (default : Value F) (fields : List (String × Value F)) : Value F :=
  ((fields.find? fun field => field.1 = name).map Prod.snd).getD default

/-- `fields[name]`, unless there is no such key. -/
def getItem (name : String) (fields : List (String × Value F)) : Option (Value F) :=
  (fields.find? fun field => field.1 = name).map Prod.snd

def isNone : Value F → Bool
  | .null => true
  | _ => false

def isText (text : String) : Value F → Bool
  | .str s => s = text
  | _ => false

end Payloads

/-- One turn: its frames, collected. -/
structure Observation (F : Type) where
  caseId : String
  turn : Nat
  question : String
  answer : Value F := .str ""
  stages : List (List (String × Value F)) := []
  error : Value F := .null
  ns : Value F := .null
  traceUrl : Value F := .null

/-- What can be in a set. -/
def hashed : Value F → Option (Value F)
  | .arr _ | .obj _ => none
  | v => some v

/-- The names of the gates that fired, as often as they did, unless a frame has none. -/
def Observation.blockedBy (obs : Observation F) : Option (List (Value F)) :=
  (obs.stages.filter fun stage =>
    (isText "guard_in" (get "kind" stage) || isText "guard_out" (get "kind" stage)) &&
      isText "blocked" (get "status" stage)).mapM fun stage => (getItem "name" stage).bind hashed

/-- What a check does: it returns findings, it raises, or what it returns cannot be gone through, which raises where
it is used. An exception is its type and its text. -/
inductive CheckRun where
  | returns (findings : List Finding)
  | raises (exc : String)
  | returnsOther (exc : String)
deriving DecidableEq, Repr

structure Check (F : Type) where
  name : String
  run : Observation F → CheckRun
  metric : String := ""

/-- Whether one check passed. -/
structure CheckResult where
  name : String
  metric : String
  passed : Bool
deriving DecidableEq, Repr

/-- One scripted conversation: `checks` judge the last turn, `turnChecks` the turn at their index. -/
structure Case (F : Type) where
  id : String
  turns : List String
  checks : List (Check F) := []
  turnChecks : List (Int × List (Check F)) := []

section Case
variable {F : Type} (case : Case F)

def Case.checksFor (turn : Nat) : List (Check F) :=
  ((case.turnChecks.find? fun entry => entry.1 = (turn : Int)).map Prod.snd).getD []

def Case.allChecks : List (Check F) := case.checks ++ case.turnChecks.flatMap Prod.snd

end Case

/-- What one case did. -/
structure CaseOutcome (F : Type) where
  caseId : String
  observations : List (Observation F) := []
  findings : List Finding := []
  checks : List CheckResult := []

end BankingControlPlane.Evals
