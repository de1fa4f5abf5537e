import BankingControlPlane.Json.Scan
import BankingControlPlane.Text.Strings

/-!
# Frames on the wire

* `WireName` : the four names that cross the boundary;
* `sse` : one frame as a Server-Sent Event;
* `iterSse` : what is read off the lines of a stream; it stops where a payload is no JSON.
-/

namespace BankingControlPlane
open Json Text

inductive WireName where
  | stage | turn | error | trace
deriving DecidableEq, Repr

def WireName.text : WireName → List Char
  | .stage => ['s', 't', 'a', 'g', 'e']
  | .turn => ['t', 'u', 'r', 'n']
  | .error => ['e', 'r', 'r', 'o', 'r']
  | .trace => ['t', 'r', 'a', 'c', 'e']

def eventMark : List Char := ['e', 'v', 'e', 'n', 't', ':']

def dataMark : List Char := ['d', 'a', 't', 'a', ':']

section Events
variable {F : Type} (fl : Floats F)

/-- One frame, unless its payload cannot be written. -/
def sse (event : List Char) (data : Value F) : Option (List Char) :=
  (dumps fl data).map fun payload =>
    eventMark ++ ' ' :: event ++ '\n' :: dataMark ++ ' ' :: payload ++ ['\n', '\n']

/-- What was yielded, and whether an exception came next. -/
structure Yielded (F : Type) where
  frames : List (List Char × Value F)
  raised : Bool

def iterSse : List Char → List (List Char) → Yielded F
  | _, [] => ⟨[], false⟩
  | event, line :: rest =>
    if line = [] then iterSse [] rest
    else if eventMark <+: line then iterSse (strip (line.drop 6)) rest
    else if dataMark <+: line ∧ event ≠ [] then
      match loads fl (strip (line.drop 5)) with
      | none => ⟨[], true⟩
      | some data =>
        let later := iterSse event rest
        ⟨(event, data) :: later.frames, later.raised⟩
    else iterSse event rest

end Events

end BankingControlPlane
