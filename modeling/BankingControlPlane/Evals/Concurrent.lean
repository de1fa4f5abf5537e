import BankingControlPlane.Effects.Semaphore
import BankingControlPlane.Evals.Runner

/-!
# A golden set, a bounded number of cases at a time

* `Concurrent` : the semaphore, and the outcomes in the order in which `on_done` is called with them;
* `runGoldenSet` : what has become of the cases after so many moves of the event loop;
* `Concurrent.gathered` : what `gather` returns, once every case has returned.
-/

namespace BankingControlPlane.Evals
open Effects

variable {F : Type}

structure Concurrent (F : Type) where
  limit : Semaphore Nat
  returned : List (Nat × CaseOutcome F) := []

/-- The outcomes, in the order of the calls of `on_done`. -/
def Concurrent.announced (s : Concurrent F) : List (CaseOutcome F) := s.returned.map Prod.snd

/-- The outcomes in the order of the golden set, if every case has returned. -/
def Concurrent.gathered (s : Concurrent F) (cases : Nat) : Option (List (CaseOutcome F)) :=
  (List.range cases).mapM fun i => (s.returned.find? fun r => r.1 = i).map Prod.snd

section Golden
variable (ops : Operators F) (drives : List (Drive F))

/-- The cases, by their place in the golden set. -/
abbrev places : List Nat := List.range drives.length

/-- A case that leaves its slot is announced and returns in the same step. -/
def returning : Semaphore.Move Nat → List (Nat × CaseOutcome F)
  | .leave i => (drives[i]?.map fun d => (i, d.runCase ops)).toList
  | _ => []

def Concurrent.step (s : Concurrent F) (m : Semaphore.Move Nat) : Option (Concurrent F) :=
  (s.limit.move? (places drives) m).map fun limit =>
    { limit := limit, returned := s.returned ++ returning ops drives m }

def runGoldenSet (concurrency : Nat) (moves : List (Semaphore.Move Nat)) : Option (Concurrent F) :=
  moves.foldlM (Concurrent.step ops drives) { limit := { value := concurrency } }

end Golden

end BankingControlPlane.Evals
