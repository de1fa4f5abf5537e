import BankingControlPlane.Effects.Prog
import BankingControlPlane.Plane.Bank

/-!
# What the control plane asks of its store, its bank and its clocks

* `PlaneCall` : one constructor for each method the plane calls, with its answer's type;
* `assign` stands for writing fields of an intent the plane holds: a store that handed out the very
  object sees it, a store that handed out a copy does not;
* `Outcome`, `Reply` : what an operation says back.
-/

namespace BankingControlPlane
open Effects

/-- What a reading of the plane's clock is for. -/
inductive Reading where
  | policy | issue | expiry | confirmed
deriving DecidableEq, Repr

inductive PlaneCall : Type → Type where
  | get (intentId : String) : PlaneCall (Option Intent)
  | byConfirmation (confirmationId : String) : PlaneCall (Option Intent)
  | unsettled (states : List State) : PlaneCall (List Intent)
  | put (intent : Intent) : PlaneCall Unit
  | assign (intent : Intent) : PlaneCall Unit
  | append (intentId : String) (entry : Entry) : PlaneCall Unit
  | eventsFor (intentId : String) : PlaneCall (List Event)
  | clock (use : Reading) : PlaneCall Instant
  | now : PlaneCall Instant
  | newId (stem : String) : PlaneCall String
  | findContacts (name : String) : PlaneCall (List Contact)
  | contact (contactId : String) : PlaneCall (Option Contact)
  | balance (accountId : String) : PlaneCall (Except String Decimal)
  | cardTransactions (days : Nat) : PlaneCall (List Transaction)
  | paidBefore : PlaneCall (List String)
  | payment (idempotencyKey : String) : PlaneCall (Option Receipt)
  | createPix (order : Order) : PlaneCall (Except BankExn Receipt)

/-- What an operation lets escape. -/
inductive Exn where
  | illegalTransition (intentId : String) (state : State) (event : Hop)
  | bankError (message : String)
deriving DecidableEq, Repr

abbrev Plane := Prog PlaneCall Exn

abbrev call {β : Type} (c : PlaneCall β) : Plane β := Prog.perform c

/-! ## What an operation says back -/

inductive Status where
  | decision (d : Decision)
  | completed | failed | cancelled | unknown | pending
deriving DecidableEq, Repr

abbrev Status.deny : Status := .decision .deny

structure Summary where
  action : String
  recipient : String
  amount : String
  display : String
  state : State
deriving DecidableEq, Repr

inductive OutcomeData where
  | empty
  | candidates (found : List (String × String))
  | missingPreconditions (missing : List String)
  | summary (summary : Summary) (receipt : Option Receipt)
  | balance (accountId balance display : String)
  | transactions (days : Nat) (rows : List (Transaction × String))
deriving DecidableEq, Repr

structure Outcome where
  status : Status
  message : String
  intentId : Option String := none
  confirmationId : Option String := none
  data : OutcomeData := .empty
deriving DecidableEq, Repr

inductive Reply where
  | outcome (o : Outcome)
  | ids (intentIds : List String)
  | trail (events : List Event)
deriving DecidableEq, Repr

/-- The status an intent's state reports, when it reports one. -/
def State.settled : State → Option Status
  | .completed => some .completed
  | .failed => some .failed
  | .cancelled => some .cancelled
  | .unknown => some .unknown
  | .pending => some .pending
  | _ => none

/-- Digits in threes, from the last. -/
def groupThrees : List Char → List Char
  | a :: b :: c :: d :: rest => a :: b :: c :: '.' :: groupThrees (d :: rest)
  | cs => cs

/-- `R$ 1.234,56`. -/
def brl (amount : Decimal) : String :=
  let whole := amount.roundCents / 100
  "R$ " ++ (if amount.negative ∧ whole ≠ 0 then "-" else "") ++
    String.ofList (groupThrees (Nat.toDigits 10 whole).reverse).reverse ++ "," ++
    pad2 (amount.roundCents % 100)

example : [brl (.cents 123456), brl (.cents 13), brl (.cents 100000000)] =
    ["R$ 1.234,56", "R$ 0,13", "R$ 1.000.000,00"] := by decide

end BankingControlPlane
