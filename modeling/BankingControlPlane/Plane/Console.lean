import BankingControlPlane.Plane.World

/-!
# The operator's commands

`trail intents`, `trail step-up` and `trail reconcile`: a process of its own, over the durable table the
agent writes to.

* `ATTENTION_STATES`, `NEXT_STEP` : what waits on a person, worst first, and the command for it;
* `operatorContext` : the customer, in a session of the command's own;
* `waiting`, `Console.intents` : the listing;
* `Console.stepUp`, `Console.reconcile` : one operation, what is printed of it, and the exit code.
-/

namespace BankingControlPlane
open Effects

/-! ## What waits on a person -/

def ATTENTION_STATES : List State :=
  [.unknown, .submitted, .pending, .awaitingStepUp, .awaitingConfirmation]

/-- What an intent in this state waits for, and the command that gives it. -/
def NEXT_STEP (id : String) : State → Option String
  | .unknown => some ("trail reconcile " ++ id)
  | .awaitingStepUp => some ("trail step-up " ++ id)
  | .awaitingConfirmation => some "confirme na conversa (a sessão que propôs)"
  | .submitted => some "em voo; se o processo caiu, o sweep move para UNKNOWN no boot"
  | .pending => some "o banco ainda não liquidou; aguarde e liste de novo"
  | _ => none

/-- The customer the process is configured for, in a session drawn for this command. -/
def operatorContext (customerId session : String) (channel : Channel) : Context :=
  { customerId := customerId, sessionId := session, channel := channel }

/-- `ATTENTION_STATES.index(i.state)`, then `i.created_at`. -/
def Intent.before (i j : Intent) : Prop :=
  ATTENTION_STATES.idxOf i.state < ATTENTION_STATES.idxOf j.state ∨
    ATTENTION_STATES.idxOf i.state = ATTENTION_STATES.idxOf j.state ∧ i.createdAt ≤ j.createdAt

instance (i j : Intent) : Decidable (i.before j) := inferInstanceAs (Decidable (_ ∨ _))

/-- This customer's intents that wait on a person, worst first. -/
def attention (customerId : String) (unsettled : List Intent) : List Intent :=
  (unsettled.filter fun i => i.context.customerId = customerId).insertionSort Intent.before

/-! ## What is printed -/

/-- A row of the listing; `created` is written `%Y-%m-%d %H:%M:%S`. -/
structure ListedIntent where
  id : String
  state : State
  amount : String
  recipient : String
  created : Instant
  nextStep : String
deriving DecidableEq, Repr

def ListedIntent.of (i : Intent) : ListedIntent where
  id := i.id
  state := i.state
  amount := brl i.action.amount.val
  recipient := i.action.recipientId
  created := i.createdAt
  nextStep := (NEXT_STEP i.id i.state).getD "—"

/-- What a command prints below its banner. -/
inductive Printed where
  | text (line : String)
  | table (rows : List ListedIntent)
  | unknown (count : Nat)
  | known (payments : Nat)
  | outcome (o : Outcome)
deriving DecidableEq, Repr

/-- An exception that escapes the operation ends the process with 1, and a refusal does. -/
def exitCode : Except Exn Reply → Nat
  | .ok (.outcome o) => if o.status = .deny then 1 else 0
  | _ => 1

def rendered : Except Exn Reply → List Printed
  | .ok (.outcome o) => [.outcome o]
  | _ => []

namespace Console

def intents (customerId : String) (w : World) : List Printed :=
  match attention customerId (w.unsettled .postgres ATTENTION_STATES) with
  | [] => [.text "nada aguardando ação"]
  | waiting =>
    let unknown := waiting.countP fun i => i.state = .unknown
    .table (waiting.map ListedIntent.of) :: if unknown = 0 then [] else [.unknown unknown]

/-- The rows of the listing. -/
def listed (customerId : String) (w : World) : List ListedIntent :=
  (intents customerId w).flatMap fun
    | .table rows => rows
    | _ => []

section Commands
variable (env : Env) (customerId session intentId : String) (w : World)

/-- The simulated mobile callback. -/
def stepUp : List Printed × Nat × World :=
  let (reply, w') := exec env .postgres (.stepUp (operatorContext customerId session .mobile) intentId) w
  let registered := match reply with
    | .ok (.outcome o) => if o.status = .decision .requireConfirmation then
        [.text ("a autenticação foi registrada; a confirmação continua sendo do cliente, na conversa " ++
          "onde o PIX foi proposto")]
      else []
    | _ => []
  (rendered reply ++ registered, exitCode reply, w')

/-- The count of payments the bank knows is printed before the answer. -/
def reconcile : List Printed × Nat × World :=
  let (reply, w') := exec env .postgres (.reconcile (operatorContext customerId session .web) intentId) w
  (.text "perguntando ao banco pela chave de idempotência; nenhum pagamento novo é feito por este comando" ::
    .known w.bank.payments.length :: rendered reply, exitCode reply, w')

end Commands

end Console

end BankingControlPlane
