import BankingControlPlane.Plane.Calls

/-!
# The control plane's operations

Each operation is a program over `PlaneCall`, in the source's order of calls.

* the write path: `propose`, `stepUp`, `confirm`, `cancel`;
* recovery: `reconcile`, `sweep`; readings: `query`, `status`, `explain`;
* `move` : one hop of the machine, then saved; `decideOn` and `applyVerdict` : risk, policy and the hop
  policy asked for; `execute` : the one place the bank is asked to move money;
* `Op` : an operation with its arguments, and `Op.prog` its program.
-/

namespace BankingControlPlane
open Effects

/-- `DEFAULT_ACCOUNT`. -/
def defaultAccount : String := "checking_001"

/-! ## One hop -/

/-- Fields of the held intent are written. -/
def assign (intent : Intent) : Plane Intent := do
  call (.assign intent)
  return intent

/-- The ledger row is written before the state changes. -/
def transition (intent : Intent) (event : Hop) (detail : Detail) : Plane Intent :=
  match TRANSITIONS intent.state event with
  | none => do
    call (.append intent.id (.transitionRefused intent.state event))
    .raise (.illegalTransition intent.id intent.state event)
  | some target => do
    call (.append intent.id (.transition intent.state event target detail))
    assign { intent with state := target }

/-- One hop of the state machine, then saved. -/
def move (intent : Intent) (event : Hop) (detail : Detail := .none) : Plane Intent := do
  let intent ← transition intent event detail
  call (.put intent)
  return intent

/-- `try … except IllegalTransition`. -/
def attempt {α : Type} (p : Plane α) : Plane (Option α) :=
  Prog.handle (do let a ← p; return some a) fun
    | .illegalTransition .. => .ret none
    | e => .raise e

/-- A reason written and saved. -/
def saveReason (intent : Intent) (reason : String) : Plane Intent := do
  let intent ← assign { intent with reason := reason }
  call (.put intent)
  return intent

/-! ## What is said back -/

def unknown (ref : String) : Outcome :=
  { status := .deny, message := "unknown reference for this session: " ++ ref }

def summary (intent : Intent) : Plane Summary := do
  let contact ← call (.contact intent.action.recipientId)
  return {
    action := "CREATE_PIX"
    recipient := (contact.map Contact.name).getD intent.action.recipientId
    amount := intent.action.amount.val.str
    display := brl intent.action.amount.val
    state := intent.state }

/-- The intent as an outcome; `status` overrides the state's own. -/
def statusOf (intent : Intent) (message : String := "") (status : Option Status := none) :
    Plane Outcome := do
  let summary ← summary intent
  return {
    status := status.getD (intent.state.settled.getD .deny)
    message := if message = "" then intent.reason else message
    intentId := some intent.id
    confirmationId := intent.confirmationId
    data := .summary summary intent.receipt }

/-! ## Who may see what -/

def samePrincipal (intent : Intent) (ctx : Context) : Prop :=
  intent.context.customerId = ctx.customerId ∧ intent.context.sessionId = ctx.sessionId

instance (intent : Intent) (ctx : Context) : Decidable (samePrincipal intent ctx) :=
  inferInstanceAs (Decidable (_ ∧ _))

/-- The intent, if this customer owns it; the session is not compared. -/
def ownedByCustomer (ctx : Context) (intentId : String) : Plane (Option Intent) := do
  let intent ← call (.get intentId)
  return intent.filter fun i => i.context.customerId = ctx.customerId

def owned (ctx : Context) (intentId : String) : Plane (Option Intent) := do
  let intent ← call (.get intentId)
  return intent.filter fun i => samePrincipal i ctx

def byConfirmation (ctx : Context) (confirmationId : String) : Plane (Option Intent) := do
  let intent ← call (.byConfirmation confirmationId)
  return intent.filter fun i => samePrincipal i ctx

/-- Who opened this trail. -/
def principalOf (events : List Event) : Option (String × String) :=
  events.findSome? fun e => e.entry.principal

/-! ## The execution gateway -/

def Intent.order (intent : Intent) : Order :=
  { idempotencyKey := intent.idempotencyKey
    sourceAccount := intent.action.sourceAccount
    recipientId := intent.action.recipientId
    amount := intent.action.amount }

def executeAnswer (intent : Intent) : Except BankExn Receipt → Plane Outcome
  | .error (.timeout message) => do
    call (.append intent.id (.backendError message))
    let intent ← move intent .timeout
    statusOf intent "the bank did not answer; payment may have completed — check before retrying"
  | .error (.error message) => do
    call (.append intent.id (.backendError message))
    let intent ← move intent .fail (.reason message)
    let intent ← assign { intent with reason := message }
    statusOf intent message
  | .ok receipt => do
    let intent ← assign { intent with receipt := some receipt }
    call (.append intent.id (.backendReceipt receipt))
    let intent ← move intent .complete
    statusOf intent "payment completed"

def execute (intent : Intent) : Plane Outcome := do
  let intent ← move intent .submit
  call (.append intent.id (.executionRequest intent.idempotencyKey))
  let answer ← call (.createPix intent.order)
  executeAnswer intent answer

/-! ## The write path -/

section WritePath
variable (env : Env)

def applyVerdict (intent : Intent) (verdict : Verdict) : Plane Outcome :=
  match verdict.decision with
  | .deny => do
    let intent ← move intent .reject (.rule verdict.rule)
    let intent ← saveReason intent verdict.reason
    statusOf intent verdict.reason (some .deny)
  | .requireStepUpAuth => do
    let intent ← move intent .requireStepUp (.rule verdict.rule)
    let summary ← summary intent
    return {
      status := .decision .requireStepUpAuth
      message := verdict.reason
      intentId := some intent.id
      data := .summary summary none }
  | .requireConfirmation => do
    let confirmationId ← call (.newId "conf")
    let issuedAt ← call (.clock .issue)
    let digest := actionDigest env intent.action
    let intent ← assign { intent with
      confirmationId := some confirmationId
      confirmationIssuedAt := some issuedAt
      actionDigest := some digest }
    let intent ← move intent .awaitConfirmation (.token confirmationId digest)
    let summary ← summary intent
    return {
      status := .decision .requireConfirmation
      message := "present this exact amount and recipient and request explicit confirmation"
      intentId := some intent.id
      confirmationId := some confirmationId
      data := .summary summary none }
  | .allow | .requireMoreInfo | .escalate => do
    -- No rule gives these for a write: an unexpected verdict stops.
    let intent ← move intent .reject (.rule verdict.rule)
    let reason := "decision has no execution path: " ++ verdict.decision.str
    let intent ← saveReason intent reason
    statusOf intent reason (some .deny)

/-- Risk, then policy, then the hop policy asked for. -/
def decideOn (intent : Intent) : Plane Outcome := do
  let paidBefore ← call .paidBefore
  let risk := assessRisk intent.action intent.context paidBefore
  call (.append intent.id (.risk risk))
  let moment ← call (.clock .policy)
  let verdict := evaluate env.zone intent.action intent.context risk moment
  call (.append intent.id (.policy verdict))
  applyVerdict env intent verdict

def missingPreconditions (intent : Intent) : Plane (List String) := do
  let balance ← call (.balance intent.action.sourceAccount)
  let contact ← call (.contact intent.action.recipientId)
  let funds :=
    match balance with
    | .error _ => ["source_account"]
    | .ok balance => if balance < intent.action.amount.val then ["sufficient_funds"] else []
  return funds ++ if contact = none then ["resolved_recipient"] else []

/-- The tail of `propose`: the canonical action, its preconditions, then the decision. -/
def proposeTo (ctx : Context) (proposed : ProposedPix) (intentId : String) (recipient : Contact) :
    Plane Outcome := do
  let action : CreatePix :=
    { sourceAccount := defaultAccount
      recipientId := recipient.id
      amount := proposed.amount
      currency := proposed.currency }
  let createdAt ← call .now
  let intent : Intent := { id := intentId, action := action, context := ctx, createdAt := createdAt }
  call (.put intent)
  call (.append intent.id (.canonicalAction action))
  let missing ← missingPreconditions intent
  if missing ≠ [] then
    let intent ← move intent .reject (.reason "preconditions")
    -- The source saves no more here: the reason stays on the held object.
    let intent ← assign { intent with reason := ", ".intercalate missing }
    return {
      status := .deny
      message := "unmet preconditions: " ++ intent.reason
      intentId := some intent.id
      data := .missingPreconditions missing }
  else
    let intent ← move intent .validate
    decideOn env intent

def propose (ctx : Context) (proposed : ProposedPix) (requestText : String) : Plane Outcome := do
  let intentId ← call (.newId "pix")
  call (.append intentId (.request ctx.customerId ctx.sessionId ctx.channel (.text requestText)))
  call (.append intentId (.interpreted proposed))
  let found ← call (.findContacts proposed.recipient)
  call (.append intentId (.resolution proposed.recipient (found.map Contact.id)))
  match found with
  | [] =>
    return {
      status := .decision .requireMoreInfo
      message := "no contact named " ++ env.repr proposed.recipient ++
        "; ask for a PIX key or full name"
      intentId := some intentId
      data := .candidates [] }
  | [recipient] => proposeTo env ctx proposed intentId recipient
  | found =>
    return {
      status := .decision .requireMoreInfo
      message := toString found.length ++ " contacts match " ++ env.repr proposed.recipient ++
        "; ask which one"
      intentId := some intentId
      data := .candidates (found.map fun c => (c.id, c.name)) }

def stepUp (ctx : Context) (intentId : String) : Plane Outcome := do
  match ← ownedByCustomer ctx intentId with
  | none => return unknown intentId
  | some intent =>
    if intent.state ≠ .awaitingStepUp then
      statusOf intent "this action is not awaiting authentication" (some .deny)
    else
      let intent ← assign { intent with context := { intent.context with assurance := .strong } }
      call (.put intent)
      let instant ← call .now
      call (.append intent.id (.stepUp "simulated_mobile_biometric" instant))
      let intent ← move intent .stepUp
      decideOn env intent

/-- Has the token outlived its TTL? No issue time means no expiry. -/
def expired (intent : Intent) : Plane Bool :=
  match intent.confirmationIssuedAt with
  | none => return false
  | some issuedAt => do
    let instant ← call (.clock .expiry)
    return (confirmationTtl < instant - issuedAt : Bool)

def confirmExpired (intent : Intent) : Plane Outcome := do
  call (.append intent.id
    (.confirmationExpired (intent.confirmationIssuedAt.getD 0) (confirmationTtl / 1000000)))
  let intent ← move intent .cancel (.reason "confirmation_expired")
  let intent ← saveReason intent "confirmação expirada; proponha novamente"
  statusOf intent intent.reason

/-- The tail of `confirm`: the consent is recorded, then the payment made. -/
def confirmAuthorized (ctx : Context) (confirmationId : String) (intent : Intent) :
    Plane Outcome := do
  let confirmedAt ← call (.clock .confirmed)
  let intent ← assign { intent with
    confirmedAt := some confirmedAt
    confirmedBy := some ctx.customerId }
  call (.put intent)
  call (.append intent.id (.confirmation confirmationId ctx.customerId ctx.sessionId ctx.channel
    confirmedAt intent.action))
  let intent ← move intent .confirm
  call (.append intent.id (.authorization intent.context.assurance))
  execute intent

/-- The states in which a repeated confirmation is only noted. -/
def alreadyExecuted : State → Bool
  | .completed | .submitted | .pending | .unknown => true
  | _ => false

def confirm (ctx : Context) (confirmationId : String) : Plane Outcome := do
  match ← byConfirmation ctx confirmationId with
  | none => return unknown confirmationId
  | some intent =>
    if alreadyExecuted intent.state then
      call (.append intent.id (.duplicateConfirmation intent.state))
      statusOf intent "already executed; no new payment was made"
    else if intent.state ≠ .awaitingConfirmation then
      statusOf intent "this action is not awaiting confirmation" (some .deny)
    else if ← expired intent then
      confirmExpired intent
    else if actionDigest env intent.action ≠ intent.actionDigest.getD "" then
      call (.append intent.id (.digestMismatch intent.actionDigest (actionDigest env intent.action)))
      statusOf intent "a ação mudou depois da confirmação; nada foi executado" (some .deny)
    else
      confirmAuthorized ctx confirmationId intent

def cancel (ctx : Context) (confirmationId : String) : Plane Outcome := do
  match ← byConfirmation ctx confirmationId with
  | none => return unknown confirmationId
  | some intent =>
    match ← attempt (move intent .cancel (.by ctx.customerId)) with
    | none => statusOf intent "this action can no longer be cancelled" (some .deny)
    | some intent =>
      let intent ← saveReason intent "cancelled by the customer"
      statusOf intent intent.reason

/-! ## Recovery and readings -/

def reconcile (ctx : Context) (intentId : String) : Plane Outcome := do
  match ← ownedByCustomer ctx intentId with
  | none => return unknown intentId
  | some intent =>
    if intent.state ≠ .unknown then statusOf intent
    else
      let receipt ← call (.payment intent.idempotencyKey)
      call (.append intent.id (.reconciliation receipt.isSome))
      match receipt with
      | none =>
        let intent ← move intent .fail (.reason "the bank did not record the payment")
        let intent ← saveReason intent "not executed"
        statusOf intent intent.reason
      | some receipt =>
        let intent ← assign { intent with receipt := some receipt }
        let intent ← move intent .complete .reconciled
        statusOf intent "confirmed with the bank: the payment was made"

def sweepEach : List Intent → Plane Unit
  | [] => return ()
  | intent :: rest => do
    call (.append intent.id (.restartSweep .submitted .unknown))
    let intent ← move intent .timeout (.by "restart_sweep")
    let _ ← saveReason intent "processo reiniciou antes da resposta do banco"
    sweepEach rest

/-- What the last process left in `SUBMITTED` becomes `UNKNOWN`. -/
def sweep : Plane (List String) := do
  let stranded ← call (.unsettled [.submitted])
  sweepEach stranded
  return stranded.map Intent.id

def status (ctx : Context) (intentId : String) : Plane Outcome := do
  match ← owned ctx intentId with
  | none => return unknown intentId
  | some intent => statusOf intent

/-- The audit trail, for the principal that opened it. -/
def explain (ctx : Context) (intentId : String) : Plane (List Event) := do
  let events ← call (.eventsFor intentId)
  return if principalOf events = some (ctx.customerId, ctx.sessionId) then events else []

def readAnswer : ReadAction → Plane OutcomeData
  | .getBalance accountId => do
    match ← call (.balance accountId) with
    | .error message => .raise (.bankError message)
    | .ok balance => return .balance accountId balance.str (brl balance)
  | .getCardTransactions days => do
    let rows ← call (.cardTransactions days)
    return .transactions days (rows.map fun t => (t, brl t.amount))

def query (ctx : Context) (action : ReadAction) : Plane Outcome := do
  let rid ← call (.newId "read")
  call (.append rid (.request ctx.customerId ctx.sessionId ctx.channel (.read action)))
  if assuranceRank ctx.assurance < assuranceRank action.capability.requiredAssurance then
    call (.append rid (.result .deny (some "read_assurance")))
    return {
      status := .deny
      message := "session assurance is insufficient"
      intentId := some rid }
  else
    let data ← readAnswer action
    call (.append rid (.result .allow none))
    return {
      status := .decision .allow
      message := ""
      intentId := some rid
      data := data }

end WritePath

/-! ## An operation with its arguments -/

inductive Op where
  | query (ctx : Context) (action : ReadAction)
  | propose (ctx : Context) (proposed : ProposedPix) (requestText : String)
  | stepUp (ctx : Context) (intentId : String)
  | confirm (ctx : Context) (confirmationId : String)
  | cancel (ctx : Context) (confirmationId : String)
  | reconcile (ctx : Context) (intentId : String)
  | sweep
  | status (ctx : Context) (intentId : String)
  | explain (ctx : Context) (intentId : String)
deriving DecidableEq, Repr

/-- What `run` answers, as a reply. -/
def replying {α : Type} (f : α → Reply) (p : Plane α) : Plane Reply := do
  let a ← p
  return f a

def Op.prog (env : Env) : Op → Plane Reply
  | .query ctx action => replying .outcome (BankingControlPlane.query ctx action)
  | .propose ctx proposed text => replying .outcome (BankingControlPlane.propose env ctx proposed text)
  | .stepUp ctx intentId => replying .outcome (BankingControlPlane.stepUp env ctx intentId)
  | .confirm ctx confirmationId =>
    replying .outcome (BankingControlPlane.confirm env ctx confirmationId)
  | .cancel ctx confirmationId => replying .outcome (BankingControlPlane.cancel ctx confirmationId)
  | .reconcile ctx intentId => replying .outcome (BankingControlPlane.reconcile ctx intentId)
  | .sweep => replying .ids BankingControlPlane.sweep
  | .status ctx intentId => replying .outcome (BankingControlPlane.status ctx intentId)
  | .explain ctx intentId => replying .trail (BankingControlPlane.explain ctx intentId)

end BankingControlPlane
