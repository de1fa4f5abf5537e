import BankingControlPlane.Plane.World
import Mathlib.Logic.Function.Basic

/-!
# Tools, and a plane for each conversation

* `contextFor` : who is acting, from what the channel put into `configurable`;
* `Scopes` : one store, and a bank for each conversation that has called a tool;
* `planeFor` : the shared store with the conversation's own bank;
* `callTool` : one tool call, which is one operation on that plane, or none.
-/

namespace BankingControlPlane

/-- What the channel puts into the graph's `configurable`. -/
structure Configurable where
  customerId : Option String := none
  threadId : Option String := none
deriving DecidableEq, Repr

/-- A fixture for callers with no channel. -/
def DEFAULT_CUSTOMER_ID : String := "cust_123"

/-- `configurable.get("customer_id") or DEFAULT_CUSTOMER_ID`, and the thread as the session. -/
def contextFor (runtime : Configurable) : Context :=
  { customerId := if runtime.customerId.getD "" = "" then DEFAULT_CUSTOMER_ID else runtime.customerId.getD ""
    sessionId := runtime.threadId.getD "no-thread"
    channel := .whatsapp }

/-- Another bank with this one's opening position and none of its movement. -/
def MockBank.fresh (opening : MockBank) : MockBank := { opening with payments := [] }

/-- A conversation: customer and session. -/
abbrev Scope := String × String

def Context.scope (ctx : Context) : Scope := (ctx.customerId, ctx.sessionId)

/-- `_SCOPES[PLANE]`: the planes share everything but the bank. -/
structure Scopes where
  world : World := {}
  banks : Scope → Option MockBank := fun _ => none

/-- The bank of a conversation, in its opening position before the first call. -/
def Scopes.bankOf (opening : MockBank) (s : Scopes) (scope : Scope) : MockBank :=
  (s.banks scope).getD opening.fresh

/-- The plane of one conversation: the shared store, a bank of its own. -/
def planeFor (opening : MockBank) (s : Scopes) (ctx : Context) : World :=
  { s.world with bank := s.bankOf opening ctx.scope }

/-- The four tools about a payment. A proposal comes with what `_amount` and `ProposedPix` made of its two
texts: the reason to ask again, or the action. -/
inductive Tool where
  | proposePix (recipient amount : String) (parsed : Except String ProposedPix)
  | confirmPix (confirmationId : String)
  | cancelPix (confirmationId : String)
  | checkPix (intentId : String)

/-- What the tool asks of the plane, or its answer if it asks nothing. -/
def Tool.op (ctx : Context) : Tool → Except Outcome Op
  | .proposePix _ _ (.error message) =>
    .error { status := .decision .requireMoreInfo, message := message }
  | .proposePix recipient amount (.ok proposed) =>
    .ok (.propose ctx proposed (recipient ++ " " ++ amount))
  | .confirmPix confirmationId => .ok (.confirm ctx confirmationId)
  | .cancelPix confirmationId => .ok (.cancel ctx confirmationId)
  | .checkPix intentId => .ok (.reconcile ctx intentId)

/-- An operation on the plane of this conversation. -/
def Scopes.serve (env : Env) (opening : MockBank) (s : Scopes) (ctx : Context) (op : Op) :
    Except Exn Reply × Scopes :=
  let (reply, w) := exec env .memory op (planeFor opening s ctx)
  (reply, { world := w, banks := Function.update s.banks ctx.scope (some w.bank) })

def callTool (env : Env) (opening : MockBank) (runtime : Configurable) (tool : Tool) (s : Scopes) :
    Except Exn Reply × Scopes :=
  let ctx := contextFor runtime
  match tool.op ctx with
  | .error outcome => (.ok (.outcome outcome), s)
  | .ok op => s.serve env opening ctx op

/-- What tool calls lead to, each admissible where it is made. -/
inductive Talks (env : Env) (opening : MockBank) (admissible : Scopes → Configurable → Tool → Prop) :
    Scopes → Prop
  | start : Talks env opening admissible {}
  | call {s : Scopes} (runtime : Configurable) (tool : Tool) (hs : Talks env opening admissible s)
    (ha : admissible s runtime tool) :
    Talks env opening admissible (callTool env opening runtime tool s).2

theorem callTool_answered {env : Env} {opening : MockBank} {runtime : Configurable} {tool : Tool}
    {s : Scopes} {outcome : Outcome} (h : tool.op (contextFor runtime) = .error outcome) :
    callTool env opening runtime tool s = (.ok (.outcome outcome), s) := by
  simp only [callTool, h]

theorem callTool_op {env : Env} {opening : MockBank} {runtime : Configurable} {tool : Tool}
    {s : Scopes} {op : Op} (h : tool.op (contextFor runtime) = .ok op) :
    callTool env opening runtime tool s = s.serve env opening (contextFor runtime) op := by
  simp only [callTool, h]

theorem Scopes.bankOf_serve (env : Env) (opening : MockBank) (s : Scopes) (ctx : Context) (op : Op)
    (scope : Scope) :
    (s.serve env opening ctx op).2.bankOf opening scope =
      if scope = ctx.scope then (exec env .memory op (planeFor opening s ctx)).2.bank
      else s.bankOf opening scope := by
  simp only [Scopes.serve, Scopes.bankOf, Function.update_apply]
  split_ifs <;> rfl

end BankingControlPlane
