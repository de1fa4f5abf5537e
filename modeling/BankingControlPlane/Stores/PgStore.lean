import BankingControlPlane.Data.Numerals
import BankingControlPlane.Json.Value
import BankingControlPlane.Plane.World

/-!
# Intents in Postgres

* `PgIntent` : an intent as the source types it, its receipt any JSON object;
* `IntentRow` : the columns of `intents`; `IntentRow.ofIntent`, `toIntent` : an intent as a row, and a row back;
* `put`, `get`, `byConfirmation`, `unsettled` : the statements of `PgStore`;
* `toIntent_ofIntent` : a row written from an intent is read back as the intent.

A JSONB column keeps the JSON value it is given, a TIMESTAMPTZ column the instant, a TEXT column the
text.
-/

namespace BankingControlPlane

/-- A JSON object. -/
abbrev Dict (F : Type) : Type := List (String × Json.Value F)

/-- `Intent`, whose receipt may be any dict. -/
structure PgIntent (F : Type) where
  id : String
  action : CreatePix
  context : Context
  state : State := .created
  createdAt : Instant
  confirmationId : Option String := none
  confirmationIssuedAt : Option Instant := none
  actionDigest : Option String := none
  confirmedAt : Option Instant := none
  confirmedBy : Option String := none
  receipt : Option (Dict F) := none
  reason : String := ""

/-! ## Names as text -/

def Channel.str : Channel → String
  | .whatsapp => "whatsapp"
  | .web => "web"
  | .mobile => "mobile"

def Assurance.str : Assurance → String
  | .low => "low"
  | .medium => "medium"
  | .strong => "strong"

def State.str : State → String
  | .created => "CREATED"
  | .validated => "VALIDATED"
  | .awaitingStepUp => "AWAITING_STEP_UP"
  | .awaitingConfirmation => "AWAITING_CONFIRMATION"
  | .authorized => "AUTHORIZED"
  | .submitted => "SUBMITTED"
  | .pending => "PENDING"
  | .completed => "COMPLETED"
  | .failed => "FAILED"
  | .cancelled => "CANCELLED"
  | .reversed => "REVERSED"
  | .unknown => "UNKNOWN"

/-- The member of an enumeration that a text names. -/
def named {α : Type} (str : α → String) (members : List α) (s : String) : Option α :=
  members.find? fun a => str a = s

def Channel.ofStr? : String → Option Channel := named Channel.str [.whatsapp, .web, .mobile]

def Assurance.ofStr? : String → Option Assurance := named Assurance.str [.low, .medium, .strong]

def State.ofStr? : String → Option State :=
  named State.str [.created, .validated, .awaitingStepUp, .awaitingConfirmation, .authorized,
    .submitted, .pending, .completed, .failed, .cancelled, .reversed, .unknown]

theorem Channel.ofStr?_str (c : Channel) : Channel.ofStr? c.str = some c := by
  cases c <;> decide

theorem Assurance.ofStr?_str (a : Assurance) : Assurance.ofStr? a.str = some a := by
  cases a <;> decide

theorem State.ofStr?_str (s : State) : State.ofStr? s.str = some s := by
  cases s <;> decide

/-! ## JSON -/

/-- What a statement of the store raises. -/
inductive StoreExn where
  | validation
  | uniqueViolation
deriving DecidableEq, Repr

section Json
variable {F : Type}

/-- `d.get(name)`. -/
def fieldOf (d : Dict F) (name : String) : Option (Json.Value F) :=
  (d.find? fun f => f.1 = name).map Prod.snd

def textOf : Json.Value F → Option String
  | .str s => some s
  | _ => none

/-- `context.model_dump(mode="json")`. -/
def Context.json (c : Context) : Json.Value F :=
  .obj [("customer_id", .str c.customerId), ("session_id", .str c.sessionId),
    ("channel", .str c.channel.str), ("device_trusted", .bool c.deviceTrusted),
    ("assurance", .str c.assurance.str)]

/-- `action.model_dump(mode="json")`. -/
def CreatePix.json (a : CreatePix) : Json.Value F :=
  .obj [("action", .str "CREATE_PIX"), ("source_account", .str a.sourceAccount),
    ("recipient_id", .str a.recipientId), ("amount", .str a.amount.val.str),
    ("currency", .str a.currency.str)]

/-- `extra="forbid"`. -/
def noExtra (d : Dict F) (names : List String) : Bool := d.all fun f => f.1 ∈ names

/-- A field with a default. -/
def fieldOr {α : Type} (d : Dict F) (name : String) (default : α) (read : Json.Value F → Option α) :
    Option α :=
  match fieldOf d name with
  | none => some default
  | some v => read v

def boolOf : Json.Value F → Option Bool
  | .bool b => some b
  | _ => none

/-- `Context.model_validate`, of the types `model_dump` writes. -/
def Context.validate : Json.Value F → Option Context
  | .obj d => do
    guard (noExtra d ["customer_id", "session_id", "channel", "device_trusted", "assurance"])
    let customerId ← (fieldOf d "customer_id").bind textOf
    let sessionId ← (fieldOf d "session_id").bind textOf
    let channel ← fieldOr d "channel" .whatsapp fun v => (textOf v).bind Channel.ofStr?
    let deviceTrusted ← fieldOr d "device_trusted" true boolOf
    let assurance ← fieldOr d "assurance" .medium fun v => (textOf v).bind Assurance.ofStr?
    return { customerId, sessionId, channel, deviceTrusted, assurance }
  | _ => none

/-- An amount from its text. -/
def Money.ofText (s : String) : Option Money :=
  match Decimal.ofText? s.toList with
  | some (.finite d) => if h : isMoney d = true then some ⟨d, h⟩ else none
  | _ => none

def literal (expected : String) (s : String) : Option Unit := if s = expected then some () else none

/-- `CreatePix.model_validate`, of the types `model_dump` writes. -/
def CreatePix.validate : Json.Value F → Option CreatePix
  | .obj d => do
    guard (noExtra d ["action", "source_account", "recipient_id", "amount", "currency"])
    fieldOr d "action" () fun v => (textOf v).bind (literal "CREATE_PIX")
    let sourceAccount ← (fieldOf d "source_account").bind textOf
    let recipientId ← (fieldOf d "recipient_id").bind textOf
    let amount ← ((fieldOf d "amount").bind textOf).bind Money.ofText
    fieldOr d "currency" () fun v => (textOf v).bind (literal "BRL")
    return { sourceAccount, recipientId, amount }
  | _ => none

theorem Money.ofText_str (m : Money) : Money.ofText m.val.str = some m := by
  unfold Money.ofText
  rw [Decimal.ofText?_str]
  dsimp only
  rw [dif_pos m.valid]

theorem Context.validate_json (c : Context) : Context.validate (F := F) c.json = some c := by
  obtain ⟨customerId, sessionId, channel, deviceTrusted, assurance⟩ := c
  simp [Context.validate, Context.json, noExtra, fieldOf, fieldOr, textOf, boolOf,
    Channel.ofStr?_str, Assurance.ofStr?_str]

/-- The amount comes back as it was printed, digit for digit. -/
theorem CreatePix.validate_json (a : CreatePix) : CreatePix.validate (F := F) a.json = some a := by
  obtain ⟨sourceAccount, recipientId, amount, ⟨⟩⟩ := a
  simp [CreatePix.validate, CreatePix.json, noExtra, fieldOf, fieldOr, textOf, literal,
    Money.ofText_str, Currency.str]

end Json

/-! ## The table -/

/-- The columns of `intents`. -/
structure IntentRow (F : Type) where
  id : String
  customerId : String
  sessionId : String
  context : Json.Value F
  action : Json.Value F
  state : String
  createdAt : Instant
  confirmationId : Option String
  confirmationIssuedAt : Option Instant
  actionDigest : Option String
  confirmedAt : Option Instant
  confirmedBy : Option String
  receipt : Option (Json.Value F)
  reason : String

section Store
variable {F : Type}

/-- The values of the INSERT. -/
def IntentRow.ofIntent (i : PgIntent F) : IntentRow F where
  id := i.id
  customerId := i.context.customerId
  sessionId := i.context.sessionId
  context := i.context.json
  action := i.action.json
  state := i.state.str
  createdAt := i.createdAt
  confirmationId := i.confirmationId
  confirmationIssuedAt := i.confirmationIssuedAt
  actionDigest := i.actionDigest
  confirmedAt := i.confirmedAt
  confirmedBy := i.confirmedBy
  receipt := i.receipt.map .obj
  reason := i.reason

/-- `receipt: dict[str, Any] | None`. -/
def receiptOf : Option (Json.Value F) → Option (Option (Dict F))
  | none => some none
  | some (.obj d) => some (some d)
  | some _ => none

def valid {α : Type} : Option α → Except StoreExn α
  | some a => .ok a
  | none => .error .validation

/-- `_to_intent`. -/
def toIntent (row : IntentRow F) : Except StoreExn (PgIntent F) := do
  let action ← valid (CreatePix.validate row.action)
  let context ← valid (Context.validate row.context)
  let state ← valid (State.ofStr? row.state)
  let receipt ← valid (receiptOf row.receipt)
  return { row with action, context, state, receipt }

namespace PgStore

/-- The row after the upsert: the columns the update does not name stay as first written. -/
def upserted (rows : List (IntentRow F)) (i : PgIntent F) : IntentRow F :=
  match Keyed.find IntentRow.id rows i.id with
  | none => .ofIntent i
  | some old =>
    { IntentRow.ofIntent i with
      customerId := old.customerId, sessionId := old.sessionId, createdAt := old.createdAt }

/-- Another row has the token: the unique index refuses. -/
def tokenTaken (rows : List (IntentRow F)) (i : PgIntent F) : Bool :=
  rows.any fun r => r.id ≠ i.id ∧ i.confirmationId ≠ none ∧ r.confirmationId = i.confirmationId

def put (rows : List (IntentRow F)) (i : PgIntent F) : Except StoreExn (List (IntentRow F)) :=
  if tokenTaken rows i then .error .uniqueViolation
  else .ok (Keyed.upsert IntentRow.id rows (upserted rows i))

def get (rows : List (IntentRow F)) (intentId : String) : Except StoreExn (Option (PgIntent F)) :=
  match Keyed.find IntentRow.id rows intentId with
  | none => .ok none
  | some row => (toIntent row).map some

def byConfirmation (rows : List (IntentRow F)) (confirmationId : String) :
    Except StoreExn (Option (PgIntent F)) :=
  match rows.find? fun r => r.confirmationId = some confirmationId with
  | none => .ok none
  | some row => (toIntent row).map some

/-- Rows of one `created_at` come in any order; here in the table's. -/
def unsettled (rows : List (IntentRow F)) (states : List String) : Except StoreExn (List (PgIntent F)) :=
  if states = [] then .ok []
  else ((rows.filter fun r => r.state ∈ states).insertionSort fun r s =>
    r.createdAt ≤ s.createdAt).mapM toIntent

end PgStore

/-- **A row written from an intent is read back as the intent.** -/
theorem toIntent_ofIntent (i : PgIntent F) : toIntent (IntentRow.ofIntent i) = .ok i := by
  obtain ⟨id, action, context, state, createdAt, confirmationId, issuedAt, digest, confirmedAt,
    confirmedBy, receipt, reason⟩ := i
  have hreceipt : receiptOf (receipt.map Json.Value.obj) = some receipt := by
    cases receipt <;> rfl
  simp only [toIntent, IntentRow.ofIntent, CreatePix.validate_json, Context.validate_json,
    State.ofStr?_str, hreceipt, valid]
  rfl

end Store

end BankingControlPlane
