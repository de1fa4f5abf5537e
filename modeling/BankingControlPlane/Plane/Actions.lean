import BankingControlPlane.Data.Decimal

/-!
# Typed actions, the session context and the capability registry

* `Context` : who acts, from where, and how sure the bank is of it;
* `Money` : a decimal that is positive, has at most two decimals and at most twelve digits;
* `ProposedPix` is what the agent says, `CreatePix` the canonical action the plane builds from it;
  `CreatePix.modelDump` : its JSON fields, in key order;
* `capability` : what each kind of action needs before it runs.
-/

namespace BankingControlPlane

inductive Assurance where
  | low | medium | strong
deriving DecidableEq, Repr

inductive RiskLevel where
  | low | medium | high
deriving DecidableEq, Repr

inductive Channel where
  | whatsapp | web | mobile
deriving DecidableEq, Repr

/-- `ASSURANCE_RANK`. -/
def assuranceRank : Assurance → Nat
  | .low => 0
  | .medium => 1
  | .strong => 2

structure Context where
  customerId : String
  sessionId : String
  channel : Channel := .whatsapp
  deviceTrusted : Bool := true
  assurance : Assurance := .medium
deriving DecidableEq, Repr

/-! ## Actions -/

/-- `gt=0, decimal_places=2, max_digits=12`: trailing zeros do not count. -/
def isMoney (d : Decimal) : Bool :=
  match d.wholeCents? with
  | some n => 0 < n && n < 10 ^ 12
  | none => false

structure Money where
  val : Decimal
  valid : isMoney val = true
deriving DecidableEq, Repr

instance : Coe Money Decimal := ⟨Money.val⟩

inductive Currency where
  | brl
deriving DecidableEq, Repr

def Currency.str : Currency → String
  | .brl => "BRL"

/-- `recipient: str = Field(min_length=1)`. -/
structure ProposedPix where
  recipient : String
  amount : Money
  currency : Currency := .brl
  named : recipient ≠ ""
deriving DecidableEq, Repr

structure CreatePix where
  sourceAccount : String
  recipientId : String
  amount : Money
  currency : Currency := .brl
deriving DecidableEq, Repr

/-- The canonical JSON of an action, its keys sorted. -/
def CreatePix.modelDump (a : CreatePix) : List (String × String) :=
  [("action", "CREATE_PIX"), ("amount", a.amount.val.str), ("currency", a.currency.str),
    ("recipient_id", a.recipientId), ("source_account", a.sourceAccount)]

theorem Money.ext_val {m n : Money} (h : m.val = n.val) : m = n := by
  cases m
  cases n
  cases h
  rfl

/-- The canonical JSON says everything about an action. -/
theorem CreatePix.modelDump_injective : Function.Injective CreatePix.modelDump := by
  rintro ⟨src, dst, m, ⟨⟩⟩ ⟨src', dst', m', ⟨⟩⟩ h
  simp only [modelDump, List.cons.injEq, Prod.mk.injEq, true_and, and_true] at h
  obtain ⟨hamount, rfl, rfl⟩ := h
  obtain rfl := Money.ext_val (Decimal.str_injective hamount)
  rfl

/-- A read: a balance, or the card's transactions of the last `days`, one to ninety. -/
inductive ReadAction where
  | getBalance (accountId : String)
  | getCardTransactions (days : { n : Nat // 1 ≤ n ∧ n ≤ 90 })
deriving DecidableEq, Repr

/-! ## Capability registry -/

structure Capability where
  action : String
  riskLevel : RiskLevel
  requiresConfirmation : Bool
  requiredAssurance : Assurance
deriving DecidableEq, Repr

def getBalanceCapability : Capability := ⟨"GET_BALANCE", .low, false, .low⟩

def getCardTransactionsCapability : Capability := ⟨"GET_CARD_TRANSACTIONS", .low, false, .low⟩

def createPixCapability : Capability := ⟨"CREATE_PIX", .high, true, .medium⟩

def ReadAction.capability : ReadAction → Capability
  | .getBalance _ => getBalanceCapability
  | .getCardTransactions _ => getCardTransactionsCapability

def CreatePix.capability (_ : CreatePix) : Capability := createPixCapability

end BankingControlPlane
