import BankingControlPlane.Data.Keyed
import BankingControlPlane.Plane.State
import Mathlib.Data.List.Infix

/-!
# The bank, mocked

* `MockBank` : accounts, contacts, who has been paid before, and the book of payments;
* `MockBank.createPix` : honours an idempotency key, refuses, pays, or pays and times out;
* `createPix_book` : one call writes at most the row of its own key, and only if it had none.
-/

namespace BankingControlPlane

/-- What the bank raises: a definitive refusal, or no answer. -/
inductive BankExn where
  | error (message : String)
  | timeout (message : String)
deriving DecidableEq, Repr

/-- Cents that trigger the simulated timeout after success. -/
def timeoutCents : Decimal := .cents 13

structure Contact where
  id : String
  name : String
  pixKey : String
deriving DecidableEq, Repr

structure Transaction where
  day : Int
  merchant : String
  amount : Decimal
  category : String
deriving DecidableEq, Repr

structure Account where
  id : String
  balance : Decimal
deriving DecidableEq, Repr

/-- A row of the book: `idempotency_key → receipt`. -/
structure Payment where
  key : String
  receipt : Receipt
deriving DecidableEq, Repr

structure MockBank where
  accounts : List Account := [⟨"checking_001", .cents 254310⟩]
  contacts : List Contact := [
    ⟨"contact_renata", "Renata Silva", "renata.silva@pix.example"⟩,
    ⟨"contact_joao", "João Pereira", "+5511999990000"⟩,
    ⟨"contact_maria", "Maria Souza", "123.456.789-00"⟩,
    ⟨"contact_ana_lima", "Ana Lima", "ana.lima@pix.example"⟩,
    ⟨"contact_ana_costa", "Ana Costa", "ana.costa@pix.example"⟩]
  paidBefore : List String := ["contact_renata"]
  payments : List Payment := []
deriving DecidableEq, Repr

namespace MockBank

/-! ## Reads -/

def balance (b : MockBank) (accountId : String) : Except String Decimal :=
  match Keyed.find Account.id b.accounts accountId with
  | some a => .ok a.balance
  | none => .error ("unknown account: " ++ accountId)

def findContacts (env : Env) (b : MockBank) (name : String) : List Contact :=
  let needle := env.casefold (env.strip name)
  b.contacts.filter fun c => needle.toList <:+: (env.casefold c.name).toList

def contact (b : MockBank) (contactId : String) : Option Contact :=
  Keyed.find Contact.id b.contacts contactId

/-- What the bank knows about a key. -/
def payment (b : MockBank) (idempotencyKey : String) : Option Receipt :=
  (Keyed.find Payment.key b.payments idempotencyKey).map Payment.receipt

end MockBank

/-- Days ago, merchant, cents, category. -/
def cardSeed : List (Nat × String × Nat × String) :=
  [(1, "iFood", 12900, "food"), (1, "Uber", 2390, "transportation"),
    (2, "Netflix", 5590, "subscription"), (3, "Drogasil", 8745, "pharmacy"),
    (5, "Amazon", 24999, "shopping"), (9, "Posto Shell", 18000, "fuel")]

def cardTransactions (today : Int) (days : Nat) : List Transaction :=
  (cardSeed.filter fun (d, _) => d ≤ days).map fun (d, m, a, c) => ⟨today - d, m, .cents a, c⟩

/-! ## The write -/

/-- The arguments of `create_pix`. -/
structure Order where
  idempotencyKey : String
  sourceAccount : String
  recipientId : String
  amount : Money
deriving DecidableEq, Repr

/-- `.upper()`, of the hexadecimal digits. -/
def upper (s : String) : String := String.ofList (s.toList.map Char.toUpper)

/-- The receipt of a payment made with the next two random ids. -/
def Order.receipt (env : Env) (o : Order) (drawn : Nat) : Receipt :=
  { paymentId := newIdAt env "pay" drawn
    endToEndId := "E" ++ upper (env.tokenHex (drawn + 1))
    status := "COMPLETED"
    amount := o.amount.val.str
    recipientId := o.recipientId }

/-- `amount % 1 == TIMEOUT_CENTS`. -/
def Order.timesOut (o : Order) : Bool := o.amount.val.fraction.equals timeoutCents

namespace MockBank

/-- What stands in the way of a payment, in the order the bank looks. -/
def refusal (b : MockBank) (o : Order) : Option String :=
  if b.contact o.recipientId = none then some ("unknown recipient: " ++ o.recipientId)
  else match b.balance o.sourceAccount with
    | .error message => some message
    | .ok balance => if balance < o.amount.val then some "insufficient funds" else none

/-- The money and the customer's history move; the book does not yet. -/
def debit (b : MockBank) (o : Order) : MockBank :=
  match Keyed.find Account.id b.accounts o.sourceAccount with
  | some a =>
    { b with
      accounts := Keyed.upsert Account.id b.accounts ⟨a.id, a.balance.sub o.amount.val⟩
      paidBefore := if o.recipientId ∈ b.paidBefore then b.paidBefore else b.paidBefore ++ [o.recipientId] }
  | none => b

def record (b : MockBank) (key : String) (r : Receipt) : MockBank :=
  { b with payments := Keyed.upsert Payment.key b.payments ⟨key, r⟩ }

/-- The answer, the bank afterwards, and how many random ids were drawn. -/
def createPix (env : Env) (b : MockBank) (drawn : Nat) (o : Order) :
    Except BankExn Receipt × MockBank × Nat :=
  match b.payment o.idempotencyKey with
  | some existing => (.ok existing, b, drawn)
  | none =>
    match b.refusal o with
    | some message => (.error (.error message), b, drawn)
    | none =>
      let receipt := o.receipt env drawn
      (if o.timesOut then .error (.timeout "the bank did not answer") else .ok receipt,
        (b.debit o).record o.idempotencyKey receipt, drawn + 2)

@[simp] theorem debit_payments (b : MockBank) (o : Order) : (b.debit o).payments = b.payments := by
  unfold debit
  split <;> rfl

theorem payment_record (b : MockBank) (key : String) (r : Receipt) (k : String) :
    (b.record key r).payment k = if key = k then some r else b.payment k := by
  simp only [payment, record, Keyed.find_upsert]
  split_ifs <;> rfl

theorem payment_debit (b : MockBank) (o : Order) (k : String) :
    (b.debit o).payment k = b.payment k := by
  rw [payment, debit_payments, payment]

/-- What one `create_pix` does to the book and what it answers: it found the key, it refused and
wrote nothing, or it wrote its own key, which had no row. -/
theorem createPix_cases (env : Env) (b : MockBank) (drawn : Nat) (o : Order) :
    (∃ r, b.payment o.idempotencyKey = some r ∧ b.createPix env drawn o = (.ok r, b, drawn)) ∨
    (b.payment o.idempotencyKey = none ∧
      ∃ message, b.createPix env drawn o = (.error (.error message), b, drawn)) ∨
    (b.payment o.idempotencyKey = none ∧
      ∃ answer, b.createPix env drawn o =
          (answer, (b.debit o).record o.idempotencyKey (o.receipt env drawn), drawn + 2) ∧
        (answer = .ok (o.receipt env drawn) ∨ ∃ message, answer = .error (.timeout message))) := by
  unfold createPix
  cases hp : b.payment o.idempotencyKey with
  | some r => exact Or.inl ⟨r, rfl, rfl⟩
  | none =>
    cases hr : b.refusal o with
    | some message => exact Or.inr (Or.inl ⟨rfl, message, rfl⟩)
    | none =>
      refine Or.inr (Or.inr ⟨rfl, _, rfl, ?_⟩)
      split_ifs
      · exact Or.inr ⟨_, rfl⟩
      · exact Or.inl rfl

/-- The book after `create_pix`: other keys are as they were, and a row is never changed. -/
theorem createPix_book (env : Env) (b : MockBank) (drawn : Nat) (o : Order) (k : String) :
    (b.createPix env drawn o).2.1.payment k = b.payment k ∨
      (k = o.idempotencyKey ∧ b.payment k = none) := by
  rcases createPix_cases env b drawn o with ⟨r, -, h⟩ | ⟨-, m, h⟩ | ⟨hn, a, h, -⟩
  · exact Or.inl (by rw [h])
  · exact Or.inl (by rw [h])
  · rw [h]
    by_cases hk : o.idempotencyKey = k
    · exact Or.inr ⟨hk.symm, hk ▸ hn⟩
    · exact Or.inl (by simp [payment_record, hk, payment_debit])

end MockBank

end BankingControlPlane
