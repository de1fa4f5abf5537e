import BankingControlPlane.Effects.Pool
import BankingControlPlane.Plane.World

/-!
# Many workers over the same tables

Each worker runs one operation of a plane. Every call it makes of the store, and every statement its
bank makes of `bank_payments`, is one atomic step; between two of them any other worker may step.

* `TableCall` : what `PgBank.create_pix` does besides asking for a payment; `lower` : a plane's operation
  with its bank's `create_pix` as these steps, or as one when the bank is a `MockBank`;
* `Site` : the tables, what each process's bank keeps in memory, and what `create_pix` has answered;
* `tables` : what a step changes; `workers` : any number of jobs, each with its own copies.
-/

namespace BankingControlPlane
open Effects

/-- Where the payments are kept: in the memory of one process, or in the table `bank_payments`. -/
inductive BankKind where
  | mock | pg
deriving DecidableEq, Repr

/-- `charge` : the checks of `create_pix` and the debit, in the memory of its process; `insert` : the
payment, `ON CONFLICT DO NOTHING`; `answered` : no step of the bank, an observer's note of its answer. -/
inductive TableCall : Type → Type where
  | charge (order : Order) : TableCall (Except BankExn Receipt)
  | insert (idempotencyKey : String) (receipt : Receipt) : TableCall Unit
  | answered (order : Order) (answer : Except BankExn Receipt) : TableCall Unit

abbrev Statement (β : Type) : Type := PlaneCall β ⊕ TableCall β

abbrev Worker := Prog Statement Exn

abbrev ask {β : Type} (c : PlaneCall β) : Worker β := Prog.perform (.inl c)

abbrev table {β : Type} (c : TableCall β) : Worker β := Prog.perform (.inr c)

/-- `PgBank.create_pix`. -/
def pgCreatePix (order : Order) : Worker (Except BankExn Receipt) := do
  match ← ask (.payment order.idempotencyKey) with
  | some existing => return .ok existing
  | none =>
    match ← table (.charge order) with
    | .error e => return .error e
    | .ok receipt =>
      table (.insert order.idempotencyKey receipt)
      let stored ← ask (.payment order.idempotencyKey)
      if order.timesOut then return .error (.timeout "the bank did not answer")
      else return .ok (stored.getD receipt)

def createPix : BankKind → Order → Worker (Except BankExn Receipt)
  | .mock, order => ask (.createPix order)
  | .pg, order => pgCreatePix order

/-- The steps of one call of a plane. -/
def lower (bank : BankKind) : {β : Type} → PlaneCall β → Worker β
  | _, .createPix order => do
    let answer ← createPix bank order
    table (.answered order answer)
    return answer
  | _, c => ask c

/-! ## The shared state -/

structure Site where
  world : World
  memory : Nat → MockBank := fun _ => {}
  answers : List (Order × Except BankExn Receipt) := []

namespace Site

def row (s : Site) (id : String) : Option Intent := s.world.row id

def payment (s : Site) (key : String) : Option Receipt := s.world.bank.payment key

theorem mem_of_row {s : Site} {id : String} {r : Intent} (h : s.row id = some r) : r ∈ s.world.rows :=
  Keyed.mem_of_find Intent.id h

/-- What process `p` sees: its own bank, with the payments of the table. -/
def view (s : Site) : BankKind → Nat → World
  | .mock, _ => s.world
  | .pg, p => { s.world with bank := { s.memory p with payments := s.world.bank.payments } }

/-- What process `p` leaves, after a step in its view. -/
def keep (s : Site) (w : World) : BankKind → Nat → Site
  | .mock, _ => { s with world := w }
  | .pg, p =>
    { s with
      world := { w with bank := { s.world.bank with payments := w.bank.payments } }
      memory := Function.update s.memory p w.bank }

end Site

/-- `INSERT … ON CONFLICT (idempotency_key) DO NOTHING`. -/
def MockBank.insert (b : MockBank) (key : String) (r : Receipt) : MockBank :=
  if (b.payment key).isSome then b else b.record key r

def serveTable (env : Env) (p : Nat) : {β : Type} → TableCall β → Site → β × Site
  | _, .charge order, s =>
    match (s.memory p).refusal order with
    | some message => (.error (.error message), s)
    | none =>
      (.ok (order.receipt env s.world.drawn),
        { s with
          world := { s.world with drawn := s.world.drawn + 2 }
          memory := Function.update s.memory p ((s.memory p).debit order) })
  | _, .insert key receipt, s =>
    ((), { s with world := { s.world with bank := s.world.bank.insert key receipt } })
  | _, .answered order answer, s => ((), { s with answers := s.answers ++ [(order, answer)] })

/-- What a step of worker `t` does; `process` says which process it belongs to. -/
def tables (env : Env) (kind : StoreKind) (bank : BankKind) (process : Nat → Nat) :
    Machine Site Statement where
  on t := fun c s =>
    match c with
    | .inl c =>
      let (answer, w) := serve env kind c (s.view bank (process t))
      (answer, s.keep w bank (process t))
    | .inr c => serveTable env (process t) c s

/-- What a worker is given to do: an operation, or `_execute` on a copy it holds. -/
inductive Job where
  | op (o : Op)
  | execute (copy : Intent)
deriving DecidableEq, Repr

def Job.prog (env : Env) : Job → Plane Reply
  | .op o => o.prog env
  | .execute copy => replying .outcome (BankingControlPlane.execute copy)

def workers (env : Env) (bank : BankKind) (jobs : Nat → Job) (s : Site) :
    Pool Site Statement Exn Reply where
  shared := s
  threads t := ((jobs t).prog env).interp (lower bank)

/-! ## What a step changes -/

section Steps
variable {env : Env} {kind : StoreKind} {bank : BankKind} {process : Nat → Nat} {t : Nat} {s : Site}

/-- Rows, payments, ledger and answers are as they were. -/
structure Same (s s' : Site) : Prop where
  rows : s'.world.rows = s.world.rows
  payments : s'.world.bank.payments = s.world.bank.payments
  ledger : s'.world.ledger = s.world.ledger
  answers : s'.answers = s.answers

theorem Same.row {s' : Site} (h : Same s s') (k : String) : s'.row k = s.row k := by
  simp only [Site.row, World.row, h.rows]

theorem Same.payment {s' : Site} (h : Same s s') (k : String) : s'.payment k = s.payment k := by
  simp only [Site.payment, MockBank.payment, h.payments]

@[simp] theorem Site.view_rows (s : Site) (bank : BankKind) (p : Nat) :
    (s.view bank p).rows = s.world.rows := by cases bank <;> rfl

@[simp] theorem Site.view_payments (s : Site) (bank : BankKind) (p : Nat) :
    (s.view bank p).bank.payments = s.world.bank.payments := by cases bank <;> rfl

@[simp] theorem Site.view_ledger (s : Site) (bank : BankKind) (p : Nat) :
    (s.view bank p).ledger = s.world.ledger := by cases bank <;> rfl

@[simp] theorem Site.keep_rows (s : Site) (w : World) (bank : BankKind) (p : Nat) :
    (s.keep w bank p).world.rows = w.rows := by cases bank <;> rfl

@[simp] theorem Site.keep_payments (s : Site) (w : World) (bank : BankKind) (p : Nat) :
    (s.keep w bank p).world.bank.payments = w.bank.payments := by cases bank <;> rfl

@[simp] theorem Site.keep_ledger (s : Site) (w : World) (bank : BankKind) (p : Nat) :
    (s.keep w bank p).world.ledger = w.ledger := by cases bank <;> rfl

@[simp] theorem Site.keep_answers (s : Site) (w : World) (bank : BankKind) (p : Nat) :
    (s.keep w bank p).answers = s.answers := by cases bank <;> rfl

theorem Site.view_payment (s : Site) (bank : BankKind) (p : Nat) (k : String) :
    (s.view bank p).bank.payment k = s.payment k := by
  simp only [MockBank.payment, Site.payment, view_payments]

/-- Calls that write neither a row, nor the ledger, nor a payment. -/
def quiet : {β : Type} → PlaneCall β → Bool
  | _, .put _ => false
  | _, .append _ _ => false
  | _, .createPix _ => false
  | _, _ => true

theorem same_quiet {β : Type} {c : PlaneCall β} (hc : quiet c = true) :
    Same s ((tables env kind bank process).on t (.inl c) s).2 := by
  refine ⟨?_, ?_, ?_, ?_⟩
  all_goals
    simp only [tables, Site.keep_rows, Site.keep_payments, Site.keep_ledger, Site.keep_answers]
  · cases c <;> first | exact Site.view_rows s bank _ | cases hc
  · cases c <;> first | exact Site.view_payments s bank _ | cases hc
  · cases c <;> first | exact Site.view_ledger s bank _ | cases hc

theorem same_charge (order : Order) :
    Same s ((tables env kind bank process).on t (.inr (.charge order)) s).2 := by
  simp only [tables, serveTable]
  split <;> exact ⟨rfl, rfl, rfl, rfl⟩

end Steps

end BankingControlPlane
