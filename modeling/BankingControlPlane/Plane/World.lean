import BankingControlPlane.Effects.Run
import BankingControlPlane.Plane.Operations
import Mathlib.Data.List.Sort

/-!
# One plane over its store, its bank and its clocks

* `World` : the durable table (`rows`), the in-process dict (`objects`), the ledger, the bank, how
  much has been read from outside, and a history of what was done;
* both stores see every write; `StoreKind` says which of them answers the reads;
* `handler` : what each call answers and changes; `exec` : one whole operation, `play` : a sequence of
  them, `cut` : one cut short.
-/

namespace BankingControlPlane
open Effects

inductive StoreKind where
  | memory | postgres
deriving DecidableEq, Repr

/-- What an observer of a run notes: an operation began, the clock was read, a row was written, an
intent saved, the bank asked to pay. -/
inductive Obs where
  | began (op : Op)
  | read (use : Reading) (instant : Instant)
  | appended (event : Event)
  | stored (intent : Intent)
  | asked (order : Order)
deriving DecidableEq, Repr

structure World where
  rows : List Intent := []
  objects : List Intent := []
  ledger : List Event := []
  bank : MockBank := {}
  drawn : Nat := 0
  ticks : Nat := 0
  nows : Nat := 0
  history : List Obs := []
deriving DecidableEq, Repr

namespace World

def row (w : World) (intentId : String) : Option Intent := Keyed.find Intent.id w.rows intentId

def object (w : World) (intentId : String) : Option Intent :=
  Keyed.find Intent.id w.objects intentId

def events (w : World) (intentId : String) : List Event :=
  w.ledger.filter fun e => e.intentId = intentId

/-- An upsert leaves the columns it does not name: `created_at` stays as first written. -/
def saved (w : World) (i : Intent) : Intent :=
  match w.row i.id with
  | some r => { i with createdAt := r.createdAt }
  | none => i

def put (w : World) (i : Intent) : World :=
  { w with
    rows := Keyed.upsert Intent.id w.rows (w.saved i)
    objects := Keyed.upsert Intent.id w.objects i
    history := w.history ++ [.stored (w.saved i)] }

/-- Fields of an object the dict holds, if it holds one, are written in place. -/
def assign (w : World) (i : Intent) : World :=
  { w with
    objects := if (w.object i.id).isSome then Keyed.upsert Intent.id w.objects i else w.objects }

def append (w : World) (intentId : String) (e : Entry) : World :=
  { w with
    ledger := w.ledger ++ [⟨intentId, e⟩]
    history := w.history ++ [.appended ⟨intentId, e⟩] }

def note (w : World) (o : Obs) : World := { w with history := w.history ++ [o] }

/-- The intents a read sees. -/
def intents (w : World) : StoreKind → List Intent
  | .memory => w.objects
  | .postgres => w.rows

/-- `ORDER BY created_at` for the table, insertion order for the dict. -/
def unsettled (w : World) (kind : StoreKind) (states : List State) : List Intent :=
  let found := (w.intents kind).filter fun i => i.state ∈ states
  match kind with
  | .memory => found
  | .postgres => found.insertionSort fun i j => i.createdAt ≤ j.createdAt

end World

/-- The answer to a call, and the world after it. -/
def serve (env : Env) (kind : StoreKind) : {β : Type} → PlaneCall β → World → β × World
  | _, .get intentId, w => (Keyed.find Intent.id (w.intents kind) intentId, w)
  | _, .byConfirmation token, w =>
    ((w.intents kind).find? fun i => i.confirmationId = some token, w)
  | _, .unsettled states, w => (w.unsettled kind states, w)
  | _, .put i, w => ((), w.put i)
  | _, .assign i, w => ((), w.assign i)
  | _, .append intentId e, w => ((), w.append intentId e)
  | _, .eventsFor intentId, w => (w.events intentId, w)
  | _, .clock use, w =>
    (env.clock w.ticks, { w.note (.read use (env.clock w.ticks)) with ticks := w.ticks + 1 })
  | _, .now, w => (env.now w.nows, { w with nows := w.nows + 1 })
  | _, .newId stem, w => (newIdAt env stem w.drawn, { w with drawn := w.drawn + 1 })
  | _, .findContacts name, w => (w.bank.findContacts env name, w)
  | _, .contact contactId, w => (w.bank.contact contactId, w)
  | _, .balance accountId, w => (w.bank.balance accountId, w)
  | _, .cardTransactions days, w =>
    (cardTransactions (env.today w.nows) days, { w with nows := w.nows + 1 })
  | _, .paidBefore, w => (w.bank.paidBefore, w)
  | _, .payment key, w => (w.bank.payment key, w)
  | _, .createPix o, w =>
    let (answer, bank, drawn) := w.bank.createPix env w.drawn o
    (answer, { w.note (.asked o) with bank := bank, drawn := drawn })

def handler (env : Env) (kind : StoreKind) : Handler World PlaneCall := ⟨serve env kind⟩

/-- One operation, from its beginning to its reply. -/
def exec (env : Env) (kind : StoreKind) (op : Op) (w : World) : Except Exn Reply × World :=
  (op.prog env).run (handler env kind) (w.note (.began op))

/-- The replies of a plane over one store to a sequence of operations, and what it leaves. -/
def play (env : Env) (kind : StoreKind) : List Op → World → List (Except Exn Reply) × World
  | [], w => ([], w)
  | op :: ops, w =>
    let (reply, w') := exec env kind op w
    let (rest, w'') := play env kind ops w'
    (reply :: rest, w'')

/-- What is left when the process dies after `n` calls of an operation. -/
def cut (env : Env) (kind : StoreKind) (op : Op) (n : Nat) (w : World) : World :=
  (op.prog env).cut (handler env kind) n (w.note (.began op))

/-- The reply of an operation is its answer's. -/
theorem run_replying {env : Env} {kind : StoreKind} {α : Type} {p : Plane α} {f : α → Reply} {w : World} :
    (replying f p).run (handler env kind) w =
      ((p.run (handler env kind) w).1.map f, (p.run (handler env kind) w).2) := by
  simp only [replying, Prog.bind_eq, Prog.pure_eq]
  induction p generalizing w with
  | ret a => rfl
  | raise e => rfl
  | call c k ih => exact ih _

/-- What must hold of the answer, of the reply. -/
theorem wp_replying {τ : Type*} {Φ : Prog.Meaning τ PlaneCall} {Q : Except Exn Reply → τ → Prop} {α : Type}
    (f : α → Reply) (p : Plane α) :
    (replying f p).wp Φ Q = p.wp Φ fun x => Q (x.map f) := by
  simp only [replying, Prog.bind_eq, Prog.pure_eq, Prog.wp_bind]
  congr 1
  funext x
  cases x <;> rfl

/-! ## What each call leaves alone -/

namespace World

@[simp] theorem row_append (w : World) (id : String) (e : Entry) (k : String) :
    (w.append id e).row k = w.row k := rfl

@[simp] theorem row_assign (w : World) (i : Intent) (k : String) :
    (w.assign i).row k = w.row k := rfl

@[simp] theorem row_note (w : World) (o : Obs) (k : String) : (w.note o).row k = w.row k := rfl

@[simp] theorem object_append (w : World) (id : String) (e : Entry) (k : String) :
    (w.append id e).object k = w.object k := rfl

@[simp] theorem object_note (w : World) (o : Obs) (k : String) :
    (w.note o).object k = w.object k := rfl

@[simp] theorem saved_id (w : World) (i : Intent) : (w.saved i).id = i.id := by
  unfold saved
  split <;> rfl

@[simp] theorem saved_state (w : World) (i : Intent) : (w.saved i).state = i.state := by
  unfold saved
  split <;> rfl

theorem row_put (w : World) (i : Intent) (k : String) :
    (w.put i).row k = if i.id = k then some (w.saved i) else w.row k := by
  simp only [row, put, Keyed.find_upsert, saved_id]

theorem object_put (w : World) (i : Intent) (k : String) :
    (w.put i).object k = if i.id = k then some i else w.object k := by
  simp only [object, put, Keyed.find_upsert]

theorem object_assign (w : World) (i : Intent) (k : String) :
    (w.assign i).object k = if (w.object i.id).isSome ∧ i.id = k then some i else w.object k := by
  by_cases h : (w.object i.id).isSome
  · simp only [assign, h, if_true, true_and]
    exact Keyed.find_upsert Intent.id w.objects i k
  · simp only [assign, h]
    rfl

/-- A save of an intent whose row was written by the same plane keeps every field it was given. -/
theorem saved_eq {w : World} {i r : Intent} (hr : w.row i.id = some r)
    (h : i.createdAt = r.createdAt) : w.saved i = i := by
  simp only [saved, hr, ← h]

theorem saved_new {w : World} {i : Intent} (hr : w.row i.id = none) : w.saved i = i := by
  simp only [saved, hr]

end World

end BankingControlPlane
