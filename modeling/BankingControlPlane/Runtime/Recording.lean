import BankingControlPlane.Effects.Pool
import BankingControlPlane.Runtime.Threads

/-!
# Recording turns

Calls of `record_turn` on one thread, each an `aget` and, unless it is refused, an `aput`.

* `TurnCall.prog` : one call;
* `indexStore` : the store, with what each call last read, which no call looks at;
* `recording` : any number of calls over one index.
-/

namespace BankingControlPlane.Http
open Effects Keyed

/-- A call of `record_turn`, with what the clock says each time it is asked. -/
structure TurnCall where
  customer : Customer
  message : String
  now : String
  later : String
deriving DecidableEq, Repr

inductive IndexCall : Type → Type where
  | aget : IndexCall (Option Row)
  | aput (row : Row) : IndexCall Unit

/-- How a call ended. The source returns nothing either way. -/
inductive Recorded where
  | refused | written
deriving DecidableEq, Repr

section Calls
variable (thread : ThreadId)

def TurnCall.record (call : TurnCall) (existing : Option Row) : Option Row :=
  recordTurn existing thread call.message call.customer call.now call.later

/-- What is left to do after the `aget`. -/
def TurnCall.rest (call : TurnCall) (existing : Option Row) : Prog IndexCall Empty Recorded :=
  match call.record thread existing with
  | none => .ret .refused
  | some row => .call (.aput row) fun _ => .ret .written

def TurnCall.prog (call : TurnCall) : Prog IndexCall Empty Recorded := .call .aget (call.rest thread)

/-- The records of the index, and what each call last read. -/
structure IndexRun where
  rows : List Row
  seen : Nat → Option (Option Row)

/-- The record of the thread. -/
def IndexRun.row (s : IndexRun) : Option Row := find Row.thread s.rows thread

def indexStore : Machine IndexRun IndexCall where
  on t := fun c s =>
    match c with
    | .aget => (s.row thread, { s with seen := Function.update s.seen t (some (s.row thread)) })
    | .aput row => ((), { s with rows := upsert Row.thread s.rows row })

def recording (calls : List TurnCall) (rows : List Row) : Pool IndexRun IndexCall Empty Recorded where
  shared := { rows := rows, seen := fun _ => none }
  threads t :=
    match calls[t]? with
    | some call => call.prog thread
    | none => .ret .refused

end Calls

/-- Whether call `t` has been written. -/
def wrote (p : Pool IndexRun IndexCall Empty Recorded) (t : Nat) : Bool :=
  match p.result t with
  | some (.ok .written) => true
  | _ => false

/-! ## The record of a turn -/

/-- The turns, the title and the owner of a record, if there is one. -/
def turnsOf (row : Option Row) : Nat := (row.map Row.turns).getD 0

def titleOf (row : Option Row) : String := (row.map fun row => row.title.value).getD ""

def rowOwner (row : Option Row) : Option Customer := row.bind Row.owner

section Record
variable {thread : ThreadId} {call : TurnCall} {existing : Option Row} {row : Row}

/-- A turn that is not refused: one more turn, a title and an owner where there was none. -/
theorem record_eq (h : call.record thread existing = some row) :
    row.thread = thread ∧ row.turns = turnsOf existing + 1 ∧
      row.title.value = (if titleOf existing = "" then titleFrom call.message else titleOf existing) ∧
      row.owner = (rowOwner existing).or (some call.customer) := by
  unfold TurnCall.record recordTurn at h
  dsimp only at h
  split_ifs at h
  all_goals
    obtain rfl := Option.some.inj h
    refine ⟨rfl, rfl, ?_, rfl⟩
    cases existing <;> simp_all [titleOf]

end Record

end BankingControlPlane.Http
