import BankingControlPlane.Data.Keyed
import BankingControlPlane.Runtime.Messages

/-!
# The conversation index

* `By` : a value next to the customer whose turn it is from, which no function reads;
* `Row` : what the index has of a thread, its owner included;
* `ownerOf`, `visibleTo` : whose it is, and who may read it;
* `openThread`, `recordTurn`, `forget`, `listThreads`.
-/

namespace BankingControlPlane.Http
open Keyed Text

abbrev ThreadId := String
abbrev Customer := String

/-- A value and the customer whose turn it is from. -/
structure By (α : Type) where
  author : Customer
  value : α
deriving DecidableEq, Repr

/-- `TITLE_CHARS`. -/
def titleChars : Nat := 60

/-- `SCAN_LIMIT`. -/
def scanLimit : Nat := 1000

/-- A thread title, from the first thing the person asked. -/
def titleFrom (message : String) : String :=
  let singleLine := List.intercalate [' '] (words message.toList)
  if singleLine.length ≤ titleChars then String.ofList singleLine
  else String.ofList (rstrip (singleLine.take titleChars) ++ ['…'])

/-! ## Rows -/

/-- The record of a thread. -/
structure Row where
  thread : ThreadId
  title : By String
  turns : Nat
  createdAt : String
  updatedAt : String
  owner : Option Customer
deriving DecidableEq, Repr

/-- The customer a thread belongs to, if the index names one. -/
def ownerOf (index : List Row) (thread : ThreadId) : Option Customer :=
  (find Row.thread index thread).bind Row.owner

/-- Whether the customer may read this thread. -/
def visibleTo (index : List Row) (thread : ThreadId) (customer : Customer) : Bool :=
  match find Row.thread index thread with
  | none => false
  | some row => row.owner = some customer

/-- A thread that has been created but not yet spoken to. -/
def openThread (index : List Row) (thread : ThreadId) (customer : Customer) (now : String) : List Row :=
  upsert Row.thread index
    { thread := thread, title := ⟨customer, ""⟩, turns := 0, createdAt := now, updatedAt := now,
      owner := some customer }

/-- The record after one more turn, or nothing when it has another owner. The title is set once, and so is
the owner. -/
def recordTurn (existing : Option Row) (thread : ThreadId) (message : String) (customer : Customer)
    (now later : String) : Option Row :=
  let owner := existing.bind Row.owner
  if owner ≠ none ∧ owner ≠ some customer then none
  else
    let title := (existing.map Row.title).getD ⟨customer, ""⟩
    let createdAt := (existing.map Row.createdAt).getD ""
    some
      { thread := thread
        title := if title.value = "" then ⟨customer, titleFrom message⟩ else title
        turns := (existing.map Row.turns).getD 0 + 1
        createdAt := if createdAt = "" then now else createdAt
        updatedAt := later
        owner := owner.or (some customer) }

/-- The row is dropped; the conversation stays in the checkpointer. -/
def forget (index : List Row) (thread : ThreadId) : List Row := index.filter fun row => row.thread ≠ thread

structure ThreadSummary where
  thread : ThreadId
  title : By String
  turns : Nat
  createdAt : String
  updatedAt : String
deriving DecidableEq, Repr

def Row.summary (row : Row) : ThreadSummary :=
  { thread := row.thread, title := ⟨row.title.author, String.ofList (strip row.title.value.toList)⟩, turns := row.turns,
    createdAt := row.createdAt, updatedAt := row.updatedAt }

/-- One customer's conversations among the rows the store found, most recently used first. -/
def listThreads (items : List Row) (customer : Customer) (limit offset : Int) : List ThreadSummary :=
  let mine := items.filter fun row => 0 < row.turns ∧ row.owner = some customer
  let summaries := (mine.map Row.summary).mergeSort fun a b => decide (b.updatedAt ≤ a.updatedAt)
  slice summaries offset (offset + limit)

/-! ## What the functions keep -/

theorem visibleTo_row {index : List Row} {thread : ThreadId} {customer : Customer}
    (h : visibleTo index thread customer = true) :
    ∃ row ∈ index, row.thread = thread ∧ row.owner = some customer := by
  unfold visibleTo at h
  cases hfind : find Row.thread index thread with
  | none => rw [hfind] at h; cases h
  | some row =>
    rw [hfind] at h
    exact ⟨row, mem_of_find _ hfind, key_of_find _ hfind, by simpa using h⟩

/-- Every thread listed is a row of the customer's. -/
theorem mem_listThreads {items : List Row} {customer : Customer} {limit offset : Int}
    {summary : ThreadSummary} (h : summary ∈ listThreads items customer limit offset) :
    ∃ row ∈ items, row.owner = some customer ∧ summary = row.summary := by
  have hsorted := mem_of_slice h
  rw [List.mem_mergeSort, List.mem_map] at hsorted
  obtain ⟨row, hrow, rfl⟩ := hsorted
  rw [List.mem_filter, decide_eq_true_eq] at hrow
  exact ⟨row, hrow.1, hrow.2.2, rfl⟩

/-- A recorded row belongs to the customer of the turn, and so does its title if it did before. -/
theorem recordTurn_owned {existing : Option Row} {thread : ThreadId} {message now later : String}
    {customer : Customer} {row : Row} (h : recordTurn existing thread message customer now later = some row)
    (hexisting : ∀ old ∈ existing, old.title.author = customer) :
    row.thread = thread ∧ row.owner = some customer ∧ row.title.author = customer := by
  unfold recordTurn at h
  dsimp only at h
  by_cases hother : existing.bind Row.owner ≠ none ∧ existing.bind Row.owner ≠ some customer
  · rw [if_pos hother] at h
    cases h
  · rw [if_neg hother] at h
    obtain rfl := Option.some.inj h
    have howner : (existing.bind Row.owner).or (some customer) = some customer := by
      cases hold : existing.bind Row.owner with
      | none => rfl
      | some owner => simpa [hold] using hother
    have htitle : ((existing.map Row.title).getD ⟨customer, ""⟩).author = customer := by
      cases existing with
      | none => rfl
      | some old => exact hexisting old rfl
    refine ⟨rfl, howner, ?_⟩
    dsimp only
    split_ifs
    · rfl
    · exact htitle

end BankingControlPlane.Http
