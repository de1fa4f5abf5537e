import BankingControlPlane.Runtime.Threads

/-!
# The service

* `Request.op` : what a request asks for, on a route of its own or as an invocation;
* `Job` : a request under way, which has its first store call behind it;
* `Service` : the index, the checkpointer, the jobs, and what was answered so far;
* `step` : the next store call of one request. Requests interleave between any two.
-/

namespace BankingControlPlane.Http
open Keyed

/-! ## Requests -/

structure Invocation where
  op : String
  threadId : Option String := none
  message : Option String := none
  limit : Int := 50
deriving DecidableEq, Repr

inductive Request where
  | startThread
  | streamTurn (thread : ThreadId) (message : String)
  | submitTurn (thread : ThreadId) (message : String)
  | getThreads (limit offset : Int)
  | getThread (thread : ThreadId)
  | deleteThread (thread : ThreadId)
  | invocations (body : Invocation) (session : Option String)
deriving DecidableEq, Repr

inductive Op where
  | start
  | turn (thread : ThreadId) (message : String) (streamed : Bool)
  | list (limit offset : Int)
  | read (thread : ThreadId)
  | delete (thread : ThreadId)
deriving DecidableEq, Repr

/-- A value that is absent or empty is missing. -/
def given (value : Option String) : Option String := value.filter fun v => v ≠ ""

def required (value : Option String) (name : String) : Except String String :=
  match given value with
  | some v => .ok v
  | none => .error ("op inválida: falta " ++ name)

def Invocation.toOp (body : Invocation) (session : Option String) : Except String Op :=
  match body.op with
  | "start_thread" => .ok .start
  | "list_threads" => .ok (.list body.limit 0)
  | "get_thread" => (required body.threadId "thread_id").map .read
  | "delete_thread" => (required body.threadId "thread_id").map .delete
  | "turn" =>
    match (given body.threadId).or (given session) with
    | none => .error "op=turn precisa de thread_id no payload ou do header de sessão"
    | some thread => (required body.message "message").map fun message => .turn thread message true
  | op => .error ("op inválida: " ++ op)

def Request.op : Request → Except String Op
  | .startThread => .ok .start
  | .streamTurn thread message => .ok (.turn thread message true)
  | .submitTurn thread message => .ok (.turn thread message false)
  | .getThreads limit offset => .ok (.list limit offset)
  | .getThread thread => .ok (.read thread)
  | .deleteThread thread => .ok (.delete thread)
  | .invocations body session => body.toOp session

/-! ## State -/

/-- Where a turn stands: its owner check passed, the record read, the record written, the checkpoint loaded,
the agent running on its messages, the agent done. -/
inductive Phase where
  | admitted
  | noted (seen : Option Row)
  | recorded
  | loaded (messages : List (By Message))
  | running (messages : List (By Message))
  | answered
deriving DecidableEq, Repr

inductive Doing where
  | turn (message : String) (streamed : Bool) (phase : Phase)
  | reading
  | deleting
deriving DecidableEq, Repr

structure Job where
  id : Nat
  customer : Customer
  thread : ThreadId
  doing : Doing
deriving DecidableEq, Repr

inductive Reply where
  | notFound
  | badRequest (detail : String)
  | started (thread : ThreadId)
  | threads (rows : List ThreadSummary)
  | transcript (messages : List (By (Role × String)))
  | deleted
  | frame (about : List (By Message))
  | answer (message : Option (By Message))
  | error (about : List (By Message))
deriving DecidableEq, Repr

/-- Whose turns the texts of a reply are from. -/
def Reply.authors : Reply → List Customer
  | .notFound | .badRequest _ | .started _ | .deleted => []
  | .threads rows => rows.map fun row => row.title.author
  | .transcript messages => messages.map By.author
  | .frame about | .error about => about.map By.author
  | .answer message => (message.map By.author).toList

structure Service where
  index : List Row := []
  checkpoints : ThreadId → List (By Message) := fun _ => []
  jobs : List Job := []
  replies : List (Customer × Reply) := []
  runs : List (Customer × List (By Message)) := []

namespace Service

def reply (s : Service) (customer : Customer) (r : Reply) : Service :=
  { s with replies := s.replies ++ [(customer, r)] }

def put (s : Service) (job : Job) : Service := { s with jobs := upsert Job.id s.jobs job }

def close (s : Service) (job : Job) : Service := { s with jobs := s.jobs.filter fun other => other.id ≠ job.id }

/-- The checkpoint of a thread is the whole list of its messages. -/
def save (s : Service) (thread : ThreadId) (messages : List (By Message)) : Service :=
  { s with checkpoints := fun t => if t = thread then messages else s.checkpoints t }

/-- Nothing has this id yet, as it is with a new UUID. -/
def Fresh (s : Service) (thread : ThreadId) : Prop :=
  (∀ row ∈ s.index, row.thread ≠ thread) ∧ s.checkpoints thread = [] ∧ ∀ job ∈ s.jobs, job.thread ≠ thread

instance (s : Service) (thread : ThreadId) : Decidable (s.Fresh thread) :=
  inferInstanceAs (Decidable (_ ∧ _ ∧ _))

/-- What a search of the store may find: rows of the index, in any order, and not too many. -/
def Found (s : Service) (items : List Row) : Prop :=
  items.length ≤ scanLimit ∧ ∀ row ∈ items, row ∈ s.index

instance (s : Service) (items : List Row) : Decidable (s.Found items) :=
  inferInstanceAs (Decidable (_ ∧ _))

end Service

/-! ## Steps -/

/-- What comes from outside: a new id, what the clock says, what a search finds. -/
structure Outside where
  fresh : ThreadId := ""
  now : String := ""
  later : String := ""
  found : List Row := []
deriving DecidableEq, Repr

inductive Action where
  | ask (id : Nat) (customer : Customer) (request : Request) (outside : Outside)
  | go (id : Nat) (outside : Outside)
  | say (id : Nat) (message : Message)
  | frame (id : Nat) (about : List (By Message))
  | finish (id : Nat)
  | fail (id : Nat) (about : List (By Message))
  | abandon (id : Nat)
deriving DecidableEq, Repr

/-- The first store call of a request. `_refuse_someone_elses_thread` is the first of a turn. -/
def Service.begin (s : Service) (id : Nat) (customer : Customer) (outside : Outside) : Op → Option Service
  | .start =>
    if s.Fresh outside.fresh then
      let index := openThread s.index outside.fresh customer outside.now
      some ({ s with index := index }.reply customer (.started outside.fresh))
    else none
  | .turn thread message streamed =>
    match ownerOf s.index thread with
    | some owner =>
      if owner ≠ customer then some (s.reply customer .notFound)
      else some (s.put ⟨id, customer, thread, .turn message streamed .admitted⟩)
    | none => some (s.put ⟨id, customer, thread, .turn message streamed .admitted⟩)
  | .list limit offset =>
    if s.Found outside.found then
      some (s.reply customer (.threads (listThreads outside.found customer limit offset)))
    else none
  | .read thread =>
    if visibleTo s.index thread customer then some (s.put ⟨id, customer, thread, .reading⟩)
    else some (s.reply customer .notFound)
  | .delete thread =>
    if visibleTo s.index thread customer then some (s.put ⟨id, customer, thread, .deleting⟩)
    else some (s.reply customer .notFound)

/-- A stored conversation as a transcript. -/
def transcript (messages : List (By Message)) : List (By (Role × String)) :=
  messages.filterMap fun m => m.value.readable.map fun readable => ⟨m.author, readable⟩

/-- The last assistant message. -/
def lastReply (messages : List (By Message)) : Option (By Message) :=
  messages.reverse.find? fun m => m.value.kind = .ai

def Job.at (job : Job) (message : String) (streamed : Bool) (phase : Phase) : Job :=
  { job with doing := .turn message streamed phase }

/-- The run starts from what the checkpointer has of the thread. -/
def Service.load (s : Service) (job : Job) (message : String) (streamed : Bool) : Service :=
  let start := s.checkpoints job.thread
  { s.put (job.at message streamed (.loaded start)) with runs := s.runs ++ [(job.customer, start)] }

/-- The first half of `record_turn`. -/
def Service.note (s : Service) (job : Job) (message : String) (streamed : Bool) : Service :=
  s.put (job.at message streamed (.noted (find Row.thread s.index job.thread)))

/-- The second half. -/
def Service.record (s : Service) (job : Job) (message : String) (outside : Outside) (seen : Option Row) :
    Service :=
  match recordTurn seen job.thread message job.customer outside.now outside.later with
  | none => s
  | some row => { s with index := upsert Row.thread s.index row }

/-- The next store call of a turn. A streamed turn is recorded after its run, a buffered one before. -/
def Service.goTurn (s : Service) (job : Job) (outside : Outside) (message : String) (streamed : Bool) :
    Phase → Option Service
  | .admitted => if streamed then some (s.load job message streamed) else some (s.note job message streamed)
  | .noted seen =>
    let recorded := s.record job message outside seen
    if streamed then some (recorded.close job) else some (recorded.put (job.at message streamed .recorded))
  | .recorded => if streamed then none else some (s.load job message streamed)
  | .loaded messages =>
    let asked := messages ++ [⟨job.customer, .human message⟩]
    some ((s.put (job.at message streamed (.running asked))).save job.thread asked)
  | .running _ => none
  | .answered => if streamed then some (s.note job message streamed) else none

def Service.goJob (s : Service) (job : Job) (outside : Outside) : Option Service :=
  match job.doing with
  | .turn message streamed phase => s.goTurn job outside message streamed phase
  | .reading => some ((s.close job).reply job.customer (.transcript (transcript (s.checkpoints job.thread))))
  | .deleting =>
    some ({ s.close job with index := forget s.index job.thread }.reply job.customer .deleted)

/-- The job with this id, if an agent runs for it. -/
def Service.running (s : Service) (id : Nat) : Option (Job × String × Bool × List (By Message)) :=
  match find Job.id s.jobs id with
  | some job =>
    match job.doing with
    | .turn message streamed (.running messages) => some (job, message, streamed, messages)
    | _ => none
  | none => none

/-- The run of a turn has ended. -/
def Service.ended (s : Service) (job : Job) (message : String) (streamed : Bool) : Service :=
  if streamed then s.put (job.at message streamed .answered) else s.close job

def step (s : Service) : Action → Option Service
  | .ask id customer request outside =>
    if find Job.id s.jobs id ≠ none then none
    else match request.op with
      | .error detail => some (s.reply customer (.badRequest detail))
      | .ok op => s.begin id customer outside op
  | .go id outside => (find Job.id s.jobs id).bind fun job => s.goJob job outside
  | .say id said => (s.running id).map fun (job, message, streamed, messages) =>
    let messages := messages ++ [⟨job.customer, said⟩]
    (s.put (job.at message streamed (.running messages))).save job.thread messages
  | .frame id about => (s.running id).bind fun (job, _, streamed, messages) =>
    if streamed ∧ ∀ m ∈ about, m ∈ messages then some (s.reply job.customer (.frame about)) else none
  | .finish id => (s.running id).map fun (job, message, streamed, messages) =>
    (s.ended job message streamed).reply job.customer (.answer (lastReply messages))
  | .fail id about => (s.running id).bind fun (job, message, streamed, messages) =>
    if ∀ m ∈ about, m ∈ messages
    then some ((s.ended job message streamed).reply job.customer (.error about)) else none
  | .abandon id => (find Job.id s.jobs id).map s.close

end BankingControlPlane.Http
