import BankingControlPlane.Ui.Totals

/-!
# The page in the browser

One page: a conversation, the list of others, and the calls that have not returned.

* `Sending` : the local variables of a turn that is being streamed; `Sending.read` : one frame of it;
* `App` : the state of the page, with the calls made; `Call` : what a call is for;
* `App.send`, `App.openThread`, `App.resume`, `App.forgetThread`, `App.refreshThreads` : what the reader starts;
* `App.step` : one event: the reader does something, or the network answers one of the calls.

Calls are numbered in the order in which they are made, and return in any.
-/

namespace BankingControlPlane.Browser
open Json

/-! ## What is shown -/

/-- What a turn cost; what was not measured is not shown. -/
structure TurnMetrics where
  ns : Option Nat := none
  tokensIn : Option ℚ := none
  tokensOut : Option ℚ := none
  costUsd : Option ℚ := none
  traceUrl : Option String := none

structure Answer where
  text : String
  rail : List (List (String × Value ℚ)) := []
  violations : List (Value ℚ) := []
  blocked : Bool := false
  metrics : TurnMetrics := {}
  fresh : Bool := false

inductive Shown where
  | agent (answer : Answer)
  | user (text : String)
  | error (status : Nat) (detail : String) (traceUrl : Option String)

structure Entry where
  id : String
  shown : Shown

/-- The id of the entry of a turn that is still running. -/
def liveId : String := "__live__"

def nextId (counter : Nat) : String := "e" ++ toString (counter + 1)

def withoutLive (entries : List Entry) : List Entry := entries.filter fun entry => entry.id ≠ liveId

/-- The rail of a turn that is still running, in the place of its answer. -/
def withLiveRail (entries : List Entry) (acc : TurnAccumulator) : List Entry :=
  withoutLive entries ++ [⟨liveId, .agent { text := "", rail := acc.rail }⟩]

/-! ## A turn -/

structure TurnEvent where
  threadId : String
  text : String
  ns : Option Nat

inductive TurnStreamEvent where
  | stage (event : StageEvent ℚ)
  | turn (event : TurnEvent)
  | error (status : Nat) (detail : String)
  | trace (traceUrl : Option String)

/-- What a call throws: the service's status and detail, or anything else. -/
inductive Thrown where
  | api (status : Nat) (message : String)
  | other
deriving DecidableEq, Repr

def Thrown.unauthorized : Thrown → Bool
  | .api status _ => status = 401
  | .other => false

/-- A message on its way, and what its frames have said so far. -/
structure Sending where
  threadId : String
  message : String
  acc : TurnAccumulator := {}
  turn : Option TurnEvent := none
  traceUrl : Option String := none
  failure : Option (Nat × String) := none

/-- One frame. -/
def Sending.read (x : Sending) : TurnStreamEvent → Option Sending
  | .stage event => (accumulateStage x.acc event.payload).map fun acc => { x with acc }
  | .turn event => some { x with turn := some event }
  | .error status detail => some { x with failure := some (status, detail) }
  | .trace traceUrl => some { x with traceUrl }

def metricsFrom (acc : TurnAccumulator) (turn : Option TurnEvent) (traceUrl : Option String) : TurnMetrics where
  ns := turn.bind TurnEvent.ns
  tokensIn := if acc.sawUsage then some acc.tokensIn else none
  tokensOut := if acc.sawUsage then some acc.tokensOut else none
  costUsd := acc.costUsd
  traceUrl := traceUrl

/-- What stands in the place of the answer when the stream is over. -/
def Sending.outcome (x : Sending) : Shown :=
  match x.failure with
  | some (status, detail) => .error status detail x.traceUrl
  | none => .agent {
      text := (x.turn.map TurnEvent.text).getD ""
      rail := x.acc.rail
      violations := x.acc.violations
      blocked := x.acc.blocked
      metrics := metricsFrom x.acc x.turn x.traceUrl
      fresh := true }

/-- The stream broke off. -/
def Sending.broken (x : Sending) : Thrown → Sending
  | .api status message => { x with failure := some (status, message) }
  | .other => { x with failure := some (0, "connection interrupted") }

/-! ## The page -/

structure StartThreadResponse where
  threadId : String
  agent : String
  greeting : String
  guardrails : String

def StartThreadResponse.renamed (threadId : String) (current : StartThreadResponse) : StartThreadResponse :=
  { current with threadId }

/-- The greeting, which no model wrote. -/
def StartThreadResponse.page (opened : StartThreadResponse) : List Shown :=
  if opened.greeting = "" then [] else [.agent { text := opened.greeting }]

/-- One row of the list of conversations. -/
structure ThreadSummary where
  threadId : String
  title : String
  turns : Nat
  createdAt : String
  updatedAt : String

structure PastMessage where
  role : Role
  text : String

inductive Call where
  | startThread
  | fetchThreads
  | fetchThread (threadId : String)
  | deleteThread (threadId : String)
  | streamTurn (x : Sending)

/-- A call that has returned is `none` in its place. -/
structure App where
  session : Bool := false
  started : Bool := false
  thread : Option StartThreadResponse := none
  entries : List Entry := []
  threads : List ThreadSummary := []
  durable : Bool := true
  busy : Bool := false
  fatal : Option String := none
  counter : Nat := 0
  calls : List (Option Call) := []

namespace App

/-- The call, while it has not returned. -/
def inFlight (s : App) (k : Nat) : Option Call := s.calls[k]?.join

def call (s : App) (c : Call) : App := { s with calls := s.calls ++ [some c] }

def returned (s : App) (k : Nat) : App := { s with calls := s.calls.set k none }

/-- One entry more. -/
def add (s : App) (shown : Shown) : App :=
  { s with entries := s.entries ++ [⟨nextId s.counter, shown⟩], counter := s.counter + 1 }

/-- These entries, and no others. -/
def setEntries (s : App) (page : List Shown) : App := page.foldl add { s with entries := [] }

/-- The session is cleared, and the next one opens a conversation of its own. -/
def clearSession (s : App) : App := { s with session := false, started := false }

/-! ### What is started -/

def refreshThreads (s : App) : App := s.call .fetchThreads

def openThread (s : App) : App := s.call .startThread

def resume (s : App) (threadId : String) : App := s.call (.fetchThread threadId)

/-- Signing in opens a conversation, once a session. -/
def signIn (s : App) : App :=
  if s.started then { s with session := true } else { s with session := true, started := true }.openThread

def forgetThread (s : App) (threadId : String) : App :=
  { s with threads := s.threads.filter fun t => t.threadId ≠ threadId }.call (.deleteThread threadId)

def send (s : App) (message : String) : App :=
  match s.thread with
  | none => s
  | some thread =>
    ({ s with busy := true }.add (.user message)).call (.streamTurn { threadId := thread.threadId, message })

/-! ### What comes back -/

/-- Whether the session is over. -/
def handleUnauthorized (s : App) (error : Thrown) : Option App :=
  if error.unauthorized then some s.clearSession else none

def threadOpened (s : App) : Except Thrown StartThreadResponse → App
  | .ok opened => ({ s with thread := some opened, fatal := none }.setEntries opened.page).refreshThreads
  | .error error =>
    (s.handleUnauthorized error).getD { s with fatal := some (match error with
      | .api status message => toString status ++ " · " ++ message
      | .other => "Could not reach the agent. Is the stack running? `make up`") }

def PastMessage.shown (message : PastMessage) : Shown :=
  match message.role with
  | .user => .user message.text
  | .agent => .agent { text := message.text }

def threadFetched (s : App) (threadId : String) : Except Thrown (List PastMessage) → App
  | .ok past =>
    { s with thread := s.thread.map (StartThreadResponse.renamed threadId) }.setEntries (past.map PastMessage.shown)
  | .error error => (s.handleUnauthorized error).getD { s with fatal := some "Could not open that conversation." }

/-- A failed list is not a failed conversation. -/
def threadsFetched (s : App) : Except Thrown (List ThreadSummary × Bool) → App
  | .ok (threads, durable) => { s with threads, durable }
  | .error error => (s.handleUnauthorized error).getD s

/-- The turn has landed. -/
def land (s : App) (x : Sending) : App :=
  ({ s with entries := withoutLive s.entries, busy := false }.add x.outcome).refreshThreads

/-- The stream of a turn is over, or broke off. -/
def turnEnded (s : App) (x : Sending) : Option Thrown → App
  | none => s.land x
  | some error => (s.handleUnauthorized error).getD (s.land (x.broken error))

/-- A frame of the turn: a stage is shown at once. What cannot be accumulated breaks the stream off. -/
def frameRead (s : App) (k : Nat) (x : Sending) (frame : TurnStreamEvent) : App :=
  match x.read frame with
  | none => (s.returned k).turnEnded x (some .other)
  | some next =>
    let s := { s with calls := s.calls.set k (some (.streamTurn next)) }
    match frame with
    | .stage _ => { s with entries := withLiveRail s.entries next.acc }
    | _ => s

end App

/-! ## Events -/

/-- What a text field leaves out at both ends. -/
def isTrimmed (c : Char) : Bool :=
  c.toNat ∈ [9, 10, 11, 12, 13, 32, 0xA0, 0x1680, 0x2028, 0x2029, 0x202F, 0x205F, 0x3000, 0xFEFF] ||
    (0x2000 ≤ c.toNat && c.toNat ≤ 0x200A)

/-- `text.trim()`. -/
def trim (text : String) : String :=
  String.ofList ((text.toList.dropWhile isTrimmed).reverse.dropWhile isTrimmed).reverse

inductive Event where
  | signIn
  | submit (text : String)
  | new
  | select (threadId : String)
  | delete (threadId : String)
  | opened (k : Nat) (result : Except Thrown StartThreadResponse)
  | fetched (k : Nat) (result : Except Thrown (List PastMessage))
  | listed (k : Nat) (result : Except Thrown (List ThreadSummary × Bool))
  | deleted (k : Nat)
  | frame (k : Nat) (frame : TurnStreamEvent)
  | ended (k : Nat) (thrown : Option Thrown)

namespace App

/-- The conversation is in the list. -/
def Listed (s : App) (threadId : String) : Prop := ∃ t ∈ s.threads, t.threadId = threadId

instance (s : App) (threadId : String) : Decidable (s.Listed threadId) :=
  inferInstanceAs (Decidable (∃ t ∈ s.threads, t.threadId = threadId))

/-- One event. Where nobody is signed in, there is nothing to click; an answer to no call does not come. -/
def step (s : App) : Event → App
  | .signIn => if s.session then s else s.signIn
  | .submit text => if s.session ∧ trim text ≠ "" ∧ s.busy = false then s.send (trim text) else s
  | .new => if s.session then s.openThread else s
  | .select threadId => if s.session ∧ s.Listed threadId then s.resume threadId else s
  | .delete threadId => if s.session ∧ s.Listed threadId then s.forgetThread threadId else s
  | .opened k result =>
    match s.inFlight k with
    | some .startThread => (s.returned k).threadOpened result
    | _ => s
  | .fetched k result =>
    match s.inFlight k with
    | some (.fetchThread threadId) => (s.returned k).threadFetched threadId result
    | _ => s
  | .listed k result =>
    match s.inFlight k with
    | some .fetchThreads => (s.returned k).threadsFetched result
    | _ => s
  | .deleted k =>
    match s.inFlight k with
    | some (.deleteThread _) => (s.returned k).refreshThreads
    | _ => s
  | .frame k frame =>
    match s.inFlight k with
    | some (.streamTurn x) => s.frameRead k x frame
    | _ => s
  | .ended k thrown =>
    match s.inFlight k with
    | some (.streamTurn x) => (s.returned k).turnEnded x thrown
    | _ => s

/-- The page after these events. -/
def after (s : App) (events : List Event) : App := events.foldl step s

/-- The page as it is loaded, after these events. -/
def reached (events : List Event) : App := after {} events

end App

end BankingControlPlane.Browser
