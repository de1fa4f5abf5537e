import BankingControlPlane.Plane.Policy

/-!
# The payment intent, its state machine, and the entries of the ledger

* `TRANSITIONS` : `(from, event) → to`, the whole machine;
* `Intent` : one sensitive action from proposal to a terminal state;
* `Entry` : what one ledger row says, one constructor for each kind of event;
* `Env` : what a process is configured with and reads from outside (secret, clocks, random ids);
* `actionDigest` : the keyed fingerprint of the action a token was issued against.
-/

namespace BankingControlPlane

inductive State where
  | created | validated | awaitingStepUp | awaitingConfirmation | authorized | submitted
  | pending | completed | failed | cancelled | reversed | unknown
deriving DecidableEq, Repr

/-- The events of the machine. -/
inductive Hop where
  | validate | reject | requireStepUp | awaitConfirmation | stepUp | cancel | confirm
  | submit | complete | pend | fail | timeout | reverse
deriving DecidableEq, Repr

def terminal : State → Bool
  | .completed | .failed | .cancelled | .reversed => true
  | _ => false

def TRANSITIONS : State → Hop → Option State
  | .created, .validate => some .validated
  | .created, .reject => some .cancelled
  | .validated, .reject => some .cancelled
  | .validated, .requireStepUp => some .awaitingStepUp
  | .validated, .awaitConfirmation => some .awaitingConfirmation
  | .awaitingStepUp, .stepUp => some .validated
  | .awaitingStepUp, .cancel => some .cancelled
  | .awaitingConfirmation, .confirm => some .authorized
  | .awaitingConfirmation, .cancel => some .cancelled
  | .authorized, .submit => some .submitted
  | .submitted, .complete => some .completed
  | .submitted, .pend => some .pending
  | .submitted, .fail => some .failed
  | .submitted, .timeout => some .unknown
  | .pending, .complete => some .completed
  | .pending, .fail => some .failed
  | .unknown, .complete => some .completed
  | .unknown, .fail => some .failed
  | .completed, .reverse => some .reversed
  | _, _ => none

/-- What the bank answers when it has paid. -/
structure Receipt where
  paymentId : String
  endToEndId : String
  status : String
  amount : String
  recipientId : String
deriving DecidableEq, Repr

structure Intent where
  id : String
  action : CreatePix
  context : Context
  state : State := .created
  createdAt : Instant
  confirmationId : Option String := none
  confirmationIssuedAt : Option Instant := none
  actionDigest : Option String := none
  confirmedAt : Option Instant := none
  confirmedBy : Option String := none
  receipt : Option Receipt := none
  reason : String := ""
deriving DecidableEq, Repr

/-- One intent, one key, forever. -/
def Intent.idempotencyKey (i : Intent) : String := i.id

/-! ## The ledger -/

/-- What a transition's ledger row says besides the hop. -/
inductive Detail where
  | none
  | reason (text : String)
  | rule (name : String)
  | by (who : String)
  | token (confirmationId digest : String)
  | reconciled
deriving DecidableEq, Repr

/-- What a `request` row carries besides the principal. -/
inductive Requested where
  | text (words : String)
  | read (action : ReadAction)
deriving DecidableEq, Repr

inductive Entry where
  | request (customer session : String) (channel : Channel) (what : Requested)
  | interpreted (proposed : ProposedPix)
  | resolution (query : String) (found : List String)
  | canonicalAction (action : CreatePix)
  | risk (risk : Risk)
  | policy (verdict : Verdict)
  | transition (fromState : State) (event : Hop) (target : State) (detail : Detail)
  | transitionRefused (fromState : State) (event : Hop)
  | stepUp (method : String) (instant : Instant)
  | duplicateConfirmation (state : State)
  | confirmationExpired (issuedAt : Instant) (ttlSeconds : Int)
  | digestMismatch (expected : Option String) (actual : String)
  | confirmation (confirmationId confirmedBy session : String) (channel : Channel) (instant : Instant)
      (action : CreatePix)
  | authorization (assurance : Assurance)
  | executionRequest (idempotencyKey : String)
  | backendError (error : String)
  | backendReceipt (receipt : Receipt)
  | reconciliation (found : Bool)
  | restartSweep (foundIn resolvedTo : State)
  | result (status : Decision) (rule : Option String)
deriving DecidableEq, Repr

structure Event where
  intentId : String
  entry : Entry
deriving DecidableEq, Repr

/-- The principal a row names: only `request` rows have both a customer and a session. -/
def Entry.principal : Entry → Option (String × String)
  | .request customer session _ _ => some (customer, session)
  | _ => none

/-- `CONFIRMATION_TTL`: five minutes. -/
def confirmationTtl : Int := 300000000

/-! ## The process environment -/

/-- What a process is given: its key, the digest function, random ids that never repeat, its two
clocks, the time zone database and the text functions of the language. -/
structure Env where
  secret : String
  hmacSha256 : String → List (String × String) → String
  tokenHex : Nat → String
  tokenHex_injective : Function.Injective tokenHex
  clock : Nat → Instant
  now : Nat → Instant
  zone : Zone
  today : Nat → Int
  strip : String → String
  casefold : String → String
  repr : String → String

/-- HMAC-SHA256 of the canonical JSON, under the process's secret. -/
def actionDigest (env : Env) (action : CreatePix) : String :=
  env.hmacSha256 env.secret action.modelDump

/-- The digest tells the actions apart, for the secret in use. -/
def Env.Keyed (env : Env) : Prop := Function.Injective (env.hmacSha256 env.secret)

theorem Env.Keyed.injective {env : Env} (h : env.Keyed) : Function.Injective (actionDigest env) :=
  h.comp CreatePix.modelDump_injective

/-- `new_id`, at the `n`-th draw. -/
def newIdAt (env : Env) (stem : String) (n : Nat) : String := stem ++ "_" ++ env.tokenHex n

theorem newIdAt_injective (env : Env) (stem : String) : Function.Injective (newIdAt env stem) := by
  intro m n h
  refine env.tokenHex_injective ?_
  have h' := congrArg String.toList h
  simp only [newIdAt, String.toList_append, List.append_cancel_left_eq] at h'
  exact String.toList_inj.mp h'

/-- Ids of an intent and of a read differ in their first letter. -/
theorem newIdAt_pix_ne_read (env : Env) (m n : Nat) : newIdAt env "pix" m ≠ newIdAt env "read" n := by
  intro h
  have h' := congrArg (fun s => s.toList.head?) h
  simp [newIdAt] at h'

end BankingControlPlane
