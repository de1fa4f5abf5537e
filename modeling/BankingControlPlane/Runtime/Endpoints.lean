import BankingControlPlane.Runtime.Events
import BankingControlPlane.Runtime.Turns
import Mathlib.Algebra.Group.Nat.Defs

/-!
# One turn behind two endpoints

* `Behaviour` : the chunks the agent's stream brings, and the exception it may end with;
* `Behaviour.runTurn` : the frames of the turn, and whether an exception left the generator after them;
* `StageModel.stageOf` : what a chunk of the custom channel adds to the turn;
* `streamTurn` : the frames that one endpoint writes, up to the first that cannot be written;
* `submitTurn` : what the other endpoint returns or raises, and `TurnReply.answer` what its client gets.
-/

namespace BankingControlPlane
open Json

/-! ## The last answer -/

/-- A content block: a text block, whose text may be no string, or another. -/
inductive Piece where
  | text (t : Option String)
  | other
deriving DecidableEq, Repr

/-- The content of a message: a text, blocks, or nothing that can be gone through. -/
inductive RawContent where
  | str (s : String)
  | pieces (ps : List Piece)
  | other
deriving DecidableEq, Repr

/-- A message as the stream brings it. -/
structure RawMessage where
  ai : Bool
  content : RawContent
deriving DecidableEq, Repr

/-- The texts of the text blocks, if all are strings. -/
def pieceTexts : List Piece → Option (List String)
  | [] => some []
  | .text t :: rest => t.bind fun t => (pieceTexts rest).map (t :: ·)
  | .other :: rest => pieceTexts rest

def RawContent.text? : RawContent → Option String
  | .str s => some s
  | .pieces ps => (pieceTexts ps).map " ".intercalate
  | .other => none

/-- `_final_text`, unless it raises. -/
def finalText? (messages : List RawMessage) : Option String :=
  match messages.reverse.find? RawMessage.ai with
  | none => some ""
  | some m => m.content.text?

/-! ## What the agent does -/

/-- An HTTP exception: its detail as a response has it, and as `str` has it, each unless that raises. -/
structure HttpException (F : Type) where
  status : Nat
  status_lt : status < 1000
  detail : Option (Value F)
  shown : Option String

/-- An exception: it may be an HTTP exception, and `str` of it may raise. -/
structure Exc (F : Type) where
  http : Option (HttpException F)
  shown : Option String

/-- What a chunk of the `values` channel has under `messages`; `other` cannot be reversed. -/
inductive Found where
  | nothing
  | list (messages : List RawMessage)
  | other
deriving DecidableEq, Repr

inductive Chunk (C : Type) where
  | custom (chunk : C)
  | values (found : Found)
  | messages

structure Behaviour (C F : Type) where
  chunks : List (Chunk C)
  ending : Option (Exc F)

/-- `chunk.get("messages") or final`. -/
def Found.orElse : Found → Found → Found
  | .nothing, final => final
  | .list [], final => final
  | found, _ => found

def Found.text? : Found → Option String
  | .nothing => some ""
  | .list messages => finalText? messages
  | .other => none

/-! ## The turn -/

/-- Nanoseconds by a clock that counts them in 64 bits. -/
structure Elapsed where
  ns : Nat
  ns_lt : ns < 2 ^ 63

structure TraceLink where
  id : Option String
  url : Option String
deriving DecidableEq, Repr

inductive Frame (F : Type) where
  | stage (event : Value F)
  | turn (answer : Value F)
  | error (exc : Exc F)
  | trace (link : Value F)

/-- The frames of a turn, and whether an exception left the generator after them. -/
structure TurnFrames (F : Type) where
  frames : List (Frame F)
  escaped : Bool

section Payloads
variable {F : Type}

def turnPayload (threadId text : String) (elapsed : Elapsed) : Value F :=
  .obj [("thread_id", .str threadId), ("text", .str text), ("ns", .int elapsed.ns)]

def errorPayload (status : Nat) (detail : String) : Value F :=
  .obj [("status", .int status), ("detail", .str detail)]

def strOrNull (s : Option String) : Value F := (s.map Value.str).getD .null

def TraceLink.payload (link : TraceLink) : Value F :=
  .obj [("trace_id", strOrNull link.id), ("trace_url", strOrNull link.url)]

/-- `HTTPException(status, detail)`. -/
def HttpException.ofText (status : Nat) (h : status < 1000) (detail : String) : HttpException F :=
  { status := status, status_lt := h, detail := some (.str detail), shown := some detail }

/-- What a custom chunk that is no stage event raises. -/
def invalidStage (text : String) : Exc F := { http := none, shown := some text }

end Payloads

/-- What is left of the agent's stream: stage events, the last messages, and the exception caught. -/
structure Drained (F : Type) where
  stages : List (Value F)
  final : Found
  failure : Option (Exc F)

section Turn
variable {C F : Type} (stageOf : C → Except String (Option (Value F)))

/-- The loop over the stream, inside the `try`. -/
def drain (ending : Option (Exc F)) : Found → List (Chunk C) → Drained F
  | final, [] => ⟨[], final, ending⟩
  | final, .custom chunk :: rest =>
    match stageOf chunk with
    | .error text => ⟨[], final, some (invalidStage text)⟩
    | .ok none => drain ending final rest
    | .ok (some event) =>
      let later := drain ending final rest
      { later with stages := event :: later.stages }
  | final, .values found :: rest => drain ending (found.orElse final) rest
  | final, .messages :: rest => drain ending final rest

/-- What follows the stage frames. -/
def closingFrames (threadId : String) (link : TraceLink) (elapsed : Elapsed) (failure : Option (Exc F))
    (text : Option String) : TurnFrames F :=
  match failure, text with
  | none, some text => ⟨[.turn (turnPayload threadId text elapsed), .trace link.payload], false⟩
  | some exc, some _ =>
    -- the span's status message is `str` of the exception
    if exc.shown.isSome then ⟨[.error exc, .trace link.payload], false⟩ else ⟨[], true⟩
  | _, none => ⟨[], true⟩

def Behaviour.runTurn (b : Behaviour C F) (threadId : String) (link : TraceLink) (elapsed : Elapsed) :
    TurnFrames F :=
  let drained := drain stageOf b.ending (.list []) b.chunks
  let close := closingFrames threadId link elapsed drained.failure drained.final.text?
  ⟨drained.stages.map .stage ++ close.frames, close.escaped⟩

end Turn

/-! ## Stage events off the custom channel -/

/-- What a node wrote to the custom channel: a dict, of which `trail_stage` is read, where it is there and not
`None`; or something else. -/
inductive CustomChunk (P : Type) where
  | dict (trailStage : Option P)
  | other

/-- What pydantic makes of a payload: the event, unless it is invalid; and the event as JSON has it, unless its
open `detail` holds what JSON cannot. -/
structure StageModel (P E F : Type) where
  validate : P → Except String E
  dump : E → Except String (Value F)

section Stages
variable {P E F : Type} (model : StageModel P E F)

/-- `stage_from_chunk`. -/
def StageModel.stageFromChunk : CustomChunk P → Except String (Option E)
  | .other => .ok none
  | .dict none => .ok none
  | .dict (some payload) => (model.validate payload).map some

/-- What a custom chunk adds to the turn: `stage_from_chunk`, dumped if it is an event. -/
def StageModel.stageOf (chunk : CustomChunk P) : Except String (Option (Value F)) :=
  match model.stageFromChunk chunk with
  | .error text => .error text
  | .ok none => .ok none
  | .ok (some event) => (model.dump event).map some

end Stages

/-! ## The streaming endpoint -/

section Stream
variable {F : Type} (fl : Floats F)

/-- The payload of an `error` frame, unless `str` of the detail raises. -/
def errorJson (exc : Exc F) : Option (Value F) :=
  match exc.http with
  | some http => http.shown.map (errorPayload http.status)
  | none => some (errorPayload 500 "internal error")

def Frame.onWire : Frame F → Option (WireName × Value F)
  | .stage event => some (.stage, event)
  | .turn answer => some (.turn, answer)
  | .error exc => (errorJson exc).map fun payload => (.error, payload)
  | .trace link => some (.trace, link)

/-- The frames written. The first that cannot be breaks the response off. -/
def streamTurn : List (Frame F) → List (WireName × Value F)
  | [] => []
  | frame :: rest =>
    match frame.onWire with
    | none => []
    | some wire => if (sse fl wire.1.text wire.2).isSome then wire :: streamTurn rest else []

end Stream

/-! ## The buffered endpoint -/

inductive TurnReply (F : Type) where
  | returns (answer : Value F)
  | raises (exc : HttpException F)
  | crashes

/-- What the client gets; an answer may have no JSON. -/
structure Answer (F : Type) where
  status : Nat
  body : Option (Value F)

section Submit
variable {F : Type}

def Exc.reraised (exc : Exc F) : TurnReply F :=
  match exc.http with
  | some http => .raises http
  | none =>
    match exc.shown with
    | some text => .raises (.ofText 502 (by decide) text)
    | none => .crashes

/-- The frames drained, with the answer found so far. -/
def drainFrames (escaped : Bool) : Option (Value F) → List (Frame F) → TurnReply F
  | answer, [] =>
    if escaped then .crashes
    else match answer with
      | some answer => .returns answer
      | none => .raises (.ofText 500 (by decide) "the turn produced no answer")
  | _, .turn answer :: rest => drainFrames escaped (some answer) rest
  | _, .error exc :: _ => exc.reraised
  | answer, .stage _ :: rest => drainFrames escaped answer rest
  | answer, .trace _ :: rest => drainFrames escaped answer rest

def submitTurn (run : TurnFrames F) : TurnReply F := drainFrames run.escaped none run.frames

/-- What the framework answers: `{"detail": …}` under the exception's status, where that status has a body. -/
def TurnReply.answer (bodyAllowed : Nat → Bool) : TurnReply F → Answer F
  | .returns answer => ⟨200, some answer⟩
  | .raises exc =>
    if bodyAllowed exc.status then
      match exc.detail with
      | some detail => ⟨exc.status, some (.obj [("detail", detail)])⟩
      | none => ⟨500, none⟩
    else ⟨exc.status, none⟩
  | .crashes => ⟨500, none⟩

end Submit

/-! ## The graph's messages -/

def Block.piece : Block → Piece
  | .text t => .text (some t)
  | .other => .other

def Content.raw : Content → RawContent
  | .str s => .str s
  | .blocks bs => .pieces (bs.map Block.piece)

def Message.raw (m : Message) : RawMessage := { ai := m.kind = .ai, content := m.content.raw }

theorem pieceTexts_blocks (bs : List Block) : pieceTexts (bs.map Block.piece) = some (bs.filterMap Block.text?) := by
  induction bs with
  | nil => rfl
  | cons b rest ih =>
    cases b with
    | text t =>
      change (pieceTexts (rest.map Block.piece)).map (t :: ·) = _
      rw [ih]
      rfl
    | other => exact ih

theorem text?_raw (content : Content) : content.raw.text? = some content.text := by
  cases content with
  | str s => rfl
  | blocks bs =>
    change (pieceTexts (bs.map Block.piece)).map _ = _
    rw [pieceTexts_blocks]
    rfl

/-- The messages of the graph are read as they are meant. -/
theorem finalText?_raw (messages : List Message) :
    finalText? (messages.map Message.raw) = some (finalText messages) := by
  have hfind : (messages.map Message.raw).reverse.find? RawMessage.ai =
      (messages.reverse.find? fun m => m.kind = .ai).map Message.raw := by
    rw [← List.map_reverse, List.find?_map]
    rfl
  unfold finalText? finalText
  rw [hfind]
  cases messages.reverse.find? fun m => m.kind = .ai with
  | none => rfl
  | some m => exact text?_raw m.content

end BankingControlPlane
