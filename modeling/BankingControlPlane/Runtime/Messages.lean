import BankingControlPlane.Text.Strings

/-!
# Messages of a conversation

* `Content` : a text, or blocks of which only those with text are read;
* `Message` : what was said, who said it, and which gate put it there instead of an answer;
* `lastText`, `lastUserText`, `finalText` : what gates and turns read off a list of messages;
* `readableMessages` : the transcript a client is shown.
-/

namespace BankingControlPlane

/-- Nothing is left when the text is stripped. -/
def blank (s : String) : Bool := s.toList.all Text.isSpace

/-- A block of a multimodal message. -/
inductive Block where
  | text (t : String)
  | other
deriving DecidableEq, Repr

def Block.text? : Block → Option String
  | .text t => some t
  | .other => none

inductive Content where
  | str (s : String)
  | blocks (bs : List Block)
deriving DecidableEq, Repr

/-- The text of a message: all of it, or its text blocks. -/
def Content.text : Content → String
  | .str s => s
  | .blocks bs => " ".intercalate (bs.filterMap Block.text?)

inductive Kind where
  | human | ai | tool
deriving DecidableEq, Repr

/-- `guard_in` and `guard_out`. -/
inductive Gate where
  | guardIn | guardOut
deriving DecidableEq, Repr

structure Message where
  kind : Kind
  content : Content
  toolCalls : List String := []
  refusedBy : Option Gate := none
deriving DecidableEq, Repr

namespace Message

def human (text : String) : Message := { kind := .human, content := .str text }

def ai (content : Content) (toolCalls : List String := []) : Message :=
  { kind := .ai, content := content, toolCalls := toolCalls }

def tool (content : Content) : Message := { kind := .tool, content := content }

/-- The message a gate answers with. -/
def refusal (gate : Gate) (text : String) : Message :=
  { kind := .ai, content := .str text, refusedBy := some gate }

end Message

/-- The text of the last message. -/
def lastText (messages : List Message) : String :=
  (messages.getLast?.map fun m => m.content.text).getD ""

/-- The latest customer utterance. -/
def lastUserText (messages : List Message) : String :=
  ((messages.reverse.find? fun m => m.kind = .human).map fun m => m.content.text).getD ""

/-- The gate that already refused this turn. -/
def refusedBy (messages : List Message) : Option Gate := messages.getLast?.bind Message.refusedBy

/-- The last assistant message's text. -/
def finalText (messages : List Message) : String :=
  ((messages.reverse.find? fun m => m.kind = .ai).map fun m => m.content.text).getD ""

inductive Role where
  | user | agent
deriving DecidableEq, Repr

/-- A message as a reader sees it: not the machinery, and nothing without text. -/
def Message.readable (m : Message) : Option (Role × String) :=
  match m.content with
  | .blocks _ => none
  | .str s =>
    if blank s then none
    else match m.kind with
      | .human => some (.user, s)
      | .ai => some (.agent, s)
      | .tool => none

def readableMessages (messages : List Message) : List (Role × String) :=
  messages.filterMap Message.readable

theorem lastText_snoc (messages : List Message) (m : Message) :
    lastText (messages ++ [m]) = m.content.text := by
  simp [lastText]

theorem refusedBy_snoc (messages : List Message) (m : Message) :
    refusedBy (messages ++ [m]) = m.refusedBy := by
  simp [refusedBy]

theorem finalText_snoc {m : Message} (messages : List Message) (hm : m.kind = .ai) :
    finalText (messages ++ [m]) = m.content.text := by
  simp [finalText, hm]

/-- What comes after the last utterance and is not one does not hide it. -/
theorem lastUserText_append (messages : List Message) (text : String) {later : List Message}
    (h : ∀ m ∈ later, m.kind ≠ .human) :
    lastUserText (messages ++ Message.human text :: later) = text := by
  have hnone : later.reverse.find? (fun m => m.kind = .human) = none := by
    rw [List.find?_eq_none]
    intro m hm
    simpa using h m (List.mem_reverse.mp hm)
  simp [lastUserText, hnone, Message.human, Content.text]

end BankingControlPlane
