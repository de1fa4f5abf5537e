import BankingControlPlane.Runtime.Guards
import BankingControlPlane.Text.Regex
import Mathlib.Data.List.Infix

/-!
# The checks that no domain brings

* `Alphabet` : what patterns ask of a character;
* `injectionCheck` : messages that try to rewrite the agent's instructions;
* `secretLeakCheck` : responses with a credential in them, by its shape or verbatim;
* `allOf` : every check, every violation.
-/

namespace BankingControlPlane
open Text (Regex)

/-- What patterns ask of characters: `\w`, and equality where case is ignored. -/
structure Alphabet where
  word : Char → Bool
  alike : Char → Char → Bool
  word_ascii : ∀ c : Char, c.isAlphanum = true ∨ c = '_' → word c = true

namespace Alphabet
variable (α : Alphabet)

/-- `\b`. -/
def edge : Regex := .look fun before after => before.any α.word != after.any α.word

/-- These letters, in whatever case. -/
def said (w : String) : Regex := .spelled α.alike w.toList

/-- One of these letters, in whatever case. -/
def among (w : String) : Regex := .one fun x => w.toList.any fun c => α.alike c x

/-- `s?`, and the like. -/
def maybe (w : String) : Regex := .opt (α.said w)

/-- `\b(...)\b`. -/
def whole (r : Regex) : Regex := .sequence [α.edge, r, α.edge]

end Alphabet

/-- `\s+`. -/
def spaces : Regex := .plus (.one Text.isSpace)

/-- `[^.\n]{0,40}`. -/
def gap : Regex := .upTo (.one fun x => x ≠ '.' ∧ x ≠ '\n') 40

/-- These letters, as they are. -/
def exactly (w : String) : Regex := .spelled (fun c x => c = x) w.toList

/-! ## Prompt injection -/

section Injection
variable (α : Alphabet)

def overrideVerb : Regex :=
  .choice [α.said "ignore", α.said "disregard", α.said "forget",
    .sequence [α.said "esque", α.among "çc", α.said "a"],
    .sequence [α.said "ignor", α.maybe "e", α.maybe "e"]]

def overrideWhich : Regex :=
  .choice [α.said "previous", α.said "prior", α.said "above", α.said "all", α.said "your", α.said "as",
    .sequence [α.said "sua", α.maybe "s"], .sequence [α.said "toda", α.maybe "s"]]

def overrideWhat : Regex :=
  .choice [.sequence [α.said "instruction", α.maybe "s"], .sequence [α.said "prompt", α.maybe "s"],
    .sequence [α.said "rule", α.maybe "s"],
    .sequence [α.said "instru", α.among "çc", α.among "õo", α.said "es"],
    .sequence [α.said "regra", α.maybe "s"], .sequence [α.said "orden", α.maybe "s"]]

def overrideInstructions : Regex :=
  .sequence [α.whole (overrideVerb α), gap, α.whole (overrideWhich α), gap, α.whole (overrideWhat α)]

def revealVerb : Regex :=
  .choice [α.said "reveal", α.said "print", α.said "show", α.said "repeat", α.said "output",
    .sequence [α.said "imprim", α.among "ae"], α.said "mostre", α.said "revele", α.said "repita"]

def revealWhat : Regex :=
  .choice [.sequence [α.said "system", spaces, α.said "prompt"],
    .sequence [α.said "initial", spaces, α.said "instructions"],
    .sequence [α.said "your", spaces, α.said "prompt"], .sequence [α.said "system", spaces, α.said "message"],
    .sequence [α.said "prompt", spaces, α.said "de", spaces, α.said "sistema"],
    .sequence [α.said "suas", spaces, α.said "instru", α.among "çc", α.among "õo", α.said "es"]]

def revealSystemPrompt : Regex := .sequence [α.whole (revealVerb α), gap, α.whole (revealWhat α)]

def roleOverride : Regex :=
  α.whole (.choice [.sequence [α.said "you", spaces, α.said "are", spaces, α.said "now"],
    .sequence [α.said "from", spaces, α.said "now", spaces, α.said "on", spaces, α.said "you"],
    .sequence [α.said "act", spaces, α.said "as", spaces, α.said "if", spaces, α.said "you"],
    .sequence [α.said "agora", spaces, α.said "voc", α.among "êe", spaces, α.among "ée"],
    .sequence [α.said "a", spaces, α.said "partir", spaces, α.said "de", spaces, α.said "agora", spaces,
      α.said "voc", α.among "êe"]])

/-- `_INJECTION_PATTERNS`. -/
def injectionPatterns : List (String × Regex) :=
  [("override_instructions", overrideInstructions α), ("reveal_system_prompt", revealSystemPrompt α),
    ("role_override", roleOverride α)]

end Injection

/-- Evidence is clipped to a length that fits in a log line. -/
def evidence (text : List Char) : String :=
  String.ofList (if text.length ≤ 160 then text else text.take 160 ++ ['…'])

/-- Refuses messages that try to rewrite the agent's instructions. -/
def injectionCheck (α : Alphabet) : Check := fun text =>
  (injectionPatterns α).filterMap fun pattern => (pattern.2.search text.toList).map fun found => {
    check := "prompt_injection"
    rule := pattern.1
    detail := "the message attempts to override the agent instructions"
    evidence := evidence found }

/-! ## Credentials -/

def isKeyChar (c : Char) : Bool := c.isAlphanum || c = '_' || c = '-'

/-- `_SECRET_PATTERNS`. -/
def secretPatterns (α : Alphabet) : List (String × Regex) :=
  [("openai_key", .sequence [α.edge, exactly "sk-", .atLeast (.one isKeyChar) 16, α.edge]),
    ("bearer_token", .sequence [α.edge, exactly "Bearer", spaces,
      .atLeast (.one fun c => isKeyChar c || c = '.') 20, α.edge]),
    ("aws_access_key", .sequence [α.edge, .choice [exactly "AKIA", exactly "ASIA"],
      .times (.one fun c => c.isDigit || c.isUpper) 16, α.edge]),
    ("private_key_block", .sequence [exactly "-----BEGIN ", .star (.one fun c => c.isUpper || c = ' '),
      exactly "PRIVATE KEY-----"])]

/-- Refuses responses with a credential in them. Secrets of fewer than 8 characters are not looked for, and none is
reported. -/
def secretLeakCheck (α : Alphabet) (literals : List String) : Check := fun text =>
  let shaped := (secretPatterns α).filterMap fun pattern => (pattern.2.search text.toList).map fun _ =>
    ({ check := "secret_leak"
       rule := pattern.1
       detail := "the response contains something shaped like a credential"
       evidence := "<" ++ pattern.1 ++ " redacted>" } : Violation)
  let real := literals.filter fun s => 8 ≤ s.length
  if ∃ secret ∈ real, secret.toList <:+: text.toList then
    shaped ++ [{
      check := "secret_leak"
      rule := "configured_secret"
      detail := "the response contains a secret from this configuration"
      evidence := "<secret redacted>" }]
  else shaped

/-! ## Together -/

/-- One check that runs every check and accumulates every violation. -/
def allOf (checks : List Check) : Check := fun text => checks.flatMap fun check => check text

end BankingControlPlane
