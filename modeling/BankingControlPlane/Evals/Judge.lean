import BankingControlPlane.Evals.Runner
import BankingControlPlane.Text.Strings

/-!
# A check whose verdict comes from a model

* `asciiUpper` : the ASCII letters of `str.upper`;
* `parse` : the judge's reply, read by how it begins;
* `judge` : a judge check.
-/

namespace BankingControlPlane.Evals
open Json Text

/-- The characters that are no ASCII and have ASCII letters in upper case. -/
def upperSpecial : List (Nat × List Char) :=
  [(0xDF, ['S', 'S']), (0x131, ['I']), (0x149, ['ʼ', 'N']), (0x17F, ['S']), (0x1F0, ['J', '\u030C']),
    (0x1E96, ['H', '\u0331']), (0x1E97, ['T', '\u0308']), (0x1E98, ['W', '\u030A']), (0x1E99, ['Y', '\u030A']),
    (0x1E9A, ['A', 'ʾ']), (0xFB00, ['F', 'F']), (0xFB01, ['F', 'I']), (0xFB02, ['F', 'L']),
    (0xFB03, ['F', 'F', 'I']), (0xFB04, ['F', 'F', 'L']), (0xFB05, ['S', 'T']), (0xFB06, ['S', 'T'])]

/-- `str.upper` of one character, as far as it has ASCII letters: one that has none stands for itself, which
answers the same where the text is compared with ASCII letters. -/
def asciiUpper (c : Char) : List Char :=
  if c.toNat < 128 then [c.toUpper]
  else ((upperSpecial.find? fun entry => entry.1 = c.toNat).map Prod.snd).getD [c]

def passWord : List Char := ['P', 'A', 'S', 'S']

def failWord : List Char := ['F', 'A', 'I', 'L']

/-- `_parse`: whether the judge passed the answer, and the reason if not. -/
def parse (repr : String → String) (text : String) : Except String (Bool × String) :=
  let stripped := strip text.toList
  let upper := stripped.flatMap asciiUpper
  if passWord <+: upper then .ok (true, "")
  else if failWord <+: upper then
    let reason := strip ((stripped.drop 4).dropWhile fun c => c = ':' ∨ c = ' ')
    .ok (false, if reason = [] then "sem motivo declarado" else String.ofList reason)
  else .error ("ValueError: veredito ilegível do juiz: " ++ repr (String.ofList (stripped.take 120)))

section Judge
variable {F : Type}

/-- `answer[:200]`, of an answer that may be no text. -/
def quoted (ops : Operators F) : Value F → Except String String
  | .str answer => .ok (brief answer)
  | .arr items => .ok (ops.str (.arr (items.take 200)))
  | .obj _ => .error "KeyError: slice(None, 200, None)"
  | answer => .error ("TypeError: '" ++ typeName answer ++ "' object is not subscriptable")

/-- A judge check, and what the judge replies to it: a text, or an exception where none is bound or it raises. -/
def judge (ops : Operators F) (repr : String → String) (reply : Observation F → Except String String)
    (rubric : String) (kind : FindingKind := .omission) (metric : String := "") : Check F where
  name := "judge(" ++ String.ofList (rubric.toList.take 60) ++ ")"
  metric := metric
  run obs :=
    match (reply obs).bind (parse repr) with
    | .error exc => .raises exc
    | .ok (true, _) => .returns []
    | .ok (false, reason) =>
      match quoted ops obs.answer with
      | .error exc => .raises exc
      | .ok actual =>
        .returns
          [{ caseId := obs.caseId, turn := obs.turn, kind := kind,
             check := "judge(" ++ String.ofList (rubric.toList.take 60) ++ ")", source := .judge, expected := rubric,
             actual := actual, detail := reason }]

end Judge

end BankingControlPlane.Evals
