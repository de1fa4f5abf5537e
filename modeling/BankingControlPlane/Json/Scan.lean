import BankingControlPlane.Json.Value

/-!
# Reading JSON

`loads` is `json.loads`: a value with whitespace around it and nothing else.

* A `Reader` takes something off the front of a text;
* `scanNumber`, `scanString` : the two that read characters; `listing` reads what brackets hold;
* `scan` : a value. Its first argument bounds the depth, and the length of the text is enough.
-/

namespace Json
open Keyed

abbrev Reader (α : Type) := List Char → Option (α × List Char)

variable {F α : Type}

/-- Whitespace between tokens. -/
def isBlank (c : Char) : Bool := c = ' ' || c = '\t' || c = '\n' || c = '\r'

def skip (text : List Char) : List Char := text.dropWhile isBlank

/-! ## Numbers -/

def scanDigits : Reader (List Char) := fun text =>
  let digits := text.takeWhile Char.isDigit
  if digits = [] then none else some (digits, text.dropWhile Char.isDigit)

/-- A zero stands alone. -/
def scanNatural : Reader (List Char)
  | '0' :: rest => some (['0'], rest)
  | text => scanDigits text

def scanWhole : Reader (List Char)
  | '-' :: rest => (scanNatural rest).map fun (digits, rest) => ('-' :: digits, rest)
  | text => scanNatural text

/-- A fraction, if there is one. -/
def scanFrac : List Char → List Char × List Char
  | '.' :: rest => ((scanDigits rest).map fun (digits, rest) => ('.' :: digits, rest)).getD ([], '.' :: rest)
  | text => ([], text)

def scanSign : List Char → List Char × List Char
  | '+' :: rest => (['+'], rest)
  | '-' :: rest => (['-'], rest)
  | text => ([], text)

/-- An exponent, if there is one. -/
def scanExp : List Char → List Char × List Char
  | [] => ([], [])
  | mark :: text =>
    if mark = 'e' ∨ mark = 'E' then
      let (sign, rest) := scanSign text
      ((scanDigits rest).map fun (digits, rest) => (mark :: sign ++ digits, rest)).getD ([], mark :: text)
    else ([], mark :: text)

def readNat (digits : List Char) : Nat := Nat.ofDigitChars 10 digits 0

def readInt : List Char → Option Int
  | '-' :: digits => if digits.length ≤ maxStrDigits then some (-(readNat digits : Int)) else none
  | digits => if digits.length ≤ maxStrDigits then some (readNat digits) else none

/-- What the text of a number stands for. -/
def number (fl : Floats F) (whole frac exp : List Char) : Option (Value F) :=
  if frac ++ exp = [] then (readInt whole).map .int else some (.float (fl.read (whole ++ frac ++ exp)))

def scanNumber (fl : Floats F) : Reader (Value F) := fun text =>
  (scanWhole text).bind fun (whole, rest) =>
    let (frac, rest) := scanFrac rest
    let (exp, rest) := scanExp rest
    (number fl whole frac exp).map fun v => (v, rest)

/-! ## Strings -/

def readHex (c : Char) : Option Nat :=
  if c.isDigit then some (c.toNat - 48)
  else if 'a' ≤ c ∧ c ≤ 'f' then some (c.toNat - 87)
  else if 'A' ≤ c ∧ c ≤ 'F' then some (c.toNat - 55)
  else none

def readHex4 (a b c d : Char) : Option Nat := do
  some (((← readHex a) * 16 + (← readHex b)) * 256 + ((← readHex c) * 16 + (← readHex d)))

/-- The character after a backslash, other than `u`. -/
def unescape (c : Char) : Option Nat :=
  if c = '"' then some 34
  else if c = '\\' then some 92
  else if c = '/' then some 47
  else if c = 'b' then some 8
  else if c = 'f' then some 12
  else if c = 'n' then some 10
  else if c = 'r' then some 13
  else if c = 't' then some 9
  else none

/-- The code units of a string, up to its closing quote. -/
def scanUnits : Reader (List Nat)
  | [] => none
  | '"' :: rest => some ([], rest)
  | '\\' :: 'u' :: a :: b :: c :: d :: rest =>
    (readHex4 a b c d).bind fun unit => (scanUnits rest).map fun (units, rest) => (unit :: units, rest)
  | '\\' :: c :: rest =>
    (unescape c).bind fun unit => (scanUnits rest).map fun (units, rest) => (unit :: units, rest)
  | c :: rest =>
    if c.toNat < 32 ∨ c = '\\' then none
    else (scanUnits rest).map fun (units, rest) => (c.toNat :: units, rest)

/-- Pairs of surrogates are one character. A string with a lone one has no list of characters. -/
def joinUnits : List Nat → Option (List Char)
  | [] => some []
  | [unit] => if unit.isValidChar then some [Char.ofNat unit] else none
  | unit :: low :: rest =>
    if 0xD800 ≤ unit ∧ unit < 0xDC00 ∧ 0xDC00 ≤ low ∧ low < 0xE000 then
      (joinUnits rest).map fun text => Char.ofNat (0x10000 + (unit - 0xD800) * 0x400 + (low - 0xDC00)) :: text
    else if unit.isValidChar then (joinUnits (low :: rest)).map fun text => Char.ofNat unit :: text
    else none

/-- A string, after its opening quote. -/
def scanString : Reader String := fun text =>
  (scanUnits text).bind fun (units, rest) => (joinUnits units).map fun chars => (String.ofList chars, rest)

/-! ## Values -/

/-- The rest of what brackets hold, after the first of it. -/
def listingMore (close : Char) (item : Reader α) : Nat → Reader (List α)
  | 0, _ => none
  | n + 1, text =>
    match skip text with
    | [] => none
    | c :: rest =>
      if c = close then some ([], rest)
      else if c = ',' then
        (item (skip rest)).bind fun (x, rest) => (listingMore close item n rest).map fun (xs, rest) => (x :: xs, rest)
      else none

/-- What brackets hold, after the opening one. -/
def listing (close : Char) (item : Reader α) (n : Nat) : Reader (List α) := fun text =>
  match skip text with
  | [] => none
  | c :: rest =>
    if c = close then some ([], rest)
    else (item (c :: rest)).bind fun (x, rest) => (listingMore close item n rest).map fun (xs, rest) => (x :: xs, rest)

/-- A key, a colon, and the value read by `item`. -/
def member (item : Reader α) : Reader (String × α)
  | '"' :: text =>
    (scanString text).bind fun (key, rest) =>
      match skip rest with
      | ':' :: rest => (item (skip rest)).map fun (v, rest) => ((key, v), rest)
      | _ => none
  | _ => none

/-- A key that comes again replaces its value. -/
def dict (fields : List (String × Value F)) : List (String × Value F) := fields.foldl (upsert Prod.fst) []

def literal (word : List Char) (v : Value F) : Reader (Value F) := fun text =>
  if word <+: text then some (v, text.drop word.length) else none

def scan (fl : Floats F) : Nat → Reader (Value F)
  | 0, _ => none
  | _ + 1, [] => none
  | n + 1, c :: text =>
    if c = '"' then (scanString text).map fun (s, rest) => (.str s, rest)
    else if c = '[' then (listing ']' (scan fl n) n text).map fun (items, rest) => (.arr items, rest)
    else if c = '{' then (listing '}' (member (scan fl n)) n text).map fun (fields, rest) => (.obj (dict fields), rest)
    else if c = 'n' then literal ['u', 'l', 'l'] .null text
    else if c = 't' then literal ['r', 'u', 'e'] (.bool true) text
    else if c = 'f' then literal ['a', 'l', 's', 'e'] (.bool false) text
    else if c = 'N' then literal ['a', 'N'] (.float fl.nan) text
    else if c = 'I' then literal ['n', 'f', 'i', 'n', 'i', 't', 'y'] (.float fl.infinity) text
    else if c = '-' ∧ text.head? = some 'I' then
      literal ['I', 'n', 'f', 'i', 'n', 'i', 't', 'y'] (.float fl.negInfinity) text
    else scanNumber fl (c :: text)

/-- A value and whitespace, and nothing else. -/
def loads (fl : Floats F) (text : List Char) : Option (Value F) :=
  (scan fl text.length (skip text)).bind fun (v, rest) => if skip rest = [] then some v else none

end Json
