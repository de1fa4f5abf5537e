import BankingControlPlane.Data.Keyed

/-!
# JSON values and their text

* `Value` : null, truth values, integers of any size, floats, strings, lists, and objects in order;
* `Floats` : what floats are, how they are written and read; `Floats.Lawful` is what the language documents;
* `encode` : `json.dumps` with `separators=(",", ":")` and `ensure_ascii=False`; `dumps` fails where an integer
  is too long to be written;
* `Value.parts` : a value and all that it is made of; `Value.Every` says something of each of them.
-/

namespace Json

inductive Value (F : Type) where
  | null
  | bool (b : Bool)
  | int (i : Int)
  | float (f : F)
  | str (s : String)
  | arr (items : List (Value F))
  | obj (fields : List (String × Value F))

variable {F : Type}

/-- Induction over a value, its items and its fields. -/
theorem Value.induct {P : Value F → Prop} (null : P .null) (bool : ∀ b, P (.bool b)) (int : ∀ i, P (.int i))
    (float : ∀ f, P (.float f)) (str : ∀ s, P (.str s)) (arr : ∀ items, (∀ v ∈ items, P v) → P (.arr items))
    (obj : ∀ fields, (∀ field ∈ fields, P field.2) → P (.obj fields)) (v : Value F) : P v :=
  @Value.rec F P (fun items => ∀ v ∈ items, P v) (fun fields => ∀ field ∈ fields, P field.2)
    (fun field => P field.2) null bool int float str arr obj
    (fun _ h => (List.not_mem_nil h).elim)
    (fun _ _ hfirst hrest => List.forall_mem_cons.mpr ⟨hfirst, hrest⟩)
    (fun _ h => (List.not_mem_nil h).elim)
    (fun _ _ hfirst hrest => List.forall_mem_cons.mpr ⟨hfirst, hrest⟩)
    (fun _ _ h => h) v

/-! ## Numbers -/

/-- What floats are to a program that writes and reads them. -/
structure Floats (F : Type) where
  text : F → List Char
  read : List Char → F
  nan : F
  infinity : F
  negInfinity : F
  Finite : F → Prop

/-- `sys.int_info.default_max_str_digits`: no longer integer is written or read. -/
def maxStrDigits : Nat := 4300

def natText (n : Nat) : List Char := Nat.toDigits 10 n

def intText (i : Int) : List Char := if i < 0 then '-' :: natText i.natAbs else natText i.natAbs

def Digits (text : List Char) : Prop := text ≠ [] ∧ ∀ c ∈ text, c.isDigit = true

/-- The integer part of a number: no superfluous zero. -/
def WholeText (text : List Char) : Prop :=
  ∃ digits, Digits digits ∧ (digits.head? = some '0' → digits = ['0']) ∧ (text = digits ∨ text = '-' :: digits)

def FracText (text : List Char) : Prop := text = [] ∨ ∃ digits, Digits digits ∧ text = '.' :: digits

def ExpText (text : List Char) : Prop :=
  text = [] ∨ ∃ mark sign digits, (mark = 'e' ∨ mark = 'E') ∧ (sign = [] ∨ sign = ['+'] ∨ sign = ['-']) ∧
    Digits digits ∧ text = mark :: sign ++ digits

/-- The text of a finite float is a number with a fraction or an exponent, and reads as the float. -/
structure Floats.Lawful (fl : Floats F) : Prop where
  number : ∀ f, fl.Finite f → ∃ whole frac exp, fl.text f = whole ++ frac ++ exp ∧ WholeText whole ∧
    FracText frac ∧ ExpText exp ∧ frac ++ exp ≠ []
  read_text : ∀ f, fl.Finite f → fl.read (fl.text f) = f

/-! ## Text -/

/-- One of the sixteen lower-case digits. -/
def hexDigit (n : Nat) : Char := Nat.digitChar n

/-- A character inside a string. With `ensure_ascii` off only quotes, backslashes and controls are escaped. -/
def escapeChar (c : Char) : List Char :=
  if c = '"' then ['\\', '"']
  else if c = '\\' then ['\\', '\\']
  else if c = '\n' then ['\\', 'n']
  else if c = '\r' then ['\\', 'r']
  else if c = '\t' then ['\\', 't']
  else if c.toNat = 8 then ['\\', 'b']
  else if c.toNat = 12 then ['\\', 'f']
  else if c.toNat < 32 then ['\\', 'u', '0', '0', hexDigit (c.toNat / 16), hexDigit (c.toNat % 16)]
  else [c]

def quote (s : String) : List Char := '"' :: s.toList.flatMap escapeChar ++ ['"']

/-- What follows the first of the texts in a list. -/
def listedMore (close : Char) : List (List Char) → List Char
  | [] => [close]
  | text :: rest => ',' :: (text ++ listedMore close rest)

/-- Texts between brackets, with commas between them. -/
def listed (opening close : Char) : List (List Char) → List Char
  | [] => [opening, close]
  | text :: rest => opening :: (text ++ listedMore close rest)

section Encode
variable (fl : Floats F)

mutual
/-- `json.dumps` of a value whose integers can be written. -/
def encode : Value F → List Char
  | .null => ['n', 'u', 'l', 'l']
  | .bool true => ['t', 'r', 'u', 'e']
  | .bool false => ['f', 'a', 'l', 's', 'e']
  | .int i => intText i
  | .float f => fl.text f
  | .str s => quote s
  | .arr items => listed '[' ']' (encodeItems items)
  | .obj fields => listed '{' '}' (encodeFields fields)

def encodeItems : List (Value F) → List (List Char)
  | [] => []
  | v :: rest => encode v :: encodeItems rest

def encodeFields : List (String × Value F) → List (List Char)
  | [] => []
  | (key, v) :: rest => (quote key ++ ':' :: encode v) :: encodeFields rest
end

theorem encodeItems_eq (items : List (Value F)) : encodeItems fl items = items.map (encode fl) := by
  induction items with
  | nil => rfl
  | cons v rest ih => rw [encodeItems, ih, List.map_cons]

theorem encodeFields_eq (fields : List (String × Value F)) :
    encodeFields fl fields = fields.map fun field => quote field.1 ++ ':' :: encode fl field.2 := by
  induction fields with
  | nil => rfl
  | cons field rest ih => rw [encodeFields, ih, List.map_cons]

end Encode

/-! ## The parts of a value -/

mutual
def Value.parts : Value F → List (Value F)
  | .arr items => .arr items :: Value.partsItems items
  | .obj fields => .obj fields :: Value.partsFields fields
  | .null => [.null]
  | .bool b => [.bool b]
  | .int i => [.int i]
  | .float f => [.float f]
  | .str s => [.str s]

def Value.partsItems : List (Value F) → List (Value F)
  | [] => []
  | v :: rest => Value.parts v ++ Value.partsItems rest

def Value.partsFields : List (String × Value F) → List (Value F)
  | [] => []
  | (_, v) :: rest => Value.parts v ++ Value.partsFields rest
end

theorem Value.partsItems_eq (items : List (Value F)) : Value.partsItems items = items.flatMap Value.parts := by
  induction items with
  | nil => rfl
  | cons v rest ih => rw [Value.partsItems, ih, List.flatMap_cons]

theorem Value.partsFields_eq (fields : List (String × Value F)) :
    Value.partsFields fields = fields.flatMap fun field => field.2.parts := by
  induction fields with
  | nil => rfl
  | cons field rest ih => rw [Value.partsFields, ih, List.flatMap_cons]

/-- Something holds of a value and all that it is made of. -/
def Value.Every (P : Value F → Prop) (v : Value F) : Prop := ∀ part ∈ v.parts, P part

instance (P : Value F → Prop) [DecidablePred P] (v : Value F) : Decidable (v.Every P) :=
  List.decidableBAll P v.parts

section Every
variable {P : Value F → Prop}

theorem Value.Every.self {v : Value F} (h : v.Every P) : P v := by
  cases v <;> exact h _ (by simp [Value.parts])

theorem Value.every_arr {items : List (Value F)} :
    (Value.arr items).Every P ↔ P (.arr items) ∧ ∀ v ∈ items, v.Every P := by
  simp only [Value.Every, Value.parts, Value.partsItems_eq, List.mem_cons, List.mem_flatMap]
  constructor
  · exact fun h => ⟨h _ (Or.inl rfl), fun v hv part hpart => h part (Or.inr ⟨v, hv, hpart⟩)⟩
  · rintro ⟨hself, hitems⟩ part (rfl | ⟨v, hv, hpart⟩)
    · exact hself
    · exact hitems v hv part hpart

theorem Value.every_obj {fields : List (String × Value F)} :
    (Value.obj fields).Every P ↔ P (.obj fields) ∧ ∀ field ∈ fields, field.2.Every P := by
  simp only [Value.Every, Value.parts, Value.partsFields_eq, List.mem_cons, List.mem_flatMap]
  constructor
  · exact fun h => ⟨h _ (Or.inl rfl), fun field hfield part hpart => h part (Or.inr ⟨field, hfield, hpart⟩)⟩
  · rintro ⟨hself, hfields⟩ part (rfl | ⟨field, hfield, hpart⟩)
    · exact hself
    · exact hfields field hfield part hpart

end Every

/-- An object has every key once, and its floats are finite. -/
def Value.WellFormed (fl : Floats F) : Value F → Prop
  | .float f => fl.Finite f
  | .obj fields => (fields.map Prod.fst).Nodup
  | _ => True

instance (fl : Floats F) [DecidablePred fl.Finite] : DecidablePred (Value.WellFormed fl)
  | .float f => inferInstanceAs (Decidable (fl.Finite f))
  | .obj fields => inferInstanceAs (Decidable (fields.map Prod.fst).Nodup)
  | .null | .bool _ | .int _ | .str _ | .arr _ => isTrue trivial

/-- The integer can be written. -/
def Value.Printable : Value F → Prop
  | .int i => (natText i.natAbs).length ≤ maxStrDigits
  | _ => True

instance : DecidablePred (Value.Printable (F := F))
  | .int i => inferInstanceAs (Decidable ((natText i.natAbs).length ≤ maxStrDigits))
  | .null | .bool _ | .float _ | .str _ | .arr _ | .obj _ => isTrue trivial

/-- The text of a value, if all its integers can be written. -/
def dumps (fl : Floats F) (v : Value F) : Option (List Char) :=
  if ∀ part ∈ v.parts, part.Printable then some (encode fl v) else none

end Json
