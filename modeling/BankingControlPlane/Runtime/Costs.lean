import BankingControlPlane.Json.RoundTrip
import BankingControlPlane.Text.Strings

/-!
# Prices

* `ModelPrice` : dollars per million tokens, by bucket; `ModelPrice.ofFields` : one built of named fields, whatever
  their values;
* `Decoder` : what `json.loads` comes to, on every text; `decoder` : the language's;
* `loadPrices` : the default prices with an override merged over them, entry by entry.
-/

namespace BankingControlPlane
open Json Keyed Text

variable {F : Type}

/-! ## Readings of a text -/

/-- What `json.loads` comes to: a value, a `ValueError`, or a `RecursionError`. -/
inductive Loaded (F : Type) where
  | value (v : Value F)
  | malformed
  | tooDeep

/-- A reading of texts. An object has every key once. -/
structure Decoder (F : Type) where
  loads : List Char → Loaded F
  keys : ∀ {text fields}, loads text = .value (.obj fields) → (fields.map Prod.fst).Nodup

/-- `json.loads`, where the texts that are `deep` go beyond what the interpreter nests. -/
def decoder (fl : Floats F) (deep : List Char → Bool) : Decoder F where
  loads text :=
    if deep text then .tooDeep
    else
      match Json.loads fl text with
      | none => .malformed
      | some v => .value v
  keys := by
    intro text fields h
    split_ifs at h
    cases hread : Json.loads fl text with
    | none =>
      rw [hread] at h
      cases h
    | some v =>
      rw [hread] at h
      cases h
      exact loads_keys hread

/-! ## Prices of a model -/

/-- What a bucket's field holds is not checked. -/
structure ModelPrice (F : Type) where
  input : Value F
  output : Value F
  cacheRead : Value F
  cacheWrite : Value F

def ModelPrice.names : List String := ["input", "output", "cache_read", "cache_write"]

section Prices
variable (fl : Floats F)

/-- A rate as the source writes it. -/
def rate (text : String) : Value F := .float (fl.read text.toList)

def priceField (name : String) (fields : List (String × Value F)) : Option (Value F) :=
  (find Prod.fst fields name).map Prod.snd

/-- `ModelPrice(**fields)`, unless it raises a `TypeError`. -/
def ModelPrice.ofFields : Value F → Option (ModelPrice F)
  | .obj fields =>
    if ∀ field ∈ fields, field.1 ∈ ModelPrice.names then do
      let input ← priceField "input" fields
      let output ← priceField "output" fields
      some { input := input, output := output, cacheRead := (priceField "cache_read" fields).getD (rate fl "0.0"),
             cacheWrite := (priceField "cache_write" fields).getD (rate fl "0.0") }
    else none
  | _ => none

/-- `DEFAULT_PRICES`. -/
def defaultPrices : List (String × ModelPrice F) :=
  [("gpt-5.6-luna",
      { input := rate fl "0.20", output := rate fl "1.20", cacheRead := rate fl "0.02", cacheWrite := rate fl "0.0" }),
    ("openai.gpt-oss-120b-1:0",
      { input := rate fl "0.18", output := rate fl "0.73", cacheRead := rate fl "0.0", cacheWrite := rate fl "0.0" })]

/-- The loop over the entries. An entry that raises ends it, and what was set stays. -/
def mergePrices (prices : List (String × ModelPrice F)) : List (String × Value F) → List (String × ModelPrice F)
  | [] => prices
  | (name, fields) :: rest =>
    match ModelPrice.ofFields fl fields with
    | none => prices
    | some price => mergePrices (upsert Prod.fst prices (name, price)) rest

/-- What `load_prices` does not catch. -/
inductive PriceFault where
  | attributeError | recursionError
deriving DecidableEq, Repr

/-- What the text that was read makes of the default prices. -/
def pricesOf : Loaded F → Except PriceFault (List (String × ModelPrice F))
  | .malformed => .ok (defaultPrices fl)
  | .tooDeep => .error .recursionError
  | .value (.obj items) => .ok (mergePrices fl (defaultPrices fl) items)
  -- `raw.items()` of what is no object
  | .value _ => .error .attributeError

def loadPrices (json : Decoder F) (overrideJson : List Char) : Except PriceFault (List (String × ModelPrice F)) :=
  if strip overrideJson = [] then .ok (defaultPrices fl) else pricesOf fl (json.loads overrideJson)

end Prices

end BankingControlPlane
