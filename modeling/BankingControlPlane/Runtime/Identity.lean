import BankingControlPlane.Json.Value
import BankingControlPlane.Text.Strings

/-!
# Who the caller is

* `sign`, `verify` : the customer's id and its signature, in one header;
* `verifyJwt` : the subject of a bearer token;
* `customerId` : the customer a request acts for, by the scheme in use.
-/

namespace BankingControlPlane.Identity
open Json Text

/-- What leaves a function instead of an answer. -/
inductive Exn where
  | typeError
  | valueError
deriving DecidableEq, Repr

/-! ## A signed header -/

/-- HMAC-SHA256, as sixty-four hexadecimal digits. -/
structure Hmac where
  hexdigest : ByteArray → ByteArray → String
  length_hexdigest : ∀ key message, (hexdigest key message).length = 64
  hex_hexdigest : ∀ key message, ∀ c ∈ (hexdigest key message).toList, c.isDigit ∨ c ∈ ['a', 'b', 'c', 'd', 'e', 'f']

def isAscii (text : List Char) : Bool := text.all fun c => c.toNat < 128

/-- `hmac.compare_digest` of two texts. -/
def compareDigest (a b : List Char) : Except Exn Bool :=
  if isAscii a && isAscii b then .ok (a = b) else .error .typeError

/-- `_DOMAIN`. -/
def domain : ByteArray := "trail.identity.v1:".toUTF8

section Signed
variable (hmac : Hmac)

def mac (customerId secret : String) : String := hmac.hexdigest secret.toUTF8 (domain ++ customerId.toUTF8)

/-- The header value a channel sends for a customer. -/
def sign (customerId secret : String) : Except Exn String :=
  if secret = "" then .error .valueError else .ok (customerId ++ ":" ++ mac hmac customerId secret)

/-- The customer id a valid header carries. -/
def verify (headerValue : Option String) (secret : String) : Except Exn (Option String) :=
  match headerValue with
  | none => .ok none
  | some value =>
    if secret = "" ∨ value = "" then .ok none
    else
      let (customerId, signature) := rpartition ':' value.toList
      if customerId = [] ∨ signature = [] then .ok none
      else do
        let same ← compareDigest (mac hmac (String.ofList customerId) secret).toList signature
        return if same then some (String.ofList customerId) else none

end Signed

/-! ## A bearer token -/

/-- What `jwt.decode` and the key's look-up raise. -/
inductive TokenExn where
  | pyJwtError
  | valueError
deriving DecidableEq, Repr

variable {F : Type}

/-- `fields.get(name)`. -/
def claim (fields : List (String × Value F)) (name : String) : Value F :=
  ((fields.find? fun field => field.1 = name).map Prod.snd).getD .null

/-- The claims of a token that `jwt.decode` takes: those it requires are there. -/
structure Claims (F : Type) where
  fields : List (String × Value F)
  required : ∀ name ∈ ["exp", "iss", "sub"], claim fields name ≠ .null

def Claims.get (claims : Claims F) (name : String) : Value F := claim claims.fields name

/-- `hash` raises of a list or an object. -/
def hashable : Value F → Bool
  | .arr _ | .obj _ => false
  | _ => true

/-- The value is this text. -/
def isText (text : String) : Value F → Bool
  | .str s => s = text
  | _ => false

/-- A set of claims: `{claims.get(name) for name in names}`. -/
def setOf (claims : Claims F) (names : List String) : Except Exn (List (Value F)) :=
  let values := names.map claims.get
  if values.all hashable then .ok values else .error .typeError

/-- `_CLIENT_CLAIMS`. -/
def clientClaims : List String := ["client_id", "aud"]

/-- The token after the scheme, if the scheme is `bearer`, in any letter case. -/
def bearerToken (value : String) : Option String :=
  let (scheme, token) := partition ' ' value.toList
  -- no letter outside ASCII has one of these for its lower case
  if scheme.map Char.toLower = ['b', 'e', 'a', 'r', 'e', 'r'] ∧ token ≠ [] then some (String.ofList token) else none

/-- The application a token has to be for, and what finds its key and decodes it. -/
structure Verifier (F Key : Type) where
  issuer : String
  clientId : String
  keyFor : String → Except TokenExn Key
  decode : String → Key → String → Except TokenExn (Claims F)

section Token
variable {Key : Type} (v : Verifier F Key)

/-- The claims of the token in a header, if there are any: what does not decode has none. -/
def Verifier.claims (headerValue : Option String) : Option (Claims F) := do
  let value ← headerValue
  if value = "" ∨ v.issuer = "" ∨ v.clientId = "" then none
  else
    let token ← bearerToken value
    let key ← (v.keyFor token).toOption
    (v.decode token key v.issuer).toOption

/-- The `sub` of a valid bearer token. -/
def verifyJwt (headerValue : Option String) : Except Exn (Option String) :=
  match v.claims headerValue with
  | none => .ok none
  | some claims => do
    let presented ← setOf claims clientClaims
    if presented.any (isText v.clientId) then
      match claims.get "sub" with
      | .str sub => return if sub = "" then none else some sub
      | _ => return none
    else return none

end Token

/-! ## The scheme in use -/

inductive IdentityMode where
  | hmac
  | jwt
deriving DecidableEq, Repr

structure Settings where
  identityMode : IdentityMode
  identitySecret : String

/-- The two headers of a request that name a customer. -/
structure Headers where
  authorization : Option String
  identity : Option String

inductive Resolved where
  | customer (id : String)
  | httpException (status : Nat) (detail : String)
  | crashes (exn : Exn)
deriving DecidableEq, Repr

/-- `_UNAUTHENTICATED`. -/
def unauthenticated : String := "identidade ausente ou inválida"

/-- The customer a request acts for. -/
def customerId {Key : Type} (hmac : Hmac) (v : Verifier F Key) (settings : Settings) (headers : Headers) : Resolved :=
  let resolved := match settings.identityMode with
    | .jwt => verifyJwt v headers.authorization
    | .hmac => verify hmac headers.identity settings.identitySecret
  match resolved with
  | .error exn => .crashes exn
  | .ok none => .httpException 401 unauthenticated
  | .ok (some id) => .customer id

end BankingControlPlane.Identity
