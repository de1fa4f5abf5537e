import BankingControlPlane.Plane.World
import Mathlib.Logic.Function.Basic

/-!
# Where a process gets its confirmation secret

* `readSettings` : the fields of `Settings`, from the environment first and then from `.env`;
* `applySecrets` : what Secrets Manager holds, put into the environment at boot;
* `planeSecret` : the secret a plane is given, or the environment's, or the development one;
* `bootAgent` : the agent's plane, with the secret of its settings; `openPlane` : the operator's, with
  none given.
-/

namespace BankingControlPlane

/-- Names and values. -/
abbrev Vars := String → Option String

/-- Why a process has no plane. -/
inductive Fault where
  | validation (field : String)
  | secrets (message : String)
deriving DecidableEq, Repr

structure Settings where
  llmApiKey : String
  databaseSecretArn : String
  confirmationSecretArn : String
  controlPlaneStore : StoreKind
  confirmationSecret : String
deriving DecidableEq, Repr

/-- A variable, from the environment first. -/
def lookup (environ dotenv : Vars) (name : String) : Option String := (environ name).or (dotenv name)

def readStore : String → Except Fault StoreKind
  | "memory" => .ok .memory
  | "postgres" => .ok .postgres
  | _ => .error (.validation "control_plane_store")

def readSettings (environ dotenv : Vars) : Except Fault Settings := do
  let read := lookup environ dotenv
  let some key := read "TRAIL_LLM_API_KEY" | throw (.validation "llm_api_key")
  let store ← readStore ((read "TRAIL_CONTROL_PLANE_STORE").getD "memory")
  return {
    llmApiKey := key
    databaseSecretArn := (read "TRAIL_DATABASE_SECRET_ARN").getD ""
    confirmationSecretArn := (read "TRAIL_CONFIRMATION_SECRET_ARN").getD ""
    controlPlaneStore := store
    confirmationSecret := (read "TRAIL_CONFIRMATION_SECRET").getD "" }

/-- A process: its environment, its `.env` and the settings it has cached. -/
structure Process where
  environ : Vars
  dotenv : Vars
  cached : Option Settings := none

/-- `get_settings` reads them once. -/
def getSettings (p : Process) : Except Fault (Settings × Process) :=
  match p.cached with
  | some settings => return (settings, p)
  | none => do
    let settings ← readSettings p.environ p.dotenv
    return (settings, { p with cached := some settings })

/-- Secrets Manager, and the password in a secret's JSON. -/
structure SecretsManager where
  get : String → Except Fault String
  password : String → Except Fault String

def Process.setenv (p : Process) (name value : String) : Process :=
  { p with environ := Function.update p.environ name (some value) }

section Boot
variable (strip : String → String) (manager : SecretsManager)

def applyPassword (settings : Settings) (p : Process) : Except Fault Process :=
  if strip settings.databaseSecretArn = "" then return p
  else do
    let secret ← manager.get (strip settings.databaseSecretArn)
    let password ← manager.password secret
    return p.setenv "PGPASSWORD" password

/-- The database password, then the confirmation secret; after that the settings are read again. -/
def applySecrets (settings : Settings) (p : Process) : Except Fault Process := do
  let p ← applyPassword strip manager settings p
  if strip settings.confirmationSecretArn = "" then return p
  else
    let secret ← manager.get (strip settings.confirmationSecretArn)
    return { p.setenv "TRAIL_CONFIRMATION_SECRET" (strip secret) with cached := none }

/-- A plane, as far as the configuration decides it. -/
structure Built where
  store : StoreKind
  secret : String
deriving DecidableEq, Repr

def DEV_SECRET : String := "trail-dev-confirmation"

/-- The secret of a plane constructed with this argument. -/
def planeSecret (environ : Vars) (secret : Option String) : String :=
  secret.getD ((environ "TRAIL_CONFIRMATION_SECRET").getD DEV_SECRET)

/-- `settings.confirmation_secret.get_secret_value() or None`. -/
def Settings.secret (settings : Settings) : Option String :=
  if settings.confirmationSecret = "" then none else some settings.confirmationSecret

def buildPlane (p : Process) : Except Fault Built := do
  let (settings, p) ← getSettings p
  return { store := settings.controlPlaneStore, secret := planeSecret p.environ settings.secret }

/-- The agent: secrets at boot, then the example is imported and builds its plane. -/
def bootAgent (p : Process) : Except Fault Built := do
  let (settings, p) ← getSettings p
  let p ← applySecrets strip manager settings p
  buildPlane p

/-- The operator: secrets, then a plane over the table. -/
def openPlane (p : Process) : Except Fault Built := do
  let (settings, p) ← getSettings p
  let p ← applySecrets strip manager settings p
  return { store := .postgres, secret := planeSecret p.environ none }

end Boot

end BankingControlPlane
