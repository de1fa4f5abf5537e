import BankingControlPlane.Deploy.Secrets
import BankingControlPlane.Plane.Local
import BankingControlPlane.Plane.Sample

/-!
# One key for agent and operator

* `KeyShared` : the confirmation secret comes from Secrets Manager or the environment, or `.env` has none of
  its own;
* `secret_shared` : agent and operator then build their planes with one secret, and only then;
* `Joint` : runs of the two processes over one table; `undiffering` : no confirm finds that the digests
  differ when their secret is one.
-/

namespace BankingControlPlane
open Effects

def CONFIRMATION_SECRET : String := "TRAIL_CONFIRMATION_SECRET"

/-- The secret is in Secrets Manager or in the environment, or what `.env` says of it is what a plane falls
back to. -/
def KeyShared (strip : String → String) (p : Process) : Prop :=
  strip ((lookup p.environ p.dotenv "TRAIL_CONFIRMATION_SECRET_ARN").getD "") ≠ "" ∨
    (p.environ CONFIRMATION_SECRET).isSome ∨
    (p.dotenv CONFIRMATION_SECRET).getD "" = "" ∨ p.dotenv CONFIRMATION_SECRET = some DEV_SECRET

instance (strip : String → String) (p : Process) : Decidable (KeyShared strip p) :=
  inferInstanceAs (Decidable (_ ∨ _ ∨ _ ∨ _))

/-! ## Resolving the secret -/

section Resolve
variable {strip : String → String} {manager : SecretsManager} {p p' : Process} {settings : Settings}

theorem ok_of_bind {ε α β : Type} {x : Except ε α} {f : α → Except ε β} {b : β}
    (h : x >>= f = .ok b) : ∃ a, x = .ok a ∧ f a = .ok b := by
  cases x with
  | error e => cases h
  | ok a => exact ⟨a, rfl, h⟩

theorem readSettings_ok {environ dotenv : Vars} (h : readSettings environ dotenv = .ok settings) :
    settings.confirmationSecret = (lookup environ dotenv CONFIRMATION_SECRET).getD "" ∧
      settings.confirmationSecretArn =
        (lookup environ dotenv "TRAIL_CONFIRMATION_SECRET_ARN").getD "" := by
  unfold readSettings at h
  dsimp only at h
  cases hkey : lookup environ dotenv "TRAIL_LLM_API_KEY" with
  | none => rw [hkey] at h; cases h
  | some key =>
    rw [hkey] at h
    obtain ⟨store, -, hreturn⟩ := ok_of_bind h
    obtain rfl := Except.ok.inj hreturn
    exact ⟨rfl, rfl⟩

/-- The first reading of the settings is kept. -/
theorem getSettings_ok (hfresh : p.cached = none) (h : getSettings p = .ok (settings, p')) :
    readSettings p.environ p.dotenv = .ok settings ∧ p' = { p with cached := some settings } := by
  unfold getSettings at h
  rw [hfresh] at h
  obtain ⟨read, hread, hreturn⟩ := ok_of_bind h
  obtain ⟨rfl, rfl⟩ := Prod.mk.inj (Except.ok.inj hreturn)
  exact ⟨hread, rfl⟩

theorem getSettings_cached (hcached : p.cached = some settings) :
    getSettings p = .ok (settings, p) := by
  unfold getSettings
  rw [hcached]
  rfl

/-- What the boot leaves of the confirmation secret: the environment has it now, or as before. -/
theorem applySecrets_ok (h : applySecrets strip manager settings p = .ok p') :
    p'.dotenv = p.dotenv ∧
      ((strip settings.confirmationSecretArn = "" ∧ p'.cached = p.cached ∧
          p'.environ CONFIRMATION_SECRET = p.environ CONFIRMATION_SECRET) ∨
        (strip settings.confirmationSecretArn ≠ "" ∧ p'.cached = none ∧
          (p'.environ CONFIRMATION_SECRET).isSome)) := by
  unfold applySecrets at h
  obtain ⟨q, hq, h⟩ := ok_of_bind h
  have hpassword : q.dotenv = p.dotenv ∧ q.cached = p.cached ∧
      q.environ CONFIRMATION_SECRET = p.environ CONFIRMATION_SECRET := by
    unfold applyPassword at hq
    split_ifs at hq
    · obtain rfl := Except.ok.inj hq
      exact ⟨rfl, rfl, rfl⟩
    · obtain ⟨secret, -, hq⟩ := ok_of_bind hq
      obtain ⟨password, -, hq⟩ := ok_of_bind hq
      obtain rfl := Except.ok.inj hq
      have hother : CONFIRMATION_SECRET ≠ "PGPASSWORD" := by decide
      exact ⟨rfl, rfl, Function.update_of_ne hother (some password) p.environ⟩
  obtain ⟨hdotenv, hcached, henviron⟩ := hpassword
  split_ifs at h with harn
  · obtain rfl := Except.ok.inj h
    exact ⟨hdotenv, Or.inl ⟨harn, hcached, henviron⟩⟩
  · obtain ⟨secret, -, h⟩ := ok_of_bind h
    obtain rfl := Except.ok.inj h
    refine ⟨hdotenv, Or.inr ⟨harn, rfl, ?_⟩⟩
    simp [Process.setenv, CONFIRMATION_SECRET]

theorem lookup_environ {environ dotenv : Vars} {name : String} (h : (environ name).isSome) :
    lookup environ dotenv name = environ name := by
  obtain ⟨v, hv⟩ := Option.isSome_iff_exists.mp h
  rw [lookup, hv, Option.some_or]

/-- A secret in the environment is the one both fall back to. -/
theorem planeSecret_environ {environ dotenv : Vars} (h : (environ CONFIRMATION_SECRET).isSome)
    (hs : settings.confirmationSecret = (lookup environ dotenv CONFIRMATION_SECRET).getD "") :
    planeSecret environ settings.secret = planeSecret environ none := by
  obtain ⟨v, hv⟩ := Option.isSome_iff_exists.mp h
  have hv' : environ "TRAIL_CONFIRMATION_SECRET" = some v := hv
  rw [lookup_environ h, hv, Option.getD_some] at hs
  unfold planeSecret Settings.secret
  rw [hs, hv']
  split_ifs with hempty
  · rfl
  · rfl

/-- What the settings of the agent's plane were read from, and how its secret compares. -/
theorem planeSecret_iff {q : Process} (hs : settings.confirmationSecret =
    (lookup q.environ q.dotenv CONFIRMATION_SECRET).getD "") :
    planeSecret q.environ settings.secret = planeSecret q.environ none ↔
      (q.environ CONFIRMATION_SECRET).isSome ∨ (q.dotenv CONFIRMATION_SECRET).getD "" = "" ∨
        q.dotenv CONFIRMATION_SECRET = some DEV_SECRET := by
  cases henviron : q.environ CONFIRMATION_SECRET with
  | some v =>
    have hsome : (q.environ CONFIRMATION_SECRET).isSome := by rw [henviron]; rfl
    exact iff_of_true (planeSecret_environ hsome hs) (Or.inl rfl)
  | none =>
    have henviron' : q.environ "TRAIL_CONFIRMATION_SECRET" = none := henviron
    rw [lookup, henviron, Option.none_or] at hs
    unfold planeSecret Settings.secret
    rw [hs, henviron']
    cases hdotenv : q.dotenv CONFIRMATION_SECRET with
    | none => simp
    | some v =>
      by_cases hempty : v = ""
      · simp [hempty]
      · simp [hempty]

/-- **Agent and operator seal with one secret**, exactly when it does not come from `.env` alone. -/
theorem secret_shared (hfresh : p.cached = none) {agent operator : Built}
    (ha : bootAgent strip manager p = .ok agent) (ho : openPlane strip manager p = .ok operator) :
    agent.secret = operator.secret ↔ KeyShared strip p := by
  obtain ⟨⟨settings, q⟩, hget, ha⟩ := ok_of_bind ha
  obtain ⟨hread, rfl⟩ := getSettings_ok hfresh hget
  obtain ⟨booted, happly, ha⟩ := ok_of_bind ha
  obtain ⟨hdotenv, hboot⟩ := applySecrets_ok happly
  obtain ⟨hsecret, harn⟩ := readSettings_ok hread
  obtain ⟨⟨settings', q'⟩, hget', ho⟩ := ok_of_bind ho
  obtain ⟨rfl, rfl⟩ := Prod.mk.inj (Except.ok.inj (hget.symm.trans hget'))
  obtain ⟨booted', happly', ho⟩ := ok_of_bind ho
  obtain rfl := Except.ok.inj (happly.symm.trans happly')
  obtain ⟨⟨last, q'⟩, hlast, hbuilt⟩ := ok_of_bind ha
  obtain rfl := Except.ok.inj ho
  obtain rfl := Except.ok.inj hbuilt
  rw [KeyShared, ← harn]
  rcases hboot with ⟨hblank, hcached, henviron⟩ | ⟨harn', hcached, hset⟩
  · -- nothing was fetched: the settings of the first reading
    rw [getSettings_cached hcached] at hlast
    obtain ⟨rfl, rfl⟩ := Prod.mk.inj (Except.ok.inj hlast)
    have hs : settings.confirmationSecret =
        (lookup booted.environ booted.dotenv CONFIRMATION_SECRET).getD "" := by
      rw [hsecret, lookup, lookup, henviron, hdotenv]
    have hiff := planeSecret_iff hs
    rw [henviron, hdotenv] at hiff
    simp only [hblank, ne_eq, not_true_eq_false, false_or]
    exact hiff
  · -- fetched into the environment, and the settings read again
    obtain ⟨hread', rfl⟩ := getSettings_ok hcached hlast
    exact iff_of_true (planeSecret_environ hset (readSettings_ok hread').1) (Or.inl harn')

end Resolve

/-! ## Two processes over one table -/

/-- The environment of a process whose plane has this secret. -/
def Env.using (env : Env) (secret : String) : Env := { env with secret := secret }

/-- Runs of an agent and an operator: either takes any step over the table they share. -/
inductive Joint (env : Env) (agent operator : String) : World → Prop
  | start (bank : MockBank) : Joint env agent operator { bank := bank }
  | agent {w : World} (s : Step) (hw : Joint env agent operator w) (hs : Untampered .postgres w s) :
    Joint env agent operator (s.next (env.using agent) .postgres w)
  | operator {w : World} (s : Step) (hw : Joint env agent operator w) (hs : Untampered .postgres w s) :
    Joint env agent operator (s.next (env.using operator) .postgres w)

/-- With one secret, two processes are one. -/
theorem Joint.reach {env : Env} {secret : String} {w : World} (hw : Joint env secret secret w) :
    Reach (env.using secret) .postgres (fun _ => True) (Untampered .postgres) w := by
  induction hw with
  | start bank => exact .start bank trivial
  | agent s _ hs ih => exact ih.step s hs
  | operator s _ hs ih => exact ih.step s hs

/-- The ledger says that a digest did not match. -/
def Event.mismatch (e : Event) : Bool :=
  match e.entry with
  | .digestMismatch .. => true
  | _ => false

def World.mismatches (w : World) : List Event := w.ledger.filter Event.mismatch

section Digests
variable {env : Env} {w : World}

/-- A row with a token has the digest of its action. -/
def Digested (env : Env) (r : Intent) : Prop :=
  ∀ t, r.confirmationId = some t → r.actionDigest = some (actionDigest env r.action)

theorem preserved_digested {kind : StoreKind} :
    Preserved env kind fun w => ∀ k r, w.row k = some r → Digested env r := by
  refine preserved_rows (J := fun _ r => Digested env r) (fun _ _ _ _ h => h) (fun w i _ _ hs => ?_)
    fun w r i _ _ hs hr => ?_
  · cases hs
    intro t ht
    cases ht
  · cases hs with
    | issued => exact fun t _ => rfl
    | _ => exact hr

/-- A call that notes no mismatch leaves the mismatches as they are. -/
theorem mismatches_serve {kind : StoreKind} {c : Intent} {β : Type} {pc : PlaneCall β}
    (hpc : Local False c pc) : (serve env kind pc w).2.mismatches = w.mismatches := by
  cases pc with
  | append id e =>
    have hplain : Event.mismatch ⟨id, e⟩ = false := by
      cases e <;> first | rfl | exact hpc.2.elim
    simp [serve, World.append, World.mismatches, hplain]
  | _ => rfl

/-- **No confirm finds that the digests differ**, in any run of planes with one secret. -/
theorem undiffering (hw : Reach env .postgres (fun _ => True) (Untampered .postgres) w) (ctx : Context)
    (token : String) : (exec env .postgres (.confirm ctx token) w).2.mismatches = w.mismatches := by
  obtain ⟨hgood, hdigested⟩ := hw.preserved (fun _ _ hs => hs.sound) preserved_digested
    (fun bank _ k r hr => by simp [World.row] at hr) (fun w id columns hs _ => hs.elim)
    fun w b _ hI => hI
  have hsk : (Op.confirm ctx token).seeking env = some ⟨.token token, fun i => samePrincipal i ctx,
    confirmHeld env ctx token⟩ := rfl
  cases hfound : (w.named .postgres (.token token)).filter fun i => samePrincipal i ctx with
  | none =>
    rw [exec_unfound hsk hfound]
    rfl
  | some c =>
    obtain ⟨hnamed, hm⟩ := Option.filter_eq_some_iff.mp hfound
    obtain ⟨hrow, htoken⟩ := hgood.seen_of_holder hnamed
    have hsame : actionDigest env c.action ≠ c.actionDigest.getD "" → False := by
      rw [hdigested _ c hrow token htoken]
      exact fun hne => hne rfl
    rw [exec_found hsk hnamed hm]
    refine Prog.run_keeps (I := fun w' : World => w'.mismatches = w.mismatches)
      (fun pc w' hpc hI => (mismatches_serve hpc).trans hI)
      (Prog.wp_of_calls (calls_confirmHeld ctx token c hsame) _) ?_
    rfl

end Digests

/-- Agent and operator have one secret, and in no run of the two does a confirm of the agent's find that
the digests differ. -/
def SealAlike (agent operator : String) : Prop :=
  agent = operator ∧ ∀ env w, Joint env agent operator w → ∀ ctx token,
    (exec (env.using agent) .postgres (.confirm ctx token) w).2.mismatches = w.mismatches

/-- **Operator and agent seal tokens with the same key** if and only if it is shared. -/
theorem seal_alike {strip : String → String} {manager : SecretsManager} {p : Process}
    (hfresh : p.cached = none) {agent operator : Built} (ha : bootAgent strip manager p = .ok agent)
    (ho : openPlane strip manager p = .ok operator) :
    SealAlike agent.secret operator.secret ↔ KeyShared strip p := by
  rw [← secret_shared hfresh ha ho]
  refine ⟨And.left, fun heq => ⟨heq, fun env w hw ctx token => ?_⟩⟩
  rw [← heq] at hw
  exact undiffering hw.reach ctx token

/-! On the host, with the secret in `.env` only: the operator seals with the development secret, and the
agent refuses what the customer confirms. -/

/-- A host where the environment has nothing, and `.env` has what the template says. -/
def fromDotenv : Process where
  environ := fun _ => none
  dotenv := fun
    | "TRAIL_LLM_API_KEY" => some "sk-replace-me"
    | "TRAIL_CONTROL_PLANE_STORE" => some "postgres"
    | "TRAIL_CONFIRMATION_SECRET" => some "dev-confirmation-secret-change-me"
    | _ => none

/-- Nothing is kept there. -/
def noSecrets : SecretsManager where
  get := fun arn => .error (.secrets arn)
  password := fun secret => .ok secret

theorem fromDotenv_agent : bootAgent id noSecrets fromDotenv =
    .ok ⟨.postgres, "dev-confirmation-secret-change-me"⟩ := by
  decide +kernel

theorem fromDotenv_operator : openPlane id noSecrets fromDotenv =
    .ok ⟨.postgres, "trail-dev-confirmation"⟩ := by
  decide +kernel

/-- The development environment, with the digest of one action under the template's secret. -/
def templateEnv : Env :=
  { sampleEnv noon with
    hmacSha256 := fun secret fields =>
      if secret = "dev-confirmation-secret-change-me" ∧
        fields = (payTo "contact_renata" money1500).modelDump
      then "fdd46d9da3f833b60247271f4ab1b03e89ef62969e8b7e46efe1a7f8593be009"
      else sampleHmac secret fields }

/-- A customer who has not been authenticated strongly proposes to pay in one session. -/
def customer : Context := { customerId := "customer_1", sessionId := "session_1" }

def agentEnv : Env := templateEnv.using "dev-confirmation-secret-change-me"
def operatorEnv : Env := templateEnv.using "trail-dev-confirmation"

/-- Proposed to the agent, authenticated by the operator. -/
def steppedUp : World :=
  (Step.op (.stepUp { customer with sessionId := "cli_1", channel := .mobile } "pix_000000000000")).next
    operatorEnv .postgres ((Step.op (.propose customer
      { recipient := "Renata", amount := money1500, named := renata_named } "pay")).next agentEnv .postgres
        { bank := {} })

theorem steppedUp_joint : Joint templateEnv "dev-confirmation-secret-change-me" "trail-dev-confirmation"
    steppedUp :=
  .operator _ (.agent _ (.start {}) trivial) trivial

theorem steppedUp_mismatch : (exec agentEnv .postgres (.confirm customer "conf_000000000001")
    steppedUp).2.mismatches ≠ steppedUp.mismatches := by
  decide +kernel

theorem operator_seals_apart : ¬ ∀ (p : Process) (agent operator : Built), p.cached = none →
    bootAgent id noSecrets p = .ok agent → openPlane id noSecrets p = .ok operator →
    SealAlike agent.secret operator.secret := by
  intro hclaim
  have halike := hclaim fromDotenv _ _ rfl fromDotenv_agent fromDotenv_operator
  exact steppedUp_mismatch (halike.2 templateEnv steppedUp steppedUp_joint customer "conf_000000000001")

theorem seal_alike_sample : SealAlike "dev-confirmation-secret-change-me" "trail-dev-confirmation" ↔
    KeyShared id fromDotenv :=
  seal_alike rfl fromDotenv_agent fromDotenv_operator

end BankingControlPlane
