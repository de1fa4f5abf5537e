import BankingControlPlane.Plane.Actions
import Mathlib.Algebra.GroupWithZero.Nat

/-!
# Risk signals and the policy that reads them

* `assessRisk` : three signals with fixed weights, and the level of their sum;
* `isNighttime` : the hour of an instant on the Brazilian clock, in the night window;
* `evaluate` : the rules in order, the first that applies decides;
* `evaluate_confirms_iff` : when policy lets an action go to confirmation.

Instants are microseconds since the epoch; `zone` gives the offset of `America/Sao_Paulo`.
-/

namespace BankingControlPlane

/-- An instant, in microseconds since the epoch, UTC. -/
abbrev Instant := Int

/-- The UTC offset a time zone has at each instant, in microseconds. -/
abbrev Zone := Instant → Int

inductive Decision where
  | allow | deny | requireMoreInfo | requireConfirmation | requireStepUpAuth | escalate
deriving DecidableEq, Repr

def Decision.str : Decision → String
  | .allow => "ALLOW"
  | .deny => "DENY"
  | .requireMoreInfo => "REQUIRE_MORE_INFO"
  | .requireConfirmation => "REQUIRE_CONFIRMATION"
  | .requireStepUpAuth => "REQUIRE_STEP_UP_AUTH"
  | .escalate => "ESCALATE"

def stepUpAbove : Decimal := .ofNat 1000
def hardLimit : Decimal := .ofNat 5000
def nightLimit : Decimal := .ofNat 1000
def nightStartHour : Int := 20
def nightEndHour : Int := 6
def unusualAbove : Decimal := .ofNat 500

/-- The score is in hundredths: the float sums the source compares are exact at these weights. -/
structure Risk where
  score : Nat
  level : RiskLevel
  signals : List String
deriving DecidableEq, Repr

def riskLevel (score : Nat) : RiskLevel :=
  if 60 ≤ score then .high else if 30 ≤ score then .medium else .low

def assessRisk (action : CreatePix) (ctx : Context) (knownRecipients : List String) : Risk :=
  let weigh (b : Prop) [Decidable b] (signal : String) (weight : Nat) : List (String × Nat) :=
    if b then [(signal, weight)] else []
  let signals :=
    weigh (action.recipientId ∉ knownRecipients) "new_recipient" 30 ++
    weigh (unusualAbove < action.amount.val) "unusual_amount" 40 ++
    weigh (ctx.deviceTrusted = false) "untrusted_device" 30
  let score := (signals.map Prod.snd).sum
  ⟨score, riskLevel score, signals.map Prod.fst⟩

structure Verdict where
  decision : Decision
  rule : String
  reason : String
deriving DecidableEq, Repr

/-- The hour an instant reads on a clock of the zone. -/
def localHour (zone : Zone) (moment : Instant) : Int :=
  (moment + zone moment) / 3600000000 % 24

def isNighttime (zone : Zone) (moment : Instant) : Bool :=
  nightStartHour ≤ localHour zone moment || localHour zone moment < nightEndHour

/-- Two digits. -/
def pad2 (n : Nat) : String := if n < 10 then "0" ++ toString n else toString n

/-- `f"{d:.2f}"`. -/
def fixed2 (d : Decimal) : String :=
  (if d.negative then "-" else "") ++ toString (d.roundCents / 100) ++ "." ++
    pad2 (d.roundCents % 100)

def needsStrong (action : CreatePix) (risk : Risk) : Prop :=
  stepUpAbove < action.amount.val ∨ risk.level = .high

instance (action : CreatePix) (risk : Risk) : Decidable (needsStrong action risk) :=
  inferInstanceAs (Decidable (_ ∨ _))

def requiredAssurance (action : CreatePix) (risk : Risk) : Assurance :=
  if needsStrong action risk then .strong else action.capability.requiredAssurance

def nighttimeReason : String :=
  "PIX above R$ " ++ fixed2 nightLimit ++ " between " ++ toString nightStartHour ++ ":00 and " ++
    pad2 nightEndHour.toNat ++ ":00 is not allowed (BCB Resolution No. 142/2021)"

def stepUpReason (action : CreatePix) (risk : Risk) : String :=
  (if stepUpAbove < action.amount.val then "amount above R$ " ++ fixed2 stepUpAbove
    else "high risk: " ++ ", ".intercalate risk.signals) ++
    "; requires strong authentication in the banking app"

def evaluate (zone : Zone) (action : CreatePix) (ctx : Context) (risk : Risk) (moment : Instant) :
    Verdict :=
  if hardLimit < action.amount.val then
    ⟨.deny, "pix_hard_limit", "PIX above the assistant limit (R$ " ++ fixed2 hardLimit ++ ")"⟩
  else if nightLimit < action.amount.val ∧ isNighttime zone moment then
    ⟨.deny, "pix_nighttime_limit", nighttimeReason⟩
  else if assuranceRank ctx.assurance < assuranceRank (requiredAssurance action risk) then
    ⟨.requireStepUpAuth, "pix_step_up", stepUpReason action risk⟩
  else if action.capability.requiresConfirmation then
    ⟨.requireConfirmation, "capability_requires_confirmation",
      "sensitive action: requires explicit customer confirmation"⟩
  else ⟨.allow, "default_allow", ""⟩

/-- What policy has checked when it lets an action go to confirmation. -/
structure Cleared (zone : Zone) (action : CreatePix) (ctx : Context) (risk : Risk)
    (moment : Instant) : Prop where
  hardLimit : ¬ hardLimit < action.amount.val
  night : nightLimit < action.amount.val → isNighttime zone moment = false
  strong : needsStrong action risk → ctx.assurance = .strong
  rank : assuranceRank (requiredAssurance action risk) ≤ assuranceRank ctx.assurance

theorem strong_of_rank {a : Assurance} (h : assuranceRank .strong ≤ assuranceRank a) :
    a = .strong := by
  cases a <;> simp [assuranceRank] at h ⊢

/-- Policy asks for confirmation exactly of the actions it has cleared. -/
theorem evaluate_confirms_iff (zone : Zone) (action : CreatePix) (ctx : Context) (risk : Risk)
    (moment : Instant) :
    (evaluate zone action ctx risk moment).decision = .requireConfirmation ↔
      Cleared zone action ctx risk moment := by
  unfold evaluate
  constructor
  · intro h
    split_ifs at h with hhard hnight hrank hconf
    refine ⟨hhard, fun ha => ?_, fun hs => strong_of_rank ?_, Nat.le_of_not_lt hrank⟩
    · simpa [ha] using hnight
    · simpa [requiredAssurance, hs] using Nat.le_of_not_lt hrank
  · rintro ⟨hhard, hnight, -, hrank⟩
    have hday : ¬ (nightLimit < action.amount.val ∧ isNighttime zone moment = true) := by
      rintro ⟨ha, hn⟩
      rw [hnight ha] at hn
      cases hn
    rw [if_neg hhard, if_neg hday, if_neg (Nat.not_lt.mpr hrank)]
    rfl

/-- A write is denied, sent to step-up or sent to confirmation; nothing else. -/
theorem evaluate_decision (zone : Zone) (action : CreatePix) (ctx : Context) (risk : Risk)
    (moment : Instant) :
    (evaluate zone action ctx risk moment).decision = .deny ∨
    (evaluate zone action ctx risk moment).decision = .requireStepUpAuth ∨
    (evaluate zone action ctx risk moment).decision = .requireConfirmation := by
  unfold evaluate
  split_ifs with _ _ _ hconf
  · exact Or.inl rfl
  · exact Or.inl rfl
  · exact Or.inr (Or.inl rfl)
  · exact Or.inr (Or.inr rfl)
  · exact absurd rfl hconf

/-- Policy asks for a step-up only of a context that is not strong already. -/
theorem evaluate_stepUp_weak {zone : Zone} {action : CreatePix} {ctx : Context} {risk : Risk}
    {moment : Instant}
    (h : (evaluate zone action ctx risk moment).decision = .requireStepUpAuth) :
    ctx.assurance ≠ .strong := by
  intro hs
  unfold evaluate at h
  split_ifs at h with _ _ hrank
  rw [hs] at hrank
  cases hreq : requiredAssurance action risk <;> rw [hreq] at hrank <;> simp [assuranceRank] at hrank

end BankingControlPlane
