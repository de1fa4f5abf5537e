import BankingControlPlane.Data.Values
import BankingControlPlane.Plane.Policy

/-!
# Policy is monotone in danger

* `Decision.strictness` : the three decisions a write can get, from confirmation to denial;
* `MoreDangerous` : a request is at least as large, at least as new a payee, from at most as trusted
  a device, at most as sure of the customer;
* `Denied`, `Short` : what makes policy deny, and what makes it ask for more assurance; both are
  kept by more danger (`Denied.mono`, `Short.mono`);
* `evaluate_monotone` : the more dangerous of two requests is decided at least as strictly.
-/

namespace BankingControlPlane

/-- How strict a decision about a write is; the other decisions are about something else. -/
def Decision.strictness : Decision → Option Nat
  | .requireConfirmation => some 0
  | .requireStepUpAuth => some 1
  | .deny => some 2
  | _ => none

/-- An action, the context it is asked in, and the recipients known then. -/
structure Request where
  action : CreatePix
  ctx : Context
  known : List String

namespace Request

def risk (r : Request) : Risk := assessRisk r.action r.ctx r.known

def decision (zone : Zone) (moment : Instant) (r : Request) : Decision :=
  (evaluate zone r.action r.ctx r.risk moment).decision

/-- The second request is in every respect at least as dangerous. -/
structure MoreDangerous (r s : Request) : Prop where
  amount : r.action.amount.val ≤ s.action.amount.val
  recipient : s.action.recipientId ∈ s.known → r.action.recipientId ∈ r.known
  device : s.ctx.deviceTrusted = true → r.ctx.deviceTrusted = true
  assurance : assuranceRank s.ctx.assurance ≤ assuranceRank r.ctx.assurance

/-! ## The score -/

theorem risk_score (r : Request) :
    r.risk.score =
      (if r.action.recipientId ∉ r.known then 30 else 0) +
      (if unusualAbove < r.action.amount.val then 40 else 0) +
      (if r.ctx.deviceTrusted = false then 30 else 0) := by
  unfold risk assessRisk
  dsimp only
  split_ifs <;> rfl

theorem risk_level (r : Request) : r.risk.level = riskLevel r.risk.score := rfl

theorem riskLevel_high {score : Nat} : riskLevel score = .high ↔ 60 ≤ score := by
  unfold riskLevel
  split_ifs with hhigh hmedium
  · simp [hhigh]
  · simp [hhigh]
  · simp [hhigh]

/-- An amount above a limit stays above it as it grows. -/
theorem MoreDangerous.above {r s : Request} (h : MoreDangerous r s) {limit : Decimal}
    (hr : limit < r.action.amount.val) : limit < s.action.amount.val := by
  rw [Decimal.lt_iff_value] at hr ⊢
  exact lt_of_lt_of_le hr (Decimal.le_iff_value.mp h.amount)

/-- A signal that is also raised of the other request weighs no more here. -/
theorem weight_mono {p q : Prop} [Decidable p] [Decidable q] (h : p → q) (weight : Nat) :
    (if p then weight else 0) ≤ if q then weight else 0 := by
  by_cases hp : p
  · rw [if_pos hp, if_pos (h hp)]
  · rw [if_neg hp]
    exact Nat.zero_le _

theorem MoreDangerous.score {r s : Request} (h : MoreDangerous r s) :
    r.risk.score ≤ s.risk.score := by
  have hdevice : r.ctx.deviceTrusted = false → s.ctx.deviceTrusted = false := by
    intro hr
    apply Bool.eq_false_of_not_eq_true
    intro hs
    rw [h.device hs] at hr
    cases hr
  rw [risk_score, risk_score]
  apply Nat.add_le_add
  · apply Nat.add_le_add
    · exact weight_mono (fun hr hs => hr (h.recipient hs)) 30
    · exact weight_mono h.above 40
  · exact weight_mono hdevice 30

/-! ## What decides -/

/-- One of the two denials applies. -/
def Denied (zone : Zone) (moment : Instant) (r : Request) : Prop :=
  hardLimit < r.action.amount.val ∨
    (nightLimit < r.action.amount.val ∧ isNighttime zone moment = true)

/-- The customer is not known as surely as the action requires. -/
def Short (r : Request) : Prop :=
  assuranceRank r.ctx.assurance < assuranceRank (requiredAssurance r.action r.risk)

instance (zone : Zone) (moment : Instant) (r : Request) : Decidable (Denied zone moment r) :=
  inferInstanceAs (Decidable (_ ∨ _))

instance (r : Request) : Decidable (Short r) := inferInstanceAs (Decidable (_ < _))

theorem decision_strictness (zone : Zone) (moment : Instant) (r : Request) :
    (r.decision zone moment).strictness =
      some (if Denied zone moment r then 2 else if Short r then 1 else 0) := by
  by_cases hdenied : Denied zone moment r
  · rw [if_pos hdenied]
    unfold decision evaluate
    rcases hdenied with hhard | hnight
    · rw [if_pos hhard]
      rfl
    · rw [if_pos hnight]
      split_ifs <;> rfl
  · have hhard : ¬ hardLimit < r.action.amount.val := fun h => hdenied (Or.inl h)
    have hnight : ¬ (nightLimit < r.action.amount.val ∧ isNighttime zone moment = true) :=
      fun h => hdenied (Or.inr h)
    rw [if_neg hdenied]
    unfold decision evaluate
    rw [if_neg hhard, if_neg hnight]
    by_cases hshort : Short r
    · rw [if_pos hshort, if_pos (show _ < _ from hshort)]
      rfl
    · rw [if_neg hshort, if_neg (show ¬ _ < _ from hshort)]
      rfl

theorem Denied.mono {zone : Zone} {moment : Instant} {r s : Request} (h : MoreDangerous r s)
    (hr : Denied zone moment r) : Denied zone moment s := by
  rcases hr with hhard | ⟨hlimit, hnight⟩
  · exact Or.inl (h.above hhard)
  · exact Or.inr ⟨h.above hlimit, hnight⟩

theorem MoreDangerous.strong {r s : Request} (h : MoreDangerous r s)
    (hr : needsStrong r.action r.risk) : needsStrong s.action s.risk := by
  rcases hr with hamount | hlevel
  · exact Or.inl (h.above hamount)
  · rw [risk_level, riskLevel_high] at hlevel
    refine Or.inr ?_
    rw [risk_level, riskLevel_high]
    exact le_trans hlevel h.score

/-- What is required grows with danger: strong assurance is the most there is. -/
theorem MoreDangerous.required {r s : Request} (h : MoreDangerous r s) :
    assuranceRank (requiredAssurance r.action r.risk) ≤
      assuranceRank (requiredAssurance s.action s.risk) := by
  have hbase : assuranceRank createPixCapability.requiredAssurance ≤ assuranceRank .strong := by
    decide
  unfold requiredAssurance
  split_ifs with hr hs hs
  · exact le_rfl
  · exact absurd (h.strong hr) hs
  · exact hbase
  · exact le_rfl

theorem Short.mono {r s : Request} (h : MoreDangerous r s) (hr : Short r) : Short s :=
  lt_of_le_of_lt h.assurance (lt_of_lt_of_le hr h.required)

end Request

open Request

/-- **The more dangerous of two requests is decided at least as strictly, at any hour, and every
decision is to deny, to step up or to confirm.** -/
theorem evaluate_monotone (zone : Zone) (moment : Instant) (r s : Request)
    (h : MoreDangerous r s) :
    ∃ m n, (r.decision zone moment).strictness = some m ∧
      (s.decision zone moment).strictness = some n ∧ m ≤ n := by
  refine ⟨_, _, decision_strictness zone moment r, decision_strictness zone moment s, ?_⟩
  have hdenied : Denied zone moment r → Denied zone moment s := Denied.mono h
  have hshort : Short r → Short s := Short.mono h
  by_cases hds : Denied zone moment s
  · rw [if_pos hds]
    split_ifs <;> omega
  · rw [if_neg hds, if_neg fun hdr => hds (hdenied hdr)]
    by_cases hss : Short s
    · rw [if_pos hss]
      split_ifs <;> omega
    · rw [if_neg hss, if_neg fun hsr => hss (hshort hsr)]

/-- By day a small payment to a known contact is confirmed; a larger one to a stranger, from a
device that is not trusted, is not. -/
theorem evaluate_monotone_sample :
    ∃ m n,
      (Request.decision (fun _ => 0) (12 * 3600000000)
        ⟨⟨"checking_001", "contact_renata", ⟨.cents 10000, by decide⟩, .brl⟩,
          ⟨"cust_001", "s1", .whatsapp, true, .medium⟩, ["contact_renata"]⟩).strictness = some m ∧
      (Request.decision (fun _ => 0) (12 * 3600000000)
        ⟨⟨"checking_001", "contact_joao", ⟨.cents 60000, by decide⟩, .brl⟩,
          ⟨"cust_001", "s1", .whatsapp, false, .low⟩, ["contact_renata"]⟩).strictness = some n ∧
      m ≤ n :=
  evaluate_monotone _ _ _ _
    { amount := by decide
      recipient := by decide
      device := by decide
      assurance := by decide }

end BankingControlPlane
