import BankingControlPlane.Data.Ledger
import BankingControlPlane.Data.Values
import BankingControlPlane.Plane.Bank

/-!
# What the accounts of a bank are worth

* `MockBank.worth` : the value of each account's balance;
* `Order.move` : what a payment takes, and from where; `worth_debit` : a debit is that move;
* `refusal_eq_none` : what the bank has checked when it does not refuse.
-/

namespace BankingControlPlane
open Ledger

/-- The value of the balance of every account the bank has. -/
def MockBank.worth (b : MockBank) : Accounts String ℚ := fun a =>
  (Keyed.find Account.id b.accounts a).map fun account => account.balance.value

/-- The account a payment is made from, and its amount. -/
def Order.move (o : Order) : String × ℚ := (o.sourceAccount, o.amount.val.value)

theorem Money.value_pos (m : Money) : 0 < m.val.value := by
  have hvalid := m.valid
  unfold isMoney at hvalid
  cases hcents : m.val.wholeCents? with
  | none =>
    rw [hcents] at hvalid
    cases hvalid
  | some n =>
    rw [hcents] at hvalid
    simp only [Bool.and_eq_true, decide_eq_true_eq] at hvalid
    have hn : (0 : ℚ) < n := by exact_mod_cast hvalid.1
    rw [Decimal.value_of_wholeCents hcents]
    exact div_pos hn (by norm_num)

namespace MockBank

@[simp] theorem worth_record (b : MockBank) (key : String) (r : Receipt) :
    (b.record key r).worth = b.worth := rfl

/-- The debit of an order is its move; without the account there is nothing to move. -/
theorem worth_debit (b : MockBank) (o : Order) : (b.debit o).worth = Ledger.debit b.worth o.move := by
  funext a
  unfold worth Ledger.debit debit Order.move
  dsimp only
  cases hfind : Keyed.find Account.id b.accounts o.sourceAccount with
  | none =>
    by_cases ha : o.sourceAccount = a
    · subst ha
      rw [if_pos rfl, hfind]
      rfl
    · rw [if_neg ha]
  | some account =>
    have hid : account.id = o.sourceAccount := Keyed.key_of_find Account.id hfind
    dsimp only
    rw [Keyed.find_upsert]
    by_cases ha : o.sourceAccount = a
    · subst ha
      rw [if_pos hid, if_pos rfl, hfind, Option.map_some, Option.map_some, Option.map_some,
        Decimal.value_sub]
    · rw [if_neg (fun h => ha (hid.symm.trans h)), if_neg ha]

/-- What the bank has checked when it does not refuse. -/
theorem refusal_eq_none {b : MockBank} {o : Order} (h : b.refusal o = none) :
    (b.contact o.recipientId).isSome ∧
      ∃ v, b.worth o.sourceAccount = some v ∧ o.amount.val.value ≤ v := by
  unfold refusal at h
  split_ifs at h with hcontact
  refine ⟨Option.isSome_iff_ne_none.mpr hcontact, ?_⟩
  unfold worth
  unfold balance at h
  cases hfind : Keyed.find Account.id b.accounts o.sourceAccount with
  | none =>
    rw [hfind] at h
    cases h
  | some account =>
    rw [hfind] at h
    dsimp only at h
    split_ifs at h with hfunds
    exact ⟨_, rfl, Decimal.le_iff_value.mp (Decimal.not_lt.mp hfunds)⟩

/-- The recipients paid before: those of the bank, and the order's if its account exists. -/
theorem mem_paidBefore_debit {b : MockBank} {o : Order} (h : (b.worth o.sourceAccount).isSome)
    (r : String) : r ∈ (b.debit o).paidBefore ↔ r ∈ b.paidBefore ∨ o.recipientId = r := by
  unfold worth at h
  unfold debit
  cases hfind : Keyed.find Account.id b.accounts o.sourceAccount with
  | none =>
    rw [hfind] at h
    cases h
  | some account =>
    dsimp only
    split_ifs with hmem
    · constructor
      · exact Or.inl
      · rintro (hr | rfl)
        · exact hr
        · exact hmem
    · rw [List.mem_append, List.mem_singleton, eq_comm]

end MockBank

end BankingControlPlane
