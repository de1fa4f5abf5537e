import Mathlib.Algebra.BigOperators.Group.List.Basic
import Mathlib.Algebra.Order.BigOperators.Group.List
import Mathlib.Algebra.Order.Group.Defs
import Mathlib.Tactic.Abel

/-!
# Accounts and what has been taken from them

* `spent moves a` : what a list of moves takes from an account, all together;
* `debit` : one move, of an account that exists;
* `Balanced opening now moves` : every account holds its opening balance less what was spent on it
  (`Balanced.start`, `Balanced.debit`, `Balanced.moved`);
* `Solvent` : no account is below zero (`Solvent.debit`);
* `Balanced.split` : with two lists of moves, the first alone balances exactly when the second takes
  nothing.
-/

namespace Ledger
variable {κ V : Type*} [DecidableEq κ]

section Group
variable [AddCommGroup V]

def spent (moves : List (κ × V)) (a : κ) : V :=
  (moves.map fun move => if move.1 = a then move.2 else 0).sum

@[simp] theorem spent_nil (a : κ) : spent ([] : List (κ × V)) a = 0 := rfl

theorem spent_cons (move : κ × V) (moves : List (κ × V)) (a : κ) :
    spent (move :: moves) a = (if move.1 = a then move.2 else 0) + spent moves a := by
  rw [spent, List.map_cons, List.sum_cons]
  rfl

theorem spent_append (xs ys : List (κ × V)) (a : κ) :
    spent (xs ++ ys) a = spent xs a + spent ys a := by
  rw [spent, List.map_append, List.sum_append]
  rfl

theorem spent_snoc (moves : List (κ × V)) (move : κ × V) (a : κ) :
    spent (moves ++ [move]) a = spent moves a + if move.1 = a then move.2 else 0 := by
  rw [spent_append, spent_cons, spent_nil, add_zero]

theorem spent_eq_of_perm {xs ys : List (κ × V)} (h : xs.Perm ys) (a : κ) : spent xs a = spent ys a :=
  (h.map _).sum_eq

/-- The balance of every account that exists. -/
abbrev Accounts (κ V : Type*) : Type _ := κ → Option V

def debit (accounts : Accounts κ V) (move : κ × V) : Accounts κ V :=
  fun a => if move.1 = a then (accounts a).map (· - move.2) else accounts a

/-- Every account holds its opening balance less what was spent on it. -/
def Balanced (opening now : Accounts κ V) (moves : List (κ × V)) : Prop :=
  ∀ a, now a = (opening a).map (· - spent moves a)

theorem Balanced.start (opening : Accounts κ V) : Balanced opening opening [] := by
  intro a
  cases opening a with
  | none => rfl
  | some v => rw [spent_nil, Option.map_some, sub_zero]

theorem Balanced.debit {opening now : Accounts κ V} {moves : List (κ × V)}
    (h : Balanced opening now moves) (move : κ × V) :
    Balanced opening (debit now move) (moves ++ [move]) := by
  intro a
  rw [Ledger.debit, h a, spent_snoc]
  by_cases hmove : move.1 = a
  · rw [if_pos hmove, if_pos hmove, Option.map_map]
    congr 1
    funext v
    change v - _ - _ = v - (_ + _)
    abel
  · rw [if_neg hmove, if_neg hmove, add_zero]

/-- The order of the moves does not count. -/
theorem Balanced.moved {opening now : Accounts κ V} {xs ys : List (κ × V)}
    (h : Balanced opening now xs) (hperm : xs.Perm ys) : Balanced opening now ys := by
  intro a
  rw [h a, spent_eq_of_perm hperm]

theorem Balanced.isSome {opening now : Accounts κ V} {moves : List (κ × V)}
    (h : Balanced opening now moves) {a : κ} (ha : (now a).isSome) : (opening a).isSome := by
  rw [h a, Option.isSome_map] at ha
  exact ha

/-- The first moves alone balance exactly when the others take nothing. -/
theorem Balanced.split {opening now : Accounts κ V} {xs ys : List (κ × V)}
    (h : Balanced opening now (xs ++ ys)) :
    Balanced opening now xs ↔ ∀ a, (opening a).isSome → spent ys a = 0 := by
  constructor
  · intro hx a ha
    obtain ⟨v, hv⟩ := Option.isSome_iff_exists.mp ha
    have hsame := (h a).symm.trans (hx a)
    rw [hv, Option.map_some, Option.map_some, Option.some.injEq, spent_append, ← sub_sub] at hsame
    exact sub_eq_self.mp hsame
  · intro hy a
    rw [h a]
    cases ho : opening a with
    | none => rfl
    | some v =>
      rw [Option.map_some, Option.map_some, spent_append, hy a (by rw [ho]; rfl), add_zero]

end Group

section Order
variable [AddCommGroup V] [LinearOrder V] [IsOrderedAddMonoid V]

/-- No account is below zero. -/
def Solvent (accounts : Accounts κ V) : Prop := ∀ a v, accounts a = some v → 0 ≤ v

/-- A move that the account can pay leaves it solvent. -/
theorem Solvent.debit {accounts : Accounts κ V} (h : Solvent accounts) {move : κ × V}
    (hcovered : ∀ v, accounts move.1 = some v → move.2 ≤ v) : Solvent (debit accounts move) := by
  intro a v hv
  rw [Ledger.debit] at hv
  by_cases hmove : move.1 = a
  · rw [if_pos hmove] at hv
    obtain ⟨w, hw, rfl⟩ := Option.map_eq_some_iff.mp hv
    exact sub_nonneg.mpr (hcovered w (hmove ▸ hw))
  · rw [if_neg hmove] at hv
    exact h a v hv

theorem spent_pos {moves : List (κ × V)} (hpos : ∀ move ∈ moves, 0 < move.2) {move : κ × V}
    (hmem : move ∈ moves) : 0 < spent moves move.1 := by
  have hterm : ∀ (a : κ) (m : κ × V), m ∈ moves → 0 ≤ if m.1 = a then m.2 else 0 := by
    intro a m hm
    split_ifs
    · exact (hpos m hm).le
    · exact le_rfl
  have hnonneg : ∀ x ∈ moves.map fun m => if m.1 = move.1 then m.2 else 0, 0 ≤ x := by
    intro x hx
    obtain ⟨m, hm, rfl⟩ := List.mem_map.mp hx
    exact hterm move.1 m hm
  have hle := List.single_le_sum hnonneg move.2
    (List.mem_map.mpr ⟨move, hmem, if_pos rfl⟩)
  exact lt_of_lt_of_le (hpos move hmem) hle

end Order

end Ledger
