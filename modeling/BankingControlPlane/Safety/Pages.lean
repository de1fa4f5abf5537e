import BankingControlPlane.Runtime.Threads
import Mathlib.Data.String.Basic

/-!
# Pages of a customer's conversations

* `asearch` : a search that honours its filter, cut at a limit;
* `slice_length`, `pages_take` : pages of one size are the list, cut;
* `pages_partition` : the pages hold each of the customer's conversations that has a turn, once, the most recently
  used first, whatever the index has of others.
-/

namespace BankingControlPlane.Http
open Keyed Text

/-! ## The store -/

/-- `asearch`, filtered on the owner: it finds the records that pass, in its own order of them. -/
def asearch (order : List Row → List Row) (index : List Row) (customer : Customer) (limit : Nat) : List Row :=
  (order (index.filter fun row => row.owner = some customer)).take limit

/-- Page `k` of the customer's list, as the endpoint asks for it. -/
def page (order : List Row → List Row) (index : List Row) (customer : Customer) (n k : Nat) : List ThreadSummary :=
  listThreads (asearch order index customer scanLimit) customer n (k * n)

/-- The customer's records that a list shows. -/
def shown (index : List Row) (customer : Customer) : List Row :=
  index.filter fun row => 0 < row.turns ∧ row.owner = some customer

/-! ## Lists in pages -/

section Pages
variable {α : Type} (xs : List α)

/-- The slice from `i` on that is `n` long. -/
theorem slice_length (i n : Nat) : slice xs i (i + n) = (xs.drop i).take n := by
  have hstart : ¬ (i : Int) < 0 := by omega
  have hstop : ¬ (i + n : Int) < 0 := by omega
  have hnat : (i + n : Int).toNat = i + n := by omega
  unfold slice
  dsimp only
  rw [if_neg hstart, if_neg hstop, hnat, Int.toNat_natCast]
  exact List.take_drop.symm

/-- The pages up to one are what is before it. -/
theorem pages_take (n K : Nat) :
    ((List.range K).flatMap fun k => (xs.drop (k * n)).take n) = xs.take (K * n) := by
  induction K with
  | zero => simp
  | succ K ih =>
    rw [List.range_succ, List.flatMap_append, ih, List.flatMap_singleton, Nat.succ_mul, List.take_add]

end Pages

/-! ## The whole list -/

section Listing
variable {order : List Row → List Row} {index : List Row} {customer : Customer}

/-- What a listing of these records is cut from. -/
def summaries (items : List Row) (customer : Customer) : List ThreadSummary :=
  ((shown items customer).map Row.summary).mergeSort fun a b => decide (b.updatedAt ≤ a.updatedAt)

theorem page_eq (n k : Nat) :
    page order index customer n k =
      ((summaries (asearch order index customer scanLimit) customer).drop (k * n)).take n := by
  rw [← slice_length]
  unfold page listThreads summaries shown
  rw [Int.natCast_mul]

theorem summaries_sorted (items : List Row) (customer : Customer) :
    (summaries items customer).Pairwise fun a b => b.updatedAt ≤ a.updatedAt := by
  have hsorted : (summaries items customer).Pairwise fun a b => decide (b.updatedAt ≤ a.updatedAt) = true := by
    apply List.pairwise_mergeSort
    · intro a b c hab hbc
      exact decide_eq_true ((of_decide_eq_true hbc).trans (of_decide_eq_true hab))
    · intro a b
      rw [Bool.or_eq_true, decide_eq_true_eq, decide_eq_true_eq]
      exact le_total _ _
  exact hsorted.imp fun h => of_decide_eq_true h

/-- Within the limit, the store finds all the records that are the customer's. -/
theorem shown_asearch (horder : ∀ rows, (order rows).Perm rows)
    (hscan : (index.filter fun row => row.owner = some customer).length ≤ scanLimit) :
    (shown (asearch order index customer scanLimit) customer).Perm (shown index customer) := by
  unfold asearch
  rw [List.take_of_length_le ((horder _).length_eq.trans_le hscan)]
  refine ((horder _).filter _).trans ?_
  rw [List.filter_filter]
  refine .of_eq (List.filter_congr fun row _ => ?_)
  rw [← Bool.decide_and]
  exact decide_eq_decide.mpr (and_iff_left_of_imp And.right)

theorem summaries_perm (horder : ∀ rows, (order rows).Perm rows)
    (hscan : (index.filter fun row => row.owner = some customer).length ≤ scanLimit) :
    (summaries (asearch order index customer scanLimit) customer).Perm ((shown index customer).map Row.summary) :=
  (List.mergeSort_perm ..).trans ((shown_asearch horder hscan).map _)

/-- Enough pages are the whole list. -/
theorem pages_eq (horder : ∀ rows, (order rows).Perm rows)
    (hscan : (index.filter fun row => row.owner = some customer).length ≤ scanLimit) {n K : Nat}
    (hK : (shown index customer).length ≤ K * n) :
    (List.range K).flatMap (page order index customer n) =
      summaries (asearch order index customer scanLimit) customer := by
  have hlength : (summaries (asearch order index customer scanLimit) customer).length ≤ K * n := by
    rw [(summaries_perm horder hscan).length_eq, List.length_map]
    exact hK
  rw [funext (page_eq n), pages_take, List.take_of_length_le hlength]

theorem page_beyond (horder : ∀ rows, (order rows).Perm rows)
    (hscan : (index.filter fun row => row.owner = some customer).length ≤ scanLimit) {n k : Nat}
    (hk : (shown index customer).length ≤ k * n) : page order index customer n k = [] := by
  rw [page_eq, List.drop_of_length_le, List.take_nil]
  rw [(summaries_perm horder hscan).length_eq, List.length_map]
  exact hk

end Listing

/-! ## Every index -/

/-- **The pages are the customer's conversations**, whatever else the index has. -/
theorem pages_partition {order : List Row → List Row} (horder : ∀ rows, (order rows).Perm rows) {index : List Row}
    {customer : Customer} (hscan : (index.filter fun row => row.owner = some customer).length ≤ scanLimit) {n K : Nat}
    (hK : (shown index customer).length ≤ K * n) :
    ((List.range K).flatMap (page order index customer n)).Perm ((shown index customer).map Row.summary) ∧
    ((index.map Row.thread).Nodup →
      (((List.range K).flatMap (page order index customer n)).map ThreadSummary.thread).Nodup) ∧
    ((List.range K).flatMap (page order index customer n)).Pairwise (fun a b => b.updatedAt ≤ a.updatedAt) ∧
    (∀ k, K ≤ k → page order index customer n k = []) ∧
    ∀ other : List Row, (other.filter fun row => row.owner = some customer) =
        (index.filter fun row => row.owner = some customer) →
      ∀ k, page order other customer n k = page order index customer n k := by
  have hperm := summaries_perm horder hscan
  rw [pages_eq horder hscan hK]
  refine ⟨hperm, ?_, summaries_sorted .., ?_, ?_⟩
  · intro hnodup
    have hthreads : ((shown index customer).map Row.summary).map ThreadSummary.thread =
        (shown index customer).map Row.thread := List.map_map
    rw [(hperm.map _).nodup_iff, hthreads]
    exact hnodup.sublist (List.filter_sublist.map _)
  · intro k hk
    exact page_beyond horder hscan (hK.trans (Nat.mul_le_mul_right n hk))
  · intro other hother k
    unfold page asearch
    rw [hother]

/-! Two conversations of one customer's, one never spoken to, and one of another's. -/

def sampleIndex : List Row :=
  [⟨"t-1", ⟨"c-1", "oi"⟩, 2, "1", "4", some "c-1"⟩, ⟨"t-2", ⟨"c-2", "saldo"⟩, 1, "2", "5", some "c-2"⟩,
    ⟨"t-3", ⟨"c-1", ""⟩, 0, "3", "3", some "c-1"⟩, ⟨"t-4", ⟨"c-1", "pix"⟩, 1, "6", "7", some "c-1"⟩]

theorem pages_partition_sample :
    ((List.range 2).flatMap (page (fun rows => rows) sampleIndex "c-1" 1)).Perm
      ((shown sampleIndex "c-1").map Row.summary) :=
  (@pages_partition (fun rows => rows) (fun rows => .refl rows) sampleIndex "c-1" (by decide) 1 2 (by decide)).1

end BankingControlPlane.Http
