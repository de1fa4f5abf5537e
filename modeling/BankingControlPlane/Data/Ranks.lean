import Mathlib.Data.List.Sort

/-!
# Nearest ranks

* `HasRank xs r x` : `x` is one of `xs`, at least `r` of them are no greater, and fewer than `r` are smaller;
* `HasRank.unique`, `HasRank.mono`, `HasRank.perm` : a rank has one element, a higher one a greater element, and
  neither depends on the order of the list;
* `hasRank_mergeSort` : the element of each rank stands at its place in the sorted list.
-/

namespace Ranks
variable {α : Type*} [LinearOrder α]

/-- The element is the first of the list, in order, with `r` elements up to it. -/
structure HasRank (xs : List α) (r : Nat) (x : α) : Prop where
  mem : x ∈ xs
  reached : r ≤ xs.countP (· ≤ x)
  first : xs.countP (· < x) < r

section Rank
variable {xs ys : List α} {r s : Nat} {x y : α}

theorem countP_le_of_lt (h : y < x) : xs.countP (· ≤ y) ≤ xs.countP (· < x) := by
  apply List.countP_mono_left
  intro z _ hz
  have hle : z ≤ y := of_decide_eq_true hz
  exact decide_eq_true (lt_of_le_of_lt hle h)

/-- A higher rank has no smaller element. -/
theorem HasRank.mono (hx : HasRank xs r x) (hy : HasRank xs s y) (h : r ≤ s) : x ≤ y := by
  by_contra hlt
  have hcount : xs.countP (· ≤ y) ≤ xs.countP (· < x) := countP_le_of_lt (not_le.mp hlt)
  have hreached := hy.reached
  have hfirst := hx.first
  omega

theorem HasRank.unique (hx : HasRank xs r x) (hy : HasRank xs r y) : x = y :=
  le_antisymm (hx.mono hy (le_refl r)) (hy.mono hx (le_refl r))

theorem HasRank.perm (hx : HasRank xs r x) (h : xs.Perm ys) : HasRank ys r x := by
  constructor
  · exact h.mem_iff.mp hx.mem
  · rw [← h.countP_eq]
    exact hx.reached
  · rw [← h.countP_eq]
    exact hx.first

/-- In a sorted list an element has the rank of its place. -/
theorem hasRank_sorted {before after : List α} (h : (before ++ x :: after).Pairwise (· ≤ ·)) :
    HasRank (before ++ x :: after) (before.length + 1) x := by
  obtain ⟨-, hafter, hbetween⟩ := List.pairwise_append.mp h
  have hle : before.countP (· ≤ x) = before.length := by
    apply List.countP_eq_length.mpr
    intro y hy
    exact decide_eq_true (hbetween y hy x List.mem_cons_self)
  have hlt : (x :: after).countP (· < x) = 0 := by
    apply List.countP_eq_zero.mpr
    intro y hy
    rw [decide_eq_true_eq, not_lt]
    rcases List.mem_cons.mp hy with rfl | hy
    · exact le_refl y
    · exact (List.pairwise_cons.mp hafter).1 y hy
  constructor
  · exact List.mem_append_right _ List.mem_cons_self
  · have hself : 0 < (x :: after).countP (· ≤ x) :=
      List.countP_pos_iff.mpr ⟨x, List.mem_cons_self, decide_eq_true (le_refl x)⟩
    rw [List.countP_append, hle]
    omega
  · rw [List.countP_append, hlt]
    have hcount : before.countP (· < x) ≤ before.length := List.countP_le_length
    omega

theorem hasRank_mergeSort {i : Nat} (h : (xs.mergeSort (· ≤ ·))[i]? = some x) : HasRank xs (i + 1) x := by
  obtain ⟨hi, hx⟩ := List.getElem?_eq_some_iff.mp h
  have hsorted : (xs.mergeSort (· ≤ ·)).Pairwise (· ≤ ·) := List.pairwise_mergeSort' (· ≤ ·) xs
  have hsplit : (xs.mergeSort (· ≤ ·)).take i ++ x :: (xs.mergeSort (· ≤ ·)).drop (i + 1) = xs.mergeSort (· ≤ ·) := by
    rw [← hx, ← List.drop_eq_getElem_cons hi, List.take_append_drop]
  have hplace : ((xs.mergeSort (· ≤ ·)).take i).length = i := List.length_take_of_le (Nat.le_of_lt hi)
  rw [← hsplit] at hsorted
  have hrank := hasRank_sorted hsorted
  rw [hsplit, hplace] at hrank
  exact hrank.perm (List.mergeSort_perm xs _)

end Rank

end Ranks
