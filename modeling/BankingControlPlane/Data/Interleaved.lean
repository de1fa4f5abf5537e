import Mathlib.Data.List.Basic
import Mathlib.Data.List.Perm.Basic

/-!
# Merges of lists

* `Interleaved ls out` : `out` is a merge of the lists `ls`, each in its own order (`Interleaved.perm`).
-/

/-- At each step the next of any one list comes next. -/
inductive Interleaved {α : Type*} : List (List α) → List α → Prop
  | stop {ls : List (List α)} (h : ∀ l ∈ ls, l = []) : Interleaved ls []
  | next {before after : List (List α)} {x : α} {xs out : List α} (h : Interleaved (before ++ xs :: after) out) :
    Interleaved (before ++ (x :: xs) :: after) (x :: out)

namespace Interleaved
variable {α : Type*} {ls : List (List α)} {out : List α}

/-- A merge has the entries of its lists. -/
theorem perm (h : Interleaved ls out) : out.Perm ls.flatten := by
  induction h with
  | stop h => rw [List.flatten_eq_nil_iff.mpr h]
  | @next before after x xs out h ih =>
    rw [List.flatten_append, List.flatten_cons, List.cons_append]
    rw [List.flatten_append, List.flatten_cons] at ih
    exact (ih.cons x).trans List.perm_middle.symm

theorem mem_iff (h : Interleaved ls out) (x : α) : x ∈ out ↔ ∃ l ∈ ls, x ∈ l := by
  rw [h.perm.mem_iff, List.mem_flatten]

/-- The one merge of one list. -/
theorem single (l : List α) : Interleaved [l] l := by
  induction l with
  | nil => exact .stop (by simp)
  | cons x xs ih => exact @next α [] [] x xs xs ih

end Interleaved
