import Mathlib.Data.List.Nodup

/-!
# Tables keyed by a field

A table is a list whose rows carry their own key; insertion order is kept.

* `find key xs k` : the first row with key `k`;
* `upsert key xs x` : the row with `x`'s key replaced by `x`, or `x` added at the end;
* `find_upsert` : what an upsert changes, and that it changes nothing else; `find_foldl_upsert` : what rows merged
  into a table change;
* `Nodup` of the keys : kept by `upsert`, and then membership is lookup (`find_of_mem`).
-/

namespace Keyed
variable {α κ : Type*} [DecidableEq κ] (key : α → κ)

def find (xs : List α) (k : κ) : Option α := xs.find? fun x => key x = k

def upsert : List α → α → List α
  | [], x => [x]
  | y :: ys, x => if key y = key x then x :: ys else y :: upsert ys x

@[simp] theorem find_nil (k : κ) : find key ([] : List α) k = none := rfl

theorem find_cons (y : α) (ys : List α) (k : κ) :
    find key (y :: ys) k = if key y = k then some y else find key ys k := by
  by_cases h : key y = k <;> simp [find, h]

theorem mem_of_find {xs : List α} {k : κ} {x : α} (h : find key xs k = some x) : x ∈ xs :=
  List.mem_of_find?_eq_some h

theorem key_of_find {xs : List α} {k : κ} {x : α} (h : find key xs k = some x) : key x = k := by
  simpa using List.find?_some h

theorem find_eq_none {xs : List α} {k : κ} : find key xs k = none ↔ ∀ x ∈ xs, key x ≠ k := by
  simp [find]

theorem find_upsert (xs : List α) (x : α) (k : κ) :
    find key (upsert key xs x) k = if key x = k then some x else find key xs k := by
  induction xs with
  | nil => simp [upsert, find_cons]
  | cons y ys ih =>
    by_cases hy : key y = key x
    · simp only [upsert, hy, if_true, find_cons]
      split_ifs <;> rfl
    · simp only [upsert, hy, if_false, find_cons, ih]
      by_cases hk : key y = k
      · simp [hk, show ¬ key x = k from fun h => hy (hk.trans h.symm)]
      · simp [hk]

@[simp] theorem find_upsert_self (xs : List α) (x : α) :
    find key (upsert key xs x) (key x) = some x := by
  simp [find_upsert]

theorem mem_upsert {xs : List α} {x y : α} (h : y ∈ upsert key xs x) : y = x ∨ y ∈ xs := by
  induction xs with
  | nil => simpa [upsert] using h
  | cons z zs ih =>
    by_cases hz : key z = key x
    · simp only [upsert, hz, if_true, List.mem_cons] at h
      rcases h with h | h
      · exact Or.inl h
      · exact Or.inr (List.mem_cons_of_mem _ h)
    · simp only [upsert, hz, if_false, List.mem_cons] at h
      rcases h with rfl | h
      · exact Or.inr List.mem_cons_self
      · exact (ih h).imp_right (List.mem_cons_of_mem _)

/-- A row with a new key goes to the end. -/
theorem upsert_new {xs : List α} {x : α} (h : ∀ y ∈ xs, key y ≠ key x) : upsert key xs x = xs ++ [x] := by
  induction xs with
  | nil => rfl
  | cons y ys ih =>
    obtain ⟨hy, hys⟩ := List.forall_mem_cons.mp h
    rw [upsert, if_neg hy, ih hys, List.cons_append]

theorem keys_upsert (xs : List α) (x : α) :
    (upsert key xs x).map key =
      if key x ∈ xs.map key then xs.map key else xs.map key ++ [key x] := by
  induction xs with
  | nil => simp [upsert]
  | cons y ys ih =>
    by_cases hy : key y = key x
    · simp [upsert, hy]
    · simp only [upsert, hy, if_false, List.map_cons, ih, List.mem_cons, Ne.symm hy, false_or]
      split_ifs <;> simp

theorem nodup_upsert {xs : List α} (h : (xs.map key).Nodup) (x : α) :
    ((upsert key xs x).map key).Nodup := by
  rw [keys_upsert]
  split_ifs with hx
  · exact h
  · simp only [List.nodup_append, List.nodup_singleton, List.mem_singleton, ne_eq]
    exact ⟨h, trivial, fun a ha b hb hab => hx (hb ▸ hab ▸ ha)⟩

theorem find_of_mem {xs : List α} (hn : (xs.map key).Nodup) {x : α} (hx : x ∈ xs) :
    find key xs (key x) = some x := by
  induction xs with
  | nil => cases hx
  | cons y ys ih =>
    rw [List.map_cons, List.nodup_cons] at hn
    rw [find_cons]
    rcases List.mem_cons.mp hx with rfl | hx
    · simp
    · have hne : key y ≠ key x := fun h => hn.1 (h ▸ List.mem_map_of_mem hx)
      simp [hne, ih hn.2 hx]

/-- A row that is there already changes nothing. -/
theorem upsert_self {xs : List α} {x : α} (h : find key xs (key x) = some x) : upsert key xs x = xs := by
  induction xs with
  | nil => cases h
  | cons y ys ih =>
    rw [find_cons] at h
    by_cases hy : key y = key x
    · rw [if_pos hy] at h
      rw [upsert, if_pos hy, Option.some.inj h]
    · rw [if_neg hy] at h
      rw [upsert, if_neg hy, ih h]

theorem foldl_upsert_self {table rows : List α} (h : ∀ x ∈ rows, find key table (key x) = some x) :
    rows.foldl (upsert key) table = table := by
  induction rows with
  | nil => rfl
  | cons x rows ih =>
    obtain ⟨hx, hrows⟩ := List.forall_mem_cons.mp h
    rw [List.foldl_cons, upsert_self key hx, ih hrows]

/-- Rows with distinct keys, merged into a table, are found there; of the others those that were there are. -/
theorem find_foldl_upsert {rows : List α} (hn : (rows.map key).Nodup) (table : List α) (k : κ) :
    find key (rows.foldl (upsert key) table) k = (find key rows k).or (find key table k) := by
  induction rows generalizing table with
  | nil => rfl
  | cons x rows ih =>
    obtain ⟨hx, hrows⟩ := List.nodup_cons.mp hn
    rw [List.foldl_cons, ih hrows, find_upsert, find_cons]
    by_cases hk : key x = k
    · have hnone : find key rows k = none := by
        apply (find_eq_none key).mpr
        intro y hy heq
        apply hx
        rw [hk, ← heq]
        exact List.mem_map_of_mem hy
      rw [hnone, if_pos hk, if_pos hk]
      rfl
    · rw [if_neg hk, if_neg hk]

/-- Tables with the same keys in the same order and the same row for each are the same. -/
theorem ext_find {xs ys : List α} (hn : (xs.map key).Nodup) (hkeys : xs.map key = ys.map key)
    (h : ∀ k, find key xs k = find key ys k) : xs = ys := by
  have hget : ∀ {zs : List α} {z : α}, (zs.map key).Nodup → z ∈ zs → find key zs (key z) = some z :=
    fun hz hmem => find_of_mem key hz hmem
  refine List.ext_getElem (by simpa using congrArg List.length hkeys) fun n hx hy => ?_
  have hkey : key xs[n] = key ys[n] := by
    have hnth := congrArg (fun ks => ks[n]?) hkeys
    simpa [hx, hy] using hnth
  have hxs := hget hn (List.getElem_mem hx)
  have hys := hget (hkeys ▸ hn) (List.getElem_mem hy)
  rw [hkey, h, hys] at hxs
  exact (Option.some.inj hxs).symm

end Keyed
