import Mathlib.Data.List.Induction

/-!
# Histories: facts about what came before

A history is a list that only grows at its end.

* `Past P h` : every entry of `h` meets `P` with the entries before it (`past_snoc`);
* `Since m h x seg` : the last entry of `h` marked by `m` is `x`, and `seg` is what came after it
  (`Since.snoc`, `Since.unique`);
* `foldlM_keeps` : what a fold keeps along the history it reads.
-/

namespace History
universe u
variable {α : Type*}

def Past (P : List α → α → Prop) (h : List α) : Prop :=
  ∀ pre x post, h = pre ++ x :: post → P pre x

theorem past_nil (P : List α → α → Prop) : Past P [] := by
  intro pre x post h
  simp at h

theorem snoc_eq_split {h : List α} {y : α} {pre : List α} {x : α} {post : List α}
    (e : h ++ [y] = pre ++ x :: post) :
    (h = pre ∧ y = x ∧ post = []) ∨ ∃ rest, post = rest ++ [y] ∧ h = pre ++ x :: rest := by
  induction post using List.reverseRecOn with
  | nil =>
    obtain ⟨h1, h2⟩ := List.append_inj' e rfl
    exact Or.inl ⟨h1, by simpa using h2, rfl⟩
  | append_singleton rest z _ =>
    rw [show pre ++ x :: (rest ++ [z]) = (pre ++ x :: rest) ++ [z] by simp] at e
    obtain ⟨h1, h2⟩ := List.append_inj' e rfl
    have hz : z = y := by simpa using h2.symm
    exact Or.inr ⟨rest, by rw [hz], h1⟩

/-- Of two entries one came first. -/
theorem mem_order {h : List α} {x y : α} (hx : x ∈ h) (hy : y ∈ h) :
    (∃ pre post, h = pre ++ x :: post ∧ y ∈ pre ++ [x]) ∨
      ∃ pre post, h = pre ++ y :: post ∧ x ∈ pre ++ [y] := by
  obtain ⟨pre, post, rfl⟩ := List.append_of_mem hx
  rcases List.mem_append.mp hy with hy | hy
  · exact Or.inl ⟨pre, post, rfl, List.mem_append_left _ hy⟩
  · rcases List.mem_cons.mp hy with rfl | hy
    · exact Or.inl ⟨pre, post, rfl, by simp⟩
    · obtain ⟨mid, rest, rfl⟩ := List.append_of_mem hy
      exact Or.inr ⟨pre ++ x :: mid, rest, by simp, by simp⟩

/-- A history grows by an entry that meets `P` after it. -/
theorem past_snoc {P : List α → α → Prop} {h : List α} {y : α} :
    Past P (h ++ [y]) ↔ Past P h ∧ P h y := by
  constructor
  · intro hp
    exact ⟨fun pre x post e => hp pre x (post ++ [y]) (by simp [e]), hp h y [] rfl⟩
  · rintro ⟨hp, hy⟩ pre x post e
    rcases snoc_eq_split e with ⟨rfl, rfl, -⟩ | ⟨rest, -, e⟩
    · exact hy
    · exact hp pre x rest e

theorem Past.mono {P P' : List α → α → Prop} {h : List α} (hp : Past P h)
    (hP : ∀ pre x, P pre x → P' pre x) : Past P' h :=
  fun pre x post e => hP pre x (hp pre x post e)

/-- What no entry meets when an earlier one did, at most one entry meets. -/
theorem Past.count_le_one {p : α → Bool} {h : List α}
    (hp : Past (fun pre x => p x = true → ∀ y ∈ pre, p y = false) h) : h.countP p ≤ 1 := by
  induction h using List.reverseRecOn with
  | nil => simp
  | append_singleton h x ih =>
    obtain ⟨hh, hx⟩ := past_snoc.mp hp
    rw [List.countP_append, List.countP_singleton]
    split_ifs with hpx
    · have hzero : h.countP p = 0 := List.countP_eq_zero.mpr fun y hy => by simp [hx hpx y hy]
      omega
    · exact ih hh

/-- `x` is the last entry of `h` marked by `m`, and `seg` is what came after it. -/
def Since (m : α → Prop) (h : List α) (x : α) (seg : List α) : Prop :=
  m x ∧ (∀ y ∈ seg, ¬ m y) ∧ ∃ pre, h = pre ++ x :: seg

theorem Since.start {m : α → Prop} (h : List α) {x : α} (hx : m x) : Since m (h ++ [x]) x [] :=
  ⟨hx, by simp, h, rfl⟩

theorem Since.snoc {m : α → Prop} {h : List α} {x : α} {seg : List α} (hs : Since m h x seg)
    {y : α} (hy : ¬ m y) : Since m (h ++ [y]) x (seg ++ [y]) := by
  obtain ⟨hx, hseg, pre, rfl⟩ := hs
  refine ⟨hx, fun z hz => ?_, pre, by simp⟩
  rcases List.mem_append.mp hz with hz | hz
  · exact hseg z hz
  · rw [List.mem_singleton.mp hz]
    exact hy

/-- There is one last entry marked by `m`. -/
theorem Since.unique {m : α → Prop} {h : List α} {x y : α} {seg seg' : List α}
    (hx : Since m h x seg) (hy : Since m h y seg') : x = y ∧ seg = seg' := by
  obtain ⟨hmx, hseg, pre, rfl⟩ := hx
  obtain ⟨hmy, hseg', pre', heq⟩ := hy
  rcases List.append_eq_append_iff.mp heq with ⟨a, -, ha⟩ | ⟨a, -, ha⟩
  · cases a with
    | nil => exact List.cons.inj ha
    | cons z a =>
      obtain ⟨-, rfl⟩ := List.cons.inj ha
      exact absurd hmy (hseg y (by simp))
  · cases a with
    | nil => exact (List.cons.inj ha).imp Eq.symm Eq.symm
    | cons z a =>
      obtain ⟨-, rfl⟩ := List.cons.inj ha
      exact absurd hmx (hseg' x (by simp))

theorem Since.mem {m : α → Prop} {h : List α} {x : α} {seg : List α} (hs : Since m h x seg)
    {y : α} (hy : y ∈ seg) : y ∈ h := by
  obtain ⟨-, -, pre, rfl⟩ := hs
  simp [hy]

/-- The rule of a fold that may fail: every step goes on, and keeps what holds of the entries before it. -/
theorem foldlM_keeps {m : Type u → Type*} [Monad m] [LawfulMonad m] {σ : Type u} {step : σ → α → m σ} {s : σ}
    (I : List α → σ → Prop) (hstart : I [] s)
    (hstep : ∀ seen x s, I seen s → ∃ next, step s x = pure next ∧ I (seen ++ [x]) next) (h : List α) :
    ∃ last, h.foldlM step s = pure last ∧ I h last := by
  induction h using List.reverseRecOn with
  | nil => exact ⟨s, List.foldlM_nil, hstart⟩
  | append_singleton seen x ih =>
    obtain ⟨before, hfold, hseen⟩ := ih
    obtain ⟨next, hnext, hkept⟩ := hstep seen x before hseen
    refine ⟨next, ?_, hkept⟩
    rw [List.foldlM_append, hfold, pure_bind, List.foldlM_cons, hnext, pure_bind, List.foldlM_nil]

end History
