import BankingControlPlane.Effects.Prog
import Mathlib.Logic.Function.Basic

/-!
# Many programs over one state

Threads are numbered; each step one thread makes its next call, atomically. A schedule is the list
of threads that step, so "every interleaving" is "every schedule".

* `Machine` : what a call of a thread does to the shared state;
* `Pool.step`, `Pool.exec` : one step, a schedule; `Pool.Meets A` : every call made along a schedule
  meets the condition `A`;
* `Pool.along` : what an observer notes along a schedule (`meets_iff_along`);
* `Contract` : an invariant, and for each thread what it relies on and what it guarantees;
  `Machine.keeps` : the meaning of a call under interference;
* `Sound.exec` : threads that keep their contracts keep them along every schedule that meets `A`;
* `Machine.keeps_abstract` : a thread keeps its contract when an abstract meaning of its calls, along a
  relation that withstands the others, does.
-/

namespace Effects

/-- What a call does when a thread makes it. -/
structure Machine (σ : Type*) (E : Type → Type) where
  on : Nat → {β : Type} → E β → σ → β × σ

/-- The shared state and what every thread still has to do. -/
structure Pool (σ : Type*) (E : Type → Type) (ε α : Type) where
  shared : σ
  threads : Nat → Prog E ε α

namespace Pool
variable {σ : Type*} {E : Type → Type} {ε α : Type} (m : Machine σ E)

/-- Thread `t` makes its next call; a thread that has returned does nothing. -/
def step (p : Pool σ E ε α) (t : Nat) : Pool σ E ε α :=
  match p.threads t with
  | .ret _ => p
  | .raise _ => p
  | .call c k =>
    { shared := (m.on t c p.shared).2
      threads := Function.update p.threads t (k (m.on t c p.shared).1) }

theorem step_ret {p : Pool σ E ε α} {t : Nat} {a : α} (h : p.threads t = .ret a) : p.step m t = p := by
  simp [step, h]

theorem step_call {p : Pool σ E ε α} {t : Nat} {β : Type} {c : E β} {k : β → Prog E ε α}
    (h : p.threads t = .call c k) :
    p.step m t =
      { shared := (m.on t c p.shared).2
        threads := Function.update p.threads t (k (m.on t c p.shared).1) } := by
  simp [step, h]

def exec (p : Pool σ E ε α) (schedule : List Nat) : Pool σ E ε α := schedule.foldl (step m) p

@[simp] theorem exec_nil (p : Pool σ E ε α) : exec m p [] = p := rfl

@[simp] theorem exec_cons (p : Pool σ E ε α) (t : Nat) (ts : List Nat) :
    exec m p (t :: ts) = exec m (step m p t) ts := rfl

/-- The call a program is about to make, if any, meets `A`. -/
def nextMeets (A : {β : Type} → E β → σ → Prop) (s : σ) : Prog E ε α → Prop
  | .ret _ => True
  | .raise _ => True
  | .call c _ => A c s

/-- The call thread `t` is about to make, if any, meets `A`. -/
def Next (A : Nat → {β : Type} → E β → σ → Prop) (p : Pool σ E ε α) (t : Nat) : Prop :=
  nextMeets (A t) p.shared (p.threads t)

/-- Every call made along the schedule meets `A`. -/
def Meets (A : Nat → {β : Type} → E β → σ → Prop) : Pool σ E ε α → List Nat → Prop
  | _, [] => True
  | p, t :: ts => Next A p t ∧ Meets A (step m p t) ts

theorem meets_true (p : Pool σ E ε α) (ts : List Nat) :
    Meets m (fun _ _ _ _ => True) p ts := by
  induction ts generalizing p with
  | nil => trivial
  | cons t ts ih =>
    refine ⟨?_, ih _⟩
    unfold Next
    cases p.threads t <;> trivial

theorem meets_append {A : Nat → {β : Type} → E β → σ → Prop} (p : Pool σ E ε α) (xs ys : List Nat) :
    Meets m A p (xs ++ ys) ↔ Meets m A p xs ∧ Meets m A (exec m p xs) ys := by
  induction xs generalizing p with
  | nil => simp [Meets]
  | cons t ts ih => simp only [List.cons_append, Meets, exec_cons, ih, and_assoc]

/-- What a thread has returned or raised. -/
def result (p : Pool σ E ε α) (t : Nat) : Option (Except ε α) :=
  match p.threads t with
  | .ret a => some (.ok a)
  | .raise e => some (.error e)
  | .call _ _ => none

/-- A thread that has returned stays so. -/
theorem result_step {p : Pool σ E ε α} {t : Nat} {x : Except ε α} (h : p.result t = some x) (u : Nat) :
    (p.step m u).result t = some x := by
  have hthreads : (p.step m u).threads t = p.threads t := by
    unfold step
    cases hu : p.threads u with
    | ret a => rfl
    | raise e => rfl
    | call c k =>
      have hne : t ≠ u := by
        rintro rfl
        simp [result, hu] at h
      exact Function.update_of_ne hne _ _
  unfold result at h ⊢
  rw [hthreads]
  exact h

theorem result_exec {p : Pool σ E ε α} {t : Nat} {x : Except ε α} (h : p.result t = some x)
    (ts : List Nat) : (p.exec m ts).result t = some x := by
  induction ts generalizing p with
  | nil => exact h
  | cons u ts ih => exact ih (result_step m h u)

instance decidableNextMeets (A : {β : Type} → E β → σ → Prop)
    [∀ {β : Type} (c : E β) s, Decidable (A c s)] (s : σ) :
    (p : Prog E ε α) → Decidable (nextMeets A s p)
  | .ret _ => isTrue trivial
  | .raise _ => isTrue trivial
  | .call c _ => inferInstanceAs (Decidable (A c s))

instance decidableMeets (A : Nat → {β : Type} → E β → σ → Prop)
    [∀ t {β : Type} (c : E β) s, Decidable (A t c s)] :
    (p : Pool σ E ε α) → (ts : List Nat) → Decidable (Meets m A p ts)
  | _, [] => isTrue trivial
  | p, t :: ts =>
    have := decidableMeets A (p.step m t) ts
    inferInstanceAs (Decidable (nextMeets (A t) p.shared (p.threads t) ∧ Meets m A (p.step m t) ts))

theorem exec_append (p : Pool σ E ε α) (xs ys : List Nat) :
    exec m p (xs ++ ys) = exec m (exec m p xs) ys := List.foldl_append

/-- What a step keeps, when the call it makes meets `A`, a schedule keeps. -/
theorem exec_keeps {A : Nat → {β : Type} → E β → σ → Prop} {I : Pool σ E ε α → Prop}
    (h : ∀ p t, I p → Next A p t → I (step m p t)) {p : Pool σ E ε α} (hp : I p) {ts : List Nat}
    (hts : Meets m A p ts) : I (exec m p ts) := by
  induction ts generalizing p with
  | nil => exact hp
  | cons t ts ih => exact ih (h p t hp hts.1) hts.2

/-- What an observer notes of each step along a schedule. -/
def along {β : Type*} (note : Pool σ E ε α → Nat → List β) : Pool σ E ε α → List Nat → List β
  | _, [] => []
  | p, t :: ts => note p t ++ along note (step m p t) ts

/-- A condition on every call is a condition on every note, if it is so at each step. -/
theorem meets_iff_along {β : Type*} {A : Nat → {γ : Type} → E γ → σ → Prop}
    {note : Pool σ E ε α → Nat → List β} {P : β → Prop}
    (h : ∀ p t, Next A p t ↔ ∀ x ∈ note p t, P x) (p : Pool σ E ε α) (ts : List Nat) :
    Meets m A p ts ↔ ∀ x ∈ along m note p ts, P x := by
  induction ts generalizing p with
  | nil => simp [Meets, along]
  | cons t ts ih => simp only [Meets, along, List.mem_append, or_imp, forall_and, h, ih]

end Pool

/-! ## Rely and guarantee -/

/-- An invariant, and the changes each thread puts up with and makes. -/
structure Contract (σ : Type*) where
  inv : σ → Prop
  rely : Nat → σ → σ → Prop
  guar : Nat → σ → σ → Prop

/-- What the contract must satisfy for threads to compose. -/
structure Contract.Fits {σ : Type*} (C : Contract σ) : Prop where
  refl : ∀ t s, C.rely t s s
  trans : ∀ t {s₁ s₂ s₃}, C.rely t s₁ s₂ → C.rely t s₂ s₃ → C.rely t s₁ s₃
  covers : ∀ {t u s s'}, t ≠ u → C.inv s → C.inv s' → C.guar u s s' → C.rely t s s'

section Logic
variable {σ : Type*} {E : Type → Type} {ε α : Type} (m : Machine σ E) (C : Contract σ)
  (A : Nat → {β : Type} → E β → σ → Prop)

/-- A call of thread `t` after any interference, where the call meets `A`: it keeps the invariant
and the guarantee. -/
def Machine.keeps (t : Nat) : Prog.Meaning σ E :=
  fun c K s => ∀ s', C.rely t s s' → C.inv s' → A t c s' →
    C.inv (m.on t c s').2 ∧ C.guar t s' (m.on t c s').2 ∧ K (m.on t c s').1 (m.on t c s').2

theorem Machine.keeps_mono (t : Nat) : Prog.Meaning.Mono (m.keeps C A t) :=
  fun _ _ _ _ hK hc s' hr hi ha =>
    ⟨(hc s' hr hi ha).1, (hc s' hr hi ha).2.1, hK _ _ (hc s' hr hi ha).2.2⟩

/-- Every thread keeps its contract from here on, and `Q` of its result withstands the others. -/
structure Sound (Q : Nat → Except ε α → σ → Prop) (p : Pool σ E ε α) : Prop where
  inv : C.inv p.shared
  threads : ∀ t, (p.threads t).wp (m.keeps C A t) (Q t) p.shared
  stable : ∀ t x s s', Q t x s → C.rely t s s' → Q t x s'

variable {m C A} {Q : Nat → Except ε α → σ → Prop}

theorem wp_rely (hC : C.Fits) {t : Nat} (hQ : ∀ x s s', Q t x s → C.rely t s s' → Q t x s')
    {p : Prog E ε α} {s s' : σ} (hp : p.wp (m.keeps C A t) (Q t) s) (hr : C.rely t s s') :
    p.wp (m.keeps C A t) (Q t) s' := by
  cases p with
  | ret a => exact hQ _ _ _ hp hr
  | raise e => exact hQ _ _ _ hp hr
  | call c k => exact fun s₁ h₁ => hp s₁ (hC.trans t hr h₁)

/-- One step of any thread keeps every contract, and is a step its guarantee allows. -/
theorem Sound.step (hC : C.Fits) {p : Pool σ E ε α} (hp : Sound m C A Q p) (t : Nat)
    (hA : p.Next A t) :
    Sound m C A Q (p.step m t) ∧
      ((p.step m t).shared = p.shared ∨ C.guar t p.shared (p.step m t).shared) := by
  cases hth : p.threads t with
  | ret a => simpa [Pool.step, hth] using hp
  | raise e => simpa [Pool.step, hth] using hp
  | call c k =>
    have hkeep := hp.threads t
    rw [hth] at hkeep
    have hnext : A t c p.shared := by simpa [Pool.Next, Pool.nextMeets, hth] using hA
    obtain ⟨hinv, hguar, hk⟩ := hkeep p.shared (hC.refl t _) hp.inv hnext
    have hstep : p.step m t = ⟨(m.on t c p.shared).2,
        Function.update p.threads t (k (m.on t c p.shared).1)⟩ := by
      simp [Pool.step, hth]
    rw [hstep]
    refine ⟨⟨hinv, fun u => ?_, hp.stable⟩, Or.inr hguar⟩
    by_cases hut : u = t
    · subst hut
      simpa using hk
    · simp only [Function.update_of_ne hut]
      exact wp_rely hC (hp.stable u) (hp.threads u) (hC.covers hut hp.inv hinv hguar)

/-- **Threads that keep their contracts keep them along every schedule that meets `A`.** -/
theorem Sound.exec (hC : C.Fits) {p : Pool σ E ε α} (hp : Sound m C A Q p) (ts : List Nat)
    (hA : p.Meets m A ts) : Sound m C A Q (p.exec m ts) := by
  induction ts generalizing p with
  | nil => exact hp
  | cons t ts ih => exact ih (hp.step hC t hA.1).1 hA.2

/-- A preorder that every guarantee refines holds between the ends of a schedule. -/
theorem Sound.related (hC : C.Fits) {p : Pool σ E ε α} (hp : Sound m C A Q p) (ts : List Nat)
    (hA : p.Meets m A ts) {T : σ → σ → Prop} (hrefl : ∀ s, T s s)
    (htrans : ∀ {s₁ s₂ s₃}, T s₁ s₂ → T s₂ s₃ → T s₁ s₃)
    (hT : ∀ t {s s'}, C.inv s → C.inv s' → C.guar t s s' → T s s') :
    T p.shared (p.exec m ts).shared := by
  induction ts generalizing p with
  | nil => exact hrefl _
  | cons t ts ih =>
    obtain ⟨hs, hstep⟩ := hp.step hC t hA.1
    refine htrans ?_ (ih hs hA.2)
    rcases hstep with heq | hg
    · rw [heq]
      exact hrefl _
    · exact hT t hp.inv hs.inv hg

/-- What holds of a thread's result, once it has returned. -/
theorem Sound.returned {p : Pool σ E ε α} (hp : Sound m C A Q p) {t : Nat} {x : Except ε α}
    (ht : p.result t = some x) : Q t x p.shared := by
  have hthread := hp.threads t
  unfold Pool.result at ht
  cases hth : p.threads t with
  | ret a =>
    rw [hth] at ht hthread
    rwa [← Option.some.inj ht]
  | raise e =>
    rw [hth] at ht hthread
    rwa [← Option.some.inj ht]
  | call c k =>
    rw [hth] at ht
    cases ht

/-- A thread whose calls follow an abstract meaning, along a relation that withstands the other threads,
keeps its contract. -/
theorem Machine.keeps_abstract {τ : Type*} {Φ : Prog.Meaning τ E} {t : Nat} (rel : τ → σ → Prop)
    (hstable : ∀ a s s', rel a s → C.rely t s s' → rel a s')
    (hcall : ∀ {β : Type} (c : E β) (K : β → τ → Prop) a s, rel a s → C.inv s → A t c s → Φ c K a →
      C.inv (m.on t c s).2 ∧ C.guar t s (m.on t c s).2 ∧
        ∃ a', K (m.on t c s).1 a' ∧ rel a' (m.on t c s).2)
    {R : Except ε α → τ → Prop} {p : Prog E ε α} {a : τ} {s : σ} (hp : p.wp Φ R a) (hr : rel a s) :
    p.wp (m.keeps C A t) (fun x s => ∃ a, R x a ∧ rel a s) s := by
  induction p generalizing a s with
  | ret x => exact ⟨a, hp, hr⟩
  | raise e => exact ⟨a, hp, hr⟩
  | call c k ih =>
    intro s' hrely hinv hA
    obtain ⟨hinv', hguar, a', hk, hr'⟩ := hcall c _ a s' (hstable a s s' hr hrely) hinv hA hp
    exact ⟨hinv', hguar, ih _ hk hr'⟩

end Logic

end Effects
