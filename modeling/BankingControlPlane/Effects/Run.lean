import BankingControlPlane.Effects.Prog

/-!
# One program at a time: runs, and runs cut short

* `Handler σ E` : answers each call from a state;
* `Prog.run` : a whole run; `Prog.cut n` : the state a process leaves when it dies after `n` calls
  (`cut_eq_run` : a late enough cut is the whole run); `Prog.run_abstract` : a run seen through an
  abstraction of its state;
* `Handler.under A` : the meaning of a call made only where `A` allows it. An invariant that every
  allowed call keeps holds after a run (`Prog.run_keeps`) and after every cut (`Prog.cut_keeps`);
* `Handler.given I A` : the same, shown with the invariant `I` at hand (`Prog.wp_given`);
* `Prog.run_follows`, `Prog.cut_follows` : allowed calls seen through an abstraction of their state.
-/

namespace Effects

/-- The answers to calls, from a state. -/
structure Handler (σ : Type*) (E : Type → Type) where
  on : {β : Type} → E β → σ → β × σ

namespace Prog
variable {E : Type → Type} {ε α β : Type} {σ : Type*} (h : Handler σ E)

def run : Prog E ε α → σ → Except ε α × σ
  | .ret a, s => (.ok a, s)
  | .raise e, s => (.error e, s)
  | .call c k, s => (k (h.on c s).1).run (h.on c s).2

/-- The state after the first `n` calls: what is left when the process dies there. -/
def cut : Nat → Prog E ε α → σ → σ
  | 0, _, s => s
  | _ + 1, .ret _, s => s
  | _ + 1, .raise _, s => s
  | n + 1, .call c k, s => (k (h.on c s).1).cut n (h.on c s).2

@[simp] theorem run_ret (a : α) (s : σ) : (ret a : Prog E ε α).run h s = (.ok a, s) := rfl

@[simp] theorem run_raise (e : ε) (s : σ) : (raise e : Prog E ε α).run h s = (.error e, s) := rfl

@[simp] theorem run_call (c : E β) (k : β → Prog E ε α) (s : σ) :
    (call c k).run h s = (k (h.on c s).1).run h (h.on c s).2 := rfl

@[simp] theorem cut_zero (p : Prog E ε α) (s : σ) : p.cut h 0 s = s := by cases p <;> rfl

/-- A late enough cut is the whole run. -/
theorem cut_eq_run (p : Prog E ε α) (s : σ) : ∃ n, ∀ m, n ≤ m → p.cut h m s = (p.run h s).2 := by
  induction p generalizing s with
  | ret a => exact ⟨0, fun m _ => by cases m <;> rfl⟩
  | raise e => exact ⟨0, fun m _ => by cases m <;> rfl⟩
  | call c k ih =>
    obtain ⟨n, hn⟩ := ih (h.on c s).1 (h.on c s).2
    refine ⟨n + 1, fun m hm => ?_⟩
    cases m with
    | zero => omega
    | succ m => exact hn m (by omega)

/-- A run follows an abstract meaning of its calls, along a relation. -/
theorem run_abstract {τ : Type*} {Φ : Meaning τ E} (rel : τ → σ → Prop)
    (hΦ : ∀ {β : Type} (c : E β) (K : β → τ → Prop) t s, rel t s → Φ c K t →
      ∃ t', K (h.on c s).1 t' ∧ rel t' (h.on c s).2)
    {Q : Except ε α → τ → Prop} {p : Prog E ε α} {t : τ} {s : σ} (hp : p.wp Φ Q t) (hr : rel t s) :
    ∃ t', Q (p.run h s).1 t' ∧ rel t' (p.run h s).2 := by
  induction p generalizing t s with
  | ret a => exact ⟨t, hp, hr⟩
  | raise e => exact ⟨t, hp, hr⟩
  | call c k ih =>
    obtain ⟨t', hk, hrel⟩ := hΦ c _ t s hr hp
    exact ih _ hk hrel

/-- Two handlers that answer a program's calls alike along a relation run it alike along it. -/
theorem run_together {τ : Type*} (g : Handler τ E) (rel : σ → τ → Prop) (A : {β : Type} → E β → Prop)
    (hon : ∀ {β : Type} (c : E β) s t, A c → rel s t →
      (h.on c s).1 = (g.on c t).1 ∧ rel (h.on c s).2 (g.on c t).2)
    {p : Prog E ε α} (hp : p.calls A) {s : σ} {t : τ} (hr : rel s t) :
    (p.run h s).1 = (p.run g t).1 ∧ rel (p.run h s).2 (p.run g t).2 := by
  induction p generalizing s t with
  | ret a => exact ⟨rfl, hr⟩
  | raise e => exact ⟨rfl, hr⟩
  | call c k ih =>
    obtain ⟨heq, hrel⟩ := hon c s t hp.1 hr
    rw [run_call, run_call, heq]
    exact ih _ (hp.2 _) hrel

theorem calls_any (p : Prog E ε α) : p.calls fun _ => True := by
  induction p with
  | ret a => trivial
  | raise e => trivial
  | call c k ih => exact ⟨trivial, ih⟩

/-- Two handlers that answer every call alike along a relation run a program alike along it. -/
theorem run_related {τ : Type*} (g : Handler τ E) (rel : σ → τ → Prop)
    (hon : ∀ {β : Type} (c : E β) s t, rel s t →
      (h.on c s).1 = (g.on c t).1 ∧ rel (h.on c s).2 (g.on c t).2)
    (p : Prog E ε α) {s : σ} {t : τ} (hr : rel s t) :
    (p.run h s).1 = (p.run g t).1 ∧ rel (p.run h s).2 (p.run g t).2 :=
  run_together h g rel (fun _ => True) (fun c s t _ => hon c s t) p.calls_any hr

theorem cut_related {τ : Type*} (g : Handler τ E) (rel : σ → τ → Prop)
    (hon : ∀ {β : Type} (c : E β) s t, rel s t →
      (h.on c s).1 = (g.on c t).1 ∧ rel (h.on c s).2 (g.on c t).2)
    (n : Nat) (p : Prog E ε α) {s : σ} {t : τ} (hr : rel s t) : rel (p.cut h n s) (p.cut g n t) := by
  induction n generalizing p s t with
  | zero => simpa using hr
  | succ n ih =>
    cases p with
    | ret a => exact hr
    | raise e => exact hr
    | call c k =>
      obtain ⟨heq, hrel⟩ := hon c s t hr
      rw [cut, cut, heq]
      exact ih _ hrel

end Prog

/-! ## Calls made only where they are allowed -/

namespace Handler
variable {E : Type → Type} {ε α β : Type} {σ : Type*} (h : Handler σ E)

/-- A call made in a state where `A` allows it. -/
def under (A : {β : Type} → E β → σ → Prop) : Prog.Meaning σ E :=
  fun c K s => A c s ∧ K (h.on c s).1 (h.on c s).2

@[simp] theorem under_iff (A : {β : Type} → E β → σ → Prop) (c : E β) (K : β → σ → Prop) (s : σ) :
    h.under A c K s ↔ A c s ∧ K (h.on c s).1 (h.on c s).2 := Iff.rfl

theorem under_mono (A : {β : Type} → E β → σ → Prop) : Prog.Meaning.Mono (h.under A) :=
  fun _ _ _ _ hK hc => ⟨hc.1, hK _ _ hc.2⟩

/-- A call for which an invariant `I` is at hand where `A` must be shown. -/
def given (I : σ → Prop) (A : {β : Type} → E β → σ → Prop) : Prog.Meaning σ E :=
  fun c K s => I s → A c s ∧ K (h.on c s).1 (h.on c s).2

@[simp] theorem given_iff (I : σ → Prop) (A : {β : Type} → E β → σ → Prop) (c : E β)
    (K : β → σ → Prop) (s : σ) :
    h.given I A c K s ↔ (I s → A c s ∧ K (h.on c s).1 (h.on c s).2) := Iff.rfl

theorem given_mono (I : σ → Prop) (A : {β : Type} → E β → σ → Prop) :
    Prog.Meaning.Mono (h.given I A) :=
  fun _ _ _ _ hK hc hi => ⟨(hc hi).1, hK _ _ (hc hi).2⟩

/-- A call with no condition on it. -/
abbrev free : Prog.Meaning σ E := h.under fun _ _ => True

end Handler

namespace Prog
variable {E : Type → Type} {ε α β : Type} {σ : Type*} {h : Handler σ E}
  {A : {β : Type} → E β → σ → Prop} {Q Q' : Except ε α → σ → Prop} {p : Prog E ε α} {s : σ}

/-- The postcondition holds of the run. -/
theorem run_post (hp : p.wp (h.under A) Q s) : Q (p.run h s).1 (p.run h s).2 := by
  induction p generalizing s with
  | ret a => exact hp
  | raise e => exact hp
  | call c k ih => exact ih _ hp.2

theorem wp_free (p : Prog E ε α) (s : σ) : p.wp h.free Q s ↔ Q (p.run h s).1 (p.run h s).2 := by
  induction p generalizing s with
  | ret a => exact Iff.rfl
  | raise e => exact Iff.rfl
  | call c k ih => simp only [wp_call, Handler.under_iff, true_and, run_call, ih]

/-- An invariant that every allowed call keeps survives a cut anywhere. -/
theorem cut_keeps {I : σ → Prop} (hI : ∀ {β : Type} (c : E β) s, A c s → I s → I (h.on c s).2)
    (hp : p.wp (h.under A) Q s) (hs : I s) (n : Nat) : I (p.cut h n s) := by
  induction n generalizing p s with
  | zero => simpa using hs
  | succ n ih =>
    cases p with
    | ret a => exact hs
    | raise e => exact hs
    | call c k => exact ih hp.2 (hI c s hp.1 hs)

/-- An invariant that every allowed call keeps holds after the run. -/
theorem run_keeps {I : σ → Prop} (hI : ∀ {β : Type} (c : E β) s, A c s → I s → I (h.on c s).2)
    (hp : p.wp (h.under A) Q s) (hs : I s) : I (p.run h s).2 := by
  obtain ⟨n, hn⟩ := cut_eq_run h p s
  rw [← hn n (Nat.le_refl n)]
  exact cut_keeps hI hp hs n

/-- What was shown with an invariant at hand holds where the invariant does, and it holds after. -/
theorem wp_given {I : σ → Prop} (hI : ∀ {β : Type} (c : E β) s, A c s → I s → I (h.on c s).2)
    (hp : p.wp (h.given I A) Q s) (hs : I s) : p.wp (h.under A) (fun x t => Q x t ∧ I t) s := by
  induction p generalizing s with
  | ret a => exact ⟨hp, hs⟩
  | raise e => exact ⟨hp, hs⟩
  | call c k ih =>
    obtain ⟨ha, hk⟩ := hp hs
    exact ⟨ha, ih _ hk (hI c s ha hs)⟩

theorem wp_under_mono {B : {β : Type} → E β → σ → Prop} (hAB : ∀ {β : Type} (c : E β) s, A c s → B c s)
    (hQ : ∀ x t, Q x t → Q' x t) (hp : p.wp (h.under A) Q s) : p.wp (h.under B) Q' s := by
  induction p generalizing s with
  | ret a => exact hQ _ _ hp
  | raise e => exact hQ _ _ hp
  | call c k ih => exact ⟨hAB c s hp.1, ih _ hp.2⟩

/-- A run of allowed calls follows an abstract meaning of its calls, along a relation. -/
theorem run_follows {τ : Type*} {Φ : Meaning τ E} (rel : τ → σ → Prop)
    (hΦ : ∀ {β : Type} (c : E β) (K : β → τ → Prop) t s, rel t s → A c s → Φ c K t →
      ∃ t', K (h.on c s).1 t' ∧ rel t' (h.on c s).2)
    {R : Except ε α → τ → Prop} {t : τ} (hp : p.wp (h.under A) Q s) (ha : p.wp Φ R t) (hr : rel t s) :
    ∃ t', R (p.run h s).1 t' ∧ rel t' (p.run h s).2 := by
  induction p generalizing t s with
  | ret a => exact ⟨t, ha, hr⟩
  | raise e => exact ⟨t, ha, hr⟩
  | call c k ih =>
    obtain ⟨t', hk, hrel⟩ := hΦ c _ t s hr hp.1 ha
    exact ih _ hp.2 hk hrel

/-- So does a run cut short. -/
theorem cut_follows {τ : Type*} {Φ : Meaning τ E} (rel : τ → σ → Prop)
    (hΦ : ∀ {β : Type} (c : E β) (K : β → τ → Prop) t s, rel t s → A c s → Φ c K t →
      ∃ t', K (h.on c s).1 t' ∧ rel t' (h.on c s).2)
    {R : Except ε α → τ → Prop} {t : τ} (hp : p.wp (h.under A) Q s) (ha : p.wp Φ R t) (hr : rel t s)
    (n : Nat) : ∃ t', rel t' (p.cut h n s) := by
  induction n generalizing p t s with
  | zero => exact ⟨t, by simpa using hr⟩
  | succ n ih =>
    cases p with
    | ret a => exact ⟨t, hr⟩
    | raise e => exact ⟨t, hr⟩
    | call c k =>
      obtain ⟨t', hk, hrel⟩ := hΦ c _ t s hr hp.1 ha
      exact ih hp.2 hk hrel

/-- Calls that are allowed in every state are allowed along a run. -/
theorem wp_of_calls {B : {β : Type} → E β → Prop} (hp : p.calls B) (s : σ) :
    p.wp (h.under fun c _ => B c) (fun _ _ => True) s := by
  induction p generalizing s with
  | ret a => trivial
  | raise e => trivial
  | call c k ih => exact ⟨hp.1, ih _ (hp.2 _) _⟩

theorem wp_and {B : {β : Type} → E β → σ → Prop} (hp : p.wp (h.under A) Q s)
    (hq : p.wp (h.under B) Q' s) :
    p.wp (h.under fun c s => A c s ∧ B c s) (fun x t => Q x t ∧ Q' x t) s := by
  induction p generalizing s with
  | ret a => exact ⟨hp, hq⟩
  | raise e => exact ⟨hp, hq⟩
  | call c k ih => exact ⟨⟨hp.1, hq.1⟩, ih _ hp.2 hq.2⟩

end Prog

end Effects
