import Mathlib.Tactic.Common
import Mathlib.Logic.Basic

/-!
# Programs over a signature of calls

A program is a tree: it returns, raises, or makes one call and goes on with the answer.

* `Prog E ε α` : programs over the calls `E`, raising `ε`, returning `α`;
* `Prog.handle` : `try … except`;
* `Prog.interp` : every call of `E` replaced by a program over another signature;
* `Prog.calls` : which calls a program makes;
* `Prog.wp` : the weakest precondition, for any meaning `Φ` of one call
  (`wp_bind`, `wp_handle`, `wp_interp`, `wp_interp_of`, `wp_mono`).
-/

namespace Effects

/-- A program over the calls `E`. -/
inductive Prog (E : Type → Type) (ε α : Type) : Type 1 where
  | ret (a : α)
  | raise (e : ε)
  | call {β : Type} (c : E β) (k : β → Prog E ε α)

namespace Prog
variable {E F : Type → Type} {ε α β : Type}

/-- One call, its answer returned. -/
def perform (c : E β) : Prog E ε β := .call c .ret

def bind : Prog E ε α → (α → Prog E ε β) → Prog E ε β
  | .ret a, f => f a
  | .raise e, _ => .raise e
  | .call c k, f => .call c fun r => (k r).bind f

instance : Monad (Prog E ε) where
  pure := .ret
  bind := Prog.bind

/-- `try p except e: h e`. -/
def handle : Prog E ε α → (ε → Prog E ε α) → Prog E ε α
  | .ret a, _ => .ret a
  | .raise e, h => h e
  | .call c k, h => .call c fun r => (k r).handle h

/-- Every call answered by a program over another signature. -/
def interp (f : {β : Type} → E β → Prog F ε β) : Prog E ε α → Prog F ε α
  | .ret a => .ret a
  | .raise e => .raise e
  | .call c k => (f c).bind fun r => (k r).interp f

@[simp] theorem pure_eq (a : α) : (pure a : Prog E ε α) = .ret a := rfl

@[simp] theorem bind_eq (p : Prog E ε α) (f : α → Prog E ε β) : p >>= f = p.bind f := rfl

@[simp] theorem ret_bind (a : α) (f : α → Prog E ε β) : (ret a : Prog E ε α).bind f = f a := rfl

@[simp] theorem raise_bind (e : ε) (f : α → Prog E ε β) :
    (raise e : Prog E ε α).bind f = .raise e := rfl

@[simp] theorem perform_bind (c : E β) (f : β → Prog E ε α) : (perform c).bind f = .call c f := rfl

@[simp] theorem call_bind (c : E β) (k : β → Prog E ε α) {γ : Type} (f : α → Prog E ε γ) :
    (call c k).bind f = .call c fun r => (k r).bind f := rfl

theorem bind_assoc {γ : Type} (p : Prog E ε α) (f : α → Prog E ε β) (g : β → Prog E ε γ) :
    (p.bind f).bind g = p.bind fun a => (f a).bind g := by
  induction p with
  | ret a => rfl
  | raise e => rfl
  | call c k ih => simp only [bind, ih]

/-- Every call the program makes is one of `A`, whatever the calls before it answer. -/
def calls (A : {β : Type} → E β → Prop) : Prog E ε α → Prop
  | .ret _ => True
  | .raise _ => True
  | .call c k => A c ∧ ∀ r, (k r).calls A

theorem calls_mono {A B : {β : Type} → E β → Prop} (hAB : ∀ {β : Type} (c : E β), A c → B c)
    {p : Prog E ε α} (hp : p.calls A) : p.calls B := by
  induction p with
  | ret a => trivial
  | raise e => trivial
  | call c k ih => exact ⟨hAB c hp.1, fun r => ih r (hp.2 r)⟩

theorem calls_bind {A : {β : Type} → E β → Prop} {p : Prog E ε α} {f : α → Prog E ε β}
    (hp : p.calls A) (hf : ∀ a, (f a).calls A) : (p.bind f).calls A := by
  induction p with
  | ret a => exact hf a
  | raise e => trivial
  | call c k ih => exact ⟨hp.1, fun r => ih r (hp.2 r)⟩

/-! ## Weakest preconditions -/

/-- What one call means: from what must hold of its answer and the state it leaves, what must
hold of the state it is made in. -/
abbrev Meaning (σ : Type*) (E : Type → Type) := ∀ {β : Type}, E β → (β → σ → Prop) → σ → Prop

/-- A meaning is monotone in what must hold afterwards. -/
def Meaning.Mono {σ : Type*} (Φ : Meaning σ E) : Prop :=
  ∀ {β : Type} (c : E β) {K K' : β → σ → Prop} {s : σ},
    (∀ r t, K r t → K' r t) → Φ c K s → Φ c K' s

section WeakestPre
variable {σ : Type*} (Φ : Meaning σ E)

/-- The weakest precondition of `Q` for a program whose calls mean `Φ`. -/
def wp (Q : Except ε α → σ → Prop) : Prog E ε α → σ → Prop
  | .ret a => Q (.ok a)
  | .raise e => Q (.error e)
  | .call c k => Φ c fun r => wp Q (k r)

variable {Φ} {Q Q' : Except ε α → σ → Prop}

@[simp] theorem wp_ret (a : α) (s : σ) : wp Φ Q (.ret a : Prog E ε α) s ↔ Q (.ok a) s := Iff.rfl

@[simp] theorem wp_raise (e : ε) (s : σ) : wp Φ Q (.raise e : Prog E ε α) s ↔ Q (.error e) s :=
  Iff.rfl

@[simp] theorem wp_call (c : E β) (k : β → Prog E ε α) (s : σ) :
    wp Φ Q (.call c k) s ↔ Φ c (fun r => wp Φ Q (k r)) s := Iff.rfl

@[simp] theorem wp_perform {Q : Except ε β → σ → Prop} (c : E β) (s : σ) :
    wp Φ Q (perform c) s ↔ Φ c (fun r => Q (.ok r)) s := Iff.rfl

/-- What must hold after the first half of a sequence. -/
def thenWp (Φ : Meaning σ E) (Q : Except ε β → σ → Prop) (f : α → Prog E ε β) :
    Except ε α → σ → Prop
  | .ok a => wp Φ Q (f a)
  | .error e => Q (.error e)

/-- What must hold after the body of a `try`. -/
def exceptWp (Φ : Meaning σ E) (Q : Except ε α → σ → Prop) (h : ε → Prog E ε α) :
    Except ε α → σ → Prop
  | .ok a => Q (.ok a)
  | .error e => wp Φ Q (h e)

@[simp] theorem thenWp_ok {Q : Except ε β → σ → Prop} {f : α → Prog E ε β} (a : α) :
    thenWp Φ Q f (.ok a) = wp Φ Q (f a) := rfl

@[simp] theorem thenWp_error {Q : Except ε β → σ → Prop} {f : α → Prog E ε β} (e : ε) :
    thenWp Φ Q f (.error e) = Q (.error e) := rfl

@[simp] theorem exceptWp_ok {h : ε → Prog E ε α} (a : α) :
    exceptWp Φ Q h (.ok a) = Q (.ok a) := rfl

@[simp] theorem exceptWp_error {h : ε → Prog E ε α} (e : ε) :
    exceptWp Φ Q h (.error e) = wp Φ Q (h e) := rfl

@[simp] theorem wp_bind {Q : Except ε β → σ → Prop} (p : Prog E ε α) (f : α → Prog E ε β) :
    wp Φ Q (p.bind f) = wp Φ (thenWp Φ Q f) p := by
  induction p with
  | ret a => rfl
  | raise e => rfl
  | call c k ih => simp only [bind, wp, ih]

@[simp] theorem wp_handle (p : Prog E ε α) (h : ε → Prog E ε α) :
    wp Φ Q (p.handle h) = wp Φ (exceptWp Φ Q h) p := by
  induction p with
  | ret a => rfl
  | raise e => rfl
  | call c k ih => simp only [handle, wp, ih]

/-- A call of an interpreted program means what its interpretation does. -/
theorem wp_interp {Ψ : Meaning σ F} (f : {β : Type} → E β → Prog F ε β) (p : Prog E ε α) :
    wp Ψ Q (p.interp f) =
      wp (fun c K => wp Ψ (fun
        | .ok r => K r
        | .error e => Q (.error e)) (f c)) Q p := by
  induction p with
  | ret a => rfl
  | raise e => rfl
  | call c k ih =>
    simp only [interp, wp_bind, wp]
    congr 1
    funext x
    cases x with
    | ok r => exact ih r
    | error e => rfl

theorem wp_mono (hΦ : Meaning.Mono Φ) (p : Prog E ε α) {s : σ}
    (h : ∀ x t, Q x t → Q' x t) (hp : wp Φ Q p s) : wp Φ Q' p s := by
  induction p generalizing s with
  | ret a => exact h _ _ hp
  | raise e => exact h _ _ hp
  | call c k ih => exact hΦ c (fun r t => ih r) hp

/-- A program goes by its precondition when each call is replaced by a program that does what the call
means. -/
theorem wp_interp_of {Ψ : Meaning σ F} {f : {β : Type} → E β → Prog F ε β} (hΦ : Meaning.Mono Φ)
    (hf : ∀ {β : Type} (c : E β) (K : β → σ → Prop) (s : σ), Φ c K s →
      wp Ψ (fun
        | .ok r => K r
        | .error e => Q (.error e)) (f c) s)
    {p : Prog E ε α} {s : σ} (hp : wp Φ Q p s) : wp Ψ Q (p.interp f) s := by
  rw [wp_interp]
  induction p generalizing s with
  | ret a => exact hp
  | raise e => exact hp
  | call c k ih => exact hf c _ s (hΦ c (fun r t => ih r) hp)

end WeakestPre

end Prog

end Effects
