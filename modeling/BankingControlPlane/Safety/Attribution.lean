import BankingControlPlane.Plane.Sample

/-!
# Who acted, as far as the ledger tells

* `Errand` : the two operations another session of the customer may call;
* `Indistinct` : two worlds that differ at most in what an observer noted of them;
* `session_untold` : whatever the run, the session that ran an errand cannot be read off the ledger.
-/

namespace BankingControlPlane
open Effects

variable {env : Env} {kind : StoreKind}

/-- What a session other than the opener's may do to an intent of its customer. -/
inductive Errand where
  | stepUp (intentId : String)
  | reconcile (intentId : String)
deriving DecidableEq, Repr

def Errand.op (ctx : Context) : Errand → Op
  | .stepUp intentId => .stepUp ctx intentId
  | .reconcile intentId => .reconcile ctx intentId

/-- The same caller, in another session. -/
def Context.inSession (ctx : Context) (sessionId : String) : Context := { ctx with sessionId := sessionId }

/-- An errand is run, and then the rest of the run. -/
def runFrom (env : Env) (kind : StoreKind) (errand : Errand) (ctx : Context) (rest : List Step)
    (w : World) : World :=
  after env kind (.op (errand.op ctx) :: rest) w

/-- The ledger tells the session of the caller: a run that differs from this one in nothing but the
session of the errand leaves another ledger. -/
def Determined (env : Env) (kind : StoreKind) (errand : Errand) (ctx : Context) (rest : List Step)
    (w : World) : Prop :=
  ∀ sessionId, sessionId ≠ ctx.sessionId →
    (runFrom env kind errand (ctx.inSession sessionId) rest w).ledger ≠
      (runFrom env kind errand ctx rest w).ledger

def Entry.isTransition : Entry → Bool
  | .transition .. => true
  | _ => false

/-- The errand wrote a transition. -/
def Moved (env : Env) (kind : StoreKind) (errand : Errand) (ctx : Context) (w : World) : Prop :=
  ∃ event ∈ (exec env kind (errand.op ctx) w).2.ledger.drop w.ledger.length,
    event.entry.isTransition = true

/-! ## What is noted changes nothing -/

/-- The worlds differ at most in their history. -/
def Indistinct (w w' : World) : Prop := ∃ h, w' = { w with history := h }

theorem Indistinct.serve {w w' : World} (h : Indistinct w w') {β : Type} (c : PlaneCall β) :
    (serve env kind c w).1 = (serve env kind c w').1 ∧
      Indistinct (serve env kind c w).2 (serve env kind c w').2 := by
  obtain ⟨notes, rfl⟩ := h
  cases c with
  | put i => exact ⟨rfl, _, rfl⟩
  | append id e => exact ⟨rfl, _, rfl⟩
  | clock use => exact ⟨rfl, _, rfl⟩
  | createPix o => exact ⟨rfl, _, rfl⟩
  | unsettled states => cases kind <;> exact ⟨rfl, _, rfl⟩
  | get id => cases kind <;> exact ⟨rfl, _, rfl⟩
  | byConfirmation token => cases kind <;> exact ⟨rfl, _, rfl⟩
  | _ => exact ⟨rfl, _, rfl⟩

theorem Indistinct.note {w w' : World} (h : Indistinct w w') (o o' : Obs) :
    Indistinct (w.note o) (w'.note o') := by
  obtain ⟨notes, rfl⟩ := h
  exact ⟨_, rfl⟩

theorem Indistinct.next {w w' : World} (h : Indistinct w w') (s : Step) :
    Indistinct (s.next env kind w) (s.next env kind w') := by
  cases s with
  | op o =>
    exact (Prog.run_related (handler env kind) (handler env kind) Indistinct
      (fun c _ _ hr => hr.serve c) (o.prog env) (h.note _ _)).2
  | cut o n =>
    exact Prog.cut_related (handler env kind) (handler env kind) Indistinct
      (fun c _ _ hr => hr.serve c) n (o.prog env) (h.note _ _)
  | splice id columns =>
    obtain ⟨notes, rfl⟩ := h
    exact ⟨_, rfl⟩
  | bank b =>
    obtain ⟨notes, rfl⟩ := h
    exact ⟨_, rfl⟩

theorem Indistinct.after {w w' : World} (h : Indistinct w w') (steps : List Step) :
    Indistinct (after env kind steps w) (after env kind steps w') := by
  induction steps generalizing w w' with
  | nil => exact h
  | cons s rest ih => exact ih (h.next s)

/-! ## The caller's session -/

/-- An errand asks for the customer, and for nothing else of its context. -/
theorem Errand.prog_inSession (errand : Errand) (ctx : Context) (sessionId : String) :
    (errand.op (ctx.inSession sessionId)).prog env = (errand.op ctx).prog env := by
  cases errand <;> rfl

/-- The errand run in another session leaves the same world, but for who was noted to have begun it. -/
theorem indistinct_errand (errand : Errand) (ctx : Context) (sessionId : String) (w : World) :
    Indistinct (exec env kind (errand.op ctx) w).2
      (exec env kind (errand.op (ctx.inSession sessionId)) w).2 := by
  have hnote : Indistinct (w.note (.began (errand.op ctx)))
      (w.note (.began (errand.op (ctx.inSession sessionId)))) := ⟨_, rfl⟩
  unfold exec
  rw [Errand.prog_inSession]
  exact (Prog.run_related (handler env kind) (handler env kind) Indistinct
    (fun c _ _ hr => hr.serve c) _ hnote).2

/-- Whatever follows, table, ledger and bank end as they would have, had another session called. -/
theorem indistinct_runs (errand : Errand) (ctx : Context) (sessionId : String) (rest : List Step)
    (w : World) :
    Indistinct (runFrom env kind errand ctx rest w)
      (runFrom env kind errand (ctx.inSession sessionId) rest w) :=
  (indistinct_errand errand ctx sessionId w).after rest

/-- **No run's ledger tells the session of a step-up or a reconcile.** -/
theorem session_untold (env : Env) (kind : StoreKind) (errand : Errand) (ctx : Context)
    (rest : List Step) (w : World) :
    (∀ sessionId, (runFrom env kind errand (ctx.inSession sessionId) rest w).ledger =
      (runFrom env kind errand ctx rest w).ledger) ∧ ¬ Determined env kind errand ctx rest w := by
  have hledger : ∀ sessionId, (runFrom env kind errand (ctx.inSession sessionId) rest w).ledger =
      (runFrom env kind errand ctx rest w).ledger := by
    intro sessionId
    obtain ⟨notes, heq⟩ := @indistinct_runs env kind errand ctx sessionId rest w
    rw [heq]
  have hother : ctx.sessionId ++ "x" ≠ ctx.sessionId := by
    intro heq
    have hlength := congrArg String.length heq
    simp at hlength
  exact ⟨hledger, fun hdetermined => hdetermined _ hother (hledger _)⟩

/-! A proposal of R$ 1.500 awaits a step-up; another session of the customer provides it. -/

def awaitingWorld : World :=
  (exec (sampleEnv noon) .postgres (.propose { session with assurance := .medium }
    { recipient := "Renata", amount := money1500, named := renata_named } "pay") { bank := {} }).2

theorem step_up_untold : ¬ ∀ w, Reach (sampleEnv noon) .postgres (fun _ => True) (fun _ _ => True) w →
    ∀ errand ctx rest, Moved (sampleEnv noon) .postgres errand ctx w →
      Determined (sampleEnv noon) .postgres errand ctx rest w := by
  intro hclaim
  have hreach : Reach (sampleEnv noon) .postgres (fun _ => True) (fun _ _ => True) awaitingWorld :=
    (Reach.start {} trivial).op _ trivial
  have hmoved : Moved (sampleEnv noon) .postgres (.stepUp "pix_000000000000")
      (session.inSession "session_2") awaitingWorld := by
    unfold Moved
    decide +kernel
  exact (session_untold _ _ _ _ [] _).2 (hclaim _ hreach _ _ [] hmoved)

end BankingControlPlane
