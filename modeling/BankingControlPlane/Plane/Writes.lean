import BankingControlPlane.Plane.Sweeping

/-!
# What one whole operation writes

Seen from outside, an operation saves one intent or none. What it saves last is what remains.

* `Ends id S p s` : whatever its calls answer, `p` saves no intent but `id`, and when it ends the last
  save meets `S`;
* `waiting` : the states an operation takes an intent up in; `unfinished` : those it never leaves one in;
* `exec_writes` : both, for every operation but the sweep.
-/

namespace BankingControlPlane
open Effects

variable {env : Env} {α : Type} {id : String} {S : Option Intent → Prop} {s : Option Intent}
  {c : Intent}

/-- The states some operation takes an intent up in. -/
def waiting : State → Bool
  | .awaitingStepUp | .awaitingConfirmation | .unknown => true
  | _ => false

/-- The states between two saves of one operation. -/
def unfinished : State → Bool
  | .created | .validated | .authorized | .submitted => true
  | _ => false

/-! ## The last save -/

def lastSave : {β : Type} → PlaneCall β → Option Intent → Option Intent
  | _, .put i, _ => some i
  | _, _, s => s

/-- No intent but `id` is saved. -/
def SavesOnly (id : String) : {β : Type} → PlaneCall β → Prop
  | _, .put i => i.id = id
  | _, _ => True

/-- A call that may answer anything, of which only the save is kept. -/
def tracks (id : String) : Prog.Meaning (Option Intent) PlaneCall :=
  fun c K s => SavesOnly id c ∧ ∀ r, K r (lastSave c s)

theorem tracks_mono (id : String) : Prog.Meaning.Mono (tracks id) :=
  fun _ _ _ _ hK hc => ⟨hc.1, fun r => hK _ _ (hc.2 r)⟩

abbrev Ends (id : String) (S : Option Intent → Prop) (p : Plane α) (s : Option Intent) : Prop :=
  p.wp (tracks id) (fun _ => S) s

/-- The world after saves of `id` only, of which `s` was the last. -/
structure Tracked (id : String) (w₀ : World) (s : Option Intent) (w : World) : Prop where
  others : ∀ k, k ≠ id → w.row k = w₀.row k
  untouched : s = none → w.row id = w₀.row id
  last : ∀ i, s = some i → ∃ r, w.row id = some r ∧ r.state = i.state

theorem Tracked.serve {w₀ w : World} {kind : StoreKind} (h : Tracked id w₀ s w) {β : Type}
    (c : PlaneCall β) (hc : SavesOnly id c) :
    Tracked id w₀ (lastSave c s) (serve env kind c w).2 := by
  cases c with
  | put i =>
    have hid : i.id = id := hc
    refine ⟨fun k hk => ?_, fun hn => (by cases hn), fun j hj => ?_⟩
    · have hrow : (w.put i).row k = w.row k := by
        rw [World.row_put, if_neg fun heq => hk (heq.symm.trans hid)]
      exact hrow.trans (h.others k hk)
    · obtain rfl := Option.some.inj hj
      exact ⟨w.saved i, by simp only [BankingControlPlane.serve, World.row_put, hid, if_true],
        World.saved_state w i⟩
  | _ => exact ⟨h.others, h.untouched, h.last⟩

/-- What an operation replies and leaves, from any world with these rows. -/
theorem tracks_run {Q : Except Exn α → Option Intent → Prop} {p : Plane α} (hp : p.wp (tracks id) Q none)
    (env : Env) (kind : StoreKind) {w₀ w : World} (hrows : ∀ k, w.row k = w₀.row k) :
    ∃ s, Q (p.run (handler env kind) w).1 s ∧ Tracked id w₀ s (p.run (handler env kind) w).2 :=
  Prog.run_abstract (handler env kind) (Tracked id w₀)
    (fun c _ s _ hs hc => ⟨lastSave c s, hc.2 _, hs.serve c hc.1⟩) hp
    ⟨fun k _ => hrows k, fun _ => hrows id, fun i hi => by cases hi⟩

/-- The tail of an operation, run from any world with these rows. -/
theorem Ends.run {p : Plane α} (hp : Ends id S p none) (env : Env) (kind : StoreKind) {w₀ w : World}
    (hrows : ∀ k, w.row k = w₀.row k) :
    ∃ s, S s ∧ Tracked id w₀ s (p.run (handler env kind) w).2 :=
  tracks_run hp env kind hrows

/-- A call that saves only what meets `P`. -/
def Saving (P : Intent → Prop) : {β : Type} → PlaneCall β → Prop
  | _, .put i => P i
  | _, _ => True

/-- A program that saves nothing ends without a save. -/
theorem ends_reading {p : Plane α} (hp : p.calls (Saving fun _ => False)) : Ends id (· = none) p none := by
  induction p with
  | ret a => rfl
  | raise e => rfl
  | call c k ih =>
    cases c with
    | put i => exact hp.1.elim
    | _ => exact ⟨trivial, fun r => ih r (hp.2 r)⟩

/-! ## The programs an operation is made of -/

theorem ends_replying {p : Plane α} {f : α → Reply} (hp : Ends id S p s) :
    Ends id S (replying f p) s := by
  simp only [replying, Prog.bind_eq, Prog.pure_eq, Ends, Prog.wp_bind]
  refine Prog.wp_mono (tracks_mono id) p (fun x t ht => ?_) hp
  cases x <;> exact ht

theorem ends_statusOf (hs : S s) {i : Intent} {message : String} {status : Option Status} :
    Ends id S (statusOf i message status) s := by
  simp only [statusOf, summary, Prog.bind_eq, Prog.pure_eq, Prog.perform_bind, Prog.call_bind,
    Prog.ret_bind]
  exact ⟨trivial, fun _ => hs⟩

variable {Q : Except Exn α → Option Intent → Prop}

theorem ends_summary {i : Intent} {f : Summary → Plane α} (hf : ∀ x, (f x).wp (tracks id) Q s) :
    ((summary i).bind f).wp (tracks id) Q s := by
  simp only [summary, Prog.bind_eq, Prog.pure_eq, Prog.perform_bind, Prog.call_bind, Prog.ret_bind]
  exact ⟨trivial, fun _ => hf _⟩

theorem ends_call {β : Type} {pc : PlaneCall β} {k : β → Plane α} (hc : SavesOnly id pc)
    (hk : ∀ r, (k r).wp (tracks id) Q (lastSave pc s)) : (Prog.call pc k).wp (tracks id) Q s := ⟨hc, hk⟩

theorem ends_assign {f : Intent → Plane α} (hf : (f c).wp (tracks id) Q s) :
    ((assign c).bind f).wp (tracks id) Q s := by
  simp only [assign, Prog.bind_eq, Prog.pure_eq, Prog.perform_bind, Prog.call_bind, Prog.ret_bind]
  exact ⟨trivial, fun _ => hf⟩

theorem ends_move {event : Hop} {target : State} {detail : Detail} {f : Intent → Plane α}
    (hid : c.id = id) (edge : TRANSITIONS c.state event = some target)
    (hf : (f { c with state := target }).wp (tracks id) Q (some { c with state := target })) :
    ((move c event detail).bind f).wp (tracks id) Q s := by
  simp only [move, transition, edge, assign, Prog.bind_eq, Prog.pure_eq, Prog.perform_bind,
    Prog.call_bind, Prog.ret_bind]
  exact ⟨trivial, fun _ => ⟨trivial, fun _ => ⟨hid, fun _ => hf⟩⟩⟩

theorem ends_saveReason {reason : String} {f : Intent → Plane α} (hid : c.id = id)
    (hf : (f { c with reason := reason }).wp (tracks id) Q (some { c with reason := reason })) :
    ((saveReason c reason).bind f).wp (tracks id) Q s := by
  simp only [saveReason, assign, Prog.bind_eq, Prog.pure_eq, Prog.perform_bind, Prog.call_bind,
    Prog.ret_bind]
  exact ⟨trivial, fun _ => ⟨hid, fun _ => hf⟩⟩

/-- The states policy sends a validated intent to. -/
def decided (assurance : Assurance) : State → Prop
  | .cancelled | .awaitingConfirmation => True
  | .awaitingStepUp => assurance ≠ .strong
  | _ => False

theorem ends_decideOn (hid : c.id = id) (hstate : c.state = .validated)
    (hS : ∀ i, decided c.context.assurance i.state → S (some i)) :
    Ends id S (decideOn env c) s := by
  have edge : ∀ event, TRANSITIONS c.state event = TRANSITIONS .validated event :=
    fun _ => by rw [hstate]
  have hcancelled : decided c.context.assurance .cancelled := trivial
  have hconfirm : decided c.context.assurance .awaitingConfirmation := trivial
  have hreject : ∀ detail reason message, Ends id S ((move c .reject detail).bind fun i =>
      (saveReason i reason).bind fun i => statusOf i message (some .deny)) s := fun _ _ _ =>
    ends_move hid (edge .reject) (ends_saveReason hid (ends_statusOf (hS _ hcancelled)))
  simp only [decideOn, Prog.bind_eq, Prog.perform_bind]
  refine ends_call trivial fun paid => ends_call trivial fun _ => ends_call trivial fun moment =>
    ends_call trivial fun _ => ?_
  simp only [lastSave]
  generalize assessRisk c.action c.context paid = risk
  rcases evaluate_decision env.zone c.action c.context risk moment with hd | hd | hd
  · simp only [applyVerdict, hd, Prog.bind_eq]
    exact hreject _ _ _
  · simp only [applyVerdict, hd, Prog.bind_eq, Prog.pure_eq]
    exact ends_move hid (edge .requireStepUp) (ends_summary fun _ => hS _ (evaluate_stepUp_weak hd))
  · simp only [applyVerdict, hd, Prog.bind_eq, Prog.pure_eq, Prog.perform_bind]
    refine ends_call trivial fun token => ends_call trivial fun issuedAt => ?_
    exact ends_assign (ends_move hid (edge .awaitConfirmation) (ends_summary fun _ => hS _ hconfirm))

/-- The states an execution ends in. -/
def executed : State → Bool
  | .completed | .failed | .unknown => true
  | _ => false

theorem ends_execute (hid : c.id = id) (hstate : c.state = .authorized)
    (hS : ∀ i, executed i.state = true → S (some i)) : Ends id S (execute c) s := by
  have edge : TRANSITIONS c.state .submit = some .submitted := by rw [hstate]; rfl
  simp only [execute, Prog.bind_eq, Prog.perform_bind]
  refine ends_move hid edge (ends_call trivial fun _ => ends_call trivial fun answer => ?_)
  cases answer with
  | ok receipt =>
    simp only [executeAnswer, Prog.bind_eq, Prog.perform_bind]
    exact ends_assign (ends_call trivial fun _ => ends_move hid rfl (ends_statusOf (hS _ rfl)))
  | error e =>
    cases e with
    | timeout message =>
      simp only [executeAnswer, Prog.bind_eq, Prog.perform_bind]
      exact ends_call trivial fun _ => ends_move hid rfl (ends_statusOf (hS _ rfl))
    | error message =>
      simp only [executeAnswer, Prog.bind_eq, Prog.perform_bind]
      exact ends_call trivial fun _ => ends_move hid rfl (ends_assign (ends_statusOf (hS _ rfl)))

/-! ## Programs that only read -/

section Saving
variable {P : Intent → Prop}

theorem saving_statusOf {i : Intent} {message : String} {status : Option Status} :
    (statusOf i message status).calls (Saving P) := by
  simp only [statusOf, summary, Prog.bind_eq, Prog.pure_eq, Prog.perform_bind, Prog.call_bind,
    Prog.ret_bind]
  exact ⟨trivial, fun _ => trivial⟩

theorem saving_explain (ctx : Context) (intentId : String) :
    (explain ctx intentId).calls (Saving P) := by
  simp only [explain, Prog.bind_eq, Prog.pure_eq, Prog.perform_bind]
  exact ⟨trivial, fun _ => trivial⟩

theorem saving_query (ctx : Context) (action : ReadAction) : (query ctx action).calls (Saving P) := by
  simp only [query, Prog.bind_eq, Prog.pure_eq, Prog.perform_bind]
  refine ⟨trivial, fun rid => ⟨trivial, fun _ => ?_⟩⟩
  split_ifs
  · exact ⟨trivial, fun _ => trivial⟩
  · cases action with
    | getBalance accountId =>
      simp only [readAnswer, Prog.bind_eq, Prog.pure_eq, Prog.perform_bind, Prog.call_bind]
      refine ⟨trivial, fun balance => ?_⟩
      cases balance with
      | error message => trivial
      | ok amount => exact ⟨trivial, fun _ => trivial⟩
    | getCardTransactions days =>
      simp only [readAnswer, Prog.bind_eq, Prog.pure_eq, Prog.perform_bind, Prog.call_bind,
        Prog.ret_bind]
      exact ⟨trivial, fun _ => ⟨trivial, fun _ => trivial⟩⟩

end Saving

/-! ## The operations, once they have read the intent -/

theorem ends_confirmAuthorized {ctx : Context} {token : String} (hid : c.id = id)
    (hstate : c.state = .awaitingConfirmation) (hS : ∀ i, executed i.state = true → S (some i)) :
    Ends id S (confirmAuthorized ctx token c) s := by
  have edge : TRANSITIONS c.state .confirm = some .authorized := by rw [hstate]; rfl
  simp only [confirmAuthorized, Prog.bind_eq, Prog.perform_bind]
  refine ends_call trivial fun instant => ends_assign ?_
  refine ends_call hid fun _ => ends_call trivial fun _ => ?_
  exact ends_move hid edge (ends_call trivial fun _ => ends_execute hid rfl hS)

/-- An expired token cancels the intent. -/
theorem ends_confirmExpired (hid : c.id = id) (hstate : c.state = .awaitingConfirmation)
    (hS : ∀ i : Intent, i.state = .cancelled → S (some i)) : Ends id S (confirmExpired c) s := by
  have edge : TRANSITIONS c.state .cancel = some .cancelled := by rw [hstate]; rfl
  simp only [confirmExpired, Prog.bind_eq, Prog.perform_bind]
  exact ends_call trivial fun _ => ends_move hid edge (ends_saveReason hid (ends_statusOf (hS _ rfl)))

theorem ends_expired {f : Bool → Plane α} (hf : ∀ b, (f b).wp (tracks id) Q s) :
    ((expired c).bind f).wp (tracks id) Q s := by
  unfold expired
  cases c.confirmationIssuedAt with
  | none => exact hf false
  | some issuedAt => exact ⟨trivial, fun _ => hf _⟩

/-- The body of a reconcile, of an intent that is `UNKNOWN`. -/
theorem ends_reconciled {receipt : Option Receipt} (hid : c.id = id) (hstate : c.state = .unknown)
    (hS : ∀ i : Intent, i.state = .completed ∨ i.state = .failed → S (some i)) :
    Ends id S (match receipt with
      | none => do
        let intent ← move c .fail (.reason "the bank did not record the payment")
        let intent ← saveReason intent "not executed"
        statusOf intent intent.reason
      | some receipt => do
        let intent ← assign { c with receipt := some receipt }
        let intent ← move intent .complete .reconciled
        statusOf intent "confirmed with the bank: the payment was made") s := by
  cases receipt with
  | none =>
    have edge : TRANSITIONS c.state .fail = some .failed := by rw [hstate]; rfl
    exact ends_move hid edge (ends_saveReason hid (ends_statusOf (hS _ (Or.inr rfl))))
  | some receipt =>
    have edge : TRANSITIONS c.state .complete = some .completed := by rw [hstate]; rfl
    exact ends_assign (ends_move hid edge (ends_statusOf (hS _ (Or.inl rfl))))

/-- The body of a step-up, of an intent that awaits one. -/
theorem ends_steppedUp (hid : c.id = id) (hstate : c.state = .awaitingStepUp)
    (hS : ∀ i, decided .strong i.state → S (some i)) :
    Ends id S (do
      let intent ← assign { c with context := { c.context with assurance := .strong } }
      call (.put intent)
      let instant ← call .now
      call (.append intent.id (.stepUp "simulated_mobile_biometric" instant))
      let intent ← move intent .stepUp
      decideOn env intent) s := by
  have edge : TRANSITIONS c.state .stepUp = some .validated := by rw [hstate]; rfl
  refine ends_assign (ends_call hid fun _ => ends_call trivial fun instant => ?_)
  exact ends_call trivial fun _ => ends_move hid edge (ends_decideOn hid rfl hS)

theorem ends_proposeTo {ctx : Context} {proposed : ProposedPix} {recipient : Contact}
    (hS : ∀ i, decided ctx.assurance i.state → S (some i)) :
    Ends id S (proposeTo env ctx proposed id recipient) s := by
  have hcancelled : decided ctx.assurance .cancelled := trivial
  simp only [proposeTo, Prog.bind_eq, Prog.pure_eq, Prog.perform_bind]
  refine ends_call trivial fun createdAt => ends_call rfl fun _ => ends_call trivial fun _ => ?_
  simp only [missingPreconditions, Prog.bind_eq, Prog.pure_eq, Prog.perform_bind, Prog.call_bind,
    Prog.ret_bind]
  refine ends_call trivial fun balance => ends_call trivial fun contact => ?_
  generalize (_ ++ _ : List String) = missing
  by_cases hmissing : missing ≠ []
  · rw [if_pos hmissing]
    exact ends_move rfl rfl (ends_assign (hS _ hcancelled))
  · rw [if_neg hmissing]
    exact ends_move rfl rfl (ends_decideOn rfl rfl hS)

/-! ## One operation -/

/-- One intent has been saved, or none: a new one, or one that was waiting; and it is left in no state
between two saves. -/
structure WroteOne (w w' : World) (id : String) : Prop where
  others : ∀ k, k ≠ id → w'.row k = w.row k
  this : w'.row id = w.row id ∨
    (∃ r, w'.row id = some r ∧ unfinished r.state = false) ∧
      ∀ r, w.row id = some r → waiting r.state = true

/-- The last save, if any, is of an intent that was waiting or new, and rests. -/
def Rests (w : World) (id : String) (s : Option Intent) : Prop :=
  ∀ i, s = some i → unfinished i.state = false ∧ ∀ r, w.row id = some r → waiting r.state = true

theorem Rests.none {w : World} : Rests w id none := fun _ hi => by cases hi

theorem Rests.some {w : World} {i : Intent} (hi : unfinished i.state = false)
    (hw : ∀ r, w.row id = .some r → waiting r.state = true) : Rests w id (.some i) := by
  intro j hj
  obtain rfl := Option.some.inj hj
  exact ⟨hi, hw⟩

/-- An operation whose tail rests wrote one intent. -/
theorem Ends.wroteOne {p : Plane α} {kind : StoreKind} {w₀ w : World}
    (hp : Ends id (Rests w₀ id) p Option.none) (hrows : ∀ k, w.row k = w₀.row k) :
    WroteOne w₀ (p.run (handler env kind) w).2 id := by
  obtain ⟨s, hs, ht⟩ := hp.run env kind hrows
  refine ⟨ht.others, ?_⟩
  cases s with
  | none => exact Or.inl (ht.untouched rfl)
  | some i =>
    obtain ⟨hi, hw⟩ := hs i rfl
    obtain ⟨r, hr, hstate⟩ := ht.last i rfl
    exact Or.inr ⟨⟨r, hr, hstate ▸ hi⟩, hw⟩

theorem decided_rests {a : Assurance} {st : State} (h : decided a st) : unfinished st = false := by
  cases st <;> first | rfl | exact h.elim

theorem executed_rests {st : State} (h : executed st = true) : unfinished st = false := by
  cases st <;> first | rfl | cases h

section Exec
variable {w : World}

theorem exec_replying {p : Plane α} {f : α → Reply} {kind : StoreKind} (w : World) :
    ((replying f p).run (handler env kind) w).2 = (p.run (handler env kind) w).2 := by
  rw [run_replying]

theorem exec_propose (h : Good env .postgres w) (ctx : Context) (proposed : ProposedPix)
    (text : String) :
    WroteOne w (exec env .postgres (.propose ctx proposed text) w).2 (newIdAt env "pix" w.drawn) := by
  have hfresh := h.inv.fresh_row
  have hnew : ∀ i : Intent, decided ctx.assurance i.state →
      Rests w (newIdAt env "pix" w.drawn) (some i) := fun i hi =>
    Rests.some (decided_rests hi) fun r hr => by rw [hfresh] at hr; cases hr
  rw [exec, Op.prog, exec_replying]
  simp only [propose, Prog.bind_eq, Prog.pure_eq, Prog.perform_bind]
  rw [Prog.run_call]
  change WroteOne w _ (newIdAt env "pix" w.drawn)
  refine Ends.wroteOne ?_ fun _ => rfl
  refine ends_call trivial fun _ => ends_call trivial fun _ => ends_call trivial fun found => ?_
  refine ends_call trivial fun _ => ?_
  rcases found with _ | ⟨recipient, _ | ⟨_, _⟩⟩
  · exact Rests.none
  · exact ends_proposeTo hnew
  · exact Rests.none

/-- A tail that is given the intent it asks for. -/
theorem Ends.ownedByCustomer {ctx : Context} {f : Option Intent → Plane α} {w₀ : World} {r : Intent}
    (hr : w.row id = some r) (hp : r.context.customerId = ctx.customerId)
    (hf : Ends id S (f (some r)) none) (hrows : w₀.rows = w.rows) : ∃ s, S s ∧ Tracked id w s
      (((ownedByCustomer ctx id).bind f).run (handler env .postgres) w₀).2 := by
  have hfind : ∀ k, w₀.row k = w.row k := fun k =>
    congrArg (fun rows => Keyed.find Intent.id rows k) hrows
  change ∃ s, S s ∧ Tracked id w s
    ((f ((w₀.row id).filter fun i => i.context.customerId = ctx.customerId)).run
      (handler env .postgres) w₀).2
  refine Ends.run ?_ env .postgres hfind
  simpa [hfind, hr, Option.filter, hp] using hf

theorem Ends.byConfirmation {ctx : Context} {token : String} {f : Option Intent → Plane α}
    {w₀ : World} {r : Intent} (hr : (w.rows.find? fun i => i.confirmationId = some token) = some r)
    (hp : samePrincipal r ctx) (hf : Ends id S (f (some r)) none) (hrows : w₀.rows = w.rows) :
    ∃ s, S s ∧ Tracked id w s
      (((byConfirmation ctx token).bind f).run (handler env .postgres) w₀).2 := by
  change ∃ s, S s ∧ Tracked id w s
    ((f ((w₀.rows.find? fun i => i.confirmationId = some token).filter fun i => samePrincipal i ctx)).run
      (handler env .postgres) w₀).2
  refine Ends.run ?_ env .postgres fun k => congrArg (fun rows => Keyed.find Intent.id rows k) hrows
  rw [hrows, hr]
  simpa [Option.filter, hp] using hf

/-- An operation that finds its intent by id. -/
theorem wroteOne_ownedByCustomer {ctx : Context} {intentId : String} {f : Option Intent → Plane α}
    (w₀ : World) (hrows : w₀.rows = w.rows)
    (hnone : Ends intentId (Rests w intentId) (f none) none)
    (hsome : ∀ r, w.row intentId = some r → Ends intentId (Rests w intentId) (f (some r)) none) :
    WroteOne w (((ownedByCustomer ctx intentId).bind f).run (handler env .postgres) w₀).2 intentId := by
  have hfind : ∀ k, w₀.row k = w.row k := fun k =>
    congrArg (fun rows => Keyed.find Intent.id rows k) hrows
  change WroteOne w
    ((f ((w₀.row intentId).filter fun i => i.context.customerId = ctx.customerId)).run
      (handler env .postgres) w₀).2 intentId
  refine Ends.wroteOne ?_ hfind
  rw [hfind]
  cases hr : w.row intentId with
  | none => exact hnone
  | some r =>
    by_cases hp : r.context.customerId = ctx.customerId
    · simpa [Option.filter, hp] using hsome r hr
    · simpa [Option.filter, hp] using hnone

theorem exec_stepUp (ctx : Context) (intentId : String) :
    WroteOne w (exec env .postgres (.stepUp ctx intentId) w).2 intentId := by
  rw [exec, Op.prog, exec_replying]
  simp only [stepUp, Prog.bind_eq, Prog.pure_eq, Prog.perform_bind]
  refine wroteOne_ownedByCustomer _ rfl Rests.none fun r hr => ?_
  have hid : r.id = intentId := key_of_row hr
  dsimp only
  by_cases hstate : r.state = .awaitingStepUp
  · rw [if_neg (not_not.mpr hstate)]
    refine ends_steppedUp hid hstate fun i hi => Rests.some (decided_rests hi) fun r' hr' => ?_
    rw [← Option.some.inj (hr.symm.trans hr'), hstate]
    rfl
  · rw [if_pos hstate]
    exact ends_statusOf Rests.none

theorem exec_reconcile (ctx : Context) (intentId : String) :
    WroteOne w (exec env .postgres (.reconcile ctx intentId) w).2 intentId := by
  rw [exec, Op.prog, exec_replying]
  simp only [reconcile, Prog.bind_eq, Prog.pure_eq, Prog.perform_bind]
  refine wroteOne_ownedByCustomer _ rfl Rests.none fun r hr => ?_
  have hid : r.id = intentId := key_of_row hr
  dsimp only
  by_cases hstate : r.state = .unknown
  · rw [if_neg (not_not.mpr hstate)]
    refine ends_call trivial fun receipt => ends_call trivial fun _ => ?_
    refine ends_reconciled hid hstate fun i hi => Rests.some ?_ fun r' hr' => ?_
    · rcases hi with hi | hi <;> rw [hi] <;> rfl
    · rw [← Option.some.inj (hr.symm.trans hr'), hstate]
      rfl
  · rw [if_pos hstate]
    exact ends_statusOf Rests.none

/-- An operation that finds its intent by token. -/
theorem wroteOne_byConfirmation (h : Good env .postgres w) {ctx : Context} {token : String}
    {f : Option Intent → Plane α} (w₀ : World) (hrows : w₀.rows = w.rows)
    (hnone : ∀ id, Ends id (Rests w id) (f none) none)
    (hsome : ∀ r, w.row r.id = some r → Ends r.id (Rests w r.id) (f (some r)) none) :
    ∃ id, WroteOne w (((byConfirmation ctx token).bind f).run (handler env .postgres) w₀).2 id := by
  have hfind : ∀ k, w₀.row k = w.row k := fun k =>
    congrArg (fun rows => Keyed.find Intent.id rows k) hrows
  change ∃ id, WroteOne w
    ((f ((w₀.rows.find? fun i => i.confirmationId = some token).filter fun i => samePrincipal i ctx)).run
      (handler env .postgres) w₀).2 id
  rw [hrows]
  cases hr : w.rows.find? fun i => i.confirmationId = some token with
  | none => exact ⟨"", Ends.wroteOne (hnone _) hfind⟩
  | some r =>
    have hrow : w.row r.id = some r :=
      Keyed.find_of_mem Intent.id h.inv.nodup (List.mem_of_find?_eq_some hr)
    by_cases hp : samePrincipal r ctx
    · exact ⟨r.id, Ends.wroteOne (by simpa [Option.filter, hp] using hsome r hrow) hfind⟩
    · exact ⟨"", Ends.wroteOne (by simpa [Option.filter, hp] using hnone _) hfind⟩

theorem exec_cancel (h : Good env .postgres w) (ctx : Context) (token : String) :
    ∃ id, WroteOne w (exec env .postgres (.cancel ctx token) w).2 id := by
  rw [exec, Op.prog, exec_replying]
  simp only [cancel, Prog.bind_eq, Prog.pure_eq]
  refine wroteOne_byConfirmation h _ rfl (fun _ => Rests.none) fun r hr => ?_
  dsimp only
  cases edge : TRANSITIONS r.state .cancel with
  | none =>
    rw [attempt_move_none edge]
    exact ends_call trivial fun _ => ends_statusOf Rests.none
  | some target =>
    have hwas : waiting r.state = true ∧ target = .cancelled := by
      cases hs : r.state <;> rw [hs] at edge <;> cases edge <;> exact ⟨rfl, rfl⟩
    rw [attempt_move_some edge]
    refine ends_move rfl edge (ends_saveReason rfl (ends_statusOf (Rests.some ?_ fun r' hr' => ?_)))
    · rw [hwas.2]
      rfl
    · rw [← Option.some.inj (hr.symm.trans hr')]
      exact hwas.1

theorem exec_confirm (h : Good env .postgres w) (ctx : Context) (token : String) :
    ∃ id, WroteOne w (exec env .postgres (.confirm ctx token) w).2 id := by
  rw [exec, Op.prog, exec_replying]
  simp only [confirm, Prog.bind_eq, Prog.pure_eq, Prog.perform_bind]
  refine wroteOne_byConfirmation h _ rfl (fun _ => Rests.none) fun r hr => ?_
  dsimp only
  by_cases hdone : alreadyExecuted r.state = true
  · rw [if_pos hdone]
    exact ends_call trivial fun _ => ends_statusOf Rests.none
  rw [if_neg hdone]
  by_cases hstate : r.state = .awaitingConfirmation
  · rw [if_neg (not_not.mpr hstate)]
    have hwas : ∀ r', w.row r.id = some r' → waiting r'.state = true := fun r' hr' => by
      rw [← Option.some.inj (hr.symm.trans hr'), hstate]
      rfl
    refine ends_expired fun late => ?_
    cases late with
    | true => exact ends_confirmExpired rfl hstate fun i hi => Rests.some (by rw [hi]; rfl) hwas
    | false =>
      simp only [Bool.false_eq_true, if_false]
      split_ifs
      · exact ends_call trivial fun _ => ends_statusOf Rests.none
      · exact ends_confirmAuthorized rfl hstate fun i hi => Rests.some (executed_rests hi) hwas
  · rw [if_pos hstate]
    exact ends_statusOf Rests.none

/-- A program that saves nothing leaves every row. -/
theorem wroteOne_reads {p : Plane α} {w₀ : World} (hp : p.calls (Saving fun _ => False))
    (hrows : ∀ k, w₀.row k = w.row k) : WroteOne w (p.run (handler env .postgres) w₀).2 id := by
  refine Ends.wroteOne (Prog.wp_mono (tracks_mono id) p (fun _ t ht => ?_) (ends_reading hp)) hrows
  rw [ht]
  exact Rests.none

theorem exec_status (ctx : Context) (intentId : String) :
    WroteOne w (exec env .postgres (.status ctx intentId) w).2 intentId := by
  rw [exec, Op.prog, exec_replying]
  refine wroteOne_reads ?_ fun _ => rfl
  simp only [status, owned, Prog.bind_eq, Prog.pure_eq, Prog.perform_bind, Prog.call_bind,
    Prog.ret_bind]
  refine ⟨trivial, fun found => ?_⟩
  dsimp only
  generalize found.filter _ = found
  cases found with
  | none => trivial
  | some r => exact saving_statusOf

theorem exec_explain (ctx : Context) (intentId : String) :
    WroteOne w (exec env .postgres (.explain ctx intentId) w).2 intentId := by
  rw [exec, Op.prog, exec_replying]
  exact wroteOne_reads (saving_explain ctx intentId) fun _ => rfl

theorem exec_query (ctx : Context) (action : ReadAction) :
    WroteOne w (exec env .postgres (.query ctx action) w).2 "" := by
  rw [exec, Op.prog, exec_replying]
  exact wroteOne_reads (saving_query ctx action) fun _ => rfl

/-- **An operation takes up one intent that is waiting, or opens a new one, and leaves it at rest.** -/
theorem exec_writes (h : Good env .postgres w) {op : Op} (hop : op ≠ .sweep) :
    ∃ id, WroteOne w (exec env .postgres op w).2 id := by
  cases op with
  | propose ctx proposed text => exact ⟨_, exec_propose h ctx proposed text⟩
  | stepUp ctx intentId => exact ⟨_, exec_stepUp ctx intentId⟩
  | confirm ctx token => exact exec_confirm h ctx token
  | cancel ctx token => exact exec_cancel h ctx token
  | reconcile ctx intentId => exact ⟨_, exec_reconcile ctx intentId⟩
  | sweep => exact absurd rfl hop
  | status ctx intentId => exact ⟨_, exec_status ctx intentId⟩
  | explain ctx intentId => exact ⟨_, exec_explain ctx intentId⟩
  | query ctx action => exact ⟨_, exec_query ctx action⟩

/-- What a whole operation leaves of a row in an unfinished state: it was there. -/
theorem exec_unfinished {r : Intent} (h : Good env .postgres w) (o : Op) {k : String}
    (hr : (exec env .postgres o w).2.row k = some r) (hstate : unfinished r.state = true) :
    w.row k = some r := by
  by_cases ho : o = .sweep
  · subst ho
    rcases (swept_exec env w).1.rows k with heq | ⟨-, r', hr', hun⟩
    · exact heq ▸ hr
    · rw [Option.some.inj (hr.symm.trans hr'), hun] at hstate
      cases hstate
  · obtain ⟨id, hwrote⟩ := exec_writes h ho
    by_cases hk : k = id
    · subst hk
      rcases hwrote.this with heq | ⟨⟨r', hr', hrest⟩, -⟩
      · exact heq ▸ hr
      · rw [Option.some.inj (hr.symm.trans hr'), hrest] at hstate
        cases hstate
    · exact hwrote.others k hk ▸ hr

end Exec

end BankingControlPlane
