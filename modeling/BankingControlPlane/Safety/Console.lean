import BankingControlPlane.Plane.Console
import BankingControlPlane.Safety.Stranded

/-!
# What an operator can rely on

* `Lists` : the listing is what waits on a person, each intent once, worst first, with its next step;
* `SettledByBook` : an intent that was `UNKNOWN` is left as the bank's book has it, which has not changed;
* `runbook` : the listing lists, and whoever follows it settles every `UNKNOWN` of it, whatever else
  happens meanwhile;
* `exit_codes` : what the exit codes of the two commands say, and what the commands never do.
-/

namespace BankingControlPlane
open Effects

variable {env : Env} {w : World} {customer : String}

/-! ## The listing -/

theorem Intent.before_total (i j : Intent) : i.before j ∨ j.before i := by
  unfold before
  rcases Nat.lt_trichotomy (ATTENTION_STATES.idxOf i.state) (ATTENTION_STATES.idxOf j.state) with h | h | h
  · exact Or.inl (Or.inl h)
  · rcases le_total i.createdAt j.createdAt with hle | hle
    · exact Or.inl (Or.inr ⟨h, hle⟩)
    · exact Or.inr (Or.inr ⟨h.symm, hle⟩)
  · exact Or.inr (Or.inl h)

theorem Intent.before_trans {i j k : Intent} (hij : i.before j) (hjk : j.before k) : i.before k := by
  unfold before at *
  rcases hij with hij | ⟨hij, hle⟩ <;> rcases hjk with hjk | ⟨hjk, hle'⟩
  · exact Or.inl (by omega)
  · exact Or.inl (by omega)
  · exact Or.inl (by omega)
  · exact Or.inr ⟨by omega, le_trans hle hle'⟩

instance : Std.Total Intent.before := ⟨Intent.before_total⟩

instance : IsTrans Intent Intent.before := ⟨fun _ _ _ => Intent.before_trans⟩

theorem mem_attention {found : List Intent} {i : Intent} :
    i ∈ attention customer found ↔ i ∈ found ∧ i.context.customerId = customer := by
  simp only [attention, List.mem_insertionSort, List.mem_filter, decide_eq_true_eq]

/-- What is listed, when nothing waits too. -/
theorem listed_eq (customer : String) (w : World) : Console.listed customer w =
    (attention customer (w.unsettled .postgres ATTENTION_STATES)).map ListedIntent.of := by
  unfold Console.listed Console.intents
  cases attention customer (w.unsettled .postgres ATTENTION_STATES) with
  | nil => rfl
  | cons i rest =>
    simp only [List.flatMap_cons]
    split_ifs
    · exact List.append_nil _
    · exact List.append_nil _

/-- What waits on a person has not ended, and no process is half-way through it. -/
theorem mem_attention_states (state : State) :
    state ∈ ATTENTION_STATES ↔ terminal state = false ∧ midway state = false := by
  cases state <;> decide

theorem nextStep_listed {state : State} (h : state ∈ ATTENTION_STATES) (id : String) :
    ∃ next, NEXT_STEP id state = some next := by
  cases state <;> first | exact ⟨_, rfl⟩ | exact absurd h (by decide)

/-- This customer's intents that wait on a person, each once, worst first, as they are stored and with what
they wait for. -/
structure Lists (customer : String) (w : World) (rows : List ListedIntent) : Prop where
  once : (rows.map ListedIntent.id).Nodup
  all : ∀ id, id ∈ rows.map ListedIntent.id ↔ ∃ r, w.row id = some r ∧ r.context.customerId = customer ∧
    terminal r.state = false ∧ midway r.state = false
  stored : ∀ row ∈ rows, ∃ r, w.row row.id = some r ∧ row = ListedIntent.of r ∧
    NEXT_STEP r.id r.state = some row.nextStep
  worstFirst : rows.Pairwise fun a b =>
    ATTENTION_STATES.idxOf a.state < ATTENTION_STATES.idxOf b.state ∨
      ATTENTION_STATES.idxOf a.state = ATTENTION_STATES.idxOf b.state ∧ a.created ≤ b.created

theorem mem_listed {row : ListedIntent} : row ∈ Console.listed customer w ↔
    ∃ r ∈ w.rows, r.state ∈ ATTENTION_STATES ∧ r.context.customerId = customer ∧
      ListedIntent.of r = row := by
  rw [listed_eq, List.mem_map]
  constructor
  · rintro ⟨r, hr, rfl⟩
    obtain ⟨hfound, hcustomer⟩ := mem_attention.mp hr
    obtain ⟨hmem, hstate⟩ := World.mem_unsettled.mp hfound
    exact ⟨r, hmem, hstate, hcustomer, rfl⟩
  · rintro ⟨r, hmem, hstate, hcustomer, rfl⟩
    exact ⟨r, mem_attention.mpr ⟨World.mem_unsettled.mpr ⟨hmem, hstate⟩, hcustomer⟩, rfl⟩

theorem Good.lists (h : Good env .postgres w) (customer : String) :
    Lists customer w (Console.listed customer w) where
  once := by
    have hids : (Console.listed customer w).map ListedIntent.id =
        (attention customer (w.unsettled .postgres ATTENTION_STATES)).map Intent.id := by
      rw [listed_eq, List.map_map]
      rfl
    rw [hids, attention]
    have hfound : ((w.unsettled .postgres ATTENTION_STATES).map Intent.id).Nodup :=
      nodup_unsettled (h.inv.nodup_intents .postgres) _
    refine ((List.perm_insertionSort _ _).map _).nodup_iff.mpr ?_
    exact hfound.sublist (List.filter_sublist.map _)
  all id := by
    constructor
    · rintro hid
      obtain ⟨row, hrow, rfl⟩ := List.mem_map.mp hid
      obtain ⟨r, hmem, hstate, hcustomer, rfl⟩ := mem_listed.mp hrow
      exact ⟨r, Keyed.find_of_mem Intent.id h.inv.nodup hmem, hcustomer, (mem_attention_states _).mp hstate⟩
    · rintro ⟨r, hr, hcustomer, hstate⟩
      refine List.mem_map.mpr ⟨ListedIntent.of r, mem_listed.mpr ⟨r, Keyed.mem_of_find Intent.id hr,
        (mem_attention_states _).mpr hstate, hcustomer, rfl⟩, key_of_row hr⟩
  stored row hrow := by
    obtain ⟨r, hmem, hstate, -, rfl⟩ := mem_listed.mp hrow
    obtain ⟨next, hnext⟩ := nextStep_listed hstate r.id
    refine ⟨r, Keyed.find_of_mem Intent.id h.inv.nodup hmem, rfl, ?_⟩
    simp only [ListedIntent.of, hnext, Option.getD_some]
  worstFirst := by
    rw [listed_eq, List.pairwise_map]
    exact List.pairwise_insertionSort Intent.before _

/-! ## Following it -/

/-- What an operation keeps, and a restart of the bank with its book too, a run of restarts keeps. -/
theorem Preserved.after {I : World → Prop} (hI : Preserved env .postgres I)
    (hbank : ∀ (w : World) (b : MockBank), b.payments = w.bank.payments → I w → I { w with bank := b })
    (h : Good env .postgres w) (hw : I w) {steps : List Step}
    (hsteps : Admitted env .postgres Restarts steps w) :
    Good env .postgres (after env .postgres steps w) ∧ I (after env .postgres steps w) := by
  induction steps generalizing w with
  | nil => exact ⟨h, hw⟩
  | cons s rest ih =>
    obtain ⟨hs, hrest⟩ := hsteps
    refine ih (h.step hs.sound) ?_ hrest
    cases s with
    | op o => exact hI.op h hw o
    | cut o calls => exact hI.cut h hw o calls
    | splice id columns => exact hs.elim
    | bank b => exact hbank w b hs hw

theorem Admitted.append {kind : StoreKind} {admissible : World → Step → Prop} {before later : List Step}
    (h : Admitted env kind admissible (before ++ later) w) :
    Admitted env kind admissible before w ∧
      Admitted env kind admissible later (BankingControlPlane.after env kind before w) := by
  induction before generalizing w with
  | nil => exact ⟨trivial, h⟩
  | cons s rest ih =>
    obtain ⟨hs, hrest⟩ := h
    obtain ⟨hbefore, hlater⟩ := ih hrest
    exact ⟨⟨hs, hbefore⟩, hlater⟩

theorem after_split (env : Env) (kind : StoreKind) (before later : List Step) (o : Op) (w : World) :
    after env kind (before ++ .op o :: later) w =
      after env kind later (exec env kind o (after env kind before w)).2 := by
  rw [after, List.foldl_append, List.foldl_cons]
  rfl

/-- The intent has come to a terminal state, from `UNKNOWN`, and its payment is what it was. -/
def Reconciled (id : String) (paid : Option Receipt) (w : World) : Prop :=
  w.bank.payment id = paid ∧ ∃ r, w.row id = some r ∧ (r.state = .completed ∨ r.state = .failed)

theorem preserved_reconciled (id : String) (paid : Option Receipt) :
    Preserved env .postgres (Reconciled id paid) := by
  refine ⟨fun c w hc _ ⟨hpaid, r, hr, hst⟩ => ?_, fun w op _ h => h⟩
  cases c with
  | put i =>
    have hs : Saves env w (w.row i.id) i := hc
    refine ⟨hpaid, ?_⟩
    simp only [serve, World.row_put, hs.saved]
    split_ifs with hk
    · rw [hk, hr] at hs
      have hsame : i.state = r.state := hs.terminal (by rcases hst with hst | hst <;> rw [hst] <;> rfl)
      exact ⟨i, rfl, hsame ▸ hst⟩
    · exact ⟨r, hr, hst⟩
  | createPix o =>
    refine ⟨?_, r, hr, hst⟩
    rw [payment_of_authorised hc fun r' hr' => ?_]
    · exact hpaid
    · obtain rfl := Option.some.inj (hr.symm.trans hr')
      rcases hst with h | h <;> rw [h] <;> decide
  | _ => exact ⟨hpaid, r, hr, hst⟩

theorem Reconciles.restart {id : String} {paid : Option Receipt} {b : MockBank}
    (hb : b.payments = w.bank.payments) (h : Reconciles id paid w) : Reconciles id paid { w with bank := b } :=
  ⟨(MockBank.payment_congr hb id).trans h.1, h.2⟩

theorem Reconciled.restart {id : String} {paid : Option Receipt} {b : MockBank}
    (hb : b.payments = w.bank.payments) (h : Reconciled id paid w) : Reconciled id paid { w with bank := b } :=
  ⟨(MockBank.payment_congr hb id).trans h.1, h.2⟩

theorem Settled.restart {r : Intent} {b : MockBank} (hb : b.payments = w.bank.payments) (h : Settled w r) :
    Settled { w with bank := b } r :=
  ⟨fun hst => by rw [MockBank.payment_congr hb]; exact h.completed hst,
    fun hst => by rw [MockBank.payment_congr hb]; exact h.failed hst⟩

/-- One whole reconcile by the owner settles an intent that is still `UNKNOWN`. -/
theorem Reconciles.reconcile {id session : String} {paid : Option Receipt} (hgood : Good env .postgres w)
    (h : Reconciles id paid w) (howner : ∃ r, w.row id = some r ∧ r.context.customerId = customer) :
    Reconciled id paid
      (exec env .postgres (.reconcile (operatorContext customer session .web) id) w).2 := by
  obtain ⟨hpaid, r, hr, hstate⟩ :=
    (preserved_reconciles id paid).op hgood h (.reconcile (operatorContext customer session .web) id)
  refine ⟨hpaid, r, hr, ?_⟩
  obtain ⟨r₀, hr₀, hcustomer⟩ := howner
  obtain ⟨r₁, hr₁, hbefore⟩ := h.2
  obtain rfl := Option.some.inj (hr₀.symm.trans hr₁)
  rcases hbefore with hunknown | hended
  · have hover : Over (exec env .postgres (.reconcile (operatorContext customer session .web) id) w).2 id :=
      reconcile_ends hr₀ hunknown hcustomer
    obtain ⟨r', hr', hterm⟩ := hover
    obtain rfl := Option.some.inj (hr.symm.trans hr')
    rcases hstate with hstate | hstate
    · rw [hstate] at hterm
      cases hterm
    · exact hstate
  · obtain ⟨-, r', hr', hstill⟩ := (preserved_reconciled id paid).op hgood ⟨h.1, r₀, hr₀, hended⟩
      (.reconcile (operatorContext customer session .web) id)
    obtain rfl := Option.some.inj (hr.symm.trans hr')
    exact hstill

/-- `COMPLETED` if the bank had been paid, else `FAILED`; and no payment was made for it since. -/
structure SettledByBook (id : String) (w w' : World) : Prop where
  book : w'.bank.payment id = w.bank.payment id
  state : ∃ r, w'.row id = some r ∧
    r.state = if (w.bank.payment id).isSome then .completed else .failed

/-- Somewhere in these steps, the customer's operator reconciles this intent. -/
def Resolves (customer : String) (steps : List Step) (id : String) : Prop :=
  ∃ session, .op (.reconcile (operatorContext customer session .web) id) ∈ steps

theorem settles_of_resolved (h : Good env .postgres w) (hsettled : ∀ k r, w.row k = some r → Settled w r)
    {steps : List Step} (hsteps : Admitted env .postgres Restarts steps w) {r : Intent}
    (hr : w.row r.id = some r) (hstate : r.state = .unknown)
    (hdone : Resolves r.context.customerId steps r.id) : SettledByBook r.id w (after env .postgres steps w) := by
  obtain ⟨session, hmem⟩ := hdone
  obtain ⟨before, later, rfl⟩ := List.append_of_mem hmem
  obtain ⟨hbefore, hlater⟩ := hsteps.append
  obtain ⟨hgood₁, hreconciles⟩ := (preserved_reconciles r.id (w.bank.payment r.id)).after
    (fun _ _ hb h => h.restart hb) h ⟨rfl, r, hr, Or.inl hstate⟩ hbefore
  obtain ⟨-, r₁, hr₁, hcustomer, -⟩ :=
    (preserved_belongsTo r.id r.context.customerId r.context.sessionId).after (fun _ _ _ h => h) h
      ⟨r, hr, rfl, rfl⟩ hbefore
  obtain ⟨-, hrows⟩ := preserved_settled.after (fun _ _ hb h k r hr => (h k r hr).restart hb) h hsettled hsteps
  have hdone : Reconciled r.id (w.bank.payment r.id) (exec env .postgres
      (.reconcile (operatorContext r.context.customerId session .web) r.id) (after env .postgres before w)).2 :=
    hreconciles.reconcile hgood₁ ⟨r₁, hr₁, hcustomer⟩
  obtain ⟨-, hpaid, r', hr', hended⟩ := (preserved_reconciled r.id (w.bank.payment r.id)).after
    (fun _ _ hb h => h.restart hb) (hgood₁.exec _) hdone hlater.2
  rw [← after_split] at hpaid hr'
  have hid : r'.id = r.id := key_of_row hr'
  have hcompleted := (hrows r.id r' hr').completed
  have hfailed := (hrows r.id r' hr').failed
  rw [hid, hpaid] at hcompleted hfailed
  refine ⟨hpaid, r', hr', ?_⟩
  rcases hended with hstate | hstate
  · rw [if_pos (hcompleted hstate), hstate]
  · rw [hfailed hstate, hstate]
    rfl

/-- **The runbook.** In every world reached, the listing is what waits on a person; and after any steps among which
every `UNKNOWN` of it was reconciled once, each is left as the bank's book has it, without another payment, and is
not listed any more. -/
theorem runbook {opening : MockBank → Prop} (hw : Reach env .postgres opening Restarts w) (customer : String) :
    Lists customer w (Console.listed customer w) ∧
    ∀ steps, Admitted env .postgres Restarts steps w →
      (∀ row ∈ Console.listed customer w, row.state = .unknown → Resolves customer steps row.id) →
      ∀ row ∈ Console.listed customer w, row.state = .unknown →
        SettledByBook row.id w (after env .postgres steps w) ∧
          row.id ∉ (Console.listed customer (after env .postgres steps w)).map ListedIntent.id := by
  have hgood := hw.good fun _ _ hs => hs.sound
  obtain ⟨-, hsettled⟩ := hw.preserved (fun _ _ hs => hs.sound) preserved_settled
    (fun bank _ k r hr => by simp [World.row] at hr) (fun w id columns hs _ => hs.elim)
    fun w b hs hI k r hr => (hI k r hr).restart hs
  refine ⟨hgood.lists customer, fun steps hsteps hdone row hrow hstate => ?_⟩
  obtain ⟨r, hmem, -, rfl, rfl⟩ := mem_listed.mp hrow
  have hr : w.row r.id = some r := Keyed.find_of_mem Intent.id hgood.inv.nodup hmem
  have hsettles := settles_of_resolved hgood hsettled hsteps hr hstate (hdone _ hrow hstate)
  refine ⟨hsettles, fun hlisted => ?_⟩
  have hafter := (hw.after hsteps).good fun _ _ hs => hs.sound
  obtain ⟨r₁, hr₁, -, hterminal, -⟩ := ((hafter.lists _).all _).mp hlisted
  obtain ⟨r', hr', hended⟩ := hsettles.state
  obtain rfl := Option.some.inj (hr₁.symm.trans hr')
  rw [hended] at hterminal
  split_ifs at hterminal <;> cases hterminal

/-! A confirm cut right after the bank was asked, and a sweep: one payment in `UNKNOWN`. -/

def lostWorld : World := after (sampleEnv noon) .postgres (crashSteps.take 3) { bank := {} }

theorem lostWorld_reached : Reach (sampleEnv noon) .postgres (fun _ => True) Restarts lostWorld :=
  (Reach.start {} trivial).after ⟨trivial, trivial, trivial, trivial⟩

def lostListing : List ListedIntent :=
  [{ id := "pix_000000000000", state := .unknown, amount := "R$ 200,00", recipient := "contact_renata",
     created := 1768489200000000, nextStep := "trail reconcile pix_000000000000" }]

theorem lostWorld_listed : Console.listed session.customerId lostWorld = lostListing := by decide +kernel

theorem runbook_lost : Lists session.customerId lostWorld lostListing ∧
    SettledByBook "pix_000000000000" lostWorld (after (sampleEnv noon) .postgres
      [.op (.reconcile (operatorContext session.customerId "cli_000000000000" .web) "pix_000000000000")]
      lostWorld) := by
  obtain ⟨hlists, hsettles⟩ := runbook lostWorld_reached session.customerId
  rw [lostWorld_listed] at hlists hsettles
  have hresolved : ∀ row ∈ lostListing, row.state = .unknown → Resolves session.customerId
      [.op (.reconcile (operatorContext session.customerId "cli_000000000000" .web) "pix_000000000000")] row.id := by
    intro row hrow _
    rw [List.mem_singleton.mp hrow]
    exact ⟨"cli_000000000000", List.mem_singleton_self _⟩
  obtain ⟨hsettled, -⟩ := hsettles [.op (.reconcile (operatorContext session.customerId "cli_000000000000" .web)
    "pix_000000000000")] ⟨trivial, trivial⟩ hresolved _ (List.mem_singleton_self _) rfl
  exact ⟨hlists, hsettled⟩

/-! ## Exit codes -/

/-- Whatever the calls answer, the program ends with an outcome, and that and the last save meet `P`. -/
abbrev Answers (id : String) (P : Outcome → Option Intent → Prop) (p : Plane Outcome) (s : Option Intent) :
    Prop :=
  p.wp (tracks id) (fun x s => ∃ o, x = .ok o ∧ P o s) s

section Answers
variable {id : String} {P : Outcome → Option Intent → Prop} {s : Option Intent} {c : Intent}

theorem answers_statusOf {message : String} {status : Option Status}
    (h : ∀ o : Outcome, o.status = status.getD (c.state.settled.getD .deny) → P o s) :
    Answers id P (statusOf c message status) s := by
  simp only [statusOf, summary, Prog.bind_eq, Prog.pure_eq, Prog.perform_bind, Prog.call_bind, Prog.ret_bind]
  exact ends_call trivial fun contact => ⟨_, rfl, h _ rfl⟩

/-- Only a state that reports a status of its own is no refusal. -/
theorem answers_reconcileHeld :
    Answers c.id (fun o _ => o.status = .deny ↔ c.state.settled = none) (reconcileHeld c) s := by
  unfold reconcileHeld
  by_cases hstate : c.state = .unknown
  · have edge : ∀ event, TRANSITIONS c.state event = TRANSITIONS .unknown event := fun _ => by rw [hstate]
    rw [if_neg (not_not.mpr hstate)]
    simp only [Prog.bind_eq, Prog.perform_bind]
    refine ends_call trivial fun receipt => ends_call trivial fun _ => ?_
    cases receipt with
    | none =>
      refine ends_move rfl (edge .fail) (ends_saveReason rfl (answers_statusOf fun o ho => ?_))
      have hfailed : o.status = .failed := ho
      rw [hfailed, hstate]
      decide
    | some receipt =>
      refine ends_assign (ends_move rfl (edge .complete) (answers_statusOf fun o ho => ?_))
      have hcompleted : o.status = .completed := ho
      rw [hcompleted, hstate]
      decide
  · rw [if_pos hstate]
    refine answers_statusOf fun o ho => ?_
    rw [ho]
    cases c.state <;> decide

/-- Confirmation is asked for, or the intent was cancelled. -/
def SentOn (o : Outcome) (s : Option Intent) : Prop :=
  ∃ i, s = some i ∧ (o.status = .decision .requireConfirmation ∧ i.state = .awaitingConfirmation ∨
    o.status = .deny ∧ i.state = .cancelled)

/-- Policy does not ask a strong context for a step-up again. -/
theorem answers_decideOn (hid : c.id = id) (hstate : c.state = .validated)
    (hstrong : c.context.assurance = .strong) : Answers id SentOn (decideOn env c) s := by
  have edge : ∀ event, TRANSITIONS c.state event = TRANSITIONS .validated event :=
    fun _ => by rw [hstate]
  simp only [decideOn, Prog.bind_eq, Prog.perform_bind]
  refine ends_call trivial fun paid => ends_call trivial fun _ => ends_call trivial fun moment =>
    ends_call trivial fun _ => ?_
  simp only [lastSave]
  generalize assessRisk c.action c.context paid = risk
  rcases evaluate_decision env.zone c.action c.context risk moment with hd | hd | hd
  · simp only [applyVerdict, hd, Prog.bind_eq]
    refine ends_move hid (edge .reject) (ends_saveReason hid (answers_statusOf fun o ho => ?_))
    exact ⟨_, rfl, Or.inr ⟨ho, rfl⟩⟩
  · exact absurd hstrong (evaluate_stepUp_weak hd)
  · simp only [applyVerdict, hd, Prog.bind_eq, Prog.pure_eq, Prog.perform_bind]
    refine ends_call trivial fun token => ends_call trivial fun issuedAt => ends_assign ?_
    refine ends_move hid (edge .awaitConfirmation) (ends_summary fun _ => ?_)
    exact ⟨_, rfl, _, rfl, Or.inl ⟨rfl, rfl⟩⟩

theorem answers_stepUpHeld (hstate : c.state = .awaitingStepUp) :
    Answers c.id SentOn (stepUpHeld env c) s := by
  have edge : TRANSITIONS c.state .stepUp = some .validated := by rw [hstate]; rfl
  unfold stepUpHeld
  rw [if_neg (not_not.mpr hstate)]
  simp only [Prog.bind_eq, Prog.perform_bind]
  refine ends_assign (ends_call rfl fun _ => ends_call trivial fun instant => ends_call trivial fun _ => ?_)
  exact ends_move rfl edge (answers_decideOn rfl rfl rfl)

/-- An intent that awaits no step-up gets none. -/
theorem answers_stepUpHeld_not (hstate : c.state ≠ .awaitingStepUp) :
    Answers c.id (fun o t => o.status = .deny ∧ t = s) (stepUpHeld env c) s := by
  unfold stepUpHeld
  rw [if_pos hstate]
  exact answers_statusOf fun o ho => ⟨ho, rfl⟩

end Answers

/-- An operation about an intent its caller may see: the outcome, and what was saved. -/
theorem exec_answers {op : Op} {sk : Seeking} (h : op.seeking env = some sk) {c : Intent}
    (hf : w.named .postgres sk.ref = some c) (hm : sk.mine c = true) {P : Outcome → Option Intent → Prop}
    (hp : Answers c.id P (sk.held c) none) : ∃ o s, (exec env .postgres op w).1 = .ok (.outcome o) ∧ P o s ∧
      Tracked c.id w s (exec env .postgres op w).2 := by
  rw [exec_found h hf hm]
  have hrows : ∀ k, (w.note (.began op)).row k = w.row k := fun _ => rfl
  obtain ⟨s, ⟨o, hrun, hP⟩, htracked⟩ := tracks_run hp env .postgres hrows
  exact ⟨o, s, by rw [hrun]; rfl, hP, htracked⟩

/-- **Only a confirm has the bank pay.** -/
theorem Good.bank_kept {kind : StoreKind} (h : Good env kind w) {op : Op}
    (hop : ∀ ctx token, op ≠ .confirm ctx token) : (BankingControlPlane.exec env kind op w).2.bank = w.bank := by
  refine h.keeps (A := fun _ _ => True) (Prog.wp_of_calls (Prog.calls_any _) _)
    (I := fun w' => w'.bank = w.bank) (fun c w' seg hc _ hduring hw' => ?_) rfl
  cases c with
  | createPix o =>
    obtain ⟨r, ctx, token, seg', hauthorised⟩ := hc
    have hbegan := (History.Since.unique hduring hauthorised.during).1
    exact absurd (Obs.began.inj hbegan) (hop ctx token)
  | _ => exact hw'

/-- The intent is this customer's and in one of these states. -/
def World.HasIn (w : World) (customer id : String) (states : List State) : Prop :=
  ∃ r, w.row id = some r ∧ r.context.customerId = customer ∧ r.state ∈ states

section Commands
variable {id : String}

theorem reconcile_seeking (env : Env) (ctx : Context) (id : String) : (Op.reconcile ctx id).seeking env =
    some ⟨.intent id, fun i => i.context.customerId = ctx.customerId, reconcileHeld⟩ := rfl

theorem stepUp_seeking (env : Env) (ctx : Context) (id : String) : (Op.stepUp ctx id).seeking env =
    some ⟨.intent id, fun i => i.context.customerId = ctx.customerId, stepUpHeld env⟩ := rfl

/-- The intent a command names, if it is the customer's. -/
theorem found_or_not (w : World) (customer id : String) :
    (∃ r, w.row id = some r ∧ r.context.customerId = customer) ∨
      (w.named .postgres (.intent id)).filter (fun i => decide (i.context.customerId = customer)) = none := by
  cases hr : w.row id with
  | none =>
    refine Or.inr ?_
    rw [show w.named .postgres (.intent id) = w.row id from rfl, hr]
    rfl
  | some r =>
    by_cases hcustomer : r.context.customerId = customer
    · exact Or.inl ⟨r, rfl, hcustomer⟩
    · refine Or.inr ?_
      rw [show w.named .postgres (.intent id) = w.row id from rfl, hr, Option.filter_some, if_neg (by simpa)]

theorem not_hasIn_of_unfound {states : List State}
    (h : (w.named .postgres (.intent id)).filter (fun i => decide (i.context.customerId = customer)) = none) :
    ¬ w.HasIn customer id states := by
  rintro ⟨r, hr, hcustomer, -⟩
  rw [show w.named .postgres (.intent id) = w.row id from rfl, hr] at h
  simp [hcustomer] at h

/-- `trail reconcile` exits with 0 for an intent whose state reports a status of its own. -/
theorem reconcile_exits (env : Env) (w : World) (customer session id : String) :
    ((Console.reconcile env customer session id w).2.1 = 0 ↔
      w.HasIn customer id [.unknown, .completed, .failed, .cancelled, .pending]) ∧
    ∀ k, k ≠ id → (Console.reconcile env customer session id w).2.2.row k = w.row k := by
  have hsk := reconcile_seeking env (operatorContext customer session .web) id
  simp only [Console.reconcile]
  rcases found_or_not w customer id with ⟨r, hr, hcustomer⟩ | hnone
  · obtain ⟨o, s, hreply, hstatus, htracked⟩ := exec_answers hsk hr (decide_eq_true hcustomer) answers_reconcileHeld
    rw [key_of_row hr] at htracked
    refine ⟨?_, htracked.others⟩
    have hreports : r.state.settled ≠ none ↔
        r.state ∈ [.unknown, .completed, .failed, .cancelled, .pending] := by cases r.state <;> decide
    simp only [hreply, exitCode]
    constructor
    · intro hzero
      have hgranted : o.status ≠ .deny := fun hdeny => by rw [if_pos hdeny] at hzero; cases hzero
      exact ⟨r, hr, hcustomer, hreports.mp fun h => hgranted (hstatus.mpr h)⟩
    · rintro ⟨r', hr', -, hstate⟩
      obtain rfl := Option.some.inj (hr.symm.trans hr')
      exact if_neg fun hdeny => hreports.mpr hstate (hstatus.mp hdeny)
  · rw [exec_unfound hsk hnone]
    refine ⟨⟨fun hzero => (by cases hzero), fun hin => absurd hin (not_hasIn_of_unfound hnone)⟩, fun _ _ => rfl⟩

/-- `trail step-up` exits with 0 where the intent awaited it and then awaits confirmation; of the others, those
that awaited it are cancelled, and the rest are left as they were. -/
theorem stepUp_exits (env : Env) (w : World) (customer session id : String) :
    (w.HasIn customer id [.awaitingStepUp] → ∃ r,
      (Console.stepUp env customer session id w).2.2.row id = some r ∧
        ((Console.stepUp env customer session id w).2.1 = 0 ∧ r.state = .awaitingConfirmation ∨
          (Console.stepUp env customer session id w).2.1 = 1 ∧ r.state = .cancelled)) ∧
    (¬ w.HasIn customer id [.awaitingStepUp] → (Console.stepUp env customer session id w).2.1 = 1 ∧
      (Console.stepUp env customer session id w).2.2.row id = w.row id) ∧
    ∀ k, k ≠ id → (Console.stepUp env customer session id w).2.2.row k = w.row k := by
  have hsk := stepUp_seeking env (operatorContext customer session .mobile) id
  simp only [Console.stepUp]
  rcases found_or_not w customer id with ⟨r, hr, hcustomer⟩ | hnone
  · by_cases hstate : r.state = .awaitingStepUp
    · obtain ⟨o, s, hreply, ⟨i, rfl, hsent⟩, htracked⟩ :=
        exec_answers hsk hr (decide_eq_true hcustomer) (answers_stepUpHeld hstate)
      rw [key_of_row hr] at htracked
      refine ⟨fun _ => ?_, fun hnot => absurd ⟨r, hr, hcustomer, ?_⟩ hnot, htracked.others⟩
      · obtain ⟨r', hr', hstate'⟩ := htracked.last i rfl
        refine ⟨r', hr', ?_⟩
        rw [hreply, hstate', exitCode]
        rcases hsent with ⟨hstatus, hi⟩ | ⟨hstatus, hi⟩
        · exact Or.inl ⟨by rw [hstatus]; rfl, hi⟩
        · exact Or.inr ⟨by rw [hstatus]; rfl, hi⟩
      · rw [hstate]
        exact List.mem_singleton_self _
    · obtain ⟨o, s, hreply, ⟨hstatus, rfl⟩, htracked⟩ :=
        exec_answers hsk hr (decide_eq_true hcustomer) (answers_stepUpHeld_not hstate)
      rw [key_of_row hr] at htracked
      refine ⟨?_, fun _ => ⟨by rw [hreply, exitCode, if_pos hstatus], htracked.untouched rfl⟩, htracked.others⟩
      rintro ⟨r', hr', -, hmem⟩
      obtain rfl := Option.some.inj (hr.symm.trans hr')
      exact absurd (List.mem_singleton.mp hmem) hstate
  · rw [exec_unfound hsk hnone]
    exact ⟨fun hin => absurd hin (not_hasIn_of_unfound hnone), fun _ => ⟨rfl, rfl⟩, fun _ _ => rfl⟩

end Commands

/-- What the exit codes of the two commands say, and what the commands leave alone. -/
structure Exits (env : Env) (customer session id : String) (w : World) : Prop where
  reconcile : (Console.reconcile env customer session id w).2.1 = 0 ↔
    w.HasIn customer id [.unknown, .completed, .failed, .cancelled, .pending]
  stepUp : w.HasIn customer id [.awaitingStepUp] →
    ∃ r, (Console.stepUp env customer session id w).2.2.row id = some r ∧
      ((Console.stepUp env customer session id w).2.1 = 0 ∧ r.state = .awaitingConfirmation ∨
        (Console.stepUp env customer session id w).2.1 = 1 ∧ r.state = .cancelled)
  refused : ¬ w.HasIn customer id [.awaitingStepUp] → (Console.stepUp env customer session id w).2.1 = 1 ∧
    (Console.stepUp env customer session id w).2.2.row id = w.row id
  others : ∀ k, k ≠ id → (Console.reconcile env customer session id w).2.2.row k = w.row k ∧
    (Console.stepUp env customer session id w).2.2.row k = w.row k
  unpaid : (Console.reconcile env customer session id w).2.2.bank = w.bank ∧
    (Console.stepUp env customer session id w).2.2.bank = w.bank

/-- **The exit codes.** In every world reached, whatever the session and the id, they tell what became of the intent;
no other intent is touched, and nothing is paid. -/
theorem exit_codes {opening : MockBank → Prop} (hw : Reach env .postgres opening (Untampered .postgres) w)
    (customer session id : String) : Exits env customer session id w := by
  have hgood := hw.good fun _ _ hs => hs.sound
  obtain ⟨hreconcile, hothers⟩ := reconcile_exits env w customer session id
  obtain ⟨hstepUp, hrefused, hothers'⟩ := stepUp_exits env w customer session id
  have hreconciled : (exec env .postgres (.reconcile (operatorContext customer session .web) id) w).2.bank = w.bank :=
    hgood.bank_kept fun _ _ hop => by cases hop
  have hsteppedUp : (exec env .postgres (.stepUp (operatorContext customer session .mobile) id) w).2.bank = w.bank :=
    hgood.bank_kept fun _ _ hop => by cases hop
  exact ⟨hreconcile, hstepUp, hrefused, fun k hk => ⟨hothers k hk, hothers' k hk⟩, hreconciled, hsteppedUp⟩

theorem exit_codes_lost :
    Exits (sampleEnv noon) session.customerId "cli_000000000000" "pix_000000000000" lostWorld ∧
      (Console.reconcile (sampleEnv noon) session.customerId "cli_000000000000" "pix_000000000000"
        lostWorld).2.1 = 0 ∧
      (Console.stepUp (sampleEnv noon) session.customerId "cli_000000000000" "pix_000000000000"
        lostWorld).2.1 = 1 :=
  ⟨exit_codes (lostWorld_reached.mono fun _ _ => Restarts.untampered) _ _ _, by decide +kernel, by decide +kernel⟩

end BankingControlPlane
