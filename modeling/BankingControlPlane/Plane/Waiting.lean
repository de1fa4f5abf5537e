import BankingControlPlane.Plane.Local

/-!
# How an intent comes to wait

An intent can be cancelled while it awaits a step-up or a confirmation.

* `Issues` : a proposal that policy asks no step-up of leaves its intent awaiting confirmation, if it can
  be cancelled at all, and its reply tells the token (`exec_issues`);
* `Renews` : where nothing awaits a step-up, no other operation makes an intent wait anew (`saving_op`,
  `renews_next`).
-/

namespace BankingControlPlane
open Effects

variable {env : Env} {kind : StoreKind} {w : World} {r : Intent}

/-- A `cancel` leads out of the state. -/
def cancellable (st : State) : Bool := (TRANSITIONS st .cancel).isSome

theorem cancellable_iff {st : State} :
    cancellable st = true ↔ st = .awaitingStepUp ∨ st = .awaitingConfirmation := by
  cases st <;> decide

theorem cancel_edge {st : State} (h : cancellable st = true) :
    TRANSITIONS st .cancel = some .cancelled := by
  rcases cancellable_iff.mp h with rfl | rfl <;> rfl

/-! ## What an operation spares -/

/-- What an operation spares it leaves as it was. -/
theorem row_spared {op : Op} {s : Step} (hs : s.Does op) {k : String}
    (hspares : (op.prog env).wp ((handler env kind).under fun c _ => Spares (· = k) c)
      (fun _ _ => True) (w.note (.began op))) : (s.next env kind w).row k = w.row k := by
  refine hs.keeps (I := fun w' => w'.row k = w.row k) hspares (fun c w' hc hrow => ?_) rfl
  cases c with
  | put i =>
    have hne : ¬ i.id = k := hc
    exact ((World.row_put w' i k).trans (if_neg hne)).trans hrow
  | _ => exact hrow

theorem spares_of_reading {E : String → Prop} {β : Type} {c : PlaneCall β}
    (hc : Saving (fun _ => False) c) : Spares E c := by
  cases c with
  | put i => exact hc.elim
  | _ => trivial

/-! ## What a proposal says -/

/-- The action a proposal is made canonical as. -/
def ProposedPix.actionTo (proposed : ProposedPix) (recipient : Contact) : CreatePix :=
  { sourceAccount := defaultAccount
    recipientId := recipient.id
    amount := proposed.amount
    currency := proposed.currency }

/-- What policy would say of it now. -/
def verdictOn (env : Env) (w : World) (ctx : Context) (action : CreatePix) : Verdict :=
  evaluate env.zone action ctx (assessRisk action ctx w.bank.paidBefore) (env.clock w.ticks)

/-- The proposal has one recipient, the funds are there, and policy asks for a step-up. -/
def AsksStepUp (env : Env) (w : World) (ctx : Context) (proposed : ProposedPix) : Prop :=
  ∃ recipient, w.bank.findContacts env proposed.recipient = [recipient] ∧
    w.bank.contact recipient.id ≠ none ∧
    (∃ balance, w.bank.balance defaultAccount = .ok balance ∧ ¬ balance < proposed.amount.val) ∧
    (verdictOn env w ctx (proposed.actionTo recipient)).decision = .requireStepUpAuth

/-- If the intent can be cancelled, it awaits confirmation, and the reply tells its token. -/
def Issues (id : String) (ctx : Context) (x : Except Exn Outcome) (w : World) : Prop :=
  ∀ r, w.row id = some r → cancellable r.state = true →
    r.state = .awaitingConfirmation ∧ r.context = ctx ∧ ∃ o token, x = .ok o ∧
      o.intentId = some id ∧ o.confirmationId = some token ∧ r.confirmationId = some token

section Issues
variable {id : String} {ctx : Context} {x : Except Exn Outcome} {c : Intent}

/-- What is saved last decides. -/
theorem row_put_some {i : Intent} (hid : i.id = id) (hr : (w.put i).row id = some r) :
    r.state = i.state ∧ r.context = i.context ∧ r.confirmationId = i.confirmationId := by
  rw [World.row_put, if_pos hid] at hr
  obtain rfl := Option.some.inj hr
  unfold World.saved
  split <;> exact ⟨rfl, rfl, rfl⟩

theorem issues_idle {i : Intent} (hid : i.id = id) (hidle : cancellable i.state = false) :
    Issues id ctx x (w.put i) := by
  intro r hr hcancellable
  rw [(row_put_some hid hr).1, hidle] at hcancellable
  cases hcancellable

theorem issues_issued {i : Intent} {o : Outcome} {token : String} (hid : i.id = id)
    (hstate : i.state = .awaitingConfirmation) (hcontext : i.context = ctx)
    (htoken : i.confirmationId = some token) (hoid : o.intentId = some id)
    (hotoken : o.confirmationId = some token) : Issues id ctx (.ok o) (w.put i) := by
  intro r hr _
  obtain ⟨hrstate, hrcontext, hrtoken⟩ := row_put_some hid hr
  exact ⟨hrstate.trans hstate, hrcontext.trans hcontext, o, token, rfl, hoid, hotoken,
    hrtoken.trans htoken⟩

theorem issues_rejected (hid : c.id = id) (hstate : c.state = .validated) {detail : Detail}
    {reason message : String} :
    ((move c .reject detail).bind fun i => (saveReason i reason).bind fun i =>
      statusOf i message (some .deny)).wp (handler env kind).free (Issues id ctx) w := by
  have edge : TRANSITIONS c.state .reject = some .cancelled := by rw [hstate]; rfl
  simp only [move, transition, edge, saveReason, assign, statusOf, summary, Prog.bind_eq, Prog.pure_eq,
    Prog.perform_bind, Prog.call_bind, Prog.ret_bind, Prog.wp_call, Handler.under_iff, true_and]
  exact issues_idle hid rfl

theorem issues_applyVerdict (hid : c.id = id) (hcontext : c.context = ctx)
    (hstate : c.state = .validated) {verdict : Verdict}
    (hd : verdict.decision ≠ .requireStepUpAuth) :
    (applyVerdict env c verdict).wp (handler env kind).free (Issues id ctx) w := by
  cases hdecision : verdict.decision with
  | requireStepUpAuth => exact absurd hdecision hd
  | requireConfirmation =>
    have edge : TRANSITIONS c.state .awaitConfirmation = some .awaitingConfirmation := by
      rw [hstate]; rfl
    simp only [applyVerdict, hdecision, move, transition, edge, assign, summary, Prog.bind_eq,
      Prog.pure_eq, Prog.perform_bind, Prog.call_bind, Prog.ret_bind, Prog.wp_call, Handler.under_iff,
      true_and]
    exact issues_issued hid rfl hcontext rfl (congrArg some hid) rfl
  | _ =>
    simp only [applyVerdict, hdecision, Prog.bind_eq]
    exact issues_rejected hid hstate

theorem issues_decideOn (hid : c.id = id) (hcontext : c.context = ctx) (hstate : c.state = .validated)
    (hd : (verdictOn env w c.context c.action).decision ≠ .requireStepUpAuth) :
    (decideOn env c).wp (handler env kind).free (Issues id ctx) w := by
  simp only [decideOn, Prog.bind_eq, Prog.perform_bind, Prog.wp_call, Handler.under_iff, true_and]
  exact issues_applyVerdict hid hcontext hstate hd

/-- The preconditions policy is asked under. -/
theorem met_of_missing {balance : Except String Decimal} {contact : Option Contact} {amount : Decimal}
    (h : (match balance with
        | .error _ => ["source_account"]
        | .ok balance => if balance < amount then ["sufficient_funds"] else []) ++
      (if contact = none then ["resolved_recipient"] else []) = []) :
    contact ≠ none ∧ ∃ b, balance = .ok b ∧ ¬ b < amount := by
  obtain ⟨hfunds, hcontact⟩ := List.append_eq_nil_iff.mp h
  refine ⟨fun hnone => ?_, ?_⟩
  · rw [if_pos hnone] at hcontact
    cases hcontact
  · cases balance with
    | error message => cases hfunds
    | ok b =>
      refine ⟨b, rfl, fun hlt => ?_⟩
      dsimp only at hfunds
      rw [if_pos hlt] at hfunds
      cases hfunds

theorem issues_proposeTo {proposed : ProposedPix} {recipient : Contact}
    (hfound : w.bank.findContacts env proposed.recipient = [recipient])
    (hask : ¬ AsksStepUp env w ctx proposed) :
    (proposeTo env ctx proposed id recipient).wp (handler env kind).free (Issues id ctx) w := by
  simp only [proposeTo, missingPreconditions, Prog.bind_eq, Prog.pure_eq, Prog.perform_bind,
    Prog.call_bind, Prog.ret_bind, Prog.wp_call, Handler.under_iff, true_and]
  generalize hmissing : (_ ++ _ : List String) = missing
  by_cases hempty : missing = []
  · rw [if_neg (not_not.mpr hempty)]
    simp only [move, transition, TRANSITIONS, assign, Prog.bind_eq, Prog.pure_eq, Prog.perform_bind,
      Prog.call_bind, Prog.ret_bind, Prog.wp_call, Handler.under_iff, true_and]
    obtain ⟨hcontact, hbalance⟩ := met_of_missing (hmissing.trans hempty)
    exact issues_decideOn rfl rfl rfl fun hd => hask ⟨recipient, hfound, hcontact, hbalance, hd⟩
  · rw [if_pos hempty]
    simp only [move, transition, TRANSITIONS, assign, Prog.bind_eq, Prog.pure_eq, Prog.perform_bind,
      Prog.call_bind, Prog.ret_bind, Prog.wp_call, Handler.under_iff, true_and]
    exact issues_idle rfl rfl

theorem issues_propose (h : Good env kind w) {proposed : ProposedPix}
    (hask : ¬ AsksStepUp env w ctx proposed) (text : String) (o : Obs) :
    (propose env ctx proposed text).wp (handler env kind).free
      (Issues (newIdAt env "pix" w.drawn) ctx) (w.note o) := by
  simp only [propose, Prog.bind_eq, Prog.pure_eq, Prog.perform_bind, Prog.wp_call, Handler.under_iff,
    true_and]
  generalize hfound : (Prod.fst _ : List Contact) = found
  have hnone : ∀ {x : Except Exn Outcome} {w' : World}, (∀ k, w'.row k = w.row k) →
      Issues (newIdAt env "pix" w.drawn) ctx x w' := by
    intro x w' hrows r hr
    rw [hrows, h.inv.fresh_row] at hr
    cases hr
  rcases found with _ | ⟨recipient, _ | ⟨_, _⟩⟩
  · exact hnone fun _ => rfl
  · exact issues_proposeTo hfound hask
  · exact hnone fun _ => rfl

/-- **A proposal that policy asks no step-up of tells its token.** -/
theorem exec_issues (h : Good env kind w) {proposed : ProposedPix} {text : String}
    (hask : ¬ AsksStepUp env w ctx proposed)
    (hr : (exec env kind (.propose ctx proposed text) w).2.row (newIdAt env "pix" w.drawn) = some r)
    (hcancellable : cancellable r.state = true) :
    r.state = .awaitingConfirmation ∧ r.context = ctx ∧ ∃ o token,
      (exec env kind (.propose ctx proposed text) w).1 = .ok (.outcome o) ∧
        o.intentId = some r.id ∧ o.confirmationId = some token ∧ r.confirmationId = some token := by
  have hissues := Prog.run_post (issues_propose h hask text (.began (.propose ctx proposed text)))
  have hid := key_of_row hr
  rw [exec, Op.prog, run_replying] at hr ⊢
  obtain ⟨hstate, hcontext, o, token, hreply, hoid, hotoken, htoken⟩ := hissues r hr hcancellable
  rw [hreply]
  exact ⟨hstate, hcontext, o, token, rfl, hid ▸ hoid, hotoken, htoken⟩

end Issues

/-! ## What the other operations save -/

/-- What `i` says of waiting was stored already. -/
def Renews (w : World) (i : Intent) : Prop :=
  cancellable i.state = true → ∃ r, w.row i.id = some r ∧ r.state = i.state ∧
    r.confirmationId = i.confirmationId ∧ r.context = i.context

theorem renews_idle {i : Intent} (hidle : cancellable i.state = false) : Renews w i := by
  intro hcancellable
  rw [hidle] at hcancellable
  cases hcancellable

/-- Only two hops lead to where an intent can be cancelled. -/
theorem idle_of_edge {a b : State} {event : Hop} (edge : TRANSITIONS a event = some b)
    (hstep : event ≠ .requireStepUp) (hconfirm : event ≠ .awaitConfirmation) :
    cancellable b = false := by
  cases a <;> cases event <;> cases edge <;> first
    | rfl
    | exact absurd rfl hstep
    | exact absurd rfl hconfirm

section Saving
variable {α : Type} {v : World} {i c : Intent}

theorem saving_move {event : Hop} {detail : Detail} {f : Intent → Plane α}
    (hstep : event ≠ .requireStepUp) (hconfirm : event ≠ .awaitConfirmation)
    (hf : ∀ j, cancellable j.state = false → (f j).calls (Saving (Renews v))) :
    ((move i event detail).bind f).calls (Saving (Renews v)) := by
  cases edge : TRANSITIONS i.state event with
  | none =>
    simp only [move, transition, edge, Prog.bind_eq, Prog.perform_bind, Prog.call_bind, Prog.raise_bind]
    exact ⟨trivial, fun _ => trivial⟩
  | some target =>
    have hidle := idle_of_edge edge hstep hconfirm
    simp only [move, transition, edge, assign, Prog.bind_eq, Prog.pure_eq, Prog.perform_bind,
      Prog.call_bind, Prog.ret_bind]
    exact ⟨trivial, fun _ => ⟨trivial, fun _ => ⟨renews_idle hidle, fun _ => hf _ hidle⟩⟩⟩

theorem saving_saveReason {reason : String} {f : Intent → Plane α} (hidle : cancellable i.state = false)
    (hf : ∀ j, (f j).calls (Saving (Renews v))) :
    ((saveReason i reason).bind f).calls (Saving (Renews v)) := by
  simp only [saveReason, assign, Prog.bind_eq, Prog.pure_eq, Prog.perform_bind, Prog.call_bind,
    Prog.ret_bind]
  exact ⟨trivial, fun _ => ⟨renews_idle hidle, fun _ => hf _⟩⟩

theorem saving_execute : (execute i).calls (Saving (Renews v)) := by
  have hlast : ∀ (j : Intent) event detail message, event ≠ .requireStepUp →
      event ≠ .awaitConfirmation → ((move j event detail).bind fun j =>
        statusOf j message).calls (Saving (Renews v)) := fun j event detail message hstep hconfirm =>
    saving_move hstep hconfirm fun _ _ => saving_statusOf
  simp only [execute, Prog.bind_eq, Prog.perform_bind]
  refine saving_move (by decide) (by decide) fun j _ => ⟨trivial, fun _ => ⟨trivial, fun answer => ?_⟩⟩
  cases answer with
  | ok receipt =>
    simp only [executeAnswer, assign, Prog.bind_eq, Prog.pure_eq, Prog.perform_bind, Prog.call_bind,
      Prog.ret_bind]
    exact ⟨trivial, fun _ => ⟨trivial, fun _ => hlast _ _ _ _ (by decide) (by decide)⟩⟩
  | error e =>
    cases e with
    | timeout message =>
      simp only [executeAnswer, Prog.bind_eq, Prog.perform_bind]
      exact ⟨trivial, fun _ => hlast _ _ _ _ (by decide) (by decide)⟩
    | error message =>
      simp only [executeAnswer, assign, Prog.bind_eq, Prog.pure_eq, Prog.perform_bind, Prog.call_bind,
        Prog.ret_bind]
      refine ⟨trivial, fun _ => saving_move (by decide) (by decide) fun j _ => ?_⟩
      exact ⟨trivial, fun _ => saving_statusOf⟩

theorem saving_cancelHeld (ctx : Context) : (cancelHeld ctx c).calls (Saving (Renews v)) := by
  simp only [cancelHeld, Prog.bind_eq]
  cases edge : TRANSITIONS c.state .cancel with
  | none =>
    rw [attempt_move_none edge]
    exact ⟨trivial, fun _ => saving_statusOf⟩
  | some target =>
    rw [attempt_move_some edge]
    refine saving_move (by decide) (by decide) fun j hj => ?_
    exact saving_saveReason hj fun _ => saving_statusOf

theorem saving_reconcileHeld : (reconcileHeld c).calls (Saving (Renews v)) := by
  unfold reconcileHeld
  split_ifs
  · exact saving_statusOf
  · simp only [Prog.bind_eq, Prog.perform_bind]
    refine ⟨trivial, fun receipt => ⟨trivial, fun _ => ?_⟩⟩
    cases receipt with
    | none =>
      refine saving_move (by decide) (by decide) fun j hj => ?_
      exact saving_saveReason hj fun _ => saving_statusOf
    | some receipt =>
      simp only [assign, Prog.bind_eq, Prog.pure_eq, Prog.perform_bind, Prog.call_bind, Prog.ret_bind]
      exact ⟨trivial, fun _ => saving_move (by decide) (by decide) fun _ _ => saving_statusOf⟩

/-- A `confirm` saves the intent once more as it waits, with the consent. -/
theorem saving_confirmHeld (hc : Renews v c) (ctx : Context) (token : String) :
    (confirmHeld env ctx token c).calls (Saving (Renews v)) := by
  have hauthorized : (confirmAuthorized ctx token c).calls (Saving (Renews v)) := by
    simp only [confirmAuthorized, assign, Prog.bind_eq, Prog.pure_eq, Prog.perform_bind, Prog.call_bind,
      Prog.ret_bind]
    refine ⟨trivial, fun confirmedAt => ⟨trivial, fun _ => ⟨hc, fun _ => ⟨trivial, fun _ => ?_⟩⟩⟩⟩
    exact saving_move (by decide) (by decide) fun j _ => ⟨trivial, fun _ => saving_execute⟩
  have hexpired : (confirmExpired c).calls (Saving (Renews v)) := by
    simp only [confirmExpired, Prog.bind_eq, Prog.perform_bind]
    refine ⟨trivial, fun _ => saving_move (by decide) (by decide) fun j hj => ?_⟩
    exact saving_saveReason hj fun _ => saving_statusOf
  exact confirmHeld_calls (fun _ _ => saving_statusOf) trivial trivial (fun _ => trivial) hexpired hauthorized

theorem saving_stepUpHeld (hstate : c.state ≠ .awaitingStepUp) :
    (stepUpHeld env c).calls (Saving (Renews v)) := by
  unfold stepUpHeld
  rw [if_pos hstate]
  exact saving_statusOf

theorem saving_sweepEach (found : List Intent) : (sweepEach found).calls (Saving (Renews v)) := by
  induction found with
  | nil => trivial
  | cons i rest ih =>
    simp only [sweepEach, Prog.bind_eq, Prog.perform_bind]
    refine ⟨trivial, fun _ => saving_move (by decide) (by decide) fun j hj => ?_⟩
    exact saving_saveReason hj fun _ => ih

theorem saving_sweep : (Op.sweep.prog env).calls (Saving (Renews v)) := by
  simp only [Op.prog, sweep, Prog.bind_eq, Prog.pure_eq, Prog.perform_bind]
  refine calls_replying (p := .call _ _) ⟨trivial, fun found => ?_⟩
  exact Prog.calls_bind (saving_sweepEach found) fun _ => trivial

/-- Where nothing awaits a step-up, no operation about an intent makes it wait anew. -/
theorem saving_held (h : Good env kind w)
    (hnone : ∀ k r, w.row k = some r → r.state ≠ .awaitingStepUp) {op : Op} {sk : Seeking}
    (hsk : op.seeking env = some sk) (hc : w.named kind sk.ref = some c) :
    (sk.held c).calls (Saving (Renews w)) := by
  have hrow : w.seen kind c.id = some c → Renews w c ∧ c.state ≠ .awaitingStepUp := by
    intro hc
    obtain ⟨row, hrow, halike⟩ := h.row_of_seen hc
    obtain ⟨-, hstate, htoken, hcontext, -⟩ := halike.same
    exact ⟨fun _ => ⟨row, hrow, hstate.symm, htoken.symm, hcontext.symm⟩, hstate ▸ hnone _ _ hrow⟩
  cases op <;> simp only [Op.seeking, Option.some.injEq, reduceCtorEq] at hsk <;> subst hsk
  case stepUp ctx id =>
    have hc : w.seen kind id = some c := hc
    exact saving_stepUpHeld (hrow ((World.seen_id hc).symm ▸ hc)).2
  case confirm ctx token => exact saving_confirmHeld (hrow (h.seen_of_holder hc).1).1 ctx token
  case cancel ctx token => exact saving_cancelHeld ctx
  case reconcile ctx id => exact saving_reconcileHeld
  case status ctx id => exact saving_statusOf

/-- Nor does any other operation but a proposal. -/
theorem saving_op (h : Good env kind w)
    (hnone : ∀ k r, w.row k = some r → r.state ≠ .awaitingStepUp) {op : Op}
    (hop : ∀ ctx proposed text, op ≠ .propose ctx proposed text) :
    (op.prog env).wp ((handler env kind).under fun c _ => Saving (Renews w) c) (fun _ _ => True)
      (w.note (.began op)) := by
  cases hsk : op.seeking env with
  | some sk =>
    refine exec_calls hsk ?_ fun c hc _ => saving_held h hnone hsk hc
    cases sk.ref <;> trivial
  | none =>
    refine Prog.wp_of_calls ?_ _
    cases op with
    | propose ctx proposed text => exact absurd rfl (hop ctx proposed text)
    | query ctx action => exact calls_replying (saving_query ctx action)
    | explain ctx id => exact calls_replying (saving_explain ctx id)
    | sweep => exact saving_sweep
    | _ => cases hsk

end Saving

theorem renews_next {op : Op} {s : Step} (hs : s.Does op)
    (hop : (op.prog env).wp ((handler env kind).under fun c _ => Saving (Renews w) c)
      (fun _ _ => True) (w.note (.began op))) {k : String}
    (hr : (s.next env kind w).row k = some r) : Renews w r := by
  refine hs.keeps (I := fun w' => ∀ k r, w'.row k = some r → Renews w r) hop (fun c w' hc hrows => ?_)
    (fun k r hr _ => ⟨r, ?_, rfl, rfl, rfl⟩) k r hr
  · cases c with
    | put i =>
      intro k r hr
      by_cases hid : i.id = k
      · obtain ⟨hstate, hcontext, htoken⟩ := row_put_some hid hr
        have hi : Renews w i := hc
        unfold Renews
        rw [hstate, hcontext, htoken, key_of_row hr, ← hid]
        exact hi
      · exact hrows k r (((World.row_put w' i k).trans (if_neg hid)).symm.trans hr)
    | _ => exact hrows
  · rw [key_of_row hr]
    exact hr

end BankingControlPlane
