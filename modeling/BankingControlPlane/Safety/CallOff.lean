import BankingControlPlane.Plane.Waiting
import BankingControlPlane.Safety.Assurance

/-!
# Calling a payment off

* `Heard` : runs, with the Outcomes each caller was returned; `Knows` : the ids of an intent that its
  owner was told;
* `CallsOff` : an operation takes an intent straight to `CANCELLED`; `CanCallOff` : its owner can call
  one with what it knows;
* `call_off_iff` : it can exactly when the intent is `AWAITING_CONFIRMATION` under a token it was told;
  hence always, where policy asks no proposal for a step-up.
-/

namespace BankingControlPlane
open Effects

variable {env : Env} {kind : StoreKind} {w : World} {r : Intent}

/-! ## What a customer was told -/

/-- The Context an operation is called with. -/
def Op.caller : Op → Option Context
  | .query ctx _ | .propose ctx _ _ | .stepUp ctx _ | .confirm ctx _ | .cancel ctx _
  | .reconcile ctx _ | .status ctx _ | .explain ctx _ => some ctx
  | .sweep => none

/-- The ids an operation is called with. -/
def Op.ids : Op → List String
  | .stepUp _ id | .confirm _ id | .cancel _ id | .reconcile _ id | .status _ id
  | .explain _ id => [id]
  | .query .. | .propose .. | .sweep => []

/-- An Outcome, and who it was returned to. -/
structure Spoken where
  caller : Context
  outcome : Outcome
deriving DecidableEq, Repr

def Step.spoken (env : Env) (kind : StoreKind) (w : World) : Step → List Spoken
  | .op o =>
    match o.caller, (exec env kind o w).1 with
    | some ctx, .ok (.outcome outcome) => [⟨ctx, outcome⟩]
    | _, _ => []
  | _ => []

/-- The worlds that runs of admissible steps reach, with what was returned on the way. -/
inductive Heard (env : Env) (kind : StoreKind) (admissible : World → Step → Prop) :
    List Spoken → World → Prop
  | start (bank : MockBank) : Heard env kind admissible [] { bank := bank }
  | step {log : List Spoken} {w : World} (s : Step) (h : Heard env kind admissible log w)
      (hs : admissible w s) : Heard env kind admissible (log ++ s.spoken env kind w) (s.next env kind w)

/-- An Outcome about `r` told its owner this id. -/
def Knows (log : List Spoken) (r : Intent) (id : String) : Prop :=
  ∃ s ∈ log, samePrincipal r s.caller ∧ s.outcome.intentId = some r.id ∧
    (s.outcome.intentId = some id ∨ s.outcome.confirmationId = some id)

/-! ## What it may want -/

/-- The state an intent is stored in. -/
def World.stateOf (w : World) (kind : StoreKind) (id : String) : Option State :=
  (w.seen kind id).map Intent.state

/-- The bank is asked nothing, but for the name in the reply once the intent is `CANCELLED`. -/
def AsksBank (off : Prop) : {β : Type} → PlaneCall β → Prop
  | _, .contact _ => off
  | _, .findContacts _ | _, .balance _ | _, .cardTransactions _ | _, .paidBefore | _, .payment _
  | _, .createPix _ => False
  | _, _ => True

/-- A call on the way from `r` to `CANCELLED`: no other state is passed but a terminal one. -/
def Direct (kind : StoreKind) (r : Intent) {β : Type} (c : PlaneCall β) (w : World) : Prop :=
  (∃ st, w.stateOf kind r.id = some st ∧ (st = r.state ∨ terminal st = true)) ∧
    AsksBank (w.stateOf kind r.id = some .cancelled) c

/-- The operation takes `r` to `CANCELLED` and passes nothing else on the way. -/
def CallsOff (env : Env) (kind : StoreKind) (w : World) (r : Intent) (op : Op) : Prop :=
  (op.prog env).wp ((handler env kind).under (Direct kind r))
    (fun _ w' => w'.stateOf kind r.id = some .cancelled) (w.note (.began op))

/-- With its own Context and the ids it was told, the owner of `r` can call it off. -/
def CanCallOff (env : Env) (kind : StoreKind) (log : List Spoken) (w : World) (r : Intent) : Prop :=
  ∃ op, (∃ ctx, op.caller = some ctx ∧ samePrincipal r ctx) ∧ (∀ id ∈ op.ids, Knows log r id) ∧
    CallsOff env kind w r op

section Heard
variable {admissible : World → Step → Prop} {log : List Spoken}

theorem Heard.reach (h : Heard env kind admissible log w)
    (huntampered : ∀ w s, admissible w s → Untampered kind w s) :
    Reach env kind (fun _ => True) (Untampered kind) w := by
  induction h with
  | start bank => exact .start bank trivial
  | step s _ hs ih => exact .step s ih (huntampered _ _ hs)

theorem Heard.first (bank : MockBank) (op : Op) (hs : admissible { bank := bank } (.op op)) :
    Heard env kind admissible ((Step.op op).spoken env kind { bank := bank })
      (exec env kind op { bank := bank }).2 :=
  .step (.op op) (.start bank) hs

theorem Knows.more {id : String} (h : Knows log r id) (more : List Spoken) :
    Knows (log ++ more) r id := by
  obtain ⟨s, hs, hrest⟩ := h
  exact ⟨s, List.mem_append_left _ hs, hrest⟩

/-- What the owner knows of an intent it knows of every version of it. -/
theorem Knows.of_same {i : Intent} {id : String} (h : Knows log r id) (hid : i.id = r.id)
    (hcontext : i.context = r.context) : Knows log i id := by
  obtain ⟨s, hs, hp, hrest⟩ := h
  refine ⟨s, hs, ?_, hid ▸ hrest⟩
  unfold samePrincipal
  rw [hcontext]
  exact hp

end Heard

/-! ## The stored state, call by call -/

@[simp] theorem World.stateOf_note (w : World) (o : Obs) (kind : StoreKind) (k : String) :
    (w.note o).stateOf kind k = w.stateOf kind k := by
  rw [stateOf, World.seen_note, stateOf]

@[simp] theorem World.stateOf_append (w : World) (id : String) (e : Entry) (kind : StoreKind)
    (k : String) : (w.append id e).stateOf kind k = w.stateOf kind k := by
  rw [stateOf, World.seen_append, stateOf]

@[simp] theorem World.stateOf_put (w : World) (i : Intent) (kind : StoreKind) :
    (w.put i).stateOf kind i.id = some i.state := by
  rw [stateOf, World.seen_put, if_pos rfl]
  cases kind <;> rfl

/-- A write in place shows in the dict, and only there. -/
theorem World.stateOf_assign (w : World) (i : Intent) (kind : StoreKind) :
    (w.assign i).stateOf kind i.id = w.stateOf kind i.id ∨
      (w.assign i).stateOf kind i.id = some i.state := by
  rw [stateOf, World.seen_assign]
  split_ifs
  · exact Or.inr rfl
  · exact Or.inl rfl

/-- An operation that has found its intent. -/
theorem wp_seeking {op : Op} {sk : Seeking} (h : op.seeking env = some sk) {c : Intent}
    (hf : w.named kind sk.ref = some c) (hm : sk.mine c = true)
    {A : {β : Type} → PlaneCall β → World → Prop} {Q : World → Prop} :
    (op.prog env).wp ((handler env kind).under A) (fun _ => Q) (w.note (.began op)) ↔
      A sk.ref.call (w.note (.began op)) ∧
        (sk.held c).wp ((handler env kind).under A) (fun _ => Q) (w.note (.began op)) := by
  have hserve : (handler env kind).on sk.ref.call (w.note (.began op)) =
      (w.named kind sk.ref, w.note (.began op)) := by
    rw [← World.named_note w (.began op)]
    exact serve_ref env kind sk.ref _
  have hfilter : (w.named kind sk.ref).filter sk.mine = some c := by
    rw [hf, Option.filter_some, hm, if_pos rfl]
  rw [Op.prog_seeking h, wp_replying, Prog.wp_call, Handler.under_iff, hserve, hfilter]
  exact Iff.rfl

/-! ## A token that was told -/

/-- The intent is stored as it was, or is off. -/
def OnTheWay (kind : StoreKind) (r : Intent) (w : World) : Prop :=
  w.stateOf kind r.id = some r.state ∨ w.stateOf kind r.id = some .cancelled

theorem OnTheWay.direct (h : OnTheWay kind r w) {β : Type} {c : PlaneCall β}
    (hc : AsksBank (w.stateOf kind r.id = some .cancelled) c) : Direct kind r c w := by
  rcases h with h | h
  · exact ⟨⟨_, h, Or.inl rfl⟩, hc⟩
  · exact ⟨⟨_, h, Or.inr rfl⟩, hc⟩

theorem OnTheWay.append (h : OnTheWay kind r w) (id : String) (e : Entry) :
    OnTheWay kind r (w.append id e) := by
  unfold OnTheWay
  rw [World.stateOf_append]
  exact h

theorem OnTheWay.assign (h : OnTheWay kind r w) {i : Intent} (hid : i.id = r.id)
    (hi : i.state = .cancelled) : OnTheWay kind r (w.assign i) := by
  have hassign := w.stateOf_assign i kind
  rw [hid, hi] at hassign
  rcases hassign with heq | heq
  · unfold OnTheWay
    rwa [heq]
  · exact Or.inr heq

theorem World.off_put (w : World) {i : Intent} (hid : i.id = r.id) (hi : i.state = .cancelled) :
    (w.put i).stateOf kind r.id = some .cancelled := by
  rw [← hid, World.stateOf_put, hi]

/-- `cancel`, once it holds the intent, goes straight to `CANCELLED`. -/
theorem cancelHeld_direct (h : OnTheWay kind r w) (hcancellable : cancellable r.state = true)
    (ctx : Context) : (cancelHeld ctx r).wp ((handler env kind).under (Direct kind r))
      (fun _ w' => w'.stateOf kind r.id = some .cancelled) w := by
  have edge := cancel_edge hcancellable
  simp only [cancelHeld, Prog.bind_eq]
  rw [attempt_move_some edge]
  simp only [move, transition, edge, saveReason, assign, statusOf, summary, Prog.bind_eq, Prog.pure_eq,
    Prog.perform_bind, Prog.call_bind, Prog.ret_bind, Prog.wp_call, Handler.under_iff]
  have happended := h.append r.id (.transition r.state .cancel .cancelled (.by ctx.customerId))
  have hmoved := happended.assign (i := { r with state := .cancelled }) rfl rfl
  have hsaved : ∀ (w : World) (reason : String),
      (w.put { r with state := .cancelled, reason := reason }).stateOf kind r.id = some .cancelled :=
    fun w reason => w.off_put rfl rfl
  have hreasoned : ∀ w : World, OnTheWay kind r ((w.put { r with state := .cancelled }).assign
      { r with state := .cancelled, reason := "cancelled by the customer" }) := fun w =>
    OnTheWay.assign (Or.inr (hsaved w r.reason)) rfl rfl
  refine ⟨h.direct trivial, happended.direct trivial, hmoved.direct trivial, ?_⟩
  refine ⟨OnTheWay.direct (Or.inr (hsaved _ r.reason)) trivial, (hreasoned _).direct trivial, ?_⟩
  exact ⟨OnTheWay.direct (Or.inr (hsaved _ _)) (hsaved _ _), hsaved _ _⟩

/-- **A customer that was told the token of an intent that awaits confirmation can call it off.** -/
theorem canCallOff_of_knows (h : Good env kind w)
    (hs : ∀ k r, w.row k = some r → Sealed env w.history r) {log : List Spoken} {token : String}
    (hr : w.seen kind r.id = some r) (hstate : r.state = .awaitingConfirmation)
    (htoken : r.confirmationId = some token) (hknows : Knows log r token) :
    CanCallOff env kind log w r := by
  have hway : OnTheWay kind r (w.note (.began (.cancel r.context token))) := by
    refine Or.inl ?_
    rw [World.stateOf_note, World.stateOf, hr]
    rfl
  have hcancellable : cancellable r.state = true := by rw [hstate]; rfl
  refine ⟨.cancel r.context token, ⟨r.context, rfl, rfl, rfl⟩, fun id hid => ?_, ?_⟩
  · rw [List.mem_singleton.mp hid]
    exact hknows
  · have hsk : (Op.cancel r.context token).seeking env = some ⟨.token token,
        fun i => samePrincipal i r.context, cancelHeld r.context⟩ := rfl
    have hmine : samePrincipal r r.context := ⟨rfl, rfl⟩
    have hholder : w.named kind (.token token) = some r := h.holder_of_seen hs hr htoken
    refine (wp_seeking hsk hholder (decide_eq_true hmine)).mpr ⟨?_, ?_⟩
    · exact hway.direct trivial
    · exact cancelHeld_direct hway hcancellable r.context

/-! ## Nothing else calls it off -/

/-- What is left as it was has not been called off. -/
theorem CallsOff.moved {op : Op} (hoff : CallsOff env kind w r op) (h : Good env kind w)
    (hr : w.seen kind r.id = some r) (hcancellable : cancellable r.state = true) :
    (exec env kind op w).2.row r.id ≠ w.row r.id := by
  intro heq
  obtain ⟨i, hi, hstate⟩ := Option.map_eq_some_iff.mp (Prog.run_post hoff)
  obtain ⟨row, hrow, halike⟩ := h.row_of_seen hr
  obtain ⟨row', hrow', halike'⟩ := (h.exec op).row_of_seen hi
  rw [heq, hrow] at hrow'
  obtain rfl := Option.some.inj hrow'
  rw [halike.same.2.1, ← halike'.same.2.1, hstate] at hcancellable
  cases hcancellable

/-- An operation about one intent moves none but the one it finds. -/
theorem found_of_moved (h : Good env kind w) {op : Op} {sk : Seeking} (hsk : op.seeking env = some sk)
    (hr : w.seen kind r.id = some r) (hmoved : (exec env kind op w).2.row r.id ≠ w.row r.id) :
    w.named kind sk.ref = some r ∧ sk.mine r = true := by
  by_contra hnot
  refine hmoved (row_spared (.inl rfl) (exec_spares hsk fun c hc hm => held_spares hsk fun hid => hnot ?_))
  have hseen : w.seen kind c.id = some c := by
    obtain ⟨ref, mine, held⟩ := sk
    cases ref with
    | intent id =>
      have hc : w.seen kind id = some c := hc
      rwa [World.seen_id hc]
    | token token => exact (h.seen_of_holder hc).1
  rw [hid, hr] at hseen
  obtain rfl := Option.some.inj hseen
  exact ⟨hc, hm⟩

/-- A proposal, a query and a reading of the trail move nothing that was there. -/
theorem seeking_of_moved (h : Good env kind w) {op : Op} (hr : w.seen kind r.id = some r)
    (hcaller : op.caller ≠ none) (hmoved : (exec env kind op w).2.row r.id ≠ w.row r.id) :
    ∃ sk, op.seeking env = some sk := by
  cases op with
  | query ctx action =>
    refine absurd (row_spared (.inl rfl) (Prog.wp_of_calls (calls_replying ?_) _)) hmoved
    exact Prog.calls_mono (fun _ => spares_of_reading) (saving_query ctx action)
  | propose ctx proposed text =>
    refine absurd (row_spared (.inl rfl) (propose_spares (fun hid => ?_) ctx proposed text)) hmoved
    obtain ⟨row, hrow, -⟩ := h.row_of_seen hr
    have hfresh := h.inv.fresh_row
    rw [hid, hrow] at hfresh
    cases hfresh
  | sweep => exact absurd rfl hcaller
  | explain ctx id => exact absurd rfl hmoved
  | _ => exact ⟨_, rfl⟩

/-- A step-up passes through `VALIDATED`. -/
theorem stepUpHeld_indirect (hstate : r.state = .awaitingStepUp)
    {Q : Except Exn Outcome → World → Prop} :
    ¬ (stepUpHeld env r).wp ((handler env kind).under (Direct kind r)) Q w := by
  intro h
  have edge : TRANSITIONS r.state .stepUp = some .validated := by rw [hstate]; rfl
  simp only [stepUpHeld, if_neg (not_not.mpr hstate), move, transition, edge, assign, decideOn,
    Prog.bind_eq, Prog.pure_eq, Prog.perform_bind, Prog.call_bind, Prog.ret_bind, Prog.wp_call,
    Handler.under_iff] at h
  obtain ⟨-, -, -, -, -, -, -, ⟨⟨st, hst, hdirect⟩, -⟩, -⟩ := h
  have hsaved : some State.validated = some st := (World.stateOf_put _ _ _).symm.trans hst
  obtain rfl := Option.some.inj hsaved
  rw [hstate] at hdirect
  rcases hdirect with hdirect | hdirect <;> cases hdirect

/-- An operation that only answers moves nothing. -/
theorem row_of_statusOf {op : Op} {sk : Seeking} (hsk : op.seeking env = some sk)
    (hf : w.named kind sk.ref = some r) (hm : sk.mine r = true) {message : String}
    {status : Option Status} (hheld : sk.held r = statusOf r message status) (k : String) :
    (exec env kind op w).2.row k = w.row k := by
  rw [exec_found hsk hf hm, hheld]
  rfl

/-- **Whoever can call an intent off was told its token, and it awaits confirmation.** -/
theorem knows_of_canCallOff (h : Good env kind w) (hrows : ∀ k r, w.row k = some r → Row env w.history r)
    {log : List Spoken} (hr : w.seen kind r.id = some r) (hcancellable : cancellable r.state = true)
    (hcan : CanCallOff env kind log w r) :
    r.state = .awaitingConfirmation ∧ ∃ token, r.confirmationId = some token ∧ Knows log r token := by
  obtain ⟨op, ⟨ctx, hcaller, -⟩, hids, hoff⟩ := hcan
  have hmoved := hoff.moved h hr hcancellable
  obtain ⟨sk, hsk⟩ := seeking_of_moved h hr (by simp [hcaller]) hmoved
  obtain ⟨hf, hm⟩ := found_of_moved h hsk hr hmoved
  obtain ⟨row, hrow, halike⟩ := h.row_of_seen hr
  -- an intent that awaits a step-up has no token to be found by
  have htoken : ∀ token, w.named kind (.token token) = some r → token ∈ op.ids →
      r.state = .awaitingConfirmation ∧ ∃ token, r.confirmationId = some token ∧ Knows log r token := by
    intro token hholder hmem
    have ht := (h.seen_of_holder hholder).2
    refine ⟨(cancellable_iff.mp hcancellable).resolve_left fun hstate => ?_, token, ht, hids _ hmem⟩
    have hnone := (hrows _ _ hrow).untokened (by rw [← halike.same.2.1, hstate]; rfl)
    rw [← halike.same.2.2.1, ht] at hnone
    cases hnone
  cases op <;> simp only [Op.seeking, Option.some.injEq, reduceCtorEq] at hsk <;> subst hsk
  case stepUp ctx' id =>
    by_cases hstate : r.state = .awaitingStepUp
    · exact absurd ((wp_seeking rfl hf hm).mp hoff).2 (stepUpHeld_indirect hstate)
    · exact absurd (row_of_statusOf rfl hf hm (if_pos hstate) _) hmoved
  case confirm ctx' token => exact htoken token hf (List.mem_singleton_self _)
  case cancel ctx' token => exact htoken token hf (List.mem_singleton_self _)
  case reconcile ctx' id =>
    have hstate : r.state ≠ .unknown := by
      rcases cancellable_iff.mp hcancellable with hs | hs <;> rw [hs] <;> decide
    exact absurd (row_of_statusOf rfl hf hm (if_pos hstate) _) hmoved
  case status ctx' id => exact absurd (row_of_statusOf rfl hf hm rfl _) hmoved

/-! ## Whole runs -/

/-- Policy asks no proposal for a step-up, and none dies with its intent saved as waiting. -/
def Step.Confirmable (env : Env) (kind : StoreKind) (w : World) : Step → Prop
  | .op (.propose ctx proposed _) => ¬ AsksStepUp env w ctx proposed
  | .cut (.propose ctx proposed text) calls =>
    ∀ r, (BankingControlPlane.cut env kind (.propose ctx proposed text) calls w).row
      (newIdAt env "pix" w.drawn) = some r → cancellable r.state = false
  | _ => True

/-- What can be cancelled awaits confirmation under a token its owner was told. -/
def Callable (log : List Spoken) (w : World) : Prop :=
  ∀ k r, w.row k = some r → cancellable r.state = true →
    r.state = .awaitingConfirmation ∧ ∃ token, r.confirmationId = some token ∧ Knows log r token

section Runs
variable {log : List Spoken}

theorem Callable.renewed (hc : Callable log w) (hr : Renews w r) (hcancellable : cancellable r.state = true)
    (more : List Spoken) : r.state = .awaitingConfirmation ∧ ∃ token, r.confirmationId = some token ∧
      Knows (log ++ more) r token := by
  obtain ⟨row, hrow, hstate, htoken, hcontext⟩ := hr hcancellable
  obtain ⟨hawaits, token, ht, hknows⟩ := hc _ row hrow (hstate ▸ hcancellable)
  refine ⟨hstate ▸ hawaits, token, htoken ▸ ht, ?_⟩
  exact (hknows.of_same (key_of_row hrow).symm hcontext.symm).more more

/-- An operation, whole or cut short, that is no proposal. -/
theorem Callable.does (h : Good env kind w) (hc : Callable log w) {op : Op} {s : Step} (hs : s.Does op)
    (hop : ∀ ctx proposed text, op ≠ .propose ctx proposed text) (more : List Spoken) :
    Callable (log ++ more) (s.next env kind w) := by
  intro k r hr hcancellable
  have hnone : ∀ k r, w.row k = some r → r.state ≠ .awaitingStepUp := by
    intro k r hr hstate
    have hawaits := (hc k r hr (by rw [hstate]; rfl)).1
    rw [hstate] at hawaits
    cases hawaits
  exact hc.renewed (renews_next hs (saving_op h hnone hop) hr) hcancellable more

/-- A proposal, whole or cut short, leaves the other intents. -/
theorem Callable.others (h : Callable log w) {ctx : Context} {proposed : ProposedPix} {text : String}
    {s : Step} (hs : s.Does (.propose ctx proposed text)) (more : List Spoken) {k : String}
    (hk : newIdAt env "pix" w.drawn ≠ k) (hr : (s.next env kind w).row k = some r)
    (hcancellable : cancellable r.state = true) : r.state = .awaitingConfirmation ∧
      ∃ token, r.confirmationId = some token ∧ Knows (log ++ more) r token := by
  rw [row_spared hs (propose_spares hk ctx proposed text)] at hr
  obtain ⟨hawaits, token, ht, hknows⟩ := h k r hr hcancellable
  exact ⟨hawaits, token, ht, hknows.more more⟩

theorem Callable.step (h : Good env kind w) (hc : Callable log w) {s : Step} (hs : Untampered kind w s)
    (hconfirmable : s.Confirmable env kind w) :
    Callable (log ++ s.spoken env kind w) (s.next env kind w) := by
  cases s with
  | splice id columns => exact hs.elim
  | bank b =>
    intro k r hr hcancellable
    obtain ⟨hawaits, token, ht, hknows⟩ := hc k r hr hcancellable
    exact ⟨hawaits, token, ht, hknows.more _⟩
  | cut op n =>
    by_cases hop : ∃ ctx proposed text, op = .propose ctx proposed text
    · obtain ⟨ctx, proposed, text, rfl⟩ := hop
      intro k r hr hcancellable
      by_cases hk : newIdAt env "pix" w.drawn = k
      · rw [hconfirmable r (hk ▸ hr)] at hcancellable
        cases hcancellable
      · exact hc.others (.inr ⟨n, rfl⟩) _ hk hr hcancellable
    · exact hc.does h (.inr ⟨n, rfl⟩) (fun ctx proposed text heq => hop ⟨ctx, proposed, text, heq⟩) _
  | op op =>
    by_cases hop : ∃ ctx proposed text, op = .propose ctx proposed text
    · obtain ⟨ctx, proposed, text, rfl⟩ := hop
      intro k r hr hcancellable
      by_cases hk : newIdAt env "pix" w.drawn = k
      · obtain ⟨hawaits, hcontext, o, token, hreply, hoid, hotoken, ht⟩ :=
          exec_issues h hconfirmable (hk ▸ hr) hcancellable
        refine ⟨hawaits, token, ht, ⟨ctx, o⟩, List.mem_append_right _ ?_, ?_, hoid, Or.inr hotoken⟩
        · simp only [Step.spoken, Op.caller, hreply, List.mem_singleton]
        · rw [← hcontext]
          exact ⟨rfl, rfl⟩
      · exact hc.others (.inl rfl) _ hk hr hcancellable
    · exact hc.does h (.inl rfl) (fun ctx proposed text heq => hop ⟨ctx, proposed, text, heq⟩) _

/-- **Where every step is confirmable, every owner knows the token of what it can cancel.** -/
theorem Heard.callable (h : Heard env kind
    (fun w s => Untampered kind w s ∧ s.Confirmable env kind w) log w) : Callable log w := by
  induction h with
  | start bank =>
    intro k r hr
    simp [World.row] at hr
  | step s h hs ih =>
    have hgood := (h.reach fun _ _ hs => hs.1).good fun _ _ hs => hs.sound
    exact ih.step hgood hs.1 hs.2

end Runs

/-- **What can be cancelled can be called off by its owner exactly when it awaits confirmation under a
token that the owner was told.** Hence, in a run where policy asks no proposal for a step-up and none dies
with its intent saved as waiting, everything that can be cancelled can always be called off. -/
theorem call_off_iff (env : Env) (kind : StoreKind) :
    (∀ log w, Heard env kind (Untampered kind) log w → ∀ r, w.seen kind r.id = some r →
      cancellable r.state = true → (CanCallOff env kind log w r ↔
        r.state = .awaitingConfirmation ∧ ∃ token, r.confirmationId = some token ∧ Knows log r token)) ∧
    ∀ log w, Heard env kind (fun w s => Untampered kind w s ∧ s.Confirmable env kind w) log w →
      ∀ r, w.seen kind r.id = some r → cancellable r.state = true → CanCallOff env kind log w r := by
  refine ⟨fun log w hw r hr hcancellable => ?_, fun log w hw r hr hcancellable => ?_⟩
  · have hreach := hw.reach fun _ _ hs => hs
    obtain ⟨hgood, hrows, -⟩ := hreach.overseen
    refine ⟨knows_of_canCallOff hgood hrows hr hcancellable, ?_⟩
    rintro ⟨hstate, token, htoken, hknows⟩
    exact canCallOff_of_knows hgood (hreach.sealed fun _ _ hs => hs) hr hstate htoken hknows
  · have hreach := hw.reach fun _ _ hs => hs.1
    have hgood := hreach.good fun _ _ hs => hs.sound
    obtain ⟨row, hrow, halike⟩ := hgood.row_of_seen hr
    obtain ⟨hid, hstate, htoken, hcontext, -⟩ := halike.same
    obtain ⟨hawaits, token, ht, hknows⟩ := hw.callable _ row hrow (hstate ▸ hcancellable)
    exact canCallOff_of_knows hgood (hreach.sealed fun _ _ hs => hs) hr (hstate.trans hawaits)
      (htoken.trans ht) (hknows.of_same hid hcontext)

/-! R$ 200,00 proposed in a strong session, and R$ 1.500,00 in one that is not. -/

def strongProposal : Op := proposal "Renata" money200 renata_named

def weakProposal : Op :=
  .propose weakSession { recipient := "Renata", amount := money1500, named := renata_named } "pay"

/-- The world after a first operation, and what it said. -/
def firstWorld (op : Op) : World := (exec (sampleEnv noon) .postgres op { bank := {} }).2

def firstWords (op : Op) : List Spoken := (Step.op op).spoken (sampleEnv noon) .postgres { bank := {} }

theorem strongProposal_heard : Heard (sampleEnv noon) .postgres
    (fun w s => Untampered .postgres w s ∧ s.Confirmable (sampleEnv noon) .postgres w)
    (firstWords strongProposal) (firstWorld strongProposal) := by
  refine Heard.first {} strongProposal ⟨trivial, ?_⟩
  rintro ⟨recipient, -, -, -, hasks⟩
  exact evaluate_stepUp_weak hasks rfl

theorem weakProposal_heard : Heard (sampleEnv noon) .postgres (Untampered .postgres)
    (firstWords weakProposal) (firstWorld weakProposal) :=
  Heard.first {} weakProposal trivial

theorem weakProposal_awaits :
    ∃ r ∈ (firstWorld weakProposal).rows, r.state = .awaitingStepUp := by
  decide +kernel

theorem call_off_iff_sample :
    (∀ r, (firstWorld strongProposal).seen .postgres r.id = some r → cancellable r.state = true →
      CanCallOff (sampleEnv noon) .postgres (firstWords strongProposal) (firstWorld strongProposal) r) ∧
    (firstWorld strongProposal).rows.map Intent.state = [.awaitingConfirmation] ∧
    (∀ r, (firstWorld weakProposal).seen .postgres r.id = some r → r.state = .awaitingStepUp →
      ¬ CanCallOff (sampleEnv noon) .postgres (firstWords weakProposal) (firstWorld weakProposal) r) ∧
    (firstWorld weakProposal).rows.map Intent.state = [.awaitingStepUp] := by
  obtain ⟨hiff, halways⟩ := call_off_iff (sampleEnv noon) .postgres
  refine ⟨halways _ _ strongProposal_heard, by decide +kernel, fun r hr hstate hcan => ?_,
    by decide +kernel⟩
  have hawaits := ((hiff _ _ weakProposal_heard r hr (by rw [hstate]; rfl)).mp hcan).1
  rw [hstate] at hawaits
  cases hawaits

/-- The table lets an intent that awaits a step-up be cancelled; no operation does. -/
theorem step_up_uncancelled : ¬ ∀ log w, Heard (sampleEnv noon) .postgres (Untampered .postgres) log w →
    ∀ r, w.seen .postgres r.id = some r → cancellable r.state = true →
      CanCallOff (sampleEnv noon) .postgres log w r := by
  intro h
  obtain ⟨r, hmem, hstate⟩ := weakProposal_awaits
  have hcancellable : cancellable r.state = true := by rw [hstate]; rfl
  have hreach := weakProposal_heard.reach fun _ _ hs => hs
  obtain ⟨hgood, hrows, -⟩ := hreach.overseen
  have hr : (firstWorld weakProposal).seen .postgres r.id = some r :=
    Keyed.find_of_mem Intent.id hgood.inv.nodup hmem
  have hawaits := (knows_of_canCallOff hgood hrows hr hcancellable
    (h _ _ weakProposal_heard r hr hcancellable)).1
  rw [hstate] at hawaits
  cases hawaits

end BankingControlPlane
