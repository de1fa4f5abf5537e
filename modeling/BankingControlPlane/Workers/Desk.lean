import BankingControlPlane.Plane.Specs
import BankingControlPlane.Workers.Tables

/-!
# What a worker goes by

Between two of its calls other workers may have written anything. A worker saves and pays on what it has
been answered itself, and on nothing else.

* `Desk` : what a worker has been answered; `Desk.MaySave`, `Desk.MayPay` : what it needs for a save, for
  asking the bank;
* `works` : what a call of a plane needs of the desk and leaves on it; `Job.works` : every job does only
  what its desk allows, and reports `FAILED` only of an intent that lies there as such;
* `pays` : the same of a statement; `pays_lower` : the steps of `create_pix` do what the call does.
-/

namespace BankingControlPlane
open Effects

/-- `payer`, `recorder` : whether it may ask the bank, and record a consent; `seen` : the state an intent was last read or saved in; `word` : the intent whose consent was recorded,
or whose copy was handed over; `booked`, `known`, `unpaid` : the key last inserted, the payment last read,
the key last found without one. -/
structure Desk where
  payer : Bool := false
  recorder : Bool := false
  seen : Option (String × State) := none
  word : Option String := none
  booked : Option String := none
  known : Option (String × Receipt) := none
  unpaid : Option String := none

namespace Desk

def saw (d : Desk) (i : Intent) : Desk := { d with seen := some (i.id, i.state) }

/-- What a save needs. -/
structure MaySave (d : Desk) (i : Intent) : Prop where
  completed : i.state = .completed → ∃ r, d.known = some (i.id, r)
  failed : i.state = .failed → d.unpaid = some i.id
  reversed : i.state ≠ .reversed

/-- What asking the bank needs. -/
structure MayPay (d : Desk) (key : String) : Prop where
  payer : d.payer = true
  word : d.word = some key
  seen : d.seen = some (key, .submitted)

/-- What an answer of `create_pix` leaves on the desk. -/
def Told (d : Desk) (key : String) : Except BankExn Receipt → Desk → Prop
  | .ok r, d' => d'.seen = d.seen ∧ d'.known = some (key, r)
  | .error (.error _), d' => d'.seen = d.seen ∧ d'.unpaid = some key
  | .error (.timeout _), d' => d'.seen = d.seen

end Desk

/-- States it takes no payment to be in, and no missing one. -/
def plain : State → Bool
  | .completed | .failed | .reversed => false
  | _ => true

/-- Every event of the machine leads to one state. -/
def Hop.target : Hop → State
  | .validate | .stepUp => .validated
  | .reject | .cancel => .cancelled
  | .requireStepUp => .awaitingStepUp
  | .awaitConfirmation => .awaitingConfirmation
  | .confirm => .authorized
  | .submit => .submitted
  | .complete => .completed
  | .pend => .pending
  | .fail => .failed
  | .timeout => .unknown
  | .reverse => .reversed

theorem target_of_edge {s s' : State} {event : Hop} (edge : TRANSITIONS s event = some s') :
    s' = event.target := by
  cases s <;> cases event <;> cases edge <;> rfl

def Entry.consents : Entry → Bool
  | .confirmation .. => true
  | _ => false

/-- What a call needs of the desk and leaves on it, whatever it is answered. -/
def works : Prog.Meaning Desk PlaneCall :=
  fun {β} (c : PlaneCall β) (K : β → Desk → Prop) (d : Desk) =>
    match β, c, K with
    | _, .get id, K => K none d ∧ ∀ i : Intent, i.id = id → K (some i) (d.saw i)
    | _, .byConfirmation _, K => K none d ∧ ∀ i, K (some i) (d.saw i)
    | _, .put i, K => d.MaySave i ∧ K () (d.saw i)
    | _, .append id e, K =>
      if e.consents = true then d.recorder = true ∧ K () { d with word := some id } else K () d
    | _, .payment key, K => (d.MayPay key ∨ d.seen = some (key, .unknown)) ∧
        (∀ r, K (some r) { d with known := some (key, r) }) ∧ K none { d with unpaid := some key }
    | _, .createPix o, K => d.MayPay o.idempotencyKey ∧ ∀ a d', d.Told o.idempotencyKey a d' → K a d'
    | _, _, K => ∀ r, K r d

/-- A reply `FAILED` is about an intent that lies on the desk as such. -/
def Reports : Except Exn Reply → Desk → Prop
  | .ok (.outcome o), d => o.status = .failed → ∃ id, o.intentId = some id ∧ d.seen = some (id, .failed)
  | _, _ => True

abbrev Works (p : Plane Outcome) (d : Desk) : Prop := p.wp works (fun x => Reports (x.map .outcome)) d

section Walk
variable {env : Env} {i : Intent} {d : Desk}

/-- The intent lies on the desk as it is held. -/
abbrev On (i : Intent) (d : Desk) : Prop := d.seen = some (i.id, i.state)

theorem works_statusOf (hon : On i d) {message : String} {status : Option Status}
    (hstatus : status ≠ some .failed) : Works (statusOf i message status) d := by
  simp only [Works, statusOf, summary, Prog.bind_eq, Prog.pure_eq, Prog.perform_bind, Prog.call_bind,
    Prog.ret_bind]
  intro contact hfailed
  refine ⟨i.id, rfl, hon.trans ?_⟩
  cases status with
  | some status => exact absurd (congrArg some hfailed) hstatus
  | none =>
    have hsettled : i.state.settled.getD .deny = .failed := hfailed
    cases hstate : i.state <;> rw [hstate] at hsettled <;> first | rfl | cases hsettled

/-- An outcome of another status, after the intent's summary. -/
theorem works_summary {f : Summary → Outcome} (hf : ∀ x, (f x).status ≠ .failed) :
    Works ((summary i).bind fun x => .ret (f x)) d := by
  simp only [Works, summary, Prog.bind_eq, Prog.pure_eq, Prog.perform_bind, Prog.call_bind, Prog.ret_bind]
  exact fun contact hfailed => absurd hfailed (hf _)

theorem works_assign {f : Intent → Plane Outcome} (hf : Works (f i) d) : Works ((assign i).bind f) d := by
  simp only [assign, Prog.bind_eq, Prog.pure_eq, Prog.perform_bind, Prog.call_bind, Prog.ret_bind]
  exact fun _ => hf

theorem works_append {id : String} {e : Entry} {k : Unit → Plane Outcome} (he : e.consents = false)
    (hk : Works (k ()) d) : Works (.call (.append id e) k) d := by
  change if e.consents = true then _ else _
  rw [if_neg (by rw [he]; exact Bool.false_ne_true)]
  exact hk

theorem works_consent {id : String} {e : Entry} {k : Unit → Plane Outcome} (he : e.consents = true)
    (hrecorder : d.recorder = true) (hk : Works (k ()) { d with word := some id }) :
    Works (.call (.append id e) k) d := by
  change if e.consents = true then _ else _
  rw [if_pos he]
  exact ⟨hrecorder, hk⟩

/-- A hop, where the machine has it, and what follows from the state it leads to. -/
theorem works_move {event : Hop} {detail : Detail} {f : Intent → Plane Outcome}
    (hf : ∀ target, TRANSITIONS i.state event = some target →
      d.MaySave { i with state := target } ∧
        ∀ j : Intent, j.id = i.id → j.state = target → Works (f j) (d.saw j)) :
    Works ((move i event detail).bind f) d := by
  simp only [move, transition, Prog.bind_eq, Prog.perform_bind]
  cases edge : TRANSITIONS i.state event with
  | none => exact works_append rfl trivial
  | some target =>
    simp only [assign, Prog.bind_eq, Prog.pure_eq, Prog.perform_bind, Prog.call_bind, Prog.ret_bind]
    obtain ⟨hsave, hnext⟩ := hf target edge
    exact works_append rfl fun _ => ⟨hsave, hnext { i with state := target } rfl rfl⟩

theorem maySave_of_plain (hi : plain i.state = true) : d.MaySave i := by
  refine ⟨fun h => ?_, fun h => ?_, fun h => ?_⟩ <;> rw [h] at hi <;> cases hi

theorem works_saveReason {reason : String} {f : Intent → Plane Outcome} (hsave : d.MaySave i)
    (hf : ∀ j : Intent, j.id = i.id → j.state = i.state → Works (f j) (d.saw j)) :
    Works ((saveReason i reason).bind f) d := by
  simp only [saveReason, assign, Prog.bind_eq, Prog.pure_eq, Prog.perform_bind, Prog.call_bind,
    Prog.ret_bind]
  exact fun _ => ⟨⟨hsave.completed, hsave.failed, hsave.reversed⟩, hf { i with reason := reason } rfl rfl⟩

theorem works_plainMove {event : Hop} {detail : Detail} {f : Intent → Plane Outcome}
    (hplain : plain event.target = true)
    (hf : ∀ j : Intent, j.id = i.id → j.state = event.target → Works (f j) (d.saw j)) :
    Works ((move i event detail).bind f) d := by
  refine works_move fun target edge => ?_
  obtain rfl := target_of_edge edge
  exact ⟨maySave_of_plain hplain, hf⟩

theorem works_reject {detail : Detail} {reason message : String} :
    Works ((move i .reject detail).bind fun i =>
      (saveReason i reason).bind fun i => statusOf i message (some .deny)) d := by
  refine works_plainMove rfl fun j _ hj => ?_
  refine works_saveReason (maySave_of_plain (by rw [hj]; rfl)) fun k _ _ => ?_
  exact works_statusOf rfl (by decide)

theorem works_decideOn : Works (decideOn env i) d := by
  simp only [decideOn, Prog.bind_eq, Prog.perform_bind]
  refine fun paidBefore => works_append rfl fun moment => works_append rfl ?_
  unfold applyVerdict
  split
  · exact works_reject
  · refine works_plainMove rfl fun j _ _ => ?_
    exact works_summary fun _ h => by cases h
  · intro token instant
    refine works_assign ?_
    refine works_plainMove rfl fun j _ _ => ?_
    exact works_summary fun _ h => by cases h
  all_goals exact works_reject

/-! ## Paying -/

theorem works_executeAnswer {answer : Except BankExn Receipt} {d' : Desk} (hd : d.Told i.id answer d')
    (hstate : i.state = .submitted) : Works (executeAnswer i answer) d' := by
  cases answer with
  | error e =>
    cases e with
    | timeout message =>
      refine works_append rfl ?_
      refine works_plainMove rfl fun j _ _ => ?_
      exact works_statusOf rfl (by decide)
    | error message =>
      refine works_append rfl (works_move fun target edge => ?_)
      rw [hstate] at edge
      obtain rfl := Option.some.inj edge
      refine ⟨⟨fun h => (by cases h), fun _ => hd.2, fun h => by cases h⟩, fun j _ hj => ?_⟩
      exact works_assign (works_statusOf rfl (by decide))
  | ok receipt =>
    refine works_assign (works_append rfl (works_move fun target edge => ?_))
    change TRANSITIONS i.state .complete = some target at edge
    rw [hstate] at edge
    obtain rfl := Option.some.inj edge
    refine ⟨⟨fun _ => ⟨receipt, hd.2⟩, fun h => (by cases h), fun h => by cases h⟩, fun j _ _ => ?_⟩
    exact works_statusOf rfl (by decide)

/-- `_execute`, by one who pays, on whose word it is. -/
theorem works_execute (hpayer : d.payer = true) (hword : d.word = some i.id) : Works (execute i) d := by
  refine works_plainMove rfl fun j hid hj => ?_
  refine works_append rfl ⟨⟨hpayer, hword.trans (congrArg some hid.symm), ?_⟩, fun answer d' hd => ?_⟩
  · exact congrArg (fun s => some (j.id, s)) hj
  · exact works_executeAnswer hd hj

/-! ## Each operation -/

theorem works_confirmExpired : Works (confirmExpired i) d := by
  refine works_append rfl ?_
  refine works_plainMove rfl fun j _ hj => ?_
  refine works_saveReason (maySave_of_plain (by rw [hj]; rfl)) fun k _ _ => ?_
  exact works_statusOf rfl (by decide)

theorem works_confirmAuthorized {ctx : Context} {token : String} (hpayer : d.payer = true)
    (hrecorder : d.recorder = true) (hstate : i.state = .awaitingConfirmation) : Works (confirmAuthorized ctx token i) d := by
  simp only [confirmAuthorized, Prog.bind_eq, Prog.perform_bind]
  refine fun instant => works_assign ⟨maySave_of_plain (by rw [hstate]; rfl), ?_⟩
  refine works_consent rfl hrecorder ?_
  refine works_plainMove rfl fun j hid _ => ?_
  exact works_append rfl (works_execute hpayer (congrArg some hid.symm))

theorem works_expired {f : Bool → Plane Outcome} (hf : ∀ x, Works (f x) d) :
    Works ((expired i).bind f) d := by
  unfold expired
  cases i.confirmationIssuedAt with
  | none => exact hf false
  | some issuedAt => exact fun instant => hf _

/-- What was read is held on to, or not. -/
theorem works_filter {p : Intent → Bool} {f : Option Intent → Plane Outcome}
    (hnone : ∀ d, Works (f none) d) (hsome : Works (f (some i)) (d.saw i)) :
    Works (f ((some i).filter p)) (d.saw i) := by
  cases hp : p i with
  | true => exact (Option.filter_some_pos hp).symm ▸ hsome
  | false => exact (Option.filter_some_neg hp).symm ▸ hnone _

theorem works_byConfirmation {ctx : Context} {token : String} {f : Option Intent → Plane Outcome}
    (hnone : ∀ d, Works (f none) d) (hsome : ∀ i, Works (f (some i)) (d.saw i)) :
    Works ((byConfirmation ctx token).bind f) d :=
  ⟨hnone d, fun i => works_filter hnone (hsome i)⟩

theorem works_ownedByCustomer {ctx : Context} {id : String} {f : Option Intent → Plane Outcome}
    (hnone : ∀ d, Works (f none) d) (hsome : ∀ i, i.id = id → Works (f (some i)) (d.saw i)) :
    Works ((ownedByCustomer ctx id).bind f) d :=
  ⟨hnone d, fun i hid => works_filter hnone (hsome i hid)⟩

theorem works_owned {ctx : Context} {id : String} {f : Option Intent → Plane Outcome}
    (hnone : ∀ d, Works (f none) d) (hsome : ∀ i, i.id = id → Works (f (some i)) (d.saw i)) :
    Works ((owned ctx id).bind f) d :=
  ⟨hnone d, fun i hid => works_filter hnone (hsome i hid)⟩

theorem works_unknown {ref : String} : Works (.ret (unknown ref)) d := fun h => by cases h

theorem works_confirm {ctx : Context} {token : String} (hpayer : d.payer = true)
    (hrecorder : d.recorder = true) :
    Works (confirm env ctx token) d := by
  simp only [confirm, Prog.bind_eq, Prog.pure_eq]
  refine works_byConfirmation (fun _ => works_unknown) fun i => ?_
  dsimp only
  by_cases hdone : alreadyExecuted i.state = true
  · rw [if_pos hdone]
    exact works_append rfl (works_statusOf rfl (by decide))
  rw [if_neg hdone]
  by_cases hstate : i.state = .awaitingConfirmation
  · rw [if_neg (not_not.mpr hstate)]
    refine works_expired fun late => ?_
    split_ifs
    · exact works_confirmExpired
    · exact works_append rfl (works_statusOf rfl (by decide))
    · exact works_confirmAuthorized hpayer hrecorder hstate
  · rw [if_pos hstate]
    exact works_statusOf rfl (by decide)

theorem works_cancel {ctx : Context} {token : String} : Works (cancel ctx token) d := by
  simp only [cancel, Prog.bind_eq, Prog.pure_eq]
  refine works_byConfirmation (fun _ => works_unknown) fun i => ?_
  dsimp only
  cases edge : TRANSITIONS i.state .cancel with
  | none =>
    rw [attempt_move_none edge]
    exact works_append rfl (works_statusOf rfl (by decide))
  | some target =>
    rw [attempt_move_some edge]
    refine works_plainMove rfl fun j _ hj => ?_
    exact works_saveReason (maySave_of_plain (by rw [hj]; rfl)) fun k _ _ => works_statusOf rfl (by decide)

theorem works_reconcile {ctx : Context} {id : String} : Works (reconcile ctx id) d := by
  simp only [reconcile, Prog.bind_eq, Prog.pure_eq, Prog.perform_bind]
  refine works_ownedByCustomer (fun _ => works_unknown) fun i hid => ?_
  dsimp only
  by_cases hstate : i.state = .unknown
  · rw [if_neg (not_not.mpr hstate)]
    refine ⟨Or.inr (congrArg (fun s => some (i.id, s)) hstate), fun receipt => ?_, ?_⟩
    · refine works_append rfl (works_assign (works_move fun target edge => ?_))
      obtain rfl := target_of_edge edge
      refine ⟨⟨fun _ => ⟨receipt, rfl⟩, fun h => (by cases h), fun h => by cases h⟩, fun j _ _ => ?_⟩
      exact works_statusOf rfl (by decide)
    · refine works_append rfl (works_move fun target edge => ?_)
      obtain rfl := target_of_edge edge
      refine ⟨⟨fun h => (by cases h), fun _ => rfl, fun h => by cases h⟩, fun j hj hfailed => ?_⟩
      refine works_saveReason ⟨fun h => ?_, fun _ => congrArg some hj.symm, fun h => ?_⟩ fun k _ _ =>
        works_statusOf rfl (by decide)
      · rw [hfailed] at h
        cases h
      · rw [hfailed] at h
        cases h
  · rw [if_pos hstate]
    exact works_statusOf rfl (by decide)

theorem works_stepUp {ctx : Context} {id : String} : Works (stepUp env ctx id) d := by
  simp only [stepUp, Prog.bind_eq, Prog.pure_eq, Prog.perform_bind]
  refine works_ownedByCustomer (fun _ => works_unknown) fun i hid => ?_
  dsimp only
  by_cases hstate : i.state = .awaitingStepUp
  · rw [if_neg (not_not.mpr hstate)]
    refine works_assign ⟨maySave_of_plain (by rw [hstate]; rfl), fun instant => works_append rfl ?_⟩
    exact works_plainMove rfl fun j _ _ => works_decideOn
  · rw [if_pos hstate]
    exact works_statusOf rfl (by decide)

theorem works_status {ctx : Context} {id : String} : Works (status ctx id) d := by
  simp only [status, Prog.bind_eq, Prog.pure_eq]
  refine works_owned (fun _ => works_unknown) fun i hid => ?_
  exact works_statusOf rfl (by decide)

theorem works_missing {f : List String → Plane Outcome} (hf : ∀ missing, Works (f missing) d) :
    Works ((missingPreconditions i).bind f) d := by
  simp only [missingPreconditions, Prog.bind_eq, Prog.pure_eq, Prog.perform_bind, Prog.call_bind,
    Prog.ret_bind]
  exact fun balance contact => hf _

theorem works_proposeTo {ctx : Context} {proposed : ProposedPix} {id : String} {recipient : Contact} :
    Works (proposeTo env ctx proposed id recipient) d := by
  simp only [proposeTo, Prog.bind_eq, Prog.pure_eq, Prog.perform_bind]
  refine fun createdAt => ⟨maySave_of_plain rfl, works_append rfl (works_missing fun missing => ?_)⟩
  split_ifs
  · refine works_plainMove rfl fun j _ _ => works_assign ?_
    exact fun h => by cases h
  · exact works_plainMove rfl fun j _ _ => works_decideOn

theorem works_propose {ctx : Context} {proposed : ProposedPix} {text : String} :
    Works (propose env ctx proposed text) d := by
  simp only [propose, Prog.bind_eq, Prog.pure_eq, Prog.perform_bind]
  refine fun id => works_append rfl (works_append rfl fun found => works_append rfl ?_)
  split
  · exact fun h => by cases h
  · exact works_proposeTo
  · exact fun h => by cases h

theorem works_query {ctx : Context} {action : ReadAction} : Works (query ctx action) d := by
  simp only [query, Prog.bind_eq, Prog.pure_eq, Prog.perform_bind]
  refine fun rid => works_append rfl ?_
  split_ifs
  · exact works_append rfl fun h => by cases h
  · cases action with
    | getBalance accountId =>
      intro balance
      cases balance with
      | error message => exact trivial
      | ok balance => exact works_append rfl fun h => by cases h
    | getCardTransactions days => exact fun rows => works_append rfl fun h => by cases h

theorem works_sweepEach {Q : Except Exn Unit → Desk → Prop} (hQ : ∀ x d, Q x d) (intents : List Intent) :
    (sweepEach intents).wp works Q d := by
  induction intents generalizing d with
  | nil => exact hQ _ _
  | cons i rest ih =>
    simp only [sweepEach, move, transition, saveReason, assign, Prog.bind_eq, Prog.pure_eq,
      Prog.perform_bind]
    change Prog.wp works Q _ d
    cases edge : TRANSITIONS i.state .timeout with
    | none => exact hQ _ _
    | some target =>
      obtain rfl := target_of_edge edge
      exact fun _ => ⟨maySave_of_plain rfl, fun _ => ⟨maySave_of_plain rfl, ih⟩⟩

end Walk

/-! ## Every job -/

/-- The desk a job starts from: on `_execute`'s lies the copy it was handed. -/
def Job.desk : Job → Desk
  | .op (.confirm _ _) => { payer := true, recorder := true }
  | .op _ => {}
  | .execute copy => { payer := true, word := some copy.id }

/-- **Every job goes by its desk.** -/
theorem Job.works (env : Env) (j : Job) : (j.prog env).wp works Reports j.desk := by
  cases j with
  | execute copy =>
    rw [Job.prog, wp_replying]
    exact works_execute rfl rfl
  | op o =>
    cases o <;> simp only [Job.prog, Op.prog, wp_replying]
    · exact works_query
    · exact works_propose
    · exact works_stepUp
    · exact works_confirm rfl rfl
    · exact works_cancel
    · exact works_reconcile
    · simp only [sweep, Prog.bind_eq, Prog.pure_eq, Prog.perform_bind, Prog.wp_call, Prog.wp_bind]
      exact fun stranded => works_sweepEach (fun x d => by cases x <;> trivial) _
    · exact works_status
    · simp only [explain, Prog.bind_eq, Prog.pure_eq, Prog.perform_bind]
      exact fun events => trivial

/-! ## Statement by statement -/

theorem works_mono : Prog.Meaning.Mono works := by
  intro β c K K' d hK hc
  cases c with
  | get id => exact ⟨hK _ _ hc.1, fun i hid => hK _ _ (hc.2 i hid)⟩
  | byConfirmation token => exact ⟨hK _ _ hc.1, fun i => hK _ _ (hc.2 i)⟩
  | put i => exact ⟨hc.1, hK _ _ hc.2⟩
  | append id e =>
    change if e.consents = true then _ else _ at hc ⊢
    split_ifs at hc ⊢
    · exact ⟨hc.1, hK _ _ hc.2⟩
    · exact hK _ _ hc
  | payment key => exact ⟨hc.1, fun r => hK _ _ (hc.2.1 r), hK _ _ hc.2.2⟩
  | createPix o => exact ⟨hc.1, fun a d' hd => hK _ _ (hc.2 a d' hd)⟩
  | _ => exact fun r => hK _ _ (hc r)

/-- What a statement needs of the desk and leaves on it; only a `MockBank` pays in one call. -/
def pays (bank : BankKind) : Prog.Meaning Desk Statement :=
  fun {β} (c : Statement β) (K : β → Desk → Prop) (d : Desk) =>
    match β, c, K with
    | _, .inl (.payment key), K => (d.MayPay key ∨ d.seen = some (key, .unknown)) ∧
        (∀ r, K (some r) { d with known := some (key, r) }) ∧
        (d.booked ≠ some key → K none { d with unpaid := some key })
    | _, .inl (.createPix o), K => bank = .mock ∧ d.MayPay o.idempotencyKey ∧
        (∀ r, K (.ok r) { d with known := some (o.idempotencyKey, r) }) ∧
        (∀ m, K (.error (.error m)) { d with unpaid := some o.idempotencyKey }) ∧
        ∀ m, K (.error (.timeout m)) { d with unpaid := none }
    | _, .inl c, K => works c K d
    | _, .inr (.charge _), K => (∀ m, K (.error (.error m)) d) ∧ ∀ r, K (.ok r) d
    | _, .inr (.insert key _), K => d.MayPay key ∧ K () { d with booked := some key, unpaid := none }
    | _, .inr (.answered o (.ok r)), K => d.known = some (o.idempotencyKey, r) ∧ K () d
    | _, .inr (.answered _ (.error _)), K => K () d

theorem pays_answered {bank : BankKind} {order : Order} {d d' : Desk} {a : Except BankExn Receipt}
    {K : Unit → Desk → Prop} (hd : d.Told order.idempotencyKey a d') (hK : K () d') :
    pays bank (.inr (.answered order a)) K d' := by
  cases a with
  | ok r => exact ⟨hd.2, hK⟩
  | error e => exact hK

/-- The statements of `create_pix` do what the call does. -/
theorem pays_createPix {bank : BankKind} {order : Order} {d : Desk}
    {Q : Except Exn (Except BankExn Receipt) → Desk → Prop} (hpay : d.MayPay order.idempotencyKey)
    (hQ : ∀ a d', d.Told order.idempotencyKey a d' → Q (.ok a) d') :
    (lower bank (.createPix order)).wp (pays bank) Q d := by
  have hanswer : ∀ a d', d.Told order.idempotencyKey a d' →
      pays bank (.inr (.answered order a)) (fun _ => Q (.ok a)) d' :=
    fun a d' hd => pays_answered hd (hQ a d' hd)
  cases bank with
  | mock =>
    simp only [lower, createPix, Prog.bind_eq, Prog.pure_eq, Prog.perform_bind]
    exact ⟨rfl, hpay, fun r => hanswer (.ok r) _ ⟨rfl, rfl⟩, fun m => hanswer (.error (.error m)) _ ⟨rfl, rfl⟩,
      fun m => hanswer (.error (.timeout m)) _ rfl⟩
  | pg =>
    simp only [lower, createPix, pgCreatePix, Prog.bind_eq, Prog.pure_eq, Prog.perform_bind, Prog.call_bind]
    refine ⟨Or.inl hpay, fun r => hanswer (.ok r) _ ⟨rfl, rfl⟩, fun _ => ⟨fun m => ?_, fun receipt => ?_⟩⟩
    · exact hanswer (.error (.error m)) _ ⟨rfl, rfl⟩
    · -- the row is in the table now, whoever put it there, and the second look finds it
      have hpay' : ∀ b u, ({ d with booked := b, unpaid := u } : Desk).MayPay order.idempotencyKey :=
        fun _ _ => ⟨hpay.payer, hpay.word, hpay.seen⟩
      refine ⟨hpay' _ _, Or.inl (hpay' _ _), fun r => ?_, fun hbooked => absurd rfl hbooked⟩
      split_ifs
      · exact hanswer (.error (.timeout "the bank did not answer")) _ (by rfl)
      · exact hanswer (.ok r) _ ⟨rfl, rfl⟩

/-- **A plane whose calls go by its desk goes by it statement by statement.** -/
theorem pays_lower {bank : BankKind} {α : Type} {Q : Except Exn α → Desk → Prop} {p : Plane α} {d : Desk}
    (hp : p.wp works Q d) : (p.interp (lower bank)).wp (pays bank) Q d := by
  refine Prog.wp_interp_of works_mono (fun c K d hc => ?_) hp
  cases c with
  | payment key => exact ⟨hc.1, hc.2.1, fun _ => hc.2.2⟩
  | createPix order => exact pays_createPix hc.1 fun a d' hd => hc.2 a d' hd
  | _ => exact hc

theorem pays_job (env : Env) (bank : BankKind) (j : Job) :
    ((j.prog env).interp (lower bank)).wp (pays bank) Reports j.desk :=
  pays_lower (j.works env)

end BankingControlPlane
