import BankingControlPlane.Plane.Writes
import BankingControlPlane.Safety.CrashSafety

/-!
# What the plane says of a payment

* `AsksAbout` : the operations by which the owner of an intent asks what became of it;
* `Says` : the reply is the state's own, or a refusal that an intent in `UNKNOWN` or `COMPLETED` never
  meets;
* `Covered` : which states a payment in the book can stand next to;
* `honest_reporting` : of a payment in the book no reply says `FAILED` or `CANCELLED`, and `DENY` is the
  reply for as long as the intent is `SUBMITTED`, waiting for the sweep.
-/

namespace BankingControlPlane
open Effects

variable {env : Env} {kind : StoreKind} {w : World} {c : Intent}

/-- The owner of `r` asks about it. -/
def AsksAbout (r : Intent) : Op → Prop
  | .confirm ctx token => samePrincipal r ctx ∧ r.confirmationId = some token
  | .status ctx intentId => intentId = r.id ∧ samePrincipal r ctx
  | .reconcile ctx intentId => intentId = r.id ∧ r.context.customerId = ctx.customerId
  | _ => False

instance (r : Intent) (op : Op) : Decidable (AsksAbout r op) := by
  cases op <;> unfold AsksAbout <;> infer_instance

/-! ## Replies -/

/-- The reply is the state's own status, or a refusal the state allows. -/
def Speaks (o : Outcome) (st : State) : Prop :=
  o.status = st.settled.getD .deny ∨ (o.status = .deny ∧ st ≠ .unknown ∧ st ≠ .completed)

/-- The reply tells the state of the intent, as it was found or as it was saved last. -/
inductive Says (c : Intent) (o : Outcome) : Option Intent → Prop
  | still (h : Speaks o c.state) : Says c o none
  | moved {i : Intent} (hc : waiting c.state = true) (hi : i.state.settled = some o.status) :
    Says c o (some i)

/-- Whatever the calls answer, the reply tells the state `c` is left in. -/
abbrev Tells (id : String) (c : Intent) (p : Plane Outcome) (s : Option Intent) : Prop :=
  p.wp (tracks id) (fun x s => ∀ o, x = .ok o → Says c o s) s

theorem tells_statusOf {id : String} {s : Option Intent} {i : Intent} {message : String}
    {status : Option Status}
    (h : ∀ o : Outcome, o.status = status.getD (i.state.settled.getD .deny) → Says c o s) :
    Tells id c (statusOf i message status) s := by
  simp only [statusOf, summary, Prog.bind_eq, Prog.pure_eq, Prog.perform_bind, Prog.call_bind,
    Prog.ret_bind]
  refine ends_call trivial fun contact o ho => ?_
  obtain rfl := Except.ok.inj ho
  exact h _ rfl

/-- An intent just saved in a settled state is reported in it. -/
theorem tells_moved {id : String} {i j : Intent} {message : String} {st : Status}
    (hc : waiting c.state = true) (hst : i.state.settled = some st) (hj : j.state = i.state) :
    Tells id c (statusOf j message) (some i) :=
  tells_statusOf fun o ho => .moved hc (by rw [ho, hj, hst]; rfl)

theorem tells_confirmExpired (hstate : c.state = .awaitingConfirmation) :
    Tells c.id c (confirmExpired c) none := by
  have edge : TRANSITIONS c.state .cancel = some .cancelled := by rw [hstate]; rfl
  have hwaiting : waiting c.state = true := by rw [hstate]; rfl
  simp only [confirmExpired, Prog.bind_eq, Prog.perform_bind]
  refine ends_call trivial fun _ => ends_move rfl edge (ends_saveReason rfl ?_)
  exact tells_moved hwaiting rfl rfl

theorem tells_executeAnswer {i : Intent} (hc : waiting c.state = true) (hid : i.id = c.id)
    (hi : i.state = .submitted) (answer : Except BankExn Receipt) :
    Tells c.id c (executeAnswer i answer) (some i) := by
  have edge : ∀ event, TRANSITIONS i.state event = TRANSITIONS .submitted event :=
    fun _ => by rw [hi]
  cases answer with
  | ok receipt =>
    simp only [executeAnswer, Prog.bind_eq, Prog.perform_bind]
    refine ends_assign (ends_call trivial fun _ => ends_move hid (edge .complete) ?_)
    exact tells_moved hc rfl rfl
  | error e =>
    cases e with
    | timeout message =>
      simp only [executeAnswer, Prog.bind_eq, Prog.perform_bind]
      refine ends_call trivial fun _ => ends_move hid (edge .timeout) ?_
      exact tells_moved hc rfl rfl
    | error message =>
      simp only [executeAnswer, Prog.bind_eq, Prog.perform_bind]
      refine ends_call trivial fun _ => ends_move hid (edge .fail) (ends_assign ?_)
      exact tells_moved hc rfl rfl

theorem tells_confirmAuthorized {ctx : Context} {token : String}
    (hstate : c.state = .awaitingConfirmation) :
    Tells c.id c (confirmAuthorized ctx token c) none := by
  have edge : TRANSITIONS c.state .confirm = some .authorized := by rw [hstate]; rfl
  have hwaiting : waiting c.state = true := by rw [hstate]; rfl
  simp only [confirmAuthorized, Prog.bind_eq, Prog.perform_bind]
  refine ends_call trivial fun instant => ends_assign (ends_call rfl fun _ => ?_)
  refine ends_call trivial fun _ => ends_move rfl edge (ends_call trivial fun _ => ?_)
  simp only [execute, Prog.bind_eq, Prog.perform_bind]
  refine ends_move rfl rfl (ends_call trivial fun _ => ends_call trivial fun answer => ?_)
  exact tells_executeAnswer hwaiting (by rfl) (by rfl) answer

/-! ## The three operations, once they hold the intent -/

theorem tells_confirm (env : Env) (ctx : Context) (token : String) :
    Tells c.id c (confirmHeld env ctx token c) none := by
  unfold confirmHeld
  by_cases hdone : alreadyExecuted c.state = true
  · rw [if_pos hdone]
    exact ends_call trivial fun _ => tells_statusOf fun o ho => .still (Or.inl ho)
  rw [if_neg hdone]
  have hneither : c.state ≠ .unknown ∧ c.state ≠ .completed :=
    ⟨fun h => hdone (by rw [h]; rfl), fun h => hdone (by rw [h]; rfl)⟩
  by_cases hstate : c.state = .awaitingConfirmation
  · rw [if_neg (not_not.mpr hstate)]
    refine ends_expired fun late => ?_
    cases late with
    | true => exact tells_confirmExpired hstate
    | false =>
      simp only [Bool.false_eq_true, if_false]
      split_ifs
      · exact ends_call trivial fun _ => tells_statusOf fun o ho => .still (Or.inr ⟨ho, hneither⟩)
      · exact tells_confirmAuthorized hstate
  · rw [if_pos hstate]
    exact tells_statusOf fun o ho => .still (Or.inr ⟨ho, hneither⟩)

theorem tells_reconcile : Tells c.id c (reconcileHeld c) none := by
  unfold reconcileHeld
  by_cases hstate : c.state = .unknown
  · have edge : ∀ event, TRANSITIONS c.state event = TRANSITIONS .unknown event :=
      fun _ => by rw [hstate]
    have hwaiting : waiting c.state = true := by rw [hstate]; rfl
    rw [if_neg (not_not.mpr hstate)]
    simp only [Prog.bind_eq, Prog.perform_bind]
    refine ends_call trivial fun receipt => ends_call trivial fun _ => ?_
    cases receipt with
    | none =>
      refine ends_move rfl (edge .fail) (ends_saveReason rfl ?_)
      exact tells_moved hwaiting rfl rfl
    | some receipt =>
      refine ends_assign (ends_move rfl (edge .complete) ?_)
      exact tells_moved hwaiting rfl rfl
  · rw [if_pos hstate]
    exact tells_statusOf fun o ho => .still (Or.inl ho)

/-- The reply to the owner's question tells the state the intent is left in. -/
theorem exec_tells (h : Good env kind w) (hs : ∀ k r, w.row k = some r → Sealed env w.history r)
    {op : Op} {o : Outcome} (hc : w.seen kind c.id = some c) (hop : AsksAbout c op)
    (hreply : (exec env kind op w).1 = .ok (.outcome o)) :
    ∃ s, Says c o s ∧ Tracked c.id w s (exec env kind op w).2 := by
  have hheld : ∀ {sk : Seeking}, op.seeking env = some sk → w.named kind sk.ref = some c →
      sk.mine c = true → Tells c.id c (sk.held c) none →
      ∃ s, Says c o s ∧ Tracked c.id w s (exec env kind op w).2 := by
    intro sk hsk hnamed hmine htells
    rw [exec_found hsk hnamed hmine] at hreply ⊢
    have hrows : ∀ k, (w.note (.began op)).row k = w.row k := fun _ => rfl
    obtain ⟨s, htold, htracked⟩ := tracks_run htells env kind hrows
    refine ⟨s, htold o ?_, htracked⟩
    cases hrun : ((sk.held c).run (handler env kind) (w.note (.began op))).1 with
    | error e => rw [hrun] at hreply; cases hreply
    | ok o' =>
      rw [hrun] at hreply
      rw [Reply.outcome.inj (Except.ok.inj hreply)]
  cases op with
  | confirm ctx token =>
    obtain ⟨hp, ht⟩ := hop
    exact hheld rfl (h.holder_of_seen hs hc ht) (decide_eq_true hp) (tells_confirm env ctx token)
  | status ctx intentId =>
    obtain ⟨rfl, hp⟩ := hop
    exact hheld rfl hc (decide_eq_true hp) (tells_statusOf fun o ho => .still (Or.inl ho))
  | reconcile ctx intentId =>
    obtain ⟨rfl, hp⟩ := hop
    exact hheld rfl hc (decide_eq_true hp) tells_reconcile
  | _ => exact hop.elim

/-! ## States next to a payment -/

/-- The states a payment in the book can stand next to. -/
def charged : State → Bool
  | .submitted | .unknown | .completed => true
  | _ => false

/-- Every payment in the book is of an intent in such a state. -/
def Covered (env : Env) (w : World) : Prop :=
  ∀ n, (w.bank.payment (newIdAt env "pix" n)).isSome →
    ∃ r, w.row (newIdAt env "pix" n) = some r ∧ charged r.state = true

theorem charged_saved {r i : Intent} (hs : Saves env w (some r) i) (hr : charged r.state = true)
    (hpaid : (w.bank.payment r.id).isSome) : charged i.state = true := by
  cases hs with
  | @hop _ event target ok edge =>
    cases hst : r.state <;> rw [hst] at hr edge <;> cases event <;> cases edge <;>
      first
        | rfl
        | exact ok.elim
        | exact absurd hr (by decide)
        | exact absurd hpaid (by rw [show w.bank.payment r.id = none from ok]; decide)
  | issued state => rw [state] at hr; cases hr
  | settled => rfl
  | strengthened => exact hr
  | consented => exact hr
  | noted => exact hr

theorem preserved_covered : Preserved env kind (Covered env) := by
  refine ⟨fun c w hc hi hI => ?_, fun w op _ h => h⟩
  cases c with
  | put i =>
    have hs : Saves env w (w.row i.id) i := hc
    intro n hpaid
    obtain ⟨r, hr, hcharged⟩ := hI n hpaid
    simp only [serve, World.row_put, hs.saved]
    split_ifs with hk
    · rw [hk, hr] at hs
      have hid : r.id = newIdAt env "pix" n := key_of_row hr
      exact ⟨i, rfl, charged_saved hs hcharged (by rw [hid]; exact hpaid)⟩
    · exact ⟨r, hr, hcharged⟩
  | createPix o =>
    intro n hpaid
    by_cases hsub : ∃ r, w.row (newIdAt env "pix" n) = some r ∧ r.state = .submitted
    · obtain ⟨r, hr, hstate⟩ := hsub
      exact ⟨r, hr, by rw [hstate]; rfl⟩
    · rw [payment_of_authorised hc fun r hr hstate => hsub ⟨r, hr, hstate⟩] at hpaid
      exact hI n hpaid
  | _ => exact hI

/-! ## Whole runs -/

/-- The bank comes back with its book. -/
def Step.KeepsBook (w : World) : Step → Prop
  | .bank b => b.payments = w.bank.payments
  | _ => True

/-- No one but the plane writes; it may die at any call, and the bank comes back with its book. -/
def Undisturbed (kind : StoreKind) (w : World) (s : Step) : Prop := Untampered kind w s ∧ s.KeepsBook w

/-- The bank has no payment under an id that the plane is yet to draw. -/
def Unbooked (env : Env) (b : MockBank) : Prop := ∀ n, b.payment (newIdAt env "pix" n) = none

/-- What a reply about `r` may say, given the book. -/
structure Honest (w' : World) (r : Intent) (o : Outcome) : Prop where
  denied : (w'.bank.payment r.id).isSome → (o.status = .deny ↔ r.state = .submitted)
  failed : (w'.bank.payment r.id).isSome → o.status ≠ .failed ∧ o.status ≠ .cancelled
  completed : o.status = .completed → (w'.bank.payment r.id).isSome

theorem Speaks.completed {o : Outcome} {st : State} (h : Speaks o st) (ho : o.status = .completed) :
    st = .completed := by
  rcases h with h | ⟨h, -⟩ <;> rw [ho] at h <;> cases st <;> cases h
  rfl

theorem Speaks.paid {o : Outcome} {st : State} (h : Speaks o st) (hst : charged st = true) :
    (o.status = .deny ↔ st = .submitted) ∧ o.status ≠ .failed ∧ o.status ≠ .cancelled := by
  rcases h with h | ⟨h, hunknown, hcompleted⟩
  · rw [h]
    cases st <;> first | exact absurd hst (by decide) | decide
  · rw [h]
    cases st <;> first | exact absurd hst (by decide) | exact absurd rfl hunknown |
      exact absurd rfl hcompleted | decide

theorem settled_completed {st : State} (h : st.settled = some .completed) : st = .completed := by
  cases st <;> cases h
  rfl

/-- A settled state next to a payment is reported as itself. -/
theorem settled_charged {st : State} {s : Status} (h : st.settled = some s) (hst : charged st = true) :
    s ≠ .deny ∧ s ≠ .failed ∧ s ≠ .cancelled := by
  cases st <;> cases h <;> first | exact absurd hst (by decide) | decide

/-- **What the plane says of a payment.** In every world a run reaches, the owner's confirm, status or
reconcile is answered `COMPLETED` only of a payment in the book; of a payment in the book it is never
answered `FAILED` or `CANCELLED`, and `DENY` exactly while the intent is stored as `SUBMITTED`. -/
theorem honest_reporting (hw : Reach env kind (Unbooked env) (Undisturbed kind) w) {r : Intent} {op : Op}
    {o : Outcome} (hr : w.seen kind r.id = some r) (hop : AsksAbout r op)
    (hreply : (exec env kind op w).1 = .ok (.outcome o)) : Honest (exec env kind op w).2 r o := by
  have hsettled := hw.preserved (fun _ _ hs => hs.1.sound) preserved_settled
    (fun bank _ k r hr => by simp [World.row] at hr) (fun w id columns hs _ => hs.1.elim)
    fun w b hs hI k r hr => ⟨fun h => by
      rw [MockBank.payment_congr hs.2]; exact (hI k r hr).completed h, fun h => by
      rw [MockBank.payment_congr hs.2]; exact (hI k r hr).failed h⟩
  have hcovered := hw.preserved (fun _ _ hs => hs.1.sound) preserved_covered
    (fun bank hb n hpaid => by rw [hb n] at hpaid; cases hpaid)
    (fun w id columns hs _ => hs.1.elim) fun w b hs hI n hpaid =>
      hI n (by rw [← MockBank.payment_congr hs.2]; exact hpaid)
  obtain ⟨hgood, hset⟩ := hsettled
  obtain ⟨-, hcov⟩ := hcovered
  obtain ⟨s, htold, htracked⟩ := exec_tells hgood (hw.sealed fun _ _ hs => hs.1) hr hop hreply
  obtain ⟨row, hrow, halike⟩ := hgood.row_of_seen hr
  have hset' := preserved_settled.op hgood hset op
  have hcov' := preserved_covered.op hgood hcov op
  obtain ⟨n, -, hn⟩ := hgood.inv.ids _ _ hrow
  -- the row the operation leaves, and what the book says of it
  have hbook : ∀ r', (exec env kind op w).2.row r.id = some r' →
      ((exec env kind op w).2.bank.payment r.id).isSome → charged r'.state = true := by
    intro r' hr' hpaid
    rw [hn] at hpaid hr'
    obtain ⟨r'', hr'', hcharged⟩ := hcov' n hpaid
    rwa [Option.some.inj (hr'.symm.trans hr'')]
  have hdone : ∀ r', (exec env kind op w).2.row r.id = some r' → r'.state = .completed →
      ((exec env kind op w).2.bank.payment r.id).isSome := by
    intro r' hr' hstate
    have hpaid := (hset' _ r' hr').completed hstate
    rwa [key_of_row hr'] at hpaid
  cases htold with
  | still hspeaks =>
    have hrow' : (exec env kind op w).2.row r.id = some row := by
      rw [htracked.untouched rfl]
      exact hrow
    rw [halike.same.2.1] at hspeaks
    have hpaid := fun hp => hspeaks.paid (hbook row hrow' hp)
    exact ⟨fun hp => halike.same.2.1 ▸ (hpaid hp).1, fun hp => (hpaid hp).2,
      fun ho => hdone row hrow' (hspeaks.completed ho)⟩
  | @moved i hwaiting hi =>
    obtain ⟨r', hr', hstate⟩ := htracked.last i rfl
    rw [← hstate] at hi
    have hpaid := fun hp => settled_charged hi (hbook r' hr' hp)
    refine ⟨fun hp => ⟨fun ho => absurd ho (hpaid hp).1, fun hst => ?_⟩, fun hp => (hpaid hp).2,
      fun ho => hdone r' hr' (settled_completed (by rw [hi, ho]))⟩
    rw [hst] at hwaiting
    cases hwaiting

/-! A confirm dies right after the bank has paid: until the sweep, the customer who asks is told `DENY`. -/

def paidSubmitted : World := after (sampleEnv noon) .postgres (crashSteps.take 2) { bank := {} }

theorem paidSubmitted_reached :
    Reach (sampleEnv noon) .postgres (Unbooked (sampleEnv noon)) (Undisturbed .postgres) paidSubmitted :=
  (Reach.start {} fun _ => rfl).after ⟨⟨trivial, trivial⟩, ⟨rfl, trivial⟩, trivial⟩

/-- A reply, if it is an outcome, and its status. -/
def Reply.status : Except Exn Reply → Option Status
  | .ok (.outcome o) => some o.status
  | _ => none

theorem reply_of_status {x : Except Exn Reply} {st : Status} (h : Reply.status x = some st) :
    ∃ o, x = .ok (.outcome o) ∧ o.status = st := by
  match x with
  | .ok (.outcome o) => exact ⟨o, rfl, Option.some.inj h⟩
  | .ok (.ids _) => cases h
  | .ok (.trail _) => cases h
  | .error _ => cases h

/-- In the world a run reaches the bank has paid, and the owner who asks is told `DENY`. -/
def DeniedPaid (env : Env) (kind : StoreKind) (w : World) (r : Intent) (op : Op) : Prop :=
  AsksAbout r op ∧ ((exec env kind op w).2.bank.payment r.id).isSome ∧
    Reply.status (exec env kind op w).1 = some .deny

instance (env : Env) (kind : StoreKind) (w : World) (r : Intent) (op : Op) :
    Decidable (DeniedPaid env kind w r op) := inferInstanceAs (Decidable (_ ∧ _ ∧ _))

theorem paidSubmitted_denied : ∃ r ∈ paidSubmitted.rows, paidSubmitted.row r.id = some r ∧
    r.state = .submitted ∧
    DeniedPaid (sampleEnv noon) .postgres paidSubmitted r (.status session "pix_000000000000") := by
  decide +kernel

theorem payment_denied : ¬ ∀ w, Reach (sampleEnv noon) .postgres (Unbooked (sampleEnv noon))
      (Undisturbed .postgres) w → ∀ r op o, w.seen .postgres r.id = some r → AsksAbout r op →
    (exec (sampleEnv noon) .postgres op w).1 = .ok (.outcome o) →
    let w' := (exec (sampleEnv noon) .postgres op w).2
    ((w'.bank.payment r.id).isSome →
        o.status ≠ .deny ∧ o.status ≠ .failed ∧ o.status ≠ .cancelled) ∧
      (o.status = .completed → (w'.bank.payment r.id).isSome) := by
  intro hclaim
  obtain ⟨r, -, hr, -, hop, hpaid, hdenied⟩ := paidSubmitted_denied
  obtain ⟨o, hreply, ho⟩ := reply_of_status hdenied
  exact (hclaim _ paidSubmitted_reached r _ o hr hop hreply).1 hpaid |>.1 ho

theorem honest_reporting_sample : ∃ r o,
    Honest (exec (sampleEnv noon) .postgres (.status session "pix_000000000000") paidSubmitted).2 r o ∧
      o.status = .deny ∧ r.state = .submitted := by
  obtain ⟨r, -, hr, hstate, hop, -, hdenied⟩ := paidSubmitted_denied
  obtain ⟨o, hreply, ho⟩ := reply_of_status hdenied
  exact ⟨r, o, honest_reporting paidSubmitted_reached hr hop hreply, ho, hstate⟩

end BankingControlPlane
