import BankingControlPlane.Plane.Walk

/-!
# Every operation makes permitted calls only

* `Keeps p w` : from `w`, every call of `p` is permitted, and table and dict agree when it ends;
* `keeps_decideOn`, `keeps_execute` : the tails the write path shares;
* `keeps_propose` … `keeps_query` : each operation; `keeps_op` : all of them.
-/

namespace BankingControlPlane
open Effects

/-- Every call is permitted, and table and dict agree at the end. -/
abbrev Keeps (env : Env) (kind : StoreKind) {α : Type} (p : Plane α) (w : World) : Prop :=
  p.wp (walk env kind) (fun _ => Mirror kind) w

variable {env : Env} {kind : StoreKind} {pre : List Obs} {op : Op} {w : World} {seg : List Obs}
  {c r : Intent} {α : Type}

theorem keeps_statusOf (hm : Mirror kind w) {message : String} {status : Option Status} :
    Keeps env kind (statusOf c message status) w := by
  simp only [Keeps, statusOf, summary, Prog.bind_eq, Prog.pure_eq, Prog.perform_bind, Prog.call_bind,
    Prog.ret_bind]
  exact walk_call trivial hm

theorem At.keeps_statusOf (h : At kind pre op w seg c c) {message : String}
    {status : Option Status} : Keeps env kind (statusOf c message status) w :=
  BankingControlPlane.keeps_statusOf (h.mirror (Or.inl rfl))

/-! ## Deciding -/

/-- A token drawn now has been saved with no intent. -/
theorem Inv.fresh_token (hi : Inv env w) : issueOf w.history (newIdAt env "conf" w.drawn) = none := by
  cases hj : issueOf w.history (newIdAt env "conf" w.drawn) with
  | none => rfl
  | some j =>
    obtain ⟨hstored, htoken⟩ := stored_of_issueOf hj
    obtain ⟨n, hn, heq⟩ := hi.tokens j _ hstored htoken
    exact absurd (newIdAt_injective env "conf" heq) (Nat.ne_of_gt hn)

/-- Nothing about policy has been noted in this segment. -/
def Unjudged (seg : List Obs) (id : String) : Prop :=
  (∀ ρ, .appended ⟨id, .risk ρ⟩ ∉ seg) ∧ ∀ m, .read .policy m ∉ seg

theorem evaluated_of_unjudged (hu : Unjudged seg c.id) {risk : Risk} {moment : Instant}
    (hc : Cleared env.zone c.action c.context risk moment) {more : List Obs}
    (hmore : Unjudged more c.id) :
    Evaluated env (seg ++ [.appended ⟨c.id, .risk risk⟩] ++ [.read .policy moment] ++
      [.appended ⟨c.id, .policy (evaluate env.zone c.action c.context risk moment)⟩] ++ more)
      c risk moment := by
  refine ⟨fun ρ => ?_, fun m => ?_, by simp, hc⟩
  · simp [hu.1 ρ, hmore.1 ρ]
  · simp [hu.2 m, hmore.2 m]

/-- The rejection of a validated intent. -/
theorem At.keeps_reject (h : At kind pre op w seg c c) (hstate : c.state = .validated)
    {detail : Detail} {reason message : String} :
    Keeps env kind ((move c .reject detail).bind fun i =>
      (saveReason i reason).bind fun i => statusOf i message (some .deny)) w := by
  have edge : TRANSITIONS c.state .reject = some .cancelled := by rw [hstate]; rfl
  refine h.walk_move rfl edge (fun w' h' _ _ _ => .hop (show HopOk w' c .reject from trivial) edge) fun w' h' _ => ?_
  refine h'.walk_saveReason (Or.inl rfl) fun w'' h'' _ => ?_
  exact h''.keeps_statusOf

theorem At.keeps_issue (h : At kind pre op w seg c c) (hstate : c.state = .validated)
    {risk : Risk} {moment : Instant} (he : ∀ more, Unjudged more c.id →
      Evaluated env (seg ++ more) c risk moment)
    {verdict : Verdict} (hv : verdict.decision = .requireConfirmation) :
    Keeps env kind (applyVerdict env c verdict) w := by
  simp only [applyVerdict, hv, Prog.bind_eq, Prog.pure_eq, Prog.perform_bind]
  have edge : TRANSITIONS c.state .awaitConfirmation = some .awaitingConfirmation := by
    rw [hstate]; rfl
  intro hi
  have hfresh := hi.fresh_token
  refine ⟨trivial, ?_⟩
  have h₁ := h.newId env "conf"
  refine h₁.walk_clock fun h₂ => ?_
  refine h₂.walk_assign rfl rfl fun h₃ => ?_
  refine h₃.walk_move rfl edge (fun w' h' _ hdrawn _ => ?_) fun w' h' _ => ?_
  · have hlt : w.drawn < w'.drawn := by
      rw [hdrawn]
      exact Nat.lt_succ_self _
    have hnew : issueOf w'.history (newIdAt env "conf" w.drawn) = none := by
      rw [h'.hist]
      rw [h.hist] at hfresh
      simp only [← List.append_assoc, ← List.cons_append, issueOf_snoc] at hfresh ⊢
      rw [hfresh]
      rfl
    have hev := he ([.read .issue (env.clock w.ticks)] ++ [.appended ⟨c.id, .transition c.state
      .awaitConfirmation .awaitingConfirmation
      (.token (newIdAt env "conf" w.drawn) (actionDigest env c.action))⟩]) (by simp [Unjudged])
    rw [← List.append_assoc] at hev
    exact .issued hstate hlt hnew h'.during hev
  · exact walk_summary fun s => h'.mirror (Or.inl rfl)

/-- **Risk, then policy, then the hop policy asked for.** -/
theorem At.keeps_decideOn (h : At kind pre op w seg c c) (hstate : c.state = .validated)
    (hu : Unjudged seg c.id) : Keeps env kind (decideOn env c) w := by
  simp only [decideOn, Prog.bind_eq, Prog.perform_bind]
  refine walk_call trivial ?_
  refine h.walk_append (fun _ => trivial) fun h₁ => ?_
  refine h₁.walk_clock fun h₂ => ?_
  refine h₂.walk_append (fun _ => trivial) fun h₃ => ?_
  simp only [serve] at h₃ ⊢
  generalize hrisk : assessRisk c.action c.context w.bank.paidBefore = risk at h₃ ⊢
  generalize hmoment : env.clock (w.append c.id (.risk risk)).ticks = moment at h₃ ⊢
  rcases evaluate_decision env.zone c.action c.context risk moment with hd | hd | hd
  · simp only [applyVerdict, hd, Prog.bind_eq]
    exact h₃.keeps_reject hstate
  · have edge : TRANSITIONS c.state .requireStepUp = some .awaitingStepUp := by rw [hstate]; rfl
    simp only [applyVerdict, hd, Prog.bind_eq, Prog.pure_eq]
    refine h₃.walk_move rfl edge (fun w' h' _ _ _ => .hop ?_ edge) fun w' h' _ => ?_
    · exact evaluate_stepUp_weak hd
    · exact walk_summary fun s => h'.mirror (Or.inl rfl)
  · have hcleared := (evaluate_confirms_iff ..).mp hd
    exact h₃.keeps_issue hstate (fun _ hmore => evaluated_of_unjudged hu hcleared hmore) hd

/-! ## Executing -/

/-- The bank's book after it was asked says what it answered. -/
theorem MockBank.createPix_answer (env : Env) (b : MockBank) (drawn : Nat) (o : Order) :
    (∀ receipt, (b.createPix env drawn o).1 = .ok receipt →
      (b.createPix env drawn o).2.1.payment o.idempotencyKey = some receipt) ∧
    (∀ message, (b.createPix env drawn o).1 = .error (.error message) →
      (b.createPix env drawn o).2.1.payment o.idempotencyKey = none) := by
  rcases createPix_cases env b drawn o with ⟨r, hr, heq⟩ | ⟨hn, m, heq⟩ | ⟨hn, a, heq, ha⟩
  · rw [heq]
    exact ⟨fun _ h => by rw [hr, Except.ok.inj h], fun _ h => by cases h⟩
  · rw [heq]
    exact ⟨fun _ h => (by cases h), fun _ _ => hn⟩
  · rw [heq]
    refine ⟨fun receipt h => ?_, fun message h => ?_⟩
    · rcases ha with ha | ⟨m, ha⟩
      · rw [ha] at h
        rw [payment_record, if_pos rfl, Except.ok.inj h]
      · rw [ha] at h
        cases h
    · rcases ha with ha | ⟨m, ha⟩ <;> rw [ha] at h <;> cases h

/-- What the bank answered is saved. -/
theorem At.keeps_executeAnswer (h : At kind pre op w seg c c) (hstate : c.state = .submitted)
    {answer : Except BankExn Receipt}
    (hpaid : ∀ receipt, answer = .ok receipt → w.bank.payment c.id = some receipt)
    (hrefused : ∀ message, answer = .error (.error message) → w.bank.payment c.id = none) :
    Keeps env kind (executeAnswer c answer) w := by
  cases answer with
  | ok receipt =>
    have edge : TRANSITIONS c.state .complete = some .completed := by rw [hstate]; rfl
    simp only [executeAnswer, Prog.bind_eq, Prog.perform_bind]
    refine h.walk_assign rfl rfl fun h₁ => ?_
    refine h₁.walk_append (fun _ => trivial) fun h₂ => ?_
    refine h₂.walk_move rfl edge (fun w' h' hbank _ _ => ?_) fun w' h' _ => h'.keeps_statusOf
    refine .settled ?_ edge
    rw [hbank]
    exact hpaid receipt rfl
  | error e =>
    cases e with
    | timeout message =>
      have edge : TRANSITIONS c.state .timeout = some .unknown := by rw [hstate]; rfl
      simp only [executeAnswer, Prog.bind_eq, Prog.perform_bind]
      refine h.walk_append (fun _ => trivial) fun h₁ => ?_
      exact h₁.walk_move rfl edge (fun w' h' _ _ _ => .hop (show HopOk w' c .timeout from trivial) edge)
        fun w' h' _ => h'.keeps_statusOf
    | error message =>
      have edge : TRANSITIONS c.state .fail = some .failed := by rw [hstate]; rfl
      simp only [executeAnswer, Prog.bind_eq, Prog.perform_bind]
      refine h.walk_append (fun _ => trivial) fun h₁ => ?_
      refine h₁.walk_move rfl edge (fun w' h' hbank _ _ => ?_) fun w' h' _ => ?_
      · refine .hop (show HopOk w' c .fail from ?_) edge
        change w'.bank.payment c.id = none
        rw [hbank]
        exact hrefused message rfl
      · -- The reason stays on the held object: the row keeps its own.
        refine h'.walk_assign rfl rfl fun h'' => ?_
        exact BankingControlPlane.keeps_statusOf (h''.mirror (Or.inr ⟨rfl, rfl⟩))

/-- What a confirm has established of the intent it holds before it executes it. -/
structure Agreed (env : Env) (ctx : Context) (token : String) (w : World) (seg : List Obs)
    (c : Intent) : Prop where
  names : c.confirmationId = some token
  principal : samePrincipal c ctx
  digest : actionDigest env c.action = c.actionDigest.getD ""
  fresh : ∀ issued, c.confirmationIssuedAt = some issued →
    ∃ instant, (∀ x, .read .expiry x ∈ seg ↔ x = instant) ∧ instant - issued ≤ confirmationTtl
  unasked : ∀ o, .asked o ∈ w.history → o.idempotencyKey ≠ c.id

/-- The operation has gone on, noting what it did, without asking the bank. -/
theorem Agreed.later {ctx : Context} {token : String} (h : Agreed env ctx token w seg c) {w' : World}
    {seg' : List Obs} {c' : Intent} (hw : At kind pre op w seg c c) (hw' : At kind pre op w' seg' c' c')
    (hread : ∀ x, .read .expiry x ∈ seg' ↔ .read .expiry x ∈ seg)
    (hasked : ∀ o, .asked o ∈ seg' → .asked o ∈ seg)
    (hid : c'.id = c.id) (htoken : c'.confirmationId = c.confirmationId) (hctx : c'.context = c.context)
    (haction : c'.action = c.action) (hdigest : c'.actionDigest = c.actionDigest)
    (hissued : c'.confirmationIssuedAt = c.confirmationIssuedAt) :
    Agreed env ctx token w' seg' c' := by
  refine ⟨htoken ▸ h.names, ?_, by rw [haction, hdigest, h.digest], fun issued hi => ?_, fun o ho => ?_⟩
  · rw [samePrincipal, hctx]
    exact h.principal
  · obtain ⟨instant, hmem, hle⟩ := h.fresh issued (hissued ▸ hi)
    exact ⟨instant, fun x => (hread x).trans (hmem x), hle⟩
  · rw [hid]
    refine h.unasked o ?_
    rw [hw'.hist] at ho
    rw [hw.hist]
    simp only [List.mem_append, List.mem_cons, reduceCtorEq, false_or] at ho ⊢
    exact ho.imp_right (hasked o)

/-- **The execution gateway asks the bank with the consent in the ledger.** -/
theorem At.keeps_execute {ctx : Context} {token : String}
    (h : At kind pre (.confirm ctx token) w seg c c) (hstate : c.state = .authorized)
    (ha : Agreed env ctx token w seg c)
    (hconsent : ∃ instant, .appended ⟨c.id, .confirmation token ctx.customerId ctx.sessionId ctx.channel
      instant c.action⟩ ∈ seg) : Keeps env kind (execute c) w := by
  have edge : TRANSITIONS c.state .submit = some .submitted := by rw [hstate]; rfl
  simp only [execute, Prog.bind_eq, Prog.perform_bind]
  refine h.walk_move rfl edge (fun w' _ _ _ _ => .hop (show HopOk w' c .submit from trivial) edge)
    fun w₁ h₁ _ => ?_
  refine h₁.walk_append (fun _ => trivial) fun h₂ => ?_
  have ha₂ := ha.later h h₂ (by simp) (by simp) rfl rfl rfl rfl rfl rfl
  obtain ⟨instant, hmem⟩ := hconsent
  refine fun _ => ⟨⟨_, ctx, token, _, h₂.during, h₂.row, rfl, rfl, ha₂.names, ha₂.principal,
    ha₂.digest, ha₂.fresh, ⟨instant, by simp [hmem]⟩, ha₂.unasked⟩, ?_⟩
  have hanswer := MockBank.createPix_answer env w₁.bank w₁.drawn
    (Intent.order { c with state := .submitted })
  have h₃ := h₂.asked env (Intent.order { c with state := .submitted })
  exact h₃.keeps_executeAnswer rfl hanswer.1 hanswer.2

/-! ## Confirming -/

theorem At.keeps_confirmAuthorized {ctx : Context} {token : String}
    (h : At kind pre (.confirm ctx token) w seg c c) (hstate : c.state = .awaitingConfirmation)
    (hnames : c.confirmationId = some token) (hp : samePrincipal c ctx)
    (hdigest : actionDigest env c.action = c.actionDigest.getD "")
    (hfresh : ∀ issued, c.confirmationIssuedAt = some issued →
      ∃ instant, (∀ x, .read .expiry x ∈ seg ↔ x = instant) ∧ instant - issued ≤ confirmationTtl) :
    Keeps env kind (confirmAuthorized ctx token c) w := by
  have edge : TRANSITIONS c.state .confirm = some .authorized := by rw [hstate]; rfl
  simp only [confirmAuthorized, Prog.bind_eq, Prog.perform_bind]
  refine walk_given fun hi => ?_
  have hunasked : ∀ o, .asked o ∈ w.history → o.idempotencyKey ≠ c.id := by
    intro o ho hkey
    obtain ⟨r, hr, hl⟩ := hi.asked o ho
    rw [hkey, h.row] at hr
    rw [← Option.some.inj hr, hstate] at hl
    cases hl
  have ha : Agreed env ctx token w seg c := ⟨hnames, hp, hdigest, hfresh, hunasked⟩
  refine h.walk_clock fun h₁ => ?_
  refine h₁.walk_assign rfl rfl fun h₂ => ?_
  refine h₂.walk_put (fun _ => .consented hstate h₂.during hp) fun h₃ => ?_
  refine h₃.walk_append (fun _ => ⟨_, ctx, _, h₃.row, h₃.during, hp, hnames, rfl, rfl, rfl⟩) fun h₄ => ?_
  refine h₄.walk_move rfl edge (fun w' _ _ _ _ => .hop (show HopOk w' _ .confirm from trivial) edge)
    fun w₅ h₅ _ => ?_
  refine h₅.walk_append (fun _ => trivial) fun h₆ => ?_
  have ha₆ := ha.later h h₆ (by simp) (by simp) rfl rfl rfl rfl rfl rfl
  exact h₆.keeps_execute rfl ha₆ ⟨env.clock w.ticks, by simp⟩

theorem At.keeps_confirmExpired (h : At kind pre op w seg c c)
    (hstate : c.state = .awaitingConfirmation) : Keeps env kind (confirmExpired c) w := by
  have edge : TRANSITIONS c.state .cancel = some .cancelled := by rw [hstate]; rfl
  simp only [confirmExpired, Prog.bind_eq, Prog.perform_bind]
  refine h.walk_append (fun _ => trivial) fun h₁ => ?_
  refine h₁.walk_move rfl edge (fun w' _ _ _ _ => .hop (show HopOk w' c .cancel from trivial) edge)
    fun w' h' _ => ?_
  exact h'.walk_saveReason (Or.inl rfl) fun w'' h'' _ => h''.keeps_statusOf

/-- The expiry test: the token is old, or it is young by the clock's reading. -/
theorem At.walk_expired {Q : Except Exn α → World → Prop} (h : At kind pre op w seg c r)
    {f : Bool → Plane α} (hunread : ∀ x, .read .expiry x ∉ seg)
    (hold : ∀ w' seg', At kind pre op w' seg' c r → (f true).wp (walk env kind) Q w')
    (hyoung : ∀ w' seg', At kind pre op w' seg' c r →
      (∀ issued, c.confirmationIssuedAt = some issued →
        ∃ instant, (∀ x, .read .expiry x ∈ seg' ↔ x = instant) ∧ instant - issued ≤ confirmationTtl) →
      (f false).wp (walk env kind) Q w') :
    ((expired c).bind f).wp (walk env kind) Q w := by
  cases hissued : c.confirmationIssuedAt with
  | none =>
    simp only [expired, hissued, Prog.pure_eq, Prog.ret_bind]
    exact hyoung w seg h fun issued hi => by rw [hissued] at hi; cases hi
  | some issued =>
    simp only [expired, hissued, Prog.bind_eq, Prog.pure_eq, Prog.perform_bind, Prog.call_bind,
      Prog.ret_bind]
    refine h.walk_clock fun h₁ => ?_
    by_cases hlate : confirmationTtl < env.clock w.ticks - issued
    · rw [decide_eq_true hlate]
      exact hold _ _ h₁
    · rw [decide_eq_false hlate]
      refine hyoung _ _ h₁ fun issued' hi => ⟨env.clock w.ticks, by simp [hunread], ?_⟩
      rw [hissued] at hi
      obtain rfl := Option.some.inj hi
      exact Int.not_lt.mp hlate

/-! ## Finding the intent -/

theorem Inv.nodup_intents (hi : Inv env w) (kind : StoreKind) :
    ((w.intents kind).map Intent.id).Nodup := by
  cases kind with
  | memory => exact hi.nodupObjects
  | postgres => exact hi.nodup

/-- An intent found by its token is found by its id. -/
theorem Inv.find_of_token (hi : Inv env w) {p : Intent → Bool}
    (hf : (w.intents kind).find? p = some c) :
    Keyed.find Intent.id (w.intents kind) c.id = some c :=
  Keyed.find_of_mem Intent.id (hi.nodup_intents kind) (List.mem_of_find?_eq_some hf)

/-- The operation looks an intent up by token: it has none, or holds one of the principal's. -/
theorem walk_byConfirmation {Q : Except Exn α → World → Prop} (hm : Mirror kind w)
    (hhist : w.history = pre ++ .began op :: seg) (hquiet : ∀ o ∈ seg, ¬ o.IsBegan) {ctx : Context}
    {token : String} {f : Option Intent → Plane α} (hnone : (f none).wp (walk env kind) Q w)
    (hsome : ∀ c r, At kind pre op w seg c r → Alike c r → c.confirmationId = some token →
      samePrincipal c ctx → (f (some c)).wp (walk env kind) Q w) :
    ((byConfirmation ctx token).bind f).wp (walk env kind) Q w := by
  simp only [byConfirmation, Prog.bind_eq, Prog.pure_eq, Prog.perform_bind, Prog.call_bind,
    Prog.ret_bind]
  refine walk_given fun hi => walk_call trivial ?_
  simp only [serve]
  cases hf : (w.intents kind).find? fun i => i.confirmationId = some token with
  | none => exact hnone
  | some c =>
    by_cases hp : samePrincipal c ctx
    · obtain ⟨r, hat, halike⟩ := At.found hm hhist hquiet (hi.find_of_token hf)
      have htoken : c.confirmationId = some token := by simpa using List.find?_some hf
      simpa [Option.filter, hp] using hsome c r hat halike htoken hp
    · simpa [Option.filter, hp] using hnone

/-- The operation looks an intent up by id: it has none, or holds one that passes. -/
theorem walk_get {Q : Except Exn α → World → Prop} (hm : Mirror kind w)
    (hhist : w.history = pre ++ .began op :: seg) (hquiet : ∀ o ∈ seg, ¬ o.IsBegan) (id : String)
    (p : Intent → Bool) (f : Option Intent → Plane α) (hnone : (f none).wp (walk env kind) Q w)
    (hsome : ∀ c r, At kind pre op w seg c r → Alike c r → c.id = id → p c = true →
      (f (some c)).wp (walk env kind) Q w) :
    (Prog.call (.get id) fun i => f (i.filter p)).wp (walk env kind) Q w := by
  refine walk_call trivial ?_
  simp only [serve]
  cases hf : Keyed.find Intent.id (w.intents kind) id with
  | none => exact hnone
  | some c =>
    have hid : c.id = id := Keyed.key_of_find Intent.id hf
    cases hp : p c with
    | true =>
      obtain ⟨r, hat, halike⟩ := At.found hm hhist hquiet (hid.symm ▸ hf)
      simpa [Option.filter, hp] using hsome c r hat halike hid hp
    | false => simpa [Option.filter, hp] using hnone

theorem walk_ownedByCustomer {Q : Except Exn α → World → Prop} (hm : Mirror kind w)
    (hhist : w.history = pre ++ .began op :: seg) (hquiet : ∀ o ∈ seg, ¬ o.IsBegan) {ctx : Context}
    {id : String} {f : Option Intent → Plane α} (hnone : (f none).wp (walk env kind) Q w)
    (hsome : ∀ c r, At kind pre op w seg c r → Alike c r → c.id = id →
      c.context.customerId = ctx.customerId → (f (some c)).wp (walk env kind) Q w) :
    ((ownedByCustomer ctx id).bind f).wp (walk env kind) Q w :=
  walk_get hm hhist hquiet id (fun i => i.context.customerId = ctx.customerId) f hnone
    fun c r hat halike hid hp => hsome c r hat halike hid (by simpa using hp)

theorem walk_owned {Q : Except Exn α → World → Prop} (hm : Mirror kind w)
    (hhist : w.history = pre ++ .began op :: seg) (hquiet : ∀ o ∈ seg, ¬ o.IsBegan) {ctx : Context}
    {id : String} {f : Option Intent → Plane α} (hnone : (f none).wp (walk env kind) Q w)
    (hsome : ∀ c r, At kind pre op w seg c r → Alike c r → c.id = id → samePrincipal c ctx →
      (f (some c)).wp (walk env kind) Q w) :
    ((owned ctx id).bind f).wp (walk env kind) Q w :=
  walk_get hm hhist hquiet id (fun i => samePrincipal i ctx) f hnone
    fun c r hat halike hid hp => hsome c r hat halike hid (by simpa using hp)

/-- A hop that exists is made. -/
theorem attempt_move_some {event : Hop} {target : State} {detail : Detail}
    (edge : TRANSITIONS c.state event = some target) (f : Option Intent → Plane α) :
    (attempt (move c event detail)).bind f = (move c event detail).bind fun i => f (some i) := by
  simp only [attempt, move, transition, edge, assign, Prog.bind_eq, Prog.pure_eq, Prog.perform_bind,
    Prog.call_bind, Prog.ret_bind, Prog.handle]

/-- A hop that does not exist is only noted. -/
theorem attempt_move_none {event : Hop} {detail : Detail} (edge : TRANSITIONS c.state event = none)
    (f : Option Intent → Plane α) :
    (attempt (move c event detail)).bind f =
      .call (.append c.id (.transitionRefused c.state event)) fun _ => f none := by
  simp only [attempt, move, transition, edge, Prog.bind_eq, Prog.perform_bind, Prog.call_bind,
    Prog.raise_bind, Prog.handle, Prog.ret_bind]

/-! ## Each operation -/

section Operations
variable (hm : Mirror kind w)
include hm

theorem keeps_confirm {ctx : Context} {token : String}
    (hhist : w.history = pre ++ [.began (.confirm ctx token)]) :
    Keeps env kind (confirm env ctx token) w := by
  simp only [confirm, Prog.bind_eq, Prog.pure_eq]
  refine walk_byConfirmation hm hhist (by simp) hm fun c r h halike htoken hp => ?_
  dsimp only
  by_cases hdone : alreadyExecuted c.state = true
  · rw [if_pos hdone]
    refine h.walk_append (fun _ => trivial) fun h₁ => ?_
    exact keeps_statusOf (h₁.mirror halike)
  rw [if_neg hdone]
  by_cases hstate : c.state = .awaitingConfirmation
  · obtain rfl := halike.live (by rw [hstate]; rfl)
    rw [if_neg (not_not.mpr hstate)]
    refine h.walk_expired (by simp) (fun w' seg' h' => ?_) fun w' seg' h' hfresh => ?_
    · exact h'.keeps_confirmExpired hstate
    simp only [Bool.false_eq_true, if_false]
    by_cases hdigest : actionDigest env c.action = c.actionDigest.getD ""
    · rw [if_neg (not_not.mpr hdigest)]
      exact h'.keeps_confirmAuthorized hstate htoken hp hdigest hfresh
    · rw [if_pos hdigest]
      exact h'.walk_append (fun _ => trivial) fun h₁ => h₁.keeps_statusOf
  · rw [if_pos hstate]
    exact keeps_statusOf hm

theorem keeps_cancel {ctx : Context} {token : String}
    (hhist : w.history = pre ++ [.began (.cancel ctx token)]) :
    Keeps env kind (cancel ctx token) w := by
  simp only [cancel, Prog.bind_eq, Prog.pure_eq]
  refine walk_byConfirmation hm hhist (by simp) hm fun c r h halike htoken hp => ?_
  dsimp only
  cases edge : TRANSITIONS c.state .cancel with
  | none =>
    rw [attempt_move_none edge]
    exact h.walk_append (fun _ => trivial) fun h₁ => keeps_statusOf (h₁.mirror halike)
  | some target =>
    have hlive : dead c.state = false ∧ target = .cancelled := by
      cases hs : c.state <;> rw [hs] at edge <;> cases edge <;> exact ⟨rfl, rfl⟩
    obtain rfl := halike.live hlive.1
    obtain rfl := hlive.2
    rw [attempt_move_some edge]
    refine h.walk_move rfl edge (fun w' _ _ _ _ => .hop (show HopOk w' c .cancel from trivial) edge)
      fun w' h' _ => ?_
    exact h'.walk_saveReason (Or.inl rfl) fun w'' h'' _ => h''.keeps_statusOf

theorem keeps_reconcile {ctx : Context} {id : String}
    (hhist : w.history = pre ++ [.began (.reconcile ctx id)]) :
    Keeps env kind (reconcile ctx id) w := by
  simp only [reconcile, Prog.bind_eq, Prog.pure_eq]
  refine walk_ownedByCustomer hm hhist (by simp) hm fun c r h halike _ _ => ?_
  dsimp only
  by_cases hstate : c.state = .unknown
  · obtain rfl := halike.live (by rw [hstate]; rfl)
    rw [if_neg (not_not.mpr hstate)]
    refine walk_call trivial ?_
    refine h.walk_append (fun _ => trivial) fun h₁ => ?_
    simp only [serve, Intent.idempotencyKey] at h₁ ⊢
    generalize hpaid : w.bank.payment c.id = paid at h₁ ⊢
    cases paid with
    | none =>
      have edge : TRANSITIONS c.state .fail = some .failed := by rw [hstate]; rfl
      refine h₁.walk_move rfl edge (fun w' _ hbank _ _ => .hop (show HopOk w' c .fail from ?_) edge)
        fun w' h' _ => ?_
      · change w'.bank.payment c.id = none
        rw [hbank]
        exact hpaid
      · exact h'.walk_saveReason (Or.inl rfl) fun w'' h'' _ => h''.keeps_statusOf
    | some receipt =>
      have edge : TRANSITIONS c.state .complete = some .completed := by rw [hstate]; rfl
      refine h₁.walk_assign rfl rfl fun h₂ => ?_
      refine h₂.walk_move rfl edge (fun w' _ hbank _ _ => .settled ?_ edge)
        fun w' h' _ => h'.keeps_statusOf
      rw [hbank]
      exact hpaid
  · rw [if_pos hstate]
    exact keeps_statusOf hm

theorem keeps_stepUp {ctx : Context} {id : String}
    (hhist : w.history = pre ++ [.began (.stepUp ctx id)]) : Keeps env kind (stepUp env ctx id) w := by
  simp only [stepUp, Prog.bind_eq, Prog.pure_eq]
  refine walk_ownedByCustomer hm hhist (by simp) hm fun c r h halike hid hcustomer => ?_
  dsimp only
  by_cases hstate : c.state = .awaitingStepUp
  · obtain rfl := halike.live (by rw [hstate]; rfl)
    obtain rfl := hid
    rw [if_neg (not_not.mpr hstate)]
    have edge : TRANSITIONS c.state .stepUp = some .validated := by rw [hstate]; rfl
    refine h.walk_assign rfl rfl fun h₁ => ?_
    refine h₁.walk_put (fun _ => .strengthened hstate h₁.during hcustomer) fun h₂ => ?_
    refine walk_call trivial ?_
    have h₃ := h₂.now env
    refine h₃.walk_append (fun _ => ⟨_, ctx, _, h₃.row, h₃.during, hcustomer⟩) fun h₄ => ?_
    refine h₄.walk_move rfl edge (fun w' h' _ _ _ => .hop (show HopOk w' _ .stepUp from ?_) edge)
      fun w' h' _ => ?_
    · exact ⟨rfl, ctx, _, _, _, h'.during, hcustomer,
        List.mem_append_left _ (List.mem_append_right _ (List.mem_singleton.mpr rfl))⟩
    · exact h'.keeps_decideOn rfl (by simp [Unjudged])
  · rw [if_pos hstate]
    exact keeps_statusOf hm

theorem keeps_status {ctx : Context} {id : String}
    (hhist : w.history = pre ++ [.began (.status ctx id)]) : Keeps env kind (status ctx id) w := by
  simp only [status, Prog.bind_eq, Prog.pure_eq]
  exact walk_owned hm hhist (by simp) hm fun c r h halike _ _ => keeps_statusOf hm

theorem keeps_explain {ctx : Context} {id : String} : Keeps env kind (explain ctx id) w := by
  simp only [explain, Prog.bind_eq, Prog.pure_eq, Prog.perform_bind]
  exact walk_call trivial hm

end Operations

theorem keeps_map (p : Plane α) {β : Type} (f : α → β) (hp : Keeps env kind p w) :
    Keeps env kind (p.bind fun a => .ret (f a)) w := by
  rw [Keeps, Prog.wp_bind]
  refine Prog.wp_mono (Handler.given_mono _ _ _) p (fun x t ht => ?_) hp
  cases x <;> exact ht

/-! ## The sweep -/

theorem mem_unsettled {states : List State} (hc : c ∈ w.unsettled kind states) :
    c ∈ w.intents kind ∧ c.state ∈ states := by
  unfold World.unsettled at hc
  cases kind with
  | memory => simpa using hc
  | postgres => simpa [List.mem_insertionSort] using hc

theorem nodup_unsettled (h : ((w.intents kind).map Intent.id).Nodup) (states : List State) :
    ((w.unsettled kind states).map Intent.id).Nodup := by
  have hfilter : (((w.intents kind).filter fun i => i.state ∈ states).map Intent.id).Nodup :=
    h.sublist (List.filter_sublist.map Intent.id)
  unfold World.unsettled
  cases kind with
  | memory => exact hfilter
  | postgres => exact ((List.perm_insertionSort _ _).map Intent.id).nodup_iff.mpr hfilter

/-- Each stranded intent is swept in turn; the others wait as they were found. -/
theorem keeps_sweepEach (stranded : List Intent) (hm : Mirror kind w)
    (hhist : w.history = pre ++ .began op :: seg) (hquiet : ∀ o ∈ seg, ¬ o.IsBegan)
    (hfound : ∀ c ∈ stranded, Keyed.find Intent.id (w.intents kind) c.id = some c ∧
      c.state = .submitted) (hnodup : (stranded.map Intent.id).Nodup) :
    Keeps env kind (sweepEach stranded) w := by
  induction stranded generalizing w seg with
  | nil => exact hm
  | cons c rest ih =>
    obtain ⟨hf, hstate⟩ := hfound c List.mem_cons_self
    obtain ⟨r, h, halike⟩ := At.found hm hhist hquiet hf
    obtain rfl := halike.live (by rw [hstate]; rfl)
    have edge : TRANSITIONS c.state .timeout = some .unknown := by rw [hstate]; rfl
    rw [List.map_cons, List.nodup_cons] at hnodup
    simp only [sweepEach, Prog.bind_eq, Prog.perform_bind]
    refine h.walk_append (fun _ => trivial) fun h₁ => ?_
    refine h₁.walk_move rfl edge (fun w' _ _ _ _ => .hop (show HopOk w' c .timeout from trivial) edge)
      fun w₂ h₂ hb₂ => ?_
    refine h₂.walk_saveReason (Or.inr rfl) fun w₃ h₃ hb₃ => ?_
    refine ih (h₃.mirror (Or.inl rfl)) h₃.hist h₃.quiet (fun d hd => ?_) hnodup.2
    have hne : d.id ≠ c.id := fun heq => hnodup.1 (heq ▸ List.mem_map_of_mem hd)
    obtain ⟨hfd, hsd⟩ := hfound d (List.mem_cons_of_mem _ hd)
    refine ⟨?_, hsd⟩
    rw [hb₃.others d.id hne, hb₂.others d.id hne, (beside_append kind w c.id _).others d.id hne, hfd]

theorem keeps_sweep (hm : Mirror kind w) (hhist : w.history = pre ++ [.began .sweep]) :
    Keeps env kind sweep w := by
  simp only [sweep, Prog.bind_eq, Prog.pure_eq, Prog.perform_bind]
  refine walk_given fun hi => walk_call trivial ?_
  refine keeps_map _ _ (keeps_sweepEach _ hm hhist (by simp) (fun c hc => ?_) ?_)
  · obtain ⟨hmem, hstate⟩ := mem_unsettled hc
    exact ⟨Keyed.find_of_mem Intent.id (hi.nodup_intents kind) hmem, by simpa using hstate⟩
  · exact nodup_unsettled (hi.nodup_intents kind) _

/-! ## Proposing and reading -/

/-- No row of the ledger carries an id drawn now. -/
theorem Inv.fresh_events (hi : Inv env w) : w.events (newIdAt env "pix" w.drawn) = [] := by
  rw [World.events, List.filter_eq_nil_iff]
  intro e he heq
  obtain ⟨n, hn, hid⟩ := hi.known e he
  rw [of_decide_eq_true heq] at hid
  rcases hid with hid | hid
  · exact absurd (newIdAt_injective env _ hid) (Nat.ne_of_gt hn)
  · exact newIdAt_pix_ne_read env _ _ hid

theorem Inv.fresh_row (hi : Inv env w) : w.row (newIdAt env "pix" w.drawn) = none := by
  cases hr : w.row (newIdAt env "pix" w.drawn) with
  | none => rfl
  | some r =>
    obtain ⟨n, hn, hid⟩ := hi.ids _ _ hr
    exact absurd (newIdAt_injective env _ hid) (Nat.ne_of_gt hn)

/-- A propose is under way and has drawn the id of an intent it has not saved yet. -/
structure Opening (env : Env) (kind : StoreKind) (pre : List Obs) (op : Op) (ctx : Context) (n : Nat)
    (w : World) (seg : List Obs) : Prop where
  hist : w.history = pre ++ .began op :: seg
  quiet : ∀ o ∈ seg, ¬ o.IsBegan
  mirror : Mirror kind w
  absent : w.row (newIdAt env "pix" n) = none
  drawn : n < w.drawn
  principal : principalOf (w.events (newIdAt env "pix" n)) = some (ctx.customerId, ctx.sessionId)

theorem Opening.append {ctx : Context} {n : Nat} (h : Opening env kind pre op ctx n w seg) (e : Entry) :
    Opening env kind pre op ctx n (w.append (newIdAt env "pix" n) e)
      (seg ++ [.appended ⟨newIdAt env "pix" n, e⟩]) := by
  refine ⟨by simp [World.append, h.hist], fun o ho => ?_, h.mirror, h.absent, h.drawn, ?_⟩
  · rcases List.mem_append.mp ho with ho | ho
    · exact h.quiet o ho
    · rw [List.mem_singleton.mp ho]
      exact fun hb => hb
  · rw [World.events_append]
    exact principalOf_append h.principal _

theorem Opening.known {ctx : Context} {n : Nat} (h : Opening env kind pre op ctx n w seg) :
    Known env w.drawn (newIdAt env "pix" n) := ⟨n, h.drawn, Or.inl rfl⟩

/-- The new intent is saved, and held. -/
theorem Opening.put {ctx : Context} {n : Nat} (h : Opening env kind pre op ctx n w seg)
    {c : Intent} (hid : c.id = newIdAt env "pix" n) :
    At kind pre op (w.put c) (seg ++ [.stored c]) c c := by
  have hsaved : w.saved c = c := World.saved_new (hid ▸ h.absent)
  refine ⟨by simp [World.put, h.hist, hsaved], fun o ho => ?_, by rw [World.row_put, if_pos rfl, hsaved],
    rfl, fun _ => by rw [World.object_put, if_pos rfl], fun hk k hne => ?_⟩
  · rcases List.mem_append.mp ho with ho | ho
    · exact h.quiet o ho
    · rw [List.mem_singleton.mp ho]
      exact fun hb => hb
  · rw [World.object_put, World.row_put, if_neg (Ne.symm hne), if_neg (Ne.symm hne)]
    exact h.mirror hk k

theorem Opening.walk_put {Q : Except Exn α → World → Prop} {ctx : Context} {proposed : ProposedPix}
    {text : String} {n : Nat} (h : Opening env kind pre (.propose ctx proposed text) ctx n w seg)
    {action : CreatePix} {createdAt : Instant} {k : Unit → Plane α}
    {c : Intent} (hc : c =
      { id := newIdAt env "pix" n, action := action, context := ctx, createdAt := createdAt })
    (hk : ∀ w', At kind pre (.propose ctx proposed text) w' (seg ++ [.stored c]) c c →
      (k ()).wp (walk env kind) Q w') :
    (Prog.call (.put c) k).wp (walk env kind) Q w := by
  subst hc
  refine fun _ => ⟨?_, hk _ (h.put rfl)⟩
  change Saves env _ (w.row (newIdAt env "pix" n)) _
  rw [h.absent]
  exact .opened ⟨trivial, h.quiet, pre, h.hist⟩ h.drawn h.principal

theorem walk_missingPreconditions {Q : Except Exn α → World → Prop} {f : List String → Plane α}
    (hk : ∀ missing, (f missing).wp (walk env kind) Q w) :
    ((missingPreconditions c).bind f).wp (walk env kind) Q w := by
  simp only [missingPreconditions, Prog.bind_eq, Prog.pure_eq, Prog.perform_bind, Prog.call_bind,
    Prog.ret_bind]
  exact walk_call trivial (walk_call trivial (hk _))

theorem Opening.keeps_proposeTo {ctx : Context} {proposed : ProposedPix} {text : String} {n : Nat}
    (h : Opening env kind pre (.propose ctx proposed text) ctx n w seg)
    (hu : Unjudged seg (newIdAt env "pix" n)) (recipient : Contact) :
    Keeps env kind (proposeTo env ctx proposed (newIdAt env "pix" n) recipient) w := by
  simp only [proposeTo, Prog.bind_eq, Prog.pure_eq, Prog.perform_bind]
  refine walk_call trivial ?_
  have h₁ : Opening env kind pre (.propose ctx proposed text) ctx n (serve env kind .now w).2 seg :=
    ⟨h.hist, h.quiet, h.mirror, h.absent, h.drawn, h.principal⟩
  refine h₁.walk_put rfl fun w₂ h₂ => ?_
  refine h₂.walk_append (fun _ => trivial) fun h₃ => ?_
  refine walk_missingPreconditions fun missing => ?_
  by_cases hmissing : missing ≠ []
  · rw [if_pos hmissing]
    refine h₃.walk_move rfl rfl (fun w' _ _ _ _ => .hop (show HopOk w' _ .reject from trivial) rfl)
      fun w' h' _ => ?_
    exact h'.walk_assign rfl rfl fun h'' => h''.mirror (Or.inr ⟨rfl, rfl⟩)
  · rw [if_neg hmissing]
    refine h₃.walk_move rfl rfl (fun w' _ _ _ _ => .hop (show HopOk w' _ .validate from trivial) rfl)
      fun w' h' _ => ?_
    exact h'.keeps_decideOn rfl (by simp [Unjudged, hu.1, hu.2])

theorem keeps_propose {ctx : Context} {proposed : ProposedPix} {text : String} (hm : Mirror kind w)
    (hhist : w.history = pre ++ [.began (.propose ctx proposed text)]) :
    Keeps env kind (propose env ctx proposed text) w := by
  simp only [propose, Prog.bind_eq, Prog.pure_eq, Prog.perform_bind]
  refine walk_given fun hi => walk_call trivial ?_
  simp only [serve]
  have h₁ : Opening env kind pre (.propose ctx proposed text) ctx w.drawn
      (({ w with drawn := w.drawn + 1 } : World).append (newIdAt env "pix" w.drawn)
        (.request ctx.customerId ctx.sessionId ctx.channel (.text text)))
      [.appended ⟨newIdAt env "pix" w.drawn,
        .request ctx.customerId ctx.sessionId ctx.channel (.text text)⟩] := by
    refine ⟨by simp [World.append, hhist], by simp [Obs.IsBegan], hm, hi.fresh_row, Nat.lt_succ_self _, ?_⟩
    rw [World.events_append, if_pos rfl]
    change principalOf (w.events _ ++ _) = _
    rw [hi.fresh_events]
    rfl
  refine walk_call ⟨⟨w.drawn, Nat.lt_succ_self _, Or.inl rfl⟩, trivial⟩ ?_
  have h₂ := h₁.append (.interpreted proposed)
  refine walk_call ⟨h₁.known, trivial⟩ (walk_call trivial ?_)
  generalize (Prod.fst _ : List Contact) = found
  refine walk_call ⟨h₂.known, trivial⟩ ?_
  have h₃ := h₂.append (.resolution proposed.recipient (found.map Contact.id))
  rcases found with _ | ⟨recipient, _ | ⟨_, _⟩⟩
  · exact h₃.mirror
  · exact h₃.keeps_proposeTo (by simp [Unjudged]) _
  · exact h₃.mirror

theorem keeps_query {ctx : Context} {action : ReadAction} (hm : Mirror kind w) :
    Keeps env kind (query ctx action) w := by
  simp only [query, Prog.bind_eq, Prog.pure_eq, Prog.perform_bind]
  refine walk_call trivial ?_
  have hid : Known env (w.drawn + 1) (newIdAt env "read" w.drawn) :=
    ⟨w.drawn, Nat.lt_succ_self _, Or.inr rfl⟩
  refine walk_call ⟨hid, trivial⟩ ?_
  split_ifs
  · exact walk_call ⟨hid, trivial⟩ hm
  · cases action with
    | getBalance accountId =>
      simp only [readAnswer, Prog.bind_eq, Prog.pure_eq, Prog.perform_bind, Prog.call_bind]
      refine walk_call trivial ?_
      split
      · exact hm
      · exact fun _ => ⟨⟨hid, trivial⟩, hm⟩
    | getCardTransactions days =>
      simp only [readAnswer, Prog.bind_eq, Prog.pure_eq, Prog.perform_bind, Prog.call_bind,
        Prog.ret_bind]
      exact walk_call trivial (walk_call ⟨hid, trivial⟩ hm)

/-- **Every operation makes permitted calls only, and leaves table and dict in agreement.** -/
theorem keeps_op (hm : Mirror kind w) (op : Op) :
    Keeps env kind (op.prog env) (w.note (.began op)) := by
  replace hm : Mirror kind (w.note (.began op)) := hm
  cases op with
  | query ctx action => exact keeps_map _ _ (keeps_query hm)
  | propose ctx proposed text => exact keeps_map _ _ (keeps_propose hm rfl)
  | stepUp ctx id => exact keeps_map _ _ (keeps_stepUp hm rfl)
  | confirm ctx token => exact keeps_map _ _ (keeps_confirm hm rfl)
  | cancel ctx token => exact keeps_map _ _ (keeps_cancel hm rfl)
  | reconcile ctx id => exact keeps_map _ _ (keeps_reconcile hm rfl)
  | sweep => exact keeps_map _ _ (keeps_sweep hm rfl)
  | status ctx id => exact keeps_map _ _ (keeps_status hm rfl)
  | explain ctx id => exact keeps_map _ _ (keeps_explain hm)

end BankingControlPlane
