import BankingControlPlane.Plane.Runs

/-!
# What the plane may do, call by call

* `Saves` : every save the plane makes, as a change of the stored row;
* `Records` : what must hold when a ledger row is written; `Authorised` : when the bank is asked to pay;
* `Permitted` : the three together, for any call;
* `Inv` : what permitted calls keep (`Inv.serve`), whoever else writes actions and known tokens.
-/

namespace BankingControlPlane
open Effects

/-- The ids a ledger row may carry: those drawn so far for an intent or a read. -/
def Known (env : Env) (drawn : Nat) (id : String) : Prop :=
  ∃ n < drawn, id = newIdAt env "pix" n ∨ id = newIdAt env "read" n

/-- The intent has been handed to the bank, or is about to be. -/
def launched : State → Bool
  | .submitted | .unknown | .completed | .failed => true
  | _ => false

/-- The last state of an intent no operation writes again. -/
def dead : State → Bool
  | .cancelled | .failed => true
  | _ => false

/-- Policy was asked about `i` in this segment, once, with this risk and at this instant, and cleared
it. -/
structure Evaluated (env : Env) (seg : List Obs) (i : Intent) (risk : Risk) (moment : Instant) :
    Prop where
  risked : ∀ ρ, .appended ⟨i.id, .risk ρ⟩ ∈ seg ↔ ρ = risk
  readAt : ∀ m, .read .policy m ∈ seg ↔ m = moment
  judged : .appended ⟨i.id, .policy (evaluate env.zone i.action i.context risk moment)⟩ ∈ seg
  cleared : Cleared env.zone i.action i.context risk moment

/-- The intent with a token for its action as it stands. -/
def withToken (env : Env) (i : Intent) (token : String) (instant : Instant) : Intent :=
  { i with
    confirmationId := some token
    confirmationIssuedAt := some instant
    actionDigest := some (actionDigest env i.action)
    state := .awaitingConfirmation }

def strengthen (i : Intent) : Intent :=
  { i with context := { i.context with assurance := .strong } }

/-- What must hold of the row when it makes a plain hop. -/
def HopOk (w : World) (r : Intent) : Hop → Prop
  | .awaitConfirmation | .complete | .pend | .reverse => False
  | .requireStepUp => r.context.assurance ≠ .strong
  | .stepUp => r.context.assurance = .strong ∧ ∃ ctx seg method instant,
      During w.history (.stepUp ctx r.id) seg ∧ r.context.customerId = ctx.customerId ∧
      .appended ⟨r.id, .stepUp method instant⟩ ∈ seg
  | .fail => w.bank.payment r.id = none
  | _ => True

/-- Every save the plane makes, as a change of the stored row. -/
inductive Saves (env : Env) (w : World) : Option Intent → Intent → Prop
  | opened {ctx : Context} {proposed : ProposedPix} {text : String} {seg : List Obs} {n : Nat}
      {action : CreatePix} {createdAt : Instant}
      (during : During w.history (.propose ctx proposed text) seg) (drawn : n < w.drawn)
      (principal : principalOf (w.events (newIdAt env "pix" n)) =
        some (ctx.customerId, ctx.sessionId)) :
      Saves env w none
        { id := newIdAt env "pix" n, action := action, context := ctx, createdAt := createdAt }
  | hop {r : Intent} {event : Hop} {target : State} (ok : HopOk w r event)
      (edge : TRANSITIONS r.state event = some target) :
      Saves env w (some r) { r with state := target }
  | issued {r : Intent} {op : Op} {seg : List Obs} {n : Nat} {instant moment : Instant} {risk : Risk}
      (state : r.state = .validated) (drawn : n < w.drawn)
      (fresh : issueOf w.history (newIdAt env "conf" n) = none)
      (during : During w.history op seg) (evaluated : Evaluated env seg r risk moment) :
      Saves env w (some r) (withToken env r (newIdAt env "conf" n) instant)
  | settled {r : Intent} {receipt : Receipt} (paid : w.bank.payment r.id = some receipt)
      (edge : TRANSITIONS r.state .complete = some .completed) :
      Saves env w (some r) { r with receipt := some receipt, state := .completed }
  | strengthened {r : Intent} {ctx : Context} {seg : List Obs} (state : r.state = .awaitingStepUp)
      (during : During w.history (.stepUp ctx r.id) seg)
      (customer : r.context.customerId = ctx.customerId) :
      Saves env w (some r) (strengthen r)
  | consented {r : Intent} {ctx : Context} {token : String} {seg : List Obs} {instant : Instant}
      (state : r.state = .awaitingConfirmation)
      (during : During w.history (.confirm ctx token) seg) (principal : samePrincipal r ctx) :
      Saves env w (some r)
        { r with confirmedAt := some instant, confirmedBy := some ctx.customerId }
  | noted {r : Intent} {reason : String} (state : dead r.state ∨ r.state = .unknown) :
      Saves env w (some r) { r with reason := reason }

/-- What must hold when a row of the ledger is written. -/
def Records (w : World) (id : String) : Entry → Prop
  | .transition fromState event target _ =>
    ∃ r, w.row id = some r ∧ r.state = fromState ∧ TRANSITIONS fromState event = some target
  | .stepUp .. => ∃ r ctx seg, w.row id = some r ∧ During w.history (.stepUp ctx id) seg ∧
      r.context.customerId = ctx.customerId
  | .confirmation token customer session _ _ action => ∃ r ctx seg, w.row id = some r ∧
      During w.history (.confirm ctx token) seg ∧ samePrincipal r ctx ∧
      r.confirmationId = some token ∧ customer = ctx.customerId ∧ session = ctx.sessionId ∧
      action = r.action
  | _ => True

/-- When the bank is asked to pay: a confirm is under way, its token is the row's, the principal's
consent is in the ledger, the digest agrees, the token is young, and it is the first time. -/
structure AuthorisedBy (env : Env) (w : World) (o : Order) (r : Intent) (ctx : Context)
    (token : String) (seg : List Obs) : Prop where
  during : During w.history (.confirm ctx token) seg
  row : w.row o.idempotencyKey = some r
  order : o = r.order
  state : r.state = .submitted
  names : r.confirmationId = some token
  principal : samePrincipal r ctx
  digest : actionDigest env r.action = r.actionDigest.getD ""
  fresh : ∀ issued, r.confirmationIssuedAt = some issued →
    ∃ instant, (∀ x, .read .expiry x ∈ seg ↔ x = instant) ∧ instant - issued ≤ confirmationTtl
  consent : ∃ instant, .appended ⟨r.id, .confirmation token ctx.customerId ctx.sessionId ctx.channel
    instant r.action⟩ ∈ seg
  unasked : ∀ o', .asked o' ∈ w.history → o'.idempotencyKey ≠ o.idempotencyKey

def Authorised (env : Env) (w : World) (o : Order) : Prop :=
  ∃ r ctx token seg, AuthorisedBy env w o r ctx token seg

def Permitted (env : Env) : {β : Type} → PlaneCall β → World → Prop
  | _, .put i, w => Saves env w (w.row i.id) i
  | _, .append id e, w => Known env w.drawn id ∧ Records w id e
  | _, .createPix o, w => Authorised env w o
  | _, _, _ => True

/-! ## The invariant of permitted calls -/

structure Inv (env : Env) (w : World) : Prop where
  nodup : (w.rows.map Intent.id).Nodup
  nodupObjects : (w.objects.map Intent.id).Nodup
  ids : ∀ k r, w.row k = some r → ∃ n < w.drawn, k = newIdAt env "pix" n
  tokens : ∀ i t, .stored i ∈ w.history → i.confirmationId = some t →
    ∃ n < w.drawn, t = newIdAt env "conf" n
  rowTokens : ∀ k r t, w.row k = some r → r.confirmationId = some t →
    ∃ j, issueOf w.history t = some j
  written : ∀ i, .stored i ∈ w.history → ∃ r, w.row i.id = some r
  known : ∀ e ∈ w.ledger, Known env w.drawn e.intentId
  principals : ∀ k r, w.row k = some r →
    principalOf (w.events k) = some (r.context.customerId, r.context.sessionId)
  asked : ∀ o, .asked o ∈ w.history → ∃ r, w.row o.idempotencyKey = some r ∧ launched r.state
  ledger : w.ledger = ledgerOf w.history

theorem Known.mono {env : Env} {m n : Nat} {id : String} (h : Known env m id) (hmn : m ≤ n) :
    Known env n id := by
  obtain ⟨k, hk, hid⟩ := h
  exact ⟨k, Nat.lt_of_lt_of_le hk hmn, hid⟩

theorem key_of_row {w : World} {k : String} {r : Intent} (h : w.row k = some r) : r.id = k :=
  Keyed.key_of_find Intent.id h

/-- A save keeps the id, the principal and the creation time of a row. -/
theorem Saves.kept {env : Env} {w : World} {r i : Intent} (h : Saves env w (some r) i) :
    i.id = r.id ∧ i.createdAt = r.createdAt ∧ i.context.customerId = r.context.customerId ∧
      i.context.sessionId = r.context.sessionId ∧ i.context.deviceTrusted = r.context.deviceTrusted ∧
      i.action = r.action := by
  cases h <;> exact ⟨rfl, rfl, rfl, rfl, rfl, rfl⟩

/-- A launched row stays launched. -/
theorem Saves.launched {env : Env} {w : World} {r i : Intent} (h : Saves env w (some r) i)
    (hr : launched r.state) : launched i.state := by
  cases h with
  | @hop _ event target ok edge =>
    cases hs : r.state <;> rw [hs] at hr edge <;> cases event <;> cases edge <;>
      first
        | rfl
        | exact ok.elim
        | exact absurd hr (by decide)
  | issued state => rw [state] at hr; cases hr
  | settled => rfl
  | strengthened => exact hr
  | consented => exact hr
  | noted => exact hr

/-- A saved token was the row's already, or is being issued. -/
theorem Saves.token {env : Env} {w : World} {r i : Intent} (h : Saves env w (some r) i) :
    i.confirmationId = r.confirmationId ∨
      ∃ n < w.drawn, i.confirmationId = some (newIdAt env "conf" n) := by
  cases h with
  | issued _ drawn => exact Or.inr ⟨_, drawn, rfl⟩
  | _ => exact Or.inl rfl

theorem Saves.saved {env : Env} {w : World} {i : Intent} (h : Saves env w (w.row i.id) i) :
    w.saved i = i := by
  cases hr : w.row i.id with
  | none => exact World.saved_new hr
  | some r =>
    rw [hr] at h
    exact World.saved_eq hr h.kept.2.1

theorem principalOf_append {es : List Event} {p : String × String} (h : principalOf es = some p)
    (more : List Event) : principalOf (es ++ more) = some p := by
  simp only [principalOf, List.findSome?_append] at h ⊢
  rw [h, Option.some_or]

theorem World.events_append (w : World) (id : String) (e : Entry) (k : String) :
    (w.append id e).events k = w.events k ++ if id = k then [⟨id, e⟩] else [] := by
  simp only [events, append, List.filter_append, List.filter_cons, List.filter_nil]
  by_cases h : id = k <;> simp [h]

theorem World.nodup_assign {w : World} (h : (w.objects.map Intent.id).Nodup) (i : Intent) :
    ((w.assign i).objects.map Intent.id).Nodup := by
  simp only [World.assign]
  split_ifs
  · exact Keyed.nodup_upsert _ h i
  · exact h

namespace Inv
variable {env : Env} {w : World}

/-- Reading from outside draws ids and clocks on, and notes what was read. -/
theorem later (h : Inv env w) {w' : World} (hrows : w'.rows = w.rows)
    (hobjects : (w'.objects.map Intent.id).Nodup)
    (hledger : w'.ledger = w.ledger) (hdrawn : w.drawn ≤ w'.drawn)
    (hhist : w'.history = w.history ∨ ∃ o : Obs, o.Silent ∧ w'.history = w.history ++ [o]) :
    Inv env w' := by
  have hrow : ∀ k, w'.row k = w.row k := fun k => by rw [World.row, hrows, World.row]
  have hevents : ∀ k, w'.events k = w.events k := fun k => by rw [World.events, hledger, World.events]
  have hstored : ∀ i, .stored i ∈ w'.history → .stored i ∈ w.history := by
    intro i hi
    rcases hhist with heq | ⟨o, ho, heq⟩
    · exact heq ▸ hi
    · rw [heq, List.mem_append, List.mem_singleton] at hi
      exact hi.resolve_right fun h => by rw [← h] at ho; exact ho
  have hasked : ∀ o, .asked o ∈ w'.history → .asked o ∈ w.history := by
    intro o' hi
    rcases hhist with heq | ⟨o, ho, heq⟩
    · exact heq ▸ hi
    · rw [heq, List.mem_append, List.mem_singleton] at hi
      exact hi.resolve_right fun h => by rw [← h] at ho; exact ho
  refine ⟨hrows ▸ h.nodup, hobjects, fun k r hr => ?_, fun i t hi ht => ?_, fun k r t hr ht => ?_,
    fun i hi => ?_, fun e he => (h.known e (hledger ▸ he)).mono hdrawn, fun k r hr => ?_,
    fun o ho => ?_, ?_⟩
  · obtain ⟨n, hn, heq⟩ := h.ids k r (hrow k ▸ hr)
    exact ⟨n, Nat.lt_of_lt_of_le hn hdrawn, heq⟩
  · obtain ⟨n, hn, heq⟩ := h.tokens i t (hstored i hi) ht
    exact ⟨n, Nat.lt_of_lt_of_le hn hdrawn, heq⟩
  · obtain ⟨j, hj⟩ := h.rowTokens k r t (hrow k ▸ hr) ht
    rcases hhist with heq | ⟨o, -, heq⟩
    · exact ⟨j, heq ▸ hj⟩
    · exact ⟨j, heq ▸ issueOf_some hj _⟩
  · rw [hrow]
    exact h.written i (hstored i hi)
  · rw [hevents]
    exact h.principals k r (hrow k ▸ hr)
  · rw [hrow]
    exact h.asked o (hasked o ho)
  · rcases hhist with heq | ⟨o, ho, heq⟩
    · rw [heq, hledger]
      exact h.ledger
    · rw [heq, hledger, ledgerOf_snoc, h.ledger, ho.event]
      simp

/-- No version of an intent without a row has been saved. -/
theorem unwritten (h : Inv env w) {k : String} (hk : w.row k = none) {i : Intent}
    (hi : .stored i ∈ w.history) : i.id ≠ k := by
  rintro rfl
  obtain ⟨r, hr⟩ := h.written i hi
  rw [hk] at hr
  cases hr

theorem append (h : Inv env w) {id : String} (hid : Known env w.drawn id) (e : Entry) :
    Inv env (w.append id e) := by
  refine ⟨h.nodup, h.nodupObjects, h.ids, fun i t hi => ?_, fun k r t hr ht => ?_, fun i hi => ?_,
    fun e' he => ?_, fun k r hr => ?_, fun o ho => ?_, ?_⟩
  · exact h.tokens i t (by simpa [World.append] using hi)
  · obtain ⟨j, hj⟩ := h.rowTokens k r t hr ht
    exact ⟨j, issueOf_some hj _⟩
  · exact h.written i (by simpa [World.append] using hi)
  · rcases List.mem_append.mp he with he | he
    · exact h.known e' he
    · rw [List.mem_singleton.mp he]
      exact hid
  · rw [World.events_append]
    exact principalOf_append (h.principals k r hr) _
  · exact h.asked o (by simpa [World.append] using ho)
  · simp [World.append, h.ledger, Obs.event]

theorem put (h : Inv env w) {i : Intent} (hs : Saves env w (w.row i.id) i) : Inv env (w.put i) := by
  have hsaved := hs.saved
  have hrow : ∀ k r, (w.put i).row k = some r → (i.id = k ∧ i = r) ∨ (i.id ≠ k ∧ w.row k = some r) := by
    intro k r hr
    rw [World.row_put, hsaved] at hr
    split_ifs at hr with hk
    · exact Or.inl ⟨hk, Option.some.inj hr⟩
    · exact Or.inr ⟨hk, hr⟩
  have hevents : ∀ k, (w.put i).events k = w.events k := fun _ => rfl
  have hhist : (w.put i).history = w.history ++ [.stored i] := by rw [World.put, hsaved]
  have htoken : ∀ t, i.confirmationId = some t → ∃ n < w.drawn, t = newIdAt env "conf" n := by
    intro t ht
    cases hr : w.row i.id with
    | none =>
      rw [hr] at hs
      cases hs
      cases ht
    | some r =>
      rw [hr] at hs
      rcases hs.token with heq | ⟨n, hn, heq⟩
      · obtain ⟨j, hj⟩ := h.rowTokens _ r t hr (heq ▸ ht)
        obtain ⟨hstored, htok⟩ := stored_of_issueOf hj
        exact h.tokens j t hstored htok
      · exact ⟨n, hn, by rw [ht] at heq; exact Option.some.inj heq⟩
  refine ⟨Keyed.nodup_upsert _ h.nodup _, Keyed.nodup_upsert _ h.nodupObjects _, fun k r hr => ?_,
    fun j t hj ht => ?_, fun k r t hr ht => ?_, fun j hj => ?_, h.known, fun k r hr => ?_,
    fun o ho => ?_, ?_⟩
  · rcases hrow k r hr with ⟨rfl, rfl⟩ | ⟨-, hr⟩
    · cases hr' : w.row i.id with
      | none =>
        rw [hr'] at hs
        cases hs with
        | opened _ drawn => exact ⟨_, drawn, rfl⟩
      | some r => exact h.ids _ r hr'
    · exact h.ids k r hr
  · rw [hhist, List.mem_append, List.mem_singleton] at hj
    rcases hj with hj | hj
    · exact h.tokens j t hj ht
    · obtain rfl := Obs.stored.inj hj
      exact htoken t ht
  · rcases hrow k r hr with ⟨rfl, rfl⟩ | ⟨-, hr⟩
    · exact issueOf_of_stored (hhist ▸ List.mem_append_right _ (List.mem_singleton.mpr rfl)) ht
    · obtain ⟨j, hj⟩ := h.rowTokens k r t hr ht
      exact ⟨j, hhist ▸ issueOf_some hj _⟩
  · rw [World.row_put]
    split_ifs with hk
    · exact ⟨_, rfl⟩
    · rw [hhist, List.mem_append, List.mem_singleton] at hj
      rcases hj with hj | hj
      · exact h.written j hj
      · exact absurd (congrArg Intent.id (Obs.stored.inj hj)).symm hk
  · rw [hevents]
    rcases hrow k r hr with ⟨rfl, rfl⟩ | ⟨-, hr⟩
    · cases hr' : w.row i.id with
      | none =>
        rw [hr'] at hs
        cases hs with
        | opened _ _ principal => exact principal
      | some r =>
        rw [hr'] at hs
        obtain ⟨-, -, hcust, hsess, -⟩ := hs.kept
        rw [hcust, hsess]
        exact h.principals _ r hr'
    · exact h.principals k r hr
  · rw [hhist] at ho
    obtain ⟨r, hr, hl⟩ := h.asked o (by simpa using ho)
    by_cases hk : i.id = o.idempotencyKey
    · rw [← hk] at hr
      rw [hr] at hs
      exact ⟨i, by rw [World.row_put, if_pos hk, hsaved], hs.launched hl⟩
    · exact ⟨r, by rw [World.row_put, if_neg hk, hr], hl⟩
  · rw [hhist, ledgerOf_snoc]
    simpa [Obs.event, World.put] using h.ledger

theorem createPix (h : Inv env w) {o : Order} (ha : Authorised env w o) (kind : StoreKind) :
    Inv env (serve env kind (.createPix o) w).2 := by
  have hdrawn : w.drawn ≤ (w.bank.createPix env w.drawn o).2.2 := by
    rcases MockBank.createPix_cases env w.bank w.drawn o with ⟨r, -, heq⟩ | ⟨-, m, heq⟩ | ⟨-, a, heq, -⟩
    · rw [heq]
    · rw [heq]
    · rw [heq]
      exact Nat.le_add_right _ _
  obtain ⟨r, ctx, token, seg, hauth⟩ := ha
  refine ⟨h.nodup, h.nodupObjects, fun k r hr => ?_, fun i t hi ht => ?_, fun k r t hr ht => ?_,
    fun i hi => ?_, fun e he => (h.known e he).mono hdrawn, h.principals, fun o' ho => ?_, ?_⟩
  · obtain ⟨n, hn, heq⟩ := h.ids k r hr
    exact ⟨n, Nat.lt_of_lt_of_le hn hdrawn, heq⟩
  · obtain ⟨n, hn, heq⟩ := h.tokens i t (by simpa [serve, World.note] using hi) ht
    exact ⟨n, Nat.lt_of_lt_of_le hn hdrawn, heq⟩
  · obtain ⟨j, hj⟩ := h.rowTokens k r t hr ht
    exact ⟨j, issueOf_some hj _⟩
  · exact h.written i (by simpa [serve, World.note] using hi)
  · simp only [serve, World.note, List.mem_append, List.mem_singleton, Obs.asked.injEq] at ho
    rcases ho with ho | rfl
    · exact h.asked o' ho
    · exact ⟨r, hauth.row, by rw [hauth.state]; rfl⟩
  · simp [serve, World.note, h.ledger, Obs.event]

/-- **Every permitted call keeps the invariant.** -/
theorem serve (h : Inv env w) (kind : StoreKind) {β : Type} {c : PlaneCall β}
    (hc : Permitted env c w) : Inv env (BankingControlPlane.serve env kind c w).2 := by
  cases c with
  | put i => exact h.put hc
  | append id e => exact h.append hc.1 e
  | createPix o => exact h.createPix hc kind
  | assign i => exact h.later rfl (World.nodup_assign h.nodupObjects i) rfl (Nat.le_refl _) (Or.inl rfl)
  | clock use => exact h.later rfl h.nodupObjects rfl (Nat.le_refl _) (Or.inr ⟨.read use (env.clock w.ticks), trivial, rfl⟩)
  | newId stem => exact h.later rfl h.nodupObjects rfl (Nat.le_succ _) (Or.inl rfl)
  | now => exact h.later rfl h.nodupObjects rfl (Nat.le_refl _) (Or.inl rfl)
  | cardTransactions days => exact h.later rfl h.nodupObjects rfl (Nat.le_refl _) (Or.inl rfl)
  | _ => exact h

end Inv

end BankingControlPlane
