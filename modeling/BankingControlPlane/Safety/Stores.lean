import BankingControlPlane.Plane.Confirming
import BankingControlPlane.Plane.Sample
import BankingControlPlane.Plane.Writes

/-!
# The two stores, side by side

A dict hands out the very object the plane writes to; a table hands out copies. The plane behaves alike
over both as long as it saves what it writes.

* `Follows` : an operation that reads no intent any more, seen by the object and the row it holds;
* `forgets` : the two branches that write a reason and do not save it;
* `stores_interchangeable` : without them, the same replies over either store, step by step.
-/

namespace BankingControlPlane
open Effects

variable {env : Env} {α : Type} {id : String} {created : Instant} {w : World} {c : Intent}

/-- The dict and the table hold the same. -/
def Exact (w : World) : Prop := w.objects = w.rows

/-! ## The object and the row -/

/-- What the dict and the table have of one intent, the bank and the clocks. -/
structure Held where
  object : Option Intent
  row : Option Intent
  bank : MockBank
  ticks : Nat
  nows : Nat

/-- Calls of an operation that holds the intent `id`: it writes no other and reads none; bank and clocks
answer as they do, everything else may answer anything. -/
def follows (env : Env) (id : String) (created : Instant) : Prog.Meaning Held PlaneCall :=
  fun {β} (c : PlaneCall β) (K : β → Held → Prop) (s : Held) =>
    match β, c, K with
    | _, .get _, _ => False
    | _, .byConfirmation _, _ => False
    | _, .unsettled _, _ => False
    | _, .put i, K => i.id = id ∧ i.createdAt = created ∧ K () { s with object := some i, row := some i }
    | _, .assign i, K => i.id = id ∧ s.object.isSome ∧ K () { s with object := some i }
    | _, .findContacts name, K => K (s.bank.findContacts env name) s
    | _, .contact contactId, K => K (s.bank.contact contactId) s
    | _, .balance accountId, K => K (s.bank.balance accountId) s
    | _, .clock _, K => K (env.clock s.ticks) { s with ticks := s.ticks + 1 }
    | _, .now, K => K (env.now s.nows) { s with nows := s.nows + 1 }
    | _, .cardTransactions _, K => ∀ r, K r { s with nows := s.nows + 1 }
    | _, .createPix o, K => ∀ n, K (s.bank.createPix env n o).1
        { s with bank := (s.bank.createPix env n o).2.1 }
    | _, _, K => ∀ r, K r s

/-- At its end the object is as it was saved. -/
abbrev Follows (env : Env) (id : String) (created : Instant) (p : Plane α) (s : Held) : Prop :=
  p.wp (follows env id created) (fun _ s => s.object = s.row) s

/-- The world in which an operation holds the intent `id`. -/
structure Held.Of (id : String) (created : Instant) (s : Held) (w : World) : Prop where
  object : w.object id = s.object
  row : w.row id = s.row
  bank : w.bank = s.bank
  ticks : w.ticks = s.ticks
  nows : w.nows = s.nows
  created : ∀ r, s.row = some r → r.createdAt = created
  others : ∀ k, k ≠ id → w.object k = w.row k
  ids : w.objects.map Intent.id = w.rows.map Intent.id

/-- What a world shows of an intent it does not have. -/
def World.held (w : World) : Held := ⟨none, none, w.bank, w.ticks, w.nows⟩

theorem Held.Of.put {s : Held} (h : s.Of id created w) {i : Intent} (hid : i.id = id)
    (hc : i.createdAt = created) :
    ({ s with object := some i, row := some i } : Held).Of id created (w.put i) := by
  have hsaved : w.saved i = i := by
    cases hr : w.row i.id with
    | none => exact World.saved_new hr
    | some r =>
      rw [hid, h.row] at hr
      exact World.saved_eq (by rw [hid, h.row, hr]) (hc.trans (h.created r hr).symm)
  refine ⟨by rw [World.object_put, if_pos hid], by rw [World.row_put, if_pos hid, hsaved], h.bank,
    h.ticks, h.nows, fun r hr => Option.some.inj hr ▸ hc, fun k hk => ?_, ?_⟩
  · have hne : ¬ i.id = k := fun heq => hk (heq.symm.trans hid)
    rw [World.object_put, World.row_put, if_neg hne, if_neg hne, h.others k hk]
  · simp only [World.put, Keyed.keys_upsert, h.ids, World.saved_id]

theorem Held.Of.assign {s : Held} (h : s.Of id created w) {i : Intent} (hid : i.id = id)
    (hs : s.object.isSome) : ({ s with object := some i } : Held).Of id created (w.assign i) := by
  have hobject : (w.object i.id).isSome := by rw [hid, h.object]; exact hs
  refine ⟨by rw [World.object_assign, if_pos ⟨hobject, hid⟩], h.row, h.bank, h.ticks, h.nows, h.created,
    fun k hk => ?_, ?_⟩
  · have hne : ¬ i.id = k := fun heq => hk (heq.symm.trans hid)
    rw [World.object_assign, if_neg fun hand => hne hand.2, World.row_assign, h.others k hk]
  · have hmem : i.id ∈ w.rows.map Intent.id := by
      obtain ⟨o, ho⟩ := Option.isSome_iff_exists.mp hobject
      rw [← h.ids, ← Keyed.key_of_find Intent.id ho]
      exact List.mem_map_of_mem (Keyed.mem_of_find Intent.id ho)
    simp only [World.assign, hobject, if_true, Keyed.keys_upsert, h.ids, hmem]

/-- **An operation that holds its intent runs alike over both stores.** -/
theorem run_follows {Q : Except Exn α → Held → Prop} {p : Plane α} {s : Held}
    (hp : p.wp (follows env id created) Q s) (hs : s.Of id created w) :
    p.run (handler env .memory) w = p.run (handler env .postgres) w ∧
      ∃ s', Q (p.run (handler env .postgres) w).1 s' ∧
        s'.Of id created (p.run (handler env .postgres) w).2 := by
  induction p generalizing s w with
  | ret a => exact ⟨rfl, s, hp, hs⟩
  | raise e => exact ⟨rfl, s, hp, hs⟩
  | call pc k ih =>
    cases pc with
    | get => exact hp.elim
    | byConfirmation => exact hp.elim
    | unsettled => exact hp.elim
    | put i => exact ih () hp.2.2 (hs.put hp.1 hp.2.1)
    | assign i => exact ih () hp.2.2 (hs.assign hp.1 hp.2.1)
    | findContacts name =>
      refine ih (w.bank.findContacts env name) ?_ hs
      rw [hs.bank]
      exact hp
    | contact contactId =>
      refine ih (w.bank.contact contactId) ?_ hs
      rw [hs.bank]
      exact hp
    | balance accountId =>
      refine ih (w.bank.balance accountId) ?_ hs
      rw [hs.bank]
      exact hp
    | createPix o =>
      have hstep := hp w.drawn
      rw [← hs.bank] at hstep
      exact ih _ hstep ⟨hs.object, hs.row, rfl, hs.ticks, hs.nows, hs.created, hs.others, hs.ids⟩
    | append intentId e =>
      exact ih () (hp ()) ⟨hs.object, hs.row, hs.bank, hs.ticks, hs.nows, hs.created, hs.others, hs.ids⟩
    | eventsFor intentId => exact ih _ (hp _) hs
    | clock use =>
      have hstep : ({ s with ticks := s.ticks + 1 } : Held).Of id created
          (serve env .postgres (.clock use) w).2 :=
        ⟨hs.object, hs.row, hs.bank, congrArg (· + 1) hs.ticks, hs.nows, hs.created, hs.others, hs.ids⟩
      refine ih (env.clock w.ticks) ?_ hstep
      rw [hs.ticks]
      exact hp
    | now =>
      have hstep : ({ s with nows := s.nows + 1 } : Held).Of id created (serve env .postgres .now w).2 :=
        ⟨hs.object, hs.row, hs.bank, hs.ticks, congrArg (· + 1) hs.nows, hs.created, hs.others, hs.ids⟩
      refine ih (env.now w.nows) ?_ hstep
      rw [hs.nows]
      exact hp
    | newId stem =>
      exact ih _ (hp _) ⟨hs.object, hs.row, hs.bank, hs.ticks, hs.nows, hs.created, hs.others, hs.ids⟩
    | cardTransactions days =>
      exact ih _ (hp _) ⟨hs.object, hs.row, hs.bank, hs.ticks, congrArg (· + 1) hs.nows, hs.created,
        hs.others, hs.ids⟩
    | paidBefore => exact ih _ (hp _) hs
    | payment key => exact ih _ (hp _) hs

/-! ## The programs an operation is made of -/

/-- Object and row are the intent `c`. -/
def Held.both (s : Held) (c : Intent) : Held := { s with object := some c, row := some c }

section Rules
variable {s : Held}

theorem follows_statusOf (hs : s.object = s.row) {i : Intent} {message : String}
    {status : Option Status} : Follows env id created (statusOf i message status) s := hs

theorem follows_summary {i : Intent} {f : Summary → Plane α}
    (hf : ∀ x, Follows env id created (f x) s) : Follows env id created ((summary i).bind f) s :=
  hf _

theorem follows_clock {use : Reading} {k : Instant → Plane α}
    (hk : Follows env id created (k (env.clock s.ticks)) { s with ticks := s.ticks + 1 }) :
    Follows env id created (Prog.call (.clock use) k) s := hk

theorem follows_assign {f : Intent → Plane α} (hid : c.id = id) (hs : s.object.isSome)
    (hf : Follows env id created (f c) { s with object := some c }) :
    Follows env id created ((assign c).bind f) s := ⟨hid, hs, hf⟩

theorem follows_move {event : Hop} {target : State} {detail : Detail} {f : Intent → Plane α}
    (hid : c.id = id) (hc : c.createdAt = created) (hs : s.object.isSome)
    (edge : TRANSITIONS c.state event = some target)
    (hf : Follows env id created (f { c with state := target })
      (s.both { c with state := target })) :
    Follows env id created ((move c event detail).bind f) s := by
  simp only [move, transition, edge, Prog.bind_eq, Prog.pure_eq, Prog.perform_bind, Prog.call_bind,
    Prog.bind_assoc, Prog.ret_bind]
  exact fun _ => ⟨hid, hs, hid, hc, hf⟩

theorem follows_saveReason {reason : String} {f : Intent → Plane α} (hid : c.id = id)
    (hc : c.createdAt = created) (hs : s.object.isSome)
    (hf : Follows env id created (f { c with reason := reason })
      (s.both { c with reason := reason })) :
    Follows env id created ((saveReason c reason).bind f) s := ⟨hid, hs, hid, hc, hf⟩

theorem follows_decideOn (hid : c.id = id) (hc : c.createdAt = created)
    (hstate : c.state = .validated) : Follows env id created (decideOn env c) (s.both c) := by
  have edge : ∀ event, TRANSITIONS c.state event = TRANSITIONS .validated event :=
    fun _ => by rw [hstate]
  simp only [decideOn, Prog.bind_eq, Prog.perform_bind]
  intro paid _ _
  change Follows env id created (applyVerdict env c (evaluate env.zone c.action c.context
    (assessRisk c.action c.context paid) (env.clock s.ticks))) ({ s with ticks := s.ticks + 1 }.both c)
  generalize assessRisk c.action c.context paid = risk
  generalize env.clock s.ticks = moment
  rcases evaluate_decision env.zone c.action c.context risk moment with hd | hd | hd
  · simp only [applyVerdict, hd, Prog.bind_eq]
    refine follows_move hid hc rfl (edge .reject) (follows_saveReason hid hc rfl ?_)
    exact follows_statusOf rfl
  · simp only [applyVerdict, hd, Prog.bind_eq, Prog.pure_eq]
    exact follows_move hid hc rfl (edge .requireStepUp) (follows_summary fun _ => rfl)
  · simp only [applyVerdict, hd, Prog.bind_eq, Prog.pure_eq, Prog.perform_bind]
    refine fun token => follows_clock (follows_assign hid rfl ?_)
    exact follows_move hid hc rfl (edge .awaitConfirmation) (follows_summary fun _ => rfl)

/-- The bank has the payment, or nothing stands in its way. -/
def Pays (b : MockBank) (o : Order) : Prop :=
  (b.payment o.idempotencyKey).isSome ∨ b.refusal o = none

theorem Pays.answer {b : MockBank} {o : Order} (h : Pays b o) (env : Env) (n : Nat)
    (message : String) :
    (b.createPix env n o).1 ≠ .error (.error message) := by
  unfold MockBank.createPix
  cases hp : b.payment o.idempotencyKey with
  | some receipt => exact fun heq => by cases heq
  | none =>
    have hr : b.refusal o = none := h.resolve_left (by rw [hp]; decide)
    rw [hr]
    dsimp only
    split_ifs <;> exact fun heq => by cases heq

theorem follows_execute (hid : c.id = id) (hc : c.createdAt = created)
    (hstate : c.state = .authorized) (hpays : Pays s.bank c.order) :
    Follows env id created (execute c) (s.both c) := by
  have edge : TRANSITIONS c.state .submit = some .submitted := by rw [hstate]; rfl
  simp only [execute, Prog.bind_eq, Prog.perform_bind]
  refine follows_move hid hc rfl edge fun _ n => ?_
  have hanswer := hpays.answer env n
  change Follows env id created (executeAnswer _ (s.bank.createPix env n c.order).1) _
  generalize (s.bank.createPix env n c.order).1 = answer at hanswer ⊢
  cases answer with
  | ok receipt =>
    refine follows_assign hid rfl fun _ => ?_
    exact follows_move hid hc rfl rfl (follows_statusOf rfl)
  | error e =>
    cases e with
    | timeout message => exact fun _ => follows_move hid hc rfl rfl (follows_statusOf rfl)
    | error message => exact absurd rfl (hanswer message)

theorem follows_confirmAuthorized {ctx : Context} {token : String} (hid : c.id = id)
    (hc : c.createdAt = created) (hstate : c.state = .awaitingConfirmation)
    (hpays : Pays s.bank c.order) :
    Follows env id created (confirmAuthorized ctx token c) (s.both c) := by
  have edge : TRANSITIONS c.state .confirm = some .authorized := by rw [hstate]; rfl
  simp only [confirmAuthorized, Prog.bind_eq, Prog.perform_bind]
  refine follows_clock (follows_assign hid rfl ⟨hid, hc, fun _ => ?_⟩)
  exact follows_move hid hc rfl edge fun _ => follows_execute hid hc rfl hpays

theorem follows_confirmExpired (hid : c.id = id) (hc : c.createdAt = created)
    (hstate : c.state = .awaitingConfirmation) :
    Follows env id created (confirmExpired c) (s.both c) := by
  have edge : TRANSITIONS c.state .cancel = some .cancelled := by rw [hstate]; rfl
  simp only [confirmExpired, Prog.bind_eq, Prog.perform_bind]
  intro _
  exact follows_move hid hc rfl edge (follows_saveReason hid hc rfl (follows_statusOf rfl))

theorem follows_expired {f : Bool → Plane α}
    (hf : ∀ n, Follows env id created (f (c.expiredAt (env.clock s.ticks))) ({ s with ticks := n }.both c)) :
    Follows env id created ((expired c).bind f) (s.both c) := by
  unfold expired
  unfold Intent.expiredAt at hf
  cases hissued : c.confirmationIssuedAt with
  | none =>
    rw [hissued] at hf
    exact hf s.ticks
  | some issuedAt =>
    rw [hissued] at hf
    exact hf (s.ticks + 1)

end Rules

/-! ## The forgotten saves -/

/-- A precondition of the action is unmet. -/
def unmet (b : MockBank) (action : CreatePix) : Bool :=
  (match b.balance action.sourceAccount with
    | .error _ => true
    | .ok balance => balance < action.amount.val) || (b.contact action.recipientId).isNone

/-- The action a proposal stands for, once its recipient is known. -/
def ProposedPix.canonical (proposed : ProposedPix) (recipient : Contact) : CreatePix :=
  { sourceAccount := defaultAccount
    recipientId := recipient.id
    amount := proposed.amount
    currency := proposed.currency }

/-- The operation comes to a branch that writes a reason and does not save it: `propose` finds a
precondition unmet, or the bank refuses what `confirm` asks of it. -/
def forgets (env : Env) (w : World) : Op → Bool
  | .propose _ proposed _ =>
    match w.bank.findContacts env proposed.recipient with
    | [recipient] => unmet w.bank (proposed.canonical recipient)
    | _ => false
  | .confirm ctx token =>
    match w.holder .postgres token with
    | some r => Ready env w ctx r ∧ w.bank.payment r.id = none ∧ (w.bank.refusal r.order).isSome
    | none => false
  | _ => false

/-! ## One operation -/

/-- A program runs alike over both stores, and leaves them with the same. -/
def Alikeness (env : Env) (p : Plane α) (w : World) : Prop :=
  p.run (handler env .memory) w = p.run (handler env .postgres) w ∧
    Exact (p.run (handler env .postgres) w).2

theorem Alikeness.replying {p : Plane α} (h : Alikeness env p w) (f : α → Reply) :
    Alikeness env (replying f p) w := by
  rw [Alikeness, run_replying, run_replying, h.1]
  exact ⟨rfl, h.2⟩

theorem alike_follows {p : Plane α} {s : Held} (hp : Follows env id created p s)
    (hs : s.Of id created w)
    (hn : ((p.run (handler env .postgres) w).2.rows.map Intent.id).Nodup) : Alikeness env p w := by
  obtain ⟨heq, s', hsame, hof⟩ := run_follows hp hs
  refine ⟨heq, (Keyed.ext_find Intent.id hn hof.ids.symm fun k => ?_).symm⟩
  by_cases hk : k = id
  · subst hk
    exact (hof.row.trans hsame.symm).trans hof.object.symm
  · exact (hof.others k hk).symm

section Reads
variable (he : Exact w)
include he

theorem Exact.object (k : String) : w.object k = w.row k :=
  congrArg (fun xs => Keyed.find Intent.id xs k) he

/-- Where the two stores hold the same, an operation holds what it reads. -/
theorem Exact.held {r : Intent} (hr : w.row id = some r) :
    (w.held.both r).Of id r.createdAt w :=
  ⟨(he.object id).trans hr, hr, rfl, rfl, rfl, fun r' hr' => by rw [← Option.some.inj hr'],
    fun k _ => he.object k, congrArg (List.map Intent.id) he⟩

/-- An operation that holds no intent yet. -/
theorem Exact.idle (hid : w.row id = none) (created : Instant) :
    w.held.Of id created w :=
  ⟨(he.object id).trans hid, hid, rfl, rfl, rfl, fun r hr => (by cases hr), fun k _ => he.object k,
    congrArg (List.map Intent.id) he⟩

/-- A program that finds its intent by id. -/
theorem alike_get {P : Intent → Prop} [DecidablePred P] {intentId : String}
    (f : Option Intent → Plane α) (hnone : ∀ {created : Instant} {s : Held}, s.object = s.row →
      Follows env intentId created (f none) s)
    (hsome : ∀ r, w.row intentId = some r → P r →
      Follows env intentId r.createdAt (f (some r)) (w.held.both r))
    (hn : (((Prog.call (.get intentId) fun r => f (r.filter P)).run
      (handler env .postgres) w).2.rows.map Intent.id).Nodup) :
    Alikeness env (Prog.call (.get intentId) fun r => f (r.filter P)) w := by
  rw [Prog.run_call] at hn
  rw [Alikeness, Prog.run_call, Prog.run_call]
  change ((f ((w.object intentId).filter P)).run _ w) = ((f ((w.row intentId).filter P)).run _ w) ∧
      Exact ((f ((w.row intentId).filter P)).run _ w).2
  change (((f ((w.row intentId).filter P)).run _ w).2.rows.map Intent.id).Nodup at hn
  rw [he.object]
  cases hr : w.row intentId with
  | none =>
    rw [hr] at hn
    exact alike_follows (hnone rfl) (he.idle hr 0) hn
  | some r =>
    rw [hr] at hn
    by_cases hp : P r
    · simp only [Option.filter, hp, decide_true, if_true] at hn ⊢
      exact alike_follows (hsome r hr hp) (he.held hr) hn
    · simp only [Option.filter, hp, decide_false, Bool.false_eq_true, if_false] at hn ⊢
      exact alike_follows (hnone rfl) (he.held hr) hn

theorem alike_ownedByCustomer {intentId : String} {f : Option Intent → Plane α}
    (hnone : ∀ {created : Instant} {s : Held}, s.object = s.row →
      Follows env intentId created (f none) s)
    (hsome : ∀ r, w.row intentId = some r →
      Follows env intentId r.createdAt (f (some r)) (w.held.both r))
    (hn : ((((ownedByCustomer ctx intentId).bind f).run
      (handler env .postgres) w).2.rows.map Intent.id).Nodup) :
    Alikeness env ((ownedByCustomer ctx intentId).bind f) w :=
  alike_get he f hnone (fun r hr _ => hsome r hr) hn

theorem alike_owned {intentId : String} {f : Option Intent → Plane α}
    (hnone : ∀ {created : Instant} {s : Held}, s.object = s.row →
      Follows env intentId created (f none) s)
    (hsome : ∀ r, w.row intentId = some r →
      Follows env intentId r.createdAt (f (some r)) (w.held.both r))
    (hn : ((((owned ctx intentId).bind f).run
      (handler env .postgres) w).2.rows.map Intent.id).Nodup) :
    Alikeness env ((owned ctx intentId).bind f) w :=
  alike_get he f hnone (fun r hr _ => hsome r hr) hn

/-- A program that finds its intent by token. -/
theorem alike_byConfirmation (hrows : (w.rows.map Intent.id).Nodup) {token : String}
    {f : Option Intent → Plane α}
    (hnone : ∀ {id : String} {created : Instant} {s : Held}, s.object = s.row →
      Follows env id created (f none) s)
    (hsome : ∀ r, w.holder .postgres token = some r → samePrincipal r ctx →
      Follows env r.id r.createdAt (f (some r)) (w.held.both r))
    (hn : ((((byConfirmation ctx token).bind f).run
      (handler env .postgres) w).2.rows.map Intent.id).Nodup) :
    Alikeness env ((byConfirmation ctx token).bind f) w := by
  have hholder : w.holder .memory token = w.holder .postgres token := by
    simp only [World.holder, World.intents]
    rw [show w.objects = w.rows from he]
  set found := (w.holder .postgres token).filter fun i => samePrincipal i ctx with hfound
  change ((f ((w.holder .memory token).filter fun i => samePrincipal i ctx)).run _ w) =
    ((f found).run _ w) ∧ Exact ((f found).run _ w).2
  change (((f found).run _ w).2.rows.map Intent.id).Nodup at hn
  rw [hholder]
  rw [hfound] at hn ⊢
  cases hr : w.holder .postgres token with
  | none =>
    rw [hr] at hn
    cases hrow : w.row "" with
    | none => exact alike_follows (hnone rfl) (he.idle hrow 0) hn
    | some r => exact alike_follows (hnone rfl) (he.held hrow) hn
  | some r =>
    rw [hr] at hn
    have hrow : w.row r.id = some r :=
      Keyed.find_of_mem Intent.id hrows (List.mem_of_find?_eq_some hr)
    by_cases hp : samePrincipal r ctx
    · simp only [Option.filter, hp, decide_true, if_true] at hn ⊢
      exact alike_follows (hsome r hr hp) (he.held hrow) hn
    · simp only [Option.filter, hp, decide_false, Bool.false_eq_true, if_false] at hn ⊢
      exact alike_follows (hnone rfl) (he.held hrow) hn

end Reads

/-! ## One operation -/

section Operations
variable (he : Exact w) (hrows : (w.rows.map Intent.id).Nodup) {ctx : Context}
include he

theorem alike_stepUp {intentId : String}
    (hn : (((stepUp env ctx intentId).run (handler env .postgres) w).2.rows.map Intent.id).Nodup) :
    Alikeness env (stepUp env ctx intentId) w := by
  simp only [stepUp, Prog.bind_eq, Prog.pure_eq, Prog.perform_bind] at hn ⊢
  refine alike_ownedByCustomer he (fun hs => hs) (fun r hr => ?_) hn
  have hid : r.id = intentId := key_of_row hr
  dsimp only
  by_cases hstate : r.state = .awaitingStepUp
  · rw [if_neg (not_not.mpr hstate)]
    have edge : TRANSITIONS r.state .stepUp = some .validated := by rw [hstate]; rfl
    refine follows_assign hid rfl ⟨hid, rfl, fun _ => ?_⟩
    exact follows_move hid rfl rfl edge (follows_decideOn hid rfl rfl)
  · rw [if_pos hstate]
    exact follows_statusOf rfl

theorem alike_reconcile {intentId : String}
    (hn : (((reconcile ctx intentId).run (handler env .postgres) w).2.rows.map Intent.id).Nodup) :
    Alikeness env (reconcile ctx intentId) w := by
  simp only [reconcile, Prog.bind_eq, Prog.pure_eq, Prog.perform_bind] at hn ⊢
  refine alike_ownedByCustomer he (fun hs => hs) (fun r hr => ?_) hn
  have hid : r.id = intentId := key_of_row hr
  dsimp only
  by_cases hstate : r.state = .unknown
  · rw [if_neg (not_not.mpr hstate)]
    intro receipt _
    cases receipt with
    | none =>
      have edge : TRANSITIONS r.state .fail = some .failed := by rw [hstate]; rfl
      refine follows_move hid rfl rfl edge (follows_saveReason hid rfl rfl ?_)
      exact follows_statusOf rfl
    | some receipt =>
      have edge : TRANSITIONS r.state .complete = some .completed := by rw [hstate]; rfl
      exact follows_assign hid rfl (follows_move hid rfl rfl edge (follows_statusOf rfl))
  · rw [if_pos hstate]
    exact follows_statusOf rfl

theorem alike_status {intentId : String}
    (hn : (((status ctx intentId).run (handler env .postgres) w).2.rows.map Intent.id).Nodup) :
    Alikeness env (status ctx intentId) w := by
  simp only [status, Prog.bind_eq, Prog.pure_eq] at hn ⊢
  exact alike_owned he (fun hs => hs) (fun r _ => follows_statusOf rfl) hn

/-- A program that reads no intent and writes none. -/
theorem alike_reads {p : Plane α}
    (hp : ∀ {created : Instant} {s : Held}, s.object = s.row → Follows env "" created p s)
    (hn : ((p.run (handler env .postgres) w).2.rows.map Intent.id).Nodup) : Alikeness env p w := by
  cases hrow : w.row "" with
  | none => exact alike_follows (hp rfl) (he.idle hrow 0) hn
  | some r => exact alike_follows (hp rfl) (he.held hrow) hn

theorem alike_explain {intentId : String}
    (hn : (((explain ctx intentId).run (handler env .postgres) w).2.rows.map Intent.id).Nodup) :
    Alikeness env (explain ctx intentId) w :=
  alike_reads he (fun hs _ => hs) hn

theorem alike_query {action : ReadAction}
    (hn : (((query ctx action).run (handler env .postgres) w).2.rows.map Intent.id).Nodup) :
    Alikeness env (query ctx action) w := by
  refine alike_reads he (fun {created s} hs => ?_) hn
  simp only [query, Prog.bind_eq, Prog.pure_eq, Prog.perform_bind]
  intro rid _
  split_ifs
  · exact fun _ => hs
  · cases action with
    | getBalance accountId =>
      simp only [readAnswer, Prog.bind_eq, Prog.pure_eq, Prog.perform_bind, Prog.call_bind]
      change Prog.wp _ _ (Prog.bind (match s.bank.balance accountId with
        | .error message => _ | .ok balance => _) _) _
      cases s.bank.balance accountId with
      | error message => exact hs
      | ok balance => exact fun _ => hs
    | getCardTransactions days =>
      simp only [readAnswer, Prog.bind_eq, Prog.pure_eq, Prog.perform_bind, Prog.call_bind,
        Prog.ret_bind]
      exact fun _ _ => hs

include hrows

theorem alike_cancel {token : String}
    (hn : (((cancel ctx token).run (handler env .postgres) w).2.rows.map Intent.id).Nodup) :
    Alikeness env (cancel ctx token) w := by
  simp only [cancel, Prog.bind_eq, Prog.pure_eq] at hn ⊢
  refine alike_byConfirmation he hrows (fun hs => hs) (fun r hr _ => ?_) hn
  dsimp only
  cases edge : TRANSITIONS r.state .cancel with
  | none =>
    rw [attempt_move_none edge]
    exact fun _ => follows_statusOf rfl
  | some target =>
    rw [attempt_move_some edge]
    exact follows_move rfl rfl rfl edge (follows_saveReason rfl rfl rfl (follows_statusOf rfl))

theorem alike_confirm {token : String} (hf : forgets env w (.confirm ctx token) = false)
    (hn : (((confirm env ctx token).run (handler env .postgres) w).2.rows.map Intent.id).Nodup) :
    Alikeness env (confirm env ctx token) w := by
  simp only [confirm, Prog.bind_eq, Prog.pure_eq, Prog.perform_bind] at hn ⊢
  refine alike_byConfirmation he hrows (fun hs => hs) (fun r hr hp => ?_) hn
  dsimp only
  by_cases hdone : alreadyExecuted r.state = true
  · rw [if_pos hdone]
    exact fun _ => follows_statusOf rfl
  rw [if_neg hdone]
  by_cases hstate : r.state = .awaitingConfirmation
  · rw [if_neg (not_not.mpr hstate)]
    refine follows_expired fun n => ?_
    change Follows env _ _ (if r.expiredAt (env.clock w.ticks) = true then _ else _) _
    cases hyoung : r.expiredAt (env.clock w.ticks) with
    | true => exact follows_confirmExpired rfl rfl hstate
    | false =>
      simp only [Bool.false_eq_true, if_false]
      by_cases hdigest : actionDigest env r.action = r.actionDigest.getD ""
      · rw [if_neg (not_not.mpr hdigest)]
        refine follows_confirmAuthorized rfl rfl hstate ?_
        have hready : Ready env w ctx r := ⟨hp, hstate, hyoung, hdigest⟩
        have hpays : w.bank.payment r.id = none → w.bank.refusal r.order = none := by
          simpa [forgets, hr, hready] using hf
        by_cases hnone : w.bank.payment r.id = none
        · exact Or.inr (hpays hnone)
        · exact Or.inl (Option.isSome_iff_ne_none.mpr hnone)
      · rw [if_pos hdigest]
        exact fun _ => follows_statusOf rfl
  · rw [if_pos hstate]
    exact follows_statusOf rfl

end Operations

/-- Preconditions that are met go on. -/
theorem follows_missingPreconditions {s : Held} {f : List String → Plane α}
    (hmet : unmet s.bank c.action = false) (hf : Follows env id created (f []) s) :
    Follows env id created ((missingPreconditions c).bind f) s := by
  simp only [missingPreconditions, Prog.bind_eq, Prog.pure_eq, Prog.perform_bind, Prog.call_bind,
    Prog.ret_bind]
  change Follows env id created (f ((match s.bank.balance c.action.sourceAccount with
    | .error _ => ["source_account"]
    | .ok balance => if balance < c.action.amount.val then ["sufficient_funds"] else []) ++
      if s.bank.contact c.action.recipientId = none then ["resolved_recipient"] else [])) s
  unfold unmet at hmet
  cases hb : s.bank.balance c.action.sourceAccount with
  | error message => simp [hb] at hmet
  | ok balance =>
    simp only [hb, Bool.or_eq_false_iff, decide_eq_false_iff_not, Option.isNone_eq_false_iff] at hmet
    rw [if_neg (Option.isSome_iff_ne_none.mp hmet.2)]
    dsimp only
    rw [if_neg hmet.1]
    exact hf

/-- The tail of a `propose` whose preconditions are met. -/
theorem follows_proposeTo {s : Held} {ctx : Context} {proposed : ProposedPix} {recipient : Contact}
    (hmet : unmet s.bank (proposed.canonical recipient) = false) :
    Follows env id (env.now s.nows) (proposeTo env ctx proposed id recipient) s := by
  simp only [proposeTo, Prog.bind_eq, Prog.pure_eq, Prog.perform_bind]
  refine ⟨rfl, rfl, fun _ => follows_missingPreconditions hmet ?_⟩
  rw [if_neg fun h => h rfl]
  exact follows_move rfl rfl rfl rfl (follows_decideOn rfl rfl rfl)

/-- Another id drawn, and the rest runs alike. -/
theorem alike_newId {stem : String} {k : String → Plane α}
    (h : Alikeness env (k (newIdAt env stem w.drawn)) { w with drawn := w.drawn + 1 }) :
    Alikeness env (.call (.newId stem) k) w := h

theorem alike_propose (hi : Inv env w) (he : Exact w) {ctx : Context} {proposed : ProposedPix}
    {text : String} (hf : forgets env w (.propose ctx proposed text) = false)
    (hn : (((propose env ctx proposed text).run (handler env .postgres) w).2.rows.map
      Intent.id).Nodup) : Alikeness env (propose env ctx proposed text) w := by
  simp only [propose, Prog.bind_eq, Prog.pure_eq, Prog.perform_bind] at hn ⊢
  refine alike_newId (alike_follows (s := World.held w) ?_
    (Exact.idle (w := { w with drawn := w.drawn + 1 }) he hi.fresh_row (env.now w.nows)) hn)
  refine fun _ _ _ => ?_
  simp only [forgets] at hf
  rw [show w.held.bank = w.bank from rfl]
  generalize w.bank.findContacts env proposed.recipient = found at hf
  rcases found with _ | ⟨recipient, _ | ⟨_, _⟩⟩
  · exact rfl
  · exact follows_proposeTo (s := w.held) hf
  · exact rfl

/-! ## The sweep -/

/-- Nothing is left in `SUBMITTED` between two whole operations. -/
def Quiet (w : World) : Prop := ∀ k r, w.row k = some r → unfinished r.state = false

theorem Quiet.exec (h : Good env .postgres w) (hq : Quiet w) (op : Op) :
    Quiet (exec env .postgres op w).2 := by
  intro k r hr
  cases hun : unfinished r.state with
  | false => rfl
  | true => rw [← hun, hq k r (exec_unfinished h op hr hun)]

theorem alike_sweep (he : Exact w) (hrows : (w.rows.map Intent.id).Nodup) (hq : Quiet w) :
    Alikeness env sweep w := by
  have hnone : w.rows.filter (fun i => i.state ∈ [State.submitted]) = [] := by
    refine List.filter_eq_nil_iff.mpr fun i hmem hsub => ?_
    have hstate : i.state = .submitted := by simpa using hsub
    have hrest := hq i.id i (Keyed.find_of_mem Intent.id hrows hmem)
    rw [hstate] at hrest
    cases hrest
  have hmemory : w.unsettled .memory [.submitted] = [] := by
    simp only [World.unsettled, World.intents]
    rw [show w.objects = w.rows from he]
    exact hnone
  have hpostgres : w.unsettled .postgres [.submitted] = [] := by
    simp only [World.unsettled, World.intents, hnone, List.insertionSort_nil]
  have hrun : ∀ kind, w.unsettled kind [.submitted] = [] →
      sweep.run (handler env kind) w = (.ok [], w) := by
    intro kind hempty
    simp only [sweep, Prog.bind_eq, Prog.pure_eq, Prog.perform_bind]
    rw [Prog.run_call]
    change Prog.run _ ((sweepEach (w.unsettled kind [.submitted])).bind
      fun _ => .ret ((w.unsettled kind [.submitted]).map Intent.id)) w = _
    rw [hempty]
    rfl
  rw [Alikeness, hrun .memory hmemory, hrun .postgres hpostgres]
  exact ⟨rfl, he⟩

/-! ## A sequence of operations -/

/-- What holds between two whole operations over stores that agree. -/
structure Between (env : Env) (w : World) : Prop where
  good : Good env .postgres w
  exact : Exact w
  quiet : Quiet w

theorem Between.start (env : Env) (bank : MockBank) : Between env { bank := bank } :=
  ⟨Good.start bank, rfl, fun _ _ hr => by cases hr⟩

theorem forgets_note (o : Obs) (op : Op) : forgets env (w.note o) op = forgets env w op := by
  cases op with
  | confirm ctx token =>
    have hready : ∀ r, Ready env (w.note o) ctx r ↔ Ready env w ctx r := fun r =>
      ⟨fun h => ⟨h.1, h.2, h.3, h.4⟩, fun h => ⟨h.1, h.2, h.3, h.4⟩⟩
    simp only [forgets, hready]
    rfl
  | _ => rfl

/-- **One operation runs alike over both stores, unless it forgets to save what it writes.** -/
theorem Between.alike (h : Between env w) {op : Op} (hf : forgets env w op = false) :
    Alikeness env (op.prog env) (w.note (.began op)) := by
  have hrows : ((w.note (.began op)).rows.map Intent.id).Nodup := h.good.inv.nodup
  have hleft : (((op.prog env).run (handler env .postgres) (w.note (.began op))).2.rows.map
      Intent.id).Nodup := (h.good.exec op).inv.nodup
  have he : Exact (w.note (.began op)) := h.exact
  cases op with
  | query ctx action =>
    rw [Op.prog, run_replying] at hleft
    exact (alike_query he hleft).replying _
  | propose ctx proposed text =>
    rw [Op.prog, run_replying] at hleft
    exact (alike_propose (h.good.inv.note _) he hf hleft).replying _
  | stepUp ctx intentId =>
    rw [Op.prog, run_replying] at hleft
    exact (alike_stepUp he hleft).replying _
  | confirm ctx token =>
    rw [Op.prog, run_replying] at hleft
    exact (alike_confirm he hrows ((forgets_note _ _).trans hf) hleft).replying _
  | cancel ctx token =>
    rw [Op.prog, run_replying] at hleft
    exact (alike_cancel he hrows hleft).replying _
  | reconcile ctx intentId =>
    rw [Op.prog, run_replying] at hleft
    exact (alike_reconcile he hleft).replying _
  | sweep => exact (alike_sweep he hrows h.quiet).replying _
  | status ctx intentId =>
    rw [Op.prog, run_replying] at hleft
    exact (alike_status he hleft).replying _
  | explain ctx intentId =>
    rw [Op.prog, run_replying] at hleft
    exact (alike_explain he hleft).replying _

theorem Between.exec (h : Between env w) {op : Op} (hf : forgets env w op = false) :
    Between env (exec env .postgres op w).2 :=
  ⟨h.good.exec op, (h.alike hf).2, h.quiet.exec h.good op⟩

/-- No operation of the sequence forgets to save what it writes. -/
def remembers (env : Env) : List Op → World → Bool
  | [], _ => true
  | op :: ops, w => !forgets env w op && remembers env ops (BankingControlPlane.exec env .postgres op w).2

theorem play_alike (h : Between env w) {ops : List Op} (hr : remembers env ops w = true) :
    play env .memory ops w = play env .postgres ops w := by
  induction ops generalizing w with
  | nil => rfl
  | cons op ops ih =>
    simp only [remembers, Bool.and_eq_true, Bool.not_eq_true'] at hr
    obtain ⟨hforgets, hrest⟩ := hr
    have hsame : BankingControlPlane.exec env .memory op w = BankingControlPlane.exec env .postgres op w :=
      (h.alike hforgets).1
    have htail := ih (h.exec hforgets) hrest
    simp only [play, hsame, htail]

/-- **A plane over the dict and a plane over the table answer every operation alike, and leave the same
ledger, as long as no propose finds a precondition unmet and the bank refuses no confirm.** -/
theorem stores_interchangeable (env : Env) (bank : MockBank) (ops : List Op)
    (h : remembers env ops { bank := bank } = true) :
    (play env .memory ops { bank := bank }).1 = (play env .postgres ops { bank := bank }).1 ∧
      (play env .memory ops { bank := bank }).2.ledger =
        (play env .postgres ops { bank := bank }).2.ledger := by
  have halike := play_alike (Between.start env bank) h
  exact ⟨congrArg Prod.fst halike, congrArg (fun x => x.2.ledger) halike⟩

/-! A payment proposed, asked about and confirmed; and one that is more than the account holds. -/

def firstPix : String := newIdAt (sampleEnv noon) "pix" 0

def paidAlike : List Op :=
  [proposal "Renata" money200 renata_named, .status session firstPix,
    .confirm session (newIdAt (sampleEnv noon) "conf" 1), .explain session firstPix, .sweep]

theorem stores_interchangeable_sample :
    remembers (sampleEnv noon) paidAlike { bank := {} } = true ∧
      (play (sampleEnv noon) .memory paidAlike { bank := {} }).1 =
        (play (sampleEnv noon) .postgres paidAlike { bank := {} }).1 := by
  have h : remembers (sampleEnv noon) paidAlike { bank := {} } = true := by decide +kernel
  exact ⟨h, (stores_interchangeable (sampleEnv noon) {} paidAlike h).1⟩

def money3000 : Money := ⟨.cents 300000, by decide⟩

/-- The reason of the refused payment is seen over the dict only. -/
theorem stores_differ : ¬ ∀ (bank : MockBank) (ops : List Op),
    (play (sampleEnv noon) .memory ops { bank := bank }).1 =
      (play (sampleEnv noon) .postgres ops { bank := bank }).1 := by
  intro h
  have hdiffer : (play (sampleEnv noon) .memory
      [proposal "Renata" money3000 (by decide), .status session firstPix] { bank := {} }).1 ≠
    (play (sampleEnv noon) .postgres
      [proposal "Renata" money3000 (by decide), .status session firstPix] { bank := {} }).1 := by
    decide +kernel
  exact hdiffer (h {} _)

end BankingControlPlane
