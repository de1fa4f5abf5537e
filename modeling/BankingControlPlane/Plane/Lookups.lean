import BankingControlPlane.Plane.Reached

/-!
# What a store finds

* `World.seen`, `World.holder` : the intent an id finds, and the intent a token finds;
* `Untampered` : operations, cuts of a durable plane, and another bank;
* `Sealed` : a row with a token has the digest and the time of that token's issue;
* `Good.holder_of_seen` : a token finds the one intent it was issued for;
* `Seeking` : the five operations about one intent as a look-up, a test of ownership and what is done with
  the intent found (`exec_unfound`, `exec_found`).
-/

namespace BankingControlPlane
open Effects

variable {env : Env} {kind : StoreKind} {w : World}

/-- The intent an id finds. -/
def World.seen (w : World) (kind : StoreKind) (intentId : String) : Option Intent :=
  Keyed.find Intent.id (w.intents kind) intentId

/-- The intent a token finds. -/
def World.holder (w : World) (kind : StoreKind) (token : String) : Option Intent :=
  (w.intents kind).find? fun i => i.confirmationId = some token

/-- No one but the plane writes; a plane over a durable store may be cut short. -/
def Untampered (kind : StoreKind) (_ : World) : Step → Prop
  | .cut _ _ => kind = .postgres
  | .splice _ _ => False
  | _ => True

theorem Untampered.sound {w : World} {s : Step} (h : Untampered kind w s) : s.Sound kind w := by
  cases s with
  | splice id columns => exact h.elim
  | cut op n => exact h
  | _ => trivial

/-! ## Objects and rows -/

theorem World.seen_id {c : Intent} {k : String} (hc : w.seen kind k = some c) : c.id = k :=
  Keyed.key_of_find Intent.id hc

@[simp] theorem World.seen_note (w : World) (o : Obs) (kind : StoreKind) (k : String) :
    (w.note o).seen kind k = w.seen kind k := by
  cases kind <;> rfl

@[simp] theorem World.holder_note (w : World) (o : Obs) (kind : StoreKind) (token : String) :
    (w.note o).holder kind token = w.holder kind token := by
  cases kind <;> rfl

theorem World.seen_append (w : World) (id : String) (e : Entry) (kind : StoreKind) (k : String) :
    (w.append id e).seen kind k = w.seen kind k := by
  cases kind <;> rfl

theorem World.seen_assign (w : World) (i : Intent) (kind : StoreKind) (k : String) :
    (w.assign i).seen kind k = if kind = .memory ∧ (w.seen kind i.id).isSome ∧ i.id = k then some i
      else w.seen kind k := by
  cases kind with
  | memory =>
    rw [show (w.assign i).seen .memory k = (w.assign i).object k from rfl, World.object_assign]
    simp only [true_and]
    rfl
  | postgres => simp [World.seen, World.intents, World.assign]

theorem World.seen_put (w : World) (i : Intent) (kind : StoreKind) (k : String) :
    (w.put i).seen kind k = if i.id = k then
        some (if kind = .memory then i else { i with createdAt :=
          ((w.seen kind i.id).map Intent.createdAt).getD i.createdAt })
      else w.seen kind k := by
  cases kind with
  | memory =>
    rw [show (w.put i).seen .memory k = (w.put i).object k from rfl, World.object_put, if_pos rfl]
    rfl
  | postgres =>
    rw [show (w.put i).seen .postgres k = (w.put i).row k from rfl, World.row_put,
      if_neg (by decide : ¬ StoreKind.postgres = .memory)]
    have hsaved : w.saved i = { i with createdAt :=
        ((w.seen .postgres i.id).map Intent.createdAt).getD i.createdAt } := by
      rw [show w.seen .postgres i.id = w.row i.id from rfl, World.saved]
      cases w.row i.id <;> rfl
    rw [hsaved]
    rfl

/-- What an object and its row have in common. -/
theorem Alike.same {c r : Intent} (h : Alike c r) :
    c.id = r.id ∧ c.state = r.state ∧ c.confirmationId = r.confirmationId ∧ c.context = r.context ∧
      c.action = r.action := by
  rcases h with rfl | ⟨-, heq⟩
  · exact ⟨rfl, rfl, rfl, rfl, rfl⟩
  · rw [heq]
    exact ⟨rfl, rfl, rfl, rfl, rfl⟩

theorem Good.row_of_seen (h : Good env kind w) {k : String} {c : Intent} (hc : w.seen kind k = some c) :
    ∃ r, w.row k = some r ∧ Alike c r := by
  cases kind with
  | postgres => exact ⟨c, hc, Or.inl rfl⟩
  | memory =>
    have hagree := h.mirror rfl k
    have hobject : w.object k = some c := hc
    rw [hobject] at hagree
    cases hr : w.row k with
    | none => rw [hr] at hagree; exact hagree.elim
    | some r => rw [hr] at hagree; exact ⟨r, rfl, hagree⟩

/-- The intent a token finds is the one its id finds. -/
theorem Good.seen_of_holder (h : Good env kind w) {token : String} {c : Intent}
    (hc : w.holder kind token = some c) : w.seen kind c.id = some c ∧ c.confirmationId = some token :=
  ⟨h.inv.find_of_token hc, by simpa using List.find?_some hc⟩

/-! ## Tokens -/

/-- The token of a row was issued for the row's intent, with the row's digest and time. -/
def Sealed (env : Env) (h : List Obs) (r : Intent) : Prop :=
  ∀ t, r.confirmationId = some t → ∃ j issuedAt, issueOf h t = some j ∧ j.id = r.id ∧
    r.actionDigest = some (actionDigest env j.action) ∧ j.confirmationIssuedAt = some issuedAt ∧
    r.confirmationIssuedAt = some issuedAt

theorem Sealed.snoc {h : List Obs} {r : Intent} (hs : Sealed env h r) (o : Obs) :
    Sealed env (h ++ [o]) r := by
  intro t ht
  obtain ⟨j, issuedAt, hj, hrest⟩ := hs t ht
  exact ⟨j, issuedAt, issueOf_some hj o, hrest⟩

/-- A save keeps the token's columns, or issues the token. -/
theorem Sealed.save {w : World} {r i : Intent} (hr : Sealed env w.history r)
    (hs : Saves env w (some r) i) : Sealed env (w.history ++ [.stored i]) i := by
  cases hs with
  | issued state drawn fresh during evaluated =>
    intro t ht
    obtain rfl := Option.some.inj ht
    refine ⟨_, _, ?_, rfl, rfl, rfl, rfl⟩
    rw [issueOf_snoc, fresh, Option.none_or]
    simp [Obs.issue, withToken]
  | _ => exact hr.snoc _

theorem preserved_sealed :
    Preserved env kind fun w => ∀ k r, w.row k = some r → Sealed env w.history r :=
  preserved_rows (fun _ o _ _ h => h.snoc o)
    (fun w i _ _ hs => by cases hs; intro t ht; cases ht) fun w r i _ _ hs hr => hr.save hs

/-- Two rows with one token are one row. -/
theorem sealed_unique (hs : ∀ k r, w.row k = some r → Sealed env w.history r) {k k' token : String}
    {r r' : Intent} (hr : w.row k = some r) (hr' : w.row k' = some r')
    (ht : r.confirmationId = some token) (ht' : r'.confirmationId = some token) : k = k' := by
  obtain ⟨j, -, hj, hid, -⟩ := hs k r hr token ht
  obtain ⟨j', -, hj', hid', -⟩ := hs k' r' hr' token ht'
  obtain rfl := Option.some.inj (hj.symm.trans hj')
  rw [← key_of_row hr, ← key_of_row hr', ← hid, hid']

section Reach
variable {opening : MockBank → Prop} {admissible : World → Step → Prop}

theorem Reach.sealed (huntampered : ∀ w s, admissible w s → Untampered kind w s)
    (hw : Reach env kind opening admissible w) : ∀ k r, w.row k = some r → Sealed env w.history r :=
  (hw.preserved (fun _ _ hs => (huntampered _ _ hs).sound) preserved_sealed
    (fun bank _ k r hr => by simp [World.row] at hr)
    (fun w id columns hs _ => (huntampered _ _ hs).elim) fun w b _ hI => hI).2

/-- **A token finds the one intent it was issued for.** -/
theorem Good.holder_of_seen (h : Good env kind w)
    (hs : ∀ k r, w.row k = some r → Sealed env w.history r) {c : Intent} {token : String}
    (hc : w.seen kind c.id = some c) (ht : c.confirmationId = some token) :
    w.holder kind token = some c := by
  cases hf : w.holder kind token with
  | none =>
    have hnot := List.find?_eq_none.mp hf c (Keyed.mem_of_find Intent.id hc)
    simp [ht] at hnot
  | some i =>
    obtain ⟨hi, hti⟩ := h.seen_of_holder hf
    obtain ⟨r, hr, hcr⟩ := h.row_of_seen hc
    obtain ⟨r', hr', hir'⟩ := h.row_of_seen hi
    have hid : c.id = i.id :=
      sealed_unique hs hr hr' (hcr.same.2.2.1 ▸ ht) (hir'.same.2.2.1 ▸ hti)
    rw [hid, hi] at hc
    exact hc

end Reach

/-! ## Operations about one intent -/

/-- What a caller names an intent by. -/
inductive Ref where
  | intent (intentId : String)
  | token (confirmationId : String)
deriving DecidableEq, Repr

def Ref.text : Ref → String
  | .intent intentId => intentId
  | .token confirmationId => confirmationId

def Ref.call : Ref → PlaneCall (Option Intent)
  | .intent intentId => .get intentId
  | .token confirmationId => .byConfirmation confirmationId

/-- The intent a reference finds. -/
def World.named (w : World) (kind : StoreKind) : Ref → Option Intent
  | .intent intentId => w.seen kind intentId
  | .token confirmationId => w.holder kind confirmationId

/-- A look-up, whose intent it must be, and what is done with it. -/
structure Seeking where
  ref : Ref
  mine : Intent → Bool
  held : Intent → Plane Outcome

/-- `confirm`, once it holds the intent. -/
def confirmHeld (env : Env) (ctx : Context) (token : String) (intent : Intent) : Plane Outcome := do
  if alreadyExecuted intent.state then
    call (.append intent.id (.duplicateConfirmation intent.state))
    statusOf intent "already executed; no new payment was made"
  else if intent.state ≠ .awaitingConfirmation then
    statusOf intent "this action is not awaiting confirmation" (some .deny)
  else if ← expired intent then
    confirmExpired intent
  else if actionDigest env intent.action ≠ intent.actionDigest.getD "" then
    call (.append intent.id (.digestMismatch intent.actionDigest (actionDigest env intent.action)))
    statusOf intent "a ação mudou depois da confirmação; nada foi executado" (some .deny)
  else
    confirmAuthorized ctx token intent

/-- `cancel`, once it holds the intent. -/
def cancelHeld (ctx : Context) (intent : Intent) : Plane Outcome := do
  match ← attempt (move intent .cancel (.by ctx.customerId)) with
  | none => statusOf intent "this action can no longer be cancelled" (some .deny)
  | some intent =>
    let intent ← saveReason intent "cancelled by the customer"
    statusOf intent intent.reason

/-- `step_up`, once it holds the intent. -/
def stepUpHeld (env : Env) (intent : Intent) : Plane Outcome := do
  if intent.state ≠ .awaitingStepUp then
    statusOf intent "this action is not awaiting authentication" (some .deny)
  else
    let intent ← assign { intent with context := { intent.context with assurance := .strong } }
    call (.put intent)
    let instant ← call .now
    call (.append intent.id (.stepUp "simulated_mobile_biometric" instant))
    let intent ← move intent .stepUp
    decideOn env intent

/-- `reconcile`, once it holds the intent. -/
def reconcileHeld (intent : Intent) : Plane Outcome := do
  if intent.state ≠ .unknown then statusOf intent
  else
    let receipt ← call (.payment intent.idempotencyKey)
    call (.append intent.id (.reconciliation receipt.isSome))
    match receipt with
    | none =>
      let intent ← move intent .fail (.reason "the bank did not record the payment")
      let intent ← saveReason intent "not executed"
      statusOf intent intent.reason
    | some receipt =>
      let intent ← assign { intent with receipt := some receipt }
      let intent ← move intent .complete .reconciled
      statusOf intent "confirmed with the bank: the payment was made"

def Op.seeking (env : Env) : Op → Option Seeking
  | .confirm ctx token => some ⟨.token token, fun i => samePrincipal i ctx, confirmHeld env ctx token⟩
  | .cancel ctx token => some ⟨.token token, fun i => samePrincipal i ctx, cancelHeld ctx⟩
  | .stepUp ctx intentId =>
    some ⟨.intent intentId, fun i => i.context.customerId = ctx.customerId, stepUpHeld env⟩
  | .reconcile ctx intentId =>
    some ⟨.intent intentId, fun i => i.context.customerId = ctx.customerId, reconcileHeld⟩
  | .status ctx intentId =>
    some ⟨.intent intentId, fun i => samePrincipal i ctx, fun i => statusOf i⟩
  | _ => none

/-- What is done with what was found. -/
def Seeking.answer (sk : Seeking) : Option Intent → Plane Outcome
  | none => .ret (unknown sk.ref.text)
  | some intent => sk.held intent

theorem Op.prog_seeking {op : Op} {sk : Seeking} (h : op.seeking env = some sk) :
    op.prog env = replying .outcome (Prog.call sk.ref.call fun i => sk.answer (i.filter sk.mine)) := by
  cases op <;> simp only [Op.seeking, Option.some.injEq, reduceCtorEq] at h <;> subst h
  all_goals
    refine congrArg (replying Reply.outcome) (congrArg (Prog.call _) (funext fun i => ?_))
    simp only [Prog.bind_eq, Prog.pure_eq, Prog.ret_bind, Seeking.answer]
    generalize Option.filter _ i = found
    cases found <;> rfl

theorem serve_ref (env : Env) (kind : StoreKind) (ref : Ref) (w : World) :
    serve env kind ref.call w = (w.named kind ref, w) := by
  cases ref <;> rfl

@[simp] theorem World.named_note (w : World) (o : Obs) (kind : StoreKind) (ref : Ref) :
    (w.note o).named kind ref = w.named kind ref := by
  cases ref
  · exact w.seen_note o kind _
  · exact w.holder_note o kind _

/-- An operation about one intent, once the store has answered. -/
theorem exec_seeking {op : Op} {sk : Seeking} (h : op.seeking env = some sk) (kind : StoreKind)
    (w : World) :
    exec env kind op w = (((sk.answer ((w.named kind sk.ref).filter sk.mine)).run (handler env kind)
        (w.note (.began op))).1.map .outcome,
      ((sk.answer ((w.named kind sk.ref).filter sk.mine)).run (handler env kind)
        (w.note (.began op))).2) := by
  have hserve : (handler env kind).on sk.ref.call (w.note (.began op)) =
      (w.named kind sk.ref, w.note (.began op)) := by
    rw [← World.named_note w (.began op)]
    exact serve_ref env kind sk.ref _
  rw [exec, Op.prog_seeking h, run_replying, Prog.run_call, hserve]

/-- What is not there, and what is another's, is unknown, and nothing is done. -/
theorem exec_unfound {op : Op} {sk : Seeking} (h : op.seeking env = some sk)
    (hf : (w.named kind sk.ref).filter sk.mine = none) :
    exec env kind op w = (.ok (.outcome (unknown sk.ref.text)), w.note (.began op)) := by
  rw [exec_seeking h, hf]
  rfl

theorem exec_found {op : Op} {sk : Seeking} (h : op.seeking env = some sk) {c : Intent}
    (hf : w.named kind sk.ref = some c) (hm : sk.mine c = true) :
    exec env kind op w = (((sk.held c).run (handler env kind) (w.note (.began op))).1.map .outcome,
      ((sk.held c).run (handler env kind) (w.note (.began op))).2) := by
  have hfilter : (w.named kind sk.ref).filter sk.mine = some c := by
    rw [hf, Option.filter_some, hm, if_pos rfl]
  rw [exec_seeking h, hfilter]
  rfl

end BankingControlPlane
