import BankingControlPlane.Plane.Local
import BankingControlPlane.Safety.Honesty
import BankingControlPlane.Tools.Scopes

/-!
# Checking a payment from a conversation

* `AsksElsewhere` : the intent is `UNKNOWN` and the caller's customer's, but its payment is in the book of
  the conversation that opened it, and the caller asks from another;
* `Booked` : a payment in a conversation's book is of an intent that conversation opened, in a state a
  payment can stand next to;
* `check_truthful` : a check tells the truth exactly when it does not ask elsewhere, in every run whose
  checks so far have not.
-/

namespace BankingControlPlane
open Effects

variable {env : Env} {opening : MockBank} {s : Scopes}

/-- The conversation's book has a payment under this id. -/
abbrev Scopes.Paid (opening : MockBank) (s : Scopes) (scope : Scope) (id : String) : Prop :=
  ((s.bankOf opening scope).payment id).isSome

def Intent.scope (i : Intent) : Scope := i.context.scope

/-- The intent is the customer's and `UNKNOWN`, and was paid from another conversation's bank. -/
def AsksElsewhere (opening : MockBank) (s : Scopes) (ctx : Context) (id : String) : Prop :=
  ∃ c, s.world.object id = some c ∧ c.state = .unknown ∧ c.context.customerId = ctx.customerId ∧
    c.scope ≠ ctx.scope ∧ s.Paid opening c.scope id

/-- No check asks elsewhere. -/
def AsksHome (opening : MockBank) (s : Scopes) (runtime : Configurable) : Tool → Prop
  | .checkPix id => ¬ AsksElsewhere opening s (contextFor runtime) id
  | _ => True

/-! ## What is in the books -/

/-- A payment in the book of a conversation is of an intent that the conversation opened, in a state a
payment can stand next to. -/
def Booked (w : World) (paid : Scope → String → Prop) (env : Env) : Prop :=
  ∀ scope n, paid scope (newIdAt env "pix" n) →
    ∃ r, w.row (newIdAt env "pix" n) = some r ∧ charged r.state = true ∧ r.scope = scope

/-- The books while `scope` uses its bank. -/
def paidUsing (s : Scopes) (opening : MockBank) (scope : Scope) (w : World) (other : Scope) (id : String) :
    Prop :=
  if other = scope then (w.bank.payment id).isSome = true else s.Paid opening other id

theorem paidUsing_other {scope other : Scope} (h : other ≠ scope) {w : World} {id : String} :
    paidUsing s opening scope w other id ↔ s.Paid opening other id := by
  rw [paidUsing, if_neg h]

/-- Paid from another conversation's bank. -/
def PaidElsewhere (s : Scopes) (opening : MockBank) (scope : Scope) (id : String) : Prop :=
  ∃ other, other ≠ scope ∧ s.Paid opening other id

/-- **An operation that spares what was paid elsewhere keeps the books.** -/
theorem Booked.exec {ctx : Context} {op : Op} {w : World} (hgood : Good env .memory w)
    (hmine : ∀ ctx' token, op = .confirm ctx' token → ctx'.scope = ctx.scope)
    (hspares : (op.prog env).wp ((handler env .memory).under fun c _ =>
      Spares (PaidElsewhere s opening ctx.scope) c) (fun _ _ => True) (w.note (.began op)))
    (hbooked : Booked w (paidUsing s opening ctx.scope w) env) :
    Booked (exec env .memory op w).2
      (paidUsing s opening ctx.scope (BankingControlPlane.exec env .memory op w).2) env := by
  refine hgood.keeps hspares (I := fun w' => Booked w' (paidUsing s opening ctx.scope w') env) ?_ hbooked
  intro β c w' seg hc ha hduring hI
  cases c with
  | put i =>
    have hs : Saves env w' (w'.row i.id) i := hc
    intro scope n hpaid
    obtain ⟨r, hr, hcharged, hscope⟩ := hI scope n hpaid
    simp only [serve, World.row_put, hs.saved]
    split_ifs with hk
    · have hhome : scope = ctx.scope := by
        by_contra hne
        exact ha ⟨scope, hne, hk ▸ (paidUsing_other hne).mp hpaid⟩
      have hid : r.id = newIdAt env "pix" n := key_of_row hr
      rw [hk, hr] at hs
      refine ⟨i, rfl, charged_saved hs hcharged ?_, ?_⟩
      · rw [paidUsing, if_pos hhome] at hpaid
        rw [hid]
        exact hpaid
      · obtain ⟨-, -, hcustomer, hsession, -⟩ := hs.kept
        rw [← hscope, Intent.scope, Intent.scope, Context.scope, Context.scope, hcustomer, hsession]
    · exact ⟨r, hr, hcharged, hscope⟩
  | createPix o =>
    intro scope n hpaid
    obtain ⟨r, ctx', token, seg', hauth⟩ := id hc
    by_cases hkey : o.idempotencyKey = newIdAt env "pix" n ∧ scope = ctx.scope
    · obtain ⟨hkey, rfl⟩ := hkey
      refine ⟨r, hkey ▸ hauth.row, by rw [hauth.state]; rfl, ?_⟩
      have hop := hmine ctx' token (Obs.began.inj (hduring.unique hauth.during).1)
      rw [← hop, Intent.scope, Context.scope, Context.scope, hauth.principal.1, hauth.principal.2]
    · refine hI scope n ?_
      by_cases hhome : scope = ctx.scope
      · rw [paidUsing, if_pos hhome] at hpaid ⊢
        rcases MockBank.createPix_book env w'.bank w'.drawn o (newIdAt env "pix" n) with heq | ⟨heq, -⟩
        · rw [← heq]
          exact hpaid
        · exact absurd ⟨heq.symm, hhome⟩ hkey
      · exact (paidUsing_other hhome).mpr ((paidUsing_other hhome).mp hpaid)
  | _ => exact hI

/-- What a conversation's books say of an intent a read finds. -/
theorem Booked.of_seen {paid : Scope → String → Prop} {w : World} (hb : Booked w paid env)
    (hgood : Good env .memory w) {c : Intent} (hc : w.seen .memory c.id = some c) {scope : Scope}
    (hp : paid scope c.id) : charged c.state = true ∧ c.scope = scope := by
  obtain ⟨r, hr, halike⟩ := hgood.row_of_seen hc
  obtain ⟨n, -, hn⟩ := hgood.inv.ids _ _ hr
  rw [hn] at hp hr
  obtain ⟨r', hr', hcharged, hscope⟩ := hb scope n hp
  obtain rfl := Option.some.inj (hr.symm.trans hr')
  obtain ⟨-, hstate, -, hcontext, -⟩ := halike.same
  rw [hstate, Intent.scope, hcontext]
  exact ⟨hcharged, hscope⟩

theorem scope_of_samePrincipal {c : Intent} {ctx : Context} (h : samePrincipal c ctx) :
    c.scope = ctx.scope := by
  rw [Intent.scope, Context.scope, Context.scope, h.1, h.2]

/-- A tool whose check does not ask elsewhere spares what was paid elsewhere. -/
theorem tool_spares {ctx : Context} {w : World} (hw : w = planeFor opening s ctx)
    (hgood : Good env .memory w) (hb : Booked s.world (s.Paid opening) env) {tool : Tool} {op : Op}
    (hop : tool.op ctx = .ok op)
    (hhome : ∀ id, tool = .checkPix id → ¬ AsksElsewhere opening s ctx id) :
    (op.prog env).wp ((handler env .memory).under fun c _ =>
      Spares (PaidElsewhere s opening ctx.scope) c) (fun _ _ => True) (w.note (.began op)) := by
  have hbw : Booked w (s.Paid opening) env := by rw [hw]; exact hb
  have howned : ∀ c, w.seen .memory c.id = some c → samePrincipal c ctx →
      ¬ PaidElsewhere s opening ctx.scope c.id := by
    rintro c hc hp ⟨other, hne, hpaid⟩
    exact hne ((hbw.of_seen hgood hc hpaid).2.symm.trans (scope_of_samePrincipal hp))
  cases tool with
  | proposePix recipient amount parsed =>
    cases parsed with
    | error message => cases hop
    | ok proposed =>
      obtain rfl := Except.ok.inj hop
      refine propose_spares ?_ ctx proposed _
      rintro ⟨other, -, hpaid⟩
      obtain ⟨r, hr, -⟩ := hbw other _ hpaid
      rw [hgood.inv.fresh_row] at hr
      cases hr
  | confirmPix token =>
    obtain rfl := Except.ok.inj hop
    have hsk : (Op.confirm ctx token).seeking env = some _ := rfl
    refine exec_spares hsk fun c hc hm => held_spares hsk ?_
    exact howned c (hgood.seen_of_holder hc).1 (of_decide_eq_true hm)
  | cancelPix token =>
    obtain rfl := Except.ok.inj hop
    have hsk : (Op.cancel ctx token).seeking env = some _ := rfl
    refine exec_spares hsk fun c hc hm => held_spares hsk ?_
    exact howned c (hgood.seen_of_holder hc).1 (of_decide_eq_true hm)
  | checkPix id =>
    obtain rfl := Except.ok.inj hop
    refine exec_spares rfl fun c hc hm => ?_
    obtain rfl : c.id = id := World.seen_id hc
    have hcustomer : c.context.customerId = ctx.customerId := of_decide_eq_true hm
    by_cases hstate : c.state = .unknown
    · have hsk : (Op.reconcile ctx c.id).seeking env = some _ := rfl
      refine held_spares hsk ?_
      rintro ⟨other, hne, hpaid⟩
      have hscope := (hbw.of_seen hgood hc hpaid).2
      have hobject : s.world.object c.id = some c := by rw [hw] at hc; exact hc
      exact hhome c.id rfl ⟨c, hobject, hstate, hcustomer, hscope ▸ hne, hscope.symm ▸ hpaid⟩
    · change (reconcileHeld c).calls _
      rw [reconcileHeld, if_pos hstate]
      exact ⟨trivial, fun _ => trivial⟩

/-! ## Whole conversations -/

/-- Every tool call of a conversation meets a plane that only planes have written to. -/
theorem Talks.reach {admissible : Scopes → Configurable → Tool → Prop}
    (hs : Talks env opening admissible s) (ctx : Context) :
    Reach env .memory (fun _ => True) (Untampered .memory) (planeFor opening s ctx) := by
  have hworld : Reach env .memory (fun _ => True) (Untampered .memory) s.world := by
    induction hs with
    | start => exact .start {} trivial
    | @call s runtime tool _ _ ih =>
      cases hop : tool.op (contextFor runtime) with
      | error outcome =>
        rw [callTool_answered hop]
        exact ih
      | ok op =>
        rw [callTool_op hop]
        exact (ih.step (.bank (s.bankOf opening (contextFor runtime).scope)) trivial).op op trivial
  exact hworld.step (.bank (s.bankOf opening ctx.scope)) trivial

theorem booked_planeFor (ctx : Context) (hb : Booked s.world (s.Paid opening) env) :
    Booked (planeFor opening s ctx)
      (paidUsing s opening ctx.scope (planeFor opening s ctx)) env := by
  intro scope n hpaid
  refine hb scope n ?_
  by_cases hhome : scope = ctx.scope
  · rw [paidUsing, if_pos hhome] at hpaid
    rw [hhome]
    exact hpaid
  · exact (paidUsing_other hhome).mp hpaid

/-- One tool call that does not ask elsewhere keeps the books. -/
theorem Booked.call {admissible : Scopes → Configurable → Tool → Prop}
    (hs : Talks env opening admissible s) (hb : Booked s.world (s.Paid opening) env)
    {runtime : Configurable} {tool : Tool} (hhome : AsksHome opening s runtime tool) :
    Booked (callTool env opening runtime tool s).2.world
      ((callTool env opening runtime tool s).2.Paid opening) env := by
  cases hop : tool.op (contextFor runtime) with
  | error outcome =>
    rw [callTool_answered hop]
    exact hb
  | ok op =>
    rw [callTool_op hop]
    have hgood := (hs.reach (contextFor runtime)).good fun _ _ h => h.sound
    have hspares := tool_spares rfl hgood hb hop fun id htool => by subst htool; exact hhome
    have hmine : ∀ ctx' token, op = .confirm ctx' token → ctx'.scope = (contextFor runtime).scope := by
      rintro ctx' token rfl
      cases tool with
      | confirmPix token' => cases hop; rfl
      | proposePix recipient amount parsed => cases parsed <;> cases hop
      | _ => cases hop
    have hleft := Booked.exec hgood hmine hspares (booked_planeFor (contextFor runtime) hb)
    intro scope n hpaid
    refine hleft scope n ?_
    rw [Scopes.Paid, Scopes.bankOf_serve] at hpaid
    unfold paidUsing
    split_ifs at hpaid ⊢ <;> exact hpaid

theorem Talks.booked (hs : Talks env opening (AsksHome opening) s) :
    Booked s.world (s.Paid opening) env := by
  induction hs with
  | start =>
    intro scope n hpaid
    cases hpaid
  | call runtime tool hs hhome ih => exact Booked.call hs ih hhome

/-! ## What a check answers -/

/-- What `reconcile` answers of an intent the bank knows nothing of. -/
theorem reconcileHeld_unpaid {w : World} {c : Intent} (hstate : c.state = .unknown)
    (hpaid : w.bank.payment c.id = none) :
    ∃ o, ((reconcileHeld c).run (handler env .memory) w).1 = .ok o ∧ o.status = .failed := by
  have edge : TRANSITIONS c.state .fail = some .failed := by rw [hstate]; rfl
  have hanswer : (handler env .memory).on (.payment c.idempotencyKey) w = (none, w) :=
    Prod.ext hpaid rfl
  rw [reconcileHeld, if_neg (not_not.mpr hstate)]
  simp only [Prog.bind_eq, Prog.perform_bind, Prog.run_call, hanswer, move, transition, edge, assign,
    saveReason, statusOf, summary, Prog.pure_eq, Prog.call_bind, Prog.ret_bind]
  exact ⟨_, rfl, rfl⟩

theorem Says.failed {c : Intent} {o : Outcome} {i : Option Intent} (h : Says c o i)
    (hfailed : o.status = .failed) :
    (i = none ∧ c.state = .failed) ∨ ∃ j, i = some j ∧ j.state = .failed := by
  cases h with
  | still hspeaks =>
    refine Or.inl ⟨rfl, ?_⟩
    rcases hspeaks with htold | ⟨htold, -⟩ <;> rw [hfailed] at htold
    · cases hst : c.state <;> rw [hst] at htold <;> first | rfl | cases htold
    · cases htold
  | @moved j _ hsettled =>
    refine Or.inr ⟨j, rfl, ?_⟩
    rw [hfailed] at hsettled
    cases hst : j.state <;> rw [hst] at hsettled <;> first | rfl | cases hsettled

/-- After a check that answers `FAILED`, the intent is stored as `FAILED`. -/
theorem failed_of_reconcile {w : World} (hreach : Reach env .memory (fun _ => True) (Untampered .memory) w)
    {ctx : Context} {id : String} {o : Outcome}
    (hreply : (exec env .memory (.reconcile ctx id) w).1 = .ok (.outcome o))
    (hfailed : o.status = .failed) :
    ∃ r, (exec env .memory (.reconcile ctx id) w).2.row id = some r ∧ r.state = .failed := by
  have hgood := hreach.good fun _ _ h => h.sound
  have hsk : (Op.reconcile ctx id).seeking env = some ⟨.intent id,
    fun i => i.context.customerId = ctx.customerId, reconcileHeld⟩ := rfl
  cases hfound : (w.named .memory (.intent id)).filter fun i => i.context.customerId = ctx.customerId with
  | none =>
    rw [exec_unfound hsk hfound] at hreply
    obtain rfl := Reply.outcome.inj (Except.ok.inj hreply)
    cases hfailed
  | some c =>
    obtain ⟨hnamed, hm⟩ := Option.filter_eq_some_iff.mp hfound
    have hseen : w.seen .memory id = some c := hnamed
    obtain rfl : c.id = id := World.seen_id hseen
    have hasks : AsksAbout c (.reconcile ctx c.id) := ⟨rfl, of_decide_eq_true hm⟩
    obtain ⟨i, htold, htracked⟩ := exec_tells hgood (hreach.sealed fun _ _ h => h) hseen hasks hreply
    rcases htold.failed hfailed with ⟨rfl, hstate⟩ | ⟨j, rfl, hstate⟩
    · obtain ⟨r, hr, halike⟩ := hgood.row_of_seen hseen
      exact ⟨r, by rw [htracked.untouched rfl, hr], halike.same.2.1 ▸ hstate⟩
    · obtain ⟨r, hr, hr'⟩ := htracked.last j rfl
      exact ⟨r, hr, hr'.trans hstate⟩

/-- The check's answer, if it denies the payment, is right: no conversation's bank has made it. -/
def Truthful (opening : MockBank) (s' : Scopes) (id : String) (o : Outcome) : Prop :=
  o.status = .failed → ∀ scope, ¬ s'.Paid opening scope id

/-- **Checking a payment.** In every run of tool calls whose checks so far asked the conversation that was
paid from, a check is answered truthfully if and only if it does too. -/
theorem check_truthful (hs : Talks env opening (AsksHome opening) s) {runtime : Configurable} {id : String}
    {o : Outcome} (hreply : (callTool env opening runtime (.checkPix id) s).1 = .ok (.outcome o)) :
    Truthful opening (callTool env opening runtime (.checkPix id) s).2 id o ↔
      AsksHome opening s runtime (.checkPix id) := by
  have hreach := hs.reach (contextFor runtime)
  have hgood := hreach.good fun _ _ h => h.sound
  have hexec : (exec env .memory (.reconcile (contextFor runtime) id)
      (planeFor opening s (contextFor runtime))).1 = .ok (.outcome o) := hreply
  constructor
  · -- A check that asks elsewhere is told that nothing was paid.
    rintro htrue ⟨c, hc, hstate, hcustomer, hne, hpaid⟩
    have hseen : (planeFor opening s (contextFor runtime)).seen .memory id = some c := hc
    obtain rfl : c.id = id := World.seen_id hseen
    have hunpaid : (planeFor opening s (contextFor runtime)).bank.payment c.id = none := by
      by_contra hsome
      have hhere : paidUsing s opening (contextFor runtime).scope (planeFor opening s (contextFor runtime))
          (contextFor runtime).scope c.id := by
        rw [paidUsing, if_pos rfl]
        exact Option.isSome_iff_ne_none.mpr hsome
      exact hne ((booked_planeFor (contextFor runtime) hs.booked).of_seen hgood hc hhere).2
    have hcheck : ∃ o, ((reconcileHeld c).run (handler env .memory) ((planeFor opening s (contextFor runtime)).note
        (.began (.reconcile (contextFor runtime) c.id)))).1 = .ok o ∧ o.status = .failed :=
      reconcileHeld_unpaid hstate hunpaid
    obtain ⟨o', ho', hfailed⟩ := hcheck
    have hsk : (Op.reconcile (contextFor runtime) c.id).seeking env = some ⟨.intent c.id,
      fun i => i.context.customerId = (contextFor runtime).customerId, reconcileHeld⟩ := rfl
    have hnamed : (planeFor opening s (contextFor runtime)).named .memory (.intent c.id) = some c := hc
    rw [exec_found hsk hnamed (decide_eq_true hcustomer), ho'] at hexec
    obtain rfl := Reply.outcome.inj (Except.ok.inj hexec)
    refine htrue hfailed c.scope ?_
    rw [callTool_op rfl, Scopes.Paid, Scopes.bankOf_serve, if_neg hne]
    exact hpaid
  · intro hhome hfailed scope hpaid
    obtain ⟨r, hr, hstate⟩ := failed_of_reconcile hreach hexec hfailed
    obtain ⟨n, -, rfl⟩ := (hgood.exec _).inv.ids _ _ hr
    obtain ⟨r', hr', hcharged, -⟩ := Booked.call hs hs.booked hhome scope n hpaid
    rw [← Option.some.inj (hr.symm.trans hr'), hstate] at hcharged
    cases hcharged

/-! A payment whose answer was lost is checked from another thread of the customer's: the bank asked there
has not made it. -/

/-- The development environment, with the digest of one more payment. -/
def lostEnv : Env :=
  { sampleEnv noon with
    hmacSha256 := fun secret fields =>
      if secret = sampleSecret ∧ fields = (payTo "contact_renata" money10013).modelDump
      then "9ab5f9708919ab74369a089e438f0717a3d57157926ae465dc10a1d5bc369a9a"
      else sampleHmac secret fields }

def thread (name : String) : Configurable := { customerId := some "customer_1", threadId := some name }

/-- A payment is proposed and confirmed in one thread, and the bank does not answer. -/
def lost : Scopes :=
  let proposed := callTool lostEnv {} (thread "thread_1") (.proposePix "Renata" "100,13"
    (.ok { recipient := "Renata", amount := money10013, named := renata_named })) {}
  (callTool lostEnv {} (thread "thread_1") (.confirmPix "conf_000000000001") proposed.2).2

theorem lost_talks : Talks lostEnv {} (AsksHome {}) lost :=
  .call _ _ (.call _ _ .start trivial) trivial

theorem lost_denied : Reply.status (callTool lostEnv {} (thread "thread_2")
      (.checkPix "pix_000000000000") lost).1 = some .failed ∧
    (callTool lostEnv {} (thread "thread_2") (.checkPix "pix_000000000000") lost).2.Paid {}
      ("customer_1", "thread_1") "pix_000000000000" := by
  decide +kernel

theorem check_denies_payment : ¬ ∀ s, Talks lostEnv {} (fun _ _ _ => True) s → ∀ runtime id o,
    (callTool lostEnv {} runtime (.checkPix id) s).1 = .ok (.outcome o) →
      Truthful {} (callTool lostEnv {} runtime (.checkPix id) s).2 id o := by
  intro hclaim
  obtain ⟨o, hreply, hfailed⟩ := reply_of_status lost_denied.1
  exact hclaim lost (.call _ _ (.call _ _ .start trivial) trivial) _ _ o hreply hfailed _ lost_denied.2

theorem check_truthful_sample : ∃ o, o.status = .failed ∧
    (Truthful {} (callTool lostEnv {} (thread "thread_2") (.checkPix "pix_000000000000") lost).2
      "pix_000000000000" o ↔ AsksHome {} lost (thread "thread_2") (.checkPix "pix_000000000000")) := by
  obtain ⟨o, hreply, hfailed⟩ := reply_of_status lost_denied.1
  exact ⟨o, hfailed, check_truthful lost_talks hreply⟩

end BankingControlPlane
