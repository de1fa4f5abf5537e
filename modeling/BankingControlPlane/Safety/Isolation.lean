import BankingControlPlane.Plane.Hops
import BankingControlPlane.Plane.Local
import BankingControlPlane.Plane.Sample

/-!
# What another customer's intents show

* `Apart` : two worlds that a customer cannot tell apart; `Apart.exec` : whatever the customer does, the
  replies are the same and the worlds stay so;
* `Isolated` : a reference to what is another's is answered as one to what never was, and does nothing; a
  trail is its opener's to read; what is another's changes no reply.
-/

namespace BankingControlPlane
open Effects

variable {env : Env} {kind : StoreKind} {w w' : World}

/-! ## Two worlds side by side -/

/-- No trail of this customer's. -/
def Foreign (customer : String) (events : List Event) : Prop :=
  ∀ sessionId, principalOf events ≠ some (customer, sessionId)

/-- The worlds differ at most in the intents and trails of other customers. -/
structure Apart (customer : String) (kind : StoreKind) (w w' : World) : Prop where
  bank : w.bank = w'.bank
  drawn : w.drawn = w'.drawn
  ticks : w.ticks = w'.ticks
  nows : w.nows = w'.nows
  mine : ∀ k c, c.context.customerId = customer → (w.seen kind k = some c ↔ w'.seen kind k = some c)
  trails : ∀ k, w.events k = w'.events k ∨
    (Foreign customer (w.events k) ∧ Foreign customer (w'.events k))

theorem Apart.symm {customer : String} (h : Apart customer kind w w') : Apart customer kind w' w :=
  ⟨h.bank.symm, h.drawn.symm, h.ticks.symm, h.nows.symm, fun k c hc => (h.mine k c hc).symm,
    fun k => (h.trails k).imp Eq.symm And.symm⟩

theorem Apart.note {customer : String} (h : Apart customer kind w w') (o o' : Obs) :
    Apart customer kind (w.note o) (w'.note o') :=
  ⟨h.bank, h.drawn, h.ticks, h.nows, fun k c hc => by simpa using h.mine k c hc, h.trails⟩

/-- An operation holds `c` in both. -/
structure Abreast (c : Intent) (kind : StoreKind) (w w' : World) : Prop where
  apart : Apart c.context.customerId kind w w'
  this : w.seen kind c.id = w'.seen kind c.id

/-- What was seen alike of one intent and of this customer's is so still, if one intent changes alike. -/
theorem Abreast.changed {c : Intent} (h : Abreast c kind w w') {v v' : World} (hv : v.bank = v'.bank)
    (hdrawn : v.drawn = v'.drawn) (hticks : v.ticks = v'.ticks) (hnows : v.nows = v'.nows)
    (hthis : v.seen kind c.id = v'.seen kind c.id)
    (hothers : ∀ k, k ≠ c.id → v.seen kind k = w.seen kind k ∧ v'.seen kind k = w'.seen kind k)
    (htrails : ∀ k, v.events k = v'.events k ∨ (Foreign c.context.customerId (v.events k) ∧
      Foreign c.context.customerId (v'.events k))) : Abreast c kind v v' := by
  refine ⟨⟨hv, hdrawn, hticks, hnows, fun k i hi => ?_, htrails⟩, hthis⟩
  by_cases hk : k = c.id
  · rw [hk, hthis]
  · rw [(hothers k hk).1, (hothers k hk).2]
    exact h.apart.mine k i hi

theorem Foreign.append {customer : String} {events : List Event} (h : Foreign customer events) {e : Event}
    (he : e.entry.principal = none) : Foreign customer (events ++ [e]) := by
  intro sessionId
  rw [principalOf_append_none he]
  exact h sessionId

/-- **A call that keeps to the intent held is answered alike, and leaves the worlds alike.** -/
theorem Abreast.serve {c : Intent} (h : Abreast c kind w w') {β : Type} {pc : PlaneCall β}
    (hpc : Local True c pc) :
    (serve env kind pc w).1 = (serve env kind pc w').1 ∧
      Abreast c kind (serve env kind pc w).2 (serve env kind pc w').2 := by
  obtain ⟨⟨hbank, hdrawn, hticks, hnows, hmine, htrails⟩, hthis⟩ := id h
  have hkept : ∀ {v v' : World}, v.bank = v'.bank → v.drawn = v'.drawn → v.ticks = v'.ticks →
      v.nows = v'.nows → (∀ k, v.seen kind k = w.seen kind k) → (∀ k, v'.seen kind k = w'.seen kind k) →
      (∀ k, v.events k = w.events k) → (∀ k, v'.events k = w'.events k) → Abreast c kind v v' := by
    intro v v' hb hd ht hn hs hs' he he'
    refine h.changed hb hd ht hn (by rw [hs, hs', hthis]) (fun k _ => ⟨hs k, hs' k⟩) fun k => ?_
    rw [he, he']
    exact htrails k
  cases pc with
  | get id => exact hpc.elim
  | byConfirmation token => exact hpc.elim
  | unsettled states => exact hpc.elim
  | eventsFor id => exact hpc.elim
  | put i =>
    have hi : i.id = c.id := hpc.1
    refine ⟨rfl, h.changed hbank hdrawn hticks hnows ?_ (fun k hk => ?_) htrails⟩
    · simp only [BankingControlPlane.serve, World.seen_put, hi, hthis]
    · simp only [BankingControlPlane.serve, World.seen_put, hi, if_neg (Ne.symm hk), and_self]
  | assign i =>
    have hi : i.id = c.id := hpc.1
    refine ⟨rfl, h.changed hbank hdrawn hticks hnows ?_ (fun k hk => ?_) htrails⟩
    · simp only [BankingControlPlane.serve, World.seen_assign, hi, hthis]
    · simp only [BankingControlPlane.serve, World.seen_assign, hi, Ne.symm hk, and_false, if_false,
        and_self]
  | append id e =>
    obtain ⟨rfl, hallowed⟩ := hpc
    have he := hallowed.principal
    refine ⟨rfl, h.changed hbank hdrawn hticks hnows ?_ (fun k hk => ?_) fun k => ?_⟩
    · simp only [BankingControlPlane.serve, World.seen_append, hthis]
    · exact ⟨w.seen_append _ _ _ _, w'.seen_append _ _ _ _⟩
    · simp only [BankingControlPlane.serve, World.events_append]
      rcases htrails k with heq | ⟨hf, hf'⟩
      · exact Or.inl (by rw [heq])
      · split_ifs
        · exact Or.inr ⟨hf.append he, hf'.append he⟩
        · exact Or.inr ⟨by simpa using hf, by simpa using hf'⟩
  | clock use =>
    refine ⟨by simp only [BankingControlPlane.serve, hticks], hkept hbank hdrawn ?_ hnows ?_ ?_ ?_ ?_⟩
    · simp only [BankingControlPlane.serve, hticks]
    all_goals intro k; cases kind <;> rfl
  | now =>
    refine ⟨by simp only [BankingControlPlane.serve, hnows], hkept hbank hdrawn hticks ?_ ?_ ?_ ?_ ?_⟩
    · simp only [BankingControlPlane.serve, hnows]
    all_goals intro k; cases kind <;> rfl
  | newId stem =>
    refine ⟨by simp only [BankingControlPlane.serve, hdrawn], hkept hbank ?_ hticks hnows ?_ ?_ ?_ ?_⟩
    · simp only [BankingControlPlane.serve, hdrawn]
    all_goals intro k; cases kind <;> rfl
  | cardTransactions days =>
    refine ⟨by simp only [BankingControlPlane.serve, hnows], hkept hbank hdrawn hticks ?_ ?_ ?_ ?_ ?_⟩
    · simp only [BankingControlPlane.serve, hnows]
    all_goals intro k; cases kind <;> rfl
  | createPix o =>
    refine ⟨by simp only [BankingControlPlane.serve, hbank, hdrawn], hkept ?_ ?_ hticks hnows ?_ ?_ ?_ ?_⟩
    · simp only [BankingControlPlane.serve, hbank, hdrawn]
    · simp only [BankingControlPlane.serve, hbank, hdrawn]
    all_goals intro k; cases kind <;> rfl
  | findContacts name => exact ⟨by simp only [BankingControlPlane.serve, hbank], h⟩
  | contact id => exact ⟨by simp only [BankingControlPlane.serve, hbank], h⟩
  | balance id => exact ⟨by simp only [BankingControlPlane.serve, hbank], h⟩
  | paidBefore => exact ⟨by simp only [BankingControlPlane.serve, hbank], h⟩
  | payment key => exact ⟨by simp only [BankingControlPlane.serve, hbank], h⟩

/-! ## Operations side by side -/

/-- A customer asks about an intent, or reads a trail. -/
def Op.By (customer : String) : Op → Prop
  | .confirm ctx _ | .cancel ctx _ | .status ctx _ | .stepUp ctx _ | .reconcile ctx _ | .explain ctx _ =>
    ctx.customerId = customer
  | _ => False

instance (customer : String) (op : Op) : Decidable (op.By customer) :=
  match op with
  | .confirm .. | .cancel .. | .status .. | .stepUp .. | .reconcile .. | .explain .. =>
    inferInstanceAs (Decidable (_ = _))
  | .query .. | .propose .. | .sweep => inferInstanceAs (Decidable False)

/-- What the next operation of a run starts from. -/
structure Intact (env : Env) (kind : StoreKind) (w : World) : Prop where
  good : Good env kind w
  sealed : ∀ k r, w.row k = some r → Sealed env w.history r
  trailed : Trailed w

theorem Reach.intact {opening : MockBank → Prop} {admissible : World → Step → Prop}
    (huntampered : ∀ w s, admissible w s → Untampered kind w s)
    (hw : Reach env kind opening admissible w) : Intact env kind w :=
  ⟨(hw.trailed huntampered).1, hw.sealed huntampered, (hw.trailed huntampered).2⟩

/-- What this customer names is found in both, or in neither. -/
theorem Apart.found {customer : String} (h : Apart customer kind w w') (hw : Intact env kind w)
    (hw' : Intact env kind w') {ref : Ref} {mine : Intent → Bool}
    (hmine : ∀ c, mine c = true → c.context.customerId = customer) {c : Intent}
    (hc : (w.named kind ref).filter mine = some c) : (w'.named kind ref).filter mine = some c := by
  obtain ⟨hnamed, hm⟩ := Option.filter_eq_some_iff.mp hc
  refine Option.filter_eq_some_iff.mpr ⟨?_, hm⟩
  cases ref with
  | intent id => exact (h.mine id c (hmine c hm)).mp hnamed
  | token token =>
    obtain ⟨hseen, ht⟩ := hw.good.seen_of_holder hnamed
    exact hw'.good.holder_of_seen hw'.sealed ((h.mine c.id c (hmine c hm)).mp hseen) ht

theorem Apart.named {customer : String} (h : Apart customer kind w w') (hw : Intact env kind w)
    (hw' : Intact env kind w') {ref : Ref} {mine : Intent → Bool}
    (hmine : ∀ c, mine c = true → c.context.customerId = customer) :
    (w.named kind ref).filter mine = (w'.named kind ref).filter mine := by
  cases hc : (w.named kind ref).filter mine with
  | some c => exact (h.found hw hw' hmine hc).symm
  | none =>
    cases hc' : (w'.named kind ref).filter mine with
    | none => rfl
    | some c =>
      rw [h.symm.found hw' hw hmine hc'] at hc
      cases hc

theorem seeking_mine {customer : String} {op : Op} {sk : Seeking} (hop : op.By customer)
    (hsk : op.seeking env = some sk) {c : Intent} (hm : sk.mine c = true) :
    c.context.customerId = customer := by
  cases op <;> simp only [Op.seeking, Option.some.injEq, reduceCtorEq] at hsk <;> subst hsk
  all_goals
    have hctx : Context.customerId _ = customer := hop
    have hown := of_decide_eq_true hm
    first
      | exact hown.trans hctx
      | exact hown.1.trans hctx

theorem exec_explain_eq (ctx : Context) (id : String) (w : World) :
    exec env kind (.explain ctx id) w =
      (.ok (.trail (if principalOf (w.events id) = some (ctx.customerId, ctx.sessionId)
        then w.events id else [])), w.note (.began (.explain ctx id))) := rfl

/-- **An operation of this customer's is answered alike, and leaves the worlds alike.** -/
theorem Apart.exec {customer : String} (h : Apart customer kind w w') (hw : Intact env kind w)
    (hw' : Intact env kind w') {op : Op} (hop : op.By customer) :
    (exec env kind op w).1 = (exec env kind op w').1 ∧
      Apart customer kind (exec env kind op w).2 (exec env kind op w').2 := by
  cases hsk : op.seeking env with
  | some sk =>
    have hnamed : (w.named kind sk.ref).filter sk.mine = (w'.named kind sk.ref).filter sk.mine :=
      h.named hw hw' fun c hm => seeking_mine hop hsk hm
    rw [exec_seeking hsk, exec_seeking hsk, ← hnamed]
    cases hc : (w.named kind sk.ref).filter sk.mine with
    | none => exact ⟨rfl, h.note _ _⟩
    | some c =>
      have hm := (Option.filter_eq_some_iff.mp hc).2
      obtain rfl := seeking_mine hop hsk hm
      have hseen : w.seen kind c.id = some c := by
        have hf := (Option.filter_eq_some_iff.mp hc).1
        obtain ⟨ref, mine, held⟩ := sk
        cases ref with
        | intent id =>
          have hid : c.id = id := World.seen_id hf
          rw [hid]
          exact hf
        | token token => exact (hw.good.seen_of_holder hf).1
      have habreast : Abreast c kind (w.note (.began op)) (w'.note (.began op)) := by
        refine ⟨h.note _ _, ?_⟩
        rw [World.seen_note, World.seen_note, hseen, (h.mine c.id c rfl).mp hseen]
      obtain ⟨hreply, hleft⟩ := Prog.run_together (handler env kind) (handler env kind)
        (Abreast c kind) (Local True c) (fun pc _ _ hpc hr => hr.serve hpc) (calls_held hsk c) habreast
      exact ⟨congrArg (Except.map Reply.outcome) hreply, hleft.apart⟩
  | none =>
    cases op with
    | explain ctx id =>
      have hctx : ctx.customerId = customer := hop
      rw [exec_explain_eq, exec_explain_eq]
      refine ⟨?_, h.note _ _⟩
      rcases h.trails id with heq | ⟨hf, hf'⟩
      · rw [heq]
      · rw [if_neg (hctx ▸ hf ctx.sessionId), if_neg (hctx ▸ hf' ctx.sessionId)]
    | _ => first | exact hop.elim | cases hsk

/-! ## Whole runs -/

/-- What an operation names an intent by. -/
def Op.ref : Op → Option Ref
  | .confirm _ token | .cancel _ token => some (.token token)
  | .stepUp _ intentId | .reconcile _ intentId | .status _ intentId => some (.intent intentId)
  | _ => none

/-- The intent is the caller's, as far as the operation asks: its customer's, or its customer's and
session's. -/
def Op.Owns (c : Intent) : Op → Prop
  | .confirm ctx _ | .cancel ctx _ | .status ctx _ => samePrincipal c ctx
  | .stepUp ctx _ | .reconcile ctx _ => c.context.customerId = ctx.customerId
  | _ => False

theorem Op.seeking_of_ref (env : Env) {op : Op} {ref : Ref} (h : op.ref = some ref) :
    ∃ sk, op.seeking env = some sk ∧ sk.ref = ref ∧ ∀ c, sk.mine c = true ↔ op.Owns c := by
  cases op <;> simp only [Op.ref, Option.some.injEq, reduceCtorEq] at h <;> subst h
  all_goals exact ⟨_, rfl, rfl, fun c => decide_eq_true_iff⟩

/-- The trail this caller is shown. -/
def shown (ctx : Context) (id : String) (w : World) : List Event :=
  if principalOf (w.events id) = some (ctx.customerId, ctx.sessionId) then w.events id else []

theorem principalOf_opened (hw : Intact env kind w) {principal : String × String} {id : String} :
    principalOf (w.events id) = some principal ↔ OpenedBy w.history principal id := by
  constructor
  · intro h
    obtain ⟨e, he, hentry⟩ := List.exists_of_findSome?_eq_some h
    obtain ⟨hledger, hid⟩ := List.mem_filter.mp he
    obtain ⟨k, entry⟩ := e
    obtain rfl : k = id := of_decide_eq_true hid
    rw [hw.good.inv.ledger, ledgerOf, List.mem_filterMap] at hledger
    obtain ⟨o, ho, hevent⟩ := hledger
    cases o with
    | appended e' =>
      obtain rfl := Option.some.inj hevent
      cases entry with
      | request customer session channel what =>
        obtain rfl := Option.some.inj hentry
        exact (hw.trailed.opened _ _ _ _ _ ho).2
      | _ => cases hentry
    | _ => cases hevent
  · intro h
    obtain ⟨channel, what, hm⟩ := h.mem
    exact (hw.trailed.opened _ _ _ _ _ hm).1

theorem shown_ne_nil {ctx : Context} {id : String} :
    shown ctx id w ≠ [] ↔ principalOf (w.events id) = some (ctx.customerId, ctx.sessionId) := by
  unfold shown
  constructor
  · intro h
    by_contra hp
    exact h (if_neg hp)
  · intro hp hnil
    rw [if_pos hp] at hnil
    rw [hnil] at hp
    cases hp

/-- Foreign and unknown references look the same and do nothing. -/
structure Isolated (env : Env) (kind : StoreKind) (w : World) : Prop where
  inert : ∀ op ref, op.ref = some ref → (∀ c, w.named kind ref = some c → ¬ op.Owns c) →
    exec env kind op w = (.ok (.outcome (unknown ref.text)), w.note (.began op))
  unissued : ∀ op ref w', op.ref = some ref → w'.named kind ref = none →
    (exec env kind op w').1 = .ok (.outcome (unknown ref.text))
  trail : ∀ ctx id, (exec env kind (.explain ctx id) w).1 = .ok (.trail (shown ctx id w)) ∧
    (shown ctx id w ≠ [] ↔ OpenedBy w.history (ctx.customerId, ctx.sessionId) id) ∧
    (shown ctx id w ≠ [] → shown ctx id w = w.events id)
  status : ∀ ctx id c, w.seen kind id = some c → (shown ctx id w ≠ [] ↔
    (exec env kind (.status ctx id) w).1 ≠ .ok (.outcome (unknown id)))
  blind : ∀ customer w', Reach env kind (fun _ => True) (Untampered kind) w' →
    Apart customer kind w w' → ∀ ops : List Op, (∀ op ∈ ops, op.By customer) →
      (play env kind ops w).1 = (play env kind ops w').1

/-- A status that finds its intent does not call it unknown. -/
theorem status_found {ctx : Context} {id : String} {c : Intent} (hc : w.seen kind id = some c) :
    (exec env kind (.status ctx id) w).1 ≠ .ok (.outcome (unknown id)) ↔ samePrincipal c ctx := by
  have hsk : (Op.status ctx id).seeking env = some ⟨.intent id, fun i => samePrincipal i ctx,
    fun i => statusOf i⟩ := rfl
  by_cases hp : samePrincipal c ctx
  · rw [exec_found hsk hc (decide_eq_true hp)]
    refine iff_of_true (fun heq => ?_) hp
    have hid := congrArg Outcome.intentId (Reply.outcome.inj (Except.ok.inj heq))
    cases hid
  · rw [exec_unfound hsk (by rw [show w.named kind (.intent id) = some c from hc]; simp [hp])]
    exact iff_of_false (fun h => h rfl) hp

/-- **Foreign and unknown references are indistinguishable and inert**, and what another customer's
intents are changes no reply. -/
theorem isolated (hw : Reach env kind (fun _ => True) (Untampered kind) w) : Isolated env kind w := by
  have hintact := hw.intact fun _ _ hs => hs
  refine ⟨fun op ref href hforeign => ?_, fun op ref w' href hnone => ?_,
    fun ctx id => ⟨rfl, ?_, fun h => if_pos (shown_ne_nil.mp h)⟩, fun ctx id c hc => ?_,
    fun customer w' hw' hapart ops hops => ?_⟩
  · obtain ⟨sk, hsk, rfl, hmine⟩ := Op.seeking_of_ref env href
    refine exec_unfound hsk ?_
    rw [Option.filter_eq_none_iff]
    exact fun c hc hm => hforeign c hc ((hmine c).mp hm)
  · obtain ⟨sk, hsk, rfl, -⟩ := Op.seeking_of_ref env href
    rw [exec_unfound hsk (by rw [hnone]; rfl)]
  · rw [shown_ne_nil]
    exact principalOf_opened hintact
  · obtain ⟨r, hr, halike⟩ := hintact.good.row_of_seen hc
    rw [status_found hc, shown_ne_nil, hintact.good.inv.principals _ _ hr, ← halike.same.2.2.2.1]
    simp [samePrincipal]
  · induction ops generalizing w w' with
    | nil => rfl
    | cons op rest ih =>
      obtain ⟨hreply, hleft⟩ := hapart.exec hintact (hw'.intact fun _ _ hs => hs) (hops op (by simp))
      have hnext := hw.op op trivial
      have hnext' := hw'.op op trivial
      simp only [play]
      rw [hreply, ih hnext (hnext.intact fun _ _ hs => hs) _ hnext' hleft
        fun op' h => hops op' (List.mem_cons_of_mem _ h)]

/-! Another customer's token: to this one it is no token at all. -/

def bothPropose : World :=
  after (sampleEnv noon) .postgres [
    .op (.propose { session with customerId := "customer_2" }
      { recipient := "Renata", amount := money200, named := renata_named } "pay"),
    .op (proposal "Renata" money100 renata_named)] { bank := {} }

theorem bothPropose_reached :
    Reach (sampleEnv noon) .postgres (fun _ => True) (Untampered .postgres) bothPropose :=
  (Reach.start {} trivial).after ⟨trivial, trivial, trivial⟩

theorem isolated_sample : Isolated (sampleEnv noon) .postgres bothPropose ∧
    ((bothPropose.holder .postgres "conf_000000000001").map fun i => i.context.customerId) =
      some "customer_2" ∧
    (exec (sampleEnv noon) .postgres (.cancel session "conf_000000000001") bothPropose).1 =
      .ok (.outcome (unknown "conf_000000000001")) :=
  ⟨isolated bothPropose_reached, by decide +kernel, by decide +kernel⟩

end BankingControlPlane
