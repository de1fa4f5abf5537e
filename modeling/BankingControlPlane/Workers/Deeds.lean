import BankingControlPlane.Workers.Desk

/-!
# What a step does

* `saving`, `inserting` : the intent a statement saves, the key it inserts;
* `Deed` : one constructor for each thing a step of a worker can do to the tables and to its desk;
* `pays_step` : a statement the desk allows does one of them;
* `InStep` : a save finds the row where its copy left it; `InStep.moves`, `Deed.row` : what it does to it then.
-/

namespace BankingControlPlane
open Effects

/-- The intent a statement saves. -/
def saving : {β : Type} → Statement β → Option Intent
  | _, .inl (.put i) => some i
  | _, _ => none

/-- The key a statement inserts. -/
def inserting : {β : Type} → Statement β → Option String
  | _, .inr (.insert key _) => some key
  | _, _ => none

/-- At most the payment of `key` is new, and it was missing. -/
structure Paid (key : String) (s s' : Site) : Prop where
  rows : s'.world.rows = s.world.rows
  ledger : s'.world.ledger = s.world.ledger
  answers : s'.answers = s.answers
  keys : (s.world.bank.payments.map Payment.key).Nodup → (s'.world.bank.payments.map Payment.key).Nodup
  book : ∀ k, s'.payment k = s.payment k ∨ k = key ∧ s.payment k = none

/-- What the bank's answer, given at once, leaves on the desk. -/
def Settles (key : String) (s' : Site) (d d' : Desk) : Prop :=
  (∃ r, s'.payment key = some r ∧ d' = { d with known := some (key, r) }) ∨
  (s'.payment key = none ∧ d' = { d with unpaid := some key }) ∨ d' = { d with unpaid := none }

/-- A step from `s` to `s'` by the statement `c`, and the desk before and after it. -/
inductive Deed (kind : StoreKind) (bank : BankKind) {β : Type} (c : Statement β) (s s' : Site)
    (d d' : Desk) : Prop
  | idle (same : Same s s') (desk : d' = d)
  | saw {i : Intent} (same : Same s s') (stored : i ∈ s.world.intents kind) (desk : d' = d.saw i)
  | saved {i : Intent} (saves : saving c = some i) (may : d.MaySave i) (rows : s'.world.rows = (s.world.put i).rows)
      (payments : s'.world.bank.payments = s.world.bank.payments)
      (ledger : s'.world.ledger = s.world.ledger) (answers : s'.answers = s.answers) (desk : d' = d.saw i)
  | noted {id : String} {e : Entry} (rows : s'.world.rows = s.world.rows)
      (payments : s'.world.bank.payments = s.world.bank.payments)
      (ledger : s'.world.ledger = s.world.ledger ++ [⟨id, e⟩]) (answers : s'.answers = s.answers)
      (recorder : e.consents = true → d.recorder = true)
      (desk : d' = if e.consents = true then { d with word := some id } else d)
  | found {key : String} {r : Receipt} (same : Same s s') (paid : s.payment key = some r)
      (desk : d' = { d with known := some (key, r) })
  | missed {key : String} (same : Same s s') (asks : d.MayPay key ∨ d.seen = some (key, .unknown))
      (unpaid : s.payment key = none) (desk : d' = { d with unpaid := some key })
  | inserted {key : String} (inserts : inserting c = some key) (may : d.MayPay key) (paid : Paid key s s')
      (there : (s'.payment key).isSome)
      (desk : d' = { d with booked := some key, unpaid := none })
  | asked {key : String} (mock : bank = .mock) (may : d.MayPay key) (paid : Paid key s s')
      (settles : Settles key s' d d')
  | answered {o : Order} {a : Except BankExn Receipt} (rows : s'.world.rows = s.world.rows)
      (payments : s'.world.bank.payments = s.world.bank.payments)
      (ledger : s'.world.ledger = s.world.ledger) (answers : s'.answers = s.answers ++ [(o, a)])
      (known : ∀ r, a = .ok r → d.known = some (o.idempotencyKey, r)) (desk : d' = d)

section Step
variable {env : Env} {kind : StoreKind} {bank : BankKind} {process : Nat → Nat} {t : Nat} {s : Site} {d : Desk}

theorem MockBank.payment_insert (b : MockBank) (key : String) (r : Receipt) (k : String) :
    ((b.insert key r).payment k = b.payment k ∨ k = key ∧ b.payment k = none) ∧
      ((b.insert key r).payment key).isSome := by
  unfold MockBank.insert
  cases hp : b.payment key with
  | some r' => simp [hp]
  | none =>
    simp only [Option.isSome_none, Bool.false_eq_true, if_false, MockBank.payment_record]
    refine ⟨?_, by simp⟩
    by_cases hk : key = k
    · subst hk
      exact Or.inr ⟨rfl, hp⟩
    · simp [hk]

theorem MockBank.keys_insert {b : MockBank} (h : (b.payments.map Payment.key).Nodup) (key : String)
    (r : Receipt) : ((b.insert key r).payments.map Payment.key).Nodup := by
  unfold MockBank.insert
  split_ifs
  · exact h
  · exact Keyed.nodup_upsert Payment.key h _

theorem MockBank.keys_createPix {b : MockBank} (h : (b.payments.map Payment.key).Nodup) (drawn : Nat)
    (o : Order) : ((b.createPix env drawn o).2.1.payments.map Payment.key).Nodup := by
  rcases MockBank.createPix_cases env b drawn o with ⟨r, -, heq⟩ | ⟨-, m, heq⟩ | ⟨-, a, heq, -⟩
  · rw [heq]
    exact h
  · rw [heq]
    exact h
  · rw [heq]
    refine Keyed.nodup_upsert Payment.key ?_ _
    rw [MockBank.debit_payments]
    exact h

theorem Site.view_intents (s : Site) (bank : BankKind) (p : Nat) (kind : StoreKind) :
    (s.view bank p).intents kind = s.world.intents kind := by
  cases bank <;> cases kind <;> rfl

theorem paid_createPix (env : Env) (kind : StoreKind) (process : Nat → Nat) (t : Nat) (s : Site) (o : Order) :
    Paid o.idempotencyKey s ((tables env kind .mock process).on t (.inl (.createPix o)) s).2 :=
  ⟨rfl, rfl, rfl, fun h => MockBank.keys_createPix h _ _, MockBank.createPix_book env s.world.bank _ o⟩

theorem paid_insert (key : String) (r : Receipt) :
    Paid key s ((tables env kind bank process).on t (.inr (.insert key r)) s).2 :=
  ⟨rfl, rfl, rfl, fun h => MockBank.keys_insert h _ _, fun k => (s.world.bank.payment_insert key r k).1⟩

/-- **A statement the desk allows does one of these things.** -/
theorem pays_step (env : Env) (kind : StoreKind) (process : Nat → Nat) (t : Nat) {β : Type} {c : Statement β} {K : β → Desk → Prop} (hc : pays bank c K d)
    (hbooked : ∀ k, d.booked = some k → (s.payment k).isSome) :
    ∃ d', K ((tables env kind bank process).on t c s).1 d' ∧
      Deed kind bank c s ((tables env kind bank process).on t c s).2 d d' := by
  cases c with
  | inl c =>
    cases c with
    | get id =>
      have hsame : Same s ((tables env kind bank process).on t (.inl (.get id)) s).2 := same_quiet rfl
      cases hfind : Keyed.find Intent.id ((s.view bank (process t)).intents kind) id with
      | none =>
        refine ⟨d, ?_, .idle hsame rfl⟩
        simp only [tables, serve, hfind]
        exact hc.1
      | some i =>
        refine ⟨d.saw i, ?_, .saw hsame (Site.view_intents s _ _ _ ▸ Keyed.mem_of_find Intent.id hfind) rfl⟩
        simp only [tables, serve, hfind]
        exact hc.2 i (Keyed.key_of_find Intent.id hfind)
    | byConfirmation token =>
      have hsame : Same s ((tables env kind bank process).on t (.inl (.byConfirmation token)) s).2 :=
        same_quiet rfl
      cases hfind : ((s.view bank (process t)).intents kind).find? fun i => i.confirmationId = some token with
      | none =>
        refine ⟨d, ?_, .idle hsame rfl⟩
        simp only [tables, serve, hfind]
        exact hc.1
      | some i =>
        refine ⟨d.saw i, ?_, .saw hsame (Site.view_intents s _ _ _ ▸ List.mem_of_find?_eq_some hfind) rfl⟩
        simp only [tables, serve, hfind]
        exact hc.2 i
    | put i =>
      refine ⟨d.saw i, hc.2, .saved rfl hc.1 ?_ ?_ ?_ ?_ rfl⟩
      · cases bank <;> rfl
      · cases bank <;> rfl
      · cases bank <;> rfl
      · cases bank <;> rfl
    | append id e =>
      change if e.consents = true then _ else _ at hc
      refine ⟨if e.consents = true then { d with word := some id } else d, ?_, .noted ?_ ?_ ?_ ?_ ?_ rfl⟩
      · split_ifs at hc ⊢
        · exact hc.2
        · exact hc
      · cases bank <;> rfl
      · cases bank <;> rfl
      · cases bank <;> rfl
      · cases bank <;> rfl
      · intro he
        rw [if_pos he] at hc
        exact hc.1
    | payment key =>
      have hsame : Same s ((tables env kind bank process).on t (.inl (.payment key)) s).2 := same_quiet rfl
      have hanswer : ((tables env kind bank process).on t (.inl (.payment key)) s).1 = s.payment key :=
        Site.view_payment s _ _ _
      rw [hanswer]
      cases hp : s.payment key with
      | some r => exact ⟨_, hc.2.1 r, .found hsame hp rfl⟩
      | none =>
        refine ⟨_, hc.2.2 fun hb => ?_, .missed hsame hc.1 hp rfl⟩
        have := hbooked key hb
        rw [hp] at this
        cases this
    | createPix o =>
      obtain ⟨rfl, hmay, hok, hrefused, hlate⟩ := hc
      obtain ⟨hpaid, hunpaid⟩ := MockBank.createPix_answer env s.world.bank s.world.drawn o
      have hwrote := paid_createPix env kind process t s o
      cases hanswer : (s.world.bank.createPix env s.world.drawn o).1 with
      | ok r =>
        refine ⟨{ d with known := some (o.idempotencyKey, r) }, ?_, .asked rfl hmay hwrote
          (Or.inl ⟨r, hpaid r hanswer, rfl⟩)⟩
        simp only [tables, serve, Site.view, hanswer]
        exact hok r
      | error e =>
        cases e with
        | error m =>
          refine ⟨{ d with unpaid := some o.idempotencyKey }, ?_, .asked rfl hmay hwrote
            (Or.inr (Or.inl ⟨hunpaid m hanswer, rfl⟩))⟩
          simp only [tables, serve, Site.view, hanswer]
          exact hrefused m
        | timeout m =>
          refine ⟨{ d with unpaid := none }, ?_, .asked rfl hmay hwrote (Or.inr (Or.inr rfl))⟩
          simp only [tables, serve, Site.view, hanswer]
          exact hlate m
    | _ => exact ⟨d, hc _, .idle (same_quiet rfl) rfl⟩
  | inr c =>
    cases c with
    | charge o =>
      refine ⟨d, ?_, .idle (same_charge o) rfl⟩
      simp only [tables, serveTable]
      split
      · exact hc.1 _
      · exact hc.2 _
    | insert key r =>
      exact ⟨_, hc.2, .inserted rfl hc.1 (paid_insert key r) (s.world.bank.payment_insert key r key).2 rfl⟩
    | answered o a =>
      cases a with
      | ok r => exact ⟨d, hc.2, .answered rfl rfl rfl rfl (fun _ h => Except.ok.inj h ▸ hc.1) rfl⟩
      | error e => exact ⟨d, hc, .answered rfl rfl rfl rfl (fun _ h => by cases h) rfl⟩

end Step

/-! ## What becomes of a payment and of a row -/

section Deed
variable {kind : StoreKind} {bank : BankKind} {β : Type} {c : Statement β} {s s' : Site} {d d' : Desk}

theorem payment_of_payments (h : s'.world.bank.payments = s.world.bank.payments) (k : String) :
    s'.payment k = s.payment k := by
  rw [Site.payment, MockBank.payment, h, Site.payment, MockBank.payment]

/-- A payment after a deed: as it was, or made where there was none. -/
theorem Deed.payment (h : Deed kind bank c s s' d d') (k : String) :
    s'.payment k = s.payment k ∨
      s.payment k = none ∧ d.MayPay k ∧ (inserting c = some k ∨ bank = .mock) := by
  cases h with
  | idle same | saw same | found same | missed same => exact Or.inl (same.payment k)
  | saved _ _ _ payments | noted _ payments | answered _ payments =>
    exact Or.inl (payment_of_payments payments k)
  | inserted inserts may paid =>
    rcases paid.book k with heq | ⟨rfl, hnone⟩
    · exact Or.inl heq
    · exact Or.inr ⟨hnone, may, Or.inl inserts⟩
  | asked mock may paid =>
    rcases paid.book k with heq | ⟨rfl, hnone⟩
    · exact Or.inl heq
    · exact Or.inr ⟨hnone, may, Or.inr mock⟩

/-- No payment is lost. -/
theorem Deed.kept (h : Deed kind bank c s s' d d') {k : String} {r : Receipt} (hr : s.payment k = some r) :
    s'.payment k = some r := by
  rcases h.payment k with heq | ⟨hnone, -⟩
  · exact heq.trans hr
  · rw [hnone] at hr
    cases hr


/-- A row after a deed: as it was, or as it was saved. -/
theorem Deed.row (h : Deed kind bank c s s' d d') (k : String) :
    s'.row k = s.row k ∨
      ∃ i, saving c = some i ∧ d.MaySave i ∧ i.id = k ∧ s'.row k = some (s.world.saved i) := by
  have hrows : s'.world.rows = s.world.rows → s'.row k = s.row k := fun hr => by
    rw [Site.row, World.row, hr, Site.row, World.row]
  cases h with
  | idle same | saw same | found same | missed same => exact Or.inl (hrows same.rows)
  | noted rows | answered rows => exact Or.inl (hrows rows)
  | inserted _ _ paid | asked _ _ paid => exact Or.inl (hrows paid.rows)
  | @saved i saves may rows =>
    have hput : s'.row k = if i.id = k then some (s.world.saved i) else s.row k := by
      rw [Site.row, World.row, rows]
      exact World.row_put _ _ _
    by_cases hk : i.id = k
    · exact Or.inr ⟨i, saves, may, hk, by rw [hput, if_pos hk]⟩
    · exact Or.inl (by rw [hput, if_neg hk])

theorem Deed.ids (h : Deed kind bank c s s' d d') (hs : (s.world.rows.map Intent.id).Nodup) :
    (s'.world.rows.map Intent.id).Nodup := by
  cases h with
  | idle same | saw same | found same | missed same => exact same.rows ▸ hs
  | noted rows | answered rows => exact rows ▸ hs
  | inserted _ _ paid | asked _ _ paid => exact paid.rows ▸ hs
  | saved _ _ rows =>
    rw [rows]
    exact Keyed.nodup_upsert Intent.id hs _

end Deed

/-! ## Saves from a copy that is not stale -/

def hops : List Hop :=
  [.validate, .reject, .requireStepUp, .awaitConfirmation, .stepUp, .cancel, .confirm, .submit, .complete,
    .pend, .fail, .timeout, .reverse]

/-- The row is in the state that is saved, or in one with a hop to it. -/
def InStep (s : Site) (i : Intent) : Prop :=
  ∀ r ∈ s.row i.id, r.state = i.state ∨ ∃ event ∈ hops, TRANSITIONS r.state event = some i.state

instance (s : Site) (i : Intent) : Decidable (InStep s i) :=
  inferInstanceAs (Decidable (∀ r ∈ s.row i.id, _))

/-- What survives every hop survives a save that is in step. -/
theorem InStep.moves {s : Site} {i r : Intent} (h : InStep s i) (hr : s.row i.id = some r) {P : State → Prop}
    (hP : ∀ a event b, TRANSITIONS a event = some b → P a → P b) (hp : P r.state) : P i.state := by
  rcases h r hr with heq | ⟨event, -, edge⟩
  · exact heq ▸ hp
  · exact hP _ _ _ edge hp

end BankingControlPlane
