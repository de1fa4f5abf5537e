import BankingControlPlane.Plane.Balances
import BankingControlPlane.Plane.Sample

/-!
# The mock bank conserves money

* `Teller` : a bank at work, and the receipts it has created, each with the order it was created for;
  `Teller.serve`, `Teller.run` : one call of `create_pix`, and any sequence of them;
* `Conserves` : balances, history and book are the opening ones with those receipts applied;
* `CleanCall` : what one call may do to the bank, by its answer;
* `bank_conserves` : both hold after any sequence of calls.
-/

namespace BankingControlPlane
open Ledger

/-- A bank at work: its state, how many random ids it drew, and the receipts it created. -/
structure Teller where
  bank : MockBank
  drawn : Nat
  created : List (Order × Receipt) := []

namespace Teller

/-- The answer to the next call. -/
def answer (env : Env) (t : Teller) (o : Order) : Except BankExn Receipt :=
  (t.bank.createPix env t.drawn o).1

/-- One call; a receipt is created when the call leaves one under a key that had none. -/
def serve (env : Env) (t : Teller) (o : Order) : Teller :=
  let after := t.bank.createPix env t.drawn o
  { bank := after.2.1
    drawn := after.2.2
    created := match t.bank.payment o.idempotencyKey, after.2.1.payment o.idempotencyKey with
      | none, some receipt => t.created ++ [(o, receipt)]
      | _, _ => t.created }

def run (env : Env) (t : Teller) (orders : List Order) : Teller := orders.foldl (serve env) t

/-- What a created receipt took: the amount it states, from the account of its order. -/
def move (c : Order × Receipt) : String × ℚ := (c.1.sourceAccount, (Decimal.ofStr c.2.amount).value)

end Teller

/-- Balances, history and book are the opening ones with the created receipts applied. -/
structure Conserves (opening : MockBank) (t : Teller) : Prop where
  balances : Balanced opening.worth t.bank.worth (t.created.map Teller.move)
  solvent : Solvent t.bank.worth
  paidBefore : ∀ r, r ∈ t.bank.paidBefore ↔
    r ∈ opening.paidBefore ∨ ∃ c ∈ t.created, c.2.recipientId = r
  book : t.bank.payments = opening.payments ++ t.created.map fun c => ⟨c.1.idempotencyKey, c.2⟩

/-- The call recorded exactly this receipt, under a key that had none. -/
def NewRow (t after : Teller) (o : Order) (r : Receipt) : Prop :=
  t.bank.payment o.idempotencyKey = none ∧
    after.bank.payments = t.bank.payments ++ [⟨o.idempotencyKey, r⟩]

/-- What a call may do to the bank, by its answer. -/
def CleanCall (env : Env) (t : Teller) (o : Order) : Prop :=
  (∀ existing, t.bank.payment o.idempotencyKey = some existing →
    t.answer env o = .ok existing ∧ (t.serve env o).bank = t.bank) ∧
  match t.answer env o with
  | .error (.error _) =>
    (t.serve env o).bank.accounts = t.bank.accounts ∧
      (t.serve env o).bank.paidBefore = t.bank.paidBefore ∧
      (t.serve env o).bank.payments = t.bank.payments
  | .error (.timeout _) => ∃ r, NewRow t (t.serve env o) o r
  | .ok r => t.bank.payment o.idempotencyKey = some r ∨ NewRow t (t.serve env o) o r

/-! ## One call -/

/-- The three things a call does: it finds the key, it refuses, or it creates a receipt. -/
theorem serve_cases (env : Env) (t : Teller) (o : Order) :
    (∃ r, t.bank.payment o.idempotencyKey = some r ∧ t.answer env o = .ok r ∧ t.serve env o = t) ∨
    (t.bank.payment o.idempotencyKey = none ∧
      (∃ message, t.answer env o = .error (.error message)) ∧ t.serve env o = t) ∨
    (t.bank.payment o.idempotencyKey = none ∧ t.bank.refusal o = none ∧
      (t.answer env o = .ok (o.receipt env t.drawn) ∨
        ∃ message, t.answer env o = .error (.timeout message)) ∧
      t.serve env o =
        { bank := (t.bank.debit o).record o.idempotencyKey (o.receipt env t.drawn)
          drawn := t.drawn + 2
          created := t.created ++ [(o, o.receipt env t.drawn)] }) := by
  obtain ⟨bank, drawn, created⟩ := t
  unfold Teller.answer Teller.serve MockBank.createPix
  dsimp only
  cases hkey : bank.payment o.idempotencyKey with
  | some r =>
    exact Or.inl ⟨r, rfl, rfl, rfl⟩
  | none =>
    cases hrefusal : bank.refusal o with
    | some message =>
      refine Or.inr (Or.inl ⟨rfl, ⟨message, rfl⟩, ?_⟩)
      dsimp only
      rw [hkey]
    | none =>
      refine Or.inr (Or.inr ⟨rfl, rfl, ?_, ?_⟩)
      · dsimp only
        split_ifs
        · exact Or.inr ⟨_, rfl⟩
        · exact Or.inl rfl
      · dsimp only
        rw [MockBank.payment_record, if_pos rfl]

theorem record_payments {b : MockBank} {key : String} (h : b.payment key = none) (r : Receipt) :
    (b.record key r).payments = b.payments ++ [⟨key, r⟩] := by
  rw [MockBank.payment, Option.map_eq_none_iff, Keyed.find_eq_none] at h
  exact Keyed.upsert_new Payment.key h

theorem newRow_of_serve {env : Env} {t : Teller} {o : Order} {r : Receipt}
    (hkey : t.bank.payment o.idempotencyKey = none)
    (hserve : (t.serve env o).bank = (t.bank.debit o).record o.idempotencyKey r) :
    NewRow t (t.serve env o) o r := by
  refine ⟨hkey, ?_⟩
  rw [hserve, record_payments, MockBank.debit_payments]
  rw [MockBank.payment_debit]
  exact hkey

theorem clean_call (env : Env) (t : Teller) (o : Order) : CleanCall env t o := by
  unfold CleanCall
  rcases serve_cases env t o with
    ⟨r, hkey, hanswer, hserve⟩ | ⟨hkey, ⟨message, hanswer⟩, hserve⟩ | ⟨hkey, -, hanswer, hserve⟩
  · rw [hanswer, hserve]
    refine ⟨fun existing hexisting => ?_, Or.inl hkey⟩
    rw [hkey] at hexisting
    exact ⟨congrArg _ (Option.some.inj hexisting), rfl⟩
  · rw [hanswer, hserve]
    refine ⟨fun existing hexisting => ?_, rfl, rfl, rfl⟩
    rw [hkey] at hexisting
    cases hexisting
  · have hrecords := newRow_of_serve hkey (congrArg Teller.bank hserve)
    refine ⟨fun existing hexisting => ?_, ?_⟩
    · rw [hkey] at hexisting
      cases hexisting
    · rcases hanswer with hanswer | ⟨message, hanswer⟩
      · rw [hanswer]
        exact Or.inr hrecords
      · rw [hanswer]
        exact ⟨_, hrecords⟩

/-- A created receipt states the amount of its order. -/
theorem move_receipt (env : Env) (o : Order) (drawn : Nat) :
    Teller.move (o, o.receipt env drawn) = o.move := by
  unfold Teller.move Order.move Order.receipt
  rw [Decimal.ofStr_str]

/-- One call conserves. -/
theorem Conserves.serve {opening : MockBank} {t : Teller} (h : Conserves opening t) (env : Env)
    (o : Order) : Conserves opening (t.serve env o) := by
  rcases serve_cases env t o with ⟨-, -, -, hserve⟩ | ⟨-, -, hserve⟩ | ⟨hkey, hrefusal, -, hserve⟩
  · rw [hserve]
    exact h
  · rw [hserve]
    exact h
  · obtain ⟨-, v, hv, hcovered⟩ := MockBank.refusal_eq_none hrefusal
    rw [hserve]
    refine ⟨?_, ?_, ?_, ?_⟩
    · rw [List.map_append, List.map_singleton, move_receipt, MockBank.worth_record,
        MockBank.worth_debit]
      exact h.balances.debit o.move
    · rw [MockBank.worth_record, MockBank.worth_debit]
      apply h.solvent.debit
      intro w hw
      rw [show t.bank.worth o.move.1 = some v from hv] at hw
      exact Option.some.inj hw ▸ hcovered
    · intro r
      have hexists : (t.bank.worth o.sourceAccount).isSome := by
        rw [hv]
        rfl
      rw [show ((t.bank.debit o).record o.idempotencyKey (o.receipt env t.drawn)).paidBefore =
        (t.bank.debit o).paidBefore from rfl, MockBank.mem_paidBefore_debit hexists, h.paidBefore r,
        or_assoc]
      simp only [List.mem_append, List.mem_singleton, or_and_right, exists_or, exists_eq_left]
      rfl
    · rw [record_payments, MockBank.debit_payments, h.book, List.map_append, List.append_assoc]
      · rfl
      · rw [MockBank.payment_debit]
        exact hkey

theorem Conserves.run {opening : MockBank} {t : Teller} (h : Conserves opening t) (env : Env)
    (orders : List Order) : Conserves opening (t.run env orders) := by
  induction orders generalizing t with
  | nil => exact h
  | cons o orders ih => exact ih (h.serve env o)

/-- **After any sequence of payments the accounts, the history and the book are the opening ones with
the created receipts applied, and the next call is clean.** -/
theorem bank_conserves (env : Env) (opening : MockBank) (drawn : Nat) (hopening : Solvent opening.worth)
    (orders : List Order) :
    Conserves opening (Teller.run env ⟨opening, drawn, []⟩ orders) ∧
      ∀ o, CleanCall env (Teller.run env ⟨opening, drawn, []⟩ orders) o := by
  have hstart : Conserves opening ⟨opening, drawn, []⟩ := by
    refine ⟨Balanced.start _, hopening, fun r => ?_, ?_⟩
    · simp
    · simp
  exact ⟨hstart.run env orders, clean_call env _⟩

/-- A first payment, the same key for another recipient, and one above what is left. -/
def sampleOrders : List Order :=
  [⟨"key_1", "checking_001", "contact_joao", money100⟩,
    ⟨"key_1", "checking_001", "contact_maria", money200⟩,
    ⟨"key_2", "checking_001", "contact_maria", ⟨.cents 250000, by decide⟩⟩,
    ⟨"key_3", "checking_001", "contact_maria", money10013⟩]

theorem solvent_sample : Solvent ({} : MockBank).worth := by
  intro a v hv
  obtain ⟨account, hfind, rfl⟩ := Option.map_eq_some_iff.mp hv
  have hmem := Keyed.mem_of_find Account.id hfind
  obtain rfl := List.mem_singleton.mp hmem
  rw [Decimal.value_cents]
  norm_num

theorem bank_conserves_sample :
    Conserves {} (Teller.run (sampleEnv noon) ⟨{}, 0, []⟩ sampleOrders) ∧
      ∀ o, CleanCall (sampleEnv noon) (Teller.run (sampleEnv noon) ⟨{}, 0, []⟩ sampleOrders) o :=
  bank_conserves (sampleEnv noon) {} 0 solvent_sample sampleOrders

example : (Teller.run (sampleEnv noon) ⟨{}, 0, []⟩ sampleOrders).created.map
    (fun c => (c.1.idempotencyKey, c.2.amount)) = [("key_1", "100.00"), ("key_3", "100.13")] := by
  decide +kernel

end BankingControlPlane
