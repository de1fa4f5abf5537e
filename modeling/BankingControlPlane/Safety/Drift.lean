import BankingControlPlane.Plane.Balances
import BankingControlPlane.Plane.Sample
import BankingControlPlane.Workers.Tables
import Mathlib.Data.List.Perm.Basic

/-!
# A bank's balances and the shared book

Any number of calls of `PgBank.create_pix`, each through one of any number of bank objects over the
same table, step after step in any order.

* `bankCalls` : the calls; `object` says which bank object each goes through;
* `rowsInserted`, `insertsLost` : the calls whose INSERT wrote a row, and those whose INSERT met one;
* `Stage` : how far a call has come; `Afloat` : every balance is the opening one less what the calls
  that have debited it took, whether their row is written, lost or still to come (`Afloat.exec`);
* `AtRest` : no call through an object is in flight; `balances_match_book` : then its balances match
  the rows its calls inserted exactly when none of its INSERTs met a row.
-/

namespace BankingControlPlane
open Effects Ledger

abbrev BankPool := Pool Site Statement Exn (Except BankExn Receipt)

/-- Each call is given an order; none has begun. -/
def bankCalls (orders : Nat → Order) (s : Site) : BankPool where
  shared := s
  threads t := pgCreatePix (orders t)

/-! ## How far a call has come -/

/-- After the INSERT: the row is read again. -/
def pgStored (order : Order) (receipt : Receipt) : Worker (Except BankExn Receipt) := do
  let stored ← ask (.payment order.idempotencyKey)
  if order.timesOut then return .error (.timeout "the bank did not answer")
  else return .ok (stored.getD receipt)

/-- After the debit: the row is inserted. -/
def pgCharged (order : Order) (receipt : Receipt) : Worker (Except BankExn Receipt) := do
  table (.insert order.idempotencyKey receipt)
  pgStored order receipt

/-- After the look-up found nothing: the checks and the debit. -/
def pgLooked (order : Order) : Worker (Except BankExn Receipt) := do
  match ← table (.charge order) with
  | .error e => return .error e
  | .ok receipt => pgCharged order receipt

inductive Stage (order : Order) : Worker (Except BankExn Receipt) → Prop
  | waiting : Stage order (pgCreatePix order)
  | looked : Stage order (pgLooked order)
  | charged (receipt : Receipt) (hamount : receipt.amount = order.amount.val.str) :
    Stage order (pgCharged order receipt)
  | stored (receipt : Receipt) : Stage order (pgStored order receipt)
  | done (answer : Except BankExn Receipt) : Stage order (.ret answer)

/-- The receipt a call is about to insert. -/
def aboutToInsert : Worker (Except BankExn Receipt) → Option (String × Receipt)
  | .call (.inr (.insert key receipt)) _ => some (key, receipt)
  | _ => none

@[simp] theorem aboutToInsert_waiting (order : Order) : aboutToInsert (pgCreatePix order) = none := rfl

@[simp] theorem aboutToInsert_looked (order : Order) : aboutToInsert (pgLooked order) = none := rfl

@[simp] theorem aboutToInsert_charged (order : Order) (receipt : Receipt) :
    aboutToInsert (pgCharged order receipt) = some (order.idempotencyKey, receipt) := rfl

@[simp] theorem aboutToInsert_stored (order : Order) (receipt : Receipt) :
    aboutToInsert (pgStored order receipt) = none := rfl

@[simp] theorem aboutToInsert_done (answer : Except BankExn Receipt) :
    aboutToInsert (.ret answer) = none := rfl

/-- The row the next step of call `t` writes, if it is an INSERT under a key without one. -/
def rowAt (p : BankPool) (t : Nat) : List (Nat × Receipt) :=
  match aboutToInsert (p.threads t) with
  | some (key, receipt) => if p.shared.payment key = none then [(t, receipt)] else []
  | none => []

/-- The call itself, if its next step is an INSERT under a key that has a row. -/
def lostAt (p : BankPool) (t : Nat) : List Nat :=
  match aboutToInsert (p.threads t) with
  | some (key, _) => if p.shared.payment key = none then [] else [t]
  | none => []

section Runs
variable (env : Env) (kind : StoreKind) (object : Nat → Nat) (orders : Nat → Order)

/-- The rows written along a schedule, each with the call that inserted it. -/
def rowsInserted (p : BankPool) (schedule : List Nat) : List (Nat × Receipt) :=
  Pool.along (tables env kind .pg object) rowAt p schedule

/-- The calls whose INSERT met a row. -/
def insertsLost (p : BankPool) (schedule : List Nat) : List Nat :=
  Pool.along (tables env kind .pg object) lostAt p schedule

/-- What the calls through object `o`, among these, took from its accounts. -/
def taken (o : Nat) (calls : List Nat) : List (String × ℚ) :=
  (calls.filter fun t => object t = o).map fun t => (orders t).move

/-- Every call is at some stage, and every balance is the opening one less what was debited: by the
calls whose rows are written, by those whose INSERT met a row, and by those about to insert. -/
structure Afloat (opening : Site) (p : BankPool) (won : List (Nat × Receipt)) (lost pending : List Nat) :
    Prop where
  stage : ∀ t, Stage (orders t) (p.threads t)
  inFlight : ∀ t, t ∈ pending ↔ (aboutToInsert (p.threads t)).isSome
  nodup : pending.Nodup
  balanced : ∀ o, Balanced (opening.memory o).worth (p.shared.memory o).worth
    (taken object orders o (won.map Prod.fst ++ lost ++ pending))
  exists_account : ∀ t ∈ lost ++ pending,
    ((opening.memory (object t)).worth (orders t).sourceAccount).isSome
  amounts : ∀ row ∈ won, row.2.amount = (orders row.1).amount.val.str
  book : p.shared.world.bank.payments =
    opening.world.bank.payments ++ won.map fun row => ⟨(orders row.1).idempotencyKey, row.2⟩

variable {env kind object orders} {opening : Site} {p : BankPool} {won : List (Nat × Receipt)}
  {lost pending : List Nat}

theorem taken_snoc (o : Nat) (calls : List Nat) (t : Nat) :
    taken object orders o (calls ++ [t]) =
      taken object orders o calls ++ if object t = o then [(orders t).move] else [] := by
  unfold taken
  rw [List.filter_append, List.map_append]
  by_cases ho : object t = o
  · rw [if_pos ho, List.filter_cons_of_pos (by simpa using ho)]
    rfl
  · rw [if_neg ho, List.filter_cons_of_neg (by simpa using ho)]
    rfl

theorem taken_perm (o : Nat) {xs ys : List Nat} (h : xs.Perm ys) :
    (taken object orders o xs).Perm (taken object orders o ys) :=
  (h.filter _).map _

theorem stage_update {threads : Nat → Worker (Except BankExn Receipt)}
    (h : ∀ u, Stage (orders u) (threads u)) {t : Nat} {prog : Worker (Except BankExn Receipt)}
    (hprog : Stage (orders t) prog) : ∀ u, Stage (orders u) (Function.update threads t prog u) := by
  intro u
  by_cases hu : u = t
  · subst hu
    rw [Function.update_self]
    exact hprog
  · rw [Function.update_of_ne hu]
    exact h u

/-- A step that neither debits nor inserts. -/
theorem Afloat.moveOn (h : Afloat object orders opening p won lost pending) {t : Nat}
    {prog : Worker (Except BankExn Receipt)} {s : Site}
    (hbefore : aboutToInsert (p.threads t) = none) (hafter : aboutToInsert prog = none)
    (hstage : Stage (orders t) prog) (hworth : ∀ o, (s.memory o).worth = (p.shared.memory o).worth)
    (hbook : s.world.bank.payments = p.shared.world.bank.payments) :
    Afloat object orders opening ⟨s, Function.update p.threads t prog⟩ won lost pending where
  stage := stage_update h.stage hstage
  inFlight u := by
    dsimp only
    by_cases hu : u = t
    · subst hu
      rw [Function.update_self, h.inFlight, hbefore, hafter]
    · rw [Function.update_of_ne hu]
      exact h.inFlight u
  nodup := h.nodup
  balanced o := by
    change Balanced _ (s.memory o).worth _
    rw [hworth]
    exact h.balanced o
  exists_account := h.exists_account
  amounts := h.amounts
  book := hbook.trans h.book

/-- The debit: the call is about to insert. -/
theorem Afloat.charge (h : Afloat object orders opening p won lost pending) {t : Nat}
    (ht : p.threads t = pgLooked (orders t))
    (hrefusal : (p.shared.memory (object t)).refusal (orders t) = none) {s : Site} {receipt : Receipt}
    (hamount : receipt.amount = (orders t).amount.val.str)
    (hmemory : s.memory = Function.update p.shared.memory (object t)
      ((p.shared.memory (object t)).debit (orders t)))
    (hbook : s.world.bank.payments = p.shared.world.bank.payments) :
    Afloat object orders opening ⟨s, Function.update p.threads t (pgCharged (orders t) receipt)⟩
      won lost (pending ++ [t]) := by
  have hnot : t ∉ pending := by
    rw [h.inFlight, ht]
    simp
  refine ⟨stage_update h.stage (.charged receipt hamount), fun u => ?_, ?_, fun o => ?_, ?_,
    h.amounts, hbook.trans h.book⟩
  · dsimp only
    by_cases hu : u = t
    · subst hu
      simp
    · rw [Function.update_of_ne hu, List.mem_append, List.mem_singleton, h.inFlight]
      simp [hu]
  · exact List.nodup_append.mpr ⟨h.nodup, List.nodup_singleton t, by
      intro a ha b hb
      rw [List.mem_singleton.mp hb]
      rintro rfl
      exact hnot ha⟩
  · change Balanced _ (s.memory o).worth _
    rw [hmemory, ← List.append_assoc, taken_snoc]
    by_cases ho : object t = o
    · subst ho
      rw [Function.update_self, if_pos rfl, MockBank.worth_debit]
      exact (h.balanced (object t)).debit _
    · rw [Function.update_of_ne (Ne.symm ho), if_neg ho, List.append_nil]
      exact h.balanced o
  · obtain ⟨-, v, hv, -⟩ := MockBank.refusal_eq_none hrefusal
    intro u hu
    rw [← List.append_assoc] at hu
    rcases List.mem_append.mp hu with hu | hu
    · exact h.exists_account u hu
    · obtain rfl := List.mem_singleton.mp hu
      exact (h.balanced (object u)).isSome (by rw [hv]; rfl)

/-- The call that inserts is no longer about to. -/
theorem Afloat.flown (h : Afloat object orders opening p won lost pending) {t : Nat}
    {prog : Worker (Except BankExn Receipt)} (hprog : aboutToInsert prog = none) (u : Nat) :
    u ∈ pending.erase t ↔ (aboutToInsert (Function.update p.threads t prog u)).isSome := by
  rw [h.nodup.mem_erase_iff, h.inFlight]
  by_cases hu : u = t
  · subst hu
    simp [hprog]
  · rw [Function.update_of_ne hu]
    simp [hu]

/-- A call whose debit is made is about to insert. -/
theorem Afloat.charged (h : Afloat object orders opening p won lost pending) {t : Nat} {receipt : Receipt}
    (ht : p.threads t = pgCharged (orders t) receipt) : t ∈ pending := by
  rw [h.inFlight, ht]
  rfl

/-- Moving a debit from one list to another changes no balance. -/
theorem Afloat.regroup (h : Afloat object orders opening p won lost pending) {calls : List Nat}
    (hperm : calls.Perm (won.map Prod.fst ++ lost ++ pending)) (o : Nat) :
    Balanced (opening.memory o).worth (p.shared.memory o).worth (taken object orders o calls) :=
  (h.balanced o).moved (taken_perm o hperm.symm)

/-- The INSERT of a call whose key has no row. -/
theorem Afloat.insertWon (h : Afloat object orders opening p won lost pending) {t : Nat}
    {receipt : Receipt} (ht : p.threads t = pgCharged (orders t) receipt)
    (hamount : receipt.amount = (orders t).amount.val.str) {s : Site}
    (hmemory : s.memory = p.shared.memory)
    (hbank : s.world.bank = p.shared.world.bank.insert (orders t).idempotencyKey receipt)
    (hrow : p.shared.payment (orders t).idempotencyKey = none) :
    Afloat object orders opening ⟨s, Function.update p.threads t (pgStored (orders t) receipt)⟩
      (won ++ [(t, receipt)]) lost (pending.erase t) := by
  have hcons : (t :: pending.erase t).Perm pending := (List.perm_cons_erase (h.charged ht)).symm
  refine ⟨stage_update h.stage (.stored receipt), h.flown rfl, h.nodup.erase t, fun o => ?_,
    fun u hu => ?_, fun row hmemrow => ?_, ?_⟩
  · change Balanced _ (s.memory o).worth _
    rw [hmemory, List.map_append, List.append_assoc, List.append_assoc]
    apply h.regroup
    rw [List.append_assoc]
    refine List.Perm.append_left _ ?_
    change (t :: (lost ++ pending.erase t)).Perm (lost ++ pending)
    exact List.perm_middle.symm.trans (List.Perm.append_left lost hcons)
  · refine h.exists_account u ?_
    rcases List.mem_append.mp hu with hu | hu
    · exact List.mem_append_left _ hu
    · exact List.mem_append_right _ (List.mem_of_mem_erase hu)
  · rcases List.mem_append.mp hmemrow with hold | hnew
    · exact h.amounts row hold
    · rw [List.mem_singleton.mp hnew]
      exact hamount
  · change s.world.bank.payments = _
    have hnone : p.shared.world.bank.payment (orders t).idempotencyKey = none := hrow
    rw [hbank, MockBank.insert, hnone, if_neg (by simp), MockBank.record, Keyed.upsert_new, h.book,
      List.map_append, List.append_assoc]
    · rfl
    · rwa [MockBank.payment, Option.map_eq_none_iff, Keyed.find_eq_none] at hnone

/-- The INSERT of a call whose key has a row by now: nothing is written, and the debit stays. -/
theorem Afloat.insertLost (h : Afloat object orders opening p won lost pending) {t : Nat}
    {receipt : Receipt} (ht : p.threads t = pgCharged (orders t) receipt) {s : Site}
    (hmemory : s.memory = p.shared.memory)
    (hbank : s.world.bank = p.shared.world.bank.insert (orders t).idempotencyKey receipt)
    (hrow : p.shared.payment (orders t).idempotencyKey ≠ none) :
    Afloat object orders opening ⟨s, Function.update p.threads t (pgStored (orders t) receipt)⟩
      won (lost ++ [t]) (pending.erase t) := by
  have hcons : (t :: pending.erase t).Perm pending := (List.perm_cons_erase (h.charged ht)).symm
  refine ⟨stage_update h.stage (.stored receipt), h.flown rfl, h.nodup.erase t, fun o => ?_,
    fun u hu => ?_, h.amounts, ?_⟩
  · change Balanced _ (s.memory o).worth _
    rw [hmemory]
    apply h.regroup
    rw [List.append_assoc, List.append_assoc, List.append_assoc]
    exact List.Perm.append_left _ (List.Perm.append_left lost hcons)
  · refine h.exists_account u ?_
    rw [List.append_assoc] at hu
    rcases List.mem_append.mp hu with hu | hu
    · exact List.mem_append_left _ hu
    · refine List.mem_append_right _ ?_
      rcases List.mem_cons.mp hu with rfl | hu
      · exact h.charged ht
      · exact List.mem_of_mem_erase hu
  · change s.world.bank.payments = _
    have hsome : (p.shared.world.bank.payment (orders t).idempotencyKey).isSome :=
      Option.isSome_iff_ne_none.mpr hrow
    rw [hbank, MockBank.insert, if_pos hsome]
    exact h.book

/-- A call that is not about to insert notes nothing. -/
theorem notes_quiet {t : Nat} (h : aboutToInsert (p.threads t) = none) :
    rowAt p t = [] ∧ lostAt p t = [] := by
  simp [rowAt, lostAt, h]

theorem worth_keep (s : Site) (o q : Nat) :
    ((s.keep (s.view .pg q) .pg q).memory o).worth = (s.memory o).worth := by
  by_cases ho : o = q
  · subst ho
    rw [show (s.keep (s.view .pg o) .pg o).memory = Function.update s.memory o (s.view .pg o).bank
      from rfl, Function.update_self]
    rfl
  · simp [Site.keep, ho]

/-- A step that reads the table changes no balance and no row. -/
theorem Afloat.read (h : Afloat object orders opening p won lost pending) {t : Nat} {key : String}
    {k : Option Receipt → Worker (Except BankExn Receipt)}
    (ht : p.threads t = .call (.inl (.payment key)) k) (hbefore : aboutToInsert (p.threads t) = none)
    (hafter : ∀ row, aboutToInsert (k row) = none ∧ Stage (orders t) (k row)) :
    Afloat object orders opening (p.step (tables env kind .pg object) t)
      (won ++ rowAt p t) (lost ++ lostAt p t) pending := by
  obtain ⟨hrow, hlost⟩ := notes_quiet hbefore
  rw [hrow, hlost, List.append_nil, List.append_nil, Pool.step_call _ ht]
  refine h.moveOn hbefore (hafter _).1 (hafter _).2 (fun o => ?_) ?_
  · exact worth_keep p.shared o (object t)
  · rfl

/-- One step of any call. -/
theorem Afloat.step (h : Afloat object orders opening p won lost pending) (env : Env)
    (kind : StoreKind) (t : Nat) :
    ∃ pending', Afloat object orders opening (p.step (tables env kind .pg object) t)
      (won ++ rowAt p t) (lost ++ lostAt p t) pending' := by
  generalize hprog : p.threads t = prog
  cases hprog ▸ h.stage t with
  | waiting =>
    refine ⟨_, h.read hprog (by rw [hprog]; rfl) fun row => ?_⟩
    cases row with
    | none => exact ⟨rfl, .looked⟩
    | some existing => exact ⟨rfl, .done _⟩
  | looked =>
    obtain ⟨hrow, hlost⟩ := notes_quiet (p := p) (t := t) (by rw [hprog]; rfl)
    rw [hrow, hlost, List.append_nil, List.append_nil]
    cases hrefusal : (p.shared.memory (object t)).refusal (orders t) with
    | some message =>
      have hanswer : (tables env kind .pg object).on t (.inr (.charge (orders t))) p.shared =
          (.error (.error message), p.shared) := by
        simp only [tables, serveTable, hrefusal]
      rw [Pool.step_call _ hprog, hanswer]
      exact ⟨pending, h.moveOn (by rw [hprog]; rfl) rfl (.done _) (fun o => rfl) rfl⟩
    | none =>
      have hanswer : (tables env kind .pg object).on t (.inr (.charge (orders t))) p.shared =
          (.ok ((orders t).receipt env p.shared.world.drawn),
            { p.shared with
              world := { p.shared.world with drawn := p.shared.world.drawn + 2 }
              memory := Function.update p.shared.memory (object t)
                ((p.shared.memory (object t)).debit (orders t)) }) := by
        simp only [tables, serveTable, hrefusal]
      rw [Pool.step_call _ hprog, hanswer]
      exact ⟨pending ++ [t], h.charge hprog hrefusal rfl rfl rfl⟩
  | charged receipt hamount =>
    have hnotes : aboutToInsert (p.threads t) = some ((orders t).idempotencyKey, receipt) := by
      rw [hprog]
      rfl
    refine ⟨pending.erase t, ?_⟩
    rw [Pool.step_call _ hprog]
    by_cases hrow : p.shared.payment (orders t).idempotencyKey = none
    · have hrowAt : rowAt p t = [(t, receipt)] := by simp [rowAt, hnotes, hrow]
      have hlostAt : lostAt p t = [] := by simp [lostAt, hnotes, hrow]
      rw [hrowAt, hlostAt, List.append_nil]
      exact h.insertWon hprog hamount rfl rfl hrow
    · have hrowAt : rowAt p t = [] := by simp [rowAt, hnotes, hrow]
      have hlostAt : lostAt p t = [t] := by simp [lostAt, hnotes, hrow]
      rw [hrowAt, hlostAt, List.append_nil]
      exact h.insertLost hprog rfl rfl hrow
  | stored receipt =>
    refine ⟨_, h.read hprog (by rw [hprog]; rfl) fun row => ?_⟩
    change aboutToInsert (if (orders t).timesOut then .ret _ else .ret _) = none ∧
      Stage (orders t) (if (orders t).timesOut then .ret _ else .ret _)
    by_cases hout : (orders t).timesOut = true
    · rw [if_pos hout]
      exact ⟨rfl, .done _⟩
    · rw [if_neg hout]
      exact ⟨rfl, .done _⟩
  | done answer =>
    obtain ⟨hrow, hlost⟩ := notes_quiet (p := p) (t := t) (by rw [hprog]; rfl)
    rw [hrow, hlost, List.append_nil, List.append_nil, Pool.step_ret _ hprog]
    exact ⟨pending, h⟩

theorem Afloat.exec (h : Afloat object orders opening p won lost pending) (env : Env)
    (kind : StoreKind) (schedule : List Nat) :
    ∃ pending', Afloat object orders opening (p.exec (tables env kind .pg object) schedule)
      (won ++ rowsInserted env kind object p schedule)
      (lost ++ insertsLost env kind object p schedule) pending' := by
  induction schedule generalizing p won lost pending with
  | nil =>
    refine ⟨pending, ?_⟩
    rw [rowsInserted, insertsLost, Pool.along, Pool.along, List.append_nil, List.append_nil]
    exact h
  | cons t ts ih =>
    obtain ⟨pending', hstep⟩ := h.step env kind t
    obtain ⟨pending'', hrest⟩ := ih hstep
    refine ⟨pending'', ?_⟩
    rw [rowsInserted, insertsLost, Pool.along, Pool.along, ← List.append_assoc, ← List.append_assoc]
    exact hrest

theorem afloat_start (object : Nat → Nat) (orders : Nat → Order) (s : Site) :
    Afloat object orders s (bankCalls orders s) [] [] [] where
  stage _ := .waiting
  inFlight t := by simp [bankCalls]
  nodup := List.nodup_nil
  balanced _ := Balanced.start _
  exists_account := by simp
  amounts := by simp
  book := by simp [bankCalls]

/-! ## At rest -/

/-- No call through object `o` is in flight: each has not begun or has answered. -/
def AtRest (object : Nat → Nat) (orders : Nat → Order) (p : BankPool) (o : Nat) : Prop :=
  ∀ t, object t = o → p.threads t = pgCreatePix (orders t) ∨ (p.result t).isSome

/-- What the rows inserted through an object took, by the amounts they state. -/
def bookMoves (object : Nat → Nat) (orders : Nat → Order) (o : Nat) (rows : List (Nat × Receipt)) :
    List (String × ℚ) :=
  (rows.filter fun row => object row.1 = o).map fun row =>
    ((orders row.1).sourceAccount, (Decimal.ofStr row.2.amount).value)

theorem bookMoves_eq {rows : List (Nat × Receipt)}
    (h : ∀ row ∈ rows, row.2.amount = (orders row.1).amount.val.str) (o : Nat) :
    bookMoves object orders o rows = taken object orders o (rows.map Prod.fst) := by
  unfold bookMoves taken
  rw [List.filter_map, List.map_map]
  apply List.map_congr_left
  intro row hrow
  change (_, _) = Order.move _
  rw [h row (List.mem_of_mem_filter hrow), Decimal.ofStr_str]
  rfl

/-- An INSERT of a call through object `o` finds no row under its key. -/
def FreshInsert (object : Nat → Nat) (o : Nat) (t : Nat) : {β : Type} → Statement β → Site → Prop
  | _, .inr (.insert key _), s => object t = o → s.payment key = none
  | _, _, _ => True

instance (object : Nat → Nat) (o t : Nat) {β : Type} (c : Statement β) (s : Site) :
    Decidable (FreshInsert object o t c s) :=
  match c with
  | .inr (.insert key _) => inferInstanceAs (Decidable (object t = o → s.payment key = none))
  | .inr (.charge _) => isTrue trivial
  | .inr (.answered _ _) => isTrue trivial
  | .inl _ => isTrue trivial

theorem next_fresh (object : Nat → Nat) (o : Nat) (p : BankPool) (t : Nat) :
    p.Next (FreshInsert object o) t ↔ ∀ u ∈ lostAt p t, object u ≠ o := by
  unfold Pool.Next lostAt
  cases p.threads t with
  | ret answer => simp [Pool.nextMeets, aboutToInsert]
  | raise e => simp [Pool.nextMeets, aboutToInsert]
  | call c k =>
    cases c with
    | inl c => simp [Pool.nextMeets, aboutToInsert, FreshInsert]
    | inr c =>
      cases c with
      | charge order => simp [Pool.nextMeets, aboutToInsert, FreshInsert]
      | answered order answer => simp [Pool.nextMeets, aboutToInsert, FreshInsert]
      | insert key receipt =>
        by_cases hrow : p.shared.payment key = none
        · simp [Pool.nextMeets, aboutToInsert, FreshInsert, hrow]
        · simp [Pool.nextMeets, aboutToInsert, FreshInsert, hrow]

theorem taken_eq_nil (orders : Nat → Order) {calls : List Nat} {o : Nat} :
    taken object orders o calls = [] ↔ ∀ t ∈ calls, object t ≠ o := by
  simp [taken]

theorem taken_append (o : Nat) (xs ys : List Nat) :
    taken object orders o (xs ++ ys) = taken object orders o xs ++ taken object orders o ys := by
  rw [taken, List.filter_append, List.map_append]
  rfl

/-- At rest, what went through the object was inserted or lost. -/
theorem Afloat.at_rest (h : Afloat object orders opening p won lost pending) {o : Nat}
    (hrest : AtRest object orders p o) : taken object orders o pending = [] := by
  rw [taken_eq_nil]
  rintro t hmem ho
  rw [h.inFlight] at hmem
  rcases hrest t ho with hwaiting | hdone
  · rw [hwaiting] at hmem
    cases hmem
  · unfold Pool.result at hdone
    cases hprog : p.threads t with
    | ret answer =>
      rw [hprog] at hmem
      cases hmem
    | raise e =>
      rw [hprog] at hmem
      cases hmem
    | call c k =>
      rw [hprog] at hdone
      cases hdone

/-- What the lost debits took shows on some account that exists, if there are any. -/
theorem Afloat.lost_shows (h : Afloat object orders opening p won lost pending) (o : Nat) :
    (∀ a, ((opening.memory o).worth a).isSome → spent (taken object orders o lost) a = 0) ↔
      ∀ t ∈ lost, object t ≠ o := by
  rw [← taken_eq_nil orders]
  constructor
  · intro hzero
    by_contra hne
    obtain ⟨move, hmove⟩ := List.exists_mem_of_ne_nil _ hne
    obtain ⟨t, hmem, rfl⟩ := List.mem_map.mp hmove
    obtain ⟨hlost, ho⟩ := List.mem_filter.mp hmem
    have ho : object t = o := by simpa using ho
    have hexists := h.exists_account t (List.mem_append_left _ hlost)
    rw [ho] at hexists
    have hpos : ∀ m ∈ taken object orders o lost, 0 < m.2 := by
      intro m hm
      obtain ⟨u, -, rfl⟩ := List.mem_map.mp hm
      exact (orders u).amount.value_pos
    have hspent := spent_pos hpos hmove
    rw [hzero (orders t).move.1 hexists] at hspent
    exact lt_irrefl _ hspent
  · intro hnil a _
    rw [hnil, spent_nil]

/-- At rest the balances match the rows inserted exactly when no INSERT was lost. -/
theorem Afloat.matches (h : Afloat object orders opening p won lost pending) {o : Nat}
    (hrest : AtRest object orders p o) :
    Balanced (opening.memory o).worth (p.shared.memory o).worth (bookMoves object orders o won) ↔
      ∀ t ∈ lost, object t ≠ o := by
  have hbalanced := h.balanced o
  rw [taken_append, taken_append, h.at_rest hrest, List.append_nil] at hbalanced
  rw [bookMoves_eq h.amounts, hbalanced.split]
  exact h.lost_shows o

end Runs

/-- At rest the balances of an object match its rows exactly when none of its INSERTs met a row. -/
theorem matches_iff_fresh {env : Env} {kind : StoreKind} {object : Nat → Nat} {orders : Nat → Order}
    {opening : Site} {schedule : List Nat} {o : Nat}
    (hrest : AtRest object orders
      ((bankCalls orders opening).exec (tables env kind .pg object) schedule) o) :
    Balanced (opening.memory o).worth
        (((bankCalls orders opening).exec (tables env kind .pg object) schedule).shared.memory o).worth
        (bookMoves object orders o
          (rowsInserted env kind object (bankCalls orders opening) schedule)) ↔
      (bankCalls orders opening).Meets (tables env kind .pg object) (FreshInsert object o) schedule := by
  obtain ⟨pending, h⟩ := (afloat_start object orders opening).exec env kind schedule
  rw [Pool.meets_iff_along _ (next_fresh object o)]
  exact h.matches hrest

/-- **When no call through a bank object is in flight, the table has the rows its calls and the others'
inserted, and its balances match those of its own calls exactly when none of their INSERTs met a
row.** -/
theorem balances_match_book (env : Env) (kind : StoreKind) (object : Nat → Nat) (orders : Nat → Order)
    (opening : Site) (schedule : List Nat) (o : Nat)
    (hrest : AtRest object orders
      ((bankCalls orders opening).exec (tables env kind .pg object) schedule) o) :
    ((bankCalls orders opening).exec (tables env kind .pg object) schedule).shared.world.bank.payments =
      opening.world.bank.payments ++
        (rowsInserted env kind object (bankCalls orders opening) schedule).map
          (fun row => ⟨(orders row.1).idempotencyKey, row.2⟩) ∧
    (Balanced (opening.memory o).worth
        (((bankCalls orders opening).exec (tables env kind .pg object) schedule).shared.memory o).worth
        (bookMoves object orders o
          (rowsInserted env kind object (bankCalls orders opening) schedule)) ↔
      (bankCalls orders opening).Meets (tables env kind .pg object) (FreshInsert object o) schedule) := by
  obtain ⟨pending, h⟩ := (afloat_start object orders opening).exec env kind schedule
  exact ⟨h.book, matches_iff_fresh hrest⟩

/-- Two calls with one key, each through an object of its own. -/
def sameKey (_ : Nat) : Order := ⟨"key_1", "checking_001", "contact_joao", money100⟩

def emptySite : Site := { world := {} }

/-- The two calls, one step each in turn. -/
def inTurn : List Nat := [0, 1, 0, 1, 0, 1, 0, 1]

abbrev raced : BankPool :=
  (bankCalls sameKey emptySite).exec (tables (sampleEnv noon) .postgres .pg id) inTurn

theorem raced_at_rest {t : Nat} (h : (raced.result t).isSome) : AtRest id sameKey raced t := by
  rintro u rfl
  exact Or.inr h

theorem balances_match_book_sample :
    raced.shared.world.bank.payments = emptySite.world.bank.payments ++
        (rowsInserted (sampleEnv noon) .postgres id (bankCalls sameKey emptySite) inTurn).map
          (fun row => ⟨(sameKey row.1).idempotencyKey, row.2⟩) ∧
    (Balanced (emptySite.memory 0).worth (raced.shared.memory 0).worth
        (bookMoves id sameKey 0
          (rowsInserted (sampleEnv noon) .postgres id (bankCalls sameKey emptySite) inTurn)) ↔
      (bankCalls sameKey emptySite).Meets (tables (sampleEnv noon) .postgres .pg id)
        (FreshInsert id 0) inTurn) :=
  balances_match_book (sampleEnv noon) .postgres id sameKey emptySite inTurn 0
    (raced_at_rest (by decide +kernel))

/-- Both calls debit, one row is written: the second object has paid for nothing. -/
theorem balance_drifts :
    AtRest id sameKey raced 1 ∧
    raced.shared.world.bank.payments.length = 1 ∧
    (raced.shared.memory 1).balance "checking_001" = .ok (.cents 244310) ∧
    ¬ Balanced (emptySite.memory 1).worth (raced.shared.memory 1).worth
        (bookMoves id sameKey 1
          (rowsInserted (sampleEnv noon) .postgres id (bankCalls sameKey emptySite) inTurn)) := by
  have hrest : AtRest id sameKey raced 1 := raced_at_rest (by decide +kernel)
  refine ⟨hrest, by decide +kernel, by decide +kernel, ?_⟩
  rw [matches_iff_fresh hrest]
  decide +kernel

end BankingControlPlane
