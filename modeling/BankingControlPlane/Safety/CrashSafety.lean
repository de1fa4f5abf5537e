import BankingControlPlane.Plane.Lookups
import BankingControlPlane.Plane.Sample
import BankingControlPlane.Plane.Sweeping

/-!
# One payment, across crashes

The plane runs over the durable table, any operation may be cut before or after any call, and what
comes next finds the table, the ledger and the bank's book as the cut left them.

* `Restarts` : operations, cuts, and a bank that comes back with its book;
* `Settled` : what a row's state says of the book; `Ended` : a terminal state is the last;
* `crash_safe` : at most one `create_pix` an intent, and states that tell what the bank did.
-/

namespace BankingControlPlane
open Effects

variable {env : Env} {kind : StoreKind}

/-- The plane may die at any call; the bank may come back with other balances, never another book. -/
def Restarts (w : World) : Step → Prop
  | .splice _ _ => False
  | .bank b => b.payments = w.bank.payments
  | _ => True

theorem Restarts.untampered {w : World} {s : Step} (h : Restarts w s) : Untampered .postgres w s := by
  cases s with
  | cut op n => rfl
  | splice id columns => exact h.elim
  | _ => trivial

theorem Restarts.sound {w : World} {s : Step} (h : Restarts w s) : s.Sound .postgres w :=
  h.untampered.sound

theorem MockBank.payment_congr {b b' : MockBank} (h : b.payments = b'.payments) (k : String) :
    b.payment k = b'.payment k := by
  rw [payment, h, payment]

/-! ## States and the book -/

/-- A row says `COMPLETED` only of a payment in the book, `FAILED` only of one that is not. -/
structure Settled (w : World) (r : Intent) : Prop where
  completed : r.state = .completed → (w.bank.payment r.id).isSome
  failed : r.state = .failed → w.bank.payment r.id = none

theorem Settled.saved {w : World} {r i : Intent} (hr : Settled w r) (hs : Saves env w (some r) i) :
    Settled w i := by
  cases hs with
  | @hop _ event target ok edge =>
    refine ⟨fun h => ?_, fun h => ?_⟩
    · have h : target = .completed := h
      rw [h] at edge
      cases hst : r.state <;> rw [hst] at edge <;> cases event <;> cases edge <;> exact ok.elim
    · have h : target = .failed := h
      rw [h] at edge
      cases hst : r.state <;> rw [hst] at edge <;> cases event <;> cases edge <;> exact ok
  | issued => exact ⟨fun h => (by cases h), fun h => by cases h⟩
  | settled paid => exact ⟨fun _ => (by simp [paid]), fun h => by cases h⟩
  | strengthened => exact ⟨hr.completed, hr.failed⟩
  | consented => exact ⟨hr.completed, hr.failed⟩
  | noted => exact ⟨hr.completed, hr.failed⟩

/-- The bank pays for an intent only while its row is `SUBMITTED`. -/
theorem payment_of_authorised {w : World} {o : Order} (ha : Authorised env w o) {k : String}
    (hk : ∀ r, w.row k = some r → r.state ≠ .submitted) :
    (serve env kind (.createPix o) w).2.bank.payment k = w.bank.payment k := by
  obtain ⟨r, ctx, token, seg, h⟩ := ha
  rcases MockBank.createPix_book env w.bank w.drawn o k with heq | ⟨rfl, -⟩
  · exact heq
  · exact absurd h.state (hk r h.row)

theorem payment_kept {w : World} {o : Order} {k : String} (hk : (w.bank.payment k).isSome) :
    ((serve env kind (.createPix o) w).2.bank.payment k).isSome := by
  rcases MockBank.createPix_book env w.bank w.drawn o k with heq | ⟨-, hnone⟩
  · exact heq ▸ hk
  · rw [hnone] at hk
    cases hk

theorem preserved_settled : Preserved env kind fun w => ∀ k r, w.row k = some r → Settled w r := by
  refine ⟨fun c w hc _ hI => ?_, fun w op _ hI k r hr => ⟨(hI k r hr).completed, (hI k r hr).failed⟩⟩
  cases c with
  | put i =>
    have hs : Saves env w (w.row i.id) i := hc
    intro k r hr
    simp only [serve, World.row_put, hs.saved] at hr
    split_ifs at hr with hk
    · obtain rfl := Option.some.inj hr
      cases hrow : w.row i.id with
      | none =>
        rw [hrow] at hs
        cases hs
        exact ⟨fun h => (by cases h), fun h => by cases h⟩
      | some r =>
        rw [hrow] at hs
        have hset := (hI _ r hrow).saved hs
        exact ⟨hset.completed, hset.failed⟩
    · exact ⟨(hI k r hr).completed, (hI k r hr).failed⟩
  | createPix o =>
    intro k r hr
    have hid : r.id = k := key_of_row hr
    refine ⟨fun h => payment_kept ((hI k r hr).completed h), fun h => ?_⟩
    rw [payment_of_authorised hc fun r' hr' => ?_]
    · exact (hI k r hr).failed h
    · rw [hid] at hr'
      obtain rfl := Option.some.inj (hr.symm.trans hr')
      rw [h]
      decide
  | _ => exact fun k r hr => ⟨(hI k r hr).completed, (hI k r hr).failed⟩

/-! ## The last state -/

/-- Once saved in a terminal state, the intent is in that state. -/
def Ended (h : List Obs) (r : Intent) : Prop :=
  ∀ i, .stored i ∈ h → i.id = r.id → terminal i.state = true → r.state = i.state

/-- No save takes a row out of a terminal state. -/
theorem Saves.terminal {w : World} {r i : Intent} (hs : Saves env w (some r) i)
    (hr : terminal r.state = true) : i.state = r.state := by
  cases hs with
  | @hop _ event target ok edge =>
    cases hst : r.state <;> rw [hst] at hr edge <;> cases event <;> cases edge <;>
      first
        | exact ok.elim
        | exact absurd hr (by decide)
  | issued state => rw [state] at hr; cases hr
  | settled paid edge => cases hst : r.state <;> rw [hst] at hr edge <;> cases edge <;> cases hr
  | strengthened => rfl
  | consented => rfl
  | noted => rfl

theorem Ended.saved {w : World} {r i : Intent} (hr : Ended w.history r)
    (hs : Saves env w (some r) i) : Ended (w.history ++ [.stored i]) i := by
  intro j hj hid hterm
  rcases List.mem_append.mp hj with hj | hj
  · have hstate := hr j hj (hid.trans hs.kept.1) hterm
    rw [← hstate]
    exact hs.terminal (hstate ▸ hterm)
  · rw [Obs.stored.inj (List.mem_singleton.mp hj)]

theorem preserved_ended :
    Preserved env kind fun w => ∀ k r, w.row k = some r → Ended w.history r := by
  refine preserved_rows (fun h o r ho hr j hj hid hterm => ?_)
    (fun w i hi hnone _ j hj hid _ => ?_) fun w r i _ _ hs hr => hr.saved hs
  · rcases List.mem_append.mp hj with hj | hj
    · exact hr j hj hid hterm
    · rw [← List.mem_singleton.mp hj] at ho
      simp [Obs.version, hid] at ho
  · rcases List.mem_append.mp hj with hj | hj
    · exact absurd hid (hi.unwritten hnone hj)
    · rw [Obs.stored.inj (List.mem_singleton.mp hj)]

/-! ## Asked once -/

/-- The bank is asked to pay for this intent. -/
def Obs.asks (id : String) : Obs → Bool
  | .asked o => o.idempotencyKey == id
  | _ => false

def AskedFirst (h : List Obs) : Obs → Prop
  | .asked o => ∀ o', .asked o' ∈ h → o'.idempotencyKey ≠ o.idempotencyKey
  | _ => True

theorem Authorised.askedFirst {o : Order} (h : Authorised env w o) : AskedFirst w.history (.asked o) := by
  obtain ⟨_, _, _, _, h⟩ := h
  exact h.unasked

theorem AskedFirst.asks {h : List Obs} {x : Obs} (hx : AskedFirst h x) (id : String)
    (ha : x.asks id = true) : ∀ y ∈ h, y.asks id = false := by
  intro y hy
  cases x with
  | asked o =>
    have hid : o.idempotencyKey = id := by simpa [Obs.asks] using ha
    cases y with
    | asked o' =>
      have hne := hx o' hy
      rw [hid] at hne
      simp [Obs.asks, hne]
    | _ => rfl
  | _ => cases ha

/-! ## Out of `UNKNOWN` -/

/-- The intent `id` is `UNKNOWN`, or has left it, while its payment stayed what it was. -/
def Reconciles (id : String) (paid : Option Receipt) (w : World) : Prop :=
  w.bank.payment id = paid ∧ ∃ r, w.row id = some r ∧
    (r.state = .unknown ∨ r.state = .completed ∨ r.state = .failed)

theorem Reconciles.saved {w : World} {r i : Intent} (hs : Saves env w (some r) i)
    (hr : r.state = .unknown ∨ r.state = .completed ∨ r.state = .failed) :
    i.state = .unknown ∨ i.state = .completed ∨ i.state = .failed := by
  cases hs with
  | @hop _ event target ok edge =>
    rcases hr with hst | hst | hst <;> rw [hst] at edge <;> cases event <;> cases edge
    · exact Or.inr (Or.inl rfl)
    · exact Or.inr (Or.inr rfl)
    · exact ok.elim
  | issued state => rw [state] at hr; simp at hr
  | settled => exact Or.inr (Or.inl rfl)
  | strengthened => exact hr
  | consented => exact hr
  | noted => exact hr

theorem preserved_reconciles (id : String) (paid : Option Receipt) :
    Preserved env kind (Reconciles id paid) := by
  refine ⟨fun c w hc _ ⟨hpaid, r, hr, hst⟩ => ?_, fun w op _ h => h⟩
  cases c with
  | put i =>
    have hs : Saves env w (w.row i.id) i := hc
    refine ⟨hpaid, ?_⟩
    simp only [serve, World.row_put, hs.saved]
    split_ifs with hk
    · rw [hk, hr] at hs
      exact ⟨i, rfl, Reconciles.saved hs hst⟩
    · exact ⟨r, hr, hst⟩
  | createPix o =>
    refine ⟨?_, r, hr, hst⟩
    rw [payment_of_authorised hc fun r' hr' => ?_]
    · exact hpaid
    · obtain rfl := Option.some.inj (hr.symm.trans hr')
      rcases hst with h | h | h <;> rw [h] <;> decide
  | _ => exact ⟨hpaid, r, hr, hst⟩

/-! ## Whole runs -/

/-- If `id` was `UNKNOWN` and is no more, it is `COMPLETED` if and only if the book holds its payment,
else `FAILED`. -/
def ByTheBook (id : String) (w w' : World) : Prop :=
  ∀ r r', w.row id = some r → r.state = .unknown → w'.row id = some r' → r'.state ≠ .unknown →
    (r'.state = .completed ∨ r'.state = .failed) ∧
      (r'.state = .completed ↔ (w'.bank.payment id).isSome) ∧
      w'.bank.payment id = w.bank.payment id

/-- One payment an intent, and what each state says of it. -/
structure CrashSafe (env : Env) (w : World) : Prop where
  askedOnce : ∀ id, w.history.countP (Obs.asks id) ≤ 1
  reconciled : ∀ (s : Step) ctx id, s.Does (.reconcile ctx id) →
    ByTheBook id w (s.next env .postgres w)
  failed : ∀ i, .stored i ∈ w.history → i.state = .failed → w.bank.payment i.id = none
  completed : ∀ i, .stored i ∈ w.history → i.state = .completed → (w.bank.payment i.id).isSome
  swept : ∀ s : Step, s.Does .sweep → Swept ((w.stranded .postgres).map Intent.id) w (s.next env .postgres w)
  sweptTwice : (exec env .postgres .sweep (exec env .postgres .sweep w).2).2 =
    (exec env .postgres .sweep w).2.note (.began .sweep)

/-- **A crash never costs a second payment.** -/
theorem crash_safe {w : World} (hw : Reach env .postgres (fun _ => True) Restarts w) :
    CrashSafe env w := by
  have hsettled := hw.preserved (fun _ _ hs => hs.sound) preserved_settled
    (fun bank _ k r hr => by simp [World.row] at hr) (fun w id columns hs _ => hs.elim)
    fun w b hs hI k r hr => ⟨fun h => by
      rw [MockBank.payment_congr hs]; exact (hI k r hr).completed h, fun h => by
      rw [MockBank.payment_congr hs]; exact (hI k r hr).failed h⟩
  have hended := hw.preserved (fun _ _ hs => hs.sound)
    (preserved_past preserved_ended (P := AskedFirst) (fun _ _ _ _ _ => trivial)
      (fun _ _ _ _ h => h.askedFirst) (fun _ _ => trivial)
      fun _ o _ => by cases o <;> trivial)
    (fun bank _ => ⟨fun k r hr => by simp [World.row] at hr, History.past_nil _⟩)
    (fun w id columns hs _ => hs.elim) fun w b _ hI => hI
  obtain ⟨hgood, hset⟩ := hsettled
  obtain ⟨-, hend, hpast⟩ := hended
  have hfinal : ∀ i, .stored i ∈ w.history → terminal i.state = true →
      ∃ r, w.row i.id = some r ∧ r.id = i.id ∧ r.state = i.state := by
    intro i hi hterm
    obtain ⟨r, hr⟩ := hgood.inv.written i hi
    have hid : r.id = i.id := key_of_row hr
    exact ⟨r, hr, hid, hend _ r hr i hi hid.symm hterm⟩
  refine ⟨fun id => ?_, fun s ctx id hs r r' hr hst hr' hmoved => ?_, fun i hi hst => ?_,
    fun i hi hst => ?_, fun s hs => ?_, sweep_sweep hgood⟩
  · exact History.Past.count_le_one (hpast.mono fun pre x hx ha => hx.asks id ha)
  · obtain ⟨hpaid, r₁, hr₁, hstate⟩ := (preserved_reconciles id (w.bank.payment id)).does hgood
      ⟨rfl, r, hr, Or.inl hst⟩ hs
    obtain rfl := Option.some.inj (hr'.symm.trans hr₁)
    have hleft := hstate.resolve_left hmoved
    have hbook := preserved_settled.does hgood hset hs id r' hr'
    have hid : r'.id = id := key_of_row hr'
    have hcompleted := hbook.completed
    have hfailed := hbook.failed
    rw [hid] at hcompleted hfailed
    refine ⟨hleft, ⟨hcompleted, fun hsome => hleft.resolve_right fun hf => ?_⟩, hpaid⟩
    rw [hfailed hf] at hsome
    cases hsome
  · obtain ⟨r, hr, hid, hstate⟩ := hfinal i hi (by rw [hst]; rfl)
    rw [← hid]
    exact (hset _ r hr).failed (hstate.trans hst)
  · obtain ⟨r, hr, hid, hstate⟩ := hfinal i hi (by rw [hst]; rfl)
    rw [← hid]
    exact (hset _ r hr).completed (hstate.trans hst)
  · rcases hs with rfl | ⟨n, rfl⟩
    · exact (swept_exec env w).1
    · exact swept_cut w n

/-! A confirm cut right after the bank was asked, a sweep, a reconcile: paid once, and `COMPLETED`. -/

def crashSteps : List Step := [
  .op (proposal "Renata" money200 renata_named),
  .cut (.confirm session "conf_000000000001") 15,
  .op .sweep,
  .op (.reconcile session "pix_000000000000"),
  .op (.confirm session "conf_000000000001")]

def crashWorld : World := after (sampleEnv noon) .postgres crashSteps { bank := {} }

theorem crashWorld_reached :
    Reach (sampleEnv noon) .postgres (fun _ => True) Restarts crashWorld :=
  (Reach.start {} trivial).after ⟨trivial, trivial, trivial, trivial, trivial, trivial⟩

theorem crash_safe_sample : CrashSafe (sampleEnv noon) crashWorld ∧
    crashWorld.history.countP (Obs.asks "pix_000000000000") = 1 ∧
    crashWorld.rows.map (fun i => (i.id, i.state)) = [("pix_000000000000", .completed)] :=
  ⟨crash_safe crashWorld_reached, by decide +kernel⟩

end BankingControlPlane
