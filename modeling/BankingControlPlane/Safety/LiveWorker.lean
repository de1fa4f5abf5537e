import BankingControlPlane.Safety.OnePayment

/-!
# The boot sweep against a live worker

One worker pays; any number of others sweep, reconcile and read, in any order of their calls and of the
bank's statements.

* `Guarded` : no save is made from a stale copy, and the payment is inserted while its row is `SUBMITTED`;
* `Desk.Borne` : what a worker may rely on; `FailedStays` : what a reply `FAILED` promises;
* `failed_stays` : on every schedule so guarded, it is kept;
* `swept_alive` : a sweep between the submission and the insert makes a payment of a `FAILED` intent.
-/

namespace BankingControlPlane
open Effects

variable {env : Env} {process : Nat → Nat} {jobs : Nat → Job} {t : Nat} {s s' : Site} {d d' : Desk}
  {β : Type} {c : Statement β}

/-- States a row gets to after `UNKNOWN`, and that one. -/
def past : State → Bool
  | .unknown | .completed | .failed | .reversed => true
  | _ => false

/-- Saves are in step, and a payment is inserted while its row is `SUBMITTED`. -/
def Guarded (_ : Nat) {β : Type} (c : Statement β) (s : Site) : Prop :=
  (∀ i ∈ saving c, InStep s i) ∧ ∀ key ∈ inserting c, (s.row key).map Intent.state = some .submitted

instance (t : Nat) {β : Type} (c : Statement β) (s : Site) : Decidable (Guarded t c s) :=
  inferInstanceAs (Decidable ((∀ i ∈ saving c, InStep s i) ∧
    ∀ key ∈ inserting c, (s.row key).map Intent.state = some .submitted))

/-- A `FAILED` intent has no payment. -/
structure Unpaid (s : Site) : Prop where
  ids : (s.world.rows.map Intent.id).Nodup
  failed : ∀ k r, s.row k = some r → r.state = .failed → s.payment k = none

/-- No row comes back from its last states, and no payment is made once its row is there; `idle` : none is
made at all. -/
structure Settling (idle : Prop) (s s' : Site) : Prop where
  past : ∀ k r, s.row k = some r → past r.state = true → ∃ r', s'.row k = some r' ∧ past r'.state = true
  failed : ∀ k r, s.row k = some r → r.state = .failed → ∃ r', s'.row k = some r' ∧ r'.state = .failed
  unpaid : ∀ k r, s.row k = some r → BankingControlPlane.past r.state = true → s.payment k = none →
    s'.payment k = none
  kept : ∀ k r, s.payment k = some r → s'.payment k = some r
  idle : idle → ∀ k, s.payment k = none → s'.payment k = none

theorem Settling.refl (idle : Prop) (s : Site) : Settling idle s s :=
  ⟨fun _ r h hp => ⟨r, h, hp⟩, fun _ r h hf => ⟨r, h, hf⟩, fun _ _ _ _ h => h, fun _ _ h => h, fun _ _ h => h⟩

theorem Settling.trans {idle : Prop} {s₁ s₂ s₃ : Site} (h : Settling idle s₁ s₂) (h' : Settling idle s₂ s₃) :
    Settling idle s₁ s₃ := by
  refine ⟨fun k r hr hp => ?_, fun k r hr hf => ?_, fun k r hr hp hn => ?_,
    fun k r hr => h'.kept k r (h.kept k r hr), fun hi k hn => h'.idle hi k (h.idle hi k hn)⟩
  · obtain ⟨r₂, hr₂, hp₂⟩ := h.past k r hr hp
    exact h'.past k r₂ hr₂ hp₂
  · obtain ⟨r₂, hr₂, hf₂⟩ := h.failed k r hr hf
    exact h'.failed k r₂ hr₂ hf₂
  · obtain ⟨r₂, hr₂, hp₂⟩ := h.past k r hr hp
    exact h'.unpaid k r₂ hr₂ hp₂ (h.unpaid k r hr hp hn)

/-- What lies on the desk of worker `t`, as far as the tables still bear it out; worker 0 is the one who
pays. -/
structure Desk.Borne (t : Nat) (d : Desk) (s : Site) : Prop where
  payer : d.payer = true → t = 0
  seen : ∀ id st, d.seen = some (id, st) → past st = true → ∃ r, s.row id = some r ∧ past r.state = true
  failed : ∀ id, d.seen = some (id, .failed) → ∃ r, s.row id = some r ∧ r.state = .failed
  booked : ∀ k, d.booked = some k → (s.payment k).isSome
  unpaid : ∀ k, d.unpaid = some k → s.payment k = none ∧
    (t = 0 ∨ ∃ r, s.row k = some r ∧ past r.state = true)

theorem Settling.mono {idle idle' : Prop} (h : Settling idle s s') (hi : idle' → idle) :
    Settling idle' s s' :=
  ⟨h.past, h.failed, h.unpaid, h.kept, fun hidle => h.idle (hi hidle)⟩

theorem Desk.Borne.settling (h : d.Borne t s) (hs : Settling (t = 0) s s') : d.Borne t s' := by
  refine ⟨h.payer, fun id st hseen hp => ?_, fun id hseen => ?_, fun k hk => ?_, fun k hk => ?_⟩
  · obtain ⟨r, hr, hpast⟩ := h.seen id st hseen hp
    exact hs.past id r hr hpast
  · obtain ⟨r, hr, hfailed⟩ := h.failed id hseen
    exact hs.failed id r hr hfailed
  · obtain ⟨r, hr⟩ := Option.isSome_iff_exists.mp (h.booked k hk)
    rw [hs.kept k r hr]
    rfl
  · obtain ⟨hnone, ht | ⟨r, hr, hp⟩⟩ := h.unpaid k hk
    · exact ⟨hs.idle ht k hnone, Or.inl ht⟩
    · exact ⟨hs.unpaid k r hr hp hnone, Or.inr (hs.past k r hr hp)⟩

theorem past_hop (a : State) (event : Hop) (b : State) (edge : TRANSITIONS a event = some b)
    (ha : past a = true) : past b = true := by
  cases a <;> cases ha <;> cases event <;> cases edge <;> rfl

theorem failed_hop (a : State) (event : Hop) (b : State) (edge : TRANSITIONS a event = some b)
    (ha : a = .failed) : b = .failed := by
  subst ha
  cases event <;> cases edge

theorem not_saving_of_inserting {key : String} (h : inserting c = some key) : saving c = none := by
  cases c with
  | inl c => cases h
  | inr c => rfl

/-! ## One deed -/

section Deed
variable (h : Deed .postgres .pg c s s' d d') (hA : Guarded t c s)
include h hA

/-- What survives every hop survives a deed. -/
theorem Deed.survives {P : State → Prop} (hP : ∀ a event b, TRANSITIONS a event = some b → P a → P b)
    {k : String} {r : Intent} (hr : s.row k = some r) (hp : P r.state) :
    ∃ r', s'.row k = some r' ∧ P r'.state := by
  rcases h.row k with heq | ⟨i, hsaves, -, rfl, hnew⟩
  · exact ⟨r, heq.trans hr, hp⟩
  · refine ⟨_, hnew, ?_⟩
    rw [World.saved_state]
    exact (hA.1 i hsaves).moves hr hP hp

/-- A new payment is worker 0's, of an intent that is `SUBMITTED`, whose row stays as it is. -/
theorem Deed.newly (hd : d.Borne t s) (k : String) :
    s'.payment k = s.payment k ∨
      t = 0 ∧ (s.row k).map Intent.state = some .submitted ∧ s'.row k = s.row k := by
  rcases h.payment k with heq | ⟨-, hmay, hinserts | hmock⟩
  · exact Or.inl heq
  · refine Or.inr ⟨hd.payer hmay.payer, hA.2 k hinserts, ?_⟩
    rcases h.row k with heq | ⟨i, hsaves, -⟩
    · exact heq
    · rw [not_saving_of_inserting hinserts] at hsaves
      cases hsaves
  · cases hmock

theorem Deed.settling (hd : d.Borne t s) : Settling (t ≠ 0) s s' := by
  refine ⟨fun k r hr hp => h.survives hA past_hop hr hp, fun k r hr hf => h.survives hA failed_hop hr hf,
    fun k r hr hp hnone => ?_, fun k r => h.kept, fun ht k hnone => ?_⟩
  · rcases h.newly hA hd k with heq | ⟨-, hsubmitted, -⟩
    · exact heq.trans hnone
    · rw [hr, Option.map_some, Option.some.injEq] at hsubmitted
      rw [hsubmitted] at hp
      cases hp
  · rcases h.newly hA hd k with heq | ⟨ht0, -⟩
    · exact heq.trans hnone
    · exact absurd ht0 ht

theorem Deed.unpaid (hs : Unpaid s) (hd : d.Borne t s) : Unpaid s' := by
  refine ⟨h.ids hs.ids, fun k r hr hf => ?_⟩
  rcases h.newly hA hd k with heq | ⟨-, hsubmitted, hrow⟩
  · rw [heq]
    rcases h.row k with heq | ⟨i, -, hmay, rfl, hnew⟩
    · exact hs.failed k r (heq ▸ hr) hf
    · obtain rfl := Option.some.inj (hnew.symm.trans hr)
      exact (hd.unpaid _ (hmay.failed ((World.saved_state _ _).symm.trans hf))).1
  · rw [← hrow, hr, Option.map_some, Option.some.injEq, hf] at hsubmitted
    cases hsubmitted

/-- A deed that pays nothing leaves what lay on the desk as it was. -/
theorem Deed.stands (hd : d.Borne t s) (hsame : ∀ k, s'.payment k = s.payment k) : d.Borne t s' := by
  have hset := h.settling hA hd
  exact hd.settling ⟨hset.past, hset.failed, hset.unpaid, hset.kept, fun _ k hnone => (hsame k).trans hnone⟩

theorem Deed.borne (hs : Unpaid s) (hd : d.Borne t s) : d'.Borne t s' := by
  have hset := h.settling hA hd
  have hstands := h.stands hA hd
  cases h with
  | idle same desk =>
    subst desk
    exact hstands same.payment
  | answered _ payments _ _ _ desk =>
    subst desk
    exact hstands (payment_of_payments payments)
  | @saw i same stored desk =>
    subst desk
    have hd' := hstands same.payment
    have hrow : s'.row i.id = some i :=
      (same.row _).trans (Keyed.find_of_mem Intent.id hs.ids stored)
    refine ⟨hd'.payer, fun id st hseen hp => ?_, fun id hseen => ?_, hd'.booked, hd'.unpaid⟩
    · obtain ⟨rfl, rfl⟩ := Prod.mk.inj (Option.some.inj hseen)
      exact ⟨i, hrow, hp⟩
    · obtain ⟨rfl, hstate⟩ := Prod.mk.inj (Option.some.inj hseen)
      exact ⟨i, hrow, hstate⟩
  | @saved i _ _ rows payments _ _ desk =>
    subst desk
    have hd' := hstands (payment_of_payments payments)
    have hrow : s'.row i.id = some (s.world.saved i) := by
      rw [Site.row, World.row, rows]
      exact (World.row_put _ _ _).trans (if_pos rfl)
    refine ⟨hd'.payer, fun id st hseen hp => ?_, fun id hseen => ?_, hd'.booked, hd'.unpaid⟩
    · obtain ⟨rfl, rfl⟩ := Prod.mk.inj (Option.some.inj hseen)
      exact ⟨_, hrow, (congrArg past (World.saved_state _ _)).trans hp⟩
    · obtain ⟨rfl, hstate⟩ := Prod.mk.inj (Option.some.inj hseen)
      exact ⟨_, hrow, (World.saved_state _ _).trans hstate⟩
  | noted _ payments _ _ _ desk =>
    have hd' := hstands (payment_of_payments payments)
    split_ifs at desk
    · subst desk
      exact ⟨hd'.payer, hd'.seen, hd'.failed, hd'.booked, hd'.unpaid⟩
    · subst desk
      exact hd'
  | found same _ desk =>
    subst desk
    have hd' := hstands same.payment
    exact ⟨hd'.payer, hd'.seen, hd'.failed, hd'.booked, hd'.unpaid⟩
  | @missed key same asks hnone desk =>
    subst desk
    have hd' := hstands same.payment
    refine ⟨hd'.payer, hd'.seen, hd'.failed, hd'.booked, fun k hk => ?_⟩
    obtain rfl := Option.some.inj hk
    refine ⟨(same.payment _).trans hnone, ?_⟩
    rcases asks with hmay | hunknown
    · exact Or.inl (hd.payer hmay.payer)
    · exact Or.inr (hd'.seen key .unknown hunknown rfl)
  | @inserted key _ _ _ there desk =>
    subst desk
    refine ⟨hd.payer, fun id st hseen hp => ?_, fun id hseen => ?_, fun k hk => ?_, fun k hk => by cases hk⟩
    · obtain ⟨r, hr, hpast⟩ := hd.seen id st hseen hp
      exact hset.past id r hr hpast
    · obtain ⟨r, hr, hfailed⟩ := hd.failed id hseen
      exact hset.failed id r hr hfailed
    · exact Option.some.inj hk ▸ there
  | asked mock => cases mock

end Deed

/-! ## Every guarded schedule -/

/-- Each worker puts up with what the others do, of which only worker 0 pays. -/
def watching : Contract Site where
  inv := Unpaid
  rely t := Settling (t = 0)
  guar t := Settling (t ≠ 0)

theorem watching_fits : watching.Fits :=
  ⟨fun _ => Settling.refl _, fun _ _ _ _ => Settling.trans,
    fun hne _ _ h => h.mono fun ht hu => hne (ht.trans hu.symm)⟩

/-- A job that asks the bank to pay. -/
def Job.pays : Job → Bool
  | .op (.confirm _ _) | .execute _ => true
  | _ => false

theorem borne_desk {j : Job} (hj : t ≠ 0 → j.pays = false) (s : Site) : j.desk.Borne t s := by
  have hpayer : j.desk.payer = j.pays := by
    cases j with
    | op o => cases o <;> rfl
    | execute copy => rfl
  refine ⟨fun h => ?_, fun id st h => ?_, fun id h => ?_, fun k h => ?_, fun k h => ?_⟩
  · by_contra ht
    rw [hpayer, hj ht] at h
    cases h
  all_goals
    cases j with
    | op o => cases o <;> cases h
    | execute copy => cases h

/-- What a worker has returned lies on its desk, as far as the tables still bear it out. -/
def Reported (t : Nat) (x : Except Exn Reply) (s : Site) : Prop := ∃ d, Reports x d ∧ d.Borne t s

theorem watching_sound (env : Env) (process : Nat → Nat) (hs : Unpaid s) (hjobs : ∀ t, t ≠ 0 → (jobs t).pays = false) :
    Sound (tables env .postgres .pg process) watching Guarded Reported (workers env .pg jobs s) := by
  refine ⟨hs, fun t => ?_, fun t x s s' ⟨d, hx, hd⟩ hset => ⟨d, hx, hd.settling hset⟩⟩
  refine Machine.keeps_abstract (Φ := pays .pg) (Desk.Borne t) (fun d s s' hd hset => hd.settling hset)
    (fun c K d s hd hs hA hc => ?_) (pays_job env .pg (jobs t)) (borne_desk (hjobs t) s)
  obtain ⟨d', hk, hdeed⟩ := pays_step env .postgres process t hc hd.booked
  exact ⟨hdeed.unpaid hA hs hd, hdeed.settling hA hd, d', hk, hdeed.borne hA hs hd⟩

/-- The intent a reply `FAILED` is about. -/
def failedOf : Option (Except Exn Reply) → Option String
  | some (.ok (.outcome o)) => if o.status = .failed then o.intentId else none
  | _ => none

theorem reply_of_failedOf {x : Option (Except Exn Reply)} {id : String} (h : failedOf x = some id) :
    ∃ o, x = some (.ok (.outcome o)) ∧ o.status = .failed ∧ o.intentId = some id := by
  unfold failedOf at h
  split at h
  · split_ifs at h with hstatus
    exact ⟨_, rfl, hstatus, h⟩
  · cases h

/-- Once an operation has replied `FAILED` of an intent, it is not paid and stays `FAILED`. -/
def FailedStays (m : Machine Site Statement) (p : Pool Site Statement Exn Reply) (ts : List Nat) : Prop :=
  ∀ earlier later, earlier ++ later = ts → ∀ t id, failedOf ((p.exec m earlier).result t) = some id →
    (p.exec m ts).shared.payment id = none ∧
      ∃ r, (p.exec m ts).shared.row id = some r ∧ r.state = .failed

/-- **On every guarded schedule of one worker who pays and any others who do not, a reply `FAILED` stays
true.** -/
theorem failed_stays (env : Env) (process : Nat → Nat) {jobs : Nat → Job} {s : Site} (hs : Unpaid s)
    (hjobs : ∀ t, t ≠ 0 → (jobs t).pays = false) {ts : List Nat}
    (hts : (workers env .pg jobs s).Meets (tables env .postgres .pg process) Guarded ts) :
    FailedStays (tables env .postgres .pg process) (workers env .pg jobs s) ts := by
  intro earlier later hsplit t id hreply
  obtain ⟨o, hresult, hstatus, hid⟩ := reply_of_failedOf hreply
  have hend := (watching_sound env process hs hjobs).exec watching_fits ts hts
  have hlate := Pool.result_exec (tables env .postgres .pg process) hresult later
  rw [← Pool.exec_append, hsplit] at hlate
  obtain ⟨d, hreports, hd⟩ := hend.returned hlate
  obtain ⟨id', hid', hseen⟩ := hreports hstatus
  obtain rfl := Option.some.inj (hid.symm.trans hid')
  obtain ⟨r, hr, hfailed⟩ := hd.failed id hseen
  exact ⟨hend.inv.failed id r hr hfailed, r, hr, hfailed⟩

/-! A confirm that dies, or only waits, after some of its calls, a sweep and a reconcile. -/

def bootJobs : Nat → Job
  | 0 => .op (.confirm session "conf_000000000001")
  | 1 => .op .sweep
  | _ => .op (.reconcile session "pix_000000000000")

def sweptAfter (calls : Nat) : List Nat :=
  List.replicate calls 0 ++ List.replicate 7 1 ++ List.replicate 9 2

theorem raceSite_unpaid : Unpaid raceSite :=
  ⟨by decide +kernel, fun k _ _ _ => raceSite_payment k⟩

theorem failed_stays_sample :
    FailedStays raceTables (raceOf bootJobs) (sweptAfter 14) ∧
    failedOf (((raceOf bootJobs).exec raceTables (sweptAfter 14)).result 2) = some "pix_000000000000" :=
  ⟨failed_stays (sampleEnv noon) _ raceSite_unpaid
    (fun t ht => by
      match t, ht with
      | 1, _ => rfl
      | _ + 2, _ => rfl)
    (by decide +kernel), by decide +kernel⟩

/-- The confirm goes on. -/
def goesOn : List Nat := List.replicate 10 0

/-- The sweep comes between the submission and the insert: a payment is made of an intent reported
`FAILED`, which becomes `COMPLETED`. -/
theorem swept_alive :
    failedOf (((raceOf bootJobs).exec raceTables (sweptAfter 15)).result 2) = some "pix_000000000000" ∧
    (((raceOf bootJobs).exec raceTables (sweptAfter 15 ++ goesOn)).shared.row "pix_000000000000").map
      Intent.state = some .completed ∧
    ¬ FailedStays raceTables (raceOf bootJobs) (sweptAfter 15 ++ goesOn) := by
  have hreply : failedOf (((raceOf bootJobs).exec raceTables (sweptAfter 15)).result 2) =
      some "pix_000000000000" := by decide +kernel
  have hpaid : (((raceOf bootJobs).exec raceTables (sweptAfter 15 ++ goesOn)).shared.payment
      "pix_000000000000").isSome = true := by decide +kernel
  refine ⟨hreply, by decide +kernel, fun h => ?_⟩
  obtain ⟨hnone, -⟩ := h (sweptAfter 15) goesOn rfl 2 _ hreply
  rw [hnone] at hpaid
  cases hpaid

end BankingControlPlane
