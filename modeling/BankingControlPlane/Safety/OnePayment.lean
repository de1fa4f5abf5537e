import BankingControlPlane.Plane.Sample
import BankingControlPlane.Workers.Deeds

/-!
# One intent, one payment

Any number of workers confirm and execute, each from its own copies, in any order of their calls and of
the bank's statements.

* `Job.Warrants` : on whose word a job pays; `Grows` : what every step keeps;
* `Desk.Backed` : what a worker has been answered still stands;
* `one_payment` : one receipt for a key, kept for ever, and the answer of every call that has one.
-/

namespace BankingControlPlane
open Effects

variable {env : Env} {kind : StoreKind} {bank : BankKind} {process : Nat → Nat} {jobs : Nat → Job}
  {s s' : Site} {d d' : Desk} {j : Job} {id : String}
  {β : Type} {c : Statement β}

/-- A consent to pay for `id` is in the ledger. -/
def Consenting (s : Site) (id : String) : Prop :=
  ∃ token confirmedBy session channel instant action,
    ⟨id, .confirmation token confirmedBy session channel instant action⟩ ∈ s.world.ledger

/-- Whose word a job has for a payment: an operation the ledger's, `_execute` that of its caller. -/
def Job.Warrants (s : Site) (id : String) : Job → Prop
  | .op _ => Consenting s id
  | .execute copy => copy.id = id

/-- Keys are unique, and what a call answered is what is stored. -/
structure Site.OneEach (s : Site) : Prop where
  keys : (s.world.bank.payments.map Payment.key).Nodup
  answered : ∀ o r, (o, .ok r) ∈ s.answers → s.payment o.idempotencyKey = some r

/-- No payment changes and no row of the ledger is lost. -/
structure Grows (s s' : Site) : Prop where
  payments : ∀ k r, s.payment k = some r → s'.payment k = some r
  ledger : ∀ e ∈ s.world.ledger, e ∈ s'.world.ledger

theorem Grows.refl (s : Site) : Grows s s := ⟨fun _ _ h => h, fun _ h => h⟩

theorem Grows.trans {s₁ s₂ s₃ : Site} (h : Grows s₁ s₂) (h' : Grows s₂ s₃) : Grows s₁ s₃ :=
  ⟨fun k r hp => h'.payments k r (h.payments k r hp), fun e he => h'.ledger e (h.ledger e he)⟩

theorem Job.Warrants.grows (h : j.Warrants s id) (hg : Grows s s') : j.Warrants s' id := by
  cases j with
  | op o =>
    obtain ⟨token, confirmedBy, session, channel, instant, action, he⟩ := h
    exact ⟨token, confirmedBy, session, channel, instant, action, hg.ledger _ he⟩
  | execute copy => exact h

/-- What lies on the desk of a job is so. -/
structure Desk.Backed (j : Job) (d : Desk) (s : Site) : Prop where
  recorder : d.recorder = true → ∃ o, j = .op o
  word : ∀ id, d.word = some id → j.Warrants s id
  booked : ∀ k, d.booked = some k → (s.payment k).isSome
  known : ∀ k r, d.known = some (k, r) → s.payment k = some r

theorem Desk.Backed.grows (h : d.Backed j s) (hg : Grows s s') : d.Backed j s' := by
  refine ⟨h.recorder, fun id hw => (h.word id hw).grows hg, fun k hk => ?_, fun k r hk => hg.payments k r (h.known k r hk)⟩
  obtain ⟨r, hr⟩ := Option.isSome_iff_exists.mp (h.booked k hk)
  rw [hg.payments k r hr]
  rfl

/-- Each job grows the tables, and pays on the word it has. -/
def paying (jobs : Nat → Job) : Contract Site where
  inv := Site.OneEach
  rely _ := Grows
  guar t s s' := Grows s s' ∧ ∀ k, s.payment k = none → s'.payment k ≠ none → (jobs t).Warrants s k

theorem paying_fits : (paying jobs).Fits :=
  ⟨fun _ => Grows.refl, fun _ _ _ _ => Grows.trans, fun _ _ _ h => h.1⟩

theorem Deed.grows (h : Deed kind bank c s s' d d') : Grows s s' := by
  refine ⟨fun k r => h.kept, fun e he => ?_⟩
  cases h with
  | idle same | saw same | found same | missed same => exact same.ledger ▸ he
  | saved _ _ _ _ ledger | answered _ _ ledger => exact ledger ▸ he
  | noted _ _ ledger => simp [ledger, he]
  | inserted _ _ paid | asked _ _ paid => exact paid.ledger ▸ he

theorem Deed.oneEach (h : Deed kind bank c s s' d d') (hs : s.OneEach) (hd : d.Backed j s) : s'.OneEach := by
  have hgrows := h.grows
  cases h with
  | idle same | saw same | found same | missed same =>
    exact ⟨same.payments ▸ hs.keys, fun o r ho => hgrows.payments _ r (hs.answered o r (same.answers ▸ ho))⟩
  | saved _ _ _ payments _ answers | noted _ payments _ answers =>
    exact ⟨payments ▸ hs.keys, fun o r ho => hgrows.payments _ r (hs.answered o r (answers ▸ ho))⟩
  | inserted _ _ paid | asked _ _ paid =>
    exact ⟨paid.keys hs.keys, fun o r ho => hgrows.payments _ r (hs.answered o r (paid.answers ▸ ho))⟩
  | answered _ payments _ answers known =>
    refine ⟨payments ▸ hs.keys, fun o r ho => ?_⟩
    rw [answers] at ho
    rcases List.mem_append.mp ho with ho | ho
    · exact hgrows.payments _ r (hs.answered o r ho)
    · obtain ⟨rfl, rfl⟩ := Prod.mk.inj (List.mem_singleton.mp ho)
      exact hgrows.payments _ r (hd.known _ r (known r rfl))

/-- A new payment is made on the word the job has. -/
theorem Deed.warrants (h : Deed kind bank c s s' d d') (hd : d.Backed j s) {k : String}
    (hnone : s.payment k = none) (hnew : s'.payment k ≠ none) : j.Warrants s k := by
  rcases h.payment k with heq | ⟨-, hmay, -⟩
  · exact absurd (heq.trans hnone) hnew
  · exact hd.word _ hmay.word

theorem Deed.backed (h : Deed kind bank c s s' d d') (hd : d.Backed j s) : d'.Backed j s' := by
  have hd' := hd.grows h.grows
  cases h with
  | idle _ desk | answered _ _ _ _ _ desk =>
    subst desk
    exact hd'
  | saw _ _ desk | saved _ _ _ _ _ _ desk =>
    subst desk
    exact ⟨hd'.recorder, hd'.word, hd'.booked, hd'.known⟩
  | @noted id e _ _ ledger _ recorder desk =>
    by_cases he : e.consents = true
    · rw [if_pos he] at desk
      subst desk
      refine ⟨hd'.recorder, fun k hk => ?_, hd'.booked, hd'.known⟩
      obtain ⟨o, rfl⟩ := hd.recorder (recorder he)
      obtain rfl := Option.some.inj hk
      cases e with
      | confirmation token confirmedBy session channel instant action =>
        exact ⟨token, confirmedBy, session, channel, instant, action, by simp [ledger]⟩
      | _ => cases he
    · rw [if_neg he] at desk
      subst desk
      exact hd'
  | found same paid desk =>
    subst desk
    refine ⟨hd'.recorder, hd'.word, hd'.booked, fun k r hk => ?_⟩
    obtain ⟨rfl, rfl⟩ := Prod.mk.inj (Option.some.inj hk)
    exact (same.payment _).trans paid
  | missed _ _ _ desk =>
    subst desk
    exact ⟨hd'.recorder, hd'.word, hd'.booked, hd'.known⟩
  | inserted _ _ _ there desk =>
    subst desk
    exact ⟨hd'.recorder, hd'.word, fun k hk => Option.some.inj hk ▸ there, hd'.known⟩
  | asked _ _ _ settles =>
    rcases settles with ⟨r, hr, rfl⟩ | ⟨-, rfl⟩ | rfl
    · refine ⟨hd'.recorder, hd'.word, hd'.booked, fun k r' hk => ?_⟩
      obtain ⟨rfl, rfl⟩ := Prod.mk.inj (Option.some.inj hk)
      exact hr
    · exact ⟨hd'.recorder, hd'.word, hd'.booked, hd'.known⟩
    · exact ⟨hd'.recorder, hd'.word, hd'.booked, hd'.known⟩

theorem backed_desk (j : Job) (s : Site) : j.desk.Backed j s := by
  cases j with
  | op o =>
    refine ⟨fun _ => ⟨o, rfl⟩, fun id h => ?_, fun k h => ?_, fun k r h => ?_⟩ <;> cases o <;> cases h
  | execute copy =>
    exact ⟨fun h => (by cases h), fun id h => Option.some.inj h, fun k h => (by cases h), fun k r h => by cases h⟩

/-- Every worker keeps the contract. -/
theorem paying_sound (env : Env) (kind : StoreKind) (bank : BankKind) (process : Nat → Nat) (jobs : Nat → Job)
    (hs : s.OneEach) :
    Sound (tables env kind bank process) (paying jobs) (fun _ _ _ _ => True)
      (fun _ _ _ => True) (workers env bank jobs s) := by
  refine ⟨hs, fun t => ?_, fun _ _ _ _ h _ => h⟩
  have habstract := Machine.keeps_abstract (m := tables env kind bank process) (C := paying jobs)
    (A := fun _ _ _ _ => True) (t := t) (Φ := pays bank) (fun d s => d.Backed (jobs t) s)
    (fun d s s' hd hg => hd.grows hg) (fun c K d s hd hs _ hc => ?_) (pays_job env bank (jobs t))
    (backed_desk (jobs t) s)
  · exact Prog.wp_mono (Machine.keeps_mono _ _ _ t) _ (fun _ _ _ => trivial) habstract
  · obtain ⟨d', hk, hdeed⟩ := pays_step env kind process t hc hd.booked
    exact ⟨hdeed.oneEach hs hd, ⟨hdeed.grows, fun k => hdeed.warrants hd⟩, d', hk, hdeed.backed hd⟩

/-- What holds of the payments at a moment of a schedule. -/
structure OnePayment (m : Machine Site Statement) (jobs : Nat → Job) (p : Pool Site Statement Exn Reply) :
    Prop where
  oneEach : p.shared.OneEach
  kept : ∀ us k r, p.shared.payment k = some r → (p.exec m us).shared.payment k = some r
  word : ∀ t k, p.shared.payment k = none → (p.step m t).shared.payment k ≠ none →
    (jobs t).Warrants p.shared k

/-- **One intent, one payment**, at every moment of every schedule: a key has one receipt, which stays;
what `create_pix` returns is stored; and an operation pays only for an intent whose consent the ledger
has. -/
theorem one_payment (env : Env) (kind : StoreKind) (bank : BankKind) (process : Nat → Nat) (jobs : Nat → Job)
    {s : Site} (hkeys : (s.world.bank.payments.map Payment.key).Nodup) (hanswers : s.answers = [])
    (ts : List Nat) :
    OnePayment (tables env kind bank process) jobs
      ((workers env bank jobs s).exec (tables env kind bank process) ts) := by
  have hs : s.OneEach := ⟨hkeys, fun o r ho => by rw [hanswers] at ho; cases ho⟩
  have hsound := (paying_sound env kind bank process jobs hs).exec paying_fits ts (Pool.meets_true _ _ _)
  refine ⟨hsound.inv, fun us k r hr => ?_, fun t k hnone hnew => ?_⟩
  · have hgrows := hsound.related paying_fits us (Pool.meets_true _ _ _) (T := Grows) Grows.refl Grows.trans
      fun t _ _ _ _ hg => hg.1
    exact hgrows.payments k r hr
  · have hnext := (Pool.meets_true (tables env kind bank process)
      ((workers env bank jobs s).exec (tables env kind bank process) ts) [t]).1
    rcases (hsound.step paying_fits t hnext).2 with heq | ⟨-, hword⟩
    · rw [heq] at hnew
      exact absurd hnone hnew
    · exact hword k hnone hnew

/-! A confirm and two workers with a copy of its intent as `AUTHORIZED`, each looking up the key before
any of them inserts it. -/

def raceSite : Site :=
  { world := (exec (sampleEnv noon) .postgres (proposal "Renata" money200 renata_named) { bank := {} }).2 }

theorem raceSite_payment (k : String) : raceSite.payment k = none := by
  have hempty : raceSite.world.bank.payments = [] := by decide +kernel
  rw [Site.payment, MockBank.payment, hempty]
  rfl

/-- Each worker is a process of its own. -/
def raceTables : Machine Site Statement := tables (sampleEnv noon) .postgres .pg fun t => t

def raceOf (jobs : Nat → Job) : Pool Site Statement Exn Reply := workers (sampleEnv noon) .pg jobs raceSite

def raceCopy : Intent :=
  { id := "pix_000000000000", action := payTo "contact_renata" money200, context := session,
    state := .authorized, createdAt := 0 }

def raceJobs : Nat → Job
  | 0 => .op (.confirm session "conf_000000000001")
  | _ => .execute raceCopy

def raceSchedule : List Nat :=
  List.replicate 15 0 ++ List.replicate 5 1 ++ List.replicate 5 2 ++ List.replicate 10 1 ++
    List.replicate 10 2 ++ List.replicate 10 0

theorem one_payment_sample :
    OnePayment raceTables raceJobs ((raceOf raceJobs).exec raceTables raceSchedule) ∧
    ((raceOf raceJobs).exec raceTables raceSchedule).shared.world.bank.payments.length = 1 ∧
    ((raceOf raceJobs).exec raceTables raceSchedule).shared.answers.map (fun a => a.2.toOption) =
      List.replicate 3 (((raceOf raceJobs).exec raceTables raceSchedule).shared.payment "pix_000000000000") :=
  ⟨one_payment (sampleEnv noon) .postgres .pg _ raceJobs (by decide +kernel) (by decide +kernel) raceSchedule,
    by decide +kernel, by decide +kernel⟩

end BankingControlPlane
