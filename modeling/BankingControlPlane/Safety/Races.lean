import BankingControlPlane.Safety.OnePayment

/-!
# Customer operations racing on one intent

Operations of any number of processes over one table of intents and one table of payments, each with its
own copies, in any order of their calls and of the bank's statements.

* `SavesInStep` : no save of the run is made from a stale copy;
* `Squared` : what states and payments say of each other; `Desk.Tied` : what a worker may rely on;
* `races_settle` : without a stale save, a last state is the last and tells whether a payment was made;
* `stale_cancel` : with one, a completed payment is `CANCELLED`.
-/

namespace BankingControlPlane
open Effects

variable {env : Env} {kind : StoreKind} {bank : BankKind} {process : Nat → Nat} {jobs : Nat → Job}
  {s s' : Site} {d d' : Desk} {β : Type} {c : Statement β}

/-- The states the claim of a last state is about. -/
def final : State → Bool
  | .completed | .failed | .cancelled => true
  | _ => false

/-- The intent has been submitted, whatever became of it. -/
def handed : State → Bool
  | .submitted | .pending | .unknown | .completed | .failed | .reversed => true
  | _ => false

/-- A save is made from a copy that is not stale. -/
def SavesInStep (_ : Nat) {β : Type} (c : Statement β) (s : Site) : Prop := ∀ i ∈ saving c, InStep s i

instance (t : Nat) {β : Type} (c : Statement β) (s : Site) : Decidable (SavesInStep t c s) :=
  inferInstanceAs (Decidable (∀ i ∈ saving c, InStep s i))

/-- What the rows and the payments say of each other. -/
structure Squared (s : Site) : Prop where
  ids : (s.world.rows.map Intent.id).Nodup
  paid : ∀ k, s.payment k ≠ none → ∃ r, s.row k = some r ∧ handed r.state = true
  completed : ∀ k r, s.row k = some r → r.state = .completed → s.payment k ≠ none

/-- No row is taken out of a last state or back before its submission, and no payment is lost. -/
structure Onward (s s' : Site) : Prop where
  final : ∀ k r, s.row k = some r → final r.state = true → ∃ r', s'.row k = some r' ∧ r'.state = r.state
  handed : ∀ k r, s.row k = some r → handed r.state = true →
    ∃ r', s'.row k = some r' ∧ handed r'.state = true
  payments : ∀ k r, s.payment k = some r → s'.payment k = some r

theorem Onward.refl (s : Site) : Onward s s :=
  ⟨fun _ r h _ => ⟨r, h, rfl⟩, fun _ r h hh => ⟨r, h, hh⟩, fun _ _ h => h⟩

theorem Onward.trans {s₁ s₂ s₃ : Site} (h : Onward s₁ s₂) (h' : Onward s₂ s₃) : Onward s₁ s₃ := by
  refine ⟨fun k r hr hf => ?_, fun k r hr hh => ?_, fun k r hr => h'.payments k r (h.payments k r hr)⟩
  · obtain ⟨r₂, hr₂, hs₂⟩ := h.final k r hr hf
    obtain ⟨r₃, hr₃, hs₃⟩ := h'.final k r₂ hr₂ (hs₂ ▸ hf)
    exact ⟨r₃, hr₃, hs₃.trans hs₂⟩
  · obtain ⟨r₂, hr₂, hh₂⟩ := h.handed k r hr hh
    exact h'.handed k r₂ hr₂ hh₂

/-- What lies on a desk, as far as the tables still bear it out. -/
structure Desk.Tied (d : Desk) (s : Site) : Prop where
  seen : ∀ id st, d.seen = some (id, st) → handed st = true → ∃ r, s.row id = some r ∧ handed r.state = true
  booked : ∀ k, d.booked = some k → (s.payment k).isSome
  known : ∀ k r, d.known = some (k, r) → s.payment k = some r

theorem Desk.Tied.onward (h : d.Tied s) (ho : Onward s s') : d.Tied s' := by
  refine ⟨fun id st hseen hh => ?_, fun k hk => ?_, fun k r hk => ho.payments k r (h.known k r hk)⟩
  · obtain ⟨r, hr, hhr⟩ := h.seen id st hseen hh
    exact ho.handed id r hr hhr
  · obtain ⟨r, hr⟩ := Option.isSome_iff_exists.mp (h.booked k hk)
    rw [ho.payments k r hr]
    rfl

theorem handed_hop (a : State) (event : Hop) (b : State) (edge : TRANSITIONS a event = some b)
    (ha : handed a = true) : handed b = true := by
  cases a <;> cases ha <;> cases event <;> cases edge <;> rfl

/-- The one hop out of a last state is a reversal. -/
theorem final_hop {a b : State} {event : Hop} (edge : TRANSITIONS a event = some b) (ha : final a = true) :
    b = .reversed := by
  cases a <;> cases ha <;> cases event <;> cases edge
  rfl

/-! ## One deed -/

section Deed
variable (h : Deed .postgres .pg c s s' d d') (hA : ∀ i ∈ saving c, InStep s i)
include h hA

theorem Deed.onward : Onward s s' := by
  refine ⟨fun k r hr hf => ?_, fun k r hr hh => ?_, fun k r => h.kept⟩
  · rcases h.row k with heq | ⟨i, hsaves, hmay, rfl, hnew⟩
    · exact ⟨r, heq.trans hr, rfl⟩
    · refine ⟨_, hnew, (World.saved_state _ _).trans ?_⟩
      rcases hA i hsaves r hr with heq | ⟨event, -, edge⟩
      · exact heq.symm
      · exact absurd (final_hop edge hf) hmay.reversed
  · rcases h.row k with heq | ⟨i, hsaves, -, rfl, hnew⟩
    · exact ⟨r, heq.trans hr, hh⟩
    · refine ⟨_, hnew, ?_⟩
      rw [World.saved_state]
      exact (hA i hsaves).moves hr (P := fun st => handed st = true) handed_hop hh

theorem Deed.squared (hs : Squared s) (hd : d.Tied s) : Squared s' := by
  have honward := h.onward hA
  refine ⟨h.ids hs.ids, fun k hk => ?_, fun k r hr hst => ?_⟩
  · have hrow : ∃ r, s.row k = some r ∧ handed r.state = true := by
      rcases h.payment k with heq | ⟨-, hmay, -⟩
      · exact hs.paid k (heq ▸ hk)
      · exact hd.seen k .submitted hmay.seen rfl
    obtain ⟨r, hr, hh⟩ := hrow
    exact honward.handed k r hr hh
  · have hpaid : ∃ receipt, s.payment k = some receipt := by
      rcases h.row k with heq | ⟨i, -, hmay, rfl, hnew⟩
      · exact Option.ne_none_iff_exists'.mp (hs.completed k r (heq ▸ hr) hst)
      · obtain rfl := Option.some.inj (hnew.symm.trans hr)
        obtain ⟨receipt, hknown⟩ := hmay.completed ((World.saved_state _ _).symm.trans hst)
        exact ⟨receipt, hd.known _ receipt hknown⟩
    obtain ⟨receipt, hreceipt⟩ := hpaid
    rw [h.kept hreceipt]
    exact Option.some_ne_none receipt

theorem Deed.tied (hs : Squared s) (hd : d.Tied s) : d'.Tied s' := by
  have hd' := hd.onward (h.onward hA)
  cases h with
  | idle _ desk | answered _ _ _ _ _ desk =>
    subst desk
    exact hd'
  | @saw i same stored desk =>
    subst desk
    refine ⟨fun id st hseen hh => ?_, hd'.booked, hd'.known⟩
    obtain ⟨rfl, rfl⟩ := Prod.mk.inj (Option.some.inj hseen)
    exact ⟨i, (same.row _).trans (Keyed.find_of_mem Intent.id hs.ids stored), hh⟩
  | @saved i _ _ rows _ _ _ desk =>
    subst desk
    refine ⟨fun id st hseen hh => ?_, hd'.booked, hd'.known⟩
    obtain ⟨rfl, rfl⟩ := Prod.mk.inj (Option.some.inj hseen)
    refine ⟨s.world.saved i, ?_, (congrArg handed (World.saved_state _ _)).trans hh⟩
    rw [Site.row, World.row, rows]
    exact (World.row_put _ _ _).trans (if_pos rfl)
  | noted _ _ _ _ _ desk =>
    split_ifs at desk
    · subst desk
      exact ⟨hd'.seen, hd'.booked, hd'.known⟩
    · subst desk
      exact hd'
  | found same paid desk =>
    subst desk
    refine ⟨hd'.seen, hd'.booked, fun k r hk => ?_⟩
    obtain ⟨rfl, rfl⟩ := Prod.mk.inj (Option.some.inj hk)
    exact (same.payment _).trans paid
  | missed _ _ _ desk =>
    subst desk
    exact ⟨hd'.seen, hd'.booked, hd'.known⟩
  | inserted _ _ _ there desk =>
    subst desk
    exact ⟨hd'.seen, fun k hk => Option.some.inj hk ▸ there, hd'.known⟩
  | asked mock => cases mock

end Deed

/-! ## Every schedule without a stale save -/

def racing : Contract Site where
  inv := Squared
  rely _ := Onward
  guar _ := Onward

theorem racing_fits : racing.Fits :=
  ⟨fun _ => Onward.refl, fun _ _ _ _ => Onward.trans, fun _ _ _ h => h⟩

theorem tied_desk (j : Job) (s : Site) : j.desk.Tied s := by
  refine ⟨fun id st h => ?_, fun k h => ?_, fun k r h => ?_⟩ <;>
    cases j with
    | op o => cases o <;> cases h
    | execute copy => cases h

/-- Every worker keeps the contract while no save is stale. -/
theorem racing_sound (env : Env) (process : Nat → Nat) (jobs : Nat → Job) (hs : Squared s) :
    Sound (tables env .postgres .pg process) racing SavesInStep (fun _ _ _ => True)
      (workers env .pg jobs s) := by
  refine ⟨hs, fun t => ?_, fun _ _ _ _ h _ => h⟩
  have habstract := Machine.keeps_abstract (m := tables env .postgres .pg process) (C := racing)
    (A := SavesInStep) (t := t) (Φ := pays .pg) Desk.Tied
    (fun d s s' hd ho => hd.onward ho) (fun c K d s hd hs hA hc => ?_) (pays_job env .pg (jobs t))
    (tied_desk (jobs t) s)
  · exact Prog.wp_mono (Machine.keeps_mono _ _ _ t) _ (fun _ _ _ => trivial) habstract
  · obtain ⟨d', hk, hdeed⟩ := pays_step env .postgres process t hc hd.booked
    exact ⟨hdeed.squared hA hs hd, hdeed.onward hA, d', hk, hdeed.tied hA hs hd⟩

/-- What a run says of last states. -/
structure LastStates (m : Machine Site Statement) (p : Pool Site Statement Exn Reply) (ts : List Nat) : Prop where
  last : ∀ earlier later, earlier ++ later = ts → ∀ k r, (p.exec m earlier).shared.row k = some r →
    final r.state = true → ∃ r', (p.exec m ts).shared.row k = some r' ∧ r'.state = r.state
  cancelled : ∀ k r, (p.exec m ts).shared.row k = some r → r.state = .cancelled →
    (p.exec m ts).shared.payment k = none
  completed : ∀ k r, (p.exec m ts).shared.row k = some r → r.state = .completed →
    (p.exec m ts).shared.payment k ≠ none

/-- **Without a stale save, a last state is the last**, and it tells what the bank did. -/
theorem races_settle (env : Env) (process : Nat → Nat) (jobs : Nat → Job) {s : Site} (hs : Squared s)
    {ts : List Nat}
    (hts : (workers env .pg jobs s).Meets (tables env .postgres .pg process) SavesInStep ts) :
    LastStates (tables env .postgres .pg process) (workers env .pg jobs s) ts := by
  have hstart := racing_sound env process jobs hs
  have hend := (hstart.exec racing_fits ts hts).inv
  refine ⟨fun earlier later hsplit k r hr hf => ?_, fun k r hr hst => ?_, hend.completed⟩
  · subst hsplit
    obtain ⟨hearlier, hlater⟩ := (Pool.meets_append _ _ _ _).mp hts
    have honward := (hstart.exec racing_fits earlier hearlier).related racing_fits later hlater
      (T := Onward) Onward.refl Onward.trans fun t _ _ _ _ hg => hg
    rw [Pool.exec_append]
    exact honward.final k r hr hf
  · by_contra hpaid
    obtain ⟨r', hr', hh⟩ := hend.paid k hpaid
    rw [← Option.some.inj (hr.symm.trans hr'), hst] at hh
    cases hh

/-! A confirm, and a cancel that reads the intent while it runs: too late to cancel. -/

def raceOps : Nat → Job
  | 0 => .op (.confirm session "conf_000000000001")
  | _ => .op (.cancel session "conf_000000000001")

/-- The confirm up to its tenth call, the other's look-up, the rest of the confirm and of the other. -/
def lateCancel : List Nat :=
  List.replicate 10 0 ++ [1] ++ List.replicate 15 0 ++ List.replicate 6 1

theorem raceSite_awaits : ∀ r ∈ raceSite.world.rows, r.state = .awaitingConfirmation := by
  decide +kernel

theorem raceSite_squared : Squared raceSite := by
  refine ⟨by decide +kernel, fun k hk => absurd (raceSite_payment k) hk, fun k r hr hst => ?_⟩
  rw [raceSite_awaits r (Site.mem_of_row hr)] at hst
  cases hst

theorem races_settle_sample :
    LastStates raceTables (raceOf raceOps) lateCancel ∧
    (((raceOf raceOps).exec raceTables lateCancel).shared.row "pix_000000000000").map Intent.state =
      some .completed ∧
    (((raceOf raceOps).exec raceTables lateCancel).result 0).isSome = true ∧
    (((raceOf raceOps).exec raceTables lateCancel).result 1).isSome = true :=
  ⟨races_settle (sampleEnv noon) _ raceOps raceSite_squared (by decide +kernel), by decide +kernel,
    by decide +kernel, by decide +kernel⟩

/-! The same with the look-up before the confirm begins: what it goes by is stale. -/

/-- A look-up of the cancel, and the whole confirm. -/
def staleRead : List Nat := [1] ++ List.replicate 25 0

/-- The rest of the cancel. -/
def staleSave : List Nat := List.replicate 6 1

/-- A cancel from a stale copy turns a completed payment into a cancelled one. -/
theorem stale_cancel :
    (((raceOf raceOps).exec raceTables (staleRead ++ staleSave)).result 0).isSome = true ∧
    (((raceOf raceOps).exec raceTables (staleRead ++ staleSave)).result 1).isSome = true ∧
    (((raceOf raceOps).exec raceTables (staleRead ++ staleSave)).shared.payment
      "pix_000000000000").isSome = true ∧
    ¬ LastStates raceTables (raceOf raceOps) (staleRead ++ staleSave) := by
  have hbefore : (((raceOf raceOps).exec raceTables staleRead).shared.row "pix_000000000000").map
      Intent.state = some .completed := by decide +kernel
  have hafter : (((raceOf raceOps).exec raceTables (staleRead ++ staleSave)).shared.row
      "pix_000000000000").map Intent.state = some .cancelled := by decide +kernel
  refine ⟨by decide +kernel, by decide +kernel, by decide +kernel, fun h => ?_⟩
  obtain ⟨r, hr, hstate⟩ := Option.map_eq_some_iff.mp hbefore
  obtain ⟨r', hr', hstate'⟩ := h.last staleRead staleSave rfl _ r hr (by rw [hstate]; rfl)
  rw [hr', Option.map_some, hstate', hstate] at hafter
  cases hafter

end BankingControlPlane
