import BankingControlPlane.Plane.Writes
import BankingControlPlane.Safety.Consent
import BankingControlPlane.Safety.CrashSafety

/-!
# A way out of every state but three

A process that dies leaves the intent it was working on in the state it saved last. The sweep at boot
takes `SUBMITTED` on to `UNKNOWN`; it does not look at `CREATED`, `VALIDATED` and `AUTHORIZED`, and no
other operation takes an intent up there.

* `Boots` : runs of operations and crashes, each crash followed by a sweep before anything else;
* `WayOut` : operations by the intent's owner that lead it to a terminal state;
* `way_out` : there is one exactly from the states that are not `midway`.
-/

namespace BankingControlPlane
open Effects

variable {env : Env} {w : World} {r : Intent}

/-- The states an operation saves an intent in on its way and a sweep does not look at. -/
def midway : State → Bool
  | .created | .validated | .authorized => true
  | _ => false

theorem not_midway_of_waiting {st : State} (h : waiting st = true) : midway st = false := by
  cases st <;> first | rfl | cases h

theorem not_midway_of_terminal {st : State} (h : terminal st = true) : midway st = false := by
  cases st <;> first | rfl | cases h

theorem unfinished_of_midway {st : State} (h : midway st = true) : unfinished st = true := by
  cases st <;> first | rfl | cases h

inductive Phase where
  | up | down
deriving DecidableEq, Repr

/-- A plane over a durable table: it is up, or has died and is booting. A process may die at any call,
in an operation or in the sweep, where the table it leaves meets `left`. -/
inductive Boots (env : Env) (left : World → Prop) : Phase → World → Prop
  | start (bank : MockBank) : Boots env left .up { bank := bank }
  | op {w : World} (o : Op) (hw : Boots env left .up w) : Boots env left .up (exec env .postgres o w).2
  | crash {w : World} (o : Op) (calls : Nat) (hw : Boots env left .up w)
    (hl : left (cut env .postgres o calls w)) : Boots env left .down (cut env .postgres o calls w)
  | again {w : World} (calls : Nat) (hw : Boots env left .down w)
    (hl : left (cut env .postgres .sweep calls w)) :
    Boots env left .down (cut env .postgres .sweep calls w)
  | boot {w : World} (hw : Boots env left .down w) :
    Boots env left .up (exec env .postgres .sweep w).2

/-- An operation the claim lets the intent's owner call: by the customer, and where the plane compares
the session, in the original one. -/
def OwnersOp (r : Intent) : Op → Prop
  | .confirm ctx _ | .cancel ctx _ => samePrincipal r ctx
  | .stepUp ctx intentId | .reconcile ctx intentId =>
    intentId = r.id ∧ r.context.customerId = ctx.customerId
  | _ => False

/-- The intent is in a terminal state. -/
def Over (w : World) (id : String) : Prop := ∃ r, w.row id = some r ∧ terminal r.state = true

/-- At some clock, operations by its owner end the intent. -/
def WayOut (env : Env) (w : World) (r : Intent) : Prop :=
  ∃ (clock : Nat → Instant) (ops : List Op), (∀ o ∈ ops, OwnersOp r o) ∧
    Over (after { env with clock := clock } .postgres (ops.map .op) w) r.id

/-! ## Runs of boots -/

section Boots
variable {left : World → Prop} {phase : Phase}

theorem Boots.reach (hw : Boots env left phase w) :
    Reach env .postgres (fun _ => True) Restarts w := by
  induction hw with
  | start bank => exact .start bank trivial
  | op o _ ih => exact .step (.op o) ih trivial
  | crash o calls _ _ ih => exact .step (.cut o calls) ih trivial
  | again calls _ _ ih => exact .step (.cut .sweep calls) ih trivial
  | boot _ ih => exact .step (.op .sweep) ih trivial

theorem Boots.good (hw : Boots env left phase w) : Good env .postgres w :=
  hw.reach.good fun _ _ hs => hs.sound

/-- While the plane is up, nothing is in `SUBMITTED`. -/
theorem Boots.noneSubmitted (hw : Boots env left .up w) {k : String} (hr : w.row k = some r) :
    r.state ≠ .submitted := by
  generalize hphase : Phase.up = phase at hw
  induction hw generalizing k r with
  | start bank => simp [World.row] at hr
  | @op w o hw ih =>
    intro hstate
    exact ih (exec_unfinished hw.good o hr (by rw [hstate]; rfl)) hphase hstate
  | crash => cases hphase
  | again => cases hphase
  | @boot w hw _ =>
    intro hstate
    have hmem : r ∈ (exec env .postgres .sweep w).2.stranded .postgres :=
      World.mem_stranded.mpr ⟨Keyed.mem_of_find Intent.id hr, hstate⟩
    rw [stranded_sweep hw.good] at hmem
    cases hmem

/-- No crash has found an intent midway: none is. -/
theorem Boots.noneMidway
    (hw : Boots env (fun w => ∀ r ∈ w.rows, midway r.state = false) phase w) {k : String}
    (hr : w.row k = some r) : midway r.state = false := by
  induction hw generalizing k r with
  | start bank => simp [World.row] at hr
  | op o hw ih =>
    cases hmid : midway r.state with
    | false => rfl
    | true =>
      rw [ih (exec_unfinished hw.good o hr (unfinished_of_midway hmid))] at hmid
      cases hmid
  | crash o calls _ hl _ => exact hl r (Keyed.mem_of_find Intent.id hr)
  | again calls _ hl _ => exact hl r (Keyed.mem_of_find Intent.id hr)
  | @boot w hw ih =>
    rcases (swept_exec env w).1.rows k with heq | ⟨-, r', hr', hun⟩
    · exact ih (heq ▸ hr)
    · rw [Option.some.inj (hr.symm.trans hr'), hun]
      rfl

end Boots

/-! ## Midway, nothing moves the intent -/

/-- Good for one clock, good for another: no id and no row depends on the clock. -/
theorem Good.atClock {kind : StoreKind} (h : Good env kind w) (clock : Nat → Instant) :
    Good { env with clock := clock } kind w :=
  ⟨⟨h.inv.nodup, h.inv.nodupObjects, h.inv.ids, h.inv.tokens, h.inv.rowTokens, h.inv.written,
    h.inv.known, h.inv.principals, h.inv.asked, h.inv.ledger⟩, h.mirror⟩

theorem exec_midway (h : Good env .postgres w) (o : Op) {k : String} (hr : w.row k = some r)
    (hmid : midway r.state = true) : (exec env .postgres o w).2.row k = some r := by
  by_cases ho : o = .sweep
  · subst ho
    rcases (swept_exec env w).1.rows k with heq | ⟨hmem, -⟩
    · exact heq.trans hr
    · obtain ⟨r', hr', rfl⟩ := List.mem_map.mp hmem
      obtain ⟨hrows, hstate⟩ := World.mem_stranded.mp hr'
      have hrow := Keyed.find_of_mem Intent.id h.inv.nodup hrows
      rw [Option.some.inj (hr.symm.trans hrow), hstate] at hmid
      cases hmid
  · obtain ⟨id, hwrote⟩ := exec_writes h ho
    by_cases hk : k = id
    · subst hk
      rcases hwrote.this with heq | ⟨-, hwaiting⟩
      · exact heq.trans hr
      · rw [not_midway_of_waiting (hwaiting r hr)] at hmid
        cases hmid
    · exact (hwrote.others k hk).trans hr

/-- **Midway there is no way on**, whoever calls whatever, at any clock. -/
theorem stays_midway (h : Good env .postgres w) (ops : List Op) {k : String}
    (hr : w.row k = some r) (hmid : midway r.state = true) :
    (after env .postgres (ops.map .op) w).row k = some r := by
  induction ops generalizing w with
  | nil => exact hr
  | cons o ops ih => exact ih (h.exec o) (exec_midway h o hr hmid)

theorem no_way_out (h : Good env .postgres w) (hr : w.row r.id = some r)
    (hmid : midway r.state = true) : ¬ WayOut env w r := by
  rintro ⟨clock, ops, -, r', hr', hterm⟩
  have hstays := stays_midway (h.atClock clock) ops hr hmid
  rw [Option.some.inj (hr'.symm.trans hstays)] at hterm
  rw [not_midway_of_terminal hterm] at hmid
  cases hmid

/-! ## Elsewhere, a way out -/

/-- The last save is of a terminal state. -/
def SavedOver (s : Option Intent) : Prop := ∃ i, s = some i ∧ terminal i.state = true

theorem Tracked.over {id : String} {w₀ : World} (h : ∃ s, SavedOver s ∧ Tracked id w₀ s w) :
    Over w id := by
  obtain ⟨_, ⟨i, rfl, hterm⟩, ht⟩ := h
  obtain ⟨r, hr, hstate⟩ := ht.last i rfl
  exact ⟨r, hr, hstate ▸ hterm⟩

theorem reconcile_ends {ctx : Context} {id : String} (hr : w.row id = some r)
    (hstate : r.state = .unknown) (hcustomer : r.context.customerId = ctx.customerId) :
    Over (exec env .postgres (.reconcile ctx id) w).2 id := by
  rw [exec, Op.prog, exec_replying]
  simp only [reconcile, Prog.bind_eq, Prog.pure_eq, Prog.perform_bind]
  refine Tracked.over (Ends.ownedByCustomer hr hcustomer ?_ rfl)
  dsimp only
  rw [if_neg (not_not.mpr hstate)]
  refine ends_call trivial fun receipt => ends_call trivial fun _ => ?_
  refine ends_reconciled (key_of_row hr) hstate fun i hi => ⟨i, rfl, ?_⟩
  rcases hi with hi | hi <;> rw [hi] <;> rfl

theorem cancel_ends {ctx : Context} {token : String}
    (hfound : (w.rows.find? fun i => i.confirmationId = some token) = some r)
    (hstate : r.state = .awaitingConfirmation) (hp : samePrincipal r ctx) :
    Over (exec env .postgres (.cancel ctx token) w).2 r.id := by
  have edge : TRANSITIONS r.state .cancel = some .cancelled := by rw [hstate]; rfl
  rw [exec, Op.prog, exec_replying]
  simp only [cancel, Prog.bind_eq, Prog.pure_eq]
  refine Tracked.over (Ends.byConfirmation hfound hp ?_ rfl)
  dsimp only
  rw [attempt_move_some edge]
  exact ends_move rfl edge (ends_saveReason rfl (ends_statusOf ⟨_, rfl, rfl⟩))

/-- A step-up is decided on at once: denied, or sent to confirmation. -/
theorem stepUp_decides (env : Env) (ctx : Context) {id : String} (hr : w.row id = some r)
    (hstate : r.state = .awaitingStepUp) (hcustomer : r.context.customerId = ctx.customerId) :
    ∃ r', (exec env .postgres (.stepUp ctx id) w).2.row id = some r' ∧
      (r'.state = .cancelled ∨ r'.state = .awaitingConfirmation) := by
  have htracked : ∃ s, (∃ i, s = some i ∧ decided .strong i.state) ∧
      Tracked id w s (exec env .postgres (.stepUp ctx id) w).2 := by
    rw [exec, Op.prog, exec_replying]
    simp only [stepUp, Prog.bind_eq, Prog.pure_eq, Prog.perform_bind]
    refine Ends.ownedByCustomer hr hcustomer ?_ rfl
    dsimp only
    rw [if_neg (not_not.mpr hstate)]
    exact ends_steppedUp (key_of_row hr) hstate fun i hi => ⟨i, rfl, hi⟩
  obtain ⟨_, ⟨i, rfl, hi⟩, ht⟩ := htracked
  obtain ⟨r', hr', hstate'⟩ := ht.last i rfl
  refine ⟨r', hr', ?_⟩
  rw [hstate']
  cases hst : i.state <;> rw [hst] at hi <;> simp [decided] at hi ⊢

/-- What a row's state says of its token; nothing is ever `PENDING`. -/
def Tokened (r : Intent) : Prop :=
  (r.state = .awaitingConfirmation → ∃ t, r.confirmationId = some t) ∧ r.state ≠ .pending

theorem Tokened.saved {i : Intent} (hr : Tokened r) (hs : Saves env w (some r) i) : Tokened i := by
  cases hs with
  | @hop _ event target ok edge =>
    refine ⟨fun h => ?_, fun h => ?_⟩
    · have h : target = .awaitingConfirmation := h
      rw [h] at edge
      cases hst : r.state <;> rw [hst] at edge <;> cases event <;> cases edge
      exact ok.elim
    · have h : target = .pending := h
      rw [h] at edge
      cases hst : r.state <;> rw [hst] at edge <;> cases event <;> cases edge
      exact ok.elim
  | issued => exact ⟨fun _ => ⟨_, rfl⟩, fun h => by cases h⟩
  | settled => exact ⟨fun h => (by cases h), fun h => by cases h⟩
  | _ => exact ⟨hr.1, hr.2⟩

theorem preserved_tokened {kind : StoreKind} :
    Preserved env kind fun w => ∀ k r, w.row k = some r → Tokened r :=
  preserved_rows (J := fun _ => Tokened) (fun _ _ _ _ h => h)
    (fun w i _ _ hs => by cases hs; exact ⟨fun h => (by cases h), fun h => by cases h⟩)
    fun _ _ _ _ _ hs hr => hr.saved hs

/-- The intent `id` belongs to this customer and session. -/
def BelongsTo (id customer session : String) (w : World) : Prop :=
  ∃ r, w.row id = some r ∧ r.context.customerId = customer ∧ r.context.sessionId = session

theorem preserved_belongsTo {kind : StoreKind} (id customer session : String) :
    Preserved env kind (BelongsTo id customer session) := by
  refine ⟨fun c w hc _ ⟨r, hr, hcust, hsess⟩ => ?_, fun w op _ h => h⟩
  cases c with
  | put i =>
    have hs : Saves env w (w.row i.id) i := hc
    simp only [BelongsTo, serve, World.row_put, hs.saved]
    split_ifs with hk
    · rw [hk, hr] at hs
      exact ⟨i, rfl, hs.kept.2.2.1.trans hcust, hs.kept.2.2.2.1.trans hsess⟩
    · exact ⟨r, hr, hcust, hsess⟩
  | _ => exact ⟨r, hr, hcust, hsess⟩

section Ways
variable {left : World → Prop}

theorem Boots.tokened (hw : Boots env left phase w) {k : String} (hr : w.row k = some r) :
    Tokened r :=
  (hw.reach.preserved (fun _ _ hs => hs.sound) preserved_tokened
    (fun bank _ k r hr => by simp [World.row] at hr) (fun w id columns hs _ => hs.elim)
    fun w b _ hI => hI).2 k r hr

/-- A token finds the one intent it was issued for. -/
theorem Boots.found (hw : Boots env left phase w) (hr : w.row r.id = some r) {token : String}
    (ht : r.confirmationId = some token) :
    (w.rows.find? fun i => i.confirmationId = some token) = some r := by
  have hsealed := (hw.reach.mono fun _ _ => Restarts.untampered).sealed fun _ _ hs => hs
  exact hw.good.holder_of_seen hsealed hr ht

theorem way_out_of_confirmation (hw : Boots env left .up w) (hr : w.row r.id = some r)
    (hstate : r.state = .awaitingConfirmation) (ctx : Context) (hp : samePrincipal r ctx) :
    ∃ token, Over (exec env .postgres (.cancel ctx token) w).2 r.id := by
  obtain ⟨token, ht⟩ := (hw.tokened hr).1 hstate
  exact ⟨token, cancel_ends (hw.found hr ht) hstate hp⟩

theorem way_out_of_stepUp (hw : Boots env left .up w) (hr : w.row r.id = some r)
    (hstate : r.state = .awaitingStepUp) :
    ∃ ops : List Op, (∀ o ∈ ops, OwnersOp r o) ∧ Over (after env .postgres (ops.map .op) w) r.id := by
  obtain ⟨r', hr', hdecided⟩ := stepUp_decides env r.context hr hstate rfl
  have hup : OwnersOp r (.stepUp r.context r.id) := ⟨rfl, rfl⟩
  rcases hdecided with hcancelled | hawaits
  · exact ⟨[.stepUp r.context r.id], by simpa using hup, r', hr', by rw [hcancelled]; rfl⟩
  · have hw' := hw.op (.stepUp r.context r.id)
    obtain ⟨r'', hr'', hcust, hsess⟩ := (preserved_belongsTo r.id r.context.customerId
      r.context.sessionId).op hw.good ⟨r, hr, rfl, rfl⟩ (.stepUp r.context r.id)
    obtain rfl := Option.some.inj (hr'.symm.trans hr'')
    have hid : r'.id = r.id := key_of_row hr'
    obtain ⟨token, hover⟩ := way_out_of_confirmation hw' (hid.symm ▸ hr') hawaits
      r.context ⟨hcust, hsess⟩
    rw [hid] at hover
    refine ⟨[.stepUp r.context r.id, .cancel r.context token], fun o ho => ?_, hover⟩
    rcases List.mem_cons.mp ho with rfl | ho
    · exact hup
    · rw [List.mem_singleton.mp ho]
      exact ⟨rfl, rfl⟩

/-- **From every state that is not midway there is a way out.** -/
theorem way_out_elsewhere (hw : Boots env left .up w) (hr : w.row r.id = some r)
    (hmid : midway r.state = false) : WayOut env w r := by
  refine ⟨env.clock, ?_⟩
  cases hstate : r.state with
  | created => rw [hstate] at hmid; cases hmid
  | validated => rw [hstate] at hmid; cases hmid
  | authorized => rw [hstate] at hmid; cases hmid
  | submitted => exact absurd hstate (hw.noneSubmitted hr)
  | pending => exact absurd hstate (hw.tokened hr).2
  | awaitingStepUp => exact way_out_of_stepUp hw hr hstate
  | awaitingConfirmation =>
    obtain ⟨token, hover⟩ := way_out_of_confirmation hw hr hstate r.context ⟨rfl, rfl⟩
    exact ⟨[.cancel r.context token], by simp [OwnersOp, samePrincipal], hover⟩
  | unknown =>
    exact ⟨[.reconcile r.context r.id], by simp [OwnersOp], reconcile_ends hr hstate rfl⟩
  | completed => exact ⟨[], by simp, r, hr, by rw [hstate]; rfl⟩
  | failed => exact ⟨[], by simp, r, hr, by rw [hstate]; rfl⟩
  | cancelled => exact ⟨[], by simp, r, hr, by rw [hstate]; rfl⟩
  | reversed => exact ⟨[], by simp, r, hr, by rw [hstate]; rfl⟩

end Ways

/-- **An intent has a way out exactly when it is not stored midway.** Hence, when no process death finds
an intent `CREATED`, `VALIDATED` or `AUTHORIZED`, every intent always has one. -/
theorem way_out (env : Env) :
    (∀ w, Boots env (fun _ => True) .up w → ∀ r ∈ w.rows,
      (WayOut env w r ↔ midway r.state = false)) ∧
    ∀ w, Boots env (fun w => ∀ r ∈ w.rows, midway r.state = false) .up w → ∀ r ∈ w.rows,
      WayOut env w r := by
  refine ⟨fun w hw r hr => ?_, fun w hw r hr => ?_⟩
  · have hrow : w.row r.id = some r := Keyed.find_of_mem Intent.id hw.good.inv.nodup hr
    refine ⟨fun hout => ?_, way_out_elsewhere hw hrow⟩
    cases hmid : midway r.state with
    | false => rfl
    | true => exact absurd hout (no_way_out hw.good hrow hmid)
  · have hrow : w.row r.id = some r := Keyed.find_of_mem Intent.id hw.good.inv.nodup hr
    exact way_out_elsewhere hw hrow (hw.noneMidway hrow)

/-! A propose that dies right after it saved its intent as `VALIDATED`, and a sweep. -/

def toRenata : Op := proposal "Renata" money200 renata_named

def strandedWorld : World :=
  (exec (sampleEnv noon) .postgres .sweep (cut (sampleEnv noon) .postgres toRenata 13 { bank := {} })).2

theorem strandedWorld_boots : Boots (sampleEnv noon) (fun _ => True) .up strandedWorld := by
  have hdown : Boots (sampleEnv noon) (fun _ => True) .down
      (cut (sampleEnv noon) .postgres toRenata 13 { bank := {} }) :=
    .crash toRenata 13 (.start {}) True.intro
  exact .boot hdown

def proposedWorld : World := (exec (sampleEnv noon) .postgres toRenata { bank := {} }).2

theorem proposedWorld_boots : Boots (sampleEnv noon)
    (fun w => ∀ r ∈ w.rows, midway r.state = false) .up proposedWorld :=
  .op toRenata (.start {})

theorem way_out_sample :
    (∀ r ∈ strandedWorld.rows, ¬ WayOut (sampleEnv noon) strandedWorld r) ∧
    strandedWorld.rows.map Intent.state = [.validated] ∧
    (∀ r ∈ proposedWorld.rows, WayOut (sampleEnv noon) proposedWorld r) ∧
    proposedWorld.rows.map Intent.state = [.awaitingConfirmation] := by
  obtain ⟨hiff, hspared⟩ := way_out (sampleEnv noon)
  refine ⟨fun r hr hout => ?_, by decide +kernel, hspared _ proposedWorld_boots, by decide +kernel⟩
  have hmid : ∀ r ∈ strandedWorld.rows, midway r.state = true := by decide +kernel
  have hnot := (hiff _ strandedWorld_boots r hr).mp hout
  rw [hmid r hr] at hnot
  cases hnot

/-- A stored intent without a way out. -/
theorem stranded_validated : ¬ ∀ w, Boots (sampleEnv noon) (fun _ => True) .up w → ∀ r ∈ w.rows,
    WayOut (sampleEnv noon) w r := by
  intro h
  have hmid : ∀ r ∈ strandedWorld.rows, midway r.state = true := by decide +kernel
  have hne : strandedWorld.rows ≠ [] := by decide +kernel
  obtain ⟨r, hr⟩ := List.exists_mem_of_ne_nil _ hne
  have hgood := strandedWorld_boots.good
  have hrow : strandedWorld.row r.id = some r := Keyed.find_of_mem Intent.id hgood.inv.nodup hr
  exact no_way_out hgood hrow (hmid r hr) (h _ strandedWorld_boots r hr)

end BankingControlPlane
