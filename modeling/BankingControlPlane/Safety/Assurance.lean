import BankingControlPlane.Plane.Lookups
import BankingControlPlane.Plane.Sample

/-!
# Policy and assurance over whole runs

* `Proposed`, `Continues` : the intent as it was proposed, and what of it never changes;
* `Vetted` : the evaluation a token was issued after, with its clock reading and its risk;
* `Row` : what a stored intent's row and history have in common; every save keeps it (`preserved_row`);
* `assurance_over_runs` : limits, night and step-up behind every token, and the intent's one way
  through step-up to one token.
-/

namespace BankingControlPlane
open Effects

variable {env : Env} {kind : StoreKind}

/-! ## Readings of the history -/

/-- `o` is the intent as a `propose` first saved it. -/
def Proposed (h : List Obs) (o : Intent) : Prop :=
  ∃ pre post proposed text seg, h = pre ++ .stored o :: post ∧ openingOf pre o.id = none ∧
    During pre (.propose o.context proposed text) seg

/-- A `step_up` of `o` by its own customer has written its ledger row. -/
def SteppedUp (h : List Obs) (o : Intent) : Prop :=
  ∃ pre post ctx seg method instant, h = pre ++ post ∧ During pre (.stepUp ctx o.id) seg ∧
    .appended ⟨o.id, .stepUp method instant⟩ ∈ seg ∧ ctx.customerId = o.context.customerId

/-- `i` is the proposed `o` further on: all but the assurance is the proposer's. -/
structure Continues (o i : Intent) : Prop where
  id : i.id = o.id
  action : i.action = o.action
  customer : i.context.customerId = o.context.customerId
  session : i.context.sessionId = o.context.sessionId
  device : i.context.deviceTrusted = o.context.deviceTrusted

/-- What policy was asked, and how it answered, in the operation that issues a token for `i`. -/
structure Vetted (env : Env) (h : List Obs) (i o : Intent) (op : Op) (seg : List Obs) (risk : Risk)
    (moment : Instant) : Prop where
  during : During h op seg
  risked : ∀ ρ, .appended ⟨i.id, .risk ρ⟩ ∈ seg ↔ ρ = risk
  readAt : ∀ m, .read .policy m ∈ seg ↔ m = moment
  limit : i.action.amount.val ≤ hardLimit
  night : nightLimit < i.action.amount.val → isNighttime env.zone moment = false
  strong : stepUpAbove < i.action.amount.val ∨ risk.level = .high →
    o.context.assurance = .strong ∨ SteppedUp h o

/-- The token `t` of `i` was first saved after an evaluation that allowed it. -/
def Issued (env : Env) (h : List Obs) (i : Intent) (t : String) : Prop :=
  ∃ pre j post o op seg risk moment, h = pre ++ .stored j :: post ∧ issueOf pre t = none ∧
    j.confirmationId = some t ∧ Proposed pre o ∧ Continues o i ∧ Continues o j ∧
    Vetted env pre j o op seg risk moment

/-- The save `i` takes the intent out of `AWAITING_STEP_UP`, to `VALIDATED`. -/
def Leaves (h : List Obs) (i : Intent) : Prop :=
  ∃ r, latestOf h i.id = some r ∧ r.state = .awaitingStepUp ∧ i.state = .validated

/-- The intent `id` has left `AWAITING_STEP_UP`. -/
def Departed (h : List Obs) (id : String) : Prop :=
  ∃ pre i post, h = pre ++ .stored i :: post ∧ i.id = id ∧ Leaves pre i

theorem Proposed.more {h : List Obs} {o : Intent} (hp : Proposed h o) (more : List Obs) :
    Proposed (h ++ more) o := by
  obtain ⟨pre, post, proposed, text, seg, rfl, hnew, hduring⟩ := hp
  exact ⟨pre, post ++ more, proposed, text, seg, by simp, hnew, hduring⟩

theorem Proposed.opening {h : List Obs} {o : Intent} (hp : Proposed h o) :
    openingOf h o.id = some o := by
  obtain ⟨pre, post, proposed, text, seg, rfl, hnew, -⟩ := hp
  simp only [openingOf, List.findSome?_append] at hnew ⊢
  rw [hnew]
  simp [Obs.version]

theorem SteppedUp.more {h : List Obs} {o : Intent} (hs : SteppedUp h o) (more : List Obs) :
    SteppedUp (h ++ more) o := by
  obtain ⟨pre, post, ctx, seg, method, instant, rfl, hrest⟩ := hs
  exact ⟨pre, post ++ more, ctx, seg, method, instant, by simp, hrest⟩

theorem Issued.more {h : List Obs} {i : Intent} {t : String} (hi : Issued env h i t)
    (more : List Obs) : Issued env (h ++ more) i t := by
  obtain ⟨pre, j, post, o, op, seg, risk, moment, rfl, hrest⟩ := hi
  exact ⟨pre, j, post ++ more, o, op, seg, risk, moment, by simp, hrest⟩

theorem departed_snoc {h : List Obs} {x : Obs} {id : String} (hd : Departed (h ++ [x]) id) :
    Departed h id ∨ ∃ i, x = .stored i ∧ i.id = id ∧ Leaves h i := by
  obtain ⟨pre, i, post, heq, hid, hl⟩ := hd
  rcases History.snoc_eq_split heq with ⟨rfl, rfl, -⟩ | ⟨rest, -, rfl⟩
  · exact Or.inr ⟨i, rfl, hid, hl⟩
  · exact Or.inl ⟨pre, i, rest, rfl, hid, hl⟩

/-! ## A stored intent and its history -/

/-- The states an intent has no token in. -/
def early : State → Bool
  | .created | .validated | .awaitingStepUp => true
  | _ => false

/-- How the intent came by its assurance. -/
def Assured (h : List Obs) (o i : Intent) : Prop :=
  i.context.assurance = o.context.assurance ∨
    i.context.assurance = .strong ∧ (i.state = .awaitingStepUp ∨ i.state = .cancelled ∨ SteppedUp h o)

/-- A row and the history: where it comes from, what its token rests on, and what never happens
twice. -/
structure Row (env : Env) (h : List Obs) (r : Intent) : Prop where
  latest : latestOf h r.id = some r
  origin : ∃ o, Proposed h o ∧ Continues o r ∧ Assured h o r
  untokened : early r.state = true → r.confirmationId = none
  token : ∀ t, r.confirmationId = some t → Issued env h r t
  once : Departed h r.id → r.context.assurance = .strong ∧ r.state ≠ .awaitingStepUp
  sole : ∀ i, .stored i ∈ h → i.id = r.id → ∀ t, i.confirmationId = some t →
    r.confirmationId = some t

theorem Continues.saved {w : World} {o r i : Intent} (h : Continues o r) (hs : Saves env w (some r) i) :
    Continues o i := by
  obtain ⟨hid, -, hcust, hsess, hdev, haction⟩ := hs.kept
  exact ⟨hid.trans h.id, haction.trans h.action, hcust.trans h.customer, hsess.trans h.session,
    hdev.trans h.device⟩

theorem Assured.more {h : List Obs} {o i : Intent} (ha : Assured h o i) (more : List Obs) :
    Assured (h ++ more) o i := by
  rcases ha with ha | ⟨hs, hstate | hstate | hup⟩
  · exact Or.inl ha
  · exact Or.inr ⟨hs, Or.inl hstate⟩
  · exact Or.inr ⟨hs, Or.inr (Or.inl hstate)⟩
  · exact Or.inr ⟨hs, Or.inr (Or.inr (hup.more more))⟩

/-- Away from the two states in which it is only claimed, strength was proposed or stepped up to. -/
theorem Assured.strong {h : List Obs} {o i : Intent} (ha : Assured h o i)
    (hs : i.context.assurance = .strong) (hstate : i.state ≠ .awaitingStepUp)
    (hcancel : i.state ≠ .cancelled) : o.context.assurance = .strong ∨ SteppedUp h o := by
  rcases ha with ha | ⟨-, h | h | hup⟩
  · exact Or.inl (ha ▸ hs)
  · exact absurd h hstate
  · exact absurd h hcancel
  · exact Or.inr hup

theorem Assured.saved {w : World} {o r i : Intent} (ha : Assured w.history o r) (hc : Continues o r)
    (hs : Saves env w (some r) i) : Assured w.history o i := by
  cases hs with
  | @hop _ event target ok edge =>
    rcases ha with ha | ⟨hstrong, hstate | hstate | hup⟩
    · exact Or.inl ha
    · -- Out of `AWAITING_STEP_UP`: by a step-up, whose row is in the ledger, or cancelled.
      rw [hstate] at edge
      cases event <;> cases edge
      · obtain ⟨-, ctx, seg, method, instant, hduring, hcustomer, hmem⟩ := ok
        rw [hc.id] at hduring hmem
        refine Or.inr ⟨hstrong, Or.inr (Or.inr ⟨w.history, [], ctx, seg, method, instant, by simp,
          hduring, hmem, ?_⟩)⟩
        rw [← hcustomer, hc.customer]
      · exact Or.inr ⟨hstrong, Or.inr (Or.inl rfl)⟩
    · rw [hstate] at edge
      cases event <;> cases edge
    · exact Or.inr ⟨hstrong, Or.inr (Or.inr hup)⟩
  | issued state =>
    rcases ha with ha | ⟨hstrong, hstate | hstate | hup⟩
    · exact Or.inl ha
    · rw [state] at hstate; cases hstate
    · rw [state] at hstate; cases hstate
    · exact Or.inr ⟨hstrong, Or.inr (Or.inr hup)⟩
  | settled paid edge =>
    rcases ha with ha | ⟨hstrong, hstate | hstate | hup⟩
    · exact Or.inl ha
    · rw [hstate] at edge; cases edge
    · rw [hstate] at edge; cases edge
    · exact Or.inr ⟨hstrong, Or.inr (Or.inr hup)⟩
  | strengthened state => exact Or.inr ⟨rfl, Or.inl state⟩
  | consented => exact ha
  | noted => exact ha

/-- No way back to an early state with a token. -/
theorem early_saved {w : World} {r i : Intent} (hs : Saves env w (some r) i)
    (hr : early r.state = true → r.confirmationId = none) :
    early i.state = true → i.confirmationId = none := by
  intro hi
  cases hs with
  | @hop _ event target ok edge =>
    refine hr ?_
    have hi : early target = true := hi
    cases hstate : r.state <;> rw [hstate] at edge <;> cases event <;> cases edge <;>
      first
        | rfl
        | exact absurd hi (by decide)
  | issued => cases hi
  | settled => cases hi
  | _ => exact hr hi

theorem Row.once_saved {w : World} {r i : Intent} (hr : Row env w.history r)
    (hs : Saves env w (some r) i) (hd : Departed (w.history ++ [.stored i]) i.id) :
    i.context.assurance = .strong ∧ i.state ≠ .awaitingStepUp := by
  have hid := hs.kept.1
  have hleft : Departed w.history r.id ∨ r.state = .awaitingStepUp ∧ i.state = .validated := by
    rcases departed_snoc hd with hd | ⟨j, hj, -, l, hl, hlstate, hjstate⟩
    · exact Or.inl (hid ▸ hd)
    · obtain rfl := Obs.stored.inj hj
      rw [hid, hr.latest] at hl
      obtain rfl := Option.some.inj hl
      exact Or.inr ⟨hlstate, hjstate⟩
  rcases hleft with hd | ⟨hwas, his⟩
  · obtain ⟨hstrong, hstate⟩ := hr.once hd
    cases hs with
    | @hop _ event target ok edge =>
      refine ⟨hstrong, fun h => ?_⟩
      -- Into `AWAITING_STEP_UP` goes only an intent that is not strong.
      cases hst : r.state <;> rw [hst] at edge <;> cases event <;> cases edge <;> cases h
      exact ok hstrong
    | issued => exact ⟨hstrong, by simp [withToken]⟩
    | settled => exact ⟨hstrong, by simp⟩
    | strengthened state => exact absurd state hstate
    | consented => exact ⟨hstrong, hstate⟩
    | noted => exact ⟨hstrong, hstate⟩
  · refine ⟨?_, by rw [his]; decide⟩
    cases hs with
    | @hop _ event target ok edge =>
      have his : target = .validated := his
      rw [hwas, his] at edge
      cases event <;> cases edge
      exact ok.1
    | issued state => rw [hwas] at state; cases state
    | settled paid edge => rw [hwas] at edge; cases edge
    | strengthened => exact absurd (hwas.symm.trans his) (by decide)
    | consented state => rw [hwas] at state; cases state
    | noted => exact absurd (hwas.symm.trans his) (by decide)

theorem Row.sole_saved {w : World} {r i : Intent} (hr : Row env w.history r)
    (hs : Saves env w (some r) i) {j : Intent} (hj : .stored j ∈ w.history ++ [.stored i])
    (hid : j.id = i.id) {t : String} (ht : j.confirmationId = some t) : i.confirmationId = some t := by
  rcases List.mem_append.mp hj with hj | hj
  · have hrt := hr.sole j hj (hid.trans hs.kept.1) t ht
    cases hs with
    | issued state =>
      rw [hr.untokened (by rw [state]; rfl)] at hrt
      cases hrt
    | _ => exact hrt
  · obtain rfl := Obs.stored.inj (List.mem_singleton.mp hj)
    exact ht

theorem Row.token_saved {w : World} {r i : Intent} (hr : Row env w.history r)
    (hs : Saves env w (some r) i) {t : String} (ht : i.confirmationId = some t) :
    Issued env (w.history ++ [.stored i]) i t := by
  obtain ⟨o, hproposed, hcont, hassured⟩ := hr.origin
  have hold : r.confirmationId = some t → Issued env (w.history ++ [.stored i]) i t := by
    intro hrt
    obtain ⟨pre, j, post, o, op, seg, risk, moment, heq, hnone, hj, hp, hor, hoj, hv⟩ := hr.token t hrt
    have hi : Issued env w.history i t :=
      ⟨pre, j, post, o, op, seg, risk, moment, heq, hnone, hj, hp, hor.saved hs, hoj, hv⟩
    exact hi.more _
  cases hs with
  | @issued _ op seg n instant moment risk state drawn fresh during evaluated =>
    obtain rfl := Option.some.inj ht
    have hvetted : Vetted env w.history (withToken env r (newIdAt env "conf" n) instant) o op seg
        risk moment :=
      { during := during
        risked := evaluated.risked
        readAt := evaluated.readAt
        limit := Decimal.not_lt.mp evaluated.cleared.hardLimit
        night := evaluated.cleared.night
        strong := fun hneeds => hassured.strong (evaluated.cleared.strong hneeds)
          (by rw [state]; decide) (by rw [state]; decide) }
    have hcont' : Continues o (withToken env r (newIdAt env "conf" n) instant) :=
      ⟨hcont.id, hcont.action, hcont.customer, hcont.session, hcont.device⟩
    exact ⟨w.history, _, [], o, op, seg, risk, moment, rfl, fresh, rfl, hproposed, hcont', hcont',
      hvetted⟩
  | _ => exact hold ht

/-- **A save keeps the row and the history together.** -/
theorem Row.save {w : World} {r i : Intent} (hr : Row env w.history r)
    (hs : Saves env w (some r) i) : Row env (w.history ++ [.stored i]) i := by
  obtain ⟨o, hproposed, hcont, hassured⟩ := hr.origin
  refine ⟨?_, ⟨o, hproposed.more _, hcont.saved hs, (hassured.saved hcont hs).more _⟩,
    early_saved hs hr.untokened, fun t ht => hr.token_saved hs ht, hr.once_saved hs,
    fun j hj hid t ht => hr.sole_saved hs hj hid ht⟩
  rw [latestOf_snoc]
  simp [Obs.version]

theorem Row.mono {h : List Obs} {o : Obs} {r : Intent} (ho : o.version r.id = none)
    (hr : Row env h r) : Row env (h ++ [o]) r := by
  obtain ⟨p, hproposed, hcont, hassured⟩ := hr.origin
  have hother : ∀ i, o = .stored i → i.id ≠ r.id := by
    rintro i rfl hid
    simp [Obs.version, hid] at ho
  refine ⟨by rw [latestOf_snoc, ho, Option.none_or, hr.latest],
    ⟨p, hproposed.more [o], hcont, hassured.more [o]⟩, hr.untokened, fun t ht => (hr.token t ht).more [o],
    fun hd => ?_, fun i hi hid t ht => ?_⟩
  · rcases departed_snoc hd with hd | ⟨i, hi, hid, -⟩
    · exact hr.once hd
    · exact absurd hid (hother i hi)
  · rcases List.mem_append.mp hi with hi | hi
    · exact hr.sole i hi hid t ht
    · exact absurd hid (hother i (List.mem_singleton.mp hi).symm)

theorem Row.opened {w : World} {i : Intent} (hi : Inv env w) (hnone : w.row i.id = none)
    (hs : Saves env w none i) : Row env (w.history ++ [.stored i]) i := by
  have hnew : ∀ j, .stored j ∈ w.history → j.id ≠ i.id := fun j hj => hi.unwritten hnone hj
  have hopening : openingOf w.history i.id = none := by
    cases ho : openingOf w.history i.id with
    | none => rfl
    | some j =>
      obtain ⟨hstored, hid⟩ := stored_of_openingOf ho
      exact absurd hid (hnew j hstored)
  have hlatest : latestOf w.history i.id = none := by
    cases ho : latestOf w.history i.id with
    | none => rfl
    | some j =>
      obtain ⟨hstored, hid⟩ := stored_of_latestOf ho
      exact absurd hid (hnew j hstored)
  have hnever : ¬ Departed (w.history ++ [.stored i]) i.id := by
    intro hd
    rcases departed_snoc hd with ⟨pre, j, post, heq, hid, -⟩ | ⟨j, hj, -, l, hl, -⟩
    · exact hnew j (by rw [heq]; simp) hid
    · obtain rfl := Obs.stored.inj hj
      rw [hlatest] at hl
      cases hl
  cases hs with
  | opened during drawn principal =>
    have hproposed : Proposed (w.history ++ [.stored _]) _ :=
      ⟨w.history, [], _, _, _, rfl, hopening, during⟩
    refine ⟨?_, ⟨_, hproposed, ⟨rfl, rfl, rfl, rfl, rfl⟩, Or.inl rfl⟩, fun _ => rfl,
      fun t ht => (by cases ht), fun hd => absurd hd hnever, fun j hj hid t ht => ?_⟩
    · rw [latestOf_snoc]
      simp [Obs.version]
    · rcases List.mem_append.mp hj with hj | hj
      · exact absurd hid (hnew j hj)
      · rw [← Obs.stored.inj (List.mem_singleton.mp hj)]
        exact ht

/-- Every row keeps with the history, whatever call is made next. -/
theorem preserved_row :
    Preserved env kind fun w => ∀ k r, w.row k = some r → Row env w.history r :=
  preserved_rows (fun _ _ _ ho hr => hr.mono ho) (fun _ _ hi hnone hs => Row.opened hi hnone hs)
    fun _ _ _ _ _ hs hr => hr.save hs

/-! ## Whole runs -/

/-- A save leaves the assurance, or a `step_up` by the intent's customer makes it strong. -/
def StrengthensOnly (h : List Obs) (r i : Intent) : Prop :=
  i.context.assurance = r.context.assurance ∨
    i.context.assurance = .strong ∧
      ∃ ctx seg, During h (.stepUp ctx i.id) seg ∧ ctx.customerId = r.context.customerId

/-- What every save in a history meets. -/
def StoredOverseen (env : Env) (h : List Obs) : Obs → Prop
  | .stored i => Row env (h ++ [.stored i]) i ∧
      (∀ r, latestOf h i.id = some r → StrengthensOnly h r i) ∧ (Leaves h i → ¬ Departed h i.id)
  | _ => True

theorem StrengthensOnly.saved {w : World} {r i : Intent} (hs : Saves env w (some r) i) :
    StrengthensOnly w.history r i := by
  cases hs with
  | strengthened state during customer => exact Or.inr ⟨rfl, _, _, during, customer.symm⟩
  | _ => exact Or.inl rfl

theorem stored_overseen {w : World} {i : Intent} (hi : Inv env w)
    (hrows : ∀ k r, w.row k = some r → Row env w.history r) (hs : Saves env w (w.row i.id) i) :
    StoredOverseen env w.history (.stored i) := by
  cases hr : w.row i.id with
  | none =>
    rw [hr] at hs
    have hlatest : ∀ r, latestOf w.history i.id ≠ some r := by
      intro r hl
      obtain ⟨hstored, hid⟩ := stored_of_latestOf hl
      exact hi.unwritten hr hstored hid
    exact ⟨Row.opened hi hr hs, fun r hl => absurd hl (hlatest r), fun ⟨r, hl, _⟩ => absurd hl (hlatest r)⟩
  | some r =>
    rw [hr] at hs
    have hrow := hrows _ r hr
    have hid : r.id = i.id := key_of_row hr
    refine ⟨hrow.save hs, fun l hl => ?_, ?_⟩
    · rw [← hid, hrow.latest] at hl
      rw [← Option.some.inj hl]
      exact StrengthensOnly.saved hs
    · rintro ⟨l, hl, hstate, -⟩ hd
      rw [← hid, hrow.latest] at hl
      rw [← Option.some.inj hl] at hstate
      exact (hrow.once (hid ▸ hd)).2 hstate

/-- An intent a reader of the store can be given, now or at any time before. -/
def Shown (kind : StoreKind) (w : World) (i : Intent) : Prop :=
  i ∈ w.intents kind ∨ .stored i ∈ w.history

/-- What a reader is given was saved so, but for a reason written after the last save. -/
theorem Shown.stored {w : World} {i : Intent} (hg : Good env kind w)
    (hrows : ∀ k r, w.row k = some r → Row env w.history r) (hi : Shown kind w i) :
    ∃ r reason, .stored r ∈ w.history ∧ i = { r with reason := reason } := by
  have hrow : ∀ r, w.row i.id = some r → .stored r ∈ w.history := fun r hr =>
    (stored_of_latestOf (hrows _ r hr).latest).1
  rcases hi with hi | hi
  · cases kind with
    | postgres => exact ⟨i, i.reason, hrow i (Keyed.find_of_mem Intent.id hg.inv.nodup hi), rfl⟩
    | memory =>
      have hobject : w.object i.id = some i := Keyed.find_of_mem Intent.id hg.inv.nodupObjects hi
      have hagree := hg.mirror rfl i.id
      rw [hobject] at hagree
      cases hr : w.row i.id with
      | none => rw [hr] at hagree; exact hagree.elim
      | some r =>
        rw [hr] at hagree
        rcases hagree with rfl | ⟨-, heq⟩
        · exact ⟨i, i.reason, hrow i hr, rfl⟩
        · exact ⟨r, i.reason, hrow r hr, heq⟩
  · exact ⟨i, i.reason, hi, rfl⟩

/-- Policy and assurance, over the run that led to `w`. -/
structure Overseen (env : Env) (kind : StoreKind) (w : World) : Prop where
  vetted : ∀ i, Shown kind w i → ∀ t, i.confirmationId = some t → Issued env w.history i t
  kept : ∀ i, Shown kind w i → ∃ o, openingOf w.history i.id = some o ∧ Proposed w.history o ∧
    Continues o i ∧ (i.context.assurance = o.context.assurance ∨ i.context.assurance = .strong)
  strengthened : ∀ pre i post r, w.history = pre ++ .stored i :: post →
    latestOf pre i.id = some r → StrengthensOnly pre r i
  leftOnce : ∀ pre i post, w.history = pre ++ .stored i :: post → Leaves pre i →
    ¬ Departed pre i.id
  oneToken : ∀ i j s t, Shown kind w i → Shown kind w j → i.id = j.id → i.confirmationId = some s →
    j.confirmationId = some t → s = t

section Runs
variable {w : World} (hw : Reach env kind (fun _ => True) (Untampered kind) w)
include hw

theorem Reach.overseen : Good env kind w ∧ (∀ k r, w.row k = some r → Row env w.history r) ∧
    History.Past (StoredOverseen env) w.history :=
  hw.preserved (fun _ _ hs => hs.sound)
    (preserved_past preserved_row (P := StoredOverseen env)
      (fun w i hi hrows hs => stored_overseen hi hrows hs) (fun _ _ _ _ _ => trivial)
      (fun _ _ => trivial) fun _ o ho => by cases o <;> trivial)
    (fun bank _ => ⟨fun k r hr => by simp [World.row] at hr, History.past_nil _⟩)
    (fun w id columns hs _ => hs.elim) fun w b _ hI => hI

/-- What was saved agreed with the history then. -/
theorem Reach.storedRow {r : Intent} (hr : .stored r ∈ w.history) :
    ∃ pre post, w.history = (pre ++ [.stored r]) ++ post ∧ Row env (pre ++ [.stored r]) r := by
  obtain ⟨-, -, hpast⟩ := hw.overseen
  obtain ⟨pre, post, heq⟩ := List.append_of_mem hr
  exact ⟨pre, post, by rw [heq]; simp, (hpast pre _ post heq).1⟩

/-- Policy stands behind every token a reader of the store can be given. -/
theorem Reach.vetted {i : Intent} (hi : Shown kind w i) {t : String} (ht : i.confirmationId = some t) :
    Issued env w.history i t := by
  obtain ⟨hgood, hrows, -⟩ := hw.overseen
  obtain ⟨r, reason, hr, rfl⟩ := hi.stored hgood hrows
  obtain ⟨pre, post, heq, hrow⟩ := hw.storedRow hr
  obtain ⟨p, j, q, o, op, seg, risk, moment, hsplit, hnone, hj, hp, hcont, hrest⟩ := hrow.token t ht
  have hissued : Issued env (pre ++ [.stored r]) { r with reason := reason } t :=
    ⟨p, j, q, o, op, seg, risk, moment, hsplit, hnone, hj, hp,
      ⟨hcont.id, hcont.action, hcont.customer, hcont.session, hcont.device⟩, hrest⟩
  rw [heq]
  exact hissued.more post

/-- **Policy stands behind every token, and assurance grows once.** A token's amount is within the hard
limit, was not evaluated at night if large, and if large or risky was proposed with strong assurance or
after the customer's own step-up; the rest of the intent stays as proposed. -/
theorem assurance_over_runs : Overseen env kind w := by
  obtain ⟨hgood, hrows, hpast⟩ := hw.overseen
  refine ⟨fun i hi t ht => hw.vetted hi ht, fun i hi => ?_,
    fun pre i post r heq hl => (hpast pre _ post heq).2.1 r hl,
    fun pre i post heq => (hpast pre _ post heq).2.2, fun i j s t hi hj hid hs ht => ?_⟩
  · obtain ⟨r, reason, hr, rfl⟩ := hi.stored hgood hrows
    obtain ⟨pre, post, heq, hrow⟩ := hw.storedRow hr
    obtain ⟨o, hproposed, hcont, hassured⟩ := hrow.origin
    have hp : Proposed w.history o := heq ▸ hproposed.more post
    refine ⟨o, ?_, hp, ⟨hcont.id, hcont.action, hcont.customer, hcont.session, hcont.device⟩,
      hassured.imp_right And.left⟩
    rw [show ({ r with reason := reason } : Intent).id = o.id from hcont.id]
    exact hp.opening
  · obtain ⟨r, reason, hr, rfl⟩ := hi.stored hgood hrows
    obtain ⟨r', reason', hr', rfl⟩ := hj.stored hgood hrows
    have hs : r.confirmationId = some s := hs
    have ht : r'.confirmationId = some t := ht
    have hid : r.id = r'.id := hid
    rcases History.mem_order hr hr' with ⟨pre, post, heq, hmem⟩ | ⟨pre, post, heq, hmem⟩
    · have hsole := (hpast pre _ post heq).1.sole r' hmem hid.symm t ht
      rw [hs] at hsole
      exact Option.some.inj hsole
    · have hsole := (hpast pre _ post heq).1.sole r hmem hid s hs
      rw [ht] at hsole
      exact (Option.some.inj hsole).symm

end Runs

/-! A payment of R$ 1.500,00 proposed in a session that is not strong, then stepped up. -/

def weakSession : Context := { session with assurance := .medium }

def vettedSteps : List Step := [
  .op (.propose weakSession { recipient := "Renata", amount := money1500, named := renata_named } "pay"),
  .op (.stepUp weakSession "pix_000000000000")]

def vettedWorld : World := after (sampleEnv noon) .memory vettedSteps { bank := {} }

theorem vettedWorld_reached :
    Reach (sampleEnv noon) .memory (fun _ => True) (Untampered .memory) vettedWorld :=
  (Reach.start {} trivial).after ⟨trivial, trivial, trivial⟩

theorem assurance_over_runs_sample : Overseen (sampleEnv noon) .memory vettedWorld ∧
    (vettedWorld.objects.map fun i => (i.state, i.confirmationId, i.context.assurance)) =
      [(.awaitingConfirmation, some "conf_000000000001", .strong)] :=
  ⟨assurance_over_runs vettedWorld_reached, by decide +kernel⟩

end BankingControlPlane
