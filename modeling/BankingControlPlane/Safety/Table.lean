import BankingControlPlane.Plane.Sweeping
import BankingControlPlane.Safety.Assurance
import BankingControlPlane.Safety.Stored

/-!
# The plane's rows in Postgres

The plane is modelled over rows that are intents. `PgStore` keeps them in columns.

* `putsOf` : the puts a history made;
* `Reach.sameOwner`, `Reach.ownTokens` : in every run they keep what the table asks of its callers;
* `table_answers` : the table they make answers every question as the rows do.
-/

namespace BankingControlPlane
open Effects PgStore

variable {F : Type} {env : Env} {kind : StoreKind} {w : World}

/-! ## An intent as the source types it -/

/-- The receipt as `create_pix` makes it. -/
def Receipt.dict (r : Receipt) : Dict F :=
  [("payment_id", .str r.paymentId), ("end_to_end_id", .str r.endToEndId), ("status", .str r.status),
    ("amount", .str r.amount), ("recipient_id", .str r.recipientId)]

def Intent.pg (i : Intent) : PgIntent F where
  id := i.id
  action := i.action
  context := i.context
  state := i.state
  createdAt := i.createdAt
  confirmationId := i.confirmationId
  confirmationIssuedAt := i.confirmationIssuedAt
  actionDigest := i.actionDigest
  confirmedAt := i.confirmedAt
  confirmedBy := i.confirmedBy
  receipt := i.receipt.map Receipt.dict
  reason := i.reason

def Obs.saved? : Obs → Option Intent
  | .stored i => some i
  | _ => none

/-- The puts a history made. -/
def putsOf (h : List Obs) : List (PgIntent F) := (h.filterMap Obs.saved?).map Intent.pg

theorem mem_putsOf {h : List Obs} {p : PgIntent F} : p ∈ putsOf h ↔ ∃ i, .stored i ∈ h ∧ p = i.pg := by
  simp only [putsOf, List.mem_map, List.mem_filterMap]
  constructor
  · rintro ⟨i, ⟨o, ho, hi⟩, rfl⟩
    cases o with
    | stored j =>
      obtain rfl := Option.some.inj hi
      exact ⟨j, ho, rfl⟩
    | _ => cases hi
  · rintro ⟨i, hi, rfl⟩
    exact ⟨i, ⟨_, hi, rfl⟩, rfl⟩

/-- The last put under an id is of the intent as last saved. -/
theorem lastPut_putsOf (h : List Obs) (id : String) :
    lastPut (putsOf (F := F) h) id = (latestOf h id).map Intent.pg := by
  induction h using List.reverseRecOn with
  | nil => rfl
  | append_singleton h o ih =>
    have hsnoc : putsOf (F := F) (h ++ [o]) = putsOf h ++ (o.saved?.map Intent.pg).toList := by
      unfold putsOf
      rw [List.filterMap_append, List.map_append]
      cases o <;> rfl
    rw [hsnoc, latestOf_snoc]
    cases o with
    | stored i =>
      change lastPut (putsOf h ++ [i.pg]) id = _
      rw [lastPut_snoc, ih]
      change (if i.id = id then _ else _) = (Option.or (if i.id = id then some i else none) _).map _
      split_ifs <;> rfl
    | _ =>
      change lastPut (putsOf h ++ []) id = _
      rw [List.append_nil, ih]
      rfl

/-! ## What the plane keeps of an intent -/

/-- Every version saved has its row's owner and creation time. -/
def Owned (w : World) : Prop :=
  ∀ i, .stored i ∈ w.history → ∀ r, w.row i.id = some r → r.createdAt = i.createdAt ∧
    r.context.customerId = i.context.customerId ∧ r.context.sessionId = i.context.sessionId

theorem preserved_owned : Preserved env kind Owned := by
  have hnote : ∀ {w w' : World} (o : Obs), Obs.saved? o = none → w'.history = w.history ++ [o] →
      (∀ k, w'.row k = w.row k) → Owned w → Owned w' := by
    intro w w' o ho hhistory hrows hI i hi r hr
    rw [hhistory] at hi
    rcases List.mem_append.mp hi with hi | hi
    · exact hI i hi r (hrows _ ▸ hr)
    · rw [← List.mem_singleton.mp hi] at ho
      cases ho
  refine ⟨fun c w hc hi hI => ?_, fun w op _ hI => hnote (.began op) rfl rfl (fun _ => rfl) hI⟩
  cases c with
  | put i =>
    have hs : Saves env w (w.row i.id) i := hc
    intro j hj r hr
    simp only [serve, World.row_put, hs.saved] at hr
    simp only [serve, World.put, hs.saved, List.mem_append, List.mem_singleton] at hj
    split_ifs at hr with hid
    · obtain rfl := Option.some.inj hr
      rcases hj with hj | hj
      · obtain ⟨r, hrow⟩ := hi.written j hj
        obtain ⟨hcreated, hcustomer, hsession⟩ := hI j hj r hrow
        rw [hid, hrow] at hs
        obtain ⟨-, hcreated', hcustomer', hsession', -⟩ := hs.kept
        exact ⟨hcreated'.trans hcreated, hcustomer'.trans hcustomer, hsession'.trans hsession⟩
      · obtain rfl := Obs.stored.inj hj
        exact ⟨rfl, rfl, rfl⟩
    · rcases hj with hj | hj
      · exact hI j hj r hr
      · exact absurd (congrArg Intent.id (Obs.stored.inj hj)).symm hid
  | append id e => exact hnote (.appended ⟨id, e⟩) rfl rfl (fun _ => rfl) hI
  | clock use => exact hnote (.read use (env.clock w.ticks)) rfl rfl (fun _ => rfl) hI
  | createPix o => exact hnote (.asked o) rfl rfl (fun _ => rfl) hI
  | _ => exact hI

/-- A version saved with a token is of the intent the token was issued for. -/
def StoredOfIssue (h : List Obs) : Obs → Prop
  | .stored i => ∀ t, i.confirmationId = some t → ∃ j, issueOf (h ++ [.stored i]) t = some j ∧ j.id = i.id
  | _ => True

theorem stored_ofIssue {i : Intent} (hrows : ∀ k r, w.row k = some r → Sealed env w.history r)
    (hs : Saves env w (w.row i.id) i) : StoredOfIssue w.history (.stored i) := by
  intro t ht
  cases hr : w.row i.id with
  | none =>
    rw [hr] at hs
    cases hs
    cases ht
  | some r =>
    rw [hr] at hs
    obtain ⟨j, -, hj, hid, -⟩ := (hrows _ r hr).save hs t ht
    exact ⟨j, hj, hid⟩

section Runs
variable (hw : Reach env kind (fun _ => True) (Untampered kind) w)
include hw

theorem Reach.sameOwner : SameOwner (putsOf (F := F) w.history) := by
  obtain ⟨hgood, howned⟩ := hw.preserved (fun _ _ hs => hs.sound) preserved_owned
    (fun bank _ i hi => by cases hi) (fun w id columns hs _ => hs.elim) fun w b _ hI => hI
  intro p hp q hq hid
  obtain ⟨i, hi, rfl⟩ := mem_putsOf.mp hp
  obtain ⟨j, hj, rfl⟩ := mem_putsOf.mp hq
  have hid : i.id = j.id := hid
  obtain ⟨r, hr⟩ := hgood.inv.written i hi
  obtain ⟨hcreated, hcustomer, hsession⟩ := howned i hi r hr
  obtain ⟨hcreated', hcustomer', hsession'⟩ := howned j hj r (hid ▸ hr)
  exact ⟨hcreated.symm.trans hcreated', hcustomer.symm.trans hcustomer',
    hsession.symm.trans hsession'⟩

theorem Reach.ownTokens : OwnTokens (putsOf (F := F) w.history) := by
  obtain ⟨-, -, hpast⟩ := hw.preserved (fun _ _ hs => hs.sound)
    (preserved_past preserved_sealed (P := StoredOfIssue)
      (fun _ _ _ hrows hs => stored_ofIssue hrows hs) (fun _ _ _ _ _ => trivial)
      (fun _ _ => trivial) fun _ o ho => by cases o <;> trivial)
    (fun bank _ => ⟨fun k r hr => by simp [World.row] at hr, History.past_nil _⟩)
    (fun w id columns hs _ => hs.elim) fun w b _ hI => hI
  have hissued : ∀ i t, .stored i ∈ w.history → i.confirmationId = some t →
      ∃ a, issueOf w.history t = some a ∧ a.id = i.id := by
    intro i t hi ht
    obtain ⟨pre, post, heq⟩ := List.append_of_mem hi
    obtain ⟨a, ha, hid⟩ := hpast pre _ post heq t ht
    refine ⟨a, ?_, hid⟩
    rw [heq, ← List.singleton_append, ← List.append_assoc]
    exact issueOf_more ha post
  intro p hp q hq hne hsome hsame
  obtain ⟨i, hi, rfl⟩ := mem_putsOf.mp hp
  obtain ⟨j, hj, rfl⟩ := mem_putsOf.mp hq
  obtain ⟨t, ht⟩ := Option.ne_none_iff_exists'.mp hsome
  obtain ⟨a, ha, hai⟩ := hissued i t hi ht
  obtain ⟨b, hb, hbj⟩ := hissued j t hj (hsame.symm.trans ht)
  obtain rfl := Option.some.inj (ha.symm.trans hb)
  exact hne (hai.symm.trans hbj)

/-- A row is the intent as last saved. -/
theorem Reach.row_eq_latestOf (k : String) : w.row k = latestOf w.history k := by
  obtain ⟨hgood, hrows, -⟩ := hw.overseen
  cases hr : w.row k with
  | some r =>
    have hlatest := (hrows k r hr).latest
    rw [key_of_row hr] at hlatest
    exact hlatest.symm
  | none =>
    cases hlatest : latestOf w.history k with
    | none => rfl
    | some i =>
      obtain ⟨hi, hid⟩ := stored_of_latestOf hlatest
      obtain ⟨r, hrow⟩ := hgood.inv.written i hi
      rw [hid, hr] at hrow
      cases hrow

end Runs

/-- A token finds the row that carries it. -/
theorem Reach.holder_iff (hw : Reach env .postgres (fun _ => True) (Untampered .postgres) w)
    (token : String) (i : Intent) :
    w.holder .postgres token = some i ↔ w.row i.id = some i ∧ i.confirmationId = some token := by
  obtain ⟨hgood, -, -⟩ := hw.overseen
  constructor
  · exact hgood.seen_of_holder
  · rintro ⟨hrow, ht⟩
    exact hgood.holder_of_seen (hw.sealed fun _ _ hs => hs) hrow ht

theorem State.str_injective : Function.Injective State.str := by
  intro s t h
  have hread := congrArg State.ofStr? h
  rw [State.ofStr?_str, State.ofStr?_str] at hread
  exact Option.some.inj hread

/-- The table answers as the plane's rows do. -/
structure AnswersAs (w : World) (rows : List (IntentRow F)) : Prop where
  get : ∀ id, PgStore.get rows id = .ok ((w.seen .postgres id).map Intent.pg)
  byConfirmation : ∀ token, PgStore.byConfirmation rows token =
    .ok ((w.holder .postgres token).map Intent.pg)
  unsettled : ∀ states : List State, ∃ found, PgStore.unsettled rows (states.map State.str) = .ok found ∧
    ∀ p, p ∈ found ↔ ∃ i ∈ w.unsettled .postgres states, p = i.pg

/-- **In every run, the puts the plane makes build a table that answers as the rows the plane is modelled
over.** -/
theorem table_answers (hw : Reach env .postgres (fun _ => True) (Untampered .postgres) w) :
    ∃ rows : List (IntentRow F), putAll [] (putsOf w.history) = .ok rows ∧ AnswersAs w rows := by
  obtain ⟨rows, hputs, h⟩ := Holds.putAll (putsOf (F := F) w.history) hw.sameOwner hw.ownTokens
  have hlast : ∀ id, lastPut (putsOf (F := F) w.history) id = (w.row id).map Intent.pg := fun id => by
    rw [lastPut_putsOf, hw.row_eq_latestOf]
  refine ⟨rows, hputs, fun id => ?_, fun token => ?_, fun states => ?_⟩
  · rw [h.get, hlast]
    rfl
  · obtain ⟨found, hfound, hiff⟩ := h.byConfirmation hw.ownTokens token
    rw [hfound]
    refine congrArg Except.ok (Option.ext fun p => ?_)
    rw [hiff, Option.map_eq_some_iff]
    constructor
    · rintro ⟨id, hput, ht⟩
      rw [hlast] at hput
      obtain ⟨i, hrow, rfl⟩ := Option.map_eq_some_iff.mp hput
      exact ⟨i, (hw.holder_iff token i).mpr ⟨key_of_row hrow ▸ hrow, ht⟩, rfl⟩
    · rintro ⟨i, hi, rfl⟩
      obtain ⟨hrow, ht⟩ := (hw.holder_iff token i).mp hi
      exact ⟨i.id, by rw [hlast, hrow]; rfl, ht⟩
  · obtain ⟨found, hfound, -, hiff⟩ := h.unsettled (states.map State.str)
    refine ⟨found, hfound, fun p => ?_⟩
    rw [hiff]
    constructor
    · rintro ⟨id, hput, hstate⟩
      rw [hlast] at hput
      obtain ⟨i, hrow, rfl⟩ := Option.map_eq_some_iff.mp hput
      have hstate : i.state ∈ states := (List.mem_map_of_injective State.str_injective).mp hstate
      exact ⟨i, World.mem_unsettled.mpr ⟨Keyed.mem_of_find Intent.id hrow, hstate⟩, rfl⟩
    · rintro ⟨i, hi, rfl⟩
      obtain ⟨hmem, hstate⟩ := World.mem_unsettled.mp hi
      have hrow : w.row i.id = some i := Keyed.find_of_mem Intent.id hw.overseen.1.inv.nodup hmem
      exact ⟨i.id, by rw [hlast, hrow]; rfl, List.mem_map_of_mem hstate⟩

end BankingControlPlane
