import BankingControlPlane.Data.Past
import BankingControlPlane.Plane.World

/-!
# Runs

* `Step` : an operation, an operation cut short, a write to the store by someone else, another bank;
* `Reach` : the worlds some run of admissible steps leads to, from an empty store;
* readings of a history: `ledgerOf`, `issueOf` (the intent as it was first saved with a token) and
  `During` (the operation under way and what it has done).
-/

namespace BankingControlPlane
open Effects

/-! ## Readings of a history -/

def Obs.IsBegan : Obs → Prop
  | .began _ => True
  | _ => False

/-- A note that changes nothing: an operation began, or the clock was read. -/
def Obs.Silent : Obs → Prop
  | .began _ | .read _ _ => True
  | _ => False

/-- The operation under way is `op`, and `seg` is what it has done so far. -/
abbrev During (h : List Obs) (op : Op) (seg : List Obs) : Prop :=
  History.Since Obs.IsBegan h (.began op) seg

def Obs.event : Obs → Option Event
  | .appended e => some e
  | _ => none

theorem Obs.Silent.event {o : Obs} (h : o.Silent) : o.event = none := by
  cases o <;> first | rfl | exact h.elim

/-- The ledger a history wrote. -/
def ledgerOf (h : List Obs) : List Event := h.filterMap Obs.event

def Obs.issue (token : String) : Obs → Option Intent
  | .stored i => if i.confirmationId = some token then some i else none
  | _ => none

/-- The intent as it was when the plane first saved it with this token. -/
def issueOf (h : List Obs) (token : String) : Option Intent := h.findSome? (Obs.issue token)

/-- The version of the intent `id` a note saves. -/
def Obs.version (id : String) : Obs → Option Intent
  | .stored i => if i.id = id then some i else none
  | _ => none

/-- The intent as the plane first saved it. -/
def openingOf (h : List Obs) (id : String) : Option Intent := h.findSome? (Obs.version id)

/-- The intent as the plane last saved it. -/
def latestOf (h : List Obs) (id : String) : Option Intent := h.reverse.findSome? (Obs.version id)

theorem latestOf_snoc (h : List Obs) (id : String) (o : Obs) :
    latestOf (h ++ [o]) id = (o.version id).or (latestOf h id) := by
  simp only [latestOf, List.reverse_append, List.reverse_singleton, List.singleton_append,
    List.findSome?_cons]
  cases o.version id <;> rfl

theorem stored_of_version {h : List Obs} {id : String} {i : Intent} {o : Obs} (ho : o ∈ h)
    (hi : o.version id = some i) : .stored i ∈ h ∧ i.id = id := by
  cases o with
  | stored j =>
    simp only [Obs.version] at hi
    split_ifs at hi with hj
    obtain rfl := Option.some.inj hi
    exact ⟨ho, hj⟩
  | _ => cases hi

theorem stored_of_latestOf {h : List Obs} {id : String} {i : Intent}
    (hi : latestOf h id = some i) : .stored i ∈ h ∧ i.id = id := by
  obtain ⟨o, ho, heq⟩ := List.exists_of_findSome?_eq_some hi
  exact stored_of_version (List.mem_reverse.mp ho) heq

theorem stored_of_openingOf {h : List Obs} {id : String} {i : Intent}
    (hi : openingOf h id = some i) : .stored i ∈ h ∧ i.id = id := by
  obtain ⟨o, ho, heq⟩ := List.exists_of_findSome?_eq_some hi
  exact stored_of_version ho heq

theorem issueOf_snoc (h : List Obs) (token : String) (o : Obs) :
    issueOf (h ++ [o]) token = (issueOf h token).or (o.issue token) := by
  simp only [issueOf, List.findSome?_append, List.findSome?_cons, List.findSome?_nil]
  cases o.issue token <;> rfl

/-- The issue of a token stays what it was. -/
theorem issueOf_more {h : List Obs} {token : String} {i : Intent} (hi : issueOf h token = some i)
    (more : List Obs) : issueOf (h ++ more) token = some i := by
  unfold issueOf at hi ⊢
  rw [List.findSome?_append, hi, Option.some_or]

theorem issueOf_some {h : List Obs} {token : String} {i : Intent} (hi : issueOf h token = some i)
    (o : Obs) : issueOf (h ++ [o]) token = some i := issueOf_more hi [o]

theorem stored_of_issueOf {h : List Obs} {token : String} {i : Intent}
    (hi : issueOf h token = some i) : .stored i ∈ h ∧ i.confirmationId = some token := by
  obtain ⟨o, ho, heq⟩ := List.exists_of_findSome?_eq_some hi
  cases o with
  | stored j =>
    simp only [Obs.issue] at heq
    split_ifs at heq with hj
    obtain rfl := Option.some.inj heq
    exact ⟨ho, hj⟩
  | _ => cases heq

theorem issueOf_of_stored {h : List Obs} {token : String} {i : Intent} (hi : .stored i ∈ h)
    (ht : i.confirmationId = some token) : ∃ j, issueOf h token = some j := by
  rw [← Option.isSome_iff_exists, issueOf, List.findSome?_isSome_iff]
  exact ⟨_, hi, by simp [Obs.issue, ht]⟩

@[simp] theorem ledgerOf_snoc (h : List Obs) (o : Obs) :
    ledgerOf (h ++ [o]) = ledgerOf h ++ o.event.toList := by
  simp only [ledgerOf, List.filterMap_append, List.filterMap_cons, List.filterMap_nil]
  cases o.event <;> rfl

/-! ## Steps -/

/-- Columns another writer puts over an intent's own; `none` leaves a column alone. -/
structure Columns where
  action : Option CreatePix := none
  actionDigest : Option (Option String) := none
  confirmationId : Option (Option String) := none
  confirmationIssuedAt : Option (Option Instant) := none
deriving DecidableEq, Repr

def Columns.write (c : Columns) (i : Intent) : Intent :=
  { i with
    action := c.action.getD i.action
    actionDigest := c.actionDigest.getD i.actionDigest
    confirmationId := c.confirmationId.getD i.confirmationId
    confirmationIssuedAt := c.confirmationIssuedAt.getD i.confirmationIssuedAt }

/-- An intent edited in the store, by someone else. -/
def World.edit (w : World) (intentId : String) (f : Intent → Intent) : World :=
  { w with
    rows := w.rows.map fun i => if i.id = intentId then f i else i
    objects := w.objects.map fun i => if i.id = intentId then f i else i }

inductive Step where
  | op (o : Op)
  | cut (o : Op) (calls : Nat)
  | splice (intentId : String) (columns : Columns)
  | bank (b : MockBank)
deriving DecidableEq, Repr

def Step.next (env : Env) (kind : StoreKind) : Step → World → World
  | .op o, w => (exec env kind o w).2
  | .cut o calls, w => BankingControlPlane.cut env kind o calls w
  | .splice intentId columns, w => w.edit intentId columns.write
  | .bank b, w => { w with bank := b }

/-- The worlds that runs of admissible steps reach, from an empty store and an opening bank. -/
inductive Reach (env : Env) (kind : StoreKind) (opening : MockBank → Prop)
    (admissible : World → Step → Prop) : World → Prop
  | start (bank : MockBank) (hb : opening bank) : Reach env kind opening admissible { bank := bank }
  | step {w : World} (s : Step) (hw : Reach env kind opening admissible w) (hs : admissible w s) :
    Reach env kind opening admissible (s.next env kind w)

/-- The world after a list of steps. -/
def after (env : Env) (kind : StoreKind) (steps : List Step) (w : World) : World :=
  steps.foldl (fun w s => s.next env kind w) w

/-- Every step of the list is admissible where it is taken. -/
def Admitted (env : Env) (kind : StoreKind) (admissible : World → Step → Prop) :
    List Step → World → Prop
  | [], _ => True
  | s :: rest, w => admissible w s ∧ Admitted env kind admissible rest (s.next env kind w)

section Reach
variable {env : Env} {kind : StoreKind} {opening : MockBank → Prop}
  {admissible admissible' : World → Step → Prop} {w : World}

/-- An invariant of every admissible step holds in every world reached. -/
theorem Reach.invariant {I : World → Prop} (hstart : ∀ bank, opening bank → I { bank := bank })
    (hstep : ∀ w s, I w → admissible w s → I (s.next env kind w))
    (hw : Reach env kind opening admissible w) : I w := by
  induction hw with
  | start bank hb => exact hstart bank hb
  | step s _ hs ih => exact hstep _ s ih hs

theorem Reach.mono (h : ∀ w s, admissible w s → admissible' w s)
    (hw : Reach env kind opening admissible w) : Reach env kind opening admissible' w := by
  induction hw with
  | start bank hb => exact .start bank hb
  | step s _ hs ih => exact .step s ih (h _ _ hs)

theorem Reach.op (o : Op) (hw : Reach env kind opening admissible w) (hs : admissible w (.op o)) :
    Reach env kind opening admissible (exec env kind o w).2 := .step (.op o) hw hs

theorem Reach.after (hw : Reach env kind opening admissible w) {steps : List Step}
    (hs : Admitted env kind admissible steps w) :
    Reach env kind opening admissible (after env kind steps w) := by
  induction steps generalizing w with
  | nil => exact hw
  | cons s rest ih => exact ih (.step s hw hs.1) hs.2

end Reach

/-! ## An edit changes one intent -/

theorem find_edit (xs : List Intent) (intentId : String) {f : Intent → Intent}
    (hf : ∀ i, (f i).id = i.id) (k : String) :
    Keyed.find Intent.id (xs.map fun i => if i.id = intentId then f i else i) k =
      (Keyed.find Intent.id xs k).map fun i => if k = intentId then f i else i := by
  induction xs with
  | nil => rfl
  | cons x xs ih =>
    rw [List.map_cons, Keyed.find_cons, Keyed.find_cons, ih]
    have hid : (if x.id = intentId then f x else x).id = x.id := by split_ifs <;> simp [hf]
    rw [hid]
    by_cases hk : x.id = k
    · subst hk
      simp
    · simp [hk]

theorem Columns.write_id (c : Columns) (i : Intent) : (c.write i).id = i.id := rfl

theorem World.row_splice (w : World) (intentId : String) (c : Columns) (k : String) :
    (w.edit intentId c.write).row k =
      (w.row k).map fun i => if k = intentId then c.write i else i :=
  find_edit w.rows intentId c.write_id k

theorem World.object_splice (w : World) (intentId : String) (c : Columns) (k : String) :
    (w.edit intentId c.write).object k =
      (w.object k).map fun i => if k = intentId then c.write i else i :=
  find_edit w.objects intentId c.write_id k

theorem World.ids_splice (w : World) (intentId : String) (c : Columns) :
    (w.edit intentId c.write).rows.map Intent.id = w.rows.map Intent.id := by
  simp only [World.edit, List.map_map]
  refine List.map_congr_left fun i _ => ?_
  simp only [Function.comp]
  split_ifs <;> rfl

end BankingControlPlane
