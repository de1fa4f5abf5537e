import BankingControlPlane.Plane.Confirming
import BankingControlPlane.Plane.Sample

/-!
# A token and the action it was issued for

Someone without the secret puts stored values of one intent over another's. The digest covers the action
and nothing else, so an action and its digest can be moved together to another token.

* `Splices` : columns overwritten with values that some row has held;
* `OfIssue` : the order a token was issued for; `Bound` : the digest a confirm finds with the token is
  that of such an action;
* `token_of_its_action` : a confirm pays what its token was issued for exactly when that holds.
-/

namespace BankingControlPlane
open Effects

variable {env : Env} {kind : StoreKind} {w : World} {ctx : Context} {token : String} {o : Order}

/-- Every value written over a column has been saved in that column of some intent. -/
structure Columns.Seen (columns : Columns) (h : List Obs) : Prop where
  action : ∀ a, columns.action = some a → ∃ j, .stored j ∈ h ∧ j.action = a
  actionDigest : ∀ d, columns.actionDigest = some d → ∃ j, .stored j ∈ h ∧ j.actionDigest = d
  confirmationId : ∀ t, columns.confirmationId = some t → ∃ j, .stored j ∈ h ∧ j.confirmationId = t
  confirmationIssuedAt : ∀ x, columns.confirmationIssuedAt = some x →
    ∃ j, .stored j ∈ h ∧ j.confirmationIssuedAt = x

def Splices (kind : StoreKind) (w : World) : Step → Prop
  | .cut _ _ => kind = .postgres
  | .splice _ columns => columns.Seen w.history
  | _ => True

theorem Splices.sound {s : Step} (h : Splices kind w s) : s.Sound kind w := by
  cases s with
  | splice id columns => exact fun t ht => h.confirmationId (some t) ht
  | cut op n => exact h
  | _ => trivial

/-- The order has the recipient and the amount the token was issued for. -/
def OfIssue (h : List Obs) (token : String) (o : Order) : Prop :=
  ∃ j ∈ issueOf h token, o.recipientId = j.action.recipientId ∧
    o.amount.val.equals j.action.amount.val = true

instance (h : List Obs) (token : String) (o : Order) : Decidable (OfIssue h token o) :=
  inferInstanceAs (Decidable (∃ j ∈ issueOf h token, _))

/-- The digest that an intent ready for this confirm is stored with is one of an action with the
recipient and the amount the token was issued for. -/
def Bound (env : Env) (kind : StoreKind) (ctx : Context) (token : String) (w : World) : Prop :=
  ∀ r, w.holder kind token = some r → Ready env w ctx r →
    ∃ a j, issueOf w.history token = some j ∧ actionDigest env a = r.actionDigest.getD "" ∧
      a.recipientId = j.action.recipientId ∧ a.amount.val.equals j.action.amount.val = true

theorem OfIssue.more {h : List Obs} (ho : OfIssue h token o) (more : List Obs) :
    OfIssue (h ++ more) token o := by
  obtain ⟨j, hj, hsame⟩ := ho
  exact ⟨j, issueOf_more hj more, hsame⟩

/-- What the check of the digest shows: the action is the one the digest is of. -/
theorem Bound.ofIssue (hkey : env.Keyed) (hb : Bound env kind ctx token w) {r : Intent}
    (hfound : w.holder kind token = some r) (hready : Ready env w ctx r) :
    OfIssue w.history token r.order := by
  obtain ⟨a, j, hj, hdigest, hrecipient, hamount⟩ := hb r hfound hready
  have haction : r.action = a := hkey.injective (hready.digest.trans hdigest.symm)
  refine ⟨j, hj, ?_, ?_⟩
  · change r.action.recipientId = j.action.recipientId
    rw [haction]
    exact hrecipient
  · change r.action.amount.val.equals j.action.amount.val = true
    rw [haction]
    exact hamount

theorem confirmed_ofIssue_iff (hkey : env.Keyed) :
    (∀ o ∈ confirmed env kind ctx token w, OfIssue w.history token o) ↔ Bound env kind ctx token w := by
  constructor
  · intro h r hfound hready
    obtain ⟨j, hj, hrecipient, hamount⟩ := h r.order (mem_confirmed.mpr ⟨r, hfound, hready, rfl⟩)
    exact ⟨r.action, j, hj, hready.digest, hrecipient, hamount⟩
  · intro hb o ho
    obtain ⟨r, hfound, hready, rfl⟩ := mem_confirmed.mp ho
    exact hb.ofIssue hkey hfound hready

/-! ## Along a run -/

/-- The operation of a step, if it is a confirm, finds its token bound. -/
def ConfirmsBound (env : Env) (kind : StoreKind) (w : World) (s : Step) : Prop :=
  Splices kind w s ∧ ∀ ctx token, s.Does (.confirm ctx token) → Bound env kind ctx token w

/-- A call to the bank is made by a confirm, for what its token was issued for. -/
def AskedOfIssue (h : List Obs) : Obs → Prop
  | .asked o => ∃ ctx token seg, During h (.confirm ctx token) seg ∧ OfIssue h token o
  | _ => True

theorem Asking.askedOfIssue (hkey : env.Keyed) {h : List Obs} {r : Intent}
    (ha : Asking env kind w ctx token o h r) (hb : Bound env kind ctx token w) :
    AskedOfIssue h (.asked o) := by
  obtain ⟨rest, -, hduring⟩ := ha.during
  obtain ⟨_, _, heq⟩ := ha.history
  refine ⟨ctx, token, _, hduring, ?_⟩
  rw [heq, ha.order]
  exact (hb.ofIssue hkey ha.found ha.ready).more _

def twoProposed : List Step := [
  .op (proposal "Renata" money200 renata_named), .op (proposal "João" money100 joao_named)]

def proposedBoth : World := after (sampleEnv noon) .postgres twoProposed { bank := {} }

theorem proposedBoth_reached (admissible : World → Step → Prop)
    (h : ∀ w, (∀ recipient amount named, admissible w (.op (proposal recipient amount named)))) :
    Reach (sampleEnv noon) .postgres (fun _ => True) admissible proposedBoth :=
  (Reach.start {} trivial).after ⟨h _ _ _ _, h _ _ _ _, trivial⟩

def confirmFirst : Step := .op (.confirm session "conf_000000000001")

def paidFirst : World := confirmFirst.next (sampleEnv noon) .postgres proposedBoth

def firstOrder : Order :=
  Intent.order { id := "pix_000000000000", action := payTo "contact_renata" money200,
                 context := session, createdAt := 0 }

def firstDigest : String := actionDigest (sampleEnv noon) (payTo "contact_renata" money200)

def overSecond : Columns :=
  { action := some (payTo "contact_renata" money200), actionDigest := some (some firstDigest) }

def splicedWorld : World := proposedBoth.edit "pix_000000000002" overSecond.write

theorem splicedWorld_reached :
    Reach (sampleEnv noon) .postgres (fun _ => True) (Splices .postgres) splicedWorld := by
  refine .step (.splice _ overSecond) (proposedBoth_reached _ fun _ _ _ _ => trivial) ?_
  have hissue : (issueOf proposedBoth.history "conf_000000000001").map
      (fun j => (j.action, j.actionDigest)) = some (payTo "contact_renata" money200, some firstDigest) := by
    decide +kernel
  obtain ⟨j, hissued, heq⟩ := Option.map_eq_some_iff.mp hissue
  obtain ⟨haction, hdigest⟩ := Prod.mk.inj heq
  have hj := (stored_of_issueOf hissued).1
  refine ⟨fun a ha => ⟨j, hj, ?_⟩, fun d hd => ⟨j, hj, ?_⟩, fun t ht => ?_, fun x hx => ?_⟩
  · exact haction.trans (Option.some.inj ha)
  · exact hdigest.trans (Option.some.inj hd)
  · cases ht
  · cases hx

end BankingControlPlane
