import BankingControlPlane.Plane.Lookups
import BankingControlPlane.Plane.Sample

/-!
# Authorised execution

Someone without the secret rewrites the action of any stored intent between operations; the bank is
still asked to pay only what the customer said yes to.

* `Tampers` : operations, cuts of a durable plane, and actions written over;
* `Consented` : what the history held before the bank was asked to pay;
* `create_pix_authorised` : the consent, its principal, its age and its action, before every payment.
-/

namespace BankingControlPlane
open Effects

variable {env : Env} {kind : StoreKind}

/-- Another writer changes actions only. -/
def Tampers (kind : StoreKind) (_ : World) : Step → Prop
  | .cut _ _ => kind = .postgres
  | .splice _ columns => columns.actionDigest = none ∧ columns.confirmationId = none ∧
      columns.confirmationIssuedAt = none
  | _ => True

theorem Tampers.sound {w : World} {s : Step} (h : Tampers kind w s) : s.Sound kind w := by
  cases s with
  | splice id columns => intro t ht; rw [h.2.1] at ht; cases ht
  | cut op n => exact h
  | _ => trivial

/-- What the history held before the bank was asked to pay `o`. -/
structure Consented (env : Env) (h : List Obs) (o : Order) (ctx : Context) (token : String)
    (seg : List Obs) (action : CreatePix) (issue : Intent) : Prop where
  during : During h (.confirm ctx token) seg
  confirmation : ∃ instant, .appended ⟨o.idempotencyKey, .confirmation token ctx.customerId
    ctx.sessionId ctx.channel instant action⟩ ∈ seg
  opener : principalOf ((ledgerOf h).filter fun e => e.intentId = o.idempotencyKey) =
    some (ctx.customerId, ctx.sessionId)
  issued : issueOf h token = some issue
  ownToken : issue.id = o.idempotencyKey
  young : ∃ issuedAt instant, issue.confirmationIssuedAt = some issuedAt ∧
    (∀ x, .read .expiry x ∈ seg ↔ x = instant) ∧ instant - issuedAt ≤ confirmationTtl
  paid : o.sourceAccount = action.sourceAccount ∧ o.recipientId = action.recipientId ∧
    o.amount = action.amount
  agreed : action = issue.action

/-- Where the bank was asked to pay, the customer had agreed. -/
def AskedConsented (env : Env) (h : List Obs) : Obs → Prop
  | .asked o => ∃ ctx token seg action issue, Consented env h o ctx token seg action issue
  | _ => True

theorem Authorised.consented (hkey : env.Keyed) {w : World} {o : Order} (hi : Inv env w)
    (hs : ∀ k r, w.row k = some r → Sealed env w.history r) (ha : Authorised env w o) :
    ∃ ctx token seg action issue, Consented env w.history o ctx token seg action issue := by
  obtain ⟨r, ctx, token, seg, h⟩ := ha
  have hid : r.id = o.idempotencyKey := key_of_row h.row
  obtain ⟨j, issuedAt, hj, hjid, hdigest, hjat, hrat⟩ := hs _ r h.row token h.names
  obtain ⟨instant, hread, hle⟩ := h.fresh issuedAt hrat
  have haction : r.action = j.action := by
    refine hkey.injective ?_
    rw [h.digest, hdigest]
    rfl
  obtain ⟨at_, hconsent⟩ := h.consent
  refine ⟨ctx, token, seg, r.action, j, h.during, ⟨at_, hid ▸ hconsent⟩, ?_, hj, hjid.trans hid,
    ⟨issuedAt, instant, hjat, hread, hle⟩, ?_, haction⟩
  · rw [← hi.ledger, ← h.principal.1, ← h.principal.2]
    exact hi.principals _ r h.row
  · rw [h.order]
    exact ⟨rfl, rfl, rfl⟩

theorem Sealed.splice {w : World} (h : ∀ k r, w.row k = some r → Sealed env w.history r) {id : String}
    {columns : Columns} (hc : Tampers kind w (.splice id columns)) :
    ∀ k r, (w.edit id columns.write).row k = some r → Sealed env w.history r := by
  intro k r hr
  obtain ⟨hdigest, htoken, hissued⟩ := hc
  obtain ⟨r₀, hr₀, rfl | ⟨-, rfl⟩⟩ := row_splice_some hr
  · exact h k r hr₀
  · intro t ht
    obtain ⟨j, issuedAt, hj, hid, hd, hat, hrat⟩ := h k r₀ hr₀ t (by simpa [Columns.write, htoken] using ht)
    exact ⟨j, issuedAt, hj, hid, by simpa [Columns.write, hdigest] using hd, hat,
      by simpa [Columns.write, hissued] using hrat⟩

/-- **Every payment was agreed to.** Before the bank is asked to pay for an intent, a confirm of that
intent is under way; its consent is in the ledger, by the customer and session that opened the intent's
trail; the expiry test read the clock at most a TTL after the token was issued; and what is paid is the
action of that consent, which is the action the token was issued for. -/
theorem create_pix_authorised (hkey : env.Keyed) {w : World}
    (hw : Reach env kind (fun _ => True) (Tampers kind) w) {pre post : List Obs} {o : Order}
    (h : w.history = pre ++ .asked o :: post) :
    ∃ ctx token seg action issue, Consented env pre o ctx token seg action issue := by
  have hall := hw.preserved (fun _ _ hs => hs.sound)
    (preserved_past preserved_sealed (P := AskedConsented env) (fun w i _ _ _ => trivial)
      (fun w o hi hs ha => ha.consented hkey hi hs) (fun _ _ => trivial)
      fun _ o _ => by cases o <;> trivial)
    (fun bank _ => ⟨fun k r hr => by simp [World.row] at hr, History.past_nil _⟩)
    (fun w id columns hs hI => ⟨Sealed.splice hI.1 hs, hI.2⟩) fun w b _ hI => hI
  exact hall.2.2 pre _ post h

/-! A payment of R$ 200,00 proposed and confirmed, its action written over and back in between. -/

def consentSteps : List Step := [
  .op (proposal "Renata" money200 renata_named),
  .splice "pix_000000000000" { action := some (payTo "contact_joao" money100) },
  .splice "pix_000000000000" { action := some (payTo "contact_renata" money200) },
  .op (.confirm session "conf_000000000001")]

def consentWorld : World := after (sampleEnv noon) .postgres consentSteps { bank := {} }

theorem consentWorld_reached :
    Reach (sampleEnv noon) .postgres (fun _ => True) (Tampers .postgres) consentWorld :=
  (Reach.start {} trivial).after ⟨trivial, ⟨rfl, rfl, rfl⟩, ⟨rfl, rfl, rfl⟩, trivial, trivial⟩

def consentOrder : Order :=
  Intent.order { id := "pix_000000000000", action := payTo "contact_renata" money200,
                 context := session, createdAt := 0 }

theorem create_pix_authorised_sample : ∃ ctx token seg action issue, Consented (sampleEnv noon)
    (beforeAsked consentWorld.history) consentOrder ctx token seg action issue := by
  have hasked : consentWorld.history[(beforeAsked consentWorld.history).length]? =
      some (.asked consentOrder) := by
    decide +kernel
  exact create_pix_authorised (sampleEnv_keyed noon) consentWorld_reached (beforeAsked_split hasked)

end BankingControlPlane
