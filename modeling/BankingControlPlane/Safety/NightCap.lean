import BankingControlPlane.Plane.Confirming
import BankingControlPlane.Safety.Assurance
import Mathlib

/-!
# The night cap, when money moves

Policy reads the clock when it clears an intent; the confirm that pays reads it again, and asks it
nothing about the night.

* `JudgedAt` : the reading policy cleared a token's intent with;
* `AskedByDay` : a call to the bank for more than the night limit is of a confirm that read the clock
  outside the night window;
* `SameSide` : since policy's reading the night has not begun; `night_cap` : that is exactly when the
  cap holds.
-/

namespace BankingControlPlane
open Effects

variable {env : Env} {kind : StoreKind} {w : World} {ctx : Context} {token : String} {o : Order}

/-- Policy read the clock at `moment` in the operation that issued the token. -/
def JudgedAt (h : List Obs) (token : String) (moment : Instant) : Prop :=
  ∃ pre j post op seg, h = pre ++ .stored j :: post ∧ issueOf pre token = none ∧
    j.confirmationId = some token ∧ During pre op seg ∧ ∀ m, .read .policy m ∈ seg ↔ m = moment

theorem issueOf_ne_none {pre : List Obs} {j : Intent} (hj : .stored j ∈ pre)
    (ht : j.confirmationId = some token) : issueOf pre token ≠ none := by
  obtain ⟨i, hi⟩ := issueOf_of_stored hj ht
  rw [hi]
  exact Option.some_ne_none i

/-- A token has one issue, so policy read the clock for it once. -/
theorem JudgedAt.unique {h : List Obs} {m m' : Instant} (hm : JudgedAt h token m)
    (hm' : JudgedAt h token m') : m = m' := by
  obtain ⟨pre, j, post, op, seg, rfl, hnone, hj, hduring, hread⟩ := hm
  obtain ⟨pre', j', post', op', seg', heq, hnone', hj', hduring', hread'⟩ := hm'
  have hpre : pre = pre' := by
    rcases List.append_eq_append_iff.mp heq with ⟨a, hpre', ha⟩ | ⟨a, hpre, ha⟩
    · cases a with
      | nil => simpa using hpre'.symm
      | cons x a =>
        obtain ⟨rfl, -⟩ := List.cons.inj ha
        exact absurd hnone' (issueOf_ne_none (by simp [hpre']) hj)
    · cases a with
      | nil => simpa using hpre
      | cons x a =>
        obtain ⟨rfl, -⟩ := List.cons.inj ha
        exact absurd hnone (issueOf_ne_none (by simp [hpre]) hj')
  subst hpre
  obtain ⟨-, rfl⟩ := hduring.unique hduring'
  exact (hread' m).mp ((hread m).mpr rfl)

/-- A call to the bank for more than the night limit is of a confirm with a reading by day. -/
def AskedByDay (env : Env) (h : List Obs) : Obs → Prop
  | .asked o => ∃ ctx token seg, During h (.confirm ctx token) seg ∧ (nightLimit < o.amount.val →
      ∃ use x, .read use x ∈ seg ∧ isNighttime env.zone x = false)
  | _ => True

/-- The intent a confirm goes through with, if of more than the night limit, was cleared by policy on
the same side of the night window as some reading of the confirm. -/
def SameSide (env : Env) (kind : StoreKind) (ctx : Context) (token : String) (w : World) : Prop :=
  ∀ r, w.holder kind token = some r → Ready env w ctx r → nightLimit < r.action.amount.val →
    ∀ moment, JudgedAt w.history token moment →
      ∃ use x, .read use x ∈ confirmReadings env w r ∧
        isNighttime env.zone x = isNighttime env.zone moment

/-! ## One confirm -/

/-- Policy was asked about the intent a token finds; if it is large, by day. -/
theorem Reach.judged (hw : Reach env kind (fun _ => True) (Untampered kind) w) {r : Intent}
    (hfound : w.holder kind token = some r) : ∃ moment, JudgedAt w.history token moment ∧
      (nightLimit < r.action.amount.val → isNighttime env.zone moment = false) := by
  have htoken : r.confirmationId = some token := by simpa using List.find?_some hfound
  have hshown : Shown kind w r := Or.inl (List.mem_of_find?_eq_some hfound)
  obtain ⟨pre, j, post, o, op, seg, risk, moment, heq, hnone, hj, -, hr, hcont, hvetted⟩ :=
    hw.vetted hshown htoken
  refine ⟨moment, ⟨pre, j, post, op, seg, heq, hnone, hj, hvetted.during, hvetted.readAt⟩, fun hlarge => ?_⟩
  refine hvetted.night ?_
  rw [hcont.action, ← hr.action]
  exact hlarge

/-- A reading of a confirm up to its call to the bank. -/
theorem Asking.read {h : List Obs} {r : Intent} (ha : Asking env kind w ctx token o h r)
    {ctx' : Context} {token' : String} {seg : List Obs} (hduring : During h (.confirm ctx' token') seg)
    (use : Reading) (x : Instant) : .read use x ∈ seg ↔ .read use x ∈ confirmReadings env w r := by
  obtain ⟨rest, hrest, hnow⟩ := ha.during
  obtain ⟨-, rfl⟩ := hnow.unique hduring
  refine ⟨fun hx => ?_, List.mem_append_left rest⟩
  exact (List.mem_append.mp hx).resolve_right fun hx => hrest _ hx

theorem SameSide.byDay (hw : Reach env kind (fun _ => True) (Untampered kind) w) {h : List Obs}
    {r : Intent} (hs : SameSide env kind ctx token w) (ha : Asking env kind w ctx token o h r) :
    AskedByDay env h (.asked o) := by
  obtain ⟨rest, -, hduring⟩ := ha.during
  refine ⟨ctx, token, _, hduring, fun hlarge => ?_⟩
  rw [ha.order] at hlarge
  obtain ⟨moment, hjudged, hday⟩ := hw.judged ha.found
  obtain ⟨use, x, hx, hside⟩ := hs r ha.found ha.ready hlarge moment hjudged
  exact ⟨use, x, List.mem_append_left rest hx, hside.trans (hday hlarge)⟩

/-- The calls to the bank of one confirm. -/
def ConfirmsByDay (env : Env) (kind : StoreKind) (ctx : Context) (token : String) (w : World) : Prop :=
  ∀ pre o post, (exec env kind (.confirm ctx token) w).2.history = pre ++ .asked o :: post →
    w.history.length ≤ pre.length → AskedByDay env pre (.asked o)

theorem confirmsByDay_iff (hw : Reach env kind (fun _ => True) (Untampered kind) w) :
    ConfirmsByDay env kind ctx token w ↔ SameSide env kind ctx token w := by
  constructor
  · intro hcap r hfound hready hlarge moment hjudged
    obtain ⟨seg, heq, ho⟩ := confirm_seeks hfound hready
    obtain ⟨a, b, rfl⟩ := List.append_of_mem ho
    rw [← List.append_assoc] at heq
    have hlen : w.history.length ≤ (w.history ++ a).length := by simp
    obtain ⟨r', hasking⟩ := asking_of_split heq hlen
    obtain rfl := Option.some.inj (hfound.symm.trans hasking.found)
    obtain ⟨ctx', token', seg', hduring, hday⟩ := hcap _ _ _ heq hlen
    obtain ⟨use, x, hx, hnight⟩ := hday hlarge
    obtain ⟨moment', hjudged', hday'⟩ := hw.judged hfound
    obtain rfl := hjudged.unique hjudged'
    exact ⟨use, x, (hasking.read hduring use x).mp hx, hnight.trans (hday' hlarge).symm⟩
  · intro hs pre o post heq hlen
    obtain ⟨r, hasking⟩ := asking_of_split heq hlen
    exact hs.byDay hw hasking

/-! ## Along a run -/

/-- The operation of a step, if it is a confirm, comes before the night. -/
def ConfirmsSameSide (env : Env) (kind : StoreKind) (w : World) (s : Step) : Prop :=
  Untampered kind w s ∧ ∀ ctx token, s.Does (.confirm ctx token) → SameSide env kind ctx token w

/-- **The night cap holds of a confirm exactly when the night has not begun since policy cleared its
intent.** Hence it holds of every call to the bank in a run whose confirms all come so. -/
theorem night_cap (env : Env) (kind : StoreKind) :
    (∀ w, Reach env kind (fun _ => True) (Untampered kind) w → ∀ ctx token,
      ConfirmsByDay env kind ctx token w ↔ SameSide env kind ctx token w) ∧
    ∀ w, Reach env kind (fun _ => True) (ConfirmsSameSide env kind) w →
      ∀ pre o post, w.history = pre ++ .asked o :: post → AskedByDay env pre (.asked o) := by
  refine ⟨fun w hw ctx token => confirmsByDay_iff hw, fun w hw pre o post heq => ?_⟩
  have hpast : History.Past (AskedByDay env) w.history := by
    refine hw.asked (fun _ _ hs => hs.1.sound) (fun h x hx => ?_)
      fun w s ctx token o h r hw hs hdoes hasking => ?_
    · cases x <;> first | trivial | exact absurd trivial hx
    · exact (hs.2 ctx token hdoes).byDay (hw.mono fun _ _ hs => hs.1) hasking
  exact hpast pre _ post heq

/-! R$ 1.500,00 proposed and confirmed at noon; or proposed at 19:59 in Brasília and confirmed at 20:01. -/

def proposeLarge : Op := proposal "Renata" money1500 renata_named

def confirmLarge : Op := .confirm session "conf_000000000001"

def largeProposed (clock : Nat → Instant) : World :=
  (exec (sampleEnv clock) .postgres proposeLarge { bank := {} }).2

def largePaid (clock : Nat → Instant) : World :=
  (exec (sampleEnv clock) .postgres confirmLarge (largeProposed clock)).2

theorem largeProposed_reached (clock : Nat → Instant) : Reach (sampleEnv clock) .postgres
    (fun _ => True) (Untampered .postgres) (largeProposed clock) :=
  .op proposeLarge (.start {} trivial) trivial

theorem largePaid_reached (clock : Nat → Instant) : Reach (sampleEnv clock) .postgres
    (fun _ => True) (Untampered .postgres) (largePaid clock) :=
  .op confirmLarge (largeProposed_reached clock) trivial

def largeOrder : Order :=
  Intent.order { id := "pix_000000000000", action := payTo "contact_renata" money1500,
                 context := session, createdAt := 0 }

/-- Every reading in the history is by day. -/
def readByDay (env : Env) (h : List Obs) : Bool :=
  h.all fun
    | .read _ x => !isNighttime env.zone x
    | _ => true

theorem readByDay_of_mem (env : Env) {h : List Obs} (hall : readByDay env h = true) {use : Reading} {x : Instant}
    (hx : .read use x ∈ h) : isNighttime env.zone x = false := by
  have hread := List.all_eq_true.mp hall _ hx
  simpa using hread

theorem JudgedAt.mem {h : List Obs} {moment : Instant} (hj : JudgedAt h token moment) :
    .read .policy moment ∈ h := by
  obtain ⟨pre, j, post, op, seg, rfl, -, -, hduring, hread⟩ := hj
  exact List.mem_append_left _ (hduring.mem ((hread moment).mpr rfl))

theorem night_cap_sample :
    ConfirmsByDay (sampleEnv noon) .postgres session "conf_000000000001" (largeProposed noon) ∧
    AskedByDay (sampleEnv noon) (beforeAsked (largePaid noon).history) (.asked largeOrder) := by
  obtain ⟨hiff, hruns⟩ := night_cap (sampleEnv noon) .postgres
  have hside : ∀ ctx token, SameSide (sampleEnv noon) .postgres ctx token (largeProposed noon) := by
    intro ctx token r hfound hready _ moment hjudged
    have hday : isNighttime brasilia moment = false :=
      readByDay_of_mem (sampleEnv noon) (by decide +kernel) hjudged.mem
    have hclock : isNighttime brasilia ((sampleEnv noon).clock (largeProposed noon).ticks) = false := by
      decide +kernel
    cases hissued : r.confirmationIssuedAt with
    | none => exact ⟨.confirmed, _, by simp [confirmReadings, hissued], hclock.trans hday.symm⟩
    | some issuedAt => exact ⟨.expiry, _, by simp [confirmReadings, hissued], hclock.trans hday.symm⟩
  have hreach : Reach (sampleEnv noon) .postgres (fun _ => True)
      (ConfirmsSameSide (sampleEnv noon) .postgres) (largeProposed noon) := by
    refine .op proposeLarge (.start {} trivial) ⟨trivial, fun ctx token hdoes => ?_⟩
    rcases hdoes with heq | ⟨n, heq⟩ <;> cases heq
  have hpaid : Reach (sampleEnv noon) .postgres (fun _ => True)
      (ConfirmsSameSide (sampleEnv noon) .postgres) (largePaid noon) :=
    .op confirmLarge hreach ⟨trivial, fun ctx token _ => hside ctx token⟩
  have hasked : (largePaid noon).history[(beforeAsked (largePaid noon).history).length]? =
      some (.asked largeOrder) := by
    decide +kernel
  have hlarge := hruns (largePaid noon) hpaid _ largeOrder _ (beforeAsked_split hasked)
  exact ⟨(hiff _ (largeProposed_reached noon) _ _).mpr (hside _ _), hlarge⟩

theorem asking_of_beforeAsked {w' : World} (hw' : w' = (exec env kind (.confirm ctx token) w).2)
    (hasked : w'.history[(beforeAsked w'.history).length]? = some (.asked o))
    (hlen : w.history.length ≤ (beforeAsked w'.history).length) :
    ∃ r, Asking env kind w ctx token o (beforeAsked w'.history) r := by
  subst hw'
  exact asking_of_split (beforeAsked_split hasked) hlen

theorem largePaid_eq (clock : Nat → Instant) : largePaid clock =
    (exec (sampleEnv clock) .postgres (.confirm session "conf_000000000001") (largeProposed clock)).2 := by
  unfold largePaid confirmLarge
  rfl

/-- A clock at 19:59 in Brasília, twice, and at 20:01 from then on. -/
def nightfall (n : Nat) : Instant := if n < 2 then 1768517940000000 else 1768518060000000

theorem nightfall_monotone : Monotone nightfall := by
  intro m n h
  unfold nightfall
  split_ifs <;> first | decide | omega

/-- The night begins between a propose and its confirm. -/
theorem paid_by_night : Monotone (sampleEnv nightfall).clock ∧
    ¬ ∀ w, Reach (sampleEnv nightfall) .postgres (fun _ => True) (Untampered .postgres) w →
      ∀ pre o post, w.history = pre ++ .asked o :: post → AskedByDay (sampleEnv nightfall) pre (.asked o) := by
  refine ⟨nightfall_monotone, fun h => ?_⟩
  have hasked : (largePaid nightfall).history[(beforeAsked (largePaid nightfall).history).length]? =
      some (.asked largeOrder) := by
    decide +kernel
  have hsplit := beforeAsked_split hasked
  have hlen : (largeProposed nightfall).history.length ≤
      (beforeAsked (largePaid nightfall).history).length := by
    decide +kernel
  have hticks : (largeProposed nightfall).ticks = 2 := by decide +kernel
  obtain ⟨r, hasking⟩ := asking_of_beforeAsked (largePaid_eq nightfall) hasked hlen
  obtain ⟨ctx, token, seg, hduring, hday⟩ :=
    h (largePaid nightfall) (largePaid_reached nightfall) _ largeOrder _ hsplit
  obtain ⟨use, x, hx, hnight⟩ := hday (by decide)
  obtain ⟨use', n, hn, heq⟩ := read_of_confirmReadings ((hasking.read hduring use x).mp hx)
  rw [hticks] at hn
  have hlate : nightfall n = 1768518060000000 := if_neg (Nat.not_lt.mpr hn)
  have hx : x = nightfall n := (Obs.read.inj heq).2
  have hdark : isNighttime brasilia 1768518060000000 = true := by decide
  have hnight : isNighttime brasilia x = false := hnight
  rw [hx, hlate, hdark] at hnight
  cases hnight

end BankingControlPlane
