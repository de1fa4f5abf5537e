import BankingControlPlane.Data.Past
import BankingControlPlane.Ui.View

/-!
# One conversation on the page

* `one_turn_at_a_time` : one turn at most is on its way, and the composer is closed while it is;
* `composer_lost` : the composer is closed with nothing on its way exactly after a turn was refused for want of a
  session, and then for good.
-/

namespace BankingControlPlane.Browser
open History

/-! ## One turn at a time -/

/-- **One turn at a time.** Whatever the reader clicks and whenever the calls return: one turn at most is on its way,
and the composer is closed while it is; no two entries have one id; and the entry of a running turn is the last one,
the only one, and there only while the composer is closed. -/
theorem one_turn_at_a_time (events : List Event) :
    (∀ j k x y, (App.reached events).turnAt j = some x → (App.reached events).turnAt k = some y → j = k) ∧
      (∀ k x, (App.reached events).turnAt k = some x → (App.reached events).busy = true) ∧
      ((App.reached events).entries.map Entry.id).Nodup ∧
      LiveLast (App.reached events).entries ((App.reached events).busy = true) := by
  have h := App.sound_reached events
  exact ⟨fun j k x y => h.one, fun k x => h.busy, h.live.nodup h.numbered, h.live⟩

/-! ## The composer -/

/-- The composer is closed, and nothing is on its way. -/
def View.Locked (v : View) : Prop := v.busy = true ∧ ∀ k, v.turns k = none

/-- Some turn, while it was on its way, was refused for want of a session. -/
def TurnRefused (events : List Event) : Prop :=
  ∃ es k message rest, events = es ++ .ended k (some (.api 401 message)) :: rest ∧
    ((App.reached es).turnAt k).isSome

theorem Locked.act {v : View} (h : v.Locked) {a : Act} (hfits : v.Fits a) : (v.act a).Locked := by
  obtain ⟨hbusy, hturns⟩ := h
  cases a with
  | nothing => exact ⟨hbusy, hturns⟩
  | turned thread page =>
    constructor
    · exact (View.page_busy page { v with thread, entries := [] }).trans hbusy
    · intro k
      exact (congrFun (View.page_turns page { v with thread, entries := [] }) k).trans (hturns k)
  | asked k x =>
    have hidle := hfits.2.1
    rw [hbusy] at hidle
    cases hidle
  | read k next staged =>
    have hturn : (v.turns k).isSome := hfits
    rw [hturns] at hturn
    cases hturn
  | landed k x =>
    have hturn : (v.turns k).isSome := hfits
    rw [hturns] at hturn
    cases hturn
  | refused k =>
    have hturn : (v.turns k).isSome := hfits
    rw [hturns] at hturn
    cases hturn

/-- How a page comes to be locked. -/
theorem locked_of_act {v : View} {a : Act} (h : (v.act a).Locked) : v.Locked ∨ ∃ k, a = .refused k := by
  obtain ⟨hbusy, hturns⟩ := h
  cases a with
  | nothing => exact Or.inl ⟨hbusy, hturns⟩
  | turned thread page =>
    left
    constructor
    · exact (View.page_busy page { v with thread, entries := [] }).symm.trans hbusy
    · intro k
      exact (congrFun (View.page_turns page { v with thread, entries := [] }) k).symm.trans (hturns k)
  | asked k x =>
    have hput : Function.update v.turns k (some x) k = none := hturns k
    rw [Function.update_self] at hput
    cases hput
  | read k next staged =>
    have hput : Function.update v.turns k (some next) k = none := hturns k
    rw [Function.update_self] at hput
    cases hput
  | landed k x => cases hbusy
  | refused k => exact Or.inr ⟨k, rfl⟩

theorem refused_locks {v : View} (h : v.Sound) {k : Nat} (hk : (v.turns k).isSome) : (v.act (.refused k)).Locked := by
  obtain ⟨x, hx⟩ := Option.isSome_iff_exists.mp hk
  refine ⟨h.busy hx, fun j => ?_⟩
  show Function.update v.turns k none j = none
  by_cases hj : j = k
  · rw [hj, Function.update_self]
  · rw [Function.update_of_ne hj]
    cases hturn : v.turns j with
    | none => rfl
    | some y => exact absurd (h.one hturn hx) hj

theorem refused_snoc {es : List Event} {e : Event} : TurnRefused (es ++ [e]) ↔ TurnRefused es ∨
    ∃ k message, e = .ended k (some (.api 401 message)) ∧ ((App.reached es).turnAt k).isSome := by
  constructor
  · rintro ⟨before, k, message, rest, heq, hturn⟩
    rcases snoc_eq_split heq with ⟨rfl, rfl, -⟩ | ⟨rest', rfl, rfl⟩
    · exact Or.inr ⟨k, message, rfl, hturn⟩
    · exact Or.inl ⟨before, k, message, rest', rfl, hturn⟩
  · rintro (⟨before, k, message, rest, rfl, hturn⟩ | ⟨k, message, rfl, hturn⟩)
    · exact ⟨before, k, message, rest ++ [e], by simp, hturn⟩
    · exact ⟨es, k, message, [], rfl, hturn⟩

theorem locked_iff_refused (es : List Event) : (App.reached es).view.Locked ↔ TurnRefused es := by
  induction es using List.reverseRecOn with
  | nil =>
    constructor
    · rintro ⟨hbusy, -⟩
      cases hbusy
    · rintro ⟨before, k, message, rest, heq, -⟩
      simp at heq
  | append_singleton es e ih =>
    rw [App.reached_snoc, App.view_step, refused_snoc, ← ih]
    have hfits := act_fits (App.reached es) e
    constructor
    · intro h
      refine (locked_of_act h).imp_right ?_
      rintro ⟨k, hact⟩
      obtain ⟨message, he, hturn⟩ := act_refused hact
      exact ⟨k, message, he, hturn⟩
    · rintro (hlocked | ⟨k, message, rfl, hturn⟩)
      · exact Locked.act hlocked hfits
      · obtain ⟨x, hx⟩ := Option.isSome_iff_exists.mp hturn
        rw [act_ended hx]
        exact refused_locks (App.sound_reached es) hturn

/-- **A session that ends in the middle of a turn closes the composer for good**: after that, and after nothing else,
it is closed with nothing on its way, and no message is sent any more, signed in again or not. -/
theorem composer_lost (events : List Event) :
    ((App.reached events).view.Locked ↔ TurnRefused events) ∧
      (TurnRefused events → ∀ more text, (App.reached (events ++ more)).step (.submit text) =
        App.reached (events ++ more)) := by
  refine ⟨locked_iff_refused events, fun hrefused more text => ?_⟩
  have hmore : TurnRefused (events ++ more) := by
    obtain ⟨es, k, message, rest, rfl, hturn⟩ := hrefused
    exact ⟨es, k, message, rest ++ more, by simp, hturn⟩
  have hbusy := ((locked_iff_refused _).mpr hmore).1
  exact if_neg fun h => by rw [show (App.reached (events ++ more)).busy = true from hbusy] at h; cases h.2.2

/-- A message is sent, and its turn is refused for want of a session. -/
def sentOne : List Event := [.signIn, .opened 0 (.ok ⟨"t1", "banking", "", "both"⟩), .submit "saldo"]

def expiredOne : List Event := sentOne ++ [.ended 2 (some (.api 401 "expired"))]

theorem composer_lost_again :
    (App.reached (expiredOne ++ [.signIn, .opened 3 (.ok ⟨"t2", "banking", "", "both"⟩)])).step (.submit "saldo") =
      App.reached (expiredOne ++ [.signIn, .opened 3 (.ok ⟨"t2", "banking", "", "both"⟩)]) :=
  (composer_lost expiredOne).2 ⟨sentOne, 2, "expired", [], rfl, rfl⟩ _ _

end BankingControlPlane.Browser
