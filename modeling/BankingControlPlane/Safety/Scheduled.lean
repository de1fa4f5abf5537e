import BankingControlPlane.Evals.Concurrent
import BankingControlPlane.Safety.ZeroTolerance

/-!
# Cases driven side by side

* `Concurrent.Books` : what every move keeps;
* `golden_set_scheduled` : a bounded number of cases at once, each outcome once, and all of them in order at the end.
-/

namespace BankingControlPlane.Evals
open Effects

variable {F : Type}

section Golden
variable (ops : Operators F) (drives : List (Drive F))

/-- What a case comes to. -/
def outcomeAt (i : Nat) : Option (CaseOutcome F) := drives[i]?.map fun d => d.runCase ops

/-- What every move keeps: the semaphore's books, and one outcome for each case that has left. -/
structure Concurrent.Books (concurrency : Nat) (s : Concurrent F) : Prop where
  held : Semaphore.Held concurrency (places drives) s.limit
  left : s.returned.map Prod.fst = s.limit.left
  outcomes : ∀ r ∈ s.returned, drives[r.1]?.map (Drive.runCase ops) = some r.2

variable {ops drives} {concurrency : Nat} {s s' : Concurrent F}

theorem Concurrent.Books.step (h : s.Books ops drives concurrency) {m : Semaphore.Move Nat}
    (hm : s.step ops drives m = some s') : s'.Books ops drives concurrency := by
  obtain ⟨limit, hlimit, rfl⟩ := Option.map_eq_some_iff.mp hm
  have hheld := h.held.move List.nodup_range hlimit
  rcases Semaphore.left_move hlimit with ⟨i, rfl, hinside, hleft⟩ | ⟨hstays, hleft⟩
  · have hi : i < drives.length := List.mem_range.mp (h.held.known i (by simp [hinside]))
    have hreturning : returning ops drives (.leave i) = [(i, drives[i].runCase ops)] := by
      rw [returning, List.getElem?_eq_getElem hi]
      rfl
    refine ⟨hheld, ?_, fun r hr => ?_⟩
    · change (s.returned ++ returning ops drives (.leave i)).map Prod.fst = limit.left
      rw [hreturning, List.map_append, h.left, hleft]
      rfl
    · rcases List.mem_append.mp hr with hr | hr
      · exact h.outcomes r hr
      · rw [hreturning] at hr
        rw [List.mem_singleton.mp hr, List.getElem?_eq_getElem hi]
        rfl
  · have hreturning : returning ops drives m = [] := by
      cases m with
      | leave i => exact absurd rfl (hstays i)
      | _ => rfl
    refine ⟨hheld, ?_, fun r hr => ?_⟩
    · change (s.returned ++ returning ops drives m).map Prod.fst = limit.left
      rw [hreturning, List.append_nil, h.left, hleft]
    · rw [hreturning, List.append_nil] at hr
      exact h.outcomes r hr

theorem Concurrent.Books.run (h : s.Books ops drives concurrency) {moves : List (Semaphore.Move Nat)}
    (hrun : moves.foldlM (Concurrent.step ops drives) s = some s') : s'.Books ops drives concurrency := by
  induction moves generalizing s with
  | nil =>
    obtain rfl := Option.some.inj hrun
    exact h
  | cons m moves ih =>
    obtain ⟨next, hm, hrest⟩ := Option.bind_eq_some_iff.mp hrun
    exact ih (h.step hm) hrest

/-- The moves are those of the semaphore. -/
theorem limit_run {moves : List (Semaphore.Move Nat)} (hrun : moves.foldlM (Concurrent.step ops drives) s = some s') :
    s.limit.run (places drives) moves = some s'.limit := by
  induction moves generalizing s with
  | nil =>
    obtain rfl := Option.some.inj hrun
    rfl
  | cons m moves ih =>
    obtain ⟨next, hm, hrest⟩ := Option.bind_eq_some_iff.mp hrun
    obtain ⟨limit, hlimit, rfl⟩ := Option.map_eq_some_iff.mp hm
    exact Option.bind_eq_some_iff.mpr ⟨limit, hlimit, ih hrest⟩

theorem mapM_some_of {α β : Type} {f : α → Option β} {g : α → β} {xs : List α} (h : ∀ x ∈ xs, f x = some (g x)) :
    xs.mapM f = some (xs.map g) := by
  induction xs with
  | nil => rfl
  | cons x xs ih =>
    obtain ⟨hx, hxs⟩ := List.forall_mem_cons.mp h
    rw [List.mapM_cons, hx, ih hxs]
    rfl

variable (hbooks : s.Books ops drives concurrency)
include hbooks

/-- Of a case that has left, the outcome is known. -/
theorem Concurrent.Books.find {i : Nat} (hi : i < drives.length) (hleft : i ∈ s.limit.left) :
    (s.returned.find? fun r => r.1 = i).map Prod.snd = some (drives[i].runCase ops) := by
  rw [← hbooks.left] at hleft
  obtain ⟨r, hr, rfl⟩ := List.mem_map.mp hleft
  obtain ⟨found, hfound⟩ := Option.isSome_iff_exists.mp
    (List.find?_isSome.mpr ⟨r, hr, decide_eq_true rfl⟩ : (s.returned.find? fun r' => r'.1 = r.1).isSome)
  have hplace : found.1 = r.1 := by simpa using List.find?_some hfound
  have houtcome := hbooks.outcomes found (List.mem_of_find?_eq_some hfound)
  rw [hplace, List.getElem?_eq_getElem hi] at houtcome
  rw [hfound]
  exact houtcome.symm

/-- Where every case has returned, the outcomes are gathered in the order of the golden set. -/
theorem Concurrent.Books.gathered (hall : s.limit.left.Perm (places drives)) :
    s.gathered drives.length = some (drives.map (Drive.runCase ops)) := by
  have hmap : drives.map (Drive.runCase ops) =
      (List.range drives.length).map fun i => (drives[i]?.map (Drive.runCase ops)).getD { caseId := "" } := by
    refine List.ext_getElem (by simp) fun i hi hi' => ?_
    have hlt : i < drives.length := by simpa using hi
    simp [List.getElem?_eq_getElem hlt]
  rw [hmap]
  refine mapM_some_of fun i hi => ?_
  have hlt : i < drives.length := List.mem_range.mp hi
  rw [hbooks.find hlt (hall.mem_iff.mpr hi), List.getElem?_eq_getElem hlt]
  rfl

/-- What was announced, by the places of the cases. -/
theorem Concurrent.Books.announced : s.announced.map some = s.limit.left.map (outcomeAt ops drives) := by
  rw [← hbooks.left, Concurrent.announced, List.map_map, List.map_map]
  exact List.map_congr_left fun r hr => (hbooks.outcomes r hr).symm

theorem Concurrent.Books.announced_perm (hall : s.limit.left.Perm (places drives)) :
    s.announced.Perm (drives.map (Drive.runCase ops)) := by
  have hplaces : (places drives).map (outcomeAt ops drives) = (drives.map (Drive.runCase ops)).map some := by
    refine List.ext_getElem (by simp) fun i hi hi' => ?_
    have hlt : i < drives.length := by simpa using hi
    simp [outcomeAt, List.getElem?_eq_getElem hlt]
  refine (List.map_perm_map_iff (fun _ _ => Option.some.inj)).mp ?_
  rw [hbooks.announced, ← hplaces]
  exact hall.map _

omit hbooks

theorem Concurrent.Books.start (ops : Operators F) (drives : List (Drive F)) (concurrency : Nat) :
    Concurrent.Books ops drives concurrency { limit := { value := concurrency } } :=
  ⟨Semaphore.Held.start concurrency (places drives), rfl, fun _ hr => absurd hr List.not_mem_nil⟩

end Golden

/-- **Whatever the order in which the cases arrive, are admitted and return**, never more of them are driven at once
than was asked for; each returns at most once, with its own outcome; and where nothing is left to happen, all have
returned: the outcomes are those of the golden set in its order, whatever order they were announced in. With no slot,
no case is ever driven. -/
theorem golden_set_scheduled (ops : Operators F) (drives : List (Drive F)) (concurrency : Nat)
    {moves : List (Semaphore.Move Nat)} {s : Concurrent F} (h : runGoldenSet ops drives concurrency moves = some s) :
    s.limit.inside (places drives) ≤ concurrency ∧ moves.length ≤ 4 * drives.length ∧
      (s.returned.map Prod.fst).Nodup ∧ (∀ r ∈ s.returned, drives[r.1]?.map (Drive.runCase ops) = some r.2) ∧
      (concurrency = 0 → s.returned = []) ∧
      (0 < concurrency → (∀ m, s.step ops drives m = none) →
        s.gathered drives.length = some (drives.map (Drive.runCase ops)) ∧
          s.announced.Perm (drives.map (Drive.runCase ops))) := by
  have hbooks : s.Books ops drives concurrency := (Concurrent.Books.start ops drives concurrency).run h
  have hrun := limit_run h
  refine ⟨hbooks.held.inside_le, ?_, hbooks.left ▸ hbooks.held.nodup, hbooks.outcomes, fun hzero => ?_,
    fun hpos hstuck => ?_⟩
  · have hlength := Semaphore.run_length List.nodup_range concurrency hrun
    rwa [List.length_range] at hlength
  · subst hzero
    have hnone := (Semaphore.Held.start 0 (places drives)).left_nil List.nodup_range rfl hrun
    rw [← hbooks.left] at hnone
    exact List.map_eq_nil_iff.mp hnone
  · have hall := hbooks.held.finished List.nodup_range hpos fun m => Option.map_eq_none_iff.mp (hstuck m)
    exact ⟨hbooks.gathered hall, hbooks.announced_perm hall⟩

/-- Two cases, one slot. -/
def twoCases : List (Drive Unit) :=
  [{ case := { id := "saldo", turns := [] }, unopened := none, reply := fun _ => .streamed [] none },
    { case := { id := "pix", turns := [] }, unopened := some "ConnectError", reply := fun _ => .streamed [] none }]

theorem golden_set_scheduled_two :
    ∃ s, runGoldenSet plainOperators twoCases 1 [.arrive 0, .arrive 1, .leave 0, .resume 1 0, .leave 1] = some s ∧
      (s.returned.map Prod.fst).Nodup := by
  obtain ⟨s, hs⟩ := Option.isSome_iff_exists.mp (by rfl :
    (runGoldenSet plainOperators twoCases 1 [.arrive 0, .arrive 1, .leave 0, .resume 1 0, .leave 1]).isSome = true)
  exact ⟨s, hs, (golden_set_scheduled plainOperators twoCases 1 hs).2.2.1⟩

end BankingControlPlane.Evals
