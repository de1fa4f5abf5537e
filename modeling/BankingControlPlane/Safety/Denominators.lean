import BankingControlPlane.Evals.Metrics
import BankingControlPlane.Safety.ZeroTolerance
import Mathlib.Algebra.BigOperators.Group.List.Basic

/-!
# What the rates are rates of

* `Case.Indexed` : the checks of a turn are those of a turn that the case has;
* `check_counts_iff` : an outcome has a result for each check declared, unless a case that completes has checks
  of no turn;
* `denominators_iff` : the same for a run, and the denominators it then has.
-/

namespace BankingControlPlane.Evals

variable {F : Type}

/-! ## Sums -/

theorem sum_at_key (key : Int) (c n : Nat) :
    ((List.range n).map fun k : Nat => if key = (k : Int) then c else 0).sum = if 0 ≤ key ∧ key < n then c else 0 := by
  induction n with
  | zero =>
    rw [if_neg (by omega)]
    rfl
  | succ n ih =>
    rw [List.range_succ, List.map_append, List.sum_append, ih]
    simp only [List.map_cons, List.map_nil, List.sum_cons, List.sum_nil]
    split_ifs <;> omega

/-- A sum that leaves some out is the whole sum exactly when those are zero. -/
theorem sum_ite_eq_iff {α : Type} (xs : List α) (p : α → Prop) [DecidablePred p] (w : α → Nat) :
    (xs.map fun x => if p x then w x else 0).sum = (xs.map w).sum ↔ ∀ x ∈ xs, ¬ p x → w x = 0 := by
  have hle : ∀ ys : List α, (ys.map fun x => if p x then w x else 0).sum ≤ (ys.map w).sum := by
    intro ys
    induction ys with
    | nil => exact Nat.le_refl _
    | cons y ys ih =>
      simp only [List.map_cons, List.sum_cons]
      split_ifs <;> omega
  induction xs with
  | nil => simp
  | cons x xs ih =>
    have := hle xs
    simp only [List.map_cons, List.sum_cons, List.forall_mem_cons, ← ih]
    split_ifs with hx
    · simp [hx]
    · simp only [hx, not_false_iff, true_imp_iff]
      omega

/-! ## Checks of turns -/

section Case
variable (case : Case F)

/-- The checks that a case has for turns are for turns that it has. -/
def Case.Indexed : Prop := ∀ entry ∈ case.turnChecks, entry.2 ≠ [] → 0 ≤ entry.1 ∧ entry.1 < case.turns.length

/-- How many of the checks join the metric. -/
def joining (metric : String) (checks : List (Check F)) : Nat := (checks.map Check.metric).count metric

@[simp] theorem joining_nil (metric : String) : joining metric ([] : List (Check F)) = 0 := rfl

theorem joining_append (metric : String) (checks more : List (Check F)) :
    joining metric (checks ++ more) = joining metric checks + joining metric more := by
  unfold joining
  rw [List.map_append, List.count_append]

theorem joining_flatMap {α : Type} (metric : String) (xs : List α) (f : α → List (Check F)) :
    joining metric (xs.flatMap f) = (xs.map fun x => joining metric (f x)).sum := by
  induction xs with
  | nil => rfl
  | cons x xs ih => rw [List.flatMap_cons, joining_append, ih, List.map_cons, List.sum_cons]

theorem eq_nil_of_joining {checks : List (Check F)} (h : ∀ metric, joining metric checks = 0) : checks = [] := by
  cases checks with
  | nil => rfl
  | cons check rest =>
    have hpos : 0 < joining check.metric (check :: rest) := List.count_pos_iff.mpr List.mem_cons_self
    exact absurd (h check.metric) hpos.ne'

/-- The checks found under the indexes below `n` are those of the entries with such a key. -/
theorem joining_lookup (metric : String) {entries : List (Int × List (Check F))}
    (hdict : (entries.map Prod.fst).Nodup) (n : Nat) :
    ((List.range n).map fun k : Nat =>
        joining metric (((entries.find? fun entry => entry.1 = (k : Int)).map Prod.snd).getD [])).sum =
      (entries.map fun entry => if 0 ≤ entry.1 ∧ entry.1 < (n : Int) then joining metric entry.2 else 0).sum := by
  induction entries with
  | nil => simp
  | cons entry rest ih =>
    obtain ⟨hnew, hrest⟩ := List.nodup_cons.mp hdict
    have hlookup : ∀ k : Nat,
        joining metric ((((entry :: rest).find? fun e => e.1 = (k : Int)).map Prod.snd).getD []) =
          (if entry.1 = (k : Int) then joining metric entry.2 else 0) +
            joining metric (((rest.find? fun e => e.1 = (k : Int)).map Prod.snd).getD []) := by
      intro k
      by_cases hk : entry.1 = (k : Int)
      · have hnone : rest.find? (fun e => e.1 = (k : Int)) = none := by
          refine List.find?_eq_none.mpr fun e he => ?_
          have hne : e.1 ≠ entry.1 := fun heq => hnew (heq ▸ List.mem_map_of_mem he)
          simpa [hk] using hne
        rw [List.find?_cons_of_pos (by simpa using hk), hnone, if_pos hk]
        rfl
      · rw [List.find?_cons_of_neg (by simpa using hk), if_neg hk, Nat.zero_add]
    simp only [hlookup, List.sum_map_add, sum_at_key, ih hrest, List.map_cons, List.sum_cons]

theorem joining_allChecks (metric : String) : joining metric case.allChecks =
    joining metric case.checks + (case.turnChecks.map fun entry => joining metric entry.2).sum := by
  unfold Case.allChecks
  rw [joining_append, joining_flatMap]

/-- The checks of the turns, one after the other. -/
theorem joining_turns (metric : String) (hdict : (case.turnChecks.map Prod.fst).Nodup) :
    joining metric (case.turns.zipIdx.flatMap fun turn => case.checksFor turn.2) =
      (case.turnChecks.map fun entry =>
        if 0 ≤ entry.1 ∧ entry.1 < (case.turns.length : Int) then joining metric entry.2 else 0).sum := by
  have hindex : case.turns.zipIdx.map Prod.snd = List.range case.turns.length := by
    rw [List.zipIdx_map_snd, List.range_eq_range']
  have hsum : (case.turns.zipIdx.map fun turn => joining metric (case.checksFor turn.2)) =
      (case.turns.zipIdx.map Prod.snd).map fun k => joining metric (case.checksFor k) := by
    rw [List.map_map]
    rfl
  rw [joining_flatMap, hsum, hindex]
  exact joining_lookup metric hdict case.turns.length

/-- The checks of the turns and those of the last turn are all that a case declares, if they are of turns. -/
theorem joining_indexed_iff (hdict : (case.turnChecks.map Prod.fst).Nodup) :
    (∀ metric, joining metric ((case.turns.zipIdx.flatMap fun turn => case.checksFor turn.2) ++ case.checks) =
      joining metric case.allChecks) ↔ case.Indexed := by
  have heach : ∀ metric, joining metric ((case.turns.zipIdx.flatMap fun turn => case.checksFor turn.2) ++ case.checks) =
      joining metric case.allChecks ↔ ∀ entry ∈ case.turnChecks,
        ¬ (0 ≤ entry.1 ∧ entry.1 < case.turns.length) → joining metric entry.2 = 0 := by
    intro metric
    rw [joining_append, joining_turns case metric hdict, joining_allChecks, Nat.add_comm, Nat.add_left_cancel_iff]
    exact sum_ite_eq_iff ..
  simp only [heach]
  constructor
  · intro h entry hentry hchecks
    by_contra hout
    exact hchecks (eq_nil_of_joining fun metric => h metric entry hentry hout)
  · intro h metric entry hentry hout
    have hnil : entry.2 = [] := by
      by_contra hchecks
      exact hout (h entry hentry hchecks)
    rw [hnil, joining_nil]

end Case

/-! ## Results of a case -/

theorem applyChecks_metrics {case : Case F} {obs : Observation F} {label : String} {checks : List (Check F)}
    {findings : List Finding} {results : List CheckResult}
    (h : applyChecks case obs label checks = .ok (findings, results)) :
    results.map CheckResult.metric = checks.map Check.metric := by
  induction checks generalizing findings results with
  | nil =>
    obtain ⟨-, rfl⟩ := Prod.mk.inj (Except.ok.inj h)
    rfl
  | cons check rest ih =>
    unfold applyChecks at h
    cases hproduced : check.produced case obs with
    | error exc =>
      rw [hproduced] at h
      cases h
    | ok produced =>
      rw [hproduced] at h
      cases hlater : applyChecks case obs label rest with
      | error exc =>
        rw [hlater] at h
        cases h
      | ok later =>
        rw [hlater] at h
        obtain ⟨-, rfl⟩ := Prod.mk.inj (Except.ok.inj h)
        exact congrArg (check.metric :: ·) (ih hlater)

section Drive
variable (ops : Operators F) {d : Drive F}

/-- Turns that are gone through have each been answered, and its checks gone through. -/
theorem turns_ok {turn : String × Nat} {rest : List (String × Nat)} {observations seen : List (Observation F)}
    {findings : List Finding} {results : List CheckResult}
    (h : d.turns ops observations (turn :: rest) = .ok (seen, findings, results)) :
    ∃ obs own later, d.Answered turn obs ∧
      applyChecks d.case obs ("turno " ++ toString turn.2 ++ ": ") (d.case.checksFor turn.2) = .ok own ∧
      d.turns ops (observations ++ [obs]) rest = .ok (seen, later) ∧ results = own.2 ++ later.2 := by
  unfold Drive.turns at h
  cases hobserved : d.observed turn with
  | error exc =>
    rw [hobserved] at h
    cases h
  | ok obs =>
    rw [hobserved] at h
    dsimp only at h
    cases herror : obs.error with
    | null =>
      rw [herror] at h
      dsimp only at h
      cases hchecks : applyChecks d.case obs ("turno " ++ toString turn.2 ++ ": ") (d.case.checksFor turn.2) with
      | error exc =>
        rw [hchecks] at h
        cases h
      | ok own =>
        rw [hchecks] at h
        dsimp only at h
        cases hlater : d.turns ops (observations ++ [obs]) rest with
        | error outcome =>
          rw [hlater] at h
          cases h
        | ok later =>
          rw [hlater] at h
          obtain ⟨rfl, hrest⟩ := Prod.mk.inj (Except.ok.inj h)
          obtain ⟨-, rfl⟩ := Prod.mk.inj hrest
          exact ⟨obs, own, later.2, ⟨hobserved, herror⟩, hchecks, hlater, rfl⟩
    | obj fields =>
      rw [herror] at h
      cases h
    | bool b | int i | float f | str s | arr items =>
      rw [herror] at h
      cases h

theorem turns_metrics {turns : List (String × Nat)} {observations seen : List (Observation F)}
    {findings : List Finding} {results : List CheckResult}
    (h : d.turns ops observations turns = .ok (seen, findings, results)) :
    results.map CheckResult.metric = (turns.flatMap fun turn => d.case.checksFor turn.2).map Check.metric := by
  induction turns generalizing observations findings results with
  | nil =>
    obtain ⟨-, hrest⟩ := Prod.mk.inj (Except.ok.inj h)
    obtain ⟨-, rfl⟩ := Prod.mk.inj hrest
    rfl
  | cons turn rest ih =>
    obtain ⟨obs, own, later, -, hchecks, hlater, rfl⟩ := turns_ok ops h
    rw [List.map_append, List.flatMap_cons, List.map_append, applyChecks_metrics hchecks, ih hlater]

theorem checks_completed (h : d.Completes) : ((d.runCase ops).checks.map CheckResult.metric) =
    ((d.case.turns.zipIdx.flatMap fun turn => d.case.checksFor turn.2) ++ d.case.checks).map Check.metric := by
  obtain ⟨-, -, -, obs, driven, last, hdriven, hchecks, -, hresults⟩ := runCase_whole ops h
  rw [hresults, List.map_append, List.map_append, turns_metrics ops hdriven, applyChecks_metrics hchecks]

theorem checks_broken (h : ¬ d.Completes) :
    (d.runCase ops).checks.map CheckResult.metric = d.case.allChecks.map Check.metric := by
  obtain ⟨obs, reason, hrun⟩ := runCase_breaks ops h
  rw [hrun]
  exact List.map_map

/-- An outcome has a result for each check declared, unless a case completes that has checks of no turn. -/
theorem check_counts_iff (hdict : (d.case.turnChecks.map Prod.fst).Nodup) :
    (∀ metric, ((d.runCase ops).checks.map CheckResult.metric).count metric = joining metric d.case.allChecks) ↔
      (d.Completes → d.case.Indexed) := by
  by_cases hcompletes : d.Completes
  · rw [checks_completed ops hcompletes]
    exact (joining_indexed_iff d.case hdict).trans ⟨fun h _ => h, fun h => h hcompletes⟩
  · rw [checks_broken ops hcompletes]
    exact iff_of_true (fun _ => rfl) fun h => absurd h hcompletes

theorem checkRate_total (outcomes : List (CaseOutcome F)) (metric : String) : (checkRate outcomes metric).2 =
    (outcomes.map fun outcome => (outcome.checks.map CheckResult.metric).count metric).sum := by
  unfold checkRate
  dsimp only
  rw [← List.countP_eq_length_filter, List.countP_flatMap]
  refine congrArg List.sum (List.map_congr_left fun outcome _ => ?_)
  rw [List.count_eq_countP, List.countP_map]
  refine List.countP_congr fun c _ => ?_
  simp

end Drive

/-! ## Runs -/

/-- **Rate denominators depend on the cases alone** exactly when no case completes that has checks of no turn. -/
theorem denominators_iff (ops : Operators F) (drives : List (Drive F))
    (hdict : ∀ d ∈ drives, (d.case.turnChecks.map Prod.fst).Nodup) :
    ((∀ d ∈ drives, ∀ metric,
        ((d.runCase ops).checks.map CheckResult.metric).count metric = joining metric d.case.allChecks) ↔
      ∀ d ∈ drives, d.Completes → d.case.Indexed) ∧
    ((∀ d ∈ drives, d.Completes → d.case.Indexed) → ∀ metric,
      (checkRate (drives.map (Drive.runCase ops)) metric).2 =
        (drives.map fun d => joining metric d.case.allChecks).sum) := by
  have heach : (∀ d ∈ drives, ∀ metric,
      ((d.runCase ops).checks.map CheckResult.metric).count metric = joining metric d.case.allChecks) ↔
      ∀ d ∈ drives, d.Completes → d.case.Indexed :=
    forall₂_congr fun d hd => check_counts_iff ops (hdict d hd)
  refine ⟨heach, ?_⟩
  intro h metric
  rw [checkRate_total, List.map_map]
  exact congrArg List.sum (List.map_congr_left fun d hd => heach.mpr h d hd metric)

/-! A case with checks of a turn that it does not have: they count only where the case breaks off. -/

def readsDocs : Check Unit where
  name := "calls_tools(search_docs)"
  run _ := .returns []
  metric := "grounding"

def unreachedCase : Case Unit := { id := "saldo", turns := ["qual meu saldo?"], turnChecks := [(1, [readsDocs])] }

def unreachedAnswered : Drive Unit where
  case := unreachedCase
  unopened := none
  reply _ := .streamed [(WireName.turn.text, .obj [("text", .str "R$ 10,00"), ("ns", .int 7)])] none

def unreachedRefused : Drive Unit where
  case := unreachedCase
  unopened := none
  reply _ := .refused "HTTPStatusError: 502"

theorem denominators_iff_refused :
    (checkRate ([unreachedRefused].map (Drive.runCase plainOperators)) "grounding").2 =
      ([unreachedRefused].map fun d => joining "grounding" d.case.allChecks).sum := by
  refine (denominators_iff plainOperators [unreachedRefused] ?_).2 ?_ "grounding"
  · decide
  · intro d hd hcompletes
    obtain rfl := List.mem_singleton.mp hd
    obtain ⟨earlier, turn, obs, -, -, ⟨hobserved, -⟩, -⟩ := hcompletes.last
    cases hobserved

/-- The denominator depends on what the service answers. -/
theorem denominator_moves :
    unreachedAnswered.case = unreachedRefused.case ∧
    (checkRate ([unreachedAnswered].map (Drive.runCase plainOperators)) "grounding").2 = 0 ∧
    (checkRate ([unreachedRefused].map (Drive.runCase plainOperators)) "grounding").2 = 1 ∧
    ¬ ∀ metric, ((unreachedAnswered.runCase plainOperators).checks.map CheckResult.metric).count metric =
      joining metric unreachedAnswered.case.allChecks := by
  refine ⟨rfl, by decide, by decide, ?_⟩
  intro h
  exact absurd (h "grounding") (by decide)

end BankingControlPlane.Evals
