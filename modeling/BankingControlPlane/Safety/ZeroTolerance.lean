import BankingControlPlane.Evals.Runner

/-!
# Zero tolerance

* `Drive.Produces` : a check applied to a completed turn gives a finding, as the conversation goes;
* `Drive.Completes` : every turn is answered without an error, and every check returns findings or raises;
* `runCase_completes`, `runCase_breaks` : a case that completes keeps what its checks gave, and one that does not
  keeps nothing of it;
* `zero_tolerance_iff` : a run with an intolerable finding fails exactly when a case with one completes.
-/

namespace BankingControlPlane.Evals
open Json

variable {F : Type}

/-! ## Checks applied -/

/-- The check returns findings, or raises, which makes one. -/
def Check.Applies (case : Case F) (obs : Observation F) (check : Check F) : Prop :=
  ∃ produced, check.produced case obs = .ok produced

/-- One of the checks gives the finding, and the checks before it are gone through. -/
def Gives (case : Case F) (obs : Observation F) (checks : List (Check F)) (f : Finding) : Prop :=
  ∃ before check after produced, checks = before ++ check :: after ∧ (∀ c ∈ before, c.Applies case obs) ∧
    check.produced case obs = .ok produced ∧ f ∈ produced

section Checks
variable {case : Case F} {obs : Observation F} {checks : List (Check F)}

theorem not_gives_nil (f : Finding) : ¬ Gives case obs [] f := by
  rintro ⟨before, check, after, produced, heq, -⟩
  exact absurd heq (by simp)

theorem gives_cons {check : Check F} {produced : List Finding} (h : check.produced case obs = .ok produced)
    (f : Finding) : Gives case obs (check :: checks) f ↔ f ∈ produced ∨ Gives case obs checks f := by
  constructor
  · rintro ⟨before, giver, after, given, heq, happlies, hgiven, hf⟩
    cases before with
    | nil =>
      obtain ⟨rfl, rfl⟩ := List.cons.inj heq
      obtain rfl : produced = given := Except.ok.inj (h.symm.trans hgiven)
      exact Or.inl hf
    | cons first before =>
      obtain ⟨rfl, rfl⟩ := List.cons.inj heq
      exact Or.inr ⟨before, giver, after, given, rfl, (List.forall_mem_cons.mp happlies).2, hgiven, hf⟩
  · rintro (hf | ⟨before, giver, after, given, rfl, happlies, hgiven, hf⟩)
    · exact ⟨[], check, checks, produced, rfl, by simp, h, hf⟩
    · exact ⟨check :: before, giver, after, given, rfl, List.forall_mem_cons.mpr ⟨⟨produced, h⟩, happlies⟩, hgiven, hf⟩

theorem gives_append {more : List (Check F)} (h : ∀ check ∈ checks, check.Applies case obs) (f : Finding) :
    Gives case obs (checks ++ more) f ↔ Gives case obs checks f ∨ Gives case obs more f := by
  induction checks with
  | nil => simp [not_gives_nil]
  | cons check rest ih =>
    obtain ⟨⟨produced, hproduced⟩, hrest⟩ := List.forall_mem_cons.mp h
    rw [List.cons_append, gives_cons hproduced, gives_cons hproduced, ih hrest, or_assoc]

/-- Checks that are gone through leave all that they give. -/
theorem applyChecks_ok (h : ∀ check ∈ checks, check.Applies case obs) (label : String) :
    ∃ findings results, applyChecks case obs label checks = .ok (findings, results) ∧
      ∀ f, f ∈ findings ↔ Gives case obs checks f := by
  induction checks with
  | nil => exact ⟨[], [], rfl, fun f => ⟨fun hf => absurd hf (by simp), fun hf => absurd hf (not_gives_nil f)⟩⟩
  | cons check rest ih =>
    obtain ⟨⟨produced, hproduced⟩, hrest⟩ := List.forall_mem_cons.mp h
    obtain ⟨findings, results, hlater, hiff⟩ := ih hrest
    refine ⟨produced ++ findings,
      { name := label ++ check.name, metric := check.metric, passed := produced.isEmpty } :: results, ?_, ?_⟩
    · rw [applyChecks, hproduced]
      show (applyChecks case obs label rest).bind _ = _
      rw [hlater]
      rfl
    · intro f
      rw [List.mem_append, hiff, gives_cons hproduced]

theorem applyChecks_raises (h : ¬ ∀ check ∈ checks, check.Applies case obs) (label : String) :
    ∃ exc, applyChecks case obs label checks = .error exc := by
  induction checks with
  | nil => exact absurd (fun check hcheck => (List.not_mem_nil hcheck).elim) h
  | cons check rest ih =>
    cases hproduced : check.produced case obs with
    | error exc =>
      refine ⟨exc, ?_⟩
      rw [applyChecks, hproduced]
      rfl
    | ok produced =>
      obtain ⟨exc, hlater⟩ := ih fun hrest => h (List.forall_mem_cons.mpr ⟨⟨produced, hproduced⟩, hrest⟩)
      refine ⟨exc, ?_⟩
      rw [applyChecks, hproduced]
      show (applyChecks case obs label rest).bind _ = _
      rw [hlater]
      rfl

end Checks

/-! ## Turns driven -/

theorem forall₂_last {α β : Type} {R : α → β → Prop} {xs : List α} {x : α} {ys : List β}
    (h : List.Forall₂ R (xs ++ [x]) ys) : ∃ y, ys.getLast? = some y ∧ R x y := by
  induction xs generalizing ys with
  | nil =>
    cases h with
    | cons hxy hnil =>
      cases hnil
      exact ⟨_, rfl, hxy⟩
  | cons first xs ih =>
    cases h with
    | cons hfirst hrest =>
      obtain ⟨y, hlast, hxy⟩ := ih hrest
      refine ⟨y, ?_, hxy⟩
      rw [List.getLast?_cons, hlast]
      rfl

section Drive
variable (d : Drive F)

/-- The turn is answered, and without an error. -/
def Drive.Answered (turn : String × Nat) (obs : Observation F) : Prop := d.observed turn = .ok obs ∧ obs.error = .null

/-- The turn is answered, and its own checks are gone through. -/
def Drive.Passed (turn : String × Nat) : Prop :=
  ∃ obs, d.Answered turn obs ∧ ∀ check ∈ d.case.checksFor turn.2, check.Applies d.case obs

/-- A check applied to a completed turn gives the finding: the turns before it have passed. -/
structure Drive.Produces (f : Finding) : Prop where
  opened : d.unopened = none
  given : ∃ earlier turn later obs, d.case.turns.zipIdx = earlier ++ turn :: later ∧ (∀ t ∈ earlier, d.Passed t) ∧
    d.Answered turn obs ∧
    Gives d.case obs (d.case.checksFor turn.2 ++ if later.isEmpty then d.case.checks else []) f

/-- The conversation goes to its end, and so do the checks of its last turn. -/
structure Drive.Completes : Prop where
  opened : d.unopened = none
  last : ∃ earlier turn obs, d.case.turns.zipIdx = earlier ++ [turn] ∧ (∀ t ∈ earlier, d.Passed t) ∧
    d.Answered turn obs ∧ ∀ check ∈ d.case.checksFor turn.2 ++ d.case.checks, check.Applies d.case obs

variable {d} (ops : Operators F)

theorem Drive.Answered.unique {turn : String × Nat} {obs obs' : Observation F} (h : d.Answered turn obs)
    (h' : d.Answered turn obs') : obs = obs' :=
  Except.ok.inj (h.1.symm.trans h'.1)

theorem raised_failed (observations : List (Observation F)) (exc : String) :
    ∃ obs, d.raised observations exc = failedEverything d.case obs exc :=
  ⟨_, rfl⟩

/-- One turn that passes, and the turns after it. -/
theorem turns_cons {turn : String × Nat} {obs : Observation F} (hanswered : d.Answered turn obs)
    {findings : List Finding} {results : List CheckResult}
    (hchecks : applyChecks d.case obs ("turno " ++ toString turn.2 ++ ": ") (d.case.checksFor turn.2) =
      .ok (findings, results)) (observations : List (Observation F)) (rest : List (String × Nat)) :
    d.turns ops observations (turn :: rest) = (d.turns ops (observations ++ [obs]) rest).map fun later =>
      (later.1, findings ++ later.2.1, results ++ later.2.2) := by
  obtain ⟨hobserved, herror⟩ := hanswered
  rw [Drive.turns, hobserved]
  dsimp only
  rw [herror]
  dsimp only
  rw [hchecks]
  rfl

theorem turns_passed {turns : List (String × Nat)} (h : ∀ t ∈ turns, d.Passed t)
    (observations : List (Observation F)) : ∃ seen findings results,
      d.turns ops observations turns = .ok (observations ++ seen, findings, results) ∧
      List.Forall₂ d.Answered turns seen ∧
      ∀ f, f ∈ findings ↔ ∃ t ∈ turns, ∃ obs, d.Answered t obs ∧ Gives d.case obs (d.case.checksFor t.2) f := by
  induction turns generalizing observations with
  | nil =>
    refine ⟨[], [], [], ?_, .nil, ?_⟩
    · rw [List.append_nil]
      rfl
    · simp
  | cons turn rest ih =>
    obtain ⟨⟨obs, hanswered, happlies⟩, hrest⟩ := List.forall_mem_cons.mp h
    obtain ⟨findings, results, hchecks, hiff⟩ := applyChecks_ok happlies ("turno " ++ toString turn.2 ++ ": ")
    obtain ⟨seen, later, laterResults, hlater, hseen, hlaterIff⟩ := ih hrest (observations ++ [obs])
    refine ⟨obs :: seen, findings ++ later, results ++ laterResults, ?_, .cons hanswered hseen, ?_⟩
    · rw [turns_cons ops hanswered hchecks, hlater, List.append_assoc]
      rfl
    · intro f
      rw [List.mem_append, hiff, hlaterIff]
      constructor
      · rintro (hf | ⟨t, ht, hgiven⟩)
        · exact ⟨turn, List.mem_cons_self, obs, hanswered, hf⟩
        · exact ⟨t, List.mem_cons_of_mem _ ht, hgiven⟩
      · rintro ⟨t, ht, obs', hanswered', hf⟩
        rcases List.mem_cons.mp ht with rfl | ht
        · exact Or.inl (hanswered'.unique hanswered ▸ hf)
        · exact Or.inr ⟨t, ht, obs', hanswered', hf⟩

/-- A turn that does not pass ends the case. -/
theorem turns_stopped {turns : List (String × Nat)} (h : ¬ ∀ t ∈ turns, d.Passed t)
    (observations : List (Observation F)) :
    ∃ obs reason, d.turns ops observations turns = .error (failedEverything d.case obs reason) := by
  induction turns generalizing observations with
  | nil => exact absurd (fun t ht => (List.not_mem_nil ht).elim) h
  | cons turn rest ih =>
    cases hobserved : d.observed turn with
    | error exc =>
      obtain ⟨last, hraised⟩ := raised_failed observations exc
      refine ⟨last, exc, ?_⟩
      rw [Drive.turns, hobserved]
      exact congrArg Except.error hraised
    | ok obs =>
      cases herror : obs.error with
      | null =>
        by_cases happlies : ∀ check ∈ d.case.checksFor turn.2, check.Applies d.case obs
        · obtain ⟨findings, results, hchecks, -⟩ := applyChecks_ok happlies ("turno " ++ toString turn.2 ++ ": ")
          have hlater : ¬ ∀ t ∈ rest, d.Passed t :=
            fun hrest => h (List.forall_mem_cons.mpr ⟨⟨obs, ⟨hobserved, herror⟩, happlies⟩, hrest⟩)
          obtain ⟨obs', reason, hstopped⟩ := ih hlater (observations ++ [obs])
          refine ⟨obs', reason, ?_⟩
          rw [turns_cons ops ⟨hobserved, herror⟩ hchecks, hstopped]
          rfl
        · obtain ⟨exc, hchecks⟩ := applyChecks_raises happlies ("turno " ++ toString turn.2 ++ ": ")
          obtain ⟨last, hraised⟩ := raised_failed (observations ++ [obs]) exc
          refine ⟨last, exc, ?_⟩
          rw [Drive.turns, hobserved]
          dsimp only
          rw [herror]
          dsimp only
          rw [hchecks]
          exact congrArg Except.error hraised
      | obj fields =>
        refine ⟨obs, ops.str (get "status" fields) ++ " " ++ ops.str (get "detail" fields), ?_⟩
        rw [Drive.turns, hobserved]
        dsimp only
        rw [herror]
      | bool b | int i | float f | str s | arr items =>
        obtain ⟨last, hraised⟩ := raised_failed (observations ++ [obs]) (noGet obs.error)
        refine ⟨last, noGet obs.error, ?_⟩
        rw [Drive.turns, hobserved]
        dsimp only
        rw [herror] at hraised ⊢
        exact congrArg Except.error hraised

/-! ## Cases run -/

/-- Where the turns pass, the checks of the last turn judge the last observation. -/
theorem runCase_passed (hopened : d.unopened = none) {earlier : List (String × Nat)} {turn : String × Nat}
    {obs : Observation F} (hturns : d.case.turns.zipIdx = earlier ++ [turn]) (hearlier : ∀ t ∈ earlier, d.Passed t)
    (hanswered : d.Answered turn obs) (happlies : ∀ check ∈ d.case.checksFor turn.2, check.Applies d.case obs) :
    ∃ observations findings results, (∀ f, f ∈ findings ↔ ∃ t ∈ d.case.turns.zipIdx, ∃ seen, d.Answered t seen ∧
        Gives d.case seen (d.case.checksFor t.2) f) ∧
      d.turns ops [] d.case.turns.zipIdx = .ok (observations, findings, results) ∧
      d.runCase ops = d.judged observations obs findings results := by
  have hpassed : ∀ t ∈ d.case.turns.zipIdx, d.Passed t := by
    rw [hturns]
    exact List.forall_mem_append.mpr ⟨hearlier, List.forall_mem_singleton.mpr ⟨obs, hanswered, happlies⟩⟩
  obtain ⟨observations, findings, results, hdriven, hobserved, hiff⟩ := turns_passed ops hpassed []
  have hlast : observations.getLast? = some obs := by
    rw [hturns] at hobserved
    obtain ⟨last, hlast, hsame⟩ := forall₂_last hobserved
    rw [hlast, hsame.unique hanswered]
  refine ⟨observations, findings, results, hiff, hdriven, ?_⟩
  unfold Drive.runCase
  rw [hopened, hdriven]
  simp only [List.nil_append, hlast]

/-- A case that completes keeps the observations of its turns, and the results of its last checks after theirs. -/
theorem runCase_whole (h : d.Completes) : d.unopened = none ∧ d.case.turns.zipIdx ≠ [] ∧
    (∀ t ∈ d.case.turns.zipIdx, d.Passed t) ∧
    ∃ obs driven last, d.turns ops [] d.case.turns.zipIdx = .ok driven ∧
      applyChecks d.case obs "" d.case.checks = .ok last ∧
      (d.runCase ops).observations = driven.1 ∧ (d.runCase ops).checks = driven.2.2 ++ last.2 := by
  obtain ⟨hopened, earlier, turn, obs, hturns, hearlier, hanswered, happlies⟩ := h
  obtain ⟨hown, hlast⟩ := List.forall_mem_append.mp happlies
  obtain ⟨observations, findings, results, -, hdriven, hrun⟩ :=
    runCase_passed ops hopened hturns hearlier hanswered hown
  obtain ⟨lastFindings, lastResults, hchecks, -⟩ := applyChecks_ok hlast ""
  refine ⟨hopened, ?_, ?_, obs, (observations, findings, results), (lastFindings, lastResults), hdriven, hchecks, ?_⟩
  · rw [hturns]
    exact List.append_ne_nil_of_right_ne_nil _ (List.cons_ne_nil _ _)
  · rw [hturns]
    exact List.forall_mem_append.mpr ⟨hearlier, List.forall_mem_singleton.mpr ⟨obs, hanswered, hown⟩⟩
  · rw [hrun, Drive.judged, hchecks]
    exact ⟨rfl, rfl⟩

/-- **A case that completes** has the findings its checks gave. -/
theorem runCase_completes (h : d.Completes) (f : Finding) : f ∈ (d.runCase ops).findings ↔ d.Produces f := by
  obtain ⟨hopened, earlier, turn, obs, hturns, hearlier, hanswered, happlies⟩ := h
  obtain ⟨hown, hlast⟩ := List.forall_mem_append.mp happlies
  obtain ⟨observations, findings, results, hfindings, -, hrun⟩ :=
    runCase_passed ops hopened hturns hearlier hanswered hown
  obtain ⟨lastFindings, lastResults, hchecks, hlastFindings⟩ := applyChecks_ok hlast ""
  rw [hrun, Drive.judged, hchecks]
  show f ∈ findings ++ lastFindings ↔ _
  rw [List.mem_append, hfindings, hlastFindings]
  have hpassed : ∀ t ∈ d.case.turns.zipIdx, d.Passed t := by
    rw [hturns]
    exact List.forall_mem_append.mpr ⟨hearlier, List.forall_mem_singleton.mpr ⟨obs, hanswered, hown⟩⟩
  constructor
  · rintro (⟨t, ht, seen, hseen, hgiven⟩ | hgiven)
    · obtain ⟨before, after, hsplit⟩ := List.append_of_mem ht
      obtain ⟨seen', hseen', hchecks'⟩ := hpassed t ht
      obtain rfl := hseen.unique hseen'
      refine ⟨hopened, before, t, after, seen, hsplit, ?_, hseen, ?_⟩
      · intro t' ht'
        exact hpassed t' (hsplit ▸ List.mem_append_left _ ht')
      · exact (gives_append hchecks' f).mpr (Or.inl hgiven)
    · exact ⟨hopened, earlier, turn, [], obs, hturns, hearlier, hanswered, (gives_append hown f).mpr (Or.inr hgiven)⟩
  · rintro ⟨-, before, t, after, seen, hsplit, -, hseen, hgiven⟩
    have ht : t ∈ d.case.turns.zipIdx := hsplit ▸ List.mem_append_right _ List.mem_cons_self
    obtain ⟨seen', hseen', hchecks'⟩ := hpassed t ht
    obtain rfl := hseen.unique hseen'
    rcases (gives_append hchecks' f).mp hgiven with hturn | hfinal
    · exact Or.inl ⟨t, ht, seen, hseen, hturn⟩
    · cases after with
      | cons next after => exact absurd hfinal (not_gives_nil f)
      | nil =>
        -- the last turn is the last turn
        obtain ⟨-, hsame⟩ := List.append_inj' (hturns.symm.trans hsplit) rfl
        obtain rfl : turn = t := List.head_eq_of_cons_eq hsame
        obtain rfl := hseen.unique hanswered
        exact Or.inr hfinal

/-- **A case that does not complete** has failed its checks, and keeps nothing that they gave. -/
theorem runCase_breaks (h : ¬ d.Completes) : ∃ obs reason, d.runCase ops = failedEverything d.case obs reason := by
  cases hopened : d.unopened with
  | some exc =>
    obtain ⟨last, hraised⟩ := raised_failed (d := d) [] exc
    refine ⟨last, exc, ?_⟩
    unfold Drive.runCase
    rw [hopened]
    exact hraised
  | none =>
    by_cases hpassed : ∀ t ∈ d.case.turns.zipIdx, d.Passed t
    · rcases List.eq_nil_or_concat' d.case.turns.zipIdx with hnil | ⟨earlier, turn, hturns⟩
      · obtain ⟨last, hraised⟩ := raised_failed (d := d) [] "IndexError: list index out of range"
        refine ⟨last, "IndexError: list index out of range", ?_⟩
        unfold Drive.runCase
        rw [hopened, hnil]
        exact hraised
      · rw [hturns] at hpassed
        obtain ⟨hearlier, hturn⟩ := List.forall_mem_append.mp hpassed
        obtain ⟨obs, hanswered, hown⟩ := hturn turn List.mem_cons_self
        obtain ⟨observations, findings, results, -, -, hrun⟩ :=
          runCase_passed ops hopened hturns hearlier hanswered hown
        have hlast : ¬ ∀ check ∈ d.case.checks, check.Applies d.case obs := fun hlast =>
          h ⟨hopened, earlier, turn, obs, hturns, hearlier, hanswered, List.forall_mem_append.mpr ⟨hown, hlast⟩⟩
        obtain ⟨exc, hchecks⟩ := applyChecks_raises hlast ""
        obtain ⟨last, hraised⟩ := raised_failed (d := d) observations exc
        refine ⟨last, exc, ?_⟩
        rw [hrun, Drive.judged, hchecks]
        exact hraised
    · obtain ⟨obs, reason, hstopped⟩ := turns_stopped ops hpassed []
      refine ⟨obs, reason, ?_⟩
      unfold Drive.runCase
      rw [hopened, hstopped]

theorem failedEverything_tolerable (case : Case F) (obs : Observation F) (reason : String) :
    ∀ f ∈ (failedEverything case obs reason).findings, ¬ f.ZeroTolerance := by
  intro f hf
  obtain rfl := List.mem_singleton.mp hf
  rintro (hkind | hcheck)
  · exact FindingKind.noConfusion hkind
  · have hname : "turn" = "does_not_block" := hcheck
    exact absurd hname (by decide)

/-! ## Runs scored -/

/-- The run is reported, and it has failed. -/
def RunFails (outcomes : List (CaseOutcome F)) : Prop :=
  (computeMetrics ops outcomes).map RunReport.status = some .failed

theorem runFails_iff (outcomes : List (CaseOutcome F)) : RunFails ops outcomes ↔
    measurable ops outcomes = true ∧ ∃ outcome ∈ outcomes, ∃ f ∈ outcome.findings, f.ZeroTolerance := by
  have hviolations : (outcomes.flatMap CaseOutcome.findings).filter (fun f => f.kind = .fabrication) ++
      (outcomes.flatMap CaseOutcome.findings).filter (fun f => f.check = "does_not_block") = [] ↔
      ¬ ∃ outcome ∈ outcomes, ∃ f ∈ outcome.findings, f.ZeroTolerance := by
    rw [List.append_eq_nil_iff, List.filter_eq_nil_iff, List.filter_eq_nil_iff]
    simp only [List.mem_flatMap, decide_eq_true_eq, Finding.ZeroTolerance]
    constructor
    · rintro ⟨hkind, hcheck⟩ ⟨outcome, houtcome, f, hf, hzero | hzero⟩
      · exact hkind f ⟨outcome, houtcome, hf⟩ hzero
      · exact hcheck f ⟨outcome, houtcome, hf⟩ hzero
    · intro hnone
      constructor
      · rintro f ⟨outcome, houtcome, hf⟩ hkind
        exact hnone ⟨outcome, houtcome, f, hf, Or.inl hkind⟩
      · rintro f ⟨outcome, houtcome, hf⟩ hcheck
        exact hnone ⟨outcome, houtcome, f, hf, Or.inr hcheck⟩
  unfold RunFails computeMetrics
  by_cases hmeasurable : measurable ops outcomes = true
  · rw [if_pos hmeasurable]
    show some (if _ then RunStatus.completed else RunStatus.failed) = some .failed ↔ _
    split_ifs with hnone
    · exact ⟨fun h => absurd h (by simp), fun h => absurd h.2 (hviolations.mp hnone)⟩
    · exact ⟨fun _ => ⟨hmeasurable, not_not.mp (mt hviolations.mpr hnone)⟩, fun _ => rfl⟩
  · rw [if_neg hmeasurable]
    exact ⟨fun h => absurd h (by simp), fun h => absurd h.1 hmeasurable⟩

end Drive

/-- The case gives an intolerable finding, whatever becomes of it. -/
def Drive.Spotted (d : Drive F) : Prop := ∃ f, d.Produces f ∧ f.ZeroTolerance

/-- **An intolerable finding fails the run** exactly when the numbers of the run can be computed and a case with such
a finding completes: a case that breaks off later takes its findings with it. -/
theorem zero_tolerance_iff (ops : Operators F) (drives : List (Drive F)) :
    (∀ d ∈ drives, d.Spotted → RunFails ops (drives.map (Drive.runCase ops))) ↔
      ∀ d ∈ drives, d.Spotted → measurable ops (drives.map (Drive.runCase ops)) = true ∧
        ∃ e ∈ drives, e.Completes ∧ e.Spotted := by
  have hruns : (∃ outcome ∈ drives.map (Drive.runCase ops), ∃ f ∈ outcome.findings, f.ZeroTolerance) ↔
      ∃ e ∈ drives, e.Completes ∧ e.Spotted := by
    constructor
    · rintro ⟨outcome, houtcome, f, hf, hzero⟩
      obtain ⟨e, he, rfl⟩ := List.mem_map.mp houtcome
      by_cases hcompletes : e.Completes
      · exact ⟨e, he, hcompletes, f, (runCase_completes ops hcompletes f).mp hf, hzero⟩
      · obtain ⟨obs, reason, hrun⟩ := runCase_breaks ops hcompletes
        rw [hrun] at hf
        exact absurd hzero (failedEverything_tolerable e.case obs reason f hf)
    · rintro ⟨e, he, hcompletes, f, hproduces, hzero⟩
      exact ⟨e.runCase ops, List.mem_map_of_mem he, f, (runCase_completes ops hcompletes f).mpr hproduces, hzero⟩
  simp only [runFails_iff, hruns]

def claimedSent (obs : Observation Unit) : Finding :=
  { caseId := obs.caseId, turn := obs.turn, kind := .fabrication, check := "not_contains", source := .check,
    expected := "ausência de 'enviei'", actual := "enviei", detail := "a resposta afirma algo que não existe" }

/-- An answer that claims a transfer before it was confirmed. -/
def tooEarly : Check Unit where
  name := "not_contains(enviei)"
  run obs := if isText "enviei" obs.answer then .returns [claimedSent obs] else .returns []

/-- The second turn ends with an `error` frame. -/
def brokenOff : Drive Unit where
  case := { id := "pix", turns := ["manda 300 pra Renata", "sim"], turnChecks := [(0, [tooEarly])] }
  unopened := none
  reply turn :=
    if turn = 0 then .streamed [(WireName.turn.text, .obj [("text", .str "enviei"), ("ns", .int 7)])] none
    else .streamed [(WireName.error.text, .obj [("status", .int 502), ("detail", .str "upstream")])] none

/-- The language, on values that are no floats. -/
def plainOperators : Operators Unit where
  str value := match value with
    | .int i => toString i
    | .str s => s
    | _ => ""
  truthy value := !isNone value
  zero := ()
  add before _ := some before
  sorted values := some values

def claimedObservation : Observation Unit :=
  { caseId := "pix", turn := 0, question := "manda 300 pra Renata", answer := .str "enviei", ns := .int 7 }

theorem brokenOff_spotted : brokenOff.Spotted := by
  have hgives : Gives brokenOff.case claimedObservation [tooEarly] (claimedSent claimedObservation) :=
    ⟨[], tooEarly, [], [claimedSent claimedObservation], rfl, by simp, rfl, List.mem_singleton.mpr rfl⟩
  have hproduces : brokenOff.Produces (claimedSent claimedObservation) :=
    ⟨rfl, [], ("manda 300 pra Renata", 0), [("sim", 1)], claimedObservation, rfl, by simp, ⟨rfl, rfl⟩, hgives⟩
  exact ⟨claimedSent claimedObservation, hproduces, Or.inl rfl⟩

/-- The finding is gone, and the run counts as completed. -/
theorem masked : ¬ ∀ drives : List (Drive Unit), ∀ d ∈ drives, d.Spotted →
    RunFails plainOperators (drives.map (Drive.runCase plainOperators)) := by
  intro h
  have hfails := h [brokenOff] brokenOff List.mem_cons_self brokenOff_spotted
  unfold RunFails at hfails
  exact absurd hfails (by decide)

end BankingControlPlane.Evals
