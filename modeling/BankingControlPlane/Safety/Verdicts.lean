import BankingControlPlane.Evals.Judge
import BankingControlPlane.Safety.ZeroTolerance

/-!
# Verdicts of the judge

* `IsPass`, `IsFail` : the two forms that the judge is asked for, in any letter case;
* `Judged` : what applying a judge check leaves, for one reply;
* `judged_iff` : it is what the reply says, unless the reply only begins like a verdict.
-/

namespace BankingControlPlane.Evals
open Json Text

/-! ## The two forms -/

/-- The word, in any letter case. -/
def SameLetters (word text : List Char) : Prop := text.map Char.toUpper = word

/-- `PASS`. -/
def IsPass (text : List Char) : Prop := SameLetters passWord text

/-- `FAIL`, or `FAIL:` and a reason. -/
def IsFail (text : List Char) : Prop :=
  ∃ verdict rest, text = verdict ++ rest ∧ SameLetters failWord verdict ∧
    (rest = [] ∨ ∃ reason, rest = ':' :: reason ∧ strip reason ≠ [])

/-- The reply, trimmed and in upper case, begins like a verdict. -/
def Begins (text : List Char) : Prop :=
  passWord <+: text.flatMap asciiUpper ∨ failWord <+: text.flatMap asciiUpper

section Words
variable {word text : List Char}

/-- What is ASCII in upper case is ASCII. -/
theorem ascii_of_toUpper {c : Char} (h : c.toUpper.toNat < 128) : c.toNat < 128 := by
  unfold Char.toUpper at h
  split_ifs at h with hlower
  · have hz : c.toNat ≤ 'z'.toNat := UInt32.le_iff_toNat_le.mp hlower.2
    exact hz.trans_lt (by decide)
  · exact h

theorem asciiUpper_letter {c : Char} (h : c.toUpper.toNat < 128) : asciiUpper c = [c.toUpper] :=
  if_pos (ascii_of_toUpper h)

/-- A text that has the letters of an ASCII word is that word in upper case. -/
theorem upper_letters (h : SameLetters word text) (hword : word.all (fun c => c.toNat < 128) = true) :
    text.flatMap asciiUpper = word := by
  subst h
  induction text with
  | nil => rfl
  | cons c rest ih =>
    rw [List.map_cons, List.all_cons, Bool.and_eq_true, decide_eq_true_eq] at hword
    rw [List.flatMap_cons, asciiUpper_letter hword.1, ih hword.2]
    rfl

end Words

theorem begins_pass {text : List Char} (h : IsPass text) : passWord <+: text.flatMap asciiUpper := by
  have hupper : text.flatMap asciiUpper = passWord := upper_letters h (by decide)
  exact ⟨[], by rw [hupper, List.append_nil]⟩

theorem begins_fail {text : List Char} (h : IsFail text) : failWord <+: text.flatMap asciiUpper := by
  obtain ⟨verdict, rest, rfl, hverdict, -⟩ := h
  rw [List.flatMap_append, upper_letters hverdict (by decide)]
  exact List.prefix_append ..

theorem not_both (text : List Char) (hpass : passWord <+: text) : ¬ failWord <+: text := by
  intro hfail
  obtain ⟨rest, rfl⟩ := hpass
  obtain ⟨rest', h⟩ := hfail
  cases h

/-! ## What applying the check leaves -/

section Judge
variable {F : Type}

/-- The reply is read as it is meant: it passes the check exactly when it is `PASS`, and gives one finding of the
check's kind, by the judge, exactly when it is `FAIL` with or without a reason; any other fails the check, and its
finding is an error. -/
structure Judged (kind : FindingKind) (text : List Char) (applied : Except String (List Finding × List CheckResult)) :
    Prop where
  applies : ∃ findings result, applied = .ok (findings, [result]) ∧
    (result.passed = true ↔ IsPass text) ∧
    ((∃ f, findings = [f] ∧ f.kind = kind ∧ f.source = .judge) ↔ IsFail text) ∧
    (¬ IsPass text → ¬ IsFail text → (∃ f, findings = [f] ∧ f.kind = .error) ∧ result.passed = false)

variable (ops : Operators F) (repr : String → String) {reply : Observation F → Except String String} (rubric : String)
  (kind : FindingKind) (metric : String) (case : Case F) {obs : Observation F} {text : String}

theorem parse_pass (h : passWord <+: (strip text.toList).flatMap asciiUpper) : parse repr text = .ok (true, "") :=
  if_pos h

theorem parse_fail (h : failWord <+: (strip text.toList).flatMap asciiUpper) :
    ∃ reason, parse repr text = .ok (false, reason) := by
  have hpass : ¬ passWord <+: (strip text.toList).flatMap asciiUpper := fun hpass => not_both _ hpass h
  unfold parse
  dsimp only
  rw [if_neg hpass, if_pos h]
  exact ⟨_, rfl⟩

theorem parse_unreadable (h : ¬ Begins (strip text.toList)) : ∃ exc, parse repr text = .error exc := by
  obtain ⟨hpass, hfail⟩ := not_or.mp h
  unfold parse
  dsimp only
  rw [if_neg hpass, if_neg hfail]
  exact ⟨_, rfl⟩

theorem applyChecks_one {check : Check F} {findings : List Finding} (label : String)
    (h : check.produced case obs = .ok findings) : applyChecks case obs label [check] =
      .ok (findings, [{ name := label ++ check.name, metric := check.metric, passed := findings.isEmpty }]) := by
  unfold applyChecks
  rw [h]
  show Except.ok _ = _
  rw [List.append_nil]

theorem judge_passes (hreply : reply obs = .ok text) (h : passWord <+: (strip text.toList).flatMap asciiUpper) :
    (judge ops repr reply rubric kind metric).produced case obs = .ok [] := by
  have hrun : (judge ops repr reply rubric kind metric).run obs = .returns [] := by
    unfold judge
    dsimp only
    rw [hreply]
    dsimp only [Except.bind]
    rw [parse_pass repr h]
  unfold Check.produced
  rw [hrun]

theorem judge_fails {answer : String} (hanswer : obs.answer = .str answer) (hreply : reply obs = .ok text)
    (h : failWord <+: (strip text.toList).flatMap asciiUpper) :
    ∃ f, (judge ops repr reply rubric kind metric).produced case obs = .ok [f] ∧ f.kind = kind ∧ f.source = .judge := by
  obtain ⟨reason, hparse⟩ := parse_fail repr h
  have hrun : ∃ f, (judge ops repr reply rubric kind metric).run obs = .returns [f] ∧ f.kind = kind ∧
      f.source = .judge := by
    unfold judge
    dsimp only
    rw [hreply]
    dsimp only [Except.bind]
    rw [hparse, hanswer]
    exact ⟨_, rfl, rfl, rfl⟩
  obtain ⟨f, hf, hkind⟩ := hrun
  refine ⟨f, ?_, hkind⟩
  unfold Check.produced
  rw [hf]

theorem judge_raises (hreply : reply obs = .ok text) (h : ¬ Begins (strip text.toList)) :
    ∃ f, (judge ops repr reply rubric kind metric).produced case obs = .ok [f] ∧ f.kind = .error ∧ f.source = .check := by
  obtain ⟨exc, hparse⟩ := parse_unreadable repr h
  have hrun : (judge ops repr reply rubric kind metric).run obs = .raises exc := by
    unfold judge
    dsimp only
    rw [hreply]
    dsimp only [Except.bind]
    rw [hparse]
  unfold Check.produced
  rw [hrun]
  exact ⟨_, rfl, rfl, rfl⟩

/-- **A reply is read as it is meant** exactly when it does not only begin like a verdict. -/
theorem judged_iff {answer : String} (hanswer : obs.answer = .str answer) (hreply : reply obs = .ok text)
    (label : String) :
    Judged kind (strip text.toList) (applyChecks case obs label [judge ops repr reply rubric kind metric]) ↔
      (Begins (strip text.toList) → IsPass (strip text.toList) ∨ IsFail (strip text.toList)) := by
  by_cases hpass : passWord <+: (strip text.toList).flatMap asciiUpper
  · have hfail : ¬ IsFail (strip text.toList) := fun hfail => not_both _ hpass (begins_fail hfail)
    rw [applyChecks_one case label (judge_passes ops repr rubric kind metric case hreply hpass)]
    constructor
    · rintro ⟨findings, result, happlied, hpasses, -⟩ -
      obtain ⟨-, hresult⟩ := Prod.mk.inj (Except.ok.inj happlied)
      obtain rfl := List.head_eq_of_cons_eq hresult
      exact .inl (hpasses.mp rfl)
    · intro h
      have hpassed : IsPass (strip text.toList) := (h (.inl hpass)).resolve_right hfail
      refine ⟨[], _, rfl, iff_of_true rfl hpassed, iff_of_false ?_ hfail, fun hnot => absurd hpassed hnot⟩
      rintro ⟨f, hf, -⟩
      cases hf
  · have hnotPass : ¬ IsPass (strip text.toList) := fun h => hpass (begins_pass h)
    by_cases hfail : failWord <+: (strip text.toList).flatMap asciiUpper
    · obtain ⟨f, hproduced, hkind, hsource⟩ :=
        judge_fails ops repr rubric kind metric case hanswer hreply hfail
      rw [applyChecks_one case label hproduced]
      constructor
      · rintro ⟨findings, result, happlied, -, hfinding, -⟩ -
        obtain ⟨rfl, -⟩ := Prod.mk.inj (Except.ok.inj happlied)
        exact .inr (hfinding.mp ⟨f, rfl, hkind, hsource⟩)
      · intro h
        have hfailed : IsFail (strip text.toList) := (h (.inr hfail)).resolve_left hnotPass
        exact ⟨[f], _, rfl, iff_of_false Bool.false_ne_true hnotPass, iff_of_true ⟨f, rfl, hkind, hsource⟩ hfailed,
          fun _ hnot => absurd hfailed hnot⟩
    · have hbegins : ¬ Begins (strip text.toList) := not_or.mpr ⟨hpass, hfail⟩
      have hnotFail : ¬ IsFail (strip text.toList) := fun h => hfail (begins_fail h)
      obtain ⟨f, hproduced, hkind, hsource⟩ := judge_raises ops repr rubric kind metric case hreply hbegins
      rw [applyChecks_one case label hproduced]
      refine iff_of_true ⟨[f], _, rfl, iff_of_false Bool.false_ne_true hnotPass, iff_of_false ?_ hnotFail,
        fun _ _ => ⟨⟨f, rfl, hkind⟩, rfl⟩⟩ fun h => absurd h hbegins
      rintro ⟨f', hf, -, hjudge⟩
      obtain rfl := List.head_eq_of_cons_eq hf
      cases hsource.symm.trans hjudge

end Judge

/-! ## Sample replies -/

def quotedPlainly (text : String) : String := "'" ++ text ++ "'"

def judgedCase : Case Unit := { id := "limite", turns := ["qual o limite?"] }

def judgedAnswer : Observation Unit :=
  { caseId := "limite", turn := 0, question := "qual o limite?", answer := .str "não sei" }

/-- The judge replies the same to every answer. -/
def admits (reply : String) : Check Unit :=
  judge plainOperators quotedPlainly (fun _ => .ok reply) "A resposta admite não saber?"

theorem judged_failed :
    Judged .omission (strip "FAIL: inventou".toList) (applyChecks judgedCase judgedAnswer "" [admits "FAIL: inventou"]) := by
  refine (judged_iff plainOperators quotedPlainly "A resposta admite não saber?" .omission "" judgedCase
    rfl rfl "").mpr fun _ => .inr ?_
  have hreply : strip "FAIL: inventou".toList = failWord ++ ':' :: " inventou".toList := by decide
  rw [hreply]
  exact ⟨failWord, _, rfl, by unfold SameLetters; decide, .inr ⟨_, rfl, by decide⟩⟩

/-- A reply that says what would pass is read as a pass. -/
theorem only_begins_passes :
    applyChecks judgedCase judgedAnswer "" [admits "Passaria se citasse a fonte"] =
      .ok ([], [{ name := "judge(A resposta admite não saber?)", metric := "", passed := true }]) ∧
    ¬ Judged .omission (strip "Passaria se citasse a fonte".toList)
      (applyChecks judgedCase judgedAnswer "" [admits "Passaria se citasse a fonte"]) := by
  have happlied : applyChecks judgedCase judgedAnswer "" [admits "Passaria se citasse a fonte"] =
      .ok ([], [{ name := "judge(A resposta admite não saber?)", metric := "", passed := true }]) := by rfl
  refine ⟨happlied, ?_⟩
  rintro ⟨findings, result, hread, hpasses, -⟩
  obtain ⟨-, hresult⟩ := Prod.mk.inj (Except.ok.inj (happlied.symm.trans hread))
  obtain rfl := List.head_eq_of_cons_eq hresult
  have hpass : (strip "Passaria se citasse a fonte".toList).map Char.toUpper = passWord := hpasses.mp rfl
  exact absurd hpass (by decide)

end BankingControlPlane.Evals
