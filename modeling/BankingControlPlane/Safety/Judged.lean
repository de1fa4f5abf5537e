import BankingControlPlane.Safety.Heard
import BankingControlPlane.Safety.Readers
import BankingControlPlane.Safety.ZeroTolerance

/-!
# What the harness says of a turn is what happened in it

* `Deed` : what a turn did; `Assertion.Holds` : what a check means of it;
* `observation_shows` : the observation of a turn shows what it did;
* `check_judges` : a deterministic check finds nothing exactly where it holds;
* `turns_judged` : so it goes from turn to turn of a conversation;
* `case_judged` : the outcome of a case, from what the agent did to the verdicts.
-/

namespace BankingControlPlane.Evals
open Json

/-! ## What a turn did -/

/-- What was said, the tools that were called, and the gate that refused, if one did. -/
structure Deed where
  answer : String
  called : List String
  refusal : Option Gate

section Deeds
variable (spec : GuardSpec) (mode : Mode)

/-- The gate that refused the turn. -/
def gateOf (turn : Turn) : Option Gate :=
  if Refused spec mode turn then some .guardIn
  else match turn.ending with
    | .answers content =>
      if .guardOut ∈ mode.mounts ∧ ¬ Passes spec.outputCheck content.text then some .guardOut else none
    | _ => none

def deedOf (history : List Message) (turn : Turn) : Deed where
  answer := finalText (runTurn spec mode history turn).final
  called := if Refused spec mode turn then [] else turn.rounds.flatMap ToolRound.calls
  refusal := gateOf spec mode turn

end Deeds

section Meaning
variable {F : Type} (lang : Language F)

/-- What the assertion says of a turn. -/
def Assertion.Holds (deed : Deed) : Assertion → Prop
  | .contains needles => ∀ needle ∈ needles, lang.Within needle deed.answer
  | .notContains needles => ∀ needle ∈ needles, ¬ lang.Within needle deed.answer
  | .callsTools names => ∀ name ∈ names, name ∈ deed.called
  | .blocks guard => deed.refusal.map Gate.text = some guard
  | .doesNotBlock => deed.refusal = none

instance (deed : Deed) (a : Assertion) : Decidable (a.Holds lang deed) :=
  match a with
  | .contains needles => inferInstanceAs (Decidable (∀ needle ∈ needles, lang.Within needle deed.answer))
  | .notContains needles => inferInstanceAs (Decidable (∀ needle ∈ needles, ¬ lang.Within needle deed.answer))
  | .callsTools names => inferInstanceAs (Decidable (∀ name ∈ names, name ∈ deed.called))
  | .blocks guard => inferInstanceAs (Decidable (deed.refusal.map Gate.text = some guard))
  | .doesNotBlock => inferInstanceAs (Decidable (deed.refusal = none))

/-- A breach of it fails the run. -/
def Assertion.Intolerable : Assertion → Prop
  | .notContains _ | .doesNotBlock => True
  | .contains _ | .callsTools _ | .blocks _ => False

instance : DecidablePred Assertion.Intolerable
  | .notContains _ | .doesNotBlock => isTrue trivial
  | .contains _ | .callsTools _ | .blocks _ => isFalse id

/-- What is asserted of a turn, with the label of its result. -/
structure Asserted where
  label : String
  deed : Deed
  assertion : Assertion

def Asserted.Holds (y : Asserted) : Prop := y.assertion.Holds lang y.deed

instance (y : Asserted) : Decidable (y.Holds lang) := inferInstanceAs (Decidable (y.assertion.Holds lang y.deed))

def Asserted.result (y : Asserted) : CheckResult where
  name := y.label ++ (y.assertion.check lang).name
  metric := (y.assertion.check lang).metric
  passed := decide (y.Holds lang)

/-- What these findings say of these assertions. -/
structure Tallies (ys : List Asserted) (findings : List Finding) : Prop where
  clean : findings = [] ↔ ∀ y ∈ ys, y.Holds lang
  zero : (∃ f ∈ findings, f.ZeroTolerance) ↔ ∃ y ∈ ys, y.assertion.Intolerable ∧ ¬ y.Holds lang
  judged : ∀ f ∈ findings, f.kind ≠ .error

/-- The observation shows what the turn did. -/
structure Observation.Shows (obs : Observation F) (deed : Deed) : Prop where
  answer : obs.answer = .str deed.answer
  called : ∃ called, obs.toolsCalled = some called ∧ ∀ name, name ∈ called ↔ name ∈ deed.called
  refusal : obs.blockedBy = some (deed.refusal.toList.map fun gate => .str gate.text)

end Meaning

/-! ## Checks -/

section Checks
variable {F : Type} {lang : Language F} {obs : Observation F} {deed : Deed}

/-- A finding for each entry that is amiss. -/
theorem findings_nil_iff {α : Type} (xs : List α) (amiss : α → Prop) [DecidablePred amiss] (finding : α → Finding) :
    ((xs.filter fun x => amiss x).map finding) = [] ↔ ∀ x ∈ xs, ¬ amiss x := by
  rw [List.map_eq_nil_iff, List.filter_eq_nil_iff]
  simp

/-- **A deterministic check** finds nothing exactly where it holds of the turn. -/
theorem check_judges (lang : Language F) (h : obs.Shows deed) (a : Assertion) :
    ∃ findings, (a.check lang).run obs = .returns findings ∧
      (findings = [] ↔ a.Holds lang deed) ∧ ∀ f ∈ findings, f.kind ≠ .error ∧ (f.ZeroTolerance ↔ a.Intolerable) := by
  cases a with
  | contains needles =>
    simp only [Assertion.check, contains, h.answer]
    refine ⟨_, rfl, (findings_nil_iff needles _ _).trans (forall₂_congr fun _ _ => not_not), ?_⟩
    intro f hf
    obtain ⟨needle, -, rfl⟩ := List.mem_map.mp hf
    simp [Finding.ZeroTolerance, Assertion.Intolerable]
  | notContains needles =>
    simp only [Assertion.check, notContains, h.answer]
    refine ⟨_, rfl, findings_nil_iff needles _ _, ?_⟩
    intro f hf
    obtain ⟨needle, -, rfl⟩ := List.mem_map.mp hf
    simp [Finding.ZeroTolerance, Assertion.Intolerable]
  | callsTools names =>
    obtain ⟨called, hcalled, hmem⟩ := h.called
    simp only [Assertion.check, callsTools, hcalled]
    refine ⟨_, rfl, (findings_nil_iff names _ _).trans ?_, ?_⟩
    · exact forall₂_congr fun name _ => not_not.trans (hmem name)
    · intro f hf
      obtain ⟨name, -, rfl⟩ := List.mem_map.mp hf
      simp [Finding.ZeroTolerance, Assertion.Intolerable]
  | blocks guard =>
    have hfired : (deed.refusal.toList.map fun gate => (.str gate.text : Value F)).any (isText guard) = true ↔
        deed.refusal.map Gate.text = some guard := by
      cases deed.refusal with
      | none => simp
      | some gate => simp [isText]
    simp only [Assertion.check, blocks, h.refusal, h.answer, quoted]
    by_cases hblocks : deed.refusal.map Gate.text = some guard
    · rw [if_pos (hfired.mpr hblocks)]
      exact ⟨[], rfl, iff_of_true rfl hblocks, fun f hf => (List.not_mem_nil hf).elim⟩
    · rw [if_neg (mt hfired.mp hblocks)]
      refine ⟨_, rfl, iff_of_false (List.cons_ne_nil _ _) hblocks, ?_⟩
      intro f hf
      obtain rfl := List.mem_singleton.mp hf
      simp [Finding.ZeroTolerance, Assertion.Intolerable]
  | doesNotBlock =>
    simp only [Assertion.check, doesNotBlock, h.refusal]
    cases hrefusal : deed.refusal with
    | none => exact ⟨[], rfl, iff_of_true rfl hrefusal, fun f hf => (List.not_mem_nil hf).elim⟩
    | some gate =>
      refine ⟨_, rfl, iff_of_false (List.cons_ne_nil _ _) (by simp [Assertion.Holds, hrefusal]), ?_⟩
      intro f hf
      obtain rfl := List.mem_singleton.mp hf
      simp [Finding.ZeroTolerance, Assertion.Intolerable]

theorem tallies_nil : Tallies lang [] [] :=
  ⟨by simp, by simp, by simp⟩

theorem Tallies.append {ys more : List Asserted} {findings later : List Finding} (h : Tallies lang ys findings)
    (hmore : Tallies lang more later) : Tallies lang (ys ++ more) (findings ++ later) := by
  constructor
  · rw [List.append_eq_nil_iff, h.clean, hmore.clean, List.forall_mem_append]
  · simp only [List.mem_append, or_and_right, exists_or]
    rw [h.zero, hmore.zero]
  · exact List.forall_mem_append.mpr ⟨h.judged, hmore.judged⟩

/-- What is asserted of one turn. -/
def assertedOf (label : String) (deed : Deed) (as : List Assertion) : List Asserted :=
  as.map fun a => ⟨label, deed, a⟩

/-- The checks of a turn, applied one after the other. -/
theorem applyChecks_judges (lang : Language F) (h : obs.Shows deed) (case : Case F) (label : String)
    (as : List Assertion) :
    ∃ findings, applyChecks case obs label (as.map (Assertion.check lang)) =
        .ok (findings, (assertedOf label deed as).map (Asserted.result lang)) ∧
      Tallies lang (assertedOf label deed as) findings := by
  induction as with
  | nil => exact ⟨[], rfl, tallies_nil⟩
  | cons a rest ih =>
    obtain ⟨found, hrun, hclean, hkinds⟩ := check_judges lang h a
    obtain ⟨findings, hlater, htallies⟩ := ih
    have hproduced : (a.check lang).produced case obs = .ok found := by rw [Check.produced, hrun]
    have hone : Tallies lang (assertedOf label deed [a]) found := by
      constructor
      · refine hclean.trans ⟨fun hholds y hy => ?_, fun hall => hall _ (List.mem_singleton_self _)⟩
        exact List.mem_singleton.mp hy ▸ hholds
      · constructor
        · rintro ⟨f, hf, hzero⟩
          refine ⟨_, List.mem_singleton_self _, (hkinds f hf).2.mp hzero, fun hholds => ?_⟩
          rw [hclean.mpr hholds] at hf
          exact List.not_mem_nil hf
        · rintro ⟨y, hy, hintolerable, hbreach⟩
          obtain rfl := List.mem_singleton.mp hy
          obtain ⟨f, hf⟩ := List.exists_mem_of_ne_nil _ (mt hclean.mp hbreach)
          exact ⟨f, hf, (hkinds f hf).2.mpr hintolerable⟩
      · exact fun f hf => (hkinds f hf).1
    refine ⟨found ++ findings, ?_, hone.append htallies⟩
    have hpassed : found.isEmpty = decide (a.Holds lang deed) := by
      rw [Bool.eq_iff_iff, List.isEmpty_iff, hclean, decide_eq_true_eq]
    rw [List.map_cons, applyChecks, hproduced]
    show (applyChecks case obs label (rest.map (Assertion.check lang))).bind _ = _
    rw [hlater, hpassed]
    rfl

end Checks

/-! ## Observations -/

/-- A tool has run. -/
def Ran {K : Type} (e : StageEvent K) : Prop := e.kind = .tool ∧ e.status = .done

instance {K : Type} (e : StageEvent K) : Decidable (Ran e) := inferInstanceAs (Decidable (_ ∧ _))

section Stages
variable {F : Type}

theorem isText_kind (kind : StageKind) (e : StageEvent F) :
    isText kind.text (get "kind" e.payload) = decide (e.kind = kind) := by
  show decide (e.kind.text = kind.text) = _
  cases e.kind <;> cases kind <;> rfl

theorem isText_status (status : StageStatus) (e : StageEvent F) :
    isText status.text (get "status" e.payload) = decide (e.status = status) := by
  show decide (e.status.text = status.text) = _
  cases e.status <;> cases status <;> rfl

theorem ranTool_payload (e : StageEvent F) : ranTool e.payload = decide (Ran e) := by
  show (isText StageKind.tool.text _ && isText StageStatus.done.text _) = _
  rw [isText_kind, isText_status, ← Bool.decide_and]
  rfl

theorem refusing_payload (e : StageEvent F) : ((isText "guard_in" (get "kind" e.payload) ||
      isText "guard_out" (get "kind" e.payload)) && isText "blocked" (get "status" e.payload)) =
    decide e.Refuses := by
  show ((isText StageKind.guardIn.text _ || isText StageKind.guardOut.text _) &&
    isText StageStatus.blocked.text _) = _
  rw [isText_kind, isText_kind, isText_status, ← Bool.decide_or, ← Bool.decide_and]
  rfl

/-- Among the stages kept are all that have a status other than a start. -/
theorem keptStages_filter (p : List (String × Value F) → Bool) (q : StageEvent F → Prop) [DecidablePred q]
    (hpq : ∀ e, p e.payload = decide (q e)) (hq : ∀ e, q e → e.status ≠ .start) (events : List (StageEvent F)) :
    (keptStages events).filter p = (events.filter fun e => q e).map StageEvent.payload := by
  unfold keptStages
  rw [List.filter_map, List.filter_filter]
  congr 1
  apply List.filter_congr
  intro e _
  rw [Function.comp_apply, hpq, ← Bool.decide_and]
  exact decide_eq_decide.mpr (and_iff_left_of_imp (hq e))

variable {obs : Observation F} {events : List (StageEvent F)} (h : obs.stages = keptStages events)
include h

theorem toolsCalled_kept : obs.toolsCalled =
    some ((events.filter fun e => Ran e).map fun e => removeprefix "tool:" e.name) := by
  unfold Observation.toolsCalled
  rw [h, keptStages_filter ranTool Ran ranTool_payload fun e hran hstart =>
    StageStatus.noConfusion (hstart.symm.trans hran.2)]
  rw [List.mapM_map]
  exact List.mapM_pure

theorem blockedBy_kept : obs.blockedBy = some ((events.filter fun e => e.Refuses).map fun e => .str e.name) := by
  unfold Observation.blockedBy
  rw [h, keptStages_filter _ StageEvent.Refuses refusing_payload fun e hrefuses hstart =>
    StageStatus.noConfusion (hstart.symm.trans hrefuses.2)]
  rw [List.mapM_map]
  exact List.mapM_pure

end Stages

section Rails
variable {F : Type} {spec : GuardSpec} {mode : Mode} {history : List Message} {n : Narrated F}

theorem removeprefix_append (start name : String) : removeprefix start (start ++ name) = name := by
  unfold removeprefix
  rw [String.toList_append, if_pos (List.prefix_append _ _), List.drop_left, String.ofList_toList]

/-- A turn that the gate lets through comes to an answer if the model does. -/
theorem answers_through (h : Answers spec mode n.turn) (hthrough : ¬ Refused spec mode n.turn) :
    ∃ content call, n.ending = .answers content call := by
  have hraised : n.ending.ending.failed = false := h.resolve_left hthrough
  cases hending : n.ending with
  | answers content call => exact ⟨content, call, rfl⟩
  | modelRaises | toolRaises =>
    rw [hending] at hraised
    cases hraised

/-- The tools that ran in a round are those it called, in whatever order they came back. -/
theorem ran_round (r : NarratedRound F) (name : String) :
    (∃ e ∈ r.frames, Ran e ∧ removeprefix "tool:" e.name = name) ↔ name ∈ r.round.calls := by
  have hcalls : r.round.calls = r.calls.map Prod.fst := rfl
  rw [hcalls, List.mem_map]
  constructor
  · rintro ⟨e, he, ⟨hkind, hdone⟩, rfl⟩
    rcases List.mem_append.mp he with he | he
    · cases hkind.symm.trans (call_kind _ _ e he)
    · obtain ⟨l, hl, hmem⟩ := (r.interleaved.mem_iff e).mp he
      obtain ⟨call, hcall, rfl⟩ := List.mem_map.mp hl
      rcases List.mem_cons.mp hmem with rfl | hmem
      · cases hdone
      · obtain rfl := List.mem_singleton.mp hmem
        exact ⟨call, hcall, (removeprefix_append "tool:" call.1).symm⟩
  · rintro ⟨call, hcall, rfl⟩
    have hdone : (⟨"tool:" ++ call.1, .tool, call.1, .done, some call.2, none⟩ : StageEvent F) ∈
        (ToolOutcome.returned call.2).frames call.1 := List.mem_cons_of_mem _ (List.mem_singleton_self _)
    have hemitted := (r.interleaved.mem_iff _).mpr ⟨_, List.mem_map_of_mem hcall, hdone⟩
    exact ⟨_, List.mem_append_right _ hemitted, ⟨rfl, rfl⟩, removeprefix_append "tool:" call.1⟩

/-- The tools that ran in a turn. -/
theorem ran_run (h : Answers spec mode n.turn) (name : String) :
    (∃ e ∈ (n.run spec mode history).1, Ran e ∧ removeprefix "tool:" e.name = name) ↔
      name ∈ (deedOf spec mode history n.turn).called := by
  unfold deedOf
  dsimp only
  by_cases hrefused : Refused spec mode n.turn
  · rw [run_refused hrefused, if_pos hrefused]
    refine iff_of_false ?_ List.not_mem_nil
    rintro ⟨e, he, ⟨hkind, -⟩, -⟩
    simp only [List.mem_cons, List.not_mem_nil, or_false] at he
    rcases he with rfl | rfl | rfl | rfl <;> cases hkind
  · obtain ⟨content, call, hending⟩ := answers_through h hrefused
    have hrounds : n.turn.rounds.flatMap ToolRound.calls = n.rounds.flatMap fun r => r.round.calls :=
      List.flatMap_map ..
    rw [run_through hrefused hending, if_neg hrefused, hrounds, List.mem_flatMap]
    simp only [← ran_round]
    constructor
    · rintro ⟨e, he, hran, hname⟩
      rcases List.mem_append.mp he with he | he
      · rcases List.mem_cons.mp he with rfl | he
        · cases hran.1.symm.trans (openCell_kind _).1
        · rcases List.mem_append.mp he with he | he
          · obtain ⟨r, hr, he⟩ := List.mem_flatMap.mp he
            exact ⟨r, hr, e, he, hran, hname⟩
          · rw [hending] at he
            cases hran.1.symm.trans (call_kind _ _ e he)
      · rcases List.mem_pair.mp he with rfl | rfl
        · cases hran.1.symm.trans (closeCell_kind _ _).1
        · cases hran.1
    · rintro ⟨r, hr, e, he, hran, hname⟩
      refine ⟨e, List.mem_append_left _ (List.mem_cons_of_mem _ ?_), hran, hname⟩
      exact List.mem_append_left _ (List.mem_flatMap.mpr ⟨r, hr, he⟩)

theorem closeCell_name (text : String) (ns : Nat) :
    (closeCell spec mode text ns : StageEvent F).name = Gate.guardOut.text := by
  unfold closeCell
  split_ifs
  · cases spec.outputCheck text <;> rfl
  · rfl

/-- The one gate that refused, if one did. -/
theorem refuses_run (h : Answers spec mode n.turn) :
    (((n.run spec mode history).1.filter fun e => e.Refuses).map fun e => (.str e.name : Value F)) =
      (gateOf spec mode n.turn).toList.map fun gate => .str gate.text := by
  unfold gateOf
  by_cases hrefused : Refused spec mode n.turn
  · rw [run_refused hrefused, if_pos hrefused]
    rfl
  · obtain ⟨content, call, hending⟩ := answers_through h hrefused
    have hturn : n.turn.ending = .answers content := congrArg NarratedEnding.ending hending
    have hopen : ¬ (openCell mode (n.gateNs .guardIn) : StageEvent F).Refuses :=
      fun hrefuses => (openCell_kind _).2.2 hrefuses.2
    have hloop : n.loopFrames.filter (fun e => e.Refuses) = [] := by
      refine List.filter_eq_nil_iff.mpr fun e he => ?_
      rw [decide_eq_true_eq]
      rintro ⟨hgate | hgate, -⟩ <;> rcases loopFrames_kind e he with hkind | hkind <;> cases hgate.symm.trans hkind
    rw [run_through hrefused hending, if_neg hrefused, hturn, List.cons_append,
      List.filter_cons_of_neg (by simpa using hopen), List.filter_append, hloop, List.nil_append]
    dsimp only
    by_cases hclosed : Gate.guardOut ∈ mode.mounts ∧ ¬ Passes spec.outputCheck content.text
    · have hblocked := (@closeCell_blocked F spec mode content.text (n.gateNs .guardOut)).mpr hclosed
      have hrefuses : (closeCell spec mode content.text (n.gateNs .guardOut) : StageEvent F).Refuses :=
        ⟨Or.inr (closeCell_kind _ _).1, hblocked⟩
      rw [if_pos hclosed, List.filter_cons_of_pos (by simpa using hrefuses), List.map_cons, closeCell_name]
      rfl
    · have hpassed : ¬ (closeCell spec mode content.text (n.gateNs .guardOut) : StageEvent F).Refuses :=
        fun hrefuses => hclosed ((closeCell_blocked _ _).mp hrefuses.2)
      rw [if_neg hclosed, List.filter_cons_of_neg (by simpa using hpassed)]
      rfl

/-- **What is observed of a turn** shows what it did. -/
theorem observation_shows {C : Type} {x : Exchange C F} (history : List Message)
    (h : Answers spec mode x.narrated.turn) (caseId : String) (turn : Nat) (question : String) :
    (x.observation spec mode history caseId turn question).Shows (deedOf spec mode history x.narrated.turn) := by
  constructor
  · rfl
  · refine ⟨_, toolsCalled_kept rfl, fun name => ?_⟩
    rw [← ran_run h, List.mem_map]
    simp only [List.mem_filter, decide_eq_true_eq, and_assoc]
  · rw [blockedBy_kept rfl, refuses_run h]
    rfl

end Rails

/-! ## Cases -/

section Cases
variable {C F : Type} (lang : Language F) (fl : Floats F) (stageOf : C → Except String (Option (Value F)))
  (net : Transport) (spec : GuardSpec) (mode : Mode)

/-- The turns of a conversation, each on the thread as the last left it. -/
def Talk : List Message → List String → List (Exchange C F) → Prop
  | _, _, [] => True
  | _, [], _ :: _ => False
  | history, message :: messages, x :: rest =>
    x.narrated.message = message ∧ Took fl stageOf spec mode history x ∧
      Talk (runTurn spec mode history x.narrated.turn).final messages rest

/-- What the turns of a conversation did. -/
def deedsOf : List Message → List (Exchange C F) → List Deed
  | _, [] => []
  | history, x :: rest =>
    deedOf spec mode history x.narrated.turn :: deedsOf (runTurn spec mode history x.narrated.turn).final rest

/-- What is asserted of the turns from this one on. -/
def Script.assertedFrom (script : Script) : Nat → List Deed → List Asserted
  | _, [] => []
  | k, deed :: rest =>
    assertedOf ("turno " ++ toString k ++ ": ") deed (((script.turnChecks.find? fun entry =>
      entry.1 = (k : Int)).map Prod.snd).getD []) ++ script.assertedFrom (k + 1) rest

/-- What a case asserts: of each turn as it goes, and of the last. -/
def Script.asserted (script : Script) (deeds : List Deed) : List Asserted :=
  script.assertedFrom 0 deeds ++ deeds.getLast?.toList.flatMap fun deed => assertedOf "" deed script.checks

/-- The case as it is driven; after the turns that were served the service is gone. -/
def Script.drive (script : Script) (talk : List (Exchange C F)) : Drive F where
  case := script.case lang
  unopened := none
  reply k := (talk[k]?.map (Exchange.heard fl stageOf net)).getD (.refused net.brokenOff)

def Script.outcome (script : Script) (talk : List (Exchange C F)) : CaseOutcome F :=
  (script.drive lang fl stageOf net talk).runCase lang.ops

/-- Every turn was served, came to an answer, and was told. -/
structure Script.Whole (script : Script) (talk : List (Exchange C F)) : Prop where
  turns : script.turns ≠ []
  served : talk.length = script.turns.length
  told : ∀ x ∈ talk, x.Told stageOf spec mode

instance (script : Script) (talk : List (Exchange C F)) : Decidable (script.Whole stageOf spec mode talk) :=
  decidable_of_iff (script.turns ≠ [] ∧ talk.length = script.turns.length ∧ ∀ x ∈ talk, x.Told stageOf spec mode)
    ⟨fun h => ⟨h.1, h.2.1, h.2.2⟩, fun h => ⟨h.turns, h.served, h.told⟩⟩

end Cases

section Driven
variable {C F : Type} {lang : Language F} {fl : Floats F} {stageOf : C → Except String (Option (Value F))}
  {net : Transport} {spec : GuardSpec} {mode : Mode} {history : List Message} {script : Script}

theorem checksFor_case (k : Nat) : (script.case lang).checksFor k = (((script.turnChecks.find? fun entry =>
    entry.1 = (k : Int)).map Prod.snd).getD []).map (Assertion.check lang) := by
  unfold Case.checksFor Script.case
  dsimp only
  rw [List.find?_map, Option.map_map]
  show ((script.turnChecks.find? fun entry => entry.1 = (k : Int)).map _).getD [] = _
  cases script.turnChecks.find? fun entry => entry.1 = (k : Int) <;> rfl

/-- A talk that goes on from this turn, driven. -/
theorem turns_judged (lang : Language F) (net : Transport) (script : Script) (hfl : fl.Lawful)
    (talk : List (Exchange C F)) {messages : List String} {rest : List (Exchange C F)} {k : Nat}
    (htalk : Talk fl stageOf spec mode history messages rest) (hserved : rest.length = messages.length)
    (htold : ∀ x ∈ rest, x.Told stageOf spec mode) (hdrop : talk.drop k = rest)
    (observations : List (Observation F)) :
    ∃ seen findings, (script.drive lang fl stageOf net talk).turns lang.ops observations (messages.zipIdx k) =
        .ok (observations ++ seen, findings,
          (script.assertedFrom k (deedsOf spec mode history rest)).map (Asserted.result lang)) ∧
      List.Forall₂ (Observation.Shows (F := F)) seen (deedsOf spec mode history rest) ∧
      Tallies lang (script.assertedFrom k (deedsOf spec mode history rest)) findings := by
  induction rest generalizing history messages k observations with
  | nil =>
    obtain rfl := List.eq_nil_of_length_eq_zero hserved.symm
    exact ⟨[], [], by rw [List.append_nil]; rfl, .nil, tallies_nil⟩
  | cons x rest ih =>
    cases messages with
    | nil => cases hserved
    | cons message messages =>
      obtain ⟨hmessage, htook, htalk⟩ := htalk
      obtain ⟨hx, htold⟩ := List.forall_mem_cons.mp htold
      have hreply : talk[k]? = some x := by
        have hhead := congrArg List.head? hdrop
        rwa [List.head?_drop] at hhead
      have hnext : talk.drop (k + 1) = rest := by rw [← List.tail_drop, hdrop, List.tail_cons]
      have hanswered : (script.drive lang fl stageOf net talk).Answered (message, k)
          (x.observation spec mode history script.id k message) := by
        refine ⟨?_, rfl⟩
        unfold Drive.observed Script.drive
        dsimp only
        rw [hreply]
        exact observed_told net hfl htook hx script.id k message
      have hshows := observation_shows history hx.answers script.id k message
      obtain ⟨found, hchecks, htallies⟩ := applyChecks_judges lang hshows (script.case lang)
        ("turno " ++ toString k ++ ": ")
        (((script.turnChecks.find? fun entry => entry.1 = (k : Int)).map Prod.snd).getD [])
      rw [← checksFor_case] at hchecks
      obtain ⟨seen, findings, hlater, hseen, hrest⟩ := ih htalk (Nat.succ.inj hserved) htold hnext
        (observations ++ [x.observation spec mode history script.id k message])
      refine ⟨_ :: seen, found ++ findings, ?_, .cons hshows hseen, htallies.append hrest⟩
      rw [List.zipIdx_cons, turns_cons lang.ops hanswered hchecks, hlater]
      simp [Except.map, Script.assertedFrom, deedsOf]

theorem deedsOf_length (talk : List (Exchange C F)) : (deedsOf spec mode history talk).length = talk.length := by
  induction talk generalizing history with
  | nil => rfl
  | cons x rest ih => exact congrArg (· + 1) ih

theorem talk_length {messages : List String} {talk : List (Exchange C F)}
    (h : Talk fl stageOf spec mode history messages talk) : talk.length ≤ messages.length := by
  induction talk generalizing history messages with
  | nil => exact Nat.zero_le _
  | cons x rest ih =>
    cases messages with
    | nil => exact h.elim
    | cons message messages => exact Nat.succ_le_succ (ih h.2.2)

theorem talk_took {messages : List String} {talk : List (Exchange C F)}
    (h : Talk fl stageOf spec mode history messages talk) :
    ∀ x ∈ talk, ∃ before, Took fl stageOf spec mode before x := by
  induction talk generalizing history messages with
  | nil => exact fun x hx => (List.not_mem_nil hx).elim
  | cons x rest ih =>
    cases messages with
    | nil => exact h.elim
    | cons message messages => exact List.forall_mem_cons.mpr ⟨⟨history, h.2.1⟩, ih h.2.2⟩

theorem forall₂_getLast {α β : Type} {R : α → β → Prop} {xs : List α} {ys : List β} (h : List.Forall₂ R xs ys)
    (hne : xs ≠ []) : ∃ x y, xs.getLast? = some x ∧ ys.getLast? = some y ∧ R x y := by
  rcases List.eq_nil_or_concat' xs with rfl | ⟨init, x, rfl⟩
  · exact absurd rfl hne
  · obtain ⟨y, hlast, hxy⟩ := forall₂_last h
    exact ⟨x, y, List.getLast?_concat, hlast, hxy⟩

section
variable (lang : Language F) (net : Transport) (hfl : fl.Lawful) {talk : List (Exchange C F)}
  (htalk : Talk fl stageOf spec mode [] script.turns talk)
include hfl htalk

/-- The outcome of a conversation that was whole. -/
theorem outcome_whole (h : script.Whole stageOf spec mode talk) :
    (script.outcome lang fl stageOf net talk).checks =
        (script.asserted (deedsOf spec mode [] talk)).map (Asserted.result lang) ∧
      Tallies lang (script.asserted (deedsOf spec mode [] talk)) (script.outcome lang fl stageOf net talk).findings ∧
      (script.outcome lang fl stageOf net talk).observations.length = script.turns.length := by
  obtain ⟨seen, findings, hdriven, hseen, htallies⟩ :=
    turns_judged lang net script (k := 0) hfl talk htalk h.served h.told rfl []
  have hlength : seen.length = script.turns.length := by
    rw [hseen.length_eq, deedsOf_length, h.served]
  have hne : seen ≠ [] := by
    rw [← List.length_pos_iff, hlength, List.length_pos_iff]
    exact h.turns
  obtain ⟨last, deed, hlast, hdeed, hshows⟩ := forall₂_getLast hseen hne
  obtain ⟨found, hchecks, hfound⟩ := applyChecks_judges lang hshows (script.case lang) "" script.checks
  have houtcome : script.outcome lang fl stageOf net talk =
      { caseId := script.id, observations := seen, findings := findings ++ found,
        checks := (script.asserted (deedsOf spec mode [] talk)).map (Asserted.result lang) } := by
    unfold Script.outcome Drive.runCase
    have hcase : (script.drive lang fl stageOf net talk).case = script.case lang := rfl
    have hopened : (script.drive lang fl stageOf net talk).unopened = none := rfl
    have hturns : (script.case lang).turns = script.turns := rfl
    rw [hopened, hcase, hturns, hdriven]
    simp only [List.nil_append, hlast]
    unfold Drive.judged
    rw [hcase]
    have hown : (script.case lang).checks = script.checks.map (Assertion.check lang) := rfl
    rw [hown, hchecks, Script.asserted, hdeed, List.map_append]
    simp [Script.case]
  rw [houtcome]
  refine ⟨rfl, ?_, hlength⟩
  rw [Script.asserted, hdeed]
  refine htallies.append ?_
  rw [Option.toList_some, List.flatMap_singleton]
  exact hfound

/-- A case completes only if its conversation was whole. -/
theorem whole_of_completes (h : (script.drive lang fl stageOf net talk).Completes) :
    script.Whole stageOf spec mode talk := by
  obtain ⟨-, earlier, turn, obs, hturns, hearlier, hanswered, -⟩ := h
  have hturns' : script.turns.zipIdx = earlier ++ [turn] := hturns
  have hreply : ∀ k (hk : k < script.turns.length), ∃ x, talk[k]? = some x ∧ x.Told stageOf spec mode := by
    intro k hk
    have hmem : (script.turns[k], k) ∈ script.turns.zipIdx := List.mk_mem_zipIdx_iff_getElem?.mpr (by simp [hk])
    have hobs : ∃ obs, (script.drive lang fl stageOf net talk).Answered (script.turns[k], k) obs := by
      rw [hturns'] at hmem
      rcases List.mem_append.mp hmem with hmem | hmem
      · obtain ⟨obs, hobs, -⟩ := hearlier _ hmem
        exact ⟨obs, hobs⟩
      · obtain rfl := List.mem_singleton.mp hmem
        exact ⟨obs, hanswered⟩
    obtain ⟨obs, hobserved, herror⟩ := hobs
    unfold Drive.observed Script.drive at hobserved
    dsimp only at hobserved
    cases hx : talk[k]? with
    | none =>
      rw [hx] at hobserved
      cases hobserved
    | some x =>
      rw [hx] at hobserved
      refine ⟨x, rfl, ?_⟩
      obtain ⟨before, htook⟩ := talk_took htalk x (List.mem_of_getElem? hx)
      by_contra hlost
      exact observed_untold net hfl htook hlost script.id k _ ⟨obs, hobserved, herror⟩
  have hserved : talk.length = script.turns.length := by
    refine le_antisymm (talk_length htalk) ?_
    by_contra hshort
    obtain ⟨x, hx, -⟩ := hreply talk.length (Nat.lt_of_not_le hshort)
    simp at hx
  refine ⟨?_, hserved, ?_⟩
  · intro hnil
    rw [hnil] at hturns'
    simp at hturns'
  · intro x hx
    obtain ⟨k, hk, rfl⟩ := List.mem_iff_getElem.mp hx
    obtain ⟨y, hy, htold⟩ := hreply k (hserved ▸ hk)
    rw [List.getElem?_eq_getElem hk] at hy
    exact Option.some.inj hy ▸ htold

/-- The outcome of any other. -/
theorem outcome_broken (h : ¬ script.Whole stageOf spec mode talk) :
    ∃ obs reason, script.outcome lang fl stageOf net talk = failedEverything (script.case lang) obs reason :=
  runCase_breaks lang.ops (mt (whole_of_completes lang net hfl htalk) h)

/-- **What a case says is what happened.** Where every turn came to an answer and was told, each check passed exactly
where what it asserts holds of the turn; a case with any other turn has failed every check, for one reason. -/
theorem case_judged :
    (script.Whole stageOf spec mode talk →
      (script.outcome lang fl stageOf net talk).checks =
          (script.asserted (deedsOf spec mode [] talk)).map (Asserted.result lang) ∧
        Tallies lang (script.asserted (deedsOf spec mode [] talk))
          (script.outcome lang fl stageOf net talk).findings ∧
        (script.outcome lang fl stageOf net talk).observations.length = script.turns.length) ∧
    (¬ script.Whole stageOf spec mode talk →
      ∃ obs reason, script.outcome lang fl stageOf net talk = failedEverything (script.case lang) obs reason) :=
  ⟨outcome_whole lang net hfl htalk, outcome_broken lang net hfl htalk⟩

end

end Driven

/-! A greeting, answered. -/

def plainTransport : Transport where
  aiterLines := wholeLines
  breaksLines := wholeLines_breaks
  noJson := "JSONDecodeError"
  brokenOff := "RemoteProtocolError"

def asPayload (e : StageEvent Half) : Except String (Option (Value Half)) := .ok (some (.obj e.payload))

def greeted : Narrated Half where
  message := "oi"
  gateNs _ := 16
  ending := .answers (.str "ola") ⟨20, ⟨3, 2, none⟩⟩

def greetedRun : Behaviour (StageEvent Half) Half where
  chunks := (greeted.run noSecret .both []).1.map .custom ++
    (runTurn noSecret .both [] greeted.turn).states.map fun state => .values (.list (state.map Message.raw))
  ending := none

theorem seven_lt : 7 < 2 ^ 63 := by decide

def greetedFrames : TurnFrames Half := greetedRun.runTurn asPayload "t-1" ⟨none, none⟩ ⟨7, seven_lt⟩

def greetedText : List Char := (stream halves (streamTurn halves greetedFrames.frames)).getD []

def greeting : Exchange (StageEvent Half) Half where
  narrated := greeted
  behaviour := greetedRun
  threadId := "t-1"
  link := ⟨none, none⟩
  elapsed := ⟨7, seven_lt⟩
  chunks := [(String.ofList greetedText).toByteArray]

theorem greeting_took : Took halves asPayload noSecret .both [] greeting where
  streamed := ⟨rfl, rfl⟩
  valid := by
    intro chunk hchunk
    rcases List.mem_append.mp hchunk with hchunk | hchunk
    · obtain ⟨e, -, rfl⟩ := List.mem_map.mp hchunk
      exact ⟨_, rfl⟩
    · obtain ⟨state, -, rfl⟩ := List.mem_map.mp hchunk
      trivial
  stages := rfl
  sent := by
    have hwritten : (stream halves (streamTurn halves greetedFrames.frames)).isSome = true := by decide
    obtain ⟨text, htext⟩ := Option.isSome_iff_exists.mp hwritten
    have hsame : greetedText = text := congrArg (fun written => written.getD []) htext
    refine ⟨greetedText, htext.trans (congrArg some hsame.symm), ?_⟩
    exact (joined_singleton _).trans String.toByteArray_ofList
  wellFormed := by decide

def plainLanguage : Language Half where
  ops :=
    { str := fun _ => "", truthy := fun v => !isNone v, zero := .half, add := fun before _ => some before,
      sorted := some }
  casefold text := text
  repr text := "'" ++ text ++ "'"
  complaint _ := "AttributeError"

/-- The greeting must be returned, nothing given away, and no gate may fire; one is asked to all the same. -/
def greets : Script where
  id := "oi"
  turns := ["oi"]
  checks := [.contains ["ola"], .notContains ["segredo"], .doesNotBlock, .blocks "guard_in"]

theorem case_judged_greeting :
    (greets.outcome plainLanguage halves asPayload plainTransport [greeting]).checks.map CheckResult.passed =
      [true, true, true, false] := by
  have htalk : Talk halves asPayload noSecret .both [] greets.turns [greeting] := ⟨rfl, greeting_took, trivial⟩
  have hwhole : greets.Whole asPayload noSecret .both [greeting] := by decide
  rw [((case_judged plainLanguage plainTransport halves_lawful htalk).1 hwhole).1]
  decide

end BankingControlPlane.Evals
