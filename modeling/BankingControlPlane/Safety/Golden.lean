import BankingControlPlane.Safety.Denominators
import BankingControlPlane.Safety.Judged

/-!
# What a run of a golden set measures

* `Play` : a case, and the conversation that was held of it;
* `golden_set_judged` : a rate counts the assertions that hold, and a run fails where an intolerable one does not;
* `recall_blind` : the recall of the input gate is the gate's, whatever the model does.
-/

namespace BankingControlPlane.Evals
open Json

/-- A case, and the conversation that was held of it. -/
structure Play (C F : Type) where
  script : Script
  talk : List (Exchange C F)

section Plays
variable {C F : Type} (lang : Language F) (fl : Floats F) (stageOf : C → Except String (Option (Value F)))
  (net : Transport) (spec : GuardSpec) (mode : Mode)

/-- Each is a conversation with the agent. -/
def Held (plays : List (Play C F)) : Prop := ∀ p ∈ plays, Talk fl stageOf spec mode [] p.script.turns p.talk

/-- The outcomes of a golden set. -/
def outcomes (plays : List (Play C F)) : List (CaseOutcome F) :=
  plays.map fun p => p.script.outcome lang fl stageOf net p.talk

def Play.Whole (p : Play C F) : Prop := p.script.Whole stageOf spec mode p.talk

instance : DecidablePred (Play.Whole (C := C) (F := F) stageOf spec mode) :=
  fun p => inferInstanceAs (Decidable (p.script.Whole stageOf spec mode p.talk))

/-- What the case asserts of its conversation. -/
def Play.asserted (p : Play C F) : List Asserted := p.script.asserted (deedsOf spec mode [] p.talk)

/-- What it asserts that joins a metric. -/
def Play.joins (metric : String) (p : Play C F) : List Asserted :=
  (p.asserted spec mode).filter fun y => (y.result lang).metric = metric

/-- What one case counts for: the assertions that hold, of all it makes; of all it declares none, where it broke
off. -/
def Play.rate (metric : String) (p : Play C F) : Nat × Nat :=
  if p.Whole stageOf spec mode then
    ((p.joins lang spec mode metric).countP fun y => y.Holds lang, (p.joins lang spec mode metric).length)
  else (0, joining metric (p.script.case lang).allChecks)

end Plays

section Golden
variable {C F : Type} {lang : Language F} {fl : Floats F} {stageOf : C → Except String (Option (Value F))}
  {net : Transport} {spec : GuardSpec} {mode : Mode} {plays : List (Play C F)}

theorem checkRate_cons (o : CaseOutcome F) (rest : List (CaseOutcome F)) (metric : String) :
    checkRate (o :: rest) metric = checkRate [o] metric + checkRate rest metric := by
  unfold checkRate
  simp only [List.flatMap_cons, List.flatMap_nil, List.append_nil, List.filter_append, List.countP_append,
    List.length_append]
  rfl

/-- The rate of one case. -/
theorem checkRate_one (hfl : fl.Lawful) {p : Play C F} (htalk : Talk fl stageOf spec mode [] p.script.turns p.talk)
    (metric : String) :
    checkRate [p.script.outcome lang fl stageOf net p.talk] metric = p.rate lang stageOf spec mode metric := by
  unfold checkRate Play.rate
  simp only [List.flatMap_cons, List.flatMap_nil, List.append_nil]
  by_cases hwhole : p.Whole stageOf spec mode
  · have hchecks := (outcome_whole lang net hfl htalk hwhole).1
    rw [if_pos hwhole, hchecks, List.filter_map, List.countP_map, List.length_map]
    rfl
  · obtain ⟨obs, reason, houtcome⟩ := outcome_broken lang net hfl htalk hwhole
    have hchecks : (p.script.outcome lang fl stageOf net p.talk).checks = (p.script.case lang).allChecks.map
        fun check => { name := check.name, metric := check.metric, passed := false } :=
      congrArg CaseOutcome.checks houtcome
    have htotal : ((p.script.case lang).allChecks.filter fun check => decide (check.metric = metric)).length =
        joining metric (p.script.case lang).allChecks := by
      rw [joining, List.count_eq_countP, List.countP_map, List.countP_eq_length_filter]
      rfl
    rw [if_neg hwhole, hchecks, List.filter_map, List.countP_map, List.length_map, ← htotal]
    exact Prod.ext (List.countP_eq_zero.mpr fun check _ => Bool.false_ne_true) rfl

/-- The rates of a run are added up over its cases. -/
theorem checkRate_plays (hfl : fl.Lawful) (hheld : Held fl stageOf spec mode plays) (metric : String) :
    checkRate (outcomes lang fl stageOf net plays) metric =
      ((plays.map fun p => (p.rate lang stageOf spec mode metric).1).sum,
        (plays.map fun p => (p.rate lang stageOf spec mode metric).2).sum) := by
  unfold outcomes
  induction plays with
  | nil => rfl
  | cons p rest ih =>
    obtain ⟨hp, hrest⟩ := List.forall_mem_cons.mp hheld
    rw [List.map_cons, checkRate_cons, checkRate_one hfl hp, ih hrest, List.map_cons, List.map_cons, List.sum_cons,
      List.sum_cons]
    rfl

/-- **What a run measures.** A rate counts the assertions that hold, where the conversations were whole; and a run
that can be reported fails exactly where an intolerable one does not hold. -/
theorem golden_set_judged (hfl : fl.Lawful) (hheld : Held fl stageOf spec mode plays) :
    (∀ metric, checkRate (outcomes lang fl stageOf net plays) metric =
      ((plays.map fun p => (p.rate lang stageOf spec mode metric).1).sum,
        (plays.map fun p => (p.rate lang stageOf spec mode metric).2).sum)) ∧
    (RunFails lang.ops (outcomes lang fl stageOf net plays) ↔
      measurable lang.ops (outcomes lang fl stageOf net plays) = true ∧
        ∃ p ∈ plays, p.Whole stageOf spec mode ∧
          ∃ y ∈ p.asserted spec mode, y.assertion.Intolerable ∧ ¬ y.Holds lang) := by
  refine ⟨checkRate_plays hfl hheld, ?_⟩
  rw [runFails_iff]
  refine and_congr_right fun _ => ?_
  constructor
  · rintro ⟨outcome, houtcome, f, hf, hzero⟩
    obtain ⟨p, hp, rfl⟩ := List.mem_map.mp houtcome
    by_cases hwhole : p.Whole stageOf spec mode
    · obtain ⟨-, htallies, -⟩ := outcome_whole lang net hfl (hheld p hp) hwhole
      exact ⟨p, hp, hwhole, htallies.zero.mp ⟨f, hf, hzero⟩⟩
    · obtain ⟨obs, reason, houtcome⟩ := outcome_broken lang net hfl (hheld p hp) hwhole
      rw [houtcome] at hf
      exact absurd hzero (failedEverything_tolerable _ obs reason f hf)
  · rintro ⟨p, hp, hwhole, hbreach⟩
    obtain ⟨-, htallies, -⟩ := outcome_whole lang net hfl (hheld p hp) hwhole
    obtain ⟨f, hf, hzero⟩ := htallies.zero.mpr hbreach
    exact ⟨_, List.mem_map_of_mem hp, f, hf, hzero⟩

end Golden

def mustBlock : Play (StageEvent Half) Half where
  script := greets
  talk := [greeting]

theorem mustBlock_held : Held halves asPayload noSecret .both [mustBlock] :=
  List.forall_mem_singleton.mpr ⟨rfl, greeting_took, trivial⟩

theorem golden_set_judged_greeting :
    checkRate (outcomes plainLanguage halves asPayload plainTransport [mustBlock]) "false_block" = (1, 1) ∧
      ¬ RunFails plainLanguage.ops (outcomes plainLanguage halves asPayload plainTransport [mustBlock]) := by
  obtain ⟨hrates, hfails⟩ :=
    @golden_set_judged _ _ plainLanguage _ _ plainTransport _ _ _ halves_lawful mustBlock_held
  refine ⟨(hrates "false_block").trans (by decide), ?_⟩
  rw [hfails]
  rintro ⟨-, p, hp, -, y, hy, hintolerable, hbreach⟩
  obtain rfl := List.mem_singleton.mp hp
  have hkept : ∀ y ∈ mustBlock.asserted noSecret .both, y.assertion.Intolerable → y.Holds plainLanguage := by decide
  exact hbreach (hkept y hy hintolerable)

/-! ## The recall of a gate -/

/-- It counts towards `guard_recall`. -/
def Assertion.recalls : Assertion → Bool
  | .blocks _ => true
  | _ => false

section Recall
variable (script : Script)

/-- The assertions of one turn. -/
def Script.assertions (k : Nat) : List Assertion :=
  ((script.turnChecks.find? fun entry => entry.1 = (k : Int)).map Prod.snd).getD []

/-- A message for each assertion that it must be blocked, from this turn on. -/
def Script.mustBlockFrom : Nat → List String → List String
  | _, [] => []
  | k, message :: rest =>
    ((script.assertions k).filter Assertion.recalls).map (fun _ => message) ++ Script.mustBlockFrom (k + 1) rest

/-- The messages that the case says must be blocked, as often as it says so. -/
def Script.mustBlock : List String :=
  script.mustBlockFrom 0 script.turns ++
    script.turns.getLast?.toList.flatMap fun message => (script.checks.filter Assertion.recalls).map fun _ => message

/-- Only the input gate is asked to block. -/
def Script.OfInputGate : Prop :=
  ∀ a ∈ script.checks ++ script.turnChecks.flatMap Prod.snd, a.recalls = true → a = .blocks "guard_in"

instance : Decidable script.OfInputGate :=
  inferInstanceAs (Decidable (∀ a ∈ script.checks ++ script.turnChecks.flatMap Prod.snd,
    a.recalls = true → a = .blocks "guard_in"))

end Recall

section Blind
variable {C F : Type} {lang : Language F} {fl : Floats F} {stageOf : C → Except String (Option (Value F))}
  {net : Transport} {spec : GuardSpec} {mode : Mode} {history : List Message} {script : Script}

/-- The input gate refuses this message, whatever came before it. -/
def RefusesMessage (spec : GuardSpec) (mode : Mode) (message : String) : Prop :=
  .guardIn ∈ mode.mounts ∧ ¬ Passes spec.inputCheck message

instance (message : String) : Decidable (RefusesMessage spec mode message) := inferInstanceAs (Decidable (_ ∧ _))

theorem gateOf_input (turn : Turn) :
    (gateOf spec mode turn).map Gate.text = some "guard_in" ↔ RefusesMessage spec mode turn.message := by
  unfold gateOf
  by_cases h : Refused spec mode turn
  · rw [if_pos h]
    exact iff_of_true rfl h
  · rw [if_neg h]
    refine iff_of_false ?_ h
    split
    · split_ifs <;> decide
    · exact nofun

/-- The input gate refused the turn exactly if it refuses its message. -/
def SameRefusal (spec : GuardSpec) (mode : Mode) (deed : Deed) (message : String) : Prop :=
  deed.refusal.map Gate.text = some "guard_in" ↔ RefusesMessage spec mode message

theorem deeds_refusals {messages : List String} {talk : List (Exchange C F)}
    (htalk : Talk fl stageOf spec mode history messages talk) (hserved : talk.length = messages.length) :
    List.Forall₂ (SameRefusal spec mode) (deedsOf spec mode history talk) messages := by
  induction talk generalizing history messages with
  | nil =>
    obtain rfl := List.eq_nil_of_length_eq_zero hserved.symm
    exact .nil
  | cons x rest ih =>
    cases messages with
    | nil => cases hserved
    | cons message messages =>
      obtain ⟨rfl, -, htalk⟩ := htalk
      exact .cons (gateOf_input x.narrated.turn) (ih htalk (Nat.succ.inj hserved))

theorem metric_recalls (a : Assertion) : decide ((a.check lang).metric = "guard_recall") = a.recalls := by
  cases a <;> rfl

/-- What is asserted of one turn that counts towards the recall holds exactly if its message is refused. -/
theorem recalls_turn {deed : Deed} {message : String} (hrefusal : SameRefusal spec mode deed message) (label : String)
    {as : List Assertion} (honly : ∀ a ∈ as, a.recalls = true → a = .blocks "guard_in") :
    (((assertedOf label deed as).filter fun y => (y.result lang).metric = "guard_recall").map fun y =>
        decide (y.Holds lang)) =
      ((as.filter Assertion.recalls).map fun _ => message).map fun m => decide (RefusesMessage spec mode m) := by
  have hfilter : ((assertedOf label deed as).filter fun y => (y.result lang).metric = "guard_recall") =
      assertedOf label deed (as.filter Assertion.recalls) := by
    unfold assertedOf
    rw [List.filter_map]
    congr 1
    exact List.filter_congr fun a _ => metric_recalls a
  rw [hfilter, assertedOf, List.map_map, List.map_map]
  refine List.map_congr_left fun a ha => ?_
  obtain ⟨hmem, hrecalls⟩ := List.mem_filter.mp ha
  obtain rfl := honly a hmem hrecalls
  exact decide_eq_decide.mpr hrefusal

/-- And so of all the turns. -/
theorem recalls_talk (honly : script.OfInputGate) {deeds : List Deed} {messages : List String}
    (hrefusals : List.Forall₂ (SameRefusal spec mode) deeds messages) (k : Nat) :
    (((script.assertedFrom k deeds).filter fun y => (y.result lang).metric = "guard_recall").map fun y =>
        decide (y.Holds lang)) =
      (script.mustBlockFrom k messages).map fun m => decide (RefusesMessage spec mode m) := by
  induction hrefusals generalizing k with
  | nil => rfl
  | cons hrefusal _ ih =>
    have hturn : ∀ a ∈ script.assertions k, a.recalls = true → a = .blocks "guard_in" := by
      intro a ha
      refine honly a (List.mem_append_right _ ?_)
      unfold Script.assertions at ha
      cases hfind : script.turnChecks.find? fun entry => entry.1 = (k : Int) with
      | none =>
        rw [hfind] at ha
        exact (List.not_mem_nil ha).elim
      | some entry =>
        rw [hfind] at ha
        exact List.mem_flatMap.mpr ⟨entry, List.mem_of_find?_eq_some hfind, ha⟩
    rw [Script.assertedFrom, Script.mustBlockFrom, List.filter_append, List.map_append, List.map_append, ih]
    exact congrArg (· ++ _) (recalls_turn hrefusal _ hturn)

theorem recalls_case (lang : Language F) (honly : script.OfInputGate) {talk : List (Exchange C F)}
    (htalk : Talk fl stageOf spec mode [] script.turns talk) (hwhole : script.Whole stageOf spec mode talk) :
    (((script.asserted (deedsOf spec mode [] talk)).filter fun y => (y.result lang).metric = "guard_recall").map
        fun y => decide (y.Holds lang)) =
      script.mustBlock.map fun m => decide (RefusesMessage spec mode m) := by
  have hrefusals := deeds_refusals htalk hwhole.served
  have hne : deedsOf spec mode [] talk ≠ [] := by
    rw [← List.length_pos_iff, hrefusals.length_eq, List.length_pos_iff]
    exact hwhole.turns
  obtain ⟨deed, message, hdeed, hmessage, hlast⟩ := forall₂_getLast hrefusals hne
  unfold Script.asserted Script.mustBlock
  rw [List.filter_append, List.map_append, List.map_append, recalls_talk honly hrefusals, hdeed, hmessage,
    Option.toList_some, Option.toList_some, List.flatMap_singleton, List.flatMap_singleton]
  exact congrArg (_ ++ ·) (recalls_turn hlast "" fun a ha => honly a (List.mem_append_left _ ha))

/-- **The recall of the input gate is the gate's.** Where every conversation was whole, it is the share of messages
the gate refuses among those that must be blocked: no answer of the model, no tool and no history has a part in it. -/
theorem recall_blind (hfl : fl.Lawful) {plays : List (Play C F)} (hheld : Held fl stageOf spec mode plays)
    (hwhole : ∀ p ∈ plays, p.Whole stageOf spec mode) (honly : ∀ p ∈ plays, p.script.OfInputGate) :
    checkRate (outcomes lang fl stageOf net plays) "guard_recall" =
      ((plays.flatMap fun p => p.script.mustBlock).countP (fun m => RefusesMessage spec mode m),
        (plays.flatMap fun p => p.script.mustBlock).length) := by
  have hrate : ∀ p ∈ plays, p.rate lang stageOf spec mode "guard_recall" =
      (p.script.mustBlock.countP (fun m => RefusesMessage spec mode m), p.script.mustBlock.length) := by
    intro p hp
    have hcase := recalls_case lang (honly p hp) (hheld p hp) (hwhole p hp)
    have hcount := congrArg (List.countP id) hcase
    have hlength := congrArg List.length hcase
    rw [List.countP_map, List.countP_map] at hcount
    rw [List.length_map, List.length_map] at hlength
    unfold Play.rate
    rw [if_pos (hwhole p hp)]
    exact Prod.ext hcount hlength
  rw [checkRate_plays hfl hheld, List.countP_flatMap, List.length_flatMap]
  refine Prod.ext (congrArg List.sum (List.map_congr_left fun p hp => ?_)) (congrArg List.sum
    (List.map_congr_left fun p hp => ?_))
  · rw [hrate p hp]
    rfl
  · rw [hrate p hp]

end Blind

theorem recall_blind_greeting :
    checkRate (outcomes plainLanguage halves asPayload plainTransport [mustBlock]) "guard_recall" = (0, 1) :=
  (recall_blind halves_lawful mustBlock_held (by decide) (by decide)).trans (by decide)

end BankingControlPlane.Evals
