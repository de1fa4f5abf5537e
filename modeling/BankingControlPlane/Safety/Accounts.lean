import BankingControlPlane.Safety.Denominators

/-!
# Turns accounted for

* `Drive.built` : the observations that a case builds, whatever becomes of it; `Drive.dropped` : those that its
  outcome does not keep;
* `Accounted` : the metrics of turns range over every turn built that has what they measure;
* `runCase_keeps`, `runCase_drops` : what an outcome keeps;
* `accounted_iff` : the turns of a run are accounted for exactly when no dropped turn has a time or a cost, and
  they are no more than the cases that never got to a turn.
-/

namespace BankingControlPlane.Evals

variable {F : Type}

/-! ## Observations built -/

section Drive
variable (d : Drive F)

/-- The observations of these turns, up to the one that ends the case. -/
def Drive.builtOf : List (String × Nat) → List (Observation F)
  | [] => []
  | turn :: rest =>
    match d.observed turn with
    | .error _ => []
    | .ok obs =>
      match obs.error with
      | .null =>
        match applyChecks d.case obs ("turno " ++ toString turn.2 ++ ": ") (d.case.checksFor turn.2) with
        | .error _ => [obs]
        | .ok _ => obs :: Drive.builtOf rest
      | _ => [obs]

/-- The turns for which an observation was built. -/
def Drive.built : List (Observation F) :=
  match d.unopened with
  | some _ => []
  | none => d.builtOf d.case.turns.zipIdx

/-- What stands for a case without observations. -/
def Drive.placeholder : Observation F := { caseId := d.case.id, turn := 0, question := d.case.turns.headD "" }

open Classical in
/-- The turns before the one at which the case ended, where it does not complete. -/
noncomputable def Drive.dropped : List (Observation F) := if d.Completes then [] else d.built.dropLast

end Drive

/-- The metrics of turns range over the turns of `drives` for which an observation was built. -/
structure Accounted (ops : Operators F) (drives : List (Drive F)) : Prop where
  turns : (drives.flatMap Drive.built).length ≤ totalTurns (drives.map (Drive.runCase ops))
  latencies : latencies (drives.map (Drive.runCase ops)) =
    ((drives.flatMap Drive.built).map Observation.ns).filter fun ns => !isNone ns
  priced : priced (drives.map (Drive.runCase ops)) ops = (drives.flatMap Drive.built).filterMap (Observation.cost? ops)

/-! ## Observations kept -/

section Kept
variable (ops : Operators F) {d : Drive F}

/-- Turns that are gone through keep what they built; a turn that ends the case keeps the last observation. -/
theorem turns_built (turns : List (String × Nat)) (before : List (Observation F)) :
    (∀ seen rest, d.turns ops before turns = .ok (seen, rest) → seen = before ++ d.builtOf turns) ∧
      ∀ outcome, d.turns ops before turns = .error outcome →
        outcome.observations = [(before ++ d.builtOf turns).getLast?.getD d.placeholder] := by
  induction turns generalizing before with
  | nil =>
    constructor
    · intro seen rest h
      obtain ⟨rfl, -⟩ := Prod.mk.inj (Except.ok.inj h)
      exact (List.append_nil _).symm
    · intro outcome h
      cases h
  | cons turn rest ih =>
    unfold Drive.turns Drive.builtOf
    cases hobserved : d.observed turn with
    | error exc =>
      dsimp only
      constructor
      · intro seen later h
        cases h
      · intro outcome h
        obtain rfl := Except.error.inj h
        rw [List.append_nil]
        rfl
    | ok obs =>
      dsimp only
      have hlast : (before ++ [obs]).getLast?.getD d.placeholder = obs := by
        rw [List.getLast?_concat]
        rfl
      cases herror : obs.error with
      | null =>
        dsimp only
        cases hchecks : applyChecks d.case obs ("turno " ++ toString turn.2 ++ ": ") (d.case.checksFor turn.2) with
        | error exc =>
          constructor
          · intro seen later h
            cases h
          · intro outcome h
            obtain rfl := Except.error.inj h
            rfl
        | ok own =>
          dsimp only
          obtain ⟨hgone, hended⟩ := ih (before ++ [obs])
          rw [List.append_assoc] at hgone hended
          cases hlater : d.turns ops (before ++ [obs]) rest with
          | error ended =>
            constructor
            · intro seen later h
              cases h
            · intro outcome h
              obtain rfl := Except.error.inj h
              exact hended ended hlater
          | ok later =>
            constructor
            · intro seen after h
              obtain ⟨rfl, -⟩ := Prod.mk.inj (Except.ok.inj h)
              exact hgone later.1 later.2 hlater
            · intro outcome h
              cases h
      | obj fields =>
        constructor
        · intro seen later h
          cases h
        · intro outcome h
          obtain rfl := Except.error.inj h
          exact congrArg (fun last => [last]) hlast.symm
      | bool b | int i | float f | str s | arr items =>
        constructor
        · intro seen later h
          cases h
        · intro outcome h
          obtain rfl := Except.error.inj h
          rfl

theorem built_opened (h : d.unopened = none) : d.built = d.builtOf d.case.turns.zipIdx := by
  unfold Drive.built
  rw [h]

theorem builtOf_ne_nil {turn : String × Nat} (h : d.Passed turn) (rest : List (String × Nat)) :
    d.builtOf (turn :: rest) ≠ [] := by
  obtain ⟨obs, ⟨hobserved, herror⟩, -⟩ := h
  unfold Drive.builtOf
  rw [hobserved]
  dsimp only
  rw [herror]
  dsimp only
  cases applyChecks d.case obs ("turno " ++ toString turn.2 ++ ": ") (d.case.checksFor turn.2) with
  | error exc => exact List.cons_ne_nil _ _
  | ok own => exact List.cons_ne_nil _ _

/-- A case that completes keeps all that it built. -/
theorem runCase_keeps (h : d.Completes) : (d.runCase ops).observations = d.built ∧ d.built ≠ [] := by
  obtain ⟨hopened, hturns, hpassed, obs, driven, last, hdriven, -, hkept, -⟩ := runCase_whole ops h
  have hbuilt := built_opened hopened
  constructor
  · rw [hkept, hbuilt]
    exact (turns_built ops _ []).1 driven.1 driven.2 hdriven
  · rw [hbuilt]
    obtain ⟨turn, rest, hfirst⟩ := List.exists_cons_of_ne_nil hturns
    rw [hfirst] at hpassed ⊢
    exact builtOf_ne_nil (hpassed turn List.mem_cons_self) rest

/-- A case that breaks off keeps the last observation that it built. -/
theorem runCase_drops (h : ¬ d.Completes) :
    (d.runCase ops).observations = [d.built.getLast?.getD d.placeholder] := by
  obtain ⟨kept, reason, hbroken⟩ := runCase_breaks ops h
  cases hopened : d.unopened with
  | some exc =>
    unfold Drive.runCase Drive.built
    rw [hopened]
    rfl
  | none =>
    rw [built_opened hopened]
    obtain ⟨hgone, hended⟩ := turns_built ops (d := d) d.case.turns.zipIdx []
    unfold Drive.runCase at hbroken ⊢
    rw [hopened] at hbroken ⊢
    dsimp only at hbroken ⊢
    cases hdriven : d.turns ops [] d.case.turns.zipIdx with
    | error outcome => exact hended outcome hdriven
    | ok driven =>
      obtain ⟨observations, findings, results⟩ := driven
      rw [hdriven] at hbroken
      dsimp only at hbroken ⊢
      have hbuilt : observations = d.builtOf d.case.turns.zipIdx := hgone _ _ hdriven
      rw [← hbuilt]
      cases hlast : observations.getLast? with
      | none => rfl
      | some last =>
        rw [hlast] at hbroken
        dsimp only at hbroken ⊢
        unfold Drive.judged at hbroken ⊢
        cases hchecks : applyChecks d.case last "" d.case.checks with
        | error exc =>
          dsimp only
          show [observations.getLast?.getD _] = _
          rw [hlast]
          rfl
        | ok own =>
          -- the outcome is a completed one, and of one observation
          rw [hchecks] at hbroken
          have hone : observations = [kept] := congrArg CaseOutcome.observations hbroken
          rw [hone] at hlast ⊢
          exact congrArg (fun o => [o]) (Option.some.inj hlast)

/-! ## Observations dropped -/

theorem dropped_completes (h : d.Completes) : d.dropped = [] := if_pos h

theorem dropped_breaks (h : ¬ d.Completes) : d.dropped = d.built.dropLast := if_neg h

/-- What an outcome keeps and what it drops is what was built, and a placeholder where nothing was. -/
theorem kept_length (d : Drive F) : (d.runCase ops).observations.length + d.dropped.length =
    d.built.length + if d.built.isEmpty then 1 else 0 := by
  by_cases hcompletes : d.Completes
  · obtain ⟨hkept, hne⟩ := runCase_keeps ops hcompletes
    rw [hkept, dropped_completes hcompletes, if_neg (by simpa using hne)]
    rfl
  · rw [runCase_drops ops hcompletes, dropped_breaks hcompletes, List.length_dropLast, List.length_singleton]
    cases hbuilt : d.built with
    | nil => rfl
    | cons obs rest =>
      rw [if_neg (by simp), List.length_cons]
      omega

/-- What is read off the turns built is read off those dropped and those kept. -/
theorem kept_readings {β : Type} (r : Observation F → Option β) (d : Drive F) (hplaceholder : r d.placeholder = none) :
    d.built.filterMap r = d.dropped.filterMap r ++ (d.runCase ops).observations.filterMap r := by
  by_cases hcompletes : d.Completes
  · rw [dropped_completes hcompletes, (runCase_keeps ops hcompletes).1]
    rfl
  · rw [dropped_breaks hcompletes, runCase_drops ops hcompletes]
    rcases List.eq_nil_or_concat' d.built with hnil | ⟨earlier, last, hbuilt⟩
    · rw [hnil]
      exact (List.filterMap_cons_none hplaceholder).symm
    · rw [hbuilt, List.dropLast_concat, List.getLast?_concat, List.filterMap_append]
      rfl

end Kept

/-! ## Runs -/

/-- Lists put together from longer ones are the same only where nothing was added. -/
theorem flatMap_eq_iff {α β : Type} {xs : List α} {added part whole : α → List β}
    (h : ∀ x ∈ xs, whole x = added x ++ part x) :
    xs.flatMap part = xs.flatMap whole ↔ ∀ x ∈ xs, added x = [] := by
  induction xs with
  | nil => simp
  | cons x xs ih =>
    obtain ⟨hx, hxs⟩ := List.forall_mem_cons.mp h
    have hle : (xs.flatMap part).length ≤ (xs.flatMap whole).length := by
      clear ih h
      induction xs with
      | nil => exact Nat.le_refl _
      | cons y ys ihy =>
        obtain ⟨hy, hys⟩ := List.forall_mem_cons.mp hxs
        have := ihy hys
        rw [List.flatMap_cons, List.flatMap_cons, hy, List.length_append, List.length_append, List.length_append]
        omega
    rw [List.forall_mem_cons, ← ih hxs, List.flatMap_cons, List.flatMap_cons, hx]
    constructor
    · intro heq
      have hlength := congrArg List.length heq
      simp only [List.length_append] at hlength
      have hnil : added x = [] := List.eq_nil_of_length_eq_zero (by omega)
      rw [hnil, List.nil_append] at heq
      exact ⟨hnil, List.append_cancel_left heq⟩
    · rintro ⟨hnil, hrest⟩
      rw [hnil, hrest, List.nil_append]

section Runs
variable (ops : Operators F) (drives : List (Drive F))

/-- The time of a turn, where it was measured. -/
def Observation.time? (obs : Observation F) : Option (Json.Value F) :=
  if isNone obs.ns then none else some obs.ns

theorem filter_times (observations : List (Observation F)) :
    ((observations.map Observation.ns).filter fun ns => !isNone ns) = observations.filterMap Observation.time? := by
  induction observations with
  | nil => rfl
  | cons obs rest ih =>
    rw [List.map_cons, List.filter_cons, List.filterMap_cons, ih]
    unfold Observation.time?
    cases isNone obs.ns <;> rfl

theorem readings_iff {β : Type} (r : Observation F → Option β) (hplaceholder : ∀ d : Drive F, r d.placeholder = none) :
    ((drives.map (Drive.runCase ops)).flatMap CaseOutcome.observations).filterMap r =
        (drives.flatMap Drive.built).filterMap r ↔
      ∀ d ∈ drives, ∀ obs ∈ d.dropped, r obs = none := by
  rw [List.flatMap_map, List.filterMap_flatMap, List.filterMap_flatMap]
  refine (flatMap_eq_iff fun d _ => kept_readings ops r d (hplaceholder d)).trans ?_
  exact forall₂_congr fun d _ => List.filterMap_eq_nil_iff

theorem totalTurns_iff : (drives.flatMap Drive.built).length ≤ totalTurns (drives.map (Drive.runCase ops)) ↔
    (drives.map fun d => d.dropped.length).sum ≤ drives.countP fun d => d.built.isEmpty := by
  have hsum : totalTurns (drives.map (Drive.runCase ops)) + (drives.map fun d => d.dropped.length).sum =
      (drives.flatMap Drive.built).length + drives.countP fun d => d.built.isEmpty := by
    unfold totalTurns
    induction drives with
    | nil => rfl
    | cons d rest ih =>
      have := kept_length ops d
      simp only [List.map_cons, List.sum_cons, List.flatMap_cons, List.length_append, List.countP_cons] at ih ⊢
      omega
  omega

/-- **Every turn built is accounted for** exactly when no turn that an outcome drops has a time or a cost, and those
dropped are no more than the cases in which no turn was built. -/
theorem accounted_iff : Accounted ops drives ↔
    ((drives.map fun d => d.dropped.length).sum ≤ drives.countP fun d => d.built.isEmpty) ∧
      ∀ d ∈ drives, ∀ obs ∈ d.dropped, obs.time? = none ∧ obs.cost? ops = none := by
  have htimes := readings_iff ops drives Observation.time? fun d => rfl
  have hcosts := readings_iff ops drives (Observation.cost? ops) fun d => rfl
  constructor
  · rintro ⟨hturns, hlatencies, hpriced⟩
    unfold latencies at hlatencies
    rw [filter_times, filter_times] at hlatencies
    refine ⟨(totalTurns_iff ops drives).mp hturns, ?_⟩
    intro d hd obs hobs
    exact ⟨htimes.mp hlatencies d hd obs hobs, hcosts.mp hpriced d hd obs hobs⟩
  · rintro ⟨hdropped, hnone⟩
    refine ⟨(totalTurns_iff ops drives).mpr hdropped, ?_, hcosts.mpr fun d hd obs hobs => (hnone d hd obs hobs).2⟩
    unfold latencies
    rw [filter_times, filter_times]
    exact htimes.mpr fun d hd obs hobs => (hnone d hd obs hobs).1

end Runs

/-! The second turn of a conversation ends with an `error` frame: the first is not counted. -/

theorem brokenOff_unaccounted : totalTurns ([brokenOff].map (Drive.runCase plainOperators)) = 1 ∧
    ([brokenOff].flatMap Drive.built).length = 2 ∧ latencies ([brokenOff].map (Drive.runCase plainOperators)) = [] ∧
    ¬ Accounted plainOperators [brokenOff] := by
  have hkept : totalTurns ([brokenOff].map (Drive.runCase plainOperators)) = 1 := by decide
  have hbuilt : ([brokenOff].flatMap Drive.built).length = 2 := by decide
  refine ⟨hkept, hbuilt, rfl, ?_⟩
  intro h
  have hturns := h.turns
  rw [hkept, hbuilt] at hturns
  exact absurd hturns (by decide)

end BankingControlPlane.Evals
