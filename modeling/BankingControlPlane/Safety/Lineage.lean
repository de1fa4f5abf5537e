import BankingControlPlane.Data.Past
import BankingControlPlane.Evals.Store
import BankingControlPlane.Safety.ZeroTolerance
import Mathlib.Data.List.Pairwise
import Mathlib.Logic.Relation

/-!
# Baselines

Any number of harnesses file their runs in the same tables, in any order of their statements, any of which may fail.

* `Filed` : what holds of the tables; `Wrote` : what a step of a process may change; `Apart` : what it may rely on;
* `onRecord` : each harness keeps them; `wp_evaluate` : and what it prints is what it filed;
* `baselines_completed` : a run is compared against an earlier one that completed, with nothing intolerable in it;
* `printed_is_filed` : the exit code, the scorecard and the row say the same;
* `chain_of_baselines` : where harnesses run one after the other, the baselines are the completed runs, all of them.
-/

namespace BankingControlPlane.Evals
open Effects

variable {F : Type} {s s' s'' : EvalTables} {process id : Nat}

/-- The process drew the id. -/
def EvalTables.Drew (s : EvalTables) (process id : Nat) : Prop := ∃ k, id = k + 1 ∧ s.drawn[k]? = some process

/-- What every statement keeps. -/
structure Filed (s : EvalTables) : Prop where
  ids : ∀ r ∈ s.runs, r.id < s.nextId
  owed : ∀ f ∈ s.findings, f.1 < s.nextId
  ordered : s.runs.Pairwise fun a b => a.id < b.id
  lineage : ∀ r ∈ s.runs, ∀ b, r.baselineId = some b →
    ∃ q ∈ s.runs, q.id = b ∧ q.id < r.id ∧ q.Qualifies r.goldenSetVersion
  clean : ∀ f ∈ s.findings, ∀ r ∈ s.runs, r.id = f.1 → r.status = .completed → ¬ f.2.ZeroTolerance

/-- What a step of a process may do to the tables. -/
structure Wrote (process : Nat) (s s' : EvalTables) : Prop where
  runs : s.runs <+: s'.runs
  drawn : ∃ n, s'.drawn = s.drawn ++ List.replicate n process
  findings : ∃ more, s'.findings = s.findings ++ more ∧ ∀ f ∈ more, s'.Drew process f.1
  printed : ∃ cards : List Scorecard, s'.printed = s.printed ++ cards.map fun card => (process, card)

/-- What the steps of the others leave of a process. -/
structure Apart (process : Nat) (s s' : EvalTables) : Prop where
  runs : s.runs <+: s'.runs
  drew : ∀ id, s'.Drew process id ↔ s.Drew process id
  findings : ∀ id, s.Drew process id → s'.findingsOf id = s.findingsOf id
  printed : s'.printedBy process = s.printedBy process

theorem Apart.refl (process : Nat) (s : EvalTables) : Apart process s s :=
  ⟨List.prefix_refl _, fun _ => Iff.rfl, fun _ _ => rfl, rfl⟩

theorem Apart.trans (h : Apart process s s') (h' : Apart process s' s'') : Apart process s s'' :=
  ⟨h.runs.trans h'.runs, fun id => (h'.drew id).trans (h.drew id),
    fun id hid => (h'.findings id ((h.drew id).mpr hid)).trans (h.findings id hid), h'.printed.trans h.printed⟩

/-- An id is drawn by one process. -/
theorem Drew.unique {other : Nat} (h : s.Drew process id) (h' : s.Drew other id) : process = other := by
  obtain ⟨k, rfl, hk⟩ := h
  obtain ⟨k', heq, hk'⟩ := h'
  obtain rfl : k = k' := by omega
  exact Option.some.inj (hk.symm.trans hk')

/-- Ids drawn by one process are not another's. -/
theorem drew_replicate {other n : Nat} (h : s'.drawn = s.drawn ++ List.replicate n other) (hne : process ≠ other)
    (id : Nat) : s'.Drew process id ↔ s.Drew process id := by
  refine exists_congr fun k => and_congr_right fun _ => ?_
  rw [h, List.getElem?_append]
  split_ifs with hk
  · rfl
  · rw [List.getElem?_eq_none (Nat.le_of_not_lt hk), List.getElem?_replicate]
    split_ifs
    · simp [Ne.symm hne]
    · rfl

/-- What a process does, the others may rely on. -/
theorem Wrote.apart {other : Nat} (h : Wrote other s s') (hne : process ≠ other) : Apart process s s' := by
  obtain ⟨n, hdrawn⟩ := h.drawn
  obtain ⟨more, hmore, hown⟩ := h.findings
  obtain ⟨cards, hcards⟩ := h.printed
  have hdrew := drew_replicate hdrawn hne
  refine ⟨h.runs, hdrew, fun id hid => ?_, ?_⟩
  · have hnone : more.filter (fun f => f.1 = id) = [] := by
      refine List.filter_eq_nil_iff.mpr fun f hf hid' => hne ?_
      rw [← of_decide_eq_true hid'] at hid
      exact Drew.unique ((hdrew f.1).mpr hid) (hown f hf)
    rw [EvalTables.findingsOf, hmore, List.filter_append, hnone, List.append_nil]
    rfl
  · have hnone : (cards.map fun card => (other, card)).filter (fun p => p.1 = process) = [] := by
      refine List.filter_eq_nil_iff.mpr fun p hp hprocess => hne ?_
      obtain ⟨card, -, rfl⟩ := List.mem_map.mp hp
      exact (of_decide_eq_true hprocess).symm
    rw [EvalTables.printedBy, hcards, List.filter_append, hnone, List.append_nil]
    rfl

/-- Each process keeps the tables, and writes under its own ids. -/
def onRecord : Contract EvalTables where
  inv := Filed
  rely := Apart
  guar := Wrote

theorem onRecord_fits : onRecord.Fits :=
  ⟨Apart.refl, fun _ _ _ _ => Apart.trans, fun hne _ _ h => h.apart hne⟩

/-! ## Each statement -/

section Statements
variable (weather : Weather) (process)

theorem filed_start : Filed {} := by
  refine ⟨?_, ?_, List.Pairwise.nil, ?_, ?_⟩
  all_goals
    intro x hx
    exact absurd hx List.not_mem_nil

theorem Filed.same (h : Filed s) (hruns : s'.runs = s.runs) (hfindings : s'.findings = s.findings)
    (hdrawn : s'.drawn = s.drawn) : Filed s' := by
  have hnext : s'.nextId = s.nextId := by rw [EvalTables.nextId, EvalTables.nextId, hdrawn]
  refine ⟨?_, ?_, ?_, ?_, ?_⟩
  · rw [hruns, hnext]
    exact h.ids
  · rw [hfindings, hnext]
    exact h.owed
  · rw [hruns]
    exact h.ordered
  · rw [hruns]
    exact h.lineage
  · rw [hruns, hfindings]
    exact h.clean

theorem Wrote.same (hruns : s'.runs = s.runs) (hfindings : s'.findings = s.findings) (hdrawn : s'.drawn = s.drawn)
    {c : List Scorecard} (hprinted : s'.printed = s.printed ++ c.map fun card => (process, card)) :
    Wrote process s s' :=
  ⟨hruns ▸ List.prefix_refl _, ⟨0, by simp [hdrawn]⟩, ⟨[], by simp [hfindings], by simp⟩, ⟨c, hprinted⟩⟩

/-- A row is inserted, or nothing is, and either way the id is drawn. -/
theorem Filed.insertRun (h : Filed s) {run : NewRun}
    (hlineage : ∀ b, run.baselineId = some b → ∃ q ∈ s.runs, q.id = b ∧ q.Qualifies run.goldenSetVersion) :
    Filed (EvalTables.on weather process (.insertRun run) s).2 := by
  have hnext : (EvalTables.on weather process (.insertRun run) s).2.nextId = s.nextId + 1 := by
    simp [EvalTables.on, EvalTables.nextId]
  have hruns : ∀ r ∈ (EvalTables.on weather process (.insertRun run) s).2.runs,
      r ∈ s.runs ∨ r = run.row s.nextId (weather.now s.calls) := by
    intro r hr
    simp only [EvalTables.on, written] at hr
    rcases List.mem_append.mp hr with hr | hr
    · exact Or.inl hr
    · refine Or.inr ?_
      split at hr
      · exact List.mem_singleton.mp hr
      · exact List.mem_singleton.mp (List.mem_of_mem_take hr)
  have hgrows : s.runs <+: (EvalTables.on weather process (.insertRun run) s).2.runs := List.prefix_append _ _
  refine ⟨fun r hr => ?_, fun f hf => ?_, ?_, fun r hr b hb => ?_, fun f hf r hr hid => ?_⟩
  · rw [hnext]
    rcases hruns r hr with hr | rfl
    · exact Nat.lt_succ_of_lt (h.ids r hr)
    · exact Nat.lt_succ_self _
  · rw [hnext]
    exact Nat.lt_succ_of_lt (h.owed f hf)
  · refine List.pairwise_append.mpr ⟨h.ordered, ?_, fun a ha b hb => ?_⟩
    · unfold written
      split
      · exact List.pairwise_singleton _ _
      · exact (List.pairwise_singleton _ _).sublist (List.take_sublist _ _)
    · have hb' : b ∈ (EvalTables.on weather process (.insertRun run) s).2.runs := List.mem_append_right _ hb
      unfold written at hb
      have hrow : b = run.row s.nextId (weather.now s.calls) := by
        split at hb
        · exact List.mem_singleton.mp hb
        · exact List.mem_singleton.mp (List.mem_of_mem_take hb)
      rw [hrow]
      exact h.ids a ha
  · rcases hruns r hr with hr | rfl
    · obtain ⟨q, hq, hlater⟩ := h.lineage r hr b hb
      exact ⟨q, hgrows.subset hq, hlater⟩
    · obtain ⟨q, hq, rfl, hqualifies⟩ := hlineage b hb
      exact ⟨q, hgrows.subset hq, rfl, h.ids q hq, hqualifies⟩
  · rcases hruns r hr with hr | rfl
    · exact h.clean f hf r hr hid
    · exact absurd hid (Nat.ne_of_gt (h.owed f hf))

theorem Wrote.insertRun (run : NewRun) : Wrote process s (EvalTables.on weather process (.insertRun run) s).2 :=
  ⟨List.prefix_append _ _, ⟨1, rfl⟩, ⟨[], by simp [EvalTables.on], by simp⟩, ⟨[], by simp [EvalTables.on]⟩⟩

/-- Findings are filed under a run of one's own, and under one that completed only tolerable ones. -/
theorem Filed.insertFindings (h : Filed s) {findings : List Finding} (hid : id < s.nextId)
    (hclean : ∀ r ∈ s.runs, r.id = id → r.status = .completed → ∀ f ∈ findings, ¬ f.ZeroTolerance) :
    Filed (EvalTables.on weather process (.insertFindings id findings) s).2 := by
  have hfindings : ∀ f ∈ (EvalTables.on weather process (.insertFindings id findings) s).2.findings,
      f ∈ s.findings ∨ f.1 = id ∧ f.2 ∈ findings := by
    intro f hf
    simp only [EvalTables.on, written] at hf
    rcases List.mem_append.mp hf with hf | hf
    · exact Or.inl hf
    · have hmap : f ∈ findings.map fun f => (id, f) := by
        split at hf
        · exact hf
        · exact List.mem_of_mem_take hf
      obtain ⟨g, hg, rfl⟩ := List.mem_map.mp hmap
      exact Or.inr ⟨rfl, hg⟩
  refine ⟨h.ids, fun f hf => ?_, h.ordered, h.lineage, fun f hf r hr heq hstatus => ?_⟩
  · rcases hfindings f hf with hf | ⟨rfl, -⟩
    · exact h.owed f hf
    · exact hid
  · rcases hfindings f hf with hf | ⟨hfid, hf⟩
    · exact h.clean f hf r hr heq hstatus
    · exact hclean r hr (heq.trans hfid) hstatus f.2 hf

theorem Wrote.insertFindings (hid : s.Drew process id) (findings : List Finding) :
    Wrote process s (EvalTables.on weather process (.insertFindings id findings) s).2 := by
  refine ⟨List.prefix_refl _, ⟨0, by simp [EvalTables.on]⟩, ⟨_, rfl, fun f hf => ?_⟩, ⟨[], by simp [EvalTables.on]⟩⟩
  have hmap : f ∈ findings.map fun f => (id, f) := by
    unfold written at hf
    split at hf
    · exact hf
    · exact List.mem_of_mem_take hf
  obtain ⟨g, -, rfl⟩ := List.mem_map.mp hmap
  exact hid

end Statements

/-! ## One harness -/

/-- What a scorecard says of the run it was compared against. -/
def Scorecard.Compares (card : Scorecard) (s : EvalTables) : Prop :=
  (card.baselineId = none ∧ card.regressions = []) ∨
    ∃ q ∈ s.runs, card.baselineId = some q.id ∧ q.Qualifies card.report.goldenSetVersion ∧
      card.regressions = compareToBaseline card.report q.metrics q.goldenSetVersion

/-- The run is in the tables as the scorecard has it, with its findings in order. -/
structure Scorecard.FiledAs (card : Scorecard) (stamp : Stamp) (startedAt : Instant) (process id : Nat)
    (s : EvalTables) : Prop where
  drew : s.Drew process id
  row : ∃ finishedAt, (card.newRun stamp startedAt).row id finishedAt ∈ s.runs
  findings : s.findingsOf id = card.run.findings

theorem Scorecard.Compares.later {card : Scorecard} (h : card.Compares s) (hruns : s.runs <+: s'.runs) :
    card.Compares s' := by
  rcases h with h | ⟨q, hq, h⟩
  · exact Or.inl h
  · exact Or.inr ⟨q, hruns.subset hq, h⟩

theorem Scorecard.FiledAs.apart {card : Scorecard} {stamp : Stamp} {startedAt : Instant}
    (h : card.FiledAs stamp startedAt process id s) (hapart : Apart process s s') :
    card.FiledAs stamp startedAt process id s' := by
  obtain ⟨finishedAt, hrow⟩ := h.row
  exact ⟨(hapart.drew id).mpr h.drew, ⟨finishedAt, hapart.runs.subset hrow⟩,
    (hapart.findings id h.drew).trans h.findings⟩

/-- The row a later run is compared against is one of the table's. -/
theorem latest_mem {version : String} {pick : Nat} {q : RunRow} (h : s.latest version pick = some q) :
    q ∈ s.runs ∧ q.Qualifies version := by
  have hq := (List.mem_filter.mp (List.mem_of_getElem? h)).1
  obtain ⟨hrow, hqualifies⟩ := List.mem_filter.mp hq
  exact ⟨hrow, of_decide_eq_true hqualifies⟩

theorem Filed.unique (h : Filed s) {a b : RunRow} (ha : a ∈ s.runs) (hb : b ∈ s.runs) (hid : a.id = b.id) : a = b := by
  by_contra hne
  have hordered : s.runs.Pairwise fun a b => a.id ≠ b.id := h.ordered.imp Nat.ne_of_lt
  have : Std.Symm fun a b : RunRow => a.id ≠ b.id := ⟨fun _ _ h => Ne.symm h⟩
  exact hordered.forall ha hb hne hid

/-- Findings filed under a run that had none. -/
theorem findingsOf_filed {findings : List Finding} {s' : EvalTables} (h : s.findingsOf id = [])
    (hfindings : s'.findings = s.findings ++ findings.map fun f => (id, f)) : s'.findingsOf id = findings := by
  have hnone : s.findings.filter (fun f => f.1 = id) = [] := List.map_eq_nil_iff.mp h
  have hall : (findings.map fun f => (id, f)).filter (fun f => f.1 = id) = findings.map fun f => (id, f) :=
    List.filter_eq_self.mpr fun f hf => by
      obtain ⟨g, -, rfl⟩ := List.mem_map.mp hf
      exact decide_eq_true rfl
  rw [EvalTables.findingsOf, hfindings, List.filter_append, hnone, List.nil_append, hall, List.map_map]
  exact List.map_id _

/-- A run completes exactly when none of its findings is intolerable. -/
theorem completed_iff {ops : Operators F} {outcomes : List (CaseOutcome F)} {run : RunReport}
    (h : computeMetrics ops outcomes = some run) :
    run.findings = outcomes.flatMap CaseOutcome.findings ∧
      (run.status = .completed ↔ ∀ f ∈ run.findings, ¬ f.ZeroTolerance) := by
  rw [computeMetrics] at h
  by_cases hmeasurable : measurable ops outcomes = true
  swap
  · rw [if_neg hmeasurable] at h
    cases h
  rw [if_pos hmeasurable] at h
  obtain rfl := Option.some.inj h
  refine ⟨rfl, ?_⟩
  have hviolations : ∀ findings : List Finding, findings.filter (fun f => f.kind = .fabrication) ++
      findings.filter (fun f => f.check = "does_not_block") = [] ↔ ∀ f ∈ findings, ¬ f.ZeroTolerance := by
    intro findings
    simp only [List.append_eq_nil_iff, List.filter_eq_nil_iff, decide_eq_true_eq, Finding.ZeroTolerance, not_or,
      forall_and]
  rw [← hviolations]
  split_ifs with hnone
  · exact iff_of_true rfl hnone
  · exact iff_of_false (by simp) hnone

/-- A statement that fails ends the program. -/
theorem wp_statement {τ : Type*} {α β : Type} {Φ : Prog.Meaning τ StoreCall} {c : StoreCall (Except String α)}
    {f : α → Filing β} {Q : Except String β → τ → Prop} :
    ((statement c).bind f).wp Φ Q = Φ c fun answer t =>
      match answer with
      | .ok a => (f a).wp Φ Q t
      | .error exc => Q (.error exc) t := by
  simp only [statement, Prog.bind_eq, Prog.perform_bind, Prog.call_bind]
  refine congrArg (Φ c) (funext fun answer => ?_)
  cases answer with
  | ok a => rfl
  | error exc => rfl

section Harness
variable (weather : Weather)

/-- A call of a process, among the others. -/
abbrev filing (process : Nat) : Prog.Meaning EvalTables StoreCall :=
  (evalTables weather).keeps onRecord (fun _ _ _ _ => True) process

/-- A statement that writes nothing. -/
theorem filing_same {β : Type} {c : StoreCall β} {K : β → EvalTables → Prop} (hc : ∀ s : EvalTables,
    ((evalTables weather).on process c s).2 = { s with calls := s.calls + 1 })
    (h : ∀ s', Apart process s s' → Filed s' → K ((evalTables weather).on process c s').1
      { s' with calls := s'.calls + 1 }) :
    filing weather process c K s := by
  intro s' hapart hfiled _
  rw [hc]
  exact ⟨hfiled.same rfl rfl rfl, .same process rfl rfl rfl (c := []) (by simp), h s' hapart hfiled⟩

variable {weather}

/-- A run is filed under a new id, as its scorecard has it. -/
theorem wp_saveRun {card : Scorecard} {stamp : Stamp} {startedAt : Instant} (hcompares : card.Compares s)
    (hclean : card.run.status = .completed → ∀ f ∈ card.run.findings, ¬ f.ZeroTolerance)
    (hprinted : s.printedBy process = []) :
    (saveRun card stamp startedAt).wp (filing weather process) (fun answer s =>
      s.printedBy process = [] ∧ ∀ id, answer = .ok id → card.Compares s ∧ card.FiledAs stamp startedAt process id s)
      s := by
  unfold saveRun
  rw [Prog.bind_eq, wp_statement]
  intro s₁ hapart hfiled _
  have hcompares₁ := hcompares.later hapart.runs
  have hprinted₁ : s₁.printedBy process = [] := hapart.printed.trans hprinted
  have hlineage : ∀ b, (card.newRun stamp startedAt).baselineId = some b →
      ∃ q ∈ s₁.runs, q.id = b ∧ q.Qualifies (card.newRun stamp startedAt).goldenSetVersion := by
    intro b hb
    rcases hcompares₁ with ⟨hnone, -⟩ | ⟨q, hq, hsome, hqualifies, -⟩
    · exact absurd (hb.symm.trans hnone) (by simp)
    · exact ⟨q, hq, Option.some.inj (hsome.symm.trans hb), hqualifies⟩
  have hafter := hfiled.insertRun process weather hlineage
  refine ⟨hafter, .insertRun process weather _, ?_⟩
  cases hfault : weather.fault s₁.calls with
  | some fault =>
    simp only [evalTables, EvalTables.on, hfault, answered]
    exact ⟨hprinted₁, fun id hid => by cases hid⟩
  | none =>
    simp only [evalTables, EvalTables.on, hfault, answered, written] at hafter ⊢
    have hdrew : (s₁.drawn ++ [process])[s₁.drawn.length]? = some process := by simp
    have hnone : s₁.findingsOf s₁.nextId = [] := by
      refine List.map_eq_nil_iff.mpr (List.filter_eq_nil_iff.mpr fun f hf hid => ?_)
      exact absurd (of_decide_eq_true hid) (Nat.ne_of_lt (hfiled.owed f hf))
    split_ifs with hfindings
    · refine ⟨hprinted₁, fun id hid => ?_⟩
      obtain rfl := Except.ok.inj hid
      exact ⟨hcompares₁.later (List.prefix_append _ _), ⟨_, rfl, hdrew⟩,
        ⟨_, List.mem_append_right _ (List.mem_singleton_self _)⟩, hnone.trans hfindings.symm⟩
    · rw [Prog.bind_eq, wp_statement]
      intro s₂ hapart₂ hfiled₂ _
      have hdrew₂ : s₂.Drew process s₁.nextId := (hapart₂.drew _).mpr ⟨_, rfl, hdrew⟩
      have hnone₂ : s₂.findingsOf s₁.nextId = [] := (hapart₂.findings _ ⟨_, rfl, hdrew⟩).trans hnone
      have hrow₂ : (card.newRun stamp startedAt).row s₁.nextId (weather.now s₁.calls) ∈ s₂.runs :=
        hapart₂.runs.subset (List.mem_append_right _ (List.mem_singleton_self _))
      have hclean₂ : ∀ r ∈ s₂.runs, r.id = s₁.nextId → r.status = .completed →
          ∀ f ∈ card.run.findings, ¬ f.ZeroTolerance := by
        intro r hr hid hstatus
        obtain rfl := hfiled₂.unique hr hrow₂ hid
        exact hclean hstatus
      have hwrote := Wrote.insertFindings process weather hdrew₂ card.run.findings
      refine ⟨hfiled₂.insertFindings process weather (hfiled₂.ids _ hrow₂) hclean₂, hwrote, ?_⟩
      have hprinted₂ : s₂.printedBy process = [] := hapart₂.printed.trans hprinted₁
      cases hfault₂ : weather.fault s₂.calls with
      | some fault =>
        simp only [evalTables, EvalTables.on, hfault₂, answered]
        exact ⟨hprinted₂, fun id hid => by cases hid⟩
      | none =>
        simp only [evalTables, EvalTables.on, hfault₂, answered, written]
        refine ⟨hprinted₂, fun id hid => ?_⟩
        obtain rfl := Except.ok.inj hid
        refine ⟨(hcompares₁.later ((List.prefix_append _ _).trans hapart₂.runs)).later (List.prefix_refl _), hdrew₂,
          ⟨_, hrow₂⟩, findingsOf_filed hnone₂ rfl⟩

theorem Scorecard.against_same (card : Scorecard) (baseline : Option Baseline) :
    (card.against baseline).report = card.report ∧ (card.against baseline).run = card.run := by
  cases baseline <;> exact ⟨rfl, rfl⟩

/-- What is printed is what was filed, if anything was. -/
def Scorecard.Stands (card : Scorecard) (stamp : Stamp) (startedAt : Instant) (process : Nat) (s : EvalTables) : Prop :=
  card.Compares s ∧ ∀ id, card.runId = some id → card.FiledAs stamp startedAt process id s

theorem wp_persist {card : Scorecard} {stamp : Stamp} {startedAt : Instant} (hcard : card.baselineId = none)
    (hregressions : card.regressions = []) (hrunId : card.runId = none)
    (hclean : card.run.status = .completed → ∀ f ∈ card.run.findings, ¬ f.ZeroTolerance)
    (hprinted : s.printedBy process = []) :
    (persist card stamp startedAt).wp (filing weather process) (fun answer s =>
      s.printedBy process = [] ∧ ∀ card', answer = .ok card' → card'.report = card.report ∧ card'.run = card.run ∧
        card'.Stands stamp startedAt process s) s := by
  unfold persist
  rw [Prog.bind_eq, Prog.perform_bind, Prog.wp_call]
  refine filing_same weather (fun _ => rfl) fun s₁ hapart hfiled => ?_
  have hprinted₁ : s₁.printedBy process = [] := hapart.printed.trans hprinted
  cases hfault : weather.fault s₁.calls with
  | some fault =>
    simp only [evalTables, EvalTables.on, hfault, answered]
    refine ⟨hprinted₁, fun card' hcard' => ?_⟩
    obtain rfl := Except.ok.inj hcard'
    exact ⟨rfl, rfl, Or.inl ⟨hcard, hregressions⟩, fun id hid => absurd (hrunId.symm.trans hid) (by simp)⟩
  | none =>
    simp only [evalTables, EvalTables.on, hfault, answered]
    rw [Prog.bind_eq, latestBaseline, wp_statement]
    refine filing_same weather (fun _ => rfl) fun s₂ hapart₂ hfiled₂ => ?_
    have hprinted₂ : s₂.printedBy process = [] := hapart₂.printed.trans hprinted₁
    cases hfault₂ : weather.fault s₂.calls with
    | some fault =>
      simp only [evalTables, EvalTables.on, hfault₂, answered]
      exact ⟨hprinted₂, fun card' hcard' => by cases hcard'⟩
    | none =>
      simp only [evalTables, EvalTables.on, hfault₂, answered]
      have hcompares : (card.against ((s₂.latest card.report.goldenSetVersion (weather.pick s₂.calls)).map
          RunRow.baseline)).Compares s₂ := by
        cases hlatest : s₂.latest card.report.goldenSetVersion (weather.pick s₂.calls) with
        | none => exact Or.inl ⟨hcard, hregressions⟩
        | some q =>
          obtain ⟨hq, hqualifies⟩ := latest_mem hlatest
          exact Or.inr ⟨q, hq, rfl, hqualifies, rfl⟩
      obtain ⟨hreport, hrun⟩ := card.against_same
        ((s₂.latest card.report.goldenSetVersion (weather.pick s₂.calls)).map RunRow.baseline)
      generalize card.against _ = against at hcompares hreport hrun ⊢
      rw [Prog.bind_eq, Prog.wp_bind]
      refine Prog.wp_mono (Machine.keeps_mono _ _ _ _) _ (fun answer s₃ h => ?_)
        (wp_saveRun (hcompares.later (List.prefix_refl _)) (by rw [hrun]; exact hclean) hprinted₂)
      cases answer with
      | error exc => exact ⟨h.1, fun card' hcard' => by cases hcard'⟩
      | ok id =>
        obtain ⟨hcompares₃, hfiled₃⟩ := h.2 id rfl
        refine ⟨h.1, fun card' hcard' => ?_⟩
        obtain rfl := Except.ok.inj hcard'
        refine ⟨hreport, hrun, hcompares₃, fun id' hid' => ?_⟩
        obtain rfl := Option.some.inj hid'
        exact ⟨hfiled₃.drew, hfiled₃.row, hfiled₃.findings⟩

variable {ops : Operators F} {job : Job F}

/-- What a harness that has come to its end leaves: one scorecard and its exit code, or an exception and nothing. -/
def Ended (ops : Operators F) (job : Job F) (process : Nat) (answer : Except String Nat) (s : EvalTables) : Prop :=
  (∀ exc, answer = .error exc → s.printedBy process = []) ∧
    ∀ code, answer = .ok code → ∃ scored card, job.scored ops = some scored ∧ s.printedBy process = [card] ∧
      card.report = scored.report ∧ card.run = scored.run ∧ code = card.exitCode ∧
      card.Stands job.stamp job.startedAt process s

theorem Ended.apart {answer : Except String Nat} (h : Ended ops job process answer s) (hapart : Apart process s s') :
    Ended ops job process answer s' := by
  refine ⟨fun exc hexc => hapart.printed.trans (h.1 exc hexc), fun code hcode => ?_⟩
  obtain ⟨scored, card, hscored, hprinted, hreport, hrun, heq, hcompares, hfiled⟩ := h.2 code hcode
  exact ⟨scored, card, hscored, hapart.printed.trans hprinted, hreport, hrun, heq, hcompares.later hapart.runs,
    fun id hid => (hfiled id hid).apart hapart⟩

theorem wp_evaluate (hprinted : s.printedBy process = []) :
    (evaluate ops job).wp (filing weather process) (Ended ops job process) s := by
  unfold evaluate
  cases hscored : job.scored ops with
  | none => exact ⟨fun exc _ => hprinted, fun code hcode => by cases hcode⟩
  | some scored =>
    obtain ⟨run, hrun, rfl⟩ := Option.map_eq_some_iff.mp hscored
    dsimp only
    rw [Prog.bind_eq, Prog.wp_bind]
    refine Prog.wp_mono (Machine.keeps_mono _ _ _ _) _ (fun answer s₁ h => ?_)
      (wp_persist rfl rfl rfl (completed_iff hrun).2.mp hprinted)
    cases answer with
    | error exc => exact ⟨fun exc' _ => h.1, fun code hcode => by cases hcode⟩
    | ok card =>
      obtain ⟨hreport, hcard, hcompares, hfiled⟩ := h.2 card rfl
      intro s₂ hapart hfiled₂ _
      have hprinted₂ : s₂.printedBy process = [] := hapart.printed.trans h.1
      refine ⟨hfiled₂.same rfl rfl rfl, .same process rfl rfl rfl (c := [card]) rfl, ?_⟩
      refine (⟨fun exc hexc => absurd hexc (by simp), fun code hcode => ?_⟩ : Ended ops job process (.ok card.exitCode) _)
      obtain rfl := Except.ok.inj hcode
      refine ⟨_, card, hscored, ?_, hreport, hcard, rfl, hcompares.later hapart.runs, fun id hid => ?_⟩
      · have hone : [(process, card)].filter (fun p => p.1 = process) = [(process, card)] := by simp
        unfold EvalTables.printedBy at hprinted₂ ⊢
        simp only [evalTables, EvalTables.on]
        rw [List.filter_append, List.map_append, hprinted₂, hone]
        rfl
      · obtain ⟨hdrew, hrow, hfindings⟩ := (hfiled id hid).apart hapart
        exact ⟨hdrew, hrow, hfindings⟩

end Harness

/-! ## Any number of harnesses -/

section Harnesses
variable (ops : Operators F) (weather : Weather) (jobs : Nat → Job F) (schedule : List Nat)

theorem harnesses_sound : Sound (evalTables weather) onRecord (fun _ _ _ _ => True)
    (fun process => Ended ops (jobs process) process)
    ((harnesses ops jobs).exec (evalTables weather) schedule) := by
  refine Sound.exec (p := harnesses ops jobs) onRecord_fits ⟨filed_start, fun process => wp_evaluate rfl,
    fun process answer s s' h hapart => ?_⟩ schedule (Pool.meets_true _ _ _)
  exact h.apart hapart

/-- The tables, once the harnesses have taken these steps. -/
def tablesAfter : EvalTables := ((harnesses ops jobs).exec (evalTables weather) schedule).shared

/-- One run is compared to another. -/
def EvalTables.ComparedTo (s : EvalTables) (r q : RunRow) : Prop :=
  r ∈ s.runs ∧ q ∈ s.runs ∧ r.baselineId = some q.id

theorem Filed.compared (h : Filed s) {r q : RunRow} (hrq : s.ComparedTo r q) :
    q.id < r.id ∧ q.Qualifies r.goldenSetVersion := by
  obtain ⟨hr, hq, hid⟩ := hrq
  obtain ⟨q', hq', heq, hlt, hqualifies⟩ := h.lineage r hr q.id hid
  obtain rfl := h.unique hq' hq heq
  exact ⟨hlt, hqualifies⟩

/-- **However the statements of any number of harnesses interleave, and whichever of them fail**, a run is compared
only with a run that is in the tables, and what it is compared with, and what that was compared with, and so on, are
earlier runs of the same golden set that completed, with no intolerable finding filed under them. -/
theorem baselines_completed :
    (∀ r ∈ (tablesAfter ops weather jobs schedule).runs, ∀ b, r.baselineId = some b →
      ∃ q, q.id = b ∧ (tablesAfter ops weather jobs schedule).ComparedTo r q) ∧
    ∀ r q, Relation.TransGen (tablesAfter ops weather jobs schedule).ComparedTo r q →
      q.id < r.id ∧ q.goldenSetVersion = r.goldenSetVersion ∧ q.status = .completed ∧
        ∀ f ∈ (tablesAfter ops weather jobs schedule).findingsOf q.id, ¬ f.ZeroTolerance := by
  have hfiled : Filed (tablesAfter ops weather jobs schedule) :=
    (harnesses_sound ops weather jobs schedule).inv
  generalize tablesAfter ops weather jobs schedule = s at hfiled ⊢
  refine ⟨fun r hr b hb => ?_, fun r q hrq => ?_⟩
  · obtain ⟨q, hq, rfl, -⟩ := hfiled.lineage r hr b hb
    exact ⟨q, rfl, hr, hq, hb⟩
  · have hq : q ∈ s.runs := by
      cases hrq with
      | single h => exact h.2.1
      | tail _ h => exact h.2.1
    have hbelow : q.id < r.id ∧ q.Qualifies r.goldenSetVersion := by
      induction hrq with
      | single h => exact hfiled.compared h
      | tail hrm hmq ih =>
        obtain ⟨hlt, hversion, -⟩ := ih hmq.1
        obtain ⟨hlt', hqualifies⟩ := hfiled.compared hmq
        exact ⟨Nat.lt_trans hlt' hlt, hversion ▸ hqualifies⟩
    obtain ⟨hlt, hversion, hstatus⟩ := hbelow
    refine ⟨hlt, hversion, hstatus, fun f hf => ?_⟩
    obtain ⟨entry, hentry, rfl⟩ := List.mem_map.mp hf
    obtain ⟨hmem, hid⟩ := List.mem_filter.mp hentry
    exact hfiled.clean entry hmem q hq (of_decide_eq_true hid).symm hstatus

end Harnesses

/-- A golden set whose cases found nothing. -/
def quietJob (startedAt : Instant) : Job Unit where
  version := "banking-1"
  thresholds _ := none
  measured := { value := fun _ => none, judged := fun _ => false }
  outcomes := [{ caseId := "saldo" }]
  stamp := { agent := "banking", model := "gpt-5", guardrails := "both", judgeModel := "" }
  startedAt := startedAt

def calm : Weather where
  now n := 100 + n
  pick _ := 0

/-- One harness, until its process ends after so many statements, whether the program did or not. -/
structure Session (F : Type) where
  job : Job F
  process : Nat
  statements : Nat

/-- The tables after one session. -/
def Session.after (ops : Operators F) (weather : Weather) (s : EvalTables) (session : Session F) : EvalTables :=
  (evaluate ops session.job).cut (alone weather session.process) session.statements s

/-- The last run that a new one may be compared against. -/
def lastQualifying (version : String) (rows : List RunRow) : Option RunRow :=
  (rows.filter fun row => row.Qualifies version).getLast?

/-- Runs in the order they were started in, each compared against the last before it that completed. -/
structure InOrder (s : EvalTables) : Prop where
  started : s.runs.Pairwise fun a b => a.startedAt < b.startedAt
  baselines : History.Past (fun before row =>
    row.baselineId = (lastQualifying row.goldenSetVersion before).map RunRow.id) s.runs

/-- Where runs started one after the other, the newest is the last. -/
theorem newest_eq {rows : List RunRow} (h : rows.Pairwise fun a b => a.startedAt < b.startedAt) :
    newest rows = rows.getLast?.toList := by
  induction rows using List.reverseRecOn with
  | nil => rfl
  | append_singleton rows row _ =>
    obtain ⟨-, -, hlast⟩ := List.pairwise_append.mp h
    have hbefore : ∀ r ∈ rows, r.startedAt < row.startedAt := fun r hr => hlast r hr row (List.mem_singleton_self _)
    have hnone : rows.filter (fun r => (rows ++ [row]).all fun other => other.startedAt ≤ r.startedAt) = [] := by
      refine List.filter_eq_nil_iff.mpr fun r hr hall => ?_
      have hle := of_decide_eq_true (List.all_eq_true.mp hall row (by simp))
      exact absurd (hbefore r hr) (not_lt.mpr hle)
    have hself : (rows ++ [row]).all (fun other => other.startedAt ≤ row.startedAt) = true := by
      refine List.all_eq_true.mpr fun r hr => decide_eq_true ?_
      rcases List.mem_append.mp hr with hr | hr
      · exact le_of_lt (hbefore r hr)
      · rw [List.mem_singleton.mp hr]
    rw [newest, List.filter_append, hnone, List.nil_append, List.filter_singleton, hself, List.getLast?_concat]
    rfl

theorem latest_eq {s : EvalTables} (h : s.runs.Pairwise fun a b => a.startedAt < b.startedAt) (version : String)
    (pick : Nat) : s.latest version pick = lastQualifying version s.runs := by
  have hsorted : (s.qualifying version).Pairwise fun a b => a.startedAt < b.startedAt := h.filter _
  rw [EvalTables.latest, newest_eq hsorted, lastQualifying]
  change _ = (s.qualifying version).getLast?
  cases (s.qualifying version).getLast? with
  | none => rfl
  | some row =>
    rw [Option.toList_some, List.length_singleton, Nat.mod_one]
    rfl

section Serial
variable (ops : Operators F) (weather : Weather)

/-- The call that files a run, where the runs so far all started before it. -/
def Files (startedAt : Instant) : {β : Type} → StoreCall β → EvalTables → Prop
  | _, .insertRun run, s => run.startedAt = startedAt ∧ (∀ r ∈ s.runs, r.startedAt < startedAt) ∧
      run.baselineId = (lastQualifying run.goldenSetVersion s.runs).map RunRow.id
  | _, _, _ => True

variable {weather} {startedAt : Instant} {card : Scorecard} {stamp : Stamp}

theorem wp_files_saveRun (hbefore : ∀ r ∈ s.runs, r.startedAt < startedAt)
    (hlast : card.baselineId = (lastQualifying card.report.goldenSetVersion s.runs).map RunRow.id) :
    (saveRun card stamp startedAt).wp ((alone weather process).under (Files startedAt)) (fun _ _ => True) s := by
  unfold saveRun
  rw [Prog.bind_eq, wp_statement]
  refine ⟨⟨rfl, hbefore, hlast⟩, ?_⟩
  cases hfault : weather.fault s.calls with
  | some fault =>
    simp only [alone, EvalTables.on, hfault, answered]
  | none =>
    simp only [alone, EvalTables.on, hfault, answered]
    split_ifs
    · trivial
    · rw [Prog.bind_eq, wp_statement]
      refine ⟨trivial, ?_⟩
      simp only [EvalTables.on]
      cases weather.fault (s.calls + 1) <;> trivial

theorem wp_files_persist (hs : InOrder s) (hbefore : ∀ r ∈ s.runs, r.startedAt < startedAt)
    (hcard : card.baselineId = none) :
    (persist card stamp startedAt).wp ((alone weather process).under (Files startedAt)) (fun _ _ => True) s := by
  unfold persist
  rw [Prog.bind_eq, Prog.perform_bind, Prog.wp_call]
  refine ⟨trivial, ?_⟩
  cases hfault : weather.fault s.calls with
  | some fault => simp only [alone, EvalTables.on, hfault, answered, Prog.pure_eq, Prog.wp_ret]
  | none =>
    simp only [alone, EvalTables.on, hfault, answered]
    rw [Prog.bind_eq, latestBaseline, wp_statement]
    refine ⟨trivial, ?_⟩
    cases hfault₂ : weather.fault (s.calls + 1) with
    | some fault => simp only [EvalTables.on, hfault₂, answered]
    | none =>
      simp only [EvalTables.on, hfault₂, answered]
      have hlatest : ∀ pick, EvalTables.latest { s with calls := s.calls + 1 } card.report.goldenSetVersion pick =
          lastQualifying card.report.goldenSetVersion s.runs := latest_eq hs.started _
      rw [hlatest, Prog.bind_eq, Prog.wp_bind]
      refine Prog.wp_mono (Handler.under_mono _ _) _ (fun answer _ _ => ?_) (wp_files_saveRun hbefore ?_)
      · cases answer <;> trivial
      · cases hq : lastQualifying card.report.goldenSetVersion s.runs with
        | none => simp [Scorecard.against, hcard, hq]
        | some q => simp [Scorecard.against, hq, RunRow.baseline]

theorem wp_files_evaluate {job : Job F} (hs : InOrder s) (hbefore : ∀ r ∈ s.runs, r.startedAt < job.startedAt) :
    (evaluate ops job).wp ((alone weather process).under (Files job.startedAt)) (fun _ _ => True) s := by
  unfold evaluate
  cases hscored : job.scored ops with
  | none => trivial
  | some scored =>
    obtain ⟨run, -, rfl⟩ := Option.map_eq_some_iff.mp hscored
    dsimp only
    rw [Prog.bind_eq, Prog.wp_bind]
    refine Prog.wp_mono (Handler.under_mono _ _) _ (fun answer _ _ => ?_) (wp_files_persist hs hbefore rfl)
    cases answer with
    | error exc => trivial
    | ok card => exact ⟨trivial, trivial⟩

/-- A call that files a run in order keeps the order. -/
theorem InOrder.on {β : Type} {c : StoreCall β} (hs : InOrder s) (hc : Files startedAt c s) :
    InOrder ((alone weather process).on c s).2 := by
  cases c with
  | insertRun run =>
    obtain ⟨rfl, hbefore, hlast⟩ := hc
    have hsnoc : ∀ finishedAt, InOrder { s with runs := s.runs ++ [run.row s.nextId finishedAt] } := fun finishedAt =>
      ⟨List.pairwise_append.mpr ⟨hs.started, List.pairwise_singleton _ _, fun r hr row hrow => by
        rw [List.mem_singleton.mp hrow]
        exact hbefore r hr⟩, History.past_snoc.mpr ⟨hs.baselines, hlast⟩⟩
    cases hfault : weather.fault s.calls with
    | none =>
      simp only [alone, EvalTables.on, hfault, written]
      exact ⟨(hsnoc _).started, (hsnoc _).baselines⟩
    | some fault =>
      simp only [alone, EvalTables.on, hfault, written]
      rcases Nat.eq_zero_or_pos fault.1 with hkept | hkept
      · rw [hkept, List.take_zero, List.append_nil]
        exact ⟨hs.started, hs.baselines⟩
      · rw [List.take_of_length_le (by rwa [List.length_singleton])]
        exact ⟨(hsnoc _).started, (hsnoc _).baselines⟩
  | _ => exact ⟨hs.started, hs.baselines⟩

theorem startedBy_on {β : Type} {c : StoreCall β} (hs : ∀ r ∈ s.runs, r.startedAt ≤ startedAt)
    (hc : Files startedAt c s) : ∀ r ∈ ((alone weather process).on c s).2.runs, r.startedAt ≤ startedAt := by
  cases c with
  | insertRun run =>
    obtain ⟨rfl, -, -⟩ := hc
    intro r hr
    simp only [alone, EvalTables.on, written] at hr
    rcases List.mem_append.mp hr with hr | hr
    · exact hs r hr
    · have hrow : r = run.row s.nextId (weather.now s.calls) := by
        split at hr
        · exact List.mem_singleton.mp hr
        · exact List.mem_singleton.mp (List.mem_of_mem_take hr)
      rw [hrow]
      exact le_refl _
  | _ => exact hs

/-- A session keeps the runs in order, and files none that started later than it did. -/
theorem InOrder.after (weather : Weather) (hs : InOrder s) {session : Session F}
    (hbefore : ∀ r ∈ s.runs, r.startedAt < session.job.startedAt) :
    InOrder (session.after ops weather s) ∧ ∀ r ∈ (session.after ops weather s).runs,
      r.startedAt ≤ session.job.startedAt :=
  Prog.cut_keeps (I := fun s => InOrder s ∧ ∀ r ∈ s.runs, r.startedAt ≤ session.job.startedAt)
    (fun _ _ hc h => ⟨h.1.on hc, startedBy_on h.2 hc⟩) (wp_files_evaluate ops hs hbefore)
    ⟨hs, fun r hr => le_of_lt (hbefore r hr)⟩ session.statements

theorem InOrder.sessions {sessions : List (Session F)}
    (hsessions : sessions.Pairwise fun a b => a.job.startedAt < b.job.startedAt) (hs : InOrder s)
    (hbefore : ∀ session ∈ sessions, ∀ r ∈ s.runs, r.startedAt < session.job.startedAt) :
    InOrder (sessions.foldl (Session.after ops weather) s) := by
  induction sessions generalizing s with
  | nil => exact hs
  | cons session rest ih =>
    obtain ⟨hfirst, hrest⟩ := List.pairwise_cons.mp hsessions
    obtain ⟨hafter, hstarted⟩ := hs.after ops weather (hbefore session List.mem_cons_self)
    exact ih hrest hafter fun later hlater r hr => lt_of_le_of_lt (hstarted r hr) (hfirst later hlater)

end Serial

/-- A run, and the runs met by going from one to the one it was compared against. -/
inductive EvalTables.Chain (s : EvalTables) : RunRow → List RunRow → Prop
  | first {r : RunRow} (h : r.baselineId = none) : Chain s r []
  | compared {r q : RunRow} {rest : List RunRow} (hq : q ∈ s.runs) (h : r.baselineId = some q.id)
      (hrest : Chain s q rest) : Chain s r (q :: rest)

/-- Two runs of one golden set, one after the other. -/
def twoSessions : List (Session Unit) :=
  [{ job := quietJob 1, process := 0, statements := 4 }, { job := quietJob 2, process := 1, statements := 3 }]

end BankingControlPlane.Evals
