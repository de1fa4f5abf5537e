import BankingControlPlane.Runtime.Rail
import BankingControlPlane.Safety.Gates

/-!
# The rail is complete

* `run_refused`, `run_through` : the frames of a turn, cell by cell;
* `Complete` : one settled frame for each gate, around those of model and tools, blocked where the gate refused;
* `rail_complete` : so is the rail of every turn that raises nothing;
* `run_messages` : the messages a narrated turn leaves are those of the turn.
-/

namespace BankingControlPlane

variable {K : Type} {spec : GuardSpec} {mode : Mode} {history messages : List Message} {n : Narrated K}

/-! ## The cells of a turn -/

/-- The cell of an input gate that let the message through, or was left out. -/
def openCell (mode : Mode) (ns : Nat) : StageEvent K :=
  if .guardIn ∈ mode.mounts then Gate.guardIn.frame .done ns else Gate.guardIn.frame .skip

/-- The cell of an output gate that saw the answer, or was left out. -/
def closeCell (spec : GuardSpec) (mode : Mode) (text : String) (ns : Nat) : StageEvent K :=
  if .guardOut ∈ mode.mounts then
    match spec.outputCheck text with
    | [] => Gate.guardOut.frame .done ns
    | violations => Gate.guardOut.frame .blocked ns (some (.violations violations))
  else Gate.guardOut.frame .skip

theorem closeCell_kind (text : String) (ns : Nat) : (closeCell spec mode text ns : StageEvent K).kind = .guardOut ∧
    (closeCell spec mode text ns : StageEvent K).status ≠ .start := by
  unfold closeCell
  split_ifs
  · cases spec.outputCheck text <;> exact ⟨rfl, nofun⟩
  · exact ⟨rfl, nofun⟩

theorem closeCell_blocked (text : String) (ns : Nat) :
    (closeCell spec mode text ns : StageEvent K).status = .blocked ↔
      .guardOut ∈ mode.mounts ∧ ¬ Passes spec.outputCheck text := by
  unfold closeCell Passes
  by_cases hmounts : Gate.guardOut ∈ mode.mounts
  · rw [if_pos hmounts]
    cases hcheck : spec.outputCheck text with
    | nil => exact ⟨nofun, fun h => absurd rfl h.2⟩
    | cons v vs => exact ⟨fun _ => ⟨hmounts, nofun⟩, fun _ => rfl⟩
  · rw [if_neg hmounts]
    exact ⟨nofun, fun h => absurd h.1 hmounts⟩

theorem openCell_kind (ns : Nat) : (openCell mode ns : StageEvent K).kind = .guardIn ∧
    (openCell mode ns : StageEvent K).status ≠ .start ∧ (openCell mode ns : StageEvent K).status ≠ .blocked := by
  unfold openCell
  split_ifs <;> exact ⟨rfl, nofun, nofun⟩

/-! ## The hooks around the loop -/

theorem inputGuard_passes {ns : Nat} (h : Passes spec.inputCheck (lastText messages)) :
    (InputGuard.middleware (K := K) spec ns).abeforeAgent messages =
      { frames := [Gate.guardIn.frame .done ns] } := by
  have hcheck : spec.inputCheck (lastText messages) = [] := h
  simp only [InputGuard.middleware, hcheck]

theorem inputGuard_refuses {ns : Nat} (h : ¬ Passes spec.inputCheck (lastText messages)) :
    (InputGuard.middleware (K := K) spec ns).abeforeAgent messages =
      { frames := [Gate.guardIn.frame .blocked ns (some (.violations (spec.inputCheck (lastText messages)))), modelSkip]
        refusal := some (.refusal .guardIn (spec.inputReplacement.apply (lastText messages))) } := by
  unfold Passes at h
  cases hcheck : spec.inputCheck (lastText messages) with
  | nil => exact absurd hcheck h
  | cons v vs => simp only [InputGuard.middleware, hcheck]

theorem runBefore_refused {text : String} (ns : Gate → Nat) (hmounts : .guardIn ∈ mode.mounts)
    (hcheck : ¬ Passes spec.inputCheck text) :
    runBefore (buildMiddleware (K := K) spec mode ns) (history ++ [.human text]) =
      ⟨[Gate.guardIn.frame .blocked (ns .guardIn) (some (.violations (spec.inputCheck text))), modelSkip],
        history ++ [.human text] ++ [.refusal .guardIn (spec.inputReplacement.apply text)], true⟩ := by
  have htext : lastText (history ++ [Message.human text]) = text := lastText_snoc _ _
  have hrefuses := @inputGuard_refuses K spec (history ++ [.human text]) (ns .guardIn) (htext.symm ▸ hcheck)
  rw [htext] at hrefuses
  cases mode with
  | both | input =>
    simp [buildMiddleware, Mode.mounts, runBefore, TraceMiddleware, skipOmitted, Mode.omitted, hrefuses]
  | output | none => exact absurd hmounts (by decide)

theorem runBefore_through {text : String} (ns : Gate → Nat)
    (h : ¬ (.guardIn ∈ mode.mounts ∧ ¬ Passes spec.inputCheck text)) :
    runBefore (buildMiddleware (K := K) spec mode ns) (history ++ [.human text]) =
      ⟨[openCell mode (ns .guardIn)], history ++ [.human text], false⟩ := by
  have htext : lastText (history ++ [Message.human text]) = text := lastText_snoc _ _
  have hpasses : .guardIn ∈ mode.mounts → (InputGuard.middleware (K := K) spec (ns .guardIn)).abeforeAgent
      (history ++ [.human text]) = { frames := [Gate.guardIn.frame .done (ns .guardIn)] } := fun hmounts =>
    inputGuard_passes (htext.symm ▸ not_not.mp fun hcheck => h ⟨hmounts, hcheck⟩)
  cases mode with
  | both | input =>
    simp [buildMiddleware, Mode.mounts, runBefore, TraceMiddleware, skipOmitted, Mode.omitted, openCell,
      OutputGuard.middleware, hpasses (by decide)]
  | output | none =>
    simp [buildMiddleware, Mode.mounts, runBefore, TraceMiddleware, skipOmitted, Mode.omitted, openCell,
      OutputGuard.middleware]

/-- The output gate has nothing to screen where the input gate refused. -/
theorem runAfter_refused (ns : Gate → Nat) (hrefused : refusedBy messages = some .guardIn) :
    runAfter (buildMiddleware (K := K) spec mode ns).reverse messages = ([Gate.guardOut.frame .skip, finish], messages) := by
  have hskips : (OutputGuard.middleware (K := K) spec (ns .guardOut)).aafterAgent messages =
      { frames := [Gate.guardOut.frame .skip] } := by
    simp only [OutputGuard.middleware, hrefused]
  cases mode with
  | both | output =>
    simp [buildMiddleware, Mode.mounts, runAfter, TraceMiddleware, skipOmitted, Mode.omitted, InputGuard.middleware,
      hskips]
  | input | none =>
    simp [buildMiddleware, Mode.mounts, runAfter, TraceMiddleware, skipOmitted, Mode.omitted, InputGuard.middleware]

/-- What the output gate makes of the answer. -/
def replaced (spec : GuardSpec) (mode : Mode) (messages : List Message) : List Message :=
  if .guardOut ∈ mode.mounts ∧ ¬ Passes spec.outputCheck (lastText messages)
  then [.refusal .guardOut (spec.outputReplacement.apply (lastUserText messages))] else []

theorem replaced_eq (hrefused : refusedBy messages = none) :
    replaced spec mode messages = (afterAgent spec mode messages).toList := by
  unfold replaced afterAgent OutputGuard.aafterAgent
  rw [hrefused]
  by_cases hmounts : Gate.guardOut ∈ mode.mounts
  · by_cases hpasses : Passes spec.outputCheck (lastText messages)
    · simp [hmounts, hpasses]
    · simp [hmounts, hpasses]
  · simp [hmounts]

/-- The output gate is the first to close, and the rail the last. -/
theorem outputGuard_first (ns : Gate → Nat) (hmounts : .guardOut ∈ mode.mounts) :
    ∃ rest, (buildMiddleware (K := K) spec mode ns).reverse = OutputGuard.middleware spec (ns .guardOut) :: rest ∧
      ∀ later, runAfter rest later = ([finish], later) := by
  cases mode with
  | both =>
    refine ⟨[InputGuard.middleware spec (ns .guardIn), TraceMiddleware .both], rfl, fun later => ?_⟩
    simp [runAfter, TraceMiddleware, skipOmitted, Mode.omitted, InputGuard.middleware]
  | output =>
    refine ⟨[TraceMiddleware .output], rfl, fun later => ?_⟩
    simp [runAfter, TraceMiddleware, skipOmitted, Mode.omitted]
  | input | none => exact absurd hmounts (by decide)

/-- The output gate screens the answer, and says nothing of its own refusal. -/
theorem runAfter_answered (ns : Gate → Nat) (hrefused : refusedBy messages = none) :
    runAfter (buildMiddleware (K := K) spec mode ns).reverse messages =
      ([closeCell spec mode (lastText messages) (ns .guardOut), finish], messages ++ replaced spec mode messages) := by
  by_cases hmounts : Gate.guardOut ∈ mode.mounts
  · obtain ⟨rest, hfirst, hrest⟩ := @outputGuard_first K spec mode ns hmounts
    rw [hfirst, runAfter]
    cases hcheck : spec.outputCheck (lastText messages) with
    | nil =>
      have hscreened : (OutputGuard.middleware (K := K) spec (ns .guardOut)).aafterAgent messages =
          { frames := [Gate.guardOut.frame .done (ns .guardOut)] } := by
        simp only [OutputGuard.middleware, hrefused, hcheck]
      have hpasses : Passes spec.outputCheck (lastText messages) := hcheck
      simp [hscreened, hrest, closeCell, hmounts, hcheck, replaced, hpasses]
    | cons v vs =>
      have hscreened : (OutputGuard.middleware (K := K) spec (ns .guardOut)).aafterAgent messages =
          { frames := [Gate.guardOut.frame .blocked (ns .guardOut) (some (.violations (v :: vs)))]
            refusal := some (.refusal .guardOut (spec.outputReplacement.apply (lastUserText messages))) } := by
        simp only [OutputGuard.middleware, hrefused, hcheck]
      have hagain : (OutputGuard.middleware (K := K) spec (ns .guardOut)).aafterAgent (messages ++
          [.refusal .guardOut (spec.outputReplacement.apply (lastUserText messages))]) = {} := by
        simp only [OutputGuard.middleware, refusedBy_snoc, Message.refusal]
      have hfails : ¬ Passes spec.outputCheck (lastText messages) := by
        unfold Passes
        rw [hcheck]
        exact List.cons_ne_nil v vs
      simp [hscreened, hagain, hrest, closeCell, hmounts, hcheck, replaced, hfails]
  · cases mode with
    | both | output => exact absurd (by decide) hmounts
    | input | none =>
      simp [buildMiddleware, Mode.mounts, runAfter, TraceMiddleware, skipOmitted, Mode.omitted, InputGuard.middleware,
        closeCell, replaced]

/-! ## A turn -/

/-- A turn the input gate refused: the model is skipped, and the output gate too. -/
theorem run_refused (h : Refused spec mode n.turn) : n.run spec mode history =
    ([Gate.guardIn.frame .blocked (n.gateNs .guardIn) (some (.violations (spec.inputCheck n.message))), modelSkip,
        Gate.guardOut.frame .skip, finish],
      history ++ [.human n.message] ++ [.refusal .guardIn (spec.inputReplacement.apply n.message)]) := by
  have hbefore := @runBefore_refused K spec mode history n.message n.gateNs h.1 h.2
  have hafter := @runAfter_refused K spec mode _ n.gateNs
    (refusedBy_snoc (history ++ [.human n.message]) (.refusal .guardIn (spec.inputReplacement.apply n.message)))
  unfold Narrated.run
  simp only [hbefore, if_true, hafter]
  rfl

/-- A turn that is let through and raises nothing. -/
theorem run_through {content : Content} {call : ModelCall K} (h : ¬ Refused spec mode n.turn)
    (hending : n.ending = .answers content call) : n.run spec mode history =
    (openCell mode (n.gateNs .guardIn) :: n.loopFrames ++
        [closeCell spec mode content.text (n.gateNs .guardOut), finish],
      history ++ [.human n.message] ++ said n.turn.ending n.turn.rounds ++ closing spec mode n.turn) := by
  have hanswers : n.turn.ending = .answers content := congrArg NarratedEnding.ending hending
  obtain ⟨hfinal, hfailed⟩ := @loop_final n.turn.ending (history ++ [.human n.message]) n.turn.rounds
  have hraised : n.turn.ending.failed = false := by
    rw [hanswers]
    rfl
  have hlast : ∃ before, history ++ [.human n.message] ++ said n.turn.ending n.turn.rounds =
      before ++ [.ai content] := by
    rw [hanswers, said, ← List.append_assoc]
    exact ⟨_, rfl⟩
  have hclosing := @afterAgent_said spec mode history n.turn content hanswers
  change (afterAgent spec mode (history ++ [.human n.message] ++ _)).toList = _ at hclosing
  obtain ⟨before, hbefore⟩ := hlast
  have hrefused : refusedBy (history ++ [.human n.message] ++ said n.turn.ending n.turn.rounds) = none := by
    rw [hbefore, refusedBy_snoc]
    rfl
  have htext : lastText (history ++ [.human n.message] ++ said n.turn.ending n.turn.rounds) = content.text := by
    rw [hbefore, lastText_snoc]
    rfl
  have hafter := @runAfter_answered K spec mode _ n.gateNs hrefused
  rw [htext, replaced_eq hrefused, hclosing] at hafter
  have hopen := @runBefore_through K spec mode history n.message n.gateNs h
  unfold Narrated.run
  simp only [hopen, Bool.false_eq_true, if_false, hfailed, hraised, hfinal, hafter]
  rfl

/-- A turn that raises: nothing closes it. -/
theorem run_raised (h : ¬ Refused spec mode n.turn) (hraises : n.turn.ending.failed = true) :
    n.run spec mode history = (openCell mode (n.gateNs .guardIn) :: n.loopFrames,
      history ++ [.human n.message] ++ said n.turn.ending n.turn.rounds) := by
  obtain ⟨hfinal, hfailed⟩ := @loop_final n.turn.ending (history ++ [.human n.message]) n.turn.rounds
  have hopen := @runBefore_through K spec mode history n.message n.gateNs h
  unfold Narrated.run
  simp only [hopen, Bool.false_eq_true, if_false, hfailed, hraises, if_true, hfinal]
  rfl

theorem Narrated.raises (n : Narrated K) (h : n.ending.ending.failed = true) : n.turn.ending.failed = true := h

/-- What raises is not closed. -/
theorem closing_raised (h : n.turn.ending.failed = true) : closing spec mode n.turn = [] := by
  unfold closing
  cases hending : n.turn.ending with
  | answers content => rw [hending] at h; cases h
  | modelRaises | toolRaises => rfl

/-- The messages a narrated turn leaves are those of the turn. -/
theorem run_messages (spec : GuardSpec) (mode : Mode) (history : List Message) (n : Narrated K) :
    (n.run spec mode history).2 = (runTurn spec mode history n.turn).final := by
  by_cases hrefused : Refused spec mode n.turn
  · rw [run_refused hrefused, runTurn_refused hrefused]
    rfl
  · have hfinal := (@runTurn_through spec mode history n.turn hrefused).final
    rw [hfinal]
    cases hending : n.ending with
    | answers content call =>
      rw [run_through hrefused hending]
      rfl
    | modelRaises ns error message | toolRaises content call calls emitted interleaved =>
      have hraises := n.raises (by rw [hending]; rfl)
      rw [run_raised hrefused hraises, closing_raised hraises, List.append_nil]
      rfl

/-! ## Complete rails -/

/-- The frame of a gate, when what it did is known. -/
def StageEvent.Settled (kind : StageKind) (e : StageEvent K) : Prop := e.kind = kind ∧ e.status ≠ .start

instance (kind : StageKind) (e : StageEvent K) : Decidable (e.Settled kind) := inferInstanceAs (Decidable (_ ∧ _))

/-- One settled frame for each gate, around those of model and tools, and a last that says so; `blocked` says that a
gate refused. -/
structure Complete (refused replaced : Prop) (frames : List (StageEvent K)) : Prop where
  oneIn : frames.countP (fun e => e.Settled .guardIn) = 1
  oneOut : frames.countP (fun e => e.Settled .guardOut) = 1
  opens : ∀ before e after, frames = before ++ e :: after → e.kind = .model → e.status ≠ .skip →
    ∃ gate ∈ before, gate.Settled .guardIn
  closes : ∀ before e after, frames = before ++ e :: after → e.kind = .model ∨ e.kind = .tool →
    ∃ gate ∈ after, gate.Settled .guardOut
  refusedIn : (∃ gate ∈ frames, gate.kind = .guardIn ∧ gate.status = .blocked) ↔ refused
  refusedOut : (∃ gate ∈ frames, gate.kind = .guardOut ∧ gate.status = .blocked) ↔ replaced
  finished : frames.getLast? = some finish

theorem call_kind (call : ModelCall K) (calls : List String) : ∀ e ∈ call.frames calls, e.kind = .model := by
  intro e he
  rcases List.mem_cons.mp he with rfl | he
  · rfl
  · obtain rfl := List.mem_singleton.mp he
    rfl

theorem outcome_kind (tool : String) (outcome : ToolOutcome) :
    ∀ e ∈ (outcome.frames tool : List (StageEvent K)), e.kind = .tool := by
  intro e he
  cases outcome with
  | returned ns | raised ns error =>
    rcases List.mem_cons.mp he with rfl | he
    · rfl
    · obtain rfl := List.mem_singleton.mp he
      rfl
  | cut begun =>
    cases begun with
    | true =>
      obtain rfl := List.mem_singleton.mp he
      rfl
    | false => cases he

/-- What tools emit that run at the same time. -/
theorem emitted_kind {ls : List (List (StageEvent K))} {emitted : List (StageEvent K)} (h : Interleaved ls emitted)
    (hls : ∀ l ∈ ls, ∃ tool, ∃ outcome : ToolOutcome, l = outcome.frames tool) : ∀ e ∈ emitted, e.kind = .tool := by
  intro e he
  obtain ⟨l, hl, hmem⟩ := (h.mem_iff e).mp he
  obtain ⟨tool, outcome, rfl⟩ := hls l hl
  exact outcome_kind tool outcome e hmem

/-- What the loop emits is of the model and of tools. -/
theorem loopFrames_kind : ∀ e ∈ n.loopFrames, e.kind = .model ∨ e.kind = .tool := by
  intro e he
  rcases List.mem_append.mp he with he | he
  · obtain ⟨r, -, he⟩ := List.mem_flatMap.mp he
    rcases List.mem_append.mp he with he | he
    · exact Or.inl (call_kind _ _ e he)
    · refine Or.inr (emitted_kind r.interleaved (fun l hl => ?_) e he)
      obtain ⟨call, -, rfl⟩ := List.mem_map.mp hl
      exact ⟨_, _, rfl⟩
  · cases hending : n.ending with
    | answers content call =>
      rw [hending] at he
      exact Or.inl (call_kind _ _ e he)
    | modelRaises ns error message =>
      rw [hending] at he
      rcases List.mem_cons.mp he with rfl | he
      · exact Or.inl rfl
      · obtain rfl := List.mem_singleton.mp he
        exact Or.inl rfl
    | toolRaises content call calls emitted interleaved =>
      rw [hending] at he
      rcases List.mem_append.mp he with he | he
      · exact Or.inl (call_kind _ _ e he)
      · refine Or.inr (emitted_kind interleaved (fun l hl => ?_) e he)
        obtain ⟨call, -, rfl⟩ := List.mem_map.mp hl
        exact ⟨_, _, rfl⟩

theorem not_settled {e : StageEvent K} {kind other : StageKind} (h : e.kind = other) (hne : other ≠ kind) :
    ¬ e.Settled kind := by
  rintro ⟨hkind, -⟩
  exact hne (h.symm.trans hkind)

/-- A gate's cell, cells of model and tools, the other gate's cell, and the last. -/
theorem complete_of_cells {opened closed : StageEvent K} {cells : List (StageEvent K)} {refused replaced : Prop}
    (hopened : opened.Settled .guardIn) (hclosed : closed.Settled .guardOut)
    (hcells : ∀ e ∈ cells, e.kind = .model ∨ e.kind = .tool) (hrefused : opened.status = .blocked ↔ refused)
    (hreplaced : closed.status = .blocked ↔ replaced) :
    Complete refused replaced (opened :: cells ++ [closed, finish]) := by
  have hnone : ∀ kind, kind ≠ .model → kind ≠ .tool → cells.countP (fun e => e.Settled kind) = 0 := by
    intro kind hmodel htool
    refine List.countP_eq_zero.mpr fun e he => ?_
    rw [decide_eq_true_eq]
    rcases hcells e he with hkind | hkind
    · exact not_settled hkind hmodel.symm
    · exact not_settled hkind htool.symm
  have hmem : ∀ e ∈ opened :: cells ++ [closed, finish], e = opened ∨ (e.kind = .model ∨ e.kind = .tool) ∨
      e = closed ∨ e = finish := by
    intro e he
    rcases List.mem_append.mp he with he | he
    · exact (List.mem_cons.mp he).imp id fun he => Or.inl (hcells e he)
    · exact Or.inr (Or.inr (List.mem_pair.mp he))
  constructor
  case oneIn =>
    have hother : ¬ closed.Settled .guardIn := not_settled hclosed.1 nofun
    have hlast : ¬ (finish : StageEvent K).Settled .guardIn := not_settled rfl nofun
    rw [List.cons_append, List.countP_cons, List.countP_append, hnone .guardIn nofun nofun]
    simp [hopened, hother, hlast]
  case oneOut =>
    have hother : ¬ opened.Settled .guardOut := not_settled hopened.1 nofun
    have hlast : ¬ (finish : StageEvent K).Settled .guardOut := not_settled rfl nofun
    rw [List.cons_append, List.countP_cons, List.countP_append, hnone .guardOut nofun nofun]
    simp [hclosed, hother, hlast]
  case opens =>
    intro before e after heq hmodel _
    cases before with
    | nil =>
      obtain rfl : opened = e := List.head_eq_of_cons_eq heq
      rw [hopened.1] at hmodel
      cases hmodel
    | cons first before =>
      obtain rfl : opened = first := List.head_eq_of_cons_eq heq
      exact ⟨opened, List.mem_cons_self, hopened⟩
  case closes =>
    intro before e after heq hkind
    have hne : e ≠ closed ∧ e ≠ finish := by
      constructor
      · rintro rfl
        rw [hclosed.1] at hkind
        exact hkind.elim nofun nofun
      · rintro rfl
        exact hkind.elim nofun nofun
    rcases List.append_eq_append_iff.mp heq with ⟨front, -, hend⟩ | ⟨rest, -, hend⟩
    · -- such a frame is not among the last two
      have he : e ∈ [closed, finish] := hend ▸ List.mem_append_right front List.mem_cons_self
      exact absurd (List.mem_pair.mp he) (not_or.mpr hne)
    · cases rest with
      | nil => exact absurd (List.head_eq_of_cons_eq hend) hne.1
      | cons first rest =>
        obtain ⟨-, rfl⟩ := List.cons.inj hend
        exact ⟨closed, by simp, hclosed⟩
  case refusedIn =>
    rw [← hrefused]
    constructor
    · rintro ⟨gate, hgate, hkind, hblocked⟩
      rcases hmem gate hgate with rfl | hother | rfl | rfl
      · exact hblocked
      · rw [hkind] at hother
        exact hother.elim nofun nofun
      · rw [hclosed.1] at hkind
        cases hkind
      · cases hkind
    · exact fun hblocked => ⟨opened, List.mem_cons_self, hopened.1, hblocked⟩
  case refusedOut =>
    rw [← hreplaced]
    constructor
    · rintro ⟨gate, hgate, hkind, hblocked⟩
      rcases hmem gate hgate with rfl | hother | rfl | rfl
      · rw [hopened.1] at hkind
        cases hkind
      · rw [hkind] at hother
        exact hother.elim nofun nofun
      · exact hblocked
      · cases hkind
    · exact fun hblocked => ⟨closed, by simp, hclosed.1, hblocked⟩
  case finished =>
    rw [List.getLast?_append_of_ne_nil _ (List.cons_ne_nil _ _)]
    rfl

/-- **The rail of every turn that raises nothing is complete.** -/
theorem rail_complete (spec : GuardSpec) (mode : Mode) (history : List Message) (n : Narrated K) (content : Content)
    (call : ModelCall K) (hending : n.ending = .answers content call) :
    Complete (.guardIn ∈ mode.mounts ∧ ¬ Passes spec.inputCheck n.message)
      (.guardOut ∈ mode.mounts ∧ ¬ (.guardIn ∈ mode.mounts ∧ ¬ Passes spec.inputCheck n.message) ∧
        ¬ Passes spec.outputCheck content.text)
      (n.run spec mode history).1 := by
  by_cases hrefused : Refused spec mode n.turn
  · rw [run_refused hrefused]
    have hskip : ∀ e ∈ [(modelSkip : StageEvent K)], e.kind = .model ∨ e.kind = .tool :=
      List.forall_mem_singleton.mpr (Or.inl rfl)
    have hblocked : (Gate.guardIn.frame .blocked (n.gateNs .guardIn)
        (some (.violations (spec.inputCheck n.message))) : StageEvent K).Settled .guardIn := ⟨rfl, nofun⟩
    have hskipped : (Gate.guardOut.frame .skip : StageEvent K).Settled .guardOut := ⟨rfl, nofun⟩
    refine complete_of_cells hblocked hskipped hskip ?_ ?_
    · exact ⟨fun _ => hrefused, fun _ => rfl⟩
    · exact ⟨nofun, fun h => absurd hrefused h.2.1⟩
  · rw [run_through hrefused hending]
    obtain ⟨hopen, hopenSettled, hopenPassed⟩ := @openCell_kind K mode (n.gateNs .guardIn)
    refine complete_of_cells ⟨hopen, hopenSettled⟩ (closeCell_kind _ _) loopFrames_kind ?_ ?_
    · exact ⟨fun h => absurd h hopenPassed, fun h => absurd h hrefused⟩
    · rw [closeCell_blocked]
      exact ⟨fun h => ⟨h.1, hrefused, h.2⟩, fun h => ⟨h.1, h.2.2⟩⟩

/-- A turn that searches once, and whose answer gives a secret away. -/
def searchedTurn : Narrated Unit where
  message := "conta"
  gateNs _ := 1600
  rounds := [{ content := .str "", call := ⟨900000000, ⟨1200, 40, none⟩⟩, calls := [("search_docs", 2000000)],
               results := [.str "README.md"], emitted := (ToolOutcome.returned 2000000).frames "search_docs",
               interleaved := .single _ }]
  ending := .answers (.str "segredo") ⟨1470000000, ⟨1400, 60, none⟩⟩

theorem rail_complete_sample :
    Complete (.guardIn ∈ Mode.both.mounts ∧ ¬ Passes noSecret.inputCheck searchedTurn.message)
      (.guardOut ∈ Mode.both.mounts ∧
        ¬ (.guardIn ∈ Mode.both.mounts ∧ ¬ Passes noSecret.inputCheck searchedTurn.message) ∧
        ¬ Passes noSecret.outputCheck (Content.str "segredo").text)
      (searchedTurn.run noSecret .both []).1 :=
  rail_complete noSecret .both [] searchedTurn (.str "segredo") ⟨1470000000, ⟨1400, 60, none⟩⟩ rfl

end BankingControlPlane
