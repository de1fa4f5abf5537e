import BankingControlPlane.Runtime.Turns

/-!
# What the gates keep out

* `utterances` : the user messages in a list; a run adds the turn's own and no other;
* `input_gate` : no request holds a user message the input check refuses, exactly when no message that
  passes comes after one that does not;
* `Clean` : a turn whose replies and refusals pass the output check; `output_gate` : every assistant text a
  client is shown passes it, exactly when every turn is clean.
-/

namespace BankingControlPlane

variable {spec : GuardSpec} {mode : Mode} {ending : Ending} {history messages : List Message}

/-! ## One turn -/

/-- What the agent adds to the messages it is given. -/
def said (ending : Ending) (rounds : List ToolRound) : List Message :=
  rounds.flatMap (fun round => .ai round.content round.calls :: round.results.map .tool) ++
    match ending with
    | .answers content => [.ai content]
    | .modelRaises => []
    | .toolRaises content calls => [.ai content calls]

def Ending.failed : Ending → Bool
  | .answers _ => false
  | .modelRaises | .toolRaises _ _ => true

theorem said_cons (round : ToolRound) (rest : List ToolRound) :
    said ending (round :: rest) =
      .ai round.content round.calls :: round.results.map .tool ++ said ending rest := by
  simp [said]

theorem said_kind {rounds : List ToolRound} : ∀ m ∈ said ending rounds, m.kind ≠ .human := by
  intro m hm
  rcases List.mem_append.mp hm with hm | hm
  · obtain ⟨round, -, hm⟩ := List.mem_flatMap.mp hm
    rcases List.mem_cons.mp hm with rfl | hm
    · exact fun h => by cases h
    · obtain ⟨content, -, rfl⟩ := List.mem_map.mp hm
      exact fun h => by cases h
  · cases ending with
    | answers content => rw [List.mem_singleton.mp hm]; exact fun h => by cases h
    | modelRaises => cases hm
    | toolRaises content calls => rw [List.mem_singleton.mp hm]; exact fun h => by cases h

/-- What the loop leaves. -/
theorem loop_final (rounds : List ToolRound) :
    (loop ending rounds messages).final = messages ++ said ending rounds ∧
      (loop ending rounds messages).failed = ending.failed := by
  induction rounds generalizing messages with
  | nil => cases ending <;> simp [loop, said, Ending.failed]
  | cons round rest ih =>
    obtain ⟨hfinal, hfailed⟩ := @ih (messages ++ [.ai round.content round.calls] ++ round.results.map .tool)
    have heq : (loop ending (round :: rest) messages).final = (loop ending rest
      (messages ++ [.ai round.content round.calls] ++ round.results.map .tool)).final := rfl
    refine ⟨?_, hfailed⟩
    rw [heq, hfinal, said_cons]
    simp

/-- What the loop saves on its way. -/
theorem loop_states (rounds : List ToolRound) : ∀ state ∈ (loop ending rounds messages).states,
    state <+: (loop ending rounds messages).final := by
  induction rounds generalizing messages with
  | nil => cases ending <;> simp [loop]
  | cons round rest ih =>
    intro state hstate
    have hfinal := (@loop_final ending
      (messages ++ [.ai round.content round.calls] ++ round.results.map .tool) rest).1
    simp only [loop, List.mem_cons] at hstate ⊢
    rw [hfinal]
    rcases hstate with rfl | rfl | hstate
    · rw [List.append_assoc (messages ++ _)]
      exact List.prefix_append _ _
    · exact List.prefix_append _ _
    · rw [← hfinal]
      exact ih state hstate

theorem loop_saved (rounds : List ToolRound) :
    (loop ending rounds messages).final ∈ messages :: (loop ending rounds messages).states := by
  induction rounds generalizing messages with
  | nil => cases ending <;> simp [loop]
  | cons round rest ih =>
    have hsaved := @ih (messages ++ [.ai round.content round.calls] ++ round.results.map .tool)
    simp only [loop, List.mem_cons] at hsaved ⊢
    exact Or.inr (Or.inr hsaved)

theorem afterAgent_refusal (gate : Gate) (text : String) :
    afterAgent spec mode (messages ++ [.refusal gate text]) = none := by
  unfold afterAgent OutputGuard.aafterAgent
  rw [refusedBy_snoc]
  split_ifs <;> rfl

theorem beforeAgent_human (text : String) :
    beforeAgent spec mode (messages ++ [.human text]) =
      if .guardIn ∈ mode.mounts ∧ ¬ Passes spec.inputCheck text
      then some (.refusal .guardIn (spec.inputReplacement.apply text)) else none := by
  unfold beforeAgent InputGuard.abeforeAgent
  rw [lastText_snoc]
  by_cases hmounts : Gate.guardIn ∈ mode.mounts
  · by_cases hpasses : Passes spec.inputCheck text
    · simp [hmounts, hpasses, Message.human, Content.text]
    · simp [hmounts, hpasses, Message.human, Content.text]
  · simp [hmounts]

/-- The input gate refuses the turn. -/
def Refused (spec : GuardSpec) (mode : Mode) (turn : Turn) : Prop :=
  .guardIn ∈ mode.mounts ∧ ¬ Passes spec.inputCheck turn.message

instance (spec : GuardSpec) (mode : Mode) (turn : Turn) : Decidable (Refused spec mode turn) :=
  inferInstanceAs (Decidable (_ ∧ _))

/-- A refused turn: the model is not asked, and nothing more is screened. -/
theorem runTurn_refused {turn : Turn} (h : Refused spec mode turn) :
    runTurn spec mode history turn =
      let start := history ++ [.human turn.message]
      let refused := start ++ [.refusal .guardIn (spec.inputReplacement.apply turn.message)]
      { requests := [], states := [start, refused], final := refused, failed := false } := by
  have hbefore := (@beforeAgent_human spec mode history turn.message).trans (if_pos h)
  have hafter := @afterAgent_refusal spec mode (history ++ [.human turn.message]) .guardIn
    (spec.inputReplacement.apply turn.message)
  unfold runTurn
  simp only [hbefore, close, Bool.false_eq_true, if_false, hafter]

/-- What the output gate makes of the answer a turn ends with. -/
def closing (spec : GuardSpec) (mode : Mode) (turn : Turn) : List Message :=
  match turn.ending with
  | .answers content =>
    if .guardOut ∈ mode.mounts ∧ ¬ Passes spec.outputCheck content.text
    then [.refusal .guardOut (spec.outputReplacement.apply turn.message)] else []
  | _ => []

theorem afterAgent_said {turn : Turn} {content : Content} (hending : turn.ending = .answers content) :
    (afterAgent spec mode (history ++ [.human turn.message] ++ said turn.ending turn.rounds)).toList =
      closing spec mode turn := by
  have hlast : ∃ before, history ++ [.human turn.message] ++ said turn.ending turn.rounds =
      before ++ [.ai content] := by
    rw [hending, said, ← List.append_assoc]
    exact ⟨_, rfl⟩
  have huser : lastUserText (history ++ [.human turn.message] ++ said turn.ending turn.rounds) =
      turn.message := by
    rw [List.append_assoc]
    exact lastUserText_append history turn.message said_kind
  obtain ⟨before, hbefore⟩ := hlast
  unfold afterAgent OutputGuard.aafterAgent closing
  rw [huser, hbefore, refusedBy_snoc, lastText_snoc, hending]
  by_cases hmounts : Gate.guardOut ∈ mode.mounts
  · by_cases hpasses : Passes spec.outputCheck content.text
    · simp [hmounts, hpasses, Message.ai]
    · simp [hmounts, hpasses, Message.ai]
  · simp [hmounts]

/-- A turn that is let through. -/
structure Through (spec : GuardSpec) (mode : Mode) (history : List Message) (turn : Turn) (run : TurnRun) :
    Prop where
  requests : run.requests =
    (loop turn.ending turn.rounds (history ++ [.human turn.message])).requests
  failed : run.failed = turn.ending.failed
  final : run.final = history ++ [.human turn.message] ++ said turn.ending turn.rounds ++
    closing spec mode turn
  saved : run.final ∈ run.states
  states : ∀ state ∈ run.states, state <+: run.final

theorem runTurn_through {turn : Turn} (h : ¬ Refused spec mode turn) :
    Through spec mode history turn (runTurn spec mode history turn) := by
  have hbefore := (@beforeAgent_human spec mode history turn.message).trans (if_neg h)
  obtain ⟨hfinal, hfailed⟩ := @loop_final turn.ending (history ++ [.human turn.message]) turn.rounds
  have hsaved := @loop_saved turn.ending (history ++ [.human turn.message]) turn.rounds
  have hstates := @loop_states turn.ending (history ++ [.human turn.message]) turn.rounds
  have hstart : history ++ [.human turn.message] <+:
      (loop turn.ending turn.rounds (history ++ [.human turn.message])).final := by
    rw [hfinal]
    exact List.prefix_append _ _
  have hextends : ∀ state ∈ (history ++ [.human turn.message]) ::
      (loop turn.ending turn.rounds (history ++ [.human turn.message])).states,
      state <+: (loop turn.ending turn.rounds (history ++ [.human turn.message])).final := by
    intro state hstate
    rcases List.mem_cons.mp hstate with rfl | hstate
    · exact hstart
    · exact hstates state hstate
  unfold runTurn
  simp only [hbefore, close]
  by_cases hraised : turn.ending.failed = true
  · -- the gate at the end is not reached
    have hclosing : closing spec mode turn = [] := by
      unfold closing
      cases hending : turn.ending with
      | answers content => rw [hending] at hraised; cases hraised
      | modelRaises => rfl
      | toolRaises content calls => rfl
    rw [hfailed, if_pos hraised]
    exact ⟨rfl, rfl, by rw [hclosing, List.append_nil]; exact hfinal, hsaved, hextends⟩
  · rw [hfailed, if_neg hraised]
    cases hending : turn.ending with
    | modelRaises => rw [hending] at hraised; exact absurd rfl hraised
    | toolRaises content calls => rw [hending] at hraised; exact absurd rfl hraised
    | answers content =>
      have hafter := @afterAgent_said spec mode history turn content hending
      rw [← hfinal] at hafter
      rw [← hending]
      cases hclose : afterAgent spec mode
          (loop turn.ending turn.rounds (history ++ [.human turn.message])).final with
      | none =>
        rw [hclose] at hafter
        exact ⟨rfl, rfl, by rw [← hafter]; simpa using hfinal, hsaved, hextends⟩
      | some refusal =>
        rw [hclose] at hafter
        refine ⟨rfl, rfl, by rw [← hafter, ← hfinal]; rfl, by simp, fun state hstate => ?_⟩
        rcases List.mem_append.mp hstate with hstate | hstate
        · exact (hextends state hstate).trans (List.prefix_append _ _)
        · obtain rfl := List.mem_singleton.mp hstate
          exact List.prefix_refl _

/-! ## User messages in the model's requests -/

/-- The user messages in a list. -/
def utterances (messages : List Message) : List String :=
  (messages.filter fun m => m.kind = .human).map fun m => m.content.text

@[simp] theorem utterances_append (xs ys : List Message) :
    utterances (xs ++ ys) = utterances xs ++ utterances ys := by
  simp [utterances]

@[simp] theorem utterances_human (text : String) : utterances [.human text] = [text] := rfl

theorem utterances_none {messages : List Message} (h : ∀ m ∈ messages, m.kind ≠ .human) :
    utterances messages = [] := by
  rw [utterances, List.filter_eq_nil_iff.mpr fun m hm => by simpa using h m hm]
  rfl

theorem closing_kind {turn : Turn} : ∀ m ∈ closing spec mode turn, m.kind ≠ .human := by
  intro m hm
  unfold closing at hm
  cases hending : turn.ending with
  | answers content =>
    rw [hending] at hm
    dsimp only at hm
    split_ifs at hm
    · rw [List.mem_singleton.mp hm]
      exact fun h => by cases h
    · cases hm
  | modelRaises => rw [hending] at hm; cases hm
  | toolRaises content calls => rw [hending] at hm; cases hm

/-- Every request of the loop holds the user messages it started from, and there is one. -/
theorem loop_requests (rounds : List ToolRound) :
    messages ∈ (loop ending rounds messages).requests ∧
      ∀ request ∈ (loop ending rounds messages).requests, utterances request = utterances messages := by
  induction rounds generalizing messages with
  | nil => cases ending <;> simp [loop]
  | cons round rest ih =>
    have hrest := (@ih (messages ++ [.ai round.content round.calls] ++ round.results.map .tool)).2
    have htools : utterances (round.results.map Message.tool) = [] :=
      utterances_none fun m hm => by
        obtain ⟨content, -, rfl⟩ := List.mem_map.mp hm
        exact fun h => by cases h
    have hai : utterances [Message.ai round.content round.calls] = [] := rfl
    refine ⟨List.mem_cons_self, fun request hrequest => ?_⟩
    rcases List.mem_cons.mp hrequest with rfl | hrequest
    · rfl
    · rw [hrest request hrequest, utterances_append, utterances_append, htools, hai]
      simp

theorem runTurn_utterances (turn : Turn) :
    utterances (runTurn spec mode history turn).final = utterances history ++ [turn.message] := by
  by_cases h : Refused spec mode turn
  · rw [runTurn_refused h]
    simp [utterances, Message.human, Message.refusal, Content.text]
  · rw [(runTurn_through h).final, utterances_append, utterances_append, utterances_append, utterances_human,
      utterances_none said_kind, utterances_none closing_kind, List.append_nil, List.append_nil]

/-- No request of these runs holds a user message the input check refuses. -/
def KeptOut (spec : GuardSpec) (runs : List TurnRun) : Prop :=
  ∀ run ∈ runs, ∀ request ∈ run.requests, ∀ text ∈ utterances request, Passes spec.inputCheck text

/-- The requests of one turn, next to what was said before. -/
theorem runTurn_keptOut (hmode : .guardIn ∈ mode.mounts) (turn : Turn) :
    (∀ request ∈ (runTurn spec mode history turn).requests, ∀ text ∈ utterances request,
        Passes spec.inputCheck text) ↔
      (Passes spec.inputCheck turn.message → ∀ text ∈ utterances history, Passes spec.inputCheck text) := by
  by_cases hpasses : Passes spec.inputCheck turn.message
  · have hthrough : ¬ Refused spec mode turn := fun h => h.2 hpasses
    obtain ⟨hmem, hall⟩ := @loop_requests turn.ending (history ++ [.human turn.message]) turn.rounds
    rw [(runTurn_through hthrough).requests]
    constructor
    · intro h _ text htext
      exact h _ hmem text (by simp [htext])
    · intro h request hrequest text htext
      rw [hall request hrequest, utterances_append, utterances_human, List.mem_append,
        List.mem_singleton] at htext
      rcases htext with htext | rfl
      · exact h hpasses text htext
      · exact hpasses
  · rw [runTurn_refused ⟨hmode, hpasses⟩]
    exact iff_of_true (fun _ h => by cases h) fun h => absurd h hpasses

/-- **Refused user messages reach the model** exactly when one that passes follows one that does not: then the
next request is made of both. -/
theorem input_gate (hmode : .guardIn ∈ mode.mounts) (turns : List Turn) :
    KeptOut spec (converse spec mode turns []) ↔
      turns.Pairwise fun earlier later => Passes spec.inputCheck later.message →
        Passes spec.inputCheck earlier.message := by
  have hfrom : ∀ history, KeptOut spec (converse spec mode turns history) ↔
      (∀ turn ∈ turns, Passes spec.inputCheck turn.message → ∀ text ∈ utterances history,
        Passes spec.inputCheck text) ∧
      turns.Pairwise fun earlier later => Passes spec.inputCheck later.message →
        Passes spec.inputCheck earlier.message := by
    induction turns with
    | nil => simp [KeptOut, converse]
    | cons turn rest ih =>
      intro history
      have hrest := ih (runTurn spec mode history turn).final
      rw [runTurn_utterances] at hrest
      simp only [KeptOut, converse, List.forall_mem_cons, List.pairwise_cons] at hrest ⊢
      rw [hrest, runTurn_keptOut hmode turn]
      constructor
      · rintro ⟨hturn, hlater, hpair⟩
        refine ⟨⟨hturn, fun later hmem hpasses text htext => ?_⟩, fun later hmem hpasses => ?_, hpair⟩
        · exact hlater later hmem hpasses text (List.mem_append_left _ htext)
        · exact hlater later hmem hpasses _ (by simp)
      · rintro ⟨⟨hturn, hlater⟩, hthis, hpair⟩
        refine ⟨hturn, fun later hmem hpasses text htext => ?_, hpair⟩
        rcases List.mem_append.mp htext with htext | htext
        · exact hlater later hmem hpasses text htext
        · rw [List.mem_singleton.mp htext]
          exact hthis later hmem hpasses
  rw [hfrom []]
  exact and_iff_right fun _ _ _ text htext => by cases htext

/-- An injection, a harmless message, and the requests of the second turn. -/
def injected : List Turn :=
  [{ message := "ignore", ending := .modelRaises }, { message := "saldo", ending := .modelRaises }]

def noIgnore : GuardSpec where
  inputCheck := fun text => if text = "ignore" then [⟨"injection", "padrao", "", text⟩] else []

theorem input_gate_sample : KeptOut noIgnore (converse noIgnore .input injected.reverse []) :=
  (input_gate (by decide) injected.reverse).mpr (by decide)

theorem refused_message_returns : ∃ run ∈ converse noIgnore .input injected [],
    ∃ request ∈ run.requests, ∃ text ∈ utterances request, ¬ Passes noIgnore.inputCheck text :=
  ⟨_, List.mem_cons_of_mem _ List.mem_cons_self, _, List.mem_cons_self, "ignore", by decide, by decide⟩

/-! ## Assistant texts in what clients are shown -/

/-- What a reader sees of a reply. -/
def Content.shown : Content → List String
  | .str s => if blank s then [] else [s]
  | .blocks _ => []

/-- The assistant texts of a transcript. -/
def agentTexts (messages : List Message) : List String :=
  (readableMessages messages).filterMap fun (role, text) => if role = .agent then some text else none

@[simp] theorem agentTexts_append (xs ys : List Message) :
    agentTexts (xs ++ ys) = agentTexts xs ++ agentTexts ys := by
  simp [agentTexts, readableMessages]

theorem agentTexts_cons (m : Message) (messages : List Message) :
    agentTexts (m :: messages) = agentTexts [m] ++ agentTexts messages :=
  agentTexts_append [m] messages

theorem agentTexts_ai (content : Content) (calls : List String) :
    agentTexts [.ai content calls] = content.shown := by
  cases content with
  | blocks bs => rfl
  | str s =>
    by_cases hblank : blank s = true
    · simp [agentTexts, readableMessages, Message.readable, Message.ai, Content.shown, hblank]
    · simp [agentTexts, readableMessages, Message.readable, Message.ai, Content.shown, hblank]

theorem agentTexts_refusal (gate : Gate) (text : String) :
    agentTexts [.refusal gate text] = (Content.str text).shown :=
  agentTexts_ai (.str text) []

theorem agentTexts_none {messages : List Message} (h : ∀ m ∈ messages, m.kind ≠ .ai) :
    agentTexts messages = [] := by
  induction messages with
  | nil => rfl
  | cons m rest ih =>
    obtain ⟨hm, hrest⟩ := List.forall_mem_cons.mp h
    rw [agentTexts_cons, ih hrest, List.append_nil]
    obtain ⟨kind, content, calls, gate⟩ := m
    cases content with
    | blocks bs => rfl
    | str s => cases kind <;> by_cases hblank : blank s = true <;>
        simp_all [agentTexts, readableMessages, Message.readable]

@[simp] theorem agentTexts_human (text : String) : agentTexts [.human text] = [] :=
  agentTexts_none fun m hm h => by rw [List.mem_singleton.mp hm] at h; cases h

theorem mem_shown {content : Content} {text : String} (h : text ∈ content.shown) : text = content.text := by
  cases content with
  | blocks bs => cases h
  | str s =>
    rw [Content.shown] at h
    split_ifs at h
    · cases h
    · exact List.mem_singleton.mp h

/-- The assistant texts a client is shown of one turn: its answer, and the transcript of any state the
checkpointer had. -/
def TurnRun.shown (run : TurnRun) : List String :=
  run.answer.toList ++ run.states.flatMap agentTexts

/-- Every assistant text a client is shown passes the output check. -/
def Screened (spec : GuardSpec) (runs : List TurnRun) : Prop :=
  ∀ run ∈ runs, ∀ text ∈ run.shown, Passes spec.outputCheck text

/-- What the model replies in a turn. -/
def Turn.replies (turn : Turn) : List Content :=
  turn.rounds.map (·.content) ++
    match turn.ending with
    | .answers content => [content]
    | .modelRaises => []
    | .toolRaises content _ => [content]

/-- The answer the output gate is asked about. -/
def Ending.answer? : Ending → Option Content
  | .answers content => some content
  | .modelRaises | .toolRaises _ _ => none

/-- A turn in which nothing a reader sees needed the output gate: the replies pass, and so do the texts that
the gates answer with. -/
def Clean (spec : GuardSpec) (mode : Mode) (turn : Turn) : Prop :=
  if Refused spec mode turn then Passes spec.outputCheck (spec.inputReplacement.apply turn.message)
  else (∀ content ∈ turn.replies, ∀ text ∈ content.shown, Passes spec.outputCheck text) ∧
    ∀ content ∈ turn.ending.answer?, ¬ Passes spec.outputCheck content.text →
      Passes spec.outputCheck (spec.outputReplacement.apply turn.message)

instance (spec : GuardSpec) (mode : Mode) (turn : Turn) : Decidable (Clean spec mode turn) :=
  inferInstanceAs (Decidable (ite _ _ _))

theorem agentTexts_said (turn : Turn) :
    agentTexts (said turn.ending turn.rounds) = turn.replies.flatMap Content.shown := by
  unfold Turn.replies
  induction turn.rounds with
  | nil =>
    cases turn.ending with
    | answers content => simp [said, agentTexts_ai]
    | modelRaises => rfl
    | toolRaises content calls => simp [said, agentTexts_ai]
  | cons round rest ih =>
    have htools : agentTexts (round.results.map Message.tool) = [] :=
      agentTexts_none fun m hm => by
        obtain ⟨content, -, rfl⟩ := List.mem_map.mp hm
        exact fun h => by cases h
    rw [said_cons, List.cons_append, agentTexts_cons, agentTexts_ai, agentTexts_append, htools, ih]
    simp

/-- What a turn shows, when every state of it is part of the last. -/
theorem shown_pass {run : TurnRun} (hsaved : run.final ∈ run.states)
    (hstates : ∀ state ∈ run.states, state <+: run.final) :
    (∀ text ∈ run.shown, Passes spec.outputCheck text) ↔
      (∀ text ∈ run.answer, Passes spec.outputCheck text) ∧
        ∀ text ∈ agentTexts run.final, Passes spec.outputCheck text := by
  unfold TurnRun.shown
  constructor
  · intro h
    refine ⟨fun text htext => h text (List.mem_append_left _ (by simpa using htext)), fun text htext => ?_⟩
    exact h text (List.mem_append_right _ (List.mem_flatMap.mpr ⟨_, hsaved, htext⟩))
  · rintro ⟨hanswer, hfinal⟩ text htext
    rcases List.mem_append.mp htext with htext | htext
    · exact hanswer text (by simpa using htext)
    · obtain ⟨state, hstate, htext⟩ := List.mem_flatMap.mp htext
      obtain ⟨rest, hrest⟩ := hstates state hstate
      exact hfinal text (by rw [← hrest, agentTexts_append]; exact List.mem_append_left _ htext)

/-- What a refused turn shows. -/
theorem refused_shown {turn : Turn} (h : Refused spec mode turn)
    (hhistory : ∀ text ∈ agentTexts history, Passes spec.outputCheck text) :
    (∀ text ∈ (runTurn spec mode history turn).shown, Passes spec.outputCheck text) ↔
      Clean spec mode turn := by
  rw [Clean, if_pos h, runTurn_refused h]
  dsimp only
  rw [shown_pass (by simp) (by simp)]
  simp only [TurnRun.answer, Bool.false_eq_true, if_false]
  rw [finalText_snoc _ rfl]
  constructor
  · rintro ⟨hanswer, -⟩
    exact hanswer _ rfl
  · intro hclean
    refine ⟨fun text htext => ?_, fun text htext => ?_⟩
    · cases htext
      exact hclean
    · rw [agentTexts_append, agentTexts_append, agentTexts_human, List.append_nil, agentTexts_refusal] at htext
      rcases List.mem_append.mp htext with htext | htext
      · exact hhistory text htext
      · rw [mem_shown htext]
        exact hclean

/-- What the answer of a turn adds to its replies: the text of the gate, where that is one. -/
theorem closing_texts {turn : Turn} : ∀ text ∈ agentTexts (closing spec mode turn),
    ∃ content ∈ turn.ending.answer?, ¬ Passes spec.outputCheck content.text ∧
      text = spec.outputReplacement.apply turn.message := by
  intro text htext
  unfold closing at htext
  cases hending : turn.ending with
  | answers content =>
    rw [hending] at htext
    dsimp only at htext
    split_ifs at htext with hblocked
    · rw [agentTexts_refusal] at htext
      exact ⟨content, rfl, hblocked.2, mem_shown htext⟩
    · cases htext
  | modelRaises => rw [hending] at htext; cases htext
  | toolRaises content calls => rw [hending] at htext; cases htext

/-- The answer of a turn that is let through. -/
theorem through_answer (hmode : .guardOut ∈ mode.mounts) {turn : Turn} {run : TurnRun}
    (hrun : Through spec mode history turn run) :
    (∀ text ∈ run.answer, Passes spec.outputCheck text) ↔
      ∀ content ∈ turn.ending.answer?, ¬ Passes spec.outputCheck content.text →
        Passes spec.outputCheck (spec.outputReplacement.apply turn.message) := by
  have hfinal := hrun.final
  unfold TurnRun.answer
  rw [hrun.failed]
  unfold closing said at hfinal
  cases hending : turn.ending with
  | modelRaises => simp [Ending.failed, Ending.answer?]
  | toolRaises content calls => simp [Ending.failed, Ending.answer?]
  | answers content =>
    simp only [hending, Ending.failed, Bool.false_eq_true, if_false, hmode, true_and] at hfinal ⊢
    by_cases hpasses : Passes spec.outputCheck content.text
    · -- the answer stands as the model gave it
      rw [if_neg (not_not_intro hpasses), List.append_nil, ← List.append_assoc] at hfinal
      rw [hfinal, finalText_snoc _ rfl]
      refine iff_of_true (fun text htext => ?_) fun content' heq hblocked => ?_
      · cases htext
        exact hpasses
      · cases heq
        exact absurd hpasses hblocked
    · rw [if_pos hpasses] at hfinal
      rw [hfinal, finalText_snoc _ rfl]
      constructor
      · intro h content' _ _
        exact h _ rfl
      · intro h text htext
        cases htext
        exact h content rfl hpasses

theorem through_shown (hmode : .guardOut ∈ mode.mounts) {turn : Turn} (h : ¬ Refused spec mode turn)
    (hhistory : ∀ text ∈ agentTexts history, Passes spec.outputCheck text) :
    (∀ text ∈ (runTurn spec mode history turn).shown, Passes spec.outputCheck text) ↔
      Clean spec mode turn := by
  have hrun : Through spec mode history turn (runTurn spec mode history turn) := runTurn_through h
  rw [Clean, if_neg h, shown_pass hrun.saved hrun.states, through_answer hmode hrun, hrun.final, and_comm]
  refine and_congr_left fun hanswer => ?_
  simp only [agentTexts_append, agentTexts_human, agentTexts_said, List.append_nil]
  constructor
  · intro hall content hcontent text htext
    have hreply : text ∈ turn.replies.flatMap Content.shown := List.mem_flatMap.mpr ⟨content, hcontent, htext⟩
    exact hall text (List.mem_append_left _ (List.mem_append_right _ hreply))
  · intro hreplies text htext
    rcases List.mem_append.mp htext with htext | htext
    · rcases List.mem_append.mp htext with htext | htext
      · exact hhistory text htext
      · obtain ⟨content, hcontent, htext⟩ := List.mem_flatMap.mp htext
        exact hreplies content hcontent text htext
    · obtain ⟨content, hending, hblocked, rfl⟩ := closing_texts text htext
      exact hanswer content hending hblocked

/-- What a turn shows of a thread that showed nothing blocked so far. -/
theorem runTurn_shown (hmode : .guardOut ∈ mode.mounts) (turn : Turn)
    (hhistory : ∀ text ∈ agentTexts history, Passes spec.outputCheck text) :
    (∀ text ∈ (runTurn spec mode history turn).shown, Passes spec.outputCheck text) ↔
      Clean spec mode turn := by
  by_cases h : Refused spec mode turn
  · exact refused_shown h hhistory
  · exact through_shown hmode h hhistory

theorem runTurn_saved (turn : Turn) :
    (runTurn spec mode history turn).final ∈ (runTurn spec mode history turn).states := by
  by_cases h : Refused spec mode turn
  · rw [runTurn_refused h]
    simp
  · exact (runTurn_through h).saved

/-- **Assistant texts the output check refuses are shown** exactly when some turn is not clean: a reply the
gate answers for, or one it does not look at, stays in the transcript. -/
theorem output_gate (hmode : .guardOut ∈ mode.mounts) (turns : List Turn) :
    Screened spec (converse spec mode turns []) ↔ ∀ turn ∈ turns, Clean spec mode turn := by
  have hfrom : ∀ history, (∀ text ∈ agentTexts history, Passes spec.outputCheck text) →
      (Screened spec (converse spec mode turns history) ↔ ∀ turn ∈ turns, Clean spec mode turn) := by
    induction turns with
    | nil => simp [Screened, converse]
    | cons turn rest ih =>
      intro history hhistory
      rw [List.forall_mem_cons, ← runTurn_shown hmode turn hhistory]
      unfold Screened converse
      rw [List.forall_mem_cons]
      refine and_congr_right fun hshown => ih _ fun text htext => hshown text ?_
      have hsaved := @runTurn_saved spec mode history turn
      exact List.mem_append_right _ (List.mem_flatMap.mpr ⟨_, hsaved, htext⟩)
  exact hfrom [] fun text htext => by cases htext

def noSecret : GuardSpec where
  outputCheck := fun text => if text = "segredo" then [⟨"saida", "padrao", "", text⟩] else []

theorem output_gate_sample : Screened noSecret (converse noSecret .output
    [{ message := "saldo", ending := .answers (.str "R$ 10") }] []) :=
  (output_gate (by decide) _).mpr (by decide)

/-- The answer is replaced, and the transcript still has it. -/
theorem blocked_answer_returns : ∃ run ∈ converse noSecret .output
    [{ message := "conta", ending := .answers (.str "segredo") }] [],
    run.answer = some "Não posso responder isso." ∧
      ∃ text ∈ agentTexts run.final, ¬ Passes noSecret.outputCheck text :=
  ⟨_, List.mem_cons_self, by decide, "segredo", by decide, by decide⟩

end BankingControlPlane
