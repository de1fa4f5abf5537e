import BankingControlPlane.Evals.Assertions
import BankingControlPlane.Safety.Endpoints
import BankingControlPlane.Safety.Rail
import BankingControlPlane.Safety.Wire
import BankingControlPlane.Ui.Totals

/-!
# What the harness hears of a turn

A turn of the graph, the frames the service makes of it, the bytes they are written as, and what is read of them.

* `Exchange` : one turn served, and the bytes its client got; `Exchange.heard` : how the harness reads them;
* `Exchange.Carried` : every frame of the turn is written, on one line;
* `heard_carried`, `heard_lost` : then the frames are read, and otherwise an exception ends the turn;
* `Took` : the exchange is of this turn; `observed_told`, `observed_untold` : what is observed of it.
-/

namespace BankingControlPlane.Evals
open Json Text

/-! ## Frames on the way -/

/-- The client's transport: its lines, and the exceptions of a payload that is no JSON and of a response that breaks
off. -/
structure Transport where
  aiterLines : List ByteArray → List (List Char)
  breaksLines : BreaksLines aiterLines
  noJson : String
  brokenOff : String

/-- A turn as it was served, and the bytes that came of it. -/
structure Exchange (C F : Type) where
  narrated : Narrated F
  behaviour : Behaviour C F
  threadId : String
  link : TraceLink
  elapsed : Elapsed
  chunks : List ByteArray

section Reading
variable {C F : Type} (fl : Floats F) (stageOf : C → Except String (Option (Value F))) (net : Transport)
  (x : Exchange C F)

def Exchange.frames : TurnFrames F := x.behaviour.runTurn stageOf x.threadId x.link x.elapsed

/-- What the streaming endpoint writes. -/
def Exchange.written : List (WireName × Value F) := streamTurn fl (x.frames stageOf).frames

/-- An exception left the endpoint after what it wrote. -/
def Exchange.BreaksOff : Prop :=
  (x.frames stageOf).escaped = true ∨ (x.written fl stageOf).length < (x.frames stageOf).frames.length

instance : Decidable (x.BreaksOff fl stageOf) := inferInstanceAs (Decidable (_ ∨ _))

/-- The reply as `drive_turn` reads it, off the lines of the response. -/
def Exchange.heard : Evals.TurnReply F :=
  let read := iterSse fl [] (net.aiterLines x.chunks)
  .streamed read.frames
    (if read.raised then some net.noJson else if x.BreaksOff fl stageOf then some net.brokenOff else none)

/-- The bytes are those of the frames written, cut anywhere. -/
def Exchange.Sent : Prop :=
  ∃ text, stream fl (x.written fl stageOf) = some text ∧ joined x.chunks = text.utf8Encode

/-- Every frame of the turn can be written, on one line. -/
structure Exchange.Carried : Prop where
  closed : (x.frames stageOf).escaped = false
  plain : ∀ frame ∈ (x.frames stageOf).frames, ∃ wire, frame.onWire = some wire ∧ Plain wire.2

instance : Decidable (x.Carried stageOf) :=
  have (frame : Frame F) : Decidable (∃ wire, frame.onWire = some wire ∧ Plain wire.2) :=
    inferInstanceAs (Decidable (∃ wire ∈ frame.onWire, Plain wire.2))
  decidable_of_iff ((x.frames stageOf).escaped = false ∧
      ∀ frame ∈ (x.frames stageOf).frames, ∃ wire, frame.onWire = some wire ∧ Plain wire.2)
    ⟨fun h => ⟨h.1, h.2⟩, fun h => ⟨h.closed, h.plain⟩⟩

end Reading

section Written
variable {F : Type} {fl : Floats F}

theorem streamTurn_cons_eq (fl : Floats F) (frame : Frame F) (rest : List (Frame F)) :
    (∃ wire, frame.onWire = some wire ∧ wire.2.Every Value.Printable ∧
      streamTurn fl (frame :: rest) = wire :: streamTurn fl rest) ∨
    (¬ ∃ wire, frame.onWire = some wire ∧ wire.2.Every Value.Printable) ∧ streamTurn fl (frame :: rest) = [] := by
  rw [streamTurn]
  cases hwire : frame.onWire with
  | none => exact Or.inr ⟨by simp, rfl⟩
  | some wire =>
    by_cases hprintable : wire.2.Every Value.Printable
    · exact Or.inl ⟨wire, rfl, hprintable, if_pos ((sse_isSome _ _).mpr hprintable)⟩
    · refine Or.inr ⟨?_, if_neg fun hsome => hprintable ((sse_isSome _ _).mp hsome)⟩
      rintro ⟨wire', heq, hprintable'⟩
      exact hprintable (Option.some.inj heq ▸ hprintable')

theorem streamTurn_length (frames : List (Frame F)) : (streamTurn fl frames).length ≤ frames.length := by
  induction frames with
  | nil => exact Nat.le_refl 0
  | cons frame rest ih =>
    rcases streamTurn_cons_eq fl frame rest with ⟨wire, -, -, hwritten⟩ | ⟨-, hwritten⟩
    · rw [hwritten]
      exact Nat.succ_le_succ ih
    · rw [hwritten]
      exact Nat.zero_le _

/-- A response is whole exactly if every frame can be written. -/
theorem streamTurn_whole_iff (frames : List (Frame F)) : ¬ (streamTurn fl frames).length < frames.length ↔
    ∀ frame ∈ frames, ∃ wire, frame.onWire = some wire ∧ wire.2.Every Value.Printable := by
  induction frames with
  | nil => simp [streamTurn]
  | cons frame rest ih =>
    rw [List.forall_mem_cons]
    rcases streamTurn_cons_eq fl frame rest with ⟨wire, hwire, hprintable, hwritten⟩ | ⟨hnone, hwritten⟩
    · rw [hwritten, List.length_cons, List.length_cons, Nat.succ_lt_succ_iff, ih,
        and_iff_right ⟨wire, hwire, hprintable⟩]
    · rw [hwritten]
      exact iff_of_false (fun h => h (Nat.succ_pos _)) fun h => hnone h.1

theorem streamTurn_onWire (frames : List (Frame F)) (h : ¬ (streamTurn fl frames).length < frames.length) :
    (streamTurn fl frames).map some = frames.map Frame.onWire := by
  induction frames with
  | nil => rfl
  | cons frame rest ih =>
    rcases streamTurn_cons_eq fl frame rest with ⟨wire, hwire, -, hwritten⟩ | ⟨-, hwritten⟩
    · rw [hwritten, List.length_cons, List.length_cons, Nat.succ_lt_succ_iff] at h
      rw [hwritten, List.map_cons, List.map_cons, hwire, ih h]
    · rw [hwritten] at h
      exact absurd (Nat.succ_pos _) h

/-- What is written can be read, or raises where a line is cut. -/
theorem stream_raises (hfl : fl.Lawful) {frames : List (WireName × Value F)} {text : List Char}
    (hwf : ∀ frame ∈ frames, frame.2.Every (Value.WellFormed fl)) (htext : stream fl frames = some text)
    (before : List Char) (hcut : ¬ ∀ frame ∈ frames, Plain frame.2) :
    (iterSse fl before (splitlines text)).raised = true := by
  induction frames generalizing text before with
  | nil => exact absurd (fun frame hframe => (List.not_mem_nil hframe).elim) hcut
  | cons frame rest ih =>
    obtain ⟨event, v⟩ := frame
    obtain ⟨hv, hwf⟩ := List.forall_mem_cons.mp hwf
    have hprintable : v.Every Value.Printable := (List.forall_mem_cons.mp (stream_printable htext)).1
    have hsse : sse fl event.text v = some (eventMark ++ ' ' :: event.text ++ '\n' :: dataMark ++ ' ' ::
        encode fl v ++ ['\n', '\n']) := by
      have hdumps : dumps fl v = some (encode fl v) := if_pos hprintable
      rw [sse, hdumps]
      rfl
    rw [stream, hsse, Option.bind_some] at htext
    obtain ⟨later, hlater, rfl⟩ := Option.map_eq_some_iff.mp htext
    by_cases hstrings : v.Every (Value.Strings fun c => ¬ Separator c)
    · rw [read_plain hfl hv ⟨hprintable, hstrings⟩]
      exact ih hwf hlater [] fun hrest => hcut (List.forall_mem_cons.mpr ⟨⟨hprintable, hstrings⟩, hrest⟩)
    · rw [read_cut hfl hv hprintable hstrings]

end Written

section Heard
variable {C F : Type} {fl : Floats F} {stageOf : C → Except String (Option (Value F))} {x : Exchange C F}

theorem whole_of_carried (fl : Floats F) (h : x.Carried stageOf) : ¬ x.BreaksOff fl stageOf := by
  rintro (hescaped | hshort)
  · exact absurd (hescaped.symm.trans h.closed) (by decide)
  · refine (streamTurn_whole_iff _).mpr ?_ hshort
    intro frame hframe
    obtain ⟨wire, hwire, hplain⟩ := h.plain frame hframe
    exact ⟨wire, hwire, hplain.1⟩

theorem written_plain_iff (hwhole : ¬ x.BreaksOff fl stageOf) :
    (∀ wire ∈ x.written fl stageOf, Plain wire.2) ↔ x.Carried stageOf := by
  obtain ⟨hclosed, hlong⟩ := not_or.mp hwhole
  have hwires := streamTurn_onWire _ hlong
  constructor
  · intro h
    refine ⟨by simpa using hclosed, fun frame hframe => ?_⟩
    have hmem : frame.onWire ∈ (x.written fl stageOf).map some := hwires ▸ List.mem_map_of_mem hframe
    obtain ⟨wire, hwire, heq⟩ := List.mem_map.mp hmem
    exact ⟨wire, heq.symm, h wire hwire⟩
  · intro h wire hwire
    have hmem : some wire ∈ (x.frames stageOf).frames.map Frame.onWire := hwires ▸ List.mem_map_of_mem hwire
    obtain ⟨frame, hframe, heq⟩ := List.mem_map.mp hmem
    obtain ⟨wire', hwire', hplain⟩ := h.plain frame hframe
    obtain rfl : wire = wire' := Option.some.inj (heq.symm.trans hwire')
    exact hplain

section
variable (net : Transport) (hfl : fl.Lawful) (hsent : x.Sent fl stageOf)
  (hwf : ∀ wire ∈ x.written fl stageOf, wire.2.Every (Value.WellFormed fl))
include hfl hsent hwf

/-- **A turn that is carried** is read frame by frame, however its bytes are cut. -/
theorem heard_carried (h : x.Carried stageOf) :
    x.heard fl stageOf net = .streamed ((x.written fl stageOf).map fun wire => (wire.1.text, wire.2)) none := by
  have hwhole := whole_of_carried fl h
  have hplain := (written_plain_iff hwhole).mpr h
  obtain ⟨text, htext, hchunks⟩ := hsent
  obtain ⟨text', htext', hiff⟩ := stream_reads hfl hwf (fun wire hwire => (hplain wire hwire).1) []
  obtain rfl := Option.some.inj (htext.symm.trans htext')
  unfold Exchange.heard
  dsimp only
  rw [net.breaksLines _ _ hchunks, hiff.mpr fun wire hwire => (hplain wire hwire).2, if_neg (by simp), if_neg hwhole]

/-- One that is not ends with an exception. -/
theorem heard_lost (h : ¬ x.Carried stageOf) :
    ∃ frames exc, x.heard fl stageOf net = .streamed frames (some exc) := by
  obtain ⟨text, htext, hchunks⟩ := hsent
  unfold Exchange.heard
  dsimp only
  rw [net.breaksLines _ _ hchunks]
  by_cases hbroken : x.BreaksOff fl stageOf
  · rw [if_pos hbroken]
    split_ifs
    · exact ⟨_, _, rfl⟩
    · exact ⟨_, _, rfl⟩
  · have hcut := mt (written_plain_iff hbroken).mp h
    rw [stream_raises hfl hwf htext [] hcut, if_pos rfl]
    exact ⟨_, _, rfl⟩

end

end Heard

/-! ## Turns on the way -/

/-- The turn comes to an answer: the input gate's, or the model's. -/
def Answers (spec : GuardSpec) (mode : Mode) (turn : Turn) : Prop :=
  Refused spec mode turn ∨ turn.ending.failed = false

instance (spec : GuardSpec) (mode : Mode) (turn : Turn) : Decidable (Answers spec mode turn) :=
  inferInstanceAs (Decidable (_ ∨ _))

section Turns
variable {C F : Type} (fl : Floats F) (stageOf : C → Except String (Option (Value F))) (spec : GuardSpec)
  (mode : Mode)

/-- The exchange is of this turn on a thread with this history: the graph streams its states and the frames of its
rail, and the bytes come. -/
structure Took (history : List Message) (x : Exchange C F) : Prop where
  streamed : (runTurn spec mode history x.narrated.turn).Streamed x.behaviour
  valid : ∀ chunk ∈ x.behaviour.chunks, chunk.Valid stageOf
  stages : x.behaviour.chunks.filterMap (Chunk.stage? stageOf) =
    (x.narrated.run spec mode history).1.map fun e => .obj e.payload
  sent : x.Sent fl stageOf
  wellFormed : ∀ wire ∈ x.written fl stageOf, wire.2.Every (Value.WellFormed fl)

/-- The turn came to an answer, and the harness got all of it. -/
structure Exchange.Told (x : Exchange C F) : Prop where
  answers : Answers spec mode x.narrated.turn
  carried : x.Carried stageOf

instance (x : Exchange C F) : Decidable (x.Told stageOf spec mode) :=
  decidable_of_iff (Answers spec mode x.narrated.turn ∧ x.Carried stageOf)
    ⟨fun h => ⟨h.1, h.2⟩, fun h => ⟨h.answers, h.carried⟩⟩

/-- The stages the harness keeps: all but those of a start. -/
def keptStages (events : List (StageEvent F)) : List (List (String × Value F)) :=
  (events.filter fun e => e.status ≠ .start).map StageEvent.payload

/-- What is observed of a turn that was told. -/
def Exchange.observation (history : List Message) (x : Exchange C F) (caseId : String) (turn : Nat)
    (question : String) : Observation F where
  caseId := caseId
  turn := turn
  question := question
  answer := .str (finalText (runTurn spec mode history x.narrated.turn).final)
  stages := keptStages (x.narrated.run spec mode history).1
  ns := .int x.elapsed.ns
  traceUrl := strOrNull x.link.url

end Turns

section Observed
variable {C F : Type} {fl : Floats F} {stageOf : C → Except String (Option (Value F))} {spec : GuardSpec}
  {mode : Mode} {history : List Message} {x : Exchange C F}

theorem failed_iff (turn : Turn) : (runTurn spec mode history turn).failed = false ↔ Answers spec mode turn := by
  unfold Answers
  by_cases h : Refused spec mode turn
  · rw [runTurn_refused h]
    exact iff_of_true rfl (Or.inl h)
  · rw [(runTurn_through h).failed, or_iff_right h]

theorem keptStages_cons (e : StageEvent F) (rest : List (StageEvent F)) :
    keptStages (e :: rest) = keptStages [e] ++ keptStages rest := by
  unfold keptStages
  rw [← List.map_append, ← List.filter_append, List.singleton_append]

/-- The frame of a start is passed over, and any other is kept. -/
theorem frame_stage (obs : Observation F) (e : StageEvent F) :
    obs.frame WireName.stage.text (.obj e.payload) = .ok { obs with stages := obs.stages ++ keptStages [e] } := by
  have hstart : isText "start" (get "status" e.payload) = decide (e.status = .start) := by
    cases hstatus : e.status <;> simp [get, StageEvent.payload, isText, StageStatus.text, hstatus]
  unfold Observation.frame keptStages
  rw [if_pos rfl]
  dsimp only
  rw [hstart]
  by_cases h : e.status = .start
  · rw [if_pos (by simpa using h), List.filter_cons_of_neg (by simpa using h)]
    simp
  · rw [if_neg (by simpa using h), List.filter_cons_of_pos (by simpa using h)]
    rfl

theorem frames_stages (obs : Observation F) (events : List (StageEvent F)) :
    (events.map fun e => (WireName.stage.text, Value.obj e.payload)).foldlM
        (fun obs frame => obs.frame frame.1 frame.2) obs =
      .ok { obs with stages := obs.stages ++ keptStages events } := by
  induction events generalizing obs with
  | nil =>
    have hnone : keptStages ([] : List (StageEvent F)) = [] := rfl
    rw [hnone, List.append_nil]
    rfl
  | cons e rest ih =>
    rw [List.map_cons, List.foldlM_cons, frame_stage, keptStages_cons e rest, ← List.append_assoc]
    exact ih _

/-- The frames of a turn that came to an answer. -/
theorem frames_answered (htook : Took fl stageOf spec mode history x) (h : Answers spec mode x.narrated.turn) :
    x.frames stageOf = ⟨((x.narrated.run spec mode history).1.map fun e => .stage (.obj e.payload)) ++
      [.turn (turnPayload x.threadId (finalText (runTurn spec mode history x.narrated.turn).final) x.elapsed),
        .trace x.link.payload], false⟩ := by
  have hanswer : (runTurn spec mode history x.narrated.turn).answer =
      some (finalText (runTurn spec mode history x.narrated.turn).final) := by
    unfold TurnRun.answer
    rw [(failed_iff _).mpr h, if_neg (by simp)]
  unfold Exchange.frames
  rw [runTurn_streamed htook.streamed htook.valid hanswer, htook.stages, List.map_map]
  rfl

/-- The frames of one that did not, if no exception leaves the generator. -/
theorem frames_failed (htook : Took fl stageOf spec mode history x) (h : ¬ Answers spec mode x.narrated.turn)
    (hclosed : (x.frames stageOf).escaped = false) : ∃ exc : Exc F,
    (x.frames stageOf).frames = ((x.narrated.run spec mode history).1.map fun e => .stage (.obj e.payload)) ++
      [.error exc, .trace x.link.payload] := by
  have hfailed : (runTurn spec mode history x.narrated.turn).failed = true := by
    simpa using mt (failed_iff _).mp h
  obtain ⟨exc, hexc⟩ := Option.isSome_iff_exists.mp (htook.streamed.ending.trans hfailed)
  refine ⟨exc, ?_⟩
  unfold Exchange.frames Behaviour.runTurn at hclosed ⊢
  rw [drain_valid stageOf _ htook.valid, hexc] at hclosed ⊢
  dsimp only at hclosed ⊢
  unfold closingFrames at hclosed ⊢
  split at hclosed
  · next heq _ => cases heq
  · next exc' text heq _ =>
    obtain rfl := Option.some.inj heq
    split_ifs at hclosed ⊢ with hshown
    rw [htook.stages, List.map_map]
    rfl
  · cases hclosed

/-- What is written of a turn that is carried. -/
theorem written_frames (h : x.Carried stageOf) {events : List (StageEvent F)} {closing : List (Frame F)}
    (wires : List (WireName × Value F))
    (hframes : (x.frames stageOf).frames = (events.map fun e => .stage (.obj e.payload)) ++ closing)
    (hclosing : closing.map Frame.onWire = wires.map some) :
    x.written fl stageOf = (events.map fun e => (.stage, .obj e.payload)) ++ wires := by
  have hwires : (x.written fl stageOf).map some = (x.frames stageOf).frames.map Frame.onWire :=
    streamTurn_onWire _ (not_or.mp (whole_of_carried fl h)).2
  rw [hframes, List.map_append, hclosing, List.map_map] at hwires
  refine List.map_injective_iff.mpr (Option.some_injective _) (hwires.trans ?_)
  rw [List.map_append, List.map_map]
  rfl

/-- The stages are kept, whatever comes after them. -/
theorem drive_frames (events : List (StageEvent F)) (wires : List (WireName × Value F)) (caseId : String) (turn : Nat)
    (question : String) : driveTurn (.streamed
        (((events.map fun e => (WireName.stage, Value.obj e.payload)) ++ wires).map fun wire => (wire.1.text, wire.2))
        none) caseId turn question =
      (wires.map fun wire => (wire.1.text, wire.2)).foldlM (fun obs frame => obs.frame frame.1 frame.2)
        { caseId := caseId, turn := turn, question := question, stages := keptStages events } := by
  unfold driveTurn
  dsimp only
  rw [List.map_append, List.map_map, List.foldlM_append]
  refine (congrArg (Except.bind · _) (congrArg (Except.bind · _) (frames_stages _ _))).trans ?_
  exact bind_pure (m := Except String) _

/-- The payload of an error is an object. -/
theorem errorJson_obj {exc : Exc F} {payload : Value F} (h : errorJson exc = some payload) :
    ∃ fields, payload = .obj fields := by
  unfold errorJson at h
  split at h
  · obtain ⟨detail, -, rfl⟩ := Option.map_eq_some_iff.mp h
    exact ⟨_, rfl⟩
  · obtain rfl := Option.some.inj h
    exact ⟨_, rfl⟩

/-- A response that broke off raises. -/
theorem drive_broken (frames : List (List Char × Value F)) (exc caseId : String) (turn : Nat) (question : String) :
    ∃ raised, driveTurn (.streamed frames (some exc)) caseId turn question = .error raised := by
  unfold driveTurn
  dsimp only
  cases frames.foldlM (fun obs frame => obs.frame frame.1 frame.2)
      ({ caseId := caseId, turn := turn, question := question } : Observation F) with
  | error raised => exact ⟨raised, rfl⟩
  | ok obs => exact ⟨exc, rfl⟩

section
variable (net : Transport) (hfl : fl.Lawful) (htook : Took fl stageOf spec mode history x)
include hfl htook

/-- **What is observed of a turn that was told** is its answer and its rail. -/
theorem observed_told (h : x.Told stageOf spec mode) (caseId : String) (turn : Nat) (question : String) :
    driveTurn (x.heard fl stageOf net) caseId turn question =
      .ok (x.observation spec mode history caseId turn question) := by
  have hframes := congrArg TurnFrames.frames (frames_answered htook h.answers)
  rw [heard_carried net hfl htook.sent htook.wellFormed h.carried,
    written_frames h.carried [_, _] hframes rfl, drive_frames]
  rfl

/-- A turn that was not told is none that was answered. -/
theorem observed_untold (h : ¬ x.Told stageOf spec mode) (caseId : String) (turn : Nat) (question : String) :
    ¬ ∃ obs, driveTurn (x.heard fl stageOf net) caseId turn question = .ok obs ∧ obs.error = .null := by
  rintro ⟨obs, hobs, herror⟩
  by_cases hcarried : x.Carried stageOf
  · have hraised : ¬ Answers spec mode x.narrated.turn := fun hanswers => h ⟨hanswers, hcarried⟩
    obtain ⟨exc, hframes⟩ := frames_failed htook hraised hcarried.closed
    obtain ⟨wire, hwire, -⟩ := hcarried.plain (.error exc) (by rw [hframes]; simp)
    obtain ⟨payload, hpayload, rfl⟩ := Option.map_eq_some_iff.mp hwire
    obtain ⟨fields, rfl⟩ := errorJson_obj hpayload
    have hclosing : [Frame.error exc, .trace x.link.payload].map Frame.onWire =
        [(WireName.error, Value.obj fields), (.trace, x.link.payload)].map some := by
      rw [List.map_cons, hwire]
      rfl
    rw [heard_carried net hfl htook.sent htook.wellFormed hcarried, written_frames hcarried _ hframes hclosing,
      drive_frames] at hobs
    obtain rfl := Except.ok.inj hobs
    cases herror
  · obtain ⟨frames, exc, hheard⟩ := heard_lost net hfl htook.sent htook.wellFormed hcarried
    obtain ⟨raised, hraised⟩ := drive_broken frames exc caseId turn question
    rw [hheard, hraised] at hobs
    cases hobs

end

end Observed

end BankingControlPlane.Evals
