import BankingControlPlane.Safety.Endpoints
import Mathlib.Data.List.Induction

/-!
# The frames of a turn

* `TurnGrammar` : stage frames, then one `turn` or `error` frame, then one `trace` frame, and no exception after;
* `Behaviour.failure?` : the first envelope that fails ends the loop; the stream may raise after its last chunk;
* `runTurn_grammar` : every stream gives such frames, for exceptions that `str` can show;
* `grammar_fails` : where `str` raises, the generator raises; an event that cannot be dumped ends the turn in an
  error though its envelope was valid.
-/

namespace BankingControlPlane
open Json

variable {C P E F : Type}

/-! ## What is asked of the stream -/

/-- A text, or blocks all whose texts are strings. -/
def RawContent.Readable : RawContent → Prop
  | .str _ => True
  | .pieces ps => Piece.text none ∉ ps
  | .other => False

/-- A chunk of the `values` channel that has messages has a list of readable ones. -/
def Chunk.Readable : Chunk C → Prop
  | .values .nothing => True
  | .values (.list found) => ∀ m ∈ found, m.content.Readable
  | .values .other => False
  | .custom _ | .messages => True

/-! ## What is said of the frames -/

/-- The messages of a `values` chunk, if it has any. -/
def Chunk.messages? : Chunk C → Option (List RawMessage)
  | .values (.list []) => none
  | .values (.list found) => some found
  | .values .nothing | .values .other | .custom _ | .messages => none

/-- The messages of the last `values` chunk that has any. -/
def lastMessages (chunks : List (Chunk C)) : List RawMessage :=
  (chunks.reverse.findSome? Chunk.messages?).getD []

/-- The text of the last assistant message, or no text where no message is the assistant's. -/
inductive LastText : List RawMessage → String → Prop where
  | silent {messages : List RawMessage} : (∀ m ∈ messages, m.ai = false) → LastText messages ""
  | spoken {before after : List RawMessage} {m : RawMessage} {text : String} : m.ai = true →
      (∀ later ∈ after, later.ai = false) → m.content.text? = some text → LastText (before ++ m :: after) text

/-- Some stage frames; an `error` frame if the turn `errs`, else a `turn` frame with the last text; a `trace`
frame; and nothing raised. -/
structure TurnGrammar (chunks : List (Chunk C)) (threadId : String) (link : TraceLink) (elapsed : Elapsed)
    (stages : List (Value F)) (errs : Prop) (run : TurnFrames F) : Prop where
  returned : run.escaped = false
  frames : ∃ closing, run.frames = stages.map .stage ++ [closing, .trace link.payload] ∧
    (errs ∧ (∃ exc, closing = .error exc) ∨
      ¬ errs ∧ ∃ text, LastText (lastMessages chunks) text ∧ closing = .turn (turnPayload threadId text elapsed))

/-- The payload is no stage event. -/
def StageModel.Invalid (model : StageModel P E F) (payload : P) : Prop := ∃ text, model.validate payload = .error text

/-- The payload is a stage event that JSON cannot hold. -/
def StageModel.Undumped (model : StageModel P E F) (payload : P) : Prop :=
  ∃ event, model.validate payload = .ok event ∧ ∃ text, model.dump event = .error text

/-- The stream raised, or brought an envelope that `bad` holds of. -/
def Behaviour.Errs (b : Behaviour (CustomChunk P) F) (bad : P → Prop) : Prop :=
  b.ending.isSome ∨ ∃ payload, Chunk.custom (.dict (some payload)) ∈ b.chunks ∧ bad payload

/-- The events of the custom chunks that arrived before the first that raised, in order. -/
def StageModel.stages (model : StageModel P E F) (b : Behaviour (CustomChunk P) F) : List (Value F) :=
  (passed model.stageOf b.chunks).filterMap (Chunk.stage? model.stageOf)

/-! ## The last text -/

theorem pieceTexts_isSome {ps : List Piece} (h : Piece.text none ∉ ps) : (pieceTexts ps).isSome := by
  induction ps with
  | nil => rfl
  | cons p rest ih =>
    obtain ⟨hp, hrest⟩ := not_or.mp (List.mem_cons.not.mp h)
    obtain ⟨texts, htexts⟩ := Option.isSome_iff_exists.mp (ih hrest)
    cases p with
    | other => exact ih hrest
    | text t =>
      cases t with
      | none => exact absurd rfl hp
      | some t =>
        show ((pieceTexts rest).map (t :: ·)).isSome
        rw [htexts]
        rfl

theorem RawContent.Readable.text {content : RawContent} (h : content.Readable) : ∃ text, content.text? = some text := by
  cases content with
  | str s => exact ⟨s, rfl⟩
  | pieces ps =>
    obtain ⟨texts, htexts⟩ := Option.isSome_iff_exists.mp (pieceTexts_isSome h)
    refine ⟨" ".intercalate texts, ?_⟩
    show (pieceTexts ps).map _ = _
    rw [htexts]
    rfl
  | other => exact h.elim

/-- `_final_text` finds the text of the last assistant message. -/
theorem finalText?_last {messages : List RawMessage} (h : ∀ m ∈ messages, m.content.Readable) :
    ∃ text, finalText? messages = some text ∧ LastText messages text := by
  unfold finalText?
  cases hfind : messages.reverse.find? RawMessage.ai with
  | none =>
    have hsilent := List.find?_eq_none.mp hfind
    exact ⟨"", rfl, .silent fun m hm => by simpa using hsilent m (List.mem_reverse.mpr hm)⟩
  | some m =>
    obtain ⟨hm, after, before, hsplit, hafter⟩ := List.find?_eq_some_iff_append.mp hfind
    have hmessages : messages = before.reverse ++ m :: after.reverse := by
      rw [← List.reverse_reverse messages, hsplit]
      simp
    obtain ⟨text, htext⟩ := (h m (by rw [hmessages]; simp)).text
    refine ⟨text, htext, hmessages ▸ .spoken hm ?_ htext⟩
    intro later hlater
    simpa using hafter later (List.mem_reverse.mp hlater)

theorem messages?_readable {chunk : Chunk C} {messages : List RawMessage} (h : chunk.Readable)
    (hmessages : chunk.messages? = some messages) : ∀ m ∈ messages, m.content.Readable := by
  cases chunk with
  | custom chunk => cases hmessages
  | messages => cases hmessages
  | values found =>
    cases found with
    | nothing => cases hmessages
    | other => cases hmessages
    | list found =>
      cases found with
      | nil => cases hmessages
      | cons m rest =>
        obtain rfl := Option.some.inj hmessages
        exact h

theorem lastMessages_readable {chunks : List (Chunk C)} (h : ∀ chunk ∈ chunks, chunk.Readable) :
    ∀ m ∈ lastMessages chunks, m.content.Readable := by
  unfold lastMessages
  cases hlast : chunks.reverse.findSome? Chunk.messages? with
  | none => exact fun m hm => (List.not_mem_nil hm).elim
  | some messages =>
    obtain ⟨chunk, hchunk, hmessages⟩ := List.exists_of_findSome?_eq_some hlast
    exact messages?_readable (h chunk (List.mem_reverse.mp hchunk)) hmessages

theorem keep_readable {chunk : Chunk C} (h : chunk.Readable) (messages : List RawMessage) :
    (Found.list messages).keep chunk = .list (chunk.messages?.getD messages) := by
  cases chunk with
  | custom chunk => rfl
  | messages => rfl
  | values found =>
    cases found with
    | nothing => rfl
    | other => exact h.elim
    | list found => cases found <;> rfl

/-- The loop keeps the messages of the last `values` chunk that has any. -/
theorem foldl_keep_last {chunks : List (Chunk C)} (h : ∀ chunk ∈ chunks, chunk.Readable) :
    chunks.foldl Found.keep (.list []) = .list (lastMessages chunks) := by
  induction chunks using List.reverseRecOn with
  | nil => rfl
  | append_singleton earlier chunk ih =>
    have hearlier : ∀ c ∈ earlier, c.Readable := fun c hc => h c (List.mem_append_left _ hc)
    have hchunk : chunk.Readable := h chunk (List.mem_append_right _ (List.mem_singleton.mpr rfl))
    rw [List.foldl_concat, ih hearlier, keep_readable hchunk]
    unfold lastMessages
    rw [List.reverse_concat, List.findSome?_cons]
    cases chunk.messages? <;> rfl

/-! ## What ends the loop -/

section Ends
variable (model : StageModel P E F)

theorem stageOf_error {payload : P} :
    (∃ text, model.stageOf (.dict (some payload)) = .error text) ↔ model.Invalid payload ∨ model.Undumped payload := by
  unfold StageModel.Invalid StageModel.Undumped StageModel.stageOf StageModel.stageFromChunk
  dsimp only
  cases model.validate payload with
  | error text => exact iff_of_true ⟨text, rfl⟩ (.inl ⟨text, rfl⟩)
  | ok event =>
    dsimp only [Except.map]
    cases hdump : model.dump event with
    | error text => exact iff_of_true ⟨text, rfl⟩ (.inr ⟨event, rfl, text, hdump⟩)
    | ok written => simp [hdump]

theorem failure?_isSome {C : Type} {stageOf : C → Except String (Option (Value F))} {chunk : C} :
    ((Chunk.custom chunk).failure? stageOf).isSome ↔ ∃ text, stageOf chunk = .error text := by
  cases hevent : stageOf chunk with
  | error text => exact iff_of_true (by rw [failure?_error stageOf hevent]; rfl) ⟨text, rfl⟩
  | ok event => simp [failure?_ok stageOf hevent]

/-- An envelope is all that can fail in the loop. -/
theorem failure?_envelope {chunk : Chunk (CustomChunk P)} :
    (chunk.failure? model.stageOf).isSome ↔
      ∃ payload, chunk = .custom (.dict (some payload)) ∧ (model.Invalid payload ∨ model.Undumped payload) := by
  cases chunk with
  | values found => simp [Chunk.failure?]
  | messages => simp [Chunk.failure?]
  | custom chunk =>
    rw [failure?_isSome]
    cases chunk with
    | other => simp [StageModel.stageOf, StageModel.stageFromChunk]
    | dict trailStage =>
      cases trailStage with
      | none => simp [StageModel.stageOf, StageModel.stageFromChunk]
      | some payload => simp [stageOf_error]

/-- What the loop ends with, if it raises. -/
def StageModel.raised (b : Behaviour (CustomChunk P) F) : Option (Exc F) :=
  (b.chunks.findSome? (Chunk.failure? model.stageOf)).or b.ending

theorem raised_isSome (b : Behaviour (CustomChunk P) F) :
    (model.raised b).isSome ↔ b.Errs fun payload => model.Invalid payload ∨ model.Undumped payload := by
  unfold StageModel.raised Behaviour.Errs
  rw [Option.isSome_or, Bool.or_eq_true, or_comm, List.findSome?_isSome_iff]
  refine or_congr Iff.rfl ?_
  constructor
  · rintro ⟨chunk, hchunk, hfailure⟩
    obtain ⟨payload, rfl, hbad⟩ := (failure?_envelope model).mp hfailure
    exact ⟨payload, hchunk, hbad⟩
  · rintro ⟨payload, hchunk, hbad⟩
    exact ⟨_, hchunk, (failure?_envelope model).mpr ⟨payload, rfl, hbad⟩⟩

/-- `str` can show what an envelope raises. -/
theorem raised_shown {b : Behaviour (CustomChunk P) F} (hshown : ∀ exc, b.ending = some exc → exc.shown.isSome)
    {exc : Exc F} (h : model.raised b = some exc) : exc.shown.isSome := by
  unfold StageModel.raised at h
  cases hfirst : b.chunks.findSome? (Chunk.failure? model.stageOf) with
  | none =>
    rw [hfirst] at h
    exact hshown exc h
  | some first =>
    obtain ⟨chunk, -, hchunk⟩ := List.exists_of_findSome?_eq_some hfirst
    obtain ⟨text, rfl⟩ := failure?_eq_some model.stageOf hchunk
    rw [hfirst] at h
    obtain rfl := Option.some.inj h
    rfl

end Ends

/-! ## Every stream -/

section Streams
variable (model : StageModel P E F) {b : Behaviour (CustomChunk P) F} (threadId : String) (link : TraceLink)
  (elapsed : Elapsed)

theorem runTurn_raised (h : ∀ chunk ∈ b.chunks, chunk.Readable) {exc : Exc F} (hraised : model.raised b = some exc)
    (hshown : exc.shown.isSome) :
    b.runTurn model.stageOf threadId link elapsed =
      ⟨(model.stages b).map .stage ++ [.error exc, .trace link.payload], false⟩ := by
  have hpassed : ∀ chunk ∈ passed model.stageOf b.chunks, chunk.Readable :=
    fun chunk hchunk => h chunk ((List.takeWhile_sublist _).subset hchunk)
  obtain ⟨text, htext, -⟩ := finalText?_last (lastMessages_readable hpassed)
  unfold Behaviour.runTurn closingFrames StageModel.stages
  unfold StageModel.raised at hraised
  rw [drain_eq, foldl_keep_last hpassed]
  dsimp only [Found.text?]
  rw [htext, hraised]
  dsimp only
  rw [if_pos hshown]

theorem runTurn_finished (h : ∀ chunk ∈ b.chunks, chunk.Readable) (hraised : model.raised b = none) :
    ∃ text, LastText (lastMessages b.chunks) text ∧
      b.runTurn model.stageOf threadId link elapsed =
        ⟨(model.stages b).map .stage ++ [.turn (turnPayload threadId text elapsed), .trace link.payload], false⟩ := by
  obtain ⟨text, htext, hlast⟩ := finalText?_last (lastMessages_readable h)
  obtain ⟨hnone, hending⟩ := Option.or_eq_none_iff.mp hraised
  have hpassed : passed model.stageOf b.chunks = b.chunks := by
    refine List.takeWhile_eq_self_iff.mpr fun chunk hchunk => ?_
    rw [List.findSome?_eq_none_iff.mp hnone chunk hchunk]
    rfl
  refine ⟨text, hlast, ?_⟩
  unfold Behaviour.runTurn StageModel.stages
  rw [drain_eq, hpassed, foldl_keep_last h, hnone, hending]
  dsimp only [Found.text?, Option.or]
  rw [htext]
  rfl

/-- **The frames of a turn**, for every stream whose exception `str` can show. -/
theorem runTurn_grammar (h : ∀ chunk ∈ b.chunks, chunk.Readable)
    (hshown : ∀ exc, b.ending = some exc → exc.shown.isSome) :
    TurnGrammar b.chunks threadId link elapsed (model.stages b)
      (b.Errs fun payload => model.Invalid payload ∨ model.Undumped payload)
      (b.runTurn model.stageOf threadId link elapsed) := by
  rw [← raised_isSome]
  cases hraised : model.raised b with
  | some exc =>
    rw [runTurn_raised model threadId link elapsed h hraised (raised_shown model hshown hraised)]
    exact ⟨rfl, _, rfl, .inl ⟨rfl, exc, rfl⟩⟩
  | none =>
    obtain ⟨text, hlast, hrun⟩ := runTurn_finished model threadId link elapsed h hraised
    rw [hrun]
    exact ⟨rfl, _, rfl, .inr ⟨Bool.false_ne_true, text, hlast, rfl⟩⟩

end Streams

/-! ## Sample streams -/

/-- A stage event's payload with no detail, one with a detail no JSON holds, one with a field too many. -/
inductive SentPayload where
  | plain | object | extra
deriving DecidableEq, Repr

def sentModel : StageModel SentPayload SentPayload Half where
  validate
    | .plain => .ok .plain
    | .object => .ok .object
    | .extra => .error "1 validation error for StageEvent"
  dump
    | .object => .error "Unable to serialize unknown type: <class 'object'>"
    | .plain | .extra => .ok (.obj [("name", .str "finish"), ("kind", .str "io"), ("label", .str "finish"),
        ("status", .str "done"), ("ns", .null), ("detail", .null)])

/-- A stream that tells of a stage and brings an answer, and then raises. -/
def cutStream : Behaviour (CustomChunk SentPayload) Half where
  chunks := [.custom .other, .custom (.dict (some .plain)), .values (.list [⟨false, .str "oi"⟩, ⟨true, .str "Olá"⟩])]
  ending := some { http := none, shown := some "upstream" }

theorem runTurn_grammar_cut :
    TurnGrammar cutStream.chunks "t-1" ⟨none, none⟩ ⟨7, by decide⟩ (sentModel.stages cutStream)
      (cutStream.Errs fun payload => sentModel.Invalid payload ∨ sentModel.Undumped payload)
      (cutStream.runTurn sentModel.stageOf "t-1" ⟨none, none⟩ ⟨7, by decide⟩) := by
  refine runTurn_grammar sentModel "t-1" ⟨none, none⟩ ⟨7, by decide⟩ ?_ ?_
  · simp [cutStream, Chunk.Readable, RawContent.Readable]
  · intro exc hexc
    obtain rfl := Option.some.inj hexc
    rfl

/-- The stream raises what `str` cannot show. -/
def unshownStream : Behaviour (CustomChunk SentPayload) Half where
  chunks := []
  ending := some { http := none, shown := none }

/-- The stream brings a valid event that cannot be dumped. -/
def undumpedStream : Behaviour (CustomChunk SentPayload) Half where
  chunks := [.custom (.dict (some .object))]
  ending := none

theorem grammar_fails :
    (∀ stages, ¬ TurnGrammar unshownStream.chunks "t-1" ⟨none, none⟩ ⟨7, by decide⟩ stages
      (unshownStream.Errs sentModel.Invalid)
      (unshownStream.runTurn sentModel.stageOf "t-1" ⟨none, none⟩ ⟨7, by decide⟩)) ∧
    (∀ stages, ¬ TurnGrammar undumpedStream.chunks "t-1" ⟨none, none⟩ ⟨7, by decide⟩ stages
      (undumpedStream.Errs sentModel.Invalid)
      (undumpedStream.runTurn sentModel.stageOf "t-1" ⟨none, none⟩ ⟨7, by decide⟩)) := by
  constructor
  · exact fun stages h => absurd h.returned (by decide)
  · rintro stages ⟨-, closing, hframes, hclosing⟩
    have hvalid : ¬ undumpedStream.Errs sentModel.Invalid := by
      rintro (hending | ⟨payload, hpayload, text, htext⟩)
      · exact Bool.false_ne_true hending
      · obtain rfl : payload = .object := by simpa [undumpedStream] using hpayload
        cases htext
    have hrun : (undumpedStream.runTurn sentModel.stageOf "t-1" ⟨none, none⟩ ⟨7, by decide⟩).frames =
        [.error (invalidStage "Unable to serialize unknown type: <class 'object'>"),
          .trace (TraceLink.payload ⟨none, none⟩)] := by rfl
    rw [hrun] at hframes
    obtain ⟨herrs, -⟩ | ⟨-, text, -, rfl⟩ := hclosing
    · exact hvalid herrs
    · cases stages with
      | nil => cases hframes
      | cons stage rest => cases hframes

end BankingControlPlane
