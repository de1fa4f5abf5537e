import BankingControlPlane.Runtime.Endpoints
import BankingControlPlane.Safety.Gates
import BankingControlPlane.Safety.Wire

/-!
# Streamed and buffered turns

* `SameAnswer` : what one client gets is what the other gets, apart from the time measured;
* `Behaviour.Conveyed` : every stage event is valid and can be written, the last messages can be read, and only
  HTTP exceptions are raised whose status and detail a frame has in common with a response;
* `turns_agree_iff` : the endpoints agree exactly for these behaviours;
* `runTurn_streamed` : a turn of the graph is such a behaviour, and its `turn` frame carries its answer.
-/

namespace BankingControlPlane
open Json

variable {C F : Type} {fl : Floats F}

/-! ## Agreement -/

def payloadField (name : String) : Value F → Option (Value F)
  | .obj fields => (fields.find? fun field => field.1 = name).map Prod.snd
  | _ => none

/-- A payload without the time measured. -/
def apartFromNs : Value F → Value F
  | .obj fields => .obj (fields.filter fun field => field.1 ≠ "ns")
  | v => v

/-- The buffered endpoint answers 200 exactly when the other writes a `turn` frame, and then with its payload;
otherwise it answers what the `error` frame says. -/
structure SameAnswer (buffered : Answer F) (streamed : List (WireName × Value F)) : Prop where
  answered : buffered.status = 200 ↔ ∃ payload, (WireName.turn, payload) ∈ streamed
  same : ∀ payload, (WireName.turn, payload) ∈ streamed →
    buffered.body.map apartFromNs = some (apartFromNs payload)
  failed : buffered.status ≠ 200 → ∃ payload, (WireName.error, payload) ∈ streamed ∧
    payloadField "status" payload = some (.int buffered.status) ∧
    ∃ detail, payloadField "detail" payload = some detail ∧ buffered.body.bind (payloadField "detail") = some detail

/-- A status other than 200 that has a body, and a detail that is the same text in a response and in a frame. -/
structure HttpException.Conveyed (bodyAllowed : Nat → Bool) (exc : HttpException F) : Prop where
  status : exc.status ≠ 200
  body : bodyAllowed exc.status = true
  detail : ∃ text, exc.detail = some (.str text) ∧ exc.shown = some text

/-- An HTTP exception that is conveyed, and that `str` can show. -/
def Exc.Conveyed (bodyAllowed : Nat → Bool) (exc : Exc F) : Prop :=
  exc.shown.isSome ∧ ∃ http, exc.http = some http ∧ http.Conveyed bodyAllowed

/-- The last messages that the stream brought. -/
def Found.keep {C : Type} (final : Found) : Chunk C → Found
  | .values found => found.orElse final
  | .custom _ | .messages => final

/-- The chunk is no stage event, or a valid one. -/
def Chunk.Valid (stageOf : C → Except String (Option (Value F))) : Chunk C → Prop
  | .custom chunk => ∃ event, stageOf chunk = .ok event
  | .values _ | .messages => True

def Chunk.stage? (stageOf : C → Except String (Option (Value F))) : Chunk C → Option (Value F)
  | .custom chunk => (stageOf chunk).toOption.join
  | .values _ | .messages => none

/-- What a chunk that is no valid stage event raises in the loop. -/
def Chunk.failure? (stageOf : C → Except String (Option (Value F))) : Chunk C → Option (Exc F)
  | .custom chunk =>
    match stageOf chunk with
    | .error text => some (invalidStage text)
    | .ok _ => none
  | .values _ | .messages => none

/-- The chunks that the loop gets through. -/
def passed (stageOf : C → Except String (Option (Value F))) (chunks : List (Chunk C)) : List (Chunk C) :=
  chunks.takeWhile fun chunk => (chunk.failure? stageOf).isNone

structure Behaviour.Conveyed (fl : Floats F) (stageOf : C → Except String (Option (Value F)))
    (bodyAllowed : Nat → Bool) (b : Behaviour C F) : Prop where
  valid : ∀ chunk ∈ b.chunks, chunk.Valid stageOf
  printable : ∀ chunk ∈ b.chunks, ∀ event, chunk.stage? stageOf = some event → event.Every Value.Printable
  readable : ∃ text, (b.chunks.foldl Found.keep (.list [])).text? = some text
  ending : ∀ exc, b.ending = some exc → exc.Conveyed bodyAllowed

/-! ## What can be written -/

theorem sse_isSome (event : List Char) (v : Value F) :
    (sse fl event v).isSome = true ↔ v.Every Value.Printable := by
  unfold sse dumps
  rw [Option.isSome_map]
  split_ifs with h
  · exact ⟨fun _ => h, fun _ => rfl⟩
  · exact ⟨fun hsome => absurd hsome (by simp), fun hall => absurd hall h⟩

/-- A number that a clock or a status has. -/
theorem printable_of_lt {n : Nat} (h : n < 2 ^ 63) : (Value.int n : Value F).Every Value.Printable := by
  intro part hpart
  obtain rfl : part = .int n := by simpa [Value.parts] using hpart
  show (natText n).length ≤ maxStrDigits
  unfold natText maxStrDigits
  rw [Nat.length_toDigits_le_iff (by decide) (by decide)]
  calc n < 2 ^ 63 := h
    _ ≤ 10 ^ 19 := by decide
    _ ≤ 10 ^ 4300 := Nat.pow_le_pow_right (by decide) (by decide)

theorem printable_str (s : String) : (Value.str s : Value F).Every Value.Printable := by
  intro part hpart
  obtain rfl : part = .str s := by simpa [Value.parts] using hpart
  trivial

theorem printable_strOrNull (s : Option String) : (strOrNull s : Value F).Every Value.Printable := by
  cases s with
  | some s => exact printable_str s
  | none =>
    intro part hpart
    obtain rfl : part = .null := by simpa [strOrNull, Value.parts] using hpart
    trivial

theorem printable_turn (threadId text : String) (elapsed : Elapsed) :
    (turnPayload threadId text elapsed : Value F).Every Value.Printable := by
  rw [turnPayload, Value.every_obj]
  refine ⟨trivial, ?_⟩
  simp only [List.forall_mem_cons]
  exact ⟨printable_str threadId, printable_str text, printable_of_lt elapsed.ns_lt, by simp⟩

theorem printable_error {status : Nat} (h : status < 1000) (detail : String) :
    (errorPayload status detail : Value F).Every Value.Printable := by
  rw [errorPayload, Value.every_obj]
  refine ⟨trivial, ?_⟩
  simp only [List.forall_mem_cons]
  exact ⟨printable_of_lt (by omega), printable_str detail, by simp⟩

theorem printable_trace (link : TraceLink) : (link.payload : Value F).Every Value.Printable := by
  rw [TraceLink.payload, Value.every_obj]
  refine ⟨trivial, ?_⟩
  simp only [List.forall_mem_cons]
  exact ⟨printable_strOrNull link.id, printable_strOrNull link.url, by simp⟩

/-! ## The frames written -/

theorem streamTurn_cons {frame : Frame F} {wire : WireName × Value F} (rest : List (Frame F))
    (hwire : frame.onWire = some wire) (hprintable : wire.2.Every Value.Printable) :
    streamTurn fl (frame :: rest) = wire :: streamTurn fl rest := by
  rw [streamTurn, hwire]
  exact if_pos ((sse_isSome _ _).mpr hprintable)

theorem streamTurn_unwritten {frame : Frame F} (rest : List (Frame F)) (hwire : frame.onWire = none) :
    streamTurn fl (frame :: rest) = [] := by
  rw [streamTurn, hwire]

theorem streamTurn_stages (events : List (Value F)) (rest : List (Frame F))
    (h : ∀ event ∈ events, event.Every Value.Printable) :
    streamTurn fl (events.map .stage ++ rest) = events.map (WireName.stage, ·) ++ streamTurn fl rest := by
  induction events with
  | nil => rfl
  | cons event later ih =>
    obtain ⟨hevent, hlater⟩ := List.forall_mem_cons.mp h
    rw [List.map_cons, List.cons_append, streamTurn_cons _ rfl hevent, ih hlater]
    rfl

/-- Nothing follows an event that cannot be written. -/
theorem streamTurn_broken (events : List (Value F)) (rest : List (Frame F))
    (h : ¬ ∀ event ∈ events, event.Every Value.Printable) :
    ∀ wire ∈ streamTurn fl (events.map .stage ++ rest), wire.1 = .stage := by
  induction events with
  | nil => exact absurd (fun event hevent => (List.not_mem_nil hevent).elim) h
  | cons event later ih =>
    rw [List.map_cons, List.cons_append]
    by_cases hevent : event.Every Value.Printable
    · rw [streamTurn_cons _ rfl hevent]
      have hlater : ¬ ∀ e ∈ later, e.Every Value.Printable :=
        fun hall => h (List.forall_mem_cons.mpr ⟨hevent, hall⟩)
      exact List.forall_mem_cons.mpr ⟨rfl, ih hlater⟩
    · intro wire hwire
      have hnone : ¬ (sse fl WireName.stage.text event).isSome = true :=
        fun hsome => hevent ((sse_isSome _ _).mp hsome)
      have hempty : streamTurn fl (Frame.stage event :: (later.map .stage ++ rest)) = [] := by
        rw [streamTurn]
        exact if_neg hnone
      rw [hempty] at hwire
      exact (List.not_mem_nil hwire).elim

/-- A stream of nothing but stages agrees with no answer. -/
theorem SameAnswer.speaks {buffered : Answer F} {streamed : List (WireName × Value F)}
    (h : SameAnswer buffered streamed) : ¬ ∀ wire ∈ streamed, wire.1 = .stage := by
  intro hstages
  by_cases hstatus : buffered.status = 200
  · obtain ⟨payload, hturn⟩ := h.answered.mp hstatus
    exact WireName.noConfusion (hstages _ hturn)
  · obtain ⟨payload, herror, -⟩ := h.failed hstatus
    exact WireName.noConfusion (hstages _ herror)

theorem drainFrames_stages (escaped : Bool) (answer : Option (Value F)) (events : List (Value F))
    (rest : List (Frame F)) :
    drainFrames escaped answer (events.map .stage ++ rest) = drainFrames escaped answer rest := by
  induction events with
  | nil => rfl
  | cons event later ih => exact ih

/-! ## The stream drained -/

section Drain
variable (stageOf : C → Except String (Option (Value F))) (ending : Option (Exc F))

theorem failure?_error {chunk : C} {text : String} (h : stageOf chunk = .error text) :
    (Chunk.custom chunk).failure? stageOf = some (invalidStage text) := by
  simp only [Chunk.failure?, h]

theorem failure?_ok {chunk : C} {event : Option (Value F)} (h : stageOf chunk = .ok event) :
    (Chunk.custom chunk).failure? stageOf = none := by
  simp only [Chunk.failure?, h]

theorem stage?_ok {chunk : C} {event : Option (Value F)} (h : stageOf chunk = .ok event) :
    (Chunk.custom chunk).stage? stageOf = event := by
  show (stageOf chunk).toOption.join = event
  rw [h]
  rfl

theorem passed_stop {chunk : Chunk C} {exc : Exc F} (rest : List (Chunk C)) (h : chunk.failure? stageOf = some exc) :
    passed stageOf (chunk :: rest) = [] :=
  List.takeWhile_cons_of_neg (by rw [h]; simp)

theorem passed_go {chunk : Chunk C} (rest : List (Chunk C)) (h : chunk.failure? stageOf = none) :
    passed stageOf (chunk :: rest) = chunk :: passed stageOf rest :=
  List.takeWhile_cons_of_pos (by rw [h]; rfl)

/-- The loop gets to the first chunk that raises. -/
theorem drain_eq (chunks : List (Chunk C)) (final : Found) :
    drain stageOf ending final chunks =
      ⟨(passed stageOf chunks).filterMap (Chunk.stage? stageOf), (passed stageOf chunks).foldl Found.keep final,
        (chunks.findSome? (Chunk.failure? stageOf)).or ending⟩ := by
  induction chunks generalizing final with
  | nil => rfl
  | cons chunk rest ih =>
    cases chunk with
    | values found => exact ih _
    | messages => exact ih _
    | custom chunk =>
      unfold drain
      cases hevent : stageOf chunk with
      | error text =>
        have hfailure := failure?_error stageOf hevent
        rw [passed_stop stageOf rest hfailure, List.findSome?_cons, hfailure]
        rfl
      | ok event =>
        have hfailure := failure?_ok stageOf hevent
        have hstage := stage?_ok stageOf hevent
        rw [passed_go stageOf rest hfailure, List.findSome?_cons, hfailure]
        cases event with
        | none =>
          rw [List.filterMap_cons_none hstage]
          exact ih final
        | some event =>
          rw [List.filterMap_cons_some hstage]
          dsimp only
          rw [ih final]
          rfl

theorem failure?_eq_none {chunk : Chunk C} : chunk.failure? stageOf = none ↔ chunk.Valid stageOf := by
  cases chunk with
  | values found => exact iff_of_true rfl trivial
  | messages => exact iff_of_true rfl trivial
  | custom chunk =>
    cases hevent : stageOf chunk with
    | error text =>
      refine iff_of_false (by rw [failure?_error stageOf hevent]; simp) ?_
      rintro ⟨event, h⟩
      cases hevent.symm.trans h
    | ok event => exact iff_of_true (failure?_ok stageOf hevent) ⟨event, hevent⟩

theorem failure?_eq_some {chunk : Chunk C} {exc : Exc F} (h : chunk.failure? stageOf = some exc) :
    ∃ text, exc = invalidStage text := by
  cases chunk with
  | values found => cases h
  | messages => cases h
  | custom chunk =>
    cases hevent : stageOf chunk with
    | error text => exact ⟨text, Option.some.inj (h.symm.trans (failure?_error stageOf hevent))⟩
    | ok event => cases h.symm.trans (failure?_ok stageOf hevent)

theorem drain_valid {chunks : List (Chunk C)} (h : ∀ chunk ∈ chunks, chunk.Valid stageOf) (final : Found) :
    drain stageOf ending final chunks =
      ⟨chunks.filterMap (Chunk.stage? stageOf), chunks.foldl Found.keep final, ending⟩ := by
  have hnone : ∀ chunk ∈ chunks, chunk.failure? stageOf = none :=
    fun chunk hchunk => (failure?_eq_none stageOf).mpr (h chunk hchunk)
  have hpassed : passed stageOf chunks = chunks :=
    List.takeWhile_eq_self_iff.mpr fun chunk hchunk => by rw [hnone chunk hchunk]; rfl
  rw [drain_eq, hpassed, List.findSome?_eq_none_iff.mpr hnone]
  rfl

/-- An invalid stage event ends the turn, with what is no HTTP exception. -/
theorem drain_invalid {chunks : List (Chunk C)} (h : ¬ ∀ chunk ∈ chunks, chunk.Valid stageOf) (final : Found) :
    ∃ text, (drain stageOf ending final chunks).failure = some (invalidStage text) := by
  rw [drain_eq]
  cases hfirst : chunks.findSome? (Chunk.failure? stageOf) with
  | none =>
    refine absurd (fun chunk hchunk => (failure?_eq_none stageOf).mp ?_) h
    exact List.findSome?_eq_none_iff.mp hfirst chunk hchunk
  | some exc =>
    obtain ⟨chunk, -, hchunk⟩ := List.exists_of_findSome?_eq_some hfirst
    obtain ⟨text, rfl⟩ := failure?_eq_some stageOf hchunk
    exact ⟨text, rfl⟩

end Drain

/-! ## The two endpoints -/

section Endpoints
variable {events : List (Value F)} {trace : Value F}

theorem sameAnswer_turn (threadId text : String) (elapsed elapsed' : Elapsed) :
    SameAnswer ⟨200, some (turnPayload threadId text elapsed)⟩
      (events.map (WireName.stage, ·) ++ [(.turn, turnPayload threadId text elapsed'), (.trace, trace)]) where
  answered := ⟨fun _ => ⟨turnPayload threadId text elapsed', by simp⟩, fun _ => rfl⟩
  same payload hpayload := by
    obtain rfl : payload = turnPayload threadId text elapsed' := by simpa using hpayload
    simp [turnPayload, apartFromNs]
  failed hstatus := absurd rfl hstatus

/-- A stream with an `error` frame agrees with the answer that has its status and its detail. -/
theorem sameAnswer_error_iff (buffered : Answer F) (status : Nat) (detail : String) :
    SameAnswer buffered (events.map (WireName.stage, ·) ++ [(.error, errorPayload status detail), (.trace, trace)]) ↔
      buffered.status ≠ 200 ∧ buffered.status = status ∧
        buffered.body.bind (payloadField "detail") = some (.str detail) := by
  have hstatus : payloadField "status" (errorPayload status detail : Value F) = some (.int status) := rfl
  have hdetail : payloadField "detail" (errorPayload status detail : Value F) = some (.str detail) := rfl
  constructor
  · intro h
    have hne : buffered.status ≠ 200 := by
      intro hok
      obtain ⟨payload, hturn⟩ := h.answered.mp hok
      simp at hturn
    obtain ⟨payload, herror, hsame, said, hsaid, hbody⟩ := h.failed hne
    obtain rfl : payload = errorPayload status detail := by simpa using herror
    rw [hstatus] at hsame
    rw [hdetail] at hsaid
    refine ⟨hne, ?_, ?_⟩
    · have hint := Value.int.inj (Option.some.inj hsame)
      omega
    · rw [hbody, ← hsaid]
  · rintro ⟨hne, rfl, hbody⟩
    refine ⟨?_, ?_, ?_⟩
    · constructor
      · exact fun hok => absurd hok hne
      · rintro ⟨payload, hturn⟩
        simp at hturn
    · intro payload hturn
      simp at hturn
    · exact fun _ => ⟨_, by simp, hstatus, _, hdetail, hbody⟩

/-- A response conveys an HTTP exception as its `error` frame does exactly when the detail is a text to both. -/
theorem answer_raises_iff (bodyAllowed : Nat → Bool) (exc : HttpException F) (text : String)
    (hshown : exc.shown = some text) :
    (((TurnReply.raises exc).answer bodyAllowed).status ≠ 200 ∧
      ((TurnReply.raises exc).answer bodyAllowed).status = exc.status ∧
      ((TurnReply.raises exc).answer bodyAllowed).body.bind (payloadField "detail") = some (.str text)) ↔
      exc.Conveyed bodyAllowed := by
  unfold TurnReply.answer
  constructor
  · intro h
    dsimp only at h
    split_ifs at h with hbody
    · cases hdetail : exc.detail with
      | none =>
        rw [hdetail] at h
        exact absurd h.2.2 (by simp)
      | some detail =>
        rw [hdetail] at h
        have hsame : detail = .str text := Option.some.inj h.2.2
        exact ⟨h.1, hbody, text, by rw [hdetail, hsame], hshown⟩
    · exact absurd h.2.2 (by simp)
  · intro h
    obtain ⟨text', hdetail, htext⟩ := h.detail
    obtain rfl : text' = text := Option.some.inj (htext.symm.trans hshown)
    dsimp only
    rw [if_pos h.body, hdetail]
    exact ⟨h.status, rfl, rfl⟩

theorem answer_ofText (bodyAllowed : Nat → Bool) {status : Nat} (h : status < 1000) (detail : String) :
    ((TurnReply.raises (.ofText status h detail) : TurnReply F).answer bodyAllowed).status = status := by
  unfold TurnReply.answer
  dsimp only [HttpException.ofText]
  split_ifs
  · rfl
  · rfl

theorem sameAnswer_failure_iff (bodyAllowed : Nat → Bool) {exc : Exc F} (hshown : exc.shown.isSome)
    (hevents : ∀ event ∈ events, event.Every Value.Printable) (link : TraceLink) :
    SameAnswer (exc.reraised.answer bodyAllowed)
        (streamTurn fl (events.map .stage ++ [.error exc, .trace link.payload])) ↔
      exc.Conveyed bodyAllowed := by
  obtain ⟨said, hsaid⟩ := Option.isSome_iff_exists.mp hshown
  rw [streamTurn_stages _ _ hevents]
  have htrace : streamTurn fl [Frame.trace link.payload] = [(.trace, link.payload)] :=
    streamTurn_cons [] rfl (printable_trace link)
  cases hhttp : exc.http with
  | none =>
    have hwire : (Frame.error exc).onWire = some (.error, errorPayload 500 "internal error") := by
      show (errorJson exc).map _ = _
      unfold errorJson
      rw [hhttp]
      rfl
    have hreply : exc.reraised = .raises (.ofText 502 (by decide) said) := by
      unfold Exc.reraised
      rw [hhttp, hsaid]
    rw [streamTurn_cons _ hwire (printable_error (by decide) _), htrace, sameAnswer_error_iff, hreply]
    constructor
    · rintro ⟨-, hstatus, -⟩
      rw [answer_ofText] at hstatus
      exact absurd hstatus (by decide)
    · rintro ⟨-, http, hsome, -⟩
      rw [hhttp] at hsome
      exact absurd hsome (by simp)
  | some http =>
    have hreply : exc.reraised = .raises http := by
      unfold Exc.reraised
      rw [hhttp]
    have hjson : (Frame.error exc).onWire =
        (http.shown.map (errorPayload http.status)).map fun payload => (.error, payload) := by
      show (errorJson exc).map _ = _
      unfold errorJson
      rw [hhttp]
    have hconveyed : exc.Conveyed bodyAllowed ↔ http.Conveyed bodyAllowed := by
      unfold Exc.Conveyed
      rw [hhttp]
      exact ⟨fun ⟨_, _, hsome, h⟩ => Option.some.inj hsome ▸ h, fun h => ⟨hshown, http, rfl, h⟩⟩
    cases htext : http.shown with
    | none =>
      rw [htext] at hjson
      rw [streamTurn_unwritten _ hjson, List.append_nil, hconveyed]
      constructor
      · exact fun h => absurd (by simp) h.speaks
      · intro h
        obtain ⟨text, -, hshows⟩ := h.detail
        rw [htext] at hshows
        exact absurd hshows (by simp)
    | some text =>
      rw [htext] at hjson
      rw [streamTurn_cons _ hjson (printable_error http.status_lt text), htrace, sameAnswer_error_iff, hreply,
        hconveyed]
      exact answer_raises_iff bodyAllowed http text htext

theorem sameAnswer_closing_iff (bodyAllowed : Nat → Bool) (threadId : String) (link link' : TraceLink)
    (elapsed elapsed' : Elapsed) (failure : Option (Exc F)) (text : Option String) :
    SameAnswer
        ((drainFrames (closingFrames threadId link elapsed failure text).escaped none
          (events.map .stage ++ (closingFrames threadId link elapsed failure text).frames)).answer bodyAllowed)
        (streamTurn fl (events.map .stage ++ (closingFrames threadId link' elapsed' failure text).frames)) ↔
      (∀ event ∈ events, event.Every Value.Printable) ∧ (∃ said, text = some said) ∧
        ∀ exc, failure = some exc → exc.Conveyed bodyAllowed := by
  by_cases hevents : ∀ event ∈ events, event.Every Value.Printable
  case neg =>
    constructor
    · exact fun h => absurd (streamTurn_broken events _ hevents) h.speaks
    · exact fun h => absurd h.1 hevents
  have hsilent : ∀ wire ∈ streamTurn fl (events.map .stage ++ ([] : List (Frame F))), wire.1 = .stage := by
    rw [streamTurn_stages _ _ hevents]
    intro wire hwire
    obtain ⟨event, -, rfl⟩ := by simpa [streamTurn] using hwire
    rfl
  rw [drainFrames_stages]
  cases text with
  | none =>
    have hescaped (l : TraceLink) (e : Elapsed) : closingFrames threadId l e failure none = ⟨[], true⟩ := by
      unfold closingFrames
      cases failure with
      | none => rfl
      | some exc => rfl
    rw [hescaped, hescaped]
    constructor
    · exact fun h => absurd hsilent h.speaks
    · rintro ⟨-, ⟨said, hsaid⟩, -⟩
      exact absurd hsaid (by simp)
  | some said =>
    cases failure with
    | none =>
      refine iff_of_true ?_ ⟨hevents, ⟨said, rfl⟩, fun exc hexc => absurd hexc (by simp)⟩
      show SameAnswer ⟨200, some (turnPayload threadId said elapsed)⟩ (streamTurn fl (events.map .stage ++
        [.turn (turnPayload threadId said elapsed'), .trace link'.payload]))
      rw [streamTurn_stages _ _ hevents, streamTurn_cons _ rfl (printable_turn threadId said elapsed'),
        streamTurn_cons _ rfl (printable_trace link')]
      exact sameAnswer_turn threadId said elapsed elapsed'
    | some exc =>
      have hconveyed : ((∀ event ∈ events, event.Every Value.Printable) ∧ (∃ said', some said = some said') ∧
          ∀ e, some exc = some e → e.Conveyed bodyAllowed) ↔ exc.Conveyed bodyAllowed :=
        ⟨fun h => h.2.2 exc rfl, fun h => ⟨hevents, ⟨said, rfl⟩, fun e he => Option.some.inj he ▸ h⟩⟩
      rw [hconveyed]
      by_cases hshown : exc.shown.isSome = true
      · have hframes (l : TraceLink) (e : Elapsed) :
            closingFrames threadId l e (some exc) (some said) = ⟨[.error exc, .trace l.payload], false⟩ :=
          if_pos hshown
        rw [hframes, hframes]
        exact sameAnswer_failure_iff bodyAllowed hshown hevents link'
      · have hframes (l : TraceLink) (e : Elapsed) :
            closingFrames threadId l e (some exc) (some said) = ⟨[], true⟩ :=
          if_neg hshown
        rw [hframes, hframes]
        constructor
        · exact fun h => absurd hsilent h.speaks
        · exact fun h => absurd h.1 hshown

end Endpoints

/-! ## Every behaviour -/

section Agreement
variable (stageOf : C → Except String (Option (Value F))) (bodyAllowed : Nat → Bool)

/-- What the client of the buffered endpoint gets. -/
def buffered (b : Behaviour C F) (threadId : String) (link : TraceLink) (elapsed : Elapsed) : Answer F :=
  (submitTurn (b.runTurn stageOf threadId link elapsed)).answer bodyAllowed

/-- What the client of the streaming endpoint gets. -/
def streamed (fl : Floats F) (b : Behaviour C F) (threadId : String) (link : TraceLink) (elapsed : Elapsed) :
    List (WireName × Value F) :=
  streamTurn fl (b.runTurn stageOf threadId link elapsed).frames

/-- Two runs of one behaviour have a trace and a time of their own. -/
theorem turns_agree_iff (b : Behaviour C F) (threadId : String) (link link' : TraceLink) (elapsed elapsed' : Elapsed) :
    SameAnswer (buffered stageOf bodyAllowed b threadId link elapsed)
        (streamed stageOf fl b threadId link' elapsed') ↔
      b.Conveyed fl stageOf bodyAllowed := by
  refine (sameAnswer_closing_iff bodyAllowed threadId link link' elapsed elapsed' _ _).trans ?_
  by_cases hvalid : ∀ chunk ∈ b.chunks, chunk.Valid stageOf
  · rw [drain_valid stageOf b.ending hvalid]
    constructor
    · rintro ⟨hprintable, hreadable, hending⟩
      refine ⟨hvalid, ?_, hreadable, hending⟩
      intro chunk hchunk event hevent
      exact hprintable event (List.mem_filterMap.mpr ⟨chunk, hchunk, hevent⟩)
    · intro h
      refine ⟨?_, h.readable, h.ending⟩
      intro event hevent
      obtain ⟨chunk, hchunk, hstage⟩ := List.mem_filterMap.mp hevent
      exact h.printable chunk hchunk event hstage
  · obtain ⟨text, hfailure⟩ := drain_invalid stageOf b.ending hvalid (.list [])
    constructor
    · rintro ⟨-, -, hconveyed⟩
      obtain ⟨-, http, hhttp, -⟩ := hconveyed _ hfailure
      exact absurd hhttp (by simp [invalidStage])
    · exact fun h => absurd h.valid hvalid

/-- The agent raises what is no HTTP exception. -/
def upstreamFails : Behaviour Unit Half :=
  { chunks := [.values (.list [⟨false, .str "oi"⟩])], ending := some { http := none, shown := some "upstream" } }

theorem upstream_disagrees :
    ¬ SameAnswer (buffered (fun _ => .ok none) (fun _ => true) upstreamFails "t-1" ⟨none, none⟩ ⟨7, by decide⟩)
      (streamed (fun _ => .ok none) halves upstreamFails "t-1" ⟨none, none⟩ ⟨9, by decide⟩) := by
  intro h
  obtain ⟨payload, herror, hstatus, -⟩ := h.failed (by decide)
  obtain rfl : payload = errorPayload 500 "internal error" := by
    have hstreamed : streamed (fun _ => .ok none) halves upstreamFails "t-1" ⟨none, none⟩ ⟨9, by decide⟩ =
        [(.error, errorPayload 500 "internal error"), (.trace, TraceLink.payload ⟨none, none⟩)] := by rfl
    rw [hstreamed] at herror
    simpa using herror
  have hsame : (500 : Int) = 502 := Value.int.inj (Option.some.inj hstatus)
  exact absurd hsame (by decide)

end Agreement

/-! ## A turn of the graph, streamed -/

def Chunk.found? {C : Type} : Chunk C → Option Found
  | .values found => some found
  | .custom _ | .messages => none

/-- The behaviour is that of a graph run: every state saved comes on the `values` channel, and an exception
ends the stream exactly when the run failed. -/
structure TurnRun.Streamed {C F : Type} (run : TurnRun) (b : Behaviour C F) : Prop where
  values : b.chunks.filterMap Chunk.found? = run.states.map fun state => .list (state.map Message.raw)
  ending : b.ending.isSome = run.failed

section Streamed
variable {spec : GuardSpec} {mode : Mode}

/-- The last state saved. -/
theorem loop_last {ending : Ending} (rounds : List ToolRound) (messages : List Message)
    (h : (loop ending rounds messages).failed = false) :
    (loop ending rounds messages).states.getLast? = some (loop ending rounds messages).final := by
  induction rounds generalizing messages with
  | nil =>
    cases ending with
    | answers content => rfl
    | modelRaises => cases h
    | toolRaises content calls => cases h
  | cons round rest ih =>
    have hlast := ih (messages ++ [.ai round.content round.calls] ++ round.results.map .tool)
      ((loop_final rest).2.trans ((loop_final (round :: rest)).2.symm.trans h))
    simp only [loop, List.getLast?_cons, hlast, Option.getD_some]

theorem close_last (run : TurnRun) (h : run.states.getLast? = some run.final) :
    (close spec mode run).states.getLast? = some (close spec mode run).final := by
  unfold close
  split_ifs
  · exact h
  · cases afterAgent spec mode run.final with
    | none => exact h
    | some refusal => exact List.getLast?_concat

theorem failed_close (run : TurnRun) : (close spec mode run).failed = run.failed := by
  unfold close
  split_ifs
  · rfl
  · cases afterAgent spec mode run.final <;> rfl

theorem runTurn_last {history : List Message} {turn : Turn}
    (h : (runTurn spec mode history turn).failed = false) :
    (runTurn spec mode history turn).states.getLast? = some (runTurn spec mode history turn).final := by
  unfold runTurn at h ⊢
  dsimp only at h ⊢
  cases hbefore : beforeAgent spec mode (history ++ [.human turn.message]) with
  | some refusal => exact close_last _ (by simp)
  | none =>
    simp only [hbefore, failed_close] at h
    refine close_last _ ?_
    dsimp only
    rw [List.getLast?_cons, loop_last _ _ h, Option.getD_some]

theorem foldl_keep (chunks : List (Chunk C)) (final : Found) :
    chunks.foldl Found.keep final =
      (chunks.filterMap Chunk.found?).foldl (fun final found => found.orElse final) final := by
  induction chunks generalizing final with
  | nil => rfl
  | cons chunk rest ih =>
    cases chunk with
    | values found => exact ih _
    | custom chunk => exact ih _
    | messages => exact ih _

/-- The last messages that are not empty stay. -/
theorem foldl_last {founds : List Found} (final : Found) {messages : List RawMessage}
    (h : founds.getLast? = some (.list messages)) (hne : messages ≠ []) :
    founds.foldl (fun final found => found.orElse final) final = .list messages := by
  obtain ⟨earlier, rfl⟩ := List.getLast?_eq_some_iff.mp h
  rw [List.foldl_append]
  cases messages with
  | nil => exact absurd rfl hne
  | cons m rest => rfl

theorem runTurn_final_ne_nil (history : List Message) (turn : Turn) :
    (runTurn spec mode history turn).final ≠ [] := by
  by_cases h : Refused spec mode turn
  · rw [runTurn_refused h]
    simp
  · rw [(runTurn_through h).final]
    simp

/-- **The `turn` frame of a graph run carries the run's answer**: the last assistant text of its last
state. -/
theorem runTurn_streamed {stageOf : C → Except String (Option (Value F))} {history : List Message}
    {turn : Turn} {b : Behaviour C F} (hb : (runTurn spec mode history turn).Streamed b)
    (hvalid : ∀ chunk ∈ b.chunks, chunk.Valid stageOf) {text : String}
    (htext : (runTurn spec mode history turn).answer = some text) (threadId : String) (link : TraceLink)
    (elapsed : Elapsed) :
    b.runTurn stageOf threadId link elapsed =
      ⟨(b.chunks.filterMap (Chunk.stage? stageOf)).map .stage ++
        [.turn (turnPayload threadId text elapsed), .trace link.payload], false⟩ := by
  have hrun : (runTurn spec mode history turn).failed = false ∧
      finalText (runTurn spec mode history turn).final = text := by
    unfold TurnRun.answer at htext
    split_ifs at htext with hfailed
    exact ⟨by simpa using hfailed, Option.some.inj htext⟩
  obtain ⟨hfailed, hfinal⟩ := hrun
  have hending : b.ending = none := by
    have hnone := hb.ending
    rw [hfailed] at hnone
    simpa using hnone
  have hlast := runTurn_last hfailed
  have hkept : (b.chunks.foldl Found.keep (.list [])).text? = some text := by
    have hmessages : (runTurn spec mode history turn).final.map Message.raw ≠ [] := by
      simpa using runTurn_final_ne_nil history turn
    rw [foldl_keep, hb.values, foldl_last _ (by rw [List.getLast?_map, hlast]; rfl) hmessages]
    exact (finalText?_raw _).trans (congrArg some hfinal)
  unfold Behaviour.runTurn
  dsimp only
  rw [drain_valid stageOf b.ending hvalid, hending]
  dsimp only
  rw [hkept]
  rfl

end Streamed

end BankingControlPlane
