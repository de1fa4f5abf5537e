import BankingControlPlane.Safety.Wire
import BankingControlPlane.Ui.Api
import Mathlib.Tactic.IntervalCases

/-!
# The browser's reading of a stream

* `LineEnding.rewrite` : a stream as it was written, or with every line ending rewritten;
* `frameBody` : a frame without its blank line; `takeFrame_body` and `parseFrame_body` read it back;
* `sse_chunks` : the frames are read as they were written, however the bytes are cut into chunks, and also when the
  last frame has lost its blank line.
-/

namespace BankingControlPlane
open Json Text

variable {F : Type} {fl : Floats F}

inductive LineEnding where
  | lf | crlf
deriving DecidableEq, Repr

namespace LineEnding

def text : LineEnding → List Char
  | .lf => ['\n']
  | .crlf => ['\r', '\n']

/-- What ends a frame. -/
def blankLine (ending : LineEnding) : List Char := ending.text ++ ending.text

/-- A text with each of its line endings rewritten. -/
def rewrite (ending : LineEnding) (text : List Char) : List Char :=
  text.flatMap fun c => if c = '\n' then ending.text else [c]

theorem rewrite_append (ending : LineEnding) (text more : List Char) :
    ending.rewrite (text ++ more) = ending.rewrite text ++ ending.rewrite more :=
  List.flatMap_append

theorem rewrite_line (ending : LineEnding) {line : List Char} (h : '\n' ∉ line) : ending.rewrite line = line := by
  induction line with
  | nil => rfl
  | cons c rest ih =>
    obtain ⟨hc, hrest⟩ := not_or.mp (mt List.mem_cons.mpr h)
    rw [rewrite, List.flatMap_cons, if_neg (Ne.symm hc)]
    exact congrArg (c :: ·) (ih hrest)

end LineEnding

/-- The frames of a stream under any event names, one after the other. -/
def streamNamed (fl : Floats F) : List (List Char × Value F) → Option (List Char)
  | [] => some []
  | (event, data) :: rest => (sse fl event data).bind fun frame => (streamNamed fl rest).map (frame ++ ·)

/-- A line has no carriage return and no line feed. -/
def OneLine (line : List Char) : Prop := '\r' ∉ line ∧ '\n' ∉ line

instance (line : List Char) : Decidable (OneLine line) := inferInstanceAs (Decidable (_ ∧ _))

/-- A frame without its blank line. -/
def frameBody (ending : LineEnding) (event payload : List Char) : List Char :=
  eventMark ++ ' ' :: event ++ ending.text ++ (dataMark ++ ' ' :: payload)

/-! ## Taking the frame off -/

theorem takeFrame_line {line : List Char} (h : OneLine line) (rest : List Char) :
    takeFrame (line ++ rest) = (takeFrame rest).map fun taken => (line ++ taken.1, taken.2) := by
  induction line with
  | nil => cases htaken : takeFrame rest <;> simp [htaken]
  | cons c line ih =>
    obtain ⟨hreturn, hreturns⟩ := not_or.mp (mt List.mem_cons.mpr h.1)
    obtain ⟨hfeed, hfeeds⟩ := not_or.mp (mt List.mem_cons.mpr h.2)
    have hlf : ¬ blankLf <+: c :: (line ++ rest) := fun ⟨_, hmore⟩ => hfeed (List.cons.inj hmore).1
    have hcrlf : ¬ blankCrlf <+: c :: (line ++ rest) := fun ⟨_, hmore⟩ => hreturn (List.cons.inj hmore).1
    rw [List.cons_append, takeFrame_cons hlf hcrlf, ih ⟨hreturns, hfeeds⟩, Option.map_map]
    rfl

/-- A line ending that another line follows is no terminator. -/
theorem takeFrame_ending (ending : LineEnding) (rest : List Char) :
    takeFrame (ending.text ++ (dataMark ++ rest)) =
      (takeFrame (dataMark ++ rest)).map fun taken => (ending.text ++ taken.1, taken.2) := by
  have hfeed : takeFrame ('\n' :: (dataMark ++ rest)) =
      (takeFrame (dataMark ++ rest)).map fun taken => ('\n' :: taken.1, taken.2) := by
    apply takeFrame_cons
    · rintro ⟨more, hmore⟩
      exact absurd (List.cons.inj (List.cons.inj hmore).2).1 (by decide)
    · rintro ⟨more, hmore⟩
      exact absurd (List.cons.inj hmore).1 (by decide)
  cases ending with
  | lf => exact hfeed
  | crlf =>
    have hreturn : takeFrame ('\r' :: '\n' :: (dataMark ++ rest)) =
        (takeFrame ('\n' :: (dataMark ++ rest))).map fun taken => ('\r' :: taken.1, taken.2) := by
      apply takeFrame_cons
      · rintro ⟨more, hmore⟩
        exact absurd (List.cons.inj hmore).1 (by decide)
      · rintro ⟨more, hmore⟩
        exact absurd (List.cons.inj (List.cons.inj (List.cons.inj hmore).2).2).1 (by decide)
    change takeFrame ('\r' :: '\n' :: (dataMark ++ rest)) = _
    rw [hreturn, hfeed, Option.map_map]
    rfl

/-! ## Reading the lines -/

theorem unreturned_line {line : List Char} (h : '\r' ∉ line) : unreturned line = line := by
  unfold unreturned
  rw [if_neg]
  intro hlast
  exact h (List.mem_of_getLast? hlast)

theorem unreturned_returned (line : List Char) : unreturned (line ++ ['\r']) = line := by
  unfold unreturned
  rw [List.getLast?_concat, if_pos rfl, List.dropLast_concat]

theorem line_returned {line : List Char} (h : '\r' ∉ line) (fields : FrameFields) :
    fields.line (line ++ ['\r']) = fields.line line := by
  unfold FrameFields.line
  rw [unreturned_returned, unreturned_line h]

/-- What a frame may have of a blank line that it has not all of. -/
theorem unfinished_cases {ending : LineEnding} {tail missing : List Char} (htail : tail ++ missing = ending.blankLine)
    (hmissing : missing ≠ []) :
    tail = [] ∨ tail = ['\n'] ∨ tail = ['\r'] ∨ tail = ['\r', '\n'] ∨ tail = ['\r', '\n', '\r'] := by
  have hpos := List.length_pos_of_ne_nil hmissing
  have hlength := congrArg List.length htail
  rw [List.length_append] at hlength
  have htake : tail = ending.blankLine.take tail.length := by
    rw [← htail, List.take_left]
  generalize tail.length = n at htake hlength
  subst htake
  cases ending with
  | lf =>
    have hn : n < 2 := by
      change n + missing.length = 2 at hlength
      omega
    interval_cases n
    · exact Or.inl rfl
    · exact Or.inr (Or.inl rfl)
  | crlf =>
    have hn : n < 4 := by
      change n + missing.length = 4 at hlength
      omega
    interval_cases n
    · exact Or.inl rfl
    · exact Or.inr (Or.inr (Or.inl rfl))
    · exact Or.inr (Or.inr (Or.inr (Or.inl rfl)))
    · exact Or.inr (Or.inr (Or.inr (Or.inr rfl)))

/-- Nor does it end a frame. -/
theorem takeFrame_unfinished {ending : LineEnding} {tail missing : List Char}
    (htail : tail ++ missing = ending.blankLine) (hmissing : missing ≠ []) : takeFrame tail = none := by
  rcases unfinished_cases htail hmissing with rfl | rfl | rfl | rfl | rfl <;> rfl

section Frame
variable {event payload : List Char} (hevent : OneLine event) (hpayload : OneLine payload) (ending : LineEnding)

include hevent in
theorem eventLine_oneLine : OneLine (eventMark ++ ' ' :: event) := by
  obtain ⟨hreturn, hfeed⟩ := hevent
  exact ⟨by simp [eventMark, hreturn], by simp [eventMark, hfeed]⟩

include hpayload in
theorem dataLine_oneLine : OneLine (dataMark ++ ' ' :: payload) := by
  obtain ⟨hreturn, hfeed⟩ := hpayload
  exact ⟨by simp [dataMark, hreturn], by simp [dataMark, hfeed]⟩

include hevent in
theorem line_event (fields : FrameFields) :
    fields.line (eventMark ++ ' ' :: event) = { fields with event := event } := by
  have hcolon : indexOf [':'] (eventMark ++ ' ' :: event) = some 5 := by simp [indexOf, eventMark]
  unfold FrameFields.line
  rw [unreturned_line (eventLine_oneLine hevent).1, if_neg (by simp [eventMark])]
  unfold FrameFields.read
  rw [hcolon]
  rfl

include hpayload in
theorem line_data (fields : FrameFields) :
    fields.line (dataMark ++ ' ' :: payload) = { fields with data := fields.data ++ [payload] } := by
  have hcolon : indexOf [':'] (dataMark ++ ' ' :: payload) = some 4 := by simp [indexOf, dataMark]
  unfold FrameFields.line
  rw [unreturned_line (dataLine_oneLine hpayload).1, if_neg (by simp [dataMark])]
  unfold FrameFields.read
  rw [hcolon]
  rfl

include hevent hpayload

theorem takeFrame_body (rest : List Char) : takeFrame (frameBody ending event payload ++ rest) =
    (takeFrame rest).map fun taken => (frameBody ending event payload ++ taken.1, taken.2) := by
  have hdata : takeFrame (dataMark ++ (' ' :: payload ++ rest)) =
      (takeFrame rest).map fun taken => (dataMark ++ ' ' :: payload ++ taken.1, taken.2) := by
    rw [← List.append_assoc]
    exact takeFrame_line (dataLine_oneLine hpayload) rest
  have hshape : frameBody ending event payload ++ rest =
      (eventMark ++ ' ' :: event) ++ (ending.text ++ (dataMark ++ (' ' :: payload ++ rest))) := by
    simp [frameBody]
  rw [hshape, takeFrame_line (eventLine_oneLine hevent), takeFrame_ending, hdata, Option.map_map, Option.map_map]
  apply congrArg (fun f => (takeFrame rest).map f)
  funext taken
  simp [frameBody]

omit hpayload in
/-- What the first line of a frame says, with or without the carriage return, and the data of what follows. -/
theorem parseFrame_lines {first data : List Char} (hfirst : first = [] ∨ first = ['\r'])
    (hdata : (data.splitOn '\n').foldl FrameFields.line { event := event } = { event := event, data := [payload] }) :
    parseFrame (eventMark ++ ' ' :: event ++ first ++ '\n' :: data) = some ⟨event, payload⟩ := by
  have hfeed : '\n' ∉ eventMark ++ ' ' :: event ++ first := by
    rcases hfirst with rfl | rfl
    · simpa using (eventLine_oneLine hevent).2
    · simpa using (eventLine_oneLine hevent).2
  have hline : FrameFields.line {} (eventMark ++ ' ' :: event ++ first) = { event := event } := by
    rcases hfirst with rfl | rfl
    · rw [List.append_nil, line_event hevent]
    · rw [line_returned (eventLine_oneLine hevent).1, line_event hevent]
  unfold parseFrame
  rw [List.splitOn_append_cons_self, List.splitOn_eq_singleton hfeed, List.singleton_append, List.foldl_cons, hline,
    hdata]
  dsimp only
  rw [if_neg (by simp), List.intercalate_singleton]

omit hevent in
/-- The lines that follow, whatever they have of the blank line. -/
theorem data_lines {tail missing : List Char} (htail : tail ++ missing = ending.blankLine) (hmissing : missing ≠ []) :
    ((dataMark ++ ' ' :: payload ++ tail).splitOn '\n').foldl FrameFields.line { event := event } =
      { event := event, data := [payload] } := by
  have hline := dataLine_oneLine hpayload
  have hread : FrameFields.line { event := event } (dataMark ++ ' ' :: payload) =
      { event := event, data := [payload] } := line_data hpayload _
  have hreturned : FrameFields.line { event := event } (dataMark ++ ' ' :: payload ++ ['\r']) =
      { event := event, data := [payload] } := by rw [line_returned hline.1, hread]
  have hreturnedFeed : '\n' ∉ dataMark ++ ' ' :: payload ++ ['\r'] := by simpa using hline.2
  rcases unfinished_cases htail hmissing with rfl | rfl | rfl | rfl | rfl
  · rw [List.append_nil, List.splitOn_eq_singleton hline.2, List.foldl_cons, hread]
    rfl
  · rw [List.splitOn_append_cons_self, List.splitOn_eq_singleton hline.2, List.singleton_append, List.foldl_cons,
      hread]
    rfl
  · rw [List.splitOn_eq_singleton hreturnedFeed, List.foldl_cons, hreturned]
    rfl
  · have hshape : dataMark ++ ' ' :: payload ++ ['\r', '\n'] = dataMark ++ ' ' :: payload ++ ['\r'] ++ '\n' :: [] := by
      simp
    rw [hshape, List.splitOn_append_cons_self, List.splitOn_eq_singleton hreturnedFeed, List.singleton_append,
      List.foldl_cons, hreturned]
    rfl
  · have hshape : dataMark ++ ' ' :: payload ++ ['\r', '\n', '\r'] =
        dataMark ++ ' ' :: payload ++ ['\r'] ++ '\n' :: ['\r'] := by
      simp
    rw [hshape, List.splitOn_append_cons_self, List.splitOn_eq_singleton hreturnedFeed, List.singleton_append,
      List.foldl_cons, hreturned]
    rfl

/-- A frame is read from its lines, whatever it has of its blank line. -/
theorem parseFrame_body {tail missing : List Char} (htail : tail ++ missing = ending.blankLine)
    (hmissing : missing ≠ []) : parseFrame (frameBody ending event payload ++ tail) = some ⟨event, payload⟩ := by
  cases ending with
  | lf =>
    have hshape : frameBody .lf event payload ++ tail =
        eventMark ++ ' ' :: event ++ [] ++ '\n' :: (dataMark ++ ' ' :: payload ++ tail) := by
      simp [frameBody, LineEnding.text]
    rw [hshape]
    exact parseFrame_lines hevent (Or.inl rfl) (data_lines hpayload .lf htail hmissing)
  | crlf =>
    have hshape : frameBody .crlf event payload ++ tail =
        eventMark ++ ' ' :: event ++ ['\r'] ++ '\n' :: (dataMark ++ ' ' :: payload ++ tail) := by
      simp [frameBody, LineEnding.text]
    rw [hshape]
    exact parseFrame_lines hevent (Or.inr rfl) (data_lines hpayload .crlf htail hmissing)

end Frame

/-! ## Reading the stream -/

section Stream
variable (ending : LineEnding)

theorem takeFrame_blankLine (rest : List Char) : takeFrame (ending.blankLine ++ rest) = some ([], rest) := by
  cases ending with
  | lf => exact takeFrame_lf rest
  | crlf => exact takeFrame_crlf rest

/-- A stream is its first frame, a blank line and the stream of the others. -/
theorem rewrite_stream {event : List Char} {data : Value F} {rest : List (List Char × Value F)} {whole : List Char}
    (hwhole : streamNamed fl ((event, data) :: rest) = some whole) (hevent : OneLine event)
    (hdata : OneLine (encode fl data)) : dumps fl data = some (encode fl data) ∧
    ∃ others, streamNamed fl rest = some others ∧ ending.rewrite whole =
      frameBody ending event (encode fl data) ++ (ending.blankLine ++ ending.rewrite others) := by
  obtain ⟨frame, hframe, hrest⟩ := Option.bind_eq_some_iff.mp hwhole
  obtain ⟨others, hothers, rfl⟩ := Option.map_eq_some_iff.mp hrest
  obtain ⟨payload, hpayload, rfl⟩ := Option.map_eq_some_iff.mp hframe
  have hdumps : dumps fl data = some (encode fl data) := by
    unfold dumps at hpayload ⊢
    split_ifs at hpayload ⊢
    rfl
  obtain rfl : encode fl data = payload := Option.some.inj (hdumps.symm.trans hpayload)
  refine ⟨hdumps, others, hothers, ?_⟩
  have hshape : eventMark ++ ' ' :: event ++ '\n' :: dataMark ++ ' ' :: encode fl data ++ ['\n', '\n'] =
      (eventMark ++ ' ' :: event) ++ (['\n'] ++ ((dataMark ++ ' ' :: encode fl data) ++ (['\n'] ++ ['\n']))) := by
    simp
  have hfeed : ending.rewrite ['\n'] = ending.text := by
    rw [LineEnding.rewrite, List.flatMap_singleton, if_pos rfl]
  rw [hshape, ending.rewrite_append _ others, ending.rewrite_append (eventMark ++ ' ' :: event),
    ending.rewrite_append ['\n'], ending.rewrite_append (dataMark ++ ' ' :: encode fl data),
    ending.rewrite_append ['\n'], hfeed, ending.rewrite_line (eventLine_oneLine hevent).2,
    ending.rewrite_line (dataLine_oneLine hdata).2]
  unfold frameBody LineEnding.blankLine
  simp only [List.append_assoc]

/-- A stream with a frame is longer than a blank line. -/
theorem blankLine_shorter {frames : List (List Char × Value F)} {whole : List Char}
    (hwhole : streamNamed fl frames = some whole) (hframes : frames ≠ [])
    (hlines : ∀ frame ∈ frames, OneLine frame.1 ∧ OneLine (encode fl frame.2)) :
    ending.blankLine.length < (ending.rewrite whole).length := by
  cases frames with
  | nil => exact absurd rfl hframes
  | cons frame rest =>
    obtain ⟨hevent, hdata⟩ := hlines frame List.mem_cons_self
    obtain ⟨-, others, -, heq⟩ := rewrite_stream ending hwhole hevent hdata
    rw [heq]
    have hbody : 0 < (frameBody ending frame.1 (encode fl frame.2)).length := by
      simp [frameBody]
    simp only [List.length_append]
    omega

/-- The frames of a stream, the last of which may have lost a part of its blank line. -/
theorem takeFrames_stream {frames : List (List Char × Value F)} {whole text missing : List Char}
    (hwhole : streamNamed fl frames = some whole)
    (hlines : ∀ frame ∈ frames, OneLine frame.1 ∧ OneLine (encode fl frame.2))
    (htext : text ++ missing = ending.rewrite whole) (hmissing : missing <:+ ending.blankLine) :
    (takeFrames text).1 ++ (parseFrame (takeFrames text).2).toList =
      frames.map fun frame => ⟨frame.1, encode fl frame.2⟩ := by
  induction frames generalizing whole text with
  | nil =>
    obtain rfl : whole = [] := (Option.some.inj hwhole).symm
    obtain ⟨rfl, -⟩ := List.append_eq_nil_iff.mp htext
    rw [takeFrames_none takeFrame_nil]
    rfl
  | cons frame rest ih =>
    obtain ⟨⟨hevent, hdata⟩, hrest⟩ := List.forall_mem_cons.mp hlines
    obtain ⟨-, others, hothers, hstream⟩ := rewrite_stream ending hwhole hevent hdata
    rw [hstream] at htext
    have hparse : parseFrame (frameBody ending frame.1 (encode fl frame.2)) =
        some ⟨frame.1, encode fl frame.2⟩ := by
      have hblank : ending.blankLine ≠ [] := by cases ending <;> simp [LineEnding.blankLine, LineEnding.text]
      have hbody := parseFrame_body hevent hdata ending (List.nil_append ending.blankLine) hblank
      rwa [List.append_nil] at hbody
    have htake (more : List Char) : takeFrames
        (frameBody ending frame.1 (encode fl frame.2) ++ (ending.blankLine ++ more)) =
        (⟨frame.1, encode fl frame.2⟩ :: (takeFrames more).1, (takeFrames more).2) := by
      have hfirst : takeFrame (frameBody ending frame.1 (encode fl frame.2) ++ (ending.blankLine ++ more)) =
          some (frameBody ending frame.1 (encode fl frame.2), more) := by
        rw [takeFrame_body hevent hdata, takeFrame_blankLine, Option.map_some, List.append_nil]
      rw [takeFrames_some hfirst, hparse]
      rfl
    cases rest with
    | cons second later =>
      -- what is missing is missing from the other frames
      have hlonger := blankLine_shorter ending hothers (by simp) hrest
      have hshort := hmissing.length_le
      rw [← List.append_assoc] at htext
      rcases List.append_eq_append_iff.mp htext with ⟨cut, -, hcut⟩ | ⟨text', rfl, hothers'⟩
      · have hlength := congrArg List.length hcut
        rw [List.length_append] at hlength
        omega
      · rw [List.append_assoc, htake, List.cons_append, ih hothers hrest hothers'.symm]
        rfl
    | nil =>
      obtain rfl : others = [] := (Option.some.inj hothers).symm
      obtain ⟨tail, htail⟩ := hmissing
      have hcut : text = frameBody ending frame.1 (encode fl frame.2) ++ tail := by
        have hwhole' : text ++ missing = frameBody ending frame.1 (encode fl frame.2) ++ tail ++ missing := by
          rw [htext, List.append_assoc, htail]
          exact congrArg _ (List.append_nil _)
        exact List.append_cancel_right hwhole'
      by_cases hnone : missing = []
      · rw [hnone, List.append_nil] at htail
        rw [hcut, htail, ← List.append_nil ending.blankLine, htake, takeFrames_none takeFrame_nil]
        rfl
      · have hwaits : takeFrame text = none := by
          rw [hcut, takeFrame_body hevent hdata, takeFrame_unfinished htail hnone]
          rfl
        rw [takeFrames_none hwaits, hcut, parseFrame_body hevent hdata ending htail hnone]
        rfl

end Stream

theorem streamNamed_dumps {frames : List (List Char × Value F)} {whole : List Char}
    (hwhole : streamNamed fl frames = some whole)
    (hlines : ∀ frame ∈ frames, OneLine frame.1 ∧ OneLine (encode fl frame.2)) :
    ∀ frame ∈ frames, dumps fl frame.2 = some (encode fl frame.2) := by
  induction frames generalizing whole with
  | nil => exact fun frame hframe => (List.not_mem_nil hframe).elim
  | cons frame rest ih =>
    obtain ⟨⟨hevent, hdata⟩, hrest⟩ := List.forall_mem_cons.mp hlines
    obtain ⟨hdumps, others, hothers, -⟩ := rewrite_stream .lf hwhole hevent hdata
    exact List.forall_mem_cons.mpr ⟨hdumps, ih hothers hrest⟩

/-- A stream starts with the name of a field. -/
theorem stream_unmarked {frames : List (List Char × Value F)} {whole text missing : List Char}
    (ending : LineEnding) (hwhole : streamNamed fl frames = some whole)
    (hlines : ∀ frame ∈ frames, OneLine frame.1 ∧ OneLine (encode fl frame.2))
    (htext : text ++ missing = ending.rewrite whole) : text.head? ≠ some TextDecoder.byteOrderMark := by
  intro hmark
  obtain ⟨more, rfl⟩ := List.head?_eq_some_iff.mp hmark
  cases frames with
  | nil =>
    obtain rfl : whole = [] := (Option.some.inj hwhole).symm
    exact absurd htext (by simp [LineEnding.rewrite])
  | cons frame rest =>
    obtain ⟨hevent, hdata⟩ := hlines frame List.mem_cons_self
    obtain ⟨-, others, -, heq⟩ := rewrite_stream ending hwhole hevent hdata
    rw [heq] at htext
    exact absurd (List.cons.inj htext).1 (by decide)

theorem joined_bytes (chunks : List ByteArray) :
    (joined chunks).data.toList = chunks.flatMap fun chunk => chunk.data.toList := by
  have hfrom : ∀ before : ByteArray, (chunks.foldl (· ++ ·) before).data.toList =
      before.data.toList ++ chunks.flatMap fun chunk => chunk.data.toList := by
    induction chunks with
    | nil => intro before; simp
    | cons chunk rest ih =>
      intro before
      rw [List.foldl_cons, ih, ByteArray.data_append, Array.toList_append, List.flatMap_cons, List.append_assoc]
  exact hfrom ByteArray.empty

/-- **The browser reads what was written**: event names and payloads, whether or not line endings were rewritten,
however the bytes were cut into chunks, and also when the last blank line is missing, or a part of it. -/
theorem sse_chunks (hfl : fl.Lawful) (frames : List (List Char × Value F))
    (hwf : ∀ frame ∈ frames, frame.2.Every (Value.WellFormed fl)) (hnames : ∀ frame ∈ frames, OneLine frame.1)
    (ending : LineEnding) {whole text missing : List Char} (hwhole : streamNamed fl frames = some whole)
    (htext : text ++ missing = ending.rewrite whole) (hmissing : missing <:+ ending.blankLine)
    {chunks : List ByteArray} (hchunks : joined chunks = text.utf8Encode) :
    (readSse chunks).map (fun frame => (frame.event, some frame.data)) =
      frames.map fun frame => (frame.1, dumps fl frame.2) := by
  have hlines : ∀ frame ∈ frames, OneLine frame.1 ∧ OneLine (encode fl frame.2) := by
    intro frame hframe
    have hcontrols := encode_controls hfl (hwf frame hframe)
    exact ⟨hnames frame hframe, fun h => absurd (hcontrols _ h) (by decide),
      fun h => absurd (hcontrols _ h) (by decide)⟩
  have hbytes : (chunks.flatMap fun chunk => chunk.data.toList) = text.utf8Encode.data.toList := by
    rw [← joined_bytes, hchunks]
  obtain ⟨hdecoded, hflush⟩ := TextDecoder.read_chunks hbytes (stream_unmarked ending hwhole hlines htext)
  have hread : readSse chunks = frames.map fun frame => ⟨frame.1, encode fl frame.2⟩ := by
    unfold readSse
    rw [readFrom_eq .start takeFrame_nil chunks hdecoded, hflush, List.append_nil]
    exact takeFrames_stream ending hwhole hlines htext hmissing
  rw [hread, List.map_map]
  apply List.map_congr_left
  intro frame hframe
  rw [streamNamed_dumps hwhole hlines frame hframe]
  rfl

/-- `event: turn` and `data: "é"` with line endings rewritten, cut inside `é` and inside the only line ending left of
the blank line. -/
theorem sse_chunks_sample :
    (readSse [⟨#[101, 118, 101, 110, 116, 58, 32, 116, 13, 10, 100, 97, 116, 97, 58, 32, 34, 195]⟩, ⟨#[]⟩,
      ⟨#[169, 34, 13]⟩, ⟨#[10]⟩]).map (fun frame => (frame.event, some frame.data)) =
      [(['t'], dumps halves (.str "é"))] := by
  have hcut : ['e', 'v', 'e', 'n', 't', ':', ' ', 't', '\r', '\n', 'd', 'a', 't', 'a', ':', ' ', '"', 'é', '"', '\r',
      '\n'] ++ ['\r', '\n'] = LineEnding.crlf.rewrite (eventMark ++ ' ' :: ['t'] ++ '\n' :: dataMark ++ ' ' ::
        ['"', 'é', '"'] ++ ['\n', '\n']) := by rfl
  exact sse_chunks halves_lawful [(['t'], .str "é")] (by decide) (by decide) .crlf rfl hcut ⟨['\r', '\n'], rfl⟩ (by rfl)

end BankingControlPlane
