import BankingControlPlane.Json.Characters
import BankingControlPlane.Runtime.Events

/-!
# From the wire and back

* `Separator` : the line breaks that JSON does not escape;
* `RoundTrips` : for every way to cut the bytes of a stream, what is read is what was written;
* `sse_round_trip` : so it is exactly when no string has a separator and every integer can be written.
-/

namespace BankingControlPlane
open Json Text

variable {F : Type} {fl : Floats F}

/-- U+0085, U+2028 and U+2029. -/
def Separator (c : Char) : Prop := c.toNat = 0x85 ∨ c.toNat = 0x2028 ∨ c.toNat = 0x2029

instance (c : Char) : Decidable (Separator c) := inferInstanceAs (Decidable (_ ∨ _ ∨ _))

/-- The frames of a stream, one after the other. -/
def stream (fl : Floats F) : List (WireName × Value F) → Option (List Char)
  | [] => some []
  | (event, data) :: rest => (sse fl event.text data).bind fun frame => (stream fl rest).map (frame ++ ·)

/-- The chunks put together. -/
def joined (chunks : List ByteArray) : ByteArray := chunks.foldl (· ++ ·) ByteArray.empty

/-- A source of lines that breaks where `str.splitlines` does, however the bytes come. -/
def BreaksLines (aiterLines : List ByteArray → List (List Char)) : Prop :=
  ∀ chunks text, joined chunks = text.utf8Encode → aiterLines chunks = splitlines text

/-- The stream of the frames can be written, and reads as the frames. -/
def RoundTrips (fl : Floats F) (aiterLines : List ByteArray → List (List Char))
    (frames : List (WireName × Value F)) : Prop :=
  ∃ text, stream fl frames = some text ∧ ∀ chunks, joined chunks = text.utf8Encode →
    iterSse fl [] (aiterLines chunks) = ⟨frames.map fun frame => (frame.1.text, frame.2), false⟩

/-- No string in the value has a separator, and every integer can be written. -/
def Plain (v : Value F) : Prop := v.Every Value.Printable ∧ v.Every (Value.Strings fun c => ¬ Separator c)

instance (v : Value F) : Decidable (Plain v) := inferInstanceAs (Decidable (_ ∧ _))

/-! ## Payloads -/

theorem break_cases {c : Char} (h : isLineBreak c = true) : c.toNat < 32 ∨ Separator c := by
  simp only [isLineBreak, Bool.or_eq_true, Bool.and_eq_true, decide_eq_true_eq] at h
  unfold Separator
  omega

theorem separator_break {c : Char} (h : Separator c) : isLineBreak c = true := by
  simp only [isLineBreak, Bool.or_eq_true, decide_eq_true_eq]
  unfold Separator at h
  tauto

section Payload
variable (hfl : fl.Lawful) {v : Value F} (hwf : v.Every (Value.WellFormed fl))
include hfl hwf

/-- No control character is left in a payload. -/
theorem encode_controls : ∀ c ∈ encode fl v, 32 ≤ c.toNat := by
  have hascii : ∀ c : Char, 32 ≤ c.toNat → c.toNat < 127 → 32 ≤ c.toNat := fun _ hlow _ => hlow
  exact (encode_all hascii hfl v hwf).mpr fun part _ => Value.Strings.all (fun c => Nat.lt_or_ge _ _) part

/-- The line breaks of a payload are the separators in its strings. -/
theorem encode_breaks :
    (∀ c ∈ encode fl v, isLineBreak c = false) ↔ v.Every (Value.Strings fun c => ¬ Separator c) := by
  have hascii : ∀ c : Char, 32 ≤ c.toNat → c.toNat < 127 → ¬ Separator c := by
    unfold Separator
    omega
  have hcontrol : ∀ c : Char, c.toNat < 32 ∨ ¬ Separator c → ¬ Separator c := by
    rintro c (h | h)
    · unfold Separator
      omega
    · exact h
  have hall := encode_all hascii hfl v hwf
  constructor
  · intro h
    refine (hall.mp fun c hc hsep => ?_).mono fun part => Value.Strings.mono hcontrol part
    have hbreak := h c hc
    rw [separator_break hsep] at hbreak
    cases hbreak
  · intro h c hc
    have hnone := hall.mpr (h.mono fun part => Value.Strings.mono (fun _ => Or.inr) part) c hc
    have hlow := encode_controls hfl hwf c hc
    by_contra hbreak
    rcases break_cases (by simpa using hbreak) with hcontrol | hsep
    · omega
    · exact hnone hsep

/-- A payload with a separator is cut at the first, and is a string, a list or an object. -/
theorem encode_cut (h : ¬ v.Every (Value.Strings fun c => ¬ Separator c)) :
    (∃ cut c missing, encode fl v = cut ++ c :: missing ∧ (∀ d ∈ cut, isLineBreak d = false) ∧
      isLineBreak c = true ∧ c ≠ '\r') ∧ ∃ first whole, Opens first ∧ encode fl v = first :: whole := by
  constructor
  · have hsplit := List.takeWhile_append_dropWhile (p := fun c => !isLineBreak c) (l := encode fl v)
    have hline : ∀ d ∈ (encode fl v).takeWhile fun c => !isLineBreak c, isLineBreak d = false := fun d hd => by
      simpa using List.all_eq_true.mp List.all_takeWhile d hd
    cases hdrop : (encode fl v).dropWhile fun c => !isLineBreak c with
    | nil =>
      rw [hdrop, List.append_nil] at hsplit
      rw [hsplit] at hline
      exact absurd ((encode_breaks hfl hwf).mp hline) h
    | cons c missing =>
      rw [hdrop] at hsplit
      have hhead := List.head?_dropWhile_not (fun c => !isLineBreak c) (encode fl v)
      rw [hdrop, List.head?_cons] at hhead
      refine ⟨_, c, missing, hsplit.symm, hline, by simpa using hhead, ?_⟩
      rintro rfl
      have hlow := encode_controls hfl hwf '\r' (by rw [← hsplit]; simp)
      exact absurd hlow (by decide)
  · cases v with
    | str s => exact ⟨'"', _, Or.inl rfl, rfl⟩
    | arr items => cases items <;> exact ⟨'[', _, Or.inr (Or.inl rfl), rfl⟩
    | obj fields => cases fields <;> exact ⟨'{', _, Or.inr (Or.inr rfl), rfl⟩
    | null => exact absurd (by simp [Value.Every, Value.parts, Value.Strings]) h
    | bool b => exact absurd (by simp [Value.Every, Value.parts, Value.Strings]) h
    | int i => exact absurd (by simp [Value.Every, Value.parts, Value.Strings]) h
    | float f => exact absurd (by simp [Value.Every, Value.parts, Value.Strings]) h

end Payload

/-! ## Frames -/

theorem rstrip_endsVisible {text : List Char} (h : EndsVisible text) : rstrip text = text := by
  obtain ⟨before, c, rfl, hlow, hhigh⟩ := h
  refine rstrip_snoc before ?_
  simp only [isSpace, Bool.or_eq_false_iff, Bool.and_eq_false_iff, decide_eq_false_iff_not]
  omega

theorem strip_space {c : Char} (hc : Visible c) (text : List Char) :
    strip (' ' :: c :: text) = rstrip (c :: text) := by
  have hspace : isSpace c = false := by
    obtain ⟨hlow, hhigh⟩ := hc
    simp only [isSpace, Bool.or_eq_false_iff, Bool.and_eq_false_iff, decide_eq_false_iff_not]
    omega
  rw [strip, List.dropWhile_cons_of_pos (by decide), dropWhile_space hspace]

theorem unbroken {text : List Char} (h : (text.all fun c => !isLineBreak c) = true) :
    ∀ c ∈ text, isLineBreak c = false := fun c hc => by
  simpa using List.all_eq_true.mp h c hc

theorem name_plain (event : WireName) :
    (∀ c ∈ eventMark ++ ' ' :: event.text, isLineBreak c = false) ∧ strip (' ' :: event.text) = event.text ∧
      event.text ≠ [] := by
  refine ⟨unbroken ?_, ?_⟩
  · cases event <;> rfl
  · cases event <;> decide

/-- The lines of a stream that begins with a frame. -/
theorem frame_lines (event : WireName) (payload rest : List Char) :
    splitlines (eventMark ++ ' ' :: event.text ++ '\n' :: dataMark ++ ' ' :: payload ++ ['\n', '\n'] ++ rest) =
      (eventMark ++ ' ' :: event.text) :: splitlines (dataMark ++ ' ' :: payload ++ '\n' :: '\n' :: rest) := by
  have hline := splitlines_line (name_plain event).1 (by decide : isLineBreak '\n' = true) (by decide)
    (dataMark ++ ' ' :: payload ++ '\n' :: '\n' :: rest)
  rw [← hline]
  congr 1
  simp

theorem iterSse_event (event : WireName) (before : List Char) (lines : List (List Char)) :
    iterSse fl before ((eventMark ++ ' ' :: event.text) :: lines) = iterSse fl event.text lines := by
  have hdrop : (eventMark ++ ' ' :: event.text).drop 6 = ' ' :: event.text := by
    rw [List.drop_append_of_le_length (by decide)]
    rfl
  rw [iterSse, if_neg (by simp [eventMark]), if_pos (List.prefix_append _ _), hdrop, (name_plain event).2.1]

theorem iterSse_data (event : WireName) (payload : List Char) (lines : List (List Char)) :
    iterSse fl event.text ((dataMark ++ ' ' :: payload) :: lines) =
      match loads fl (strip (' ' :: payload)) with
      | none => ⟨[], true⟩
      | some data =>
        ⟨(event.text, data) :: (iterSse fl event.text lines).frames, (iterSse fl event.text lines).raised⟩ := by
  have hdrop : (dataMark ++ ' ' :: payload).drop 5 = ' ' :: payload := by
    rw [List.drop_append_of_le_length (by decide)]
    rfl
  have hmark : ¬ eventMark <+: dataMark ++ ' ' :: payload := by
    rintro ⟨rest, h⟩
    cases h
  have hdata : dataMark <+: dataMark ++ ' ' :: payload ∧ event.text ≠ [] :=
    ⟨List.prefix_append _ _, (name_plain event).2.2⟩
  rw [← hdrop]
  exact (if_neg (List.cons_ne_nil _ _)).trans ((if_neg hmark).trans (if_pos hdata))

/-- What is read off a frame and what comes after it, when the payload is plain. -/
theorem read_plain (hfl : fl.Lawful) {event : WireName} {v : Value F} (hwf : v.Every (Value.WellFormed fl))
    (hplain : Plain v) (before rest : List Char) :
    iterSse fl before (splitlines (eventMark ++ ' ' :: event.text ++ '\n' :: dataMark ++ ' ' :: encode fl v ++
        ['\n', '\n'] ++ rest)) =
      ⟨(event.text, v) :: (iterSse fl [] (splitlines rest)).frames, (iterSse fl [] (splitlines rest)).raised⟩ := by
  have hbreaks := (encode_breaks hfl hwf).mpr hplain.2
  have hline : ∀ c ∈ dataMark ++ ' ' :: encode fl v, isLineBreak c = false := by
    intro c hc
    rcases List.mem_append.mp hc with hc | hc
    · exact unbroken rfl c hc
    · rcases List.mem_cons.mp hc with rfl | hc
      · decide
      · exact hbreaks c hc
  have hnone : ∀ c ∈ ([] : List Char), isLineBreak c = false := fun c hc => (List.not_mem_nil hc).elim
  have hempty : ∀ rest, splitlines ('\n' :: rest) = [] :: splitlines rest := fun rest =>
    splitlines_line hnone (by decide) (by decide) rest
  obtain ⟨c, more, htext, hvisible, -⟩ := encode_token hfl v hwf.self (Or.inl rfl)
  have hstrip : strip (' ' :: encode fl v) = encode fl v := by
    rw [htext, strip_space hvisible, ← htext, rstrip_endsVisible (encode_endsVisible hfl hwf.self)]
  have hloads : loads fl (encode fl v) = some v := loads_dumps hfl hwf (if_pos hplain.1)
  rw [frame_lines, iterSse_event, splitlines_line hline (by decide) (by decide), hempty, iterSse_data, hstrip, hloads]
  dsimp only
  rw [iterSse, if_pos rfl]

/-- A frame whose payload is cut raises. -/
theorem read_cut (hfl : fl.Lawful) {event : WireName} {v : Value F} (hwf : v.Every (Value.WellFormed fl))
    (hprintable : v.Every Value.Printable) (hcut : ¬ v.Every (Value.Strings fun c => ¬ Separator c))
    (before rest : List Char) :
    iterSse fl before (splitlines (eventMark ++ ' ' :: event.text ++ '\n' :: dataMark ++ ' ' :: encode fl v ++
        ['\n', '\n'] ++ rest)) = ⟨[], true⟩ := by
  obtain ⟨⟨cut, c, missing, hencode, hcutLine, hbreak, hreturn⟩, first, whole, hfirst, hwhole⟩ :=
    encode_cut hfl hwf hcut
  have hline : ∀ d ∈ dataMark ++ ' ' :: cut, isLineBreak d = false := by
    intro d hd
    rcases List.mem_append.mp hd with hd | hd
    · exact unbroken rfl d hd
    · rcases List.mem_cons.mp hd with rfl | hd
      · decide
      · exact hcutLine d hd
  have hshape : dataMark ++ ' ' :: encode fl v ++ '\n' :: '\n' :: rest =
      dataMark ++ ' ' :: cut ++ c :: (missing ++ '\n' :: '\n' :: rest) := by
    rw [hencode]
    simp
  have hnone : loads fl (strip (' ' :: cut)) = none := by
    cases cut with
    | nil => rfl
    | cons d cut =>
      have hd : d = first := by
        rw [hwhole, List.cons_append] at hencode
        exact (List.cons.inj hencode).1.symm
      have hvisible : Visible d := by rcases hd ▸ hfirst with h | h | h <;> rw [h] <;> exact ⟨by decide, by decide⟩
      rw [strip_space hvisible]
      obtain ⟨space, hspace⟩ := rstrip_prefix (d :: cut)
      have hmissing : encode fl v = rstrip (d :: cut) ++ (space ++ c :: missing) := by
        rw [← List.append_assoc, hspace, hencode]
      exact loads_cut hfl hwf hprintable hfirst hwhole hmissing (by simp)
  rw [frame_lines, iterSse_event, hshape, splitlines_line hline hbreak hreturn, iterSse_data, hnone]

/-! ## Streams -/

/-- What is read off the lines of a whole stream. -/
theorem stream_reads (hfl : fl.Lawful) {frames : List (WireName × Value F)}
    (hwf : ∀ frame ∈ frames, frame.2.Every (Value.WellFormed fl))
    (hprintable : ∀ frame ∈ frames, frame.2.Every Value.Printable) (before : List Char) :
    ∃ text, stream fl frames = some text ∧
      (iterSse fl before (splitlines text) = ⟨frames.map fun frame => (frame.1.text, frame.2), false⟩ ↔
        ∀ frame ∈ frames, frame.2.Every (Value.Strings fun c => ¬ Separator c)) := by
  induction frames generalizing before with
  | nil => exact ⟨[], rfl, by simp [splitlines, linesFrom, iterSse]⟩
  | cons frame rest ih =>
    obtain ⟨event, v⟩ := frame
    obtain ⟨hv, hwf⟩ := List.forall_mem_cons.mp hwf
    obtain ⟨hdigits, hprintable⟩ := List.forall_mem_cons.mp hprintable
    obtain ⟨text, htext, hreads⟩ := ih hwf hprintable []
    have hsse : sse fl event.text v = some (eventMark ++ ' ' :: event.text ++ '\n' :: dataMark ++ ' ' ::
        encode fl v ++ ['\n', '\n']) := by
      have hdumps : dumps fl v = some (encode fl v) := if_pos hdigits
      rw [sse, hdumps]
      rfl
    refine ⟨_, by rw [stream, hsse, Option.bind_some, htext, Option.map_some], ?_⟩
    rw [List.forall_mem_cons]
    by_cases hstrings : v.Every (Value.Strings fun c => ¬ Separator c)
    · rw [read_plain hfl hv ⟨hdigits, hstrings⟩, and_iff_right hstrings, ← hreads, List.map_cons]
      cases iterSse fl [] (splitlines text)
      simp
    · rw [read_cut hfl hv hdigits hstrings]
      refine iff_of_false (fun h => ?_) fun h => hstrings h.1
      cases congrArg Yielded.raised h

/-- A stream that can be written has no integer too long. -/
theorem stream_printable {frames : List (WireName × Value F)} {text : List Char}
    (h : stream fl frames = some text) : ∀ frame ∈ frames, frame.2.Every Value.Printable := by
  induction frames generalizing text with
  | nil => exact fun frame hframe => (List.not_mem_nil hframe).elim
  | cons frame rest ih =>
    obtain ⟨event, v⟩ := frame
    obtain ⟨written, hsse, h⟩ := Option.bind_eq_some_iff.mp h
    obtain ⟨after, hafter, -⟩ := Option.map_eq_some_iff.mp h
    obtain ⟨payload, hpayload, -⟩ := Option.map_eq_some_iff.mp hsse
    unfold dumps at hpayload
    split_ifs at hpayload with hprintable
    exact List.forall_mem_cons.mpr ⟨hprintable, ih hafter⟩

theorem joined_singleton (bytes : ByteArray) : joined [bytes] = bytes := by
  rw [joined, List.foldl_cons, List.foldl_nil]
  exact ByteArray.empty_append

/-- How the bytes are cut into chunks makes no difference. -/
theorem roundTrips_iff {aiterLines : List ByteArray → List (List Char)} (hlines : BreaksLines aiterLines)
    (frames : List (WireName × Value F)) :
    RoundTrips fl aiterLines frames ↔ ∃ text, stream fl frames = some text ∧
      iterSse fl [] (splitlines text) = ⟨frames.map fun frame => (frame.1.text, frame.2), false⟩ := by
  refine exists_congr fun text => and_congr_right fun _ => ?_
  constructor
  · intro h
    have hwhole := joined_singleton text.utf8Encode
    rw [← hlines _ text hwhole]
    exact h _ hwhole
  · intro h chunks hchunks
    rw [hlines chunks text hchunks]
    exact h

/-- **Frames survive the wire** exactly when their payloads are plain: otherwise an integer cannot be written, or
a separator ends the line of its payload early, and reading it raises. -/
theorem sse_round_trip (hfl : fl.Lawful) {aiterLines : List ByteArray → List (List Char)}
    (hlines : BreaksLines aiterLines) (frames : List (WireName × Value F))
    (hwf : ∀ frame ∈ frames, frame.2.Every (Value.WellFormed fl)) :
    RoundTrips fl aiterLines frames ↔ ∀ frame ∈ frames, Plain frame.2 := by
  rw [roundTrips_iff hlines]
  constructor
  · rintro ⟨text, htext, hreads⟩
    have hprintable := stream_printable htext
    obtain ⟨text', htext', hiff⟩ := stream_reads hfl hwf hprintable []
    obtain rfl := Option.some.inj (htext.symm.trans htext')
    exact fun frame hframe => ⟨hprintable frame hframe, hiff.mp hreads frame hframe⟩
  · intro h
    obtain ⟨text, htext, hiff⟩ := stream_reads hfl hwf (fun frame hframe => (h frame hframe).1) []
    exact ⟨text, htext, hiff.mpr fun frame hframe => (h frame hframe).2⟩

inductive Half where
  | half | other
deriving DecidableEq

/-- One half, and all that is no number. -/
def halves : Floats Half where
  text f := match f with
    | .half => ['0', '.', '5']
    | .other => ['N', 'a', 'N']
  read text := if text = ['0', '.', '5'] then .half else .other
  nan := .other
  infinity := .other
  negInfinity := .other
  Finite f := f = .half

instance : DecidablePred halves.Finite := fun f => inferInstanceAs (Decidable (f = .half))

theorem halves_lawful : halves.Lawful where
  number := by
    rintro f rfl
    exact ⟨['0'], ['.', '5'], [], rfl, ⟨['0'], ⟨by simp, by simp⟩, fun _ => rfl, Or.inl rfl⟩,
      Or.inr ⟨['5'], ⟨by simp, by simp⟩, rfl⟩, Or.inl rfl, by decide⟩
  read_text := by
    rintro f rfl
    rfl

/-- The whole of the bytes, decoded, in lines. -/
def wholeLines (chunks : List ByteArray) : List (List Char) :=
  splitlines ((joined chunks).utf8Decode?.getD #[]).toList

theorem wholeLines_breaks : BreaksLines wholeLines := by
  intro chunks text h
  rw [wholeLines, h, List.utf8Decode?_utf8Encode]
  rfl

theorem sse_round_trip_sample : RoundTrips halves wholeLines
    [(.stage, .obj [("label", .str "saída"), ("ns", .int 12)]), (.turn, .arr [.float .half, .null, .bool true])] := by
  exact (sse_round_trip halves_lawful wholeLines_breaks _ (by decide)).mpr (by decide)

/-- A line separator in the text of an answer. -/
theorem separator_lost : ¬ RoundTrips halves wholeLines [(.turn, .str "a\u2028b")] := by
  rw [roundTrips_iff wholeLines_breaks]
  rintro ⟨text, htext, hreads⟩
  obtain rfl := Option.some.inj htext
  exact absurd (congrArg Yielded.raised hreads) (by decide)

end BankingControlPlane
