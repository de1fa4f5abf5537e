import BankingControlPlane.Text.Utf8

/-!
# The event stream in the browser

* `takeFrame` : the leading complete frame of a buffer; `parseFrame` : the event and the data of its lines;
* `readSse` : the frames of a response, read as its chunks come;
* `takeFrame_append` : what comes later changes no frame that is complete;
* `readFrom_eq` : so the frames are those of the whole text, however it is cut.

Positions in a text are counted in characters.
-/

namespace BankingControlPlane
open Text

/-- `text.indexOf(pattern)`. -/
def indexOf (pattern : List Char) : List Char → Option Nat
  | [] => if pattern = [] then some 0 else none
  | c :: rest => if pattern <+: c :: rest then some 0 else (indexOf pattern rest).map (· + 1)

def blankLf : List Char := ['\n', '\n']

def blankCrlf : List Char := ['\r', '\n', '\r', '\n']

/-- The leading complete frame and what comes after it: of the two terminators the earlier one wins. -/
def takeFrame (buffer : List Char) : Option (List Char × List Char) :=
  match indexOf blankLf buffer, indexOf blankCrlf buffer with
  | none, none => none
  | none, some crlf => some (buffer.take crlf, buffer.drop (crlf + 4))
  | some lf, none => some (buffer.take lf, buffer.drop (lf + 2))
  | some lf, some crlf =>
    if crlf < lf then some (buffer.take crlf, buffer.drop (crlf + 4))
    else some (buffer.take lf, buffer.drop (lf + 2))

/-- A frame as the client has it. -/
structure ClientFrame where
  event : List Char
  data : List Char
deriving DecidableEq, Repr

/-- What the lines of a frame have said so far. -/
structure FrameFields where
  event : List Char := ['m', 'e', 's', 's', 'a', 'g', 'e']
  data : List (List Char) := []
deriving DecidableEq, Repr

/-- A line without the carriage return it may end with. -/
def unreturned (rawLine : List Char) : List Char :=
  if rawLine.getLast? = some '\r' then rawLine.dropLast else rawLine

/-- A value without the one space it may start with. -/
def unspaced (value : List Char) : List Char :=
  if value.head? = some ' ' then value.tail else value

/-- One line that is neither blank nor a comment. -/
def FrameFields.read (fields : FrameFields) (line : List Char) : FrameFields :=
  let field := match indexOf [':'] line with
    | none => line
    | some colon => line.take colon
  let value := match indexOf [':'] line with
    | none => []
    | some colon => line.drop (colon + 1)
  if field = ['e', 'v', 'e', 'n', 't'] then { fields with event := unspaced value }
  else if field = ['d', 'a', 't', 'a'] then { fields with data := fields.data ++ [unspaced value] }
  else fields

def FrameFields.line (fields : FrameFields) (rawLine : List Char) : FrameFields :=
  let line := unreturned rawLine
  if line = [] ∨ line.head? = some ':' then fields else fields.read line

/-- The event and the data of a frame, unless it has no data. -/
def parseFrame (frame : List Char) : Option ClientFrame :=
  let fields := (frame.splitOn '\n').foldl FrameFields.line {}
  if fields.data = [] then none else some { event := fields.event, data := ['\n'].intercalate fields.data }

/-! ## Taking frames -/

@[simp] theorem takeFrame_nil : takeFrame [] = none := rfl

theorem indexOf_prefix {pattern text : List Char} (h : pattern <+: text) : indexOf pattern text = some 0 := by
  cases text with
  | nil => exact if_pos (List.prefix_nil.mp h)
  | cons c rest => exact if_pos h

theorem indexOf_cons {pattern rest : List Char} {c : Char} (h : ¬ pattern <+: c :: rest) :
    indexOf pattern (c :: rest) = (indexOf pattern rest).map (· + 1) :=
  if_neg h

theorem takeFrame_lf (rest : List Char) : takeFrame (blankLf ++ rest) = some ([], rest) := by
  have hlf : indexOf blankLf (blankLf ++ rest) = some 0 := indexOf_prefix (List.prefix_append _ _)
  unfold takeFrame
  rw [hlf]
  cases indexOf blankCrlf (blankLf ++ rest) with
  | none => rfl
  | some crlf => exact if_neg (Nat.not_lt_zero crlf)

theorem takeFrame_crlf (rest : List Char) : takeFrame (blankCrlf ++ rest) = some ([], rest) := by
  have hcrlf : indexOf blankCrlf (blankCrlf ++ rest) = some 0 := indexOf_prefix (List.prefix_append _ _)
  have hlf : indexOf blankLf (blankCrlf ++ rest) = (indexOf blankLf ('\n' :: '\r' :: '\n' :: rest)).map (· + 1) := by
    apply indexOf_cons
    rintro ⟨more, hmore⟩
    exact absurd (List.cons.inj hmore).1 (by decide)
  unfold takeFrame
  rw [hcrlf, hlf]
  cases indexOf blankLf ('\n' :: '\r' :: '\n' :: rest) with
  | none => rfl
  | some lf => exact if_pos (Nat.succ_pos lf)

/-- A character that starts no terminator belongs to the frame. -/
theorem takeFrame_cons {c : Char} {rest : List Char} (hlf : ¬ blankLf <+: c :: rest)
    (hcrlf : ¬ blankCrlf <+: c :: rest) :
    takeFrame (c :: rest) = (takeFrame rest).map fun taken => (c :: taken.1, taken.2) := by
  unfold takeFrame
  rw [indexOf_cons hlf, indexOf_cons hcrlf]
  cases indexOf blankLf rest with
  | none =>
    cases indexOf blankCrlf rest with
    | none => rfl
    | some crlf => rfl
  | some lf =>
    cases indexOf blankCrlf rest with
    | none => rfl
    | some crlf =>
      by_cases h : crlf < lf
      · change (if crlf + 1 < lf + 1 then _ else _) = (if crlf < lf then _ else _ : Option _).map _
        rw [if_pos h, if_pos (Nat.succ_lt_succ h)]
        rfl
      · change (if crlf + 1 < lf + 1 then _ else _) = (if crlf < lf then _ else _ : Option _).map _
        rw [if_neg h, if_neg (by omega)]
        rfl

/-- Where a frame ends: at a terminator, or later. -/
theorem takeFrame_cases {buffer frame rest : List Char} (h : takeFrame buffer = some (frame, rest)) :
    (frame = [] ∧ (buffer = blankLf ++ rest ∨ buffer = blankCrlf ++ rest)) ∨
      ∃ c frame' buffer', buffer = c :: buffer' ∧ frame = c :: frame' ∧ takeFrame buffer' = some (frame', rest) ∧
        ¬ blankLf <+: buffer ∧ ¬ blankCrlf <+: buffer := by
  cases buffer with
  | nil => exact absurd h (by simp)
  | cons c buffer' =>
    by_cases hlf : blankLf <+: c :: buffer'
    · obtain ⟨more, hmore⟩ := hlf
      rw [← hmore, takeFrame_lf] at h
      obtain ⟨rfl, rfl⟩ := Prod.mk.inj (Option.some.inj h)
      exact Or.inl ⟨rfl, Or.inl hmore.symm⟩
    by_cases hcrlf : blankCrlf <+: c :: buffer'
    · obtain ⟨more, hmore⟩ := hcrlf
      rw [← hmore, takeFrame_crlf] at h
      obtain ⟨rfl, rfl⟩ := Prod.mk.inj (Option.some.inj h)
      exact Or.inl ⟨rfl, Or.inr hmore.symm⟩
    rw [takeFrame_cons hlf hcrlf] at h
    obtain ⟨⟨frame', rest'⟩, htaken, heq⟩ := Option.map_eq_some_iff.mp h
    obtain ⟨rfl, rfl⟩ := Prod.mk.inj heq
    exact Or.inr ⟨c, frame', buffer', rfl, rfl, htaken, hlf, hcrlf⟩

theorem takeFrame_shorter {buffer frame rest : List Char} (h : takeFrame buffer = some (frame, rest)) :
    rest.length < buffer.length := by
  induction buffer generalizing frame with
  | nil => exact absurd h (by simp)
  | cons c buffer ih =>
    rcases takeFrame_cases h with ⟨-, hbuffer | hbuffer⟩ | ⟨c', frame', buffer', heq, -, htaken, -, -⟩
    · rw [hbuffer, List.length_append]
      exact Nat.lt_add_of_pos_left (by decide)
    · rw [hbuffer, List.length_append]
      exact Nat.lt_add_of_pos_left (by decide)
    · obtain ⟨rfl, rfl⟩ := List.cons.inj heq
      exact Nat.lt_succ_of_lt (ih htaken)

/-! ## Reading on -/

/-- The complete frames of a buffer, and what is left in it. -/
def takeFrames (buffer : List Char) : List ClientFrame × List Char :=
  match h : takeFrame buffer with
  | none => ([], buffer)
  | some (frame, rest) =>
    let later := takeFrames rest
    ((parseFrame frame).toList ++ later.1, later.2)
termination_by buffer.length
decreasing_by exact takeFrame_shorter h

/-- The rest of a response, with a buffer of what is unread. -/
def readFrom (decoder : TextDecoder) (buffer : List Char) : List ByteArray → List ClientFrame
  | [] => (parseFrame (buffer ++ decoder.flush)).toList
  | chunk :: rest =>
    let decoded := decoder.decode chunk
    let taken := takeFrames (buffer ++ decoded.1)
    taken.1 ++ readFrom decoded.2 taken.2 rest

/-- The frames of a response whose body comes in these chunks. -/
def readSse (chunks : List ByteArray) : List ClientFrame := readFrom .start [] chunks

/-- A text that has begun a terminator has none yet. -/
theorem takeFrame_begun {pattern : List Char} (hpattern : pattern = blankLf ∨ pattern = blankCrlf) {c : Char}
    {text more : List Char} (habsent : ¬ pattern <+: c :: text) (h : pattern <+: c :: (text ++ more)) :
    takeFrame text = none := by
  have hshort : text.length + 1 < pattern.length := by
    by_contra hlong
    exact habsent (List.prefix_of_prefix_length_le h (List.prefix_append (c :: text) more)
      (by simpa using hlong))
  have hprefix : c :: text <+: pattern :=
    List.prefix_of_prefix_length_le (List.prefix_append (c :: text) more) h (Nat.le_of_lt hshort)
  have htext : text = pattern.tail.take text.length := by
    have hdrop : text <+: pattern.tail := by
      obtain ⟨rest, hrest⟩ := hprefix
      exact ⟨rest, by rw [← hrest]; rfl⟩
    exact List.prefix_iff_eq_take.mp hdrop
  rw [htext]
  rcases hpattern with rfl | rfl
  · have hlength : text.length = 0 := by
      have htwo : blankLf.length = 2 := rfl
      omega
    rw [hlength]
    rfl
  · have hlength : text.length = 0 ∨ text.length = 1 ∨ text.length = 2 := by
      have hfour : blankCrlf.length = 4 := rfl
      omega
    rcases hlength with h0 | h1 | h2
    · rw [h0]
      rfl
    · rw [h1]
      rfl
    · rw [h2]
      rfl

/-- What comes later changes no frame that is complete. -/
theorem takeFrame_append {buffer frame rest : List Char} (h : takeFrame buffer = some (frame, rest))
    (more : List Char) : takeFrame (buffer ++ more) = some (frame, rest ++ more) := by
  induction buffer generalizing frame with
  | nil => exact absurd h (by simp)
  | cons c buffer ih =>
    rcases takeFrame_cases h with ⟨rfl, hbuffer | hbuffer⟩ | ⟨c', frame', buffer', heq, rfl, htaken, hlf, hcrlf⟩
    · rw [hbuffer, List.append_assoc, takeFrame_lf]
    · rw [hbuffer, List.append_assoc, takeFrame_crlf]
    · obtain ⟨rfl, rfl⟩ := List.cons.inj heq
      have hfound : takeFrame buffer ≠ none := by simp [htaken]
      have hlf' : ¬ blankLf <+: c :: (buffer ++ more) := fun h => hfound (takeFrame_begun (Or.inl rfl) hlf h)
      have hcrlf' : ¬ blankCrlf <+: c :: (buffer ++ more) := fun h => hfound (takeFrame_begun (Or.inr rfl) hcrlf h)
      rw [List.cons_append, takeFrame_cons hlf' hcrlf', ih htaken]
      rfl

theorem takeFrames_none {buffer : List Char} (h : takeFrame buffer = none) : takeFrames buffer = ([], buffer) := by
  rw [takeFrames]
  split
  · rfl
  · next heq => exact absurd (h.symm.trans heq) (by simp)

theorem takeFrames_some {buffer frame rest : List Char} (h : takeFrame buffer = some (frame, rest)) :
    takeFrames buffer = ((parseFrame frame).toList ++ (takeFrames rest).1, (takeFrames rest).2) := by
  rw [takeFrames]
  split
  · next heq => exact absurd (h.symm.trans heq) (by simp)
  · next heq =>
    obtain ⟨rfl, rfl⟩ := Prod.mk.inj (Option.some.inj (h.symm.trans heq))
    rfl

/-- What is left has no complete frame. -/
theorem takeFrame_left (buffer : List Char) : takeFrame (takeFrames buffer).2 = none := by
  induction buffer using takeFrames.induct with
  | case1 buffer h => rw [takeFrames_none h, h]
  | case2 buffer frame rest h ih => rw [takeFrames_some h, ih]

theorem takeFrames_append (buffer more : List Char) :
    takeFrames (buffer ++ more) = ((takeFrames buffer).1 ++ (takeFrames ((takeFrames buffer).2 ++ more)).1,
      (takeFrames ((takeFrames buffer).2 ++ more)).2) := by
  induction buffer using takeFrames.induct with
  | case1 buffer h =>
    rw [takeFrames_none h]
    rfl
  | case2 buffer frame rest h ih =>
    rw [takeFrames_some h, takeFrames_some (takeFrame_append h more), ih]
    dsimp only
    rw [List.append_assoc]

/-- **However a text is cut**, the frames read are those of the whole. -/
theorem readFrom_eq (decoder : TextDecoder) {buffer : List Char} (h : takeFrame buffer = none)
    (chunks : List ByteArray) {text : List Char} (htext : buffer ++ (decoder.read chunks).1.flatten = text) :
    readFrom decoder buffer chunks = (takeFrames text).1 ++
      (parseFrame ((takeFrames text).2 ++ (decoder.read chunks).2.flush)).toList := by
  subst htext
  induction chunks generalizing decoder buffer with
  | nil =>
    have hread : decoder.read [] = ([], decoder) := rfl
    rw [hread, List.flatten_nil, List.append_nil, takeFrames_none h]
    rfl
  | cons chunk rest ih =>
    have hread : decoder.read (chunk :: rest) = ((decoder.decode chunk).1 :: ((decoder.decode chunk).2.read rest).1,
      ((decoder.decode chunk).2.read rest).2) := rfl
    rw [hread, List.flatten_cons, ← List.append_assoc, takeFrames_append]
    dsimp only
    rw [List.append_assoc, ← ih (decoder.decode chunk).2 (takeFrame_left _)]
    rfl

end BankingControlPlane
