import Mathlib.Data.List.Basic

/-!
# Decoding UTF-8 as it comes

* `Utf8` : the code point under way, and what the next byte of it may be; `step` reads one byte, and what is
  ill-formed becomes U+FFFD;
* `decode_utf8Encode` : the bytes of a text are decoded to the text;
* `TextDecoder` : the decoder of a stream, which leaves out a byte order mark at the start;
* `TextDecoder.read_chunks` : however the bytes of a text are cut, the text is what the chunks are decoded to.
-/

namespace Text

/-- The code point under way, how many of its further bytes have been seen and how many are needed, and the
bounds of the next. -/
structure Utf8 where
  codePoint : Nat := 0
  seen : Nat := 0
  needed : Nat := 0
  lower : Nat := 0x80
  upper : Nat := 0xBF
deriving DecidableEq, Repr

namespace Utf8

/-- Between two code points. -/
def start : Utf8 := {}

def replacement : Char := Char.ofNat 0xFFFD

/-- The first byte of a sequence. -/
def first (byte : Nat) : List Char × Utf8 :=
  if byte ≤ 0x7F then ([Char.ofNat byte], start)
  else if 0xC2 ≤ byte ∧ byte ≤ 0xDF then ([], { needed := 1, codePoint := byte % 0x20 })
  else if 0xE0 ≤ byte ∧ byte ≤ 0xEF then
    ([], { needed := 2, codePoint := byte % 0x10, lower := if byte = 0xE0 then 0xA0 else 0x80,
           upper := if byte = 0xED then 0x9F else 0xBF })
  else if 0xF0 ≤ byte ∧ byte ≤ 0xF4 then
    ([], { needed := 3, codePoint := byte % 0x8, lower := if byte = 0xF0 then 0x90 else 0x80,
           upper := if byte = 0xF4 then 0x8F else 0xBF })
  else ([replacement], start)

/-- One byte: the characters it completes, and what is under way after it. -/
def step (s : Utf8) (byte : UInt8) : List Char × Utf8 :=
  if s.needed = 0 then first byte.toNat
  else if byte.toNat < s.lower ∨ s.upper < byte.toNat then
    -- the sequence is ill-formed, and the byte may be the first of another
    let again := first byte.toNat
    (replacement :: again.1, again.2)
  else
    let codePoint := s.codePoint * 64 + byte.toNat % 64
    if s.seen + 1 = s.needed then ([Char.ofNat codePoint], start)
    else ([], { codePoint := codePoint, seen := s.seen + 1, needed := s.needed })

def decode : Utf8 → List UInt8 → List Char × Utf8
  | s, [] => ([], s)
  | s, byte :: rest =>
    let now := step s byte
    let later := decode now.2 rest
    (now.1 ++ later.1, later.2)

/-- The end of the bytes. -/
def flush (s : Utf8) : List Char := if s.needed = 0 then [] else [replacement]

theorem decode_append (s : Utf8) (bytes more : List UInt8) :
    decode s (bytes ++ more) =
      ((decode s bytes).1 ++ (decode (decode s bytes).2 more).1, (decode (decode s bytes).2 more).2) := by
  induction bytes generalizing s with
  | nil => rfl
  | cons byte rest ih =>
    rw [List.cons_append, decode, ih, decode]
    dsimp only
    rw [List.append_assoc]

/-! ## One code point -/

theorem step_start {b : Nat} (h : b < 256) : step start (UInt8.ofNat b) = first b := by
  change first (UInt8.ofNat b).toNat = first b
  rw [UInt8.toNat_ofNat_of_lt' h]

section Further
variable {codePoint seen needed lower upper b : Nat} (h : b < 256) (hlower : lower ≤ b) (hupper : b ≤ upper)
include h hlower hupper

theorem step_more (hmore : seen + 1 < needed) : step ⟨codePoint, seen, needed, lower, upper⟩ (UInt8.ofNat b) =
    ([], { codePoint := codePoint * 64 + b % 64, seen := seen + 1, needed := needed }) := by
  unfold step
  dsimp only
  rw [UInt8.toNat_ofNat_of_lt' h, if_neg (by omega), if_neg (by omega), if_neg (by omega)]

theorem step_last (hlast : seen + 1 = needed) : step ⟨codePoint, seen, needed, lower, upper⟩ (UInt8.ofNat b) =
    ([Char.ofNat (codePoint * 64 + b % 64)], start) := by
  unfold step
  dsimp only
  rw [UInt8.toNat_ofNat_of_lt' h, if_neg (by omega), if_neg (by omega), if_pos hlast]

end Further

theorem decode_one {v : Nat} (h : v ≤ 0x7F) : decode start [UInt8.ofNat v] = ([Char.ofNat v], start) := by
  rw [decode, step_start (by omega), first, if_pos h]
  rfl

theorem decode_two {v : Nat} (hlow : 0x7F < v) (hhigh : v ≤ 0x7FF) :
    decode start [UInt8.ofNat (v / 64 % 0x20 + 0xC0), UInt8.ofNat (v % 0x40 + 0x80)] = ([Char.ofNat v], start) := by
  have hv : (v / 64 % 0x20 + 0xC0) % 0x20 * 64 + (v % 0x40 + 0x80) % 64 = v := by omega
  rw [decode, step_start (by omega), first, if_neg (by omega), if_pos (by omega)]
  dsimp only
  rw [decode, step_last (by omega) (by omega) (by omega) rfl]
  dsimp only
  rw [hv]
  rfl

theorem decode_three {v : Nat} (hlow : 0x7FF < v) (hhigh : v ≤ 0xFFFF) (hvalid : v < 0xD800 ∨ 0xDFFF < v) :
    decode start [UInt8.ofNat (v / 4096 % 0x10 + 0xE0), UInt8.ofNat (v / 64 % 0x40 + 0x80),
      UInt8.ofNat (v % 0x40 + 0x80)] = ([Char.ofNat v], start) := by
  have hv : ((v / 4096 % 0x10 + 0xE0) % 0x10 * 64 + (v / 64 % 0x40 + 0x80) % 64) * 64 + (v % 0x40 + 0x80) % 64 = v := by
    omega
  -- an overlong sequence and a surrogate would be out of the bounds of the second byte
  have hlower : (if v / 4096 % 0x10 + 0xE0 = 0xE0 then 0xA0 else 0x80) ≤ v / 64 % 0x40 + 0x80 := by
    split_ifs <;> omega
  have hupper : v / 64 % 0x40 + 0x80 ≤ if v / 4096 % 0x10 + 0xE0 = 0xED then 0x9F else 0xBF := by
    split_ifs <;> omega
  rw [decode, step_start (by omega), first, if_neg (by omega), if_neg (by omega), if_pos (by omega)]
  dsimp only
  rw [decode, step_more (by omega) hlower hupper (by decide)]
  dsimp only
  rw [decode, step_last (by omega) (by omega) (by omega) rfl]
  dsimp only
  rw [hv]
  rfl

theorem decode_four {v : Nat} (hlow : 0xFFFF < v) (hhigh : v < 0x110000) :
    decode start [UInt8.ofNat (v / 262144 % 0x08 + 0xF0), UInt8.ofNat (v / 4096 % 0x40 + 0x80),
      UInt8.ofNat (v / 64 % 0x40 + 0x80), UInt8.ofNat (v % 0x40 + 0x80)] = ([Char.ofNat v], start) := by
  have hv : (((v / 262144 % 0x08 + 0xF0) % 0x8 * 64 + (v / 4096 % 0x40 + 0x80) % 64) * 64 +
      (v / 64 % 0x40 + 0x80) % 64) * 64 + (v % 0x40 + 0x80) % 64 = v := by
    omega
  have hlower : (if v / 262144 % 0x08 + 0xF0 = 0xF0 then 0x90 else 0x80) ≤ v / 4096 % 0x40 + 0x80 := by
    split_ifs <;> omega
  have hupper : v / 4096 % 0x40 + 0x80 ≤ if v / 262144 % 0x08 + 0xF0 = 0xF4 then 0x8F else 0xBF := by
    split_ifs <;> omega
  rw [decode, step_start (by omega), first, if_neg (by omega), if_neg (by omega), if_neg (by omega),
    if_pos (by omega)]
  dsimp only
  rw [decode, step_more (by omega) hlower hupper (by decide)]
  dsimp only
  rw [decode, step_more (by omega) (by omega) (by omega) (by decide)]
  dsimp only
  rw [decode, step_last (by omega) (by omega) (by omega) rfl]
  dsimp only
  rw [hv]
  rfl

theorem decode_char (c : Char) : decode start (String.utf8EncodeChar c) = ([c], start) := by
  have hvalid : c.val.toNat < 0xD800 ∨ (0xDFFF < c.val.toNat ∧ c.val.toNat < 0x110000) := c.valid
  have hc : Char.ofNat c.val.toNat = c := Char.ofNat_toNat c
  unfold String.utf8EncodeChar
  dsimp only
  split_ifs with hone htwo hthree
  · rw [decode_one hone, hc]
  · rw [decode_two (by omega) htwo, hc]
  · rw [decode_three (by omega) hthree (by omega), hc]
  · rw [decode_four (by omega) (by omega), hc]

/-- The bytes of a text are decoded to the text, with nothing under way at their end. -/
theorem decode_utf8Encode (text : List Char) : decode start text.utf8Encode.data.toList = (text, start) := by
  have hbytes : text.utf8Encode.data.toList = text.flatMap String.utf8EncodeChar := by
    unfold List.utf8Encode
    rw [List.data_toByteArray]
  rw [hbytes]
  clear hbytes
  induction text with
  | nil => rfl
  | cons c rest ih =>
    rw [List.flatMap_cons, decode_append, decode_char]
    dsimp only
    rw [ih]
    rfl

end Utf8

/-! ## A stream -/

/-- The decoder of one stream, and whether its start has been seen. -/
structure TextDecoder where
  utf8 : Utf8 := .start
  bomSeen : Bool := false
deriving DecidableEq, Repr

namespace TextDecoder

def start : TextDecoder := {}

def byteOrderMark : Char := Char.ofNat 0xFEFF

/-- A byte order mark is left out of the start. -/
def serialize : Bool → List Char → List Char × Bool
  | true, chars => (chars, true)
  | false, [] => ([], false)
  | false, c :: rest => (if c = byteOrderMark then rest else c :: rest, true)

/-- `decode(chunk, {stream: true})`. -/
def decode (d : TextDecoder) (chunk : ByteArray) : List Char × TextDecoder :=
  let read := d.utf8.decode chunk.data.toList
  let shown := serialize d.bomSeen read.1
  (shown.1, { utf8 := read.2, bomSeen := shown.2 })

/-- `decode()`, at the end of the stream. -/
def flush (d : TextDecoder) : List Char := (serialize d.bomSeen d.utf8.flush).1

theorem serialize_nil (seen : Bool) : serialize seen [] = ([], seen) := by
  cases seen with
  | true => rfl
  | false => rfl

theorem serialize_append (seen : Bool) (chars more : List Char) :
    serialize seen (chars ++ more) =
      ((serialize seen chars).1 ++ (serialize (serialize seen chars).2 more).1,
        (serialize (serialize seen chars).2 more).2) := by
  cases seen with
  | true => rfl
  | false =>
    cases chars with
    | nil => rfl
    | cons c rest =>
      change (if c = byteOrderMark then rest ++ more else c :: (rest ++ more), true) =
        ((if c = byteOrderMark then rest else c :: rest) ++ more, true)
      split_ifs
      · rfl
      · rfl

/-- What the chunks of a stream are decoded to, and the decoder after them. -/
def read : TextDecoder → List ByteArray → List (List Char) × TextDecoder
  | d, [] => ([], d)
  | d, chunk :: rest =>
    let now := d.decode chunk
    let later := read now.2 rest
    (now.1 :: later.1, later.2)

/-- The chunks are decoded as their bytes in one are. -/
theorem read_eq (d : TextDecoder) (chunks : List ByteArray) {bytes : List UInt8}
    (h : (chunks.flatMap fun chunk => chunk.data.toList) = bytes) :
    (d.read chunks).1.flatten = (serialize d.bomSeen (d.utf8.decode bytes).1).1 ∧
      (d.read chunks).2 =
        { utf8 := (d.utf8.decode bytes).2, bomSeen := (serialize d.bomSeen (d.utf8.decode bytes).1).2 } := by
  subst h
  induction chunks generalizing d with
  | nil =>
    rw [List.flatMap_nil, Utf8.decode, serialize_nil]
    exact ⟨rfl, rfl⟩
  | cons chunk rest ih =>
    obtain ⟨htexts, hlast⟩ := ih (d.decode chunk).2
    rw [List.flatMap_cons, Utf8.decode_append]
    dsimp only
    rw [serialize_append]
    refine ⟨?_, ?_⟩
    · rw [read, List.flatten_cons, htexts]
      rfl
    · rw [read, hlast]
      rfl

/-- **However the bytes of a text are cut**, the chunks are decoded to the text, and nothing is left for the end. -/
theorem read_chunks {chunks : List ByteArray} {text : List Char}
    (h : (chunks.flatMap fun chunk => chunk.data.toList) = text.utf8Encode.data.toList)
    (hmark : text.head? ≠ some byteOrderMark) :
    (start.read chunks).1.flatten = text ∧ (start.read chunks).2.flush = [] := by
  obtain ⟨htexts, hlast⟩ := read_eq start chunks h
  have hdecoded : start.utf8.decode text.utf8Encode.data.toList = (text, .start) := Utf8.decode_utf8Encode text
  rw [hdecoded] at htexts hlast
  refine ⟨?_, ?_⟩
  · rw [htexts]
    cases text with
    | nil => rfl
    | cons c rest =>
      have hc : c ≠ byteOrderMark := fun heq => hmark (congrArg some heq)
      exact if_neg hc
  · rw [hlast]
    cases text with
    | nil => rfl
    | cons c rest => rfl

end TextDecoder

end Text
