import Mathlib.Data.List.Basic
import Mathlib.Data.List.TakeWhile

/-!
# Strings, as the language has them

A text is its list of characters, which are Unicode scalar values.

* `isSpace`, `strip`, `words` : whitespace, at the ends and between words;
* `slice` : `xs[start:stop]`;
* `partition`, `rpartition` : what stands before and after a separator;
* `isLineBreak`, `splitlines` : where lines end; `splitlines_line` cuts the first line off.
-/

namespace Text

/-- What `str.isspace` answers of one character. -/
def isSpace (c : Char) : Bool :=
  (9 ≤ c.toNat && c.toNat ≤ 13) || (28 ≤ c.toNat && c.toNat ≤ 32) || c.toNat = 0x85 || c.toNat = 0xA0 ||
    c.toNat = 0x1680 || (0x2000 ≤ c.toNat && c.toNat ≤ 0x200A) || c.toNat = 0x2028 || c.toNat = 0x2029 ||
    c.toNat = 0x202F || c.toNat = 0x205F || c.toNat = 0x3000

def rstrip (text : List Char) : List Char := (text.reverse.dropWhile isSpace).reverse

/-- `str.strip`. -/
def strip (text : List Char) : List Char := rstrip (text.dropWhile isSpace)

/-- `str.split` without a separator. -/
def words (text : List Char) : List (List Char) := (text.splitOnP isSpace).filter fun word => word ≠ []

/-- `xs[start:stop]`; a negative bound counts from the end. -/
def slice {α : Type} (xs : List α) (start stop : Int) : List α :=
  let bound (i : Int) : Nat := if i < 0 then (xs.length + i).toNat else i.toNat
  (xs.take (bound stop)).drop (bound start)

theorem mem_of_slice {α : Type} {xs : List α} {start stop : Int} {x : α} (h : x ∈ slice xs start stop) :
    x ∈ xs :=
  List.mem_of_mem_take (List.mem_of_mem_drop h)

theorem rstrip_prefix (text : List Char) : rstrip text <+: text := by
  have hsuffix := List.dropWhile_suffix isSpace (l := text.reverse)
  simpa [rstrip] using List.reverse_prefix.mpr hsuffix

/-- A text that ends in something is not cut. -/
theorem rstrip_snoc (text : List Char) {c : Char} (hc : isSpace c = false) :
    rstrip (text ++ [c]) = text ++ [c] := by
  simp [rstrip, hc]

theorem dropWhile_space {c : Char} (hc : isSpace c = false) (text : List Char) :
    (c :: text).dropWhile isSpace = c :: text := by
  simp [hc]

/-! ## Around a separator -/

section Separator
variable (sep : Char)

/-- The text before and after the first separator, as `str.partition` gives them: all of it comes before where
there is none. -/
def partition (text : List Char) : List Char × List Char :=
  (text.takeWhile (· ≠ sep), (text.dropWhile (· ≠ sep)).tail)

/-- The text before and after the last separator, as `str.rpartition` gives them: all of it comes after where there
is none. -/
def rpartition (text : List Char) : List Char × List Char :=
  let parts := partition sep text.reverse
  (parts.2.reverse, parts.1.reverse)

theorem partition_append {before : List Char} (h : sep ∉ before) (after : List Char) :
    partition sep (before ++ sep :: after) = (before, after) := by
  have hne : ∀ c ∈ before, decide (c ≠ sep) = true := fun c hc => by
    simpa using fun heq : c = sep => h (heq ▸ hc)
  unfold partition
  rw [List.takeWhile_append_of_pos hne, List.dropWhile_append_of_pos hne, List.takeWhile_cons_of_neg (by simp),
    List.dropWhile_cons_of_neg (by simp), List.append_nil, List.tail_cons]

theorem partition_absent {text : List Char} (h : sep ∉ text) : partition sep text = (text, []) := by
  have hne : ∀ c ∈ text, decide (c ≠ sep) = true := fun c hc => by
    simpa using fun heq : c = sep => h (heq ▸ hc)
  unfold partition
  rw [List.takeWhile_eq_self_iff.mpr hne, List.dropWhile_eq_nil_iff.mpr hne, List.tail_nil]

/-- A text is cut at the separator that no other follows. -/
theorem rpartition_append (before : List Char) {after : List Char} (h : sep ∉ after) :
    rpartition sep (before ++ sep :: after) = (before, after) := by
  have hend : (before ++ sep :: after).reverse = after.reverse ++ sep :: before.reverse := by simp
  unfold rpartition
  rw [hend, partition_append sep (fun hmem => h (List.mem_reverse.mp hmem))]
  simp only [List.reverse_reverse]

/-- Where something comes before the last separator, the two parts and the separator are the text. -/
theorem rpartition_parts {text : List Char} (h : (rpartition sep text).1 ≠ []) :
    text = (rpartition sep text).1 ++ sep :: (rpartition sep text).2 := by
  by_cases hmem : sep ∈ text
  · obtain ⟨after, before, hparts, hafter⟩ := List.eq_append_cons_of_mem (List.mem_reverse.mpr hmem)
    have htext : text = before.reverse ++ sep :: after.reverse := by
      rw [← List.reverse_reverse text, hparts]
      simp
    rw [htext, rpartition_append sep _ (fun hlast => hafter (List.mem_reverse.mp hlast))]
  · refine absurd ?_ h
    unfold rpartition
    rw [partition_absent sep (fun hlast => hmem (List.mem_reverse.mp hlast))]
    rfl

end Separator

/-! ## Lines -/

/-- The characters `str.splitlines` breaks at. -/
def isLineBreak (c : Char) : Bool :=
  (10 ≤ c.toNat && c.toNat ≤ 13) || (28 ≤ c.toNat && c.toNat ≤ 30) || c.toNat = 0x85 || c.toNat = 0x2028 ||
    c.toNat = 0x2029

/-- The lines of a text of which `line` has been read, backwards. -/
def linesFrom : List Char → List Char → List (List Char)
  | line, [] => if line = [] then [] else [line.reverse]
  | line, '\r' :: '\n' :: rest => line.reverse :: linesFrom [] rest
  | line, c :: rest => if isLineBreak c then line.reverse :: linesFrom [] rest else linesFrom (c :: line) rest

/-- `str.splitlines`. -/
def splitlines (text : List Char) : List (List Char) := linesFrom [] text

theorem linesFrom_line (line : List Char) {text : List Char} (htext : ∀ c ∈ text, isLineBreak c = false)
    {c : Char} (hc : isLineBreak c = true) (hreturn : c ≠ '\r') (rest : List Char) :
    linesFrom line (text ++ c :: rest) = (line.reverse ++ text) :: splitlines rest := by
  induction text generalizing line with
  | nil =>
    rw [List.nil_append, List.append_nil, linesFrom]
    · rw [if_pos hc, splitlines]
    · exact fun rest' h => absurd h hreturn
  | cons first text ih =>
    obtain ⟨hfirst, htext⟩ := List.forall_mem_cons.mp htext
    rw [List.cons_append, linesFrom]
    · rw [if_neg (by simp [hfirst]), ih (first :: line) htext]
      simp
    · intro rest' h
      rw [h] at hfirst
      exact absurd hfirst (by decide)

/-- A break other than a carriage return ends the line before it. -/
theorem splitlines_line {text : List Char} (htext : ∀ c ∈ text, isLineBreak c = false) {c : Char}
    (hc : isLineBreak c = true) (hreturn : c ≠ '\r') (rest : List Char) :
    splitlines (text ++ c :: rest) = text :: splitlines rest := by
  rw [splitlines, linesFrom_line [] htext hc hreturn rest]
  rfl

end Text
