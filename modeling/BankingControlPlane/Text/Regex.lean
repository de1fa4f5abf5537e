import BankingControlPlane.Text.Strings
import Mathlib.Data.List.Forall2

/-!
# Regular expressions, read as a backtracking matcher reads them

* `Regex.ends` : where a match from a place may end, first the end the matcher tries first;
* `Regex.Matches` : what a pattern means; `mem_ends` says that the matcher finds all of it and nothing else;
* `search`, `findAll` : the first match of a text, and all of them, none inside another;
* `search_eq_none` : nothing is found exactly where nothing matches;
* `search_within` : what is found in a text is found in a longer one that sets it off;
* `runs`, `OfRuns.findAll` : a pattern of whole runs of some characters finds the runs that it is about.
-/

namespace Text

/-- A place in a text: what is behind it, the nearest first, and what is ahead. -/
structure Cursor where
  behind : List Char
  ahead : List Char
deriving DecidableEq, Repr

/-- From one place to another, this is read. -/
def Cursor.Reads (c : Cursor) (w : List Char) (d : Cursor) : Prop :=
  c.ahead = w ++ d.ahead ∧ d.behind = w.reverse ++ c.behind

theorem Cursor.reads_nil {c d : Cursor} : c.Reads [] d ↔ d = c := by
  constructor
  · rintro ⟨hahead, hbehind⟩
    obtain ⟨behind, ahead⟩ := c
    obtain ⟨behind', ahead'⟩ := d
    exact congrArg₂ Cursor.mk hbehind hahead.symm
  · rintro rfl
    exact ⟨rfl, rfl⟩

theorem Cursor.Reads.append {c d e : Cursor} {v w : List Char} (hv : c.Reads v d) (hw : d.Reads w e) :
    c.Reads (v ++ w) e :=
  ⟨by rw [hv.1, hw.1, List.append_assoc], by rw [hw.2, hv.2, List.reverse_append, List.append_assoc]⟩

theorem Cursor.Reads.split {c e : Cursor} {v w : List Char} (h : c.Reads (v ++ w) e) :
    ∃ d, c.Reads v d ∧ d.Reads w e := by
  refine ⟨⟨v.reverse ++ c.behind, w ++ e.ahead⟩, ⟨by rw [h.1, List.append_assoc], rfl⟩, rfl, ?_⟩
  rw [h.2, List.reverse_append, List.append_assoc]

theorem Cursor.Reads.unique {c d e : Cursor} {w : List Char} (hd : c.Reads w d) (he : c.Reads w e) : d = e := by
  obtain ⟨behind, ahead⟩ := d
  obtain ⟨behind', ahead'⟩ := e
  refine congrArg₂ Cursor.mk (hd.2.trans he.2.symm) ?_
  exact List.append_cancel_left (hd.1.symm.trans he.1)

/-- A place of this text. -/
def Cursor.Of (text : List Char) (c : Cursor) : Prop := c.behind.reverse ++ c.ahead = text

theorem Cursor.Reads.of {c d : Cursor} {w text : List Char} (h : c.Reads w d) (hc : c.Of text) : d.Of text := by
  rw [Of, h.2, List.reverse_append, List.reverse_reverse, List.append_assoc, ← h.1]
  exact hc

/-- What is read of a text is part of it. -/
theorem Cursor.Reads.part {c d : Cursor} {w text : List Char} (h : c.Reads w d) (hc : c.Of text) :
    w <:+: text :=
  ⟨c.behind.reverse, d.ahead, by rw [← hc, h.1, List.append_assoc]⟩

/-- Nothing of a run is behind this place. -/
def Cursor.Begins (p : Char → Bool) (c : Cursor) : Prop := ∀ x ∈ c.behind.head?, p x = false

/-- A repetition is of iterations that each read something. -/
inductive Regex where
  | one (p : Char → Bool)
  | look (p : Option Char → Option Char → Bool)
  | empty
  | seq (r s : Regex)
  | alt (r s : Regex)
  | star (r : Regex)

namespace Regex

/-- As often as possible first, then one time less, and so on. -/
def again (step : Cursor → List Cursor) : Nat → Cursor → List Cursor
  | 0, c => [c]
  | n + 1, c => ((step c).filter fun d => d.ahead.length < c.ahead.length).flatMap (again step n) ++ [c]

/-- Where a match may end, in the order in which backtracking gets there. -/
def ends : Regex → Cursor → List Cursor
  | one p, c =>
    match c.ahead with
    | [] => []
    | x :: rest => if p x then [⟨x :: c.behind, rest⟩] else []
  | look p, c => if p c.behind.head? c.ahead.head? then [c] else []
  | empty, c => [c]
  | seq r s, c => (r.ends c).flatMap s.ends
  | alt r s, c => r.ends c ++ s.ends c
  | star r, c => again r.ends c.ahead.length c

/-! ## What a pattern means -/

inductive Matches : Regex → Cursor → Cursor → Prop
  | one {p : Char → Bool} {behind rest : List Char} {x : Char} (h : p x = true) :
    Matches (one p) ⟨behind, x :: rest⟩ ⟨x :: behind, rest⟩
  | look {p : Option Char → Option Char → Bool} {c : Cursor} (h : p c.behind.head? c.ahead.head? = true) :
    Matches (look p) c c
  | empty {c : Cursor} : Matches empty c c
  | seq {r s : Regex} {c d e : Cursor} (hr : Matches r c d) (hs : Matches s d e) : Matches (seq r s) c e
  | left {r s : Regex} {c d : Cursor} (h : Matches r c d) : Matches (alt r s) c d
  | right {r s : Regex} {c d : Cursor} (h : Matches s c d) : Matches (alt r s) c d
  | done {r : Regex} {c : Cursor} : Matches (star r) c c
  | more {r : Regex} {c d e : Cursor} (hr : Matches r c d) (hlt : d.ahead.length < c.ahead.length)
    (hrest : Matches (star r) d e) : Matches (star r) c e

section Matches
variable {r s : Regex} {c d e : Cursor} {p : Char → Bool}

theorem matches_one : Matches (one p) c d ↔ ∃ x, p x = true ∧ c.Reads [x] d := by
  constructor
  · intro h
    cases h with
    | one h => exact ⟨_, h, rfl, rfl⟩
  · rintro ⟨x, h, hahead, hbehind⟩
    obtain ⟨behind, ahead⟩ := c
    obtain ⟨behind', ahead'⟩ := d
    simp only [List.singleton_append, List.reverse_singleton] at hahead hbehind
    subst hahead hbehind
    exact .one h

theorem matches_look {q : Option Char → Option Char → Bool} :
    Matches (look q) c d ↔ d = c ∧ q c.behind.head? c.ahead.head? = true := by
  constructor
  · intro h
    cases h with
    | look h => exact ⟨rfl, h⟩
  · rintro ⟨rfl, h⟩
    exact .look h

theorem matches_empty : Matches empty c d ↔ d = c := by
  constructor
  · intro h
    cases h
    rfl
  · rintro rfl
    exact .empty

theorem matches_seq : Matches (seq r s) c e ↔ ∃ d, Matches r c d ∧ Matches s d e := by
  constructor
  · intro h
    cases h with
    | seq hr hs => exact ⟨_, hr, hs⟩
  · rintro ⟨d, hr, hs⟩
    exact .seq hr hs

theorem matches_alt : Matches (alt r s) c d ↔ Matches r c d ∨ Matches s c d := by
  constructor
  · intro h
    cases h with
    | left h => exact Or.inl h
    | right h => exact Or.inr h
  · rintro (h | h)
    · exact .left h
    · exact .right h

theorem matches_star : Matches (star r) c e ↔
    e = c ∨ ∃ d, Matches r c d ∧ d.ahead.length < c.ahead.length ∧ Matches (star r) d e := by
  constructor
  · intro h
    cases h with
    | done => exact Or.inl rfl
    | more hr hlt hrest => exact Or.inr ⟨_, hr, hlt, hrest⟩
  · rintro (rfl | ⟨d, hr, hlt, hrest⟩)
    · exact .done
    · exact .more hr hlt hrest

end Matches

/-! ## The matcher finds it -/

theorem mem_again {r : Regex} (hr : ∀ c d, d ∈ r.ends c ↔ Matches r c d) (n : Nat) (c e : Cursor)
    (hn : c.ahead.length ≤ n) : e ∈ again r.ends n c ↔ Matches (star r) c e := by
  induction n generalizing c with
  | zero =>
    rw [matches_star]
    constructor
    · intro h
      exact Or.inl (List.mem_singleton.mp h)
    · rintro (rfl | ⟨d, -, hlt, -⟩)
      · exact List.mem_singleton_self _
      · omega
  | succ n ih =>
    rw [matches_star, again, List.mem_append, List.mem_singleton, List.mem_flatMap, or_comm]
    refine or_congr Iff.rfl (exists_congr fun d => ?_)
    rw [List.mem_filter, hr, decide_eq_true_eq, and_assoc]
    refine and_congr Iff.rfl (and_congr_right fun hlt => ih d ?_)
    omega

/-- **A place is an end of a match exactly where the pattern matches up to it.** -/
theorem mem_ends (r : Regex) (c d : Cursor) : d ∈ r.ends c ↔ Matches r c d := by
  induction r generalizing c d with
  | one p =>
    obtain ⟨behind, ahead⟩ := c
    rw [matches_one]
    cases ahead with
    | nil =>
      simp only [ends, List.not_mem_nil, Cursor.Reads, false_iff]
      rintro ⟨x, -, hahead, -⟩
      cases hahead
    | cons x rest =>
      simp only [ends]
      constructor
      · intro h
        split_ifs at h with hx
        · rw [List.mem_singleton.mp h]
          exact ⟨x, hx, rfl, rfl⟩
        · cases h
      · rintro ⟨y, hy, hahead, hbehind⟩
        obtain ⟨rfl, hrest⟩ := List.cons.inj hahead
        rw [if_pos hy, List.mem_singleton]
        obtain ⟨behind', ahead'⟩ := d
        exact congrArg₂ Cursor.mk hbehind hrest.symm
  | look q =>
    rw [matches_look, ends]
    split_ifs with h
    · rw [List.mem_singleton]
      exact ⟨fun hd => ⟨hd, h⟩, fun hd => hd.1⟩
    · exact ⟨fun hd => absurd hd List.not_mem_nil, fun hd => absurd hd.2 h⟩
  | empty => rw [matches_empty, ends, List.mem_singleton]
  | seq r s ihr ihs =>
    rw [matches_seq, ends, List.mem_flatMap]
    exact exists_congr fun e => and_congr (ihr c e) (ihs e d)
  | alt r s ihr ihs => rw [matches_alt, ends, List.mem_append, ihr, ihs]
  | star r ih => exact mem_again ih _ c d (Nat.le_refl _)

theorem Matches.reads {r : Regex} {c d : Cursor} (h : Matches r c d) : ∃ w, c.Reads w d := by
  induction h with
  | one => exact ⟨[_], rfl, rfl⟩
  | look => exact ⟨[], rfl, rfl⟩
  | empty => exact ⟨[], rfl, rfl⟩
  | seq _ _ ihr ihs =>
    obtain ⟨v, hv⟩ := ihr
    obtain ⟨w, hw⟩ := ihs
    exact ⟨v ++ w, hv.append hw⟩
  | left _ ih => exact ih
  | right _ ih => exact ih
  | done => exact ⟨[], rfl, rfl⟩
  | more _ _ _ ihr ihs =>
    obtain ⟨v, hv⟩ := ihr
    obtain ⟨w, hw⟩ := ihs
    exact ⟨v ++ w, hv.append hw⟩

/-! ## Patterns made of these -/

/-- A word, letter by letter, each as `same` has it. -/
def spelled (same : Char → Char → Bool) (w : List Char) : Regex :=
  w.foldr (fun x r => seq (one (same x)) r) empty

/-- One after the other. -/
def sequence (rs : List Regex) : Regex := rs.foldr seq empty

def choice (rs : List Regex) : Regex := rs.foldr alt (one fun _ => false)

def opt (r : Regex) : Regex := alt r empty

def plus (r : Regex) : Regex := seq r (star r)

/-- `{0,n}`. -/
def upTo (r : Regex) : Nat → Regex
  | 0 => empty
  | n + 1 => opt (seq r (upTo r n))

/-- `{n}`. -/
def times (r : Regex) : Nat → Regex
  | 0 => empty
  | n + 1 => seq r (times r n)

/-- `{n,}`. -/
def atLeast (r : Regex) (n : Nat) : Regex := seq (times r n) (star r)

section Made
variable {r : Regex} {c d e : Cursor} {p : Char → Bool}

theorem matches_choice {rs : List Regex} : Matches (choice rs) c d ↔ ∃ r ∈ rs, Matches r c d := by
  induction rs with
  | nil =>
    rw [choice, List.foldr_nil, matches_one]
    simp
  | cons r rs ih =>
    rw [choice, List.foldr_cons, matches_alt]
    simp [← ih, choice]

theorem matches_spelled {same : Char → Char → Bool} {w : List Char} :
    Matches (spelled same w) c d ↔ ∃ v, List.Forall₂ (fun x y => same x y = true) w v ∧ c.Reads v d := by
  induction w generalizing c with
  | nil =>
    rw [spelled, List.foldr_nil, matches_empty]
    simp [Cursor.reads_nil]
  | cons x w ih =>
    have hrest : ∀ {b : Cursor}, Matches (List.foldr (fun x r => seq (one (same x)) r) empty w) b d ↔
        ∃ v, List.Forall₂ (fun x y => same x y = true) w v ∧ b.Reads v d := ih
    rw [spelled, List.foldr_cons, matches_seq]
    constructor
    · rintro ⟨b, hone, hspelled⟩
      obtain ⟨y, hy, hreads⟩ := matches_one.mp hone
      obtain ⟨v, hv, hreads'⟩ := hrest.mp hspelled
      exact ⟨y :: v, .cons hy hv, hreads.append hreads'⟩
    · rintro ⟨v, hv, hreads⟩
      cases hv with
      | @cons _ y _ v hy hv =>
        obtain ⟨b, hfirst, hlater⟩ := Cursor.Reads.split (v := [y]) hreads
        exact ⟨b, matches_one.mpr ⟨y, hy, hfirst⟩, hrest.mpr ⟨v, hv, hlater⟩⟩

theorem matches_star_one : Matches (star (one p)) c d ↔ ∃ w, (∀ x ∈ w, p x = true) ∧ c.Reads w d := by
  constructor
  · intro h
    generalize hs : star (one p) = r at h
    induction h with
    | done => exact ⟨[], by simp, Cursor.reads_nil.mpr rfl⟩
    | more hr _ _ _ ih =>
      obtain rfl := Regex.star.inj hs
      obtain ⟨x, hx, hreads⟩ := matches_one.mp hr
      obtain ⟨w, hw, hreads'⟩ := ih rfl
      exact ⟨x :: w, by simpa [hx] using hw, hreads.append hreads'⟩
    | _ => cases hs
  · rintro ⟨w, hw, hreads⟩
    induction w generalizing c with
    | nil =>
      rw [Cursor.reads_nil.mp hreads]
      exact .done
    | cons x w ih =>
      obtain ⟨b, hfirst, hlater⟩ := Cursor.Reads.split (v := [x]) hreads
      obtain ⟨hx, hw⟩ := List.forall_mem_cons.mp hw
      refine .more (matches_one.mpr ⟨x, hx, hfirst⟩) ?_ (ih hw hlater)
      rw [hfirst.1]
      simp

theorem matches_plus_one :
    Matches (plus (one p)) c d ↔ ∃ w, (w ≠ [] ∧ ∀ x ∈ w, p x = true) ∧ c.Reads w d := by
  rw [plus, matches_seq]
  constructor
  · rintro ⟨b, hone, hstar⟩
    obtain ⟨x, hx, hreads⟩ := matches_one.mp hone
    obtain ⟨w, hw, hreads'⟩ := matches_star_one.mp hstar
    exact ⟨x :: w, ⟨by simp, by simpa [hx] using hw⟩, hreads.append hreads'⟩
  · rintro ⟨w, ⟨hne, hw⟩, hreads⟩
    obtain ⟨x, w, rfl⟩ := List.exists_cons_of_ne_nil hne
    obtain ⟨b, hfirst, hlater⟩ := Cursor.Reads.split (v := [x]) hreads
    obtain ⟨hx, hw⟩ := List.forall_mem_cons.mp hw
    exact ⟨b, matches_one.mpr ⟨x, hx, hfirst⟩, matches_star_one.mpr ⟨w, hw, hlater⟩⟩

end Made

/-! ## Searching -/

section Search
variable (r : Regex)

/-- The first place at which a match begins, and its first end; at the place the search begins from, none that
reads nothing where `advance` says so. -/
def first (advance : Bool) (behind : List Char) : List Char → Option (Cursor × Cursor)
  | [] => ((r.ends ⟨behind, []⟩).find? fun _ => !advance).map fun d => (⟨behind, []⟩, d)
  | x :: rest =>
    match (r.ends ⟨behind, x :: rest⟩).find? fun d => !advance || d.ahead.length < rest.length + 1 with
    | some d => some (⟨behind, x :: rest⟩, d)
    | none => first false (x :: behind) rest

/-- What stands between two places. -/
def between (c d : Cursor) : List Char := c.ahead.take (c.ahead.length - d.ahead.length)

/-- `pattern.search(text)`, its `group(0)`. -/
def search (text : List Char) : Option (List Char) := (r.first false [] text).map fun m => between m.1 m.2

def findAllFrom : Nat → Bool → Cursor → List (List Char)
  | 0, _, _ => []
  | n + 1, advance, c =>
    match r.first advance c.behind c.ahead with
    | none => []
    | some m => between m.1 m.2 :: findAllFrom n (decide (m.1 = m.2)) m.2

/-- `pattern.findall(text)`, of a pattern without groups. At each place at most one match that reads something
and one that does not. -/
def findAll (text : List Char) : List (List Char) := r.findAllFrom (2 * text.length + 2) false ⟨[], text⟩

theorem first_none {behind ahead : List Char} : r.first false behind ahead = none ↔
    ∀ before rest d, ahead = before ++ rest → ¬ Matches r ⟨before.reverse ++ behind, rest⟩ d := by
  induction ahead generalizing behind with
  | nil =>
    simp only [first, Option.map_eq_none_iff, List.find?_eq_none, mem_ends]
    constructor
    · intro h before rest d hsplit hd
      obtain ⟨rfl, rfl⟩ := List.nil_eq_append_iff.mp hsplit
      exact h d hd rfl
    · intro h d hd _
      exact h [] [] d rfl hd
  | cons x ahead ih =>
    have hcut : ∀ before rest, x :: ahead = before ++ rest ↔
        (before = [] ∧ rest = x :: ahead) ∨ ∃ before', before = x :: before' ∧ ahead = before' ++ rest := by
      intro before rest
      cases before with
      | nil => simp [eq_comm]
      | cons y before => simp [eq_comm]
    rw [first]
    cases hfind : (r.ends ⟨behind, x :: ahead⟩).find? fun d => !false || d.ahead.length < ahead.length + 1 with
    | some d =>
      refine ⟨fun h => (by cases h), fun h => absurd ?_ (h [] (x :: ahead) d rfl)⟩
      exact (mem_ends r _ d).mp (List.mem_of_find?_eq_some hfind)
    | none =>
      have hnone : ∀ d, ¬ Matches r ⟨behind, x :: ahead⟩ d := fun d hd =>
        List.find?_eq_none.mp hfind d ((mem_ends r _ d).mpr hd) rfl
      refine ih.trans ⟨fun h before rest d hsplit hd => ?_, fun h before rest d hsplit hd => ?_⟩
      · rcases (hcut before rest).mp hsplit with ⟨rfl, rfl⟩ | ⟨before', rfl, hrest⟩
        · exact hnone d hd
        · rw [List.reverse_cons, List.append_assoc] at hd
          exact h before' rest d hrest hd
      · refine h (x :: before) rest d (by rw [hsplit]; rfl) ?_
        rw [List.reverse_cons, List.append_assoc]
        exact hd

/-- **Nothing is found exactly where nothing matches**, at any place of the text. -/
theorem search_eq_none {text : List Char} : r.search text = none ↔
    ∀ before rest d, text = before ++ rest → ¬ Matches r ⟨before.reverse, rest⟩ d := by
  rw [search, Option.map_eq_none_iff, first_none]
  simp only [List.append_nil]

variable {r}

theorem search_none_of {text : List Char} (h : ∀ c d, c.Of text → ¬ Matches r c d) : r.search text = none := by
  refine (search_eq_none r).mpr fun before rest d hsplit => h _ d ?_
  rw [Cursor.Of, List.reverse_reverse, hsplit]

theorem first_skip {b w rest : List Char}
    (h : ∀ v u, w = v ++ u → u ≠ [] → ∀ d, ¬ Matches r ⟨v.reverse ++ b, u ++ rest⟩ d) :
    r.first false b (w ++ rest) = r.first false (w.reverse ++ b) rest := by
  induction w generalizing b with
  | nil => rfl
  | cons x w ih =>
    have hhere : (r.ends ⟨b, x :: (w ++ rest)⟩).find?
        (fun d => !false || d.ahead.length < (w ++ rest).length + 1) = none := by
      rw [List.find?_eq_none]
      intro d hd _
      exact h [] (x :: w) rfl (by simp) d ((mem_ends r _ d).mp hd)
    rw [List.cons_append, first, hhere]
    rw [ih fun v u hsplit hu d hd => ?_, List.reverse_cons, List.append_assoc]
    · rfl
    · refine h (x :: v) u (by rw [hsplit]; rfl) hu d ?_
      rw [List.reverse_cons, List.append_assoc]
      exact hd

/-- Where the pattern has but one match, that is found. -/
theorem first_hit {c d : Cursor} (h : ∀ e, Matches r c e ↔ e = d) :
    r.first false c.behind c.ahead = some (c, d) := by
  have hends : ∀ q : Cursor → Bool, q d = true → (r.ends c).find? q = some d := by
    intro q hq
    have hmem : d ∈ r.ends c := (mem_ends r c d).mpr ((h d).mpr rfl)
    have hsome : ((r.ends c).find? q).isSome := List.find?_isSome.mpr ⟨d, hmem, hq⟩
    obtain ⟨e, he⟩ := Option.isSome_iff_exists.mp hsome
    rw [he, (h e).mp ((mem_ends r c e).mp (List.mem_of_find?_eq_some he))]
  obtain ⟨behind, ahead⟩ := c
  cases ahead with
  | nil => simp only [first, hends (fun _ => !false) rfl, Option.map_some]
  | cons x rest => simp only [first, hends (fun d => !false || d.ahead.length < rest.length + 1) rfl]

theorem between_reads {c d : Cursor} {w : List Char} (h : c.Reads w d) : between c d = w := by
  rw [between, h.1]
  simp

theorem findAllFrom_skip {n : Nat} {b w rest : List Char}
    (h : ∀ v u, w = v ++ u → u ≠ [] → ∀ d, ¬ Matches r ⟨v.reverse ++ b, u ++ rest⟩ d) :
    r.findAllFrom n false ⟨b, w ++ rest⟩ = r.findAllFrom n false ⟨w.reverse ++ b, rest⟩ := by
  cases n with
  | zero => rfl
  | succ n => simp only [findAllFrom, first_skip h]

theorem findAllFrom_hit {n : Nat} {c d : Cursor} {w : List Char} (h : ∀ e, Matches r c e ↔ e = d)
    (hreads : c.Reads w d) (hne : w ≠ []) : r.findAllFrom (n + 1) false c = w :: r.findAllFrom n false d := by
  have hmoved : c ≠ d := by
    rintro rfl
    exact hne (List.self_eq_append_left.mp hreads.1)
  simp only [findAllFrom, first_hit h, between_reads hreads, hmoved, decide_false]

end Search

/-! ## A match within a longer text -/

/-- What the pattern looks at, it looks at for `q` only. -/
def SeesOnly (q : Char → Bool) : Regex → Prop
  | look p => ∀ x x' y y' : Option Char, x.any q = x'.any q → y.any q = y'.any q → p x y = p x' y'
  | one _ | empty => True
  | seq r s | alt r s => r.SeesOnly q ∧ s.SeesOnly q
  | star r => r.SeesOnly q

section Within
variable {q : Char → Bool}

@[simp] theorem seesOnly_one (p : Char → Bool) : (one p).SeesOnly q := trivial

@[simp] theorem seesOnly_star {r : Regex} : (star r).SeesOnly q ↔ r.SeesOnly q := Iff.rfl

@[simp] theorem seesOnly_opt {r : Regex} : (opt r).SeesOnly q ↔ r.SeesOnly q :=
  ⟨fun h => h.1, fun h => ⟨h, trivial⟩⟩

@[simp] theorem seesOnly_plus {r : Regex} : (plus r).SeesOnly q ↔ r.SeesOnly q :=
  ⟨fun h => h.1, fun h => ⟨h, h⟩⟩

@[simp] theorem seesOnly_spelled (same : Char → Char → Bool) (w : List Char) : (spelled same w).SeesOnly q := by
  induction w with
  | nil => trivial
  | cons x w ih => exact ⟨trivial, ih⟩

@[simp] theorem seesOnly_sequence {rs : List Regex} : (sequence rs).SeesOnly q ↔ ∀ r ∈ rs, r.SeesOnly q := by
  induction rs with
  | nil => exact ⟨fun _ _ h => (by cases h), fun _ => trivial⟩
  | cons r rs ih => rw [List.forall_mem_cons, ← ih]; exact Iff.rfl

@[simp] theorem seesOnly_choice {rs : List Regex} : (choice rs).SeesOnly q ↔ ∀ r ∈ rs, r.SeesOnly q := by
  induction rs with
  | nil => exact ⟨fun _ _ h => (by cases h), fun _ => trivial⟩
  | cons r rs ih => rw [List.forall_mem_cons, ← ih]; exact Iff.rfl

theorem SeesOnly.upTo {r : Regex} (h : r.SeesOnly q) (n : Nat) : (r.upTo n).SeesOnly q := by
  induction n with
  | zero => trivial
  | succ n ih => exact ⟨⟨h, ih⟩, trivial⟩

theorem SeesOnly.times {r : Regex} (h : r.SeesOnly q) (n : Nat) : (r.times n).SeesOnly q := by
  induction n with
  | zero => trivial
  | succ n ih => exact ⟨h, ih⟩

theorem SeesOnly.atLeast {r : Regex} (h : r.SeesOnly q) (n : Nat) : (r.atLeast n).SeesOnly q := ⟨h.times n, h⟩

/-- The place, in the text set between two others. -/
def within (before after : List Char) (c : Cursor) : Cursor :=
  ⟨c.behind ++ before.reverse, c.ahead ++ after⟩

/-- A neighbour `q` does not hold of is as none. -/
theorem any_head?_append {xs ys : List Char} (hys : ys.head?.any q = false) :
    (xs ++ ys).head?.any q = xs.head?.any q := by
  cases xs with
  | nil => exact hys
  | cons x xs => rfl

variable {before after : List Char}

/-- A match is a match where its text stands between characters that `q` does not hold of. -/
theorem Matches.within {r : Regex} {c d : Cursor} (h : Matches r c d) (hsees : r.SeesOnly q)
    (hbefore : before.reverse.head?.any q = false) (hafter : after.head?.any q = false) :
    Matches r (within before after c) (within before after d) := by
  induction h with
  | one h => exact .one h
  | look h =>
    refine .look ((hsees _ _ _ _ ?_ ?_).trans h)
    · exact any_head?_append hbefore
    · exact any_head?_append hafter
  | empty => exact .empty
  | seq _ _ ihr ihs => exact .seq (ihr hsees.1) (ihs hsees.2)
  | left _ ih => exact .left (ih hsees.1)
  | right _ ih => exact .right (ih hsees.2)
  | done => exact .done
  | more _ hlt _ ihr ihs =>
    refine .more (ihr hsees) ?_ (ihs hsees)
    simpa [Regex.within] using hlt

/-- **What is found in a text is found in a longer one** that sets it off. -/
theorem search_within {r : Regex} {text : List Char} (hsees : r.SeesOnly q)
    (hbefore : before.reverse.head?.any q = false) (hafter : after.head?.any q = false)
    (h : r.search text ≠ none) : r.search (before ++ text ++ after) ≠ none := by
  rw [ne_eq, search_eq_none] at h ⊢
  intro hnone
  refine h fun left rest d hsplit hd => hnone (before ++ left) (rest ++ after) (within before after d) ?_ ?_
  · rw [hsplit]
    simp only [List.append_assoc]
  · rw [List.reverse_append]
    exact hd.within hsees hbefore hafter

end Within

/-! ## Runs -/

/-- The runs, as long as they can be, of characters that meet `p`. -/
def runs (p : Char → Bool) (text : List Char) : List (List Char) :=
  (text.splitOnP fun x => !p x).filter fun w => w ≠ []

section Runs
variable {r : Regex} {p : Char → Bool} {ok : List Char → Bool}

theorem runs_nil (p : Char → Bool) : runs p [] = [] := rfl

theorem runs_cons_neg {x : Char} (hx : p x = false) (rest : List Char) : runs p (x :: rest) = runs p rest := by
  rw [runs, List.splitOnP_cons_eq_if_modifyHead, if_pos (by simp [hx]), List.filter_cons_of_neg (by simp), runs]

/-- A run, and what comes after it. -/
theorem runs_append {w rest : List Char} (hne : w ≠ []) (hw : ∀ x ∈ w, p x = true)
    (hrest : ∀ x ∈ rest.head?, p x = false) : runs p (w ++ rest) = w :: runs p rest := by
  have hwhole : w.splitOnP (fun x => !p x) = [w] :=
    List.splitOnP_eq_singleton fun x hx => by simp [hw x hx]
  cases rest with
  | nil =>
    rw [List.append_nil, runs, hwhole, runs_nil]
    simp [hne]
  | cons x rest =>
    have hx : p x = false := hrest x rfl
    rw [runs_cons_neg hx, runs, List.splitOnP_append_cons _ _ (by simp [hx]), hwhole,
      List.singleton_append, List.filter_cons_of_pos (by simpa), runs]

/-- The run a text begins with. -/
theorem takeWhile_run {x : Char} (text : List Char) (hx : p x = true) :
    ∃ w rest, (x :: text).takeWhile p = w ∧ x :: text = w ++ rest ∧ w ≠ [] ∧ (∀ y ∈ w, p y = true) ∧
      ∀ y ∈ rest.head?, p y = false := by
  refine ⟨_, (x :: text).dropWhile p, rfl, List.takeWhile_append_dropWhile.symm, ?_, ?_, ?_⟩
  · rw [List.takeWhile_cons_of_pos hx]
    exact List.cons_ne_nil _ _
  · intro y hy
    exact List.mem_takeWhile_imp hy
  · intro y hy
    have hhead := List.head?_dropWhile_not p (x :: text)
    rw [hy] at hhead
    simpa using hhead

/-- A property of texts, of the runs of `p` in them one by one. -/
theorem runs_induction {P : List Char → Prop} (hnil : P [])
    (hskip : ∀ x rest, p x = false → P rest → P (x :: rest))
    (hrun : ∀ w rest, w ≠ [] → (∀ x ∈ w, p x = true) → (∀ x ∈ rest.head?, p x = false) → P rest → P (w ++ rest))
    (text : List Char) : P text := by
  induction hlength : text.length using Nat.strong_induction_on generalizing text with
  | _ n ih =>
    cases text with
    | nil => exact hnil
    | cons x rest =>
      cases hx : p x with
      | false => exact hskip x rest hx (ih rest.length (by rw [← hlength]; simp) rest rfl)
      | true =>
        obtain ⟨w, rest', -, htext, hne, hw, hrest⟩ := takeWhile_run rest hx
        have hpos := List.length_pos_iff.mpr hne
        rw [htext, List.length_append] at hlength
        rw [htext]
        exact hrun w rest' hne hw hrest (ih rest'.length (by omega) rest' rfl)

theorem infix_of_mem_runs {w text : List Char} (h : w ∈ runs p text) : w <:+: text := by
  induction text using runs_induction (p := p) with
  | hnil => cases h
  | hskip x rest hx ih =>
    rw [runs_cons_neg hx] at h
    exact (ih h).trans (List.suffix_cons x rest).isInfix
  | hrun v rest hne hv hrest ih =>
    rw [runs_append hne hv hrest] at h
    rcases List.mem_cons.mp h with rfl | h
    · exact (List.prefix_append w rest).isInfix
    · exact (ih h).trans (List.suffix_append v rest).isInfix

/-- Where no run goes on from one text into the other, each has its own. -/
theorem runs_append_off {xs ys : List Char}
    (h : xs.reverse.head?.any p = false ∨ ys.head?.any p = false) : runs p (xs ++ ys) = runs p xs ++ runs p ys := by
  induction xs using runs_induction (p := p) with
  | hnil => rfl
  | hskip x rest hx ih =>
    rw [List.cons_append, runs_cons_neg hx, runs_cons_neg hx]
    refine ih (h.imp_left fun hlast => ?_)
    cases hrest : rest.reverse with
    | nil => rfl
    | cons y ys => rw [List.reverse_cons, hrest] at hlast; exact hlast
  | hrun v rest hne hv hrest ih =>
    cases rest with
    | nil =>
      have hlast : (v ++ []).reverse.head?.any p = true := by
        rw [List.append_nil]
        obtain ⟨x, v', hv'⟩ := List.exists_cons_of_ne_nil (List.reverse_ne_nil_iff.mpr hne)
        rw [hv']
        exact hv x (List.mem_reverse.mp (hv' ▸ List.mem_cons_self))
      rw [hlast] at h
      have hys : ∀ x ∈ ys.head?, p x = false := by
        rcases h with h | h
        · cases h
        · cases hhead : ys.head? <;> simp_all
      rw [List.append_nil, runs_append hne hv hys, ← List.append_nil v, runs_append hne hv (by simp)]
      simp [runs_nil]
    | cons x rest =>
      have hx : p x = false := hrest x rfl
      rw [List.append_assoc, runs_append hne hv (by simpa using hx), runs_append hne hv (by simpa using hx),
        List.cons_append]
      refine congrArg _ (ih (h.imp_left fun hlast => ?_))
      rw [List.reverse_append] at hlast
      cases hrev : (x :: rest).reverse with
      | nil => rfl
      | cons y ys => rw [hrev] at hlast; exact hlast

theorem takeWhile_append_run {w rest : List Char} (hw : ∀ x ∈ w, p x = true)
    (hrest : ∀ x ∈ rest.head?, p x = false) : (w ++ rest).takeWhile p = w := by
  rw [List.takeWhile_append_of_pos hw]
  cases rest with
  | nil => simp
  | cons x rest => rw [List.takeWhile_cons_of_neg (by simp [hrest x rfl]), List.append_nil]

/-- The pattern matches whole runs, those that `ok` says, and nothing else. -/
def OfRuns (r : Regex) (p : Char → Bool) (ok : List Char → Bool) : Prop :=
  ∀ c d, Matches r c d ↔
    Cursor.Begins p c ∧ ok (c.ahead.takeWhile p) = true ∧ c.Reads (c.ahead.takeWhile p) d

/-- Inside a run nothing matches, and at its beginning nothing if `ok` does not say so. -/
theorem OfRuns.skip (hr : OfRuns r p ok) {n : Nat} {b w rest : List Char} (hw : ∀ x ∈ w, p x = true)
    (hrest : ∀ x ∈ rest.head?, p x = false) (hnot : ok w = false) :
    r.findAllFrom n false ⟨b, w ++ rest⟩ = r.findAllFrom n false ⟨w.reverse ++ b, rest⟩ := by
  refine findAllFrom_skip fun v u hsplit hu d hd => ?_
  obtain ⟨hbegins, hmatch, -⟩ := (hr _ _).mp hd
  rcases List.eq_nil_or_concat v with rfl | ⟨v, x, rfl⟩
  · obtain rfl : w = u := hsplit
    rw [takeWhile_append_run hw hrest, hnot] at hmatch
    cases hmatch
  · have hx : p x = true := hw x (by rw [hsplit]; simp)
    have hnone : p x = false := hbegins x (by simp)
    rw [hx] at hnone
    cases hnone

theorem OfRuns.skip_one (hr : OfRuns r p ok) (hok : ok [] = false) {n : Nat} {b rest : List Char} {x : Char}
    (hx : p x = false) : r.findAllFrom n false ⟨b, x :: rest⟩ = r.findAllFrom n false ⟨x :: b, rest⟩ := by
  refine findAllFrom_skip (w := [x]) fun v u hsplit hu d hd => ?_
  obtain ⟨-, hmatch, -⟩ := (hr _ _).mp hd
  have hhere : v = [] ∧ u = [x] := by
    rcases List.cons_eq_append_iff.mp hsplit with ⟨hv, hux⟩ | ⟨v', rfl, hnil⟩
    · exact ⟨hv, hux⟩
    · exact absurd (List.nil_eq_append_iff.mp hnil).2 hu
  obtain ⟨rfl, rfl⟩ := hhere
  rw [List.singleton_append, List.takeWhile_cons_of_neg (by simp [hx]), hok] at hmatch
  cases hmatch

theorem OfRuns.findAllFrom (hr : OfRuns r p ok) (hok : ok [] = false) (n : Nat) (b text : List Char)
    (hn : text.length < n) (hb : ∀ x ∈ text.head?, p x = true → ∀ y ∈ b.head?, p y = false) :
    r.findAllFrom n false ⟨b, text⟩ = (runs p text).filter ok := by
  induction hlength : text.length using Nat.strong_induction_on generalizing n b text with
  | _ length ih =>
    obtain ⟨n, rfl⟩ := Nat.exists_eq_add_one_of_ne_zero (Nat.ne_zero_of_lt hn)
    cases text with
    | nil =>
      have hnone : r.first false b [] = none := by
        refine (first_none r).mpr fun before rest d hsplit hd => ?_
        obtain ⟨rfl, rfl⟩ := List.nil_eq_append_iff.mp hsplit
        have hempty := ((hr _ _).mp hd).2.1
        rw [List.takeWhile_nil, hok] at hempty
        cases hempty
      rw [Regex.findAllFrom, hnone, runs_nil]
      rfl
    | cons x text =>
      cases hx : p x with
      | false =>
        rw [hr.skip_one hok hx, runs_cons_neg hx]
        refine ih text.length (by rw [← hlength]; simp) (n + 1) (x :: b) text ?_ ?_ rfl
        · rw [List.length_cons] at hn
          omega
        · intro y _ _ z hz
          rw [List.head?_cons, Option.mem_some] at hz
          rw [← hz]
          exact hx
      | true =>
        obtain ⟨w, rest, hwhile, htext, hne, hw, hrest⟩ := takeWhile_run text hx
        have hbegins : Cursor.Begins p ⟨b, x :: text⟩ := hb x rfl hx
        have hshorter : rest.length < length := by
          have hpos := List.length_pos_iff.mpr hne
          rw [← hlength, htext, List.length_append]
          omega
        rw [htext, runs_append hne hw hrest]
        have hbetween : ∀ y ∈ rest.head?, p y = true → ∀ z ∈ (w.reverse ++ b).head?, p z = false :=
          fun y hy hpy => by rw [hrest y hy] at hpy; cases hpy
        rw [htext, List.length_append] at hn
        have hpos := List.length_pos_iff.mpr hne
        cases hokw : ok w with
        | true =>
          have hreads : Cursor.Reads ⟨b, w ++ rest⟩ w ⟨w.reverse ++ b, rest⟩ := ⟨rfl, rfl⟩
          have honly : ∀ e, Matches r ⟨b, w ++ rest⟩ e ↔ e = ⟨w.reverse ++ b, rest⟩ := by
            intro e
            rw [hr, ← htext, hwhile, htext]
            constructor
            · rintro ⟨-, -, h⟩
              exact Cursor.Reads.unique h hreads
            · rintro rfl
              exact ⟨hbegins, hokw, hreads⟩
          rw [findAllFrom_hit honly hreads hne, List.filter_cons_of_pos hokw]
          exact congrArg _ (ih rest.length hshorter n _ rest (by omega) hbetween rfl)
        | false =>
          rw [hr.skip hw hrest hokw, List.filter_cons_of_neg (by simp [hokw])]
          exact ih rest.length hshorter (n + 1) _ rest (by omega) hbetween rfl

/-- **A pattern of whole runs finds the runs it is about**, all of them and in their order. -/
theorem OfRuns.findAll (hr : OfRuns r p ok) (hok : ok [] = false) (text : List Char) :
    r.findAll text = (runs p text).filter ok :=
  hr.findAllFrom hok _ [] text (by omega) fun _ _ _ y hy => by cases hy

end Runs

end Regex

end Text
