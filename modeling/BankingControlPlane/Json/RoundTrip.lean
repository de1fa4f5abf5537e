import BankingControlPlane.Json.Numbers

/-!
# A value is what its text says

* `scanString_quote` : strings, with every character escaped or not;
* `listing_listed` : what brackets hold, for any reader of items;
* `scan_encode` : a value, whatever comes after it that does not go on with a number;
* `loads_dumps`; `loads_keys` : an object that is read has every key once.
-/

namespace Json
open Keyed

variable {F α : Type} {fl : Floats F} {rest : List Char}

/-! ## Strings -/

theorem readHex_hexDigit : ∀ n < 16, readHex (hexDigit n) = some n := by decide

theorem scanUnits_escapeChar (c : Char) (text : List Char) :
    scanUnits (escapeChar c ++ text) = (scanUnits text).map fun (units, rest) => (c.toNat :: units, rest) := by
  unfold escapeChar
  by_cases hquote : c = '"'
  · rw [if_pos hquote, hquote]
    rfl
  by_cases hback : c = '\\'
  · rw [if_neg hquote, if_pos hback, hback]
    rfl
  by_cases hline : c = '\n'
  · rw [if_neg hquote, if_neg hback, if_pos hline, hline]
    rfl
  by_cases hreturn : c = '\r'
  · rw [if_neg hquote, if_neg hback, if_neg hline, if_pos hreturn, hreturn]
    rfl
  by_cases htab : c = '\t'
  · rw [if_neg hquote, if_neg hback, if_neg hline, if_neg hreturn, if_pos htab, htab]
    rfl
  rw [if_neg hquote, if_neg hback, if_neg hline, if_neg hreturn, if_neg htab]
  by_cases hbell : c.toNat = 8
  · rw [if_pos hbell, hbell]
    rfl
  by_cases hfeed : c.toNat = 12
  · rw [if_neg hbell, if_pos hfeed, hfeed]
    rfl
  rw [if_neg hbell, if_neg hfeed]
  by_cases hcontrol : c.toNat < 32
  · have hhigh := readHex_hexDigit (c.toNat / 16) (by omega)
    have hlow := readHex_hexDigit (c.toNat % 16) (by omega)
    have hzero : readHex '0' = some 0 := rfl
    have hvalue : (0 * 16 + 0) * 256 + (c.toNat / 16 * 16 + c.toNat % 16) = c.toNat := by omega
    rw [if_pos hcontrol]
    simp only [List.cons_append, List.nil_append, scanUnits, readHex4, hzero, hhigh, hlow]
    simp only [Option.bind_eq_bind, Option.bind_some, hvalue]
  · rw [if_neg hcontrol, List.cons_append, List.nil_append, scanUnits, if_neg (by simp [hcontrol, hback])]
    · exact hquote
    · exact fun _ _ _ _ _ h => absurd h hback
    · exact fun _ _ h => absurd h hback

theorem scanUnits_quoted (chars : List Char) :
    scanUnits (chars.flatMap escapeChar ++ '"' :: rest) = some (chars.map Char.toNat, rest) := by
  induction chars with
  | nil => rfl
  | cons c chars ih =>
    rw [List.flatMap_cons, List.append_assoc, scanUnits_escapeChar, ih]
    rfl

theorem valid_toNat (c : Char) : c.toNat.isValidChar := c.valid

theorem joinUnits_chars : ∀ chars : List Char, joinUnits (chars.map Char.toNat) = some chars
  | [] => rfl
  | [c] => by
    rw [List.map_cons, List.map_nil, joinUnits, if_pos (valid_toNat c), Char.ofNat_toNat]
  | c :: d :: rest => by
    have hvalid := valid_toNat c
    have hsingle : ¬ (0xD800 ≤ c.toNat ∧ c.toNat < 0xDC00 ∧ 0xDC00 ≤ d.toNat ∧ d.toNat < 0xE000) := by
      rintro ⟨hhigh, hlow, -⟩
      rcases hvalid with h | h <;> omega
    have ih := joinUnits_chars (d :: rest)
    rw [List.map_cons] at ih
    rw [List.map_cons, List.map_cons, joinUnits, if_neg hsingle, if_pos hvalid, ih, Char.ofNat_toNat]
    rfl

theorem scanString_quote (s : String) :
    ∃ text, quote s = '"' :: text ∧ ∀ rest, scanString (text ++ rest) = some (s, rest) := by
  refine ⟨s.toList.flatMap escapeChar ++ ['"'], rfl, fun rest => ?_⟩
  rw [List.append_assoc, List.singleton_append, scanString, scanUnits_quoted, Option.bind_some]
  dsimp only
  rw [joinUnits_chars, Option.map_some, String.ofList_toList]

/-! ## Brackets -/

/-- An ASCII character that is neither a control nor a space. -/
def Visible (c : Char) : Prop := 32 < c.toNat ∧ c.toNat < 127

theorem Visible.blank {c : Char} (h : Visible c) : isBlank c = false := by
  by_contra hblank
  simp only [isBlank, Bool.not_eq_false, Bool.or_eq_true, decide_eq_true_eq] at hblank
  rcases hblank with ((rfl | rfl) | rfl) | rfl <;> exact absurd h.1 (by decide)

theorem Visible.digit {c : Char} (h : c.isDigit = true) : Visible c := by
  simp only [Char.isDigit, Bool.and_eq_true, decide_eq_true_eq] at h
  have hlow : 48 ≤ c.toNat := h.1
  have hhigh : c.toNat ≤ 57 := h.2
  exact ⟨by omega, by omega⟩

/-- The text begins with a character of its own. -/
def Token (close : Char) (text : List Char) : Prop :=
  ∃ c more, text = c :: more ∧ Visible c ∧ c ≠ close

theorem skip_cons {c : Char} (hc : isBlank c = false) (text : List Char) : skip (c :: text) = c :: text := by
  simp [skip, hc]

/-- A closing bracket. -/
def Closes (close : Char) : Prop := close = ']' ∨ close = '}'

theorem Closes.blank {close : Char} (h : Closes close) : isBlank close = false := by
  rcases h with rfl | rfl <;> rfl

theorem ends_cons {c : Char} (hc : c = ',' ∨ Closes c) : Ends (c :: rest) := by
  intro d hd
  cases hd
  rcases hc with rfl | rfl | rfl <;> decide

section Listing
variable {close : Char} {item : Reader α} {xs : List α} {text : α → List Char} (hclose : Closes close)
  (htoken : ∀ x ∈ xs, Token close (text x))
  (hitem : ∀ x ∈ xs, ∀ rest, Ends rest → item (text x ++ rest) = some (x, rest))
include hclose

theorem ends_listedMore (texts : List (List Char)) : Ends (listedMore close texts ++ rest) := by
  cases texts with
  | nil => exact ends_cons (Or.inr hclose)
  | cons text texts => exact ends_cons (Or.inl rfl)

include htoken hitem

theorem listingMore_listedMore {n : Nat} (hn : xs.length < n) :
    listingMore close item n (listedMore close (xs.map text) ++ rest) =
      some (xs, rest) := by
  induction xs generalizing n with
  | nil =>
    obtain ⟨n, rfl⟩ := Nat.exists_eq_succ_of_ne_zero (Nat.ne_of_gt hn)
    rw [List.map_nil, listedMore, List.singleton_append, listingMore, skip_cons hclose.blank]
    dsimp only
    rw [if_pos rfl]
  | cons x xs ih =>
    obtain ⟨n, rfl⟩ := Nat.exists_eq_succ_of_ne_zero (Nat.ne_of_gt (Nat.lt_of_le_of_lt (Nat.zero_le _) hn))
    obtain ⟨hfirst, htokens⟩ := List.forall_mem_cons.mp htoken
    obtain ⟨hread, hitems⟩ := List.forall_mem_cons.mp hitem
    obtain ⟨c, more, heq, hvisible, -⟩ := hfirst
    have hcomma : ',' ≠ close := by rcases hclose with rfl | rfl <;> decide
    have hskip : skip (text x ++ (listedMore close (xs.map text) ++ rest)) =
        text x ++ (listedMore close (xs.map text) ++ rest) := by
      rw [heq, List.cons_append, skip_cons hvisible.blank]
    have hrest := ih htokens hitems (n := n) (by simpa using hn)
    rw [List.map_cons, listedMore, List.cons_append, List.append_assoc, listingMore,
      skip_cons rfl]
    dsimp only
    rw [if_neg hcomma, if_pos rfl, hskip, hread _ (ends_listedMore hclose _), Option.bind_some]
    dsimp only
    rw [hrest, Option.map_some]

/-- Brackets hold what is listed between them. -/
theorem listing_listed (opening : Char) {n : Nat} (hn : xs.length ≤ n) :
    ∃ inside, listed opening close (xs.map text) = opening :: inside ∧
      listing close item n (inside ++ rest) = some (xs, rest) := by
  cases xs with
  | nil =>
    refine ⟨[close], rfl, ?_⟩
    rw [List.singleton_append, listing, skip_cons hclose.blank]
    dsimp only
    rw [if_pos rfl]
  | cons x xs =>
    obtain ⟨hfirst, htokens⟩ := List.forall_mem_cons.mp htoken
    obtain ⟨hread, hitems⟩ := List.forall_mem_cons.mp hitem
    obtain ⟨c, more, heq, hvisible, hother⟩ := hfirst
    refine ⟨text x ++ listedMore close (xs.map text), rfl, ?_⟩
    have hrest := @listingMore_listedMore α rest _ _ _ _ hclose htokens hitems _ hn
    have hskip : skip (text x ++ (listedMore close (xs.map text) ++ rest)) =
        c :: (more ++ (listedMore close (xs.map text) ++ rest)) := by
      rw [heq, List.cons_append, skip_cons hvisible.blank]
    rw [List.append_assoc, listing, hskip]
    dsimp only
    rw [if_neg hother, ← List.cons_append, ← heq, hread _ (ends_listedMore hclose _), Option.bind_some]
    dsimp only
    rw [hrest, Option.map_some]

end Listing

/-! ## Values -/

/-- A field is a quoted key, a colon, and the text of its value. -/
theorem member_read {item : Reader α} {key : String} {text : List Char} {v : α} (htoken : Token '}' text)
    (hitem : item (text ++ rest) = some (v, rest)) :
    member item (quote key ++ ':' :: text ++ rest) = some ((key, v), rest) := by
  obtain ⟨quoted, hquote, hread⟩ := scanString_quote key
  obtain ⟨c, more, htext, hvisible, -⟩ := htoken
  have hskip : skip (text ++ rest) = text ++ rest := by rw [htext, List.cons_append, skip_cons hvisible.blank]
  rw [hquote, List.append_assoc, List.cons_append, List.cons_append, member, hread, Option.bind_some]
  change ((item (skip (text ++ rest))).map fun p => ((key, p.1), p.2)) = _
  rw [hskip, hitem, Option.map_some]

/-- Distinct keys are kept as they are. -/
theorem dict_nodup {fields : List (String × Value F)} (h : (fields.map Prod.fst).Nodup) : dict fields = fields := by
  have hfold : ∀ (later earlier : List (String × Value F)), ((earlier ++ later).map Prod.fst).Nodup →
      later.foldl (upsert Prod.fst) earlier = earlier ++ later := by
    intro later
    induction later with
    | nil => intro earlier _; rw [List.foldl_nil, List.append_nil]
    | cons field later ih =>
      intro earlier hnodup
      have hnew : upsert Prod.fst earlier field = earlier ++ [field] := by
        refine upsert_new _ fun x hx heq => ?_
        rw [List.map_append, List.map_cons, List.nodup_append] at hnodup
        exact hnodup.2.2 x.1 (List.mem_map_of_mem hx) field.1 List.mem_cons_self heq
      rw [List.foldl_cons, hnew, ih _ (by rw [List.append_assoc]; exact hnodup), List.append_assoc]
      rfl
  simpa [dict] using hfold fields [] (by simpa using h)

theorem WholeText.ne_nil {text : List Char} (h : WholeText text) : text ≠ [] := by
  obtain ⟨digits, hdigits, -, rfl | rfl⟩ := h
  · exact hdigits.1
  · exact List.cons_ne_nil _ _

/-- Every text of a value begins with a visible character that closes nothing. -/
theorem token_number {text : List Char} (h : WholeText text) {close : Char} (hclose : Closes close) :
    Token close text := by
  obtain ⟨digits, hdigits, -, rfl | rfl⟩ := h
  · obtain ⟨c, more, rfl⟩ := List.exists_cons_of_ne_nil hdigits.1
    have hdigit := hdigits.2 c List.mem_cons_self
    refine ⟨c, more, rfl, Visible.digit hdigit, ?_⟩
    rcases hclose with rfl | rfl <;> exact digit_ne hdigit (by decide)
  · exact ⟨'-', digits, rfl, ⟨by decide, by decide⟩, by rcases hclose with rfl | rfl <;> decide⟩

theorem encode_token (hfl : fl.Lawful) (v : Value F) (hv : v.WellFormed fl) {close : Char}
    (hclose : Closes close) : Token close (encode fl v) := by
  have hplain : ∀ c more, 32 < c.toNat ∧ c.toNat < 127 → c ≠ ']' → c ≠ '}' → Token close (c :: more) := by
    intro c more hvisible hsquare hcurly
    refine ⟨c, more, rfl, hvisible, ?_⟩
    rcases hclose with rfl | rfl
    · exact hsquare
    · exact hcurly
  cases v with
  | null => exact hplain _ _ (by decide) (by decide) (by decide)
  | bool b => cases b <;> exact hplain _ _ (by decide) (by decide) (by decide)
  | int i => exact token_number (wholeText_int i) hclose
  | float f =>
    obtain ⟨whole, frac, exp, htext, hwhole, -⟩ := hfl.number f hv
    obtain ⟨c, more, hcons, hvisible, hother⟩ := token_number hwhole hclose
    refine ⟨c, more ++ frac ++ exp, ?_, hvisible, hother⟩
    rw [encode, htext, hcons, List.cons_append, List.cons_append]
  | str s => exact hplain _ _ (by decide) (by decide) (by decide)
  | arr items => cases items <;> exact hplain _ _ (by decide) (by decide) (by decide)
  | obj fields => cases fields <;> exact hplain _ _ (by decide) (by decide) (by decide)

/-- A list is longer than what is in it, and than the number of it. -/
theorem length_listedMore (close : Char) (texts : List (List Char)) :
    texts.length < (listedMore close texts).length ∧
      ∀ text ∈ texts, text.length < (listedMore close texts).length := by
  induction texts with
  | nil => exact ⟨by simp [listedMore], fun text h => (List.not_mem_nil h).elim⟩
  | cons first texts ih =>
    obtain ⟨hcount, hall⟩ := ih
    simp only [listedMore, List.length_cons, List.length_append, List.forall_mem_cons]
    refine ⟨by omega, by omega, fun text htext => ?_⟩
    have hlt := hall text htext
    omega

theorem length_listed (opening close : Char) (texts : List (List Char)) :
    texts.length < (listed opening close texts).length ∧
      ∀ text ∈ texts, text.length < (listed opening close texts).length := by
  cases texts with
  | nil => exact ⟨by simp [listed], fun text h => (List.not_mem_nil h).elim⟩
  | cons first texts =>
    obtain ⟨hcount, hall⟩ := length_listedMore close texts
    simp only [listed, List.length_cons, List.length_append, List.forall_mem_cons]
    refine ⟨by omega, by omega, fun text htext => ?_⟩
    have hlt := hall text htext
    omega

/-- What begins with none of the other values is read as a number. -/
theorem scan_other {c : Char} (h : c.isDigit = true ∨ c = '-') {text : List Char}
    (htext : ¬ (c = '-' ∧ text.head? = some 'I')) (n : Nat) : scan fl (n + 1) (c :: text) = scanNumber fl (c :: text) := by
  have hne : ∀ d : Char, d.isDigit = false → d ≠ '-' → c ≠ d := by
    rintro d hd hminus rfl
    rcases h with h | h
    · rw [hd] at h
      cases h
    · exact hminus h
  rw [scan, if_neg (hne '"' rfl (by decide)), if_neg (hne '[' rfl (by decide)), if_neg (hne '{' rfl (by decide)),
    if_neg (hne 'n' rfl (by decide)), if_neg (hne 't' rfl (by decide)), if_neg (hne 'f' rfl (by decide)),
    if_neg (hne 'N' rfl (by decide)), if_neg (hne 'I' rfl (by decide)), if_neg htext]

theorem scan_number {text : List Char} (h : WholeText text) (more : List Char) (n : Nat) :
    scan fl (n + 1) (text ++ more) = scanNumber fl (text ++ more) := by
  obtain ⟨digits, hdigits, -, htext⟩ := h
  obtain ⟨c, digits, rfl⟩ := List.exists_cons_of_ne_nil hdigits.1
  have hdigit := hdigits.2 c List.mem_cons_self
  rcases htext with rfl | rfl
  · exact scan_other (Or.inl hdigit) (fun h => digit_ne hdigit (by decide : '-'.isDigit = false) h.1) n
  · refine scan_other (Or.inr rfl) (fun h => ?_) n
    exact digit_ne hdigit (by decide : 'I'.isDigit = false) (Option.some.inj h.2)

theorem scan_encode (hfl : fl.Lawful) (v : Value F) : ∀ n, (encode fl v).length ≤ n →
    v.Every (Value.WellFormed fl) → v.Every Value.Printable → ∀ rest, Ends rest →
      scan fl n (encode fl v ++ rest) = some (v, rest) := by
  induction v using Value.induct with
  | null =>
    intro n hn _ _ rest _
    obtain ⟨n, rfl⟩ := Nat.exists_eq_add_of_le' hn
    rfl
  | bool b =>
    intro n hn _ _ rest _
    cases b <;> obtain ⟨n, rfl⟩ := Nat.exists_eq_add_of_le' hn <;> rfl
  | int i =>
    intro n hn _ hprintable rest hrest
    have hwhole := wholeText_int i
    have hpos : 0 < (intText i).length := List.length_pos_of_ne_nil (hwhole.ne_nil)
    obtain ⟨n, rfl⟩ := Nat.exists_eq_add_of_le' (Nat.lt_of_lt_of_le hpos hn)
    rw [encode, scan_number hwhole, scanNumber_int hprintable.self hrest]
  | float f =>
    intro n hn hwf _ rest hrest
    obtain ⟨whole, frac, exp, htext, hwhole, -⟩ := hfl.number f hwf.self
    have hpos : 0 < (fl.text f).length := by
      rw [htext, List.append_assoc, List.length_append]
      exact Nat.add_pos_left (List.length_pos_of_ne_nil hwhole.ne_nil) _
    obtain ⟨n, rfl⟩ := Nat.exists_eq_add_of_le' (Nat.lt_of_lt_of_le hpos hn)
    have hscan := @scan_number F fl _ hwhole (frac ++ (exp ++ rest)) n
    rw [← List.append_assoc, ← List.append_assoc, ← htext, scanNumber_float hfl hwf.self hrest] at hscan
    exact hscan
  | str s =>
    intro n hn _ _ rest _
    obtain ⟨text, hquote, hread⟩ := scanString_quote s
    rw [encode, hquote] at hn ⊢
    obtain ⟨n, rfl⟩ := Nat.exists_eq_add_of_le' (Nat.lt_of_lt_of_le (Nat.zero_lt_succ _) hn)
    rw [List.cons_append, scan, if_pos rfl, hread, Option.map_some]
  | arr items ih =>
    intro n hn hwf hprintable rest _
    obtain ⟨-, hwf⟩ := Value.every_arr.mp hwf
    obtain ⟨-, hprintable⟩ := Value.every_arr.mp hprintable
    rw [encode, encodeItems_eq] at hn ⊢
    obtain ⟨hcount, hshort⟩ := length_listed '[' ']' (items.map (encode fl))
    obtain ⟨n, rfl⟩ := Nat.exists_eq_add_of_le' (Nat.lt_of_le_of_lt (Nat.zero_le _) (Nat.lt_of_lt_of_le hcount hn))
    have hread : ∀ v ∈ items, ∀ rest, Ends rest → scan fl n (encode fl v ++ rest) = some (v, rest) := by
      intro v hv rest hrest
      have hlt := hshort _ (List.mem_map_of_mem hv)
      exact ih v hv n (by omega) (hwf v hv) (hprintable v hv) rest hrest
    have htoken : ∀ v ∈ items, Token ']' (encode fl v) := fun v hv =>
      encode_token hfl v (hwf v hv).self (Or.inl rfl)
    obtain ⟨inside, hlisted, hlisting⟩ := @listing_listed _ rest _ _ _ _ (Or.inl rfl) htoken hread '[' _
      (Nat.le_of_lt_succ (by rw [List.length_map] at hcount; omega) : _ ≤ n)
    rw [hlisted, List.cons_append, scan, if_neg (by decide), if_pos rfl, hlisting, Option.map_some]
  | obj fields ih =>
    intro n hn hwf hprintable rest _
    obtain ⟨hdistinct, hwf⟩ := Value.every_obj.mp hwf
    obtain ⟨-, hprintable⟩ := Value.every_obj.mp hprintable
    rw [encode, encodeFields_eq] at hn ⊢
    obtain ⟨hcount, hshort⟩ := length_listed '{' '}' (fields.map fun field => quote field.1 ++ ':' :: encode fl field.2)
    obtain ⟨n, rfl⟩ := Nat.exists_eq_add_of_le' (Nat.lt_of_le_of_lt (Nat.zero_le _) (Nat.lt_of_lt_of_le hcount hn))
    have hread : ∀ field ∈ fields, ∀ rest, Ends rest →
        member (scan fl n) (quote field.1 ++ ':' :: encode fl field.2 ++ rest) = some (field, rest) := by
      intro field hfield rest hrest
      have hlt := hshort _ (List.mem_map_of_mem hfield)
      rw [List.length_append, List.length_cons] at hlt
      refine member_read (encode_token hfl _ (hwf field hfield).self (Or.inr rfl)) ?_
      exact ih field hfield n (by omega) (hwf field hfield) (hprintable field hfield) rest hrest
    have htoken : ∀ field ∈ fields, Token '}' (quote field.1 ++ ':' :: encode fl field.2) := fun field _ =>
      ⟨'"', _, rfl, ⟨by decide, by decide⟩, by decide⟩
    obtain ⟨inside, hlisted, hlisting⟩ := @listing_listed _ rest _ _ _ _ (Or.inr rfl) htoken hread '{' _
      (Nat.le_of_lt_succ (by rw [List.length_map] at hcount; omega) : _ ≤ n)
    rw [hlisted, List.cons_append, scan, if_neg (by decide), if_neg (by decide), if_pos rfl, hlisting,
      Option.map_some]
    dsimp only
    rw [dict_nodup hdistinct]

/-- **A value is what its text says.** -/
theorem loads_dumps (hfl : fl.Lawful) {v : Value F} (hwf : v.Every (Value.WellFormed fl)) {text : List Char}
    (h : dumps fl v = some text) : loads fl text = some v := by
  unfold dumps at h
  split_ifs at h with hprintable
  obtain rfl := Option.some.inj h
  obtain ⟨c, more, htext, hvisible, -⟩ := encode_token hfl v hwf.self (Or.inl rfl)
  have hskip : skip (encode fl v) = encode fl v := by rw [htext, skip_cons hvisible.blank]
  have hscan := scan_encode hfl v _ (Nat.le_refl _) hwf hprintable [] ends_nil
  rw [List.append_nil] at hscan
  rw [loads, hskip, hscan, Option.bind_some]
  rfl

/-! ## Keys -/

theorem dict_keys (fields : List (String × Value F)) : ((dict fields).map Prod.fst).Nodup := by
  have hfold : ∀ (later earlier : List (String × Value F)), (earlier.map Prod.fst).Nodup →
      ((later.foldl (upsert Prod.fst) earlier).map Prod.fst).Nodup := by
    intro later
    induction later with
    | nil => exact fun earlier h => h
    | cons field later ih => exact fun earlier h => ih _ (nodup_upsert Prod.fst h field)
  exact hfold fields [] List.nodup_nil

theorem literal_value {word text : List Char} {v v' : Value F} (h : literal word v text = some (v', rest)) :
    v' = v := by
  unfold literal at h
  split_ifs at h
  exact (congrArg Prod.fst (Option.some.inj h)).symm

theorem scan_keys {n : Nat} {text : List Char} {fields : List (String × Value F)}
    (h : scan fl n text = some (.obj fields, rest)) : (fields.map Prod.fst).Nodup := by
  cases n with
  | zero => cases h
  | succ n =>
    cases text with
    | nil => cases h
    | cons c text =>
      rw [scan] at h
      split_ifs at h with hquote hsquare hcurly
      · obtain ⟨read, -, heq⟩ := Option.map_eq_some_iff.mp h
        cases heq
      · obtain ⟨read, -, heq⟩ := Option.map_eq_some_iff.mp h
        cases heq
      · obtain ⟨read, -, heq⟩ := Option.map_eq_some_iff.mp h
        obtain ⟨hfields, -⟩ := Prod.mk.inj heq
        cases hfields
        exact dict_keys read.1
      · cases literal_value h
      · cases literal_value h
      · cases literal_value h
      · cases literal_value h
      · cases literal_value h
      · cases literal_value h
      · obtain ⟨whole, frac, exp, -, -, -, -, hnumber⟩ := scanNumber_sound h
        unfold number at hnumber
        split_ifs at hnumber
        · obtain ⟨i, -, heq⟩ := Option.map_eq_some_iff.mp hnumber
          cases heq
        · cases hnumber

theorem loads_keys {text : List Char} {fields : List (String × Value F)} (h : loads fl text = some (.obj fields)) :
    (fields.map Prod.fst).Nodup := by
  obtain ⟨⟨v, rest⟩, hscan, h⟩ := Option.bind_eq_some_iff.mp h
  dsimp only at h
  split_ifs at h
  obtain rfl := Option.some.inj h
  exact scan_keys hscan

end Json
