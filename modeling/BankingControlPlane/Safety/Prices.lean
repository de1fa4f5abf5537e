import BankingControlPlane.Runtime.Costs
import BankingControlPlane.Safety.Wire

/-!
# An override of the prices

* `WellFormed` : what an entry of an override must be, and `Names` : the price it then names;
* `Tolerates` : an override that is not well formed leaves the default prices, and one that is sets its own and no
  others; nothing is raised;
* `mergePrices_eq` : the entries before the first that is refused are set;
* `loadPrices_tolerates_iff` : when an override is tolerated;
* `overrides_not_tolerated` : overrides that are not.
-/

namespace BankingControlPlane
open Json Keyed Text

variable {F : Type}

/-! ## What is promised -/

def IsNumber : Value F → Prop
  | .int _ | .float _ => True
  | _ => False

/-- Numbers under `input` and `output`, under `cache_read` and `cache_write` if need be, and nothing else. -/
structure WellFormed (fields : List (String × Value F)) : Prop where
  known : ∀ field ∈ fields, field.1 ∈ ModelPrice.names ∧ IsNumber field.2
  input : (priceField "input" fields).isSome
  output : (priceField "output" fields).isSome

/-- The price that the fields name. What is not named costs nothing. -/
structure Names (fl : Floats F) (fields : List (String × Value F)) (price : ModelPrice F) : Prop where
  input : priceField "input" fields = some price.input
  output : priceField "output" fields = some price.output
  cacheRead : price.cacheRead = (priceField "cache_read" fields).getD (rate fl "0.0")
  cacheWrite : price.cacheWrite = (priceField "cache_write" fields).getD (rate fl "0.0")

/-- The text is an object of well-formed entries. -/
structure Overriding (json : Decoder F) (text : List Char) (items : List (String × Value F)) : Prop where
  visible : strip text ≠ []
  read : json.loads text = .value (.obj items)
  entries : ∀ item ∈ items, ∃ fields, item.2 = .obj fields ∧ WellFormed fields

/-- The table has the price of each entry, and of a model without an entry what it has by default. -/
structure Overrides (fl : Floats F) (items : List (String × Value F)) (table : List (String × ModelPrice F)) : Prop where
  set : ∀ name fields, (name, .obj fields) ∈ items →
    ∃ price, Names fl fields price ∧ find Prod.fst table name = some (name, price)
  kept : ∀ name, name ∉ items.map Prod.fst → find Prod.fst table name = find Prod.fst (defaultPrices fl) name

/-- A malformed override is ignored, and neither fatal nor half applied; a well-formed one is applied. -/
def Tolerates (fl : Floats F) (json : Decoder F) (text : List Char) : Prop :=
  ∃ table, loadPrices fl json text = .ok table ∧
    ((∀ items, ¬ Overriding json text items) → table = defaultPrices fl) ∧
    ∀ items, Overriding json text items → Overrides fl items table

/-! ## Entries applied -/

/-- The entries before the first that `ModelPrice` refuses, with their prices. -/
def applied (fl : Floats F) : List (String × Value F) → List (String × ModelPrice F)
  | [] => []
  | (name, fields) :: rest =>
    match ModelPrice.ofFields fl fields with
    | none => []
    | some price => (name, price) :: applied fl rest

/-- Each of them gives its model the price that it has by default. -/
def Restates (fl : Floats F) (items : List (String × Value F)) : Prop :=
  ∀ row ∈ applied fl items, find Prod.fst (defaultPrices fl) row.1 = some row

section Applied
variable (fl : Floats F) {items : List (String × Value F)}

theorem mergePrices_eq (items : List (String × Value F)) (prices : List (String × ModelPrice F)) :
    mergePrices fl prices items = (applied fl items).foldl (upsert Prod.fst) prices := by
  induction items generalizing prices with
  | nil => rfl
  | cons item rest ih =>
    unfold mergePrices applied
    cases ModelPrice.ofFields fl item.2 with
    | none => rfl
    | some price => exact ih _

theorem ofFields_known {fields : List (String × Value F)} {price : ModelPrice F}
    (h : ModelPrice.ofFields fl (.obj fields) = some price) : Names fl fields price := by
  rw [ModelPrice.ofFields] at h
  split_ifs at h
  obtain ⟨input, hinput, h⟩ := Option.bind_eq_some_iff.mp h
  obtain ⟨output, houtput, h⟩ := Option.bind_eq_some_iff.mp h
  obtain rfl := Option.some.inj h
  exact ⟨hinput, houtput, rfl, rfl⟩

theorem ofFields_wellFormed {fields : List (String × Value F)} (h : WellFormed fields) :
    ∃ price, ModelPrice.ofFields fl (.obj fields) = some price ∧ Names fl fields price := by
  obtain ⟨input, hinput⟩ := Option.isSome_iff_exists.mp h.input
  obtain ⟨output, houtput⟩ := Option.isSome_iff_exists.mp h.output
  have hprice : (ModelPrice.ofFields fl (.obj fields)).isSome := by
    rw [ModelPrice.ofFields, if_pos fun field hfield => (h.known field hfield).1, hinput, houtput]
    rfl
  obtain ⟨price, hprice⟩ := Option.isSome_iff_exists.mp hprice
  exact ⟨price, hprice, ofFields_known fl hprice⟩

theorem keys_applied (items : List (String × Value F)) :
    (applied fl items).map Prod.fst <+: items.map Prod.fst := by
  induction items with
  | nil => exact List.prefix_refl []
  | cons item rest ih =>
    unfold applied
    cases ModelPrice.ofFields fl item.2 with
    | none => exact List.nil_prefix
    | some price => exact (List.prefix_cons_inj item.1).mpr ih

/-- Where every entry is accepted, every entry is applied. -/
theorem applied_all (h : ∀ item ∈ items, (ModelPrice.ofFields fl item.2).isSome) :
    (applied fl items).map Prod.fst = items.map Prod.fst ∧
      ∀ item ∈ items, ∃ price, ModelPrice.ofFields fl item.2 = some price ∧ (item.1, price) ∈ applied fl items := by
  induction items with
  | nil => exact ⟨rfl, fun item hitem => absurd hitem List.not_mem_nil⟩
  | cons item rest ih =>
    obtain ⟨hitem, hrest⟩ := List.forall_mem_cons.mp h
    obtain ⟨price, hprice⟩ := Option.isSome_iff_exists.mp hitem
    obtain ⟨hkeys, hmem⟩ := ih hrest
    have happlied : applied fl (item :: rest) = (item.1, price) :: applied fl rest := by
      rw [applied, hprice]
    rw [happlied]
    constructor
    · rw [List.map_cons, List.map_cons, hkeys]
    · intro item' hitem'
      rcases List.mem_cons.mp hitem' with rfl | hitem'
      · exact ⟨price, hprice, List.mem_cons_self⟩
      · obtain ⟨price', hprice', hmem'⟩ := hmem item' hitem'
        exact ⟨price', hprice', List.mem_cons_of_mem _ hmem'⟩

/-- The table is as it was exactly where the entries applied restate it. -/
theorem mergePrices_defaults_iff (hkeys : (items.map Prod.fst).Nodup) :
    mergePrices fl (defaultPrices fl) items = defaultPrices fl ↔ Restates fl items := by
  have hnodup : ((applied fl items).map Prod.fst).Nodup := hkeys.sublist (keys_applied fl items).sublist
  rw [mergePrices_eq]
  constructor
  · intro h row hrow
    have hfound := find_foldl_upsert Prod.fst hnodup (defaultPrices fl) row.1
    rw [h, find_of_mem Prod.fst hnodup hrow] at hfound
    exact hfound
  · exact foldl_upsert_self Prod.fst

/-- Well-formed entries override the defaults. -/
theorem mergePrices_overrides (hkeys : (items.map Prod.fst).Nodup)
    (h : ∀ item ∈ items, ∃ fields, item.2 = .obj fields ∧ WellFormed fields) :
    Overrides fl items (mergePrices fl (defaultPrices fl) items) := by
  have haccepted : ∀ item ∈ items, (ModelPrice.ofFields fl item.2).isSome := by
    intro item hitem
    obtain ⟨fields, hfields, hwell⟩ := h item hitem
    obtain ⟨price, hprice, -⟩ := ofFields_wellFormed fl hwell
    rw [hfields, hprice]
    rfl
  obtain ⟨hsame, hmem⟩ := applied_all fl haccepted
  have hnodup : ((applied fl items).map Prod.fst).Nodup := hsame ▸ hkeys
  rw [mergePrices_eq]
  constructor
  · intro name fields hitem
    obtain ⟨price, hprice, hrow⟩ := hmem _ hitem
    refine ⟨price, ofFields_known fl hprice, ?_⟩
    rw [find_foldl_upsert Prod.fst hnodup, find_of_mem Prod.fst hnodup hrow]
    rfl
  · intro name hname
    have hnone : find Prod.fst (applied fl items) name = none := by
      apply (find_eq_none Prod.fst).mpr
      rintro row hrow rfl
      apply hname
      rw [← hsame]
      exact List.mem_map_of_mem hrow
    rw [find_foldl_upsert Prod.fst hnodup, hnone]
    rfl

end Applied

/-! ## Every text -/

section Texts
variable (fl : Floats F) {json : Decoder F} {text : List Char}

theorem loadPrices_read {loaded : Loaded F} (hvisible : strip text ≠ []) (hread : json.loads text = loaded) :
    loadPrices fl json text = pricesOf fl loaded := by
  rw [loadPrices, if_neg hvisible, hread]

theorem not_tolerates {fault : PriceFault} (h : loadPrices fl json text = .error fault) : ¬ Tolerates fl json text := by
  rintro ⟨table, hreturns, -⟩
  rw [h] at hreturns
  cases hreturns

/-- A text that is no object is tolerated where the defaults are returned. -/
theorem tolerates_ignored (h : loadPrices fl json text = .ok (defaultPrices fl))
    (hno : ∀ items, ¬ Overriding json text items) : Tolerates fl json text :=
  ⟨defaultPrices fl, h, fun _ => rfl, fun items hitems => absurd hitems (hno items)⟩

theorem tolerates_object {items : List (String × Value F)} (hvisible : strip text ≠ [])
    (hread : json.loads text = .value (.obj items)) : Tolerates fl json text ↔
      (∀ item ∈ items, ∃ fields, item.2 = .obj fields ∧ WellFormed fields) ∨ Restates fl items := by
  have hload := loadPrices_read fl hvisible hread
  have hkeys := json.keys hread
  have hitems : ∀ items', Overriding json text items' → items' = items := by
    intro items' h
    have hsame := h.read.symm.trans hread
    cases hsame
    rfl
  by_cases hentries : ∀ item ∈ items, ∃ fields, item.2 = .obj fields ∧ WellFormed fields
  · refine iff_of_true ⟨_, hload, ?_, ?_⟩ (Or.inl hentries)
    · exact fun hno => absurd ⟨hvisible, hread, hentries⟩ (hno items)
    · intro items' h
      rw [hitems items' h]
      exact mergePrices_overrides fl hkeys hentries
  · have hno : ∀ items', ¬ Overriding json text items' := by
      intro items' h
      obtain rfl := hitems items' h
      exact hentries h.entries
    rw [or_iff_right hentries, ← mergePrices_defaults_iff fl hkeys]
    constructor
    · rintro ⟨table, hreturns, hignored, -⟩
      rw [hload] at hreturns
      rw [Except.ok.inj hreturns]
      exact hignored hno
    · intro h
      exact tolerates_ignored fl (hload.trans (congrArg Except.ok h)) hno

/-- **An override is tolerated** exactly when it is blank or no JSON, or it is an object whose entries are all well
formed, or else restate the default prices up to the first that is refused. -/
theorem loadPrices_tolerates_iff (json : Decoder F) (text : List Char) : Tolerates fl json text ↔
    strip text = [] ∨ json.loads text = .malformed ∨ ∃ items, json.loads text = .value (.obj items) ∧
      ((∀ item ∈ items, ∃ fields, item.2 = .obj fields ∧ WellFormed fields) ∨ Restates fl items) := by
  by_cases hblank : strip text = []
  · exact iff_of_true (tolerates_ignored fl (if_pos hblank) fun items h => h.visible hblank) (Or.inl hblank)
  · rw [or_iff_right hblank]
    cases hread : json.loads text with
    | malformed =>
      refine iff_of_true (tolerates_ignored fl (loadPrices_read fl hblank hread) fun items h => ?_) (Or.inl rfl)
      cases h.read.symm.trans hread
    | tooDeep =>
      exact iff_of_false (not_tolerates fl (loadPrices_read fl hblank hread)) (by simp)
    | value v =>
      cases v with
      | obj items =>
        rw [tolerates_object fl hblank hread]
        simp
      | null | bool b | int i | float f | str s | arr values =>
        exact iff_of_false (not_tolerates fl (loadPrices_read fl hblank hread)) (by simp)

end Texts

/-! An empty list is no object: its `items` raise. Of two entries the second is no price: the first is set. -/

def emptyList : List Char := ['[', ']']

def halfMalformed : List Char := "\x7b\"m\":\x7b\"input\":1,\"output\":2\x7d,\"n\":5\x7d".toList

def halfItems : List (String × Value Half) :=
  [("m", .obj [("input", .int 1), ("output", .int 2)]), ("n", .int 5)]

def shallow : Decoder Half := decoder halves fun _ => false

theorem overrides_not_tolerated :
    loadPrices halves shallow emptyList = .error .attributeError ∧ ¬ Tolerates halves shallow emptyList ∧
    ((loadPrices halves shallow halfMalformed).toOption.getD []).map Prod.fst =
      ["gpt-5.6-luna", "openai.gpt-oss-120b-1:0", "m"] ∧ ¬ Tolerates halves shallow halfMalformed := by
  have hraises : loadPrices halves shallow emptyList = .error .attributeError := by rfl
  have hread : shallow.loads halfMalformed = .value (.obj halfItems) := by rfl
  have hvisible : strip halfMalformed ≠ [] := by decide
  refine ⟨hraises, not_tolerates halves hraises, ?_, ?_⟩
  · rw [loadPrices_read halves hvisible hread]
    decide
  · rw [tolerates_object halves hvisible hread]
    rintro (hentries | hrestates)
    · obtain ⟨fields, hfields, -⟩ := hentries ("n", .int 5) (by simp [halfItems])
      cases hfields
    · -- the default prices have no such model
      have hrow := hrestates ("m", _) (List.mem_cons_self)
      cases hrow

end BankingControlPlane
