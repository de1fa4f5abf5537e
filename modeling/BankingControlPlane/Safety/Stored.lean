import BankingControlPlane.Plane.Sample
import BankingControlPlane.Stores.PgStore

/-!
# Postgres keeps an intent whole

* `lastPut` : the intent last put under an id; `putAll` : a sequence of puts;
* `SameOwner`, `OwnTokens` : what the callers keep of an id, and that no two ids share a token;
* `Holds` : the table has one row for every id put, the one its last intent would write (`Holds.put`,
  `Holds.putAll`);
* `store_keeps_intents` : `get`, `by_confirmation` and `unsettled` answer with the intents last put,
  whole.
-/

namespace BankingControlPlane
open PgStore

variable {F : Type}

/-- The intent last put under an id. -/
def lastPut (puts : List (PgIntent F)) (id : String) : Option (PgIntent F) :=
  puts.reverse.find? fun i => i.id = id

def putAll (rows : List (IntentRow F)) (puts : List (PgIntent F)) : Except StoreExn (List (IntentRow F)) :=
  puts.foldlM put rows

/-- An id keeps its creation time, its customer and its session. -/
def SameOwner (puts : List (PgIntent F)) : Prop :=
  ∀ i ∈ puts, ∀ j ∈ puts, i.id = j.id → i.createdAt = j.createdAt ∧
    i.context.customerId = j.context.customerId ∧ i.context.sessionId = j.context.sessionId

/-- No two ids share a token. -/
def OwnTokens (puts : List (PgIntent F)) : Prop :=
  ∀ i ∈ puts, ∀ j ∈ puts, i.id ≠ j.id → i.confirmationId ≠ none →
    i.confirmationId ≠ j.confirmationId

theorem lastPut_snoc (puts : List (PgIntent F)) (i : PgIntent F) (id : String) :
    lastPut (puts ++ [i]) id = if i.id = id then some i else lastPut puts id := by
  rw [lastPut, List.reverse_append, List.reverse_singleton, List.singleton_append, List.find?_cons]
  by_cases h : i.id = id
  · simp [h]
  · simp [h, lastPut]

theorem mem_of_lastPut {puts : List (PgIntent F)} {id : String} {i : PgIntent F}
    (h : lastPut puts id = some i) : i ∈ puts ∧ i.id = id :=
  ⟨List.mem_reverse.mp (List.mem_of_find?_eq_some h), by simpa using List.find?_some h⟩

/-! ## The rows -/

/-- One row for every id put, the one its last intent would write. -/
structure Holds (puts : List (PgIntent F)) (rows : List (IntentRow F)) : Prop where
  nodup : (rows.map IntentRow.id).Nodup
  find : ∀ id, Keyed.find IntentRow.id rows id = (lastPut puts id).map IntentRow.ofIntent

theorem Holds.start : Holds ([] : List (PgIntent F)) [] := ⟨List.nodup_nil, fun _ => rfl⟩

theorem Holds.mem {puts : List (PgIntent F)} {rows : List (IntentRow F)} (h : Holds puts rows) {r : IntentRow F} :
    r ∈ rows ↔ ∃ id i, lastPut puts id = some i ∧ r = IntentRow.ofIntent i := by
  constructor
  · intro hr
    have hfind := Keyed.find_of_mem IntentRow.id h.nodup hr
    rw [h.find, Option.map_eq_some_iff] at hfind
    obtain ⟨i, hi, hrow⟩ := hfind
    exact ⟨r.id, i, hi, hrow.symm⟩
  · rintro ⟨id, i, hi, rfl⟩
    apply Keyed.mem_of_find IntentRow.id (k := id)
    rw [h.find, hi]
    rfl

/-- With the same owner as before, the upsert writes the intent's own row. -/
theorem Holds.upserted {puts : List (PgIntent F)} {rows : List (IntentRow F)} (h : Holds puts rows)
    {i : PgIntent F} (howner : SameOwner (puts ++ [i])) : upserted rows i = IntentRow.ofIntent i := by
  unfold PgStore.upserted
  rw [h.find]
  cases hlast : lastPut puts i.id with
  | none => rfl
  | some j =>
    obtain ⟨hmem, hid⟩ := mem_of_lastPut hlast
    obtain ⟨hcreated, hcustomer, hsession⟩ :=
      howner j (List.mem_append_left _ hmem) i (List.mem_append_right _ (List.mem_singleton_self i)) hid
    rw [Option.map_some]
    simp only [IntentRow.ofIntent, hcreated, hcustomer, hsession]

theorem Holds.token_free {puts : List (PgIntent F)} {rows : List (IntentRow F)} (h : Holds puts rows)
    {i : PgIntent F} (htokens : OwnTokens (puts ++ [i])) : tokenTaken rows i = false := by
  apply Bool.eq_false_of_not_eq_true
  intro htaken
  obtain ⟨r, hr, htoken⟩ := List.any_eq_true.mp htaken
  obtain ⟨hne, hsome, hsame⟩ := of_decide_eq_true htoken
  obtain ⟨id, j, hlast, rfl⟩ := h.mem.mp hr
  obtain ⟨hmem, -⟩ := mem_of_lastPut hlast
  exact htokens i (List.mem_append_right _ (List.mem_singleton_self i)) j (List.mem_append_left _ hmem)
    (Ne.symm hne) hsome hsame.symm

/-- One put. -/
theorem Holds.put {puts : List (PgIntent F)} {rows : List (IntentRow F)} (h : Holds puts rows)
    {i : PgIntent F} (howner : SameOwner (puts ++ [i])) (htokens : OwnTokens (puts ++ [i])) :
    ∃ rows', put rows i = .ok rows' ∧ Holds (puts ++ [i]) rows' := by
  refine ⟨Keyed.upsert IntentRow.id rows (IntentRow.ofIntent i), ?_, Keyed.nodup_upsert IntentRow.id h.nodup _,
    fun id => ?_⟩
  · rw [PgStore.put, h.token_free htokens, h.upserted howner]
    rfl
  · rw [Keyed.find_upsert, lastPut_snoc, h.find]
    change (if i.id = id then _ else _) = _
    split_ifs <;> rfl

theorem SameOwner.of_append {puts more : List (PgIntent F)} (h : SameOwner (puts ++ more)) :
    SameOwner puts :=
  fun i hi j hj => h i (List.mem_append_left _ hi) j (List.mem_append_left _ hj)

theorem OwnTokens.of_append {puts more : List (PgIntent F)} (h : OwnTokens (puts ++ more)) :
    OwnTokens puts :=
  fun i hi j hj => h i (List.mem_append_left _ hi) j (List.mem_append_left _ hj)

/-- Any sequence of puts. -/
theorem Holds.putAll (puts : List (PgIntent F)) (howner : SameOwner puts) (htokens : OwnTokens puts) :
    ∃ rows, putAll [] puts = .ok rows ∧ Holds puts rows := by
  induction puts using List.reverseRecOn with
  | nil => exact ⟨[], rfl, .start⟩
  | append_singleton puts i ih =>
    obtain ⟨rows, hputs, h⟩ := ih howner.of_append htokens.of_append
    obtain ⟨rows', hput, h'⟩ := h.put howner htokens
    refine ⟨rows', ?_, h'⟩
    rw [BankingControlPlane.putAll, List.foldlM_append]
    change (BankingControlPlane.putAll [] puts >>= fun rows => _) = _
    rw [hputs]
    change (PgStore.put rows i >>= fun rows => pure rows) = _
    rw [hput]
    rfl

/-! ## The answers -/

theorem mapM_toIntent (is : List (PgIntent F)) : (is.map IntentRow.ofIntent).mapM toIntent = .ok is := by
  induction is with
  | nil => rfl
  | cons i is ih =>
    rw [List.map_cons, List.mapM_cons, toIntent_ofIntent, ih]
    rfl

/-- Rows written from intents are read back as those. -/
theorem Holds.read {puts : List (PgIntent F)} {rows : List (IntentRow F)} (h : Holds puts rows)
    {rs : List (IntentRow F)} (hrs : ∀ r ∈ rs, r ∈ rows) :
    ∃ is, rs = is.map IntentRow.ofIntent ∧ rs.mapM toIntent = .ok is := by
  have hmap : ∃ is : List (PgIntent F), rs = is.map IntentRow.ofIntent := by
    induction rs with
    | nil => exact ⟨[], rfl⟩
    | cons r rs ih =>
      obtain ⟨hr, hrest⟩ := List.forall_mem_cons.mp hrs
      obtain ⟨is, his⟩ := ih hrest
      obtain ⟨id, i, -, hi⟩ := h.mem.mp hr
      exact ⟨i :: is, by rw [List.map_cons, ← hi, ← his]⟩
  obtain ⟨is, rfl⟩ := hmap
  exact ⟨is, rfl, mapM_toIntent is⟩

/-- An intent is its row. -/
theorem ofIntent_injective : Function.Injective (IntentRow.ofIntent (F := F)) := by
  intro i j h
  have hsame := congrArg toIntent h
  rw [toIntent_ofIntent, toIntent_ofIntent] at hsame
  exact Except.ok.inj hsame

theorem Holds.get {puts : List (PgIntent F)} {rows : List (IntentRow F)} (h : Holds puts rows)
    (id : String) : PgStore.get rows id = .ok (lastPut puts id) := by
  unfold PgStore.get
  rw [h.find]
  cases lastPut puts id with
  | none => rfl
  | some i =>
    rw [Option.map_some]
    dsimp only
    rw [toIntent_ofIntent]
    rfl

theorem Holds.byConfirmation {puts : List (PgIntent F)} {rows : List (IntentRow F)} (h : Holds puts rows)
    (htokens : OwnTokens puts) (token : String) :
    ∃ found, PgStore.byConfirmation rows token = .ok found ∧
      ∀ i, found = some i ↔ ∃ id, lastPut puts id = some i ∧ i.confirmationId = some token := by
  unfold PgStore.byConfirmation
  cases hfind : rows.find? fun r => r.confirmationId = some token with
  | none =>
    refine ⟨none, rfl, fun i => ⟨fun hi => (Option.some_ne_none i hi.symm).elim, ?_⟩⟩
    rintro ⟨id, hlast, htoken⟩
    have hrow := List.find?_eq_none.mp hfind _ (h.mem.mpr ⟨id, i, hlast, rfl⟩)
    exact absurd (decide_eq_true htoken) hrow
  | some r =>
    obtain ⟨id, i, hlast, rfl⟩ := h.mem.mp (List.mem_of_find?_eq_some hfind)
    have hfound := List.find?_some hfind
    have htoken : i.confirmationId = some token := of_decide_eq_true hfound
    refine ⟨some i, ?_, fun j => ⟨?_, ?_⟩⟩
    · dsimp only
      rw [toIntent_ofIntent]
      rfl
    · rintro ⟨⟩
      exact ⟨id, hlast, htoken⟩
    · rintro ⟨id', hlast', htoken'⟩
      obtain ⟨hmem, hid⟩ := mem_of_lastPut hlast
      obtain ⟨hmem', hid'⟩ := mem_of_lastPut hlast'
      by_cases hsame : i.id = j.id
      · rw [← hid, hsame, hid', hlast'] at hlast
        exact hlast.symm
      · exact absurd (htoken.trans htoken'.symm)
          (htokens i hmem j hmem' hsame (by rw [htoken]; exact Option.some_ne_none token))

theorem Holds.unsettled {puts : List (PgIntent F)} {rows : List (IntentRow F)} (h : Holds puts rows)
    (states : List String) :
    ∃ found, PgStore.unsettled rows states = .ok found ∧ (found.map PgIntent.id).Nodup ∧
      ∀ i, i ∈ found ↔ ∃ id, lastPut puts id = some i ∧ i.state.str ∈ states := by
  unfold PgStore.unsettled
  by_cases hempty : states = []
  · rw [if_pos hempty]
    refine ⟨[], rfl, List.nodup_nil, fun i => ?_⟩
    simp [hempty]
  · rw [if_neg hempty]
    have hperm := List.perm_insertionSort (fun r s : IntentRow F => r.createdAt ≤ s.createdAt)
      (rows.filter fun r => r.state ∈ states)
    obtain ⟨is, hrows, hread⟩ := h.read fun r hr => List.mem_of_mem_filter (hperm.mem_iff.mp hr)
    rw [hread]
    rw [hrows] at hperm
    refine ⟨is, rfl, ?_, fun i => ?_⟩
    · have hids : ((is.map IntentRow.ofIntent).map IntentRow.id).Nodup :=
        (hperm.map IntentRow.id).nodup_iff.mpr (h.nodup.sublist (List.filter_sublist.map IntentRow.id))
      rwa [List.map_map] at hids
    · have hmem : i ∈ is ↔ IntentRow.ofIntent i ∈ is.map IntentRow.ofIntent := by
        rw [List.mem_map_of_injective ofIntent_injective]
      rw [hmem, hperm.mem_iff, List.mem_filter, h.mem, decide_eq_true_eq]
      constructor
      · rintro ⟨⟨id, j, hlast, hrow⟩, hstate⟩
        obtain rfl := ofIntent_injective hrow
        exact ⟨id, hlast, hstate⟩
      · rintro ⟨id, hlast, hstate⟩
        exact ⟨⟨id, i, hlast, rfl⟩, hstate⟩

/-- What the questions about a table answer, after a sequence of puts. -/
structure KeepsWhole (puts : List (PgIntent F)) (rows : List (IntentRow F)) : Prop where
  get : ∀ id, PgStore.get rows id = .ok (lastPut puts id)
  digest : ∀ id i, lastPut puts id = some i → ∃ j, PgStore.get rows id = .ok (some j) ∧
    ∀ env : Env, actionDigest env j.action = actionDigest env i.action
  byConfirmation : ∀ token, ∃ found, PgStore.byConfirmation rows token = .ok found ∧
    ∀ i, found = some i ↔ ∃ id, lastPut puts id = some i ∧ i.confirmationId = some token
  unsettled : ∀ states, ∃ found, PgStore.unsettled rows states = .ok found ∧
    (found.map PgIntent.id).Nodup ∧
    ∀ i, i ∈ found ↔ ∃ id, lastPut puts id = some i ∧ i.state.str ∈ states

/-- **After any sequence of puts, every question about the table is answered with the intents last put,
equal in every field, their digests with them.** -/
theorem store_keeps_intents (puts : List (PgIntent F)) (howner : SameOwner puts)
    (htokens : OwnTokens puts) : ∃ rows, putAll [] puts = .ok rows ∧ KeepsWhole puts rows := by
  obtain ⟨rows, hputs, h⟩ := Holds.putAll puts howner htokens
  refine ⟨rows, hputs, h.get, fun id i hlast => ?_, h.byConfirmation htokens, h.unsettled⟩
  exact ⟨i, by rw [h.get, hlast], fun _ => rfl⟩

/-- One intent on its way to confirmation, and another that waits for a step-up. -/
def samplePuts : List (PgIntent Unit) :=
  let first : PgIntent Unit :=
    { id := "pix_1", action := payTo "contact_joao" ⟨⟨false, 1500, -1⟩, by decide⟩, context := session
      createdAt := 0 }
  [first, { first with state := .validated },
    { first with id := "pix_2", createdAt := 7, state := .awaitingStepUp },
    { first with
      state := .awaitingConfirmation, confirmationId := some "conf_1", confirmationIssuedAt := some 5 }]

theorem store_keeps_intents_sample : ∃ rows, putAll [] samplePuts = .ok rows ∧ KeepsWhole samplePuts rows :=
  store_keeps_intents samplePuts (by simp [SameOwner, samplePuts]) (by simp [OwnTokens, samplePuts])

end BankingControlPlane
