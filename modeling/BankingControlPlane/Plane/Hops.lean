import BankingControlPlane.Plane.Trails

/-!
# The ledger, read back

* `Tally` : the hops of one intent, read off a history from its beginning. A hop counts once its intent is
  saved; the hop an operation noted last and did not live to save is dropped;
* `Chain` : hops that follow one another from one state to another;
* `OpenedBy` : who opened a trail;
* `Trailed` : what ledger and table have in common between operations, wherever the last one ended
  (`Good.trailed`).
-/

namespace BankingControlPlane
open Effects

/-- From, event, to. -/
abbrev Move := State × Hop × State

/-- Each hop starts where the one before ended, and is an edge of the machine. -/
def Chain : State → List Move → State → Prop
  | s, [], t => s = t
  | s, (source, event, target) :: rest, t =>
    source = s ∧ TRANSITIONS source event = some target ∧ Chain target rest t

instance decidableChain : (s : State) → (ms : List Move) → (t : State) → Decidable (Chain s ms t)
  | s, [], t => inferInstanceAs (Decidable (s = t))
  | s, (source, event, target) :: rest, t =>
    have := decidableChain target rest t
    inferInstanceAs (Decidable (source = s ∧ TRANSITIONS source event = some target ∧ Chain target rest t))

theorem Chain.snoc {s t target : State} {ms : List Move} {event : Hop} (h : Chain s ms t)
    (edge : TRANSITIONS t event = some target) : Chain s (ms ++ [(t, event, target)]) target := by
  induction ms generalizing s with
  | nil => exact ⟨h.symm, edge, rfl⟩
  | cons m rest ih => exact ⟨h.1, h.2.1, ih h.2.2⟩

structure Tally where
  kept : List Move := []
  pending : Option Move := none
deriving DecidableEq, Repr

/-- One more note: a hop of `id`, a save of `id`, or the next operation. -/
def Tally.note (id : String) (t : Tally) : Obs → Tally
  | .appended ⟨k, .transition source event target _⟩ =>
    if k = id then ⟨t.kept ++ t.pending.toList, some (source, event, target)⟩ else t
  | .stored i => if i.id = id then ⟨t.kept ++ t.pending.toList, none⟩ else t
  | .began _ => { t with pending := none }
  | _ => t

def tally (id : String) (h : List Obs) : Tally := h.foldl (Tally.note id) {}

/-- The hops of `id`, but for those whose save never came. -/
def movesOf (id : String) (h : List Obs) : List Move := (tally id h).kept

@[simp] theorem tally_snoc (id : String) (h : List Obs) (o : Obs) :
    tally id (h ++ [o]) = (tally id h).note id o := by
  simp only [tally, List.foldl_append, List.foldl_cons, List.foldl_nil]

/-- The hop a note writes down for `id`. -/
def Obs.move (id : String) : Obs → Option Move
  | .appended ⟨k, .transition source event target _⟩ =>
    if k = id then some (source, event, target) else none
  | _ => none

theorem filterMap_move_snoc (id : String) (h : List Obs) (o : Obs) :
    (h ++ [o]).filterMap (Obs.move id) = h.filterMap (Obs.move id) ++ (o.move id).toList := by
  rw [List.filterMap_append, List.filterMap_cons, List.filterMap_nil]
  cases o.move id <;> rfl

/-- The tally only drops hops, and keeps their order. -/
theorem tally_sublist (id : String) (h : List Obs) :
    List.Sublist ((tally id h).kept ++ (tally id h).pending.toList) (h.filterMap (Obs.move id)) := by
  induction h using List.reverseRecOn with
  | nil => exact List.Sublist.refl _
  | append_singleton h o ih =>
    have hkept : List.Sublist (tally id h).kept (h.filterMap (Obs.move id)) :=
      (List.sublist_append_left _ _).trans ih
    rw [tally_snoc, filterMap_move_snoc]
    cases o with
    | stored i =>
      by_cases hid : i.id = id
      · simpa [Tally.note, Obs.move, hid] using ih
      · simpa [Tally.note, Obs.move, hid] using ih
    | began op => simpa [Tally.note, Obs.move] using hkept
    | appended e =>
      obtain ⟨k, e⟩ := e
      cases e with
      | transition source event target detail =>
        by_cases hid : k = id
        · simp only [Tally.note, Obs.move, if_pos hid, Option.toList_some]
          exact ih.append (List.Sublist.refl _)
        · simpa [Tally.note, Obs.move, hid] using ih
      | _ => simpa [Tally.note, Obs.move] using ih
    | _ => simpa [Tally.note, Obs.move] using ih

/-! ## Who opened a trail -/

/-- A propose or a query of this principal wrote the trail's request. -/
def OpenedBy (h : List Obs) (principal : String × String) (id : String) : Prop :=
  ∃ pre post op seg channel what,
    h = pre ++ .appended ⟨id, .request principal.1 principal.2 channel what⟩ :: post ∧
      During pre op seg ∧ op.opener = some principal

theorem OpenedBy.more {h : List Obs} {principal : String × String} {id : String}
    (ho : OpenedBy h principal id) (more : List Obs) : OpenedBy (h ++ more) principal id := by
  obtain ⟨pre, post, op, seg, channel, what, rfl, hrest⟩ := ho
  exact ⟨pre, post ++ more, op, seg, channel, what, by simp, hrest⟩

theorem OpenedBy.mem {h : List Obs} {principal : String × String} {id : String}
    (ho : OpenedBy h principal id) :
    ∃ channel what, .appended ⟨id, .request principal.1 principal.2 channel what⟩ ∈ h := by
  obtain ⟨pre, post, op, seg, channel, what, rfl, -⟩ := ho
  exact ⟨channel, what, by simp⟩

/-! ## Between operations -/

/-- What ledger and table have in common. -/
structure Trailed (w : World) : Prop where
  chain : ∀ k r, w.row k = some r → Chain .created (movesOf k w.history) r.state
  absent : ∀ k, w.row k = none → tally k w.history = {}
  silent : ∀ k, principalOf (w.events k) = none → w.events k = []
  opened : ∀ k customer session channel what,
    .appended ⟨k, .request customer session channel what⟩ ∈ w.history →
      principalOf (w.events k) = some (customer, session) ∧
        OpenedBy w.history (customer, session) k

variable {env : Env} {kind : StoreKind}

/-- The hop an operation has noted and not saved, if any, is the only one. -/
def Awaits (s : Docket) (h : List Obs) : Prop :=
  match s.pending with
  | none => ∀ k, (tally k h).pending = none
  | some (id, target) => (∀ k, k ≠ id → (tally k h).pending = none) ∧
      ∃ source event, (tally id h).pending = some (source, event, target) ∧
        s.state id = some source ∧ TRANSITIONS source event = some target

/-- The operation `op`, under way since `w₀`, has left `w`, and `s` is what it may rely on. -/
structure Docketed (env : Env) (w₀ : World) (op : Op) (s : Docket) (w : World) : Prop where
  inv : Inv env w
  trailed : Trailed w
  state : ∀ k, s.state k = (w.row k).map Intent.state
  opener : ∀ k, s.opener k = principalOf (w.events k)
  awaits : Awaits s w.history
  untouched : s.touched = false → w.rows = w₀.rows ∧ w.objects = w₀.objects
  stopped : s.refused = true → s.touched = false
  history : ∃ seg, w.history = w₀.history ++ .began op :: seg ∧ (∀ o ∈ seg, ¬ o.IsBegan) ∧
    ∀ id state event, .appended ⟨id, .transitionRefused state event⟩ ∈ seg → s.refused = true

/-! ## What each call leaves -/

section Calls
variable {w₀ w : World} {op : Op} {s : Docket}

/-- A note that neither the table nor the ledger knows of. -/
def Obs.Aside : Obs → Prop
  | .read _ _ | .asked _ => True
  | _ => False

theorem tally_aside {o : Obs} (ho : o.Aside) (id : String) (h : List Obs) :
    tally id (h ++ [o]) = tally id h := by
  rw [tally_snoc]
  cases o <;> first | rfl | exact ho.elim

/-- The table, the dict and the ledger are as they were, and at most an aside has been noted. -/
structure Beheld (w w' : World) : Prop where
  rows : w'.rows = w.rows
  objects : w'.objects = w.objects
  ledger : w'.ledger = w.ledger
  history : w'.history = w.history ∨ ∃ o : Obs, o.Aside ∧ w'.history = w.history ++ [o]

theorem Beheld.tally {w' : World} (h : Beheld w w') (id : String) :
    tally id w'.history = tally id w.history := by
  rcases h.history with heq | ⟨o, ho, heq⟩
  · rw [heq]
  · rw [heq, tally_aside ho]

theorem Beheld.appended {w' : World} (h : Beheld w w') {e : Event} (he : .appended e ∈ w'.history) :
    .appended e ∈ w.history := by
  rcases h.history with heq | ⟨o, ho, heq⟩
  · exact heq ▸ he
  · rw [heq, List.mem_append, List.mem_singleton] at he
    exact he.resolve_right fun h => by rw [← h] at ho; exact ho

theorem Beheld.opened {w' : World} (h : Beheld w w') {principal : String × String} {id : String}
    (ho : OpenedBy w.history principal id) : OpenedBy w'.history principal id := by
  rcases h.history with heq | ⟨o, -, heq⟩
  · exact heq ▸ ho
  · exact heq ▸ ho.more [o]

theorem Beheld.row {w' : World} (h : Beheld w w') (k : String) : w'.row k = w.row k := by
  simp only [World.row, h.rows]

theorem Beheld.events {w' : World} (h : Beheld w w') (k : String) : w'.events k = w.events k := by
  simp only [World.events, h.ledger]

theorem Trailed.beheld (ht : Trailed w) {w' : World} (h : Beheld w w') : Trailed w' := by
  refine ⟨fun k r hr => ?_, fun k hk => ?_, fun k hk => ?_, fun k customer session channel what hm => ?_⟩
  · rw [movesOf, h.tally]
    exact ht.chain k r (h.row k ▸ hr)
  · rw [h.tally]
    exact ht.absent k (h.row k ▸ hk)
  · rw [h.events] at hk ⊢
    exact ht.silent k hk
  · obtain ⟨hp, ho⟩ := ht.opened k customer session channel what (h.appended hm)
    exact ⟨by rw [h.events]; exact hp, h.opened ho⟩

theorem Awaits.beheld (hs : Awaits s w.history) {w' : World} (h : Beheld w w') :
    Awaits s w'.history := by
  unfold Awaits at hs ⊢
  simpa only [h.tally] using hs

/-- An operation's history goes on. -/
theorem Docketed.history_snoc (h : Docketed env w₀ op s w) {s' : Docket} {o : Obs} (ho : ¬ o.IsBegan)
    (hs : s.refused = true → s'.refused = true)
    (hr : ∀ id state event, o = .appended ⟨id, .transitionRefused state event⟩ → s'.refused = true) :
    ∃ seg, w.history ++ [o] = w₀.history ++ .began op :: seg ∧ (∀ o ∈ seg, ¬ o.IsBegan) ∧
      ∀ id state event, .appended ⟨id, .transitionRefused state event⟩ ∈ seg → s'.refused = true := by
  obtain ⟨seg, hseg, hquiet, hrefused⟩ := h.history
  refine ⟨seg ++ [o], by rw [hseg]; simp, fun x hx => ?_, fun id state event hx => ?_⟩
  · rcases List.mem_append.mp hx with hx | hx
    · exact hquiet x hx
    · rw [List.mem_singleton.mp hx]
      exact ho
  · rcases List.mem_append.mp hx with hx | hx
    · exact hs (hrefused id state event hx)
    · exact hr id state event (List.mem_singleton.mp hx).symm

theorem Docketed.beheld (h : Docketed env w₀ op s w) {w' : World} (hw : Beheld w w')
    (hinv : Inv env w') : Docketed env w₀ op s w' := by
  refine ⟨hinv, h.trailed.beheld hw, fun k => by rw [hw.row]; exact h.state k,
    fun k => by rw [hw.events]; exact h.opener k, h.awaits.beheld hw, fun ht => ?_, h.stopped, ?_⟩
  · rw [hw.rows, hw.objects]
    exact h.untouched ht
  · rcases hw.history with heq | ⟨o, ho, heq⟩
    · rw [heq]
      exact h.history
    · rw [heq]
      refine h.history_snoc (fun hb => ?_) id fun _ _ _ heq => ?_
      · cases o <;> first | exact hb.elim | exact ho.elim
      · rw [heq] at ho
        exact ho.elim

/-- An intent a read finds before anything is written is stored so, and its trail is its owner's. -/
theorem Docketed.finds (h : Docketed env w₀ op s w) (hgood : Good env kind w₀)
    (ht : s.touched = false) {i : Intent} (hi : w.seen kind i.id = some i) : s.Finds i := by
  obtain ⟨hrows, hobjects⟩ := h.untouched ht
  have hseen : w₀.seen kind i.id = some i := by
    rw [← hi]
    cases kind
    · simp only [World.seen, World.intents, hobjects]
    · simp only [World.seen, World.intents, hrows]
  obtain ⟨r, hr, halike⟩ := hgood.row_of_seen hseen
  have hrow : w.row i.id = some r := by rw [World.row, hrows]; exact hr
  obtain ⟨-, hstate, -, hcontext, -⟩ := halike.same
  refine ⟨?_, ?_⟩
  · rw [h.state, hrow, hstate]
    rfl
  · rw [h.opener, h.inv.principals _ _ hrow, hcontext]

theorem principalOf_append_none {es : List Event} {e : Event} (he : e.entry.principal = none) :
    principalOf (es ++ [e]) = principalOf es := by
  simp only [principalOf, List.findSome?_append, List.findSome?_cons, List.findSome?_nil, he]
  cases es.findSome? fun e => e.entry.principal <;> rfl

theorem World.fresh_read (hi : Inv env w) :
    w.row (newIdAt env "read" w.drawn) = none ∧ w.events (newIdAt env "read" w.drawn) = [] := by
  constructor
  · cases hr : w.row (newIdAt env "read" w.drawn) with
    | none => rfl
    | some r =>
      obtain ⟨n, -, hid⟩ := hi.ids _ _ hr
      exact absurd hid.symm (newIdAt_pix_ne_read env _ _)
  · rw [World.events, List.filter_eq_nil_iff]
    intro e he heq
    obtain ⟨n, hn, hid⟩ := hi.known e he
    rw [of_decide_eq_true heq] at hid
    rcases hid with hid | hid
    · exact newIdAt_pix_ne_read env _ _ hid.symm
    · exact absurd (newIdAt_injective env _ hid) (Nat.ne_of_gt hn)

/-- An intent is saved, its hop noted just before, or no hop. -/
theorem Docketed.put (h : Docketed env w₀ op s w) {i : Intent} (hs : Saves env w (w.row i.id) i)
    (hr : s.refused = false) (hsave : s.Saves i) : Docketed env w₀ op (s.saved i) (w.put i) := by
  have hsaved := hs.saved
  have hhist : (w.put i).history = w.history ++ [.stored i] := by rw [World.put, hsaved]
  have hrow : ∀ k, (w.put i).row k = if i.id = k then some i else w.row k := fun k => by
    rw [World.row_put, hsaved]
  have htally : ∀ k, i.id ≠ k → tally k (w.put i).history = tally k w.history := fun k hk => by
    rw [hhist, tally_snoc, Tally.note, if_neg hk]
  have hthis : tally i.id (w.put i).history =
      ⟨(tally i.id w.history).kept ++ (tally i.id w.history).pending.toList, none⟩ := by
    rw [hhist, tally_snoc, Tally.note, if_pos rfl]
  have hothers : ∀ k, k ≠ i.id → (tally k w.history).pending = none := by
    intro k hk
    have ha := h.awaits
    unfold Awaits at ha
    rcases hsave with hp | ⟨hp, -⟩
    · rw [hp] at ha
      exact ha.1 k hk
    · rw [hp] at ha
      exact ha k
  have hchain : Chain .created (movesOf i.id (w.put i).history) i.state := by
    rw [movesOf, hthis]
    have ha := h.awaits
    unfold Awaits at ha
    rcases hsave with hp | ⟨hp, hst | ⟨hnone, hcreated⟩⟩
    · -- the hop noted just before
      rw [hp] at ha
      obtain ⟨-, source, event, hpending, hstate, edge⟩ := ha
      rw [h.state] at hstate
      obtain ⟨r, hr, rfl⟩ := Option.map_eq_some_iff.mp hstate
      simp only [hpending, Option.toList_some]
      exact (h.trailed.chain _ r hr).snoc edge
    · -- no hop
      rw [hp] at ha
      rw [h.state] at hst
      obtain ⟨r, hr, hstate⟩ := Option.map_eq_some_iff.mp hst
      simp only [ha i.id, Option.toList_none, List.append_nil]
      exact hstate ▸ h.trailed.chain _ r hr
    · -- a new intent
      rw [h.state] at hnone
      rw [h.trailed.absent _ (Option.map_eq_none_iff.mp hnone), hcreated]
      exact rfl
  have hopened : ∀ principal k, OpenedBy w.history principal k → OpenedBy (w.put i).history principal k :=
    fun principal k ho => by rw [hhist]; exact ho.more _
  refine ⟨h.inv.put hs, ⟨fun k r hr => ?_, fun k hk => ?_, h.trailed.silent,
    fun k customer session channel what hm => ?_⟩, fun k => ?_, h.opener, fun k => ?_,
    fun ht => (by cases ht), fun hx => ?_, ?_⟩
  · rw [hrow] at hr
    split_ifs at hr with hk
    · subst hk
      rw [← Option.some.inj hr]
      exact hchain
    · rw [movesOf, htally k hk]
      exact h.trailed.chain k r hr
  · rw [hrow] at hk
    split_ifs at hk with hid
    rw [htally k hid]
    exact h.trailed.absent k hk
  · rw [hhist] at hm
    obtain ⟨hp, ho⟩ := h.trailed.opened k customer session channel what (by simpa using hm)
    exact ⟨hp, hopened _ _ ho⟩
  · rw [hrow]
    simp only [Docket.saved, Function.update_apply]
    by_cases hk : i.id = k
    · rw [if_pos hk.symm, if_pos hk]
      rfl
    · rw [if_neg (Ne.symm hk), if_neg hk]
      exact h.state k
  · by_cases hk : i.id = k
    · rw [← hk, hthis]
    · rw [htally k hk]
      exact hothers k (Ne.symm hk)
  · rw [show s.refused = true from hx] at hr
    cases hr
  · rw [hhist]
    exact h.history_snoc (fun hb => hb) id fun _ _ _ heq => by cases heq

/-- A row of the ledger is written. -/
theorem Docketed.append (h : Docketed env w₀ op s w) {id : String} {e : Entry}
    (hid : Known env w.drawn id) (he : s.Records op.opener id e) :
    Docketed env w₀ op (s.recorded id e) (w.append id e) := by
  have hhist : (w.append id e).history = w.history ++ [.appended ⟨id, e⟩] := rfl
  have hevents := w.events_append id e
  -- a hop is noted of a stored intent, when no other is open
  have hmoves : ∀ k, movesOf k (w.append id e).history = movesOf k w.history := by
    intro k
    rw [movesOf, movesOf, hhist, tally_snoc]
    cases e with
    | transition source event target detail =>
      have ha := h.awaits
      unfold Awaits at ha
      rw [he.1] at ha
      simp only [Tally.note]
      split_ifs
      · simp [ha k]
      · rfl
    | _ => rfl
  have habsent : ∀ k, w.row k = none → tally k (w.append id e).history = tally k w.history := by
    intro k hk
    rw [hhist, tally_snoc]
    cases e with
    | transition source event target detail =>
      have hst := he.2.2.1
      rw [h.state] at hst
      have hne : id ≠ k := by
        rintro rfl
        rw [hk] at hst
        cases hst
      simp only [Tally.note, if_neg hne]
    | _ => rfl
  have hsilent : ∀ k, principalOf ((w.append id e).events k) = none → (w.append id e).events k = [] := by
    intro k hk
    rw [hevents] at hk ⊢
    by_cases heq : id = k
    · subst heq
      exfalso
      cases e with
      | request customer session channel what =>
        have hnil : w.events id = [] := h.trailed.silent id (by rw [← h.opener]; exact he.2)
        rw [hnil, if_pos rfl] at hk
        cases hk
      | _ =>
        obtain ⟨p, hp⟩ : ∃ p, s.opener id = some p := by
          first
            | exact Option.isSome_iff_exists.mp he.2.1
            | exact Option.isSome_iff_exists.mp he
        rw [h.opener] at hp
        rw [principalOf_append hp] at hk
        cases hk
    · rw [if_neg heq, List.append_nil] at hk ⊢
      exact h.trailed.silent k hk
  have hopener : ∀ k, (s.recorded id e).opener k = principalOf ((w.append id e).events k) := by
    intro k
    rw [hevents]
    by_cases heq : id = k
    · subst heq
      rw [if_pos rfl]
      cases e with
      | request customer session channel what =>
        have hnil : w.events id = [] := h.trailed.silent id (by rw [← h.opener]; exact he.2)
        rw [hnil]
        exact Function.update_self _ _ _
      | _ =>
        rw [principalOf_append_none rfl]
        exact h.opener id
    · rw [if_neg heq, List.append_nil, ← h.opener]
      cases e with
      | request customer session channel what => exact Function.update_of_ne (Ne.symm heq) _ _
      | _ => rfl
  have hopened : ∀ k customer session channel what,
      .appended ⟨k, .request customer session channel what⟩ ∈ (w.append id e).history →
      principalOf ((w.append id e).events k) = some (customer, session) ∧
        OpenedBy (w.append id e).history (customer, session) k := by
    intro k customer session channel what hm
    rw [hhist, List.mem_append, List.mem_singleton] at hm
    rcases hm with hm | hm
    · obtain ⟨hp, ho⟩ := h.trailed.opened k customer session channel what hm
      exact ⟨by rw [hevents]; exact principalOf_append hp _, ho.more _⟩
    · injection hm with hm
      injection hm with hk hentry
      subst hk hentry
      refine ⟨by rw [← hopener]; exact Function.update_self _ _ _, ?_⟩
      obtain ⟨seg, hseg, hquiet, -⟩ := h.history
      have hwho : op.opener = some (customer, session) := he.1
      have hbegan : Obs.IsBegan (.began op) := trivial
      exact ⟨w.history, [], op, seg, channel, what, hhist, ⟨hbegan, hquiet, w₀.history, hseg⟩, hwho⟩
  refine ⟨h.inv.append hid e, ⟨fun k r hr => ?_, fun k hk => ?_, hsilent, hopened⟩, fun k => ?_, hopener,
    ?_, fun ht => ?_, fun hr => ?_, ?_⟩
  · rw [hmoves]
    exact h.trailed.chain k r hr
  · rw [habsent k hk]
    exact h.trailed.absent k hk
  · have hstate : (s.recorded id e).state = s.state := by cases e <;> rfl
    rw [hstate]
    exact h.state k
  · have ha := h.awaits
    cases e with
    | transition source event target detail =>
      unfold Awaits at ha ⊢
      rw [he.1] at ha
      simp only [Docket.recorded]
      rw [hhist]
      refine ⟨fun k hk => ?_, source, event, ?_, he.2.2.1, he.2.2.2⟩
      · rw [tally_snoc, Tally.note, if_neg (Ne.symm hk)]
        exact ha k
      · rw [tally_snoc, Tally.note, if_pos rfl]
    | _ =>
      unfold Awaits at ha ⊢
      simpa only [Docket.recorded, hhist, tally_snoc, Tally.note] using ha
  · have htouched : (s.recorded id e).touched = s.touched := by cases e <;> rfl
    exact h.untouched (htouched ▸ ht)
  · cases e with
    | transitionRefused source event => exact he.2.2
    | _ => exact h.stopped hr
  · rw [hhist]
    refine h.history_snoc (fun hb => hb) (fun hr => ?_) fun id' state event heq => ?_
    · cases e <;> first | exact hr | rfl
    · injection heq with heq
      injection heq with _ hentry
      subst hentry
      rfl

theorem mem_filter_of_mem {states : List State} {i : Intent} (hi : i ∈ w.unsettled kind states) :
    i ∈ w.intents kind ∧ i.state ∈ states := by
  have hmem : i ∈ (w.intents kind).filter fun i => i.state ∈ states := by
    cases kind with
    | memory => exact hi
    | postgres => exact (List.mem_insertionSort _).mp hi
  simpa using hmem

/-- **A permitted call that keeps to the order of writes.** -/
theorem Docketed.serve (h : Docketed env w₀ op s w) (hgood : Good env kind w₀) {β : Type}
    {c : PlaneCall β} {K : β → Docket → Prop} (hc : Permitted env c w) (hK : writes op.opener c K s) :
    ∃ s', K (BankingControlPlane.serve env kind c w).1 s' ∧
      Docketed env w₀ op s' (BankingControlPlane.serve env kind c w).2 := by
  have hinv := h.inv.serve kind hc
  have hsame : ∀ {w' : World}, Inv env w' → w'.rows = w.rows → w'.objects = w.objects →
      w'.ledger = w.ledger → w'.history = w.history → Docketed env w₀ op s w' :=
    fun hinv hrows hobjects hledger hhist => h.beheld ⟨hrows, hobjects, hledger, Or.inl hhist⟩ hinv
  cases c with
  | get id =>
    refine ⟨s, hK.2 _ fun i hi => ?_, h⟩
    have hseen : w.seen kind id = some i := hi
    have hid : i.id = id := World.seen_id hseen
    exact ⟨hid, h.finds hgood hK.1 (hid.symm ▸ hi)⟩
  | byConfirmation token =>
    refine ⟨s, hK.2 _ fun i hi => ?_, h⟩
    exact h.finds hgood hK.1 (h.inv.find_of_token hi)
  | unsettled states =>
    refine ⟨s, hK.2 _ (fun i hi => ?_) (nodup_unsettled (h.inv.nodup_intents kind) states), h⟩
    obtain ⟨hmem, hstate⟩ := mem_filter_of_mem hi
    exact ⟨h.finds hgood hK.1 (Keyed.find_of_mem Intent.id (h.inv.nodup_intents kind) hmem), hstate⟩
  | newId stem =>
    refine ⟨s, hK _ fun hstem => ?_, hsame hinv rfl rfl rfl rfl⟩
    have hfresh : w.row (newIdAt env stem w.drawn) = none ∧ w.events (newIdAt env stem w.drawn) = [] := by
      rcases hstem with rfl | rfl
      · exact ⟨h.inv.fresh_row, h.inv.fresh_events⟩
      · exact World.fresh_read h.inv
    constructor
    · rw [h.state]
      simp only [BankingControlPlane.serve, hfresh.1, Option.map_none]
    · rw [h.opener]
      simp only [BankingControlPlane.serve, hfresh.2]
      rfl
  | append id e => exact ⟨_, hK.2, h.append hc.1 hK.1⟩
  | put i => exact ⟨_, hK.2.2, h.put hc hK.1 hK.2.1⟩
  | assign i =>
    refine ⟨{ s with touched := true }, hK.2, hinv, ?_, h.state, h.opener, h.awaits,
      fun ht => (by cases ht), fun hr => ?_, h.history⟩
    · exact ⟨h.trailed.chain, h.trailed.absent, h.trailed.silent, h.trailed.opened⟩
    · have hallowed : s.refused = false := hK.1
      rw [show s.refused = true from hr] at hallowed
      cases hallowed
  | clock use =>
    have haside : Obs.Aside (.read use (env.clock w.ticks)) := trivial
    exact ⟨s, hK _, h.beheld ⟨rfl, rfl, rfl, Or.inr ⟨_, haside, rfl⟩⟩ hinv⟩
  | createPix o =>
    have haside : Obs.Aside (.asked o) := trivial
    exact ⟨s, hK _, h.beheld ⟨rfl, rfl, rfl, Or.inr ⟨_, haside, rfl⟩⟩ hinv⟩
  | _ => exact ⟨s, hK _, hsame hinv rfl rfl rfl rfl⟩

end Calls

/-! ## Whole operations, and operations cut short -/

section Operations
variable {w : World}

/-- What an operation may rely on as it begins. -/
def World.docket (w : World) : Docket where
  state k := (w.row k).map Intent.state
  opener k := principalOf (w.events k)

theorem Trailed.began (ht : Trailed w) (op : Op) :
    Trailed (w.note (.began op)) ∧ ∀ k, (tally k (w.note (.began op)).history).pending = none := by
  have htally : ∀ k, tally k (w.note (.began op)).history = { tally k w.history with pending := none } :=
    fun k => tally_snoc k w.history (.began op)
  refine ⟨⟨fun k r hr => ?_, fun k hk => ?_, ht.silent, fun k customer session channel what hm => ?_⟩,
    fun k => by rw [htally]⟩
  · rw [movesOf, htally]
    exact ht.chain k r hr
  · rw [htally, ht.absent k hk]
  · have hm' : .appended ⟨k, .request customer session channel what⟩ ∈ w.history := by
      simpa [World.note] using hm
    obtain ⟨hp, ho⟩ := ht.opened k customer session channel what hm'
    exact ⟨hp, ho.more [.began op]⟩

theorem Good.docketed (h : Good env kind w) (ht : Trailed w) (op : Op) :
    Docketed env w op w.docket (w.note (.began op)) := by
  refine ⟨h.inv.note op, (ht.began op).1, fun _ => rfl, fun _ => rfl, (ht.began op).2,
    fun _ => ⟨rfl, rfl⟩, fun _ => rfl, [], rfl, by simp, by simp⟩

/-- What a whole operation leaves. -/
theorem Good.docketed_exec (h : Good env kind w) (ht : Trailed w) (op : Op) :
    ∃ s, Closed (BankingControlPlane.exec env kind op w).1 s ∧
      Docketed env w op s (BankingControlPlane.exec env kind op w).2 := by
  have horderly : Orderly op.opener (op.prog env) w.docket := writes_op op ⟨rfl, rfl, rfl⟩
  exact Prog.run_follows (Φ := writes op.opener) (Docketed env w op)
    (fun c _ s _ hs hc hK => hs.serve h hc hK) (h.permitted op) horderly (h.docketed ht op)

/-- What an operation cut short leaves. -/
theorem Good.docketed_cut (h : Good env kind w) (ht : Trailed w) (op : Op) (n : Nat) :
    ∃ s, Docketed env w op s (BankingControlPlane.cut env kind op n w) := by
  have horderly : Orderly op.opener (op.prog env) w.docket := writes_op op ⟨rfl, rfl, rfl⟩
  exact Prog.cut_follows (Φ := writes op.opener) (Docketed env w op)
    (fun c _ s _ hs hc hK => hs.serve h hc hK) (h.permitted op) horderly (h.docketed ht op) n

theorem Good.docketed_does (h : Good env kind w) (ht : Trailed w) {op : Op} {st : Step}
    (hs : st.Does op) : ∃ s, Docketed env w op s (st.next env kind w) := by
  rcases hs with rfl | ⟨n, rfl⟩
  · obtain ⟨s, -, hd⟩ := h.docketed_exec ht op
    exact ⟨s, hd⟩
  · exact h.docketed_cut ht op n

theorem Trailed.start (bank : MockBank) : Trailed { bank := bank } := by
  refine ⟨fun k r hr => ?_, fun k _ => rfl, fun k _ => rfl, fun k c se ch what hm => ?_⟩
  · simp [World.row] at hr
  · simp at hm

/-- **Wherever operations end or are cut, ledger and table have this in common.** -/
theorem Reach.trailed {opening : MockBank → Prop} {admissible : World → Step → Prop}
    (huntampered : ∀ w s, admissible w s → Untampered kind w s)
    (hw : Reach env kind opening admissible w) : Good env kind w ∧ Trailed w := by
  refine hw.invariant (I := fun w => Good env kind w ∧ Trailed w)
    (fun bank _ => ⟨Good.start bank, Trailed.start bank⟩) fun w s h hs => ?_
  have huntampered := huntampered _ _ hs
  refine ⟨h.1.step huntampered.sound, ?_⟩
  cases s with
  | op o =>
    obtain ⟨s, -, hd⟩ := h.1.docketed_exec h.2 o
    exact hd.trailed
  | cut o n =>
    obtain ⟨s, hd⟩ := h.1.docketed_cut h.2 o n
    exact hd.trailed
  | splice id columns => exact huntampered.elim
  | bank b => exact ⟨h.2.chain, h.2.absent, h.2.silent, h.2.opened⟩

end Operations

end BankingControlPlane
