import BankingControlPlane.Plane.Hops
import BankingControlPlane.Plane.Sample

/-!
# The ledger is the state machine's history

Ledger row and table row of a hop are two writes, the ledger's first; a process that dies between them
leaves a hop in the ledger that never happened.

* `tally_quiet` : an operation loses at most the last hop it noted;
* `Replays` : without the hops whose save never came, the ledger leads each intent from `CREATED` to the
  state it is stored in;
* `ledger_replays` : so it does wherever a run leads, and the ledger only grows.
-/

namespace BankingControlPlane
open Effects

variable {env : Env} {kind : StoreKind} {w : World}

/-- The hop a ledger row tells of. -/
def Event.move (id : String) (e : Event) : Option Move := Obs.move id (.appended e)

theorem filterMap_ledgerOf (id : String) (h : List Obs) :
    (ledgerOf h).filterMap (Event.move id) = h.filterMap (Obs.move id) := by
  rw [ledgerOf, List.filterMap_filterMap]
  refine List.filterMap_congr fun o _ => ?_
  cases o <;> rfl

/-- While no operation begins, no hop is dropped. -/
theorem tally_quiet (id : String) (h seg : List Obs) (hq : ∀ o ∈ seg, ¬ o.IsBegan) :
    (tally id (h ++ seg)).kept ++ (tally id (h ++ seg)).pending.toList =
      (tally id h).kept ++ (tally id h).pending.toList ++ seg.filterMap (Obs.move id) := by
  induction seg using List.reverseRecOn with
  | nil => simp
  | append_singleton seg o ih =>
    have ih := ih fun x hx => hq x (List.mem_append_left _ hx)
    have ho : ¬ o.IsBegan := hq o (by simp)
    rw [← List.append_assoc, tally_snoc, filterMap_move_snoc, ← List.append_assoc, ← ih]
    cases o with
    | began op => exact absurd trivial ho
    | stored i => by_cases hid : i.id = id <;> simp [Tally.note, Obs.move, hid]
    | appended e =>
      obtain ⟨k, e⟩ := e
      cases e with
      | transition source event target detail =>
        by_cases hid : k = id <;> simp [Tally.note, Obs.move, hid]
      | _ => simp [Tally.note, Obs.move]
    | _ => simp [Tally.note, Obs.move]

/-! ## What an operation adds -/

/-- What an operation has added to the history since `w`. -/
def noted (w w' : World) : List Obs := w'.history.drop (w.history.length + 1)

theorem Docketed.split {w₀ : World} {op : Op} {s : Docket} (h : Docketed env w₀ op s w) :
    w.history = w₀.history ++ .began op :: noted w₀ w ∧ (∀ o ∈ noted w₀ w, ¬ o.IsBegan) ∧
      ∀ id state event, .appended ⟨id, .transitionRefused state event⟩ ∈ noted w₀ w → s.refused = true := by
  obtain ⟨seg, hseg, hrest⟩ := h.history
  have hnoted : noted w₀ w = seg := by
    rw [noted, hseg]
    simp [List.drop_append]
  rw [hnoted]
  exact ⟨hseg, hrest⟩

/-- The hops counted so far, and the one open. -/
theorem Docketed.moves {w₀ : World} {op : Op} {s : Docket} (h : Docketed env w₀ op s w) (k : String) :
    movesOf k w.history ++ (tally k w.history).pending.toList =
      movesOf k w₀.history ++ (noted w₀ w).filterMap (Obs.move k) := by
  obtain ⟨hhist, hquiet, -⟩ := h.split
  have hbegan : tally k (w₀.history ++ [.began op]) = { tally k w₀.history with pending := none } :=
    tally_snoc k w₀.history (.began op)
  have happ : w₀.history ++ .began op :: noted w₀ w = w₀.history ++ [.began op] ++ noted w₀ w := by simp
  have hall := tally_quiet k (w₀.history ++ [.began op]) (noted w₀ w) hquiet
  rw [hbegan, ← happ, ← hhist] at hall
  simpa [movesOf] using hall

/-- What was refused changed no row. -/
theorem Docketed.refused_rows {w₀ : World} {op : Op} {s : Docket} (h : Docketed env w₀ op s w)
    (hr : s.refused = true) (k : String) : w.row k = w₀.row k := by
  simp only [World.row, (h.untouched (h.stopped hr)).1]

theorem Docketed.ledger_prefix {w₀ : World} {op : Op} {s : Docket} (h : Docketed env w₀ op s w)
    (h₀ : Inv env w₀) : w₀.ledger <+: w.ledger := by
  rw [h.inv.ledger, h₀.ledger, h.split.1]
  exact ⟨_, (List.filterMap_append).symm⟩

/-- The step was refused a hop, or raised for one. -/
def Refusal (env : Env) (kind : StoreKind) (s : Step) (w : World) : Prop :=
  (∃ id state event, .appended ⟨id, .transitionRefused state event⟩ ∈ noted w (s.next env kind w)) ∨
    ∃ op id state event, s = .op op ∧ (exec env kind op w).1 = .error (.illegalTransition id state event)

/-- The ledger tells how every intent came to the state it is stored in. -/
structure Replays (env : Env) (kind : StoreKind) (w : World) : Prop where
  ledger : w.ledger = ledgerOf w.history
  moves : ∀ k, List.Sublist (movesOf k w.history) (w.ledger.filterMap (Event.move k))
  chain : ∀ k r, w.row k = some r → Chain .created (movesOf k w.history) r.state
  whole : ∀ op k, movesOf k (exec env kind op w).2.history =
    movesOf k w.history ++ (noted w (exec env kind op w).2).filterMap (Obs.move k)
  cut : ∀ op n k, movesOf k (cut env kind op n w).history ++
      (tally k (cut env kind op n w).history).pending.toList =
    movesOf k w.history ++ (noted w (cut env kind op n w)).filterMap (Obs.move k)
  refused : ∀ s op, s.Does op → Refusal env kind s w → ∀ k, (s.next env kind w).row k = w.row k
  grows : ∀ steps, Admitted env kind (Untampered kind) steps w →
    w.ledger <+: (after env kind steps w).ledger

theorem ledger_grows (hgood : Good env kind w) (ht : Trailed w) {s : Step} (hs : Untampered kind w s) :
    w.ledger <+: (s.next env kind w).ledger := by
  cases s with
  | op o =>
    obtain ⟨s', -, hd⟩ := hgood.docketed_exec ht o
    exact hd.ledger_prefix hgood.inv
  | cut o n =>
    obtain ⟨s', hd⟩ := hgood.docketed_cut ht o n
    exact hd.ledger_prefix hgood.inv
  | splice id columns => exact hs.elim
  | bank b => exact List.prefix_rfl

/-- **The ledger is the state machine's history.** In every world a run reaches, the hops of each stored
intent, without those whose save a cut operation did not live to make, lead from `CREATED` to its stored
state along edges of the machine; only cut operations lose a hop, a refusal changes no row, and the ledger
only grows. -/
theorem ledger_replays (hw : Reach env kind (fun _ => True) (Untampered kind) w) : Replays env kind w := by
  obtain ⟨hgood, ht⟩ := hw.trailed fun _ _ hs => hs
  refine ⟨hgood.inv.ledger, fun k => ?_, ht.chain, fun op k => ?_, fun op n k => ?_,
    fun s op hop hr k => ?_, fun steps hsteps => ?_⟩
  · rw [hgood.inv.ledger, filterMap_ledgerOf]
    exact (List.sublist_append_left _ _).trans (tally_sublist k w.history)
  · obtain ⟨s, hclosed, hd⟩ := hgood.docketed_exec ht op
    have hpending : (tally k (exec env kind op w).2.history).pending = none := by
      have ha := hd.awaits
      unfold Awaits at ha
      rw [hclosed.pending] at ha
      exact ha k
    have hmoves := hd.moves k
    rwa [hpending, Option.toList_none, List.append_nil] at hmoves
  · obtain ⟨s, hd⟩ := hgood.docketed_cut ht op n
    exact hd.moves k
  · rcases hr with ⟨id, state, event, hmem⟩ | ⟨op', id, state, event, rfl, hraised⟩
    · obtain ⟨s', hd⟩ := hgood.docketed_does ht hop
      exact hd.refused_rows (hd.split.2.2 id state event hmem) k
    · obtain ⟨s', hclosed, hd⟩ := hgood.docketed_exec ht op'
      exact hd.refused_rows (hclosed.refused id state event hraised) k
  · induction steps generalizing w with
    | nil => exact List.prefix_rfl
    | cons s rest ih =>
      have hnext := Reach.step s hw hsteps.1
      obtain ⟨hgood', ht'⟩ := hnext.trailed fun _ _ hs => hs
      exact (ledger_grows hgood ht hsteps.1).trans (ih hnext hgood' ht' hsteps.2)

/-! A confirm dies between the two writes of its hop, and is repeated: the ledger has that hop twice, the
history of the intent once. -/

def twiceConfirmed : World := after (sampleEnv noon) .postgres [
  .op (proposal "Renata" money200 renata_named),
  .cut (.confirm session "conf_000000000001") 7,
  .op (.confirm session "conf_000000000001")] { bank := {} }

theorem twiceConfirmed_reached :
    Reach (sampleEnv noon) .postgres (fun _ => True) (Untampered .postgres) twiceConfirmed :=
  (Reach.start {} trivial).after ⟨trivial, rfl, trivial, trivial⟩

theorem ledger_replays_sample : Replays (sampleEnv noon) .postgres twiceConfirmed ∧
    movesOf "pix_000000000000" twiceConfirmed.history = [
      (.created, .validate, .validated), (.validated, .awaitConfirmation, .awaitingConfirmation),
      (.awaitingConfirmation, .confirm, .authorized), (.authorized, .submit, .submitted),
      (.submitted, .complete, .completed)] ∧
    (twiceConfirmed.ledger.filterMap (Event.move "pix_000000000000")).length = 6 :=
  ⟨ledger_replays twiceConfirmed_reached, by decide +kernel⟩

end BankingControlPlane
