import BankingControlPlane.Runtime.Recording
import Mathlib.Data.Finset.Card

/-!
# What the index keeps of overlapping turns

* `LosesNothing` : each turn written is counted; the title is a turn's, and it and the owner stay once set;
* `Fresh` : a record is put over the one that its call read;
* `step_cases` : what a step of a call can be;
* `recording_loses_nothing_iff` : the index loses nothing along a schedule exactly when every put is fresh.
-/

namespace BankingControlPlane.Http
open Effects Keyed

section Recording
variable (thread : ThreadId) (calls : List TurnCall) (rows : List Row)

/-- The calls after a schedule. -/
def after (ts : List Nat) : Pool IndexRun IndexCall Empty Recorded :=
  (recording thread calls rows).exec (indexStore thread) ts

/-- How many turns have been written. -/
def written (p : Pool IndexRun IndexCall Empty Recorded) : Nat :=
  ((Finset.range calls.length).filter fun t => wrote p t = true).card

/-- What one record keeps of another. -/
structure RowKept (earlier later : Option Row) : Prop where
  title : titleOf earlier ≠ "" → titleOf later = titleOf earlier
  owner : ∀ c, rowOwner earlier = some c → rowOwner later = some c

structure LosesNothing (ts : List Nat) : Prop where
  turns : turnsOf ((after thread calls rows ts).shared.row thread) =
    turnsOf (find Row.thread rows thread) + written calls (after thread calls rows ts)
  titled : titleOf ((after thread calls rows ts).shared.row thread) = titleOf (find Row.thread rows thread) ∨
    ∃ t call, calls[t]? = some call ∧ wrote (after thread calls rows ts) t = true ∧
      titleOf ((after thread calls rows ts).shared.row thread) = titleFrom call.message
  kept : ∀ xs ys, xs <+: ys → ys <+: ts →
    RowKept ((after thread calls rows xs).shared.row thread) ((after thread calls rows ys).shared.row thread)

/-- A record is put over the one that its call read. -/
def Fresh (t : Nat) : {β : Type} → IndexCall β → IndexRun → Prop
  | _, .aget, _ => True
  | _, .aput _, s => s.seen t = some (s.row thread)

/-! ## One step -/

/-- Where a call is: about to read, about to put what it made of what it read, or returned. -/
inductive CallPhase (p : Pool IndexRun IndexCall Empty Recorded) (t : Nat) : Option TurnCall → Prop where
  | starts {call : TurnCall} : p.threads t = call.prog thread → CallPhase p t (some call)
  | holds {call : TurnCall} {existing : Option Row} {row : Row} : p.shared.seen t = some existing →
      call.record thread existing = some row → p.threads t = .call (.aput row) (fun _ => .ret .written) →
      CallPhase p t (some call)
  | ended {call? : Option TurnCall} {r : Recorded} : p.threads t = .ret r → CallPhase p t call?

def CallPhases (p : Pool IndexRun IndexCall Empty Recorded) : Prop := ∀ t, CallPhase thread p t calls[t]?

/-- The call after its `aget`. -/
def hasRead (p : Pool IndexRun IndexCall Empty Recorded) (t : Nat) (call : TurnCall) :
    Pool IndexRun IndexCall Empty Recorded where
  shared := { p.shared with seen := Function.update p.shared.seen t (some (p.shared.row thread)) }
  threads := Function.update p.threads t (call.rest thread (p.shared.row thread))

/-- The call after its `aput`. -/
def hasPut (p : Pool IndexRun IndexCall Empty Recorded) (t : Nat) (row : Row) :
    Pool IndexRun IndexCall Empty Recorded where
  shared := { p.shared with rows := upsert Row.thread p.shared.rows row }
  threads := Function.update p.threads t (.ret .written)

/-- What a step can be: nothing, a read, or a put of what was made of what was read. Only a put can be stale. -/
inductive StepCase (p : Pool IndexRun IndexCall Empty Recorded) (t : Nat) :
    Pool IndexRun IndexCall Empty Recorded → Prop where
  | idle : p.Next (Fresh thread) t → StepCase p t p
  | read {call : TurnCall} : p.Next (Fresh thread) t → calls[t]? = some call → wrote p t = false →
      StepCase p t (hasRead thread p t call)
  | put {call : TurnCall} {existing : Option Row} {row : Row} : calls[t]? = some call → wrote p t = false →
      p.shared.seen t = some existing → call.record thread existing = some row →
      p.threads t = .call (.aput row) (fun _ => .ret .written) → StepCase p t (hasPut p t row)

variable {thread calls} {p : Pool IndexRun IndexCall Empty Recorded} {t : Nat}

theorem wrote_call {β : Type} {c : IndexCall β} {k : β → Prog IndexCall Empty Recorded}
    (h : p.threads t = .call c k) : wrote p t = false := by
  unfold wrote Pool.result
  rw [h]

theorem next_ret {r : Recorded} (h : p.threads t = .ret r) : p.Next (Fresh thread) t := by
  unfold Pool.Next
  rw [h]
  trivial

theorem next_aget {k : Option Row → Prog IndexCall Empty Recorded} (h : p.threads t = .call .aget k) :
    p.Next (Fresh thread) t := by
  unfold Pool.Next
  rw [h]
  trivial

/-- The put that a call is about to make is fresh exactly when it read the record that is there. -/
theorem next_put {row : Row} (h : p.threads t = .call (.aput row) (fun _ => .ret .written)) :
    p.Next (Fresh thread) t ↔ p.shared.seen t = some (p.shared.row thread) := by
  unfold Pool.Next
  rw [h]
  rfl

theorem step_cases (hp : CallPhases thread calls p) (t : Nat) : StepCase thread calls p t (p.step (indexStore thread) t) := by
  cases hphase : calls[t]? with
  | none =>
    have h := hp t
    rw [hphase] at h
    cases h with
    | ended hret =>
      rw [Pool.step_ret _ hret]
      exact .idle (next_ret hret)
  | some call =>
    have h := hp t
    rw [hphase] at h
    cases h with
    | starts hprog =>
      rw [Pool.step_call _ hprog]
      exact .read (next_aget hprog) hphase (wrote_call hprog)
    | holds hseen hrecord hput =>
      rw [Pool.step_call _ hput]
      exact .put hphase (wrote_call hput) hseen hrecord hput
    | ended hret =>
      rw [Pool.step_ret _ hret]
      exact .idle (next_ret hret)

theorem phase_rest {call : TurnCall} :
    CallPhase thread (hasRead thread p t call) t (some call) := by
  have hthread : (hasRead thread p t call).threads t = call.rest thread (p.shared.row thread) :=
    Function.update_self ..
  unfold TurnCall.rest at hthread
  cases hrecord : call.record thread (p.shared.row thread) with
  | none =>
    rw [hrecord] at hthread
    exact .ended hthread
  | some row =>
    rw [hrecord] at hthread
    exact .holds (Function.update_self ..) hrecord hthread

/-- A call that was neither run nor shown anything is where it was. -/
theorem CallPhase.congr {q : Pool IndexRun IndexCall Empty Recorded} {call? : Option TurnCall} (h : CallPhase thread p t call?)
    (hthread : q.threads t = p.threads t) (hseen : q.shared.seen t = p.shared.seen t) : CallPhase thread q t call? := by
  cases h with
  | starts hprog => exact .starts (hthread.trans hprog)
  | holds hread hrecord hcall => exact .holds (hseen.trans hread) hrecord (hthread.trans hcall)
  | ended hret => exact .ended (hthread.trans hret)

theorem CallPhases.step (hp : CallPhases thread calls p) (t : Nat) : CallPhases thread calls (p.step (indexStore thread) t) := by
  have hcases := step_cases hp t
  generalize p.step (indexStore thread) t = q at hcases ⊢
  intro u
  cases hcases with
  | idle hnext => exact hp u
  | read hnext hcall hwrote =>
    by_cases hut : u = t
    · rw [hut, hcall]
      exact phase_rest
    · exact (hp u).congr (Function.update_of_ne hut ..) (Function.update_of_ne hut ..)
  | put hcall hwrote hseen hrecord hthread =>
    by_cases hut : u = t
    · subst hut
      exact .ended (Function.update_self ..)
    · exact (hp u).congr (Function.update_of_ne hut ..) rfl

theorem phases_recording (thread : ThreadId) (calls : List TurnCall) (rows : List Row) :
    CallPhases thread calls (recording thread calls rows) := by
  intro t
  cases hcall : calls[t]? with
  | none => exact .ended (by unfold recording; dsimp only; rw [hcall])
  | some call => exact .starts (by unfold recording; dsimp only; rw [hcall])

theorem phases_after (thread : ThreadId) (calls : List TurnCall) (rows : List Row) (ts : List Nat) :
    CallPhases thread calls (after thread calls rows ts) :=
  Pool.exec_keeps _ (fun _ t h _ => h.step t) (phases_recording thread calls rows) (Pool.meets_true _ _ ts)

/-! ## Turns written -/

theorem wrote_congr {q : Pool IndexRun IndexCall Empty Recorded} {u : Nat} (h : q.threads u = p.threads u) :
    wrote q u = wrote p u := by
  unfold wrote Pool.result
  rw [h]

theorem wrote_rest {call : TurnCall} : wrote (hasRead thread p t call) t = false := by
  have hthread : (hasRead thread p t call).threads t = call.rest thread (p.shared.row thread) :=
    Function.update_self ..
  unfold wrote Pool.result
  rw [hthread]
  unfold TurnCall.rest
  cases call.record thread (p.shared.row thread) <;> rfl

theorem wrote_hasRead {call : TurnCall} (hwrote : wrote p t = false) (u : Nat) :
    wrote (hasRead thread p t call) u = wrote p u := by
  by_cases hut : u = t
  · subst hut
    exact wrote_rest.trans hwrote.symm
  · exact wrote_congr (Function.update_of_ne hut ..)

theorem wrote_hasPut (row : Row) (u : Nat) : wrote (hasPut p t row) u = (decide (u = t) || wrote p u) := by
  by_cases hut : u = t
  · subst hut
    have hthread : (hasPut p u row).threads u = .ret .written := Function.update_self ..
    unfold wrote Pool.result
    rw [hthread]
    simp
  · rw [decide_eq_false hut, Bool.false_or]
    exact wrote_congr (Function.update_of_ne hut ..)

theorem written_hasRead {call : TurnCall} (hwrote : wrote p t = false) :
    written calls (hasRead thread p t call) = written calls p := by
  unfold written
  simp only [wrote_hasRead hwrote]

/-- A put is one more turn written. -/
theorem written_hasPut {call : TurnCall} (hcall : calls[t]? = some call) (hwrote : wrote p t = false) (row : Row) :
    written calls (hasPut p t row) = written calls p + 1 := by
  have ht : t ∈ Finset.range calls.length := Finset.mem_range.mpr (List.getElem?_eq_some_iff.mp hcall).1
  have hinsert : (Finset.range calls.length).filter (fun u => wrote (hasPut p t row) u = true) =
      insert t ((Finset.range calls.length).filter fun u => wrote p u = true) := by
    ext u
    simp only [wrote_hasPut, Finset.mem_filter, Finset.mem_insert, Bool.or_eq_true, decide_eq_true_eq]
    constructor
    · rintro ⟨hu, rfl | h⟩
      · exact .inl rfl
      · exact .inr ⟨hu, h⟩
    · rintro (rfl | ⟨hu, h⟩)
      · exact ⟨ht, .inl rfl⟩
      · exact ⟨hu, .inr h⟩
  unfold written
  rw [hinsert, Finset.card_insert_of_notMem]
  simp [hwrote]

theorem row_hasPut {call : TurnCall} {existing : Option Row} {row : Row}
    (h : call.record thread existing = some row) : (hasPut p t row).shared.row thread = some row := by
  obtain ⟨rfl, -⟩ := record_eq h
  exact find_upsert_self ..

/-! ## Fresh puts -/

theorem RowKept.refl (row : Option Row) : RowKept row row := ⟨fun _ => rfl, fun _ h => h⟩

theorem RowKept.trans {a b c : Option Row} (hab : RowKept a b) (hbc : RowKept b c) : RowKept a c where
  title ha := by
    have hb := hab.title ha
    rw [← hb] at ha ⊢
    exact hbc.title ha
  owner customer h := hbc.owner customer (hab.owner customer h)

theorem record_kept {call : TurnCall} {existing : Option Row} {row : Row}
    (h : call.record thread existing = some row) : RowKept existing (some row) := by
  obtain ⟨-, -, htitle, howner⟩ := record_eq h
  constructor
  · intro hset
    rw [if_neg hset] at htitle
    exact htitle
  · intro c hc
    show row.owner = some c
    rw [howner, hc]
    rfl

/-- What was found of the record before: where it started, what was written, whose title it has. -/
structure Tallied (thread : ThreadId) (calls : List TurnCall) (start : Option Row)
    (p : Pool IndexRun IndexCall Empty Recorded) : Prop where
  turns : turnsOf (p.shared.row thread) = turnsOf start + written calls p
  titled : titleOf (p.shared.row thread) = titleOf start ∨
    ∃ t call, calls[t]? = some call ∧ wrote p t = true ∧ titleOf (p.shared.row thread) = titleFrom call.message

theorem Tallied.step {start : Option Row} (hp : CallPhases thread calls p) (h : Tallied thread calls start p)
    (hfresh : p.Next (Fresh thread) t) : Tallied thread calls start (p.step (indexStore thread) t) := by
  have hcases := step_cases hp t
  generalize p.step (indexStore thread) t = q at hcases ⊢
  cases hcases with
  | idle hnext => exact h
  | read hnext hcall hwrote =>
    refine ⟨?_, ?_⟩
    · rw [written_hasRead hwrote]
      exact h.turns
    · simp only [wrote_hasRead hwrote]
      exact h.titled
  | @put call existing row hcall hwrote hseen hrecord hthread =>
    obtain rfl : existing = p.shared.row thread := Option.some.inj (hseen.symm.trans ((next_put hthread).mp hfresh))
    obtain ⟨-, hturns, htitle, -⟩ := record_eq hrecord
    refine ⟨?_, ?_⟩
    · rw [row_hasPut hrecord, written_hasPut hcall hwrote]
      show row.turns = _
      rw [hturns, h.turns, Nat.add_assoc]
    · rw [row_hasPut hrecord]
      show row.title.value = _ ∨ ∃ u call, _ ∧ _ ∧ row.title.value = _
      by_cases hset : titleOf (p.shared.row thread) = ""
      · rw [if_pos hset] at htitle
        exact .inr ⟨t, call, hcall, by rw [wrote_hasPut]; simp, htitle⟩
      · rw [if_neg hset] at htitle
        rw [htitle]
        refine h.titled.imp_right ?_
        rintro ⟨u, first, hfirst, hu, htitled⟩
        exact ⟨u, first, hfirst, by rw [wrote_hasPut, hu, Bool.or_true], htitled⟩

theorem kept_step (hp : CallPhases thread calls p) (hfresh : p.Next (Fresh thread) t) :
    RowKept (p.shared.row thread) ((p.step (indexStore thread) t).shared.row thread) := by
  have hcases := step_cases hp t
  generalize p.step (indexStore thread) t = q at hcases ⊢
  cases hcases with
  | idle hnext => exact RowKept.refl _
  | read hnext hcall hwrote => exact RowKept.refl _
  | @put call existing row hcall hwrote hseen hrecord hthread =>
    obtain rfl : existing = p.shared.row thread := Option.some.inj (hseen.symm.trans ((next_put hthread).mp hfresh))
    rw [row_hasPut hrecord]
    exact record_kept hrecord

/-- Along fresh puts, what is set stays set. -/
theorem kept_exec (hp : CallPhases thread calls p) {ts : List Nat} (hts : p.Meets (indexStore thread) (Fresh thread) ts) :
    RowKept (p.shared.row thread) ((p.exec (indexStore thread) ts).shared.row thread) := by
  have hrun := Pool.exec_keeps (indexStore thread)
    (I := fun q => CallPhases thread calls q ∧ RowKept (p.shared.row thread) (q.shared.row thread))
    (fun q t hq hfresh => ⟨hq.1.step t, hq.2.trans (kept_step hq.1 hfresh)⟩) ⟨hp, RowKept.refl _⟩ hts
  exact hrun.2

/-! ## Stale puts -/

/-- No record has more turns than were written, and one that was read and replaced has fewer. -/
structure Bounded (thread : ThreadId) (calls : List TurnCall) (start : Option Row)
    (p : Pool IndexRun IndexCall Empty Recorded) : Prop where
  turns : turnsOf (p.shared.row thread) ≤ turnsOf start + written calls p
  seen : ∀ u existing, p.shared.seen u = some existing →
    existing = p.shared.row thread ∨ turnsOf existing < turnsOf start + written calls p

theorem Bounded.step {start : Option Row} (hp : CallPhases thread calls p) (h : Bounded thread calls start p) (t : Nat) :
    Bounded thread calls start (p.step (indexStore thread) t) := by
  have hcases := step_cases hp t
  generalize p.step (indexStore thread) t = q at hcases ⊢
  cases hcases with
  | idle hnext => exact h
  | @read call hnext hcall hwrote =>
    refine ⟨?_, ?_⟩
    · rw [written_hasRead hwrote]
      exact h.turns
    · intro u existing hseen
      rw [written_hasRead hwrote]
      by_cases hut : u = t
      · rw [hut] at hseen
        have hnow : (hasRead thread p t call).shared.seen t = some (p.shared.row thread) := Function.update_self ..
        exact .inl (Option.some.inj (hseen.symm.trans hnow))
      · exact h.seen u existing ((Function.update_of_ne hut ..).symm.trans hseen)
  | @put call existing row hcall hwrote hseen hrecord hthread =>
    obtain ⟨-, hturns, -⟩ := record_eq hrecord
    -- whatever was read had at most the turns written before
    have hread : ∀ u read, p.shared.seen u = some read → turnsOf read ≤ turnsOf start + written calls p := by
      intro u read hu
      obtain rfl | hlt := h.seen u read hu
      · exact h.turns
      · exact hlt.le
    refine ⟨?_, ?_⟩
    · rw [row_hasPut hrecord, written_hasPut hcall hwrote]
      show row.turns ≤ _
      have := hread t existing hseen
      omega
    · intro u read hu
      rw [written_hasPut hcall hwrote]
      have := hread u read hu
      exact .inr (by omega)

/-- A turn was lost: the record has fewer than were written. -/
def Short (thread : ThreadId) (calls : List TurnCall) (start : Option Row)
    (p : Pool IndexRun IndexCall Empty Recorded) : Prop :=
  turnsOf (p.shared.row thread) < turnsOf start + written calls p

/-- A turn that was lost stays lost. -/
theorem Short.step {start : Option Row} (hp : CallPhases thread calls p) (hbound : Bounded thread calls start p)
    (h : Short thread calls start p) (t : Nat) : Short thread calls start (p.step (indexStore thread) t) := by
  have hcases := step_cases hp t
  generalize p.step (indexStore thread) t = q at hcases ⊢
  cases hcases with
  | idle hnext => exact h
  | read hnext hcall hwrote =>
    unfold Short
    rw [written_hasRead hwrote]
    exact h
  | @put call existing row hcall hwrote hseen hrecord hthread =>
    obtain ⟨-, hturns, -⟩ := record_eq hrecord
    have hread : turnsOf existing < turnsOf start + written calls p := by
      obtain rfl | hlt := hbound.seen t existing hseen
      · exact h
      · exact hlt
    unfold Short
    rw [row_hasPut hrecord, written_hasPut hcall hwrote]
    show row.turns < _
    omega

/-- A stale put loses a turn. -/
theorem short_of_stale {start : Option Row} (hp : CallPhases thread calls p) (hbound : Bounded thread calls start p)
    (hstale : ¬ p.Next (Fresh thread) t) : Short thread calls start (p.step (indexStore thread) t) := by
  have hcases := step_cases hp t
  generalize p.step (indexStore thread) t = q at hcases ⊢
  cases hcases with
  | idle hnext => exact absurd hnext hstale
  | read hnext hcall hwrote => exact absurd hnext hstale
  | @put call existing row hcall hwrote hseen hrecord hthread =>
    obtain ⟨-, hturns, -⟩ := record_eq hrecord
    have hread : turnsOf existing < turnsOf start + written calls p := by
      refine (hbound.seen t existing hseen).resolve_left ?_
      rintro rfl
      exact hstale ((next_put hthread).mpr hseen)
    unfold Short
    rw [row_hasPut hrecord, written_hasPut hcall hwrote]
    show row.turns < _
    omega

theorem short_exec {start : Option Row} (hp : CallPhases thread calls p) (hbound : Bounded thread calls start p)
    (h : Short thread calls start p) (ts : List Nat) :
    Short thread calls start (p.exec (indexStore thread) ts) := by
  have hrun := Pool.exec_keeps (indexStore thread)
    (I := fun q => CallPhases thread calls q ∧ Bounded thread calls start q ∧ Short thread calls start q)
    (fun q t hq _ => ⟨hq.1.step t, hq.2.1.step hq.1 t, hq.2.2.step hq.1 hq.2.1 t⟩) ⟨hp, hbound, h⟩
    (Pool.meets_true _ _ ts)
  exact hrun.2.2

/-- Where every turn written is counted, every put was fresh. -/
theorem fresh_of_counted {start : Option Row} (hp : CallPhases thread calls p) (hbound : Bounded thread calls start p)
    {ts : List Nat} (h : ¬ Short thread calls start (p.exec (indexStore thread) ts)) :
    p.Meets (indexStore thread) (Fresh thread) ts := by
  induction ts generalizing p with
  | nil => trivial
  | cons t ts ih =>
    refine ⟨?_, ih (hp.step t) (hbound.step hp t) h⟩
    by_contra hstale
    exact h (short_exec (hp.step t) (hbound.step hp t) (short_of_stale hp hbound hstale) ts)

/-! ## Every schedule -/

theorem written_recording (thread : ThreadId) (calls : List TurnCall) (rows : List Row) :
    written calls (recording thread calls rows) = 0 := by
  unfold written
  rw [Finset.card_eq_zero, Finset.filter_eq_empty_iff]
  intro t _
  unfold wrote Pool.result recording
  dsimp only
  cases calls[t]? <;> exact Bool.false_ne_true

/-- **The index loses nothing exactly when no put is stale.** -/
theorem recording_loses_nothing_iff (thread : ThreadId) (calls : List TurnCall) (rows : List Row) (ts : List Nat) :
    LosesNothing thread calls rows ts ↔
      (recording thread calls rows).Meets (indexStore thread) (Fresh thread) ts := by
  have hphases := phases_recording thread calls rows
  have hwritten := written_recording thread calls rows
  constructor
  · intro h
    have hbound : Bounded thread calls (find Row.thread rows thread) (recording thread calls rows) := by
      refine ⟨Nat.le_add_right .., ?_⟩
      intro u existing hseen
      cases hseen
    exact fresh_of_counted hphases hbound h.turns.not_lt
  · intro hts
    have htally : Tallied thread calls (find Row.thread rows thread) (recording thread calls rows) :=
      ⟨by rw [hwritten]; rfl, .inl rfl⟩
    have hrun := Pool.exec_keeps (indexStore thread)
      (I := fun q => CallPhases thread calls q ∧ Tallied thread calls (find Row.thread rows thread) q)
      (fun q t hq hfresh => ⟨hq.1.step t, hq.2.step hq.1 hfresh⟩) ⟨hphases, htally⟩ hts
    refine ⟨hrun.2.turns, hrun.2.titled, ?_⟩
    rintro xs ys ⟨later, rfl⟩ ⟨rest, hrest⟩
    rw [← hrest, List.append_assoc, Pool.meets_append, Pool.meets_append] at hts
    unfold after
    rw [Pool.exec_append]
    exact kept_exec (phases_after thread calls rows xs) hts.2.1

end Recording

/-! Two customers' first turns on one thread, each read before either is put. -/

def overlappingTurns : List TurnCall := [⟨"c-1", "oi", "1", "2"⟩, ⟨"c-2", "saldo", "1", "3"⟩]

theorem overlapping_loses :
    ((after "t-1" overlappingTurns [] [0, 1, 0, 1]).result 0).isSome = true ∧
    ((after "t-1" overlappingTurns [] [0, 1, 0, 1]).result 1).isSome = true ∧
    written overlappingTurns (after "t-1" overlappingTurns [] [0, 1, 0, 1]) = 2 ∧
    turnsOf ((after "t-1" overlappingTurns [] [0, 1, 0, 1]).shared.row "t-1") = 1 ∧
    titleOf ((after "t-1" overlappingTurns [] [0, 1, 0]).shared.row "t-1") = "oi" ∧
    titleOf ((after "t-1" overlappingTurns [] [0, 1, 0, 1]).shared.row "t-1") = "saldo" ∧
    rowOwner ((after "t-1" overlappingTurns [] [0, 1, 0]).shared.row "t-1") = some "c-1" ∧
    rowOwner ((after "t-1" overlappingTurns [] [0, 1, 0, 1]).shared.row "t-1") = some "c-2" ∧
    ¬ LosesNothing "t-1" overlappingTurns [] [0, 1, 0, 1] := by
  have hturns : turnsOf ((after "t-1" overlappingTurns [] [0, 1, 0, 1]).shared.row "t-1") = 1 := by decide
  have hwritten : written overlappingTurns (after "t-1" overlappingTurns [] [0, 1, 0, 1]) = 2 := by decide
  refine ⟨by decide, by decide, hwritten, hturns, by decide, by decide, by decide, by decide, ?_⟩
  intro h
  have hcount := h.turns
  rw [hturns, hwritten] at hcount
  exact absurd hcount (by decide)

end BankingControlPlane.Http
