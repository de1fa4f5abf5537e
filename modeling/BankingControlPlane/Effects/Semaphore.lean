import Mathlib.Algebra.GroupWithZero.Nat
import Mathlib.Algebra.Order.BigOperators.Group.List
import Mathlib.Logic.Function.Basic

/-!
# A counting semaphore, and the tasks that go through it

A task arrives, gets a slot at once or waits for one, is inside, and leaves. Waiters are admitted in the order they
came in; one that was admitted still stands among the waiters until it runs again, and holds back who arrives.

* `Semaphore`, `Semaphore.Move`, `Semaphore.move?` : the state and what may happen next;
* `Held` : slots are conserved, and nobody waits for a slot that nobody holds (`Held.move`, `Held.run`);
* `Held.inside_le` : never more inside than there are slots; `Held.progress` : with a slot, somebody can move;
* `run_length` : no run is longer than four moves a task.
-/

namespace Effects

/-- Where a task is. -/
inductive Semaphore.Stage where
  | outside | queued | admitted | inside | gone
deriving DecidableEq, Repr

namespace Semaphore.Stage

/-- It has a slot. -/
def holds : Stage → Nat
  | .admitted | .inside => 1
  | _ => 0

/-- How far it is from the end. -/
def rest : Stage → Nat
  | .outside => 4
  | .queued => 3
  | .admitted => 2
  | .inside => 1
  | .gone => 0

end Semaphore.Stage

structure Semaphore (ι : Type*) where
  value : Nat
  waiters : List ι := []
  stage : ι → Semaphore.Stage := fun _ => .outside
  left : List ι := []

/-- A task that runs again wakes up one waiter or more, where there are slots. -/
inductive Semaphore.Move (ι : Type*) where
  | arrive (i : ι)
  | resume (i : ι) (more : Nat)
  | leave (i : ι)

namespace Semaphore
variable {ι : Type*} [DecidableEq ι]

def put (s : Semaphore ι) (i : ι) (stage : Stage) : Semaphore ι :=
  { s with stage := Function.update s.stage i stage }

/-- The first waiter that was not woken yet gets a slot, if there is one. -/
def wakeUp (s : Semaphore ι) : Semaphore ι :=
  if 0 < s.value then
    match s.waiters.find? fun i => s.stage i = .queued with
    | none => s
    | some i => { s.put i .admitted with value := s.value - 1 }
  else s

def acquire (s : Semaphore ι) (i : ι) : Semaphore ι :=
  if 0 < s.value ∧ s.waiters = [] then { s.put i .inside with value := s.value - 1 }
  else { s.put i .queued with waiters := s.waiters ++ [i] }

def resume (s : Semaphore ι) (i : ι) (more : Nat) : Semaphore ι :=
  wakeUp^[more + 1] { s.put i .inside with waiters := s.waiters.filter fun j => j ≠ i }

def release (s : Semaphore ι) (i : ι) : Semaphore ι :=
  wakeUp { s.put i .gone with value := s.value + 1, left := s.left ++ [i] }

/-- The state after a move, if it can be made. -/
def move? (tasks : List ι) (s : Semaphore ι) : Move ι → Option (Semaphore ι)
  | .arrive i => if i ∈ tasks ∧ s.stage i = .outside then some (s.acquire i) else none
  | .resume i more => if s.stage i = .admitted then some (s.resume i more) else none
  | .leave i => if s.stage i = .inside then some (s.release i) else none

/-- What a number for each stage adds up to. -/
def total (tasks : List ι) (weight : Stage → Nat) (s : Semaphore ι) : Nat :=
  (tasks.map fun i => weight (s.stage i)).sum

/-- One task's part of a sum is exchanged. -/
theorem total_put {tasks : List ι} (hnodup : tasks.Nodup) {i : ι} (hi : i ∈ tasks) (weight : Stage → Nat)
    (s : Semaphore ι) (stage : Stage) :
    (s.put i stage).total tasks weight + weight (s.stage i) = s.total tasks weight + weight stage := by
  induction tasks with
  | nil => exact absurd hi List.not_mem_nil
  | cons j rest ih =>
    obtain ⟨hj, hrest⟩ := List.nodup_cons.mp hnodup
    unfold total at ih ⊢
    rw [List.map_cons, List.sum_cons, List.map_cons, List.sum_cons]
    rcases List.mem_cons.mp hi with rfl | hi
    · have hsame : rest.map (fun j => weight ((s.put i stage).stage j)) = rest.map fun j => weight (s.stage j) := by
        refine List.map_congr_left fun j hmem => ?_
        have hne : j ≠ i := fun heq => hj (heq ▸ hmem)
        simp [put, Function.update_of_ne hne]
      rw [hsame]
      simp only [put, Function.update_self]
      omega
    · have hne : j ≠ i := fun heq => hj (heq ▸ hi)
      have hhead : (s.put i stage).stage j = s.stage j := Function.update_of_ne hne _ _
      rw [hhead]
      have := ih hrest hi
      omega

/-- Slots are conserved, and the lists say what the stages do. -/
structure Kept (slots : Nat) (tasks : List ι) (s : Semaphore ι) : Prop where
  conserved : s.value + s.total tasks Stage.holds = slots
  waiters : ∀ i, i ∈ s.waiters ↔ s.stage i = .queued ∨ s.stage i = .admitted
  nodup : s.left.Nodup
  left : ∀ i, i ∈ s.left ↔ s.stage i = .gone
  known : ∀ i, s.stage i ≠ .outside → i ∈ tasks

/-- Besides, nobody waits for a slot that is free, unless another waiter was woken and has not run yet. -/
structure Held (slots : Nat) (tasks : List ι) (s : Semaphore ι) : Prop extends Kept slots tasks s where
  woken : ∀ i, s.stage i = .queued → s.value = 0 ∨ ∃ j, s.stage j = .admitted

variable {slots : Nat} {tasks : List ι} {s s' : Semaphore ι} {i : ι}

omit [DecidableEq ι] in
theorem Held.start (slots : Nat) (tasks : List ι) : Held slots tasks ({ value := slots } : Semaphore ι) := by
  refine ⟨⟨?_, ?_, List.nodup_nil, ?_, ?_⟩, ?_⟩
  · have hzero : (tasks.map fun _ => Stage.holds .outside).sum = 0 := by simp [Stage.holds]
    exact congrArg (slots + ·) hzero
  all_goals simp

@[simp] theorem put_value (s : Semaphore ι) (i : ι) (stage : Stage) : (s.put i stage).value = s.value := rfl

@[simp] theorem put_waiters (s : Semaphore ι) (i : ι) (stage : Stage) : (s.put i stage).waiters = s.waiters := rfl

@[simp] theorem put_left (s : Semaphore ι) (i : ι) (stage : Stage) : (s.put i stage).left = s.left := rfl

theorem stage_put (s : Semaphore ι) (i j : ι) (stage : Stage) :
    (s.put i stage).stage j = if j = i then stage else s.stage j :=
  Function.update_apply ..

/-- Waking a waiter up keeps the books, and leaves nobody waiting for a free slot. -/
theorem Kept.wakeUp (hnodup : tasks.Nodup) (h : Kept slots tasks s) : Held slots tasks s.wakeUp := by
  unfold Semaphore.wakeUp
  split_ifs with hvalue
  · cases hfind : s.waiters.find? fun i => s.stage i = .queued with
    | none =>
      refine ⟨h, fun i hi => ?_⟩
      have hwaits : i ∈ s.waiters := (h.waiters i).mpr (Or.inl hi)
      exact absurd (decide_eq_true hi) (List.find?_eq_none.mp hfind i hwaits)
    | some i =>
      have hqueued : s.stage i = .queued := by simpa using List.find?_some hfind
      have hi : i ∈ tasks := h.known i (by simp [hqueued])
      have htotal := total_put hnodup hi Stage.holds s .admitted
      rw [hqueued] at htotal
      refine ⟨⟨?_, fun j => ?_, h.nodup, fun j => ?_, fun j hj => ?_⟩, fun j hj => Or.inr ⟨i, ?_⟩⟩
      · have hconserved := h.conserved
        change s.value - 1 + (s.put i .admitted).total tasks Stage.holds = slots
        simp only [Stage.holds] at htotal
        omega
      · change j ∈ s.waiters ↔ _
        rw [h.waiters j, stage_put]
        split_ifs with hji
        · simp [hji, hqueued]
        · rfl
      · change j ∈ s.left ↔ _
        rw [h.left j, stage_put]
        split_ifs with hji
        · simp [hji, hqueued]
        · rfl
      · change (s.put i .admitted).stage j ≠ .outside at hj
        rw [stage_put] at hj
        split_ifs at hj with hji
        · exact hji ▸ hi
        · exact h.known j hj
      · exact (stage_put s i i .admitted).trans (if_pos rfl)
  · exact ⟨h, fun i _ => Or.inl (Nat.eq_zero_of_not_pos hvalue)⟩

/-- Putting a task elsewhere, with the slots and the lists that go with it. -/
theorem Kept.put (hnodup : tasks.Nodup) (h : Kept slots tasks s) (hi : i ∈ tasks) {stage : Stage} {value : Nat}
    {waiters left : List ι}
    (hvalue : value + stage.holds = s.value + (s.stage i).holds)
    (hwaiters : ∀ j, j ∈ waiters ↔ if j = i then stage = .queued ∨ stage = .admitted else j ∈ s.waiters)
    (hleft : left.Nodup) (hgone : ∀ j, j ∈ left ↔ if j = i then stage = .gone else j ∈ s.left) :
    Kept slots tasks { s.put i stage with value := value, waiters := waiters, left := left } := by
  have htotal := total_put hnodup hi Stage.holds s stage
  refine ⟨?_, fun j => ?_, hleft, fun j => ?_, fun j hj => ?_⟩
  · have hconserved := h.conserved
    change value + (s.put i stage).total tasks Stage.holds = slots
    omega
  · change j ∈ waiters ↔ (s.put i stage).stage j = .queued ∨ (s.put i stage).stage j = .admitted
    rw [hwaiters, stage_put]
    split_ifs
    · rfl
    · exact h.waiters j
  · change j ∈ left ↔ (s.put i stage).stage j = .gone
    rw [hgone, stage_put]
    split_ifs
    · rfl
    · exact h.left j
  · change (s.put i stage).stage j ≠ .outside at hj
    rw [stage_put] at hj
    split_ifs at hj with hji
    · exact hji ▸ hi
    · exact h.known j hj

theorem Held.acquire (hnodup : tasks.Nodup) (h : Held slots tasks s) (hi : i ∈ tasks) (houtside : s.stage i = .outside) :
    Held slots tasks (s.acquire i) := by
  have hgone : i ∉ s.left := by rw [h.left, houtside]; simp
  have hleft : ∀ stage, stage ≠ Stage.gone → ∀ j, j ∈ s.left ↔ if j = i then stage = .gone else j ∈ s.left := by
    intro stage hstage j
    split_ifs with hji
    · exact iff_of_false (hji ▸ hgone) hstage
    · rfl
  unfold Semaphore.acquire
  split_ifs with hfree
  · obtain ⟨hpos, hnobody⟩ := hfree
    refine ⟨Kept.put hnodup h.toKept hi ?_ (fun j => ?_) h.nodup (hleft _ (by simp)), fun j hj => ?_⟩
    · rw [houtside]
      simp only [Stage.holds]
      omega
    · simp [hnobody]
    · change (s.put i .inside).stage j = .queued at hj
      rw [stage_put] at hj
      split_ifs at hj
      have hwaits := (h.waiters j).mpr (Or.inl hj)
      rw [hnobody] at hwaits
      exact absurd hwaits List.not_mem_nil
  · refine ⟨Kept.put hnodup h.toKept hi (by rw [houtside]; rfl) (fun j => ?_) h.nodup (hleft _ (by simp)),
      fun j _ => ?_⟩
    · by_cases hji : j = i <;> simp [hji]
    · rcases Nat.eq_zero_or_pos s.value with hzero | hpos
      · exact Or.inl hzero
      · obtain ⟨first, hfirst⟩ := List.exists_mem_of_ne_nil _ fun hnobody => hfree ⟨hpos, hnobody⟩
        have hadmitted : ∃ k, s.stage k = .admitted := by
          rcases (h.waiters first).mp hfirst with hqueued | hadmitted
          · exact (h.woken first hqueued).resolve_left (Nat.ne_of_gt hpos)
          · exact ⟨first, hadmitted⟩
        obtain ⟨k, hk⟩ := hadmitted
        have hne : k ≠ i := by
          rintro rfl
          rw [houtside] at hk
          cases hk
        exact Or.inr ⟨k, ((stage_put s i k .queued).trans (if_neg hne)).trans hk⟩

/-- A task that runs again, before it wakes another up. -/
theorem Held.back (hnodup : tasks.Nodup) (h : Held slots tasks s) (hadmitted : s.stage i = .admitted) :
    Kept slots tasks { s.put i .inside with waiters := s.waiters.filter fun j => j ≠ i } := by
  have hi : i ∈ tasks := h.known i (by simp [hadmitted])
  have hgone : i ∉ s.left := by rw [h.left, hadmitted]; simp
  refine Kept.put hnodup h.toKept hi (by rw [hadmitted]; rfl) (fun j => ?_) h.nodup (fun j => ?_)
  · by_cases hji : j = i <;> simp [hji]
  · by_cases hji : j = i
    · simp [hji, hgone]
    · simp [hji]

/-- A task that leaves, before the next waiter is woken up. -/
theorem Held.out (hnodup : tasks.Nodup) (h : Held slots tasks s) (hinside : s.stage i = .inside) :
    Kept slots tasks { s.put i .gone with value := s.value + 1, left := s.left ++ [i] } := by
  have hi : i ∈ tasks := h.known i (by simp [hinside])
  have hgone : i ∉ s.left := by rw [h.left, hinside]; simp
  have hwaits : i ∉ s.waiters := by rw [h.waiters, hinside]; simp
  refine Kept.put hnodup h.toKept hi (by rw [hinside]; rfl) (fun j => ?_) ?_ (fun j => ?_)
  · by_cases hji : j = i
    · simp [hji, hwaits]
    · simp [hji]
  · refine List.nodup_append.mpr ⟨h.nodup, by simp, fun j hj k hk heq => ?_⟩
    rw [heq, List.mem_singleton.mp hk] at hj
    exact hgone hj
  · by_cases hji : j = i <;> simp [hji]

theorem Kept.wakeUps (hnodup : tasks.Nodup) (h : Kept slots tasks s) (more : Nat) :
    Held slots tasks (Semaphore.wakeUp^[more + 1] s) := by
  induction more with
  | zero => exact h.wakeUp hnodup
  | succ more ih =>
    rw [Function.iterate_succ_apply']
    exact ih.toKept.wakeUp hnodup

/-- Every move keeps the books. -/
theorem Held.move (hnodup : tasks.Nodup) (h : Held slots tasks s) {m : Move ι} (hm : s.move? tasks m = some s') :
    Held slots tasks s' := by
  cases m with
  | arrive i =>
    simp only [move?] at hm
    split_ifs at hm with hi
    obtain rfl := Option.some.inj hm
    exact h.acquire hnodup hi.1 hi.2
  | resume i more =>
    simp only [move?] at hm
    split_ifs at hm with hi
    obtain rfl := Option.some.inj hm
    exact (h.back hnodup hi).wakeUps hnodup more
  | leave i =>
    simp only [move?] at hm
    split_ifs at hm with hi
    obtain rfl := Option.some.inj hm
    exact (h.out hnodup hi).wakeUp hnodup

/-! ## Runs -/

/-- The state after these moves, if they can be made. -/
def run (tasks : List ι) (s : Semaphore ι) (moves : List (Move ι)) : Option (Semaphore ι) :=
  moves.foldlM (fun s m => s.move? tasks m) s

theorem Held.run (hnodup : tasks.Nodup) (h : Held slots tasks s) {moves : List (Move ι)}
    (hrun : s.run tasks moves = some s') : Held slots tasks s' := by
  induction moves generalizing s with
  | nil =>
    obtain rfl := Option.some.inj hrun
    exact h
  | cons m moves ih =>
    obtain ⟨next, hm, hrest⟩ := Option.bind_eq_some_iff.mp hrun
    exact ih (h.move hnodup hm) hrest

@[simp] theorem left_wakeUp (s : Semaphore ι) : s.wakeUp.left = s.left := by
  unfold wakeUp
  split_ifs
  · split <;> rfl
  · rfl

/-- A move of a task that leaves is the last of it; the others leave nobody out. -/
theorem left_move {m : Move ι} (hm : s.move? tasks m = some s') :
    (∃ i, m = .leave i ∧ s.stage i = .inside ∧ s'.left = s.left ++ [i]) ∨
      ((∀ i, m ≠ .leave i) ∧ s'.left = s.left) := by
  cases m with
  | arrive i =>
    simp only [move?] at hm
    split_ifs at hm
    obtain rfl := Option.some.inj hm
    refine Or.inr ⟨by simp, ?_⟩
    unfold acquire
    split_ifs <;> rfl
  | resume i more =>
    simp only [move?] at hm
    split_ifs at hm
    obtain rfl := Option.some.inj hm
    refine Or.inr ⟨by simp, ?_⟩
    unfold resume
    induction more with
    | zero => exact left_wakeUp _
    | succ more ih =>
      rw [Function.iterate_succ_apply', left_wakeUp]
      exact ih rfl
  | leave i =>
    simp only [move?] at hm
    split_ifs at hm with hi
    obtain rfl := Option.some.inj hm
    exact Or.inl ⟨i, rfl, hi, left_wakeUp _⟩

/-- How many tasks are inside. -/
def inside (tasks : List ι) (s : Semaphore ι) : Nat := tasks.countP fun i => s.stage i = .inside

omit [DecidableEq ι] in
theorem Held.inside_le (h : Held slots tasks s) : s.inside tasks ≤ slots := by
  have hle : s.inside tasks ≤ s.total tasks Stage.holds := by
    unfold inside total
    clear h
    induction tasks with
    | nil => exact Nat.le_refl _
    | cons i rest ih =>
      have hone : (if s.stage i = .inside then 1 else 0) ≤ (s.stage i).holds := by
        cases s.stage i <;> decide
      rw [List.countP_cons, List.map_cons, List.sum_cons]
      simp only [decide_eq_true_eq]
      omega
  have := h.conserved
  omega

omit [DecidableEq ι] in
/-- Where a slot is taken, somebody has it. -/
theorem holder_of_total (h : 0 < s.total tasks Stage.holds) :
    ∃ i, s.stage i = .admitted ∨ s.stage i = .inside := by
  by_contra hnone
  have hzero : ∀ i, (s.stage i).holds = 0 := by
    intro i
    have hi := not_exists.mp hnone i
    cases hstage : s.stage i <;> simp [hstage] at hi ⊢ <;> rfl
  simp [total, hzero] at h

omit [DecidableEq ι] in
/-- Who is inside has one of the slots. -/
theorem Held.slots_pos (h : Held slots tasks s) (hinside : s.stage i = .inside) : 0 < slots := by
  have hpos : 0 < s.inside tasks :=
    List.countP_pos_iff.mpr ⟨i, h.known i (by simp [hinside]), decide_eq_true hinside⟩
  exact lt_of_lt_of_le hpos h.inside_le

/-- Without a slot, nobody ever leaves. -/
theorem Held.left_nil (hnodup : tasks.Nodup) (h : Held 0 tasks s) (hleft : s.left = []) {moves : List (Move ι)}
    (hrun : s.run tasks moves = some s') : s'.left = [] := by
  induction moves generalizing s with
  | nil =>
    obtain rfl := Option.some.inj hrun
    exact hleft
  | cons m moves ih =>
    obtain ⟨next, hm, hrest⟩ := Option.bind_eq_some_iff.mp hrun
    refine ih (h.move hnodup hm) ?_ hrest
    rcases left_move hm with ⟨i, -, hinside, -⟩ | ⟨-, hsame⟩
    · exact absurd (h.slots_pos hinside) (Nat.lt_irrefl 0)
    · exact hsame.trans hleft

/-- With a slot at all, some task can move until all are gone. -/
theorem Held.progress (h : Held slots tasks s) (hslots : 0 < slots) (hi : i ∈ tasks) (hstill : s.stage i ≠ .gone) :
    ∃ m s', s.move? tasks m = some s' := by
  have hresumes : ∀ j, s.stage j = .admitted → ∃ m s', s.move? tasks m = some s' :=
    fun j hj => ⟨.resume j 0, _, if_pos hj⟩
  have hleaves : ∀ j, s.stage j = .inside → ∃ m s', s.move? tasks m = some s' := fun j hj => ⟨.leave j, _, if_pos hj⟩
  cases hstage : s.stage i with
  | outside => exact ⟨.arrive i, _, if_pos ⟨hi, hstage⟩⟩
  | admitted => exact hresumes i hstage
  | inside => exact hleaves i hstage
  | gone => exact absurd hstage hstill
  | queued =>
    rcases h.woken i hstage with hfull | ⟨j, hj⟩
    · have hconserved := h.conserved
      have htaken : 0 < s.total tasks Stage.holds := by omega
      obtain ⟨j, hj | hj⟩ := holder_of_total htaken
      · exact hresumes j hj
      · exact hleaves j hj
    · exact hresumes j hj

theorem rest_wakeUp (hnodup : tasks.Nodup) (h : Kept slots tasks s) :
    s.wakeUp.total tasks Stage.rest ≤ s.total tasks Stage.rest := by
  unfold Semaphore.wakeUp
  split_ifs
  · cases hfind : s.waiters.find? fun i => s.stage i = .queued with
    | none => exact Nat.le_refl _
    | some i =>
      have hqueued : s.stage i = .queued := by simpa using List.find?_some hfind
      have htotal := total_put hnodup (h.known i (by simp [hqueued])) Stage.rest s .admitted
      rw [hqueued] at htotal
      change (s.put i .admitted).total tasks Stage.rest ≤ _
      simp only [Stage.rest] at htotal
      omega
  · exact Nat.le_refl _

theorem rest_wakeUps (hnodup : tasks.Nodup) (h : Kept slots tasks s) (more : Nat) :
    (wakeUp^[more + 1] s).total tasks Stage.rest ≤ s.total tasks Stage.rest := by
  induction more with
  | zero => exact rest_wakeUp hnodup h
  | succ more ih =>
    rw [Function.iterate_succ_apply']
    exact (rest_wakeUp hnodup (h.wakeUps hnodup more).toKept).trans ih

/-- Every move brings the tasks nearer to their end. -/
theorem rest_move (hnodup : tasks.Nodup) (h : Held slots tasks s) {m : Move ι} (hm : s.move? tasks m = some s') :
    s'.total tasks Stage.rest < s.total tasks Stage.rest := by
  have hput : ∀ {i : ι} (stage : Stage), i ∈ tasks → stage.rest < (s.stage i).rest →
      (s.put i stage).total tasks Stage.rest < s.total tasks Stage.rest := by
    intro i stage hi hless
    have htotal := total_put hnodup hi Stage.rest s stage
    omega
  cases m with
  | arrive i =>
    simp only [move?] at hm
    split_ifs at hm with hi
    obtain rfl := Option.some.inj hm
    unfold acquire
    split_ifs
    · exact hput _ hi.1 (by rw [hi.2]; decide)
    · exact hput _ hi.1 (by rw [hi.2]; decide)
  | resume i more =>
    simp only [move?] at hm
    split_ifs at hm with hi
    obtain rfl := Option.some.inj hm
    have hmem : i ∈ tasks := h.known i (by simp [hi])
    exact lt_of_le_of_lt (rest_wakeUps hnodup (h.back hnodup hi) more)
      (hput .inside hmem (by rw [hi]; decide))
  | leave i =>
    simp only [move?] at hm
    split_ifs at hm with hi
    obtain rfl := Option.some.inj hm
    have hmem : i ∈ tasks := h.known i (by simp [hi])
    exact lt_of_le_of_lt (rest_wakeUp hnodup (h.out hnodup hi)) (hput .gone hmem (by rw [hi]; decide))

/-- **No run is longer than four moves a task.** -/
theorem run_length (hnodup : tasks.Nodup) (slots : Nat) {moves : List (Move ι)}
    (hrun : ({ value := slots } : Semaphore ι).run tasks moves = some s) : moves.length ≤ 4 * tasks.length := by
  have hrest : ∀ {s s' : Semaphore ι} {moves : List (Move ι)}, Held slots tasks s → s.run tasks moves = some s' →
      moves.length + s'.total tasks Stage.rest ≤ s.total tasks Stage.rest := by
    intro s s' moves h hrun
    induction moves generalizing s with
    | nil =>
      obtain rfl := Option.some.inj hrun
      simp
    | cons m moves ih =>
      obtain ⟨next, hm, hlater⟩ := Option.bind_eq_some_iff.mp hrun
      have hless := rest_move hnodup h hm
      have hmore := ih (h.move hnodup hm) hlater
      rw [List.length_cons]
      omega
  have hstart : ({ value := slots } : Semaphore ι).total tasks Stage.rest = 4 * tasks.length := by
    simp [total, Stage.rest, Nat.mul_comm]
  have := hrest (Held.start slots tasks) hrun
  omega

/-- **Where no move is left**, every task has gone through, once. -/
theorem Held.finished (hnodup : tasks.Nodup) (h : Held slots tasks s) (hslots : 0 < slots)
    (hstuck : ∀ m, s.move? tasks m = none) : s.left.Perm tasks := by
  refine (List.perm_ext_iff_of_nodup h.nodup hnodup).mpr fun i => ?_
  rw [h.left]
  constructor
  · intro hgone
    exact h.known i (by simp [hgone])
  · intro hi
    by_contra hstill
    obtain ⟨m, next, hm⟩ := h.progress hslots hi hstill
    rw [hstuck m] at hm
    cases hm

end Semaphore

end Effects
