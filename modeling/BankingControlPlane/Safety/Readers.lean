import BankingControlPlane.Data.Past
import BankingControlPlane.Safety.Rail
import BankingControlPlane.Ui.Totals
import Mathlib.Algebra.BigOperators.Group.List.Basic
import Mathlib.Algebra.GroupWithZero.Nat
import Mathlib.Algebra.Ring.Rat
import Mathlib.Tactic.Push

/-!
# Three readers of one rail

* `Totals`, `totals` : what the completed model calls of a rail add up to;
* `accumulate_shows`, `stages_show` : the browser shows it, and the fold of the harness and the terminal;
* `foldlM_settled` : the harness and the terminal keep the frames that are no start;
* `renderCost_payload` : what the terminal prints of it;
* `ReadAlike` : they show the same, and the browser a block where the harness names a gate;
* `readers_agree_iff` : so it is exactly where no frame is blocked, or a gate's is;
* `run_readAlike_iff` : so it is of a turn exactly where none of its model and tool calls was blocked.
-/

namespace BankingControlPlane
open Json Evals History

/-! ## Totals -/

/-- Tokens in and out, and the cost where one is known. -/
structure Totals where
  tokensIn : Nat
  tokensOut : Nat
  cost : Option ℚ

/-- What a completed model call used. -/
def StageEvent.call? {K : Type} (e : StageEvent K) : Option (CallUsage K) :=
  match e.kind, e.status, e.detail with
  | .model, .done, some (.usage u) => some u
  | _, _, _ => none

/-- A sum, unless there is nothing to add up. -/
def sum? (costs : List ℚ) : Option ℚ := if costs = [] then none else some costs.sum

def totals (events : List (StageEvent ℚ)) : Totals :=
  let calls := events.filterMap StageEvent.call?
  { tokensIn := (calls.map CallUsage.inputTokens).sum, tokensOut := (calls.map CallUsage.outputTokens).sum,
    cost := sum? (calls.filterMap CallUsage.costUsd) }

/-- The totals with one more call. -/
def Totals.more (t : Totals) (u : CallUsage ℚ) : Totals :=
  { tokensIn := t.tokensIn + u.inputTokens, tokensOut := t.tokensOut + u.outputTokens,
    cost := match u.costUsd with
      | none => t.cost
      | some cost => some (t.cost.getD 0 + cost) }

theorem sum?_snoc (costs : List ℚ) (cost : ℚ) : sum? (costs ++ [cost]) = some ((sum? costs).getD 0 + cost) := by
  unfold sum?
  rw [if_neg (List.append_ne_nil_of_right_ne_nil _ (List.cons_ne_nil _ _)), List.sum_append, List.sum_singleton]
  by_cases h : costs = []
  · rw [if_pos h, h]
    rfl
  · rw [if_neg h]
    rfl

/-- A frame that is no completed call uses nothing. -/
def CallUsage.nothing {K : Type} : CallUsage K := { inputTokens := 0, outputTokens := 0, costUsd := none }

theorem totals_snoc (seen : List (StageEvent ℚ)) (e : StageEvent ℚ) :
    totals (seen ++ [e]) = (totals seen).more (e.call?.getD .nothing) := by
  unfold totals Totals.more
  cases hcall : e.call? with
  | none => simp [hcall, CallUsage.nothing]
  | some u =>
    cases hcost : u.costUsd with
    | none => simp [hcall, hcost]
    | some cost => simp [hcall, hcost, sum?_snoc]

/-! ## Fields of a frame -/

section Fields
variable {K : Type} (e : StageEvent K)

@[simp] theorem get_kind : get "kind" e.payload = .str e.kind.text := rfl

@[simp] theorem get_status : get "status" e.payload = .str e.status.text := rfl

theorem get_detail : get "detail" e.payload = (e.detail.map fun detail => Value.obj detail.payload).getD .null := rfl

@[simp] theorem isText_start : isText "start" (.str e.status.text : Value K) = decide (e.status = .start) := by
  cases e.status <;> rfl

@[simp] theorem isText_done : isText "done" (.str e.status.text : Value K) = decide (e.status = .done) := by
  cases e.status <;> rfl

@[simp] theorem isText_blocked : isText "blocked" (.str e.status.text : Value K) = decide (e.status = .blocked) := by
  cases e.status <;> rfl

@[simp] theorem isText_model : isText "model" (.str e.kind.text : Value K) = decide (e.kind = .model) := by
  cases e.kind <;> rfl

theorem isText_call : (isText "model" (get "kind" e.payload) && isText "done" (get "status" e.payload)) =
    decide (e.kind = .model ∧ e.status = .done) := by
  rw [get_kind, get_status, isText_model, isText_done, Bool.decide_and]

/-- Only a completed model call is a call. -/
theorem call?_eq_none (h : ¬ (e.kind = .model ∧ e.status = .done)) : e.call? = none := by
  unfold StageEvent.call?
  split
  · next hkind hstatus _ => exact absurd ⟨hkind, hstatus⟩ h
  · rfl

/-- The call that a detail tells of. -/
def StageDetail.usage? : StageDetail K → Option (CallUsage K)
  | .usage u => some u
  | .violations _ | .error _ _ => none

theorem call?_eq (hkind : e.kind = .model) (hstatus : e.status = .done) :
    e.call? = e.detail.bind StageDetail.usage? := by
  unfold StageEvent.call?
  rw [hkind, hstatus]
  cases e.detail with
  | none => rfl
  | some detail => cases detail <;> rfl

end Fields

/-! ## The browser -/

/-- What the accumulator shows of the calls. -/
structure TurnAccumulator.Shows (acc : TurnAccumulator) (t : Totals) : Prop where
  tokensIn : acc.tokensIn = t.tokensIn
  tokensOut : acc.tokensOut = t.tokensOut
  costUsd : acc.costUsd = t.cost

section Browser
variable {acc : TurnAccumulator} {t : Totals}

theorem number?_cost (u : CallUsage ℚ) : number? (get "cost_usd" (StageDetail.usage u).payload) = u.costUsd := by
  show number? ((u.costUsd.map Value.float).getD .null) = u.costUsd
  cases u.costUsd <;> rfl

theorem add_usage (h : acc.Shows t) (u : CallUsage ℚ) :
    ∃ next, acc.add (StageDetail.usage u).payload = some next ∧ next.Shows (t.more u) ∧ next.blocked = acc.blocked := by
  refine ⟨_, rfl, ?_, rfl⟩
  constructor
  · show acc.tokensIn + ((u.inputTokens : Int) : ℚ) = ((t.tokensIn + u.inputTokens : Nat) : ℚ)
    rw [h.tokensIn]
    push_cast
    rfl
  · show acc.tokensOut + ((u.outputTokens : Int) : ℚ) = ((t.tokensOut + u.outputTokens : Nat) : ℚ)
    rw [h.tokensOut]
    push_cast
    rfl
  · unfold Totals.more
    dsimp only
    rw [number?_cost, h.costUsd]
    cases u.costUsd <;> rfl

theorem add_payload (h : acc.Shows t) (detail : StageDetail ℚ) :
    ∃ next, acc.add detail.payload = some next ∧ next.Shows (t.more (detail.usage?.getD .nothing)) ∧
      next.blocked = acc.blocked := by
  cases detail with
  | usage u => exact add_usage h u
  | violations vs =>
    refine ⟨_, rfl, ?_, rfl⟩
    exact ⟨(add_zero _).trans h.tokensIn, (add_zero _).trans h.tokensOut, h.costUsd⟩
  | error type message =>
    cases message with
    | none =>
      refine ⟨_, rfl, ?_, rfl⟩
      exact ⟨(add_zero _).trans h.tokensIn, (add_zero _).trans h.tokensOut, h.costUsd⟩
    | some message =>
      refine ⟨_, rfl, ?_, rfl⟩
      exact ⟨(add_zero _).trans h.tokensIn, (add_zero _).trans h.tokensOut, h.costUsd⟩

theorem block_payload (h : acc.Shows t) (detail : Option (StageDetail ℚ)) :
    ∃ next, acc.block (detail.map StageDetail.payload) = some next ∧ next.Shows t ∧ next.blocked = true := by
  have hshows : ∀ violations, { acc with blocked := true, violations := violations }.Shows t :=
    fun violations => ⟨h.tokensIn, h.tokensOut, h.costUsd⟩
  cases detail with
  | none => exact ⟨_, rfl, hshows _, rfl⟩
  | some detail =>
    cases detail with
    | violations vs => exact ⟨_, rfl, hshows _, rfl⟩
    | usage u => exact ⟨_, rfl, hshows _, rfl⟩
    | error type message => cases message <;> exact ⟨_, rfl, hshows _, rfl⟩

theorem detailOf_payload (e : StageEvent ℚ) : detailOf e.payload = some (e.detail.map StageDetail.payload) := by
  unfold detailOf
  rw [get_detail]
  cases e.detail <;> rfl

theorem count_payload {seen : List (StageEvent ℚ)} (h : acc.Shows (totals seen)) (e : StageEvent ℚ) :
    ∃ next, acc.count e.payload (e.detail.map StageDetail.payload) = some next ∧
      next.Shows (totals (seen ++ [e])) ∧ next.blocked = acc.blocked := by
  rw [totals_snoc]
  by_cases hdone : e.kind = .model ∧ e.status = .done
  · rw [call?_eq e hdone.1 hdone.2]
    cases e.detail with
    | none => exact ⟨acc, rfl, h, rfl⟩
    | some detail =>
      obtain ⟨next, hadd, hshows, hblocked⟩ := add_payload h detail
      refine ⟨next, ?_, hshows, hblocked⟩
      rw [Option.map_some, TurnAccumulator.count, isText_call, if_pos (decide_eq_true hdone), hadd]
  · rw [call?_eq_none e hdone]
    refine ⟨acc, ?_, h, rfl⟩
    cases e.detail with
    | none => rfl
    | some detail => rw [Option.map_some, TurnAccumulator.count, isText_call, if_neg (by simpa using hdone)]

/-- One frame, in the browser. -/
theorem accumulate_step {seen : List (StageEvent ℚ)} (h : acc.Shows (totals seen)) (e : StageEvent ℚ) :
    ∃ next, accumulateStage acc e.payload = some next ∧ next.Shows (totals (seen ++ [e])) ∧
      (next.blocked = true ↔ acc.blocked = true ∨ e.status = .blocked) := by
  unfold accumulateStage
  rw [get_status, isText_start, isText_blocked, detailOf_payload]
  by_cases hstart : e.status = .start
  · have hcall : e.call? = none := call?_eq_none e fun hdone => by rw [hstart] at hdone; cases hdone.2
    rw [hstart, totals_snoc, hcall]
    exact ⟨acc, rfl, h, by simp⟩
  · have hrail : { acc with rail := acc.rail ++ [e.payload] }.Shows (totals seen) :=
      ⟨h.tokensIn, h.tokensOut, h.costUsd⟩
    obtain ⟨counted, hcount, hcounted, hblocked⟩ := count_payload hrail e
    rw [if_neg (by simpa using hstart), Option.bind_eq_bind, Option.bind_some, hcount, Option.bind_eq_bind,
      Option.bind_some]
    by_cases hstop : e.status = .blocked
    · obtain ⟨next, hblock, hshows, hnext⟩ := block_payload hcounted e.detail
      rw [if_pos (by simpa using hstop)]
      exact ⟨next, hblock, hshows, by simp [hnext, hstop]⟩
    · rw [if_neg (by simpa using hstop)]
      exact ⟨counted, rfl, hcounted, by simp [hblocked, hstop]⟩

/-- **The browser shows the totals**, and a block where any frame is blocked. -/
theorem accumulate_shows (events : List (StageEvent ℚ)) :
    ∃ acc, (events.map StageEvent.payload).foldlM accumulateStage {} = some acc ∧ acc.Shows (totals events) ∧
      (acc.blocked = true ↔ ∃ e ∈ events, e.status = .blocked) := by
  rw [List.foldlM_map]
  refine foldlM_keeps (fun seen (acc : TurnAccumulator) => acc.Shows (totals seen) ∧
    (acc.blocked = true ↔ ∃ e ∈ seen, e.status = .blocked)) ⟨⟨rfl, rfl, rfl⟩, by simp⟩ ?_ events
  rintro seen e acc ⟨hshows, hblocked⟩
  obtain ⟨next, hnext, hnextShows, hnextBlocked⟩ := accumulate_step hshows e
  refine ⟨next, hnext, hnextShows, ?_⟩
  rw [hnextBlocked, hblocked]
  simp only [List.mem_append, List.mem_singleton, or_and_right, exists_or, exists_eq_left]

end Browser

/-! ## The harness and the terminal -/

/-- What the usage shows of the calls. -/
structure Evals.Usage.Shows (usage : Usage ℚ) (t : Totals) : Prop where
  tokensIn : usage.tokensIn = .int t.tokensIn
  tokensOut : usage.tokensOut = .int t.tokensOut
  cost : usage.cost = t.cost.map Value.float

section Folds
variable (base : Operators ℚ) {usage : Usage ℚ} {t : Totals}

theorem orZero_int (i : Int) : orZero (exact base) (.int i) = .int i := by
  unfold orZero
  split_ifs with h
  · rfl
  · have hi : i = 0 := by simpa [exact] using h
    rw [hi]

theorem orZero_null : orZero (exact base) .null = .int 0 := rfl

/-- `cost or 0.0`. -/
def costSofar {F : Type} (ops : Operators F) : Option (Value F) → Value F
  | some cost => if ops.truthy cost then cost else .float ops.zero
  | none => .float ops.zero

theorem costSofar_exact (cost : Option ℚ) :
    costSofar (exact base) (cost.map Value.float) = .float (cost.getD 0) := by
  cases cost with
  | none => rfl
  | some cost =>
    rw [Option.map_some, Option.getD_some, costSofar]
    split_ifs with h
    · rfl
    · have hcost : cost = 0 := by simpa [exact] using h
      rw [hcost]
      rfl

/-- What a completed call with this detail adds. -/
def Evals.Usage.addDetail {F : Type} (ops : Operators F) (usage : Usage F) (detail : List (String × Value F)) :
    Option (Usage F) := do
  let tokensIn ← ops.add usage.tokensIn (orZero ops (get "input_tokens" detail))
  let tokensOut ← ops.add usage.tokensOut (orZero ops (get "output_tokens" detail))
  if isNone (get "cost_usd" detail) then some { usage with tokensIn := tokensIn, tokensOut := tokensOut }
  else
    let cost ← ops.add (costSofar ops usage.cost) (get "cost_usd" detail)
    some { tokensIn := tokensIn, tokensOut := tokensOut, cost := some cost }

theorem stage_payload (e : StageEvent ℚ) : usage.stage (exact base) e.payload =
    if e.kind = .model ∧ e.status = .done then
      usage.addDetail (exact base) ((e.detail.map StageDetail.payload).getD [])
    else some usage := by
  unfold Usage.stage
  rw [isText_call, get_detail]
  by_cases hdone : e.kind = .model ∧ e.status = .done
  · rw [if_pos (decide_eq_true hdone), if_pos hdone]
    cases e.detail <;> rfl
  · rw [if_neg (by simpa using hdone), if_neg hdone]

theorem addDetail_usage (h : usage.Shows t) (u : CallUsage ℚ) :
    ∃ next, usage.addDetail (exact base) (StageDetail.usage u).payload = some next ∧ next.Shows (t.more u) := by
  have hin : get "input_tokens" (StageDetail.usage u).payload = .int u.inputTokens := rfl
  have hout : get "output_tokens" (StageDetail.usage u).payload = .int u.outputTokens := rfl
  have hcost : get "cost_usd" (StageDetail.usage u).payload = (u.costUsd.map Value.float).getD .null := rfl
  unfold Usage.addDetail Totals.more
  rw [hin, hout, hcost, orZero_int, orZero_int, h.tokensIn, h.tokensOut, h.cost, costSofar_exact]
  cases u.costUsd with
  | none => exact ⟨_, rfl, ⟨rfl, rfl, rfl⟩⟩
  | some cost => exact ⟨_, rfl, ⟨rfl, rfl, rfl⟩⟩

theorem addDetail_nothing (h : usage.Shows t) {detail : List (String × Value ℚ)}
    (hin : get "input_tokens" detail = .null) (hout : get "output_tokens" detail = .null)
    (hcost : get "cost_usd" detail = .null) :
    ∃ next, usage.addDetail (exact base) detail = some next ∧ next.Shows (t.more .nothing) := by
  unfold Usage.addDetail
  rw [hin, hout, hcost, orZero_null, h.tokensIn, h.tokensOut]
  exact ⟨_, rfl, ⟨rfl, rfl, h.cost⟩⟩

theorem addDetail_payload (h : usage.Shows t) (detail : Option (StageDetail ℚ)) :
    ∃ next, usage.addDetail (exact base) ((detail.map StageDetail.payload).getD []) = some next ∧
      next.Shows (t.more ((detail.bind StageDetail.usage?).getD .nothing)) := by
  cases detail with
  | none => exact addDetail_nothing base h rfl rfl rfl
  | some detail =>
    cases detail with
    | usage u => exact addDetail_usage base h u
    | violations vs => exact addDetail_nothing base h rfl rfl rfl
    | error type message => cases message <;> exact addDetail_nothing base h rfl rfl rfl

/-- One frame, in the harness. -/
theorem stage_step {seen : List (StageEvent ℚ)} (h : usage.Shows (totals seen)) (e : StageEvent ℚ) :
    ∃ next, usage.stage (exact base) e.payload = some next ∧ next.Shows (totals (seen ++ [e])) := by
  rw [stage_payload, totals_snoc]
  by_cases hdone : e.kind = .model ∧ e.status = .done
  · rw [if_pos hdone, call?_eq e hdone.1 hdone.2]
    exact addDetail_payload base h e.detail
  · rw [if_neg hdone, call?_eq_none e hdone]
    exact ⟨usage, rfl, h⟩

/-- One frame, in the terminal, which asks for fields that every frame has. -/
theorem costStage_payload (usage : Usage ℚ) (e : StageEvent ℚ) :
    costStage (exact base) usage e.payload = usage.stage (exact base) e.payload := by
  have hkind : getItem "kind" e.payload = some (.str e.kind.text) := rfl
  have hstatus : getItem "status" e.payload = some (.str e.status.text) := rfl
  unfold costStage
  rw [hkind, hstatus]
  dsimp only [Option.bind_eq_bind, Option.bind_some]
  rw [isText_model, stage_payload]
  by_cases hmodel : e.kind = .model
  · rw [if_pos (decide_eq_true hmodel)]
  · rw [if_neg (by simpa using hmodel), if_neg fun hdone => hmodel hdone.1]

theorem stages_show (events : List (StageEvent ℚ)) :
    ∃ usage, (events.map StageEvent.payload).foldlM (Usage.stage (exact base)) {} = some usage ∧
      usage.Shows (totals events) := by
  rw [List.foldlM_map]
  exact foldlM_keeps (fun seen (usage : Usage ℚ) => usage.Shows (totals seen)) ⟨rfl, rfl, rfl⟩
    (fun _ e _ hshows => stage_step base hshows e) events

theorem costFold_payload (events : List (StageEvent ℚ)) : costFold (exact base) (events.map StageEvent.payload) =
    (events.map StageEvent.payload).foldlM (Usage.stage (exact base)) {} := by
  unfold costFold
  rw [List.foldlM_map, List.foldlM_map]
  simp only [costStage_payload]

end Folds

/-! ## Frames kept -/

/-- The frames that the harness and the terminal keep: all but those of a start. -/
def settled (events : List (StageEvent ℚ)) : List (StageEvent ℚ) := events.filter fun e => e.status ≠ .start

section Kept

theorem settled_snoc (seen : List (StageEvent ℚ)) (e : StageEvent ℚ) :
    settled (seen ++ [e]) = if e.status = .start then settled seen else settled seen ++ [e] := by
  unfold settled
  rw [List.filter_append]
  by_cases hstart : e.status = .start
  · rw [if_pos hstart, List.filter_cons_of_neg (by simpa using hstart), List.filter_nil, List.append_nil]
  · rw [if_neg hstart, List.filter_cons_of_pos (by simpa using hstart), List.filter_nil]

theorem totals_settled (events : List (StageEvent ℚ)) : totals (settled events) = totals events := by
  have hcalls : (settled events).filterMap StageEvent.call? = events.filterMap StageEvent.call? := by
    unfold settled
    rw [List.filterMap_filter]
    apply List.filterMap_congr
    intro e _
    by_cases hstart : e.status = .start
    · rw [call?_eq_none e fun hdone => by rw [hstart] at hdone; cases hdone.2]
      simp
    · simp [hstart]
  unfold totals
  rw [hcalls]

theorem frame_payload (obs : Observation ℚ) (e : StageEvent ℚ) :
    obs.frame WireName.stage.text (.obj e.payload) =
      .ok (if e.status = .start then obs else { obs with stages := obs.stages ++ [e.payload] }) := by
  unfold Observation.frame
  rw [if_pos rfl]
  dsimp only
  rw [get_status, isText_start]
  by_cases hstart : e.status = .start
  · rw [if_pos (decide_eq_true hstart), if_pos hstart]
  · rw [if_neg (by simpa using hstart), if_neg hstart]

/-- A reader that passes over the frames of a start, and keeps the others, keeps the settled ones. -/
theorem foldlM_settled {m : Type → Type} [Monad m] [LawfulMonad m] {σ : Type}
    (step : σ → List (String × Value ℚ) → m σ) (kept : List (List (String × Value ℚ)) → σ)
    (hstep : ∀ stages (e : StageEvent ℚ), step (kept stages) e.payload =
      pure (if e.status = .start then kept stages else kept (stages ++ [e.payload]))) (events : List (StageEvent ℚ)) :
    (events.map StageEvent.payload).foldlM step (kept []) = pure (kept ((settled events).map StageEvent.payload)) := by
  have hkeeps : ∃ last, events.foldlM (fun s e => step s e.payload) (kept []) = pure last ∧
      last = kept ((settled events).map StageEvent.payload) := by
    refine foldlM_keeps (fun seen s => s = kept ((settled seen).map StageEvent.payload)) rfl ?_ events
    rintro seen e s rfl
    refine ⟨_, hstep _ e, ?_⟩
    rw [settled_snoc]
    by_cases hstart : e.status = .start
    · rw [if_pos hstart, if_pos hstart]
    · rw [if_neg hstart, if_neg hstart, List.map_append]
      rfl
  obtain ⟨last, hfold, hlast⟩ := hkeeps
  rw [List.foldlM_map, hfold, hlast]

/-- The harness keeps the settled frames. -/
theorem observe_payload (caseId : String) (turn : Nat) (question : String) (events : List (StageEvent ℚ)) :
    observe caseId turn question (events.map StageEvent.payload) =
      .ok { caseId := caseId, turn := turn, question := question, stages := (settled events).map StageEvent.payload } := by
  have hfold := foldlM_settled (fun (obs : Observation ℚ) event => obs.frame WireName.stage.text (.obj event))
    (fun stages => { caseId := caseId, turn := turn, question := question, stages := stages })
    (fun _ e => frame_payload _ e) events
  unfold observe driveTurn
  dsimp only
  rw [List.foldlM_map, hfold]
  rfl

/-- So does the terminal. -/
theorem streamStage_payload (stages : List (List (String × Value ℚ))) (e : StageEvent ℚ) :
    streamStage stages e.payload = some (if e.status = .start then stages else stages ++ [e.payload]) := by
  have hstatus : getItem "status" e.payload = some (.str e.status.text) := rfl
  have hlabel : getItem "label" e.payload = some (.str e.label) := rfl
  unfold streamStage
  rw [hstatus, hlabel]
  dsimp only [Option.bind_eq_bind, Option.bind_some]
  rw [isText_start]
  by_cases hstart : e.status = .start
  · rw [if_pos (decide_eq_true hstart), if_pos hstart]
  · rw [if_neg (by simpa using hstart), if_neg hstart]

theorem streamStages_payload (events : List (StageEvent ℚ)) :
    streamStages (events.map StageEvent.payload) = some ((settled events).map StageEvent.payload) :=
  foldlM_settled streamStage id streamStage_payload events

/-- A gate refused the turn. -/
def StageEvent.Refuses {K : Type} (e : StageEvent K) : Prop :=
  (e.kind = .guardIn ∨ e.kind = .guardOut) ∧ e.status = .blocked

instance {K : Type} (e : StageEvent K) : Decidable e.Refuses := inferInstanceAs (Decidable (_ ∧ _))

theorem isText_refuses (e : StageEvent ℚ) :
    ((isText "guard_in" (get "kind" e.payload) || isText "guard_out" (get "kind" e.payload)) &&
      isText "blocked" (get "status" e.payload)) = decide e.Refuses := by
  have hin : isText "guard_in" (.str e.kind.text : Value ℚ) = decide (e.kind = .guardIn) := by
    cases e.kind <;> rfl
  have hout : isText "guard_out" (.str e.kind.text : Value ℚ) = decide (e.kind = .guardOut) := by
    cases e.kind <;> rfl
  rw [get_kind, get_status, isText_blocked, hin, hout, Bool.eq_iff_iff]
  simp only [Bool.and_eq_true, Bool.or_eq_true, decide_eq_true_eq]
  exact Iff.rfl

/-- The harness names the gates that refused. -/
theorem blockedBy_payload {obs : Observation ℚ} {events : List (StageEvent ℚ)}
    (h : obs.stages = (settled events).map StageEvent.payload) :
    obs.blockedBy = some (((settled events).filter fun e => e.Refuses).map fun e => .str e.name) := by
  have hname : ∀ e : StageEvent ℚ, (getItem "name" e.payload).bind hashed = some (.str e.name) := fun e => rfl
  unfold Observation.blockedBy
  rw [h, List.filter_map, List.mapM_map]
  simp only [Function.comp_def, isText_refuses, hname]
  exact List.mapM_pure

theorem refuses_settled (events : List (StageEvent ℚ)) :
    ((settled events).filter fun e => e.Refuses) ≠ [] ↔ ∃ e ∈ events, e.Refuses := by
  rw [ne_eq, List.filter_eq_nil_iff]
  simp only [decide_eq_true_eq, not_forall, not_not, exists_prop]
  constructor
  · rintro ⟨e, he, hrefuses⟩
    exact ⟨e, List.mem_of_mem_filter he, hrefuses⟩
  · rintro ⟨e, he, hrefuses⟩
    refine ⟨e, List.mem_filter.mpr ⟨he, ?_⟩, hrefuses⟩
    rw [hrefuses.2]
    rfl

end Kept

/-! ## Readers that agree -/

/-- The numbers are the same, and the costs are unknown together. -/
structure SameNumbers (acc : TurnAccumulator) (usage : Usage ℚ) : Prop where
  tokensIn : number? usage.tokensIn = some acc.tokensIn
  tokensOut : number? usage.tokensOut = some acc.tokensOut
  cost : usage.cost.map number? = acc.costUsd.map some

theorem sameNumbers_of_shows {acc : TurnAccumulator} {usage : Usage ℚ} {t : Totals} (hacc : acc.Shows t)
    (husage : usage.Shows t) : SameNumbers acc usage := by
  constructor
  · rw [husage.tokensIn, hacc.tokensIn]
    rfl
  · rw [husage.tokensOut, hacc.tokensOut]
    rfl
  · rw [husage.cost, hacc.costUsd]
    cases t.cost <;> rfl

/-- The browser, the terminal and the harness read the frames alike. -/
def ReadAlike (base : Operators ℚ) (events : List (StageEvent ℚ)) : Prop :=
  ∃ acc, (events.map StageEvent.payload).foldlM accumulateStage {} = some acc ∧
    (∃ stages usage, streamStages (events.map StageEvent.payload) = some stages ∧
      costFold (exact base) stages = some usage ∧ SameNumbers acc usage) ∧
    ∀ caseId turn question, ∃ obs usage gates, observe caseId turn question (events.map StageEvent.payload) = .ok obs ∧
      obs.usage (exact base) = some usage ∧ SameNumbers acc usage ∧
      obs.blockedBy = some gates ∧ (acc.blocked = true ↔ gates ≠ [])

section Agree
variable (base : Operators ℚ)

theorem settled_show (events : List (StageEvent ℚ)) :
    ∃ usage, ((settled events).map StageEvent.payload).foldlM (Usage.stage (exact base)) {} = some usage ∧
      usage.Shows (totals events) := by
  obtain ⟨usage, hfold, hshows⟩ := stages_show base (settled events)
  exact ⟨usage, hfold, totals_settled events ▸ hshows⟩

/-- The terminal prints what it added up, unless no token was counted. -/
theorem renderCost_payload (events : List (StageEvent ℚ)) : ∃ usage : Usage ℚ, usage.Shows (totals events) ∧
    (streamStages (events.map StageEvent.payload)).bind (renderCost (exact base)) =
      some (if (totals events).tokensIn = 0 ∧ (totals events).tokensOut = 0 then none else some usage) := by
  obtain ⟨usage, husage, hshows⟩ := settled_show base events
  refine ⟨usage, hshows, ?_⟩
  rw [streamStages_payload, Option.bind_some, renderCost, costFold_payload, husage, Option.map_some, hshows.tokensIn,
    hshows.tokensOut]
  by_cases hnone : (totals events).tokensIn = 0 ∧ (totals events).tokensOut = 0
  · rw [if_pos hnone, hnone.1, hnone.2]
    rfl
  · rw [if_neg hnone, if_pos]
    simp only [exact, Bool.or_eq_true, decide_eq_true_eq, ne_eq, Int.natCast_eq_zero]
    exact not_and_or.mp hnone

/-- The numbers are always the same: what may differ is the block. -/
theorem readAlike_iff (events : List (StageEvent ℚ)) :
    ReadAlike base events ↔ ((∃ e ∈ events, e.status = .blocked) ↔ ∃ e ∈ events, e.Refuses) := by
  obtain ⟨acc, hacc, hshows, hblocked⟩ := accumulate_shows events
  obtain ⟨usage, husage, hcost⟩ := settled_show base events
  have hsame := sameNumbers_of_shows hshows hcost
  have hgates : ∀ caseId turn question, ∃ obs : Observation ℚ,
      observe caseId turn question (events.map StageEvent.payload) = .ok obs ∧ obs.usage (exact base) = some usage ∧
      obs.blockedBy = some (((settled events).filter fun e => e.Refuses).map fun e => .str e.name) :=
    fun caseId turn question => ⟨_, observe_payload caseId turn question events, husage, blockedBy_payload rfl⟩
  constructor
  · rintro ⟨acc', hacc', -, hobserved⟩
    obtain rfl : acc = acc' := Option.some.inj (hacc.symm.trans hacc')
    obtain ⟨obs, usage', gates, hobs, -, -, hby, hiff⟩ := hobserved "" 0 ""
    obtain ⟨obs', hobs', -, hby'⟩ := hgates "" 0 ""
    obtain rfl : obs = obs' := Except.ok.inj (hobs.symm.trans hobs')
    rw [← hblocked, hiff, ← refuses_settled, Option.some.inj (hby.symm.trans hby'), ne_eq, List.map_eq_nil_iff]
  · intro h
    refine ⟨acc, hacc, ⟨_, usage, streamStages_payload events, ?_, hsame⟩, ?_⟩
    · rw [costFold_payload, husage]
    · intro caseId turn question
      obtain ⟨obs, hobs, hused, hby⟩ := hgates caseId turn question
      refine ⟨obs, usage, _, hobs, hused, hsame, hby, ?_⟩
      rw [hblocked, h, ← refuses_settled, ne_eq, ne_eq, List.map_eq_nil_iff]

/-- **The readers agree** exactly where no frame is blocked, or a gate's is. -/
theorem readers_agree_iff (events : List (StageEvent ℚ)) :
    ReadAlike base events ↔ ((∃ e ∈ events, e.status = .blocked) → ∃ e ∈ events, e.Refuses) := by
  rw [readAlike_iff]
  constructor
  · exact Iff.mp
  · rintro h
    exact ⟨h, fun ⟨e, he, hrefuses⟩ => ⟨e, he, hrefuses.2⟩⟩

end Agree

/-! ## Turns -/

section Turns
variable (base : Operators ℚ) {spec : GuardSpec} {mode : Mode} {history : List Message} {n : Narrated ℚ}

theorem returned_unblocked {calls : List (String × Nat)} {emitted : List (StageEvent ℚ)}
    (h : Interleaved (calls.map fun call => (ToolOutcome.returned call.2).frames call.1) emitted) :
    ∀ e ∈ emitted, e.status ≠ .blocked := by
  intro e he
  obtain ⟨l, hl, hmem⟩ := (h.mem_iff e).mp he
  obtain ⟨call, -, rfl⟩ := List.mem_map.mp hl
  rcases List.mem_cons.mp hmem with rfl | hmem
  · exact nofun
  · obtain rfl := List.mem_singleton.mp hmem
    exact nofun

theorem call_unblocked (call : ModelCall ℚ) (calls : List String) : ∀ e ∈ call.frames calls, e.status ≠ .blocked := by
  intro e he
  rcases List.mem_cons.mp he with rfl | he
  · exact nofun
  · obtain rfl := List.mem_singleton.mp he
    exact nofun

/-- A loop that comes to its answer has blocked nothing. -/
theorem loopFrames_unblocked {content : Content} {call : ModelCall ℚ} (h : n.ending = .answers content call) :
    ∀ e ∈ n.loopFrames, e.status ≠ .blocked := by
  intro e he
  rcases List.mem_append.mp he with he | he
  · obtain ⟨r, -, he⟩ := List.mem_flatMap.mp he
    rcases List.mem_append.mp he with he | he
    · exact call_unblocked _ _ e he
    · exact returned_unblocked r.interleaved e he
  · rw [h] at he
    exact call_unblocked _ _ e he

theorem not_refuses {e : StageEvent ℚ} (h : e.kind = .model ∨ e.kind = .tool) : ¬ e.Refuses := by
  rintro ⟨hgate, -⟩
  rcases h with h | h <;> rcases hgate with hgate | hgate <;> exact absurd (h.symm.trans hgate) (by decide)

/-- What raises leaves frames of the loop, and no gate's after them. -/
theorem raised_readAlike_iff {opened : StageEvent ℚ} (h : opened.status ≠ .blocked) :
    ((∃ e ∈ opened :: n.loopFrames, e.status = .blocked) ↔ ∃ e ∈ opened :: n.loopFrames, e.Refuses) ↔
      ∀ e ∈ n.loopFrames, e.status ≠ .blocked := by
  have hno : ¬ ∃ e ∈ opened :: n.loopFrames, e.Refuses := by
    rintro ⟨e, he, hrefuses⟩
    rcases List.mem_cons.mp he with rfl | he
    · exact h hrefuses.2
    · exact not_refuses (loopFrames_kind e he) hrefuses
  rw [iff_false_right hno]
  constructor
  · intro hunblocked e he hblocked
    exact hunblocked ⟨e, List.mem_cons_of_mem _ he, hblocked⟩
  · rintro hunblocked ⟨e, he, hblocked⟩
    rcases List.mem_cons.mp he with rfl | he
    · exact h hblocked
    · exact hunblocked e he hblocked

/-- **A turn is read alike** exactly where the input gate refused it, or no call of its loop was blocked. -/
theorem run_readAlike_iff : ReadAlike base (n.run spec mode history).1 ↔
    Refused spec mode n.turn ∨ ∀ e ∈ n.loopFrames, e.status ≠ .blocked := by
  rw [readAlike_iff]
  by_cases hrefused : Refused spec mode n.turn
  · refine iff_of_true ?_ (Or.inl hrefused)
    rw [run_refused hrefused]
    exact iff_of_true ⟨_, List.mem_cons_self, rfl⟩ ⟨_, List.mem_cons_self, Or.inl rfl, rfl⟩
  · rw [or_iff_right hrefused]
    have hopen := (@openCell_kind ℚ mode (n.gateNs .guardIn)).2.2
    cases hending : n.ending with
    | answers content call =>
      refine iff_of_true ⟨?_, fun ⟨e, he, hrefuses⟩ => ⟨e, he, hrefuses.2⟩⟩ (loopFrames_unblocked hending)
      rw [run_through hrefused hending]
      rintro ⟨e, he, hblocked⟩
      refine ⟨e, he, ?_, hblocked⟩
      -- the only frame that can be blocked is the output gate's
      rcases List.mem_append.mp he with he | he
      · rcases List.mem_cons.mp he with rfl | he
        · exact absurd hblocked hopen
        · exact absurd hblocked (loopFrames_unblocked hending e he)
      · rcases List.mem_cons.mp he with rfl | he
        · exact Or.inr (closeCell_kind _ _).1
        · obtain rfl := List.mem_singleton.mp he
          cases hblocked
    | modelRaises ns error message | toolRaises content call calls emitted interleaved =>
      rw [run_raised hrefused (n.raises (by rw [hending]; rfl))]
      exact raised_readAlike_iff hopen

end Turns

/-! The model of a turn raises: the browser shows a refusal, and no gate refused. -/

def raisedTurn : Narrated ℚ where
  message := "oi"
  gateNs _ := 1600
  ending := .modelRaises 5000000 "TimeoutError" "upstream"

theorem raised_read_otherwise :
    (((raisedTurn.run noSecret .both []).1.map StageEvent.payload).foldlM accumulateStage {}).map
      TurnAccumulator.blocked = some true ∧
    (((observe "oi" 0 "oi" ((raisedTurn.run noSecret .both []).1.map StageEvent.payload)).toOption.bind
      Observation.blockedBy).map List.length) = some 0 ∧
    ∀ base, ¬ ReadAlike base (raisedTurn.run noSecret .both []).1 := by
  refine ⟨by decide, by decide, ?_⟩
  intro base h
  rw [run_readAlike_iff] at h
  rcases h with hrefused | hunblocked
  · exact absurd hrefused (by decide)
  · exact absurd hunblocked (by decide)

end BankingControlPlane
