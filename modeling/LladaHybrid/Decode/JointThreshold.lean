import LladaHybrid.Library.Loop
import LladaHybrid.Decode.Prediction

namespace LladaHybrid.Decode

open LladaHybrid.Library

structure ForwardOutput (R B V : Nat) (K : Type*) where
  fullLogits : Fin R → Logits B V K
  canRunGraph : Bool

/-- `model_runner.forward` on a batch of `R` blocks. The state `σ` holds whatever
a forward writes, so successive forwards may return arbitrary logits. -/
structure ModelRunner (σ : Type*) (R B V : Nat) (K : Type*) where
  forward : σ → (Fin R → Block B V) → ForwardOutput R B V K × σ

/-- What `DllmAlgorithm.run` leaves behind: the tokens the batch holds on return
beside the returned values. -/
structure RunResult (σ : Type*) (R B V : Nat) (K : Type*) where
  inputIds : Fin R → Block B V
  logitsOutput : ForwardOutput R B V K
  nextTokenIdsList : List (List (Fin V))
  runner : σ

variable {σ : Type*} {R B V : Nat} {K : Type*}

/-- `[next_token_ids[i, start_list[i]:] for i in range(batch_size)]`. -/
def tokensFrom (ids : Fin R → Block B V) (start : Fin R → Nat) :
    List (List (Fin V)) :=
  List.ofFn (fun i => (List.ofFn (ids i)).drop (start i))

/-- The keys `JointThreshold.__init__` reads from `algorithm_config`. -/
structure AlgorithmConfig (K : Type*) where
  threshold : Option (Conf K)
  editThreshold : Option (Conf K)
  maxPostEditSteps : Option Int
  penaltyLambda : Option K

structure JointThreshold (V : Nat) (K : Type*) where
  maskId : Fin V
  threshold : Conf K
  editThreshold : Conf K
  maxPostEditSteps : Int
  penaltyLambda : K

namespace JointThreshold

def ofConfig [Field K] (maskId : Fin V) (config : AlgorithmConfig K) :
    JointThreshold V K where
  maskId
  threshold := config.threshold.getD ((0.5 : K) : WithTop K)
  editThreshold := config.editThreshold.getD ((0 : K) : WithTop K)
  maxPostEditSteps := config.maxPostEditSteps.getD 16
  penaltyLambda := config.penaltyLambda.getD 0

structure RowState (B V : Nat) where
  inputIds : Block B V
  promptMask : Finset (Fin B)
  postEditSteps : Nat
  finished : Bool

def initialRow (alg : JointThreshold V K) (ids : Block B V) : RowState B V where
  inputIds := ids
  promptMask := (maskIndex alg.maskId ids)ᶜ
  postEditSteps := 0
  finished := false

structure LoopState (σ : Type*) (R B V : Nat) (K : Type*) where
  rows : Fin R → RowState B V
  runner : σ
  logitsOutput : Option (ForwardOutput R B V K)
  anyChangedInLastStep : Bool

def LoopState.inputIds (s : LoopState σ R B V K) (i : Fin R) : Block B V :=
  (s.rows i).inputIds

def LoopState.allFinished (s : LoopState σ R B V K) : Bool :=
  decide (∀ i, (s.rows i).finished = true)

theorem LoopState.allFinished_alone (s : LoopState σ 1 B V K) :
    s.allFinished = (s.rows 0).finished := by
  simp [LoopState.allFinished]

def initial (alg : JointThreshold V K) (runner : σ) (ids : Fin R → Block B V) :
    LoopState σ R B V K where
  rows i := alg.initialRow (ids i)
  runner
  logitsOutput := none
  anyChangedInLastStep := false

def maxIterations (alg : JointThreshold V K) (B : Nat) : Nat :=
  (B + alg.maxPostEditSteps).toNat

def startList (alg : JointThreshold V K) (ids : Fin R → Block B V) (i : Fin R) : Nat :=
  (alg.initialRow (ids i)).promptMask.card

/-- The commit pass after the loop and the returned values; `none` where the
source fails on the unbound `logits_output` of a loop that made no pass. -/
def finish (alg : JointThreshold V K) (model : ModelRunner σ R B V K)
    (ids : Fin R → Block B V) (s : LoopState σ R B V K) :
    Option (RunResult σ R B V K) :=
  let nextTokenIdsList := tokensFrom s.inputIds (alg.startList ids)
  if s.anyChangedInLastStep then
    some
      { inputIds := s.inputIds
        logitsOutput := (model.forward s.runner s.inputIds).1
        nextTokenIdsList
        runner := (model.forward s.runner s.inputIds).2 }
  else
    s.logitsOutput.map (fun logitsOutput =>
      { inputIds := s.inputIds, logitsOutput, nextTokenIdsList, runner := s.runner })

theorem finish_inputIds {alg : JointThreshold V K} {model : ModelRunner σ R B V K}
    {ids : Fin R → Block B V} {s : LoopState σ R B V K} {res : RunResult σ R B V K}
    (hres : alg.finish model ids s = some res) :
    res.inputIds = s.inputIds ∧
      res.nextTokenIdsList = tokensFrom s.inputIds (alg.startList ids) := by
  rw [finish] at hres
  split_ifs at hres with hchanged
  · obtain rfl := Option.some.inj hres
    exact ⟨rfl, rfl⟩
  · obtain ⟨out, -, rfl⟩ := Option.map_eq_some_iff.mp hres
    exact ⟨rfl, rfl⟩

section Penalty

variable [Field K] [LinearOrder K]

/-- `curr_logits[1:].scatter_(1, prev_ids, -penalty_lambda, reduce="add")`. -/
def penalisePrevious (lam : K) (ids : Block B V) (logits : Logits B V K) :
    Logits B V K := fun j =>
  if 0 < j.val then
    let previous := ids ⟨j.val - 1, (Nat.sub_le _ _).trans_lt j.isLt⟩
    Function.update (logits j) previous (logits j previous + -lam)
  else
    logits j

def penalised (alg : JointThreshold V K) (ids : Block B V) (logits : Logits B V K) :
    Logits B V K :=
  if 0 < alg.penaltyLambda then penalisePrevious alg.penaltyLambda ids logits
  else logits

theorem penalised_of_zero {alg : JointThreshold V K} (hzero : alg.penaltyLambda = 0)
    (ids : Block B V) (logits : Logits B V K) : alg.penalised ids logits = logits := by
  rw [penalised, hzero, if_neg (lt_irrefl 0)]

end Penalty

section Row

variable [LinearOrder K]

/-- Token to token. -/
def editTransferIndex (alg : JointThreshold V K) (masks promptMask : Finset (Fin B))
    (pred : Prediction B V K) (ids : Block B V) : Finset (Fin B) :=
  Finset.univ.filter (fun j =>
    alg.editThreshold < ((pred.prob j : WithTop K) : Conf K) ∧
      ids j ≠ pred.token j ∧ j ∉ masks ∧ j ∉ promptMask)

theorem mem_editTransferIndex {alg : JointThreshold V K}
    {masks promptMask : Finset (Fin B)} {pred : Prediction B V K} {ids : Block B V}
    {j : Fin B} :
    j ∈ alg.editTransferIndex masks promptMask pred ids ↔
      alg.editThreshold < ((pred.prob j : WithTop K) : Conf K) ∧
        ids j ≠ pred.token j ∧ j ∉ masks ∧ j ∉ promptMask := by
  simp [editTransferIndex]

variable [TopK K]

/-- Mask to token. -/
def maskTransferIndex (alg : JointThreshold V K) (masks : Finset (Fin B))
    (prob : Fin B → K) : Finset (Fin B) :=
  if masks.Nonempty then confidentOrBest alg.threshold (confidence masks prob) else ∅

def transferIndex (alg : JointThreshold V K) (row : RowState B V)
    (pred : Prediction B V K) : Finset (Fin B) :=
  let masks := maskIndex alg.maskId row.inputIds
  alg.maskTransferIndex masks pred.prob ∪
    alg.editTransferIndex masks row.promptMask pred row.inputIds

theorem transferIndex_of_no_masks (alg : JointThreshold V K) {row : RowState B V}
    (pred : Prediction B V K) (hnone : ¬(maskIndex alg.maskId row.inputIds).Nonempty) :
    alg.transferIndex row pred =
      alg.editTransferIndex (maskIndex alg.maskId row.inputIds) row.promptMask pred
        row.inputIds := by
  rw [transferIndex, maskTransferIndex, if_neg hnone, Finset.empty_union]

theorem exists_mask_mem_transferIndex (alg : JointThreshold V K) {row : RowState B V}
    (pred : Prediction B V K) (hmask : (maskIndex alg.maskId row.inputIds).Nonempty) :
    ∃ j ∈ maskIndex alg.maskId row.inputIds, j ∈ alg.transferIndex row pred := by
  obtain ⟨j, hj⟩ := confidentOrBest_nonempty alg.threshold pred.prob hmask
  refine ⟨j, confidentOrBest_subset alg.threshold pred.prob hmask hj, ?_⟩
  rw [transferIndex, maskTransferIndex, if_pos hmask]
  exact Finset.mem_union_left _ hj

theorem notMem_transferIndex {alg : JointThreshold V K} {row : RowState B V}
    (pred : Prediction B V K) {j : Fin B} (hprompt : j ∈ row.promptMask)
    (hmask : row.inputIds j ≠ alg.maskId) : j ∉ alg.transferIndex row pred := by
  have hnot : j ∉ maskIndex alg.maskId row.inputIds := by simpa using hmask
  simp only [transferIndex, maskTransferIndex, Finset.mem_union,
    mem_editTransferIndex, not_or]
  refine ⟨?_, fun hedit => hedit.2.2.2 hprompt⟩
  split_ifs with hmasks
  · exact fun hmem => hnot (confidentOrBest_subset _ _ hmasks hmem)
  · exact Finset.notMem_empty j

variable [Field K] [ExpOps K] [NeZero V]

/-- `post_edit_steps[i]` after the increment of a request without masks. -/
def nextPostEditSteps (alg : JointThreshold V K) (row : RowState B V) : Nat :=
  if (maskIndex alg.maskId row.inputIds).Nonempty then row.postEditSteps
  else row.postEditSteps + 1

/-- The body of the per-request loop for an unfinished request, on its penalised
logits; the flag says whether it set `any_changed_in_last_step`. -/
def rowStep (alg : JointThreshold V K) (logits : Logits B V K)
    (row : RowState B V) : RowState B V × Bool :=
  let pred := predict logits
  let hasMask := (maskIndex alg.maskId row.inputIds).Nonempty
  let postEditSteps := alg.nextPostEditSteps row
  let transfer := alg.transferIndex row pred
  if ¬hasMask ∧ alg.maxPostEditSteps < postEditSteps then
    ({ row with postEditSteps, finished := true }, false)
  else if transfer = ∅ then
    ({ row with postEditSteps, finished := true }, false)
  else
    ({ row with
        postEditSteps
        inputIds := transferTokens row.inputIds pred.token transfer }, true)

theorem rowStep_cases (alg : JointThreshold V K) (logits : Logits B V K)
    (row : RowState B V) :
    ((¬(maskIndex alg.maskId row.inputIds).Nonempty ∧
          alg.maxPostEditSteps < alg.nextPostEditSteps row ∨
        alg.transferIndex row (predict logits) = ∅) ∧
      alg.rowStep logits row =
        ({ row with
            postEditSteps := alg.nextPostEditSteps row
            finished := true }, false)) ∨
    (¬(¬(maskIndex alg.maskId row.inputIds).Nonempty ∧
          alg.maxPostEditSteps < alg.nextPostEditSteps row) ∧
      alg.transferIndex row (predict logits) ≠ ∅ ∧
      alg.rowStep logits row =
        ({ row with
            postEditSteps := alg.nextPostEditSteps row
            inputIds := transferTokens row.inputIds (predict logits).token
              (alg.transferIndex row (predict logits)) }, true)) := by
  simp only [rowStep]
  split_ifs with hexhausted hempty
  · exact Or.inl ⟨Or.inl hexhausted, rfl⟩
  · exact Or.inl ⟨Or.inr hempty, rfl⟩
  · exact Or.inr ⟨hexhausted, hempty, rfl⟩

end Row

section Run

variable [Field K] [LinearOrder K] [ExpOps K] [TopK K] [NeZero V]

/-- One pass of the loop: a forward, then the update of every unfinished request.
The penalty is written into the forward's own logits. -/
def iterate (alg : JointThreshold V K) (model : ModelRunner σ R B V K)
    (s : LoopState σ R B V K) : LoopState σ R B V K :=
  let out := (model.forward s.runner s.inputIds).1
  let logits : Fin R → Logits B V K := fun i =>
    if (s.rows i).finished then out.fullLogits i
    else alg.penalised (s.inputIds i) (out.fullLogits i)
  { rows := fun i =>
      if (s.rows i).finished then s.rows i else (alg.rowStep (logits i) (s.rows i)).1
    runner := (model.forward s.runner s.inputIds).2
    logitsOutput := some { out with fullLogits := logits }
    anyChangedInLastStep := decide (∃ i,
      (s.rows i).finished = false ∧ (alg.rowStep (logits i) (s.rows i)).2 = true) }

theorem iterate_rows_of_finished (alg : JointThreshold V K)
    (model : ModelRunner σ R B V K) {s : LoopState σ R B V K} {i : Fin R}
    (hfinished : (s.rows i).finished = true) :
    (alg.iterate model s).rows i = s.rows i := by
  simp only [iterate, hfinished, if_true]

theorem iterate_rows_of_running (alg : JointThreshold V K)
    (model : ModelRunner σ R B V K) {s : LoopState σ R B V K} {i : Fin R}
    (hrunning : (s.rows i).finished = false) :
    (alg.iterate model s).rows i =
      (alg.rowStep (alg.penalised (s.inputIds i)
        ((model.forward s.runner s.inputIds).1.fullLogits i)) (s.rows i)).1 := by
  simp only [iterate, hrunning, Bool.false_eq_true, if_false]

def denoise (alg : JointThreshold V K) (model : ModelRunner σ R B V K) (runner : σ)
    (ids : Fin R → Block B V) : LoopState σ R B V K :=
  boundedLoop LoopState.allFinished (alg.iterate model) (alg.maxIterations B)
    (alg.initial runner ids)

def run (alg : JointThreshold V K) (model : ModelRunner σ R B V K) (runner : σ)
    (ids : Fin R → Block B V) : Option (RunResult σ R B V K) :=
  if ∀ i, maskIndex alg.maskId (ids i) = ∅ then
    some
      { inputIds := ids
        logitsOutput := (model.forward runner ids).1
        nextTokenIdsList := []
        runner := (model.forward runner ids).2 }
  else
    alg.finish model ids (alg.denoise model runner ids)

end Run

end JointThreshold

end LladaHybrid.Decode
