import LladaHybrid.Generate.Loop
import LladaHybrid.Decode.FinalTokens

namespace LladaHybrid.Generate

open LladaHybrid.Library LladaHybrid.Decode

variable {σ : Type*} {B V : Nat} {K : Type*}

/-! The inner loop of `generate` and `JointThreshold.run` are one decoder. -/

/-- The served decoder with the thresholds of a `generate` call. -/
def GenerateArgs.jointThreshold [Zero K] (args : GenerateArgs V K) :
    JointThreshold V K where
  maskId := args.maskId
  threshold := args.threshold
  editThreshold := args.editingThreshold
  maxPostEditSteps := args.maxPostSteps
  penaltyLambda := 0

theorem anyMask_alone (args : GenerateArgs V K) {n : Nat} {x : Tokens B V}
    {g : DenoiseState 1 B V} {block : Block B V}
    (htokens : g.x = fun _ => Function.update x n block) :
    g.anyMask args n ↔ (maskIndex args.maskId block).Nonempty := by
  simp [DenoiseState.anyMask, htokens]

section Transfer

variable [LinearOrder K]

theorem editingTransferIndex_eq [Zero K] (args : GenerateArgs V K)
    (promptLength n : Nat) (pred : Prediction B V K) (old : Block B V) :
    editingTransferIndex args promptLength n pred old =
      args.jointThreshold.editTransferIndex (maskIndex args.maskId old)
        (promptMaskInBlock promptLength n) pred old := by
  ext j
  rw [JointThreshold.mem_editTransferIndex, mem_editingTransferIndex]
  simp only [mem_maskIndex]
  exact ⟨fun hedit => ⟨hedit.2.2.1, hedit.2.2.2.symm, hedit.1, hedit.2.1⟩,
    fun hedit => ⟨hedit.2.2.1, hedit.2.2.2, hedit.1, hedit.2.1.symm⟩⟩

variable [TopK K]

theorem maskTransferIndex_of_one {args : GenerateArgs V K}
    (hone : args.numToTransfer = 1) (active : Finset (Fin B)) (prob : Fin B → K) :
    maskTransferIndex args active prob =
      if active.Nonempty then confidentOrBest args.threshold (confidence active prob)
      else ∅ := by
  simp only [maskTransferIndex]
  rw [confidentOrBest, hone,
    Finset.inter_eq_left.mpr (aboveThreshold_confidence_subset active prob _)]
  by_cases hactive : active = ∅
  · simp [hactive]
  · have hnonempty := Finset.nonempty_iff_ne_empty.mpr hactive
    have hcard : 1 ≤ active.card := hnonempty.card_pos
    have hk : (min (1 : Int) active.card).toNat = 1 := by omega
    simp only [hactive, if_false, hnonempty, if_true, hk, Nat.one_le_cast,
      Finset.one_le_card]

end Transfer

section Lockstep

variable {args : GenerateArgs V K} {promptLength n : Nat}
  {read : ReadWindow 1 B V n K} {oracle : Block B V → Logits B V K}
  {model : ModelRunner σ 1 B V K} {x : Fin 1 → Tokens B V}
  {g : DenoiseState 1 B V} {row : JointThreshold.RowState B V}

structure Lockstep (args : GenerateArgs V K) (promptLength n : Nat)
    (x : Fin 1 → Tokens B V) (g : DenoiseState 1 B V)
    (row : JointThreshold.RowState B V) : Prop where
  tokens : g.x = fun _ => Function.update (x 0) n row.inputIds
  promptMask : row.promptMask = promptMaskInBlock promptLength n
  postSteps : g.postSteps = row.postEditSteps
  stopped : g.stopped = row.finished
  within : g.stopped = false → (g.postSteps : Int) ≤ args.maxPostSteps

theorem Lockstep.nextPostSteps [Zero K]
    (hrel : Lockstep args promptLength n x g row) :
    g.nextPostSteps args n = args.jointThreshold.nextPostEditSteps row := by
  rw [DenoiseState.nextPostSteps, JointThreshold.nextPostEditSteps, hrel.postSteps]
  exact if_congr (anyMask_alone args hrel.tokens) rfl rfl

theorem lockstep_initial [Zero K] (hnonneg : 0 ≤ args.maxPostSteps)
    (hprompt : ∀ j, j ∈ promptMaskInBlock promptLength n ↔ x 0 n j ≠ args.maskId) :
    Lockstep args promptLength n x ⟨x, 0, false⟩
      (args.jointThreshold.initialRow (x 0 n)) := by
  refine ⟨?_, ?_, rfl, rfl, fun _ => hnonneg⟩
  · funext r
    rw [Fin.fin_one_eq_zero r]
    exact (Function.update_eq_self n (x 0)).symm
  · ext j
    rw [hprompt j]
    simp [JointThreshold.initialRow, GenerateArgs.jointThreshold]

variable [Field K] [LinearOrder K]

theorem rowPrediction_of_one [ExpOps K] [NeZero B] [NeZero V]
    (hpenalty : args.repetitionPenalty = 1) (logits : Logits B V K)
    (x : Tokens B V) : rowPrediction args n logits x = predict logits := by
  rw [rowPrediction, repetitionPenalised, if_pos hpenalty]

variable [TopK K]

theorem rowUpdate_eq_transferIndex (hone : args.numToTransfer = 1)
    (pred : Prediction B V K) {row : JointThreshold.RowState B V}
    (hprompt : row.promptMask = promptMaskInBlock promptLength n)
    (x : Tokens B V) :
    rowUpdate args promptLength n pred (Function.update x n row.inputIds) =
      Function.update x n (transferTokens row.inputIds pred.token
        (args.jointThreshold.transferIndex row pred)) := by
  simp only [rowUpdate, Function.update_self, Function.update_idem,
    maskTransferIndex_of_one hone, editingTransferIndex_eq,
    JointThreshold.transferIndex, JointThreshold.maskTransferIndex, hprompt]
  rfl

variable [ExpOps K] [NeZero V]

theorem iterate_row_alone (args : GenerateArgs V K)
    (hmodel : ∀ s ids, (model.forward s ids).1.fullLogits 0 = oracle (ids 0))
    {s : JointThreshold.LoopState σ 1 B V K} (hrunning : (s.rows 0).finished = false) :
    (args.jointThreshold.iterate model s).rows 0 =
      (args.jointThreshold.rowStep (oracle (s.rows 0).inputIds) (s.rows 0)).1 := by
  rw [JointThreshold.iterate_rows_of_running _ model hrunning,
    JointThreshold.penalised_of_zero rfl, hmodel, JointThreshold.LoopState.inputIds]

variable [NeZero B]

theorem Lockstep.denoiseStep_eq (hone : args.numToTransfer = 1)
    (hpenalty : args.repetitionPenalty = 1)
    (hread : ∀ block,
      read (fun _ => window (Function.update (x 0) n block) n) 0 = oracle block)
    (hrel : Lockstep args promptLength n x g row)
    (hwithin : ¬ args.maxPostSteps < g.nextPostSteps args n) :
    denoiseStep args promptLength n read g =
      let pred := predict (oracle row.inputIds)
      { x := fun _ => Function.update (x 0) n (transferTokens row.inputIds pred.token
          (args.jointThreshold.transferIndex row pred))
        postSteps := args.jointThreshold.nextPostEditSteps row
        stopped := decide (args.jointThreshold.transferIndex row pred = ∅) } := by
  have hmask := anyMask_alone args hrel.tokens
  have hpred : ∀ r, rowPrediction args n (read (fun r => window (g.x r) n) r) (g.x r) =
      predict (oracle row.inputIds) := by
    intro r
    rw [rowPrediction_of_one hpenalty, Fin.fin_one_eq_zero r, hrel.tokens, hread]
  have hstop : decide (¬ g.anyMask args n ∧ ∀ r : Fin 1,
      editingTransferIndex args promptLength n (predict (oracle row.inputIds))
        (g.x r n) = ∅) =
      decide (args.jointThreshold.transferIndex row
        (predict (oracle row.inputIds)) = ∅) := by
    rw [decide_eq_decide]
    by_cases hany : g.anyMask args n
    · obtain ⟨j, -, hj⟩ := args.jointThreshold.exists_mask_mem_transferIndex
        (predict (oracle row.inputIds)) (hmask.mp hany)
      exact iff_of_false (fun h => h.1 hany) (Finset.ne_empty_of_mem hj)
    · rw [args.jointThreshold.transferIndex_of_no_masks _ (fun h => hany (hmask.mpr h))]
      simp only [hany, not_false_eq_true, true_and, hrel.tokens, Function.update_self,
        editingTransferIndex_eq, hrel.promptMask, forall_const]
      rfl
  rw [denoiseStep_of_within hwithin hpred, hrel.nextPostSteps,
    hstop]
  simp only [hrel.tokens, rowUpdate_eq_transferIndex hone _ hrel.promptMask]

theorem Lockstep.rowStep (hone : args.numToTransfer = 1)
    (hpenalty : args.repetitionPenalty = 1)
    (hread : ∀ block,
      read (fun _ => window (Function.update (x 0) n block) n) 0 = oracle block)
    (hrel : Lockstep args promptLength n x g row) (hrunning : g.stopped = false) :
    Lockstep args promptLength n x (denoiseStep args promptLength n read g)
      (args.jointThreshold.rowStep (oracle row.inputIds) row).1 := by
  have hmask := anyMask_alone args hrel.tokens
  by_cases hexhausted : args.maxPostSteps < g.nextPostSteps args n
  · have hnone : ¬(maskIndex args.jointThreshold.maskId row.inputIds).Nonempty := by
      intro hmasks
      rw [DenoiseState.nextPostSteps, if_pos (hmask.mpr hmasks)] at hexhausted
      exact absurd (hrel.within hrunning) (not_le.mpr hexhausted)
    rw [denoiseStep_of_exhausted hexhausted]
    rw [hrel.nextPostSteps] at hexhausted ⊢
    rw [JointThreshold.rowStep, if_pos ⟨hnone, hexhausted⟩]
    exact ⟨hrel.tokens, hrel.promptMask, rfl, rfl, fun hfalse => Bool.noConfusion hfalse⟩
  · rw [hrel.denoiseStep_eq hone hpenalty hread hexhausted]
    rw [hrel.nextPostSteps] at hexhausted
    rw [JointThreshold.rowStep, if_neg (fun hover => hexhausted hover.2)]
    split_ifs with hquiet
    · refine ⟨?_, hrel.promptMask, rfl, decide_eq_true hquiet, fun _ => not_lt.mp hexhausted⟩
      simp only [hquiet, transferTokens_empty]
    · refine ⟨rfl, hrel.promptMask, rfl, ?_, fun _ => not_lt.mp hexhausted⟩
      exact (decide_eq_false hquiet).trans (hrel.stopped ▸ hrunning).symm

theorem denoise_lockstep (hone : args.numToTransfer = 1)
    (hpenalty : args.repetitionPenalty = 1) (hnonneg : 0 ≤ args.maxPostSteps)
    (hread : ∀ block,
      read (fun _ => window (Function.update (x 0) n block) n) 0 = oracle block)
    (hmodel : ∀ s ids, (model.forward s ids).1.fullLogits 0 = oracle (ids 0))
    (hprompt : ∀ j, j ∈ promptMaskInBlock promptLength n ↔ x 0 n j ≠ args.maskId)
    (runner : σ) :
    Lockstep args promptLength n x
      (boundedLoop DenoiseState.stopped (denoiseStep args promptLength n read)
        (args.jointThreshold.maxIterations B) ⟨x, 0, false⟩)
      ((args.jointThreshold.denoise model runner (fun _ => x 0 n)).rows 0) := by
  refine boundedLoop_related
    (fun g (s : JointThreshold.LoopState σ 1 B V K) =>
      Lockstep args promptLength n x g (s.rows 0)) ?_ ?_ ?_ _ ?_
  · intro g s hrel hdone
    rw [JointThreshold.LoopState.allFinished_alone, ← hrel.stopped]
    exact hdone
  · intro g s hrel hrunning hunfinished
    rw [JointThreshold.LoopState.allFinished_alone] at hunfinished
    rw [iterate_row_alone args hmodel hunfinished]
    exact hrel.rowStep hone hpenalty hread hrunning
  · intro g s hrel hrunning hfinished
    rw [JointThreshold.LoopState.allFinished_alone, ← hrel.stopped, hrunning] at hfinished
    exact Bool.noConfusion hfinished
  · exact lockstep_initial hnonneg hprompt

/-- What is left to do in a block: masks to fill and post-edit steps to spend. -/
def remainingWork (args : GenerateArgs V K) (n : Nat) (g : DenoiseState 1 B V) : Nat :=
  (maskIndex args.maskId (g.x onlyRow n)).card + (args.maxPostSteps - g.postSteps).toNat

theorem Lockstep.remainingWork_lt (hone : args.numToTransfer = 1)
    (hpenalty : args.repetitionPenalty = 1)
    (hread : ∀ block,
      read (fun _ => window (Function.update (x 0) n block) n) 0 = oracle block)
    (hnever : ∀ block j, argmax (oracle block j) ≠ args.maskId)
    (hrel : Lockstep args promptLength n x g row)
    (hwithin : ¬ args.maxPostSteps < g.nextPostSteps args n) :
    remainingWork args n (denoiseStep args promptLength n read g) <
      remainingWork args n g := by
  have hmask := anyMask_alone args hrel.tokens
  have hstep := hrel.denoiseStep_eq hone hpenalty hread hwithin
  have hmasks : maskIndex args.maskId ((denoiseStep args promptLength n read g).x 0 n) =
      maskIndex args.maskId row.inputIds \
        args.jointThreshold.transferIndex row (predict (oracle row.inputIds)) := by
    rw [hstep]
    simp only [Function.update_self]
    exact maskIndex_transferTokens _ (hnever row.inputIds) _
  have hpost : (denoiseStep args promptLength n read g).postSteps =
      g.nextPostSteps args n := by
    rw [hstep, hrel.nextPostSteps]
  rw [remainingWork, remainingWork, hmasks, hpost, hrel.tokens]
  simp only [Function.update_self]
  by_cases hany : g.anyMask args n
  · obtain ⟨j, hj, htransfer⟩ := args.jointThreshold.exists_mask_mem_transferIndex
      (predict (oracle row.inputIds)) (hmask.mp hany)
    have hfewer : (maskIndex args.maskId row.inputIds \
        args.jointThreshold.transferIndex row (predict (oracle row.inputIds))).card <
        (maskIndex args.maskId row.inputIds).card :=
      Finset.card_lt_card ((Finset.ssubset_iff_of_subset Finset.sdiff_subset).mpr
        ⟨j, hj, fun hmem => (Finset.mem_sdiff.mp hmem).2 htransfer⟩)
    rw [DenoiseState.nextPostSteps, if_pos hany]
    omega
  · have hempty : maskIndex args.maskId row.inputIds = ∅ :=
      Finset.not_nonempty_iff_eq_empty.mp (fun h => hany (hmask.mpr h))
    rw [DenoiseState.nextPostSteps, if_neg hany] at hwithin ⊢
    rw [hempty, Finset.empty_sdiff]
    omega

/-- Any number of steps from `block_length + max_post_steps` on ends on one block. -/
theorem denoiseBlock_bound_irrelevant (hone : args.numToTransfer = 1)
    (hpenalty : args.repetitionPenalty = 1)
    (hread : ∀ block,
      read (fun _ => window (Function.update (x 0) n block) n) 0 = oracle block)
    (hnever : ∀ block j, argmax (oracle block j) ≠ args.maskId)
    (hrel : Lockstep args promptLength n x g row) {m k : Nat}
    (hm : remainingWork args n g ≤ m) (hk : remainingWork args n g ≤ k) :
    (boundedLoop DenoiseState.stopped (denoiseStep args promptLength n read) m g).x 0 n =
      (boundedLoop DenoiseState.stopped (denoiseStep args promptLength n read) k g).x 0 n := by
  refine boundedLoop_bound_irrelevant
    (fun g => ∃ row, Lockstep args promptLength n x g row) (remainingWork args n)
    (fun g : DenoiseState 1 B V => g.x 0 n) ?_ ⟨row, hrel⟩ hm hk
  rintro g ⟨row, hrel⟩ hrunning
  by_cases hexhausted : args.maxPostSteps < g.nextPostSteps args n
  · right
    rw [denoiseStep_of_exhausted hexhausted]
    exact ⟨rfl, rfl⟩
  · left
    exact ⟨⟨_, hrel.rowStep hone hpenalty hread hrunning⟩,
      hrel.remainingWork_lt hone hpenalty hread hnever hexhausted⟩

/-- The inner loop of `generate` ends with the block `JointThreshold.run` ends with. -/
theorem denoiseBlock_eq_run_inputIds (args : GenerateArgs V K) (promptLength n : Nat)
    (read : ReadWindow 1 B V n K) (oracle : Block B V → Logits B V K)
    (model : ModelRunner σ 1 B V K) (runner : σ) (x : Fin 1 → Tokens B V)
    (hread : ∀ block,
      read (fun _ => window (Function.update (x 0) n block) n) 0 = oracle block)
    (hmodel : ∀ s ids, (model.forward s ids).1.fullLogits 0 = oracle (ids 0))
    (hnever : ∀ block j, argmax (oracle block j) ≠ args.maskId)
    (hknown : ∀ j : Fin B, j.val < promptLength - n * B → x 0 n j ≠ args.maskId)
    (hmasked : ∀ j : Fin B, promptLength - n * B ≤ j.val → x 0 n j = args.maskId)
    (hone : args.numToTransfer = 1) (hpenalty : args.repetitionPenalty = 1)
    (hnonneg : 0 ≤ args.maxPostSteps)
    (hsteps : B + args.maxPostSteps ≤ args.effectiveSteps) :
    ∃ res, args.jointThreshold.run model runner (fun _ => x 0 n) = some res ∧
      res.inputIds 0 = (denoiseBlock args promptLength n read x).x 0 n := by
  have hprompt : ∀ j, j ∈ promptMaskInBlock promptLength n ↔ x 0 n j ≠ args.maskId := by
    intro j
    rw [mem_promptMaskInBlock]
    exact ⟨hknown j, fun hne => not_le.mp (fun hle => hne (hmasked j hle))⟩
  have hB : 0 < B := Nat.pos_of_ne_zero (NeZero.ne B)
  have hmax : args.jointThreshold.maxPostEditSteps = args.maxPostSteps := rfl
  have hwork : remainingWork args n ⟨x, 0, false⟩ ≤ args.jointThreshold.maxIterations B := by
    have hcard := Finset.card_le_univ (maskIndex args.maskId (x 0 n))
    rw [Fintype.card_fin] at hcard
    simp only [remainingWork, onlyRow, JointThreshold.maxIterations, hmax]
    omega
  have hmore : args.jointThreshold.maxIterations B ≤ args.effectiveSteps := by
    rw [JointThreshold.maxIterations, hmax]
    omega
  have hblock : (denoiseBlock args promptLength n read x).x 0 n =
      (args.jointThreshold.denoise model runner (fun _ => x 0 n)).inputIds 0 := by
    rw [denoiseBlock, denoiseBlock_bound_irrelevant hone hpenalty hread hnever
      (lockstep_initial hnonneg hprompt) (hwork.trans hmore) hwork,
      (denoise_lockstep hone hpenalty hnonneg hread hmodel hprompt runner).tokens]
    exact Function.update_self n _ (x 0)
  have hreturns : (args.jointThreshold.run model runner (fun _ => x 0 n)).isSome :=
    (args.jointThreshold.run_isSome_iff model runner _).mpr (Or.inr (by omega))
  obtain ⟨res, hres⟩ := Option.isSome_iff_exists.mp hreturns
  exact ⟨res, hres, (JointThreshold.run_inputIds hres 0).trans hblock.symm⟩

/-- A known token and a mask, which is filled with `1` and then edited to `2`. -/
theorem denoiseBlock_eq_run_inputIds_edited :
    let args : GenerateArgs 4 ℝ :=
      { steps := 4, genLength := 4, minimalTopk := 1, threshold := ⊥,
        editingThreshold := ⊥, maxPostSteps := 2, numToTransfer := 1,
        eosEarlyStop := false, eosId := none, maskId := 3, repetitionPenalty := 1 }
    let oracle : Block 2 4 → Logits 2 4 ℝ :=
      fun block _ v => if v = (if block 1 = 3 then 1 else 2) then 1 else 0
    let read : ReadWindow 1 2 4 0 ℝ := fun w r => oracle (w r 0)
    let model : ModelRunner Unit 1 2 4 ℝ :=
      { forward := fun _ ids => (⟨fun i => oracle (ids i), false⟩, ()) }
    let x : Fin 1 → Tokens 2 4 := fun _ _ => ![0, 3]
    ∃ res, args.jointThreshold.run model () (fun _ => ![0, 3]) = some res ∧
      res.inputIds 0 = (denoiseBlock args 1 0 read x).x 0 0 ∧ res.inputIds 0 = ![0, 2] := by
  intro args oracle read model x
  have hargmax : ∀ (block : Block 2 4) (j : Fin 2),
      argmax (oracle block j) = if block 1 = 3 then 1 else 2 := by
    intro block j
    refine argmax_eq_of_forall_lt (fun v hv => ?_)
    simp [oracle, hv]
  have hstep : ∀ s : DenoiseState 1 2 4, s.x 0 0 0 = 0 →
      ¬ args.maxPostSteps < s.nextPostSteps args 0 →
      (denoiseStep args 1 0 read s).x 0 0 = ![0, if s.x 0 0 1 = 3 then 1 else 2] := by
    intro s hknown hwithin
    rw [denoiseStep_of_within hwithin (fun _ => rfl)]
    funext j
    change rowUpdate args 1 0 _ _ 0 j = _
    rw [rowUpdate_of_confident rfl (fun _ => WithBot.bot_lt_coe _), rowPrediction_of_one rfl]
    fin_cases j
    · exact (if_pos ⟨hknown.trans_ne (by decide), by decide⟩).trans hknown
    · exact (if_neg (fun hprompt => absurd hprompt.2 (by decide))).trans (hargmax _ 1)
  let first := denoiseStep args 1 0 read ⟨x, 0, false⟩
  have hfirst : first.x 0 0 = ![0, 1] := hstep _ rfl (by decide)
  have hgoes : first.stopped = false := denoiseStep_stopped_of_mask (by decide) (by decide)
  have hsecond : (denoiseStep args 1 0 read first).x 0 0 = ![0, 2] := by
    have hquiet : ¬ first.anyMask args 0 := by
      simp only [DenoiseState.anyMask, Fin.exists_fin_one, hfirst]
      decide
    have hone : ¬ args.maxPostSteps < first.nextPostSteps args 0 := by
      rw [DenoiseState.nextPostSteps_of_no_mask hquiet]
      decide
    rw [hstep first (congrFun hfirst 0) hone, hfirst]
    rfl
  have hend : (denoiseBlock args 1 0 read x).x 0 0 = ![0, 2] := by
    have hsteps : args.effectiveSteps = 4 := by decide
    rw [denoiseBlock, hsteps, boundedLoop_of_not_done rfl, boundedLoop_of_not_done hgoes]
    refine boundedLoop_invariant (fun s : DenoiseState 1 2 4 => s.x 0 0 = ![0, 2]) ?_ 2 hsecond
    intro s hs _
    by_cases hexhausted : args.maxPostSteps < s.nextPostSteps args 0
    · rwa [denoiseStep_of_exhausted hexhausted]
    · rw [hstep s (congrFun hs 0) hexhausted, hs]
      rfl
  have hnever : ∀ (block : Block 2 4) (j : Fin 2), argmax (oracle block j) ≠ args.maskId := by
    intro block j
    rw [hargmax block j]
    split_ifs <;> decide
  obtain ⟨res, hres, hids⟩ := denoiseBlock_eq_run_inputIds args 1 0 read oracle model () x
    (fun _ => rfl) (fun _ _ => rfl) hnever
    (by decide) (by decide) rfl rfl (by decide) (by decide)
  exact ⟨res, hres, hids, hids.trans hend⟩

end Lockstep

end LladaHybrid.Generate
