import LladaHybrid.Decode.FinalTokens

namespace LladaHybrid.Decode

open LladaHybrid.Library

/-! With editing switched off, `JointThreshold` decodes as `LowConfidence` does. -/

variable {σ τ : Type*} {R B V : Nat} {K : Type*}

theorem transferTokens_congr {ids x y : Block B V} {transfer : Finset (Fin B)}
    (hsame : ∀ j ∈ transfer, x j = y j) :
    transferTokens ids x transfer = transferTokens ids y transfer :=
  transfer.piecewise_congr hsame (fun _ _ => rfl)

/-- Two runners whose logits are one function of the tokens of the batch. -/
def SameLogits (model : ModelRunner σ R B V K) (model' : ModelRunner τ R B V K) : Prop :=
  ∀ runner runner' ids,
    (model.forward runner ids).1.fullLogits = (model'.forward runner' ids).1.fullLogits

theorem LowConfidence.blockStep_of_no_masks [Field K] [LinearOrder K] [ExpOps K] [TopK K]
    [NeZero V] {alg : LowConfidence V K} (logits : Logits B V K) {ids : Block B V}
    (hnone : maskIndex alg.maskId ids = ∅) : alg.blockStep logits ids = ids :=
  if_pos hnone

namespace JointThreshold

variable [Field K]

/-- The shipped configuration, with any threshold. -/
def editingOff (maskId : Fin V) (threshold : Conf K) : JointThreshold V K :=
  .ofConfig maskId ⟨some threshold, some ((⊤ : WithTop K) : Conf K), some 0, none⟩

variable (maskId : Fin V) (threshold : Conf K)

theorem maxIterations_editingOff : (editingOff maskId threshold).maxIterations B = B := by
  simp [maxIterations, editingOff, ofConfig]

theorem startList_editingOff (ids : Fin R → Block B V) :
    (editingOff maskId threshold).startList ids =
      (LowConfidence.mk maskId threshold).startList ids := by
  funext i
  exact (Finset.card_compl _).trans (congrArg (· - _) (Fintype.card_fin B))

variable [LinearOrder K]

theorem editTransferIndex_editingOff (masks promptMask : Finset (Fin B))
    (pred : Prediction B V K) (ids : Block B V) :
    (editingOff maskId threshold).editTransferIndex masks promptMask pred ids = ∅ := by
  apply Finset.eq_empty_of_forall_notMem
  intro j hj
  have hconfident := (mem_editTransferIndex.mp hj).1
  exact not_top_lt (WithBot.coe_lt_coe.mp hconfident)

variable [ExpOps K] [TopK K] [NeZero V]

theorem rowStep_editingOff_of_no_masks (logits : Logits B V K) {row : RowState B V}
    (hnone : maskIndex maskId row.inputIds = ∅) :
    ((editingOff maskId threshold).rowStep logits row).1.inputIds = row.inputIds := by
  have hexhausted : ¬ (maskIndex maskId row.inputIds).Nonempty :=
    Finset.not_nonempty_iff_eq_empty.mpr hnone
  have hsteps : (editingOff maskId threshold).nextPostEditSteps row = row.postEditSteps + 1 :=
    if_neg hexhausted
  rcases (editingOff maskId threshold).rowStep_cases logits row with
    ⟨-, hstep⟩ | ⟨hgoes, -, -⟩
  · rw [hstep]
  · refine absurd ⟨hexhausted, ?_⟩ hgoes
    rw [hsteps]
    exact Int.natCast_pos.mpr (Nat.succ_pos row.postEditSteps)

theorem rowStep_editingOff_of_masks (logits : Logits B V K) {row : RowState B V}
    (hmasks : (maskIndex maskId row.inputIds).Nonempty) :
    (editingOff maskId threshold).rowStep logits row =
      ({ row with
          inputIds := (LowConfidence.mk maskId threshold).blockStep logits row.inputIds },
        true) := by
  have hpool := confidentOrBest_subset threshold (predict logits).prob hmasks
  have htransfer : (editingOff maskId threshold).transferIndex row (predict logits) =
      confidentOrBest threshold
        (confidence (maskIndex maskId row.inputIds) (predict logits).prob) := by
    rw [transferIndex, editTransferIndex_editingOff, Finset.union_empty]
    exact if_pos hmasks
  have hsteps : (editingOff maskId threshold).nextPostEditSteps row = row.postEditSteps :=
    if_pos hmasks
  rcases (editingOff maskId threshold).rowStep_cases logits row with
    ⟨hstops, -⟩ | ⟨-, -, hstep⟩
  · rcases hstops with ⟨hnone, -⟩ | hempty
    · exact absurd hmasks hnone
    · rw [htransfer] at hempty
      exact absurd hempty
        (confidentOrBest_nonempty threshold (predict logits).prob hmasks).ne_empty
  · rw [hstep, hsteps, htransfer, LowConfidence.blockStep]
    dsimp only
    rw [if_neg hmasks.ne_empty]
    congr 2
    apply transferTokens_congr
    intro j hj
    rw [if_pos (hpool hj)]

/-- The batches hold the same tokens, and a finished request has no mask left. -/
structure InStep (s : LoopState σ R B V K) (t : LowConfidence.LoopState τ R B V) : Prop where
  inputIds : ∀ i, s.inputIds i = t.inputIds i
  finished : ∀ i, (s.rows i).finished = true → maskIndex maskId (s.inputIds i) = ∅

variable {maskId threshold} {model : ModelRunner σ R B V K} {model' : ModelRunner τ R B V K}
  {s : LoopState σ R B V K} {t : LowConfidence.LoopState τ R B V}

theorem InStep.iterate_row (inStep : InStep maskId s t) (threshold : Conf K)
    (model : ModelRunner σ R B V K) (i : Fin R) :
    ((editingOff maskId threshold).iterate model s).inputIds i =
        (LowConfidence.mk maskId threshold).blockStep
          ((model.forward s.runner s.inputIds).1.fullLogits i) (s.inputIds i) ∧
      ((((editingOff maskId threshold).iterate model s).rows i).finished = true →
        maskIndex maskId (s.inputIds i) = ∅) := by
  have hpenalty : (editingOff maskId threshold).penalised (s.inputIds i)
      ((model.forward s.runner s.inputIds).1.fullLogits i) =
      (model.forward s.runner s.inputIds).1.fullLogits i := penalised_of_zero rfl _ _
  by_cases hnone : maskIndex maskId (s.inputIds i) = ∅
  · refine ⟨?_, fun _ => hnone⟩
    rw [LowConfidence.blockStep_of_no_masks _ hnone]
    cases hfinished : (s.rows i).finished with
    | true => rw [LoopState.inputIds, iterate_rows_of_finished _ _ hfinished]; rfl
    | false =>
        rw [LoopState.inputIds, iterate_rows_of_running _ _ hfinished]
        exact rowStep_editingOff_of_no_masks maskId threshold _ hnone
  · have hrunning : (s.rows i).finished = false := by
      rw [← Bool.not_eq_true]
      exact fun hfinished => hnone (inStep.finished i hfinished)
    have hstep := rowStep_editingOff_of_masks maskId threshold
      ((model.forward s.runner s.inputIds).1.fullLogits i)
      (Finset.nonempty_iff_ne_empty.mpr hnone)
    rw [LoopState.inputIds, iterate_rows_of_running _ _ hrunning, hpenalty, hstep]
    refine ⟨rfl, fun hfinished => ?_⟩
    rw [hrunning] at hfinished
    cases hfinished

theorem InStep.iterate (inStep : InStep maskId s t) (same : SameLogits model model') :
    InStep maskId ((editingOff maskId threshold).iterate model s)
      ((LowConfidence.mk maskId threshold).iterate model' t) := by
  have hids : s.inputIds = t.inputIds := funext inStep.inputIds
  constructor
  · intro i
    rw [(inStep.iterate_row threshold model i).1, same s.runner t.runner, hids]
    rfl
  · intro i hfinished
    obtain ⟨hrow, hnone⟩ := inStep.iterate_row threshold model i
    rw [hrow, LowConfidence.blockStep_of_no_masks _ (hnone hfinished)]
    exact hnone hfinished

theorem InStep.idle (inStep : InStep maskId s t)
    (hdone : (LowConfidence.mk maskId threshold).noMasks t.inputIds = true) :
    InStep maskId ((editingOff maskId threshold).iterate model s) t := by
  have hnone : ∀ i, maskIndex maskId (s.inputIds i) = ∅ := by
    intro i
    rw [inStep.inputIds]
    exact of_decide_eq_true hdone i
  have hrow : ∀ i, ((editingOff maskId threshold).iterate model s).inputIds i = s.inputIds i := by
    intro i
    rw [(inStep.iterate_row threshold model i).1, LowConfidence.blockStep_of_no_masks _ (hnone i)]
  constructor
  · intro i
    rw [hrow, inStep.inputIds]
  · intro i _
    rw [hrow]
    exact hnone i

theorem denoise_editingOff (same : SameLogits model model') (runner : σ) (runner' : τ)
    (ids : Fin R → Block B V) :
    InStep maskId ((editingOff maskId threshold).denoise model runner ids)
      ((LowConfidence.mk maskId threshold).denoise model' runner' ids) := by
  rw [denoise, maxIterations_editingOff]
  refine boundedLoop_related (InStep maskId) ?_ ?_ ?_ B ?_
  · intro s t inStep hdone
    apply decide_eq_true
    intro i
    rw [← inStep.inputIds]
    exact inStep.finished i (of_decide_eq_true hdone i)
  · intro s t inStep _ _
    exact inStep.iterate same
  · intro s t inStep _ hdone
    exact inStep.idle hdone
  · refine ⟨fun i => rfl, ?_⟩
    intro i hfinished
    cases hfinished

theorem run_editingOff_eq_lowConfidence (maskId : Fin V) (threshold : Conf K)
    (same : SameLogits model model') (runner : σ) (runner' : τ) (ids : Fin R → Block B V) :
    ∃ res, (editingOff maskId threshold).run model runner ids = some res ∧
      res.inputIds =
        ((LowConfidence.ofConfig maskId (some threshold)).run model' runner' ids).inputIds ∧
      res.nextTokenIdsList =
        ((LowConfidence.ofConfig maskId (some threshold)).run model' runner'
          ids).nextTokenIdsList := by
  by_cases hnone : ∀ i, maskIndex maskId (ids i) = ∅
  · have hlow : (LowConfidence.ofConfig maskId (some threshold)).noMasks ids = true :=
      decide_eq_true hnone
    rw [LowConfidence.run, if_pos hlow]
    exact ⟨_, if_pos hnone, rfl, rfl⟩
  · have hlow : ¬ (LowConfidence.ofConfig maskId (some threshold)).noMasks ids = true :=
      fun hdone => hnone (of_decide_eq_true hdone)
    have hbound : (0 : Int) < B + (editingOff maskId threshold).maxPostEditSteps := by
      obtain ⟨i, hmasks⟩ := not_forall.mp hnone
      obtain ⟨j, -⟩ := Finset.nonempty_iff_ne_empty.mpr hmasks
      exact (add_zero (B : Int)).symm ▸ Int.natCast_pos.mpr j.pos
    obtain ⟨res, hres⟩ := Option.isSome_iff_exists.mp
      (((editingOff maskId threshold).run_isSome_iff model runner ids).mpr (Or.inr hbound))
    have hids : ((editingOff maskId threshold).denoise model runner ids).inputIds =
        ((LowConfidence.mk maskId threshold).denoise model' runner' ids).inputIds :=
      funext (denoise_editingOff same runner runner' ids).inputIds
    refine ⟨res, hres, ?_⟩
    rcases run_cases hres with ⟨hfast, -⟩ | ⟨hresIds, hlist⟩
    · exact absurd hfast hnone
    · rw [hresIds, hlist, hids, startList_editingOff, LowConfidence.run, if_neg hlow]
      exact ⟨rfl, rfl⟩

/-- The forward only ever predicts the mask token. -/
theorem run_editingOff_eq_lowConfidence_masks :
    let model : ModelRunner Unit 2 2 2 ℝ :=
      { forward := fun _ _ => (⟨fun _ _ v => v, false⟩, ()) }
    let threshold : Conf ℝ := ((7 / 10 : ℝ) : WithTop ℝ)
    ∃ res, (editingOff 1 threshold).run model () (fun _ _ => 1) = some res ∧
      res.inputIds =
        ((LowConfidence.ofConfig 1 (some threshold)).run model () (fun _ _ => 1)).inputIds := by
  intro model threshold
  have hsame : SameLogits model model := fun _ _ _ => rfl
  obtain ⟨res, hres, hids, -⟩ :=
    run_editingOff_eq_lowConfidence 1 threshold hsame () () (fun _ _ => 1)
  exact ⟨res, hres, hids⟩

end JointThreshold

end LladaHybrid.Decode
