import LladaHybrid.Decode.FinalTokens

namespace LladaHybrid.Decode

open LladaHybrid.Library

/-! `JointThreshold` fills every mask: a request with masks never finishes, and each of its
passes fills at least one. -/

namespace JointThreshold

variable {σ : Type*} {R B V : Nat} {K : Type*} [Field K] [LinearOrder K] [ExpOps K] [TopK K]
  [NeZero V]

def passLogits (alg : JointThreshold V K) (model : ModelRunner σ R B V K)
    (s : LoopState σ R B V K) (i : Fin R) : Logits B V K :=
  alg.penalised (s.inputIds i) ((model.forward s.runner s.inputIds).1.fullLogits i)

/-- No argmax of the pass is the mask token. -/
def PassAvoidsMask (alg : JointThreshold V K) (model : ModelRunner σ R B V K)
    (s : LoopState σ R B V K) : Prop :=
  ∀ i, (s.rows i).finished = false → ∀ j, argmax (alg.passLogits model s i j) ≠ alg.maskId

def RunAvoidsMask (alg : JointThreshold V K) (model : ModelRunner σ R B V K) (runner : σ)
    (ids : Fin R → Block B V) : Prop :=
  Throughout LoopState.allFinished (alg.iterate model) (alg.PassAvoidsMask model)
    (alg.maxIterations B) (alg.initial runner ids)

/-- A request with a mask left is not finished and has at most `left` of them. -/
structure MasksLeft (alg : JointThreshold V K) (left : Nat) (row : RowState B V) : Prop where
  card_le : (maskIndex alg.maskId row.inputIds).card ≤ left
  finished : row.finished = true → maskIndex alg.maskId row.inputIds = ∅

variable {alg : JointThreshold V K} {left : Nat} {row : RowState B V} {logits : Logits B V K}

theorem maskIndex_rowStep (hlogits : ∀ j, argmax (logits j) ≠ alg.maskId) :
    (maskIndex alg.maskId row.inputIds = ∅ ∧
        (alg.rowStep logits row).1.inputIds = row.inputIds) ∨
      ((alg.rowStep logits row).1.finished = row.finished ∧
        maskIndex alg.maskId (alg.rowStep logits row).1.inputIds =
          maskIndex alg.maskId row.inputIds \ alg.transferIndex row (predict logits)) := by
  rcases alg.rowStep_cases logits row with ⟨hstops, hstep⟩ | ⟨-, -, hstep⟩
  · rw [hstep]
    refine Or.inl ⟨?_, rfl⟩
    rcases hstops with ⟨hnone, -⟩ | hempty
    · exact Finset.not_nonempty_iff_eq_empty.mp hnone
    · by_contra hmasks
      obtain ⟨j, -, htransfer⟩ := alg.exists_mask_mem_transferIndex (predict logits)
        (Finset.nonempty_iff_ne_empty.mpr hmasks)
      rw [hempty] at htransfer
      exact Finset.notMem_empty j htransfer
  · rw [hstep]
    exact Or.inr ⟨rfl, maskIndex_transferTokens row.inputIds hlogits _⟩

theorem card_sdiff_transferIndex_lt (hmasks : (maskIndex alg.maskId row.inputIds).Nonempty) :
    (maskIndex alg.maskId row.inputIds \ alg.transferIndex row (predict logits)).card <
      (maskIndex alg.maskId row.inputIds).card := by
  obtain ⟨j, hj, htransfer⟩ := alg.exists_mask_mem_transferIndex (predict logits) hmasks
  apply Finset.card_lt_card
  rw [Finset.ssubset_iff_of_subset Finset.sdiff_subset]
  exact ⟨j, hj, fun hleft => (Finset.mem_sdiff.mp hleft).2 htransfer⟩

theorem MasksLeft.rowStep (masksLeft : MasksLeft alg left row)
    (hlogits : ∀ j, argmax (logits j) ≠ alg.maskId) :
    MasksLeft alg (left - 1) (alg.rowStep logits row).1 := by
  rcases maskIndex_rowStep hlogits with ⟨hnone, hids⟩ | ⟨hfinished, hfilled⟩
  · rw [← hids] at hnone
    refine ⟨?_, fun _ => hnone⟩
    rw [hnone, Finset.card_empty]
    exact Nat.zero_le (left - 1)
  · constructor
    · rw [hfilled]
      rcases Finset.eq_empty_or_nonempty (maskIndex alg.maskId row.inputIds) with
        hnone | hmasks
      · rw [hnone, Finset.empty_sdiff, Finset.card_empty]
        exact Nat.zero_le (left - 1)
      · exact Nat.le_sub_one_of_lt
          ((card_sdiff_transferIndex_lt hmasks).trans_le masksLeft.card_le)
    · intro hdone
      rw [hfinished] at hdone
      rw [hfilled, masksLeft.finished hdone, Finset.empty_sdiff]

theorem MasksLeft.iterate {model : ModelRunner σ R B V K} {s : LoopState σ R B V K}
    {i : Fin R} (masksLeft : MasksLeft alg left (s.rows i))
    (havoids : alg.PassAvoidsMask model s) :
    MasksLeft alg (left - 1) ((alg.iterate model s).rows i) := by
  cases hfinished : (s.rows i).finished with
  | true =>
      have hnone := masksLeft.finished hfinished
      rw [alg.iterate_rows_of_finished model hfinished]
      refine ⟨?_, fun _ => hnone⟩
      rw [hnone, Finset.card_empty]
      exact Nat.zero_le (left - 1)
  | false =>
      rw [alg.iterate_rows_of_running model hfinished]
      exact masksLeft.rowStep (havoids i hfinished)

/-- The bound suffices: it admits a pass for every position of the block. -/
theorem denoise_no_masks {model : ModelRunner σ R B V K} {runner : σ}
    {ids : Fin R → Block B V} (hpost : 0 ≤ alg.maxPostEditSteps)
    (havoids : alg.RunAvoidsMask model runner ids) (i : Fin R) :
    maskIndex alg.maskId ((alg.denoise model runner ids).inputIds i) = ∅ := by
  have hinit : MasksLeft alg (B - 0) ((alg.initial (K := K) runner ids).rows i) := by
    refine ⟨?_, fun hfinished => by cases hfinished⟩
    exact (Finset.card_le_univ _).trans_eq (Fintype.card_fin B)
  obtain ⟨passes, masksLeft, hend⟩ := boundedLoop_counted_throughout
    (alg.PassAvoidsMask model)
    (fun passes (s : LoopState σ R B V K) => MasksLeft alg (B - passes) (s.rows i))
    (fun passes s masksLeft hpass _ => masksLeft.iterate hpass) havoids hinit
  rcases hend with hdone | hpasses
  · exact masksLeft.finished (of_decide_eq_true hdone i)
  · have hbound : B - passes = 0 := by
      rw [maxIterations] at hpasses
      omega
    rw [hbound] at masksLeft
    exact Finset.card_eq_zero.mp (Nat.le_zero.mp masksLeft.card_le)

/-- The decoder returns, keeps every token it was given, and leaves no mask unless it
predicted one. -/
theorem run_completes (alg : JointThreshold V K) (hpost : 0 ≤ alg.maxPostEditSteps)
    (model : ModelRunner σ R B V K) (runner : σ) (ids : Fin R → Block B V) :
    ∃ res, alg.run model runner ids = some res ∧
      (∀ i j, ids i j ≠ alg.maskId → res.inputIds i j = ids i j) ∧
      (alg.RunAvoidsMask model runner ids → ∀ i j, res.inputIds i j ≠ alg.maskId) := by
  have hreturns : (alg.run model runner ids).isSome := by
    rw [run_isSome_iff]
    by_cases hnone : ∀ i, maskIndex alg.maskId (ids i) = ∅
    · exact Or.inl hnone
    · obtain ⟨i, hmasks⟩ := not_forall.mp hnone
      obtain ⟨j, -⟩ := Finset.nonempty_iff_ne_empty.mpr hmasks
      have hpos := j.pos
      exact Or.inr (by omega)
  obtain ⟨res, hres⟩ := Option.isSome_iff_exists.mp hreturns
  refine ⟨res, hres, (run_fillsMasks hres).kept, ?_⟩
  intro havoids i j hmask
  have hnone := denoise_no_masks hpost havoids i
  rw [← run_inputIds hres] at hnone
  exact Finset.notMem_empty j (hnone ▸ mem_maskIndex.mpr hmask)

/-- Two requests, one of them with a prompt token, under logits that change from pass to
pass. -/
theorem run_completes_pair :
    let model : ModelRunner Bool 2 2 3 ℝ :=
      { forward := fun flip _ =>
          (⟨fun _ _ v => if v = (if flip then 0 else 1) then 1 else 0, false⟩, !flip) }
    let alg : JointThreshold 3 ℝ := .ofConfig 2 ⟨none, none, some 1, none⟩
    ∃ res, alg.run model true (fun i j => if i ≤ j then 2 else 0) = some res ∧
      res.inputIds 1 0 = 0 ∧ ∀ i j, res.inputIds i j ≠ 2 := by
  intro model alg
  obtain ⟨res, hres, hkept, hfilled⟩ := run_completes alg (by decide) model true
    (fun i j => if i ≤ j then 2 else 0)
  refine ⟨res, hres, hkept 1 0 (by decide), hfilled (throughout_of_forall ?_ _ _)⟩
  intro s i _ j
  have hpenalty : alg.passLogits model s i j =
      fun v => if v = (if s.runner then 0 else 1) then 1 else 0 :=
    congrFun (penalised_of_zero rfl _ _) j
  have hbest : argmax (alg.passLogits model s i j) = if s.runner then 0 else 1 := by
    rw [hpenalty]
    apply argmax_eq_of_forall_lt
    intro v hv
    rw [if_neg hv, if_pos rfl]
    exact one_pos
  rw [hbest]
  cases s.runner <;> decide

end JointThreshold

end LladaHybrid.Decode
