import LladaHybrid.Decode.LowConfidence

namespace LladaHybrid.Decode

open LladaHybrid.Library

variable {σ : Type*} {R B V : Nat} {K : Type*}

/-! What the decoders return: whether they return, and the tokens they return with. -/

theorem tokensFrom_getD (ids : Fin R → Block B V) (start : Fin R → Nat) (i : Fin R) :
    (tokensFrom ids start).getD i [] = (List.ofFn (ids i)).drop (start i) := by
  simp [tokensFrom, List.getD_eq_getElem?_getD]

/-- A run fills in masks only, and returns the last tokens, as many as there were masks. -/
structure FillsMasks (maskId : Fin V) (ids : Fin R → Block B V) (res : RunResult σ R B V K) :
    Prop where
  kept : ∀ i j, ids i j ≠ maskId → res.inputIds i j = ids i j
  next : ∀ i : Fin R, res.nextTokenIdsList.getD i [] =
    (List.ofFn (res.inputIds i)).drop (B - (maskIndex maskId (ids i)).card)

namespace JointThreshold

theorem finish_isSome_iff (alg : JointThreshold V K) (model : ModelRunner σ R B V K)
    (ids : Fin R → Block B V) (s : LoopState σ R B V K) :
    (alg.finish model ids s).isSome ↔
      s.anyChangedInLastStep = true ∨ s.logitsOutput.isSome := by
  rw [finish]
  split_ifs with hchanged <;> simp [hchanged]

variable [Field K] [LinearOrder K] [ExpOps K] [TopK K] [NeZero V]

theorem denoise_hasOutput_iff (alg : JointThreshold V K)
    (model : ModelRunner σ R B V K) (runner : σ) {ids : Fin R → Block B V}
    (hmask : ¬ ∀ i, maskIndex alg.maskId (ids i) = ∅) :
    ((alg.denoise model runner ids).anyChangedInLastStep = true ∨
      (alg.denoise model runner ids).logitsOutput.isSome) ↔
      0 < alg.maxIterations B := by
  obtain ⟨i, -⟩ := not_forall.mp hmask
  have hrunning : (alg.initial (K := K) runner ids).allFinished = false :=
    decide_eq_false (fun hall => Bool.false_ne_true (hall i))
  rw [denoise]
  cases alg.maxIterations B with
  | zero => simp [initial]
  | succ n =>
      rw [boundedLoop_of_not_done hrunning]
      have hout : (boundedLoop LoopState.allFinished (alg.iterate model) n
          (alg.iterate model (alg.initial runner ids))).logitsOutput.isSome :=
        boundedLoop_invariant
          (fun s : LoopState σ R B V K => s.logitsOutput.isSome = true)
          (fun _ _ _ => rfl) n rfl
      simp [hout]

theorem run_isSome_iff (alg : JointThreshold V K) (model : ModelRunner σ R B V K)
    (runner : σ) (ids : Fin R → Block B V) :
    (alg.run model runner ids).isSome ↔
      (∀ i, maskIndex alg.maskId (ids i) = ∅) ∨ 0 < B + alg.maxPostEditSteps := by
  have hbound : 0 < alg.maxIterations B ↔ 0 < B + alg.maxPostEditSteps := by
    rw [maxIterations]
    omega
  rw [run]
  split_ifs with hnone
  · simp [hnone]
  · rw [finish_isSome_iff, alg.denoise_hasOutput_iff model runner hnone, hbound]
    simp only [hnone, false_or]

/-- The row still holds the tokens of `ids` that were no masks. -/
structure PromptKept (alg : JointThreshold V K) (ids : Block B V)
    (row : RowState B V) : Prop where
  promptMask : row.promptMask = (maskIndex alg.maskId ids)ᶜ
  kept : ∀ j ∈ row.promptMask, row.inputIds j = ids j

theorem PromptKept.rowStep {alg : JointThreshold V K} {ids : Block B V}
    {row : RowState B V} (hrow : PromptKept alg ids row) (logits : Logits B V K) :
    PromptKept alg ids (alg.rowStep logits row).1 := by
  rcases alg.rowStep_cases logits row with ⟨-, hstep⟩ | ⟨-, -, hstep⟩
  · rw [hstep]
    exact ⟨hrow.promptMask, hrow.kept⟩
  · rw [hstep]
    refine ⟨hrow.promptMask, fun j (hj : j ∈ row.promptMask) => ?_⟩
    have hmask : row.inputIds j ≠ alg.maskId := by
      rw [hrow.kept j hj]
      simpa [hrow.promptMask] using hj
    have hstays := notMem_transferIndex (predict logits) hj hmask
    exact (transferTokens_of_notMem hstays).trans (hrow.kept j hj)

theorem denoise_promptKept (alg : JointThreshold V K) (model : ModelRunner σ R B V K)
    (runner : σ) (ids : Fin R → Block B V) (i : Fin R) :
    PromptKept alg (ids i) ((alg.denoise model runner ids).rows i) := by
  refine boundedLoop_invariant
    (fun s : LoopState σ R B V K => PromptKept alg (ids i) (s.rows i)) ?_ _ ?_
  · intro s hs _
    cases hfinished : (s.rows i).finished with
    | true => rwa [alg.iterate_rows_of_finished model hfinished]
    | false =>
        rw [alg.iterate_rows_of_running model hfinished]
        exact hs.rowStep _
  · exact ⟨rfl, fun _ _ => rfl⟩

theorem denoise_inputIds_of_no_masks (alg : JointThreshold V K)
    (model : ModelRunner σ R B V K) (runner : σ) (ids : Fin R → Block B V) {i : Fin R}
    (hnone : maskIndex alg.maskId (ids i) = ∅) :
    (alg.denoise model runner ids).inputIds i = ids i := by
  have hkept := alg.denoise_promptKept model runner ids i
  funext j
  refine hkept.kept j ?_
  rw [hkept.promptMask, hnone, Finset.compl_empty]
  exact Finset.mem_univ j

theorem run_cases {alg : JointThreshold V K} {model : ModelRunner σ R B V K}
    {runner : σ} {ids : Fin R → Block B V} {res : RunResult σ R B V K}
    (hres : alg.run model runner ids = some res) :
    ((∀ i, maskIndex alg.maskId (ids i) = ∅) ∧ res.inputIds = ids ∧
      res.nextTokenIdsList = []) ∨
    (res.inputIds = (alg.denoise model runner ids).inputIds ∧
      res.nextTokenIdsList =
        tokensFrom (alg.denoise model runner ids).inputIds (alg.startList ids)) := by
  rw [run] at hres
  split_ifs at hres with hnone
  · obtain rfl := Option.some.inj hres
    exact Or.inl ⟨hnone, rfl, rfl⟩
  · exact Or.inr (finish_inputIds hres)

/-- The fast path returns what the loop would have returned. -/
theorem run_inputIds {alg : JointThreshold V K} {model : ModelRunner σ R B V K}
    {runner : σ} {ids : Fin R → Block B V} {res : RunResult σ R B V K}
    (hres : alg.run model runner ids = some res) (i : Fin R) :
    res.inputIds i = (alg.denoise model runner ids).inputIds i := by
  rcases run_cases hres with ⟨hnone, hids, -⟩ | ⟨hids, -⟩
  · rw [hids, alg.denoise_inputIds_of_no_masks model runner ids (hnone i)]
  · rw [hids]

theorem run_nextTokenIds {alg : JointThreshold V K} {model : ModelRunner σ R B V K}
    {runner : σ} {ids : Fin R → Block B V} {res : RunResult σ R B V K}
    (hres : alg.run model runner ids = some res) (i : Fin R) :
    res.nextTokenIdsList.getD i [] =
      (List.ofFn ((alg.denoise model runner ids).inputIds i)).drop
        (alg.startList ids i) := by
  rcases run_cases hres with ⟨hnone, -, hlist⟩ | ⟨-, hlist⟩
  · have hstart : alg.startList ids i = B := by
      simp [startList, initialRow, hnone i]
    rw [hlist, hstart, List.drop_eq_nil_of_le (by rw [List.length_ofFn])]
    rfl
  · rw [hlist, tokensFrom_getD]

theorem run_fillsMasks {alg : JointThreshold V K} {model : ModelRunner σ R B V K}
    {runner : σ} {ids : Fin R → Block B V} {res : RunResult σ R B V K}
    (hres : alg.run model runner ids = some res) : FillsMasks alg.maskId ids res where
  kept i j hne := by
    have hkept := alg.denoise_promptKept model runner ids i
    rw [run_inputIds hres]
    refine hkept.kept j ?_
    rw [hkept.promptMask, Finset.mem_compl]
    simpa using hne
  next i := by
    have hstart : alg.startList ids i = B - (maskIndex alg.maskId (ids i)).card := by
      rw [startList, initialRow, Finset.card_compl, Fintype.card_fin]
    rw [run_nextTokenIds hres, run_inputIds hres, hstart]

end JointThreshold

namespace LowConfidence

variable [Field K] [LinearOrder K] [ExpOps K] [TopK K] [NeZero V]

theorem blockStep_of_ne (alg : LowConfidence V K) (logits : Logits B V K) {ids : Block B V}
    {j : Fin B} (hne : ids j ≠ alg.maskId) : alg.blockStep logits ids j = ids j := by
  unfold blockStep
  dsimp only
  split_ifs with hnone
  · rfl
  · apply transferTokens_of_notMem
    intro hmem
    have hmask := confidentOrBest_subset alg.threshold (predict logits).prob
      (Finset.nonempty_iff_ne_empty.mpr hnone) hmem
    exact hne (by simpa using hmask)

theorem denoise_of_ne (alg : LowConfidence V K) (model : ModelRunner σ R B V K) (runner : σ)
    {ids : Fin R → Block B V} {i : Fin R} {j : Fin B} (hne : ids i j ≠ alg.maskId) :
    (alg.denoise model runner ids).inputIds i j = ids i j := by
  refine boundedLoop_invariant
    (fun s : LoopState σ R B V => s.inputIds i j = ids i j) ?_ _ rfl
  intro s hs _
  exact (alg.blockStep_of_ne _ (by rwa [hs])).trans hs

theorem run_fillsMasks (alg : LowConfidence V K) (model : ModelRunner σ R B V K) (runner : σ)
    (ids : Fin R → Block B V) : FillsMasks alg.maskId ids (alg.run model runner ids) := by
  rw [run]
  split_ifs with hnone
  · refine ⟨fun _ _ _ => rfl, fun i => ?_⟩
    have hempty : maskIndex alg.maskId (ids i) = ∅ := of_decide_eq_true hnone i
    rw [hempty, Finset.card_empty, List.drop_eq_nil_of_le (by rw [List.length_ofFn]; omega)]
    rfl
  · exact ⟨fun _ _ hne => alg.denoise_of_ne model runner hne, tokensFrom_getD _ _⟩

end LowConfidence

end LladaHybrid.Decode
