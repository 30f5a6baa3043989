import LladaHybrid.Decode.FinalTokens

namespace LladaHybrid.Decode

open LladaHybrid.Library

variable {σ τ ρ : Type*} {R B V : Nat} {K : Type*}

/-! A request's tokens do not depend on the requests it is batched with. -/

/-- The logits and the cached state of a request's block are those `machine` computes
from that request's own cached state and tokens. -/
structure RowIndependent (machine : ρ → Block B V → Logits B V K × ρ)
    (model : ModelRunner σ R B V K) (cached : σ → Fin R → ρ) : Prop where
  logits : ∀ s ids i,
    (model.forward s ids).1.fullLogits i = (machine (cached s i) (ids i)).1
  cached : ∀ s ids i,
    cached (model.forward s ids).2 i = (machine (cached s i) (ids i)).2

def ModelRunner.rowwise (machine : ρ → Block B V → Logits B V K × ρ) (R : Nat) :
    ModelRunner (Fin R → ρ) R B V K where
  forward s ids :=
    (⟨fun i => (machine (s i) (ids i)).1, false⟩, fun i => (machine (s i) (ids i)).2)

theorem ModelRunner.rowIndependent_rowwise
    (machine : ρ → Block B V → Logits B V K × ρ) (R : Nat) :
    RowIndependent machine (ModelRunner.rowwise machine R) id :=
  ⟨fun _ _ _ => rfl, fun _ _ _ => rfl⟩

namespace JointThreshold

variable [Field K] [LinearOrder K] [ExpOps K] [TopK K] [NeZero V]

/-- A request of the batch beside the same request alone; the cached states agree
while it is still being denoised. -/
structure SameRow (cached : σ → Fin R → ρ) (cachedAlone : τ → Fin 1 → ρ) (i : Fin R)
    (s : LoopState σ R B V K) (t : LoopState τ 1 B V K) : Prop where
  row : s.rows i = t.rows 0
  cached : (t.rows 0).finished = false → cached s.runner i = cachedAlone t.runner 0

variable {machine : ρ → Block B V → Logits B V K × ρ}
  {model : ModelRunner σ R B V K} {single : ModelRunner τ 1 B V K}
  {cached : σ → Fin R → ρ} {cachedAlone : τ → Fin 1 → ρ} {i : Fin R}

theorem SameRow.step (alg : JointThreshold V K)
    (hbatch : RowIndependent machine model cached)
    (hsingle : RowIndependent machine single cachedAlone)
    {s : LoopState σ R B V K} {t : LoopState τ 1 B V K}
    (hsame : SameRow cached cachedAlone i s t)
    (hrunning : (t.rows 0).finished = false) :
    SameRow cached cachedAlone i (alg.iterate model s) (alg.iterate single t) := by
  have hids : s.inputIds i = t.inputIds 0 := by
    rw [LoopState.inputIds, hsame.row, LoopState.inputIds]
  have hlogits : (model.forward s.runner s.inputIds).1.fullLogits i =
      (single.forward t.runner t.inputIds).1.fullLogits 0 := by
    rw [hbatch.logits, hsingle.logits, hsame.cached hrunning, hids]
  constructor
  · have hrunning' : (s.rows i).finished = false := by rw [hsame.row, hrunning]
    rw [alg.iterate_rows_of_running model hrunning',
      alg.iterate_rows_of_running single hrunning, hids, hlogits, hsame.row]
  · intro _
    change cached (model.forward s.runner s.inputIds).2 i =
      cachedAlone (single.forward t.runner t.inputIds).2 0
    rw [hbatch.cached, hsingle.cached, hsame.cached hrunning, hids]

theorem SameRow.idle (alg : JointThreshold V K)
    {s : LoopState σ R B V K} {t : LoopState τ 1 B V K}
    (hsame : SameRow cached cachedAlone i s t)
    (hfinished : (t.rows 0).finished = true) :
    SameRow cached cachedAlone i (alg.iterate model s) t := by
  constructor
  · have hfinished' : (s.rows i).finished = true := by rw [hsame.row, hfinished]
    rw [alg.iterate_rows_of_finished model hfinished', hsame.row]
  · intro hrunning
    rw [hfinished] at hrunning
    exact absurd hrunning (by decide)

theorem denoise_sameRow (alg : JointThreshold V K)
    (hbatch : RowIndependent machine model cached)
    (hsingle : RowIndependent machine single cachedAlone)
    (runner : σ) (runnerAlone : τ) (ids : Fin R → Block B V)
    (hstate : cached runner i = cachedAlone runnerAlone 0) :
    SameRow cached cachedAlone i (alg.denoise model runner ids)
      (alg.denoise single runnerAlone (fun _ => ids i)) := by
  refine boundedLoop_related (SameRow cached cachedAlone i) ?_ ?_ ?_ _
    ⟨rfl, fun _ => hstate⟩
  · intro s t hsame hdone
    rw [LoopState.allFinished_alone, ← hsame.row]
    exact of_decide_eq_true hdone i
  · intro s t hsame _ hrunning
    rw [LoopState.allFinished_alone] at hrunning
    exact hsame.step alg hbatch hsingle hrunning
  · intro s t hsame _ hfinished
    rw [LoopState.allFinished_alone] at hfinished
    exact hsame.idle alg hfinished

/-- A request ends with the same tokens in any batch as in a batch of its own. -/
theorem run_inputIds_eq_alone (alg : JointThreshold V K)
    (hbatch : RowIndependent machine model cached)
    (hsingle : RowIndependent machine single cachedAlone)
    (runner : σ) (runnerAlone : τ) (ids : Fin R → Block B V)
    (hstate : cached runner i = cachedAlone runnerAlone 0) :
    (0 < B + alg.maxPostEditSteps → (alg.run model runner ids).isSome) ∧
    ∀ res, alg.run model runner ids = some res →
      ∃ alone, alg.run single runnerAlone (fun _ => ids i) = some alone ∧
        res.inputIds i = alone.inputIds 0 ∧
        res.nextTokenIdsList.getD i [] = alone.nextTokenIdsList.getD 0 [] := by
  refine ⟨fun hpos => (alg.run_isSome_iff model runner ids).mpr (Or.inr hpos), ?_⟩
  intro res hres
  have hreturns : (∀ k, maskIndex alg.maskId (ids k) = ∅) ∨
      0 < B + alg.maxPostEditSteps :=
    (alg.run_isSome_iff model runner ids).mp (by rw [hres]; rfl)
  have halone : (alg.run single runnerAlone (fun _ => ids i)).isSome :=
    (alg.run_isSome_iff single runnerAlone (fun _ => ids i)).mpr
      (hreturns.imp (fun hnone _ => hnone i) id)
  obtain ⟨alone, halone⟩ := Option.isSome_iff_exists.mp halone
  have hrow : (alg.denoise model runner ids).inputIds i =
      (alg.denoise single runnerAlone (fun _ => ids i)).inputIds 0 := by
    rw [LoopState.inputIds, (alg.denoise_sameRow hbatch hsingle runner runnerAlone ids
      hstate).row, LoopState.inputIds]
  have hlistAlone := run_nextTokenIds halone 0
  refine ⟨alone, halone, ?_, ?_⟩
  · rw [run_inputIds hres, run_inputIds halone, hrow]
  · rw [run_nextTokenIds hres, hrow]
    exact hlistAlone.symm

theorem run_inputIds_eq_alone_pair :
    let machine : Unit → Block 1 2 → Logits 1 2 ℝ × Unit :=
      fun _ _ => (fun _ v => if v = 0 then 1 else 0, ())
    let alg : JointThreshold 2 ℝ := ofConfig 1 ⟨none, none, none, none⟩
    let ids : Fin 2 → Block 1 2 := fun i _ => i
    ∃ res alone,
      alg.run (ModelRunner.rowwise machine 2) (fun _ => ()) ids = some res ∧
      alg.run (ModelRunner.rowwise machine 1) (fun _ => ()) (fun _ => ids 1) =
        some alone ∧
      res.inputIds 1 = alone.inputIds 0 := by
  intro machine alg ids
  have hsame := run_inputIds_eq_alone (i := 1) alg
    (ModelRunner.rowIndependent_rowwise machine 2)
    (ModelRunner.rowIndependent_rowwise machine 1) (fun _ => ()) (fun _ => ()) ids rfl
  obtain ⟨res, hres⟩ := Option.isSome_iff_exists.mp (hsame.1 (by decide))
  obtain ⟨alone, halone, hids, -⟩ := hsame.2 res hres
  exact ⟨res, alone, hres, halone, hids⟩

end JointThreshold

namespace LowConfidence

theorem noMasks_alone (alg : LowConfidence V K) (ids : Fin 1 → Block B V) :
    alg.noMasks ids = true ↔ maskIndex alg.maskId (ids 0) = ∅ := by
  rw [noMasks, decide_eq_true_eq]
  exact Fin.forall_fin_one

variable [Field K] [LinearOrder K] [ExpOps K] [TopK K] [NeZero V]

/-- A block of the batch beside the same block alone; the cached states agree while it
still has masks. -/
structure SameRow (alg : LowConfidence V K) (cached : σ → Fin R → ρ)
    (cachedAlone : τ → Fin 1 → ρ) (i : Fin R) (s : LoopState σ R B V) (t : LoopState τ 1 B V) :
    Prop where
  inputIds : s.inputIds i = t.inputIds 0
  cached : maskIndex alg.maskId (t.inputIds 0) ≠ ∅ →
    cached s.runner i = cachedAlone t.runner 0

variable {alg : LowConfidence V K} {machine : ρ → Block B V → Logits B V K × ρ}
  {model : ModelRunner σ R B V K} {single : ModelRunner τ 1 B V K}
  {cached : σ → Fin R → ρ} {cachedAlone : τ → Fin 1 → ρ} {i : Fin R}
  {s : LoopState σ R B V} {t : LoopState τ 1 B V}

theorem SameRow.step (hbatch : RowIndependent machine model cached)
    (hsingle : RowIndependent machine single cachedAlone)
    (hsame : SameRow alg cached cachedAlone i s t)
    (hmasks : maskIndex alg.maskId (t.inputIds 0) ≠ ∅) :
    SameRow alg cached cachedAlone i (alg.iterate model s) (alg.iterate single t) := by
  have hcached := hsame.cached hmasks
  constructor
  · simp only [iterate, hbatch.logits, hsingle.logits, hcached, hsame.inputIds]
  · intro _
    simp only [iterate, hbatch.cached, hsingle.cached, hcached, hsame.inputIds]

theorem SameRow.idle (hsame : SameRow alg cached cachedAlone i s t)
    (hnone : maskIndex alg.maskId (t.inputIds 0) = ∅) :
    SameRow alg cached cachedAlone i (alg.iterate model s) t := by
  refine ⟨?_, fun hmasks => absurd hnone hmasks⟩
  have hids : maskIndex alg.maskId (s.inputIds i) = ∅ := hsame.inputIds ▸ hnone
  exact (if_pos hids).trans hsame.inputIds

theorem denoise_sameRow (alg : LowConfidence V K)
    (hbatch : RowIndependent machine model cached)
    (hsingle : RowIndependent machine single cachedAlone)
    (runner : σ) (runnerAlone : τ) (ids : Fin R → Block B V)
    (hstate : cached runner i = cachedAlone runnerAlone 0) :
    SameRow alg cached cachedAlone i (alg.denoise model runner ids)
      (alg.denoise single runnerAlone (fun _ => ids i)) := by
  refine boundedLoop_related (SameRow alg cached cachedAlone i) ?_ ?_ ?_ _
    ⟨rfl, fun _ => hstate⟩
  · intro s t hsame hdone
    rw [noMasks_alone, ← hsame.inputIds]
    exact of_decide_eq_true hdone i
  · intro s t hsame _ hrunning
    exact hsame.step hbatch hsingle
      (fun hnone => Bool.false_ne_true (hrunning.symm.trans ((noMasks_alone alg _).mpr hnone)))
  · intro s t hsame _ hdone
    exact hsame.idle ((noMasks_alone alg _).mp hdone)

/-- The fast path returns what the loop would have returned. -/
theorem run_inputIds (alg : LowConfidence V K) (model : ModelRunner σ R B V K) (runner : σ)
    (ids : Fin R → Block B V) :
    (alg.run model runner ids).inputIds = (alg.denoise model runner ids).inputIds := by
  rw [run]
  split_ifs with hnone
  · exact (congrArg LoopState.inputIds
      (boundedLoop_of_done (s := LoopState.mk ids runner) hnone B)).symm
  · rfl

end LowConfidence

end LladaHybrid.Decode
