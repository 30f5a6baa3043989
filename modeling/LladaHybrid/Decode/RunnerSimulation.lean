import LladaHybrid.Decode.LowConfidence
import Mathlib.Data.Option.Basic

namespace LladaHybrid.Decode

open LladaHybrid.Library

/-! Two model runners that answer alike, whatever memory they work on: both decoding
algorithms then read the same tokens off them. -/

variable {σ τ : Type*} {R B V : Nat} {K : Type*}

/-- Related memories give the same outputs and stay related. -/
structure ModelRunner.Simulates (model : ModelRunner σ R B V K) (model' : ModelRunner τ R B V K)
    (related : σ → τ → Prop) : Prop where
  output : ∀ {s t}, related s t → ∀ ids, (model.forward s ids).1 = (model'.forward t ids).1
  next : ∀ {s t}, related s t → ∀ ids, related (model.forward s ids).2 (model'.forward t ids).2

/-- Results that differ in the memory only. -/
structure RunResult.Same (related : σ → τ → Prop) (res : RunResult σ R B V K)
    (res' : RunResult τ R B V K) : Prop where
  inputIds : res.inputIds = res'.inputIds
  logitsOutput : res.logitsOutput = res'.logitsOutput
  nextTokenIdsList : res.nextTokenIdsList = res'.nextTokenIdsList
  runner : related res.runner res'.runner

variable {model : ModelRunner σ R B V K} {model' : ModelRunner τ R B V K}
  {related : σ → τ → Prop} {s : σ} {t : τ} (ids : Fin R → Block B V)

/-- The results of a last forward on the same tokens. -/
theorem ModelRunner.Simulates.result (simulates : model.Simulates model' related)
    (hrelated : related s t) (next : List (List (Fin V))) :
    RunResult.Same related
      ⟨ids, (model.forward s ids).1, next, (model.forward s ids).2⟩
      ⟨ids, (model'.forward t ids).1, next, (model'.forward t ids).2⟩ :=
  ⟨rfl, simulates.output hrelated ids, rfl, simulates.next hrelated ids⟩

section Run

variable [Field K] [LinearOrder K] [ExpOps K] [TopK K] [NeZero V]

namespace JointThreshold

/-- Loop states that differ in the memory only. -/
structure LoopState.Same (related : σ → τ → Prop) (state : LoopState σ R B V K)
    (state' : LoopState τ R B V K) : Prop where
  rows : state.rows = state'.rows
  logitsOutput : state.logitsOutput = state'.logitsOutput
  changed : state.anyChangedInLastStep = state'.anyChangedInLastStep
  runner : related state.runner state'.runner

omit [Field K] [LinearOrder K] [ExpOps K] [TopK K] [NeZero V] in
theorem LoopState.Same.inputIds {state : LoopState σ R B V K} {state' : LoopState τ R B V K}
    (same : LoopState.Same related state state') : state.inputIds = state'.inputIds := by
  funext i
  rw [LoopState.inputIds, LoopState.inputIds, same.rows]

theorem iterate_same (alg : JointThreshold V K) (simulates : model.Simulates model' related)
    {state : LoopState σ R B V K} {state' : LoopState τ R B V K}
    (same : LoopState.Same related state state') :
    LoopState.Same related (alg.iterate model state) (alg.iterate model' state') := by
  have hids := same.inputIds
  have houtput := simulates.output same.runner state'.inputIds
  constructor
  case rows => simp only [iterate, hids, houtput, same.rows]
  case logitsOutput => simp only [iterate, hids, houtput, same.rows]
  case changed => simp only [iterate, hids, houtput, same.rows]
  case runner =>
    simp only [iterate, hids]
    exact simulates.next same.runner state'.inputIds

theorem denoise_same (alg : JointThreshold V K) (simulates : model.Simulates model' related)
    (hrelated : related s t) :
    LoopState.Same related (alg.denoise model s ids) (alg.denoise model' t ids) := by
  have hdone : ∀ {state : LoopState σ R B V K} {state' : LoopState τ R B V K},
      LoopState.Same related state state' → state.allFinished = state'.allFinished := by
    intro state state' same
    rw [LoopState.allFinished, LoopState.allFinished, same.rows]
  refine boundedLoop_related (LoopState.Same related) ?_ ?_ ?_ _ ⟨rfl, rfl, rfl, hrelated⟩
  · intro state state' same hfinished
    rwa [← hdone same]
  · intro state state' same _ _
    exact alg.iterate_same simulates same
  · intro state state' same hrunning hfinished
    rw [hdone same, hfinished] at hrunning
    cases hrunning

theorem run_same (alg : JointThreshold V K) (simulates : model.Simulates model' related)
    (hrelated : related s t) :
    Option.Rel (RunResult.Same related) (alg.run model s ids) (alg.run model' t ids) := by
  rw [run, run]
  split_ifs with hnone
  · exact .some (simulates.result ids hrelated [])
  · have same := alg.denoise_same ids simulates hrelated
    rw [finish, finish, same.inputIds, same.changed, same.logitsOutput]
    split_ifs
    · exact .some (simulates.result _ same.runner _)
    · cases (alg.denoise model' t ids).logitsOutput with
      | none => exact .none
      | some out => exact .some ⟨rfl, rfl, rfl, same.runner⟩

end JointThreshold

namespace LowConfidence

theorem denoise_same (alg : LowConfidence V K) (simulates : model.Simulates model' related)
    (hrelated : related s t) :
    (alg.denoise model s ids).inputIds = (alg.denoise model' t ids).inputIds ∧
      related (alg.denoise model s ids).runner (alg.denoise model' t ids).runner := by
  refine boundedLoop_related (fun (state : LoopState σ R B V) (state' : LoopState τ R B V) =>
    state.inputIds = state'.inputIds ∧ related state.runner state'.runner) ?_ ?_ ?_ _
    ⟨rfl, hrelated⟩
  · rintro state state' ⟨hids, -⟩ hdone
    rwa [← hids]
  · rintro state state' ⟨hids, hrunner⟩ - -
    simp only [iterate, hids, simulates.output hrunner, true_and]
    exact simulates.next hrunner _
  · rintro state state' ⟨hids, -⟩ hrunning hdone
    rw [hids, hdone] at hrunning
    cases hrunning

theorem run_same (alg : LowConfidence V K) (simulates : model.Simulates model' related)
    (hrelated : related s t) :
    RunResult.Same related (alg.run model s ids) (alg.run model' t ids) := by
  rw [run, run]
  split_ifs
  · exact simulates.result ids hrelated []
  · obtain ⟨hids, hrunner⟩ := alg.denoise_same ids simulates hrelated
    simp only [hids]
    exact simulates.result _ hrunner _

end LowConfidence

end Run

end LladaHybrid.Decode
