import LladaHybrid.Serving.BlockPlans
import LladaHybrid.Attention.PlanLaunches

namespace LladaHybrid.Serving.LLaDAFastBackend

open LladaHybrid.Attention LladaHybrid.Library

/-! `forward_qkv` on an eager batch: the kernels store their rows by pointer into a buffer
that was sized from the request pool, and the caller gets its leading rows. -/

instance : NeZero blockSize := ⟨by decide⟩

variable {D F : Nat} {K : Type*} {L S Z : Type}

/-- `_out_buf`: allocated once, never cleared, shared by all layers and batches. -/
structure OutBuffer (D : Nat) (K : Type*) where
  rows : Nat
  content : Nat → Nat → Vec D K

/-- The rows of `_out_buf` for a request pool, with what the memory happened to hold. -/
def allocateOutBuffer (pool : HybridReqToTokenPool L S Z) (content : Nat → Nat → Vec D K) :
    OutBuffer D K where
  rows := pool.size * blockSize
  content

structure QkvOutput (D F : Nat) (K : Type*) where
  returned : List (Nat → Vec D K)
  stored : Nat × Nat → List (Vec D K)
  buffer : OutBuffer D K
  cells : StateCell → RecurrentState D F K
  mixer : ServedHybrid D F K

variable [Field K] [LinearOrder K] [ExpOps K] [NeZero F]

/-- `forward_qkv` for `T` tokens, with the rows that its kernels store. -/
def forwardQkv (mixer : ServedHybrid D F K) (schedule : Scheduler) (T : Nat)
    (input : KernelInput D K) (plan : RequestBlockPlan) (readTensor writeTensor : Nat)
    (buffer : OutBuffer D K) (cells : StateCell → RecurrentState D F K) :
    Option (QkvOutput D F K) :=
  (runKernels mixer blockSize schedule input writeTensor plan readTensor
    ⟨cells, fun _ => []⟩).map (fun (memory, mixer) =>
      let content := fun t h => (memory.out (t, h)).getLast?.getD (buffer.content t h)
      { returned := (List.range (min T buffer.rows)).map content
        stored := memory.out
        buffer := { buffer with content }
        cells := memory.cells
        mixer })

/-- The caller gets one row for each token, all stored inside the buffer by this call. -/
structure CoversBatch (T numHeads : Nat) (buffer : OutBuffer D K) (output : QkvOutput D F K) :
    Prop where
  rows : output.returned.length = T
  inside : ∀ t h, output.stored (t, h) ≠ [] → t < buffer.rows ∧ h < numHeads
  fresh : ∀ t < output.returned.length, ∀ h < numHeads, output.stored (t, h) ≠ []

section Coverage

variable {mixer : ServedHybrid D F K} {input : KernelInput D K} {batch : ExtendBatch}

theorem stored_forwardQkv (pool : HybridReqToTokenPool L S Z) (buffers : EagerBuffers)
    (positive : ∀ length ∈ batch.extendSeqLens, 0 < length)
    (hk : input.kHeads = mixer.params.numKvHeads) (hv : input.vHeads = mixer.params.numKvHeads)
    (schedule : Scheduler) (T readTensor writeTensor : Nat) (buffer : OutBuffer D K)
    (cells : StateCell → RecurrentState D F K) :
    ∃ output, forwardQkv mixer schedule T input (initForwardMetadata pool buffers batch).1
        readTensor writeTensor buffer cells = some output ∧
      output.returned.length = min T buffer.rows ∧
      ∀ t h, output.stored (t, h) ≠ [] ↔
        t < batch.extendSeqLens.sum ∧ h < mixer.params.numHeads := by
  rw [initForwardMetadata_eq pool buffers positive]
  have sameLength : (batch.reqPoolIndices.map pool.reqIndexToMambaIndex).length =
      batch.extendSeqLens.length := by
    rw [List.length_map, batch.sameLength]
  refine ⟨_, by rw [forwardQkv, runKernels_grouped hk hv, Option.map_some], ?_, ?_⟩
  · rw [List.length_map, List.length_range]
  · intro t h
    dsimp only
    rw [runPlan_eq_runLaunches]
    have uniform : ∀ planned ∈ planLaunches mixer blockSize mixer.params.numKvGroups input
        writeTensor (buildRequestBlockPlan batch.extendSeqLens
          (batch.reqPoolIndices.map pool.reqIndexToMambaIndex) blockSize) readTensor,
        planned.Uniform :=
      fun planned hplanned => planLaunches_uniform hplanned
    obtain ⟨rows, hrows, hwritten⟩ := runLaunches_out uniform schedule 0 ⟨cells, fun _ => []⟩ (t, h)
    rw [hrows, List.nil_append, hwritten]
    exact planLaunches_writes positive sameLength

theorem coversBatch_iff (pool : HybridReqToTokenPool L S Z) (buffers : EagerBuffers)
    (positive : ∀ length ∈ batch.extendSeqLens, 0 < length)
    (hk : input.kHeads = mixer.params.numKvHeads) (hv : input.vHeads = mixer.params.numKvHeads)
    (schedule : Scheduler) (readTensor writeTensor : Nat) (content : Nat → Nat → Vec D K)
    (cells : StateCell → RecurrentState D F K) :
    ∃ output, forwardQkv mixer schedule batch.extendSeqLens.sum input
        (initForwardMetadata pool buffers batch).1 readTensor writeTensor
        (allocateOutBuffer pool content) cells = some output ∧
      (CoversBatch batch.extendSeqLens.sum mixer.params.numHeads
          (allocateOutBuffer pool content) output ↔
        batch.extendSeqLens.sum ≤ pool.size * blockSize) := by
  obtain ⟨output, hrun, hreturned, hstored⟩ := stored_forwardQkv pool buffers positive hk hv
    schedule batch.extendSeqLens.sum readTensor writeTensor (allocateOutBuffer pool content) cells
  refine ⟨output, hrun, ?_⟩
  constructor
  · intro covers
    rw [← covers.rows, hreturned]
    exact Nat.min_le_right _ _
  · intro hfits
    have hrows : output.returned.length = batch.extendSeqLens.sum :=
      hreturned.trans (Nat.min_eq_left hfits)
    refine ⟨hrows, ?_, ?_⟩
    · intro t h hwritten
      obtain ⟨ht, hh⟩ := (hstored t h).mp hwritten
      exact ⟨ht.trans_le hfits, hh⟩
    · intro t ht h hh
      exact (hstored t h).mpr ⟨hrows ▸ ht, hh⟩

end Coverage

namespace OneHead

noncomputable def mixer : ServedHybrid 1 1 ℝ :=
  ⟨⟨1, 1, false, 1, fun _ _ _ => 1, fun _ => 0⟩, none⟩

noncomputable def input : KernelInput 1 ℝ :=
  ⟨fun _ _ _ => 1, fun _ _ _ => 5, fun _ _ _ => 3, 1, 1⟩

def pool (size : Nat) : HybridReqToTokenPool Unit Nat Nat := .new Unit Nat Nat size size

/-- Two requests of one block in a pool of four. -/
theorem coversBatch_blocks :
    ∃ output, forwardQkv mixer rowMajorScheduler 64 input
        (initForwardMetadata (pool 4) .zeros (.initNew true [3, 1] [32, 32] rfl)).1 0 1
        (allocateOutBuffer (pool 4) (fun _ _ _ => 7)) (fun _ => .zero) = some output ∧
      CoversBatch 64 1 (allocateOutBuffer (pool 4) (fun _ _ _ => 7)) output := by
  have hk : input.kHeads = mixer.params.numKvHeads := rfl
  have positive : ∀ length ∈ (ExtendBatch.initNew true [3, 1] [32, 32] rfl).extendSeqLens,
      0 < length := by
    decide
  obtain ⟨output, hrun, hcovers⟩ := coversBatch_iff (pool 4) .zeros positive hk hk
    rowMajorScheduler 0 1 (fun _ _ _ => 7) (fun _ => .zero)
  exact ⟨output, hrun, hcovers.mpr (by decide)⟩

/-- A pool of one request and a prompt of `33` tokens: the buffer has `32` rows. -/
theorem not_coversBatch_two_blocks :
    ∃ output, forwardQkv mixer rowMajorScheduler 33 input
        (initForwardMetadata (pool 1) .zeros (.initNew true [0] [33] rfl)).1 0 1
        (allocateOutBuffer (pool 1) (fun _ _ _ => 7)) (fun _ => .zero) = some output ∧
      output.returned.length = 32 ∧ output.stored (32, 0) ≠ [] ∧
      ¬ CoversBatch 33 1 (allocateOutBuffer (pool 1) (fun _ _ _ => 7)) output := by
  have hk : input.kHeads = mixer.params.numKvHeads := rfl
  have positive : ∀ length ∈ (ExtendBatch.initNew true [0] [33] rfl).extendSeqLens,
      0 < length := by
    decide
  obtain ⟨output, hrun, hreturned, hstored⟩ := stored_forwardQkv (pool 1) .zeros positive hk hk
    rowMajorScheduler 33 0 1 (allocateOutBuffer (pool 1) (fun _ _ _ => 7)) (fun _ => .zero)
  refine ⟨output, hrun, hreturned, (hstored 32 0).mpr ⟨by decide, by decide⟩, ?_⟩
  intro covers
  exact absurd (hreturned.symm.trans covers.rows) (by decide)

end OneHead

end LladaHybrid.Serving.LLaDAFastBackend
