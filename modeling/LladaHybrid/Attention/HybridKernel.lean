import LladaHybrid.Library.GridLaunch
import LladaHybrid.Library.Loop
import LladaHybrid.Attention.HybridAttention

namespace LladaHybrid.Attention

open LladaHybrid.Library

/-! The served hybrid attention: the block plan, the three Triton kernels and the host
code that launches them. State tensors are named by numbers, so that the tensors read
and written may be the same ones. -/

structure RequestBlockPlan where
  reqIndices : List Nat
  seqLens : List Nat
  startOffsets : List Nat
  numBlocks : List Nat
  maxBlocks : Nat
  blockSize : Nat

/-- The cumulative sum of the earlier lengths. -/
def startOffsets : Nat → List Nat → List Nat
  | _, [] => []
  | offset, length :: lengths => offset :: startOffsets (offset + length) lengths

def buildRequestBlockPlan (seqLens reqIndices : List Nat) (blockSize : Nat) :
    RequestBlockPlan :=
  if seqLens = [] then
    { reqIndices := [], seqLens := [], startOffsets := [], numBlocks := []
      maxBlocks := 0, blockSize }
  else
    let blocks := seqLens.map (fun length => (length + blockSize - 1) / blockSize)
    { reqIndices
      seqLens
      startOffsets := startOffsets 0 seqLens
      numBlocks := blocks
      maxBlocks := blocks.foldr max 0
      blockSize }

/-- One row of a launch: what `req_indices_ptr`, `start_offsets_ptr` and `seq_lens_ptr`
hold for a program. -/
structure LaunchRequest where
  slot : Nat
  startOffset : Nat
  seqLen : Nat

structure StateCell where
  tensor : Nat
  slot : Nat
  head : Nat
  deriving DecidableEq

variable {D F S : Nat} {K : Type*}

abbrev DeviceMemory (D F : Nat) (K : Type*) :=
  Memory StateCell (RecurrentState D F K) (Nat × Nat) (Vec D K)

abbrev HybridGridKernel (R H D F : Nat) (K : Type*) :=
  GridKernel (Fin R × Fin H) StateCell (RecurrentState D F K) (Nat × Nat) (Vec D K)

structure ServedHybrid (D F : Nat) (K : Type*) where
  params : HybridParams D F K
  alphaGateCache : Option (Nat → K)

/-- The tensors of a call: `q` is `[T, H, D]`, `k` and `v` are `[T, Hkv, D]`. -/
structure KernelInput (D : Nat) (K : Type*) where
  q : Nat → Nat → Vec D K
  k : Nat → Nat → Vec D K
  v : Nat → Nat → Vec D K
  kHeads : Nat
  vHeads : Nat

section Kernels

variable [Field K] [LinearOrder K] [ExpOps K]

/-- A masked load of the rows of a program's block. -/
def loadRows (S : Nat) (request : LaunchRequest) (x : Nat → Nat → Vec D K) (head : Nat)
    (s : Fin S) : Vec D K :=
  if s.val < request.seqLen then x (request.startOffset + s) head else fun _ => 0

def validRows (S : Nat) (request : LaunchRequest) : Finset (Fin S) :=
  Finset.univ.filter (fun s => s.val < request.seqLen)

/-- `e / tl.maximum(tl.sum(e), eps)` for `e = tl.exp2((u - tl.max(u)) * LOG2E)`. -/
def kernelSoftmax [NeZero F] (u : Fin F → K) (f : Fin F) : K :=
  let e := fun f => exp2 ((u f - Finset.univ.sup' ⟨0, Finset.mem_univ 0⟩ u) * log2e)
  e f / max (∑ g, e g) eps

def kernelPhi [NeZero F] (weights : Fin D → Fin F → K) (x : Vec D K) : Feature F → K :=
  Sum.elim (kernelSoftmax (hedgehog weights x))
    (kernelSoftmax (fun f => -hedgehog weights x f))

/-- `a_sm`: the masked `tl.exp2((scores - row_max) * LOG2E)`. -/
def kernelWeights (valid : Finset (Fin S)) (scores : Fin S → K) (j : Fin S) : K :=
  if h : valid.Nonempty then
    if j ∈ valid then exp2 ((scores j - valid.sup' h scores) * log2e) else 0
  else
    0

variable [NeZero F] (m : HybridParams D F K)

/-- The state update shared by the update kernel and the fused one. -/
def kernelUpdate (S : Nat) (input : KernelInput D K) (request : LaunchRequest)
    (kvHead stateHead : Nat) (old : RecurrentState D F K) : RecurrentState D F K :=
  let v := loadRows S request input.v kvHead
  let phiK := fun (s : Fin S) (f : Feature F) =>
    if s.val < request.seqLen then
      kernelPhi (m.hedgehogWeights stateHead) (loadRows S request input.k kvHead s) f
    else 0
  { S := fun f d => old.S f d + ∑ s, phiK s f * v s d
    Z := fun f => old.Z f + ∑ s, phiK s f }

/-- The output of row `s`, shared by the streaming output kernel and the fused one. -/
def kernelOutput (gate : Nat → K) (input : KernelInput D K) (request : LaunchRequest)
    (qHead kvHead stateHead : Nat) (state : RecurrentState D F K) (s : Fin S) : Vec D K :=
  let q := loadRows S request input.q qHead s
  let k := loadRows S request input.k kvHead
  let v := loadRows S request input.v kvHead
  let scores := fun j => (∑ d, q d * k j d) * m.scaling
  let aSm := kernelWeights (validRows S request) scores
  let smDen := max (∑ j, aSm j) eps
  let smNum := fun d => ∑ j, aSm j * v j d
  let phi := kernelPhi (m.hedgehogWeights stateHead) q
  let linNum := fun d =>
    ∑ f, phi (.inl f) * state.S (.inl f) d + ∑ f, phi (.inr f) * state.S (.inr f) d
  let linDen := max
    (∑ f, phi (.inl f) * state.Z (.inl f) + ∑ f, phi (.inr f) * state.Z (.inr f)) eps
  let w := gate qHead
  fun d => (w * smNum d + linNum d) / max (w * smDen + linDen) eps

def storeRows (request : LaunchRequest) (head : Nat) (row : Nat → Vec D K)
    (key : Nat × Nat) : Option (Vec D K) :=
  if key.2 = head ∧ request.startOffset ≤ key.1 ∧
      key.1 < request.startOffset + request.seqLen then
    some (row (key.1 - request.startOffset))
  else
    none

variable [NeZero S] (numKvGroups : Nat) (gate : Nat → K) (input : KernelInput D K)
  (requests : List LaunchRequest)

/-- `_hybrid_update_state_kernel_rw` on a grid of requests and state heads. -/
def updateStateKernel (S readTensor writeTensor updateHeads : Nat) :
    HybridGridKernel requests.length updateHeads D F K where
  load p := ⟨readTensor, (requests.get p.1).slot, p.2⟩
  store p := some ⟨writeTensor, (requests.get p.1).slot, p.2⟩
  value p := kernelUpdate m S input (requests.get p.1)
    (if m.shareKvGroups then p.2 else p.2 / numKvGroups) p.2
  rows _ _ _ := none

/-- `_hybrid_output_kernel_streaming` on a grid of requests and query heads. -/
def outputKernel (S : Nat) [NeZero S] (readTensor : Nat) :
    HybridGridKernel requests.length m.numHeads D F K where
  load p := ⟨readTensor, (requests.get p.1).slot,
    if m.shareKvGroups then p.2 / numKvGroups else p.2⟩
  store _ := none
  value _ state := state
  rows p state := storeRows (requests.get p.1) p.2 (fun s =>
    kernelOutput m gate input (requests.get p.1) p.2 (p.2 / numKvGroups)
      (if m.shareKvGroups then p.2 / numKvGroups else p.2) state (Fin.ofNat S s))

/-- `_hybrid_output_update_kernel_fused_perq` on a grid of requests and query heads. -/
def fusedKernel (S : Nat) [NeZero S] (readTensor writeTensor : Nat) :
    HybridGridKernel requests.length m.numHeads D F K where
  load p := ⟨readTensor, (requests.get p.1).slot, p.2⟩
  store p := some ⟨writeTensor, (requests.get p.1).slot, p.2⟩
  value p := kernelUpdate m S input (requests.get p.1) (p.2 / numKvGroups) p.2
  rows p state := storeRows (requests.get p.1) p.2 (fun s =>
    kernelOutput m gate input (requests.get p.1) p.2 (p.2 / numKvGroups) p.2 state
      (Fin.ofNat S s))

end Kernels

section Host

variable [Field K] [LinearOrder K] [ExpOps K] [NeZero F]

def ServedHybrid.alphaGate (m : ServedHybrid D F K) : Nat → K :=
  m.alphaGateCache.getD (fun h => sigmoid (m.params.alpha h))

def HybridParams.updateHeads (m : HybridParams D F K) : Nat :=
  if m.shareKvGroups then m.numKvHeads else m.numHeads

/-- `num_kv_groups` from the shapes of `k` and `v`; `none` where the source raises. -/
def kvGroups (m : HybridParams D F K) (input : KernelInput D K) : Option Nat :=
  if input.kHeads ≠ input.vHeads then none
  else if input.kHeads = m.numKvHeads then some (m.numHeads / m.numKvHeads)
  else if input.kHeads = m.numHeads then some 1
  else none

def RequestBlockPlan.requests (plan : RequestBlockPlan) : List LaunchRequest :=
  List.zipWith (fun slot row => ⟨slot, row.1, row.2⟩) plan.reqIndices
    (plan.startOffsets.zip plan.seqLens)

/-- The requests with a block `blockIdx`, cut down to that block. -/
def RequestBlockPlan.activeRequests (plan : RequestBlockPlan) (S blockIdx : Nat) :
    List LaunchRequest :=
  ((plan.requests.zip plan.numBlocks).filter (fun row => blockIdx < row.2)).map (fun row =>
    { slot := row.1.slot
      startOffset := row.1.startOffset + blockIdx * S
      seqLen := min (row.1.seqLen - blockIdx * S) S })

/-- An execution order for each launch of a call. -/
abbrev Scheduler := Nat → (R H : Nat) → GridSchedule (Fin R × Fin H)

variable (m : ServedHybrid D F K) (S : Nat) [NeZero S] (schedule : Scheduler)
  (numKvGroups : Nat) (input : KernelInput D K) (writeTensor : Nat)

/-- The output launch, which sees the state before the block, then the update launch. -/
def outputThenUpdate (readTensor blockIdx : Nat) (requests : List LaunchRequest)
    (memory : DeviceMemory D F K) : DeviceMemory D F K :=
  let written := launch (outputKernel m.params numKvGroups m.alphaGate input requests S
    readTensor) (schedule (2 * blockIdx) _ _) memory
  launch (updateStateKernel m.params numKvGroups input requests S readTensor writeTensor
    m.params.updateHeads) (schedule (2 * blockIdx + 1) _ _) written

/-- One pass of the multi-block loop: blocks after the first read what the previous
one wrote. -/
def multiBlockStep (plan : RequestBlockPlan) (readTensor : Nat)
    (s : Nat × DeviceMemory D F K) : Nat × DeviceMemory D F K :=
  (s.1 + 1, outputThenUpdate m S schedule numKvGroups input writeTensor
    (if s.1 = 0 then readTensor else writeTensor) s.1 (plan.activeRequests S s.1) s.2)

def multiBlockLoop (plan : RequestBlockPlan) (readTensor : Nat)
    (memory : DeviceMemory D F K) : Nat × DeviceMemory D F K :=
  boundedLoop (fun s => (plan.activeRequests S s.1).isEmpty)
    (multiBlockStep m S schedule numKvGroups input writeTensor plan readTensor)
    plan.maxBlocks (0, memory)

def runPlan (plan : RequestBlockPlan) (readTensor : Nat) (memory : DeviceMemory D F K) :
    DeviceMemory D F K :=
  if plan.maxBlocks = 0 then
    memory
  else if plan.maxBlocks = 1 then
    if m.params.shareKvGroups then
      outputThenUpdate m S schedule numKvGroups input writeTensor readTensor 0
        plan.requests memory
    else
      launch (fusedKernel m.params numKvGroups m.alphaGate input plan.requests S readTensor
        writeTensor) (schedule 0 _ _) memory
  else
    (multiBlockLoop m S schedule numKvGroups input writeTensor plan readTensor memory).2

/-- `_run_kernels`, with the module's cached gate after the call. -/
def runKernels (plan : RequestBlockPlan) (readTensor : Nat)
    (memory : DeviceMemory D F K) : Option (DeviceMemory D F K × ServedHybrid D F K) :=
  (kvGroups m.params input).map (fun groups =>
    (runPlan m S schedule groups input writeTensor plan readTensor memory,
      if plan.maxBlocks = 0 then m else { m with alphaGateCache := some m.alphaGate }))

end Host

end LladaHybrid.Attention
