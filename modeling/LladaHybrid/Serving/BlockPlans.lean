import LladaHybrid.Serving.CudaGraph
import LladaHybrid.Attention.BlockPlan

namespace LladaHybrid.Serving

open LladaHybrid.Attention

/-! The builders of the block plan: the eager one reads the lengths of the batch, the one
for captured graphs was fixed at start-up for blocks of `_LLADA_FAST_BLOCK_SIZE` tokens, and
`build_request_block_plan` is the reference. The size of the blocks that the scheduler cuts
comes from `DllmConfig`. -/

inductive YamlValue
  | int (value : Int)
  | text (value : String)
  deriving DecidableEq

structure ServerArgs where
  dllmAlgorithm : Option String
  architecture : String
  maxRunningRequests : Option Nat
  dllmAlgorithmConfig : Option String

structure DllmConfig where
  algorithm : String
  algorithmConfig : List (String × YamlValue)
  blockSize : YamlValue
  maskId : Nat
  maxRunningRequests : Nat
  deriving DecidableEq

inductive DllmConfigError
  | unknownDiffusionLlm (arch : String)
  | unreadable (path : String)
  deriving DecidableEq

/-- `DLLM_PARAMS`: the block size and the mask token of each architecture. -/
def dllmParams : List (String × Nat × Nat) :=
  [("LLaDA2MoeModelLM", 32, 156895), ("LLaDAFastForCausalLM", 32, 156895),
    ("SDARForCausalLM", 4, 151669), ("SDARMoeForCausalLM", 4, 151669)]

/-- `DllmConfig.from_server_args`; `files` maps the readable YAML files to their mappings. -/
def DllmConfig.fromServerArgs (files : String → Option (List (String × YamlValue)))
    (args : ServerArgs) : Except DllmConfigError (Option DllmConfig) :=
  match args.dllmAlgorithm with
  | none => .ok none
  | some algorithm =>
      match dllmParams.lookup args.architecture with
      | none => .error (.unknownDiffusionLlm args.architecture)
      | some (blockSize, maskId) =>
          let maxRunningRequests := args.maxRunningRequests.getD 1
          match args.dllmAlgorithmConfig with
          | none => .ok (some ⟨algorithm, [], .int blockSize, maskId, maxRunningRequests⟩)
          | some path =>
              match files path with
              | none => .error (.unreadable path)
              | some algorithmConfig =>
                  .ok (some ⟨algorithm, algorithmConfig,
                    (algorithmConfig.lookup "block_size").getD (.int blockSize), maskId,
                    maxRunningRequests⟩)

/-- The block size that the algorithm's own file asks for. -/
def ServerArgs.requestedBlockSize (files : String → Option (List (String × YamlValue)))
    (args : ServerArgs) : Option YamlValue :=
  args.dllmAlgorithmConfig.bind (fun path =>
    (files path).bind (fun algorithmConfig => algorithmConfig.lookup "block_size"))

theorem DllmConfig.blockSize_eq {files : String → Option (List (String × YamlValue))}
    {args : ServerArgs} {config : DllmConfig}
    (hconfig : fromServerArgs files args = .ok (some config))
    (harch : args.architecture = "LLaDAFastForCausalLM") :
    config.blockSize = (args.requestedBlockSize files).getD (.int 32) := by
  have hparams : dllmParams.lookup "LLaDAFastForCausalLM" = some (32, 156895) := by decide
  unfold fromServerArgs at hconfig
  rw [harch, hparams] at hconfig
  unfold ServerArgs.requestedBlockSize
  cases halgorithm : args.dllmAlgorithm with
  | none =>
      rw [halgorithm] at hconfig
      cases hconfig
  | some algorithm =>
      rw [halgorithm] at hconfig
      cases hpath : args.dllmAlgorithmConfig with
      | none =>
          rw [hpath] at hconfig
          cases hconfig
          rfl
      | some path =>
          rw [hpath] at hconfig
          dsimp only at hconfig
          cases hfile : files path with
          | none =>
              rw [hfile] at hconfig
              cases hconfig
          | some algorithmConfig =>
              rw [hfile] at hconfig
              cases hconfig
              rw [Option.bind_some, hfile, Option.bind_some]
              rfl

/-! Where each request starts. -/

def cumsum : Nat → List Nat → List Nat
  | _, [] => []
  | total, length :: lengths => (total + length) :: cumsum (total + length) lengths

/-- The start locations that `compute_position_kernel` stores, one per program. -/
def computePositionTriton (extendSeqLens : List Nat) : List Nat :=
  (List.range extendSeqLens.length).map (fun pid =>
    (List.range pid).foldl (fun cumsumStart i => cumsumStart + extendSeqLens.getD i 0) 0)

/-- The start locations of `compute_position_torch`. -/
def computePositionTorch : List Nat → List Nat
  | [] => []
  | length :: lengths => 0 :: cumsum 0 (length :: lengths).dropLast

theorem startOffsets_eq_cumsum (offset length : Nat) (lengths : List Nat) :
    startOffsets offset (length :: lengths) =
      offset :: cumsum offset (length :: lengths).dropLast := by
  induction lengths generalizing offset length with
  | nil => rfl
  | cons next lengths ih => rw [startOffsets, ih, List.dropLast_cons_cons, cumsum]

theorem computePositionTorch_eq (lengths : List Nat) :
    computePositionTorch lengths = startOffsets 0 lengths := by
  cases lengths with
  | nil => rfl
  | cons length lengths => exact (startOffsets_eq_cumsum 0 length lengths).symm

theorem foldl_getD_eq_sum_take (lengths : List Nat) {pid : Nat} (hpid : pid ≤ lengths.length) :
    (List.range pid).foldl (fun total i => total + lengths.getD i 0) 0 =
      (lengths.take pid).sum := by
  induction pid with
  | zero => simp
  | succ pid ih =>
      have hlt : pid < lengths.length := hpid
      rw [List.range_succ, List.foldl_append, ih hlt.le, List.take_add_one, List.sum_append,
        List.getElem?_eq_getElem hlt]
      simp [List.getElem?_eq_getElem hlt]

theorem computePositionTriton_eq (lengths : List Nat) :
    computePositionTriton lengths = startOffsets 0 lengths := by
  apply List.ext_getElem
  · simp [computePositionTriton, length_startOffsets]
  · intro r hr _
    have hlt : r < lengths.length := by simpa [computePositionTriton] using hr
    rw [getElem_startOffsets, Nat.zero_add]
    simp only [computePositionTriton, List.getElem_map, List.getElem_range]
    exact foldl_getD_eq_sum_take lengths hlt.le

/-- The fields of an extend batch that the backend reads. The locations and the lengths on
the host are optional; what is there belongs to the batch. -/
structure ExtendBatch where
  reqPoolIndices : List Nat
  extendSeqLens : List Nat
  extendStartLoc : Option (List Nat)
  extendSeqLensCpu : Option (List Nat)
  sameLength : reqPoolIndices.length = extendSeqLens.length
  startLoc : ∀ locations, extendStartLoc = some locations →
    locations = startOffsets 0 extendSeqLens
  lensCpu : ∀ lengths, extendSeqLensCpu = some lengths → lengths = extendSeqLens

/-- The extend fields of `ForwardBatch.init_new`. -/
def ExtendBatch.initNew (supportTriton : Bool) (reqPoolIndices extendSeqLens : List Nat)
    (sameLength : reqPoolIndices.length = extendSeqLens.length) : ExtendBatch where
  reqPoolIndices
  extendSeqLens
  extendStartLoc := some
    (if supportTriton then computePositionTriton extendSeqLens
      else computePositionTorch extendSeqLens)
  extendSeqLensCpu := some extendSeqLens
  sameLength
  startLoc locations hlocations := by
    cases hlocations
    split_ifs
    · exact computePositionTriton_eq extendSeqLens
    · exact computePositionTorch_eq extendSeqLens
  lensCpu lengths hlengths := (Option.some.inj hlengths).symm

namespace LLaDAFastBackend

def blockSize : Nat := 32

/-- The buffers of the eager path, for at most `max_bs` requests. The first start offset is
never written. -/
structure EagerBuffers where
  startOffsetsBuf : Nat → Nat
  numBlocksBuf : Nat → Nat
  first : startOffsetsBuf 0 = 0

def EagerBuffers.zeros : EagerBuffers where
  startOffsetsBuf _ := 0
  numBlocksBuf _ := 0
  first := rfl

/-- `torch.cumsum(seq_lens[:-1], out=start_offsets_buf[1:bs])`. -/
def EagerBuffers.cumsumInto (buffers : EagerBuffers) (seqLens : List Nat) : EagerBuffers where
  startOffsetsBuf i :=
    if i = 0 then buffers.startOffsetsBuf 0
    else (cumsum 0 seqLens.dropLast).getD (i - 1) (buffers.startOffsetsBuf i)
  numBlocksBuf := buffers.numBlocksBuf
  first := buffers.first

def EagerBuffers.setNumBlocks (buffers : EagerBuffers) (values : List Nat) : EagerBuffers where
  startOffsetsBuf := buffers.startOffsetsBuf
  numBlocksBuf i := values.getD i (buffers.numBlocksBuf i)
  first := buffers.first

def firstRows (buffer : Nat → Nat) (bs : Nat) : List Nat := (List.range bs).map buffer

variable {L S Z : Type}

/-- `start_offsets`, with the buffers after a cumulative sum that had to be taken. -/
def startOffsetsOf (buffers : EagerBuffers) (batch : ExtendBatch) : List Nat × EagerBuffers :=
  let bs := batch.extendSeqLens.length
  match batch.extendStartLoc with
  | some locations => (locations, buffers)
  | none =>
      let buffers := if 1 < bs then buffers.cumsumInto batch.extendSeqLens else buffers
      (firstRows buffers.startOffsetsBuf bs, buffers)

/-- The contents of `num_blocks`, and `max_blocks`. -/
def numBlocksOf (batch : ExtendBatch) : List Nat × Nat :=
  let bs := batch.extendSeqLens.length
  let blocks := batch.extendSeqLens.map (fun length => (length + (blockSize - 1)) / blockSize)
  match batch.extendSeqLensCpu with
  | some lengths =>
      let maxBlocks :=
        if 0 < bs then
          ((lengths.take bs).map (fun length => (length + blockSize - 1) / blockSize)).foldr max 0
        else
          0
      (if maxBlocks ≤ 1 then List.replicate bs 1 else blocks, maxBlocks)
  | none => (blocks, if 0 < bs then blocks.foldr max 0 else 0)

/-- The plan of `init_forward_metadata`, with the buffers it leaves. -/
def initForwardMetadata (pool : HybridReqToTokenPool L S Z) (buffers : EagerBuffers)
    (batch : ExtendBatch) : RequestBlockPlan × EagerBuffers :=
  let (offsets, buffers) := startOffsetsOf buffers batch
  let (blocks, maxBlocks) := numBlocksOf batch
  let buffers := buffers.setNumBlocks blocks
  ({ reqIndices := batch.reqPoolIndices.map pool.reqIndexToMambaIndex
     seqLens := batch.extendSeqLens
     startOffsets := offsets
     numBlocks := firstRows buffers.numBlocksBuf batch.extendSeqLens.length
     maxBlocks
     blockSize }, buffers)

/-- The constant geometry of `init_cuda_graph_state`. -/
structure GraphBuffers where
  cgStartOffsets : List Nat
  cgNumBlocks : List Nat
  cgSeqLens : List Nat

def initCudaGraphState (maxBs : Nat) : GraphBuffers where
  cgStartOffsets := (List.range (maxBs + 1)).map (fun i => i * blockSize)
  cgNumBlocks := List.replicate maxBs 1
  cgSeqLens := List.replicate maxBs blockSize

/-- The plan of `_build_cuda_graph_metadata` for a batch without padding. -/
def cudaGraphPlan (pool : HybridReqToTokenPool L S Z) (buffers : GraphBuffers)
    (reqPoolIndices : List Nat) : RequestBlockPlan :=
  let bs := reqPoolIndices.length
  { reqIndices := List.ofFn
      (buildCudaGraphMetadata pool bs (fun i => reqPoolIndices.getD i 0) 0)
    seqLens := buffers.cgSeqLens.take bs
    startOffsets := buffers.cgStartOffsets.take bs
    numBlocks := buffers.cgNumBlocks.take bs
    maxBlocks := 1
    blockSize }

theorem firstRows_getD (values : List Nat) (buffer : Nat → Nat) :
    firstRows (fun i => values.getD i (buffer i)) values.length = values := by
  apply List.ext_getElem
  · simp [firstRows]
  · intro i _ hi
    simp [firstRows, List.getElem?_eq_getElem hi]

theorem firstRows_cumsumInto (buffers : EagerBuffers) (length : Nat) (lengths : List Nat) :
    firstRows (buffers.cumsumInto (length :: lengths)).startOffsetsBuf (length :: lengths).length =
      startOffsets 0 (length :: lengths) := by
  have hlength := congrArg List.length (startOffsets_eq_cumsum 0 length lengths)
  rw [length_startOffsets, List.length_cons, List.length_cons, Nat.add_right_cancel_iff] at hlength
  have hrest := firstRows_getD (cumsum 0 (length :: lengths).dropLast)
    (fun i => buffers.startOffsetsBuf (i + 1))
  rw [← hlength] at hrest
  rw [startOffsets_eq_cumsum, firstRows, List.length_cons, List.range_succ_eq_map, List.map_cons,
    List.map_map]
  exact congrArg₂ List.cons buffers.first hrest

theorem startOffsetsOf_fst (buffers : EagerBuffers) (batch : ExtendBatch) :
    (startOffsetsOf buffers batch).1 = startOffsets 0 batch.extendSeqLens := by
  unfold startOffsetsOf
  cases hlocations : batch.extendStartLoc with
  | some locations => exact batch.startLoc locations hlocations
  | none =>
      dsimp only
      cases batch.extendSeqLens with
      | nil => rfl
      | cons length lengths =>
          cases lengths with
          | nil =>
              rw [if_neg (by simp)]
              exact congrArg (fun offset => [offset]) buffers.first
          | cons next lengths =>
              rw [if_pos (by simp)]
              exact firstRows_cumsumInto buffers length (next :: lengths)

def blocksOf (seqLens : List Nat) : List Nat :=
  seqLens.map (fun length => (length + blockSize - 1) / blockSize)

theorem le_foldr_max {values : List Nat} {value : Nat} (hvalue : value ∈ values) :
    value ≤ values.foldr max 0 :=
  List.le_max_of_le hvalue le_rfl

/-- The shortcut for one block per request stores what the division would. -/
theorem blocksOf_eq_replicate {seqLens : List Nat} (positive : ∀ length ∈ seqLens, 0 < length)
    (hmax : (blocksOf seqLens).foldr max 0 ≤ 1) :
    List.replicate seqLens.length 1 = blocksOf seqLens := by
  symm
  rw [List.eq_replicate_iff]
  refine ⟨by simp [blocksOf], ?_⟩
  intro blocks hblocks
  have hle := (le_foldr_max hblocks).trans hmax
  obtain ⟨length, hlength, rfl⟩ := List.mem_map.mp hblocks
  have hpos := positive length hlength
  simp only [blockSize] at hle ⊢
  omega

theorem numBlocksOf_eq {batch : ExtendBatch}
    (positive : ∀ length ∈ batch.extendSeqLens, 0 < length) :
    numBlocksOf batch =
      (blocksOf batch.extendSeqLens, (blocksOf batch.extendSeqLens).foldr max 0) := by
  have hmax : (if 0 < batch.extendSeqLens.length then
      (blocksOf batch.extendSeqLens).foldr max 0 else 0) =
        (blocksOf batch.extendSeqLens).foldr max 0 := by
    cases batch.extendSeqLens <;> rfl
  unfold numBlocksOf
  cases hlengths : batch.extendSeqLensCpu with
  | none =>
      dsimp only
      exact congrArg₂ Prod.mk rfl hmax
  | some lengths =>
      cases batch.lensCpu lengths hlengths
      dsimp only
      rw [List.take_length, ← blocksOf, hmax]
      refine congrArg₂ Prod.mk ?_ rfl
      split_ifs with hone
      · exact blocksOf_eq_replicate positive hone
      · rfl

/-- The eager plan is the reference plan, whatever the buffers held. -/
theorem initForwardMetadata_eq (pool : HybridReqToTokenPool L S Z) (buffers : EagerBuffers)
    {batch : ExtendBatch} (positive : ∀ length ∈ batch.extendSeqLens, 0 < length) :
    (initForwardMetadata pool buffers batch).1 =
      buildRequestBlockPlan batch.extendSeqLens
        (batch.reqPoolIndices.map pool.reqIndexToMambaIndex) blockSize := by
  have hblocks : firstRows ((startOffsetsOf buffers batch).2.setNumBlocks
      (blocksOf batch.extendSeqLens)).numBlocksBuf batch.extendSeqLens.length =
        blocksOf batch.extendSeqLens := by
    have hrows := firstRows_getD (blocksOf batch.extendSeqLens)
      (startOffsetsOf buffers batch).2.numBlocksBuf
    rwa [blocksOf, List.length_map] at hrows
  unfold initForwardMetadata buildRequestBlockPlan
  rw [numBlocksOf_eq positive]
  dsimp only
  rw [startOffsetsOf_fst, hblocks]
  split_ifs with hempty
  · have hnone := batch.sameLength
    rw [hempty, List.length_nil, List.length_eq_zero_iff] at hnone
    simp [hempty, hnone, startOffsets, blocksOf]
  · rfl

theorem ofFn_buildCudaGraphMetadata (pool : HybridReqToTokenPool L S Z)
    (reqPoolIndices : List Nat) :
    List.ofFn (buildCudaGraphMetadata pool reqPoolIndices.length
      (fun i => reqPoolIndices.getD i 0) 0) = reqPoolIndices.map pool.reqIndexToMambaIndex := by
  apply List.ext_getElem
  · simp
  · intro i hi _
    have hlt : i < reqPoolIndices.length := by simpa using hi
    simp [buildCudaGraphMetadata, List.getElem?_eq_getElem hlt]

theorem take_range_map_eq {bs maxBs : Nat} (hle : bs ≤ maxBs) :
    ((List.range (maxBs + 1)).map (fun i => i * blockSize)).take bs =
      startOffsets 0 (List.replicate bs blockSize) := by
  apply List.ext_getElem
  · simp [length_startOffsets]
    omega
  · intro r hr _
    have hlt : r ≤ bs := by
      simp only [List.length_take] at hr
      omega
    rw [getElem_startOffsets]
    simp [List.take_replicate, hlt]

theorem foldr_max_replicate {bs : Nat} (hpos : 0 < bs) (value : Nat) :
    (List.replicate bs value).foldr max 0 = value := by
  induction bs with
  | zero => cases hpos
  | succ bs ih =>
      rw [List.replicate_succ, List.foldr_cons]
      cases bs with
      | zero => exact Nat.max_zero value
      | succ bs => rw [ih (Nat.succ_pos bs), Nat.max_self]

/-- The captured plan is the reference plan for blocks of `_LLADA_FAST_BLOCK_SIZE` tokens. -/
theorem cudaGraphPlan_eq (pool : HybridReqToTokenPool L S Z) {maxBs : Nat}
    {reqPoolIndices : List Nat} (hpos : 0 < reqPoolIndices.length)
    (hle : reqPoolIndices.length ≤ maxBs) :
    cudaGraphPlan pool (initCudaGraphState maxBs) reqPoolIndices =
      buildRequestBlockPlan (List.replicate reqPoolIndices.length blockSize)
        (reqPoolIndices.map pool.reqIndexToMambaIndex) blockSize := by
  have hblocks : (blockSize + blockSize - 1) / blockSize = 1 := rfl
  have hnonempty : List.replicate reqPoolIndices.length blockSize ≠ [] := by
    simpa using hpos.ne'
  rw [buildRequestBlockPlan, if_neg hnonempty]
  simp only [cudaGraphPlan, initCudaGraphState, ofFn_buildCudaGraphMetadata,
    take_range_map_eq hle, List.take_replicate, Nat.min_eq_left hle, List.map_replicate, hblocks,
    foldr_max_replicate hpos]

theorem cudaGraphPlan_seqLens (pool : HybridReqToTokenPool L S Z) {maxBs : Nat}
    {reqPoolIndices : List Nat} (hle : reqPoolIndices.length ≤ maxBs) :
    (cudaGraphPlan pool (initCudaGraphState maxBs) reqPoolIndices).seqLens =
      List.replicate reqPoolIndices.length blockSize := by
  simp [cudaGraphPlan, initCudaGraphState, List.take_replicate, Nat.min_eq_left hle]

theorem initForwardMetadata_seqLens (pool : HybridReqToTokenPool L S Z) (buffers : EagerBuffers)
    (batch : ExtendBatch) :
    (initForwardMetadata pool buffers batch).1.seqLens = batch.extendSeqLens := rfl

/-- The three builders publish one plan. -/
structure PlansCoincide (pool : HybridReqToTokenPool L S Z) (buffers : EagerBuffers)
    (maxBs : Nat) (batch : ExtendBatch) : Prop where
  graph : cudaGraphPlan pool (initCudaGraphState maxBs) batch.reqPoolIndices =
    (initForwardMetadata pool buffers batch).1
  reference : (initForwardMetadata pool buffers batch).1 =
    buildRequestBlockPlan batch.extendSeqLens
      (batch.reqPoolIndices.map pool.reqIndexToMambaIndex) blockSize

theorem plansCoincide_iff {files : String → Option (List (String × YamlValue))}
    {args : ServerArgs} {config : DllmConfig}
    (hconfig : DllmConfig.fromServerArgs files args = .ok (some config))
    (harch : args.architecture = "LLaDAFastForCausalLM") {b : Nat}
    (hblock : config.blockSize = .int b) (pool : HybridReqToTokenPool L S Z)
    (buffers : EagerBuffers) {maxBs : Nat} {batch : ExtendBatch}
    (hlens : batch.extendSeqLens = List.replicate batch.reqPoolIndices.length b)
    (hpos : 0 < batch.reqPoolIndices.length) (hle : batch.reqPoolIndices.length ≤ maxBs) :
    PlansCoincide pool buffers maxBs batch ↔
      args.requestedBlockSize files = none ∨
        args.requestedBlockSize files = some (.int blockSize) := by
  have hb : b = blockSize ↔ args.requestedBlockSize files = none ∨
      args.requestedBlockSize files = some (.int blockSize) := by
    have hsize := DllmConfig.blockSize_eq hconfig harch
    rw [hblock] at hsize
    cases hrequested : args.requestedBlockSize files with
    | none =>
        rw [hrequested] at hsize
        cases hsize
        simp [blockSize]
    | some requested =>
        rw [hrequested] at hsize
        cases hsize
        simp
  rw [← hb]
  constructor
  · intro coincide
    have hseqLens := congrArg RequestBlockPlan.seqLens coincide.graph
    rw [cudaGraphPlan_seqLens pool hle, initForwardMetadata_seqLens, hlens] at hseqLens
    exact (List.replicate_right_injective hpos.ne' hseqLens).symm
  · intro hsame
    have positive : ∀ length ∈ batch.extendSeqLens, 0 < length := by
      intro length hlength
      rw [hlens] at hlength
      rw [List.eq_of_mem_replicate hlength, hsame]
      decide
    have heager := initForwardMetadata_eq pool buffers positive
    refine ⟨?_, heager⟩
    rw [heager, cudaGraphPlan_eq pool hpos hle, hlens, hsame]

theorem plansCoincide_default :
    PlansCoincide (HybridReqToTokenPool.new Unit Nat Nat 4 4) .zeros 4
      (.initNew true [3, 1] [32, 32] rfl) := by
  have hconfig : DllmConfig.fromServerArgs (fun _ => none)
      ⟨some "JointThreshold", "LLaDAFastForCausalLM", none, none⟩ =
        .ok (some ⟨"JointThreshold", [], .int 32, 156895, 1⟩) := rfl
  exact (plansCoincide_iff hconfig rfl rfl _ _ rfl (by decide) (by decide)).mpr (Or.inl rfl)

/-- A file that sets `block_size: 16`: the captured plan still has requests of `32` tokens,
so that each of them covers two of the batch. -/
theorem not_plansCoincide_sixteen : ∃ config,
    DllmConfig.fromServerArgs (fun _ => some [("block_size", .int 16)])
        ⟨some "JointThreshold", "LLaDAFastForCausalLM", none, some "algorithm.yaml"⟩ =
      .ok (some config) ∧ config.blockSize = .int 16 ∧
      ¬ PlansCoincide (HybridReqToTokenPool.new Unit Nat Nat 4 4) .zeros 4
        (.initNew true [3, 1] [16, 16] rfl) := by
  refine ⟨_, rfl, rfl, ?_⟩
  intro coincide
  exact absurd (congrArg RequestBlockPlan.seqLens coincide.graph) (by decide)

end LLaDAFastBackend

end LladaHybrid.Serving
