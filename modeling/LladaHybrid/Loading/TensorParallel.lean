import LladaHybrid.Loading.HeadShards
import LladaHybrid.Loading.GateCache
import LladaHybrid.Attention.PlanLaunches
import LladaHybrid.Attention.HeadPartition

namespace LladaHybrid.Loading

open LladaHybrid.Library LladaHybrid.Attention

/-! A hybrid layer with a feature map for every query head, served by several ranks: each
one keeps the state of its own run of heads and computes what one rank alone would. -/

/-- What the files hold for a hybrid layer; `alpha` is `[H]` or `[1, H, 1, 1]`. -/
structure HybridCheckpoint (numHeads numKvHeads D F hiddenSize layerId : Nat) (K : Type*)
    [Zero K] where
  queryKeyValue : QkvProjection K
  hedgehog : List (Name × Tensor K)
  hedgehogWeights : Tensor K
  alpha : Tensor K
  qkv_shape : queryKeyValue.weight.shape =
    [(numHeads + numKvHeads) * D + numKvHeads * D, hiddenSize]
  bias_shape : ∀ bias ∈ queryKeyValue.bias,
    bias.shape = [(numHeads + numKvHeads) * D + numKvHeads * D, 1]
  nodup : (hedgehog.map Prod.fst).Nodup
  weights_mem : (hybridCoreName layerId .hedgehogWeights, hedgehogWeights) ∈ hedgehog
  alpha_mem : (hybridCoreName layerId .alpha, alpha) ∈ hedgehog
  weights_shape : hedgehogWeights.shape = [numHeads, D, F]
  alpha_shape : alpha.shape = [numHeads] ∨ alpha.shape = [1, numHeads, 1, 1]

/-- A rank after `QKVParallelLinear.weight_loader` and `_load_hedgehog`. -/
structure LoadedRank (tp : TensorParallel) {D F hiddenSize layerId : Nat} {K : Type*} [Field K]
    (checkpoint : HybridCheckpoint tp.numHeads tp.numKvHeads D F hiddenSize layerId K)
    (rank : Fin tp.tpSize) where
  config : LoadConfig
  rank_eq : config.tpRank = rank
  size_eq : config.tpSize = tp.tpSize
  initialWeight : Tensor K
  initial_shape : initialWeight.shape = [(tp.qkvLayer hiddenSize D rank).localRows, hiddenSize]
  initialBias : Tensor K
  initialBias_shape : initialBias.shape = [(tp.qkvLayer 1 D rank).localRows, 1]
  queryKeyValue : QkvProjection K
  qkv_loaded : (tp.qkvLayer hiddenSize D rank).weightLoader initialWeight
    checkpoint.queryKeyValue.weight = some queryKeyValue.weight
  bias_loaded : checkpoint.queryKeyValue.bias.map
    ((tp.qkvLayer 1 D rank).weightLoader initialBias) = queryKeyValue.bias.map some
  base : Params K
  weights_param : paramShape base (hybridCoreName layerId .hedgehogWeights) =
    some [tp.localHeads, D, F]
  alpha_param : paramShape base (hybridCoreName layerId .alpha) =
    some [1, tp.localHeads, 1, 1]
  params : Params K
  hedgehog_loaded : loadHedgehog config base checkpoint.hedgehog = .ok params

/-- The shape of the recurrent states, of `mamba2_cache_params`. -/
structure Mamba2StateShape where
  conv : List (List Nat)
  temporal : List Nat

def mamba2CacheParams (tp : TensorParallel) (headDim featureDim : Nat)
    (shareHedgehogKvGroups : Bool) : Mamba2StateShape :=
  let stateHeads := if shareHedgehogKvGroups then tp.numKvHeads else tp.numHeads
  let hLocal := stateHeads / tp.tpSize
  let zShape := [hLocal * 2 * featureDim, 1]
  { conv := [zShape, zShape]
    temporal := [2, hLocal, 2 * featureDim, headDim] }

/-- `state_heads` of the views that the backend takes of the pool. -/
def Mamba2StateShape.stateHeads (shape : Mamba2StateShape) : Nat := shape.temporal.getD 1 0

namespace LoadedRank

variable {tp : TensorParallel} {D F hiddenSize layerId : Nat} {K : Type*} [Field K]
  {checkpoint : HybridCheckpoint tp.numHeads tp.numKvHeads D F hiddenSize layerId K}
  {rank : Fin tp.tpSize}

/-- `hybrid_core` of the rank. -/
def mixer (loaded : LoadedRank tp checkpoint rank) (scaling : K) : ServedHybrid D F K :=
  HybridLayer.served ⟨layerId, tp.localHeads, tp.localKvHeads, false, scaling⟩
    ⟨loaded.params, none⟩

def input (loaded : LoadedRank tp checkpoint rank) (hidden : Nat → Nat → K)
    (rotateQ rotateK : Nat → Vec D K → Vec D K) : KernelInput D K :=
  tp.attentionInput hiddenSize loaded.queryKeyValue hidden rotateQ rotateK

theorem bias_eq (loaded : LoadedRank tp checkpoint rank) :
    loaded.queryKeyValue.bias =
      checkpoint.queryKeyValue.bias.map (tp.qkvLayer 1 D rank).localSlice := by
  have hload := loaded.bias_loaded
  cases hbias : checkpoint.queryKeyValue.bias with
  | none =>
      rw [hbias] at hload
      exact Option.map_eq_none_iff.mp hload.symm
  | some bias =>
      rw [hbias, Option.map_some, QKVParallelLinear.weightLoader_eq
        (checkpoint.bias_shape bias hbias) loaded.initialBias_shape] at hload
      obtain ⟨cut, hcut, hsame⟩ := Option.map_eq_some_iff.mp hload.symm
      rw [hcut, Option.some.inj hsame, Option.map_some]

theorem queryKeyValue_eq (loaded : LoadedRank tp checkpoint rank) :
    loaded.queryKeyValue = tp.localProjection D hiddenSize rank checkpoint.queryKeyValue := by
  have hload := QKVParallelLinear.weightLoader_eq checkpoint.qkv_shape loaded.initial_shape
  have hweight := Option.some.inj (loaded.qkv_loaded.symm.trans hload)
  exact congrArg₂ QkvProjection.mk hweight loaded.bias_eq

theorem paramEntry_weights (loaded : LoadedRank tp checkpoint rank) {h : Nat}
    (hh : h < tp.localHeads) (d : Fin D) (f : Fin F) :
    paramEntry loaded.params (hybridCoreName layerId .hedgehogWeights) [h, d, f] =
      checkpoint.hedgehogWeights.entry [tp.globalHead rank h, d, f] := by
  obtain ⟨param, hparam, hshape⟩ := Option.map_eq_some_iff.mp loaded.weights_param
  obtain ⟨data, hdata, hresult⟩ := loadHedgehog_param loaded.hedgehog_loaded checkpoint.nodup
    checkpoint.weights_mem hparam
  obtain ⟨expected, hexpected, hentry⟩ := tp.hedgehogData_weights loaded.rank_eq loaded.size_eq
    (TensorParallel.isInfix_weights layerId) checkpoint.weights_shape
  rw [hshape] at hdata
  cases hdata.symm.trans hexpected
  rw [paramEntry, hresult]
  exact hentry h hh d d.isLt f f.isLt

theorem paramEntry_alpha (loaded : LoadedRank tp checkpoint rank) {h : Nat}
    (hh : h < tp.localHeads) :
    paramEntry loaded.params (hybridCoreName layerId .alpha) [0, h, 0, 0] =
      TensorParallel.alphaAt checkpoint.alpha (tp.globalHead rank h) := by
  obtain ⟨param, hparam, hshape⟩ := Option.map_eq_some_iff.mp loaded.alpha_param
  obtain ⟨data, hdata, hresult⟩ := loadHedgehog_param loaded.hedgehog_loaded checkpoint.nodup
    checkpoint.alpha_mem hparam
  obtain ⟨expected, hexpected, hentry⟩ := tp.hedgehogData_alpha loaded.rank_eq loaded.size_eq
    (TensorParallel.not_isInfix_weights layerId) (TensorParallel.isInfix_alpha layerId)
    checkpoint.alpha_shape
  rw [hshape] at hdata
  cases hdata.symm.trans hexpected
  rw [paramEntry, hresult]
  exact hentry h hh

section Heads

variable (loaded : LoadedRank tp checkpoint rank) (hidden : Nat → Nat → K)
  (rotateQ rotateK : Nat → Vec D K → Vec D K) {h : Nat} (hh : h < tp.localHeads)

include hh

omit [Field K] in
theorem kvHead_lt : h / (tp.localHeads / tp.localKvHeads) < tp.localKvHeads := by
  apply Nat.div_lt_of_lt_mul
  rwa [Nat.div_mul_cancel tp.localKvHeads_dvd]

theorem input_q (t : Nat) :
    (loaded.input hidden rotateQ rotateK).q t h = rotateQ t (fun d =>
      TensorParallel.project hiddenSize checkpoint.queryKeyValue hidden t
        (tp.globalHead rank h * D + d)) := by
  rw [input, loaded.queryKeyValue_eq]
  exact tp.attentionInput_q hh t

theorem input_k (t : Nat) :
    (loaded.input hidden rotateQ rotateK).k t (h / (tp.localHeads / tp.localKvHeads)) =
      rotateK t (fun d => TensorParallel.project hiddenSize checkpoint.queryKeyValue hidden t
        (tp.numHeads * D + (tp.globalHead rank h / (tp.numHeads / tp.numKvHeads) * D + d))) := by
  rw [input, loaded.queryKeyValue_eq, tp.attentionInput_k (kvHead_lt hh) t,
    tp.kvHead_eq hiddenSize D rank hh]

theorem input_v (t : Nat) :
    (loaded.input hidden rotateQ rotateK).v t (h / (tp.localHeads / tp.localKvHeads)) =
      fun d : Fin D => TensorParallel.project hiddenSize checkpoint.queryKeyValue hidden t
        ((tp.numHeads + tp.numKvHeads) * D +
          (tp.globalHead rank h / (tp.numHeads / tp.numKvHeads) * D + d)) := by
  rw [input, loaded.queryKeyValue_eq, tp.attentionInput_v (kvHead_lt hh) t,
    tp.kvHead_eq hiddenSize D rank hh]

end Heads

/-- A rank serves its run of the heads of the layer on one rank. -/
theorem headPartition (loaded : LoadedRank tp checkpoint rank)
    (whole : LoadedRank tp.single checkpoint ⟨0, Nat.one_pos⟩) (scaling : K)
    (hidden : Nat → Nat → K) (rotateQ rotateK : Nat → Vec D K → Vec D K) :
    HeadPartition (loaded.mixer scaling).params (whole.mixer scaling).params
      (loaded.input hidden rotateQ rotateK) (whole.input hidden rotateQ rotateK)
      (tp.globalHead rank) := by
  have hheads : tp.single.localHeads = tp.numHeads := Nat.div_one _
  have hlt : ∀ h < tp.localHeads, tp.globalHead rank h < tp.single.localHeads :=
    fun h hh => hheads ▸ tp.globalHead_lt rank hh
  have hglobal : ∀ h < tp.localHeads,
      tp.single.globalHead ⟨0, Nat.one_pos⟩ (tp.globalHead rank h) = tp.globalHead rank h :=
    fun h hh => TensorParallel.globalHead_of_single hheads _ (hlt h hh)
  constructor
  case unshared => rfl
  case unsharedWhole => rfl
  case lt => exact hlt
  case scaling => rfl
  case hedgehogWeights =>
    intro h hh
    funext d f
    have hpart := loaded.paramEntry_weights hh d f
    have hwhole := whole.paramEntry_weights (hlt h hh) d f
    rw [hglobal h hh] at hwhole
    exact hpart.trans hwhole.symm
  case alpha =>
    intro h hh
    have hpart := loaded.paramEntry_alpha hh
    have hwhole := whole.paramEntry_alpha (hlt h hh)
    rw [hglobal h hh] at hwhole
    exact hpart.trans hwhole.symm
  case q =>
    intro t h hh
    have hpart := loaded.input_q hidden rotateQ rotateK hh t
    have hwhole := whole.input_q hidden rotateQ rotateK (hlt h hh) t
    rw [hglobal h hh] at hwhole
    exact hpart.trans hwhole.symm
  case k =>
    intro t h hh
    have hpart := loaded.input_k hidden rotateQ rotateK hh t
    have hwhole := whole.input_k hidden rotateQ rotateK (hlt h hh) t
    rw [hglobal h hh] at hwhole
    exact hpart.trans hwhole.symm
  case v =>
    intro t h hh
    have hpart := loaded.input_v hidden rotateQ rotateK hh t
    have hwhole := whole.input_v hidden rotateQ rotateK (hlt h hh) t
    rw [hglobal h hh] at hwhole
    exact hpart.trans hwhole.symm

end LoadedRank

section Agreement

variable {D F : Nat} {K : Type*} [Field K] [LinearOrder K] [ExpOps K] [NeZero F]

/-- A rank has the state heads that its kernels index, pairs every query head with what
belongs to its global head, and computes the outputs and states of its heads. -/
structure RankAgrees (tp : TensorParallel) (rank : Fin tp.tpSize)
    (mixer whole : ServedHybrid D F K) (input wholeInput : KernelInput D K) : Prop where
  inPool : ∀ (S : Nat) [NeZero S] (plan : RequestBlockPlan) (readTensor writeTensor : Nat),
    ∀ planned ∈ planLaunches mixer S mixer.params.numKvGroups input writeTensor plan readTensor,
      ∀ cell, planned.Touches cell →
        cell.head < (mamba2CacheParams tp D F mixer.params.shareKvGroups).stateHeads
  indexed : ∀ (S : Nat) [NeZero S] (plan : RequestBlockPlan) (readTensor writeTensor : Nat),
    plan.firstRequests S ≠ [] →
      ∀ head < (mamba2CacheParams tp D F mixer.params.shareKvGroups).stateHeads,
        ∃ planned ∈ planLaunches mixer S mixer.params.numKvGroups input writeTensor plan
          readTensor, ∃ cell, planned.Touches cell ∧ cell.head = head
  paired : HeadPartition mixer.params whole.params input wholeInput (tp.globalHead rank)
  run : ∀ (S : Nat) [NeZero S] (schedule wholeSchedule : Scheduler) (seqLens slots : List Nat)
    (readTensor writeTensor : Nat) (before wholeBefore : DeviceMemory D F K),
    (∀ length ∈ seqLens, 0 < length) → slots.length = seqLens.length → slots.Nodup →
    HeadsOf tp.localHeads (tp.globalHead rank) before wholeBefore →
    (∀ key, before.out key = []) → (∀ key, wholeBefore.out key = []) →
    ∃ after served wholeAfter wholeServed,
      runKernels mixer S schedule input writeTensor (buildRequestBlockPlan seqLens slots S)
        readTensor before = some (after, served) ∧
      runKernels whole S wholeSchedule wholeInput writeTensor
        (buildRequestBlockPlan seqLens slots S) readTensor wholeBefore =
          some (wholeAfter, wholeServed) ∧
      HeadsOf tp.localHeads (tp.globalHead rank) after wholeAfter

variable {tp : TensorParallel} {hiddenSize layerId : Nat}
  {checkpoint : HybridCheckpoint tp.numHeads tp.numKvHeads D F hiddenSize layerId K}

theorem LoadedRank.head_lt_of_touches {rank : Fin tp.tpSize}
    (loaded : LoadedRank tp checkpoint rank) (scaling : K) {input : KernelInput D K} {S : Nat}
    [NeZero S] {plan : RequestBlockPlan} {readTensor writeTensor : Nat}
    {planned : KernelLaunch D F K} {cell : StateCell}
    (hplanned : planned ∈ planLaunches (loaded.mixer scaling) S
      (loaded.mixer scaling).params.numKvGroups input writeTensor plan readTensor)
    (touched : planned.Touches cell) : cell.head < tp.localHeads := by
  rcases head_of_planLaunches hplanned touched with hhead | ⟨h, hh, hhead⟩
  · exact hhead
  · rw [hhead]
    exact hh

/-- Every rank serves its own heads, and the runs of heads of the ranks make up the layer. -/
theorem ranks_partition_heads [IsStrictOrderedRing K] [LawfulExp K]
    (ranks : ∀ rank, LoadedRank tp checkpoint rank)
    (whole : LoadedRank tp.single checkpoint ⟨0, Nat.one_pos⟩) (scaling : K)
    (hidden : Nat → Nat → K) (rotateQ rotateK : Nat → Vec D K → Vec D K) :
    (∀ rank, RankAgrees tp rank ((ranks rank).mixer scaling) (whole.mixer scaling)
      ((ranks rank).input hidden rotateQ rotateK) (whole.input hidden rotateQ rotateK)) ∧
    ∀ g < tp.numHeads, ∃ rank, ∃ h < tp.localHeads, tp.globalHead rank h = g := by
  refine ⟨?_, fun g hg => tp.exists_globalHead hg⟩
  intro rank
  have partition := (ranks rank).headPartition whole scaling hidden rotateQ rotateK
  constructor
  case inPool =>
    intro S _ plan readTensor writeTensor planned hplanned cell touched
    exact (ranks rank).head_lt_of_touches scaling hplanned touched
  case indexed =>
    intro S _ plan readTensor writeTensor hfirst head hhead
    exact exists_touched_readHead _ _ _ readTensor writeTensor hfirst hhead
  case paired => exact partition
  case run =>
    intro S _ schedule wholeSchedule seqLens slots readTensor writeTensor before wholeBefore
      positive sameLength distinct heads hout hwholeOut
    have refines := runPlan_refinesForward (S := S) ((ranks rank).mixer scaling) schedule
      ((ranks rank).input hidden rotateQ rotateK) readTensor writeTensor positive sameLength
      distinct tp.localKvHeads_dvd (fun gate hgate => nomatch hgate) hout
    have wholeRefines := runPlan_refinesForward (S := S) (whole.mixer scaling) wholeSchedule
      (whole.input hidden rotateQ rotateK) readTensor writeTensor positive sameLength distinct
      tp.single.localKvHeads_dvd (fun gate hgate => nomatch hgate) hwholeOut
    exact ⟨_, _, _, _, runKernels_grouped rfl rfl schedule writeTensor _ readTensor before,
      runKernels_grouped rfl rfl wholeSchedule writeTensor _ readTensor wholeBefore,
      partition.headsOf_after heads refines wholeRefines⟩

end Agreement

/-! An adapter with just this layer loads on every rank. -/

theorem hybridCoreName_weights_ne_alpha (layerId : Nat) :
    hybridCoreName layerId .hedgehogWeights ≠ hybridCoreName layerId .alpha := by
  intro hsame
  apply TensorParallel.not_isInfix_weights layerId
  rw [← hsame]
  exact TensorParallel.isInfix_weights layerId

theorem loadHedgehog_pair {K : Type*} [Zero K] {config : LoadConfig} {params : Params K}
    {first second : Name} {T U data data' : Tensor K} {param param' : Param K}
    (hne : first ≠ second) (hparam : params first = some param)
    (hparam' : params second = some param')
    (hdata : hedgehogData config first param.data.shape T = .ok data)
    (hdata' : hedgehogData config second param'.data.shape U = .ok data') :
    loadHedgehog config params [(first, T), (second, U)] =
      .ok ((params.setData first data).setData second data') := by
  have hsecond : params.setData first data second = some param' :=
    (setData_of_ne hne.symm data).trans hparam'
  simp [loadHedgehog, loadHedgehogEntry, hparam, hdata, hsecond, hdata', bind, Except.bind, pure,
    Except.pure]

theorem nonempty_loadedRank {tp : TensorParallel} {D F hiddenSize layerId : Nat} {K : Type*}
    [Field K]
    {checkpoint : HybridCheckpoint tp.numHeads tp.numKvHeads D F hiddenSize layerId K}
    (hpair : checkpoint.hedgehog =
      [(hybridCoreName layerId .hedgehogWeights, checkpoint.hedgehogWeights),
        (hybridCoreName layerId .alpha, checkpoint.alpha)]) (rank : Fin tp.tpSize) :
    Nonempty (LoadedRank tp checkpoint rank) := by
  let config : LoadConfig := { tieWordEmbeddings := false, tpRank := rank, tpSize := tp.tpSize }
  let weightsParam : Param K := ⟨.default, .ofFn [tp.localHeads, D, F] (fun _ => 0)⟩
  let alphaParam : Param K := ⟨.default, .ofFn [1, tp.localHeads, 1, 1] (fun _ => 0)⟩
  let base : Params K := Function.update
    (Function.update (fun _ => none) (hybridCoreName layerId .alpha) (some alphaParam))
    (hybridCoreName layerId .hedgehogWeights) (some weightsParam)
  have hne := hybridCoreName_weights_ne_alpha layerId
  have hweights : base (hybridCoreName layerId .hedgehogWeights) = some weightsParam :=
    Function.update_self _ _ _
  have halpha : base (hybridCoreName layerId .alpha) = some alphaParam :=
    (Function.update_of_ne hne.symm _ _).trans (Function.update_self _ _ _)
  have hrank : config.tpRank = rank := rfl
  have hsize : config.tpSize = tp.tpSize := rfl
  obtain ⟨weights, hweightsData, -⟩ := tp.hedgehogData_weights hrank hsize
    (TensorParallel.isInfix_weights layerId) checkpoint.weights_shape
  obtain ⟨alpha, halphaData, -⟩ := tp.hedgehogData_alpha hrank hsize
    (TensorParallel.not_isInfix_weights layerId) (TensorParallel.isInfix_alpha layerId)
    checkpoint.alpha_shape
  have hload := loadHedgehog_pair hne hweights halpha hweightsData halphaData
  rw [← hpair] at hload
  exact ⟨{
    config
    rank_eq := rfl
    size_eq := rfl
    initialWeight := .ofFn [(tp.qkvLayer hiddenSize D rank).localRows, hiddenSize] (fun _ => 0)
    initial_shape := rfl
    initialBias := .ofFn [(tp.qkvLayer 1 D rank).localRows, 1] (fun _ => 0)
    initialBias_shape := rfl
    queryKeyValue := tp.localProjection D hiddenSize rank checkpoint.queryKeyValue
    qkv_loaded := QKVParallelLinear.weightLoader_eq checkpoint.qkv_shape rfl
    bias_loaded := by
      rw [TensorParallel.localProjection, Option.map_map]
      apply Option.map_congr
      intro bias hbias
      exact QKVParallelLinear.weightLoader_eq (checkpoint.bias_shape bias hbias) rfl
    base
    weights_param := by rw [paramShape, hweights]; rfl
    alpha_param := by rw [paramShape, halpha]; rfl
    params := _
    hedgehog_loaded := hload }⟩

namespace SharedKeyHead

/-- Six query heads over one key/value head, which both ranks keep. -/
def tp : TensorParallel where
  numHeads := 6
  numKvHeads := 1
  tpSize := 2
  tp_pos := Nat.two_pos
  kv_pos := Nat.one_pos
  divide_groups := by decide
  divide_heads := by decide
  divide_kvHeads := by decide

noncomputable def checkpoint : HybridCheckpoint 6 1 1 1 1 0 ℝ where
  queryKeyValue := ⟨.ofFn [8, 1] (fun _ => 1), some (.ofFn [8, 1] (fun index => index.getD 0 0))⟩
  hedgehog := [(hybridCoreName 0 .hedgehogWeights, .ofFn [6, 1, 1] (fun _ => 1)),
    (hybridCoreName 0 .alpha, .ofFn [6] (fun index => index.getD 0 0))]
  hedgehogWeights := .ofFn [6, 1, 1] (fun _ => 1)
  alpha := .ofFn [6] (fun index => index.getD 0 0)
  qkv_shape := rfl
  bias_shape := by
    rintro _ ⟨⟩
    rfl
  nodup := by simp [hybridCoreName_weights_ne_alpha]
  weights_mem := List.mem_cons_self
  alpha_mem := List.mem_cons_of_mem _ List.mem_cons_self
  weights_shape := rfl
  alpha_shape := Or.inl rfl

theorem ranks_partition_pair :
    ∃ (ranks : ∀ rank, LoadedRank tp checkpoint rank)
      (whole : LoadedRank tp.single checkpoint ⟨0, Nat.one_pos⟩),
      (∀ rank, RankAgrees tp rank ((ranks rank).mixer 1) (whole.mixer 1)
        ((ranks rank).input (fun _ _ => 1) (fun _ x => x) (fun _ x => x))
        (whole.input (fun _ _ => 1) (fun _ x => x) (fun _ x => x))) ∧
      ∀ g < 6, ∃ rank, ∃ h < tp.localHeads, tp.globalHead rank h = g := by
  have ranks : ∀ rank, Nonempty (LoadedRank tp checkpoint rank) :=
    fun rank => nonempty_loadedRank rfl rank
  have whole : Nonempty (LoadedRank tp.single checkpoint ⟨0, Nat.one_pos⟩) :=
    nonempty_loadedRank rfl _
  exact ⟨fun rank => (ranks rank).some, whole.some, ranks_partition_heads _ _ 1 _ _ _⟩

end SharedKeyHead

end LladaHybrid.Loading
