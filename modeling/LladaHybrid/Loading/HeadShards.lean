import LladaHybrid.Loading.AdapterCoverage
import LladaHybrid.Attention.HybridKernel
import LladaHybrid.Library.BlockScan

namespace LladaHybrid.Loading

open LladaHybrid.Library LladaHybrid.Attention

/-! Tensor parallelism over the heads of a hybrid layer: which heads a rank projects, and
which feature maps and gates `_load_hedgehog` cuts out for it. -/

/-- The head counts of a layer and the number of ranks, as far as the layer admits them. -/
structure TensorParallel where
  numHeads : Nat
  numKvHeads : Nat
  tpSize : Nat
  tp_pos : 0 < tpSize
  kv_pos : 0 < numKvHeads
  divide_groups : numKvHeads ∣ numHeads
  divide_heads : tpSize ∣ numHeads
  divide_kvHeads : tpSize ∣ numKvHeads ∨ numKvHeads ∣ tpSize

/-- `query_key_value` of a layer. The loader only cuts rows, so that a bias is a weight of one
column. -/
structure QkvProjection (K : Type*) [Zero K] where
  weight : Tensor K
  bias : Option (Tensor K)

namespace TensorParallel

variable (tp : TensorParallel)

/-- The head counts that `LLaDAFastHybridAttention` gives to a rank. -/
def localHeads : Nat := tp.numHeads / tp.tpSize

def localKvHeads : Nat := max 1 (tp.numKvHeads / tp.tpSize)

/-- The same layer on one rank. -/
def single : TensorParallel where
  numHeads := tp.numHeads
  numKvHeads := tp.numKvHeads
  tpSize := 1
  tp_pos := Nat.one_pos
  kv_pos := tp.kv_pos
  divide_groups := tp.divide_groups
  divide_heads := one_dvd _
  divide_kvHeads := Or.inl (one_dvd _)

def globalHead (rank : Fin tp.tpSize) (h : Nat) : Nat := rank * tp.localHeads + h

theorem tpSize_mul_localHeads : tp.tpSize * tp.localHeads = tp.numHeads :=
  Nat.mul_div_cancel' tp.divide_heads

theorem globalHead_lt (rank : Fin tp.tpSize) {h : Nat} (hh : h < tp.localHeads) :
    tp.globalHead rank h < tp.numHeads := by
  rw [← tp.tpSize_mul_localHeads]
  exact row_lt rank.isLt ⟨h, hh⟩

/-- The runs of heads of the ranks cover all heads, one after another. -/
theorem exists_globalHead {g : Nat} (hg : g < tp.numHeads) :
    ∃ rank, ∃ h < tp.localHeads, tp.globalHead rank h = g := by
  rw [← tp.tpSize_mul_localHeads] at hg
  have hpos : 0 < tp.localHeads := Nat.pos_of_ne_zero (by rintro hzero; simp [hzero] at hg)
  refine ⟨⟨g / tp.localHeads, Nat.div_lt_of_lt_mul (by rwa [Nat.mul_comm])⟩,
    g % tp.localHeads, Nat.mod_lt _ hpos, ?_⟩
  rw [globalHead, Nat.mul_comm]
  exact Nat.div_add_mod g tp.localHeads

def qkvLayer (hiddenSize headSize : Nat) (rank : Fin tp.tpSize) : QKVParallelLinear where
  hiddenSize
  headSize
  totalNumHeads := tp.numHeads
  totalNumKvHeads := tp.numKvHeads
  tpRank := rank
  tpSize := tp.tpSize
  rank_lt := rank.isLt
  divide_heads := tp.divide_heads
  divide_kvHeads := by
    split_ifs with hfew
    · rcases tp.divide_kvHeads with hmany | hfew'
      · rw [Nat.le_antisymm hfew (Nat.le_of_dvd tp.kv_pos hmany)]
      · exact hfew'
    · rcases tp.divide_kvHeads with hmany | hfew'
      · exact hmany
      · exact absurd (Nat.le_of_dvd tp.tp_pos hfew') hfew

section Counts

variable (hiddenSize headSize : Nat) (rank : Fin tp.tpSize)

theorem qkvLayer_numKvHeads :
    (tp.qkvLayer hiddenSize headSize rank).numKvHeads = tp.localKvHeads := by
  have htp := tp.tp_pos
  unfold QKVParallelLinear.numKvHeads localKvHeads qkvLayer
  dsimp only
  split_ifs with hfew
  · have hle : tp.numKvHeads / tp.tpSize ≤ 1 := by
      apply Nat.div_le_of_le_mul
      rwa [Nat.mul_one]
    omega
  · have hpos : 1 ≤ tp.numKvHeads / tp.tpSize :=
      Nat.div_pos (Nat.le_of_not_le hfew) htp
    omega

/-- Either each rank has key/value heads of its own, or each of them is on several ranks. -/
theorem kv_cases :
    (∃ groups, 0 < tp.localKvHeads ∧ tp.localHeads = tp.localKvHeads * groups ∧
        tp.numHeads = tp.numKvHeads * groups ∧
        (tp.qkvLayer hiddenSize headSize rank).numKvHeadReplicas = 1) ∨
      ∃ replicas, 0 < replicas ∧ tp.localKvHeads = 1 ∧ tp.tpSize = tp.numKvHeads * replicas ∧
        (tp.qkvLayer hiddenSize headSize rank).numKvHeadReplicas = replicas := by
  have htp := tp.tp_pos
  have hkv := tp.kv_pos
  rcases tp.divide_kvHeads with ⟨perRank, hown⟩ | ⟨replicas, hshared⟩
  · obtain ⟨groups, hgroups⟩ := tp.divide_groups
    have hpos : 0 < perRank := Nat.pos_of_ne_zero (by rintro rfl; omega)
    have hlocal : tp.localKvHeads = perRank := by
      rw [localKvHeads, hown, Nat.mul_div_cancel_left _ htp]
      omega
    refine .inl ⟨groups, hlocal ▸ hpos, ?_, hgroups, ?_⟩
    · rw [localHeads, hgroups, hown, Nat.mul_assoc, Nat.mul_div_cancel_left _ htp, hlocal]
    · unfold QKVParallelLinear.numKvHeadReplicas qkvLayer
      dsimp only
      split_ifs with hfew
      · have hsame : tp.numKvHeads = tp.tpSize :=
          Nat.le_antisymm hfew (hown ▸ Nat.le_mul_of_pos_right _ hpos)
        rw [hsame, Nat.div_self htp]
      · rfl
  · have hpos : 0 < replicas := Nat.pos_of_ne_zero (by rintro rfl; omega)
    have hfew : tp.numKvHeads ≤ tp.tpSize := hshared ▸ Nat.le_mul_of_pos_right _ hpos
    refine .inr ⟨replicas, hpos, ?_, hshared, ?_⟩
    · rw [← tp.qkvLayer_numKvHeads hiddenSize headSize rank]
      exact if_pos hfew
    · unfold QKVParallelLinear.numKvHeadReplicas qkvLayer
      dsimp only
      rw [if_pos hfew, hshared, Nat.mul_div_cancel_left _ hkv]

theorem localKvHeads_dvd : tp.localKvHeads ∣ tp.localHeads := by
  rcases tp.kv_cases 0 0 ⟨0, tp.tp_pos⟩ with ⟨groups, -, hlocal, -⟩ | ⟨-, -, hone, -⟩
  · exact hlocal ▸ Nat.dvd_mul_right _ _
  · exact hone ▸ one_dvd _

/-- The key/value head of a local query head is the one of its global head. -/
theorem kvHead_eq {h : Nat} (hh : h < tp.localHeads) :
    (tp.qkvLayer hiddenSize headSize rank).shardId .k * tp.localKvHeads +
        h / (tp.localHeads / tp.localKvHeads) =
      tp.globalHead rank h / (tp.numHeads / tp.numKvHeads) := by
  have hrank : (tp.qkvLayer hiddenSize headSize rank).shardId .k =
      rank / (tp.qkvLayer hiddenSize headSize rank).numKvHeadReplicas := rfl
  rw [hrank, globalHead]
  rcases tp.kv_cases hiddenSize headSize rank with
    ⟨groups, hpos, hlocal, hheads, hreplicas⟩ | ⟨replicas, hpos, hone, hshared, hreplicas⟩
  · have hgroups : 0 < groups := Nat.pos_of_ne_zero (by rintro rfl; simp [hlocal] at hh)
    rw [hreplicas, Nat.div_one, hlocal, hheads, Nat.mul_div_cancel_left _ hpos,
      Nat.mul_div_cancel_left _ tp.kv_pos, ← Nat.mul_assoc, Nat.add_comm _ h,
      Nat.add_mul_div_right _ _ hgroups, Nat.add_comm]
  · have hheads : tp.numHeads = tp.numKvHeads * (replicas * tp.localHeads) := by
      rw [← tp.tpSize_mul_localHeads, hshared, Nat.mul_assoc]
    rw [hreplicas, hone, Nat.mul_one, Nat.div_one, Nat.div_eq_of_lt hh, Nat.add_zero, hheads,
      Nat.mul_div_cancel_left _ tp.kv_pos, Nat.mul_comm replicas, ← Nat.div_div_eq_div_mul,
      Nat.add_comm _ h, Nat.add_mul_div_right _ _ (Nat.zero_lt_of_lt hh), Nat.div_eq_of_lt hh,
      Nat.zero_add]

end Counts

/-! The projections of a rank. -/

section Projection

variable {K : Type*} [Field K] {D : Nat}

/-- Output `row` of the projection. -/
def project (hiddenSize : Nat) (qkv : QkvProjection K) (hidden : Nat → Nat → K) (t row : Nat) : K :=
  ∑ j ∈ Finset.range hiddenSize, qkv.weight.entry [row, j] * hidden t j +
    (qkv.bias.map (fun bias => bias.entry [row, 0])).getD 0

/-- The rows of the weight and of the bias that a rank loads. -/
def localProjection (D hiddenSize : Nat) (rank : Fin tp.tpSize) (qkv : QkvProjection K) :
    QkvProjection K where
  weight := (tp.qkvLayer hiddenSize D rank).localSlice qkv.weight
  bias := qkv.bias.map (tp.qkvLayer 1 D rank).localSlice

/-- `q3`, `k3` and `v3` of `LLaDAFastHybridAttention.forward`: the split of the projection,
with the norm and the rotation of each query and key head. -/
def attentionInput (hiddenSize : Nat) (qkv : QkvProjection K) (hidden : Nat → Nat → K)
    (rotateQ rotateK : Nat → Vec D K → Vec D K) : KernelInput D K :=
  let qSize := D * tp.localHeads
  let kvSize := D * tp.localKvHeads
  { q := fun t h => rotateQ t (fun d => project hiddenSize qkv hidden t (h * D + d))
    k := fun t h => rotateK t (fun d => project hiddenSize qkv hidden t (qSize + (h * D + d)))
    v := fun t h d => project hiddenSize qkv hidden t (qSize + kvSize + (h * D + d))
    kHeads := tp.localKvHeads
    vHeads := tp.localKvHeads }

theorem project_localProjection {hiddenSize : Nat} {rank : Fin tp.tpSize} (qkv : QkvProjection K)
    (hidden : Nat → Nat → K) (t : Nat) {row : Nat}
    (hrow : row < (tp.qkvLayer hiddenSize D rank).localRows) :
    project hiddenSize (tp.localProjection D hiddenSize rank qkv) hidden t row =
      project hiddenSize qkv hidden t ((tp.qkvLayer hiddenSize D rank).sourceRow row) := by
  apply congrArg₂ (· + ·)
  · apply Finset.sum_congr rfl
    intro j hj
    exact congrArg (· * hidden t j)
      (QKVParallelLinear.entry_localSlice _ qkv.weight hrow (Finset.mem_range.mp hj))
  · cases hbias : qkv.bias with
    | none => simp only [localProjection, hbias, Option.map_none]
    | some bias =>
        simp only [localProjection, hbias, Option.map_some, Option.getD_some]
        exact QKVParallelLinear.entry_localSlice (tp.qkvLayer 1 D rank) bias hrow Nat.one_pos

variable (hiddenSize : Nat) (rank : Fin tp.tpSize)

theorem localRows_eq :
    (tp.qkvLayer hiddenSize D rank).localRows =
      (tp.localHeads + tp.localKvHeads) * D + tp.localKvHeads * D := by
  rw [QKVParallelLinear.localRows, qkvLayer_numKvHeads]
  rfl

theorem shardOffset_k : (tp.qkvLayer hiddenSize D rank).shardOffset .k = tp.localHeads * D := rfl

theorem shardOffset_v :
    (tp.qkvLayer hiddenSize D rank).shardOffset .v = (tp.localHeads + tp.localKvHeads) * D := by
  rw [QKVParallelLinear.shardOffset, qkvLayer_numKvHeads]
  rfl

theorem shardSize_k :
    (tp.qkvLayer hiddenSize D rank).shardSize .k = tp.localKvHeads * D := by
  rw [QKVParallelLinear.shardSize, qkvLayer_numKvHeads]
  rfl

theorem sourceRow_q {h : Nat} (hh : h < tp.localHeads) (d : Fin D) :
    (tp.qkvLayer hiddenSize D rank).sourceRow (h * D + d) = tp.globalHead rank h * D + d := by
  rw [QKVParallelLinear.sourceRow, shardOffset_k, if_pos (row_lt hh d)]
  change rank * (tp.localHeads * D) + (h * D + d) = _
  rw [globalHead]
  ring

theorem sourceRow_k {h : Nat} (hh : h < tp.localKvHeads) (d : Fin D) :
    (tp.qkvLayer hiddenSize D rank).sourceRow (D * tp.localHeads + (h * D + d)) =
      tp.numHeads * D +
        (((tp.qkvLayer hiddenSize D rank).shardId .k * tp.localKvHeads + h) * D + d) := by
  have hrow := row_lt hh d
  have hoffset : (tp.localHeads + tp.localKvHeads) * D =
      tp.localHeads * D + tp.localKvHeads * D := Nat.add_mul _ _ _
  rw [QKVParallelLinear.sourceRow, shardOffset_k, shardOffset_v, shardSize_k, Nat.mul_comm D,
    if_neg (by omega), if_pos (by omega), Nat.add_sub_cancel_left]
  change tp.numHeads * D + _ = _
  ring

theorem sourceRow_v (h : Nat) (d : Fin D) :
    (tp.qkvLayer hiddenSize D rank).sourceRow
        (D * tp.localHeads + D * tp.localKvHeads + (h * D + d)) =
      (tp.numHeads + tp.numKvHeads) * D +
        (((tp.qkvLayer hiddenSize D rank).shardId .k * tp.localKvHeads + h) * D + d) := by
  have hoffset : D * tp.localHeads + D * tp.localKvHeads =
      (tp.localHeads + tp.localKvHeads) * D := by ring
  have hsum : (tp.localHeads + tp.localKvHeads) * D =
      tp.localHeads * D + tp.localKvHeads * D := Nat.add_mul _ _ _
  have hsize : (tp.qkvLayer hiddenSize D rank).shardSize .v = tp.localKvHeads * D :=
    tp.shardSize_k hiddenSize rank
  rw [QKVParallelLinear.sourceRow, shardOffset_k, shardOffset_v, hsize, hoffset,
    if_neg (by omega), if_neg (by omega), Nat.add_sub_cancel_left]
  change (tp.numHeads + tp.numKvHeads) * D +
    ((tp.qkvLayer hiddenSize D rank).shardId .k * (tp.localKvHeads * D) + (h * D + d)) = _
  ring

variable {hiddenSize rank} {qkv : QkvProjection K} {hidden : Nat → Nat → K}
  {rotateQ rotateK : Nat → Vec D K → Vec D K} {h : Nat}

theorem attentionInput_q (hh : h < tp.localHeads) (t : Nat) :
    (tp.attentionInput hiddenSize (tp.localProjection D hiddenSize rank qkv) hidden
        rotateQ rotateK).q t h =
      rotateQ t (fun d => project hiddenSize qkv hidden t (tp.globalHead rank h * D + d)) := by
  apply congrArg (rotateQ t)
  funext d
  have hrow := row_lt hh d
  have hlt : h * D + d < (tp.qkvLayer hiddenSize D rank).localRows := by
    rw [localRows_eq, Nat.add_mul]
    omega
  rw [← tp.sourceRow_q hiddenSize rank hh d]
  exact tp.project_localProjection qkv hidden t hlt

theorem attentionInput_k (hh : h < tp.localKvHeads) (t : Nat) :
    (tp.attentionInput hiddenSize (tp.localProjection D hiddenSize rank qkv) hidden
        rotateQ rotateK).k t h =
      rotateK t (fun d => project hiddenSize qkv hidden t (tp.numHeads * D +
        (((tp.qkvLayer hiddenSize D rank).shardId .k * tp.localKvHeads + h) * D + d))) := by
  apply congrArg (rotateK t)
  funext d
  have hrow := row_lt hh d
  have hlt : D * tp.localHeads + (h * D + d) < (tp.qkvLayer hiddenSize D rank).localRows := by
    rw [localRows_eq, Nat.add_mul, Nat.mul_comm D]
    omega
  rw [← tp.sourceRow_k hiddenSize rank hh d]
  exact tp.project_localProjection qkv hidden t hlt

theorem attentionInput_v (hh : h < tp.localKvHeads) (t : Nat) :
    (tp.attentionInput hiddenSize (tp.localProjection D hiddenSize rank qkv) hidden
        rotateQ rotateK).v t h =
      fun d : Fin D => project hiddenSize qkv hidden t ((tp.numHeads + tp.numKvHeads) * D +
        (((tp.qkvLayer hiddenSize D rank).shardId .k * tp.localKvHeads + h) * D + d)) := by
  funext d
  have hrow := row_lt hh d
  have hlt : D * tp.localHeads + D * tp.localKvHeads + (h * D + d) <
      (tp.qkvLayer hiddenSize D rank).localRows := by
    rw [localRows_eq, Nat.add_mul, Nat.mul_comm D, Nat.mul_comm D]
    omega
  rw [← tp.sourceRow_v hiddenSize rank h d]
  exact tp.project_localProjection qkv hidden t hlt

end Projection

/-! The feature maps and gates that `_load_hedgehog` cuts out for a rank. -/

section Shards

theorem globalHead_of_single {tp : TensorParallel} (hsame : tp.localHeads = tp.numHeads)
    (rank : Fin tp.tpSize) {h : Nat} (hh : h < tp.localHeads) : tp.globalHead rank h = h := by
  have hsize := tp.tpSize_mul_localHeads
  rw [← hsame] at hsize
  have hone : tp.tpSize = 1 := Nat.eq_of_mul_eq_mul_right (Nat.zero_lt_of_lt hh) (by omega)
  have hrank : (rank : Nat) = 0 := by
    have hlt := rank.isLt
    omega
  rw [globalHead, hrank, Nat.zero_mul, Nat.zero_add]

theorem localHeads_of_uncut {tp : TensorParallel} (hsize : ¬ 1 < tp.tpSize) :
    tp.localHeads = tp.numHeads := by
  have hpos := tp.tp_pos
  rw [localHeads, show tp.tpSize = 1 by omega, Nat.div_one]

theorem slice_bounds (rank : Fin tp.tpSize) :
    min ((rank + 1) * tp.localHeads) tp.numHeads - rank * tp.localHeads = tp.localHeads := by
  have hle : (rank + 1) * tp.localHeads ≤ tp.numHeads := by
    rw [← tp.tpSize_mul_localHeads]
    exact Nat.mul_le_mul_right _ rank.isLt
  rw [Nat.min_eq_left hle, Nat.add_mul, Nat.one_mul, Nat.add_sub_cancel_left]

theorem hybridCoreName_eq (layerId : Nat) (field : HedgehogField) :
    hybridCoreName layerId field = ("model.layers.".toList ++ Nat.toDigits 10 layerId ++
      ".attention.hybrid_core.".toList) ++ field.name := rfl

theorem w_notMem_alphaName (layerId : Nat) : 'w' ∉ hybridCoreName layerId .alpha := by
  intro hmem
  have hsplit : (('w' ∈ "model.layers.".toList ∨ 'w' ∈ Nat.toDigits 10 layerId) ∨
      'w' ∈ ".attention.hybrid_core.".toList) ∨ 'w' ∈ HedgehogField.alpha.name := by
    simpa only [hybridCoreName_eq, List.mem_append] using hmem
  rcases hsplit with ((hmodel | hdigits) | hcore) | hfield
  · exact absurd hmodel (by decide)
  · have hdigit : Char.isDigit 'w' = true :=
      Nat.isDigit_of_mem_toDigits (by decide) (by decide) hdigits
    exact absurd hdigit (by decide)
  · exact absurd hcore (by decide)
  · exact absurd hfield (by decide)

theorem not_isInfix_weights (layerId : Nat) :
    ¬ "hedgehog_weights".toList <:+: hybridCoreName layerId .alpha := by
  intro hcontains
  exact w_notMem_alphaName layerId (hcontains.subset (by decide))

theorem isInfix_weights (layerId : Nat) :
    "hedgehog_weights".toList <:+: hybridCoreName layerId .hedgehogWeights :=
  List.IsSuffix.isInfix ⟨_, (hybridCoreName_eq layerId .hedgehogWeights).symm⟩

theorem isInfix_alpha (layerId : Nat) : "alpha".toList <:+: hybridCoreName layerId .alpha :=
  List.IsSuffix.isInfix ⟨_, (hybridCoreName_eq layerId .alpha).symm⟩

variable {K : Type*} [Field K] {D F : Nat} {config : LoadConfig} {name : Name} {T : Tensor K}
  {rank : Fin tp.tpSize} (hrank : config.tpRank = rank) (hsize : config.tpSize = tp.tpSize)

/-- The heads of a rank along a dimension. -/
def headSlice (rank : Fin tp.tpSize) (T : Tensor K) (dim : Nat) : Tensor K :=
  T.slice dim (rank * tp.localHeads) ((rank + 1) * tp.localHeads)

theorem shape_headSlice {dim : Nat} (hdim : T.shape[dim]? = some tp.numHeads) :
    (tp.headSlice rank T dim).shape = T.shape.set dim tp.localHeads := by
  rw [headSlice, Tensor.slice, Tensor.shape_ofFn, List.modify_eq_set_getElem?, hdim]
  simp [tp.slice_bounds rank]

theorem tpShardDelta_weights (hname : "hedgehog_weights".toList <:+: name) :
    tpShardDelta config name T = tpShardDelta.shard config T 0 :=
  if_pos hname

theorem tpShardDelta_alpha (hnot : ¬ "hedgehog_weights".toList <:+: name)
    (hname : "alpha".toList <:+: name) :
    tpShardDelta config name T = if T.shape.length = 1 then tpShardDelta.shard config T 0
      else tpShardDelta.shard config T 1 :=
  (if_neg hnot).trans (if_pos hname)

include hrank hsize

theorem shard_eq {dim : Nat} (hdim : T.shape[dim]? = some tp.numHeads) :
    tpShardDelta.shard config T dim = some (tp.headSlice rank T dim) := by
  obtain ⟨hlt, hheads⟩ := List.getElem?_eq_some_iff.mp hdim
  rw [tpShardDelta.shard, if_pos hlt, List.getD_eq_getElem?_getD, hdim, hrank, hsize]
  rfl

omit hrank in
/-- A tensor whose heads are cut along a dimension, or that is copied as it is. -/
theorem hedgehogData_cases {dim : Nat} {paramShape : List Nat}
    (hdim : T.shape[dim]? = some tp.numHeads)
    (hparam : paramShape = T.shape.set dim tp.localHeads)
    (hshard : tpShardDelta config name T = some (tp.headSlice rank T dim)) :
    hedgehogData config name paramShape T = .ok (tp.headSlice rank T dim) ∨
      tp.localHeads = tp.numHeads ∧ hedgehogData config name paramShape T = .ok T := by
  obtain ⟨hlt, hheads⟩ := List.getElem?_eq_some_iff.mp hdim
  simp only [hedgehogData, hsize]
  by_cases hcut : T.shape ≠ paramShape ∧ 1 < tp.tpSize
  · rw [if_pos hcut, hshard]
    exact .inl (if_pos (hparam ▸ tp.shape_headSlice hdim))
  · have hsame : tp.localHeads = tp.numHeads := by
      rcases not_and_or.mp hcut with hshape | hone
      · have hget := congrArg (fun shape => shape[dim]?) (not_not.mp hshape)
        simp only [hparam, List.getElem?_set_self hlt, hdim] at hget
        exact (Option.some.inj hget).symm
      · exact localHeads_of_uncut hone
    have hshape : T.shape = paramShape := by
      rw [hparam, hsame, ← hheads, List.set_getElem_self]
    rw [if_neg hcut]
    exact .inr ⟨hsame, if_pos hshape⟩

theorem hedgehogData_weights (hname : "hedgehog_weights".toList <:+: name)
    (hT : T.shape = [tp.numHeads, D, F]) :
    ∃ data, hedgehogData config name [tp.localHeads, D, F] T = .ok data ∧
      ∀ h < tp.localHeads, ∀ d < D, ∀ f < F,
        data.entry [h, d, f] = T.entry [tp.globalHead rank h, d, f] := by
  have hdim : T.shape[0]? = some tp.numHeads := by simp [hT]
  have hparam : [tp.localHeads, D, F] = T.shape.set 0 tp.localHeads := by simp [hT]
  rcases tp.hedgehogData_cases hsize hdim hparam
    ((tpShardDelta_weights hname).trans (tp.shard_eq hrank hsize hdim)) with hdata | ⟨hsame, hdata⟩
  · refine ⟨_, hdata, ?_⟩
    intro h hh d hd f hf
    have hin : inShape (tp.headSlice rank T 0).shape [h, d, f] = true := by
      simp [tp.shape_headSlice hdim, hT, inShape, hh, hd, hf]
    exact Tensor.entry_ofFn _ hin
  · refine ⟨_, hdata, ?_⟩
    intro h hh d hd f hf
    rw [globalHead_of_single hsame rank hh]

omit hrank hsize in
theorem reshape_vector {U : Tensor K} {n : Nat} (hU : U.shape = [n]) :
    ∃ data, U.reshape [1, n, 1, 1] = some data ∧
      ∀ h < n, data.entry [0, h, 0, 0] = U.entry [h] := by
  refine ⟨_, by rw [Tensor.reshape, if_pos (by simp [hU])], ?_⟩
  intro h hh
  rw [Tensor.entry_ofFn _ (by simp [inShape, hh])]
  simp [hU, Tensor.unflatten, Tensor.flatIndex]

theorem sharded_vector (hnot : ¬ "hedgehog_weights".toList <:+: name)
    (hname : "alpha".toList <:+: name) (hT : T.shape = [tp.numHeads]) :
    ∃ U, (if 1 < tp.tpSize then tpShardDelta config name T else some T) = some U ∧
      U.shape = [tp.localHeads] ∧
      ∀ h < tp.localHeads, U.entry [h] = T.entry [tp.globalHead rank h] := by
  have hdim : T.shape[0]? = some tp.numHeads := by simp [hT]
  have hshape : (tp.headSlice rank T 0).shape = [tp.localHeads] := by
    simp [tp.shape_headSlice hdim, hT]
  split_ifs with hmany
  · refine ⟨tp.headSlice rank T 0, ?_, hshape, ?_⟩
    · rw [tpShardDelta_alpha hnot hname, if_pos (by simp [hT]), tp.shard_eq hrank hsize hdim]
    · intro h hh
      have hin : inShape (tp.headSlice rank T 0).shape [h] = true := by
        simp [hshape, inShape, hh]
      exact Tensor.entry_ofFn _ hin
  · have hsame := localHeads_of_uncut hmany
    refine ⟨T, rfl, hsame ▸ hT, ?_⟩
    intro h hh
    rw [globalHead_of_single hsame rank hh]

/-- The gate of a head in either layout. -/
def alphaAt (T : Tensor K) (g : Nat) : K :=
  if T.shape.length = 1 then T.entry [g] else T.entry [0, g, 0, 0]

theorem hedgehogData_alpha (hnot : ¬ "hedgehog_weights".toList <:+: name)
    (hname : "alpha".toList <:+: name)
    (hT : T.shape = [tp.numHeads] ∨ T.shape = [1, tp.numHeads, 1, 1]) :
    ∃ data, hedgehogData config name [1, tp.localHeads, 1, 1] T = .ok data ∧
      ∀ h < tp.localHeads, data.entry [0, h, 0, 0] = alphaAt T (tp.globalHead rank h) := by
  rcases hT with hT | hT
  · have hcut : T.shape ≠ [1, tp.localHeads, 1, 1] := by simp [hT]
    have halpha : ∀ g, alphaAt T g = T.entry [g] := by simp [alphaAt, hT]
    obtain ⟨U, hsharded, hU, hentry⟩ := tp.sharded_vector hrank hsize hnot hname hT
    obtain ⟨data, hdata, hrow⟩ := reshape_vector hU
    refine ⟨data, ?_, ?_⟩
    · have hne : U.shape ≠ [1, tp.localHeads, 1, 1] := by simp [hU]
      simp only [hedgehogData, hcut, ne_eq, not_false_eq_true, true_and, hsize, hsharded, hdata]
      exact if_neg hne
    · intro h hh
      rw [hrow h hh, hentry h hh, halpha]
  · have hdim : T.shape[1]? = some tp.numHeads := by simp [hT]
    have hparam : [1, tp.localHeads, 1, 1] = T.shape.set 1 tp.localHeads := by simp [hT]
    have hshard : tpShardDelta config name T = some (tp.headSlice rank T 1) := by
      rw [tpShardDelta_alpha hnot hname, if_neg (by simp [hT]), tp.shard_eq hrank hsize hdim]
    have halpha : ∀ g, alphaAt T g = T.entry [0, g, 0, 0] := by simp [alphaAt, hT]
    rcases tp.hedgehogData_cases hsize hdim hparam hshard with hdata | ⟨hsame, hdata⟩
    · refine ⟨_, hdata, ?_⟩
      intro h hh
      have hin : inShape (tp.headSlice rank T 1).shape [0, h, 0, 0] = true := by
        simp [tp.shape_headSlice hdim, hT, inShape, hh]
      rw [halpha]
      exact Tensor.entry_ofFn _ hin
    · refine ⟨_, hdata, ?_⟩
      intro h hh
      rw [halpha, globalHead_of_single hsame rank hh]

end Shards

end TensorParallel

end LladaHybrid.Loading
