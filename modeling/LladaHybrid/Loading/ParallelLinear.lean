import LladaHybrid.Library.Tensor

namespace LladaHybrid.Loading

open LladaHybrid.Library

/-! The weight loaders of `QKVParallelLinear` and `RowParallelLinear` for unquantised
weights. A loader that raises gives `none`. -/

variable {K : Type*} [Zero K]

/-- The layer sizes, with the divisibility its constructor asserts. -/
structure QKVParallelLinear where
  hiddenSize : Nat
  headSize : Nat
  totalNumHeads : Nat
  totalNumKvHeads : Nat
  tpRank : Nat
  tpSize : Nat
  rank_lt : tpRank < tpSize
  divide_heads : tpSize ∣ totalNumHeads
  divide_kvHeads :
    if totalNumKvHeads ≤ tpSize then totalNumKvHeads ∣ tpSize else tpSize ∣ totalNumKvHeads

inductive QkvShard
  | q
  | k
  | v

namespace QKVParallelLinear

variable (layer : QKVParallelLinear)

def numHeads : Nat := layer.totalNumHeads / layer.tpSize

def numKvHeads : Nat :=
  if layer.totalNumKvHeads ≤ layer.tpSize then 1 else layer.totalNumKvHeads / layer.tpSize

def numKvHeadReplicas : Nat :=
  if layer.totalNumKvHeads ≤ layer.tpSize then layer.tpSize / layer.totalNumKvHeads else 1

def fusedRows : Nat :=
  (layer.totalNumHeads + layer.totalNumKvHeads) * layer.headSize +
    layer.totalNumKvHeads * layer.headSize

def localRows : Nat :=
  (layer.numHeads + layer.numKvHeads) * layer.headSize + layer.numKvHeads * layer.headSize

def fusedOffset : QkvShard → Nat
  | .q => 0
  | .k => layer.totalNumHeads * layer.headSize
  | .v => (layer.totalNumHeads + layer.totalNumKvHeads) * layer.headSize

def fusedSize : QkvShard → Nat
  | .q => layer.totalNumHeads * layer.headSize
  | .k => layer.totalNumKvHeads * layer.headSize
  | .v => layer.totalNumKvHeads * layer.headSize

def shardOffset : QkvShard → Nat
  | .q => 0
  | .k => layer.numHeads * layer.headSize
  | .v => (layer.numHeads + layer.numKvHeads) * layer.headSize

def shardSize : QkvShard → Nat
  | .q => layer.numHeads * layer.headSize
  | .k => layer.numKvHeads * layer.headSize
  | .v => layer.numKvHeads * layer.headSize

def shardId : QkvShard → Nat
  | .q => layer.tpRank
  | .k => layer.tpRank / layer.numKvHeadReplicas
  | .v => layer.tpRank / layer.numKvHeadReplicas

/-- `weight_loader(param, loaded_weight, loaded_shard_id)`. -/
def loadShard (param loadedWeight : Tensor K) (shard : QkvShard) : Option (Tensor K) := do
  let paramData ← param.narrow 0 (layer.shardOffset shard) (layer.shardSize shard)
  let loaded ← loadedWeight.narrow 0 (layer.shardId shard * layer.shardSize shard)
    (layer.shardSize shard)
  if paramData.shape = loaded.shape then
    some (param.copyInto 0 (layer.shardOffset shard) loaded)
  else
    none

/-- `weight_loader(param, loaded_weight)` of a weight that is fused on disk. -/
def weightLoader (param loadedWeight : Tensor K) : Option (Tensor K) :=
  [QkvShard.q, .k, .v].foldlM (fun param shard => do
    let loadedWeightShard ← loadedWeight.narrow 0 (layer.fusedOffset shard)
      (layer.fusedSize shard)
    layer.loadShard param loadedWeightShard shard) param

end QKVParallelLinear

structure RowParallelLinear where
  inputSize : Nat
  outputSize : Nat
  tpRank : Nat
  tpSize : Nat
  rank_lt : tpRank < tpSize
  divide_input : tpSize ∣ inputSize

/-- Zeros in place of the columns the weight does not have. -/
def padOrNarrowWeight (loadedWeight : Tensor K) (inputDim startIdx shardSize : Nat) :
    Tensor K :=
  .ofFn (loadedWeight.shape.set inputDim shardSize)
    (fun index => loadedWeight.entry (index.modify inputDim (startIdx + ·)))

/-- `weight_loader` of the row-parallel layer. -/
def RowParallelLinear.weightLoader (layer : RowParallelLinear)
    (param loadedWeight : Tensor K) : Option (Tensor K) := do
  let shardSize := param.shape.getD 1 0
  let startIdx := layer.tpRank * shardSize
  let loaded ←
    if loadedWeight.shape.getD 1 0 < startIdx + shardSize then
      some (padOrNarrowWeight loadedWeight 1 startIdx shardSize)
    else
      loadedWeight.narrow 1 startIdx shardSize
  if param.shape = loaded.shape then some loaded else none

/-! What the loaders leave in the local parameter. -/

namespace QKVParallelLinear

variable (layer : QKVParallelLinear)

def sourceRow (i : Nat) : Nat :=
  if i < layer.shardOffset .k then
    layer.tpRank * layer.shardSize .q + i
  else if i < layer.shardOffset .v then
    layer.fusedOffset .k + (layer.shardId .k * layer.shardSize .k + (i - layer.shardOffset .k))
  else
    layer.fusedOffset .v + (layer.shardId .v * layer.shardSize .v + (i - layer.shardOffset .v))

def localSlice (loadedWeight : Tensor K) : Tensor K :=
  .ofFn [layer.localRows, layer.hiddenSize] (fun index =>
    loadedWeight.entry [layer.sourceRow (index.getD 0 0), index.getD 1 0])

theorem entry_localSlice (loadedWeight : Tensor K) {i j : Nat} (hi : i < layer.localRows)
    (hj : j < layer.hiddenSize) :
    (layer.localSlice loadedWeight).entry [i, j] = loadedWeight.entry [layer.sourceRow i, j] :=
  Tensor.entry_ofFn_matrix _ hi hj

theorem rank_shard_le {total : Nat} (hdvd : layer.tpSize ∣ total) :
    (layer.tpRank + 1) * (total / layer.tpSize * layer.headSize) ≤ total * layer.headSize := by
  calc
    (layer.tpRank + 1) * (total / layer.tpSize * layer.headSize) ≤
        layer.tpSize * (total / layer.tpSize * layer.headSize) :=
      Nat.mul_le_mul_right _ layer.rank_lt
    _ = total * layer.headSize := by rw [← Nat.mul_assoc, Nat.mul_div_cancel' hdvd]

theorem kvShard_le :
    (layer.tpRank / layer.numKvHeadReplicas + 1) * (layer.numKvHeads * layer.headSize) ≤
      layer.totalNumKvHeads * layer.headSize := by
  have hdvd := layer.divide_kvHeads
  unfold numKvHeadReplicas numKvHeads
  split_ifs at hdvd ⊢ with hfew
  · rw [Nat.one_mul]
    apply Nat.mul_le_mul_right
    apply Nat.div_lt_of_lt_mul
    rw [Nat.div_mul_cancel hdvd]
    exact layer.rank_lt
  · rw [Nat.div_one]
    exact layer.rank_shard_le hdvd

theorem shard_le_fused (shard : QkvShard) :
    layer.shardId shard * layer.shardSize shard + layer.shardSize shard ≤
      layer.fusedSize shard := by
  rw [← Nat.succ_mul]
  cases shard with
  | q => exact layer.rank_shard_le layer.divide_heads
  | k => exact layer.kvShard_le
  | v => exact layer.kvShard_le

theorem shard_le_local (shard : QkvShard) :
    layer.shardOffset shard + layer.shardSize shard ≤ layer.localRows := by
  cases shard <;> simp only [shardOffset, shardSize, localRows, Nat.add_mul] <;> omega

theorem fused_le (shard : QkvShard) :
    layer.fusedOffset shard + layer.fusedSize shard ≤ layer.fusedRows := by
  cases shard <;> simp only [fusedOffset, fusedSize, fusedRows, Nat.add_mul] <;> omega

/-- The part of the fused weight that a shard of this rank takes. -/
def shardSlice (loadedWeight : Tensor K) (shard : QkvShard) : Tensor K :=
  (loadedWeight.slice 0 (layer.fusedOffset shard)
    (layer.fusedOffset shard + layer.fusedSize shard)).slice 0
      (layer.shardId shard * layer.shardSize shard)
      (layer.shardId shard * layer.shardSize shard + layer.shardSize shard)

variable {layer} {param loadedWeight : Tensor K}
  (hloaded : loadedWeight.shape = [layer.fusedRows, layer.hiddenSize])

include hloaded

theorem shape_fusedSlice (shard : QkvShard) :
    (loadedWeight.slice 0 (layer.fusedOffset shard)
      (layer.fusedOffset shard + layer.fusedSize shard)).shape =
      [layer.fusedSize shard, layer.hiddenSize] := by
  rw [Tensor.shape_slice_rows hloaded, Nat.min_eq_left (layer.fused_le shard),
    Nat.add_sub_cancel_left]

theorem shape_shardSlice (shard : QkvShard) :
    (layer.shardSlice loadedWeight shard).shape =
      [layer.shardSize shard, layer.hiddenSize] := by
  rw [shardSlice, Tensor.shape_slice_rows (shape_fusedSlice hloaded shard),
    Nat.min_eq_left (layer.shard_le_fused shard), Nat.add_sub_cancel_left]

theorem entry_shardSlice (shard : QkvShard) {i j : Nat} (hi : i < layer.shardSize shard)
    (hj : j < layer.hiddenSize) :
    (layer.shardSlice loadedWeight shard).entry [i, j] = loadedWeight.entry
      [layer.fusedOffset shard + (layer.shardId shard * layer.shardSize shard + i), j] := by
  have hshard := layer.shard_le_fused shard
  have hfused := layer.fused_le shard
  rw [shardSlice, Tensor.entry_slice_rows (shape_fusedSlice hloaded shard) (by omega) hj,
    Tensor.entry_slice_rows hloaded (by omega) hj]

theorem loadShard_eq (hparam : param.shape = [layer.localRows, layer.hiddenSize])
    (shard : QkvShard) :
    layer.loadShard param (loadedWeight.slice 0 (layer.fusedOffset shard)
        (layer.fusedOffset shard + layer.fusedSize shard)) shard =
      some (param.copyInto 0 (layer.shardOffset shard)
        (layer.shardSlice loadedWeight shard)) := by
  have hlocal := layer.shard_le_local shard
  have hregion : (param.slice 0 (layer.shardOffset shard)
      (layer.shardOffset shard + layer.shardSize shard)).shape =
      [layer.shardSize shard, layer.hiddenSize] := by
    rw [Tensor.shape_slice_rows hparam, Nat.min_eq_left hlocal, Nat.add_sub_cancel_left]
  rw [loadShard, Tensor.narrow_rows hparam hlocal,
    Tensor.narrow_rows (shape_fusedSlice hloaded shard) (layer.shard_le_fused shard)]
  exact if_pos (hregion.trans (shape_shardSlice hloaded shard).symm)

theorem shardStep_eq (hparam : param.shape = [layer.localRows, layer.hiddenSize])
    (shard : QkvShard) :
    (loadedWeight.narrow 0 (layer.fusedOffset shard) (layer.fusedSize shard)).bind
        (fun loaded => layer.loadShard param loaded shard) =
      some (param.copyInto 0 (layer.shardOffset shard)
        (layer.shardSlice loadedWeight shard)) := by
  rw [Tensor.narrow_rows hloaded (layer.fused_le shard)]
  exact loadShard_eq hloaded hparam shard

theorem entry_shardCopies (hparam : param.shape = [layer.localRows, layer.hiddenSize])
    {i j : Nat} (hi : i < layer.localRows) (hj : j < layer.hiddenSize) :
    (((param.copyInto 0 (layer.shardOffset .q) (layer.shardSlice loadedWeight .q)).copyInto
        0 (layer.shardOffset .k) (layer.shardSlice loadedWeight .k)).copyInto
        0 (layer.shardOffset .v) (layer.shardSlice loadedWeight .v)).entry [i, j] =
      loadedWeight.entry [layer.sourceRow i, j] := by
  have hk : layer.shardOffset .k = layer.shardSize .q := rfl
  have hv : layer.shardOffset .v = layer.shardOffset .k + layer.shardSize .k :=
    Nat.add_mul _ _ _
  have hlocal : layer.localRows = layer.shardOffset .v + layer.shardSize .v := rfl
  have hcopy : ∀ (t : Tensor K) (shard : QkvShard), t.shape = param.shape →
      (t.copyInto 0 (layer.shardOffset shard) (layer.shardSlice loadedWeight shard)).entry
          [i, j] =
        if layer.shardOffset shard ≤ i ∧ i < layer.shardOffset shard + layer.shardSize shard then
          (layer.shardSlice loadedWeight shard).entry [i - layer.shardOffset shard, j]
        else t.entry [i, j] := by
    intro t shard ht
    exact Tensor.entry_copyInto_rows (ht.trans hparam) (shape_shardSlice hloaded shard) _ hi hj
  rw [hcopy, hcopy, hcopy, sourceRow]
  · by_cases hq : i < layer.shardOffset .k
    · have hown : layer.shardOffset .q ≤ i ∧ i < layer.shardOffset .q + layer.shardSize .q := by
        rw [shardOffset]
        omega
      rw [if_neg (by omega), if_neg (by omega), if_pos hown, if_pos hq,
        entry_shardSlice hloaded .q (by omega) hj]
      simp only [fusedOffset, shardId, shardOffset, Nat.zero_add, Nat.sub_zero]
    · rw [if_neg hq]
      by_cases hkey : i < layer.shardOffset .v
      · rw [if_neg (by omega), if_pos ⟨by omega, by omega⟩, if_pos hkey,
          entry_shardSlice hloaded .k (by omega) hj]
      · rw [if_pos ⟨by omega, by omega⟩, if_neg hkey,
          entry_shardSlice hloaded .v (by omega) hj]
  all_goals rfl

theorem weightLoader_eq (hparam : param.shape = [layer.localRows, layer.hiddenSize]) :
    layer.weightLoader param loadedWeight = some (layer.localSlice loadedWeight) := by
  have hq : (param.copyInto 0 (layer.shardOffset .q)
      (layer.shardSlice loadedWeight .q)).shape = [layer.localRows, layer.hiddenSize] := hparam
  have hk : ((param.copyInto 0 (layer.shardOffset .q)
      (layer.shardSlice loadedWeight .q)).copyInto 0 (layer.shardOffset .k)
      (layer.shardSlice loadedWeight .k)).shape = [layer.localRows, layer.hiddenSize] := hparam
  simp only [weightLoader, List.foldlM_cons, List.foldlM_nil, Option.bind_eq_bind,
    shardStep_eq hloaded hparam, shardStep_eq hloaded hq, shardStep_eq hloaded hk,
    Option.bind_some, Option.pure_def]
  congr 1
  refine Tensor.ext_matrix hparam rfl ?_
  intro i hi j hj
  rw [entry_shardCopies hloaded hparam hi hj, layer.entry_localSlice loadedWeight hi hj]

end QKVParallelLinear

end LladaHybrid.Loading
