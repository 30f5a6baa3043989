import LladaHybrid.Loading.LoraMerge
import Mathlib.Algebra.Field.Rat
import Mathlib.Data.Rat.Cast.Defs

namespace LladaHybrid.Loading

open LladaHybrid.Library

/-! Whether the merge on one rank leaves what the weight loaders would take from the
merged weight. -/

variable {K : Type*}

section EvenSplit

variable {total part rank size : Nat} (hmul : size * part = total) (hlt : rank < size)

include hmul hlt

theorem evenSplit_le : (rank + 1) * part ≤ total := by
  rw [← hmul]
  exact Nat.mul_le_mul_right part hlt

theorem evenSplit_length : min ((rank + 1) * part) total - rank * part = part := by
  rw [Nat.min_eq_left (evenSplit_le hmul hlt), Nat.succ_mul, Nat.add_sub_cancel_left]

theorem evenSplit_uncut (hcut : ¬ (total ≠ part ∧ 1 < size)) :
    total = part ∧ rank * part = 0 := by
  by_cases hmany : 1 < size
  · have hwhole : total = part := not_not.mp (fun hne => hcut ⟨hne, hmany⟩)
    have hempty : part = 0 := by
      by_contra hpos
      have hgrow := Nat.mul_lt_mul_of_pos_right hmany (Nat.pos_of_ne_zero hpos)
      omega
    exact ⟨hwhole, by rw [hempty, Nat.mul_zero]⟩
  · have hsingle : size = 1 := by omega
    have hfirst : rank = 0 := by omega
    rw [hsingle, Nat.one_mul] at hmul
    exact ⟨hmul.symm, by rw [hfirst, Nat.zero_mul]⟩

end EvenSplit

namespace QKVParallelLinear

variable (layer : QKVParallelLinear)

theorem tpSize_pos : 0 < layer.tpSize :=
  Nat.zero_lt_of_lt layer.rank_lt

theorem kvHeads_pos : 0 < layer.totalNumKvHeads := by
  have hdvd := layer.divide_kvHeads
  have htp := layer.tpSize_pos
  split_ifs at hdvd with hfew
  · exact Nat.pos_of_dvd_of_pos hdvd htp
  · omega

theorem localRows_mul (hkv : layer.tpSize ≤ layer.totalNumKvHeads) :
    layer.tpSize * layer.localRows = layer.fusedRows := by
  have hheads : layer.tpSize * layer.numHeads = layer.totalNumHeads :=
    Nat.mul_div_cancel' layer.divide_heads
  have hkvHeads : layer.tpSize * layer.numKvHeads = layer.totalNumKvHeads := by
    have hdvd := layer.divide_kvHeads
    unfold numKvHeads
    split_ifs at hdvd ⊢ with hfew
    · rw [Nat.mul_one]
      exact Nat.le_antisymm hkv hfew
    · exact Nat.mul_div_cancel' hdvd
  unfold localRows fusedRows
  rw [Nat.mul_add, ← Nat.mul_assoc, ← Nat.mul_assoc, Nat.mul_add, hheads, hkvHeads]

theorem localRows_eq_chunk (hkv : layer.tpSize ≤ layer.totalNumKvHeads) :
    layer.localRows = layer.fusedRows / layer.tpSize := by
  rw [← layer.localRows_mul hkv, Nat.mul_div_cancel_left _ layer.tpSize_pos]

theorem chunk_lt_localRows (hkv : layer.totalNumKvHeads < layer.tpSize)
    (hsize : 0 < layer.headSize) : layer.fusedRows / layer.tpSize < layer.localRows := by
  have hheads : layer.tpSize * layer.numHeads = layer.totalNumHeads :=
    Nat.mul_div_cancel' layer.divide_heads
  have hone : layer.numKvHeads = 1 := if_pos hkv.le
  apply Nat.div_lt_of_lt_mul
  unfold localRows fusedRows
  rw [Nat.mul_add, ← Nat.mul_assoc, ← Nat.mul_assoc, Nat.mul_add, hheads, hone, Nat.mul_one,
    ← Nat.add_mul, ← Nat.add_mul]
  exact Nat.mul_lt_mul_of_pos_right (by omega) hsize

theorem localRows_lt_fusedRows (hheads : 0 < layer.totalNumHeads)
    (hkv : layer.totalNumKvHeads < layer.tpSize) (hsize : 0 < layer.headSize) :
    layer.localRows < layer.fusedRows := by
  have hone : layer.numKvHeads = 1 := if_pos hkv.le
  have hpos := layer.kvHeads_pos
  have hfewer : layer.numHeads < layer.totalNumHeads :=
    Nat.div_lt_self hheads (by omega)
  unfold localRows fusedRows
  rw [← Nat.add_mul, ← Nat.add_mul, hone]
  exact Nat.mul_lt_mul_of_pos_right (by omega) hsize

theorem sourceRow_lt {i : Nat} (hi : i < layer.localRows) :
    layer.sourceRow i < layer.fusedRows := by
  have hv : layer.shardOffset .v = layer.shardOffset .k + layer.shardSize .k :=
    Nat.add_mul _ _ _
  have hlocal : layer.localRows = layer.shardOffset .v + layer.shardSize .v := rfl
  have hk : layer.shardOffset .k = layer.shardSize .q := rfl
  unfold sourceRow
  split_ifs with hquery hkey
  · have hshard := layer.shard_le_fused .q
    have hfused := layer.fused_le .q
    simp only [shardId, fusedOffset] at hshard hfused
    omega
  · have hshard := layer.shard_le_fused .k
    have hfused := layer.fused_le .k
    omega
  · have hshard := layer.shard_le_fused .v
    have hfused := layer.fused_le .v
    omega

theorem sourceRow_of_single (hsingle : layer.tpSize = 1) (i : Nat) :
    layer.sourceRow i = i := by
  have hrank : layer.tpRank = 0 := by
    have hlt := layer.rank_lt
    omega
  have hheads : layer.numHeads = layer.totalNumHeads := by
    rw [numHeads, hsingle, Nat.div_one]
  have hkvHeads : layer.numKvHeads = layer.totalNumKvHeads := by
    have hpos := layer.kvHeads_pos
    unfold numKvHeads
    rw [hsingle, Nat.div_one]
    split_ifs with hfew
    · omega
    · rfl
  simp only [sourceRow, shardOffset, fusedOffset, shardId, hrank, hheads, hkvHeads,
    Nat.zero_mul, Nat.zero_div, Nat.zero_add]
  split_ifs <;> omega

end QKVParallelLinear

section Merge

variable [Field K] {config : LoadConfig} {name : Name}

theorem shape_mergedData (data delta : Tensor K) :
    (mergedData config name data delta).shape = data.shape := by
  unfold mergedData
  dsimp only
  split_ifs <;> rfl

theorem QKVParallelLinear.localSlice_add_entry {layer : QKVParallelLinear}
    {W delta : Tensor K} (hW : W.shape = [layer.fusedRows, layer.hiddenSize]) {i j : Nat}
    (hi : i < layer.localRows) (hj : j < layer.hiddenSize) :
    (layer.localSlice (W.add delta)).entry [i, j] =
      (layer.localSlice W).entry [i, j] + delta.entry [layer.sourceRow i, j] := by
  rw [layer.entry_localSlice _ hi hj, layer.entry_localSlice _ hi hj]
  exact Tensor.entry_add_matrix hW (layer.sourceRow_lt hi) hj

/-! The fused projection. -/

section Qkv

variable {layer : QKVParallelLinear} {W delta : Tensor K}
  (hrank : config.tpRank = layer.tpRank) (hsize : config.tpSize = layer.tpSize)
  (hname : "query_key_value".toList <:+: name)
  (hdelta : delta.shape = [layer.fusedRows, layer.hiddenSize])

include hrank hsize hname hdelta

theorem shardDelta_even (hkv : layer.tpSize ≤ layer.totalNumKvHeads) :
    (shardDelta config name [layer.localRows, layer.hiddenSize] delta).shape =
        [layer.localRows, layer.hiddenSize] ∧
      ∀ i < layer.localRows, ∀ j < layer.hiddenSize,
        (shardDelta config name [layer.localRows, layer.hiddenSize] delta).entry [i, j] =
          delta.entry [layer.tpRank * (layer.fusedRows / layer.tpSize) + i, j] := by
  have hchunk := layer.localRows_eq_chunk hkv
  have hmul := layer.localRows_mul hkv
  unfold shardDelta
  rw [hdelta, hsize]
  split_ifs with hcut
  · have hrows := evenSplit_length hmul layer.rank_lt
    simp only [shardDelta.shard, hdelta, List.getD_cons_zero, hrank, hsize, ← hchunk]
    constructor
    · rw [Tensor.shape_slice_rows hdelta, hrows]
    · intro i hi j hj
      exact Tensor.entry_slice_rows hdelta (hrows.symm ▸ hi) hj
  · simp only [ne_eq, List.cons.injEq, and_true] at hcut
    obtain ⟨hrows, hstart⟩ := evenSplit_uncut hmul layer.rank_lt hcut
    rw [← hchunk, hstart]
    refine ⟨by rw [hdelta, hrows], ?_⟩
    intro i _ j _
    rw [Nat.zero_add]

theorem mergedData_even (hkv : layer.tpSize ≤ layer.totalNumKvHeads) {i j : Nat}
    (hi : i < layer.localRows) (hj : j < layer.hiddenSize) :
    (mergedData config name (layer.localSlice W) delta).entry [i, j] =
      (layer.localSlice W).entry [i, j] +
        delta.entry [layer.tpRank * (layer.fusedRows / layer.tpSize) + i, j] := by
  obtain ⟨hshape, hentry⟩ := shardDelta_even hrank hsize hname hdelta hkv
  have hlocal : (layer.localSlice W).shape = [layer.localRows, layer.hiddenSize] := rfl
  unfold mergedData
  rw [hlocal, if_pos hshape, Tensor.entry_add_matrix hlocal hi hj, hentry i hi j hj]

/-- A replicated layer keeps its base weight: the delta fits neither whole nor cut. -/
theorem mergedData_replicated (hheads : 0 < layer.totalNumHeads)
    (hkv : layer.totalNumKvHeads < layer.tpSize) (hhead : 0 < layer.headSize) :
    mergedData config name (layer.localSlice W) delta = layer.localSlice W := by
  have hlocal : (layer.localSlice W).shape = [layer.localRows, layer.hiddenSize] := rfl
  have hfewer := layer.localRows_lt_fusedRows hheads hkv hhead
  have hchunk := layer.chunk_lt_localRows hkv hhead
  have hpos := layer.kvHeads_pos
  have hcut : delta.shape ≠ [layer.localRows, layer.hiddenSize] ∧ 1 < config.tpSize := by
    rw [hdelta, hsize]
    refine ⟨?_, by omega⟩
    intro hsame
    simp only [List.cons.injEq] at hsame
    omega
  have hshape : (shardDelta config name [layer.localRows, layer.hiddenSize] delta).shape ≠
      [layer.localRows, layer.hiddenSize] := by
    rw [shardDelta, if_pos hcut, if_pos hname, shardDelta.shard,
      Tensor.shape_slice_rows hdelta]
    simp only [hdelta, List.getD_cons_zero, hrank, hsize]
    intro hsame
    simp only [List.cons.injEq, and_true] at hsame
    have hle : layer.localRows ≤ layer.fusedRows / layer.tpSize := by
      calc
        layer.localRows ≤ (layer.tpRank + 1) * (layer.fusedRows / layer.tpSize) -
            layer.tpRank * (layer.fusedRows / layer.tpSize) := by
          rw [← hsame]
          exact Nat.sub_le_sub_right (Nat.min_le_left _ _) _
        _ = layer.fusedRows / layer.tpSize := by
          rw [Nat.succ_mul, Nat.add_sub_cancel_left]
    exact absurd hchunk (Nat.not_lt.mpr hle)
  unfold mergedData
  rw [hlocal, if_neg hshape]

end Qkv

/-- The even cut of the delta has the rows that the loader takes. A replicated layer gets
no delta, so there those rows are zero. -/
def QKVParallelLinear.DeltaRowsAgree (layer : QKVParallelLinear) (delta : Tensor K) : Prop :=
  if layer.tpSize ≤ layer.totalNumKvHeads then
    ∀ i < layer.localRows, ∀ j < layer.hiddenSize,
      delta.entry [layer.tpRank * (layer.fusedRows / layer.tpSize) + i, j] =
        delta.entry [layer.sourceRow i, j]
  else
    ∀ i < layer.localRows, ∀ j < layer.hiddenSize, delta.entry [layer.sourceRow i, j] = 0

theorem QKVParallelLinear.deltaRowsAgree_of_single {layer : QKVParallelLinear}
    (hsingle : layer.tpSize = 1) (delta : Tensor K) : layer.DeltaRowsAgree delta := by
  have hpos := layer.kvHeads_pos
  have hlt := layer.rank_lt
  have hrank : layer.tpRank = 0 := by omega
  unfold DeltaRowsAgree
  rw [if_pos (by omega)]
  intro i _ j _
  rw [layer.sourceRow_of_single hsingle, hrank, Nat.zero_mul, Nat.zero_add]

theorem mergedData_eq_localSlice_iff {layer : QKVParallelLinear} {W delta : Tensor K}
    (hrank : config.tpRank = layer.tpRank) (hsize : config.tpSize = layer.tpSize)
    (hname : "query_key_value".toList <:+: name) (hheads : 0 < layer.totalNumHeads)
    (hW : W.shape = [layer.fusedRows, layer.hiddenSize])
    (hdelta : delta.shape = [layer.fusedRows, layer.hiddenSize]) :
    mergedData config name (layer.localSlice W) delta = layer.localSlice (W.add delta) ↔
      layer.DeltaRowsAgree delta := by
  have hentries : mergedData config name (layer.localSlice W) delta =
      layer.localSlice (W.add delta) ↔
      ∀ i < layer.localRows, ∀ j < layer.hiddenSize,
        (mergedData config name (layer.localSlice W) delta).entry [i, j] =
          (layer.localSlice W).entry [i, j] + delta.entry [layer.sourceRow i, j] := by
    constructor
    · intro hsame i hi j hj
      rw [hsame, layer.localSlice_add_entry hW hi hj]
    · intro hsame
      refine Tensor.ext_matrix (shape_mergedData _ _) rfl ?_
      intro i hi j hj
      rw [hsame i hi j hj, layer.localSlice_add_entry hW hi hj]
  rw [hentries, QKVParallelLinear.DeltaRowsAgree]
  split_ifs with hkv
  · refine forall₄_congr (fun i hi j hj => ?_)
    rw [mergedData_even hrank hsize hname hdelta hkv hi hj, add_right_inj]
  · refine forall₄_congr (fun i hi j hj => ?_)
    have hhead : 0 < layer.headSize := by
      apply Nat.pos_of_ne_zero
      intro hzero
      rw [QKVParallelLinear.localRows, hzero] at hi
      exact absurd hi (by simp)
    rw [mergedData_replicated hrank hsize hname hdelta hheads (not_le.mp hkv) hhead,
      left_eq_add]

/-! The output projection. -/

section Dense

variable {layer : RowParallelLinear} {param W delta : Tensor K}

def RowParallelLinear.localSlice (layer : RowParallelLinear) (W : Tensor K) : Tensor K :=
  W.slice 1 (layer.tpRank * (layer.inputSize / layer.tpSize))
    ((layer.tpRank + 1) * (layer.inputSize / layer.tpSize))

theorem RowParallelLinear.columns_mul (layer : RowParallelLinear) :
    layer.tpSize * (layer.inputSize / layer.tpSize) = layer.inputSize :=
  Nat.mul_div_cancel' layer.divide_input

theorem RowParallelLinear.shape_localSlice
    (hW : W.shape = [layer.outputSize, layer.inputSize]) :
    (layer.localSlice W).shape = [layer.outputSize, layer.inputSize / layer.tpSize] := by
  rw [localSlice, Tensor.shape_slice_cols hW, evenSplit_length layer.columns_mul layer.rank_lt]

theorem RowParallelLinear.entry_localSlice
    (hW : W.shape = [layer.outputSize, layer.inputSize]) {i j : Nat}
    (hi : i < layer.outputSize) (hj : j < layer.inputSize / layer.tpSize) :
    (layer.localSlice W).entry [i, j] =
      W.entry [i, layer.tpRank * (layer.inputSize / layer.tpSize) + j] := by
  have hcols := evenSplit_length layer.columns_mul layer.rank_lt
  exact Tensor.entry_slice_cols hW hi (hcols.symm ▸ hj)

theorem RowParallelLinear.weightLoader_eq
    (hparam : param.shape = [layer.outputSize, layer.inputSize / layer.tpSize])
    (hW : W.shape = [layer.outputSize, layer.inputSize]) :
    layer.weightLoader param W = some (layer.localSlice W) := by
  have hle := evenSplit_le layer.columns_mul layer.rank_lt
  have hend : layer.tpRank * (layer.inputSize / layer.tpSize) +
      layer.inputSize / layer.tpSize =
      (layer.tpRank + 1) * (layer.inputSize / layer.tpSize) := (Nat.succ_mul _ _).symm
  have hshape := shape_localSlice hW
  unfold weightLoader
  simp only [hparam, hW, List.getD_cons_succ, List.getD_cons_zero, hend]
  rw [if_neg (Nat.not_lt.mpr hle), Tensor.narrow_cols hW (hend.trans_le hle), hend]
  exact if_pos hshape.symm

variable (hrank : config.tpRank = layer.tpRank) (hsize : config.tpSize = layer.tpSize)
  (hname : "dense".toList <:+: name) (hother : ¬ "query_key_value".toList <:+: name)
  (hdelta : delta.shape = [layer.outputSize, layer.inputSize])

include hrank hsize hname hother hdelta

theorem shardDelta_columns :
    shardDelta config name [layer.outputSize, layer.inputSize / layer.tpSize] delta =
      layer.localSlice delta := by
  have hshape := RowParallelLinear.shape_localSlice hdelta
  unfold shardDelta
  rw [hdelta, hsize]
  split_ifs with hcut
  · simp only [shardDelta.shard, hdelta, List.getD_cons_succ, List.getD_cons_zero, hrank, hsize]
    rfl
  · simp only [ne_eq, List.cons.injEq, and_true, true_and] at hcut
    obtain ⟨hcols, hstart⟩ := evenSplit_uncut layer.columns_mul layer.rank_lt hcut
    rw [← hcols] at hshape
    refine Tensor.ext_matrix hdelta hshape ?_
    intro i hi j hj
    rw [RowParallelLinear.entry_localSlice hdelta hi (hcols ▸ hj), hstart, Nat.zero_add]

theorem mergedData_dense (hW : W.shape = [layer.outputSize, layer.inputSize]) :
    mergedData config name (layer.localSlice W) delta = layer.localSlice (W.add delta) := by
  have hslice := RowParallelLinear.shape_localSlice hW
  have hcut := RowParallelLinear.shape_localSlice hdelta
  have hsum : (W.add delta).shape = [layer.outputSize, layer.inputSize] := hW
  unfold mergedData
  rw [hslice, shardDelta_columns hrank hsize hname hother hdelta, if_pos hcut]
  refine Tensor.ext_matrix hslice (RowParallelLinear.shape_localSlice hsum) ?_
  intro i hi j hj
  have hcol : layer.tpRank * (layer.inputSize / layer.tpSize) + j < layer.inputSize := by
    have hle := evenSplit_le layer.columns_mul layer.rank_lt
    rw [Nat.succ_mul] at hle
    omega
  rw [Tensor.entry_add_matrix hslice hi hj, RowParallelLinear.entry_localSlice hW hi hj,
    RowParallelLinear.entry_localSlice hdelta hi hj,
    RowParallelLinear.entry_localSlice hsum hi hj, Tensor.entry_add_matrix hW hi hcol]

end Dense

/-! Both projections of a layer, after `load_weights` on a rank. -/

/-- The delta that a pair of factors stands for. -/
def loraDelta (config : LoadConfig) (A B : Tensor K) : Option (Tensor K) :=
  (B.matmul A).map (Tensor.scale (loraScaling config))

section Targets

variable {files : Name → Option (List (Name × Tensor K))} {path stem : Name}
  {params result : Params K} {weights adapter : List (Name × Tensor K)} {param : Param K}
  {W A B delta : Tensor K}

theorem loadWeights_mergedData
    (hok : loadWeights config files params weights = .ok result)
    (hpath : config.adapterPath = some path) (hfile : files path = some adapter)
    (hweights : (weights.map Prod.fst).Nodup) (hadapter : (adapter.map Prod.fst).Nodup)
    (target : LoraTarget config params weights adapter stem param W A B)
    (hdelta : loraDelta config A B = some delta) {data : Tensor K}
    (hdata : param.loader.load param.data W = some data) :
    (result (weightName stem)).map Param.data =
      some (mergedData config (weightName stem) data delta) := by
  obtain ⟨loaded, product, hloaded, hproduct, hresult⟩ :=
    loadWeights_param hok hpath hfile hweights hadapter target
  cases hloaded.symm.trans hdata
  rw [loraDelta, hproduct, Option.map_some] at hdelta
  cases hdelta
  rw [hresult]
  rfl

structure QkvTarget (config : LoadConfig) (params : Params K)
    (weights adapter : List (Name × Tensor K)) (layer : QKVParallelLinear) (stem : Name)
    (param : Param K) (W A B delta : Tensor K) : Prop
    extends LoraTarget config params weights adapter stem param W A B where
  loader : param.loader = .qkv layer
  tpRank : config.tpRank = layer.tpRank
  tpSize : config.tpSize = layer.tpSize
  named : "query_key_value".toList <:+: weightName stem
  shape : param.data.shape = [layer.localRows, layer.hiddenSize]
  shapeW : W.shape = [layer.fusedRows, layer.hiddenSize]
  shapeA : ∃ rank, A.shape = [rank, layer.hiddenSize]
  shapeB : ∃ rank, B.shape = [layer.fusedRows, rank]
  delta : loraDelta config A B = some delta

structure DenseTarget (config : LoadConfig) (params : Params K)
    (weights adapter : List (Name × Tensor K)) (layer : RowParallelLinear) (stem : Name)
    (param : Param K) (W A B delta : Tensor K) : Prop
    extends LoraTarget config params weights adapter stem param W A B where
  loader : param.loader = .row layer
  tpRank : config.tpRank = layer.tpRank
  tpSize : config.tpSize = layer.tpSize
  named : "dense".toList <:+: weightName stem
  notQkv : ¬ "query_key_value".toList <:+: weightName stem
  shape : param.data.shape = [layer.outputSize, layer.inputSize / layer.tpSize]
  shapeW : W.shape = [layer.outputSize, layer.inputSize]
  shapeA : ∃ rank, A.shape = [rank, layer.inputSize]
  shapeB : ∃ rank, B.shape = [layer.outputSize, rank]
  delta : loraDelta config A B = some delta

theorem shape_loraDelta {rows cols : Nat} (hA : ∃ rank, A.shape = [rank, cols])
    (hB : ∃ rank, B.shape = [rows, rank]) (hdelta : loraDelta config A B = some delta) :
    delta.shape = [rows, cols] := by
  obtain ⟨inner, hA⟩ := hA
  obtain ⟨inner', hB⟩ := hB
  obtain ⟨product, hproduct, rfl⟩ := Option.map_eq_some_iff.mp hdelta
  rw [Tensor.shape_scale, Tensor.shape_matmul hB hA hproduct]

/-- After `load_weights` a rank holds the slices of the merged weights exactly if the rows
of the delta that it cuts are the rows that the fused loader takes. -/
theorem loadWeights_eq_mergedSlices_iff {qkvLayer : QKVParallelLinear}
    {denseLayer : RowParallelLinear} {qkvStem denseStem : Name} {qkvParam denseParam : Param K}
    {Wqkv Aqkv Bqkv qkvDelta Wdense Adense Bdense denseDelta : Tensor K}
    (hok : loadWeights config files params weights = .ok result)
    (hpath : config.adapterPath = some path) (hfile : files path = some adapter)
    (hweights : (weights.map Prod.fst).Nodup) (hadapter : (adapter.map Prod.fst).Nodup)
    (qkv : QkvTarget config params weights adapter qkvLayer qkvStem qkvParam
      Wqkv Aqkv Bqkv qkvDelta)
    (dense : DenseTarget config params weights adapter denseLayer denseStem denseParam
      Wdense Adense Bdense denseDelta)
    (hheads : 0 < qkvLayer.totalNumHeads) :
    ((result (weightName qkvStem)).map Param.data =
          qkvLayer.weightLoader qkvParam.data (Wqkv.add qkvDelta) ∧
        (result (weightName denseStem)).map Param.data =
          some (denseLayer.localSlice (Wdense.add denseDelta))) ↔
      qkvLayer.DeltaRowsAgree qkvDelta := by
  have hqkvShape := shape_loraDelta qkv.shapeA qkv.shapeB qkv.delta
  have hdenseShape := shape_loraDelta dense.shapeA dense.shapeB dense.delta
  have hqkvBase : qkvParam.loader.load qkvParam.data Wqkv = some (qkvLayer.localSlice Wqkv) := by
    rw [qkv.loader]
    exact QKVParallelLinear.weightLoader_eq qkv.shapeW qkv.shape
  have hdenseBase : denseParam.loader.load denseParam.data Wdense =
      some (denseLayer.localSlice Wdense) := by
    rw [dense.loader]
    exact RowParallelLinear.weightLoader_eq dense.shape dense.shapeW
  have hsum : (Wqkv.add qkvDelta).shape = [qkvLayer.fusedRows, qkvLayer.hiddenSize] := qkv.shapeW
  rw [loadWeights_mergedData hok hpath hfile hweights hadapter qkv.toLoraTarget qkv.delta
      hqkvBase,
    loadWeights_mergedData hok hpath hfile hweights hadapter dense.toLoraTarget dense.delta
      hdenseBase,
    QKVParallelLinear.weightLoader_eq hsum qkv.shape, Option.some.injEq, Option.some.injEq,
    mergedData_eq_localSlice_iff qkv.tpRank qkv.tpSize qkv.named hheads qkv.shapeW hqkvShape]
  exact and_iff_left (mergedData_dense dense.tpRank dense.tpSize dense.named dense.notQkv
    hdenseShape dense.shapeW)

end Targets

end Merge

/-! One layer with two query and two kv heads, on the first of two ranks. Only row `1` of
the fused projection, a query row of the other rank, has a delta. -/

namespace TwoRanks

def column (values : List ℚ) : Tensor ℚ :=
  .ofFn [values.length, 1] (fun index => values.getD (index.getD 0 0) 0)

def zeros (shape : List Nat) : Tensor ℚ := .ofFn shape (fun _ => 0)

def qkv : QKVParallelLinear where
  hiddenSize := 1
  headSize := 1
  totalNumHeads := 2
  totalNumKvHeads := 2
  tpRank := 0
  tpSize := 2
  rank_lt := by decide
  divide_heads := by decide
  divide_kvHeads := by decide

def dense : RowParallelLinear where
  inputSize := 2
  outputSize := 1
  tpRank := 0
  tpSize := 2
  rank_lt := by decide
  divide_input := by decide

def config : LoadConfig where
  loraRank := 1
  loraAlpha := 1
  adapterPath := some "adapter.safetensors".toList
  tieWordEmbeddings := false
  tpRank := 0
  tpSize := 2

def qkvStem : Name := "model.layers.0.attention.query_key_value".toList

def denseStem : Name := "model.layers.0.attention.dense".toList

def alphaName : Name := "model.layers.0.attention.hybrid_core.alpha".toList

def qkvParam : Param ℚ := ⟨.qkv qkv, zeros [3, 1]⟩

def denseParam : Param ℚ := ⟨.row dense, zeros [1, 1]⟩

def params : Params ℚ := fun name =>
  if name = weightName qkvStem then some qkvParam
  else if name = weightName denseStem then some denseParam
  else if name = alphaName then some ⟨.default, zeros [1]⟩
  else none

def weights : List (Name × Tensor ℚ) :=
  [(weightName qkvStem, zeros [6, 1]), (weightName denseStem, zeros [1, 2])]

def qkvB : Tensor ℚ := column [0, 1, 0, 0, 0, 0]

def adapter : List (Name × Tensor ℚ) :=
  [("hedgehog.".toList ++ alphaName, zeros [2]),
    ("lora.".toList ++ LoraFactor.A.key qkvStem, column [1]),
    ("lora.".toList ++ LoraFactor.B.key qkvStem, qkvB),
    ("lora.".toList ++ LoraFactor.A.key denseStem, zeros [1, 2]),
    ("lora.".toList ++ LoraFactor.B.key denseStem, zeros [1, 1])]

def files : Name → Option (List (Name × Tensor ℚ)) := fun path =>
  if path = "adapter.safetensors".toList then some adapter else none

theorem loadWeights_entry :
    (loadWeights config files params weights).toOption.bind (fun result =>
      (result (weightName qkvStem)).map (fun param => param.data.entry [1, 0])) = some 1 := by
  decide +kernel

theorem slice_entry :
    (loraDelta config (column [1]) qkvB).bind (fun delta =>
      (qkv.weightLoader qkvParam.data ((zeros [6, 1]).add delta)).map
        (fun data => data.entry [1, 0])) = some 0 := by
  decide +kernel

theorem loadWeights_ok : ∃ result, loadWeights config files params weights = .ok result ∧
    (result (weightName qkvStem)).map (fun param => param.data.entry [1, 0]) = some 1 := by
  obtain ⟨result, hresult, hentry⟩ := Option.bind_eq_some_iff.mp loadWeights_entry
  exact ⟨result, eq_ok_of_toOption hresult, hentry⟩

/-- The second local row, a key row, gets the delta of the other rank's query row. -/
theorem loadWeights_ne_mergedSlice :
    ∃ result delta, loadWeights config files params weights = .ok result ∧
      loraDelta config (column [1]) qkvB = some delta ∧
      (result (weightName qkvStem)).map Param.data ≠
        qkv.weightLoader qkvParam.data ((zeros [6, 1]).add delta) := by
  obtain ⟨result, hload, hentry⟩ := loadWeights_ok
  obtain ⟨delta, hdelta, hslice⟩ := Option.bind_eq_some_iff.mp slice_entry
  refine ⟨result, delta, hload, hdelta, ?_⟩
  intro hsame
  have hone : ((result (weightName qkvStem)).map Param.data).map
      (fun data => data.entry [1, 0]) = some 1 := by
    rw [Option.map_map]
    exact hentry
  rw [hsame, hslice] at hone
  exact absurd hone (by decide)

theorem qkvTarget {delta : Tensor ℚ} (hdelta : loraDelta config (column [1]) qkvB = some delta) :
    QkvTarget config params weights adapter qkv qkvStem qkvParam (zeros [6, 1]) (column [1])
      qkvB delta where
  registered := rfl
  plain := by decide +kernel
  weight := List.mem_cons_self
  factorA := by simp [adapter]
  factorB := by simp [adapter]
  notHedgehog := by decide +kernel
  loader := rfl
  tpRank := rfl
  tpSize := rfl
  named := by decide +kernel
  shape := rfl
  shapeW := rfl
  shapeA := ⟨1, rfl⟩
  shapeB := ⟨1, rfl⟩
  delta := hdelta

theorem denseTarget {delta : Tensor ℚ}
    (hdelta : loraDelta config (zeros [1, 2]) (zeros [1, 1]) = some delta) :
    DenseTarget config params weights adapter dense denseStem denseParam (zeros [1, 2])
      (zeros [1, 2]) (zeros [1, 1]) delta where
  registered := by rw [params, if_neg (by decide +kernel), if_pos rfl]
  plain := by decide +kernel
  weight := by simp [weights]
  factorA := by simp [adapter]
  factorB := by simp [adapter]
  notHedgehog := by decide +kernel
  loader := rfl
  tpRank := rfl
  tpSize := rfl
  named := by decide +kernel
  notQkv := by decide +kernel
  shape := rfl
  shapeW := rfl
  shapeA := ⟨1, rfl⟩
  shapeB := ⟨1, rfl⟩
  delta := hdelta

theorem loadWeights_eq_mergedSlices_iff_first :
    ∃ result qkvDelta denseDelta, loadWeights config files params weights = .ok result ∧
      loraDelta config (column [1]) qkvB = some qkvDelta ∧
      loraDelta config (zeros [1, 2]) (zeros [1, 1]) = some denseDelta ∧
      (((result (weightName qkvStem)).map Param.data =
            qkv.weightLoader qkvParam.data ((zeros [6, 1]).add qkvDelta) ∧
          (result (weightName denseStem)).map Param.data =
            some (dense.localSlice ((zeros [1, 2]).add denseDelta))) ↔
        qkv.DeltaRowsAgree qkvDelta) := by
  obtain ⟨result, hload, -⟩ := loadWeights_ok
  refine ⟨result, _, _, hload, rfl, rfl, ?_⟩
  exact loadWeights_eq_mergedSlices_iff hload rfl (if_pos rfl) (by decide +kernel)
    (by decide +kernel) (qkvTarget rfl) (denseTarget rfl) (by decide)

end TwoRanks

end LladaHybrid.Loading
