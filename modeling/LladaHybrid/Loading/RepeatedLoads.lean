import LladaHybrid.Loading.LoraSharding

namespace LladaHybrid.Loading

open LladaHybrid.Library

/-! Weight updates: every call of `load_weights` overwrites the base weights it carries and
then adds the adapter to whatever the parameters hold. -/

variable {K : Type*}

/-! On a single rank a loader copies the weight. -/

inductive WeightLoader.SingleRank : WeightLoader → List Nat → Prop
  | qkv (layer : QKVParallelLinear) :
      layer.tpSize = 1 → SingleRank (.qkv layer) [layer.fusedRows, layer.hiddenSize]
  | row (layer : RowParallelLinear) :
      layer.tpSize = 1 → SingleRank (.row layer) [layer.outputSize, layer.inputSize]
  | default (shape : List Nat) : SingleRank .default shape

theorem eq_zeros_of_inShape {shape index : List Nat} (hprod : shape.prod = 1)
    (hin : inShape shape index = true) : index = shape.map (fun _ => 0) := by
  induction shape generalizing index with
  | nil =>
      cases index with
      | nil => rfl
      | cons i index => cases hin
  | cons n shape ih =>
      rw [List.prod_cons] at hprod
      have hfirst : n = 1 := Nat.eq_one_of_mul_eq_one_right hprod
      have hrest : shape.prod = 1 := Nat.eq_one_of_mul_eq_one_left hprod
      cases index with
      | nil => cases hin
      | cons i index =>
          simp only [inShape, Bool.and_eq_true, decide_eq_true_eq, hfirst, Nat.lt_one_iff] at hin
          rw [hin.1, ih hrest hin.2, List.map_cons]

theorem defaultWeightLoader_eq [Zero K] {data W : Tensor K} (hshape : data.shape = W.shape) :
    defaultWeightLoader data W = some W := by
  unfold defaultWeightLoader
  split_ifs with hone
  · congr 1
    refine Tensor.ext_of_entries hshape ?_
    intro index (hin : inShape data.shape index = true)
    rw [Tensor.entry_ofFn _ hin, eq_zeros_of_inShape hone.1 hin, hshape]
  · rfl

theorem QKVParallelLinear.localRows_of_single {layer : QKVParallelLinear}
    (hsingle : layer.tpSize = 1) : layer.localRows = layer.fusedRows := by
  have hrows := layer.localRows_mul (hsingle ▸ layer.kvHeads_pos)
  rwa [hsingle, Nat.one_mul] at hrows

section Copies

variable [Field K] {data W : Tensor K}

theorem QKVParallelLinear.localSlice_of_single {layer : QKVParallelLinear}
    (hsingle : layer.tpSize = 1) (hW : W.shape = [layer.fusedRows, layer.hiddenSize]) :
    layer.localSlice W = W := by
  have hrows := localRows_of_single hsingle
  rw [← hrows] at hW
  refine Tensor.ext_matrix rfl hW ?_
  intro i hi j hj
  rw [localSlice, Tensor.entry_ofFn_matrix _ hi hj]
  exact congrArg (fun row => W.entry [row, j]) (layer.sourceRow_of_single hsingle i)

theorem RowParallelLinear.localSlice_of_single {layer : RowParallelLinear}
    (hsingle : layer.tpSize = 1) (hW : W.shape = [layer.outputSize, layer.inputSize]) :
    layer.localSlice W = W := by
  have hrank : layer.tpRank = 0 := by
    have hlt := layer.rank_lt
    omega
  have hcols : layer.inputSize / layer.tpSize = layer.inputSize := by
    rw [hsingle, Nat.div_one]
  have hshape := shape_localSlice hW
  rw [hcols] at hshape
  refine Tensor.ext_matrix hshape hW ?_
  intro i hi j hj
  rw [entry_localSlice hW hi (hcols.symm ▸ hj), hrank, Nat.zero_mul, Nat.zero_add]

theorem WeightLoader.SingleRank.load_eq {loader : WeightLoader} {shape : List Nat}
    (single : loader.SingleRank shape) (hdata : data.shape = shape) (hW : W.shape = shape) :
    loader.load data W = some W := by
  cases single with
  | qkv layer hsingle =>
      rw [← QKVParallelLinear.localRows_of_single hsingle] at hdata
      rw [load, QKVParallelLinear.weightLoader_eq hW hdata,
        QKVParallelLinear.localSlice_of_single hsingle hW]
  | row layer hsingle =>
      have hlocal : data.shape = [layer.outputSize, layer.inputSize / layer.tpSize] := by
        rw [hsingle, Nat.div_one, hdata]
      rw [load, RowParallelLinear.weightLoader_eq hlocal hW,
        RowParallelLinear.localSlice_of_single hsingle hW]
  | default => exact defaultWeightLoader_eq (hdata.trans hW.symm)

theorem mergedData_of_single {config : LoadConfig} {name : Name} {delta : Tensor K}
    (hsingle : config.tpSize = 1) (hshape : delta.shape = data.shape) :
    mergedData config name data delta = data.add delta := by
  have hwhole : shardDelta config name data.shape delta = delta :=
    if_neg (fun hcut => absurd hcut.2 (hsingle ▸ Nat.lt_irrefl 1))
  rw [mergedData, hwhole, if_pos hshape]

end Copies

/-! A sequence of calls. -/

section Calls

variable [Field K]

def loadCalls (config : LoadConfig) (files : Name → Option (List (Name × Tensor K)))
    (params : Params K) (calls : List (List (Name × Tensor K))) :
    Except LoadError (Params K) :=
  calls.foldlM (loadWeights config files) params

def lastSupplied (name : Name) (calls : List (List (Name × Tensor K))) : Option (Tensor K) :=
  calls.foldl (fun last call => (call.lookup name).or last) none

/-- A parameter with LoRA factors in the adapter, on a single rank. -/
structure MergeTarget (config : LoadConfig) (params : Params K)
    (adapter : List (Name × Tensor K)) (stem : Name) (param : Param K) (A B delta : Tensor K) :
    Prop where
  registered : params (weightName stem) = some param
  plain : notPlain config (weightName stem) = false
  factorA : ("lora.".toList ++ LoraFactor.A.key stem, A) ∈ adapter
  factorB : ("lora.".toList ++ LoraFactor.B.key stem, B) ∈ adapter
  notHedgehog : "hedgehog.".toList ++ weightName stem ∉ adapter.map Prod.fst
  tpSize : config.tpSize = 1
  loader : param.loader.SingleRank param.data.shape
  shape : delta.shape = param.data.shape
  delta : loraDelta config A B = some delta

/-- The names of a call are distinct, and its value for the parameter has the parameter's
shape. -/
structure Fits (name : Name) (shape : List Nat) (call : List (Name × Tensor K)) : Prop where
  nodup : (call.map Prod.fst).Nodup
  shape : ∀ W, (name, W) ∈ call → W.shape = shape

variable {config : LoadConfig} {files : Name → Option (List (Name × Tensor K))}
  {params result : Params K} {adapter call : List (Name × Tensor K)} {path stem : Name}
  {param : Param K} {A B delta : Tensor K}

theorem MergeTarget.congr {data : Tensor K}
    (target : MergeTarget config params adapter stem param A B delta)
    (hparam : result (weightName stem) = some { param with data })
    (hshape : data.shape = param.data.shape) :
    MergeTarget config result adapter stem { param with data } A B delta :=
  { target with
    registered := hparam
    loader := hshape ▸ target.loader
    shape := target.shape.trans hshape.symm }

theorem Fits.shape_getD {name : Name} {shape : List Nat} (fits : Fits name shape call)
    {data : Tensor K} (hdata : data.shape = shape) :
    ((call.lookup name).getD data).shape = shape := by
  cases hlookup : call.lookup name with
  | none => exact hdata
  | some W =>
      obtain ⟨before, after, rfl, -⟩ := List.lookup_eq_some_iff.mp hlookup
      exact fits.shape W (List.mem_append_right before List.mem_cons_self)

theorem MergeTarget.loadBaseWeights
    (target : MergeTarget config params adapter stem param A B delta)
    (fits : Fits (weightName stem) param.data.shape call)
    (hok : loadBaseWeights config params call = .ok result) :
    result (weightName stem) = some { param with
      data := (call.lookup (weightName stem)).getD param.data } := by
  by_cases hname : weightName stem ∈ call.map Prod.fst
  · obtain ⟨⟨_, W⟩, hmem, rfl⟩ := List.mem_map.mp hname
    obtain ⟨data, hdata, hresult⟩ := loadBaseWeights_param hok fits.nodup hmem target.plain
      target.registered
    cases (target.loader.load_eq rfl (fits.shape W hmem)).symm.trans hdata
    rw [hresult, lookup_eq_some_of_mem fits.nodup hmem]
    rfl
  · rw [loadBaseWeights_of_notMem hok hname, lookup_eq_none_of_notMem hname]
    exact target.registered

/-- A call replaces the value of a parameter it carries, and adds the delta in any case. -/
theorem MergeTarget.loadWeights (target : MergeTarget config params adapter stem param A B delta)
    (hpath : config.adapterPath = some path) (hfile : files path = some adapter)
    (hadapter : (adapter.map Prod.fst).Nodup)
    (fits : Fits (weightName stem) param.data.shape call)
    (hok : loadWeights config files params call = .ok result) :
    result (weightName stem) = some { param with
      data := ((call.lookup (weightName stem)).getD param.data).add delta } := by
  obtain ⟨base, hbase, hload⟩ := loadWeights_cases hpath hfile hok
  have hparam := target.loadBaseWeights fits hbase
  obtain ⟨product, hproduct, hmerged⟩ := loadAdapter_param hload hadapter target.factorA
    target.factorB target.notHedgehog hparam
  have hdelta : delta = product.scale (loraScaling config) := by
    have hsame := target.delta
    rw [loraDelta, hproduct] at hsame
    exact (Option.some.inj hsame).symm
  rw [hmerged, ← hdelta, mergedData_of_single target.tpSize
    (target.shape.trans (fits.shape_getD rfl).symm)]

def dataAfter (name : Name) (delta : Tensor K) (data : Tensor K)
    (calls : List (List (Name × Tensor K))) : Tensor K :=
  calls.foldl (fun current call => ((call.lookup name).getD current).add delta) data

theorem MergeTarget.loadCalls {calls : List (List (Name × Tensor K))}
    (target : MergeTarget config params adapter stem param A B delta)
    (hpath : config.adapterPath = some path) (hfile : files path = some adapter)
    (hadapter : (adapter.map Prod.fst).Nodup)
    (fits : ∀ call ∈ calls, Fits (weightName stem) param.data.shape call)
    (hok : loadCalls config files params calls = .ok result) :
    result (weightName stem) = some { param with
      data := dataAfter (weightName stem) delta param.data calls } := by
  induction calls generalizing params param with
  | nil =>
      cases hok
      exact target.registered
  | cons call calls ih =>
      obtain ⟨next, hfirst, hrest⟩ := bind_eq_ok hok
      have hcall := fits call List.mem_cons_self
      have hshape : (((call.lookup (weightName stem)).getD param.data).add delta).shape =
          param.data.shape := hcall.shape_getD rfl
      have hnext := target.loadWeights hpath hfile hadapter hcall hfirst
      refine ih (target.congr hnext hshape) ?_ hrest
      intro later hlater
      rw [hshape]
      exact fits later (List.mem_cons_of_mem call hlater)

/-- After every call the parameter holds the value most recently supplied for it with its
delta added once. -/
def MergedOnce (config : LoadConfig) (files : Name → Option (List (Name × Tensor K)))
    (params : Params K) (calls : List (List (Name × Tensor K))) (name : Name)
    (delta : Tensor K) : Prop :=
  ∀ done mid, done <+: calls → done ≠ [] → loadCalls config files params done = .ok mid →
    ∃ W, lastSupplied name done = some W ∧ (mid name).map Param.data = some (W.add delta)

section Once

variable {name : Name} {data : Tensor K} {shape : List Nat}
  {first : List (Name × Tensor K)} {calls rest : List (List (Name × Tensor K))}

theorem dataAfter_concat : dataAfter name delta data (calls ++ [call]) =
    ((call.lookup name).getD (dataAfter name delta data calls)).add delta :=
  List.foldl_concat ..

theorem lastSupplied_concat :
    lastSupplied name (calls ++ [call]) = (call.lookup name).or (lastSupplied name calls) :=
  List.foldl_concat ..

theorem shape_lastSupplied (fits : ∀ call ∈ calls, Fits name shape call) {W : Tensor K}
    (hlast : lastSupplied name calls = some W) : W.shape = shape := by
  induction calls using List.reverseRecOn with
  | nil => cases hlast
  | append_singleton calls call ih =>
      rw [lastSupplied_concat] at hlast
      cases hlookup : call.lookup name with
      | none =>
          rw [hlookup] at hlast
          exact ih (fun call hcall => fits call (List.mem_append_left _ hcall)) hlast
      | some U =>
          rw [hlookup] at hlast
          cases hlast
          obtain ⟨before, after, rfl, -⟩ := List.lookup_eq_some_iff.mp hlookup
          exact (fits _ (List.mem_append_right calls List.mem_cons_self)).shape W
            (List.mem_append_right before List.mem_cons_self)

theorem add_add_eq_iff {W : Tensor K} (hshape : W.shape = delta.shape) :
    (W.add delta).add delta = W.add delta ↔ ∀ index, delta.entry index = 0 := by
  have htwice : ∀ index, ((W.add delta).add delta).entry index =
      (W.add delta).entry index + delta.entry index := Tensor.entry_add hshape
  constructor
  · intro hsame index
    have hentry := htwice index
    rw [hsame] at hentry
    exact left_eq_add.mp hentry
  · intro hzero
    refine Tensor.ext rfl (funext ?_)
    intro index
    rw [htwice, hzero, add_zero]

theorem dataAfter_eq_last_add (hfirst : name ∈ first.map Prod.fst)
    (hdelta : delta.shape = shape) (fits : ∀ call ∈ first :: rest, Fits name shape call)
    (hrest : ∀ call ∈ rest, name ∈ call.map Prod.fst ∨ ∀ index, delta.entry index = 0) :
    ∃ W, lastSupplied name (first :: rest) = some W ∧
      dataAfter name delta data (first :: rest) = W.add delta := by
  induction rest using List.reverseRecOn with
  | nil =>
      obtain ⟨⟨_, W⟩, hmem, rfl⟩ := List.mem_map.mp hfirst
      have hlookup := lookup_eq_some_of_mem (fits first List.mem_cons_self).nodup hmem
      refine ⟨W, ?_, ?_⟩
      · simp only [lastSupplied, List.foldl_cons, List.foldl_nil, hlookup, Option.some_or]
      · simp only [dataAfter, List.foldl_cons, List.foldl_nil, hlookup, Option.getD_some]
  | append_singleton rest call ih =>
      have hearlier : ∀ earlier ∈ first :: rest, Fits name shape earlier :=
        fun earlier hmem => fits earlier (List.mem_append_left [call] hmem)
      obtain ⟨W, hlast, hdata⟩ := ih hearlier
        (fun earlier hmem => hrest earlier (List.mem_append_left [call] hmem))
      rw [← List.cons_append, lastSupplied_concat, dataAfter_concat, hlast, hdata]
      rcases hrest call (List.mem_append_right rest List.mem_cons_self) with hname | hzero
      · obtain ⟨⟨_, U⟩, hmem, rfl⟩ := List.mem_map.mp hname
        have hcall := fits call (List.mem_append_right (first :: rest) List.mem_cons_self)
        rw [lookup_eq_some_of_mem hcall.nodup hmem]
        exact ⟨U, rfl, rfl⟩
      · cases call.lookup name with
        | none =>
            refine ⟨W, rfl, (add_add_eq_iff ?_).mpr hzero⟩
            exact (shape_lastSupplied hearlier hlast).trans hdelta.symm
        | some U => exact ⟨U, rfl, rfl⟩

theorem dataAfter_eq_last_add_iff (hfirst : name ∈ first.map Prod.fst)
    (hdelta : delta.shape = shape) (fits : ∀ call ∈ first :: rest, Fits name shape call) :
    (∀ done, done <+: first :: rest → done ≠ [] →
      ∃ W, lastSupplied name done = some W ∧ dataAfter name delta data done = W.add delta) ↔
      ∀ call ∈ rest, name ∈ call.map Prod.fst ∨ ∀ index, delta.entry index = 0 := by
  constructor
  · intro honce call hcall
    by_cases hname : name ∈ call.map Prod.fst
    · exact Or.inl hname
    · obtain ⟨before, after, rfl⟩ := List.append_of_mem hcall
      have hnone := lookup_eq_none_of_notMem hname
      obtain ⟨W, hlast, hdata⟩ := honce (first :: before)
        ⟨call :: after, rfl⟩ (List.cons_ne_nil _ _)
      obtain ⟨W', hlast', hdata'⟩ := honce (first :: before ++ [call])
        ⟨after, by simp⟩ (List.cons_ne_nil _ _)
      rw [lastSupplied_concat, hnone, Option.none_or, hlast] at hlast'
      rw [dataAfter_concat, hnone, Option.getD_none, hdata] at hdata'
      cases hlast'
      have hshape : W.shape = shape := by
        refine shape_lastSupplied (fun earlier hearlier => fits earlier ?_) hlast
        exact List.mem_append_left (call :: after) hearlier
      exact Or.inr ((add_add_eq_iff (hshape.trans hdelta.symm)).mp hdata')
  · intro hrest done hinitial hdone
    obtain ⟨call, before, rfl⟩ := List.exists_cons_of_ne_nil hdone
    obtain ⟨rfl, hbefore⟩ := List.cons_prefix_cons.mp hinitial
    exact dataAfter_eq_last_add hfirst hdelta
      (fun earlier hmem => fits earlier (hinitial.subset hmem))
      (fun earlier hmem => hrest earlier (hbefore.subset hmem))

end Once

theorem loadCalls_of_isPrefix {calls done : List (List (Name × Tensor K))}
    (hok : loadCalls config files params calls = .ok result) (hinitial : done <+: calls) :
    ∃ mid, loadCalls config files params done = .ok mid := by
  obtain ⟨later, rfl⟩ := hinitial
  rw [loadCalls, List.foldlM_append] at hok
  obtain ⟨mid, hdone, -⟩ := bind_eq_ok hok
  exact ⟨mid, hdone⟩

/-- The adapter is in a parameter once after every call exactly if every later call carries
the parameter, or the delta is zero. -/
theorem mergedOnce_iff {first : List (Name × Tensor K)} {rest : List (List (Name × Tensor K))}
    (target : MergeTarget config params adapter stem param A B delta)
    (hpath : config.adapterPath = some path) (hfile : files path = some adapter)
    (hadapter : (adapter.map Prod.fst).Nodup)
    (hfirst : weightName stem ∈ first.map Prod.fst)
    (fits : ∀ call ∈ first :: rest, Fits (weightName stem) param.data.shape call)
    (hok : loadCalls config files params (first :: rest) = .ok result) :
    MergedOnce config files params (first :: rest) (weightName stem) delta ↔
      ∀ call ∈ rest, weightName stem ∈ call.map Prod.fst ∨ ∀ index, delta.entry index = 0 := by
  have hdata : ∀ {done mid}, done <+: first :: rest →
      loadCalls config files params done = .ok mid →
      (mid (weightName stem)).map Param.data =
        some (dataAfter (weightName stem) delta param.data done) := by
    intro done mid hinitial hmid
    rw [target.loadCalls hpath hfile hadapter (fun call hcall => fits call
      (hinitial.subset hcall)) hmid]
    rfl
  rw [← dataAfter_eq_last_add_iff hfirst target.shape fits]
  constructor
  · intro honce done hinitial hdone
    obtain ⟨mid, hmid⟩ := loadCalls_of_isPrefix hok hinitial
    obtain ⟨W, hlast, hvalue⟩ := honce done mid hinitial hdone hmid
    rw [hdata hinitial hmid] at hvalue
    exact ⟨W, hlast, Option.some.inj hvalue⟩
  · intro honce done mid hinitial hdone hmid
    obtain ⟨W, hlast, hvalue⟩ := honce done hinitial hdone
    exact ⟨W, hlast, by rw [hdata hinitial hmid, hvalue]⟩

end Calls

/-! A dense layer with one weight; the second call carries the weight again, or nothing. -/

namespace OneWeight

def dense : RowParallelLinear where
  inputSize := 1
  outputSize := 1
  tpRank := 0
  tpSize := 1
  rank_lt := by decide
  divide_input := by decide

def config : LoadConfig where
  loraRank := 1
  loraAlpha := 1
  adapterPath := some "adapter.safetensors".toList
  tieWordEmbeddings := false
  tpRank := 0
  tpSize := 1

def stem : Name := "model.layers.0.attention.dense".toList

def scalar (value : ℚ) : Tensor ℚ := .ofFn [1, 1] (fun _ => value)

def alphaName : Name := "model.layers.0.attention.hybrid_core.alpha".toList

def alpha : Tensor ℚ := .ofFn [1] (fun _ => 0)

def param : Param ℚ := ⟨.row dense, scalar 0⟩

def params : Params ℚ := fun name =>
  if name = weightName stem then some param
  else if name = alphaName then some ⟨.default, alpha⟩
  else none

def weights : List (Name × Tensor ℚ) := [(weightName stem, scalar 5)]

def adapter : List (Name × Tensor ℚ) :=
  [("hedgehog.".toList ++ alphaName, alpha),
    ("lora.".toList ++ LoraFactor.A.key stem, scalar 1),
    ("lora.".toList ++ LoraFactor.B.key stem, scalar 1)]

def files : Name → Option (List (Name × Tensor ℚ)) := fun path =>
  if path = "adapter.safetensors".toList then some adapter else none

theorem loraDelta_entry :
    (loraDelta config (scalar 1) (scalar 1)).map (fun delta => delta.entry [0, 0]) = some 1 := by
  decide +kernel

theorem mergeTarget {delta : Tensor ℚ}
    (hdelta : loraDelta config (scalar 1) (scalar 1) = some delta)
    (hshape : delta.shape = [1, 1]) :
    MergeTarget config params adapter stem param (scalar 1) (scalar 1) delta where
  registered := if_pos rfl
  plain := by decide +kernel
  factorA := by simp [adapter]
  factorB := by simp [adapter]
  notHedgehog := by decide +kernel
  tpSize := rfl
  loader := .row dense rfl
  shape := hshape
  delta := hdelta

theorem fits_weights : Fits (weightName stem) param.data.shape weights where
  nodup := by decide +kernel
  shape W hmem := by
    cases List.mem_singleton.mp hmem
    rfl

theorem loadCalls_twice :
    (loadCalls config files params [weights, weights]).toOption.isSome = true := by
  decide +kernel

theorem loadCalls_entry :
    (loadCalls config files params [weights, []]).toOption.bind (fun result =>
      (result (weightName stem)).map (fun param => param.data.entry [0, 0])) = some 7 := by
  decide +kernel

theorem mergedOnce_iff_twice : ∃ delta,
    loraDelta config (scalar 1) (scalar 1) = some delta ∧
      (MergedOnce config files params [weights, weights] (weightName stem) delta ↔
        ∀ call ∈ [weights], weightName stem ∈ call.map Prod.fst ∨
          ∀ index, delta.entry index = 0) := by
  obtain ⟨result, hresult⟩ := Option.isSome_iff_exists.mp loadCalls_twice
  refine ⟨_, rfl, ?_⟩
  refine mergedOnce_iff (mergeTarget rfl rfl) rfl (if_pos rfl) (by decide +kernel)
    (by decide +kernel) ?_ (eq_ok_of_toOption hresult)
  intro call hcall
  simp only [List.mem_cons, List.not_mem_nil, or_false, or_self] at hcall
  exact hcall ▸ fits_weights

/-- After an update that carries no weight the parameter holds `5 + 2 * 1`. -/
theorem not_mergedOnce_empty : ∃ delta,
    loraDelta config (scalar 1) (scalar 1) = some delta ∧
      ¬ MergedOnce config files params [weights, []] (weightName stem) delta := by
  obtain ⟨delta, hdelta, hone⟩ := Option.map_eq_some_iff.mp loraDelta_entry
  refine ⟨delta, hdelta, ?_⟩
  intro honce
  obtain ⟨result, hresult, hentry⟩ := Option.bind_eq_some_iff.mp loadCalls_entry
  obtain ⟨W, hlast, hvalue⟩ := honce [weights, []] result (List.prefix_refl _)
    (List.cons_ne_nil _ _) (eq_ok_of_toOption hresult)
  have hfive : lastSupplied (weightName stem) [weights, []] = some (scalar 5) := by
    simp [lastSupplied, weights]
  cases hfive.symm.trans hlast
  have hsum : ((result (weightName stem)).map Param.data).map
      (fun data => data.entry [0, 0]) = some 6 := by
    rw [hvalue, Option.map_some, Tensor.entry_add_matrix rfl Nat.one_pos Nat.one_pos, hone]
    decide +kernel
  rw [Option.map_map] at hsum
  exact absurd (hentry.symm.trans hsum) (by decide)

end OneWeight

end LladaHybrid.Loading
