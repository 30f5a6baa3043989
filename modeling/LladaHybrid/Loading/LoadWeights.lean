import LladaHybrid.Loading.ParallelLinear
import Mathlib.Algebra.Field.Defs
import Mathlib.Data.List.Infix

namespace LladaHybrid.Loading

open LladaHybrid.Library

/-! `LLaDAFastForCausalLM.load_weights`: the base weights, then the feature maps and the
LoRA factors of the adapter. Names are the characters of the source's strings. -/

abbrev Name := List Char

inductive LoadError
  | weightLoader (name : Name)
  | adapterNotSet
  | adapterNotFound (path : Name)
  | unknownRole (count : Nat) (keys : List Name)
  | shardDimension (name : Name)
  | hedgehogShapeMismatch (name : Name) (adapter param : List Nat)
  | noHedgehogLoaded (keys : List Name)
  | zeroRank
  | unexpectedLoraKey (key : Name)
  | matmulShape (name : Name)
  | noneMerged (pairs : Nat) (names : List Name)

inductive WeightLoader
  | qkv (layer : QKVParallelLinear)
  | row (layer : RowParallelLinear)
  | default

variable {K : Type*}

def defaultWeightLoader [Zero K] (param loadedWeight : Tensor K) : Option (Tensor K) :=
  if param.shape.prod = 1 ∧ loadedWeight.shape.prod = 1 then
    some (.ofFn param.shape (fun _ => loadedWeight.entry (loadedWeight.shape.map (fun _ => 0))))
  else if param.shape = loadedWeight.shape then
    some loadedWeight
  else
    none

def WeightLoader.load [Zero K] : WeightLoader → Tensor K → Tensor K → Option (Tensor K)
  | .qkv layer => layer.weightLoader
  | .row layer => layer.weightLoader
  | .default => defaultWeightLoader

structure Param (K : Type*) [Zero K] where
  loader : WeightLoader
  data : Tensor K

/-- `dict(self.named_parameters())`. -/
abbrev Params (K : Type*) [Zero K] := Name → Option (Param K)

def Params.setData [Zero K] (params : Params K) (name : Name) (data : Tensor K) : Params K :=
  Function.update params name ((params name).map (fun param => { param with data }))

structure LoadConfig where
  loraRank : Int := 16
  loraAlpha : Int := 8
  adapterPath : Option Name := none
  tieWordEmbeddings : Bool
  tpRank : Nat
  tpSize : Nat

/-- Names that the base loader skips, or routes into the stacked projections and the
experts. -/
def notPlain (config : LoadConfig) (name : Name) : Bool :=
  decide ("v_head".toList <:+: name) || decide ("inv_freq".toList <:+: name) ||
    (config.tieWordEmbeddings && decide ("lm_head".toList <:+: name)) ||
    decide ("gate_proj".toList <:+: name) || decide ("up_proj".toList <:+: name) ||
    decide ("down_proj".toList <:+: name)

/-- The body of the loop of `LLaDA2MoeModelLM.load_weights`, on plain names. -/
def loadBaseWeight [Zero K] (config : LoadConfig) (params : Params K)
    (weight : Name × Tensor K) : Except LoadError (Params K) :=
  if notPlain config weight.1 then
    .ok params
  else
    match params weight.1 with
    | none => .ok params
    | some param =>
        match param.loader.load param.data weight.2 with
        | none => .error (.weightLoader weight.1)
        | some data => .ok (params.setData weight.1 data)

def loadBaseWeights [Zero K] (config : LoadConfig) (params : Params K)
    (weights : List (Name × Tensor K)) : Except LoadError (Params K) :=
  weights.foldlM (loadBaseWeight config) params

/-- `_tp_shard_delta`; `none` where a dimension it asks for does not exist. -/
def tpShardDelta [Zero K] (config : LoadConfig) (name : Name) (tensor : Tensor K) :
    Option (Tensor K) :=
  if "hedgehog_weights".toList <:+: name then
    shard 0
  else if "alpha".toList <:+: name then
    if tensor.shape.length = 1 then shard 0 else shard 1
  else
    some tensor
where
  shard (dim : Nat) : Option (Tensor K) :=
    if dim < tensor.shape.length then
      let hLocal := tensor.shape.getD dim 0 / config.tpSize
      some (tensor.slice dim (config.tpRank * hLocal) ((config.tpRank + 1) * hLocal))
    else
      none

structure HedgehogState (K : Type*) [Zero K] where
  params : Params K
  loaded : Nat

/-- The tensor copied into a parameter of the given shape. -/
def hedgehogData [Zero K] (config : LoadConfig) (name : Name) (paramShape : List Nat)
    (tensor : Tensor K) : Except LoadError (Tensor K) :=
  let sharded :=
    if tensor.shape ≠ paramShape ∧ 1 < config.tpSize then tpShardDelta config name tensor
    else some tensor
  match sharded with
  | none => .error (.shardDimension name)
  | some tensor =>
      if tensor.shape = paramShape then
        .ok tensor
      else
        match tensor.reshape paramShape with
        | none => .error (.hedgehogShapeMismatch name tensor.shape paramShape)
        | some tensor => .ok tensor

/-- The body of the loop of `_load_hedgehog`. -/
def loadHedgehogEntry [Zero K] (config : LoadConfig) (s : HedgehogState K)
    (entry : Name × Tensor K) : Except LoadError (HedgehogState K) :=
  match s.params entry.1 with
  | none => .ok s
  | some param => do
      let data ← hedgehogData config entry.1 param.data.shape entry.2
      .ok ⟨s.params.setData entry.1 data, s.loaded + 1⟩

def loadHedgehog [Zero K] (config : LoadConfig) (params : Params K)
    (hedgehog : List (Name × Tensor K)) : Except LoadError (Params K) := do
  let s ← hedgehog.foldlM (loadHedgehogEntry config) ⟨params, 0⟩
  if s.loaded = 0 then
    .error (.noHedgehogLoaded ((hedgehog.map Prod.fst).take 5))
  else
    .ok s.params

structure LoraPair (K : Type*) [Zero K] where
  A : Option (Tensor K)
  B : Option (Tensor K)

/-- `pairs.setdefault(name, {})` followed by an assignment in that entry. -/
def upsertPair [Zero K] (name : Name) (assign : LoraPair K → LoraPair K) :
    List (Name × LoraPair K) → List (Name × LoraPair K)
  | [] => [(name, assign ⟨none, none⟩)]
  | pair :: pairs =>
      if pair.1 = name then (name, assign pair.2) :: pairs
      else pair :: upsertPair name assign pairs

def weightName (stem : Name) : Name := stem ++ ".weight".toList

/-- The body of the loop of `_merge_lora` that groups the factors by weight. -/
def groupEntry [Zero K] (pairs : List (Name × LoraPair K)) (entry : Name × Tensor K) :
    Except LoadError (List (Name × LoraPair K)) :=
  let name := weightName (entry.1.take (entry.1.length - ".lora_A".toList.length))
  if ".lora_A".toList <:+ entry.1 then
    .ok (upsertPair name (fun pair => { pair with A := some entry.2 }) pairs)
  else if ".lora_B".toList <:+ entry.1 then
    .ok (upsertPair name (fun pair => { pair with B := some entry.2 }) pairs)
  else
    .error (.unexpectedLoraKey entry.1)

def groupPairs [Zero K] (lora : List (Name × Tensor K)) :
    Except LoadError (List (Name × LoraPair K)) :=
  lora.foldlM groupEntry []

section Merge

variable [Field K]

def shardDelta (config : LoadConfig) (name : Name) (paramShape : List Nat)
    (delta : Tensor K) : Tensor K :=
  if delta.shape ≠ paramShape ∧ 1 < config.tpSize then
    if "query_key_value".toList <:+: name then
      shard 0
    else if "dense".toList <:+: name then
      shard 1
    else
      delta
  else
    delta
where
  shard (dim : Nat) : Tensor K :=
    let chunk := delta.shape.getD dim 0 / config.tpSize
    delta.slice dim (config.tpRank * chunk) ((config.tpRank + 1) * chunk)

structure MergeState (K : Type*) [Zero K] where
  params : Params K
  merged : Nat
  missed : List Name

def loraScaling (config : LoadConfig) : K := config.loraAlpha / config.loraRank

/-- The body of the loop of `_merge_lora` over the pairs. -/
def mergePair (config : LoadConfig) (s : MergeState K) (pair : Name × LoraPair K) :
    Except LoadError (MergeState K) :=
  match pair.2.A, pair.2.B, s.params pair.1 with
  | some A, some B, some param =>
      match B.matmul A with
      | none => .error (.matmulShape pair.1)
      | some product =>
          let delta := shardDelta config pair.1 param.data.shape
            (product.scale (loraScaling config))
          if delta.shape ≠ param.data.shape then
            .ok { s with missed := s.missed ++ [pair.1] }
          else
            .ok { s with
              params := s.params.setData pair.1 (param.data.add delta)
              merged := s.merged + 1 }
  | _, _, _ => .ok { s with missed := s.missed ++ [pair.1] }

def mergeLora (config : LoadConfig) (params : Params K) (lora : List (Name × Tensor K)) :
    Except LoadError (Params K) :=
  if lora = [] then
    .ok params
  else if config.loraRank = 0 then
    .error .zeroRank
  else do
    let pairs ← groupPairs lora
    let s ← pairs.foldlM (mergePair config) ⟨params, 0, []⟩
    if s.merged = 0 then
      .error (.noneMerged pairs.length ((pairs.map Prod.fst).take 5))
    else
      .ok s.params

end Merge

/-- The adapter entries under a role, with the role cut off. -/
def withRole [Zero K] (role : Name) (adapter : List (Name × Tensor K)) :
    List (Name × Tensor K) :=
  (adapter.filter (fun entry => role <+: entry.1)).map
    (fun entry => (entry.1.drop role.length, entry.2))

def unknownKeys [Zero K] (adapter : List (Name × Tensor K)) : List Name :=
  (adapter.map Prod.fst).filter
    (fun key => ¬ "hedgehog.".toList <+: key ∧ ¬ "lora.".toList <+: key)

/-- The adapter part of `load_weights`. -/
def loadAdapter [Field K] (config : LoadConfig) (params : Params K)
    (adapter : List (Name × Tensor K)) : Except LoadError (Params K) :=
  if unknownKeys adapter ≠ [] then
    .error (.unknownRole (unknownKeys adapter).length ((unknownKeys adapter).take 5))
  else do
    let params ← loadHedgehog config params (withRole "hedgehog.".toList adapter)
    mergeLora config params (withRole "lora.".toList adapter)

/-- `load_weights` on one rank; `files` maps the paths that exist to their tensors. -/
def loadWeights [Field K] (config : LoadConfig) (files : Name → Option (List (Name × Tensor K)))
    (params : Params K) (weights : List (Name × Tensor K)) :
    Except LoadError (Params K) := do
  let params ← loadBaseWeights config params weights
  match config.adapterPath with
  | none => .error .adapterNotSet
  | some [] => .error .adapterNotSet
  | some path =>
      match files path with
      | none => .error (.adapterNotFound path)
      | some adapter => loadAdapter config params adapter

end LladaHybrid.Loading
