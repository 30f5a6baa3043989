import LladaHybrid.Loading.LoraMerge
import Mathlib.Algebra.Field.Rat

namespace LladaHybrid.Loading

open LladaHybrid.Library

/-! What a `load_weights` that returns has done with the adapter: it skips the names, the
halves and the shapes that do not fit, and raises only if nothing at all was loaded or
merged. -/

inductive HedgehogField
  | hedgehogWeights
  | alpha

def HedgehogField.name : HedgehogField → Name
  | .hedgehogWeights => "hedgehog_weights".toList
  | .alpha => "alpha".toList

theorem HedgehogField.name_ne_nil (field : HedgehogField) : field.name ≠ [] := by
  cases field <;> decide

/-- The name of a parameter of `model.layers[layer].attention.hybrid_core`. -/
def hybridCoreName (layer : Nat) (field : HedgehogField) : Name :=
  "model.layers.".toList ++ Nat.toDigits 10 layer ++ ".attention.hybrid_core.".toList ++
    field.name

theorem getLast?_hybridCoreName (layer : Nat) (field : HedgehogField) :
    (hybridCoreName layer field).getLast? = field.name.getLast? :=
  List.getLast?_append_of_ne_nil _ field.name_ne_nil

theorem getLast?_weightName (stem : Name) : (weightName stem).getLast? = some 't' := by
  simp [weightName]

theorem hybridCoreName_ne_weightName (layer : Nat) (field : HedgehogField) (stem : Name) :
    hybridCoreName layer field ≠ weightName stem := by
  intro hsame
  have hlast := congrArg List.getLast? hsame
  rw [getLast?_hybridCoreName, getLast?_weightName] at hlast
  clear hsame
  revert hlast
  cases field <;> decide

variable {K : Type*}

section Hedgehog

variable [Zero K] {config : LoadConfig} {name : Name} {params result : Params K}

theorem shape_reshape {T U : Tensor K} {shape : List Nat} (hreshape : T.reshape shape = some U) :
    U.shape = shape := by
  unfold Tensor.reshape at hreshape
  split_ifs at hreshape
  cases hreshape
  rfl

theorem shape_hedgehogData {shape : List Nat} {T data : Tensor K}
    (hok : hedgehogData config name shape T = .ok data) : data.shape = shape := by
  unfold hedgehogData at hok
  dsimp only at hok
  split at hok
  · cases hok
  · split_ifs at hok with hsame
    · cases hok
      exact hsame
    · split at hok
      · cases hok
      · cases hok
        exact shape_reshape ‹_›

/-- The local shape of a parameter, which no load changes. -/
def paramShape (params : Params K) (name : Name) : Option (List Nat) :=
  (params name).map (fun param => param.data.shape)

theorem loadHedgehogEntry_self {s after : HedgehogState K} {param : Param K} {T : Tensor K}
    (hparam : s.params name = some param)
    (hok : loadHedgehogEntry config s (name, T) = .ok after) :
    ∃ data, hedgehogData config name param.data.shape T = .ok data ∧
      after.params name = some { param with data } := by
  simp only [loadHedgehogEntry, hparam] at hok
  obtain ⟨data, hdata, hend⟩ := bind_eq_ok hok
  cases hend
  exact ⟨data, hdata, setData_self hparam data⟩

theorem paramShape_loadHedgehogEntry {s after : HedgehogState K} {entry : Name × Tensor K}
    (hok : loadHedgehogEntry config s entry = .ok after) (name : Name) :
    paramShape after.params name = paramShape s.params name := by
  by_cases hname : entry.1 = name
  · subst hname
    cases hparam : s.params entry.1 with
    | none =>
        simp only [loadHedgehogEntry, hparam] at hok
        cases hok
        rfl
    | some param =>
        obtain ⟨data, hdata, hafter⟩ := loadHedgehogEntry_self hparam hok
        simp [paramShape, hparam, hafter, shape_hedgehogData hdata]
  · exact congrArg _ (loadHedgehogEntry_of_ne hname hok)

theorem paramShape_loadHedgehog {hedgehog : List (Name × Tensor K)}
    (hok : loadHedgehog config params hedgehog = .ok result) (name : Name) :
    paramShape result name = paramShape params name := by
  obtain ⟨s, hrun, rfl⟩ := loadHedgehog_cases hok
  refine foldlM_invariant (fun s => paramShape s.params name = paramShape params name) ?_ hrun rfl
  intro before entry after _ hstep hbefore
  rw [← hbefore]
  exact paramShape_loadHedgehogEntry hstep name

theorem loadHedgehog_param {hedgehog : List (Name × Tensor K)} {param : Param K} {T : Tensor K}
    (hok : loadHedgehog config params hedgehog = .ok result)
    (hnodup : (hedgehog.map Prod.fst).Nodup) (hentry : (name, T) ∈ hedgehog)
    (hparam : params name = some param) :
    ∃ data, hedgehogData config name param.data.shape T = .ok data ∧
      result name = some { param with data } := by
  obtain ⟨s, hrun, rfl⟩ := loadHedgehog_cases hok
  obtain ⟨before, after, hbefore, hstep, hafter⟩ := foldlM_once
    (fun s : HedgehogState K => s.params name) Prod.fst hentry hnodup
    (fun _ _ _ hne => loadHedgehogEntry_of_ne hne) hrun
  obtain ⟨data, hdata, hown⟩ := loadHedgehogEntry_self (hbefore.trans hparam) hstep
  exact ⟨data, hdata, hafter.trans hown⟩

end Hedgehog

section Group

variable [Zero K]

theorem mem_groupPairs {lora : List (Name × Tensor K)} {pairs : List (Name × LoraPair K)}
    (hok : groupPairs lora = .ok pairs) :
    ∀ name ∈ pairs.map Prod.fst, ∃ stem, name = weightName stem := by
  refine foldlM_invariant
    (fun pairs => ∀ name ∈ pairs.map Prod.fst, ∃ stem, name = weightName stem) ?_ hok ?_
  · intro before entry after _ hstep hbefore name hname
    obtain ⟨factor, stem, -, rfl⟩ := groupEntry_cases hstep
    rw [upsertPair_eq_upsert, keys_upsert] at hname
    split_ifs at hname
    · exact hbefore name hname
    · rcases List.mem_append.mp hname with hold | hnew
      · exact hbefore name hold
      · exact ⟨stem, List.mem_singleton.mp hnew⟩
  · intro name hname
    cases hname

end Group

section Merge

variable [Field K] {config : LoadConfig} {params result : Params K}

theorem mergeLora_of_ne_weightName {lora : List (Name × Tensor K)} {name : Name}
    (hok : mergeLora config params lora = .ok result) (hname : ∀ stem, name ≠ weightName stem) :
    result name = params name := by
  rcases mergeLora_cases hok with ⟨-, rfl⟩ | ⟨pairs, s, hpairs, hrun, rfl⟩
  · rfl
  · refine foldlM_invariant (fun s => s.params name = params name) ?_ hrun rfl
    intro before pair after hpair hstep hbefore
    rw [← hbefore]
    apply mergePair_of_ne _ hstep
    rintro rfl
    obtain ⟨stem, hstem⟩ := mem_groupPairs hpairs pair.1 (List.mem_map_of_mem hpair)
    exact hname stem hstem

/-! An adapter that covers the model. -/

/-- The parameter holds what the adapter has under its name. -/
def Overwritten (config : LoadConfig) (adapter : List (Name × Tensor K))
    (before after : Params K) (name : Name) : Prop :=
  ∃ param T data, before name = some param ∧ ("hedgehog.".toList ++ name, T) ∈ adapter ∧
    hedgehogData config name param.data.shape T = .ok data ∧
    after name = some { param with data }

/-- The shard of the scaled product of two factors that the local weight takes. -/
def loraShard (config : LoadConfig) (stem : Name) (shape : List Nat) (product : Tensor K) :
    Tensor K :=
  shardDelta config (weightName stem) shape (product.scale (loraScaling config))

/-- Both factors are there, and the weight grew by their product once. -/
def AddedOnce (config : LoadConfig) (adapter : List (Name × Tensor K))
    (before after : Params K) (stem : Name) : Prop :=
  ∃ param A B product, before (weightName stem) = some param ∧
    ("lora.".toList ++ LoraFactor.A.key stem, A) ∈ adapter ∧
    ("lora.".toList ++ LoraFactor.B.key stem, B) ∈ adapter ∧
    B.matmul A = some product ∧
    (loraShard config stem param.data.shape product).shape = param.data.shape ∧
    after (weightName stem) = some { param with
      data := param.data.add (loraShard config stem param.data.shape product) }

structure NothingUntrained (config : LoadConfig) (hybridLayers : List Nat)
    (adapter : List (Name × Tensor K)) (base result : Params K) : Prop where
  layers : ∀ layer ∈ hybridLayers, ∀ field,
    Overwritten config adapter base result (hybridCoreName layer field)
  pairs : ∃ copied, loadHedgehog config base (withRole "hedgehog.".toList adapter) = .ok copied ∧
    ∀ key ∈ (withRole "lora.".toList adapter).map Prod.fst, ∃ (factor : LoraFactor) (stem : Name),
      key = factor.key stem ∧ AddedOnce config adapter copied result stem

/-- The adapter has both tensors of every hybrid layer, for parameters of the model, and
its LoRA keys come in pairs whose shard has the shape of a parameter of the model. -/
structure Covers (config : LoadConfig) (hybridLayers : List Nat)
    (adapter : List (Name × Tensor K)) (base : Params K) : Prop where
  layers : ∀ layer ∈ hybridLayers, ∀ field, base (hybridCoreName layer field) ≠ none ∧
    "hedgehog.".toList ++ hybridCoreName layer field ∈ adapter.map Prod.fst
  pairs : ∀ key ∈ (withRole "lora.".toList adapter).map Prod.fst,
    ∃ (factor : LoraFactor) (stem : Name) (A B product : Tensor K) (shape : List Nat),
      key = factor.key stem ∧
      ("lora.".toList ++ LoraFactor.A.key stem, A) ∈ adapter ∧
      ("lora.".toList ++ LoraFactor.B.key stem, B) ∈ adapter ∧
      B.matmul A = some product ∧ paramShape base (weightName stem) = some shape ∧
      (loraShard config stem shape product).shape = shape

section Covered

variable {base : Params K} {adapter : List (Name × Tensor K)}

theorem Covers.overwritten {hybridLayers : List Nat}
    (covers : Covers config hybridLayers adapter base)
    (hnodup : (adapter.map Prod.fst).Nodup)
    (hok : loadAdapter config base adapter = .ok result) {layer : Nat}
    (hlayer : layer ∈ hybridLayers) (field : HedgehogField) :
    Overwritten config adapter base result (hybridCoreName layer field) := by
  obtain ⟨copied, hcopied, hmerged⟩ := loadAdapter_cases hok
  obtain ⟨hparam, hkey⟩ := covers.layers layer hlayer field
  obtain ⟨param, hparam⟩ := Option.ne_none_iff_exists'.mp hparam
  obtain ⟨⟨key, T⟩, hentry, hname⟩ := List.mem_map.mp hkey
  cases hname
  obtain ⟨data, hdata, hcopy⟩ := loadHedgehog_param hcopied (nodup_withRole hnodup)
    (mem_withRole.mpr hentry) hparam
  refine ⟨param, T, data, hparam, hentry, hdata, ?_⟩
  rw [mergeLora_of_ne_weightName hmerged (hybridCoreName_ne_weightName layer field), hcopy]

theorem addedOnce_of_fits {copied : Params K} {stem : Name} {A B product : Tensor K}
    {shape : List Nat} (hnodup : (adapter.map Prod.fst).Nodup)
    (hmerged : mergeLora config copied (withRole "lora.".toList adapter) = .ok result)
    (hA : ("lora.".toList ++ LoraFactor.A.key stem, A) ∈ adapter)
    (hB : ("lora.".toList ++ LoraFactor.B.key stem, B) ∈ adapter)
    (hproduct : B.matmul A = some product)
    (hshape : paramShape copied (weightName stem) = some shape)
    (hfits : (loraShard config stem shape product).shape = shape) :
    AddedOnce config adapter copied result stem := by
  obtain ⟨param, hparam, rfl⟩ := Option.map_eq_some_iff.mp hshape
  obtain ⟨product', hproduct', hresult⟩ := mergeLora_param hmerged (nodup_withRole hnodup)
    (mem_withRole.mpr hA) (mem_withRole.mpr hB) hparam
  cases hproduct.symm.trans hproduct'
  refine ⟨param, A, B, product, hparam, hA, hB, hproduct, hfits, ?_⟩
  rw [hresult, mergedData]
  exact congrArg (fun data => some (Param.mk param.loader data)) (if_pos hfits)

end Covered

theorem nothingUntrained_iff {files : Name → Option (List (Name × Tensor K))} {path : Name}
    {params base result : Params K} {weights adapter : List (Name × Tensor K)}
    (hybridLayers : List Nat) (hpath : config.adapterPath = some path)
    (hfile : files path = some adapter) (hnodup : (adapter.map Prod.fst).Nodup)
    (hbase : loadBaseWeights config params weights = .ok base)
    (hok : loadWeights config files params weights = .ok result) :
    NothingUntrained config hybridLayers adapter base result ↔
      Covers config hybridLayers adapter base := by
  obtain ⟨base', hbase', hload⟩ := loadWeights_cases hpath hfile hok
  cases hbase.symm.trans hbase'
  obtain ⟨copied, hcopied, hmerged⟩ := loadAdapter_cases hload
  constructor
  · intro trained
    constructor
    · intro layer hlayer field
      obtain ⟨param, T, -, hparam, hentry, -, -⟩ := trained.layers layer hlayer field
      exact ⟨by simp [hparam], List.mem_map_of_mem hentry⟩
    · intro key hkey
      obtain ⟨copied', hcopied', hpairs⟩ := trained.pairs
      cases hcopied.symm.trans hcopied'
      obtain ⟨factor, stem, rfl, param, A, B, product, hparam, hA, hB, hproduct, hfits, -⟩ :=
        hpairs key hkey
      refine ⟨factor, stem, A, B, product, param.data.shape, rfl, hA, hB, hproduct, ?_, hfits⟩
      rw [← paramShape_loadHedgehog hcopied, paramShape, hparam, Option.map_some]
  · intro covers
    refine ⟨fun layer hlayer field => covers.overwritten hnodup hload hlayer field,
      copied, hcopied, ?_⟩
    intro key hkey
    obtain ⟨factor, stem, A, B, product, shape, rfl, hA, hB, hproduct, hshape, hfits⟩ :=
      covers.pairs key hkey
    rw [← paramShape_loadHedgehog hcopied] at hshape
    exact ⟨factor, stem, rfl, addedOnce_of_fits hnodup hmerged hA hB hproduct hshape hfits⟩

end Merge

/-! Two layers with one head; the adapter has the tensors of the first, and of the second
at most one LoRA factor. -/

namespace TwoLayers

def config : LoadConfig where
  loraRank := 1
  loraAlpha := 1
  adapterPath := some "adapter.safetensors".toList
  tieWordEmbeddings := false
  tpRank := 0
  tpSize := 1

def tensor (shape : List Nat) : Tensor ℚ := .ofFn shape (fun _ => 1)

def stem (layer : Nat) : Name :=
  "model.layers.".toList ++ Nat.toDigits 10 layer ++ ".attention.dense".toList

def params : Params ℚ := fun name =>
  ([0, 1].flatMap (fun layer =>
    [(hybridCoreName layer .hedgehogWeights, ⟨.default, tensor [1, 1, 1]⟩),
      (hybridCoreName layer .alpha, ⟨.default, tensor [1, 1, 1, 1]⟩),
      (weightName (stem layer), ⟨.default, tensor [1, 1]⟩)])).lookup name

def adapter : List (Name × Tensor ℚ) :=
  [("hedgehog.".toList ++ hybridCoreName 0 .hedgehogWeights, tensor [1, 1, 1]),
    ("hedgehog.".toList ++ hybridCoreName 0 .alpha, tensor [1]),
    ("lora.".toList ++ LoraFactor.A.key (stem 0), tensor [1, 1]),
    ("lora.".toList ++ LoraFactor.B.key (stem 0), tensor [1, 1])]

def halfAdapter : List (Name × Tensor ℚ) :=
  adapter ++ [("lora.".toList ++ LoraFactor.A.key (stem 1), tensor [1, 1])]

def files (adapter : List (Name × Tensor ℚ)) : Name → Option (List (Name × Tensor ℚ)) :=
  fun path => if path = "adapter.safetensors".toList then some adapter else none

theorem exists_loaded : (loadWeights config (files adapter) params []).toOption.isSome := by
  decide +kernel

theorem exists_loaded_half :
    (loadWeights config (files halfAdapter) params []).toOption.isSome := by
  decide +kernel

theorem key_of_mem : ∀ key ∈ (withRole "lora.".toList adapter).map Prod.fst,
    key = LoraFactor.A.key (stem 0) ∨ key = LoraFactor.B.key (stem 0) := by
  decide +kernel

theorem registered_first (field : HedgehogField) :
    (params (hybridCoreName 0 field)).isSome ∧
      "hedgehog.".toList ++ hybridCoreName 0 field ∈ adapter.map Prod.fst := by
  cases field <;> decide +kernel

theorem paramShape_stem : paramShape params (weightName (stem 0)) = some [1, 1] := by
  decide +kernel

theorem covers_first : Covers config [0] adapter params where
  layers layer hlayer field := by
    cases List.mem_singleton.mp hlayer
    obtain ⟨hparam, hkey⟩ := registered_first field
    exact ⟨Option.isSome_iff_ne_none.mp hparam, hkey⟩
  pairs key hkey := by
    have hfactor : ∃ factor, key = LoraFactor.key factor (stem 0) := by
      rcases key_of_mem key hkey with hA | hB
      · exact ⟨.A, hA⟩
      · exact ⟨.B, hB⟩
    obtain ⟨factor, hfactor⟩ := hfactor
    refine ⟨factor, stem 0, tensor [1, 1], tensor [1, 1], _, [1, 1], hfactor, ?_, ?_, rfl,
      paramShape_stem, rfl⟩ <;> simp [adapter]

theorem nothingUntrained_first : ∃ result,
    loadWeights config (files adapter) params [] = .ok result ∧
      NothingUntrained config [0] adapter params result := by
  obtain ⟨result, hresult⟩ := Option.isSome_iff_exists.mp exists_loaded
  have hok := eq_ok_of_toOption hresult
  refine ⟨result, hok, ?_⟩
  exact (nothingUntrained_iff [0] rfl (if_pos rfl) (by decide +kernel) rfl hok).mpr covers_first

theorem alpha_notMem :
    "hedgehog.".toList ++ hybridCoreName 1 .alpha ∉ halfAdapter.map Prod.fst := by
  decide +kernel

theorem factorB_notMem :
    "lora.".toList ++ LoraFactor.B.key (stem 1) ∉ halfAdapter.map Prod.fst := by
  decide +kernel

/-- The second layer keeps its identity feature map, and the lone factor is dropped. -/
theorem not_nothingUntrained_half : ∃ result,
    loadWeights config (files halfAdapter) params [] = .ok result ∧
      ¬ NothingUntrained config [0, 1] halfAdapter params result ∧
      ¬ NothingUntrained config [0] halfAdapter params result := by
  obtain ⟨result, hresult⟩ := Option.isSome_iff_exists.mp exists_loaded_half
  refine ⟨result, eq_ok_of_toOption hresult, ?_, ?_⟩
  · intro trained
    obtain ⟨param, T, data, -, hentry, -, -⟩ := trained.layers 1 (by decide) .alpha
    exact alpha_notMem (List.mem_map_of_mem hentry)
  · intro trained
    obtain ⟨copied, -, hpairs⟩ := trained.pairs
    obtain ⟨factor, other, hkey, param, A, B, product, -, -, hB, -, -, -⟩ :=
      hpairs (LoraFactor.A.key (stem 1)) (by decide +kernel)
    obtain ⟨-, rfl⟩ := LoraFactor.key_injective hkey
    exact factorB_notMem (List.mem_map_of_mem hB)

end TwoLayers

end LladaHybrid.Loading
