import LladaHybrid.Loading.AdapterCoverage
import LladaHybrid.Attention.KernelRefinement

namespace LladaHybrid.Loading

open LladaHybrid.Library LladaHybrid.Attention

/-! The gate of a served hybrid layer. `load_weights` copies `alpha` into the parameter in
place; `_run_kernels` takes its sigmoid on first use and keeps it. -/

variable {K : Type*} {D F S : Nat}

/-! A load that raises leaves the parameters it has written so far. -/

section InPlace

variable [Field K]

def loadHedgehogInPlace (config : LoadConfig) (params : Params K)
    (hedgehog : List (Name × Tensor K)) : Params K × Bool :=
  match foldUntil (loadHedgehogEntry config) ⟨params, 0⟩ hedgehog with
  | (s, some _) => (s.params, true)
  | (s, none) => (s.params, decide (s.loaded = 0))

def mergeLoraInPlace (config : LoadConfig) (params : Params K)
    (lora : List (Name × Tensor K)) : Params K :=
  if lora = [] ∨ config.loraRank = 0 then
    params
  else
    match groupPairs lora with
    | .error _ => params
    | .ok pairs => (foldUntil (mergePair config) ⟨params, 0, []⟩ pairs).1.params

def loadAdapterInPlace (config : LoadConfig) (params : Params K)
    (adapter : List (Name × Tensor K)) : Params K :=
  if unknownKeys adapter ≠ [] then
    params
  else
    match loadHedgehogInPlace config params (withRole "hedgehog.".toList adapter) with
    | (params, true) => params
    | (params, false) => mergeLoraInPlace config params (withRole "lora.".toList adapter)

/-- The parameters after a call of `load_weights`, whether it returns or raises. -/
def loadWeightsInPlace (config : LoadConfig) (files : Name → Option (List (Name × Tensor K)))
    (params : Params K) (weights : List (Name × Tensor K)) : Params K :=
  match foldUntil (loadBaseWeight config) params weights with
  | (params, some _) => params
  | (params, none) =>
      match config.adapterPath with
      | none => params
      | some [] => params
      | some path =>
          match files path with
          | none => params
          | some adapter => loadAdapterInPlace config params adapter

variable {config : LoadConfig} {params result : Params K}

theorem loadHedgehogInPlace_of_ok {hedgehog : List (Name × Tensor K)}
    (hok : loadHedgehog config params hedgehog = .ok result) :
    loadHedgehogInPlace config params hedgehog = (result, false) := by
  obtain ⟨s, hrun, hend⟩ := bind_eq_ok hok
  rw [loadHedgehogInPlace, foldUntil_of_ok hrun]
  split_ifs at hend with hnone
  cases hend
  simp [hnone]

theorem mergeLoraInPlace_of_ok {lora : List (Name × Tensor K)}
    (hok : mergeLora config params lora = .ok result) :
    mergeLoraInPlace config params lora = result := by
  unfold mergeLora at hok
  unfold mergeLoraInPlace
  split_ifs at hok with hempty hrank
  · cases hok
    rw [if_pos (.inl hempty)]
  · obtain ⟨pairs, hpairs, hrest⟩ := bind_eq_ok hok
    obtain ⟨s, hrun, hend⟩ := bind_eq_ok hrest
    split_ifs at hend
    cases hend
    rw [if_neg (not_or.mpr ⟨hempty, hrank⟩), hpairs]
    exact congrArg (fun run => run.1.params) (foldUntil_of_ok hrun)

theorem loadAdapterInPlace_of_ok {adapter : List (Name × Tensor K)}
    (hok : loadAdapter config params adapter = .ok result) :
    loadAdapterInPlace config params adapter = result := by
  unfold loadAdapter at hok
  split_ifs at hok with hunknown
  obtain ⟨copied, hcopied, hmerged⟩ := bind_eq_ok hok
  rw [loadAdapterInPlace, if_neg hunknown, loadHedgehogInPlace_of_ok hcopied]
  exact mergeLoraInPlace_of_ok hmerged

theorem loadWeightsInPlace_of_ok {files : Name → Option (List (Name × Tensor K))}
    {weights : List (Name × Tensor K)}
    (hok : loadWeights config files params weights = .ok result) :
    loadWeightsInPlace config files params weights = result := by
  obtain ⟨base, hbase, hrest⟩ := bind_eq_ok hok
  rw [loadWeightsInPlace, foldUntil_of_ok hbase]
  rcases hpath : config.adapterPath with _ | (_ | ⟨char, path⟩)
  · simp only [hpath, reduceCtorEq] at hrest
  · simp only [hpath, reduceCtorEq] at hrest
  · cases hfile : files (char :: path) with
    | none => simp only [hpath, hfile, reduceCtorEq] at hrest
    | some adapter =>
        simp only [hpath, hfile] at hrest
        simpa only [hfile] using loadAdapterInPlace_of_ok hrest

theorem loadWeights_single {files : Name → Option (List (Name × Tensor K))} {path name : Name}
    {param : Param K} {T : Tensor K} (hpath : config.adapterPath = some path)
    (hset : path ≠ []) (hfile : files path = some [("hedgehog.".toList ++ name, T)])
    (hparam : params name = some param) (hshape : T.shape = param.data.shape) :
    loadWeights config files params [] = .ok (params.setData name T) := by
  have hunknown : unknownKeys [("hedgehog.".toList ++ name, T)] = [] := by
    rw [unknownKeys, List.map_singleton, List.filter_singleton,
      decide_eq_false (fun hneither => hneither.1 (List.prefix_append _ _))]
    rfl
  have hhedgehog : withRole "hedgehog.".toList [("hedgehog.".toList ++ name, T)] =
      [(name, T)] := by
    rw [withRole, List.filter_singleton, decide_eq_true (List.prefix_append _ _)]
    exact congrArg (fun rest => [(rest, T)]) List.drop_left
  have hlora : withRole "lora.".toList [("hedgehog.".toList ++ name, T)] = [] := by
    rw [withRole, List.filter_singleton, decide_eq_false not_lora_isPrefix]
    rfl
  have hdata : hedgehogData config name param.data.shape T = .ok T := by
    simp [hedgehogData, hshape]
  have hload : loadAdapter config params [("hedgehog.".toList ++ name, T)] =
      .ok (params.setData name T) := by
    rw [loadAdapter, if_neg (not_not.mpr hunknown), hhedgehog, hlora]
    simp [loadHedgehog, loadHedgehogEntry, hparam, hdata, mergeLora, bind, Except.bind, pure,
      Except.pure]
  cases path with
  | nil => exact absurd rfl hset
  | cons head tail =>
      simpa [loadWeights, loadBaseWeights, hpath, hfile, bind, Except.bind, pure, Except.pure]
        using hload

end InPlace

/-! The layer between loads and forwards. -/

structure HybridLayer (K : Type*) where
  layerId : Nat
  numHeads : Nat
  numKvHeads : Nat
  shareKvGroups : Bool
  scaling : K

structure LayerState (K : Type*) [Zero K] where
  params : Params K
  alphaGateCache : Option (Nat → K)

inductive LayerEvent (D F : Nat) (K : Type*) [Zero K]
  | loadWeights (config : LoadConfig) (files : Name → Option (List (Name × Tensor K)))
      (weights : List (Name × Tensor K))
  | runKernels (schedule : Scheduler) (input : KernelInput D K) (readTensor writeTensor : Nat)
      (plan : RequestBlockPlan) (memory : DeviceMemory D F K)

def paramEntry [Zero K] (params : Params K) (name : Name) (index : List Nat) : K :=
  (params name).elim 0 (fun param => param.data.entry index)

namespace HybridLayer

/-- The module as the next `_run_kernels` finds it; `alpha` is `[1, H, 1, 1]`. -/
def served [Zero K] (core : HybridLayer K) (s : LayerState K) : ServedHybrid D F K where
  params :=
    { numHeads := core.numHeads
      numKvHeads := core.numKvHeads
      shareKvGroups := core.shareKvGroups
      scaling := core.scaling
      hedgehogWeights := fun h d f =>
        paramEntry s.params (hybridCoreName core.layerId .hedgehogWeights) [h, d, f]
      alpha := fun h => paramEntry s.params (hybridCoreName core.layerId .alpha) [0, h, 0, 0] }
  alphaGateCache := s.alphaGateCache

theorem served_alphaGateCache [Zero K] (core : HybridLayer K) (s : LayerState K) :
    (core.served s : ServedHybrid D F K).alphaGateCache = s.alphaGateCache := rfl

variable [Field K] [LinearOrder K] [ExpOps K] [NeZero F] (core : HybridLayer K) (S) [NeZero S]

def step (s : LayerState K) : LayerEvent D F K → LayerState K
  | .loadWeights config files weights =>
      { s with params := loadWeightsInPlace config files s.params weights }
  | .runKernels schedule input readTensor writeTensor plan memory =>
      match runKernels (core.served s) S schedule input writeTensor plan readTensor memory with
      | none => s
      | some (_, m) => { s with alphaGateCache := m.alphaGateCache }

/-- The module whose gate a call passes to its launches. -/
def gateUse (s : LayerState K) : LayerEvent D F K → Option (ServedHybrid D F K)
  | .loadWeights _ _ _ => none
  | .runKernels schedule input readTensor writeTensor plan memory =>
      if plan.maxBlocks = 0 then
        none
      else
        (runKernels (core.served s) S schedule input writeTensor plan readTensor memory).map
          (fun _ => core.served s)

/-- All of them, over a run of loads and forwards. -/
def gateUses : LayerState K → List (LayerEvent D F K) → List (ServedHybrid D F K)
  | _, [] => []
  | s, event :: events => (core.gateUse S s event).toList ++ gateUses (core.step S s event) events

variable {core S}

theorem step_cases (s : LayerState K) (event : LayerEvent D F K) :
    core.gateUse S s event = none ∧
        (core.step S s event).alphaGateCache = s.alphaGateCache ∨
      core.gateUse S s event = some (core.served s) ∧
        (core.step S s event).alphaGateCache =
          some (core.served s : ServedHybrid D F K).alphaGate := by
  cases event with
  | loadWeights config files weights => exact .inl ⟨rfl, rfl⟩
  | runKernels schedule input readTensor writeTensor plan memory =>
      cases hgroups : kvGroups (core.served s : ServedHybrid D F K).params input with
      | none => simp [gateUse, step, runKernels, hgroups]
      | some groups =>
          by_cases hblocks : plan.maxBlocks = 0
          · apply Or.inl
            simp [gateUse, step, runKernels, hgroups, hblocks, served_alphaGateCache]
          · apply Or.inr
            simp [gateUse, step, runKernels, hgroups, hblocks]

theorem alphaGate_gateUses {s : LayerState K} {gate : Nat → K}
    (hcache : s.alphaGateCache = some gate) (events : List (LayerEvent D F K)) :
    ∀ m ∈ core.gateUses S s events, m.alphaGate = gate := by
  induction events generalizing s with
  | nil =>
      intro m hm
      cases hm
  | cons event events ih =>
      have hserved : (core.served s : ServedHybrid D F K).alphaGate = gate := by
        simp [ServedHybrid.alphaGate, served_alphaGateCache, hcache]
      intro m hm
      rw [gateUses] at hm
      rcases core.step_cases (S := S) s event with ⟨hnone, hkept⟩ | ⟨huse, htaken⟩
      · rw [hnone] at hm
        exact ih (hkept.trans hcache) m hm
      · rw [huse] at hm
        rcases List.mem_cons.mp hm with rfl | hlater
        · exact hserved
        · exact ih (htaken.trans (congrArg some hserved)) m hlater

/-- The first call sets the gate of all later ones. -/
theorem alphaGate_of_first {s : LayerState K} (hcache : s.alphaGateCache = none)
    {events : List (LayerEvent D F K)} {first : ServedHybrid D F K}
    {later : List (ServedHybrid D F K)} (huses : core.gateUses S s events = first :: later) :
    ∀ m ∈ core.gateUses S s events, ∀ h, m.alphaGate h = sigmoid (first.params.alpha h) := by
  induction events generalizing s with
  | nil => cases huses
  | cons event events ih =>
      rw [gateUses] at huses ⊢
      rcases core.step_cases (S := S) s event with ⟨hnone, hkept⟩ | ⟨huse, htaken⟩
      · rw [hnone] at huses ⊢
        exact ih (hkept.trans hcache) huses
      · rw [huse] at huses ⊢
        obtain ⟨rfl, rfl⟩ := List.cons.inj huses
        have hgate : (core.served s : ServedHybrid D F K).alphaGate =
            fun h => sigmoid ((core.served s : ServedHybrid D F K).params.alpha h) := by
          simp [ServedHybrid.alphaGate, served_alphaGateCache, hcache]
        intro m hm h
        rcases List.mem_cons.mp hm with rfl | hlater
        · exact congrFun hgate h
        · rw [alphaGate_gateUses htaken events m hlater, hgate]

/-- Every call uses the loaded gate just if `alpha` is at each call what it was at the
first one. -/
theorem gateUses_current_iff [IsStrictOrderedRing K] [StrictExp K] (core : HybridLayer K)
    (S : Nat) [NeZero S] (params : Params K) (events : List (LayerEvent D F K)) :
    (∀ m ∈ core.gateUses S ⟨params, none⟩ events, ∀ h < core.numHeads,
        m.alphaGate h = sigmoid (m.params.alpha h)) ↔
      ∀ first later, core.gateUses S ⟨params, none⟩ events = first :: later →
        ∀ m ∈ later, ∀ h < core.numHeads, m.params.alpha h = first.params.alpha h := by
  constructor
  · intro current first later huses m hm h hh
    have hmem : m ∈ core.gateUses S ⟨params, none⟩ events := huses ▸ List.mem_cons_of_mem _ hm
    apply sigmoid_injective
    rw [← current m hmem h hh]
    exact alphaGate_of_first rfl huses m hmem h
  · intro unchanged m hm h hh
    cases huses : core.gateUses S ⟨params, none⟩ events with
    | nil =>
        rw [huses] at hm
        cases hm
    | cons first later =>
        rw [alphaGate_of_first rfl huses m hm h]
        rw [huses] at hm
        rcases List.mem_cons.mp hm with rfl | hlater
        · rfl
        · rw [unchanged first later huses m hlater h hh]

end HybridLayer

/-! One head whose `alpha` is loaded as zero and, between two calls, as one. -/

namespace Reload

def core : HybridLayer ℝ := ⟨0, 1, 1, false, 1⟩

def config : LoadConfig where
  adapterPath := some "adapter.safetensors".toList
  tieWordEmbeddings := false
  tpRank := 0
  tpSize := 1

def alpha (value : ℝ) : Tensor ℝ := .ofFn [1, 1, 1, 1] (fun _ => value)

def params (value : ℝ) : Params ℝ :=
  Function.update (fun _ => none) (hybridCoreName 0 .alpha) (some ⟨.default, alpha value⟩)

def load (value : ℝ) : LayerEvent 1 1 ℝ :=
  .loadWeights config
    (fun _ => some [("hedgehog.".toList ++ hybridCoreName 0 .alpha, alpha value)]) []

noncomputable def call : LayerEvent 1 1 ℝ :=
  .runKernels rowMajorScheduler ⟨fun _ _ _ => 1, fun _ _ _ => 1, fun _ _ _ => 1, 1, 1⟩ 0 1
    (buildRequestBlockPlan [1] [0] 32) ⟨fun _ => RecurrentState.zero, fun _ => []⟩

theorem setData_params (old value : ℝ) :
    (params old).setData (hybridCoreName 0 .alpha) (alpha value) = params value := by
  simp [params, Params.setData]

theorem step_load (old value : ℝ) (gate : Option (Nat → ℝ)) :
    core.step 32 ⟨params old, gate⟩ (load value) = ⟨params value, gate⟩ := by
  have hok : loadWeights config
      (fun _ => some [("hedgehog.".toList ++ hybridCoreName 0 .alpha, alpha value)])
      (params old) [] = .ok (params value) := by
    have hparam : params old (hybridCoreName 0 .alpha) = some ⟨.default, alpha old⟩ :=
      Function.update_self _ _ _
    rw [← setData_params old value]
    refine loadWeights_single rfl ?_ rfl hparam rfl
    decide
  simp only [load, HybridLayer.step, loadWeightsInPlace_of_ok hok]

theorem gateUse_call (s : LayerState ℝ) : core.gateUse 32 s call = some (core.served s) := by
  simp [call, HybridLayer.gateUse, runKernels, kvGroups, HybridLayer.served, core,
    buildRequestBlockPlan]

theorem step_call (value : ℝ) (gate : Option (Nat → ℝ)) : ∃ kept,
    core.step 32 ⟨params value, gate⟩ call = ⟨params value, kept⟩ := by
  simp [call, HybridLayer.step, runKernels, kvGroups, HybridLayer.served, core,
    buildRequestBlockPlan]

theorem alpha_served (value : ℝ) (gate : Option (Nat → ℝ)) :
    (core.served ⟨params value, gate⟩ : ServedHybrid 1 1 ℝ).params.alpha 0 = value := by
  simp [HybridLayer.served, core, paramEntry, params, alpha, Tensor.ofFn, inShape]

theorem gateUses_reload (value : ℝ) : ∃ first second : Option (Nat → ℝ),
    core.gateUses 32 ⟨params 0, none⟩ [load 0, call, load value, call] =
      [core.served ⟨params 0, first⟩, core.served ⟨params value, second⟩] := by
  obtain ⟨gate, hcall⟩ := step_call 0 none
  refine ⟨none, gate, ?_⟩
  simp only [HybridLayer.gateUses, step_load, hcall, gateUse_call]
  rfl

theorem current_same :
    (core.gateUses 32 ⟨params 0, none⟩ [load 0, call, load 0, call]).length = 2 ∧
      ∀ m ∈ core.gateUses 32 ⟨params 0, none⟩ [load 0, call, load 0, call],
        ∀ h < 1, m.alphaGate h = sigmoid (m.params.alpha h) := by
  obtain ⟨first, second, huses⟩ := gateUses_reload 0
  refine ⟨congrArg List.length huses, ?_⟩
  refine (HybridLayer.gateUses_current_iff core 32 (params 0) _).mpr ?_
  intro earliest later hsame m hm h hh
  rw [huses] at hsame
  obtain ⟨rfl, rfl⟩ := List.cons.inj hsame
  cases List.mem_singleton.mp hm
  rfl

/-- After the second load the layer still gates with `sigmoid 0`. -/
theorem not_current_changed :
    ∃ m ∈ core.gateUses 32 ⟨params 0, none⟩ [load 0, call, load 1, call],
      m.alphaGate 0 ≠ sigmoid (m.params.alpha 0) := by
  obtain ⟨first, second, huses⟩ := gateUses_reload 1
  have hmem : core.served ⟨params 1, second⟩ ∈
      core.gateUses 32 ⟨params 0, none⟩ [load 0, call, load 1, call] := by
    simp [huses]
  refine ⟨_, hmem, ?_⟩
  rw [HybridLayer.alphaGate_of_first rfl huses _ hmem, alpha_served, alpha_served]
  exact fun hsame => zero_ne_one (sigmoid_injective hsame)

end Reload

end LladaHybrid.Loading
