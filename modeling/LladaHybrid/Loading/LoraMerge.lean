import LladaHybrid.Library.Dict
import LladaHybrid.Library.Fold
import LladaHybrid.Loading.LoadWeights

namespace LladaHybrid.Loading

open LladaHybrid.Library

/-! What a successful `load_weights` leaves in a parameter that has one base weight and
one pair of LoRA factors. -/

variable {K : Type*}

inductive LoraFactor
  | A
  | B
  deriving DecidableEq

namespace LoraFactor

def key : LoraFactor → Name → Name
  | .A, stem => stem ++ ".lora_A".toList
  | .B, stem => stem ++ ".lora_B".toList

theorem key_injective {factor factor' : LoraFactor} {stem stem' : Name}
    (hsame : factor.key stem = factor'.key stem') : factor = factor' ∧ stem = stem' := by
  cases factor <;> cases factor'
  · exact ⟨rfl, List.append_cancel_right hsame⟩
  · simpa [key] using congrArg List.getLast? hsame
  · simpa [key] using congrArg List.getLast? hsame
  · exact ⟨rfl, List.append_cancel_right hsame⟩

end LoraFactor

def LoraPair.get [Zero K] (pair : LoraPair K) : LoraFactor → Option (Tensor K)
  | .A => pair.A
  | .B => pair.B

def LoraPair.set [Zero K] (pair : LoraPair K) (T : Tensor K) : LoraFactor → LoraPair K
  | .A => { pair with A := some T }
  | .B => { pair with B := some T }

theorem LoraPair.get_set [Zero K] (pair : LoraPair K) (T : Tensor K)
    (factor other : LoraFactor) :
    (pair.set T factor).get other = if other = factor then some T else pair.get other := by
  cases factor <;> cases other <;> rfl

section Group

variable [Zero K]

def pairAt (pairs : List (Name × LoraPair K)) (name : Name) : LoraPair K :=
  (pairs.lookup name).getD ⟨none, none⟩

theorem upsertPair_eq_upsert (name : Name) (assign : LoraPair K → LoraPair K)
    (pairs : List (Name × LoraPair K)) :
    upsertPair name assign pairs = upsert ⟨none, none⟩ name assign pairs := by
  induction pairs with
  | nil => rfl
  | cons pair pairs ih => rw [upsertPair, upsert, ih]

theorem nodup_upsertPair {pairs : List (Name × LoraPair K)} (name : Name)
    (assign : LoraPair K → LoraPair K) (hnodup : (pairs.map Prod.fst).Nodup) :
    ((upsertPair name assign pairs).map Prod.fst).Nodup := by
  rw [upsertPair_eq_upsert]
  exact nodup_upsert hnodup

theorem pairAt_upsertPair (name : Name) (assign : LoraPair K → LoraPair K)
    (pairs : List (Name × LoraPair K)) (other : Name) :
    pairAt (upsertPair name assign pairs) other =
      if other = name then assign (pairAt pairs name) else pairAt pairs other := by
  rw [pairAt, upsertPair_eq_upsert, lookup_upsert]
  split_ifs <;> rfl

/-- The pairs grouped from the entries seen so far. -/
structure Grouped (done : List (Name × Tensor K)) (pairs : List (Name × LoraPair K)) :
    Prop where
  nodup : (pairs.map Prod.fst).Nodup
  factor : ∀ {factor : LoraFactor} {stem T}, (factor.key stem, T) ∈ done →
    (pairAt pairs (weightName stem)).get factor = some T

theorem groupEntry_cases {pairs result : List (Name × LoraPair K)} {entry : Name × Tensor K}
    (hok : groupEntry pairs entry = .ok result) :
    ∃ (factor : LoraFactor) (stem : Name), entry.1 = factor.key stem ∧
      result = upsertPair (weightName stem) (fun pair => pair.set entry.2 factor) pairs := by
  unfold groupEntry at hok
  split_ifs at hok with hA hB
  · cases hok
    refine ⟨.A, _, ?_, rfl⟩
    obtain ⟨stem, hstem⟩ := hA
    rw [← hstem]
    simp [LoraFactor.key]
  · cases hok
    refine ⟨.B, _, ?_, rfl⟩
    obtain ⟨stem, hstem⟩ := hB
    rw [← hstem]
    simp [LoraFactor.key]

theorem weightName_injective {stem other : Name} (hsame : weightName stem = weightName other) :
    stem = other :=
  List.append_cancel_right hsame

theorem Grouped.step {done : List (Name × Tensor K)} {pairs result : List (Name × LoraPair K)}
    {entry : Name × Tensor K} (grouped : Grouped done pairs)
    (hfresh : entry.1 ∉ done.map Prod.fst) (hok : groupEntry pairs entry = .ok result) :
    Grouped (done ++ [entry]) result := by
  obtain ⟨factor, stem, hkey, rfl⟩ := groupEntry_cases hok
  refine ⟨nodup_upsertPair _ _ grouped.nodup, ?_⟩
  intro other stem' T hmem
  rw [pairAt_upsertPair]
  rcases List.mem_append.mp hmem with hold | hnew
  · have hget := grouped.factor hold
    by_cases hname : weightName stem' = weightName stem
    · have hother : other ≠ factor := by
        rintro rfl
        apply hfresh
        rw [hkey, ← weightName_injective hname]
        exact List.mem_map_of_mem hold
      rw [if_pos hname, LoraPair.get_set, if_neg hother, ← hname]
      exact hget
    · rw [if_neg hname]
      exact hget
  · rw [← List.mem_singleton.mp hnew] at hkey ⊢
    obtain ⟨rfl, rfl⟩ := LoraFactor.key_injective hkey
    rw [if_pos rfl, LoraPair.get_set, if_pos rfl]

theorem Grouped.run {done lora : List (Name × Tensor K)}
    {pairs result : List (Name × LoraPair K)} (grouped : Grouped done pairs)
    (hnodup : ((done ++ lora).map Prod.fst).Nodup)
    (hrun : lora.foldlM groupEntry pairs = .ok result) : Grouped (done ++ lora) result := by
  induction lora generalizing done pairs with
  | nil =>
      cases hrun
      rwa [List.append_nil]
  | cons entry lora ih =>
      rw [List.foldlM_cons] at hrun
      obtain ⟨next, hfirst, hrest⟩ := bind_eq_ok hrun
      have hfresh : entry.1 ∉ done.map Prod.fst := by
        rw [List.map_append, List.map_cons] at hnodup
        intro hmem
        exact (List.nodup_append.mp hnodup).2.2 _ hmem _ List.mem_cons_self rfl
      rw [List.append_cons] at hnodup ⊢
      exact ih (grouped.step hfresh hfirst) hnodup hrest

theorem groupPairs_grouped {lora : List (Name × Tensor K)} {pairs : List (Name × LoraPair K)}
    (hnodup : (lora.map Prod.fst).Nodup) (hok : groupPairs lora = .ok pairs) :
    Grouped lora pairs := by
  have hnone : Grouped ([] : List (Name × Tensor K)) [] := by
    refine ⟨List.nodup_nil, ?_⟩
    intro factor stem T hmem
    cases hmem
  exact hnone.run hnodup hok

theorem exists_groupPairs {lora : List (Name × Tensor K)}
    (hkeys : ∀ entry ∈ lora, ∃ (factor : LoraFactor) (stem : Name), entry.1 = factor.key stem) :
    ∃ pairs, groupPairs lora = .ok pairs := by
  apply foldlM_exists_ok
  intro entry hentry pairs
  obtain ⟨factor, stem, hkey⟩ := hkeys entry hentry
  unfold groupEntry
  split_ifs with hA hB
  · exact ⟨_, rfl⟩
  · exact ⟨_, rfl⟩
  · cases factor with
    | A => exact absurd (hkey ▸ List.suffix_append stem _) hA
    | B => exact absurd (hkey ▸ List.suffix_append stem _) hB

/-- The factors grouped under a weight are the entries of its module. -/
theorem groupPairs_factor_iff {lora : List (Name × Tensor K)} {pairs : List (Name × LoraPair K)}
    (hnodup : (lora.map Prod.fst).Nodup) (hok : groupPairs lora = .ok pairs) {name : Name}
    {factor : LoraFactor} {T : Tensor K} : (pairAt pairs name).get factor = some T ↔
      ∃ stem, name = weightName stem ∧ (factor.key stem, T) ∈ lora := by
  constructor
  · refine foldlM_invariant (fun pairs => ∀ name factor T, (pairAt pairs name).get factor = some T →
      ∃ stem, name = weightName stem ∧ (factor.key stem, T) ∈ lora) ?_ hok ?_ name factor T
    · intro before entry after hentry hstep hbefore name factor T hget
      obtain ⟨own, stem, hkey, rfl⟩ := groupEntry_cases hstep
      rw [pairAt_upsertPair] at hget
      split_ifs at hget with hname
      · rw [LoraPair.get_set] at hget
        split_ifs at hget with hown
        · cases hget
          refine ⟨stem, hname, ?_⟩
          rwa [hown, ← hkey]
        · exact hbefore name factor T (hname ▸ hget)
      · exact hbefore name factor T hget
    · intro name factor T hget
      cases factor <;> cases hget
  · rintro ⟨stem, rfl, hmem⟩
    exact (groupPairs_grouped hnodup hok).factor hmem

theorem Grouped.pair_mem {lora : List (Name × Tensor K)} {pairs : List (Name × LoraPair K)}
    (grouped : Grouped lora pairs) {stem : Name} {A B : Tensor K}
    (hA : (LoraFactor.A.key stem, A) ∈ lora) (hB : (LoraFactor.B.key stem, B) ∈ lora) :
    (weightName stem, ⟨some A, some B⟩) ∈ pairs := by
  have hfactorA := grouped.factor hA
  have hfactorB := grouped.factor hB
  unfold pairAt at hfactorA hfactorB
  cases hlookup : pairs.lookup (weightName stem) with
  | none =>
      rw [hlookup] at hfactorA
      cases hfactorA
  | some pair =>
      rw [hlookup] at hfactorA hfactorB
      obtain ⟨before, after, hpairs, -⟩ := List.lookup_eq_some_iff.mp hlookup
      have hpair : pair = ⟨some A, some B⟩ := by
        cases pair
        cases hfactorA
        cases hfactorB
        rfl
      rw [hpairs, ← hpair]
      exact List.mem_append_right _ List.mem_cons_self

end Group

section Frames

variable [Zero K] {params : Params K} {name other : Name}

theorem setData_of_ne (hne : other ≠ name) (data : Tensor K) :
    params.setData name data other = params other :=
  Function.update_of_ne hne _ params

theorem setData_self {param : Param K} (hparam : params name = some param) (data : Tensor K) :
    params.setData name data name = some { param with data } := by
  rw [Params.setData, Function.update_self, hparam]
  rfl

theorem loadBaseWeight_of_ne {config : LoadConfig} {result : Params K}
    {weight : Name × Tensor K} (hne : weight.1 ≠ name)
    (hok : loadBaseWeight config params weight = .ok result) : result name = params name := by
  unfold loadBaseWeight at hok
  split_ifs at hok
  · cases hok
    rfl
  · split at hok
    · cases hok
      rfl
    · split at hok
      · cases hok
      · cases hok
        exact setData_of_ne (Ne.symm hne) _

theorem loadBaseWeight_self {config : LoadConfig} {result : Params K} {param : Param K}
    {W : Tensor K} (hplain : notPlain config name = false) (hparam : params name = some param)
    (hok : loadBaseWeight config params (name, W) = .ok result) :
    ∃ data, param.loader.load param.data W = some data ∧
      result name = some { param with data } := by
  simp only [loadBaseWeight, hplain, Bool.false_eq_true, if_false, hparam] at hok
  cases hload : param.loader.load param.data W with
  | none =>
      rw [hload] at hok
      cases hok
  | some data =>
      rw [hload] at hok
      cases hok
      exact ⟨data, rfl, setData_self hparam data⟩

theorem loadBaseWeights_param {config : LoadConfig} {weights : List (Name × Tensor K)}
    {result : Params K} {param : Param K} {W : Tensor K}
    (hok : loadBaseWeights config params weights = .ok result)
    (hnodup : (weights.map Prod.fst).Nodup) (hweight : (name, W) ∈ weights)
    (hplain : notPlain config name = false) (hparam : params name = some param) :
    ∃ data, param.loader.load param.data W = some data ∧
      result name = some { param with data } := by
  obtain ⟨before, after, hbefore, hstep, hafter⟩ := foldlM_once (fun params => params name)
    Prod.fst hweight hnodup (fun _ _ _ hne => loadBaseWeight_of_ne hne) hok
  rw [hafter]
  exact loadBaseWeight_self hplain (hbefore.trans hparam) hstep

theorem loadBaseWeights_of_notMem {config : LoadConfig} {weights : List (Name × Tensor K)}
    {result : Params K} (hok : loadBaseWeights config params weights = .ok result)
    (hname : name ∉ weights.map Prod.fst) : result name = params name := by
  refine foldlM_invariant (fun current => current name = params name) ?_ hok rfl
  intro before weight after hweight hstep hbefore
  rw [← hbefore]
  apply loadBaseWeight_of_ne _ hstep
  rintro rfl
  exact hname (List.mem_map_of_mem hweight)

theorem loadHedgehogEntry_of_ne {config : LoadConfig} {s result : HedgehogState K}
    {entry : Name × Tensor K} (hne : entry.1 ≠ name)
    (hok : loadHedgehogEntry config s entry = .ok result) :
    result.params name = s.params name := by
  unfold loadHedgehogEntry at hok
  split at hok
  · cases hok
    rfl
  · obtain ⟨data, -, hdata⟩ := bind_eq_ok hok
    cases hdata
    exact setData_of_ne (Ne.symm hne) data

theorem loadHedgehog_cases {config : LoadConfig} {hedgehog : List (Name × Tensor K)}
    {result : Params K} (hok : loadHedgehog config params hedgehog = .ok result) :
    ∃ s, hedgehog.foldlM (loadHedgehogEntry config) ⟨params, 0⟩ = .ok s ∧ s.params = result := by
  obtain ⟨s, hrun, hend⟩ := bind_eq_ok hok
  split_ifs at hend
  cases hend
  exact ⟨s, hrun, rfl⟩

theorem loadHedgehog_of_notMem {config : LoadConfig} {hedgehog : List (Name × Tensor K)}
    {result : Params K} (hok : loadHedgehog config params hedgehog = .ok result)
    (hname : name ∉ hedgehog.map Prod.fst) : result name = params name := by
  obtain ⟨s, hrun, rfl⟩ := loadHedgehog_cases hok
  refine foldlM_invariant (fun s => s.params name = params name) ?_ hrun rfl
  intro before entry after hentry hstep hbefore
  rw [← hbefore]
  apply loadHedgehogEntry_of_ne _ hstep
  rintro rfl
  exact hname (List.mem_map_of_mem hentry)

end Frames

section Roles

variable [Zero K]

/-- An entry of the adapter with the role in front of its name. -/
def addRole (role : Name) (entry : Name × Tensor K) : Name × Tensor K :=
  (role ++ entry.1, entry.2)

theorem not_lora_isPrefix {name : Name} : ¬ "lora.".toList <+: "hedgehog.".toList ++ name := by
  rintro ⟨rest, hsame⟩
  have hhead : some 'l' = some 'h' := congrArg List.head? hsame
  exact absurd hhead (by decide)

theorem not_hedgehog_isPrefix {name : Name} :
    ¬ "hedgehog.".toList <+: "lora.".toList ++ name := by
  rintro ⟨rest, hsame⟩
  have hhead : some 'h' = some 'l' := congrArg List.head? hsame
  exact absurd hhead (by decide)

theorem withRole_append (role : Name) (adapter adapter' : List (Name × Tensor K)) :
    withRole role (adapter ++ adapter') = withRole role adapter ++ withRole role adapter' := by
  rw [withRole, List.filter_append, List.map_append]
  rfl

theorem withRole_perm (role : Name) {adapter adapter' : List (Name × Tensor K)}
    (hperm : adapter.Perm adapter') : (withRole role adapter).Perm (withRole role adapter') :=
  (hperm.filter _).map _

theorem withRole_addRole (role : Name) (entries : List (Name × Tensor K)) :
    withRole role (entries.map (addRole role)) = entries := by
  induction entries with
  | nil => rfl
  | cons entry entries ih =>
      have hkept : decide (role <+: (addRole role entry).1) = true :=
        decide_eq_true (List.prefix_append role entry.1)
      rw [List.map_cons, withRole, List.filter_cons, if_pos hkept, List.map_cons]
      refine congrArg₂ List.cons ?_ ih
      exact Prod.ext List.drop_left rfl

theorem withRole_other {role other : Name} (hother : ∀ name, ¬ role <+: other ++ name)
    (entries : List (Name × Tensor K)) : withRole role (entries.map (addRole other)) = [] := by
  rw [withRole, List.filter_eq_nil_iff.mpr, List.map_nil]
  intro entry hentry
  obtain ⟨source, -, rfl⟩ := List.mem_map.mp hentry
  exact fun hrole => hother source.1 (of_decide_eq_true hrole)

theorem mem_withRole {role name : Name} {adapter : List (Name × Tensor K)} {T : Tensor K} :
    (name, T) ∈ withRole role adapter ↔ (role ++ name, T) ∈ adapter := by
  simp only [withRole, List.mem_map, List.mem_filter, decide_eq_true_eq, Prod.mk.injEq]
  constructor
  · rintro ⟨⟨key, U⟩, ⟨hmem, ⟨rest, rfl⟩⟩, hname, rfl⟩
    rwa [← hname, List.drop_left]
  · intro hmem
    exact ⟨(role ++ name, T), ⟨hmem, List.prefix_append role name⟩, List.drop_left, rfl⟩

theorem nodup_withRole {role : Name} {adapter : List (Name × Tensor K)}
    (hnodup : (adapter.map Prod.fst).Nodup) :
    ((withRole role adapter).map Prod.fst).Nodup := by
  rw [withRole, List.map_map]
  refine List.Nodup.map_on ?_ (hnodup.of_map.filter _)
  intro first hfirst second hsecond hsame
  obtain ⟨hfirst, hfirstRole⟩ := List.mem_filter.mp hfirst
  obtain ⟨hsecond, hsecondRole⟩ := List.mem_filter.mp hsecond
  obtain ⟨firstRest, hfirstKey⟩ := of_decide_eq_true hfirstRole
  obtain ⟨secondRest, hsecondKey⟩ := of_decide_eq_true hsecondRole
  apply List.inj_on_of_nodup_map hnodup hfirst hsecond
  simp only [Function.comp_apply, ← hfirstKey, ← hsecondKey, List.drop_left] at hsame
  rw [← hfirstKey, ← hsecondKey, hsame]

end Roles

section Merge

variable [Field K] {config : LoadConfig} {name : Name}

/-- What a delta makes of the local weight: the shard that fits is added, and a weight
that none fits stays as it is. -/
def mergedData (config : LoadConfig) (name : Name) (data delta : Tensor K) : Tensor K :=
  let shard := shardDelta config name data.shape delta
  if shard.shape = data.shape then data.add shard else data

theorem mergePair_of_ne {s result : MergeState K} {pair : Name × LoraPair K}
    (hne : pair.1 ≠ name) (hok : mergePair config s pair = .ok result) :
    result.params name = s.params name := by
  unfold mergePair at hok
  split at hok
  · split at hok
    · cases hok
    · dsimp only at hok
      split_ifs at hok
      · cases hok
        rfl
      · cases hok
        exact setData_of_ne (Ne.symm hne) _
  · cases hok
    rfl

theorem mergePair_self {s result : MergeState K} {A B : Tensor K} {param : Param K}
    (hparam : s.params name = some param)
    (hok : mergePair config s (name, ⟨some A, some B⟩) = .ok result) :
    ∃ product, B.matmul A = some product ∧ result.params name = some { param with
      data := mergedData config name param.data (product.scale (loraScaling config)) } := by
  simp only [mergePair, hparam] at hok
  cases hproduct : B.matmul A with
  | none =>
      rw [hproduct] at hok
      cases hok
  | some product =>
      rw [hproduct] at hok
      refine ⟨product, rfl, ?_⟩
      unfold mergedData
      dsimp only at hok ⊢
      split_ifs at hok with hshape
      · cases hok
        rw [if_neg hshape]
        exact hparam
      · cases hok
        rw [if_pos (not_not.mp hshape)]
        exact setData_self hparam _

theorem mergeLora_cases {params result : Params K} {lora : List (Name × Tensor K)}
    (hok : mergeLora config params lora = .ok result) :
    lora = [] ∧ result = params ∨ ∃ pairs s, groupPairs lora = .ok pairs ∧
      pairs.foldlM (mergePair config) ⟨params, 0, []⟩ = .ok s ∧ s.params = result := by
  unfold mergeLora at hok
  split_ifs at hok with hempty hrank
  · cases hok
    exact .inl ⟨hempty, rfl⟩
  · obtain ⟨pairs, hpairs, hrest⟩ := bind_eq_ok hok
    obtain ⟨s, hrun, hend⟩ := bind_eq_ok hrest
    split_ifs at hend
    cases hend
    exact .inr ⟨pairs, s, hpairs, hrun, rfl⟩

theorem mergeLora_param {params result : Params K} {lora : List (Name × Tensor K)}
    {stem : Name} {A B : Tensor K} {param : Param K}
    (hok : mergeLora config params lora = .ok result) (hnodup : (lora.map Prod.fst).Nodup)
    (hA : (LoraFactor.A.key stem, A) ∈ lora) (hB : (LoraFactor.B.key stem, B) ∈ lora)
    (hparam : params (weightName stem) = some param) :
    ∃ product, B.matmul A = some product ∧ result (weightName stem) = some { param with
      data := mergedData config (weightName stem) param.data
        (product.scale (loraScaling config)) } := by
  rcases mergeLora_cases hok with ⟨rfl, -⟩ | ⟨pairs, s, hpairs, hrun, rfl⟩
  · cases hA
  · have grouped := groupPairs_grouped hnodup hpairs
    obtain ⟨before, after, hbefore, hstep, hafter⟩ := foldlM_once
      (fun s : MergeState K => s.params (weightName stem)) Prod.fst (grouped.pair_mem hA hB)
      grouped.nodup (fun _ _ _ hne => mergePair_of_ne hne) hrun
    obtain ⟨product, hproduct, hdata⟩ := mergePair_self (hbefore.trans hparam) hstep
    exact ⟨product, hproduct, hafter.trans hdata⟩

theorem loadWeights_cases {files : Name → Option (List (Name × Tensor K))} {path : Name}
    {params result : Params K} {weights adapter : List (Name × Tensor K)}
    (hpath : config.adapterPath = some path) (hfile : files path = some adapter)
    (hok : loadWeights config files params weights = .ok result) :
    ∃ base, loadBaseWeights config params weights = .ok base ∧
      loadAdapter config base adapter = .ok result := by
  obtain ⟨base, hbase, hrest⟩ := bind_eq_ok hok
  refine ⟨base, hbase, ?_⟩
  rw [hpath] at hrest
  cases path with
  | nil => cases hrest
  | cons head tail => simpa only [hfile] using hrest

theorem loadAdapter_cases {base result : Params K} {adapter : List (Name × Tensor K)}
    (hok : loadAdapter config base adapter = .ok result) :
    ∃ copied, loadHedgehog config base (withRole "hedgehog.".toList adapter) = .ok copied ∧
      mergeLora config copied (withRole "lora.".toList adapter) = .ok result := by
  unfold loadAdapter at hok
  split_ifs at hok
  exact bind_eq_ok hok

theorem loadAdapter_param {base result : Params K} {adapter : List (Name × Tensor K)}
    {stem : Name} {param : Param K} {A B : Tensor K}
    (hok : loadAdapter config base adapter = .ok result)
    (hadapter : (adapter.map Prod.fst).Nodup)
    (hA : ("lora.".toList ++ LoraFactor.A.key stem, A) ∈ adapter)
    (hB : ("lora.".toList ++ LoraFactor.B.key stem, B) ∈ adapter)
    (hhedgehog : "hedgehog.".toList ++ weightName stem ∉ adapter.map Prod.fst)
    (hparam : base (weightName stem) = some param) :
    ∃ product, B.matmul A = some product ∧ result (weightName stem) = some { param with
      data := mergedData config (weightName stem) param.data
        (product.scale (loraScaling config)) } := by
  obtain ⟨mid, hmid, hmerge⟩ := loadAdapter_cases hok
  have hkept : mid (weightName stem) = some param := by
    rw [loadHedgehog_of_notMem hmid, hparam]
    intro hmem
    obtain ⟨entry, hentry, hname⟩ := List.mem_map.mp hmem
    obtain ⟨key, T⟩ := entry
    subst hname
    exact hhedgehog (List.mem_map_of_mem (mem_withRole.mp hentry))
  exact mergeLora_param hmerge (nodup_withRole hadapter) (mem_withRole.mpr hA)
    (mem_withRole.mpr hB) hkept

/-- A weight of the model with its base value and its LoRA factors in the adapter. -/
structure LoraTarget (config : LoadConfig) (params : Params K)
    (weights adapter : List (Name × Tensor K)) (stem : Name) (param : Param K)
    (W A B : Tensor K) : Prop where
  registered : params (weightName stem) = some param
  plain : notPlain config (weightName stem) = false
  weight : (weightName stem, W) ∈ weights
  factorA : ("lora.".toList ++ LoraFactor.A.key stem, A) ∈ adapter
  factorB : ("lora.".toList ++ LoraFactor.B.key stem, B) ∈ adapter
  notHedgehog : "hedgehog.".toList ++ weightName stem ∉ adapter.map Prod.fst

/-- After `load_weights` a target holds its loaded base weight with its delta merged. -/
theorem loadWeights_param {files : Name → Option (List (Name × Tensor K))} {path : Name}
    {params result : Params K} {weights adapter : List (Name × Tensor K)} {stem : Name}
    {param : Param K} {W A B : Tensor K}
    (hok : loadWeights config files params weights = .ok result)
    (hpath : config.adapterPath = some path) (hfile : files path = some adapter)
    (hweights : (weights.map Prod.fst).Nodup) (hadapter : (adapter.map Prod.fst).Nodup)
    (target : LoraTarget config params weights adapter stem param W A B) :
    ∃ data product, param.loader.load param.data W = some data ∧
      B.matmul A = some product ∧ result (weightName stem) = some { param with
        data := mergedData config (weightName stem) data
          (product.scale (loraScaling config)) } := by
  obtain ⟨base, hbase, hload⟩ := loadWeights_cases hpath hfile hok
  obtain ⟨data, hdata, hparam⟩ := loadBaseWeights_param hbase hweights target.weight
    target.plain target.registered
  obtain ⟨product, hproduct, hmerged⟩ := loadAdapter_param hload hadapter target.factorA
    target.factorB target.notHedgehog hparam
  exact ⟨data, product, hdata, hproduct, hmerged⟩

end Merge

end LladaHybrid.Loading
