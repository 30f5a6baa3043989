import LladaHybrid.Library.Replace
import LladaHybrid.Loading.AdapterCoverage

namespace LladaHybrid.Loading

open LladaHybrid.Library

/-! `build_adapter`: the feature maps of the distillation and the LoRA factors of the recovery
are renamed and merged into the adapter that `load_weights` splits again. -/

variable {K : Type*}

inductive ConvertError
  | noPeftPrefix (key : Name)
  | noLoraSuffix (key : Name)

abbrev StateDict (K : Type*) [Zero K] := Dict Name (Tensor K)

/-- `_HF_TO_SGLANG`. -/
def hfToSglang : Name × Name := (".linear_attention.".toList, ".hybrid_core.".toList)

def sglangName (key : Name) : Name := replaceAll hfToSglang.1 hfToSglang.2 key

/-- `_PEFT_PREFIX`. -/
def peftPrefix : Name := "base_model.model.".toList

/-- `_PEFT_SUFFIXES`. -/
def peftSuffixes : List (Name × Name) :=
  [(".lora_A.default.weight".toList, ".lora_A".toList),
    (".lora_B.default.weight".toList, ".lora_B".toList)]

/-- The key of `convert_lora` without the wrapper of PEFT. -/
def convertLoraName (key : Name) : Except ConvertError Name :=
  if peftPrefix <+: key then
    let name := key.drop peftPrefix.length
    match peftSuffixes.find? (fun entry => decide (entry.1 <:+ name)) with
    | some (suffix, short) => .ok (name.take (name.length - suffix.length) ++ short)
    | none => .error (.noLoraSuffix key)
  else
    .error (.noPeftPrefix key)

section Convert

variable [Zero K]

/-- The body of the loop of `convert_hedgehog`. -/
def convertHedgehogEntry (out : StateDict K) (entry : Name × Tensor K) : StateDict K :=
  let name := sglangName entry.1
  let tensor := if ".alpha".toList <:+ name then entry.2.flatten else entry.2
  out.set ("hedgehog.".toList ++ name) tensor

def convertHedgehog (state : StateDict K) : StateDict K :=
  state.entries.foldl convertHedgehogEntry .empty

/-- The body of the loop of `convert_lora`. -/
def convertLoraEntry (out : StateDict K) (entry : Name × Tensor K) :
    Except ConvertError (StateDict K) :=
  match convertLoraName entry.1 with
  | .error e => .error e
  | .ok name => .ok (out.set ("lora.".toList ++ name) entry.2)

def convertLora (state : StateDict K) : Except ConvertError (StateDict K) :=
  state.entries.foldlM convertLoraEntry .empty

/-- The tensors that `main` saves. -/
def buildAdapter (distill lora : StateDict K) : Except ConvertError (StateDict K) := do
  let tensors := convertHedgehog distill
  let converted ← convertLora lora
  .ok (tensors.update converted)

end Convert

section Names

theorem hfToSglang_eq : hfToSglang =
    (delimited '.' "linear_attention".toList, delimited '.' "hybrid_core".toList) := by
  decide

theorem dot_notMem_hybridCore : '.' ∉ "hybrid_core".toList := by decide

theorem dot_notMem_alpha : '.' ∉ "alpha".toList := by decide

theorem sglangName_inj {key other : Name} (hkey : ¬ hfToSglang.2 <:+: key)
    (hother : ¬ hfToSglang.2 <:+: other) (hsame : sglangName key = sglangName other) :
    key = other := by
  unfold sglangName at hsame
  rw [hfToSglang_eq] at hkey hother hsame
  exact replaceAll_inj dot_notMem_hybridCore hkey hother hsame

theorem alpha_isSuffix_sglangName {key : Name} (hkey : ¬ hfToSglang.2 <:+: key) :
    ".alpha".toList <:+ sglangName key ↔ ".alpha".toList <:+ key := by
  have halpha : ".alpha".toList = '.' :: "alpha".toList := by decide
  unfold sglangName
  rw [hfToSglang_eq] at hkey ⊢
  rw [halpha]
  exact isSuffix_replaceAll_iff dot_notMem_alpha dot_notMem_hybridCore hkey

namespace LoraFactor

def peftSuffix : LoraFactor → Name
  | .A => ".lora_A.default.weight".toList
  | .B => ".lora_B.default.weight".toList

/-- The key under which PEFT stores a factor of a module. -/
def peftKey (factor : LoraFactor) (m : Name) : Name := peftPrefix ++ m ++ factor.peftSuffix

end LoraFactor

def IsPeftKey (key : Name) : Prop := ∃ (factor : LoraFactor) (m : Name), key = factor.peftKey m

theorem not_peftSuffix_isSuffix (m : Name) :
    ¬ LoraFactor.A.peftSuffix <:+ m ++ LoraFactor.B.peftSuffix := by
  intro hends
  have hsame : LoraFactor.A.peftSuffix <:+ LoraFactor.B.peftSuffix :=
    List.suffix_of_suffix_length_le hends (List.suffix_append m _) (by decide)
  exact absurd hsame (by decide)

theorem peftSuffixes_eq : peftSuffixes =
    [(LoraFactor.A.peftSuffix, LoraFactor.A.key []),
      (LoraFactor.B.peftSuffix, LoraFactor.B.key [])] :=
  rfl

theorem find?_peftSuffixes (factor : LoraFactor) (m : Name) :
    peftSuffixes.find? (fun entry => decide (entry.1 <:+ m ++ factor.peftSuffix)) =
      some (factor.peftSuffix, factor.key []) := by
  rw [peftSuffixes_eq]
  cases factor with
  | A => exact List.find?_cons_of_pos (decide_eq_true (List.suffix_append m _))
  | B =>
      rw [List.find?_cons_of_neg]
      · exact List.find?_cons_of_pos (decide_eq_true (List.suffix_append m _))
      · intro hA
        exact not_peftSuffix_isSuffix m (of_decide_eq_true hA)

theorem convertLoraName_peftKey (factor : LoraFactor) (m : Name) :
    convertLoraName (factor.peftKey m) = .ok (factor.key m) := by
  have hwrapped : factor.peftKey m = peftPrefix ++ (m ++ factor.peftSuffix) :=
    List.append_assoc peftPrefix m _
  have hkey : m ++ factor.key [] = factor.key m := by cases factor <;> rfl
  rw [hwrapped, convertLoraName, if_pos (List.prefix_append _ _), List.drop_left]
  simp only [find?_peftSuffixes, List.length_append, Nat.add_sub_cancel, List.take_left, hkey]

/-- `convert_lora` accepts the keys that PEFT wraps around a module, and no others. -/
theorem convertLoraName_cases {key name : Name} (hok : convertLoraName key = .ok name) :
    IsPeftKey key := by
  unfold convertLoraName at hok
  split_ifs at hok with hwrapped
  obtain ⟨rest, rfl⟩ := hwrapped
  rw [List.drop_left] at hok
  dsimp only at hok
  split at hok
  · rename_i suffix short hfind
    have hends := List.find?_some hfind
    obtain ⟨m, rfl⟩ := of_decide_eq_true hends
    rw [← List.append_assoc]
    have hmem := List.mem_of_find?_eq_some hfind
    rw [peftSuffixes_eq] at hmem
    rcases List.mem_cons.mp hmem with hA | hmem
    · cases hA
      exact ⟨.A, m, rfl⟩
    · cases List.mem_singleton.mp hmem
      exact ⟨.B, m, rfl⟩
  · cases hok

end Names

section Entries

variable [Zero K] {distill peft converted : StateDict K}

/-- The entry under which a parameter of the distillation is loaded. -/
def hedgehogImage (entry : Name × Tensor K) : Name × Tensor K :=
  (sglangName entry.1, if ".alpha".toList <:+ entry.1 then entry.2.flatten else entry.2)

/-- The entry of a factor without the wrapper of PEFT. -/
def loraImage (entry : Name × Tensor K) : Name × Tensor K :=
  ((convertLoraName entry.1).toOption.getD [], entry.2)

theorem loraImage_peftKey (factor : LoraFactor) (m : Name) (T : Tensor K) :
    loraImage (factor.peftKey m, T) = (factor.key m, T) := by
  rw [loraImage, convertLoraName_peftKey]
  rfl

theorem reshape_hedgehogImage (key : Name) (T : Tensor K) (shape : List Nat) :
    (hedgehogImage (key, T)).2.reshape shape = T.reshape shape := by
  unfold hedgehogImage
  split_ifs
  · exact T.reshape_flatten shape
  · rfl

theorem entries_convertHedgehog (hkeys : ∀ key ∈ distill.keys, ¬ hfToSglang.2 <:+: key) :
    (convertHedgehog distill).entries =
      (distill.entries.map hedgehogImage).map (addRole "hedgehog.".toList) := by
  have hloop := distill.entries_renamed (fun entry => addRole "hedgehog.".toList
    (sglangName entry.1,
      if ".alpha".toList <:+ sglangName entry.1 then entry.2.flatten else entry.2)) ?_
  · refine hloop.trans ?_
    rw [List.map_map]
    apply List.map_congr_left
    intro entry hentry
    simp only [Function.comp_apply, hedgehogImage,
      alpha_isSuffix_sglangName (hkeys entry.1 (List.mem_map_of_mem hentry))]
  · intro entry hentry other hother hsame
    exact sglangName_inj (hkeys entry.1 (List.mem_map_of_mem hentry))
      (hkeys other.1 (List.mem_map_of_mem hother)) (List.append_cancel_left hsame)

theorem convertLora_isOk_iff : (∃ converted, convertLora peft = .ok converted) ↔
    ∀ key ∈ peft.keys, IsPeftKey key := by
  constructor
  · rintro ⟨converted, hok⟩ key hkey
    obtain ⟨entry, hentry, rfl⟩ := List.mem_map.mp hkey
    obtain ⟨before, after, hstep⟩ := foldlM_step_of_mem hok hentry
    unfold convertLoraEntry at hstep
    cases hname : convertLoraName entry.1 with
    | error e =>
        rw [hname] at hstep
        cases hstep
    | ok name => exact convertLoraName_cases hname
  · intro hkeys
    apply foldlM_exists_ok
    intro entry hentry out
    obtain ⟨factor, m, hkey⟩ := hkeys entry.1 (List.mem_map_of_mem hentry)
    rw [convertLoraEntry, hkey, convertLoraName_peftKey]
    exact ⟨_, rfl⟩

theorem entries_convertLora (hok : convertLora peft = .ok converted) :
    converted.entries = (peft.entries.map loraImage).map (addRole "lora.".toList) := by
  have hkeys := convertLora_isOk_iff.mp ⟨converted, hok⟩
  have hloop : converted = peft.entries.foldl (fun out entry => out.set
      (addRole "lora.".toList (loraImage entry)).1 (addRole "lora.".toList (loraImage entry)).2)
      .empty := by
    apply foldlM_eq_foldl _ hok
    intro entry hentry before after hstep
    obtain ⟨factor, m, hkey⟩ := hkeys entry.1 (List.mem_map_of_mem hentry)
    rw [convertLoraEntry, hkey, convertLoraName_peftKey] at hstep
    cases hstep
    rw [addRole, loraImage, hkey, convertLoraName_peftKey]
    rfl
  rw [hloop, List.map_map]
  apply peft.entries_renamed
  intro entry hentry other hother hsame
  obtain ⟨factor, m, hkey⟩ := hkeys entry.1 (List.mem_map_of_mem hentry)
  obtain ⟨factor', m', hkey'⟩ := hkeys other.1 (List.mem_map_of_mem hother)
  have hnames := List.append_cancel_left hsame
  rw [loraImage, loraImage, hkey, hkey', convertLoraName_peftKey, convertLoraName_peftKey] at hnames
  obtain ⟨rfl, rfl⟩ := LoraFactor.key_injective hnames
  rw [hkey, hkey']

section Wrapped

variable (hwrapped : ∀ key ∈ peft.keys, IsPeftKey key)

include hwrapped

theorem mem_loraImage_cases {entry : Name × Tensor K}
    (hentry : entry ∈ peft.entries.map loraImage) :
    ∃ (factor : LoraFactor) (m : Name), entry.1 = factor.key m ∧
      (factor.peftKey m, entry.2) ∈ peft.entries := by
  obtain ⟨⟨key, T⟩, hmem, rfl⟩ := List.mem_map.mp hentry
  obtain ⟨factor, m, rfl⟩ := hwrapped key (List.mem_map_of_mem hmem)
  rw [loraImage_peftKey]
  exact ⟨factor, m, rfl, hmem⟩

theorem mem_loraImage_iff {factor : LoraFactor} {m : Name} {T : Tensor K} :
    (factor.key m, T) ∈ peft.entries.map loraImage ↔ (factor.peftKey m, T) ∈ peft.entries := by
  constructor
  · intro hentry
    obtain ⟨factor', m', hkey, hmem⟩ := mem_loraImage_cases hwrapped hentry
    obtain ⟨rfl, rfl⟩ := LoraFactor.key_injective hkey
    exact hmem
  · intro hmem
    rw [← loraImage_peftKey]
    exact List.mem_map_of_mem hmem

end Wrapped

/-- Both parts of an adapter under their roles. -/
def merged (hedgehog lora : List (Name × Tensor K)) : List (Name × Tensor K) :=
  hedgehog.map (addRole "hedgehog.".toList) ++ lora.map (addRole "lora.".toList)

theorem buildAdapter_entries (hkeys : ∀ key ∈ distill.keys, ¬ hfToSglang.2 <:+: key)
    (hok : convertLora peft = .ok converted) : ∃ tensors, buildAdapter distill peft = .ok tensors ∧
      tensors.entries =
        merged (distill.entries.map hedgehogImage) (peft.entries.map loraImage) := by
  refine ⟨(convertHedgehog distill).update converted, ?_, ?_⟩
  · rw [buildAdapter, hok]
    rfl
  · rw [Dict.entries_update, entries_convertHedgehog hkeys, entries_convertLora hok, merged]
    unfold Dict.keys
    refine (convertHedgehog distill).nodup.append converted.nodup ?_
    -- `update` overwrites nothing: the roles keep the two parts apart
    rw [entries_convertHedgehog hkeys, entries_convertLora hok]
    intro key hhedgehog hlora
    obtain ⟨entry, hentry, rfl⟩ := List.mem_map.mp hhedgehog
    obtain ⟨source, -, rfl⟩ := List.mem_map.mp hentry
    obtain ⟨other, hother, hsame⟩ := List.mem_map.mp hlora
    obtain ⟨source', -, rfl⟩ := List.mem_map.mp hother
    exact not_lora_isPrefix ⟨source'.1, hsame⟩

theorem withRole_hedgehog (hedgehog lora : List (Name × Tensor K)) :
    withRole "hedgehog.".toList (merged hedgehog lora) = hedgehog := by
  rw [merged, withRole_append, withRole_addRole, withRole_other (fun _ => not_hedgehog_isPrefix),
    List.append_nil]

theorem withRole_lora (hedgehog lora : List (Name × Tensor K)) :
    withRole "lora.".toList (merged hedgehog lora) = lora := by
  rw [merged, withRole_append, withRole_other (fun _ => not_lora_isPrefix), withRole_addRole,
    List.nil_append]

theorem unknownKeys_of_merged {adapter hedgehog lora : List (Name × Tensor K)}
    (hadapter : adapter.Perm (merged hedgehog lora)) : unknownKeys adapter = [] := by
  rw [unknownKeys, List.filter_eq_nil_iff]
  intro key hkey hunknown
  have hneither := of_decide_eq_true hunknown
  obtain ⟨entry, hentry, rfl⟩ := List.mem_map.mp hkey
  rcases List.mem_append.mp (hadapter.mem_iff.mp hentry) with hmem | hmem
  · obtain ⟨source, -, rfl⟩ := List.mem_map.mp hmem
    exact hneither.1 (List.prefix_append _ source.1)
  · obtain ⟨source, -, rfl⟩ := List.mem_map.mp hmem
    exact hneither.2 (List.prefix_append _ source.1)

end Entries

section Survive

variable [Zero K]

/-- What `load_weights` finds in an adapter of the two state dicts: no key without a role, every
parameter of the distillation under its own name, and every factor of PEFT under its weight. -/
structure KeysSurvive (distill peft : StateDict K) (adapter : List (Name × Tensor K)) : Prop where
  noUnknownRole : unknownKeys adapter = []
  hedgehog : (withRole "hedgehog.".toList adapter).Perm (distill.entries.map (fun entry =>
    (replaceAll ".linear_attention.".toList ".hybrid_core.".toList entry.1,
      if ".alpha".toList <:+ entry.1 then entry.2.flatten else entry.2)))
  distinct : ∀ key ∈ distill.keys, ∀ other ∈ distill.keys,
    replaceAll ".linear_attention.".toList ".hybrid_core.".toList key =
      replaceAll ".linear_attention.".toList ".hybrid_core.".toList other → key = other
  wrapped : ∀ key ∈ peft.keys, IsPeftKey key
  lora : ∃ pairs, groupPairs (withRole "lora.".toList adapter) = .ok pairs ∧
    ∀ (name : Name) (factor : LoraFactor) (T : Tensor K),
      (pairAt pairs name).get factor = some T ↔
        ∃ m, name = weightName m ∧ (factor.peftKey m, T) ∈ peft.entries

variable {distill peft : StateDict K} {adapter : List (Name × Tensor K)}

theorem KeysSurvive.of_merged
    (hkeys : ∀ key ∈ distill.keys, ¬ hfToSglang.2 <:+: key)
    (hwrapped : ∀ key ∈ peft.keys, IsPeftKey key)
    (hnodup : (adapter.map Prod.fst).Nodup)
    (hadapter : adapter.Perm
      (merged (distill.entries.map hedgehogImage) (peft.entries.map loraImage))) :
    KeysSurvive distill peft adapter := by
  have hparts := withRole_perm "hedgehog.".toList hadapter
  rw [withRole_hedgehog] at hparts
  have hfactors := withRole_perm "lora.".toList hadapter
  rw [withRole_lora] at hfactors
  refine ⟨unknownKeys_of_merged hadapter, hparts, ?_, hwrapped, ?_⟩
  · intro key hkey other hother hsame
    exact sglangName_inj (hkeys key hkey) (hkeys other hother) hsame
  · obtain ⟨pairs, hpairs⟩ : ∃ pairs, groupPairs (withRole "lora.".toList adapter) = .ok pairs := by
      apply exists_groupPairs
      intro entry hentry
      obtain ⟨factor, m, hkey, -⟩ := mem_loraImage_cases hwrapped (hfactors.mem_iff.mp hentry)
      exact ⟨factor, m, hkey⟩
    refine ⟨pairs, hpairs, ?_⟩
    intro name factor T
    simp only [groupPairs_factor_iff (nodup_withRole hnodup) hpairs, hfactors.mem_iff,
      mem_loraImage_iff hwrapped]

theorem KeysSurvive.mem_hedgehog (survive : KeysSurvive distill peft adapter) {key : Name}
    {T : Tensor K} (hmem : (key, T) ∈ distill.entries) :
    hedgehogImage (key, T) ∈ withRole "hedgehog.".toList adapter :=
  survive.hedgehog.mem_iff.mpr (List.mem_map_of_mem hmem)

theorem KeysSurvive.mem_lora (survive : KeysSurvive distill peft adapter)
    (hnodup : (adapter.map Prod.fst).Nodup) {factor : LoraFactor} {m : Name} {T : Tensor K}
    (hmem : (factor.peftKey m, T) ∈ peft.entries) :
    ("lora.".toList ++ factor.key m, T) ∈ adapter := by
  obtain ⟨pairs, hpairs, hgrouped⟩ := survive.lora
  have hget := (hgrouped (weightName m) factor T).mpr ⟨m, rfl, hmem⟩
  obtain ⟨stem, hname, hkey⟩ := (groupPairs_factor_iff (nodup_withRole hnodup) hpairs).mp hget
  cases weightName_injective hname
  exact mem_withRole.mp hkey

end Survive

section Load

variable [Field K] {config : LoadConfig} {distill peft : StateDict K}
  {adapter : List (Name × Tensor K)} {base result : Params K}

/-- What the distillation stored under a key reaches the parameter of the served model. -/
theorem KeysSurvive.loadAdapter_parameter (survive : KeysSurvive distill peft adapter)
    (hnodup : (adapter.map Prod.fst).Nodup) (hok : loadAdapter config base adapter = .ok result)
    {key : Name} {T : Tensor K} {param : Param K} (hmem : (key, T) ∈ distill.entries)
    (hparam : base (sglangName key) = some param) (hname : ∀ m, sglangName key ≠ weightName m) :
    ∃ data, hedgehogData config (sglangName key) param.data.shape (hedgehogImage (key, T)).2 =
        .ok data ∧ result (sglangName key) = some { param with data } := by
  obtain ⟨copied, hcopied, hmerged⟩ := loadAdapter_cases hok
  obtain ⟨data, hdata, hcopy⟩ := loadHedgehog_param hcopied (nodup_withRole hnodup)
    (survive.mem_hedgehog hmem) hparam
  exact ⟨data, hdata, (mergeLora_of_ne_weightName hmerged hname).trans hcopy⟩

omit [Field K] in
theorem hedgehogData_of_single [Zero K] (hsingle : config.tpSize ≤ 1) {name : Name}
    {shape : List Nat} {T data : Tensor K} (hok : hedgehogData config name shape T = .ok data) :
    T.reshape shape = some data := by
  have hwhole : ¬ (T.shape ≠ shape ∧ 1 < config.tpSize) := fun hshard => hshard.2.not_ge hsingle
  simp only [hedgehogData, if_neg hwhole] at hok
  split_ifs at hok with hshape
  · cases hok
    rw [← hshape]
    exact T.reshape_self
  · cases hreshape : T.reshape shape with
    | none =>
        rw [hreshape] at hok
        cases hok
    | some U =>
        rw [hreshape] at hok
        cases hok
        rfl

/-- On one rank the parameter holds the tensor of the distillation in its own shape. -/
theorem KeysSurvive.loadAdapter_parameter_single (survive : KeysSurvive distill peft adapter)
    (hnodup : (adapter.map Prod.fst).Nodup) (hok : loadAdapter config base adapter = .ok result)
    (hsingle : config.tpSize ≤ 1) {key : Name} {T : Tensor K} {param : Param K}
    (hmem : (key, T) ∈ distill.entries) (hparam : base (sglangName key) = some param)
    (hname : ∀ m, sglangName key ≠ weightName m) :
    ∃ data, T.reshape param.data.shape = some data ∧
      result (sglangName key) = some { param with data } := by
  obtain ⟨data, hdata, hresult⟩ :=
    survive.loadAdapter_parameter hnodup hok hmem hparam hname
  have hreshape := hedgehogData_of_single hsingle hdata
  rw [reshape_hedgehogImage] at hreshape
  exact ⟨data, hreshape, hresult⟩

/-- The factors that PEFT stored for a module are merged into its weight. -/
theorem KeysSurvive.loadAdapter_weight (survive : KeysSurvive distill peft adapter)
    (hnodup : (adapter.map Prod.fst).Nodup) (hok : loadAdapter config base adapter = .ok result)
    {m : Name} {A B : Tensor K} {param : Param K} (hA : (LoraFactor.A.peftKey m, A) ∈ peft.entries)
    (hB : (LoraFactor.B.peftKey m, B) ∈ peft.entries)
    (hother : ∀ key ∈ distill.keys, sglangName key ≠ weightName m)
    (hparam : base (weightName m) = some param) :
    ∃ product, B.matmul A = some product ∧ result (weightName m) = some { param with
      data := mergedData config (weightName m) param.data
        (product.scale (loraScaling config)) } := by
  refine loadAdapter_param hok hnodup (survive.mem_lora hnodup hA) (survive.mem_lora hnodup hB) ?_
    hparam
  intro hkey
  obtain ⟨⟨name, T⟩, hentry, hname⟩ := List.mem_map.mp hkey
  cases hname
  obtain ⟨source, hsource, hsame⟩ :=
    List.mem_map.mp (survive.hedgehog.mem_iff.mp (mem_withRole.mpr hentry))
  exact hother source.1 (List.mem_map_of_mem hsource) (congrArg Prod.fst hsame)

end Load

/-- The split of the adapter, in whatever order its file is read back, loses and confuses nothing
of the two state dicts it was built from. -/
theorem buildAdapter_keysSurvive [Zero K] {distill peft converted : StateDict K}
    (hkeys : ∀ key ∈ distill.keys, ¬ ".hybrid_core.".toList <:+: key)
    (haccepted : convertLora peft = .ok converted) :
    ∃ tensors, buildAdapter distill peft = .ok tensors ∧
      ∀ adapter : List (Name × Tensor K), adapter.Perm tensors.entries →
        KeysSurvive distill peft adapter := by
  obtain ⟨tensors, hbuild, hentries⟩ := buildAdapter_entries hkeys haccepted
  refine ⟨tensors, hbuild, ?_⟩
  intro adapter hadapter
  have hnodup : (adapter.map Prod.fst).Nodup :=
    (hadapter.map Prod.fst).nodup_iff.mpr tensors.nodup
  rw [hentries] at hadapter
  exact .of_merged hkeys (convertLora_isOk_iff.mp ⟨converted, haccepted⟩) hnodup hadapter

/-! One gate with two heads and the factors of one projection. -/

namespace TwoHeads

def alphaKey : Name := "model.layers.1.attention.linear_attention.alpha".toList

def stem : Name := "model.layers.1.attention.dense".toList

def distill : StateDict Int := Dict.empty.set alphaKey (.ofFn [1, 2, 1, 1] (fun _ => 1))

def peft : StateDict Int :=
  (Dict.empty.set (LoraFactor.A.peftKey stem) (.ofFn [1, 2] (fun _ => 1))).set
    (LoraFactor.B.peftKey stem) (.ofFn [2, 1] (fun _ => 1))

theorem exists_converted : ∃ converted, convertLora peft = .ok converted := by
  apply convertLora_isOk_iff.mpr
  intro key hkey
  rcases Dict.mem_keys_set.mp hkey with hkey | rfl
  · rcases Dict.mem_keys_set.mp hkey with hkey | rfl
    · cases hkey
    · exact ⟨.A, stem, rfl⟩
  · exact ⟨.B, stem, rfl⟩

theorem keysSurvive_twoHeads :
    (∀ key ∈ distill.keys, ¬ ".hybrid_core.".toList <:+: key) ∧
      (∃ converted, convertLora peft = .ok converted) ∧
      ∃ tensors, buildAdapter distill peft = .ok tensors ∧
        ∀ adapter : List (Name × Tensor Int), adapter.Perm tensors.entries →
          KeysSurvive distill peft adapter := by
  have hkeys : ∀ key ∈ distill.keys, ¬ ".hybrid_core.".toList <:+: key := by
    intro key hkey
    rcases Dict.mem_keys_set.mp hkey with hkey | rfl
    · cases hkey
    · decide +kernel
  obtain ⟨converted, haccepted⟩ := exists_converted
  exact ⟨hkeys, ⟨converted, haccepted⟩, buildAdapter_keysSurvive hkeys haccepted⟩

end TwoHeads

end LladaHybrid.Loading
