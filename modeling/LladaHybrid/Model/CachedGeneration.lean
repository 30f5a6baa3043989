import LladaHybrid.Generate.BackendAgreement
import LladaHybrid.Model.PrefixCache

namespace LladaHybrid.Model

open LladaHybrid.Library LladaHybrid.Decode LladaHybrid.Generate LladaHybrid.Attention

/-! Generation through the prefix cache gives the tokens of generation without it. -/

variable {X : Type*} {D F V B N P : Nat} {K : Type*} [Field K] [LinearOrder K] [ExpOps K]
  [Add X] [NeZero B]

namespace Transformer

variable (model : Transformer X D F V K)

/-- The cache stands for the first `n` blocks of a row. -/
def CacheHolds (x : Tokens B V) (n : Nat) (cache : BlockDiffusionCache D F K) : Prop :=
  LayersHeld B n cache 0 model.layers (fun t => model.wordEmbeddings (tokenAt x t))

theorem layersHeld_initPrefixCache {layers : List (DecoderLayer X D F K)} {layerIdx : Nat}
    (hsuffix : model.layers.drop layerIdx = layers) (hidden : Nat → X) :
    LayersHeld B 0 model.initPrefixCache layerIdx layers hidden := by
  induction layers generalizing layerIdx hidden with
  | nil => trivial
  | cons layer layers ih =>
      have hlayer : model.layers[layerIdx]? = some layer := by
        rw [← List.head?_drop, hsuffix]
        rfl
      refine ⟨?_, ih ?_ _⟩
      · unfold LayerHeld
        cases hlinear : layer.linearAttention with
        | some params =>
            simp only [initPrefixCache, hlayer, hlinear, Option.map_some]
            rfl
        | none => exact Nat.zero_mul B
      · rw [← List.tail_drop, hsuffix]
        rfl

theorem cacheHolds_initPrefixCache (x : Tokens B V) :
    model.CacheHolds x 0 model.initPrefixCache :=
  model.layersHeld_initPrefixCache rfl _

theorem block_eq_tokenAt (x : Tokens B V) (n : Nat) {j : Nat} (hj : j < B) :
    x n (Fin.ofNat B j) = tokenAt x (n * B + j) := by
  have hblock : (n * B + j) / B = n := block_div n ⟨j, hj⟩
  have hrow : Fin.ofNat B (n * B + j) = ⟨j, hj⟩ := block_row n ⟨j, hj⟩
  have hfirst : Fin.ofNat B j = ⟨j, hj⟩ := Fin.ext (Nat.mod_eq_of_lt hj)
  rw [tokenAt, hblock, hrow, hfirst]

variable {model} {x y : Tokens B V} {n : Nat} {cache : BlockDiffusionCache D F K}

theorem CacheHolds.congr (holds : model.CacheHolds x n cache) (hsame : ∀ m < n, x m = y m) :
    model.CacheHolds y n cache := by
  apply LayersHeld.congr holds
  intro t ht
  have hblock : t / B < n := (Nat.div_lt_iff_lt_mul (NeZero.pos B)).mpr ht
  rw [tokenAt, tokenAt, hsame _ hblock]

theorem CacheHolds.forwardBlock_read (holds : model.CacheHolds x n cache) :
    (model.forwardBlock B .read cache n (x n)).1 =
      model.forwardWindow B n (window x n) := by
  rw [forwardWindow_eq_causalHidden]
  funext j
  have hhidden := forwardLayersWithPrefixCache_hidden .read holds
    (fun j hj => congrArg model.wordEmbeddings (block_eq_tokenAt x n hj)) j.isLt
  exact congrArg model.logits hhidden

theorem CacheHolds.forwardBlock_commit (holds : model.CacheHolds x n cache) :
    model.CacheHolds x (n + 1) (model.forwardBlock B .commit cache n (x n)).2 :=
  forwardLayersWithPrefixCache_commit holds
    (fun _ hj => congrArg model.wordEmbeddings (block_eq_tokenAt x n hj))

theorem forwardBlock_read_cache (block : Block B V) :
    (model.forwardBlock B .read cache n block).2 = cache :=
  forwardLayersWithPrefixCache_read (n * B) B

variable (model)

theorem uncached_agree_cached (N : Nat) :
    Agree ((model.languageModel B B).uncached N) ((model.languageModel B B).cached N)
      (fun n x _ caches => ∀ r, model.CacheHolds (x r) n (caches r)) := by
  constructor
  · intro x r
    exact model.cacheHolds_initPrefixCache (x r)
  · intro n x y _ caches holds hsame r
    exact (holds r).congr (fun m hm => hsame r m hm)
  · intro n x _ caches holds
    funext r
    exact (holds r).forwardBlock_read.symm
  · intro n x _ caches holds r
    exact (holds r).forwardBlock_commit

/-- With `block_length` equal to `config.block_size`, generation with the cache and
without it agree: reads leave the cache alone and a commit extends it by its block. -/
theorem generate_useKvCache_eq [TopK K] [NeZero V] (args : GenerateArgs V K)
    (prompt : Fin N → Fin P → Fin V) :
    (model.languageModel B B).generate args true prompt =
        (model.languageModel B B).generate args false prompt ∧
      (∀ (cache : BlockDiffusionCache D F K) (numBlock : Nat) (block : Block B V),
        (model.forwardBlock B .read cache numBlock block).2 = cache) ∧
      ∀ (x : Tokens B V) (n : Nat) (cache : BlockDiffusionCache D F K),
        model.CacheHolds x n cache →
        model.CacheHolds x (n + 1) (model.forwardBlock B .commit cache n (x n)).2 := by
  refine ⟨?_, fun cache n block => forwardBlock_read_cache block, ?_⟩
  · exact ((model.uncached_agree_cached N).generateWith prompt).symm
  · intro x n cache holds
    exact holds.forwardBlock_commit

end Transformer

/-- A softmax layer followed by a hybrid one, on one head of dimension one. -/
def twoLayerModel (K : Type*) [Field K] : Transformer K 1 1 2 K where
  wordEmbeddings token := token.val + 1
  layers := [plain none, plain (some ⟨1, 1, false, 1, fun _ _ _ => 1, fun _ => 0⟩)]
  norm := id
  lmHead x token := x * token.val
where
  plain (linearAttention : Option (HybridParams 1 1 K)) : DecoderLayer K 1 1 K :=
    { inputLayernorm := id
      queryKeyValue := fun x => ⟨fun _ _ => x, fun _ _ => x, fun _ _ => x⟩
      applyRotaryPosEmb := fun position states =>
        { states with query := fun h d => states.query h d + position }
      numKeyValueGroups := 1
      scaling := 1
      linearAttention
      dense := fun heads => heads 0 (Fin.last 0)
      postAttentionLayernorm := id
      mlp := id }

/-- A prompt that ends inside a block of two, continued for five tokens. -/
theorem generate_useKvCache_eq_twoLayerModel :
    let args : GenerateArgs 2 ℝ :=
      { steps := 4, genLength := 5, minimalTopk := 1, threshold := ((7 / 10 : ℝ) : WithTop ℝ),
        editingThreshold := ((1 / 2 : ℝ) : WithTop ℝ), maxPostSteps := 2, numToTransfer := 1,
        eosEarlyStop := true, eosId := some 0, maskId := 1, repetitionPenalty := 1 }
    let prompt : Fin 2 → Fin 3 → Fin 2 := fun _ _ => 0
    ((twoLayerModel ℝ).languageModel 2 2).generate args true prompt =
      ((twoLayerModel ℝ).languageModel 2 2).generate args false prompt := by
  intro args prompt
  exact ((twoLayerModel ℝ).generate_useKvCache_eq args prompt).1

end LladaHybrid.Model
