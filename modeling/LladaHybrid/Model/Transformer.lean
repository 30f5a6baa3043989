import LladaHybrid.Attention.HybridAttention
import LladaHybrid.Generate.RowIndependence

namespace LladaHybrid.Model

open LladaHybrid.Library LladaHybrid.Decode LladaHybrid.Generate LladaHybrid.Attention

/-! `LLaDA2MoeModelLM.forward` on one row of a batch, with and without a
`BlockDiffusionCache`. A sequence is a length and a function of the position, of which
only the positions below the length are ever read. -/

variable {X : Type*} {D F V B : Nat} {K : Type*}

structure QkvStates (D : Nat) (K : Type*) where
  query : Nat → Vec D K
  key : Nat → Vec D K
  value : Nat → Vec D K

/-- A layer with arbitrary sublayers on single tokens. `linearAttention` is present in
the layers where it is active. -/
structure DecoderLayer (X : Type*) (D F : Nat) (K : Type*) where
  inputLayernorm : X → X
  queryKeyValue : X → QkvStates D K
  applyRotaryPosEmb : Nat → QkvStates D K → QkvStates D K
  numKeyValueGroups : Nat
  scaling : K
  linearAttention : Option (HybridParams D F K)
  dense : (Nat → Vec D K) → X
  postAttentionLayernorm : X → X
  mlp : X → X

structure Transformer (X : Type*) (D F V : Nat) (K : Type*) where
  wordEmbeddings : Fin V → X
  layers : List (DecoderLayer X D F K)
  norm : X → X
  lmHead : X → Fin V → K

structure KvStates (D : Nat) (K : Type*) where
  length : Nat
  key : Nat → Nat → Vec D K
  value : Nat → Nat → Vec D K

/-- `torch.cat` along the positions. -/
def KvStates.cat (past new : KvStates D K) : KvStates D K where
  length := past.length + new.length
  key i := if i < past.length then past.key i else new.key (i - past.length)
  value i := if i < past.length then past.value i else new.value (i - past.length)

def appendRows (past : Option (KvStates D K)) (new : KvStates D K) : KvStates D K :=
  match past with
  | none => new
  | some past => past.cat new

/-- `repeat_kv` followed by the split into heads. -/
def KvStates.headKeys (kv : KvStates D K) (groups h : Nat) : Nat → Vec D K :=
  repeatKv groups (fun kvHead t => kv.key t kvHead) h

def KvStates.headValues (kv : KvStates D K) (groups h : Nat) : Nat → Vec D K :=
  repeatKv groups (fun kvHead t => kv.value t kvHead) h

def kvStates (length : Nat) (states : Nat → QkvStates D K) : KvStates D K where
  length
  key t := (states t).key
  value t := (states t).value

structure BlockDiffusionCache (D F : Nat) (K : Type*) where
  kvCache : Nat → Option (KvStates D K)
  recurrentState : Nat → Option (Nat → RecurrentState D F K)

namespace BlockDiffusionCache

def updateKv (cache : BlockDiffusionCache D F K) (layerIdx : Nat) (new : KvStates D K) :
    BlockDiffusionCache D F K where
  kvCache := Function.update cache.kvCache layerIdx
    (some (appendRows (cache.kvCache layerIdx) new))
  recurrentState := cache.recurrentState

def updateRecurrentState (cache : BlockDiffusionCache D F K) (layerIdx : Nat)
    (state : Nat → RecurrentState D F K) : BlockDiffusionCache D F K where
  kvCache := cache.kvCache
  recurrentState := Function.update cache.recurrentState layerIdx (some state)

end BlockDiffusionCache

inductive CacheMode
  | read
  | commit

section Forward

variable [Field K] [LinearOrder K] [ExpOps K]

/-- `eager_attention_forward` of one query: the softmax over the visible keys. -/
def eagerAttention (scaling : K) (query : Vec D K) (key value : Nat → Vec D K)
    (visible : Finset Nat) : Vec D K :=
  let score := fun t => (∑ d, query d * key t d) * scaling
  fun d => ∑ t ∈ visible, exp (score t) / (∑ u ∈ visible, exp (score u)) * value t d

/-- The block mask of `generate`, by query and key position. -/
def blockDiffusionAttentionMask (blockLength p t : Nat) : Bool :=
  decide (t / blockLength ≤ p / blockLength)

namespace DecoderLayer

variable (layer : DecoderLayer X D F K) (S : Nat) [NeZero S]

def qkvStates (position : Nat) (x : X) : QkvStates D K :=
  layer.applyRotaryPosEmb position (layer.queryKeyValue (layer.inputLayernorm x))

def headTokens (length : Nat) (states : Nat → QkvStates D K) (h : Nat) : HeadTokens D K where
  length
  q t := (states t).query h
  k := (kvStates length states).headKeys layer.numKeyValueGroups h
  v := (kvStates length states).headValues layer.numKeyValueGroups h

def softmaxAttention (states : QkvStates D K) (kv : KvStates D K) (mask : Nat → Bool)
    (h : Nat) : Vec D K :=
  eagerAttention layer.scaling (states.query h) (kv.headKeys layer.numKeyValueGroups h)
    (kv.headValues layer.numKeyValueGroups h)
    ((Finset.range kv.length).filter (fun t => mask t))

/-- The attention heads at a position, without a cache. -/
def attend (mask : Nat → Nat → Bool) (length : Nat) (states : Nat → QkvStates D K)
    (p h : Nat) : Vec D K :=
  match layer.linearAttention with
  | some params => (forward params S (layer.headTokens length states) none none).1 h p
  | none => layer.softmaxAttention (states p) (kvStates length states) (mask p) h

/-- The output projection, the MLP and the two residuals. -/
def residualOutput [Add X] (x : X) (heads : Nat → Vec D K) : X :=
  let attended := x + layer.dense heads
  attended + layer.mlp (layer.postAttentionLayernorm attended)

/-- `_forward_with_prefix_cache`: the heads of the current positions and the cache. -/
def attendWithPrefixCache (layerIdx : Nat) (mode : CacheMode) (length : Nat)
    (states : Nat → QkvStates D K) (cache : BlockDiffusionCache D F K) :
    (Nat → Nat → Vec D K) × BlockDiffusionCache D F K :=
  match layer.linearAttention with
  | some params =>
      let result := forward params S (layer.headTokens length states) none
        (cache.recurrentState layerIdx)
      (fun p h => result.1 h p,
        match mode with
        | .read => cache
        | .commit => cache.updateRecurrentState layerIdx result.2)
  | none =>
      let kvAll := appendRows (cache.kvCache layerIdx) (kvStates length states)
      (fun p h => layer.softmaxAttention (states p) kvAll (fun _ => true) h,
        match mode with
        | .read => cache
        | .commit => cache.updateKv layerIdx (kvStates length states))

variable [Add X]

def forward (mask : Nat → Nat → Bool) (length : Nat) (hidden : Nat → X) : Nat → X :=
  let states := fun p => layer.qkvStates p (hidden p)
  fun p => layer.residualOutput (hidden p) (layer.attend S mask length states p)

def forwardWithPrefixCache (layerIdx : Nat) (mode : CacheMode) (start length : Nat)
    (hidden : Nat → X) (cache : BlockDiffusionCache D F K) :
    (Nat → X) × BlockDiffusionCache D F K :=
  let states := fun p => layer.qkvStates (start + p) (hidden p)
  let result := layer.attendWithPrefixCache S layerIdx mode length states cache
  (fun p => layer.residualOutput (hidden p) (result.1 p), result.2)

end DecoderLayer

variable [Add X] (S : Nat) [NeZero S]

def forwardLayers (mask : Nat → Nat → Bool) (length : Nat) :
    List (DecoderLayer X D F K) → (Nat → X) → Nat → X
  | [], hidden => hidden
  | layer :: layers, hidden =>
      forwardLayers mask length layers (layer.forward S mask length hidden)

def forwardLayersWithPrefixCache (mode : CacheMode) (start length : Nat) :
    Nat → List (DecoderLayer X D F K) → (Nat → X) → BlockDiffusionCache D F K →
      (Nat → X) × BlockDiffusionCache D F K
  | _, [], hidden, cache => (hidden, cache)
  | layerIdx, layer :: layers, hidden, cache =>
      let result := layer.forwardWithPrefixCache S layerIdx mode start length hidden cache
      forwardLayersWithPrefixCache mode start length (layerIdx + 1) layers result.1 result.2

namespace Transformer

variable (model : Transformer X D F V K)

def logits (x : X) : Fin V → K :=
  model.lmHead (model.norm x)

/-- `forward` over a window under the block mask: the logits of the last block. -/
def forwardWindow [NeZero B] (numBlock : Nat) (x : Fin (numBlock + 1) → Block B V) :
    Logits B V K :=
  let tokens := fun p => x (Fin.ofNat (numBlock + 1) (p / B)) (Fin.ofNat B p)
  let hidden := forwardLayers S (blockDiffusionAttentionMask B) ((numBlock + 1) * B)
    model.layers (fun p => model.wordEmbeddings (tokens p))
  fun j => model.logits (hidden (numBlock * B + j))

/-- `forward` on the tokens of one block through a prefix cache. -/
def forwardBlock [NeZero B] (mode : CacheMode) (cache : BlockDiffusionCache D F K)
    (numBlock : Nat) (block : Block B V) : Logits B V K × BlockDiffusionCache D F K :=
  let result := forwardLayersWithPrefixCache S mode (numBlock * B) B 0 model.layers
    (fun p => model.wordEmbeddings (block (Fin.ofNat B p))) cache
  (fun j => model.logits (result.1 j), result.2)

def initPrefixCache : BlockDiffusionCache D F K where
  kvCache _ := none
  recurrentState layerIdx :=
    match model.layers[layerIdx]? with
    | none => none
    | some layer => layer.linearAttention.map (fun _ _ => RecurrentState.zero)

def rowCache [NeZero B] : RowCache (BlockDiffusionCache D F K) B V K where
  init := model.initPrefixCache
  read cache numBlock block := (model.forwardBlock S .read cache numBlock block).1
  commit cache numBlock block := (model.forwardBlock S .commit cache numBlock block).2

/-- The model on batches, `S` being `config.block_size`. -/
def languageModel (B : Nat) [NeZero B] :
    LanguageModel (fun N => Fin N → BlockDiffusionCache D F K) B V K :=
  LanguageModel.rowwise (fun numBlock => model.forwardWindow S numBlock) (model.rowCache S)

end Transformer

end Forward

end LladaHybrid.Model
