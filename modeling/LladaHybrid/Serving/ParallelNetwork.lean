import LladaHybrid.Serving.ParallelLayers

namespace LladaHybrid.Serving

open LladaHybrid.Library LladaHybrid.Decode LladaHybrid.Attention LladaHybrid.Loading
open LladaHybrid.Model

/-! The served network on several ranks. `LLaDA2MoeBlock` carries the residual beside the
hidden states and adds it in the next norm, and the ranks meet in the reductions after the
embedding, the attention and the feed-forward layer of every block and in the gather of the
logits. Every rank then has the logits of the PyTorch model, and its cache holds the heads of
the rank. -/

variable {D F : Nat} {K : Type*} (tp : TensorParallel)

/-! What a rank has of the heads of the whole layer. -/

def globalKvHead (rank : Fin tp.tpSize) (h : Nat) : Nat :=
  (tp.qkvLayer 0 0 rank).shardId .k * tp.localKvHeads + h

theorem globalKvHead_group (rank : Fin tp.tpSize) {h : Nat} (hh : h < tp.localHeads) :
    globalKvHead tp rank (h / (tp.localHeads / tp.localKvHeads)) =
      tp.globalHead rank h / (tp.numHeads / tp.numKvHeads) :=
  tp.kvHead_eq 0 0 rank hh

structure StatesSlice (rank : Fin tp.tpSize) (states whole : QkvStates D K) : Prop where
  query : ∀ h < tp.localHeads, states.query h = whole.query (tp.globalHead rank h)
  key : ∀ h < tp.localKvHeads, states.key h = whole.key (globalKvHead tp rank h)
  value : ∀ h < tp.localKvHeads, states.value h = whole.value (globalKvHead tp rank h)

structure KvSlice (rank : Fin tp.tpSize) (kv whole : KvStates D K) : Prop where
  length : kv.length = whole.length
  key : ∀ t, ∀ h < tp.localKvHeads, kv.key t h = whole.key t (globalKvHead tp rank h)
  value : ∀ t, ∀ h < tp.localKvHeads, kv.value t h = whole.value t (globalKvHead tp rank h)

/-- The cache of a rank holds its key/value heads and the states of its query heads. -/
structure CacheSlice (rank : Fin tp.tpSize) (cache whole : BlockDiffusionCache D F K) :
    Prop where
  kv : ∀ layerIdx, Option.Rel (KvSlice tp rank) (cache.kvCache layerIdx) (whole.kvCache layerIdx)
  state : ∀ layerIdx, Option.Rel
    (fun states wholeStates => ∀ h < tp.localHeads, states h = wholeStates (tp.globalHead rank h))
    (cache.recurrentState layerIdx) (whole.recurrentState layerIdx)

variable {tp} {rank : Fin tp.tpSize}

theorem KvSlice.kvStates {states whole : Nat → QkvStates D K}
    (slice : ∀ t, StatesSlice tp rank (states t) (whole t)) (length : Nat) :
    KvSlice tp rank (kvStates length states) (kvStates length whole) where
  length := rfl
  key t := (slice t).key
  value t := (slice t).value

theorem KvSlice.cat {past new wholePast wholeNew : KvStates D K}
    (hpast : KvSlice tp rank past wholePast) (hnew : KvSlice tp rank new wholeNew) :
    KvSlice tp rank (past.cat new) (wholePast.cat wholeNew) where
  length := congrArg₂ (· + ·) hpast.length hnew.length
  key t h hh := by
    simp only [KvStates.cat, hpast.length]
    split_ifs
    · exact hpast.key t h hh
    · exact hnew.key _ h hh
  value t h hh := by
    simp only [KvStates.cat, hpast.length]
    split_ifs
    · exact hpast.value t h hh
    · exact hnew.value _ h hh

theorem KvSlice.appendRows {past wholePast : Option (KvStates D K)} {new wholeNew : KvStates D K}
    (hpast : Option.Rel (KvSlice tp rank) past wholePast) (hnew : KvSlice tp rank new wholeNew) :
    KvSlice tp rank (appendRows past new) (appendRows wholePast wholeNew) := by
  cases hpast with
  | none => exact hnew
  | some hpast => exact hpast.cat hnew

theorem KvSlice.headKeys {kv whole : KvStates D K} (slice : KvSlice tp rank kv whole) {h : Nat}
    (hh : h < tp.localHeads) :
    kv.headKeys (tp.localHeads / tp.localKvHeads) h =
      whole.headKeys (tp.numHeads / tp.numKvHeads) (tp.globalHead rank h) := by
  funext t
  simp only [KvStates.headKeys, repeatKv, ← globalKvHead_group tp rank hh]
  exact slice.key t _ (LoadedRank.kvHead_lt hh)

theorem KvSlice.headValues {kv whole : KvStates D K} (slice : KvSlice tp rank kv whole) {h : Nat}
    (hh : h < tp.localHeads) :
    kv.headValues (tp.localHeads / tp.localKvHeads) h =
      whole.headValues (tp.numHeads / tp.numKvHeads) (tp.globalHead rank h) := by
  funext t
  simp only [KvStates.headValues, repeatKv, ← globalKvHead_group tp rank hh]
  exact slice.value t _ (LoadedRank.kvHead_lt hh)

theorem CacheSlice.updateKv {cache whole : BlockDiffusionCache D F K}
    (hcache : CacheSlice tp rank cache whole) (layerIdx : Nat) {new wholeNew : KvStates D K}
    (hnew : KvSlice tp rank new wholeNew) :
    CacheSlice tp rank (cache.updateKv layerIdx new) (whole.updateKv layerIdx wholeNew) where
  kv i := by
    by_cases hi : i = layerIdx
    · subst hi
      simp only [BlockDiffusionCache.updateKv, Function.update_self]
      exact .some (KvSlice.appendRows (hcache.kv i) hnew)
    · simp only [BlockDiffusionCache.updateKv, Function.update_of_ne hi]
      exact hcache.kv i
  state := hcache.state

theorem CacheSlice.updateRecurrentState {cache whole : BlockDiffusionCache D F K}
    (hcache : CacheSlice tp rank cache whole) (layerIdx : Nat)
    {states wholeStates : Nat → RecurrentState D F K}
    (hstates : ∀ h < tp.localHeads, states h = wholeStates (tp.globalHead rank h)) :
    CacheSlice tp rank (cache.updateRecurrentState layerIdx states)
      (whole.updateRecurrentState layerIdx wholeStates) where
  kv := hcache.kv
  state i := by
    by_cases hi : i = layerIdx
    · subst hi
      simp only [BlockDiffusionCache.updateRecurrentState, Function.update_self]
      exact .some hstates
    · simp only [BlockDiffusionCache.updateRecurrentState, Function.update_of_ne hi]
      exact hcache.state i

section Attention

variable [Field K] [ExpOps K] (layer : LayerWeights D F K) (hiddenSize : Nat)

variable [LinearOrder K] (S : Nat) [NeZero S]

end Attention

/-! The network. -/

/-- The weights of the network, with the sizes that the constructors of its layers divide by
the ranks. -/
structure NetworkWeights (tp : TensorParallel) (D F V : Nat) (K : Type*) [Zero K] where
  hiddenSize : Nat
  wordEmbeddings : Nat → Nat → K
  layers : List (LayerWeights D F K)
  norm : (Nat → K) → Nat → K
  lmHead : Nat → Nat → K
  divide_vocab : tp.tpSize ∣ padVocabSize V 64
  divide_mlp : ∀ layer ∈ layers, layer.mlp.Divides tp.tpSize

/-- What a rank carries from layer to layer, by position. -/
structure RankState (X : Type*) (D F : Nat) (K : Type*) where
  hidden : Nat → X
  residual : Option (Nat → X)
  cache : BlockDiffusionCache D F K

namespace RankState

variable {X : Type*} [AddCommMonoid X] {n : Nat}

section Layer

variable [Field K] [LinearOrder K] [ExpOps K] (S : Nat) [NeZero S] (mode : CacheMode)
  (start length layerIdx : Nat)

def mlp (layer : DecoderLayer X D F K) (s : RankState X D F K) : RankState X D F K :=
  { s with hidden := fun p => layer.mlp (s.hidden p) }

end Layer

end RankState

section Network

variable [Field K] [LinearOrder K] [ExpOps K]

namespace LayerWeights

variable (S : Nat) [NeZero S] (mode : CacheMode) (start length layerIdx hiddenSize : Nat)

end LayerWeights

namespace NetworkWeights

variable {V : Nat}

abbrev vocab (net : NetworkWeights tp D F V K) : VocabParallel := ⟨V, tp.tpSize, net.divide_vocab⟩

section Forward

variable (S : Nat) [NeZero S] (mode : CacheMode) (start length : Nat)

end Forward

variable {B : Nat} [NeZero B] (net : NetworkWeights tp D F V K) (S : Nat) [NeZero S]

/-- One call of the model: `read` passes denoise a block, a `commit` pass stores it. -/
structure ForwardCall (B V : Nat) where
  mode : CacheMode
  numBlock : Nat
  block : Block B V

end NetworkWeights

end Network

end LladaHybrid.Serving
