import LladaHybrid.Library.Collective
import LladaHybrid.Loading.TensorParallel
import LladaHybrid.Model.Transformer

namespace LladaHybrid.Serving

open LladaHybrid.Library LladaHybrid.Attention LladaHybrid.Loading LladaHybrid.Model

/-! The layers of the served network on several ranks. Each rank has its heads of the
attention, its part of the intermediate sizes and its part of the vocabulary, and what it
computes adds up with the other ranks' parts to what the whole layer computes. A hidden state
is a function of the column, of which only the columns below the hidden size are read; a
weight is one of the row and the column. -/

variable {D F : Nat} {K : Type*}

section Linear

variable [Field K]

/-- Output `row` of a linear layer. -/
def linear (inputSize : Nat) (weight : Nat → Nat → K) (x : Nat → K) (row : Nat) : K :=
  ∑ j ∈ Finset.range inputSize, weight row j * x j

theorem linear_congr {inputSize : Nat} {x y : Nat → K} (hxy : ∀ j < inputSize, x j = y j)
    (weight : Nat → Nat → K) (row : Nat) :
    linear inputSize weight x row = linear inputSize weight y row :=
  Finset.sum_congr rfl (fun j hj => by rw [hxy j (Finset.mem_range.mp hj)])

/-- The columns of a weight that `RowParallelLinear` loads on a rank. -/
def shardColumns (shardSize rank : Nat) (weight : Nat → Nat → K) (row j : Nat) : K :=
  weight row (rank * shardSize + j)

theorem sum_linear_shardColumns (n shardSize : Nat) (weight : Nat → Nat → K) (x : Nat → K)
    (row : Nat) :
    ∑ rank : Fin n, linear shardSize (shardColumns shardSize rank weight)
        (fun j => x (rank * shardSize + j)) row =
      linear (n * shardSize) weight x row :=
  sum_shards n shardSize (fun j => weight row j * x j)

end Linear

/-! The feed-forward layers. -/

structure MlpWeights (K : Type*) where
  intermediateSize : Nat
  gateProj : Nat → Nat → K
  upProj : Nat → Nat → K
  downProj : Nat → Nat → K

/-- The weights of a mixture of experts. `topk` is the experts of a token with their weights;
the gate that finds them is not split. -/
structure MoeWeights (K : Type*) where
  experts : Nat → MlpWeights K
  sharedExperts : Option (MlpWeights K)
  topk : (Nat → K) → List (Nat × K)

inductive FeedForward (K : Type*)
  | dense (mlp : MlpWeights K)
  | sparse (moe : MoeWeights K)

section FeedForward

variable [Field K] [ExpOps K]

def silu (x : K) : K := x * sigmoid x

namespace MlpWeights

variable (mlp : MlpWeights K) (hiddenSize : Nat)

/-- `LLaDA2MoeMLP.forward` of the PyTorch model. -/
def forward (x : Nat → K) : Nat → K :=
  linear mlp.intermediateSize mlp.downProj (fun i =>
    silu (linear hiddenSize mlp.gateProj x i) * linear hiddenSize mlp.upProj x i)

/-- `gate_up_proj` of a rank: `MergedColumnParallelLinear` loads the rank's rows of the gate
and below them the rank's rows of the other projection. -/
def gateUpProj (tpSize rank row : Nat) : Nat → K :=
  let shardSize := mlp.intermediateSize / tpSize
  if row < shardSize then mlp.gateProj (rank * shardSize + row)
  else mlp.upProj (rank * shardSize + (row - shardSize))

/-- `LLaDA2MoeMLP.forward` of a rank, before its `all_reduce`. -/
def shardForward (tpSize rank : Nat) (x : Nat → K) : Nat → K :=
  let shardSize := mlp.intermediateSize / tpSize
  let gateUp := linear hiddenSize (mlp.gateUpProj tpSize rank) x
  linear shardSize (shardColumns shardSize rank mlp.downProj)
    (fun i => silu (gateUp i) * gateUp (shardSize + i))

theorem sum_shardForward {n : Nat} (hdvd : n ∣ mlp.intermediateSize) (x : Nat → K) (row : Nat) :
    ∑ rank : Fin n, mlp.shardForward hiddenSize n rank x row = mlp.forward hiddenSize x row := by
  have hsize : n * (mlp.intermediateSize / n) = mlp.intermediateSize := Nat.mul_div_cancel' hdvd
  rw [forward, ← congrArg (linear · mlp.downProj _ row) hsize, ← sum_linear_shardColumns]
  refine Finset.sum_congr rfl (fun rank _ => linear_congr (fun i hi => ?_) _ row)
  have hgate : mlp.gateUpProj n rank i = mlp.gateProj (rank * (mlp.intermediateSize / n) + i) :=
    if_pos hi
  have hup : mlp.gateUpProj n rank (mlp.intermediateSize / n + i) =
      mlp.upProj (rank * (mlp.intermediateSize / n) + i) := by
    rw [gateUpProj, if_neg (Nat.not_lt.mpr (Nat.le_add_right _ i)), Nat.add_sub_cancel_left]
  simp only [linear, hgate, hup]

end MlpWeights

namespace MoeWeights

variable (moe : MoeWeights K) (hiddenSize : Nat)

/-- The experts of a token and the shared ones, each by `expert`. -/
def combine (expert : MlpWeights K → (Nat → K) → Nat → K) (x : Nat → K) (row : Nat) : K :=
  ((moe.topk x).map (fun choice => choice.2 * expert (moe.experts choice.1) x row)).sum +
    (moe.sharedExperts.map (fun shared => expert shared x row)).getD 0

def forward (x : Nat → K) : Nat → K :=
  moe.combine (fun mlp => mlp.forward hiddenSize) x

/-- `forward_normal` of a rank, before its `all_reduce`. -/
def shardForward (tpSize rank : Nat) (x : Nat → K) : Nat → K :=
  moe.combine (fun mlp => mlp.shardForward hiddenSize tpSize rank) x

theorem sum_shardForward {n : Nat} (hexperts : ∀ e, n ∣ (moe.experts e).intermediateSize)
    (hshared : ∀ shared ∈ moe.sharedExperts, n ∣ shared.intermediateSize) (x : Nat → K)
    (row : Nat) :
    ∑ rank : Fin n, moe.shardForward hiddenSize n rank x row = moe.forward hiddenSize x row := by
  simp only [shardForward, forward, combine, Finset.sum_add_distrib]
  apply congrArg₂ (· + ·)
  · induction moe.topk x with
    | nil => simp
    | cons choice rest ih =>
        simp only [List.map_cons, List.sum_cons, Finset.sum_add_distrib, ih, ← Finset.mul_sum,
          MlpWeights.sum_shardForward _ hiddenSize (hexperts choice.1)]
  · cases hmoe : moe.sharedExperts with
    | none => simp
    | some shared =>
        simp only [Option.map_some, Option.getD_some]
        exact shared.sum_shardForward hiddenSize (hshared shared hmoe) x row

end MoeWeights

namespace FeedForward

/-- The sizes that the constructors of the parallel layers divide by the ranks. -/
def Divides (n : Nat) : FeedForward K → Prop
  | .dense mlp => n ∣ mlp.intermediateSize
  | .sparse moe => (∀ e, n ∣ (moe.experts e).intermediateSize) ∧
      ∀ shared ∈ moe.sharedExperts, n ∣ shared.intermediateSize

variable (hiddenSize : Nat)

def forward : FeedForward K → (Nat → K) → Nat → K
  | .dense mlp => mlp.forward hiddenSize
  | .sparse moe => moe.forward hiddenSize

def shardForward (tpSize rank : Nat) : FeedForward K → (Nat → K) → Nat → K
  | .dense mlp => mlp.shardForward hiddenSize tpSize rank
  | .sparse moe => moe.shardForward hiddenSize tpSize rank

theorem sum_shardForward {n : Nat} {feedForward : FeedForward K} (hdvd : feedForward.Divides n)
    (x : Nat → K) :
    ∑ rank : Fin n, feedForward.shardForward hiddenSize n rank x =
      feedForward.forward hiddenSize x := by
  funext row
  rw [Finset.sum_apply]
  cases feedForward with
  | dense mlp => exact mlp.sum_shardForward hiddenSize hdvd x row
  | sparse moe => exact moe.sum_shardForward hiddenSize hdvd.1 hdvd.2 x row

end FeedForward

end FeedForward

/-! The vocabulary. -/

def padVocabSize (vocabSize padTo : Nat) : Nat := (vocabSize + padTo - 1) / padTo * padTo

/-- The sizes of a `VocabParallelEmbedding` without added embeddings. -/
structure VocabParallel where
  vocabSize : Nat
  tpSize : Nat
  divide : tpSize ∣ padVocabSize vocabSize 64

namespace VocabParallel

variable (vocab : VocabParallel)

def numEmbeddingsPerPartition : Nat := padVocabSize vocab.vocabSize 64 / vocab.tpSize

def startIndex (rank : Nat) : Nat :=
  min (rank * vocab.numEmbeddingsPerPartition) vocab.vocabSize

def endIndex (rank : Nat) : Nat :=
  min (rank * vocab.numEmbeddingsPerPartition + vocab.numEmbeddingsPerPartition) vocab.vocabSize

section Weights

variable [Field K] (hiddenSize : Nat) (weight : Nat → Nat → K)

/-- The rows that `weight_loader` copies to a rank, and zeros below them. -/
def loadRows (rank row : Nat) : Nat → K :=
  if row < vocab.endIndex rank - vocab.startIndex rank then weight (vocab.startIndex rank + row)
  else 0

end Weights

end VocabParallel

/-! The attention layers. -/

/-- The feature map and the gate of every query head of a hybrid layer. -/
structure HybridWeights (D F : Nat) (K : Type*) where
  hedgehogWeights : Nat → Fin D → Fin F → K
  alpha : Nat → K

/-- `hybrid_core` with the given heads, of which head `h` is head `global h` of the layer. -/
def HybridWeights.params (hybrid : HybridWeights D F K) (numHeads numKvHeads : Nat) (scaling : K)
    (global : Nat → Nat) : HybridParams D F K where
  numHeads
  numKvHeads
  shareKvGroups := false
  scaling
  hedgehogWeights h := hybrid.hedgehogWeights (global h)
  alpha h := hybrid.alpha (global h)

structure LayerWeights (D F : Nat) (K : Type*) [Zero K] where
  inputLayernorm : (Nat → K) → Nat → K
  queryKeyValue : QkvProjection K
  /-- The norm of a query head and its rotation at a position. -/
  rotateQ : Nat → Vec D K → Vec D K
  rotateK : Nat → Vec D K → Vec D K
  scaling : K
  hybrid : Option (HybridWeights D F K)
  dense : Nat → Nat → K
  denseBias : Nat → K
  postAttentionLayernorm : (Nat → K) → Nat → K
  mlp : FeedForward K

section Attention

variable [Field K] (tp : TensorParallel)

variable [ExpOps K]

namespace LayerWeights

variable (layer : LayerWeights D F K) (hiddenSize : Nat)

end LayerWeights

end Attention

end LladaHybrid.Serving
