import LladaHybrid.Attention.BlockRecurrence
import LladaHybrid.Attention.HybridKernel

namespace LladaHybrid.Attention

open LladaHybrid.Library LawfulExp

variable {D F S : Nat} {K : Type*}

/-! One block of one head: the kernels compute what `forward` computes there. -/

section Numerics

variable [Field K] [LinearOrder K]

theorem kernelWeights_eq [ExpOps K] [LawfulExp K]
    {valid : Finset (Fin S)} (hvalid : valid.Nonempty)
    (scores : Fin S → K) : kernelWeights valid scores = attentionWeights valid scores := by
  funext j
  simp only [kernelWeights, attentionWeights, dif_pos hvalid, exp2_mul_log2e]

variable [IsStrictOrderedRing K] [ExpOps K] [LawfulExp K]

theorem kernelSoftmax_eq [NeZero F] (u : Fin F → K) : kernelSoftmax u = softmax u := by
  funext f
  obtain ⟨best, -, hbest⟩ :=
    Finset.exists_mem_eq_sup' ⟨0, Finset.mem_univ (0 : Fin F)⟩ u
  have hclamp : max (∑ g, exp (u g - u best)) eps = ∑ g, exp (u g - u best) :=
    max_eq_left (eps_le_one.trans (one_le_sum_exp_sub u (Finset.mem_univ best)))
  simp only [kernelSoftmax, exp2_mul_log2e, hbest]
  rw [hclamp]
  exact softmax_shift u (u best) f

theorem kernelPhi_eq [NeZero F] (weights : Fin D → Fin F → K) (x : Vec D K) :
    kernelPhi weights x = featureMap weights x := by
  rw [kernelPhi, featureMap, kernelSoftmax_eq, kernelSoftmax_eq]

end Numerics

/-- Block `n` of a planned request, as the multi-block loop cuts it out. -/
def LaunchRequest.block (request : LaunchRequest) (S n : Nat) : LaunchRequest where
  slot := request.slot
  startOffset := request.startOffset + n * S
  seqLen := min (request.seqLen - n * S) S

/-- The tokens of a request as the PyTorch model sees them on query head `h`. -/
def headTokens (m : HybridParams D F K) (input : KernelInput D K)
    (request : LaunchRequest) (h : Nat) : HeadTokens D K where
  length := request.seqLen
  q p := input.q (request.startOffset + p) h
  k := repeatKv m.numKvGroups (fun kvHead p => input.k (request.startOffset + p) kvHead) h
  v := repeatKv m.numKvGroups (fun kvHead p => input.v (request.startOffset + p) kvHead) h

section Blocks

variable {request : LaunchRequest} {n : Nat}

theorem lt_block_seqLen (s : Fin S) :
    s.val < (request.block S n).seqLen ↔ n * S + s < request.seqLen := by
  have hs := s.isLt
  simp only [LaunchRequest.block]
  omega

variable [Field K]

theorem loadRows_block (x : Nat → Nat → Vec D K) (head : Nat) (s : Fin S) :
    loadRows S (request.block S n) x head s =
      blockTokens S request.seqLen (fun p => x (request.startOffset + p) head) n s := by
  rw [loadRows, blockTokens]
  refine if_congr (lt_block_seqLen s) ?_ rfl
  simp only [LaunchRequest.block, Nat.add_assoc]

theorem validRows_block [LinearOrder K] (hn : n < numBlocks request.seqLen S) :
    validRows S (request.block S n) =
      validKeys (keyValid S request.seqLen (none : Option (List K))) n := by
  ext s
  rw [mem_validKeys, maskAt_keyValid_none hn]
  simp [validRows, lt_block_seqLen]

variable (m : HybridParams D F K) (input : KernelInput D K) (h : Nat)

theorem blockValues_request (hn : n < numBlocks request.seqLen S) :
    blockValues (headTokens m input request h) (keyValid S request.seqLen none) S n =
      loadRows S (request.block S n) input.v (h / m.numKvGroups) := by
  funext s d
  rw [loadRows_block, blockValues, maskKeys_padding hn]
  by_cases hin : n * S + s < request.seqLen
  · rw [if_pos hin]
    rfl
  · rw [if_neg hin, blockTokens, if_neg hin]

variable [ExpOps K]

theorem blockKeys_request (hn : n < numBlocks request.seqLen S) (s : Fin S)
    (f : Feature F) :
    blockKeys m h (headTokens m input request h) (keyValid S request.seqLen none) S n s f =
      if s.val < (request.block S n).seqLen then
        featureMap (m.hedgehogWeights (m.stateHead h))
          (loadRows S (request.block S n) input.k (h / m.numKvGroups) s) f
      else 0 := by
  rw [loadRows_block, blockKeys, maskKeys_padding hn]
  exact if_congr (lt_block_seqLen s).symm rfl rfl

variable [LinearOrder K] [IsStrictOrderedRing K] [LawfulExp K] [NeZero F]

theorem kernelUpdate_block (hn : n < numBlocks request.seqLen S)
    (initial : RecurrentState D F K) :
    kernelUpdate m S input (request.block S n) (h / m.numKvGroups) (m.stateHead h)
        (stateAfter m h (headTokens m input request h) (keyValid S request.seqLen none)
          initial S n) =
      stateAfter m h (headTokens m input request h) (keyValid S request.seqLen none)
        initial S (n + 1) := by
  rw [stateAfter, RecurrentState.update]
  simp only [blockKeys_request m input h hn, blockValues_request m input h hn,
    kernelUpdate, kernelPhi_eq]

theorem kernelOutput_block [NeZero S] {gate : Nat → K}
    (hgate : gate h = sigmoid (m.alpha h)) {p : Nat} (hp : p < request.seqLen)
    (initial : RecurrentState D F K) :
    kernelOutput m gate input (request.block S (p / S)) h (h / m.numKvGroups)
        (m.stateHead h) (stateAfter m h (headTokens m input request h)
          (keyValid S request.seqLen none) initial S (p / S)) (Fin.ofNat S p) =
      headOut (S := S) m h (headTokens m input request h)
        (keyValid S request.seqLen none) initial p := by
  have hposition : p / S * S + (Fin.ofNat S p).val = p := Nat.div_add_mod' p S
  have hn : p / S < numBlocks request.seqLen S := div_lt_numBlocks hp
  have hvalid : (validKeys (S := S) (keyValid S request.seqLen (none : Option (List K)))
      (p / S)).Nonempty := by
    rw [← validRows_block (K := K) hn]
    refine ⟨Fin.ofNat S p, ?_⟩
    simp only [validRows, Finset.mem_filter, Finset.mem_univ, true_and, lt_block_seqLen,
      hposition, hp]
  funext d
  simp only [kernelOutput, headOut, headOutWith, blockRow, blockOut, mixStreams,
    validRows_block (K := K) hn, kernelWeights_eq hvalid, kernelPhi_eq, hgate,
    blockValues_request m input h hn,
    Fintype.sum_sum_type, loadRows_block]
  rfl

end Blocks

end LladaHybrid.Attention
