import LladaHybrid.Attention.HybridAttention
import LladaHybrid.Decode.Prediction
import LladaHybrid.Library.BlockScan
import Mathlib.Algebra.Order.BigOperators.Group.Finset

namespace LladaHybrid.Model

open LladaHybrid.Library LladaHybrid.Attention LladaHybrid.Decode

/-! The router of a mixture-of-experts layer: group-limited selection of the experts of a token. -/

variable {D : Nat} {K : Type*}

/-- The order in which `torch.topk` returns the indices it chooses. -/
class TopKIndices (K : Type*) [LinearOrder K] [TopK K] where
  topkIndices : {n : Nat} → (Fin n → Conf K) → Nat → List (Fin n)
  nodup_topkIndices : ∀ {n : Nat} (row : Fin n → Conf K) (k : Nat), (topkIndices row k).Nodup
  mem_topkIndices : ∀ {n : Nat} {row : Fin n → Conf K} {k : Nat} {i : Fin n},
    i ∈ topkIndices row k ↔ i ∈ topk row k

export TopKIndices (topkIndices)

instance (priority := low) sortTopKIndices (K : Type*) [LinearOrder K] :
    @TopKIndices K _ (sortTopK K) :=
  letI := sortTopK K
  { topkIndices := fun row k => (descending row).take k
    nodup_topkIndices := fun row k => (descending_nodup row).sublist (List.take_sublist k _)
    mem_topkIndices := List.mem_toFinset.symm }

section Selection

variable [LinearOrder K] [TopK K]

theorem length_topkIndices [TopKIndices K] {n k : Nat} (row : Fin n → Conf K) (hk : k ≤ n) :
    (topkIndices row k).length = k := by
  have hset : (topkIndices row k).toFinset = topk row k := by
    ext i
    rw [List.mem_toFinset, TopKIndices.mem_topkIndices]
  rw [← List.toFinset_card_of_nodup (TopKIndices.nodup_topkIndices row k), hset,
    TopK.card_topk row hk]

variable {n k : Nat}

theorem le_of_mem_topk_univ {row : Fin n → K} {i j : Fin n}
    (hi : i ∈ topk (confidence Finset.univ row) k)
    (hj : j ∉ topk (confidence Finset.univ row) k) : row j ≤ row i := by
  have hle := TopK.le_of_mem_topk hi hj
  simpa [confidence] using hle

/-- No set of `k` entries has a larger sum than the entries `topk` picks. -/
theorem sum_le_sum_topk [Field K] [IsStrictOrderedRing K] (row : Fin n → K)
    (chosen : Finset (Fin n)) (hcard : chosen.card = k) :
    ∑ i ∈ chosen, row i ≤ ∑ i ∈ topk (confidence Finset.univ row) k, row i := by
  have hk : k ≤ n := hcard ▸ card_finset_fin_le chosen
  have htop := TopK.card_topk (confidence Finset.univ row) hk
  generalize hT : topk (confidence Finset.univ row) k = top at htop ⊢
  have hsame : (chosen \ top).card = (top \ chosen).card :=
    Finset.card_sdiff_comm (hcard.trans htop.symm)
  rw [← sub_nonpos, ← Finset.sum_sdiff_sub_sum_sdiff, sub_nonpos]
  cases Finset.eq_empty_or_nonempty (chosen \ top) with
  | inl hnone =>
      rw [hnone, Finset.card_empty] at hsame
      rw [hnone, Finset.card_eq_zero.mp hsame.symm]
  | inr hsome =>
      -- the largest entry left out is at most every entry taken in its place
      obtain ⟨best, hbest, hmax⟩ := Finset.exists_max_image (chosen \ top) row hsome
      have hbelow : ∀ i ∈ top \ chosen, row best ≤ row i := by
        intro i hi
        subst hT
        exact le_of_mem_topk_univ (Finset.mem_sdiff.mp hi).1 (Finset.mem_sdiff.mp hbest).2
      calc ∑ i ∈ chosen \ top, row i
          ≤ (chosen \ top).card • row best := Finset.sum_le_card_nsmul _ _ _ hmax
        _ = (top \ chosen).card • row best := by rw [hsame]
        _ ≤ ∑ i ∈ top \ chosen, row i := Finset.card_nsmul_le_sum _ _ _ hbelow

end Selection

/-- `LLaDA2MoeGate`, with the conditions its configuration has to meet. -/
structure LLaDA2MoeGate (D : Nat) (K : Type*) where
  topK : Nat
  numExperts : Nat
  nGroup : Nat
  topkGroup : Nat
  weight : Fin numExperts → Vec D K
  routedScalingFactor : K
  expertBias : Fin numExperts → K
  equalGroups : nGroup ∣ numExperts
  two_le_groupSize : 2 ≤ numExperts / nGroup
  topkGroup_le : topkGroup ≤ nGroup
  topK_pos : 1 ≤ topK
  topK_le : topK ≤ numExperts

/-- What the gate returns for one token. -/
structure GateOutput (numExperts : Nat) (K : Type*) where
  topkIdx : List (Fin numExperts)
  topkWeight : List K
  logits : Fin numExperts → K

namespace LLaDA2MoeGate

section Groups

variable (gate : LLaDA2MoeGate D K)

def groupSize : Nat := gate.numExperts / gate.nGroup

theorem nGroup_mul_groupSize : gate.nGroup * gate.groupSize = gate.numExperts :=
  Nat.mul_div_cancel' gate.equalGroups

/-- The experts as `view(n_group, -1)` lays them out. -/
def member (g : Fin gate.nGroup) (i : Fin gate.groupSize) : Fin gate.numExperts :=
  ⟨g * gate.groupSize + i, by
    rw [← gate.nGroup_mul_groupSize]
    exact row_lt g.isLt i⟩

def group (e : Fin gate.numExperts) : Fin gate.nGroup :=
  ⟨e / gate.groupSize, by
    apply Nat.div_lt_of_lt_mul
    rw [Nat.mul_comm, gate.nGroup_mul_groupSize]
    exact e.isLt⟩

@[simp] theorem group_member (g : Fin gate.nGroup) (i : Fin gate.groupSize) :
    gate.group (gate.member g i) = g := by
  apply Fin.ext
  exact block_div (g : Nat) i

theorem member_injective : Function.Injective fun p : Fin gate.nGroup × Fin gate.groupSize =>
    gate.member p.1 p.2 := by
  rintro ⟨g, i⟩ ⟨h, j⟩ heq
  obtain rfl : g = h := by
    simpa using congrArg gate.group heq
  have hval : g * gate.groupSize + (i : Nat) = g * gate.groupSize + (j : Nat) :=
    congrArg Fin.val heq
  rw [Fin.ext (Nat.add_left_cancel hval)]

/-- The experts of the groups in `groups`. -/
def scoreMask (groups : Finset (Fin gate.nGroup)) : Finset (Fin gate.numExperts) :=
  Finset.univ.filter (fun e => gate.group e ∈ groups)

theorem card_mul_groupSize_le (groups : Finset (Fin gate.nGroup)) :
    groups.card * gate.groupSize ≤ (gate.scoreMask groups).card := by
  have hproduct : (groups ×ˢ (Finset.univ : Finset (Fin gate.groupSize))).card =
      groups.card * gate.groupSize := by
    rw [Finset.card_product, Finset.card_univ, Fintype.card_fin]
  rw [← hproduct]
  apply Finset.card_le_card_of_injOn (fun p => gate.member p.1 p.2)
  · rintro ⟨g, i⟩ hp
    have hg : g ∈ groups := (Finset.mem_product.mp hp).1
    simpa [scoreMask] using hg
  · exact gate.member_injective.injOn

end Groups

variable [Field K] [LinearOrder K] [TopK K] (gate : LLaDA2MoeGate D K)

/-- `scores.view(num_tokens, n_group, -1).topk(2, dim=-1)[0].sum(dim=-1)` of one token. -/
def groupScores (scores : Fin gate.numExperts → K) (g : Fin gate.nGroup) : K :=
  let row := fun i => scores (gate.member g i)
  ∑ i ∈ topk (confidence Finset.univ row) 2, row i

/-- The indices `group_mask` is set at. -/
def groupIdx (scores : Fin gate.numExperts → K) : Finset (Fin gate.nGroup) :=
  topk (confidence Finset.univ (gate.groupScores scores)) gate.topkGroup

def maskedScores (scores : Fin gate.numExperts → K) : Fin gate.numExperts → Conf K :=
  confidence (gate.scoreMask (gate.groupIdx scores)) scores

theorem card_groupIdx (scores : Fin gate.numExperts → K) :
    (gate.groupIdx scores).card = gate.topkGroup :=
  TopK.card_topk _ gate.topkGroup_le

/-- The largest sum of two scores of distinct members of the group. -/
def IsTopTwoSum (scores : Fin gate.numExperts → K) (g : Fin gate.nGroup) (s : K) : Prop :=
  IsGreatest {s | ∃ i j, i ≠ j ∧ s = scores (gate.member g i) + scores (gate.member g j)} s

/-- `topkGroup` groups such that no other group has a larger top-two sum. -/
structure BestGroups (scores : Fin gate.numExperts → K) (groups : Finset (Fin gate.nGroup)) :
    Prop where
  card : groups.card = gate.topkGroup
  le : ∀ g ∈ groups, ∀ other ∉ groups, ∀ s s',
    gate.IsTopTwoSum scores g s → gate.IsTopTwoSum scores other s' → s' ≤ s

theorem isTopTwoSum_groupScores [IsStrictOrderedRing K] (scores : Fin gate.numExperts → K)
    (g : Fin gate.nGroup) : gate.IsTopTwoSum scores g (gate.groupScores scores g) := by
  constructor
  · have hcard := TopK.card_topk
      (confidence Finset.univ (fun i => scores (gate.member g i))) gate.two_le_groupSize
    obtain ⟨i, j, hne, hpair⟩ := Finset.card_eq_two.mp hcard
    refine ⟨i, j, hne, ?_⟩
    rw [groupScores, hpair, Finset.sum_pair hne]
  · rintro s ⟨i, j, hne, rfl⟩
    rw [← Finset.sum_pair (f := fun i => scores (gate.member g i)) hne]
    exact sum_le_sum_topk _ _ (Finset.card_pair hne)

theorem bestGroups_groupIdx [IsStrictOrderedRing K] (scores : Fin gate.numExperts → K) :
    gate.BestGroups scores (gate.groupIdx scores) where
  card := gate.card_groupIdx scores
  le g hg other hother s s' hs hs' := by
    rw [hs.unique (gate.isTopTwoSum_groupScores scores g),
      hs'.unique (gate.isTopTwoSum_groupScores scores other)]
    exact le_of_mem_topk_univ hg hother

variable [TopKIndices K]

def groupLimitedTopk (scores : Fin gate.numExperts → K) :
    List (Conf K) × List (Fin gate.numExperts) :=
  let masked := gate.maskedScores scores
  let topIndices := topkIndices masked gate.topK
  (topIndices.map masked, topIndices)

/-- `F.linear(hidden_states, weight)` of one token. -/
def logits (x : Vec D K) (e : Fin gate.numExperts) : K :=
  ∑ d, x d * gate.weight e d

def scoresForRouting [ExpOps K] (x : Vec D K) (e : Fin gate.numExperts) : K :=
  sigmoid (gate.logits x e) + gate.expertBias e

def forward [ExpOps K] (x : Vec D K) : GateOutput gate.numExperts K :=
  let topkIdx := (gate.groupLimitedTopk (gate.scoresForRouting x)).2
  let scores := topkIdx.map (fun e => sigmoid (gate.logits x e))
  let topkWeight :=
    if 1 < gate.topK then scores.map (fun s => s / (scores.sum + 1 / 10 ^ 20)) else scores
  ⟨topkIdx, topkWeight.map (fun w => w * gate.routedScalingFactor), gate.logits x⟩

theorem nodup_groupLimitedTopk (scores : Fin gate.numExperts → K) :
    (gate.groupLimitedTopk scores).2.Nodup :=
  TopKIndices.nodup_topkIndices _ _

theorem length_groupLimitedTopk (scores : Fin gate.numExperts → K) :
    (gate.groupLimitedTopk scores).2.length = gate.topK :=
  length_topkIndices _ gate.topK_le

/-- Enough experts are left unmasked, so none of the masked ones is taken. -/
theorem group_mem_groupIdx (hfit : gate.topK ≤ gate.topkGroup * gate.groupSize)
    {scores : Fin gate.numExperts → K} {e : Fin gate.numExperts}
    (he : e ∈ (gate.groupLimitedTopk scores).2) : gate.group e ∈ gate.groupIdx scores := by
  have hroom : gate.topK ≤ (gate.scoreMask (gate.groupIdx scores)).card := by
    refine hfit.trans ?_
    rw [← gate.card_groupIdx scores]
    exact gate.card_mul_groupSize_le _
  have htop : e ∈ topk (gate.maskedScores scores) gate.topK :=
    TopKIndices.mem_topkIndices.mp he
  have hmask := topk_confidence_subset scores hroom htop
  exact (Finset.mem_filter.mp hmask).2

end LLaDA2MoeGate

end LladaHybrid.Model
