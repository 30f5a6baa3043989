import LladaHybrid.Decode.Prediction

namespace LladaHybrid.Generate

open LladaHybrid.Library LladaHybrid.Decode

/-! `_sample_with_temperature_topk_topp` at any temperature. What `torch.multinomial`
draws, and how `torch.sort` orders equal logits, is left open, so that the result is a
relation. -/

structure SamplingArgs (K : Type*) where
  temperature : K
  topK : Option Int
  topP : Option K

variable {B V : Nat} {K : Type*}

section Filters

variable [LinearOrder K]

/-- The last of the `k` values that `torch.topk` returns; it raises past the vocabulary. -/
def kthLargest (row : Fin V → K) (k : Nat) : Option K :=
  ((List.ofFn row).mergeSort (fun a b => decide (b ≤ a)))[k - 1]?

/-- `_top_k_logits`, where an excluded token has the logit `-inf`. -/
def topKLogits (row : Fin V → K) (topK : Option Int) : Option (Fin V → WithBot K) :=
  match topK with
  | none => some (fun v => row v)
  | some k =>
      if k ≤ 0 then
        some (fun v => row v)
      else
        (kthLargest row k.toNat).map (fun minValue v => if row v < minValue then ⊥ else row v)

variable [Field K] [ExpOps K]

def expOrZero : WithBot K → K
  | ⊥ => 0
  | (x : K) => exp x

/-- `F.softmax` of a row that may hold `-inf`. -/
def filteredSoftmax (row : Fin V → WithBot K) (v : Fin V) : K :=
  expOrZero (row v) / ∑ u, expOrZero (row u)

/-- `_top_p_logits`: a token is excluded if the tokens sorted before it have more than `p`
of the probability. -/
def TopPLogits (row : Fin V → WithBot K) (topP : Option K) (filtered : Fin V → WithBot K) :
    Prop :=
  match topP with
  | none => filtered = row
  | some p =>
      if 1 ≤ p then
        filtered = row
      else
        ∃ order : List (Fin V), order.Perm (List.finRange V) ∧
          order.Pairwise (fun u v => row v ≤ row u) ∧
          filtered = fun v =>
            if 0 < order.idxOf v ∧
                p < ((order.take (order.idxOf v)).map (filteredSoftmax row)).sum then ⊥
            else row v

def scaledLogits (temperature : K) (row : Fin V → K) : Fin V → K :=
  if 0 < temperature ∧ temperature ≠ 1 then fun v => row v / temperature else row

def Samples [NeZero V] (sampling : SamplingArgs K) (logits : Logits B V K)
    (pred : Prediction B V K) : Prop :=
  if sampling.temperature = 0 then
    pred = predict logits
  else
    ∀ j, ∃ row filtered,
      topKLogits (scaledLogits sampling.temperature (logits j)) sampling.topK = some row ∧
      TopPLogits row sampling.topP filtered ∧
      0 < filteredSoftmax filtered (pred.token j) ∧
      pred.prob j = filteredSoftmax filtered (pred.token j)

theorem samples_predict [NeZero V] {sampling : SamplingArgs K}
    (hzero : sampling.temperature = 0) (logits : Logits B V K) :
    Samples sampling logits (predict logits) := by
  rw [Samples, if_pos hzero]

variable [LawfulExp K]

theorem expOrZero_nonneg (x : WithBot K) : 0 ≤ expOrZero x := by
  cases x with
  | bot => exact le_rfl
  | coe x => exact (LawfulExp.exp_pos x).le

theorem Samples.prob_le_one [IsStrictOrderedRing K] [NeZero V] {sampling : SamplingArgs K}
    {logits : Logits B V K}
    {pred : Prediction B V K} (samples : Samples sampling logits pred) (j : Fin B) :
    pred.prob j ≤ 1 := by
  unfold Samples at samples
  split_ifs at samples with hzero
  · rw [samples]
    exact softmax_le_one (logits j) _
  · obtain ⟨-, filtered, -, -, -, hprob⟩ := samples j
    rw [hprob]
    exact div_sum_le_one (fun v => expOrZero_nonneg (filtered v)) _

end Filters

end LladaHybrid.Generate
