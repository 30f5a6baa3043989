import LladaHybrid.Library.Arithmetic
import Mathlib.Data.List.MinMax
import Mathlib.Data.List.Sort
import Mathlib.Data.Finset.Piecewise
import Mathlib.Data.Fintype.Basic
import Mathlib.Order.WithBot

namespace LladaHybrid.Decode

open LladaHybrid.Library

/-! Tokens, logits and the tensor primitives the block decoders share. -/

abbrev Block (blockSize vocab : Nat) := Fin blockSize → Fin vocab

/-- The only row of a batch of one. -/
abbrev onlyRow : Fin 1 := 0

abbrev Logits (blockSize vocab : Nat) (K : Type*) :=
  Fin blockSize → Fin vocab → K

/-- A confidence or a threshold: a number, `-inf` or `+inf`. -/
abbrev Conf (K : Type*) := WithBot (WithTop K)

variable {B V : Nat} {K : Type*}

def maskIndex (maskId : Fin V) (ids : Block B V) : Finset (Fin B) :=
  Finset.univ.filter (fun j => ids j = maskId)

@[simp] theorem mem_maskIndex {maskId : Fin V} {ids : Block B V} {j : Fin B} :
    j ∈ maskIndex maskId ids ↔ ids j = maskId := by
  simp [maskIndex]

/-- `ids[transfer] = x[transfer]`. -/
def transferTokens (ids x : Block B V) (transfer : Finset (Fin B)) : Block B V :=
  transfer.piecewise x ids

@[simp] theorem transferTokens_empty (ids x : Block B V) :
    transferTokens ids x ∅ = ids :=
  Finset.piecewise_empty x ids

@[simp] theorem transferTokens_univ (ids x : Block B V) :
    transferTokens ids x Finset.univ = x :=
  Finset.piecewise_univ x ids

theorem transferTokens_of_mem {ids x : Block B V} {transfer : Finset (Fin B)}
    {j : Fin B} (hmem : j ∈ transfer) : transferTokens ids x transfer j = x j :=
  Finset.piecewise_eq_of_mem _ _ _ hmem

theorem transferTokens_of_notMem {ids x : Block B V} {transfer : Finset (Fin B)}
    {j : Fin B} (hmem : j ∉ transfer) : transferTokens ids x transfer j = ids j :=
  Finset.piecewise_eq_of_notMem _ _ _ hmem

theorem maskIndex_transferTokens {maskId : Fin V} (ids : Block B V) {x : Block B V}
    (hx : ∀ j, x j ≠ maskId) (transfer : Finset (Fin B)) :
    maskIndex maskId (transferTokens ids x transfer) = maskIndex maskId ids \ transfer := by
  ext j
  rw [mem_maskIndex, Finset.mem_sdiff, mem_maskIndex]
  by_cases hj : j ∈ transfer
  · rw [transferTokens_of_mem hj]
    exact iff_of_false (hx j) (fun hmem => hmem.2 hj)
  · rw [transferTokens_of_notMem hj]
    exact (and_iff_left hj).symm

section Order

variable [LinearOrder K]

/-- `torch.argmax`: the first index of a maximal entry. -/
def argmax [NeZero V] (row : Fin V → K) : Fin V :=
  ((List.finRange V).argmax row).getD 0

theorem le_argmax [NeZero V] (row : Fin V → K) (v : Fin V) :
    row v ≤ row (argmax row) := by
  have hmem : v ∈ List.finRange V := List.mem_finRange v
  obtain ⟨best, hbest⟩ : ∃ best, (List.finRange V).argmax row = some best := by
    rw [← Option.ne_none_iff_exists', Ne, List.argmax_eq_none]
    exact List.ne_nil_of_mem hmem
  have hargmax : argmax row = best := by
    rw [argmax, hbest, Option.getD_some]
  rw [hargmax]
  exact List.le_of_mem_argmax hmem hbest

theorem argmax_eq_of_forall_lt [NeZero V] {row : Fin V → K} {best : Fin V}
    (hbest : ∀ v, v ≠ best → row v < row best) : argmax row = best := by
  by_contra hne
  exact absurd (hbest _ hne) (not_lt.mpr (le_argmax row best))

/-- `torch.topk` on a row of confidences: which of several tied indices it
returns is left to the implementation. -/
class TopK (K : Type*) [LinearOrder K] where
  topk : {n : Nat} → (Fin n → Conf K) → Nat → Finset (Fin n)
  card_topk : ∀ {n : Nat} (conf : Fin n → Conf K) {k : Nat}, k ≤ n →
    (topk conf k).card = k
  le_of_mem_topk : ∀ {n : Nat} {conf : Fin n → Conf K} {k : Nat} {i j : Fin n},
    i ∈ topk conf k → j ∉ topk conf k → conf j ≤ conf i

export TopK (topk)

/-- The indices in descending order of confidence, stable on ties. -/
def descending {n : Nat} (conf : Fin n → Conf K) : List (Fin n) :=
  (List.finRange n).mergeSort (fun i j => decide (conf j ≤ conf i))

theorem descending_perm {n : Nat} (conf : Fin n → Conf K) :
    (descending conf).Perm (List.finRange n) :=
  List.mergeSort_perm _ _

theorem descending_pairwise {n : Nat} (conf : Fin n → Conf K) :
    (descending conf).Pairwise (fun i j => conf j ≤ conf i) :=
  List.pairwise_mergeSort' (Order.Preimage conf (· ≥ ·)) (List.finRange n)

theorem descending_nodup {n : Nat} (conf : Fin n → Conf K) : (descending conf).Nodup :=
  (descending_perm conf).nodup_iff.mpr (List.nodup_finRange n)

/-- Sorting the row is one implementation of `topk`. -/
instance (priority := low) sortTopK (K : Type*) [LinearOrder K] : TopK K where
  topk conf k := ((descending conf).take k).toFinset
  card_topk {n} conf k hk := by
    have hlength : (descending conf).length = n := by
      rw [(descending_perm conf).length_eq, List.length_finRange]
    rw [List.toFinset_card_of_nodup ((descending_nodup conf).sublist (List.take_sublist k _)),
      List.length_take, hlength, min_eq_left hk]
  le_of_mem_topk {n conf k i j} hi hj := by
    rw [List.mem_toFinset] at hi hj
    have hall : j ∈ (descending conf).take k ++ (descending conf).drop k := by
      rw [List.take_append_drop]
      exact (descending_perm conf).mem_iff.mpr (List.mem_finRange j)
    have hdrop : j ∈ (descending conf).drop k :=
      (List.mem_append.mp hall).resolve_left hj
    have hsplit := descending_pairwise conf
    rw [← List.take_append_drop k (descending conf), List.pairwise_append] at hsplit
    exact hsplit.2.2 i hi j hdrop

end Order

section Transfer

variable [LinearOrder K]

/-- `torch.where(mask, p, -inf)`. -/
def confidence (masks : Finset (Fin B)) (prob : Fin B → K) (j : Fin B) : Conf K :=
  if j ∈ masks then ((prob j : WithTop K) : Conf K) else ⊥

def aboveThreshold (conf : Fin B → Conf K) (threshold : Conf K) : Finset (Fin B) :=
  Finset.univ.filter (fun j => threshold < conf j)

@[simp] theorem mem_aboveThreshold {conf : Fin B → Conf K} {threshold : Conf K}
    {j : Fin B} : j ∈ aboveThreshold conf threshold ↔ threshold < conf j := by
  simp [aboveThreshold]

theorem mem_of_lt_confidence {masks : Finset (Fin B)} {prob : Fin B → K}
    {threshold : Conf K} {j : Fin B} (hlt : threshold < confidence masks prob j) :
    j ∈ masks := by
  by_contra hmem
  rw [confidence, if_neg hmem] at hlt
  exact not_lt_bot hlt

theorem aboveThreshold_confidence_subset (masks : Finset (Fin B))
    (prob : Fin B → K) (threshold : Conf K) :
    aboveThreshold (confidence masks prob) threshold ⊆ masks := by
  intro j hj
  exact mem_of_lt_confidence (mem_aboveThreshold.mp hj)

variable [TopK K]

theorem topk_confidence_subset {masks : Finset (Fin B)} (prob : Fin B → K) {k : Nat}
    (hk : k ≤ masks.card) : topk (confidence masks prob) k ⊆ masks := by
  have hcard : (topk (confidence masks prob) k).card = k :=
    TopK.card_topk _ (hk.trans (card_finset_fin_le masks))
  intro i hi
  by_contra hnot
  have hall : masks ⊆ topk (confidence masks prob) k := by
    intro j hj
    by_contra hout
    have hle := TopK.le_of_mem_topk hi hout
    rw [confidence, confidence, if_pos hj, if_neg hnot] at hle
    exact WithBot.not_coe_le_bot _ hle
  have hinsert := Finset.card_le_card (Finset.insert_subset hi hall)
  rw [Finset.card_insert_of_notMem hnot] at hinsert
  omega

theorem topk_one_confidence {masks : Finset (Fin B)} (prob : Fin B → K)
    (hmasks : masks.Nonempty) :
    ∃ j ∈ masks, topk (confidence masks prob) 1 = {j} := by
  have hcard : (topk (confidence masks prob) 1).card = 1 :=
    TopK.card_topk _ (hmasks.card_pos.trans_le (card_finset_fin_le masks))
  obtain ⟨best, hbest⟩ := Finset.card_eq_one.mp hcard
  refine ⟨best, topk_confidence_subset prob hmasks.card_pos ?_, hbest⟩
  rw [hbest]
  exact Finset.mem_singleton_self best

/-- Every masked position above the threshold, or else the most confident one. -/
def confidentOrBest (threshold : Conf K) (conf : Fin B → Conf K) : Finset (Fin B) :=
  if (aboveThreshold conf threshold).Nonempty then aboveThreshold conf threshold
  else topk conf 1

theorem confidentOrBest_subset (threshold : Conf K) {masks : Finset (Fin B)}
    (prob : Fin B → K) (hmasks : masks.Nonempty) :
    confidentOrBest threshold (confidence masks prob) ⊆ masks := by
  rw [confidentOrBest]
  split_ifs with hhigh
  · exact aboveThreshold_confidence_subset masks prob threshold
  · obtain ⟨best, hbest, htop⟩ := topk_one_confidence prob hmasks
    rw [htop]
    exact Finset.singleton_subset_iff.mpr hbest

theorem confidentOrBest_nonempty (threshold : Conf K) {masks : Finset (Fin B)}
    (prob : Fin B → K) (hmasks : masks.Nonempty) :
    (confidentOrBest threshold (confidence masks prob)).Nonempty := by
  rw [confidentOrBest]
  split_ifs with hhigh
  · exact hhigh
  · obtain ⟨best, -, htop⟩ := topk_one_confidence prob hmasks
    rw [htop]
    exact Finset.singleton_nonempty best

end Transfer

section Predict

variable [Field K] [LinearOrder K] [ExpOps K] [NeZero V]

structure Prediction (B V : Nat) (K : Type*) where
  token : Block B V
  prob : Fin B → K

def predict (logits : Logits B V K) : Prediction B V K where
  token j := argmax (logits j)
  prob j := softmax (logits j) (argmax (logits j))

end Predict

end LladaHybrid.Decode
