import LladaHybrid.Library.SortedDispatch
import LladaHybrid.Model.ExpertGate
import Mathlib.Data.List.GetD

namespace LladaHybrid.Model

open LladaHybrid.Library LladaHybrid.Attention LladaHybrid.Decode

/-! The two ways the mixture-of-experts block sends its tokens through the chosen experts. -/

variable {D : Nat} {K : Type*}

/-- `LLaDA2MoeSparseMoeBlock`: an expert acts on each row by itself. -/
structure LLaDA2MoeSparseMoeBlock (D : Nat) (K : Type*) where
  gate : LLaDA2MoeGate D K
  experts : Nat → Vec D K → Vec D K
  sharedExperts : Option (Vec D K → Vec D K)

/-- `topk_idx.view(-1)`. -/
def flatTopkIdx (topK : Nat) (topkIds : Nat → List Nat) (q : Nat) : Nat :=
  (topkIds (q / topK)).getD (q % topK) 0

theorem flatTopkIdx_row {topK j : Nat} (topkIds : Nat → List Nat) (t : Nat) (hj : j < topK) :
    flatTopkIdx topK topkIds (t * topK + j) = (topkIds t).getD j 0 := by
  have hrow : (t * topK + j) / topK = t := block_div t ⟨j, hj⟩
  have hcol : (t * topK + j) % topK = j := block_mod t ⟨j, hj⟩
  rw [flatTopkIdx, hrow, hcol]

/-- `cnts.sum(dim=0)`, where `cnts.scatter_(1, topk_ids, 1)` marks each expert of a token. -/
def tokensPerExpert (n : Nat) (topkIds : Nat → List Nat) (e : Nat) : Nat :=
  ((List.range n).map (fun t => if e ∈ topkIds t then 1 else 0)).sum

/-- `(y.view(n, top_k, -1) * topk_weight.unsqueeze(-1)).sum(dim=1)`. -/
def combine [Field K] (topK : Nat) (y : Nat → Vec D K) (topkWeight : Nat → List K) (t : Nat) :
    Vec D K :=
  fun d => ∑ j ∈ Finset.range topK, y (t * topK + j) d * (topkWeight t).getD j 0

/-- A routing table: `topK` different experts for every token. -/
structure ValidRouting (topK numExperts : Nat) (topkIds : Nat → List Nat) : Prop where
  length_eq : ∀ t, (topkIds t).length = topK
  nodup : ∀ t, (topkIds t).Nodup
  lt : ∀ t, ∀ e ∈ topkIds t, e < numExperts

namespace ValidRouting

variable {topK numExperts : Nat} {topkIds : Nat → List Nat}
  (valid : ValidRouting topK numExperts topkIds)

include valid

theorem flatTopkIdx_lt (hpos : 0 < topK) (q : Nat) : flatTopkIdx topK topkIds q < numExperts := by
  have hcol : q % topK < (topkIds (q / topK)).length := by
    rw [valid.length_eq]
    exact Nat.mod_lt q hpos
  rw [flatTopkIdx, List.getD_eq_getElem _ _ hcol]
  exact valid.lt _ _ (List.getElem_mem hcol)

/-- The marks of distinct experts count the entries of the flat table. -/
theorem tokensPerExpert_eq (n e : Nat) :
    tokensPerExpert n topkIds e =
      (List.range (n * topK)).countP (fun q => flatTopkIdx topK topkIds q = e) := by
  induction n with
  | zero => simp [tokensPerExpert]
  | succ n ih =>
      have hrow : (List.range topK).map (fun j => flatTopkIdx topK topkIds (n * topK + j)) =
          topkIds n := by
        apply List.ext_getElem
        · simp [valid.length_eq]
        · intro j hleft hright
          have hj : j < topK := by simpa using hleft
          rw [List.getElem_map, List.getElem_range, flatTopkIdx_row topkIds n hj,
            List.getD_eq_getElem _ _ hright]
      have hmark : (if e ∈ topkIds n then 1 else 0) = (topkIds n).countP (fun a => a = e) := by
        cases Decidable.em (e ∈ topkIds n) with
        | inl hmem =>
            rw [if_pos hmem, ← List.count_eq_one_of_mem (valid.nodup n) hmem]
            simp [List.count, beq_eq_decide]
        | inr hnot =>
            rw [if_neg hnot, eq_comm, List.countP_eq_zero]
            intro a ha heq
            exact hnot (of_decide_eq_true heq ▸ ha)
      rw [tokensPerExpert] at ih
      rw [tokensPerExpert, List.range_succ, List.map_append, List.sum_append, ih, Nat.add_mul,
        Nat.one_mul, List.range_add, List.countP_append, List.map_singleton,
        List.sum_singleton, hmark, ← hrow, List.countP_map, List.countP_map]
      rfl

end ValidRouting

namespace LLaDA2MoeSparseMoeBlock

section Paths

variable (block : LLaDA2MoeSparseMoeBlock D K)

/-- `y[mask] = expert(hidden_states_rep[mask])` for the rows routed to expert `i`. -/
def trainStep (n : Nat) (x : Nat → Vec D K) (topkIds : Nat → List Nat) (y : Nat → Vec D K)
    (i : Nat) : Nat → Vec D K :=
  let mask := fun q => flatTopkIdx block.gate.topK topkIds q == i
  if (List.range (n * block.gate.topK)).any mask then
    fun q => if mask q then block.experts i (x (q / block.gate.topK)) else y q
  else y

variable {n : Nat} {x : Nat → Vec D K} {topkIds : Nat → List Nat}

theorem trainStep_apply (y : Nat → Vec D K) (i : Nat) {q : Nat}
    (hq : q < n * block.gate.topK) :
    block.trainStep n x topkIds y i q =
      if flatTopkIdx block.gate.topK topkIds q = i then
        block.experts i (x (q / block.gate.topK))
      else y q := by
  rw [trainStep]
  split
  next => simp
  next hnone =>
      have hne : flatTopkIdx block.gate.topK topkIds q ≠ i := by
        intro heq
        exact hnone (List.any_eq_true.mpr ⟨q, List.mem_range.mpr hq, beq_iff_eq.mpr heq⟩)
      rw [if_neg hne]

/-- After the experts below `count`, the rows routed to them are written. -/
theorem foldl_trainStep (empty : Nat → Vec D K) (count : Nat) {q : Nat}
    (hq : q < n * block.gate.topK) :
    (List.range count).foldl (block.trainStep n x topkIds) empty q =
      if flatTopkIdx block.gate.topK topkIds q < count then
        block.experts (flatTopkIdx block.gate.topK topkIds q) (x (q / block.gate.topK))
      else empty q := by
  induction count with
  | zero => rfl
  | succ i ih =>
      rw [List.range_succ, List.foldl_append, List.foldl_cons, List.foldl_nil,
        block.trainStep_apply _ i hq, ih]
      rcases Nat.lt_trichotomy (flatTopkIdx block.gate.topK topkIds q) i with hlt | heq | hgt
      · rw [if_neg hlt.ne, if_pos hlt, if_pos (Nat.lt_succ_of_lt hlt)]
      · rw [if_pos heq, if_pos (Nat.lt_succ_of_le heq.le), heq]
      · rw [if_neg hgt.ne', if_neg hgt.not_gt, if_neg (Nat.not_lt.mpr hgt)]

/-- What the loop over the slices collects: in sorted order, each entry's own expert. -/
theorem mapSlices_sorted (valid : ValidRouting block.gate.topK block.gate.numExperts topkIds)
    {idxs : List Nat} (hperm : idxs.Perm (List.range (n * block.gate.topK)))
    (hsorted : idxs.Pairwise (fun p q => flatTopkIdx block.gate.topK topkIds p ≤
      flatTopkIdx block.gate.topK topkIds q)) :
    mapSlices block.experts (tokensPerExpert n topkIds)
        (idxs.map (fun q => x (q / block.gate.topK))) block.gate.numExperts =
      idxs.map (fun q =>
        block.experts (flatTopkIdx block.gate.topK topkIds q) (x (q / block.gate.topK))) := by
  apply mapSlices_eq block.experts (fun q => x (q / block.gate.topK)) hsorted
  · intro q _
    exact valid.flatTopkIdx_lt block.gate.topK_pos q
  · intro e _
    rw [valid.tokensPerExpert_eq, hperm.countP_eq]

variable [Field K]

/-- The training path; `empty` is what the uninitialised rows hold. -/
def moeTrain (empty : Nat → Vec D K) (n : Nat) (x : Nat → Vec D K)
    (topkIds : Nat → List Nat) (topkWeight : Nat → List K) : Nat → Vec D K :=
  let y := (List.range block.gate.numExperts).foldl (block.trainStep n x topkIds) empty
  combine block.gate.topK y topkWeight

/-- The inference path. The indexed write needs a row for every entry of `idxs`, and the view
needs an element to fix its last dimension. -/
def moeInfer (argsort : Argsort) (empty : Nat → Vec D K) (n : Nat) (x : Nat → Vec D K)
    (topkIds : Nat → List Nat) (topkWeight : Nat → List K) : Option (Nat → Vec D K) :=
  let idxs := argsort.indices
    ((List.range (n * block.gate.topK)).map (flatTopkIdx block.gate.topK topkIds))
  let sortedTokens := idxs.map (fun q => x (q / block.gate.topK))
  let outs := mapSlices block.experts (tokensPerExpert n topkIds) sortedTokens
    block.gate.numExperts
  if outs = [] ∨ outs.length ≠ idxs.length then none
  else some (combine block.gate.topK (scatter empty idxs outs) topkWeight)

/-- Every token's weighted sum over its experts. -/
def dense (x : Nat → Vec D K) (topkIds : Nat → List Nat) (topkWeight : Nat → List K) (t : Nat) :
    Vec D K :=
  fun d => ∑ j ∈ Finset.range block.gate.topK,
    (topkWeight t).getD j 0 * block.experts ((topkIds t).getD j 0) (x t) d

/-- Rows that hold the output of their own expert combine to the dense definition. -/
theorem combine_eq_dense {y : Nat → Vec D K} (topkWeight : Nat → List K)
    (hrows : ∀ q < n * block.gate.topK,
      y q = block.experts (flatTopkIdx block.gate.topK topkIds q) (x (q / block.gate.topK)))
    {t : Nat} (ht : t < n) :
    combine block.gate.topK y topkWeight t = block.dense x topkIds topkWeight t := by
  funext d
  apply Finset.sum_congr rfl
  intro j hj
  rw [Finset.mem_range] at hj
  have hq : t * block.gate.topK + j < n * block.gate.topK := row_lt ht ⟨j, hj⟩
  have hrow : (t * block.gate.topK + j) / block.gate.topK = t := block_div t ⟨j, hj⟩
  rw [hrows _ hq, flatTopkIdx_row topkIds t hj, hrow, mul_comm]

theorem moeTrain_eq (valid : ValidRouting block.gate.topK block.gate.numExperts topkIds)
    (empty : Nat → Vec D K) (topkWeight : Nat → List K) {t : Nat} (ht : t < n) :
    block.moeTrain empty n x topkIds topkWeight t = block.dense x topkIds topkWeight t := by
  apply block.combine_eq_dense topkWeight _ ht
  intro q hq
  rw [block.foldl_trainStep empty _ hq,
    if_pos (valid.flatTopkIdx_lt block.gate.topK_pos q)]

theorem moeInfer_eq (valid : ValidRouting block.gate.topK block.gate.numExperts topkIds)
    (argsort : Argsort) (empty : Nat → Vec D K) (topkWeight : Nat → List K) (hn : 1 ≤ n) :
    ∃ y, block.moeInfer argsort empty n x topkIds topkWeight = some y ∧
      ∀ t < n, y t = block.dense x topkIds topkWeight t := by
  have hrows : 0 < n * block.gate.topK := Nat.mul_pos hn block.gate.topK_pos
  rw [moeInfer]
  generalize hkeys : (List.range (n * block.gate.topK)).map
    (flatTopkIdx block.gate.topK topkIds) = keys
  have hperm : (argsort.indices keys).Perm (List.range (n * block.gate.topK)) := by
    simpa [← hkeys] using argsort.perm keys
  have hread : ∀ q ∈ argsort.indices keys,
      keys.getD q 0 = flatTopkIdx block.gate.topK topkIds q := by
    intro q hmem
    have hq : q < n * block.gate.topK := List.mem_range.mp (hperm.mem_iff.mp hmem)
    simp [← hkeys, hq]
  have hsorted := (argsort.sorted keys).imp_of_mem
    (S := fun p q => flatTopkIdx block.gate.topK topkIds p ≤
      flatTopkIdx block.gate.topK topkIds q)
    (fun hp hq hle => (hread _ hp).symm.trans_le (hle.trans_eq (hread _ hq)))
  have hlength : (argsort.indices keys).length = n * block.gate.topK := by
    rw [hperm.length_eq, List.length_range]
  have hsome : ¬ argsort.indices keys = [] := by
    intro hnil
    rw [hnil, List.length_nil] at hlength
    exact hrows.ne hlength
  simp only [block.mapSlices_sorted valid hperm hsorted, List.map_eq_nil_iff, hsome,
    List.length_map, ne_eq, not_true_eq_false, or_false, if_false]
  refine ⟨_, rfl, ?_⟩
  intro t ht
  apply block.combine_eq_dense topkWeight _ ht
  intro q hq
  rw [scatter_map, if_pos (hperm.mem_iff.mpr (List.mem_range.mpr hq))]

end Paths

section Forward

variable [Field K] [LinearOrder K] [TopK K] [TopKIndices K] [ExpOps K]
  (block : LLaDA2MoeSparseMoeBlock D K)

def topkIds (x : Nat → Vec D K) (t : Nat) : List Nat :=
  (block.gate.forward (x t)).topkIdx.map Fin.val

def topkWeight (x : Nat → Vec D K) (t : Nat) : List K :=
  (block.gate.forward (x t)).topkWeight

/-- The experts' part of the block on `n` token rows, in training or not. -/
def routed (training : Bool) (argsort : Argsort) (empty : Nat → Vec D K) (n : Nat)
    (x : Nat → Vec D K) : Option (Nat → Vec D K) :=
  if training then some (block.moeTrain empty n x (block.topkIds x) (block.topkWeight x))
  else block.moeInfer argsort empty n x (block.topkIds x) (block.topkWeight x)

/-- The output rows, with the router's logits and choices. -/
def forward (training : Bool) (argsort : Argsort) (empty : Nat → Vec D K) (n : Nat)
    (x : Nat → Vec D K) :
    Option ((Nat → Vec D K) × (Nat → Fin block.gate.numExperts → K) × (Nat → List Nat)) :=
  (block.routed training argsort empty n x).map (fun y =>
    (fun t => match block.sharedExperts with
      | some shared => y t + shared (x t)
      | none => y t,
    fun t => (block.gate.forward (x t)).logits, block.topkIds x))

theorem validRouting (x : Nat → Vec D K) :
    ValidRouting block.gate.topK block.gate.numExperts (block.topkIds x) where
  length_eq t := by
    rw [topkIds, List.length_map]
    exact block.gate.length_groupLimitedTopk _
  nodup t := (block.gate.nodup_groupLimitedTopk _).map Fin.val_injective
  lt t e he := by
    obtain ⟨expert, -, rfl⟩ := List.mem_map.mp he
    exact expert.isLt

theorem exists_routed {n : Nat} (hn : 1 ≤ n) (training : Bool) (argsort : Argsort)
    (empty x : Nat → Vec D K) :
    ∃ y, block.routed training argsort empty n x = some y ∧
      ∀ t < n, y t = block.dense x (block.topkIds x) (block.topkWeight x) t := by
  have valid := block.validRouting x
  cases training with
  | false => exact block.moeInfer_eq valid argsort empty _ hn
  | true => exact ⟨_, rfl, fun t ht => block.moeTrain_eq valid empty _ ht⟩

/-- A trained block serves what it was trained to compute. -/
theorem forward_mode_irrelevant {n : Nat} (hn : 1 ≤ n) (argsort : Argsort)
    (empty empty' x : Nat → Vec D K) :
    ∃ trained served, block.forward true argsort empty n x = some trained ∧
      block.forward false argsort empty' n x = some served ∧
      trained.2 = served.2 ∧ ∀ t < n, trained.1 t = served.1 t := by
  obtain ⟨y, hy, hdense⟩ := block.exists_routed hn true argsort empty x
  obtain ⟨y', hy', hdense'⟩ := block.exists_routed hn false argsort empty' x
  refine ⟨_, _, congrArg (Option.map _) hy, congrArg (Option.map _) hy', rfl, ?_⟩
  intro t ht
  simp only [hdense t ht, hdense' t ht]

theorem routed_eq_dense [IsStrictOrderedRing K] {n : Nat} (hn : 1 ≤ n) (x : Nat → Vec D K) :
    (∀ training argsort empty, ∃ y, block.routed training argsort empty n x = some y ∧
      ∀ t < n, y t = block.dense x (block.topkIds x) (block.topkWeight x) t) ∧
    ∀ t < n, (block.topkIds x t).Nodup ∧
      (block.gate.topK ≤ block.gate.topkGroup * block.gate.groupSize →
        ∃ groups, block.gate.BestGroups (block.gate.scoresForRouting (x t)) groups ∧
          ∀ e ∈ (block.gate.forward (x t)).topkIdx, block.gate.group e ∈ groups) := by
  constructor
  · intro training argsort empty
    exact block.exists_routed hn training argsort empty x
  · intro t _
    refine ⟨(block.validRouting x).nodup t, fun hfit => ?_⟩
    refine ⟨_, block.gate.bestGroups_groupIdx (block.gate.scoresForRouting (x t)), ?_⟩
    intro e he
    exact block.gate.group_mem_groupIdx hfit he

end Forward

/-- Two groups of two experts, of which one group and both its experts are taken. -/
def fourExperts : LLaDA2MoeSparseMoeBlock 1 ℝ where
  gate :=
    { topK := 2, numExperts := 4, nGroup := 2, topkGroup := 1
      weight := fun _ _ => 0, routedScalingFactor := 1, expertBias := fun _ => 0
      equalGroups := by decide, two_le_groupSize := by decide, topkGroup_le := by decide
      topK_pos := by decide, topK_le := by decide }
  experts := fun e x d => e * x d
  sharedExperts := none

theorem routed_eq_dense_fourExperts :
    (∃ y, fourExperts.routed false Argsort.mergeSort (fun _ => 0) 2 (fun t _ => t) = some y ∧
      ∀ t < 2, y t = fourExperts.dense (fun t _ => t) (fourExperts.topkIds (fun t _ => t))
        (fourExperts.topkWeight (fun t _ => t)) t) ∧
    ∃ groups, fourExperts.gate.BestGroups (fourExperts.gate.scoresForRouting (fun _ => 0))
      groups ∧ ∀ e ∈ (fourExperts.gate.forward (fun _ => 0)).topkIdx,
        fourExperts.gate.group e ∈ groups := by
  have hboth := fourExperts.routed_eq_dense (n := 2) (by decide) (fun t _ => t)
  have hzero := fourExperts.routed_eq_dense (n := 1) (by decide) (fun _ _ => 0)
  exact ⟨hboth.1 false Argsort.mergeSort (fun _ => 0), (hzero.2 0 (by decide)).2 (by decide)⟩

end LLaDA2MoeSparseMoeBlock

end LladaHybrid.Model
