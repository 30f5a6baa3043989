import LladaHybrid.Generate.Sampling
import LladaHybrid.Library.DescendingOrder

namespace LladaHybrid.Generate

open LladaHybrid.Library LladaHybrid.Decode

/-! The filters of `_sample_with_temperature_topk_topp` as they compute on one row, what they keep
of it, and the draw from what is left. -/

variable {B V : Nat} {K : Type*} [Field K] [LinearOrder K] [ExpOps K]

/-- `F.softmax` of a sorted row. -/
def softmaxRow (logits : List (WithBot K)) : List K :=
  logits.map (fun x => expOrZero x / (logits.map expOrZero).sum)

/-- `_top_p_logits`, in the order that `torch.sort` gives the row. -/
def topPLogits (row : Fin V → WithBot K) (sort : DescendingOrder row) (topP : Option K) :
    Fin V → WithBot K :=
  match topP with
  | none => row
  | some p =>
      if 1 ≤ p then
        row
      else
        let cumulativeProbs := cumsum (softmaxRow (sort.order.map row))
        let sortedMask := shiftRight (cumulativeProbs.map (fun c => decide (p < c)))
        let maskIndices := scatter (fun _ => false) sort.order sortedMask
        fun v => if maskIndices v then ⊥ else row v

/-- `torch.multinomial` with one sample: the largest of the probabilities divided by exponential
noise. It raises unless they are non-negative and do not all vanish. -/
def multinomial [NeZero V] (probs noise : Fin V → K) : Option (Fin V) :=
  if (∀ v, 0 ≤ probs v) ∧ 0 < ∑ v, probs v then some (argmax (fun v => probs v / noise v))
  else none

/-- `_sample_with_temperature_topk_topp` on one row. -/
def sampleRow [NeZero V] (sampling : SamplingArgs K) (logits : Fin V → K)
    (sort : (row : Fin V → WithBot K) → DescendingOrder row) (noise : Fin V → K) :
    Option (Fin V × K) :=
  if sampling.temperature = 0 then
    some (argmax logits, softmax logits (argmax logits))
  else do
    let row ← topKLogits (scaledLogits sampling.temperature logits) sampling.topK
    let probs := filteredSoftmax (topPLogits row (sort row) sampling.topP)
    (multinomial probs noise).map (fun token => (token, probs token))

section Order

variable {row : Fin V → WithBot K} (sort : DescendingOrder row)

theorem softmaxRow_order :
    softmaxRow (sort.order.map row) = sort.order.map (filteredSoftmax row) := by
  rw [softmaxRow, List.map_map, List.map_map, sort.sum_map]
  rfl

/-- The mask at a token, by the probability of the tokens sorted before it. -/
theorem topPLogits_apply [NeZero V] {p : K} (hp : p < 1) (v : Fin V) :
    topPLogits row sort (some p) v =
      if 0 < sort.order.idxOf v ∧
          p < ((sort.order.map (filteredSoftmax row)).take (sort.order.idxOf v)).sum then ⊥
      else row v := by
  have hne : sort.order.map (filteredSoftmax row) ≠ [] := by
    simpa using sort.order_ne_nil
  simp only [topPLogits, if_neg (not_le.mpr hp), softmaxRow_order, shiftRight_cumsum hne,
    List.length_map, sort.map_range, scatter_map, if_pos (sort.mem_order v), decide_eq_true_eq]

end Order

section Probabilities

omit [LinearOrder K] in
theorem expOrZero_bot : expOrZero (⊥ : WithBot K) = 0 := rfl

variable [LawfulExp K]

theorem expOrZero_pos_iff {x : WithBot K} : 0 < expOrZero x ↔ x ≠ ⊥ := by
  cases x with
  | bot => simp [expOrZero]
  | coe x => simpa [expOrZero] using LawfulExp.exp_pos x

variable [IsStrictOrderedRing K] {row : Fin V → WithBot K}

theorem filteredSoftmax_nonneg (row : Fin V → WithBot K) (v : Fin V) : 0 ≤ filteredSoftmax row v :=
  div_nonneg (expOrZero_nonneg _) (Finset.sum_nonneg (fun u _ => expOrZero_nonneg (row u)))

variable (hfinite : ∃ v, row v ≠ ⊥)

include hfinite

theorem sum_expOrZero_pos : 0 < ∑ v, expOrZero (row v) := by
  obtain ⟨v, hv⟩ := hfinite
  exact Finset.sum_pos' (fun u _ => expOrZero_nonneg (row u))
    ⟨v, Finset.mem_univ v, expOrZero_pos_iff.mpr hv⟩

theorem filteredSoftmax_pos_iff {v : Fin V} : 0 < filteredSoftmax row v ↔ row v ≠ ⊥ := by
  rw [filteredSoftmax, div_pos_iff_of_pos_right (sum_expOrZero_pos hfinite), expOrZero_pos_iff]

theorem sum_filteredSoftmax : ∑ v, filteredSoftmax row v = 1 := by
  simp only [filteredSoftmax, ← Finset.sum_div]
  exact div_self (sum_expOrZero_pos hfinite).ne'

end Probabilities

section Keep

/-- What `_top_p_logits` keeps of a row: the first `m` tokens of the order, which are the shortest
part whose probability exceeds `p`, and all tokens left by the filters before it if no shorter
part does. -/
structure KeepsNucleus (row filtered : Fin V → WithBot K) (order : List (Fin V)) (p : K)
    (m : Nat) : Prop where
  nucleus : Nucleus (order.map (filteredSoftmax row)) p m
  kept : ∀ v ∈ order.take m, row v ≠ ⊥ ∧ filtered v = row v
  dropped : ∀ v, v ∉ order.take m → filtered v = ⊥
  all : (∀ j, 0 < j → j < (order.filter (fun v => row v ≠ ⊥)).length →
      ((order.map (filteredSoftmax row)).take j).sum ≤ p) →
    ∀ v, row v ≠ ⊥ → v ∈ order.take m

namespace KeepsNucleus

variable {row filtered : Fin V → WithBot K} {order : List (Fin V)} {p : K} {m : Nat}
  (keeps : KeepsNucleus row filtered order p m)

include keeps

theorem finite_iff {v : Fin V} : filtered v ≠ ⊥ ↔ v ∈ order.take m := by
  constructor
  · intro hv
    by_contra hout
    exact hv (keeps.dropped v hout)
  · intro hv
    obtain ⟨hfinite, hsame⟩ := keeps.kept v hv
    rwa [hsame]

theorem exists_finite : ∃ v, filtered v ≠ ⊥ := by
  have hlength := keeps.nucleus.le_length
  rw [List.length_map] at hlength
  have hne : order.take m ≠ [] := by
    rw [← List.length_pos_iff, List.length_take_of_le hlength]
    exact keeps.nucleus.pos
  obtain ⟨v, hv⟩ := List.exists_mem_of_ne_nil _ hne
  exact ⟨v, keeps.finite_iff.mpr hv⟩

end KeepsNucleus

omit [Field K] [ExpOps K] in
theorem finite_of_le {row : Fin V → WithBot K} (u v : Fin V) (hle : row v ≤ row u)
    (hv : decide (row v ≠ ⊥) = true) : decide (row u ≠ ⊥) = true := by
  rw [decide_eq_true_eq] at hv ⊢
  exact ne_bot_of_le_ne_bot hv hle

variable [LawfulExp K] [IsStrictOrderedRing K] {row : Fin V → WithBot K} {p : K}

theorem nonneg_of_mem_order (order : List (Fin V)) :
    ∀ w ∈ order.map (filteredSoftmax row), 0 ≤ w := by
  intro w hw
  obtain ⟨v, -, rfl⟩ := List.mem_map.mp hw
  exact filteredSoftmax_nonneg row v

/-- The tokens past the nucleus are those that the shifted mask excludes. -/
theorem topPLogits_of_nucleus [NeZero V] (sort : DescendingOrder row) (hp : p < 1) {m : Nat}
    (nucleus : Nucleus (sort.order.map (filteredSoftmax row)) p m) (v : Fin V) :
    topPLogits row sort (some p) v = if v ∈ sort.order.take m then row v else ⊥ := by
  have hpast := nucleus.le_iff (nonneg_of_mem_order sort.order) (sort.order.idxOf v)
  simp only [topPLogits_apply sort hp, ← hpast]
  simp only [List.mem_take_iff_idxOf_lt (sort.mem_order v), ← not_le, ite_not]

variable (hfinite : ∃ v, row v ≠ ⊥) (sort : DescendingOrder row) (hp : p < 1)

include hfinite hp

theorem lt_sum_order : p < (sort.order.map (filteredSoftmax row)).sum := by
  rwa [sort.sum_map, sum_filteredSoftmax hfinite]

/-- The tokens that are excluded already have no probability and come last. -/
theorem nucleus_le_finite {m : Nat} (nucleus : Nucleus (sort.order.map (filteredSoftmax row)) p m) :
    m ≤ (sort.order.filter (fun v => row v ≠ ⊥)).length := by
  apply nucleus.le_of_sum_drop (nonneg_of_mem_order sort.order) (lt_sum_order hfinite sort hp)
  · obtain ⟨v, hv⟩ := hfinite
    exact List.length_pos_of_mem (List.mem_filter.mpr ⟨sort.mem_order v, decide_eq_true hv⟩)
  · rw [← List.map_drop, sort.drop_length_filter finite_of_le]
    apply List.sum_eq_zero
    intro w hw
    obtain ⟨v, hv, rfl⟩ := List.mem_map.mp hw
    have hbot : row v = ⊥ := by simpa using (List.mem_filter.mp hv).2
    simp [filteredSoftmax, hbot, expOrZero_bot]

theorem exists_keepsNucleus [NeZero V] :
    ∃ m, KeepsNucleus row (topPLogits row sort (some p)) sort.order p m := by
  have hne : sort.order.map (filteredSoftmax row) ≠ [] := by
    simpa using sort.order_ne_nil
  obtain ⟨m, nucleus⟩ := exists_nucleus hne (lt_sum_order hfinite sort hp)
  have hmask := topPLogits_of_nucleus sort hp nucleus
  have hle := nucleus_le_finite hfinite sort hp nucleus
  have hfirst := sort.take_length_filter finite_of_le
  refine ⟨m, nucleus, ?_, ?_, ?_⟩
  · intro v hv
    have hmem := List.take_subset_take_left sort.order hle hv
    rw [hfirst] at hmem
    exact ⟨of_decide_eq_true (List.mem_filter.mp hmem).2, (hmask v).trans (if_pos hv)⟩
  · intro v hv
    exact (hmask v).trans (if_neg hv)
  · intro hnone v hv
    -- a nucleus of fewer tokens than are finite would itself be such a part
    have hlength : (sort.order.filter (fun v => row v ≠ ⊥)).length = m := by
      apply le_antisymm _ hle
      by_contra hlt
      exact absurd nucleus.exceeds (not_lt.mpr (hnone m nucleus.pos (not_le.mp hlt)))
    rw [← hlength, hfirst]
    exact List.mem_filter.mpr ⟨sort.mem_order v, decide_eq_true hv⟩

end Keep

section TopK

omit [Field K] [ExpOps K]

theorem exists_kthLargest (row : Fin V → K) {k : Nat} (hk : 1 ≤ k) (hkV : k ≤ V) :
    ∃ t, kthLargest row k = some t ∧ IsKthLargest row k t := by
  have hlength : k - 1 < ((List.ofFn row).mergeSort (fun a b => decide (b ≤ a))).length := by
    rw [List.length_mergeSort, List.length_ofFn]
    omega
  have hsome := List.getElem?_eq_getElem hlength
  have hkth := isKthLargest_of_sorted (List.mergeSort_perm _ _)
    (List.pairwise_mergeSort' (· ≥ ·) (List.ofFn row)) hsome
  rw [Nat.sub_add_cancel hk] at hkth
  exact ⟨_, hsome, hkth⟩

theorem topKLogits_eq (row : Fin V → K) {k : Nat} (hk : 1 ≤ k) (hkV : k ≤ V) :
    ∃ t, IsKthLargest row k t ∧ topKLogits row (some (k : Int)) =
      some (fun v => if t ≤ row v then (row v : WithBot K) else ⊥) := by
  obtain ⟨t, hsome, hkth⟩ := exists_kthLargest row hk hkV
  have hpos : ¬ (k : Int) ≤ 0 := by omega
  refine ⟨t, hkth, ?_⟩
  simp only [topKLogits, if_neg hpos, Int.toNat_natCast, hsome, Option.map_some, ← not_le, ite_not]

/-- The k-th largest logit itself stays. -/
theorem exists_finite_topK {row : Fin V → K} {k : Nat} {t : K} (hkth : IsKthLargest row k t) :
    ∃ v, (if t ≤ row v then (row v : WithBot K) else ⊥) ≠ ⊥ := by
  obtain ⟨v, hv⟩ := hkth.attained
  refine ⟨v, ?_⟩
  rw [if_pos hv.ge]
  exact WithBot.coe_ne_bot

end TopK

section Draw

variable [NeZero V] {probs noise : Fin V → K} {v : Fin V}

omit [ExpOps K] in
theorem multinomial_cases (hdraw : multinomial probs noise = some v) :
    (∀ u, 0 ≤ probs u) ∧ 0 < ∑ u, probs u ∧ v = argmax (fun u => probs u / noise u) := by
  unfold multinomial at hdraw
  split_ifs at hdraw with hvalid
  cases hdraw
  exact ⟨hvalid.1, hvalid.2, rfl⟩

variable [IsStrictOrderedRing K]

omit [ExpOps K] in
theorem multinomial_pos (hnoise : ∀ u, 0 < noise u) (hdraw : multinomial probs noise = some v) :
    0 < probs v := by
  obtain ⟨hnonneg, hsum, rfl⟩ := multinomial_cases hdraw
  obtain ⟨u, -, hu⟩ := Finset.exists_lt_of_sum_lt (by rwa [Finset.sum_const_zero] :
    ∑ _u : Fin V, (0 : K) < ∑ u, probs u)
  have hlarge := (div_pos hu (hnoise u)).trans_le (le_argmax (fun u => probs u / noise u) u)
  rwa [div_pos_iff_of_pos_right (hnoise _)] at hlarge

omit [ExpOps K] in
/-- Every token of positive probability is drawn for some noise. -/
theorem exists_multinomial (hnonneg : ∀ u, 0 ≤ probs u) (hv : 0 < probs v) :
    ∃ noise : Fin V → K, (∀ u, 0 < noise u) ∧ multinomial probs noise = some v := by
  refine ⟨fun u => if u = v then probs v else probs u + 1, ?_, ?_⟩
  · intro u
    dsimp only
    split_ifs
    · exact hv
    · exact add_pos_of_nonneg_of_pos (hnonneg u) one_pos
  · have hsum : 0 < ∑ u, probs u :=
      Finset.sum_pos' (fun u _ => hnonneg u) ⟨v, Finset.mem_univ v, hv⟩
    rw [multinomial, if_pos ⟨hnonneg, hsum⟩]
    apply congrArg some
    apply argmax_eq_of_forall_lt
    intro u hu
    have hpos : 0 < probs u + 1 := add_pos_of_nonneg_of_pos (hnonneg u) one_pos
    rw [if_neg hu, if_pos rfl, div_self hv.ne', div_lt_one hpos]
    exact lt_add_one (probs u)

end Draw

section Sample

variable [NeZero V]

theorem topPLogits_iff {row filtered : Fin V → WithBot K} {topP : Option K} :
    TopPLogits row topP filtered ↔ ∃ sort, filtered = topPLogits row sort topP := by
  cases topP with
  | none => exact ⟨fun h => ⟨.mergeSort row, h⟩, fun ⟨_, h⟩ => h⟩
  | some p =>
      unfold TopPLogits
      dsimp only
      split_ifs with hp
      · have hrow : ∀ sort, topPLogits row sort (some p) = row := fun sort => if_pos hp
        constructor
        · intro hsame
          exact ⟨.mergeSort row, hsame.trans (hrow _).symm⟩
        · rintro ⟨sort, rfl⟩
          exact hrow sort
      · constructor
        · rintro ⟨order, hperm, hsorted, rfl⟩
          refine ⟨⟨order, hperm, hsorted⟩, ?_⟩
          funext v
          rw [topPLogits_apply _ (not_le.mp hp), List.map_take]
        · rintro ⟨sort, rfl⟩
          refine ⟨sort.order, sort.perm, sort.sorted, ?_⟩
          funext v
          rw [topPLogits_apply _ (not_le.mp hp), List.map_take]

theorem sampleRow_of_ne {sampling : SamplingArgs K} (hne : sampling.temperature ≠ 0)
    {logits : Fin V → K} {row : Fin V → WithBot K}
    (htopK : topKLogits (scaledLogits sampling.temperature logits) sampling.topK = some row)
    (sort : (row : Fin V → WithBot K) → DescendingOrder row) (noise : Fin V → K) :
    let probs := filteredSoftmax (topPLogits row (sort row) sampling.topP)
    sampleRow sampling logits sort noise =
      (multinomial probs noise).map (fun token => (token, probs token)) := by
  rw [sampleRow, if_neg hne, htopK]
  rfl

variable [LawfulExp K] [IsStrictOrderedRing K]

/-- The predictions that a call may return are those of its runs over all sorts and draws. -/
theorem samples_iff_sampleRow {sampling : SamplingArgs K} {logits : Logits B V K}
    {pred : Prediction B V K} : Samples sampling logits pred ↔
      ∀ j, ∃ sort noise, (∀ v, 0 < noise v) ∧
        sampleRow sampling (logits j) sort noise = some (pred.token j, pred.prob j) := by
  classical
  unfold Samples
  split_ifs with hzero
  · constructor
    · rintro rfl j
      exact ⟨.mergeSort, fun _ => 1, fun _ => one_pos, if_pos hzero⟩
    · intro hruns
      have hrow : ∀ j, argmax (logits j) = pred.token j ∧
          softmax (logits j) (argmax (logits j)) = pred.prob j := by
        intro j
        obtain ⟨sort, noise, -, hrun⟩ := hruns j
        rwa [sampleRow, if_pos hzero, Option.some.injEq, Prod.mk.injEq] at hrun
      cases pred with
      | mk token prob =>
          exact congrArg₂ Prediction.mk (funext (fun j => (hrow j).1.symm))
            (funext (fun j => (hrow j).2.symm))
  · apply forall_congr'
    intro j
    constructor
    · rintro ⟨row, filtered, htopK, htopP, hpos, hprob⟩
      obtain ⟨order, rfl⟩ := topPLogits_iff.mp htopP
      obtain ⟨noise, hnoise, hdraw⟩ := exists_multinomial (filteredSoftmax_nonneg _) hpos
      refine ⟨Function.update .mergeSort row order, noise, hnoise, ?_⟩
      rw [sampleRow_of_ne hzero htopK, Function.update_self, hdraw, hprob]
      rfl
    · rintro ⟨sort, noise, hnoise, hrun⟩
      cases htopK : topKLogits (scaledLogits sampling.temperature (logits j)) sampling.topK with
      | none =>
          rw [sampleRow, if_neg hzero, htopK] at hrun
          cases hrun
      | some row =>
          rw [sampleRow_of_ne hzero htopK] at hrun
          obtain ⟨token, hdraw, hsame⟩ := Option.map_eq_some_iff.mp hrun
          rw [Prod.mk.injEq] at hsame
          rw [← hsame.1, ← hsame.2]
          exact ⟨row, _, rfl, topPLogits_iff.mpr ⟨sort row, rfl⟩, multinomial_pos hnoise hdraw, rfl⟩

/-- A row that keeps a token has one to draw. -/
theorem exists_multinomial_filtered {filtered : Fin V → WithBot K} (hfinite : ∃ v, filtered v ≠ ⊥)
    (noise : Fin V → K) : ∃ token, multinomial (filteredSoftmax filtered) noise = some token := by
  refine ⟨_, if_pos ⟨filteredSoftmax_nonneg filtered, ?_⟩⟩
  rw [sum_filteredSoftmax hfinite]
  exact one_pos

theorem exists_sampleRow (temperature : K) (logits : Fin V → K) {k : Nat} (hk : 1 ≤ k) (hkV : k ≤ V)
    {p : K} (hp : p < 1) (sort : (row : Fin V → WithBot K) → DescendingOrder row)
    {noise : Fin V → K} (hnoise : ∀ v, 0 < noise v) :
    ∃ token prob, sampleRow ⟨temperature, some (k : Int), some p⟩ logits sort noise =
      some (token, prob) ∧ 0 < prob := by
  by_cases hzero : temperature = 0
  · exact ⟨_, _, if_pos hzero, softmax_pos logits _⟩
  · obtain ⟨t, hkth, htopK⟩ := topKLogits_eq (scaledLogits temperature logits) hk hkV
    obtain ⟨m, keeps⟩ := exists_keepsNucleus (exists_finite_topK hkth) (sort _) hp
    obtain ⟨token, hdraw⟩ := exists_multinomial_filtered keeps.exists_finite noise
    refine ⟨token, _, ?_, multinomial_pos hnoise hdraw⟩
    rw [sampleRow_of_ne hzero htopK, hdraw]
    rfl

/-- The filters keep the k largest logits, ties included, and of these the nucleus. -/
theorem filters_keep_nucleus (row : Fin V → K) {k : Nat} (hk : 1 ≤ k) (hkV : k ≤ V) {p : K}
    (hp : p < 1) :
    ∃ (kept : Fin V → WithBot K) (t : K), topKLogits row (some (k : Int)) = some kept ∧
      (∀ t', IsKthLargest row k t' ↔ t' = t) ∧
      (∀ v, kept v = if t ≤ row v then (row v : WithBot K) else ⊥) ∧
      (∀ sort : DescendingOrder kept,
        (∃ v, topPLogits kept sort (some p) v ≠ ⊥) ∧
          ∃ m, KeepsNucleus kept (topPLogits kept sort (some p)) sort.order p m ∧
            ∀ v, 0 < filteredSoftmax (topPLogits kept sort (some p)) v ↔
              v ∈ sort.order.take m) ∧
      ∀ temperature sort noise, (∀ v, 0 < noise v) → ∃ token prob,
        sampleRow ⟨temperature, some (k : Int), some p⟩ row sort noise = some (token, prob) ∧
          0 < prob := by
  obtain ⟨t, hkth, htopK⟩ := topKLogits_eq row hk hkV
  refine ⟨_, t, htopK, fun t' => ⟨fun h => h.unique hkth, fun h => h ▸ hkth⟩, fun v => rfl, ?_, ?_⟩
  · intro sort
    obtain ⟨m, keeps⟩ := exists_keepsNucleus (exists_finite_topK hkth) sort hp
    refine ⟨keeps.exists_finite, m, keeps, ?_⟩
    intro v
    rw [filteredSoftmax_pos_iff keeps.exists_finite, keeps.finite_iff]
  · intro temperature sort noise hnoise
    exact exists_sampleRow temperature row hk hkV hp sort hnoise

end Sample

/-- Two tokens of which the first is the more likely. -/
def twoLogits : Fin 2 → ℝ := fun v => if v = 0 then 1 else 0

theorem filters_keep_nucleus_two : (1 / 2 : ℝ) < 1 ∧
    ∃ (kept : Fin 2 → WithBot ℝ) (t : ℝ),
      topKLogits twoLogits (some ((2 : Nat) : Int)) = some kept ∧
      (∀ t', IsKthLargest twoLogits 2 t' ↔ t' = t) ∧
      (∀ v, kept v = if t ≤ twoLogits v then (twoLogits v : WithBot ℝ) else ⊥) ∧
      (∀ sort : DescendingOrder kept,
        (∃ v, topPLogits kept sort (some (1 / 2)) v ≠ ⊥) ∧
          ∃ m, KeepsNucleus kept (topPLogits kept sort (some (1 / 2))) sort.order (1 / 2) m ∧
            ∀ v, 0 < filteredSoftmax (topPLogits kept sort (some (1 / 2))) v ↔
              v ∈ sort.order.take m) ∧
      ∀ temperature sort noise, (∀ v, 0 < noise v) → ∃ token prob,
        sampleRow ⟨temperature, some ((2 : Nat) : Int), some (1 / 2)⟩ twoLogits sort noise =
          some (token, prob) ∧ 0 < prob :=
  ⟨one_half_lt_one, filters_keep_nucleus twoLogits one_le_two le_rfl one_half_lt_one⟩

end LladaHybrid.Generate
