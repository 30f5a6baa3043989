import LladaHybrid.Library.SortedDispatch
import Mathlib.Algebra.BigOperators.Fin
import Mathlib.Algebra.Order.BigOperators.Group.List
import Mathlib.Data.Fintype.Card
import Mathlib.Data.List.FinRange
import Mathlib.Data.List.Sort
import Mathlib.Data.Nat.Find

namespace LladaHybrid.Library

/-! Rows of values in descending order: the k-th largest of them, and the shortest leading part
whose weights add up to more than a bound. -/

variable {n : Nat} {α : Type*}

/-- The indices of a row as a descending sort returns them; the order it gives equal values is
left open. -/
structure DescendingOrder [LE α] (row : Fin n → α) where
  order : List (Fin n)
  perm : order.Perm (List.finRange n)
  sorted : order.Pairwise (fun u v => row v ≤ row u)

namespace DescendingOrder

section Indices

variable [LE α] {row : Fin n → α} (sort : DescendingOrder row)

theorem nodup : sort.order.Nodup := sort.perm.nodup_iff.mpr (List.nodup_finRange n)

theorem mem_order (v : Fin n) : v ∈ sort.order := sort.perm.mem_iff.mpr (List.mem_finRange v)

theorem sum_map {M : Type*} [AddCommMonoid M] (f : Fin n → M) :
    (sort.order.map f).sum = ∑ v, f v :=
  (sort.perm.map f).sum_eq.trans (Fin.sum_univ_def f).symm

theorem order_ne_nil [NeZero n] : sort.order ≠ [] := List.ne_nil_of_mem (sort.mem_order 0)

theorem map_range {β : Type*} (f : Nat → β) :
    (List.range sort.order.length).map f = sort.order.map (fun v => f (sort.order.idxOf v)) := by
  apply List.ext_getElem
  · rw [List.length_map, List.length_map, List.length_range]
  · intro i _ hi
    rw [List.length_map] at hi
    rw [List.getElem_map, List.getElem_map, List.getElem_range, sort.nodup.idxOf_getElem i hi]

section Leading

variable {keep : Fin n → Bool} (hkeep : ∀ u v, row v ≤ row u → keep v = true → keep u = true)

include hkeep

/-- A property that larger values inherit holds on a leading part of the order. -/
theorem take_length_filter :
    sort.order.take (sort.order.filter keep).length = sort.order.filter keep := by
  have hsplit := filter_append_filter_not (sort.sorted.imp (hkeep _ _))
  exact (congrArg _ hsplit.symm).trans List.take_left

theorem drop_length_filter :
    sort.order.drop (sort.order.filter keep).length = sort.order.filter (fun v => !keep v) := by
  have hsplit := filter_append_filter_not (sort.sorted.imp (hkeep _ _))
  exact (congrArg _ hsplit.symm).trans List.drop_left

end Leading

end Indices

/-- Merge sort is one such sort. -/
def mergeSort [LinearOrder α] (row : Fin n → α) : DescendingOrder row where
  order := (List.finRange n).mergeSort (fun u v => decide (row v ≤ row u))
  perm := List.mergeSort_perm _ _
  sorted := List.pairwise_mergeSort' (Order.Preimage row (· ≥ ·)) (List.finRange n)

end DescendingOrder

section KthLargest

variable [LinearOrder α] {row : Fin n → α} {k : Nat} {t t' : α}

/-- Fewer than `k` entries of the row are larger than `t`, and `k` are at least `t`. -/
structure IsKthLargest (row : Fin n → α) (k : Nat) (t : α) : Prop where
  attained : ∃ v, row v = t
  above : (Finset.univ.filter (fun v => t < row v)).card < k
  atLeast : k ≤ (Finset.univ.filter (fun v => t ≤ row v)).card

theorem IsKthLargest.le (h : IsKthLargest row k t) (h' : IsKthLargest row k t') : t' ≤ t := by
  by_contra hlt
  have hsubset : Finset.univ.filter (fun v => t' ≤ row v) ⊆
      Finset.univ.filter (fun v => t < row v) :=
    Finset.monotone_filter_right _ (fun _ _ hle => (not_le.mp hlt).trans_le hle)
  exact absurd (h'.atLeast.trans (Finset.card_le_card hsubset)) (not_le.mpr h.above)

theorem IsKthLargest.unique (h : IsKthLargest row k t) (h' : IsKthLargest row k t') : t = t' :=
  le_antisymm (h'.le h) (h.le h')

omit [LinearOrder α] in
theorem card_filter_row (row : Fin n → α) (P : α → Prop) [DecidablePred P] :
    (Finset.univ.filter (fun v => P (row v))).card = (List.ofFn row).countP (fun x => P x) := by
  rw [List.ofFn_eq_map, List.countP_map, List.countP_eq_length_filter,
    ← List.toFinset_card_of_nodup ((List.nodup_finRange n).filter _)]
  congr 1
  ext v
  simp

theorem isKthLargest_of_sorted {values : List α} (hperm : values.Perm (List.ofFn row))
    (hsorted : values.Pairwise (· ≥ ·)) {i : Nat} (hi : values[i]? = some t) :
    IsKthLargest row (i + 1) t := by
  obtain ⟨hlength, hget⟩ := List.getElem?_eq_some_iff.mp hi
  have hsplit : values = values.take i ++ t :: values.drop (i + 1) := by
    rw [← hget, ← List.drop_eq_getElem_cons hlength, List.take_append_drop]
  have hbefore : (values.take i).length = i := List.length_take_of_le hlength.le
  have hpairs := hsorted
  rw [hsplit, List.pairwise_append, List.pairwise_cons] at hpairs
  obtain ⟨-, ⟨hafter, -⟩, hfront⟩ := hpairs
  refine ⟨?_, ?_, ?_⟩
  · exact List.mem_ofFn.mp (hperm.mem_iff.mp (List.mem_of_getElem? hi))
  · have hnone : (values.drop (i + 1)).countP (fun x => t < x) = 0 := by
      rw [List.countP_eq_zero]
      intro x hx
      simpa using hafter x hx
    rw [card_filter_row, ← hperm.countP_eq, hsplit, List.countP_append,
      List.countP_cons_of_neg (by simp), hnone, Nat.add_zero, Nat.lt_succ_iff]
    exact List.countP_le_length.trans hbefore.le
  · have hall : (values.take i).countP (fun x => t ≤ x) = i := by
      rw [List.countP_eq_length.mpr, hbefore]
      intro x hx
      exact decide_eq_true (hfront x hx t List.mem_cons_self)
    rw [card_filter_row, ← hperm.countP_eq, hsplit, List.countP_append, hall,
      List.countP_cons_of_pos (by simp)]
    omega

end KthLargest

section Nucleus

variable {K : Type*} [AddCommMonoid K] [LinearOrder K]

/-- `torch.cumsum`. -/
def cumsum (weights : List K) : List K :=
  (List.range weights.length).map (fun i => (weights.take (i + 1)).sum)

/-- `mask[1:] = mask[:-1]; mask[0] = False`. -/
def shiftRight (mask : List Bool) : List Bool := false :: mask.dropLast

/-- The first `m` weights are the shortest leading part, of one weight at least, that adds up to
more than `p`. -/
structure Nucleus (weights : List K) (p : K) (m : Nat) : Prop where
  pos : 0 < m
  le_length : m ≤ weights.length
  exceeds : p < (weights.take m).sum
  shortest : ∀ j, 0 < j → j < m → (weights.take j).sum ≤ p

variable {weights : List K} {p : K} {m : Nat}

theorem exists_nucleus (hne : weights ≠ []) (hp : p < weights.sum) : ∃ m, Nucleus weights p m := by
  classical
  have hexists : ∃ m, 0 < m ∧ p < (weights.take m).sum := by
    refine ⟨weights.length, List.length_pos_iff.mpr hne, ?_⟩
    rwa [List.take_length]
  obtain ⟨hpos, hexceeds⟩ := Nat.find_spec hexists
  refine ⟨Nat.find hexists, hpos, ?_, hexceeds, ?_⟩
  · apply Nat.find_min' hexists
    rw [List.take_length]
    exact ⟨List.length_pos_iff.mpr hne, hp⟩
  · intro j hj hlt
    exact not_lt.mp (fun hmore => Nat.find_min hexists hlt ⟨hj, hmore⟩)

theorem shiftRight_cumsum (hne : weights ≠ []) :
    shiftRight ((cumsum weights).map (fun c => decide (p < c))) =
      (List.range weights.length).map (fun i => decide (0 < i ∧ p < (weights.take i).sum)) := by
  obtain ⟨length, hlength⟩ := Nat.exists_eq_succ_of_ne_zero (mt List.length_eq_zero_iff.mp hne)
  rw [cumsum, hlength, Nat.succ_eq_add_one, List.map_map, List.range_succ, List.map_append,
    List.map_singleton, shiftRight, List.dropLast_concat, ← List.range_succ,
    List.range_succ_eq_map, List.map_cons, List.map_map]
  simp [Function.comp_def]

variable [IsOrderedAddMonoid K]

/-- The places past the nucleus are those with more than `p` before them. -/
theorem Nucleus.le_iff (nucleus : Nucleus weights p m) (hnonneg : ∀ w ∈ weights, 0 ≤ w) (i : Nat) :
    m ≤ i ↔ 0 < i ∧ p < (weights.take i).sum := by
  constructor
  · intro hle
    refine ⟨nucleus.pos.trans_le hle, nucleus.exceeds.trans_le ?_⟩
    apply (List.take_sublist_take_left hle).sum_le_sum
    intro w hw
    exact hnonneg w (List.mem_of_mem_take hw)
  · rintro ⟨hpos, hmore⟩
    by_contra hlt
    exact absurd hmore (not_lt.mpr (nucleus.shortest i hpos (not_le.mp hlt)))

/-- What follows the nucleus of a row is not needed to exceed the bound. -/
theorem Nucleus.le_of_sum_drop (nucleus : Nucleus weights p m) (hnonneg : ∀ w ∈ weights, 0 ≤ w)
    (hp : p < weights.sum) {i : Nat} (hi : 0 < i) (hrest : (weights.drop i).sum = 0) : m ≤ i := by
  rw [nucleus.le_iff hnonneg]
  refine ⟨hi, ?_⟩
  rwa [← List.sum_take_add_sum_drop weights i, hrest, add_zero] at hp

end Nucleus

end LladaHybrid.Library
