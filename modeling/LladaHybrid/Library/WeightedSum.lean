import Mathlib.Algebra.Order.Field.Basic
import Mathlib.Algebra.Order.BigOperators.Ring.Finset

namespace LladaHybrid.Library

/-! Sums of numbers of an interval with non-negative weights, by their total weight. -/

variable {K : Type*} [Field K] [LinearOrder K]

/-- `x` adds up numbers between `lo` and `hi` with non-negative weights of total `w`. -/
structure WeightedSum (lo hi w x : K) : Prop where
  weight_nonneg : 0 ≤ w
  lower : lo * w ≤ x
  upper : x ≤ hi * w

namespace WeightedSum

variable {lo hi w w' x x' : K}

theorem zero : WeightedSum lo hi 0 0 :=
  ⟨le_rfl, (mul_zero lo).le, (mul_zero hi).ge⟩

variable [IsStrictOrderedRing K]

theorem of_mem {a : K} (hw : 0 ≤ w) (hlo : lo ≤ a) (hhi : a ≤ hi) :
    WeightedSum lo hi w (w * a) where
  weight_nonneg := hw
  lower := by
    rw [mul_comm w]
    exact mul_le_mul_of_nonneg_right hlo hw
  upper := by
    rw [mul_comm w]
    exact mul_le_mul_of_nonneg_right hhi hw

theorem add (h : WeightedSum lo hi w x) (h' : WeightedSum lo hi w' x') :
    WeightedSum lo hi (w + w') (x + x') where
  weight_nonneg := add_nonneg h.weight_nonneg h'.weight_nonneg
  lower := by
    rw [mul_add]
    exact add_le_add h.lower h'.lower
  upper := by
    rw [mul_add]
    exact add_le_add h.upper h'.upper

theorem smul {c : K} (hc : 0 ≤ c) (h : WeightedSum lo hi w x) :
    WeightedSum lo hi (c * w) (c * x) where
  weight_nonneg := mul_nonneg hc h.weight_nonneg
  lower := by
    rw [mul_left_comm]
    exact mul_le_mul_of_nonneg_left h.lower hc
  upper := by
    rw [mul_left_comm]
    exact mul_le_mul_of_nonneg_left h.upper hc

theorem sum {ι : Type*} {items : Finset ι} {weight value : ι → K}
    (h : ∀ i ∈ items, WeightedSum lo hi (weight i) (value i)) :
    WeightedSum lo hi (∑ i ∈ items, weight i) (∑ i ∈ items, value i) where
  weight_nonneg := Finset.sum_nonneg (fun i hi => (h i hi).weight_nonneg)
  lower := by
    rw [Finset.mul_sum]
    exact Finset.sum_le_sum (fun i hi => (h i hi).lower)
  upper := by
    rw [Finset.mul_sum]
    exact Finset.sum_le_sum (fun i hi => (h i hi).upper)

/-- Around zero, more weight only widens the bounds. -/
theorem mono (h : WeightedSum lo hi w x) (hlo : lo ≤ 0) (hhi : 0 ≤ hi) (hle : w ≤ w') :
    WeightedSum lo hi w' x where
  weight_nonneg := h.weight_nonneg.trans hle
  lower := (mul_le_mul_of_nonpos_left hle hlo).trans h.lower
  upper := h.upper.trans (mul_le_mul_of_nonneg_left hle hhi)

theorem div_mem (h : WeightedSum lo hi w x) (hw : 0 < w) : lo ≤ x / w ∧ x / w ≤ hi :=
  ⟨(le_div_iff₀ hw).mpr h.lower, (div_le_iff₀ hw).mpr h.upper⟩

end WeightedSum

end LladaHybrid.Library
