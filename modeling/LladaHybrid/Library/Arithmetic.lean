import Mathlib.Algebra.Order.Field.Basic
import Mathlib.Algebra.Order.BigOperators.Group.Finset
import Mathlib.Algebra.BigOperators.Field
import Mathlib.Analysis.SpecialFunctions.Pow.Real

namespace LladaHybrid.Library

/-! Exact arithmetic with an exponential. Every numeric definition of the
development is stated over a field with these operations, so that it evaluates
wherever they do; the reals are one instance. -/

/-- The transcendental primitives a numeric program may call. -/
class ExpOps (K : Type*) where
  exp : K → K
  exp2 : K → K
  log2e : K

export ExpOps (exp exp2 log2e)

class LawfulExp (K : Type*) [Field K] [LinearOrder K] [ExpOps K] : Prop where
  exp_pos : ∀ x : K, 0 < exp x
  exp_add : ∀ x y : K, exp (x + y) = exp x * exp y
  exp2_mul_log2e : ∀ x : K, exp2 (x * log2e) = exp x

noncomputable instance : ExpOps ℝ where
  exp := Real.exp
  exp2 x := (2 : ℝ) ^ x
  log2e := (Real.log 2)⁻¹

instance : LawfulExp ℝ where
  exp_pos := Real.exp_pos
  exp_add := Real.exp_add
  exp2_mul_log2e x := by
    have hlog : Real.log 2 ≠ 0 := (Real.log_pos one_lt_two).ne'
    change (2 : ℝ) ^ (x * (Real.log 2)⁻¹) = Real.exp x
    rw [Real.rpow_def_of_pos two_pos, mul_comm x, mul_inv_cancel_left₀ hlog]

/-- Larger logits have larger weights. -/
class StrictExp (K : Type*) [Field K] [LinearOrder K] [ExpOps K] : Prop extends LawfulExp K where
  exp_lt_exp : ∀ {x y : K}, x < y → exp x < exp y

instance : StrictExp ℝ where
  exp_lt_exp := Real.exp_lt_exp.mpr

section Softmax

variable {K : Type*} [Field K] [LinearOrder K] [ExpOps K]

def sigmoid (x : K) : K := 1 / (1 + exp (-x))

variable {ι : Type*} [Fintype ι]

def softmax (x : ι → K) (i : ι) : K := exp (x i) / ∑ j, exp (x j)

variable [LawfulExp K]

open LawfulExp

theorem exp_zero : exp (0 : K) = 1 := by
  have hsquare : exp (0 : K) * exp 0 = exp 0 := by
    rw [← exp_add, add_zero]
  exact (mul_eq_left₀ (exp_pos (0 : K)).ne').mp hsquare

theorem exp_sub (x y : K) : exp (x - y) = exp x / exp y := by
  rw [eq_div_iff (exp_pos y).ne', ← exp_add, sub_add_cancel]

/-- Subtracting a row constant before exponentiating does not change the
normalised weights. -/
theorem softmax_shift (x : ι → K) (m : K) (i : ι) :
    exp (x i - m) / ∑ j, exp (x j - m) = softmax x i := by
  have hsum : ∑ j, exp (x j - m) = (∑ j, exp (x j)) / exp m := by
    rw [Finset.sum_div]
    exact Finset.sum_congr rfl (fun j _ => exp_sub (x j) m)
  rw [hsum, exp_sub, softmax, div_div_div_cancel_right₀ (exp_pos m).ne']

variable [IsStrictOrderedRing K]

theorem sigmoid_pos (x : K) : 0 < sigmoid x :=
  one_div_pos.mpr (add_pos one_pos (exp_pos (-x)))

omit [LawfulExp K] in
theorem sigmoid_injective [StrictExp K] : Function.Injective (sigmoid : K → K) := by
  apply StrictMono.injective
  intro x y hlt
  have hexp : exp (-y) < exp (-x) := StrictExp.exp_lt_exp (neg_lt_neg hlt)
  exact one_div_lt_one_div_of_lt (add_pos one_pos (exp_pos (-y))) (add_lt_add_right hexp 1)

theorem sum_exp_pos [Nonempty ι] (x : ι → K) : 0 < ∑ j, exp (x j) :=
  Finset.sum_pos (fun j _ => exp_pos (x j)) Finset.univ_nonempty

theorem softmax_pos [Nonempty ι] (x : ι → K) (i : ι) : 0 < softmax x i :=
  div_pos (exp_pos (x i)) (sum_exp_pos x)

theorem sum_softmax [Nonempty ι] (x : ι → K) : ∑ i, softmax x i = 1 := by
  simp only [softmax, ← Finset.sum_div]
  exact div_self (sum_exp_pos x).ne'

omit [ExpOps K] [LawfulExp K] in
theorem div_sum_le_one {f : ι → K} (hf : ∀ j, 0 ≤ f j) (i : ι) : f i / ∑ j, f j ≤ 1 :=
  div_le_one_of_le₀ (Finset.single_le_sum (fun j _ => hf j) (Finset.mem_univ i))
    (Finset.sum_nonneg (fun j _ => hf j))

theorem softmax_le_one (x : ι → K) (i : ι) : softmax x i ≤ 1 :=
  div_sum_le_one (fun j => (exp_pos (x j)).le) i

omit [Fintype ι] in
/-- A shift by an attained value keeps the shifted partition sum at least one,
so clamping it from below by a constant up to one has no effect. -/
theorem one_le_sum_exp_sub {rows : Finset ι} (x : ι → K) {k : ι} (hk : k ∈ rows) :
    1 ≤ ∑ j ∈ rows, exp (x j - x k) := by
  calc
    (1 : K) = exp (x k - x k) := by rw [sub_self, exp_zero]
    _ ≤ ∑ j ∈ rows, exp (x j - x k) :=
      Finset.single_le_sum (f := fun j => exp (x j - x k))
        (fun j _ => (exp_pos (x j - x k)).le) hk

end Softmax

end LladaHybrid.Library
