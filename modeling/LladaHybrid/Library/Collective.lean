import Mathlib.Algebra.BigOperators.Fin

namespace LladaHybrid.Library

/-! Ranks that run one program, each on its own shard, and meet in collectives. A value that
every rank holds a version of is a function of the rank. -/

variable {n : Nat}

section Reduce

variable {M : Type*} [AddCommMonoid M]

/-- The ranks' shards of an index range, one after another, are the whole range. -/
theorem sum_shards (n size : Nat) (f : Nat → M) :
    ∑ r : Fin n, ∑ i ∈ Finset.range size, f (r * size + i) =
      ∑ i ∈ Finset.range (n * size), f i := by
  rw [Fin.sum_univ_eq_sum_range (fun r => ∑ i ∈ Finset.range size, f (r * size + i))]
  induction n with
  | zero => simp
  | succ n ih => rw [Finset.sum_range_succ, ih, Nat.succ_mul, Finset.sum_range_add]

end Reduce

section Gather

variable {α : Type*} [Zero α]

end Gather

end LladaHybrid.Library
