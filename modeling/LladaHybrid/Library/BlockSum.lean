import LladaHybrid.Library.BlockScan
import Mathlib.Algebra.BigOperators.Group.Finset.Basic
import Mathlib.Data.Finset.Lattice.Fold
import Mathlib.Data.Fintype.BigOperators

namespace LladaHybrid.Library

/-! Sums over a sequence cut into blocks. -/

/-- The positions of block `n` of a sequence; the last block may be short. -/
def blockOf (S length n : Nat) : Finset Nat := (Finset.range length).filter (· / S = n)

def blocksBefore (S length n : Nat) : Finset Nat := (Finset.range length).filter (· / S < n)

variable {S length : Nat}

theorem blockOf_nonempty (S : Nat) {t : Nat} (ht : t < length) :
    (blockOf S length (t / S)).Nonempty :=
  ⟨t, Finset.mem_filter.mpr ⟨Finset.mem_range.mpr ht, rfl⟩⟩

/-- The rows of a block that hold a position of the sequence. -/
def rowsOf (S length n : Nat) : Finset (Fin S) :=
  Finset.univ.filter (fun s => n * S + s < length)

@[simp] theorem mem_rowsOf {n : Nat} {s : Fin S} :
    s ∈ rowsOf S length n ↔ n * S + s < length := by
  simp [rowsOf]

theorem rowsOf_nonempty (S : Nat) [NeZero S] {t : Nat} (ht : t < length) :
    (rowsOf S length (t / S)).Nonempty :=
  ⟨Fin.ofNat S t, mem_rowsOf.mpr ((Nat.div_add_mod' t S).trans_lt ht)⟩

theorem blockOf_eq_image [NeZero S] (n : Nat) :
    blockOf S length n = (rowsOf S length n).image (fun s : Fin S => n * S + s) := by
  ext j
  simp only [blockOf, Finset.mem_filter, Finset.mem_range, Finset.mem_image, mem_rowsOf]
  constructor
  · rintro ⟨hj, rfl⟩
    have hposition : j / S * S + (Fin.ofNat S j).val = j := Nat.div_add_mod' j S
    exact ⟨Fin.ofNat S j, hposition.trans_lt hj, hposition⟩
  · rintro ⟨s, hs, rfl⟩
    exact ⟨hs, block_div n s⟩

theorem sup'_blockOf [NeZero S] {α : Type*} [SemilatticeSup α] {n : Nat}
    (hblock : (blockOf S length n).Nonempty) (hrows : (rowsOf S length n).Nonempty)
    (f : Nat → α) :
    (blockOf S length n).sup' hblock f =
      (rowsOf S length n).sup' hrows (fun s => f (n * S + s)) := by
  rw [Finset.sup'_congr hblock (blockOf_eq_image n) (fun _ _ => rfl), Finset.sup'_image]
  rfl

section Sum

variable {M : Type*} [AddCommMonoid M]

/-- A sum over the rows of a padded block is one over its positions. -/
theorem sum_rows [NeZero S] (length n : Nat) (f : Nat → M) :
    ∑ s : Fin S, (if n * S + s < length then f (n * S + s) else 0) =
      ∑ j ∈ blockOf S length n, f j := by
  rw [← Finset.sum_filter, blockOf_eq_image, Finset.sum_image]
  · rfl
  · intro s _ s' _ hs
    exact Fin.ext (Nat.add_left_cancel hs)

@[simp] theorem sum_blocksBefore_zero (f : Nat → M) :
    ∑ j ∈ blocksBefore S length 0, f j = 0 := by
  simp [blocksBefore]

theorem sum_blocksBefore_succ (n : Nat) (f : Nat → M) :
    ∑ j ∈ blocksBefore S length (n + 1), f j =
      ∑ j ∈ blocksBefore S length n, f j + ∑ j ∈ blockOf S length n, f j := by
  simp only [blocksBefore, blockOf, Finset.sum_filter, ← Finset.sum_add_distrib]
  apply Finset.sum_congr rfl
  intro j _
  rcases Nat.lt_trichotomy (j / S) n with hlt | heq | hgt
  · simp [hlt, hlt.ne, Nat.lt_succ_of_lt hlt]
  · simp [heq]
  · simp [hgt.ne', Nat.not_lt.mpr hgt, Nat.not_lt.mpr hgt.le]

end Sum

theorem blocksBefore_all {n : Nat} (hall : ∀ j < length, j / S < n) :
    blocksBefore S length n = Finset.range length :=
  Finset.filter_true_of_mem (fun j hj => hall j (Finset.mem_range.mp hj))

end LladaHybrid.Library
