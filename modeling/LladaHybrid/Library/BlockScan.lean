import Mathlib.Algebra.Order.Ring.Nat
import Mathlib.Algebra.Order.ZeroLEOne

namespace LladaHybrid.Library

/-! Loops over the blocks of a sequence that carry a state and append one output a block. -/

variable {σ ο : Type*}

/-- `for n in range(blocks): state, out = step(n, state); outs.append(out)`. -/
def blockScan (step : Nat → σ → σ × ο) (init : σ) : Nat → σ × List ο
  | 0 => (init, [])
  | n + 1 =>
      let next := step n (blockScan step init n).1
      (next.1, (blockScan step init n).2 ++ [next.2])

variable {step : Nat → σ → σ × ο} {init : σ}

@[simp] theorem blockScan_succ_fst (n : Nat) :
    (blockScan step init (n + 1)).1 = (step n (blockScan step init n).1).1 := rfl

@[simp] theorem length_blockScan (n : Nat) : (blockScan step init n).2.length = n := by
  induction n with
  | zero => rfl
  | succ n ih => rw [blockScan, List.length_append, List.length_singleton, ih]

theorem getElem?_blockScan {n blocks : Nat} (hn : n < blocks) :
    (blockScan step init blocks).2[n]? = some (step n (blockScan step init n).1).2 := by
  induction blocks with
  | zero => exact absurd hn (Nat.not_lt_zero n)
  | succ blocks ih =>
      rw [blockScan]
      rcases Nat.lt_succ_iff_lt_or_eq.mp hn with hearlier | rfl
      · rw [List.getElem?_append_left (by rwa [length_blockScan]), ih hearlier]
      · rw [List.getElem?_append_right (length_blockScan n).le, length_blockScan, Nat.sub_self]
        rfl

theorem blockScan_congr {step' : Nat → σ → σ × ο} {blocks : Nat}
    (hstep : ∀ n < blocks, step n = step' n) :
    blockScan step init blocks = blockScan step' init blocks := by
  induction blocks with
  | zero => rfl
  | succ blocks ih =>
      rw [blockScan, blockScan, ih (fun n hn => hstep n (Nat.lt_succ_of_lt hn)),
        hstep blocks (Nat.lt_succ_self blocks)]

section Position

variable {S : Nat}

theorem row_lt {n blocks : Nat} (hn : n < blocks) (s : Fin S) : n * S + s < blocks * S := by
  have hend := Nat.mul_le_mul_right S (Nat.succ_le_of_lt hn)
  rw [Nat.succ_mul] at hend
  have hs := s.isLt
  omega

@[simp] theorem block_div (n : Nat) (s : Fin S) : (n * S + s) / S = n := by
  rw [Nat.mul_comm, Nat.mul_add_div s.pos, Nat.div_eq_of_lt s.isLt, Nat.add_zero]

theorem block_mod (n : Nat) (s : Fin S) : (n * S + s) % S = s := by
  rw [Nat.add_comm, Nat.add_mul_mod_self_right, Nat.mod_eq_of_lt s.isLt]

@[simp] theorem block_row [NeZero S] (n : Nat) (s : Fin S) : Fin.ofNat S (n * S + s) = s := by
  apply Fin.ext
  rw [Fin.val_ofNat, block_mod]

end Position

end LladaHybrid.Library
