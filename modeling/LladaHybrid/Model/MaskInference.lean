import LladaHybrid.Model.Transformer
import LladaHybrid.Attention.OrderInvariant

namespace LladaHybrid.Model

open LladaHybrid.Attention

/-! The attention mask on its way to the linear attention: `LLaDA2MoeModel.forward` turns a
0/1 mask into an additive one, and `_infer_key_valid_from_4d_mask` guesses from the entries
of the batch which of the two it has. -/

variable {B L : Nat} {K α : Type*}

/-- A mask of shape `(B, 1, L, L)`. -/
abbrev BlockMask (B L : Nat) (K : Type*) := Fin B → Fin L → Fin L → K

section Mask

variable [Field K] [LinearOrder K]

/-- `torch.where(mask.bool(), 0, -inf)`, with `none` for the infinite entry. -/
def additiveMask (mask : BlockMask B L K) : BlockMask B L (Option K) :=
  fun b i j => if mask b i j ≠ 0 then some 0 else none

/-- `attention_mask[..., :padded_L, :padded_L]` of one batch element. -/
def croppedRows (paddedL : Nat) (rows : Fin L → Fin L → α) : List (List α) :=
  ((List.ofFn rows).take paddedL).map (fun row => (List.ofFn row).take paddedL)

/-- What the function takes a float mask for. -/
def inferAttentionMask (attn : BlockMask B L (Option K)) (paddedL : Nat) (b : Fin B) :
    AttentionMask K :=
  if (List.finRange B).any (fun b =>
      (croppedRows paddedL (attn b)).any (fun row => row.any Option.isNone)) then
    .additive (croppedRows paddedL (attn b))
  else
    .float ((croppedRows paddedL (attn b)).map (fun row => row.map (fun entry => entry.getD 0)))

def inferKeyValidFrom4dMask (attn : BlockMask B L (Option K)) (paddedL : Nat) (b : Fin B)
    (j : Nat) : K :=
  (inferAttentionMask attn paddedL b).keyValid paddedL j

/-- A key is valid just if some query of the original mask attends to it. -/
structure KeysRecovered (mask : BlockMask B L K) (paddedL : Nat) : Prop where
  inside : ∀ b (j : Fin L), inferKeyValidFrom4dMask (additiveMask mask) paddedL b j =
    if ∃ i, mask b i j ≠ 0 then 1 else 0
  outside : ∀ b j, L ≤ j → inferKeyValidFrom4dMask (additiveMask mask) paddedL b j = 0

end Mask

theorem croppedRows_of_le {paddedL : Nat} (hpad : L ≤ paddedL) (rows : Fin L → Fin L → α) :
    croppedRows paddedL rows = List.ofFn (fun i => List.ofFn (rows i)) := by
  have htake : ∀ {β : Type _} (f : Fin L → β), (List.ofFn f).take paddedL = List.ofFn f :=
    fun f => List.take_of_length_le (by simpa using hpad)
  rw [croppedRows, htake]
  simp [htake, List.map_ofFn, Function.comp_def]

theorem map_croppedRows {β : Type*} (f : α → β) (paddedL : Nat) (rows : Fin L → Fin L → α) :
    (croppedRows paddedL rows).map (fun row => row.map f) =
      croppedRows paddedL (fun i j => f (rows i j)) := by
  simp [croppedRows, List.map_take, List.map_ofFn, Function.comp_def]

/-- Rows are read past their end as a default that the test rejects. -/
theorem any_croppedRows {paddedL : Nat} (hpad : L ≤ paddedL) (rows : Fin L → Fin L → α)
    (test : α → Bool) (default : α) (hdefault : test default = false) (j : Nat) :
    ((croppedRows paddedL rows).take paddedL).any (fun row => test (row.getD j default)) = true ↔
      ∃ i, ∃ hj : j < L, test (rows i ⟨j, hj⟩) = true := by
  rw [croppedRows_of_le hpad, List.take_of_length_le (by simpa using hpad)]
  simp only [List.any_eq_true, List.mem_ofFn, exists_exists_eq_and]
  apply exists_congr
  intro i
  by_cases hj : j < L
  · simp [hj]
  · simp [hj, hdefault]

section Inference

variable [Field K] [LinearOrder K] {mask : BlockMask B L K} {paddedL : Nat}

theorem any_isNone_additiveMask (hpad : L ≤ paddedL) (mask : BlockMask B L K) :
    (List.finRange B).any (fun b => (croppedRows paddedL (additiveMask mask b)).any
        (fun row => row.any Option.isNone)) = true ↔
      ∃ b i j, mask b i j = 0 := by
  simp [croppedRows_of_le hpad, List.any_eq_true, additiveMask]

/-- With an infinite entry in the batch the finite entries are the attended ones. -/
theorem inferKeyValid_of_zero (hpad : L ≤ paddedL) (hzero : ∃ b i j, mask b i j = 0) (b : Fin B)
    (j : Nat) :
    inferKeyValidFrom4dMask (additiveMask mask) paddedL b j =
      if ∃ i, ∃ hj : j < L, mask b i ⟨j, hj⟩ ≠ 0 then 1 else 0 := by
  rw [inferKeyValidFrom4dMask, inferAttentionMask,
    if_pos ((any_isNone_additiveMask hpad mask).mpr hzero), AttentionMask.keyValid]
  have hvisible := any_croppedRows hpad (additiveMask mask b) Option.isSome none rfl j
  refine if_congr (hvisible.trans ?_) rfl rfl
  simp [additiveMask]

/-- Without one the mask is taken for a 0/1 mask, all of whose entries are zero. -/
theorem inferKeyValid_of_ones (hpad : L ≤ paddedL) (hones : ¬ ∃ b i j, mask b i j = 0)
    (b : Fin B) (j : Nat) : inferKeyValidFrom4dMask (additiveMask mask) paddedL b j = 0 := by
  rw [inferKeyValidFrom4dMask, inferAttentionMask,
    if_neg (fun hnone => hones ((any_isNone_additiveMask hpad mask).mp hnone)),
    AttentionMask.keyValid, map_croppedRows]
  have hvisible := any_croppedRows hpad (fun i j => (additiveMask mask b i j).getD 0)
    (fun x => decide (x ≠ 0)) 0 (by simp) j
  refine if_neg (fun hseen => ?_)
  obtain ⟨i, hj, hentry⟩ := hvisible.mp hseen
  revert hentry
  unfold additiveMask
  split_ifs <;> simp

theorem keysRecovered_iff (hpad : L ≤ paddedL) (mask : BlockMask B L K) :
    KeysRecovered mask paddedL ↔ B = 0 ∨ L = 0 ∨ ∃ b i j, mask b i j = 0 := by
  constructor
  · intro recovered
    by_contra hnot
    simp only [not_or] at hnot
    obtain ⟨hB, hL, hones⟩ := hnot
    let b : Fin B := ⟨0, Nat.pos_of_ne_zero hB⟩
    let j : Fin L := ⟨0, Nat.pos_of_ne_zero hL⟩
    have hseen : ∃ i, mask b i j ≠ 0 := ⟨j, fun hzero => hones ⟨b, j, j, hzero⟩⟩
    have hvalid := recovered.inside b j
    rw [if_pos hseen, inferKeyValid_of_ones hpad hones] at hvalid
    exact zero_ne_one hvalid
  · intro hcondition
    rcases hcondition with rfl | rfl | hzero
    · exact ⟨fun b => b.elim0, fun b => b.elim0⟩
    · refine ⟨fun b j => j.elim0, ?_⟩
      intro b j _
      exact inferKeyValid_of_ones hpad (fun ⟨_, i, _⟩ => i.elim0) b j
    · constructor
      · intro b j
        rw [inferKeyValid_of_zero hpad hzero]
        apply if_congr _ rfl rfl
        simp
      · intro b j hj
        rw [inferKeyValid_of_zero hpad hzero, if_neg]
        rintro ⟨i, hlt, -⟩
        omega

end Inference

/-- The mask `generate` passes while it decodes block `numBlock`. -/
def windowMask (batchSize blockLength numBlock : Nat) :
    BlockMask batchSize ((numBlock + 1) * blockLength) ℚ :=
  fun _ p t => if blockDiffusionAttentionMask blockLength p t then 1 else 0

theorem keysRecovered_second_block : KeysRecovered (windowMask 1 2 1) 4 :=
  (keysRecovered_iff (by decide) _).mpr (.inr (.inr ⟨0, 0, 2, by decide +kernel⟩))

/-- In the first window every query attends to every key, and every key is dropped. -/
theorem not_keysRecovered_first_block : ¬ KeysRecovered (windowMask 1 2 0) 2 := by
  intro recovered
  exact absurd (recovered.inside 0 0) (by decide +kernel)

end LladaHybrid.Model
