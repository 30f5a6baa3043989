import LladaHybrid.Attention.HybridAttention
import LladaHybrid.Library.BlockScan

namespace LladaHybrid.Attention

open LladaHybrid.Library

/-! The block recurrence of `forward` on whole blocks: what a block computes depends on
its own tokens and on the state it starts from. -/

variable {D F S : Nat} {K : Type*}

theorem numBlocks_mul [NeZero S] (n : Nat) : numBlocks (n * S) S = n := by
  have hS : 0 < S := NeZero.pos S
  rw [numBlocks, show n * S + S - 1 = S - 1 + n * S by omega,
    Nat.add_mul_div_right _ _ hS, Nat.div_eq_of_lt (by omega), Nat.zero_add]

variable [Field K]

theorem keyValid_mul [NeZero S] (n : Nat) :
    keyValid S (n * S) (none : Option (List K)) = none := by
  rw [keyValid, numBlocks_mul, Nat.sub_self, if_neg (Nat.lt_irrefl 0)]

theorem blockTokens_of_le {length n : Nat} (hle : (n + 1) * S ≤ length) (x : Nat → Vec D K)
    (s : Fin S) : blockTokens S length x n s = x (n * S + s) := by
  have hs := s.isLt
  rw [Nat.succ_mul] at hle
  rw [blockTokens, if_pos (by omega)]

def maskAt (valid : Option (Nat → K)) (p : Nat) : K :=
  match valid with
  | none => 1
  | some mask => mask p

theorem maskKeys_eq {α : Type*} (valid : Option (Nat → K)) (n : Nat) (x : Fin S → α → K)
    (s : Fin S) (a : α) : maskKeys valid n x s a = x s a * maskAt valid (n * S + s) := by
  cases valid with
  | none => exact (mul_one (x s a)).symm
  | some mask => rfl

theorem maskAt_keyValid_none {length n : Nat} (hn : n < numBlocks length S) (s : Fin S) :
    maskAt (keyValid S length (none : Option (List K))) (n * S + s) =
      if n * S + s < length then 1 else 0 := by
  have hrow := row_lt hn s
  unfold keyValid
  split_ifs with hpad hlt hlt
  · exact if_pos hlt
  · exact if_neg hlt
  · rfl
  · omega

theorem maskKeys_padding {α : Type*} {length n : Nat} (hn : n < numBlocks length S)
    (x : Fin S → α → K) (s : Fin S) (a : α) :
    maskKeys (keyValid S length none) n x s a = if n * S + s < length then x s a else 0 := by
  rw [maskKeys_eq, maskAt_keyValid_none hn]
  split_ifs
  · exact mul_one _
  · exact mul_zero _

@[simp] theorem mem_validKeys [LinearOrder K] {valid : Option (Nat → K)} {n : Nat} {s : Fin S} :
    s ∈ validKeys valid n ↔ maskAt valid (n * S + s) ≠ 0 := by
  cases valid with
  | none => simp [validKeys, maskAt]
  | some mask => simp [validKeys, maskAt]

/-- Block `n` of one sequence is block `n'` of another, apart from masked keys and
values. -/
structure SameBlock (S : Nat) (tokens tokens' : HeadTokens D K)
    (valid valid' : Option (Nat → K)) (n n' : Nat) : Prop where
  q : blockTokens S tokens.length tokens.q n = blockTokens S tokens'.length tokens'.q n'
  mask : ∀ s : Fin S, maskAt valid (n * S + s) = maskAt valid' (n' * S + s)
  k : ∀ s : Fin S, maskAt valid (n * S + s) ≠ 0 →
    blockTokens S tokens.length tokens.k n s = blockTokens S tokens'.length tokens'.k n' s
  v : ∀ s : Fin S, maskAt valid (n * S + s) ≠ 0 →
    blockTokens S tokens.length tokens.v n s = blockTokens S tokens'.length tokens'.v n' s

variable {m : HybridParams D F K} {h n n' : Nat} {tokens tokens' : HeadTokens D K}
  {valid valid' : Option (Nat → K)} {initial initial' : RecurrentState D F K}

theorem sameBlock_of_forall (hle : (n + 1) * S ≤ tokens.length)
    (hle' : (n' + 1) * S ≤ tokens'.length)
    (hsame : ∀ s < S, tokens.q (n * S + s) = tokens'.q (n' * S + s) ∧
      tokens.k (n * S + s) = tokens'.k (n' * S + s) ∧
      tokens.v (n * S + s) = tokens'.v (n' * S + s)) :
    SameBlock S tokens tokens' none none n n' := by
  refine ⟨funext ?_, fun _ => rfl, ?_, ?_⟩
  all_goals
    intro s
    obtain ⟨hq, hk, hv⟩ := hsame s s.isLt
    rw [blockTokens_of_le hle, blockTokens_of_le hle']
    simp only [hq, hk, hv, implies_true]

theorem maskKeys_congr {α : Type*} {x x' : Fin S → α → K}
    (hmask : ∀ s : Fin S, maskAt valid (n * S + s) = maskAt valid' (n' * S + s))
    (hx : ∀ s : Fin S, maskAt valid (n * S + s) ≠ 0 → x s = x' s) :
    maskKeys valid n x = maskKeys valid' n' x' := by
  funext s a
  rw [maskKeys_eq, maskKeys_eq, ← hmask s]
  by_cases hzero : maskAt valid (n * S + s) = 0
  · rw [hzero, mul_zero, mul_zero]
  · rw [hx s hzero]

theorem SameBlock.blockValues (hblock : SameBlock S tokens tokens' valid valid' n n') :
    blockValues tokens valid S n = blockValues tokens' valid' S n' :=
  maskKeys_congr hblock.mask hblock.v

variable [ExpOps K]

theorem SameBlock.blockKeys (hblock : SameBlock S tokens tokens' valid valid' n n') :
    blockKeys m h tokens valid S n = blockKeys m h tokens' valid' S n' := by
  apply maskKeys_congr hblock.mask
  intro s hvisible
  rw [hblock.k s hvisible]

theorem stateAfter_succ_congr (hblock : SameBlock S tokens tokens' valid valid' n n')
    (hstate : stateAfter m h tokens valid initial S n =
      stateAfter m h tokens' valid' initial' S n') :
    stateAfter m h tokens valid initial S (n + 1) =
      stateAfter m h tokens' valid' initial' S (n' + 1) := by
  simp only [stateAfter, hstate, hblock.blockKeys, hblock.blockValues]

theorem stateAfter_congr (hblocks : ∀ b < n, SameBlock S tokens tokens' valid valid' b b) :
    stateAfter m h tokens valid initial S n = stateAfter m h tokens' valid' initial S n := by
  induction n with
  | zero => rfl
  | succ n ih =>
      exact stateAfter_succ_congr (hblocks n (Nat.lt_succ_self n))
        (ih (fun b hb => hblocks b (Nat.lt_succ_of_lt hb)))

variable [LinearOrder K]

/-- The weights of a row do not depend on its masked scores, also where all are masked. -/
theorem attentionWeights_congr {visible : Finset (Fin S)} {scores scores' : Fin S → K}
    (hscores : ∀ j ∈ visible, scores j = scores' j) :
    attentionWeights visible scores = attentionWeights visible scores' := by
  funext j
  unfold attentionWeights
  split_ifs with hvisible hj
  · rw [hscores j hj, Finset.sup'_congr hvisible rfl hscores]
  · rfl
  · rfl

theorem SameBlock.blockRow (hblock : SameBlock S tokens tokens' valid valid' n n') (eps : K)
    (state : RecurrentState D F K) :
    blockRow (S := S) m h tokens valid eps n state =
      blockRow m h tokens' valid' eps n' state := by
  have hvalid : validKeys (S := S) valid n = validKeys valid' n' := by
    ext s
    rw [mem_validKeys, mem_validKeys, hblock.mask s]
  funext s
  have hweights : attentionWeights (validKeys valid n)
        (fun j => (∑ d, blockTokens S tokens.length tokens.q n s d *
          blockTokens S tokens.length tokens.k n j d) * m.scaling) =
      attentionWeights (validKeys valid n)
        (fun j => (∑ d, blockTokens S tokens.length tokens.q n s d *
          blockTokens S tokens'.length tokens'.k n' j d) * m.scaling) := by
    apply attentionWeights_congr
    intro j hj
    rw [hblock.k j (mem_validKeys.mp hj)]
  simp only [Attention.blockRow, blockOut, hweights, hblock.blockValues, ← hvalid, ← hblock.q]

theorem headOut_congr [NeZero S] (hblock : SameBlock S tokens tokens' valid valid' n n')
    (hstate : stateAfter m h tokens valid initial S n =
      stateAfter m h tokens' valid' initial' S n') (j : Fin S) :
    headOut (S := S) m h tokens valid initial (n * S + j) =
      headOut (S := S) m h tokens' valid' initial' (n' * S + j) := by
  simp only [headOut, headOutWith, block_div, block_row, hstate, hblock.blockRow]

section Forward

variable [NeZero S] (heads : Nat → HeadTokens D K)
  {start : Option (Nat → RecurrentState D F K)}

theorem forward_output_of_whole (whole : (heads h).length = n * S) (p : Nat) :
    (forward m S heads none start).1 h p =
      headOut (S := S) m h (heads h) none (start.getD (fun _ => RecurrentState.zero) h) p := by
  simp only [forward, forwardWith, headOut, whole, keyValid_mul]

theorem forward_state_of_whole (whole : (heads h).length = n * S) :
    (forward m S heads none start).2 h =
      stateAfter m h (heads h) none (start.getD (fun _ => RecurrentState.zero) h) S n := by
  simp only [forward, forwardWith, whole, keyValid_mul, numBlocks_mul]

end Forward

end LladaHybrid.Attention
