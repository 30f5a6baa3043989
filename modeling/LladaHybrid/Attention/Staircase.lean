import LladaHybrid.Attention.BlockRecurrence

namespace LladaHybrid.Attention

open LladaHybrid.Library

/-! `BlockSoftmaxLinearHybrid.forward_bd3lm`: the training layout, a noisy half and a clean
half in one sequence. The recurrent state sees the clean half only. -/

variable {D F S : Nat} {K : Type*}

/-- `x[:, :, start:start + length]`. -/
def HeadTokens.slice (tokens : HeadTokens D K) (start length : Nat) : HeadTokens D K where
  length
  q p := tokens.q (start + p)
  k p := tokens.k (start + p)
  v p := tokens.v (start + p)

section Forward

variable [Field K]

def unblock [NeZero S] (outs : List (Fin S → Vec D K)) (p : Nat) : Vec D K :=
  outs.getD (p / S) (fun _ _ => 0) (Fin.ofNat S p)

theorem unblock_map [NeZero S] {α : Type*} (f : α → Fin S → Vec D K)
    {step : Nat → RecurrentState D F K → RecurrentState D F K × α}
    {init : RecurrentState D F K} {length p : Nat} (hp : p < length) :
    unblock ((blockScan step init (numBlocks length S)).2.map f) p =
      f (step (p / S) (blockScan step init (p / S)).1).2 (Fin.ofNat S p) := by
  rw [unblock, List.getD_eq_getElem?_getD, List.getElem?_map,
    getElem?_blockScan (div_lt_numBlocks hp), Option.map_some, Option.getD_some]

variable [LinearOrder K] [ExpOps K]

/-- Block `n`: both halves query the state before it, then the clean half updates it. -/
def staircaseStep (m : HybridParams D F K) (h S : Nat) (noisy clean : HeadTokens D K)
    (kvNoisy kvClean : Option (Nat → K)) (n : Nat) (state : RecurrentState D F K) :
    RecurrentState D F K × (Fin S → Vec D K) × (Fin S → Vec D K) :=
  (state.update (blockKeys m h clean kvClean S n) (blockValues clean kvClean S n),
    blockRow m h noisy kvNoisy eps n state, blockRow m h clean kvClean eps n state)

/-- `[noisy outputs | clean outputs]` of one head. -/
def headBd3lm (m : HybridParams D F K) (h S : Nat) [NeZero S] (tokens : HeadTokens D K)
    (halfLen : Nat) (keyPaddingMask : Option (List K)) (p : Nat) : Vec D K :=
  let noisy := tokens.slice 0 halfLen
  let clean := tokens.slice halfLen halfLen
  let kvNoisy := keyValid S halfLen (keyPaddingMask.map (List.take halfLen))
  let kvClean := keyValid S halfLen (keyPaddingMask.map (List.drop halfLen))
  let outs := (blockScan (staircaseStep m h S noisy clean kvNoisy kvClean)
    RecurrentState.zero (numBlocks halfLen S)).2
  if p < halfLen then unblock (outs.map Prod.fst) p
  else unblock (outs.map Prod.snd) (p - halfLen)

/-- `none` where the assertion on the length fails. -/
def forwardBd3lm (m : HybridParams D F K) (S : Nat) [NeZero S] (tokens : Nat → HeadTokens D K)
    (halfLen : Nat) (keyPaddingMask : Option (List K)) : Option (Nat → Nat → Vec D K) :=
  if ∀ h < m.numHeads, (tokens h).length = 2 * halfLen then
    some (fun h => headBd3lm m h S (tokens h) halfLen keyPaddingMask)
  else
    none

end Forward

/-! What the loop computes. -/

section Loop

variable [Field K] [LinearOrder K] [ExpOps K] {m : HybridParams D F K} {h : Nat}
  {noisy clean : HeadTokens D K} {kvNoisy kvClean : Option (Nat → K)}

theorem staircase_state (n : Nat) :
    (blockScan (staircaseStep m h S noisy clean kvNoisy kvClean) .zero n).1 =
      stateAfter m h clean kvClean .zero S n := by
  induction n with
  | zero => rfl
  | succ n ih =>
      rw [blockScan_succ_fst, ih]
      rfl

variable [NeZero S] {tokens : HeadTokens D K} {halfLen p : Nat} {mask : Option (List K)}

theorem headBd3lm_noisy (hp : p < halfLen) :
    headBd3lm m h S tokens halfLen mask p =
      blockRow m h (tokens.slice 0 halfLen) (keyValid S halfLen (mask.map (List.take halfLen)))
        eps (p / S) (stateAfter m h (tokens.slice halfLen halfLen)
          (keyValid S halfLen (mask.map (List.drop halfLen))) .zero S (p / S))
        (Fin.ofNat S p) := by
  dsimp only [headBd3lm]
  rw [if_pos hp, unblock_map Prod.fst hp, staircase_state]
  rfl

theorem headBd3lm_clean (hp : p < halfLen) :
    headBd3lm m h S tokens halfLen mask (halfLen + p) =
      headOut (S := S) m h (tokens.slice halfLen halfLen)
        (keyValid S halfLen (mask.map (List.drop halfLen))) .zero p := by
  dsimp only [headBd3lm]
  rw [if_neg (by omega), Nat.add_sub_cancel_left, unblock_map Prod.snd hp, staircase_state]
  rfl

end Loop

end LladaHybrid.Attention
