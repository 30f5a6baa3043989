import LladaHybrid.Attention.Staircase

namespace LladaHybrid.Attention

open LladaHybrid.Library

/-! `OrderInvariantKernelLinearAttention`: Hedgehog linear attention alone. A block is added
to the state before it is queried. -/

structure OrderInvariantParams (D F : Nat) (K : Type*) where
  numHeads : Nat
  eps : K
  hedgehogWeights : Nat → Fin D → Fin F → K

/-- The 4D attention mask of one batch element. A float mask is read as an additive one if
the mask of the batch has an infinite entry, which is `none` here. -/
inductive AttentionMask (K : Type*)
  | bool (rows : List (List Bool))
  | additive (rows : List (List (Option K)))
  | float (rows : List (List K))

variable {D F S : Nat} {K : Type*}

section Mask

variable [Field K] [LinearOrder K]

/-- `_infer_key_valid_from_4d_mask`: some query sees the key. -/
def AttentionMask.keyValid (mask : AttentionMask K) (paddedL p : Nat) : K :=
  let visible := match mask with
    | .bool rows => (rows.take paddedL).any (fun row => row.getD p false)
    | .additive rows => (rows.take paddedL).any (fun row => (row.getD p none).isSome)
    | .float rows => (rows.take paddedL).any (fun row => decide (row.getD p 0 ≠ 0))
  if visible then 1 else 0

end Mask

namespace OrderInvariantParams

section Forward

variable [Field K] [LinearOrder K]

/-- The key padding mask, or else what the attention mask tells. -/
def keyValid (S length : Nat) (keyPaddingMask : Option (List K))
    (attentionMask : Option (AttentionMask K)) : Option (Nat → K) :=
  match keyPaddingMask with
  | some mask => some (fun p => mask.getD p 0)
  | none => attentionMask.map (fun mask => mask.keyValid (numBlocks length S * S))

def padValid (S length : Nat) : Option (Nat → K) := Attention.keyValid S length none

def query (eps : K) (phiQ : Feature F → K) (state : RecurrentState D F K) : Vec D K :=
  fun d => (∑ f, phiQ f * state.S f d) / max (∑ f, phiQ f * state.Z f) eps

variable [ExpOps K] (m : OrderInvariantParams D F K) (h : Nat) (tokens : HeadTokens D K)
  (valid : Option (Nat → K))

def blockKeys (S n : Nat) : Fin S → Feature F → K :=
  maskKeys (padValid S tokens.length) n (maskKeys valid n (fun s =>
    featureMap (m.hedgehogWeights h) (blockTokens S tokens.length tokens.k n s)))

def blockValues (S n : Nat) : Fin S → Vec D K :=
  maskKeys (padValid S tokens.length) n
    (maskKeys valid n (blockTokens S tokens.length tokens.v n))

def updated (S n : Nat) (state : RecurrentState D F K) : RecurrentState D F K :=
  state.update (m.blockKeys h tokens valid S n) (blockValues tokens valid S n)

def blockRow (n : Nat) (state : RecurrentState D F K) (s : Fin S) : Vec D K :=
  query m.eps (featureMap (m.hedgehogWeights h) (blockTokens S tokens.length tokens.q n s)) state

/-- Block `n` of `forward`: the update, then the queries. -/
def forwardStep (S n : Nat) (state : RecurrentState D F K) :
    RecurrentState D F K × (Fin S → Vec D K) :=
  let next := m.updated h tokens valid S n state
  (next, m.blockRow h tokens n next)

/-- `forward(..., return_final_state=True)`, head by head. -/
def forward (S : Nat) [NeZero S] (tokens : Nat → HeadTokens D K)
    (attentionMask : Option (AttentionMask K)) (keyPaddingMask : Option (List K))
    (initial : Option (Nat → RecurrentState D F K)) :
    (Nat → Nat → Vec D K) × (Nat → RecurrentState D F K) :=
  let loop := fun h => blockScan (m.forwardStep h (tokens h)
      (keyValid S (tokens h).length keyPaddingMask attentionMask) S)
    (initial.getD (fun _ => RecurrentState.zero) h) (numBlocks (tokens h).length S)
  (fun h => unblock (loop h).2, fun h => (loop h).1)

/-- Block `n` of `forward_bd3lm`: the noisy half queries a local state with its own keys, and
the clean half the state it has updated. -/
def staircaseStep (noisy clean : HeadTokens D K) (kvNoisy kvClean : Option (Nat → K))
    (S n : Nat) (state : RecurrentState D F K) :
    RecurrentState D F K × (Fin S → Vec D K) × (Fin S → Vec D K) :=
  let localState := m.updated h noisy kvNoisy S n state
  let next := m.updated h clean kvClean S n state
  (next, m.blockRow h noisy n localState, m.blockRow h clean n next)

/-- `[noisy outputs | clean outputs]` of one head. -/
def headBd3lm (S : Nat) [NeZero S] (tokens : HeadTokens D K) (halfLen : Nat)
    (keyPaddingMask : Option (List K)) (p : Nat) : Vec D K :=
  let noisy := tokens.slice 0 halfLen
  let clean := tokens.slice halfLen halfLen
  let kvNoisy := keyValid S halfLen (keyPaddingMask.map (List.take halfLen)) none
  let kvClean := keyValid S halfLen (keyPaddingMask.map (List.drop halfLen)) none
  let outs := (blockScan (m.staircaseStep h noisy clean kvNoisy kvClean S)
    RecurrentState.zero (numBlocks halfLen S)).2
  if p < halfLen then unblock (outs.map Prod.fst) p
  else unblock (outs.map Prod.snd) (p - halfLen)

/-- `none` where the assertion on the length fails. -/
def forwardBd3lm (S : Nat) [NeZero S] (tokens : Nat → HeadTokens D K) (halfLen : Nat)
    (keyPaddingMask : Option (List K)) : Option (Nat → Nat → Vec D K) :=
  if ∀ h < m.numHeads, (tokens h).length = 2 * halfLen then
    some (fun h => m.headBd3lm h S (tokens h) halfLen keyPaddingMask)
  else
    none

end Forward

/-! What the loops compute. -/

section Loop

variable [Field K]

/-- Both masks of a block. -/
def shown (S length : Nat) (valid : Option (Nat → K)) : Option (Nat → K) :=
  some (fun p => maskAt valid p * maskAt (padValid S length) p)

theorem maskKeys_shown {α : Type*} (length : Nat) (valid : Option (Nat → K)) (n : Nat)
    (x : Fin S → α → K) :
    maskKeys (padValid S length) n (maskKeys valid n x) =
      maskKeys (shown S length valid) n x := by
  funext s a
  rw [maskKeys_eq, maskKeys_eq, maskKeys_eq, mul_assoc]
  rfl

variable [ExpOps K] {m : OrderInvariantParams D F K} {h n n' : Nat}
  {tokens tokens' noisy clean : HeadTokens D K} {valid valid' kvNoisy kvClean : Option (Nat → K)}
  {initial : RecurrentState D F K}

theorem updated_congr (hblock : SameBlock S tokens tokens' (shown S tokens.length valid)
      (shown S tokens'.length valid') n n') (state : RecurrentState D F K) :
    m.updated h tokens valid S n state = m.updated h tokens' valid' S n' state := by
  have hkeys : m.blockKeys h tokens valid S n = m.blockKeys h tokens' valid' S n' := by
    rw [blockKeys, blockKeys, maskKeys_shown, maskKeys_shown]
    apply maskKeys_congr hblock.mask
    intro s hvisible
    rw [hblock.k s hvisible]
  have hvalues : blockValues tokens valid S n = blockValues tokens' valid' S n' := by
    rw [blockValues, blockValues, maskKeys_shown, maskKeys_shown]
    exact maskKeys_congr hblock.mask hblock.v
  rw [updated, updated, hkeys, hvalues]

variable [LinearOrder K]

theorem blockRow_congr (hblock : SameBlock S tokens tokens' valid valid' n n')
    (state : RecurrentState D F K) :
    m.blockRow (S := S) h tokens n state = m.blockRow h tokens' n' state := by
  funext s
  rw [blockRow, blockRow, hblock.q]

def stateAfter (m : OrderInvariantParams D F K) (h : Nat) (tokens : HeadTokens D K)
    (valid : Option (Nat → K)) (initial : RecurrentState D F K) (S n : Nat) :
    RecurrentState D F K :=
  (blockScan (m.forwardStep h tokens valid S) initial n).1

theorem stateAfter_zero : m.stateAfter h tokens valid initial S 0 = initial := rfl

theorem stateAfter_succ (n : Nat) :
    m.stateAfter h tokens valid initial S (n + 1) =
      m.updated h tokens valid S n (m.stateAfter h tokens valid initial S n) := rfl

theorem stateAfter_congr (hblocks : ∀ b < n, SameBlock S tokens tokens'
      (shown S tokens.length valid) (shown S tokens'.length valid') b b) :
    m.stateAfter h tokens valid initial S n = m.stateAfter h tokens' valid' initial S n := by
  induction n with
  | zero => rw [stateAfter_zero, stateAfter_zero]
  | succ n ih =>
      rw [stateAfter_succ, stateAfter_succ, ih (fun b hb => hblocks b (Nat.lt_succ_of_lt hb)),
        updated_congr (hblocks n (Nat.lt_succ_self n))]

theorem staircase_state (n : Nat) :
    (blockScan (m.staircaseStep h noisy clean kvNoisy kvClean S) .zero n).1 =
      m.stateAfter h clean kvClean .zero S n := by
  induction n with
  | zero => rfl
  | succ n ih =>
      rw [blockScan_succ_fst, ih]
      rfl

variable [NeZero S] {p halfLen : Nat} {mask : Option (List K)}

theorem forward_output (tokens : Nat → HeadTokens D K) {start : Option (Nat → RecurrentState D F K)}
    {attentionMask : Option (AttentionMask K)} (hp : p < (tokens h).length) :
    (m.forward S tokens attentionMask mask start).1 h p =
      m.blockRow h (tokens h) (p / S) (m.stateAfter h (tokens h)
        (keyValid S (tokens h).length mask attentionMask)
        (start.getD (fun _ => .zero) h) S (p / S + 1)) (Fin.ofNat S p) := by
  dsimp only [forward]
  rw [← List.map_id (blockScan _ _ _).2, unblock_map id hp, stateAfter_succ]
  rfl

theorem headBd3lm_noisy {tokens : HeadTokens D K} (hp : p < halfLen) :
    m.headBd3lm h S tokens halfLen mask p =
      m.blockRow h (tokens.slice 0 halfLen) (p / S)
        (m.updated h (tokens.slice 0 halfLen)
          (keyValid S halfLen (mask.map (List.take halfLen)) none) S (p / S)
          (m.stateAfter h (tokens.slice halfLen halfLen)
            (keyValid S halfLen (mask.map (List.drop halfLen)) none) .zero S (p / S)))
        (Fin.ofNat S p) := by
  dsimp only [headBd3lm]
  rw [if_pos hp, unblock_map Prod.fst hp, staircase_state]
  rfl

theorem headBd3lm_clean {tokens : HeadTokens D K} (hp : p < halfLen) :
    m.headBd3lm h S tokens halfLen mask (halfLen + p) =
      m.blockRow h (tokens.slice halfLen halfLen) (p / S)
        (m.stateAfter h (tokens.slice halfLen halfLen)
          (keyValid S halfLen (mask.map (List.drop halfLen)) none) .zero S (p / S + 1))
        (Fin.ofNat S p) := by
  dsimp only [headBd3lm]
  rw [if_neg (by omega), Nat.add_sub_cancel_left, unblock_map Prod.snd hp, staircase_state,
    stateAfter_succ]
  rfl

end Loop

end OrderInvariantParams

end LladaHybrid.Attention
