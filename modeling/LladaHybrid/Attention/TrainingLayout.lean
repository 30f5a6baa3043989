import LladaHybrid.Attention.OrderInvariant

namespace LladaHybrid.Attention

open LladaHybrid.Library

/-! The training layout computes what the inference layout does: the clean half is a plain
forward, and a noisy block is a forward behind the clean blocks before it. -/

variable {D F S : Nat} {K : Type*}

def maskSlice (mask : Option (List K)) (start length : Nat) : Option (List K) :=
  mask.map (fun entries => (entries.drop start).take length)

/-- The outputs of the training layout are those of a plain `forward`: the clean half is a
forward of its own, and a noisy block one from the state behind the clean blocks before it. -/
def InferenceOutputs (S : Nat)
    (forward : (Nat → HeadTokens D K) → Option (List K) →
      Option (Nat → RecurrentState D F K) →
      (Nat → Nat → Vec D K) × (Nat → RecurrentState D F K))
    (tokens : Nat → HeadTokens D K) (halfLen : Nat) (mask : Option (List K))
    (outs : Nat → Nat → Vec D K) : Prop :=
  let noisy := fun h => (tokens h).slice 0 halfLen
  let clean := fun h => (tokens h).slice halfLen halfLen
  let noisyMask := mask.map (List.take halfLen)
  let cleanMask := mask.map (List.drop halfLen)
  ∀ h, (∀ p < halfLen, outs h (halfLen + p) = (forward clean cleanMask none).1 h p) ∧
    ∀ n, n * S < halfLen → ∀ s < min S (halfLen - n * S),
      outs h (n * S + s) =
        (forward (fun h => (noisy h).slice (n * S) (min S (halfLen - n * S)))
          (maskSlice noisyMask (n * S) (min S (halfLen - n * S)))
          (some (forward (fun h => (clean h).slice 0 (n * S))
            (maskSlice cleanMask 0 (n * S)) none).2)).1 h s

/-- Block `b` of a slice from block `a` on is block `a + b` of the whole sequence, with the
same padding. -/
structure BlockOfSlice (S L length a b : Nat) : Prop where
  within : ∀ s < S, b * S + s < length ↔ (a + b) * S + s < L
  lt_slice : b < numBlocks length S
  lt_whole : a + b < numBlocks L S

section Slices

variable {L length a b : Nat}

theorem BlockOfSlice.single [NeZero S] {n : Nat} (hn : n * S < L) :
    BlockOfSlice S L (min S (L - n * S)) n 0 where
  within s hs := by
    rw [Nat.zero_mul, Nat.add_zero]
    omega
  lt_slice := by
    have hpos : 0 < min S (L - n * S) := lt_min (NeZero.pos S) (by omega)
    exact (Nat.zero_div S).symm.trans_lt (div_lt_numBlocks hpos)
  lt_whole := by
    have hlt := div_lt_numBlocks (S := S) hn
    rwa [Nat.mul_div_cancel n (NeZero.pos S)] at hlt

theorem BlockOfSlice.initial [NeZero S] {n : Nat} (hn : n * S < L) (hb : b < n) :
    BlockOfSlice S L (n * S) 0 b := by
  have hend : (b + 1) * S ≤ n * S := Nat.mul_le_mul_right S hb
  rw [Nat.succ_mul] at hend
  refine ⟨?_, ?_, ?_⟩
  · intro s hs
    rw [Nat.zero_add]
    omega
  · rwa [numBlocks_mul]
  · have hpos := NeZero.pos S
    have hlt := div_lt_numBlocks (S := S) (show b * S < L by omega)
    rwa [Nat.mul_div_cancel b hpos, ← Nat.zero_add b] at hlt

theorem position_add (a b s : Nat) : (a + b) * S + s = a * S + (b * S + s) := by
  rw [Nat.add_mul, Nat.add_assoc]

variable [Field K]

theorem BlockOfSlice.blockTokens (slice : BlockOfSlice S L length a b) (x : Nat → Vec D K) :
    blockTokens S length (fun p => x (a * S + p)) b = blockTokens S L x (a + b) := by
  funext s
  simp only [Attention.blockTokens, slice.within s s.isLt, position_add]

theorem BlockOfSlice.padding (slice : BlockOfSlice S L length a b) (s : Fin S) :
    maskAt (keyValid S length (none : Option (List K))) (b * S + s) =
      maskAt (keyValid S L (none : Option (List K))) ((a + b) * S + s) := by
  rw [maskAt_keyValid_none slice.lt_slice, maskAt_keyValid_none slice.lt_whole]
  exact if_congr (slice.within s s.isLt) rfl rfl

theorem BlockOfSlice.getD (slice : BlockOfSlice S L length a b) {entries : List K} (s : Fin S)
    (hentries : b * S + s < length ∨ entries.length ≤ L) :
    ((entries.drop (a * S)).take length).getD (b * S + s) 0 =
      entries.getD ((a + b) * S + s) 0 := by
  have hwithin := slice.within s s.isLt
  rw [List.getD_eq_getElem?_getD, List.getD_eq_getElem?_getD, List.getElem?_take,
    List.getElem?_drop, ← position_add]
  split_ifs with hlt
  · rfl
  · rw [List.getElem?_eq_none (by omega)]

end Slices

/-! The hybrid layer. -/

section Hybrid

variable [Field K] {tokens : HeadTokens D K} {mask : Option (List K)} {length a b : Nat}

/-- The block lies inside the slice, or the mask ends with the sequence. -/
def MaskFits (S : Nat) (mask : Option (List K)) (L length b : Nat) : Prop :=
  (b + 1) * S ≤ length ∨ ∀ entries ∈ mask, entries.length ≤ L

omit [Field K] in
theorem MaskFits.entries {entries : List K} {L : Nat}
    (fits : MaskFits S (some entries) L length b) (s : Fin S) :
    b * S + s < length ∨ entries.length ≤ L := by
  refine fits.imp (fun hle => ?_) (fun hall => hall entries rfl)
  have hs := s.isLt
  rw [Nat.succ_mul] at hle
  omega

theorem BlockOfSlice.sameBlock (slice : BlockOfSlice S tokens.length length a b)
    (fits : MaskFits S mask tokens.length length b) :
    SameBlock S (tokens.slice (a * S) length) tokens
      (keyValid S length (maskSlice mask (a * S) length)) (keyValid S tokens.length mask)
      b (a + b) where
  q := slice.blockTokens tokens.q
  mask s := by
    cases mask with
    | none => exact slice.padding s
    | some entries => exact slice.getD s (fits.entries s)
  k s _ := congrFun (slice.blockTokens tokens.k) s
  v s _ := congrFun (slice.blockTokens tokens.v) s

omit [Field K] in
theorem maskFits_take (L length b : Nat) :
    MaskFits S (mask.map (List.take L)) L length b := by
  refine Or.inr ?_
  intro entries hentries
  obtain ⟨whole, -, rfl⟩ := Option.mem_map.mp hentries
  exact List.length_take_le L whole

theorem sameBlock_initial [NeZero S] {n : Nat} (hn : n * S < tokens.length) (hb : b < n) :
    SameBlock S (tokens.slice 0 (n * S)) tokens
      (keyValid S (n * S) (maskSlice mask 0 (n * S))) (keyValid S tokens.length mask) b b := by
  have hsame : SameBlock S (tokens.slice (0 * S) (n * S)) tokens
      (keyValid S (n * S) (maskSlice mask (0 * S) (n * S))) (keyValid S tokens.length mask)
      b (0 + b) :=
    (BlockOfSlice.initial hn hb).sameBlock (Or.inl (Nat.mul_le_mul_right S hb))
  rwa [Nat.zero_mul, Nat.zero_add] at hsame

variable [LinearOrder K] [ExpOps K] [NeZero S] {m : HybridParams D F K} {h n : Nat}

theorem headOut_first_block (valid : Option (Nat → K)) (initial : RecurrentState D F K)
    (s : Fin S) :
    headOut (S := S) m h tokens valid initial s = blockRow m h tokens valid eps 0 initial s := by
  have hdiv : (s : Nat) / S = 0 := Nat.div_eq_of_lt s.isLt
  have hrow : Fin.ofNat S s = s := Fin.ext (Nat.mod_eq_of_lt s.isLt)
  simp only [headOut, headOutWith, hdiv, hrow, stateAfter]

/-- A block of one sequence behind the blocks of another is a forward of its own, from the
state of the other's forward. -/
theorem blockRow_eq_forward (noisy clean : Nat → HeadTokens D K)
    {noisyMask cleanMask : Option (List K)} {halfLen : Nat} (hn : n * S < halfLen)
    (hnoisy : (noisy h).length = halfLen) (hclean : (clean h).length = halfLen)
    (fits : MaskFits S noisyMask halfLen (min S (halfLen - n * S)) 0) (s : Fin S) :
    blockRow m h (noisy h) (keyValid S halfLen noisyMask) eps n
        (stateAfter m h (clean h) (keyValid S halfLen cleanMask) .zero S n) s =
      (forward m S (fun h => (noisy h).slice (n * S) (min S (halfLen - n * S)))
        (maskSlice noisyMask (n * S) (min S (halfLen - n * S)))
        (some (forward m S (fun h => (clean h).slice 0 (n * S))
          (maskSlice cleanMask 0 (n * S)) none).2)).1 h s := by
  subst hnoisy
  have hfinal : (forward m S (fun h => (clean h).slice 0 (n * S))
      (maskSlice cleanMask 0 (n * S)) none).2 h =
      stateAfter m h (clean h) (keyValid S (noisy h).length cleanMask) .zero S n := by
    calc
      _ = stateAfter m h ((clean h).slice 0 (n * S))
          (keyValid S (n * S) (maskSlice cleanMask 0 (n * S))) .zero S n :=
        congrArg (stateAfter m h _ _ _ S) (numBlocks_mul n)
      _ = _ := by
        rw [← hclean]
        exact stateAfter_congr (fun b hb => sameBlock_initial (hn.trans_eq hclean.symm) hb)
  have hblock := (BlockOfSlice.single hn).sameBlock fits
  rw [Nat.add_zero] at hblock
  rw [← hfinal, ← hblock.blockRow]
  exact (headOut_first_block _ _ s).symm

theorem hybrid_inferenceOutputs (m : HybridParams D F K) (tokens : Nat → HeadTokens D K)
    (halfLen : Nat) (mask : Option (List K)) :
    InferenceOutputs S (forward m S) tokens halfLen mask
      (fun h => headBd3lm m h S (tokens h) halfLen mask) := by
  intro h
  constructor
  · intro p hp
    exact headBd3lm_clean hp
  · intro n hn s hs
    have hS : s < S := hs.trans_le (min_le_left _ _)
    have hp : n * S + s < halfLen := by omega
    dsimp only
    rw [headBd3lm_noisy hp, block_div n ⟨s, hS⟩, block_row n ⟨s, hS⟩]
    exact blockRow_eq_forward (fun h => (tokens h).slice 0 halfLen)
      (fun h => (tokens h).slice halfLen halfLen) hn rfl rfl (maskFits_take _ _ _) ⟨s, hS⟩

end Hybrid

/-! The linear layer. -/

section Linear

open OrderInvariantParams

variable [Field K] [LinearOrder K] {tokens : HeadTokens D K} {mask : Option (List K)}
  {length a b : Nat}

theorem BlockOfSlice.sameBlock_shown (slice : BlockOfSlice S tokens.length length a b)
    (fits : MaskFits S mask tokens.length length b) :
    SameBlock S (tokens.slice (a * S) length) tokens
      (shown S length (OrderInvariantParams.keyValid S length
        (maskSlice mask (a * S) length) none))
      (shown S tokens.length (OrderInvariantParams.keyValid S tokens.length mask none))
      b (a + b) where
  q := slice.blockTokens tokens.q
  mask s := by
    refine congrArg₂ (· * ·) ?_ (slice.padding s)
    cases mask with
    | none => rfl
    | some entries => exact slice.getD s (fits.entries s)
  k s _ := congrFun (slice.blockTokens tokens.k) s
  v s _ := congrFun (slice.blockTokens tokens.v) s

theorem sameBlock_shown_initial [NeZero S] {n : Nat} (hn : n * S < tokens.length) (hb : b < n) :
    SameBlock S (tokens.slice 0 (n * S)) tokens
      (shown S (n * S) (OrderInvariantParams.keyValid S (n * S) (maskSlice mask 0 (n * S)) none))
      (shown S tokens.length (OrderInvariantParams.keyValid S tokens.length mask none)) b b := by
  have hsame : SameBlock S (tokens.slice (0 * S) (n * S)) tokens
      (shown S (n * S) (OrderInvariantParams.keyValid S (n * S)
        (maskSlice mask (0 * S) (n * S)) none))
      (shown S tokens.length (OrderInvariantParams.keyValid S tokens.length mask none))
      b (0 + b) :=
    (BlockOfSlice.initial hn hb).sameBlock_shown (Or.inl (Nat.mul_le_mul_right S hb))
  rwa [Nat.zero_mul, Nat.zero_add] at hsame

variable [ExpOps K] [NeZero S]

theorem linear_first_block {m : OrderInvariantParams D F K} {h : Nat}
    (tokens : Nat → HeadTokens D K) (start : Nat → RecurrentState D F K) (s : Fin S)
    (hs : s < (tokens h).length) :
    (m.forward S tokens none mask (some start)).1 h s =
      m.blockRow h (tokens h) 0 (m.updated h (tokens h)
        (OrderInvariantParams.keyValid S (tokens h).length mask none) S 0 (start h)) s := by
  have hrow : Fin.ofNat S s = s := Fin.ext (Nat.mod_eq_of_lt s.isLt)
  rw [forward_output tokens hs, Nat.div_eq_of_lt s.isLt, hrow]
  rfl

theorem linear_blockRow_eq_forward {m : OrderInvariantParams D F K} {h n : Nat}
    (noisy clean : Nat → HeadTokens D K) {noisyMask cleanMask : Option (List K)} {halfLen : Nat}
    (hn : n * S < halfLen) (hnoisy : (noisy h).length = halfLen)
    (hclean : (clean h).length = halfLen)
    (fits : MaskFits S noisyMask halfLen (min S (halfLen - n * S)) 0) (s : Fin S)
    (hs : s < min S (halfLen - n * S)) :
    m.blockRow h (noisy h) n (m.updated h (noisy h)
        (OrderInvariantParams.keyValid S halfLen noisyMask none) S n
        (m.stateAfter h (clean h) (OrderInvariantParams.keyValid S halfLen cleanMask none)
          .zero S n)) s =
      (m.forward S (fun h => (noisy h).slice (n * S) (min S (halfLen - n * S))) none
        (maskSlice noisyMask (n * S) (min S (halfLen - n * S)))
        (some (m.forward S (fun h => (clean h).slice 0 (n * S)) none
          (maskSlice cleanMask 0 (n * S)) none).2)).1 h s := by
  subst hnoisy
  have hfinal : (m.forward S (fun h => (clean h).slice 0 (n * S)) none
      (maskSlice cleanMask 0 (n * S)) none).2 h =
      m.stateAfter h (clean h)
        (OrderInvariantParams.keyValid S (noisy h).length cleanMask none) .zero S n := by
    calc
      _ = m.stateAfter h ((clean h).slice 0 (n * S))
          (OrderInvariantParams.keyValid S (n * S) (maskSlice cleanMask 0 (n * S)) none)
          .zero S n :=
        congrArg (m.stateAfter h _ _ _ S) (numBlocks_mul n)
      _ = _ := by
        rw [← hclean]
        exact OrderInvariantParams.stateAfter_congr
          (fun b hb => sameBlock_shown_initial (hn.trans_eq hclean.symm) hb)
  have hblock := (BlockOfSlice.single hn).sameBlock_shown fits
  rw [Nat.add_zero] at hblock
  rw [← hfinal, ← blockRow_congr hblock, ← OrderInvariantParams.updated_congr hblock]
  exact (linear_first_block (fun i => (noisy i).slice (n * S) (min S ((noisy h).length - n * S)))
    _ s hs).symm

theorem linear_inferenceOutputs (m : OrderInvariantParams D F K)
    (tokens : Nat → HeadTokens D K) (halfLen : Nat) (mask : Option (List K)) :
    InferenceOutputs S (fun tokens => m.forward S tokens none) tokens halfLen mask
      (fun h => m.headBd3lm h S (tokens h) halfLen mask) := by
  intro h
  constructor
  · intro p hp
    dsimp only
    rw [OrderInvariantParams.headBd3lm_clean hp,
      forward_output (fun h => (tokens h).slice halfLen halfLen) hp, Option.getD_none]
    rfl
  · intro n hn s hs
    have hS : s < S := hs.trans_le (min_le_left _ _)
    have hp : n * S + s < halfLen := by omega
    dsimp only
    rw [OrderInvariantParams.headBd3lm_noisy hp, block_div n ⟨s, hS⟩, block_row n ⟨s, hS⟩]
    exact linear_blockRow_eq_forward (fun h => (tokens h).slice 0 halfLen)
      (fun h => (tokens h).slice halfLen halfLen) hn rfl rfl (maskFits_take _ _ _) ⟨s, hS⟩ hs

/-- Training and inference layouts agree in both attention classes. -/
theorem forwardBd3lm_inferenceOutputs (hybrid : HybridParams D F K)
    (linear : OrderInvariantParams D F K) (tokens : Nat → HeadTokens D K) (halfLen : Nat)
    (mask : Option (List K))
    (hhybrid : ∀ h < hybrid.numHeads, (tokens h).length = 2 * halfLen)
    (hlinear : ∀ h < linear.numHeads, (tokens h).length = 2 * halfLen) :
    (∃ outs, forwardBd3lm hybrid S tokens halfLen mask = some outs ∧
      InferenceOutputs S (forward hybrid S) tokens halfLen mask outs) ∧
    ∃ outs, linear.forwardBd3lm S tokens halfLen mask = some outs ∧
      InferenceOutputs S (fun tokens => linear.forward S tokens none) tokens halfLen mask outs :=
  ⟨⟨_, if_pos hhybrid, hybrid_inferenceOutputs hybrid tokens halfLen mask⟩,
    ⟨_, if_pos hlinear, linear_inferenceOutputs linear tokens halfLen mask⟩⟩

end Linear

namespace Ragged

/-! Two heads, three tokens a half, blocks of two. -/

variable [Field K]

def hybrid : HybridParams 1 1 K := ⟨2, 1, true, 1, fun _ _ _ => 1, fun _ => 0⟩

def linear : OrderInvariantParams 1 1 K := ⟨2, eps, fun h _ _ => h⟩

def tokens (h : Nat) : HeadTokens 1 K := ⟨6, fun p _ => p, fun p _ => h + p, fun p _ => h * p⟩

def mask : Option (List K) := some [1, 1, 0, 0, 1, 1]

theorem forwardBd3lm_inferenceOutputs_ragged :
    (∃ outs, forwardBd3lm (hybrid (K := ℝ)) 2 tokens 3 mask = some outs ∧
      InferenceOutputs 2 (forward hybrid 2) tokens 3 mask outs) ∧
    ∃ outs, linear.forwardBd3lm 2 (tokens (K := ℝ)) 3 mask = some outs ∧
      InferenceOutputs 2 (fun tokens => linear.forward 2 tokens none) tokens 3 mask outs :=
  forwardBd3lm_inferenceOutputs hybrid linear tokens 3 mask (fun _ _ => rfl) (fun _ _ => rfl)

end Ragged

end LladaHybrid.Attention
