import LladaHybrid.Attention.OrderInvariant

namespace LladaHybrid.Attention

open LladaHybrid.Library

/-! Masked keys and values do not reach an output or a state, in either attention class and
in either layout. -/

variable {D F S : Nat} {K : Type*} [Field K]

/-- The inputs differ in masked keys and values only. -/
structure AgreeUnmasked (mask : List K) (tokens tokens' : HeadTokens D K) : Prop where
  length : tokens.length = tokens'.length
  q : ∀ p < tokens.length, tokens.q p = tokens'.q p
  k : ∀ p < tokens.length, mask.getD p 0 ≠ 0 → tokens.k p = tokens'.k p
  v : ∀ p < tokens.length, mask.getD p 0 ≠ 0 → tokens.v p = tokens'.v p

section Blocks

variable {mask : List K} {tokens tokens' : HeadTokens D K}

theorem blockTokens_congr {length n : Nat} {x x' : Nat → Vec D K} {s : Fin S}
    (hx : n * S + s < length → x (n * S + s) = x' (n * S + s)) :
    blockTokens S length x n s = blockTokens S length x' n s := by
  unfold blockTokens
  split_ifs with hlt
  · exact hx hlt
  · rfl

namespace AgreeUnmasked

theorem sameBlock (agree : AgreeUnmasked mask tokens tokens') (n : Nat) :
    SameBlock S tokens tokens' (keyValid S tokens.length (some mask))
      (keyValid S tokens'.length (some mask)) n n := by
  refine ⟨funext fun s => ?_, fun s => rfl, fun s hvisible => ?_, fun s hvisible => ?_⟩
  all_goals rw [← agree.length]
  · exact blockTokens_congr (agree.q _)
  · exact blockTokens_congr (fun hlt => agree.k _ hlt hvisible)
  · exact blockTokens_congr (fun hlt => agree.v _ hlt hvisible)

theorem slice (agree : AgreeUnmasked mask tokens tokens') {entries : List K}
    {start length : Nat} (hlength : start + length ≤ tokens.length)
    (hentries : ∀ p < length, entries.getD p 0 = mask.getD (start + p) 0) :
    AgreeUnmasked entries (tokens.slice start length) (tokens'.slice start length) where
  length := rfl
  q p hp := agree.q (start + p) ((Nat.add_lt_add_left hp start).trans_le hlength)
  k p hp hvisible := agree.k (start + p) ((Nat.add_lt_add_left hp start).trans_le hlength)
    (hentries p hp ▸ hvisible)
  v p hp hvisible := agree.v (start + p) ((Nat.add_lt_add_left hp start).trans_le hlength)
    (hentries p hp ▸ hvisible)

variable {halfLen : Nat}

theorem noisy (agree : AgreeUnmasked mask tokens tokens') (hlength : tokens.length = 2 * halfLen) :
    AgreeUnmasked (mask.take halfLen) (tokens.slice 0 halfLen) (tokens'.slice 0 halfLen) := by
  apply agree.slice (by omega)
  intro p hp
  simp [List.getD_eq_getElem?_getD, List.getElem?_take_of_lt hp]

theorem clean (agree : AgreeUnmasked mask tokens tokens') (hlength : tokens.length = 2 * halfLen) :
    AgreeUnmasked (mask.drop halfLen) (tokens.slice halfLen halfLen)
      (tokens'.slice halfLen halfLen) := by
  apply agree.slice (by omega)
  intro p hp
  simp [List.getD_eq_getElem?_getD]

end AgreeUnmasked

theorem SameBlock.shown {valid valid' : Option (Nat → K)} {n : Nat}
    (hblock : SameBlock S tokens tokens' valid valid' n n)
    (hlength : tokens.length = tokens'.length) :
    SameBlock S tokens tokens' (OrderInvariantParams.shown S tokens.length valid)
      (OrderInvariantParams.shown S tokens'.length valid') n n where
  q := hblock.q
  mask s := by
    rw [hlength]
    exact congrArg (· * _) (hblock.mask s)
  k s hvisible := hblock.k s (left_ne_zero_of_mul hvisible)
  v s hvisible := hblock.v s (left_ne_zero_of_mul hvisible)

theorem AgreeUnmasked.sameBlock_shown [LinearOrder K] (agree : AgreeUnmasked mask tokens tokens')
    (attentionMask : Option (AttentionMask K)) (n : Nat) :
    SameBlock S tokens tokens'
      (OrderInvariantParams.shown S tokens.length
        (OrderInvariantParams.keyValid S tokens.length (some mask) attentionMask))
      (OrderInvariantParams.shown S tokens'.length
        (OrderInvariantParams.keyValid S tokens'.length (some mask) attentionMask)) n n :=
  (agree.sameBlock n).shown agree.length

end Blocks

/-- The heads compute the same outputs and states from both inputs. -/
def SameResults (numHeads : Nat) (tokens tokens' : Nat → HeadTokens D K)
    (forward : (Nat → HeadTokens D K) →
      (Nat → Nat → Vec D K) × (Nat → RecurrentState D F K))
    (forwardBd3lm : (Nat → HeadTokens D K) → Option (Nat → Nat → Vec D K)) : Prop :=
  (∀ h < numHeads, (forward tokens).1 h = (forward tokens').1 h ∧
    (forward tokens).2 h = (forward tokens').2 h) ∧
  Option.Rel (fun outs outs' => ∀ h < numHeads, outs h = outs' h)
    (forwardBd3lm tokens) (forwardBd3lm tokens')

omit [Field K] in
theorem rel_of_asserted {numHeads halfLen : Nat} {tokens tokens' : Nat → HeadTokens D K}
    {outs outs' : Nat → Nat → Vec D K}
    (hlengths : ∀ h < numHeads, (tokens h).length = (tokens' h).length)
    (houts : ∀ h < numHeads, (tokens h).length = 2 * halfLen → outs h = outs' h) :
    Option.Rel (fun outs outs' => ∀ h < numHeads, outs h = outs' h)
      (if ∀ h < numHeads, (tokens h).length = 2 * halfLen then some outs else none)
      (if ∀ h < numHeads, (tokens' h).length = 2 * halfLen then some outs' else none) := by
  have hiff : (∀ h < numHeads, (tokens h).length = 2 * halfLen) ↔
      ∀ h < numHeads, (tokens' h).length = 2 * halfLen := by
    apply forall₂_congr
    intro h hh
    rw [hlengths h hh]
  split_ifs with hasserted hasserted' hasserted'
  · exact .some (fun h hh => houts h hh (hasserted h hh))
  · exact absurd (hiff.mp hasserted) hasserted'
  · exact absurd (hiff.mpr hasserted') hasserted
  · exact .none

variable [LinearOrder K] [ExpOps K] {mask : List K} {halfLen : Nat}

/-! The hybrid layer. -/

section Hybrid

variable {m : HybridParams D F K} {h : Nat}

theorem staircaseStep_congr {noisy noisy' clean clean' : HeadTokens D K}
    {kvNoisy kvNoisy' kvClean kvClean' : Option (Nat → K)} {n : Nat}
    (hnoisy : SameBlock S noisy noisy' kvNoisy kvNoisy' n n)
    (hclean : SameBlock S clean clean' kvClean kvClean' n n) :
    staircaseStep m h S noisy clean kvNoisy kvClean n =
      staircaseStep m h S noisy' clean' kvNoisy' kvClean' n := by
  funext state
  rw [staircaseStep, staircaseStep, hclean.blockKeys, hclean.blockValues, hnoisy.blockRow,
    hclean.blockRow]

variable [NeZero S]

theorem headOutWith_congr {tokens tokens' : HeadTokens D K} {valid valid' : Option (Nat → K)}
    (hblocks : ∀ n, SameBlock S tokens tokens' valid valid' n n)
    (initial : RecurrentState D F K) (eps : K) :
    headOutWith (S := S) m h tokens valid initial eps =
      headOutWith (S := S) m h tokens' valid' initial eps := by
  funext p
  rw [headOutWith, headOutWith, stateAfter_congr (fun n _ => hblocks n), (hblocks _).blockRow]

theorem headBd3lm_congr {tokens tokens' : HeadTokens D K} {mask : Option (List K)}
    (hnoisy : ∀ n, SameBlock S (tokens.slice 0 halfLen) (tokens'.slice 0 halfLen)
      (keyValid S halfLen (mask.map (List.take halfLen)))
      (keyValid S halfLen (mask.map (List.take halfLen))) n n)
    (hclean : ∀ n, SameBlock S (tokens.slice halfLen halfLen) (tokens'.slice halfLen halfLen)
      (keyValid S halfLen (mask.map (List.drop halfLen)))
      (keyValid S halfLen (mask.map (List.drop halfLen))) n n) :
    headBd3lm m h S tokens halfLen mask = headBd3lm m h S tokens' halfLen mask := by
  funext p
  dsimp only [headBd3lm]
  rw [blockScan_congr (fun n _ => staircaseStep_congr (hnoisy n) (hclean n))]

theorem hybrid_sameResults {tokens tokens' : Nat → HeadTokens D K}
    {initial : Option (Nat → RecurrentState D F K)}
    (agree : ∀ h < m.numHeads, AgreeUnmasked mask (tokens h) (tokens' h)) :
    SameResults m.numHeads tokens tokens'
      (fun tokens => forward m S tokens (some mask) initial)
      (fun tokens => forwardBd3lm m S tokens halfLen (some mask)) := by
  constructor
  · intro h hh
    constructor
    · exact headOutWith_congr (agree h hh).sameBlock _ eps
    · dsimp only [forward, forwardWith]
      rw [stateAfter_congr (fun n _ => (agree h hh).sameBlock n), (agree h hh).length]
  · exact rel_of_asserted (fun h hh => (agree h hh).length)
      (fun h hh hlength => headBd3lm_congr ((agree h hh).noisy hlength).sameBlock
        ((agree h hh).clean hlength).sameBlock)

end Hybrid

/-! The linear layer. -/

section Linear

variable {m : OrderInvariantParams D F K} {h n : Nat}

namespace OrderInvariantParams

theorem forwardStep_congr {tokens tokens' : HeadTokens D K} {valid valid' : Option (Nat → K)}
    (hblock : SameBlock S tokens tokens' (shown S tokens.length valid)
      (shown S tokens'.length valid') n n) :
    m.forwardStep h tokens valid S n = m.forwardStep h tokens' valid' S n := by
  funext state
  rw [forwardStep, forwardStep, updated_congr hblock, blockRow_congr hblock]

theorem staircaseStep_congr {noisy noisy' clean clean' : HeadTokens D K}
    {kvNoisy kvNoisy' kvClean kvClean' : Option (Nat → K)}
    (hnoisy : SameBlock S noisy noisy' (shown S noisy.length kvNoisy)
      (shown S noisy'.length kvNoisy') n n)
    (hclean : SameBlock S clean clean' (shown S clean.length kvClean)
      (shown S clean'.length kvClean') n n) :
    m.staircaseStep h noisy clean kvNoisy kvClean S n =
      m.staircaseStep h noisy' clean' kvNoisy' kvClean' S n := by
  funext state
  rw [staircaseStep, staircaseStep, updated_congr hnoisy, updated_congr hclean,
    blockRow_congr hnoisy, blockRow_congr hclean]

variable [NeZero S]

theorem headBd3lm_congr {tokens tokens' : HeadTokens D K} {mask : Option (List K)}
    (hnoisy : ∀ n, SameBlock S (tokens.slice 0 halfLen) (tokens'.slice 0 halfLen)
      (shown S halfLen (keyValid S halfLen (mask.map (List.take halfLen)) none))
      (shown S halfLen (keyValid S halfLen (mask.map (List.take halfLen)) none)) n n)
    (hclean : ∀ n, SameBlock S (tokens.slice halfLen halfLen) (tokens'.slice halfLen halfLen)
      (shown S halfLen (keyValid S halfLen (mask.map (List.drop halfLen)) none))
      (shown S halfLen (keyValid S halfLen (mask.map (List.drop halfLen)) none)) n n) :
    m.headBd3lm h S tokens halfLen mask = m.headBd3lm h S tokens' halfLen mask := by
  funext p
  dsimp only [headBd3lm]
  rw [blockScan_congr (fun n _ => staircaseStep_congr (hnoisy n) (hclean n))]

theorem sameResults {tokens tokens' : Nat → HeadTokens D K}
    {attentionMask : Option (AttentionMask K)} {initial : Option (Nat → RecurrentState D F K)}
    (agree : ∀ h < m.numHeads, AgreeUnmasked mask (tokens h) (tokens' h)) :
    SameResults m.numHeads tokens tokens'
      (fun tokens => m.forward S tokens attentionMask (some mask) initial)
      (fun tokens => m.forwardBd3lm S tokens halfLen (some mask)) := by
  constructor
  · intro h hh
    dsimp only [forward]
    rw [blockScan_congr (fun n _ =>
      forwardStep_congr ((agree h hh).sameBlock_shown attentionMask n)), (agree h hh).length]
    exact ⟨rfl, rfl⟩
  · exact rel_of_asserted (fun h hh => (agree h hh).length)
      (fun h hh hlength => headBd3lm_congr (((agree h hh).noisy hlength).sameBlock_shown none)
        (((agree h hh).clean hlength).sameBlock_shown none))

end OrderInvariantParams

end Linear

theorem masked_keys_do_not_leak [NeZero S] (hybrid : HybridParams D F K)
    (linear : OrderInvariantParams D F K) (tokens tokens' : Nat → HeadTokens D K)
    (mask : List K) (attentionMask : Option (AttentionMask K))
    (initial : Option (Nat → RecurrentState D F K)) (halfLen : Nat)
    (hhybrid : ∀ h < hybrid.numHeads, AgreeUnmasked mask (tokens h) (tokens' h))
    (hlinear : ∀ h < linear.numHeads, AgreeUnmasked mask (tokens h) (tokens' h)) :
    SameResults hybrid.numHeads tokens tokens'
      (fun tokens => forward hybrid S tokens (some mask) initial)
      (fun tokens => forwardBd3lm hybrid S tokens halfLen (some mask)) ∧
    SameResults linear.numHeads tokens tokens'
      (fun tokens => linear.forward S tokens attentionMask (some mask) initial)
      (fun tokens => linear.forwardBd3lm S tokens halfLen (some mask)) :=
  ⟨hybrid_sameResults hhybrid, OrderInvariantParams.sameResults hlinear⟩

namespace HiddenKey

/-! One head and two tokens, the second of them masked. -/

omit [LinearOrder K] [ExpOps K]

def hybrid : HybridParams 1 1 K := ⟨1, 1, false, 1, fun _ _ _ => 1, fun _ => 0⟩

def linear : OrderInvariantParams 1 1 K := ⟨1, eps, fun _ _ _ => 1⟩

def tokens (x : K) (_ : Nat) : HeadTokens 1 K :=
  ⟨2, fun p _ => p, fun p _ => if p = 1 then x else 1, fun p _ => if p = 1 then x else 1⟩

theorem agreeUnmasked (x y : K) (h : Nat) :
    AgreeUnmasked [1, 0] (tokens x h) (tokens y h) := by
  have hentry : ∀ p < 2, ([1, 0] : List K).getD p 0 ≠ 0 →
      (if p = 1 then x else 1) = if p = 1 then y else 1
    | 0, _, _ => rfl
    | 1, _, hvisible => absurd rfl hvisible
  exact ⟨rfl, fun _ _ => rfl, fun p hp hvisible => funext fun _ => hentry p hp hvisible,
    fun p hp hvisible => funext fun _ => hentry p hp hvisible⟩

theorem masked_keys_do_not_leak_pair :
    SameResults 1 (tokens (0 : ℝ)) (tokens 1)
      (fun tokens => forward hybrid 2 tokens (some [1, 0]) none)
      (fun tokens => forwardBd3lm hybrid 2 tokens 1 (some [1, 0])) ∧
    SameResults 1 (tokens (0 : ℝ)) (tokens 1)
      (fun tokens => linear.forward 2 tokens none (some [1, 0]) none)
      (fun tokens => linear.forwardBd3lm 2 tokens 1 (some [1, 0])) :=
  masked_keys_do_not_leak hybrid linear (tokens 0) (tokens 1) [1, 0] none none 1
    (fun h _ => agreeUnmasked 0 1 h) (fun h _ => agreeUnmasked 0 1 h)

end HiddenKey

end LladaHybrid.Attention
