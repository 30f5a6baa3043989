import LladaHybrid.Attention.BlockRecurrence
import LladaHybrid.Library.BlockSum

namespace LladaHybrid.Attention

open LladaHybrid.Library LawfulExp

/-! The quadratic definition of the hybrid layer: a query weighs the keys of its own block by
softmax and the keys of all earlier blocks by the kernel of the feature map. The recurrence of
`forward` computes it. -/

variable {D F S : Nat} {K : Type*} [Field K]

section Definition

variable (m : HybridParams D F K) (h : Nat) (tokens : HeadTokens D K)

def score (t j : Nat) : K := (∑ d, tokens.q t d * tokens.k j d) * m.scaling

variable [ExpOps K]

def features (x : Vec D K) : Feature F → K :=
  featureMap (m.hedgehogWeights (m.stateHead h)) x

def kernel (t j : Nat) : K :=
  ∑ f, features m h (tokens.q t) f * features m h (tokens.k j) f

/-- The initial state and the keys and values at some positions. -/
def stateOver (initial : RecurrentState D F K) (positions : Finset Nat) :
    RecurrentState D F K where
  S f d := initial.S f d + ∑ j ∈ positions, features m h (tokens.k j) f * tokens.v j d
  Z f := initial.Z f + ∑ j ∈ positions, features m h (tokens.k j) f

variable [LinearOrder K]

/-- The softmax weight of key `j` in the block of query `t`, below its row maximum. -/
def blockWeight (S : Nat) (t : Fin tokens.length) (j : Nat) : K :=
  exp (score m tokens t j - (blockOf S tokens.length (t / S)).sup'
    (blockOf_nonempty S t.isLt) (score m tokens t))

def quadraticOut (eps : K) (S : Nat) (initial : RecurrentState D F K) (t : Fin tokens.length) :
    Vec D K :=
  let w := sigmoid (m.alpha h)
  let phiQ := features m h (tokens.q t)
  let own := blockOf S tokens.length (t / S)
  let earlier := blocksBefore S tokens.length (t / S)
  fun d =>
    (w * ∑ j ∈ own, blockWeight m tokens S t j * tokens.v j d + ∑ f, phiQ f * initial.S f d +
        ∑ j ∈ earlier, kernel m h tokens t j * tokens.v j d) /
      (w * ∑ j ∈ own, blockWeight m tokens S t j +
        max eps (∑ f, phiQ f * initial.Z f + ∑ j ∈ earlier, kernel m h tokens t j))

end Definition

/-! The state. -/

section State

variable [ExpOps K] {m : HybridParams D F K} {h n : Nat} {tokens : HeadTokens D K}
  {initial : RecurrentState D F K}

theorem blockKeys_eq_ite (hn : n < numBlocks tokens.length S) (s : Fin S) (f : Feature F) :
    blockKeys m h tokens (keyValid S tokens.length none) S n s f =
      if n * S + s < tokens.length then features m h (tokens.k (n * S + s)) f else 0 := by
  rw [blockKeys, maskKeys_padding hn]
  split_ifs with hlt
  · rw [blockTokens, if_pos hlt, features]
  · rfl

omit [ExpOps K] in
theorem blockValues_eq_ite (hn : n < numBlocks tokens.length S) (s : Fin S) (d : Fin D) :
    blockValues tokens (keyValid S tokens.length none) S n s d =
      if n * S + s < tokens.length then tokens.v (n * S + s) d else 0 := by
  rw [blockValues, maskKeys_padding hn]
  split_ifs with hlt
  · rw [blockTokens, if_pos hlt]
  · rfl

variable [NeZero S]

theorem update_stateOver (hn : n < numBlocks tokens.length S) :
    (stateOver m h tokens initial (blocksBefore S tokens.length n)).update
        (blockKeys m h tokens (keyValid S tokens.length none) S n)
        (blockValues tokens (keyValid S tokens.length none) S n) =
      stateOver m h tokens initial (blocksBefore S tokens.length (n + 1)) := by
  ext f d
  · simp only [RecurrentState.update, stateOver, sum_blocksBefore_succ, add_assoc,
      blockKeys_eq_ite hn, blockValues_eq_ite hn, ← sum_rows, ite_zero_mul_ite_zero, and_self]
  · simp only [RecurrentState.update, stateOver, sum_blocksBefore_succ, add_assoc,
      blockKeys_eq_ite hn, ← sum_rows]

/-- The state before a block holds the keys and values of the blocks before it. -/
theorem stateAfter_eq_stateOver (hn : n ≤ numBlocks tokens.length S) :
    stateAfter m h tokens (keyValid S tokens.length none) initial S n =
      stateOver m h tokens initial (blocksBefore S tokens.length n) := by
  induction n with
  | zero => simp [stateAfter, stateOver]
  | succ n ih => rw [stateAfter, ih (Nat.le_of_succ_le hn), update_stateOver hn]

theorem stateAfter_numBlocks :
    stateAfter m h tokens (keyValid S tokens.length none) initial S
        (numBlocks tokens.length S) =
      stateOver m h tokens initial (Finset.range tokens.length) := by
  rw [stateAfter_eq_stateOver le_rfl, blocksBefore_all (fun _ => div_lt_numBlocks)]

theorem query_stateOver_S (positions : Finset Nat) (t : Nat) (d : Fin D) :
    ∑ f, features m h (tokens.q t) f * (stateOver m h tokens initial positions).S f d =
      ∑ f, features m h (tokens.q t) f * initial.S f d +
        ∑ j ∈ positions, kernel m h tokens t j * tokens.v j d := by
  simp only [stateOver, kernel, mul_add, Finset.sum_add_distrib, Finset.mul_sum, Finset.sum_mul,
    mul_assoc]
  rw [Finset.sum_comm]

theorem query_stateOver_Z (positions : Finset Nat) (t : Nat) :
    ∑ f, features m h (tokens.q t) f * (stateOver m h tokens initial positions).Z f =
      ∑ f, features m h (tokens.q t) f * initial.Z f +
        ∑ j ∈ positions, kernel m h tokens t j := by
  simp only [stateOver, kernel, mul_add, Finset.sum_add_distrib, Finset.mul_sum]
  rw [Finset.sum_comm]

end State

/-! The output. -/

section Output

variable {length n : Nat}

theorem blockTokens_row [NeZero S] (t : Fin length) (x : Nat → Vec D K) :
    blockTokens S length x (t / S) (Fin.ofNat S t) = x t := by
  have hposition : t / S * S + (Fin.ofNat S t.val).val = t := Nat.div_add_mod' t.val S
  rw [blockTokens, hposition, if_pos t.isLt]

variable [LinearOrder K]

theorem validKeys_none (hn : n < numBlocks length S) :
    validKeys (keyValid S length (none : Option (List K))) n = rowsOf S length n := by
  ext s
  rw [mem_validKeys, maskAt_keyValid_none hn, mem_rowsOf]
  simp

/-- The clamps of the softmax sum and of the whole denominator do nothing. -/
theorem mixStreams_eq [IsStrictOrderedRing K] {eps w smDen linDen : K} (heps : eps ≤ 1)
    (hw : 0 ≤ w) (hsm : 1 ≤ smDen) (smNum linNum : Vec D K) (d : Fin D) :
    mixStreams eps w smNum smDen linNum linDen d =
      (w * smNum d + linNum d) / (w * smDen + max eps linDen) := by
  have hle : eps ≤ w * smDen + max eps linDen := by
    have hproduct : 0 ≤ w * smDen := mul_nonneg hw (zero_le_one.trans hsm)
    have hclamp : eps ≤ max eps linDen := le_max_left eps linDen
    linarith
  rw [mixStreams, max_eq_left (heps.trans hsm), max_comm linDen, max_eq_left hle]

variable [ExpOps K] {m : HybridParams D F K} {h : Nat} {tokens : HeadTokens D K}

theorem attentionWeights_rowsOf [NeZero S] (t : Fin tokens.length) :
    attentionWeights (rowsOf S tokens.length (t / S))
        (fun s => score m tokens t (t / S * S + s)) =
      fun s : Fin S => if t / S * S + s < tokens.length then
        blockWeight m tokens S t (t / S * S + s) else 0 := by
  have hrows := rowsOf_nonempty S t.isLt
  funext s
  simp only [attentionWeights, dif_pos hrows, mem_rowsOf, blockWeight,
    sup'_blockOf (blockOf_nonempty S t.isLt) hrows]

theorem attentionWeights_block [NeZero S] (t : Fin tokens.length) :
    attentionWeights (validKeys (keyValid S tokens.length (none : Option (List K))) (t / S))
        (fun s => (∑ d, tokens.q t d *
          blockTokens S tokens.length tokens.k (t / S) s d) * m.scaling) =
      fun s : Fin S => if t / S * S + s < tokens.length then
        blockWeight m tokens S t (t / S * S + s) else 0 := by
  rw [validKeys_none (div_lt_numBlocks t.isLt), ← attentionWeights_rowsOf]
  apply attentionWeights_congr
  intro s hs
  rw [score, blockTokens, if_pos (mem_rowsOf.mp hs)]

theorem one_le_sum_blockWeight [IsStrictOrderedRing K] [LawfulExp K] (t : Fin tokens.length) :
    1 ≤ ∑ j ∈ blockOf S tokens.length (t / S), blockWeight m tokens S t j := by
  obtain ⟨best, hbest, hmax⟩ :=
    Finset.exists_mem_eq_sup' (blockOf_nonempty S t.isLt) (score m tokens t)
  simp only [blockWeight, hmax]
  exact one_le_sum_exp_sub (score m tokens t) hbest

theorem headOutWith_eq_quadraticOut [IsStrictOrderedRing K] [LawfulExp K] [NeZero S] {eps : K}
    (heps : eps ≤ 1) (initial : RecurrentState D F K) (t : Fin tokens.length) :
    headOutWith (S := S) m h tokens (keyValid S tokens.length none) initial eps t =
      quadraticOut m h tokens eps S initial t := by
  have hn : t / S < numBlocks tokens.length S := div_lt_numBlocks t.isLt
  have hnum (d : Fin D) := sum_rows (S := S) tokens.length (t / S)
    (fun j => blockWeight m tokens S t j * tokens.v j d)
  have hden := sum_rows (S := S) tokens.length (t / S) (blockWeight m tokens S t)
  funext d
  rw [headOutWith, stateAfter_eq_stateOver hn.le]
  simp only [blockRow, blockTokens_row, blockOut, attentionWeights_block]
  rw [hden, mixStreams_eq heps (sigmoid_pos _).le (one_le_sum_blockWeight t)]
  simp only [blockValues_eq_ite hn, ite_zero_mul_ite_zero, and_self, hnum]
  rw [← features, query_stateOver_S, query_stateOver_Z, ← add_assoc]
  rfl

/-- The recurrence computes the quadratic definition, from any initial state. -/
theorem forwardWith_eq_quadratic [IsStrictOrderedRing K] [LawfulExp K] [NeZero S]
    (m : HybridParams D F K) {eps : K} (heps : eps ≤ 1) (tokens : Nat → HeadTokens D K)
    (initial : Option (Nat → RecurrentState D F K)) (h : Nat) :
    let start := initial.getD (fun _ => RecurrentState.zero) h
    (∀ t : Fin (tokens h).length, (forwardWith m eps S tokens none initial).1 h t =
      quadraticOut m h (tokens h) eps S start t) ∧
    (forwardWith m eps S tokens none initial).2 h =
      stateOver m h (tokens h) start (Finset.range (tokens h).length) :=
  ⟨headOutWith_eq_quadraticOut heps _, stateAfter_numBlocks⟩

end Output

namespace ThreeTokens

/-! Two heads that share their weights, and a short last block. -/

def params : HybridParams 1 1 K := ⟨2, 1, true, 1, fun _ _ _ => 1, fun _ => 0⟩

def tokens (h : Nat) : HeadTokens 1 K := ⟨3, fun p _ => p, fun p _ => h + p, fun p _ => h * p⟩

theorem forward_eq_quadratic_ragged :
    (∀ t : Fin 3, (forward (params (K := ℝ)) 2 tokens none none).1 1 t =
      quadraticOut params 1 (tokens 1) eps 2 .zero t) ∧
    (forward (params (K := ℝ)) 2 tokens none none).2 1 =
      stateOver params 1 (tokens 1) .zero (Finset.range 3) :=
  forwardWith_eq_quadratic params eps_le_one tokens none 1

end ThreeTokens

end LladaHybrid.Attention
