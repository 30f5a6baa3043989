import LladaHybrid.Attention.BlockRecurrence
import LladaHybrid.Library.WeightedSum
import Mathlib.Data.List.GetD
import Mathlib.Data.List.MinMax

namespace LladaHybrid.Attention

open LladaHybrid.Library

/-! The outputs of `forward` over chained calls stay between the smallest and the largest value
seen, with zero. -/

variable {D F S : Nat} {K : Type*} [Field K]

/-- One call of `forward` on a batch element, with a mask of zeros and ones. -/
structure ForwardCall (D : Nat) (K : Type*) [Field K] where
  tokens : Nat → HeadTokens D K
  keyPaddingMask : Option (List K)
  zero_or_one : ∀ mask ∈ keyPaddingMask, ∀ entry ∈ mask, entry = 0 ∨ entry = 1

namespace ForwardCall

variable (call : ForwardCall D K)

def valid (S h : Nat) : Option (Nat → K) :=
  keyValid S (call.tokens h).length call.keyPaddingMask

theorem getD_zero_or_one {mask : List K} (hmask : mask ∈ call.keyPaddingMask) (p : Nat) :
    mask.getD p 0 = 0 ∨ mask.getD p 0 = 1 := by
  cases Nat.lt_or_ge p mask.length with
  | inl hlt =>
      rw [List.getD_eq_getElem _ _ hlt]
      exact call.zero_or_one mask hmask _ (List.getElem_mem hlt)
  | inr hge => exact .inl (List.getD_eq_default _ _ hge)

variable [LinearOrder K]

def unmasked (p : Nat) : Bool :=
  match call.keyPaddingMask with
  | some mask => mask.getD p 0 ≠ 0
  | none => true

/-- Coordinate `d` of the unmasked values of head `h` before position `limit`. -/
def valuesBefore (h limit : Nat) (d : Fin D) : List K :=
  ((List.range (min limit (call.tokens h).length)).filter call.unmasked).map
    (fun p => (call.tokens h).v p d)

def values (h : Nat) (d : Fin D) : List K :=
  call.valuesBefore h (call.tokens h).length d

theorem maskAt_cases (S h p : Nat) :
    maskAt (call.valid S h) p = 0 ∨ maskAt (call.valid S h) p = 1 ∧ call.unmasked p = true := by
  unfold valid unmasked keyValid
  cases hmask : call.keyPaddingMask with
  | none =>
      dsimp only
      split_ifs
      · cases Nat.lt_or_ge p (call.tokens h).length with
        | inl hlt => exact .inr ⟨if_pos hlt, rfl⟩
        | inr hge => exact .inl (if_neg hge.not_gt)
      · exact .inr ⟨rfl, rfl⟩
  | some mask =>
      rcases call.getD_zero_or_one hmask p with hzero | hone
      · exact .inl hzero
      · right
        exact ⟨hone, decide_eq_true (hone.trans_ne one_ne_zero)⟩

/-- A value of block `n`, after masking, is zero or one of the values seen by then. -/
theorem blockValues_mem (h n : Nat) (s : Fin S) (d : Fin D) :
    blockValues (call.tokens h) (call.valid S h) S n s d ∈
      0 :: call.valuesBefore h ((n + 1) * S) d := by
  rw [blockValues, maskKeys_eq, blockTokens]
  split_ifs with hp
  · rcases call.maskAt_cases S h (n * S + s) with hmasked | ⟨hshown, hunmasked⟩
    · rw [hmasked, mul_zero]
      exact List.mem_cons_self
    · rw [hshown, mul_one]
      apply List.mem_cons_of_mem
      apply List.mem_map_of_mem
      rw [List.mem_filter, List.mem_range, lt_min_iff]
      exact ⟨⟨row_lt (Nat.lt_succ_self n) s, hp⟩, hunmasked⟩
  · rw [zero_mul]
    exact List.mem_cons_self

theorem blockValues_within {lo hi : K} (hzero : lo ≤ 0 ∧ 0 ≤ hi) {h n : Nat} {d : Fin D}
    (hvalues : ∀ a ∈ call.valuesBefore h ((n + 1) * S) d, lo ≤ a ∧ a ≤ hi) (s : Fin S) :
    lo ≤ blockValues (call.tokens h) (call.valid S h) S n s d ∧
      blockValues (call.tokens h) (call.valid S h) S n s d ≤ hi := by
  cases List.mem_cons.mp (call.blockValues_mem h n s d) with
  | inl hnull => exact hnull ▸ hzero
  | inr hmem => exact hvalues _ hmem

theorem valuesBefore_subset {h limit limit' : Nat} (hle : limit ≤ limit') (d : Fin D) :
    call.valuesBefore h limit d ⊆ call.valuesBefore h limit' d := by
  apply List.map_subset
  intro p hp
  rw [List.mem_filter, List.mem_range, lt_min_iff] at hp ⊢
  exact ⟨⟨hp.1.1.trans_le hle, hp.1.2⟩, hp.2⟩

theorem valuesBefore_subset_values (h limit : Nat) (d : Fin D) :
    call.valuesBefore h limit d ⊆ call.values h d := by
  apply List.map_subset
  intro p hp
  rw [List.mem_filter, List.mem_range, lt_min_iff] at hp ⊢
  exact ⟨⟨hp.1.2, hp.1.2⟩, hp.2⟩

end ForwardCall

section Rows

variable [LinearOrder K]

/-- The state adds up, for every feature, values between `lo` and `hi`. -/
def StateWithin (lo hi : K) (d : Fin D) (state : RecurrentState D F K) : Prop :=
  ∀ f, WeightedSum lo hi (state.Z f) (state.S f d)

theorem StateWithin.update [IsStrictOrderedRing K] {lo hi : K} {d : Fin D}
    {state : RecurrentState D F K} (hstate : StateWithin lo hi d state)
    {phiK : Fin S → Feature F → K} {v : Fin S → Vec D K} (hphi : ∀ s f, 0 ≤ phiK s f)
    (hv : ∀ s, lo ≤ v s d ∧ v s d ≤ hi) : StateWithin lo hi d (state.update phiK v) := by
  intro f
  apply (hstate f).add
  apply WeightedSum.sum
  intro s _
  exact WeightedSum.of_mem (hphi s f) (hv s).1 (hv s).2

variable [ExpOps K]

/-- The three clamped denominators of `_block_out`. -/
structure Denominators (K : Type*) where
  softmax : K
  linear : K
  shared : K

variable (m : HybridParams D F K) (h : Nat) (tokens : HeadTokens D K)
  (valid : Option (Nat → K))

/-- The softmax weights of position `s` of block `n`. -/
def rowWeights (n : Nat) (s : Fin S) : Fin S → K :=
  let q := blockTokens S tokens.length tokens.q n s
  attentionWeights (validKeys valid n)
    (fun j => (∑ d, q d * blockTokens S tokens.length tokens.k n j d) * m.scaling)

def rowFeatures (n : Nat) (s : Fin S) : Feature F → K :=
  featureMap (m.hedgehogWeights (m.stateHead h)) (blockTokens S tokens.length tokens.q n s)

def rowDenominators (eps : K) (n : Nat) (state : RecurrentState D F K) (s : Fin S) :
    Denominators K :=
  let smDen := max (∑ j, rowWeights m tokens valid n s j) eps
  let linDen := max (∑ f, rowFeatures m h tokens n s f * state.Z f) eps
  ⟨smDen, linDen, max (sigmoid (m.alpha h) * smDen + linDen) eps⟩

theorem blockRow_eq_div (eps : K) (n : Nat) (state : RecurrentState D F K) (s : Fin S)
    (d : Fin D) :
    blockRow m h tokens valid eps n state s d =
      (sigmoid (m.alpha h) *
          ∑ j, rowWeights m tokens valid n s j * blockValues tokens valid S n j d +
        ∑ f, rowFeatures m h tokens n s f * state.S f d) /
      (rowDenominators m h tokens valid eps n state s).shared :=
  rfl

theorem le_rowDenominators (eps : K) (n : Nat) (state : RecurrentState D F K) (s : Fin S) :
    eps ≤ (rowDenominators m h tokens valid eps n state s).softmax ∧
    eps ≤ (rowDenominators m h tokens valid eps n state s).linear ∧
    eps ≤ (rowDenominators m h tokens valid eps n state s).shared :=
  ⟨le_max_right _ _, le_max_right _ _, le_max_right _ _⟩

variable [LawfulExp K]

theorem attentionWeights_nonneg (visible : Finset (Fin S)) (scores : Fin S → K) (j : Fin S) :
    0 ≤ attentionWeights visible scores j := by
  unfold attentionWeights
  split_ifs
  · exact (LawfulExp.exp_pos _).le
  · exact le_rfl
  · exact (LawfulExp.exp_pos _).le

theorem rowWeights_nonneg (n : Nat) (s j : Fin S) : 0 ≤ rowWeights m tokens valid n s j := by
  unfold rowWeights
  exact attentionWeights_nonneg _ _ j

variable [IsStrictOrderedRing K] {m h tokens valid} {lo hi : K} {d : Fin D}

theorem blockRow_within {eps : K} (heps : 0 < eps) (hlo : lo ≤ 0) (hhi : 0 ≤ hi) {n : Nat}
    {state : RecurrentState D F K} (hstate : StateWithin lo hi d state) (s : Fin S)
    (hv : ∀ j, lo ≤ blockValues tokens valid S n j d ∧ blockValues tokens valid S n j d ≤ hi) :
    lo ≤ blockRow m h tokens valid eps n state s d ∧
      blockRow m h tokens valid eps n state s d ≤ hi := by
  have hsoftmax : WeightedSum lo hi (∑ j, rowWeights m tokens valid n s j)
      (∑ j, rowWeights m tokens valid n s j * blockValues tokens valid S n j d) := by
    apply WeightedSum.sum
    intro j _
    exact WeightedSum.of_mem (rowWeights_nonneg m tokens valid n s j) (hv j).1 (hv j).2
  have hlinear : WeightedSum lo hi (∑ f, rowFeatures m h tokens n s f * state.Z f)
      (∑ f, rowFeatures m h tokens n s f * state.S f d) := by
    apply WeightedSum.sum
    intro f _
    exact (hstate f).smul (featureMap_pos _ _ f).le
  have hmixed := ((hsoftmax.mono hlo hhi (le_max_left _ eps)).smul
    (sigmoid_pos (m.alpha h)).le).add (hlinear.mono hlo hhi (le_max_left _ eps))
  rw [blockRow_eq_div]
  exact (hmixed.mono hlo hhi (le_max_left _ eps)).div_mem
    (heps.trans_le (le_rowDenominators m h tokens valid eps n state s).2.2)

end Rows

section Calls

variable [LinearOrder K]

/-- Zero and the unmasked values of every earlier call and of this one up to the block of `p`. -/
def valuesSeen (S : Nat) (earlier : List (ForwardCall D K)) (call : ForwardCall D K) (h p : Nat)
    (d : Fin D) : List K :=
  0 :: (earlier.flatMap (fun c => c.values h d) ++ call.valuesBefore h ((p / S + 1) * S) d)

theorem valuesSeen_of_earlier {earlier : List (ForwardCall D K)} {call other : ForwardCall D K}
    {h p : Nat} {d : Fin D} (hother : other ∈ earlier) :
    other.values h d ⊆ valuesSeen S earlier call h p d := by
  intro a ha
  apply List.mem_cons_of_mem
  apply List.mem_append_left
  exact List.mem_flatMap.mpr ⟨other, hother, ha⟩

variable [ExpOps K]

/-- The states `forward` returns after the calls, each started from the states of the one
before; `none` before the first. -/
def chainStates (m : HybridParams D F K) (eps : K) (S : Nat) [NeZero S]
    (calls : List (ForwardCall D K)) : Option (Nat → RecurrentState D F K) :=
  calls.foldl (fun states call =>
    some (forwardWith m eps S call.tokens call.keyPaddingMask states).2) none

def startState (states : Option (Nat → RecurrentState D F K)) (h : Nat) : RecurrentState D F K :=
  states.getD (fun _ => RecurrentState.zero) h

/-- The denominators behind position `p` of the call. -/
def ForwardCall.denominators (call : ForwardCall D K) (m : HybridParams D F K) (eps : K) (S : Nat)
    [NeZero S] (states : Option (Nat → RecurrentState D F K)) (h p : Nat) : Denominators K :=
  rowDenominators m h (call.tokens h) (call.valid S h) eps (p / S)
    (stateAfter m h (call.tokens h) (call.valid S h) (startState states h) S (p / S))
    (Fin.ofNat S p)

variable [IsStrictOrderedRing K] [LawfulExp K] {m : HybridParams D F K} {lo hi : K} {d : Fin D}
  {h : Nat}

theorem ForwardCall.blockKeys_nonneg (call : ForwardCall D K) (n : Nat) (s : Fin S)
    (f : Feature F) : 0 ≤ blockKeys m h (call.tokens h) (call.valid S h) S n s f := by
  rw [blockKeys, maskKeys_eq]
  apply mul_nonneg (featureMap_pos _ _ f).le
  rcases call.maskAt_cases S h (n * S + s) with hmasked | ⟨hshown, -⟩
  · exact hmasked.ge
  · exact hshown ▸ zero_le_one

theorem ForwardCall.stateAfter_within (call : ForwardCall D K) {initial : RecurrentState D F K}
    (hinitial : StateWithin lo hi d initial) (hzero : lo ≤ 0 ∧ 0 ≤ hi) {n : Nat}
    (hvalues : ∀ a ∈ call.valuesBefore h (n * S) d, lo ≤ a ∧ a ≤ hi) :
    StateWithin lo hi d
      (stateAfter m h (call.tokens h) (call.valid S h) initial S n) := by
  induction n with
  | zero => exact hinitial
  | succ n ih =>
      have hfewer := call.valuesBefore_subset
        (h := h) (Nat.mul_le_mul_right S (Nat.le_succ n)) d
      apply (ih (fun a ha => hvalues a (hfewer ha))).update
      · exact call.blockKeys_nonneg n
      · exact call.blockValues_within hzero hvalues

variable [NeZero S]

/-- Calls whose values stay within bounds around zero keep their states within them. -/
theorem chainStates_within (eps : K) {calls : List (ForwardCall D K)}
    (hzero : lo ≤ 0 ∧ 0 ≤ hi)
    (hvalues : ∀ call ∈ calls, ∀ a ∈ call.values h d, lo ≤ a ∧ a ≤ hi) :
    StateWithin lo hi d (startState (chainStates m eps S calls) h) := by
  induction calls using List.reverseRecOn with
  | nil => exact fun _ => WeightedSum.zero
  | append_singleton calls call ih =>
      have hbefore := ih (fun c hc => hvalues c (List.mem_append_left [call] hc))
      rw [chainStates, List.foldl_append]
      apply call.stateAfter_within hbefore hzero
      intro a ha
      apply hvalues call (List.mem_append_right calls List.mem_cons_self)
      exact call.valuesBefore_subset_values h _ d ha

theorem chained_output_within {eps : K} (heps : 0 < eps) (m : HybridParams D F K)
    (earlier : List (ForwardCall D K)) (call : ForwardCall D K) (h p : Nat) (d : Fin D) :
    let states := chainStates m eps S earlier
    let denominators := call.denominators m eps S states h p
    let out := (forwardWith m eps S call.tokens call.keyPaddingMask states).1 h p d
    let seen := valuesSeen S earlier call h p d
    (eps ≤ denominators.softmax ∧ eps ≤ denominators.linear ∧ eps ≤ denominators.shared) ∧
      seen.minimum_of_length_pos (Nat.succ_pos _) ≤ out ∧
      out ≤ seen.maximum_of_length_pos (Nat.succ_pos _) := by
  intro states denominators out seen
  have hseen : ∀ a ∈ seen, seen.minimum_of_length_pos (Nat.succ_pos _) ≤ a ∧
      a ≤ seen.maximum_of_length_pos (Nat.succ_pos _) := by
    intro a ha
    exact ⟨List.minimum_of_length_pos_le_of_mem ha _, List.le_maximum_of_length_pos_of_mem ha _⟩
  have hzero := hseen 0 List.mem_cons_self
  have hearlier : StateWithin _ _ d (startState states h) :=
    chainStates_within eps hzero (fun c hc a ha => hseen a (valuesSeen_of_earlier hc ha))
  have hcurrent : ∀ a ∈ call.valuesBefore h ((p / S + 1) * S) d, _ :=
    fun a ha => hseen a (List.mem_cons_of_mem 0 (List.mem_append_right _ ha))
  have hfewer := call.valuesBefore_subset (h := h) (Nat.mul_le_mul_right S (p / S).le_succ) d
  have hbefore := call.stateAfter_within (m := m) hearlier hzero
    (fun a ha => hcurrent a (hfewer ha))
  exact ⟨le_rowDenominators m h _ _ eps _ _ _,
    blockRow_within heps hzero.1 hzero.2 hbefore _ (call.blockValues_within hzero hcurrent)⟩

end Calls

namespace TwoCalls

/-- A ragged call without a mask, and one whose second token is masked. -/
def ragged : ForwardCall 1 ℝ :=
  ⟨fun _ => ⟨3, fun p _ => p, fun p _ => p, fun p _ => p⟩, none, by simp⟩

def masked : ForwardCall 1 ℝ :=
  ⟨fun _ => ⟨2, fun p _ => p, fun p _ => p, fun p _ => -p - 1⟩, some [1, 0], by simp⟩

def params : HybridParams 1 1 ℝ := ⟨1, 1, false, 1, fun _ _ _ => 1, fun _ => 0⟩

theorem chained_output_within_masked :
    let seen := valuesSeen 2 [ragged] masked 0 1 0
    let states := chainStates params eps 2 [ragged]
    let out := (forwardWith params eps 2 masked.tokens masked.keyPaddingMask states).1 0 1 0
    seen.minimum_of_length_pos (Nat.succ_pos _) ≤ out ∧
      out ≤ seen.maximum_of_length_pos (Nat.succ_pos _) := by
  have heps : (0 : ℝ) < eps := by
    rw [eps]
    norm_num
  exact (chained_output_within heps params [ragged] masked 0 1 0).2

end TwoCalls

end LladaHybrid.Attention
