import LladaHybrid.Generate.RowDisturbance

namespace LladaHybrid.Generate

open LladaHybrid.Library LladaHybrid.Decode

/-! Models through which a row sees that it is not alone. Both tell the rows apart by a token
of the prompt, the mark: one keeps the unmarked rows masked while the marked ones go on
editing, the other has the unmarked rows generate an EOS. -/

variable {σ : Type*} {N P B V : Nat} {K : Type*}

/-! A model that reads the same logits with and without the cache. -/

section Remembering

variable [NeZero V]
  (rowForward : (numBlock : Nat) → (Fin (numBlock + 1) → Block B V) → Logits B V K)

/-- A cache that keeps the blocks themselves. -/
def RowCache.remembering : RowCache (Tokens B V) B V K where
  init := fun _ _ => 0
  read blocks numBlock block :=
    rowForward numBlock (window (Function.update blocks numBlock block) numBlock)
  commit blocks numBlock block := Function.update blocks numBlock block

def LanguageModel.remembering : LanguageModel (fun N => Fin N → Tokens B V) B V K :=
  .rowwise rowForward (.remembering rowForward)

theorem LanguageModel.remembering_agree (N : Nat) :
    Agree ((LanguageModel.remembering rowForward).uncached N)
      ((LanguageModel.remembering rowForward).cached N)
      (fun n x _ blocks => ∀ r, ∀ m < n, blocks r m = x r m) where
  init _ _ _ hm := absurd hm (Nat.not_lt_zero _)
  congr hblocks hsame r m hm := (hblocks r m hm).trans (hsame r m hm)
  read {n x _ blocks} hblocks := by
    funext r
    change rowForward n (window (x r) n) =
      rowForward n (window (Function.update (blocks r) n (x r n)) n)
    congr 1
    funext m
    rcases Nat.lt_succ_iff_lt_or_eq.mp m.isLt with hlt | heq
    · exact ((Function.update_of_ne hlt.ne _ _).trans (hblocks r m hlt)).symm
    · simp only [window, heq, Function.update_self]
  commit {n x _ blocks} hblocks r m hm := by
    change Function.update (blocks r) n (x r n) m = x r m
    rcases Nat.lt_succ_iff_lt_or_eq.mp hm with hlt | rfl
    · rw [Function.update_of_ne hlt.ne, hblocks r m hlt]
    · rw [Function.update_self]

theorem LanguageModel.generate_remembering [Field K] [LinearOrder K] [ExpOps K] [TopK K]
    [NeZero B] (args : GenerateArgs V K) (useKvCache : Bool) (prompt : Fin N → Fin P → Fin V) :
    (LanguageModel.remembering rowForward).generate args useKvCache prompt =
      generateWith args ((LanguageModel.remembering rowForward).uncached N) prompt := by
  cases useKvCache with
  | false => rfl
  | true => exact ((LanguageModel.remembering_agree rowForward N).generateWith prompt).symm

end Remembering

/-! Logits that are sure of a token. -/

section Sure

variable [Field K] [LinearOrder K] [IsStrictOrderedRing K] [ExpOps K] [StrictExp K] [NeZero V]

omit [NeZero V] [IsStrictOrderedRing K] in
theorem softmax_eq_one_div (row : Fin V → K) (v : Fin V) :
    softmax row v = 1 / (1 + ∑ u ∈ Finset.univ.erase v, exp (row u - row v)) := by
  rw [← softmax_shift row (row v) v, ← Finset.add_sum_erase _ _ (Finset.mem_univ v), sub_self,
    exp_zero]

omit [NeZero V] [LinearOrder K] [IsStrictOrderedRing K] [Field K] [ExpOps K] [StrictExp K] in
theorem card_univ_erase (v : Fin V) : (Finset.univ.erase v).card = V - 1 := by
  rw [Finset.card_erase_of_mem (Finset.mem_univ v), Finset.card_univ, Fintype.card_fin]

omit [NeZero V] [IsStrictOrderedRing K] in
theorem softmax_peakedRow (token : Fin V) (height : K) :
    softmax (peakedRow token height) token = 1 / (1 + (V - 1) • exp (-height)) := by
  have hpeaked : ∀ v ∈ Finset.univ.erase token,
      exp (peakedRow token height v - peakedRow token height token) = exp (-height) := by
    intro v hv
    rw [peakedRow_self, peakedRow, if_neg (Finset.ne_of_mem_erase hv), zero_sub]
  rw [softmax_eq_one_div, Finset.sum_congr rfl hpeaked, Finset.sum_const, card_univ_erase]

/-- A high enough peak is predicted with more confidence than any given row has. -/
theorem exists_softmax_lt (hV : 1 < V) (row : Fin V → K) (token : Fin V) :
    ∃ height, 0 < height ∧ softmax row (argmax row) < softmax (peakedRow token height) token := by
  have hgap : ∀ v, 0 ≤ row (argmax row) - row v := fun v => sub_nonneg.mpr (le_argmax row v)
  refine ⟨1 + ∑ v, (row (argmax row) - row v),
    add_pos_of_pos_of_nonneg one_pos (Finset.sum_nonneg fun v _ => hgap v), ?_⟩
  set height := 1 + ∑ v, (row (argmax row) - row v)
  have hless : ∀ v ∈ Finset.univ.erase (argmax row),
      exp (-height) < exp (row v - row (argmax row)) := by
    intro v _
    have hsingle := Finset.single_le_sum (fun v _ => hgap v) (Finset.mem_univ v)
    refine StrictExp.exp_lt_exp ?_
    rw [neg_lt, neg_sub]
    exact lt_of_le_of_lt hsingle (lt_one_add _)
  rw [softmax_eq_one_div, softmax_peakedRow, ← card_univ_erase (argmax row), ← Finset.sum_const]
  refine one_div_lt_one_div_of_lt ?_ (add_lt_add_right (Finset.sum_lt_sum_of_nonempty ?_ hless) 1)
  · exact add_pos_of_pos_of_nonneg one_pos (Finset.sum_nonneg fun _ _ => (LawfulExp.exp_pos _).le)
  · rw [← Finset.card_pos, card_univ_erase]
    omega

theorem CanEdit.exists_sure {args : GenerateArgs V K} (hcan : CanEdit args) (hV : 1 < V) :
    ∃ sure : Fin V → Fin V → K, ∀ token, argmax (sure token) = token ∧
      args.editingThreshold < (((softmax (sure token) token : K) : WithTop K) : Conf K) := by
  obtain ⟨row, hrow⟩ := hcan
  choose height hpos hheight using exists_softmax_lt hV row
  refine ⟨fun token => peakedRow token (height token), fun token => ?_⟩
  refine ⟨argmax_peakedRow token (hpos token), hrow.trans ?_⟩
  exact WithBot.coe_lt_coe.mpr (WithTop.coe_lt_coe.mpr (hheight token))

/-- Over the reals a peak comes as close to certainty as is asked for. -/
theorem canEdit_iff {args : GenerateArgs V ℝ} :
    CanEdit args ↔ args.editingThreshold < (((1 : ℝ) : WithTop ℝ) : Conf ℝ) := by
  constructor
  · rintro ⟨row, hrow⟩
    refine hrow.trans_le (WithBot.coe_le_coe.mpr (WithTop.coe_le_coe.mpr ?_))
    have hrest : 0 ≤ ∑ u ∈ Finset.univ.erase (argmax row), exp (row u - row (argmax row)) :=
      Finset.sum_nonneg fun _ _ => (LawfulExp.exp_pos _).le
    rw [softmax_eq_one_div]
    exact div_le_one_of_le₀ (le_add_of_nonneg_right hrest) (by linarith)
  · intro hone
    have hlimit : Filter.Tendsto (fun height : ℝ => 1 / (1 + (V - 1) • Real.exp (-height)))
        Filter.atTop (nhds (1 / (1 + (V - 1) • 0))) :=
      tendsto_const_nhds.div (tendsto_const_nhds.add
        (Real.tendsto_exp_neg_atTop_nhds_zero.const_smul (V - 1))) (by simp)
    rw [smul_zero, add_zero, one_div_one] at hlimit
    have hsure : ∀ bound : ℝ, bound < 1 → ∃ row : Fin V → ℝ, bound < softmax row (argmax row) := by
      intro bound hbound
      obtain ⟨height, hheight, hpos⟩ :=
        ((hlimit.eventually (lt_mem_nhds hbound)).and (Filter.eventually_gt_atTop 0)).exists
      refine ⟨peakedRow 0 height, ?_⟩
      rw [argmax_peakedRow 0 hpos, softmax_peakedRow]
      exact hheight
    rw [CanEdit]
    induction hthreshold : args.editingThreshold using WithBot.recBotCoe with
    | bot => exact ⟨0, WithBot.bot_lt_coe _⟩
    | coe threshold =>
        rw [hthreshold, WithBot.coe_lt_coe] at hone
        obtain ⟨bound, rfl⟩ := WithTop.ne_top_iff_exists.mp hone.ne_top
        obtain ⟨row, hrow⟩ := hsure bound (WithTop.coe_lt_coe.mp hone)
        exact ⟨row, WithBot.coe_lt_coe.mpr (WithTop.coe_lt_coe.mpr hrow)⟩

end Sure

/-! The mark. -/

section Mark

variable [NeZero B]

theorem div_mul_add_ofNat (q : Nat) : q / B * B + (Fin.ofNat B q : Nat) = q :=
  Nat.div_add_mod' q B

theorem ofNat_mem_promptMaskInBlock {promptLength q : Nat} :
    Fin.ofNat B q ∈ promptMaskInBlock promptLength (q / B) ↔ q < promptLength := by
  have hposition := div_mul_add_ofNat (B := B) q
  rw [mem_promptMaskInBlock]
  omega

/-- The token at position `p` of the window. -/
def markAt (p numBlock : Nat) (w : Fin (numBlock + 1) → Block B V) : Fin V :=
  if hp : p / B < numBlock + 1 then w ⟨p / B, hp⟩ (Fin.ofNat B p)
  else w (Fin.last numBlock) (Fin.ofNat B p)

theorem markAt_window {p n : Nat} (hp : p / B ≤ n) (x : Tokens B V) :
    markAt p n (window x n) = tokenAt x p := by
  rw [markAt, dif_pos (Nat.lt_succ_of_le hp), window, tokenAt]

theorem tokenAt_initialTokens {maskId : Fin V} {prompt : Fin P → Fin V} {p : Nat} (hp : p < P) :
    tokenAt (initialTokens (B := B) maskId prompt) p = prompt ⟨p, hp⟩ := by
  have hposition := div_mul_add_ofNat (B := B) p
  rw [tokenAt, initialTokens, dif_pos (by omega)]
  congr 1
  exact Fin.ext hposition

theorem tokenAt_initialTokens_of_le {maskId : Fin V} {prompt : Fin P → Fin V} {p : Nat}
    (hp : P ≤ p) : tokenAt (initialTokens (B := B) maskId prompt) p = maskId := by
  have hposition := div_mul_add_ofNat (B := B) p
  rw [tokenAt, initialTokens, dif_neg (by omega)]

/-- Prompts that differ have a token, not the mask, that one of them has and another has not. -/
theorem exists_mark (maskId : Fin V) {prompt : Fin N → Fin P → Fin V}
    (hdiffer : ¬ ∀ i j, prompt i = prompt j) :
    ∃ (p : Fin P) (marked plain : Fin N), prompt marked p ≠ maskId ∧
      prompt plain p ≠ prompt marked p := by
  push Not at hdiffer
  obtain ⟨i, j, hne⟩ := hdiffer
  obtain ⟨p, hp⟩ := Function.ne_iff.mp hne
  by_cases hmask : prompt i p = maskId
  · exact ⟨p, j, i, fun hother => hp (hmask.trans hother.symm), hp⟩
  · exact ⟨p, i, j, hmask, hp.symm⟩

end Mark

/-! The marked rows step through a chain of tokens, one at each step, as long as the batch
goes on; the others are predicted masks and keep it going. -/

section Chain

/-- From the mask through `length` further tokens, the last of which follows itself. -/
theorem exists_chain {length : Nat} (hlength : length < V) (maskId : Fin V) :
    ∃ next : Fin V → Fin V, (∀ v, 0 < length → next v ≠ maskId) ∧
      ∀ i j, i < length → i < j → next^[i] maskId ≠ next^[j] maskId := by
  have hV : 0 < V := by omega
  let first : Fin V := ⟨0, hV⟩
  let swap := Equiv.swap maskId first
  let entry : Nat → Fin V := fun k => ⟨min k length, by omega⟩
  let next : Fin V → Fin V := fun v => swap (entry (swap v + 1))
  have hiterate : ∀ k, next^[k] maskId = swap (entry k) := by
    intro k
    induction k with
    | zero =>
        have hzero : entry 0 = first := Fin.ext (Nat.zero_min length)
        rw [Function.iterate_zero_apply, hzero]
        exact (Equiv.swap_apply_right maskId first).symm
    | succ k ih =>
        have hnext : entry (entry k + 1) = entry (k + 1) := Fin.ext (by
          change min (min k length + 1) length = min (k + 1) length
          omega)
        rw [Function.iterate_succ_apply', ih]
        change swap (entry (swap (swap (entry k)) + 1)) = _
        rw [Equiv.swap_apply_self, hnext]
  refine ⟨next, ?_, ?_⟩
  · intro v hpos hmask
    have hfirst : entry (swap v + 1) = first := swap.injective
      (hmask.trans (Equiv.swap_apply_right maskId first).symm)
    have hval := congrArg Fin.val hfirst
    change min _ length = 0 at hval
    omega
  · intro i j hi hij hsame
    rw [hiterate, hiterate] at hsame
    have hval := congrArg Fin.val (swap.injective hsame)
    change min i length = min j length at hval
    omega

/-- The row after `k` steps through the chain. -/
structure OnChain [NeZero B] (args : GenerateArgs V K) (promptLength n : Nat)
    (next : Fin V → Fin V) (p : Nat) (mark : Fin V) (k : Nat) (x : Tokens B V) : Prop where
  marked : tokenAt x p = mark
  tokens : ∀ j, j ∉ promptMaskInBlock promptLength n → x n j = next^[k] args.maskId
  unmasked : k ≠ 0 → ∀ j, x n j ≠ args.maskId

section Update

variable [LinearOrder K] [TopK K] {args : GenerateArgs V K} {promptLength n : Nat}
  {pred : Prediction B V K} {x : Tokens B V}

/-- A row with masks wherever it may be edited is not changed by predictions of the mask. -/
theorem rowUpdate_of_predicted_mask (htoken : ∀ j, pred.token j = args.maskId)
    (hthreshold : args.threshold = ⊥)
    (hmasked : ∀ j, j ∉ promptMaskInBlock promptLength n → x n j = args.maskId) :
    rowUpdate args promptLength n pred x = x := by
  have hblock : rowUpdate args promptLength n pred x n = x n := by
    funext j
    rw [rowUpdate_of_bot hthreshold, htoken]
    split_ifs with hchanged
    · rcases hchanged with hmask | hedit
      · exact hmask.symm
      · obtain ⟨hne, hprompt, -⟩ := mem_editingTransferIndex.mp hedit
        exact absurd (hmasked j hprompt) hne
    · rfl
  funext m
  by_cases hm : m = n
  · rw [hm, hblock]
  · exact rowUpdate_of_ne pred x hm

variable [NeZero B]

theorem tokenAt_rowUpdate_of_prompt (hthreshold : args.threshold = ⊥) {p : Nat}
    (hp : p < promptLength) (hmark : tokenAt x p ≠ args.maskId) :
    tokenAt (rowUpdate args promptLength n pred x) p = tokenAt x p := by
  by_cases hblock : p / B = n
  · subst hblock
    have hprompt := (ofNat_mem_promptMaskInBlock (B := B)).mpr hp
    rw [tokenAt, rowUpdate_of_bot hthreshold, if_neg]
    · rfl
    · rintro (hmask | hedit)
      · exact hmark hmask
      · exact (mem_editingTransferIndex.mp hedit).2.1 hprompt
  · rw [tokenAt, rowUpdate_of_ne _ _ hblock, tokenAt]

theorem OnChain.update {next : Fin V → Fin V} {p k : Nat} {mark : Fin V}
    (onChain : OnChain args promptLength n next p mark k x) (hnext : ∀ v, next v ≠ args.maskId)
    (hthreshold : args.threshold = ⊥) (hp : p < promptLength) (hmark : mark ≠ args.maskId)
    (hconf : ∀ j, args.editingThreshold < (((pred.prob j : K) : WithTop K) : Conf K))
    (htoken : ∀ j, pred.token j = next (x n j)) :
    OnChain args promptLength n next p mark (k + 1)
      (rowUpdate args promptLength n pred x) where
  marked := by
    rw [tokenAt_rowUpdate_of_prompt hthreshold hp (onChain.marked.symm ▸ hmark)]
    exact onChain.marked
  tokens j hj := by
    rw [rowUpdate_of_confident hthreshold hconf, if_neg (fun hkept => hj hkept.2), htoken,
      onChain.tokens j hj, Function.iterate_succ_apply']
  unmasked _ j := by
    rw [rowUpdate_of_confident hthreshold hconf]
    split_ifs with hkept
    · exact hkept.1
    · rw [htoken]
      exact hnext _

end Update

variable [Field K] [LinearOrder K] [ExpOps K] [NeZero B] [NeZero V]

/-- Sends a row with the mark one step along the chain, and predicts the mask id for any
other row. -/
def chainForward (sure : Fin V → Fin V → K) (next : Fin V → Fin V) (maskId mark : Fin V)
    (p numBlock : Nat) (w : Fin (numBlock + 1) → Block B V) : Logits B V K :=
  fun j => sure (if markAt p numBlock w = mark then next (w (Fin.last numBlock) j) else maskId)

structure ChainSetting (B : Nat) (args : GenerateArgs V K) (promptLength n : Nat)
    (sure : Fin V → Fin V → K) (next : Fin V → Fin V) (p : Nat) (mark : Fin V) : Prop where
  sure_argmax : ∀ token, argmax (sure token) = token
  sure_conf : ∀ token, args.editingThreshold <
    (((softmax (sure token) token : K) : WithTop K) : Conf K)
  next_ne : ∀ v, next v ≠ args.maskId
  mark_ne : mark ≠ args.maskId
  threshold : args.threshold = ⊥
  repetitionPenalty : args.repetitionPenalty = 1
  prompt : p < promptLength
  block : p / B ≤ n

variable {args : GenerateArgs V K} {promptLength n p : Nat} {mark : Fin V}
  {sure : Fin V → Fin V → K} {next : Fin V → Fin V}

theorem ChainSetting.token (setting : ChainSetting B args promptLength n sure next p mark)
    (x : Tokens B V) (j : Fin B) :
    (rowPrediction args n (chainForward sure next args.maskId mark p n (window x n)) x).token j =
      if tokenAt x p = mark then next (x n j) else args.maskId := by
  rw [rowPrediction_of_one setting.repetitionPenalty]
  simp only [predict, chainForward, markAt_window setting.block, window, Fin.val_last,
    setting.sure_argmax]

theorem ChainSetting.conf (setting : ChainSetting B args promptLength n sure next p mark)
    (x : Tokens B V) (j : Fin B) :
    args.editingThreshold < ((((rowPrediction args n
      (chainForward sure next args.maskId mark p n (window x n)) x).prob j : K) :
        WithTop K) : Conf K) := by
  rw [rowPrediction_of_one setting.repetitionPenalty]
  simp only [predict, chainForward, setting.sure_argmax]
  exact setting.sure_conf _

variable [TopK K]

theorem ChainSetting.rowUpdate_marked
    (setting : ChainSetting B args promptLength n sure next p mark) {k : Nat} {x : Tokens B V}
    (onChain : OnChain args promptLength n next p mark k x) :
    OnChain args promptLength n next p mark (k + 1) (rowUpdate args promptLength n
      (rowPrediction args n (chainForward sure next args.maskId mark p n (window x n)) x) x) :=
  onChain.update setting.next_ne setting.threshold setting.prompt setting.mark_ne
    (setting.conf x) (fun j => (setting.token x j).trans (if_pos onChain.marked))

theorem ChainSetting.rowUpdate_plain
    (setting : ChainSetting B args promptLength n sure next p mark) {x : Tokens B V}
    (hplain : tokenAt x p ≠ mark)
    (hmasked : ∀ j, j ∉ promptMaskInBlock promptLength n → x n j = args.maskId) :
    rowUpdate args promptLength n
      (rowPrediction args n (chainForward sure next args.maskId mark p n (window x n)) x) x = x :=
  rowUpdate_of_predicted_mask (fun j => (setting.token x j).trans (if_neg hplain))
    setting.threshold hmasked

/-- In the batch a row without the mark stays masked, and the marked one takes every step. -/
theorem ChainSetting.denoiseBlock_batch
    (setting : ChainSetting B args promptLength n sure next p mark)
    (hpost : 0 ≤ args.maxPostSteps) {x : Fin N → Tokens B V} {marked plain : Fin N}
    (onChain : OnChain args promptLength n next p mark 0 (x marked))
    (hplain : tokenAt (x plain) p ≠ mark)
    (hmasked : ∀ j, j ∉ promptMaskInBlock promptLength n → x plain n j = args.maskId)
    {j : Fin B} (hj : j ∉ promptMaskInBlock promptLength n) :
    OnChain args promptLength n next p mark args.effectiveSteps
      ((denoiseBlock args promptLength n
        (fun w r => chainForward sure next args.maskId mark p n (w r)) x).x marked) := by
  have hstep : ∀ k (s : DenoiseState N B V), k < args.effectiveSteps →
      (s.stopped = false ∧ s.postSteps = 0 ∧ s.x plain = x plain ∧
        OnChain args promptLength n next p mark k (s.x marked)) →
      s.stopped = false ∧
        let s' := denoiseStep args promptLength n
          (fun w r => chainForward sure next args.maskId mark p n (w r)) s
        s'.stopped = false ∧ s'.postSteps = 0 ∧ s'.x plain = x plain ∧
          OnChain args promptLength n next p mark (k + 1) (s'.x marked) := by
    rintro k s - ⟨hrunning, hzero, hkept, hchain⟩
    have hany : s.anyMask args n := ⟨plain, j, mem_maskIndex.mpr (hkept ▸ hmasked j hj)⟩
    have hwithin : ¬ args.maxPostSteps < s.nextPostSteps args n := by
      rw [DenoiseState.nextPostSteps_of_mask hany, hzero]
      exact not_lt.mpr hpost
    rw [denoiseStep_of_within hwithin (fun _ => rfl)]
    refine ⟨hrunning, decide_eq_false (fun hstop => hstop.1 hany),
      (DenoiseState.nextPostSteps_of_mask hany).trans hzero, ?_, setting.rowUpdate_marked hchain⟩
    rw [← hkept] at hplain hmasked
    exact (setting.rowUpdate_plain hplain hmasked).trans hkept
  exact (boundedLoop_exhausts _ hstep (Nat.zero_add _)
    (s := ⟨x, 0, false⟩) ⟨rfl, rfl, rfl, onChain⟩).2.2.2

/-- A row alone with the chain model, after `k` steps. -/
structure AloneOnChain (args : GenerateArgs V K) (promptLength n : Nat)
    (next : Fin V → Fin V) (p : Nat) (mark : Fin V) (m k : Nat)
    (s : DenoiseState 1 B V) : Prop where
  running : s.stopped = false →
    OnChain args promptLength n next p mark k (s.x 0) ∧ s.postSteps = k - 1 ∧ k ≤ m + 1
  stopped : s.stopped = true →
    ∀ j, j ∉ promptMaskInBlock promptLength n → s.x 0 n j = next^[m + 1] args.maskId

variable {m k : Nat} {s : DenoiseState 1 B V}

omit [Field K] [LinearOrder K] [ExpOps K] [NeZero V] [TopK K] in
theorem OnChain.nextPostSteps (onChain : OnChain args promptLength n next p mark k (s.x 0))
    (hcount : s.postSteps = k - 1) {j : Fin B} (hj : j ∉ promptMaskInBlock promptLength n) :
    s.nextPostSteps args n = k := by
  rcases Nat.eq_zero_or_pos k with rfl | hpos
  · have hany : s.anyMask args n := ⟨0, j, mem_maskIndex.mpr (onChain.tokens j hj)⟩
    rw [DenoiseState.nextPostSteps_of_mask hany, hcount]
  · have hnone : ¬ s.anyMask args n := by
      rintro ⟨r, i, hi⟩
      rw [Fin.fin_one_eq_zero r] at hi
      exact onChain.unmasked hpos.ne' i (mem_maskIndex.mp hi)
    rw [DenoiseState.nextPostSteps_of_no_mask hnone, hcount]
    omega

theorem AloneOnChain.step (alone : AloneOnChain args promptLength n next p mark m k s)
    (setting : ChainSetting B args promptLength n sure next p mark)
    (hmoves : ∀ i j, i < m + 1 → i < j → next^[i] args.maskId ≠ next^[j] args.maskId)
    (hpost : args.maxPostSteps = m) {j : Fin B} (hj : j ∉ promptMaskInBlock promptLength n)
    (hrunning : s.stopped = false) :
    AloneOnChain args promptLength n next p mark m (k + 1) (denoiseStep args promptLength n
      (fun w r => chainForward sure next args.maskId mark p n (w r)) s) := by
  obtain ⟨hchain, hcount, hle⟩ := alone.running hrunning
  have hcounted := hchain.nextPostSteps hcount hj
  by_cases hexhausted : args.maxPostSteps < s.nextPostSteps args n
  · rw [denoiseStep_of_exhausted hexhausted]
    rw [hcounted, hpost] at hexhausted
    have hk : k = m + 1 := by omega
    exact ⟨fun hfalse => Bool.noConfusion hfalse, fun _ => hk ▸ hchain.tokens⟩
  · rw [denoiseStep_of_within hexhausted (fun _ => rfl), hcounted]
    rw [hcounted, hpost] at hexhausted
    refine ⟨fun _ => ⟨setting.rowUpdate_marked hchain, rfl, by omega⟩, fun hstop => ?_⟩
    -- the step after the masks are gone still changes the token at `j`
    obtain ⟨hnone, hedits⟩ := of_decide_eq_true hstop
    have hold := hchain.tokens j hj
    have hedit : j ∈ editingTransferIndex args promptLength n (rowPrediction args n
        (chainForward sure next args.maskId mark p n (window (s.x 0) n)) (s.x 0)) (s.x 0 n) := by
      refine mem_editingTransferIndex.mpr ⟨fun hmask => hnone ⟨0, j, mem_maskIndex.mpr hmask⟩,
        hj, setting.conf _ j, ?_⟩
      rw [setting.token, if_pos hchain.marked, hold, ← Function.iterate_succ_apply' next]
      exact (hmoves k (k + 1) (by omega) k.lt_succ_self).symm
    exact absurd (hedits 0) (Finset.ne_empty_of_mem hedit)

/-- Alone the marked row is stopped after the post-edit steps. -/
theorem ChainSetting.denoiseBlock_alone
    (setting : ChainSetting B args promptLength n sure next p mark)
    (hmoves : ∀ i j, i < m + 1 → i < j → next^[i] args.maskId ≠ next^[j] args.maskId)
    (hpost : args.maxPostSteps = m) (hsteps : m + 1 < args.effectiveSteps)
    {x : Fin 1 → Tokens B V} (onChain : OnChain args promptLength n next p mark 0 (x 0))
    {j : Fin B} (hj : j ∉ promptMaskInBlock promptLength n) :
    (denoiseBlock args promptLength n
      (fun w r => chainForward sure next args.maskId mark p n (w r)) x).x 0 n j =
      next^[m + 1] args.maskId := by
  obtain ⟨k, hend, hlast⟩ := boundedLoop_counted
    (AloneOnChain args promptLength n next p mark m)
    (fun k s alone hrunning => alone.step setting hmoves hpost hj hrunning)
    args.effectiveSteps (k := 0) (s := ⟨x, 0, false⟩)
    ⟨fun _ => ⟨onChain, rfl, Nat.zero_le _⟩, fun hfalse => Bool.noConfusion hfalse⟩
  rcases hlast with hstopped | hall
  · exact hend.stopped hstopped j hj
  · cases hstopped : (denoiseBlock args promptLength n
      (fun w r => chainForward sure next args.maskId mark p n (w r)) x).stopped with
    | true => exact hend.stopped hstopped j hj
    | false =>
        have hle := (hend.running hstopped).2.2
        omega

end Chain

/-! A model with one prediction for the whole answer of a row fills a block and leaves it. -/

section Fill

/-- The answer's part of block `n` is filled with one token. -/
def filled (promptLength n : Nat) (token : Fin V) (x : Tokens B V) : Tokens B V :=
  Function.update x n (fun j => if j ∈ promptMaskInBlock promptLength n then x n j else token)

variable {promptLength n : Nat} {token : Fin V}

theorem filled_of_mem {x : Tokens B V} {j : Fin B} (hj : j ∈ promptMaskInBlock promptLength n) :
    filled promptLength n token x n j = x n j := by
  rw [filled, Function.update_self, if_pos hj]

theorem filled_of_notMem {x : Tokens B V} {j : Fin B}
    (hj : j ∉ promptMaskInBlock promptLength n) :
    filled promptLength n token x n j = token := by
  rw [filled, Function.update_self, if_neg hj]

theorem filled_filled (x : Tokens B V) :
    filled promptLength n token (filled promptLength n token x) =
      filled promptLength n token x := by
  conv_lhs => rw [filled]
  refine Function.update_eq_iff.mpr ⟨?_, fun _ _ => rfl⟩
  funext j
  split_ifs with hj
  · rfl
  · exact (filled_of_notMem hj).symm

theorem tokenAt_filled_of_lt [NeZero B] {p : Nat} (hp : p < promptLength) (x : Tokens B V) :
    tokenAt (filled promptLength n token x) p = tokenAt x p := by
  by_cases hblock : p / B = n
  · subst hblock
    exact filled_of_mem (ofNat_mem_promptMaskInBlock.mpr hp)
  · rw [tokenAt, filled, Function.update_of_ne hblock, tokenAt]

theorem tokenAt_filled_of_le [NeZero B] {q : Nat} (hq : promptLength ≤ q) (x : Tokens B V) :
    tokenAt (filled promptLength n token x) q = if q / B = n then token else tokenAt x q := by
  split_ifs with hblock
  · subst hblock
    exact filled_of_notMem (fun hmem => not_lt.mpr hq (ofNat_mem_promptMaskInBlock.mp hmem))
  · rw [tokenAt, filled, Function.update_of_ne hblock, tokenAt]

variable [LinearOrder K] [TopK K] {args : GenerateArgs V K}

theorem rowUpdate_eq_filled (hthreshold : args.threshold = ⊥) {pred : Prediction B V K}
    (htoken : ∀ j, pred.token j =
      if j ∈ promptMaskInBlock promptLength n then args.maskId else token)
    {x : Tokens B V}
    (hopen : ∀ j, j ∉ promptMaskInBlock promptLength n → x n j = args.maskId ∨ x n j = token) :
    rowUpdate args promptLength n pred x = filled promptLength n token x := by
  have hblock : ∀ j, rowUpdate args promptLength n pred x n j =
      filled promptLength n token x n j := by
    intro j
    rw [rowUpdate_of_bot hthreshold, htoken]
    by_cases hj : j ∈ promptMaskInBlock promptLength n
    · rw [filled_of_mem hj, if_pos hj]
      split_ifs with hchanged
      · rcases hchanged with hmask | hedit
        · exact hmask.symm
        · exact absurd hj (mem_editingTransferIndex.mp hedit).2.1
      · rfl
    · rw [filled_of_notMem hj, if_neg hj]
      split_ifs with hkept
      · rfl
      · exact (hopen j hj).resolve_left (fun hmask => hkept (Or.inl hmask))
  funext m
  by_cases hm : m = n
  · subst hm
    exact funext hblock
  · rw [rowUpdate_of_ne pred x hm, filled, Function.update_of_ne hm]

variable [Field K] [ExpOps K] [NeZero B] [NeZero V]

/-- One step fills the block, and no further one changes it. -/
theorem denoiseBlock_eq_filled (hthreshold : args.threshold = ⊥)
    (hpost : 0 ≤ args.maxPostSteps) (hsteps : 0 < args.effectiveSteps)
    {x : Fin N → Tokens B V} {read : ReadWindow N B V n K} (answer : Fin N → Fin V)
    (hread : ∀ (y : Fin N → Tokens B V) r,
      (y r = x r ∨ y r = filled promptLength n (answer r) (x r)) → ∀ j,
      (rowPrediction args n (read (fun r => window (y r) n) r) (y r)).token j =
        if j ∈ promptMaskInBlock promptLength n then args.maskId else answer r)
    (hmasked : ∀ r j, j ∉ promptMaskInBlock promptLength n → x r n j = args.maskId)
    {j : Fin B} (hj : j ∉ promptMaskInBlock promptLength n) (r : Fin N) :
    (denoiseBlock args promptLength n read x).x r = filled promptLength n (answer r) (x r) := by
  have hany : DenoiseState.anyMask args n (⟨x, 0, false⟩ : DenoiseState N B V) :=
    ⟨r, j, mem_maskIndex.mpr (hmasked r j hj)⟩
  have hwithin : ¬ args.maxPostSteps <
      (⟨x, 0, false⟩ : DenoiseState N B V).nextPostSteps args n := by
    rw [DenoiseState.nextPostSteps_of_mask hany]
    exact not_lt.mpr hpost
  obtain ⟨steps, hcount⟩ := Nat.exists_eq_succ_of_ne_zero hsteps.ne'
  rw [denoiseBlock, hcount, boundedLoop_of_not_done rfl,
    denoiseStep_of_within hwithin (fun _ => rfl)]
  refine congrFun (boundedLoop_invariant (fun s : DenoiseState N B V =>
    s.x = fun r => filled promptLength n (answer r) (x r)) ?_ steps ?_) r
  · intro s hs _
    by_cases hexhausted : args.maxPostSteps < s.nextPostSteps args n
    · rwa [denoiseStep_of_exhausted hexhausted]
    · rw [denoiseStep_of_within hexhausted (fun _ => rfl)]
      funext i
      have hrow := congrFun hs i
      rw [← filled_filled (x i), ← hrow]
      refine rowUpdate_eq_filled hthreshold (hread s.x i (Or.inr hrow)) (fun j hj => Or.inr ?_)
      rw [hrow, filled_of_notMem hj]
  · funext i
    exact rowUpdate_eq_filled hthreshold (hread x i (Or.inl rfl))
      (fun j hj => Or.inl (hmasked i j hj))

end Fill

end LladaHybrid.Generate
