import LladaHybrid.Generate.Unmasking
import LladaHybrid.Generate.BlockDecoders

namespace LladaHybrid.Generate

open LladaHybrid.Library LladaHybrid.Decode

/-! `steps` is capped by `gen_length`, while a block may have more masks than the answer
has tokens. The cap is harmless exactly if the capped steps cover every block. -/

variable {σ : Type*} {P B V : Nat} {K : Type*}

/-! A block whose steps do not cover its masks. -/

section Transfer

variable [LinearOrder K] [TopK K]

theorem notMem_topk_confidence {masks : Finset (Fin B)} {prob : Fin B → K} {k : Nat}
    (hk : k < masks.card) {j : Fin B} (hj : j ∈ masks)
    (hleast : ∀ i ∈ masks, i ≠ j → prob j < prob i) : j ∉ topk (confidence masks prob) k := by
  intro htop
  have hcard : (topk (confidence masks prob) k).card = k :=
    TopK.card_topk _ (hk.le.trans (card_finset_fin_le masks))
  obtain ⟨i, hi, hout⟩ := Finset.exists_mem_notMem_of_card_lt_card (hcard.trans_lt hk)
  have hle := TopK.le_of_mem_topk htop hout
  rw [confidence, confidence, if_pos hi, if_pos hj] at hle
  have hne : i ≠ j := by
    rintro rfl
    exact hout htop
  exact absurd (hleast i hi hne) (not_lt.mpr (by exact_mod_cast hle))

theorem maskTransferIndex_of_top {args : GenerateArgs V K} {active : Finset (Fin B)}
    (hthreshold : args.threshold = ⊤) (hnum : 1 ≤ args.numToTransfer)
    (hmany : args.numToTransfer.toNat < active.card) (prob : Fin B → K) :
    maskTransferIndex args active prob =
      topk (confidence active prob) args.numToTransfer.toNat := by
  have hempty : aboveThreshold (confidence active prob) args.threshold = ∅ := by
    ext j
    simp [hthreshold]
  have hactive : active ≠ ∅ := by
    rintro rfl
    exact absurd hmany (Nat.not_lt_zero _)
  have hk : (min args.numToTransfer active.card).toNat = args.numToTransfer.toNat := by omega
  dsimp only [maskTransferIndex]
  rw [if_neg hactive, hempty, Finset.empty_inter, Finset.card_empty, if_neg (by omega), hk]

theorem mem_maskIndex_rowUpdate {args : GenerateArgs V K} (promptLength : Nat) {n : Nat}
    {pred : Prediction B V K} {x : Tokens B V} {target : Fin B}
    (hthreshold : args.threshold = ⊤) (hnum : 1 ≤ args.numToTransfer)
    (hmany : args.numToTransfer.toNat < (maskIndex args.maskId (x n)).card)
    (htoken : ∀ j, pred.token j ≠ args.maskId)
    (hleast : ∀ j, j ≠ target → pred.prob target < pred.prob j)
    (htarget : target ∈ maskIndex args.maskId (x n)) :
    target ∈ maskIndex args.maskId (rowUpdate args promptLength n pred x n) ∧
      (maskIndex args.maskId (rowUpdate args promptLength n pred x n)).card =
        (maskIndex args.maskId (x n)).card - args.numToTransfer.toNat := by
  rw [maskIndex_rowUpdate htoken, maskTransferIndex_of_top hthreshold hnum hmany]
  constructor
  · exact Finset.mem_sdiff.mpr
      ⟨htarget, notMem_topk_confidence hmany htarget (fun j _ => hleast j)⟩
  · rw [Finset.card_sdiff_of_subset (topk_confidence_subset _ hmany.le),
      TopK.card_topk _ (hmany.le.trans (card_finset_fin_le _))]

end Transfer

/-- The target is masked, and so are at least `left` positions of the block. -/
structure Reluctant (args : GenerateArgs V K) (n : Nat) (target : Fin B) (left : Nat)
    (s : DenoiseState 1 B V) : Prop where
  masked : target ∈ maskIndex args.maskId (s.x 0 n)
  le_card : left ≤ (maskIndex args.maskId (s.x 0 n)).card
  postSteps : s.postSteps = 0
  running : s.stopped = false

section Denoise

variable [Field K] [LinearOrder K] [ExpOps K] [TopK K] [NeZero B] [NeZero V]
  {args : GenerateArgs V K} {promptLength n left : Nat} {target : Fin B}
  {read : ReadWindow 1 B V n K}

/-- Of all positions the model is least confident about the target. -/
def LeastConfident (args : GenerateArgs V K) (n : Nat) (read : ReadWindow 1 B V n K)
    (target : Fin B) : Prop :=
  ∀ (x : Fin 1 → Tokens B V) (j : Fin B), j ≠ target →
    (rowPrediction args n (read (fun r => window (x r) n) onlyRow) (x onlyRow)).prob target <
      (rowPrediction args n (read (fun r => window (x r) n) onlyRow) (x onlyRow)).prob j

theorem Reluctant.step {s : DenoiseState 1 B V} (reluctant : Reluctant args n target left s)
    (hthreshold : args.threshold = ⊤) (hnum : 1 ≤ args.numToTransfer)
    (hpost : 0 ≤ args.maxPostSteps) (havoids : AvoidsMask args n read)
    (hleast : LeastConfident args n read target) (hleft : args.numToTransfer.toNat < left) :
    Reluctant args n target (left - args.numToTransfer.toNat)
      (denoiseStep args promptLength n read s) := by
  have hany : s.anyMask args n := ⟨0, target, reluctant.masked⟩
  have hzero : s.nextPostSteps args n = 0 := by
    rw [DenoiseState.nextPostSteps_of_mask hany, reluctant.postSteps]
  have hwithin : ¬ args.maxPostSteps < s.nextPostSteps args n := by
    rw [hzero]
    exact not_lt.mpr hpost
  obtain ⟨hmasked, hcard⟩ := mem_maskIndex_rowUpdate promptLength hthreshold hnum
    (hleft.trans_le reluctant.le_card) (havoids s.x) (hleast s.x) reluctant.masked
  rw [denoiseStep_of_within hwithin (fun _ => rfl)]
  refine ⟨hmasked, ?_, hzero, decide_eq_false (fun hstop => hstop.1 hany)⟩
  exact (Nat.sub_le_sub_right reluctant.le_card _).trans hcard.ge

/-- The steps run out before the target is reached. -/
theorem mem_maskIndex_denoiseBlock {x : Fin 1 → Tokens B V}
    (hthreshold : args.threshold = ⊤) (hnum : 1 ≤ args.numToTransfer)
    (hpost : 0 ≤ args.maxPostSteps) (havoids : AvoidsMask args n read)
    (hleast : LeastConfident args n read target)
    (htarget : target ∈ maskIndex args.maskId (x 0 n))
    (hshort : args.effectiveSteps * args.numToTransfer.toNat <
      (maskIndex args.maskId (x 0 n)).card) :
    target ∈ maskIndex args.maskId ((denoiseBlock args promptLength n read x).x 0 n) := by
  have hinit : Reluctant args n target
      ((maskIndex args.maskId (x 0 n)).card - 0 * args.numToTransfer.toNat) ⟨x, 0, false⟩ :=
    ⟨htarget, Nat.sub_le _ _, rfl, rfl⟩
  have hstep : ∀ steps (s : DenoiseState 1 B V), steps < args.effectiveSteps →
      Reluctant args n target
        ((maskIndex args.maskId (x 0 n)).card - steps * args.numToTransfer.toNat) s →
      s.stopped = false ∧ Reluctant args n target
        ((maskIndex args.maskId (x 0 n)).card - (steps + 1) * args.numToTransfer.toNat)
        (denoiseStep args promptLength n read s) := by
    intro steps s hsteps reluctant
    have hspent := Nat.mul_le_mul_right args.numToTransfer.toNat (Nat.succ_le_of_lt hsteps)
    rw [Nat.succ_mul] at hspent
    refine ⟨reluctant.running, ?_⟩
    rw [Nat.succ_mul, ← Nat.sub_sub]
    exact reluctant.step hthreshold hnum hpost havoids hleast (by omega)
  exact (boundedLoop_exhausts _ hstep (Nat.zero_add _) hinit).masked

end Denoise

/-! A model that is least confident about one position. -/

def peakedRow [Zero K] (peak : Fin V) (height : K) (v : Fin V) : K :=
  if v = peak then height else 0

@[simp] theorem peakedRow_self [Zero K] (peak : Fin V) (height : K) :
    peakedRow peak height peak = height :=
  if_pos rfl

section Peaked

variable [Field K] [LinearOrder K]

theorem argmax_peakedRow [NeZero V] (peak : Fin V) {height : K} (hheight : 0 < height) :
    argmax (peakedRow peak height) = peak := by
  apply argmax_eq_of_forall_lt
  intro v hv
  rw [peakedRow_self, peakedRow, if_neg hv]
  exact hheight

theorem softmax_peakedRow_lt [IsStrictOrderedRing K] [ExpOps K] [StrictExp K] (hV : 1 < V)
    (peak : Fin V) {low high : K}
    (hlt : low < high) :
    softmax (peakedRow peak low) peak < softmax (peakedRow peak high) peak := by
  have hsum : ∀ height : K, ∑ v, exp (peakedRow peak height v) =
      exp height + ∑ _v ∈ Finset.univ.erase peak, exp (0 : K) := by
    intro height
    rw [← Finset.add_sum_erase _ _ (Finset.mem_univ peak), peakedRow_self]
    congr 1
    refine Finset.sum_congr rfl ?_
    intro v hv
    rw [peakedRow, if_neg (Finset.ne_of_mem_erase hv)]
  have hrest : 0 < ∑ _v ∈ Finset.univ.erase peak, exp (0 : K) := by
    refine Finset.sum_pos (fun _ _ => LawfulExp.exp_pos 0) ?_
    rw [← Finset.card_pos, Finset.card_erase_of_mem (Finset.mem_univ peak), Finset.card_univ,
      Fintype.card_fin]
    omega
  have hlow := LawfulExp.exp_pos low
  have hhigh := LawfulExp.exp_pos high
  rw [softmax, softmax, hsum, hsum, peakedRow_self, peakedRow_self,
    div_lt_div_iff₀ (add_pos hlow hrest) (add_pos hhigh hrest), mul_add, mul_add,
    mul_comm (exp high) (exp low)]
  exact add_lt_add_right (mul_lt_mul_of_pos_right (StrictExp.exp_lt_exp hlt) hrest) _

end Peaked

def reluctantLogits [Zero K] [One K] [Add K] (block : Nat) (target : Fin B) (peak : Fin V)
    (n : Nat) : Logits B V K :=
  fun j => peakedRow peak (if n = block ∧ j = target then 1 else 1 + 1)

/-- The model that leaves one position of one block for last. -/
def reluctantModel [Zero K] [One K] [Add K] (block : Nat) (target : Fin B) (peak : Fin V) :
    LanguageModel (fun _ => Unit) B V K where
  forward n _ _ := reluctantLogits block target peak n
  initPrefixCache _ := ()
  forwardRead _ n _ _ := reluctantLogits block target peak n
  forwardCommit _ _ _ := ()

section Reluctant

variable [Field K] [LinearOrder K] [IsStrictOrderedRing K] [ExpOps K] [NeZero V]
  {block : Nat} {target : Fin B} {peak : Fin V}

theorem predict_reluctantLogits (n : Nat) (j : Fin B) :
    (predict (reluctantLogits (K := K) block target peak n)).token j = peak := by
  apply argmax_peakedRow
  split_ifs
  · exact one_pos
  · exact add_pos one_pos one_pos

theorem predict_reluctantLogits_prob_lt [StrictExp K] (hV : 1 < V) {j : Fin B}
    (hj : j ≠ target) :
    (predict (reluctantLogits (K := K) block target peak block)).prob target <
      (predict (reluctantLogits (K := K) block target peak block)).prob j := by
  have hprob : ∀ j, (predict (reluctantLogits (K := K) block target peak block)).prob j =
      softmax (reluctantLogits block target peak block j) peak := by
    intro j
    exact congrArg (softmax (reluctantLogits (K := K) block target peak block j))
      (predict_reluctantLogits block j)
  rw [hprob, hprob, reluctantLogits, reluctantLogits, if_pos ⟨rfl, rfl⟩,
    if_neg (fun heq => hj heq.2)]
  exact softmax_peakedRow_lt hV peak (lt_add_of_pos_left 1 one_pos)

end Reluctant

/-! The generation. -/

section Position

variable [NeZero B] {args : GenerateArgs V K}

/-- The first position of the answer in a block. -/
def firstPosition (P B n : Nat) : Nat := max P (n * B)

omit [NeZero B] in
theorem le_firstPosition (n : Nat) : P ≤ firstPosition P B n := le_max_left P (n * B)

theorem firstPosition_div {n : Nat} (hn : P / B ≤ n) : firstPosition P B n / B = n := by
  have hpos := NeZero.pos B
  rcases hn.lt_or_eq with hlater | hfirst
  · have hlt : P < n * B := (Nat.div_lt_iff_lt_mul hpos).mp hlater
    rw [firstPosition, max_eq_right hlt.le, Nat.mul_div_cancel n hpos]
  · have hle : n * B ≤ P := hfirst ▸ Nat.div_mul_le_self P B
    rw [firstPosition, max_eq_left hle, hfirst]

theorem firstPosition_lt (hgen : 1 ≤ args.genLength) {n : Nat} (hn : n < numBlocks args P B) :
    firstPosition P B n < P + args.genLength := by
  have hblock := (Nat.le_div_iff_mul_le (NeZero.pos B)).mp (Nat.succ_le_of_lt hn)
  rw [Nat.succ_mul] at hblock
  rw [firstPosition, max_lt_iff]
  omega

theorem firstPosition_mem_maskIndex {prompt : Fin P → Fin V} {n : Nat} (hn : P / B ≤ n) :
    Fin.ofNat B (firstPosition P B n) ∈
      maskIndex args.maskId (initialTokens (B := B) args.maskId prompt n) := by
  have hposition : n * B + (Fin.ofNat B (firstPosition P B n) : Nat) = firstPosition P B n := by
    have hdiv := Nat.div_add_mod' (firstPosition P B n) B
    rw [firstPosition_div hn] at hdiv
    exact hdiv
  have hle := le_firstPosition (P := P) (B := B) n
  rw [mem_maskIndex, initialTokens, dif_neg (by omega)]

end Position

/-! The cap. -/

section Cap

variable {args : GenerateArgs V K} {prompt : Fin 1 → Fin P → Fin V}

theorem effectiveSteps_of_one (hmin : args.minimalTopk = 1) :
    args.effectiveSteps = min args.steps.toNat args.genLength := by
  rw [GenerateArgs.effectiveSteps, hmin, PNat.one_coe, Nat.div_one]
  omega

theorem stepsCover_effectiveSteps (hmin : args.minimalTopk = 1)
    (hsteps : (B : Int) ≤ args.steps * args.numToTransfer) (hnum : 1 ≤ args.numToTransfer)
    (hcover : StepsCover B args args.genLength prompt) :
    StepsCover B args args.effectiveSteps prompt := by
  intro n hstart hblocks
  have hblock : B ≤ args.steps.toNat * args.numToTransfer.toNat := by
    have hpos : 0 ≤ args.steps := by
      by_contra hneg
      have := mul_neg_of_neg_of_pos (not_le.mp hneg) (zero_lt_one.trans_le hnum)
      omega
    zify
    rwa [Int.toNat_of_nonneg hpos, Int.toNat_of_nonneg (zero_le_one.trans hnum)]
  rw [effectiveSteps_of_one hmin, ← Nat.mul_min_mul_right]
  exact le_min ((card_finset_fin_le _).trans hblock) (hcover n hstart hblocks)

end Cap

section Run

variable [Field K] [LinearOrder K] [ExpOps K] [TopK K] [NeZero B] [NeZero V]
  {args : GenerateArgs V K} {backend : Backend σ 1 B V K} {prompt : Fin 1 → Fin P → Fin V}

variable (args) in
theorem mem_generateWith (heos : args.eosId = none) (hgen : 1 ≤ args.genLength) {n : Nat}
    (hstart : P / B ≤ n) (hblocks : n < numBlocks args P B)
    (hkept : ∀ cache (x : Fin 1 → Tokens B V),
      x 0 n = initialTokens args.maskId (prompt 0) n →
      Fin.ofNat B (firstPosition P B n) ∈ maskIndex args.maskId
        ((denoiseBlock args P n (backend.read cache n) x).x 0 n)) :
    args.maskId ∈ generateWith args backend prompt 0 := by
  have hend : Fin.ofNat B (firstPosition P B n) ∈ maskIndex args.maskId
        ((generateTokens args backend prompt).x 0 n) ∧
      ((generateTokens args backend prompt).numBlock ≤ n →
        (generateTokens args backend prompt).x 0 n =
          initialTokens args.maskId (prompt 0) n) := by
    refine boundedLoop_invariant (fun s : GenerateState σ 1 B V =>
      Fin.ofNat B (firstPosition P B n) ∈ maskIndex args.maskId (s.x 0 n) ∧
        (s.numBlock ≤ n → s.x 0 n = initialTokens args.maskId (prompt 0) n)) ?_ _
      ⟨firstPosition_mem_maskIndex hstart, fun _ => rfl⟩
    intro s hs _
    by_cases hblock : n = s.numBlock
    · subst hblock
      exact ⟨hkept s.prefixCache s.x (hs.2 le_rfl), fun hle => absurd hle (Nat.not_succ_le_self _)⟩
    · have hsame : (generateBlock args backend P s).x 0 n = s.x 0 n :=
        denoiseBlock_of_ne _ s.x 0 hblock
      rw [hsame]
      exact ⟨hs.1, fun hle => hs.2 (Nat.le_of_succ_le hle)⟩
  have htoken : tokenAt ((generateTokens args backend prompt).x 0) (firstPosition P B n) =
      args.maskId := by
    rw [tokenAt, firstPosition_div hstart]
    exact mem_maskIndex.mp hend.1
  have htrimmed : ∀ gen, trimmed args gen = gen := by
    intro gen
    rw [trimmed, heos]
  rw [generateWith, htrimmed, ← htoken]
  refine List.mem_map_of_mem (List.mem_range'_1.mpr ?_)
  have hle := le_firstPosition (P := P) (B := B) n
  have hlt := firstPosition_lt hgen hblocks
  omega

/-- A negative `max_post_steps` ends every block before its first forward. -/
theorem denoiseBlock_of_negative {N n : Nat} {read : ReadWindow N B V n K}
    (hpost : args.maxPostSteps < 0) (x : Fin N → Tokens B V) :
    (denoiseBlock args P n read x).x = x := by
  refine boundedLoop_invariant (fun s : DenoiseState N B V => s.x = x) ?_ _ rfl
  intro s hs _
  rw [denoiseStep_of_exhausted (by omega)]
  exact hs

/-- No prediction of the model is the mask, whatever the tokens and the cache. -/
structure LanguageModel.AvoidsMask {Cache : Nat → Type*} (args : GenerateArgs V K)
    (model : LanguageModel Cache B V K) : Prop where
  uncached : (model.uncached 1).AvoidsMask args
  cached : (model.cached 1).AvoidsMask args

/-- The arguments with other thresholds, repetition penalty and EOS settings. -/
def GenerateArgs.withSettings (args : GenerateArgs V K) (threshold editingThreshold : Conf K)
    (repetitionPenalty : K) (eosEarlyStop : Bool) (eosId : Option (Fin V)) :
    GenerateArgs V K :=
  { args with threshold, editingThreshold, repetitionPenalty, eosEarlyStop, eosId }

/-- Whatever the thresholds and the other settings, a model that never predicts the mask
returns none. -/
def LeavesNoMask (B : Nat) [NeZero B] (args : GenerateArgs V K)
    (prompt : Fin 1 → Fin P → Fin V) : Prop :=
  ∀ (Cache : Nat → Type) (model : LanguageModel Cache B V K)
    (threshold editingThreshold : Conf K) (repetitionPenalty : K) (eosEarlyStop : Bool)
    (eosId : Option (Fin V)) (useKvCache : Bool),
    model.AvoidsMask (args.withSettings threshold editingThreshold repetitionPenalty
      eosEarlyStop eosId) →
    args.maskId ∉ model.generate (args.withSettings threshold editingThreshold
      repetitionPenalty eosEarlyStop eosId) useKvCache prompt onlyRow

section Reluctant

variable [IsStrictOrderedRing K] {block : Nat} {target : Fin B} {peak : Fin V}

omit [TopK K] in
theorem reluctantModel_avoidsMask (hpeak : peak ≠ args.maskId)
    (hpenalty : args.repetitionPenalty = 1) :
    (reluctantModel (K := K) block target peak).AvoidsMask args where
  uncached _ n x j := by
    rw [rowPrediction_of_one hpenalty]
    exact (predict_reluctantLogits n j).trans_ne hpeak
  cached _ n x j := by
    rw [rowPrediction_of_one hpenalty]
    exact (predict_reluctantLogits n j).trans_ne hpeak

variable (args) in
theorem mem_generate_reluctantModel [StrictExp K] (hV : 1 < V) (hpeak : peak ≠ args.maskId)
    (hpenalty : args.repetitionPenalty = 1) (hthreshold : args.threshold = ⊤)
    (heos : args.eosId = none) (hgen : 1 ≤ args.genLength) (hnum : 1 ≤ args.numToTransfer)
    (hpost : 0 ≤ args.maxPostSteps) (hstart : P / B ≤ block)
    (hblocks : block < numBlocks args P B)
    (hshort : args.effectiveSteps * args.numToTransfer.toNat <
      (maskIndex args.maskId (initialTokens (B := B) args.maskId (prompt 0) block)).card) :
    args.maskId ∈ (reluctantModel (K := K) block (Fin.ofNat B (firstPosition P B block))
      peak).generate args false prompt 0 := by
  apply mem_generateWith args heos hgen hstart hblocks
  intro cache x hx
  apply mem_maskIndex_denoiseBlock hthreshold hnum hpost
  · exact (reluctantModel_avoidsMask hpeak hpenalty).uncached cache block
  · intro x j hj
    rw [rowPrediction_of_one hpenalty]
    exact predict_reluctantLogits_prob_lt hV hj
  · rw [hx]
    exact firstPosition_mem_maskIndex hstart
  · rwa [hx]

/-- The code leaves no mask behind exactly if `max_post_steps` is not negative and
`gen_length` steps cover the masks of every block. -/
theorem leavesNoMask_iff [StrictExp K] (hV : 1 < V) (hgen : 1 ≤ args.genLength)
    (hnum : 1 ≤ args.numToTransfer) (hmin : args.minimalTopk = 1)
    (hsteps : (B : Int) ≤ args.steps * args.numToTransfer) :
    LeavesNoMask B args prompt ↔
      0 ≤ args.maxPostSteps ∧ StepsCover B args args.genLength prompt := by
  constructor
  · intro hleaves
    obtain ⟨peak, hpeak⟩ : ∃ peak, peak ≠ args.maskId := by
      have : Nontrivial (Fin V) := Fin.nontrivial_iff_two_le.mpr hV
      exact exists_ne args.maskId
    have havoids : ∀ block target, (reluctantModel (K := K) (B := B) block target
        peak).AvoidsMask (args.withSettings ⊤ ⊤ 1 false none) :=
      fun _ _ => reluctantModel_avoidsMask hpeak rfl
    have hfirst : P / B < numBlocks args P B := by
      rw [Nat.div_lt_iff_lt_mul (NeZero.pos B)]
      exact lt_of_lt_of_le (by omega) (le_numBlocks_mul args P)
    have hpost : 0 ≤ args.maxPostSteps := by
      by_contra hnegative
      refine hleaves _ _ ⊤ ⊤ 1 false none false (havoids 0 0) ?_
      apply mem_generateWith (args.withSettings ⊤ ⊤ 1 false none) rfl hgen le_rfl hfirst
      intro cache x hx
      have hsettings : (args.withSettings ⊤ ⊤ 1 false none).maxPostSteps < 0 :=
        not_le.mp hnegative
      rw [denoiseBlock_of_negative hsettings, hx]
      exact firstPosition_mem_maskIndex le_rfl
    refine ⟨hpost, ?_⟩
    intro n hstart hblocks
    by_contra hshort
    refine hleaves _ _ ⊤ ⊤ 1 false none false
      (havoids n (Fin.ofNat B (firstPosition P B n))) ?_
    apply mem_generate_reluctantModel (args.withSettings ⊤ ⊤ 1 false none) hV hpeak rfl rfl
      rfl hgen hnum hpost hstart hblocks
    refine lt_of_le_of_lt (Nat.mul_le_mul_right _ ?_) (not_le.mp hshort)
    exact (effectiveSteps_of_one hmin).trans_le (min_le_right _ _)
  · rintro ⟨hpost, hcover⟩ Cache model threshold editingThreshold repetitionPenalty
      eosEarlyStop eosId useKvCache havoids
    have heffective := stepsCover_effectiveSteps hmin hsteps hnum hcover
    cases useKvCache with
    | false => exact notMem_generateWith hpost havoids.uncached heffective
    | true => exact notMem_generateWith hpost havoids.cached heffective

end Reluctant

end Run

theorem leavesNoMask_answer_of_three :
    let args : GenerateArgs 2 ℝ :=
      { steps := 3, genLength := 3, minimalTopk := 1, threshold := ⊤,
        editingThreshold := ⊤, maxPostSteps := 0, numToTransfer := 1,
        eosEarlyStop := false, eosId := none, maskId := 1, repetitionPenalty := 1 }
    LeavesNoMask 3 args (fun _ (_ : Fin 1) => 0) := by
  intro args
  refine (leavesNoMask_iff one_lt_two (by decide) le_rfl rfl (by decide)).mpr ⟨le_rfl, ?_⟩
  intro n _ _
  exact card_finset_fin_le _

/-- An answer of one token from a block of three: one step fills the third position, and
the second one, which is returned, keeps its mask. -/
theorem generate_leaves_mask :
    let args : GenerateArgs 2 ℝ :=
      { steps := 3, genLength := 1, minimalTopk := 1, threshold := ⊤,
        editingThreshold := ⊤, maxPostSteps := 0, numToTransfer := 1,
        eosEarlyStop := false, eosId := none, maskId := 1, repetitionPenalty := 1 }
    let model : LanguageModel (fun _ => Unit) 3 2 ℝ := reluctantModel 0 1 0
    let prompt : Fin 1 → Fin 1 → Fin 2 := fun _ _ => 0
    model.AvoidsMask args ∧ 3 ≤ args.steps * args.numToTransfer ∧
      args.maskId ∈ model.generate args false prompt 0 := by
  intro args model prompt
  refine ⟨reluctantModel_avoidsMask (by decide) rfl, by decide, ?_⟩
  exact mem_generate_reluctantModel args one_lt_two (by decide) rfl rfl rfl le_rfl le_rfl le_rfl
    le_rfl (by decide) (by decide)

end LladaHybrid.Generate
