import LladaHybrid.Generate.EarlyStop

namespace LladaHybrid.Generate

open LladaHybrid.Library LladaHybrid.Decode

/-! A generation of one row whose predictions are never the mask: every step fills at least
`num_to_transfer` of the masks left, so that enough steps leave none. -/

variable {σ : Type*} {P B V : Nat} {K : Type*}

/-- At most `left` masks are left, and the block is not over before they are filled. -/
structure Unmasking (args : GenerateArgs V K) (n left : Nat) (s : DenoiseState 1 B V) :
    Prop where
  card_le : (maskIndex args.maskId (s.x 0 n)).card ≤ left
  stopped : s.stopped = true → maskIndex args.maskId (s.x 0 n) = ∅
  postSteps : (maskIndex args.maskId (s.x 0 n)).Nonempty → s.postSteps = 0

theorem Unmasking.of_empty {args : GenerateArgs V K} {n left : Nat} {s : DenoiseState 1 B V}
    (hnone : maskIndex args.maskId (s.x 0 n) = ∅) : Unmasking args n left s where
  card_le := by
    rw [hnone, Finset.card_empty]
    exact Nat.zero_le left
  stopped _ := hnone
  postSteps hmasks := by
    rw [hnone] at hmasks
    exact absurd hmasks Finset.not_nonempty_empty

section Transfer

variable [LinearOrder K] [TopK K] {args : GenerateArgs V K} {promptLength n : Nat}

theorem le_card_maskTransferIndex (args : GenerateArgs V K) {active : Finset (Fin B)}
    (hactive : active.Nonempty) (prob : Fin B → K) :
    min args.numToTransfer active.card ≤ (maskTransferIndex args active prob).card := by
  dsimp only [maskTransferIndex]
  rw [if_neg hactive.ne_empty]
  split_ifs with hhigh
  · exact (min_le_left _ _).trans hhigh
  · have hle : (min args.numToTransfer active.card).toNat ≤ active.card := by omega
    rw [TopK.card_topk _ (hle.trans (card_finset_fin_le active))]
    exact Int.self_le_toNat _

theorem maskIndex_rowUpdate {pred : Prediction B V K} (hpred : ∀ j, pred.token j ≠ args.maskId)
    (x : Tokens B V) :
    maskIndex args.maskId (rowUpdate args promptLength n pred x n) =
      maskIndex args.maskId (x n) \
        maskTransferIndex args (maskIndex args.maskId (x n)) pred.prob := by
  dsimp only [rowUpdate]
  rw [Function.update_self, maskIndex_transferTokens (x n) hpred, Finset.sdiff_union_distrib,
    Finset.inter_eq_left]
  intro j hj
  rw [Finset.mem_sdiff, mem_maskIndex] at hj ⊢
  exact ⟨hj.1, fun hedit => (mem_editingTransferIndex.mp hedit).1 hj.1⟩

theorem card_maskIndex_rowUpdate_le {pred : Prediction B V K}
    (hpred : ∀ j, pred.token j ≠ args.maskId) (x : Tokens B V) :
    (maskIndex args.maskId (rowUpdate args promptLength n pred x n)).card ≤
      (maskIndex args.maskId (x n)).card - args.numToTransfer.toNat := by
  rw [maskIndex_rowUpdate hpred]
  rcases Finset.eq_empty_or_nonempty (maskIndex args.maskId (x n)) with hnone | hmasks
  · rw [hnone, Finset.empty_sdiff, Finset.card_empty]
    exact Nat.zero_le _
  · have hfilled := le_card_maskTransferIndex args hmasks pred.prob
    rw [Finset.card_sdiff_of_subset (maskTransferIndex_subset args _ pred.prob)]
    omega

end Transfer

section Denoise

variable [Field K] [LinearOrder K] [ExpOps K] [TopK K] [NeZero B] [NeZero V]
  {args : GenerateArgs V K} {promptLength n : Nat} {read : ReadWindow 1 B V n K}

def AvoidsMask (args : GenerateArgs V K) (n : Nat) (read : ReadWindow 1 B V n K) : Prop :=
  ∀ (x : Fin 1 → Tokens B V) (j : Fin B),
    (rowPrediction args n (read (fun r => window (x r) n) onlyRow) (x onlyRow)).token j ≠
      args.maskId

theorem Unmasking.step {left : Nat} {s : DenoiseState 1 B V} (unmasking : Unmasking args n left s)
    (hpost : 0 ≤ args.maxPostSteps) (havoids : AvoidsMask args n read) :
    Unmasking args n (left - args.numToTransfer.toNat)
      (denoiseStep args promptLength n read s) := by
  rcases Finset.eq_empty_or_nonempty (maskIndex args.maskId (s.x 0 n)) with hnone | hmasks
  · apply Unmasking.of_empty
    by_cases hexhausted : args.maxPostSteps < s.nextPostSteps args n
    · rw [denoiseStep_of_exhausted hexhausted]
      exact hnone
    · rw [denoiseStep_of_within hexhausted (fun _ => rfl), maskIndex_rowUpdate (havoids s.x),
        hnone, Finset.empty_sdiff]
  · have hany : s.anyMask args n := ⟨0, hmasks⟩
    have hzero : s.nextPostSteps args n = 0 := by
      rw [DenoiseState.nextPostSteps_of_mask hany, unmasking.postSteps hmasks]
    have hwithin : ¬ args.maxPostSteps < s.nextPostSteps args n := by
      rw [hzero]
      exact not_lt.mpr hpost
    rw [denoiseStep_of_within hwithin (fun _ => rfl)]
    refine ⟨?_, ?_, fun _ => hzero⟩
    · exact (card_maskIndex_rowUpdate_le (havoids s.x) (s.x 0)).trans
        (Nat.sub_le_sub_right unmasking.card_le _)
    · intro hstopped
      exact absurd hany (of_decide_eq_true hstopped).1

theorem maskIndex_denoiseBlock {x : Fin 1 → Tokens B V} (hpost : 0 ≤ args.maxPostSteps)
    (havoids : AvoidsMask args n read)
    (hbudget : (maskIndex args.maskId (x 0 n)).card ≤
      args.effectiveSteps * args.numToTransfer.toNat) :
    maskIndex args.maskId ((denoiseBlock args promptLength n read x).x 0 n) = ∅ := by
  have hinit : Unmasking args n
      ((maskIndex args.maskId (x 0 n)).card - 0 * args.numToTransfer.toNat) ⟨x, 0, false⟩ := by
    rw [Nat.zero_mul, Nat.sub_zero]
    exact ⟨le_rfl, fun hfalse => Bool.noConfusion hfalse, fun _ => rfl⟩
  have hstep : ∀ steps (s : DenoiseState 1 B V),
      Unmasking args n ((maskIndex args.maskId (x 0 n)).card - steps * args.numToTransfer.toNat) s →
      s.stopped = false → Unmasking args n
        ((maskIndex args.maskId (x 0 n)).card - (steps + 1) * args.numToTransfer.toNat)
        (denoiseStep args promptLength n read s) := by
    intro steps s unmasking _
    rw [Nat.succ_mul, ← Nat.sub_sub]
    exact unmasking.step hpost havoids
  obtain ⟨steps, unmasking, hend⟩ := boundedLoop_counted _ hstep args.effectiveSteps hinit
  rcases hend with hstopped | hsteps
  · exact unmasking.stopped hstopped
  · have hleft := unmasking.card_le
    rw [hsteps, Nat.zero_add, Nat.sub_eq_zero_of_le hbudget] at hleft
    exact Finset.card_eq_zero.mp (Nat.le_zero.mp hleft)

end Denoise

/-! The returned tokens. -/

theorem mem_of_mem_trimmed {args : GenerateArgs V K} {gen : List (Fin V)} {token : Fin V}
    (hmem : token ∈ trimmed args gen) : token ∈ gen := by
  dsimp only [trimmed] at hmem
  split at hmem
  · exact hmem
  · split_ifs at hmem with heos hcut
    · rcases List.mem_append.mp hmem with htake | hfilled
      · exact List.mem_of_mem_take htake
      · rw [(List.mem_replicate.mp hfilled).2]
        exact heos.2
    · exact hmem
    · exact hmem

theorem notMem_fillAfterEos {eosId token : Fin V} {answer : List (Fin V)}
    (heos : eosId ∈ answer) (htoken : token ∉ answer) (rest : List (Fin V)) :
    token ∉ fillAfterEos eosId (answer ++ rest) := by
  induction answer with
  | nil => cases heos
  | cons first answer ih =>
      rw [List.mem_cons, not_or] at htoken
      rw [List.cons_append, fillAfterEos]
      split_ifs with hfirst
      · rw [List.mem_cons, not_or, List.mem_replicate, ← hfirst]
        exact ⟨htoken.1, fun hrest => htoken.1 hrest.2⟩
      · rw [List.mem_cons, or_iff_right (Ne.symm hfirst)] at heos
        rw [List.mem_cons, not_or]
        exact ⟨htoken.1, ih heos htoken.2⟩

section Cleared

variable [NeZero B] {args : GenerateArgs V K}

theorem notMem_slice {x : Tokens B V} {start stop : Nat}
    (hclear : ∀ p, start ≤ p → p < stop → tokenAt x p ≠ args.maskId) :
    args.maskId ∉ slice x start stop := by
  intro hmem
  obtain ⟨p, hp, htoken⟩ := List.mem_map.mp hmem
  rw [List.mem_range'_1] at hp
  exact hclear p hp.1 (by omega) htoken

/-- Between two blocks: the blocks generated so far have no mask, the others are as they
were, and a stop has found an EOS. -/
structure Cleared (args : GenerateArgs V K) (prompt : Fin 1 → Fin P → Fin V)
    (s : GenerateState σ 1 B V) : Prop where
  filled : ∀ m, P / B ≤ m → m < s.numBlock → m < numBlocks args P B →
    maskIndex args.maskId (s.x 0 m) = ∅
  ahead : ∀ m, s.numBlock ≤ m → s.x 0 m = initialTokens args.maskId (prompt 0) m
  stopped : s.stopped = true → args.eosEarlyStop = true ∧
    ∃ eosId, args.eosId = some eosId ∧ eosId ∈ slice (s.x 0) P (s.numBlock * B)

theorem le_numBlocks_mul (args : GenerateArgs V K) (promptLength : Nat) :
    promptLength + args.genLength ≤ numBlocks args promptLength B * B := by
  have hpos := NeZero.pos B
  have hmod := Nat.mod_lt (promptLength + args.genLength + B - 1) hpos
  have hdiv := Nat.div_add_mod' (promptLength + args.genLength + B - 1) B
  rw [numBlocks]
  omega

variable {prompt : Fin 1 → Fin P → Fin V} {s : GenerateState σ 1 B V}

theorem Cleared.tokenAt_ne (cleared : Cleared args prompt s) {p : Nat} (hstart : P ≤ p)
    (hstop : p < P + args.genLength) (hwindow : p < s.numBlock * B) :
    tokenAt (s.x 0) p ≠ args.maskId := by
  intro hmask
  have hblocks := hstop.trans_le (le_numBlocks_mul (B := B) args P)
  have hnone := cleared.filled (p / B) (Nat.div_le_div_right hstart)
    ((Nat.div_lt_iff_lt_mul (NeZero.pos B)).mpr hwindow)
    ((Nat.div_lt_iff_lt_mul (NeZero.pos B)).mpr hblocks)
  have hmem : Fin.ofNat B p ∈ maskIndex args.maskId (s.x 0 (p / B)) := mem_maskIndex.mpr hmask
  rw [hnone] at hmem
  exact Finset.notMem_empty _ hmem

/-- A stop leaves later blocks masked, but behind an EOS that covers them. -/
theorem Cleared.notMem_trimmed (cleared : Cleared args prompt s)
    (hend : s.stopped = true ∨ P + args.genLength ≤ s.numBlock * B) :
    args.maskId ∉ trimmed args (slice (s.x 0) P (P + args.genLength)) := by
  rcases le_or_gt (P + args.genLength) (s.numBlock * B) with hall | hpart
  · have hclear : args.maskId ∉ slice (s.x 0) P (P + args.genLength) := by
      apply notMem_slice
      intro p hstart hstop
      exact cleared.tokenAt_ne hstart hstop (hstop.trans_le hall)
    exact fun hmask => hclear (mem_of_mem_trimmed hmask)
  · obtain ⟨hearly, eosId, hid, heos⟩ := cleared.stopped (hend.resolve_right (not_le.mpr hpart))
    have hpos := List.length_pos_of_mem heos
    rw [length_slice] at hpos
    have hargs : { args with eosEarlyStop := true } = args := by rw [← hearly]
    have htrimmed := trimmed_with_early args (slice (s.x 0) P (P + args.genLength))
      (by rw [length_slice, Nat.add_sub_cancel_left])
    rw [hargs, hid, Option.elim_some, slice_append (s.x 0) (by omega) hpart.le] at htrimmed
    rw [slice_append (s.x 0) (by omega) hpart.le, htrimmed]
    apply notMem_fillAfterEos heos
    apply notMem_slice
    intro p hstart hstop
    exact cleared.tokenAt_ne hstart (hstop.trans hpart) hstop

end Cleared

section Run

variable [Field K] [LinearOrder K] [ExpOps K] [TopK K] [NeZero B] [NeZero V]
  {args : GenerateArgs V K} {backend : Backend σ 1 B V K} {prompt : Fin 1 → Fin P → Fin V}

def Backend.AvoidsMask (args : GenerateArgs V K) (backend : Backend σ 1 B V K) : Prop :=
  ∀ cache n, Generate.AvoidsMask args n (backend.read cache n)

/-- The steps cover the masks of every block that is generated. -/
def StepsCover (B : Nat) (args : GenerateArgs V K) (steps : Nat)
    (prompt : Fin 1 → Fin P → Fin V) : Prop :=
  ∀ n, P / B ≤ n → n < numBlocks args P B →
    (maskIndex args.maskId (initialTokens (B := B) args.maskId (prompt onlyRow) n)).card ≤
      steps * args.numToTransfer.toNat

theorem Cleared.generateBlock {s : GenerateState σ 1 B V} (cleared : Cleared args prompt s)
    (hpost : 0 ≤ args.maxPostSteps) (havoids : backend.AvoidsMask args)
    (hcover : StepsCover B args args.effectiveSteps prompt) :
    Cleared args prompt (generateBlock args backend P s) where
  filled m hm hlt hblocks := by
    rcases Nat.lt_succ_iff_lt_or_eq.mp hlt with hearlier | rfl
    · change maskIndex _ ((denoiseBlock args P s.numBlock _ s.x).x 0 m) = ∅
      rw [denoiseBlock_of_ne _ s.x 0 hearlier.ne]
      exact cleared.filled m hm hearlier hblocks
    · apply maskIndex_denoiseBlock hpost (havoids s.prefixCache s.numBlock)
      rw [cleared.ahead s.numBlock le_rfl]
      exact hcover s.numBlock hm hblocks
  ahead m hm := by
    have hlater : s.numBlock < m := hm
    change (denoiseBlock args P s.numBlock _ s.x).x 0 m = _
    rw [denoiseBlock_of_ne _ s.x 0 hlater.ne']
    exact cleared.ahead m hlater.le
  stopped hstopped := by
    obtain ⟨hearly, -, eosId, hid, r, heos⟩ := eosReached_iff.mp hstopped
    rw [Fin.fin_one_eq_zero r] at heos
    exact ⟨hearly, eosId, hid, heos⟩

theorem notMem_generateWith (hpost : 0 ≤ args.maxPostSteps) (havoids : backend.AvoidsMask args)
    (hcover : StepsCover B args args.effectiveSteps prompt) :
    args.maskId ∉ generateWith args backend prompt 0 := by
  have hinit : (initialState args backend prompt).numBlock = P / B + 0 ∧
      Cleared args prompt (initialState args backend prompt) := by
    refine ⟨rfl, ?_, fun _ _ => rfl, fun hfalse => Bool.noConfusion hfalse⟩
    intro m hm hlt
    exact absurd hlt (not_lt.mpr hm)
  have hstep : ∀ blocks (s : GenerateState σ 1 B V),
      (s.numBlock = P / B + blocks ∧ Cleared args prompt s) → s.stopped = false →
      (generateBlock args backend P s).numBlock = P / B + (blocks + 1) ∧
        Cleared args prompt (generateBlock args backend P s) := by
    intro blocks s hs _
    exact ⟨congrArg Nat.succ hs.1, hs.2.generateBlock hpost havoids hcover⟩
  obtain ⟨blocks, ⟨hnum, cleared⟩, hend⟩ := boundedLoop_counted _ hstep
    (numBlocks args P B - P / B) hinit
  apply cleared.notMem_trimmed
  refine hend.imp_right ?_
  intro hblocks
  rw [hnum, hblocks]
  refine (le_numBlocks_mul args P).trans (Nat.mul_le_mul_right B ?_)
  omega

end Run

end LladaHybrid.Generate
