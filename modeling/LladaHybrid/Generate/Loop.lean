import LladaHybrid.Library.Loop
import LladaHybrid.Decode.Prediction
import Mathlib.Data.PNat.Basic

namespace LladaHybrid.Generate

open LladaHybrid.Library LladaHybrid.Decode

/-! `LLaDA2MoeModelLM.generate` and `_generate_with_kv_cache` at temperature 0. The
two share their loops and differ in where a forward takes the earlier blocks from,
which is the backend below. -/

structure GenerateArgs (V : Nat) (K : Type*) where
  steps : Int
  genLength : Nat
  minimalTopk : PNat
  threshold : Conf K
  editingThreshold : Conf K
  maxPostSteps : Int
  numToTransfer : Int
  eosEarlyStop : Bool
  eosId : Option (Fin V)
  maskId : Fin V
  repetitionPenalty : K

variable {σ : Type*} {N P B V : Nat} {K : Type*}

/-- `steps = min(int(steps), int(gen_length) // int(minimal_topk))`. -/
def GenerateArgs.effectiveSteps (args : GenerateArgs V K) : Nat :=
  (min args.steps (args.genLength / args.minimalTopk : Nat)).toNat

/-- One row of `x`, block by block. -/
abbrev Tokens (B V : Nat) := Nat → Block B V

def window (x : Tokens B V) (numBlock : Nat) : Fin (numBlock + 1) → Block B V :=
  fun m => x m

def tokenAt [NeZero B] (x : Tokens B V) (position : Nat) : Fin V :=
  x (position / B) (Fin.ofNat B position)

/-- `x[b, start:stop]`. -/
def slice [NeZero B] (x : Tokens B V) (start stop : Nat) : List (Fin V) :=
  (List.range' start (stop - start)).map (tokenAt x)

def initialTokens (maskId : Fin V) (prompt : Fin P → Fin V) : Tokens B V :=
  fun n j => if h : n * B + j < P then prompt ⟨n * B + j, h⟩ else maskId

def promptMaskInBlock (promptLength numBlock : Nat) : Finset (Fin B) :=
  if numBlock * B < promptLength then
    Finset.univ.filter (fun j => j.val < min (promptLength - numBlock * B) B)
  else
    ∅

theorem mem_promptMaskInBlock {promptLength n : Nat} {j : Fin B} :
    j ∈ promptMaskInBlock promptLength n ↔ j.val < promptLength - n * B := by
  have hj := j.isLt
  rw [promptMaskInBlock]
  split_ifs with hprompt
  · simp only [Finset.mem_filter, Finset.mem_univ, true_and]
    omega
  · simp only [Finset.notMem_empty, false_iff]
    omega

structure DenoiseState (N B V : Nat) where
  x : Fin N → Tokens B V
  postSteps : Nat
  stopped : Bool

/-- Some row of the batch still has a mask in the current block. -/
def DenoiseState.anyMask (args : GenerateArgs V K) (numBlock : Nat)
    (s : DenoiseState N B V) : Prop :=
  ∃ r, (maskIndex args.maskId (s.x r numBlock)).Nonempty

instance (args : GenerateArgs V K) (numBlock : Nat) (s : DenoiseState N B V) :
    Decidable (s.anyMask args numBlock) :=
  inferInstanceAs (Decidable (∃ _, _))

/-- `post_steps` after the increment of a step without masks. -/
def DenoiseState.nextPostSteps (args : GenerateArgs V K) (numBlock : Nat)
    (s : DenoiseState N B V) : Nat :=
  if s.anyMask args numBlock then s.postSteps else s.postSteps + 1

theorem DenoiseState.nextPostSteps_of_mask {args : GenerateArgs V K} {numBlock : Nat}
    {s : DenoiseState N B V} (hmask : s.anyMask args numBlock) :
    s.nextPostSteps args numBlock = s.postSteps :=
  if_pos hmask

theorem DenoiseState.nextPostSteps_of_no_mask {args : GenerateArgs V K} {numBlock : Nat}
    {s : DenoiseState N B V} (hnone : ¬ s.anyMask args numBlock) :
    s.nextPostSteps args numBlock = s.postSteps + 1 :=
  if_neg hnone

section Step

variable [Field K] [LinearOrder K] [ExpOps K] [TopK K] [NeZero B] [NeZero V]

def repetitionPenalised (args : GenerateArgs V K) (pastTokens : List (Fin V))
    (logits : Logits B V K) : Logits B V K :=
  if args.repetitionPenalty = 1 then
    logits
  else fun j v =>
    if v ∈ pastTokens ∧ v ≠ args.maskId then
      if 0 < logits j v then logits j v / args.repetitionPenalty
      else logits j v * args.repetitionPenalty
    else
      logits j v

def rowPrediction (args : GenerateArgs V K) (numBlock : Nat) (logits : Logits B V K)
    (x : Tokens B V) : Prediction B V K :=
  predict (repetitionPenalised args (slice x 0 ((numBlock + 1) * B)) logits)

def maskTransferIndex (args : GenerateArgs V K) (active : Finset (Fin B))
    (prob : Fin B → K) : Finset (Fin B) :=
  if active = ∅ then
    ∅
  else
    let conf := confidence active prob
    let highConf := aboveThreshold conf args.threshold ∩ active
    if args.numToTransfer ≤ highConf.card then highConf
    else topk conf (min args.numToTransfer active.card).toNat

def editingTransferIndex (args : GenerateArgs V K) (promptLength numBlock : Nat)
    (pred : Prediction B V K) (old : Block B V) : Finset (Fin B) :=
  let editable :=
    (maskIndex args.maskId old)ᶜ ∩ (promptMaskInBlock promptLength numBlock)ᶜ
  aboveThreshold (confidence editable pred.prob) args.editingThreshold ∩ editable ∩
    Finset.univ.filter (fun j => pred.token j ≠ old j)

omit [Field K] [ExpOps K] [NeZero B] [NeZero V] in
theorem maskTransferIndex_subset (args : GenerateArgs V K) (active : Finset (Fin B))
    (prob : Fin B → K) : maskTransferIndex args active prob ⊆ active := by
  dsimp only [maskTransferIndex]
  split_ifs with hempty hhigh
  · exact Finset.empty_subset _
  · exact Finset.inter_subset_right
  · apply topk_confidence_subset
    omega

omit [Field K] [ExpOps K] [TopK K] [NeZero B] [NeZero V] in
theorem mem_editingTransferIndex {args : GenerateArgs V K} {promptLength n : Nat}
    {pred : Prediction B V K} {old : Block B V} {j : Fin B} :
    j ∈ editingTransferIndex args promptLength n pred old ↔
      old j ≠ args.maskId ∧ j ∉ promptMaskInBlock promptLength n ∧
        args.editingThreshold < ((pred.prob j : WithTop K) : Conf K) ∧
          pred.token j ≠ old j := by
  simp only [editingTransferIndex, Finset.mem_inter, Finset.mem_filter, Finset.mem_univ,
    Finset.mem_compl, mem_aboveThreshold, mem_maskIndex, true_and]
  constructor
  · rintro ⟨⟨hlt, hmask, hprompt⟩, hchanged⟩
    rw [confidence, if_pos (by simp [hmask, hprompt])] at hlt
    exact ⟨hmask, hprompt, hlt, hchanged⟩
  · rintro ⟨hmask, hprompt, hlt, hchanged⟩
    rw [confidence, if_pos (by simp [hmask, hprompt])]
    exact ⟨⟨hlt, hmask, hprompt⟩, hchanged⟩

def rowUpdate (args : GenerateArgs V K) (promptLength numBlock : Nat)
    (pred : Prediction B V K) (x : Tokens B V) : Tokens B V :=
  let old := x numBlock
  let transfer := maskTransferIndex args (maskIndex args.maskId old) pred.prob ∪
    editingTransferIndex args promptLength numBlock pred old
  Function.update x numBlock (transferTokens old pred.token transfer)

omit [Field K] [ExpOps K] [NeZero B] [NeZero V] in
/-- A threshold below every confidence fills all masks at once. -/
theorem maskTransferIndex_of_bot {args : GenerateArgs V K} (hthreshold : args.threshold = ⊥)
    (active : Finset (Fin B)) (prob : Fin B → K) :
    maskTransferIndex args active prob = active := by
  have hhigh : aboveThreshold (confidence active prob) args.threshold ∩ active = active := by
    refine Finset.inter_eq_right.mpr (fun j hj => mem_aboveThreshold.mpr ?_)
    rw [hthreshold, confidence, if_pos hj]
    exact WithBot.bot_lt_coe _
  dsimp only [maskTransferIndex]
  split_ifs with hempty hfew
  · exact hempty.symm
  · exact hhigh
  · rw [hhigh] at hfew
    rw [min_eq_right (not_le.mp hfew).le, Int.toNat_natCast]
    refine Finset.eq_of_subset_of_card_le (topk_confidence_subset prob le_rfl) ?_
    rw [TopK.card_topk _ (card_finset_fin_le active)]

omit [Field K] [ExpOps K] [NeZero B] [NeZero V] in
theorem rowUpdate_of_bot {args : GenerateArgs V K} {promptLength n : Nat}
    (hthreshold : args.threshold = ⊥) (pred : Prediction B V K) (x : Tokens B V) (j : Fin B) :
    rowUpdate args promptLength n pred x n j =
      if x n j = args.maskId ∨ j ∈ editingTransferIndex args promptLength n pred (x n)
      then pred.token j else x n j := by
  simp only [rowUpdate, maskTransferIndex_of_bot hthreshold, Function.update_self, transferTokens,
    Finset.piecewise, Finset.mem_union, mem_maskIndex]

omit [Field K] [ExpOps K] [NeZero B] [NeZero V] in
theorem rowUpdate_of_confident {args : GenerateArgs V K} {promptLength n : Nat}
    {pred : Prediction B V K} {x : Tokens B V} (hthreshold : args.threshold = ⊥)
    (hconf : ∀ j, args.editingThreshold < (((pred.prob j : K) : WithTop K) : Conf K))
    (j : Fin B) :
    rowUpdate args promptLength n pred x n j =
      if x n j ≠ args.maskId ∧ j ∈ promptMaskInBlock promptLength n then x n j
      else pred.token j := by
  rw [rowUpdate_of_bot hthreshold]
  simp only [mem_editingTransferIndex]
  by_cases hmask : x n j = args.maskId
  · simp [hmask]
  · by_cases hprompt : j ∈ promptMaskInBlock promptLength n
    · simp [hmask, hprompt]
    · by_cases hsame : pred.token j = x n j
      · simp [hmask, hprompt, hsame]
      · simp [hmask, hprompt, hsame, hconf j]

abbrev ReadWindow (N B V numBlock : Nat) (K : Type*) :=
  (Fin N → Fin (numBlock + 1) → Block B V) → Fin N → Logits B V K

/-- The body of the `while` loop over one block, for all rows at once and on the tokens it
has sampled. -/
def denoiseWith (args : GenerateArgs V K) (promptLength numBlock : Nat)
    (pred : Fin N → Prediction B V K) (s : DenoiseState N B V) : DenoiseState N B V :=
  let postSteps := s.nextPostSteps args numBlock
  if args.maxPostSteps < postSteps then
    { s with postSteps, stopped := true }
  else
    { x := fun r => rowUpdate args promptLength numBlock (pred r) (s.x r)
      postSteps
      stopped := decide (¬ s.anyMask args numBlock ∧ ∀ r,
        editingTransferIndex args promptLength numBlock (pred r) (s.x r numBlock) = ∅) }

def denoiseStep (args : GenerateArgs V K) (promptLength numBlock : Nat)
    (read : ReadWindow N B V numBlock K) (s : DenoiseState N B V) :
    DenoiseState N B V :=
  let logits := read (fun r => window (s.x r) numBlock)
  denoiseWith args promptLength numBlock
    (fun r => rowPrediction args numBlock (logits r) (s.x r)) s

theorem denoiseStep_of_exhausted {args : GenerateArgs V K} {promptLength n : Nat}
    {read : ReadWindow N B V n K} {s : DenoiseState N B V}
    (hexhausted : args.maxPostSteps < s.nextPostSteps args n) :
    denoiseStep args promptLength n read s =
      { s with postSteps := s.nextPostSteps args n, stopped := true } := by
  simp only [denoiseStep, denoiseWith, if_pos hexhausted]

theorem denoiseStep_of_within {args : GenerateArgs V K} {promptLength n : Nat}
    {read : ReadWindow N B V n K} {s : DenoiseState N B V}
    (hwithin : ¬ args.maxPostSteps < s.nextPostSteps args n)
    {pred : Fin N → Prediction B V K}
    (hpred : ∀ r, rowPrediction args n (read (fun r => window (s.x r) n) r) (s.x r) =
      pred r) :
    denoiseStep args promptLength n read s =
      { x := fun r => rowUpdate args promptLength n (pred r) (s.x r)
        postSteps := s.nextPostSteps args n
        stopped := decide (¬ s.anyMask args n ∧
          ∀ r, editingTransferIndex args promptLength n (pred r) (s.x r n) = ∅) } := by
  simp only [denoiseStep, denoiseWith, if_neg hwithin, hpred]

theorem denoiseStep_stopped_of_mask {args : GenerateArgs V K} {promptLength n : Nat}
    {read : ReadWindow N B V n K} {s : DenoiseState N B V}
    (hwithin : ¬ args.maxPostSteps < s.nextPostSteps args n) (hmask : s.anyMask args n) :
    (denoiseStep args promptLength n read s).stopped = false := by
  rw [denoiseStep_of_within hwithin (fun _ => rfl)]
  exact decide_eq_false (fun hstop => hstop.1 hmask)

def denoiseBlock (args : GenerateArgs V K) (promptLength numBlock : Nat)
    (read : ReadWindow N B V numBlock K) (x : Fin N → Tokens B V) :
    DenoiseState N B V :=
  boundedLoop DenoiseState.stopped (denoiseStep args promptLength numBlock read)
    args.effectiveSteps ⟨x, 0, false⟩

/-- Where a forward takes the earlier blocks from. -/
structure Backend (σ : Type*) (N B V : Nat) (K : Type*) where
  init : σ
  read : σ → (numBlock : Nat) → ReadWindow N B V numBlock K
  commit : σ → (numBlock : Nat) → (Fin N → Block B V) → σ

def Backend.prefill (backend : Backend σ N B V K) (x : Fin N → Tokens B V) : Nat → σ
  | 0 => backend.init
  | b + 1 => backend.commit (backend.prefill x b) b (fun r => x r b)

structure GenerateState (σ : Type*) (N B V : Nat) where
  x : Fin N → Tokens B V
  prefixCache : σ
  numBlock : Nat
  stopped : Bool

def eosReached (args : GenerateArgs V K) (promptLength windowEnd : Nat)
    (x : Fin N → Tokens B V) : Bool :=
  match args.eosId with
  | none => false
  | some eosId =>
      args.eosEarlyStop &&
        decide (∀ r, args.maskId ∉ slice (x r) promptLength windowEnd) &&
        decide (∃ r, eosId ∈ slice (x r) promptLength windowEnd)

/-- The body of the loop over blocks. -/
def generateBlock (args : GenerateArgs V K) (backend : Backend σ N B V K)
    (promptLength : Nat) (s : GenerateState σ N B V) : GenerateState σ N B V :=
  let x := (denoiseBlock args promptLength s.numBlock
    (backend.read s.prefixCache s.numBlock) s.x).x
  { x
    prefixCache := backend.commit s.prefixCache s.numBlock (fun r => x r s.numBlock)
    numBlock := s.numBlock + 1
    stopped := eosReached args promptLength ((s.numBlock + 1) * B) x }

/-- Everything after the first EOS becomes EOS. -/
def trimmed (args : GenerateArgs V K) (gen : List (Fin V)) : List (Fin V) :=
  match args.eosId with
  | none => gen
  | some eosId =>
      if args.eosEarlyStop = true ∧ eosId ∈ gen then
        let cut := gen.idxOf eosId + 1
        if cut < args.genLength then
          gen.take cut ++ List.replicate (gen.length - cut) eosId
        else
          gen
      else
        gen

def numBlocks (args : GenerateArgs V K) (promptLength B : Nat) : Nat :=
  (promptLength + args.genLength + B - 1) / B

def initialState (args : GenerateArgs V K) (backend : Backend σ N B V K)
    (prompt : Fin N → Fin P → Fin V) : GenerateState σ N B V :=
  let x : Fin N → Tokens B V := fun r => initialTokens args.maskId (prompt r)
  { x, prefixCache := backend.prefill x (P / B), numBlock := P / B, stopped := false }

def generateTokens (args : GenerateArgs V K) (backend : Backend σ N B V K)
    (prompt : Fin N → Fin P → Fin V) : GenerateState σ N B V :=
  boundedLoop GenerateState.stopped (generateBlock args backend P)
    (numBlocks args P B - P / B) (initialState args backend prompt)

def generateWith (args : GenerateArgs V K) (backend : Backend σ N B V K)
    (prompt : Fin N → Fin P → Fin V) (r : Fin N) : List (Fin V) :=
  trimmed args
    (slice ((generateTokens args backend prompt).x r) P (P + args.genLength))

end Step

/-- A model for batches of any size: the plain forward over a window of blocks, whose
last block's logits are read, and the forwards through a prefix cache. -/
structure LanguageModel (Cache : Nat → Type*) (B V : Nat) (K : Type*) where
  forward : {N : Nat} → (numBlock : Nat) → ReadWindow N B V numBlock K
  initPrefixCache : (N : Nat) → Cache N
  forwardRead : {N : Nat} → Cache N → (numBlock : Nat) → (Fin N → Block B V) →
    Fin N → Logits B V K
  forwardCommit : {N : Nat} → Cache N → (numBlock : Nat) → (Fin N → Block B V) →
    Cache N

namespace LanguageModel

variable {Cache : Nat → Type*}

def uncached (model : LanguageModel Cache B V K) (N : Nat) : Backend Unit N B V K where
  init := ()
  read _ numBlock := model.forward numBlock
  commit _ _ _ := ()

def cached (model : LanguageModel Cache B V K) (N : Nat) :
    Backend (Cache N) N B V K where
  init := model.initPrefixCache N
  read cache numBlock x :=
    model.forwardRead cache numBlock (fun r => x r (Fin.last numBlock))
  commit cache numBlock block := model.forwardCommit cache numBlock block

variable [Field K] [LinearOrder K] [ExpOps K] [TopK K] [NeZero B] [NeZero V]

def generateWithKvCache (model : LanguageModel Cache B V K) (args : GenerateArgs V K)
    (prompt : Fin N → Fin P → Fin V) : Fin N → List (Fin V) :=
  generateWith args (model.cached N) prompt

def generate (model : LanguageModel Cache B V K) (args : GenerateArgs V K)
    (useKvCache : Bool) (prompt : Fin N → Fin P → Fin V) : Fin N → List (Fin V) :=
  if useKvCache then model.generateWithKvCache args prompt
  else generateWith args (model.uncached N) prompt

end LanguageModel

end LladaHybrid.Generate
