import LladaHybrid.Generate.Sampling
import LladaHybrid.Generate.RowIndependence
import LladaHybrid.Generate.BlockDecoders
import Mathlib.Logic.Relation

namespace LladaHybrid.Generate

open LladaHybrid.Library LladaHybrid.Decode Relation

/-! What a run of `generate` or `_generate_with_kv_cache` leaves alone, at every point of
its nested loops and at any temperature. -/

variable {σ : Type*} {N P B V : Nat} {K : Type*}

/-- A point of the run: at the head of the `while` loop over the current block. -/
structure Point (σ : Type*) (N B V : Nat) where
  block : DenoiseState N B V
  stepCount : Nat
  prefixCache : σ
  numBlock : Nat
  stopped : Bool

section Update

variable [LinearOrder K] [TopK K] {args : GenerateArgs V K} {promptLength n : Nat}

theorem rowUpdate_changes {pred : Prediction B V K} {x : Tokens B V} {j : Fin B}
    (hchanged : rowUpdate args promptLength n pred x n j ≠ x n j) :
    x n j = args.maskId ∨ (promptLength ≤ n * B + j ∧
      args.editingThreshold < ((pred.prob j : WithTop K) : Conf K)) := by
  by_contra hkept
  rw [not_or] at hkept
  apply hchanged
  dsimp only [rowUpdate]
  rw [Function.update_self]
  apply transferTokens_of_notMem
  rw [Finset.mem_union, not_or]
  constructor
  · intro hmem
    exact hkept.1 (mem_maskIndex.mp (maskTransferIndex_subset args _ _ hmem))
  · intro hmem
    obtain ⟨-, hprompt, hlt, -⟩ := mem_editingTransferIndex.mp hmem
    rw [mem_promptMaskInBlock] at hprompt
    exact hkept.2 ⟨by omega, hlt⟩

theorem denoiseWith_of_ne {m : Nat} {pred : Fin N → Prediction B V K} (s : DenoiseState N B V)
    (hne : m ≠ n) (r : Fin N) : (denoiseWith args promptLength n pred s).x r m = s.x r m := by
  dsimp only [denoiseWith]
  split_ifs with hexhausted
  · rfl
  · exact rowUpdate_of_ne (pred r) (s.x r) hne

theorem denoiseWith_changes {pred : Fin N → Prediction B V K}
    {s : DenoiseState N B V} {r : Fin N} {j : Fin B}
    (hchanged : (denoiseWith args promptLength n pred s).x r n j ≠ s.x r n j) :
    s.nextPostSteps args n ≤ args.maxPostSteps ∧
      (s.x r n j = args.maskId ∨ (promptLength ≤ n * B + j ∧
        args.editingThreshold < (((pred r).prob j : WithTop K) : Conf K))) := by
  dsimp only [denoiseWith] at hchanged
  split_ifs at hchanged with hexhausted
  · exact absurd rfl hchanged
  · exact ⟨not_lt.mp hexhausted, rowUpdate_changes hchanged⟩

end Update

def GenerateState.point (s : GenerateState σ N B V) : Point σ N B V :=
  ⟨⟨s.x, 0, false⟩, 0, s.prefixCache, s.numBlock, s.stopped⟩

section Invariant

variable [NeZero B]

/-- The prompt is in place, and the blocks after the current one are masked. -/
structure Framed (args : GenerateArgs V K) (prompt : Fin N → Fin P → Fin V)
    (p : Point σ N B V) : Prop where
  started : P / B ≤ p.numBlock
  prompt : ∀ r i, prompt r i ≠ args.maskId → tokenAt (p.block.x r) i = prompt r i
  ahead : ∀ r n j, p.numBlock < n → p.block.x r n j = args.maskId

theorem Framed.initial (args : GenerateArgs V K) (backend : Backend σ N B V K)
    (prompt : Fin N → Fin P → Fin V) :
    Framed args prompt (initialState args backend prompt).point where
  started := le_rfl
  prompt r i _ := by
    have hposition : i / B * B + (Fin.ofNat B i : Nat) = i := Nat.div_add_mod' i B
    change initialTokens args.maskId (prompt r) (i / B) (Fin.ofNat B i) = _
    rw [initialTokens, dif_pos (hposition.trans_lt i.isLt)]
    exact congrArg (prompt r) (Fin.ext hposition)
  ahead r n j hn := by
    have hlt : P < n * B := (Nat.div_lt_iff_lt_mul (NeZero.pos B)).mp hn
    exact dif_neg (by omega)

end Invariant

section Order

variable [LinearOrder K] [One K]

/-- The blocks left before `p` are as they were, and without editing so are the tokens. -/
structure Later (args : GenerateArgs V K) (p q : Point σ N B V) : Prop where
  numBlock : p.numBlock ≤ q.numBlock
  past : ∀ r n, n < p.numBlock → q.block.x r n = p.block.x r n
  settled : (((1 : K) : WithTop K) : Conf K) ≤ args.editingThreshold → ∀ r n j,
    p.block.x r n j ≠ args.maskId → q.block.x r n j = p.block.x r n j

theorem Later.refl (args : GenerateArgs V K) (p : Point σ N B V) : Later args p p :=
  ⟨le_rfl, fun _ _ _ => rfl, fun _ _ _ _ _ => rfl⟩

end Order

section Run

variable [Field K] [LinearOrder K] [ExpOps K] [TopK K] [NeZero B] [NeZero V]

/-- The logits of a row in the current block, after the repetition penalty. -/
def Point.activeLogits (args : GenerateArgs V K) (backend : Backend σ N B V K)
    (p : Point σ N B V) (r : Fin N) : Logits B V K :=
  repetitionPenalised args (slice (p.block.x r) 0 ((p.numBlock + 1) * B))
    (backend.read p.prefixCache p.numBlock (fun r => window (p.block.x r) p.numBlock) r)

def Point.Running (args : GenerateArgs V K) (promptLength : Nat) (p : Point σ N B V) : Prop :=
  p.stopped = false ∧ p.numBlock < numBlocks args promptLength B

inductive Step (args : GenerateArgs V K) (sampling : SamplingArgs K)
    (backend : Backend σ N B V K) (promptLength : Nat) :
    Point σ N B V → Point σ N B V → Prop
  /-- An iteration of the `while` loop; the check of `max_post_steps` precedes the forward. -/
  | denoise {p : Point σ N B V} (pred : Fin N → Prediction B V K) :
      p.Running args promptLength → p.block.stopped = false →
      p.stepCount < args.effectiveSteps →
      (p.block.nextPostSteps args p.numBlock ≤ args.maxPostSteps →
        ∀ r, Samples sampling (p.activeLogits args backend r) (pred r)) →
      Step args sampling backend promptLength p { p with
        block := denoiseWith args promptLength p.numBlock pred p.block
        stepCount := p.stepCount + 1 }
  /-- The end of a block: it is committed, and the EOS test decides about the next one. -/
  | leave {p : Point σ N B V} : p.Running args promptLength →
      (p.block.stopped = true ∨ args.effectiveSteps ≤ p.stepCount) →
      Step args sampling backend promptLength p
        { block := ⟨p.block.x, 0, false⟩
          stepCount := 0
          prefixCache := backend.commit p.prefixCache p.numBlock
            (fun r => p.block.x r p.numBlock)
          numBlock := p.numBlock + 1
          stopped := eosReached args promptLength ((p.numBlock + 1) * B) p.block.x }

def Reaches (args : GenerateArgs V K) (sampling : SamplingArgs K)
    (backend : Backend σ N B V K) (promptLength : Nat) :
    Point σ N B V → Point σ N B V → Prop :=
  ReflTransGen (Step args sampling backend promptLength)

variable {args : GenerateArgs V K} {sampling : SamplingArgs K} {backend : Backend σ N B V K}
  {promptLength : Nat} {p q : Point σ N B V}

/-! The loops at temperature 0 take these steps. -/

variable (backend) in
theorem step_denoiseStep (hzero : sampling.temperature = 0)
    (hrunning : p.Running args promptLength) (hstopped : p.block.stopped = false)
    (hleft : p.stepCount < args.effectiveSteps) :
    Step args sampling backend promptLength p { p with
      block := denoiseStep args promptLength p.numBlock
        (backend.read p.prefixCache p.numBlock) p.block
      stepCount := p.stepCount + 1 } :=
  Step.denoise (fun r => predict (p.activeLogits args backend r)) hrunning hstopped hleft
    (fun _ r => samples_predict hzero (p.activeLogits args backend r))

variable (backend) in
theorem reaches_denoiseLoop (hzero : sampling.temperature = 0)
    (hrunning : p.Running args promptLength) {k : Nat}
    (hleft : p.stepCount + k = args.effectiveSteps) :
    ∃ stepCount, Reaches args sampling backend promptLength p { p with
        block := boundedLoop DenoiseState.stopped (denoiseStep args promptLength p.numBlock
          (backend.read p.prefixCache p.numBlock)) k p.block
        stepCount } ∧
      ((boundedLoop DenoiseState.stopped (denoiseStep args promptLength p.numBlock
          (backend.read p.prefixCache p.numBlock)) k p.block).stopped = true ∨
        args.effectiveSteps ≤ stepCount) := by
  induction k generalizing p with
  | zero => exact ⟨p.stepCount, .refl, Or.inr hleft.ge⟩
  | succ k ih =>
      cases hstopped : p.block.stopped with
      | true =>
          rw [boundedLoop_of_done hstopped]
          exact ⟨p.stepCount, .refl, Or.inl hstopped⟩
      | false =>
          rw [boundedLoop_of_not_done hstopped]
          have hstep := step_denoiseStep backend hzero hrunning hstopped (by omega)
          obtain ⟨stepCount, hreaches, hend⟩ := ih (p := { p with
            block := denoiseStep args promptLength p.numBlock
              (backend.read p.prefixCache p.numBlock) p.block
            stepCount := p.stepCount + 1 }) hrunning
            ((Nat.succ_add_eq_add_succ p.stepCount k).trans hleft)
          exact ⟨stepCount, .head hstep hreaches, hend⟩

variable (backend) in
theorem reaches_generateBlock (hzero : sampling.temperature = 0) {s : GenerateState σ N B V}
    (hrunning : s.point.Running args promptLength) :
    Reaches args sampling backend promptLength s.point
      (generateBlock args backend promptLength s).point := by
  obtain ⟨stepCount, hreaches, hend⟩ := reaches_denoiseLoop backend hzero hrunning
    (Nat.zero_add args.effectiveSteps)
  exact hreaches.tail (.leave hrunning hend)

theorem reaches_generateLoop (hzero : sampling.temperature = 0) {s : GenerateState σ N B V}
    {k : Nat} (hleft : s.numBlock + k ≤ numBlocks args promptLength B) :
    Reaches args sampling backend promptLength s.point
      (boundedLoop GenerateState.stopped (generateBlock args backend promptLength) k s).point := by
  induction k generalizing s with
  | zero => exact .refl
  | succ k ih =>
      cases hstopped : s.stopped with
      | true =>
          rw [boundedLoop_of_done hstopped]
          exact .refl
      | false =>
          rw [boundedLoop_of_not_done hstopped]
          have hnext := reaches_generateBlock backend hzero
            (show s.point.Running args promptLength from ⟨hstopped, by
              change s.numBlock < _
              omega⟩)
          refine hnext.trans (ih ?_)
          change s.numBlock + 1 + k ≤ _
          omega

/-- The tokens of a generation at temperature 0 stand at the end of a run. -/
theorem reaches_generateTokens (hzero : sampling.temperature = 0)
    (prompt : Fin N → Fin P → Fin V) :
    Reaches args sampling backend P (initialState args backend prompt).point
      (generateTokens args backend prompt).point := by
  apply reaches_generateLoop hzero
  change P / B + _ ≤ _
  have hblocks : P / B ≤ numBlocks args P B := Nat.div_le_div_right (by
    have := NeZero.pos B
    omega)
  omega

/-! What one step can change. -/

theorem Step.numBlock_le (step : Step args sampling backend promptLength p q) :
    p.numBlock ≤ q.numBlock := by
  cases step with
  | denoise => exact le_rfl
  | leave => exact Nat.le_succ _

theorem Step.of_ne (step : Step args sampling backend promptLength p q) (r : Fin N) {n : Nat}
    (hne : n ≠ p.numBlock) : q.block.x r n = p.block.x r n := by
  cases step with
  | denoise => exact denoiseWith_of_ne p.block hne r
  | leave => rfl

variable [IsStrictOrderedRing K] [LawfulExp K]

theorem Step.changes (step : Step args sampling backend promptLength p q) {r : Fin N} {n : Nat}
    {j : Fin B} (hchanged : q.block.x r n j ≠ p.block.x r n j) :
    p.block.x r n j = args.maskId ∨ (promptLength ≤ n * B + j ∧
      args.editingThreshold < (((1 : K) : WithTop K) : Conf K)) := by
  cases step with
  | leave => exact absurd rfl hchanged
  | denoise pred _ _ _ hsamples =>
      have hblock : n = p.numBlock := by
        by_contra hne
        exact hchanged (congrFun (denoiseWith_of_ne p.block hne r) j)
      subst hblock
      obtain ⟨hwithin, hmask | ⟨hprompt, hlt⟩⟩ := denoiseWith_changes hchanged
      · exact Or.inl hmask
      · refine Or.inr ⟨hprompt, hlt.trans_le ?_⟩
        exact_mod_cast (hsamples hwithin r).prob_le_one j

/-! What a run keeps. -/

theorem Framed.step {prompt : Fin N → Fin P → Fin V} (framed : Framed args prompt p)
    (step : Step args sampling backend P p q) : Framed args prompt q where
  started := framed.started.trans step.numBlock_le
  prompt r i hprompt := by
    have hkept := framed.prompt r i hprompt
    rw [← hkept] at hprompt ⊢
    by_contra hchanged
    rcases step.changes hchanged with hmask | ⟨hbehind, -⟩
    · exact hprompt hmask
    · have hposition : i / B * B + (Fin.ofNat B i : Nat) = i := Nat.div_add_mod' i B
      have hlt := i.isLt
      omega
  ahead r n j hn := by
    have hp : p.numBlock < n := step.numBlock_le.trans_lt hn
    rw [step.of_ne r hp.ne']
    exact framed.ahead r n j hp

theorem Later.tail {s : Point σ N B V} (later : Later args p q)
    (step : Step args sampling backend promptLength q s) : Later args p s where
  numBlock := later.numBlock.trans step.numBlock_le
  past r n hn := (step.of_ne r (hn.trans_le later.numBlock).ne).trans (later.past r n hn)
  settled hoff r n j hmask := by
    have hkept := later.settled hoff r n j hmask
    rw [← hkept] at hmask ⊢
    by_contra hchanged
    rcases step.changes hchanged with hmasked | ⟨-, hlt⟩
    · exact hmask hmasked
    · exact absurd hlt (not_lt.mpr hoff)

theorem Reaches.framed {prompt : Fin N → Fin P → Fin V}
    (hp : Reaches args sampling backend P (initialState args backend prompt).point p) :
    Framed args prompt p := by
  induction hp with
  | refl => exact .initial args backend prompt
  | tail _ step ih => exact ih.step step

theorem Reaches.later (hq : Reaches args sampling backend promptLength p q) :
    Later args p q := by
  induction hq with
  | refl => exact .refl args p
  | tail _ step ih => exact ih.tail step

/-- At every point `q` of a run, and for every earlier point `p` of it: the prompt is in
place, the blocks left before `p` are as they were, the blocks after the current one are
masked, and without editing the tokens unmasked at `p` have not changed. -/
theorem denoising_frame (args : GenerateArgs V K) (sampling : SamplingArgs K)
    (backend : Backend σ N B V K) (prompt : Fin N → Fin P → Fin V)
    (hp : Reaches args sampling backend P (initialState args backend prompt).point p)
    (hq : Reaches args sampling backend P p q) :
    (∀ r i, prompt r i ≠ args.maskId → tokenAt (q.block.x r) i = prompt r i) ∧
      (∀ r n, n < p.numBlock → q.block.x r n = p.block.x r n) ∧
      (∀ r n j, q.numBlock < n → q.block.x r n j = args.maskId) ∧
      ((((1 : K) : WithTop K) : Conf K) ≤ args.editingThreshold → ∀ r n j,
        p.block.x r n j ≠ args.maskId → q.block.x r n j = p.block.x r n j) := by
  have framed : Framed args prompt q := Reaches.framed (ReflTransGen.trans hp hq)
  have later : Later args p q := hq.later
  exact ⟨framed.prompt, later.past, framed.ahead, later.settled⟩

theorem denoising_frame_pair :
    let model : LanguageModel (fun N => Fin N → Unit) 1 4 ℝ :=
      LanguageModel.rowwise (fun _ _ _ v => if v = 2 then 1 else 0)
        ⟨(), fun _ _ _ _ _ => 0, fun _ _ _ => ()⟩
    let args : GenerateArgs 4 ℝ :=
      { steps := 1, genLength := 2, minimalTopk := 1, threshold := ⊥,
        editingThreshold := ⊤, maxPostSteps := 0, numToTransfer := 1,
        eosEarlyStop := true, eosId := some 2, maskId := 3, repetitionPenalty := 1 }
    let prompt : Fin 2 → Fin 1 → Fin 4 := fun _ _ => 0
    (∀ r i, prompt r i ≠ 3 →
        tokenAt ((generateTokens args (model.uncached 2) prompt).x r) i = prompt r i) ∧
      ∀ r n j, (initialState args (model.uncached 2) prompt).x r n j ≠ 3 →
        (generateTokens args (model.uncached 2) prompt).x r n j =
          (initialState args (model.uncached 2) prompt).x r n j := by
  intro model args prompt
  have hframe := denoising_frame args ⟨0, none, none⟩ (model.uncached 2) prompt .refl
    (reaches_generateTokens rfl prompt)
  exact ⟨hframe.1, hframe.2.2.2 le_top⟩

end Run

end LladaHybrid.Generate
