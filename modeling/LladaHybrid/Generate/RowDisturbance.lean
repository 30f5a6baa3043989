import LladaHybrid.Generate.BackendAgreement
import LladaHybrid.Generate.StepBudget

namespace LladaHybrid.Generate

open LladaHybrid.Library LladaHybrid.Decode

/-! The rows of a batch share the count of the post-edit steps and the EOS stop. For which
arguments no row can tell that it is not alone. -/

variable {σ τ ρ : Type*} {N P B V : Nat} {K : Type*}

/-! Copies of one row. -/

structure Copies (s : DenoiseState N B V) (t : DenoiseState 1 B V) : Prop where
  x : ∀ i, s.x i = t.x 0
  postSteps : s.postSteps = t.postSteps
  stopped : s.stopped = t.stopped

theorem Copies.anyMask {s : DenoiseState N B V} {t : DenoiseState 1 B V} (copies : Copies s t)
    (r : Fin N) (args : GenerateArgs V K) (n : Nat) :
    s.anyMask args n ↔ t.anyMask args n := by
  constructor
  · rintro ⟨i, hmask⟩
    exact ⟨0, copies.x i ▸ hmask⟩
  · exact anyMask_of_row (copies.x r)

structure CopiedRun (view : σ → Fin N → ρ) (viewAlone : τ → Fin 1 → ρ)
    (s : GenerateState σ N B V) (t : GenerateState τ 1 B V) : Prop where
  x : ∀ i, s.x i = t.x 0
  cache : ∀ i, view s.prefixCache i = viewAlone t.prefixCache 0
  numBlock : s.numBlock = t.numBlock
  stopped : s.stopped = t.stopped

section Copied

variable [Field K] [LinearOrder K] [ExpOps K] [TopK K] [NeZero B] [NeZero V]
  {args : GenerateArgs V K} {promptLength n : Nat}
  {rowRead : (Fin (n + 1) → Block B V) → Logits B V K}
  {read : ReadWindow N B V n K} {readAlone : ReadWindow 1 B V n K}

theorem Copies.step {s : DenoiseState N B V} {t : DenoiseState 1 B V} (copies : Copies s t)
    (r : Fin N) (hread : ∀ x i, read x i = rowRead (x i))
    (hreadAlone : ∀ x, readAlone x 0 = rowRead (x 0)) :
    Copies (denoiseStep args promptLength n read s)
      (denoiseStep args promptLength n readAlone t) := by
  have hmask := copies.anyMask r args n
  have hpost : s.nextPostSteps args n = t.nextPostSteps args n := by
    rw [DenoiseState.nextPostSteps, DenoiseState.nextPostSteps, copies.postSteps]
    exact if_congr hmask rfl rfl
  by_cases hexhausted : args.maxPostSteps < t.nextPostSteps args n
  · rw [denoiseStep_of_exhausted hexhausted, denoiseStep_of_exhausted (hpost ▸ hexhausted)]
    exact ⟨copies.x, hpost, rfl⟩
  · have hpred : ∀ i, rowPrediction args n (read (fun i => window (s.x i) n) i) (s.x i) =
        rowPrediction args n (rowRead (window (t.x 0) n)) (t.x 0) := by
      intro i
      rw [hread, copies.x]
    have hpredAlone : ∀ i : Fin 1,
        rowPrediction args n (readAlone (fun i => window (t.x i) n) i) (t.x i) =
          rowPrediction args n (rowRead (window (t.x 0) n)) (t.x 0) := by
      intro i
      rw [Fin.fin_one_eq_zero i, hreadAlone]
    rw [denoiseStep_of_within hexhausted hpredAlone,
      denoiseStep_of_within (hpost ▸ hexhausted) hpred]
    refine ⟨fun i => ?_, hpost, ?_⟩
    · simp only [copies.x]
    · rw [decide_eq_decide, hmask]
      refine and_congr_right (fun _ => ?_)
      constructor
      · intro hquiet i
        have hrow := hquiet r
        rw [Fin.fin_one_eq_zero i]
        rwa [copies.x r] at hrow
      · intro hquiet i
        rw [copies.x i]
        exact hquiet 0

theorem denoiseBlock_of_copies {x : Fin N → Tokens B V} {y : Fin 1 → Tokens B V}
    (hcopies : ∀ i, x i = y 0) (r : Fin N) (hread : ∀ x i, read x i = rowRead (x i))
    (hreadAlone : ∀ x, readAlone x 0 = rowRead (x 0)) (i : Fin N) :
    (denoiseBlock args promptLength n read x).x i =
      (denoiseBlock args promptLength n readAlone y).x 0 := by
  refine Copies.x (boundedLoop_related Copies ?_ ?_ ?_ args.effectiveSteps ?_) i
  · intro s t copies hs
    rw [← copies.stopped, hs]
  · intro s t copies _ _
    exact copies.step r hread hreadAlone
  · intro s t copies hs ht
    rw [copies.stopped, ht] at hs
    exact Bool.noConfusion hs
  · exact ⟨hcopies, rfl, rfl⟩

variable {row : RowBackend ρ B V K} {backend : Backend σ N B V K} {view : σ → Fin N → ρ}
  {single : Backend τ 1 B V K} {viewAlone : τ → Fin 1 → ρ}

omit [Field K] [LinearOrder K] [ExpOps K] [TopK K] [NeZero V] in
theorem eosReached_of_copies {x : Fin N → Tokens B V} {y : Fin 1 → Tokens B V}
    (hcopies : ∀ i, x i = y 0) (r : Fin N) (windowEnd : Nat) :
    eosReached args promptLength windowEnd x = eosReached args promptLength windowEnd y := by
  have : Nonempty (Fin N) := ⟨r⟩
  rw [Bool.eq_iff_iff, eosReached_iff, eosReached_iff]
  simp only [hcopies, Fin.forall_fin_one, Fin.exists_fin_one, exists_const, forall_const]

theorem CopiedRun.generateBlock {s : GenerateState σ N B V} {t : GenerateState τ 1 B V}
    (copied : CopiedRun view viewAlone s t) (r : Fin N)
    (hbatch : RowIndependent row backend view)
    (hsingle : RowIndependent row single viewAlone) :
    CopiedRun view viewAlone (generateBlock args backend promptLength s)
      (generateBlock args single promptLength t) := by
  obtain ⟨x, cache, n, stopped⟩ := s
  obtain ⟨y, cacheAlone, m, stoppedAlone⟩ := t
  obtain ⟨hx, hcache, hn, -⟩ := copied
  dsimp only at hx hcache hn
  subst hn
  have hblock : ∀ i, (denoiseBlock args promptLength n (backend.read cache n) x).x i =
      (denoiseBlock args promptLength n (single.read cacheAlone n) y).x 0 :=
    denoiseBlock_of_copies hx r (fun w i => (hbatch.read cache n w i).trans (by rw [hcache i]))
      (fun w => hsingle.read cacheAlone n w 0)
  refine ⟨hblock, fun i => ?_, rfl, eosReached_of_copies hblock r _⟩
  change view (backend.commit cache n fun i => (denoiseBlock args promptLength n _ x).x i n) i =
    viewAlone (single.commit cacheAlone n
      fun i => (denoiseBlock args promptLength n _ y).x i n) 0
  rw [hbatch.commit, hsingle.commit, hcache i, hblock i]

/-- Rows with one prompt are the same row several times over. -/
theorem generateWith_of_same_prompt (hbatch : RowIndependent row backend view)
    (hsingle : RowIndependent row single viewAlone) {prompt : Fin N → Fin P → Fin V}
    (hsame : ∀ i j, prompt i = prompt j) (r : Fin N) :
    generateWith args backend prompt r = generateWith args single (fun _ => prompt r) 0 := by
  have hinit : CopiedRun view viewAlone (initialState args backend prompt)
      (initialState args single (fun _ => prompt r)) := by
    refine ⟨fun i => congrArg (initialTokens args.maskId) (hsame i r), fun i => ?_, rfl, rfl⟩
    change view (backend.prefill _ (P / B)) i = viewAlone (single.prefill _ (P / B)) 0
    rw [hbatch.prefill hsingle _ i, hsame i r]
  have hend : CopiedRun view viewAlone (generateTokens args backend prompt)
      (generateTokens args single (fun _ => prompt r)) := by
    refine boundedLoop_related (CopiedRun view viewAlone) ?_ ?_ ?_ _ hinit
    · intro s t copied hs
      rw [← copied.stopped, hs]
    · intro s t copied _ _
      exact copied.generateBlock r hbatch hsingle
    · intro s t copied hs ht
      rw [copied.stopped, ht] at hs
      exact Bool.noConfusion hs
  rw [generateWith, generateWith, hend.x r]

end Copied

/-! Arguments under which the rows do not disturb each other. -/

section Own

variable [Field K] [LinearOrder K] [ExpOps K] [NeZero V]

/-- Some logits are confident enough for an edit. -/
def CanEdit (args : GenerateArgs V K) : Prop :=
  ∃ row : Fin V → K,
    args.editingThreshold < (((softmax row (argmax row) : K) : WithTop K) : Conf K)

/-- No row is edited in more post-edit steps than it takes alone. -/
def OwnEdits (args : GenerateArgs V K) : Prop :=
  ¬ CanEdit args ∨ args.maxPostSteps < 0 ∨ (args.effectiveSteps : Int) ≤ args.maxPostSteps + 1

/-- No row is stopped by the EOS of another one: nothing is generated, there is no block after
the first one, or there is no stop. -/
def OwnStops (B : Nat) (args : GenerateArgs V K) (promptLength : Nat) : Prop :=
  args.maxPostSteps < 0 ∨ args.effectiveSteps = 0 ∨
    numBlocks args promptLength B ≤ promptLength / B + 1 ∨ args.eosEarlyStop = false ∨
    ∀ eosId ∈ args.eosId, eosId = args.maskId

variable [NeZero B] {args : GenerateArgs V K} {promptLength n : Nat}

theorem editingTransferIndex_of_not_canEdit (hnot : ¬ CanEdit args) (logits : Logits B V K)
    (x : Tokens B V) (old : Block B V) :
    editingTransferIndex args promptLength n (rowPrediction args n logits x) old = ∅ := by
  refine Finset.eq_empty_of_forall_notMem (fun j hedit => hnot ?_)
  exact ⟨_, (mem_editingTransferIndex.mp hedit).2.2.1⟩

variable [TopK K]

/-- A block that starts with a mask in every row takes each row through at most as many steps
without a mask as it takes steps after the first one. -/
theorem OwnEdits.throughout (hown : OwnEdits args) (read : ReadWindow N B V n K)
    {x : Fin N → Tokens B V} (hmasks : ∀ r, (maskIndex args.maskId (x r n)).Nonempty) :
    Throughout (fun w : Watched N B V => w.state.stopped)
      (watchStep args promptLength n read) (EditsWithinBudget args promptLength n read)
      args.effectiveSteps ⟨⟨x, 0, false⟩, fun _ => 0⟩ := by
  rcases hown with hnot | hnegative | hshort
  · refine throughout_of_forall (fun w _ r _ _ => ?_) _ _
    exact editingTransferIndex_of_not_canEdit hnot _ _ _
  · refine throughout_of_forall (fun w hle => ?_) _ _
    omega
  · refine throughout_counted (fun k w => ∀ r, w.nextRowPostSteps args n r ≤ k) ?_ ?_
      (Nat.zero_add _) ?_
    · intro k w hcount _ r
      have hnow : (watchStep args promptLength n read w).rowPostSteps r ≤ k := hcount r
      rw [Watched.nextRowPostSteps]
      split_ifs <;> omega
    · intro k w hk hcount _ r _ hover
      have hnow := hcount r
      omega
    · intro r
      exact (if_pos (hmasks r)).le

end Own

/-- After `k` blocks the later ones are as they were. -/
structure Generated (args : GenerateArgs V K) (prompt : Fin N → Fin P → Fin V) (k : Nat)
    (s : GenerateState σ N B V) : Prop where
  numBlock : s.numBlock = P / B + k
  ahead : ∀ r m, s.numBlock ≤ m → s.x r m = initialTokens args.maskId (prompt r) m

section Generated

variable [Field K] [LinearOrder K] [ExpOps K] [TopK K] [NeZero B] [NeZero V]
  {args : GenerateArgs V K} {backend : Backend σ N B V K} {prompt : Fin N → Fin P → Fin V}
  {k : Nat} {s : GenerateState σ N B V}

variable (args backend prompt) in
omit [LinearOrder K] [Field K] [ExpOps K] [TopK K] [NeZero B] [NeZero V] in
theorem Generated.initial : Generated args prompt 0 (initialState args backend prompt) :=
  ⟨rfl, fun _ _ _ => rfl⟩

theorem Generated.generateBlock (generated : Generated args prompt k s) :
    Generated args prompt (k + 1) (generateBlock args backend P s) where
  numBlock := congrArg Nat.succ generated.numBlock
  ahead r m hm := by
    have hlater : s.numBlock < m := hm
    change (denoiseBlock args P s.numBlock _ s.x).x r m = _
    rw [denoiseBlock_of_ne _ s.x r hlater.ne']
    exact generated.ahead r m hlater.le

omit [Field K] [LinearOrder K] [ExpOps K] [TopK K] [NeZero V] in
theorem Generated.firstPosition_mem (generated : Generated args prompt k s) (r : Fin N) :
    Fin.ofNat B (firstPosition P B s.numBlock) ∈ maskIndex args.maskId (s.x r s.numBlock) := by
  rw [generated.ahead r _ le_rfl]
  exact firstPosition_mem_maskIndex (generated.numBlock ▸ Nat.le_add_right _ k)

/-- A block that no step changes keeps its masks, so that no EOS stops the batch there. -/
theorem Generated.not_stopped (generated : Generated args prompt k s) (r : Fin N)
    (hkept : (Generate.generateBlock args backend P s).x r = s.x r) :
    (Generate.generateBlock args backend P s).stopped = false := by
  rw [Bool.eq_false_iff]
  intro hstopped
  obtain ⟨-, hclear, -⟩ := eosReached_iff.mp hstopped
  refine hclear r ?_
  have hmask := mem_maskIndex.mp (generated.firstPosition_mem r)
  have hblock : firstPosition P B s.numBlock / B = s.numBlock :=
    firstPosition_div (generated.numBlock ▸ Nat.le_add_right _ k)
  have htoken : tokenAt (s.x r) (firstPosition P B s.numBlock) = args.maskId := by
    rw [tokenAt, hblock]
    exact hmask
  change args.maskId ∈ slice ((Generate.generateBlock args backend P s).x r) _ _
  rw [hkept, ← htoken]
  refine List.mem_map_of_mem (List.mem_range'_1.mpr ⟨le_firstPosition _, ?_⟩)
  have hlt : firstPosition P B s.numBlock < (s.numBlock + 1) * B :=
    (Nat.div_lt_iff_lt_mul (NeZero.pos B)).mp (hblock.trans_lt (Nat.lt_succ_self _))
  have hle := le_firstPosition (P := P) (B := B) s.numBlock
  omega

theorem UndisturbedRun.of_own (hedits : OwnEdits args) (hstops : OwnStops B args P) :
    UndisturbedRun args backend prompt := by
  refine throughout_counted (Generated args prompt)
    (fun _ _ generated _ => generated.generateBlock) ?_ (Nat.zero_add _)
    (.initial args backend prompt)
  intro k s hk generated
  refine ⟨hedits.throughout _ (fun r => ⟨_, generated.firstPosition_mem r⟩), fun hstopped => ?_⟩
  obtain ⟨hearly, hclear, eosId, hid, r, heos⟩ := eosReached_iff.mp hstopped
  have hchanged : (generateBlock args backend P s).x r ≠ s.x r := fun hkept =>
    Bool.noConfusion (hstopped.symm.trans (generated.not_stopped r hkept))
  rcases hstops with hnegative | hzero | hone | hnever | hmask
  · exact absurd (congrFun (denoiseBlock_of_negative hnegative s.x) r) hchanged
  · refine absurd ?_ hchanged
    change (denoiseBlock args P s.numBlock _ s.x).x r = s.x r
    rw [denoiseBlock, hzero]
    rfl
  · have hnum := generated.numBlock
    exact Or.inl (by omega)
  · exact Bool.noConfusion (hearly.symm.trans hnever)
  · exact absurd (hmask eosId hid ▸ heos) (hclear r)

end Generated

/-- Whatever the row-wise model, the threshold and the repetition penalty, every row of the
batch is returned what it is returned alone. -/
def RowsAlone (B : Nat) [Field K] [LinearOrder K] [ExpOps K] [TopK K] [NeZero B] [NeZero V]
    (args : GenerateArgs V K) (useKvCache : Bool) (prompt : Fin N → Fin P → Fin V) : Prop :=
  ∀ (ρ : Type) (Cache : Nat → Type) (model : LanguageModel Cache B V K)
    (rowForward : (numBlock : Nat) → (Fin (numBlock + 1) → Block B V) → Logits B V K)
    (rowCache : RowCache ρ B V K) (view : (N : Nat) → Cache N → Fin N → ρ)
    (threshold : Conf K) (repetitionPenalty : K) (r : Fin N),
    model.Rowwise rowForward rowCache view →
    model.generate { args with threshold, repetitionPenalty } useKvCache prompt r =
      model.generate { args with threshold, repetitionPenalty } useKvCache
        (fun _ => prompt r) onlyRow

section Sufficient

variable [Field K] [LinearOrder K] [ExpOps K] [TopK K] [NeZero B] [NeZero V]
  {args : GenerateArgs V K} {prompt : Fin N → Fin P → Fin V}

theorem rowsAlone_of_same_prompt (useKvCache : Bool) (hsame : ∀ i j, prompt i = prompt j) :
    RowsAlone B args useKvCache prompt := by
  intro ρ Cache model rowForward rowCache view threshold repetitionPenalty r hmodel
  cases useKvCache with
  | false => exact generateWith_of_same_prompt (hmodel.uncached N) (hmodel.uncached 1) hsame r
  | true => exact generateWith_of_same_prompt (hmodel.cached N) (hmodel.cached 1) hsame r

theorem rowsAlone_of_own (useKvCache : Bool) (hedits : OwnEdits args)
    (hstops : OwnStops B args P) : RowsAlone B args useKvCache prompt := by
  intro ρ Cache model rowForward rowCache view threshold repetitionPenalty r hmodel
  have hrun : ∀ {σ : Type} (backend : Backend σ N B V K),
      UndisturbedRun { args with threshold, repetitionPenalty } backend prompt :=
    fun _ => .of_own hedits hstops
  cases useKvCache with
  | false =>
      exact generateWith_row_eq_alone (hmodel.uncached N) (hmodel.uncached 1) prompt (hrun _) r
  | true => exact generateWith_row_eq_alone (hmodel.cached N) (hmodel.cached 1) prompt (hrun _) r

end Sufficient

end LladaHybrid.Generate
