import LladaHybrid.Generate.BlockDecoders
import LladaHybrid.Generate.EarlyStop
import LladaHybrid.Model.CachedGeneration
import LladaHybrid.Serving.ServedTransformer
import LladaHybrid.Serving.SoloDecoding

namespace LladaHybrid.Serving

open LladaHybrid.Library LladaHybrid.Decode LladaHybrid.Generate LladaHybrid.Attention
  LladaHybrid.Model

/-! The server beside the reference implementation: with the transformer as its network it
gives a request the tokens that `generate` gives its prompt. -/

variable {X K : Type} {D F V B P : Nat}

/-! The slots and the KV rows that the served blocks leave are a prefix cache of those
blocks. -/

section Layers

variable [Field K] [LinearOrder K] [ExpOps K] [Add X] {S : Nat} [NeZero S]

/-- Two caches for one sequence give a third, when they do layer by layer. -/
theorem layersHeld_combine {n n' m layerIdx : Nat} {layers : List (DecoderLayer X D F K)}
    {hidden : Nat → X} {cache cache' result : BlockDiffusionCache D F K}
    (held : LayersHeld S n cache layerIdx layers hidden)
    (held' : LayersHeld S n' cache' layerIdx layers hidden)
    (hlayer : ∀ i layer states, layers[i]? = some layer →
      LayerHeld layer S states n (layerIdx + i) cache →
      LayerHeld layer S states n' (layerIdx + i) cache' →
      LayerHeld layer S states m (layerIdx + i) result) :
    LayersHeld S m result layerIdx layers hidden := by
  induction layers generalizing layerIdx hidden with
  | nil => trivial
  | cons layer layers ih =>
      refine ⟨hlayer 0 layer _ rfl held.1 held'.1, ih held.2 held'.2 ?_⟩
      intro i other states hother
      rw [Nat.add_assoc, Nat.add_comm 1 i]
      exact hlayer (i + 1) other states hother

end Layers

section Context

def committedBlocks (x : Tokens B V) (n : Nat) : List (Block B V) := (List.range n).map x

theorem committedBlocks_succ (x : Tokens B V) (n : Nat) :
    committedBlocks x (n + 1) = committedBlocks x n ++ [x n] := by
  rw [committedBlocks, List.range_succ, List.map_append, List.map_singleton]
  rfl

theorem length_committedBlocks (x : Tokens B V) (n : Nat) : (committedBlocks x n).length = n := by
  rw [committedBlocks, List.length_map, List.length_range]

variable {model : Transformer X D F V K}

theorem hybridParams_eq {layerIdx : Nat} {layer : DecoderLayer X D F K}
    (hlayer : model.layers[layerIdx]? = some layer) :
    hybridParams model layerIdx = layer.linearAttention := by
  rw [hybridParams, hlayer, Option.bind_some]

variable [Field K]

theorem cacheOf_recurrentState {layerIdx : Nat} (hybrid : (hybridParams model layerIdx).isSome)
    (state : HybridLayer model → HeadStates D F K × HeadSums F K) (rows : List (KvRow D K)) :
    (cacheOf model state rows).recurrentState layerIdx =
      some (fun h => ⟨(state ⟨layerIdx, hybrid⟩).1 h, (state ⟨layerIdx, hybrid⟩).2 h⟩) :=
  dif_pos hybrid

variable [LinearOrder K] [ExpOps K] [Add X] [NeZero B]

theorem commitBlock_state (context : ServedModel.Context (HybridLayer model) (HeadStates D F K)
      (HeadSums F K) (KvRow D K)) (block : Block B V) (layerIdx : HybridLayer model) :
    ((servedTransformer model).commitBlock context block).state layerIdx =
      statesOf (committedCache model context.state context.rows block) layerIdx :=
  add_sub_cancel (context.state layerIdx) _

theorem commitBlock_rows (context : ServedModel.Context (HybridLayer model) (HeadStates D F K)
      (HeadSums F K) (KvRow D K)) (block : Block B V) :
    ((servedTransformer model).commitBlock context block).rows = context.rows ++
      List.ofFn (fun j : Fin B => rowOf (committedCache model context.state context.rows block)
        (context.rows.length + j)) := rfl

theorem commitBlock_row_past {context : ServedModel.Context (HybridLayer model)
      (HeadStates D F K) (HeadSums F K) (KvRow D K)} (block : Block B V) {t : Nat}
    (ht : t < context.rows.length) :
    ((servedTransformer model).commitBlock context block).rows.getD t 0 =
      context.rows.getD t 0 := by
  rw [commitBlock_rows, List.getD_append _ _ _ _ ht]

theorem commitBlock_row_new {context : ServedModel.Context (HybridLayer model)
      (HeadStates D F K) (HeadSums F K) (KvRow D K)} (block : Block B V) {t : Nat}
    (hpast : context.rows.length ≤ t) (ht : t < context.rows.length + B) :
    ((servedTransformer model).commitBlock context block).rows.getD t 0 =
      rowOf (committedCache model context.state context.rows block) t := by
  have hlt : t - context.rows.length < B := by omega
  rw [commitBlock_rows, List.getD_append_right _ _ _ _ hpast,
    List.getD_eq_getElem _ _ (by rwa [List.length_ofFn]), List.getElem_ofFn,
    Nat.add_sub_of_le hpast]

theorem layerHeld_commitBlock {n layerIdx : Nat} {layer : DecoderLayer X D F K}
    {states : Nat → QkvStates D K}
    {context : ServedModel.Context (HybridLayer model) (HeadStates D F K) (HeadSums F K)
      (KvRow D K)} {block : Block B V}
    (hlayer : model.layers[layerIdx]? = some layer) (hrows : context.rows.length = n * B)
    (held : LayerHeld layer B states n layerIdx (cacheOf model context.state context.rows))
    (committed : LayerHeld layer B states (n + 1) layerIdx
      (committedCache model context.state context.rows block)) :
    LayerHeld layer B states (n + 1) layerIdx
      (cacheOf model ((servedTransformer model).commitBlock context block).state
        ((servedTransformer model).commitBlock context block).rows) := by
  unfold LayerHeld at held committed ⊢
  have hparams := hybridParams_eq hlayer
  cases hlinear : layer.linearAttention with
  | some params =>
      rw [hlinear] at committed hparams
      have hybrid : (hybridParams model layerIdx).isSome := by
        rw [hparams]
        rfl
      dsimp only at committed
      rw [cacheOf_recurrentState hybrid, commitBlock_state, statesOf, committed]
  | none =>
      rw [hlinear] at held committed
      obtain ⟨-, hold⟩ := held
      rw [RowsHeld.eq_def] at committed
      cases hkv : (committedCache model context.state context.rows block).kvCache layerIdx with
      | none =>
          rw [hkv] at committed
          have hpos := NeZero.pos B
          exact absurd committed (by positivity)
      | some kv =>
          rw [hkv] at committed
          obtain ⟨-, hnew⟩ := committed
          refine ⟨?_, fun t ht => ?_⟩
          · rw [commitBlock_rows, List.length_append, List.length_ofFn, hrows, Nat.succ_mul]
          · dsimp only
            by_cases hpast : t < n * B
            · rw [commitBlock_row_past block (by rwa [hrows])]
              exact hold t hpast
            · rw [commitBlock_row_new block (by omega) (by rw [hrows, ← Nat.succ_mul]; exact ht)]
              simp only [rowOf, hkv]
              exact hnew t ht

variable (model)

theorem length_replay_rows (blocks : List (Block B V)) :
    ((servedTransformer model).replay blocks).rows.length = blocks.length * B := by
  induction blocks using List.reverseRecOn with
  | nil => exact (Nat.zero_mul B).symm
  | append_singleton blocks block ih =>
      rw [ServedModel.replay_concat, commitBlock_rows, List.length_append, List.length_ofFn, ih,
        List.length_append, List.length_singleton, Nat.succ_mul]

/-- The context of a request stands for the blocks it was served. -/
theorem cacheHolds_replay (x : Tokens B V) (n : Nat) :
    model.CacheHolds x n
      (cacheOf model ((servedTransformer model).replay (committedBlocks x n)).state
        ((servedTransformer model).replay (committedBlocks x n)).rows) := by
  induction n with
  | zero =>
      refine layersHeld_combine (model.cacheHolds_initPrefixCache x)
        (model.cacheHolds_initPrefixCache x) ?_
      intro i layer states hlayer held _
      rw [Nat.zero_add] at held ⊢
      unfold LayerHeld at held ⊢
      have hparams := hybridParams_eq hlayer
      cases hlinear : layer.linearAttention with
      | some params =>
          rw [hlinear] at hparams
          exact cacheOf_recurrentState (by rw [hparams]; rfl) _ _
      | none => exact ⟨(Nat.zero_mul B).symm, fun t ht => absurd ht (by omega)⟩
  | succ n ih =>
      have hrows := length_replay_rows model (committedBlocks x n)
      rw [length_committedBlocks] at hrows
      have hindex : ((servedTransformer model).replay (committedBlocks x n)).rows.length / B =
          n := by
        rw [hrows, Nat.mul_div_cancel _ (NeZero.pos B)]
      have hcommit := ih.forwardBlock_commit
      rw [committedBlocks_succ, ServedModel.replay_concat]
      refine layersHeld_combine ih hcommit ?_
      intro i layer states hlayer held committed
      rw [Nat.zero_add] at held committed ⊢
      refine layerHeld_commitBlock hlayer hrows held ?_
      rw [committedCache, hindex]
      exact committed

end Context

/-! The canvas of `generate`, read as the tokens of a request. -/

section Canvas

variable [NeZero B]

theorem tokenAt_initialTokens (maskId : Fin V) (prompt : Fin P → Fin V) {p : Nat} (hp : p < P) :
    tokenAt (B := B) (initialTokens maskId prompt) p = prompt ⟨p, hp⟩ := by
  have hposition : p / B * B + (Fin.ofNat B p : Nat) = p := Nat.div_add_mod' p B
  rw [tokenAt, initialTokens, dif_pos (hposition.trans_lt hp)]
  exact congrArg prompt (Fin.ext hposition)

theorem drop_slice (x : Tokens B V) (start stop k : Nat) :
    (slice x start stop).drop k = slice x (start + k) stop := by
  rw [slice, slice, ← List.map_drop, List.drop_range', Nat.mul_one, Nat.sub_sub]

theorem slice_block (x : Tokens B V) (n : Nat) :
    slice x (n * B) ((n + 1) * B) = List.ofFn (x n) := by
  have hlength : (n + 1) * B - n * B = B := by rw [Nat.succ_mul, Nat.add_sub_cancel_left]
  rw [slice, hlength]
  apply List.ext_getElem
  · rw [List.length_map, List.length_range', List.length_ofFn]
  · intro j hj hj'
    rw [List.length_ofFn] at hj'
    rw [List.getElem_map, List.getElem_range', List.getElem_ofFn, Nat.one_mul,
      ← Transformer.block_eq_tokenAt x n hj']
    exact congrArg (x n) (Fin.ext (Nat.mod_eq_of_lt hj'))

theorem take_slice (x : Tokens B V) {start middle stop : Nat} (hstart : start ≤ middle)
    (hmiddle : middle ≤ stop) :
    (slice x start stop).take (middle - start) = slice x start middle := by
  rw [slice_append x hstart hmiddle, List.take_left']
  exact length_slice x start middle

omit [NeZero B] in
theorem blockOf_drop (maskId : Fin V) (prompt : List (Fin V)) (n : Nat) :
    blockOf (B := B) maskId (prompt.drop (n * B)) = initialTokens maskId prompt.get n := by
  funext j
  rw [blockOf, initialTokens, List.getD_eq_getElem?_getD, List.getElem?_drop]
  split_ifs with hj
  · rw [List.getElem?_eq_getElem hj]
    rfl
  · rw [List.getElem?_eq_none (Nat.not_lt.mp hj)]
    rfl

/-- The blocks that are not decoded yet hold the prompt and masks. -/
def Ahead (maskId : Fin V) (prompt : List (Fin V)) (n : Nat) (x : Tokens B V) : Prop :=
  ∀ m, n ≤ m → x m = initialTokens maskId prompt.get m

theorem Ahead.slice_eq {maskId : Fin V} {prompt : List (Fin V)} {n : Nat} {x : Tokens B V}
    (ahead : Ahead maskId prompt n x) :
    slice x (n * B) (max prompt.length (n * B)) = prompt.drop (n * B) := by
  apply List.ext_getElem
  · rw [length_slice, List.length_drop]
    omega
  · intro i hi hi'
    rw [List.length_drop] at hi'
    have hin : n * B + i < prompt.length := by omega
    have hblock : n ≤ (n * B + i) / B :=
      (Nat.le_div_iff_mul_le (NeZero.pos B)).mpr (Nat.le_add_right _ i)
    simp only [slice, List.getElem_map, List.getElem_range', Nat.one_mul, List.getElem_drop]
    rw [tokenAt, ahead _ hblock]
    exact tokenAt_initialTokens maskId prompt.get hin

omit [NeZero B] in
theorem Ahead.update {maskId : Fin V} {prompt : List (Fin V)} {n : Nat} {x : Tokens B V}
    (ahead : Ahead maskId prompt n x) (final : Block B V) :
    Ahead maskId prompt (n + 1) (Function.update x n final) := by
  intro m hm
  rw [Function.update_of_ne (by omega), ahead m (by omega)]

/-- A decoded block takes its place behind the tokens before it and, while the prompt is
longer, before the rest of the prompt. -/
theorem Ahead.append_next {maskId : Fin V} {prompt next : List (Fin V)} {n : Nat}
    {x : Tokens B V} {final : Block B V} (ahead : Ahead maskId prompt n x)
    (hprompt : maskId ∉ prompt)
    (hkept : ∀ j, x n j ≠ maskId → final j = x n j)
    (hnext : next = (List.ofFn final).drop (B - (maskIndex maskId (x n)).card)) :
    slice x 0 (max prompt.length (n * B)) ++ next =
      slice (Function.update x n final) 0 (max prompt.length ((n + 1) * B)) := by
  have hmiddle : n * B ≤ max prompt.length (n * B) := le_max_right _ _
  have hend : (n + 1) * B ≤ max prompt.length ((n + 1) * B) := le_max_right _ _
  have hblock : n * B ≤ (n + 1) * B := Nat.mul_le_mul_right B (Nat.le_succ n)
  have hdrop : (slice x 0 (max prompt.length (n * B))).drop (n * B) = prompt.drop (n * B) := by
    rw [drop_slice, Nat.zero_add, ahead.slice_eq]
  have hold : blockOf maskId ((slice x 0 (max prompt.length (n * B))).drop (n * B)) = x n := by
    rw [hdrop, blockOf_drop, ahead n le_rfl]
  have hnot : maskId ∉ (slice x 0 (max prompt.length (n * B))).drop (n * B) := by
    rw [hdrop]
    exact fun hmem => hprompt (List.mem_of_mem_drop hmem)
  have htake : (slice x 0 (max prompt.length (n * B))).take (n * B) = slice x 0 (n * B) :=
    take_slice x (Nat.zero_le _) hmiddle
  rw [append_next_of_notMem hnot (by rwa [hold]) (by rwa [hold]), htake, hdrop, List.drop_drop,
    ← Nat.succ_mul, slice_append _ (Nat.zero_le _) (hblock.trans hend),
    slice_append _ hblock hend, slice_block, Function.update_self, (ahead.update final).slice_eq,
    List.append_assoc]
  congr 1
  refine slice_congr le_rfl ?_
  intro m hm
  exact (Function.update_of_ne hm.ne _ _).symm

end Canvas

/-! A request decoded alone, beside the loops of `generate`. -/

section Decoders

variable [Field K] [LinearOrder K] [ExpOps K] [TopK K] [NeZero B] [NeZero V]

/-- The arguments with which the two decoders agree. A block gets at least the steps the
served decoder takes, and exactly these if the network may predict the mask token. -/
structure Comparable (args : GenerateArgs V K)
    (oracle : (n : Nat) → (Fin (n + 1) → Block B V) → Logits B V K) : Prop where
  numToTransfer : args.numToTransfer = 1
  repetitionPenalty : args.repetitionPenalty = 1
  maxPostSteps : 0 ≤ args.maxPostSteps
  steps : B + args.maxPostSteps ≤ args.effectiveSteps
  never : B + args.maxPostSteps = args.effectiveSteps ∨
    ∀ n w j, argmax (oracle n w j) ≠ args.maskId

theorem run_inputIds_eq_denoiseBlock {args : GenerateArgs V K}
    {oracle : (n : Nat) → (Fin (n + 1) → Block B V) → Logits B V K}
    (comparable : Comparable args oracle) {promptLength n : Nat}
    {x : Fin 1 → Tokens B V} {σ : Type} {model : ModelRunner σ 1 B V K} {runner : σ}
    {read : ReadWindow 1 B V n K} (hread : ∀ w, read w 0 = oracle n (w 0))
    (hmodel : ∀ s ids, (model.forward s ids).1.fullLogits 0 =
      oracle n (window (Function.update (x 0) n (ids 0)) n))
    (hprompt : ∀ j, j ∈ promptMaskInBlock promptLength n ↔ x 0 n j ≠ args.maskId)
    {res : RunResult σ 1 B V K}
    (hres : args.jointThreshold.run model runner (fun _ => x 0 n) = some res) :
    res.inputIds 0 = (denoiseBlock args promptLength n read x).x 0 n := by
  obtain ⟨hone, hpenalty, hnonneg, hsteps, hnever⟩ := comparable
  have hread' : ∀ block, read (fun _ => window (Function.update (x 0) n block) n) 0 =
      oracle n (window (Function.update (x 0) n block) n) := fun _ => hread _
  have hbound : args.jointThreshold.maxIterations B = (B + args.maxPostSteps).toNat := rfl
  have hlockstep := denoise_lockstep hone hpenalty hnonneg hread' hmodel hprompt runner
  have hblock : (boundedLoop DenoiseState.stopped (denoiseStep args promptLength n read)
      args.effectiveSteps ⟨x, 0, false⟩).x 0 n =
      (boundedLoop DenoiseState.stopped (denoiseStep args promptLength n read)
        (args.jointThreshold.maxIterations B) ⟨x, 0, false⟩).x 0 n := by
    rcases hnever with hequal | hnever
    · rw [hbound, hequal, Int.toNat_natCast]
    · have hwork : remainingWork args n ⟨x, 0, false⟩ ≤
          args.jointThreshold.maxIterations B := by
        have hcard := Finset.card_le_univ (maskIndex args.maskId (x 0 n))
        rw [Fintype.card_fin] at hcard
        simp only [remainingWork, onlyRow, hbound]
        omega
      exact denoiseBlock_bound_irrelevant hone hpenalty hread' (fun _ => hnever n _)
        (lockstep_initial hnonneg hprompt) (hwork.trans (by rw [hbound]; omega)) hwork
  rw [JointThreshold.run_inputIds hres, denoiseBlock, hblock, hlockstep.tokens]
  exact (Function.update_self n _ (x 0)).symm

end Decoders

section Generated

variable [Field K] [LinearOrder K] [ExpOps K] [TopK K] [Add X] [NeZero B] [NeZero V]
  {model : Transformer X D F V K} {args : GenerateArgs V K} {prompt : List (Fin V)} {n : Nat}
  {x : Tokens B V}

omit [TopK K] [NeZero V] in
theorem aloneRunner_logits (x : Tokens B V) (n : Nat) (ids : Fin 1 → Block B V) :
    (((servedTransformer model).aloneRunner (committedBlocks x n)).forward () ids).1.fullLogits
        0 =
      model.forwardWindow B n (window (Function.update x n (ids 0)) n) := by
  have hrows : ((servedTransformer model).replay (committedBlocks x n)).rows.length / B = n := by
    rw [length_replay_rows, length_committedBlocks, Nat.mul_div_cancel _ (NeZero.pos B)]
  have holds : model.CacheHolds (Function.update x n (ids 0)) n _ :=
    (cacheHolds_replay model x n).congr
      (fun m hm => (Function.update_of_ne hm.ne (ids 0) x).symm)
  have hread := holds.forwardBlock_read
  rw [Function.update_self] at hread
  refine Eq.trans ?_ hread
  change (model.forwardBlock B .read _ (List.length _ / B) (ids 0)).1 = _
  rw [hrows]

/-- After `n` blocks the request has the tokens and the blocks of the canvas `x`. -/
structure Generated (model : Transformer X D F V K) (args : GenerateArgs V K)
    (prompt : List (Fin V)) (n : Nat) (x : Tokens B V) : Prop where
  decoded : decodeAlone (.jointThreshold args.jointThreshold) (servedTransformer model) prompt n =
    some ⟨slice x 0 (max prompt.length (n * B)), committedBlocks x n⟩
  ahead : Ahead args.maskId prompt n x

theorem Generated.initial (model : Transformer X D F V K) (args : GenerateArgs V K)
    (prompt : List (Fin V)) :
    Generated model args prompt 0 (initialTokens (B := B) args.maskId prompt.get) := by
  have hahead : Ahead args.maskId prompt 0 (initialTokens (B := B) args.maskId prompt.get) :=
    fun _ _ => rfl
  refine ⟨?_, hahead⟩
  have hprompt := hahead.slice_eq
  rw [Nat.zero_mul, List.drop_zero] at hprompt
  rw [Nat.zero_mul, hprompt]
  rfl

theorem Generated.block (generated : Generated model args prompt n x) :
    blockOf args.maskId ((slice x 0 (max prompt.length (n * B))).drop
      (B * (committedBlocks x n).length)) = x n := by
  rw [length_committedBlocks, Nat.mul_comm B n, drop_slice, Nat.zero_add,
    generated.ahead.slice_eq, blockOf_drop, generated.ahead n le_rfl]

theorem Generated.decodeBlock (generated : Generated model args prompt n x)
    (hprompt : args.maskId ∉ prompt) {res : RunResult Unit 1 B V K}
    (hres : args.jointThreshold.run
      ((servedTransformer model).aloneRunner (committedBlocks x n)) () (fun _ => x n) =
      some res) :
    Generated model args prompt (n + 1) (Function.update x n (res.inputIds 0)) := by
  have hfills := JointThreshold.run_fillsMasks hres
  refine ⟨?_, generated.ahead.update _⟩
  have hblocks : committedBlocks (Function.update x n (res.inputIds 0)) (n + 1) =
      committedBlocks x n ++ [res.inputIds 0] := by
    rw [committedBlocks_succ, Function.update_self]
    congr 1
    refine List.map_congr_left (fun m hm => ?_)
    exact Function.update_of_ne (List.mem_range.mp hm).ne _ _
  rw [hblocks, ← generated.ahead.append_next hprompt (hfills.kept 0) (hfills.next 0)]
  refine Option.bind_eq_some_iff.mpr ⟨_, generated.decoded, ?_⟩
  refine Option.map_eq_some_iff.mpr ⟨res, ?_, rfl⟩
  refine Eq.trans ?_ hres
  change args.jointThreshold.run _ () (fun _ => blockOf args.maskId _) = _
  rw [generated.block]

/-- A block of the prompt runs without masks and is left as it is. -/
theorem Generated.prefill (generated : Generated model args prompt n x)
    (hprompt : args.maskId ∉ prompt) (hfull : (n + 1) * B ≤ prompt.length) :
    Generated model args prompt (n + 1) x := by
  have hknown : ∀ j, x n j ≠ args.maskId := by
    intro j
    have hj := j.isLt
    rw [Nat.succ_mul] at hfull
    rw [generated.ahead n le_rfl, initialTokens, dif_pos (by omega)]
    exact fun hmask => hprompt (hmask ▸ List.get_mem prompt _)
  have hnone : maskIndex args.maskId (x n) = ∅ :=
    Finset.eq_empty_of_forall_notMem (fun j hj => hknown j (mem_maskIndex.mp hj))
  obtain ⟨res, hres⟩ := Option.isSome_iff_exists.mp
    ((args.jointThreshold.run_isSome_iff
      ((servedTransformer model).aloneRunner (committedBlocks x n)) ()
      (fun _ => x n)).mpr (Or.inl (fun _ => hnone)))
  have hsame : res.inputIds 0 = x n :=
    funext (fun j => (JointThreshold.run_fillsMasks hres).kept 0 j (hknown j))
  have hnext := generated.decodeBlock hprompt hres
  rwa [hsame, Function.update_eq_self] at hnext

/-- The body of the loop of `generate` over the blocks. -/
theorem Generated.generateBlock
    (comparable : Comparable args
      (fun n (w : Fin (n + 1) → Block B V) => model.forwardWindow B n w))
    (hprompt : args.maskId ∉ prompt) {s : GenerateState Unit 1 B V}
    (generated : Generated model args prompt s.numBlock (s.x 0)) :
    Generated model args prompt (s.numBlock + 1)
      ((generateBlock args ((model.languageModel B B).uncached 1) prompt.length s).x 0) := by
  have hmask : ∀ j, j ∈ promptMaskInBlock prompt.length s.numBlock ↔
      s.x 0 s.numBlock j ≠ args.maskId := by
    intro j
    rw [mem_promptMaskInBlock, generated.ahead _ le_rfl, initialTokens]
    split_ifs with hj
    · refine iff_of_true (by omega) ?_
      exact fun hmask => hprompt (hmask ▸ List.get_mem prompt _)
    · exact iff_of_false (by omega) (fun hne => hne rfl)
  have hpos := NeZero.pos B
  have hmax : args.jointThreshold.maxPostEditSteps = args.maxPostSteps := rfl
  have hnonneg := comparable.maxPostSteps
  obtain ⟨res, hres⟩ := Option.isSome_iff_exists.mp
    ((args.jointThreshold.run_isSome_iff
      ((servedTransformer model).aloneRunner (committedBlocks (s.x 0) s.numBlock)) ()
      (fun _ => s.x 0 s.numBlock)).mpr (Or.inr (by omega)))
  have hread : ∀ w : Fin 1 → Fin (s.numBlock + 1) → Block B V,
      (model.languageModel B B).forward s.numBlock w 0 =
        model.forwardWindow B s.numBlock (w 0) := fun _ => rfl
  have hfinal := run_inputIds_eq_denoiseBlock comparable hread
    (fun _ ids => aloneRunner_logits (s.x 0) s.numBlock ids) hmask hres
  have hx : (Generate.generateBlock args ((model.languageModel B B).uncached 1) prompt.length
      s).x 0 = Function.update (s.x 0) s.numBlock (res.inputIds 0) := by
    funext m
    by_cases hm : m = s.numBlock
    · subst hm
      rw [Function.update_self, hfinal]
      rfl
    · rw [Function.update_of_ne hm]
      exact denoiseBlock_of_ne _ s.x 0 hm
  rw [hx]
  exact generated.decodeBlock hprompt hres

omit [Field K] [LinearOrder K] [ExpOps K] [TopK K] [NeZero V] in
theorem le_numBlocks_mul (args : GenerateArgs V K) (promptLength : Nat) :
    promptLength + args.genLength ≤ Generate.numBlocks args promptLength B * B := by
  have hpos := NeZero.pos B
  have hmod := Nat.mod_lt (promptLength + args.genLength + B - 1) hpos
  have hdiv := Nat.div_add_mod' (promptLength + args.genLength + B - 1) B
  rw [Generate.numBlocks]
  omega

/-- The loop of `generate` without the EOS test, `k` blocks after those of the prompt. -/
structure GeneratedState (model : Transformer X D F V K) (args : GenerateArgs V K)
    (prompt : List (Fin V)) (k : Nat) (s : GenerateState Unit 1 B V) : Prop where
  running : s.stopped = false
  numBlock : s.numBlock = prompt.length / B + k
  generated : Generated model args prompt s.numBlock (s.x 0)

theorem GeneratedState.step
    (comparable : Comparable args
      (fun n (w : Fin (n + 1) → Block B V) => model.forwardWindow B n w))
    (heos : args.eosEarlyStop = false) (hprompt : args.maskId ∉ prompt) {k : Nat}
    {s : GenerateState Unit 1 B V} (state : GeneratedState model args prompt k s) :
    GeneratedState model args prompt (k + 1)
      (generateBlock args ((model.languageModel B B).uncached 1) prompt.length s) where
  running := by
    rw [Bool.eq_false_iff]
    intro hreached
    have hearly := (eosReached_iff.mp hreached).1
    rw [heos] at hearly
    exact Bool.noConfusion hearly
  numBlock := congrArg (· + 1) state.numBlock
  generated := state.generated.generateBlock comparable hprompt

end Generated

end LladaHybrid.Serving
