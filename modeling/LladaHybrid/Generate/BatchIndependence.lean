import LladaHybrid.Generate.DisturbingModels

namespace LladaHybrid.Generate

open LladaHybrid.Library LladaHybrid.Decode

/-! When a batch generates each row as if it were alone, whatever the model. -/

variable {σ : Type*} {N P B V : Nat} {K : Type*}

section FirstToken

theorem head_trimmed (args : GenerateArgs V K) (gen : List (Fin V)) :
    (trimmed args gen).head? = gen.head? := by
  cases gen with
  | nil => cases heos : args.eosId <;> simp [trimmed, heos]
  | cons token rest =>
      cases heos : args.eosId with
      | none => simp [trimmed, heos]
      | some eosId =>
          simp only [trimmed, heos]
          split_ifs <;> simp

variable [Field K] [LinearOrder K] [ExpOps K] [TopK K] [NeZero B] [NeZero V]
  {args : GenerateArgs V K} {backend : Backend σ N B V K} {prompt : Fin N → Fin P → Fin V}

omit [Field K] [LinearOrder K] [ExpOps K] [TopK K] [NeZero V] in
theorem firstBlock_lt_numBlocks (hgen : 1 ≤ args.genLength) : P / B < numBlocks args P B := by
  have hpos := NeZero.pos B
  have hle : P / B + 1 ≤ (P + args.genLength + B - 1) / B := by
    rw [← Nat.add_div_right P hpos]
    exact Nat.div_le_div_right (by omega)
  exact hle

omit [Field K] [LinearOrder K] [ExpOps K] [TopK K] [NeZero V] in
theorem one_le_genLength (hsteps : 0 < args.effectiveSteps) : 1 ≤ args.genLength := by
  by_contra hnone
  have hzero : args.genLength = 0 := by omega
  rw [GenerateArgs.effectiveSteps, hzero, Nat.zero_div] at hsteps
  omega

/-- The later blocks leave the first one alone. -/
theorem generateTokens_first_block (hgen : 1 ≤ args.genLength) (r : Fin N) :
    (generateTokens args backend prompt).x r (P / B) =
      (generateBlock args backend P (initialState args backend prompt)).x r (P / B) := by
  obtain ⟨blocks, hblocks⟩ : ∃ blocks, numBlocks args P B - P / B = blocks + 1 :=
    Nat.exists_eq_succ_of_ne_zero (Nat.sub_ne_zero_of_lt (firstBlock_lt_numBlocks hgen))
  rw [generateTokens, hblocks, boundedLoop_of_not_done rfl]
  refine (boundedLoop_invariant (fun s : GenerateState σ N B V => P / B < s.numBlock ∧
    s.x r (P / B) = (generateBlock args backend P (initialState args backend prompt)).x r (P / B))
    ?_ blocks ⟨Nat.lt_succ_self _, rfl⟩).2
  rintro s ⟨hpast, hkept⟩ -
  refine ⟨Nat.lt_succ_of_lt hpast, ?_⟩
  change (denoiseBlock args P s.numBlock _ s.x).x r (P / B) = _
  rw [denoiseBlock_of_ne _ s.x r hpast.ne, hkept]

theorem head_generateWith (hgen : 1 ≤ args.genLength) (r : Fin N) :
    (generateWith args backend prompt r).head? = some
      ((generateBlock args backend P (initialState args backend prompt)).x r (P / B)
        (Fin.ofNat B P)) := by
  obtain ⟨rest, hrest⟩ := Nat.exists_eq_succ_of_ne_zero (Nat.one_le_iff_ne_zero.mp hgen)
  rw [generateWith, head_trimmed, slice, Nat.add_sub_cancel_left, hrest, List.range'_succ,
    List.map_cons, List.head?_cons, tokenAt, generateTokens_first_block hgen]

end FirstToken

section Necessary

variable [Field K] [LinearOrder K] [IsStrictOrderedRing K] [ExpOps K] [StrictExp K] [TopK K]
  [NeZero B] [NeZero V] {args : GenerateArgs V K} {useKvCache : Bool}
  {prompt : Fin N → Fin P → Fin V}

omit [Field K] [LinearOrder K] [IsStrictOrderedRing K] [ExpOps K] [StrictExp K] [TopK K]
  [NeZero B] [NeZero V] in
theorem initialTokens_of_notMem {maskId : Fin V} {row : Fin P → Fin V} {n : Nat} {j : Fin B}
    (hj : j ∉ promptMaskInBlock P n) : initialTokens maskId row n j = maskId := by
  rw [mem_promptMaskInBlock] at hj
  rw [initialTokens, dif_neg (by omega)]

omit [Field K] [LinearOrder K] [IsStrictOrderedRing K] [ExpOps K] [StrictExp K] [TopK K]
  [NeZero V] in
theorem onChain_initial {next : Fin V → Fin V} (p : Fin P) (row : Fin P → Fin V) :
    OnChain (B := B) args P (P / B) next p (row p) 0 (initialTokens args.maskId row) where
  marked := tokenAt_initialTokens p.isLt
  tokens _ hj := initialTokens_of_notMem hj
  unmasked hzero := absurd rfl hzero

/-- Rows that step through the chain are told apart by what the others keep masked. -/
theorem RowsAlone.ownEdits (halone : RowsAlone B args useKvCache prompt)
    (hV : args.maxPostSteps + 2 < V) (hdiffer : ¬ ∀ i j, prompt i = prompt j) :
    OwnEdits args := by
  by_contra hnot
  simp only [OwnEdits, not_or, not_not, not_lt, not_le] at hnot
  obtain ⟨hcan, hnonneg, hsteps⟩ := hnot
  obtain ⟨m, hpost⟩ := Int.eq_ofNat_of_zero_le hnonneg
  obtain ⟨p, marked, plain, hmark, hplain⟩ := exists_mark args.maskId hdiffer
  obtain ⟨sure, hsure⟩ := hcan.exists_sure (by omega)
  obtain ⟨next, hnext, hmoves⟩ := exists_chain (by omega : m + 2 < V) args.maskId
  let args' : GenerateArgs V K := { args with threshold := ⊥, repetitionPenalty := 1 }
  have setting : ChainSetting B args' P (P / B) sure next p (prompt marked p) :=
    { sure_argmax := fun token => (hsure token).1
      sure_conf := fun token => (hsure token).2
      next_ne := fun v => hnext v (Nat.succ_pos _)
      mark_ne := hmark
      threshold := rfl
      repetitionPenalty := rfl
      prompt := p.isLt
      block := Nat.div_le_div_right p.isLt.le }
  have hsteps' : m + 1 < args'.effectiveSteps := by
    change m + 1 < args.effectiveSteps
    omega
  have hgen : 1 ≤ args'.genLength := one_le_genLength (Nat.zero_lt_of_lt hsteps')
  have hopen : Fin.ofNat B P ∉ promptMaskInBlock P (P / B) :=
    fun hmem => lt_irrefl P (ofNat_mem_promptMaskInBlock.mp hmem)
  have hsame := halone _ _ (LanguageModel.remembering
    (chainForward sure next args.maskId (prompt marked p) p)) _ _ _ ⊥ 1 marked
    (LanguageModel.rowwise_isRowwise _ _)
  rw [LanguageModel.generate_remembering, LanguageModel.generate_remembering] at hsame
  have hhead := congrArg List.head? hsame
  rw [head_generateWith hgen, head_generateWith hgen, Option.some_inj] at hhead
  let x : Fin N → Tokens B V := fun r => initialTokens args.maskId (prompt r)
  have hunmarked : tokenAt (x plain) p ≠ prompt marked p := by
    rwa [tokenAt_initialTokens p.isLt]
  have hbatch := setting.denoiseBlock_batch hnonneg (x := x)
    (onChain_initial p (prompt marked)) hunmarked (fun _ => initialTokens_of_notMem) hopen
  have hsingle := setting.denoiseBlock_alone (fun i j hi => hmoves i j (by omega)) hpost hsteps'
    (x := fun _ => initialTokens args.maskId (prompt marked))
    (onChain_initial p (prompt marked)) hopen
  exact hmoves (m + 1) args'.effectiveSteps (by omega) hsteps'
    (hsingle.symm.trans (hhead.symm.trans (hbatch.tokens _ hopen)))

end Necessary

/-! The other model answers a marked row with one token and any other row with the EOS. -/

section Answer

variable [Field K] [LinearOrder K] [NeZero B]

def answerForward (maskId mark answer eosId : Fin V) (promptLength p numBlock : Nat)
    (w : Fin (numBlock + 1) → Block B V) : Logits B V K :=
  fun j => peakedRow (if numBlock * B + j < promptLength then maskId
    else if markAt p numBlock w = mark then answer else eosId) 1

structure Answered (args : GenerateArgs V K) (prompt : Fin N → Fin P → Fin V)
    (answer : Fin N → Fin V) (s : GenerateState σ N B V) : Prop where
  started : P / B ≤ s.numBlock
  prompt : ∀ r (p : Fin P), tokenAt (s.x r) p = prompt r p
  answer : ∀ r q, P ≤ q →
    tokenAt (s.x r) q = if q < s.numBlock * B then answer r else args.maskId

variable {args : GenerateArgs V K} {prompt : Fin N → Fin P → Fin V} {answer : Fin N → Fin V}
  {s : GenerateState σ N B V}

omit [Field K] [LinearOrder K] in
theorem Answered.initial (args : GenerateArgs V K) (backend : Backend σ N B V K)
    (prompt : Fin N → Fin P → Fin V) (answer : Fin N → Fin V) :
    Answered args prompt answer (initialState args backend prompt) where
  started := le_rfl
  prompt _ p := tokenAt_initialTokens p.isLt
  answer r q hq := by
    have hle : (initialState args backend prompt).numBlock * B ≤ q :=
      (Nat.div_mul_le_self P B).trans hq
    rw [if_neg (not_lt.mpr hle)]
    exact tokenAt_initialTokens_of_le hq

omit [Field K] [LinearOrder K] in
theorem Answered.slice (answered : Answered args prompt answer s) (r : Fin N) :
    slice (s.x r) P (s.numBlock * B) = List.replicate (s.numBlock * B - P) (answer r) := by
  refine List.eq_replicate_iff.mpr ⟨length_slice _ _ _, fun token htoken => ?_⟩
  obtain ⟨q, hq, rfl⟩ := List.mem_map.mp htoken
  obtain ⟨hle, hlt⟩ := List.mem_range'_1.mp hq
  rw [answered.answer r q hle, if_pos (by omega)]

omit [Field K] [LinearOrder K] in
theorem Answered.masked (answered : Answered args prompt answer s) (r : Fin N) {j : Fin B}
    (hj : j ∉ promptMaskInBlock P s.numBlock) : s.x r s.numBlock j = args.maskId := by
  rw [mem_promptMaskInBlock] at hj
  have hdiv : (s.numBlock * B + j) / B = s.numBlock := by
    rw [Nat.mul_comm, Nat.mul_add_div (NeZero.pos B), Nat.div_eq_of_lt j.isLt, Nat.add_zero]
  have hmod : Fin.ofNat B (s.numBlock * B + j) = j := by
    refine Fin.ext ?_
    change (s.numBlock * B + j) % B = j
    rw [Nat.mul_comm, Nat.mul_add_mod, Nat.mod_eq_of_lt j.isLt]
  have htoken := answered.answer r (s.numBlock * B + j) (by omega)
  rwa [if_neg (Nat.not_lt.mpr (Nat.le_add_right _ _)), tokenAt, hdiv, hmod] at htoken

variable [ExpOps K] [TopK K] [NeZero V] {backend : Backend σ N B V K}

theorem Answered.generateBlock (answered : Answered args prompt answer s)
    (hfilled : ∀ r, (generateBlock args backend P s).x r =
      filled P s.numBlock (answer r) (s.x r)) :
    Answered args prompt answer (generateBlock args backend P s) := by
  refine ⟨Nat.le_succ_of_le answered.started, fun r i => ?_, fun r q hq => ?_⟩
  · rw [hfilled, tokenAt_filled_of_lt i.isLt, answered.prompt]
  · have hnext : (Generate.generateBlock args backend P s).numBlock = s.numBlock + 1 := rfl
    rw [hfilled, tokenAt_filled_of_le hq, answered.answer r q hq, hnext]
    simp only [← Nat.div_lt_iff_lt_mul (NeZero.pos B)]
    split_ifs with hblock hearlier hnow hnow
    · rfl
    · omega
    · rfl
    · omega
    · omega
    · rfl

structure AnswerSetting (args : GenerateArgs V K) (backend : Backend σ N B V K) (P p : Nat)
    (mark token eosId : Fin V) : Prop where
  threshold : args.threshold = ⊥
  repetitionPenalty : args.repetitionPenalty = 1
  maxPostSteps : 0 ≤ args.maxPostSteps
  steps : 0 < args.effectiveSteps
  eosEarlyStop : args.eosEarlyStop = true
  eos : args.eosId = some eosId
  eosId_ne : eosId ≠ args.maskId
  token_ne : token ≠ args.maskId
  token_ne_eosId : token ≠ eosId
  read : ∀ cache n w r, backend.read cache n w r =
    answerForward args.maskId mark token eosId P p n (w r)

variable {mark token eosId : Fin V} {p : Fin P}

theorem AnswerSetting.generateBlock_x [IsStrictOrderedRing K]
    (setting : AnswerSetting args backend P p mark token eosId)
    (answered : Answered args prompt answer s)
    (hanswer : ∀ r, answer r = if prompt r p = mark then token else eosId) (r : Fin N) :
    (generateBlock args backend P s).x r = filled P s.numBlock (answer r) (s.x r) := by
  have hblock : (p : Nat) / B ≤ s.numBlock :=
    (Nat.div_le_div_right p.isLt.le).trans answered.started
  have hopen : Fin.ofNat B (firstPosition P B s.numBlock) ∉
      promptMaskInBlock P (firstPosition P B s.numBlock / B) :=
    fun hmem => not_lt.mpr (le_firstPosition _) (ofNat_mem_promptMaskInBlock.mp hmem)
  rw [firstPosition_div answered.started] at hopen
  refine denoiseBlock_eq_filled setting.threshold setting.maxPostSteps setting.steps answer ?_
    (fun r j => answered.masked r) hopen r
  intro y r hy j
  have hmark : tokenAt (y r) p = prompt r p := by
    rcases hy with hkept | hfilled
    · rw [hkept, answered.prompt]
    · rw [hfilled, tokenAt_filled_of_lt p.isLt, answered.prompt]
  rw [rowPrediction_of_one setting.repetitionPenalty]
  simp only [predict, setting.read, answerForward, argmax_peakedRow _ one_pos,
    markAt_window hblock, hmark, hanswer, mem_promptMaskInBlock, Nat.lt_sub_iff_add_lt']

/-- No mask is left before the end of the window, so that the first EOS stops the batch. -/
theorem AnswerSetting.stopped_iff (setting : AnswerSetting args backend P p mark token eosId)
    (answered : Answered args prompt answer (generateBlock args backend P s))
    (hstarted : P / B ≤ s.numBlock)
    (hanswer : ∀ r, answer r = if prompt r p = mark then token else eosId) :
    (generateBlock args backend P s).stopped = true ↔ ∃ r, prompt r p ≠ mark := by
  have hpast : P < (generateBlock args backend P s).numBlock * B :=
    (Nat.div_lt_iff_lt_mul (NeZero.pos B)).mp (Nat.lt_succ_of_le hstarted)
  have hanswer_ne : ∀ r, args.maskId ≠ answer r := by
    intro r
    rw [hanswer]
    split_ifs
    · exact setting.token_ne.symm
    · exact setting.eosId_ne.symm
  have hanswer_eos : ∀ r, eosId = answer r ↔ prompt r p ≠ mark := by
    intro r
    rw [hanswer]
    split_ifs with hmark
    · exact iff_of_false setting.token_ne_eosId.symm (not_not.mpr hmark)
    · exact iff_of_true rfl hmark
  change eosReached args P ((generateBlock args backend P s).numBlock * B)
    (generateBlock args backend P s).x = true ↔ _
  simp only [eosReached_iff, setting.eosEarlyStop, setting.eos, answered.slice,
    List.mem_replicate, hanswer_ne, hanswer_eos, Option.some_inj, exists_eq_left',
    (Nat.sub_pos_of_lt hpast).ne', ne_eq, not_false_eq_true, and_false, true_and, implies_true]

omit [Field K] [LinearOrder K] [ExpOps K] [TopK K] [NeZero B] [NeZero V] in
theorem trimmed_of_notMem (heos : args.eosId = some eosId) {gen : List (Fin V)}
    (hnone : eosId ∉ gen) : trimmed args gen = gen := by
  rw [trimmed, heos]
  exact if_neg (fun hmem => hnone hmem.2)

/-- A marked row whose run ends after block `n` is returned without an EOS, so untrimmed. -/
theorem AnswerSetting.mask_mem_generateWith_iff
    (setting : AnswerSetting args backend P p mark token eosId) {marked : Fin N}
    (answered : Answered args prompt answer (generateTokens args backend prompt))
    (hanswer : answer marked = token) :
    args.maskId ∈ generateWith args backend prompt marked ↔
      (generateTokens args backend prompt).numBlock * B < P + args.genLength := by
  have htoken : ∀ v, v ∈ slice ((generateTokens args backend prompt).x marked) P
      (P + args.genLength) → v = token ∨ v = args.maskId := by
    intro v hv
    obtain ⟨q, hq, rfl⟩ := List.mem_map.mp hv
    rw [answered.answer _ q (List.mem_range'_1.mp hq).1, hanswer]
    split_ifs
    · exact Or.inl rfl
    · exact Or.inr rfl
  have hnone : eosId ∉ slice ((generateTokens args backend prompt).x marked) P
      (P + args.genLength) := fun hmem =>
    (htoken eosId hmem).elim setting.token_ne_eosId.symm setting.eosId_ne
  rw [generateWith, trimmed_of_notMem setting.eos hnone]
  constructor
  · intro hmask
    obtain ⟨q, hq, hqmask⟩ := List.mem_map.mp hmask
    obtain ⟨hle, hlt⟩ := List.mem_range'_1.mp hq
    rw [answered.answer _ q hle, hanswer] at hqmask
    split_ifs at hqmask with hanswered
    · exact absurd hqmask setting.token_ne
    · omega
  · intro hlt
    have hgen := one_le_genLength setting.steps
    refine List.mem_map.mpr ⟨firstPosition P B (generateTokens args backend prompt).numBlock,
      List.mem_range'_1.mpr ⟨le_firstPosition _, ?_⟩, ?_⟩
    · rw [firstPosition, max_lt_iff]
      omega
    · rw [answered.answer _ _ (le_firstPosition _)]
      exact if_neg (not_lt.mpr (le_max_right _ _))

variable [IsStrictOrderedRing K]

/-- With an unmarked row in the batch the run ends after its first block. -/
theorem AnswerSetting.mask_mem_batch (setting : AnswerSetting args backend P p mark token eosId)
    {marked plain : Fin N} (hmarked : prompt marked p = mark) (hplain : prompt plain p ≠ mark)
    (hblocks : P / B + 1 < numBlocks args P B) :
    args.maskId ∈ generateWith args backend prompt marked := by
  have hgen := one_le_genLength setting.steps
  obtain ⟨rest, hrest⟩ : ∃ rest, numBlocks args P B - P / B = rest + 1 :=
    Nat.exists_eq_succ_of_ne_zero (Nat.sub_ne_zero_of_lt (Nat.lt_of_succ_lt hblocks))
  let answer : Fin N → Fin V := fun r => if prompt r p = mark then token else eosId
  have hinit := Answered.initial args backend prompt answer
  have hfirst := hinit.generateBlock (setting.generateBlock_x hinit (fun _ => rfl))
  have hend : generateTokens args backend prompt =
      generateBlock args backend P (initialState args backend prompt) := by
    rw [generateTokens, hrest, boundedLoop_of_not_done rfl, boundedLoop_of_done
      ((setting.stopped_iff hfirst le_rfl (fun _ => rfl)).mpr ⟨plain, hplain⟩)]
  refine (setting.mask_mem_generateWith_iff (hend ▸ hfirst) (if_pos hmarked)).mpr ?_
  rw [hend]
  exact lt_of_le_of_lt (le_max_right _ _) (firstPosition_lt hgen hblocks)

/-- A batch of marked rows only runs to its last block. -/
theorem AnswerSetting.mask_notMem_alone
    (setting : AnswerSetting args backend P p mark token eosId)
    (hmarked : ∀ r, prompt r p = mark) (r : Fin N) :
    args.maskId ∉ generateWith args backend prompt r := by
  have hgen := one_le_genLength setting.steps
  have hanswer : ∀ r, token = if prompt r p = mark then token else eosId :=
    fun r => (if_pos (hmarked r)).symm
  have hstep : ∀ k (s : GenerateState σ N B V), k < numBlocks args P B - P / B →
      (s.stopped = false ∧ s.numBlock = P / B + k ∧ Answered args prompt (fun _ => token) s) →
      s.stopped = false ∧
        let s' := generateBlock args backend P s
        s'.stopped = false ∧ s'.numBlock = P / B + (k + 1) ∧
          Answered args prompt (fun _ => token) s' := by
    rintro k s - ⟨hrunning, hnum, answered⟩
    have hnext := answered.generateBlock (setting.generateBlock_x answered hanswer)
    refine ⟨hrunning, ?_, congrArg Nat.succ hnum, hnext⟩
    rw [← Bool.not_eq_true, setting.stopped_iff hnext answered.started hanswer]
    rintro ⟨r, hr⟩
    exact hr (hmarked r)
  obtain ⟨-, hnum, answered⟩ := boundedLoop_exhausts _ hstep (Nat.zero_add _)
    ⟨rfl, rfl, Answered.initial args backend prompt (fun _ => token)⟩
  have hall : (generateTokens args backend prompt).numBlock = numBlocks args P B :=
    hnum.trans (Nat.add_sub_of_le (firstBlock_lt_numBlocks hgen).le)
  rw [setting.mask_mem_generateWith_iff answered rfl, hall, not_lt]
  exact le_numBlocks_mul args P

end Answer

section Exact

variable [Field K] [LinearOrder K] [IsStrictOrderedRing K] [ExpOps K] [TopK K] [NeZero B]
  [NeZero V] {args : GenerateArgs V K} {useKvCache : Bool} {prompt : Fin N → Fin P → Fin V}

/-- A marked row is cut short by the EOS of another row. -/
theorem RowsAlone.ownStops (halone : RowsAlone B args useKvCache prompt)
    (hV : args.maxPostSteps + 2 < V) (hdiffer : ¬ ∀ i j, prompt i = prompt j) :
    OwnStops B args P := by
  by_contra hnot
  simp only [OwnStops, not_or, not_lt, not_le, Bool.not_eq_false, not_forall] at hnot
  obtain ⟨hpost, hsteps, hblocks, hearly, eosId, heos, hne⟩ := hnot
  obtain ⟨p, marked, plain, hmark, hplain⟩ := exists_mark args.maskId hdiffer
  obtain ⟨token, -, htoken⟩ : ∃ token ∈ Finset.univ, token ∉ ({eosId, args.maskId} : Finset _) :=
    Finset.exists_mem_notMem_of_card_lt_card (by
      rw [Finset.card_univ, Fintype.card_fin]
      exact Finset.card_le_two.trans_lt (by omega))
  simp only [Finset.mem_insert, Finset.mem_singleton, not_or] at htoken
  let model := LanguageModel.remembering
    (answerForward (K := K) (B := B) args.maskId (prompt marked p) token eosId P p)
  have setting : ∀ N, AnswerSetting { args with threshold := ⊥, repetitionPenalty := 1 }
      (model.uncached N) P p (prompt marked p) token eosId := fun N =>
    { threshold := rfl
      repetitionPenalty := rfl
      maxPostSteps := hpost
      steps := Nat.pos_of_ne_zero hsteps
      eosEarlyStop := hearly
      eos := heos
      eosId_ne := hne
      token_ne := htoken.2
      token_ne_eosId := htoken.1
      read := fun _ _ _ _ => rfl }
  have hsame := halone _ _ model _ _ _ ⊥ 1 marked (LanguageModel.rowwise_isRowwise _ _)
  rw [LanguageModel.generate_remembering, LanguageModel.generate_remembering] at hsame
  have hmask := (setting N).mask_mem_batch rfl hplain hblocks
  rw [hsame] at hmask
  exact (setting 1).mask_notMem_alone (fun _ => rfl) 0 hmask

/-- With more ids than the post-edit steps could use, a batch of different prompts generates
each row as if it were alone exactly if neither the edits nor the stop of another row can
reach it: the step budget is used up before the post-edit steps are, and no EOS ends a batch
before its last block. -/
theorem rowsAlone_iff [StrictExp K] (hV : args.maxPostSteps + 2 < V) :
    RowsAlone B args useKvCache prompt ↔
      (∀ i j, prompt i = prompt j) ∨ (OwnEdits args ∧ OwnStops B args P) := by
  constructor
  · intro halone
    by_cases hsame : ∀ i j, prompt i = prompt j
    · exact Or.inl hsame
    · exact Or.inr ⟨halone.ownEdits hV hsame, halone.ownStops hV hsame⟩
  · rintro (hsame | ⟨hedits, hstops⟩)
    · exact rowsAlone_of_same_prompt useKvCache hsame
    · exact rowsAlone_of_own useKvCache hedits hstops

/-- Two rows with an EOS id, edits and two blocks. Both are generated as if alone if the EOS
does not stop the batch. -/
theorem rowsAlone_two_blocks :
    let args : GenerateArgs 6 ℝ :=
      { steps := 4, genLength := 4, minimalTopk := 1, threshold := ⊥,
        editingThreshold := (((1 / 2 : ℝ) : WithTop ℝ) : Conf ℝ), maxPostSteps := 3,
        numToTransfer := 1, eosEarlyStop := false, eosId := some 4, maskId := 5,
        repetitionPenalty := 1 }
    let prompt : Fin 2 → Fin 1 → Fin 6 := fun r _ => if r = 0 then 0 else 1
    CanEdit args ∧ numBlocks args 1 2 = 3 ∧ RowsAlone 2 args true prompt ∧
      ¬ RowsAlone 2 { args with eosEarlyStop := true } true prompt ∧
      ¬ RowsAlone 2 { args with maxPostSteps := 2 } true prompt := by
  intro args prompt
  have hcan : CanEdit args := canEdit_iff.mpr
    (WithBot.coe_lt_coe.mpr (WithTop.coe_lt_coe.mpr (by norm_num)))
  have hdiffer : ¬ ∀ i j, prompt i = prompt j := fun hsame =>
    absurd (congrFun (hsame 0 1) 0) (by decide)
  refine ⟨hcan, by decide, ?_, ?_, ?_⟩
  · exact (rowsAlone_iff (by decide)).mpr (Or.inr ⟨Or.inr (Or.inr (by decide)),
      Or.inr (Or.inr (Or.inr (Or.inl rfl)))⟩)
  · rw [rowsAlone_iff (by decide)]
    rintro (hsame | ⟨-, hstops⟩)
    · exact hdiffer hsame
    · revert hstops
      simp only [OwnStops]
      decide
  · rw [rowsAlone_iff (by decide)]
    rintro (hsame | ⟨hedits, -⟩)
    · exact hdiffer hsame
    · rcases hedits with hnot | hnegative | hshort
      · exact hnot hcan
      · exact absurd hnegative (by decide)
      · exact absurd hshort (by decide)

/-- A network that answers each row by its first token fills an open block with the answer. -/
theorem denoiseBlock_of_answers {args : GenerateArgs V ℝ} {promptLength n : Nat}
    (answer : Fin V → Fin V) {read : ReadWindow N B V n ℝ} {x : Fin N → Tokens B V}
    (hread : ∀ w r j v, read w r j v = if v = answer (w r 0 0) then 1 else 0)
    (hthreshold : args.threshold = ⊥) (hpenalty : args.repetitionPenalty = 1)
    (hpost : 0 ≤ args.maxPostSteps) (hsteps : 0 < args.effectiveSteps) (hn : 0 < n)
    (hopen : ∀ j : Fin B, j ∉ promptMaskInBlock promptLength n)
    (hmasked : ∀ r j, x r n j = args.maskId) :
    (denoiseBlock args promptLength n read x).x =
      fun r => filled promptLength n (answer (x r 0 0)) (x r) := by
  funext r
  refine denoiseBlock_eq_filled hthreshold hpost hsteps (fun r => answer (x r 0 0)) ?_
    (fun r j _ => hmasked r j) (hopen 0) r
  intro y r hy j
  have hfirst : y r 0 0 = x r 0 0 := by
    rcases hy with hkept | hfilled
    · rw [hkept]
    · rw [hfilled, filled, Function.update_of_ne hn.ne]
  have hlogit : ∀ v, read (fun r => window (y r) n) r j v =
      if v = answer (x r 0 0) then 1 else 0 := fun v => hfirst ▸ hread _ r j v
  rw [rowPrediction_of_one hpenalty, if_neg (hopen j)]
  refine argmax_eq_of_forall_lt (fun v hv => ?_)
  rw [hlogit, hlogit, if_neg hv, if_pos rfl]
  exact one_pos

/-- One row generates an EOS in its first block and another does not. The batch stops
there, and the second row is returned with the mask id in its second block. -/
theorem generate_row_ne_alone :
    let model : LanguageModel (fun N => Fin N → Unit) 1 4 ℝ :=
      LanguageModel.rowwise
        (fun _ w _ v => if v = (if w 0 0 = 0 then 2 else 1) then 1 else 0)
        ⟨(), fun _ _ _ _ _ => 0, fun _ _ _ => ()⟩
    let args : GenerateArgs 4 ℝ :=
      { steps := 1, genLength := 2, minimalTopk := 1, threshold := ⊥,
        editingThreshold := ⊤, maxPostSteps := 0, numToTransfer := 1,
        eosEarlyStop := true, eosId := some 2, maskId := 3, repetitionPenalty := 1 }
    let prompt : Fin 2 → Fin 1 → Fin 4 := fun r _ => if r = 0 then 0 else 1
    model.generate args false prompt 1 = [1, 3] ∧
      model.generate args false (fun _ : Fin 1 => prompt 1) 0 = [1, 1] := by
  intro model args prompt
  have hfill : ∀ (N n : Nat) (x : Fin N → Tokens 1 4), 1 ≤ n →
      (∀ r j, x r n j = args.maskId) → (denoiseBlock args 1 n (model.forward n) x).x =
        fun r => filled 1 n (if x r 0 0 = 0 then 2 else 1) (x r) := by
    intro N n x hn hmasked
    refine denoiseBlock_of_answers (fun first => if first = 0 then 2 else 1)
      (fun _ _ _ _ => rfl) rfl rfl le_rfl (by decide) hn ?_ hmasked
    intro j hj
    have hlt := mem_promptMaskInBlock.mp hj
    omega
  have hblocks : numBlocks args 1 1 - 1 / 1 = 2 := by decide
  constructor
  · have hfirst := hfill 2 1 (initialState args (model.uncached 2) prompt).x le_rfl (by decide)
    have hstop : (generateBlock args (model.uncached 2) 1
        (initialState args (model.uncached 2) prompt)).stopped = true := by
      change eosReached args 1 ((1 + 1) * 1) (denoiseBlock args 1 1 (model.forward 1) _).x = true
      rw [hfirst]
      decide
    have htokens : (generateTokens args (model.uncached 2) prompt).x =
        (denoiseBlock args 1 1 (model.forward 1)
          (initialState args (model.uncached 2) prompt).x).x := by
      rw [generateTokens, hblocks, boundedLoop_of_not_done rfl, boundedLoop_of_done hstop]
      rfl
    change trimmed args (slice ((generateTokens args (model.uncached 2) prompt).x 1) 1 3) = _
    rw [htokens, hfirst]
    decide
  · have hfirst := hfill 1 1 (initialState args (model.uncached 1) (fun _ => prompt 1)).x
      le_rfl (by decide)
    have hsecond := hfill 1 2 (denoiseBlock args 1 1 (model.forward 1)
      (initialState args (model.uncached 1) (fun _ => prompt 1)).x).x
      one_le_two (by rw [hfirst]; decide)
    have hcontinue : (generateBlock args (model.uncached 1) 1
        (initialState args (model.uncached 1) (fun _ => prompt 1))).stopped = false := by
      change eosReached args 1 ((1 + 1) * 1) (denoiseBlock args 1 1 (model.forward 1) _).x = false
      rw [hfirst]
      decide
    have htokens : (generateTokens args (model.uncached 1) (fun _ => prompt 1)).x =
        (denoiseBlock args 1 2 (model.forward 2) (denoiseBlock args 1 1 (model.forward 1)
          (initialState args (model.uncached 1) (fun _ => prompt 1)).x).x).x := by
      rw [generateTokens, hblocks, boundedLoop_of_not_done rfl,
        boundedLoop_of_not_done hcontinue, boundedLoop_zero]
      rfl
    change trimmed args
      (slice ((generateTokens args (model.uncached 1) (fun _ => prompt 1)).x 0) 1 3) = _
    rw [htokens, hsecond, hfirst]
    decide

end Exact

end LladaHybrid.Generate
