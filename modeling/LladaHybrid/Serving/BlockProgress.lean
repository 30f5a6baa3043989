import LladaHybrid.Serving.BatchSelection
import Mathlib.Data.List.GetD

namespace LladaHybrid.Serving

open LladaHybrid.Library LladaHybrid.Decode

/-! One request under the chunk cache. The blocks it was served are the start of its
tokens, and its next block is made of the tokens after them, filled up with masks. -/

variable {L S Z Kv K : Type} {B V : Nat}

def blockOf (maskId : Fin V) (rest : List (Fin V)) : Block B V := fun j => rest.getD j maskId

section Block

variable {maskId : Fin V} {rest : List (Fin V)}

theorem lt_length_of_blockOf_ne {j : Fin B} (hne : blockOf maskId rest j ≠ maskId) :
    j.val < rest.length := by
  by_contra hle
  exact hne (List.getD_eq_default _ _ (Nat.not_lt.mp hle))

theorem card_val_lt (n : Nat) :
    (Finset.univ.filter (fun j : Fin B => j.val < n)).card = min n B := by
  rw [Fin.card_filter_val_lt]
  exact min_comm _ _

theorem card_compl_maskIndex (maskId : Fin V) (ids : Block B V) :
    B - (maskIndex maskId ids).card = (Finset.univ.filter (fun j => ids j ≠ maskId)).card := by
  have hcompl : (maskIndex maskId ids)ᶜ = Finset.univ.filter (fun j => ids j ≠ maskId) := by
    ext j
    simp
  rw [← hcompl, Finset.card_compl, Fintype.card_fin]

theorem sub_card_le_length (maskId : Fin V) (rest : List (Fin V)) :
    B - (maskIndex maskId (blockOf (B := B) maskId rest)).card ≤ rest.length := by
  calc
    B - (maskIndex maskId (blockOf (B := B) maskId rest)).card =
        (Finset.univ.filter (fun j : Fin B => blockOf maskId rest j ≠ maskId)).card :=
      card_compl_maskIndex maskId _
    _ ≤ (Finset.univ.filter (fun j : Fin B => j.val < rest.length)).card := by
      apply Finset.card_le_card
      intro j hj
      rw [Finset.mem_filter] at hj ⊢
      exact ⟨hj.1, lt_length_of_blockOf_ne hj.2⟩
    _ ≤ rest.length := by
      rw [card_val_lt]
      exact min_le_left _ _

theorem blockOf_ne_of_notMem (hnot : maskId ∉ rest) {j : Fin B} (hj : j.val < rest.length) :
    blockOf maskId rest j ≠ maskId := by
  rw [blockOf, List.getD_eq_getElem _ _ hj]
  exact fun hmask => hnot (hmask ▸ List.getElem_mem hj)

theorem sub_card_of_notMem (hnot : maskId ∉ rest) :
    B - (maskIndex maskId (blockOf (B := B) maskId rest)).card = min rest.length B := by
  rw [card_compl_maskIndex, ← card_val_lt]
  congr 1
  apply Finset.filter_congr
  intro j _
  exact ⟨lt_length_of_blockOf_ne, blockOf_ne_of_notMem hnot⟩

theorem take_ofFn_of_kept {final : Block B V} (hnot : maskId ∉ rest)
    (hkept : ∀ j, blockOf maskId rest j ≠ maskId → final j = blockOf maskId rest j) :
    (List.ofFn final).take (min rest.length B) = rest.take B := by
  apply List.ext_getElem
  · simp only [List.length_take, List.length_ofFn]
    omega
  · intro n hn hn'
    rw [List.length_take] at hn'
    have hrest : n < rest.length := by omega
    have hlt : n < B := by omega
    rw [List.getElem_take, List.getElem_take, List.getElem_ofFn,
      hkept ⟨n, hlt⟩ (blockOf_ne_of_notMem hnot hrest), blockOf,
      List.getD_eq_getElem _ _ hrest]

theorem length_add_le_of_next {tokens next : List (Fin V)} {final : Block B V} {n : Nat}
    (hlength : n ≤ tokens.length)
    (hnext : next = (List.ofFn final).drop
      (B - (maskIndex maskId (blockOf (B := B) maskId (tokens.drop n))).card)) :
    n + B ≤ (tokens ++ next).length := by
  have hmasks := sub_card_le_length (B := B) maskId (tokens.drop n)
  rw [List.length_drop] at hmasks
  rw [List.length_append, hnext, List.length_drop, List.length_ofFn]
  omega

theorem append_next_of_notMem {tokens next : List (Fin V)} {final : Block B V} {n : Nat}
    (hnot : maskId ∉ tokens.drop n)
    (hkept : ∀ j, blockOf maskId (tokens.drop n) j ≠ maskId →
      final j = blockOf maskId (tokens.drop n) j)
    (hnext : next = (List.ofFn final).drop
      (B - (maskIndex maskId (blockOf (B := B) maskId (tokens.drop n))).card)) :
    tokens ++ next = tokens.take n ++ List.ofFn final ++ (tokens.drop n).drop B := by
  rw [sub_card_of_notMem hnot] at hnext
  have hblock : (tokens.drop n).take B ++ next = List.ofFn final := by
    rw [← take_ofFn_of_kept hnot hkept, hnext, List.take_append_drop]
  rcases Nat.le_total B (tokens.drop n).length with hfull | hshort
  · have hnil : next = [] := by
      rw [hnext, Nat.min_eq_right hfull]
      exact List.drop_eq_nil_of_le (by rw [List.length_ofFn])
    rw [hnil, List.append_nil] at hblock ⊢
    rw [← hblock, List.append_assoc, List.take_append_drop, List.take_append_drop]
  · rw [List.take_of_length_le hshort] at hblock
    rw [List.drop_eq_nil_of_le hshort, List.append_nil, ← hblock, ← List.append_assoc,
      List.take_append_drop]

end Block

/-! The stages of a request between two of its blocks. -/

def Req.tokens (req : Req V Kv) : List (Fin V) := req.originInputIds ++ req.outputIds

theorem Req.inputBlock_eq {req : Req V Kv} {maskId : Fin V}
    (hfill : req.fillIds = (req.tokens ++ List.replicate B maskId).take
      (req.prefixIndices.length + B))
    (hlength : req.prefixIndices.length ≤ req.tokens.length) :
    req.inputBlock B maskId = blockOf maskId (req.tokens.drop req.prefixIndices.length) := by
  funext j
  have hj := j.isLt
  rw [inputBlock, blockOf, hfill, List.drop_take, Nat.add_sub_cancel_left,
    List.drop_append_of_le_length hlength, List.getD_eq_getElem?_getD,
    List.getD_eq_getElem?_getD, List.getElem?_take_of_lt hj]
  by_cases hin : j.val < (req.tokens.drop req.prefixIndices.length).length
  · rw [List.getElem?_append_left hin]
  · rw [List.getElem?_append_right (Nat.not_lt.mp hin), List.getElem?_replicate_of_lt (by omega),
      List.getElem?_eq_none (Nat.not_lt.mp hin)]
    rfl

theorem Req.isStaging_initNextRoundInput {req : Req V Kv} {maskId : Fin V}
    (hlength : req.prefixIndices.length ≤ req.tokens.length) :
    (req.initNextRoundInput B maskId).isStaging := by
  have hfull : ¬ ((req.initFillIdsForDllm B maskId).fillIds.length <
      (req.initFillIdsForDllm B maskId).prefixIndices.length + B) := by
    rw [tokens, List.length_append] at hlength
    simp only [initFillIdsForDllm, List.length_append, List.length_replicate]
    omega
  simp only [isStaging, initNextRoundInput, determineDllmPhase, if_neg hfull]
  split_ifs
  · exact Or.inr rfl
  · exact Or.inl rfl

variable [AddMonoid S] [AddMonoid Z]

def ServedModel.rowsOf (model : ServedModel L S Z Kv B V K) (served : List (ServedBlock Kv B V)) :
    List Kv :=
  (model.replay (served.map ServedBlock.tokens)).rows

theorem ServedModel.rowsOf_concat {model : ServedModel L S Z Kv B V K}
    {served : List (ServedBlock Kv B V)} {block : ServedBlock Kv B V}
    (context : model.InContext served) :
    model.rowsOf (served ++ [block]) = model.rowsOf served ++
      List.ofFn (model.kvRows (model.stateOf served) (model.rowsOf served) block.tokens) := by
  rw [rowsOf, List.map_append, List.map_singleton, replay_concat, context.stateOf]
  rfl

theorem ServedModel.length_rowsOf (model : ServedModel L S Z Kv B V K)
    (served : List (ServedBlock Kv B V)) :
    (model.rowsOf served).length = B * served.length := by
  induction served using List.reverseRecOn with
  | nil => rfl
  | append_singleton served block ih =>
      rw [rowsOf, List.map_append, List.map_singleton, replay_concat, commitBlock,
        List.length_append, List.length_ofFn, List.length_append, List.length_singleton,
        Nat.mul_add_one]
      exact congrArg (· + B) ih

/-- The served blocks lie within the tokens of the request; if the prompt has no masks,
they are its first tokens. -/
structure Tracks (model : ServedModel L S Z Kv B V K) (maskId : Fin V)
    (originInputIds outputIds : List (Fin V)) (served : List (ServedBlock Kv B V)) : Prop where
  inContext : model.InContext served
  length_le : (model.rowsOf served).length ≤ (originInputIds ++ outputIds).length
  unmasked : maskId ∉ originInputIds →
    maskId ∉ (originInputIds ++ outputIds).drop (model.rowsOf served).length
  tokens : maskId ∉ originInputIds →
    served.flatMap (fun block => List.ofFn block.tokens) =
      (originInputIds ++ outputIds).take (model.rowsOf served).length

/-- Between two rounds. -/
structure Idle (model : ServedModel L S Z Kv B V K) (maskId : Fin V) (req : Req V Kv)
    (served : List (ServedBlock Kv B V)) : Prop where
  tracks : Tracks model maskId req.originInputIds req.outputIds served
  prefixIndices : req.prefixIndices = model.rowsOf served
  staging : req.isStaging → req.fillIds = req.tokens ++ List.replicate B maskId ∧
    req.extendInputLen = req.fillIds.length - req.prefixIndices.length
  incoming : ¬ req.isStaging → served = []

/-- In the batch that is about to run. -/
structure Ready (model : ServedModel L S Z Kv B V K) (maskId : Fin V) (req : Req V Kv)
    (served : List (ServedBlock Kv B V)) : Prop where
  tracks : Tracks model maskId req.originInputIds req.outputIds served
  prefixIndices : req.prefixIndices = model.rowsOf served
  staging : req.isStaging
  fillIds : req.fillIds = (req.tokens ++ List.replicate B maskId).take
    (req.prefixIndices.length + B)

/-- After its block has run, before the promotion. -/
structure Ran (model : ServedModel L S Z Kv B V K) (maskId : Fin V) (req : Req V Kv)
    (served : List (ServedBlock Kv B V)) : Prop where
  tracks : Tracks model maskId req.originInputIds req.outputIds served
  reqToToken : req.reqToToken = model.rowsOf served
  length_fillIds : req.fillIds.length = (model.rowsOf served).length

variable {model : ServedModel L S Z Kv B V K} {maskId : Fin V} {req req' : Req V Kv}
  {served : List (ServedBlock Kv B V)}

theorem Idle.new (model : ServedModel L S Z Kv B V K) (maskId : Fin V)
    (originInputIds : List (Fin V)) : Idle model maskId (Req.new B originInputIds) [] where
  tracks := by
    refine ⟨.nil, Nat.zero_le _, fun hnot => ?_, fun _ => rfl⟩
    change maskId ∉ originInputIds ++ []
    rwa [List.append_nil]
  prefixIndices := rfl
  staging hstaging := absurd hstaging (Req.not_isStaging_new originInputIds)
  incoming _ := rfl

theorem Ran.initNextRoundInput (ran : Ran model maskId req served) :
    Idle model maskId ({ req with
      prefixIndices := req.reqToToken.take req.fillIds.length }.initNextRoundInput B maskId)
      served := by
  have hrows : req.reqToToken.take req.fillIds.length = model.rowsOf served := by
    rw [ran.length_fillIds, ← ran.reqToToken, List.take_length]
  refine ⟨ran.tracks, hrows, fun _ => ⟨rfl, rfl⟩, fun hincoming => ?_⟩
  refine absurd (Req.isStaging_initNextRoundInput ?_) hincoming
  rw [hrows]
  exact ran.tracks.length_le

theorem Idle.le_extendInputLen (idle : Idle model maskId req served)
    (hstaging : req.isStaging) : B ≤ req.extendInputLen := by
  obtain ⟨hfill, hextend⟩ := idle.staging hstaging
  have hle := idle.tracks.length_le
  rw [hextend, hfill, idle.prefixIndices, List.length_append, List.length_replicate, Req.tokens]
  omega

theorem Idle.staged (idle : Idle model maskId req served) (hstaging : req.isStaging)
    {remTokens : Nat} (hwhole : (req.addDllmStagingReq remTokens).extendInputLen = B) :
    Ready model maskId (req.addDllmStagingReq remTokens) served := by
  refine ⟨idle.tracks, idle.prefixIndices, hstaging, ?_⟩
  change min req.extendInputLen remTokens = B at hwhole
  change req.fillIds.take (req.prefixIndices.length + min req.extendInputLen remTokens) = _
  rw [hwhole, (idle.staging hstaging).1]
  rfl

theorem Idle.matched {tree : PUnit} (idle : Idle model maskId req served)
    (hincoming : ¬ req.isStaging)
    (hmatched : req.initNextRoundInputWith (chunkCache V Kv) tree B maskId = .ok req') :
    req'.prefixIndices = [] ∧ req'.fillIds = req'.tokens ++ List.replicate B maskId ∧
      req'.isStaging ∧ Idle model maskId req' served := by
  obtain rfl := idle.incoming hincoming
  have hstaging : (req.initNextRoundInput B maskId).isStaging :=
    Req.isStaging_initNextRoundInput (idle.prefixIndices ▸ idle.tracks.length_le)
  obtain ⟨-, rfl⟩ := Req.setMatched_ok hmatched
  exact ⟨rfl, rfl, hstaging, idle.tracks, rfl, fun _ => ⟨rfl, rfl⟩, fun _ => rfl⟩

theorem Idle.selected {tree : PUnit} {added : Bool} (idle : Idle model maskId req served)
    (selected : Selected (chunkCache V Kv) tree B maskId added req req')
    (hwhole : added = true → req'.extendInputLen = B) :
    if added then Ready model maskId req' served else Idle model maskId req' served := by
  cases selected with
  | kept => exact idle
  | staged remTokens hstaging => exact idle.staged hstaging (hwhole rfl)
  | admitted truncLen hincoming hmatched =>
      obtain ⟨hrows, hfill, hstaging, hidle⟩ := idle.matched hincoming hmatched
      obtain rfl : truncLen = B := hwhole rfl
      refine ⟨hidle.tracks, hidle.prefixIndices, hstaging, ?_⟩
      rw [Req.addDllmReq, hfill]
      rfl
  | rejected hincoming hmatched => exact (idle.matched hincoming hmatched).2.2.2

theorem Tracks.concat {originInputIds outputIds next : List (Fin V)} {final : Block B V}
    (tracks : Tracks model maskId originInputIds outputIds served)
    (hkept : ∀ j,
      blockOf maskId ((originInputIds ++ outputIds).drop (model.rowsOf served).length) j ≠ maskId →
        final j =
          blockOf maskId ((originInputIds ++ outputIds).drop (model.rowsOf served).length) j)
    (hnext : next = (List.ofFn final).drop (B - (maskIndex maskId (blockOf (B := B) maskId
      ((originInputIds ++ outputIds).drop (model.rowsOf served).length))).card)) :
    Tracks model maskId originInputIds (outputIds ++ next)
      (served ++ [⟨model.rowsOf served, final⟩]) := by
  have hrows : (model.rowsOf (served ++ [⟨model.rowsOf served, final⟩])).length =
      (model.rowsOf served).length + B := by
    rw [ServedModel.rowsOf_concat tracks.inContext, List.length_append, List.length_ofFn]
  have hsplit : maskId ∉ originInputIds → originInputIds ++ (outputIds ++ next) =
      (originInputIds ++ outputIds).take (model.rowsOf served).length ++ List.ofFn final ++
        ((originInputIds ++ outputIds).drop (model.rowsOf served).length).drop B := by
    intro hnot
    rw [← List.append_assoc]
    exact append_next_of_notMem (tracks.unmasked hnot) hkept hnext
  have hlength : ((originInputIds ++ outputIds).take (model.rowsOf served).length ++
      List.ofFn final).length = (model.rowsOf served).length + B := by
    rw [List.length_append, List.length_ofFn, List.length_take_of_le tracks.length_le]
  refine ⟨.concat tracks.inContext rfl, ?_, ?_, ?_⟩
  · rw [hrows, ← List.append_assoc]
    exact length_add_le_of_next tracks.length_le hnext
  · intro hnot hmem
    rw [hsplit hnot, hrows, List.drop_left' hlength] at hmem
    exact tracks.unmasked hnot (List.mem_of_mem_drop hmem)
  · intro hnot
    rw [hsplit hnot, hrows, List.take_left' hlength, List.flatMap_append, tracks.tokens hnot,
      List.flatMap_singleton]

theorem Ready.ran {final : Block B V} {next : List (Fin V)}
    (ready : Ready model maskId req served)
    (hkept : ∀ j, req.inputBlock B maskId j ≠ maskId → final j = req.inputBlock B maskId j)
    (hnext : next =
      (List.ofFn final).drop (B - (maskIndex maskId (req.inputBlock B maskId)).card)) :
    Ran model maskId ({ req with
        reqToToken := req.prefixIndices ++
          List.ofFn (model.kvRows (model.stateOf served) req.prefixIndices final) }.appendTokens
      next false)
      (served ++ [⟨req.prefixIndices, final⟩]) := by
  have hlength : req.prefixIndices.length ≤ req.tokens.length := by
    rw [ready.prefixIndices]
    exact ready.tracks.length_le
  have hblock := Req.inputBlock_eq ready.fillIds hlength
  have hfill : req.fillIds.length = req.prefixIndices.length + B := by
    rw [ready.fillIds, List.length_take, List.length_append, List.length_replicate]
    omega
  have hshort : next.length ≤ B := by
    rw [hnext, List.length_drop, List.length_ofFn]
    exact Nat.sub_le _ _
  rw [hblock, ready.prefixIndices] at hkept hnext
  refine ⟨?_, ?_, ?_⟩
  · rw [ready.prefixIndices]
    exact ready.tracks.concat hkept hnext
  · change req.prefixIndices ++ _ = _
    rw [ServedModel.rowsOf_concat ready.tracks.inContext, ready.prefixIndices]
  · rw [ServedModel.rowsOf_concat ready.tracks.inContext, List.length_append, List.length_ofFn,
      ← ready.prefixIndices]
    change (req.fillIds.take (req.fillIds.length - next.length) ++ next).length = _
    rw [List.length_append, List.length_take, hfill]
    omega

end LladaHybrid.Serving
