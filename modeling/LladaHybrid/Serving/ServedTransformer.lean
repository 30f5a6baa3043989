import LladaHybrid.Serving.ServedModel
import LladaHybrid.Model.PrefixCache

namespace LladaHybrid.Serving

open LladaHybrid.Library LladaHybrid.Decode LladaHybrid.Attention LladaHybrid.Model

/-! The transformer as the network of the server: the states of its hybrid layers are in
the slots, the keys and values of its softmax layers in the KV rows. -/

variable {X K : Type} {D F V B : Nat}

def hybridParams (model : Transformer X D F V K) (layerIdx : Nat) :
    Option (HybridParams D F K) :=
  model.layers[layerIdx]?.bind DecoderLayer.linearAttention

abbrev HybridLayer (model : Transformer X D F V K) :=
  { layerIdx : Nat // (hybridParams model layerIdx).isSome }

abbrev HeadStates (D F : Nat) (K : Type) := Nat → Feature F → Vec D K

abbrev HeadSums (F : Nat) (K : Type) := Nat → Feature F → K

abbrev KvRow (D : Nat) (K : Type) := Nat → (Nat → Vec D K) × (Nat → Vec D K)

section Served

variable [Field K] (model : Transformer X D F V K)

def cacheOf (state : HybridLayer model → HeadStates D F K × HeadSums F K)
    (rows : List (KvRow D K)) : BlockDiffusionCache D F K where
  kvCache layerIdx := some
    { length := rows.length
      key := fun t => (rows.getD t 0 layerIdx).1
      value := fun t => (rows.getD t 0 layerIdx).2 }
  recurrentState layerIdx :=
    if hybrid : (hybridParams model layerIdx).isSome then
      some (fun h => ⟨(state ⟨layerIdx, hybrid⟩).1 h, (state ⟨layerIdx, hybrid⟩).2 h⟩)
    else
      none

def statesOf (cache : BlockDiffusionCache D F K) (layerIdx : Nat) :
    HeadStates D F K × HeadSums F K :=
  match cache.recurrentState layerIdx with
  | none => 0
  | some states => (fun h => (states h).S, fun h => (states h).Z)

def rowOf (cache : BlockDiffusionCache D F K) (t : Nat) : KvRow D K := fun layerIdx =>
  match cache.kvCache layerIdx with
  | none => 0
  | some kv => (kv.key t, kv.value t)

variable [LinearOrder K] [ExpOps K] [Add X] [NeZero B]

def committedCache (state : HybridLayer model → HeadStates D F K × HeadSums F K)
    (rows : List (KvRow D K)) (block : Block B V) : BlockDiffusionCache D F K :=
  (model.forwardBlock B .commit (cacheOf model state rows) (rows.length / B) block).2

def servedTransformer :
    ServedModel (HybridLayer model) (HeadStates D F K) (HeadSums F K) (KvRow D K) B V K where
  logits state rows block :=
    (model.forwardBlock B .read (cacheOf model state rows) (rows.length / B) block).1
  contribution state rows block layerIdx :=
    statesOf (committedCache model state rows block) layerIdx - state layerIdx
  kvRows state rows block j := rowOf (committedCache model state rows block) (rows.length + j)

end Served

/-! What a block adds to the normaliser of a hybrid layer is positive. -/

section Positive

variable [Field K] [LinearOrder K] [ExpOps K]

theorem forwardLayers_recurrentState {S : Nat} [NeZero S] [Add X] {start length layerIdx i : Nat}
    {layers : List (DecoderLayer X D F K)} {hidden : Nat → X} {cache : BlockDiffusionCache D F K}
    {params : HybridParams D F K}
    (hparams : layers[i]?.bind DecoderLayer.linearAttention = some params) :
    ∃ heads : Nat → HeadTokens D K, (∀ h, (heads h).length = length) ∧
      (forwardLayersWithPrefixCache S .commit start length layerIdx layers hidden
        cache).2.recurrentState (layerIdx + i) =
      some (forward params S heads none (cache.recurrentState (layerIdx + i))).2 := by
  induction layers generalizing layerIdx i hidden cache with
  | nil => cases hparams
  | cons layer layers ih =>
      cases i with
      | zero =>
          have hlinear : layer.linearAttention = some params := hparams
          refine ⟨layer.headTokens length (fun p => layer.qkvStates (start + p) (hidden p)),
            fun _ => rfl, ?_⟩
          refine (forwardLayersWithPrefixCache_sameEntry .commit start length
            (Nat.lt_succ_self layerIdx)).2.symm.trans ?_
          simp only [DecoderLayer.forwardWithPrefixCache, DecoderLayer.attendWithPrefixCache,
            hlinear, BlockDiffusionCache.updateRecurrentState, Nat.add_zero,
            Function.update_self]
      | succ i =>
          have hearlier : SameEntry (layerIdx + 1 + i) cache
              (layer.forwardWithPrefixCache S layerIdx .commit start length hidden cache).2 :=
            attendWithPrefixCache_sameEntry .commit length (by omega)
          rw [← Nat.add_assoc, Nat.add_right_comm, hearlier.2]
          exact ih hparams

variable [Add X] [NeZero B] {model : Transformer X D F V K}

theorem committedCache_recurrentState {layerIdx : Nat} {params : HybridParams D F K}
    (hparams : hybridParams model layerIdx = some params)
    (state : HybridLayer model → HeadStates D F K × HeadSums F K) (rows : List (KvRow D K))
    (block : Block B V) :
    ∃ heads : Nat → HeadTokens D K, (∀ h, (heads h).length = B) ∧
      (committedCache model state rows block).recurrentState layerIdx =
        some (forward params B heads none
          ((cacheOf model state rows).recurrentState layerIdx)).2 := by
  rw [← Nat.zero_add layerIdx]
  exact forwardLayers_recurrentState hparams

variable [LawfulExp K] [IsStrictOrderedRing K]

theorem contribution_sums_pos (layerIdx : HybridLayer model)
    (state : HybridLayer model → HeadStates D F K × HeadSums F K) (rows : List (KvRow D K))
    (block : Block B V) (h : Nat) (f : Feature F) :
    0 < ((servedTransformer model).contribution state rows block layerIdx).2 h f := by
  obtain ⟨layerIdx, hybrid⟩ := layerIdx
  obtain ⟨params, hparams⟩ := Option.isSome_iff_exists.mp hybrid
  obtain ⟨heads, hlength, hstate⟩ := committedCache_recurrentState hparams state rows block
  have hwhole : (heads h).length = 1 * B := (hlength h).trans (Nat.one_mul B).symm
  have hstart : ((cacheOf model state rows).recurrentState layerIdx).getD
      (fun _ => RecurrentState.zero) h =
      ⟨(state ⟨layerIdx, hybrid⟩).1 h, (state ⟨layerIdx, hybrid⟩).2 h⟩ := by
    rw [cacheOf]
    simp only [dif_pos hybrid, Option.getD_some]
  have hsum : (statesOf (committedCache model state rows block) layerIdx).2 h f =
      (state ⟨layerIdx, hybrid⟩).2 h f +
        ∑ s, featureMap (params.hedgehogWeights (params.stateHead h))
          (blockTokens B (heads h).length (heads h).k 0 s) f := by
    rw [statesOf, hstate]
    change ((forward params B heads none _).2 h).Z f = _
    rw [forward_state_of_whole heads hwhole, hstart]
    rfl
  change 0 < (statesOf (committedCache model state rows block) layerIdx).2 h f -
    (state ⟨layerIdx, hybrid⟩).2 h f
  rw [hsum, add_sub_cancel_left]
  exact Finset.sum_pos (fun s _ => featureMap_pos _ _ f) Finset.univ_nonempty

theorem replay_sums_nonneg (layerIdx : HybridLayer model) (blocks : List (Block B V)) (h : Nat)
    (f : Feature F) :
    0 ≤ (((servedTransformer model).replay blocks).state layerIdx).2 h f := by
  induction blocks using List.reverseRecOn with
  | nil => exact le_rfl
  | append_singleton blocks tokens ih =>
      rw [ServedModel.replay_concat]
      exact add_nonneg ih (contribution_sums_pos layerIdx _ _ tokens h f).le

theorem replay_state_ne_zero [NeZero F] (layerIdx : HybridLayer model) {blocks : List (Block B V)}
    (hblocks : blocks ≠ []) : ((servedTransformer model).replay blocks).state ≠ 0 := by
  obtain ⟨earlier, tokens, rfl⟩ := (List.eq_nil_or_concat' blocks).resolve_left hblocks
  have hpos : 0 < (((servedTransformer model).replay (earlier ++ [tokens])).state layerIdx).2 0
      (.inl 0) := by
    rw [ServedModel.replay_concat]
    exact add_pos_of_nonneg_of_pos (replay_sums_nonneg layerIdx earlier 0 (.inl 0))
      (contribution_sums_pos layerIdx _ _ tokens 0 (.inl 0))
  intro hzero
  rw [hzero] at hpos
  exact lt_irrefl 0 hpos

end Positive

end LladaHybrid.Serving
