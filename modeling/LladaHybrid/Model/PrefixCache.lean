import LladaHybrid.Model.BlockCausal

namespace LladaHybrid.Model

open LladaHybrid.Library LladaHybrid.Decode LladaHybrid.Generate LladaHybrid.Attention

/-! What a `BlockDiffusionCache` stands for: after `n` committed blocks each layer holds
the keys and values, or the recurrent state, of exactly those blocks. -/

variable {X : Type*} {D F V S : Nat} {K : Type*}

/-- The rows of a softmax layer for the first `length` positions. -/
def RowsHeld (rows : Option (KvStates D K)) (states : Nat → QkvStates D K)
    (length : Nat) : Prop :=
  match rows with
  | none => length = 0
  | some kv => kv.length = length ∧
      ∀ t < length, kv.key t = (states t).key ∧ kv.value t = (states t).value

theorem RowsHeld.append {rows : Option (KvStates D K)} {states block : Nat → QkvStates D K}
    {start length : Nat} (held : RowsHeld rows states start)
    (hblock : ∀ j < length, block j = states (start + j)) :
    RowsHeld (some (appendRows rows (kvStates length block))) states (start + length) := by
  cases rows with
  | none =>
      have hstart : start = 0 := held
      subst hstart
      refine ⟨(Nat.zero_add length).symm, fun t ht => ?_⟩
      rw [Nat.zero_add] at ht
      simp only [appendRows, kvStates, hblock t ht, Nat.zero_add, and_self]
  | some past =>
      obtain ⟨hlength, hrows⟩ := held
      refine ⟨congrArg (· + length) hlength, fun t ht => ?_⟩
      by_cases hpast : t < start
      · simp only [appendRows, KvStates.cat, hlength, if_pos hpast]
        exact hrows t hpast
      · have hnew := hblock (t - start) (by omega)
        rw [Nat.add_sub_of_le (Nat.le_of_not_lt hpast)] at hnew
        simp only [appendRows, KvStates.cat, hlength, if_neg hpast, kvStates, hnew, and_self]

theorem RowsHeld.congr {rows : Option (KvStates D K)} {states states' : Nat → QkvStates D K}
    {length : Nat} (held : RowsHeld rows states length)
    (hsame : ∀ t < length, states t = states' t) : RowsHeld rows states' length := by
  cases rows with
  | none => exact held
  | some kv =>
      refine ⟨held.1, fun t ht => ?_⟩
      rw [← hsame t ht]
      exact held.2 t ht

def SameEntry (layerIdx : Nat) (cache cache' : BlockDiffusionCache D F K) : Prop :=
  cache.kvCache layerIdx = cache'.kvCache layerIdx ∧
    cache.recurrentState layerIdx = cache'.recurrentState layerIdx

theorem SameEntry.trans {layerIdx : Nat} {first second third : BlockDiffusionCache D F K}
    (hfirst : SameEntry layerIdx first second) (hsecond : SameEntry layerIdx second third) :
    SameEntry layerIdx first third :=
  ⟨hfirst.1.trans hsecond.1, hfirst.2.trans hsecond.2⟩

section Held

variable [Field K] [ExpOps K]

/-- The cache entry of one layer after `n` blocks. -/
def LayerHeld (layer : DecoderLayer X D F K) (S : Nat) (states : Nat → QkvStates D K)
    (n layerIdx : Nat) (cache : BlockDiffusionCache D F K) : Prop :=
  match layer.linearAttention with
  | some params => cache.recurrentState layerIdx = some (fun h =>
      stateAfter params h (layer.headTokens (n * S) states h) none RecurrentState.zero S n)
  | none => RowsHeld (cache.kvCache layerIdx) states (n * S)

theorem LayerHeld.congr {layer : DecoderLayer X D F K} {states states' : Nat → QkvStates D K}
    {n layerIdx : Nat} {cache : BlockDiffusionCache D F K}
    (held : LayerHeld layer S states n layerIdx cache)
    (hsame : ∀ t < n * S, states t = states' t) :
    LayerHeld layer S states' n layerIdx cache := by
  unfold LayerHeld at held ⊢
  cases hlinear : layer.linearAttention with
  | none =>
      rw [hlinear] at held
      exact RowsHeld.congr held hsame
  | some params =>
      rw [hlinear] at held
      simp only [held, Option.some.injEq]
      funext h
      exact stateAfter_headTokens_congr layer params le_rfl le_rfl hsame _ h

theorem LayerHeld.of_sameEntry {layer : DecoderLayer X D F K}
    {states : Nat → QkvStates D K} {n layerIdx : Nat} {cache cache' : BlockDiffusionCache D F K}
    (held : LayerHeld layer S states n layerIdx cache)
    (same : SameEntry layerIdx cache cache') :
    LayerHeld layer S states n layerIdx cache' := by
  unfold LayerHeld at held ⊢
  rwa [same.1, same.2] at held

end Held

section Attend

variable [Field K] [LinearOrder K] [ExpOps K] [NeZero S] {layer : DecoderLayer X D F K}
  {states block : Nat → QkvStates D K} {n layerIdx : Nat} {cache : BlockDiffusionCache D F K}

theorem attendWithPrefixCache_read :
    (layer.attendWithPrefixCache S layerIdx .read n block cache).2 = cache := by
  unfold DecoderLayer.attendWithPrefixCache
  cases layer.linearAttention <;> rfl

theorem attendWithPrefixCache_sameEntry (mode : CacheMode) (length : Nat) {other : Nat}
    (hne : other ≠ layerIdx) :
    SameEntry other cache
      (layer.attendWithPrefixCache S layerIdx mode length block cache).2 := by
  unfold DecoderLayer.attendWithPrefixCache
  cases layer.linearAttention <;> cases mode <;>
    simp [SameEntry, BlockDiffusionCache.updateKv, BlockDiffusionCache.updateRecurrentState,
      Function.update_of_ne hne]

omit [LinearOrder K] [ExpOps K] [NeZero S] in
theorem block_sameBlock (layer : DecoderLayer X D F K)
    (hblock : ∀ j < S, block j = states (n * S + j)) (h : Nat) :
    SameBlock S (layer.headTokens S block h) (layer.headTokens ((n + 1) * S) states h)
      none none 0 n := by
  apply headTokens_sameBlock (by omega) le_rfl
  intro s hs
  rw [Nat.zero_mul, Nat.zero_add]
  exact hblock s hs

omit [LinearOrder K] [NeZero S] in
theorem stateAfter_extend (layer : DecoderLayer X D F K) (params : HybridParams D F K) (h : Nat) :
    stateAfter params h (layer.headTokens (n * S) states h) none RecurrentState.zero S n =
      stateAfter params h (layer.headTokens ((n + 1) * S) states h) none
        RecurrentState.zero S n := by
  apply stateAfter_headTokens_congr layer params le_rfl
    (Nat.mul_le_mul_right S (Nat.le_succ n))
  intro t _
  rfl

theorem attendWithPrefixCache_heads (mode : CacheMode)
    (held : LayerHeld layer S states n layerIdx cache)
    (hblock : ∀ j < S, block j = states (n * S + j)) {j : Nat} (hj : j < S) (h : Nat) :
    (layer.attendWithPrefixCache S layerIdx mode S block cache).1 j h =
      layer.causalAttend S states (n * S + j) h := by
  have hn : (n * S + j) / S = n := block_div n ⟨j, hj⟩
  unfold DecoderLayer.attendWithPrefixCache DecoderLayer.causalAttend DecoderLayer.attend
  unfold LayerHeld at held
  cases hlinear : layer.linearAttention with
  | some params =>
      rw [hlinear] at held
      have hout := headOut_congr (block_sameBlock layer hblock h)
        (stateAfter_extend layer params h) ⟨j, hj⟩
      simp only [Nat.zero_mul, Nat.zero_add] at hout
      have hwhole : (layer.headTokens S block h).length = 1 * S := (Nat.one_mul S).symm
      simp only [hn, held]
      rw [forward_output_of_whole _ hwhole,
        forward_output_of_whole _ (headTokens_length layer ((n + 1) * S) states h)]
      exact hout
  | none =>
      rw [hlinear] at held
      obtain ⟨hlength, hrows⟩ := RowsHeld.append held hblock
      have hend : (n * S + j) / S + 1 = n + 1 := congrArg (· + 1) hn
      simp only [DecoderLayer.softmaxAttention]
      rw [hlength, kvStates_length, visible_eq_range le_rfl, hend, hblock j hj, Nat.succ_mul,
        Finset.filter_true_of_mem (fun _ _ => trivial)]
      apply eagerAttention_congr
      · intro t ht
        exact congrFun (hrows t (Finset.mem_range.mp ht)).1 _
      · intro t ht
        exact congrFun (hrows t (Finset.mem_range.mp ht)).2 _

theorem attendWithPrefixCache_commit (held : LayerHeld layer S states n layerIdx cache)
    (hblock : ∀ j < S, block j = states (n * S + j)) :
    LayerHeld layer S states (n + 1) layerIdx
      (layer.attendWithPrefixCache S layerIdx .commit S block cache).2 := by
  unfold DecoderLayer.attendWithPrefixCache
  unfold LayerHeld at held ⊢
  cases hlinear : layer.linearAttention with
  | some params =>
      rw [hlinear] at held
      simp only [BlockDiffusionCache.updateRecurrentState, Function.update_self, held,
        Option.some.injEq]
      funext h
      have hwhole : (layer.headTokens S block h).length = 1 * S := (Nat.one_mul S).symm
      rw [forward_state_of_whole _ hwhole]
      exact stateAfter_succ_congr (block_sameBlock layer hblock h)
        (stateAfter_extend layer params h)
  | none =>
      rw [hlinear] at held
      have happend := RowsHeld.append held hblock
      rw [← Nat.succ_mul] at happend
      simpa only [BlockDiffusionCache.updateKv, Function.update_self] using happend

end Attend

section Layers

variable [Field K] [LinearOrder K] [ExpOps K] [Add X] [NeZero S]

/-- Every layer from `layerIdx` on holds the first `n` blocks of the hidden states that
reach it. -/
def LayersHeld (S : Nat) [NeZero S] (n : Nat) (cache : BlockDiffusionCache D F K) :
    Nat → List (DecoderLayer X D F K) → (Nat → X) → Prop
  | _, [], _ => True
  | layerIdx, layer :: layers, hidden =>
      LayerHeld layer S (fun t => layer.qkvStates t (hidden t)) n layerIdx cache ∧
        LayersHeld S n cache (layerIdx + 1) layers (layer.causalForward S hidden)

variable {n layerIdx : Nat} {layers : List (DecoderLayer X D F K)} {hidden hidden' : Nat → X}
  {cache cache' : BlockDiffusionCache D F K}

theorem LayersHeld.of_sameEntry (held : LayersHeld S n cache layerIdx layers hidden)
    (same : ∀ other, layerIdx ≤ other → SameEntry other cache cache') :
    LayersHeld S n cache' layerIdx layers hidden := by
  induction layers generalizing layerIdx hidden with
  | nil => trivial
  | cons layer layers ih =>
      exact ⟨held.1.of_sameEntry (same layerIdx le_rfl),
        ih held.2 (fun other hother => same other (by omega))⟩

theorem LayersHeld.congr (held : LayersHeld S n cache layerIdx layers hidden)
    (hsame : ∀ t < n * S, hidden t = hidden' t) :
    LayersHeld S n cache layerIdx layers hidden' := by
  induction layers generalizing layerIdx hidden hidden' with
  | nil => trivial
  | cons layer layers ih =>
      refine ⟨held.1.congr (fun t ht => by rw [hsame t ht]), ih held.2 ?_⟩
      intro t ht
      exact causalForward_congr hsame ht

theorem forwardLayersWithPrefixCache_read (start length : Nat) :
    (forwardLayersWithPrefixCache S .read start length layerIdx layers hidden cache).2 =
      cache := by
  induction layers generalizing layerIdx hidden with
  | nil => rfl
  | cons layer layers ih =>
      simp only [forwardLayersWithPrefixCache, DecoderLayer.forwardWithPrefixCache,
        attendWithPrefixCache_read, ih]

theorem forwardLayersWithPrefixCache_sameEntry (mode : CacheMode) (start length : Nat)
    {other : Nat} (hother : other < layerIdx) :
    SameEntry other cache
      (forwardLayersWithPrefixCache S mode start length layerIdx layers hidden cache).2 := by
  induction layers generalizing layerIdx hidden cache with
  | nil => exact ⟨rfl, rfl⟩
  | cons layer layers ih =>
      refine SameEntry.trans ?_ (ih (Nat.lt_succ_of_lt hother))
      exact attendWithPrefixCache_sameEntry mode length hother.ne

variable {block : Nat → X}

theorem forwardWithPrefixCache_hidden {layer : DecoderLayer X D F K} (mode : CacheMode)
    (held : LayerHeld layer S (fun t => layer.qkvStates t (hidden t)) n layerIdx cache)
    (hblock : ∀ j < S, block j = hidden (n * S + j)) {j : Nat} (hj : j < S) :
    (layer.forwardWithPrefixCache S layerIdx mode (n * S) S block cache).1 j =
      layer.causalForward S hidden (n * S + j) := by
  have hheads : (layer.attendWithPrefixCache S layerIdx mode S
      (fun p => layer.qkvStates (n * S + p) (block p)) cache).1 j =
      layer.causalAttend S (fun t => layer.qkvStates t (hidden t)) (n * S + j) := by
    funext h
    apply attendWithPrefixCache_heads mode held _ hj
    intro i hi
    rw [hblock i hi]
  simp only [DecoderLayer.forwardWithPrefixCache, DecoderLayer.causalForward, hheads,
    hblock j hj]

theorem forwardLayersWithPrefixCache_hidden (mode : CacheMode)
    (held : LayersHeld S n cache layerIdx layers hidden)
    (hblock : ∀ j < S, block j = hidden (n * S + j)) {j : Nat} (hj : j < S) :
    (forwardLayersWithPrefixCache S mode (n * S) S layerIdx layers block cache).1 j =
      causalLayers S layers hidden (n * S + j) := by
  induction layers generalizing layerIdx hidden block cache with
  | nil => exact hblock j hj
  | cons layer layers ih =>
      apply ih
      · apply held.2.of_sameEntry
        intro other hother
        exact attendWithPrefixCache_sameEntry mode S (by omega)
      · intro i hi
        exact forwardWithPrefixCache_hidden mode held.1 hblock hi

theorem forwardLayersWithPrefixCache_commit
    (held : LayersHeld S n cache layerIdx layers hidden)
    (hblock : ∀ j < S, block j = hidden (n * S + j)) :
    LayersHeld S (n + 1)
      (forwardLayersWithPrefixCache S .commit (n * S) S layerIdx layers block cache).2
      layerIdx layers hidden := by
  induction layers generalizing layerIdx hidden block cache with
  | nil => trivial
  | cons layer layers ih =>
      constructor
      · have hown : LayerHeld layer S (fun t => layer.qkvStates t (hidden t)) (n + 1) layerIdx
            (layer.forwardWithPrefixCache S layerIdx .commit (n * S) S block cache).2 := by
          apply attendWithPrefixCache_commit held.1
          intro j hj
          rw [hblock j hj]
        apply hown.of_sameEntry
        exact forwardLayersWithPrefixCache_sameEntry .commit (n * S) S (Nat.lt_succ_self layerIdx)
      · apply ih
        · apply held.2.of_sameEntry
          intro other hother
          exact attendWithPrefixCache_sameEntry .commit S (by omega)
        · intro i hi
          exact forwardWithPrefixCache_hidden .commit held.1 hblock hi

end Layers

end LladaHybrid.Model
