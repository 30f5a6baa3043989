import LladaHybrid.Attention.BlockRecurrence
import LladaHybrid.Model.Transformer

namespace LladaHybrid.Model

open LladaHybrid.Library LladaHybrid.Decode LladaHybrid.Generate LladaHybrid.Attention

/-! The meaning of a window of any length: every position sees the blocks up to its own.
This is a function of an unbounded token sequence, and both ways to run the model
compute it. -/

variable {X : Type*} {D F V S : Nat} {K : Type*}

theorem block_end_le [NeZero S] {n p : Nat} (hp : p < n * S) : (p / S + 1) * S ≤ n * S :=
  Nat.mul_le_mul_right S ((Nat.div_lt_iff_lt_mul (NeZero.pos S)).mpr hp)

theorem visible_eq_range [NeZero S] {length p : Nat} (hle : (p / S + 1) * S ≤ length) :
    (Finset.range length).filter (fun t => blockDiffusionAttentionMask S p t) =
      Finset.range ((p / S + 1) * S) := by
  ext t
  have hmask : t / S ≤ p / S ↔ t < (p / S + 1) * S := by
    rw [← Nat.div_lt_iff_lt_mul (NeZero.pos S), Nat.lt_succ_iff]
  simp only [Finset.mem_filter, Finset.mem_range, blockDiffusionAttentionMask,
    decide_eq_true_eq, hmask]
  omega

section Congruence

variable [Field K] [ExpOps K] {layer : DecoderLayer X D F K}
  {states states' : Nat → QkvStates D K}

theorem eagerAttention_congr {scaling : K} {query : Vec D K}
    {key key' value value' : Nat → Vec D K} {visible : Finset Nat}
    (hkey : ∀ t ∈ visible, key t = key' t) (hvalue : ∀ t ∈ visible, value t = value' t) :
    eagerAttention scaling query key value visible =
      eagerAttention scaling query key' value' visible := by
  have hscore : ∀ t ∈ visible, exp ((∑ d, query d * key t d) * scaling) =
      exp ((∑ d, query d * key' t d) * scaling) := by
    intro t ht
    rw [hkey t ht]
  funext d
  simp only [eagerAttention]
  rw [Finset.sum_congr rfl hscore]
  apply Finset.sum_congr rfl
  intro t ht
  rw [hscore t ht, hvalue t ht]

omit [ExpOps K] in
theorem headTokens_sameBlock {length length' b b' : Nat} (hle : (b + 1) * S ≤ length)
    (hle' : (b' + 1) * S ≤ length')
    (hsame : ∀ s < S, states (b * S + s) = states' (b' * S + s)) (h : Nat) :
    SameBlock S (layer.headTokens length states h) (layer.headTokens length' states' h)
      none none b b' := by
  apply sameBlock_of_forall hle hle'
  intro s hs
  simp only [DecoderLayer.headTokens, KvStates.headKeys, KvStates.headValues, repeatKv,
    kvStates, hsame s hs, and_self]

theorem stateAfter_headTokens_congr (layer : DecoderLayer X D F K)
    (params : HybridParams D F K) {length length' n : Nat}
    (hle : n * S ≤ length) (hle' : n * S ≤ length')
    (hsame : ∀ t < n * S, states t = states' t) (initial : RecurrentState D F K) (h : Nat) :
    stateAfter params h (layer.headTokens length states h) none initial S n =
      stateAfter params h (layer.headTokens length' states' h) none initial S n := by
  apply stateAfter_congr
  intro b hb
  have hend : (b + 1) * S ≤ n * S := Nat.mul_le_mul_right S hb
  apply headTokens_sameBlock (hend.trans hle) (hend.trans hle')
  intro s hs
  rw [Nat.succ_mul] at hend
  exact hsame _ (by omega)

end Congruence

theorem kvStates_length (length : Nat) (states : Nat → QkvStates D K) :
    (kvStates length states).length = length := rfl

theorem headTokens_length (layer : DecoderLayer X D F K) (length : Nat)
    (states : Nat → QkvStates D K) (h : Nat) :
    (layer.headTokens length states h).length = length := rfl

section Causal

variable [Field K] [LinearOrder K] [ExpOps K]

namespace DecoderLayer

/-- The heads at a position, in the shortest window that holds it. -/
def causalAttend (layer : DecoderLayer X D F K) (S : Nat) [NeZero S]
    (states : Nat → QkvStates D K) (p h : Nat) : Vec D K :=
  layer.attend S (blockDiffusionAttentionMask S) ((p / S + 1) * S) states p h

def causalForward [Add X] (layer : DecoderLayer X D F K) (S : Nat) [NeZero S]
    (hidden : Nat → X) (p : Nat) : X :=
  layer.residualOutput (hidden p)
    (layer.causalAttend S (fun t => layer.qkvStates t (hidden t)) p)

variable {layer : DecoderLayer X D F K} [NeZero S] {states states' : Nat → QkvStates D K}
  {n : Nat}

theorem attend_eq_causalAttend {p : Nat} (hp : p < n * S)
    (hsame : ∀ t < n * S, states t = states' t) (h : Nat) :
    layer.attend S (blockDiffusionAttentionMask S) (n * S) states p h =
      layer.causalAttend S states' p h := by
  have hend := block_end_le hp
  have hown : p / S * S + p % S = p := Nat.div_add_mod' p S
  have hsame' : ∀ t < (p / S + 1) * S, states t = states' t :=
    fun t ht => hsame t (ht.trans_le hend)
  unfold causalAttend attend
  cases hlinear : layer.linearAttention with
  | some params =>
      have hstart : p / S * S ≤ (p / S + 1) * S := Nat.mul_le_mul_right S (Nat.le_succ _)
      have hblock : SameBlock S (layer.headTokens (n * S) states h)
          (layer.headTokens ((p / S + 1) * S) states' h) none none (p / S) (p / S) := by
        apply headTokens_sameBlock hend le_rfl
        intro s hs
        apply hsame'
        rw [Nat.succ_mul]
        omega
      have hstate := stateAfter_headTokens_congr layer params
        (hstart.trans hend) hstart (fun t ht => hsame' t (ht.trans_le hstart))
        RecurrentState.zero h
      have hout := headOut_congr hblock hstate ⟨p % S, Nat.mod_lt p (NeZero.pos S)⟩
      simp only [hown] at hout
      simp only [forward_output_of_whole _ (headTokens_length layer (n * S) states h),
        forward_output_of_whole _ (headTokens_length layer ((p / S + 1) * S) states' h)]
      exact hout
  | none =>
      simp only [softmaxAttention]
      rw [kvStates_length, kvStates_length, visible_eq_range hend, visible_eq_range le_rfl,
        hsame p hp]
      apply eagerAttention_congr
      · intro t ht
        simp only [KvStates.headKeys, repeatKv, kvStates, hsame' t (Finset.mem_range.mp ht)]
      · intro t ht
        simp only [KvStates.headValues, repeatKv, kvStates, hsame' t (Finset.mem_range.mp ht)]

variable [Add X] {hidden hidden' : Nat → X}

theorem forward_eq_causalForward {p : Nat} (hp : p < n * S)
    (hsame : ∀ t < n * S, hidden t = hidden' t) :
    layer.forward S (blockDiffusionAttentionMask S) (n * S) hidden p =
      layer.causalForward S hidden' p := by
  have hheads : layer.attend S (blockDiffusionAttentionMask S) (n * S)
      (fun t => layer.qkvStates t (hidden t)) p =
      layer.causalAttend S (fun t => layer.qkvStates t (hidden' t)) p := by
    funext h
    apply attend_eq_causalAttend hp
    intro t ht
    rw [hsame t ht]
  simp only [forward, causalForward, hheads, hsame p hp]

end DecoderLayer

variable [Add X]

def causalLayers (S : Nat) [NeZero S] :
    List (DecoderLayer X D F K) → (Nat → X) → Nat → X
  | [], hidden => hidden
  | layer :: layers, hidden => causalLayers S layers (layer.causalForward S hidden)

variable [NeZero S] {n : Nat} {hidden hidden' : Nat → X}

theorem forwardLayers_eq_causalLayers (layers : List (DecoderLayer X D F K))
    (hsame : ∀ t < n * S, hidden t = hidden' t) {p : Nat} (hp : p < n * S) :
    forwardLayers S (blockDiffusionAttentionMask S) (n * S) layers hidden p =
      causalLayers S layers hidden' p := by
  induction layers generalizing hidden hidden' with
  | nil => exact hsame p hp
  | cons layer layers ih =>
      apply ih
      intro t ht
      exact DecoderLayer.forward_eq_causalForward ht hsame

theorem causalForward_congr {layer : DecoderLayer X D F K}
    (hsame : ∀ t < n * S, hidden t = hidden' t) {p : Nat} (hp : p < n * S) :
    layer.causalForward S hidden p = layer.causalForward S hidden' p := by
  rw [← DecoderLayer.forward_eq_causalForward hp (fun t _ => rfl),
    DecoderLayer.forward_eq_causalForward hp hsame]

/-- The hidden states that the blocks of a row stand for. -/
def Transformer.causalHidden (model : Transformer X D F V K) (S : Nat) [NeZero S]
    (x : Tokens S V) : Nat → X :=
  causalLayers S model.layers (fun t => model.wordEmbeddings (tokenAt x t))

theorem Transformer.forwardWindow_eq_causalHidden (model : Transformer X D F V K)
    (x : Tokens S V) (numBlock : Nat) :
    model.forwardWindow S numBlock (window x numBlock) =
      fun j : Fin S => model.logits (model.causalHidden S x (numBlock * S + j)) := by
  funext j
  have hj : numBlock * S + j < (numBlock + 1) * S := by
    have := j.isLt
    rw [Nat.succ_mul]
    omega
  simp only [forwardWindow]
  rw [forwardLayers_eq_causalLayers _ _ hj]
  · rfl
  · intro t ht
    have hblock : t / S < numBlock + 1 := (Nat.div_lt_iff_lt_mul (NeZero.pos S)).mpr ht
    simp only [window, tokenAt, Fin.val_ofNat, Nat.mod_eq_of_lt hblock]

end Causal

end LladaHybrid.Model
