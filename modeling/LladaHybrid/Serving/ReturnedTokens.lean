import LladaHybrid.Serving.BlockProgress
import LladaHybrid.Decode.FinalTokens

namespace LladaHybrid.Serving

open LladaHybrid.Library LladaHybrid.Decode

/-! The tokens `JointThreshold.run` returns for a request. It finds their start by counting
the tokens of the block that are no masks. -/

variable {Kv K : Type} {B V : Nat}

section Known

variable {maskId : Fin V} {rest : List (Fin V)}

theorem blockOf_take (maskId : Fin V) (rest : List (Fin V)) :
    blockOf (B := B) maskId (rest.take B) = blockOf maskId rest := by
  funext j
  rw [blockOf, blockOf, List.getD_eq_getElem?_getD, List.getD_eq_getElem?_getD,
    List.getElem?_take_of_lt j.isLt]

theorem sub_card_lt_of_mem (hlength : rest.length ≤ B) (hmem : maskId ∈ rest) :
    B - (maskIndex maskId (blockOf (B := B) maskId rest)).card < rest.length := by
  obtain ⟨n, hn, hmask⟩ := List.getElem_of_mem hmem
  have hmasked : blockOf maskId rest (⟨n, hn.trans_le hlength⟩ : Fin B) = maskId := by
    rw [blockOf, List.getD_eq_getElem _ _ hn, hmask]
  calc
    B - (maskIndex maskId (blockOf (B := B) maskId rest)).card =
        (Finset.univ.filter (fun j : Fin B => blockOf maskId rest j ≠ maskId)).card :=
      card_compl_maskIndex maskId _
    _ < (Finset.univ.filter (fun j : Fin B => j.val < rest.length)).card := by
      apply Finset.card_lt_card
      rw [Finset.ssubset_iff_of_subset]
      · refine ⟨⟨n, hn.trans_le hlength⟩, by simpa using hn, ?_⟩
        simp [hmasked]
      · intro j hj
        rw [Finset.mem_filter] at hj ⊢
        exact ⟨hj.1, lt_length_of_blockOf_ne hj.2⟩
    _ = rest.length := by
      rw [card_val_lt, min_eq_left hlength]

end Known

/-- The tokens of its next block that a request already has. -/
def Req.knownTokens (B : Nat) (req : Req V Kv) : List (Fin V) :=
  (req.tokens.drop req.prefixIndices.length).take B

/-- The block that `_init_fill_ids_for_dllm` and the adder lay out. -/
def Req.filledBlock (B : Nat) (maskId : Fin V) (req : Req V Kv) : Block B V :=
  ((req.initFillIdsForDllm B maskId).addDllmReq B).inputBlock B maskId

theorem Req.length_knownTokens_le (req : Req V Kv) : (req.knownTokens B).length ≤ B :=
  List.length_take_le _ _

theorem Req.filledBlock_eq {req : Req V Kv} {maskId : Fin V}
    (hcached : req.prefixIndices.length ≤ req.tokens.length) :
    req.filledBlock B maskId = blockOf maskId (req.knownTokens B) := by
  rw [knownTokens, blockOf_take]
  exact Req.inputBlock_eq rfl hcached

variable [Field K] [LinearOrder K] [ExpOps K] [TopK K] [NeZero V] {σ : Type} {R : Nat}

/-- A request gets back the tokens that follow its known ones exactly when no known token
is the mask token. -/
theorem nextTokenIds_eq_generated_iff (alg : JointThreshold V K)
    (model : ModelRunner σ R B V K) (runner : σ) (ids : Fin R → Block B V) (i : Fin R)
    {req : Req V Kv} (hcached : req.prefixIndices.length ≤ req.tokens.length)
    (hids : ids i = req.filledBlock B alg.maskId) :
    (0 < B + alg.maxPostEditSteps → (alg.run model runner ids).isSome) ∧
    ∀ res, alg.run model runner ids = some res →
      let next := res.nextTokenIdsList.getD i []
      let k := (req.knownTokens B).length
      (next.length = B - k ∧ next = (List.ofFn (res.inputIds i)).drop k) ↔
        alg.maskId ∉ req.knownTokens B := by
  refine ⟨fun hpos => (alg.run_isSome_iff model runner ids).mpr (Or.inr hpos), ?_⟩
  intro res hres next k
  have hle : k ≤ B := req.length_knownTokens_le
  have hnext : next = (List.ofFn (res.inputIds i)).drop
      (B - (maskIndex alg.maskId (blockOf (B := B) alg.maskId (req.knownTokens B))).card) := by
    rw [← Req.filledBlock_eq hcached, ← hids]
    exact (JointThreshold.run_fillsMasks hres).next i
  constructor
  · rintro ⟨hlength, -⟩ hmem
    have hstart := sub_card_lt_of_mem req.length_knownTokens_le hmem
    rw [hnext, List.length_drop, List.length_ofFn] at hlength
    omega
  · intro hnot
    rw [sub_card_of_notMem hnot, min_eq_left hle] at hnext
    refine ⟨?_, hnext⟩
    rw [hnext, List.length_drop, List.length_ofFn]

/-! One request with a prompt of one token, blocks of 32 tokens. -/

namespace OneToken

noncomputable def alg : JointThreshold 2 ℝ := .ofConfig (Fin.last 1) ⟨none, none, none, none⟩

def model : ModelRunner Unit 1 32 2 ℝ where
  forward _ _ := (⟨fun _ _ _ => 0, false⟩, ())

def req (token : Fin 2) : Req 2 Unit := .new 32 [token]

theorem nextTokenIds_eq_generated_plain :
    ∃ res, alg.run model () (fun _ => (req 0).filledBlock 32 1) = some res ∧
      (res.nextTokenIdsList.getD 0 []).length = 31 := by
  have hrun := nextTokenIds_eq_generated_iff alg model ()
    (fun _ => (req 0).filledBlock 32 1) 0 (Nat.zero_le _) rfl
  obtain ⟨res, hres⟩ := Option.isSome_iff_exists.mp (hrun.1 (by decide))
  exact ⟨res, hres, ((hrun.2 res hres).mpr (by decide)).1⟩

/-- The prompt is the mask token: its position is returned as a generated one. -/
theorem nextTokenIds_ne_generated_mask :
    ∃ res, alg.run model () (fun _ => (req 1).filledBlock 32 1) = some res ∧
      ((req 1).knownTokens 32).length = 1 ∧
      (res.nextTokenIdsList.getD 0 []).length = 32 := by
  have hreturns : (alg.run model () (fun _ => (req 1).filledBlock 32 1)).isSome :=
    (alg.run_isSome_iff model () _).mpr (Or.inr (by decide))
  obtain ⟨res, hres⟩ := Option.isSome_iff_exists.mp hreturns
  have hnext := (JointThreshold.run_fillsMasks hres).next 0
  have hstart := sub_card_lt_of_mem (req 1).length_knownTokens_le
    (show (1 : Fin 2) ∈ (req 1).knownTokens 32 by decide)
  rw [← Req.filledBlock_eq (Nat.zero_le _)] at hstart
  refine ⟨res, hres, rfl, ?_⟩
  change (res.nextTokenIdsList.getD ((0 : Fin 1) : Nat) []).length = 32
  rw [hnext, List.length_drop, List.length_ofFn]
  exact congrArg (32 - ·) (Nat.lt_one_iff.mp hstart)

end OneToken

end LladaHybrid.Serving
