import LladaHybrid.Attention.KernelWrapper

namespace LladaHybrid.Attention.Wrapper

open LladaHybrid.Library LawfulExp

/-! `forward` launches the update before the output and `forward_fused` does both in one
launch: when the two agree with each other and with the reference. -/

variable {D F S : Nat} {K : Type*}

/-! In place, the output launch of `forward` sees the block it is about. -/

section InPlace

variable [Field K]

def readNum (phi : Feature F → K) (state : RecurrentState D F K) (d : Fin D) : K :=
  ∑ f, phi (.inl f) * state.S (.inl f) d + ∑ f, phi (.inr f) * state.S (.inr f) d

def readDen (phi : Feature F → K) (state : RecurrentState D F K) : K :=
  ∑ f, phi (.inl f) * state.Z (.inl f) + ∑ f, phi (.inr f) * state.Z (.inr f)

/-- A state that has seen keys and no values. -/
def keysOnly : RecurrentState D F K := ⟨fun _ _ => 0, fun _ => 1⟩

theorem mul_loadRows_ones {input : KernelInput D K} (hv : ∀ t head d, input.v t head d = 1)
    {request : LaunchRequest} {x : K} {head : Nat} {s : Fin S} {d : Fin D}
    (hx : ¬ s.val < request.seqLen → x = 0) :
    x * loadRows S request input.v head s d = x := by
  unfold loadRows
  split_ifs with hs
  · rw [hv, mul_one]
  · rw [hx hs, zero_mul]

variable [LinearOrder K] [IsStrictOrderedRing K]

theorem mix_ne {a b c : K} (ha : 0 < a) (hb : 0 < b) (hc : 0 < c) :
    (a + c) / (a + (b + c)) ≠ (a + 0) / (a + b) := by
  rw [Ne, div_eq_div_iff (by positivity) (by positivity)]
  intro hsame
  have hprod : c * b = 0 := by linear_combination hsame
  exact (mul_pos hc hb).ne' hprod

variable [ExpOps K] [LawfulExp K]

theorem one_le_sum_kernelWeights {valid : Finset (Fin S)} (hvalid : valid.Nonempty)
    (scores : Fin S → K) : 1 ≤ ∑ j, kernelWeights valid scores j := by
  obtain ⟨best, hbest, hsup⟩ := Finset.exists_mem_eq_sup' hvalid scores
  simp only [kernelWeights_eq hvalid, attentionWeights, dif_pos hvalid, hsup,
    Finset.sum_ite_mem, Finset.univ_inter]
  exact one_le_sum_exp_sub scores hbest

variable [NeZero F]

theorem kernelPhi_pos (weights : Fin D → Fin F → K) (x : Vec D K) (f : Feature F) :
    0 < kernelPhi weights x f := by
  rw [kernelPhi_eq]
  cases f with
  | inl f => exact softmax_pos (hedgehog weights x) f
  | inr f => exact softmax_pos (fun f => -hedgehog weights x f) f

theorem sum_kernelPhi (weights : Fin D → Fin F → K) (x : Vec D K) :
    ∑ f, kernelPhi weights x (.inl f) + ∑ f, kernelPhi weights x (.inr f) = 2 := by
  rw [kernelPhi_eq]
  simp only [featureMap, Sum.elim_inl, Sum.elim_inr, sum_softmax]
  norm_num

section Reads

variable {phi : Feature F → K} {state : RecurrentState D F K} {d : Fin D}

omit [LinearOrder K] [IsStrictOrderedRing K] [ExpOps K] [LawfulExp K] [NeZero F] in
theorem readDen_eq_add (hZ : ∀ f, state.Z f = 1 + state.S f d) :
    readDen phi state = ∑ f, phi (.inl f) + ∑ f, phi (.inr f) + readNum phi state d := by
  simp only [readDen, readNum, hZ, mul_add, mul_one, Finset.sum_add_distrib]
  ring

omit [ExpOps K] [LawfulExp K] in
theorem readNum_pos (hphi : ∀ f, 0 < phi f) (hS : ∀ f, 0 < state.S f d) :
    0 < readNum phi state d := by
  have hterm : ∀ f, 0 < phi f * state.S f d := fun f => mul_pos (hphi f) (hS f)
  exact add_pos (Finset.sum_pos (fun f _ => hterm (.inl f)) Finset.univ_nonempty)
    (Finset.sum_pos (fun f _ => hterm (.inr f)) Finset.univ_nonempty)

end Reads

variable (m : HybridParams D F K) {gate : Nat → K} {input : KernelInput D K}
  (hv : ∀ t head d, input.v t head d = 1) {request : LaunchRequest}
  (hpos : 0 < request.seqLen) (kvHead stateHead : Nat) {h : Nat} (hgate : 0 < gate h)

include hv

omit [IsStrictOrderedRing K] [LawfulExp K] in
theorem kernelUpdate_keysOnly (d : Fin D) (f : Feature F) :
    (kernelUpdate m S input request kvHead stateHead keysOnly).Z f =
      1 + (kernelUpdate m S input request kvHead stateHead keysOnly).S f d := by
  simp only [kernelUpdate, keysOnly, zero_add]
  congr 1
  apply Finset.sum_congr rfl
  intro s _
  exact (mul_loadRows_ones hv (fun hs => if_neg hs)).symm

variable [NeZero S]

include hpos

theorem kernelUpdate_keysOnly_pos (d : Fin D) (f : Feature F) :
    0 < (kernelUpdate m S input request kvHead stateHead keysOnly).S f d := by
  have hterm : ∀ s : Fin S, (if s.val < request.seqLen then
      kernelPhi (m.hedgehogWeights stateHead) (loadRows S request input.k kvHead s) f else 0) *
      loadRows S request input.v kvHead s d =
      if s.val < request.seqLen then
        kernelPhi (m.hedgehogWeights stateHead) (loadRows S request input.k kvHead s) f else 0 :=
    fun s => mul_loadRows_ones hv (fun hs => if_neg hs)
  simp only [kernelUpdate, keysOnly, zero_add, hterm]
  apply Finset.sum_pos'
  · intro s _
    split_ifs
    · exact (kernelPhi_pos _ _ f).le
    · exact le_rfl
  · refine ⟨0, Finset.mem_univ _, ?_⟩
    rw [if_pos (by simpa using hpos)]
    exact kernelPhi_pos _ _ f

include hgate

/-- On values of one, the softmax stream weighs the same in the numerator and in the
denominator. -/
theorem kernelOutput_ones (s : Fin S) :
    ∃ a > 0, ∀ state : RecurrentState D F K, ∀ d,
      1 ≤ readDen (kernelPhi (m.hedgehogWeights stateHead) (loadRows S request input.q h s))
        state →
      kernelOutput m gate input request h kvHead stateHead state s d =
        (a + readNum (kernelPhi (m.hedgehogWeights stateHead)
            (loadRows S request input.q h s)) state d) /
          (a + readDen (kernelPhi (m.hedgehogWeights stateHead)
            (loadRows S request input.q h s)) state) := by
  have hvalid : (validRows S request).Nonempty := ⟨0, by simpa [validRows] using hpos⟩
  let scores : Fin S → K := fun j =>
    (∑ d, loadRows S request input.q h s d * loadRows S request input.k kvHead j d) * m.scaling
  have hsum : 1 ≤ ∑ j, kernelWeights (validRows S request) scores j :=
    one_le_sum_kernelWeights hvalid scores
  have hnum : ∀ d, ∑ j, kernelWeights (validRows S request) scores j *
      loadRows S request input.v kvHead j d =
      ∑ j, kernelWeights (validRows S request) scores j := by
    intro d
    apply Finset.sum_congr rfl
    intro j _
    apply mul_loadRows_ones hv
    intro hj
    rw [kernelWeights, dif_pos hvalid, if_neg (by simpa [validRows] using hj)]
  have hpositive := mul_pos hgate (zero_lt_one.trans_le hsum)
  refine ⟨gate h * ∑ j, kernelWeights (validRows S request) scores j, hpositive, ?_⟩
  intro state d hden
  have hclamp : eps ≤ gate h * ∑ j, kernelWeights (validRows S request) scores j +
      readDen (kernelPhi (m.hedgehogWeights stateHead) (loadRows S request input.q h s))
        state := by
    linarith [eps_le_one (K := K)]
  change (gate h * (∑ j, kernelWeights (validRows S request) scores j *
      loadRows S request input.v kvHead j d) + readNum _ state d) /
    max (gate h * max (∑ j, kernelWeights (validRows S request) scores j) eps +
      max (readDen _ state) eps) eps = _
  rw [hnum, max_eq_left (eps_le_one.trans hsum), max_eq_left (eps_le_one.trans hden),
    max_eq_left hclamp]

theorem kernelOutput_keysOnly_ne (s : Fin S) (d : Fin D) :
    kernelOutput m gate input request h kvHead stateHead
        (kernelUpdate m S input request kvHead stateHead keysOnly) s d ≠
      kernelOutput m gate input request h kvHead stateHead keysOnly s d := by
  obtain ⟨a, ha, hout⟩ := kernelOutput_ones m hv hpos kvHead stateHead hgate s
  have hphi := kernelPhi_pos (m.hedgehogWeights stateHead) (loadRows S request input.q h s)
  have htwo := sum_kernelPhi (m.hedgehogWeights stateHead) (loadRows S request input.q h s)
  generalize kernelPhi (m.hedgehogWeights stateHead) (loadRows S request input.q h s) = phi
    at hout hphi htwo
  have hS : ∀ f, 0 < (kernelUpdate m S input request kvHead stateHead keysOnly).S f d :=
    kernelUpdate_keysOnly_pos m hv hpos kvHead stateHead d
  have hZ : ∀ f, (kernelUpdate m S input request kvHead stateHead keysOnly).Z f =
      1 + (kernelUpdate m S input request kvHead stateHead keysOnly).S f d :=
    kernelUpdate_keysOnly m hv kvHead stateHead d
  have hread := readNum_pos hphi hS
  have hafter : readDen phi (kernelUpdate m S input request kvHead stateHead keysOnly) =
      ∑ f, phi (.inl f) + ∑ f, phi (.inr f) +
        readNum phi (kernelUpdate m S input request kvHead stateHead keysOnly) d :=
    readDen_eq_add hZ
  have hnum : readNum phi (keysOnly : RecurrentState D F K) d = 0 := by
    simp [readNum, keysOnly]
  have hbefore : readDen phi (keysOnly : RecurrentState D F K) = 2 := by
    simpa [readDen, keysOnly] using htwo
  rw [htwo] at hafter
  rw [hout _ d (by rw [hafter]; linarith), hout _ d (by rw [hbefore]; norm_num), hafter, hnum,
    hbefore]
  exact mix_ne ha two_pos hread

end InPlace

/-! Agreement of the two paths. -/

/-- `forward`, `forward_fused` and the reference on one call. -/
structure PathsAgree [Field K] [LinearOrder K] [ExpOps K] [NeZero F]
    (attn : HedgehogHybridAttnProd D F K) (S : Nat) [NeZero S] (schedule schedule' : Scheduler)
    (input : KernelInput D K) (seqLens reqIndices : List Nat) (plan : RequestBlockPlan)
    (readState : Nat) (writeState : Option Nat)
    (states : StateCell → RecurrentState D F K) : Prop where
  output : (attn.forward S schedule input plan readState writeState false states).out =
    (attn.forwardFused S schedule' input plan readState writeState states).out
  reference : (attn.forward S schedule input plan readState writeState false states).out =
    (refHybridExtendPerQ attn input seqLens reqIndices readState (writeState.getD readState)
      states).out
  state : (attn.forward S schedule input plan readState writeState false states).states =
    (attn.forwardFused S schedule' input plan readState writeState states).states
  referenceState : (attn.forward S schedule input plan readState writeState false states).states =
    (refHybridExtendPerQ attn input seqLens reqIndices readState (writeState.getD readState)
      states).states

section Agreement

variable [Field K] [LinearOrder K] [ExpOps K] [NeZero F] [NeZero S]
  {seqLens reqIndices : List Nat} {plan : RequestBlockPlan}
  (attn : HedgehogHybridAttnProd D F K) (schedule schedule' : Scheduler)
  (input : KernelInput D K) (readState : Nat) (writeState : Option Nat)
  (states : StateCell → RecurrentState D F K)
  (hplan : buildRequestBlockPlan seqLens reqIndices S = .ok plan)
  (sameLength : reqIndices.length = seqLens.length) (distinct : reqIndices.Nodup)

theorem fusedKernel_wrapper_launched {requests : List LaunchRequest}
    (disjoint : DisjointRequests requests) (writeTensor : Nat)
    (grid : GridSchedule (Fin requests.length × Fin attn.params.numHeads)) :
    BlockLaunched attn.params S attn.served.alphaGate input readState writeTensor requests
      (emptyOut states) (launch (fusedKernel attn.params attn.params.numKvGroups
        attn.served.alphaGate input requests S readState writeTensor) grid (emptyOut states)) :=
  fusedKernel_launched attn.served input readState writeTensor disjoint rfl grid (emptyOut states)

omit [NeZero F] [NeZero S] [Field K] [LinearOrder K] [ExpOps K] in
theorem eq_of_no_requests {before after : DeviceMemory D F K}
    (hcells : ∀ cell, after.cells cell = before.cells cell)
    (hout : ∀ key, after.out key = before.out key) : after = before := by
  cases after
  cases before
  cases funext hcells
  cases funext hout
  rfl

include hplan sameLength distinct

/-- The early return of an empty plan is what the launches would have left. -/
theorem forwardFused_eq_launch :
    attn.forwardFused S schedule' input plan readState writeState states =
      .ofMemory (launch (fusedKernel attn.params attn.params.numKvGroups attn.served.alphaGate
        input (batchRequests seqLens reqIndices) S readState (writeState.getD readState))
        (schedule' 0 _ _) (emptyOut states)) := by
  unfold HedgehogHybridAttnProd.forwardFused
  rw [requests_of_plan sameLength hplan, reqIndices_of_plan sameLength hplan]
  split_ifs with hempty
  · subst hempty
    have hnone := List.length_eq_zero_iff.mp sameLength.symm
    subst hnone
    have launched := fusedKernel_wrapper_launched (S := S) attn input readState states
      (batchRequests_disjoint sameLength distinct) (writeState.getD readState)
      (schedule' 0 _ _)
    congr 1
    apply (eq_of_no_requests _ _).symm
    · intro cell
      apply launched.otherState cell
      intro request hrequest
      cases hrequest
    · intro key
      apply launched.otherRow key
      intro request hrequest
      cases hrequest
  · rfl

theorem forward_eq_updateThenOutput :
    attn.forward S schedule input plan readState writeState false states =
      .ofMemory (attn.updateThenOutput S schedule input readState (writeState.getD readState)
        readState (batchRequests seqLens reqIndices) (emptyOut states)) := by
  unfold HedgehogHybridAttnProd.forward
  rw [requests_of_plan sameLength hplan, reqIndices_of_plan sameLength hplan]
  by_cases hempty : reqIndices = []
  · rw [if_pos hempty]
    subst hempty
    have hnone := List.length_eq_zero_iff.mp sameLength.symm
    subst hnone
    have updated := updateThenOutput_updatedThenRead (S := S) attn input readState
      (writeState.getD readState) (batchRequests_disjoint sameLength distinct) schedule
      (emptyOut states) readState
    congr 1
    apply (eq_of_no_requests _ _).symm
    · intro cell
      apply updated.otherState cell
      intro request hrequest
      cases hrequest
    · intro key
      apply updated.otherRow key
      intro request hrequest
      cases hrequest
  · rw [if_neg hempty]
    rfl

theorem forward_states :
    (attn.forward S schedule input plan readState writeState false states).states =
      (attn.forwardFused S schedule' input plan readState writeState states).states := by
  have disjoint := batchRequests_disjoint sameLength distinct
  have updated := updateThenOutput_updatedThenRead (S := S) attn input readState
    (writeState.getD readState) disjoint schedule (emptyOut states) readState
  have launched := fusedKernel_wrapper_launched (S := S) attn input readState states disjoint
    (writeState.getD readState) (schedule' 0 _ _)
  rw [forward_eq_updateThenOutput attn schedule input readState writeState states hplan
      sameLength distinct,
    forwardFused_eq_launch attn schedule' input readState writeState states hplan sameLength
      distinct]
  exact cells_unique updated.state updated.otherState launched.state launched.otherState

theorem forward_eq_forwardFused
    (separate : writeState.getD readState ≠ readState ∨ attn.numHeads = 0) :
    attn.forward S schedule input plan readState writeState false states =
      attn.forwardFused S schedule' input plan readState writeState states := by
  have disjoint := batchRequests_disjoint sameLength distinct
  have updated := updateThenOutput_updatedThenRead (S := S) attn input readState
    (writeState.getD readState) disjoint schedule (emptyOut states) readState
  rw [forward_eq_updateThenOutput attn schedule input readState writeState states hplan
      sameLength distinct,
    forwardFused_eq_launch attn schedule' input readState writeState states hplan sameLength
      distinct,
    (updated.blockLaunched _ _ _ _ separate).unique
      (fusedKernel_wrapper_launched attn input readState states disjoint _ (schedule' 0 _ _))]

variable [IsStrictOrderedRing K] [LawfulExp K]

theorem forwardFused_eq_reference :
    attn.forwardFused S schedule' input plan readState writeState states =
      refHybridExtendPerQ attn input seqLens reqIndices readState (writeState.getD readState)
        states := by
  have disjoint := batchRequests_disjoint sameLength distinct
  rw [forwardFused_eq_launch attn schedule' input readState writeState states hplan sameLength
      distinct,
    refHybridExtendPerQ_eq_launch (S := S) attn input readState _
      (fun request hrequest => (seqLen_of_plan hplan hrequest).2) rfl,
    (fusedKernel_wrapper_launched attn input readState states disjoint _
      (schedule' 0 _ _)).unique
      (fusedKernel_wrapper_launched attn input readState states disjoint _
        (rowMajorScheduler 0 _ _))]

theorem pathsAgree_of_output
    (output : (attn.forward S schedule input plan readState writeState false states).out =
      (attn.forwardFused S schedule' input plan readState writeState states).out) :
    PathsAgree attn S schedule schedule' input seqLens reqIndices plan readState writeState
      states := by
  have hreference := forwardFused_eq_reference attn schedule' input readState writeState states
    hplan sameLength distinct
  have hstates := forward_states attn schedule schedule' input readState writeState states hplan
    sameLength distinct
  refine ⟨output, ?_, hstates, ?_⟩
  · rw [output, hreference]
  · rw [hstates, hreference]

/-- In place, `forward` reads the state of the block it has just added. -/
theorem not_pathsAgree_inPlace (inPlace : writeState.getD readState = readState)
    (hne : seqLens ≠ []) (hheads : 0 < attn.numHeads) (d : Fin D)
    (hv : ∀ t head d, input.v t head d = 1) :
    ¬ PathsAgree attn S schedule schedule' input seqLens reqIndices plan readState writeState
      (fun _ => keysOnly) := by
  intro agree
  have disjoint := batchRequests_disjoint sameLength distinct
  have updated := updateThenOutput_updatedThenRead (S := S) attn input readState
    (writeState.getD readState) disjoint schedule (emptyOut (fun _ => keysOnly)) readState
  have launched := fusedKernel_wrapper_launched (S := S) attn input readState
    (fun _ => keysOnly) disjoint (writeState.getD readState) (schedule' 0 _ _)
  have hrequest : requestAt seqLens reqIndices 0 ∈ batchRequests seqLens reqIndices :=
    mem_batchRequests.mpr ⟨0, List.length_pos_iff.mpr hne, rfl⟩
  have hpos := (seqLen_of_plan hplan hrequest).1
  have hforward := updated.row _ hrequest 0 hpos 0 hheads
  have hfused := launched.row _ hrequest 0 hpos 0 hheads
  have hstate := updated.state _ hrequest 0 hheads
  rw [inPlace] at hstate hforward hfused
  rw [hstate] at hforward
  have hsame := congrFun (congrFun agree.output ((requestAt seqLens reqIndices 0).startOffset + 0))
    0
  rw [forward_eq_updateThenOutput attn schedule input readState writeState _ hplan sameLength
      distinct,
    forwardFused_eq_launch attn schedule' input readState writeState _ hplan sameLength distinct,
    inPlace] at hsame
  simp only [Result.ofMemory, hforward, hfused, List.getLastD_concat] at hsame
  exact kernelOutput_keysOnly_ne attn.params hv hpos _ _ (sigmoid_pos _) _ d (congrFun hsame d)

/-- For all inputs, weights and states the two paths agree with each other and with the
reference when the write state is a separate one, or when there is no row to compute. -/
theorem pathsAgree_iff {H Hkv : Nat} (hdvd : Hkv ∣ H) (scaling : K) :
    (∀ hedgehogWeights alpha schedule schedule' input states,
      PathsAgree (D := D) (F := F) ⟨H, Hkv, hdvd, scaling, hedgehogWeights, alpha⟩ S schedule
        schedule' input seqLens reqIndices plan readState writeState states) ↔
      writeState.getD readState ≠ readState ∨ seqLens = [] ∨ H = 0 ∨ D = 0 := by
  constructor
  · intro agree
    by_contra hnot
    simp only [not_or, not_not] at hnot
    obtain ⟨inPlace, hne, hheads, hdim⟩ := hnot
    exact not_pathsAgree_inPlace ⟨H, Hkv, hdvd, scaling, fun _ _ _ => 0, fun _ => 0⟩
      rowMajorScheduler rowMajorScheduler
      ⟨fun _ _ _ => 0, fun _ _ _ => 0, fun _ _ _ => 1, Hkv, Hkv⟩ readState writeState hplan
      sameLength distinct inPlace hne (Nat.pos_of_ne_zero hheads)
      ⟨0, Nat.pos_of_ne_zero hdim⟩ (fun _ _ _ => rfl) (agree _ _ _ _ _ _)
  · intro hcondition hedgehogWeights alpha schedule schedule' input states
    apply pathsAgree_of_output _ _ _ _ _ _ _ hplan sameLength distinct
    rcases hcondition with separate | hempty | hheads | hdim
    · rw [forward_eq_forwardFused _ schedule schedule' input readState writeState states hplan
        sameLength distinct (Or.inl separate)]
    · have hnone := reqIndices_of_plan sameLength hplan
      subst hempty
      rw [List.length_eq_zero_iff.mp sameLength] at hnone
      rw [HedgehogHybridAttnProd.forward, HedgehogHybridAttnProd.forwardFused, if_pos hnone,
        if_pos hnone]
    · rw [forward_eq_forwardFused _ schedule schedule' input readState writeState states hplan
        sameLength distinct (Or.inr hheads)]
    · subst hdim
      funext t h d
      exact d.elim0

end Agreement

/-- A full block and five tokens in the slots 2 and 0, four heads in two groups and a separate
write state. -/
theorem pathsAgree_separate :
    PathsAgree (D := 2) (F := 2) (K := ℝ)
      ⟨4, 2, ⟨2, rfl⟩, 1 / 2, fun head d f => if d.val = f.val then head + 1 else 0,
        fun head => head⟩ 32 rowMajorScheduler rowMajorScheduler
      ⟨fun t head d => t + head + d, fun t head d => t - head * d, fun t head d => t * head + d,
        2, 2⟩ [32, 5] [2, 0] ⟨[2, 0], [32, 5], [0, 32], 32⟩ 0 (some 1) (fun _ => keysOnly) :=
  (pathsAgree_iff (D := 2) (F := 2) (K := ℝ) 0 (some 1)
    (rfl : buildRequestBlockPlan [32, 5] [2, 0] 32 = .ok ⟨[2, 0], [32, 5], [0, 32], 32⟩) rfl
    (by decide) (⟨2, rfl⟩ : 2 ∣ 4) (1 / 2)).mpr (Or.inl one_ne_zero) _ _ _ _ _ _

/-- One request of one token with `write_state=None`. -/
theorem not_pathsAgree_default :
    ¬ PathsAgree (D := 1) (F := 1) (K := ℝ) ⟨1, 1, dvd_rfl, 1, fun _ _ _ => 0, fun _ => 0⟩ 32
      rowMajorScheduler rowMajorScheduler
      ⟨fun _ _ _ => 0, fun _ _ _ => 0, fun _ _ _ => 1, 1, 1⟩ [1] [0] ⟨[0], [1], [0], 32⟩ 0 none
      (fun _ => keysOnly) :=
  not_pathsAgree_inPlace _ _ _ _ 0 none rfl rfl (List.nodup_singleton 0) rfl
    (List.cons_ne_nil 1 []) one_pos 0 (fun _ _ _ => rfl)

end LladaHybrid.Attention.Wrapper
