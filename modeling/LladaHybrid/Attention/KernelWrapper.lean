import LladaHybrid.Attention.KernelRefinement

namespace LladaHybrid.Attention.Wrapper

open LladaHybrid.Library LawfulExp

/-! The kernel wrapper and the reference of `src/kernel`: one block per request, with a
feature map and a state for each query head. -/

variable {D F S : Nat} {K : Type*}

structure RequestBlockPlan where
  reqIndices : List Nat
  seqLens : List Nat
  startOffsets : List Nat
  blockSize : Nat

inductive PlanError
  | nonPositive (seqLens : List Nat)
  | tooLong (blockSize : Nat) (seqLens : List Nat)

def buildRequestBlockPlan (seqLens reqIndices : List Nat) (blockSize : Nat) :
    Except PlanError RequestBlockPlan :=
  if seqLens = [] then
    .ok ⟨[], [], [], blockSize⟩
  else if 0 ∈ seqLens then
    .error (.nonPositive seqLens)
  else if ∃ length ∈ seqLens, blockSize < length then
    .error (.tooLong blockSize seqLens)
  else
    .ok ⟨reqIndices, seqLens, startOffsets 0 seqLens, blockSize⟩

def RequestBlockPlan.requests (plan : RequestBlockPlan) : List LaunchRequest :=
  List.zipWith (fun slot row => ⟨slot, row.1, row.2⟩) plan.reqIndices
    (plan.startOffsets.zip plan.seqLens)

/-- The module, with the divisibility its constructor asks for. -/
structure HedgehogHybridAttnProd (D F : Nat) (K : Type*) where
  numHeads : Nat
  numKvHeads : Nat
  divide : numKvHeads ∣ numHeads
  scaling : K
  hedgehogWeights : Nat → Fin D → Fin F → K
  alpha : Nat → K

/-- The output tensor and the state tensors after a call. -/
@[ext] structure Result (D F : Nat) (K : Type*) where
  out : Nat → Nat → Vec D K
  states : StateCell → RecurrentState D F K

namespace HedgehogHybridAttnProd

def params (attn : HedgehogHybridAttnProd D F K) : HybridParams D F K where
  numHeads := attn.numHeads
  numKvHeads := attn.numKvHeads
  shareKvGroups := false
  scaling := attn.scaling
  hedgehogWeights := attn.hedgehogWeights
  alpha := attn.alpha

def served (attn : HedgehogHybridAttnProd D F K) : ServedHybrid D F K := ⟨attn.params, none⟩

end HedgehogHybridAttnProd

section Calls

variable [Field K]

/-- `torch.zeros_like(q)` with the rows that were stored into it. -/
def Result.ofMemory (memory : DeviceMemory D F K) : Result D F K where
  out t h := (memory.out (t, h)).getLastD (fun _ => 0)
  states := memory.cells

def emptyOut (states : StateCell → RecurrentState D F K) : DeviceMemory D F K :=
  ⟨states, fun _ => []⟩

variable [LinearOrder K] [ExpOps K] [NeZero F] (attn : HedgehogHybridAttnProd D F K)
  (S : Nat) [NeZero S] (schedule : Scheduler) (input : KernelInput D K)
  (plan : RequestBlockPlan) (readState : Nat) (writeState : Option Nat)

namespace HedgehogHybridAttnProd

/-- The update launch, then the output launch. -/
def updateThenOutput (writeTensor outputTensor : Nat) (requests : List LaunchRequest)
    (memory : DeviceMemory D F K) : DeviceMemory D F K :=
  let updated := launch (updateStateKernel attn.params attn.params.numKvGroups input requests S
    readState writeTensor attn.numHeads) (schedule 0 _ _) memory
  launch (outputKernel attn.params attn.params.numKvGroups attn.served.alphaGate input requests S
    outputTensor) (schedule 1 _ _) updated

def forward (useUpdatedStateForOutput : Bool) (states : StateCell → RecurrentState D F K) :
    Result D F K :=
  let writeTensor := writeState.getD readState
  if plan.reqIndices = [] then
    .ofMemory (emptyOut states)
  else
    .ofMemory (attn.updateThenOutput S schedule input readState writeTensor
      (if useUpdatedStateForOutput then writeTensor else readState) plan.requests
      (emptyOut states))

def forwardFused (states : StateCell → RecurrentState D F K) : Result D F K :=
  let writeTensor := writeState.getD readState
  if plan.reqIndices = [] then
    .ofMemory (emptyOut states)
  else
    .ofMemory (launch (fusedKernel attn.params attn.params.numKvGroups attn.served.alphaGate
      input plan.requests S readState writeTensor) (schedule 0 _ _) (emptyOut states))

end HedgehogHybridAttnProd

/-- `out_tile` at row `s`. -/
def refTile (request : LaunchRequest) (h : Nat) (state : RecurrentState D F K) (s : Nat) :
    Vec D K :=
  let kvHead := h / attn.params.numKvGroups
  let q := input.q (request.startOffset + s) h
  blockOut (S := request.seqLen) eps attn.params (sigmoid (attn.alpha h)) Finset.univ
    (fun j => input.k (request.startOffset + j) kvHead)
    (fun j => input.v (request.startOffset + j) kvHead) q
    (featureMap (attn.hedgehogWeights h) q) state

def refUpdate (request : LaunchRequest) (h : Nat) (state : RecurrentState D F K) :
    RecurrentState D F K :=
  let kvHead := h / attn.params.numKvGroups
  state.update (S := request.seqLen)
    (fun j => featureMap (attn.hedgehogWeights h) (input.k (request.startOffset + j) kvHead))
    (fun j => input.v (request.startOffset + j) kvHead)

/-- One pass of the inner loop of `ref_hybrid_extend_per_q`. -/
def refStep (readTensor writeTensor : Nat) (requests : List LaunchRequest)
    (memory : DeviceMemory D F K) (p : Fin requests.length × Fin attn.numHeads) :
    DeviceMemory D F K :=
  let request := requests.get p.1
  let state := memory.cells ⟨readTensor, request.slot, p.2⟩
  { cells := Function.update memory.cells ⟨writeTensor, request.slot, p.2⟩
      (refUpdate attn input request p.2 state)
    out := fun key => memory.out key ++
      (storeRows request p.2 (refTile attn input request p.2 state) key).toList }

/-- `ref_hybrid_extend_per_q`: for each request, for each query head. -/
def refHybridExtendPerQ (seqLens reqIndices : List Nat) (readTensor writeTensor : Nat)
    (states : StateCell → RecurrentState D F K) : Result D F K :=
  let requests := batchRequests seqLens reqIndices
  .ofMemory ((List.finRange requests.length ×ˢ List.finRange attn.numHeads).foldl
    (refStep attn input readTensor writeTensor requests) (emptyOut states))

end Calls

/-! The plan. -/

section Plan

variable {seqLens reqIndices : List Nat} {plan : RequestBlockPlan}

theorem requests_of_plan (sameLength : reqIndices.length = seqLens.length)
    (hplan : buildRequestBlockPlan seqLens reqIndices S = .ok plan) :
    plan.requests = batchRequests seqLens reqIndices := by
  unfold buildRequestBlockPlan at hplan
  split_ifs at hplan with hempty
  · cases hplan
    subst hempty
    rfl
  · cases hplan
    exact zipWith_startOffsets sameLength

theorem reqIndices_of_plan (sameLength : reqIndices.length = seqLens.length)
    (hplan : buildRequestBlockPlan seqLens reqIndices S = .ok plan) :
    plan.reqIndices = reqIndices := by
  unfold buildRequestBlockPlan at hplan
  split_ifs at hplan with hempty
  · cases hplan
    subst hempty
    exact (List.length_eq_zero_iff.mp sameLength).symm
  · cases hplan
    rfl

theorem seqLen_of_plan (hplan : buildRequestBlockPlan seqLens reqIndices S = .ok plan)
    {request : LaunchRequest} (hrequest : request ∈ batchRequests seqLens reqIndices) :
    0 < request.seqLen ∧ request.seqLen ≤ S := by
  obtain ⟨r, hr, rfl⟩ := mem_batchRequests.mp hrequest
  have hmem : (requestAt seqLens reqIndices r).seqLen ∈ seqLens := by
    simp [requestAt, List.getElem?_eq_getElem hr]
  unfold buildRequestBlockPlan at hplan
  split_ifs at hplan with hempty hzero hlong
  · subst hempty
    cases hmem
  · constructor
    · exact Nat.pos_of_ne_zero (fun hlen => hzero (hlen ▸ hmem))
    · exact Nat.le_of_not_lt (fun hlt => hlong ⟨_, hmem, hlt⟩)

end Plan

/-! The reference computes the rows and the states of the fused kernel. -/

section Reference

variable [Field K] {request : LaunchRequest} (hlen : request.seqLen ≤ S)

include hlen

omit [Field K] in
theorem validRows_eq_map :
    validRows S request = Finset.univ.map (Fin.castLEEmb hlen) := by
  ext s
  simp only [validRows, Finset.mem_filter, Finset.mem_univ, true_and, Finset.mem_map,
    Fin.castLEEmb_apply]
  constructor
  · intro hs
    exact ⟨⟨s, hs⟩, rfl⟩
  · rintro ⟨j, rfl⟩
    exact j.isLt

theorem sum_validRows (g : Fin S → K) (hzero : ∀ s, ¬ s.val < request.seqLen → g s = 0) :
    ∑ s, g s = ∑ j : Fin request.seqLen, g (Fin.castLE hlen j) := by
  have hvalid : ∑ s ∈ validRows S request, g s = ∑ s, g s := by
    apply Finset.sum_filter_of_ne
    intro s _ hne
    by_contra hs
    exact hne (hzero s hs)
  rw [← hvalid, validRows_eq_map hlen, Finset.sum_map]
  rfl

theorem loadRows_castLE (x : Nat → Nat → Vec D K) (head : Nat) (j : Fin request.seqLen) :
    loadRows S request x head (Fin.castLE hlen j) = x (request.startOffset + j) head :=
  if_pos j.isLt

variable [LinearOrder K] [ExpOps K]

theorem attentionWeights_castLE (scores : Fin S → K) (j : Fin request.seqLen) :
    attentionWeights (validRows S request) scores (Fin.castLE hlen j) =
      attentionWeights Finset.univ (fun i => scores (Fin.castLE hlen i)) j := by
  have hvalid : (validRows S request).Nonempty := by
    rw [validRows_eq_map hlen]
    exact Finset.map_nonempty.mpr ⟨j, Finset.mem_univ j⟩
  have hmem : Fin.castLE hlen j ∈ validRows S request := by
    rw [validRows_eq_map hlen]
    exact Finset.mem_map_of_mem (Fin.castLEEmb hlen) (Finset.mem_univ j)
  have huniv : (Finset.univ : Finset (Fin request.seqLen)).Nonempty := ⟨j, Finset.mem_univ j⟩
  have hsup : (validRows S request).sup' hvalid scores =
      Finset.univ.sup' huniv (fun i => scores (Fin.castLE hlen i)) := by
    simp only [validRows_eq_map hlen, Finset.sup'_map]
    rfl
  rw [attentionWeights, dif_pos hvalid, if_pos hmem, attentionWeights, dif_pos huniv,
    if_pos (Finset.mem_univ j), hsup]

variable [IsStrictOrderedRing K] [LawfulExp K] [NeZero F] (attn : HedgehogHybridAttnProd D F K)
  (input : KernelInput D K) (h : Nat)

theorem refUpdate_eq (state : RecurrentState D F K) :
    refUpdate attn input request h state =
      kernelUpdate attn.params S input request (h / attn.params.numKvGroups) h state := by
  ext f d
  · simp only [refUpdate, RecurrentState.update, kernelUpdate]
    rw [sum_validRows hlen _ (fun s hs => by rw [if_neg hs, zero_mul])]
    simp only [Fin.val_castLE, Fin.is_lt, if_true, loadRows_castLE hlen, kernelPhi_eq]
    rfl
  · simp only [refUpdate, RecurrentState.update, kernelUpdate]
    rw [sum_validRows hlen _ (fun s hs => by rw [if_neg hs])]
    simp only [Fin.val_castLE, Fin.is_lt, if_true, loadRows_castLE hlen, kernelPhi_eq]
    rfl

theorem refTile_eq [NeZero S] (state : RecurrentState D F K) {s : Nat} (hs : s < request.seqLen) :
    refTile attn input request h state s =
      kernelOutput attn.params attn.served.alphaGate input request h
        (h / attn.params.numKvGroups) h state (Fin.ofNat S s) := by
  have hrow : Fin.ofNat S s = Fin.castLE hlen ⟨s, hs⟩ := by
    apply Fin.ext
    exact Nat.mod_eq_of_lt (hs.trans_le hlen)
  have hvalid : (validRows S request).Nonempty := by
    rw [validRows_eq_map hlen]
    exact Finset.map_nonempty.mpr ⟨⟨s, hs⟩, Finset.mem_univ _⟩
  have hzero : ∀ (scores : Fin S → K) (i : Fin S), ¬ i.val < request.seqLen →
      attentionWeights (validRows S request) scores i = 0 := by
    intro scores i hi
    rw [attentionWeights, dif_pos hvalid, if_neg (by simpa [validRows] using hi)]
  funext d
  simp only [refTile, blockOut, mixStreams, kernelOutput, kernelWeights_eq hvalid, kernelPhi_eq]
  rw [sum_validRows hlen _ (hzero _),
    sum_validRows hlen _ (fun i hi => by rw [hzero _ i hi, zero_mul])]
  simp only [attentionWeights_castLE hlen, loadRows_castLE hlen, hrow, Fintype.sum_sum_type]
  rfl

end Reference

section Launches

variable [Field K] [LinearOrder K] [ExpOps K] [NeZero F] [NeZero S]
  (attn : HedgehogHybridAttnProd D F K) (input : KernelInput D K)
  (readTensor writeTensor : Nat) {requests : List LaunchRequest}

section Reference

variable [IsStrictOrderedRing K] [LawfulExp K]
  (hlen : ∀ request ∈ requests, request.seqLen ≤ S)

include hlen

theorem refStep_eq_runProgram :
    refStep attn input readTensor writeTensor requests =
      runProgram (fusedKernel attn.params attn.params.numKvGroups attn.served.alphaGate input
        requests S readTensor writeTensor) := by
  funext memory p
  have hrequest := hlen _ (requests.get_mem p.1)
  have hcell := refUpdate_eq hrequest attn input p.2
    (memory.cells ⟨readTensor, (requests.get p.1).slot, p.2⟩)
  have hrows := storeRows_congr p.2 (fun s hs => refTile_eq hrequest attn input p.2
    (memory.cells ⟨readTensor, (requests.get p.1).slot, p.2⟩) hs)
  simp only [refStep, hcell, hrows]
  rfl

theorem refHybridExtendPerQ_eq_launch {seqLens reqIndices : List Nat}
    (hbatch : batchRequests seqLens reqIndices = requests)
    (states : StateCell → RecurrentState D F K) :
    refHybridExtendPerQ attn input seqLens reqIndices readTensor writeTensor states =
      .ofMemory (launch (fusedKernel attn.params attn.params.numKvGroups attn.served.alphaGate
        input requests S readTensor writeTensor) (rowMajorScheduler 0 _ _)
        (emptyOut states)) := by
  subst hbatch
  rw [rowMajorScheduler, launch_sequential, ← refStep_eq_runProgram attn input readTensor
    writeTensor hlen]
  rfl

end Reference

variable (disjoint : DisjointRequests requests) (schedule : Scheduler)
  (memory : DeviceMemory D F K)

include disjoint

/-- The output launch reads the states that the update launch has left. -/
structure UpdatedThenRead (attn : HedgehogHybridAttnProd D F K) (S : Nat) [NeZero S]
    (input : KernelInput D K) (readTensor writeTensor outputTensor : Nat)
    (requests : List LaunchRequest) (before after : DeviceMemory D F K) : Prop where
  state : ∀ request ∈ requests, ∀ h < attn.numHeads,
    after.cells ⟨writeTensor, request.slot, h⟩ =
      kernelUpdate attn.params S input request (h / attn.params.numKvGroups) h
        (before.cells ⟨readTensor, request.slot, h⟩)
  otherState : ∀ cell : StateCell,
    (∀ request ∈ requests, ∀ h < attn.numHeads, cell ≠ ⟨writeTensor, request.slot, h⟩) →
    after.cells cell = before.cells cell
  row : ∀ request ∈ requests, ∀ s < request.seqLen, ∀ h < attn.numHeads,
    after.out (request.startOffset + s, h) = before.out (request.startOffset + s, h) ++
      [kernelOutput attn.params attn.served.alphaGate input request h
        (h / attn.params.numKvGroups) h (after.cells ⟨outputTensor, request.slot, h⟩)
        (Fin.ofNat S s)]
  otherRow : ∀ key : Nat × Nat,
    (∀ request ∈ requests, key.2 < attn.numHeads → ¬ request.HasRow key.1) →
    after.out key = before.out key

theorem updateThenOutput_updatedThenRead (outputTensor : Nat) :
    UpdatedThenRead attn S input readTensor writeTensor outputTensor requests memory
      (attn.updateThenOutput S schedule input readTensor writeTensor outputTensor requests
        memory) := by
  have update := updateStateKernel_raceFree (S := S) attn.params attn.params.numKvGroups input
    readTensor writeTensor disjoint attn.numHeads
  have output := outputKernel_raceFree (S := S) attn.params attn.params.numKvGroups
    attn.served.alphaGate input outputTensor disjoint
  have cells : ∀ cell, (attn.updateThenOutput S schedule input readTensor writeTensor
      outputTensor requests memory).cells cell =
      (launch (updateStateKernel attn.params attn.params.numKvGroups input requests S readTensor
        writeTensor attn.numHeads) (schedule 0 _ _) memory).cells cell := by
    intro cell
    apply launch_cells_of_ne output
    intro program same
    cases same
  have rows : ∀ key, (launch (updateStateKernel attn.params attn.params.numKvGroups input
      requests S readTensor writeTensor attn.numHeads) (schedule 0 _ _) memory).out key =
      memory.out key :=
    fun key => launch_out_of_none update _ (fun _ => rfl)
  constructor
  · intro request hrequest h hh
    obtain ⟨i, rfl⟩ := List.get_of_mem hrequest
    rw [cells]
    exact launch_cells_of_store update _ (i := (i, ⟨h, hh⟩)) rfl
  · intro cell hcell
    rw [cells]
    apply launch_cells_of_ne update
    intro program same
    exact hcell _ (requests.get_mem program.1) _ program.2.isLt (Option.some.inj same).symm
  · intro request hrequest s hs h hh
    obtain ⟨i, rfl⟩ := List.get_of_mem hrequest
    rw [cells, ← rows]
    apply launch_out_of_row output _ (i := (i, ⟨h, hh⟩))
    rw [outputKernel_rows]
    exact storeRows_of_hasRow hs h _
  · intro key hkey
    refine (launch_out_of_none output _ ?_).trans (rows key)
    intro program
    rw [outputKernel_rows]
    apply storeRows_eq_none
    intro hhead
    exact hkey _ (requests.get_mem program.1) (hhead ▸ program.2.isLt)

omit disjoint in
/-- With a separate write tensor the output launch does not see the update. -/
theorem UpdatedThenRead.blockLaunched {before after : DeviceMemory D F K}
    (updated : UpdatedThenRead attn S input readTensor writeTensor readTensor requests before
      after) (separate : writeTensor ≠ readTensor ∨ attn.numHeads = 0) :
    BlockLaunched attn.params S attn.served.alphaGate input readTensor writeTensor requests before
      after := by
  have hread : ∀ slot h,
      after.cells ⟨readTensor, slot, h⟩ = before.cells ⟨readTensor, slot, h⟩ := by
    intro slot h
    apply updated.otherState
    rintro request _ h' hh' same
    rcases separate with separate | hnone
    · exact separate (StateCell.mk.inj same).1.symm
    · omega
  constructor
  · exact updated.state
  · exact updated.otherState
  · intro request hrequest s hs h hh
    have hrow := updated.row request hrequest s hs h hh
    rwa [hread] at hrow
  · exact updated.otherRow

end Launches

end LladaHybrid.Attention.Wrapper
