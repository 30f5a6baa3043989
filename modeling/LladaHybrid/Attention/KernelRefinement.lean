import LladaHybrid.Attention.BlockPlan

namespace LladaHybrid.Attention

open LladaHybrid.Library

variable {D F S : Nat} {K : Type*}

/-! The served kernels refine the PyTorch module: block by block, the launches compute
the rows and the states of `forward` for every request of a ragged batch. -/

section Blocks

variable {request : LaunchRequest} {n position : Nat}

theorem block_slot : (request.block S n).slot = request.slot := rfl

theorem block_hasRow :
    (request.block S n).HasRow position ↔
      request.HasRow position ∧ request.startOffset + n * S ≤ position ∧
        position < request.startOffset + n * S + S := by
  simp only [LaunchRequest.HasRow, LaunchRequest.block]
  omega

theorem DisjointRequests.blocks {requests : List LaunchRequest}
    (disjoint : DisjointRequests requests) (S n : Nat) (active : LaunchRequest → Bool) :
    DisjointRequests ((requests.filter active).map (fun request => request.block S n)) := by
  constructor
  · rw [List.map_map]
    exact disjoint.slots.sublist (List.filter_sublist.map _)
  · intro first second position hfirst hsecond inFirst inSecond
    obtain ⟨left, hleft, rfl⟩ := List.mem_map.mp hfirst
    obtain ⟨right, hright, rfl⟩ := List.mem_map.mp hsecond
    have hslot := disjoint.rows (List.mem_filter.mp hleft).1 (List.mem_filter.mp hright).1
      (block_hasRow.mp inFirst).1 (block_hasRow.mp inSecond).1
    exact hslot

theorem block_eq_self (hshort : numBlocks request.seqLen S ≤ 1) (hS : 0 < S) :
    request.block S 0 = request := by
  have hlen : request.seqLen ≤ S := by
    by_contra hlong
    have htwo : 2 * S ≤ request.seqLen + S - 1 := by omega
    have hblocks : 2 ≤ numBlocks request.seqLen S := (Nat.le_div_iff_mul_le hS).mpr htwo
    omega
  simp [LaunchRequest.block, hlen]

theorem numBlocks_pos (hlen : 0 < request.seqLen) (hS : 0 < S) :
    0 < numBlocks request.seqLen S :=
  Nat.div_pos (by omega) hS

end Blocks

theorem HybridParams.stateHead_lt (m : HybridParams D F K) (hdvd : m.numKvHeads ∣ m.numHeads)
    {h : Nat} (hh : h < m.numHeads) : m.stateHead h < m.updateHeads := by
  unfold stateHead updateHeads
  split_ifs with hshare
  · apply Nat.div_lt_of_lt_mul
    rwa [numKvGroups, Nat.div_mul_cancel hdvd]
  · exact hh

theorem kvGroups_grouped {m : HybridParams D F K} {input : KernelInput D K}
    (hk : input.kHeads = m.numKvHeads) (hv : input.vHeads = m.numKvHeads) :
    kvGroups m input = some m.numKvGroups := by
  rw [kvGroups, hk, hv, if_neg (by simp), if_pos rfl]
  rfl

theorem runKernels_grouped [Field K] [LinearOrder K] [ExpOps K] [NeZero F] [NeZero S]
    {m : ServedHybrid D F K} {input : KernelInput D K}
    (hk : input.kHeads = m.params.numKvHeads) (hv : input.vHeads = m.params.numKvHeads)
    (schedule : Scheduler) (writeTensor : Nat) (plan : RequestBlockPlan) (readTensor : Nat)
    (memory : DeviceMemory D F K) :
    runKernels m S schedule input writeTensor plan readTensor memory =
      some (runPlan m S schedule m.params.numKvGroups input writeTensor plan readTensor memory,
        if plan.maxBlocks = 0 then m else { m with alphaGateCache := some m.alphaGate }) := by
  rw [runKernels, kvGroups_grouped hk hv, Option.map_some]

section Refinement

variable [Field K] [LinearOrder K] [ExpOps K]

/-- What `forward` says memory holds once the launches are over. -/
structure RefinesForward (m : HybridParams D F K) (S : Nat) [NeZero S]
    (input : KernelInput D K) (readTensor writeTensor : Nat)
    (requests : List LaunchRequest) (before after : DeviceMemory D F K) : Prop where
  row : ∀ request ∈ requests, ∀ p < request.seqLen, ∀ h < m.numHeads,
    after.out (request.startOffset + p, h) =
      [(forward m S (headTokens m input request) none (some (fun h =>
        before.cells ⟨readTensor, request.slot, m.stateHead h⟩))).1 h p]
  otherRow : ∀ key : Nat × Nat,
    (∀ request ∈ requests, key.2 < m.numHeads → ¬ request.HasRow key.1) →
    after.out key = []
  state : ∀ request ∈ requests, ∀ h < m.numHeads,
    after.cells ⟨writeTensor, request.slot, m.stateHead h⟩ =
      (forward m S (headTokens m input request) none (some (fun h =>
        before.cells ⟨readTensor, request.slot, m.stateHead h⟩))).2 h
  otherState : ∀ cell : StateCell,
    (∀ request ∈ requests, ∀ head < m.updateHeads,
      cell ≠ ⟨writeTensor, request.slot, head⟩) →
    after.cells cell = before.cells cell

/-- The same after `n` blocks of every request that has so many. -/
structure BlocksDone (m : HybridParams D F K) (S : Nat) [NeZero S]
    (input : KernelInput D K) (readTensor writeTensor : Nat)
    (requests : List LaunchRequest) (before : DeviceMemory D F K) (n : Nat)
    (after : DeviceMemory D F K) : Prop where
  row : ∀ request ∈ requests, ∀ p < request.seqLen, ∀ h < m.numHeads,
    after.out (request.startOffset + p, h) =
      if p < n * S then
        [headOut (S := S) m h (headTokens m input request h)
          (keyValid S request.seqLen none)
          (before.cells ⟨readTensor, request.slot, m.stateHead h⟩) p]
      else []
  otherRow : ∀ key : Nat × Nat,
    (∀ request ∈ requests, key.2 < m.numHeads → ¬ request.HasRow key.1) →
    after.out key = []
  state : ∀ request ∈ requests, ∀ h < m.numHeads,
    after.cells ⟨if n = 0 then readTensor else writeTensor, request.slot, m.stateHead h⟩ =
      stateAfter m h (headTokens m input request h) (keyValid S request.seqLen none)
        (before.cells ⟨readTensor, request.slot, m.stateHead h⟩) S
        (min n (numBlocks request.seqLen S))
  otherState : ∀ cell : StateCell,
    (∀ request ∈ requests, ∀ head < m.updateHeads,
      cell ≠ ⟨writeTensor, request.slot, head⟩) →
    after.cells cell = before.cells cell

variable [NeZero S] {m : HybridParams D F K} {input : KernelInput D K}
  {readTensor writeTensor n : Nat} {requests : List LaunchRequest}
  {before memory after : DeviceMemory D F K}

theorem blocksDone_zero (hout : ∀ key, before.out key = []) :
    BlocksDone m S input readTensor writeTensor requests before 0 before := by
  constructor
  · intro request _ p _ h _
    rw [hout, if_neg (by omega)]
  · intro key _
    exact hout key
  · intro request _ h _
    rw [if_pos rfl, Nat.zero_min]
    rfl
  · intro cell _
    rfl

theorem BlocksDone.refinesForward
    (done : BlocksDone m S input readTensor writeTensor requests before n after)
    (positive : ∀ request ∈ requests, 0 < request.seqLen)
    (hall : ∀ request ∈ requests, numBlocks request.seqLen S ≤ n) :
    RefinesForward m S input readTensor writeTensor requests before after := by
  constructor
  · intro request hrequest p hp h hh
    have hblock : p < n * S := by
      apply (Nat.div_lt_iff_lt_mul (NeZero.pos S)).mp
      exact (div_lt_numBlocks hp).trans_le (hall request hrequest)
    rw [done.row request hrequest p hp h hh, if_pos hblock]
    rfl
  · exact done.otherRow
  · intro request hrequest h hh
    have hblocks := hall request hrequest
    have hn : n ≠ 0 := by
      have := numBlocks_pos (positive request hrequest) (NeZero.pos S)
      omega
    have hstate := done.state request hrequest h hh
    rw [if_neg hn, Nat.min_eq_right hblocks] at hstate
    exact hstate
  · exact done.otherState

theorem RefinesForward.written_once {seqLens reqIndices : List Nat}
    (refines : RefinesForward m S input readTensor writeTensor
      (batchRequests seqLens reqIndices) before after)
    {t h : Nat} (ht : t < seqLens.sum) (hh : h < m.numHeads) :
    (after.out (t, h)).length = 1 := by
  obtain ⟨r, hr, hlow, hhigh⟩ := exists_requestAt_hasRow reqIndices ht
  have hrow := refines.row _ (mem_batchRequests.mpr ⟨r, hr, rfl⟩)
    (t - (requestAt seqLens reqIndices r).startOffset) (by omega) h hh
  rw [Nat.add_sub_of_le hlow] at hrow
  rw [hrow]
  rfl

section Step

variable [IsStrictOrderedRing K] [LawfulExp K] [NeZero F] {gate : Nat → K}
  {active : List LaunchRequest} (disjoint : DisjointRequests requests)
  (hactive : ∀ block, block ∈ active ↔
    ∃ request ∈ requests, n < numBlocks request.seqLen S ∧ request.block S n = block)
  (done : BlocksDone m S input readTensor writeTensor requests before n memory)
  (launched : BlockLaunched m S gate input (if n = 0 then readTensor else writeTensor)
    writeTensor active memory after)

include disjoint hactive done launched

theorem row_of_blockLaunched (hgate : ∀ h, gate h = sigmoid (m.alpha h))
    {request : LaunchRequest} (hrequest : request ∈ requests) {p : Nat}
    (hp : p < request.seqLen) {h : Nat} (hh : h < m.numHeads) :
    after.out (request.startOffset + p, h) =
      if p < (n + 1) * S then
        [headOut (S := S) m h (headTokens m input request h) (keyValid S request.seqLen none)
          (before.cells ⟨readTensor, request.slot, m.stateHead h⟩) p]
      else [] := by
  have hold := done.row request hrequest p hp h hh
  rw [Nat.succ_mul]
  by_cases hblock : n * S ≤ p ∧ p < n * S + S
  · have hn : p / S = n := Nat.div_eq_of_lt_le hblock.1 (by rw [Nat.succ_mul]; exact hblock.2)
    have hlt : n < numBlocks request.seqLen S := hn ▸ div_lt_numBlocks hp
    have hmem := (hactive _).mpr ⟨request, hrequest, hlt, rfl⟩
    have hs : p - n * S < (request.block S n).seqLen := by
      simp only [LaunchRequest.block]
      omega
    have hposition : (request.block S n).startOffset + (p - n * S) =
        request.startOffset + p := by
      simp only [LaunchRequest.block]
      omega
    have hindex : Fin.ofNat S (p - n * S) = Fin.ofNat S p := by
      apply Fin.ext
      rw [Nat.mul_comm] at hblock
      simp only [Fin.val_ofNat, Nat.mul_comm n S, Nat.sub_mul_mod hblock.1]
    have hrow := launched.row _ hmem _ hs h hh
    have hstate := done.state request hrequest h hh
    rw [Nat.min_eq_left hlt.le] at hstate
    rw [hposition, hold, if_neg (by omega), List.nil_append, hindex, block_slot,
      hstate] at hrow
    rw [hrow, if_pos hblock.2]
    subst hn
    rw [kernelOutput_block m input h (hgate h) hp]
  · have hout := launched.otherRow (request.startOffset + p, h) ?_
    · rw [hout, hold]
      exact if_congr (by omega) rfl rfl
    · intro block hmem _ hrow
      obtain ⟨other, hother, -, rfl⟩ := (hactive block).mp hmem
      obtain ⟨hrow, hlow, hhigh⟩ := block_hasRow.mp hrow
      have hown : request.HasRow (request.startOffset + p) := ⟨by omega, by omega⟩
      have hsame : other = request :=
        disjoint.eq_of_slot hother hrequest (disjoint.rows hother hrequest hrow hown)
      subst hsame
      omega

theorem state_of_blockLaunched (hdvd : m.numKvHeads ∣ m.numHeads)
    (positive : ∀ request ∈ requests, 0 < request.seqLen)
    {request : LaunchRequest} (hrequest : request ∈ requests) {h : Nat}
    (hh : h < m.numHeads) :
    after.cells ⟨writeTensor, request.slot, m.stateHead h⟩ =
      stateAfter m h (headTokens m input request h) (keyValid S request.seqLen none)
        (before.cells ⟨readTensor, request.slot, m.stateHead h⟩) S
        (min (n + 1) (numBlocks request.seqLen S)) := by
  have hold := done.state request hrequest h hh
  by_cases hlt : n < numBlocks request.seqLen S
  · have hmem := (hactive _).mpr ⟨request, hrequest, hlt, rfl⟩
    have hkv : (if m.shareKvGroups then m.stateHead h else m.stateHead h / m.numKvGroups) =
        h / m.numKvGroups := by
      unfold HybridParams.stateHead
      split_ifs <;> rfl
    have hnew := launched.state _ hmem _ (m.stateHead_lt hdvd hh)
    rw [Nat.min_eq_left hlt.le] at hold
    rw [block_slot, hkv, hold, kernelUpdate_block m input h hlt] at hnew
    rw [hnew, Nat.min_eq_left hlt]
  · have hcell := launched.otherState ⟨writeTensor, request.slot, m.stateHead h⟩ ?_
    · have hn : n ≠ 0 := by
        have := numBlocks_pos (positive request hrequest) (NeZero.pos S)
        omega
      rw [if_neg hn] at hold
      rw [hcell, hold, Nat.min_eq_right (by omega), Nat.min_eq_right (by omega)]
    · intro block hmem head _ hsame
      obtain ⟨other, hother, hactive, rfl⟩ := (hactive block).mp hmem
      have hslot : request.slot = other.slot := (StateCell.mk.inj hsame).2.1
      rw [disjoint.eq_of_slot hrequest hother hslot] at hlt
      exact hlt hactive

theorem BlocksDone.step (hdvd : m.numKvHeads ∣ m.numHeads)
    (positive : ∀ request ∈ requests, 0 < request.seqLen)
    (hgate : ∀ h, gate h = sigmoid (m.alpha h)) :
    BlocksDone m S input readTensor writeTensor requests before (n + 1) after := by
  constructor
  · intro request hrequest p hp h hh
    exact row_of_blockLaunched disjoint hactive done launched hgate hrequest hp hh
  · intro key outside
    rw [launched.otherRow key, done.otherRow key outside]
    intro block hmem hh hrow
    obtain ⟨request, hrequest, -, rfl⟩ := (hactive block).mp hmem
    exact outside request hrequest hh (block_hasRow.mp hrow).1
  · intro request hrequest h hh
    rw [if_neg (Nat.succ_ne_zero n)]
    exact state_of_blockLaunched disjoint hactive done launched hdvd positive hrequest hh
  · intro cell outside
    rw [launched.otherState cell, done.otherState cell outside]
    intro block hmem head hhead
    obtain ⟨request, hrequest, -, rfl⟩ := (hactive block).mp hmem
    exact outside request hrequest head hhead

end Step

end Refinement

section Run

/-- A cached gate is the gate of the parameters. -/
def ServedHybrid.GateCurrent [Field K] [ExpOps K] (m : ServedHybrid D F K) : Prop :=
  ∀ gate, m.alphaGateCache = some gate → ∀ h, gate h = sigmoid (m.params.alpha h)

theorem ServedHybrid.GateCurrent.alphaGate_eq [Field K] [ExpOps K] {m : ServedHybrid D F K}
    (current : m.GateCurrent) (h : Nat) : m.alphaGate h = sigmoid (m.params.alpha h) := by
  unfold ServedHybrid.alphaGate
  cases hcache : m.alphaGateCache with
  | none => rfl
  | some gate => exact current gate hcache h

variable {seqLens reqIndices : List Nat}

theorem batchRequests_positive (positive : ∀ length ∈ seqLens, 0 < length) :
    ∀ request ∈ batchRequests seqLens reqIndices, 0 < request.seqLen := by
  intro request hrequest
  obtain ⟨r, hr, rfl⟩ := mem_batchRequests.mp hrequest
  apply positive
  simp [requestAt, List.getElem?_eq_getElem hr]

variable [Field K] [LinearOrder K] [ExpOps K] [IsStrictOrderedRing K] [LawfulExp K]
  [NeZero F] [NeZero S] (m : ServedHybrid D F K) (schedule : Scheduler)
  (input : KernelInput D K) (readTensor writeTensor : Nat) {memory : DeviceMemory D F K}
  (positive : ∀ length ∈ seqLens, 0 < length)
  (sameLength : reqIndices.length = seqLens.length) (distinct : reqIndices.Nodup)
  (hdvd : m.params.numKvHeads ∣ m.params.numHeads) (current : m.GateCurrent)
  (hout : ∀ key, memory.out key = [])

include positive sameLength distinct hdvd current hout

theorem multiBlockLoop_refinesForward :
    RefinesForward m.params S input readTensor writeTensor (batchRequests seqLens reqIndices)
      memory (multiBlockLoop m S schedule m.params.numKvGroups input writeTensor
        (buildRequestBlockPlan seqLens reqIndices S) readTensor memory).2 := by
  have disjoint := batchRequests_disjoint sameLength distinct
  have hpositive : ∀ request ∈ batchRequests seqLens reqIndices, 0 < request.seqLen :=
    batchRequests_positive positive
  let inv : Nat → Nat × DeviceMemory D F K → Prop := fun k s =>
    s.1 = k ∧ BlocksDone m.params S input readTensor writeTensor
      (batchRequests seqLens reqIndices) memory k s.2
  have hbody : ∀ k s, inv k s →
      ((buildRequestBlockPlan seqLens reqIndices S).activeRequests S s.1).isEmpty = false →
      inv (k + 1) (multiBlockStep m S schedule m.params.numKvGroups input writeTensor
        (buildRequestBlockPlan seqLens reqIndices S) readTensor s) := by
    rintro k ⟨counter, earlier⟩ ⟨rfl, done⟩ -
    refine ⟨rfl, done.step disjoint (fun _ => mem_activeRequests S sameLength) ?_ hdvd
      hpositive current.alphaGate_eq⟩
    apply outputThenUpdate_launched
    rw [buildRequestBlockPlan_activeRequests S sameLength]
    exact disjoint.blocks S counter _
  obtain ⟨k, ⟨hk, done⟩, hend⟩ := boundedLoop_counted inv hbody
    (buildRequestBlockPlan seqLens reqIndices S).maxBlocks (s := (0, memory))
    ⟨rfl, blocksDone_zero hout⟩
  apply done.refinesForward hpositive
  intro request hrequest
  rcases hend with hempty | hbound
  · by_contra hactive
    rw [hk, List.isEmpty_iff] at hempty
    have hmem := (mem_activeRequests S sameLength).mpr
      ⟨request, hrequest, Nat.lt_of_not_le hactive, rfl⟩
    rw [hempty] at hmem
    cases hmem
  · rw [hbound, Nat.zero_add]
    exact numBlocks_le_maxBlocks S hrequest

theorem runPlan_refinesForward :
    RefinesForward m.params S input readTensor writeTensor (batchRequests seqLens reqIndices)
      memory (runPlan m S schedule m.params.numKvGroups input writeTensor
        (buildRequestBlockPlan seqLens reqIndices S) readTensor memory) := by
  have disjoint := batchRequests_disjoint sameLength distinct
  have hpositive : ∀ request ∈ batchRequests seqLens reqIndices, 0 < request.seqLen :=
    batchRequests_positive positive
  have hfirst : BlocksDone m.params S input readTensor writeTensor
      (batchRequests seqLens reqIndices) memory 0 memory := blocksDone_zero hout
  unfold runPlan
  rw [buildRequestBlockPlan_requests S sameLength]
  by_cases hnone : (buildRequestBlockPlan seqLens reqIndices S).maxBlocks = 0
  · rw [if_pos hnone]
    apply hfirst.refinesForward hpositive
    intro request hrequest
    rw [← hnone]
    exact numBlocks_le_maxBlocks S hrequest
  rw [if_neg hnone]
  by_cases hone : (buildRequestBlockPlan seqLens reqIndices S).maxBlocks = 1
  · have hblocks : ∀ request ∈ batchRequests seqLens reqIndices,
        numBlocks request.seqLen S ≤ 1 := by
      intro request hrequest
      rw [← hone]
      exact numBlocks_le_maxBlocks S hrequest
    have hactive : ∀ block, block ∈ batchRequests seqLens reqIndices ↔
        ∃ request ∈ batchRequests seqLens reqIndices,
          0 < numBlocks request.seqLen S ∧ request.block S 0 = block := by
      intro block
      constructor
      · intro hblock
        exact ⟨block, hblock, numBlocks_pos (hpositive block hblock) (NeZero.pos S),
          block_eq_self (hblocks block hblock) (NeZero.pos S)⟩
      · rintro ⟨request, hrequest, -, rfl⟩
        rwa [block_eq_self (hblocks request hrequest) (NeZero.pos S)]
    have hstep : ∀ after, BlockLaunched m.params S m.alphaGate input readTensor writeTensor
        (batchRequests seqLens reqIndices) memory after →
        RefinesForward m.params S input readTensor writeTensor
          (batchRequests seqLens reqIndices) memory after := by
      intro after launched
      exact (hfirst.step disjoint hactive launched hdvd hpositive
        current.alphaGate_eq).refinesForward hpositive hblocks
    rw [if_pos hone]
    apply hstep
    cases hshare : m.params.shareKvGroups with
    | true =>
        rw [if_pos rfl]
        exact outputThenUpdate_launched m input readTensor writeTensor disjoint schedule 0 memory
    | false =>
        rw [if_neg (by simp)]
        exact fusedKernel_launched m input readTensor writeTensor disjoint hshare _ memory
  · rw [if_neg hone]
    exact multiBlockLoop_refinesForward m schedule input readTensor writeTensor positive
      sameLength distinct hdvd current hout

/-- A call of the served kernels on a ragged batch computes `forward` on every request
from the state at its slot, writes each row once and touches no other state. -/
theorem runKernels_refinesForward (hk : input.kHeads = m.params.numKvHeads)
    (hv : input.vHeads = m.params.numKvHeads) :
    ∃ after served, runKernels m S schedule input writeTensor
        (buildRequestBlockPlan seqLens reqIndices S) readTensor memory = some (after, served) ∧
      served.params = m.params ∧ served.GateCurrent ∧
      (∀ t < seqLens.sum, ∀ h < m.params.numHeads, (after.out (t, h)).length = 1) ∧
      RefinesForward m.params S input readTensor writeTensor
        (batchRequests seqLens reqIndices) memory after := by
  have refines := runPlan_refinesForward (S := S) m schedule input readTensor writeTensor
    positive sameLength distinct hdvd current hout
  refine ⟨_, _, runKernels_grouped hk hv schedule writeTensor _ readTensor memory, ?_, ?_, ?_,
    refines⟩
  · split_ifs <;> rfl
  · split_ifs with hnone
    · exact current
    · intro gate hgate h
      cases hgate
      exact current.alphaGate_eq h
  · intro t ht h hh
    exact refines.written_once ht hh

end Run

def rowMajorScheduler : Scheduler := fun _ R H =>
  .sequential (List.finRange R ×ˢ List.finRange H)
    ((List.nodup_finRange R).product (List.nodup_finRange H))
    (fun p => List.mem_product.mpr ⟨List.mem_finRange p.1, List.mem_finRange p.2⟩)

/-- Two blocks of one request beside a single ragged one, in place, with shared heads. -/
theorem runKernels_refinesForward_ragged :
    ∃ after served, runKernels (D := 1) (F := 1) (K := ℝ)
        ⟨⟨2, 1, true, 1, fun _ _ _ => 1, fun _ => 0⟩, none⟩ 2 rowMajorScheduler
        ⟨fun _ _ _ => 1, fun _ _ _ => 2, fun _ _ _ => 3, 1, 1⟩ 0
        (buildRequestBlockPlan [3, 1] [5, 2] 2) 0 ⟨fun _ => RecurrentState.zero, fun _ => []⟩ =
          some (after, served) ∧
      served.params = ⟨2, 1, true, 1, fun _ _ _ => 1, fun _ => 0⟩ ∧ served.GateCurrent ∧
      (∀ t < [3, 1].sum, ∀ h < 2, (after.out (t, h)).length = 1) ∧
      RefinesForward ⟨2, 1, true, 1, fun _ _ _ => 1, fun _ => 0⟩ 2
        ⟨fun _ _ _ => 1, fun _ _ _ => 2, fun _ _ _ => 3, 1, 1⟩ 0 0
        (batchRequests [3, 1] [5, 2]) ⟨fun _ => RecurrentState.zero, fun _ => []⟩ after :=
  runKernels_refinesForward _ rowMajorScheduler _ 0 0 (by decide) rfl (by decide) (by decide)
    (fun _ hnone => nomatch hnone) (fun _ => rfl) rfl rfl

end LladaHybrid.Attention
