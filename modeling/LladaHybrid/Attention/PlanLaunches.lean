import LladaHybrid.Attention.KernelRefinement

namespace LladaHybrid.Attention

open LladaHybrid.Library

variable {D F S : Nat} {K : Type*}

/-! The launches of one call of `_run_kernels`, in order, and which state heads and output
rows they reach whatever the plan and the values are. -/

structure KernelLaunch (D F : Nat) (K : Type*) where
  numRequests : Nat
  numHeads : Nat
  kernel : HybridGridKernel numRequests numHeads D F K

def KernelLaunch.Touches (planned : KernelLaunch D F K) (cell : StateCell) : Prop :=
  planned.kernel.Touches cell

/-- Launch `i` of a call runs in the order `schedule i`. -/
def runLaunches (schedule : Scheduler) :
    Nat → List (KernelLaunch D F K) → DeviceMemory D F K → DeviceMemory D F K
  | _, [], memory => memory
  | i, planned :: launches, memory =>
      runLaunches schedule (i + 1) launches
        (launch planned.kernel (schedule i planned.numRequests planned.numHeads) memory)

theorem runLaunches_append (schedule : Scheduler) (i : Nat)
    (first second : List (KernelLaunch D F K)) (memory : DeviceMemory D F K) :
    runLaunches schedule i (first ++ second) memory =
      runLaunches schedule (i + first.length) second
        (runLaunches schedule i first memory) := by
  induction first generalizing i memory with
  | nil => rfl
  | cons planned first ih =>
      rw [List.cons_append, runLaunches, ih, runLaunches, List.length_cons,
        Nat.add_right_comm, Nat.add_assoc]

/-- The passes of the multi-block loop that launch something. -/
def RequestBlockPlan.launchedBlocks (plan : RequestBlockPlan) (S first count : Nat) :
    List Nat :=
  (List.range' first count).takeWhile (fun n => !(plan.activeRequests S n).isEmpty)

section Launches

variable [Field K] [LinearOrder K] [ExpOps K] [NeZero F]
  (m : ServedHybrid D F K) (S : Nat) [NeZero S] (numKvGroups : Nat) (input : KernelInput D K)
  (writeTensor : Nat)

def blockLaunches (readTensor : Nat) (requests : List LaunchRequest) :
    List (KernelLaunch D F K) :=
  [⟨_, _, outputKernel m.params numKvGroups m.alphaGate input requests S readTensor⟩,
    ⟨_, _, updateStateKernel m.params numKvGroups input requests S readTensor writeTensor
      m.params.updateHeads⟩]

def passLaunches (plan : RequestBlockPlan) (readTensor n : Nat) : List (KernelLaunch D F K) :=
  blockLaunches m S numKvGroups input writeTensor (if n = 0 then readTensor else writeTensor)
    (plan.activeRequests S n)

def planLaunches (plan : RequestBlockPlan) (readTensor : Nat) : List (KernelLaunch D F K) :=
  if plan.maxBlocks = 0 then
    []
  else if plan.maxBlocks = 1 then
    if m.params.shareKvGroups then
      blockLaunches m S numKvGroups input writeTensor readTensor plan.requests
    else
      [⟨_, _, fusedKernel m.params numKvGroups m.alphaGate input plan.requests S readTensor
        writeTensor⟩]
  else
    (plan.launchedBlocks S 0 plan.maxBlocks).flatMap
      (passLaunches m S numKvGroups input writeTensor plan readTensor)

variable (schedule : Scheduler)

theorem runLaunches_blockLaunches (readTensor n : Nat) (requests : List LaunchRequest)
    (memory : DeviceMemory D F K) :
    runLaunches schedule (2 * n)
        (blockLaunches m S numKvGroups input writeTensor readTensor requests) memory =
      outputThenUpdate m S schedule numKvGroups input writeTensor readTensor n requests
        memory := rfl

theorem multiBlockLoop_eq_runLaunches (plan : RequestBlockPlan) (readTensor n count : Nat)
    (memory : DeviceMemory D F K) :
    (boundedLoop (fun s => (plan.activeRequests S s.1).isEmpty)
      (multiBlockStep m S schedule numKvGroups input writeTensor plan readTensor) count
      (n, memory)).2 =
      runLaunches schedule (2 * n) ((plan.launchedBlocks S n count).flatMap
        (passLaunches m S numKvGroups input writeTensor plan readTensor)) memory := by
  induction count generalizing n memory with
  | zero => rfl
  | succ count ih =>
      rw [RequestBlockPlan.launchedBlocks, List.range'_succ]
      cases hactive : (plan.activeRequests S n).isEmpty with
      | true =>
          rw [boundedLoop_of_done (by exact hactive),
            List.takeWhile_cons_of_neg (by simp [hactive])]
          rfl
      | false =>
          rw [boundedLoop_of_not_done (by exact hactive),
            List.takeWhile_cons_of_pos (by simp [hactive]), List.flatMap_cons,
            runLaunches_append]
          exact ih (n + 1) _

/-- A call executes exactly the launches of its plan. -/
theorem runPlan_eq_runLaunches (plan : RequestBlockPlan) (readTensor : Nat)
    (memory : DeviceMemory D F K) :
    runPlan m S schedule numKvGroups input writeTensor plan readTensor memory =
      runLaunches schedule 0
        (planLaunches m S numKvGroups input writeTensor plan readTensor) memory := by
  unfold runPlan planLaunches
  split_ifs with hnone hone hshare
  · rfl
  · exact (runLaunches_blockLaunches m S numKvGroups input writeTensor schedule readTensor 0
      plan.requests memory).symm
  · rfl
  · exact multiBlockLoop_eq_runLaunches m S numKvGroups input writeTensor schedule plan
      readTensor 0 plan.maxBlocks memory

end Launches

/-! State heads. -/

/-- The requests of the first launch; without any, the call launches nothing. -/
def RequestBlockPlan.firstRequests (plan : RequestBlockPlan) (S : Nat) : List LaunchRequest :=
  if plan.maxBlocks = 0 then [] else if plan.maxBlocks = 1 then plan.requests
  else plan.activeRequests S 0

/-- The state head that the output kernel reads for query head `h`. -/
def HybridParams.readHead (m : HybridParams D F K) (numKvGroups h : Nat) : Nat :=
  if m.shareKvGroups then h / numKvGroups else h

section Heads

variable [Field K] [LinearOrder K] [ExpOps K] [NeZero F] [NeZero S]
  {m : ServedHybrid D F K} {groups : Nat} {input : KernelInput D K}
  {readTensor writeTensor : Nat} {requests : List LaunchRequest} {plan : RequestBlockPlan}
  {planned : KernelLaunch D F K} {cell : StateCell}

theorem head_of_blockLaunches
    (hplanned : planned ∈ blockLaunches m S groups input writeTensor readTensor requests)
    (touched : planned.Touches cell) :
    cell.head < m.params.updateHeads ∨
      ∃ h < m.params.numHeads, cell.head = m.params.readHead groups h := by
  simp only [blockLaunches, List.mem_cons, List.not_mem_nil, or_false] at hplanned
  rcases hplanned with rfl | rfl
  · obtain ⟨p, rfl | hstore⟩ := touched
    · exact Or.inr ⟨p.2, p.2.isLt, rfl⟩
    · cases hstore
  · obtain ⟨p, rfl | hstore⟩ := touched
    · exact Or.inl p.2.isLt
    · cases hstore
      exact Or.inl p.2.isLt

theorem head_of_planLaunches
    (hplanned : planned ∈ planLaunches m S groups input writeTensor plan readTensor)
    (touched : planned.Touches cell) :
    cell.head < m.params.updateHeads ∨
      ∃ h < m.params.numHeads, cell.head = m.params.readHead groups h := by
  unfold planLaunches at hplanned
  split_ifs at hplanned with hnone hone hshare
  · cases hplanned
  · exact head_of_blockLaunches hplanned touched
  · cases List.mem_singleton.mp hplanned
    have hread : ∀ h, m.params.readHead groups h = h := by
      simp [HybridParams.readHead, hshare]
    obtain ⟨p, rfl | hstore⟩ := touched
    · exact Or.inr ⟨p.2, p.2.isLt, (hread p.2).symm⟩
    · cases hstore
      exact Or.inr ⟨p.2, p.2.isLt, (hread p.2).symm⟩
  · obtain ⟨n, -, hpass⟩ := List.mem_flatMap.mp hplanned
    exact head_of_blockLaunches hpass touched

theorem planLaunches_eq_nil_of_firstRequests (hone : plan.maxBlocks ≠ 1)
    (hfirst : plan.firstRequests S = []) :
    planLaunches m S groups input writeTensor plan readTensor = [] := by
  unfold planLaunches
  split_ifs with hnone
  · rfl
  · rw [RequestBlockPlan.firstRequests, if_neg hnone, if_neg hone] at hfirst
    obtain ⟨count, hcount⟩ := Nat.exists_eq_succ_of_ne_zero hnone
    rw [RequestBlockPlan.launchedBlocks, hcount, List.range'_succ,
      List.takeWhile_cons_of_neg (by simp [hfirst])]
    rfl

variable (m groups input readTensor writeTensor) in
/-- The first launch reads the state of every query head. -/
theorem exists_touched_readHead (hfirst : plan.firstRequests S ≠ []) {h : Nat}
    (hh : h < m.params.numHeads) :
    ∃ planned ∈ planLaunches m S groups input writeTensor plan readTensor,
      ∃ cell, planned.Touches cell ∧ cell.head = m.params.readHead groups h := by
  have output : ∀ readTensor (requests : List LaunchRequest), requests ≠ [] →
      ∃ planned ∈ blockLaunches m S groups input writeTensor readTensor requests,
        ∃ cell, planned.Touches cell ∧ cell.head = m.params.readHead groups h := by
    intro readTensor requests hne
    refine ⟨_, List.mem_cons_self, _,
      ⟨(⟨0, List.length_pos_iff.mpr hne⟩, ⟨h, hh⟩), Or.inl rfl⟩, rfl⟩
  unfold planLaunches
  unfold RequestBlockPlan.firstRequests at hfirst
  split_ifs at hfirst ⊢ with hnone hone hshare
  · exact absurd rfl hfirst
  · exact output _ _ hfirst
  · refine ⟨_, List.mem_singleton_self _, _,
      ⟨(⟨0, List.length_pos_iff.mpr hfirst⟩, ⟨h, hh⟩), Or.inl rfl⟩, ?_⟩
    simp [HybridParams.readHead, hshare, fusedKernel]
  · obtain ⟨planned, hplanned, htouched⟩ := output readTensor _ hfirst
    refine ⟨planned, List.mem_flatMap.mpr ⟨0, ?_, hplanned⟩, htouched⟩
    obtain ⟨count, hcount⟩ := Nat.exists_eq_succ_of_ne_zero hnone
    rw [RequestBlockPlan.launchedBlocks, hcount, List.range'_succ,
      List.takeWhile_cons_of_pos (by simpa using hfirst)]
    exact List.mem_cons_self

end Heads

/-! Output rows. -/

/-- The rows a launch writes are the same for all values it may load. -/
def KernelLaunch.Writes (planned : KernelLaunch D F K) (key : Nat × Nat) : Prop :=
  ∃ p state, (planned.kernel.rows p state key).isSome

def KernelLaunch.Uniform (planned : KernelLaunch D F K) : Prop :=
  planned.kernel.Covers (fun p key => ∃ state, (planned.kernel.rows p state key).isSome)

theorem runLaunches_out {launches : List (KernelLaunch D F K)}
    (uniform : ∀ planned ∈ launches, planned.Uniform) (schedule : Scheduler) (i : Nat)
    (memory : DeviceMemory D F K) (key : Nat × Nat) :
    ∃ rows, (runLaunches schedule i launches memory).out key = memory.out key ++ rows ∧
      (rows ≠ [] ↔ ∃ planned ∈ launches, planned.Writes key) := by
  induction launches generalizing i memory with
  | nil => exact ⟨[], (List.append_nil _).symm, by simp⟩
  | cons planned launches ih =>
      obtain ⟨here, hhere, hwritten⟩ := launch_out
        (uniform planned List.mem_cons_self)
        (schedule i planned.numRequests planned.numHeads) key
      obtain ⟨later, hlater, hrest⟩ := ih (fun other hother =>
        uniform other (List.mem_cons_of_mem _ hother)) (i + 1) _
      refine ⟨here ++ later, ?_, ?_⟩
      · rw [runLaunches, hlater, hhere, List.append_assoc]
      · rw [Ne, List.append_eq_nil_iff, not_and_or, List.exists_mem_cons_iff]
        exact or_congr hwritten hrest

section Covers

variable {R H : Nat} {kernel : HybridGridKernel R H D F K}
  {covers : Fin R × Fin H → Nat × Nat → Prop} (hcovers : kernel.Covers covers)

include hcovers

theorem KernelLaunch.uniform_of_covers : KernelLaunch.Uniform ⟨R, H, kernel⟩ := by
  intro p state key
  constructor
  · intro hrow
    exact ⟨state, hrow⟩
  · rintro ⟨other, hrow⟩
    exact (hcovers p state key).mpr ((hcovers p other key).mp hrow)

theorem KernelLaunch.writes_of_covers [Field K] (key : Nat × Nat) :
    KernelLaunch.Writes ⟨R, H, kernel⟩ key ↔ ∃ p, covers p key := by
  constructor
  · rintro ⟨p, state, hrow⟩
    exact ⟨p, (hcovers p state key).mp hrow⟩
  · rintro ⟨p, hrow⟩
    exact ⟨p, RecurrentState.zero, (hcovers p _ key).mpr hrow⟩

end Covers

theorem isSome_storeRows {request : LaunchRequest} {head : Nat} {row : Nat → Vec D K}
    {key : Nat × Nat} :
    (storeRows request head row key).isSome ↔ key.2 = head ∧ request.HasRow key.1 := by
  unfold storeRows LaunchRequest.HasRow
  split_ifs with hrow <;> simp [hrow]

/-- Row `key.1` of query head `key.2` belongs to the block of program `p`. -/
def programRow (requests : List LaunchRequest) {heads : Nat}
    (p : Fin requests.length × Fin heads) (key : Nat × Nat) : Prop :=
  key.2 = p.2 ∧ (requests.get p.1).HasRow key.1

theorem exists_programRow {requests : List LaunchRequest} {heads : Nat} {key : Nat × Nat} :
    (∃ p : Fin requests.length × Fin heads, programRow requests p key) ↔
      key.2 < heads ∧ ∃ request ∈ requests, request.HasRow key.1 := by
  constructor
  · rintro ⟨p, hhead, hrow⟩
    exact ⟨hhead ▸ p.2.isLt, _, requests.get_mem p.1, hrow⟩
  · rintro ⟨hhead, request, hrequest, hrow⟩
    obtain ⟨i, rfl⟩ := List.get_of_mem hrequest
    exact ⟨(i, ⟨key.2, hhead⟩), rfl, hrow⟩

section Rows

variable [Field K] [LinearOrder K] [ExpOps K] [NeZero F] [NeZero S]

section Kernels

variable (m : HybridParams D F K) (groups : Nat) (gate : Nat → K) (input : KernelInput D K)
  (requests : List LaunchRequest) (readTensor writeTensor : Nat)

theorem outputKernel_covers :
    (outputKernel m groups gate input requests S readTensor).Covers (programRow requests) := by
  intro p state key
  rw [outputKernel_rows]
  exact isSome_storeRows

theorem fusedKernel_covers :
    (fusedKernel m groups gate input requests S readTensor writeTensor).Covers
      (programRow requests) := by
  intro p state key
  rw [fusedKernel_rows]
  exact isSome_storeRows

omit [NeZero S] in
theorem updateStateKernel_covers (heads : Nat) :
    (updateStateKernel m groups input requests S readTensor writeTensor heads).Covers
      (fun _ _ => False) := by
  intro p state key
  exact iff_of_false (by simp [updateStateKernel]) id

end Kernels

variable {m : ServedHybrid D F K} {groups : Nat} {input : KernelInput D K}
  {readTensor writeTensor : Nat} {requests : List LaunchRequest} {plan : RequestBlockPlan}
  {planned : KernelLaunch D F K} {key : Nat × Nat}

theorem blockLaunches_uniform
    (hplanned : planned ∈ blockLaunches m S groups input writeTensor readTensor requests) :
    planned.Uniform := by
  simp only [blockLaunches, List.mem_cons, List.not_mem_nil, or_false] at hplanned
  rcases hplanned with rfl | rfl
  · exact KernelLaunch.uniform_of_covers (outputKernel_covers _ _ _ _ _ _)
  · exact KernelLaunch.uniform_of_covers (updateStateKernel_covers _ _ _ _ _ _ _)

theorem planLaunches_uniform
    (hplanned : planned ∈ planLaunches m S groups input writeTensor plan readTensor) :
    planned.Uniform := by
  unfold planLaunches at hplanned
  split_ifs at hplanned with hnone hone hshare
  · cases hplanned
  · exact blockLaunches_uniform hplanned
  · cases List.mem_singleton.mp hplanned
    exact KernelLaunch.uniform_of_covers (fusedKernel_covers _ _ _ _ _ _ _)
  · obtain ⟨n, -, hpass⟩ := List.mem_flatMap.mp hplanned
    exact blockLaunches_uniform hpass

theorem blockLaunches_writes :
    (∃ planned ∈ blockLaunches m S groups input writeTensor readTensor requests,
      planned.Writes key) ↔
      key.2 < m.params.numHeads ∧ ∃ request ∈ requests, request.HasRow key.1 := by
  have output := KernelLaunch.writes_of_covers
    (outputKernel_covers (S := S) m.params groups m.alphaGate input requests readTensor) key
  have update := KernelLaunch.writes_of_covers (updateStateKernel_covers (S := S) m.params
    groups input requests readTensor writeTensor m.params.updateHeads) key
  simp only [blockLaunches, List.exists_mem_cons_iff, output, update, exists_programRow]
  simp

variable {seqLens reqIndices : List Nat}

theorem exists_batchRequest_hasRow (reqIndices : List Nat) {position : Nat} :
    (∃ request ∈ batchRequests seqLens reqIndices, request.HasRow position) ↔
      position < seqLens.sum := by
  constructor
  · rintro ⟨request, hrequest, hrow⟩
    obtain ⟨r, hr, rfl⟩ := mem_batchRequests.mp hrequest
    have hend : (seqLens.take r).sum + seqLens.getD r 0 ≤ (seqLens.take seqLens.length).sum :=
      requestAt_end_le hr le_rfl
    rw [List.take_length] at hend
    exact hrow.2.trans_le hend
  · intro hposition
    obtain ⟨r, hr, hrow⟩ := exists_requestAt_hasRow reqIndices hposition
    exact ⟨_, mem_batchRequests.mpr ⟨r, hr, rfl⟩, hrow⟩

variable (positive : ∀ length ∈ seqLens, 0 < length)
  (sameLength : reqIndices.length = seqLens.length)

include sameLength

omit [NeZero S] in
/-- The loop does not stop before the last block of any request. -/
theorem mem_launchedBlocks {request : LaunchRequest}
    (hrequest : request ∈ batchRequests seqLens reqIndices) {n : Nat}
    (hn : n < numBlocks request.seqLen S) :
    n ∈ (buildRequestBlockPlan seqLens reqIndices S).launchedBlocks S 0
      (buildRequestBlockPlan seqLens reqIndices S).maxBlocks := by
  have hmax := numBlocks_le_maxBlocks S hrequest
  obtain ⟨rest, hrest⟩ := Nat.exists_eq_add_of_lt (hn.trans_le hmax)
  have hall : ∀ k ∈ List.range' 0 (n + 1),
      (!((buildRequestBlockPlan seqLens reqIndices S).activeRequests S k).isEmpty) = true := by
    intro k hk
    rw [List.mem_range'_1] at hk
    have hactive := (mem_activeRequests S sameLength).mpr ⟨request, hrequest,
      (by omega : k < numBlocks request.seqLen S), rfl⟩
    simpa [List.isEmpty_iff] using List.ne_nil_of_mem hactive
  rw [RequestBlockPlan.launchedBlocks, hrest,
    show n + rest + 1 = (n + 1) + rest by omega, ← List.range'_append_1,
    List.takeWhile_append_of_pos hall]
  exact List.mem_append_left _ (List.mem_range'_1.mpr ⟨by omega, by omega⟩)

include positive

/-- A call writes the rows of the batch, for every query head, and no others. -/
theorem planLaunches_writes :
    (∃ planned ∈ planLaunches m S groups input writeTensor
        (buildRequestBlockPlan seqLens reqIndices S) readTensor, planned.Writes key) ↔
      key.1 < seqLens.sum ∧ key.2 < m.params.numHeads := by
  have hpositive : ∀ request ∈ batchRequests seqLens reqIndices, 0 < request.seqLen :=
    batchRequests_positive positive
  rw [and_comm, ← exists_batchRequest_hasRow reqIndices]
  unfold planLaunches
  split_ifs with hnone hone hshare
  · refine iff_of_false (by simp) ?_
    rintro ⟨-, request, hrequest, -⟩
    have hblocks := numBlocks_le_maxBlocks S hrequest
    have hpos := numBlocks_pos (hpositive request hrequest) (NeZero.pos S)
    omega
  · rw [buildRequestBlockPlan_requests S sameLength]
    exact blockLaunches_writes
  · rw [buildRequestBlockPlan_requests S sameLength]
    simp only [List.mem_singleton, exists_eq_left]
    exact (KernelLaunch.writes_of_covers (fusedKernel_covers _ _ _ _ _ _ _) key).trans
      exists_programRow
  · constructor
    · rintro ⟨planned, hplanned, hwrites⟩
      obtain ⟨n, -, hpass⟩ := List.mem_flatMap.mp hplanned
      obtain ⟨hhead, block, hblock, hrow⟩ := blockLaunches_writes.mp ⟨planned, hpass, hwrites⟩
      obtain ⟨request, hrequest, -, rfl⟩ := (mem_activeRequests S sameLength).mp hblock
      exact ⟨hhead, request, hrequest, (block_hasRow.mp hrow).1⟩
    · rintro ⟨hhead, request, hrequest, hrow⟩
      have hn : (key.1 - request.startOffset) / S < numBlocks request.seqLen S := by
        apply div_lt_numBlocks
        have := hrow.1
        have := hrow.2
        omega
      have hdiv := Nat.div_add_mod (key.1 - request.startOffset) S
      have hmod := Nat.mod_lt (key.1 - request.startOffset) (NeZero.pos S)
      rw [Nat.mul_comm] at hdiv
      have hlow := hrow.1
      have hblock := (mem_activeRequests S sameLength).mpr ⟨request, hrequest, hn, rfl⟩
      have hwritten : ∃ planned ∈ passLaunches m S groups input writeTensor
          (buildRequestBlockPlan seqLens reqIndices S) readTensor
          ((key.1 - request.startOffset) / S), planned.Writes key :=
        blockLaunches_writes.mpr
          ⟨hhead, _, hblock, block_hasRow.mpr ⟨hrow, by omega, by omega⟩⟩
      obtain ⟨planned, hpass, hwrites⟩ := hwritten
      exact ⟨planned, List.mem_flatMap.mpr
        ⟨_, mem_launchedBlocks sameLength hrequest hn, hpass⟩, hwrites⟩

end Rows

end LladaHybrid.Attention
