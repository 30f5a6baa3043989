import LladaHybrid.Attention.KernelBlock

namespace LladaHybrid.Attention

open LladaHybrid.Library

variable {D F S : Nat} {K : Type*}

/-! What the launches of one block leave in device memory, whatever order the programs
of a grid run in. -/

def LaunchRequest.HasRow (request : LaunchRequest) (position : Nat) : Prop :=
  request.startOffset ≤ position ∧ position < request.startOffset + request.seqLen

/-- The requests of a launch own their state slots and their rows. -/
structure DisjointRequests (requests : List LaunchRequest) : Prop where
  slots : (requests.map LaunchRequest.slot).Nodup
  rows : ∀ {first second position}, first ∈ requests → second ∈ requests →
    first.HasRow position → second.HasRow position → first.slot = second.slot

namespace DisjointRequests

variable {requests : List LaunchRequest} (disjoint : DisjointRequests requests)

include disjoint

theorem eq_of_slot {first second : LaunchRequest} (hfirst : first ∈ requests)
    (hsecond : second ∈ requests) (same : first.slot = second.slot) : first = second :=
  List.inj_on_of_nodup_map disjoint.slots hfirst hsecond same

theorem index_eq {i j : Fin requests.length}
    (same : (requests.get i).slot = (requests.get j).slot) : i = j := by
  have nodup : requests.Nodup := disjoint.slots.of_map
  exact nodup.injective_get (disjoint.eq_of_slot (requests.get_mem i) (requests.get_mem j) same)

theorem program_eq {H first second : Nat} {p r : Fin requests.length × Fin H}
    (same : StateCell.mk first (requests.get p.1).slot p.2 =
      StateCell.mk second (requests.get r.1).slot r.2) : p = r := by
  obtain ⟨-, hslot, hhead⟩ := StateCell.mk.inj same
  exact Prod.ext (disjoint.index_eq hslot) (Fin.ext hhead)

theorem program_eq_of_rows {H : Nat} {p r : Fin requests.length × Fin H}
    {rowsOfP rowsOfR : Nat → Vec D K} {key : Nat × Nat}
    (hp : (storeRows (requests.get p.1) p.2 rowsOfP key).isSome)
    (hr : (storeRows (requests.get r.1) r.2 rowsOfR key).isSome) : p = r := by
  unfold storeRows at hp hr
  split_ifs at hp hr with hp' hr'
  · have hslot := disjoint.rows (requests.get_mem p.1) (requests.get_mem r.1) hp'.2 hr'.2
    exact Prod.ext (disjoint.index_eq hslot) (Fin.ext (hp'.1.symm.trans hr'.1))
  all_goals simp_all

end DisjointRequests

theorem storeRows_of_hasRow {request : LaunchRequest} {s : Nat} (hs : s < request.seqLen)
    (head : Nat) (row : Nat → Vec D K) :
    storeRows request head row (request.startOffset + s, head) = some (row s) := by
  rw [storeRows, if_pos ⟨rfl, Nat.le_add_right _ _, by simpa using hs⟩]
  simp

theorem storeRows_congr {request : LaunchRequest} (head : Nat) {row row' : Nat → Vec D K}
    (same : ∀ s < request.seqLen, row s = row' s) :
    storeRows request head row = storeRows request head row' := by
  funext key
  unfold storeRows
  split_ifs with hkey
  · rw [same _ (by omega)]
  · rfl

theorem storeRows_eq_none {request : LaunchRequest} {head : Nat} {key : Nat × Nat}
    (outside : key.2 = head → ¬ request.HasRow key.1) (row : Nat → Vec D K) :
    storeRows request head row key = none := by
  rw [storeRows, if_neg]
  rintro ⟨hhead, hrow⟩
  exact outside hhead hrow

theorem cells_unique {writeTensor heads : Nat} {requests : List LaunchRequest}
    {cells first second : StateCell → RecurrentState D F K}
    {updated : LaunchRequest → Nat → RecurrentState D F K}
    (state : ∀ request ∈ requests, ∀ head < heads,
      first ⟨writeTensor, request.slot, head⟩ = updated request head)
    (otherState : ∀ cell : StateCell,
      (∀ request ∈ requests, ∀ head < heads, cell ≠ ⟨writeTensor, request.slot, head⟩) →
      first cell = cells cell)
    (state' : ∀ request ∈ requests, ∀ head < heads,
      second ⟨writeTensor, request.slot, head⟩ = updated request head)
    (otherState' : ∀ cell : StateCell,
      (∀ request ∈ requests, ∀ head < heads, cell ≠ ⟨writeTensor, request.slot, head⟩) →
      second cell = cells cell) : first = second := by
  funext cell
  by_cases hcell : ∃ request ∈ requests, ∃ head < heads,
      cell = ⟨writeTensor, request.slot, head⟩
  · obtain ⟨request, hrequest, head, hhead, rfl⟩ := hcell
    rw [state request hrequest head hhead, state' request hrequest head hhead]
  · have outside : ∀ request ∈ requests, ∀ head < heads,
        cell ≠ ⟨writeTensor, request.slot, head⟩ :=
      fun request hrequest head hhead same => hcell ⟨request, hrequest, head, hhead, same⟩
    rw [otherState cell outside, otherState' cell outside]

section Launches

variable [Field K] [LinearOrder K] [ExpOps K] [NeZero F] [NeZero S]

/-- The effect of running one block of each request: heads read from `readTensor`,
updated states in `writeTensor`, one more row for every token and query head. -/
structure BlockLaunched (m : HybridParams D F K) (S : Nat) [NeZero S] (gate : Nat → K)
    (input : KernelInput D K) (readTensor writeTensor : Nat)
    (requests : List LaunchRequest) (before after : DeviceMemory D F K) : Prop where
  state : ∀ request ∈ requests, ∀ head < m.updateHeads,
    after.cells ⟨writeTensor, request.slot, head⟩ =
      kernelUpdate m S input request
        (if m.shareKvGroups then head else head / m.numKvGroups) head
        (before.cells ⟨readTensor, request.slot, head⟩)
  otherState : ∀ cell : StateCell,
    (∀ request ∈ requests, ∀ head < m.updateHeads,
      cell ≠ ⟨writeTensor, request.slot, head⟩) →
    after.cells cell = before.cells cell
  row : ∀ request ∈ requests, ∀ s < request.seqLen, ∀ h < m.numHeads,
    after.out (request.startOffset + s, h) = before.out (request.startOffset + s, h) ++
      [kernelOutput m gate input request h (h / m.numKvGroups) (m.stateHead h)
        (before.cells ⟨readTensor, request.slot, m.stateHead h⟩) (Fin.ofNat S s)]
  otherRow : ∀ key : Nat × Nat,
    (∀ request ∈ requests, key.2 < m.numHeads → ¬ request.HasRow key.1) →
    after.out key = before.out key

/-- The block determines the memory after it. -/
theorem BlockLaunched.unique {m : HybridParams D F K} {gate : Nat → K} {input : KernelInput D K}
    {readTensor writeTensor : Nat} {requests : List LaunchRequest}
    {before first second : DeviceMemory D F K}
    (one : BlockLaunched m S gate input readTensor writeTensor requests before first)
    (other : BlockLaunched m S gate input readTensor writeTensor requests before second) :
    first = second := by
  have hcells : first.cells = second.cells :=
    cells_unique one.state one.otherState other.state other.otherState
  have hout : first.out = second.out := by
    funext key
    by_cases hkey : ∃ request ∈ requests, key.2 < m.numHeads ∧ request.HasRow key.1
    · obtain ⟨request, hrequest, hhead, hlow, hhigh⟩ := hkey
      have hs : key.1 - request.startOffset < request.seqLen := by omega
      have hrow := (one.row request hrequest _ hs key.2 hhead).trans
        (other.row request hrequest _ hs key.2 hhead).symm
      rwa [Nat.add_sub_of_le hlow] at hrow
    · have outside : ∀ request ∈ requests, key.2 < m.numHeads → ¬ request.HasRow key.1 :=
        fun request hrequest hhead hrow => hkey ⟨request, hrequest, hhead, hrow⟩
      rw [one.otherRow key outside, other.otherRow key outside]
  cases first
  cases second
  cases hcells
  cases hout
  rfl

section RaceFree

variable (m : HybridParams D F K) (groups : Nat) (gate : Nat → K) (input : KernelInput D K)
  (readTensor writeTensor : Nat) {requests : List LaunchRequest}

theorem outputKernel_rows (p : Fin requests.length × Fin m.numHeads)
    (state : RecurrentState D F K) :
    (outputKernel m groups gate input requests S readTensor).rows p state =
      storeRows (requests.get p.1) p.2 (fun s =>
        kernelOutput m gate input (requests.get p.1) p.2 (p.2 / groups)
          (if m.shareKvGroups then p.2 / groups else p.2) state (Fin.ofNat S s)) := rfl

theorem fusedKernel_rows (p : Fin requests.length × Fin m.numHeads)
    (state : RecurrentState D F K) :
    (fusedKernel m groups gate input requests S readTensor writeTensor).rows p state =
      storeRows (requests.get p.1) p.2 (fun s =>
        kernelOutput m gate input (requests.get p.1) p.2 (p.2 / groups) p.2 state
          (Fin.ofNat S s)) := rfl

variable (disjoint : DisjointRequests requests)

include disjoint

omit [NeZero S] in
theorem updateStateKernel_raceFree (heads : Nat) :
    RaceFree (updateStateKernel m groups input requests S readTensor writeTensor heads) where
  load_store same := (disjoint.program_eq (Option.some.inj same)).symm
  store_store same same' :=
    disjoint.program_eq ((Option.some.inj same).trans (Option.some.inj same').symm)
  rows_rows row := by cases row

theorem outputKernel_raceFree :
    RaceFree (outputKernel m groups gate input requests S readTensor) where
  load_store same := by cases same
  store_store same := by cases same
  rows_rows first second := by
    rw [outputKernel_rows] at first second
    exact disjoint.program_eq_of_rows first second

theorem fusedKernel_raceFree :
    RaceFree (fusedKernel m groups gate input requests S readTensor writeTensor) where
  load_store same := (disjoint.program_eq (Option.some.inj same)).symm
  store_store same same' :=
    disjoint.program_eq ((Option.some.inj same).trans (Option.some.inj same').symm)
  rows_rows first second := by
    rw [fusedKernel_rows] at first second
    exact disjoint.program_eq_of_rows first second

end RaceFree

variable (m : ServedHybrid D F K) (input : KernelInput D K) (readTensor writeTensor : Nat)
  {requests : List LaunchRequest} (disjoint : DisjointRequests requests)

include disjoint

theorem outputThenUpdate_launched (schedule : Scheduler) (blockIdx : Nat)
    (memory : DeviceMemory D F K) :
    BlockLaunched m.params S m.alphaGate input readTensor writeTensor requests memory
      (outputThenUpdate m S schedule m.params.numKvGroups input writeTensor readTensor
        blockIdx requests memory) := by
  have output := outputKernel_raceFree (S := S) m.params m.params.numKvGroups m.alphaGate
    input readTensor disjoint
  have update := updateStateKernel_raceFree (S := S) m.params m.params.numKvGroups input
    readTensor writeTensor disjoint m.params.updateHeads
  have cells : ∀ cell, (launch (outputKernel m.params m.params.numKvGroups m.alphaGate input
      requests S readTensor) (schedule (2 * blockIdx) _ _) memory).cells cell =
      memory.cells cell := by
    intro cell
    apply launch_cells_of_ne output
    intro program same
    cases same
  constructor
  · intro request hrequest head hhead
    obtain ⟨i, rfl⟩ := List.get_of_mem hrequest
    refine (launch_cells_of_store update _ (i := (i, ⟨head, hhead⟩)) rfl).trans ?_
    rw [cells]
    rfl
  · intro cell hcell
    refine (launch_cells_of_ne update _ ?_).trans (cells cell)
    intro program same
    exact hcell _ (requests.get_mem program.1) _ program.2.isLt (Option.some.inj same).symm
  · intro request hrequest s hs h hh
    obtain ⟨i, rfl⟩ := List.get_of_mem hrequest
    refine (launch_out_of_none update _ (fun _ => rfl)).trans ?_
    apply launch_out_of_row output _ (i := (i, ⟨h, hh⟩))
    rw [outputKernel_rows]
    exact storeRows_of_hasRow hs h _
  · intro key hkey
    refine (launch_out_of_none update _ (fun _ => rfl)).trans
      (launch_out_of_none output _ ?_)
    intro program
    rw [outputKernel_rows]
    apply storeRows_eq_none
    intro hhead
    exact hkey _ (requests.get_mem program.1) (hhead ▸ program.2.isLt)

theorem fusedKernel_launched (unshared : m.params.shareKvGroups = false)
    (schedule : GridSchedule (Fin requests.length × Fin m.params.numHeads))
    (memory : DeviceMemory D F K) :
    BlockLaunched m.params S m.alphaGate input readTensor writeTensor requests memory
      (launch (fusedKernel m.params m.params.numKvGroups m.alphaGate input requests S
        readTensor writeTensor) schedule memory) := by
  have fused := fusedKernel_raceFree (S := S) m.params m.params.numKvGroups m.alphaGate
    input readTensor writeTensor disjoint
  have heads : m.params.updateHeads = m.params.numHeads := by
    simp [HybridParams.updateHeads, unshared]
  constructor
  · intro request hrequest head hhead
    obtain ⟨i, rfl⟩ := List.get_of_mem hrequest
    rw [heads] at hhead
    refine (launch_cells_of_store fused schedule (i := (i, ⟨head, hhead⟩)) rfl).trans ?_
    simp only [unshared, Bool.false_eq_true, if_false]
    rfl
  · intro cell hcell
    apply launch_cells_of_ne fused schedule
    intro program same
    have hhead : program.2.val < m.params.updateHeads := by
      rw [heads]
      exact program.2.isLt
    exact hcell _ (requests.get_mem program.1) _ hhead (Option.some.inj same).symm
  · intro request hrequest s hs h hh
    obtain ⟨i, rfl⟩ := List.get_of_mem hrequest
    simp only [HybridParams.stateHead, unshared, Bool.false_eq_true, if_false]
    apply launch_out_of_row fused schedule (i := (i, ⟨h, hh⟩))
    rw [fusedKernel_rows]
    exact storeRows_of_hasRow hs h _
  · intro key hkey
    apply launch_out_of_none fused schedule
    intro program
    rw [fusedKernel_rows]
    apply storeRows_eq_none
    intro hhead
    exact hkey _ (requests.get_mem program.1) (hhead ▸ program.2.isLt)

end Launches

end LladaHybrid.Attention
