import LladaHybrid.Attention.PlanLaunches

namespace LladaHybrid.Attention

open LladaHybrid.Library

variable {D F S : Nat} {K : Type*}

/-! `_run_kernels` accepts keys and values as `[T, Hkv, D]` or expanded to `[T, H, D]` and
takes the group count from their shape. -/

/-- `repeat_kv` of the keys and the values of a call. -/
def KernelInput.repeatKv (input : KernelInput D K) (nRep : Nat) : KernelInput D K where
  q := input.q
  k t h := Attention.repeatKv nRep (fun kvHead t => input.k t kvHead) h t
  v t h := Attention.repeatKv nRep (fun kvHead t => input.v t kvHead) h t
  kHeads := input.kHeads * nRep
  vHeads := input.vHeads * nRep

/-- `_z_heads` of the backend: the head dimension of the state pool. -/
def HybridParams.zHeads (m : HybridParams D F K) : Nat :=
  if m.shareKvGroups then m.numKvHeads else m.numHeads

/-- The key/value head that the update kernel reads for state head `h`. -/
def HybridParams.updateKvHead (m : HybridParams D F K) (numKvGroups h : Nat) : Nat :=
  if m.shareKvGroups then h else h / numKvGroups

section Congruence

variable {m : HybridParams D F K} {groups groups' : Nat} {input input' : KernelInput D K}

/-- Two layouts, with their group counts, that show the kernels the same heads. -/
structure SameHeads (m : HybridParams D F K) (groups groups' : Nat)
    (input input' : KernelInput D K) : Prop where
  q : input.q = input'.q
  read : ∀ h < m.numHeads, m.readHead groups h = m.readHead groups' h
  k : ∀ h < m.numHeads, ∀ t, input.k t (h / groups) = input'.k t (h / groups')
  v : ∀ h < m.numHeads, ∀ t, input.v t (h / groups) = input'.v t (h / groups')
  updateK : ∀ h < m.updateHeads, ∀ t,
    input.k t (m.updateKvHead groups h) = input'.k t (m.updateKvHead groups' h)
  updateV : ∀ h < m.updateHeads, ∀ t,
    input.v t (m.updateKvHead groups h) = input'.v t (m.updateKvHead groups' h)

variable [Field K]

theorem loadRows_congr {x x' : Nat → Nat → Vec D K} {head head' : Nat}
    (same : ∀ t, x t head = x' t head') (request : LaunchRequest) :
    loadRows S request x head = loadRows S request x' head' := by
  funext s
  simp only [loadRows, same]

variable [LinearOrder K] [ExpOps K] [NeZero F]

theorem kernelUpdate_congr {kvHead kvHead' : Nat}
    (hk : ∀ t, input.k t kvHead = input'.k t kvHead')
    (hv : ∀ t, input.v t kvHead = input'.v t kvHead') (request : LaunchRequest)
    (stateHead : Nat) :
    kernelUpdate m S input request kvHead stateHead =
      kernelUpdate m S input' request kvHead' stateHead := by
  funext old
  simp only [kernelUpdate, loadRows_congr hk, loadRows_congr hv]

theorem kernelOutput_congr {kvHead kvHead' : Nat} (hq : input.q = input'.q)
    (hk : ∀ t, input.k t kvHead = input'.k t kvHead')
    (hv : ∀ t, input.v t kvHead = input'.v t kvHead') (gate : Nat → K)
    (request : LaunchRequest) (qHead stateHead : Nat) :
    kernelOutput (S := S) m gate input request qHead kvHead stateHead =
      kernelOutput m gate input' request qHead kvHead' stateHead := by
  funext state s
  simp only [kernelOutput, loadRows_congr hk, loadRows_congr hv, hq]

variable [NeZero S] (same : SameHeads m groups groups' input input') (gate : Nat → K)
  (requests : List LaunchRequest) (readTensor writeTensor : Nat)

include same

theorem SameHeads.outputKernel :
    outputKernel m groups gate input requests S readTensor =
      Attention.outputKernel m groups' gate input' requests S readTensor := by
  have hread : ∀ p : Fin requests.length × Fin m.numHeads,
      (if m.shareKvGroups then p.2.val / groups else p.2) =
        (if m.shareKvGroups then p.2.val / groups' else p.2) :=
    fun p => same.read p.2 p.2.isLt
  have hrow := fun (p : Fin requests.length × Fin m.numHeads) =>
    kernelOutput_congr (m := m) (S := S) same.q (same.k p.2 p.2.isLt) (same.v p.2 p.2.isLt) gate
      (requests.get p.1) p.2
  simp only [Attention.outputKernel, hread, hrow]

omit [NeZero S] in
theorem SameHeads.updateStateKernel :
    updateStateKernel m groups input requests S readTensor writeTensor m.updateHeads =
      Attention.updateStateKernel m groups' input' requests S readTensor writeTensor
        m.updateHeads := by
  have hvalue := fun (p : Fin requests.length × Fin m.updateHeads) =>
    kernelUpdate_congr (m := m) (S := S) (same.updateK p.2 p.2.isLt) (same.updateV p.2 p.2.isLt)
      (requests.get p.1) p.2
  simp only [HybridParams.updateKvHead] at hvalue
  simp only [Attention.updateStateKernel, hvalue]

theorem SameHeads.fusedKernel :
    fusedKernel m groups gate input requests S readTensor writeTensor =
      Attention.fusedKernel m groups' gate input' requests S readTensor writeTensor := by
  have hvalue := fun (p : Fin requests.length × Fin m.numHeads) =>
    kernelUpdate_congr (m := m) (S := S) (same.k p.2 p.2.isLt) (same.v p.2 p.2.isLt)
      (requests.get p.1) p.2
  have hrow := fun (p : Fin requests.length × Fin m.numHeads) =>
    kernelOutput_congr (m := m) (S := S) same.q (same.k p.2 p.2.isLt) (same.v p.2 p.2.isLt) gate
      (requests.get p.1) p.2
  simp only [Attention.fusedKernel, hvalue, hrow]

end Congruence

/-- The group count that `_run_kernels` takes from the expanded shape. -/
def HybridParams.expandedGroups (m : HybridParams D F K) : Nat :=
  if m.numHeads = m.numKvHeads then m.numKvGroups else 1

section Shapes

variable {m : HybridParams D F K} {input : KernelInput D K}

theorem HybridParams.expandedGroups_eq_one (hheads : 0 < m.numHeads) :
    m.expandedGroups = 1 := by
  unfold expandedGroups
  split_ifs with hsame
  · rw [numKvGroups, hsame, Nat.div_self (hsame ▸ hheads)]
  · rfl

theorem kvGroups_expanded (hdvd : m.numKvHeads ∣ m.numHeads)
    (hk : input.kHeads = m.numKvHeads) (hv : input.vHeads = m.numKvHeads) :
    kvGroups m (input.repeatKv m.numKvGroups) = some m.expandedGroups := by
  have hheads : m.numKvHeads * m.numKvGroups = m.numHeads := Nat.mul_div_cancel' hdvd
  have hk' : (input.repeatKv m.numKvGroups).kHeads = m.numHeads := by
    rw [KernelInput.repeatKv, hk, hheads]
  have hv' : (input.repeatKv m.numKvGroups).vHeads = m.numHeads := by
    rw [KernelInput.repeatKv, hv, hheads]
  rw [kvGroups, hk', hv', if_neg (by simp), if_pos rfl, HybridParams.expandedGroups]
  split_ifs <;> rfl

theorem sameHeads_repeatKv (hheads : 0 < m.numHeads) (input : KernelInput D K)
    (hlayout : m.shareKvGroups = false ∨ m.numHeads = m.numKvHeads) :
    SameHeads m m.numKvGroups m.expandedGroups input (input.repeatKv m.numKvGroups) := by
  have hone : m.shareKvGroups = true → m.numKvGroups = 1 := by
    intro hshare
    have hsame := hlayout.resolve_left (by simp [hshare])
    rw [HybridParams.numKvGroups, hsame, Nat.div_self (hsame ▸ hheads)]
  rw [m.expandedGroups_eq_one hheads]
  constructor
  · rfl
  · intro h _
    unfold HybridParams.readHead
    split_ifs with hshare
    · rw [hone hshare]
    · rfl
  · intro h _ t
    simp [KernelInput.repeatKv, repeatKv]
  · intro h _ t
    simp [KernelInput.repeatKv, repeatKv]
  · intro h _ t
    unfold HybridParams.updateKvHead
    split_ifs with hshare <;> simp [KernelInput.repeatKv, repeatKv, hone, hshare]
  · intro h _ t
    unfold HybridParams.updateKvHead
    split_ifs with hshare <;> simp [KernelInput.repeatKv, repeatKv, hone, hshare]

end Shapes

section Layouts

variable [Field K] [LinearOrder K] [ExpOps K] [NeZero F] [NeZero S] {m : ServedHybrid D F K}
  {groups groups' readTensor writeTensor : Nat} {input input' : KernelInput D K}
  {plan : RequestBlockPlan}

theorem SameHeads.blockLaunches (same : SameHeads m.params groups groups' input input')
    (readTensor : Nat) (requests : List LaunchRequest) :
    blockLaunches m S groups input writeTensor readTensor requests =
      Attention.blockLaunches m S groups' input' writeTensor readTensor requests := by
  simp only [Attention.blockLaunches, same.outputKernel, same.updateStateKernel]

theorem SameHeads.passLaunches (same : SameHeads m.params groups groups' input input') :
    passLaunches m S groups input writeTensor plan readTensor =
      Attention.passLaunches m S groups' input' writeTensor plan readTensor := by
  funext n
  exact same.blockLaunches _ _

theorem SameHeads.planLaunches (same : SameHeads m.params groups groups' input input') :
    planLaunches m S groups input writeTensor plan readTensor =
      Attention.planLaunches m S groups' input' writeTensor plan readTensor := by
  simp only [Attention.planLaunches, same.passLaunches, same.blockLaunches, same.fusedKernel]

theorem planLaunches_of_firstRequests (hfirst : plan.firstRequests S = []) :
    planLaunches m S groups input writeTensor plan readTensor =
      planLaunches m S groups' input' writeTensor plan readTensor := by
  by_cases hone : plan.maxBlocks = 1
  · -- The grid of a single block without requests is empty.
    rw [RequestBlockPlan.firstRequests, if_neg (by omega), if_pos hone] at hfirst
    have hempty : IsEmpty (Fin plan.requests.length) := by
      rw [hfirst]
      exact Fin.isEmpty
    unfold planLaunches blockLaunches
    rw [hone, if_neg one_ne_zero, if_neg one_ne_zero, if_pos rfl, if_pos rfl]
    have hout := GridKernel.eq_of_isEmpty
      (outputKernel m.params groups m.alphaGate input plan.requests S readTensor)
      (outputKernel m.params groups' m.alphaGate input' plan.requests S readTensor)
    have hupdate := GridKernel.eq_of_isEmpty
      (updateStateKernel m.params groups input plan.requests S readTensor writeTensor
        m.params.updateHeads)
      (updateStateKernel m.params groups' input' plan.requests S readTensor writeTensor
        m.params.updateHeads)
    have hfused := GridKernel.eq_of_isEmpty
      (fusedKernel m.params groups m.alphaGate input plan.requests S readTensor writeTensor)
      (fusedKernel m.params groups' m.alphaGate input' plan.requests S readTensor writeTensor)
    rw [hout, hupdate, hfused]
  · rw [planLaunches_eq_nil_of_firstRequests hone hfirst,
      planLaunches_eq_nil_of_firstRequests hone hfirst]

/-- The state heads that the launches of a call reach are rows of the pool. -/
def InPool (m : ServedHybrid D F K) (S : Nat) [NeZero S] (input : KernelInput D K)
    (writeTensor : Nat) (plan : RequestBlockPlan) (readTensor : Nat) : Prop :=
  ∀ groups, kvGroups m.params input = some groups →
    ∀ planned ∈ planLaunches m S groups input writeTensor plan readTensor,
      ∀ cell, planned.Touches cell → cell.head < m.params.zHeads

/-- Both layouts of the keys and values stay in the pool and compute the same. -/
structure LayoutsAgree (m : ServedHybrid D F K) (S : Nat) [NeZero S] (schedule : Scheduler)
    (input : KernelInput D K) (writeTensor : Nat) (plan : RequestBlockPlan) (readTensor : Nat)
    (memory : DeviceMemory D F K) : Prop where
  grouped : InPool m S input writeTensor plan readTensor
  expanded : InPool m S (input.repeatKv m.params.numKvGroups) writeTensor plan readTensor
  same : runKernels m S schedule input writeTensor plan readTensor memory =
    runKernels m S schedule (input.repeatKv m.params.numKvGroups) writeTensor plan readTensor
      memory

variable (hheads : 0 < m.params.numHeads) (hdvd : m.params.numKvHeads ∣ m.params.numHeads)
  (hk : input.kHeads = m.params.numKvHeads) (hv : input.vHeads = m.params.numKvHeads)

section Agree

include hdvd hk hv

theorem inPool_grouped : InPool m S input writeTensor plan readTensor := by
  intro groups hgroups planned hplanned cell touched
  rw [kvGroups_grouped hk hv] at hgroups
  cases hgroups
  rcases head_of_planLaunches hplanned touched with hhead | ⟨h, hh, hhead⟩
  · exact hhead
  · rw [hhead]
    exact m.params.stateHead_lt hdvd hh

theorem layoutsAgree_of_launches (schedule : Scheduler) (memory : DeviceMemory D F K)
    (same : planLaunches m S m.params.numKvGroups input writeTensor plan readTensor =
      planLaunches m S m.params.expandedGroups (input.repeatKv m.params.numKvGroups) writeTensor
        plan readTensor) :
    LayoutsAgree m S schedule input writeTensor plan readTensor memory := by
  have grouped : InPool m S input writeTensor plan readTensor := inPool_grouped hdvd hk hv
  refine ⟨grouped, ?_, ?_⟩
  · intro groups hgroups
    rw [kvGroups_expanded hdvd hk hv] at hgroups
    cases hgroups
    rw [← same]
    exact grouped _ (kvGroups_grouped hk hv)
  · rw [runKernels_grouped hk hv, runKernels, kvGroups_expanded hdvd hk hv, Option.map_some,
      runPlan_eq_runLaunches, runPlan_eq_runLaunches, same]

end Agree

include hheads hdvd hk hv

/-- With shared feature maps the expanded layout makes the output kernel take the query head
for the state head. -/
theorem not_layoutsAgree (schedule : Scheduler) (memory : DeviceMemory D F K)
    (hshare : m.params.shareKvGroups = true) (hne : m.params.numHeads ≠ m.params.numKvHeads)
    (hfirst : plan.firstRequests S ≠ []) :
    ¬ LayoutsAgree m S schedule input writeTensor plan readTensor memory := by
  intro agree
  have hlast : m.params.numHeads - 1 < m.params.numHeads := by omega
  obtain ⟨planned, hplanned, cell, touched, hcell⟩ :=
    exists_touched_readHead m m.params.expandedGroups (input.repeatKv m.params.numKvGroups)
      readTensor writeTensor hfirst hlast
  have hpool := agree.expanded _ (kvGroups_expanded hdvd hk hv) planned hplanned cell touched
  have hle := Nat.le_of_dvd hheads hdvd
  simp only [hcell, HybridParams.readHead, hshare, m.params.expandedGroups_eq_one hheads,
    HybridParams.zHeads, if_true, Nat.div_one] at hpool
  omega

/-- The two layouts agree when feature maps are not shared, when there is nothing to expand,
and when nothing is launched. -/
theorem layoutsAgree_iff (schedule : Scheduler) (memory : DeviceMemory D F K) :
    LayoutsAgree m S schedule input writeTensor plan readTensor memory ↔
      m.params.shareKvGroups = false ∨ m.params.numHeads = m.params.numKvHeads ∨
        plan.firstRequests S = [] := by
  constructor
  · intro agree
    by_contra hnot
    simp only [not_or, Bool.not_eq_false] at hnot
    obtain ⟨hshare, hne, hfirst⟩ := hnot
    exact not_layoutsAgree hheads hdvd hk hv schedule memory hshare hne hfirst agree
  · intro hcondition
    apply layoutsAgree_of_launches hdvd hk hv
    rcases hcondition with hshare | hsame | hfirst
    · exact (sameHeads_repeatKv hheads input (Or.inl hshare)).planLaunches
    · exact (sameHeads_repeatKv hheads input (Or.inr hsame)).planLaunches
    · exact planLaunches_of_firstRequests hfirst

end Layouts

/-- Two query heads over one key/value head, with feature maps of their own. -/
theorem layoutsAgree_unshared_pair :
    LayoutsAgree (D := 1) (F := 1) (K := ℝ)
      ⟨⟨2, 1, false, 1, fun _ _ _ => 1, fun _ => 0⟩, none⟩ 32 rowMajorScheduler
      ⟨fun _ _ _ => 1, fun _ _ _ => 2, fun _ _ _ => 3, 1, 1⟩ 1
      (buildRequestBlockPlan [1] [0] 32) 0 ⟨fun _ => RecurrentState.zero, fun _ => []⟩ :=
  (layoutsAgree_iff (by decide) (by decide) rfl rfl rowMajorScheduler _).mpr (Or.inl rfl)

/-- The same pair with a shared feature map: query head `1` reads state head `1` of a pool
that has only head `0`. -/
theorem not_layoutsAgree_shared_pair :
    ¬ LayoutsAgree (D := 1) (F := 1) (K := ℝ)
      ⟨⟨2, 1, true, 1, fun _ _ _ => 1, fun _ => 0⟩, none⟩ 32 rowMajorScheduler
      ⟨fun _ _ _ => 1, fun _ _ _ => 2, fun _ _ _ => 3, 1, 1⟩ 1
      (buildRequestBlockPlan [1] [0] 32) 0 ⟨fun _ => RecurrentState.zero, fun _ => []⟩ :=
  not_layoutsAgree (by decide) (by decide) rfl rfl rowMajorScheduler _ rfl (by decide)
    (List.cons_ne_nil _ _)

end LladaHybrid.Attention
