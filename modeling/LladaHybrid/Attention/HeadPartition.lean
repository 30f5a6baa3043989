import LladaHybrid.Attention.KernelRefinement

namespace LladaHybrid.Attention

open LladaHybrid.Library

/-! A module that serves some of the heads of another one. Heads do not interact, so what
it computes is what the other computes on those heads. -/

variable {D F S : Nat} {K : Type*}

section Heads

variable [Field K] [LinearOrder K] [ExpOps K] {m whole : HybridParams D F K} {h g : Nat}

omit [LinearOrder K] in
theorem stateAfter_of_weights
    (hweights : m.hedgehogWeights (m.stateHead h) = whole.hedgehogWeights (whole.stateHead g))
    (tokens : HeadTokens D K) (valid : Option (Nat → K)) (initial : RecurrentState D F K)
    (n : Nat) :
    stateAfter m h tokens valid initial S n = stateAfter whole g tokens valid initial S n := by
  induction n with
  | zero => rfl
  | succ n ih => simp only [stateAfter, blockKeys, ih, hweights]

theorem headOutWith_of_weights [NeZero S] (hscaling : m.scaling = whole.scaling)
    (hweights : m.hedgehogWeights (m.stateHead h) = whole.hedgehogWeights (whole.stateHead g))
    (halpha : m.alpha h = whole.alpha g) (tokens : HeadTokens D K) (valid : Option (Nat → K))
    (initial : RecurrentState D F K) (eps : K) (p : Nat) :
    headOutWith (S := S) m h tokens valid initial eps p =
      headOutWith (S := S) whole g tokens valid initial eps p := by
  simp only [headOutWith, blockRow, blockOut, stateAfter_of_weights hweights, hweights, hscaling,
    halpha]

end Heads

/-- Head `h` of the part is head `global h` of the whole, with its feature map, its gate and
the key/value head it shares. -/
structure HeadPartition (m whole : HybridParams D F K) (input wholeInput : KernelInput D K)
    (global : Nat → Nat) : Prop where
  unshared : m.shareKvGroups = false
  unsharedWhole : whole.shareKvGroups = false
  lt : ∀ h < m.numHeads, global h < whole.numHeads
  scaling : m.scaling = whole.scaling
  hedgehogWeights : ∀ h < m.numHeads, m.hedgehogWeights h = whole.hedgehogWeights (global h)
  alpha : ∀ h < m.numHeads, m.alpha h = whole.alpha (global h)
  q : ∀ t, ∀ h < m.numHeads, input.q t h = wholeInput.q t (global h)
  k : ∀ t, ∀ h < m.numHeads,
    input.k t (h / m.numKvGroups) = wholeInput.k t (global h / whole.numKvGroups)
  v : ∀ t, ∀ h < m.numHeads,
    input.v t (h / m.numKvGroups) = wholeInput.v t (global h / whole.numKvGroups)

/-- The memory of the part is the memory of the whole at its heads. -/
structure HeadsOf (numHeads : Nat) (global : Nat → Nat) (memory whole : DeviceMemory D F K) :
    Prop where
  cells : ∀ tensor slot, ∀ h < numHeads,
    memory.cells ⟨tensor, slot, h⟩ = whole.cells ⟨tensor, slot, global h⟩
  out : ∀ t, ∀ h < numHeads, memory.out (t, h) = whole.out (t, global h)

theorem HybridParams.stateHead_unshared {m : HybridParams D F K}
    (hshare : m.shareKvGroups = false) (h : Nat) : m.stateHead h = h := by
  simp [stateHead, hshare]

namespace HeadPartition

variable [Field K] [LinearOrder K] [ExpOps K] [NeZero S] {m whole : HybridParams D F K}
  {input wholeInput : KernelInput D K} {global : Nat → Nat}
  {before after wholeBefore wholeAfter : DeviceMemory D F K}
  {readTensor writeTensor : Nat} {requests : List LaunchRequest} {h : Nat}
  (partition : HeadPartition m whole input wholeInput global)

include partition

omit [Field K] [LinearOrder K] [ExpOps K] in
theorem headTokens_eq (hh : h < m.numHeads) (request : LaunchRequest) :
    headTokens m input request h = headTokens whole wholeInput request (global h) := by
  simp only [headTokens, repeatKv, partition.q _ h hh, partition.k _ h hh, partition.v _ h hh]

omit [Field K] [LinearOrder K] [ExpOps K] [NeZero S] in
theorem weights_eq (hh : h < m.numHeads) :
    m.hedgehogWeights (m.stateHead h) =
      whole.hedgehogWeights (whole.stateHead (global h)) := by
  rw [HybridParams.stateHead_unshared partition.unshared,
    HybridParams.stateHead_unshared partition.unsharedWhole, partition.hedgehogWeights h hh]

theorem forward_row (hh : h < m.numHeads) (request : LaunchRequest)
    {initial wholeInitial : Nat → RecurrentState D F K}
    (hinitial : initial h = wholeInitial (global h)) (p : Nat) :
    (forward m S (headTokens m input request) none (some initial)).1 h p =
      (forward whole S (headTokens whole wholeInput request) none (some wholeInitial)).1
        (global h) p := by
  simp only [forward, forwardWith, Option.getD_some, partition.headTokens_eq hh, hinitial]
  exact headOutWith_of_weights partition.scaling (partition.weights_eq hh)
    (partition.alpha h hh) _ _ _ _ p

theorem forward_state (hh : h < m.numHeads) (request : LaunchRequest)
    {initial wholeInitial : Nat → RecurrentState D F K}
    (hinitial : initial h = wholeInitial (global h)) :
    (forward m S (headTokens m input request) none (some initial)).2 h =
      (forward whole S (headTokens whole wholeInput request) none (some wholeInitial)).2
        (global h) := by
  simp only [forward, forwardWith, Option.getD_some, partition.headTokens_eq hh, hinitial]
  exact stateAfter_of_weights (partition.weights_eq hh) _ _ _ _

omit [Field K] [LinearOrder K] [ExpOps K] [NeZero S] in
theorem initial_eq (heads : HeadsOf m.numHeads global before wholeBefore) (hh : h < m.numHeads)
    (slot : Nat) :
    before.cells ⟨readTensor, slot, m.stateHead h⟩ =
      wholeBefore.cells ⟨readTensor, slot, whole.stateHead (global h)⟩ := by
  rw [HybridParams.stateHead_unshared partition.unshared,
    HybridParams.stateHead_unshared partition.unsharedWhole]
  exact heads.cells readTensor slot h hh

section Calls

variable (heads : HeadsOf m.numHeads global before wholeBefore)
  (refines : RefinesForward m S input readTensor writeTensor requests before after)
  (wholeRefines : RefinesForward whole S wholeInput readTensor writeTensor requests wholeBefore
    wholeAfter)

include heads refines wholeRefines

theorem written_eq (hh : h < m.numHeads) {request : LaunchRequest} (hrequest : request ∈ requests) :
    after.cells ⟨writeTensor, request.slot, h⟩ =
      wholeAfter.cells ⟨writeTensor, request.slot, global h⟩ := by
  have hpart := refines.state request hrequest h hh
  have hother := wholeRefines.state request hrequest (global h) (partition.lt h hh)
  rw [HybridParams.stateHead_unshared partition.unshared] at hpart
  rw [HybridParams.stateHead_unshared partition.unsharedWhole] at hother
  rw [hpart, hother]
  exact partition.forward_state hh request (partition.initial_eq heads hh request.slot)

theorem row_eq (hh : h < m.numHeads) {request : LaunchRequest} (hrequest : request ∈ requests)
    {t : Nat} (hrow : request.HasRow t) : after.out (t, h) = wholeAfter.out (t, global h) := by
  obtain ⟨hfirst, hlast⟩ := hrow
  obtain ⟨p, rfl⟩ := Nat.exists_eq_add_of_le hfirst
  have hp : p < request.seqLen := by omega
  rw [refines.row request hrequest p hp h hh,
    wholeRefines.row request hrequest p hp (global h) (partition.lt h hh)]
  exact congrArg (fun row => [row])
    (partition.forward_row hh request (partition.initial_eq heads hh request.slot) p)

/-- Calls that refine `forward` keep the memories in correspondence. -/
theorem headsOf_after : HeadsOf m.numHeads global after wholeAfter := by
  constructor
  · intro tensor slot h hh
    by_cases hwritten : tensor = writeTensor ∧ ∃ request ∈ requests, request.slot = slot
    · obtain ⟨rfl, request, hrequest, rfl⟩ := hwritten
      exact partition.written_eq heads refines wholeRefines hh hrequest
    · have hkept : ∀ head, ∀ request ∈ requests, ∀ updated,
          (⟨tensor, slot, head⟩ : StateCell) ≠ ⟨writeTensor, request.slot, updated⟩ := by
        intro head request hrequest updated hsame
        cases hsame
        exact hwritten ⟨rfl, request, hrequest, rfl⟩
      rw [refines.otherState _ (fun request hrequest head _ => hkept h request hrequest head),
        wholeRefines.otherState _
          (fun request hrequest head _ => hkept (global h) request hrequest head)]
      exact heads.cells tensor slot h hh
  · intro t h hh
    by_cases hrow : ∃ request ∈ requests, request.HasRow t
    · obtain ⟨request, hrequest, hin⟩ := hrow
      exact partition.row_eq heads refines wholeRefines hh hrequest hin
    · have hnone : ∀ request ∈ requests, ¬ request.HasRow t :=
        fun request hrequest hin => hrow ⟨request, hrequest, hin⟩
      rw [refines.otherRow (t, h) (fun request hrequest _ => hnone request hrequest),
        wholeRefines.otherRow (t, global h) (fun request hrequest _ => hnone request hrequest)]

end Calls

end HeadPartition

end LladaHybrid.Attention
