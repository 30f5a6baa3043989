import LladaHybrid.Attention.KernelLaunch
import Mathlib.Data.List.MinMax

namespace LladaHybrid.Attention

/-! The requests of a block plan: which rows and which state slot each one owns, and
what each pass of the multi-block loop launches. -/

/-- Request `r` of a batch whose tokens are laid out one request after another. -/
def requestAt (seqLens reqIndices : List Nat) (r : Nat) : LaunchRequest where
  slot := reqIndices.getD r 0
  startOffset := (seqLens.take r).sum
  seqLen := seqLens.getD r 0

section Layout

variable {seqLens reqIndices : List Nat} {first second r position : Nat}

theorem requestAt_end_le (hlt : first < second) (hsecond : second ≤ seqLens.length) :
    (seqLens.take first).sum + seqLens.getD first 0 ≤ (seqLens.take second).sum := by
  have hfirst : first < seqLens.length := by omega
  calc
    (seqLens.take first).sum + seqLens.getD first 0 = (seqLens.take (first + 1)).sum := by
      rw [List.take_add_one, List.sum_append, List.getD_eq_getElem?_getD,
        List.getElem?_eq_getElem hfirst]
      simp
    _ ≤ (seqLens.take second).sum := by
      apply List.Sublist.sum_le_sum
      · exact (List.take_prefix_take_left (by omega)).sublist
      · intro length _
        exact Nat.zero_le length

theorem index_eq_of_hasRow (hfirst : first < seqLens.length) (hsecond : second < seqLens.length)
    (inFirst : (requestAt seqLens reqIndices first).HasRow position)
    (inSecond : (requestAt seqLens reqIndices second).HasRow position) : first = second := by
  unfold requestAt LaunchRequest.HasRow at inFirst inSecond
  rcases Nat.lt_trichotomy first second with hlt | heq | hlt
  · have hend := requestAt_end_le hlt hsecond.le
    dsimp only at inFirst inSecond
    omega
  · exact heq
  · have hend := requestAt_end_le hlt hfirst.le
    dsimp only at inFirst inSecond
    omega

theorem exists_requestAt_hasRow (reqIndices : List Nat) (hposition : position < seqLens.sum) :
    ∃ r < seqLens.length, (requestAt seqLens reqIndices r).HasRow position := by
  induction seqLens generalizing position with
  | nil => exact absurd hposition (Nat.not_lt_zero position)
  | cons length lengths ih =>
      rw [List.sum_cons] at hposition
      by_cases hhere : position < length
      · refine ⟨0, by simp, ?_⟩
        simpa [requestAt, LaunchRequest.HasRow] using hhere
      · have hrest : position - length < lengths.sum := by omega
        obtain ⟨r, hr, hrow⟩ := ih hrest
        refine ⟨r + 1, by simpa using hr, ?_⟩
        simp only [requestAt, LaunchRequest.HasRow, List.take_succ_cons, List.sum_cons,
          List.getD_cons_succ] at hrow ⊢
        omega

theorem length_startOffsets (offset : Nat) (lengths : List Nat) :
    (startOffsets offset lengths).length = lengths.length := by
  induction lengths generalizing offset with
  | nil => rfl
  | cons length lengths ih => simp [startOffsets, ih]

theorem getElem_startOffsets (offset : Nat) (lengths : List Nat)
    (hr : r < (startOffsets offset lengths).length) :
    (startOffsets offset lengths)[r] = offset + (lengths.take r).sum := by
  induction lengths generalizing offset r with
  | nil => cases hr
  | cons length lengths ih =>
      cases r with
      | zero => simp [startOffsets]
      | succ r =>
          simp only [startOffsets, List.getElem_cons_succ, List.take_succ_cons, List.sum_cons,
            ih]
          omega

end Layout

section Plan

variable (S : Nat) {seqLens reqIndices : List Nat}

def batchRequests (seqLens reqIndices : List Nat) : List LaunchRequest :=
  (List.range seqLens.length).map (requestAt seqLens reqIndices)

theorem mem_batchRequests {request : LaunchRequest} :
    request ∈ batchRequests seqLens reqIndices ↔
      ∃ r < seqLens.length, requestAt seqLens reqIndices r = request := by
  simp [batchRequests]

theorem buildRequestBlockPlan_numBlocks :
    (buildRequestBlockPlan seqLens reqIndices S).numBlocks =
      (batchRequests seqLens reqIndices).map (fun request => numBlocks request.seqLen S) := by
  have hnonempty : seqLens.map (fun length => (length + S - 1) / S) =
      (batchRequests seqLens reqIndices).map (fun request => numBlocks request.seqLen S) := by
    apply List.ext_getElem
    · simp [batchRequests]
    · intro r hr _
      have hlen : r < seqLens.length := by simpa using hr
      simp [batchRequests, requestAt, numBlocks, List.getElem?_eq_getElem hlen]
  unfold buildRequestBlockPlan
  split_ifs with hempty
  · subst hempty
    rfl
  · exact hnonempty

theorem numBlocks_le_maxBlocks {request : LaunchRequest}
    (hrequest : request ∈ batchRequests seqLens reqIndices) :
    numBlocks request.seqLen S ≤ (buildRequestBlockPlan seqLens reqIndices S).maxBlocks := by
  have hmax : (buildRequestBlockPlan seqLens reqIndices S).maxBlocks =
      (buildRequestBlockPlan seqLens reqIndices S).numBlocks.foldr max 0 := by
    unfold buildRequestBlockPlan
    split_ifs <;> rfl
  rw [hmax, buildRequestBlockPlan_numBlocks]
  exact List.le_max_of_le (List.mem_map_of_mem hrequest) le_rfl

variable (sameLength : reqIndices.length = seqLens.length)

include sameLength

theorem batchRequests_slots :
    (batchRequests seqLens reqIndices).map LaunchRequest.slot = reqIndices := by
  apply List.ext_getElem
  · simp [batchRequests, sameLength]
  · intro r _ hr
    simp [batchRequests, requestAt, List.getElem?_eq_getElem hr]

theorem batchRequests_disjoint (distinct : reqIndices.Nodup) :
    DisjointRequests (batchRequests seqLens reqIndices) := by
  constructor
  · rw [batchRequests_slots sameLength]
    exact distinct
  · intro first second position hfirst hsecond inFirst inSecond
    obtain ⟨i, hi, rfl⟩ := mem_batchRequests.mp hfirst
    obtain ⟨j, hj, rfl⟩ := mem_batchRequests.mp hsecond
    rw [index_eq_of_hasRow hi hj inFirst inSecond]

theorem zipWith_startOffsets :
    List.zipWith (fun slot row => LaunchRequest.mk slot row.1 row.2) reqIndices
      ((startOffsets 0 seqLens).zip seqLens) = batchRequests seqLens reqIndices := by
  apply List.ext_getElem
  · simp [batchRequests, sameLength, length_startOffsets]
  · intro r hr _
    have hlen : r < seqLens.length := by
      simp only [List.length_zipWith, List.length_zip, length_startOffsets] at hr
      omega
    have hslot : r < reqIndices.length := sameLength ▸ hlen
    simp [batchRequests, requestAt, getElem_startOffsets, List.getElem?_eq_getElem hlen,
      List.getElem?_eq_getElem hslot]

theorem buildRequestBlockPlan_requests :
    (buildRequestBlockPlan seqLens reqIndices S).requests =
      batchRequests seqLens reqIndices := by
  unfold buildRequestBlockPlan
  split_ifs with hempty
  · subst hempty
    rfl
  · exact zipWith_startOffsets sameLength

theorem buildRequestBlockPlan_activeRequests (n : Nat) :
    (buildRequestBlockPlan seqLens reqIndices S).activeRequests S n =
      ((batchRequests seqLens reqIndices).filter
        (fun request => n < numBlocks request.seqLen S)).map (fun request =>
          request.block S n) := by
  have hzip : ∀ requests : List LaunchRequest,
      requests.zip (requests.map (fun request => numBlocks request.seqLen S)) =
        requests.map (fun request => (request, numBlocks request.seqLen S)) := by
    intro requests
    induction requests with
    | nil => rfl
    | cons request requests ih => simp [ih]
  rw [RequestBlockPlan.activeRequests, buildRequestBlockPlan_requests S sameLength,
    buildRequestBlockPlan_numBlocks, hzip, List.filter_map, List.map_map]
  rfl

theorem mem_activeRequests {n : Nat} {block : LaunchRequest} :
    block ∈ (buildRequestBlockPlan seqLens reqIndices S).activeRequests S n ↔
      ∃ request ∈ batchRequests seqLens reqIndices,
        n < numBlocks request.seqLen S ∧ request.block S n = block := by
  rw [buildRequestBlockPlan_activeRequests S sameLength]
  simp [and_assoc]

end Plan

end LladaHybrid.Attention
