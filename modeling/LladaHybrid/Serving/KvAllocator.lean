import LladaHybrid.Library.StoreAll
import LladaHybrid.Decode.RunnerSimulation
import LladaHybrid.Serving.Scheduler
import Mathlib.Algebra.BigOperators.Group.Finset.Basic
import Mathlib.Data.List.GetD
import Mathlib.Data.List.OfFn
import Mathlib.Data.List.ProdSigma

namespace LladaHybrid.Serving

open LladaHybrid.Library LladaHybrid.Decode

/-! The KV cache as memory: an allocator of locations, a buffer with a row at each of them,
and the forwards of a batch that read and write rows by location. -/

/-- `need_sort` collects what is freed apart and sorts it in only when the list runs short. -/
structure TokenToKVPoolAllocator where
  freePages : List Nat
  releasePages : List Nat
  needSort : Bool

namespace TokenToKVPoolAllocator

/-- Location 0 takes the rows of padded tokens. -/
def clear (size : Nat) (needSort : Bool) : TokenToKVPoolAllocator where
  freePages := List.range' 1 size
  releasePages := []
  needSort

variable (allocator : TokenToKVPoolAllocator)

def availableSize : Nat := allocator.freePages.length + allocator.releasePages.length

def mergeAndSortFree : TokenToKVPoolAllocator :=
  if 0 < allocator.releasePages.length then
    { allocator with
      freePages := (allocator.freePages ++ allocator.releasePages).mergeSort
      releasePages := [] }
  else
    allocator

/-- The first lines of `alloc`. -/
def refill (needSize : Nat) : TokenToKVPoolAllocator :=
  if allocator.needSort ∧ allocator.freePages.length < needSize then
    allocator.mergeAndSortFree
  else
    allocator

def alloc (needSize : Nat) : Option (List Nat × TokenToKVPoolAllocator) :=
  let refilled := allocator.refill needSize
  if refilled.freePages.length < needSize then
    none
  else
    some (refilled.freePages.take needSize,
      { refilled with freePages := refilled.freePages.drop needSize })

def free (freeIndex : List Nat) : TokenToKVPoolAllocator :=
  if freeIndex.length = 0 then
    allocator
  else if allocator.needSort then
    { allocator with releasePages := allocator.releasePages ++ freeIndex }
  else
    { allocator with freePages := allocator.freePages ++ freeIndex }

def available : Multiset Nat := allocator.freePages + allocator.releasePages

theorem card_available : allocator.available.card = allocator.availableSize := by
  rw [available, Multiset.card_add, Multiset.coe_card, Multiset.coe_card, availableSize]

theorem available_refill (needSize : Nat) :
    (allocator.refill needSize).available = allocator.available := by
  rw [refill, mergeAndSortFree]
  split_ifs
  · have hsorted : ((allocator.freePages ++ allocator.releasePages).mergeSort : Multiset Nat) =
        (allocator.freePages ++ allocator.releasePages : List Nat) :=
      Multiset.coe_eq_coe.mpr (List.mergeSort_perm _ _)
    rw [available, available, hsorted, ← Multiset.coe_add]
    exact add_zero _
  · rfl
  · rfl

variable {allocator} {allocator' : TokenToKVPoolAllocator} {needSize : Nat} {locs : List Nat}

theorem alloc_some (halloc : allocator.alloc needSize = some (locs, allocator')) :
    locs.length = needSize ∧
      (locs : Multiset Nat) + allocator'.available = allocator.available := by
  rw [alloc] at halloc
  split_ifs at halloc with hshort
  cases halloc
  refine ⟨List.length_take_of_le (Nat.not_lt.mp hshort), ?_⟩
  rw [← allocator.available_refill needSize, available, available, ← add_assoc,
    Multiset.coe_add, List.take_append_drop]

theorem available_free (freeIndex : List Nat) :
    (allocator.free freeIndex).available = allocator.available + freeIndex := by
  rw [free]
  split_ifs with hnil hsort
  · rw [List.length_eq_zero_iff.mp hnil]
    exact (add_zero _).symm
  · rw [available, available, ← Multiset.coe_add, add_assoc]
  · rw [available, available, ← Multiset.coe_add, add_right_comm]

/-- What is freed waits apart only if it is sorted in later. -/
def Merged (allocator : TokenToKVPoolAllocator) : Prop :=
  allocator.needSort = false → allocator.releasePages = []

theorem Merged.refill (merged : allocator.Merged) (needSize : Nat) :
    (allocator.refill needSize).Merged ∧
      ((allocator.refill needSize).freePages.length < needSize →
        (allocator.refill needSize).releasePages = []) := by
  rw [TokenToKVPoolAllocator.refill, mergeAndSortFree]
  split_ifs with hsort hrelease
  · exact ⟨fun _ => rfl, fun _ => rfl⟩
  · have hnil : allocator.releasePages = [] :=
      List.length_eq_zero_iff.mp (Nat.eq_zero_of_not_pos hrelease)
    exact ⟨fun _ => hnil, fun _ => hnil⟩
  · refine ⟨merged, fun hshort => merged ?_⟩
    exact Bool.eq_false_iff.mpr fun htrue => hsort ⟨htrue, hshort⟩

theorem Merged.alloc (merged : allocator.Merged)
    (halloc : allocator.alloc needSize = some (locs, allocator')) : allocator'.Merged := by
  rw [TokenToKVPoolAllocator.alloc] at halloc
  split_ifs at halloc
  cases halloc
  exact (merged.refill needSize).1

theorem Merged.free (merged : allocator.Merged) (freeIndex : List Nat) :
    (allocator.free freeIndex).Merged := by
  intro hsort
  rw [TokenToKVPoolAllocator.free] at hsort ⊢
  split_ifs at hsort ⊢ with hnil hneed
  · exact merged hsort
  · exact absurd (hneed.symm.trans hsort) (by decide)
  · exact merged hsort

/-- An allocation fails only if there is not enough memory. -/
theorem Merged.alloc_none (merged : allocator.Merged)
    (halloc : allocator.alloc needSize = none) : allocator.availableSize < needSize := by
  rw [TokenToKVPoolAllocator.alloc] at halloc
  split_ifs at halloc with hshort
  rw [← card_available, ← allocator.available_refill needSize, card_available, availableSize,
    (merged.refill needSize).2 hshort]
  exact hshort

end TokenToKVPoolAllocator

/-! The locations of a batch of whole blocks: `B` for each of its requests, in order. -/

variable {L S Z Kv K : Type} {B V R : Nat}

def outCacheLoc (locs : List Nat) (i : Nat) (j : Fin B) : Nat := locs.getD (i * B + j) 0

def outRow (B : Nat) (locs : List Nat) (i : Nat) : List Nat :=
  List.ofFn (outCacheLoc (B := B) locs i)

section Locations

variable {locs : List Nat}

theorem flatten_outRow (hlength : locs.length = R * B) :
    ((List.range R).map (outRow B locs)).flatten = locs := by
  have hall : List.ofFn (fun k : Fin (R * B) => locs.getD k 0) = locs := by
    apply List.ext_getElem
    · rw [List.length_ofFn, hlength]
    · intro k hk hk'
      rw [List.getElem_ofFn, List.getD_eq_getElem _ _ hk']
  conv_rhs => rw [← hall, List.ofFn_mul]
  congr 1
  apply List.ext_getElem
  · rw [List.length_map, List.length_range, List.length_ofFn]
  · intro i hi hi'
    rw [List.getElem_map, List.getElem_range, List.getElem_ofFn]
    rfl

/-- The stores of a batch, request by request and token by token. -/
def stores (R B : Nat) : List (Fin R × Fin B) := (List.finRange R).product (List.finRange B)

theorem map_stores (hlength : locs.length = R * B) :
    (stores R B).map (fun store => outCacheLoc locs store.1 store.2) = locs := by
  have hrow : ∀ i : Nat, (List.finRange B).map (outCacheLoc locs i) = outRow B locs i :=
    fun i => (List.ofFn_eq_map).symm
  conv_rhs => rw [← flatten_outRow hlength, ← List.map_coe_finRange_eq_range, List.map_map]
  rw [stores, List.product, List.map_flatMap, List.flatMap_def]
  simp only [List.map_map, Function.comp_def, hrow]

theorem mem_stores (store : Fin R × Fin B) : store ∈ stores R B :=
  List.pair_mem_product.mpr ⟨List.mem_finRange _, List.mem_finRange _⟩

end Locations

/-! Forwards by location. -/

structure LocatedDevice (L S Z Kv : Type) where
  mambaPool : MambaPool L S Z
  kvBuffer : Nat → Kv

def BatchEntry.load (kvBuffer : Nat → Kv) (entry : BatchEntry Nat) : BatchEntry Kv where
  slot := entry.slot
  prefixIndices := entry.prefixIndices.map kvBuffer

def setKvBuffer (locs : List Nat) (rows : Fin R → Fin B → Kv) (kvBuffer : Nat → Kv) : Nat → Kv :=
  storeAll (fun store : Fin R × Fin B => outCacheLoc locs store.1 store.2)
    (fun store => rows store.1 store.2) (stores R B) kvBuffer

/-- `model_runner.forward` with the rows of the prefixes in the buffer. -/
def ServedModel.locatedRunner [AddMonoid S] [AddMonoid Z] (model : ServedModel L S Z Kv B V K)
    (entries : Fin R → BatchEntry Nat) (locs : List Nat) :
    ModelRunner (LocatedDevice L S Z Kv) R B V K where
  forward device ids :=
    let loaded := fun i => (entries i).load device.kvBuffer
    let committed := fun i => device.mambaPool.state .committed (entries i).slot
    (⟨fun i => model.logits (committed i) (loaded i).prefixIndices (ids i), false⟩,
      { mambaPool := model.writeStates device.mambaPool loaded ids
        kvBuffer := setKvBuffer locs
          (fun i => model.kvRows (committed i) (loaded i).prefixIndices (ids i))
          device.kvBuffer })

/-- The buffer against the rows by value: outside `out_cache_loc` it is as before the run. -/
structure Mirrors (locs : List Nat) (kvBuffer : Nat → Kv) (device : LocatedDevice L S Z Kv)
    (device' : Device L S Z Kv R B) : Prop where
  mambaPool : device.mambaPool = device'.mambaPool
  kept : ∀ {loc}, loc ∉ locs → device.kvBuffer loc = kvBuffer loc
  rows : ∀ {i rows}, device'.outRows i = some rows →
    ∀ j, device.kvBuffer (outCacheLoc locs i j) = rows j

variable [AddMonoid S] [AddMonoid Z] (model : ServedModel L S Z Kv B V K)
  {entries : Fin R → BatchEntry Nat} {locs : List Nat}

theorem ServedModel.locatedRunner_simulates (hlength : locs.length = R * B) (hnodup : locs.Nodup)
    (hread : ∀ i, ∀ loc ∈ (entries i).prefixIndices, loc ∉ locs) (kvBuffer : Nat → Kv) :
    (model.locatedRunner entries locs).Simulates
      (model.runner fun i => (entries i).load kvBuffer) (Mirrors locs kvBuffer) := by
  have hload : ∀ {device : LocatedDevice L S Z Kv} {device' : Device L S Z Kv R B},
      Mirrors locs kvBuffer device device' →
      (fun i => (entries i).load device.kvBuffer) = fun i => (entries i).load kvBuffer := by
    intro device device' mirrors
    funext i
    refine congrArg (BatchEntry.mk _) (List.map_congr_left fun loc hloc => ?_)
    exact mirrors.kept (hread i loc hloc)
  have hmap := map_stores hlength
  constructor
  · intro device device' mirrors ids
    simp only [locatedRunner, runner, mirrors.mambaPool, fun i => congrFun (hload mirrors) i]
    rfl
  · intro device device' mirrors ids
    refine ⟨?_, ?_, ?_⟩
    · change model.writeStates device.mambaPool (fun i => (entries i).load device.kvBuffer) ids = _
      rw [hload mirrors, mirrors.mambaPool]
      rfl
    · intro loc hloc
      refine (storeAll_of_notMem _ _ _ _ ?_).trans (mirrors.kept hloc)
      rwa [hmap]
    · intro i rows hrows j
      cases hrows
      refine (storeAll_of_mem _ _ _ _ ?_ (mem_stores (i, j))).trans ?_
      · rwa [hmap]
      · simp only [mirrors.mambaPool, fun i => congrFun (hload mirrors) i]
        rfl

variable [Field K] [LinearOrder K] [ExpOps K] [TopK K] [NeZero V]

omit [AddMonoid S] [AddMonoid Z] in
theorem DllmAlgorithm.run_same {σ σ' : Type} {runner : ModelRunner σ R B V K}
    {runner' : ModelRunner σ' R B V K} {related : σ → σ' → Prop} {s : σ} {s' : σ'}
    (algorithm : DllmAlgorithm V K) (ids : Fin R → Block B V)
    (simulates : runner.Simulates runner' related) (hrelated : related s s') :
    Option.Rel (RunResult.Same related) (algorithm.run runner s ids)
      (algorithm.run runner' s' ids) := by
  cases algorithm with
  | jointThreshold alg => exact alg.run_same ids simulates hrelated
  | lowConfidence alg => exact .some (alg.run_same ids simulates hrelated)

end LladaHybrid.Serving
