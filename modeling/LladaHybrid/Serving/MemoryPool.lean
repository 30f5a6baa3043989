import LladaHybrid.Library.Allotment
import Mathlib.Algebra.Group.Prod
import Mathlib.Algebra.Group.Pi.Basic

namespace LladaHybrid.Serving

open LladaHybrid.Library

/-! `MambaPool` and `HybridReqToTokenPool`: the slots that hold the recurrent state of the
hybrid layers, and the rows that lead from a request to its slot. -/

/-- Index `0` and index `1` of the state tensors. -/
inductive StateCopy
  | committed
  | working
  deriving DecidableEq

/-- `mamba2_layer_cache(layer_id)`: `temporal[slot, copy]` and `conv[copy][slot]`. -/
structure LayerCache (S Z : Type*) where
  temporal : Nat → StateCopy → S
  conv : StateCopy → Nat → Z

structure MambaPool (L S Z : Type*) where
  size : Nat
  freeSlots : List Nat
  mambaCache : L → LayerCache S Z

inductive ServingError
  | reqSlotsExhausted
  | mambaSlotsExhausted
  | mappingOutOfRange (idx : Nat)
  | outOfMemory
  | notAllocated
  | unexpectedPrefixLen (length : Nat)
  | redundantRequests
  | algorithmFailed

variable {L S Z : Type*}

namespace LayerCache

/-- The stores of `stash_chunked_request` for one layer. -/
def promote (cache : LayerCache S Z) (slot : Nat) : LayerCache S Z where
  temporal := Function.update cache.temporal slot
    (Function.update (cache.temporal slot) .committed (cache.temporal slot .working))
  conv := Function.update cache.conv .committed
    (Function.update (cache.conv .committed) slot (cache.conv .working slot))

def writeWorking (cache : LayerCache S Z) (slot : Nat) (state : S × Z) : LayerCache S Z where
  temporal := Function.update cache.temporal slot
    (Function.update (cache.temporal slot) .working state.1)
  conv := Function.update cache.conv .working
    (Function.update (cache.conv .working) slot state.2)

def clear [Zero S] [Zero Z] (cache : LayerCache S Z) (selectIndex : List Nat) :
    LayerCache S Z where
  temporal slot copy := if slot ∈ selectIndex then 0 else cache.temporal slot copy
  conv copy slot := if slot ∈ selectIndex then 0 else cache.conv copy slot

end LayerCache

namespace MambaPool

/-- The `(S, Z)` of a slot in every hybrid layer. -/
def state (pool : MambaPool L S Z) (copy : StateCopy) (slot : Nat) (layer : L) : S × Z :=
  ((pool.mambaCache layer).temporal slot copy, (pool.mambaCache layer).conv copy slot)

def promote (pool : MambaPool L S Z) (slot : Nat) : MambaPool L S Z :=
  { pool with mambaCache := fun layer => (pool.mambaCache layer).promote slot }

def writeWorking (pool : MambaPool L S Z) (slot : Nat) (state : L → S × Z) :
    MambaPool L S Z :=
  { pool with mambaCache := fun layer =>
      (pool.mambaCache layer).writeWorking slot (state layer) }

def free (pool : MambaPool L S Z) (freeIndex : List Nat) : MambaPool L S Z :=
  { pool with freeSlots := pool.freeSlots ++ freeIndex }

theorem state_promote (pool : MambaPool L S Z) (slot slot' : Nat) (copy : StateCopy) :
    (pool.promote slot).state copy slot' =
      if slot' = slot ∧ copy = .committed then pool.state .working slot
      else pool.state copy slot' := by
  funext layer
  by_cases hslot : slot' = slot
  · subst hslot
    cases copy <;> simp [state, promote, LayerCache.promote]
  · cases copy <;> simp [state, promote, LayerCache.promote, hslot]

theorem state_writeWorking (pool : MambaPool L S Z) (slot slot' : Nat) (copy : StateCopy)
    (value : L → S × Z) :
    (pool.writeWorking slot value).state copy slot' =
      if slot' = slot ∧ copy = .working then value else pool.state copy slot' := by
  funext layer
  by_cases hslot : slot' = slot
  · subst hslot
    cases copy <;> simp [state, writeWorking, LayerCache.writeWorking]
  · cases copy <;> simp [state, writeWorking, LayerCache.writeWorking, hslot]

variable [Zero S] [Zero Z]

def new (L S Z : Type*) [Zero S] [Zero Z] (size : Nat) : MambaPool L S Z where
  size
  freeSlots := List.range' 1 size
  mambaCache _ := ⟨fun _ _ => 0, fun _ _ => 0⟩

def clear (pool : MambaPool L S Z) (selectIndex : List Nat) : MambaPool L S Z :=
  { pool with mambaCache := fun layer => (pool.mambaCache layer).clear selectIndex }

def alloc (pool : MambaPool L S Z) (needSize : Nat) : Option (List Nat × MambaPool L S Z) :=
  if pool.freeSlots.length < needSize then
    none
  else
    let selectIndex := pool.freeSlots.take needSize
    some (selectIndex,
      { pool with freeSlots := pool.freeSlots.drop needSize }.clear selectIndex)

theorem state_clear (pool : MambaPool L S Z) (selectIndex : List Nat) (copy : StateCopy)
    (slot : Nat) :
    (pool.clear selectIndex).state copy slot =
      if slot ∈ selectIndex then 0 else pool.state copy slot := by
  funext layer
  by_cases hslot : slot ∈ selectIndex <;> simp [state, clear, LayerCache.clear, hslot]

end MambaPool

/-- `mappingSize` is the number of rows of `req_index_to_mamba_index_mapping`. -/
structure HybridReqToTokenPool (L S Z : Type*) where
  size : Nat
  freeSlots : List Nat
  mambaPool : MambaPool L S Z
  mappingSize : Nat
  reqIndexToMambaIndex : Nat → Nat

namespace HybridReqToTokenPool

def new (L S Z : Type*) [Zero S] [Zero Z] (size mambaSize : Nat) :
    HybridReqToTokenPool L S Z where
  size
  freeSlots := List.range size
  mambaPool := .new L S Z mambaSize
  mappingSize := mambaSize
  reqIndexToMambaIndex _ := 0

/-- `ReqToTokenPool.alloc` for one request. -/
def allocReqIdx (pool : HybridReqToTokenPool L S Z) (reqPoolIdx : Option Nat) :
    Except ServingError (Nat × HybridReqToTokenPool L S Z) :=
  match reqPoolIdx, pool.freeSlots with
  | some idx, _ => .ok (idx, pool)
  | none, idx :: rest => .ok (idx, { pool with freeSlots := rest })
  | none, [] => .error .reqSlotsExhausted

def allocMambaIdx [Zero S] [Zero Z] (pool : HybridReqToTokenPool L S Z)
    (mambaPoolIdx : Option Nat) : Except ServingError (Nat × HybridReqToTokenPool L S Z) :=
  match mambaPoolIdx, pool.mambaPool.alloc 1 with
  | some mid, _ => .ok (mid, pool)
  | none, some (mid :: _, mambaPool) => .ok (mid, { pool with mambaPool })
  | none, _ => .error .mambaSlotsExhausted

def mapMambaIndex (pool : HybridReqToTokenPool L S Z) (idx mid : Nat) :
    HybridReqToTokenPool L S Z :=
  { pool with reqIndexToMambaIndex := Function.update pool.reqIndexToMambaIndex idx mid }

/-- The store to `req_index_to_mamba_index_mapping`. -/
def setMambaIndex (pool : HybridReqToTokenPool L S Z) (idx mid : Nat) :
    Except ServingError (HybridReqToTokenPool L S Z) :=
  if idx < pool.mappingSize then .ok (pool.mapMambaIndex idx mid)
  else .error (.mappingOutOfRange idx)

/-- `free_mamba_cache` and then `free`, as `release_kv_cache` calls them. -/
def release (pool : HybridReqToTokenPool L S Z) (idx mid : Nat) :
    HybridReqToTokenPool L S Z :=
  { pool with
    freeSlots := pool.freeSlots ++ [idx]
    mambaPool := pool.mambaPool.free [mid] }

theorem setMambaIndex_ok {pool pool' : HybridReqToTokenPool L S Z} {idx mid : Nat}
    (hok : pool.setMambaIndex idx mid = .ok pool') : pool' = pool.mapMambaIndex idx mid := by
  unfold setMambaIndex at hok
  split_ifs at hok with hrow
  cases hok
  rfl

theorem allocReqIdx_cases {pool pool' : HybridReqToTokenPool L S Z} {reqPoolIdx : Option Nat}
    {idx : Nat} (hok : pool.allocReqIdx reqPoolIdx = .ok (idx, pool')) :
    (reqPoolIdx = some idx ∧ pool' = pool) ∨
      (reqPoolIdx = none ∧ ∃ rest, pool.freeSlots = idx :: rest ∧
        pool' = { pool with freeSlots := rest }) := by
  unfold allocReqIdx at hok
  split at hok
  · cases hok
    exact Or.inl ⟨rfl, rfl⟩
  · rename_i first rest hfree
    cases hok
    exact Or.inr ⟨rfl, rest, hfree, rfl⟩
  · cases hok

theorem allocMambaIdx_cases [Zero S] [Zero Z] {pool pool' : HybridReqToTokenPool L S Z}
    {mambaPoolIdx : Option Nat} {mid : Nat}
    (hok : pool.allocMambaIdx mambaPoolIdx = .ok (mid, pool')) :
    (mambaPoolIdx = some mid ∧ pool' = pool) ∨
      (mambaPoolIdx = none ∧ ∃ rest, pool.mambaPool.freeSlots = mid :: rest ∧
        pool' = { pool with
          mambaPool := { pool.mambaPool with freeSlots := rest }.clear [mid] }) := by
  unfold allocMambaIdx at hok
  split at hok
  · cases hok
    exact Or.inl ⟨rfl, rfl⟩
  · rename_i first others mambaPool halloc
    cases hok
    refine Or.inr ⟨rfl, ?_⟩
    unfold MambaPool.alloc at halloc
    split_ifs at halloc with hsize
    cases hfree : pool.mambaPool.freeSlots with
    | nil => exact absurd (by simp [hfree]) hsize
    | cons head rest =>
        simp only [hfree, List.take_succ_cons, List.take_zero, List.drop_succ_cons,
          List.drop_zero, Option.some.injEq, Prod.mk.injEq, List.cons.injEq] at halloc
        obtain ⟨⟨rfl, -⟩, rfl⟩ := halloc
        exact ⟨rest, rfl, rfl⟩
  · cases hok

end HybridReqToTokenPool

end LladaHybrid.Serving
