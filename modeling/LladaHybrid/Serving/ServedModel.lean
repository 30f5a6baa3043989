import LladaHybrid.Serving.Request
import LladaHybrid.Decode.CommitConsistency
import Mathlib.Algebra.BigOperators.Group.List.Basic

namespace LladaHybrid.Serving

open LladaHybrid.Decode

/-! One forward of a batch in eager mode. A request reads the committed state of its slot
and the KV rows of its prefix, and writes the working state of its slot. -/

variable {L S Z Kv : Type*} {B V R : Nat} {K : Type*}

/-- What the network computes for one block of one request. The contribution is what its
tokens add to `(S, Z)` in each hybrid layer. -/
structure ServedModel (L S Z Kv : Type*) (B V : Nat) (K : Type*) where
  logits : (L → S × Z) → List Kv → Block B V → Logits B V K
  contribution : (L → S × Z) → List Kv → Block B V → L → S × Z
  kvRows : (L → S × Z) → List Kv → Block B V → Fin B → Kv

structure BatchEntry (Kv : Type*) where
  slot : Nat
  prefixIndices : List Kv

/-- The memory a forward touches; `outRows` are the KV rows at `out_cache_loc`. -/
structure Device (L S Z Kv : Type*) (R B : Nat) where
  mambaPool : MambaPool L S Z
  outRows : Fin R → Option (Fin B → Kv)

/-- A block a request was served, with the KV rows it was served with. -/
structure ServedBlock (Kv : Type*) (B V : Nat) where
  prefixIndices : List Kv
  tokens : Block B V

/-! The stores of a forward. -/

section Writes

variable {ι : Type*} (slot : ι → Nat) (value : ι → L → S × Z) (writes : List ι)
  (pool : MambaPool L S Z)

def writeAll : MambaPool L S Z :=
  writes.foldl (fun written i => written.writeWorking (slot i) (value i)) pool

theorem writeAll_cons (first : ι) : writeAll slot value (first :: writes) pool =
    writeAll slot value writes (pool.writeWorking (slot first) (value first)) := rfl

theorem writeAll_freeSlots : (writeAll slot value writes pool).freeSlots = pool.freeSlots := by
  induction writes generalizing pool with
  | nil => rfl
  | cons first rest ih => rw [writeAll_cons, ih, MambaPool.writeWorking]

theorem writeAll_committed (slot' : Nat) :
    (writeAll slot value writes pool).state .committed slot' =
      pool.state .committed slot' := by
  induction writes generalizing pool with
  | nil => rfl
  | cons first rest ih =>
      rw [writeAll_cons, ih, MambaPool.state_writeWorking, if_neg (by simp)]

theorem writeAll_of_notMem {slot' : Nat} (hnot : slot' ∉ writes.map slot) :
    (writeAll slot value writes pool).state .working slot' = pool.state .working slot' := by
  induction writes generalizing pool with
  | nil => rfl
  | cons first rest ih =>
      rw [List.map_cons, List.mem_cons, not_or] at hnot
      rw [writeAll_cons, ih _ hnot.2, MambaPool.state_writeWorking,
        if_neg (fun hsame => hnot.1 hsame.1)]

theorem writeAll_working (hnodup : (writes.map slot).Nodup) {i : ι} (hi : i ∈ writes) :
    (writeAll slot value writes pool).state .working (slot i) = value i := by
  induction writes generalizing pool with
  | nil => cases hi
  | cons first rest ih =>
      rw [List.map_cons, List.nodup_cons] at hnodup
      rw [writeAll_cons]
      rcases List.mem_cons.mp hi with rfl | hi
      · rw [writeAll_of_notMem _ _ _ _ hnodup.1, MambaPool.state_writeWorking,
          if_pos ⟨rfl, rfl⟩]
      · exact ih _ hnodup.2 hi

end Writes

namespace ServedModel

variable [AddMonoid S] [AddMonoid Z] (model : ServedModel L S Z Kv B V K)

def workingState (pool : MambaPool L S Z) (entry : BatchEntry Kv) (ids : Block B V) :
    L → S × Z :=
  let committed := pool.state .committed entry.slot
  committed + model.contribution committed entry.prefixIndices ids

def writeStates (pool : MambaPool L S Z) (entries : Fin R → BatchEntry Kv)
    (ids : Fin R → Block B V) : MambaPool L S Z :=
  writeAll (fun i => (entries i).slot)
    (fun i => model.workingState pool (entries i) (ids i)) (List.finRange R) pool

/-- `model_runner.forward` on the entries of a batch. -/
def runner (entries : Fin R → BatchEntry Kv) : ModelRunner (Device L S Z Kv R B) R B V K where
  forward device ids :=
    let committed := fun i => device.mambaPool.state .committed (entries i).slot
    (⟨fun i => model.logits (committed i) (entries i).prefixIndices (ids i), false⟩,
      { mambaPool := model.writeStates device.mambaPool entries ids
        outRows := fun i =>
          some (model.kvRows (committed i) (entries i).prefixIndices (ids i)) })

section Stores

variable (pool : MambaPool L S Z)
  (entries : Fin R → BatchEntry Kv) (ids : Fin R → Block B V)

theorem writeStates_committed (slot : Nat) :
    (model.writeStates pool entries ids).state .committed slot = pool.state .committed slot :=
  writeAll_committed _ _ _ pool slot

theorem writeStates_working (hinj : Function.Injective (fun i => (entries i).slot))
    (i : Fin R) :
    (model.writeStates pool entries ids).state .working (entries i).slot =
      model.workingState pool (entries i) (ids i) :=
  writeAll_working (fun i => (entries i).slot) _ _ pool
    ((List.nodup_finRange R).map hinj) (List.mem_finRange i)

theorem writeStates_freeSlots :
    (model.writeStates pool entries ids).freeSlots = pool.freeSlots :=
  writeAll_freeSlots _ _ _ pool

end Stores

/-! The states and KV rows that consecutive blocks leave, from their tokens alone. -/

structure Context (L S Z Kv : Type*) where
  state : L → S × Z
  rows : List Kv

section Replay

def commitBlock (context : Context L S Z Kv) (tokens : Block B V) : Context L S Z Kv where
  state := context.state + model.contribution context.state context.rows tokens
  rows := context.rows ++ List.ofFn (model.kvRows context.state context.rows tokens)

def replay (blocks : List (Block B V)) : Context L S Z Kv :=
  blocks.foldl model.commitBlock ⟨0, []⟩

def contributionsFrom (context : Context L S Z Kv) : List (Block B V) → List (L → S × Z)
  | [] => []
  | tokens :: rest =>
      model.contribution context.state context.rows tokens ::
        contributionsFrom (model.commitBlock context tokens) rest

def contributions (blocks : List (Block B V)) : List (L → S × Z) :=
  model.contributionsFrom ⟨0, []⟩ blocks

theorem replay_concat (blocks : List (Block B V)) (tokens : Block B V) :
    model.replay (blocks ++ [tokens]) = model.commitBlock (model.replay blocks) tokens :=
  List.foldl_concat ..

theorem state_foldl_commitBlock (context : Context L S Z Kv) (blocks : List (Block B V)) :
    (blocks.foldl model.commitBlock context).state =
      context.state + (model.contributionsFrom context blocks).sum := by
  induction blocks generalizing context with
  | nil => exact (add_zero _).symm
  | cons tokens rest ih =>
      rw [List.foldl_cons, ih, contributionsFrom, List.sum_cons, ← add_assoc]
      rfl

theorem replay_state (blocks : List (Block B V)) :
    (model.replay blocks).state = (model.contributions blocks).sum := by
  rw [replay, state_foldl_commitBlock, contributions, zero_add]

/-- The state after blocks that were served with given KV rows. -/
def stateOf (served : List (ServedBlock Kv B V)) : L → S × Z :=
  served.foldl (fun state block =>
    state + model.contribution state block.prefixIndices block.tokens) 0

theorem stateOf_concat (served : List (ServedBlock Kv B V)) (block : ServedBlock Kv B V) :
    model.stateOf (served ++ [block]) = model.stateOf served +
      model.contribution (model.stateOf served) block.prefixIndices block.tokens :=
  List.foldl_concat ..

/-- Every block was served with the KV rows of the blocks before it. -/
inductive InContext : List (ServedBlock Kv B V) → Prop
  | nil : InContext []
  | concat {served : List (ServedBlock Kv B V)} {block : ServedBlock Kv B V} :
      InContext served →
      block.prefixIndices = (model.replay (served.map ServedBlock.tokens)).rows →
      InContext (served ++ [block])

variable {model} {served : List (ServedBlock Kv B V)}

theorem InContext.stateOf (context : model.InContext served) :
    model.stateOf served = (model.replay (served.map ServedBlock.tokens)).state := by
  induction context with
  | nil => rfl
  | concat _ hrows ih =>
      rw [stateOf_concat, List.map_append, List.map_singleton, replay_concat, ih, hrows]
      rfl

end Replay

end ServedModel

end LladaHybrid.Serving
