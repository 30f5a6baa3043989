import LladaHybrid.Serving.RequestStages
import LladaHybrid.Serving.ServingInvariant
import Mathlib.Data.List.GetD

namespace LladaHybrid.Serving

open LladaHybrid.Library LladaHybrid.Decode

/-! Replays of captured graphs: `CudaGraphRunner.replay_prepare` fills the input buffers up
to a captured batch size, and the backend turns them into the state slots of its plan. -/

variable {τ L S Z Kv K : Type} {B V : Nat}

/-- The fields of `ForwardBatch` that reach the plan. -/
structure ForwardBatch where
  reqPoolIndices : List Nat
  seqLensCpu : List Nat

structure DecodeInputBuffers where
  reqPoolIndices : Nat → Nat
  seqLensCpu : Nat → Nat

namespace DecodeInputBuffers

def create (seqLenFillValue : Nat) : DecodeInputBuffers where
  reqPoolIndices _ := 0
  seqLensCpu _ := seqLenFillValue

def populateFromForwardBatch (buffers : DecodeInputBuffers) (forwardBatch : ForwardBatch)
    (rawBs bs seqLenFillValue : Nat) : DecodeInputBuffers where
  reqPoolIndices i := forwardBatch.reqPoolIndices.getD i (buffers.reqPoolIndices i)
  seqLensCpu i := forwardBatch.seqLensCpu.getD i
    (if bs ≠ rawBs then seqLenFillValue else buffers.seqLensCpu i)

end DecodeInputBuffers

/-- `capture_bs[bisect_left(capture_bs, raw_bs)]` of the sorted capture sizes; `none` where
no graph is large enough and the batch runs eagerly. -/
def replayBs (captureBs : List Nat) (rawBs : Nat) : Option Nat :=
  captureBs.find? (fun bs => rawBs ≤ bs)

theorem le_of_replayBs {captureBs : List Nat} {rawBs bs : Nat}
    (hbs : replayBs captureBs rawBs = some bs) : rawBs ≤ bs := by
  simpa using List.find?_some hbs

namespace LLaDAFastBackend

def getCudaGraphSeqLenFillValue : Nat := 1

/-- The last row of the `size + 1` rows of `temporal`. -/
def padStateSlot (pool : MambaPool L S Z) : Nat := pool.size + 1 - 1

/-- The `state_slot_indices` that `_build_cuda_graph_metadata` publishes. -/
def buildCudaGraphMetadata (pool : HybridReqToTokenPool L S Z) (bs : Nat)
    (reqPoolIndices : Nat → Nat) (numPad : Nat) (i : Fin bs) : Nat :=
  if numPad ≠ 0 ∧ bs - numPad ≤ i then padStateSlot pool.mambaPool
  else pool.reqIndexToMambaIndex (reqPoolIndices i)

def numPad (bs : Nat) (seqLensCpu : Nat → Nat) : Nat :=
  (List.range bs).countP (fun i => seqLensCpu i = getCudaGraphSeqLenFillValue)

def initForwardMetadataReplayCudaGraph (pool : HybridReqToTokenPool L S Z) (bs : Nat)
    (reqPoolIndices seqLensCpu : Nat → Nat) : Fin bs → Nat :=
  buildCudaGraphMetadata pool bs reqPoolIndices (numPad bs seqLensCpu)

theorem slots_of_numPad_zero {pool : HybridReqToTokenPool L S Z} {bs : Nat}
    {reqPoolIndices seqLensCpu : Nat → Nat}
    (hfill : ∀ i, i < bs → seqLensCpu i ≠ getCudaGraphSeqLenFillValue) (i : Fin bs) :
    initForwardMetadataReplayCudaGraph pool bs reqPoolIndices seqLensCpu i =
      pool.reqIndexToMambaIndex (reqPoolIndices i) := by
  have hzero : numPad bs seqLensCpu = 0 := by
    rw [numPad, List.countP_eq_zero]
    intro j hj
    simpa using hfill j (List.mem_range.mp hj)
  rw [initForwardMetadataReplayCudaGraph, buildCudaGraphMetadata, hzero,
    if_neg (fun hpad => hpad.1 rfl)]

end LLaDAFastBackend

def SchedulerState.forwardBatch (s : SchedulerState τ L S Z Kv B V) (rids : List Nat) :
    ForwardBatch where
  reqPoolIndices := rids.map (fun rid => (s.reqs rid).reqPoolIdx.getD 0)
  seqLensCpu := rids.map (fun rid => (s.reqs rid).fillIds.length)

/-- `replay_prepare` up to the call of the backend; for a diffusion model the fill value is
the block size. -/
def replayPrepare (buffers : DecodeInputBuffers) (s : SchedulerState τ L S Z Kv B V)
    (rids : List Nat) (bs : Nat) : DecodeInputBuffers :=
  buffers.populateFromForwardBatch (s.forwardBatch rids) rids.length bs B

section Prepare

variable {buffers : DecodeInputBuffers} {s : SchedulerState τ L S Z Kv B V} {rids : List Nat}
  {bs i : Nat}

theorem reqPoolIndices_replayPrepare_of_lt (hi : i < rids.length) :
    (replayPrepare buffers s rids bs).reqPoolIndices i = (s.reqs rids[i]).reqPoolIdx.getD 0 := by
  change List.getD _ _ _ = _
  rw [SchedulerState.forwardBatch, List.getD_eq_getElem _ _ (by rwa [List.length_map]),
    List.getElem_map]

theorem reqPoolIndices_replayPrepare_of_le (hi : rids.length ≤ i) :
    (replayPrepare buffers s rids bs).reqPoolIndices i = buffers.reqPoolIndices i :=
  List.getD_eq_default _ _ (by rwa [SchedulerState.forwardBatch, List.length_map])

theorem seqLensCpu_replayPrepare_of_lt (hi : i < rids.length) :
    (replayPrepare buffers s rids bs).seqLensCpu i = (s.reqs rids[i]).fillIds.length := by
  change List.getD _ _ _ = _
  rw [SchedulerState.forwardBatch, List.getD_eq_getElem _ _ (by rwa [List.length_map]),
    List.getElem_map]

theorem seqLensCpu_replayPrepare_of_le (hi : rids.length ≤ i) (hbs : i < bs) :
    (replayPrepare buffers s rids bs).seqLensCpu i = B := by
  have hne : bs ≠ rids.length := by omega
  refine (List.getD_eq_default _ _ ?_).trans (if_pos hne)
  rwa [SchedulerState.forwardBatch, List.length_map]

end Prepare

def replaySlots (buffers : DecodeInputBuffers) (s : SchedulerState τ L S Z Kv B V)
    (rids : List Nat) (bs : Nat) : Fin bs → Nat :=
  LLaDAFastBackend.initForwardMetadataReplayCudaGraph s.pool bs
    (replayPrepare buffers s rids bs).reqPoolIndices (replayPrepare buffers s rids bs).seqLensCpu

/-! The event loop with graphs. -/

structure GraphState (τ L S Z Kv : Type) (B V : Nat) where
  scheduler : SchedulerState τ L S Z Kv B V
  buffers : DecodeInputBuffers

/-- The buffers after the forwards of a batch, all of which prepare the same replay. -/
def GraphState.buffersAfterRun (g : GraphState τ L S Z Kv B V) (captureBs : List Nat)
    (rids : List Nat) : DecodeInputBuffers :=
  match replayBs captureBs rids.length with
  | none => g.buffers
  | some bs => replayPrepare g.buffers g.scheduler rids bs

/-- The padding entries of a graph write states too, so what a run leaves in the slots and
which tokens it returns is left open; forwards never touch the free list. A captured graph
has a block of tokens for each request, so the batches are of whole blocks. -/
inductive Server.GraphStep [Zero S] [Zero Z] (server : Server τ L S Z Kv B V K)
    (captureBs : List Nat) : GraphState τ L S Z Kv B V → GraphState τ L S Z Kv B V → Prop
  | recv {g : GraphState τ L S Z Kv B V} (originInputIds : List (Fin V)) :
      g.scheduler.batch = none →
      GraphStep server captureBs g
        { g with scheduler := g.scheduler.recvRequest originInputIds }
  | getNextBatch {g : GraphState τ L S Z Kv B V} {s' : SchedulerState τ L S Z Kv B V}
      (budget : Budget) : g.scheduler.batch = none →
      server.getNextBatchToRun budget g.scheduler = .ok s' → s'.WholeBlocks →
      GraphStep server captureBs g { g with scheduler := s' }
  | run {g : GraphState τ L S Z Kv B V} {s' : SchedulerState τ L S Z Kv B V}
      {rids : List Nat} {res : RunResult (Device L S Z Kv rids.length B) rids.length B V K}
      (stops : Nat → Bool) : g.scheduler.batch = some rids →
      res.runner.mambaPool.freeSlots = g.scheduler.pool.mambaPool.freeSlots →
      (rids.zip res.nextTokenIdsList).foldlM (server.processReq stops)
        (g.scheduler.afterRun rids res) = .ok s' →
      GraphStep server captureBs g ⟨s', g.buffersAfterRun captureBs rids⟩
  | evict {g : GraphState τ L S Z Kv B V} {tree : τ} :
      server.treeCache.evicts g.scheduler.tree tree →
      GraphStep server captureBs g { g with scheduler := { g.scheduler with tree } }

def Server.GraphReachable [Zero S] [Zero Z] (server : Server τ L S Z Kv B V K)
    (captureBs : List Nat) (size mambaSize : Nat) (tree : τ)
    (g : GraphState τ L S Z Kv B V) : Prop :=
  Relation.ReflTransGen (server.GraphStep captureBs) ⟨.initial size mambaSize tree, .create B⟩ g

/-- Whatever the eager loop reaches, the loop with graphs reaches too. -/
theorem Server.Reachable.graph [AddMonoid S] [AddMonoid Z] [Field K] [LinearOrder K] [ExpOps K]
    [TopK K] [NeZero V] {server : Server τ L S Z Kv B V K} {size mambaSize : Nat} {tree : τ}
    {s : SchedulerState τ L S Z Kv B V} (captureBs : List Nat)
    (reachable : server.Reachable size mambaSize tree s) :
    ∃ buffers, server.GraphReachable captureBs size mambaSize tree ⟨s, buffers⟩ := by
  induction reachable with
  | refl => exact ⟨_, .refl⟩
  | tail _ step ih =>
      obtain ⟨buffers, hgraph⟩ := ih
      cases step with
      | recv originInputIds hnone => exact ⟨_, hgraph.tail (.recv originInputIds hnone)⟩
      | getNextBatch budget hnone hok hwhole =>
          exact ⟨_, hgraph.tail (.getNextBatch budget hnone hok hwhole)⟩
      | run stops hsome hok =>
          obtain ⟨res, hres, hprocess⟩ := Server.runBatch_ok hok
          have hran := DllmAlgorithm.run_batchRan hres
          exact ⟨_, hgraph.tail (.run stops hsome hran.freeSlots hprocess)⟩
      | evict hevicts => exact ⟨_, hgraph.tail (.evict hevicts)⟩

end LladaHybrid.Serving
