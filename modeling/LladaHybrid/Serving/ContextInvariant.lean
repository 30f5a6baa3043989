import LladaHybrid.Serving.BlockProgress
import LladaHybrid.Serving.RequestStages
import LladaHybrid.Serving.ServingInvariant

namespace LladaHybrid.Serving

open LladaHybrid.Library LladaHybrid.Decode

/-! The scheduler under the chunk cache, in eager mode: every request is served its tokens
block by block, each block in the context of the ones before it. -/

variable {L S Z Kv K : Type} {B V : Nat} [AddMonoid S] [AddMonoid Z]

def chunkStages (model : ServedModel L S Z Kv B V K) (maskId : Fin V) : Stages Kv B V where
  idle := Idle model maskId
  ready := Ready model maskId
  ran := Ran model maskId

theorem chunkStages_kept (model : ServedModel L S Z Kv B V K) (maskId : Fin V) :
    (chunkStages model maskId).Kept (chunkCache V Kv) maskId where
  new := .new model maskId
  promoted _ ran := ran.initNextRoundInput
  selected idle selected hwhole := idle.selected selected hwhole
  idle_slots _ _ idle := ⟨idle.tracks, idle.prefixIndices, idle.staging, idle.incoming⟩
  ready_slots _ _ ready := ⟨ready.tracks, ready.prefixIndices, ready.staging, ready.fillIds⟩

variable {server : Server PUnit L S Z Kv B V K} {s s' : SchedulerState PUnit L S Z Kv B V}
  {size mambaSize : Nat}

theorem Holds.afterRun_reqs {model : ServedModel L S Z Kv B V K} {rids : List Nat}
    {res : RunResult (Device L S Z Kv rids.length B) rids.length B V K}
    (holds : Holds model [] s) (allocated : Allocated size mambaSize s) (live : AllLive s rids)
    (ran : BatchRan model s.pool.mambaPool (s.batchEntries rids) res) {r : Nat}
    (hr : r ∈ rids) :
    (s.afterRun rids res).reqs r = { s.reqs r with
      reqToToken := (s.reqs r).prefixIndices ++
        List.ofFn (model.kvRows (model.stateOf (s.served r)) (s.reqs r).prefixIndices
          (res.inputIds ⟨rids.idxOf r, List.idxOf_lt_length_of_mem hr⟩)) } := by
  obtain ⟨slot, hslot⟩ := live r hr
  have hget := exists_get_idxOf hr
  have hrows := ran.rows ⟨rids.idxOf r, List.idxOf_lt_length_of_mem hr⟩
  rw [allocated.batchEntries_slot (by rw [hget, hslot]),
    holds.promoted hslot List.not_mem_nil] at hrows
  simp only [SchedulerState.batchEntries, hget] at hrows
  simp only [SchedulerState.afterRun, dif_pos hr, hrows, Option.map_some, Option.getD_some]

variable [Field K] [LinearOrder K] [ExpOps K] [TopK K] [NeZero V]

omit [AddMonoid S] [AddMonoid Z] in
theorem DllmAlgorithm.run_fillsMasks {σ : Type} {R : Nat} {algorithm : DllmAlgorithm V K}
    {model : ModelRunner σ R B V K} {runner : σ} {ids : Fin R → Block B V}
    {res : RunResult σ R B V K} (hres : algorithm.run model runner ids = some res) :
    FillsMasks algorithm.maskId ids res := by
  cases algorithm with
  | jointThreshold alg => exact JointThreshold.run_fillsMasks hres
  | lowConfidence alg =>
      cases hres
      exact alg.run_fillsMasks model runner ids

theorem Staged.runBatch
    (staged : Staged (chunkStages server.model server.maskId) s)
    (sound : Sound server.model size mambaSize s) {rids : List Nat} {stops : Nat → Bool}
    (hsome : s.batch = some rids) (hok : server.runBatch stops s rids = .ok s') :
    Staged (chunkStages server.model server.maskId) s' := by
  obtain ⟨res, hres, hprocess⟩ := Server.runBatch_ok hok
  have hran := DllmAlgorithm.run_batchRan hres
  have hfills := DllmAlgorithm.run_fillsMasks hres
  have hholds := sound.holds
  rw [SchedulerState.pending_of_some hsome] at hholds
  refine staged.run sound.toScheduled hsome hprocess ?_
  intro r hr hready
  have hblock : server.inputIds s rids ⟨rids.idxOf r, List.idxOf_lt_length_of_mem hr⟩ =
      (s.reqs r).inputBlock B server.maskId := by
    rw [Server.inputIds, exists_get_idxOf hr]
  have hkept := hfills.kept ⟨rids.idxOf r, List.idxOf_lt_length_of_mem hr⟩
  have hnext := hfills.next ⟨rids.idxOf r, List.idxOf_lt_length_of_mem hr⟩
  rw [hblock] at hkept hnext
  have hserved : (s.afterRun rids res).served r = s.served r ++ [⟨(s.reqs r).prefixIndices,
      res.inputIds ⟨rids.idxOf r, List.idxOf_lt_length_of_mem hr⟩⟩] := dif_pos hr
  rw [hholds.afterRun_reqs sound.allocated (sound.batch hsome).2 hran hr, hserved]
  exact Ready.ran hready hkept hnext

theorem Server.Reachable.contexts (hcache : server.treeCache = chunkCache V Kv)
    (reachable : server.Reachable size mambaSize ⟨⟩ s) :
    Staged (chunkStages server.model server.maskId) s := by
  have hkept : (chunkStages server.model server.maskId).Kept server.treeCache server.maskId := by
    rw [hcache]
    exact chunkStages_kept server.model server.maskId
  induction reachable with
  | refl => exact .initial hkept
  | tail before step ih =>
      have hsound := Reachable.sound before
      cases step with
      | recv originInputIds hnone => exact ih.recv hkept hsound.toScheduled hnone originInputIds
      | getNextBatch budget hnone hok hwhole =>
          exact ih.getNextBatch hkept hsound.toScheduled hnone hok hwhole
      | run stops hsome hok => exact ih.runBatch hsound hsome hok
      | evict _ => exact ih.evict _

/-- Throughout the run of a batch, the committed state of each of its requests is the sum
of the contributions of the final tokens of the blocks it was served before. -/
theorem committed_eq_sum_contributions (hcache : server.treeCache = chunkCache V Kv)
    (reachable : server.Reachable size mambaSize ⟨⟩ s) {rids : List Nat}
    (hbatch : s.batch = some rids) (i : Fin rids.length)
    {device : Device L S Z Kv rids.length B}
    (forwards : Forwards server.model (s.batchEntries rids) ⟨s.pool.mambaPool, fun _ => none⟩
      device) :
    (s.reqs (rids.get i)).mambaPoolIdx = some (s.batchEntries rids i).slot ∧
      device.mambaPool.state .committed (s.batchEntries rids i).slot =
        (server.model.contributions
          ((s.served (rids.get i)).map ServedBlock.tokens)).sum ∧
      (s.reqs (rids.get i)).prefixIndices.length = B * (s.served (rids.get i)).length ∧
      (server.maskId ∉ (s.reqs (rids.get i)).originInputIds →
        (s.served (rids.get i)).flatMap (fun block => List.ofFn block.tokens) =
          (s.reqs (rids.get i)).tokens.take (s.reqs (rids.get i)).prefixIndices.length) := by
  have hsound := Server.Reachable.sound reachable
  have hready : Ready server.model server.maskId _ _ :=
    (Server.Reachable.contexts hcache reachable).ready hbatch (List.get_mem rids i)
  obtain ⟨slot, hslot⟩ := (hsound.batch hbatch).2 (rids.get i) (List.get_mem rids i)
  have hentry := hsound.allocated.batchEntries_slot hslot
  have hholds := hsound.holds
  rw [SchedulerState.pending_of_some hbatch] at hholds
  refine ⟨by rw [hentry, hslot], ?_, ?_, ?_⟩
  · rw [forwards.keepsCommitted.committed, hentry, ← ServedModel.replay_state,
      ← hready.tracks.inContext.stateOf]
    exact hholds.promoted hslot List.not_mem_nil
  · rw [hready.prefixIndices, ServedModel.length_rowsOf]
  · rw [hready.prefixIndices]
    exact hready.tracks.tokens

/-! A prompt of two blocks. -/

namespace TwoBlocks

/-- The KV row of a token holds its position and its id. -/
def model : ServedModel Unit Nat Nat (Nat × Fin 2) 1 2 ℝ where
  logits _ _ _ := 0
  contribution _ _ ids _ := ((ids (Fin.last 0)).val + 1, 1)
  kvRows _ rows ids i := (rows.length, ids i)

noncomputable def chunkServer : Server PUnit Unit Nat Nat (Nat × Fin 2) 1 2 ℝ where
  treeCache := chunkCache 2 (Nat × Fin 2)
  algorithm := .jointThreshold (.ofConfig (Fin.last 1) ⟨none, none, none, none⟩)
  model := model
  maxRunningRequests := 1

theorem committed_eq_sum_contributions_second :
    ∃ s, chunkServer.Reachable 1 1 ⟨⟩ s ∧ s.batch = some [0] ∧ (s.served 0).length = 1 ∧
      s.pool.mambaPool.state .committed (s.batchEntries [0] 0).slot = fun _ => (1, 1) := by
  have harrived : chunkServer.Reachable 1 1 ⟨⟩ (.recvRequest (.initial 1 1 ⟨⟩) [0, 0]) :=
    .tail .refl (.recv [0, 0] rfl)
  have hfirst := harrived.tail (.getNextBatch .ample rfl rfl (by decide +kernel))
  have hran := hfirst.tail (.run (fun _ => false) rfl rfl)
  have hsecond := hran.tail (.getNextBatch .ample rfl rfl (by decide +kernel))
  obtain ⟨-, hsum, -⟩ := committed_eq_sum_contributions rfl hsecond
    (show _ = some [0] from rfl) 0 .refl
  exact ⟨_, hsecond, rfl, rfl, hsum⟩

end TwoBlocks

end LladaHybrid.Serving
