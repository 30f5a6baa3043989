import LladaHybrid.Serving.SchedulingInvariant

namespace LladaHybrid.Serving

open LladaHybrid.Library LladaHybrid.Decode

/-! The states in the slots in every reachable state of the eager event loop, for any tree
cache. -/

variable {τ L S Z Kv K : Type} {B V : Nat} [AddMonoid S] [AddMonoid Z]
  {server : Server τ L S Z Kv B V K} {s s' : SchedulerState τ L S Z Kv B V}
  {size mambaSize : Nat} {model : ServedModel L S Z Kv B V K}

/-! The loops over a batch. -/

theorem Holds.stashAll {pending : List Nat} (holds : Holds model pending s)
    (allocated : Allocated size mambaSize s)
    (hok : pending.foldlM server.stashChunkedRequest s = .ok s') : Holds model [] s' := by
  refine (foldlM_invariant_rest (fun rest t => Holds model rest t ∧ Allocated size mambaSize t) ?_
    hok ⟨holds, allocated⟩).1
  rintro rid rest before after ⟨holds, allocated⟩ hstep
  exact ⟨holds.stash allocated hstep, allocated.stash hstep⟩

theorem Holds.allocAll {rids : List Nat} (holds : Holds model [] s)
    (allocated : Allocated size mambaSize s) (hlive : ∀ r ∈ rids, (s.reqs r).finished = false)
    (hok : rids.foldlM SchedulerState.allocReq s = .ok s') : Holds model [] s' := by
  refine (foldlM_invariant_rest (fun rest t => Holds model [] t ∧ Allocated size mambaSize t ∧
    ∀ r ∈ rest, (t.reqs r).finished = false) ?_ hok ⟨holds, allocated, hlive⟩).1
  rintro rid rest before after ⟨holds, allocated, hlive⟩ hstep
  have hrid := hlive rid List.mem_cons_self
  refine ⟨holds.alloc allocated hrid hstep, allocated.alloc hrid hstep, ?_⟩
  exact SameButSlots.unfinished (.allocReq hstep)
    (fun r hr => hlive r (List.mem_cons_of_mem rid hr))

theorem Holds.processAll {pending : List Nat} {stops : Nat → Bool}
    {entries : List (Nat × List (Fin V))} (holds : Holds model pending s)
    (allocated : Allocated size mambaSize s) (hnodup : (entries.map Prod.fst).Nodup)
    (live : AllLive s (entries.map Prod.fst))
    (hok : entries.foldlM (server.processReq stops) s = .ok s') : Holds model pending s' := by
  refine (foldlM_invariant_rest (fun rest t => Holds model pending t ∧
    Allocated size mambaSize t ∧ (rest.map Prod.fst).Nodup ∧ AllLive t (rest.map Prod.fst)) ?_ hok
    ⟨holds, allocated, hnodup, live⟩).1
  rintro ⟨rid, next⟩ rest before after ⟨holds, allocated, hnodup, live⟩ hstep
  rw [List.map_cons, List.nodup_cons] at hnodup
  obtain ⟨slot, hslot⟩ := live rid List.mem_cons_self
  exact ⟨holds.processReq allocated hslot hstep, allocated.processReq hslot hstep, hnodup.2,
    AllLive.processReq live hnodup.1 hstep⟩

/-! The event loop. -/

/-- The requests whose last block is not promoted yet. -/
def SchedulerState.pending (s : SchedulerState τ L S Z Kv B V) : List Nat :=
  if s.batch.isSome then [] else s.stagingQueue

omit [AddMonoid S] [AddMonoid Z] in
theorem SchedulerState.pending_of_none (hnone : s.batch = none) : s.pending = s.stagingQueue := by
  rw [pending, hnone]
  rfl

omit [AddMonoid S] [AddMonoid Z] in
theorem SchedulerState.pending_of_some {rids : List Nat} (hsome : s.batch = some rids) :
    s.pending = [] := by
  rw [pending, hsome]
  rfl

structure Sound (model : ServedModel L S Z Kv B V K) (size mambaSize : Nat)
    (s : SchedulerState τ L S Z Kv B V) : Prop extends Scheduled size mambaSize s where
  holds : Holds model s.pending s

namespace Sound

theorem initial (model : ServedModel L S Z Kv B V K) (size mambaSize : Nat) (tree : τ) :
    Sound model size mambaSize (.initial size mambaSize tree) :=
  ⟨.initial size mambaSize tree, .initial model size mambaSize tree⟩

theorem recv (sound : Sound model size mambaSize s) (hnone : s.batch = none)
    (originInputIds : List (Fin V)) :
    Sound model size mambaSize (s.recvRequest originInputIds) := by
  obtain ⟨hreq, hmamba, hfinished⟩ := sound.queues.fresh s.nextRid le_rfl
  exact ⟨sound.toScheduled.recv hnone originInputIds,
    sound.holds.congr (.update _ hreq.symm hmamba.symm hfinished.symm) rfl rfl⟩

theorem stashed (sound : Sound model size mambaSize s) (hnone : s.batch = none)
    (hok : s.filterFinishedReqs.stagingQueue.foldlM server.stashChunkedRequest
      s.filterFinishedReqs = .ok s') : Holds model [] s' := by
  have hholds : Holds model s.filterFinishedReqs.stagingQueue s.filterFinishedReqs := by
    have hbase := sound.holds
    rw [SchedulerState.pending_of_none hnone] at hbase
    refine (hbase.congr_pending ?_).congr (.refl _) rfl rfl
    intro r slot hslot
    rw [SchedulerState.filterFinishedReqs, List.mem_filter]
    exact and_iff_left (by rw [sound.allocated.finished_of_live hslot]; rfl)
  exact hholds.stashAll (sound.allocated.congr (.refl _) (.refl _) (fun _ _ => rfl)) hok

theorem prepared {budget : Budget} {stashed fetched : SchedulerState τ L S Z Kv B V}
    {adder : AdderState V Kv}
    (hfetched : Scheduled.Fetched size mambaSize stashed fetched server)
    (hnone : stashed.batch = none) (holds : Holds model [] stashed)
    (hadder : server.processDllmBatches budget fetched = .ok adder)
    (hok : fetched.prepareBatch adder = .ok s') : Holds model s'.pending s' := by
  obtain ⟨-, hwaiting, hselected⟩ :=
    Server.processDllmBatches_adds hfetched.queues.dllmWaiting_nodup hadder
  have hsame : SameSlots fetched.reqs adder.reqs := Selected.sameSlots_all hselected
  have hround : SameSlots stashed.reqs fetched.reqs := by
    rw [hfetched.reqs]
    exact initNextRound_sameSlots server stashed
  unfold SchedulerState.prepareBatch at hok
  split_ifs at hok with hempty
  · cases hok
    have hpending : SchedulerState.pending { fetched with reqs := adder.reqs } = [] :=
      (SchedulerState.pending_of_none (hfetched.batch.trans hnone)).trans hfetched.stagingQueue
    exact Eq.substr hpending (holds.congr (hround.trans hsame) hfetched.pool hfetched.served)
  · have hstart : Holds model [] { fetched with
        reqs := adder.reqs
        stagingQueue := fetched.stagingQueue ++ adder.canRunList
        batch := some adder.canRunList } :=
      holds.congr (hround.trans hsame) hfetched.pool hfetched.served
    have hfinished : ∀ r ∈ adder.canRunList, (adder.reqs r).finished = false := by
      intro r hr
      rw [hsame.finished]
      exact hfetched.unfinished r (hwaiting r hr)
    rw [SchedulerState.pending_of_some (allocAll_sameQueues hok).1.batch]
    exact hstart.allocAll (hfetched.allocated.congr hsame (.refl _) (fun _ _ => rfl)) hfinished
      hok

theorem getNextBatch {budget : Budget} (sound : Sound model size mambaSize s)
    (hnone : s.batch = none) (hok : server.getNextBatchToRun budget s = .ok s') :
    Sound model size mambaSize s' := by
  refine ⟨sound.toScheduled.getNextBatch hnone hok, ?_⟩
  obtain ⟨stashed, hstashed, hrest⟩ := Server.getNextBatchToRun_ok hok
  obtain ⟨hallocated, hqueues, hlive⟩ := sound.toScheduled.stashed hstashed
  have hholds := sound.stashed hnone hstashed
  have hbatch : stashed.batch = none := (stashAll_sameQueues hstashed).1.batch.trans hnone
  rcases hrest with ⟨hskip, rfl⟩ | ⟨fetched, adder, hfetched, hadder, hprepare⟩
  · rw [SchedulerState.pending_of_none hbatch, hqueues.staging_of_skip hskip]
    exact hholds
  · exact prepared (Scheduled.fetched hallocated hqueues hlive hfetched) hbatch hholds hadder
      hprepare

end Sound

section Run

variable [Field K] [LinearOrder K] [ExpOps K] [TopK K] [NeZero V] {rids : List Nat}
  {stops : Nat → Bool}

theorem Server.runBatch_ok (hok : server.runBatch stops s rids = .ok s') :
    ∃ res, server.algorithm.run (server.model.runner (s.batchEntries rids))
        ⟨s.pool.mambaPool, fun _ => none⟩ (server.inputIds s rids) = some res ∧
      (rids.zip res.nextTokenIdsList).foldlM (server.processReq stops) (s.afterRun rids res) =
        .ok s' := by
  unfold runBatch at hok
  split at hok
  · cases hok
  · rename_i res hres
    exact ⟨res, hres, hok⟩

theorem Sound.run (sound : Sound server.model size mambaSize s) (hsome : s.batch = some rids)
    (hok : server.runBatch stops s rids = .ok s') : Sound server.model size mambaSize s' := by
  obtain ⟨res, hres, hprocess⟩ := Server.runBatch_ok hok
  have hran := DllmAlgorithm.run_batchRan hres
  refine ⟨sound.toScheduled.run hsome
    (SchedulerState.afterRun_afterForwards hran.freeSlots) hprocess, ?_⟩
  obtain ⟨hstaging, hlive⟩ := sound.batch hsome
  have hnodup : rids.Nodup := hstaging ▸ sound.queues.staging_nodup
  have hholds := sound.holds
  rw [SchedulerState.pending_of_some hsome] at hholds
  have hkeys := zip_keys_sublist rids res.nextTokenIdsList
  have hliveRan : AllLive (s.afterRun rids res)
      ((rids.zip res.nextTokenIdsList).map Prod.fst) := by
    intro r hr
    rw [(s.afterRun_sameSlots rids res).mambaPoolIdx]
    exact hlive r (hkeys.subset hr)
  obtain ⟨hqueues, -⟩ := processAll_sameQueues hprocess
  rw [SchedulerState.pending_of_none hqueues.batch, hqueues.stagingQueue]
  change Holds _ s.stagingQueue _
  rw [hstaging]
  exact (hholds.afterRun sound.allocated hlive hnodup hran).processAll
    (sound.allocated.afterRun hlive hran.freeSlots) (hkeys.nodup hnodup) hliveRan hprocess

theorem Sound.step (sound : Sound server.model size mambaSize s) (step : server.Step s s') :
    Sound server.model size mambaSize s' := by
  cases step with
  | recv originInputIds hnone => exact sound.recv hnone originInputIds
  | getNextBatch budget hnone hok => exact sound.getNextBatch hnone hok
  | run stops hsome hok => exact sound.run hsome hok
  | evict _ => exact ⟨sound.toScheduled.evict _, sound.holds.congr (.refl _) rfl rfl⟩

/-- With any tree cache, the slots of all runs hold the states of the served blocks. -/
theorem Server.Reachable.sound {tree : τ} (reachable : server.Reachable size mambaSize tree s) :
    Sound server.model size mambaSize s := by
  induction reachable with
  | refl => exact .initial server.model size mambaSize tree
  | tail _ step ih => exact ih.step step

end Run

end LladaHybrid.Serving
