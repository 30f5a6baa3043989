import LladaHybrid.Serving.ContextInvariant
import LladaHybrid.Serving.RadixCache

namespace LladaHybrid.Serving

open LladaHybrid.Library LladaHybrid.Decode

/-! No slot is lost and none is missing: with a slot for each request that may run, a step of
the event loop raises only if the KV memory is full, for any tree cache that matches whole
blocks. -/

variable {τ L S Z Kv K : Type} {B V : Nat}

/-- Every slot is free or held, and only requests of the queue hold one. -/
structure Conserved (maxRunningRequests size mambaSize : Nat)
    (s : SchedulerState τ L S Z Kv B V) : Prop where
  reqSlots : Covered (List.range size) s.pool.freeSlots (fun r => (s.reqs r).reqPoolIdx)
  mambaSlots : Covered (List.range' 1 mambaSize) s.pool.mambaPool.freeSlots
    (fun r => (s.reqs r).mambaPoolIdx)
  holders : ∀ {r slot}, (s.reqs r).mambaPoolIdx = some slot → r ∈ s.dllmWaitingQueue
  capacity : s.dllmWaitingQueue.length ≤ maxRunningRequests
  mappingSize : s.pool.mappingSize = mambaSize

variable {server : Server τ L S Z Kv B V K} {s s' : SchedulerState τ L S Z Kv B V}
  {maxRunningRequests size mambaSize : Nat}

theorem fetchWaitingReqs_ok (hok : s.fetchWaitingReqs maxRunningRequests = .ok s') :
    s' = { s with
      dllmWaitingQueue := s.dllmWaitingQueue ++
        s.waitingQueue.take (maxRunningRequests - s.dllmWaitingQueue.length)
      waitingQueue := s.waitingQueue.drop (maxRunningRequests - s.dllmWaitingQueue.length) } := by
  unfold SchedulerState.fetchWaitingReqs at hok
  dsimp only at hok
  split_ifs at hok
  cases hok
  rfl

theorem prepareBatch_queues [Zero S] [Zero Z] {adder : AdderState V Kv}
    (hok : s.prepareBatch adder = .ok s') :
    s'.nextRid = s.nextRid ∧ s'.waitingQueue = s.waitingQueue ∧
      s'.dllmWaitingQueue = s.dllmWaitingQueue ∧
      (adder.canRunList ≠ [] → s'.batch = some adder.canRunList) := by
  unfold SchedulerState.prepareBatch at hok
  split_ifs at hok with hempty
  · cases hok
    exact ⟨rfl, rfl, rfl, fun hne => absurd hempty hne⟩
  · obtain ⟨hqueues, -⟩ := allocAll_sameQueues hok
    exact ⟨hqueues.nextRid, hqueues.waitingQueue, hqueues.dllmWaitingQueue,
      fun _ => hqueues.batch⟩

theorem getNextBatch_nextRid [Zero S] [Zero Z] {budget : Budget}
    (hok : server.getNextBatchToRun budget s = .ok s') : s'.nextRid = s.nextRid := by
  obtain ⟨stashed, hstashed, hrest⟩ := Server.getNextBatchToRun_ok hok
  have hnext : stashed.nextRid = s.nextRid := (stashAll_sameQueues hstashed).1.nextRid
  rcases hrest with ⟨-, rfl⟩ | ⟨fetched, adder, hfetch, -, hprepare⟩
  · exact hnext
  · obtain ⟨hnext', -⟩ := prepareBatch_queues hprepare
    rw [fetchWaitingReqs_ok hfetch] at hnext'
    exact hnext'.trans hnext

namespace Conserved

theorem initial [Zero S] [Zero Z] (maxRunningRequests size mambaSize : Nat) (tree : τ) :
    Conserved maxRunningRequests size mambaSize
      (.initial size mambaSize tree : SchedulerState τ L S Z Kv B V) where
  reqSlots := .initial _
  mambaSlots := .initial _
  holders hslot := by cases hslot
  capacity := Nat.zero_le _
  mappingSize := rfl

theorem congr (conserved : Conserved maxRunningRequests size mambaSize s)
    (same : SameSlots s.reqs s'.reqs) (pools : SamePool s.pool s'.pool)
    (hkept : ∀ {r slot}, (s.reqs r).mambaPoolIdx = some slot → r ∈ s.dllmWaitingQueue →
      r ∈ s'.dllmWaitingQueue)
    (hcapacity : s'.dllmWaitingQueue.length ≤ maxRunningRequests) :
    Conserved maxRunningRequests size mambaSize s' where
  reqSlots := by
    rw [pools.freeSlots, funext same.reqPoolIdx]
    exact conserved.reqSlots
  mambaSlots := by
    rw [pools.mambaFree, funext same.mambaPoolIdx]
    exact conserved.mambaSlots
  holders hslot := by
    rw [same.mambaPoolIdx] at hslot
    exact hkept hslot (conserved.holders hslot)
  capacity := hcapacity
  mappingSize := pools.mappingSize.trans conserved.mappingSize

theorem congr_queue (conserved : Conserved maxRunningRequests size mambaSize s)
    (same : SameSlots s.reqs s'.reqs) (pools : SamePool s.pool s'.pool)
    (hqueue : s'.dllmWaitingQueue = s.dllmWaitingQueue) :
    Conserved maxRunningRequests size mambaSize s' :=
  conserved.congr same pools (fun _ hr => hqueue ▸ hr) (hqueue ▸ conserved.capacity)

theorem filterFinished (conserved : Conserved maxRunningRequests size mambaSize s)
    (allocated : Allocated size mambaSize s) :
    Conserved maxRunningRequests size mambaSize s.filterFinishedReqs := by
  refine conserved.congr (.refl _) (.refl _) ?_ ?_
  · intro r slot hslot hr
    exact List.mem_filter.mpr ⟨hr, by rw [allocated.finished_of_live hslot]; rfl⟩
  · exact (List.length_filter_le _ _).trans conserved.capacity

theorem stash {rid : Nat} (conserved : Conserved maxRunningRequests size mambaSize s)
    (hok : server.stashChunkedRequest s rid = .ok s') :
    Conserved maxRunningRequests size mambaSize s' := by
  obtain ⟨idx, -, rfl⟩ := Server.stashChunkedRequest_ok hok
  exact conserved.congr_queue (.update _ rfl rfl rfl) ⟨rfl, rfl, rfl, rfl⟩ rfl

theorem stashAll {rids : List Nat} (conserved : Conserved maxRunningRequests size mambaSize s)
    (hok : rids.foldlM server.stashChunkedRequest s = .ok s') :
    Conserved maxRunningRequests size mambaSize s' :=
  foldlM_invariant (Conserved maxRunningRequests size mambaSize)
    (fun _ _ _ _ hstep before => before.stash hstep) hok conserved

theorem fetch (conserved : Conserved maxRunningRequests size mambaSize s)
    (hok : s.fetchWaitingReqs maxRunningRequests = .ok s') :
    Conserved maxRunningRequests size mambaSize s' := by
  obtain rfl := fetchWaitingReqs_ok hok
  refine conserved.congr (.refl _) (.refl _) (fun _ hr => List.mem_append_left _ hr) ?_
  have hcapacity := conserved.capacity
  simp only [List.length_append, List.length_take]
  omega

theorem alloc [Zero S] [Zero Z] {rid : Nat}
    (conserved : Conserved maxRunningRequests size mambaSize s)
    (allocated : Allocated size mambaSize s) (hrid : rid ∈ s.dllmWaitingQueue)
    (hok : s.allocReq rid = .ok s') : Conserved maxRunningRequests size mambaSize s' := by
  obtain ⟨-, -, -, hqueue, -⟩ := SchedulerState.allocReq_reqs hok
  rcases allocated.allocReq_cases hok with
    ⟨hsame, hpool, -⟩ | ⟨idx, mid, restReq, restMamba, hnone, hreq, hmamba, rfl⟩
  · exact conserved.congr_queue hsame (hpool ▸ .refl _) hqueue
  · have hnone' : (s.reqs rid).reqPoolIdx = none := by
      by_contra hsome
      obtain ⟨other, hother⟩ := Option.ne_none_iff_exists'.mp hsome
      rw [allocated.mapped hother] at hnone
      cases hnone
    refine ⟨?_, ?_, ?_, conserved.capacity, conserved.mappingSize⟩
    · change Covered _ restReq (Req.reqPoolIdx ∘ Function.update s.reqs rid _)
      rw [Function.comp_update]
      exact (hreq ▸ conserved.reqSlots).take hnone'
    · change Covered _ restMamba (Req.mambaPoolIdx ∘ Function.update s.reqs rid _)
      rw [Function.comp_update]
      exact (hmamba ▸ conserved.mambaSlots).take hnone
    · intro r slot hslot
      by_cases hr : r = rid
      · exact hr ▸ hrid
      · simp only [SchedulerState.setReq, Function.update_of_ne hr] at hslot
        exact conserved.holders hslot

theorem allocAll [Zero S] [Zero Z] {rids : List Nat}
    (conserved : Conserved maxRunningRequests size mambaSize s)
    (allocated : Allocated size mambaSize s) (hrids : ∀ r ∈ rids, r ∈ s.dllmWaitingQueue)
    (hlive : ∀ r ∈ rids, (s.reqs r).finished = false)
    (hok : rids.foldlM SchedulerState.allocReq s = .ok s') :
    Conserved maxRunningRequests size mambaSize s' := by
  refine (foldlM_invariant_rest (fun rest t => Conserved maxRunningRequests size mambaSize t ∧
    Allocated size mambaSize t ∧ ∀ r ∈ rest, r ∈ t.dllmWaitingQueue ∧
      (t.reqs r).finished = false) ?_ hok
    ⟨conserved, allocated, fun r hr => ⟨hrids r hr, hlive r hr⟩⟩).1
  rintro rid rest before after ⟨conserved, allocated, hrest⟩ hstep
  obtain ⟨hrid, hlive⟩ := hrest rid List.mem_cons_self
  refine ⟨conserved.alloc allocated hrid hstep, allocated.alloc hlive hstep, ?_⟩
  intro r hr
  obtain ⟨idx, mid, hreq⟩ := SameButSlots.allocReq hstep r
  obtain ⟨-, -, -, hqueue, -⟩ := SchedulerState.allocReq_reqs hstep
  rw [hqueue, hreq]
  exact hrest r (List.mem_cons_of_mem rid hr)

theorem processReq {stops : Nat → Bool} {rid slot : Nat} {next : List (Fin V)}
    (conserved : Conserved maxRunningRequests size mambaSize s)
    (allocated : Allocated size mambaSize s) (hslot : (s.reqs rid).mambaPoolIdx = some slot)
    (hok : server.processReq stops s (rid, next) = .ok s') :
    Conserved maxRunningRequests size mambaSize s' := by
  rcases Server.processReq_cases hok with
    ⟨-, rfl⟩ | ⟨-, rfl⟩ | ⟨-, idx, mid, hidx, hmid, rfl⟩
  · exact conserved
  · exact conserved.congr_queue (.update _ rfl rfl (allocated.finished_of_live hslot).symm)
      (.refl _) rfl
  · refine ⟨?_, ?_, ?_, conserved.capacity, conserved.mappingSize⟩
    · change Covered _ (s.pool.freeSlots ++ [idx])
        (Req.reqPoolIdx ∘ Function.update s.reqs rid _)
      rw [Function.comp_update]
      exact conserved.reqSlots.give hidx
    · change Covered _ (s.pool.mambaPool.freeSlots ++ [mid])
        (Req.mambaPoolIdx ∘ Function.update s.reqs rid _)
      rw [Function.comp_update]
      exact conserved.mambaSlots.give hmid
    · intro r slot hslot
      by_cases hr : r = rid
      · subst hr
        simp [SchedulerState.setReq] at hslot
      · simp only [SchedulerState.setReq, Function.update_of_ne hr] at hslot
        exact conserved.holders hslot

theorem processAll {stops : Nat → Bool} {entries : List (Nat × List (Fin V))}
    (conserved : Conserved maxRunningRequests size mambaSize s)
    (allocated : Allocated size mambaSize s) (hnodup : (entries.map Prod.fst).Nodup)
    (live : AllLive s (entries.map Prod.fst))
    (hok : entries.foldlM (server.processReq stops) s = .ok s') :
    Conserved maxRunningRequests size mambaSize s' := by
  refine (foldlM_invariant_rest (fun rest t => Conserved maxRunningRequests size mambaSize t ∧
    Allocated size mambaSize t ∧ (rest.map Prod.fst).Nodup ∧ AllLive t (rest.map Prod.fst)) ?_
    hok ⟨conserved, allocated, hnodup, live⟩).1
  rintro ⟨rid, next⟩ rest before after ⟨conserved, allocated, hnodup, live⟩ hstep
  rw [List.map_cons, List.nodup_cons] at hnodup
  obtain ⟨slot, hslot⟩ := live rid List.mem_cons_self
  exact ⟨conserved.processReq allocated hslot hstep, allocated.processReq hslot hstep, hnodup.2,
    AllLive.processReq live hnodup.1 hstep⟩

/-! The event loop. -/

/-- The slots stay accounted for up to the allocation for the selected requests. -/
theorem selected {stashed fetched : SchedulerState τ L S Z Kv B V} {adder : AdderState V Kv}
    (conserved : Conserved server.maxRunningRequests size mambaSize s)
    (scheduled : Scheduled size mambaSize s)
    (hstashed : s.filterFinishedReqs.stagingQueue.foldlM server.stashChunkedRequest
      s.filterFinishedReqs = .ok stashed)
    (hok : (server.initNextRound stashed).fetchWaitingReqs server.maxRunningRequests =
      .ok fetched)
    (hsame : SameSlots fetched.reqs adder.reqs) :
    Conserved server.maxRunningRequests size mambaSize { fetched with
      reqs := adder.reqs
      stagingQueue := fetched.stagingQueue ++ adder.canRunList
      batch := some adder.canRunList } := by
  have hconserved := (conserved.filterFinished scheduled.allocated).stashAll hstashed
  have hround : Conserved server.maxRunningRequests size mambaSize
      (server.initNextRound stashed) :=
    hconserved.congr_queue (initNextRound_sameSlots server stashed) (.refl _) rfl
  exact (hround.fetch hok).congr_queue hsame (.refl _) rfl

theorem getNextBatch [Zero S] [Zero Z] {budget : Budget}
    (conserved : Conserved server.maxRunningRequests size mambaSize s)
    (scheduled : Scheduled size mambaSize s)
    (hok : server.getNextBatchToRun budget s = .ok s') :
    Conserved server.maxRunningRequests size mambaSize s' := by
  obtain ⟨stashed, hstashed, hrest⟩ := Server.getNextBatchToRun_ok hok
  obtain ⟨hallocated, hqueues, hlive⟩ := scheduled.stashed hstashed
  rcases hrest with ⟨-, rfl⟩ | ⟨fetched, adder, hok', hadder, hprepare⟩
  · exact (conserved.filterFinished scheduled.allocated).stashAll hstashed
  have hfetched := Scheduled.fetched hallocated hqueues hlive hok'
  obtain ⟨-, hwaiting, hselected⟩ :=
    Server.processDllmBatches_adds hfetched.queues.dllmWaiting_nodup hadder
  have hsame : SameSlots fetched.reqs adder.reqs := Selected.sameSlots_all hselected
  have hready := conserved.selected scheduled hstashed hok' hsame
  unfold SchedulerState.prepareBatch at hprepare
  split_ifs at hprepare with hempty
  · cases hprepare
    exact hready.congr_queue (.refl _) (.refl _) rfl
  · refine hready.allocAll (hfetched.allocated.congr hsame (.refl _) (fun _ _ => rfl)) hwaiting
      ?_ hprepare
    intro r hr
    exact (hsame.finished r).trans (hfetched.unfinished r (hwaiting r hr))

theorem run {rids : List Nat} {stops : Nat → Bool} {lists : List (List (Fin V))}
    {ran : SchedulerState τ L S Z Kv B V}
    (conserved : Conserved server.maxRunningRequests size mambaSize s)
    (scheduled : Scheduled size mambaSize s) (hsome : s.batch = some rids)
    (forwards : s.AfterForwards rids ran)
    (hok : (rids.zip lists).foldlM (server.processReq stops) ran = .ok s') :
    Conserved server.maxRunningRequests size mambaSize s' := by
  obtain ⟨hstaging, hlive⟩ := scheduled.batch hsome
  have hnodup : rids.Nodup := hstaging ▸ scheduled.queues.staging_nodup
  have hkeys := zip_keys_sublist rids lists
  have hafter : Conserved server.maxRunningRequests size mambaSize ran :=
    conserved.congr_queue forwards.reqs forwards.pool forwards.dllmWaitingQueue
  refine hafter.processAll (scheduled.allocated.afterForwards hlive forwards)
    (hkeys.nodup hnodup) ?_ hok
  intro r hr
  rw [forwards.reqs.mambaPoolIdx]
  exact hlive r (hkeys.subset hr)

end Conserved

/-! Batches of any lengths. -/

/-- The event loop with open what a run computes, so that the requests of a batch may extend
by other lengths than a block. -/
inductive Server.SlotStep [Zero S] [Zero Z] (server : Server τ L S Z Kv B V K) :
    SchedulerState τ L S Z Kv B V → SchedulerState τ L S Z Kv B V → Prop
  | recv {s : SchedulerState τ L S Z Kv B V} (originInputIds : List (Fin V)) :
      s.batch = none → SlotStep server s (s.recvRequest originInputIds)
  | getNextBatch {s s' : SchedulerState τ L S Z Kv B V} (budget : Budget) :
      s.batch = none → server.getNextBatchToRun budget s = .ok s' → SlotStep server s s'
  | run {s ran s' : SchedulerState τ L S Z Kv B V} {rids : List Nat}
      {lists : List (List (Fin V))} (stops : Nat → Bool) :
      s.batch = some rids → s.AfterForwards rids ran →
      (rids.zip lists).foldlM (server.processReq stops) ran = .ok s' → SlotStep server s s'
  | evict {s : SchedulerState τ L S Z Kv B V} {tree : τ} :
      server.treeCache.evicts s.tree tree → SlotStep server s { s with tree }

def Server.SlotReachable [Zero S] [Zero Z] (server : Server τ L S Z Kv B V K)
    (size mambaSize : Nat) (tree : τ) (s : SchedulerState τ L S Z Kv B V) : Prop :=
  Relation.ReflTransGen server.SlotStep (.initial size mambaSize tree) s

section Slots

variable [Zero S] [Zero Z] {tree : τ}

theorem Conserved.step (conserved : Conserved server.maxRunningRequests size mambaSize s)
    (scheduled : Scheduled size mambaSize s) (step : server.SlotStep s s') :
    Conserved server.maxRunningRequests size mambaSize s' := by
  cases step with
  | recv originInputIds _ =>
      obtain ⟨hreq, hmamba, hfinished⟩ := scheduled.queues.fresh _ le_rfl
      exact conserved.congr_queue (.update _ hreq.symm hmamba.symm hfinished.symm) (.refl _) rfl
  | getNextBatch budget _ hok => exact conserved.getNextBatch scheduled hok
  | run stops hsome forwards hok => exact conserved.run scheduled hsome forwards hok
  | evict _ => exact conserved.congr_queue (.refl _) (.refl _) rfl

theorem Scheduled.slotStep (scheduled : Scheduled size mambaSize s)
    (step : server.SlotStep s s') : Scheduled size mambaSize s' := by
  cases step with
  | recv originInputIds hnone => exact scheduled.recv hnone originInputIds
  | getNextBatch budget hnone hok => exact scheduled.getNextBatch hnone hok
  | run stops hsome forwards hok => exact scheduled.run hsome forwards hok
  | evict _ => exact scheduled.evict _

theorem Server.SlotReachable.conserved (reachable : server.SlotReachable size mambaSize tree s) :
    Scheduled size mambaSize s ∧ Conserved server.maxRunningRequests size mambaSize s := by
  induction reachable with
  | refl => exact ⟨.initial size mambaSize tree, .initial _ _ _ _⟩
  | tail _ step ih => exact ⟨ih.1.slotStep step, ih.2.step ih.1 step⟩

theorem Server.SlotReachable.slots_perm
    (reachable : server.SlotReachable size mambaSize tree s) :
    (s.pool.freeSlots ++ s.dllmWaitingQueue.filterMap (fun r => (s.reqs r).reqPoolIdx)).Perm
        (List.range size) ∧
      (s.pool.mambaPool.freeSlots ++
        s.dllmWaitingQueue.filterMap (fun r => (s.reqs r).mambaPoolIdx)).Perm
        (List.range' 1 mambaSize) := by
  obtain ⟨hscheduled, hconserved⟩ := SlotReachable.conserved reachable
  exact ⟨hconserved.reqSlots.perm hscheduled.allocated.reqSlots List.nodup_range
      hscheduled.queues.dllmWaiting_nodup
      (fun hidx => hconserved.holders (hscheduled.allocated.mapped hidx)),
    hconserved.mambaSlots.perm hscheduled.allocated.mambaSlots List.nodup_range'
      hscheduled.queues.dllmWaiting_nodup hconserved.holders⟩

theorem Server.SlotReachable.slots_free
    (reachable : server.SlotReachable size mambaSize tree s)
    (hfinished : ∀ r ∈ s.dllmWaitingQueue, (s.reqs r).finished = true) :
    s.pool.freeSlots.Perm (List.range size) ∧
      s.pool.mambaPool.freeSlots.Perm (List.range' 1 mambaSize) := by
  have hallocated := (SlotReachable.conserved reachable).1.allocated
  obtain ⟨hreq, hmamba⟩ := reachable.slots_perm
  have hnoMamba : s.dllmWaitingQueue.filterMap (fun r => (s.reqs r).mambaPoolIdx) = [] :=
    List.filterMap_eq_nil_iff.mpr (fun r hr => hallocated.released (hfinished r hr))
  have hnoReq : s.dllmWaitingQueue.filterMap (fun r => (s.reqs r).reqPoolIdx) = [] := by
    refine List.filterMap_eq_nil_iff.mpr (fun r hr => ?_)
    cases hidx : (s.reqs r).reqPoolIdx with
    | none => rfl
    | some idx => cases (hallocated.released (hfinished r hr)).symm.trans (hallocated.mapped hidx)
  rw [hnoReq, List.append_nil] at hreq
  rw [hnoMamba, List.append_nil] at hmamba
  exact ⟨hreq, hmamba⟩

/-- The free slots and those of the requests in the queue make up each pool, each slot once,
and a pool is whole again when no request is left. -/
theorem slots_conserved (reachable : server.SlotReachable size mambaSize tree s) :
    (s.pool.freeSlots ++ s.dllmWaitingQueue.filterMap (fun r => (s.reqs r).reqPoolIdx)).Perm
        (List.range size) ∧
      (s.pool.mambaPool.freeSlots ++
        s.dllmWaitingQueue.filterMap (fun r => (s.reqs r).mambaPoolIdx)).Perm
        (List.range' 1 mambaSize) ∧
      ((∀ r ∈ s.dllmWaitingQueue, (s.reqs r).finished = true) →
        s.pool.freeSlots.Perm (List.range size) ∧
          s.pool.mambaPool.freeSlots.Perm (List.range' 1 mambaSize)) :=
  ⟨reachable.slots_perm.1, reachable.slots_perm.2, reachable.slots_free⟩

end Slots

section Reachable

variable [Field K] [LinearOrder K] [ExpOps K] [TopK K] [NeZero V] [AddMonoid S] [AddMonoid Z]
  {tree : τ}

theorem Server.Reachable.slotReachable (reachable : server.Reachable size mambaSize tree s) :
    server.SlotReachable size mambaSize tree s := by
  induction reachable with
  | refl => exact .refl
  | tail _ step ih =>
      cases step with
      | recv originInputIds hnone => exact ih.tail (.recv originInputIds hnone)
      | getNextBatch budget hnone hok _ => exact ih.tail (.getNextBatch budget hnone hok)
      | run stops hsome hok =>
          obtain ⟨res, hres, hprocess⟩ := Server.runBatch_ok hok
          have hran := DllmAlgorithm.run_batchRan hres
          exact ih.tail (.run stops hsome (SchedulerState.afterRun_afterForwards hran.freeSlots)
            hprocess)
      | evict hevicts => exact ih.tail (.evict hevicts)

theorem Server.Reachable.conserved (reachable : server.Reachable size mambaSize tree s) :
    Conserved server.maxRunningRequests size mambaSize s :=
  (SlotReachable.conserved reachable.slotReachable).2

end Reachable

/-! Nothing raises. -/

/-- Every match of the cache ends at the end of a block. -/
structure TreeCache.MatchesBlocks (cache : TreeCache τ V Kv) (B : Nat) (kept : τ → Prop) :
    Prop where
  keeps : cache.Keeps kept
  whole : ∀ {tree} key, kept tree → B ∣ (cache.matchPrefix tree key).length

theorem chunkCache_matchesBlocks (B V : Nat) (Kv : Type) :
    (chunkCache V Kv).MatchesBlocks B (fun _ => True) where
  keeps := ⟨fun _ _ => trivial, fun _ _ => trivial, fun _ _ => trivial⟩
  whole _ _ := dvd_zero B

theorem radixCache_matchesBlocks (B V : Nat) (Kv : Type) :
    (radixCache B V Kv).MatchesBlocks B (WholePages B) where
  keeps := radixCache_keeps B
  whole key whole := whole.dvd_length_matchPrefix key

theorem stashAll_exists {rids : List Nat} (hlive : ∀ r ∈ rids, (s.reqs r).reqPoolIdx ≠ none) :
    ∃ s', rids.foldlM server.stashChunkedRequest s = .ok s' := by
  refine foldlM_exists_ok_rest (fun rest t => ∀ r ∈ rest, (t.reqs r).reqPoolIdx ≠ none) ?_ hlive
  intro rid rest t hrest
  obtain ⟨idx, hidx⟩ := Option.ne_none_iff_exists'.mp (hrest rid List.mem_cons_self)
  have hok : ∃ t', server.stashChunkedRequest t rid = .ok t' := by
    unfold Server.stashChunkedRequest
    rw [hidx]
    exact ⟨_, rfl⟩
  obtain ⟨t', hok⟩ := hok
  refine ⟨t', hok, fun r hr => ?_⟩
  rw [(stash_sameQueues hok).2.reqPoolIdx]
  exact hrest r (List.mem_cons_of_mem rid hr)

theorem Queues.fetch_exists (queues : Queues s) (maxRunningRequests : Nat) :
    ∃ s', s.fetchWaitingReqs maxRunningRequests = .ok s' := by
  unfold SchedulerState.fetchWaitingReqs
  refine ⟨_, if_neg ?_⟩
  rintro ⟨rid, htake, hmem⟩
  exact queues.waiting_disjoint (List.mem_of_mem_take htake) hmem

section Selection

variable {kept : τ → Prop} {tree : τ}

theorem initNextRoundInputWith_exists (blocks : server.treeCache.MatchesBlocks B kept)
    (htree : kept tree) (req : Req V Kv) :
    ∃ req', req.initNextRoundInputWith server.treeCache tree B server.maskId = .ok req' :=
  ⟨_, if_neg (not_not_intro (Nat.mod_eq_zero_of_dvd (blocks.whole _ htree)))⟩

theorem processDllmIncomingReqs_exists (blocks : server.treeCache.MatchesBlocks B kept)
    (htree : kept tree) (budget : Budget) (rids : List Nat) (adder : AdderState V Kv) :
    ∃ result, server.processDllmIncomingReqs budget tree rids adder = .ok result := by
  induction rids generalizing adder with
  | nil => exact ⟨adder, rfl⟩
  | cons rid rest ih =>
      obtain ⟨req, hreq⟩ := initNextRoundInputWith_exists blocks htree (adder.reqs rid)
      unfold Server.processDllmIncomingReqs
      rw [hreq]
      dsimp only
      split_ifs
      · exact ⟨_, rfl⟩
      · exact ih _
      · exact ⟨_, rfl⟩
      · exact ⟨_, rfl⟩

theorem processDllmBatches_exists (blocks : server.treeCache.MatchesBlocks B kept)
    (htree : kept s.tree) (budget : Budget) :
    ∃ adder, server.processDllmBatches budget s = .ok adder := by
  have hphase : ∀ batch staging incoming adder, ∃ result,
      server.processBatchByPhase budget s.tree batch staging incoming adder = .ok result := by
    intro batch staging incoming adder
    unfold Server.processBatchByPhase
    dsimp only
    split_ifs
    · exact processDllmIncomingReqs_exists blocks htree budget _ _
    · exact ⟨_, rfl⟩
  unfold Server.processDllmBatches
  dsimp only
  split_ifs
  · exact hphase _ _ _ _
  · exact hphase _ _ _ _

end Selection

theorem allocMambaIdx_exists [Zero S] [Zero Z] {pool : HybridReqToTokenPool L S Z}
    (hfree : pool.mambaPool.freeSlots ≠ []) :
    ∃ mid pool', pool.allocMambaIdx none = .ok (mid, pool') ∧
      pool'.mappingSize = pool.mappingSize := by
  obtain ⟨mid, rest, hrest⟩ := List.exists_cons_of_ne_nil hfree
  have halloc : pool.mambaPool.alloc 1 =
      some ([mid], { pool.mambaPool with freeSlots := rest }.clear [mid]) := by
    simp [MambaPool.alloc, hrest]
  unfold HybridReqToTokenPool.allocMambaIdx
  rw [halloc]
  exact ⟨_, _, rfl, rfl⟩

/-- A round whose parts succeed ends with the allocation of its tokens. -/
theorem getNextBatchToRun_of_ok [Zero S] [Zero Z] {budget : Budget} {adder : AdderState V Kv}
    {stashed fetched prepared : SchedulerState τ L S Z Kv B V}
    (hstashed : s.filterFinishedReqs.stagingQueue.foldlM server.stashChunkedRequest
      s.filterFinishedReqs = .ok stashed)
    (hfetch : (server.initNextRound stashed).fetchWaitingReqs server.maxRunningRequests =
      .ok fetched)
    (hadder : server.processDllmBatches budget fetched = .ok adder)
    (hprepare : fetched.prepareBatch adder = .ok prepared) :
    server.getNextBatchToRun budget s =
      if stashed.shouldSkipPrefill budget then .ok stashed
      else prepared.allocTokenSlots budget := by
  simp only [Server.getNextBatchToRun, hstashed, Server.getNewBatchDllm, hfetch, hadder, hprepare,
    bind, Except.bind]

theorem SchedulerState.allocTokenSlots_exists (s : SchedulerState τ L S Z Kv B V)
    (budget : Budget) :
    (∃ s', s.allocTokenSlots budget = .ok s') ∨
      (s.allocTokenSlots budget = .error .outOfMemory ∧
        ∃ numTokens, budget.allocatesTokens numTokens = false) := by
  unfold allocTokenSlots
  split_ifs with hfull
  · exact Or.inr ⟨rfl, _, hfull.2⟩
  · exact Or.inl ⟨s, rfl⟩

theorem SchedulerState.allocReq_of_ok [Zero S] [Zero Z] {rid idx mid : Nat}
    {poolReq pool : HybridReqToTokenPool L S Z}
    (hreq : s.pool.allocReqIdx (s.reqs rid).reqPoolIdx = .ok (idx, poolReq))
    (hmamba : poolReq.allocMambaIdx (s.reqs rid).mambaPoolIdx = .ok (mid, pool))
    (hrow : idx < pool.mappingSize) : ∃ s', s.allocReq rid = .ok s' := by
  unfold allocReq
  rw [hreq]
  change ∃ s', (poolReq.allocMambaIdx _ >>= _) = .ok s'
  rw [hmamba]
  change ∃ s', (pool.setMambaIndex idx mid >>= _) = .ok s'
  rw [HybridReqToTokenPool.setMambaIndex, if_pos hrow]
  exact ⟨_, rfl⟩

theorem Conserved.allocReq_exists [Zero S] [Zero Z] {rid : Nat}
    (conserved : Conserved maxRunningRequests size mambaSize s)
    (allocated : Allocated size mambaSize s) (hnodup : s.dllmWaitingQueue.Nodup)
    (hsize : maxRunningRequests ≤ size) (hmapping : size ≤ mambaSize)
    (hrid : rid ∈ s.dllmWaitingQueue) : ∃ s', s.allocReq rid = .ok s' := by
  have hcapacity := conserved.capacity
  cases hidx : (s.reqs rid).reqPoolIdx with
  | some idx =>
      have hreq : s.pool.allocReqIdx (s.reqs rid).reqPoolIdx = .ok (idx, s.pool) := by
        simp only [HybridReqToTokenPool.allocReqIdx, hidx]
      have hmamba : s.pool.allocMambaIdx (s.reqs rid).mambaPoolIdx =
          .ok (s.pool.reqIndexToMambaIndex idx, s.pool) := by
        simp only [HybridReqToTokenPool.allocMambaIdx, allocated.mapped hidx]
      have hrow : idx < size := List.mem_range.mp (allocated.reqSlots.held_mem hidx)
      exact SchedulerState.allocReq_of_ok hreq hmamba
        (conserved.mappingSize ▸ hrow.trans_le hmapping)
  | none =>
      have hmid := allocated.both hidx
      have hfree : s.pool.freeSlots ≠ [] := by
        refine conserved.reqSlots.free_ne_nil allocated.reqSlots List.nodup_range hnodup ?_ ?_ hrid
          hidx
        · intro r idx hr
          exact conserved.holders (allocated.mapped hr)
        · rw [List.length_range]
          omega
      have hfreeMamba : s.pool.mambaPool.freeSlots ≠ [] := by
        refine conserved.mambaSlots.free_ne_nil allocated.mambaSlots List.nodup_range' hnodup
          conserved.holders ?_ hrid hmid
        rw [List.length_range']
        omega
      obtain ⟨idx, restReq, hrest⟩ := List.exists_cons_of_ne_nil hfree
      have hreq : s.pool.allocReqIdx (s.reqs rid).reqPoolIdx =
          .ok (idx, { s.pool with freeSlots := restReq }) := by
        simp only [HybridReqToTokenPool.allocReqIdx, hidx, hrest]
      obtain ⟨mid, pool, hmamba, hrows⟩ := allocMambaIdx_exists
        (show (HybridReqToTokenPool.mambaPool { s.pool with freeSlots := restReq }).freeSlots ≠ []
          from hfreeMamba)
      have hrow : idx < size := by
        refine List.mem_range.mp (allocated.reqSlots.free_subset idx ?_)
        rw [hrest]
        exact List.mem_cons_self
      refine SchedulerState.allocReq_of_ok hreq (by rwa [hmid]) ?_
      rw [hrows]
      exact conserved.mappingSize ▸ hrow.trans_le hmapping

theorem Conserved.allocAll_exists [Zero S] [Zero Z] {rids : List Nat}
    (conserved : Conserved maxRunningRequests size mambaSize s)
    (allocated : Allocated size mambaSize s) (hnodup : s.dllmWaitingQueue.Nodup)
    (hsize : maxRunningRequests ≤ size) (hmapping : size ≤ mambaSize)
    (hrids : ∀ r ∈ rids, r ∈ s.dllmWaitingQueue)
    (hlive : ∀ r ∈ rids, (s.reqs r).finished = false) :
    ∃ s', rids.foldlM SchedulerState.allocReq s = .ok s' := by
  refine foldlM_exists_ok_rest (fun rest t => Conserved maxRunningRequests size mambaSize t ∧
    Allocated size mambaSize t ∧ t.dllmWaitingQueue.Nodup ∧
      ∀ r ∈ rest, r ∈ t.dllmWaitingQueue ∧ (t.reqs r).finished = false) ?_
    ⟨conserved, allocated, hnodup, fun r hr => ⟨hrids r hr, hlive r hr⟩⟩
  rintro rid rest t ⟨conserved, allocated, hnodup, hrest⟩
  obtain ⟨hrid, hlive⟩ := hrest rid List.mem_cons_self
  obtain ⟨t', hok⟩ := conserved.allocReq_exists allocated hnodup hsize hmapping hrid
  obtain ⟨-, -, -, hqueue, -⟩ := SchedulerState.allocReq_reqs hok
  refine ⟨t', hok, conserved.alloc allocated hrid hok, allocated.alloc hlive hok, hqueue ▸ hnodup,
    ?_⟩
  intro r hr
  obtain ⟨idx, mid, hreq⟩ := SameButSlots.allocReq hok r
  rw [hqueue, hreq]
  exact hrest r (List.mem_cons_of_mem rid hr)

theorem processReq_exists (allocated : Allocated size mambaSize s) {rid slot : Nat}
    (hslot : (s.reqs rid).mambaPoolIdx = some slot) (stops : Nat → Bool)
    (next : List (Fin V)) : ∃ s', server.processReq stops s (rid, next) = .ok s' := by
  obtain ⟨idx, hidx, -⟩ := allocated.reqPoolIdx_of_mamba hslot
  unfold Server.processReq
  dsimp only
  split_ifs
  · exact ⟨_, rfl⟩
  · simp only [Server.releaseKvCache, SchedulerState.setReq, Function.update_self,
      Req.appendTokens, hidx, hslot]
    exact ⟨_, rfl⟩
  · exact ⟨_, rfl⟩

/-- A request that waits for its promotion has its slots. -/
def liveStages (Kv : Type) (B V : Nat) : Stages Kv B V where
  idle _ _ := True
  ready _ _ := True
  ran req _ := req.reqPoolIdx ≠ none

theorem liveStages_kept (cache : TreeCache τ V Kv) (maskId : Fin V) :
    (liveStages Kv B V).Kept cache maskId where
  new _ := trivial
  promoted _ _ := trivial
  selected {_ _ _ _ added} _ _ _ := by cases added <;> trivial
  idle_slots _ _ _ := trivial
  ready_slots _ _ _ := trivial

/-- Whether the decoder returns on blocks of `B` tokens. -/
def DllmAlgorithm.Returns (B : Nat) : DllmAlgorithm V K → Prop
  | .jointThreshold alg => 0 < B + alg.maxPostEditSteps
  | .lowConfidence _ => True

section Run

variable [Field K] [LinearOrder K] [ExpOps K] [TopK K] [NeZero V] [AddMonoid S] [AddMonoid Z]
  {tree : τ} {kept : τ → Prop}

theorem Server.Reachable.liveStages (reachable : server.Reachable size mambaSize tree s) :
    Staged (liveStages Kv B V) s := by
  have hkept := liveStages_kept (B := B) server.treeCache server.maskId
  induction reachable with
  | refl => exact .initial hkept
  | tail before step ih =>
      have hsound := Reachable.sound before
      cases step with
      | recv originInputIds hnone => exact ih.recv hkept hsound.toScheduled hnone originInputIds
      | getNextBatch budget hnone hok hwhole =>
          exact ih.getNextBatch hkept hsound.toScheduled hnone hok hwhole
      | run stops hsome hok =>
          obtain ⟨res, -, hprocess⟩ := Server.runBatch_ok hok
          refine ih.run hsound.toScheduled hsome hprocess ?_
          intro r hr _
          obtain ⟨slot, hslot⟩ := (hsound.batch hsome).2 r hr
          obtain ⟨idx, hidx, -⟩ := hsound.allocated.reqPoolIdx_of_mamba hslot
          change (SchedulerState.reqs (SchedulerState.afterRun _ _ _) r).reqPoolIdx ≠ none
          rw [(SchedulerState.afterRun_sameSlots _ _ res).reqPoolIdx, hidx]
          exact Option.some_ne_none idx
      | evict _ => exact ih.evict _

theorem DllmAlgorithm.run_exists {σ : Type} {R : Nat} {algorithm : DllmAlgorithm V K}
    (returns : algorithm.Returns B) (model : ModelRunner σ R B V K) (runner : σ)
    (ids : Fin R → Block B V) : ∃ res, algorithm.run model runner ids = some res := by
  cases algorithm with
  | jointThreshold alg =>
      exact Option.isSome_iff_exists.mp
        ((alg.run_isSome_iff model runner ids).mpr (Or.inr returns))
  | lowConfidence alg => exact ⟨_, rfl⟩

theorem Server.Reachable.stash_exists (reachable : server.Reachable size mambaSize tree s)
    (hnone : s.batch = none) :
    ∃ stashed, s.filterFinishedReqs.stagingQueue.foldlM server.stashChunkedRequest
      s.filterFinishedReqs = .ok stashed := by
  refine stashAll_exists fun r hr => ?_
  obtain ⟨hstaging, hunfinished⟩ := List.mem_filter.mp hr
  exact (Reachable.liveStages reachable).ran hnone hstaging (by simpa using hunfinished)

theorem Server.Reachable.getNextBatch_exists (blocks : server.treeCache.MatchesBlocks B kept)
    (htree : kept tree) (hsize : server.maxRunningRequests ≤ size) (hmapping : size ≤ mambaSize)
    (reachable : server.Reachable size mambaSize tree s) (hnone : s.batch = none)
    (budget : Budget) :
    (∃ s', server.getNextBatchToRun budget s = .ok s') ∨
      (server.getNextBatchToRun budget s = .error .outOfMemory ∧
        ∃ numTokens, budget.allocatesTokens numTokens = false) := by
  have hsound := Reachable.sound reachable
  have hconserved := Reachable.conserved reachable
  obtain ⟨stashed, hstashed⟩ := reachable.stash_exists hnone
  obtain ⟨hallocated, hqueues, hlive⟩ := hsound.toScheduled.stashed hstashed
  have hkeptTree : kept s.tree := blocks.keeps.reachable htree reachable
  have hkeptStashed : kept stashed.tree :=
    blocks.keeps.stashAll (show kept s.filterFinishedReqs.tree from hkeptTree) hstashed
  have hround : Queues (server.initNextRound stashed) :=
    hqueues.restage (initNextRound_sameSlots server stashed) rfl rfl rfl List.nodup_nil
      (List.forall_mem_nil _)
  obtain ⟨fetched, hfetch⟩ := hround.fetch_exists server.maxRunningRequests
  have hfetched := Scheduled.fetched hallocated hqueues hlive hfetch
  have hkeptFetched : kept fetched.tree := by
    rw [fetchWaitingReqs_ok hfetch]
    exact hkeptStashed
  obtain ⟨adder, hadder⟩ := processDllmBatches_exists blocks hkeptFetched budget
  obtain ⟨-, hwaiting, hselected⟩ :=
    Server.processDllmBatches_adds hfetched.queues.dllmWaiting_nodup hadder
  have hsame : SameSlots fetched.reqs adder.reqs := Selected.sameSlots_all hselected
  obtain ⟨prepared, hprepare⟩ : ∃ s', fetched.prepareBatch adder = .ok s' := by
    unfold SchedulerState.prepareBatch
    split_ifs with hempty
    · exact ⟨_, rfl⟩
    · refine (hconserved.selected hsound.toScheduled hstashed hfetch hsame).allocAll_exists
        (hfetched.allocated.congr hsame (.refl _) (fun _ _ => rfl))
        hfetched.queues.dllmWaiting_nodup hsize hmapping hwaiting ?_
      intro r hr
      exact (hsame.finished r).trans (hfetched.unfinished r (hwaiting r hr))
  rw [getNextBatchToRun_of_ok hstashed hfetch hadder hprepare]
  split_ifs
  · exact Or.inl ⟨_, rfl⟩
  · exact prepared.allocTokenSlots_exists budget

theorem Server.Reachable.afterRun_live {rids : List Nat}
    (reachable : server.Reachable size mambaSize tree s) (hsome : s.batch = some rids)
    {res : RunResult (Device L S Z Kv rids.length B) rids.length B V K}
    (hres : server.algorithm.run (server.model.runner (s.batchEntries rids))
      ⟨s.pool.mambaPool, fun _ => none⟩ (server.inputIds s rids) = some res) :
    Allocated size mambaSize (s.afterRun rids res) ∧
      ((rids.zip res.nextTokenIdsList).map Prod.fst).Nodup ∧
      AllLive (s.afterRun rids res) ((rids.zip res.nextTokenIdsList).map Prod.fst) := by
  have hsound := Reachable.sound reachable
  have hran := DllmAlgorithm.run_batchRan hres
  obtain ⟨hstaging, hlive⟩ := hsound.batch hsome
  have hnodup : rids.Nodup := hstaging ▸ hsound.queues.staging_nodup
  have hkeys := zip_keys_sublist rids res.nextTokenIdsList
  refine ⟨hsound.allocated.afterRun hlive hran.freeSlots, hkeys.nodup hnodup, ?_⟩
  intro r hr
  rw [(s.afterRun_sameSlots rids res).mambaPoolIdx]
  exact hlive r (hkeys.subset hr)

end Run

namespace TwoBlocks

theorem slots_conserved_running :
    ∃ s, chunkServer.Reachable 1 1 ⟨⟩ s ∧ s.dllmWaitingQueue = [0] ∧
      (s.pool.freeSlots ++ [0].filterMap (fun r => (s.reqs r).reqPoolIdx)).Perm [0] ∧
      (s.pool.mambaPool.freeSlots ++
        [0].filterMap (fun r => (s.reqs r).mambaPoolIdx)).Perm [1] := by
  have harrived : chunkServer.Reachable 1 1 ⟨⟩ (.recvRequest (.initial 1 1 ⟨⟩) [0, 0]) :=
    .tail .refl (.recv [0, 0] rfl)
  have hfirst := harrived.tail (.getNextBatch .ample rfl rfl (by decide +kernel))
  have hran := hfirst.tail (.run (fun _ => false) rfl rfl)
  obtain ⟨hreq, hmamba, -⟩ := slots_conserved (Server.Reachable.slotReachable hran)
  exact ⟨_, hran, rfl, hreq, hmamba⟩

end TwoBlocks

end LladaHybrid.Serving
