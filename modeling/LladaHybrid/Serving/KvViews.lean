import LladaHybrid.Serving.Scheduler

namespace LladaHybrid.Serving

open LladaHybrid.Library LladaHybrid.Decode

/-! The scheduler under the chunk cache does not look at the KV rows it moves. What it does
with rows of one kind it does with their images, request by request. -/

variable {L S Z Kv Kv' K : Type} {B V : Nat}

namespace Req

def mapKv (f : Kv → Kv') (req : Req V Kv) : Req V Kv' where
  originInputIds := req.originInputIds
  outputIds := req.outputIds
  fillIds := req.fillIds
  prefixIndices := req.prefixIndices.map f
  reqToToken := req.reqToToken.map f
  extendInputLen := req.extendInputLen
  reqPoolIdx := req.reqPoolIdx
  mambaPoolIdx := req.mambaPoolIdx
  dllmPhase := req.dllmPhase
  dllmBlockOffset := req.dllmBlockOffset
  finished := req.finished

variable (f : Kv → Kv') (req : Req V Kv) (maskId : Fin V)

theorem mapKv_new (originInputIds : List (Fin V)) :
    (Req.new B originInputIds).mapKv f = .new B originInputIds := rfl

theorem mapKv_initNextRoundInput :
    (req.initNextRoundInput B maskId).mapKv f = (req.mapKv f).initNextRoundInput B maskId := by
  simp only [mapKv, initNextRoundInput, initFillIdsForDllm, determineDllmPhase, List.length_map]
  rfl

theorem mapKv_addDllmStagingReq :
    (req.addDllmStagingReq B).mapKv f = (req.mapKv f).addDllmStagingReq B := by
  simp only [mapKv, addDllmStagingReq, List.length_map]

theorem mapKv_addDllmReq : (req.addDllmReq B).mapKv f = (req.mapKv f).addDllmReq B := by
  simp only [mapKv, addDllmReq, List.length_map]

theorem mapKv_appendTokens (next : List (Fin V)) (finished : Bool) :
    (req.appendTokens next finished).mapKv f = (req.mapKv f).appendTokens next finished := rfl

theorem inputBlock_mapKv : (req.mapKv f).inputBlock B maskId = req.inputBlock B maskId := by
  funext j
  simp only [inputBlock, mapKv, List.length_map]

theorem mapKv_initNextRoundInputWith (tree : PUnit) :
    (req.mapKv f).initNextRoundInputWith (chunkCache V Kv') tree B maskId =
      (req.initNextRoundInputWith (chunkCache V Kv) tree B maskId).map (mapKv f) := by
  simp only [initNextRoundInputWith, ← mapKv_initNextRoundInput, setMatched, chunkCache,
    List.length_nil, Nat.zero_mod, ne_eq, not_true_eq_false, if_false]
  rfl

end Req

/-- Functions that agree up to the images stay so when one request changes. -/
theorem mapKv_update (f : Nat → Kv → Kv') (reqs : Nat → Req V Kv) (rid : Nat) (req : Req V Kv) :
    (fun r => (Function.update reqs rid req r).mapKv (f r)) =
      Function.update (fun r => (reqs r).mapKv (f r)) rid (req.mapKv (f rid)) := by
  funext r
  by_cases hr : r = rid
  · subst hr
    simp only [Function.update_self]
  · simp only [Function.update_of_ne hr]

def ServedBlock.mapKv (f : Kv → Kv') (block : ServedBlock Kv B V) : ServedBlock Kv' B V where
  prefixIndices := block.prefixIndices.map f
  tokens := block.tokens

def AdderState.mapKv (f : Nat → Kv → Kv') (adder : AdderState V Kv) : AdderState V Kv' where
  reqs r := (adder.reqs r).mapKv (f r)
  canRunList := adder.canRunList
  remDllmTokens := adder.remDllmTokens
  remTotalTokenOffset := adder.remTotalTokenOffset

theorem AdderState.mapKv_add (f : Nat → Kv → Kv') (pageSize maxNewTokens : Nat)
    (adder : AdderState V Kv) (rid : Nat) (req : Req V Kv) :
    (adder.add pageSize maxNewTokens rid req).mapKv f =
      (adder.mapKv f).add pageSize maxNewTokens rid (req.mapKv (f rid)) :=
  congrArg (AdderState.mk · _ _ _) (mapKv_update f adder.reqs rid req)

theorem AdderState.addDllmStagingReq_mapKv (f : Nat → Kv → Kv') (pageSize : Nat)
    (budget : Budget) (rid : Nat) (adder : AdderState V Kv) :
    (adder.mapKv f).addDllmStagingReq B pageSize budget rid =
      ((adder.addDllmStagingReq B pageSize budget rid).1.mapKv f,
        (adder.addDllmStagingReq B pageSize budget rid).2) := by
  have hadd : ∀ tokens maxNewTokens,
      (adder.mapKv f).add pageSize maxNewTokens rid
        (((adder.mapKv f).reqs rid).addDllmStagingReq tokens) =
      (adder.add pageSize maxNewTokens rid
        ((adder.reqs rid).addDllmStagingReq tokens)).mapKv f := by
    intro tokens maxNewTokens
    rw [AdderState.mapKv_add, Req.mapKv_addDllmStagingReq]
    rfl
  have hremain : ∀ (adder : AdderState V Kv) available,
      (adder.mapKv f).getDllmRemainTokens B available = adder.getDllmRemainTokens B available :=
    fun _ _ => rfl
  have hlength : ((adder.mapKv f).reqs rid).extendInputLen = (adder.reqs rid).extendInputLen :=
    rfl
  simp only [addDllmStagingReq, hadd, hremain, hlength]
  split_ifs <;> rfl

namespace SchedulerState

/-- Each request with its own view of the rows. -/
def mapKv (f : Nat → Kv → Kv') (s : SchedulerState PUnit L S Z Kv B V) :
    SchedulerState PUnit L S Z Kv' B V where
  reqs r := (s.reqs r).mapKv (f r)
  nextRid := s.nextRid
  waitingQueue := s.waitingQueue
  dllmWaitingQueue := s.dllmWaitingQueue
  stagingQueue := s.stagingQueue
  pool := s.pool
  tree := s.tree
  batch := s.batch
  served r := (s.served r).map (ServedBlock.mapKv (f r))

variable (f : Nat → Kv → Kv') (s : SchedulerState PUnit L S Z Kv B V)

theorem mapKv_setReq (rid : Nat) (req : Req V Kv) :
    (s.setReq rid req).mapKv f = (s.mapKv f).setReq rid (req.mapKv (f rid)) := by
  simp only [setReq, mapKv, mapKv_update]

theorem mapKv_recvRequest (originInputIds : List (Fin V)) :
    (s.recvRequest originInputIds).mapKv f = (s.mapKv f).recvRequest originInputIds := by
  simp only [recvRequest, mapKv, mapKv_update, Req.mapKv_new]

theorem mapKv_filterFinishedReqs :
    s.filterFinishedReqs.mapKv f = (s.mapKv f).filterFinishedReqs := rfl

theorem fetchWaitingReqs_mapKv (maxRunningRequests : Nat) :
    (s.mapKv f).fetchWaitingReqs maxRunningRequests =
      (s.fetchWaitingReqs maxRunningRequests).map (mapKv f) := by
  rw [fetchWaitingReqs, fetchWaitingReqs]
  change (if ∃ rid ∈ s.waitingQueue.take (maxRunningRequests - s.dllmWaitingQueue.length),
    rid ∈ s.dllmWaitingQueue then _ else _) = _
  split_ifs <;> rfl

theorem allocReq_mapKv [Zero S] [Zero Z] (rid : Nat) :
    (s.mapKv f).allocReq rid = (s.allocReq rid).map (mapKv f) := by
  have hidx : ((s.mapKv f).reqs rid).reqPoolIdx = (s.reqs rid).reqPoolIdx := rfl
  have hmid : ((s.mapKv f).reqs rid).mambaPoolIdx = (s.reqs rid).mambaPoolIdx := rfl
  rw [allocReq, allocReq, hidx, hmid]
  change s.pool.allocReqIdx _ >>= _ = (s.pool.allocReqIdx _ >>= _).map _
  cases s.pool.allocReqIdx (s.reqs rid).reqPoolIdx with
  | error e => rfl
  | ok first =>
      obtain ⟨idx, pool⟩ := first
      change pool.allocMambaIdx _ >>= _ = (pool.allocMambaIdx _ >>= _).map _
      cases pool.allocMambaIdx (s.reqs rid).mambaPoolIdx with
      | error e => rfl
      | ok second =>
          obtain ⟨mid, pool⟩ := second
          change pool.setMambaIndex _ _ >>= _ = (pool.setMambaIndex _ _ >>= _).map _
          cases pool.setMambaIndex idx mid with
          | error e => rfl
          | ok pool =>
              refine congrArg Except.ok ?_
              simp only [setReq, mapKv, mapKv_update]
              rfl

theorem prepareBatch_mapKv [Zero S] [Zero Z] (adder : AdderState V Kv) :
    (s.mapKv f).prepareBatch (adder.mapKv f) = (s.prepareBatch adder).map (mapKv f) := by
  rw [prepareBatch, prepareBatch]
  change (if adder.canRunList = [] then _ else _) = _
  split_ifs
  · rfl
  · have hall : ∀ start : SchedulerState PUnit L S Z Kv B V,
        adder.canRunList.foldlM allocReq (start.mapKv f) =
          (adder.canRunList.foldlM allocReq start).map (mapKv f) :=
      foldlM_map (mapKv f) (fun s rid => s.allocReq_mapKv f rid) adder.canRunList
    exact hall { s with
      reqs := adder.reqs
      stagingQueue := s.stagingQueue ++ adder.canRunList
      batch := some adder.canRunList }

theorem allocTokenSlots_mapKv (budget : Budget) :
    (s.mapKv f).allocTokenSlots budget = (s.allocTokenSlots budget).map (mapKv f) := by
  rw [allocTokenSlots, allocTokenSlots]
  change (if s.batch.isSome ∧ budget.allocatesTokens s.extendNumTokens = false then _
    else _) = _
  split_ifs <;> rfl

end SchedulerState

theorem processDllmStagingReqs_mapKv (f : Nat → Kv → Kv') (pageSize : Nat) (budget : Budget)
    (rids : List Nat) (adder : AdderState V Kv) :
    processDllmStagingReqs B pageSize budget rids (adder.mapKv f) =
      ((processDllmStagingReqs B pageSize budget rids adder).1.mapKv f,
        (processDllmStagingReqs B pageSize budget rids adder).2) := by
  induction rids generalizing adder with
  | nil => rfl
  | cons rid rest ih =>
      simp only [processDllmStagingReqs, AdderState.addDllmStagingReq_mapKv, ih]
      split_ifs <;> rfl

/-- Two servers that differ in the network and in the rows it works on. -/
structure SameScheduling (server : Server PUnit L S Z Kv B V K)
    (server' : Server PUnit L S Z Kv' B V K) : Prop where
  treeCache : server.treeCache = chunkCache V Kv
  treeCache' : server'.treeCache = chunkCache V Kv'
  maskId : server'.maskId = server.maskId
  maxRunningRequests : server'.maxRunningRequests = server.maxRunningRequests
  pageSize : server'.pageSize = server.pageSize

namespace SameScheduling

variable {server : Server PUnit L S Z Kv B V K} {server' : Server PUnit L S Z Kv' B V K}
  (same : SameScheduling server server') (f : Nat → Kv → Kv')
  (s : SchedulerState PUnit L S Z Kv B V)

include same

theorem stashChunkedRequest (rid : Nat) :
    server'.stashChunkedRequest (s.mapKv f) rid =
      (server.stashChunkedRequest s rid).map (.mapKv f) := by
  have hidx : ((s.mapKv f).reqs rid).reqPoolIdx = (s.reqs rid).reqPoolIdx := rfl
  rw [Server.stashChunkedRequest, Server.stashChunkedRequest, hidx]
  cases (s.reqs rid).reqPoolIdx with
  | none => rfl
  | some idx =>
      refine congrArg Except.ok ?_
      simp only [same.treeCache, same.treeCache', chunkCache, SchedulerState.setReq,
        SchedulerState.mapKv, mapKv_update]
      simp only [Req.mapKv, List.map_take]

theorem initNextRound :
    server'.initNextRound (s.mapKv f) = (server.initNextRound s).mapKv f := by
  simp only [Server.initNextRound, SchedulerState.mapKv, same.maskId,
    ← Req.mapKv_initNextRoundInput, apply_ite (Req.mapKv _)]

theorem processDllmIncomingReqs (budget : Budget) (tree : PUnit) (rids : List Nat)
    (adder : AdderState V Kv) :
    server'.processDllmIncomingReqs budget tree rids (adder.mapKv f) =
      (server.processDllmIncomingReqs budget tree rids adder).map (.mapKv f) := by
  induction rids generalizing adder with
  | nil => rfl
  | cons rid rest ih =>
      have hmatched := (adder.reqs rid).mapKv_initNextRoundInputWith (B := B) (f rid)
        server.maskId tree
      have hreq : (adder.mapKv f).reqs rid = (adder.reqs rid).mapKv (f rid) := rfl
      have hlist : (adder.mapKv f).canRunList = adder.canRunList := rfl
      have hrem : (adder.mapKv f).remDllmTokens = adder.remDllmTokens := rfl
      rw [Server.processDllmIncomingReqs, Server.processDllmIncomingReqs, same.treeCache,
        same.treeCache', same.maskId, same.pageSize, hreq, hmatched, hlist, hrem]
      cases (adder.reqs rid).initNextRoundInputWith (chunkCache V Kv) tree B server.maskId with
      | error e => split_ifs <;> rfl
      | ok req =>
          have hadd : (adder.mapKv f).add server.pageSize 0 rid ((req.mapKv (f rid)).addDllmReq
                ((adder.mapKv f).truncLen B server.pageSize)) =
              (adder.add server.pageSize 0 rid
                (req.addDllmReq (adder.truncLen B server.pageSize))).mapKv f := by
            rw [AdderState.mapKv_add, Req.mapKv_addDllmReq]
            rfl
          have hkept : { adder.mapKv f with
                reqs := Function.update (adder.mapKv f).reqs rid (req.mapKv (f rid)) } =
              AdderState.mapKv f { adder with reqs := Function.update adder.reqs rid req } :=
            congrArg (AdderState.mk · _ _ _) (mapKv_update f adder.reqs rid req).symm
          split_ifs
          · rfl
          · exact (congrArg _ hadd).trans (ih _)
          · exact congrArg Except.ok hadd
          · exact congrArg Except.ok hkept

theorem processBatchByPhase (budget : Budget) (tree : PUnit) (batch : List Nat)
    (stagingPhase incomingPhase : DllmReqPhase) (adder : AdderState V Kv) :
    server'.processBatchByPhase budget tree batch stagingPhase incomingPhase (adder.mapKv f) =
      (server.processBatchByPhase budget tree batch stagingPhase incomingPhase adder).map
        (.mapKv f) := by
  rw [Server.processBatchByPhase, Server.processBatchByPhase, same.pageSize]
  change (if (processDllmStagingReqs B server.pageSize budget (batch.filter fun rid =>
    (adder.reqs rid).dllmPhase = stagingPhase) (adder.mapKv f)).2 = .continued then _ else _) = _
  simp only [processDllmStagingReqs_mapKv]
  split_ifs
  · exact same.processDllmIncomingReqs f budget tree _ _
  · rfl

theorem processDllmBatches (budget : Budget) :
    server'.processDllmBatches budget (s.mapKv f) =
      (server.processDllmBatches budget s).map (.mapKv f) := by
  rw [Server.processDllmBatches, Server.processDllmBatches, same.maxRunningRequests]
  change (if s.dllmWaitingQueue.filter (fun rid => (s.reqs rid).isDllmPrefill) ≠ [] then _
    else _) = _
  split_ifs
  · exact same.processBatchByPhase f budget s.tree _ _ _
      (.new B server.maxRunningRequests s.reqs)
  · exact same.processBatchByPhase f budget s.tree _ _ _
      (.new B server.maxRunningRequests s.reqs)

theorem getNewBatchDllm [Zero S] [Zero Z] (budget : Budget) :
    server'.getNewBatchDllm budget (s.mapKv f) =
      (server.getNewBatchDllm budget s).map (.mapKv f) := by
  rw [Server.getNewBatchDllm, Server.getNewBatchDllm, same.initNextRound,
    SchedulerState.fetchWaitingReqs_mapKv, same.maxRunningRequests]
  change (if s.shouldSkipPrefill budget then _ else _) = _
  split_ifs
  · rfl
  cases (server.initNextRound s).fetchWaitingReqs server.maxRunningRequests with
  | error e => rfl
  | ok fetched =>
      have hadder := same.processDllmBatches f fetched budget
      change server'.processDllmBatches budget (fetched.mapKv f) >>= _ =
        (server.processDllmBatches budget fetched >>= _).map _
      rw [hadder]
      cases server.processDllmBatches budget fetched with
      | error e => rfl
      | ok adder =>
          have hprepare := fetched.prepareBatch_mapKv f adder
          change (fetched.mapKv f).prepareBatch (adder.mapKv f) >>= _ =
            (fetched.prepareBatch adder >>= _).map _
          rw [hprepare]
          cases fetched.prepareBatch adder with
          | error e => rfl
          | ok prepared => exact prepared.allocTokenSlots_mapKv f budget

theorem getNextBatchToRun [Zero S] [Zero Z] (budget : Budget) :
    server'.getNextBatchToRun budget (s.mapKv f) =
      (server.getNextBatchToRun budget s).map (.mapKv f) := by
  have hstash : ∀ (rids : List Nat) (start : SchedulerState PUnit L S Z Kv B V),
      rids.foldlM server'.stashChunkedRequest (start.mapKv f) =
        (rids.foldlM server.stashChunkedRequest start).map (.mapKv f) :=
    foldlM_map (SchedulerState.mapKv f) (fun s rid => same.stashChunkedRequest f s rid)
  rw [Server.getNextBatchToRun, Server.getNextBatchToRun,
    ← SchedulerState.mapKv_filterFinishedReqs]
  change s.filterFinishedReqs.stagingQueue.foldlM server'.stashChunkedRequest
      (s.filterFinishedReqs.mapKv f) >>= _ = _
  rw [hstash]
  cases s.filterFinishedReqs.stagingQueue.foldlM server.stashChunkedRequest
    s.filterFinishedReqs with
  | error e => rfl
  | ok stashed => exact same.getNewBatchDllm f stashed budget

theorem releaseKvCache (rid : Nat) :
    server'.releaseKvCache (s.mapKv f) rid = (server.releaseKvCache s rid).map (.mapKv f) := by
  have hidx : ((s.mapKv f).reqs rid).reqPoolIdx = (s.reqs rid).reqPoolIdx := rfl
  have hmid : ((s.mapKv f).reqs rid).mambaPoolIdx = (s.reqs rid).mambaPoolIdx := rfl
  rw [Server.releaseKvCache, Server.releaseKvCache, hidx, hmid]
  cases (s.reqs rid).reqPoolIdx with
  | none => rfl
  | some idx =>
      cases (s.reqs rid).mambaPoolIdx with
      | none => rfl
      | some mid =>
          refine congrArg Except.ok ?_
          simp only [same.treeCache, same.treeCache', chunkCache, SchedulerState.setReq,
            SchedulerState.mapKv, mapKv_update]
          rfl

theorem processReq (stops : Nat → Bool) (entry : Nat × List (Fin V)) :
    server'.processReq stops (s.mapKv f) entry =
      (server.processReq stops s entry).map (.mapKv f) := by
  have hset := s.mapKv_setReq f entry.1 ((s.reqs entry.1).appendTokens entry.2 (stops entry.1))
  rw [Req.mapKv_appendTokens] at hset
  rw [Server.processReq, Server.processReq]
  split_ifs
  · rfl
  · exact (congrArg (server'.releaseKvCache · entry.1) hset.symm).trans
      (same.releaseKvCache f _ entry.1)
  · exact congrArg Except.ok hset.symm

theorem processAll (stops : Nat → Bool) (entries : List (Nat × List (Fin V))) :
    entries.foldlM (server'.processReq stops) (s.mapKv f) =
      (entries.foldlM (server.processReq stops) s).map (.mapKv f) :=
  foldlM_map (SchedulerState.mapKv f) (fun s entry => same.processReq f s stops entry) entries s

end SameScheduling

end LladaHybrid.Serving
