import LladaHybrid.Serving.ServedModel
import LladaHybrid.Library.Fold
import Mathlib.Logic.Relation

namespace LladaHybrid.Serving

open LladaHybrid.Library LladaHybrid.Decode

/-! `event_loop_normal` with the diffusion scheduler, in eager mode. What arrives, which
requests stop, how much KV memory is free and whom `add_one_req` turns down are left open. -/

variable {τ L S Z Kv K : Type} {B V : Nat}

inductive DllmAlgorithm (V : Nat) (K : Type)
  | jointThreshold (alg : JointThreshold V K)
  | lowConfidence (alg : LowConfidence V K)

def DllmAlgorithm.maskId : DllmAlgorithm V K → Fin V
  | .jointThreshold alg => alg.maskId
  | .lowConfidence alg => alg.maskId

def DllmAlgorithm.run {σ : Type} {R : Nat} [Field K] [LinearOrder K] [ExpOps K] [TopK K]
    [NeZero V] (algorithm : DllmAlgorithm V K) (model : ModelRunner σ R B V K) (runner : σ)
    (ids : Fin R → Block B V) : Option (RunResult σ R B V K) :=
  match algorithm with
  | .jointThreshold alg => alg.run model runner ids
  | .lowConfidence alg => some (alg.run model runner ids)

inductive AddReqResult
  | continued
  | noToken
  | other
  deriving DecidableEq

/-- What decides about an incoming request: whether the batch is full before it is tried,
whether `add_one_req` gets as far as the tokens of the diffusion model, and its result. -/
structure Admission where
  batchIsFull : Bool
  added : Bool
  result : AddReqResult

/-- What a round depends on besides the requests. `admission` is asked about a request when
the ones of the list are in the batch, `allocatesTokens` about the tokens of the batch. -/
structure Budget where
  batchIsFull : Bool
  availableAndEvictable : Nat → Nat
  maxNewTokens : Nat → Nat
  admission : List Nat → Nat → Admission
  allocatesTokens : Nat → Bool

/-- Room for some blocks; every request that is tried joins the batch. -/
def Budget.ample : Budget where
  batchIsFull := false
  availableAndEvictable _ := 1024
  maxNewTokens _ := 64
  admission _ _ := ⟨false, true, .continued⟩
  allocatesTokens _ := true

structure Server (τ L S Z Kv : Type) (B V : Nat) (K : Type) where
  treeCache : TreeCache τ V Kv
  algorithm : DllmAlgorithm V K
  model : ServedModel L S Z Kv B V K
  maxRunningRequests : Nat
  pageSize : Nat := 1

/-- Requests are named by their order of arrival. `batch` is the batch that is about to
run; `served` records, for the statements only, the blocks a request was served. -/
structure SchedulerState (τ L S Z Kv : Type) (B V : Nat) where
  reqs : Nat → Req V Kv
  nextRid : Nat
  waitingQueue : List Nat
  dllmWaitingQueue : List Nat
  stagingQueue : List Nat
  pool : HybridReqToTokenPool L S Z
  tree : τ
  batch : Option (List Nat)
  served : Nat → List (ServedBlock Kv B V)

/-- `PrefillAdder`, with the requests as it changes them. -/
structure AdderState (V : Nat) (Kv : Type) where
  reqs : Nat → Req V Kv
  canRunList : List Nat
  remDllmTokens : Int
  remTotalTokenOffset : Int

def ceilPagedTokens (pageSize tokens : Nat) : Nat :=
  (tokens + pageSize - 1) / pageSize * pageSize

/-- The default of `SGLANG_CLIP_MAX_NEW_TOKENS_ESTIMATION`. -/
def clipMaxNewTokens : Nat := 4096

namespace AdderState

/-- The running batch is empty, as batches of the diffusion model are never merged into it. -/
def new (B maxRunningRequests : Nat) (reqs : Nat → Req V Kv) : AdderState V Kv where
  reqs
  canRunList := []
  remDllmTokens := maxRunningRequests * B
  remTotalTokenOffset := 0

/-- The request joins `can_run_list`, and `_update_prefill_budget` counts its tokens. -/
def add (pageSize maxNewTokens : Nat) (adder : AdderState V Kv) (rid : Nat) (req : Req V Kv) :
    AdderState V Kv where
  reqs := Function.update adder.reqs rid req
  canRunList := adder.canRunList ++ [rid]
  remDllmTokens := adder.remDllmTokens - ceilPagedTokens pageSize req.extendInputLen
  remTotalTokenOffset := adder.remTotalTokenOffset +
    (ceilPagedTokens pageSize req.extendInputLen + maxNewTokens + pageSize)

/-- `_get_dllm_remain_tokens`. -/
def getDllmRemainTokens (B availableAndEvictable : Nat) (adder : AdderState V Kv) : Int :=
  let remTokens := min (min adder.remDllmTokens B)
    (availableAndEvictable - adder.remTotalTokenOffset)
  if remTokens ≤ 0 then adder.remDllmTokens else remTokens

def addDllmStagingReq (B pageSize : Nat) (budget : Budget) (rid : Nat)
    (adder : AdderState V Kv) : AdderState V Kv × AddReqResult :=
  let available := budget.availableAndEvictable rid
  let remTokens := adder.getDllmRemainTokens B available
  if remTokens ≤ 0 then
    (adder, .noToken)
  else
    let req := adder.reqs rid
    let maxNewTokens :=
      if remTokens < req.extendInputLen then 0
      else min (budget.maxNewTokens rid) clipMaxNewTokens
    let adder := adder.add pageSize maxNewTokens rid (req.addDllmStagingReq remTokens.toNat)
    (adder, if adder.getDllmRemainTokens B available ≤ 0 then .noToken else .continued)

/-- The `trunc_len` of `_add_dllm_req`. -/
def truncLen (B pageSize : Nat) (adder : AdderState V Kv) : Nat :=
  (min adder.remDllmTokens B / pageSize * pageSize).toNat

variable {pageSize maxNewTokens : Nat} {adder : AdderState V Kv} {rid r : Nat} {req : Req V Kv}

theorem reqs_add_of_ne (hne : r ≠ rid) :
    (adder.add pageSize maxNewTokens rid req).reqs r = adder.reqs r :=
  Function.update_of_ne hne _ _

theorem addDllmStagingReq_cases (B pageSize : Nat) (budget : Budget) (rid : Nat)
    (adder : AdderState V Kv) :
    adder.addDllmStagingReq B pageSize budget rid = (adder, .noToken) ∨
      ∃ remTokens maxNewTokens, (adder.addDllmStagingReq B pageSize budget rid).1 =
        adder.add pageSize maxNewTokens rid
          ((adder.reqs rid).addDllmStagingReq remTokens) := by
  unfold addDllmStagingReq
  dsimp only
  split_ifs
  · exact Or.inl rfl
  all_goals exact Or.inr ⟨_, _, rfl⟩

end AdderState

namespace SchedulerState

def setReq (s : SchedulerState τ L S Z Kv B V) (rid : Nat) (req : Req V Kv) :
    SchedulerState τ L S Z Kv B V :=
  { s with reqs := Function.update s.reqs rid req }

def initial [Zero S] [Zero Z] (size mambaSize : Nat) (tree : τ) :
    SchedulerState τ L S Z Kv B V where
  reqs _ := .new B []
  nextRid := 0
  waitingQueue := []
  dllmWaitingQueue := []
  stagingQueue := []
  pool := .new L S Z size mambaSize
  tree
  batch := none
  served _ := []

def recvRequest (s : SchedulerState τ L S Z Kv B V) (originInputIds : List (Fin V)) :
    SchedulerState τ L S Z Kv B V :=
  { s with
    reqs := Function.update s.reqs s.nextRid (.new B originInputIds)
    nextRid := s.nextRid + 1
    waitingQueue := s.waitingQueue ++ [s.nextRid] }

def filterFinishedReqs (s : SchedulerState τ L S Z Kv B V) : SchedulerState τ L S Z Kv B V :=
  { s with
    dllmWaitingQueue := s.dllmWaitingQueue.filter (fun rid => !(s.reqs rid).finished)
    stagingQueue := s.stagingQueue.filter (fun rid => !(s.reqs rid).finished) }

def fetchWaitingReqs (maxRunningRequests : Nat) (s : SchedulerState τ L S Z Kv B V) :
    Except ServingError (SchedulerState τ L S Z Kv B V) :=
  let numRequestsToAdd := maxRunningRequests - s.dllmWaitingQueue.length
  let toAdd := s.waitingQueue.take numRequestsToAdd
  if ∃ rid ∈ toAdd, rid ∈ s.dllmWaitingQueue then
    .error .redundantRequests
  else
    .ok { s with
      dllmWaitingQueue := s.dllmWaitingQueue ++ toAdd
      waitingQueue := s.waitingQueue.drop numRequestsToAdd }

/-- `HybridReqToTokenPool.alloc` for one request of the batch. -/
def allocReq [Zero S] [Zero Z] (s : SchedulerState τ L S Z Kv B V) (rid : Nat) :
    Except ServingError (SchedulerState τ L S Z Kv B V) := do
  let (idx, pool) ← s.pool.allocReqIdx (s.reqs rid).reqPoolIdx
  let (mid, pool) ← pool.allocMambaIdx (s.reqs rid).mambaPoolIdx
  let pool ← pool.setMambaIndex idx mid
  .ok { s.setReq rid { s.reqs rid with reqPoolIdx := some idx, mambaPoolIdx := some mid } with
    pool }

theorem allocReq_ok [Zero S] [Zero Z] {s s' : SchedulerState τ L S Z Kv B V} {rid : Nat}
    (hok : s.allocReq rid = .ok s') :
    ∃ idx mid poolReq pool, s.pool.allocReqIdx (s.reqs rid).reqPoolIdx = .ok (idx, poolReq) ∧
      poolReq.allocMambaIdx (s.reqs rid).mambaPoolIdx = .ok (mid, pool) ∧
      s' = { s.setReq rid { s.reqs rid with
          reqPoolIdx := some idx, mambaPoolIdx := some mid } with
        pool := pool.mapMambaIndex idx mid } := by
  obtain ⟨⟨idx, poolReq⟩, hreq, hrest⟩ := bind_eq_ok hok
  obtain ⟨⟨mid, pool⟩, hmamba, hmapped⟩ := bind_eq_ok hrest
  obtain ⟨mapped, hset, hend⟩ := bind_eq_ok hmapped
  cases hend
  cases HybridReqToTokenPool.setMambaIndex_ok hset
  exact ⟨idx, mid, poolReq, pool, hreq, hmamba, rfl⟩

def shouldSkipPrefill (s : SchedulerState τ L S Z Kv B V) (budget : Budget) : Bool :=
  (budget.batchIsFull || s.waitingQueue.isEmpty) && s.dllmWaitingQueue.isEmpty

def prepareBatch [Zero S] [Zero Z] (s : SchedulerState τ L S Z Kv B V)
    (adder : AdderState V Kv) : Except ServingError (SchedulerState τ L S Z Kv B V) :=
  if adder.canRunList = [] then
    .ok { s with reqs := adder.reqs }
  else
    adder.canRunList.foldlM allocReq
      { s with
        reqs := adder.reqs
        stagingQueue := s.stagingQueue ++ adder.canRunList
        batch := some adder.canRunList }

def extendNumTokens (s : SchedulerState τ L S Z Kv B V) : Nat :=
  ((s.batch.getD []).map (fun rid => (s.reqs rid).extendInputLen)).sum

/-- `alloc_token_slots` for the batch, if there is one. -/
def allocTokenSlots (s : SchedulerState τ L S Z Kv B V) (budget : Budget) :
    Except ServingError (SchedulerState τ L S Z Kv B V) :=
  if s.batch.isSome ∧ budget.allocatesTokens s.extendNumTokens = false then
    .error .outOfMemory
  else
    .ok s

theorem allocTokenSlots_ok {s s' : SchedulerState τ L S Z Kv B V} {budget : Budget}
    (hok : s.allocTokenSlots budget = .ok s') : s' = s := by
  unfold allocTokenSlots at hok
  split_ifs at hok
  cases hok
  rfl

/-! Running a batch. -/

/-- Every request of the batch extends by a block: the decoders reshape the input of a batch
to one row of `B` tokens for each request. -/
def WholeBlocks (s : SchedulerState τ L S Z Kv B V) : Prop :=
  ∀ rid ∈ s.batch.getD [], (s.reqs rid).extendInputLen = B

instance (s : SchedulerState τ L S Z Kv B V) : Decidable s.WholeBlocks :=
  inferInstanceAs (Decidable (∀ rid ∈ s.batch.getD [], (s.reqs rid).extendInputLen = B))

theorem WholeBlocks.extendNumTokens {s : SchedulerState τ L S Z Kv B V} (whole : s.WholeBlocks) :
    s.extendNumTokens = (s.batch.getD []).length * B := by
  rw [SchedulerState.extendNumTokens, List.map_congr_left whole, List.map_const',
    List.sum_replicate, smul_eq_mul]

def batchEntries (s : SchedulerState τ L S Z Kv B V) (rids : List Nat) (i : Fin rids.length) :
    BatchEntry Kv where
  slot := s.pool.reqIndexToMambaIndex ((s.reqs (rids.get i)).reqPoolIdx.getD 0)
  prefixIndices := (s.reqs (rids.get i)).prefixIndices

def afterRun (s : SchedulerState τ L S Z Kv B V) (rids : List Nat)
    (res : RunResult (Device L S Z Kv rids.length B) rids.length B V K) :
    SchedulerState τ L S Z Kv B V :=
  { s with
    pool := { s.pool with mambaPool := res.runner.mambaPool }
    reqs := fun rid =>
      if h : rid ∈ rids then
        let rows := res.runner.outRows ⟨rids.idxOf rid, List.idxOf_lt_length_of_mem h⟩
        { s.reqs rid with
          reqToToken := (s.reqs rid).prefixIndices ++ (rows.map List.ofFn).getD [] }
      else
        s.reqs rid
    batch := none
    served := fun rid =>
      if h : rid ∈ rids then
        s.served rid ++ [⟨(s.reqs rid).prefixIndices,
          res.inputIds ⟨rids.idxOf rid, List.idxOf_lt_length_of_mem h⟩⟩]
      else
        s.served rid }

end SchedulerState

def processDllmStagingReqs (B pageSize : Nat) (budget : Budget) :
    List Nat → AdderState V Kv → AdderState V Kv × AddReqResult
  | [], adder => (adder, .continued)
  | rid :: rest, adder =>
      let added := adder.addDllmStagingReq B pageSize budget rid
      if added.2 = .noToken then added
      else processDllmStagingReqs B pageSize budget rest added.1

namespace Server

variable (server : Server τ L S Z Kv B V K)

def maskId : Fin V := server.algorithm.maskId

def stashChunkedRequest (s : SchedulerState τ L S Z Kv B V) (rid : Nat) :
    Except ServingError (SchedulerState τ L S Z Kv B V) :=
  match (s.reqs rid).reqPoolIdx with
  | none => .error .notAllocated
  | some idx =>
      let cached := server.treeCache.cacheUnfinishedReq s.tree (s.reqs rid)
      .ok { s.setReq rid { s.reqs rid with prefixIndices := cached.2 } with
        tree := cached.1
        pool := { s.pool with
          mambaPool := s.pool.mambaPool.promote (s.pool.reqIndexToMambaIndex idx) } }

def initNextRound (s : SchedulerState τ L S Z Kv B V) : SchedulerState τ L S Z Kv B V :=
  { s with
    reqs := fun rid =>
      if rid ∈ s.stagingQueue then (s.reqs rid).initNextRoundInput B server.maskId
      else s.reqs rid
    stagingQueue := [] }

def processDllmIncomingReqs (budget : Budget) (tree : τ) :
    List Nat → AdderState V Kv → Except ServingError (AdderState V Kv)
  | [], adder => .ok adder
  | rid :: rest, adder =>
      let admission := budget.admission adder.canRunList rid
      if admission.batchIsFull then
        .ok adder
      else do
        let req ← (adder.reqs rid).initNextRoundInputWith server.treeCache tree B server.maskId
        if admission.added ∧ 0 < adder.remDllmTokens then
          let adder := adder.add server.pageSize 0 rid
            (req.addDllmReq (adder.truncLen B server.pageSize))
          if admission.result = .continued then
            processDllmIncomingReqs budget tree rest adder
          else
            .ok adder
        else
          .ok { adder with reqs := Function.update adder.reqs rid req }

def processBatchByPhase (budget : Budget) (tree : τ) (batch : List Nat)
    (stagingPhase incomingPhase : DllmReqPhase) (adder : AdderState V Kv) :
    Except ServingError (AdderState V Kv) :=
  let incomingReqs := batch.filter (fun rid => (adder.reqs rid).dllmPhase = incomingPhase)
  let staged := processDllmStagingReqs B server.pageSize budget
    (batch.filter (fun rid => (adder.reqs rid).dllmPhase = stagingPhase)) adder
  if staged.2 = .continued then
    server.processDllmIncomingReqs budget tree incomingReqs staged.1
  else
    .ok staged.1

def processDllmBatches (budget : Budget) (s : SchedulerState τ L S Z Kv B V) :
    Except ServingError (AdderState V Kv) :=
  let prefillReqs := s.dllmWaitingQueue.filter (fun rid => (s.reqs rid).isDllmPrefill)
  let decodeReqs := s.dllmWaitingQueue.filter (fun rid => !(s.reqs rid).isDllmPrefill)
  if prefillReqs ≠ [] then
    server.processBatchByPhase budget s.tree prefillReqs .stagingPrefill .incomingPrefill
      (.new B server.maxRunningRequests s.reqs)
  else
    server.processBatchByPhase budget s.tree decodeReqs .stagingDecode .incomingDecode
      (.new B server.maxRunningRequests s.reqs)

def getNewBatchDllm [Zero S] [Zero Z] (budget : Budget) (s : SchedulerState τ L S Z Kv B V) :
    Except ServingError (SchedulerState τ L S Z Kv B V) :=
  if s.shouldSkipPrefill budget then
    .ok s
  else do
    let s ← (server.initNextRound s).fetchWaitingReqs server.maxRunningRequests
    let adder ← server.processDllmBatches budget s
    let s ← s.prepareBatch adder
    s.allocTokenSlots budget

def getNextBatchToRun [Zero S] [Zero Z] (budget : Budget) (s : SchedulerState τ L S Z Kv B V) :
    Except ServingError (SchedulerState τ L S Z Kv B V) := do
  let filtered := s.filterFinishedReqs
  let stashed ← filtered.stagingQueue.foldlM server.stashChunkedRequest filtered
  server.getNewBatchDllm budget stashed

def inputIds (s : SchedulerState τ L S Z Kv B V) (rids : List Nat) (i : Fin rids.length) :
    Block B V :=
  (s.reqs (rids.get i)).inputBlock B server.maskId

def releaseKvCache (s : SchedulerState τ L S Z Kv B V) (rid : Nat) :
    Except ServingError (SchedulerState τ L S Z Kv B V) :=
  match (s.reqs rid).reqPoolIdx, (s.reqs rid).mambaPoolIdx with
  | some idx, some mid =>
      .ok { s.setReq rid { s.reqs rid with reqPoolIdx := none, mambaPoolIdx := none } with
        tree := server.treeCache.cacheFinishedReq s.tree (s.reqs rid)
        pool := s.pool.release idx mid }
  | _, _ => .error .notAllocated

/-- The body of the loop of `process_batch_result_dllm`. -/
def processReq (stops : Nat → Bool) (s : SchedulerState τ L S Z Kv B V)
    (entry : Nat × List (Fin V)) : Except ServingError (SchedulerState τ L S Z Kv B V) :=
  if entry.2 = [] then
    .ok s
  else
    let s := s.setReq entry.1 ((s.reqs entry.1).appendTokens entry.2 (stops entry.1))
    if stops entry.1 then server.releaseKvCache s entry.1 else .ok s

variable {server} {s s' : SchedulerState τ L S Z Kv B V}

theorem processReq_cases {stops : Nat → Bool} {rid : Nat} {next : List (Fin V)}
    (hok : server.processReq stops s (rid, next) = .ok s') :
    (next = [] ∧ s' = s) ∨
      (stops rid = false ∧ s' = s.setReq rid ((s.reqs rid).appendTokens next false)) ∨
      (stops rid = true ∧ ∃ idx mid, (s.reqs rid).reqPoolIdx = some idx ∧
        (s.reqs rid).mambaPoolIdx = some mid ∧
        s' = { s.setReq rid { (s.reqs rid).appendTokens next true with
            reqPoolIdx := none, mambaPoolIdx := none } with
          tree := server.treeCache.cacheFinishedReq s.tree
            ((s.reqs rid).appendTokens next true)
          pool := s.pool.release idx mid }) := by
  unfold processReq at hok
  by_cases hempty : next = []
  · rw [if_pos hempty] at hok
    cases hok
    exact Or.inl ⟨hempty, rfl⟩
  rw [if_neg hempty] at hok
  cases hstops : stops rid with
  | false =>
      simp only [hstops, Bool.false_eq_true, if_false] at hok
      cases hok
      exact Or.inr (Or.inl ⟨rfl, rfl⟩)
  | true =>
      simp only [hstops, if_true, releaseKvCache, SchedulerState.setReq, Function.update_self,
        Function.update_idem, Req.appendTokens] at hok
      split at hok
      · rename_i idx mid hidx hmid
        cases hok
        exact Or.inr (Or.inr ⟨rfl, idx, mid, hidx, hmid, rfl⟩)
      · cases hok

theorem stashChunkedRequest_ok {rid : Nat} (hok : server.stashChunkedRequest s rid = .ok s') :
    ∃ idx, (s.reqs rid).reqPoolIdx = some idx ∧
      s' = { s.setReq rid { s.reqs rid with
          prefixIndices := (server.treeCache.cacheUnfinishedReq s.tree (s.reqs rid)).2 } with
        tree := (server.treeCache.cacheUnfinishedReq s.tree (s.reqs rid)).1
        pool := { s.pool with
          mambaPool := s.pool.mambaPool.promote (s.pool.reqIndexToMambaIndex idx) } } := by
  unfold stashChunkedRequest at hok
  split at hok
  · cases hok
  · rename_i idx hidx
    cases hok
    exact ⟨idx, hidx, rfl⟩

variable (server)

variable [Field K] [LinearOrder K] [ExpOps K] [TopK K] [NeZero V] [AddMonoid S] [AddMonoid Z]

def runBatch (stops : Nat → Bool) (s : SchedulerState τ L S Z Kv B V) (rids : List Nat) :
    Except ServingError (SchedulerState τ L S Z Kv B V) :=
  match server.algorithm.run (server.model.runner (s.batchEntries rids))
      ⟨s.pool.mambaPool, fun _ => none⟩ (server.inputIds s rids) with
  | none => .error .algorithmFailed
  | some res =>
      (rids.zip res.nextTokenIdsList).foldlM (server.processReq stops)
        (s.afterRun rids res)

/-- One turn of the event loop takes a batch step and, if there is a batch, a run step;
requests arrive in between, and the cache makes room when it has to. The batches are of whole
blocks. -/
inductive Step : SchedulerState τ L S Z Kv B V → SchedulerState τ L S Z Kv B V → Prop
  | recv {s : SchedulerState τ L S Z Kv B V} (originInputIds : List (Fin V)) :
      s.batch = none → Step s (s.recvRequest originInputIds)
  | getNextBatch {s s' : SchedulerState τ L S Z Kv B V} (budget : Budget) :
      s.batch = none → server.getNextBatchToRun budget s = .ok s' → s'.WholeBlocks → Step s s'
  | run {s s' : SchedulerState τ L S Z Kv B V} {rids : List Nat} (stops : Nat → Bool) :
      s.batch = some rids → server.runBatch stops s rids = .ok s' → Step s s'
  | evict {s : SchedulerState τ L S Z Kv B V} {tree : τ} :
      server.treeCache.evicts s.tree tree → Step s { s with tree }

def Reachable (size mambaSize : Nat) (tree : τ) (s : SchedulerState τ L S Z Kv B V) : Prop :=
  Relation.ReflTransGen server.Step (.initial size mambaSize tree) s

end Server

end LladaHybrid.Serving
