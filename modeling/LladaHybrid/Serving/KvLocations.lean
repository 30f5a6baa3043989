import LladaHybrid.Serving.ContextInvariant
import LladaHybrid.Serving.KvAllocator
import LladaHybrid.Serving.KvViews
import LladaHybrid.Serving.SlotConservation
import LladaHybrid.Serving.SoloDecoding

namespace LladaHybrid.Serving

open LladaHybrid.Library LladaHybrid.Decode

/-! The event loop under the chunk cache, with pages of one token and the KV rows by location:
a request holds indices into the buffer, a batch takes new ones from the allocator, a finished
request gives its own back. Every run of it is a run of the scheduler that holds the rows
themselves. -/

variable {L S Z Kv K : Type} {B V : Nat}

/-- `outCacheLoc` are the locations of the batch that is about to run. -/
structure LocatedState (L S Z Kv : Type) (B V : Nat) where
  scheduler : SchedulerState PUnit L S Z Nat B V
  allocator : TokenToKVPoolAllocator
  outCacheLoc : List Nat
  kvBuffer : Nat → Kv

inductive LocatedError
  | outOfMemory
  | serving (error : ServingError)

def LocatedState.initial [Zero S] [Zero Z] (size mambaSize kvSize : Nat) (needSort : Bool)
    (kvBuffer : Nat → Kv) : LocatedState L S Z Kv B V where
  scheduler := .initial size mambaSize ⟨⟩
  allocator := .clear kvSize needSort
  outCacheLoc := []
  kvBuffer

/-- The adder counts the free locations, as the chunk cache has nothing to evict. They are
allocated after the round. -/
def LocatedState.budget (t : LocatedState L S Z Kv B V) (budget : Budget) : Budget :=
  { budget with
    availableAndEvictable := fun _ => t.allocator.availableSize
    allocatesTokens := fun _ => true }

/-- `write_cache_indices` has set the rows of `req_to_token` to the new locations. -/
def RunResult.located {R : Nat} (locs : List Nat)
    (res : RunResult (LocatedDevice L S Z Kv) R B V K) :
    RunResult (Device L S Z Nat R B) R B V K where
  inputIds := res.inputIds
  logitsOutput := res.logitsOutput
  nextTokenIdsList := res.nextTokenIdsList
  runner := ⟨res.runner.mambaPool, fun i => some (outCacheLoc locs i)⟩

/-- `ChunkCache.cache_finished_req` frees the row of a request once it finishes. -/
def SchedulerState.freed (s : SchedulerState PUnit L S Z Nat B V) (stops : Nat → Bool)
    (entry : Nat × List (Fin V)) : List Nat :=
  if entry.2 ≠ [] ∧ stops entry.1 then (s.reqs entry.1).reqToToken else []

namespace Server

variable (server : Server PUnit L S Z Kv B V K)

/-- The scheduler over locations. It never calls the network itself. -/
def located : Server PUnit L S Z Nat B V K where
  treeCache := chunkCache V Nat
  algorithm := server.algorithm
  model :=
    { logits := fun state _ => server.model.logits state []
      contribution := fun state _ => server.model.contribution state []
      kvRows := fun _ _ _ _ => 0 }
  maxRunningRequests := server.maxRunningRequests
  pageSize := 1

theorem sameScheduling_located (hcache : server.treeCache = chunkCache V Kv)
    (hpage : server.pageSize = 1) : SameScheduling server.located server :=
  ⟨rfl, hcache, rfl, rfl, hpage⟩

def getNextBatchLocated [Zero S] [Zero Z] (budget : Budget) (t : LocatedState L S Z Kv B V) :
    Except LocatedError (LocatedState L S Z Kv B V) :=
  match server.located.getNextBatchToRun (t.budget budget) t.scheduler with
  | .error error => .error (.serving error)
  | .ok scheduler =>
      match scheduler.batch with
      | none => .ok { t with scheduler }
      | some _ =>
          match t.allocator.alloc scheduler.extendNumTokens with
          | none => .error .outOfMemory
          | some (outCacheLoc, allocator) => .ok { t with scheduler, allocator, outCacheLoc }

/-- The body of the loop of `process_batch_result_dllm`, with the group of what it frees. -/
def processReqLocated (stops : Nat → Bool) (acc : SchedulerState PUnit L S Z Nat B V × List Nat)
    (entry : Nat × List (Fin V)) :
    Except ServingError (SchedulerState PUnit L S Z Nat B V × List Nat) := do
  let scheduler ← server.located.processReq stops acc.1 entry
  .ok (scheduler, acc.2 ++ acc.1.freed stops entry)

variable [Field K] [LinearOrder K] [ExpOps K] [TopK K] [NeZero V] [AddMonoid S] [AddMonoid Z]

def runBatchLocated (stops : Nat → Bool) (t : LocatedState L S Z Kv B V) (rids : List Nat) :
    Except LocatedError (LocatedState L S Z Kv B V) :=
  match server.algorithm.run
      (server.model.locatedRunner (t.scheduler.batchEntries rids) t.outCacheLoc)
      ⟨t.scheduler.pool.mambaPool, t.kvBuffer⟩ (server.located.inputIds t.scheduler rids) with
  | none => .error (.serving .algorithmFailed)
  | some res =>
      match (rids.zip res.nextTokenIdsList).foldlM (server.processReqLocated stops)
          (t.scheduler.afterRun rids (RunResult.located t.outCacheLoc res), []) with
      | .error error => .error (.serving error)
      | .ok (scheduler, freeGroup) =>
          .ok { scheduler
                allocator := t.allocator.free freeGroup
                outCacheLoc := []
                kvBuffer := res.runner.kvBuffer }

/-- The batches are of whole blocks, as in `Step`. -/
inductive LocatedStep : LocatedState L S Z Kv B V → LocatedState L S Z Kv B V → Prop
  | recv {t : LocatedState L S Z Kv B V} (originInputIds : List (Fin V)) :
      t.scheduler.batch = none →
      LocatedStep t { t with scheduler := t.scheduler.recvRequest originInputIds }
  | getNextBatch {t t' : LocatedState L S Z Kv B V} (budget : Budget) :
      t.scheduler.batch = none → server.getNextBatchLocated budget t = .ok t' →
      t'.scheduler.WholeBlocks → LocatedStep t t'
  | run {t t' : LocatedState L S Z Kv B V} {rids : List Nat} (stops : Nat → Bool) :
      t.scheduler.batch = some rids → server.runBatchLocated stops t rids = .ok t' →
      LocatedStep t t'

def LocatedReachable (size mambaSize kvSize : Nat) (needSort : Bool) (kvBuffer : Nat → Kv)
    (t : LocatedState L S Z Kv B V) : Prop :=
  Relation.ReflTransGen server.LocatedStep
    (.initial size mambaSize kvSize needSort kvBuffer) t

end Server

/-! The locations of a request in the stages of its blocks. -/

def locatedStages (B V : Nat) : Stages Nat B V where
  idle req served := req.prefixIndices = req.reqToToken ∧
    (∀ block ∈ served, block.prefixIndices ⊆ req.reqToToken) ∧
    (¬ req.isStaging → req.reqToToken = [])
  ready req served := req.prefixIndices = req.reqToToken ∧
    ∀ block ∈ served, block.prefixIndices ⊆ req.reqToToken
  ran req served := req.reqToToken.length ≤ req.fillIds.length ∧
    req.reqToToken.length ≤ req.tokens.length ∧
    ∀ block ∈ served, block.prefixIndices ⊆ req.reqToToken

theorem locatedStages_kept (maskId : Fin V) :
    (locatedStages B V).Kept (chunkCache V Nat) maskId where
  new _ := ⟨rfl, List.forall_mem_nil _, fun _ => rfl⟩
  promoted {req served} _ := by
    rintro ⟨hfill, htokens, hserved⟩
    have hrows : req.reqToToken.take req.fillIds.length = req.reqToToken :=
      List.take_of_length_le hfill
    refine ⟨hrows, hserved, fun hincoming => ?_⟩
    refine absurd (Req.isStaging_initNextRoundInput ?_) hincoming
    change (req.reqToToken.take req.fillIds.length).length ≤ _
    rwa [hrows]
  selected {_ _ _ _ added} idle selected _ := by
    obtain ⟨hrows, hserved, hincoming⟩ := idle
    cases selected with
    | kept => exact ⟨hrows, hserved, hincoming⟩
    | staged _ _ => exact ⟨hrows, hserved⟩
    | admitted _ hnot hmatched =>
        obtain ⟨-, rfl⟩ := Req.setMatched_ok hmatched
        exact ⟨(hincoming hnot).symm, hserved⟩
    | rejected hnot hmatched =>
        obtain ⟨-, rfl⟩ := Req.setMatched_ok hmatched
        exact ⟨(hincoming hnot).symm, hserved, fun _ => hincoming hnot⟩
  idle_slots _ _ idle := idle
  ready_slots _ _ ready := ready

theorem Server.located_kept (server : Server PUnit L S Z Kv B V K) :
    (locatedStages B V).Kept server.located.treeCache server.located.maskId :=
  locatedStages_kept _

/-! What the requests hold. -/

def Req.held (req : Req V Nat) : Multiset Nat := if req.finished then 0 else req.reqToToken

def SchedulerState.held (s : SchedulerState PUnit L S Z Nat B V) : Multiset Nat :=
  ∑ r ∈ Finset.range s.nextRid, (s.reqs r).held

section Held

variable {s s' : SchedulerState PUnit L S Z Nat B V}

theorem SchedulerState.held_setReq {rid : Nat} (hrid : rid < s.nextRid) (req : Req V Nat) :
    (s.setReq rid req).held + (s.reqs rid).held = s.held + req.held := by
  have hmem : rid ∈ Finset.range s.nextRid := Finset.mem_range.mpr hrid
  have hfun : (fun r => ((s.setReq rid req).reqs r).held) =
      Function.update (fun r => (s.reqs r).held) rid req.held := by
    funext r
    exact Function.apply_update (fun _ => Req.held) s.reqs rid req r
  change ∑ r ∈ Finset.range s.nextRid, _ + _ = _
  rw [hfun, Finset.sum_update_of_mem hmem, held,
    Finset.sum_eq_add_sum_sdiff_singleton_of_mem hmem (fun r => (s.reqs r).held)]
  abel

variable {stops : Nat → Bool}

theorem processReq_held {server : Server PUnit L S Z Nat B V K} {rid : Nat}
    {next : List (Fin V)} (hok : server.processReq stops s (rid, next) = .ok s')
    (hlt : rid < s.nextRid) (hlive : (s.reqs rid).finished = false) :
    s.freed stops (rid, next) + s'.held = s.held := by
  have hheld : (s.reqs rid).held = (s.reqs rid).reqToToken := by
    rw [Req.held, hlive]
    rfl
  by_cases hnil : next = []
  · rw [Server.processReq, if_pos hnil] at hok
    cases hok
    rw [SchedulerState.freed, if_neg (fun hand => hand.1 hnil)]
    exact zero_add _
  · rcases Server.processReq_cases hok with
      ⟨hempty, -⟩ | ⟨hstops, rfl⟩ | ⟨hstops, idx, mid, -, -, rfl⟩
    · exact absurd hempty hnil
    · have hsum := SchedulerState.held_setReq hlt ((s.reqs rid).appendTokens next false)
      rw [hheld] at hsum
      rw [SchedulerState.freed, if_neg (by simp [hstops])]
      exact (zero_add _).trans (add_right_cancel hsum)
    · have hsum := SchedulerState.held_setReq hlt { (s.reqs rid).appendTokens next true with
        reqPoolIdx := none, mambaPoolIdx := none }
      rw [hheld] at hsum
      rw [SchedulerState.freed, if_pos ⟨hnil, hstops⟩, add_comm]
      exact hsum.trans (add_zero _)

variable {server : Server PUnit L S Z Kv B V K}

theorem processReqLocated_ok {acc acc' : SchedulerState PUnit L S Z Nat B V × List Nat}
    {entry : Nat × List (Fin V)} (hok : server.processReqLocated stops acc entry = .ok acc') :
    server.located.processReq stops acc.1 entry = .ok acc'.1 ∧
      acc'.2 = acc.2 ++ acc.1.freed stops entry := by
  obtain ⟨scheduler, hprocess, hend⟩ := bind_eq_ok hok
  cases hend
  exact ⟨hprocess, rfl⟩

theorem processAllLocated_held {entries : List (Nat × List (Fin V))}
    {acc acc' : SchedulerState PUnit L S Z Nat B V × List Nat}
    (hok : entries.foldlM (server.processReqLocated stops) acc = .ok acc')
    (hnodup : (entries.map Prod.fst).Nodup)
    (hlive : ∀ r ∈ entries.map Prod.fst, r < acc.1.nextRid ∧ (acc.1.reqs r).finished = false) :
    (acc'.2 : Multiset Nat) + acc'.1.held = acc.2 + acc.1.held := by
  refine (foldlM_invariant_rest (fun rest now => (now.2 : Multiset Nat) + now.1.held =
    acc.2 + acc.1.held ∧ (rest.map Prod.fst).Nodup ∧ ∀ r ∈ rest.map Prod.fst,
      r < now.1.nextRid ∧ (now.1.reqs r).finished = false) ?_ hok ⟨rfl, hnodup, hlive⟩).1
  rintro ⟨rid, next⟩ rest now now' ⟨hsum, hnodup, hlive⟩ hstep
  rw [List.map_cons, List.nodup_cons] at hnodup
  obtain ⟨hlt, hunfinished⟩ := hlive rid List.mem_cons_self
  obtain ⟨hprocess, hfreed⟩ := processReqLocated_ok hstep
  refine ⟨?_, hnodup.2, ?_⟩
  · rw [← hsum, hfreed, ← Multiset.coe_add, add_assoc, processReq_held hprocess hlt hunfinished]
  · intro r hr
    obtain ⟨hqueues, hother⟩ := processReq_sameQueues hprocess
    rw [hqueues.nextRid, hother r (fun hsame => hnodup.1 (hsame ▸ hr))]
    exact hlive r (List.mem_cons_of_mem rid hr)

/-- The loop without its account of the freed locations. -/
theorem processAllLocated_scheduler (entries : List (Nat × List (Fin V)))
    (acc : SchedulerState PUnit L S Z Nat B V × List Nat) :
    entries.foldlM (server.located.processReq stops) acc.1 =
      (entries.foldlM (server.processReqLocated stops) acc).map Prod.fst := by
  refine foldlM_map Prod.fst (fun now entry => ?_) entries acc
  rw [Server.processReqLocated]
  cases server.located.processReq stops now.1 entry <;> rfl

/-- After the run of a batch its requests hold the new locations too. -/
theorem SchedulerState.held_afterRun {rids locs : List Nat}
    {res : RunResult (LocatedDevice L S Z Kv) rids.length B V K} (hnodup : rids.Nodup)
    (hlive : ∀ r ∈ rids, r < s.nextRid ∧ (s.reqs r).finished = false)
    (hrows : ∀ r ∈ rids, (s.reqs r).prefixIndices = (s.reqs r).reqToToken)
    (hlength : locs.length = rids.length * B) :
    (s.afterRun rids (RunResult.located locs res)).held = s.held + locs := by
  have hreq : ∀ r, ((s.afterRun rids (RunResult.located locs res)).reqs r).held =
      (s.reqs r).held + if r ∈ rids.toFinset then
        (outRow B locs (rids.idxOf r) : Multiset Nat) else 0 := by
    intro r
    by_cases hr : r ∈ rids
    · have hafter : (s.afterRun rids (RunResult.located locs res)).reqs r = { s.reqs r with
          reqToToken := (s.reqs r).prefixIndices ++ outRow B locs (rids.idxOf r) } := dif_pos hr
      rw [hafter, if_pos (List.mem_toFinset.mpr hr), Req.held, Req.held, (hlive r hr).2, hrows r hr]
      exact (Multiset.coe_add _ _).symm
    · have hafter : (s.afterRun rids (RunResult.located locs res)).reqs r = s.reqs r :=
        dif_neg hr
      rw [hafter, if_neg (fun hmem => hr (List.mem_toFinset.mp hmem)), add_zero]
  have hsub : rids.toFinset ⊆ Finset.range s.nextRid := by
    intro r hr
    exact Finset.mem_range.mpr (hlive r (List.mem_toFinset.mp hr)).1
  calc
    (s.afterRun rids (RunResult.located locs res)).held =
        ∑ r ∈ Finset.range s.nextRid, ((s.reqs r).held + if r ∈ rids.toFinset then
          (outRow B locs (rids.idxOf r) : Multiset Nat) else 0) :=
      Finset.sum_congr rfl fun r _ => hreq r
    _ = s.held + ∑ r ∈ rids.toFinset, (outRow B locs (rids.idxOf r) : Multiset Nat) := by
      rw [Finset.sum_add_distrib, Finset.sum_ite_mem, Finset.inter_eq_right.mpr hsub]
      rfl
    _ = s.held + locs := by
      rw [List.sum_toFinset _ hnodup, sum_map_coe, map_idxOf hnodup (outRow B locs),
        flatten_outRow hlength]

end Held

/-! The refinement. -/

/-- `s` holds the rows that `t` has in its buffer at the locations of the requests, and
every location is free, taken for the batch or held by one request. -/
structure Locates (kvSize : Nat) (t : LocatedState L S Z Kv B V)
    (s : SchedulerState PUnit L S Z Kv B V) : Prop where
  rows : ∃ view : Nat → Nat → Kv, s = t.scheduler.mapKv view ∧
    ∀ r, (t.scheduler.reqs r).finished = false →
      ∀ loc ∈ (t.scheduler.reqs r).reqToToken, view r loc = t.kvBuffer loc
  staged : Staged (locatedStages B V) t.scheduler
  fresh : ∀ r, t.scheduler.nextRid ≤ r → (t.scheduler.reqs r).reqToToken = []
  merged : t.allocator.Merged
  pending : t.outCacheLoc.length = (t.scheduler.batch.getD []).length * B
  conserved : t.allocator.available + t.outCacheLoc + t.scheduler.held =
    (List.range' 1 kvSize : List Nat)

theorem Scheduled.of_mapKv {size mambaSize : Nat} {s : SchedulerState PUnit L S Z Nat B V}
    {view : Nat → Nat → Kv} (scheduled : Scheduled size mambaSize (s.mapKv view)) :
    Scheduled size mambaSize s where
  allocated :=
    { reqSlots := scheduled.allocated.reqSlots
      mambaSlots := scheduled.allocated.mambaSlots
      mapped := scheduled.allocated.mapped
      both := scheduled.allocated.both
      released := scheduled.allocated.released
      unserved := fun hnone hlive =>
        List.map_eq_nil_iff.mp (scheduled.allocated.unserved hnone hlive)
      mapping_mem := scheduled.allocated.mapping_mem
      untouched := scheduled.allocated.untouched }
  queues :=
    { nodup := scheduled.queues.nodup
      arrived := scheduled.queues.arrived
      staging_nodup := scheduled.queues.staging_nodup
      staging_waiting := scheduled.queues.staging_waiting
      waiting_unfinished := scheduled.queues.waiting_unfinished
      fresh := scheduled.queues.fresh }
  batch := scheduled.batch
  batch_ne_nil := scheduled.batch_ne_nil

namespace Locates

variable {server : Server PUnit L S Z Kv B V K} {t t' : LocatedState L S Z Kv B V}
  {s s' : SchedulerState PUnit L S Z Kv B V} {size mambaSize kvSize : Nat}

theorem scheduled (locates : Locates kvSize t s) (hs : Scheduled size mambaSize s) :
    Scheduled size mambaSize t.scheduler := by
  obtain ⟨view, rfl, -⟩ := locates.rows
  exact hs.of_mapKv

theorem batch (locates : Locates kvSize t s) : s.batch = t.scheduler.batch := by
  obtain ⟨view, rfl, -⟩ := locates.rows
  rfl

theorem outCacheLoc_of_none (locates : Locates kvSize t s) (hnone : t.scheduler.batch = none) :
    t.outCacheLoc = [] := by
  have hpending := locates.pending
  rwa [hnone, Option.getD_none, List.length_nil, Nat.zero_mul, List.length_eq_zero_iff]
    at hpending

theorem availableSize_add (locates : Locates kvSize t s) (hnone : t.scheduler.batch = none) :
    t.allocator.availableSize + t.scheduler.held.card = kvSize := by
  have hcard := congrArg Multiset.card locates.conserved
  rwa [Multiset.card_add, Multiset.card_add, locates.outCacheLoc_of_none hnone,
    TokenToKVPoolAllocator.card_available, Multiset.coe_card, Multiset.coe_card,
    List.length_range', List.length_nil, Nat.add_zero] at hcard

theorem initial [Zero S] [Zero Z] (server : Server PUnit L S Z Kv B V K)
    (size mambaSize kvSize : Nat) (needSort : Bool) (kvBuffer : Nat → Kv) :
    Locates kvSize (.initial size mambaSize kvSize needSort kvBuffer : LocatedState L S Z Kv B V)
      (.initial size mambaSize ⟨⟩) where
  rows := ⟨fun _ => kvBuffer, rfl, fun _ _ _ _ => rfl⟩
  staged := .initial server.located_kept
  fresh _ _ := rfl
  merged _ := rfl
  pending := (Nat.zero_mul B).symm
  conserved := by
    change (List.range' 1 kvSize : Multiset Nat) + 0 + 0 + 0 = _
    simp only [add_zero]

theorem recv (server : Server PUnit L S Z Kv B V K) (locates : Locates kvSize t s)
    (hs : Scheduled size mambaSize s) (hnone : t.scheduler.batch = none)
    (originInputIds : List (Fin V)) :
    Locates kvSize { t with scheduler := t.scheduler.recvRequest originInputIds }
      (s.recvRequest originInputIds) := by
  have hscheduled := locates.scheduled hs
  obtain ⟨view, rfl, hview⟩ := locates.rows
  have hself : (t.scheduler.recvRequest originInputIds).reqs t.scheduler.nextRid =
      .new B originInputIds := Function.update_self ..
  have hother : ∀ r, r ≠ t.scheduler.nextRid →
      (t.scheduler.recvRequest originInputIds).reqs r = t.scheduler.reqs r :=
    fun r hr => Function.update_of_ne hr _ _
  refine ⟨⟨view, (t.scheduler.mapKv_recvRequest view originInputIds).symm, ?_⟩, ?_, ?_,
    locates.merged, ?_, ?_⟩
  · intro r hlive loc hloc
    change ((t.scheduler.recvRequest originInputIds).reqs r).finished = false at hlive
    change loc ∈ ((t.scheduler.recvRequest originInputIds).reqs r).reqToToken at hloc
    by_cases hr : r = t.scheduler.nextRid
    · rw [hr, hself] at hloc
      cases hloc
    · rw [hother r hr] at hlive hloc
      exact hview r hlive loc hloc
  · exact locates.staged.recv server.located_kept hscheduled hnone originInputIds
  · intro r hr
    change t.scheduler.nextRid + 1 ≤ r at hr
    change ((t.scheduler.recvRequest originInputIds).reqs r).reqToToken = []
    rw [hother r (by omega)]
    exact locates.fresh r (by omega)
  · exact locates.pending
  · rw [← locates.conserved]
    refine congrArg (t.allocator.available + t.outCacheLoc + ·) ?_
    change ∑ r ∈ Finset.range (t.scheduler.nextRid + 1), _ = _
    rw [Finset.sum_range_succ, hself]
    refine (add_zero _).trans (Finset.sum_congr rfl fun r hr => ?_)
    rw [hother r (Nat.ne_of_lt (Finset.mem_range.mp hr))]

theorem getNextBatchLocated_ok [Zero S] [Zero Z] {budget : Budget}
    (hok : server.getNextBatchLocated budget t = .ok t') :
    ∃ scheduler, server.located.getNextBatchToRun (t.budget budget) t.scheduler =
        .ok scheduler ∧
      ((scheduler.batch = none ∧ t' = { t with scheduler }) ∨
        ∃ rids outCacheLoc allocator, scheduler.batch = some rids ∧
          t.allocator.alloc scheduler.extendNumTokens = some (outCacheLoc, allocator) ∧
          t' = { t with scheduler, allocator, outCacheLoc }) := by
  rw [Server.getNextBatchLocated] at hok
  split at hok
  · cases hok
  · rename_i scheduler hround
    refine ⟨scheduler, hround, ?_⟩
    split at hok
    · rename_i hnone
      cases hok
      exact Or.inl ⟨hnone, rfl⟩
    · rename_i rids hsome
      split at hok
      · cases hok
      · rename_i outCacheLoc allocator halloc
        cases hok
        exact Or.inr ⟨rids, outCacheLoc, allocator, hsome, halloc, rfl⟩

/-- A round that forms a batch moves no row. -/
theorem scheduler_round [Zero S] [Zero Z] {budget : Budget}
    {scheduler : SchedulerState PUnit L S Z Nat B V}
    (hscheduled : Scheduled size mambaSize t.scheduler)
    (hround : server.located.getNextBatchToRun budget t.scheduler = .ok scheduler) :
    (∀ r, (scheduler.reqs r).reqToToken = (t.scheduler.reqs r).reqToToken) ∧
      (∀ r, (scheduler.reqs r).finished = (t.scheduler.reqs r).finished) ∧
      scheduler.nextRid = t.scheduler.nextRid ∧ scheduler.held = t.scheduler.held := by
  obtain ⟨hcontent, -⟩ := hscheduled.getNextBatch_content hround
  have hrows : ∀ r, (scheduler.reqs r).reqToToken = (t.scheduler.reqs r).reqToToken :=
    fun r => congrArg (fun content => content.2.2.1) (hcontent r)
  have hfinished := hscheduled.getNextBatch_finished hround
  have hnext := getNextBatch_nextRid hround
  refine ⟨hrows, hfinished, hnext, ?_⟩
  rw [SchedulerState.held, SchedulerState.held, hnext]
  refine Finset.sum_congr rfl fun r _ => ?_
  rw [Req.held, Req.held, hrows, hfinished]

theorem wholeBlocks (locates : Locates kvSize t s) (whole : t.scheduler.WholeBlocks) :
    s.WholeBlocks := by
  obtain ⟨view, rfl, -⟩ := locates.rows
  exact whole

theorem getNextBatch [Zero S] [Zero Z] {budget : Budget}
    (hcache : server.treeCache = chunkCache V Kv) (hpage : server.pageSize = 1)
    (locates : Locates kvSize t s) (hs : Scheduled size mambaSize s)
    (hnone : t.scheduler.batch = none) (hok : server.getNextBatchLocated budget t = .ok t')
    (hwhole : t'.scheduler.WholeBlocks) :
    ∃ s', server.getNextBatchToRun (t.budget budget) s = .ok s' ∧ Locates kvSize t' s' := by
  have hscheduled := locates.scheduled hs
  obtain ⟨view, rfl, hview⟩ := locates.rows
  have hpending := locates.outCacheLoc_of_none hnone
  have hsum := locates.conserved
  rw [hpending] at hsum
  obtain ⟨scheduler, hround, hbatch⟩ := getNextBatchLocated_ok hok
  obtain ⟨hrows, hfinished, hnext, hheld⟩ := scheduler_round hscheduled hround
  have hscheduler : t'.scheduler = scheduler := by
    rcases hbatch with ⟨-, rfl⟩ | ⟨rids, locs, allocator, -, -, rfl⟩ <;> rfl
  rw [hscheduler] at hwhole
  have hstaged := locates.staged.getNextBatch server.located_kept hscheduled hnone hround hwhole
  have hview' : ∀ r, (scheduler.reqs r).finished = false →
      ∀ loc ∈ (scheduler.reqs r).reqToToken, view r loc = t.kvBuffer loc := by
    intro r hlive loc hloc
    rw [hfinished] at hlive
    rw [hrows] at hloc
    exact hview r hlive loc hloc
  have hfresh : ∀ r, scheduler.nextRid ≤ r → (scheduler.reqs r).reqToToken = [] := by
    intro r hr
    rw [hrows]
    exact locates.fresh r (hnext ▸ hr)
  refine ⟨scheduler.mapKv view, ?_, ?_⟩
  · rw [(server.sameScheduling_located hcache hpage).getNextBatchToRun, hround]
    rfl
  rcases hbatch with ⟨hnone', rfl⟩ | ⟨rids, locs, allocator, hsome, halloc, rfl⟩
  · refine ⟨⟨view, rfl, hview'⟩, hstaged, hfresh, locates.merged, ?_, ?_⟩
    · change t.outCacheLoc.length = (scheduler.batch.getD []).length * B
      rw [hnone', hpending, Option.getD_none, List.length_nil, Nat.zero_mul]
    · change _ + (t.outCacheLoc : Multiset Nat) + scheduler.held = _
      rw [hheld]
      exact locates.conserved
  · obtain ⟨hlength, havailable⟩ := TokenToKVPoolAllocator.alloc_some halloc
    refine ⟨⟨view, rfl, hview'⟩, hstaged, hfresh, locates.merged.alloc halloc, ?_, ?_⟩
    · exact hlength.trans hwhole.extendNumTokens
    · change allocator.available + (locs : Multiset Nat) + scheduler.held = _
      rw [← hsum, hheld, ← havailable, add_comm allocator.available]
      exact congrArg (· + t.scheduler.held) (add_zero _).symm

theorem nodup (locates : Locates kvSize t s) :
    (t.allocator.available + t.outCacheLoc + t.scheduler.held).Nodup := by
  rw [locates.conserved]
  exact List.nodup_range'

/-- The locations of a batch are new to every unfinished request. -/
theorem notMem_outCacheLoc (locates : Locates kvSize t s) {r : Nat}
    (hlive : (t.scheduler.reqs r).finished = false) {loc : Nat}
    (hloc : loc ∈ (t.scheduler.reqs r).reqToToken) : loc ∉ t.outCacheLoc := by
  have hlt : r < t.scheduler.nextRid := by
    by_contra hge
    rw [locates.fresh r (Nat.not_lt.mp hge)] at hloc
    cases hloc
  have hheld : loc ∈ t.scheduler.held := by
    refine Multiset.mem_sum.mpr ⟨r, Finset.mem_range.mpr hlt, ?_⟩
    rw [Req.held, hlive]
    exact hloc
  intro hpending
  have hdisjoint := (Multiset.nodup_add.mp locates.nodup).2.2
  exact Multiset.disjoint_left.mp hdisjoint
    (Multiset.mem_add.mpr (Or.inr hpending)) hheld

theorem nodup_outCacheLoc (locates : Locates kvSize t s) : t.outCacheLoc.Nodup :=
  (Multiset.nodup_add.mp (Multiset.nodup_add.mp locates.nodup).1).2.1

end Locates

/-- A batch that is about to run: its requests read the rows of their prefixes from the
buffer and write to locations that none of them holds. -/
structure BatchLocated (t : LocatedState L S Z Kv B V) (view : Nat → Nat → Kv)
    (rids : List Nat) : Prop where
  nodup : rids.Nodup
  live : ∀ r ∈ rids, r < t.scheduler.nextRid ∧ (t.scheduler.reqs r).finished = false
  ready : ∀ r ∈ rids, (locatedStages B V).ready (t.scheduler.reqs r) (t.scheduler.served r)
  rows : ∀ r ∈ rids, ∀ loc ∈ (t.scheduler.reqs r).reqToToken, view r loc = t.kvBuffer loc
  fresh : ∀ r ∈ rids, ∀ loc ∈ (t.scheduler.reqs r).reqToToken, loc ∉ t.outCacheLoc
  length : t.outCacheLoc.length = rids.length * B
  nodup_outCacheLoc : t.outCacheLoc.Nodup

section Run

variable {server : Server PUnit L S Z Kv B V K} {t t' : LocatedState L S Z Kv B V}
  {s : SchedulerState PUnit L S Z Kv B V} {size mambaSize kvSize : Nat} {rids : List Nat}
  {view : Nat → Nat → Kv} {stops : Nat → Bool}

theorem Locates.batchLocated (locates : Locates kvSize t s)
    (hscheduled : Scheduled size mambaSize t.scheduler) (hsome : t.scheduler.batch = some rids)
    (hview : ∀ r, (t.scheduler.reqs r).finished = false →
      ∀ loc ∈ (t.scheduler.reqs r).reqToToken, view r loc = t.kvBuffer loc) :
    BatchLocated t view rids := by
  obtain ⟨hstaging, hslots⟩ := hscheduled.batch hsome
  have hlive : ∀ r ∈ rids, r < t.scheduler.nextRid ∧ (t.scheduler.reqs r).finished = false := by
    intro r hr
    obtain ⟨slot, hslot⟩ := hslots r hr
    exact ⟨hscheduled.queues.staging_lt (hstaging ▸ hr),
      hscheduled.allocated.finished_of_live hslot⟩
  refine ⟨hstaging ▸ hscheduled.queues.staging_nodup, hlive, fun r hr =>
    locates.staged.ready hsome hr, fun r hr => hview r (hlive r hr).2, ?_, ?_,
    locates.nodup_outCacheLoc⟩
  · intro r hr loc hloc
    exact locates.notMem_outCacheLoc (hlive r hr).2 hloc
  · rw [locates.pending, hsome, Option.getD_some]

namespace BatchLocated

theorem mem_reqToToken (located : BatchLocated t view rids) {r loc : Nat} (hr : r ∈ rids)
    (hloc : loc ∈ (t.scheduler.reqs r).prefixIndices) :
    loc ∈ (t.scheduler.reqs r).reqToToken :=
  (located.ready r hr).1 ▸ hloc

theorem load_batchEntries (located : BatchLocated t view rids) :
    (t.scheduler.mapKv view).batchEntries rids =
      fun i => (t.scheduler.batchEntries rids i).load t.kvBuffer := by
  funext i
  refine congrArg (BatchEntry.mk _) (List.map_congr_left fun loc hloc => ?_)
  have hmem := List.get_mem rids i
  exact located.rows _ hmem loc (located.mem_reqToToken hmem hloc)

/-- The rows after a run, by value, are those that the buffer then has. -/
theorem mapKv_afterRun {res : RunResult (LocatedDevice L S Z Kv) rids.length B V K}
    {res' : RunResult (Device L S Z Kv rids.length B) rids.length B V K}
    (located : BatchLocated t view rids)
    (same : RunResult.Same (Mirrors t.outCacheLoc t.kvBuffer) res res')
    (hrows : ∀ i, ∃ rows, res'.runner.outRows i = some rows) :
    (t.scheduler.mapKv view).afterRun rids res' =
      (t.scheduler.afterRun rids (RunResult.located t.outCacheLoc res)).mapKv
        (fun r => if r ∈ rids then res.runner.kvBuffer else view r) := by
  have hkept : ∀ r ∈ rids, ∀ loc ∈ (t.scheduler.reqs r).reqToToken,
      view r loc = res.runner.kvBuffer loc := by
    intro r hr loc hloc
    rw [located.rows r hr loc hloc, same.runner.kept (located.fresh r hr loc hloc)]
  have hmap : ∀ r ∈ rids, ∀ {locs : List Nat}, locs ⊆ (t.scheduler.reqs r).reqToToken →
      locs.map (view r) = locs.map res.runner.kvBuffer :=
    fun r hr locs hsub => List.map_congr_left fun loc hloc => hkept r hr loc (hsub hloc)
  have hrow : ∀ r ∈ rids, (t.scheduler.reqs r).prefixIndices.map (view r) =
      (t.scheduler.reqs r).prefixIndices.map res.runner.kvBuffer := by
    intro r hr
    rw [(located.ready r hr).1]
    exact hmap r hr (List.Subset.refl _)
  simp only [SchedulerState.afterRun, SchedulerState.mapKv, SchedulerState.mk.injEq, true_and]
  refine ⟨funext fun r => ?_, ?_, funext fun r => ?_⟩
  · by_cases hr : r ∈ rids
    · obtain ⟨rows, hout⟩ := hrows ⟨rids.idxOf r, List.idxOf_lt_length_of_mem hr⟩
      have hnew : (List.ofFn (outCacheLoc (B := B) t.outCacheLoc (rids.idxOf r))).map
          res.runner.kvBuffer = List.ofFn rows := by
        rw [List.map_ofFn]
        exact congrArg List.ofFn (funext fun j => same.runner.rows hout j)
      simp only [dif_pos hr, if_pos hr, hout, RunResult.located, Req.mapKv, Option.map_some,
        Option.getD_some, List.map_append, hnew, hrow r hr]
    · simp only [dif_neg hr, if_neg hr]
  · rw [RunResult.located, same.runner.mambaPool]
  · by_cases hr : r ∈ rids
    · have hserved : (t.scheduler.served r).map (ServedBlock.mapKv (view r)) =
          (t.scheduler.served r).map (ServedBlock.mapKv res.runner.kvBuffer) := by
        refine List.map_congr_left fun block hblock => ?_
        rw [ServedBlock.mapKv, hmap r hr ((located.ready r hr).2 block hblock)]
        rfl
      simp only [dif_pos hr, if_pos hr, hserved, List.map_append, List.map_singleton,
        RunResult.located, ← same.inputIds]
      simp only [ServedBlock.mapKv, Req.mapKv, hrow r hr]
    · simp only [dif_neg hr, if_neg hr]

/-- The account of a run: the batch's locations are held, or freed with the rest. -/
theorem held_run (located : BatchLocated t view rids)
    {res : RunResult (LocatedDevice L S Z Kv) rids.length B V K}
    {scheduler : SchedulerState PUnit L S Z Nat B V} {freeGroup : List Nat}
    (hprocess : (rids.zip res.nextTokenIdsList).foldlM (server.processReqLocated stops)
      (t.scheduler.afterRun rids (RunResult.located t.outCacheLoc res), []) =
        .ok (scheduler, freeGroup)) :
    (freeGroup : Multiset Nat) + scheduler.held = t.outCacheLoc + t.scheduler.held := by
  have hkeys := zip_keys_sublist rids res.nextTokenIdsList
  have hlive : ∀ r ∈ (rids.zip res.nextTokenIdsList).map Prod.fst, r < t.scheduler.nextRid ∧
      ((t.scheduler.afterRun rids (RunResult.located t.outCacheLoc res)).reqs r).finished =
        false := by
    intro r hr
    rw [(t.scheduler.afterRun_sameSlots rids _).finished]
    exact located.live r (hkeys.subset hr)
  have hheld := processAllLocated_held hprocess (hkeys.nodup located.nodup) hlive
  rw [SchedulerState.held_afterRun located.nodup located.live
    (fun r hr => (located.ready r hr).1) located.length] at hheld
  exact hheld.trans ((zero_add _).trans (add_comm _ _))

end BatchLocated

variable [Field K] [LinearOrder K] [ExpOps K] [TopK K] [NeZero V] [AddMonoid S] [AddMonoid Z]

theorem runBatchLocated_ok (hok : server.runBatchLocated stops t rids = .ok t') :
    ∃ res scheduler freeGroup, server.algorithm.run
        (server.model.locatedRunner (t.scheduler.batchEntries rids) t.outCacheLoc)
        ⟨t.scheduler.pool.mambaPool, t.kvBuffer⟩ (server.located.inputIds t.scheduler rids) =
          some res ∧
      (rids.zip res.nextTokenIdsList).foldlM (server.processReqLocated stops)
        (t.scheduler.afterRun rids (RunResult.located t.outCacheLoc res), []) =
          .ok (scheduler, freeGroup) ∧
      t' = ⟨scheduler, t.allocator.free freeGroup, [], res.runner.kvBuffer⟩ := by
  rw [Server.runBatchLocated] at hok
  split at hok
  · cases hok
  · rename_i res hres
    split at hok
    · cases hok
    · rename_i scheduler freeGroup hprocess
      cases hok
      exact ⟨res, scheduler, freeGroup, hres, hprocess, rfl⟩

theorem runBatch_of_some {res : RunResult (Device L S Z Kv rids.length B) rids.length B V K}
    (hres : server.algorithm.run (server.model.runner (s.batchEntries rids))
      ⟨s.pool.mambaPool, fun _ => none⟩ (server.inputIds s rids) = some res) :
    server.runBatch stops s rids =
      (rids.zip res.nextTokenIdsList).foldlM (server.processReq stops) (s.afterRun rids res) := by
  rw [Server.runBatch, hres]

/-- The algorithm sees the same logits on both memories. -/
theorem BatchLocated.run_same {res : RunResult (LocatedDevice L S Z Kv) rids.length B V K}
    (located : BatchLocated t view rids)
    (hres : server.algorithm.run
      (server.model.locatedRunner (t.scheduler.batchEntries rids) t.outCacheLoc)
      ⟨t.scheduler.pool.mambaPool, t.kvBuffer⟩ (server.located.inputIds t.scheduler rids) =
        some res) :
    ∃ res', server.algorithm.run
        (server.model.runner ((t.scheduler.mapKv view).batchEntries rids))
        ⟨t.scheduler.pool.mambaPool, fun _ => none⟩
        (server.inputIds (t.scheduler.mapKv view) rids) = some res' ∧
      RunResult.Same (Mirrors t.outCacheLoc t.kvBuffer) res res' := by
  have hids : server.inputIds (t.scheduler.mapKv view) rids =
      server.located.inputIds t.scheduler rids :=
    funext fun i => Req.inputBlock_mapKv _ _ _
  have hreads : ∀ i, ∀ loc ∈ (t.scheduler.batchEntries rids i).prefixIndices,
      loc ∉ t.outCacheLoc := fun i loc hloc =>
    located.fresh _ (List.get_mem rids i) loc (located.mem_reqToToken (List.get_mem rids i) hloc)
  have hstart : Mirrors t.outCacheLoc t.kvBuffer ⟨t.scheduler.pool.mambaPool, t.kvBuffer⟩
      (⟨t.scheduler.pool.mambaPool, fun _ => none⟩ : Device L S Z Kv rids.length B) :=
    ⟨rfl, fun _ => rfl, fun hnone => by cases hnone⟩
  have hrel := server.algorithm.run_same (server.located.inputIds t.scheduler rids)
    (server.model.locatedRunner_simulates located.length located.nodup_outCacheLoc hreads
      t.kvBuffer) hstart
  rw [hres] at hrel
  rw [located.load_batchEntries, hids]
  cases hrun : server.algorithm.run
      (server.model.runner fun i => (t.scheduler.batchEntries rids i).load t.kvBuffer)
      ⟨t.scheduler.pool.mambaPool, fun _ => none⟩ (server.located.inputIds t.scheduler rids) with
  | none =>
      rw [hrun] at hrel
      cases hrel
  | some res' =>
      rw [hrun] at hrel
      cases hrel with
      | some same => exact ⟨res', rfl, same⟩

/-- A run on the buffer, by value. -/
theorem BatchLocated.runBatch (hcache : server.treeCache = chunkCache V Kv)
    (hpage : server.pageSize = 1) (located : BatchLocated t view rids)
    {res : RunResult (LocatedDevice L S Z Kv) rids.length B V K}
    {scheduler : SchedulerState PUnit L S Z Nat B V}
    (hres : server.algorithm.run
      (server.model.locatedRunner (t.scheduler.batchEntries rids) t.outCacheLoc)
      ⟨t.scheduler.pool.mambaPool, t.kvBuffer⟩ (server.located.inputIds t.scheduler rids) =
        some res)
    (hloop : (rids.zip res.nextTokenIdsList).foldlM (server.located.processReq stops)
      (t.scheduler.afterRun rids (RunResult.located t.outCacheLoc res)) = .ok scheduler) :
    server.runBatch stops (t.scheduler.mapKv view) rids =
        .ok (scheduler.mapKv fun r => if r ∈ rids then res.runner.kvBuffer else view r) ∧
      ∀ {loc}, loc ∉ t.outCacheLoc → res.runner.kvBuffer loc = t.kvBuffer loc := by
  obtain ⟨res', hres', same⟩ := located.run_same hres
  have hran := DllmAlgorithm.run_batchRan hres'
  have hfirst : server.runBatch stops (t.scheduler.mapKv view) rids =
      (rids.zip res'.nextTokenIdsList).foldlM (server.processReq stops)
        ((t.scheduler.mapKv view).afterRun rids res') := runBatch_of_some hres'
  refine ⟨?_, same.runner.kept⟩
  rw [hfirst, located.mapKv_afterRun same (fun i => ⟨_, hran.rows i⟩), ← same.nextTokenIdsList,
    (server.sameScheduling_located hcache hpage).processAll, hloop]
  rfl

omit [Field K] [LinearOrder K] [ExpOps K] [TopK K] [NeZero V] in
/-- The locations a request holds after the run, from the lengths of its rows by value. -/
theorem staged_run {scheduler : SchedulerState PUnit L S Z Nat B V}
    {res : RunResult (LocatedDevice L S Z Kv) rids.length B V K} {view' : Nat → Nat → Kv}
    (staged : Staged (locatedStages B V) t.scheduler)
    (hscheduled : Scheduled size mambaSize t.scheduler) (hsome : t.scheduler.batch = some rids)
    (hprocess : (rids.zip res.nextTokenIdsList).foldlM (server.located.processReq stops)
      (t.scheduler.afterRun rids (RunResult.located t.outCacheLoc res)) = .ok scheduler)
    (hcontexts : Staged (chunkStages server.model server.maskId) (scheduler.mapKv view')) :
    Staged (locatedStages B V) scheduler := by
  have hserved : Staged { locatedStages B V with
      ran := fun req served => ∀ block ∈ served, block.prefixIndices ⊆ req.reqToToken }
      scheduler := by
    refine Staged.run ⟨staged.idle, staged.ready, fun hnone r hr hlive =>
      (staged.ran hnone hr hlive).2.2⟩ hscheduled hsome hprocess ?_
    rintro r hr ⟨hrows, hblocks⟩ block hblock
    have hafter : (t.scheduler.afterRun rids (RunResult.located t.outCacheLoc res)).reqs r =
        { t.scheduler.reqs r with
          reqToToken := (t.scheduler.reqs r).prefixIndices ++
            outRow B t.outCacheLoc (rids.idxOf r) } := dif_pos hr
    have hserved : (t.scheduler.afterRun rids (RunResult.located t.outCacheLoc res)).served r =
        t.scheduler.served r ++ [⟨(t.scheduler.reqs r).prefixIndices,
          res.inputIds ⟨rids.idxOf r, List.idxOf_lt_length_of_mem hr⟩⟩] := dif_pos hr
    rw [hserved, List.mem_append, List.mem_singleton] at hblock
    rw [hafter]
    rcases hblock with hblock | rfl
    · rw [hrows]
      exact List.subset_append_of_subset_left _ (hblocks block hblock)
    · exact List.subset_append_left _ _
  refine ⟨hserved.idle, hserved.ready, fun hnone r hr hlive => ?_⟩
  have hran : Ran server.model server.maskId ((scheduler.reqs r).mapKv (view' r)) _ :=
    hcontexts.ran hnone hr hlive
  have hlength : (scheduler.reqs r).reqToToken.length = (server.model.rowsOf _).length :=
    (List.length_map (view' r)).symm.trans (congrArg List.length hran.reqToToken)
  refine ⟨?_, ?_, hserved.ran hnone hr hlive⟩
  · rw [hlength]
    exact hran.length_fillIds.ge
  · rw [hlength]
    exact hran.tracks.length_le

theorem Locates.run (hcache : server.treeCache = chunkCache V Kv) (hpage : server.pageSize = 1)
    (reachable : server.Reachable size mambaSize ⟨⟩ s) (locates : Locates kvSize t s)
    (hsome : t.scheduler.batch = some rids)
    (hok : server.runBatchLocated stops t rids = .ok t') :
    ∃ s', server.runBatch stops s rids = .ok s' ∧ Locates kvSize t' s' := by
  have hscheduled := locates.scheduled (Server.Reachable.sound reachable).toScheduled
  obtain ⟨view, rfl, hview⟩ := locates.rows
  have located := locates.batchLocated hscheduled hsome hview
  obtain ⟨res, scheduler, freeGroup, hres, hprocess, rfl⟩ := runBatchLocated_ok hok
  have hloop : (rids.zip res.nextTokenIdsList).foldlM (server.located.processReq stops)
      (t.scheduler.afterRun rids (RunResult.located t.outCacheLoc res)) = .ok scheduler :=
    (processAllLocated_scheduler _ _).trans (congrArg (Except.map Prod.fst) hprocess)
  obtain ⟨hrun, hbuffer⟩ := located.runBatch hcache hpage hres hloop
  obtain ⟨hqueues, hother⟩ := processAll_sameQueues hloop
  have hkept : ∀ r, r ∉ rids → scheduler.reqs r = t.scheduler.reqs r := by
    intro r hr
    rw [hother r (fun hkey => hr ((zip_keys_sublist rids _).subset hkey))]
    exact dif_neg hr
  refine ⟨_, hrun, ⟨_, rfl, ?_⟩, ?_, ?_, locates.merged.free freeGroup, ?_, ?_⟩
  · intro r hunfinished loc hloc
    change (scheduler.reqs r).finished = false at hunfinished
    change loc ∈ (scheduler.reqs r).reqToToken at hloc
    change (if r ∈ rids then res.runner.kvBuffer else view r) loc = res.runner.kvBuffer loc
    by_cases hr : r ∈ rids
    · rw [if_pos hr]
    · rw [hkept r hr] at hunfinished hloc
      rw [if_neg hr, hview r hunfinished loc hloc,
        hbuffer (locates.notMem_outCacheLoc hunfinished hloc)]
  · exact staged_run locates.staged hscheduled hsome hloop
      (Server.Reachable.contexts hcache (reachable.tail (.run stops hsome hrun)))
  · intro r hr
    change scheduler.nextRid ≤ r at hr
    rw [hqueues.nextRid] at hr
    change (scheduler.reqs r).reqToToken = []
    rw [hkept r (fun hmem => absurd (located.live r hmem).1 (Nat.not_lt.mpr hr))]
    exact locates.fresh r hr
  · change 0 = (scheduler.batch.getD []).length * B
    rw [hqueues.batch]
    exact (Nat.zero_mul B).symm
  · change (t.allocator.free freeGroup).available + 0 + scheduler.held = _
    rw [← locates.conserved, TokenToKVPoolAllocator.available_free, add_zero, add_assoc,
      add_assoc, located.held_run hprocess]

end Run

section Reachable

variable [Field K] [LinearOrder K] [ExpOps K] [TopK K] [NeZero V] [AddMonoid S] [AddMonoid Z]
  {server : Server PUnit L S Z Kv B V K} {t : LocatedState L S Z Kv B V}
  {size mambaSize kvSize : Nat} {needSort : Bool} {kvBuffer : Nat → Kv}

theorem Server.LocatedReachable.locates (hcache : server.treeCache = chunkCache V Kv)
    (hpage : server.pageSize = 1)
    (reachable : server.LocatedReachable size mambaSize kvSize needSort kvBuffer t) :
    ∃ s, server.Reachable size mambaSize ⟨⟩ s ∧ Locates kvSize t s := by
  induction reachable with
  | refl => exact ⟨_, .refl, .initial server size mambaSize kvSize needSort kvBuffer⟩
  | tail _ step ih =>
      obtain ⟨s, hs, locates⟩ := ih
      have hscheduled := (Reachable.sound hs).toScheduled
      cases step with
      | recv originInputIds hnone =>
          exact ⟨_, hs.tail (.recv originInputIds (locates.batch.trans hnone)),
            locates.recv server hscheduled hnone originInputIds⟩
      | getNextBatch budget hnone hok hwhole =>
          obtain ⟨s', hround, locates'⟩ :=
            locates.getNextBatch hcache hpage hscheduled hnone hok hwhole
          exact ⟨s', hs.tail (.getNextBatch _ (locates.batch.trans hnone) hround
            (locates'.wholeBlocks hwhole)), locates'⟩
      | run stops hsome hok =>
          obtain ⟨s', hrun, locates'⟩ := locates.run hcache hpage hs hsome hok
          exact ⟨s', hs.tail (.run stops (locates.batch.trans hsome) hrun), locates'⟩

end Reachable

namespace TwoBlocks

end TwoBlocks

end LladaHybrid.Serving
