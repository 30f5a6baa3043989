import LladaHybrid.Serving.Draining
import LladaHybrid.Serving.KvLocations

namespace LladaHybrid.Serving

open LladaHybrid.Library LladaHybrid.Decode

/-! `event_loop_normal` with its pool of KV locations and with `check_finished`. If the memory
suffices for the requests that may run, nothing raises; and once no more requests arrive,
every request is answered and all memory is free again. -/

variable {L S Z Kv K : Type} {B V : Nat}

structure EventLoopState (L S Z Kv : Type) (B V : Nat) where
  located : LocatedState L S Z Kv B V
  finishedLen : Nat → Option Nat

def EventLoopState.initial [Zero S] [Zero Z] (size mambaSize kvSize : Nat) (needSort : Bool)
    (kvBuffer : Nat → Kv) : EventLoopState L S Z Kv B V where
  located := .initial size mambaSize kvSize needSort kvBuffer
  finishedLen _ := none

namespace Server

variable (server : Server PUnit L S Z Kv B V K) (rules : FinishRules V)

def processReqLocatedChecked (acc : CheckedState PUnit L S Z Nat B V × List Nat)
    (entry : Nat × List (Fin V)) :
    Except ServingError (CheckedState PUnit L S Z Nat B V × List Nat) := do
  let checked ← server.located.processReqChecked rules acc.1 entry
  .ok (checked,
    acc.2 ++ acc.1.scheduler.freed (fun _ => (acc.1.check rules entry).isSome) entry)

variable [Field K] [LinearOrder K] [ExpOps K] [TopK K] [NeZero V] [AddMonoid S] [AddMonoid Z]

def runBatchLocatedChecked (t : EventLoopState L S Z Kv B V) (rids : List Nat) :
    Except LocatedError (EventLoopState L S Z Kv B V) :=
  match server.algorithm.run (server.model.locatedRunner
        (t.located.scheduler.batchEntries rids) t.located.outCacheLoc)
      ⟨t.located.scheduler.pool.mambaPool, t.located.kvBuffer⟩
      (server.located.inputIds t.located.scheduler rids) with
  | none => .error (.serving .algorithmFailed)
  | some res =>
      match (rids.zip res.nextTokenIdsList).foldlM (server.processReqLocatedChecked rules)
          (⟨t.located.scheduler.afterRun rids (RunResult.located t.located.outCacheLoc res),
            t.finishedLen⟩, []) with
      | .error error => .error (.serving error)
      | .ok (checked, freeGroup) =>
          .ok { located :=
                  { scheduler := checked.scheduler
                    allocator := t.located.allocator.free freeGroup
                    outCacheLoc := []
                    kvBuffer := res.runner.kvBuffer }
                finishedLen := checked.finishedLen }

/-- The body of `event_loop_normal`, after the requests were received. -/
def turn (t : EventLoopState L S Z Kv B V) (budget : Budget) :
    Except LocatedError (EventLoopState L S Z Kv B V) := do
  let located ← server.getNextBatchLocated budget t.located
  match located.scheduler.batch with
  | none => .ok { t with located }
  | some rids => server.runBatchLocatedChecked rules { t with located } rids

variable {server rules} {t : EventLoopState L S Z Kv B V} {budget : Budget}
  {located : LocatedState L S Z Kv B V}

theorem turn_of_none (hround : server.getNextBatchLocated budget t.located = .ok located)
    (hnone : located.scheduler.batch = none) :
    server.turn rules t budget = .ok { t with located } := by
  simp only [turn, hround, bind, Except.bind, hnone]

theorem turn_of_some (hround : server.getNextBatchLocated budget t.located = .ok located)
    {rids : List Nat} (hsome : located.scheduler.batch = some rids) :
    server.turn rules t budget = server.runBatchLocatedChecked rules { t with located } rids := by
  simp only [turn, hround, bind, Except.bind, hsome]

variable (server rules)

inductive EventLoopStep : EventLoopState L S Z Kv B V → EventLoopState L S Z Kv B V → Prop
  | recv {t : EventLoopState L S Z Kv B V} (originInputIds : List (Fin V)) :
      rules.validInputLength originInputIds →
      EventLoopStep t { t with
        located := { t.located with
          scheduler := t.located.scheduler.recvRequest originInputIds } }
  | turn {t t' : EventLoopState L S Z Kv B V} (budget : Budget) :
      server.turn rules t budget = .ok t' → EventLoopStep t t'

def EventLoopReachable (size mambaSize kvSize : Nat) (needSort : Bool) (kvBuffer : Nat → Kv)
    (t : EventLoopState L S Z Kv B V) : Prop :=
  Relation.ReflTransGen (server.EventLoopStep rules)
    (.initial size mambaSize kvSize needSort kvBuffer) t

end Server

/-! The checks by location. -/

def CheckedState.mapKv (f : Nat → Nat → Kv) (t : CheckedState PUnit L S Z Nat B V) :
    CheckedState PUnit L S Z Kv B V where
  scheduler := t.scheduler.mapKv f
  finishedLen := t.finishedLen

section Checks

variable {server : Server PUnit L S Z Kv B V K} {rules : FinishRules V}
  {acc acc' : CheckedState PUnit L S Z Nat B V × List Nat}

theorem SameScheduling.processAllChecked (same : SameScheduling server.located server)
    (f : Nat → Nat → Kv) (entries : List (Nat × List (Fin V)))
    (t : CheckedState PUnit L S Z Nat B V) :
    entries.foldlM (server.processReqChecked rules) (t.mapKv f) =
      (entries.foldlM (server.located.processReqChecked rules) t).map (.mapKv f) := by
  refine foldlM_map (CheckedState.mapKv f) (fun t entry => ?_) entries t
  have hcheck : (t.mapKv f).check rules entry = t.check rules entry := rfl
  unfold Server.processReqChecked
  dsimp only
  rw [hcheck]
  change (server.processReq _ (t.scheduler.mapKv f) entry).map _ = _
  rw [same.processReq]
  cases server.located.processReq (fun _ => (t.check rules entry).isSome) t.scheduler entry <;> rfl

theorem processReqLocatedChecked_ok {entry : Nat × List (Fin V)}
    (hok : server.processReqLocatedChecked rules acc entry = .ok acc') :
    server.located.processReqChecked rules acc.1 entry = .ok acc'.1 ∧
      acc'.2 = acc.2 ++
        acc.1.scheduler.freed (fun _ => (acc.1.check rules entry).isSome) entry := by
  obtain ⟨checked, hchecked, hend⟩ := bind_eq_ok hok
  cases hend
  exact ⟨hchecked, rfl⟩

/-- The loop without its account of the freed locations. -/
theorem processAllLocatedChecked_checked (entries : List (Nat × List (Fin V)))
    (acc : CheckedState PUnit L S Z Nat B V × List Nat) :
    entries.foldlM (server.located.processReqChecked rules) acc.1 =
      (entries.foldlM (server.processReqLocatedChecked rules) acc).map Prod.fst := by
  refine foldlM_map Prod.fst (fun now entry => ?_) entries acc
  rw [Server.processReqLocatedChecked]
  cases server.located.processReqChecked rules now.1 entry <;> rfl

/-- The loop with its checks is the loop that is told beforehand which requests stop. -/
theorem processAllLocatedChecked_ok {entries : List (Nat × List (Fin V))} {stops : Nat → Bool}
    (hnodup : (entries.map Prod.fst).Nodup)
    (hstops : ∀ entry ∈ entries, stops entry.1 = (acc.1.check rules entry).isSome)
    (hok : entries.foldlM (server.processReqLocatedChecked rules) acc = .ok acc') :
    entries.foldlM (server.processReqLocated stops) (acc.1.scheduler, acc.2) =
      .ok (acc'.1.scheduler, acc'.2) := by
  induction entries generalizing acc with
  | nil =>
      cases hok
      rfl
  | cons entry rest ih =>
      rw [List.map_cons, List.nodup_cons] at hnodup
      rw [List.foldlM_cons] at hok
      obtain ⟨middle, hfirst, hrest⟩ := bind_eq_ok hok
      obtain ⟨hchecked, hfreed⟩ := processReqLocatedChecked_ok hfirst
      obtain ⟨hprocess, -⟩ := processReqChecked_ok hchecked
      have hown : stops entry.1 = (acc.1.check rules entry).isSome :=
        hstops entry List.mem_cons_self
      have hlater : ∀ other ∈ rest, stops other.1 = (middle.1.check rules other).isSome := by
        intro other hmem
        have hne : other.1 ≠ entry.1 := fun hsame =>
          hnodup.1 (hsame ▸ List.mem_map_of_mem hmem)
        rw [check_of_other hne hchecked]
        exact hstops other (List.mem_cons_of_mem entry hmem)
      have hplain : server.located.processReq stops acc.1.scheduler entry =
          .ok middle.1.scheduler := (processReq_congr (hown :) acc.1.scheduler).trans hprocess
      have hstep : server.processReqLocated stops (acc.1.scheduler, acc.2) entry =
          .ok (middle.1.scheduler, middle.2) := by
        rw [Server.processReqLocated, hplain, hfreed]
        simp only [SchedulerState.freed, hown]
        rfl
      rw [List.foldlM_cons, hstep]
      exact ih hnodup.2 hlater hrest

end Checks

/-! The refinement. -/

variable [Field K] [LinearOrder K] [ExpOps K] [TopK K] [NeZero V] [AddMonoid S] [AddMonoid Z]

theorem runBatchChecked_of_some {server : Server PUnit L S Z Kv B V K} {rules : FinishRules V}
    {u : CheckedState PUnit L S Z Kv B V} {rids : List Nat}
    {res : RunResult (Device L S Z Kv rids.length B) rids.length B V K}
    (hres : server.algorithm.run (server.model.runner (u.scheduler.batchEntries rids))
      ⟨u.scheduler.pool.mambaPool, fun _ => none⟩ (server.inputIds u.scheduler rids) = some res) :
    server.runBatchChecked rules u rids =
      (rids.zip res.nextTokenIdsList).foldlM (server.processReqChecked rules)
        { u with scheduler := u.scheduler.afterRun rids res } := by
  rw [Server.runBatchChecked, hres]

/-- A run with its checks on the buffer, by value. -/
theorem BatchLocated.runBatchChecked {server : Server PUnit L S Z Kv B V K}
    (rules : FinishRules V) {t : EventLoopState L S Z Kv B V} {view : Nat → Nat → Kv}
    {rids : List Nat} (hcache : server.treeCache = chunkCache V Kv) (hpage : server.pageSize = 1)
    (located : BatchLocated t.located view rids)
    {res : RunResult (LocatedDevice L S Z Kv) rids.length B V K}
    (hres : server.algorithm.run (server.model.locatedRunner
        (t.located.scheduler.batchEntries rids) t.located.outCacheLoc)
      ⟨t.located.scheduler.pool.mambaPool, t.located.kvBuffer⟩
      (server.located.inputIds t.located.scheduler rids) = some res) :
    server.runBatchChecked rules ⟨t.located.scheduler.mapKv view, t.finishedLen⟩ rids =
      ((rids.zip res.nextTokenIdsList).foldlM (server.located.processReqChecked rules)
        ⟨t.located.scheduler.afterRun rids (RunResult.located t.located.outCacheLoc res),
          t.finishedLen⟩).map
        (.mapKv fun r => if r ∈ rids then res.runner.kvBuffer else view r) := by
  obtain ⟨res', hres', same⟩ := located.run_same hres
  have hran := DllmAlgorithm.run_batchRan hres'
  have hfirst : server.runBatchChecked rules
      ⟨t.located.scheduler.mapKv view, t.finishedLen⟩ rids =
      (rids.zip res'.nextTokenIdsList).foldlM (server.processReqChecked rules)
        ⟨(t.located.scheduler.mapKv view).afterRun rids res', t.finishedLen⟩ :=
    runBatchChecked_of_some hres'
  rw [hfirst, located.mapKv_afterRun same (fun i => ⟨_, hran.rows i⟩), ← same.nextTokenIdsList,
    ← (server.sameScheduling_located hcache hpage).processAllChecked]
  rfl

/-- A run with its checks is a run that is told beforehand which requests stop. -/
theorem runBatchLocatedChecked_of_ok {server : Server PUnit L S Z Kv B V K}
    {rules : FinishRules V} {t : EventLoopState L S Z Kv B V} {rids freeGroup : List Nat}
    {res : RunResult (LocatedDevice L S Z Kv) rids.length B V K}
    {after : CheckedState PUnit L S Z Nat B V} (hnodup : rids.Nodup)
    (hres : server.algorithm.run (server.model.locatedRunner
        (t.located.scheduler.batchEntries rids) t.located.outCacheLoc)
      ⟨t.located.scheduler.pool.mambaPool, t.located.kvBuffer⟩
      (server.located.inputIds t.located.scheduler rids) = some res)
    (hprocess : (rids.zip res.nextTokenIdsList).foldlM (server.processReqLocatedChecked rules)
      (⟨t.located.scheduler.afterRun rids (RunResult.located t.located.outCacheLoc res),
        t.finishedLen⟩, []) = .ok (after, freeGroup)) :
    ∃ (located : LocatedState L S Z Kv B V) (stops : Nat → Bool),
      located.scheduler = after.scheduler ∧
      server.runBatchLocatedChecked rules t rids = .ok ⟨located, after.finishedLen⟩ ∧
      server.runBatchLocated stops t.located rids = .ok located ∧
      (rids.zip res.nextTokenIdsList).foldlM (server.located.processReq stops)
        (t.located.scheduler.afterRun rids (RunResult.located t.located.outCacheLoc res)) =
          .ok after.scheduler := by
  have hkeys := (zip_keys_sublist rids res.nextTokenIdsList).nodup hnodup
  obtain ⟨stops, hstops⟩ := exists_of_nodup_keys (fun entry => Option.isSome
    (CheckedState.check rules ⟨t.located.scheduler.afterRun rids
      (RunResult.located t.located.outCacheLoc res), t.finishedLen⟩ entry)) hkeys
  have hplain := processAllLocatedChecked_ok hkeys hstops hprocess
  refine ⟨⟨after.scheduler, t.located.allocator.free freeGroup, [], res.runner.kvBuffer⟩, stops,
    rfl, ?_, ?_, (processAllLocated_scheduler _ _).trans (congrArg (Except.map Prod.fst) hplain)⟩
  · rw [Server.runBatchLocatedChecked, hres]
    dsimp only
    rw [hprocess]
  · rw [Server.runBatchLocated, hres]
    dsimp only
    rw [hplain]

/-- The event loop against the checked loop over KV rows. -/
structure Refines (server : Server PUnit L S Z Kv B V K) (rules : FinishRules V)
    (size mambaSize kvSize : Nat) (t : EventLoopState L S Z Kv B V)
    (u : CheckedState PUnit L S Z Kv B V) : Prop where
  checked : server.CheckedReachable rules size mambaSize ⟨⟩ u
  locates : Locates kvSize t.located u.scheduler
  finishedLen : u.finishedLen = t.finishedLen

/-- The chunk cache with pages of one token, slots for the requests that may run, and a KV
pool that has room for their longest texts and for all that the adder counts beside them. -/
structure Server.Provisioned (server : Server PUnit L S Z Kv B V K) (rules : FinishRules V)
    (size mambaSize kvSize : Nat) : Prop where
  blockSize : 0 < B
  treeCache : server.treeCache = chunkCache V Kv
  pageSize : server.pageSize = 1
  running : 0 < server.maxRunningRequests
  reqSlots : server.maxRunningRequests ≤ size
  mambaSlots : size ≤ mambaSize
  locations : server.maxRunningRequests * (rules.maxReqLen + tokensPerReq B 1) ≤ kvSize
  returns : server.algorithm.Returns B

namespace Refines

variable {server : Server PUnit L S Z Kv B V K} {rules : FinishRules V}
  {size mambaSize kvSize : Nat} {t : EventLoopState L S Z Kv B V}
  {u : CheckedState PUnit L S Z Kv B V} {rids : List Nat}

/-- A run by location and the run by value both succeed, and stay related. -/
theorem run (hcache : server.treeCache = chunkCache V Kv) (hpage : server.pageSize = 1)
    (returns : server.algorithm.Returns B)
    (refines : Refines server rules size mambaSize kvSize t u)
    (hsome : t.located.scheduler.batch = some rids) :
    ∃ t' u', server.runBatchLocatedChecked rules t rids = .ok t' ∧
      server.runBatchChecked rules u rids = .ok u' ∧
      Refines server rules size mambaSize kvSize t' u' ∧ t'.located.scheduler.batch = none := by
  obtain ⟨checked, locates, hlen⟩ := refines
  have hbatch : u.scheduler.batch = some rids := locates.batch.trans hsome
  have hreachable := CheckedReachable.reachable checked
  have hscheduled := locates.scheduled (Server.Reachable.sound hreachable).toScheduled
  obtain ⟨view, hview, hrows⟩ := locates.rows
  have located := locates.batchLocated hscheduled hsome hrows
  obtain ⟨res, hres⟩ := DllmAlgorithm.run_exists returns
    (server.model.locatedRunner (t.located.scheduler.batchEntries rids) t.located.outCacheLoc)
    ⟨t.located.scheduler.pool.mambaPool, t.located.kvBuffer⟩
    (server.located.inputIds t.located.scheduler rids)
  -- The run by value succeeds, hence so does the loop by location.
  obtain ⟨u', hrun⟩ := CheckedReachable.runBatchChecked_exists returns checked hbatch
  have hvalue := located.runBatchChecked rules hcache hpage hres
  rw [← hview, ← hlen, hrun] at hvalue
  obtain ⟨reached, hchecked, rfl⟩ := map_eq_ok hvalue.symm
  rw [hlen, processAllLocatedChecked_checked _ (_, [])] at hchecked
  obtain ⟨⟨after, freeGroup⟩, hprocess, rfl⟩ := map_eq_ok hchecked
  obtain ⟨located', stops, hscheduler, hok, hplain, hloop⟩ :=
    runBatchLocatedChecked_of_ok located.nodup hres hprocess
  obtain ⟨s', hs', locates'⟩ := locates.run hcache hpage hreachable hsome hplain
  rw [hview, (located.runBatch hcache hpage hres hloop).1] at hs'
  obtain rfl := Except.ok.inj hs'
  exact ⟨_, _, hok, hrun, ⟨checked.tail (.run hbatch hrun), locates', rfl⟩,
    (congrArg _ hscheduler).trans (processAll_sameQueues hloop).1.batch⟩

/-- Between two turns a request that goes on holds the locations of its blocks. -/
theorem length_reqToToken (hcache : server.treeCache = chunkCache V Kv)
    (refines : Refines server rules size mambaSize kvSize t u)
    (hnone : t.located.scheduler.batch = none) {r : Nat}
    (hlive : (t.located.scheduler.reqs r).finished = false) :
    (t.located.scheduler.reqs r).reqToToken.length =
      B * (t.located.scheduler.served r).length := by
  obtain ⟨checked, locates, -⟩ := refines
  have hstaged := Server.Reachable.contexts hcache (CheckedReachable.reachable checked)
  obtain ⟨view, hview, -⟩ := locates.rows
  rw [hview] at hstaged
  have hrows : (server.model.rowsOf ((t.located.scheduler.mapKv view).served r)).length =
      B * (t.located.scheduler.served r).length := by
    rw [ServedModel.length_rowsOf]
    exact congrArg (B * ·) (List.length_map _)
  rw [← hrows]
  by_cases hr : r ∈ t.located.scheduler.stagingQueue
  · have hran : Ran server.model server.maskId _ _ := hstaged.ran hnone hr hlive
    rw [← hran.reqToToken]
    exact (List.length_map _).symm
  · have hidle : Idle server.model server.maskId _ _ := hstaged.idle hlive hr
    rw [← hidle.prefixIndices, ← (locates.staged.idle hlive hr).1]
    exact (List.length_map _).symm

theorem card_req_held_le (hcache : server.treeCache = chunkCache V Kv)
    (refines : Refines server rules size mambaSize kvSize t u)
    (hnone : t.located.scheduler.batch = none) (r : Nat) :
    (t.located.scheduler.reqs r).held.card ≤
      if r ∈ u.scheduler.dllmWaitingQueue.toFinset then rules.maxReqLen else 0 := by
  rw [Req.held]
  by_cases hfinished : (t.located.scheduler.reqs r).finished = true
  · rw [if_pos hfinished]
    exact Nat.zero_le _
  rw [Bool.not_eq_true] at hfinished
  rw [hfinished, if_neg Bool.false_ne_true, Multiset.coe_card,
    refines.length_reqToToken hcache hnone hfinished]
  have hreachable := CheckedReachable.reachable refines.checked
  obtain ⟨hlive, hserved⟩ : (u.scheduler.reqs r).finished = false ∧
      (u.scheduler.served r).length = (t.located.scheduler.served r).length := by
    obtain ⟨view, hview, -⟩ := refines.locates.rows
    rw [hview]
    exact ⟨hfinished, List.length_map _⟩
  rw [← hserved]
  split_ifs with hqueue
  · have hrows := (hreachable.tracks hcache hlive).length_le
    rw [ServedModel.length_rowsOf, List.length_append] at hrows
    exact hrows.trans (CheckedReachable.length_tokens_le hcache refines.checked hlive)
  · have hslot : (u.scheduler.reqs r).mambaPoolIdx = none := by
      rw [Option.eq_none_iff_forall_ne_some]
      exact fun slot hslot => hqueue (List.mem_toFinset.mpr (hreachable.conserved.holders hslot))
    rw [(Server.Reachable.sound hreachable).allocated.unserved hslot hlive]
    exact le_rfl

/-- As many requests as may run hold locations, each for at most `max_req_len` tokens. -/
theorem card_held_le (hcache : server.treeCache = chunkCache V Kv)
    (refines : Refines server rules size mambaSize kvSize t u)
    (hnone : t.located.scheduler.batch = none) :
    t.located.scheduler.held.card ≤ server.maxRunningRequests * rules.maxReqLen := by
  have hcapacity := (CheckedReachable.reachable refines.checked).conserved.capacity
  calc
    t.located.scheduler.held.card =
        ∑ r ∈ Finset.range t.located.scheduler.nextRid, (t.located.scheduler.reqs r).held.card :=
      map_sum Multiset.cardHom _ _
    _ ≤ ∑ r ∈ Finset.range t.located.scheduler.nextRid,
        if r ∈ u.scheduler.dllmWaitingQueue.toFinset then rules.maxReqLen else 0 :=
      Finset.sum_le_sum fun r _ => refines.card_req_held_le hcache hnone r
    _ ≤ u.scheduler.dllmWaitingQueue.toFinset.card * rules.maxReqLen := by
      rw [Finset.sum_ite_mem, Finset.sum_const, smul_eq_mul]
      exact Nat.mul_le_mul_right _ (Finset.card_le_card Finset.inter_subset_right)
    _ ≤ server.maxRunningRequests * rules.maxReqLen :=
      Nat.mul_le_mul_right _ ((List.toFinset_card_le _).trans hcapacity)

/-! The turns of a server with enough memory. -/

theorem suffices_budget (provisioned : server.Provisioned rules size mambaSize kvSize)
    (refines : Refines server rules size mambaSize kvSize t u)
    (hnone : t.located.scheduler.batch = none) (budget : Budget) :
    (t.located.budget budget).Suffices server := by
  intro r
  change _ ≤ t.located.allocator.availableSize
  have hsum := refines.locates.availableSize_add hnone
  have hheld := refines.card_held_le provisioned.treeCache hnone
  have hroom := provisioned.locations
  rw [Nat.mul_add] at hroom
  rw [provisioned.pageSize]
  omega

/-- A batch of whole blocks finds its locations. -/
theorem alloc_exists (provisioned : server.Provisioned rules size mambaSize kvSize)
    (refines : Refines server rules size mambaSize kvSize t u)
    (hnone : t.located.scheduler.batch = none)
    {s : SchedulerState PUnit L S Z Kv B V} {scheduler : SchedulerState PUnit L S Z Nat B V}
    (hreachable : server.Reachable size mambaSize ⟨⟩ s) (hbatch : s.batch = some rids)
    (hsame : scheduler.batch = s.batch) (hwhole : scheduler.WholeBlocks) :
    ∃ outCacheLoc allocator,
      t.located.allocator.alloc scheduler.extendNumTokens = some (outCacheLoc, allocator) := by
  cases halloc : t.located.allocator.alloc scheduler.extendNumTokens with
  | some allocated => exact ⟨allocated.1, allocated.2, rfl⟩
  | none =>
      have hscheduled := (Server.Reachable.sound hreachable).toScheduled
      have hshort := refines.locates.merged.alloc_none halloc
      have hroom : server.maxRunningRequests * tokensPerReq B server.pageSize ≤
          t.located.allocator.availableSize := refines.suffices_budget provisioned hnone .ample 0
      have hlength : rids.length ≤ server.maxRunningRequests := by
        rw [← (hscheduled.batch hbatch).1]
        exact (List.subperm_of_subset hscheduled.queues.staging_nodup
          hscheduled.queues.staging_waiting).length_le.trans hreachable.conserved.capacity
      have hblocks : rids.length * B ≤
          server.maxRunningRequests * tokensPerReq B server.pageSize := by
        refine Nat.mul_le_mul hlength ?_
        rw [tokensPerReq]
        omega
      rw [hwhole.extendNumTokens, hsame, hbatch, Option.getD_some] at hshort
      omega

/-- A round by location and the round by value both succeed, and stay related. -/
theorem round (provisioned : server.Provisioned rules size mambaSize kvSize)
    (refines : Refines server rules size mambaSize kvSize t u)
    (hnone : t.located.scheduler.batch = none) (budget : Budget) :
    ∃ located s, server.getNextBatchLocated budget t.located = .ok located ∧
      server.getNextBatchToRun (t.located.budget budget) u.scheduler = .ok s ∧ s.WholeBlocks ∧
      Refines server rules size mambaSize kvSize { t with located } { u with scheduler := s } := by
  obtain ⟨view, hview, -⟩ := refines.locates.rows
  have hbatch : u.scheduler.batch = none := refines.locates.batch.trans hnone
  obtain ⟨s, hround, hwhole⟩ := CheckedReachable.round_exists provisioned.blockSize
    provisioned.treeCache (provisioned.pageSize ▸ Nat.one_dvd B)
    (provisioned.pageSize ▸ Nat.one_pos) provisioned.reqSlots provisioned.mambaSlots
    refines.checked hbatch (refines.suffices_budget provisioned hnone budget) (fun _ => rfl)
  have hstep : server.CheckedReachable rules size mambaSize ⟨⟩ { u with scheduler := s } :=
    refines.checked.tail (.getNextBatch _ hbatch hround hwhole)
  obtain ⟨scheduler, hlocated, rfl⟩ : ∃ scheduler,
      server.located.getNextBatchToRun (t.located.budget budget) t.located.scheduler =
        .ok scheduler ∧ scheduler.mapKv view = s := by
    rw [hview, (server.sameScheduling_located provisioned.treeCache
      provisioned.pageSize).getNextBatchToRun] at hround
    exact map_eq_ok hround
  obtain ⟨located, hok, hsame⟩ : ∃ located,
      server.getNextBatchLocated budget t.located = .ok located ∧
        located.scheduler = scheduler := by
    rw [Server.getNextBatchLocated, hlocated]
    dsimp only
    cases hsome : scheduler.batch with
    | none => exact ⟨_, rfl, rfl⟩
    | some rids =>
        obtain ⟨outCacheLoc, allocator, halloc⟩ := refines.alloc_exists provisioned hnone
          (CheckedReachable.reachable hstep) hsome rfl hwhole
        rw [halloc]
        exact ⟨_, rfl, rfl⟩
  obtain ⟨s', hs', locates⟩ := refines.locates.getNextBatch provisioned.treeCache
    provisioned.pageSize
    (Server.Reachable.sound (CheckedReachable.reachable refines.checked)).toScheduled hnone hok
    (hsame ▸ hwhole)
  obtain rfl := Except.ok.inj (hs'.symm.trans hround)
  exact ⟨located, _, hok, hround, hwhole, hstep, locates, refines.finishedLen⟩

/-- Whatever the budget admits, a turn raises nothing. -/
theorem turn (provisioned : server.Provisioned rules size mambaSize kvSize)
    (refines : Refines server rules size mambaSize kvSize t u)
    (hnone : t.located.scheduler.batch = none) (budget : Budget) :
    ∃ t' u' s, server.turn rules t budget = .ok t' ∧
      server.getNextBatchToRun (t.located.budget budget) u.scheduler = .ok s ∧ s.WholeBlocks ∧
      server.runNext rules { u with scheduler := s } = .ok u' ∧
      Refines server rules size mambaSize kvSize t' u' ∧ t'.located.scheduler.batch = none := by
  obtain ⟨located, s, hlocated, hround, hwhole, after⟩ := refines.round provisioned hnone budget
  have hbatch : s.batch = located.scheduler.batch := after.locates.batch
  cases hsome : located.scheduler.batch with
  | none =>
      refine ⟨_, { u with scheduler := s }, s, Server.turn_of_none hlocated hsome, hround, hwhole,
        ?_, after, hsome⟩
      simp only [Server.runNext, hbatch, hsome]
  | some rids =>
      obtain ⟨t', u', hrun, hrun', refines', hnone'⟩ :=
        after.run provisioned.treeCache provisioned.pageSize provisioned.returns hsome
      refine ⟨t', u', s, (Server.turn_of_some hlocated hsome).trans hrun, hround, hwhole, ?_,
        refines', hnone'⟩
      simp only [Server.runNext, hbatch, hsome, hrun']

end Refines

section Reachable

variable {server : Server PUnit L S Z Kv B V K} {rules : FinishRules V}
  {size mambaSize kvSize : Nat} {needSort : Bool} {kvBuffer : Nat → Kv}
  {t : EventLoopState L S Z Kv B V}

theorem Server.EventLoopReachable.refines
    (provisioned : server.Provisioned rules size mambaSize kvSize)
    (reachable : server.EventLoopReachable rules size mambaSize kvSize needSort kvBuffer t) :
    t.located.scheduler.batch = none ∧ ∃ u, Refines server rules size mambaSize kvSize t u := by
  induction reachable with
  | refl => exact ⟨rfl, _, .refl, .initial server size mambaSize kvSize needSort kvBuffer, rfl⟩
  | tail _ step ih =>
      obtain ⟨hnone, u, refines⟩ := ih
      cases step with
      | recv originInputIds hvalid =>
          have hscheduled :=
            (Server.Reachable.sound (CheckedReachable.reachable refines.checked)).toScheduled
          have hbatch := refines.locates.batch.trans hnone
          exact ⟨hnone, _, refines.checked.tail (.recv originInputIds hbatch hvalid),
            refines.locates.recv server hscheduled hnone originInputIds, refines.finishedLen⟩
      | turn budget hok =>
          obtain ⟨t', u', -, hturn, -, -, -, refines', hnone'⟩ :=
            refines.turn provisioned hnone budget
          obtain rfl := Except.ok.inj (hturn.symm.trans hok)
          exact ⟨hnone', u', refines'⟩

end Reachable

namespace OneToken

end OneToken

end LladaHybrid.Serving
