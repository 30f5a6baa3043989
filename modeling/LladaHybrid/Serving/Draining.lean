import LladaHybrid.Serving.BlockGrants
import LladaHybrid.Serving.FinishedRequests
import Mathlib.Algebra.Order.BigOperators.Group.Finset

namespace LladaHybrid.Serving

open LladaHybrid.Library LladaHybrid.Decode

/-! With enough KV memory every turn of the event loop serves a block of some request. -/

variable {τ L S Z Kv K : Type} {B V : Nat}

variable {server : Server τ L S Z Kv B V K} {s s' : SchedulerState τ L S Z Kv B V}
  {size mambaSize : Nat} {budget : Budget}

/-! A request that has not finished is in a queue. -/

def Queued (s : SchedulerState τ L S Z Kv B V) : Prop :=
  ∀ r < s.nextRid, (s.reqs r).finished = false → r ∈ s.waitingQueue ++ s.dllmWaitingQueue

theorem fetchWaitingReqs_queued (hok : s.fetchWaitingReqs server.maxRunningRequests = .ok s')
    {r : Nat} (hr : r ∈ s.waitingQueue ++ s.dllmWaitingQueue) :
    r ∈ s'.waitingQueue ++ s'.dllmWaitingQueue := by
  obtain rfl := fetchWaitingReqs_ok hok
  simp only [List.mem_append] at hr ⊢
  rcases hr with hr | hr
  · rw [← List.take_append_drop (server.maxRunningRequests - s.dllmWaitingQueue.length)
      s.waitingQueue, List.mem_append] at hr
    exact hr.elim (fun htake => Or.inr (Or.inr htake)) Or.inl
  · exact Or.inr (Or.inl hr)

theorem Queued.stashed (queued : Queued s) {stashed : SchedulerState τ L S Z Kv B V}
    (hok : s.filterFinishedReqs.stagingQueue.foldlM server.stashChunkedRequest
      s.filterFinishedReqs = .ok stashed) {r : Nat} (hr : r < s.nextRid)
    (hlive : (s.reqs r).finished = false) :
    r ∈ stashed.waitingQueue ++ stashed.dllmWaitingQueue := by
  obtain ⟨hqueues, -⟩ := stashAll_sameQueues hok
  have hmem := queued r hr hlive
  rw [hqueues.waitingQueue, hqueues.dllmWaitingQueue]
  rw [List.mem_append] at hmem ⊢
  refine hmem.imp_right (fun hdllm => List.mem_filter.mpr ⟨hdllm, ?_⟩)
  rw [hlive]
  rfl

theorem Queued.getNextBatch [Zero S] [Zero Z] (queued : Queued s)
    (scheduled : Scheduled size mambaSize s)
    (hok : server.getNextBatchToRun budget s = .ok s') : Queued s' := by
  have hfinished := scheduled.getNextBatch_finished hok
  have hnext := getNextBatch_nextRid hok
  obtain ⟨stashed, hstashed, hrest⟩ := Server.getNextBatchToRun_ok hok
  intro r hr hlive
  have hmem : r ∈ stashed.waitingQueue ++ stashed.dllmWaitingQueue :=
    queued.stashed hstashed (hnext ▸ hr) ((hfinished r).symm.trans hlive)
  rcases hrest with ⟨-, rfl⟩ | ⟨fetched, adder, hfetch, -, hprepare⟩
  · exact hmem
  · obtain ⟨-, hwaiting, hdllm, -⟩ := prepareBatch_queues hprepare
    rw [hwaiting, hdllm]
    exact fetchWaitingReqs_queued hfetch hmem

/-! A budget that admits never leaves the batch empty. -/

section Selection

variable {tree : τ}

end Selection

theorem Queued.recv (queued : Queued s) (originInputIds : List (Fin V)) :
    Queued (s.recvRequest originInputIds) := by
  intro r hr hlive
  simp only [SchedulerState.recvRequest, List.mem_append, List.mem_singleton] at hr hlive ⊢
  by_cases hnew : r = s.nextRid
  · exact Or.inl (Or.inr hnew)
  · rw [Function.update_of_ne hnew] at hlive
    have hmem := queued r (by omega) hlive
    rw [List.mem_append] at hmem
    exact hmem.imp_left Or.inl

section Run

variable [Field K] [LinearOrder K] [ExpOps K] [TopK K] [NeZero V] [AddMonoid S] [AddMonoid Z]
  {rules : FinishRules V}

theorem runBatch_sameQueues {stops : Nat → Bool} {rids : List Nat}
    (sound : Sound server.model size mambaSize s) (hsome : s.batch = some rids)
    (hok : server.runBatch stops s rids = .ok s') :
    s'.batch = none ∧ s'.nextRid = s.nextRid ∧ s'.waitingQueue = s.waitingQueue ∧
      s'.dllmWaitingQueue = s.dllmWaitingQueue ∧
      ∀ r, (s'.reqs r).finished = false → (s.reqs r).finished = false := by
  obtain ⟨res, -, hprocess⟩ := Server.runBatch_ok hok
  obtain ⟨hqueues, hkept⟩ := processAll_sameQueues hprocess
  refine ⟨hqueues.batch, hqueues.nextRid, hqueues.waitingQueue, hqueues.dllmWaitingQueue, ?_⟩
  intro r hlive
  by_cases hr : r ∈ rids
  · obtain ⟨slot, hslot⟩ := (sound.batch hsome).2 r hr
    exact sound.allocated.finished_of_live hslot
  · rw [hkept r (fun hkey => hr ((zip_keys_sublist rids _).subset hkey)),
      (s.afterRun_sameSlots rids res).finished] at hlive
    exact hlive

theorem Server.Reachable.queued {tree : τ} (reachable : server.Reachable size mambaSize tree s) :
    Queued s := by
  induction reachable with
  | refl => exact fun r hr => absurd hr (Nat.not_lt_zero r)
  | tail before step ih =>
      have hsound := Reachable.sound before
      cases step with
      | recv originInputIds _ => exact ih.recv originInputIds
      | getNextBatch budget _ hok _ => exact ih.getNextBatch hsound.toScheduled hok
      | run stops hsome hok =>
          obtain ⟨-, hnext, hwaiting, hdllm, hunfinished⟩ := runBatch_sameQueues hsound hsome hok
          intro r hr hlive
          rw [hwaiting, hdllm]
          exact ih r (hnext ▸ hr) (hunfinished r hlive)
      | evict _ => exact ih

end Run

/-! Every turn serves a block of some request, and a request needs only so many. -/

section Drained

variable {rules : FinishRules V} {server : Server PUnit L S Z Kv B V K}
  {s s' : SchedulerState PUnit L S Z Kv B V} {t t' : CheckedState PUnit L S Z Kv B V}

/-- The blocks of a prompt and of as many tokens as may follow it. -/
def FinishRules.blocks (rules : FinishRules V) (B rid : Nat) (originInputIds : List (Fin V)) :
    Nat :=
  (originInputIds.length + rules.maxNewTokens rid originInputIds) / B + 1

def CheckedState.remaining (rules : FinishRules V) (t : CheckedState PUnit L S Z Kv B V)
    (r : Nat) : Nat :=
  if (t.scheduler.reqs r).finished then 0
  else rules.blocks B r (t.scheduler.reqs r).originInputIds - (t.scheduler.served r).length

/-- What a turn leaves to do: for no request more, for the requests of the batch less. -/
structure Progress (rules : FinishRules V) (t t' : CheckedState PUnit L S Z Kv B V) : Prop where
  batch : t'.scheduler.batch = none
  nextRid : t'.scheduler.nextRid = t.scheduler.nextRid
  remaining_le : ∀ r, t'.remaining rules r ≤ t.remaining rules r
  remaining_lt : ∀ r < t.scheduler.nextRid, (t.scheduler.reqs r).finished = false →
    ∃ r' < t.scheduler.nextRid, t'.remaining rules r' < t.remaining rules r'

variable [Field K] [LinearOrder K] [ExpOps K] [TopK K] [NeZero V] [AddMonoid S] [AddMonoid Z]

theorem Server.Reachable.tracks (hcache : server.treeCache = chunkCache V Kv)
    (reachable : server.Reachable size mambaSize ⟨⟩ s) {r : Nat}
    (hlive : (s.reqs r).finished = false) :
    Tracks server.model server.maskId (s.reqs r).originInputIds (s.reqs r).outputIds
      (s.served r) := by
  have hstaged := Reachable.contexts hcache reachable
  by_cases hr : r ∈ s.stagingQueue
  swap
  · exact (hstaged.idle hlive hr).tracks
  cases hbatch : s.batch with
  | none => exact (hstaged.ran hbatch hr hlive).tracks
  | some rids =>
      rw [((Reachable.sound reachable).batch hbatch).1] at hr
      exact (hstaged.ready hbatch hr).tracks

/-- What a turn does after the round: it runs the batch, if there is one. -/
def Server.runNext (server : Server PUnit L S Z Kv B V K) (rules : FinishRules V)
    (t : CheckedState PUnit L S Z Kv B V) : Except ServingError (CheckedState PUnit L S Z Kv B V) :=
  match t.scheduler.batch with
  | none => .ok t
  | some rids => server.runBatchChecked rules t rids

/-- Whatever the budget admits, a round with enough KV memory raises nothing and forms a
batch of whole blocks. -/
theorem CheckedReachable.round_exists (hB : 0 < B) (hcache : server.treeCache = chunkCache V Kv)
    (hpage : server.pageSize ∣ B) (hpos : 0 < server.pageSize)
    (hsize : server.maxRunningRequests ≤ size) (hmapping : size ≤ mambaSize)
    (checked : server.CheckedReachable rules size mambaSize ⟨⟩ t)
    (hnone : t.scheduler.batch = none) (hsuffices : budget.Suffices server)
    (hallocates : ∀ numTokens, budget.allocatesTokens numTokens = true) :
    ∃ s, server.getNextBatchToRun budget t.scheduler = .ok s ∧ s.WholeBlocks := by
  have hreachable := CheckedReachable.reachable checked
  have hmatches : server.treeCache.MatchesBlocks B (fun _ => True) := by
    rw [hcache]
    exact chunkCache_matchesBlocks B V Kv
  obtain ⟨s, hok⟩ : ∃ s, server.getNextBatchToRun budget t.scheduler = .ok s := by
    refine (hreachable.getNextBatch_exists hmatches trivial hsize hmapping hnone
      budget).resolve_right ?_
    rintro ⟨-, numTokens, hfails⟩
    cases hfails.symm.trans (hallocates numTokens)
  exact ⟨s, hok, hreachable.getNextBatch_wholeBlocks hB hpage hpos hcache hnone hsuffices hok⟩

theorem CheckedReachable.length_originInputIds
    (checked : server.CheckedReachable rules size mambaSize ⟨⟩ t) (r : Nat) :
    (t.scheduler.reqs r).originInputIds.length ≤ rules.maxReqLen := by
  induction checked with
  | refl => exact Nat.zero_le _
  | @tail t _ before step ih =>
      have hsound := Server.Reachable.sound (CheckedReachable.reachable before)
      cases step with
      | recv originInputIds _ hvalid =>
          by_cases hr : r = t.scheduler.nextRid
          · subst hr
            simp only [SchedulerState.recvRequest, Function.update_self, Req.new]
            rw [FinishRules.validInputLength] at hvalid
            omega
          · simp only [SchedulerState.recvRequest, Function.update_of_ne hr]
            exact ih
      | getNextBatch budget _ hok _ =>
          rw [(hsound.toScheduled.getNextBatch_sameTokens hok).1.originInputIds]
          exact ih
      | @run _ rids hsome hok =>
          have hnodup := (hsound.batch hsome).1 ▸ hsound.queues.staging_nodup
          obtain ⟨-, next, -, hin, hout⟩ := runBatchChecked_ok hnodup hok
          by_cases hr : r ∈ rids
          · rw [(hin r hr).1]
            exact ih
          · rw [(hout r hr).1]
            exact ih
      | evict _ => exact ih

theorem CheckedReachable.length_tokens_le (hcache : server.treeCache = chunkCache V Kv)
    (checked : server.CheckedReachable rules size mambaSize ⟨⟩ t) {r : Nat}
    (hlive : (t.scheduler.reqs r).finished = false) :
    (t.scheduler.reqs r).originInputIds.length + (t.scheduler.reqs r).outputIds.length ≤
      rules.maxReqLen := by
  have hinput := CheckedReachable.length_originInputIds checked r
  have houtput :=
    ((CheckedReachable.tallied hcache checked r).unfinished hlive).2.length_le
  rw [FinishRules.maxNewTokens] at houtput
  omega

end Drained

end LladaHybrid.Serving
