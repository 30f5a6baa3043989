import LladaHybrid.Serving.BatchSelection

namespace LladaHybrid.Serving

open LladaHybrid.Library LladaHybrid.Decode

/-! The queues of the scheduler and the slots of its requests, for any tree cache and
whatever the forwards compute. -/

variable {τ L S Z Kv K : Type} {B V : Nat}

structure Queues (s : SchedulerState τ L S Z Kv B V) : Prop where
  nodup : (s.waitingQueue ++ s.dllmWaitingQueue).Nodup
  arrived : ∀ r ∈ s.waitingQueue ++ s.dllmWaitingQueue, r < s.nextRid
  staging_nodup : s.stagingQueue.Nodup
  staging_waiting : ∀ r ∈ s.stagingQueue, r ∈ s.dllmWaitingQueue
  waiting_unfinished : ∀ r ∈ s.waitingQueue, (s.reqs r).finished = false
  fresh : ∀ r, s.nextRid ≤ r → (s.reqs r).reqPoolIdx = none ∧
    (s.reqs r).mambaPoolIdx = none ∧ (s.reqs r).finished = false

/-- Steps that move requests through the pools leave the queues and the history. -/
structure SameQueues (s s' : SchedulerState τ L S Z Kv B V) : Prop where
  nextRid : s'.nextRid = s.nextRid
  waitingQueue : s'.waitingQueue = s.waitingQueue
  dllmWaitingQueue : s'.dllmWaitingQueue = s.dllmWaitingQueue
  stagingQueue : s'.stagingQueue = s.stagingQueue
  batch : s'.batch = s.batch
  served : s'.served = s.served

namespace SameQueues

variable {s s' s'' : SchedulerState τ L S Z Kv B V}

theorem refl (s : SchedulerState τ L S Z Kv B V) : SameQueues s s :=
  ⟨rfl, rfl, rfl, rfl, rfl, rfl⟩

theorem trans (first : SameQueues s s') (second : SameQueues s' s'') : SameQueues s s'' where
  nextRid := second.nextRid.trans first.nextRid
  waitingQueue := second.waitingQueue.trans first.waitingQueue
  dllmWaitingQueue := second.dllmWaitingQueue.trans first.dllmWaitingQueue
  stagingQueue := second.stagingQueue.trans first.stagingQueue
  batch := second.batch.trans first.batch
  served := second.served.trans first.served

end SameQueues

namespace Queues

variable {s s' : SchedulerState τ L S Z Kv B V}

theorem initial [Zero S] [Zero Z] (size mambaSize : Nat) (tree : τ) :
    Queues (.initial size mambaSize tree : SchedulerState τ L S Z Kv B V) where
  nodup := List.nodup_nil
  arrived r hr := by cases hr
  staging_nodup := List.nodup_nil
  staging_waiting r hr := by cases hr
  waiting_unfinished r hr := by cases hr
  fresh _ _ := ⟨rfl, rfl, rfl⟩

theorem congr (queues : Queues s) (same : SameQueues s s')
    (hwaiting : ∀ r ∈ s.waitingQueue, (s'.reqs r).finished = (s.reqs r).finished)
    (hfresh : ∀ r, s.nextRid ≤ r → (s'.reqs r).reqPoolIdx = (s.reqs r).reqPoolIdx ∧
      (s'.reqs r).mambaPoolIdx = (s.reqs r).mambaPoolIdx ∧
      (s'.reqs r).finished = (s.reqs r).finished) : Queues s' where
  nodup := by
    rw [same.waitingQueue, same.dllmWaitingQueue]
    exact queues.nodup
  arrived := by
    rw [same.waitingQueue, same.dllmWaitingQueue, same.nextRid]
    exact queues.arrived
  staging_nodup := by
    rw [same.stagingQueue]
    exact queues.staging_nodup
  staging_waiting := by
    rw [same.stagingQueue, same.dllmWaitingQueue]
    exact queues.staging_waiting
  waiting_unfinished r hr := by
    rw [same.waitingQueue] at hr
    rw [hwaiting r hr]
    exact queues.waiting_unfinished r hr
  fresh r hr := by
    rw [same.nextRid] at hr
    obtain ⟨hreq, hmamba, hfinished⟩ := hfresh r hr
    rw [hreq, hmamba, hfinished]
    exact queues.fresh r hr

theorem congr_slots (queues : Queues s) (same : SameQueues s s')
    (slots : SameSlots s.reqs s'.reqs) : Queues s' :=
  queues.congr same (fun r _ => slots.finished r)
    (fun r _ => ⟨slots.reqPoolIdx r, slots.mambaPoolIdx r, slots.finished r⟩)

theorem restage (queues : Queues s) (slots : SameSlots s.reqs s'.reqs)
    (hnext : s'.nextRid = s.nextRid) (hwaiting : s'.waitingQueue = s.waitingQueue)
    (hdllm : s'.dllmWaitingQueue = s.dllmWaitingQueue) (hnodup : s'.stagingQueue.Nodup)
    (hstaging : ∀ r ∈ s'.stagingQueue, r ∈ s.dllmWaitingQueue) : Queues s' where
  nodup := by
    rw [hwaiting, hdllm]
    exact queues.nodup
  arrived := by
    rw [hwaiting, hdllm, hnext]
    exact queues.arrived
  staging_nodup := hnodup
  staging_waiting := by
    rw [hdllm]
    exact hstaging
  waiting_unfinished r hr := by
    rw [hwaiting] at hr
    rw [slots.finished]
    exact queues.waiting_unfinished r hr
  fresh r hr := by
    rw [hnext] at hr
    rw [slots.reqPoolIdx, slots.mambaPoolIdx, slots.finished]
    exact queues.fresh r hr

theorem waiting_lt (queues : Queues s) {r : Nat} (hr : r ∈ s.waitingQueue) : r < s.nextRid :=
  queues.arrived r (List.mem_append_left _ hr)

theorem dllmWaiting_nodup (queues : Queues s) : s.dllmWaitingQueue.Nodup :=
  (List.nodup_append.mp queues.nodup).2.1

theorem waiting_disjoint (queues : Queues s) {r : Nat} (hr : r ∈ s.waitingQueue) :
    r ∉ s.dllmWaitingQueue :=
  fun hmem => (List.nodup_append.mp queues.nodup).2.2 r hr r hmem rfl

theorem staging_lt (queues : Queues s) {r : Nat} (hr : r ∈ s.stagingQueue) : r < s.nextRid :=
  queues.arrived r (List.mem_append_right _ (queues.staging_waiting r hr))

theorem staging_of_skip {budget : Budget} (queues : Queues s)
    (hskip : s.shouldSkipPrefill budget = true) : s.stagingQueue = [] := by
  rw [SchedulerState.shouldSkipPrefill, Bool.and_eq_true, List.isEmpty_iff] at hskip
  apply List.eq_nil_iff_forall_not_mem.mpr
  intro r hr
  have hmem := queues.staging_waiting r hr
  rw [hskip.2] at hmem
  cases hmem

theorem recv (queues : Queues s) (originInputIds : List (Fin V)) :
    Queues (s.recvRequest originInputIds) where
  nodup := by
    have hnew : s.nextRid ∉ s.waitingQueue ++ s.dllmWaitingQueue :=
      fun hmem => Nat.lt_irrefl _ (queues.arrived _ hmem)
    have hperm : (s.waitingQueue ++ [s.nextRid] ++ s.dllmWaitingQueue).Perm
        (s.nextRid :: (s.waitingQueue ++ s.dllmWaitingQueue)) := by
      rw [List.append_assoc, List.singleton_append]
      exact List.perm_middle
    exact hperm.nodup_iff.mpr (List.nodup_cons.mpr ⟨hnew, queues.nodup⟩)
  arrived r hr := by
    change r < s.nextRid + 1
    simp only [SchedulerState.recvRequest, List.mem_append, List.mem_singleton] at hr
    rcases hr with (hr | rfl) | hr
    · exact Nat.lt_succ_of_lt (queues.arrived r (List.mem_append_left _ hr))
    · exact Nat.lt_succ_self _
    · exact Nat.lt_succ_of_lt (queues.arrived r (List.mem_append_right _ hr))
  staging_nodup := queues.staging_nodup
  staging_waiting := queues.staging_waiting
  waiting_unfinished r hr := by
    simp only [SchedulerState.recvRequest, List.mem_append, List.mem_singleton] at hr ⊢
    rcases hr with hr | rfl
    · have hlt := queues.waiting_lt hr
      rw [Function.update_of_ne (by omega)]
      exact queues.waiting_unfinished r hr
    · rw [Function.update_self]
      rfl
  fresh r hr := by
    change s.nextRid + 1 ≤ r at hr
    have hne : r ≠ s.nextRid := by omega
    simp only [SchedulerState.recvRequest, Function.update_of_ne hne]
    exact queues.fresh r (by omega)

theorem filterFinished (queues : Queues s) : Queues s.filterFinishedReqs where
  nodup := queues.nodup.sublist (List.filter_sublist.append_left _)
  arrived r hr := queues.arrived r ((List.filter_sublist.append_left _).subset hr)
  staging_nodup := queues.staging_nodup.filter _
  staging_waiting r hr := by
    have hmem := List.mem_filter.mp hr
    exact List.mem_filter.mpr ⟨queues.staging_waiting r hmem.1, hmem.2⟩
  waiting_unfinished := queues.waiting_unfinished
  fresh := queues.fresh

theorem fetch {maxRunningRequests : Nat} (queues : Queues s)
    (hlive : ∀ r ∈ s.dllmWaitingQueue, (s.reqs r).finished = false)
    (hok : s.fetchWaitingReqs maxRunningRequests = .ok s') :
    Queues s' ∧ (∀ r ∈ s'.dllmWaitingQueue, (s'.reqs r).finished = false) ∧
      ∃ waiting dllmWaiting,
        s' = { s with waitingQueue := waiting, dllmWaitingQueue := dllmWaiting } := by
  unfold SchedulerState.fetchWaitingReqs at hok
  dsimp only at hok
  split_ifs at hok
  cases hok
  have hperm : ∀ n, (s.waitingQueue.drop n ++ (s.dllmWaitingQueue ++ s.waitingQueue.take n)).Perm
      (s.waitingQueue ++ s.dllmWaitingQueue) := by
    intro n
    calc
      (s.waitingQueue.drop n ++ (s.dllmWaitingQueue ++ s.waitingQueue.take n)).Perm
          (s.waitingQueue.drop n ++ (s.waitingQueue.take n ++ s.dllmWaitingQueue)) :=
        List.perm_append_comm.append_left _
      _ = (s.waitingQueue.drop n ++ s.waitingQueue.take n) ++ s.dllmWaitingQueue :=
        (List.append_assoc _ _ _).symm
      _ |>.Perm ((s.waitingQueue.take n ++ s.waitingQueue.drop n) ++ s.dllmWaitingQueue) :=
        List.perm_append_comm.append_right _
      _ = s.waitingQueue ++ s.dllmWaitingQueue := by rw [List.take_append_drop]
  refine ⟨⟨(hperm _).nodup_iff.mpr queues.nodup, ?_, queues.staging_nodup, ?_, ?_,
    queues.fresh⟩, ?_, _, _, rfl⟩
  · intro r hr
    exact queues.arrived r ((hperm _).mem_iff.mp hr)
  · intro r hr
    exact List.mem_append_left _ (queues.staging_waiting r hr)
  · intro r hr
    exact queues.waiting_unfinished r (List.mem_of_mem_drop hr)
  · intro r hr
    rcases List.mem_append.mp hr with hr | hr
    · exact hlive r hr
    · exact queues.waiting_unfinished r (List.mem_of_mem_take hr)

end Queues

/-! The loops over a batch. -/

variable {server : Server τ L S Z Kv B V K} {s s' : SchedulerState τ L S Z Kv B V}
  {size mambaSize : Nat}

theorem stash_sameQueues {rid : Nat} (hok : server.stashChunkedRequest s rid = .ok s') :
    SameQueues s s' ∧ SameSlots s.reqs s'.reqs := by
  obtain ⟨idx, -, rfl⟩ := Server.stashChunkedRequest_ok hok
  exact ⟨⟨rfl, rfl, rfl, rfl, rfl, rfl⟩, .update _ rfl rfl rfl⟩

theorem processReq_sameQueues {stops : Nat → Bool} {rid : Nat} {next : List (Fin V)}
    (hok : server.processReq stops s (rid, next) = .ok s') :
    SameQueues s s' ∧ ∀ r, r ≠ rid → s'.reqs r = s.reqs r := by
  rcases Server.processReq_cases hok with ⟨-, rfl⟩ | ⟨-, rfl⟩ | ⟨-, _, _, -, -, rfl⟩
  · exact ⟨.refl s', fun _ _ => rfl⟩
  · exact ⟨⟨rfl, rfl, rfl, rfl, rfl, rfl⟩, fun r hr => Function.update_of_ne hr _ _⟩
  · exact ⟨⟨rfl, rfl, rfl, rfl, rfl, rfl⟩, fun r hr => Function.update_of_ne hr _ _⟩

theorem stashAll_sameQueues {rids : List Nat}
    (hok : rids.foldlM server.stashChunkedRequest s = .ok s') :
    SameQueues s s' ∧ SameSlots s.reqs s'.reqs := by
  refine foldlM_invariant (fun t => SameQueues s t ∧ SameSlots s.reqs t.reqs) ?_ hok
    ⟨.refl s, .refl _⟩
  rintro before rid after - hstep ⟨hqueues, hslots⟩
  obtain ⟨hqueues', hslots'⟩ := stash_sameQueues hstep
  exact ⟨hqueues.trans hqueues', hslots.trans hslots'⟩

theorem processAll_sameQueues {stops : Nat → Bool} {entries : List (Nat × List (Fin V))}
    (hok : entries.foldlM (server.processReq stops) s = .ok s') :
    SameQueues s s' ∧ ∀ r, r ∉ entries.map Prod.fst → s'.reqs r = s.reqs r := by
  refine foldlM_invariant (fun t => SameQueues s t ∧
    ∀ r, r ∉ entries.map Prod.fst → t.reqs r = s.reqs r) ?_ hok ⟨.refl s, fun _ _ => rfl⟩
  rintro before ⟨rid, next⟩ after hentry hstep ⟨hqueues, hkept⟩
  obtain ⟨hqueues', hother⟩ := processReq_sameQueues hstep
  refine ⟨hqueues.trans hqueues', fun r hr => ?_⟩
  have hne : r ≠ rid := fun hsame => hr (hsame ▸ List.mem_map_of_mem hentry)
  exact (hother r hne).trans (hkept r hr)

theorem Allocated.stashAll {rids : List Nat} (allocated : Allocated size mambaSize s)
    (hok : rids.foldlM server.stashChunkedRequest s = .ok s') :
    Allocated size mambaSize s' :=
  foldlM_invariant (Allocated size mambaSize) (fun _ _ _ _ hstep before => before.stash hstep) hok
    allocated

theorem AllLive.processReq {stops : Nat → Bool} {rid : Nat} {next : List (Fin V)}
    {rest : List Nat} (live : AllLive s (rid :: rest)) (hnot : rid ∉ rest)
    (hok : server.processReq stops s (rid, next) = .ok s') : AllLive s' rest := by
  intro r hr
  have hne : r ≠ rid := fun hsame => hnot (hsame ▸ hr)
  rw [(processReq_sameQueues hok).2 r hne]
  exact live r (List.mem_cons_of_mem rid hr)

theorem Allocated.processAll {stops : Nat → Bool} {entries : List (Nat × List (Fin V))}
    (allocated : Allocated size mambaSize s) (hnodup : (entries.map Prod.fst).Nodup)
    (live : AllLive s (entries.map Prod.fst))
    (hok : entries.foldlM (server.processReq stops) s = .ok s') :
    Allocated size mambaSize s' := by
  refine (foldlM_invariant_rest (fun rest t => Allocated size mambaSize t ∧
    (rest.map Prod.fst).Nodup ∧ AllLive t (rest.map Prod.fst)) ?_ hok
    ⟨allocated, hnodup, live⟩).1
  rintro ⟨rid, next⟩ rest before after ⟨allocated, hnodup, live⟩ hstep
  rw [List.map_cons, List.nodup_cons] at hnodup
  obtain ⟨slot, hslot⟩ := live rid List.mem_cons_self
  exact ⟨allocated.processReq hslot hstep, hnodup.2, AllLive.processReq live hnodup.1 hstep⟩

def SameButSlots (reqs reqs' : Nat → Req V Kv) : Prop :=
  ∀ r, ∃ idx mid, reqs' r = { reqs r with reqPoolIdx := idx, mambaPoolIdx := mid }

theorem SameButSlots.refl (reqs : Nat → Req V Kv) : SameButSlots reqs reqs :=
  fun _ => ⟨_, _, rfl⟩

theorem SameButSlots.unfinished {reqs reqs' : Nat → Req V Kv} {rids : List Nat}
    (same : SameButSlots reqs reqs') (hlive : ∀ r ∈ rids, (reqs r).finished = false) :
    ∀ r ∈ rids, (reqs' r).finished = false := by
  intro r hr
  obtain ⟨idx, mid, hreq⟩ := same r
  rw [hreq]
  exact hlive r hr

theorem SameButSlots.trans {reqs reqs' reqs'' : Nat → Req V Kv}
    (first : SameButSlots reqs reqs') (second : SameButSlots reqs' reqs'') :
    SameButSlots reqs reqs'' := by
  intro r
  obtain ⟨idx, mid, hfirst⟩ := first r
  obtain ⟨idx', mid', hsecond⟩ := second r
  exact ⟨idx', mid', by rw [hsecond, hfirst]⟩

theorem SameButSlots.allocReq [Zero S] [Zero Z] {rid : Nat} (hok : s.allocReq rid = .ok s') :
    SameButSlots s.reqs s'.reqs := by
  obtain ⟨⟨idx, mid, hreqs⟩, -⟩ := SchedulerState.allocReq_reqs hok
  intro r
  by_cases hr : r = rid
  · subst hr
    exact ⟨some idx, some mid, by rw [hreqs, Function.update_self]⟩
  · exact ⟨_, _, by rw [hreqs, Function.update_of_ne hr]⟩

theorem allocAll_sameQueues [Zero S] [Zero Z] {rids : List Nat}
    (hok : rids.foldlM SchedulerState.allocReq s = .ok s') :
    SameQueues s s' ∧ SameButSlots s.reqs s'.reqs ∧ ∀ r, r ∉ rids → s'.reqs r = s.reqs r := by
  refine foldlM_invariant (fun t => SameQueues s t ∧ SameButSlots s.reqs t.reqs ∧
    ∀ r, r ∉ rids → t.reqs r = s.reqs r) ?_ hok ⟨.refl s, .refl _, fun _ _ => rfl⟩
  rintro before rid after hrid hstep ⟨hqueues, hsame, hkept⟩
  obtain ⟨⟨idx, mid, hreqs⟩, hnext, hwaiting, hdllm, hstaging, hbatch, hserved⟩ :=
    SchedulerState.allocReq_reqs hstep
  refine ⟨hqueues.trans ⟨hnext, hwaiting, hdllm, hstaging, hbatch, hserved⟩,
    hsame.trans (SameButSlots.allocReq hstep), ?_⟩
  intro r hr
  have hne : r ≠ rid := fun hsame => hr (hsame ▸ hrid)
  rw [hreqs, Function.update_of_ne hne, hkept r hr]

theorem Allocated.allocAll [Zero S] [Zero Z] {rids : List Nat}
    (allocated : Allocated size mambaSize s)
    (hlive : ∀ r ∈ rids, (s.reqs r).finished = false)
    (hok : rids.foldlM SchedulerState.allocReq s = .ok s') :
    Allocated size mambaSize s' ∧ AllLive s' rids ∧
      ∀ r, (∃ slot, (s.reqs r).mambaPoolIdx = some slot) →
        ∃ slot, (s'.reqs r).mambaPoolIdx = some slot := by
  induction rids generalizing s with
  | nil =>
      cases hok
      exact ⟨allocated, List.forall_mem_nil _, fun _ => id⟩
  | cons rid rest ih =>
      rw [List.foldlM_cons] at hok
      obtain ⟨middle, hfirst, hrest⟩ := bind_eq_ok hok
      obtain ⟨⟨idx, mid, hreqs⟩, -⟩ := SchedulerState.allocReq_reqs hfirst
      obtain ⟨hend, halive, hstay⟩ :=
        ih (allocated.alloc (hlive rid List.mem_cons_self) hfirst)
          (SameButSlots.unfinished (.allocReq hfirst)
            (fun r hr => hlive r (List.mem_cons_of_mem rid hr))) hrest
      have hmiddle : ∀ r, (∃ slot, (s.reqs r).mambaPoolIdx = some slot) →
          ∃ slot, (middle.reqs r).mambaPoolIdx = some slot := by
        intro r hr
        by_cases hrid : r = rid
        · subst hrid
          exact ⟨mid, by rw [hreqs, Function.update_self]⟩
        · rwa [hreqs, Function.update_of_ne hrid]
      refine ⟨hend, ?_, fun r hr => hstay r (hmiddle r hr)⟩
      intro r hr
      rcases List.mem_cons.mp hr with rfl | hr
      · exact hstay r ⟨mid, by rw [hreqs, Function.update_self]⟩
      · exact halive r hr

/-! The event loop. -/

structure Scheduled (size mambaSize : Nat) (s : SchedulerState τ L S Z Kv B V) : Prop where
  allocated : Allocated size mambaSize s
  queues : Queues s
  batch : ∀ {rids}, s.batch = some rids → s.stagingQueue = rids ∧ AllLive s rids
  batch_ne_nil : s.batch ≠ some []

theorem Server.getNextBatchToRun_ok [Zero S] [Zero Z] {budget : Budget}
    (hok : server.getNextBatchToRun budget s = .ok s') :
    ∃ stashed, s.filterFinishedReqs.stagingQueue.foldlM server.stashChunkedRequest
        s.filterFinishedReqs = .ok stashed ∧
      ((stashed.shouldSkipPrefill budget = true ∧ s' = stashed) ∨
        ∃ fetched adder,
          (server.initNextRound stashed).fetchWaitingReqs server.maxRunningRequests =
            .ok fetched ∧
          server.processDllmBatches budget fetched = .ok adder ∧
          fetched.prepareBatch adder = .ok s') := by
  obtain ⟨stashed, hstashed, hnew⟩ := bind_eq_ok hok
  refine ⟨stashed, hstashed, ?_⟩
  unfold getNewBatchDllm at hnew
  split_ifs at hnew with hskip
  · cases hnew
    exact Or.inl ⟨hskip, rfl⟩
  · obtain ⟨fetched, hfetched, hrest⟩ := bind_eq_ok hnew
    obtain ⟨adder, hadder, hrest⟩ := bind_eq_ok hrest
    obtain ⟨prepared, hprepare, halloc⟩ := bind_eq_ok hrest
    cases SchedulerState.allocTokenSlots_ok halloc
    exact Or.inr ⟨fetched, adder, hfetched, hadder, hprepare⟩

theorem initNextRound_sameSlots (server : Server τ L S Z Kv B V K)
    (s : SchedulerState τ L S Z Kv B V) :
    SameSlots s.reqs (server.initNextRound s).reqs := by
  constructor
  all_goals
    intro r
    simp only [Server.initNextRound]
    split_ifs <;> rfl

namespace Scheduled

theorem initial [Zero S] [Zero Z] (size mambaSize : Nat) (tree : τ) :
    Scheduled size mambaSize
      (.initial size mambaSize tree : SchedulerState τ L S Z Kv B V) where
  allocated := .initial size mambaSize tree
  queues := .initial size mambaSize tree
  batch hsome := by cases hsome
  batch_ne_nil hsome := by cases hsome

theorem recv (scheduled : Scheduled size mambaSize s) (hnone : s.batch = none)
    (originInputIds : List (Fin V)) :
    Scheduled size mambaSize (s.recvRequest originInputIds) where
  allocated := by
    obtain ⟨hreq, hmamba, hfinished⟩ := scheduled.queues.fresh s.nextRid le_rfl
    exact scheduled.allocated.congr (.update _ hreq.symm hmamba.symm hfinished.symm) (.refl _)
      (fun _ _ => rfl)
  queues := scheduled.queues.recv originInputIds
  batch hsome := by
    rw [SchedulerState.recvRequest, hnone] at hsome
    cases hsome
  batch_ne_nil hsome := by
    rw [SchedulerState.recvRequest, hnone] at hsome
    cases hsome

theorem evict (scheduled : Scheduled size mambaSize s) (tree : τ) :
    Scheduled size mambaSize { s with tree } :=
  ⟨scheduled.allocated.congr (.refl _) (.refl _) (fun _ _ => rfl),
    scheduled.queues.congr_slots ⟨rfl, rfl, rfl, rfl, rfl, rfl⟩ (.refl _), scheduled.batch,
    scheduled.batch_ne_nil⟩

theorem stashed (scheduled : Scheduled size mambaSize s)
    (hok : s.filterFinishedReqs.stagingQueue.foldlM server.stashChunkedRequest
      s.filterFinishedReqs = .ok s') :
    Allocated size mambaSize s' ∧ Queues s' ∧
      ∀ r ∈ s'.dllmWaitingQueue, (s'.reqs r).finished = false := by
  have hfiltered : Allocated size mambaSize s.filterFinishedReqs :=
    scheduled.allocated.congr (.refl _) (.refl _) (fun _ _ => rfl)
  obtain ⟨hqueues, hsame⟩ := stashAll_sameQueues hok
  refine ⟨hfiltered.stashAll hok, scheduled.queues.filterFinished.congr_slots hqueues hsame, ?_⟩
  intro r hr
  rw [hqueues.dllmWaitingQueue, SchedulerState.filterFinishedReqs, List.mem_filter] at hr
  rw [hsame.finished]
  change (s.reqs r).finished = false
  simpa using hr.2

/-- What is ready for the selection of a batch: nothing is staged. -/
structure Fetched (size mambaSize : Nat) (stashed fetched : SchedulerState τ L S Z Kv B V)
    (server : Server τ L S Z Kv B V K) : Prop where
  allocated : Allocated size mambaSize fetched
  queues : Queues fetched
  unfinished : ∀ r ∈ fetched.dllmWaitingQueue, (fetched.reqs r).finished = false
  stagingQueue : fetched.stagingQueue = []
  reqs : fetched.reqs = (server.initNextRound stashed).reqs
  pool : fetched.pool = stashed.pool
  batch : fetched.batch = stashed.batch
  served : fetched.served = stashed.served

theorem fetched {stashed fetched : SchedulerState τ L S Z Kv B V}
    (allocated : Allocated size mambaSize stashed) (queues : Queues stashed)
    (hlive : ∀ r ∈ stashed.dllmWaitingQueue, (stashed.reqs r).finished = false)
    (hok : (server.initNextRound stashed).fetchWaitingReqs server.maxRunningRequests =
      .ok fetched) : Fetched size mambaSize stashed fetched server := by
  have hsame := initNextRound_sameSlots server stashed
  have hround : Queues (server.initNextRound stashed) :=
    queues.restage hsame rfl rfl rfl List.nodup_nil (List.forall_mem_nil _)
  have hunfinished : ∀ r ∈ (server.initNextRound stashed).dllmWaitingQueue,
      ((server.initNextRound stashed).reqs r).finished = false := by
    intro r hr
    rw [hsame.finished]
    exact hlive r hr
  obtain ⟨hqueues, hwaiting, _, _, rfl⟩ := hround.fetch hunfinished hok
  exact ⟨allocated.congr hsame (.refl _) (fun _ _ => rfl), hqueues, hwaiting, rfl, rfl, rfl, rfl,
    rfl⟩

theorem prepared [Zero S] [Zero Z] {budget : Budget}
    {stashed fetched : SchedulerState τ L S Z Kv B V}
    {adder : AdderState V Kv} (hfetched : Fetched size mambaSize stashed fetched server)
    (hnone : stashed.batch = none)
    (hadder : server.processDllmBatches budget fetched = .ok adder)
    (hok : fetched.prepareBatch adder = .ok s') : Scheduled size mambaSize s' := by
  obtain ⟨hnodup, hwaiting, hselected⟩ :=
    Server.processDllmBatches_adds hfetched.queues.dllmWaiting_nodup hadder
  have hsame : SameSlots fetched.reqs adder.reqs := Selected.sameSlots_all hselected
  unfold SchedulerState.prepareBatch at hok
  split_ifs at hok with hempty
  · cases hok
    refine ⟨hfetched.allocated.congr hsame (.refl _) (fun _ _ => rfl),
      hfetched.queues.congr_slots ⟨rfl, rfl, rfl, rfl, rfl, rfl⟩ hsame, ?_, ?_⟩
    · intro rids hsome
      cases (hfetched.batch.trans hnone).symm.trans hsome
    · intro hsome
      cases (hfetched.batch.trans hnone).symm.trans hsome
  · have hstart : Allocated size mambaSize { fetched with
        reqs := adder.reqs
        stagingQueue := fetched.stagingQueue ++ adder.canRunList
        batch := some adder.canRunList } :=
      hfetched.allocated.congr hsame (.refl _) (fun _ _ => rfl)
    have hfinished : ∀ r ∈ adder.canRunList, (adder.reqs r).finished = false := by
      intro r hr
      rw [hsame.finished]
      exact hfetched.unfinished r (hwaiting r hr)
    obtain ⟨hend, halive, -⟩ := hstart.allocAll hfinished hok
    obtain ⟨hqueues, hbut, hkept⟩ := allocAll_sameQueues hok
    have hbase : Queues { fetched with
        reqs := adder.reqs
        stagingQueue := fetched.stagingQueue ++ adder.canRunList
        batch := some adder.canRunList } := by
      refine hfetched.queues.restage hsame rfl rfl rfl ?_ ?_
      · rw [hfetched.stagingQueue]
        exact hnodup
      · rw [hfetched.stagingQueue]
        exact hwaiting
    refine ⟨hend, hbase.congr hqueues ?_ ?_, ?_, ?_⟩
    · intro r _
      obtain ⟨_, _, hreq⟩ := hbut r
      rw [hreq]
    · intro r hr
      have hout : r ∉ adder.canRunList := fun hmem =>
        absurd (hfetched.queues.arrived r (List.mem_append_right _ (hwaiting r hmem)))
          (Nat.not_lt.mpr hr)
      rw [hkept r hout]
      exact ⟨rfl, rfl, rfl⟩
    · intro rids hsome
      rw [hqueues.batch] at hsome
      cases hsome
      refine ⟨?_, halive⟩
      rw [hqueues.stagingQueue, hfetched.stagingQueue]
      rfl
    · rw [hqueues.batch]
      exact fun hsome => hempty (Option.some.inj hsome)

theorem getNextBatch [Zero S] [Zero Z] {budget : Budget} (scheduled : Scheduled size mambaSize s)
    (hnone : s.batch = none) (hok : server.getNextBatchToRun budget s = .ok s') :
    Scheduled size mambaSize s' := by
  obtain ⟨stashed, hstashed, hrest⟩ := Server.getNextBatchToRun_ok hok
  obtain ⟨hallocated, hqueues, hlive⟩ := scheduled.stashed hstashed
  have hbatch : stashed.batch = none := (stashAll_sameQueues hstashed).1.batch.trans hnone
  rcases hrest with ⟨hskip, rfl⟩ | ⟨fetched, adder, hfetched, hadder, hprepare⟩
  · refine ⟨hallocated, hqueues, ?_, ?_⟩
    · intro rids hsome
      cases hbatch.symm.trans hsome
    · intro hsome
      cases hbatch.symm.trans hsome
  · exact prepared (Scheduled.fetched hallocated hqueues hlive hfetched) hbatch hadder hprepare

end Scheduled

theorem zip_keys_sublist {α β : Type*} (keys : List α) (values : List β) :
    ((keys.zip values).map Prod.fst).Sublist keys := by
  induction keys generalizing values with
  | nil => exact List.nil_sublist _
  | cons key rest ih =>
      cases values with
      | nil => exact List.nil_sublist _
      | cons value values => exact (ih values).cons_cons key

/-- A run may compute anything, as long as the forwards leave the free list alone. -/
theorem Scheduled.run {rids : List Nat} {stops : Nat → Bool} {lists : List (List (Fin V))}
    {ran : SchedulerState τ L S Z Kv B V} (scheduled : Scheduled size mambaSize s)
    (hsome : s.batch = some rids) (forwards : s.AfterForwards rids ran)
    (hok : (rids.zip lists).foldlM (server.processReq stops) ran = .ok s') :
    Scheduled size mambaSize s' := by
  obtain ⟨hstaging, hlive⟩ := scheduled.batch hsome
  have hnodup : rids.Nodup := hstaging ▸ scheduled.queues.staging_nodup
  have hkeys := zip_keys_sublist rids lists
  have hliveRan : AllLive ran ((rids.zip lists).map Prod.fst) := by
    intro r hr
    rw [forwards.reqs.mambaPoolIdx]
    exact hlive r (hkeys.subset hr)
  obtain ⟨hqueues, hkept⟩ := processAll_sameQueues hok
  have hqueuesRan : Queues ran :=
    scheduled.queues.restage forwards.reqs forwards.nextRid forwards.waitingQueue
      forwards.dllmWaitingQueue (forwards.stagingQueue ▸ scheduled.queues.staging_nodup)
      (forwards.stagingQueue ▸ scheduled.queues.staging_waiting)
  have hout : ∀ {r}, r ∉ rids → s'.reqs r = ran.reqs r :=
    fun hr => hkept _ (fun hmem => hr (hkeys.subset hmem))
  refine ⟨(scheduled.allocated.afterForwards hlive forwards).processAll (hkeys.nodup hnodup)
    hliveRan hok, hqueuesRan.congr hqueues ?_ ?_, ?_, ?_⟩
  · intro r hr
    rw [forwards.waitingQueue] at hr
    rw [hout (fun hmem => scheduled.queues.waiting_disjoint hr
      (scheduled.queues.staging_waiting r (hstaging ▸ hmem)))]
  · intro r hr
    rw [forwards.nextRid] at hr
    rw [hout (fun hmem => Nat.not_lt.mpr hr (scheduled.queues.staging_lt (hstaging ▸ hmem)))]
    exact ⟨rfl, rfl, rfl⟩
  · intro rids' hsome'
    rw [hqueues.batch, forwards.batch] at hsome'
    cases hsome'
  · intro hsome'
    rw [hqueues.batch, forwards.batch] at hsome'
    cases hsome'

end LladaHybrid.Serving
