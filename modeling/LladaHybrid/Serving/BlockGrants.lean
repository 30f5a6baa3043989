import LladaHybrid.Serving.SlotConservation

namespace LladaHybrid.Serving

open LladaHybrid.Library LladaHybrid.Decode

/-! With enough free tokens the adder gives every request of a batch a whole block. -/

variable {τ L S Z Kv K : Type} {B V : Nat}

/-- What the adder counts at most for a request: its block, the tokens to come and a page. -/
def tokensPerReq (B pageSize : Nat) : Nat := B + clipMaxNewTokens + pageSize

theorem ceilPagedTokens_of_dvd {pageSize tokens : Nat} (hpage : pageSize ∣ tokens)
    (hpos : 0 < pageSize) : ceilPagedTokens pageSize tokens = tokens := by
  obtain ⟨pages, rfl⟩ := hpage
  rw [ceilPagedTokens, Nat.add_sub_assoc hpos, Nat.mul_add_div hpos,
    Nat.div_eq_of_lt (Nat.sub_lt hpos Nat.one_pos), Nat.add_zero, Nat.mul_comm]

/-- So far every request was given a whole block. -/
structure AdderState.Grants (maxRunningRequests B pageSize : Nat) (adder : AdderState V Kv) :
    Prop where
  remDllmTokens : adder.remDllmTokens + (adder.canRunList.length * B : Nat) =
    (maxRunningRequests * B : Nat)
  remTotalTokenOffset : adder.remTotalTokenOffset ≤
    (adder.canRunList.length * tokensPerReq B pageSize : Nat)
  whole : ∀ r ∈ adder.canRunList, (adder.reqs r).extendInputLen = B

namespace AdderState.Grants

variable {maxRunningRequests pageSize available : Nat} {adder : AdderState V Kv} {budget : Budget}

theorem new (maxRunningRequests pageSize : Nat) (reqs : Nat → Req V Kv) :
    Grants maxRunningRequests B pageSize (.new B maxRunningRequests reqs) where
  remDllmTokens := by simp [AdderState.new]
  remTotalTokenOffset := by simp [AdderState.new]
  whole := List.forall_mem_nil _

theorem add (grants : Grants maxRunningRequests B pageSize adder) {rid maxNewTokens : Nat}
    {req : Req V Kv} (hpage : ceilPagedTokens pageSize B = B) (hreq : req.extendInputLen = B)
    (hnew : maxNewTokens ≤ clipMaxNewTokens) :
    Grants maxRunningRequests B pageSize (adder.add pageSize maxNewTokens rid req) where
  remDllmTokens := by
    have hbefore := grants.remDllmTokens
    simp only [AdderState.add, hreq, hpage, List.length_append, List.length_singleton,
      Nat.succ_mul]
    push_cast at hbefore ⊢
    omega
  remTotalTokenOffset := by
    have hbefore := grants.remTotalTokenOffset
    simp only [AdderState.add, hreq, hpage, List.length_append, List.length_singleton,
      Nat.succ_mul]
    push_cast at hbefore ⊢
    rw [tokensPerReq] at hbefore ⊢
    push_cast at hbefore ⊢
    omega
  whole r hr := by
    by_cases hrid : r = rid
    · subst hrid
      change (Function.update adder.reqs r req r).extendInputLen = B
      rw [Function.update_self, hreq]
    · rw [AdderState.reqs_add_of_ne hrid]
      refine grants.whole r ((List.mem_append.mp hr).resolve_right ?_)
      exact fun hlast => hrid (List.mem_singleton.mp hlast)

/-- There is room for the block of one more request. -/
theorem le_remaining (grants : Grants maxRunningRequests B pageSize adder)
    (hroom : adder.canRunList.length < maxRunningRequests)
    (havailable : maxRunningRequests * tokensPerReq B pageSize ≤ available) :
    (B : Int) ≤ adder.remDllmTokens ∧ (B : Int) ≤ available - adder.remTotalTokenOffset := by
  have hblocks := Nat.mul_le_mul_right B (Nat.succ_le_of_lt hroom)
  have htokens := Nat.mul_le_mul_right (tokensPerReq B pageSize) (Nat.succ_le_of_lt hroom)
  have hper : B ≤ tokensPerReq B pageSize := by
    rw [tokensPerReq]
    omega
  have hdllm := grants.remDllmTokens
  have htotal := grants.remTotalTokenOffset
  rw [Nat.succ_mul] at hblocks htokens
  omega

theorem getDllmRemainTokens (grants : Grants maxRunningRequests B pageSize adder) (hB : 0 < B)
    (hroom : adder.canRunList.length < maxRunningRequests)
    (havailable : maxRunningRequests * tokensPerReq B pageSize ≤ available) :
    adder.getDllmRemainTokens B available = B := by
  obtain ⟨hdllm, htotal⟩ := grants.le_remaining hroom havailable
  rw [AdderState.getDllmRemainTokens, min_eq_right hdllm, min_eq_left htotal]
  exact if_neg (by omega)

theorem addDllmStagingReq (grants : Grants maxRunningRequests B pageSize adder) (hB : 0 < B)
    (hpage : ceilPagedTokens pageSize B = B) {rid : Nat}
    (hroom : adder.canRunList.length < maxRunningRequests)
    (havailable : maxRunningRequests * tokensPerReq B pageSize ≤
      budget.availableAndEvictable rid)
    (hlength : B ≤ (adder.reqs rid).extendInputLen) :
    ∃ maxNewTokens ≤ clipMaxNewTokens,
      (adder.addDllmStagingReq B pageSize budget rid).1 = adder.add pageSize maxNewTokens rid
        ((adder.reqs rid).addDllmStagingReq B) ∧
      Grants maxRunningRequests B pageSize (adder.addDllmStagingReq B pageSize budget rid).1 := by
  have hremain := grants.getDllmRemainTokens hB hroom havailable
  have hwhole : ((adder.reqs rid).addDllmStagingReq B).extendInputLen = B :=
    Nat.min_eq_right hlength
  simp only [AdderState.addDllmStagingReq, hremain, Int.toNat_natCast]
  rw [if_neg (by omega)]
  refine ⟨_, ?_, rfl, grants.add hpage hwhole ?_⟩
  all_goals
    split_ifs
    · exact Nat.zero_le _
    · exact Nat.min_le_right _ _

theorem processDllmStagingReqs (grants : Grants maxRunningRequests B pageSize adder)
    (hB : 0 < B) (hpage : ceilPagedTokens pageSize B = B) {rids : List Nat}
    (havailable : ∀ r, maxRunningRequests * tokensPerReq B pageSize ≤
      budget.availableAndEvictable r)
    (hnodup : rids.Nodup) (hlengths : ∀ r ∈ rids, B ≤ (adder.reqs r).extendInputLen)
    (hroom : adder.canRunList.length + rids.length ≤ maxRunningRequests) :
    Grants maxRunningRequests B pageSize
        (Serving.processDllmStagingReqs B pageSize budget rids adder).1 ∧
      (Serving.processDllmStagingReqs B pageSize budget rids adder).1.canRunList.length ≤
        adder.canRunList.length + rids.length := by
  induction rids generalizing adder with
  | nil => exact ⟨grants, le_rfl⟩
  | cons rid rest ih =>
      rw [List.nodup_cons] at hnodup
      rw [List.length_cons] at hroom ⊢
      obtain ⟨maxNewTokens, -, hadded, hgrants⟩ := grants.addDllmStagingReq hB hpage (by omega)
        (havailable rid) (hlengths rid List.mem_cons_self)
      have hcount : (adder.addDllmStagingReq B pageSize budget rid).1.canRunList.length =
          adder.canRunList.length + 1 := by
        rw [hadded, AdderState.add, List.length_append, List.length_singleton]
      unfold Serving.processDllmStagingReqs
      dsimp only
      split_ifs
      · exact ⟨hgrants, by omega⟩
      · have hkept : ∀ r ∈ rest,
            B ≤ ((adder.addDllmStagingReq B pageSize budget rid).1.reqs r).extendInputLen := by
          intro r hr
          have hne : r ≠ rid := fun hsame => hnodup.1 (hsame ▸ hr)
          rw [hadded, AdderState.reqs_add_of_ne hne]
          exact hlengths r (List.mem_cons_of_mem rid hr)
        obtain ⟨hlast, hlength⟩ := ih hgrants hnodup.2 hkept (by omega)
        exact ⟨hlast, by omega⟩

variable {server : Server τ L S Z Kv B V K} {tree : τ}

theorem truncLen (grants : Grants maxRunningRequests B pageSize adder)
    (hpage : pageSize ∣ B) (hroom : adder.canRunList.length < maxRunningRequests) :
    adder.truncLen B pageSize = B := by
  obtain ⟨hdllm, -⟩ := grants.le_remaining hroom le_rfl
  rw [AdderState.truncLen, min_eq_right hdllm,
    Int.ediv_mul_cancel (Int.natCast_dvd_natCast.mpr hpage), Int.toNat_natCast]

theorem processDllmIncomingReqs
    (grants : Grants server.maxRunningRequests B server.pageSize adder)
    (hpage : server.pageSize ∣ B) (hpos : 0 < server.pageSize) {rids : List Nat}
    (hnodup : rids.Nodup) (hnew : ∀ r ∈ rids, r ∉ adder.canRunList)
    (hroom : adder.canRunList.length + rids.length ≤ server.maxRunningRequests)
    {result : AdderState V Kv}
    (hok : server.processDllmIncomingReqs budget tree rids adder = .ok result) :
    Grants server.maxRunningRequests B server.pageSize result := by
  induction rids generalizing adder with
  | nil =>
      cases hok
      exact grants
  | cons rid rest ih =>
      rw [List.length_cons] at hroom
      rw [List.nodup_cons] at hnodup
      have hadd : ∀ req : Req V Kv, Grants server.maxRunningRequests B server.pageSize
          (adder.add server.pageSize 0 rid
            (req.addDllmReq (adder.truncLen B server.pageSize))) :=
        fun req => grants.add (ceilPagedTokens_of_dvd hpage hpos)
          (grants.truncLen hpage (by omega)) (Nat.zero_le _)
      unfold Server.processDllmIncomingReqs at hok
      dsimp only at hok
      split_ifs at hok
      · cases hok
        exact grants
      · obtain ⟨req, -, hrest⟩ := bind_eq_ok hok
        refine ih (hadd req) hnodup.2 ?_ ?_ hrest
        · intro r hr hmem
          rcases List.mem_append.mp hmem with hmem | hmem
          · exact hnew r (List.mem_cons_of_mem rid hr) hmem
          · exact hnodup.1 (List.mem_singleton.mp hmem ▸ hr)
        · rw [AdderState.add, List.length_append, List.length_singleton]
          omega
      · obtain ⟨req, -, hrest⟩ := bind_eq_ok hok
        cases hrest
        exact hadd req
      · obtain ⟨req, -, hrest⟩ := bind_eq_ok hok
        cases hrest
        refine ⟨grants.remDllmTokens, grants.remTotalTokenOffset, fun r hr => ?_⟩
        have hne : r ≠ rid := fun hsame => hnew rid List.mem_cons_self (hsame ▸ hr)
        change (Function.update adder.reqs rid req r).extendInputLen = B
        rw [Function.update_of_ne hne]
        exact grants.whole r hr

end AdderState.Grants

theorem length_filter_add_length_filter {p q : Nat → Bool} (hdisjoint : ∀ r, p r → q r = false)
    (rids : List Nat) : (rids.filter p).length + (rids.filter q).length ≤ rids.length := by
  rw [rids.length_eq_length_filter_add p]
  refine Nat.add_le_add_left (List.monotone_filter_right rids ?_).length_le _
  intro r hq
  by_contra hp
  simp [hdisjoint r (by simpa using hp)] at hq

section Round

variable {server : Server τ L S Z Kv B V K} {s s' : SchedulerState τ L S Z Kv B V}
  {size mambaSize : Nat} {budget : Budget} {tree : τ}

/-- The free tokens suffice for as many requests as may run. -/
def Budget.Suffices (budget : Budget) (server : Server τ L S Z Kv B V K) : Prop :=
  ∀ r, server.maxRunningRequests * tokensPerReq B server.pageSize ≤
    budget.availableAndEvictable r

theorem processBatchByPhase_grants (hsuffices : budget.Suffices server) (hB : 0 < B)
    (hpage : server.pageSize ∣ B) (hpos : 0 < server.pageSize) {batch : List Nat}
    {stagingPhase incomingPhase : DllmReqPhase} {reqs : Nat → Req V Kv}
    (hstaging : stagingPhase = .stagingPrefill ∨ stagingPhase = .stagingDecode)
    (hne : incomingPhase ≠ stagingPhase) (hnodup : batch.Nodup)
    (hlengths : ∀ r ∈ batch, (reqs r).isStaging → B ≤ (reqs r).extendInputLen)
    (hroom : batch.length ≤ server.maxRunningRequests) {result : AdderState V Kv}
    (hok : server.processBatchByPhase budget tree batch stagingPhase incomingPhase
      (.new B server.maxRunningRequests reqs) = .ok result) :
    AdderState.Grants server.maxRunningRequests B server.pageSize result := by
  have hphase : ∀ {r phase}, r ∈ batch.filter (fun rid => decide ((reqs rid).dllmPhase = phase)) →
      r ∈ batch ∧ (reqs r).dllmPhase = phase := by
    intro r phase hr
    rwa [List.mem_filter, decide_eq_true_eq] at hr
  have hisStaging : ∀ r ∈ batch.filter (fun rid => decide ((reqs rid).dllmPhase = stagingPhase)),
      (reqs r).isStaging := fun r hr => by rwa [Req.isStaging, (hphase hr).2]
  have hcount := length_filter_add_length_filter
    (p := fun rid => decide ((reqs rid).dllmPhase = stagingPhase))
    (q := fun rid => decide ((reqs rid).dllmPhase = incomingPhase))
    (fun r hr => by
      rw [decide_eq_true_eq] at hr
      rw [hr]
      exact decide_eq_false hne.symm) batch
  have hempty : (AdderState.new B server.maxRunningRequests reqs).canRunList.length = 0 := rfl
  obtain ⟨hgrants, hlength⟩ := (AdderState.Grants.new (B := B) server.maxRunningRequests
    server.pageSize reqs).processDllmStagingReqs hB (ceilPagedTokens_of_dvd hpage hpos) hsuffices
    (hnodup.filter _) (fun r hr => hlengths r (hphase hr).1 (hisStaging r hr)) (by omega)
  obtain ⟨staged, hadds⟩ := processDllmStagingReqs_adds (B := B) server.treeCache tree
    server.maskId server.pageSize budget (.new B server.maxRunningRequests reqs)
    (hnodup.filter _) hisStaging
  unfold Server.processBatchByPhase at hok
  dsimp only at hok
  split_ifs at hok
  · refine hgrants.processDllmIncomingReqs hpage hpos (hnodup.filter _) ?_ ?_ hok
    · intro r hr hmem
      rw [hadds.canRunList] at hmem
      exact hne ((hphase hr).2.symm.trans (hphase (hadds.sublist.subset hmem)).2)
    · change _ + (batch.filter fun rid => decide ((reqs rid).dllmPhase = incomingPhase)).length ≤ _
      omega
  · cases hok
    exact hgrants

theorem processDllmBatches_grants (hsuffices : budget.Suffices server) (hB : 0 < B)
    (hpage : server.pageSize ∣ B) (hpos : 0 < server.pageSize)
    (hnodup : s.dllmWaitingQueue.Nodup)
    (hlengths : ∀ r ∈ s.dllmWaitingQueue, (s.reqs r).isStaging → B ≤ (s.reqs r).extendInputLen)
    (hroom : s.dllmWaitingQueue.length ≤ server.maxRunningRequests) {result : AdderState V Kv}
    (hok : server.processDllmBatches budget s = .ok result) :
    AdderState.Grants server.maxRunningRequests B server.pageSize result := by
  unfold Server.processDllmBatches at hok
  dsimp only at hok
  split_ifs at hok
  · exact processBatchByPhase_grants hsuffices hB hpage hpos (Or.inl rfl) (by decide)
      (hnodup.filter _) (fun r hr => hlengths r (List.mem_filter.mp hr).1)
      ((List.length_filter_le _ _).trans hroom) hok
  · exact processBatchByPhase_grants hsuffices hB hpage hpos (Or.inr rfl) (by decide)
      (hnodup.filter _) (fun r hr => hlengths r (List.mem_filter.mp hr).1)
      ((List.length_filter_le _ _).trans hroom) hok

end Round

section Reachable

variable [Field K] [LinearOrder K] [ExpOps K] [TopK K] [NeZero V] [AddMonoid S] [AddMonoid Z]
  {server : Server PUnit L S Z Kv B V K} {s s' : SchedulerState PUnit L S Z Kv B V}
  {size mambaSize : Nat} {budget : Budget}

/-- Under the chunk cache, a round with enough free tokens forms a batch of whole blocks. -/
theorem Server.Reachable.getNextBatch_wholeBlocks (hB : 0 < B) (hpage : server.pageSize ∣ B)
    (hpos : 0 < server.pageSize) (hcache : server.treeCache = chunkCache V Kv)
    (reachable : server.Reachable size mambaSize ⟨⟩ s) (hnone : s.batch = none)
    (hsuffices : budget.Suffices server)
    (hok : server.getNextBatchToRun budget s = .ok s') : s'.WholeBlocks := by
  have hscheduled := (Reachable.sound reachable).toScheduled
  have hkept : (chunkStages server.model server.maskId).Kept server.treeCache server.maskId := by
    rw [hcache]
    exact chunkStages_kept server.model server.maskId
  obtain ⟨stashed, hstashed, hrest⟩ := Server.getNextBatchToRun_ok hok
  obtain ⟨hallocated, hqueues, hlive⟩ := hscheduled.stashed hstashed
  have hbatch : stashed.batch = none := (stashAll_sameQueues hstashed).1.batch.trans hnone
  rcases hrest with ⟨-, rfl⟩ | ⟨fetched, adder, hok', hadder, hprepare⟩
  · intro r hr
    rw [hbatch] at hr
    cases hr
  have hfetched := Scheduled.fetched hallocated hqueues hlive hok'
  obtain ⟨-, hwaiting, hselected⟩ :=
    Server.processDllmBatches_adds hfetched.queues.dllmWaiting_nodup hadder
  have hcapacity : fetched.dllmWaitingQueue.length ≤ server.maxRunningRequests :=
    (reachable.conserved.selected hscheduled hstashed hok'
      (Selected.sameSlots_all hselected)).capacity
  have hlengths : ∀ r ∈ fetched.dllmWaitingQueue, (fetched.reqs r).isStaging →
      B ≤ (fetched.reqs r).extendInputLen := by
    intro r hr hstaging
    have hunfinished := hfetched.unfinished r hr
    rw [hfetched.reqs] at hstaging hunfinished ⊢
    have hidle : Idle server.model server.maskId _ _ :=
      (Reachable.contexts hcache reachable).initNextRound hkept hscheduled hnone hstashed
        hunfinished
    exact hidle.le_extendInputLen hstaging
  have hgrants := processDllmBatches_grants hsuffices hB hpage hpos
    hfetched.queues.dllmWaiting_nodup hlengths hcapacity hadder
  unfold SchedulerState.prepareBatch at hprepare
  split_ifs at hprepare
  · cases hprepare
    intro r hr
    change r ∈ fetched.batch.getD [] at hr
    rw [hfetched.batch, hbatch] at hr
    cases hr
  · obtain ⟨hqueues', hbut, -⟩ := allocAll_sameQueues hprepare
    intro r hr
    rw [hqueues'.batch] at hr
    obtain ⟨idx, mid, hreq⟩ := hbut r
    rw [hreq]
    exact hgrants.whole r hr

end Reachable

end LladaHybrid.Serving
