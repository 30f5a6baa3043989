import LladaHybrid.Serving.SchedulingInvariant

namespace LladaHybrid.Serving

open LladaHybrid.Library LladaHybrid.Decode

/-! A request is idle between two rounds, ready in the batch that is about to run, and ran
until its promotion. What these stages say of it carries over to all runs of the scheduler
once it carries over the code that moves a request from one stage to the next. -/

variable {τ L S Z Kv K : Type} {B V : Nat}

structure Stages (Kv : Type) (B V : Nat) where
  idle : Req V Kv → List (ServedBlock Kv B V) → Prop
  ready : Req V Kv → List (ServedBlock Kv B V) → Prop
  ran : Req V Kv → List (ServedBlock Kv B V) → Prop

structure Stages.Kept (stages : Stages Kv B V) (cache : TreeCache τ V Kv) (maskId : Fin V) :
    Prop where
  new : ∀ originInputIds, stages.idle (.new B originInputIds) []
  promoted : ∀ {req served} tree, stages.ran req served → stages.idle
    ({ req with prefixIndices := (cache.cacheUnfinishedReq tree req).2 }.initNextRoundInput
      B maskId) served
  selected : ∀ {req req' served tree added}, stages.idle req served →
    Selected cache tree B maskId added req req' →
    (added = true → req'.extendInputLen = B) →
    if added then stages.ready req' served else stages.idle req' served
  idle_slots : ∀ {req served} idx mid, stages.idle req served →
    stages.idle { req with reqPoolIdx := idx, mambaPoolIdx := mid } served
  ready_slots : ∀ {req served} idx mid, stages.ready req served →
    stages.ready { req with reqPoolIdx := idx, mambaPoolIdx := mid } served

structure Staged (stages : Stages Kv B V) (s : SchedulerState τ L S Z Kv B V) : Prop where
  idle : ∀ {r}, (s.reqs r).finished = false → r ∉ s.stagingQueue →
    stages.idle (s.reqs r) (s.served r)
  ready : ∀ {rids r}, s.batch = some rids → r ∈ rids → stages.ready (s.reqs r) (s.served r)
  ran : s.batch = none → ∀ {r}, r ∈ s.stagingQueue → (s.reqs r).finished = false →
    stages.ran (s.reqs r) (s.served r)

variable {stages : Stages Kv B V} {server : Server τ L S Z Kv B V K}
  {s s' : SchedulerState τ L S Z Kv B V} {size mambaSize : Nat}

theorem Staged.initial [Zero S] [Zero Z] {tree : τ}
    (kept : stages.Kept server.treeCache server.maskId) :
    Staged stages (.initial size mambaSize tree : SchedulerState τ L S Z Kv B V) where
  idle _ _ := kept.new []
  ready hsome := by cases hsome
  ran _ r hr := by cases hr

theorem Staged.recv (staged : Staged stages s)
    (kept : stages.Kept server.treeCache server.maskId)
    (scheduled : Scheduled size mambaSize s) (hnone : s.batch = none)
    (originInputIds : List (Fin V)) : Staged stages (s.recvRequest originInputIds) where
  idle {r} hlive hout := by
    by_cases hr : r = s.nextRid
    · subst hr
      obtain ⟨-, hmamba, hfinished⟩ := scheduled.queues.fresh s.nextRid le_rfl
      have hserved : s.served s.nextRid = [] := scheduled.allocated.unserved hmamba hfinished
      simp only [SchedulerState.recvRequest, Function.update_self, hserved]
      exact kept.new originInputIds
    · simp only [SchedulerState.recvRequest, Function.update_of_ne hr] at hlive ⊢
      exact staged.idle hlive hout
  ready hsome := by
    rw [SchedulerState.recvRequest, hnone] at hsome
    cases hsome
  ran _ r hr hlive := by
    have hne : r ≠ s.nextRid := Nat.ne_of_lt (scheduled.queues.staging_lt hr)
    simp only [SchedulerState.recvRequest, Function.update_of_ne hne] at hlive ⊢
    exact staged.ran hnone hr hlive

theorem Staged.evict (staged : Staged stages s) (tree : τ) : Staged stages { s with tree } :=
  ⟨staged.idle, staged.ready, staged.ran⟩

/-! A round of the scheduler. -/

theorem stashAll_reqs {rids : List Nat} (hnodup : rids.Nodup)
    (hok : rids.foldlM server.stashChunkedRequest s = .ok s') (r : Nat) :
    (r ∈ rids → ∃ tree, s'.reqs r = { s.reqs r with
      prefixIndices := (server.treeCache.cacheUnfinishedReq tree (s.reqs r)).2 }) ∧
      (r ∉ rids → s'.reqs r = s.reqs r) := by
  induction rids generalizing s with
  | nil =>
      cases hok
      exact ⟨fun hr => absurd hr List.not_mem_nil, fun _ => rfl⟩
  | cons rid rest ih =>
      rw [List.nodup_cons] at hnodup
      rw [List.foldlM_cons] at hok
      obtain ⟨middle, hfirst, hrest⟩ := bind_eq_ok hok
      obtain ⟨idx, -, rfl⟩ := Server.stashChunkedRequest_ok hfirst
      obtain ⟨hin, hout⟩ := ih hnodup.2 hrest
      by_cases hr : r = rid
      · subst hr
        refine ⟨fun _ => ⟨s.tree, ?_⟩, fun hnot => absurd List.mem_cons_self hnot⟩
        rw [hout hnodup.1]
        exact Function.update_self ..
      · simp only [SchedulerState.setReq, Function.update_of_ne hr] at hin hout
        simp only [List.mem_cons, hr, false_or]
        exact ⟨hin, hout⟩

theorem Staged.initNextRound (staged : Staged stages s)
    (kept : stages.Kept server.treeCache server.maskId)
    (scheduled : Scheduled size mambaSize s) (hnone : s.batch = none)
    {stashed : SchedulerState τ L S Z Kv B V}
    (hok : s.filterFinishedReqs.stagingQueue.foldlM server.stashChunkedRequest
      s.filterFinishedReqs = .ok stashed) {r : Nat}
    (hlive : ((server.initNextRound stashed).reqs r).finished = false) :
    stages.idle ((server.initNextRound stashed).reqs r) (stashed.served r) := by
  obtain ⟨hqueues, hslots⟩ := stashAll_sameQueues hok
  rw [(initNextRound_sameSlots server stashed).finished, hslots.finished] at hlive
  change (s.reqs r).finished = false at hlive
  obtain ⟨hin, hout⟩ := stashAll_reqs scheduled.queues.filterFinished.staging_nodup hok r
  have hmem : r ∈ s.filterFinishedReqs.stagingQueue ↔ r ∈ s.stagingQueue := by
    rw [SchedulerState.filterFinishedReqs, List.mem_filter, hlive]
    exact and_iff_left rfl
  rw [hqueues.served]
  change stages.idle (if r ∈ stashed.stagingQueue then _ else _) (s.served r)
  rw [hqueues.stagingQueue]
  by_cases hr : r ∈ s.filterFinishedReqs.stagingQueue
  · obtain ⟨tree, hreq⟩ := hin hr
    rw [if_pos hr, hreq]
    exact kept.promoted tree (staged.ran hnone (hmem.mp hr) hlive)
  · rw [if_neg hr, hout hr]
    exact staged.idle hlive (fun hmem' => hr (hmem.mpr hmem'))

theorem Staged.prepared [Zero S] [Zero Z] {stashed fetched : SchedulerState τ L S Z Kv B V}
    {budget : Budget} {adder : AdderState V Kv}
    (kept : stages.Kept server.treeCache server.maskId)
    (hfetched : Scheduled.Fetched size mambaSize stashed fetched server)
    (hnone : stashed.batch = none)
    (hidle : ∀ {r}, (fetched.reqs r).finished = false →
      stages.idle (fetched.reqs r) (fetched.served r))
    (hadder : server.processDllmBatches budget fetched = .ok adder)
    (hok : fetched.prepareBatch adder = .ok s') (hwhole : s'.WholeBlocks) :
    Staged stages s' := by
  obtain ⟨-, hwaiting, hselected⟩ :=
    Server.processDllmBatches_adds hfetched.queues.dllmWaiting_nodup hadder
  have hout : ∀ {r}, (adder.reqs r).finished = false → r ∉ adder.canRunList →
      stages.idle (adder.reqs r) (fetched.served r) := by
    intro r hr hnot
    rw [(hselected r).sameSlots.2.2] at hr
    have hstage := kept.selected (hidle hr) (hselected r)
      (fun hadded => absurd (of_decide_eq_true hadded) hnot)
    simpa only [hnot, decide_false, Bool.false_eq_true, if_false] using hstage
  unfold SchedulerState.prepareBatch at hok
  split_ifs at hok with hempty
  · cases hok
    refine ⟨fun hr _ => hout hr (by rw [hempty]; exact List.not_mem_nil), ?_, ?_⟩
    · intro rids r hsome
      cases (hfetched.batch.trans hnone).symm.trans hsome
    · intro _ r hr
      change r ∈ fetched.stagingQueue at hr
      rw [hfetched.stagingQueue] at hr
      cases hr
  · obtain ⟨hqueues, hbut, -⟩ := allocAll_sameQueues hok
    refine ⟨?_, ?_, ?_⟩
    · intro r hr hnot
      obtain ⟨idx, mid, hreq⟩ := hbut r
      rw [hqueues.stagingQueue, hfetched.stagingQueue] at hnot
      rw [hreq] at hr ⊢
      rw [hqueues.served]
      exact kept.idle_slots idx mid (hout hr hnot)
    · intro rids r hsome hr
      rw [hqueues.batch] at hsome
      cases hsome
      obtain ⟨idx, mid, hreq⟩ := hbut r
      have hlength : (adder.reqs r).extendInputLen = B := by
        have hblock := hwhole r (by rwa [hqueues.batch])
        rwa [hreq] at hblock
      have hstage := kept.selected (hidle (hfetched.unfinished r (hwaiting r hr)))
        (hselected r) (fun _ => hlength)
      rw [decide_eq_true hr, if_pos rfl] at hstage
      rw [hreq, hqueues.served]
      exact kept.ready_slots idx mid hstage
    · intro hsome
      rw [hqueues.batch] at hsome
      cases hsome

theorem Staged.getNextBatch [Zero S] [Zero Z] (staged : Staged stages s)
    (kept : stages.Kept server.treeCache server.maskId)
    (scheduled : Scheduled size mambaSize s) {budget : Budget} (hnone : s.batch = none)
    (hok : server.getNextBatchToRun budget s = .ok s') (hwhole : s'.WholeBlocks) :
    Staged stages s' := by
  obtain ⟨stashed, hstashed, hrest⟩ := Server.getNextBatchToRun_ok hok
  obtain ⟨hallocated, hqueues, hlive⟩ := scheduled.stashed hstashed
  have hbatch : stashed.batch = none := (stashAll_sameQueues hstashed).1.batch.trans hnone
  have hidle : ∀ {r}, ((server.initNextRound stashed).reqs r).finished = false →
      stages.idle ((server.initNextRound stashed).reqs r) (stashed.served r) :=
    staged.initNextRound kept scheduled hnone hstashed
  rcases hrest with ⟨hskip, rfl⟩ | ⟨fetched, adder, hok', hadder, hprepare⟩
  · have hstaging := hqueues.staging_of_skip hskip
    have hreqs : ∀ r, (server.initNextRound s').reqs r = s'.reqs r := by
      intro r
      exact if_neg (by rw [hstaging]; exact List.not_mem_nil)
    refine ⟨?_, ?_, ?_⟩
    · intro r hr _
      rw [← hreqs r] at hr ⊢
      exact hidle hr
    · intro rids r hsome
      cases hbatch.symm.trans hsome
    · intro _ r hr
      rw [hstaging] at hr
      cases hr
  · have hfetched := Scheduled.fetched hallocated hqueues hlive hok'
    refine prepared kept hfetched hbatch ?_ hadder hprepare hwhole
    intro r hr
    rw [hfetched.reqs] at hr ⊢
    rw [hfetched.served]
    exact hidle hr

/-! A run of the batch. -/

theorem Req.appendTokens_nil {req : Req V Kv} (hlive : req.finished = false) :
    req.appendTokens [] false = req := by
  rw [appendTokens, List.length_nil, Nat.sub_zero, List.take_length, List.append_nil,
    List.append_nil, ← hlive]

theorem processReq_reqs {stops : Nat → Bool} {rid : Nat} {next : List (Fin V)}
    (hok : server.processReq stops s (rid, next) = .ok s') (hlive : (s.reqs rid).finished = false)
    (hlive' : (s'.reqs rid).finished = false) :
    s'.reqs rid = (s.reqs rid).appendTokens next false := by
  rcases Server.processReq_cases hok with ⟨rfl, rfl⟩ | ⟨-, rfl⟩ | ⟨-, _, _, -, -, rfl⟩
  · exact (Req.appendTokens_nil hlive).symm
  · exact Function.update_self ..
  · simp [SchedulerState.setReq, Req.appendTokens] at hlive'

theorem processAll_reqs {stops : Nat → Bool} {rids : List Nat} {lists : List (List (Fin V))}
    (hnodup : rids.Nodup) (hok : (rids.zip lists).foldlM (server.processReq stops) s = .ok s')
    {r : Nat} (hr : r ∈ rids) (hlive : (s.reqs r).finished = false)
    (hlive' : (s'.reqs r).finished = false) :
    s'.reqs r = (s.reqs r).appendTokens (lists.getD (rids.idxOf r) []) false := by
  induction rids generalizing lists s with
  | nil => cases hr
  | cons rid rest ih =>
      rw [List.nodup_cons] at hnodup
      cases lists with
      | nil =>
          cases hok
          exact (Req.appendTokens_nil hlive).symm
      | cons next lists =>
          rw [List.zip_cons_cons, List.foldlM_cons] at hok
          obtain ⟨middle, hfirst, hrest⟩ := bind_eq_ok hok
          rcases List.mem_cons.mp hr with rfl | hmem
          · have hkept := (processAll_sameQueues hrest).2 r
              (fun hkey => hnodup.1 ((zip_keys_sublist rest lists).subset hkey))
            rw [hkept] at hlive'
            rw [hkept, List.idxOf_cons_self, List.getD_cons_zero]
            exact processReq_reqs hfirst hlive hlive'
          · have hne : r ≠ rid := fun hsame => hnodup.1 (hsame ▸ hmem)
            have hother := (processReq_sameQueues hfirst).2 r hne
            rw [List.idxOf_cons_ne rest hne.symm, List.getD_cons_succ, ← hother]
            exact ih hnodup.2 hrest hmem (by rwa [hother])

theorem Staged.run (staged : Staged stages s) (scheduled : Scheduled size mambaSize s)
    {rids : List Nat} {stops : Nat → Bool}
    {res : RunResult (Device L S Z Kv rids.length B) rids.length B V K}
    (hsome : s.batch = some rids)
    (hok : (rids.zip res.nextTokenIdsList).foldlM (server.processReq stops)
      (s.afterRun rids res) = .ok s')
    (hran : ∀ r ∈ rids, stages.ready (s.reqs r) (s.served r) →
      stages.ran (((s.afterRun rids res).reqs r).appendTokens
        (res.nextTokenIdsList.getD (rids.idxOf r) []) false) ((s.afterRun rids res).served r)) :
    Staged stages s' := by
  obtain ⟨hstaging, hlive⟩ := scheduled.batch hsome
  have hnodup : rids.Nodup := hstaging ▸ scheduled.queues.staging_nodup
  obtain ⟨hqueues, hkept⟩ := processAll_sameQueues hok
  refine ⟨?_, ?_, ?_⟩
  · intro r hr hnot
    rw [hqueues.stagingQueue] at hnot
    change r ∉ s.stagingQueue at hnot
    have hout : r ∉ rids := hstaging ▸ hnot
    have hsame : s'.reqs r = s.reqs r := by
      rw [hkept r (fun hkey => hout ((zip_keys_sublist rids _).subset hkey))]
      exact dif_neg hout
    rw [hsame] at hr ⊢
    rw [hqueues.served, SchedulerState.afterRun_served_of_notMem hout]
    exact staged.idle hr hnot
  · intro rids' r hsome'
    rw [hqueues.batch] at hsome'
    cases hsome'
  · intro _ r hr hlive'
    rw [hqueues.stagingQueue] at hr
    change r ∈ s.stagingQueue at hr
    rw [hstaging] at hr
    obtain ⟨slot, hslot⟩ := hlive r hr
    have hfinished : ((s.afterRun rids res).reqs r).finished = false :=
      ((s.afterRun_sameSlots rids res).finished r).trans
        (scheduled.allocated.finished_of_live hslot)
    rw [processAll_reqs hnodup hok hr hfinished hlive', hqueues.served]
    exact hran r hr (staged.ready hsome hr)

end LladaHybrid.Serving
