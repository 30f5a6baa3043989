import LladaHybrid.Serving.CudaGraph

namespace LladaHybrid.Serving

open LladaHybrid.Library LladaHybrid.Decode

/-! The padding entries of a replay. The runner fills them with the block size and the
backend looks for the fill value `1`, so they keep the request pool indices that earlier
replays left in the buffers. -/

variable {τ L S Z Kv K : Type} {B V : Nat} {server : Server τ L S Z Kv B V K}
  {s s' : SchedulerState τ L S Z Kv B V} {size mambaSize : Nat}

/-! The length of a request in a batch. -/

/-- A batch extends every request by a whole block. -/
def lengthStages (Kv : Type) (B V : Nat) : Stages Kv B V where
  idle req _ := req.isStaging → B ≤ req.fillIds.length ∧
    req.fillIds.length ≤ req.prefixIndices.length + req.extendInputLen
  ready req _ := B ≤ req.fillIds.length
  ran _ _ := True

theorem Req.length_fillIds_initNextRoundInput (req : Req V Kv) (maskId : Fin V) :
    B ≤ (req.initNextRoundInput B maskId).fillIds.length := by
  simp only [initNextRoundInput, initFillIdsForDllm, List.length_append, List.length_replicate]
  omega

theorem lengthStages_selected {cache : TreeCache τ V Kv} {tree : τ} {maskId : Fin V}
    {added : Bool} {req req' : Req V Kv} {served : List (ServedBlock Kv B V)}
    (idle : (lengthStages Kv B V).idle req served)
    (selected : Selected cache tree B maskId added req req')
    (hwhole : added = true → req'.extendInputLen = B) :
    if added then (lengthStages Kv B V).ready req' served
      else (lengthStages Kv B V).idle req' served := by
  cases selected with
  | kept => exact idle
  | staged remTokens hstaging =>
      obtain ⟨hblock, hextend⟩ := idle hstaging
      have hlength : min req.extendInputLen remTokens = B := hwhole rfl
      change B ≤ (req.fillIds.take (_ + min req.extendInputLen remTokens)).length
      rw [List.length_take]
      omega
  | admitted truncLen _ hmatched =>
      have hlength : truncLen = B := hwhole rfl
      obtain ⟨-, rfl⟩ := Req.setMatched_ok hmatched
      have hblock := req.length_fillIds_initNextRoundInput (B := B) maskId
      change B ≤ ((req.initNextRoundInput B maskId).fillIds.take (_ + truncLen)).length
      rw [List.length_take]
      omega
  | rejected _ hmatched =>
      obtain ⟨-, rfl⟩ := Req.setMatched_ok hmatched
      intro _
      refine ⟨req.length_fillIds_initNextRoundInput maskId, ?_⟩
      dsimp only
      omega

theorem lengthStages_kept (cache : TreeCache τ V Kv) (maskId : Fin V) :
    (lengthStages Kv B V).Kept cache maskId where
  new originInputIds hstaging := absurd hstaging (Req.not_isStaging_new originInputIds)
  promoted {req served} tree _ _ := by
    refine ⟨Req.length_fillIds_initNextRoundInput _ maskId, ?_⟩
    simp only [Req.initNextRoundInput]
    omega
  selected := lengthStages_selected
  idle_slots _ _ idle := idle
  ready_slots _ _ ready := ready

/-! A row of the request pool that was handed out once leads to a slot ever after. -/

def SchedulerState.mapping (s : SchedulerState τ L S Z Kv B V) : Nat → Nat :=
  s.pool.reqIndexToMambaIndex

theorem stashAll_mapping {rids : List Nat}
    (hok : rids.foldlM server.stashChunkedRequest s = .ok s') : s'.mapping = s.mapping := by
  refine foldlM_invariant (fun t => t.mapping = s.mapping) ?_ hok rfl
  intro before rid after _ hstep hbefore
  obtain ⟨idx, -, rfl⟩ := Server.stashChunkedRequest_ok hstep
  exact hbefore

theorem processAll_mapping {stops : Nat → Bool} {entries : List (Nat × List (Fin V))}
    (hok : entries.foldlM (server.processReq stops) s = .ok s') : s'.mapping = s.mapping := by
  refine foldlM_invariant (fun t => t.mapping = s.mapping) ?_ hok rfl
  intro before entry after _ hstep hbefore
  rcases Server.processReq_cases hstep with ⟨-, rfl⟩ | ⟨-, rfl⟩ | ⟨-, _, _, -, -, rfl⟩ <;>
    exact hbefore

variable [Zero S] [Zero Z]

theorem Allocated.mapping_alloc (allocated : Allocated size mambaSize s) {rid idx : Nat}
    (hok : s.allocReq rid = .ok s') (hne : s.mapping idx ≠ 0) : s'.mapping idx ≠ 0 := by
  rcases allocated.allocReq_cases hok with
    ⟨-, hpool, -⟩ | ⟨idx', mid, restReq, restMamba, -, -, hmamba, rfl⟩
  · rwa [SchedulerState.mapping, hpool]
  · have hmid := allocated.mambaSlots.free_subset mid (hmamba ▸ List.mem_cons_self)
    rw [List.mem_range'_1] at hmid
    change Function.update s.pool.reqIndexToMambaIndex idx' mid idx ≠ 0
    by_cases hidx : idx = idx'
    · subst hidx
      rw [Function.update_self]
      omega
    · rwa [Function.update_of_ne hidx]

theorem Allocated.mapping_allocAll (allocated : Allocated size mambaSize s) {rids : List Nat}
    {idx : Nat} (hlive : ∀ r ∈ rids, (s.reqs r).finished = false)
    (hok : rids.foldlM SchedulerState.allocReq s = .ok s') (hne : s.mapping idx ≠ 0) :
    s'.mapping idx ≠ 0 := by
  refine (foldlM_invariant_rest (fun rest t => t.mapping idx ≠ 0 ∧ Allocated size mambaSize t ∧
    ∀ r ∈ rest, (t.reqs r).finished = false) ?_ hok ⟨hne, allocated, hlive⟩).1
  rintro rid rest before after ⟨hne, allocated, hlive⟩ hstep
  refine ⟨allocated.mapping_alloc hstep hne, ?_, ?_⟩
  · exact allocated.alloc (hlive rid List.mem_cons_self) hstep
  · exact SameButSlots.unfinished (.allocReq hstep)
      (fun r hr => hlive r (List.mem_cons_of_mem rid hr))

theorem Scheduled.mapping_getNextBatch (scheduled : Scheduled size mambaSize s)
    {budget : Budget} {idx : Nat} (hok : server.getNextBatchToRun budget s = .ok s')
    (hne : s.mapping idx ≠ 0) : s'.mapping idx ≠ 0 := by
  obtain ⟨stashed, hstashed, hrest⟩ := Server.getNextBatchToRun_ok hok
  obtain ⟨hallocated, hqueues, hlive⟩ := scheduled.stashed hstashed
  have hstart : stashed.mapping idx ≠ 0 := by
    rw [stashAll_mapping hstashed]
    exact hne
  rcases hrest with ⟨-, rfl⟩ | ⟨fetched, adder, hfetched, hadder, hprepare⟩
  · exact hstart
  have hfetched := Scheduled.fetched hallocated hqueues hlive hfetched
  have hbase : fetched.mapping idx ≠ 0 := by
    rwa [SchedulerState.mapping, hfetched.pool]
  obtain ⟨-, hwaiting, hselected⟩ :=
    Server.processDllmBatches_adds hfetched.queues.dllmWaiting_nodup hadder
  have hsame : SameSlots fetched.reqs adder.reqs := Selected.sameSlots_all hselected
  unfold SchedulerState.prepareBatch at hprepare
  split_ifs at hprepare with hempty
  · cases hprepare
    exact hbase
  · have hadded : Allocated size mambaSize { fetched with
        reqs := adder.reqs
        stagingQueue := fetched.stagingQueue ++ adder.canRunList
        batch := some adder.canRunList } :=
      hfetched.allocated.congr hsame (.refl _) (fun _ _ => rfl)
    refine hadded.mapping_allocAll ?_ hprepare hbase
    intro r hr
    change (adder.reqs r).finished = false
    rw [hsame.finished]
    exact hfetched.unfinished r (hwaiting r hr)

/-! All runs. -/

structure GraphSound (size mambaSize : Nat) (g : GraphState τ L S Z Kv B V) : Prop where
  scheduled : Scheduled size mambaSize g.scheduler
  staged : Staged (lengthStages Kv B V) g.scheduler
  buffers : ∀ i, g.buffers.reqPoolIndices i ≠ 0 →
    g.scheduler.mapping (g.buffers.reqPoolIndices i) ≠ 0

variable {g g' : GraphState τ L S Z Kv B V} {captureBs rids : List Nat}

omit [Zero S] [Zero Z] in
theorem Scheduled.reqPoolIdx_of_batch (scheduled : Scheduled size mambaSize s)
    (hsome : s.batch = some rids) {r : Nat} (hr : r ∈ rids) :
    ∃ idx, (s.reqs r).reqPoolIdx = some idx ∧
      (s.reqs r).mambaPoolIdx = some (s.mapping idx) := by
  obtain ⟨slot, hslot⟩ := (scheduled.batch hsome).2 r hr
  obtain ⟨idx, hidx, -⟩ := scheduled.allocated.reqPoolIdx_of_mamba hslot
  exact ⟨idx, hidx, scheduled.allocated.mapped hidx⟩

omit [Zero S] [Zero Z] in
theorem GraphSound.buffersAfterRun (sound : GraphSound size mambaSize g)
    (hsome : g.scheduler.batch = some rids) (i : Nat)
    (hne : (g.buffersAfterRun captureBs rids).reqPoolIndices i ≠ 0) :
    g.scheduler.mapping ((g.buffersAfterRun captureBs rids).reqPoolIndices i) ≠ 0 := by
  unfold GraphState.buffersAfterRun at hne ⊢
  split at hne
  · exact sound.buffers i hne
  · by_cases hi : i < rids.length
    · obtain ⟨idx, hidx, -⟩ :=
        sound.scheduled.reqPoolIdx_of_batch hsome (List.getElem_mem hi)
      rw [reqPoolIndices_replayPrepare_of_lt hi, hidx]
      exact sound.scheduled.allocated.mapping_ne_zero hidx
    · rw [reqPoolIndices_replayPrepare_of_le (Nat.not_lt.mp hi)] at hne ⊢
      exact sound.buffers i hne

theorem GraphSound.step (sound : GraphSound size mambaSize g)
    (step : server.GraphStep captureBs g g') : GraphSound size mambaSize g' := by
  have hkept := lengthStages_kept (B := B) server.treeCache server.maskId
  cases step with
  | recv originInputIds hnone =>
      exact ⟨sound.scheduled.recv hnone originInputIds,
        sound.staged.recv hkept sound.scheduled hnone originInputIds, sound.buffers⟩
  | getNextBatch budget hnone hok hwhole =>
      exact ⟨sound.scheduled.getNextBatch hnone hok,
        sound.staged.getNextBatch hkept sound.scheduled hnone hok hwhole,
        fun i hne => sound.scheduled.mapping_getNextBatch hok (sound.buffers i hne)⟩
  | run stops hsome hfree hok =>
      refine ⟨sound.scheduled.run hsome (SchedulerState.afterRun_afterForwards hfree) hok,
        sound.staged.run sound.scheduled hsome hok (fun _ _ _ => trivial), ?_⟩
      intro i hne
      rw [processAll_mapping hok]
      exact sound.buffersAfterRun hsome i hne
  | evict _ => exact ⟨sound.scheduled.evict _, sound.staged.evict _, sound.buffers⟩

theorem Server.GraphReachable.sound {tree : τ}
    (reachable : server.GraphReachable captureBs size mambaSize tree g) :
    GraphSound size mambaSize g := by
  induction reachable with
  | refl =>
      exact ⟨.initial size mambaSize tree,
        .initial (lengthStages_kept server.treeCache server.maskId), fun _ hne => absurd rfl hne⟩
  | tail _ step ih => exact ih.step step

/-! The plan of a replay. -/

/-- A row of the states that the allocator never hands out. -/
def ScratchRow (mambaSize row : Nat) : Prop :=
  row ≤ mambaSize ∧ row ∉ List.range' 1 mambaSize

structure SafePlan (mambaSize : Nat) (s : SchedulerState τ L S Z Kv B V) (rids : List Nat)
    {bs : Nat} (slots : Fin bs → Nat) : Prop where
  real : ∀ (i : Fin bs) (hi : i < rids.length),
    (s.reqs (rids.get ⟨i, hi⟩)).mambaPoolIdx = some (slots i)
  padding : ∀ i : Fin bs, rids.length ≤ i →
    ScratchRow mambaSize (slots i) ∧ ∀ r, (s.reqs r).mambaPoolIdx ≠ some (slots i)

namespace GraphSound

variable {bs : Nat}

omit [Zero S] [Zero Z] in
/-- The backend finds no padding: neither a request nor a filled entry has length `1`. -/
theorem replaySlots_eq (sound : GraphSound size mambaSize g)
    (hsome : g.scheduler.batch = some rids) (hblock : 1 < B) (i : Fin bs) :
    replaySlots g.buffers g.scheduler rids bs i = g.scheduler.mapping
      ((replayPrepare g.buffers g.scheduler rids bs).reqPoolIndices i) := by
  apply LLaDAFastBackend.slots_of_numPad_zero
  intro j hj
  rw [LLaDAFastBackend.getCudaGraphSeqLenFillValue]
  by_cases hreal : j < rids.length
  · have hlength : B ≤ (g.scheduler.reqs rids[j]).fillIds.length :=
      sound.staged.ready hsome (List.getElem_mem hreal)
    rw [seqLensCpu_replayPrepare_of_lt hreal]
    omega
  · rw [seqLensCpu_replayPrepare_of_le (Nat.not_lt.mp hreal) hj]
    omega

omit [Zero S] [Zero Z] in
theorem replaySlots_real (sound : GraphSound size mambaSize g)
    (hsome : g.scheduler.batch = some rids) (hblock : 1 < B) (i : Fin bs)
    (hi : i < rids.length) :
    (g.scheduler.reqs (rids.get ⟨i, hi⟩)).mambaPoolIdx =
      some (replaySlots g.buffers g.scheduler rids bs i) := by
  obtain ⟨idx, hidx, hslot⟩ :=
    sound.scheduled.reqPoolIdx_of_batch hsome (List.get_mem rids ⟨i, hi⟩)
  rw [sound.replaySlots_eq hsome hblock, reqPoolIndices_replayPrepare_of_lt hi, hslot]
  rw [List.get_eq_getElem] at hidx
  rw [hidx, Option.getD_some]

omit [Zero S] [Zero Z] in
theorem replaySlots_padding (sound : GraphSound size mambaSize g)
    (hsome : g.scheduler.batch = some rids) (hblock : 1 < B) (i : Fin bs)
    (hi : rids.length ≤ i) :
    replaySlots g.buffers g.scheduler rids bs i =
        g.scheduler.mapping (g.buffers.reqPoolIndices i) ∧
      replaySlots g.buffers g.scheduler rids bs i ∈ List.range' 1 mambaSize := by
  have hstale : replaySlots g.buffers g.scheduler rids bs i =
      g.scheduler.mapping (g.buffers.reqPoolIndices i) := by
    rw [sound.replaySlots_eq hsome hblock, reqPoolIndices_replayPrepare_of_le hi]
  refine ⟨hstale, ?_⟩
  rw [hstale]
  apply sound.scheduled.allocated.mapping_mem
  by_cases hzero : g.buffers.reqPoolIndices i = 0
  · obtain ⟨r, hr⟩ := List.exists_mem_of_ne_nil rids
      (fun hnil => sound.scheduled.batch_ne_nil (hnil ▸ hsome))
    obtain ⟨idx, hidx, -⟩ := sound.scheduled.reqPoolIdx_of_batch hsome hr
    rw [hzero]
    exact sound.scheduled.allocated.mapping_zero_ne_zero hidx
  · exact sound.buffers i hzero

end GraphSound

/-- The plan of a replay is safe exactly when there is nothing to pad: the real entries are
always right, and no padding entry is ever a scratch row. -/
theorem replaySlots_safe_iff {tree : τ} {bs : Nat} (hblock : 1 < B)
    (reachable : server.GraphReachable captureBs size mambaSize tree g)
    (hsome : g.scheduler.batch = some rids) (hbs : replayBs captureBs rids.length = some bs) :
    SafePlan mambaSize g.scheduler rids (replaySlots g.buffers g.scheduler rids bs) ↔
      bs = rids.length := by
  have hsound := Server.GraphReachable.sound reachable
  have hle := le_of_replayBs hbs
  constructor
  · intro safe
    by_contra hne
    have hlt : rids.length < bs := by omega
    obtain ⟨hscratch, -⟩ := safe.padding ⟨rids.length, hlt⟩ le_rfl
    exact hscratch.2 (hsound.replaySlots_padding hsome hblock ⟨rids.length, hlt⟩ le_rfl).2
  · rintro rfl
    exact ⟨hsound.replaySlots_real hsome hblock, fun i hi => absurd i.isLt (Nat.not_lt.mpr hi)⟩

/-! Three requests on the captured sizes `1`, `2` and `4`. -/

namespace ThreeRequests

def graphServer : Server PUnit Unit Nat Nat Unit 32 2 ℚ where
  treeCache := chunkCache 2 Unit
  algorithm := .jointThreshold (.ofConfig (Fin.last 1) ⟨none, none, none, none⟩)
  model :=
    { logits := fun _ _ _ => 0
      contribution := fun _ _ _ _ => (1, 1)
      kvRows := fun _ _ _ _ => () }
  maxRunningRequests := 4

def prompt : List (Fin 2) := List.replicate 32 ⟨0, Nat.two_pos⟩

theorem replaySlots_safe_iff_alone :
    ∃ g, graphServer.GraphReachable [1, 2, 4] 4 4 ⟨⟩ g ∧ g.scheduler.batch = some [0] ∧
      SafePlan 4 g.scheduler [0] (replaySlots g.buffers g.scheduler [0] 1) := by
  have harrived : graphServer.GraphReachable [1, 2, 4] 4 4 ⟨⟩
      ⟨.recvRequest (.initial 4 4 ⟨⟩) prompt, .create 32⟩ := .tail .refl (.recv prompt rfl)
  have hready := harrived.tail (.getNextBatch .ample rfl rfl (by decide +kernel))
  exact ⟨_, hready, rfl, (replaySlots_safe_iff (by decide) hready rfl rfl).mpr rfl⟩

/-- The padding entry is the slot of the first request of the batch. -/
theorem replaySlots_padding_live :
    ∃ g, graphServer.GraphReachable [1, 2, 4] 4 4 ⟨⟩ g ∧ g.scheduler.batch = some [0, 1, 2] ∧
      replayBs [1, 2, 4] 3 = some 4 ∧
      (g.scheduler.reqs 0).mambaPoolIdx =
        some (replaySlots g.buffers g.scheduler [0, 1, 2] 4 3) ∧
      ¬ SafePlan 4 g.scheduler [0, 1, 2] (replaySlots g.buffers g.scheduler [0, 1, 2] 4) := by
  have hfirst : graphServer.GraphReachable [1, 2, 4] 4 4 ⟨⟩
      ⟨.recvRequest (.initial 4 4 ⟨⟩) prompt, .create 32⟩ := .tail .refl (.recv prompt rfl)
  have hsecond := hfirst.tail (.recv prompt rfl)
  have hthird := hsecond.tail (.recv prompt rfl)
  have hready := hthird.tail (.getNextBatch .ample rfl rfl (by decide +kernel))
  refine ⟨_, hready, rfl, rfl, rfl, ?_⟩
  intro safe
  exact (safe.padding 3 le_rfl).2 0 rfl

end ThreeRequests

end LladaHybrid.Serving
