import LladaHybrid.Serving.ContextInvariant
import LladaHybrid.Decode.ContinuousBatching

namespace LladaHybrid.Serving

open LladaHybrid.Library LladaHybrid.Decode

/-! A request under the chunk cache beside the same request decoded alone: neither the
requests it shares batches with, nor the budgets, nor the order of the batches shows in the
tokens it is given. -/

variable {τ L S Z Kv K : Type} {B V R : Nat}

/-- The tokens of a request, the prompt included, and the blocks they were decoded in. -/
structure Decoded (B V : Nat) where
  tokens : List (Fin V)
  blocks : List (Block B V)

section Alone

variable [AddMonoid S] [AddMonoid Z]

/-- The network on a batch of one request that was served `blocks`. -/
def ServedModel.aloneRunner (model : ServedModel L S Z Kv B V K) (blocks : List (Block B V)) :
    ModelRunner Unit 1 B V K where
  forward _ ids :=
    let context := model.replay blocks
    (⟨fun i => model.logits context.state context.rows (ids i), false⟩, ())

/-- The state and the rows a block is computed from. -/
def ServedModel.machine (model : ServedModel L S Z Kv B V K) (context : (L → S × Z) × List Kv)
    (ids : Block B V) : Logits B V K × ((L → S × Z) × List Kv) :=
  (model.logits context.1 context.2 ids, context)

theorem ServedModel.runner_rowIndependent (model : ServedModel L S Z Kv B V K)
    (entries : Fin R → BatchEntry Kv) :
    RowIndependent model.machine (model.runner entries) (fun device i =>
      (device.mambaPool.state .committed (entries i).slot, (entries i).prefixIndices)) where
  logits _ _ _ := rfl
  cached _ ids i :=
    congrArg (·, (entries i).prefixIndices) (model.writeStates_committed _ entries ids _)

theorem ServedModel.aloneRunner_rowIndependent (model : ServedModel L S Z Kv B V K)
    (blocks : List (Block B V)) :
    RowIndependent model.machine (model.aloneRunner blocks)
      (fun _ _ => ((model.replay blocks).state, (model.replay blocks).rows)) where
  logits _ _ _ := rfl
  cached _ _ _ := rfl

variable [Field K] [LinearOrder K] [ExpOps K] [TopK K] [NeZero V]
  (algorithm : DllmAlgorithm V K) (model : ServedModel L S Z Kv B V K)

def decodeBlock (decoded : Decoded B V) : Option (Decoded B V) :=
  (algorithm.run (model.aloneRunner decoded.blocks) ()
      (fun _ => blockOf algorithm.maskId
        (decoded.tokens.drop (B * decoded.blocks.length)))).map
    (fun res => ⟨decoded.tokens ++ res.nextTokenIdsList.getD 0 [],
      decoded.blocks ++ [res.inputIds onlyRow]⟩)

def decodeAlone (prompt : List (Fin V)) : Nat → Option (Decoded B V)
  | 0 => some ⟨prompt, []⟩
  | n + 1 => (decodeAlone prompt n).bind (decodeBlock algorithm model)

variable {algorithm model} {prompt : List (Fin V)} {decoded decoded' : Decoded B V}

/-- A decoded block is filled up to its end, unless it lies within the prompt. -/
theorem decodeAlone_tokens (hprompt : algorithm.maskId ∉ prompt) {n : Nat}
    (hn : decodeAlone algorithm model prompt n = some decoded) :
    decoded.blocks.length = n ∧ prompt <+: decoded.tokens ∧
      decoded.tokens.length = max prompt.length (n * B) := by
  induction n generalizing decoded with
  | zero =>
      cases hn
      exact ⟨rfl, List.prefix_rfl, by rw [Nat.zero_mul, Nat.max_zero]⟩
  | succ n ih =>
      obtain ⟨before, hbefore, hstep⟩ := Option.bind_eq_some_iff.mp hn
      obtain ⟨hblocks, hstart, hlength⟩ := ih hbefore
      have hnot : algorithm.maskId ∉ before.tokens.drop (B * before.blocks.length) := by
        rw [hblocks, Nat.mul_comm]
        obtain ⟨rest, hrest⟩ := hstart
        rcases Nat.le_total prompt.length (n * B) with hpast | hwithin
        · rw [List.drop_eq_nil_of_le (by omega)]
          exact List.not_mem_nil
        · have hnil : rest = [] := by
            have hsum := congrArg List.length hrest
            rw [List.length_append, hlength] at hsum
            exact List.length_eq_zero_iff.mp (by omega)
          rw [← hrest, hnil, List.append_nil]
          exact fun hmem => hprompt (List.mem_of_mem_drop hmem)
      obtain ⟨res, hres, rfl⟩ := Option.map_eq_some_iff.mp hstep
      have hnext := (DllmAlgorithm.run_fillsMasks hres).next 0
      refine ⟨?_, hstart.trans (List.prefix_append _ _), ?_⟩
      · rw [List.length_append, List.length_singleton, hblocks]
      · change (before.tokens ++ res.nextTokenIdsList.getD (0 : Fin 1).val []).length = _
        rw [hnext, sub_card_of_notMem hnot, List.length_append, List.length_drop, List.length_ofFn,
          List.length_drop, hblocks, hlength, Nat.succ_mul, Nat.mul_comm B n]
        omega

end Alone

/-! The tokens of the requests through a round of the scheduler. -/

structure SameTokens (reqs reqs' : Nat → Req V Kv) : Prop where
  originInputIds : ∀ r, (reqs' r).originInputIds = (reqs r).originInputIds
  outputIds : ∀ r, (reqs' r).outputIds = (reqs r).outputIds

theorem SameTokens.tokens {reqs reqs' : Nat → Req V Kv} (same : SameTokens reqs reqs') (r : Nat) :
    (reqs' r).tokens = (reqs r).tokens := by
  rw [Req.tokens, Req.tokens, same.originInputIds, same.outputIds]

/-- What only a run of the batch changes. -/
def Req.content (req : Req V Kv) : List (Fin V) × List (Fin V) × List Kv × Bool :=
  (req.originInputIds, req.outputIds, req.reqToToken, req.finished)

theorem Selected.content {cache : TreeCache τ V Kv} {tree : τ} {maskId : Fin V}
    {added : Bool} {req req' : Req V Kv}
    (selected : Selected cache tree B maskId added req req') : req'.content = req.content := by
  cases selected with
  | kept => rfl
  | staged _ _ => rfl
  | admitted _ _ hmatched =>
      obtain ⟨-, rfl⟩ := Req.setMatched_ok hmatched
      rfl
  | rejected _ hmatched =>
      obtain ⟨-, rfl⟩ := Req.setMatched_ok hmatched
      rfl

variable {server : Server τ L S Z Kv B V K} {s s' : SchedulerState τ L S Z Kv B V}
  {size mambaSize : Nat}

theorem initNextRound_content (server : Server τ L S Z Kv B V K)
    (s : SchedulerState τ L S Z Kv B V) (r : Nat) :
    ((server.initNextRound s).reqs r).content = (s.reqs r).content := by
  simp only [Server.initNextRound]
  split_ifs <;> rfl

theorem stashAll_content {rids : List Nat}
    (hok : rids.foldlM server.stashChunkedRequest s = .ok s') (r : Nat) :
    (s'.reqs r).content = (s.reqs r).content := by
  refine foldlM_invariant (fun t => (t.reqs r).content = (s.reqs r).content) ?_ hok rfl
  rintro before rid after - hstep hsame
  obtain ⟨idx, -, rfl⟩ := Server.stashChunkedRequest_ok hstep
  rw [← hsame]
  by_cases hr : r = rid
  · subst hr
    simp only [SchedulerState.setReq, Function.update_self]
    rfl
  · simp only [SchedulerState.setReq, Function.update_of_ne hr]

/-- A round that forms a batch leaves every token, every row and the history alone. -/
theorem Scheduled.getNextBatch_content [Zero S] [Zero Z] {budget : Budget}
    (scheduled : Scheduled size mambaSize s)
    (hok : server.getNextBatchToRun budget s = .ok s') :
    (∀ r, (s'.reqs r).content = (s.reqs r).content) ∧ s'.served = s.served := by
  obtain ⟨stashed, hstashed, hrest⟩ := Server.getNextBatchToRun_ok hok
  obtain ⟨hallocated, hqueues, hlive⟩ := scheduled.stashed hstashed
  have hserved : stashed.served = s.served := (stashAll_sameQueues hstashed).1.served
  have hfirst : ∀ r, (stashed.reqs r).content = (s.filterFinishedReqs.reqs r).content :=
    stashAll_content hstashed
  rcases hrest with ⟨-, rfl⟩ | ⟨fetched, adder, hok', hadder, hprepare⟩
  · exact ⟨hfirst, hserved⟩
  · have hfetched := Scheduled.fetched hallocated hqueues hlive hok'
    obtain ⟨-, -, hselected⟩ :=
      Server.processDllmBatches_adds hfetched.queues.dllmWaiting_nodup hadder
    have hround : ∀ r, (adder.reqs r).content = (s.reqs r).content := by
      intro r
      rw [(hselected r).content, hfetched.reqs, initNextRound_content]
      exact hfirst r
    unfold SchedulerState.prepareBatch at hprepare
    split_ifs at hprepare with hempty
    · cases hprepare
      exact ⟨hround, hfetched.served.trans hserved⟩
    · obtain ⟨hsame, hbut, -⟩ := allocAll_sameQueues hprepare
      refine ⟨fun r => ?_, hsame.served.trans (hfetched.served.trans hserved)⟩
      obtain ⟨idx, mid, hreq⟩ := hbut r
      rw [hreq, ← hround r]
      rfl

theorem Scheduled.getNextBatch_sameTokens [Zero S] [Zero Z] {budget : Budget}
    (scheduled : Scheduled size mambaSize s)
    (hok : server.getNextBatchToRun budget s = .ok s') :
    SameTokens s.reqs s'.reqs ∧ s'.served = s.served := by
  obtain ⟨hcontent, hserved⟩ := scheduled.getNextBatch_content hok
  refine ⟨⟨fun r => ?_, fun r => ?_⟩, hserved⟩
  · exact congrArg Prod.fst (hcontent r)
  · exact congrArg (fun content => content.2.1) (hcontent r)

theorem Scheduled.getNextBatch_finished [Zero S] [Zero Z] {budget : Budget}
    (scheduled : Scheduled size mambaSize s)
    (hok : server.getNextBatchToRun budget s = .ok s') (r : Nat) :
    (s'.reqs r).finished = (s.reqs r).finished :=
  congrArg (fun content => content.2.2.2) ((scheduled.getNextBatch_content hok).1 r)

theorem processReq_tokens {stops : Nat → Bool} {rid : Nat} {next : List (Fin V)}
    (hok : server.processReq stops s (rid, next) = .ok s') :
    (s'.reqs rid).originInputIds = (s.reqs rid).originInputIds ∧
      (s'.reqs rid).outputIds = (s.reqs rid).outputIds ++ next := by
  rcases Server.processReq_cases hok with ⟨rfl, rfl⟩ | ⟨-, rfl⟩ | ⟨-, _, _, -, -, rfl⟩
  · exact ⟨rfl, (List.append_nil _).symm⟩
  · simp [SchedulerState.setReq, Req.appendTokens]
  · simp [SchedulerState.setReq, Req.appendTokens]

theorem processAll_tokens {stops : Nat → Bool} {rids : List Nat} {lists : List (List (Fin V))}
    (hnodup : rids.Nodup) (hok : (rids.zip lists).foldlM (server.processReq stops) s = .ok s')
    {r : Nat} (hr : r ∈ rids) :
    (s'.reqs r).originInputIds = (s.reqs r).originInputIds ∧
      (s'.reqs r).outputIds = (s.reqs r).outputIds ++ lists.getD (rids.idxOf r) [] := by
  induction rids generalizing lists s with
  | nil => cases hr
  | cons rid rest ih =>
      rw [List.nodup_cons] at hnodup
      cases lists with
      | nil =>
          cases hok
          exact ⟨rfl, (List.append_nil _).symm⟩
      | cons next lists =>
          rw [List.zip_cons_cons, List.foldlM_cons] at hok
          obtain ⟨middle, hfirst, hrest⟩ := bind_eq_ok hok
          rcases List.mem_cons.mp hr with rfl | hmem
          · have hkept := (processAll_sameQueues hrest).2 r
              (fun hkey => hnodup.1 ((zip_keys_sublist rest lists).subset hkey))
            rw [hkept, List.idxOf_cons_self, List.getD_cons_zero]
            exact processReq_tokens hfirst
          · have hne : r ≠ rid := fun hsame => hnodup.1 (hsame ▸ hmem)
            rw [List.idxOf_cons_ne rest hne.symm, List.getD_cons_succ,
              ← (processReq_sameQueues hfirst).2 r hne]
            exact ih hnodup.2 hrest hmem

/-! A batch beside its requests alone. -/

section Run

variable [Field K] [LinearOrder K] [ExpOps K] [TopK K] [NeZero V]

/-- Either decoder gives a request of a batch the block it would get alone. -/
theorem DllmAlgorithm.run_alone {σ ρ : Type} {algorithm : DllmAlgorithm V K}
    {machine : ρ → Block B V → Logits B V K × ρ} {model : ModelRunner σ R B V K}
    {single : ModelRunner Unit 1 B V K} {cached : σ → Fin R → ρ}
    {cachedAlone : Unit → Fin 1 → ρ} (hbatch : RowIndependent machine model cached)
    (hsingle : RowIndependent machine single cachedAlone) {runner : σ} {ids : Fin R → Block B V}
    {i : Fin R} (hstate : cached runner i = cachedAlone () 0) {res : RunResult σ R B V K}
    (hres : algorithm.run model runner ids = some res) :
    ∃ alone, algorithm.run single () (fun _ => ids i) = some alone ∧
      res.inputIds i = alone.inputIds 0 ∧
      res.nextTokenIdsList.getD i [] = alone.nextTokenIdsList.getD 0 [] := by
  have halone : ∃ alone, algorithm.run single () (fun _ => ids i) = some alone ∧
      res.inputIds i = alone.inputIds 0 := by
    cases algorithm with
    | jointThreshold alg =>
        have hreturns := (alg.run_isSome_iff model runner ids).mp
          (Option.isSome_iff_exists.mpr ⟨res, hres⟩)
        obtain ⟨alone, halone⟩ := Option.isSome_iff_exists.mp
          ((alg.run_isSome_iff single () (fun _ => ids i)).mpr
            (hreturns.imp (fun hnone _ => hnone i) id))
        refine ⟨alone, halone, ?_⟩
        rw [JointThreshold.run_inputIds hres, JointThreshold.run_inputIds halone]
        exact congrArg JointThreshold.RowState.inputIds
          (alg.denoise_sameRow hbatch hsingle runner () ids hstate).row
    | lowConfidence alg =>
        cases hres
        refine ⟨_, rfl, ?_⟩
        rw [alg.run_inputIds, alg.run_inputIds]
        exact (alg.denoise_sameRow hbatch hsingle runner () ids hstate).inputIds
  obtain ⟨alone, halone, hids⟩ := halone
  refine ⟨alone, halone, hids, ?_⟩
  rw [(DllmAlgorithm.run_fillsMasks hres).next, hids]
  exact ((DllmAlgorithm.run_fillsMasks halone).next 0).symm

/-! All runs of the scheduler. -/

variable [AddMonoid S] [AddMonoid Z] {server : Server PUnit L S Z Kv B V K}
  {s s' : SchedulerState PUnit L S Z Kv B V}

/-- A request has the tokens and the blocks that decoding it alone gives it. -/
def DecodedAlone (server : Server PUnit L S Z Kv B V K)
    (s : SchedulerState PUnit L S Z Kv B V) (r : Nat) : Prop :=
  decodeAlone server.algorithm server.model (s.reqs r).originInputIds (s.served r).length =
    some ⟨(s.reqs r).tokens, (s.served r).map ServedBlock.tokens⟩

theorem DecodedAlone.length_tokens {r : Nat} (decoded : DecodedAlone server s r)
    (hprompt : server.maskId ∉ (s.reqs r).originInputIds) :
    (s.reqs r).tokens.length =
      max (s.reqs r).originInputIds.length ((s.served r).length * B) :=
  (decodeAlone_tokens hprompt decoded).2.2

theorem DecodedAlone.congr {r : Nat} (decoded : DecodedAlone server s r)
    (same : SameTokens s.reqs s'.reqs) (hserved : s'.served = s.served) :
    DecodedAlone server s' r := by
  rw [DecodedAlone, same.originInputIds, same.tokens, hserved]
  exact decoded

theorem DecodedAlone.recv {r : Nat} (decoded : DecodedAlone server s r)
    (scheduled : Scheduled size mambaSize s) (originInputIds : List (Fin V)) :
    DecodedAlone server (s.recvRequest originInputIds) r := by
  by_cases hr : r = s.nextRid
  · subst hr
    obtain ⟨-, hmamba, hfinished⟩ := scheduled.queues.fresh s.nextRid le_rfl
    have hserved : s.served s.nextRid = [] := scheduled.allocated.unserved hmamba hfinished
    simp [DecodedAlone, SchedulerState.recvRequest, hserved, decodeAlone, Req.tokens, Req.new]
  · simp only [DecodedAlone, SchedulerState.recvRequest, Function.update_of_ne hr]
    exact decoded

/-- What the decoder makes of the block of a request in the batch that is about to run. -/
theorem Ready.decodeBlock {rids : List Nat} {r : Nat} (hr : r ∈ rids)
    (ready : Ready server.model server.maskId (s.reqs r) (s.served r))
    (holds : Holds server.model [] s) (allocated : Allocated size mambaSize s)
    (live : AllLive s rids)
    {res : RunResult (Device L S Z Kv rids.length B) rids.length B V K}
    (hres : server.algorithm.run (server.model.runner (s.batchEntries rids))
      ⟨s.pool.mambaPool, fun _ => none⟩ (server.inputIds s rids) = some res) :
    Serving.decodeBlock server.algorithm server.model
        ⟨(s.reqs r).tokens, (s.served r).map ServedBlock.tokens⟩ =
      some ⟨(s.reqs r).tokens ++ res.nextTokenIdsList.getD (rids.idxOf r) [],
        (s.served r).map ServedBlock.tokens ++
          [res.inputIds ⟨rids.idxOf r, List.idxOf_lt_length_of_mem hr⟩]⟩ := by
  obtain ⟨slot, hslot⟩ := live r hr
  have hget := exists_get_idxOf hr
  have hlength := ServedModel.length_rowsOf server.model (s.served r)
  have hblock : server.inputIds s rids ⟨rids.idxOf r, List.idxOf_lt_length_of_mem hr⟩ =
      blockOf server.maskId ((s.reqs r).tokens.drop
        (B * ((s.served r).map ServedBlock.tokens).length)) := by
    rw [Server.inputIds, hget, List.length_map, ← hlength, ← ready.prefixIndices]
    refine Req.inputBlock_eq ready.fillIds ?_
    rw [ready.prefixIndices]
    exact ready.tracks.length_le
  have hstate : (s.pool.mambaPool.state .committed
        (s.batchEntries rids ⟨rids.idxOf r, List.idxOf_lt_length_of_mem hr⟩).slot,
      (s.batchEntries rids ⟨rids.idxOf r, List.idxOf_lt_length_of_mem hr⟩).prefixIndices) =
      ((server.model.replay ((s.served r).map ServedBlock.tokens)).state,
        (server.model.replay ((s.served r).map ServedBlock.tokens)).rows) := by
    rw [allocated.batchEntries_slot (by rw [hget, hslot]), holds.promoted hslot List.not_mem_nil,
      ready.tracks.inContext.stateOf]
    simp only [SchedulerState.batchEntries, hget, ready.prefixIndices, ServedModel.rowsOf]
  obtain ⟨alone, halone, hids, hnext⟩ := DllmAlgorithm.run_alone
    (server.model.runner_rowIndependent (s.batchEntries rids))
    (server.model.aloneRunner_rowIndependent ((s.served r).map ServedBlock.tokens)) hstate hres
  rw [hblock] at halone
  rw [Serving.decodeBlock]
  exact Option.map_eq_some_iff.mpr ⟨alone, halone, by rw [hids, hnext]⟩

theorem DecodedAlone.run (sound : Sound server.model size mambaSize s)
    (staged : Staged (chunkStages server.model server.maskId) s) {rids : List Nat}
    {stops : Nat → Bool} (hsome : s.batch = some rids)
    (hok : server.runBatch stops s rids = .ok s') {r : Nat} (decoded : DecodedAlone server s r) :
    DecodedAlone server s' r := by
  obtain ⟨res, hres, hprocess⟩ := Server.runBatch_ok hok
  obtain ⟨hstaging, hlive⟩ := sound.batch hsome
  have hnodup : rids.Nodup := hstaging ▸ sound.queues.staging_nodup
  obtain ⟨hqueues, hkept⟩ := processAll_sameQueues hprocess
  by_cases hr : r ∈ rids
  · have hholds := sound.holds
    rw [SchedulerState.pending_of_some hsome] at hholds
    have hblock := Ready.decodeBlock hr (staged.ready hsome hr) hholds sound.allocated hlive hres
    obtain ⟨hinput, houtput⟩ := processAll_tokens hnodup hprocess hr
    have hserved : s'.served r = s.served r ++ [⟨(s.reqs r).prefixIndices,
        res.inputIds ⟨rids.idxOf r, List.idxOf_lt_length_of_mem hr⟩⟩] := by
      rw [hqueues.served]
      exact dif_pos hr
    have hreq : (s.afterRun rids res).reqs r = { s.reqs r with
        reqToToken := ((s.afterRun rids res).reqs r).reqToToken } := by
      simp only [SchedulerState.afterRun, dif_pos hr]
    rw [hreq] at hinput houtput
    rw [DecodedAlone, Req.tokens, hinput, houtput, hserved, List.length_append,
      List.length_singleton, decodeAlone]
    refine Option.bind_eq_some_iff.mpr ⟨_, decoded, hblock.trans ?_⟩
    rw [List.map_append, List.map_singleton, Req.tokens, List.append_assoc]
  · have hsame : s'.reqs r = s.reqs r := by
      rw [hkept r (fun hkey => hr ((zip_keys_sublist rids _).subset hkey))]
      exact dif_neg hr
    rw [DecodedAlone, hsame, hqueues.served, SchedulerState.afterRun_served_of_notMem hr]
    exact decoded

theorem Server.Reachable.decodedAlone (hcache : server.treeCache = chunkCache V Kv)
    (reachable : server.Reachable size mambaSize ⟨⟩ s) (r : Nat) : DecodedAlone server s r := by
  induction reachable with
  | refl => rfl
  | tail before step ih =>
      have hsound := Reachable.sound before
      cases step with
      | recv originInputIds _ => exact ih.recv hsound.toScheduled originInputIds
      | getNextBatch budget _ hok _ =>
          obtain ⟨hsame, hserved⟩ := hsound.toScheduled.getNextBatch_sameTokens hok
          exact ih.congr hsame hserved
      | run stops hsome hok =>
          exact DecodedAlone.run hsound (Reachable.contexts hcache before) hsome hok ih
      | evict _ => exact ih

end Run

namespace TwoBlocks

end TwoBlocks

end LladaHybrid.Serving
