import LladaHybrid.Model.CachedGeneration
import LladaHybrid.Serving.BlockProgress
import LladaHybrid.Serving.RadixCache
import LladaHybrid.Serving.RequestStages
import LladaHybrid.Serving.ServedTransformer
import LladaHybrid.Serving.ServingInvariant

namespace LladaHybrid.Serving

open LladaHybrid.Library LladaHybrid.Decode LladaHybrid.Model

/-! A request that matches a cached prefix takes its KV rows from the tree, but its slot is
fresh: the recurrent states of the prefix are lost. -/

variable {τ L S Z Kv K : Type} {B V : Nat}

/-- Before a request is served, it has matched whole blocks. -/
def firstStages (Kv : Type) (B V : Nat) : Stages Kv B V where
  idle req served := served = [] → req.prefixIndices.length % B = 0
  ready req served := served = [] → req.prefixIndices.length % B = 0
  ran _ served := served ≠ []

theorem firstStages_kept (cache : TreeCache τ V Kv) (maskId : Fin V) :
    (firstStages Kv B V).Kept cache maskId where
  new _ _ := Nat.zero_mod B
  promoted _ ran hnil := absurd hnil ran
  selected {_ _ _ _ added} idle selected _ := by
    cases selected with
    | kept => exact idle
    | staged _ _ => exact idle
    | admitted _ _ hmatched =>
        obtain ⟨hlength, rfl⟩ := Req.setMatched_ok hmatched
        exact fun _ => hlength
    | rejected _ hmatched =>
        obtain ⟨hlength, rfl⟩ := Req.setMatched_ok hmatched
        exact fun _ => hlength
  idle_slots _ _ idle := idle
  ready_slots _ _ ready := ready

section Reachable

variable {server : Server τ L S Z Kv B V K} {s : SchedulerState τ L S Z Kv B V}
  {size mambaSize : Nat} {tree : τ} [Field K] [LinearOrder K] [ExpOps K] [TopK K] [NeZero V]
  [AddMonoid S] [AddMonoid Z]

theorem Server.Reachable.firstStages (reachable : server.Reachable size mambaSize tree s) :
    Staged (firstStages Kv B V) s := by
  have hkept := firstStages_kept (B := B) server.treeCache server.maskId
  induction reachable with
  | refl => exact .initial hkept
  | tail before step ih =>
      have hsound := Reachable.sound before
      cases step with
      | recv originInputIds hnone => exact ih.recv hkept hsound.toScheduled hnone originInputIds
      | getNextBatch budget hnone hok hwhole =>
          exact ih.getNextBatch hkept hsound.toScheduled hnone hok hwhole
      | run stops hsome hok =>
          obtain ⟨res, -, hprocess⟩ := Server.runBatch_ok hok
          refine ih.run hsound.toScheduled hsome hprocess ?_
          intro r hr _ hnil
          rw [SchedulerState.afterRun] at hnil
          simp only [dif_pos hr, List.append_eq_nil_iff, List.cons_ne_nil, and_false] at hnil
      | evict _ => exact ih.evict _

theorem Server.Reachable.committed_first (reachable : server.Reachable size mambaSize tree s)
    {rids : List Nat} (hbatch : s.batch = some rids) (i : Fin rids.length)
    (hfirst : s.served (rids.get i) = []) {device : Device L S Z Kv rids.length B}
    (forwards : Forwards server.model (s.batchEntries rids) ⟨s.pool.mambaPool, fun _ => none⟩
      device) :
    device.mambaPool.state .committed (s.batchEntries rids i).slot = 0 := by
  have hsound := Server.Reachable.sound reachable
  have hholds := hsound.holds
  rw [SchedulerState.pending_of_some hbatch] at hholds
  obtain ⟨slot, hslot⟩ := (hsound.batch hbatch).2 (rids.get i) (List.get_mem rids i)
  rw [forwards.keepsCommitted.committed, hsound.allocated.batchEntries_slot hslot]
  refine (hholds.promoted hslot List.not_mem_nil).trans ?_
  rw [hfirst]
  rfl

theorem Server.Reachable.exists_next (reachable : server.Reachable size mambaSize tree s)
    (budget : Budget) (hnone : s.batch = none)
    (check : SchedulerState τ L S Z Kv B V → Bool)
    (hcheck : (server.getNextBatchToRun budget s).toOption.any
      (fun s' => decide s'.WholeBlocks && check s') = true) :
    ∃ s', server.Reachable size mambaSize tree s' ∧ check s' = true := by
  cases hnext : server.getNextBatchToRun budget s with
  | error e =>
      rw [hnext] at hcheck
      cases hcheck
  | ok s' =>
      rw [hnext, Except.toOption, Option.any_some, Bool.and_eq_true, decide_eq_true_eq] at hcheck
      exact ⟨s', reachable.tail (.getNextBatch budget hnone hnext hcheck.1), hcheck.2⟩

end Reachable

def prefixBlocks (maskId : Fin V) (tokens : List (Fin V)) (length : Nat) : List (Block B V) :=
  (List.range (length / B)).map (fun n => blockOf maskId (tokens.drop (n * B)))

variable {X : Type} {D F : Nat} [Field K] [LinearOrder K] [ExpOps K] [LawfulExp K]
  [IsStrictOrderedRing K] [TopK K] [Add X] [NeZero B] [NeZero F] [NeZero V]

/-- A request starts from the states of its matched prefix exactly when it matched
nothing; it then computes what it computes without a cache. -/
theorem committed_eq_replay_prefix_iff {model : Transformer X D F V K}
    (layerIdx : HybridLayer model) {server : Server τ _ _ _ _ B V K}
    (hmodel : server.model = servedTransformer model) {s : SchedulerState τ _ _ _ _ B V}
    {size mambaSize : Nat} {tree : τ} (reachable : server.Reachable size mambaSize tree s)
    {rids : List Nat} (hbatch : s.batch = some rids) (i : Fin rids.length)
    (hfirst : s.served (rids.get i) = []) {device : Device _ _ _ _ rids.length B}
    (forwards : Forwards server.model (s.batchEntries rids) ⟨s.pool.mambaPool, fun _ => none⟩
      device) :
    let req := s.reqs (rids.get i)
    let committed := device.mambaPool.state .committed (s.batchEntries rids i).slot
    let cached := server.model.replay
      (prefixBlocks server.maskId req.fillIds req.prefixIndices.length)
    (committed = cached.state ↔ req.prefixIndices.length = 0) ∧
      (req.prefixIndices.length = 0 → ∀ ids,
        server.model.logits committed req.prefixIndices ids = server.model.logits 0 [] ids) := by
  intro req committed cached
  have hzero : committed = 0 := reachable.committed_first hbatch i hfirst forwards
  have hwhole : req.prefixIndices.length % B = 0 :=
    (Server.Reachable.firstStages reachable).ready hbatch (List.get_mem rids i) hfirst
  refine ⟨⟨?_, ?_⟩, ?_⟩
  · intro hsame
    by_contra hne
    have hblocks : prefixBlocks (B := B) server.maskId req.fillIds req.prefixIndices.length ≠
        [] := by
      intro hnil
      have hcount := Nat.div_add_mod req.prefixIndices.length B
      rw [prefixBlocks, List.map_eq_nil_iff, List.range_eq_nil] at hnil
      rw [hnil, hwhole] at hcount
      exact hne hcount.symm
    have hstate : cached.state ≠ 0 := by
      simp only [cached, hmodel]
      exact replay_state_ne_zero layerIdx hblocks
    exact hstate (hsame.symm.trans hzero)
  · intro hnone
    have hnil : prefixBlocks (B := B) server.maskId req.fillIds req.prefixIndices.length =
        [] := by
      rw [hnone, prefixBlocks, Nat.zero_div]
      rfl
    simp only [cached, hnil, hzero]
    rfl
  · intro hnone ids
    rw [hzero, List.length_eq_zero_iff.mp hnone]

/-! The second request has the prompt of the first. -/

namespace SharedPrompt

noncomputable def radixServer : Server (PageTree 2 (KvRow 1 ℝ)) (HybridLayer (twoLayerModel ℝ))
    (HeadStates 1 1 ℝ) (HeadSums 1 ℝ) (KvRow 1 ℝ) 32 2 ℝ where
  treeCache := radixCache 32 2 (KvRow 1 ℝ)
  algorithm := .jointThreshold (.ofConfig (Fin.last 1) ⟨none, none, none, none⟩)
  model := servedTransformer (twoLayerModel ℝ)
  maxRunningRequests := 2
  pageSize := 32

def prompt : List (Fin 2) := List.replicate 32 ⟨0, Nat.two_pos⟩

def hybridLayer : HybridLayer (twoLayerModel ℝ) := ⟨1, rfl⟩

theorem committed_eq_replay_prefix_first :
    ∃ s, radixServer.Reachable 2 2 .empty s ∧ s.batch = some [0] ∧ s.served 0 = [] ∧
      s.pool.mambaPool.state .committed (s.batchEntries [0] 0).slot =
        (radixServer.model.replay (prefixBlocks 1 (s.reqs 0).fillIds
          (s.reqs 0).prefixIndices.length)).state := by
  have harrived : radixServer.Reachable 2 2 .empty (.recvRequest (.initial 2 2 .empty) prompt) :=
    .tail .refl (.recv prompt rfl)
  have hready := harrived.tail (.getNextBatch .ample rfl rfl (by decide +kernel))
  obtain ⟨hiff, -⟩ := committed_eq_replay_prefix_iff hybridLayer rfl hready
    (show _ = some [0] from rfl) 0 rfl .refl
  exact ⟨_, hready, rfl, rfl, hiff.mpr rfl⟩

theorem committed_ne_replay_prefix_second :
    ∃ s, radixServer.Reachable 2 2 .empty s ∧ s.batch = some [1] ∧ s.served 1 = [] ∧
      (s.reqs 1).prefixIndices.length = 32 ∧
      s.pool.mambaPool.state .committed (s.batchEntries [1] 0).slot ≠
        (radixServer.model.replay (prefixBlocks 1 (s.reqs 1).fillIds
          (s.reqs 1).prefixIndices.length)).state := by
  have harrived : radixServer.Reachable 2 2 .empty (.recvRequest (.initial 2 2 .empty) prompt) :=
    .tail .refl (.recv prompt rfl)
  have hready := harrived.tail (.getNextBatch .ample rfl rfl (by decide +kernel))
  have hran := hready.tail (.run (fun _ => false) rfl rfl)
  obtain ⟨s, hreach, hmatched⟩ := Server.Reachable.exists_next
    (hran.tail (.recv prompt rfl)) .ample rfl
    (fun s => decide (s.batch = some [1]) && (s.served 1).isEmpty &&
      decide ((s.reqs 1).prefixIndices.length = 32)) (by decide +kernel)
  simp only [Bool.and_eq_true, decide_eq_true_eq, List.isEmpty_iff] at hmatched
  obtain ⟨⟨hbatch, hserved⟩, hlength⟩ := hmatched
  have hzero := hreach.committed_first hbatch 0 hserved .refl
  refine ⟨s, hreach, hbatch, hserved, hlength, ?_⟩
  intro hsame
  rw [hlength] at hsame
  exact replay_state_ne_zero hybridLayer (List.cons_ne_nil _ _) (hsame.symm.trans hzero)

end SharedPrompt

end LladaHybrid.Serving
