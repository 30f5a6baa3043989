import LladaHybrid.Serving.SchedulingInvariant
import LladaHybrid.Library.RadixTree

namespace LladaHybrid.Serving

open LladaHybrid.Library LladaHybrid.Decode

/-! `RadixCache` with pages of a block: the symbols of the tree are pages of tokens, their
values the KV rows of the page. -/

def pages {α : Type*} (pageSize : Nat) (sequence : List α) : List (List α) :=
  (List.range (sequence.length / pageSize)).map
    (fun page => (sequence.drop (page * pageSize)).take pageSize)

theorem length_of_mem_pages {α : Type*} {pageSize : Nat} {sequence page : List α}
    (hpage : page ∈ pages pageSize sequence) : page.length = pageSize := by
  obtain ⟨n, hn, rfl⟩ := List.mem_map.mp hpage
  have hend : (n + 1) * pageSize ≤ sequence.length :=
    (Nat.mul_le_mul_right pageSize (List.mem_range.mp hn)).trans (Nat.div_mul_le_self _ _)
  rw [Nat.succ_mul] at hend
  rw [List.length_take, List.length_drop]
  omega

abbrev PageTree (V : Nat) (Kv : Type) := RadixTree (List (Fin V)) (List Kv)

def radixCache (pageSize V : Nat) (Kv : Type) : TreeCache (PageTree V Kv) V Kv where
  matchPrefix tree key := (tree.matchPrefix (pages pageSize key)).flatten
  cacheUnfinishedReq tree req :=
    let kvIndices := req.reqToToken.take req.fillIds.length
    let keys := pages pageSize req.fillIds
    let inserted := tree.insert keys (pages pageSize kvIndices)
    let newIndices := (inserted.matchPrefix keys).flatten
    (inserted, newIndices ++ kvIndices.drop newIndices.length)
  cacheFinishedReq tree req :=
    let tokenIds := (req.originInputIds ++ req.outputIds).take req.fillIds.length
    let kvIndices := req.reqToToken.take tokenIds.length
    tree.insert (pages pageSize tokenIds) (pages pageSize kvIndices)
  evicts := Pruned

variable {τ L S Z Kv K : Type} {B V : Nat}

/-! An invariant of the tree that the calls of the scheduler keep. -/

structure TreeCache.Keeps (cache : TreeCache τ V Kv) (kept : τ → Prop) : Prop where
  unfinished : ∀ {tree} req, kept tree → kept (cache.cacheUnfinishedReq tree req).1
  finished : ∀ {tree} req, kept tree → kept (cache.cacheFinishedReq tree req)
  evicts : ∀ {tree tree'}, cache.evicts tree tree' → kept tree → kept tree'

section Keeps

variable {server : Server τ L S Z Kv B V K} {s s' : SchedulerState τ L S Z Kv B V}
  {kept : τ → Prop}

theorem TreeCache.Keeps.stashAll (keeps : server.treeCache.Keeps kept) {rids : List Nat}
    (htree : kept s.tree) (hok : rids.foldlM server.stashChunkedRequest s = .ok s') :
    kept s'.tree := by
  refine foldlM_invariant (fun t => kept t.tree) ?_ hok htree
  intro before rid after _ hstep hbefore
  obtain ⟨idx, -, rfl⟩ := Server.stashChunkedRequest_ok hstep
  exact keeps.unfinished _ hbefore

theorem TreeCache.Keeps.processAll (keeps : server.treeCache.Keeps kept)
    {stops : Nat → Bool} {entries : List (Nat × List (Fin V))} (htree : kept s.tree)
    (hok : entries.foldlM (server.processReq stops) s = .ok s') : kept s'.tree := by
  refine foldlM_invariant (fun t => kept t.tree) ?_ hok htree
  intro before entry after _ hstep hbefore
  rcases Server.processReq_cases hstep with ⟨-, rfl⟩ | ⟨-, rfl⟩ | ⟨-, _, _, -, -, rfl⟩
  · exact hbefore
  · exact hbefore
  · exact keeps.finished _ hbefore

theorem allocAll_tree [Zero S] [Zero Z] {rids : List Nat}
    (hok : rids.foldlM SchedulerState.allocReq s = .ok s') : s'.tree = s.tree := by
  refine foldlM_invariant (fun t => t.tree = s.tree) ?_ hok rfl
  intro before rid after _ hstep hbefore
  obtain ⟨idx, mid, -, -, -, -, rfl⟩ := SchedulerState.allocReq_ok hstep
  exact hbefore

theorem TreeCache.Keeps.getNextBatch [Zero S] [Zero Z] (keeps : server.treeCache.Keeps kept)
    {budget : Budget} (htree : kept s.tree)
    (hok : server.getNextBatchToRun budget s = .ok s') : kept s'.tree := by
  obtain ⟨stashed, hstashed, hrest⟩ := Server.getNextBatchToRun_ok hok
  have hkept : kept stashed.tree :=
    keeps.stashAll (show kept s.filterFinishedReqs.tree from htree) hstashed
  rcases hrest with ⟨-, rfl⟩ | ⟨fetched, adder, hfetch, -, hprepare⟩
  · exact hkept
  · unfold SchedulerState.fetchWaitingReqs at hfetch
    dsimp only at hfetch
    split_ifs at hfetch
    cases hfetch
    unfold SchedulerState.prepareBatch at hprepare
    split_ifs at hprepare
    · cases hprepare
      exact hkept
    · rw [allocAll_tree hprepare]
      exact hkept

variable [Field K] [LinearOrder K] [ExpOps K] [TopK K] [NeZero V] [AddMonoid S] [AddMonoid Z]

theorem TreeCache.Keeps.reachable (keeps : server.treeCache.Keeps kept)
    {size mambaSize : Nat} {tree : τ} (htree : kept tree)
    (reachable : server.Reachable size mambaSize tree s) : kept s.tree := by
  induction reachable with
  | refl => exact htree
  | tail _ step ih =>
      cases step with
      | recv _ _ => exact ih
      | getNextBatch budget _ hok => exact keeps.getNextBatch ih hok
      | run stops _ hok =>
          unfold Server.runBatch at hok
          split at hok
          · cases hok
          · exact keeps.processAll (show kept (SchedulerState.afterRun _ _ _).tree from ih) hok
      | evict hevicts => exact keeps.evicts hevicts ih

end Keeps

/-! The tree holds whole pages only, so a match always ends at the end of a block. -/

def WholePages (pageSize : Nat) (tree : PageTree V Kv) : Prop :=
  Stores (fun rows => rows.length = pageSize) tree

theorem radixCache_keeps (pageSize : Nat) :
    (radixCache pageSize V Kv).Keeps (WholePages pageSize) where
  unfinished _ htree := Stores.insertFrom htree (fun _ => length_of_mem_pages)
  finished _ htree := Stores.insertFrom htree (fun _ => length_of_mem_pages)
  evicts hpruned htree := Stores.pruned htree hpruned

theorem WholePages.dvd_length_matchPrefix {pageSize : Nat} {tree : PageTree V Kv}
    (whole : WholePages pageSize tree) (key : List (Fin V)) :
    pageSize ∣ ((radixCache pageSize V Kv).matchPrefix tree key).length := by
  change pageSize ∣ (List.flatten _).length
  rw [List.length_flatten]
  apply List.dvd_sum
  intro length hlength
  obtain ⟨rows, hrows, rfl⟩ := List.mem_map.mp hlength
  rw [Stores.matchFrom whole rows hrows]

end LladaHybrid.Serving
