import LladaHybrid.Serving.Scheduler

namespace LladaHybrid.Serving

open LladaHybrid.Library LladaHybrid.Decode

/-! Every live request owns one slot, whatever the forwards write. In eager mode the slot
holds the state of the blocks the request was served: in the committed copy, or in the
working copy while its promotion is pending. -/

variable {τ L S Z Kv K : Type} {B V : Nat}

/-- The scheduling of a batch changes no allocation. -/
structure SameSlots (reqs reqs' : Nat → Req V Kv) : Prop where
  reqPoolIdx : ∀ r, (reqs' r).reqPoolIdx = (reqs r).reqPoolIdx
  mambaPoolIdx : ∀ r, (reqs' r).mambaPoolIdx = (reqs r).mambaPoolIdx
  finished : ∀ r, (reqs' r).finished = (reqs r).finished

namespace SameSlots

variable {reqs reqs' reqs'' : Nat → Req V Kv}

theorem refl (reqs : Nat → Req V Kv) : SameSlots reqs reqs :=
  ⟨fun _ => rfl, fun _ => rfl, fun _ => rfl⟩

theorem trans (first : SameSlots reqs reqs') (second : SameSlots reqs' reqs'') :
    SameSlots reqs reqs'' where
  reqPoolIdx r := (second.reqPoolIdx r).trans (first.reqPoolIdx r)
  mambaPoolIdx r := (second.mambaPoolIdx r).trans (first.mambaPoolIdx r)
  finished r := (second.finished r).trans (first.finished r)

theorem update (reqs : Nat → Req V Kv) {rid : Nat} {req : Req V Kv}
    (hreq : req.reqPoolIdx = (reqs rid).reqPoolIdx)
    (hmamba : req.mambaPoolIdx = (reqs rid).mambaPoolIdx)
    (hfinished : req.finished = (reqs rid).finished) :
    SameSlots reqs (Function.update reqs rid req) := by
  constructor
  all_goals
    intro r
    by_cases hr : r = rid
    · subst hr
      rwa [Function.update_self]
    · rw [Function.update_of_ne hr]

end SameSlots

theorem SchedulerState.allocReq_reqs [Zero S] [Zero Z]
    {s s' : SchedulerState τ L S Z Kv B V} {rid : Nat}
    (hok : s.allocReq rid = .ok s') :
    (∃ idx mid, s'.reqs = Function.update s.reqs rid
      { s.reqs rid with reqPoolIdx := some idx, mambaPoolIdx := some mid }) ∧
      s'.nextRid = s.nextRid ∧ s'.waitingQueue = s.waitingQueue ∧
      s'.dllmWaitingQueue = s.dllmWaitingQueue ∧ s'.stagingQueue = s.stagingQueue ∧
      s'.batch = s.batch ∧ s'.served = s.served := by
  obtain ⟨idx, mid, -, -, -, -, rfl⟩ := allocReq_ok hok
  exact ⟨⟨idx, mid, rfl⟩, rfl, rfl, rfl, rfl, rfl, rfl⟩

structure SamePool (pool pool' : HybridReqToTokenPool L S Z) : Prop where
  freeSlots : pool'.freeSlots = pool.freeSlots
  mambaFree : pool'.mambaPool.freeSlots = pool.mambaPool.freeSlots
  mapping : pool'.reqIndexToMambaIndex = pool.reqIndexToMambaIndex
  mappingSize : pool'.mappingSize = pool.mappingSize

theorem SamePool.refl (pool : HybridReqToTokenPool L S Z) : SamePool pool pool :=
  ⟨rfl, rfl, rfl, rfl⟩

structure Allocated (size mambaSize : Nat) (s : SchedulerState τ L S Z Kv B V) : Prop where
  reqSlots : Allotted (List.range size) s.pool.freeSlots (fun r => (s.reqs r).reqPoolIdx)
  mambaSlots : Allotted (List.range' 1 mambaSize) s.pool.mambaPool.freeSlots
    (fun r => (s.reqs r).mambaPoolIdx)
  mapped : ∀ {r idx}, (s.reqs r).reqPoolIdx = some idx →
    (s.reqs r).mambaPoolIdx = some (s.pool.reqIndexToMambaIndex idx)
  both : ∀ {r}, (s.reqs r).reqPoolIdx = none → (s.reqs r).mambaPoolIdx = none
  released : ∀ {r}, (s.reqs r).finished = true → (s.reqs r).mambaPoolIdx = none
  unserved : ∀ {r}, (s.reqs r).mambaPoolIdx = none → (s.reqs r).finished = false →
    s.served r = []
  mapping_mem : ∀ {idx}, s.pool.reqIndexToMambaIndex idx ≠ 0 →
    s.pool.reqIndexToMambaIndex idx ∈ List.range' 1 mambaSize
  untouched : s.pool.reqIndexToMambaIndex 0 = 0 → s.pool.freeSlots = List.range size

/-- What `Allocated` says about one request, by the row of its state that `mapping` gives. -/
structure ReqAllocated {α : Type*} (mapping : Nat → Nat) (served : List α) (req : Req V Kv) :
    Prop where
  mapped : ∀ {idx}, req.reqPoolIdx = some idx → req.mambaPoolIdx = some (mapping idx)
  both : req.reqPoolIdx = none → req.mambaPoolIdx = none
  released : req.finished = true → req.mambaPoolIdx = none
  unserved : req.mambaPoolIdx = none → req.finished = false → served = []

theorem ReqAllocated.update_mapping {α : Type*} {mapping : Nat → Nat} {served : List α}
    {req : Req V Kv} (kept : ReqAllocated mapping served req) {idx : Nat} (mid : Nat)
    (hfree : req.reqPoolIdx ≠ some idx) :
    ReqAllocated (Function.update mapping idx mid) served req where
  mapped {idx'} hidx := by
    have hne : idx' ≠ idx := by
      rintro rfl
      exact hfree hidx
    rw [Function.update_of_ne hne]
    exact kept.mapped hidx
  both := kept.both
  released := kept.released
  unserved := kept.unserved

namespace Allocated

variable {size mambaSize : Nat} {s s' : SchedulerState τ L S Z Kv B V}

theorem req (allocated : Allocated size mambaSize s) (r : Nat) :
    ReqAllocated s.pool.reqIndexToMambaIndex (s.served r) (s.reqs r) :=
  ⟨allocated.mapped, allocated.both, allocated.released, allocated.unserved⟩

theorem of_req
    (reqSlots : Allotted (List.range size) s.pool.freeSlots (fun r => (s.reqs r).reqPoolIdx))
    (mambaSlots : Allotted (List.range' 1 mambaSize) s.pool.mambaPool.freeSlots
      (fun r => (s.reqs r).mambaPoolIdx))
    (hreq : ∀ r, ReqAllocated s.pool.reqIndexToMambaIndex (s.served r) (s.reqs r))
    (mapping_mem : ∀ {idx}, s.pool.reqIndexToMambaIndex idx ≠ 0 →
      s.pool.reqIndexToMambaIndex idx ∈ List.range' 1 mambaSize)
    (untouched : s.pool.reqIndexToMambaIndex 0 = 0 → s.pool.freeSlots = List.range size) :
    Allocated size mambaSize s where
  reqSlots := reqSlots
  mambaSlots := mambaSlots
  mapped := (hreq _).mapped
  both := (hreq _).both
  released := (hreq _).released
  unserved := (hreq _).unserved
  mapping_mem := mapping_mem
  untouched := untouched

theorem initial [Zero S] [Zero Z] (size mambaSize : Nat) (tree : τ) :
    Allocated size mambaSize
      (.initial size mambaSize tree : SchedulerState τ L S Z Kv B V) where
  reqSlots := Allotted.initial List.nodup_range
  mambaSlots := Allotted.initial List.nodup_range'
  mapped hidx := by cases hidx
  both _ := rfl
  released _ := rfl
  unserved _ _ := rfl
  mapping_mem hne := absurd rfl hne
  untouched _ := rfl

theorem congr (allocated : Allocated size mambaSize s) (same : SameSlots s.reqs s'.reqs)
    (pools : SamePool s.pool s'.pool)
    (hserved : ∀ r, (s.reqs r).mambaPoolIdx = none → s'.served r = s.served r) :
    Allocated size mambaSize s' where
  reqSlots := by
    rw [pools.freeSlots, funext same.reqPoolIdx]
    exact allocated.reqSlots
  mambaSlots := by
    rw [pools.mambaFree, funext same.mambaPoolIdx]
    exact allocated.mambaSlots
  mapped hidx := by
    rw [same.reqPoolIdx] at hidx
    rw [same.mambaPoolIdx, pools.mapping, allocated.mapped hidx]
  both hnone := by
    rw [same.reqPoolIdx] at hnone
    rw [same.mambaPoolIdx, allocated.both hnone]
  released hdone := by
    rw [same.finished] at hdone
    rw [same.mambaPoolIdx, allocated.released hdone]
  unserved hnone hlive := by
    rw [same.mambaPoolIdx] at hnone
    rw [same.finished] at hlive
    rw [hserved _ hnone, allocated.unserved hnone hlive]
  mapping_mem := by
    rw [pools.mapping]
    exact allocated.mapping_mem
  untouched := by
    rw [pools.mapping, pools.freeSlots]
    exact allocated.untouched

theorem reqPoolIdx_of_mamba (allocated : Allocated size mambaSize s) {r slot : Nat}
    (hslot : (s.reqs r).mambaPoolIdx = some slot) :
    ∃ idx, (s.reqs r).reqPoolIdx = some idx ∧ s.pool.reqIndexToMambaIndex idx = slot := by
  cases hidx : (s.reqs r).reqPoolIdx with
  | none =>
      rw [allocated.both hidx] at hslot
      cases hslot
  | some idx =>
      rw [allocated.mapped hidx] at hslot
      exact ⟨idx, rfl, Option.some.inj hslot⟩

theorem finished_of_live (allocated : Allocated size mambaSize s) {r slot : Nat}
    (hslot : (s.reqs r).mambaPoolIdx = some slot) : (s.reqs r).finished = false := by
  by_contra hdone
  rw [allocated.released (by simpa using hdone)] at hslot
  cases hslot

theorem slot_ne (allocated : Allocated size mambaSize s) {r r' slot slot' : Nat}
    (hslot : (s.reqs r).mambaPoolIdx = some slot)
    (hslot' : (s.reqs r').mambaPoolIdx = some slot') (hne : r ≠ r') : slot ≠ slot' := by
  rintro rfl
  exact hne (allocated.mambaSlots.held_inj hslot hslot')

theorem slot_ne_zero (allocated : Allocated size mambaSize s) {r slot : Nat}
    (hslot : (s.reqs r).mambaPoolIdx = some slot) : slot ≠ 0 := by
  have hmem := allocated.mambaSlots.held_mem hslot
  rw [List.mem_range'_1] at hmem
  omega

theorem mapping_ne_zero (allocated : Allocated size mambaSize s) {r idx : Nat}
    (hidx : (s.reqs r).reqPoolIdx = some idx) : s.pool.reqIndexToMambaIndex idx ≠ 0 :=
  allocated.slot_ne_zero (allocated.mapped hidx)

/-- Row `0` of the request pool is the first one to be handed out. -/
theorem mapping_zero_ne_zero (allocated : Allocated size mambaSize s) {r idx : Nat}
    (hidx : (s.reqs r).reqPoolIdx = some idx) : s.pool.reqIndexToMambaIndex 0 ≠ 0 := by
  intro hzero
  apply allocated.reqSlots.held_notFree hidx
  rw [allocated.untouched hzero]
  exact allocated.reqSlots.held_mem hidx

/-! `alloc`. -/

/-- After an allocation row `0` of the mapping is set: the first one that is made uses it. -/
theorem update_mapping_zero_ne_zero (allocated : Allocated size mambaSize s) {idx mid : Nat}
    {restReq : List Nat} (hreq : s.pool.freeSlots = idx :: restReq)
    (hmid : mid ∈ List.range' 1 mambaSize) :
    Function.update s.pool.reqIndexToMambaIndex idx mid 0 ≠ 0 := by
  intro hzero
  cases Decidable.em (0 = idx) with
  | inl hfirst =>
      subst hfirst
      rw [Function.update_self] at hzero
      rw [hzero, List.mem_range'_1] at hmid
      omega
  | inr hlater =>
      rw [Function.update_of_ne hlater] at hzero
      rw [allocated.untouched hzero] at hreq
      cases size with
      | zero => cases hreq
      | succ size =>
          rw [List.range_succ_eq_map] at hreq
          exact hlater (List.cons.inj hreq).1

theorem alloc_fresh [Zero S] [Zero Z] (allocated : Allocated size mambaSize s)
    {rid idx mid : Nat} {restReq restMamba : List Nat}
    (hlive : (s.reqs rid).finished = false) (hreq : s.pool.freeSlots = idx :: restReq)
    (hmamba : s.pool.mambaPool.freeSlots = mid :: restMamba) :
    Allocated size mambaSize
      { s.setReq rid { s.reqs rid with reqPoolIdx := some idx, mambaPoolIdx := some mid } with
        pool := HybridReqToTokenPool.mapMambaIndex { s.pool with
          freeSlots := restReq
          mambaPool := { s.pool.mambaPool with freeSlots := restMamba }.clear [mid] }
            idx mid } := by
  have hidxFree : ∀ {r}, (s.reqs r).reqPoolIdx ≠ some idx := fun hidx =>
    allocated.reqSlots.held_notFree hidx (hreq ▸ List.mem_cons_self)
  have hmid : mid ∈ List.range' 1 mambaSize :=
    allocated.mambaSlots.free_subset mid (hmamba ▸ List.mem_cons_self)
  have htakeReq := (hreq ▸ allocated.reqSlots).take rid
  have htakeMamba := (hmamba ▸ allocated.mambaSlots).take rid
  apply of_req
  · change Allotted _ restReq (Req.reqPoolIdx ∘ Function.update s.reqs rid _)
    rw [Function.comp_update]
    exact htakeReq
  · change Allotted _ restMamba (Req.mambaPoolIdx ∘ Function.update s.reqs rid _)
    rw [Function.comp_update]
    exact htakeMamba
  · refine (Function.forall_update_iff s.reqs (fun r req => ReqAllocated
      (Function.update s.pool.reqIndexToMambaIndex idx mid) (s.served r) req)).mpr ⟨?_, ?_⟩
    · constructor <;> simp [hlive]
    · intro r _
      exact (allocated.req r).update_mapping mid hidxFree
  · intro idx' hne
    by_cases hidx : idx' = idx
    · subst hidx
      simpa [HybridReqToTokenPool.mapMambaIndex] using hmid
    · simp only [HybridReqToTokenPool.mapMambaIndex, Function.update_of_ne hidx] at hne ⊢
      exact allocated.mapping_mem hne
  · intro hzero
    exact absurd hzero (allocated.update_mapping_zero_ne_zero hreq hmid)

theorem allocReq_cases [Zero S] [Zero Z] (allocated : Allocated size mambaSize s) {rid : Nat}
    (hok : s.allocReq rid = .ok s') :
    (SameSlots s.reqs s'.reqs ∧ s'.pool = s.pool ∧ s'.served = s.served) ∨
      ∃ idx mid restReq restMamba, (s.reqs rid).mambaPoolIdx = none ∧
        s.pool.freeSlots = idx :: restReq ∧ s.pool.mambaPool.freeSlots = mid :: restMamba ∧
        s' = { s.setReq rid { s.reqs rid with
            reqPoolIdx := some idx, mambaPoolIdx := some mid } with
          pool := HybridReqToTokenPool.mapMambaIndex { s.pool with
            freeSlots := restReq
            mambaPool := { s.pool.mambaPool with freeSlots := restMamba }.clear [mid] }
              idx mid } := by
  obtain ⟨idx, mid, poolReq, pool, hreq, hmamba, rfl⟩ := SchedulerState.allocReq_ok hok
  rcases HybridReqToTokenPool.allocReqIdx_cases hreq with
    ⟨hidx, rfl⟩ | ⟨hidx, restReq, hfreeReq, rfl⟩
  · have hown := allocated.mapped hidx
    rcases HybridReqToTokenPool.allocMambaIdx_cases hmamba with ⟨hmid, rfl⟩ | ⟨hnone, -⟩
    · cases hown.symm.trans hmid
      refine Or.inl ⟨.update _ hidx.symm hmid.symm rfl, ?_, rfl⟩
      simp [HybridReqToTokenPool.mapMambaIndex]
    · rw [hnone] at hown
      cases hown
  · have hnone := allocated.both hidx
    rcases HybridReqToTokenPool.allocMambaIdx_cases hmamba with
      ⟨hmid, -⟩ | ⟨-, restMamba, hfreeMamba, rfl⟩
    · rw [hnone] at hmid
      cases hmid
    · exact Or.inr ⟨idx, mid, restReq, restMamba, hnone, hfreeReq, hfreeMamba, rfl⟩

theorem alloc [Zero S] [Zero Z] (allocated : Allocated size mambaSize s) {rid : Nat}
    (hlive : (s.reqs rid).finished = false) (hok : s.allocReq rid = .ok s') :
    Allocated size mambaSize s' := by
  rcases allocated.allocReq_cases hok with
    ⟨hsame, hpool, hserved⟩ | ⟨idx, mid, restReq, restMamba, -, hreq, hmamba, rfl⟩
  · exact allocated.congr hsame (hpool ▸ .refl _) (fun r _ => congrFun hserved r)
  · exact allocated.alloc_fresh hlive hreq hmamba

/-! `release_kv_cache`. -/

theorem release (allocated : Allocated size mambaSize s) {rid idx mid : Nat}
    (hidx : (s.reqs rid).reqPoolIdx = some idx)
    (hmid : (s.reqs rid).mambaPoolIdx = some mid) {req : Req V Kv} {tree : τ}
    (hreq : req.reqPoolIdx = none) (hmamba : req.mambaPoolIdx = none)
    (hdone : req.finished = true) :
    Allocated size mambaSize
      { s.setReq rid req with tree, pool := s.pool.release idx mid } := by
  have hgiveReq := allocated.reqSlots.give hidx
  have hgiveMamba := allocated.mambaSlots.give hmid
  apply of_req
  · change Allotted _ (s.pool.freeSlots ++ [idx])
      (Req.reqPoolIdx ∘ Function.update s.reqs rid req)
    rw [Function.comp_update, hreq]
    exact hgiveReq
  · change Allotted _ (s.pool.mambaPool.freeSlots ++ [mid])
      (Req.mambaPoolIdx ∘ Function.update s.reqs rid req)
    rw [Function.comp_update, hmamba]
    exact hgiveMamba
  · refine (Function.forall_update_iff s.reqs (fun r req => ReqAllocated
      s.pool.reqIndexToMambaIndex (s.served r) req)).mpr ⟨?_, fun r _ => allocated.req r⟩
    constructor <;> simp [hreq, hmamba, hdone]
  · exact allocated.mapping_mem
  · intro hzero
    exact absurd hzero (allocated.mapping_zero_ne_zero hidx)

theorem processReq {server : Server τ L S Z Kv B V K} {stops : Nat → Bool} {rid slot : Nat}
    {next : List (Fin V)} (allocated : Allocated size mambaSize s)
    (hslot : (s.reqs rid).mambaPoolIdx = some slot)
    (hok : server.processReq stops s (rid, next) = .ok s') : Allocated size mambaSize s' := by
  rcases Server.processReq_cases hok with
    ⟨-, rfl⟩ | ⟨-, rfl⟩ | ⟨-, idx, mid, hidx, hmid, rfl⟩
  · exact allocated
  · exact allocated.congr (.update _ rfl rfl (allocated.finished_of_live hslot).symm) (.refl _)
      (fun _ _ => rfl)
  · exact allocated.release hidx hmid rfl rfl rfl

theorem stash {server : Server τ L S Z Kv B V K} {rid : Nat}
    (allocated : Allocated size mambaSize s)
    (hok : server.stashChunkedRequest s rid = .ok s') : Allocated size mambaSize s' := by
  obtain ⟨idx, -, rfl⟩ := Server.stashChunkedRequest_ok hok
  exact allocated.congr (.update _ rfl rfl rfl) ⟨rfl, rfl, rfl, rfl⟩ (fun _ _ => rfl)

end Allocated

/-! The states in the slots. -/

variable [AddMonoid S] [AddMonoid Z]

/-- The requests in `pending` still have to be promoted. -/
structure Holds (model : ServedModel L S Z Kv B V K) (pending : List Nat)
    (s : SchedulerState τ L S Z Kv B V) : Prop where
  promoted : ∀ {r slot}, (s.reqs r).mambaPoolIdx = some slot → r ∉ pending →
    s.pool.mambaPool.state .committed slot = model.stateOf (s.served r)
  unpromoted : ∀ {r slot}, (s.reqs r).mambaPoolIdx = some slot → r ∈ pending →
    s.pool.mambaPool.state .working slot = model.stateOf (s.served r)

namespace Holds

variable {model : ServedModel L S Z Kv B V K} {size mambaSize : Nat} {pending : List Nat}
  {s s' : SchedulerState τ L S Z Kv B V}

theorem initial (model : ServedModel L S Z Kv B V K) (size mambaSize : Nat) (tree : τ) :
    Holds model [] (.initial size mambaSize tree) where
  promoted hslot := by cases hslot
  unpromoted hslot := by cases hslot

theorem congr (holds : Holds model pending s) (same : SameSlots s.reqs s'.reqs)
    (hpool : s'.pool = s.pool) (hserved : s'.served = s.served) : Holds model pending s' where
  promoted hslot hpending := by
    rw [same.mambaPoolIdx] at hslot
    rw [hpool, hserved, holds.promoted hslot hpending]
  unpromoted hslot hpending := by
    rw [same.mambaPoolIdx] at hslot
    rw [hpool, hserved, holds.unpromoted hslot hpending]

theorem congr_pending {pending' : List Nat} (holds : Holds model pending s)
    (hsame : ∀ r slot, (s.reqs r).mambaPoolIdx = some slot → (r ∈ pending' ↔ r ∈ pending)) :
    Holds model pending' s where
  promoted hslot hnot := holds.promoted hslot (fun hmem => hnot ((hsame _ _ hslot).mpr hmem))
  unpromoted hslot hmem := holds.unpromoted hslot ((hsame _ _ hslot).mp hmem)

theorem stash {server : Server τ L S Z Kv B V K} {rid : Nat} {rest : List Nat}
    (holds : Holds model (rid :: rest) s) (allocated : Allocated size mambaSize s)
    (hok : server.stashChunkedRequest s rid = .ok s') : Holds model rest s' := by
  obtain ⟨idx, hidx, rfl⟩ := Server.stashChunkedRequest_ok hok
  have hown := allocated.mapped hidx
  have same : SameSlots s.reqs (Function.update s.reqs rid { s.reqs rid with
      prefixIndices := (server.treeCache.cacheUnfinishedReq s.tree (s.reqs rid)).2 }) :=
    .update _ rfl rfl rfl
  constructor
  · intro r slot hslot hrest
    replace hslot := (same.mambaPoolIdx r).symm.trans hslot
    change (s.pool.mambaPool.promote _).state .committed slot = _
    rw [MambaPool.state_promote]
    by_cases hr : r = rid
    · subst hr
      cases hown.symm.trans hslot
      rw [if_pos ⟨rfl, rfl⟩]
      exact holds.unpromoted hslot List.mem_cons_self
    · rw [if_neg (fun hsame => allocated.slot_ne hslot hown hr hsame.1)]
      exact holds.promoted hslot (by simp [hr, hrest])
  · intro r slot hslot hrest
    replace hslot := (same.mambaPoolIdx r).symm.trans hslot
    change (s.pool.mambaPool.promote _).state .working slot = _
    rw [MambaPool.state_promote, if_neg (by simp)]
    exact holds.unpromoted hslot (List.mem_cons_of_mem rid hrest)

theorem alloc (holds : Holds model [] s) (allocated : Allocated size mambaSize s) {rid : Nat}
    (hlive : (s.reqs rid).finished = false) (hok : s.allocReq rid = .ok s') :
    Holds model [] s' := by
  rcases allocated.allocReq_cases hok with
    ⟨hsame, hpool, hserved⟩ | ⟨idx, mid, restReq, restMamba, hnone, -, hmamba, rfl⟩
  · exact holds.congr hsame hpool hserved
  have hmidFree : ∀ {r}, (s.reqs r).mambaPoolIdx ≠ some mid := fun hmid =>
    allocated.mambaSlots.held_notFree hmid (hmamba ▸ List.mem_cons_self)
  refine ⟨?_, fun _ hmem => absurd hmem List.not_mem_nil⟩
  intro r slot hslot _
  refine (MambaPool.state_clear _ _ _ _).trans ?_
  by_cases hr : r = rid
  · subst hr
    simp only [SchedulerState.setReq, Function.update_self] at hslot
    cases hslot
    change _ = model.stateOf (s.served r)
    rw [allocated.unserved hnone hlive, if_pos List.mem_cons_self]
    rfl
  · simp only [SchedulerState.setReq, Function.update_of_ne hr] at hslot
    have hne : slot ≠ mid := by
      rintro rfl
      exact hmidFree hslot
    rw [if_neg (by simpa using hne)]
    exact holds.promoted hslot List.not_mem_nil

theorem release (holds : Holds model pending s) {rid idx mid : Nat} {req : Req V Kv} {tree : τ}
    (hmamba : req.mambaPoolIdx = none) :
    Holds model pending { s.setReq rid req with tree, pool := s.pool.release idx mid } := by
  have hother : ∀ {r slot}, (Function.update s.reqs rid req r).mambaPoolIdx = some slot →
      (s.reqs r).mambaPoolIdx = some slot := by
    intro r slot hslot
    by_cases hr : r = rid
    · subst hr
      rw [Function.update_self, hmamba] at hslot
      cases hslot
    · rwa [Function.update_of_ne hr] at hslot
  exact ⟨fun hslot => holds.promoted (hother hslot),
    fun hslot => holds.unpromoted (hother hslot)⟩

theorem processReq {server : Server τ L S Z Kv B V K} {stops : Nat → Bool} {rid slot : Nat}
    {next : List (Fin V)} (holds : Holds model pending s)
    (allocated : Allocated size mambaSize s) (hslot : (s.reqs rid).mambaPoolIdx = some slot)
    (hok : server.processReq stops s (rid, next) = .ok s') : Holds model pending s' := by
  rcases Server.processReq_cases hok with ⟨-, rfl⟩ | ⟨-, rfl⟩ | ⟨-, idx, mid, -, -, rfl⟩
  · exact holds
  · exact holds.congr (.update _ rfl rfl (allocated.finished_of_live hslot).symm) rfl rfl
  · exact holds.release rfl

end Holds

end LladaHybrid.Serving
