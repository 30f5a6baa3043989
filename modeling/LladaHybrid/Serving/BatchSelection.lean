import LladaHybrid.Serving.BatchRun

namespace LladaHybrid.Serving

open LladaHybrid.Library LladaHybrid.Decode

/-! What the selection of a batch does to the requests, whatever the budget. -/

variable {τ L S Z Kv K : Type} {B V : Nat}

def Req.isStaging (req : Req V Kv) : Prop :=
  req.dllmPhase = .stagingPrefill ∨ req.dllmPhase = .stagingDecode

theorem Req.not_isStaging_new (originInputIds : List (Fin V)) :
    ¬ (Req.new B originInputIds : Req V Kv).isStaging := by
  unfold isStaging new
  dsimp only
  split_ifs <;> simp

/-- What the selection makes of a request that it does or does not add. -/
inductive Selected (cache : TreeCache τ V Kv) (tree : τ) (B : Nat) (maskId : Fin V) :
    Bool → Req V Kv → Req V Kv → Prop
  | kept (req : Req V Kv) : Selected cache tree B maskId false req req
  | staged {req : Req V Kv} (remTokens : Nat) : req.isStaging →
      Selected cache tree B maskId true req (req.addDllmStagingReq remTokens)
  | admitted {req matched : Req V Kv} (truncLen : Nat) : ¬ req.isStaging →
      req.initNextRoundInputWith cache tree B maskId = .ok matched →
      Selected cache tree B maskId true req (matched.addDllmReq truncLen)
  | rejected {req matched : Req V Kv} : ¬ req.isStaging →
      req.initNextRoundInputWith cache tree B maskId = .ok matched →
      Selected cache tree B maskId false req matched

theorem Req.setMatched_ok {req req' : Req V Kv} {matched : List Kv}
    (hok : req.setMatched B matched = .ok req') :
    matched.length % B = 0 ∧ req' = { req with
      prefixIndices := matched
      dllmBlockOffset := max req.dllmBlockOffset matched.length
      extendInputLen := req.fillIds.length - matched.length } := by
  unfold setMatched at hok
  split_ifs at hok with hlength
  cases hok
  exact ⟨not_not.mp hlength, rfl⟩

theorem Selected.sameSlots {cache : TreeCache τ V Kv} {tree : τ} {maskId : Fin V}
    {added : Bool} {req req' : Req V Kv}
    (selected : Selected cache tree B maskId added req req') :
    req'.reqPoolIdx = req.reqPoolIdx ∧ req'.mambaPoolIdx = req.mambaPoolIdx ∧
      req'.finished = req.finished := by
  cases selected with
  | kept => exact ⟨rfl, rfl, rfl⟩
  | staged _ _ => exact ⟨rfl, rfl, rfl⟩
  | admitted _ _ hmatched =>
      obtain ⟨-, rfl⟩ := Req.setMatched_ok hmatched
      exact ⟨rfl, rfl, rfl⟩
  | rejected _ hmatched =>
      obtain ⟨-, rfl⟩ := Req.setMatched_ok hmatched
      exact ⟨rfl, rfl, rfl⟩

theorem Selected.sameSlots_all {cache : TreeCache τ V Kv} {tree : τ} {maskId : Fin V}
    {added : Nat → Bool} {reqs reqs' : Nat → Req V Kv}
    (selected : ∀ r, Selected cache tree B maskId (added r) (reqs r) (reqs' r)) :
    SameSlots reqs reqs' :=
  ⟨fun r => (selected r).sameSlots.1, fun r => (selected r).sameSlots.2.1,
    fun r => (selected r).sameSlots.2.2⟩

/-- The adder added some of the candidates, in order, and changed nothing else. -/
structure Adds (cache : TreeCache τ V Kv) (tree : τ) (B : Nat) (maskId : Fin V)
    (candidates : List Nat) (before after : AdderState V Kv) (added : List Nat) : Prop where
  canRunList : after.canRunList = before.canRunList ++ added
  sublist : added.Sublist candidates
  selected : ∀ r, Selected cache tree B maskId (decide (r ∈ added))
    (before.reqs r) (after.reqs r)
  kept : ∀ r, r ∉ candidates → after.reqs r = before.reqs r

namespace Adds

variable {cache : TreeCache τ V Kv} {tree : τ} {maskId : Fin V} {candidates added : List Nat}
  {before after : AdderState V Kv}

theorem refl (candidates : List Nat) (adder : AdderState V Kv) :
    Adds cache tree B maskId candidates adder adder [] where
  canRunList := (List.append_nil _).symm
  sublist := List.nil_sublist _
  selected r := by simpa using Selected.kept (adder.reqs r)
  kept _ _ := rfl

theorem cons {rid pageSize maxNewTokens : Nat} {req : Req V Kv} (hnot : rid ∉ candidates)
    (hselected : Selected cache tree B maskId true (before.reqs rid) req)
    (rest : Adds cache tree B maskId candidates (before.add pageSize maxNewTokens rid req) after
      added) :
    Adds cache tree B maskId (rid :: candidates) before after (rid :: added) where
  canRunList := by
    rw [rest.canRunList, AdderState.add, List.append_assoc, List.singleton_append]
  sublist := rest.sublist.cons_cons rid
  selected r := by
    by_cases hr : r = rid
    · subst hr
      rw [rest.kept r hnot]
      simpa [AdderState.add] using hselected
    · have hlater := rest.selected r
      rw [AdderState.reqs_add_of_ne hr] at hlater
      simpa [hr] using hlater
  kept r hr := by
    rw [List.mem_cons, not_or] at hr
    rw [rest.kept r hr.2, AdderState.reqs_add_of_ne hr.1]

end Adds

theorem processDllmStagingReqs_adds (cache : TreeCache τ V Kv) (tree : τ) (maskId : Fin V)
    (pageSize : Nat) (budget : Budget) {rids : List Nat} (adder : AdderState V Kv)
    (hnodup : rids.Nodup) (hstaging : ∀ r ∈ rids, (adder.reqs r).isStaging) :
    ∃ added, Adds cache tree B maskId rids adder
      (processDllmStagingReqs B pageSize budget rids adder).1 added := by
  induction rids generalizing adder with
  | nil => exact ⟨[], .refl [] adder⟩
  | cons rid rest ih =>
      rw [List.nodup_cons] at hnodup
      unfold processDllmStagingReqs
      rcases adder.addDllmStagingReq_cases B pageSize budget rid with
        hnone | ⟨tokens, maxNewTokens, hadd⟩
      · rw [hnone]
        exact ⟨[], .refl _ adder⟩
      · have hselected : Selected cache tree B maskId true (adder.reqs rid)
            ((adder.reqs rid).addDllmStagingReq tokens) :=
          .staged tokens (hstaging rid List.mem_cons_self)
        dsimp only
        split_ifs with hresult
        · rw [hadd]
          exact ⟨[rid], .cons hnodup.1 hselected (.refl rest _)⟩
        · rw [hadd]
          obtain ⟨added, adds⟩ := ih (adder.add pageSize maxNewTokens rid
              ((adder.reqs rid).addDllmStagingReq tokens)) hnodup.2 (by
            intro r hr
            have hne : r ≠ rid := fun hsame => hnodup.1 (hsame ▸ hr)
            rw [AdderState.reqs_add_of_ne hne]
            exact hstaging r (List.mem_cons_of_mem rid hr))
          exact ⟨rid :: added, .cons hnodup.1 hselected adds⟩

namespace Server

variable {server : Server τ L S Z Kv B V K}

theorem processDllmIncomingReqs_adds {budget : Budget} {tree : τ} {rids : List Nat}
    {adder result : AdderState V Kv} (hnodup : rids.Nodup)
    (hincoming : ∀ r ∈ rids, ¬ (adder.reqs r).isStaging)
    (hok : server.processDllmIncomingReqs budget tree rids adder = .ok result) :
    ∃ added, Adds server.treeCache tree B server.maskId rids adder result added := by
  induction rids generalizing adder with
  | nil =>
      cases hok
      exact ⟨[], .refl [] _⟩
  | cons rid rest ih =>
      rw [List.nodup_cons] at hnodup
      have hfirst := hincoming rid List.mem_cons_self
      unfold processDllmIncomingReqs at hok
      dsimp only at hok
      split_ifs at hok with hfull hadded hresult
      · cases hok
        exact ⟨[], .refl _ _⟩
      · obtain ⟨req, hreq, hrest⟩ := bind_eq_ok hok
        obtain ⟨added, adds⟩ := ih hnodup.2 (by
          intro r hr
          have hne : r ≠ rid := fun hsame => hnodup.1 (hsame ▸ hr)
          rw [AdderState.reqs_add_of_ne hne]
          exact hincoming r (List.mem_cons_of_mem rid hr)) hrest
        exact ⟨rid :: added, .cons hnodup.1 (.admitted _ hfirst hreq) adds⟩
      · obtain ⟨req, hreq, hrest⟩ := bind_eq_ok hok
        cases hrest
        exact ⟨[rid], .cons hnodup.1 (.admitted _ hfirst hreq) (.refl rest _)⟩
      · obtain ⟨req, hreq, hrest⟩ := bind_eq_ok hok
        cases hrest
        refine ⟨[], (List.append_nil _).symm, List.nil_sublist _, ?_, ?_⟩
        · intro r
          by_cases hr : r = rid
          · subst hr
            simpa using Selected.rejected hfirst hreq
          · simpa [hr] using Selected.kept (adder.reqs r)
        · intro r hr
          rw [List.mem_cons, not_or] at hr
          exact Function.update_of_ne hr.1 _ _

theorem processBatchByPhase_adds {budget : Budget} {tree : τ} {batch : List Nat}
    {stagingPhase incomingPhase : DllmReqPhase} {adder result : AdderState V Kv}
    (hstaging : stagingPhase = .stagingPrefill ∨ stagingPhase = .stagingDecode)
    (hincoming : ¬ (incomingPhase = .stagingPrefill ∨ incomingPhase = .stagingDecode))
    (hnodup : batch.Nodup)
    (hok : server.processBatchByPhase budget tree batch stagingPhase incomingPhase adder =
      .ok result) :
    ∃ added, result.canRunList = adder.canRunList ++ added ∧ added.Nodup ∧
      (∀ r ∈ added, r ∈ batch) ∧
      ∀ r, Selected server.treeCache tree B server.maskId (decide (r ∈ added))
        (adder.reqs r) (result.reqs r) := by
  have hphase : ∀ {r phase}, r ∈ batch.filter
      (fun rid => decide ((adder.reqs rid).dllmPhase = phase)) →
      r ∈ batch ∧ (adder.reqs r).dllmPhase = phase := by
    intro r phase hr
    rwa [List.mem_filter, decide_eq_true_eq] at hr
  obtain ⟨staged, hstaged⟩ := processDllmStagingReqs_adds (B := B) server.treeCache tree
    server.maskId server.pageSize budget adder
      (hnodup.filter (fun rid => decide ((adder.reqs rid).dllmPhase = stagingPhase)))
    (fun r hr => by rwa [Req.isStaging, (hphase hr).2])
  have hstagedMem := fun r hr => hphase (hstaged.sublist.subset (a := r) hr)
  unfold processBatchByPhase at hok
  dsimp only at hok
  split_ifs at hok with hcontinued
  · have hkept : ∀ {r}, (adder.reqs r).dllmPhase ≠ stagingPhase →
        (processDllmStagingReqs B server.pageSize budget (batch.filter
          (fun rid => decide ((adder.reqs rid).dllmPhase = stagingPhase))) adder).1.reqs r =
          adder.reqs r :=
      fun hne => hstaged.kept _ (fun hmem => hne (hphase hmem).2)
    have hne : incomingPhase ≠ stagingPhase := fun hsame => hincoming (hsame ▸ hstaging)
    obtain ⟨incoming, hadds⟩ := processDllmIncomingReqs_adds
      (hnodup.filter (fun rid => decide ((adder.reqs rid).dllmPhase = incomingPhase)))
      (by
        intro r hr
        rw [hkept ((hphase hr).2.symm ▸ hne), Req.isStaging, (hphase hr).2]
        exact hincoming) hok
    have hincomingMem := fun r hr => hphase (hadds.sublist.subset (a := r) hr)
    refine ⟨staged ++ incoming, ?_, ?_, ?_, ?_⟩
    · rw [hadds.canRunList, hstaged.canRunList, List.append_assoc]
    · rw [List.nodup_append]
      refine ⟨hstaged.sublist.nodup (hnodup.filter _), hadds.sublist.nodup (hnodup.filter _), ?_⟩
      rintro r hr _ hr' rfl
      exact hne ((hincomingMem r hr').2.symm.trans (hstagedMem r hr).2)
    · intro r hr
      rcases List.mem_append.mp hr with hr | hr
      · exact (hstagedMem r hr).1
      · exact (hincomingMem r hr).1
    · intro r
      by_cases hr : (adder.reqs r).dllmPhase = stagingPhase
      · have hout : r ∉ incoming := fun hmem =>
          hne ((hincomingMem r hmem).2.symm.trans hr)
        rw [hadds.kept r (fun hmem => hne ((hphase hmem).2.symm.trans hr))]
        simpa [hout] using hstaged.selected r
      · have hout : r ∉ staged := fun hmem => hr (hstagedMem r hmem).2
        have hlater := hadds.selected r
        rw [hkept hr] at hlater
        simpa [hout] using hlater
  · cases hok
    exact ⟨staged, hstaged.canRunList, hstaged.sublist.nodup (hnodup.filter _),
      fun r hr => (hstagedMem r hr).1, hstaged.selected⟩

theorem processDllmBatches_adds {budget : Budget} {s : SchedulerState τ L S Z Kv B V}
    {result : AdderState V Kv} (hnodup : s.dllmWaitingQueue.Nodup)
    (hok : server.processDllmBatches budget s = .ok result) :
    result.canRunList.Nodup ∧ (∀ r ∈ result.canRunList, r ∈ s.dllmWaitingQueue) ∧
      ∀ r, Selected server.treeCache s.tree B server.maskId
        (decide (r ∈ result.canRunList)) (s.reqs r) (result.reqs r) := by
  have hphase : ∃ added, result.canRunList = [] ++ added ∧ added.Nodup ∧
      (∀ r ∈ added, r ∈ s.dllmWaitingQueue) ∧
      ∀ r, Selected server.treeCache s.tree B server.maskId (decide (r ∈ added))
        (s.reqs r) (result.reqs r) := by
    unfold processDllmBatches at hok
    dsimp only at hok
    split_ifs at hok with hprefill
    · obtain ⟨added, hlist, hadded, hmem, hselected⟩ := processBatchByPhase_adds
        (Or.inl rfl) (by decide) (hnodup.filter _) hok
      exact ⟨added, hlist, hadded, fun r hr => (List.mem_filter.mp (hmem r hr)).1, hselected⟩
    · obtain ⟨added, hlist, hadded, hmem, hselected⟩ := processBatchByPhase_adds
        (Or.inr rfl) (by decide) (hnodup.filter _) hok
      exact ⟨added, hlist, hadded, fun r hr => (List.mem_filter.mp (hmem r hr)).1, hselected⟩
  obtain ⟨added, hlist, hadded, hmem, hselected⟩ := hphase
  rw [List.nil_append] at hlist
  subst hlist
  exact ⟨hadded, hmem, hselected⟩

end Server

end LladaHybrid.Serving
