import LladaHybrid.Serving.SlotInvariant

namespace LladaHybrid.Serving

open LladaHybrid.Library LladaHybrid.Decode

/-! A decoder run on a batch: whatever the number of its forwards, the working copies end
as the last one left them, which was on the final tokens. -/

variable {τ L S Z Kv K : Type} {B V R : Nat} [AddMonoid S] [AddMonoid Z]

/-- No forward touches a committed copy. -/
structure KeepsCommitted (pool : MambaPool L S Z) (device : Device L S Z Kv R B) : Prop where
  freeSlots : device.mambaPool.freeSlots = pool.freeSlots
  committed : ∀ slot,
    device.mambaPool.state .committed slot = pool.state .committed slot

theorem KeepsCommitted.forward {pool : MambaPool L S Z} {device : Device L S Z Kv R B}
    (keeps : KeepsCommitted pool device) (model : ServedModel L S Z Kv B V K)
    (entries : Fin R → BatchEntry Kv) (ids : Fin R → Block B V) :
    KeepsCommitted pool ((model.runner entries).forward device ids).2 where
  freeSlots := (model.writeStates_freeSlots _ entries ids).trans keeps.freeSlots
  committed slot := (model.writeStates_committed _ entries ids slot).trans (keeps.committed slot)

/-- Any number of forwards of a batch, on any tokens. -/
def Forwards (model : ServedModel L S Z Kv B V K) (entries : Fin R → BatchEntry Kv) :
    Device L S Z Kv R B → Device L S Z Kv R B → Prop :=
  Relation.ReflTransGen
    (fun before after => ∃ ids, after = ((model.runner entries).forward before ids).2)

theorem Forwards.keepsCommitted {model : ServedModel L S Z Kv B V K}
    {entries : Fin R → BatchEntry Kv} {start device : Device L S Z Kv R B}
    (forwards : Forwards model entries start device) :
    KeepsCommitted start.mambaPool device := by
  induction forwards with
  | refl => exact ⟨rfl, fun _ => rfl⟩
  | tail _ hstep ih =>
      obtain ⟨ids, rfl⟩ := hstep
      exact ih.forward model entries ids

section Run

variable [Field K] [LinearOrder K] [ExpOps K] [TopK K] [NeZero V]

theorem DllmAlgorithm.run_endsOnForward {σ : Type} {algorithm : DllmAlgorithm V K}
    {model : ModelRunner σ R B V K} {inv : σ → Prop}
    (hforward : ∀ runner ids, inv runner → inv (model.forward runner ids).2) {runner : σ}
    (hrunner : inv runner) {ids : Fin R → Block B V} {res : RunResult σ R B V K}
    (hres : algorithm.run model runner ids = some res) :
    EndsOnForward model inv res.inputIds res.runner := by
  cases algorithm with
  | jointThreshold alg => exact alg.run_endsOnForward hforward hrunner hres
  | lowConfidence alg =>
      cases hres
      exact alg.run_endsOnForward hforward hrunner ids

structure BatchRan (model : ServedModel L S Z Kv B V K) (pool : MambaPool L S Z)
    (entries : Fin R → BatchEntry Kv) (res : RunResult (Device L S Z Kv R B) R B V K) :
    Prop where
  freeSlots : res.runner.mambaPool.freeSlots = pool.freeSlots
  committed : ∀ slot,
    res.runner.mambaPool.state .committed slot = pool.state .committed slot
  working : Function.Injective (fun i => (entries i).slot) → ∀ i,
    res.runner.mambaPool.state .working (entries i).slot =
      model.workingState pool (entries i) (res.inputIds i)
  rows : ∀ i, res.runner.outRows i = some (model.kvRows
    (pool.state .committed (entries i).slot) (entries i).prefixIndices (res.inputIds i))

theorem DllmAlgorithm.run_batchRan {algorithm : DllmAlgorithm V K}
    {model : ServedModel L S Z Kv B V K} {pool : MambaPool L S Z}
    {entries : Fin R → BatchEntry Kv} {outRows : Fin R → Option (Fin B → Kv)}
    {ids : Fin R → Block B V} {res : RunResult (Device L S Z Kv R B) R B V K}
    (hres : algorithm.run (model.runner entries) ⟨pool, outRows⟩ ids = some res) :
    BatchRan model pool entries res := by
  have hforward : ∀ device ids, KeepsCommitted pool device →
      KeepsCommitted pool ((model.runner entries).forward device ids).2 :=
    fun _ ids keeps => keeps.forward model entries ids
  obtain ⟨before, keeps, hlast⟩ :=
    DllmAlgorithm.run_endsOnForward hforward ⟨rfl, fun _ => rfl⟩ hres
  have hend := keeps.forward model entries res.inputIds
  rw [hlast] at hend
  refine ⟨hend.freeSlots, hend.committed, ?_, ?_⟩
  · intro hinj i
    rw [← hlast]
    refine (model.writeStates_working _ entries res.inputIds hinj i).trans ?_
    simp only [ServedModel.workingState, keeps.committed]
  · intro i
    rw [← hlast, ← keeps.committed]
    rfl

end Run

/-! The slots of a batch. -/

section Batch

variable {size mambaSize : Nat} {s : SchedulerState τ L S Z Kv B V} {rids : List Nat}
  {res : RunResult (Device L S Z Kv rids.length B) rids.length B V K}

def AllLive (s : SchedulerState τ L S Z Kv B V) (rids : List Nat) : Prop :=
  ∀ r ∈ rids, ∃ slot, (s.reqs r).mambaPoolIdx = some slot

theorem exists_get_idxOf {r : Nat} (hr : r ∈ rids) :
    rids.get ⟨rids.idxOf r, List.idxOf_lt_length_of_mem hr⟩ = r :=
  List.idxOf_get _

omit [AddMonoid S] [AddMonoid Z]

theorem Allocated.batchEntries_slot (allocated : Allocated size mambaSize s)
    {i : Fin rids.length} {slot : Nat}
    (hslot : (s.reqs (rids.get i)).mambaPoolIdx = some slot) :
    (s.batchEntries rids i).slot = slot := by
  obtain ⟨idx, hidx, hmapped⟩ := allocated.reqPoolIdx_of_mamba hslot
  rw [SchedulerState.batchEntries, hidx]
  exact hmapped

theorem Allocated.batchEntries_injective (allocated : Allocated size mambaSize s)
    (live : AllLive s rids) (hnodup : rids.Nodup) :
    Function.Injective (fun i => (s.batchEntries rids i).slot) := by
  intro i j hsame
  obtain ⟨slot, hslot⟩ := live (rids.get i) (List.get_mem rids i)
  obtain ⟨slot', hslot'⟩ := live (rids.get j) (List.get_mem rids j)
  dsimp only at hsame
  rw [allocated.batchEntries_slot hslot, allocated.batchEntries_slot hslot'] at hsame
  subst hsame
  exact hnodup.injective_get (allocated.mambaSlots.held_inj hslot hslot')

theorem SchedulerState.afterRun_sameSlots (s : SchedulerState τ L S Z Kv B V) (rids : List Nat)
    (res : RunResult (Device L S Z Kv rids.length B) rids.length B V K) :
    SameSlots s.reqs (s.afterRun rids res).reqs := by
  constructor
  all_goals
    intro r
    simp only [SchedulerState.afterRun]
    split_ifs <;> rfl

theorem SchedulerState.afterRun_served_of_notMem {r : Nat} (hr : r ∉ rids) :
    (s.afterRun rids res).served r = s.served r :=
  dif_neg hr

/-- What the forwards of a batch leave alone, whatever they compute. -/
structure SchedulerState.AfterForwards (s : SchedulerState τ L S Z Kv B V) (rids : List Nat)
    (ran : SchedulerState τ L S Z Kv B V) : Prop where
  reqs : SameSlots s.reqs ran.reqs
  pool : SamePool s.pool ran.pool
  nextRid : ran.nextRid = s.nextRid
  waitingQueue : ran.waitingQueue = s.waitingQueue
  dllmWaitingQueue : ran.dllmWaitingQueue = s.dllmWaitingQueue
  stagingQueue : ran.stagingQueue = s.stagingQueue
  batch : ran.batch = none
  served : ∀ r ∉ rids, ran.served r = s.served r

theorem SchedulerState.afterRun_afterForwards
    (hfree : res.runner.mambaPool.freeSlots = s.pool.mambaPool.freeSlots) :
    s.AfterForwards rids (s.afterRun rids res) where
  reqs := s.afterRun_sameSlots rids res
  pool := ⟨rfl, hfree, rfl, rfl⟩
  nextRid := rfl
  waitingQueue := rfl
  dllmWaitingQueue := rfl
  stagingQueue := rfl
  batch := rfl
  served _ hr := afterRun_served_of_notMem hr

theorem Allocated.afterForwards {ran : SchedulerState τ L S Z Kv B V}
    (allocated : Allocated size mambaSize s) (live : AllLive s rids)
    (forwards : s.AfterForwards rids ran) : Allocated size mambaSize ran := by
  refine allocated.congr forwards.reqs forwards.pool ?_
  intro r hnone
  refine forwards.served r ?_
  intro hr
  obtain ⟨slot, hslot⟩ := live r hr
  rw [hnone] at hslot
  cases hslot

theorem Allocated.afterRun (allocated : Allocated size mambaSize s) (live : AllLive s rids)
    (hfree : res.runner.mambaPool.freeSlots = s.pool.mambaPool.freeSlots) :
    Allocated size mambaSize (s.afterRun rids res) :=
  allocated.afterForwards live (SchedulerState.afterRun_afterForwards hfree)

end Batch

theorem Holds.afterRun {model : ServedModel L S Z Kv B V K} {size mambaSize : Nat}
    {s : SchedulerState τ L S Z Kv B V} {rids : List Nat}
    {res : RunResult (Device L S Z Kv rids.length B) rids.length B V K}
    (holds : Holds model [] s) (allocated : Allocated size mambaSize s) (live : AllLive s rids)
    (hnodup : rids.Nodup)
    (ran : BatchRan model s.pool.mambaPool (s.batchEntries rids) res) :
    Holds model rids (s.afterRun rids res) := by
  have same := s.afterRun_sameSlots rids res
  constructor
  · intro r slot hslot hout
    rw [same.mambaPoolIdx] at hslot
    rw [SchedulerState.afterRun_served_of_notMem hout]
    exact (ran.committed slot).trans (holds.promoted hslot List.not_mem_nil)
  · intro r slot hslot hr
    rw [same.mambaPoolIdx] at hslot
    have hown : (s.batchEntries rids ⟨rids.idxOf r, List.idxOf_lt_length_of_mem hr⟩).slot =
        slot := allocated.batchEntries_slot (by rw [exists_get_idxOf hr, hslot])
    have hworking := ran.working (allocated.batchEntries_injective live hnodup)
      ⟨rids.idxOf r, List.idxOf_lt_length_of_mem hr⟩
    rw [hown, ServedModel.workingState, hown,
      holds.promoted hslot List.not_mem_nil] at hworking
    refine Eq.trans hworking ?_
    simp only [SchedulerState.afterRun, dif_pos hr, ServedModel.stateOf_concat,
      SchedulerState.batchEntries, exists_get_idxOf hr]

end LladaHybrid.Serving
