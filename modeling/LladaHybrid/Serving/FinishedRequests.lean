import LladaHybrid.Library.Dict
import LladaHybrid.Serving.ReferenceGeneration
import LladaHybrid.Serving.SlotConservation

namespace LladaHybrid.Serving

open LladaHybrid.Library LladaHybrid.Decode LladaHybrid.Attention LladaHybrid.Model
  LladaHybrid.Generate

/-! `check_finished`: when a request stops, and what it returns. Aborted requests, grammars
and stop strings are left out. -/

variable {τ L S Z Kv K : Type} {B V : Nat}

structure SamplingParams (V : Nat) where
  maxNewTokens : Option Nat
  ignoreEos : Bool
  stopTokenIds : List (Fin V)

/-- The limits of the server and the parameters each request is sent with. The end tokens
are those of the model and of the tokenizer. -/
structure FinishRules (V : Nat) where
  maxReqLen : Nat
  eosTokenIds : List (Fin V)
  samplingParams : Nat → SamplingParams V

namespace FinishRules

variable (rules : FinishRules V) (rid : Nat)

/-- `max_req_input_len = max_req_len - 5`. -/
def validInputLength (originInputIds : List (Fin V)) : Prop :=
  originInputIds.length < rules.maxReqLen - 5

instance (originInputIds : List (Fin V)) : Decidable (rules.validInputLength originInputIds) :=
  inferInstanceAs (Decidable (_ < _))

/-- `init_req_max_new_tokens`. -/
def maxNewTokens (originInputIds : List (Fin V)) : Nat :=
  min ((rules.samplingParams rid).maxNewTokens.getD (1 <<< 30))
    (rules.maxReqLen - originInputIds.length - 1)

def matchesStop (token : Fin V) : Bool :=
  (rules.samplingParams rid).stopTokenIds.contains token || rules.eosTokenIds.contains token

/-- The `finished_len` of a match, if there is one. -/
def checkTokenBasedFinish (outputIds newAcceptedTokens : List (Fin V)) : Option Nat :=
  if (rules.samplingParams rid).ignoreEos then
    none
  else
    (newAcceptedTokens.findIdx? (rules.matchesStop rid)).map
      (fun i => outputIds.length - newAcceptedTokens.length + i + 1)

/-- The `finished_len` of the request after the check. -/
def checkFinished (originInputIds : List (Fin V)) (finishedLen : Option Nat)
    (outputIds : List (Fin V)) (newAcceptedLen : Nat) : Option Nat :=
  match finishedLen with
  | some len => some len
  | none =>
      if rules.maxNewTokens rid originInputIds ≤ outputIds.length then
        some (rules.maxNewTokens rid originInputIds)
      else
        rules.checkTokenBasedFinish rid outputIds
          (outputIds.drop (outputIds.length - newAcceptedLen))

def stopsAt (token : Fin V) : Bool :=
  !(rules.samplingParams rid).ignoreEos && rules.matchesStop rid token

/-- A request with these tokens passes every check. -/
structure RunsOn (originInputIds outputIds : List (Fin V)) : Prop where
  unstopped : ∀ token ∈ outputIds, rules.stopsAt rid token = false
  short : outputIds ≠ [] → outputIds.length < rules.maxNewTokens rid originInputIds

variable {rules rid} {originInputIds before new : List (Fin V)} {len : Nat}

theorem RunsOn.nil (originInputIds : List (Fin V)) : rules.RunsOn rid originInputIds [] :=
  ⟨fun _ htoken => absurd htoken List.not_mem_nil, fun hne => absurd rfl hne⟩

theorem RunsOn.length_le {originInputIds outputIds : List (Fin V)}
    (runsOn : rules.RunsOn rid originInputIds outputIds) :
    outputIds.length ≤ rules.maxNewTokens rid originInputIds := by
  rcases eq_or_ne outputIds [] with rfl | hne
  · exact Nat.zero_le _
  · exact (runsOn.short hne).le

theorem checkTokenBasedFinish_append (before new : List (Fin V)) :
    rules.checkTokenBasedFinish rid (before ++ new) new =
      (new.findIdx? (rules.stopsAt rid)).map (fun i => before.length + i + 1) := by
  unfold checkTokenBasedFinish stopsAt
  rw [List.length_append, Nat.add_sub_cancel]
  cases (rules.samplingParams rid).ignoreEos with
  | false => simp
  | true => simp

theorem checkFinished_append (originInputIds before new : List (Fin V)) :
    rules.checkFinished rid originInputIds none (before ++ new) new.length =
      if rules.maxNewTokens rid originInputIds ≤ (before ++ new).length then
        some (rules.maxNewTokens rid originInputIds)
      else
        (new.findIdx? (rules.stopsAt rid)).map (fun i => before.length + i + 1) := by
  have hdrop : (before ++ new).drop ((before ++ new).length - new.length) = new := by
    rw [List.length_append, Nat.add_sub_cancel, List.drop_left]
  rw [checkFinished, hdrop, checkTokenBasedFinish_append]

theorem RunsOn.append (runsOn : rules.RunsOn rid originInputIds before)
    (hnone : rules.checkFinished rid originInputIds none (before ++ new) new.length = none) :
    rules.RunsOn rid originInputIds (before ++ new) := by
  rw [checkFinished_append] at hnone
  split_ifs at hnone with hlong
  rw [Option.map_eq_none_iff, List.findIdx?_eq_none_iff] at hnone
  refine ⟨?_, fun _ => Nat.not_le.mp hlong⟩
  intro token htoken
  rcases List.mem_append.mp htoken with hbefore | hnew
  · exact runsOn.unstopped token hbefore
  · exact hnone token hnew

end FinishRules

structure CheckedState (τ L S Z Kv : Type) (B V : Nat) where
  scheduler : SchedulerState τ L S Z Kv B V
  finishedLen : Nat → Option Nat

namespace CheckedState

def initial [Zero S] [Zero Z] (size mambaSize : Nat) (tree : τ) :
    CheckedState τ L S Z Kv B V where
  scheduler := .initial size mambaSize tree
  finishedLen _ := none

/-- What the check says of a request that gains the tokens of `entry`. -/
def check (rules : FinishRules V) (t : CheckedState τ L S Z Kv B V)
    (entry : Nat × List (Fin V)) : Option Nat :=
  if entry.2 = [] then
    t.finishedLen entry.1
  else
    rules.checkFinished entry.1 (t.scheduler.reqs entry.1).originInputIds
      (t.finishedLen entry.1) ((t.scheduler.reqs entry.1).outputIds ++ entry.2) entry.2.length

end CheckedState

namespace Server

variable (server : Server τ L S Z Kv B V K) (rules : FinishRules V)

def processReqChecked (t : CheckedState τ L S Z Kv B V) (entry : Nat × List (Fin V)) :
    Except ServingError (CheckedState τ L S Z Kv B V) :=
  let finishedLen := t.check rules entry
  (server.processReq (fun _ => finishedLen.isSome) t.scheduler entry).map
    (fun s => ⟨s, Function.update t.finishedLen entry.1 finishedLen⟩)

variable [Field K] [LinearOrder K] [ExpOps K] [TopK K] [NeZero V] [AddMonoid S] [AddMonoid Z]

def runBatchChecked (t : CheckedState τ L S Z Kv B V) (rids : List Nat) :
    Except ServingError (CheckedState τ L S Z Kv B V) :=
  match server.algorithm.run (server.model.runner (t.scheduler.batchEntries rids))
      ⟨t.scheduler.pool.mambaPool, fun _ => none⟩ (server.inputIds t.scheduler rids) with
  | none => .error .algorithmFailed
  | some res =>
      (rids.zip res.nextTokenIdsList).foldlM (server.processReqChecked rules)
        { t with scheduler := t.scheduler.afterRun rids res }

/-- The batches are of whole blocks, as in `Step`. -/
inductive CheckedStep : CheckedState τ L S Z Kv B V → CheckedState τ L S Z Kv B V → Prop
  | recv {t : CheckedState τ L S Z Kv B V} (originInputIds : List (Fin V)) :
      t.scheduler.batch = none → rules.validInputLength originInputIds →
      CheckedStep t { t with scheduler := t.scheduler.recvRequest originInputIds }
  | getNextBatch {t : CheckedState τ L S Z Kv B V} {s : SchedulerState τ L S Z Kv B V}
      (budget : Budget) :
      t.scheduler.batch = none → server.getNextBatchToRun budget t.scheduler = .ok s →
      s.WholeBlocks → CheckedStep t { t with scheduler := s }
  | run {t t' : CheckedState τ L S Z Kv B V} {rids : List Nat} :
      t.scheduler.batch = some rids → server.runBatchChecked rules t rids = .ok t' →
      CheckedStep t t'
  | evict {t : CheckedState τ L S Z Kv B V} {tree : τ} :
      server.treeCache.evicts t.scheduler.tree tree →
      CheckedStep t { t with scheduler := { t.scheduler with tree } }

def CheckedReachable (size mambaSize : Nat) (tree : τ) (t : CheckedState τ L S Z Kv B V) :
    Prop :=
  Relation.ReflTransGen (server.CheckedStep rules) (.initial size mambaSize tree) t

end Server

variable {server : Server τ L S Z Kv B V K} {rules : FinishRules V}
  {t t' : CheckedState τ L S Z Kv B V} {size mambaSize : Nat}

/-! The checks of a batch are those of its requests, each before the loop. -/

theorem processReqChecked_ok {entry : Nat × List (Fin V)}
    (hok : server.processReqChecked rules t entry = .ok t') :
    server.processReq (fun _ => (t.check rules entry).isSome) t.scheduler entry =
        .ok t'.scheduler ∧
      t'.finishedLen = Function.update t.finishedLen entry.1 (t.check rules entry) := by
  obtain ⟨s, hprocess, rfl⟩ := map_eq_ok hok
  exact ⟨hprocess, rfl⟩

theorem processReq_congr {stops stops' : Nat → Bool} {entry : Nat × List (Fin V)}
    (hsame : stops entry.1 = stops' entry.1) (s : SchedulerState τ L S Z Kv B V) :
    server.processReq stops s entry = server.processReq stops' s entry := by
  unfold Server.processReq
  rw [hsame]

theorem check_of_other {entry other : Nat × List (Fin V)} (hne : other.1 ≠ entry.1)
    (hok : server.processReqChecked rules t entry = .ok t') :
    t'.check rules other = t.check rules other := by
  obtain ⟨hprocess, hlen⟩ := processReqChecked_ok hok
  have hreq := (processReq_sameQueues hprocess).2 other.1 hne
  unfold CheckedState.check
  rw [hlen, Function.update_of_ne hne, hreq]

/-- The loop with its checks is the loop that is told beforehand which requests stop. -/
theorem processAllChecked_ok {entries : List (Nat × List (Fin V))} {stops : Nat → Bool}
    (hnodup : (entries.map Prod.fst).Nodup)
    (hstops : ∀ entry ∈ entries, stops entry.1 = (t.check rules entry).isSome)
    (hok : entries.foldlM (server.processReqChecked rules) t = .ok t') :
    entries.foldlM (server.processReq stops) t.scheduler = .ok t'.scheduler ∧
      (∀ entry ∈ entries, t'.finishedLen entry.1 = t.check rules entry) ∧
      ∀ r, r ∉ entries.map Prod.fst → t'.finishedLen r = t.finishedLen r := by
  induction entries generalizing t with
  | nil =>
      cases hok
      exact ⟨rfl, fun _ hentry => absurd hentry List.not_mem_nil, fun _ _ => rfl⟩
  | cons entry rest ih =>
      rw [List.map_cons, List.nodup_cons] at hnodup
      rw [List.foldlM_cons] at hok
      obtain ⟨middle, hfirst, hrest⟩ := bind_eq_ok hok
      obtain ⟨hprocess, hlen⟩ := processReqChecked_ok hfirst
      have hother : ∀ other ∈ rest, other.1 ≠ entry.1 := fun other hmem hsame =>
        hnodup.1 (hsame ▸ List.mem_map_of_mem hmem)
      have hlater : ∀ other ∈ rest, stops other.1 = (middle.check rules other).isSome := by
        intro other hmem
        rw [check_of_other (hother other hmem) hfirst]
        exact hstops other (List.mem_cons_of_mem entry hmem)
      obtain ⟨hfold, hin, hout⟩ := ih hnodup.2 hlater hrest
      refine ⟨?_, ?_, ?_⟩
      · have hown : server.processReq stops t.scheduler entry = .ok middle.scheduler :=
          (processReq_congr (hstops entry List.mem_cons_self :) t.scheduler).trans hprocess
        rw [List.foldlM_cons, hown]
        exact hfold
      · intro other hmem
        rcases List.mem_cons.mp hmem with rfl | hmem
        · rw [hout other.1 hnodup.1, hlen, Function.update_self]
        · rw [hin other hmem, check_of_other (hother other hmem) hfirst]
      · intro r hr
        rw [List.map_cons, List.mem_cons, not_or] at hr
        rw [hout r hr.2, hlen, Function.update_of_ne hr.1]

theorem afterRun_sameTokens (s : SchedulerState τ L S Z Kv B V) (rids : List Nat)
    (res : RunResult (Device L S Z Kv rids.length B) rids.length B V K) :
    SameTokens s.reqs (s.afterRun rids res).reqs := by
  constructor
  all_goals
    intro r
    simp only [SchedulerState.afterRun]
    split_ifs <;> rfl

theorem processAll_finished {stops : Nat → Bool} {rids : List Nat} {lists : List (List (Fin V))}
    {s s' : SchedulerState τ L S Z Kv B V} (hnodup : rids.Nodup)
    (hok : (rids.zip lists).foldlM (server.processReq stops) s = .ok s') {r : Nat}
    (hr : r ∈ rids) :
    (s'.reqs r).finished =
      if lists.getD (rids.idxOf r) [] = [] then (s.reqs r).finished else stops r := by
  have hkeys := (zip_keys_sublist rids lists).nodup hnodup
  rcases Nat.lt_or_ge (rids.idxOf r) lists.length with hlt | hge
  · obtain ⟨s₁, s₂, hbefore, hstep, hafter⟩ := foldlM_once (fun s => s.reqs r) Prod.fst
      (mem_zip_idxOf hr [] hlt) hkeys
      (fun _ _ _ hne hstep => (processReq_sameQueues hstep).2 r hne.symm) hok
    rw [hafter, ← hbefore]
    split_ifs with hnil
    · rw [Server.processReq, if_pos hnil] at hstep
      cases hstep
      rfl
    · rcases Server.processReq_cases hstep with
        ⟨hnil', -⟩ | ⟨hstops, rfl⟩ | ⟨hstops, _, _, -, -, rfl⟩
      · exact absurd hnil' hnil
      · simp [SchedulerState.setReq, Req.appendTokens, hstops]
      · simp [SchedulerState.setReq, Req.appendTokens, hstops]
  · rw [List.getD_eq_default _ _ hge, if_pos rfl,
      (processAll_sameQueues hok).2 r (notMem_zip_keys hnodup hge)]

section Run

variable [Field K] [LinearOrder K] [ExpOps K] [TopK K] [NeZero V] [AddMonoid S] [AddMonoid Z]

/-- A checked run is a run, in which each request of the batch gains some tokens and is
checked with them. -/
theorem runBatchChecked_ok {rids : List Nat} (hnodup : rids.Nodup)
    (hok : server.runBatchChecked rules t rids = .ok t') :
    ∃ (stops : Nat → Bool) (next : Nat → List (Fin V)),
      server.runBatch stops t.scheduler rids = .ok t'.scheduler ∧
      (∀ r ∈ rids,
        (t'.scheduler.reqs r).originInputIds = (t.scheduler.reqs r).originInputIds ∧
        (t'.scheduler.reqs r).outputIds = (t.scheduler.reqs r).outputIds ++ next r ∧
        t'.finishedLen r = t.check rules (r, next r) ∧
        (t'.scheduler.reqs r).finished =
          if next r = [] then (t.scheduler.reqs r).finished else (t'.finishedLen r).isSome) ∧
      ∀ r, r ∉ rids → t'.scheduler.reqs r = t.scheduler.reqs r ∧
        t'.finishedLen r = t.finishedLen r := by
  unfold Server.runBatchChecked at hok
  split at hok
  · cases hok
  rename_i res hres
  have hkeys := zip_keys_sublist rids res.nextTokenIdsList
  have hafter := afterRun_sameTokens t.scheduler rids res
  obtain ⟨stops, hstops⟩ := exists_of_nodup_keys (fun entry => Option.isSome
    (CheckedState.check rules { t with scheduler := t.scheduler.afterRun rids res } entry))
    (hkeys.nodup hnodup)
  obtain ⟨hprocess, hin, hout⟩ := processAllChecked_ok (hkeys.nodup hnodup) hstops hok
  refine ⟨stops, fun r => res.nextTokenIdsList.getD (rids.idxOf r) [], ?_, ?_, ?_⟩
  · unfold Server.runBatch
    rw [hres]
    exact hprocess
  · intro r hr
    obtain ⟨hinput, houtput⟩ := processAll_tokens hnodup hprocess hr
    have hfinished := processAll_finished hnodup hprocess hr
    rw [hafter.originInputIds] at hinput
    rw [hafter.outputIds] at houtput
    rw [(t.scheduler.afterRun_sameSlots rids res).finished] at hfinished
    have hcheck : ∀ entry, CheckedState.check rules
        { t with scheduler := t.scheduler.afterRun rids res } entry = t.check rules entry := by
      intro entry
      simp only [CheckedState.check, hafter.originInputIds, hafter.outputIds]
    have hlen : t'.finishedLen r =
        t.check rules (r, res.nextTokenIdsList.getD (rids.idxOf r) []) := by
      rcases Nat.lt_or_ge (rids.idxOf r) res.nextTokenIdsList.length with hlt | hge
      · rw [← hcheck]
        exact hin _ (mem_zip_idxOf hr [] hlt)
      · rw [hout r (notMem_zip_keys hnodup hge), List.getD_eq_default _ _ hge]
        exact (if_pos rfl).symm
    refine ⟨hinput, houtput, hlen, ?_⟩
    rw [hfinished]
    split_ifs with hnil
    · rfl
    · have hlt : rids.idxOf r < res.nextTokenIdsList.length := by
        by_contra hge
        exact hnil (List.getD_eq_default _ _ (Nat.not_lt.mp hge))
      rw [hlen, ← hcheck]
      exact hstops _ (mem_zip_idxOf hr [] hlt)
  · intro r hr
    have hnot : r ∉ (rids.zip res.nextTokenIdsList).map Prod.fst := fun hkey =>
      hr (hkeys.subset hkey)
    refine ⟨?_, hout r hnot⟩
    rw [(processAll_sameQueues hprocess).2 r hnot]
    exact dif_neg hr

theorem CheckedReachable.reachable {tree : τ}
    (checked : server.CheckedReachable rules size mambaSize tree t) :
    server.Reachable size mambaSize tree t.scheduler := by
  induction checked with
  | refl => exact .refl
  | tail _ step ih =>
      cases step with
      | recv originInputIds hnone _ => exact ih.tail (.recv originInputIds hnone)
      | getNextBatch budget hnone hok hwhole =>
          exact ih.tail (.getNextBatch budget hnone hok hwhole)
      | run hsome hok =>
          have hsound := Server.Reachable.sound ih
          have hnodup := (hsound.batch hsome).1 ▸ hsound.queues.staging_nodup
          obtain ⟨stops, _, hrun, -⟩ := runBatchChecked_ok hnodup hok
          exact ih.tail (.run stops hsome hrun)
      | evict hevicts => exact ih.tail (.evict hevicts)

theorem CheckedReachable.runBatchChecked_exists {tree : τ} (returns : server.algorithm.Returns B)
    (checked : server.CheckedReachable rules size mambaSize tree t) {rids : List Nat}
    (hsome : t.scheduler.batch = some rids) :
    ∃ t', server.runBatchChecked rules t rids = .ok t' := by
  obtain ⟨res, hres⟩ := DllmAlgorithm.run_exists returns
    (server.model.runner (t.scheduler.batchEntries rids))
    ⟨t.scheduler.pool.mambaPool, fun _ => none⟩ (server.inputIds t.scheduler rids)
  obtain ⟨hallocated, hnodup, hlive⟩ :=
    (CheckedReachable.reachable checked).afterRun_live hsome hres
  unfold Server.runBatchChecked
  rw [hres]
  refine foldlM_exists_ok_rest (fun rest u => Allocated size mambaSize u.scheduler ∧
    (rest.map Prod.fst).Nodup ∧ AllLive u.scheduler (rest.map Prod.fst)) ?_
    ⟨hallocated, hnodup, hlive⟩
  rintro ⟨rid, next⟩ rest u ⟨allocated, hnodup, live⟩
  rw [List.map_cons, List.nodup_cons] at hnodup
  obtain ⟨slot, hslot⟩ := live rid List.mem_cons_self
  obtain ⟨s, hok⟩ : ∃ s, server.processReq (fun _ => (u.check rules (rid, next)).isSome)
      u.scheduler (rid, next) = .ok s := processReq_exists allocated hslot _ next
  refine ⟨⟨s, Function.update u.finishedLen rid (u.check rules (rid, next))⟩, ?_,
    allocated.processReq hslot hok, hnodup.2, AllLive.processReq live hnodup.1 hok⟩
  unfold Server.processReqChecked
  dsimp only
  rw [hok]
  rfl

theorem runBatch_served {stops : Nat → Bool} {s s' : SchedulerState τ L S Z Kv B V}
    {rids : List Nat} (hok : server.runBatch stops s rids = .ok s') (r : Nat) :
    (r ∈ rids → ∃ block, s'.served r = s.served r ++ [block]) ∧
      (r ∉ rids → s'.served r = s.served r) := by
  obtain ⟨res, -, hprocess⟩ := Server.runBatch_ok hok
  rw [(processAll_sameQueues hprocess).1.served]
  exact ⟨fun hr => ⟨_, dif_pos hr⟩, SchedulerState.afterRun_served_of_notMem⟩

end Run

/-! What is known of a request, as long as it runs and once it has ended. -/

section Tallied

variable {t t' : CheckedState PUnit L S Z Kv B V}

/-- The last block of a request ended it: it passed every check before. -/
structure EndedBy (rules : FinishRules V) (maskId : Fin V) (t : CheckedState PUnit L S Z Kv B V)
    (r len n : Nat) (before new : List (Fin V)) : Prop where
  served : (t.scheduler.served r).length = n + 1
  outputIds : (t.scheduler.reqs r).outputIds = before ++ new
  runsOn : rules.RunsOn r (t.scheduler.reqs r).originInputIds before
  finished : rules.checkFinished r (t.scheduler.reqs r).originInputIds none (before ++ new)
    new.length = some len
  lengths : maskId ∉ (t.scheduler.reqs r).originInputIds →
    n * B ≤ (t.scheduler.reqs r).originInputIds.length + before.length ∧
      (t.scheduler.reqs r).originInputIds.length + (before ++ new).length = (n + 1) * B

structure Tallied (rules : FinishRules V) (maskId : Fin V) (t : CheckedState PUnit L S Z Kv B V)
    (r : Nat) : Prop where
  running : t.finishedLen r = none → (t.scheduler.reqs r).finished = false ∧
    rules.RunsOn r (t.scheduler.reqs r).originInputIds (t.scheduler.reqs r).outputIds
  ended : ∀ {len}, t.finishedLen r = some len → (t.scheduler.reqs r).finished = true ∧
    ∃ n before new, EndedBy rules maskId t r len n before new

theorem Tallied.unfinished {maskId : Fin V} {r : Nat} (tallied : Tallied rules maskId t r)
    (hlive : (t.scheduler.reqs r).finished = false) :
    t.finishedLen r = none ∧
      rules.RunsOn r (t.scheduler.reqs r).originInputIds (t.scheduler.reqs r).outputIds := by
  have hnone : t.finishedLen r = none := by
    cases hlen : t.finishedLen r with
    | none => rfl
    | some len => cases hlive.symm.trans (tallied.ended hlen).1
  exact ⟨hnone, (tallied.running hnone).2⟩

theorem Tallied.congr {maskId : Fin V} {r : Nat} (tallied : Tallied rules maskId t r)
    (hinput : (t'.scheduler.reqs r).originInputIds = (t.scheduler.reqs r).originInputIds)
    (houtput : (t'.scheduler.reqs r).outputIds = (t.scheduler.reqs r).outputIds)
    (hfinished : (t'.scheduler.reqs r).finished = (t.scheduler.reqs r).finished)
    (hserved : t'.scheduler.served r = t.scheduler.served r)
    (hlen : t'.finishedLen r = t.finishedLen r) : Tallied rules maskId t' r where
  running hnone := by
    rw [hinput, houtput, hfinished]
    exact tallied.running (hlen ▸ hnone)
  ended hsome := by
    obtain ⟨hdone, n, before, new, ended⟩ := tallied.ended (hlen ▸ hsome)
    refine ⟨hfinished.trans hdone, n, before, new, ?_⟩
    obtain ⟨hn, houtputs, hruns, hcheck, hlengths⟩ := ended
    rw [← hinput] at hruns hcheck hlengths
    exact ⟨hserved ▸ hn, houtput.trans houtputs, hruns, hcheck, hlengths⟩

theorem Tallied.recv {maskId : Fin V} {r : Nat} (tallied : Tallied rules maskId t r)
    (scheduled : Scheduled size mambaSize t.scheduler) (originInputIds : List (Fin V)) :
    Tallied rules maskId { t with scheduler := t.scheduler.recvRequest originInputIds } r := by
  by_cases hr : r = t.scheduler.nextRid
  · subst hr
    obtain ⟨-, -, hfresh⟩ := scheduled.queues.fresh t.scheduler.nextRid le_rfl
    refine ⟨fun _ => ?_, fun hsome => ?_⟩
    · simp only [SchedulerState.recvRequest, Function.update_self]
      exact ⟨rfl, .nil originInputIds⟩
    · cases hfresh.symm.trans (tallied.ended hsome).1
  · have hreq : (t.scheduler.recvRequest originInputIds).reqs r = t.scheduler.reqs r :=
      Function.update_of_ne hr _ _
    exact tallied.congr (congrArg _ hreq) (congrArg _ hreq) (congrArg _ hreq) rfl rfl

variable [Field K] [LinearOrder K] [ExpOps K] [TopK K] [NeZero V] [AddMonoid S] [AddMonoid Z]
  {server : Server PUnit L S Z Kv B V K}

theorem Tallied.run (hcache : server.treeCache = chunkCache V Kv)
    (reachable : server.Reachable size mambaSize ⟨⟩ t.scheduler)
    (reachable' : server.Reachable size mambaSize ⟨⟩ t'.scheduler) {rids : List Nat}
    (hsome : t.scheduler.batch = some rids)
    (hok : server.runBatchChecked rules t rids = .ok t') {r : Nat}
    (tallied : Tallied rules server.maskId t r) : Tallied rules server.maskId t' r := by
  have hsound := Server.Reachable.sound reachable
  obtain ⟨hstaging, hlive⟩ := hsound.batch hsome
  obtain ⟨stops, next, hrun, hin, hout⟩ :=
    runBatchChecked_ok (hstaging ▸ hsound.queues.staging_nodup) hok
  by_cases hr : r ∈ rids
  swap
  · obtain ⟨hreq, hlen⟩ := hout r hr
    exact tallied.congr (congrArg _ hreq) (congrArg _ hreq) (congrArg _ hreq)
      ((runBatch_served hrun r).2 hr) hlen
  obtain ⟨slot, hslot⟩ := hlive r hr
  have hunfinished := hsound.allocated.finished_of_live hslot
  obtain ⟨hnone, runsOn⟩ := tallied.unfinished hunfinished
  obtain ⟨hinput, houtput, hlen, hfinished⟩ := hin r hr
  simp only [CheckedState.check, hnone] at hlen
  split_ifs at hlen hfinished with hnil
  · rw [hnil, List.append_nil] at houtput
    refine ⟨fun _ => ?_, fun hended => ?_⟩
    · rw [hinput, houtput, hfinished]
      exact ⟨hunfinished, runsOn⟩
    · cases hlen.symm.trans hended
  · refine ⟨fun hgoes => ?_, fun {len} hended => ?_⟩
    · rw [hinput, houtput, hfinished, hgoes]
      exact ⟨rfl, runsOn.append (hlen.symm.trans hgoes)⟩
    · obtain ⟨block, hblock⟩ := (runBatch_served hrun r).1 hr
      have hserved : (t'.scheduler.served r).length = (t.scheduler.served r).length + 1 := by
        rw [hblock, List.length_append, List.length_singleton]
      refine ⟨by rw [hfinished, hended]; rfl, (t.scheduler.served r).length, _, next r, hserved,
        houtput, hinput ▸ runsOn, hinput ▸ hlen.symm.trans hended, fun hprompt => ?_⟩
      have hlength := (Server.Reachable.decodedAlone hcache reachable r).length_tokens
        (hinput ▸ hprompt)
      have hlength' := (Server.Reachable.decodedAlone hcache reachable' r).length_tokens hprompt
      rw [Req.tokens, List.length_append] at hlength hlength'
      rw [houtput, hserved, List.length_append] at hlength'
      have hnew : 0 < (next r).length := List.length_pos_iff.mpr hnil
      rw [hinput] at hlength' ⊢
      rw [List.length_append]
      omega

theorem CheckedReachable.tallied (hcache : server.treeCache = chunkCache V Kv)
    (checked : server.CheckedReachable rules size mambaSize ⟨⟩ t) (r : Nat) :
    Tallied rules server.maskId t r := by
  induction checked with
  | refl => exact ⟨fun _ => ⟨rfl, .nil _⟩, fun hsome => by cases hsome⟩
  | tail before step ih =>
      have hreachable := CheckedReachable.reachable before
      have hreachable' := CheckedReachable.reachable (before.tail step)
      have hsound := Server.Reachable.sound hreachable
      cases step with
      | recv originInputIds _ _ => exact ih.recv hsound.toScheduled originInputIds
      | getNextBatch budget _ hok _ =>
          obtain ⟨hsame, hserved⟩ := hsound.toScheduled.getNextBatch_sameTokens hok
          exact ih.congr (hsame.originInputIds r) (hsame.outputIds r)
            (hsound.toScheduled.getNextBatch_finished hok r) (congrFun hserved r) rfl
      | run hsome hok => exact ih.run hcache hreachable hreachable' hsome hok
      | evict _ => exact ih.congr rfl rfl rfl rfl rfl

end Tallied

section Answer

variable {X : Type} {D F : Nat} [Field K] [LinearOrder K] [ExpOps K] [TopK K] [Add X] [NeZero B]
  [NeZero V] {model : Transformer X D F V K} {args : GenerateArgs V K}

end Answer

/-! A request for one token after a prompt of one. -/

namespace OneToken

noncomputable def generateArgs : GenerateArgs 2 ℝ :=
  { steps := 1, genLength := 1, minimalTopk := ⟨1, Nat.one_pos⟩, threshold := ((1 : ℝ) : WithTop ℝ),
    editingThreshold := ((1 : ℝ) : WithTop ℝ), maxPostSteps := 0, numToTransfer := 1,
    eosEarlyStop := false, eosId := some ⟨0, Nat.two_pos⟩, maskId := Fin.last 1,
    repetitionPenalty := 1 }

noncomputable def chunkServer (B : Nat) [NeZero B] : Server PUnit
    (HybridLayer (twoLayerModel ℝ)) (HeadStates 1 1 ℝ) (HeadSums 1 ℝ) (KvRow 1 ℝ) B 2 ℝ where
  treeCache := chunkCache 2 (KvRow 1 ℝ)
  algorithm := .jointThreshold generateArgs.jointThreshold
  model := servedTransformer (twoLayerModel ℝ)
  maxRunningRequests := 1

end OneToken

end LladaHybrid.Serving
