import LladaHybrid.Serving.MemoryPool
import LladaHybrid.Decode.Prediction

namespace LladaHybrid.Serving

open LladaHybrid.Decode

/-! `Req` with its diffusion mixin, and the tree caches. A list of KV locations is modelled
by the KV rows at those locations. -/

inductive DllmReqPhase
  | stagingPrefill
  | stagingDecode
  | incomingPrefill
  | incomingDecode
  deriving DecidableEq

structure Req (V : Nat) (Kv : Type*) where
  originInputIds : List (Fin V)
  outputIds : List (Fin V)
  fillIds : List (Fin V)
  prefixIndices : List Kv
  /-- The row `req_to_token[req_pool_idx]`. -/
  reqToToken : List Kv
  extendInputLen : Nat
  reqPoolIdx : Option Nat
  mambaPoolIdx : Option Nat
  dllmPhase : DllmReqPhase
  dllmBlockOffset : Nat
  finished : Bool

variable {V : Nat} {Kv : Type*}

namespace Req

def new (B : Nat) (originInputIds : List (Fin V)) : Req V Kv where
  originInputIds
  outputIds := []
  fillIds := []
  prefixIndices := []
  reqToToken := []
  extendInputLen := 0
  reqPoolIdx := none
  mambaPoolIdx := none
  dllmPhase := if originInputIds.length < B then .incomingDecode else .incomingPrefill
  dllmBlockOffset := 0
  finished := false

def isDllmPrefill (req : Req V Kv) : Bool :=
  decide (req.dllmPhase = .stagingPrefill ∨ req.dllmPhase = .incomingPrefill)

def determineDllmPhase (B : Nat) (maskId : Fin V) (req : Req V Kv) : DllmReqPhase :=
  let prefixLength := req.prefixIndices.length
  if req.fillIds.length < prefixLength + B then
    req.dllmPhase
  else if ((req.fillIds.drop prefixLength).take B).contains maskId then
    .stagingDecode
  else
    .stagingPrefill

def initFillIdsForDllm (B : Nat) (maskId : Fin V) (req : Req V Kv) : Req V Kv :=
  { req with
    dllmBlockOffset := if req.fillIds = [] then 0 else req.dllmBlockOffset + B
    fillIds := req.originInputIds ++ req.outputIds ++ List.replicate B maskId }

/-- `init_next_round_input()` without a tree cache. -/
def initNextRoundInput (B : Nat) (maskId : Fin V) (req : Req V Kv) : Req V Kv :=
  let filled := req.initFillIdsForDllm B maskId
  { filled with
    dllmPhase := filled.determineDllmPhase B maskId
    extendInputLen := filled.fillIds.length - filled.prefixIndices.length }

/-- What a tree cache adds to `init_next_round_input`, with the assertion of
`_update_block_offset_for_dllm`. -/
def setMatched (B : Nat) (req : Req V Kv) (matched : List Kv) :
    Except ServingError (Req V Kv) :=
  if matched.length % B ≠ 0 then
    .error (.unexpectedPrefixLen matched.length)
  else
    .ok { req with
      prefixIndices := matched
      dllmBlockOffset := max req.dllmBlockOffset matched.length
      extendInputLen := req.fillIds.length - matched.length }

/-- What `add_dllm_staging_req` makes of a request for which `remTokens` are left. -/
def addDllmStagingReq (remTokens : Nat) (req : Req V Kv) : Req V Kv :=
  let extendInputLen := min req.extendInputLen remTokens
  { req with
    extendInputLen
    fillIds := req.fillIds.take (req.prefixIndices.length + extendInputLen) }

/-- What `_add_dllm_req` makes of a request that it truncates to `truncLen`. -/
def addDllmReq (truncLen : Nat) (req : Req V Kv) : Req V Kv :=
  { req with
    extendInputLen := truncLen
    fillIds := req.fillIds.take (req.prefixIndices.length + truncLen) }

/-- The tokens of `fill_ids` that the batch extends by. -/
def inputBlock (B : Nat) (maskId : Fin V) (req : Req V Kv) : Block B V := fun j =>
  (req.fillIds.drop req.prefixIndices.length).getD j maskId

/-- The bookkeeping of `process_batch_result_dllm` for the tokens a request gained. -/
def appendTokens (req : Req V Kv) (nextTokenIds : List (Fin V)) (finished : Bool) :
    Req V Kv :=
  { req with
    fillIds := req.fillIds.take (req.fillIds.length - nextTokenIds.length) ++ nextTokenIds
    outputIds := req.outputIds ++ nextTokenIds
    finished }

end Req

/-- The methods of a `BasePrefixCache` that the scheduler calls. Both calls that store a
request return the new state; for an unfinished one also its new `prefix_indices`. What
`evict` removes depends on the access times and is left open. -/
structure TreeCache (τ : Type*) (V : Nat) (Kv : Type*) where
  matchPrefix : τ → List (Fin V) → List Kv
  cacheUnfinishedReq : τ → Req V Kv → τ × List Kv
  cacheFinishedReq : τ → Req V Kv → τ
  evicts : τ → τ → Prop

def chunkCache (V : Nat) (Kv : Type*) : TreeCache PUnit V Kv where
  matchPrefix _ _ := []
  cacheUnfinishedReq tree req := (tree, req.reqToToken.take req.fillIds.length)
  cacheFinishedReq tree _ := tree
  evicts _ _ := False

/-- `init_next_round_input(tree_cache)`. -/
def Req.initNextRoundInputWith {τ : Type*} (cache : TreeCache τ V Kv) (tree : τ) (B : Nat)
    (maskId : Fin V) (req : Req V Kv) : Except ServingError (Req V Kv) :=
  let filled := req.initNextRoundInput B maskId
  filled.setMatched B (cache.matchPrefix tree (filled.fillIds.take (filled.fillIds.length - 1)))

end LladaHybrid.Serving
