import LladaHybrid.Decode.JointThreshold

namespace LladaHybrid.Decode

open LladaHybrid.Library

variable {σ : Type*} {R B V : Nat} {K : Type*}

structure LowConfidence (V : Nat) (K : Type*) where
  maskId : Fin V
  threshold : Conf K

namespace LowConfidence

def ofConfig [Field K] (maskId : Fin V) (threshold : Option (Conf K)) :
    LowConfidence V K where
  maskId
  threshold := threshold.getD ((0.95 : K) : WithTop K)

structure LoopState (σ : Type*) (R B V : Nat) where
  inputIds : Fin R → Block B V
  runner : σ

section Run

variable [Field K] [LinearOrder K] [ExpOps K] [TopK K] [NeZero V]

/-- The update of one block from its logits; a block without masks is skipped. -/
def blockStep (alg : LowConfidence V K) (logits : Logits B V K) (ids : Block B V) :
    Block B V :=
  let masks := maskIndex alg.maskId ids
  if masks = ∅ then
    ids
  else
    let pred := predict logits
    let x : Block B V := fun j => if j ∈ masks then pred.token j else ids j
    transferTokens ids x (confidentOrBest alg.threshold (confidence masks pred.prob))

def iterate (alg : LowConfidence V K) (model : ModelRunner σ R B V K)
    (s : LoopState σ R B V) : LoopState σ R B V :=
  let out := (model.forward s.runner s.inputIds).1
  { inputIds := fun i => alg.blockStep (out.fullLogits i) (s.inputIds i)
    runner := (model.forward s.runner s.inputIds).2 }

def noMasks (alg : LowConfidence V K) (ids : Fin R → Block B V) : Bool :=
  decide (∀ i, maskIndex alg.maskId (ids i) = ∅)

def denoise (alg : LowConfidence V K) (model : ModelRunner σ R B V K) (runner : σ)
    (ids : Fin R → Block B V) : LoopState σ R B V :=
  boundedLoop (fun s => alg.noMasks s.inputIds) (alg.iterate model) B ⟨ids, runner⟩

def startList (alg : LowConfidence V K) (ids : Fin R → Block B V) (i : Fin R) : Nat :=
  B - (maskIndex alg.maskId (ids i)).card

/-- The forward after the loop is the commit pass. -/
def run (alg : LowConfidence V K) (model : ModelRunner σ R B V K) (runner : σ)
    (ids : Fin R → Block B V) : RunResult σ R B V K :=
  if alg.noMasks ids then
    { inputIds := ids
      logitsOutput := (model.forward runner ids).1
      nextTokenIdsList := []
      runner := (model.forward runner ids).2 }
  else
    let s := alg.denoise model runner ids
    { inputIds := s.inputIds
      logitsOutput := (model.forward s.runner s.inputIds).1
      nextTokenIdsList := tokensFrom s.inputIds (alg.startList ids)
      runner := (model.forward s.runner s.inputIds).2 }

end Run

end LowConfidence

end LladaHybrid.Decode
