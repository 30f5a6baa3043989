import LladaHybrid.Library.Arithmetic
import Mathlib.Data.Finset.Lattice.Fold
import Mathlib.Algebra.BigOperators.Ring.Finset

namespace LladaHybrid.Attention

open LladaHybrid.Library

/-! `BlockSoftmaxLinearHybrid` of the PyTorch model: softmax attention inside a block
and Hedgehog linear attention over the blocks before it, for one batch element. -/

abbrev Vec (D : Nat) (K : Type*) := Fin D → K

/-- The positive and the negative Hedgehog features. -/
abbrev Feature (F : Nat) := Fin F ⊕ Fin F

@[ext] structure RecurrentState (D F : Nat) (K : Type*) where
  S : Feature F → Vec D K
  Z : Feature F → K

structure HybridParams (D F : Nat) (K : Type*) where
  numHeads : Nat
  numKvHeads : Nat
  shareKvGroups : Bool
  scaling : K
  hedgehogWeights : Nat → Fin D → Fin F → K
  alpha : Nat → K

structure HeadTokens (D : Nat) (K : Type*) where
  length : Nat
  q : Nat → Vec D K
  k : Nat → Vec D K
  v : Nat → Vec D K

variable {D F S : Nat} {K : Type*}

def HybridParams.numKvGroups (m : HybridParams D F K) : Nat :=
  m.numHeads / m.numKvHeads

/-- The head of `hedgehog_weights` that query head `h` uses. -/
def HybridParams.stateHead (m : HybridParams D F K) (h : Nat) : Nat :=
  if m.shareKvGroups then h / m.numKvGroups else h

/-- `repeat_kv` on `[Hkv, L, D]`. -/
def repeatKv (nRep : Nat) (x : Nat → Nat → Vec D K) (h : Nat) : Nat → Vec D K :=
  x (h / nRep)

section Block

variable [Field K]

/-- `self.eps`. -/
def eps : K := 1 / 1000000

theorem eps_le_one [LinearOrder K] [IsStrictOrderedRing K] : (eps : K) ≤ 1 := by
  rw [eps, div_le_one (by norm_num)]
  norm_num

def RecurrentState.zero : RecurrentState D F K :=
  ⟨fun _ _ => 0, fun _ => 0⟩

/-- `state + (phi_k^T v, sum(phi_k))` over the tokens of a block. -/
def RecurrentState.update (state : RecurrentState D F K)
    (phiK : Fin S → Feature F → K) (v : Fin S → Vec D K) : RecurrentState D F K where
  S f d := state.S f d + ∑ s, phiK s f * v s d
  Z f := state.Z f + ∑ s, phiK s f

def hedgehog (weights : Fin D → Fin F → K) (x : Vec D K) (f : Fin F) : K :=
  ∑ d, x d * weights d f

variable [LinearOrder K] [ExpOps K]

def featureMap (weights : Fin D → Fin F → K) (x : Vec D K) : Feature F → K :=
  Sum.elim (softmax (hedgehog weights x)) (softmax (fun f => -hedgehog weights x f))

theorem featureMap_pos [IsStrictOrderedRing K] [LawfulExp K] (weights : Fin D → Fin F → K)
    (x : Vec D K) (f : Feature F) : 0 < featureMap weights x f := by
  cases f with
  | inl f =>
      have : Nonempty (Fin F) := ⟨f⟩
      exact softmax_pos (hedgehog weights x) f
  | inr f =>
      have : Nonempty (Fin F) := ⟨f⟩
      exact softmax_pos (fun f => -hedgehog weights x f) f

/-- `exp(scores - amax)` of a row whose masked scores are `finfo.min`: a masked key
weighs nothing beside an unmasked one, and all weigh the same when every key is
masked. -/
def attentionWeights (valid : Finset (Fin S)) (scores : Fin S → K) (j : Fin S) : K :=
  if h : valid.Nonempty then
    if j ∈ valid then exp (scores j - valid.sup' h scores) else 0
  else
    exp 0

def mixStreams (eps w : K) (smNum : Vec D K) (smDen : K) (linNum : Vec D K) (linDen : K) :
    Vec D K :=
  fun d => (w * smNum d + linNum d) / max (w * max smDen eps + max linDen eps) eps

def blockOut (eps : K) (m : HybridParams D F K) (w : K) (valid : Finset (Fin S))
    (k v : Fin S → Vec D K) (q : Vec D K) (phiQ : Feature F → K)
    (state : RecurrentState D F K) : Vec D K :=
  let scores := fun j => (∑ d, q d * k j d) * m.scaling
  let a := attentionWeights valid scores
  mixStreams eps w (fun d => ∑ j, a j * v j d) (∑ j, a j)
    (fun d => ∑ f, phiQ f * state.S f d) (∑ f, phiQ f * state.Z f)

end Block

def numBlocks (length S : Nat) : Nat := (length + S - 1) / S

theorem div_lt_numBlocks [NeZero S] {p length : Nat} (hp : p < length) :
    p / S < numBlocks length S := by
  have hS : 0 < S := NeZero.pos S
  have hround : p + S ≤ length + S - 1 := by omega
  calc
    p / S < (p + S) / S := by
      rw [Nat.add_div_right p hS]
      exact Nat.lt_succ_self _
    _ ≤ (length + S - 1) / S := Nat.div_le_div_right hround

section Forward

variable [Field K] [LinearOrder K] [ExpOps K]

/-- `key_valid`: the key padding mask, or the padding of the last block. -/
def keyValid (S length : Nat) (keyPaddingMask : Option (List K)) : Option (Nat → K) :=
  match keyPaddingMask with
  | some mask => some (fun p => mask.getD p 0)
  | none =>
      if 0 < numBlocks length S * S - length then some (fun p => if p < length then 1 else 0)
      else none

/-- `F.pad` to a whole number of blocks, then the `view` as block `n`. -/
def blockTokens (S length : Nat) (x : Nat → Vec D K) (n : Nat) (s : Fin S) : Vec D K :=
  if n * S + s < length then x (n * S + s) else fun _ => 0

def validKeys (valid : Option (Nat → K)) (n : Nat) : Finset (Fin S) :=
  match valid with
  | none => Finset.univ
  | some mask => Finset.univ.filter (fun s => mask (n * S + s) ≠ 0)

def maskKeys {α : Type*} (valid : Option (Nat → K)) (n : Nat) (x : Fin S → α → K)
    (s : Fin S) (a : α) : K :=
  match valid with
  | none => x s a
  | some mask => x s a * mask (n * S + s)

variable (m : HybridParams D F K) (h : Nat) (tokens : HeadTokens D K)
  (valid : Option (Nat → K)) (initial : RecurrentState D F K)

def blockKeys (S n : Nat) : Fin S → Feature F → K :=
  maskKeys valid n (fun s => featureMap (m.hedgehogWeights (m.stateHead h))
    (blockTokens S tokens.length tokens.k n s))

def blockValues (S n : Nat) : Fin S → Vec D K :=
  maskKeys valid n (blockTokens S tokens.length tokens.v n)

def stateAfter (S : Nat) : Nat → RecurrentState D F K
  | 0 => initial
  | n + 1 =>
      (stateAfter S n).update (blockKeys m h tokens valid S n)
        (blockValues tokens valid S n)

/-- The output of position `s` of block `n`, from the state before the block. -/
def blockRow (eps : K) (n : Nat) (state : RecurrentState D F K) (s : Fin S) : Vec D K :=
  let q := blockTokens S tokens.length tokens.q n s
  blockOut eps m (sigmoid (m.alpha h)) (validKeys valid n)
    (blockTokens S tokens.length tokens.k n) (blockValues tokens valid S n) q
    (featureMap (m.hedgehogWeights (m.stateHead h)) q) state

def headOutWith [NeZero S] (eps : K) (p : Nat) : Vec D K :=
  blockRow m h tokens valid eps (p / S)
    (stateAfter m h tokens valid initial S (p / S)) (Fin.ofNat S p)

def headOut [NeZero S] (p : Nat) : Vec D K :=
  headOutWith (S := S) m h tokens valid initial eps p

/-- `forward(..., return_final_state=True)`, head by head, for a bound `eps`. -/
def forwardWith (eps : K) (S : Nat) [NeZero S] (tokens : Nat → HeadTokens D K)
    (keyPaddingMask : Option (List K)) (initial : Option (Nat → RecurrentState D F K)) :
    (Nat → Nat → Vec D K) × (Nat → RecurrentState D F K) :=
  let start := fun h => (initial.getD (fun _ => RecurrentState.zero)) h
  let valid := fun h => keyValid S (tokens h).length keyPaddingMask
  (fun h p => headOutWith (S := S) m h (tokens h) (valid h) (start h) eps p,
    fun h => stateAfter m h (tokens h) (valid h) (start h) S
      (numBlocks (tokens h).length S))

def forward (S : Nat) [NeZero S] (tokens : Nat → HeadTokens D K)
    (keyPaddingMask : Option (List K)) (initial : Option (Nat → RecurrentState D F K)) :
    (Nat → Nat → Vec D K) × (Nat → RecurrentState D F K) :=
  forwardWith m eps S tokens keyPaddingMask initial

end Forward

end LladaHybrid.Attention
