import LladaHybrid.Generate.RowIndependence

namespace LladaHybrid.Generate

open LladaHybrid.Library LladaHybrid.Decode

/-! Two backends that read the same logits behind the blocks committed so far generate
the same tokens. -/

variable {σ τ : Type*} {N P B V : Nat} {K : Type*}

/-- The two batches agree on the first `n` blocks of every row. -/
def SameCommitted (n : Nat) (x y : Fin N → Tokens B V) : Prop :=
  ∀ r, ∀ m < n, x r m = y r m

/-- `holds n x s t`: both states stand for the first `n` blocks of `x`. -/
structure Agree (left : Backend σ N B V K) (right : Backend τ N B V K)
    (holds : Nat → (Fin N → Tokens B V) → σ → τ → Prop) : Prop where
  init : ∀ x, holds 0 x left.init right.init
  congr : ∀ {n x y s t}, holds n x s t → SameCommitted n x y → holds n y s t
  read : ∀ {n x s t}, holds n x s t →
    left.read s n (fun r => window (x r) n) = right.read t n (fun r => window (x r) n)
  commit : ∀ {n x s t}, holds n x s t →
    holds (n + 1) x (left.commit s n (fun r => x r n)) (right.commit t n (fun r => x r n))

variable {left : Backend σ N B V K} {right : Backend τ N B V K}
  {holds : Nat → (Fin N → Tokens B V) → σ → τ → Prop}

structure InStep (holds : Nat → (Fin N → Tokens B V) → σ → τ → Prop)
    (s : GenerateState σ N B V) (t : GenerateState τ N B V) : Prop where
  x : s.x = t.x
  numBlock : s.numBlock = t.numBlock
  stopped : s.stopped = t.stopped
  cache : holds s.numBlock s.x s.prefixCache t.prefixCache

theorem Agree.prefill (agree : Agree left right holds) (x : Fin N → Tokens B V) (b : Nat) :
    holds b x (left.prefill x b) (right.prefill x b) := by
  induction b with
  | zero => exact agree.init x
  | succ b ih => exact agree.commit ih

section Denoise

variable [Field K] [LinearOrder K] [ExpOps K] [TopK K] [NeZero B] [NeZero V]
  {args : GenerateArgs V K} {promptLength n : Nat}

theorem denoiseStep_congr {read read' : ReadWindow N B V n K} {s : DenoiseState N B V}
    (hread : read (fun r => window (s.x r) n) = read' (fun r => window (s.x r) n)) :
    denoiseStep args promptLength n read s = denoiseStep args promptLength n read' s := by
  simp only [denoiseStep, hread]

theorem denoiseBlock_congr {read read' : ReadWindow N B V n K} {x : Fin N → Tokens B V}
    (hread : ∀ y, SameCommitted n x y →
      read (fun r => window (y r) n) = read' (fun r => window (y r) n)) :
    denoiseBlock args promptLength n read x = denoiseBlock args promptLength n read' x := by
  have hrel : denoiseBlock args promptLength n read x =
        denoiseBlock args promptLength n read' x ∧
      SameCommitted n x (denoiseBlock args promptLength n read x).x := by
    refine boundedLoop_related (fun s t : DenoiseState N B V => s = t ∧ SameCommitted n x s.x)
      ?_ ?_ ?_ _
      ⟨rfl, fun _ _ _ => rfl⟩
    · rintro s t ⟨rfl, -⟩ hs
      exact hs
    · rintro s t ⟨rfl, hsame⟩ _ _
      refine ⟨denoiseStep_congr (hread s.x hsame), fun r m hm => ?_⟩
      rw [denoiseStep_of_ne read s r hm.ne]
      exact hsame r m hm
    · rintro s t ⟨rfl, -⟩ hs ht
      rw [hs] at ht
      exact Bool.noConfusion ht
  exact hrel.1

theorem Agree.generateBlock (agree : Agree left right holds)
    {s : GenerateState σ N B V} {t : GenerateState τ N B V} (hstep : InStep holds s t) :
    InStep holds (generateBlock args left promptLength s)
      (generateBlock args right promptLength t) := by
  obtain ⟨x, cache, n, stopped⟩ := s
  obtain ⟨x', cache', n', stopped'⟩ := t
  obtain ⟨hx, hn, -, hcache⟩ := hstep
  dsimp only at hx hn hcache
  subst hx hn
  have hblock : denoiseBlock args promptLength n (left.read cache n) x =
      denoiseBlock args promptLength n (right.read cache' n) x := by
    apply denoiseBlock_congr
    intro y hsame
    exact agree.read (agree.congr hcache hsame)
  have hcommitted : SameCommitted n x
      (denoiseBlock args promptLength n (left.read cache n) x).x := by
    intro r m hm
    exact (denoiseBlock_of_ne _ _ r hm.ne).symm
  have hcommit := agree.commit (agree.congr hcache hcommitted)
  constructor
  · simp only [Generate.generateBlock, hblock]
  · rfl
  · simp only [Generate.generateBlock, hblock]
  · simp only [Generate.generateBlock, ← hblock]
    exact hcommit

theorem Agree.generateWith (agree : Agree left right holds) (prompt : Fin N → Fin P → Fin V) :
    generateWith args left prompt = generateWith args right prompt := by
  have hinit : InStep holds (initialState args left prompt) (initialState args right prompt) :=
    ⟨rfl, rfl, rfl, agree.prefill _ _⟩
  have hend : InStep holds (generateTokens args left prompt)
      (generateTokens args right prompt) := by
    refine boundedLoop_related (InStep holds) ?_ ?_ ?_ _ hinit
    · intro s t hstep hs
      rw [← hstep.stopped, hs]
    · intro s t hstep _ _
      exact agree.generateBlock hstep
    · intro s t hstep hs ht
      rw [hstep.stopped, ht] at hs
      exact Bool.noConfusion hs
  funext r
  rw [Generate.generateWith, Generate.generateWith, hend.x]

end Denoise

end LladaHybrid.Generate
