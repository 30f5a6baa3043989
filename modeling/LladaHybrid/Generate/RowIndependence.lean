import LladaHybrid.Generate.Loop

namespace LladaHybrid.Generate

open LladaHybrid.Library LladaHybrid.Decode

/-! When a row of a batched generation is the generation of that row alone. -/

variable {σ τ ρ : Type*} {N P B V : Nat} {K : Type*}

structure RowBackend (ρ : Type*) (B V : Nat) (K : Type*) where
  init : ρ
  read : ρ → (numBlock : Nat) → (Fin (numBlock + 1) → Block B V) → Logits B V K
  commit : ρ → (numBlock : Nat) → Block B V → ρ

/-- The logits and the cache of a row depend only on that row. -/
structure RowIndependent (row : RowBackend ρ B V K) (backend : Backend σ N B V K)
    (view : σ → Fin N → ρ) : Prop where
  init : ∀ r, view backend.init r = row.init
  read : ∀ s n w r, backend.read s n w r = row.read (view s r) n (w r)
  commit : ∀ s n block r,
    view (backend.commit s n block) r = row.commit (view s r) n (block r)

theorem RowIndependent.prefill {row : RowBackend ρ B V K}
    {backend : Backend σ N B V K} {view : σ → Fin N → ρ}
    {single : Backend τ 1 B V K} {viewAlone : τ → Fin 1 → ρ}
    (hbatch : RowIndependent row backend view)
    (hsingle : RowIndependent row single viewAlone)
    (x : Fin N → Tokens B V) (r : Fin N) (b : Nat) :
    view (backend.prefill x b) r = viewAlone (single.prefill (fun _ => x r) b) 0 := by
  induction b with
  | zero => rw [Backend.prefill, Backend.prefill, hbatch.init, hsingle.init]
  | succ b ih => rw [Backend.prefill, Backend.prefill, hbatch.commit, hsingle.commit, ih]

/-- One row of a prefix cache: the forwards on a single block. -/
structure RowCache (ρ : Type*) (B V : Nat) (K : Type*) where
  init : ρ
  read : ρ → (numBlock : Nat) → Block B V → Logits B V K
  commit : ρ → (numBlock : Nat) → Block B V → ρ

def RowCache.backend (cache : RowCache ρ B V K) : RowBackend ρ B V K where
  init := cache.init
  read c numBlock x := cache.read c numBlock (x (Fin.last numBlock))
  commit := cache.commit

variable {Cache : Nat → Type*}

structure LanguageModel.Rowwise (model : LanguageModel Cache B V K)
    (rowForward : (numBlock : Nat) → (Fin (numBlock + 1) → Block B V) → Logits B V K)
    (rowCache : RowCache ρ B V K) (view : (N : Nat) → Cache N → Fin N → ρ) : Prop where
  forward : ∀ (N numBlock : Nat) (x : Fin N → Fin (numBlock + 1) → Block B V) r,
    model.forward numBlock x r = rowForward numBlock (x r)
  cached : ∀ N, RowIndependent rowCache.backend (model.cached N) (view N)

theorem LanguageModel.Rowwise.uncached {model : LanguageModel Cache B V K}
    {rowForward : (numBlock : Nat) → (Fin (numBlock + 1) → Block B V) → Logits B V K}
    {rowCache : RowCache ρ B V K} {view : (N : Nat) → Cache N → Fin N → ρ}
    (hmodel : model.Rowwise rowForward rowCache view) (N : Nat) :
    RowIndependent ⟨(), fun _ => rowForward, fun _ _ _ => ()⟩ (model.uncached N)
      (fun _ _ => ()) :=
  ⟨fun _ => rfl, fun _ n x r => hmodel.forward N n x r, fun _ _ _ _ => rfl⟩

/-- The model that runs the forwards of a row on every row of a batch. -/
def LanguageModel.rowwise
    (rowForward : (numBlock : Nat) → (Fin (numBlock + 1) → Block B V) → Logits B V K)
    (rowCache : RowCache ρ B V K) : LanguageModel (fun N => Fin N → ρ) B V K where
  forward numBlock x r := rowForward numBlock (x r)
  initPrefixCache _ _ := rowCache.init
  forwardRead cache numBlock block r := rowCache.read (cache r) numBlock (block r)
  forwardCommit cache numBlock block r := rowCache.commit (cache r) numBlock (block r)

theorem LanguageModel.rowwise_isRowwise
    (rowForward : (numBlock : Nat) → (Fin (numBlock + 1) → Block B V) → Logits B V K)
    (rowCache : RowCache ρ B V K) :
    (LanguageModel.rowwise rowForward rowCache).Rowwise rowForward rowCache (fun _ => id) :=
  ⟨fun _ _ _ _ => rfl, fun _ => ⟨fun _ => rfl, fun _ _ _ _ => rfl, fun _ _ _ _ => rfl⟩⟩

theorem anyMask_of_row {args : GenerateArgs V K} {n : Nat} {s : DenoiseState N B V}
    {t : DenoiseState 1 B V} {r : Fin N} (hrow : s.x r = t.x 0)
    (hmask : t.anyMask args n) : s.anyMask args n := by
  obtain ⟨k, hk⟩ := hmask
  rw [Fin.fin_one_eq_zero k, ← hrow] at hk
  exact ⟨r, hk⟩

theorem not_anyMask_alone {args : GenerateArgs V K} {n : Nat}
    {t : DenoiseState 1 B V} (hnone : ¬ t.anyMask args n) :
    maskIndex args.maskId (t.x 0 n) = ∅ :=
  Finset.not_nonempty_iff_eq_empty.mp (fun hmask => hnone ⟨0, hmask⟩)

section Watched

variable [Field K] [LinearOrder K] [ExpOps K] [NeZero B] [NeZero V]
  {args : GenerateArgs V K} {promptLength n : Nat}

/-! A batch stops a block by one counter for all of its rows. Beside its state we
count for each row the steps it began without a mask, which is the counter the row
has alone. -/

structure Watched (N B V : Nat) where
  state : DenoiseState N B V
  rowPostSteps : Fin N → Nat

def Watched.nextRowPostSteps (args : GenerateArgs V K) (n : Nat) (w : Watched N B V)
    (r : Fin N) : Nat :=
  if (maskIndex args.maskId (w.state.x r n)).Nonempty then w.rowPostSteps r
  else w.rowPostSteps r + 1

def rowEdits (args : GenerateArgs V K) (promptLength n : Nat)
    (rowRead : (Fin (n + 1) → Block B V) → Logits B V K) (x : Tokens B V) :
    Finset (Fin B) :=
  editingTransferIndex args promptLength n
    (rowPrediction args n (rowRead (window x n)) x) (x n)

/-- No row that has used up its own post-edit steps still has a confident edit when
the batch takes a further step. -/
def EditsWithinBudget (args : GenerateArgs V K) (promptLength n : Nat)
    (read : ReadWindow N B V n K) (w : Watched N B V) : Prop :=
  w.state.nextPostSteps args n ≤ args.maxPostSteps → ∀ r,
    maskIndex args.maskId (w.state.x r n) = ∅ →
    args.maxPostSteps < w.nextRowPostSteps args n r →
    editingTransferIndex args promptLength n
      (rowPrediction args n (read (fun r => window (w.state.x r) n) r) (w.state.x r))
      (w.state.x r n) = ∅

/-- One row of a batch beside the same row alone, within a block. -/
structure FollowsAlone (args : GenerateArgs V K) (promptLength n : Nat)
    (rowRead : (Fin (n + 1) → Block B V) → Logits B V K) (r : Fin N)
    (w : Watched N B V) (t : DenoiseState 1 B V) : Prop where
  tokens : w.state.x r = t.x 0
  stops : w.state.stopped = true → t.stopped = true
  postSteps : t.stopped = false →
    w.rowPostSteps r = t.postSteps ∧ w.state.postSteps ≤ t.postSteps ∧
      (t.postSteps = 0 ∨ (t.postSteps : Int) ≤ args.maxPostSteps)
  quiet : t.stopped = true → w.state.stopped = false →
    maskIndex args.maskId (t.x 0 n) = ∅ ∧
      rowEdits args promptLength n rowRead (t.x 0) = ∅

theorem FollowsAlone.nextPostSteps
    {rowRead : (Fin (n + 1) → Block B V) → Logits B V K} {r : Fin N}
    {w : Watched N B V} {t : DenoiseState 1 B V}
    (hrel : FollowsAlone args promptLength n rowRead r w t)
    (hrunning : t.stopped = false) :
    w.nextRowPostSteps args n r = t.nextPostSteps args n ∧
      w.state.nextPostSteps args n ≤ t.nextPostSteps args n := by
  obtain ⟨hrow, hle, -⟩ := hrel.postSteps hrunning
  by_cases hmask : t.anyMask args n
  · have hbatch := anyMask_of_row hrel.tokens hmask
    obtain ⟨k, hk⟩ := id hmask
    rw [Fin.fin_one_eq_zero k, ← hrel.tokens] at hk
    rw [Watched.nextRowPostSteps, if_pos hk, DenoiseState.nextPostSteps_of_mask hbatch,
      DenoiseState.nextPostSteps_of_mask hmask]
    exact ⟨hrow, hle⟩
  · have hempty := not_anyMask_alone hmask
    rw [Watched.nextRowPostSteps, hrel.tokens, hempty, if_neg Finset.not_nonempty_empty,
      DenoiseState.nextPostSteps_of_no_mask hmask, hrow]
    refine ⟨rfl, ?_⟩
    rw [DenoiseState.nextPostSteps]
    split_ifs <;> omega

end Watched

section Denoise

variable [LinearOrder K] [TopK K] {args : GenerateArgs V K} {promptLength n : Nat}

theorem rowUpdate_of_ne (pred : Prediction B V K) (x : Tokens B V) {m : Nat}
    (hne : m ≠ n) : rowUpdate args promptLength n pred x m = x m :=
  Function.update_of_ne hne _ x

theorem rowUpdate_of_quiet {pred : Prediction B V K} {x : Tokens B V}
    (hmasks : maskIndex args.maskId (x n) = ∅)
    (hedits : editingTransferIndex args promptLength n pred (x n) = ∅) :
    rowUpdate args promptLength n pred x = x := by
  rw [rowUpdate, hedits, hmasks, maskTransferIndex, if_pos rfl, Finset.union_empty,
    transferTokens_empty, Function.update_eq_self]

variable [Field K] [ExpOps K] [NeZero B] [NeZero V]

theorem denoiseStep_of_ne (read : ReadWindow N B V n K) (s : DenoiseState N B V) (r : Fin N)
    {m : Nat} (hne : m ≠ n) :
    (denoiseStep args promptLength n read s).x r m = s.x r m := by
  by_cases hexhausted : args.maxPostSteps < s.nextPostSteps args n
  · rw [denoiseStep_of_exhausted hexhausted]
  · rw [denoiseStep_of_within hexhausted (fun _ => rfl)]
    exact rowUpdate_of_ne _ _ hne

theorem denoiseBlock_of_ne (read : ReadWindow N B V n K) (x : Fin N → Tokens B V)
    (r : Fin N) {m : Nat} (hne : m ≠ n) :
    (denoiseBlock args promptLength n read x).x r m = x r m := by
  refine boundedLoop_invariant (fun s : DenoiseState N B V => s.x r m = x r m) ?_ _ rfl
  intro s hs _
  rw [denoiseStep_of_ne read s r hne, hs]

def watchStep (args : GenerateArgs V K) (promptLength n : Nat)
    (read : ReadWindow N B V n K) (w : Watched N B V) : Watched N B V where
  state := denoiseStep args promptLength n read w.state
  rowPostSteps := w.nextRowPostSteps args n

variable {rowRead : (Fin (n + 1) → Block B V) → Logits B V K}
  {read : ReadWindow N B V n K} {readAlone : ReadWindow 1 B V n K}
  {r : Fin N} {w : Watched N B V} {t : DenoiseState 1 B V}

theorem FollowsAlone.idle (hread : ∀ x, read x r = rowRead (x r))
    (hrel : FollowsAlone args promptLength n rowRead r w t)
    (hrunning : w.state.stopped = false) (hstopped : t.stopped = true) :
    FollowsAlone args promptLength n rowRead r (watchStep args promptLength n read w) t := by
  obtain ⟨hmasks, hedits⟩ := hrel.quiet hstopped hrunning
  have hsame : (watchStep args promptLength n read w).state.x r = t.x 0 := by
    rw [watchStep]
    by_cases hexhausted : args.maxPostSteps < w.state.nextPostSteps args n
    · rw [denoiseStep_of_exhausted hexhausted]
      exact hrel.tokens
    · rw [denoiseStep_of_within hexhausted (fun _ => rfl)]
      simp only [hread, hrel.tokens]
      exact rowUpdate_of_quiet hmasks hedits
  refine ⟨hsame, fun _ => hstopped, fun hfalse => ?_, fun _ _ => ⟨hmasks, hedits⟩⟩
  rw [hstopped] at hfalse
  exact Bool.noConfusion hfalse

/-- The row alone stops for good: either the batch stops too, or the row has nothing
left that a further step of the batch could edit. -/
theorem FollowsAlone.step_of_exhausted (hread : ∀ x, read x r = rowRead (x r))
    (hrel : FollowsAlone args promptLength n rowRead r w t)
    (hbudget : EditsWithinBudget args promptLength n read w)
    (hrunning : t.stopped = false)
    (hexhausted : args.maxPostSteps < t.nextPostSteps args n) :
    FollowsAlone args promptLength n rowRead r (watchStep args promptLength n read w)
      (denoiseStep args promptLength n readAlone t) := by
  obtain ⟨hrow, hle⟩ := hrel.nextPostSteps hrunning
  rw [denoiseStep_of_exhausted hexhausted, watchStep]
  by_cases hbatch : args.maxPostSteps < w.state.nextPostSteps args n
  · rw [denoiseStep_of_exhausted hbatch]
    exact ⟨hrel.tokens, fun _ => rfl, fun hfalse => Bool.noConfusion hfalse,
      fun _ hfalse => Bool.noConfusion hfalse⟩
  · have hnone : ¬ t.anyMask args n := by
      intro hmask
      have hstart := (hrel.postSteps hrunning).2.2
      rw [DenoiseState.nextPostSteps_of_mask hmask] at hexhausted
      omega
    have hmasks := not_anyMask_alone hnone
    have hedits := hbudget (not_lt.mp hbatch) r (by rw [hrel.tokens, hmasks])
      (by rw [hrow]; exact hexhausted)
    rw [hread, hrel.tokens] at hedits
    rw [denoiseStep_of_within hbatch (fun _ => rfl)]
    refine ⟨?_, fun _ => rfl, fun hfalse => Bool.noConfusion hfalse,
      fun _ _ => ⟨hmasks, hedits⟩⟩
    simp only [hread, hrel.tokens]
    exact rowUpdate_of_quiet hmasks hedits

theorem FollowsAlone.step_of_within (hread : ∀ x, read x r = rowRead (x r))
    (hreadAlone : ∀ x, readAlone x 0 = rowRead (x 0))
    (hrel : FollowsAlone args promptLength n rowRead r w t)
    (hrunning : t.stopped = false)
    (hwithin : ¬ args.maxPostSteps < t.nextPostSteps args n) :
    FollowsAlone args promptLength n rowRead r (watchStep args promptLength n read w)
      (denoiseStep args promptLength n readAlone t) := by
  obtain ⟨hrow, hle⟩ := hrel.nextPostSteps hrunning
  have hbatch : ¬ args.maxPostSteps < w.state.nextPostSteps args n := by omega
  have hedits : editingTransferIndex args promptLength n (rowPrediction args n
      (read (fun r => window (w.state.x r) n) r) (w.state.x r)) (w.state.x r n) =
      rowEdits args promptLength n rowRead (t.x 0) := by
    rw [hread, hrel.tokens, rowEdits]
  have hpredAlone : ∀ i : Fin 1, rowPrediction args n
      (readAlone (fun i => window (t.x i) n) i) (t.x i) =
      rowPrediction args n (rowRead (window (t.x 0) n)) (t.x 0) := by
    intro i
    rw [Fin.fin_one_eq_zero i, hreadAlone]
  rw [watchStep, denoiseStep_of_within hbatch (fun _ => rfl),
    denoiseStep_of_within hwithin hpredAlone]
  refine ⟨?_, ?_, fun _ => ⟨hrow, hle, Or.inr (not_lt.mp hwithin)⟩, ?_⟩
  · simp only [hread, hrel.tokens]
  · intro hstop
    rw [decide_eq_true_eq] at hstop ⊢
    refine ⟨fun hmask => hstop.1 (anyMask_of_row hrel.tokens hmask), fun i => ?_⟩
    rw [Fin.fin_one_eq_zero i]
    exact hedits.symm.trans (hstop.2 r)
  · intro hstop _
    obtain ⟨hnone, hall⟩ := of_decide_eq_true hstop
    have hmasks := not_anyMask_alone hnone
    simp only [rowUpdate_of_quiet hmasks (hall 0)]
    exact ⟨hmasks, hall 0⟩

theorem denoiseBlock_row_eq_alone (hread : ∀ x, read x r = rowRead (x r))
    (hreadAlone : ∀ x, readAlone x 0 = rowRead (x 0)) (x : Fin N → Tokens B V)
    (hbudget : Throughout (fun w : Watched N B V => w.state.stopped)
      (watchStep args promptLength n read) (EditsWithinBudget args promptLength n read)
      args.effectiveSteps ⟨⟨x, 0, false⟩, fun _ => 0⟩) :
    (denoiseBlock args promptLength n read x).x r =
      (denoiseBlock args promptLength n readAlone (fun _ => x r)).x 0 := by
  have hinit : FollowsAlone args promptLength n rowRead r ⟨⟨x, 0, false⟩, fun _ => 0⟩
      ⟨fun _ => x r, 0, false⟩ :=
    ⟨rfl, fun hfalse => Bool.noConfusion hfalse, fun _ => ⟨rfl, le_rfl, Or.inl rfl⟩,
      fun hfalse => Bool.noConfusion hfalse⟩
  obtain ⟨-, hend⟩ : ∃ _ : Nat, FollowsAlone args promptLength n rowRead r
      (boundedLoop (fun w : Watched N B V => w.state.stopped)
        (watchStep args promptLength n read) args.effectiveSteps
        ⟨⟨x, 0, false⟩, fun _ => 0⟩)
      (denoiseBlock args promptLength n readAlone (fun _ => x r)) := by
    refine boundedLoop_related_throughout (EditsWithinBudget args promptLength n read)
      (fun _ => FollowsAlone args promptLength n rowRead r) ?_ ?_ ?_ hbudget hinit
    · intro _ w t hrel
      exact hrel.stops
    · intro _ w t hrel hstep _ hrunning
      by_cases hexhausted : args.maxPostSteps < t.nextPostSteps args n
      · exact hrel.step_of_exhausted hread hstep hrunning hexhausted
      · exact hrel.step_of_within hread hreadAlone hrunning hexhausted
    · intro _ w t hrel _ hrunning hstopped
      exact hrel.idle hread hrunning hstopped
  have hstate : (boundedLoop (fun w : Watched N B V => w.state.stopped)
      (watchStep args promptLength n read) args.effectiveSteps
      ⟨⟨x, 0, false⟩, fun _ => 0⟩).state = denoiseBlock args promptLength n read x :=
    boundedLoop_map Watched.state (fun _ => rfl) (fun _ => rfl) _ _
  rw [← hstate]
  exact hend.tokens

end Denoise

end LladaHybrid.Generate
