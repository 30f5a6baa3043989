import LladaHybrid.Decode.FinalTokens

namespace LladaHybrid.Decode

open LladaHybrid.Library

variable {σ : Type*} {R B V : Nat} {K : Type*}

/-! The runner state a decoder leaves behind is the one its final tokens wrote. -/

/-- The state is what a forward on `ids` leaves, from a state that satisfies `inv`. -/
def EndsOnForward (model : ModelRunner σ R B V K) (inv : σ → Prop)
    (ids : Fin R → Block B V) (runner : σ) : Prop :=
  ∃ before, inv before ∧ (model.forward before ids).2 = runner

/-- The runner together with the tokens of every forward it has executed. -/
def ModelRunner.logged (model : ModelRunner σ R B V K) :
    ModelRunner (σ × List (Fin R → Block B V)) R B V K where
  forward s ids :=
    ((model.forward s.1 ids).1, (model.forward s.1 ids).2, s.2 ++ [ids])

theorem EndsOnForward.getLast?_logged {model : ModelRunner σ R B V K}
    {inv : σ × List (Fin R → Block B V) → Prop} {ids : Fin R → Block B V}
    {runner : σ × List (Fin R → Block B V)}
    (hends : EndsOnForward model.logged inv ids runner) :
    runner.2.getLast? = some ids ∧
      ∃ before, (model.forward before ids).2 = runner.1 := by
  obtain ⟨before, -, hforward⟩ := hends
  rw [← hforward]
  exact ⟨List.getLast?_concat, before.1, rfl⟩

namespace JointThreshold

variable {model : ModelRunner σ R B V K} {inv : σ → Prop}

/-- Whenever the last pass changed nothing, it forwarded the current tokens. -/
structure Settled (model : ModelRunner σ R B V K) (inv : σ → Prop)
    (s : LoopState σ R B V K) : Prop where
  runner_inv : inv s.runner
  ends : s.logitsOutput.isSome → s.anyChangedInLastStep = false →
    EndsOnForward model inv s.inputIds s.runner

theorem Settled.finish (alg : JointThreshold V K) {ids : Fin R → Block B V}
    {s : LoopState σ R B V K} (hs : Settled model inv s)
    {res : RunResult σ R B V K} (hres : alg.finish model ids s = some res) :
    EndsOnForward model inv res.inputIds res.runner := by
  rw [JointThreshold.finish] at hres
  split_ifs at hres with hchanged
  · obtain rfl := Option.some.inj hres
    exact ⟨s.runner, hs.runner_inv, rfl⟩
  · obtain ⟨out, hout, rfl⟩ := Option.map_eq_some_iff.mp hres
    exact hs.ends (by simp [hout]) (by simpa using hchanged)

variable [Field K] [LinearOrder K] [ExpOps K] [TopK K] [NeZero V]

theorem rowStep_inputIds_of_unchanged (alg : JointThreshold V K)
    (logits : Logits B V K) (row : RowState B V)
    (hsame : (alg.rowStep logits row).2 = false) :
    (alg.rowStep logits row).1.inputIds = row.inputIds := by
  rcases alg.rowStep_cases logits row with ⟨-, hstep⟩ | ⟨-, -, hstep⟩
  · rw [hstep]
  · rw [hstep] at hsame
    exact Bool.noConfusion hsame

theorem iterate_inputIds_of_unchanged (alg : JointThreshold V K)
    (model : ModelRunner σ R B V K) (s : LoopState σ R B V K)
    (hsame : (alg.iterate model s).anyChangedInLastStep = false) :
    (alg.iterate model s).inputIds = s.inputIds := by
  funext i
  simp only [iterate, decide_eq_false_iff_not, not_exists, not_and,
    Bool.not_eq_true] at hsame
  rw [LoopState.inputIds, LoopState.inputIds]
  cases hfinished : (s.rows i).finished with
  | true => rw [alg.iterate_rows_of_finished model hfinished]
  | false =>
      have hrow := hsame i hfinished
      rw [hfinished, if_neg Bool.false_ne_true] at hrow
      rw [alg.iterate_rows_of_running model hfinished]
      exact alg.rowStep_inputIds_of_unchanged _ _ hrow

theorem Settled.iterate (alg : JointThreshold V K)
    (hforward : ∀ s ids, inv s → inv (model.forward s ids).2)
    {s : LoopState σ R B V K} (hs : Settled model inv s) :
    Settled model inv (alg.iterate model s) where
  runner_inv := hforward _ _ hs.runner_inv
  ends _ hsame := by
    rw [alg.iterate_inputIds_of_unchanged model s hsame]
    exact ⟨s.runner, hs.runner_inv, rfl⟩

theorem Settled.denoise (alg : JointThreshold V K)
    (hforward : ∀ s ids, inv s → inv (model.forward s ids).2)
    {runner : σ} (hrunner : inv runner) (ids : Fin R → Block B V) :
    Settled model inv (alg.denoise model runner ids) := by
  have hinitial : Settled model inv (alg.initial runner ids) :=
    ⟨hrunner, fun hout => by simp [initial] at hout⟩
  exact boundedLoop_invariant (Settled model inv)
    (fun s hs _ => hs.iterate alg hforward) _ hinitial

theorem run_endsOnForward (alg : JointThreshold V K)
    (hforward : ∀ s ids, inv s → inv (model.forward s ids).2)
    {runner : σ} (hrunner : inv runner) {ids : Fin R → Block B V}
    {res : RunResult σ R B V K} (hres : alg.run model runner ids = some res) :
    EndsOnForward model inv res.inputIds res.runner := by
  rw [run] at hres
  split_ifs at hres with hnone
  · obtain rfl := Option.some.inj hres
    exact ⟨runner, hrunner, rfl⟩
  · exact (Settled.denoise alg hforward hrunner ids).finish alg hres

end JointThreshold

variable [Field K] [LinearOrder K] [ExpOps K] [TopK K] [NeZero V]

namespace LowConfidence

variable {model : ModelRunner σ R B V K} {inv : σ → Prop}

theorem denoise_runner (alg : LowConfidence V K)
    (hforward : ∀ s ids, inv s → inv (model.forward s ids).2)
    {runner : σ} (hrunner : inv runner) (ids : Fin R → Block B V) :
    inv (alg.denoise model runner ids).runner :=
  boundedLoop_invariant (fun s : LoopState σ R B V => inv s.runner)
    (fun _ hs _ => hforward _ _ hs) _ hrunner

theorem run_endsOnForward (alg : LowConfidence V K)
    (hforward : ∀ s ids, inv s → inv (model.forward s ids).2)
    {runner : σ} (hrunner : inv runner) (ids : Fin R → Block B V) :
    EndsOnForward model inv (alg.run model runner ids).inputIds
      (alg.run model runner ids).runner := by
  rw [run]
  split_ifs with hnone
  · exact ⟨runner, hrunner, rfl⟩
  · exact ⟨_, alg.denoise_runner hforward hrunner ids, rfl⟩

end LowConfidence

/-- The last forward either decoder executes is on the tokens it returns with, and
the runner state is the one that forward wrote. -/
theorem run_lastForward_eq_inputIds (model : ModelRunner σ R B V K) (runner : σ)
    (ids : Fin R → Block B V) :
    (∀ alg : JointThreshold V K,
      ((alg.run model.logged (runner, []) ids).isSome ↔
        (∀ i, maskIndex alg.maskId (ids i) = ∅) ∨ 0 < B + alg.maxPostEditSteps) ∧
      ∀ res, alg.run model.logged (runner, []) ids = some res →
        res.runner.2.getLast? = some res.inputIds ∧
          ∃ before, (model.forward before res.inputIds).2 = res.runner.1) ∧
    ∀ alg : LowConfidence V K,
      let res := alg.run model.logged (runner, []) ids
      res.runner.2.getLast? = some res.inputIds ∧
        ∃ before, (model.forward before res.inputIds).2 = res.runner.1 := by
  have hforward : ∀ s ids, True → (fun _ => True) (model.logged.forward s ids).2 :=
    fun _ _ => id
  refine ⟨fun alg => ⟨alg.run_isSome_iff model.logged (runner, []) ids, ?_⟩, ?_⟩
  · intro res hres
    exact (alg.run_endsOnForward hforward trivial hres).getLast?_logged
  · intro alg
    exact (alg.run_endsOnForward hforward trivial ids).getLast?_logged

theorem run_lastForward_eq_inputIds_single :
    let model : ModelRunner Unit 1 1 2 ℝ :=
      { forward := fun _ _ => (⟨fun _ _ _ => 0, false⟩, ()) }
    let alg : JointThreshold 2 ℝ := JointThreshold.ofConfig 1 ⟨none, none, none, none⟩
    ∃ res, alg.run model.logged ((), []) (fun _ _ => 1) = some res ∧
      res.runner.2.getLast? = some res.inputIds := by
  intro model alg
  have hrun := (run_lastForward_eq_inputIds model () (fun _ _ => 1)).1 alg
  have hbound : (0 : Int) < (1 : Nat) + alg.maxPostEditSteps := by decide
  obtain ⟨res, hres⟩ := Option.isSome_iff_exists.mp (hrun.1.mpr (Or.inr hbound))
  exact ⟨res, hres, (hrun.2 res hres).1⟩

end LladaHybrid.Decode
