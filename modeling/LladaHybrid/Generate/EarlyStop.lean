import LladaHybrid.Generate.Batching

namespace LladaHybrid.Generate

open LladaHybrid.Library LladaHybrid.Decode

/-! With `eos_early_stop` the answer is the answer without it, where the tokens after the
first EOS are EOS. -/

variable {σ : Type*} {P B V : Nat} {K : Type*}

def fillAfterEos (eosId : Fin V) : List (Fin V) → List (Fin V)
  | [] => []
  | token :: rest =>
      if token = eosId then token :: List.replicate rest.length eosId
      else token :: fillAfterEos eosId rest

theorem fillAfterEos_of_notMem {eosId : Fin V} {gen : List (Fin V)} (hnone : eosId ∉ gen) :
    fillAfterEos eosId gen = gen := by
  induction gen with
  | nil => rfl
  | cons token rest ih =>
      rw [List.mem_cons, not_or] at hnone
      rw [fillAfterEos, if_neg (Ne.symm hnone.1), ih hnone.2]

theorem fillAfterEos_of_mem {eosId : Fin V} {gen : List (Fin V)} (heos : eosId ∈ gen) :
    fillAfterEos eosId gen = gen.take (gen.idxOf eosId + 1) ++
      List.replicate (gen.length - (gen.idxOf eosId + 1)) eosId := by
  induction gen with
  | nil => cases heos
  | cons token rest ih =>
      rw [fillAfterEos]
      split_ifs with htoken
      · subst htoken
        simp
      · rw [List.mem_cons, or_iff_right (Ne.symm htoken)] at heos
        rw [ih heos, List.idxOf_cons_ne rest htoken]
        simp

theorem trimmed_with_early (args : GenerateArgs V K) (gen : List (Fin V))
    (hlength : gen.length = args.genLength) :
    trimmed { args with eosEarlyStop := true } gen =
      args.eosId.elim id fillAfterEos gen := by
  cases hid : args.eosId with
  | none => simp only [trimmed, Option.elim_none, id]
  | some eosId =>
      simp only [trimmed, true_and, Option.elim_some]
      split_ifs with heos hcut
      · exact (fillAfterEos_of_mem heos).symm
      · have hlt := List.idxOf_lt_length_of_mem heos
        rw [fillAfterEos_of_mem heos, List.take_of_length_le (by omega),
          Nat.sub_eq_zero_of_le (by omega), List.replicate_zero, List.append_nil]
      · exact (fillAfterEos_of_notMem heos).symm

theorem trimmed_without_early (args : GenerateArgs V K) (gen : List (Fin V)) :
    trimmed { args with eosEarlyStop := false } gen = gen := by
  unfold trimmed
  split
  · rfl
  · simp

/-- The generation without the stop beside the one with it, which may have ended on an
EOS that both have. -/
structure Trims [NeZero B] (eosId : Option (Fin V)) (promptLength : Nat)
    (s t : GenerateState σ 1 B V) : Prop where
  running : s.stopped = false
  same : t.stopped = false → s = t
  ended : t.stopped = true →
    t.numBlock ≤ s.numBlock ∧ (∀ m < t.numBlock, s.x 0 m = t.x 0 m) ∧
      ∃ eos, eosId = some eos ∧ eos ∈ slice (t.x 0) promptLength (t.numBlock * B)

theorem eosReached_without_early [NeZero B] (args : GenerateArgs V K)
    (promptLength windowEnd : Nat) (x : Fin 1 → Tokens B V) :
    eosReached { args with eosEarlyStop := false } promptLength windowEnd x = false := by
  rw [Bool.eq_false_iff]
  intro hreached
  exact Bool.noConfusion (eosReached_iff.mp hreached).1

section Run

variable [Field K] [LinearOrder K] [ExpOps K] [TopK K] [NeZero B] [NeZero V]
  {args : GenerateArgs V K} {backend : Backend σ 1 B V K} {s t : GenerateState σ 1 B V}

theorem generateBlock_with_early (stop : Bool) (promptLength : Nat) :
    generateBlock { args with eosEarlyStop := stop } backend promptLength s =
      { generateBlock args backend promptLength s with
        stopped := eosReached { args with eosEarlyStop := stop } promptLength
          ((s.numBlock + 1) * B) (generateBlock args backend promptLength s).x } := rfl

theorem Trims.step (trims : Trims args.eosId P s t) (hrunning : t.stopped = false) :
    Trims args.eosId P (generateBlock { args with eosEarlyStop := false } backend P s)
      (generateBlock { args with eosEarlyStop := true } backend P t) := by
  obtain rfl := trims.same hrunning
  rw [generateBlock_with_early false, generateBlock_with_early true,
    eosReached_without_early]
  refine ⟨rfl, ?_, ?_⟩
  · intro hstopped
    dsimp only at hstopped
    rw [hstopped]
  · intro hstopped
    refine ⟨le_rfl, fun _ _ => rfl, ?_⟩
    obtain ⟨-, -, eos, hid, r, heos⟩ := eosReached_iff.mp hstopped
    rw [Fin.fin_one_eq_zero r] at heos
    exact ⟨eos, hid, heos⟩

/-- Once the stop has ended one generation, the other one only fills later blocks. -/
theorem Trims.idle (trims : Trims args.eosId P s t) (hstopped : t.stopped = true) :
    Trims args.eosId P (generateBlock { args with eosEarlyStop := false } backend P s) t := by
  obtain ⟨hle, hblocks, heos⟩ := trims.ended hstopped
  rw [generateBlock_with_early false, eosReached_without_early]
  refine ⟨rfl, ?_, ?_⟩
  · intro hrunning
    rw [hstopped] at hrunning
    exact Bool.noConfusion hrunning
  · intro _
    refine ⟨hle.trans (Nat.le_succ s.numBlock), ?_, heos⟩
    intro m hm
    exact (denoiseBlock_of_ne _ s.x 0 (hm.trans_le hle).ne).trans (hblocks m hm)

theorem trims_generateTokens (args : GenerateArgs V K) (backend : Backend σ 1 B V K)
    (prompt : Fin 1 → Fin P → Fin V) :
    Trims args.eosId P
      (generateTokens { args with eosEarlyStop := false } backend prompt)
      (generateTokens { args with eosEarlyStop := true } backend prompt) := by
  refine boundedLoop_related (Trims args.eosId P) ?_ ?_ ?_ _ ?_
  · intro s t trims hstopped
    rw [trims.running] at hstopped
    exact Bool.noConfusion hstopped
  · intro s t trims _ hrunning
    exact trims.step hrunning
  · intro s t trims _ hstopped
    exact trims.idle hstopped
  · exact ⟨rfl, fun _ => rfl, fun hfalse => Bool.noConfusion hfalse⟩

theorem generateWith_early_eq (args : GenerateArgs V K) (backend : Backend σ 1 B V K)
    (prompt : Fin 1 → Fin P → Fin V) :
    generateWith { args with eosEarlyStop := true } backend prompt 0 =
      args.eosId.elim id fillAfterEos
        (generateWith { args with eosEarlyStop := false } backend prompt 0) := by
  have trims := trims_generateTokens args backend prompt
  have hsame : trimmed { args with eosEarlyStop := true }
        (slice ((generateTokens { args with eosEarlyStop := false } backend prompt).x 0) P
          (P + args.genLength)) =
      generateWith { args with eosEarlyStop := true } backend prompt 0 := by
    rw [generateWith]
    cases hstopped :
        (generateTokens { args with eosEarlyStop := true } backend prompt).stopped with
    | false => rw [trims.same hstopped]
    | true =>
        obtain ⟨-, hblocks, eos, hid, heos⟩ := trims.ended hstopped
        exact trimmed_slice_congr hblocks rfl hid heos
  rw [← hsame, generateWith, trimmed_without_early]
  apply trimmed_with_early
  rw [length_slice, Nat.add_sub_cancel_left]

variable {Cache : Nat → Type*}

/-- Early stopping only trims the answer, also where `eos_id` is `mask_id`. -/
theorem generate_early_eq_fill (model : LanguageModel Cache B V K) (args : GenerateArgs V K)
    (useKvCache : Bool) (prompt : Fin 1 → Fin P → Fin V) :
    model.generate { args with eosEarlyStop := true } useKvCache prompt 0 =
      args.eosId.elim id fillAfterEos
        (model.generate { args with eosEarlyStop := false } useKvCache prompt 0) := by
  cases useKvCache with
  | false => exact generateWith_early_eq args (model.uncached 1) prompt
  | true => exact generateWith_early_eq args (model.cached 1) prompt

theorem generate_early_eq_fill_two_blocks :
    let model : LanguageModel (fun _ => Unit) 1 4 ℝ :=
      ⟨fun _ _ _ _ v => if v = 2 then 1 else 0, fun _ => (),
        fun _ _ _ _ _ v => if v = 2 then 1 else 0, fun _ _ _ => ()⟩
    let args : GenerateArgs 4 ℝ :=
      { steps := 1, genLength := 2, minimalTopk := 1, threshold := ⊥,
        editingThreshold := ⊤, maxPostSteps := 0, numToTransfer := 1,
        eosEarlyStop := false, eosId := some 2, maskId := 3, repetitionPenalty := 1 }
    let prompt : Fin 1 → Fin 1 → Fin 4 := fun _ _ => 0
    model.generate { args with eosEarlyStop := true } true prompt 0 =
      fillAfterEos 2 (model.generate args true prompt 0) := by
  intro model args prompt
  exact generate_early_eq_fill model args true prompt

end Run

end LladaHybrid.Generate
