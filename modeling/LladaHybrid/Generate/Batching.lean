import LladaHybrid.Generate.RowIndependence

namespace LladaHybrid.Generate

open LladaHybrid.Library LladaHybrid.Decode

variable {σ τ ρ : Type*} {N P B V : Nat} {K : Type*}

section Slice

variable [NeZero B]

theorem slice_congr {x y : Tokens B V} {start stop blocks : Nat}
    (hstop : stop ≤ blocks * B) (hblocks : ∀ m < blocks, x m = y m) :
    slice x start stop = slice y start stop := by
  refine List.map_congr_left (fun p hp => ?_)
  have hlt : p < blocks * B := by
    rw [List.mem_range'_1] at hp
    omega
  have hblock : p / B < blocks := Nat.div_lt_of_lt_mul (by rwa [Nat.mul_comm] at hlt)
  rw [tokenAt, tokenAt, hblocks _ hblock]

theorem slice_append (x : Tokens B V) {start middle stop : Nat}
    (hstart : start ≤ middle) (hstop : middle ≤ stop) :
    slice x start stop = slice x start middle ++ slice x middle stop := by
  have hsplit : stop - start = (middle - start) + (stop - middle) := by omega
  have hmiddle : middle = start + 1 * (middle - start) := by omega
  rw [slice, slice, slice, ← List.map_append, hsplit, ← List.range'_append]
  rw [← hmiddle]

theorem length_slice (x : Tokens B V) (start stop : Nat) :
    (slice x start stop).length = stop - start := by
  rw [slice, List.length_map, List.length_range']

theorem eosReached_iff {args : GenerateArgs V K} {promptLength windowEnd : Nat}
    {x : Fin N → Tokens B V} :
    eosReached args promptLength windowEnd x = true ↔
      args.eosEarlyStop = true ∧
        (∀ r, args.maskId ∉ slice (x r) promptLength windowEnd) ∧
        ∃ eosId, args.eosId = some eosId ∧
          ∃ r, eosId ∈ slice (x r) promptLength windowEnd := by
  rw [eosReached]
  cases hid : args.eosId with
  | none => simp
  | some eosId => simp [and_assoc]

end Slice

theorem trimmed_append {args : GenerateArgs V K} {eosId : Fin V}
    {answer rest rest' : List (Fin V)} (hearly : args.eosEarlyStop = true)
    (hid : args.eosId = some eosId) (heos : eosId ∈ answer)
    (hlength : (answer ++ rest).length = args.genLength)
    (hlength' : (answer ++ rest').length = args.genLength) :
    trimmed args (answer ++ rest) = trimmed args (answer ++ rest') := by
  have hcut : answer.idxOf eosId + 1 ≤ answer.length := List.idxOf_lt_length_of_mem heos
  have hidx : ∀ rest, (answer ++ rest).idxOf eosId = answer.idxOf eosId :=
    fun rest => List.idxOf_append_of_mem heos
  simp only [trimmed, hid, hearly, true_and, List.mem_append, heos, true_or, if_true,
    hidx, List.take_append_of_le_length hcut, hlength, hlength']
  split_ifs with hless
  · rfl
  · rw [List.length_append] at hlength hlength'
    have hrest : rest = [] := List.eq_nil_of_length_eq_zero (by omega)
    have hrest' : rest' = [] := List.eq_nil_of_length_eq_zero (by omega)
    rw [hrest, hrest']

section SameRow

variable [NeZero B]

theorem trimmed_slice_congr {args : GenerateArgs V K} {eosId : Fin V} {x y : Tokens B V}
    {blocks : Nat} (hblocks : ∀ m < blocks, x m = y m) (hearly : args.eosEarlyStop = true)
    (hid : args.eosId = some eosId) (heos : eosId ∈ slice y P (blocks * B)) :
    trimmed args (slice x P (P + args.genLength)) =
      trimmed args (slice y P (P + args.genLength)) := by
  rcases le_total (P + args.genLength) (blocks * B) with hall | hpart
  · rw [slice_congr hall hblocks]
  · have hstart : P ≤ blocks * B := by
      have hpos := List.length_pos_of_mem heos
      rw [length_slice] at hpos
      omega
    have hlength : ∀ x : Tokens B V, (slice x P (blocks * B) ++
        slice x (blocks * B) (P + args.genLength)).length = args.genLength := by
      intro x
      rw [← slice_append x hstart hpart, length_slice, Nat.add_sub_cancel_left]
    have hlength' := hlength x
    rw [slice_append _ hstart hpart, slice_append y hstart hpart]
    rw [slice_congr le_rfl hblocks] at hlength' ⊢
    exact trimmed_append hearly hid heos hlength' (hlength y)

/-- One row of a batch beside the same row alone, with `k` blocks to go. The row alone
may have stopped on an EOS of its own while the batch went on. -/
structure SameRow (args : GenerateArgs V K) (promptLength : Nat)
    (view : σ → Fin N → ρ) (viewAlone : τ → Fin 1 → ρ) (r : Fin N) (k : Nat)
    (s : GenerateState σ N B V) (t : GenerateState τ 1 B V) : Prop where
  remaining : s.numBlock + k = numBlocks args promptLength B
  same : t.stopped = false →
    s.numBlock = t.numBlock ∧ s.x r = t.x 0 ∧ view s.prefixCache r = viewAlone t.prefixCache 0
  ended : t.stopped = true →
    t.numBlock ≤ s.numBlock ∧ (∀ m < t.numBlock, s.x r m = t.x 0 m) ∧
      args.eosEarlyStop = true ∧ ∃ eosId, args.eosId = some eosId ∧
        eosId ∈ slice (t.x 0) promptLength (t.numBlock * B)
  stops : s.stopped = true → t.stopped = true ∨ k = 0

theorem SameRow.trimmed_eq {args : GenerateArgs V K} {view : σ → Fin N → ρ}
    {viewAlone : τ → Fin 1 → ρ} {r : Fin N} {k : Nat} {s : GenerateState σ N B V}
    {t : GenerateState τ 1 B V} (hrel : SameRow args P view viewAlone r k s t) :
    trimmed args (slice (s.x r) P (P + args.genLength)) =
      trimmed args (slice (t.x 0) P (P + args.genLength)) := by
  cases hstopped : t.stopped with
  | false => rw [(hrel.same hstopped).2.1]
  | true =>
      obtain ⟨-, hblocks, hearly, eosId, hid, heos⟩ := hrel.ended hstopped
      exact trimmed_slice_congr hblocks hearly hid heos

end SameRow

section Run

variable [Field K] [LinearOrder K] [ExpOps K] [TopK K] [NeZero B] [NeZero V]

/-- A block in which no row is disturbed by the others: no row is edited beyond its
own post-edit steps, and an EOS ends the batch early only if every row has one. -/
structure Undisturbed (args : GenerateArgs V K) (backend : Backend σ N B V K)
    (promptLength : Nat) (s : GenerateState σ N B V) : Prop where
  edits : Throughout (fun w : Watched N B V => w.state.stopped)
    (watchStep args promptLength s.numBlock (backend.read s.prefixCache s.numBlock))
    (EditsWithinBudget args promptLength s.numBlock
      (backend.read s.prefixCache s.numBlock))
    args.effectiveSteps ⟨⟨s.x, 0, false⟩, fun _ => 0⟩
  stops : (generateBlock args backend promptLength s).stopped = true →
    s.numBlock + 1 = numBlocks args promptLength B ∨
      ∀ r, ∀ eosId ∈ args.eosId, eosId ∈
        slice ((generateBlock args backend promptLength s).x r) promptLength
          ((s.numBlock + 1) * B)

def UndisturbedRun (args : GenerateArgs V K) (backend : Backend σ N B V K)
    (prompt : Fin N → Fin P → Fin V) : Prop :=
  Throughout GenerateState.stopped (generateBlock args backend P)
    (Undisturbed args backend P) (numBlocks args P B - P / B)
    (initialState args backend prompt)

variable {args : GenerateArgs V K} {promptLength : Nat} {row : RowBackend ρ B V K}
  {backend : Backend σ N B V K} {view : σ → Fin N → ρ}
  {single : Backend τ 1 B V K} {viewAlone : τ → Fin 1 → ρ}
  {r : Fin N} {k : Nat} {s : GenerateState σ N B V} {t : GenerateState τ 1 B V}

theorem SameRow.generateBlock_x (hbatch : RowIndependent row backend view)
    (hsingle : RowIndependent row single viewAlone)
    (hrel : SameRow args promptLength view viewAlone r (k + 1) s t)
    (hundisturbed : Undisturbed args backend promptLength s)
    (hrunning : t.stopped = false) :
    (generateBlock args backend promptLength s).x r =
      (generateBlock args single promptLength t).x 0 := by
  obtain ⟨hnum, hx, hview⟩ := hrel.same hrunning
  obtain ⟨tx, tcache, tnum, tstopped⟩ := t
  have htx : tx = fun _ => s.x r := by
    funext i
    rw [Fin.fin_one_eq_zero i]
    exact hx.symm
  obtain rfl : s.numBlock = tnum := hnum
  have hread : ∀ x, backend.read s.prefixCache s.numBlock x r =
      row.read (view s.prefixCache r) s.numBlock (x r) :=
    fun x => hbatch.read s.prefixCache s.numBlock x r
  have hreadAlone : ∀ x, single.read tcache s.numBlock x 0 =
      row.read (view s.prefixCache r) s.numBlock (x 0) := by
    intro x
    rw [hsingle.read, hview]
  rw [htx]
  exact denoiseBlock_row_eq_alone hread hreadAlone s.x hundisturbed.edits

theorem SameRow.step (hbatch : RowIndependent row backend view)
    (hsingle : RowIndependent row single viewAlone)
    (hrel : SameRow args promptLength view viewAlone r (k + 1) s t)
    (hundisturbed : Undisturbed args backend promptLength s)
    (hrunning : t.stopped = false) :
    SameRow args promptLength view viewAlone r k (generateBlock args backend promptLength s)
      (generateBlock args single promptLength t) := by
  obtain ⟨hnum, hx, hview⟩ := hrel.same hrunning
  have hrow := hrel.generateBlock_x hbatch hsingle hundisturbed hrunning
  have hremaining : s.numBlock + 1 + k = numBlocks args promptLength B := by
    have hleft := hrel.remaining
    omega
  refine ⟨hremaining, fun _ => ⟨?_, hrow, ?_⟩, ?_, ?_⟩
  · simp only [generateBlock, hnum]
  · change view (backend.commit s.prefixCache s.numBlock
        (fun i => (generateBlock args backend promptLength s).x i s.numBlock)) r =
      viewAlone (single.commit t.prefixCache t.numBlock
        (fun i => (generateBlock args single promptLength t).x i t.numBlock)) 0
    rw [hbatch.commit, hsingle.commit, hview, hrow, hnum]
  · intro hstopped
    obtain ⟨hearly, -, eosId, hid, i, heos⟩ := eosReached_iff.mp hstopped
    rw [Fin.fin_one_eq_zero i] at heos
    refine ⟨?_, fun m _ => congrFun hrow m, hearly, eosId, hid, heos⟩
    simp only [generateBlock, hnum, le_refl]
  · intro hstopped
    obtain ⟨hearly, hmasks, eosId, hid, -⟩ := eosReached_iff.mp hstopped
    rcases hundisturbed.stops hstopped with hlast | hall
    · exact Or.inr (by omega)
    · left
      change eosReached args promptLength ((t.numBlock + 1) * B)
        (generateBlock args single promptLength t).x = true
      rw [eosReached_iff, ← hnum]
      refine ⟨hearly, fun i => ?_, eosId, hid, 0, ?_⟩
      · rw [Fin.fin_one_eq_zero i, ← hrow]
        exact hmasks r
      · rw [← hrow]
        exact hall r eosId hid

theorem SameRow.idle
    (hrel : SameRow args promptLength view viewAlone r (k + 1) s t)
    (hstopped : t.stopped = true) :
    SameRow args promptLength view viewAlone r k
      (generateBlock args backend promptLength s) t := by
  obtain ⟨hle, hblocks, heos⟩ := hrel.ended hstopped
  refine ⟨?_, ?_, fun _ => ⟨Nat.le_succ_of_le hle, fun m hm => ?_, heos⟩,
    fun _ => Or.inl hstopped⟩
  · have hremaining := hrel.remaining
    simp only [generateBlock]
    omega
  · intro hfalse
    rw [hstopped] at hfalse
    exact Bool.noConfusion hfalse
  · rw [← hblocks m hm]
    exact denoiseBlock_of_ne _ _ r (by omega)

theorem generateWith_row_eq_alone (hbatch : RowIndependent row backend view)
    (hsingle : RowIndependent row single viewAlone) (prompt : Fin N → Fin P → Fin V)
    (hrun : UndisturbedRun args backend prompt) (r : Fin N) :
    generateWith args backend prompt r =
      generateWith args single (fun _ => prompt r) 0 := by
  have hblocks : P / B ≤ numBlocks args P B := by
    have hB : 0 < B := Nat.pos_of_ne_zero (NeZero.ne B)
    exact Nat.div_le_div_right (by omega)
  have hinit : SameRow args P view viewAlone r (numBlocks args P B - P / B)
      (initialState args backend prompt)
      (initialState args single (fun _ => prompt r)) := by
    refine ⟨?_, fun _ => ⟨rfl, rfl, ?_⟩, fun hfalse => Bool.noConfusion hfalse,
      fun hfalse => Bool.noConfusion hfalse⟩
    · exact Nat.add_sub_of_le hblocks
    · exact hbatch.prefill hsingle _ r (P / B)
  obtain ⟨k, hend⟩ : ∃ k, SameRow args P view viewAlone r k
      (generateTokens args backend prompt)
      (generateTokens args single (fun _ => prompt r)) := by
    refine boundedLoop_related_throughout (Undisturbed args backend P)
      (SameRow args P view viewAlone r) ?_ ?_ ?_ hrun hinit
    · intro n s t hrel hstopped
      exact (hrel.stops hstopped).resolve_right (Nat.succ_ne_zero n)
    · intro n s t hrel hundisturbed _ hrunning
      exact hrel.step hbatch hsingle hundisturbed hrunning
    · intro n s t hrel _ _ hstopped
      exact hrel.idle hstopped
  exact hend.trimmed_eq

end Run

end LladaHybrid.Generate
