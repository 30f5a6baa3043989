import Mathlib.Data.List.Induction
import Mathlib.Logic.Function.Basic

namespace LladaHybrid.Library

/-! A grid of programs over shared memory. Every program loads one cell and then
stores; the loads and stores of different programs may interleave in any way. The
output buffer keeps the history of every row, so that a row written twice shows. -/

variable {ι Cell Val Key Row : Type*}

@[ext] structure GridKernel (ι Cell Val Key Row : Type*) where
  load : ι → Cell
  store : ι → Option Cell
  value : ι → Val → Val
  rows : ι → Val → Key → Option Row

theorem GridKernel.eq_of_isEmpty [IsEmpty ι] (first second : GridKernel ι Cell Val Key Row) :
    first = second := by
  ext i
  all_goals exact isEmptyElim i

structure Memory (Cell Val Key Row : Type*) where
  cells : Cell → Val
  out : Key → List Row

inductive GridEvent (ι : Type*)
  | load (program : ι)
  | store (program : ι)

structure GridState (ι Cell Val Key Row : Type*) where
  memory : Memory Cell Val Key Row
  register : ι → Option Val

section Run

variable [DecidableEq Cell]

def storeCell (kernel : GridKernel ι Cell Val Key Row) (program : ι) (loaded : Val)
    (cells : Cell → Val) : Cell → Val :=
  match kernel.store program with
  | none => cells
  | some cell => Function.update cells cell (kernel.value program loaded)

theorem storeCell_of_ne {kernel : GridKernel ι Cell Val Key Row} {i : ι}
    {cells : Cell → Val} {cell : Cell} {loaded : Val}
    (other : kernel.store i ≠ some cell) :
    storeCell kernel i loaded cells cell = cells cell := by
  unfold storeCell
  cases target : kernel.store i with
  | none => rfl
  | some destination =>
      apply Function.update_of_ne
      intro same
      exact other (same ▸ target)

theorem storeCell_of_eq {kernel : GridKernel ι Cell Val Key Row} {i : ι}
    {cells : Cell → Val} {cell : Cell} {loaded : Val}
    (target : kernel.store i = some cell) :
    storeCell kernel i loaded cells cell = kernel.value i loaded := by
  unfold storeCell
  rw [target]
  exact Function.update_self cell _ cells

variable [DecidableEq ι]

def gridStep (kernel : GridKernel ι Cell Val Key Row)
    (s : GridState ι Cell Val Key Row) :
    GridEvent ι → GridState ι Cell Val Key Row
  | .load program =>
      { s with register :=
          Function.update s.register program (some (s.memory.cells (kernel.load program))) }
  | .store program =>
      match s.register program with
      | none => s
      | some loaded =>
          { s with memory :=
              { cells := storeCell kernel program loaded s.memory.cells
                out := fun key =>
                  s.memory.out key ++ (kernel.rows program loaded key).toList } }

def gridRun (kernel : GridKernel ι Cell Val Key Row) (events : List (GridEvent ι))
    (memory : Memory Cell Val Key Row) : GridState ι Cell Val Key Row :=
  events.foldl (gridStep kernel) ⟨memory, fun _ => none⟩

theorem gridRun_concat (kernel : GridKernel ι Cell Val Key Row) (events : List (GridEvent ι))
    (event : GridEvent ι) (memory : Memory Cell Val Key Row) :
    gridRun kernel (events ++ [event]) memory =
      gridStep kernel (gridRun kernel events memory) event := by
  rw [gridRun, List.foldl_append]
  rfl

end Run

/-- A program loads once and, after that, stores once. -/
inductive Interleaving : List (GridEvent ι) → Prop
  | nil : Interleaving []
  | load {events : List (GridEvent ι)} {program : ι} :
      Interleaving events → .load program ∉ events →
      Interleaving (events ++ [.load program])
  | store {events : List (GridEvent ι)} {program : ι} :
      Interleaving events → .load program ∈ events → .store program ∉ events →
      Interleaving (events ++ [.store program])

theorem Interleaving.load_mem {events : List (GridEvent ι)}
    (interleaved : Interleaving events) {program : ι}
    (stored : .store program ∈ events) : .load program ∈ events := by
  induction interleaved with
  | nil => cases stored
  | load _ _ ih =>
      rcases List.mem_append.mp stored with stored | stored
      · exact List.mem_append_left _ (ih stored)
      · cases List.mem_singleton.mp stored
  | store _ loaded _ ih =>
      rcases List.mem_append.mp stored with stored | stored
      · exact List.mem_append_left _ (ih stored)
      · cases List.mem_singleton.mp stored
        exact List.mem_append_left _ loaded

/-- An order in which a launch may execute all of its programs. -/
structure GridSchedule (ι : Type*) where
  events : List (GridEvent ι)
  interleaved : Interleaving events
  complete : ∀ program, .store program ∈ events

section Sequential

def sequentialEvents (programs : List ι) : List (GridEvent ι) :=
  programs.flatMap (fun program => [.load program, .store program])

theorem load_mem_sequentialEvents {programs : List ι} {program : ι} :
    .load program ∈ sequentialEvents programs ↔ program ∈ programs := by
  simp [sequentialEvents]

theorem store_mem_sequentialEvents {programs : List ι} {program : ι} :
    .store program ∈ sequentialEvents programs ↔ program ∈ programs := by
  simp [sequentialEvents]

theorem interleaving_sequentialEvents {programs : List ι} (nodup : programs.Nodup) :
    Interleaving (sequentialEvents programs) := by
  induction programs using List.reverseRecOn with
  | nil => exact .nil
  | append_singleton programs program ih =>
      obtain ⟨hinit, -, hfresh⟩ := List.nodup_append.mp nodup
      have hnew : program ∉ programs := by
        intro hmem
        exact hfresh program hmem program (List.mem_singleton_self program) rfl
      have hload : Interleaving (sequentialEvents programs ++ [.load program]) := by
        refine .load (ih hinit) ?_
        rwa [load_mem_sequentialEvents]
      have hstore : Interleaving
          (sequentialEvents programs ++ [.load program] ++ [.store program]) := by
        refine .store hload (by simp) ?_
        simpa [store_mem_sequentialEvents] using hnew
      simpa [sequentialEvents] using hstore

def GridSchedule.sequential (programs : List ι) (nodup : programs.Nodup)
    (complete : ∀ program, program ∈ programs) : GridSchedule ι where
  events := sequentialEvents programs
  interleaved := interleaving_sequentialEvents nodup
  complete program := store_mem_sequentialEvents.mpr (complete program)

end Sequential

/-- No two programs touch one cell or one row in a way that could race. -/
structure RaceFree (kernel : GridKernel ι Cell Val Key Row) : Prop where
  load_store : ∀ {i j}, kernel.store j = some (kernel.load i) → i = j
  store_store : ∀ {i j cell}, kernel.store i = some cell → kernel.store j = some cell → i = j
  rows_rows : ∀ {i j a b key}, (kernel.rows i a key).isSome → (kernel.rows j b key).isSome →
    i = j

theorem store_mem_append_load {events : List (GridEvent ι)} {i j : ι} :
    .store j ∈ events ++ [.load i] ↔ .store j ∈ events := by
  simp

theorem store_mem_append_store {events : List (GridEvent ι)} {i j : ι} :
    .store j ∈ events ++ [.store i] ↔ .store j ∈ events ∨ j = i := by
  simp

section Launch

variable [DecidableEq ι] [DecidableEq Cell]

/-- What the programs that have stored so far have left behind. -/
structure Progress (kernel : GridKernel ι Cell Val Key Row)
    (memory : Memory Cell Val Key Row) (events : List (GridEvent ι))
    (s : GridState ι Cell Val Key Row) : Prop where
  loaded : ∀ i, .load i ∈ events → s.register i = some (memory.cells (kernel.load i))
  untouched : ∀ cell, (∀ i, .store i ∈ events → kernel.store i ≠ some cell) →
    s.memory.cells cell = memory.cells cell
  stored : ∀ i cell, .store i ∈ events → kernel.store i = some cell →
    s.memory.cells cell = kernel.value i (memory.cells (kernel.load i))
  noRow : ∀ key,
    (∀ i, .store i ∈ events → kernel.rows i (memory.cells (kernel.load i)) key = none) →
    s.memory.out key = memory.out key
  row : ∀ i key row, .store i ∈ events →
    kernel.rows i (memory.cells (kernel.load i)) key = some row →
    s.memory.out key = memory.out key ++ [row]

variable {kernel : GridKernel ι Cell Val Key Row} {memory : Memory Cell Val Key Row}
  {events : List (GridEvent ι)} {s : GridState ι Cell Val Key Row} {i : ι}

theorem Progress.load (raceFree : RaceFree kernel) (interleaved : Interleaving events)
    (fresh : .load i ∉ events) (progress : Progress kernel memory events s) :
    Progress kernel memory (events ++ [.load i]) (gridStep kernel s (.load i)) := by
  have unchanged : s.memory.cells (kernel.load i) = memory.cells (kernel.load i) := by
    apply progress.untouched
    intro j stored same
    have hij := raceFree.load_store same
    exact fresh (hij ▸ interleaved.load_mem stored)
  constructor
  · intro j hj
    by_cases hji : j = i
    · subst hji
      simp only [gridStep, Function.update_self, unchanged]
    · have earlier : .load j ∈ events := by simpa [hji] using hj
      simp only [gridStep, Function.update_of_ne hji]
      exact progress.loaded j earlier
  · intro cell hcell
    exact progress.untouched cell (fun j hj => hcell j (store_mem_append_load.mpr hj))
  · intro j cell hj
    exact progress.stored j cell (store_mem_append_load.mp hj)
  · intro key hkey
    exact progress.noRow key (fun j hj => hkey j (store_mem_append_load.mpr hj))
  · intro j key row hj
    exact progress.row j key row (store_mem_append_load.mp hj)

theorem Progress.gridStep_store (progress : Progress kernel memory events s)
    (loaded : .load i ∈ events) :
    gridStep kernel s (.store i) =
      { s with memory :=
          { cells := storeCell kernel i (memory.cells (kernel.load i)) s.memory.cells
            out := fun key => s.memory.out key ++
              (kernel.rows i (memory.cells (kernel.load i)) key).toList } } := by
  simp only [gridStep, progress.loaded i loaded]

theorem Progress.store (raceFree : RaceFree kernel) (loaded : .load i ∈ events)
    (fresh : .store i ∉ events) (progress : Progress kernel memory events s) :
    Progress kernel memory (events ++ [.store i]) (gridStep kernel s (.store i)) := by
  rw [progress.gridStep_store loaded]
  constructor
  · intro j hj
    exact progress.loaded j (by simpa using hj)
  · intro cell hcell
    have other := hcell i (store_mem_append_store.mpr (Or.inr rfl))
    exact (storeCell_of_ne other).trans
      (progress.untouched cell (fun j hj => hcell j (store_mem_append_store.mpr (Or.inl hj))))
  · intro j cell hj target
    rcases store_mem_append_store.mp hj with hj | rfl
    · have other : kernel.store i ≠ some cell := by
        intro same
        exact fresh (raceFree.store_store target same ▸ hj)
      exact (storeCell_of_ne other).trans (progress.stored j cell hj target)
    · exact storeCell_of_eq target
  · intro key hkey
    have none := hkey i (store_mem_append_store.mpr (Or.inr rfl))
    simp only [none, Option.toList_none, List.append_nil]
    exact progress.noRow key (fun j hj => hkey j (store_mem_append_store.mpr (Or.inl hj)))
  · intro j key row hj hrow
    have ownRow : (kernel.rows j (memory.cells (kernel.load j)) key).isSome := by
      rw [hrow]
      rfl
    rcases store_mem_append_store.mp hj with hj | rfl
    · have none : kernel.rows i (memory.cells (kernel.load i)) key = none := by
        by_contra other
        have hji := raceFree.rows_rows ownRow (Option.isSome_iff_ne_none.mpr other)
        exact fresh (hji ▸ hj)
      simp only [none, Option.toList_none, List.append_nil]
      exact progress.row j key row hj hrow
    · have before : s.memory.out key = memory.out key := by
        apply progress.noRow
        intro k hk
        by_contra other
        have hjk := raceFree.rows_rows ownRow (Option.isSome_iff_ne_none.mpr other)
        exact fresh (hjk ▸ hk)
      simp only [before, hrow, Option.toList_some]

theorem gridRun_progress (raceFree : RaceFree kernel) (interleaved : Interleaving events) :
    Progress kernel memory events (gridRun kernel events memory) := by
  induction interleaved with
  | nil =>
      constructor
      · intro i loaded
        cases loaded
      · intro cell _
        rfl
      · intro i cell stored
        cases stored
      · intro key _
        rfl
      · intro i key row stored
        cases stored
  | load earlier fresh ih =>
      rw [gridRun_concat]
      exact ih.load raceFree earlier fresh
  | store _ loaded fresh ih =>
      rw [gridRun_concat]
      exact ih.store raceFree loaded fresh

def launch (kernel : GridKernel ι Cell Val Key Row) (schedule : GridSchedule ι)
    (memory : Memory Cell Val Key Row) : Memory Cell Val Key Row :=
  (gridRun kernel schedule.events memory).memory

variable (raceFree : RaceFree kernel) (schedule : GridSchedule ι)

include raceFree

theorem launch_cells_of_store {cell : Cell} (target : kernel.store i = some cell) :
    (launch kernel schedule memory).cells cell =
      kernel.value i (memory.cells (kernel.load i)) :=
  (gridRun_progress raceFree schedule.interleaved).stored i cell (schedule.complete i) target

theorem launch_cells_of_ne {cell : Cell} (other : ∀ i, kernel.store i ≠ some cell) :
    (launch kernel schedule memory).cells cell = memory.cells cell :=
  (gridRun_progress raceFree schedule.interleaved).untouched cell (fun i _ => other i)

theorem launch_out_of_row {key : Key} {row : Row}
    (written : kernel.rows i (memory.cells (kernel.load i)) key = some row) :
    (launch kernel schedule memory).out key = memory.out key ++ [row] :=
  (gridRun_progress raceFree schedule.interleaved).row i key row (schedule.complete i) written

theorem launch_out_of_none {key : Key}
    (unwritten : ∀ i, kernel.rows i (memory.cells (kernel.load i)) key = none) :
    (launch kernel schedule memory).out key = memory.out key :=
  (gridRun_progress raceFree schedule.interleaved).noRow key (fun i _ => unwritten i)

end Launch

/-! Programs that run one after another. -/

section Programs

variable [DecidableEq ι] [DecidableEq Cell]

def runProgram (kernel : GridKernel ι Cell Val Key Row) (memory : Memory Cell Val Key Row)
    (program : ι) : Memory Cell Val Key Row :=
  let loaded := memory.cells (kernel.load program)
  { cells := storeCell kernel program loaded memory.cells
    out := fun key => memory.out key ++ (kernel.rows program loaded key).toList }

theorem foldl_gridStep_sequentialEvents (kernel : GridKernel ι Cell Val Key Row)
    (programs : List ι) (s : GridState ι Cell Val Key Row) :
    ((sequentialEvents programs).foldl (gridStep kernel) s).memory =
      programs.foldl (runProgram kernel) s.memory := by
  induction programs generalizing s with
  | nil => rfl
  | cons program programs ih =>
      have hone : ((gridStep kernel (gridStep kernel s (.load program)) (.store program))).memory =
          runProgram kernel s.memory program := by
        simp [gridStep, runProgram]
      rw [List.foldl_cons, ← hone, ← ih]
      rfl

theorem launch_sequential (kernel : GridKernel ι Cell Val Key Row) (programs : List ι)
    (nodup : programs.Nodup) (complete : ∀ program, program ∈ programs)
    (memory : Memory Cell Val Key Row) :
    launch kernel (.sequential programs nodup complete) memory =
      programs.foldl (runProgram kernel) memory :=
  foldl_gridStep_sequentialEvents kernel programs ⟨memory, fun _ => none⟩

end Programs

/-! Which cells and rows a launch reaches does not need race freedom. -/

def GridKernel.Touches (kernel : GridKernel ι Cell Val Key Row) (cell : Cell) : Prop :=
  ∃ i, kernel.load i = cell ∨ kernel.store i = some cell

/-- The keys that program `i` writes do not depend on the value it has loaded. -/
def GridKernel.Covers (kernel : GridKernel ι Cell Val Key Row) (covers : ι → Key → Prop) :
    Prop :=
  ∀ i loaded key, (kernel.rows i loaded key).isSome ↔ covers i key

section Rows

variable [DecidableEq ι] [DecidableEq Cell] {kernel : GridKernel ι Cell Val Key Row}
  {memory : Memory Cell Val Key Row} {events : List (GridEvent ι)} {covers : ι → Key → Prop}

/-- The rows that the programs stored so far have appended. -/
structure RowProgress (memory : Memory Cell Val Key Row) (covers : ι → Key → Prop)
    (events : List (GridEvent ι)) (s : GridState ι Cell Val Key Row) : Prop where
  loaded : ∀ i, .load i ∈ events → s.register i ≠ none
  out : ∀ key, ∃ rows, s.memory.out key = memory.out key ++ rows ∧
    (rows ≠ [] ↔ ∃ i, .store i ∈ events ∧ covers i key)

theorem gridRun_rowProgress (hcovers : kernel.Covers covers)
    (interleaved : Interleaving events) :
    RowProgress memory covers events (gridRun kernel events memory) := by
  induction interleaved with
  | nil =>
      constructor
      · intro i loaded
        cases loaded
      · intro key
        exact ⟨[], by simp [gridRun], by simp⟩
  | @load events program _ _ ih =>
      rw [gridRun_concat]
      constructor
      · intro i hi
        by_cases hsame : i = program
        · subst hsame
          simp [gridStep]
        · have earlier : .load i ∈ events := by simpa [hsame] using hi
          simpa [gridStep, Function.update_of_ne hsame] using ih.loaded i earlier
      · simpa [gridStep, store_mem_append_load] using ih.out
  | @store events program _ hload _ ih =>
      obtain ⟨loaded, hregister⟩ := Option.ne_none_iff_exists'.mp (ih.loaded program hload)
      rw [gridRun_concat]
      constructor
      · intro i hi
        have earlier : .load i ∈ events := by simpa using hi
        simpa [gridStep, hregister] using ih.loaded i earlier
      · intro key
        obtain ⟨rows, hrows, hwritten⟩ := ih.out key
        refine ⟨rows ++ (kernel.rows program loaded key).toList, ?_, ?_⟩
        · simp [gridStep, hregister, hrows]
        · have hnew : (kernel.rows program loaded key).toList ≠ [] ↔ covers program key := by
            rw [← hcovers program loaded key]
            cases kernel.rows program loaded key <;> simp
          simp only [store_mem_append_store, or_and_right, exists_or, ← hwritten,
            exists_eq_left, ← hnew]
          rw [Ne, List.append_eq_nil_iff, not_and_or]

theorem launch_out (hcovers : kernel.Covers covers) (schedule : GridSchedule ι) (key : Key) :
    ∃ rows, (launch kernel schedule memory).out key = memory.out key ++ rows ∧
      (rows ≠ [] ↔ ∃ i, covers i key) := by
  have progress : RowProgress memory covers schedule.events
      (gridRun kernel schedule.events memory) :=
    gridRun_rowProgress hcovers schedule.interleaved
  obtain ⟨rows, hrows, hwritten⟩ := progress.out key
  refine ⟨rows, hrows, hwritten.trans ?_⟩
  simp [schedule.complete]

end Rows

end LladaHybrid.Library
