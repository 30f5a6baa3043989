import Mathlib.Data.List.Nodup
import Mathlib.Logic.Function.Basic

namespace LladaHybrid.Library

/-! Stores to a memory, one after the other. -/

variable {ι α β : Type*} [DecidableEq α] (loc : ι → α) (value : ι → β) (items : List ι)
  (memory : α → β)

def storeAll : α → β :=
  items.foldl (fun written i => Function.update written (loc i) (value i)) memory

theorem storeAll_cons (first : ι) : storeAll loc value (first :: items) memory =
    storeAll loc value items (Function.update memory (loc first) (value first)) := rfl

theorem storeAll_of_notMem {a : α} (hnot : a ∉ items.map loc) :
    storeAll loc value items memory a = memory a := by
  induction items generalizing memory with
  | nil => rfl
  | cons first rest ih =>
      rw [List.map_cons, List.mem_cons, not_or] at hnot
      rw [storeAll_cons, ih _ hnot.2, Function.update_of_ne hnot.1]

theorem storeAll_of_mem (hnodup : (items.map loc).Nodup) {i : ι} (hi : i ∈ items) :
    storeAll loc value items memory (loc i) = value i := by
  induction items generalizing memory with
  | nil => cases hi
  | cons first rest ih =>
      rw [List.map_cons, List.nodup_cons] at hnodup
      rw [storeAll_cons]
      rcases List.mem_cons.mp hi with rfl | hi
      · rw [storeAll_of_notMem _ _ _ _ hnodup.1, Function.update_self]
      · exact ih _ hnodup.2 hi

end LladaHybrid.Library
