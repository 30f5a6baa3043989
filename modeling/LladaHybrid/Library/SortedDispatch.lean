import Mathlib.Data.List.Basic
import Mathlib.Data.List.Sort
import Mathlib.Logic.Function.Basic

namespace LladaHybrid.Library

/-! Items dispatched by an integer key: sorted by the key, cut into one slice per
key, and written back to where they came from. -/

/-- `argsort` of a list of keys; the order it gives equal keys is left open. -/
structure Argsort where
  indices : List Nat → List Nat
  perm : ∀ keys, (indices keys).Perm (List.range keys.length)
  sorted : ∀ keys,
    (indices keys).Pairwise (fun p q => keys.getD p 0 ≤ keys.getD q 0)

/-- Merge sort is one implementation of `argsort`. -/
def Argsort.mergeSort : Argsort where
  indices keys := (List.range keys.length).mergeSort
    (fun p q => decide (keys.getD p 0 ≤ keys.getD q 0))
  perm _ := List.mergeSort_perm _ _
  sorted keys := List.pairwise_mergeSort'
    (Order.Preimage (fun p => keys.getD p 0) (· ≤ ·)) (List.range keys.length)

section Slices

variable {ι α β : Type*}

/-- One round of the loop over the keys: the next `size i` items go through `f i`. -/
def sliceStep (f : Nat → α → β) (size : Nat → Nat) (items : List α)
    (state : Nat × List β) (i : Nat) : Nat × List β :=
  if size i = 0 then state
  else
    (state.1 + size i, state.2 ++ ((items.drop state.1).take (size i)).map (f i))

def mapSlices (f : Nat → α → β) (size : Nat → Nat) (items : List α) (count : Nat) :
    List β :=
  ((List.range count).foldl (sliceStep f size items) (0, [])).2

variable {key : ι → Nat} {items : List ι}

theorem filter_append_filter_not {keep : ι → Bool}
    (hsorted : items.Pairwise (fun a b => keep b = true → keep a = true)) :
    items.filter keep ++ items.filter (fun a => !keep a) = items := by
  induction items with
  | nil => rfl
  | cons a items ih =>
      rw [List.pairwise_cons] at hsorted
      cases ha : keep a with
      | true => simp [ha, ih hsorted.2]
      | false =>
          have hrest : ∀ b ∈ items, keep b = false := by
            intro b hb
            rw [← Bool.not_eq_true]
            intro hkeep
            rw [hsorted.1 b hb hkeep] at ha
            cases ha
          have hnone : items.filter keep = [] := by simpa using hrest
          have hall : items.filter (fun b => !keep b) = items := by simpa using hrest
          simp [ha, hnone, hall]

theorem filter_lt_append_filter_ge
    (hsorted : items.Pairwise (fun a b => key a ≤ key b)) (i : Nat) :
    items.filter (fun a => key a < i) ++ items.filter (fun a => i ≤ key a) = items := by
  have hsplit := filter_append_filter_not
    (hsorted.imp (fun hle hlt => decide_eq_true (hle.trans_lt (of_decide_eq_true hlt))) :
      items.Pairwise (fun a b => decide (key b < i) = true → decide (key a < i) = true))
  simpa [← decide_not] using hsplit

theorem take_countP_lt (hsorted : items.Pairwise (fun a b => key a ≤ key b)) (i : Nat) :
    items.take (items.countP (fun a => key a < i)) = items.filter (fun a => key a < i) := by
  have hsplit := filter_lt_append_filter_ge hsorted i
  rw [List.countP_eq_length_filter]
  exact (congrArg _ hsplit.symm).trans List.take_left

theorem drop_countP_lt (hsorted : items.Pairwise (fun a b => key a ≤ key b)) (i : Nat) :
    items.drop (items.countP (fun a => key a < i)) = items.filter (fun a => i ≤ key a) := by
  have hsplit := filter_lt_append_filter_ge hsorted i
  rw [List.countP_eq_length_filter]
  exact (congrArg _ hsplit.symm).trans List.drop_left

theorem countP_lt_succ (key : ι → Nat) (items : List ι) (i : Nat) :
    items.countP (fun a => key a < i + 1) =
      items.countP (fun a => key a < i) + items.countP (fun a => key a = i) := by
  induction items with
  | nil => rfl
  | cons a items ih =>
      simp only [List.countP_cons, ih, decide_eq_true_eq]
      split_ifs <;> omega

/-- The slice after the items with a smaller key holds exactly the items with this key. -/
theorem key_of_mem_slice (hsorted : items.Pairwise (fun a b => key a ≤ key b)) {i : Nat}
    {a : ι} (hmem : a ∈ (items.drop (items.countP (fun a => key a < i))).take
      (items.countP (fun a => key a = i))) : key a = i := by
  have hlow : i ≤ key a := by
    have hdrop := List.mem_of_mem_take hmem
    rw [drop_countP_lt hsorted i] at hdrop
    simpa using (List.mem_filter.mp hdrop).2
  have hhigh : key a < i + 1 := by
    have htake : a ∈ items.take (items.countP (fun a => key a < i + 1)) := by
      rw [countP_lt_succ, List.take_add]
      exact List.mem_append_right _ hmem
    rw [take_countP_lt hsorted] at htake
    simpa using (List.mem_filter.mp htake).2
  omega

variable (f : Nat → α → β) (g : ι → α) {size : Nat → Nat}

/-- After the keys below `count`, the loop stands behind the items with such a key and has sent
each through the function of its own key. -/
theorem foldl_sliceStep (hsorted : items.Pairwise (fun a b => key a ≤ key b)) {count : Nat}
    (hsize : ∀ i < count, size i = items.countP (fun a => key a = i)) :
    (List.range count).foldl (sliceStep f size (items.map g)) (0, []) =
      (items.countP (fun a => key a < count),
        (items.take (items.countP (fun a => key a < count))).map
          (fun a => f (key a) (g a))) := by
  induction count with
  | zero => simp
  | succ i ih =>
      rw [List.range_succ, List.foldl_append,
        ih (fun j hj => hsize j (hj.trans (Nat.lt_succ_self i))), List.foldl_cons,
        List.foldl_nil, sliceStep, hsize i (Nat.lt_succ_self i), countP_lt_succ key items i,
        List.take_add, List.map_append]
      have hslice : (((items.map g).drop (items.countP (fun a => key a < i))).take
          (items.countP (fun a => key a = i))).map (f i) =
          ((items.drop (items.countP (fun a => key a < i))).take
            (items.countP (fun a => key a = i))).map (fun a => f (key a) (g a)) := by
        rw [← List.map_drop, ← List.map_take, List.map_map]
        apply List.map_congr_left
        intro a ha
        rw [key_of_mem_slice hsorted ha]
        rfl
      rw [hslice]
      split
      next hnone => simp [hnone]
      next => rfl

theorem mapSlices_eq (hsorted : items.Pairwise (fun a b => key a ≤ key b)) {count : Nat}
    (hkeys : ∀ a ∈ items, key a < count)
    (hsize : ∀ i < count, size i = items.countP (fun a => key a = i)) :
    mapSlices f size (items.map g) count = items.map (fun a => f (key a) (g a)) := by
  have hall : items.countP (fun a => key a < count) = items.length := by
    simpa using hkeys
  rw [mapSlices, foldl_sliceStep f g hsorted hsize, hall, List.take_length]

end Slices

section Scatter

variable {ι β : Type*}

/-- `torch.scatter` and `y[indices] = values`, one value after the other. -/
def scatter [DecidableEq ι] (y : ι → β) (indices : List ι) (values : List β) : ι → β :=
  (indices.zip values).foldl (fun y entry => Function.update y entry.1 entry.2) y

theorem scatter_map [DecidableEq ι] (y : ι → β) (indices : List ι) (f : ι → β) (q : ι) :
    scatter y indices (indices.map f) q = if q ∈ indices then f q else y q := by
  rw [scatter]
  induction indices generalizing y with
  | nil => rfl
  | cons p indices ih =>
      rw [List.map_cons, List.zip_cons_cons, List.foldl_cons, ih]
      cases Decidable.em (q = p) with
      | inl heq => simp [heq]
      | inr hne => simp [hne]

end Scatter

end LladaHybrid.Library
