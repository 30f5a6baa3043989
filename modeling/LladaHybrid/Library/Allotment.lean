import Mathlib.Algebra.BigOperators.Group.List.Basic
import Mathlib.Data.List.Nodup
import Mathlib.Data.Multiset.AddSub
import Mathlib.Logic.Function.Basic

namespace LladaHybrid.Library

/-! Resources handed out to clients from a free list, each to at most one client. -/

variable {ι α : Type*}

structure Allotted (all free : List α) (held : ι → Option α) : Prop where
  free_nodup : free.Nodup
  free_subset : ∀ a ∈ free, a ∈ all
  held_mem : ∀ {i a}, held i = some a → a ∈ all
  held_notFree : ∀ {i a}, held i = some a → a ∉ free
  held_inj : ∀ {i j a}, held i = some a → held j = some a → i = j

namespace Allotted

variable {all free : List α} {held : ι → Option α} {i : ι} {a : α}

theorem initial (hnodup : all.Nodup) : Allotted all all (fun _ : ι => none) where
  free_nodup := hnodup
  free_subset _ := id
  held_mem hheld := by cases hheld
  held_notFree hheld := by cases hheld
  held_inj hheld := by cases hheld

variable [DecidableEq ι]

theorem take (allotted : Allotted all (a :: free) held) (i : ι) :
    Allotted all free (Function.update held i (some a)) := by
  have hfresh : ∀ {j}, held j ≠ some a := fun hheld =>
    allotted.held_notFree hheld List.mem_cons_self
  have hother : ∀ {j b}, Function.update held i (some a) j = some b →
      (j = i ∧ b = a) ∨ (j ≠ i ∧ held j = some b) := by
    intro j b hheld
    by_cases hj : j = i
    · subst hj
      rw [Function.update_self] at hheld
      exact Or.inl ⟨rfl, (Option.some.inj hheld).symm⟩
    · rw [Function.update_of_ne hj] at hheld
      exact Or.inr ⟨hj, hheld⟩
  constructor
  · exact (List.nodup_cons.mp allotted.free_nodup).2
  · intro b hb
    exact allotted.free_subset b (List.mem_cons_of_mem a hb)
  · intro j b hheld
    rcases hother hheld with ⟨-, rfl⟩ | ⟨-, hheld⟩
    · exact allotted.free_subset b List.mem_cons_self
    · exact allotted.held_mem hheld
  · intro j b hheld
    rcases hother hheld with ⟨-, rfl⟩ | ⟨-, hheld⟩
    · exact (List.nodup_cons.mp allotted.free_nodup).1
    · exact fun hb => allotted.held_notFree hheld (List.mem_cons_of_mem a hb)
  · intro j k b hj hk
    rcases hother hj with ⟨hji, hba⟩ | ⟨-, hfirst⟩ <;>
      rcases hother hk with ⟨hki, hba'⟩ | ⟨-, hsecond⟩
    · rw [hji, hki]
    · exact absurd (hba ▸ hsecond) hfresh
    · exact absurd (hba' ▸ hfirst) hfresh
    · exact allotted.held_inj hfirst hsecond

theorem give (allotted : Allotted all free held) (hheld : held i = some a) :
    Allotted all (free ++ [a]) (Function.update held i none) := by
  have hother : ∀ {j b}, Function.update held i none j = some b → j ≠ i ∧ held j = some b := by
    intro j b hj
    by_cases hne : j = i
    · subst hne
      rw [Function.update_self] at hj
      cases hj
    · rw [Function.update_of_ne hne] at hj
      exact ⟨hne, hj⟩
  constructor
  · rw [List.nodup_append]
    refine ⟨allotted.free_nodup, List.nodup_singleton a, ?_⟩
    intro b hb c hc heq
    rw [List.mem_singleton] at hc
    subst hc heq
    exact allotted.held_notFree hheld hb
  · intro b hb
    rcases List.mem_append.mp hb with hb | hb
    · exact allotted.free_subset b hb
    · rw [List.mem_singleton] at hb
      exact hb ▸ allotted.held_mem hheld
  · intro j b hj
    exact allotted.held_mem (hother hj).2
  · intro j b hj hb
    rcases List.mem_append.mp hb with hb | hb
    · exact allotted.held_notFree (hother hj).2 hb
    · rw [List.mem_singleton] at hb
      subst hb
      exact (hother hj).1 (allotted.held_inj (hother hj).2 hheld)
  · intro j k b hj hk
    exact allotted.held_inj (hother hj).2 (hother hk).2

end Allotted

/-- No resource is lost: what is not free is held. -/
def Covered (all free : List α) (held : ι → Option α) : Prop :=
  ∀ a ∈ all, a ∈ free ∨ ∃ i, held i = some a

namespace Covered

variable {all free : List α} {held : ι → Option α} {i : ι} {a : α}

theorem initial (all : List α) : Covered all all (fun _ : ι => none) :=
  fun _ ha => Or.inl ha

theorem take [DecidableEq ι] (covered : Covered all (a :: free) held) (hnone : held i = none) :
    Covered all free (Function.update held i (some a)) := by
  intro b hb
  rcases covered b hb with hfree | ⟨j, hj⟩
  · rcases List.mem_cons.mp hfree with rfl | hfree
    · exact Or.inr ⟨i, Function.update_self ..⟩
    · exact Or.inl hfree
  · have hne : j ≠ i := by
      rintro rfl
      rw [hnone] at hj
      cases hj
    exact Or.inr ⟨j, by rwa [Function.update_of_ne hne]⟩

theorem give [DecidableEq ι] (covered : Covered all free held) (hheld : held i = some a) :
    Covered all (free ++ [a]) (Function.update held i none) := by
  intro b hb
  rcases covered b hb with hfree | ⟨j, hj⟩
  · exact Or.inl (List.mem_append_left _ hfree)
  · by_cases hji : j = i
    · subst hji
      cases hheld.symm.trans hj
      exact Or.inl (List.mem_append_right _ List.mem_cons_self)
    · exact Or.inr ⟨j, by rwa [Function.update_of_ne hji]⟩

/-- What is free and what the clients hold make up the resources, each once. -/
theorem perm (covered : Covered all free held) (allotted : Allotted all free held)
    (hall : all.Nodup) {clients : List ι} (hnodup : clients.Nodup)
    (hclients : ∀ {i a}, held i = some a → i ∈ clients) :
    (free ++ clients.filterMap held).Perm all := by
  have hheld : (clients.filterMap held).Nodup :=
    List.Nodup.filterMap (fun i j a hi hj => allotted.held_inj hi hj) hnodup
  have hparts : (free ++ clients.filterMap held).Nodup := by
    refine List.nodup_append.mpr ⟨allotted.free_nodup, hheld, ?_⟩
    rintro b hb _ hb' rfl
    obtain ⟨i, -, hi⟩ := List.mem_filterMap.mp hb'
    exact allotted.held_notFree hi hb
  refine (List.perm_ext_iff_of_nodup hparts hall).mpr (fun b => ?_)
  rw [List.mem_append, List.mem_filterMap]
  constructor
  · rintro (hb | ⟨i, -, hi⟩)
    · exact allotted.free_subset b hb
    · exact allotted.held_mem hi
  · intro hb
    exact (covered b hb).imp_right (fun ⟨i, hi⟩ => ⟨i, hclients hi, hi⟩)

/-- A client without a resource finds a free one when there are enough for all clients. -/
theorem free_ne_nil (covered : Covered all free held) (allotted : Allotted all free held)
    (hall : all.Nodup) {clients : List ι} (hnodup : clients.Nodup)
    (hclients : ∀ {i a}, held i = some a → i ∈ clients)
    (henough : clients.length ≤ all.length) (hi : i ∈ clients) (hnone : held i = none) :
    free ≠ [] := by
  rintro rfl
  have hlength := (covered.perm allotted hall hnodup hclients).length_eq
  have hfewer : (clients.filterMap held).length < clients.length :=
    List.length_filterMap_lt_length_iff_exists.mpr ⟨i, hi, hnone⟩
  rw [List.nil_append] at hlength
  omega

end Covered

/-! Lists of resources, one for each client. -/

theorem sum_map_coe (clients : List ι) (held : ι → List α) :
    (clients.map (fun i => (held i : Multiset α))).sum = (clients.map held).flatten := by
  induction clients with
  | nil => rfl
  | cons i clients ih =>
      rw [List.map_cons, List.sum_cons, ih, List.map_cons, List.flatten_cons, Multiset.coe_add]

/-- What is dealt by rank in a list of clients. -/
theorem map_idxOf [DecidableEq ι] {clients : List ι} (hnodup : clients.Nodup) (dealt : Nat → α) :
    clients.map (fun i => dealt (clients.idxOf i)) = (List.range clients.length).map dealt := by
  apply List.ext_getElem
  · rw [List.length_map, List.length_map, List.length_range]
  · intro rank hrank hrank'
    rw [List.getElem_map, List.getElem_map, List.getElem_range, hnodup.idxOf_getElem]

end LladaHybrid.Library
