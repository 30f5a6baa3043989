import Mathlib.Data.List.Basic
import Mathlib.Data.List.GetD
import Mathlib.Data.List.Nodup

namespace LladaHybrid.Library

/-! Dictionaries in the order of their insertions. -/

variable {κ β : Type*}

section Entries

variable [DecidableEq κ]

/-- `entries.setdefault(key, default)` followed by an assignment in that entry. -/
def upsert (default : β) (key : κ) (assign : β → β) : List (κ × β) → List (κ × β)
  | [] => [(key, assign default)]
  | entry :: entries =>
      if entry.1 = key then (key, assign entry.2) :: entries
      else entry :: upsert default key assign entries

variable {default : β} {key : κ} {assign : β → β}

theorem keys_upsert (entries : List (κ × β)) :
    (upsert default key assign entries).map Prod.fst =
      if key ∈ entries.map Prod.fst then entries.map Prod.fst
      else entries.map Prod.fst ++ [key] := by
  induction entries with
  | nil => rfl
  | cons entry entries ih =>
      by_cases hkey : entry.1 = key
      · simp [upsert, hkey]
      · rw [upsert, if_neg hkey, List.map_cons, ih, List.map_cons]
        by_cases hmem : key ∈ entries.map Prod.fst
        · rw [if_pos hmem, if_pos (List.mem_cons_of_mem _ hmem)]
        · rw [if_neg hmem, if_neg, List.cons_append]
          rintro hcons
          rcases List.mem_cons.mp hcons with hhead | htail
          · exact hkey hhead.symm
          · exact hmem htail

theorem nodup_upsert {entries : List (κ × β)} (hnodup : (entries.map Prod.fst).Nodup) :
    ((upsert default key assign entries).map Prod.fst).Nodup := by
  rw [keys_upsert]
  split_ifs with hmem
  · exact hnodup
  · exact hnodup.append (List.nodup_singleton key) (by simpa using hmem)

theorem upsert_of_notMem {entries : List (κ × β)} (hfresh : key ∉ entries.map Prod.fst) :
    upsert default key assign entries = entries ++ [(key, assign default)] := by
  induction entries with
  | nil => rfl
  | cons entry entries ih =>
      rw [List.map_cons, List.mem_cons, not_or] at hfresh
      rw [upsert, if_neg (Ne.symm hfresh.1), ih hfresh.2, List.cons_append]

variable [BEq κ] [LawfulBEq κ]

omit [DecidableEq κ] in
theorem lookup_cons_of_ne {other : κ} (hne : other ≠ key) (value : β) (entries : List (κ × β)) :
    ((key, value) :: entries).lookup other = entries.lookup other := by
  rw [List.lookup_cons, beq_eq_false_iff_ne.mpr hne]

omit [DecidableEq κ] in
theorem lookup_eq_some_of_mem {entries : List (κ × β)} {value : β}
    (hnodup : (entries.map Prod.fst).Nodup) (hmem : (key, value) ∈ entries) :
    entries.lookup key = some value := by
  obtain ⟨before, after, rfl⟩ := List.append_of_mem hmem
  rw [List.map_append, List.map_cons, List.nodup_append] at hnodup
  refine List.lookup_eq_some_iff.mpr ⟨before, after, rfl, ?_⟩
  intro entry hentry
  rw [bne_iff_ne]
  exact (hnodup.2.2 _ (List.mem_map_of_mem hentry) _ List.mem_cons_self).symm

omit [DecidableEq κ] in
theorem lookup_eq_none_of_notMem {entries : List (κ × β)} (hnot : key ∉ entries.map Prod.fst) :
    entries.lookup key = none := by
  rw [List.lookup_eq_none_iff]
  intro entry hentry
  rw [bne_iff_ne]
  rintro rfl
  exact hnot (List.mem_map_of_mem hentry)

theorem lookup_upsert (entries : List (κ × β)) (other : κ) :
    (upsert default key assign entries).lookup other =
      if other = key then some (assign ((entries.lookup key).getD default))
      else entries.lookup other := by
  induction entries with
  | nil =>
      by_cases hkey : other = key
      · rw [if_pos hkey, hkey, upsert, List.lookup_cons_self]
        rfl
      · rw [if_neg hkey, upsert, lookup_cons_of_ne hkey]
  | cons entry entries ih =>
      obtain ⟨first, value⟩ := entry
      by_cases hfirst : first = key
      · subst hfirst
        rw [upsert, if_pos rfl, List.lookup_cons_self]
        by_cases hother : other = first
        · rw [if_pos hother, hother, List.lookup_cons_self]
          rfl
        · rw [if_neg hother, lookup_cons_of_ne hother, lookup_cons_of_ne hother]
      · rw [upsert, if_neg hfirst, lookup_cons_of_ne (Ne.symm hfirst)]
        by_cases hother : other = first
        · rw [if_neg (hother ▸ hfirst), hother, List.lookup_cons_self, List.lookup_cons_self]
        · rw [lookup_cons_of_ne hother, lookup_cons_of_ne hother, ih]

end Entries

structure Dict (κ β : Type*) where
  entries : List (κ × β)
  nodup : (entries.map Prod.fst).Nodup

namespace Dict

def keys (dict : Dict κ β) : List κ := dict.entries.map Prod.fst

def empty : Dict κ β := ⟨[], List.nodup_nil⟩

variable [DecidableEq κ]

/-- `dict[key] = value`. -/
def set (dict : Dict κ β) (key : κ) (value : β) : Dict κ β where
  entries := upsert value key (fun _ => value) dict.entries
  nodup := nodup_upsert dict.nodup

/-- `dict.update(other)`. -/
def update (dict other : Dict κ β) : Dict κ β :=
  other.entries.foldl (fun dict entry => dict.set entry.1 entry.2) dict

theorem mem_keys_set {dict : Dict κ β} {key other : κ} {value : β} :
    other ∈ (dict.set key value).keys ↔ other ∈ dict.keys ∨ other = key := by
  rw [keys, set, keys_upsert]
  split_ifs with hmem
  · exact ⟨Or.inl, fun h => h.elim id (fun hkey => hkey ▸ hmem)⟩
  · rw [List.mem_append, List.mem_singleton]
    rfl

theorem entries_set {dict : Dict κ β} {key : κ} (hfresh : key ∉ dict.keys) (value : β) :
    (dict.set key value).entries = dict.entries ++ [(key, value)] :=
  upsert_of_notMem hfresh

/-- A loop that assigns keys that are new and distinct appends an entry for each. -/
theorem entries_foldl_set {α : Type*} (image : α → κ × β) {dict : Dict κ β} {items : List α}
    (hnodup : (dict.keys ++ items.map (fun item => (image item).1)).Nodup) :
    (items.foldl (fun dict item => dict.set (image item).1 (image item).2) dict).entries =
      dict.entries ++ items.map image := by
  induction items generalizing dict with
  | nil => simp
  | cons item items ih =>
      have hfresh : (image item).1 ∉ dict.keys := by
        intro hmem
        exact (List.nodup_append.mp hnodup).2.2 _ hmem _ List.mem_cons_self rfl
      have hset := entries_set hfresh (image item).2
      have hkeys : (dict.set (image item).1 (image item).2).keys =
          dict.keys ++ [(image item).1] := by
        rw [keys, hset, List.map_append]
        rfl
      rw [List.map_cons, List.append_cons, ← hkeys] at hnodup
      rw [List.foldl_cons, ih hnodup, hset, List.map_cons, ← List.append_cons]

/-- A loop that renames the entries of a dictionary without collisions keeps all of them. -/
theorem entries_renamed {κ' β' : Type*} (dict : Dict κ' β') (image : κ' × β' → κ × β)
    (hinj : ∀ entry ∈ dict.entries, ∀ other ∈ dict.entries,
      (image entry).1 = (image other).1 → entry.1 = other.1) :
    (dict.entries.foldl (fun out entry => out.set (image entry).1 (image entry).2) empty).entries =
      dict.entries.map image := by
  have hnodup : (dict.entries.map (fun entry => (image entry).1)).Nodup := by
    apply List.Nodup.map_on _ dict.nodup.of_map
    intro entry hentry other hother hsame
    exact List.inj_on_of_nodup_map dict.nodup hentry hother (hinj entry hentry other hother hsame)
  exact entries_foldl_set image hnodup

theorem entries_update {dict other : Dict κ β} (hnodup : (dict.keys ++ other.keys).Nodup) :
    (dict.update other).entries = dict.entries ++ other.entries := by
  have hset := entries_foldl_set id hnodup
  rwa [List.map_id] at hset

end Dict

/-! Entries with distinct keys, and those of two lists side by side. -/

section DistinctKeys

variable [DecidableEq κ]

theorem exists_of_nodup_keys {γ : Type*} [Inhabited γ] (f : κ × β → γ) {entries : List (κ × β)}
    (hnodup : (entries.map Prod.fst).Nodup) :
    ∃ g : κ → γ, ∀ entry ∈ entries, g entry.1 = f entry := by
  induction entries with
  | nil => exact ⟨fun _ => default, fun _ hentry => absurd hentry List.not_mem_nil⟩
  | cons entry rest ih =>
      rw [List.map_cons, List.nodup_cons] at hnodup
      obtain ⟨g, hg⟩ := ih hnodup.2
      refine ⟨Function.update g entry.1 (f entry), ?_⟩
      intro other hmem
      rcases List.mem_cons.mp hmem with rfl | hmem
      · exact Function.update_self ..
      · have hne : other.1 ≠ entry.1 := fun hsame => hnodup.1 (hsame ▸ List.mem_map_of_mem hmem)
        rw [Function.update_of_ne hne, hg other hmem]

variable {keys : List κ} {values : List β} {key : κ}

theorem mem_zip_idxOf (hkey : key ∈ keys) (default : β) (hlt : keys.idxOf key < values.length) :
    (key, values.getD (keys.idxOf key) default) ∈ keys.zip values := by
  have hidx := List.idxOf_lt_length_of_mem hkey
  refine List.mem_iff_getElem.mpr ⟨keys.idxOf key, by rw [List.length_zip]; omega, ?_⟩
  rw [List.getElem_zip, List.getElem_idxOf, List.getD_eq_getElem _ _ hlt]

theorem notMem_zip_keys (hnodup : keys.Nodup) (hge : values.length ≤ keys.idxOf key) :
    key ∉ (keys.zip values).map Prod.fst := by
  intro hmem
  obtain ⟨⟨first, value⟩, hentry, rfl⟩ := List.mem_map.mp hmem
  obtain ⟨i, hi, hget⟩ := List.mem_iff_getElem.mp hentry
  rw [List.length_zip] at hi
  rw [List.getElem_zip, Prod.mk.injEq] at hget
  have hidx : keys.idxOf first = i := by
    rw [← hget.1]
    exact List.Nodup.idxOf_getElem hnodup i (by omega)
  change values.length ≤ keys.idxOf first at hge
  omega

end DistinctKeys

end LladaHybrid.Library
