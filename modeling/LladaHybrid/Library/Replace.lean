import Mathlib.Data.List.Basic
import Mathlib.Data.List.Infix

namespace LladaHybrid.Library

/-! Replacement of every occurrence of a word in a text, from left to right and without
overlaps, and when it can be undone. -/

variable {α : Type*}

/-- The text from the `skip`-th symbol on, with `old` replaced by `new`. -/
def replaceFrom [DecidableEq α] (old new : List α) : Nat → List α → List α
  | _, [] => []
  | skip + 1, _ :: rest => replaceFrom old new skip rest
  | 0, symbol :: rest =>
      if old <+: symbol :: rest then new ++ replaceFrom old new (old.length - 1) rest
      else symbol :: replaceFrom old new 0 rest

/-- `text.replace(old, new)` for a word `old` that is not empty. -/
def replaceAll [DecidableEq α] (old new text : List α) : List α := replaceFrom old new 0 text

/-- The texts a scan from the left reads and writes. -/
inductive Replaces (old new : List α) : List α → List α → Prop
  | nil : Replaces old new [] []
  | occurrence {text image : List α} :
      Replaces old new text image → Replaces old new (old ++ text) (new ++ image)
  | symbol {symbol : α} {text image : List α} :
      ¬ old <+: symbol :: text → Replaces old new text image →
      Replaces old new (symbol :: text) (symbol :: image)

section Scan

variable [DecidableEq α] {old new : List α}

theorem replaceFrom_eq_drop (skip : Nat) (text : List α) :
    replaceFrom old new skip text = replaceAll old new (text.drop skip) := by
  induction text generalizing skip with
  | nil => cases skip <;> rfl
  | cons symbol text ih =>
      cases skip with
      | zero => rfl
      | succ skip => exact ih skip

theorem replaceAll_append (hold : old ≠ []) (text : List α) :
    replaceAll old new (old ++ text) = new ++ replaceAll old new text := by
  cases old with
  | nil => exact absurd rfl hold
  | cons symbol word =>
      have hfirst : symbol :: word <+: symbol :: (word ++ text) :=
        List.prefix_append (symbol :: word) text
      rw [replaceAll, List.cons_append, replaceFrom, if_pos hfirst, replaceFrom_eq_drop]
      simp

theorem replaceAll_cons {symbol : α} {text : List α} (hnone : ¬ old <+: symbol :: text) :
    replaceAll old new (symbol :: text) = symbol :: replaceAll old new text := by
  rw [replaceAll, replaceFrom, if_neg hnone]
  rfl

theorem Replaces.image_eq (hold : old ≠ []) {text image : List α}
    (h : Replaces old new text image) : image = replaceAll old new text := by
  induction h with
  | nil => rfl
  | occurrence _ ih => rw [replaceAll_append hold, ih]
  | symbol hnone _ ih => rw [replaceAll_cons hnone, ih]

theorem replaces_replaceAll (hold : old ≠ []) (text : List α) :
    Replaces old new text (replaceAll old new text) := by
  induction hlength : text.length using Nat.strong_induction_on generalizing text with
  | h length ih =>
      cases text with
      | nil => exact .nil
      | cons symbol text =>
          by_cases hfirst : old <+: symbol :: text
          · obtain ⟨rest, hrest⟩ := hfirst
            rw [← hrest, replaceAll_append hold]
            refine .occurrence (ih rest.length ?_ rest rfl)
            have hpos := List.length_pos_iff.mpr hold
            rw [← hlength, ← hrest, List.length_append]
            omega
          · rw [replaceAll_cons hfirst]
            refine .symbol hfirst (ih text.length ?_ text rfl)
            rw [← hlength]
            exact Nat.lt_succ_self _

end Scan

/-! Words between two delimiters. An occurrence can share a delimiter with its neighbours, and
nothing else, so that a scan for the new word finds exactly the places the first scan wrote. -/

def delimited (delimiter : α) (word : List α) : List α := delimiter :: (word ++ [delimiter])

section Delimited

variable {d : α} {word other text image : List α}

theorem delimited_ne_nil : delimited d word ≠ [] := List.cons_ne_nil _ _

theorem getLast?_delimited : (delimited d word).getLast? = some d := by
  simp [delimited, List.getLast?_cons]

/-- A segment that ends at the next delimiter is copied, never written. -/
theorem Replaces.isPrefix_of_image {segment : List α} (hsegment : d ∉ segment)
    (h : Replaces (delimited d word) (delimited d other) text image)
    (hfirst : segment ++ [d] <+: image) : segment ++ [d] <+: text := by
  induction segment generalizing text image with
  | nil =>
      cases h with
      | nil => exact hfirst
      | occurrence _ => simp [delimited]
      | symbol _ _ => simpa using hfirst
  | cons symbol segment ih =>
      rw [List.mem_cons, not_or] at hsegment
      cases h with
      | nil => exact hfirst
      | occurrence _ =>
          simp only [delimited, List.cons_append, List.cons_prefix_cons] at hfirst
          exact absurd hfirst.1.symm hsegment.1
      | symbol _ h =>
          simp only [List.cons_append, List.cons_prefix_cons] at hfirst ⊢
          exact ⟨hfirst.1, ih hsegment.2 h hfirst.2⟩

/-- Replacing the new word by the old one undoes a replacement in a text without it. -/
theorem Replaces.symm (hother : d ∉ other)
    (h : Replaces (delimited d word) (delimited d other) text image)
    (hnew : ¬ delimited d other <:+: text) :
    Replaces (delimited d other) (delimited d word) image text := by
  induction h with
  | nil => exact .nil
  | @occurrence text image h ih =>
      apply Replaces.occurrence
      apply ih
      intro hinside
      exact hnew (hinside.trans (List.suffix_append _ text).isInfix)
  | @symbol symbol text image _ h ih =>
      apply Replaces.symbol
      · intro hfirst
        apply hnew
        rw [delimited, List.cons_prefix_cons] at hfirst
        have hcopied := h.isPrefix_of_image hother hfirst.2
        exact (List.cons_prefix_cons.mpr ⟨hfirst.1, hcopied⟩).isInfix
      · apply ih
        intro hinside
        exact hnew (hinside.trans (List.suffix_cons symbol text).isInfix)

theorem Replaces.getLast?_image {old new : List α} (hlast : old.getLast? = new.getLast?)
    (h : Replaces old new text image) : image.getLast? = text.getLast? := by
  induction h with
  | nil => rfl
  | occurrence _ ih => simp only [List.getLast?_append, ih, hlast]
  | symbol _ _ ih => simp only [List.getLast?_cons, ih]

theorem Replaces.refl {old new : List α} (hd : d ∈ old) (htext : d ∉ text) :
    Replaces old new text text := by
  induction text with
  | nil => exact .nil
  | cons symbol text ih =>
      refine .symbol ?_ (ih (List.not_mem_of_not_mem_cons htext))
      intro hfirst
      exact htext (hfirst.subset hd)

/-- What follows the last delimiter is copied. -/
theorem Replaces.append {new tail : List α} (htail : d ∉ tail)
    (h : Replaces (delimited d word) new text image) :
    Replaces (delimited d word) new (text ++ tail) (image ++ tail) := by
  induction h with
  | nil => exact .refl List.mem_cons_self htail
  | occurrence _ ih =>
      simp only [List.append_assoc]
      exact .occurrence ih
  | @symbol symbol text image hnone _ ih =>
      refine .symbol ?_ ih
      intro hfirst
      obtain ⟨rest, hrest⟩ : delimited d word <+: (symbol :: text) ++ tail := hfirst
      rcases List.append_eq_append_iff.mp hrest with ⟨between, htext, -⟩ | ⟨between, hword, hsplit⟩
      · exact hnone ⟨between, htext.symm⟩
      · -- an occurrence across the border would end at a delimiter of the tail
        cases hbetween : between.getLast? with
        | none =>
            rw [List.getLast?_eq_none_iff] at hbetween
            rw [hbetween, List.append_nil] at hword
            exact hnone (hword ▸ List.prefix_rfl)
        | some last =>
            have hlast := congrArg List.getLast? hword
            rw [getLast?_delimited, List.getLast?_append, hbetween] at hlast
            cases hlast
            apply htail
            rw [hsplit]
            exact List.mem_append_left rest (List.mem_of_getLast? hbetween)

variable [DecidableEq α]

theorem replaceAll_replaceAll (word : List α) (hother : d ∉ other)
    (hnew : ¬ delimited d other <:+: text) :
    replaceAll (delimited d other) (delimited d word)
      (replaceAll (delimited d word) (delimited d other) text) = text := by
  have hscan : Replaces (delimited d word) (delimited d other) text _ :=
    replaces_replaceAll delimited_ne_nil text
  exact ((hscan.symm hother hnew).image_eq delimited_ne_nil).symm

theorem replaceAll_inj (hother : d ∉ other) {text' : List α}
    (hnew : ¬ delimited d other <:+: text) (hnew' : ¬ delimited d other <:+: text')
    (hsame : replaceAll (delimited d word) (delimited d other) text =
      replaceAll (delimited d word) (delimited d other) text') : text = text' := by
  rw [← replaceAll_replaceAll word hother hnew, hsame, replaceAll_replaceAll word hother hnew']

theorem isSuffix_replaceAll {tail : List α} (htail : d ∉ tail) (hends : d :: tail <:+ text) :
    d :: tail <:+ replaceAll (delimited d word) (delimited d other) text := by
  obtain ⟨before, rfl⟩ := hends
  have hscan : Replaces (delimited d word) (delimited d other) (before ++ [d]) _ :=
    replaces_replaceAll delimited_ne_nil _
  have himage := (hscan.append htail).image_eq delimited_ne_nil
  have hlast := hscan.getLast?_image (getLast?_delimited.trans getLast?_delimited.symm)
  rw [List.getLast?_append, List.getLast?_singleton, Option.some_or] at hlast
  obtain ⟨start, hstart⟩ := List.getLast?_eq_some_iff.mp hlast
  rw [List.append_cons, ← himage, hstart, List.append_assoc]
  exact List.suffix_append start (d :: tail)

theorem isSuffix_replaceAll_iff {tail : List α} (htail : d ∉ tail) (hother : d ∉ other)
    (hnew : ¬ delimited d other <:+: text) :
    d :: tail <:+ replaceAll (delimited d word) (delimited d other) text ↔ d :: tail <:+ text := by
  constructor
  · intro hends
    rw [← replaceAll_replaceAll word hother hnew]
    exact isSuffix_replaceAll htail hends
  · exact isSuffix_replaceAll htail

end Delimited

end LladaHybrid.Library
