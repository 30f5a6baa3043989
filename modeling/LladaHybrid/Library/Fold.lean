import Mathlib.Data.List.Basic

namespace LladaHybrid.Library

/-! Loops that may raise: what a successful run of `foldlM` says about its steps. -/

universe u v

variable {ε : Type u} {σ : Type v} {α β κ : Type*}

theorem bind_eq_ok {τ : Type v} {x : Except ε σ} {f : σ → Except ε τ} {t : τ}
    (hok : x >>= f = .ok t) : ∃ s, x = .ok s ∧ f s = .ok t := by
  cases x with
  | error e => cases hok
  | ok s => exact ⟨s, rfl, hok⟩

theorem map_eq_ok {τ : Type v} {x : Except ε σ} {f : σ → τ} {t : τ} (hok : x.map f = .ok t) :
    ∃ s, x = .ok s ∧ f s = t := by
  cases x with
  | error e => cases hok
  | ok s => exact ⟨s, rfl, Except.ok.inj hok⟩

theorem eq_ok_of_toOption {x : Except ε σ} {s : σ} (hsome : x.toOption = some s) :
    x = .ok s := by
  cases x with
  | error e => cases hsome
  | ok t => exact congrArg _ (Option.some.inj hsome)

variable {step : σ → α → Except ε σ} {items : List α} {s t : σ}

/-- An invariant that may speak of the items still to come. -/
theorem foldlM_invariant_rest (inv : List α → σ → Prop)
    (hstep : ∀ a rest s s', inv (a :: rest) s → step s a = .ok s' → inv rest s')
    (hrun : items.foldlM step s = .ok t) (hinit : inv items s) : inv [] t := by
  induction items generalizing s with
  | nil =>
      cases hrun
      exact hinit
  | cons a items ih =>
      rw [List.foldlM_cons] at hrun
      obtain ⟨s', hfirst, hrest⟩ := bind_eq_ok hrun
      exact ih hrest (hstep a items s s' hinit hfirst)

theorem foldlM_invariant (inv : σ → Prop)
    (hstep : ∀ s a s', a ∈ items → step s a = .ok s' → inv s → inv s')
    (hrun : items.foldlM step s = .ok t) (hinit : inv s) : inv t := by
  refine (foldlM_invariant_rest (fun rest u => rest ⊆ items ∧ inv u) ?_ hrun
    ⟨List.Subset.refl items, hinit⟩).2
  rintro a rest u u' ⟨hsub, hinv⟩ hu
  obtain ⟨hmem, hrest⟩ := List.cons_subset.mp hsub
  exact ⟨hrest, hstep u a u' hmem hu hinv⟩

/-- Loops whose steps agree through `f`. -/
theorem foldlM_map {τ : Type v} {step' : τ → α → Except ε τ} (f : σ → τ)
    (hstep : ∀ s a, step' (f s) a = (step s a).map f) (items : List α) (s : σ) :
    items.foldlM step' (f s) = (items.foldlM step s).map f := by
  induction items generalizing s with
  | nil => rfl
  | cons a items ih =>
      rw [List.foldlM_cons, List.foldlM_cons, hstep]
      cases step s a with
      | error e => rfl
      | ok s' => exact ih s'

theorem foldlM_step_of_mem (hrun : items.foldlM step s = .ok t) {item : α} (hitem : item ∈ items) :
    ∃ s₁ s₂, step s₁ item = .ok s₂ := by
  induction items generalizing s with
  | nil => cases hitem
  | cons a items ih =>
      rw [List.foldlM_cons] at hrun
      obtain ⟨s', hfirst, hrest⟩ := bind_eq_ok hrun
      rcases List.mem_cons.mp hitem with rfl | hlater
      · exact ⟨s, s', hfirst⟩
      · exact ih hrest hlater

theorem foldlM_exists_ok (hstep : ∀ a ∈ items, ∀ s, ∃ s', step s a = .ok s') :
    ∃ t, items.foldlM step s = .ok t := by
  induction items generalizing s with
  | nil => exact ⟨s, rfl⟩
  | cons a items ih =>
      obtain ⟨s', hfirst⟩ := hstep a List.mem_cons_self s
      rw [List.foldlM_cons, hfirst]
      exact ih (fun b hb => hstep b (List.mem_cons_of_mem a hb))

/-- A loop whose invariant makes every step succeed does not raise. -/
theorem foldlM_exists_ok_rest (inv : List α → σ → Prop)
    (hstep : ∀ a rest s, inv (a :: rest) s → ∃ s', step s a = .ok s' ∧ inv rest s')
    (hinit : inv items s) : ∃ t, items.foldlM step s = .ok t := by
  induction items generalizing s with
  | nil => exact ⟨s, rfl⟩
  | cons a items ih =>
      obtain ⟨s', hfirst, hrest⟩ := hstep a items s hinit
      rw [List.foldlM_cons, hfirst]
      exact ih hrest

theorem foldlM_eq_foldl {next : σ → α → σ}
    (hstep : ∀ a ∈ items, ∀ s s', step s a = .ok s' → s' = next s a)
    (hrun : items.foldlM step s = .ok t) : t = items.foldl next s := by
  induction items generalizing s with
  | nil =>
      cases hrun
      rfl
  | cons a items ih =>
      rw [List.foldlM_cons] at hrun
      obtain ⟨s', hfirst, hrest⟩ := bind_eq_ok hrun
      cases hstep a List.mem_cons_self s s' hfirst
      exact ih (fun b hb => hstep b (List.mem_cons_of_mem a hb)) hrest

/-- A view that only one item of the loop changes is the one that item leaves. -/
theorem foldlM_once (view : σ → β) (key : α → κ) {item : α} (hitem : item ∈ items)
    (hnodup : (items.map key).Nodup)
    (hother : ∀ s a s', key a ≠ key item → step s a = .ok s' → view s' = view s)
    (hrun : items.foldlM step s = .ok t) :
    ∃ s₁ s₂, view s₁ = view s ∧ step s₁ item = .ok s₂ ∧ view t = view s₂ := by
  induction items generalizing s with
  | nil => cases hitem
  | cons a items ih =>
      rw [List.foldlM_cons] at hrun
      obtain ⟨s', hfirst, hrest⟩ := bind_eq_ok hrun
      rw [List.map_cons, List.nodup_cons] at hnodup
      rcases List.mem_cons.mp hitem with rfl | hlater
      · refine ⟨s, s', rfl, hfirst, ?_⟩
        refine foldlM_invariant (fun u => view u = view s') ?_ hrest rfl
        intro u b u' hb hu hview
        rw [← hview]
        apply hother u b u' _ hu
        intro hsame
        exact hnodup.1 (hsame ▸ List.mem_map_of_mem hb)
      · have hne : key a ≠ key item := by
          intro hsame
          exact hnodup.1 (hsame ▸ List.mem_map_of_mem hlater)
        obtain ⟨s₁, s₂, hview, hown, hend⟩ := ih hlater hnodup.2 hrest
        exact ⟨s₁, s₂, hview.trans (hother s a s' hne hfirst), hown, hend⟩

/-- The state a loop leaves, with the error that stopped it. -/
def foldUntil (step : σ → α → Except ε σ) : σ → List α → σ × Option ε
  | s, [] => (s, none)
  | s, a :: items =>
      match step s a with
      | .ok s' => foldUntil step s' items
      | .error e => (s, some e)

theorem foldUntil_of_ok (hrun : items.foldlM step s = .ok t) :
    foldUntil step s items = (t, none) := by
  induction items generalizing s with
  | nil =>
      cases hrun
      rfl
  | cons a items ih =>
      rw [List.foldlM_cons] at hrun
      obtain ⟨s', hfirst, hrest⟩ := bind_eq_ok hrun
      rw [foldUntil, hfirst]
      exact ih hrest

end LladaHybrid.Library
