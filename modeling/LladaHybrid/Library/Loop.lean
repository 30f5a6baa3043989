import Mathlib.Logic.Basic

namespace LladaHybrid.Library

/-! Loops of the form `for _ in range(n): if done: break; body`. -/

variable {σ τ : Type*}

def boundedLoop (done : σ → Bool) (body : σ → σ) : Nat → σ → σ
  | 0, s => s
  | n + 1, s => if done s then s else boundedLoop done body n (body s)

variable {done : σ → Bool} {body : σ → σ}

@[simp] theorem boundedLoop_zero (s : σ) : boundedLoop done body 0 s = s := rfl

theorem boundedLoop_succ (n : Nat) (s : σ) :
    boundedLoop done body (n + 1) s =
      if done s then s else boundedLoop done body n (body s) := rfl

theorem boundedLoop_of_done {s : σ} (hdone : done s = true) (n : Nat) :
    boundedLoop done body n s = s := by
  cases n with
  | zero => rfl
  | succ n => rw [boundedLoop_succ, if_pos hdone]

theorem boundedLoop_of_not_done {s : σ} (hdone : done s = false) (n : Nat) :
    boundedLoop done body (n + 1) s = boundedLoop done body n (body s) := by
  rw [boundedLoop_succ, hdone]
  rfl

/-- Every state from which the loop takes an iteration satisfies `P`. -/
def Throughout (done : σ → Bool) (body : σ → σ) (P : σ → Prop) : Nat → σ → Prop
  | 0, _ => True
  | n + 1, s => done s = true ∨ (P s ∧ Throughout done body P n (body s))

theorem throughout_counted {P : σ → Prop} (inv : Nat → σ → Prop) {n : Nat}
    (hbody : ∀ k s, inv k s → done s = false → inv (k + 1) (body s))
    (hP : ∀ k s, k < n → inv k s → P s)
    {k m : Nat} {s : σ} (hbound : k + m = n) (hinit : inv k s) :
    Throughout done body P m s := by
  induction m generalizing k s with
  | zero => trivial
  | succ m ih =>
      cases hdone : done s with
      | true => exact Or.inl hdone
      | false =>
          exact Or.inr ⟨hP k s (by omega) hinit, ih (by omega) (hbody k s hinit hdone)⟩

theorem throughout_of_forall {P : σ → Prop} (hP : ∀ s, P s) (n : Nat) (s : σ) :
    Throughout done body P n s :=
  throughout_counted (fun _ _ => True) (fun _ _ _ _ => trivial) (fun _ s _ _ => hP s)
    (Nat.zero_add n) trivial

theorem boundedLoop_counted_throughout (P : σ → Prop) (inv : Nat → σ → Prop)
    (hbody : ∀ k s, inv k s → P s → done s = false → inv (k + 1) (body s))
    {n k : Nat} {s : σ} (hrun : Throughout done body P n s) (hinit : inv k s) :
    ∃ j, inv j (boundedLoop done body n s) ∧
      (done (boundedLoop done body n s) = true ∨ j = k + n) := by
  induction n generalizing k s with
  | zero => exact ⟨k, hinit, Or.inr rfl⟩
  | succ n ih =>
      cases hdone : done s with
      | true =>
          rw [boundedLoop_of_done hdone]
          exact ⟨k, hinit, Or.inl hdone⟩
      | false =>
          rw [boundedLoop_of_not_done hdone]
          rcases hrun with hstopped | ⟨hP, hrest⟩
          · rw [hdone] at hstopped
            exact Bool.noConfusion hstopped
          · obtain ⟨j, hinv, hend⟩ := ih hrest (hbody k s hinit hP hdone)
            exact ⟨j, hinv, hend.imp_right (fun hj => hj.trans (by omega))⟩

theorem boundedLoop_counted (inv : Nat → σ → Prop)
    (hbody : ∀ k s, inv k s → done s = false → inv (k + 1) (body s))
    (n : Nat) {k : Nat} {s : σ} (hinit : inv k s) :
    ∃ j, inv j (boundedLoop done body n s) ∧
      (done (boundedLoop done body n s) = true ∨ j = k + n) :=
  boundedLoop_counted_throughout (fun _ => True) inv (fun k s hs _ => hbody k s hs)
    (throughout_of_forall (fun _ => trivial) n s) hinit

theorem boundedLoop_invariant (inv : σ → Prop)
    (hbody : ∀ s, inv s → done s = false → inv (body s))
    (n : Nat) {s : σ} (hinit : inv s) : inv (boundedLoop done body n s) := by
  obtain ⟨-, hinv, -⟩ := boundedLoop_counted (fun _ => inv) (fun _ => hbody) n (k := 0) hinit
  exact hinv

theorem boundedLoop_exhausts (inv : Nat → σ → Prop) {n : Nat}
    (hbody : ∀ k s, k < n → inv k s → done s = false ∧ inv (k + 1) (body s))
    {k m : Nat} {s : σ} (hbound : k + m = n) (hinit : inv k s) :
    inv n (boundedLoop done body m s) := by
  induction m generalizing k s with
  | zero =>
      rw [Nat.add_zero] at hbound
      exact hbound ▸ hinit
  | succ m ih =>
      obtain ⟨hdone, hnext⟩ := hbody k s (by omega) hinit
      rw [boundedLoop_of_not_done hdone]
      exact ih (by omega) hnext

section Related

variable {done' : τ → Bool} {body' : τ → τ}

/-- Two loops with one bound stay related when the first may only stop where the
second has stopped, and the second idles through the iterations it has left. The
relation may count the iterations that remain. -/
theorem boundedLoop_related_throughout (P : σ → Prop) (rel : Nat → σ → τ → Prop)
    (hdone : ∀ n s t, rel (n + 1) s t → done s = true → done' t = true)
    (hstep : ∀ n s t, rel (n + 1) s t → P s → done s = false → done' t = false →
      rel n (body s) (body' t))
    (hidle : ∀ n s t, rel (n + 1) s t → P s → done s = false → done' t = true →
      rel n (body s) t)
    {n : Nat} {s : σ} {t : τ} (hrun : Throughout done body P n s) (hinit : rel n s t) :
    ∃ k, rel k (boundedLoop done body n s) (boundedLoop done' body' n t) := by
  induction n generalizing s t with
  | zero => exact ⟨0, hinit⟩
  | succ n ih =>
      cases hs : done s with
      | true =>
          rw [boundedLoop_of_done hs, boundedLoop_of_done (hdone n s t hinit hs)]
          exact ⟨n + 1, hinit⟩
      | false =>
          rw [boundedLoop_of_not_done hs]
          rcases hrun with hstopped | ⟨hP, hrest⟩
          · rw [hs] at hstopped
            exact Bool.noConfusion hstopped
          · cases ht : done' t with
            | true =>
                have hkeep := ih hrest (hidle n s t hinit hP hs ht)
                rwa [boundedLoop_of_done ht] at hkeep ⊢
            | false =>
                rw [boundedLoop_of_not_done ht]
                exact ih hrest (hstep n s t hinit hP hs ht)

theorem boundedLoop_related (rel : σ → τ → Prop)
    (hdone : ∀ s t, rel s t → done s = true → done' t = true)
    (hstep : ∀ s t, rel s t → done s = false → done' t = false →
      rel (body s) (body' t))
    (hidle : ∀ s t, rel s t → done s = false → done' t = true → rel (body s) t)
    (n : Nat) {s : σ} {t : τ} (hinit : rel s t) :
    rel (boundedLoop done body n s) (boundedLoop done' body' n t) := by
  obtain ⟨-, hrel⟩ := boundedLoop_related_throughout (fun _ => True) (fun _ => rel)
    (fun _ => hdone) (fun _ s t h _ => hstep s t h) (fun _ s t h _ => hidle s t h)
    (throughout_of_forall (fun _ => trivial) n s) hinit
  exact hrel

theorem boundedLoop_map (f : σ → τ) (hdone : ∀ s, done' (f s) = done s)
    (hbody : ∀ s, f (body s) = body' (f s)) (n : Nat) (s : σ) :
    f (boundedLoop done body n s) = boundedLoop done' body' n (f s) := by
  refine boundedLoop_related (fun s t => f s = t) ?_ ?_ ?_ n rfl
  · rintro s t rfl hs
    rw [hdone, hs]
  · rintro s t rfl _ _
    exact hbody s
  · rintro s t rfl hs ht
    rw [hdone, hs] at ht
    exact Bool.noConfusion ht

end Related

/-- The bound does not show in an observation once it covers a measure of the
remaining work, when every iteration lowers the measure or is a last one that the
observation does not see. -/
theorem boundedLoop_bound_irrelevant {ω : Type*} (inv : σ → Prop) (measure : σ → Nat)
    (observe : σ → ω)
    (hbody : ∀ s, inv s → done s = false →
      (inv (body s) ∧ measure (body s) < measure s) ∨
        (done (body s) = true ∧ observe (body s) = observe s))
    {n m : Nat} {s : σ} (hinit : inv s) (hn : measure s ≤ n) (hm : measure s ≤ m) :
    observe (boundedLoop done body n s) = observe (boundedLoop done body m s) := by
  induction n generalizing s m with
  | zero =>
      cases hdone : done s with
      | true => rw [boundedLoop_of_done hdone, boundedLoop_of_done hdone]
      | false =>
          rcases hbody s hinit hdone with ⟨-, hless⟩ | ⟨hlast, hsame⟩
          · omega
          · cases m with
            | zero => rfl
            | succ m =>
                rw [boundedLoop_of_not_done hdone, boundedLoop_of_done hlast, hsame]
                rfl
  | succ n ih =>
      cases hdone : done s with
      | true => rw [boundedLoop_of_done hdone, boundedLoop_of_done hdone]
      | false =>
          rw [boundedLoop_of_not_done hdone]
          rcases hbody s hinit hdone with ⟨hnext, hless⟩ | ⟨hlast, hsame⟩
          · cases m with
            | zero => omega
            | succ m =>
                rw [boundedLoop_of_not_done hdone]
                exact ih hnext (by omega) (by omega)
          · rw [boundedLoop_of_done hlast, hsame]
            cases m with
            | zero => rfl
            | succ m =>
                rw [boundedLoop_of_not_done hdone, boundedLoop_of_done hlast, hsame]

end LladaHybrid.Library
