import Mathlib.Algebra.BigOperators.Group.Finset.Basic
import Mathlib.Algebra.BigOperators.Group.List.Basic
import Mathlib.Algebra.Ring.Defs

namespace LladaHybrid.Library

/-! Tensors of any rank, with slices, in-place copies, sums and matrix products. An
entry outside the shape is zero, so that tensors with the same entries are equal. -/

def inShape : List Nat → List Nat → Bool
  | [], [] => true
  | n :: shape, i :: index => decide (i < n) && inShape shape index
  | _, _ => false

@[ext] structure Tensor (K : Type*) [Zero K] where
  shape : List Nat
  entry : List Nat → K
  outside : ∀ index, inShape shape index = false → entry index = 0

namespace Tensor

variable {K : Type*}

section Zero

variable [Zero K]

def ofFn (shape : List Nat) (f : List Nat → K) : Tensor K where
  shape
  entry index := if inShape shape index then f index else 0
  outside index hout := by rw [hout]; rfl

@[simp] theorem shape_ofFn (shape : List Nat) (f : List Nat → K) :
    (ofFn shape f).shape = shape := rfl

theorem entry_ofFn {shape index : List Nat} (f : List Nat → K)
    (hin : inShape shape index = true) : (ofFn shape f).entry index = f index := by
  simp [ofFn, hin]

theorem ext_of_entries {t u : Tensor K} (hshape : t.shape = u.shape)
    (hentry : ∀ index, inShape t.shape index = true → t.entry index = u.entry index) :
    t = u := by
  apply Tensor.ext hshape
  funext index
  cases hin : inShape t.shape index with
  | true => exact hentry index hin
  | false => rw [t.outside index hin, u.outside index (hshape ▸ hin)]

/-- `t[start:stop]` along a dimension; the bounds are clamped. -/
def slice (t : Tensor K) (dim start stop : Nat) : Tensor K :=
  ofFn (t.shape.modify dim (fun n => min stop n - start))
    (fun index => t.entry (index.modify dim (start + ·)))

/-- `torch.narrow`, which raises on bounds outside the tensor. -/
def narrow (t : Tensor K) (dim start length : Nat) : Option (Tensor K) :=
  if dim < t.shape.length ∧ start + length ≤ t.shape.getD dim 0 then
    some (t.slice dim start (start + length))
  else
    none

/-- The copy of `u` into the rows of `t` that start at `start`. -/
def copyInto (t : Tensor K) (dim start : Nat) (u : Tensor K) : Tensor K :=
  ofFn t.shape (fun index =>
    if start ≤ index.getD dim 0 ∧ index.getD dim 0 < start + u.shape.getD dim 0 then
      u.entry (index.modify dim (· - start))
    else
      t.entry index)

def flatIndex : List Nat → List Nat → Nat
  | _ :: shape, i :: index => i * shape.prod + flatIndex shape index
  | _, _ => 0

def unflatten : List Nat → Nat → List Nat
  | [], _ => []
  | _ :: shape, k => k / shape.prod :: unflatten shape (k % shape.prod)

/-- `torch.reshape`, which keeps the row-major order of the entries. -/
def reshape (t : Tensor K) (shape : List Nat) : Option (Tensor K) :=
  if t.shape.prod = shape.prod then
    some (ofFn shape (fun index => t.entry (unflatten t.shape (flatIndex shape index))))
  else
    none

/-- `t.reshape(-1)`. -/
def flatten (t : Tensor K) : Tensor K :=
  ofFn [t.shape.prod] (fun index => t.entry (unflatten t.shape (flatIndex [t.shape.prod] index)))

theorem flatIndex_lt_prod {shape index : List Nat} (hin : inShape shape index = true) :
    flatIndex shape index < shape.prod := by
  induction shape generalizing index with
  | nil => exact Nat.one_pos
  | cons n shape ih =>
      cases index with
      | nil => cases hin
      | cons i index =>
          rw [inShape, Bool.and_eq_true, decide_eq_true_eq] at hin
          rw [flatIndex, List.prod_cons]
          calc
            i * shape.prod + flatIndex shape index < i * shape.prod + shape.prod :=
              Nat.add_lt_add_left (ih hin.2) _
            _ = (i + 1) * shape.prod := (Nat.succ_mul i shape.prod).symm
            _ ≤ n * shape.prod := Nat.mul_le_mul_right _ hin.1

theorem unflatten_flatIndex {shape index : List Nat} (hin : inShape shape index = true) :
    unflatten shape (flatIndex shape index) = index := by
  induction shape generalizing index with
  | nil =>
      cases index with
      | nil => rfl
      | cons i index => cases hin
  | cons n shape ih =>
      cases index with
      | nil => cases hin
      | cons i index =>
          rw [inShape, Bool.and_eq_true] at hin
          have hlt := flatIndex_lt_prod hin.2
          have hpos : 0 < shape.prod := Nat.zero_lt_of_lt hlt
          rw [flatIndex, unflatten, Nat.mul_comm i, Nat.mul_add_div hpos, Nat.div_eq_of_lt hlt,
            Nat.mul_add_mod, Nat.mod_eq_of_lt hlt, ih hin.2, Nat.add_zero]

theorem reshape_self (t : Tensor K) : t.reshape t.shape = some t := by
  rw [reshape, if_pos rfl]
  refine congrArg some (ext_of_entries rfl ?_)
  intro index hin
  rw [shape_ofFn] at hin
  rw [entry_ofFn _ hin, unflatten_flatIndex hin]

/-- Flattening a tensor does not change what it can be reshaped to. -/
theorem reshape_flatten (t : Tensor K) (shape : List Nat) :
    t.flatten.reshape shape = t.reshape shape := by
  have hprod : t.flatten.shape.prod = t.shape.prod := List.prod_singleton
  unfold reshape
  rw [hprod]
  split_ifs with hshape
  · refine congrArg some (ext_of_entries rfl ?_)
    intro index hin
    rw [shape_ofFn] at hin
    have hlt : flatIndex shape index < t.shape.prod := hshape ▸ flatIndex_lt_prod hin
    have hflat : unflatten t.flatten.shape (flatIndex shape index) = [flatIndex shape index] := by
      simp [flatten, unflatten]
    rw [entry_ofFn _ hin, entry_ofFn _ hin, hflat, flatten, entry_ofFn _ (by simpa [inShape])]
    simp [flatIndex]
  · rfl

end Zero

section Arithmetic

variable [NonUnitalNonAssocSemiring K]

def add (t u : Tensor K) : Tensor K :=
  ofFn t.shape (fun index => t.entry index + u.entry index)

def scale (c : K) (t : Tensor K) : Tensor K :=
  ofFn t.shape (fun index => c * t.entry index)

/-- `t @ u` for matrices; `none` where the sizes do not fit. -/
def matmul (t u : Tensor K) : Option (Tensor K) :=
  match t.shape, u.shape with
  | [rows, inner], [inner', cols] =>
      if inner = inner' then
        some (ofFn [rows, cols] (fun index =>
          ∑ m ∈ Finset.range inner,
            t.entry [index.getD 0 0, m] * u.entry [m, index.getD 1 0]))
      else
        none
  | _, _ => none

@[simp] theorem shape_add (t u : Tensor K) : (t.add u).shape = t.shape := rfl

@[simp] theorem shape_scale (c : K) (t : Tensor K) : (t.scale c).shape = t.shape := rfl

theorem entry_add {t u : Tensor K} (hshape : t.shape = u.shape) (index : List Nat) :
    (t.add u).entry index = t.entry index + u.entry index := by
  cases hin : inShape t.shape index with
  | true => exact entry_ofFn _ hin
  | false =>
      rw [(t.add u).outside index hin, t.outside index hin, u.outside index (hshape ▸ hin),
        add_zero]

theorem shape_matmul {t u product : Tensor K} {rows inner inner' cols : Nat}
    (ht : t.shape = [rows, inner]) (hu : u.shape = [inner', cols])
    (hproduct : t.matmul u = some product) : product.shape = [rows, cols] := by
  simp only [matmul, ht, hu] at hproduct
  split_ifs at hproduct
  cases hproduct
  rfl

end Arithmetic

/-! Matrices. -/

theorem inShape_matrix {rows cols : Nat} {index : List Nat} :
    inShape [rows, cols] index = true ↔ ∃ i j, index = [i, j] ∧ i < rows ∧ j < cols := by
  constructor
  · intro hin
    match index with
    | [] => cases hin
    | [_] => simp [inShape] at hin
    | [i, j] => exact ⟨i, j, rfl, by simpa [inShape] using hin⟩
    | _ :: _ :: _ :: _ => simp [inShape] at hin
  · rintro ⟨i, j, rfl, hi, hj⟩
    simp [inShape, hi, hj]

section Matrix

variable [Zero K] {t u : Tensor K} {rows cols : Nat}

theorem ext_matrix (ht : t.shape = [rows, cols]) (hu : u.shape = [rows, cols])
    (hentry : ∀ i < rows, ∀ j < cols, t.entry [i, j] = u.entry [i, j]) : t = u := by
  apply ext_of_entries (ht.trans hu.symm)
  intro index hin
  rw [ht] at hin
  obtain ⟨i, j, rfl, hi, hj⟩ := inShape_matrix.mp hin
  exact hentry i hi j hj

theorem entry_ofFn_matrix (f : List Nat → K) {i j : Nat} (hi : i < rows) (hj : j < cols) :
    (ofFn [rows, cols] f).entry [i, j] = f [i, j] :=
  entry_ofFn f (inShape_matrix.mpr ⟨i, j, rfl, hi, hj⟩)

theorem shape_slice_rows (ht : t.shape = [rows, cols]) (start stop : Nat) :
    (t.slice 0 start stop).shape = [min stop rows - start, cols] := by
  simp [slice, ht]

theorem entry_slice_rows (ht : t.shape = [rows, cols]) {start stop i j : Nat}
    (hi : i < min stop rows - start) (hj : j < cols) :
    (t.slice 0 start stop).entry [i, j] = t.entry [start + i, j] := by
  rw [slice, ht]
  exact entry_ofFn_matrix _ hi hj

theorem shape_slice_cols (ht : t.shape = [rows, cols]) (start stop : Nat) :
    (t.slice 1 start stop).shape = [rows, min stop cols - start] := by
  simp [slice, ht]

theorem entry_slice_cols (ht : t.shape = [rows, cols]) {start stop i j : Nat}
    (hi : i < rows) (hj : j < min stop cols - start) :
    (t.slice 1 start stop).entry [i, j] = t.entry [i, start + j] := by
  rw [slice, ht]
  exact entry_ofFn_matrix _ hi hj

theorem narrow_rows (ht : t.shape = [rows, cols]) {start length : Nat}
    (hle : start + length ≤ rows) :
    t.narrow 0 start length = some (t.slice 0 start (start + length)) := by
  rw [narrow, if_pos]
  simpa [ht] using hle

theorem narrow_cols (ht : t.shape = [rows, cols]) {start length : Nat}
    (hle : start + length ≤ cols) :
    t.narrow 1 start length = some (t.slice 1 start (start + length)) := by
  rw [narrow, if_pos]
  simpa [ht] using hle

theorem entry_copyInto_rows (ht : t.shape = [rows, cols]) {size : Nat}
    (hu : u.shape = [size, cols]) (start : Nat) {i j : Nat} (hi : i < rows) (hj : j < cols) :
    (t.copyInto 0 start u).entry [i, j] =
      if start ≤ i ∧ i < start + size then u.entry [i - start, j] else t.entry [i, j] := by
  rw [copyInto, ht, entry_ofFn_matrix _ hi hj]
  simp [hu]

end Matrix

theorem entry_add_matrix [NonUnitalNonAssocSemiring K] {t u : Tensor K} {rows cols i j : Nat}
    (ht : t.shape = [rows, cols]) (hi : i < rows) (hj : j < cols) :
    (t.add u).entry [i, j] = t.entry [i, j] + u.entry [i, j] := by
  rw [add, ht, entry_ofFn_matrix _ hi hj]

end Tensor

end LladaHybrid.Library
