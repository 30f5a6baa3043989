import Mathlib.Data.List.Basic
import Mathlib.Logic.Function.Basic

namespace LladaHybrid.Library

/-! Radix trees: a node carries a run of symbols, one value per symbol, and its children
by their first symbol. -/

inductive RadixNode (α β : Type*)
  | mk (key : List α) (value : List β) (children : α → Option (RadixNode α β))

abbrev RadixTree (α β : Type*) := α → Option (RadixNode α β)

variable {α β : Type*}

namespace RadixNode

def key : RadixNode α β → List α
  | .mk key _ _ => key

def value : RadixNode α β → List β
  | .mk _ value _ => value

def children : RadixNode α β → RadixTree α β
  | .mk _ _ children => children

end RadixNode

inductive Stores (good : β → Prop) : RadixTree α β → Prop
  | intro {tree : RadixTree α β}
      (values : ∀ symbol child, tree symbol = some child → ∀ v ∈ child.value, good v)
      (below : ∀ symbol child, tree symbol = some child → Stores good child.children) :
      Stores good tree

/-- Leaves were removed, or the far ends of leaves. -/
inductive Pruned : RadixTree α β → RadixTree α β → Prop
  | intro {tree pruned : RadixTree α β}
      (stored : ∀ symbol kept, pruned symbol = some kept →
        ∃ child length, tree symbol = some child ∧ kept.key = child.key.take length ∧
          kept.value = child.value.take length ∧
          (length < child.key.length → ∀ other, kept.children other = none))
      (below : ∀ symbol child kept, tree symbol = some child → pruned symbol = some kept →
        Pruned child.children kept.children) :
      Pruned tree pruned

variable [DecidableEq α]

def keyMatch : List α → List α → Nat
  | a :: as, b :: bs => if a = b then keyMatch as bs + 1 else 0
  | _, _ => 0

namespace RadixTree

def empty : RadixTree α β := fun _ => none

/-- The values of the longest stored start of a key; every step takes a symbol off it, so
its length bounds the steps. -/
def matchFrom : Nat → RadixTree α β → List α → List β
  | fuel + 1, tree, symbol :: rest =>
      match tree symbol with
      | none => []
      | some child =>
          let length := keyMatch child.key (symbol :: rest)
          if length < child.key.length then child.value.take length
          else child.value ++ matchFrom fuel child.children ((symbol :: rest).drop length)
  | _, _, _ => []

def matchPrefix (tree : RadixTree α β) (key : List α) : List β :=
  matchFrom key.length tree key

/-- The first symbols of a node, above the node of the others. -/
def splitNode (node : RadixNode α β) (length : Nat) : RadixNode α β :=
  .mk (node.key.take length) (node.value.take length) (fun symbol =>
    if (node.key.drop length).head? = some symbol then
      some (.mk (node.key.drop length) (node.value.drop length) node.children)
    else
      none)

def insertFrom : Nat → RadixTree α β → List α → List β → RadixTree α β
  | fuel + 1, tree, symbol :: rest, value =>
      match tree symbol with
      | none => Function.update tree symbol (some (.mk (symbol :: rest) value empty))
      | some child =>
          let length := keyMatch child.key (symbol :: rest)
          let node := if length < child.key.length then splitNode child length else child
          Function.update tree symbol (some (.mk node.key node.value
            (insertFrom fuel node.children ((symbol :: rest).drop length)
              (value.drop length))))
  | _, tree, _, _ => tree

def insert (tree : RadixTree α β) (key : List α) (value : List β) : RadixTree α β :=
  insertFrom key.length tree key value

end RadixTree

/-! What a tree stores. -/

section Stores

variable {good : β → Prop} {tree : RadixTree α β}

omit [DecidableEq α] in
theorem Stores.values {symbol : α} {child : RadixNode α β} (stores : Stores good tree)
    (hchild : tree symbol = some child) : ∀ v ∈ child.value, good v := by
  obtain ⟨values, -⟩ := stores
  exact values symbol child hchild

omit [DecidableEq α] in
theorem Stores.children {symbol : α} {child : RadixNode α β} (stores : Stores good tree)
    (hchild : tree symbol = some child) : Stores good child.children := by
  obtain ⟨-, below⟩ := stores
  exact below symbol child hchild

omit [DecidableEq α] in
theorem Stores.empty : Stores good (RadixTree.empty : RadixTree α β) := by
  refine ⟨?_, ?_⟩ <;> intro symbol child hchild <;> cases hchild

omit [DecidableEq α] in
theorem Stores.pruned {pruned : RadixTree α β} (stores : Stores good tree)
    (hpruned : Pruned tree pruned) : Stores good pruned := by
  induction hpruned with
  | intro stored below ih =>
      refine ⟨?_, ?_⟩
      · intro symbol kept hkept v hv
        obtain ⟨child, length, hchild, -, hvalue, -⟩ := stored symbol kept hkept
        rw [hvalue] at hv
        exact stores.values hchild v (List.mem_of_mem_take hv)
      · intro symbol kept hkept
        obtain ⟨child, -, hchild, -⟩ := stored symbol kept hkept
        exact ih symbol child kept hchild hkept (stores.children hchild)

theorem Stores.update (stores : Stores good tree) {symbol : α} {node : RadixNode α β}
    (values : ∀ v ∈ node.value, good v) (below : Stores good node.children) :
    Stores good (Function.update tree symbol (some node)) := by
  refine ⟨?_, ?_⟩
  · intro symbol' child hchild
    by_cases hsame : symbol' = symbol
    · rw [hsame, Function.update_self] at hchild
      cases hchild
      exact values
    · rw [Function.update_of_ne hsame] at hchild
      exact stores.values hchild
  · intro symbol' child hchild
    by_cases hsame : symbol' = symbol
    · rw [hsame, Function.update_self] at hchild
      cases hchild
      exact below
    · rw [Function.update_of_ne hsame] at hchild
      exact stores.children hchild

theorem Stores.splitNode {node : RadixNode α β} (length : Nat)
    (values : ∀ v ∈ node.value, good v) (below : Stores good node.children) :
    (∀ v ∈ (RadixTree.splitNode node length).value, good v) ∧
      Stores good (RadixTree.splitNode node length).children := by
  refine ⟨fun v hv => values v (List.mem_of_mem_take hv), ?_, ?_⟩
  · intro symbol child hchild v hv
    rw [RadixTree.splitNode, RadixNode.children, ite_eq_iff] at hchild
    obtain ⟨-, hchild⟩ | ⟨-, hchild⟩ := hchild <;> cases hchild
    exact values v (List.mem_of_mem_drop hv)
  · intro symbol child hchild
    rw [RadixTree.splitNode, RadixNode.children, ite_eq_iff] at hchild
    obtain ⟨-, hchild⟩ | ⟨-, hchild⟩ := hchild <;> cases hchild
    exact below

theorem Stores.insertFrom {fuel : Nat} {key : List α} {value : List β}
    (stores : Stores good tree) (hgood : ∀ v ∈ value, good v) :
    Stores good (RadixTree.insertFrom fuel tree key value) := by
  induction fuel generalizing tree key value with
  | zero => exact stores
  | succ fuel ih =>
      cases key with
      | nil => exact stores
      | cons symbol rest =>
          rw [RadixTree.insertFrom]
          cases hchild : tree symbol with
          | none => exact stores.update hgood .empty
          | some child =>
              have hdrop : ∀ v ∈ value.drop (keyMatch child.key (symbol :: rest)), good v :=
                fun v hv => hgood v (List.mem_of_mem_drop hv)
              dsimp only
              split_ifs
              · obtain ⟨values, below⟩ :=
                  Stores.splitNode _ (stores.values hchild) (stores.children hchild)
                exact stores.update values (ih below hdrop)
              · exact stores.update (fun v hv => stores.values hchild v hv)
                  (ih (stores.children hchild) hdrop)

theorem Stores.matchFrom {fuel : Nat} {key : List α} (stores : Stores good tree) :
    ∀ v ∈ RadixTree.matchFrom fuel tree key, good v := by
  induction fuel generalizing tree key with
  | zero => exact List.forall_mem_nil _
  | succ fuel ih =>
      cases key with
      | nil => exact List.forall_mem_nil _
      | cons symbol rest =>
          rw [RadixTree.matchFrom]
          cases hchild : tree symbol with
          | none => exact List.forall_mem_nil _
          | some child =>
              intro v hv
              dsimp only at hv
              split_ifs at hv
              · exact stores.values hchild v (List.mem_of_mem_take hv)
              · rcases List.mem_append.mp hv with hv | hv
                · exact stores.values hchild v hv
                · exact ih (stores.children hchild) v hv

end Stores

end LladaHybrid.Library
