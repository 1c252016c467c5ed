import Mathlib.Data.List.Basic
import Mathlib.Order.Lattice

set_option autoImplicit false

/-! # Call trees

The call tree of a recursive computation: a node is an activation, labelled with its arguments, and
its children are the activations it makes, in the order they are made. A procedure whose only side
effect happens on entry performs its effects in the preorder of this tree, needs as many of them
as the tree has nodes, and nests as deep as the tree is high. -/

/-- A finite tree of activations: the label of the activation and the calls its body makes, in the
    order they are made. -/
inductive CallTree (α : Type*)
  | node (label : α) (children : List (CallTree α))

namespace CallTree

variable {α β : Type*}

mutual

/-- The labels of a tree in the order its activations are entered (the preorder of the tree). -/
def visits : CallTree α → List α
  | node a ts => a :: visitsAll ts

/-- `visits` over a list of sibling trees. -/
def visitsAll : List (CallTree α) → List α
  | [] => []
  | t :: ts => visits t ++ visitsAll ts

end

mutual

/-- The number of activations on a longest path from the root to a leaf. -/
def height : CallTree α → ℕ
  | node _ ts => heightAll ts + 1

/-- The height of the highest of a list of sibling trees; 0 when there are none. -/
def heightAll : List (CallTree α) → ℕ
  | [] => 0
  | t :: ts => max (height t) (heightAll ts)

end

mutual

/-- Relabel every activation. -/
def map (f : α → β) : CallTree α → CallTree β
  | node a ts => node (f a) (mapAll f ts)

/-- `map` over a list of sibling trees. -/
def mapAll (f : α → β) : List (CallTree α) → List (CallTree β)
  | [] => []
  | t :: ts => map f t :: mapAll f ts

end

/-! ## Small lemmas -/

@[simp] theorem visits_node (a : α) (ts : List (CallTree α)) :
    (node a ts).visits = a :: visitsAll ts := by
  rw [visits]

@[simp] theorem visitsAll_nil : visitsAll ([] : List (CallTree α)) = [] := by
  rw [visitsAll]

@[simp] theorem visitsAll_cons (t : CallTree α) (ts : List (CallTree α)) :
    visitsAll (t :: ts) = t.visits ++ visitsAll ts := by
  rw [visitsAll]

@[simp] theorem height_node (a : α) (ts : List (CallTree α)) :
    (node a ts).height = heightAll ts + 1 := by
  rw [height]

@[simp] theorem heightAll_nil : heightAll ([] : List (CallTree α)) = 0 := by
  rw [heightAll]

@[simp] theorem heightAll_cons (t : CallTree α) (ts : List (CallTree α)) :
    heightAll (t :: ts) = max t.height (heightAll ts) := by
  rw [heightAll]

@[simp] theorem map_node (f : α → β) (a : α) (ts : List (CallTree α)) :
    (node a ts).map f = node (f a) (mapAll f ts) := by
  rw [map]

@[simp] theorem mapAll_nil (f : α → β) : mapAll f ([] : List (CallTree α)) = [] := by
  rw [mapAll]

@[simp] theorem mapAll_cons (f : α → β) (t : CallTree α) (ts : List (CallTree α)) :
    mapAll f (t :: ts) = t.map f :: mapAll f ts := by
  rw [mapAll]

/-- The root is always visited. -/
theorem visits_ne_nil (t : CallTree α) : t.visits ≠ [] := by
  obtain ⟨a, ts⟩ := t
  simp

/-! ## Relabelling -/

mutual

/-- Relabelling relabels the visits and keeps their order. -/
theorem visits_map (f : α → β) : ∀ t : CallTree α, (t.map f).visits = t.visits.map f
  | node a ts => by
      rw [map_node, visits_node, visits_node, List.map_cons, visitsAll_map f ts]

theorem visitsAll_map (f : α → β) :
    ∀ ts : List (CallTree α), visitsAll (mapAll f ts) = (visitsAll ts).map f
  | [] => by simp
  | t :: ts => by
      rw [mapAll_cons, visitsAll_cons, visitsAll_cons, List.map_append,
        visits_map f t, visitsAll_map f ts]

end

mutual

/-- Relabelling keeps the height. -/
theorem height_map (f : α → β) : ∀ t : CallTree α, (t.map f).height = t.height
  | node a ts => by rw [map_node, height_node, height_node, heightAll_map f ts]

theorem heightAll_map (f : α → β) :
    ∀ ts : List (CallTree α), heightAll (mapAll f ts) = heightAll ts
  | [] => by simp
  | t :: ts => by
      rw [mapAll_cons, heightAll_cons, heightAll_cons, height_map f t,
        heightAll_map f ts]

end

end CallTree
