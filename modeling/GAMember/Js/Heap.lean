import Mathlib.Data.List.Basic

/-!
# Objects with identity

Where code mutates an object that others may hold, the object is a cell of a
heap and is passed on as a reference. References are numbers below the size of
the heap, so the size is the next one to be allocated, and no lemma about old
references needs more than that bound.
-/

namespace GAMember

abbrev Ref := Nat

/-- The objects that exist, in the order they were made. -/
structure Heap (α : Type) where
  cells : List α
  deriving DecidableEq

namespace Heap

variable {α : Type}

def size (heap : Heap α) : Nat := heap.cells.length

/-- The content of an object. -/
def get? (heap : Heap α) (r : Ref) : Option α := heap.cells[r]?

/-- Make an object; its reference is the size the heap had before. -/
def alloc (heap : Heap α) (content : α) : Heap α := ⟨heap.cells ++ [content]⟩

/-- Mutate an object. -/
def set (heap : Heap α) (r : Ref) (content : α) : Heap α := ⟨heap.cells.set r content⟩

variable {heap : Heap α} {r r' : Ref} {a b : α}

@[simp] theorem size_alloc : (heap.alloc a).size = heap.size + 1 := by
  simp [size, alloc]

@[simp] theorem size_set : (heap.set r a).size = heap.size := by
  simp [size, set]

theorem lt_size (here : heap.get? r = some a) : r < heap.size :=
  (List.getElem?_eq_some_iff.mp here).1

@[simp] theorem get?_alloc_self : (heap.alloc a).get? heap.size = some a := by
  simp [get?, alloc, size]

theorem get?_alloc_of_lt (old : r < heap.size) : (heap.alloc a).get? r = heap.get? r :=
  List.getElem?_append_left old

/-- What is there is there after an allocation. -/
theorem get?_alloc (here : heap.get? r = some b) : (heap.alloc a).get? r = some b := by
  rw [get?_alloc_of_lt (lt_size here), here]

/-- An object after an allocation is an old one, or the new one. -/
theorem get?_alloc_eq_some (here : (heap.alloc a).get? r = some b) :
    heap.get? r = some b ∨ (r = heap.size ∧ b = a) := by
  by_cases old : r < heap.size
  · exact Or.inl ((get?_alloc_of_lt old).symm.trans here)
  · have last := lt_size here
    rw [size_alloc] at last
    have same : r = heap.size := Nat.le_antisymm (Nat.le_of_lt_succ last) (Nat.not_lt.mp old)
    subst same
    rw [get?_alloc_self] at here
    exact Or.inr ⟨rfl, (Option.some.inj here).symm⟩

theorem get?_set_self (old : r < heap.size) : (heap.set r a).get? r = some a :=
  List.getElem?_set_self old

theorem get?_set_of_ne (ne : r ≠ r') : (heap.set r a).get? r' = heap.get? r' :=
  List.getElem?_set_ne ne

theorem set_alloc (old : r < heap.size) : (heap.alloc a).set r b = (heap.set r b).alloc a :=
  congrArg Heap.mk (List.set_append_left r b old)

/-- An object after a mutation is the mutated one, or an old one. -/
theorem get?_set_eq_some (here : (heap.set r a).get? r' = some b) :
    (r = r' ∧ b = a) ∨ (r ≠ r' ∧ heap.get? r' = some b) := by
  by_cases same : r = r'
  · subst same
    have old := lt_size here
    rw [size_set] at old
    rw [get?_set_self old] at here
    exact Or.inl ⟨rfl, (Option.some.inj here).symm⟩
  · exact Or.inr ⟨same, (get?_set_of_ne same).symm.trans here⟩

end Heap

end GAMember
