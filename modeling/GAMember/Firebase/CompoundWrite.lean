import GAMember.Firebase.ImmutableTree

/-!
# Writes at several paths

An `FCompoundWrite` is a tree of nodes: the value at a path is a node that is to
replace whatever is there. It is applied to a node child by child, in the order
of the keys and priorities last, whatever the order in which the writes were
added.

`completeNodeAtPath` is what the write says about a path. Applied to a node
without priorities, a compound write to which a write is added does what the
compound write does and then the write (`applyToNode_addWrite`), unless the write
goes below a leaf of the node.
-/

namespace GAMember

/-- The `writeTree` of a compound write. -/
abbrev FCompoundWrite (α : Type) [Keys] : Type := FImmutableTree (FNode α)

variable [Keys] {α : Type}

namespace FCompoundWrite

open FImmutableTree (node)

/-! ## The methods -/

def emptyWrite : FCompoundWrite α := FImmutableTree.initWithValue none

def addWrite (self : FCompoundWrite α) (node : FNode α) (path : FPath) : FCompoundWrite α :=
  if path.isEmpty then FImmutableTree.initWithValue (some node)
  else
    match self.findRootMostValueAndPath path with
    | some rootMost =>
        let relativePath := FPath.relativePath rootMost.1 path
        let value := rootMost.2.updateChild relativePath node
        self.setValue (some value) rootMost.1
    | none => self.setTree (FImmutableTree.initWithValue (some node)) path

def addCompoundWrite (self compoundWrite : FCompoundWrite α) (path : FPath) : FCompoundWrite α :=
  compoundWrite.forEach.foldl
    (fun newWrite child => addWrite newWrite child.2 (path.child child.1)) self

/-- Also removes the writes at deeper paths, but not one at a higher path. -/
def removeWriteAtPath (self : FCompoundWrite α) (path : FPath) : FCompoundWrite α :=
  if path.isEmpty then emptyWrite else self.setTree FImmutableTree.empty path

def completeNodeAtPath (self : FCompoundWrite α) (path : FPath) : Option (FNode α) :=
  (self.findRootMostValueAndPath path).map fun rootMost =>
    rootMost.2.getChild (FPath.relativePath rootMost.1 path)

def hasCompleteWriteAtPath (self : FCompoundWrite α) (path : FPath) : Bool :=
  (completeNodeAtPath self path).isSome

def childCompoundWriteAtPath (self : FCompoundWrite α) (path : FPath) : FCompoundWrite α :=
  if path.isEmpty then self
  else
    match completeNodeAtPath self path with
    | some shadowingNode => FImmutableTree.initWithValue (some shadowingNode)
    | none => self.subtreeAtPath path

mutual

def applySubtreeWrite (relativePath : FPath) : FImmutableTree (FNode α) → FNode α → FNode α
  | node (some value) _, n => n.updateChild relativePath value
  | node none children, n =>
      match applyChildren relativePath children n none with
      | (blockNode, some priorityWrite) =>
          -- If there was a priority write, we only apply it if the node is not empty
          if (blockNode.getChild relativePath).isEmpty then blockNode
          else blockNode.updateChild (relativePath.childFromString .priority) priorityWrite
      | (blockNode, none) => blockNode

/-- The block with its two variables, `blockNode` and `priorityWrite`. -/
def applyChildren (relativePath : FPath) :
    List (Piece × FImmutableTree (FNode α)) → FNode α → Option (FNode α) →
      FNode α × Option (FNode α)
  | [], blockNode, priorityWrite => (blockNode, priorityWrite)
  | (childKey, childTree) :: rest, blockNode, priorityWrite =>
      if childKey = .priority then
        applyChildren relativePath rest blockNode childTree.value
      else
        applyChildren relativePath rest
          (applySubtreeWrite (relativePath.childFromString childKey) childTree blockNode)
          priorityWrite

end

def applyToNode (self : FCompoundWrite α) (n : FNode α) : FNode α := applySubtreeWrite [] self n

variable {w w' t t' : FCompoundWrite α} {n x y v : FNode α} {k l : Piece} {p q r : FPath}
  {cs : List (Piece × FImmutableTree (FNode α))}

/-! ## Adding a write, level by level -/

theorem addWrite_nil : addWrite w x [] = node (some x) [] := rfl

theorem addWrite_value : addWrite (node (some v) []) x p = node (some (v.updateChild p x)) [] := by
  cases p with
  | nil => rfl
  | cons k p =>
      rw [addWrite, if_neg (by simp), FImmutableTree.findRootMostValueAndPath_value]
      rfl

theorem setTree_not_isEmpty (some : t.isEmpty = false) : (w.setTree t p).isEmpty = false := by
  induction p generalizing w with
  | nil => exact some
  | cons k p ih =>
      rw [FImmutableTree.setTree_cons]
      exact FImmutableTree.isEmpty_withChild ih

theorem addWrite_not_isEmpty : (addWrite w x p).isEmpty = false := by
  unfold addWrite
  split
  · rfl
  · split
    · rename_i rootMost _
      cases rootMost.1 with
      | nil => rfl
      | cons k path =>
          have put : (Table.put stringOrder k ((w.childTree k).setValue
              (some (rootMost.2.updateChild (FPath.relativePath (k :: path) p) x)) path)
              w.children).isEmpty = false := by
            rw [← Bool.not_eq_true, List.isEmpty_iff]
            exact Table.put_ne_nil
          exact (congrArg (_ && ·) put).trans (Bool.and_false _)
    · exact setTree_not_isEmpty rfl

theorem addWrite_cons (canonical : w.Canonical) (inner : w.value = none) :
    addWrite w x (k :: p) = w.withChild k (addWrite (w.childTree k) x p) := by
  have canonical' := canonical.childTree (k := k)
  rw [FImmutableTree.withChild, addWrite_not_isEmpty, addWrite, if_neg (by simp),
    FImmutableTree.findRootMostValueAndPath_cons inner]
  cases found : (w.childTree k).findRootMostValueAndPath p with
  | none =>
      have tree : addWrite (w.childTree k) x p =
          (w.childTree k).setTree (FImmutableTree.initWithValue (some x)) p := by
        cases p with
        | nil => rfl
        | cons l p => rw [addWrite, if_neg (by simp), found]
      have added := @addWrite_not_isEmpty _ _ (w.childTree k) x p
      rw [tree] at added ⊢
      dsimp only [Option.map_none]
      rw [FImmutableTree.setTree_cons, FImmutableTree.withChild, added]
  | some rootMost =>
      cases p with
      | cons l p =>
          rw [addWrite, if_neg (by simp), found]
          simp only [Option.map_some, FPath.relativePath_cons]
          rfl
      | nil =>
          -- A write at the very place of the child's value leaves no children to keep.
          rcases canonical'.cases_value with ⟨v, shape⟩ | inner'
          · rw [shape, FImmutableTree.findRootMostValueAndPath_value] at found
            cases found
            simp only [Option.map_some, FPath.relativePath_cons]
            rw [FImmutableTree.setValue, shape]
            rfl
          · simp [FImmutableTree.findRootMostValueAndPath,
              FImmutableTree.findRootMostMatchingPath, inner'] at found

theorem canonical_emptyWrite : FImmutableTree.Canonical (emptyWrite : FCompoundWrite α) :=
  FImmutableTree.canonical_empty

theorem canonical_addWrite (canonical : w.Canonical) : (addWrite w x p).Canonical := by
  induction p generalizing w with
  | nil => exact .value x
  | cons k p ih =>
      rcases canonical.cases_value with ⟨v, rfl⟩ | inner
      · rw [addWrite_value]
        exact .value _
      · rw [addWrite_cons canonical inner]
        exact canonical.withChild (ih canonical.childTree) inner

/-! ## What a write says about a path -/

theorem complete_value : completeNodeAtPath (node (some v) cs) q = some (v.getChild q) := by
  rw [completeNodeAtPath, FImmutableTree.findRootMostValueAndPath_value]
  rfl

theorem complete_nil : completeNodeAtPath w [] = w.value := by
  cases w with
  | node value cs =>
      cases value with
      | some v => exact complete_value
      | none => rfl

theorem complete_cons (inner : w.value = none) :
    completeNodeAtPath w (k :: q) = completeNodeAtPath (w.childTree k) q := by
  rw [completeNodeAtPath, FImmutableTree.findRootMostValueAndPath_cons inner, Option.map_map]
  simp only [Function.comp_def, FPath.relativePath_cons]
  rfl

theorem complete_empty : completeNodeAtPath (emptyWrite : FCompoundWrite α) q = none := by
  induction q with
  | nil => rfl
  | cons k q ih =>
      rw [complete_cons rfl]
      exact ih

/-! ## What a write says below a path -/

@[simp] theorem childCompoundWriteAtPath_nil : childCompoundWriteAtPath w [] = w := rfl

theorem childCompoundWriteAtPath_value :
    childCompoundWriteAtPath (node (some v) []) q = node (some (v.getChild q)) [] := by
  cases q with
  | nil => rfl
  | cons k q =>
      rw [childCompoundWriteAtPath, if_neg (by simp), complete_value]
      rfl

theorem childCompoundWriteAtPath_cons (canonical : w.Canonical) (inner : w.value = none) :
    childCompoundWriteAtPath w (k :: q) = childCompoundWriteAtPath (w.childTree k) q := by
  rw [childCompoundWriteAtPath, if_neg (by simp), complete_cons inner,
    FImmutableTree.subtreeAtPath_cons]
  cases q with
  | cons l q => rfl
  | nil =>
      rw [childCompoundWriteAtPath_nil, complete_nil]
      rcases canonical.childTree.cases_value with ⟨v, shape⟩ | inner'
      · rw [shape]
        rfl
      · rw [inner']
        rfl

/-- The write seen from a path says what it says about the paths below. -/
theorem complete_childCompoundWriteAtPath (canonical : w.Canonical) (plain : q.Plain) :
    completeNodeAtPath (childCompoundWriteAtPath w q) r = completeNodeAtPath w (q ++ r) := by
  induction q generalizing w with
  | nil => rfl
  | cons k q ih =>
      rcases canonical.cases_value with ⟨v, rfl⟩ | inner
      · rw [childCompoundWriteAtPath_value, complete_value, complete_value,
          FNode.getChild_append plain]
      · rw [FPath.plain_cons] at plain
        rw [childCompoundWriteAtPath_cons canonical inner, List.cons_append, complete_cons inner]
        exact ih canonical.childTree plain.2

/-- A write at or below the path is a write at the rest of its path. -/
theorem childCompoundWriteAtPath_addWrite (canonical : w.Canonical) (plain : (q ++ r).Plain)
    (proper : x.Proper) :
    childCompoundWriteAtPath (addWrite w x (q ++ r)) q =
      addWrite (childCompoundWriteAtPath w q) x r := by
  induction q generalizing w with
  | nil => rfl
  | cons k q ih =>
      rcases canonical.cases_value with ⟨v, rfl⟩ | inner
      · rw [addWrite_value, childCompoundWriteAtPath_value, childCompoundWriteAtPath_value,
          addWrite_value, (FNode.updateChild_spec v plain proper).2.2 _ r rfl]
      · have added := canonical_addWrite (x := x) (p := q ++ r) (canonical.childTree (k := k))
        rw [List.cons_append, FPath.plain_cons] at plain
        rw [List.cons_append, addWrite_cons canonical inner,
          childCompoundWriteAtPath_cons (canonical.withChild added inner) inner,
          childCompoundWriteAtPath_cons canonical inner, FImmutableTree.childTree_withChild]
        exact ih canonical.childTree plain.2

/-- A write above the path is a write of what the new node has there. -/
theorem childCompoundWriteAtPath_addWrite_above (canonical : w.Canonical) (plain : p.Plain)
    (proper : x.Proper) :
    childCompoundWriteAtPath (addWrite w x p) (p ++ r) = node (some (x.getChild r)) [] := by
  induction p generalizing w with
  | nil => exact childCompoundWriteAtPath_value
  | cons k p ih =>
      rcases canonical.cases_value with ⟨v, rfl⟩ | inner
      · rw [addWrite_value, childCompoundWriteAtPath_value,
          (FNode.updateChild_spec v plain proper).1]
      · have added := canonical_addWrite (x := x) (p := p) (canonical.childTree (k := k))
        rw [FPath.plain_cons] at plain
        rw [List.cons_append, addWrite_cons canonical inner,
          childCompoundWriteAtPath_cons (canonical.withChild added inner) inner,
          FImmutableTree.childTree_withChild]
        exact ih canonical.childTree plain.2

theorem childCompoundWriteAtPath_addWrite_of_apart (canonical : w.Canonical)
    (plain : p.Plain) (proper : x.Proper) (plain' : q.Plain) (apart : Apart p q) :
    childCompoundWriteAtPath (addWrite w x p) q = childCompoundWriteAtPath w q := by
  induction p generalizing w q with
  | nil => exact absurd apart not_apart_nil
  | cons k p ih =>
      cases q with
      | nil => exact absurd apart.symm not_apart_nil
      | cons l q =>
          rcases canonical.cases_value with ⟨v, rfl⟩ | inner
          · rw [addWrite_value, childCompoundWriteAtPath_value, childCompoundWriteAtPath_value,
              (FNode.updateChild_spec v plain proper).2.1 _ plain' apart]
          · have added := canonical_addWrite (x := x) (p := p) (canonical.childTree (k := k))
            rw [FPath.plain_cons] at plain plain'
            rw [addWrite_cons canonical inner,
              childCompoundWriteAtPath_cons (canonical.withChild added inner) inner,
              childCompoundWriteAtPath_cons canonical inner]
            by_cases same : l = k
            · subst same
              rw [FImmutableTree.childTree_withChild]
              exact ih canonical.childTree plain.2 plain'.2 (apart_cons_cons.mp apart rfl)
            · rw [FImmutableTree.childTree_withChild_of_ne same]

/-! ## Removing a write -/

theorem removeWriteAtPath_cons :
    removeWriteAtPath w (k :: p) = w.withChild k (removeWriteAtPath (w.childTree k) p) := by
  rw [removeWriteAtPath, if_neg (by simp), FImmutableTree.setTree_cons]
  cases p <;> rfl

theorem removeWriteAtPath_emptyWrite :
    removeWriteAtPath (emptyWrite : FCompoundWrite α) p = emptyWrite := by
  induction p with
  | nil => rfl
  | cons k p ih =>
      rw [removeWriteAtPath_cons]
      exact congrArg (FImmutableTree.withChild emptyWrite k) ih

/-- A write at a higher path is not touched. -/
theorem removeWriteAtPath_value :
    removeWriteAtPath (node (some v) []) (k :: p) = node (some v) [] := by
  have rest := @removeWriteAtPath_emptyWrite _ α p
  rw [removeWriteAtPath_cons]
  exact congrArg (FImmutableTree.withChild (node (some v) []) k) rest

theorem canonical_removeWriteAtPath (canonical : w.Canonical) :
    (removeWriteAtPath w p).Canonical := by
  induction p generalizing w with
  | nil => exact canonical_emptyWrite
  | cons k p ih =>
      rcases canonical.cases_value with ⟨v, rfl⟩ | inner
      · rw [removeWriteAtPath_value]
        exact canonical
      · rw [removeWriteAtPath_cons]
        exact canonical.withChild (ih canonical.childTree) inner

/-- Removing a write and adding one elsewhere can be done in either order. -/
theorem removeWriteAtPath_addWrite (canonical : w.Canonical) (apart : Apart p r) :
    removeWriteAtPath (addWrite w x r) p = addWrite (removeWriteAtPath w p) x r := by
  induction p generalizing w r with
  | nil => exact absurd apart not_apart_nil
  | cons k p ih =>
      cases r with
      | nil => exact absurd apart.symm not_apart_nil
      | cons l r =>
          rcases canonical.cases_value with ⟨v, rfl⟩ | inner
          · rw [addWrite_value, removeWriteAtPath_value, removeWriteAtPath_value, addWrite_value]
          · have removed := canonical_removeWriteAtPath (p := p) (canonical.childTree (k := k))
            have added := canonical_addWrite (x := x) (p := r) (canonical.childTree (k := l))
            rw [addWrite_cons canonical inner, removeWriteAtPath_cons, removeWriteAtPath_cons,
              addWrite_cons (canonical.withChild removed inner) inner]
            by_cases same : k = l
            · subst same
              rw [FImmutableTree.childTree_withChild, FImmutableTree.childTree_withChild,
                ih canonical.childTree (apart_cons_cons.mp apart rfl),
                canonical.withChild_twice inner added (canonical_addWrite removed),
                canonical.withChild_twice inner removed (canonical_addWrite removed)]
            · rw [FImmutableTree.childTree_withChild_of_ne same,
                FImmutableTree.childTree_withChild_of_ne (Ne.symm same),
                canonical.withChild_comm inner added removed (Ne.symm same)]

/-! ## Shadowed writes -/

/-- Nothing is written above the path, and the same away from it. -/
def SameBut : FPath → FCompoundWrite α → FCompoundWrite α → Prop
  | [], _, _ => True
  | k :: p, w, w' =>
      w.value = none ∧ w'.value = none ∧ (∀ l, l ≠ k → w.childTree l = w'.childTree l) ∧
        SameBut p (w.childTree k) (w'.childTree k)

theorem sameBut_emptyWrite : SameBut p (emptyWrite : FCompoundWrite α) emptyWrite := by
  induction p with
  | nil => exact trivial
  | cons k p ih => exact ⟨rfl, rfl, fun _ _ => rfl, ih⟩

theorem SameBut.symm (same : SameBut p w w') : SameBut p w' w := by
  induction p generalizing w w' with
  | nil => exact trivial
  | cons k p ih =>
      obtain ⟨inner, inner', others, here⟩ := same
      exact ⟨inner', inner, fun l ne => (others l ne).symm, ih here⟩

theorem SameBut.addWrite_left (same : SameBut p w w') (canonical : w.Canonical) :
    SameBut p (addWrite w x (p ++ r)) w' := by
  induction p generalizing w w' with
  | nil => exact trivial
  | cons k p ih =>
      obtain ⟨inner, inner', others, here⟩ := same
      rw [List.cons_append, addWrite_cons canonical inner]
      refine ⟨inner, inner', fun l ne => ?_, ?_⟩
      · rw [FImmutableTree.childTree_withChild_of_ne ne, others l ne]
      · rw [FImmutableTree.childTree_withChild]
        exact ih here canonical.childTree

theorem SameBut.addWrite (same : SameBut p w w') (canonical : w.Canonical)
    (canonical' : w'.Canonical) (open_ : ¬ r <+: p) :
    SameBut p (addWrite w x r) (FCompoundWrite.addWrite w' x r) := by
  induction p generalizing w w' r with
  | nil => exact trivial
  | cons k p ih =>
      obtain ⟨inner, inner', others, here⟩ := same
      cases r with
      | nil => exact absurd List.nil_prefix open_
      | cons l r =>
          rw [addWrite_cons canonical inner, addWrite_cons canonical' inner']
          refine ⟨inner, inner', fun j ne => ?_, ?_⟩
          · by_cases atL : j = l
            · rw [atL, FImmutableTree.childTree_withChild, FImmutableTree.childTree_withChild,
                others l (atL ▸ ne)]
            · rw [FImmutableTree.childTree_withChild_of_ne atL,
                FImmutableTree.childTree_withChild_of_ne atL, others j ne]
          · by_cases atL : k = l
            · subst atL
              rw [FImmutableTree.childTree_withChild, FImmutableTree.childTree_withChild]
              exact ih here canonical.childTree canonical'.childTree
                fun leads => open_ (List.cons_prefix_cons.mpr ⟨rfl, leads⟩)
            · rw [FImmutableTree.childTree_withChild_of_ne atL,
                FImmutableTree.childTree_withChild_of_ne atL]
              exact here

/-- A write at or above the path covers the difference. -/
theorem SameBut.addWrite_eq (same : SameBut p w w') (canonical : w.Canonical)
    (canonical' : w'.Canonical) (covers : r <+: p) :
    FCompoundWrite.addWrite w x r = FCompoundWrite.addWrite w' x r := by
  induction r generalizing w w' p with
  | nil => rfl
  | cons l r ih =>
      cases p with
      | nil => exact absurd covers (by simp)
      | cons k p =>
          obtain ⟨rfl, covers'⟩ := List.cons_prefix_cons.mp covers
          obtain ⟨inner, inner', others, here⟩ := same
          have added := canonical_addWrite (x := x) (p := r) (canonical.childTree (k := l))
          have added' := canonical_addWrite (x := x) (p := r) (canonical'.childTree (k := l))
          rw [addWrite_cons canonical inner, addWrite_cons canonical' inner']
          refine (canonical.withChild added inner).ext_children
            (canonical'.withChild added' inner') inner inner' fun j => ?_
          by_cases atL : j = l
          · rw [atL, FImmutableTree.childTree_withChild, FImmutableTree.childTree_withChild,
              ih here canonical.childTree canonical'.childTree covers']
          · rw [FImmutableTree.childTree_withChild_of_ne atL,
              FImmutableTree.childTree_withChild_of_ne atL, others j atL]

/-- A removal takes the difference away. -/
theorem SameBut.remove_eq (same : SameBut p w w') (canonical : w.Canonical)
    (canonical' : w'.Canonical) : removeWriteAtPath w p = removeWriteAtPath w' p := by
  induction p generalizing w w' with
  | nil => rfl
  | cons k p ih =>
      obtain ⟨inner, inner', others, here⟩ := same
      have removed := canonical_removeWriteAtPath (p := p) (canonical.childTree (k := k))
      have removed' := canonical_removeWriteAtPath (p := p) (canonical'.childTree (k := k))
      rw [removeWriteAtPath_cons, removeWriteAtPath_cons]
      refine (canonical.withChild removed inner).ext_children
        (canonical'.withChild removed' inner') inner inner' fun j => ?_
      by_cases atK : j = k
      · rw [atK, FImmutableTree.childTree_withChild, FImmutableTree.childTree_withChild,
          ih here canonical.childTree canonical'.childTree]
      · rw [FImmutableTree.childTree_withChild_of_ne atK,
          FImmutableTree.childTree_withChild_of_ne atK, others j atK]

end FCompoundWrite

end GAMember
