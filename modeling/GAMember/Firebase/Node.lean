import GAMember.Firebase.Path

/-!
# Nodes of the client's tree

What the client knows of the database is a tree of immutable nodes. A leaf has
a value and a priority; any other node has a priority and children, which are a
sorted dictionary ordered by `keyComparator` and stand here as the table of its
entries (`FNode.children_run`). The empty node is the one without children.

`getChild` and `updateChild` go down a path in two different ways, one for each
class. What is read after a write does not depend on that (`updateChild_spec`).
A write changes nothing but the place it is made at, as long as no priority is in
play: a node that loses its last child loses its priority with it.
-/

namespace GAMember

/-- `FLeafNode` and `FChildrenNode`. Whether a priority is `nil` or the empty node, no
method tells. -/
inductive FNode (α : Type) [Keys]
  | leaf (value : α) (priorityNode : Option (FNode α))
  | children (priorityNode : Option (FNode α)) (entries : List (Piece × FNode α))

variable [Keys] {α : Type}

/-! ## The methods -/

namespace FNode

def emptyNode : FNode α := .children none []

def isLeafNode : FNode α → Bool
  | .leaf .. => true
  | .children .. => false

def isEmpty : FNode α → Bool
  | .leaf .. => false
  | .children _ entries => entries.isEmpty

def getPriority : FNode α → FNode α
  | .leaf _ priorityNode => priorityNode.getD emptyNode
  | .children priorityNode _ => priorityNode.getD emptyNode

/-- What is kept of a priority. -/
def asPriority (aPriority : FNode α) : Option (FNode α) :=
  if aPriority.isEmpty then none else some aPriority

def updatePriority (self aPriority : FNode α) : FNode α :=
  match self with
  | .leaf value _ => .leaf value aPriority.asPriority
  | .children _ entries =>
      if entries.isEmpty then emptyNode else .children aPriority.asPriority entries

def getImmediateChild (self : FNode α) (childName : Piece) : FNode α :=
  match self with
  | .leaf .. => if childName = .priority then self.getPriority else emptyNode
  | .children _ entries =>
      if childName = .priority then self.getPriority
      else (Table.find? keyOrder childName entries).getD emptyNode

def newChildren (entries : List (Piece × FNode α)) (childName : Piece)
    (newChildNode : FNode α) : List (Piece × FNode α) :=
  if newChildNode.isEmpty then Table.erase keyOrder childName entries
  else Table.put keyOrder childName newChildNode entries

/-- A node with these children; there is no other empty node than `emptyNode`. -/
def ofChildren (priorityNode : Option (FNode α)) (entries : List (Piece × FNode α)) : FNode α :=
  if entries.isEmpty then emptyNode else .children priorityNode entries

def updateImmediateChild (self : FNode α) (childName : Piece) (newChildNode : FNode α) :
    FNode α :=
  match self with
  | .leaf .. =>
      if childName = .priority then self.updatePriority newChildNode
      else if newChildNode.isEmpty then self
      else (ofChildren none (newChildren [] childName newChildNode)).updatePriority self.getPriority
  | .children priorityNode entries =>
      if childName = .priority then self.updatePriority newChildNode
      else ofChildren priorityNode (newChildren entries childName newChildNode)

/-- A leaf answers at once, also when the path goes on below its priority. -/
def getChild : FNode α → FPath → FNode α
  | self, [] => self
  | .leaf value priorityNode, front :: _ =>
      if front = .priority then (leaf value priorityNode).getPriority else emptyNode
  | .children priorityNode entries, front :: path =>
      ((FNode.children priorityNode entries).getImmediateChild front).getChild path

/-- A leaf makes a new node for the rest of the path, unless there is nothing to put there. -/
def updateChild : FNode α → FPath → FNode α → FNode α
  | _, [], newChildNode => newChildNode
  | .leaf value priorityNode, front :: path, newChildNode =>
      if newChildNode.isEmpty ∧ front ≠ .priority then .leaf value priorityNode
      else
        (FNode.leaf value priorityNode).updateImmediateChild front
          (emptyNode.updateChild path newChildNode)
  | .children priorityNode entries, front :: path, newChildNode =>
      let self := FNode.children priorityNode entries
      self.updateImmediateChild front
        ((self.getImmediateChild front).updateChild path newChildNode)

/-- The change of the sorted dictionary in which `updateImmediateChild:` puts a new child. -/
def childChange (childName : Piece) (newChildNode : FNode α) :
    FImmutableSortedDictionary.Change Piece (FNode α) :=
  if newChildNode.isEmpty then .remove childName else .insert childName newChildNode

/-- It is not an empty node with a priority, which cannot be made. -/
def Proper (n : FNode α) : Prop := n.isEmpty = true → n = emptyNode

end FNode

/-- The path does not lead to a priority. -/
def FPath.Plain (p : FPath) : Prop := Piece.priority ∉ p

instance : DecidablePred FPath.Plain := fun p => inferInstanceAs (Decidable (Piece.priority ∉ p))

theorem FPath.plain_nil : FPath.Plain [] := List.not_mem_nil

theorem FPath.plain_cons {k : Piece} {p : FPath} :
    FPath.Plain (k :: p) ↔ k ≠ .priority ∧ p.Plain := by
  simp [FPath.Plain, eq_comm]

theorem FPath.plain_append {p q : FPath} : FPath.Plain (p ++ q) ↔ p.Plain ∧ q.Plain := by
  simp [FPath.Plain]

/-! ## One level -/

namespace FNode

variable {n m x y : FNode α} {k l : Piece} {p q r : FPath}

@[simp] theorem isEmpty_emptyNode : (emptyNode : FNode α).isEmpty = true := rfl

@[simp] theorem isLeafNode_emptyNode : (emptyNode : FNode α).isLeafNode = false := rfl

theorem getImmediateChild_leaf {v : α} {pr : Option (FNode α)} (plain : k ≠ .priority) :
    (leaf v pr).getImmediateChild k = emptyNode := if_neg plain

theorem getImmediateChild_children {pr : Option (FNode α)} {es : List (Piece × FNode α)}
    (plain : k ≠ .priority) :
    (children pr es).getImmediateChild k = (Table.find? keyOrder k es).getD emptyNode :=
  if_neg plain

@[simp] theorem getImmediateChild_emptyNode :
    (emptyNode : FNode α).getImmediateChild k = emptyNode := by
  simp [getImmediateChild, emptyNode, getPriority]

@[simp] theorem getChild_emptyNode : (emptyNode : FNode α).getChild p = emptyNode := by
  induction p with
  | nil => rfl
  | cons k p ih =>
      change (emptyNode.getImmediateChild k).getChild p = emptyNode
      rw [getImmediateChild_emptyNode, ih]

theorem ofChildren_proper {pr : Option (FNode α)} {es : List (Piece × FNode α)} :
    (ofChildren pr es).Proper := by
  intro empty
  cases es with
  | nil => rfl
  | cons e es => cases empty

theorem getImmediateChild_ofChildren {pr : Option (FNode α)} {es : List (Piece × FNode α)}
    (plain : k ≠ .priority) :
    (ofChildren pr es).getImmediateChild k = (Table.find? keyOrder k es).getD emptyNode := by
  cases es with
  | nil => exact getImmediateChild_emptyNode
  | cons e es => exact getImmediateChild_children plain

theorem newChildren_of_isEmpty {es : List (Piece × FNode α)} (empty : x.isEmpty = true) :
    newChildren es k x = Table.erase keyOrder k es := if_pos empty

theorem newChildren_of_not_isEmpty {es : List (Piece × FNode α)} (some : x.isEmpty = false) :
    newChildren es k x = Table.put keyOrder k x es := if_neg (by simp [some])

theorem table_childChange {es : List (Piece × FNode α)} :
    (childChange k x).table keyOrder es = newChildren es k x := by
  cases empty : x.isEmpty with
  | true =>
      rw [newChildren_of_isEmpty empty, childChange, if_pos empty]
      rfl
  | false =>
      rw [newChildren_of_not_isEmpty empty, childChange, if_neg (by simp [empty])]
      rfl

/-- **The table of the children is the sorted dictionary.** Whatever children are put into an
empty dictionary one after the other, it raises nothing, has the entries of the table, and
finds a child where the table has it. -/
theorem children_run (updates : List (Piece × FNode α)) :
    ∃ d, FImmutableSortedDictionary.run keyOrder .dictionaryWithComparator
        (updates.map fun update => childChange update.1 update.2) = .ok d ∧
      d.entries = updates.foldl (fun es update => newChildren es update.1 update.2) [] ∧
      ∀ k, d.get keyOrder k = Table.find? keyOrder k d.entries := by
  have start : FImmutableSortedDictionary.Valid keyOrder
      (.dictionaryWithComparator : FImmutableSortedDictionary Piece (FNode α)) :=
    FImmutableSortedDictionary.valid_dictionaryWithComparator
  obtain ⟨d, made, valid, entries⟩ := FImmutableSortedDictionary.run_entries start
    (updates.map fun update => childChange update.1 update.2)
  refine ⟨d, made, ?_, FImmutableSortedDictionary.get_eq_find? valid⟩
  rw [entries, List.foldl_map]
  simp only [table_childChange]
  rfl

theorem find?_newChildren_self {es : List (Piece × FNode α)} (proper : x.Proper) :
    (Table.find? keyOrder k (newChildren es k x)).getD emptyNode = x := by
  cases empty : x.isEmpty with
  | true =>
      rw [newChildren_of_isEmpty empty, Table.find?_erase_self]
      exact (proper empty).symm
  | false =>
      rw [newChildren_of_not_isEmpty empty, Table.find?_put_self]
      rfl

theorem find?_newChildren_of_ne {es : List (Piece × FNode α)} (ne : l ≠ k) :
    Table.find? keyOrder l (newChildren es k x) = Table.find? keyOrder l es := by
  cases empty : x.isEmpty with
  | true =>
      rw [newChildren_of_isEmpty empty]
      exact Table.find?_erase_of_ne ne
  | false =>
      rw [newChildren_of_not_isEmpty empty]
      exact Table.find?_put_of_ne ne

theorem updateImmediateChild_children {pr : Option (FNode α)} {es : List (Piece × FNode α)}
    (plain : k ≠ .priority) :
    (children pr es).updateImmediateChild k x = ofChildren pr (newChildren es k x) :=
  if_neg plain

theorem updateImmediateChild_leaf_of_isEmpty {v : α} {pr : Option (FNode α)}
    (plain : k ≠ .priority) (empty : x.isEmpty = true) :
    (leaf v pr).updateImmediateChild k x = leaf v pr := by
  rw [updateImmediateChild, if_neg plain, if_pos empty]

/-- A leaf that gets a child is a node with this child and the leaf's priority. -/
theorem updateImmediateChild_leaf {v : α} {pr : Option (FNode α)} (plain : k ≠ .priority)
    (some : x.isEmpty = false) :
    (leaf v pr).updateImmediateChild k x =
      children (leaf v pr).getPriority.asPriority [(k, x)] := by
  rw [updateImmediateChild, if_neg plain, if_neg (by simp [some]),
    newChildren_of_not_isEmpty some]
  rfl

theorem updateImmediateChild_proper (plain : k ≠ .priority) :
    (n.updateImmediateChild k x).Proper := by
  cases n with
  | children pr es =>
      rw [updateImmediateChild_children plain]
      exact ofChildren_proper
  | leaf v pr =>
      cases empty : x.isEmpty with
      | true =>
          rw [updateImmediateChild_leaf_of_isEmpty plain empty]
          exact fun none => by cases none
      | false =>
          rw [updateImmediateChild_leaf plain empty]
          exact fun none => by cases none

/-- What was put is there. -/
theorem getImmediateChild_updateImmediateChild (plain : k ≠ .priority) (proper : x.Proper) :
    (n.updateImmediateChild k x).getImmediateChild k = x := by
  cases n with
  | children pr es =>
      rw [updateImmediateChild_children plain, getImmediateChild_ofChildren plain]
      exact find?_newChildren_self proper
  | leaf v pr =>
      cases empty : x.isEmpty with
      | true =>
          rw [updateImmediateChild_leaf_of_isEmpty plain empty, getImmediateChild_leaf plain]
          exact (proper empty).symm
      | false =>
          rw [updateImmediateChild_leaf plain empty, getImmediateChild_children plain]
          simp [Table.find?, Std.ReflCmp.compare_self]

/-- Every other child stays. -/
theorem getImmediateChild_updateImmediateChild_of_ne (plain : k ≠ .priority)
    (plain' : l ≠ .priority) (ne : l ≠ k) :
    (n.updateImmediateChild k x).getImmediateChild l = n.getImmediateChild l := by
  cases n with
  | children pr es =>
      rw [updateImmediateChild_children plain, getImmediateChild_ofChildren plain',
        getImmediateChild_children plain', find?_newChildren_of_ne ne]
  | leaf v pr =>
      cases empty : x.isEmpty with
      | true => rw [updateImmediateChild_leaf_of_isEmpty plain empty]
      | false =>
          have other : keyOrder l k ≠ .eq :=
            fun same => ne (Std.LawfulEqCmp.eq_of_compare same)
          rw [updateImmediateChild_leaf plain empty, getImmediateChild_children plain',
            getImmediateChild_leaf plain']
          simp [Table.find?, other]

/-! ## Along a path -/

/-- A leaf does what the other nodes do. -/
theorem getChild_cons (plain : k ≠ .priority) :
    n.getChild (k :: p) = (n.getImmediateChild k).getChild p := by
  cases n with
  | children pr es => rfl
  | leaf v pr =>
      rw [getChild, if_neg plain, getImmediateChild_leaf plain, getChild_emptyNode]

theorem updateImmediateChild_emptyNode_isEmpty (empty : x.isEmpty = true) :
    ((emptyNode : FNode α).updateImmediateChild k x).isEmpty = true := by
  rw [emptyNode, updateImmediateChild]
  split
  · rfl
  · rw [newChildren_of_isEmpty empty]
    rfl

/-- Nothing put into nothing is nothing. -/
theorem updateChild_emptyNode_isEmpty (empty : x.isEmpty = true) :
    ((emptyNode : FNode α).updateChild p x).isEmpty = true := by
  induction p with
  | nil => exact empty
  | cons k p ih =>
      change (emptyNode.updateImmediateChild k
        ((emptyNode.getImmediateChild k).updateChild p x)).isEmpty = true
      rw [getImmediateChild_emptyNode]
      exact updateImmediateChild_emptyNode_isEmpty ih

theorem updateChild_cons (plain : k ≠ .priority) :
    n.updateChild (k :: p) x =
      n.updateImmediateChild k ((n.getImmediateChild k).updateChild p x) := by
  cases n with
  | children pr es => rfl
  | leaf v pr =>
      rw [updateChild, getImmediateChild_leaf plain]
      split
      · rename_i nothing
        rw [updateImmediateChild, if_neg plain, if_pos (updateChild_emptyNode_isEmpty nothing.1)]
      · rfl

theorem getChild_append (plain : p.Plain) :
    n.getChild (p ++ r) = (n.getChild p).getChild r := by
  induction p generalizing n with
  | nil => rfl
  | cons k p ih =>
      rw [FPath.plain_cons] at plain
      rw [List.cons_append, getChild_cons plain.1, getChild_cons plain.1, ih plain.2]

theorem updateChild_append (plain : p.Plain) :
    n.updateChild (p ++ r) x = n.updateChild p ((n.getChild p).updateChild r x) := by
  induction p generalizing n with
  | nil => rfl
  | cons k p ih =>
      rw [FPath.plain_cons] at plain
      rw [List.cons_append, updateChild_cons plain.1, updateChild_cons plain.1,
        getChild_cons plain.1, ih plain.2]

theorem updateChild_proper (plain : p.Plain) (proper : x.Proper) :
    (n.updateChild p x).Proper := by
  cases p with
  | nil => exact proper
  | cons k p =>
      rw [FPath.plain_cons] at plain
      rw [updateChild_cons plain.1]
      exact updateImmediateChild_proper plain.1

theorem getChild_updateChild_self (plain : p.Plain) (proper : x.Proper) :
    (n.updateChild p x).getChild p = x := by
  induction p generalizing n with
  | nil => rfl
  | cons k p ih =>
      rw [FPath.plain_cons] at plain
      rw [updateChild_cons plain.1, getChild_cons plain.1,
        getImmediateChild_updateImmediateChild plain.1 (updateChild_proper plain.2 proper),
        ih plain.2]

theorem getChild_updateChild_of_apart (plain : p.Plain) (plain' : q.Plain) (proper : x.Proper)
    (apart : Apart p q) : (n.updateChild p x).getChild q = n.getChild q := by
  induction p generalizing n q with
  | nil => exact absurd apart not_apart_nil
  | cons k p ih =>
      cases q with
      | nil => exact absurd apart.symm not_apart_nil
      | cons l q =>
          rw [FPath.plain_cons] at plain plain'
          rw [updateChild_cons plain.1, getChild_cons plain'.1, getChild_cons plain'.1]
          by_cases same : k = l
          · subst same
            rw [getImmediateChild_updateImmediateChild plain.1
              (updateChild_proper plain.2 proper)]
            exact ih plain.2 plain'.2 (apart_cons_cons.mp apart rfl)
          · rw [getImmediateChild_updateImmediateChild_of_ne plain.1 plain'.1 (Ne.symm same)]

/-- **What is read after a write.** At and below the path it is the node that was written;
where neither path leads through the other it is what was there; and above the path it is
what was there with the write made in it. -/
theorem updateChild_spec (n : FNode α) (plain : p.Plain) (proper : x.Proper) :
    (∀ r, (n.updateChild p x).getChild (p ++ r) = x.getChild r) ∧
      (∀ q : FPath, q.Plain → Apart p q →
        (n.updateChild p x).getChild q = n.getChild q) ∧
      ∀ q r : FPath, p = q ++ r →
        (n.updateChild p x).getChild q = (n.getChild q).updateChild r x := by
  refine ⟨fun r => ?_, fun q plain' apart => ?_, fun q r split => ?_⟩
  · rw [getChild_append plain, getChild_updateChild_self plain proper]
  · exact getChild_updateChild_of_apart plain plain' proper apart
  · subst split
    rw [FPath.plain_append] at plain
    rw [updateChild_append plain.1]
    exact getChild_updateChild_self plain.1 (updateChild_proper plain.2 proper)

/-! ## Nodes without priorities -/

/-- No priority is set in the node, and no child of it is empty. -/
inductive Bare : FNode α → Prop
  | leaf (v : α) : Bare (.leaf v none)
  | children {es : List (Piece × FNode α)} (sorted : Table.Sorted keyOrder es)
      (plain : ∀ e ∈ es, e.1 ≠ .priority) (some : ∀ e ∈ es, e.2.isEmpty = false)
      (bare : ∀ e ∈ es, Bare e.2) : Bare (.children none es)

theorem bare_emptyNode : (emptyNode : FNode α).Bare :=
  .children .nil (by simp) (by simp) (by simp)

theorem Bare.proper (bare : n.Bare) : n.Proper := by
  intro empty
  cases bare with
  | leaf v => cases empty
  | children sorted plain some bare =>
      rw [List.isEmpty_iff.mp empty]
      rfl

theorem Bare.getImmediateChild (bare : n.Bare) : (n.getImmediateChild k).Bare := by
  cases bare with
  | leaf v =>
      rw [FNode.getImmediateChild]
      split <;> exact bare_emptyNode
  | @children es sorted plain some bare =>
      rw [FNode.getImmediateChild]
      split
      · exact bare_emptyNode
      · cases found : Table.find? keyOrder k es with
        | none => exact bare_emptyNode
        | some m => exact bare (k, m) ((Table.find?_eq_some_iff sorted).mp found)

theorem Bare.getChild (bare : n.Bare) (plain : p.Plain) : (n.getChild p).Bare := by
  induction p generalizing n with
  | nil => exact bare
  | cons k p ih =>
      rw [FPath.plain_cons] at plain
      rw [getChild_cons plain.1]
      exact ih bare.getImmediateChild plain.2

theorem bare_ofChildren {es : List (Piece × FNode α)} (sorted : Table.Sorted keyOrder es)
    (plain : ∀ e ∈ es, e.1 ≠ .priority) (some : ∀ e ∈ es, e.2.isEmpty = false)
    (bare : ∀ e ∈ es, e.2.Bare) : (ofChildren none es).Bare := by
  unfold ofChildren
  split
  · exact bare_emptyNode
  · exact .children sorted plain some bare

theorem mem_newChildren {es : List (Piece × FNode α)} {e : Piece × FNode α}
    (mem : e ∈ newChildren es k x) : e = (k, x) ∧ x.isEmpty = false ∨ e ∈ es := by
  cases empty : x.isEmpty with
  | true =>
      rw [newChildren_of_isEmpty empty] at mem
      exact .inr (List.mem_of_mem_filter mem)
  | false =>
      rw [newChildren_of_not_isEmpty empty] at mem
      exact (Table.mem_put mem).imp_left fun new => ⟨new, rfl⟩

theorem sorted_newChildren {es : List (Piece × FNode α)} (sorted : Table.Sorted keyOrder es) :
    Table.Sorted keyOrder (newChildren es k x) := by
  unfold newChildren
  split
  · exact Table.sorted_erase sorted
  · exact Table.sorted_put sorted

theorem Bare.updateImmediateChild (bare : n.Bare) (bare' : x.Bare) (plain : k ≠ .priority) :
    (n.updateImmediateChild k x).Bare := by
  cases bare with
  | leaf v =>
      cases empty : x.isEmpty with
      | true =>
          rw [updateImmediateChild_leaf_of_isEmpty plain empty]
          exact .leaf v
      | false =>
          rw [updateImmediateChild_leaf plain empty]
          refine .children (List.pairwise_singleton ..) ?_ ?_ ?_ <;>
            simp only [List.mem_singleton, forall_eq]
          · exact plain
          · exact empty
          · exact bare'
  | children sorted plains somes bares =>
      rw [updateImmediateChild_children plain]
      refine bare_ofChildren (sorted_newChildren sorted) ?_ ?_ ?_ <;> intro e mem <;>
        rcases mem_newChildren mem with ⟨rfl, some⟩ | old
      · exact plain
      · exact plains e old
      · exact some
      · exact somes e old
      · exact bare'
      · exact bares e old

theorem Bare.updateChild (bare : n.Bare) (bare' : x.Bare) (plain : p.Plain) :
    (n.updateChild p x).Bare := by
  induction p generalizing n with
  | nil => exact bare'
  | cons k p ih =>
      rw [FPath.plain_cons] at plain
      rw [updateChild_cons plain.1]
      exact bare.updateImmediateChild (ih bare.getImmediateChild plain.2) plain.1

/-- A child that is there is not empty. -/
theorem find?_eq_of_getImmediateChild {es : List (Piece × FNode α)}
    (sorted : Table.Sorted keyOrder es) (plains : ∀ e ∈ es, e.1 ≠ .priority)
    (somes : ∀ e ∈ es, e.2.isEmpty = false) (k : Piece) :
    Table.find? keyOrder k es =
      if k = .priority ∨ ((children none es).getImmediateChild k).isEmpty = true then none
      else some ((children none es).getImmediateChild k) := by
  cases found : Table.find? keyOrder k es with
  | none =>
      by_cases plain : k = .priority
      · rw [if_pos (.inl plain)]
      · rw [getImmediateChild_children plain, found]
        exact (if_pos (.inr rfl)).symm
  | some m =>
      have mem := (Table.find?_eq_some_iff sorted).mp found
      have plain : k ≠ .priority := plains (k, m) mem
      rw [getImmediateChild_children plain, found]
      simp [plain, somes (k, m) mem]

/-- Two nodes with the same children are the same. -/
theorem Bare.ext (bare : n.Bare) (bare' : m.Bare) (inner : n.isLeafNode = false)
    (inner' : m.isLeafNode = false)
    (same : ∀ k, k ≠ .priority → n.getImmediateChild k = m.getImmediateChild k) : n = m := by
  cases bare with
  | leaf v => cases inner
  | children sorted plain some _ =>
      cases bare' with
      | leaf v => cases inner'
      | children sorted' plain' some' _ =>
          congr 1
          refine Table.ext sorted sorted' fun k => ?_
          rw [find?_eq_of_getImmediateChild sorted plain some,
            find?_eq_of_getImmediateChild sorted' plain' some']
          by_cases priority : k = .priority
          · rw [if_pos (.inl priority), if_pos (.inl priority)]
          · rw [same k priority]

/-- A leaf stays one only if nothing is put below it. -/
theorem isLeafNode_updateImmediateChild (plain : k ≠ .priority) :
    (n.updateImmediateChild k x).isLeafNode = (n.isLeafNode && x.isEmpty) := by
  cases n with
  | leaf v pr =>
      cases empty : x.isEmpty with
      | true =>
          rw [updateImmediateChild_leaf_of_isEmpty plain empty]
          rfl
      | false =>
          rw [updateImmediateChild_leaf plain empty]
          rfl
  | children pr es =>
      rw [updateImmediateChild_children plain, ofChildren]
      split <;> rfl

theorem Bare.updateImmediateChild_getImmediateChild (bare : n.Bare) (plain : k ≠ .priority) :
    n.updateImmediateChild k (n.getImmediateChild k) = n := by
  cases leaf : n.isLeafNode with
  | true =>
      cases bare with
      | children => cases leaf
      | leaf v =>
          rw [getImmediateChild_leaf plain]
          exact updateImmediateChild_leaf_of_isEmpty plain rfl
  | false =>
      refine (bare.updateImmediateChild bare.getImmediateChild plain).ext bare ?_ leaf ?_
      · rw [isLeafNode_updateImmediateChild plain, leaf, Bool.false_and]
      · intro l plain'
        by_cases same : l = k
        · rw [same, getImmediateChild_updateImmediateChild plain
            bare.getImmediateChild.proper]
        · rw [getImmediateChild_updateImmediateChild_of_ne plain plain' same]

/-- Only the last of two writes at one place counts, unless the first one has replaced a
leaf and the second one takes back what it wrote. -/
theorem Bare.updateImmediateChild_twice (bare : n.Bare) (bareX : x.Bare) (bareY : y.Bare)
    (plain : k ≠ .priority)
    (kept : n.isLeafNode = true → y.isEmpty = true → x.isEmpty = true) :
    (n.updateImmediateChild k x).updateImmediateChild k y = n.updateImmediateChild k y := by
  cases leaf : n.isLeafNode && y.isEmpty with
  | true =>
      rw [Bool.and_eq_true] at leaf
      have empty := kept leaf.1 leaf.2
      cases bare with
      | children => cases leaf.1
      | leaf v => rw [updateImmediateChild_leaf_of_isEmpty plain empty]
  | false =>
      have bareNX := bare.updateImmediateChild bareX plain
      refine (bareNX.updateImmediateChild bareY plain).ext
        (bare.updateImmediateChild bareY plain) ?_ ?_ ?_
      · rw [isLeafNode_updateImmediateChild plain, isLeafNode_updateImmediateChild plain,
          Bool.and_right_comm, leaf, Bool.false_and]
      · rw [isLeafNode_updateImmediateChild plain, leaf]
      · intro l plain'
        by_cases same : l = k
        · subst same
          rw [getImmediateChild_updateImmediateChild plain bareY.proper,
            getImmediateChild_updateImmediateChild plain bareY.proper]
        · rw [getImmediateChild_updateImmediateChild_of_ne plain plain' same,
            getImmediateChild_updateImmediateChild_of_ne plain plain' same,
            getImmediateChild_updateImmediateChild_of_ne plain plain' same]

theorem Bare.updateChild_getChild (bare : n.Bare) (plain : p.Plain) :
    n.updateChild p (n.getChild p) = n := by
  induction p generalizing n with
  | nil => rfl
  | cons k p ih =>
      rw [FPath.plain_cons] at plain
      rw [updateChild_cons plain.1, getChild_cons plain.1,
        ih bare.getImmediateChild plain.2,
        bare.updateImmediateChild_getImmediateChild plain.1]

/-- Something put into nothing is something. -/
theorem isEmpty_updateChild_emptyNode (plain : p.Plain) :
    ((emptyNode : FNode α).updateChild p x).isEmpty = x.isEmpty := by
  induction p with
  | nil => rfl
  | cons k p ih =>
      rw [FPath.plain_cons] at plain
      have same := ih plain.2
      rw [updateChild_cons plain.1, getImmediateChild_emptyNode]
      cases empty : x.isEmpty with
      | true => exact updateImmediateChild_emptyNode_isEmpty (same.trans empty)
      | false =>
          rw [emptyNode, updateImmediateChild_children plain.1, ← emptyNode,
            newChildren_of_not_isEmpty (same.trans empty)]
          rfl

/-- Below a leaf the first write has to leave something if the second one does. -/
theorem Bare.updateChild_twice (bare : n.Bare) (bareX : x.Bare) (bareY : y.Bare)
    (plain : p.Plain)
    (kept : (n.getChild p).isEmpty = true → y.isEmpty = true → x.isEmpty = true) :
    (n.updateChild p x).updateChild p y = n.updateChild p y := by
  induction p generalizing n with
  | nil => rfl
  | cons k p ih =>
      rw [FPath.plain_cons] at plain
      have bareC := bare.getImmediateChild (k := k)
      have bareCX := bareC.updateChild bareX plain.2
      rw [getChild_cons plain.1] at kept
      rw [updateChild_cons plain.1, updateChild_cons plain.1, updateChild_cons plain.1,
        getImmediateChild_updateImmediateChild plain.1 bareCX.proper, ih bareC plain.2 kept]
      refine bare.updateImmediateChild_twice bareCX (bareC.updateChild bareY plain.2) plain.1 ?_
      intro leaf empty
      cases bare with
      | children => cases leaf
      | leaf v =>
          rw [getImmediateChild_leaf plain.1] at kept empty ⊢
          rw [getChild_emptyNode] at kept
          rw [isEmpty_updateChild_emptyNode plain.2] at empty ⊢
          exact kept rfl empty

/-- A node that is empty after a child was put where there was none was empty before. -/
theorem Bare.isEmpty_of_updateImmediateChild (bare : n.Bare) (plain : k ≠ .priority)
    (absent : n.getImmediateChild k = emptyNode)
    (empty : (n.updateImmediateChild k x).isEmpty = true) : n.isEmpty = true := by
  cases bare with
  | leaf v =>
      cases none : x.isEmpty with
      | true =>
          rw [updateImmediateChild_leaf_of_isEmpty plain none] at empty
          cases empty
      | false =>
          rw [updateImmediateChild_leaf plain none] at empty
          cases empty
  | @children es sorted plains somes bares =>
      rw [updateImmediateChild_children plain] at empty
      have nothing : newChildren es k x = [] := by
        cases shape : newChildren es k x with
        | nil => rfl
        | cons e rest =>
            rw [shape] at empty
            cases empty
      cases none : x.isEmpty with
      | false =>
          rw [newChildren_of_not_isEmpty none] at nothing
          exact absurd nothing Table.put_ne_nil
      | true =>
          rw [newChildren_of_isEmpty none, Table.erase_of_find?_none] at nothing
          · rw [nothing]
            rfl
          · rw [find?_eq_of_getImmediateChild sorted plains somes, absent]
            exact if_pos (.inr rfl)

end FNode

end GAMember
