import GAMember.Sorted.Table
import Mathlib.Data.Nat.Basic

/-!
# The left-leaning red-black tree of the database client

The database client keeps the children of a node, and every set of queries or
writes it orders, in a left-leaning red-black tree (`FLLRBValueNode`,
`FLLRBEmptyNode`). This module has its operations as the client computes them.
All of them build new nodes; none changes one.

What they do to the bindings in order (`toList`), to the number of nodes and to
the color of the root is stated here for each rotation once. Balance and the
operations that search for a key are in `GAMember.Firebase.Balance`.
-/

namespace GAMember

inductive FLLRBColor
  | red
  | black
  deriving DecidableEq, Repr

inductive FLLRBNode (κ α : Type)
  | empty
  | node (key : κ) (value : α) (color : FLLRBColor) (left right : FLLRBNode κ α)
  deriving DecidableEq, Repr

def FLLRBColor.flip : FLLRBColor → FLLRBColor
  | .red => .black
  | .black => .red

@[simp] theorem FLLRBColor.flip_flip (c : FLLRBColor) : c.flip.flip = c := by cases c <;> rfl

namespace FLLRBNode

variable {κ α : Type}

/-! ## Fields -/

def isEmpty : FLLRBNode κ α → Bool
  | empty => true
  | node .. => false

/-- An empty node has no color, which reads as not red. -/
def isRed : FLLRBNode κ α → Bool
  | node _ _ .red _ _ => true
  | _ => false

/-- The left child of an empty node is `nil`, which is asked for its color only. -/
def left : FLLRBNode κ α → FLLRBNode κ α
  | empty => empty
  | node _ _ _ l _ => l

def right : FLLRBNode κ α → FLLRBNode κ α
  | empty => empty
  | node _ _ _ _ r => r

def count : FLLRBNode κ α → Nat
  | empty => 0
  | node _ _ _ l r => l.count + 1 + r.count

/-- The bindings in the order of an inorder traversal. -/
def toList : FLLRBNode κ α → List (κ × α)
  | empty => []
  | node k v _ l r => l.toList ++ (k, v) :: r.toList

/-- The binding of `min`; an empty node has none. -/
def min? : FLLRBNode κ α → Option (κ × α)
  | empty => none
  | node k v _ l _ =>
      match l.min? with
      | none => some (k, v)
      | some b => some b

/-- `copyWith` a left child. -/
def withLeft (t l : FLLRBNode κ α) : FLLRBNode κ α :=
  match t with
  | empty => empty
  | node k v c _ r => node k v c l r

/-- `copyWith` a right child. -/
def withRight (t r : FLLRBNode κ α) : FLLRBNode κ α :=
  match t with
  | empty => empty
  | node k v c l _ => node k v c l r

/-- `copyWith` a color. -/
def withColor (t : FLLRBNode κ α) (c : FLLRBColor) : FLLRBNode κ α :=
  match t with
  | empty => empty
  | node k v _ l r => node k v c l r

/-- `copyWith` the other color. -/
def toggled : FLLRBNode κ α → FLLRBNode κ α
  | empty => empty
  | node k v c l r => node k v c.flip l r

@[simp] theorem isRed_empty : (empty : FLLRBNode κ α).isRed = false := rfl

@[simp] theorem isRed_node (k : κ) (v : α) (c : FLLRBColor) (l r : FLLRBNode κ α) :
    (node k v c l r).isRed = decide (c = .red) := by cases c <;> rfl

@[simp] theorem left_node (k : κ) (v : α) (c : FLLRBColor) (l r : FLLRBNode κ α) :
    (node k v c l r).left = l := rfl

@[simp] theorem right_node (k : κ) (v : α) (c : FLLRBColor) (l r : FLLRBNode κ α) :
    (node k v c l r).right = r := rfl

@[simp] theorem toggled_node (k : κ) (v : α) (c : FLLRBColor) (l r : FLLRBNode κ α) :
    (node k v c l r).toggled = node k v c.flip l r := rfl

/-! ## Rotations -/

def rotateLeft : FLLRBNode κ α → FLLRBNode κ α
  | node k v c l (node rk rv _ rl rr) => node rk rv c (node k v .red l rl) rr
  | _ => empty

def rotateRight : FLLRBNode κ α → FLLRBNode κ α
  | node k v c (node lk lv _ ll lr) r => node lk lv c ll (node k v .red lr r)
  | _ => empty

def colorFlip : FLLRBNode κ α → FLLRBNode κ α
  | empty => empty
  | node k v c l r => node k v c.flip l.toggled r.toggled

/-- The first of the three repairs of `fixUp`. -/
def leanLeft (n : FLLRBNode κ α) : FLLRBNode κ α :=
  if n.right.isRed && !n.left.isRed then n.rotateLeft else n

/-- The second. -/
def liftLeft (n : FLLRBNode κ α) : FLLRBNode κ α :=
  if n.left.isRed && n.left.left.isRed then n.rotateRight else n

/-- The third. -/
def splitRed (n : FLLRBNode κ α) : FLLRBNode κ α :=
  if n.left.isRed && n.right.isRed then n.colorFlip else n

def fixUp (self : FLLRBNode κ α) : FLLRBNode κ α := self.leanLeft.liftLeft.splitRed

def moveRedLeft (self : FLLRBNode κ α) : FLLRBNode κ α :=
  let n := self.colorFlip
  if n.right.left.isRed then
    (n.withRight n.right.rotateRight).rotateLeft.colorFlip
  else n

def moveRedRight (self : FLLRBNode κ α) : FLLRBNode κ α :=
  let n := self.colorFlip
  if n.left.left.isRed then n.rotateRight.colorFlip else n

/-- What `remove` and `removeMin` do before they go left. -/
def borrowLeft (n : FLLRBNode κ α) : FLLRBNode κ α :=
  if !n.left.isEmpty && !n.left.isRed && !n.left.left.isRed then n.moveRedLeft else n

/-- A red left child becomes the root before `remove` goes right. -/
def leanRight (n : FLLRBNode κ α) : FLLRBNode κ α :=
  if n.left.isRed then n.rotateRight else n

/-- What `remove` does before it compares the key a second time. -/
def borrowRight (self : FLLRBNode κ α) : FLLRBNode κ α :=
  let n := self.leanRight
  if !n.right.isEmpty && !n.right.isRed && !n.right.left.isRed then n.moveRedRight else n

/-! ## Sizes -/

section Sizes

variable {s t : FLLRBNode κ α}

@[simp] theorem count_toggled (t : FLLRBNode κ α) : t.toggled.count = t.count := by
  cases t <;> rfl

@[simp] theorem count_colorFlip (t : FLLRBNode κ α) : t.colorFlip.count = t.count := by
  cases t with
  | empty => rfl
  | node k v c l r => simp [colorFlip, count]

theorem count_rotateLeft_le (t : FLLRBNode κ α) : t.rotateLeft.count ≤ t.count := by
  rcases t with _ | ⟨k, v, c, l, _ | ⟨rk, rv, rc, rl, rr⟩⟩
  · simp [rotateLeft]
  · simp [rotateLeft, count]
  · simp only [rotateLeft, count]
    omega

theorem count_rotateRight_le (t : FLLRBNode κ α) : t.rotateRight.count ≤ t.count := by
  rcases t with _ | ⟨k, v, c, _ | ⟨lk, lv, lc, ll, lr⟩, r⟩
  · simp [rotateRight]
  · simp [rotateRight, count]
  · simp only [rotateRight, count]
    omega

theorem count_withRight_le (less : s.count ≤ t.right.count) :
    (t.withRight s).count ≤ t.count := by
  cases t with
  | empty => simp [withRight]
  | node k v c l r =>
      simp only [withRight, count, right] at less ⊢
      omega

theorem count_moveRedLeft_le (t : FLLRBNode κ α) : t.moveRedLeft.count ≤ t.count := by
  unfold moveRedLeft
  dsimp only
  split
  · rw [count_colorFlip]
    calc _ ≤ _ := count_rotateLeft_le _
      _ ≤ _ := count_withRight_le (count_rotateRight_le _)
      _ = _ := count_colorFlip t
  · exact Nat.le_of_eq (count_colorFlip t)

theorem count_moveRedRight_le (t : FLLRBNode κ α) : t.moveRedRight.count ≤ t.count := by
  unfold moveRedRight
  dsimp only
  split
  · rw [count_colorFlip]
    exact Nat.le_trans (count_rotateRight_le _) (Nat.le_of_eq (count_colorFlip t))
  · exact Nat.le_of_eq (count_colorFlip t)

theorem count_borrowLeft_le (t : FLLRBNode κ α) : t.borrowLeft.count ≤ t.count := by
  unfold borrowLeft
  split
  · exact count_moveRedLeft_le t
  · exact le_rfl

theorem count_borrowRight_le (t : FLLRBNode κ α) : t.borrowRight.count ≤ t.count := by
  have first : t.leanRight.count ≤ t.count := by
    unfold leanRight
    split
    · exact count_rotateRight_le t
    · exact le_rfl
  unfold borrowRight
  dsimp only
  split
  · exact Nat.le_trans (count_moveRedRight_le _) first
  · exact first

theorem count_leanLeft_le (t : FLLRBNode κ α) : t.leanLeft.count ≤ t.count := by
  unfold leanLeft
  split
  · exact count_rotateLeft_le t
  · exact le_rfl

theorem count_liftLeft_le (t : FLLRBNode κ α) : t.liftLeft.count ≤ t.count := by
  unfold liftLeft
  split
  · exact count_rotateRight_le t
  · exact le_rfl

theorem count_fixUp_le (t : FLLRBNode κ α) : t.fixUp.count ≤ t.count := by
  have third : t.fixUp.count = t.leanLeft.liftLeft.count := by
    unfold fixUp splitRed
    split
    · exact count_colorFlip _
    · rfl
  rw [third]
  exact Nat.le_trans (count_liftLeft_le _) (count_leanLeft_le t)

theorem count_withLeft_le (less : s.count ≤ t.left.count) :
    (t.withLeft s).count ≤ t.count := by
  cases t with
  | empty => simp [withLeft]
  | node k v c l r =>
      simp only [withLeft, count, left] at less ⊢
      omega

/-- Below a tree that is not larger, the left child is smaller. -/
theorem count_left_lt (least : 0 < t.count) (less : s.count ≤ t.count) :
    s.left.count < t.count := by
  cases s with
  | empty => exact least
  | node k v c l r =>
      simp only [left, count] at less ⊢
      omega

end Sizes

/-! ## Bindings

No rotation changes the bindings. The tests on colors that guard a rotation are what
makes the child it lifts a node. -/

section Bindings

variable {s t : FLLRBNode κ α}

theorem toList_of_isEmpty (absent : t.isEmpty = true) : t.toList = [] := by
  cases t with
  | empty => rfl
  | node k v c l r => simp [isEmpty] at absent

@[simp] theorem toList_toggled (t : FLLRBNode κ α) : t.toggled.toList = t.toList := by
  cases t <;> rfl

@[simp] theorem toList_withColor (t : FLLRBNode κ α) (c : FLLRBColor) :
    (t.withColor c).toList = t.toList := by
  cases t <;> rfl

@[simp] theorem toList_colorFlip (t : FLLRBNode κ α) : t.colorFlip.toList = t.toList := by
  cases t with
  | empty => rfl
  | node k v c l r => simp [colorFlip, toList]

theorem toList_rotateLeft (lifted : t.right.isRed = true) :
    t.rotateLeft.toList = t.toList := by
  rcases t with _ | ⟨k, v, c, l, _ | ⟨rk, rv, rc, rl, rr⟩⟩
  · simp [right, isRed] at lifted
  · simp [right, isRed] at lifted
  · simp [rotateLeft, toList]

theorem toList_rotateRight (lifted : t.left.isRed = true) :
    t.rotateRight.toList = t.toList := by
  rcases t with _ | ⟨k, v, c, _ | ⟨lk, lv, lc, ll, lr⟩, r⟩
  · simp [left, isRed] at lifted
  · simp [left, isRed] at lifted
  · simp [rotateRight, toList]

@[simp] theorem toList_fixUp (t : FLLRBNode κ α) : t.fixUp.toList = t.toList := by
  have first : t.leanLeft.toList = t.toList := by
    unfold leanLeft
    split
    · rename_i tested
      exact toList_rotateLeft (Bool.and_eq_true _ _ |>.mp tested).1
    · rfl
  have second (n : FLLRBNode κ α) : n.liftLeft.toList = n.toList := by
    unfold liftLeft
    split
    · rename_i tested
      exact toList_rotateRight (Bool.and_eq_true _ _ |>.mp tested).1
    · rfl
  have third (n : FLLRBNode κ α) : n.splitRed.toList = n.toList := by
    unfold splitRed
    split
    · exact toList_colorFlip n
    · rfl
  rw [fixUp, third, second, first]

@[simp] theorem toList_moveRedLeft (t : FLLRBNode κ α) : t.moveRedLeft.toList = t.toList := by
  unfold moveRedLeft
  dsimp only
  split
  · rename_i tested
    -- The right child has a red left child, so both rotations lift a node.
    rcases t with _ | ⟨k, v, c, l, _ | ⟨rk, rv, rc, _ | ⟨rlk, rlv, rlc, a, b⟩, rr⟩⟩
    · simp [colorFlip, right, left, isRed] at tested
    · simp [colorFlip, toggled, right, left, isRed] at tested
    · simp [colorFlip, toggled, right, left, isRed] at tested
    · simp [colorFlip, right, withRight, rotateRight, rotateLeft, toList]
  · exact toList_colorFlip t

@[simp] theorem toList_moveRedRight (t : FLLRBNode κ α) :
    t.moveRedRight.toList = t.toList := by
  unfold moveRedRight
  dsimp only
  split
  · rename_i tested
    rcases t with _ | ⟨k, v, c, _ | ⟨lk, lv, lc, a, b⟩, r⟩
    · simp [colorFlip, left] at tested
    · simp [colorFlip, toggled, left, isRed] at tested
    · simp [colorFlip, rotateRight, toList]
  · exact toList_colorFlip t

@[simp] theorem toList_borrowLeft (t : FLLRBNode κ α) : t.borrowLeft.toList = t.toList := by
  unfold borrowLeft
  split
  · exact toList_moveRedLeft t
  · rfl

@[simp] theorem toList_borrowRight (t : FLLRBNode κ α) : t.borrowRight.toList = t.toList := by
  have first : t.leanRight.toList = t.toList := by
    unfold leanRight
    split
    · rename_i tested
      exact toList_rotateRight tested
    · rfl
  unfold borrowRight
  dsimp only
  split
  · rw [toList_moveRedRight, first]
  · exact first

theorem length_toList (t : FLLRBNode κ α) : t.toList.length = t.count := by
  induction t with
  | empty => rfl
  | node k v c l r ihl ihr =>
      simp only [toList, count, List.length_append, List.length_cons, ihl, ihr]
      omega

/-- `min` is the first binding. -/
theorem min?_eq_head? (t : FLLRBNode κ α) : t.min? = t.toList.head? := by
  induction t with
  | empty => rfl
  | node k v c l r ihl _ =>
      rw [min?, ihl, toList]
      cases l.toList <;> rfl

end Bindings

/-! ## The color of the root

No test that a rotation makes looks at the color of the root it is applied to. So
the operations commute with repainting the root. -/

section Roots

variable {s t : FLLRBNode κ α}

@[simp] theorem left_toggled (t : FLLRBNode κ α) : t.toggled.left = t.left := by
  cases t <;> rfl

@[simp] theorem right_toggled (t : FLLRBNode κ α) : t.toggled.right = t.right := by
  cases t <;> rfl

@[simp] theorem withColor_toggled (t : FLLRBNode κ α) (c : FLLRBColor) :
    t.toggled.withColor c = t.withColor c := by
  cases t <;> rfl

@[simp] theorem withLeft_toggled (t s : FLLRBNode κ α) :
    t.toggled.withLeft s = (t.withLeft s).toggled := by
  cases t <;> rfl

@[simp] theorem withRight_toggled (t s : FLLRBNode κ α) :
    t.toggled.withRight s = (t.withRight s).toggled := by
  cases t <;> rfl

@[simp] theorem rotateLeft_toggled (t : FLLRBNode κ α) :
    t.toggled.rotateLeft = t.rotateLeft.toggled := by
  rcases t with _ | ⟨k, v, c, l, _ | ⟨rk, rv, rc, rl, rr⟩⟩ <;> rfl

@[simp] theorem rotateRight_toggled (t : FLLRBNode κ α) :
    t.toggled.rotateRight = t.rotateRight.toggled := by
  rcases t with _ | ⟨k, v, c, _ | ⟨lk, lv, lc, ll, lr⟩, r⟩ <;> rfl

@[simp] theorem colorFlip_toggled (t : FLLRBNode κ α) :
    t.toggled.colorFlip = t.colorFlip.toggled := by
  cases t <;> rfl

theorem ite_toggled (p : Prop) [Decidable p] (s t : FLLRBNode κ α) :
    (if p then s.toggled else t.toggled) = (if p then s else t).toggled := by
  split <;> rfl

@[simp] theorem fixUp_toggled (t : FLLRBNode κ α) : t.toggled.fixUp = t.fixUp.toggled := by
  have first : t.toggled.leanLeft = t.leanLeft.toggled := by simp [leanLeft, ite_toggled]
  have second (n : FLLRBNode κ α) : n.toggled.liftLeft = n.liftLeft.toggled := by
    simp [liftLeft, ite_toggled]
  have third (n : FLLRBNode κ α) : n.toggled.splitRed = n.splitRed.toggled := by
    simp [splitRed, ite_toggled]
  rw [fixUp, first, second, third, fixUp]

@[simp] theorem borrowLeft_toggled (t : FLLRBNode κ α) :
    t.toggled.borrowLeft = t.borrowLeft.toggled := by
  simp [borrowLeft, moveRedLeft, ite_toggled]

@[simp] theorem borrowRight_toggled (t : FLLRBNode κ α) :
    t.toggled.borrowRight = t.borrowRight.toggled := by
  have first : t.toggled.leanRight = t.leanRight.toggled := by simp [leanRight, ite_toggled]
  simp [borrowRight, moveRedRight, first, ite_toggled]

end Roots

/-! ## Inserting and removing -/

variable (cmp : κ → κ → Ordering)

def insertKey (aKey : κ) (aValue : α) : FLLRBNode κ α → FLLRBNode κ α
  | empty => node aKey aValue .red empty empty
  | node k v c l r =>
      match cmp aKey k with
      | .lt => (node k v c (insertKey aKey aValue l) r).fixUp
      | .eq => (node k aValue c l r).fixUp
      | .gt => (node k v c l (insertKey aKey aValue r)).fixUp

/-- The left child is not empty where `borrowLeft` is reached, so its first test is void. -/
def removeMin : FLLRBNode κ α → FLLRBNode κ α
  | empty => empty
  | node k v c l r =>
      if l.isEmpty then empty
      else
        let n := (node k v c l r).borrowLeft
        (n.withLeft n.left.removeMin).fixUp
termination_by t => t.count
decreasing_by
  exact count_left_lt (by simp only [count]; omega) (count_borrowLeft_le _)

theorem count_removeMin_le (t : FLLRBNode κ α) : t.removeMin.count ≤ t.count := by
  induction t using removeMin.induct with
  | case1 => simp [removeMin]
  | case2 k v c l r isEmpty => simp [removeMin, isEmpty, count]
  | case3 k v c l r nonempty n ih =>
      rw [removeMin, if_neg nonempty]
      calc _ ≤ _ := count_fixUp_le _
        _ ≤ n.count := count_withLeft_le ih
        _ ≤ _ := count_borrowLeft_le _

/-- After the smallest key of the right child has replaced the removed one, the key is
searched for in what is left of that child once more. -/
def remove (aKey : κ) (self : FLLRBNode κ α) : FLLRBNode κ α :=
  match self with
  | empty => empty
  | node key value color left right =>
      if cmp aKey key = .lt then
        let n := (node key value color left right).borrowLeft
        (n.withLeft (remove aKey n.left)).fixUp
      else
        match _ : (node key value color left right).borrowRight with
        | empty => empty
        | node k v c l r =>
            if cmp aKey k = .eq then
              match r.min? with
              | none => empty
              | some (sk, sv) => (node sk sv c l (remove aKey r.removeMin)).fixUp
            else (node k v c l (remove aKey r)).fixUp
termination_by self.count
decreasing_by
  · exact count_left_lt (by simp only [count]; omega) (count_borrowLeft_le _)
  · rename_i shape _
    have less := count_borrowRight_le (node key value color left right)
    have smaller := count_removeMin_le r
    rw [shape] at less
    simp only [count] at less ⊢
    omega
  · rename_i shape _
    have less := count_borrowRight_le (node key value color left right)
    rw [shape] at less
    simp only [count] at less ⊢
    omega

end FLLRBNode

end GAMember
