import GAMember.Firebase.Llrb

/-!
# Balance of the database client's tree

`check` is the validity test the client has for its trees: no red node has a red
left child, no right child is red, and every path has the same number of black
nodes. `Balanced c h` says so for a root of color `c` and a black depth `h`.

Insertion may leave a red root over a red left child (`Inserted`). Removal is
stated for a node that is red, or black with a red left child (`Ready`): such a
node can give one up and keeps its depth (`Removed`). The client does not paint
a black root red before it removes, as the textbook version of this algorithm
does. That this makes no difference is `FLLRBNode.remove_toggled`.

`remove` also searches for the removed key once more below the place where it
was (`FLLRBNode.remove`). That search rotates on its way down but leaves the
color and the depth of each node as they were (`FLLRBNode.remove_of_below`).
-/

namespace GAMember

/-- The exceptions `check` throws, in the order of its tests. -/
inductive CheckFailure
  | redChild
  | rightRed
  | blackDepth (left right : Nat)
  deriving DecidableEq, Repr

namespace FLLRBNode

variable {κ α : Type}

def check : FLLRBNode κ α → Except CheckFailure Nat
  | empty => .ok 0
  | node k v c l r =>
      if (node k v c l r).isRed && l.isRed then .error .redChild
      else if r.isRed then .error .rightRed
      else do
        let blackDepth ← l.check
        let other ← r.check
        if blackDepth ≠ other then .error (.blackDepth blackDepth other)
        else .ok (blackDepth + if (node k v c l r).isRed then 0 else 1)

/-- A valid tree with a root of color `c` and black depth `h`. -/
inductive Balanced : FLLRBColor → Nat → FLLRBNode κ α → Prop
  | empty : Balanced .black 0 .empty
  | red {h : Nat} {k : κ} {v : α} {l r : FLLRBNode κ α}
      (left : Balanced .black h l) (right : Balanced .black h r) :
      Balanced .red h (node k v .red l r)
  | black {c : FLLRBColor} {h : Nat} {k : κ} {v : α} {l r : FLLRBNode κ α}
      (left : Balanced c h l) (right : Balanced .black h r) :
      Balanced .black (h + 1) (node k v .black l r)

/-- What inserting makes of a tree with a root of color `c`. -/
inductive Inserted : FLLRBColor → Nat → FLLRBNode κ α → Prop
  | black {c : FLLRBColor} {h : Nat} {t : FLLRBNode κ α} (valid : Balanced c h t) :
      Inserted .black h t
  | red {c : FLLRBColor} {h : Nat} {k : κ} {v : α} {l r : FLLRBNode κ α}
      (left : Balanced c h l) (right : Balanced .black h r) :
      Inserted .red h (node k v .red l r)

/-- A valid node that can lose a key without losing depth. -/
inductive Ready : FLLRBColor → Nat → FLLRBNode κ α → Prop
  | red {h : Nat} {k : κ} {v : α} {l r : FLLRBNode κ α}
      (left : Balanced .black h l) (right : Balanced .black h r) :
      Ready .red h (node k v .red l r)
  | three {h : Nat} {k : κ} {v : α} {l r : FLLRBNode κ α}
      (left : Balanced .red h l) (right : Balanced .black h r) :
      Ready .black (h + 1) (node k v .black l r)

/-- What removing makes of a ready node of color `c`: a red one may turn black. -/
inductive Removed : FLLRBColor → Nat → FLLRBNode κ α → Prop
  | black {c : FLLRBColor} {h : Nat} {t : FLLRBNode κ α} (valid : Balanced .black h t) :
      Removed c h t
  | red {h : Nat} {t : FLLRBNode κ α} (valid : Balanced .red h t) : Removed .red h t

variable {c cl cr : FLLRBColor} {h : Nat} {k : κ} {v : α} {t l r : FLLRBNode κ α}

/-! ## Reading a valid tree -/

/-- A black tree of depth 0 is empty. -/
theorem Balanced.eq_empty (valid : Balanced .black 0 t) : t = .empty := by
  cases valid with
  | empty => rfl

theorem Balanced.isRed (valid : Balanced c h t) : t.isRed = decide (c = .red) := by
  cases valid <;> rfl

/-- A red node of a valid tree has a left child that is not red. -/
theorem Balanced.left_of_red (valid : Balanced .red h t) : t.left.isRed = false := by
  cases valid with
  | red left _ => exact left.isRed

theorem Ready.balanced (ready : Ready c h t) : Balanced c h t := by
  cases ready with
  | red left right => exact .red left right
  | three left right => exact .black left right

theorem Removed.exists (removed : Removed c h t) : ∃ c', Balanced c' h t := by
  cases removed with
  | black valid => exact ⟨_, valid⟩
  | red valid => exact ⟨_, valid⟩

theorem Removed.of_black (removed : Removed .black h t) : Balanced .black h t := by
  cases removed with
  | black valid => exact valid

/-- The black nodes a black root adds to a path. -/
theorem Balanced.withColor_black (valid : Balanced c h t) :
    Balanced .black (if c = .red then h + 1 else h) (t.withColor .black) := by
  cases valid with
  | empty => exact .empty
  | red left right => exact .black left right
  | black left right => exact .black left right

/-- Painting a red node black, and a black node with black children red. -/
theorem Balanced.toggled_of_red (valid : Balanced .red h t) :
    Balanced .black (h + 1) t.toggled := by
  cases valid with
  | red left right => exact .black left right

/-- `check` accepts exactly the valid trees and answers their black depth. -/
theorem check_eq_ok_iff {h : Nat} : t.check = .ok h ↔ ∃ c, Balanced c h t := by
  constructor
  · intro passed
    induction t generalizing h with
    | empty =>
        cases passed
        exact ⟨.black, .empty⟩
    | node k v c l r ihl ihr =>
        rw [check] at passed
        split at passed
        · cases passed
        · rename_i noRedChild
          split at passed
          · cases passed
          · rename_i rightBlack
            -- Both children have passed, with one depth.
            cases leftChecked : l.check with
            | error e => simp [leftChecked, bind, Except.bind] at passed
            | ok hl =>
                cases rightChecked : r.check with
                | error e => simp [leftChecked, rightChecked, bind, Except.bind] at passed
                | ok hr =>
                    simp only [leftChecked, rightChecked, bind, Except.bind] at passed
                    split at passed
                    · cases passed
                    · rename_i same
                      obtain rfl : hl = hr := of_not_not same
                      obtain ⟨cl, left⟩ := ihl leftChecked
                      obtain ⟨cr, right⟩ := ihr rightChecked
                      cases cr with
                      | red => exact absurd right.isRed rightBlack
                      | black =>
                          cases c with
                          | black =>
                              cases passed
                              exact ⟨.black, .black left right⟩
                          | red =>
                              cases passed
                              cases cl with
                              | black => exact ⟨.red, .red left right⟩
                              | red => simp [left.isRed] at noRedChild
  · rintro ⟨c, valid⟩
    induction valid with
    | empty => rfl
    | red left right ihl ihr =>
        simp [check, left.isRed, right.isRed, ihl, ihr, bind, Except.bind]
    | black left right ihl ihr =>
        simp [check, right.isRed, ihl, ihr, bind, Except.bind]

/-! ## What `fixUp` repairs -/

/-- Nothing to repair. -/
theorem fixUp_of_lean (left : Balanced cl h l) (right : Balanced .black h r) :
    (node k v c l r).fixUp = node k v c l r := by
  have inner : (l.isRed && l.left.isRed) = false := by
    cases cl with
    | black => simp [left.isRed]
    | red => simp [left.left_of_red]
  have first : (node k v c l r).leanLeft = node k v c l r := by
    simp [leanLeft, right.isRed]
  have second : (node k v c l r).liftLeft = node k v c l r := by
    simp only [liftLeft, left_node, inner, Bool.false_eq_true, if_false]
  have third : (node k v c l r).splitRed = node k v c l r := by
    simp [splitRed, right.isRed]
  rw [fixUp, first, second, third]

/-- A red right child beside a black left one leans left afterwards. -/
theorem fixUp_of_right (left : Balanced .black h l) {rk : κ} {rv : α} {rl rr : FLLRBNode κ α}
    (rightLeft : Balanced .black h rl) (rightRight : Balanced .black h rr) :
    (node k v c l (node rk rv .red rl rr)).fixUp =
      node rk rv c (node k v .red l rl) rr := by
  have first : (node k v c l (node rk rv .red rl rr)).leanLeft =
      node rk rv c (node k v .red l rl) rr := by
    simp [leanLeft, left.isRed, rotateLeft]
  have rest : (node rk rv c (node k v .red l rl) rr).fixUp =
      node rk rv c (node k v .red l rl) rr :=
    fixUp_of_lean (.red left rightLeft) rightRight
  have still : (node rk rv c (node k v .red l rl) rr).leanLeft =
      node rk rv c (node k v .red l rl) rr := by
    simp [leanLeft, rightRight.isRed]
  rw [fixUp, still] at rest
  rw [fixUp, first]
  exact rest

/-- Two red children are split. -/
theorem fixUp_of_red (left : Balanced .red h l) (right : Balanced .red h r) :
    (node k v c l r).fixUp = node k v c.flip l.toggled r.toggled := by
  have first : (node k v c l r).leanLeft = node k v c l r := by
    simp [leanLeft, left.isRed]
  have second : (node k v c l r).liftLeft = node k v c l r := by
    simp [liftLeft, left.left_of_red]
  rw [fixUp, first, second]
  simp [splitRed, left.isRed, right.isRed, colorFlip]

/-- Under a black node whose left child is black, any valid right child is repaired. -/
theorem balanced_fixUp_black (left : Balanced .black h l) (right : Balanced cr h r) :
    Balanced .black (h + 1) (node k v .black l r).fixUp := by
  cases cr with
  | black =>
      rw [fixUp_of_lean left right]
      exact .black left right
  | red =>
      cases right with
      | red rightLeft rightRight =>
          rw [fixUp_of_right left rightLeft rightRight]
          exact .black (.red left rightLeft) rightRight

/-- Under a black node whose left child is red, a red right child turns the node red. -/
theorem removed_fixUp_black (left : Balanced .red h l) (right : Balanced cr h r) :
    Removed .red (h + 1) (node k v .black l r).fixUp := by
  cases cr with
  | black =>
      rw [fixUp_of_lean left right]
      exact .black (.black left right)
  | red =>
      rw [fixUp_of_red left right]
      exact .red (.red left.toggled_of_red right.toggled_of_red)

/-! ## Inserting -/

section Inserting

variable (cmp : κ → κ → Ordering) (aKey : κ) (aValue : α)

theorem inserted_fixUp_left (left : Inserted cl h l) (right : Balanced .black h r) :
    ∃ c', Balanced c' (h + 1) (node k v .black l r).fixUp := by
  cases left with
  | black valid =>
      rw [fixUp_of_lean valid right]
      exact ⟨_, .black valid right⟩
  | @red c h lk lv ll lr leftLeft leftRight =>
      cases c with
      | black =>
          have valid : Balanced .red h (node lk lv .red ll lr) := .red leftLeft leftRight
          rw [fixUp_of_lean valid right]
          exact ⟨_, .black valid right⟩
      | red =>
          -- Two red nodes in a row: the upper one is lifted, then the node is split.
          refine ⟨.red, ?_⟩
          have lifted : (node k v .black (node lk lv .red ll lr) r).fixUp =
              node lk lv .red ll.toggled (node k v .black lr r) := by
            simp [fixUp, leanLeft, liftLeft, splitRed, leftLeft.isRed, right.isRed, rotateRight,
              colorFlip, FLLRBColor.flip]
          rw [lifted]
          exact .red leftLeft.toggled_of_red (.black leftRight right)

theorem inserted_fixUp_red (left : Balanced .black h l) (right : Balanced cr h r) :
    Inserted .red h (node k v .red l r).fixUp := by
  cases cr with
  | black =>
      rw [fixUp_of_lean left right]
      exact .red left right
  | red =>
      cases right with
      | red rightLeft rightRight =>
          rw [fixUp_of_right left rightLeft rightRight]
          exact .red (.red left rightLeft) rightRight

/-- Inserting keeps the black depth. -/
theorem inserted_insertKey (valid : Balanced c h t) :
    Inserted c h (insertKey cmp aKey aValue t) := by
  induction valid with
  | empty => exact .black (.red .empty .empty)
  | @red h k v l r left right ihl ihr =>
      rw [insertKey]
      split
      · cases ihl with
        | black valid =>
            rw [fixUp_of_lean valid right]
            exact .red valid right
      · rw [fixUp_of_lean left right]
        exact .red left right
      · cases ihr with
        | black valid => exact inserted_fixUp_red left valid
  | @black c h k v l r left right ihl ihr =>
      rw [insertKey]
      split
      · obtain ⟨_, valid⟩ := inserted_fixUp_left ihl right
        exact .black valid
      · rw [fixUp_of_lean left right]
        exact .black (.black left right)
      · cases ihr with
        | black valid =>
            cases c with
            | black => exact .black (balanced_fixUp_black left valid)
            | red =>
                obtain ⟨_, valid⟩ := (removed_fixUp_black left valid).exists
                exact .black valid

theorem toList_insertKey [Std.TransCmp cmp] (sorted : Table.Sorted cmp t.toList) :
    (insertKey cmp aKey aValue t).toList = Table.insert cmp aKey aValue t.toList := by
  induction t with
  | empty => rfl
  | node k v c l r ihl ihr =>
      rcases Table.sorted_split.mp sorted with ⟨left, right, _, _⟩
      rw [toList, Table.insert_split sorted, insertKey]
      cases cmp aKey k with
      | lt => simp only [toList_fixUp, toList, ihl left]
      | eq => simp only [toList_fixUp, toList]
      | gt => simp only [toList_fixUp, toList, ihr right]

end Inserting

end FLLRBNode

end GAMember
