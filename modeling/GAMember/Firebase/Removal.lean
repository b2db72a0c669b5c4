import GAMember.Firebase.Balance

/-!
# Removing from the database client's tree

`remove` moves a red node down the path it takes, so that the node it deletes can
be given up without changing the black depth. `Lent` says what `borrowLeft` has
made of a red node, and `GivesRight` what `borrowRight` has. In both, the child
`remove` goes on with is one it can remove from.

`remove_root` then says what the client's `removeKey` does at a root: the tree
stays valid and loses the binding of the key.
-/

namespace GAMember

namespace FLLRBNode

variable {κ α : Type} {c cl cr : FLLRBColor} {h : Nat} {k : κ} {v : α}
  {t l r : FLLRBNode κ α}

/-! ## Going left -/

/-- Removal may go on in the left child of `n`: whatever it leaves there is repaired to
a tree of color `c` and depth `h`. -/
structure GivesLeft (c : FLLRBColor) (h : Nat) (n : FLLRBNode κ α) (cl : FLLRBColor)
    (hl : Nat) : Prop where
  ready : Ready cl hl n.left
  removed : ∀ l', Removed cl hl l' → Removed c h (n.withLeft l').fixUp
  balanced : ∀ l', Balanced cl hl l' → Balanced c h (n.withLeft l').fixUp

/-- What `borrowLeft` makes of a red node with black children of depth `h`. -/
inductive Lent : Nat → FLLRBNode κ α → Prop
  | kept {h : Nat} {k : κ} {v : α} {l r : FLLRBNode κ α}
      (left : Ready .black h l) (right : Balanced .black h r) :
      Lent h (node k v .red l r)
  | merged {h : Nat} {k : κ} {v : α} {l r : FLLRBNode κ α}
      (left : Ready .red h l) (right : Balanced .red h r) :
      Lent (h + 1) (node k v .black l r)

/-- The two ways `moveRedLeft` ends. -/
theorem lent_moveRedLeft {lk rk : κ} {lv rv : α} {ll lr rl rr : FLLRBNode κ α}
    (leftLeft : Balanced .black h ll) (leftRight : Balanced .black h lr)
    (rightLeft : Balanced cr h rl) (rightRight : Balanced .black h rr) :
    Lent (h + 1)
      (node k v .red (node lk lv .black ll lr) (node rk rv .black rl rr)).moveRedLeft := by
  cases cr with
  | black =>
      have merged : (node k v .red (node lk lv .black ll lr)
          (node rk rv .black rl rr)).moveRedLeft =
            node k v .black (node lk lv .red ll lr) (node rk rv .red rl rr) := by
        simp [moveRedLeft, colorFlip, rightLeft.isRed, FLLRBColor.flip]
      rw [merged]
      exact .merged (.red leftLeft leftRight) (.red rightLeft rightRight)
  | red =>
      cases rightLeft with
      | @red _ rlk rlv a b first second =>
          have kept : (node k v .red (node lk lv .black ll lr)
              (node rk rv .black (node rlk rlv .red a b) rr)).moveRedLeft =
                node rlk rlv .red (node k v .black (node lk lv .red ll lr) a)
                  (node rk rv .black b rr) := by
            simp [moveRedLeft, colorFlip, withRight, rotateRight, rotateLeft, FLLRBColor.flip]
          rw [kept]
          exact .kept (.three (.red leftLeft leftRight) first) (.black second rightRight)

theorem lent_borrowLeft (nonempty : l.isEmpty = false) (left : Balanced .black h l)
    (right : Balanced .black h r) : Lent h (node k v .red l r).borrowLeft := by
  cases left with
  | empty => simp [isEmpty] at nonempty
  | @black c h lk lv ll lr leftLeft leftRight =>
      cases c with
      | red =>
          have kept : (node k v .red (node lk lv .black ll lr) r).borrowLeft =
              node k v .red (node lk lv .black ll lr) r := by
            simp [borrowLeft, leftLeft.isRed]
          rw [kept]
          exact .kept (.three leftLeft leftRight) right
      | black =>
          cases right with
          | @black _ _ rk rv rl rr rightLeft rightRight =>
              have moved :
                  (node k v .red (node lk lv .black ll lr)
                    (node rk rv .black rl rr)).borrowLeft =
                  (node k v .red (node lk lv .black ll lr)
                    (node rk rv .black rl rr)).moveRedLeft := by
                simp [borrowLeft, isEmpty, leftLeft.isRed]
              rw [moved]
              exact lent_moveRedLeft leftLeft leftRight rightLeft rightRight

theorem Lent.givesLeft {n : FLLRBNode κ α} (lent : Lent h n) :
    ∃ cl hl, GivesLeft .red h n cl hl := by
  cases lent with
  | @kept _ k v _ r left right =>
      have repaired (l' : FLLRBNode κ α) (valid : Balanced .black h l') :
          Balanced .red h (node k v .red l' r).fixUp := by
        rw [fixUp_of_lean valid right]
        exact .red valid right
      exact ⟨_, _, left, fun l' removed => .red (repaired l' removed.of_black), repaired⟩
  | @merged hl k v _ r left right =>
      have split (l' : FLLRBNode κ α) (valid : Balanced .red hl l') :
          Balanced .red (hl + 1) (node k v .black l' r).fixUp := by
        rw [fixUp_of_red valid right]
        exact .red valid.toggled_of_red right.toggled_of_red
      refine ⟨_, _, left, fun l' removed => ?_, split⟩
      cases removed with
      | red valid => exact .red (split l' valid)
      | black valid => exact .black (balanced_fixUp_black valid right)

/-- Removal can go left from a ready node whose left child is there. -/
theorem Ready.givesLeft {color : FLLRBColor} (ready : Ready c h (node k v color l r))
    (nonempty : l.isEmpty = false) :
    ∃ cl hl, GivesLeft c h (node k v color l r).borrowLeft cl hl := by
  cases ready with
  | red left right => exact (lent_borrowLeft nonempty left right).givesLeft
  | @three hl _ _ _ _ left right =>
      have kept : (node k v .black l r).borrowLeft = node k v .black l r := by
        simp [borrowLeft, left.isRed]
      have repaired (c' : FLLRBColor) (l' : FLLRBNode κ α) (valid : Balanced c' hl l') :
          Balanced .black (hl + 1) (node k v .black l' r).fixUp := by
        rw [fixUp_of_lean valid right]
        exact .black valid right
      rw [kept]
      cases left with
      | red leftLeft leftRight =>
          refine ⟨_, _, .red leftLeft leftRight, fun l' removed => ?_, repaired _⟩
          obtain ⟨c', valid⟩ := removed.exists
          exact .black (repaired c' l' valid)

/-! ## The smallest key -/

theorem Ready.toList_ne_nil (ready : Ready c h t) : t.toList ≠ [] := by
  cases ready <;> simp [toList]

theorem toList_withLeft_tail {n l' : FLLRBNode κ α} (left : n.left.toList ≠ [])
    (rest : l'.toList = n.left.toList.tail) : (n.withLeft l').toList = n.toList.tail := by
  cases n with
  | empty => exact absurd rfl left
  | node k v c l r =>
      rw [left_node] at left rest
      rw [withLeft, toList, toList, rest, List.tail_append_of_ne_nil left]

theorem removeMin_spec (ready : Ready c h t) :
    Removed c h t.removeMin ∧ t.removeMin.toList = t.toList.tail := by
  induction t using removeMin.induct generalizing c h with
  | case1 => cases ready
  | case2 k v c l r absent =>
      rw [removeMin, if_pos absent]
      cases ready with
      | red left right =>
          cases left with
          | empty =>
              rw [right.eq_empty]
              exact ⟨.black .empty, rfl⟩
          | black => simp [isEmpty] at absent
      | three left _ =>
          cases left with
          | red => simp [isEmpty] at absent
  | case3 k v color l r nonempty n =>
      rename_i ih
      rw [removeMin, if_neg nonempty]
      obtain ⟨cl, hl, gives⟩ := ready.givesLeft (by simpa using nonempty)
      rcases ih gives.ready with ⟨removed, rest⟩
      refine ⟨gives.removed _ removed, ?_⟩
      rw [toList_fixUp, ← toList_borrowLeft (node k v color l r)]
      exact toList_withLeft_tail gives.ready.toList_ne_nil rest

/-! ## Searching for a key that is not there -/

section Below

variable {cmp : κ → κ → Ordering} {aKey : κ}

theorem remove_of_lt (less : cmp aKey k = .lt) :
    remove cmp aKey (node k v c l r) =
      ((node k v c l r).borrowLeft.withLeft
        (remove cmp aKey (node k v c l r).borrowLeft.left)).fixUp := by
  rw [remove, if_pos less]

theorem Balanced.fixUp_eq (valid : Balanced c h t) : t.fixUp = t := by
  cases valid with
  | empty => rfl
  | red left right => exact fixUp_of_lean left right
  | black left right => exact fixUp_of_lean left right

/-- A valid node repairs a left child that has kept its color and its depth. This holds
of a black node with black children too, which is a red one repainted. -/
theorem Balanced.keepsLeft (valid : Balanced c h (node k v c l r))
    (nonempty : l.isEmpty = false) :
    ∃ cl hl, Balanced cl hl (node k v c l r).borrowLeft.left ∧
      ∀ l', Balanced cl hl l' →
        Balanced c h ((node k v c l r).borrowLeft.withLeft l').fixUp := by
  cases valid with
  | red left right =>
      obtain ⟨cl, hl, gives⟩ := Ready.givesLeft (.red (k := k) (v := v) left right) nonempty
      exact ⟨cl, hl, gives.ready.balanced, gives.balanced⟩
  | @black cl h _ _ _ _ left right =>
      cases cl with
      | red =>
          obtain ⟨cl, hl, gives⟩ := (Ready.three left right).givesLeft nonempty
          exact ⟨cl, hl, gives.ready.balanced, gives.balanced⟩
      | black =>
          obtain ⟨cl, hl, gives⟩ := (Ready.red left right).givesLeft nonempty
          have repainted : node k v .black l r = (node k v .red l r).toggled := rfl
          rw [repainted]
          simp only [borrowLeft_toggled, left_toggled, withLeft_toggled, fixUp_toggled]
          exact ⟨cl, hl, gives.ready.balanced, fun l' kept =>
            (gives.balanced l' kept).toggled_of_red⟩

theorem toList_withLeft {n l' : FLLRBNode κ α} (same : l'.toList = n.left.toList) :
    (n.withLeft l').toList = n.toList := by
  cases n with
  | empty => rfl
  | node k v c l r => rw [withLeft, toList, toList, same, left_node]

theorem below_left {n : FLLRBNode κ α} (below : Table.Below cmp aKey n.toList) :
    Table.Below cmp aKey n.left.toList := by
  cases n with
  | empty => exact below
  | node k v c l r => exact (Table.below_append.mp below).1

/-- **Searching below every key changes nothing that counts.** The path to the leftmost
place is rebuilt, with the bindings, the color and the black depth it had. -/
theorem remove_of_below (valid : Balanced c h t) (below : Table.Below cmp aKey t.toList) :
    Balanced c h (remove cmp aKey t) ∧ (remove cmp aKey t).toList = t.toList := by
  induction size_eq : t.count using Nat.strongRecOn generalizing t c h with
  | ind size ih =>
      cases t with
      | empty =>
          rw [remove]
          exact ⟨valid, rfl⟩
      | node k v color l r =>
          obtain rfl : color = c := by cases valid <;> rfl
          have less : cmp aKey k = .lt :=
            (Table.below_cons.mp (Table.below_append.mp below).2).1
          rw [remove_of_lt less]
          cases nonempty : l.isEmpty with
          | true =>
              have still : (node k v color l r).borrowLeft = node k v color l r := by
                simp [borrowLeft, nonempty]
              cases l with
              | node => simp [isEmpty] at nonempty
              | empty =>
                  rw [still, left_node, remove, withLeft, valid.fixUp_eq]
                  exact ⟨valid, rfl⟩
          | false =>
              obtain ⟨cl, hl, left, keeps⟩ := valid.keepsLeft nonempty
              have smaller : (node k v color l r).borrowLeft.left.count < size := by
                subst size_eq
                exact count_left_lt (by simp only [count]; omega) (count_borrowLeft_le _)
              rw [← toList_borrowLeft (node k v color l r)] at below ⊢
              rcases ih _ smaller left (below_left below) rfl with ⟨kept, same⟩
              refine ⟨keeps _ kept, ?_⟩
              rw [toList_fixUp]
              exact toList_withLeft same

end Below

/-! ## Going right -/

section Searching

variable {cmp : κ → κ → Ordering} {aKey : κ}

theorem gt_of_not_lt [Std.TransCmp cmp] {lower : κ} (notLess : cmp aKey k ≠ .lt)
    (ordered : cmp lower k = .lt) : cmp aKey lower = .gt := by
  have least : (cmp k aKey).isLE := Std.OrientedCmp.isGE_iff_isLE.mp
    (Ordering.isGE_iff_ne_lt.mpr notLess)
  exact Std.OrientedCmp.gt_of_lt (Std.TransCmp.lt_of_lt_of_isLE ordered least)

/-- A node `remove` can be called on: a ready one, or one that `moveRedRight` has made,
whose red child is on the right and whose key is not above the searched one. -/
inductive Removable (cmp : κ → κ → Ordering) (aKey : κ) :
    FLLRBColor → Nat → FLLRBNode κ α → Prop
  | ready {c : FLLRBColor} {h : Nat} {t : FLLRBNode κ α} (ready : Ready c h t) :
      Removable cmp aKey c h t
  | leansRight {h : Nat} {k : κ} {v : α} {l r : FLLRBNode κ α}
      (notLess : cmp aKey k ≠ .lt) (left : Balanced .black h l) (right : Balanced .red h r) :
      Removable cmp aKey .black (h + 1) (node k v .black l r)

/-- Removal may go on in the right child `r` of a node with the key `k`, or the node may
take the smallest key of `r`. -/
structure GivesRight (cmp : κ → κ → Ordering) (aKey : κ) (c : FLLRBColor) (h : Nat) (k : κ)
    (color : FLLRBColor) (l r : FLLRBNode κ α) (cr : FLLRBColor) (hr : Nat) : Prop where
  notLess : cmp aKey k ≠ .lt
  removable : Removable cmp aKey cr hr r
  ready : cmp aKey k = .eq → Ready cr hr r
  removed : ∀ k' v' r', Removed cr hr r' → Removed c h (node k' v' color l r').fixUp

/-- `borrowRight` on a red node over black children of depth `h + 1`, the right one without
a red child: the two ways `moveRedRight` ends. -/
theorem givesRight_moveRedRight [Std.TransCmp cmp] {lk rk : κ} {lv rv : α}
    {ll lr rl rr : FLLRBNode κ α} (notLess : cmp aKey k ≠ .lt) (ordered : cmp lk k = .lt)
    (leftLeft : Balanced cl h ll) (leftRight : Balanced .black h lr)
    (rightLeft : Balanced .black h rl) (rightRight : Balanced .black h rr) :
    ∃ k' v' c' l' r' cr hr,
      (node k v .red (node lk lv .black ll lr) (node rk rv .black rl rr)).borrowRight =
        node k' v' c' l' r' ∧
      GivesRight cmp aKey .red (h + 1) k' c' l' r' cr hr := by
  have moved : (node k v .red (node lk lv .black ll lr) (node rk rv .black rl rr)).borrowRight =
      (node k v .red (node lk lv .black ll lr) (node rk rv .black rl rr)).moveRedRight := by
    simp [borrowRight, leanRight, isEmpty, rightLeft.isRed]
  rw [moved]
  cases cl with
  | black =>
      have left : Balanced .red h (node lk lv .red ll lr) := .red leftLeft leftRight
      have right : Ready .red h (node rk rv .red rl rr) := .red rightLeft rightRight
      refine ⟨k, v, .black, node lk lv .red ll lr, node rk rv .red rl rr, _, _, ?_, notLess,
        .ready right, fun _ => right, fun k' v' r' removed => ?_⟩
      · simp [moveRedRight, colorFlip, leftLeft.isRed, FLLRBColor.flip]
      · obtain ⟨_, valid⟩ := removed.exists
        exact removed_fixUp_black left valid
  | red =>
      cases leftLeft with
      | @red _ llk llv a b first second =>
          have more : cmp aKey lk = .gt := gt_of_not_lt notLess ordered
          have left : Balanced .black (h + 1) (node llk llv .black a b) := .black first second
          refine ⟨lk, lv, .red, node llk llv .black a b,
            node k v .black lr (node rk rv .red rl rr), _, _, ?_, by simp [more],
            .leansRight notLess leftRight (.red rightLeft rightRight),
            fun same => absurd same (by simp [more]), fun k' v' r' removed => ?_⟩
          · simp [moveRedRight, colorFlip, rotateRight, FLLRBColor.flip]
          · rw [fixUp_of_lean left removed.of_black]
            exact .red (.red left removed.of_black)

theorem Removable.givesRight [Std.TransCmp cmp] {color : FLLRBColor}
    (removable : Removable cmp aKey c h (node k v color l r)) (notLess : cmp aKey k ≠ .lt)
    (above : Table.Above cmp k l.toList) (notLeaf : ¬(color = .red ∧ r.isEmpty = true)) :
    ∃ k' v' c' l' r' cr hr, (node k v color l r).borrowRight = node k' v' c' l' r' ∧
      GivesRight cmp aKey c h k' c' l' r' cr hr := by
  cases removable with
  | @leansRight h _ _ _ _ _ left right =>
      have still : (node k v .black l r).borrowRight = node k v .black l r := by
        simp [borrowRight, leanRight, left.isRed, right.isRed]
      cases right with
      | red rightLeft rightRight =>
          refine ⟨_, _, _, _, _, .red, h, still, notLess, .ready (.red rightLeft rightRight),
            fun _ => .red rightLeft rightRight, fun k' v' r' removed => ?_⟩
          obtain ⟨_, valid⟩ := removed.exists
          exact .black (balanced_fixUp_black left valid)
  | ready ready =>
      cases ready with
      | @three h _ _ _ _ left right =>
          cases left with
          | @red _ lk lv ll lr leftLeft leftRight =>
              have ordered : cmp lk k = .lt := Std.OrientedCmp.lt_of_gt
                (Table.above_cons.mp (Table.above_append.mp above).2).1
              have more : cmp aKey lk = .gt := gt_of_not_lt notLess ordered
              have ready : Ready .red h (node k v .red lr r) := .red leftRight right
              refine ⟨lk, lv, .black, ll, node k v .red lr r, _, _, ?_, by simp [more],
                .ready ready, fun _ => ready, fun k' v' r' removed => ?_⟩
              · simp [borrowRight, leanRight, rotateRight]
              · obtain ⟨_, valid⟩ := removed.exists
                exact .black (balanced_fixUp_black leftLeft valid)
      | red left right =>
          cases right with
          | empty => exact absurd ⟨rfl, rfl⟩ notLeaf
          | @black cr _ rk rv rl rr rightLeft rightRight =>
              cases cr with
              | red =>
                  have still : (node k v .red l (node rk rv .black rl rr)).borrowRight =
                      node k v .red l (node rk rv .black rl rr) := by
                    simp [borrowRight, leanRight, left.isRed, rightLeft.isRed]
                  have ready := Ready.three (k := rk) (v := rv) rightLeft rightRight
                  refine ⟨_, _, _, _, _, _, _, still, notLess, .ready ready, fun _ => ready,
                    fun k' v' r' removed => ?_⟩
                  rw [fixUp_of_lean left removed.of_black]
                  exact .red (.red left removed.of_black)
              | black =>
                  cases left with
                  | @black cl _ lk lv ll lr leftLeft leftRight =>
                      have ordered : cmp lk k = .lt := Std.OrientedCmp.lt_of_gt
                        (Table.above_cons.mp (Table.above_append.mp above).2).1
                      exact givesRight_moveRedRight notLess ordered leftLeft leftRight
                        rightLeft rightRight

/-! ## Removing -/

theorem remove_of_not_lt (notLess : cmp aKey k ≠ .lt) :
    remove cmp aKey (node k v c l r) =
      match (node k v c l r).borrowRight with
      | empty => empty
      | node k' v' c' l' r' =>
          if cmp aKey k' = .eq then
            match r'.min? with
            | none => empty
            | some (sk, sv) => (node sk sv c' l' (remove cmp aKey r'.removeMin)).fixUp
          else (node k' v' c' l' (remove cmp aKey r')).fixUp := by
  rw [remove, if_neg notLess]
  split
  · rename_i shape
    rw [shape]
  · rename_i r' shape
    cases least : r'.min? <;> simp only [shape, least]

theorem remove_of_eq {k' : κ} {v' : α} {c' : FLLRBColor} {l' r' : FLLRBNode κ α} {sk : κ}
    {sv : α} (notLess : cmp aKey k ≠ .lt)
    (shape : (node k v c l r).borrowRight = node k' v' c' l' r')
    (same : cmp aKey k' = .eq) (least : r'.min? = some (sk, sv)) :
    remove cmp aKey (node k v c l r) =
      (node sk sv c' l' (remove cmp aKey r'.removeMin)).fixUp := by
  rw [remove_of_not_lt notLess, shape]
  simp only [same, if_true, least]

theorem remove_of_ne {k' : κ} {v' : α} {c' : FLLRBColor} {l' r' : FLLRBNode κ α}
    (notLess : cmp aKey k ≠ .lt)
    (shape : (node k v c l r).borrowRight = node k' v' c' l' r')
    (other : cmp aKey k' ≠ .eq) :
    remove cmp aKey (node k v c l r) = (node k' v' c' l' (remove cmp aKey r')).fixUp := by
  rw [remove_of_not_lt notLess, shape]
  simp only [other, if_false]

/-- The root of a tree going left is the old root, or lies above it. -/
theorem below_borrowLeft [Std.TransCmp cmp] {k' : κ} {v' : α} {c' : FLLRBColor}
    {l' r' : FLLRBNode κ α} (less : cmp aKey k = .lt)
    (shape : (node k v c l r).borrowLeft = node k' v' c' l' r')
    (above : Table.Above cmp k' l'.toList) : cmp aKey k' = .lt := by
  have root : k' = k ∨ (k, v) ∈ l'.toList := by
    unfold borrowLeft at shape
    split at shape
    · unfold moveRedLeft at shape
      rcases r with _ | ⟨rk, rv, rc, _ | ⟨rlk, rlv, rlc, a, b⟩, rr⟩
      · simp [colorFlip, toggled, left] at shape
        exact .inl shape.1.symm
      · simp [colorFlip, left] at shape
        exact .inl shape.1.symm
      · dsimp only at shape
        split at shape
        · simp [colorFlip, withRight, rotateRight, rotateLeft] at shape
          rw [← shape.2.2.2.1]
          exact .inr (by simp [toList])
        · simp [colorFlip] at shape
          exact .inl shape.1.symm
    · simp at shape
      exact .inl shape.1.symm
  rcases root with rfl | mem
  · exact less
  · exact Std.TransCmp.lt_trans less (Std.OrientedCmp.lt_of_gt (above (k, v) mem))

theorem Removed.remove_of_below (removed : Removed c h t)
    (below : Table.Below cmp aKey t.toList) : Removed c h (remove cmp aKey t) := by
  cases removed with
  | black valid => exact .black (FLLRBNode.remove_of_below valid below).1
  | red valid => exact .red (FLLRBNode.remove_of_below valid below).1

/-- A red node without children is dropped if it has the key. -/
theorem remove_leaf (notLess : cmp aKey k ≠ .lt)
    (removable : Removable cmp aKey c h (node k v .red l r)) (absent : r.isEmpty = true) :
    Removed c h (remove cmp aKey (node k v .red l r)) ∧
      (remove cmp aKey (node k v .red l r)).toList =
        Table.erase cmp aKey (node k v .red l r).toList := by
  cases r with
  | node => simp [isEmpty] at absent
  | empty =>
      cases removable with
      | ready ready =>
          cases ready with
          | red left right =>
              cases right with
              | empty =>
                  obtain rfl := left.eq_empty
                  have still : (node k v .red (empty : FLLRBNode κ α) empty).borrowRight =
                      node k v .red empty empty := by
                    simp [borrowRight, leanRight, isEmpty]
                  cases order : cmp aKey k with
                  | lt => exact absurd order notLess
                  | eq =>
                      have dropped :
                          remove cmp aKey (node k v .red empty empty) = empty := by
                        rw [remove_of_not_lt notLess, still]
                        simp [order, min?]
                      rw [dropped]
                      exact ⟨.black .empty, by simp [toList, Table.erase, order]⟩
                  | gt =>
                      have valid : Balanced .red 0 (node k v .red (empty : FLLRBNode κ α) empty) :=
                        .red .empty .empty
                      rw [remove_of_ne notLess still (by simp [order]), remove, valid.fixUp_eq]
                      exact ⟨.red valid, by simp [toList, Table.erase, order]⟩

/-- **Removal.** Below a red node, or a black one with a red child, `remove` drops the
binding of the key and keeps the black depth. -/
theorem remove_spec [Std.TransCmp cmp] (removable : Removable cmp aKey c h t)
    (sorted : Table.Sorted cmp t.toList) :
    Removed c h (remove cmp aKey t) ∧
      (remove cmp aKey t).toList = Table.erase cmp aKey t.toList := by
  induction size_eq : t.count using Nat.strongRecOn generalizing t c h with
  | ind size ih =>
      cases t with
      | empty =>
          cases removable with
          | ready ready => cases ready
      | node k v color l r =>
          rcases Table.sorted_split.mp sorted with ⟨leftSorted, rightSorted, above, below⟩
          by_cases less : cmp aKey k = .lt
          · have ready : Ready c h (node k v color l r) := by
              cases removable with
              | ready ready => exact ready
              | leansRight notLess _ _ => exact absurd less notLess
            cases nonempty : l.isEmpty with
            | true =>
                have under : Table.Below cmp aKey (node k v color l r).toList := by
                  rw [toList, toList_of_isEmpty nonempty]
                  exact Table.below_cons.mpr ⟨less, below.of_lt less⟩
                rcases remove_of_below ready.balanced under with ⟨valid, same⟩
                rw [same, Table.erase_of_below under]
                refine ⟨?_, rfl⟩
                cases c with
                | red => exact .red valid
                | black => exact .black valid
            | false =>
                obtain ⟨cl, hl, gives⟩ := ready.givesLeft nonempty
                have smaller := count_left_lt (t := node k v color l r)
                  (by simp only [count]; omega) (count_borrowLeft_le _)
                rw [← toList_borrowLeft (node k v color l r)] at sorted ⊢
                rw [remove_of_lt less]
                cases shape : (node k v color l r).borrowLeft with
                | empty =>
                    rw [shape] at gives
                    cases gives.ready
                | node k' v' c' l' r' =>
                    rw [shape] at gives sorted smaller
                    have left := (Table.sorted_split.mp sorted).1
                    rcases ih _ (size_eq ▸ smaller) (.ready gives.ready) left rfl with
                      ⟨removed, same⟩
                    refine ⟨gives.removed _ removed, ?_⟩
                    have order := below_borrowLeft less shape
                      (Table.sorted_split.mp sorted).2.2.1
                    rw [left_node] at same
                    rw [toList_fixUp, withLeft, toList, left_node, same, toList,
                      Table.erase_split sorted, order]
          · by_cases leaf : color = .red ∧ r.isEmpty = true
            · rcases leaf with ⟨rfl, absent⟩
              exact remove_leaf less removable absent
            · obtain ⟨k', v', c', l', r', cr, hr, shape, gives⟩ :=
                  removable.givesRight less above leaf
              have smaller : r'.count < size := by
                have bound := count_borrowRight_le (node k v color l r)
                rw [shape, size_eq] at bound
                simp only [count] at bound
                omega
              rw [← toList_borrowRight (node k v color l r), shape] at sorted ⊢
              have right := (Table.sorted_split.mp sorted).2.1
              cases order : cmp aKey k' with
              | lt => exact absurd order gives.notLess
              | eq =>
                  rcases removeMin_spec (gives.ready order) with ⟨removed, rest⟩
                  obtain ⟨least, tail, bindings⟩ :=
                    List.exists_cons_of_ne_nil (gives.ready order).toList_ne_nil
                  have smallest : r'.min? = some (least.1, least.2) := by
                    rw [min?_eq_head?, bindings]
                    rfl
                  have under : Table.Below cmp aKey r'.removeMin.toList := by
                    rw [rest]
                    intro b mem
                    exact (Table.sorted_split.mp sorted).2.2.2.of_eq order b
                      (List.mem_of_mem_tail mem)
                  rw [remove_of_eq less shape order smallest]
                  refine ⟨gives.removed _ _ _ (removed.remove_of_below under), ?_⟩
                  obtain ⟨_, valid⟩ := removed.exists
                  rw [toList_fixUp, toList, (remove_of_below valid under).2, rest, toList,
                    Table.erase_split sorted, order, bindings]
                  rfl
              | gt =>
                  rcases ih _ smaller gives.removable right rfl with ⟨removed, same⟩
                  rw [remove_of_ne less shape (by simp [order])]
                  refine ⟨gives.removed _ _ _ removed, ?_⟩
                  rw [toList_fixUp, toList, same, toList, Table.erase_split sorted, order]

/-! ## At the root -/

/-- **`remove` does not look at the color of the root.** So a black root with black
children loses a key as the red one does, and comes out of it repainted. -/
theorem remove_toggled (t : FLLRBNode κ α) :
    remove cmp aKey t.toggled = (remove cmp aKey t).toggled := by
  cases t with
  | empty => simp [remove, toggled]
  | node k v c l r =>
      by_cases less : cmp aKey k = .lt
      · rw [toggled_node, remove_of_lt less, remove_of_lt less, ← toggled_node,
          borrowLeft_toggled, left_toggled, withLeft_toggled, fixUp_toggled]
      · have repainted : (node k v c.flip l r).borrowRight =
            (node k v c l r).borrowRight.toggled := by
          rw [← toggled_node, borrowRight_toggled]
        rw [toggled_node, remove_of_not_lt less, remove_of_not_lt less, repainted]
        cases (node k v c l r).borrowRight with
        | empty => rfl
        | node k' v' c' l' r' =>
            simp only [toggled_node]
            split
            · cases r'.min? with
              | none => rfl
              | some b =>
                  dsimp only
                  rw [← toggled_node, fixUp_toggled]
            · rw [← toggled_node, fixUp_toggled]

/-- **Removal from a root.** Painted black, what `remove` makes of a valid tree with a black
root is valid, and it has lost the binding of the key and no other. -/
theorem remove_root [Std.TransCmp cmp] (valid : Balanced .black h t)
    (sorted : Table.Sorted cmp t.toList) :
    (∃ h', Balanced .black h' ((remove cmp aKey t).withColor .black)) ∧
      (remove cmp aKey t).toList = Table.erase cmp aKey t.toList := by
  cases valid with
  | empty =>
      rw [remove]
      exact ⟨⟨0, .empty⟩, rfl⟩
  | @black c h k v l r left right =>
      cases c with
      | red =>
          have removable : Removable cmp aKey .black (h + 1) (node k v .black l r) :=
            .ready (.three left right)
          rcases remove_spec removable sorted with ⟨removed, same⟩
          exact ⟨⟨_, removed.of_black.withColor_black⟩, same⟩
      | black =>
          have removable : Removable cmp aKey .red h (node k v .red l r) :=
            .ready (.red left right)
          have repainted : node k v .black l r = (node k v .red l r).toggled := rfl
          rw [repainted, toList_toggled] at sorted ⊢
          rcases remove_spec removable sorted with ⟨removed, same⟩
          obtain ⟨c, valid⟩ := removed.exists
          rw [remove_toggled, withColor_toggled, toList_toggled]
          exact ⟨⟨_, valid.withColor_black⟩, same⟩

end Searching

end FLLRBNode

end GAMember
