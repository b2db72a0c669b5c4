import GAMember.Firebase.CompoundWrite

/-!
# Applying a compound write

`applySubtreeWrite` goes down a path from the root of the node for each write it
makes. `applied` is what it comes to without priorities: each child of the write
is applied to the child of the node at its key, and the children do not see each
other. From this follow the three laws of `applyToNode`: what is at a path
afterwards depends on what was there only (`getChild_applyToNode`), a write that
says something about a path decides what is there, and adding a write is the same
as writing afterwards (`applyToNode_addWrite`).
-/

namespace GAMember

variable [Keys] {α : Type}

namespace FCompoundWrite

open FImmutableTree (node)

/-- No priority is written, neither by itself nor with a node. -/
inductive Bare : FCompoundWrite α → Prop
  | value {v : FNode α} (bare : v.Bare) : Bare (node (some v) [])
  | inner {cs : List (Piece × FCompoundWrite α)} (sorted : Table.Sorted stringOrder cs)
      (some : ∀ c ∈ cs, c.2.isEmpty = false) (plain : ∀ c ∈ cs, c.1 ≠ .priority)
      (each : ∀ c ∈ cs, Bare c.2) : Bare (node none cs)

mutual

/-- The node with the write applied. -/
def applied : FImmutableTree (FNode α) → FNode α → FNode α
  | node (some value) _, _ => value
  | node none children, n => appliedChildren children n

def appliedChildren : List (Piece × FImmutableTree (FNode α)) → FNode α → FNode α
  | [], n => n
  | (childKey, childTree) :: rest, n =>
      appliedChildren rest
        (n.updateImmediateChild childKey (applied childTree (n.getImmediateChild childKey)))

end

variable {w t : FCompoundWrite α} {n m x v : FNode α} {k l : Piece} {p q r : FPath}
  {cs : List (Piece × FImmutableTree (FNode α))}

/-! ## Writes without priorities -/

theorem Bare.canonical (bare : w.Bare) : w.Canonical := by
  induction bare with
  | value => exact .value _
  | inner sorted some plain each ih => exact .inner sorted some ih

theorem bare_emptyWrite : (emptyWrite : FCompoundWrite α).Bare :=
  .inner .nil (by simp) (by simp) (by simp)

theorem Bare.childTree (bare : w.Bare) : Bare (w.childTree k) := by
  cases bare with
  | value => exact bare_emptyWrite
  | @inner cs sorted some plain each =>
      rw [FImmutableTree.childTree_node]
      cases found : Table.find? stringOrder k cs with
      | none => exact bare_emptyWrite
      | some c => exact each (k, c) ((Table.find?_eq_some_iff sorted).mp found)

theorem Bare.cases_value (bare : w.Bare) :
    (∃ v : FNode α, w = node (some v) [] ∧ v.Bare) ∨ w.value = none := by
  cases bare with
  | value bare => exact .inl ⟨_, rfl, bare⟩
  | inner => exact .inr rfl

theorem Bare.withChild (bare : w.Bare) (bare' : t.Bare) (inner : w.value = none)
    (plain : k ≠ .priority) : Bare (w.withChild k t) := by
  cases bare with
  | value => cases inner
  | inner sorted some plains each =>
      rw [FImmutableTree.withChild]
      split
      · refine .inner (Table.sorted_erase sorted) ?_ ?_ ?_ <;> intro e mem <;>
          have old := List.mem_of_mem_filter mem
        · exact some e old
        · exact plains e old
        · exact each e old
      · rename_i present
        refine .inner (Table.sorted_put sorted) ?_ ?_ ?_ <;> intro e mem <;>
          rcases Table.mem_put mem with rfl | old
        · simpa using present
        · exact some e old
        · exact plain
        · exact plains e old
        · exact bare'
        · exact each e old

theorem Bare.addWrite (bare : w.Bare) (bare' : x.Bare) (plain : p.Plain) :
    Bare (FCompoundWrite.addWrite w x p) := by
  induction p generalizing w with
  | nil => exact .value bare'
  | cons k p ih =>
      rcases bare.cases_value with ⟨v, rfl, bareV⟩ | inner
      · rw [addWrite_value]
        exact .value (bareV.updateChild bare' plain)
      · rw [FPath.plain_cons] at plain
        rw [addWrite_cons bare.canonical inner]
        exact bare.withChild (ih bare.childTree plain.2) inner plain.1

/-! ## Child by child -/

theorem bare_appliedChildren (plains : ∀ c ∈ cs, c.1 ≠ .priority)
    (bares : ∀ c ∈ cs, ∀ m : FNode α, m.Bare → (applied c.2 m).Bare) (bare : n.Bare) :
    (appliedChildren cs n).Bare := by
  induction cs generalizing n with
  | nil => exact bare
  | cons c cs ih =>
      refine ih (fun c' mem => plains c' (List.mem_cons_of_mem c mem))
        (fun c' mem => bares c' (List.mem_cons_of_mem c mem)) ?_
      exact bare.updateImmediateChild
        (bares c List.mem_cons_self _ bare.getImmediateChild) (plains c List.mem_cons_self)

theorem Bare.applied (bareW : w.Bare) (bare : n.Bare) : (FCompoundWrite.applied w n).Bare := by
  induction bareW generalizing n with
  | value bareV => exact bareV
  | inner sorted some plain each ih =>
      exact bare_appliedChildren plain (fun c mem m bareM => ih c mem bareM) bare

theorem getImmediateChild_appliedChildren (sorted : Table.Sorted stringOrder cs)
    (plains : ∀ c ∈ cs, c.1 ≠ .priority) (bares : ∀ c ∈ cs, Bare c.2) (bare : n.Bare)
    (plain : k ≠ .priority) :
    (appliedChildren cs n).getImmediateChild k =
      applied ((Table.find? stringOrder k cs).getD FImmutableTree.empty)
        (n.getImmediateChild k) := by
  induction cs generalizing n with
  | nil => rfl
  | cons c cs ih =>
      obtain ⟨j, t⟩ := c
      rw [Table.sorted_cons] at sorted
      have plainJ := plains (j, t) List.mem_cons_self
      have bareT := (bares (j, t) List.mem_cons_self).applied (bare.getImmediateChild (k := j))
      have rest := ih sorted.2 (fun c' mem => plains c' (List.mem_cons_of_mem _ mem))
        (fun c' mem => bares c' (List.mem_cons_of_mem _ mem))
        (bare.updateImmediateChild bareT plainJ)
      rw [appliedChildren, rest, Table.find?_cons]
      by_cases same : k = j
      · subst same
        rw [if_pos Std.ReflCmp.compare_self, Table.find?_of_below sorted.1,
          FNode.getImmediateChild_updateImmediateChild plain bareT.proper]
        rfl
      · rw [if_neg fun equal => same (Std.LawfulEqCmp.eq_of_compare equal),
          FNode.getImmediateChild_updateImmediateChild_of_ne plainJ plain same]

/-- At a key the child of the write is applied to the child of the node. -/
theorem getImmediateChild_applied (bareW : w.Bare) (bare : n.Bare) (inner : w.value = none)
    (plain : k ≠ .priority) :
    (applied w n).getImmediateChild k = applied (w.childTree k) (n.getImmediateChild k) := by
  cases bareW with
  | value => cases inner
  | inner sorted some plains each =>
      exact getImmediateChild_appliedChildren sorted plains each bare plain

theorem isLeafNode_appliedChildren (plains : ∀ c ∈ cs, c.1 ≠ .priority)
    (inner : n.isLeafNode = false) : (appliedChildren cs n).isLeafNode = false := by
  induction cs generalizing n with
  | nil => exact inner
  | cons c cs ih =>
      refine ih (fun c' mem => plains c' (List.mem_cons_of_mem c mem)) ?_
      rw [FNode.isLeafNode_updateImmediateChild (plains c List.mem_cons_self), inner]
      rfl

theorem isLeafNode_applied (bareW : w.Bare) (inner : w.value = none)
    (inner' : n.isLeafNode = false) : (applied w n).isLeafNode = false := by
  cases bareW with
  | value => cases inner
  | inner sorted some plains each => exact isLeafNode_appliedChildren plains inner'

/-- Children that are put where there are none do not make a node empty. -/
theorem isEmpty_of_appliedChildren (sorted : Table.Sorted stringOrder cs)
    (plains : ∀ c ∈ cs, c.1 ≠ .priority) (bares : ∀ c ∈ cs, Bare c.2) (bare : n.Bare)
    (absent : ∀ c ∈ cs, n.getImmediateChild c.1 = FNode.emptyNode)
    (empty : (appliedChildren cs n).isEmpty = true) : n.isEmpty = true := by
  induction cs generalizing n with
  | nil => exact empty
  | cons c cs ih =>
      obtain ⟨j, t⟩ := c
      rw [Table.sorted_cons] at sorted
      have plainJ := plains (j, t) List.mem_cons_self
      have bareT := (bares (j, t) List.mem_cons_self).applied (bare.getImmediateChild (k := j))
      refine bare.isEmpty_of_updateImmediateChild plainJ (absent (j, t) List.mem_cons_self)
        (ih sorted.2 (fun c' mem => plains c' (List.mem_cons_of_mem _ mem))
          (fun c' mem => bares c' (List.mem_cons_of_mem _ mem))
          (bare.updateImmediateChild bareT plainJ) (fun c' mem => ?_) empty)
      rw [FNode.getImmediateChild_updateImmediateChild_of_ne plainJ
        (plains c' (List.mem_cons_of_mem _ mem)) (sorted.1.ne mem)]
      exact absent c' (List.mem_cons_of_mem _ mem)

/-! ## From the root -/

/-- The block, when each child is applied as it should be. -/
theorem applyChildren_eq (sorted : Table.Sorted stringOrder cs)
    (plains : ∀ c ∈ cs, c.1 ≠ .priority) (bares : ∀ c ∈ cs, Bare c.2) (bare : n.Bare)
    (plain : p.Plain)
    (each : ∀ c ∈ cs, ∀ (q : FPath) (m : FNode α), q.Plain → m.Bare →
      applySubtreeWrite q c.2 m = m.updateChild q (applied c.2 (m.getChild q))) :
    applyChildren p cs n none = (n.updateChild p (appliedChildren cs (n.getChild p)), none) := by
  induction cs generalizing n with
  | nil => rw [applyChildren, appliedChildren, bare.updateChild_getChild plain]
  | cons c cs ih =>
      obtain ⟨j, t⟩ := c
      have sorted' := sorted
      rw [Table.sorted_cons] at sorted'
      have plainJ := plains (j, t) List.mem_cons_self
      have plains' := fun c' mem => plains c' (List.mem_cons_of_mem (j, t) mem)
      have bares' := fun c' mem => bares c' (List.mem_cons_of_mem (j, t) mem)
      have single : FPath.Plain [j] := FPath.plain_cons.mpr ⟨plainJ, FPath.plain_nil⟩
      have bareM := bare.getChild plain
      have bareT := (bares (j, t) List.mem_cons_self).applied
        (bareM.getImmediateChild (k := j))
      have bareM' := bareM.updateImmediateChild bareT plainJ
      have step : applySubtreeWrite (p.childFromString j) t n =
          n.updateChild p ((n.getChild p).updateImmediateChild j
            (applied t ((n.getChild p).getImmediateChild j))) := by
        refine (each (j, t) List.mem_cons_self _ _
          (FPath.plain_append.mpr ⟨plain, single⟩) bare).trans ?_
        rw [FNode.getChild_append plain, FNode.updateChild_append plain,
          FNode.updateChild_cons plainJ, FNode.getChild_cons plainJ]
        rfl
      rw [applyChildren, if_neg plainJ, step, appliedChildren,
        ih sorted'.2 plains' bares' (bare.updateChild bareM' plain)
          (fun c' mem => each c' (List.mem_cons_of_mem _ mem)),
        FNode.getChild_updateChild_self plain bareM'.proper,
        bare.updateChild_twice bareM' (bare_appliedChildren plains'
          (fun c' mem m bareM => (bares' c' mem).applied bareM) bareM') plain]
      -- Where there was nothing, the writes made so far are not undone by the next ones.
      intro none empty
      have nothing := bareM.proper none
      refine isEmpty_of_appliedChildren sorted'.2 plains' bares' bareM' (fun c' mem => ?_) empty
      rw [FNode.getImmediateChild_updateImmediateChild_of_ne plainJ (plains' c' mem)
        (sorted'.1.ne mem), nothing]
      exact FNode.getImmediateChild_emptyNode

/-- Going down from the root for each write comes to applying the write at its path. -/
theorem applySubtreeWrite_eq (bareW : w.Bare) (bare : n.Bare) (plain : p.Plain) :
    applySubtreeWrite p w n = n.updateChild p (applied w (n.getChild p)) := by
  induction bareW generalizing p n with
  | value bareV => rfl
  | inner sorted some plains each ih =>
      rw [applySubtreeWrite, applyChildren_eq sorted plains each bare plain
        fun c mem q m plainQ bareM => ih c mem bareM plainQ]
      rfl

theorem applyToNode_eq (bareW : w.Bare) (bare : n.Bare) : applyToNode w n = applied w n :=
  applySubtreeWrite_eq bareW bare FPath.plain_nil

/-! ## The laws -/

theorem isLeafNode_of_getImmediateChild (plain : k ≠ .priority)
    (present : (n.getImmediateChild k).isEmpty = false) : n.isLeafNode = false := by
  cases n with
  | children => rfl
  | leaf v pr =>
      rw [FNode.getImmediateChild_leaf plain] at present
      cases present

/-- A node with something on a path below is no empty node. -/
theorem isEmpty_updateChild (bare : n.Bare) (bareX : x.Bare) (plain : p.Plain)
    (some : x.isEmpty = false) : (n.updateChild p x).isEmpty = false := by
  cases p with
  | nil => exact some
  | cons k p =>
      have below := FNode.getChild_updateChild_self (n := n) plain bareX.proper
      cases empty : (n.updateChild (k :: p) x).isEmpty with
      | false => rfl
      | true =>
          rw [(bare.updateChild bareX plain).proper empty, FNode.getChild_emptyNode] at below
          rw [← below] at some
          cases some

theorem applied_addWrite (bareW : w.Bare) (bareX : x.Bare) (bare : n.Bare) (plain : p.Plain)
    (inner : x.isEmpty = true → ∀ (q : FPath) (k : Piece) (r : FPath), p = q ++ k :: r →
      completeNodeAtPath w q = none → (n.getChild q).isLeafNode = false) :
    applied (addWrite w x p) n = (applied w n).updateChild p x := by
  induction p generalizing w n with
  | nil => rfl
  | cons k p ih =>
      rcases bareW.cases_value with ⟨v, rfl, bareV⟩ | innerW
      · rw [addWrite_value]
        rfl
      · have bareAdded := bareW.addWrite bareX plain
        have bareApplied := bareW.applied bare
        have bareBelow := bareApplied.updateChild bareX plain
        rw [FPath.plain_cons] at plain
        have bareC := bareW.childTree (k := k)
        have bareN := bare.getImmediateChild (k := k)
        have below : applied (addWrite (w.childTree k) x p) (n.getImmediateChild k) =
            (applied (w.childTree k) (n.getImmediateChild k)).updateChild p x := by
          refine ih bareC bareN plain.2 fun empty q j r split nothing => ?_
          rw [← FNode.getChild_cons plain.1]
          refine inner empty (k :: q) j r (congrArg (k :: ·) split) ?_
          rw [complete_cons innerW]
          exact nothing
        rw [addWrite_cons bareW.canonical innerW] at bareAdded ⊢
        rw [FNode.updateChild_cons plain.1] at bareBelow ⊢
        have sameChild (l : Piece) (plainL : l ≠ .priority) :
            (applied (w.withChild k (addWrite (w.childTree k) x p)) n).getImmediateChild l =
              ((applied w n).updateImmediateChild k
                (((applied w n).getImmediateChild k).updateChild p x)).getImmediateChild l := by
          rw [getImmediateChild_applied bareAdded bare innerW plainL]
          by_cases same : l = k
          · subst same
            rw [FImmutableTree.childTree_withChild, below,
              FNode.getImmediateChild_updateImmediateChild plainL
                ((bareApplied.getImmediateChild (k := l)).updateChild bareX plain.2).proper,
              getImmediateChild_applied bareW bare innerW plainL]
          · rw [FImmutableTree.childTree_withChild_of_ne same,
              FNode.getImmediateChild_updateImmediateChild_of_ne plain.1 plainL same,
              getImmediateChild_applied bareW bare innerW plainL]
        cases empty : x.isEmpty with
        | true =>
            have innerN : n.isLeafNode = false :=
              inner empty [] k p rfl (complete_nil.trans innerW)
            refine (bareAdded.applied bare).ext bareBelow
              (isLeafNode_applied bareAdded innerW innerN) ?_ sameChild
            rw [FNode.isLeafNode_updateImmediateChild plain.1,
              isLeafNode_applied bareW innerW innerN]
            rfl
        | false =>
            -- There is a child on either side, so neither side is a leaf.
            have child : (((applied w n).updateImmediateChild k
                (((applied w n).getImmediateChild k).updateChild p x)).getImmediateChild
                  k).isEmpty = false := by
              rw [FNode.getImmediateChild_updateImmediateChild plain.1
                ((bareApplied.getImmediateChild (k := k)).updateChild bareX plain.2).proper]
              exact isEmpty_updateChild bareApplied.getImmediateChild bareX plain.2 empty
            exact (bareAdded.applied bare).ext bareBelow
              (isLeafNode_of_getImmediateChild plain.1 (sameChild k plain.1 ▸ child))
              (isLeafNode_of_getImmediateChild plain.1 child) sameChild

/-- **A write added to a compound write is made after it.** Only if it removes something below
a leaf of the node that nothing has replaced, the difference may be seen: a leaf that is
first given a child and then loses it again is still there. -/
theorem applyToNode_addWrite (bareW : w.Bare) (bareX : x.Bare) (bare : n.Bare) (plain : p.Plain)
    (inner : x.isEmpty = true → ∀ (q : FPath) (k : Piece) (r : FPath), p = q ++ k :: r →
      completeNodeAtPath w q = none → (n.getChild q).isLeafNode = false) :
    applyToNode (addWrite w x p) n = (applyToNode w n).updateChild p x := by
  rw [applyToNode_eq (bareW.addWrite bareX plain) bare, applyToNode_eq bareW bare]
  exact applied_addWrite bareW bareX bare plain inner

theorem Bare.childCompoundWriteAtPath (bareW : w.Bare) (plain : q.Plain) :
    Bare (FCompoundWrite.childCompoundWriteAtPath w q) := by
  induction q generalizing w with
  | nil => exact bareW
  | cons k q ih =>
      rcases bareW.cases_value with ⟨v, rfl, bareV⟩ | inner
      · rw [childCompoundWriteAtPath_value]
        exact .value (bareV.getChild plain)
      · rw [FPath.plain_cons] at plain
        rw [childCompoundWriteAtPath_cons bareW.canonical inner]
        exact ih bareW.childTree plain.2

theorem getChild_applied (bareW : w.Bare) (bare : n.Bare) (plain : q.Plain) :
    (applied w n).getChild q = applied (childCompoundWriteAtPath w q) (n.getChild q) := by
  induction q generalizing w n with
  | nil => rfl
  | cons k q ih =>
      rcases bareW.cases_value with ⟨v, rfl, bareV⟩ | inner
      · rw [childCompoundWriteAtPath_value]
        rfl
      · rw [FPath.plain_cons] at plain
        rw [FNode.getChild_cons plain.1, FNode.getChild_cons plain.1,
          getImmediateChild_applied bareW bare inner plain.1,
          childCompoundWriteAtPath_cons bareW.canonical inner,
          ih bareW.childTree bare.getImmediateChild plain.2]

/-- **A part of the result is the result for the part**: what is at a path afterwards depends
on what was there and on what the write says from that path on. -/
theorem getChild_applyToNode (bareW : w.Bare) (bare : n.Bare) (plain : q.Plain) :
    (applyToNode w n).getChild q =
      applyToNode (childCompoundWriteAtPath w q) (n.getChild q) := by
  rw [applyToNode_eq bareW bare,
    applyToNode_eq (bareW.childCompoundWriteAtPath plain) (bare.getChild plain)]
  exact getChild_applied bareW bare plain

/-- Where the write says something about a path, that is what is there afterwards. -/
theorem getChild_applyToNode_of_complete (bareW : w.Bare) (bare : n.Bare) (plain : q.Plain)
    (complete : completeNodeAtPath w q = some v) : (applyToNode w n).getChild q = v := by
  have here := @complete_childCompoundWriteAtPath _ _ w q [] bareW.canonical plain
  rw [List.append_nil, complete, complete_nil] at here
  rw [getChild_applyToNode bareW bare plain]
  rcases (bareW.childCompoundWriteAtPath plain).cases_value with ⟨v', shape, _⟩ | inner
  · rw [shape] at here ⊢
    cases here
    rfl
  · rw [inner] at here
    cases here

end FCompoundWrite

end GAMember
