import GAMember.Firebase.Node

/-!
# Trees of values

An `FImmutableTree` has a value, or none, and children by `stringComparator`. The
trees that hold writes are `Canonical`: a tree with a value has no children, and
no child is empty. Such a tree is determined by the places of its values and the
values there (`Canonical.ext`).
-/

namespace GAMember

inductive FImmutableTree (β : Type) [Keys]
  | node (value : Option β) (children : List (Piece × FImmutableTree β))

variable [Keys] {β : Type}

namespace FImmutableTree

/-! ## The methods -/

def value : FImmutableTree β → Option β
  | node value _ => value

def children : FImmutableTree β → List (Piece × FImmutableTree β)
  | node _ children => children

def initWithValue (aValue : Option β) : FImmutableTree β := node aValue []

def empty : FImmutableTree β := initWithValue none

def isEmpty (self : FImmutableTree β) : Bool := self.value.isNone && self.children.isEmpty

/-- The child at a key; `empty` where there is none. -/
def childTree (self : FImmutableTree β) (key : Piece) : FImmutableTree β :=
  (Table.find? stringOrder key self.children).getD empty

def findRootMostMatchingPath (predicate : β → Bool) :
    FImmutableTree β → FPath → Option (FPath × β)
  | self, [] => (self.value.filter predicate).map fun value => ([], value)
  | self, front :: relativePath =>
      match self.value.filter predicate with
      | some value => some ([], value)
      | none =>
          match Table.find? stringOrder front self.children with
          | none => none
          | some child =>
              (findRootMostMatchingPath predicate child relativePath).map fun found =>
                (FPath.child [front] found.1, found.2)

def findRootMostValueAndPath (self : FImmutableTree β) (relativePath : FPath) :
    Option (FPath × β) :=
  self.findRootMostMatchingPath (fun _ => true) relativePath

def subtreeAtPath : FImmutableTree β → FPath → FImmutableTree β
  | self, [] => self
  | self, front :: relativePath =>
      match Table.find? stringOrder front self.children with
      | some childTree => subtreeAtPath childTree relativePath
      | none => empty

def setValue : FImmutableTree β → Option β → FPath → FImmutableTree β
  | self, newValue, [] => node newValue self.children
  | self, newValue, front :: relativePath =>
      let newChild := (self.childTree front).setValue newValue relativePath
      node self.value (Table.put stringOrder front newChild self.children)

def setTree : FImmutableTree β → FImmutableTree β → FPath → FImmutableTree β
  | _, newTree, [] => newTree
  | self, newTree, front :: relativePath =>
      let newChild := (self.childTree front).setTree newTree relativePath
      node self.value
        (if newChild.isEmpty then Table.erase stringOrder front self.children
        else Table.put stringOrder front newChild self.children)

mutual

/-- The values and their paths, in the order in which the block of `forEach` sees them. -/
def forEachPathSoFar (pathSoFar : FPath) : FImmutableTree β → List (FPath × β)
  | node value children =>
      forEachChild pathSoFar children ++ (value.map fun value => (pathSoFar, value)).toList

def forEachChild (pathSoFar : FPath) : List (Piece × FImmutableTree β) → List (FPath × β)
  | [] => []
  | (childKey, childTree) :: rest =>
      forEachPathSoFar (pathSoFar.childFromString childKey) childTree ++
        forEachChild pathSoFar rest

end

def forEach (self : FImmutableTree β) : List (FPath × β) := forEachPathSoFar [] self

/-! ## Canonical trees -/

/-- Values are at the leaves, and no child is empty. -/
inductive Canonical : FImmutableTree β → Prop
  | value (v : β) : Canonical (node (some v) [])
  | inner {cs : List (Piece × FImmutableTree β)} (sorted : Table.Sorted stringOrder cs)
      (some : ∀ c ∈ cs, c.2.isEmpty = false) (each : ∀ c ∈ cs, Canonical c.2) :
      Canonical (node none cs)

variable {t t' : FImmutableTree β} {k l : Piece} {p q r : FPath} {v : β}
  {cs : List (Piece × FImmutableTree β)}

@[simp] theorem isEmpty_empty : (empty : FImmutableTree β).isEmpty = true := rfl

theorem isEmpty_iff : t.isEmpty = true ↔ t = empty := by
  cases t with
  | node value cs =>
      cases value with
      | none => simp [isEmpty, empty, initWithValue, FImmutableTree.value, children]
      | some v => simp [isEmpty, empty, initWithValue, FImmutableTree.value]

theorem canonical_empty : (empty : FImmutableTree β).Canonical :=
  .inner .nil (by simp) (by simp)

theorem childTree_node {value : Option β} :
    (node value cs).childTree k = (Table.find? stringOrder k cs).getD empty := rfl

@[simp] theorem childTree_empty : (empty : FImmutableTree β).childTree k = empty := rfl

theorem Canonical.childTree (canonical : t.Canonical) : (t.childTree k).Canonical := by
  cases canonical with
  | value v => exact canonical_empty
  | @inner cs sorted some each =>
      rw [childTree_node]
      cases found : Table.find? stringOrder k cs with
      | none => exact canonical_empty
      | some c => exact each (k, c) ((Table.find?_eq_some_iff sorted).mp found)

/-- A canonical tree is a leaf with a value, or has no value. -/
theorem Canonical.cases_value (canonical : t.Canonical) :
    (∃ v, t = node (some v) []) ∨ t.value = none := by
  cases canonical with
  | value v => exact .inl ⟨v, rfl⟩
  | inner => exact .inr rfl

/-- A tree with this child in the place of the one at the key. -/
def withChild (t : FImmutableTree β) (k : Piece) (c : FImmutableTree β) : FImmutableTree β :=
  node t.value (if c.isEmpty then Table.erase stringOrder k t.children
    else Table.put stringOrder k c t.children)

@[simp] theorem value_withChild {c : FImmutableTree β} : (t.withChild k c).value = t.value := rfl

theorem isEmpty_withChild {c : FImmutableTree β} (some : c.isEmpty = false) :
    (t.withChild k c).isEmpty = false := by
  have put : (Table.put stringOrder k c t.children).isEmpty = false := by
    rw [← Bool.not_eq_true, List.isEmpty_iff]
    exact Table.put_ne_nil
  rw [withChild, if_neg (by simp [some]), isEmpty]
  exact (congrArg (_ && ·) put).trans (Bool.and_false _)

theorem childTree_withChild {c : FImmutableTree β} : (t.withChild k c).childTree k = c := by
  rw [withChild, childTree_node]
  split
  · rename_i gone
    rw [Table.find?_erase_self, isEmpty_iff.mp gone]
    rfl
  · rw [Table.find?_put_self]
    rfl

theorem childTree_withChild_of_ne {c : FImmutableTree β} (ne : l ≠ k) :
    (t.withChild k c).childTree l = t.childTree l := by
  rw [withChild, childTree_node]
  split
  · rw [Table.find?_erase_of_ne ne]
    rfl
  · rw [Table.find?_put_of_ne ne]
    rfl

theorem Canonical.withChild {c : FImmutableTree β} (canonical : t.Canonical)
    (canonical' : c.Canonical) (inner : t.value = none) : (t.withChild k c).Canonical := by
  cases canonical with
  | value v => cases inner
  | inner sorted some each =>
      rw [FImmutableTree.withChild]
      split
      · refine .inner (Table.sorted_erase sorted) ?_ ?_ <;> intro e mem
        · exact some e (List.mem_of_mem_filter mem)
        · exact each e (List.mem_of_mem_filter mem)
      · rename_i present
        refine .inner (Table.sorted_put sorted) ?_ ?_ <;> intro e mem <;>
          rcases Table.mem_put mem with rfl | old
        · simpa using present
        · exact some e old
        · exact canonical'
        · exact each e old

/-- Two canonical trees without a value and with the same children are the same. -/
theorem Canonical.ext_children (canonical : t.Canonical) (canonical' : t'.Canonical)
    (inner : t.value = none) (inner' : t'.value = none)
    (same : ∀ k, t.childTree k = t'.childTree k) : t = t' := by
  have absent {cs : List (Piece × FImmutableTree β)} (sorted : Table.Sorted stringOrder cs)
      (some' : ∀ c ∈ cs, c.2.isEmpty = false) (k : Piece) :
      Table.find? stringOrder k cs =
        if ((node none cs).childTree k).isEmpty then none
        else some ((node none cs).childTree k) := by
    rw [childTree_node]
    cases found : Table.find? stringOrder k cs with
    | none => rfl
    | some c => simp [some' (k, c) ((Table.find?_eq_some_iff sorted).mp found)]
  cases canonical with
  | value v => cases inner
  | inner sorted some _ =>
      cases canonical' with
      | value v => cases inner'
      | inner sorted' some' _ =>
          congr 1
          refine Table.ext sorted sorted' fun k => ?_
          rw [absent sorted some, absent sorted' some', same k]

/-- Of two children put at one key the second one stays. -/
theorem Canonical.withChild_twice {c d : FImmutableTree β} (canonical : t.Canonical)
    (inner : t.value = none) (canonicalC : c.Canonical) (canonicalD : d.Canonical) :
    (t.withChild k c).withChild k d = t.withChild k d := by
  have canonical' := canonical.withChild (k := k) canonicalC inner
  refine (canonical'.withChild canonicalD inner).ext_children
    (canonical.withChild canonicalD inner) inner inner fun l => ?_
  by_cases same : l = k
  · rw [same, childTree_withChild, childTree_withChild]
  · rw [childTree_withChild_of_ne same, childTree_withChild_of_ne same,
      childTree_withChild_of_ne same]

/-- Children put at two keys do not see each other. -/
theorem Canonical.withChild_comm {c d : FImmutableTree β} (canonical : t.Canonical)
    (inner : t.value = none) (canonicalC : c.Canonical) (canonicalD : d.Canonical)
    (ne : k ≠ l) : (t.withChild k c).withChild l d = (t.withChild l d).withChild k c := by
  have canonicalK := canonical.withChild (k := k) canonicalC inner
  have canonicalL := canonical.withChild (k := l) canonicalD inner
  refine (canonicalK.withChild canonicalD inner).ext_children
    (canonicalL.withChild canonicalC inner) inner inner fun j => ?_
  by_cases atL : j = l
  · subst atL
    rw [childTree_withChild, childTree_withChild_of_ne (Ne.symm ne), childTree_withChild]
  · by_cases atK : j = k
    · subst atK
      rw [childTree_withChild_of_ne atL, childTree_withChild, childTree_withChild]
    · rw [childTree_withChild_of_ne atL, childTree_withChild_of_ne atK,
        childTree_withChild_of_ne atK, childTree_withChild_of_ne atL]

@[simp] theorem withChild_empty : (empty : FImmutableTree β).withChild k empty = empty := rfl

/-! ## The root-most value -/

theorem findRootMostValueAndPath_value :
    (node (some v) cs).findRootMostValueAndPath p = some ([], v) := by
  cases p <;> rfl

@[simp] theorem findRootMostValueAndPath_empty :
    (empty : FImmutableTree β).findRootMostValueAndPath p = none := by
  cases p <;> rfl

theorem findRootMostValueAndPath_cons (inner : t.value = none) :
    t.findRootMostValueAndPath (k :: p) =
      ((t.childTree k).findRootMostValueAndPath p).map fun found => (k :: found.1, found.2) := by
  rw [findRootMostValueAndPath, findRootMostMatchingPath, inner, FImmutableTree.childTree]
  simp only [Option.filter_none]
  cases Table.find? stringOrder k t.children with
  | some child => rfl
  | none => cases p <;> rfl

/-- The value is on the path. -/
theorem prefix_of_findRootMost {found : FPath × β}
    (rootMost : t.findRootMostValueAndPath p = some found) : found.1 <+: p := by
  induction p generalizing t found with
  | nil =>
      obtain ⟨v, _, rfl⟩ := Option.map_eq_some_iff.mp rootMost
      exact List.nil_prefix
  | cons k p ih =>
      cases inner : t.value with
      | some v =>
          cases t with
          | node value cs =>
              cases inner
              rw [findRootMostValueAndPath_value] at rootMost
              cases rootMost
              exact List.nil_prefix
      | none =>
          rw [findRootMostValueAndPath_cons inner] at rootMost
          obtain ⟨below, found', rfl⟩ := Option.map_eq_some_iff.mp rootMost
          exact List.cons_prefix_cons.mpr ⟨rfl, ih found'⟩

theorem findRootMostValueAndPath_append {found : FPath × β}
    (rootMost : t.findRootMostValueAndPath p = some found) :
    t.findRootMostValueAndPath (p ++ r) = some found := by
  induction p generalizing t found with
  | nil =>
      obtain ⟨v, here, rfl⟩ := Option.map_eq_some_iff.mp rootMost
      cases t with
      | node value cs =>
          cases value with
          | none => cases here
          | some v' =>
              cases here
              exact findRootMostValueAndPath_value
  | cons k p ih =>
      cases inner : t.value with
      | some v =>
          cases t with
          | node value cs =>
              cases inner
              rw [findRootMostValueAndPath_value] at rootMost ⊢
              exact rootMost
      | none =>
          rw [findRootMostValueAndPath_cons inner] at rootMost
          rw [List.cons_append, findRootMostValueAndPath_cons inner]
          obtain ⟨below, found', rfl⟩ := Option.map_eq_some_iff.mp rootMost
          rw [ih found']
          rfl

/-- The value is found at its own path. -/
theorem findRootMostValueAndPath_self {found : FPath × β}
    (rootMost : t.findRootMostValueAndPath p = some found) :
    t.findRootMostValueAndPath found.1 = some found := by
  induction p generalizing t found with
  | nil =>
      obtain ⟨v, _, rfl⟩ := Option.map_eq_some_iff.mp rootMost
      exact rootMost
  | cons k p ih =>
      cases inner : t.value with
      | some v =>
          cases t with
          | node value cs =>
              cases inner
              rw [findRootMostValueAndPath_value] at rootMost
              cases rootMost
              exact findRootMostValueAndPath_value
      | none =>
          rw [findRootMostValueAndPath_cons inner] at rootMost
          obtain ⟨below, found', rfl⟩ := Option.map_eq_some_iff.mp rootMost
          rw [findRootMostValueAndPath_cons inner, ih found']
          rfl

theorem rootMost_cons_iff (inner : t.value = none) :
    t.findRootMostValueAndPath (k :: p) = some (k :: p, v) ↔
      (t.childTree k).findRootMostValueAndPath p = some (p, v) := by
  rw [findRootMostValueAndPath_cons inner, Option.map_eq_some_iff]
  constructor
  · rintro ⟨⟨p', v'⟩, found, same⟩
    cases same
    exact found
  · exact fun found => ⟨(p, v), found, rfl⟩

/-- A canonical tree without values is empty. -/
theorem Canonical.eq_empty (canonical : t.Canonical)
    (none_ : ∀ p v, t.findRootMostValueAndPath p ≠ some (p, v)) : t = empty := by
  induction canonical with
  | value v => exact absurd rfl (none_ [] v)
  | @inner cs sorted some each ih =>
      cases cs with
      | nil => rfl
      | cons c cs =>
          have child : (node none (c :: cs)).childTree c.1 = c.2 := by
            rw [childTree_node, Table.find?_of_mem sorted List.mem_cons_self]
            rfl
          have gone := ih c List.mem_cons_self fun p v found =>
            none_ (c.1 :: p) v ((rootMost_cons_iff rfl).mpr (child ▸ found))
          have here := some c List.mem_cons_self
          rw [gone] at here
          cases here

/-- Two canonical trees with the same values are the same. -/
theorem Canonical.ext_values (canonical : t.Canonical) (canonical' : t'.Canonical)
    (same : ∀ p v, t.findRootMostValueAndPath p = some (p, v) ↔
      t'.findRootMostValueAndPath p = some (p, v)) : t = t' := by
  induction canonical generalizing t' with
  | value v =>
      have here := (same [] v).mp rfl
      rcases canonical'.cases_value with ⟨v', rfl⟩ | inner
      · cases here
        rfl
      · rw [findRootMostValueAndPath, findRootMostMatchingPath, inner] at here
        cases here
  | @inner cs sorted some each ih =>
      have canonical : (node none cs).Canonical := .inner sorted some each
      have inner' : t'.value = none := by
        rcases canonical'.cases_value with ⟨v', rfl⟩ | inner'
        · cases (same [] v').mpr rfl
        · exact inner'
      refine canonical.ext_children canonical' rfl inner' fun k => ?_
      have below (p : FPath) (v : β) :=
        ((rootMost_cons_iff rfl).symm.trans (same (k :: p) v)).trans (rootMost_cons_iff inner')
      cases stored : Table.find? stringOrder k cs with
      | none =>
          have absent : (node none cs).childTree k = empty := by
            rw [childTree_node, stored]
            rfl
          rw [absent] at below ⊢
          refine (canonical'.childTree.eq_empty fun p v found => ?_).symm
          have nothing := (below p v).mpr found
          rw [findRootMostValueAndPath_empty] at nothing
          cases nothing
      | some c =>
          have mem := (Table.find?_eq_some_iff sorted).mp stored
          have child : (node none cs).childTree k = c := by
            rw [childTree_node, stored]
            rfl
          rw [child] at below ⊢
          exact ih (k, c) mem canonical'.childTree below

theorem subtreeAtPath_cons : t.subtreeAtPath (k :: p) = (t.childTree k).subtreeAtPath p := by
  cases t with
  | node value cs =>
      rw [subtreeAtPath, childTree_node]
      simp only [children]
      cases Table.find? stringOrder k cs with
      | some child => rfl
      | none =>
          induction p with
          | nil => rfl
          | cons k p ih => rfl

theorem setTree_cons {new : FImmutableTree β} :
    t.setTree new (k :: p) = t.withChild k ((t.childTree k).setTree new p) := rfl

/-! ## The values, one after the other -/

theorem forEachChild_mem {e : FPath × β} :
    e ∈ forEachChild p cs ↔ ∃ c ∈ cs, e ∈ forEachPathSoFar (p.childFromString c.1) c.2 := by
  induction cs with
  | nil => simp [forEachChild]
  | cons c cs ih => simp [forEachChild, ih]

/-- The values below a path have paths below it. -/
theorem Canonical.prefix_of_mem {e : FPath × β} (canonical : t.Canonical)
    (mem : e ∈ forEachPathSoFar p t) : p <+: e.1 := by
  induction canonical generalizing p with
  | value v =>
      cases List.mem_singleton.mp mem
      exact List.prefix_rfl
  | inner sorted some each ih =>
      rw [forEachPathSoFar, Option.map_none, Option.toList_none, List.append_nil] at mem
      obtain ⟨c, mem', found⟩ := forEachChild_mem.mp mem
      exact (p.prefix_append [c.1]).trans (ih c mem' found)

/-- No value of a canonical tree is below another one. -/
theorem Canonical.pairwise_apart (canonical : t.Canonical) :
    (forEachPathSoFar p t).Pairwise fun a b => Apart a.1 b.1 := by
  induction canonical generalizing p with
  | value v => exact List.pairwise_singleton ..
  | @inner cs sorted some each ih =>
      rw [forEachPathSoFar, Option.map_none, Option.toList_none, List.append_nil]
      clear some
      induction cs with
      | nil => exact .nil
      | cons c cs rest =>
          rw [Table.sorted_cons] at sorted
          rw [forEachChild]
          refine List.pairwise_append.mpr ⟨ih c List.mem_cons_self,
            rest sorted.2 (fun c' mem => each c' (List.mem_cons_of_mem c mem))
              (fun c' mem => ih c' (List.mem_cons_of_mem c mem)), fun a memA b memB => ?_⟩
          obtain ⟨c', mem', found⟩ := forEachChild_mem.mp memB
          obtain ⟨ra, splitA⟩ := (each c List.mem_cons_self).prefix_of_mem memA
          obtain ⟨rb, splitB⟩ := (each c' (List.mem_cons_of_mem c mem')).prefix_of_mem found
          rw [← splitA, ← splitB]
          refine Apart.append (Apart.append_left (apart_append_left ?_))
          exact apart_cons_cons.mpr fun same => absurd same.symm (sorted.1.ne mem')

/-- The values that are seen are those that are found at their own paths. -/
theorem Canonical.mem_forEachPathSoFar (canonical : t.Canonical) :
    (p ++ r, v) ∈ forEachPathSoFar p t ↔ t.findRootMostValueAndPath r = some (r, v) := by
  induction canonical generalizing p r with
  | value v' =>
      rw [findRootMostValueAndPath_value]
      simp [forEachPathSoFar, forEachChild, eq_comm]
  | @inner cs sorted some each ih =>
      have canonical : (node none cs).Canonical := .inner sorted some each
      rw [forEachPathSoFar, Option.map_none, Option.toList_none, List.append_nil,
        forEachChild_mem]
      constructor
      · rintro ⟨c, mem, found⟩
        obtain ⟨r', split⟩ := (each c mem).prefix_of_mem found
        have whole : p ++ ([c.1] ++ r') = p ++ r := by
          rw [← List.append_assoc]
          exact split
        obtain rfl : [c.1] ++ r' = r := List.append_cancel_left whole
        have child : (node none cs).childTree c.1 = c.2 := by
          rw [childTree_node, Table.find?_of_mem sorted mem]
          rfl
        rw [← List.append_assoc] at found
        rw [List.singleton_append, findRootMostValueAndPath_cons rfl, child,
          (ih c mem).mp found]
        rfl
      · intro found
        cases r with
        | nil => cases found
        | cons k r =>
            rw [findRootMostValueAndPath_cons rfl] at found
            obtain ⟨⟨r', v'⟩, found', shape⟩ := Option.map_eq_some_iff.mp found
            cases shape
            cases stored : Table.find? stringOrder k cs with
            | none =>
                rw [childTree_node, stored] at found'
                exact absurd found' (by rw [Option.getD_none, findRootMostValueAndPath_empty]; simp)
            | some c =>
                have mem := (Table.find?_eq_some_iff sorted).mp stored
                rw [childTree_node, stored] at found'
                refine ⟨(k, c), mem, ?_⟩
                have here := (ih (k, c) mem (p := p ++ [k])).mpr found'
                rw [List.append_assoc] at here
                exact here

end FImmutableTree

end GAMember
