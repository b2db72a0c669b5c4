import GAMember.Firebase.Dictionary

/-!
# Walking through a sorted dictionary

A dictionary is walked through in three ways: a block is called for each entry
until it says stop (`enumerateKeysAndObjects`), two dictionaries are compared
entry by entry (`isEqual`), and an enumerator hands out one key per call. The
enumerator of a tree keeps the nodes it still has to visit on a stack.

What an enumerator has still to hand out is `remaining`. Each call takes its head
(`nextObject_remaining`), so a run of calls is known from what is remaining at
the start (`FImmutableSortedDictionary.objects_enumerators`).
-/

namespace GAMember

variable {κ α σ : Type}

/-! ## Traversals that a block can stop -/

/-- Call a block for each entry until it says stop. -/
def visit (action : σ → κ → α → Bool × σ) : List (κ × α) → σ → Bool × σ
  | [], s => (false, s)
  | (k, v) :: rest, s =>
      match action s k v with
      | (true, s) => (true, s)
      | (false, s) => visit action rest s

theorem visit_append (action : σ → κ → α → Bool × σ) (l r : List (κ × α)) (s : σ) :
    visit action (l ++ r) s =
      match visit action l s with
      | (true, s) => (true, s)
      | (false, s) => visit action r s := by
  induction l generalizing s with
  | nil => rfl
  | cons b l ih =>
      simp only [List.cons_append, visit]
      rcases action s b.1 b.2 with ⟨_ | _, s'⟩
      · exact ih s'
      · rfl

namespace FLLRBNode

/-- The block may keep a state; a child is not entered after it has said stop. -/
def inorderTraversal (action : σ → κ → α → Bool × σ) : FLLRBNode κ α → σ → Bool × σ
  | empty, s => (false, s)
  | node k v _ l r, s =>
      match l.inorderTraversal action s with
      | (true, s) => (true, s)
      | (false, s) =>
          match action s k v with
          | (true, s) => (true, s)
          | (false, s) => r.inorderTraversal action s

theorem inorderTraversal_eq_visit (action : σ → κ → α → Bool × σ) (t : FLLRBNode κ α) (s : σ) :
    t.inorderTraversal action s = visit action t.toList s := by
  induction t generalizing s with
  | empty => rfl
  | node k v c l r ihl ihr =>
      simp only [toList, visit_append, visit, inorderTraversal, ihl, ihr]

end FLLRBNode

/-! ## Equality -/

namespace FImmutableSortedDictionary

variable {cmp : κ → κ → Ordering}

def enumerateKeysAndObjects (action : σ → κ → α → Bool × σ) (s : σ) :
    FImmutableSortedDictionary κ α → σ
  | .array entries => (visit action entries s).2
  | .tree root => (root.inorderTraversal action s).2

theorem enumerateKeysAndObjects_eq (action : σ → κ → α → Bool × σ) (s : σ)
    (d : FImmutableSortedDictionary κ α) :
    d.enumerateKeysAndObjects action s = (visit action d.entries s).2 := by
  cases d with
  | array entries => rfl
  | tree root => rw [enumerateKeysAndObjects, FLLRBNode.inorderTraversal_eq_visit, entries]

/-- Two values are equal if they are one object or `isEqual`; here, if they are equal. -/
def isEqual [DecidableEq α] (cmp : κ → κ → Ordering) (self other : FImmutableSortedDictionary κ α) :
    Bool :=
  if self.count ≠ other.count then false
  else
    self.enumerateKeysAndObjects
      (fun isEqual key value =>
        let isEqual := isEqual && (other.get cmp key == some value)
        (!isEqual, isEqual))
      true

theorem visit_all (p : κ → α → Bool) (l : List (κ × α)) :
    (visit (fun isEqual key value =>
      let isEqual := isEqual && p key value
      (!isEqual, isEqual)) l true).2 = l.all fun b => p b.1 b.2 := by
  induction l with
  | nil => rfl
  | cons b l ih =>
      simp only [visit, Bool.true_and, List.all_cons]
      cases p b.1 b.2 with
      | false => rfl
      | true => exact ih

theorem count_eq_length (d : FImmutableSortedDictionary κ α) : d.count = d.entries.length := by
  cases d with
  | array entries => rfl
  | tree root => exact root.length_toList.symm

theorem isEqual_iff_entries [DecidableEq α] (d e : FImmutableSortedDictionary κ α) :
    isEqual cmp d e = true ↔
      d.entries.length = e.entries.length ∧
        ∀ b ∈ d.entries, e.get cmp b.1 = some b.2 := by
  rw [isEqual, count_eq_length, count_eq_length, enumerateKeysAndObjects_eq,
    visit_all (fun key value => e.get cmp key == some value)]
  split
  · rename_i differ
    simp [differ]
  · rename_i same
    simp [not_not.mp same]

/-- **Equality is that of the finite maps.** Two valid dictionaries are equal if and only if
they answer every key alike, in whichever of the two forms they are. -/
theorem isEqual_iff [Std.TransCmp cmp] [DecidableEq α] {d e : FImmutableSortedDictionary κ α}
    (left : Valid cmp d) (right : Valid cmp e) :
    isEqual cmp d e = true ↔ ∀ q, d.get cmp q = e.get cmp q := by
  rw [isEqual_iff_entries]
  simp only [get_eq_find? left, get_eq_find? right]
  constructor
  · rintro ⟨length, found⟩ q
    exact Table.find?_eq_of_length left.sorted right.sorted length found q
  · intro same
    have found (b : κ × α) (mem : b ∈ d.entries) :
        Table.find? cmp b.1 e.entries = some b.2 := by
      rw [← same, Table.find?_of_mem left.sorted mem]
    have found' (b : κ × α) (mem : b ∈ e.entries) :
        Table.find? cmp b.1 d.entries = some b.2 := by
      rw [same, Table.find?_of_mem right.sorted mem]
    have le := Table.length_le_of_found left.sorted right.sorted
      fun b mem => by simp [found b mem]
    have ge := Table.length_le_of_found right.sorted left.sorted
      fun b mem => by simp [found' b mem]
    exact ⟨Nat.le_antisymm le ge, found⟩

/-- Four entries, of which the third is in a red node. -/
def fourRoot : FLLRBNode Nat String :=
  .node 2 "b" .black (.node 1 "a" .black .empty .empty)
    (.node 4 "d" .black (.node 3 "c" .red .empty .empty) .empty)

theorem valid_fourRoot : Valid compare (.tree fourRoot) :=
  .tree (.black (.black .empty .empty) (.black (.red .empty .empty) .empty))
    (by simp [Table.Sorted, fourRoot, FLLRBNode.toList, Nat.compare_eq_lt])

theorem valid_fourEntries {a b c d : String} :
    Valid compare (.array [(1, a), (2, b), (3, c), (4, d)]) :=
  .array (by simp [Table.Sorted, Nat.compare_eq_lt]) (by simp [threshold])

theorem isEqual_iff_forms :
    (∀ q, (array [(1, "a"), (2, "b"), (3, "c"), (4, "d")]).get compare q =
        (tree fourRoot).get compare q) ∧
      ¬ ∀ q, (array [(1, "a"), (2, "b"), (3, "e"), (4, "d")]).get compare q =
        (tree fourRoot).get compare q :=
  ⟨(isEqual_iff valid_fourEntries valid_fourRoot).mp (by decide),
    mt (isEqual_iff valid_fourEntries valid_fourRoot).mpr (by decide)⟩

end FImmutableSortedDictionary

/-! ## Enumerators -/

/-- The last object of the source's stack is the head of `stack`. -/
structure FTreeSortedDictionaryEnumerator (κ α : Type) where
  stack : List (FLLRBNode κ α)
  isReverse : Bool

structure FArraySortedDictionaryEnumerator (κ : Type) where
  pos : Int
  reverse : Bool
  keys : List κ

namespace FTreeSortedDictionaryEnumerator

/-- The loop that fills the stack. Without a start key every node counts as greater. -/
def descend (cmp : κ → κ → Ordering) (startKey : Option κ) (isReverse : Bool) :
    FLLRBNode κ α → List (FLLRBNode κ α) → List (FLLRBNode κ α)
  | .empty, stack => stack
  | .node k v c l r, stack =>
      let order := match startKey with
        | some startKey => cmp k startKey
        | none => .gt
      match if isReverse then order.swap else order with
      | .lt => if isReverse then descend cmp startKey isReverse l stack
          else descend cmp startKey isReverse r stack
      | .eq => .node k v c l r :: stack
      | .gt => if isReverse then descend cmp startKey isReverse r (.node k v c l r :: stack)
          else descend cmp startKey isReverse l (.node k v c l r :: stack)

def new (cmp : κ → κ → Ordering) (root : FLLRBNode κ α) (startKey : Option κ)
    (isReverse : Bool) : FTreeSortedDictionaryEnumerator κ α :=
  ⟨descend cmp startKey isReverse root [], isReverse⟩

/-- The loop that refills the stack. -/
def push (isReverse : Bool) : FLLRBNode κ α → List (FLLRBNode κ α) → List (FLLRBNode κ α)
  | .empty, stack => stack
  | .node k v c l r, stack =>
      if isReverse then push isReverse r (.node k v c l r :: stack)
      else push isReverse l (.node k v c l r :: stack)

/-- No empty node is ever on the stack; it would have no key. -/
def nextObject (e : FTreeSortedDictionaryEnumerator κ α) :
    Option κ × FTreeSortedDictionaryEnumerator κ α :=
  match e.stack with
  | [] => (none, e)
  | .empty :: stack => (none, ⟨stack, e.isReverse⟩)
  | .node k _ _ l r :: stack =>
      (some k, ⟨push e.isReverse (if e.isReverse then l else r) stack, e.isReverse⟩)

end FTreeSortedDictionaryEnumerator

namespace FArraySortedDictionaryEnumerator

def nextObject (e : FArraySortedDictionaryEnumerator κ) :
    Option κ × FArraySortedDictionaryEnumerator κ :=
  if 0 ≤ e.pos ∧ e.pos < e.keys.length then
    (e.keys[e.pos.toNat]?, { e with pos := if e.reverse then e.pos - 1 else e.pos + 1 })
  else (none, e)

end FArraySortedDictionaryEnumerator

namespace FImmutableSortedDictionary

inductive Enumerator (κ α : Type)
  | array (e : FArraySortedDictionaryEnumerator κ)
  | tree (e : FTreeSortedDictionaryEnumerator κ α)

def Enumerator.nextObject : Enumerator κ α → Option κ × Enumerator κ α
  | .array e => (e.nextObject.1, .array e.nextObject.2)
  | .tree e => (e.nextObject.1, .tree e.nextObject.2)

/-- The keys that `n` calls hand out; it ends with the first `nil`. -/
def Enumerator.objects : Nat → Enumerator κ α → List κ
  | 0, _ => []
  | n + 1, e =>
      match e.nextObject with
      | (none, _) => []
      | (some k, e) => k :: e.objects n

/-- The keys in order. -/
def keys (d : FImmutableSortedDictionary κ α) : List κ := d.entries.map Prod.fst

variable (cmp : κ → κ → Ordering)

/-- An array hands its keys to the enumerator of `NSArray`, which goes through all of them. -/
def keyEnumerator : FImmutableSortedDictionary κ α → Enumerator κ α
  | .array entries => .array ⟨0, false, entries.map Prod.fst⟩
  | .tree root => .tree (.new cmp root none false)

def keyEnumeratorFrom (startKey : κ) : FImmutableSortedDictionary κ α → Enumerator κ α
  | .array entries =>
      let startPos := FArraySortedDictionary.findInsertPositionForKey cmp startKey entries
      .array ⟨startPos, false, entries.map Prod.fst⟩
  | .tree root => .tree (.new cmp root (some startKey) false)

def reverseKeyEnumerator : FImmutableSortedDictionary κ α → Enumerator κ α
  | .array entries => .array ⟨(entries.length : Int) - 1, true, entries.map Prod.fst⟩
  | .tree root => .tree (.new cmp root none true)

def reverseKeyEnumeratorFrom (startKey : κ) :
    FImmutableSortedDictionary κ α → Enumerator κ α
  | .array entries =>
      let startPos := FArraySortedDictionary.findInsertPositionForKey cmp startKey entries
      let startPos : Int := match entries[startPos]? with
        | none => startPos - 1
        | some b => if cmp b.1 startKey ≠ .eq then startPos - 1 else startPos
      .array ⟨startPos, true, entries.map Prod.fst⟩
  | .tree root => .tree (.new cmp root (some startKey) true)

end FImmutableSortedDictionary

variable {cmp : κ → κ → Ordering}

/-! ## What is remaining -/

namespace FTreeSortedDictionaryEnumerator

/-- The keys that a tree hands out once its root is on the stack. -/
def keysFrom (isReverse : Bool) : FLLRBNode κ α → List κ
  | .empty => []
  | .node k _ _ l r =>
      k :: if isReverse then (l.toList.map Prod.fst).reverse else r.toList.map Prod.fst

/-- The keys that are still to be handed out. -/
def remaining (e : FTreeSortedDictionaryEnumerator κ α) : List κ :=
  e.stack.flatMap (keysFrom e.isReverse)

/-- All keys of a tree in the direction of the walk. -/
def allKeys (isReverse : Bool) (t : FLLRBNode κ α) : List κ :=
  if isReverse then (t.toList.map Prod.fst).reverse else t.toList.map Prod.fst

variable {isReverse : Bool}

theorem remaining_push (t : FLLRBNode κ α) (stack : List (FLLRBNode κ α)) :
    remaining ⟨push isReverse t stack, isReverse⟩ =
      allKeys isReverse t ++ remaining ⟨stack, isReverse⟩ := by
  induction t generalizing stack with
  | empty => cases isReverse <;> rfl
  | node k v c l r ihl ihr =>
      cases isReverse with
      | false =>
          have down := ihl (.node k v c l r :: stack)
          simp only [push, Bool.false_eq_true, if_false]
          rw [down]
          simp [remaining, keysFrom, allKeys, FLLRBNode.toList]
      | true =>
          have down := ihr (.node k v c l r :: stack)
          simp only [push, if_true]
          rw [down]
          simp [remaining, keysFrom, allKeys, FLLRBNode.toList]

theorem nonempty_push (t : FLLRBNode κ α) {stack : List (FLLRBNode κ α)}
    (nonempty : .empty ∉ stack) : .empty ∉ push isReverse t stack := by
  induction t generalizing stack with
  | empty => exact nonempty
  | node k v c l r ihl ihr =>
      have more : .empty ∉ FLLRBNode.node k v c l r :: stack := by simp [nonempty]
      rw [push]
      split
      · exact ihr more
      · exact ihl more

/-- A call hands out the head of what is remaining and leaves the rest. -/
theorem nextObject_remaining (e : FTreeSortedDictionaryEnumerator κ α)
    (nonempty : .empty ∉ e.stack) :
    e.nextObject.1 = e.remaining.head? ∧ e.nextObject.2.remaining = e.remaining.tail ∧
      .empty ∉ e.nextObject.2.stack := by
  rcases e with ⟨stack, isReverse⟩
  match stack, nonempty with
  | [], nonempty => exact ⟨rfl, rfl, nonempty⟩
  | .empty :: stack, nonempty => simp at nonempty
  | .node k v c l r :: stack, nonempty =>
      have rest : .empty ∉ stack := fun mem => nonempty (List.mem_cons_of_mem _ mem)
      refine ⟨rfl, ?_, nonempty_push _ rest⟩
      simp only [nextObject, remaining_push]
      cases isReverse <;> rfl

theorem filter_none {startKey : κ} {o : Ordering} {l : List (κ × α)}
    (every : ∀ b ∈ l, cmp b.1 startKey = o) :
    (l.map Prod.fst).filter (fun k => cmp k startKey != o) = [] := by
  refine List.filter_eq_nil_iff.mpr fun k mem => ?_
  obtain ⟨b, inside, rfl⟩ := List.mem_map.mp mem
  simp [every b inside]

theorem filter_all {startKey : κ} {o : Ordering} (other : Ordering) {l : List (κ × α)}
    (every : ∀ b ∈ l, cmp b.1 startKey = o) (differ : o ≠ other) :
    (l.map Prod.fst).filter (fun k => cmp k startKey != other) = l.map Prod.fst := by
  refine List.filter_eq_self.mpr fun k mem => ?_
  obtain ⟨b, inside, rfl⟩ := List.mem_map.mp mem
  simp [every b inside, differ]

/-- The stack is filled with what has the start key or lies beyond it. -/
theorem remaining_descend [Std.TransCmp cmp] (startKey : κ) {t : FLLRBNode κ α}
    (sorted : Table.Sorted cmp t.toList) (stack : List (FLLRBNode κ α)) :
    remaining ⟨descend cmp (some startKey) isReverse t stack, isReverse⟩ =
      (allKeys isReverse t).filter
          (fun k => if isReverse then cmp k startKey != .gt else cmp k startKey != .lt) ++
        remaining ⟨stack, isReverse⟩ := by
  induction t generalizing stack with
  | empty => cases isReverse <;> rfl
  | node k v c l r ihl ihr =>
      rcases Table.sorted_split.mp sorted with ⟨left, right, above, below⟩
      have downLeft := ihl left
      have downRight := ihr right
      cases isReverse with
      | false =>
          simp only [Bool.false_eq_true, if_false, allKeys] at downLeft downRight ⊢
          simp only [descend, Bool.false_eq_true, if_false, FLLRBNode.toList, List.map_append,
            List.map_cons, List.filter_append, List.filter_cons]
          cases order : cmp k startKey with
          | lt =>
              have least : cmp k startKey ≠ .gt := by simp [order]
              have skipped := filter_none (Table.lt_of_above above least)
              simp only [bne_self_eq_false, Bool.false_eq_true, if_false, downRight, skipped,
                List.nil_append]
          | eq =>
              have least : cmp k startKey ≠ .gt := by simp [order]
              have most : cmp k startKey ≠ .lt := by simp [order]
              have skipped := filter_none (Table.lt_of_above above least)
              have kept := filter_all .lt (Table.gt_of_below below most) (by decide)
              simp [skipped, kept, remaining, keysFrom]
          | gt =>
              have most : cmp k startKey ≠ .lt := by simp [order]
              have kept := filter_all .lt (Table.gt_of_below below most) (by decide)
              rw [downLeft]
              simp [kept, remaining, keysFrom]
      | true =>
          simp only [if_true, allKeys, List.filter_reverse] at downLeft downRight ⊢
          simp only [descend, if_true, FLLRBNode.toList, List.map_append,
            List.map_cons, List.filter_append, List.filter_cons]
          cases order : cmp k startKey with
          | gt =>
              have most : cmp k startKey ≠ .lt := by simp [order]
              have skipped := filter_none (Table.gt_of_below below most)
              simp only [Ordering.swap_gt, bne_self_eq_false, Bool.false_eq_true, if_false,
                downLeft, skipped, List.append_nil]
          | eq =>
              have least : cmp k startKey ≠ .gt := by simp [order]
              have most : cmp k startKey ≠ .lt := by simp [order]
              have skipped := filter_none (Table.gt_of_below below most)
              have kept := filter_all .gt (Table.lt_of_above above least) (by decide)
              simp [skipped, kept, remaining, keysFrom]
          | lt =>
              have least : cmp k startKey ≠ .gt := by simp [order]
              have kept := filter_all .gt (Table.lt_of_above above least) (by decide)
              simp only [Ordering.swap_lt]
              rw [downRight]
              simp [kept, remaining, keysFrom]

theorem nonempty_descend (startKey : Option κ) (t : FLLRBNode κ α)
    {stack : List (FLLRBNode κ α)} (nonempty : .empty ∉ stack) :
    .empty ∉ descend cmp startKey isReverse t stack := by
  induction t generalizing stack with
  | empty => exact nonempty
  | node k v c l r ihl ihr =>
      have more : .empty ∉ FLLRBNode.node k v c l r :: stack := by simp [nonempty]
      unfold descend
      dsimp only
      split
      · split
        · exact ihl nonempty
        · exact ihr nonempty
      · exact more
      · split
        · exact ihr more
        · exact ihl more

/-- Forward and without a start key, filling the stack is refilling it. -/
theorem descend_none (t : FLLRBNode κ α) (stack : List (FLLRBNode κ α)) :
    descend cmp none false t stack = push false t stack := by
  induction t generalizing stack with
  | empty => rfl
  | node k v c l r ihl _ => exact ihl _

/-- In reverse the missing start key counts as smaller than every node, so no node is put
on the stack. -/
theorem descend_none_reverse (t : FLLRBNode κ α) (stack : List (FLLRBNode κ α)) :
    descend cmp none true t stack = stack := by
  induction t generalizing stack with
  | empty => rfl
  | node k v c l r ihl _ => exact ihl _

theorem objects_eq_take (n : Nat) {e : FTreeSortedDictionaryEnumerator κ α}
    (nonempty : .empty ∉ e.stack) :
    (FImmutableSortedDictionary.Enumerator.tree e).objects n = e.remaining.take n := by
  induction n generalizing e with
  | zero => rfl
  | succ n ih =>
      obtain ⟨head, tail, nonempty'⟩ := nextObject_remaining e nonempty
      rw [FImmutableSortedDictionary.Enumerator.objects,
        FImmutableSortedDictionary.Enumerator.nextObject, head]
      cases shape : e.remaining with
      | nil => rfl
      | cons k rest =>
          simp only [List.head?_cons, List.take_succ_cons]
          rw [ih nonempty', tail, shape, List.tail_cons]

/-- The objects of an enumerator without a start key. -/
theorem objects_new (n : Nat) (root : FLLRBNode κ α) :
    (FImmutableSortedDictionary.Enumerator.tree (new cmp root none isReverse)).objects n =
      if isReverse then [] else (root.toList.map Prod.fst).take n := by
  rw [objects_eq_take n (nonempty_descend none root (by simp)), new]
  cases isReverse with
  | true =>
      rw [descend_none_reverse]
      exact List.take_nil
  | false =>
      rw [descend_none, remaining_push]
      simp [remaining, allKeys]

theorem objects_newFrom [Std.TransCmp cmp] (n : Nat) {root : FLLRBNode κ α}
    (sorted : Table.Sorted cmp root.toList) (startKey : κ) :
    (FImmutableSortedDictionary.Enumerator.tree
        (new cmp root (some startKey) isReverse)).objects n =
      ((allKeys isReverse root).filter fun k =>
        if isReverse then cmp k startKey != .gt else cmp k startKey != .lt).take n := by
  rw [objects_eq_take n (nonempty_descend (some startKey) root (by simp)), new,
    remaining_descend startKey sorted]
  simp [remaining]

end FTreeSortedDictionaryEnumerator

namespace FArraySortedDictionaryEnumerator

theorem objects_forward (n pos : Nat) (keys : List κ) :
    (FImmutableSortedDictionary.Enumerator.array (α := α) ⟨pos, false, keys⟩).objects n =
      (keys.drop pos).take n := by
  induction n generalizing pos with
  | zero => rfl
  | succ n ih =>
      rw [FImmutableSortedDictionary.Enumerator.objects,
        FImmutableSortedDictionary.Enumerator.nextObject, nextObject]
      by_cases within : pos < keys.length
      · have inside : 0 ≤ (pos : Int) ∧ (pos : Int) < keys.length := by omega
        have next := ih (pos + 1)
        simp only [Int.natCast_add] at next
        rw [if_pos inside]
        simp only [Int.toNat_natCast, List.getElem?_eq_getElem within, Bool.false_eq_true,
          if_false]
        rw [List.drop_eq_getElem_cons within, List.take_succ_cons]
        exact congrArg _ next
      · have outside : ¬(0 ≤ (pos : Int) ∧ (pos : Int) < keys.length) := by omega
        rw [if_neg outside, List.drop_eq_nil_of_le (by omega)]
        rfl

theorem objects_reverse (n m : Nat) {keys : List κ} (within : m ≤ keys.length) :
    (FImmutableSortedDictionary.Enumerator.array (α := α) ⟨(m : Int) - 1, true, keys⟩).objects n =
      (keys.take m).reverse.take n := by
  induction n generalizing m with
  | zero => rfl
  | succ n ih =>
      rw [FImmutableSortedDictionary.Enumerator.objects,
        FImmutableSortedDictionary.Enumerator.nextObject, nextObject]
      cases m with
      | zero => rfl
      | succ m =>
          have inside : 0 ≤ ((m + 1 : Nat) : Int) - 1 ∧
              ((m + 1 : Nat) : Int) - 1 < keys.length := by omega
          have pos : (((m + 1 : Nat) : Int) - 1).toNat = m := by omega
          rw [if_pos inside]
          simp only [pos, List.getElem?_eq_getElem within, if_true]
          have last : keys.take (m + 1) = keys.take m ++ [keys[m]] := by
            rw [List.take_add_one, List.getElem?_eq_getElem within]
            rfl
          rw [last, List.reverse_append, List.reverse_singleton, List.singleton_append,
            List.take_succ_cons, ← ih m (by omega)]
          simp

end FArraySortedDictionaryEnumerator

namespace FImmutableSortedDictionary

open FArraySortedDictionary (findInsertPositionForKey) in
theorem drop_findInsertPositionForKey [Std.TransCmp cmp] (startKey : κ) {es : List (κ × α)}
    (sorted : Table.Sorted cmp es) :
    (es.map Prod.fst).drop (findInsertPositionForKey cmp startKey es) =
      (es.map Prod.fst).filter fun k => cmp k startKey != .lt := by
  induction es with
  | nil => rfl
  | cons b es ih =>
      obtain ⟨k, v⟩ := b
      rcases Table.sorted_cons.mp sorted with ⟨below, rest⟩
      rw [findInsertPositionForKey, List.map_cons, List.filter_cons]
      by_cases less : cmp k startKey = .lt
      · simp [less, ih rest]
      · have kept := FTreeSortedDictionaryEnumerator.filter_all .lt
          (Table.gt_of_below below less) (by decide)
        simp [less, kept]

/-- The number of keys up to a start key. -/
def upTo (cmp : κ → κ → Ordering) (startKey : κ) (es : List (κ × α)) : Nat :=
  let pos := FArraySortedDictionary.findInsertPositionForKey cmp startKey es
  match es[pos]? with
  | none => pos
  | some b => if cmp b.1 startKey ≠ .eq then pos else pos + 1

theorem take_upTo [Std.TransCmp cmp] (startKey : κ) {es : List (κ × α)}
    (sorted : Table.Sorted cmp es) :
    (es.map Prod.fst).take (upTo cmp startKey es) =
      (es.map Prod.fst).filter fun k => cmp k startKey != .gt := by
  induction es with
  | nil => simp
  | cons b es ih =>
      obtain ⟨k, v⟩ := b
      rcases Table.sorted_cons.mp sorted with ⟨below, rest⟩
      have onward := ih rest
      cases order : cmp k startKey with
      | lt =>
          have one_more : upTo cmp startKey ((k, v) :: es) = upTo cmp startKey es + 1 := by
            simp only [upTo, FArraySortedDictionary.findInsertPositionForKey, order, if_true,
              List.getElem?_cons_succ]
            cases es[FArraySortedDictionary.findInsertPositionForKey cmp startKey es]? with
            | none => rfl
            | some b =>
                dsimp only
                split <;> rfl
          simp [one_more, order, onward]
      | eq =>
          have most : cmp k startKey ≠ .lt := by simp [order]
          have skipped := FTreeSortedDictionaryEnumerator.filter_none
            (Table.gt_of_below below most)
          simp [upTo, FArraySortedDictionary.findInsertPositionForKey, order, skipped]
      | gt =>
          have most : cmp k startKey ≠ .lt := by simp [order]
          have skipped := FTreeSortedDictionaryEnumerator.filter_none
            (Table.gt_of_below below most)
          simp [upTo, FArraySortedDictionary.findInsertPositionForKey, order, skipped]

theorem upTo_le (startKey : κ) (es : List (κ × α)) :
    upTo cmp startKey es ≤ (es.map Prod.fst).length := by
  have within : FArraySortedDictionary.findInsertPositionForKey cmp startKey es ≤ es.length := by
    induction es with
    | nil => exact Nat.le_refl 0
    | cons b es ih =>
        rw [FArraySortedDictionary.findInsertPositionForKey, List.length_cons]
        split <;> omega
  rw [upTo, List.length_map]
  cases at_pos : es[FArraySortedDictionary.findInsertPositionForKey cmp startKey es]? with
  | none => exact within
  | some b =>
      have inside := (List.getElem?_eq_some_iff.mp at_pos).1
      dsimp only
      split
      · exact within
      · exact inside

/-- **What the enumerators hand out.** Forward, with or without a start key, and in reverse
from a start key, `n` calls give the first `n` keys one expects, whichever form the
dictionary has. In reverse without a start key this is so for an array only: the
enumerator of a tree hands out nothing. -/
theorem objects_enumerators [Std.TransCmp cmp] {d : FImmutableSortedDictionary κ α}
    (valid : Valid cmp d) (startKey : κ) (n : Nat) :
    (d.keyEnumerator cmp).objects n = d.keys.take n ∧
      (d.keyEnumeratorFrom cmp startKey).objects n =
        (d.keys.filter fun k => cmp k startKey != .lt).take n ∧
      (d.reverseKeyEnumeratorFrom cmp startKey).objects n =
        (d.keys.filter fun k => cmp k startKey != .gt).reverse.take n ∧
      (d.reverseKeyEnumerator cmp).objects n =
        match d with
        | .array _ => d.keys.reverse.take n
        | .tree _ => [] := by
  cases valid with
  | tree balanced sorted =>
      refine ⟨FTreeSortedDictionaryEnumerator.objects_new n _,
        FTreeSortedDictionaryEnumerator.objects_newFrom n sorted startKey, ?_,
        FTreeSortedDictionaryEnumerator.objects_new n _⟩
      rw [reverseKeyEnumeratorFrom, FTreeSortedDictionaryEnumerator.objects_newFrom n sorted]
      simp only [FTreeSortedDictionaryEnumerator.allKeys, if_true, List.filter_reverse]
      rfl
  | @array es sorted few =>
      refine ⟨?_, ?_, ?_, ?_⟩
      · exact FArraySortedDictionaryEnumerator.objects_forward n 0 _
      · rw [keyEnumeratorFrom,
          FArraySortedDictionaryEnumerator.objects_forward,
          drop_findInsertPositionForKey startKey sorted]
        rfl
      · have start : reverseKeyEnumeratorFrom cmp startKey (.array es) =
            .array ⟨(upTo cmp startKey es : Int) - 1, true, es.map Prod.fst⟩ := by
          rw [reverseKeyEnumeratorFrom, upTo]
          cases es[FArraySortedDictionary.findInsertPositionForKey cmp startKey es]? with
          | none => rfl
          | some b =>
              dsimp only
              split
              · rfl
              · simp
        rw [start, FArraySortedDictionaryEnumerator.objects_reverse n _ (upTo_le startKey es),
          take_upTo startKey sorted]
        rfl
      · rw [reverseKeyEnumerator]
        have size : es.length = (es.map Prod.fst).length := by simp
        rw [size, FArraySortedDictionaryEnumerator.objects_reverse n _ (Nat.le_refl _),
          List.take_length]
        rfl

theorem objects_enumerators_four :
    let d : FImmutableSortedDictionary Nat String := .tree fourRoot
    let e : FImmutableSortedDictionary Nat String := .array fourRoot.toList
    ((d.keyEnumerator compare).objects 3 = [1, 2, 3] ∧
      (d.keyEnumeratorFrom compare 3).objects 3 = [3, 4] ∧
      (d.reverseKeyEnumeratorFrom compare 3).objects 3 = [3, 2, 1] ∧
      (d.reverseKeyEnumerator compare).objects 3 = []) ∧
    (e.keyEnumerator compare).objects 3 = [1, 2, 3] ∧
      (e.keyEnumeratorFrom compare 3).objects 3 = [3, 4] ∧
      (e.reverseKeyEnumeratorFrom compare 3).objects 3 = [3, 2, 1] ∧
      (e.reverseKeyEnumerator compare).objects 3 = [4, 3, 2] :=
  ⟨objects_enumerators valid_fourRoot 3 3, objects_enumerators valid_fourEntries 3 3⟩

end FImmutableSortedDictionary

end GAMember
