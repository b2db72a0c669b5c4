import GAMember.Firebase.Removal
import GAMember.Firebase.Builder
import Mathlib.Data.List.Sort

/-!
# Immutable sorted dictionaries

`FImmutableSortedDictionary` keeps up to 25 entries in an array and more in a
tree. An array that outgrows this becomes a tree; a tree never becomes an array
again. Both are persistent: an operation answers a new dictionary.

`Valid` is what the class comment calls its invariants, with the order of the
keys. Every dictionary the client can make is valid, and `get` answers from it
as from a finite map whose keys are taken up to the comparator
(`FImmutableSortedDictionary.run_spec`). The two forms differ in one thing: an
array puts a new key object in the place of an equal one, a tree keeps the old
one.
-/

namespace GAMember

inductive FImmutableSortedDictionary (κ α : Type)
  | array (entries : List (κ × α))
  | tree (root : FLLRBNode κ α)
  deriving DecidableEq, Repr

variable {κ α : Type}

/-! ## The array -/

namespace FArraySortedDictionary

variable (cmp : κ → κ → Ordering)

/-- The keys and the values are two arrays of one length; here, one list of entries. -/
def findInsertPositionForKey (key : κ) : List (κ × α) → Nat
  | [] => 0
  | (k, _) :: rest =>
      if cmp k key = .lt then findInsertPositionForKey key rest + 1 else 0

def findKey (key : κ) : List (κ × α) → Option Nat
  | [] => none
  | (k, _) :: rest =>
      match cmp key k with
      | .eq => some 0
      | .lt => none
      | .gt => (findKey key rest).map (· + 1)

def get (key : κ) (entries : List (κ × α)) : Option α :=
  (findKey cmp key entries).bind fun pos => entries[pos]?.map Prod.snd

end FArraySortedDictionary

/-! ## The tree -/

namespace FTreeSortedDictionary

variable (cmp : κ → κ → Ordering)

def get (key : κ) : FLLRBNode κ α → Option α
  | .empty => none
  | .node k v _ l r =>
      match cmp key k with
      | .eq => some v
      | .lt => get key l
      | .gt => get key r

def insertKey (aKey : κ) (aValue : α) (root : FLLRBNode κ α) : FLLRBNode κ α :=
  (root.insertKey cmp aKey aValue).withColor .black

def removeKey (aKey : κ) (root : FLLRBNode κ α) : FLLRBNode κ α :=
  if (get cmp aKey root).isNone then root else (root.remove cmp aKey).withColor .black

end FTreeSortedDictionary

/-! ## Making one from a dictionary -/

/-- The keys ascend strictly, each compared with the one before. -/
def ascending (cmp : κ → κ → Ordering) : List (κ × α) → Bool
  | a :: b :: rest => cmp a.1 b.1 == .lt && ascending cmp (b :: rest)
  | _ => true

/-- The entries of an `NSDictionary` in the order of the comparator. The order in which the
`NSDictionary` lists them is left open. -/
def sortedEntries (cmp : κ → κ → Ordering) (dictionary : List (κ × α)) :
    Except String (List (κ × α)) :=
  let sorted := dictionary.mergeSort fun a b => (cmp a.1 b.1).isLE
  if ascending cmp sorted then .ok sorted
  else .error "Can't create FImmutableSortedDictionary with keys with same ordering!"

namespace FTreeSortedDictionary

/-- `buildBalancedTree` has no position to raise at, which `rootFrom12List_spec` shows. -/
def fromDictionary (cmp : κ → κ → Ordering) (dictionary : List (κ × α)) :
    Except String (FLLRBNode κ α) := do
  let sortedKeyList ← sortedEntries cmp dictionary
  let list := base12List_new (sortedKeyList.length % 2 ^ 32)
  match rootFrom12List list sortedKeyList with
  | none => .error "NSRangeException"
  | some root => .ok root

end FTreeSortedDictionary

namespace FImmutableSortedDictionary

/-- `SORTED_DICTIONARY_ARRAY_TO_RB_TREE_SIZE_THRESHOLD` -/
def threshold : Nat := 25

def dictionaryWithComparator : FImmutableSortedDictionary κ α := .array []

variable (cmp : κ → κ → Ordering)

def fromDictionary (dictionary : List (κ × α)) :
    Except String (FImmutableSortedDictionary κ α) :=
  if dictionary.length ≤ threshold then .array <$> sortedEntries cmp dictionary
  else .tree <$> FTreeSortedDictionary.fromDictionary cmp dictionary

/-- No entry of a full array has a key equal to a new one, so the `NSDictionary` it is
copied to has one entry more. -/
def insertKey (key : κ) (value : α) :
    FImmutableSortedDictionary κ α → Except String (FImmutableSortedDictionary κ α)
  | .array entries =>
      match FArraySortedDictionary.findKey cmp key entries with
      | none =>
          if threshold ≤ entries.length then
            .tree <$> FTreeSortedDictionary.fromDictionary cmp (entries ++ [(key, value)])
          else
            let newPos := FArraySortedDictionary.findInsertPositionForKey cmp key entries
            .ok (.array (entries.insertIdx newPos (key, value)))
      | some pos => .ok (.array (entries.set pos (key, value)))
  | .tree root => .ok (.tree (FTreeSortedDictionary.insertKey cmp key value root))

def removeKey (key : κ) : FImmutableSortedDictionary κ α → FImmutableSortedDictionary κ α
  | .array entries =>
      match FArraySortedDictionary.findKey cmp key entries with
      | none => .array entries
      | some pos => .array (entries.eraseIdx pos)
  | .tree root => .tree (FTreeSortedDictionary.removeKey cmp key root)

def get (key : κ) : FImmutableSortedDictionary κ α → Option α
  | .array entries => FArraySortedDictionary.get cmp key entries
  | .tree root => FTreeSortedDictionary.get cmp key root

def count : FImmutableSortedDictionary κ α → Nat
  | .array entries => entries.length
  | .tree root => root.count

/-- The entries in the order in which `enumerateKeysAndObjects` visits them. -/
def entries : FImmutableSortedDictionary κ α → List (κ × α)
  | .array entries => entries
  | .tree root => root.toList

/-- What the class comment promises, and that an array is not too long. -/
inductive Valid : FImmutableSortedDictionary κ α → Prop
  | array {entries : List (κ × α)} (sorted : Table.Sorted cmp entries)
      (few : entries.length ≤ threshold) : Valid (.array entries)
  | tree {root : FLLRBNode κ α} {h : Nat} (balanced : root.Balanced .black h)
      (sorted : Table.Sorted cmp root.toList) : Valid (.tree root)

/-- A change a holder of a dictionary can make. -/
inductive Change (κ α : Type)
  | insert (key : κ) (value : α)
  | remove (key : κ)

def change (d : FImmutableSortedDictionary κ α) :
    Change κ α → Except String (FImmutableSortedDictionary κ α)
  | .insert key value => d.insertKey cmp key value
  | .remove key => .ok (d.removeKey cmp key)

def run (d : FImmutableSortedDictionary κ α) :
    List (Change κ α) → Except String (FImmutableSortedDictionary κ α)
  | [] => .ok d
  | c :: cs => do run (← change cmp d c) cs

end FImmutableSortedDictionary

/-- A change of a finite map with keys up to the comparator. -/
def FImmutableSortedDictionary.Change.apply (cmp : κ → κ → Ordering) (f : κ → Option α) :
    FImmutableSortedDictionary.Change κ α → κ → Option α
  | .insert key value, q => if cmp q key = .eq then some value else f q
  | .remove key, q => if cmp q key = .eq then none else f q

/-- A change of a table of entries. -/
def FImmutableSortedDictionary.Change.table (cmp : κ → κ → Ordering) (entries : List (κ × α)) :
    FImmutableSortedDictionary.Change κ α → List (κ × α)
  | .insert key value => Table.put cmp key value entries
  | .remove key => Table.erase cmp key entries

variable {cmp : κ → κ → Ordering}

/-! ## The array keeps a sorted table -/

namespace FArraySortedDictionary

variable {key : κ} {value : α} {entries : List (κ × α)} {pos : Nat}

theorem set_eq_put (found : findKey cmp key entries = some pos) :
    entries.set pos (key, value) = Table.put cmp key value entries := by
  induction entries generalizing pos with
  | nil => cases found
  | cons b rest ih =>
      obtain ⟨k, v⟩ := b
      rw [findKey] at found
      rw [Table.put]
      cases order : cmp key k with
      | lt => simp [order] at found
      | eq =>
          simp only [order, Option.some.injEq] at found
          rw [← found]
          rfl
      | gt =>
          simp only [order, Option.map_eq_some_iff] at found
          obtain ⟨before, found, rfl⟩ := found
          rw [List.set_cons_succ, ih found]

theorem insertIdx_eq_put [Std.OrientedCmp cmp] (absent : findKey cmp key entries = none) :
    entries.insertIdx (findInsertPositionForKey cmp key entries) (key, value) =
      Table.put cmp key value entries := by
  induction entries with
  | nil => rfl
  | cons b rest ih =>
      obtain ⟨k, v⟩ := b
      rw [findKey] at absent
      rw [Table.put, findInsertPositionForKey]
      cases order : cmp key k with
      | lt =>
          have above : cmp k key ≠ .lt := by simp [Std.OrientedCmp.gt_of_lt order]
          rw [if_neg above]
          rfl
      | eq => simp [order] at absent
      | gt =>
          simp only [order, Option.map_eq_none_iff] at absent
          rw [if_pos (Std.OrientedCmp.lt_of_gt order), List.insertIdx_succ_cons, ih absent]

/-- Looking for a key stops early where the keys are already larger. -/
theorem find?_of_findKey_none [Std.TransCmp cmp] (sorted : Table.Sorted cmp entries)
    (absent : findKey cmp key entries = none) : Table.find? cmp key entries = none := by
  induction entries with
  | nil => rfl
  | cons b rest ih =>
      obtain ⟨k, v⟩ := b
      rcases Table.sorted_cons.mp sorted with ⟨below, sorted⟩
      rw [findKey] at absent
      rw [Table.find?_cons]
      cases order : cmp key k with
      | lt => simp [Table.find?_of_below (below.of_lt order)]
      | eq => simp [order] at absent
      | gt =>
          simp only [order, Option.map_eq_none_iff] at absent
          simp [ih sorted absent]

theorem get_eq_find? [Std.TransCmp cmp] (sorted : Table.Sorted cmp entries) :
    get cmp key entries = Table.find? cmp key entries := by
  induction entries with
  | nil => rfl
  | cons b rest ih =>
      obtain ⟨k, v⟩ := b
      rcases Table.sorted_cons.mp sorted with ⟨below, sorted⟩
      rw [Table.find?_cons, get, findKey]
      cases order : cmp key k with
      | lt => simp [Table.find?_of_below (below.of_lt order)]
      | eq => simp
      | gt =>
          have onward := ih sorted
          rw [get] at onward
          simp only [reduceCtorEq, if_false, ← onward]
          cases findKey cmp key rest <;> simp

theorem eraseIdx_eq_erase [Std.TransCmp cmp] (sorted : Table.Sorted cmp entries)
    (found : findKey cmp key entries = some pos) :
    entries.eraseIdx pos = Table.erase cmp key entries := by
  induction entries generalizing pos with
  | nil => cases found
  | cons b rest ih =>
      obtain ⟨k, v⟩ := b
      rcases Table.sorted_cons.mp sorted with ⟨below, sorted⟩
      have split := @Table.erase_split _ _ _ key k v [] rest _
        (Table.sorted_cons.mpr ⟨below, sorted⟩)
      rw [List.nil_append] at split
      rw [findKey] at found
      rw [split]
      cases order : cmp key k with
      | lt => simp [order] at found
      | eq =>
          simp only [order, Option.some.injEq] at found
          rw [← found]
          rfl
      | gt =>
          simp only [order, Option.map_eq_some_iff] at found
          obtain ⟨before, found, rfl⟩ := found
          simp [ih sorted found]

end FArraySortedDictionary

/-! ## Sorting -/

section Sorting

variable {dictionary es : List (κ × α)}

theorem ascending_iff_sorted [Std.TransCmp cmp] :
    ascending cmp es = true ↔ Table.Sorted cmp es := by
  induction es with
  | nil => simp [ascending, Table.Sorted]
  | cons a rest ih =>
      cases rest with
      | nil => simp [ascending, Table.Sorted]
      | cons b rest =>
          rw [ascending, Bool.and_eq_true, beq_iff_eq, ih]
          constructor
          · rintro ⟨less, sorted⟩
            obtain ⟨k, v⟩ := b
            exact Table.sorted_cons_of_lt less sorted
          · intro sorted
            rcases Table.sorted_cons.mp sorted with ⟨below, sorted⟩
            exact ⟨below b List.mem_cons_self, sorted⟩

/-- Sorting keeps the entries and raises only where two keys have one order. -/
theorem sortedEntries_ok [Std.TransCmp cmp] (sorted : sortedEntries cmp dictionary = .ok es) :
    Table.Sorted cmp es ∧ es.Perm dictionary := by
  unfold sortedEntries at sorted
  dsimp only at sorted
  split at sorted
  · rename_i strict
    cases sorted
    exact ⟨ascending_iff_sorted.mp strict, List.mergeSort_perm _ _⟩
  · cases sorted

theorem pairwise_isLE_mergeSort [Std.TransCmp cmp] (dictionary : List (κ × α)) :
    (dictionary.mergeSort fun a b => (cmp a.1 b.1).isLE).Pairwise
      fun a b => (cmp a.1 b.1).isLE = true := by
  refine List.pairwise_mergeSort (fun a b c => Std.TransCmp.isLE_trans) (fun a b => ?_) _
  rw [Bool.or_eq_true]
  cases order : cmp a.1 b.1 with
  | lt => exact .inl rfl
  | eq => exact .inl rfl
  | gt => exact .inr (by simp [Std.OrientedCmp.lt_of_gt order])

theorem sortedEntries_of_perm [Std.TransCmp cmp] (sorted : Table.Sorted cmp es)
    (same : es.Perm dictionary) : sortedEntries cmp dictionary = .ok es := by
  have unique : dictionary.mergeSort (fun a b => (cmp a.1 b.1).isLE) = es := by
    refine List.Perm.eq_of_pairwise (fun a b memLeft memRight le ge => ?_)
      (pairwise_isLE_mergeSort dictionary)
      (sorted.imp fun less => by simp [less]) ((List.mergeSort_perm _ _).trans same.symm)
    have memLeft : a ∈ es := same.symm.subset ((List.mergeSort_perm _ _).subset memLeft)
    exact Table.eq_of_mem sorted memLeft memRight (Std.OrientedCmp.isLE_antisymm le ge)
  rw [sortedEntries, unique]
  simp [ascending_iff_sorted.mpr sorted]

end Sorting

/-! ## The tree keeps a sorted table -/

namespace FTreeSortedDictionary

variable {key : κ} {value : α} {root : FLLRBNode κ α} {h : Nat} {l es : List (κ × α)}

theorem get_eq_find? [Std.TransCmp cmp] (sorted : Table.Sorted cmp root.toList) :
    get cmp key root = Table.find? cmp key root.toList := by
  induction root with
  | empty => rfl
  | node k v c l r ihl ihr =>
      rcases Table.sorted_split.mp sorted with ⟨left, right, _, _⟩
      rw [get, FLLRBNode.toList, Table.find?_split sorted, ihl left, ihr right]
      cases cmp key k <;> rfl

theorem balanced_insertKey (balanced : root.Balanced .black h) :
    ∃ h', (insertKey cmp key value root).Balanced .black h' := by
  cases FLLRBNode.inserted_insertKey cmp key value balanced with
  | black valid => exact ⟨_, valid.withColor_black⟩

theorem toList_insertKey [Std.TransCmp cmp] (sorted : Table.Sorted cmp root.toList) :
    (insertKey cmp key value root).toList = Table.insert cmp key value root.toList := by
  rw [insertKey, FLLRBNode.toList_withColor, FLLRBNode.toList_insertKey cmp key value sorted]

theorem removeKey_spec [Std.TransCmp cmp] (balanced : root.Balanced .black h)
    (sorted : Table.Sorted cmp root.toList) :
    (∃ h', (removeKey cmp key root).Balanced .black h') ∧
      (removeKey cmp key root).toList = Table.erase cmp key root.toList := by
  rw [removeKey]
  split
  · rename_i absent
    rw [Option.isNone_iff_eq_none, get_eq_find? sorted] at absent
    exact ⟨⟨h, balanced⟩, (Table.erase_of_find?_none absent).symm⟩
  · rcases FLLRBNode.remove_root balanced sorted with ⟨balanced, same⟩
    rw [FLLRBNode.toList_withColor]
    exact ⟨balanced, same⟩

theorem fromDictionary_of_sorted {dictionary : List (κ × α)}
    (small : dictionary.length + 1 < 2 ^ 32)
    (sorted : sortedEntries cmp dictionary = .ok es) (same : es.length = dictionary.length) :
    ∃ root h, fromDictionary cmp dictionary = .ok root ∧
      root.Balanced .black h ∧ root.toList = es := by
  obtain ⟨root, h, built, balanced, entries⟩ := rootFrom12List_spec es (same ▸ small)
  refine ⟨root, h, ?_, balanced, entries⟩
  have truncated : es.length % 2 ^ 32 = es.length := Nat.mod_eq_of_lt (by omega)
  simp only [fromDictionary, sorted, bind, Except.bind, truncated, built]

end FTreeSortedDictionary

/-! ## Runs -/

namespace FImmutableSortedDictionary

variable {d d' : FImmutableSortedDictionary κ α}

theorem Valid.sorted (valid : Valid cmp d) : Table.Sorted cmp d.entries := by
  cases valid with
  | array sorted _ => exact sorted
  | tree _ sorted => exact sorted

theorem get_eq_find? [Std.TransCmp cmp] (valid : Valid cmp d) (q : κ) :
    d.get cmp q = Table.find? cmp q d.entries := by
  cases valid with
  | array sorted _ => exact FArraySortedDictionary.get_eq_find? sorted
  | tree _ sorted => exact FTreeSortedDictionary.get_eq_find? sorted

theorem valid_dictionaryWithComparator :
    Valid cmp (dictionaryWithComparator : FImmutableSortedDictionary κ α) :=
  .array Table.sorted_nil (Nat.zero_le _)

/-- A dictionary made of sorted entries. -/
theorem valid_fromDictionary [Std.TransCmp cmp] {dictionary es : List (κ × α)}
    (small : dictionary.length + 1 < 2 ^ 32)
    (sorted : sortedEntries cmp dictionary = .ok es) :
    ∃ d, fromDictionary cmp dictionary = .ok d ∧ Valid cmp d ∧ d.entries = es := by
  rcases sortedEntries_ok sorted with ⟨inOrder, perm⟩
  rw [fromDictionary]
  split
  · rename_i few
    rw [sorted]
    exact ⟨_, rfl, .array inOrder (perm.length_eq ▸ few), rfl⟩
  · obtain ⟨root, h, built, balanced, entries⟩ :=
      FTreeSortedDictionary.fromDictionary_of_sorted small sorted perm.length_eq
    rw [built]
    exact ⟨_, rfl, .tree balanced (entries ▸ inOrder), entries⟩

theorem insertKey_spec [Std.TransCmp cmp] (valid : Valid cmp d) (key : κ) (value : α) :
    ∃ d', d.insertKey cmp key value = .ok d' ∧ Valid cmp d' ∧
      (d'.entries = Table.put cmp key value d.entries ∨
        d'.entries = Table.insert cmp key value d.entries) := by
  cases valid with
  | tree balanced sorted =>
      obtain ⟨h', kept⟩ := @FTreeSortedDictionary.balanced_insertKey
        _ _ cmp key value _ _ balanced
      have entries := @FTreeSortedDictionary.toList_insertKey
        _ _ _ key value _ _ sorted
      exact ⟨_, rfl, .tree kept (entries ▸ Table.sorted_insert sorted), .inr entries⟩
  | @array entries sorted few =>
      rw [insertKey]
      cases found : FArraySortedDictionary.findKey cmp key entries with
      | some pos =>
          have replaced := @FArraySortedDictionary.set_eq_put _ _ _ _ value _ _ found
          refine ⟨_, rfl, .array ?_ (by rwa [List.length_set]), .inl replaced⟩
          rw [replaced]
          exact Table.sorted_put sorted
      | none =>
          have absent := FArraySortedDictionary.find?_of_findKey_none sorted found
          have perm := Table.put_perm (w := value) absent
          by_cases full : threshold ≤ entries.length
          · have size : (entries ++ [(key, value)]).length = entries.length + 1 := by simp
            obtain ⟨root, h, built, balanced, same⟩ :=
              FTreeSortedDictionary.fromDictionary_of_sorted
                (by rw [size]; simp only [threshold] at few; omega)
                (sortedEntries_of_perm (Table.sorted_put sorted) perm) perm.length_eq
            refine ⟨.tree root, ?_, .tree balanced ?_, .inl same⟩
            · simp [full, built]
            · rw [same]
              exact Table.sorted_put sorted
          · have inserted := @FArraySortedDictionary.insertIdx_eq_put _ _ _ _ value _ _ found
            rw [if_neg full]
            dsimp only
            rw [inserted]
            refine ⟨_, rfl, .array (Table.sorted_put sorted) ?_, .inl rfl⟩
            · rw [perm.length_eq, List.length_append]
              simp only [threshold, List.length_singleton] at full ⊢
              omega

theorem removeKey_spec [Std.TransCmp cmp] (valid : Valid cmp d) (key : κ) :
    Valid cmp (d.removeKey cmp key) ∧
      (d.removeKey cmp key).entries = Table.erase cmp key d.entries := by
  cases valid with
  | tree balanced sorted =>
      rcases @FTreeSortedDictionary.removeKey_spec _ _ _ key _ _ _ balanced sorted with
        ⟨⟨h', kept⟩, entries⟩
      exact ⟨.tree kept (entries ▸ Table.sorted_erase sorted), entries⟩
  | @array entries sorted few =>
      simp only [removeKey]
      cases found : FArraySortedDictionary.findKey cmp key entries with
      | none =>
          have absent := FArraySortedDictionary.find?_of_findKey_none sorted found
          exact ⟨.array sorted few, (Table.erase_of_find?_none absent).symm⟩
      | some pos =>
          have erased := FArraySortedDictionary.eraseIdx_eq_erase sorted found
          refine ⟨.array ?_ ?_, erased⟩
          · rw [erased]
            exact Table.sorted_erase sorted
          · exact Nat.le_trans (List.length_eraseIdx_le _ _) few

/-- One change. -/
theorem change_spec [Std.TransCmp cmp] (valid : Valid cmp d) (c : Change κ α) :
    ∃ d', change cmp d c = .ok d' ∧ Valid cmp d' ∧
      ∀ q, d'.get cmp q = c.apply cmp (d.get cmp) q := by
  cases c with
  | insert key value =>
      obtain ⟨d', made, kept, entries⟩ := insertKey_spec valid key value
      refine ⟨d', made, kept, fun q => ?_⟩
      rw [get_eq_find? kept, Change.apply, get_eq_find? valid, ← Table.find?_insert]
      rcases entries with same | same
      · rw [same, Table.find?_put]
      · rw [same]
  | remove key =>
      rcases removeKey_spec valid key with ⟨kept, entries⟩
      refine ⟨_, rfl, kept, fun q => ?_⟩
      rw [get_eq_find? kept, Change.apply, get_eq_find? valid, entries, Table.find?_erase]

/-- **Any changes, in any order.** None of them raises, the dictionary stays valid across
the step from the array to the tree, and it answers as the finite map does to which the
same changes are made. -/
theorem run_spec [Std.TransCmp cmp] (valid : Valid cmp d) (cs : List (Change κ α)) :
    ∃ d', run cmp d cs = .ok d' ∧ Valid cmp d' ∧
      ∀ q, d'.get cmp q = cs.foldl (Change.apply cmp) (d.get cmp) q := by
  induction cs generalizing d with
  | nil => exact ⟨d, rfl, valid, fun q => rfl⟩
  | cons c cs ih =>
      obtain ⟨d₁, made, kept, answers⟩ := change_spec valid c
      obtain ⟨d', rest, still, after⟩ := ih kept
      refine ⟨d', ?_, still, fun q => ?_⟩
      · simp only [run, made, bind, Except.bind, rest]
      · rw [after q, List.foldl_cons, funext answers]

/-- With keys that the comparator tells apart, a change of a dictionary is a change of the
table of its entries. -/
theorem change_entries [Std.TransCmp cmp] [Std.LawfulEqCmp cmp] (valid : Valid cmp d)
    (c : Change κ α) :
    ∃ d', change cmp d c = .ok d' ∧ Valid cmp d' ∧ d'.entries = c.table cmp d.entries := by
  cases c with
  | insert key value =>
      obtain ⟨d', made, kept, entries⟩ := insertKey_spec valid key value
      refine ⟨d', made, kept, ?_⟩
      rcases entries with same | same
      · exact same
      · rw [same, Change.table, Table.put_eq_insert]
  | remove key =>
      rcases removeKey_spec valid key with ⟨kept, entries⟩
      exact ⟨_, rfl, kept, entries⟩

/-- So the holders of a dictionary may be read as holders of a table: no array and no tree
is seen from outside. -/
theorem run_entries [Std.TransCmp cmp] [Std.LawfulEqCmp cmp] (valid : Valid cmp d)
    (cs : List (Change κ α)) :
    ∃ d', run cmp d cs = .ok d' ∧ Valid cmp d' ∧
      d'.entries = cs.foldl (fun entries c => c.table cmp entries) d.entries := by
  induction cs generalizing d with
  | nil => exact ⟨d, rfl, valid, rfl⟩
  | cons c cs ih =>
      obtain ⟨d₁, made, kept, entries⟩ := change_entries valid c
      obtain ⟨d', rest, still, after⟩ := ih kept
      refine ⟨d', ?_, still, ?_⟩
      · simp only [run, made, bind, Except.bind, rest]
      · rw [after, List.foldl_cons, entries]

end FImmutableSortedDictionary

/-! ## Made from any dictionary -/

/-- Sorting succeeds if and only if no two keys have one order. -/
theorem sortedEntries_ok_iff [Std.TransCmp cmp] {dictionary : List (κ × α)} :
    (∃ es, sortedEntries cmp dictionary = .ok es) ↔
      dictionary.Pairwise fun a b => cmp a.1 b.1 ≠ .eq := by
  have symmetric : ∀ {a b : κ × α}, cmp a.1 b.1 ≠ .eq → cmp b.1 a.1 ≠ .eq :=
    fun differ same => differ (Std.OrientedCmp.eq_symm same)
  constructor
  · rintro ⟨es, sorted⟩
    rcases sortedEntries_ok sorted with ⟨inOrder, perm⟩
    refine (perm.pairwise_iff symmetric).mp (inOrder.imp fun less => ?_)
    simp [less]
  · intro apart
    have perm := List.mergeSort_perm dictionary fun a b => (cmp a.1 b.1).isLE
    have inOrder : (dictionary.mergeSort fun a b => (cmp a.1 b.1).isLE).Pairwise
        fun a b => (cmp a.1 b.1).isLE = true := pairwise_isLE_mergeSort dictionary
    have strict : Table.Sorted cmp (dictionary.mergeSort fun a b => (cmp a.1 b.1).isLE) := by
      refine inOrder.imp₂ (fun a b le differ => ?_) ((perm.pairwise_iff symmetric).mpr apart)
      cases order : cmp a.1 b.1 with
      | lt => rfl
      | eq => exact absurd order differ
      | gt => simp [order] at le
    exact ⟨_, sortedEntries_of_perm strict perm⟩

/-- In whatever order the entries come, the same dictionary is made. -/
theorem sortedEntries_perm [Std.TransCmp cmp] {dictionary other : List (κ × α)}
    (same : dictionary.Perm other) : sortedEntries cmp dictionary = sortedEntries cmp other := by
  cases sorted : sortedEntries cmp dictionary with
  | ok es =>
      rcases sortedEntries_ok sorted with ⟨inOrder, perm⟩
      exact (sortedEntries_of_perm inOrder (perm.trans same)).symm
  | error raised =>
      cases sorted' : sortedEntries cmp other with
      | ok es =>
          rcases sortedEntries_ok sorted' with ⟨inOrder, perm⟩
          rw [sortedEntries_of_perm inOrder (perm.trans same.symm)] at sorted
          cases sorted
      | error raised' =>
          simp only [sortedEntries] at sorted sorted'
          split at sorted
          · cases sorted
          · split at sorted'
            · cases sorted'
            · cases sorted
              cases sorted'
              rfl

namespace FImmutableSortedDictionary

theorem find?_perm [Std.TransCmp cmp] {es dictionary : List (κ × α)}
    (sorted : Table.Sorted cmp es) (perm : es.Perm dictionary) (q : κ) :
    Table.find? cmp q es = Table.find? cmp q dictionary := by
  cases found : Table.find? cmp q dictionary with
  | some value =>
      obtain ⟨b, mem, same, rfl⟩ := Table.mem_of_find? found
      rw [Table.find?_congr same, Table.find?_of_mem sorted (perm.symm.subset mem)]
  | none =>
      cases found' : Table.find? cmp q es with
      | none => rfl
      | some value =>
          obtain ⟨b, mem, same, rfl⟩ := Table.mem_of_find? found'
          exact absurd found (Table.find?_ne_none (perm.subset mem) same)

/-- **A dictionary from its making on.** Made from any entries whose keys differ, in any
order, and changed in any way, a dictionary never raises, stays valid, and answers as the
finite map of those entries does after the same changes. -/
theorem run_fromDictionary [Std.TransCmp cmp] {dictionary : List (κ × α)}
    (small : dictionary.length + 1 < 2 ^ 32)
    (apart : dictionary.Pairwise fun a b => cmp a.1 b.1 ≠ .eq) (cs : List (Change κ α)) :
    ∃ d d', fromDictionary cmp dictionary = .ok d ∧ run cmp d cs = .ok d' ∧ Valid cmp d' ∧
      ∀ q, d'.get cmp q =
        cs.foldl (Change.apply cmp) (fun q => Table.find? cmp q dictionary) q := by
  obtain ⟨es, sorted⟩ := sortedEntries_ok_iff.mpr apart
  obtain ⟨d, made, valid, entries⟩ := valid_fromDictionary small sorted
  obtain ⟨d', ran, kept, answers⟩ := run_spec valid cs
  refine ⟨d, d', made, ran, kept, fun q => ?_⟩
  rcases sortedEntries_ok sorted with ⟨inOrder, perm⟩
  have start : d.get cmp = fun q => Table.find? cmp q dictionary := by
    funext q
    rw [get_eq_find? valid, entries, find?_perm inOrder perm]
  rw [answers, start]

theorem run_fromDictionary_pair :
    ∃ d d', fromDictionary compare [(2, "b"), (1, "a")] = .ok d ∧
      run compare d [.insert 3 "c", .remove 2] = .ok d' ∧ Valid compare d' ∧
      ∀ q, d'.get compare q = [.insert 3 "c", .remove 2].foldl (Change.apply compare)
        (fun q => Table.find? compare q [(2, "b"), (1, "a")]) q :=
  run_fromDictionary (by decide) (by decide) [.insert 3 "c", .remove 2]

/-- `fromDictionary` depends on the entries only, not on the order in which they come, and
raises if and only if two keys have one order. -/
theorem fromDictionary_spec [Std.TransCmp cmp] {dictionary other : List (κ × α)}
    (small : dictionary.length + 1 < 2 ^ 32) (same : dictionary.Perm other) :
    fromDictionary cmp dictionary = fromDictionary cmp other ∧
      ((∃ d, fromDictionary cmp dictionary = .ok d) ↔
        dictionary.Pairwise fun a b => cmp a.1 b.1 ≠ .eq) := by
  constructor
  · simp only [fromDictionary, FTreeSortedDictionary.fromDictionary, same.length_eq,
      sortedEntries_perm same]
  · rw [← sortedEntries_ok_iff]
    constructor
    · rintro ⟨d, made⟩
      cases sorted : sortedEntries cmp dictionary with
      | ok es => exact ⟨es, rfl⟩
      | error raised =>
          simp only [fromDictionary, FTreeSortedDictionary.fromDictionary, sorted] at made
          split at made <;> cases made
    · rintro ⟨es, sorted⟩
      obtain ⟨d, made, _⟩ := valid_fromDictionary small sorted
      exact ⟨d, made⟩

theorem fromDictionary_spec_pair :
    fromDictionary compare [(2, "b"), (1, "a")] = fromDictionary compare [(1, "a"), (2, "b")] ∧
      ((∃ d, fromDictionary compare [(2, "b"), (1, "a")] = .ok d) ↔
        [(2, "b"), (1, "a")].Pairwise fun a b => compare a.1 b.1 ≠ .eq) :=
  fromDictionary_spec (by decide) (.swap ..)

end FImmutableSortedDictionary

/-! ## How far a search goes -/

namespace FTreeSortedDictionary

/-- The comparisons that `get` makes. -/
def comparisons (cmp : κ → κ → Ordering) (key : κ) : FLLRBNode κ α → Nat
  | .empty => 0
  | .node k _ _ l r =>
      match cmp key k with
      | .eq => 1
      | .lt => comparisons cmp key l + 1
      | .gt => comparisons cmp key r + 1

theorem comparisons_le {c : FLLRBColor} {h : Nat} {t : FLLRBNode κ α} (key : κ)
    (balanced : t.Balanced c h) :
    comparisons cmp key t ≤ 2 * h + if c = .red then 1 else 0 := by
  induction balanced with
  | empty => exact Nat.le_refl 0
  | red left right ihl ihr =>
      simp only [reduceCtorEq, if_false] at ihl ihr
      simp only [comparisons, if_true]
      split <;> omega
  | @black c h k v l r left right ihl ihr =>
      have bound : (if c = .red then 1 else 0) ≤ 1 := by split <;> omega
      simp only [reduceCtorEq, if_false] at ihr ⊢
      simp only [comparisons]
      split <;> omega

theorem two_pow_le_count {c : FLLRBColor} {h : Nat} {t : FLLRBNode κ α}
    (balanced : t.Balanced c h) : 2 ^ h ≤ t.count + 1 := by
  induction balanced with
  | empty => exact Nat.le_refl 1
  | red left right ihl ihr =>
      simp only [FLLRBNode.count]
      omega
  | black left right ihl ihr =>
      simp only [FLLRBNode.count, Nat.pow_succ]
      omega

end FTreeSortedDictionary

namespace FImmutableSortedDictionary

/-- **Every tree the client can hold passes its own check**, `checkMaxDepth` included, and a
search in it makes at most `2 * log2 (n + 1)` comparisons when there are `n` keys. -/
theorem check_run [Std.TransCmp cmp] {d : FImmutableSortedDictionary κ α}
    (valid : Valid cmp d) {cs : List (Change κ α)} {root : FLLRBNode κ α}
    (ran : run cmp d cs = .ok (.tree root)) :
    ∃ h, root.check = .ok h ∧ 2 ^ h ≤ root.count + 1 ∧
      ∀ key, FTreeSortedDictionary.comparisons cmp key root ≤ 2 * Nat.log2 (root.count + 1) := by
  obtain ⟨d', ran', valid', _⟩ := run_spec valid cs
  rw [ran] at ran'
  cases ran'
  cases valid' with
  | @tree _ h balanced sorted =>
      have size := FTreeSortedDictionary.two_pow_le_count balanced
      refine ⟨h, FLLRBNode.check_eq_ok_iff.mpr ⟨_, balanced⟩, size, fun key => ?_⟩
      have few := @FTreeSortedDictionary.comparisons_le _ _ cmp _ _ _ key balanced
      have digits : h ≤ Nat.log2 (root.count + 1) := (Nat.le_log2 (by omega)).mpr size
      simp only [reduceCtorEq, if_false] at few
      omega

theorem check_run_pair :
    ∃ h, (FLLRBNode.node 2 "b" .black (.node 1 "a" .red .empty .empty) .empty).check = .ok h ∧
      2 ^ h ≤ 2 + 1 ∧ ∀ key, FTreeSortedDictionary.comparisons compare key
        (FLLRBNode.node 2 "b" .black (.node 1 "a" .red .empty .empty) .empty) ≤
          2 * Nat.log2 (2 + 1) := by
  have valid : Valid compare (.tree (.node 1 "a" .black .empty .empty)) :=
    .tree (.black .empty .empty) (by simp [Table.Sorted, FLLRBNode.toList])
  exact @check_run _ _ compare _ _ valid [.insert 2 "b"] _ rfl

end FImmutableSortedDictionary

end GAMember
