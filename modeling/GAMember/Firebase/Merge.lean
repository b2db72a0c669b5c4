import GAMember.Firebase.Validation
import GAMember.Firebase.WriteTree
import Mathlib.Data.List.Perm.Basic

/-!
# The paths of an update

An update names its values by paths, which must not lead through each other. Its entries
are validated and read one after the other, as the dictionary enumerates them. To compare
the paths then, they are sorted and each is compared with the one after it only.

That is enough where the order of keys tells the keys in use apart
(`compoundWriteFromDictionary_spec`): an update of which all entries can be read is taken
exactly if its paths are apart, and then it comes to one compound write, which makes these
writes and no others, in whatever order the dictionary gives its values.
-/

namespace GAMember

open FCompoundWrite

section

variable [Keys] {α β : Type}

/-! ## The check -/

namespace FSnapshotUtilities

open FValidation

/-- The loop over the values. -/
def readUpdate [Indexes] (fn : String) : List (KeyId × RawValue β) → List FPath →
    FCompoundWrite (RawValue β) → Except NSException (List FPath × FCompoundWrite (RawValue β))
  | [], updatePaths, compoundWrite => .ok (updatePaths, compoundWrite)
  | (keyId, value) :: values, updatePaths, compoundWrite => do
      validUpdateDictionaryKey fn keyId value
      let path := FPath.pathWithString keyId
      let node ← nodeFrom fn 0 [] value
      readUpdate fn values (updatePaths ++ [path]) (addWrite compoundWrite node path)

/-- The loop over the sorted paths. -/
def checkPaths (fn : String) : Option FPath → List FPath → Except NSException Unit
  | _, [] => .ok ()
  | some prevPath, path :: rest =>
      if prevPath.contains path then
        .error (invalidData fn ("Invalid path in object. Path (" ++
          prevPath.toStringWithTrailingSlash false ++ ") is an ancestor of (" ++
          path.toStringWithTrailingSlash false ++ ")."))
      else checkPaths fn (some path) rest
  | none, path :: rest => checkPaths fn (some path) rest

/-- The values come as the dictionary enumerates them. -/
def compoundWriteFromDictionary [Indexes] (fn : String) (values : List (KeyId × RawValue β)) :
    Except NSException (FCompoundWrite (RawValue β)) := do
  let (updatePaths, compoundWrite) ← readUpdate fn values [] emptyWrite
  checkPaths fn none (updatePaths.mergeSort fun left right => (left.order right).isLE)
  .ok compoundWrite

/-- The exception that names two paths of which one leads to the other. -/
def ancestorOf (fn : String) (outer inner : FPath) : NSException :=
  invalidData fn ("Invalid path in object. Path (" ++ outer.toStringWithTrailingSlash false ++
    ") is an ancestor of (" ++ inner.toStringWithTrailingSlash false ++ ").")

/-- What one entry says: a write, or what is thrown for it. -/
def writeFrom [Indexes] (fn : String) (entry : KeyId × RawValue β) :
    Except NSException (FPath × FNode (RawValue β)) := do
  validUpdateDictionaryKey fn entry.1 entry.2
  let node ← nodeFrom fn 0 [] entry.2
  .ok (FPath.pathWithString entry.1, node)

end FSnapshotUtilities

/-! ## Sorted paths -/

namespace FPath

variable {p q r : FPath} {paths : List FPath}

instance : Std.TransCmp order := inferInstanceAs (Std.TransCmp (List.compareLex keyOrder))

instance : Std.LawfulEqCmp order := inferInstanceAs (Std.LawfulEqCmp (List.compareLex keyOrder))

theorem order_of_leads (leads : p <+: q) : (order p q).isLE = true := by
  induction p generalizing q with
  | nil => exact List.isLE_compareLex_nil_left
  | cons k p ih =>
      obtain ⟨r, rfl⟩ := leads
      have here : keyOrder k k = .eq := Std.ReflCmp.compare_self
      rw [List.cons_append, order, List.compareLex_cons_cons, here, Ordering.eq_then]
      exact ih (p.prefix_append r)

/-- Of two paths in order, only the first can lead to the other. -/
theorem apart_of_order (inOrder : (order p q).isLE = true) (open_ : ¬ p <+: q) : Apart p q := by
  refine ⟨open_, fun back => ?_⟩
  have same : order p q = .eq := Std.OrientedCmp.isLE_antisymm inOrder (order_of_leads back)
  obtain rfl := Std.LawfulEqCmp.eq_of_compare same
  exact open_ List.prefix_rfl

theorem pairwise_mergeSort :
    (paths.mergeSort fun left right => (order left right).isLE).Pairwise
      fun left right => (order left right).isLE = true := by
  refine List.pairwise_mergeSort (fun a b c => Std.TransCmp.isLE_trans) (fun a b => ?_) paths
  cases compared : order a b with
  | lt => rfl
  | eq => rfl
  | gt => rw [Std.OrientedCmp.lt_of_gt compared]; rfl

/-- Among sorted paths, one that leads to another leads to the next one. -/
theorem not_prefix_of_next (sorted : (p :: q :: paths).Pairwise fun left right =>
      (order left right).isLE = true) (next : ¬ p <+: q) : ∀ r ∈ q :: paths, ¬ p <+: r := by
  rw [List.pairwise_cons, List.pairwise_cons] at sorted
  intro r mem leads
  rcases List.mem_cons.mp mem with rfl | mem
  · exact next leads
  · exact next (prefix_of_between leads (sorted.1 q List.mem_cons_self) (sorted.2.1 r mem))

/-- Where the order does not tell the keys apart, what is between two paths need not be: `00`
and `-0` are in one place of it. -/
example :
    let paths := [["00"], ["-0", "a"], ["00", "x"]]
    paths.Pairwise (fun left right => (List.compareLex keyComparator left right).isLE = true) ∧
      paths.IsChain (fun left right => ¬ left <+: right) ∧ ¬ paths.Pairwise Apart := by
  decide +kernel

end FPath

namespace FSnapshotUtilities

variable {fn : String} {p : FPath} {paths : List FPath}

theorem checkPaths_none : checkPaths fn none (p :: paths) = checkPaths fn (some p) paths := rfl

/-- The loop accepts sorted paths if they are apart, and otherwise finds two that are not. -/
theorem checkPaths_sorted
    (sorted : (p :: paths).Pairwise fun left right => (left.order right).isLE = true) :
    checkPaths fn (some p) paths = .ok () ∧ (p :: paths).Pairwise Apart ∨
      ∃ outer ∈ p :: paths, ∃ inner ∈ p :: paths, outer.contains inner = true ∧
        ¬ (p :: paths).Pairwise Apart ∧ checkPaths fn (some p) paths =
          .error (ancestorOf fn outer inner) := by
  induction paths generalizing p with
  | nil => exact .inl ⟨rfl, List.pairwise_singleton ..⟩
  | cons q paths ih =>
      rw [checkPaths]
      split
      · rename_i contains
        refine .inr ⟨p, List.mem_cons_self, q, by simp, contains, fun apart => ?_, rfl⟩
        exact ((List.pairwise_cons.mp apart).1 q List.mem_cons_self).1
          (FPath.contains_iff.mp contains)
      · rename_i open_
        have next : ¬ p <+: q := fun leads => open_ (FPath.contains_iff.mpr leads)
        rcases ih (List.pairwise_cons.mp sorted).2 with
          ⟨accepted, apart⟩ | ⟨outer, mem, inner, mem', contains, overlap, refused⟩
        · refine .inl ⟨accepted, List.pairwise_cons.mpr ⟨fun r mem => ?_, apart⟩⟩
          exact FPath.apart_of_order ((List.pairwise_cons.mp sorted).1 r mem)
            (FPath.not_prefix_of_next sorted next r mem)
        · exact .inr ⟨outer, List.mem_cons_of_mem p mem, inner, List.mem_cons_of_mem p mem',
            contains, fun apart => overlap (List.pairwise_cons.mp apart).2, refused⟩

theorem checkPaths_mergeSort :
    checkPaths fn none (paths.mergeSort fun left right => (left.order right).isLE) = .ok () ∧
        paths.Pairwise Apart ∨
      ∃ outer ∈ paths, ∃ inner ∈ paths, outer.contains inner = true ∧ ¬ paths.Pairwise Apart ∧
        checkPaths fn none (paths.mergeSort fun left right => (left.order right).isLE) =
          .error (ancestorOf fn outer inner) := by
  have sorted := @FPath.pairwise_mergeSort _ paths
  have perm := List.mergeSort_perm paths fun left right => (left.order right).isLE
  have apart_iff := @List.Perm.pairwise_iff _ Apart (fun {_ _} apart => apart.symm) _ _ perm
  cases shape : paths.mergeSort fun left right => (left.order right).isLE with
  | nil =>
      rw [shape] at apart_iff
      exact .inl ⟨rfl, apart_iff.mp .nil⟩
  | cons p rest =>
      rw [shape] at sorted perm apart_iff
      rw [checkPaths_none]
      rcases @checkPaths_sorted _ fn _ _ sorted with
        ⟨accepted, apart⟩ | ⟨outer, mem, inner, mem', contains, overlap, refused⟩
      · exact .inl ⟨accepted, apart_iff.mp apart⟩
      · exact .inr ⟨outer, perm.subset mem, inner, perm.subset mem', contains,
          fun apart => overlap (apart_iff.mpr apart), refused⟩

end FSnapshotUtilities

/-! ## Writes that are apart -/

namespace FCompoundWrite

variable {w : FCompoundWrite α} {x y : FNode α} {p q : FPath} {es es' : List (FPath × FNode α)}

/-- A write that is apart from all others is one more write. -/
theorem rootMost_addWrite (canonical : w.Canonical)
    (apart : ∀ r v, w.findRootMostValueAndPath r = some (r, v) → Apart p r) :
    (addWrite w x p).findRootMostValueAndPath q = some (q, y) ↔
      (q, y) = (p, x) ∨ w.findRootMostValueAndPath q = some (q, y) := by
  induction p generalizing w q with
  | nil =>
      have nothing : w.findRootMostValueAndPath q ≠ some (q, y) :=
        fun found => not_apart_nil (apart q y found)
      rw [addWrite_nil, FImmutableTree.findRootMostValueAndPath_value]
      simp only [nothing, or_false, Option.some.injEq, Prod.mk.injEq]
      constructor
      · rintro ⟨rfl, rfl⟩
        exact ⟨rfl, rfl⟩
      · rintro ⟨rfl, rfl⟩
        exact ⟨rfl, rfl⟩
  | cons k p ih =>
      rcases canonical.cases_value with ⟨v, rfl⟩ | inner
      · exact absurd (apart [] v rfl).symm not_apart_nil
      · rw [addWrite_cons canonical inner]
        cases q with
        | nil =>
            have nothing {t : FCompoundWrite α} (inner : t.value = none) :
                t.findRootMostValueAndPath [] ≠ some ([], y) := by
              rw [FImmutableTree.findRootMostValueAndPath, FImmutableTree.findRootMostMatchingPath,
                inner]
              simp
            simp [nothing inner, nothing (FImmutableTree.value_withChild.trans inner)]
        | cons l q =>
            rw [FImmutableTree.rootMost_cons_iff inner,
              FImmutableTree.rootMost_cons_iff (FImmutableTree.value_withChild.trans inner)]
            by_cases same : l = k
            · subst same
              rw [FImmutableTree.childTree_withChild, ih canonical.childTree fun r v found =>
                apart_cons_cons.mp
                  (apart (l :: r) v ((FImmutableTree.rootMost_cons_iff inner).mpr found)) rfl]
              simp
            · rw [FImmutableTree.childTree_withChild_of_ne same]
              simp [same]

theorem rootMost_addAll (canonical : w.Canonical)
    (apart : ∀ e ∈ es, ∀ r v, w.findRootMostValueAndPath r = some (r, v) → Apart e.1 r)
    (each : es.Pairwise fun a b => Apart a.1 b.1) :
    (addAll w es).findRootMostValueAndPath q = some (q, y) ↔
      (q, y) ∈ es ∨ w.findRootMostValueAndPath q = some (q, y) := by
  induction es generalizing w with
  | nil => simp [addAll]
  | cons e es ih =>
      rw [List.pairwise_cons] at each
      have first {q : FPath} {y : FNode α} :=
        @rootMost_addWrite _ _ w e.2 y e.1 q canonical (apart e List.mem_cons_self)
      change (addAll (addWrite w e.2 e.1) es).findRootMostValueAndPath q = some (q, y) ↔ _
      rw [ih (canonical_addWrite canonical) ?_ each.2, first, List.mem_cons, or_left_comm,
        or_assoc]
      intro e' mem r v found
      rcases first.mp found with same | found
      · rw [(Prod.mk.inj same).1]
        exact (each.1 e' mem).symm
      · exact apart e' (List.mem_cons_of_mem e mem) r v found

/-- Writes that are apart make a compound write of these writes. -/
theorem mem_forEach_addAll (each : es.Pairwise fun a b => Apart a.1 b.1) :
    (q, y) ∈ (addAll (emptyWrite : FCompoundWrite α) es).forEach ↔ (q, y) ∈ es := by
  have canonical : (addAll (emptyWrite : FCompoundWrite α) es).Canonical :=
    canonical_addAll canonical_emptyWrite
  have nothing {r : FPath} {v : FNode α} :
      (emptyWrite : FCompoundWrite α).findRootMostValueAndPath r ≠ some (r, v) := by
    change (FImmutableTree.empty : FImmutableTree (FNode α)).findRootMostValueAndPath r ≠ _
    rw [FImmutableTree.findRootMostValueAndPath_empty]
    simp
  refine (canonical.mem_forEachPathSoFar (p := [])).trans
    ((rootMost_addAll canonical_emptyWrite (fun e _ r v found => absurd found nothing) each).trans
      ?_)
  simp [nothing]

/-- Writes that are apart can be made in any order. -/
theorem addAll_perm (each : es.Pairwise fun a b => Apart a.1 b.1) (perm : es.Perm es') :
    addAll (emptyWrite : FCompoundWrite α) es = addAll emptyWrite es' := by
  have each' : es'.Pairwise fun a b => Apart a.1 b.1 :=
    (perm.pairwise_iff fun {_ _} apart => apart.symm).mp each
  have canonical {es : List (FPath × FNode α)} : (addAll emptyWrite es).Canonical :=
    canonical_addAll canonical_emptyWrite
  refine canonical.ext_values canonical fun p v => ?_
  rw [← canonical.mem_forEachPathSoFar (p := []), ← canonical.mem_forEachPathSoFar (p := [])]
  exact (mem_forEach_addAll each).trans (perm.mem_iff.trans (mem_forEach_addAll each').symm)

end FCompoundWrite

/-! ## The update -/

namespace FSnapshotUtilities

variable [Indexes] {fn : String} {values values' : List (KeyId × RawValue β)}

/-- What is read of an entry is the path of its key's pieces and a well-formed node. -/
theorem writeFrom_ok {entry : KeyId × RawValue β} {write : FPath × FNode (RawValue β)}
    (read : writeFrom fn entry = .ok write) :
    entry.1.text?.map segments = some (write.1.map Piece.name) ∧ write.2.WellFormed := by
  obtain ⟨_, valid, read⟩ := bind_eq_ok.mp read
  obtain ⟨node, nodeRead, read⟩ := bind_eq_ok.mp read
  cases read
  exact ⟨FValidation.pathWithString_names valid, nodeFrom_wellFormed nodeRead⟩

/-- The loop makes the writes that the entries say, up to the first that is refused. -/
theorem readUpdate_cases (updatePaths : List FPath) (compoundWrite : FCompoundWrite (RawValue β)) :
    (∃ before entry after error, values = before ++ entry :: after ∧
      (∀ earlier ∈ before, ∃ write, writeFrom fn earlier = .ok write) ∧
      writeFrom fn entry = .error error ∧
      readUpdate fn values updatePaths compoundWrite = .error error) ∨
    ∃ writes, values.map (writeFrom fn) = writes.map .ok ∧
      readUpdate fn values updatePaths compoundWrite =
        .ok (updatePaths ++ writes.map Prod.fst, addAll compoundWrite writes) := by
  induction values generalizing updatePaths compoundWrite with
  | nil => exact .inr ⟨[], rfl, by rw [List.map_nil, List.append_nil]; rfl⟩
  | cons entry values ih =>
      have step : readUpdate fn (entry :: values) updatePaths compoundWrite =
          writeFrom fn entry >>= fun write => readUpdate fn values (updatePaths ++ [write.1])
            (addWrite compoundWrite write.2 write.1) := by
        simp only [readUpdate, writeFrom, bind_assoc]
        rfl
      rw [step]
      cases read : writeFrom fn entry with
      | error error => exact .inl ⟨[], entry, values, error, rfl, by simp, read, rfl⟩
      | ok write =>
          change _ ∨ ∃ writes, _ ∧ readUpdate fn values _ _ = _
          rcases ih (updatePaths ++ [write.1]) (addWrite compoundWrite write.2 write.1) with
            ⟨before, refused, after, error, rfl, earlier, first, stops⟩ | ⟨writes, each, reads⟩
          · refine .inl ⟨entry :: before, refused, after, error, rfl, ?_, first, stops⟩
            exact List.forall_mem_cons.mpr ⟨⟨write, read⟩, earlier⟩
          · refine .inr ⟨write :: writes, ?_, ?_⟩
            · rw [List.map_cons, List.map_cons, read, each]
            · rw [reads, List.append_assoc]
              rfl

theorem exists_write {writes : List (FPath × FNode (RawValue β))}
    (each : values.map (writeFrom fn) = writes.map .ok) {entry : KeyId × RawValue β}
    (mem : entry ∈ values) : ∃ write ∈ writes, writeFrom fn entry = .ok write := by
  have read : writeFrom fn entry ∈ writes.map .ok := each ▸ List.mem_map_of_mem mem
  obtain ⟨write, mem, same⟩ := List.mem_map.mp read
  exact ⟨write, mem, same.symm⟩

theorem paths_of_writes {writes : List (FPath × FNode (RawValue β))}
    (each : values.map (writeFrom fn) = writes.map .ok) :
    (values.map fun entry => entry.1.text?.map segments) =
      (writes.map fun write => some (write.1.map Piece.name)) := by
  induction values generalizing writes with
  | nil =>
      rw [List.map_nil, eq_comm, List.map_eq_nil_iff] at each
      rw [each]
      rfl
  | cons entry values ih =>
      cases writes with
      | nil => contradiction
      | cons write writes =>
          rw [List.map_cons, List.map_cons, List.cons.injEq] at each
          rw [List.map_cons, List.map_cons, (writeFrom_ok each.1).1, ih each.2]

theorem wellFormed_of_writes {writes : List (FPath × FNode (RawValue β))}
    (each : values.map (writeFrom fn) = writes.map .ok) :
    ∀ write ∈ writes, write.2.WellFormed ∧ write.2.Proper := by
  intro write mem
  have read : .ok write ∈ values.map (writeFrom fn) := each ▸ List.mem_map_of_mem mem
  obtain ⟨entry, _, read⟩ := List.mem_map.mp read
  exact ⟨(writeFrom_ok read).2, (writeFrom_ok read).2.proper⟩

theorem exists_perm_writes (perm : values.Perm values') {writes : List (FPath × FNode (RawValue β))}
    (each : values.map (writeFrom fn) = writes.map .ok) :
    ∃ writes', values'.map (writeFrom fn) = writes'.map .ok ∧ writes.Perm writes' := by
  rcases @readUpdate_cases _ _ _ fn values' [] emptyWrite with
    ⟨_, entry, after, error, rfl, _, first, _⟩ | ⟨writes', each', _⟩
  · have mem : entry ∈ values := perm.mem_iff.mpr List.mem_append_cons_self
    obtain ⟨write, _, read⟩ := exists_write each mem
    rw [first] at read
    contradiction
  · refine ⟨writes', each', ?_⟩
    have permReads := perm.map (writeFrom fn)
    rw [each, each'] at permReads
    exact (List.map_perm_map_iff fun _ _ same => Except.ok.inj same).mp permReads

theorem exists_error {entry : KeyId × RawValue β} (mem : entry ∈ values) {error : NSException}
    (refused : writeFrom fn entry = .error error) :
    ∃ error, compoundWriteFromDictionary fn values = .error error := by
  rcases @readUpdate_cases _ _ _ fn values [] emptyWrite with
    ⟨_, _, _, error, _, _, _, stops⟩ | ⟨writes, each, _⟩
  · refine ⟨error, ?_⟩
    rw [compoundWriteFromDictionary, stops]
    rfl
  · obtain ⟨write, _, read⟩ := exists_write each mem
    rw [refused] at read
    contradiction

/-- Where all entries can be read, the paths decide. -/
theorem compoundWriteFromDictionary_cases {writes : List (FPath × FNode (RawValue β))}
    (each : values.map (writeFrom fn) = writes.map .ok) :
    (writes.Pairwise (fun a b => Apart a.1 b.1) ∧
      compoundWriteFromDictionary fn values = .ok (addAll emptyWrite writes)) ∨
    (¬ writes.Pairwise (fun a b => Apart a.1 b.1) ∧
      ∃ outer ∈ writes, ∃ inner ∈ writes, outer.1.contains inner.1 = true ∧
        compoundWriteFromDictionary fn values = .error (ancestorOf fn outer.1 inner.1)) := by
  have reads : readUpdate fn values [] emptyWrite =
      .ok (writes.map Prod.fst, addAll emptyWrite writes) := by
    rcases @readUpdate_cases _ _ _ fn values [] emptyWrite with
      ⟨before, refused, after, error, rfl, _, first, _⟩ | ⟨others, each', reads⟩
    · have mem : refused ∈ before ++ refused :: after := List.mem_append_cons_self
      obtain ⟨write, _, read⟩ := exists_write each mem
      rw [first] at read
      contradiction
    · have same : writes = others :=
        (List.map_inj_right fun _ _ same => Except.ok.inj same).mp (each.symm.trans each')
      rw [reads, same]
      rfl
  have apart_iff : (writes.map Prod.fst).Pairwise Apart ↔
      writes.Pairwise fun a b => Apart a.1 b.1 := List.pairwise_map
  rcases @checkPaths_mergeSort _ fn (writes.map Prod.fst) with
    ⟨accepted, apart⟩ | ⟨outer, mem, inner, mem', contains, overlap, refused⟩
  · refine .inl ⟨apart_iff.mp apart, ?_⟩
    rw [compoundWriteFromDictionary, reads]
    simp only [bind, Except.bind, accepted]
  · obtain ⟨outer, memOuter, rfl⟩ := List.mem_map.mp mem
    obtain ⟨inner, memInner, rfl⟩ := List.mem_map.mp mem'
    refine .inr ⟨fun apart => overlap (apart_iff.mpr apart), outer, memOuter, inner, memInner,
      contains, ?_⟩
    rw [compoundWriteFromDictionary, reads]
    simp only [bind, Except.bind, refused]

/-- **An update is taken exactly if each of its entries can be read and the paths are apart.**
The first entry that cannot decides what is thrown. If all can, the update comes to the writes
that they say and no others, whatever the order of the dictionary; or what is thrown names a
path of it and another one below. -/
theorem compoundWriteFromDictionary_spec (perm : values.Perm values') :
    (∃ before entry after error, values = before ++ entry :: after ∧
      (∀ earlier ∈ before, ∃ write, writeFrom fn earlier = .ok write) ∧
      writeFrom fn entry = .error error ∧
      compoundWriteFromDictionary fn values = .error error ∧
      ∃ error', compoundWriteFromDictionary fn values' = .error error') ∨
    ∃ writes : List (FPath × FNode (RawValue β)),
      values.map (writeFrom fn) = writes.map .ok ∧
      (values.map fun entry => entry.1.text?.map segments) =
        (writes.map fun write => some (write.1.map Piece.name)) ∧
      (∀ write ∈ writes, write.2.WellFormed ∧ write.2.Proper) ∧
      ((writes.Pairwise (fun a b => Apart a.1 b.1) ∧
        ∃ compoundWrite, compoundWriteFromDictionary fn values = .ok compoundWrite ∧
          compoundWriteFromDictionary fn values' = .ok compoundWrite ∧
          compoundWrite.Canonical ∧
          ∀ path node, (path, node) ∈ compoundWrite.forEach ↔ (path, node) ∈ writes) ∨
      (¬ writes.Pairwise (fun a b => Apart a.1 b.1) ∧
        ∃ outer ∈ writes, ∃ inner ∈ writes, outer.1.contains inner.1 = true ∧
          compoundWriteFromDictionary fn values = .error (ancestorOf fn outer.1 inner.1) ∧
          ∃ outer' ∈ writes, ∃ inner' ∈ writes, outer'.1.contains inner'.1 = true ∧
            compoundWriteFromDictionary fn values' =
              .error (ancestorOf fn outer'.1 inner'.1))) := by
  rcases @readUpdate_cases _ _ _ fn values [] emptyWrite with
    ⟨before, entry, after, error, split, earlier, first, stops⟩ | ⟨writes, each, _⟩
  · have mem : entry ∈ values' := by
      rw [← perm.mem_iff, split]
      exact List.mem_append_cons_self
    refine .inl ⟨before, entry, after, error, split, earlier, first, ?_, exists_error mem first⟩
    rw [compoundWriteFromDictionary, stops]
    rfl
  · -- The other order of the dictionary says the same writes in another order.
    obtain ⟨writes', each', permWrites⟩ := exists_perm_writes perm each
    refine .inr ⟨writes, each, paths_of_writes each, wellFormed_of_writes each, ?_⟩
    have apart_iff := permWrites.pairwise_iff (R := fun a b => Apart a.1 b.1)
      fun {_ _} apart => apart.symm
    rcases compoundWriteFromDictionary_cases each,
      compoundWriteFromDictionary_cases each' with
      ⟨⟨apart, taken⟩ | ⟨overlap, outer, memOuter, inner, memInner, contains, refused⟩,
        ⟨apart', taken'⟩ | ⟨overlap', outer', memOuter', inner', memInner', contains', refused'⟩⟩
    · refine .inl ⟨apart, addAll emptyWrite writes, taken, ?_,
        canonical_addAll canonical_emptyWrite, fun path node => mem_forEach_addAll apart⟩
      rw [taken', addAll_perm apart permWrites]
    · exact absurd (apart_iff.mp apart) overlap'
    · exact absurd (apart_iff.mpr apart') overlap
    · exact .inr ⟨overlap, outer, memOuter, inner, memInner, contains, refused, outer',
        permWrites.mem_iff.mpr memOuter', inner', permWrites.mem_iff.mpr memInner', contains',
        refused'⟩

end FSnapshotUtilities

end

/-! ## An update of two entries -/

namespace FSnapshotUtilities

def updateFn : String := "updateChildValues:withCompletionBlock:"

/-- A member with a priority, who takes the items of an array but the one that is null. -/
def updateValues : List (KeyId × RawValue Int) :=
  [(.string ⟨"name", by decide +kernel⟩, .string "GA"),
    (.string ⟨"/members/ann/", by decide +kernel⟩,
      .dictionary "__NSDictionaryI"
        [(.string ⟨".priority", by decide +kernel⟩, .number (.number 1)),
          (.string ⟨"visits", by decide +kernel⟩,
            .array "__NSArrayI" [.number (.number 4), .null, .number (.boolean true)])])]

def updateWrites : List (FPath × FNode (RawValue Int)) :=
  [([namePiece], .leaf (.string "GA") none),
    (annPath, .children (some (.leaf (.number (.number 1)) none))
      [(⟨"visits", by decide +kernel⟩,
        .children none [(⟨"0", by decide +kernel⟩, .leaf (.number (.number 4)) none),
          (⟨"2", by decide +kernel⟩, .leaf (.number (.boolean true)) none)])])]

theorem writeFrom_updateValues : updateValues.map (writeFrom updateFn) = updateWrites.map .ok :=
  rfl

theorem compoundWriteFromDictionary_spec_two :
    ∃ write, compoundWriteFromDictionary updateFn updateValues = .ok write ∧
      compoundWriteFromDictionary updateFn updateValues.reverse = .ok write ∧
      write.Canonical ∧
      ∀ path node, (path, node) ∈ write.forEach ↔ (path, node) ∈ updateWrites := by
  rcases @compoundWriteFromDictionary_spec _ _ _ updateFn updateValues updateValues.reverse
      (List.reverse_perm _).symm with
    ⟨before, entry, after, error, split, _, first, _⟩ | ⟨writes, each, _, _, decided⟩
  · have mem : entry ∈ updateValues := split ▸ List.mem_append_cons_self
    obtain ⟨write, _, read⟩ := exists_write writeFrom_updateValues mem
    rw [first] at read
    contradiction
  · have same : writes = updateWrites :=
      (List.map_inj_right fun _ _ same => Except.ok.inj same).mp
        (each.symm.trans writeFrom_updateValues)
    subst same
    have apart : updateWrites.Pairwise fun a b => Apart a.1 b.1 := by decide +kernel
    rcases decided with ⟨_, write, taken⟩ | ⟨overlap, _⟩
    · exact ⟨write, taken⟩
    · exact absurd apart overlap

/-- The second entry is refused, and so is the update. -/
example :
    let values : List (KeyId × RawValue Int) :=
      [(.string ⟨"name", by decide +kernel⟩, .string "GA"),
        (.string ⟨"members/ann/.priority", by decide +kernel⟩, .number .notANumber)]
    compoundWriteFromDictionary updateFn values =
      .error ⟨"InvalidFirebaseData", "(updateChildValues:withCompletionBlock:) " ++
        "Cannot store NaN as priority at path: ."⟩ := rfl

end FSnapshotUtilities

end GAMember
