import GAMember.Firebase.Apply

/-!
# Pending writes

The client shows its own writes before the server has them. `FWriteTree` keeps
the writes that the server has not answered yet, in order, and the compound write
that they come to, `visibleWrites`, from which every answer is computed.

A new write is added to `visibleWrites`. An answered one is taken out of it in
place when nothing overlaps with it, left in when a later write covers it, and
otherwise `visibleWrites` is made anew. The three cases come to one: `visibleWrites`
is at all times what the pending writes come to from scratch
(`Reachable.visibleWrites_eq`), as long as no write is answered that `removeWriteId:`
takes out too lightly (`Removable`).
-/

namespace GAMember

/-- What is written: a node, or nodes at paths below. -/
inductive FWrite (α : Type) [Keys]
  | overwrite (newData : FNode α)
  | merge (changedChildren : FCompoundWrite α)

structure FWriteRecord (α : Type) [Keys] where
  writeId : Int
  path : FPath
  write : FWrite α
  visible : Bool

structure FWriteTree (α : Type) [Keys] where
  visibleWrites : FCompoundWrite α
  allWrites : List (FWriteRecord α)
  lastWriteId : Int

section

variable [Keys] {α : Type}

/-! ## The methods -/

namespace FWriteTree

open FCompoundWrite

def init : FWriteTree α := ⟨emptyWrite, [], -1⟩

def addOverwriteAtPath (self : FWriteTree α) (path : FPath) (newData : FNode α) (writeId : Int)
    (visible : Bool) : Except String (FWriteTree α) :=
  if writeId > self.lastWriteId then
    .ok {
      allWrites := self.allWrites ++ [⟨writeId, path, .overwrite newData, visible⟩]
      visibleWrites :=
        if visible then addWrite self.visibleWrites newData path else self.visibleWrites
      lastWriteId := writeId }
  else .error "Stacking an older write on top of a newer one"

def addMergeAtPath (self : FWriteTree α) (path : FPath) (changedChildren : FCompoundWrite α)
    (writeId : Int) : Except String (FWriteTree α) :=
  if writeId > self.lastWriteId then
    .ok {
      allWrites := self.allWrites ++ [⟨writeId, path, .merge changedChildren, true⟩]
      visibleWrites := addCompoundWrite self.visibleWrites changedChildren path
      lastWriteId := writeId }
  else .error "Stacking an older merge on top of newer one"

/-- `record:containsPath:` -/
def recordContainsPath (record : FWriteRecord α) (path : FPath) : Bool :=
  match record.write with
  | .overwrite _ => record.path.contains path
  | .merge merge => merge.forEach.any fun child => (record.path.child child.1).contains path

/-- One record in `layerTreeFromWrites:filter:treeRoot:`. -/
def layerRecord (treeRoot : FPath) (compoundWrite : FCompoundWrite α)
    (record : FWriteRecord α) : FCompoundWrite α :=
  let writePath := record.path
  match record.write with
  | .overwrite overwrite =>
      if treeRoot.contains writePath then
        addWrite compoundWrite overwrite (FPath.relativePath treeRoot writePath)
      else if writePath.contains treeRoot then
        addWrite compoundWrite (overwrite.getChild (FPath.relativePath writePath treeRoot)) []
      else compoundWrite
  | .merge merge =>
      if treeRoot.contains writePath then
        addCompoundWrite compoundWrite merge (FPath.relativePath treeRoot writePath)
      else if writePath.contains treeRoot then
        let relativePath := FPath.relativePath writePath treeRoot
        if relativePath.isEmpty then addCompoundWrite compoundWrite merge []
        else
          match completeNodeAtPath merge relativePath with
          | some child => addWrite compoundWrite (child.getChild relativePath.tail) []
          | none => compoundWrite
      else compoundWrite

def layerTreeFromWrites (writes : List (FWriteRecord α)) (filter : FWriteRecord α → Bool)
    (treeRoot : FPath) : FCompoundWrite α :=
  (writes.filter filter).foldl (layerRecord treeRoot) emptyWrite

/-- The comment on it says that it keeps everything that is visible; it keeps everything. -/
def defaultFilter (_ : FWriteRecord α) : Bool := true

def resetTree (self : FWriteTree α) : FWriteTree α where
  allWrites := self.allWrites
  visibleWrites := layerTreeFromWrites self.allWrites defaultFilter []
  lastWriteId :=
    match self.allWrites.getLast? with
    | some lastRecord => lastRecord.writeId
    | none => -1

/-- The loop of `removeWriteId:` over the writes that are left, from the last one on. What
it returns is `removedWriteWasVisible` and `removedWriteOverlapsWithOtherWrites`. -/
def scan (index : Nat) (writeToRemove : FWriteRecord α) :
    List (FWriteRecord α × Nat) → Bool → Bool → Bool × Bool
  | [], wasVisible, overlaps => (wasVisible, overlaps)
  | (currentWrite, i) :: rest, wasVisible, overlaps =>
      if wasVisible then
        if currentWrite.visible then
          if i ≥ index ∧ recordContainsPath currentWrite writeToRemove.path then
            scan index writeToRemove rest false overlaps
          else if writeToRemove.path.contains currentWrite.path then
            scan index writeToRemove rest wasVisible true
          else scan index writeToRemove rest wasVisible overlaps
        else scan index writeToRemove rest wasVisible overlaps
      else (wasVisible, overlaps)

/-- Take one write out of the tree. -/
def removeFromTree (visibleWrites : FCompoundWrite α) (writeToRemove : FWriteRecord α) :
    FCompoundWrite α :=
  match writeToRemove.write with
  | .overwrite _ => removeWriteAtPath visibleWrites writeToRemove.path
  | .merge merge =>
      merge.forEach.foldl
        (fun writes child => removeWriteAtPath writes (writeToRemove.path.child child.1))
        visibleWrites

def removeWriteId (self : FWriteTree α) (writeId : Int) : Except String (FWriteTree α × Bool) :=
  let index := self.allWrites.findIdx fun record => record.writeId = writeId
  match self.allWrites[index]? with
  | none => .error "[FWriteTree removeWriteId:] called with nonexistent writeId."
  | some writeToRemove =>
      let left := { self with allWrites := self.allWrites.eraseIdx index }
      match scan index writeToRemove left.allWrites.zipIdx.reverse writeToRemove.visible false with
      | (false, _) => .ok (left, false)
      | (true, true) => .ok (left.resetTree, true)
      | (true, false) =>
          .ok ({ left with
            visibleWrites := removeFromTree left.visibleWrites writeToRemove }, true)

def removeAllWrites (self : FWriteTree α) : FWriteTree α :=
  { self with visibleWrites := emptyWrite, allWrites := [] }

/-- What the sync tree asks for. -/
inductive Op (α : Type) [Keys]
  | addOverwrite (path : FPath) (newData : FNode α) (writeId : Int) (visible : Bool)
  | addMerge (path : FPath) (changedChildren : FCompoundWrite α) (writeId : Int)
  | removeWrite (writeId : Int)
  | removeAll

def step (s : FWriteTree α) : Op α → Except String (FWriteTree α)
  | .addOverwrite path newData writeId visible =>
      s.addOverwriteAtPath path newData writeId visible
  | .addMerge path changedChildren writeId => s.addMergeAtPath path changedChildren writeId
  | .removeWrite writeId => Prod.fst <$> s.removeWriteId writeId
  | .removeAll => .ok s.removeAllWrites

end FWriteTree

/-! ## From scratch -/

/-- The nodes a record writes, with their paths from the root. -/
def FWriteRecord.writes (record : FWriteRecord α) : List (FPath × FNode α) :=
  match record.write with
  | .overwrite newData => [(record.path, newData)]
  | .merge merge => merge.forEach.map fun child => (record.path ++ child.1, child.2)

namespace FCompoundWrite

variable {w w' : FCompoundWrite α} {es es' : List (FPath × FNode α)} {p : FPath} {x : FNode α}

/-- Add one write after the other. -/
def addAll (w : FCompoundWrite α) (es : List (FPath × FNode α)) : FCompoundWrite α :=
  es.foldl (fun w e => addWrite w e.2 e.1) w

theorem addAll_append : addAll w (es ++ es') = addAll (addAll w es) es' := List.foldl_append

theorem canonical_addAll (canonical : w.Canonical) : (addAll w es).Canonical := by
  induction es generalizing w with
  | nil => exact canonical
  | cons e es ih => exact ih (canonical_addWrite canonical)

theorem addCompoundWrite_eq {merge : FCompoundWrite α} :
    addCompoundWrite w merge p =
      addAll w (merge.forEach.map fun child => (p ++ child.1, child.2)) := by
  rw [addAll, List.foldl_map]
  rfl

theorem SameBut.addAll_left (same : SameBut p w w') (canonical : w.Canonical)
    (below : ∀ e ∈ es, p <+: e.1) : SameBut p (addAll w es) w' := by
  induction es generalizing w with
  | nil => exact same
  | cons e es ih =>
      obtain ⟨r, split⟩ := below e List.mem_cons_self
      refine ih ?_ (canonical_addWrite canonical)
        fun e' mem => below e' (List.mem_cons_of_mem e mem)
      change SameBut p (FCompoundWrite.addWrite w e.2 e.1) w'
      rw [← split]
      exact same.addWrite_left canonical

/-- Once a write covers the difference, it is gone. -/
theorem SameBut.addAll_eq (same : SameBut p w w') (canonical : w.Canonical)
    (canonical' : w'.Canonical) (covered : ∃ e ∈ es, e.1 <+: p) :
    addAll w es = addAll w' es := by
  induction es generalizing w w' with
  | nil => simp at covered
  | cons e es ih =>
      by_cases covers : e.1 <+: p
      · exact congrArg (addAll · es) (same.addWrite_eq canonical canonical' covers)
      · refine ih (same.addWrite canonical canonical' covers) (canonical_addWrite canonical)
          (canonical_addWrite canonical') ?_
        obtain ⟨e', mem, here⟩ := covered
        rcases List.mem_cons.mp mem with rfl | mem
        · exact absurd here covers
        · exact ⟨e', mem, here⟩

theorem removeWriteAtPath_addAll (canonical : w.Canonical) (apart : ∀ e ∈ es, Apart p e.1) :
    removeWriteAtPath (addAll w es) p = addAll (removeWriteAtPath w p) es := by
  induction es generalizing w with
  | nil => rfl
  | cons e es ih =>
      have first := removeWriteAtPath_addWrite (x := e.2) canonical
        (apart e List.mem_cons_self)
      exact (ih (canonical_addWrite canonical)
        fun e' mem => apart e' (List.mem_cons_of_mem e mem)).trans
          (congrArg (addAll · es) first)

/-- What differs below a path only still does after writes that are below it or apart. -/
theorem SameBut.addAll (same : SameBut p w w) (canonical : w.Canonical)
    (aside : ∀ e ∈ es, p <+: e.1 ∨ Apart p e.1) :
    SameBut p (FCompoundWrite.addAll w es) (FCompoundWrite.addAll w es) := by
  induction es generalizing w with
  | nil => exact same
  | cons e es ih =>
      refine ih ?_ (canonical_addWrite canonical)
        fun e' mem => aside e' (List.mem_cons_of_mem e mem)
      rcases aside e List.mem_cons_self with ⟨r, split⟩ | apart
      · change SameBut p (FCompoundWrite.addWrite w e.2 e.1) (FCompoundWrite.addWrite w e.2 e.1)
        rw [← split]
        exact (same.addWrite_left canonical).symm.addWrite_left canonical
      · exact same.addWrite canonical canonical apart.2

/-- Writes that are apart from each other and from all others are taken out one by one. -/
theorem removeAll_addAll {older newer : List (FPath × FNode α)}
    (apart : es.Pairwise fun a b => Apart a.1 b.1)
    (others : ∀ e ∈ es, ∀ e' ∈ older ++ newer, Apart e.1 e'.1) :
    es.foldl (fun w e => removeWriteAtPath w e.1)
      (addAll emptyWrite (older ++ (es ++ newer))) = addAll emptyWrite (older ++ newer) := by
  induction es with
  | nil => rfl
  | cons e es ih =>
      rw [List.pairwise_cons] at apart
      have fromOlder : ∀ e' ∈ older, Apart e.1 e'.1 := fun e' mem =>
        others e List.mem_cons_self e' (List.mem_append_left _ mem)
      have fromNewer : ∀ e' ∈ es ++ newer, Apart e.1 e'.1 := by
        intro e' mem
        rcases List.mem_append.mp mem with mem | mem
        · exact apart.1 e' mem
        · exact others e List.mem_cons_self e' (List.mem_append_right _ mem)
      have canonical : (addAll (emptyWrite : FCompoundWrite α) older).Canonical :=
        canonical_addAll canonical_emptyWrite
      have same : SameBut e.1 (addAll emptyWrite older) (addAll emptyWrite older) :=
        sameBut_emptyWrite.addAll canonical_emptyWrite fun e' mem => .inr (fromOlder e' mem)
      have undone : removeWriteAtPath (addWrite (addAll emptyWrite older) e.2 (e.1 ++ [])) e.1 =
          addAll emptyWrite older := by
        rw [(same.addWrite_left canonical).remove_eq (canonical_addWrite canonical) canonical,
          removeWriteAtPath_addAll canonical_emptyWrite fromOlder, removeWriteAtPath_emptyWrite]
      rw [List.append_nil] at undone
      have first : removeWriteAtPath (addAll emptyWrite (older ++ (e :: es ++ newer))) e.1 =
          addAll emptyWrite (older ++ (es ++ newer)) := by
        rw [List.cons_append, addAll_append, addAll_append]
        exact (removeWriteAtPath_addAll (canonical_addWrite canonical) fromNewer).trans
          (congrArg (addAll · (es ++ newer)) undone)
      rw [List.foldl_cons, first]
      exact ih apart.2 fun e' mem => others e' (List.mem_cons_of_mem e mem)

end FCompoundWrite

/-! ## Records -/

namespace FWriteRecord

open FCompoundWrite

variable {r : FWriteRecord α} {p : FPath}

/-- A merge has nothing below a node that it writes. -/
def Canonical (r : FWriteRecord α) : Prop :=
  match r.write with
  | .overwrite _ => True
  | .merge merge => merge.Canonical

theorem prefix_of_mem_writes {e : FPath × FNode α} (mem : e ∈ r.writes) : r.path <+: e.1 := by
  obtain ⟨writeId, path, write, visible⟩ := r
  cases write with
  | overwrite newData =>
      cases List.mem_singleton.mp mem
      exact List.prefix_rfl
  | merge merge =>
      obtain ⟨child, _, rfl⟩ := List.mem_map.mp mem
      exact path.prefix_append child.1

theorem pairwise_apart_writes (canonical : r.Canonical) :
    r.writes.Pairwise fun a b => Apart a.1 b.1 := by
  obtain ⟨writeId, path, write, visible⟩ := r
  cases write with
  | overwrite newData => exact List.pairwise_singleton ..
  | merge merge =>
      exact List.pairwise_map.mpr
        (FImmutableTree.Canonical.pairwise_apart canonical |>.imp apart_append_left)

theorem recordContainsPath_iff :
    FWriteTree.recordContainsPath r p = true ↔ ∃ e ∈ r.writes, e.1 <+: p := by
  obtain ⟨writeId, path, write, visible⟩ := r
  cases write with
  | overwrite newData =>
      refine FPath.contains_iff.trans ⟨fun covers => ⟨_, List.mem_singleton_self _, covers⟩, ?_⟩
      rintro ⟨e, mem, covers⟩
      cases List.mem_singleton.mp mem
      exact covers
  | merge merge =>
      simp only [FWriteTree.recordContainsPath, List.any_eq_true, writes, List.mem_map,
        FPath.contains_iff, FPath.child]
      constructor
      · rintro ⟨child, mem, covers⟩
        exact ⟨_, ⟨child, mem, rfl⟩, covers⟩
      · rintro ⟨_, ⟨child, mem, rfl⟩, covers⟩
        exact ⟨child, mem, covers⟩

theorem removeFromTree_eq {w : FCompoundWrite α} :
    FWriteTree.removeFromTree w r =
      r.writes.foldl (fun w e => removeWriteAtPath w e.1) w := by
  obtain ⟨writeId, path, write, visible⟩ := r
  cases write with
  | overwrite newData => rfl
  | merge merge =>
      rw [writes, List.foldl_map]
      rfl

theorem layerRecord_nil {w : FCompoundWrite α} :
    FWriteTree.layerRecord [] w r = addAll w r.writes := by
  obtain ⟨writeId, path, write, visible⟩ := r
  have within : FPath.contains [] path = true := FPath.contains_iff.mpr List.nil_prefix
  cases write with
  | overwrite newData =>
      simp only [FWriteTree.layerRecord, within, if_true, FPath.relativePath_nil]
      rfl
  | merge merge =>
      simp only [FWriteTree.layerRecord, within, if_true, FPath.relativePath_nil]
      exact addCompoundWrite_eq

end FWriteRecord

/-! ## Runs -/

namespace FWriteTree

open FCompoundWrite

variable {s s' : FWriteTree α} {record : FWriteRecord α} {older newer : List (FWriteRecord α)}

/-- What the pending writes come to that are shown, one record after the other. -/
def pending (writes : List (FWriteRecord α)) : List (FPath × FNode α) :=
  (writes.filter FWriteRecord.visible).flatMap FWriteRecord.writes

theorem pending_append : pending (older ++ newer) = pending older ++ pending newer := by
  rw [pending, List.filter_append, List.flatMap_append]
  rfl

theorem pending_cons : pending (record :: newer) =
    (if record.visible then record.writes else []) ++ pending newer := by
  cases visible : record.visible with
  | true => rw [pending, List.filter_cons_of_pos visible, List.flatMap_cons]; rfl
  | false => rw [pending, List.filter_cons_of_neg (by simp [visible])]; rfl

theorem mem_pending {e : FPath × FNode α} :
    e ∈ pending newer ↔ ∃ r ∈ newer, r.visible = true ∧ e ∈ r.writes := by
  simp only [pending, List.mem_flatMap, List.mem_filter, and_assoc]

theorem layerTreeFromWrites_nil (visible : ∀ r ∈ newer, r.visible = true) :
    layerTreeFromWrites newer defaultFilter [] = addAll emptyWrite (pending newer) := by
  have layered (w : FCompoundWrite α) :
      newer.foldl (layerRecord []) w = addAll w (newer.flatMap FWriteRecord.writes) := by
    clear visible
    induction newer generalizing w with
    | nil => rfl
    | cons record newer ih =>
        rw [List.foldl_cons, FWriteRecord.layerRecord_nil, ih, List.flatMap_cons, addAll_append]
  have everything : newer.filter defaultFilter = newer := List.filter_eq_self.mpr fun _ _ => rfl
  rw [layerTreeFromWrites, everything, layered, pending, List.filter_eq_self.mpr visible]

/-- A shown write can be taken out. What `removeWriteId:` does not look for is an older
write that reaches over it, a merge from above that reaches below it, and a hidden write
where everything is layered again. -/
structure Removable (older : List (FWriteRecord α)) (record : FWriteRecord α)
    (newer : List (FWriteRecord α)) : Prop where
  fromOlder : ∀ r ∈ older, r.visible = true → record.path <+: r.path ∨
    ∀ e ∈ r.writes, Apart record.path e.1
  fromNewer : ∀ r ∈ newer, r.visible = true → record.path <+: r.path ∨
    ∀ e ∈ r.writes, e.1 <+: record.path ∨ Apart record.path e.1
  hidden : (∃ r ∈ older ++ newer, r.visible = true ∧ record.path <+: r.path) →
    ∀ r ∈ older ++ newer, r.visible = true

/-- While nothing is hidden and nothing is merged, the oldest write can be taken out. -/
theorem removable_oldest (visible : ∀ r ∈ newer, r.visible = true)
    (overwrites : ∀ r ∈ newer, ∃ newData, r.write = .overwrite newData) :
    Removable [] record newer where
  fromOlder := by simp
  fromNewer := by
    rintro ⟨writeId, path, write, shown⟩ mem _
    obtain ⟨newData, rfl⟩ := overwrites _ mem
    rcases path_cases path record.path with ⟨r, split⟩ | ⟨k, r, split⟩ | apart
    · refine .inr fun e mem => ?_
      cases List.mem_singleton.mp mem
      exact .inl ⟨r, split.symm⟩
    · exact .inl ⟨k :: r, split.symm⟩
    · refine .inr fun e mem => ?_
      cases List.mem_singleton.mp mem
      exact .inr apart.symm
  hidden := fun _ => visible

/-- What `removeWriteId:` is given: a write that can be taken out, if it is shown. -/
def Allowed (s : FWriteTree α) : Op α → Prop
  | .addOverwrite _ _ _ _ => True
  | .addMerge _ changedChildren _ => changedChildren.Canonical
  | .removeWrite writeId => ∀ older record newer, s.allWrites = older ++ record :: newer →
      record.writeId = writeId → record.visible = true → Removable older record newer
  | .removeAll => True

instance : Decidable (Removable older record newer) :=
  decidable_of_iff
    ((∀ r ∈ older, r.visible = true → record.path <+: r.path ∨
        ∀ e ∈ r.writes, Apart record.path e.1) ∧
      (∀ r ∈ newer, r.visible = true → record.path <+: r.path ∨
        ∀ e ∈ r.writes, e.1 <+: record.path ∨ Apart record.path e.1) ∧
      ((∃ r ∈ older ++ newer, r.visible = true ∧ record.path <+: r.path) →
        ∀ r ∈ older ++ newer, r.visible = true))
    ⟨fun ⟨fromOlder, fromNewer, hidden⟩ => ⟨fromOlder, fromNewer, hidden⟩,
      fun removable => ⟨removable.fromOlder, removable.fromNewer, removable.hidden⟩⟩

/-- Which write is meant is known by its place. -/
theorem allowed_removeWrite {writeId : Int}
    (removable : ∀ (i : Nat) (lt : i < s.allWrites.length), s.allWrites[i].writeId = writeId →
      s.allWrites[i].visible = true →
        Removable (s.allWrites.take i) s.allWrites[i] (s.allWrites.drop (i + 1))) :
    Allowed s (.removeWrite writeId) := by
  intro older record newer split same visible
  have lt : older.length < s.allWrites.length := by
    rw [split, List.length_append, List.length_cons]
    omega
  have here : s.allWrites[older.length] = record := by simp [split]
  have allowed := removable older.length lt (here ▸ same) (here ▸ visible)
  rw [here] at allowed
  simpa [split] using allowed

/-- The states of a client. -/
inductive Reachable : FWriteTree α → Prop
  | init : Reachable init
  | step {s s' : FWriteTree α} {op : Op α} (reachable : Reachable s) (allowed : Allowed s op)
      (stepped : s.step op = .ok s') : Reachable s'

/-- What holds of the tree at all times. -/
structure Layered (s : FWriteTree α) : Prop where
  visibleWrites : s.visibleWrites = addAll emptyWrite (pending s.allWrites)
  canonical : ∀ r ∈ s.allWrites, r.Canonical

/-! ### Taking a write out -/

theorem scan_hidden {index : Nat} {writes : List (FWriteRecord α × Nat)} {overlaps : Bool} :
    scan index record writes false overlaps = (false, overlaps) := by
  cases writes <;> rfl

theorem scan_of_contains {index : Nat} {writes : List (FWriteRecord α × Nat)} {overlaps : Bool}
    (shadowed : ∃ w ∈ writes, w.1.visible = true ∧ index ≤ w.2 ∧
      recordContainsPath w.1 record.path = true) :
    (scan index record writes true overlaps).1 = false := by
  induction writes generalizing overlaps with
  | nil => simp at shadowed
  | cons w writes ih =>
      obtain ⟨currentWrite, i⟩ := w
      by_cases here : currentWrite.visible = true ∧ index ≤ i ∧
          recordContainsPath currentWrite record.path = true
      · rw [scan, if_pos rfl, if_pos here.1, if_pos here.2, scan_hidden]
      · have later : ∃ w ∈ writes, w.1.visible = true ∧ index ≤ w.2 ∧
            recordContainsPath w.1 record.path = true := by
          obtain ⟨w, mem, covers⟩ := shadowed
          rcases List.mem_cons.mp mem with rfl | mem
          · exact absurd covers here
          · exact ⟨w, mem, covers⟩
        rw [scan, if_pos rfl]
        split
        · rename_i visible
          rw [if_neg fun covers => here ⟨visible, covers⟩]
          split <;> exact ih later
        · exact ih later

theorem scan_of_not_contains {index : Nat} {writes : List (FWriteRecord α × Nat)}
    {overlaps : Bool} (open_ : ∀ w ∈ writes, w.1.visible = true → index ≤ w.2 →
      recordContainsPath w.1 record.path = false) :
    scan index record writes true overlaps = (true, overlaps ||
      writes.any fun w => w.1.visible && record.path.contains w.1.path) := by
  induction writes generalizing overlaps with
  | nil => rw [scan, List.any_nil, Bool.or_false]
  | cons w writes ih =>
      obtain ⟨currentWrite, i⟩ := w
      have open' := open_ (currentWrite, i) List.mem_cons_self
      have step {overlaps : Bool} := @ih overlaps
        (fun w mem => open_ w (List.mem_cons_of_mem (currentWrite, i) mem))
      rw [scan, if_pos rfl, List.any_cons]
      split
      · rename_i visible
        rw [if_neg fun covers => by simp [open' visible covers.1] at covers, visible,
          Bool.true_and]
        split
        · rename_i below
          rw [step, below, Bool.true_or, Bool.or_true]
        · rename_i apart
          rw [step, Bool.eq_false_iff.mpr apart, Bool.false_or]
      · rename_i hidden
        rw [step, Bool.eq_false_iff.mpr hidden, Bool.false_and, Bool.false_or]

/-- A later write covers it, so what it wrote is not to be seen. -/
theorem visibleWrites_of_shadowed (removable : Removable older record newer)
    (shadowed : ∃ r ∈ newer, r.visible = true ∧ recordContainsPath r record.path = true) :
    addAll emptyWrite (pending older ++ (record.writes ++ pending newer)) =
      addAll emptyWrite (pending older ++ pending newer) := by
  have canonical : (addAll (emptyWrite : FCompoundWrite α) (pending older)).Canonical :=
    canonical_addAll canonical_emptyWrite
  have same : SameBut record.path (addAll emptyWrite (pending older))
      (addAll emptyWrite (pending older)) := by
    refine sameBut_emptyWrite.addAll canonical_emptyWrite fun e mem => ?_
    obtain ⟨r, mem, visible, mem'⟩ := mem_pending.mp mem
    rcases removable.fromOlder r mem visible with below | apart
    · exact .inl (below.trans (FWriteRecord.prefix_of_mem_writes mem'))
    · exact .inr (apart e mem')
  obtain ⟨r, mem, visible, contains⟩ := shadowed
  obtain ⟨e, mem', covers⟩ := FWriteRecord.recordContainsPath_iff.mp contains
  rw [addAll_append, addAll_append, addAll_append]
  exact (same.addAll_left canonical fun e mem => FWriteRecord.prefix_of_mem_writes mem).addAll_eq
    (canonical_addAll canonical) canonical
    ⟨e, mem_pending.mpr ⟨r, mem, visible, mem'⟩, covers⟩

/-- Nothing meets what it wrote. -/
theorem visibleWrites_of_apart (canonical : record.Canonical)
    (removable : Removable older record newer)
    (open_ : ∀ r ∈ newer, r.visible = true → recordContainsPath r record.path = false)
    (below : ∀ r ∈ older ++ newer, r.visible = true → ¬ record.path <+: r.path) :
    removeFromTree (addAll emptyWrite (pending older ++ (record.writes ++ pending newer)))
      record = addAll emptyWrite (pending older ++ pending newer) := by
  rw [FWriteRecord.removeFromTree_eq]
  refine removeAll_addAll (FWriteRecord.pairwise_apart_writes canonical) ?_
  intro e mem e' mem'
  have apart : Apart record.path e'.1 := by
    rw [← pending_append] at mem'
    obtain ⟨r, mem', visible, written⟩ := mem_pending.mp mem'
    have aside := below r mem' visible
    rcases List.mem_append.mp mem' with mem' | mem'
    · exact (removable.fromOlder r mem' visible).resolve_left aside e' written
    · refine ((removable.fromNewer r mem' visible).resolve_left aside e' written).resolve_left ?_
      intro covers
      have contains := FWriteRecord.recordContainsPath_iff.mpr ⟨e', written, covers⟩
      rw [open_ r mem' visible] at contains
      cases contains
  obtain ⟨r, split⟩ := FWriteRecord.prefix_of_mem_writes mem
  rw [← split]
  exact apart.append_left

theorem mem_zipIdx_append {r : FWriteRecord α} :
    (∃ i, (r, i) ∈ (older ++ newer).zipIdx.reverse ∧ older.length ≤ i) ↔ r ∈ newer := by
  simp only [List.mem_reverse, List.mem_zipIdx_iff_getElem?]
  constructor
  · rintro ⟨i, found, after⟩
    rw [List.getElem?_append_right after] at found
    exact List.mem_of_getElem? found
  · intro mem
    obtain ⟨j, found⟩ := List.mem_iff_getElem?.mp mem
    refine ⟨older.length + j, ?_, Nat.le_add_right ..⟩
    rw [List.getElem?_append_right (Nat.le_add_right ..), Nat.add_sub_cancel_left, found]

/-- A write is taken out. -/
theorem removeWriteId_spec (layered : s.Layered) (split : s.allWrites = older ++ record :: newer)
    (first : ∀ r ∈ older, r.writeId ≠ record.writeId)
    (removable : record.visible = true → Removable older record newer) :
    ∃ s' visible, s.removeWriteId record.writeId = .ok (s', visible) ∧
      s'.allWrites = older ++ newer ∧
      s'.visibleWrites = addAll emptyWrite (pending (older ++ newer)) := by
  have index : s.allWrites.findIdx (fun r => r.writeId = record.writeId) = older.length := by
    have others : ¬ older.findIdx (fun r => r.writeId = record.writeId) < older.length := by
      rw [List.findIdx_lt_length]
      rintro ⟨r, mem, same⟩
      exact first r mem (of_decide_eq_true same)
    rw [split, List.findIdx_append, if_neg others, List.findIdx_cons]
    simp
  have found : s.allWrites[older.length]? = some record := by
    rw [split, List.getElem?_append_right le_rfl, Nat.sub_self]
    rfl
  have left : s.allWrites.eraseIdx older.length = older ++ newer := by
    rw [split, List.eraseIdx_append_of_length_le le_rfl, Nat.sub_self]
    rfl
  have before : s.visibleWrites = addAll emptyWrite (pending older ++
      ((if record.visible then record.writes else []) ++ pending newer)) := by
    rw [layered.visibleWrites, split, pending_append, pending_cons]
  rw [removeWriteId, pending_append]
  simp only [index, found, left]
  cases visible : record.visible with
  | false =>
      rw [scan_hidden]
      refine ⟨_, _, rfl, rfl, before.trans ?_⟩
      rw [visible]
      rfl
  | true =>
      have removable := removable visible
      rw [visible, if_pos rfl] at before
      by_cases shadowed : ∃ r ∈ newer, r.visible = true ∧
          recordContainsPath r record.path = true
      · have scanned : (scan older.length record (older ++ newer).zipIdx.reverse true false).1 =
            false := by
          obtain ⟨r, mem, covers⟩ := shadowed
          obtain ⟨i, mem, after⟩ := mem_zipIdx_append.mpr mem
          exact scan_of_contains ⟨(r, i), mem, covers.1, after, covers.2⟩
        cases result : scan older.length record (older ++ newer).zipIdx.reverse true false with
        | mk wasVisible overlaps =>
            rw [result] at scanned
            cases scanned
            exact ⟨_, _, rfl, rfl, before.trans (visibleWrites_of_shadowed removable shadowed)⟩
      · have open_ (r) (mem : r ∈ newer) (shown : r.visible = true) :
            recordContainsPath r record.path = false :=
          Bool.eq_false_iff.mpr fun covers => shadowed ⟨r, mem, shown, covers⟩
        rw [scan_of_not_contains fun w mem shown after =>
          open_ w.1 (mem_zipIdx_append.mp ⟨w.2, mem, after⟩) shown, Bool.false_or]
        cases overlaps : (older ++ newer).zipIdx.reverse.any fun w =>
            w.1.visible && record.path.contains w.1.path with
        | true =>
            refine ⟨_, _, rfl, rfl, ?_⟩
            rw [← pending_append]
            refine layerTreeFromWrites_nil (removable.hidden ?_)
            obtain ⟨w, mem, here⟩ := List.any_eq_true.mp overlaps
            rw [Bool.and_eq_true, FPath.contains_iff] at here
            exact ⟨w.1, List.fst_mem_of_mem_zipIdx (List.mem_reverse.mp mem), here⟩
        | false =>
            refine ⟨_, _, rfl, rfl, ?_⟩
            rw [before]
            refine visibleWrites_of_apart (layered.canonical record (by simp [split])) removable
              open_ fun r mem shown below => ?_
            obtain ⟨i, inZip⟩ := List.mem_iff_getElem?.mp mem
            have clear := List.any_eq_false.mp overlaps (r, i)
              (List.mem_reverse.mpr (List.mem_zipIdx_iff_getElem?.mpr inZip))
            rw [shown, FPath.contains_iff.mpr below] at clear
            exact clear rfl

theorem split_of_removeWriteId {writeId : Int} {result : FWriteTree α × Bool}
    (removed : s.removeWriteId writeId = .ok result) :
    ∃ older record newer, s.allWrites = older ++ record :: newer ∧ record.writeId = writeId ∧
      ∀ r ∈ older, r.writeId ≠ writeId := by
  rw [removeWriteId] at removed
  cases found : s.allWrites[s.allWrites.findIdx fun record => record.writeId = writeId]? with
  | none =>
      simp only [found] at removed
      cases removed
  | some record =>
      obtain ⟨same, older, newer, split, others⟩ :=
        List.find?_eq_some_iff_append.mp (List.find?_eq_getElem?_findIdx.trans found)
      refine ⟨older, record, newer, split, of_decide_eq_true same, fun r mem here => ?_⟩
      have other := others r mem
      rw [here, decide_eq_true rfl] at other
      cases other

theorem layered_init : (init : FWriteTree α).Layered := ⟨rfl, by simp [init]⟩

/-- A new write is the last one. -/
theorem Layered.concat (layered : s.Layered) (record : FWriteRecord α)
    (canonical : record.Canonical) (allWrites : s'.allWrites = s.allWrites ++ [record])
    (added : s'.visibleWrites = addAll s.visibleWrites
      (if record.visible then record.writes else [])) : s'.Layered := by
  refine ⟨?_, fun r mem => ?_⟩
  · rw [added, layered.visibleWrites, allWrites, pending_append, pending_cons, addAll_append]
    exact congrArg _ (List.append_nil _).symm
  · rw [allWrites] at mem
    rcases List.mem_append.mp mem with mem | mem
    · exact layered.canonical r mem
    · cases List.mem_singleton.mp mem
      exact canonical

theorem Layered.step {op : Op α} (layered : s.Layered) (allowed : Allowed s op)
    (stepped : s.step op = .ok s') : s'.Layered := by
  cases op with
  | addOverwrite path newData writeId visible =>
      rw [FWriteTree.step, addOverwriteAtPath] at stepped
      split at stepped
      · cases stepped
        refine layered.concat ⟨writeId, path, .overwrite newData, visible⟩ trivial rfl ?_
        cases visible <;> rfl
      · cases stepped
  | addMerge path changedChildren writeId =>
      rw [FWriteTree.step, addMergeAtPath] at stepped
      split at stepped
      · cases stepped
        exact layered.concat ⟨writeId, path, .merge changedChildren, true⟩ allowed rfl
          addCompoundWrite_eq
      · cases stepped
  | removeWrite writeId =>
      rw [FWriteTree.step] at stepped
      cases removed : s.removeWriteId writeId with
      | error message =>
          rw [removed] at stepped
          cases stepped
      | ok result =>
          obtain ⟨older, record, newer, split, rfl, first⟩ := split_of_removeWriteId removed
          obtain ⟨left, visible, removed', allWrites, visibleWrites⟩ :=
            removeWriteId_spec layered split first (allowed older record newer split rfl)
          rw [removed'] at stepped
          cases stepped
          refine ⟨by rw [visibleWrites, allWrites], fun r mem => layered.canonical r ?_⟩
          rw [allWrites] at mem
          rw [split]
          exact ((List.sublist_cons_self record newer).append_left older).subset mem
  | removeAll =>
      cases stepped
      exact ⟨rfl, by simp [removeAllWrites]⟩

theorem Reachable.layered (reachable : Reachable s) : s.Layered := by
  induction reachable with
  | init => exact layered_init
  | step reachable allowed stepped ih => exact ih.step allowed stepped

/-- The tree after these steps; a step that fails changes nothing. -/
def after (s : FWriteTree α) (ops : List (Op α)) : FWriteTree α :=
  ops.foldl (fun s op => (s.step op).toOption.getD s) s

/-- Each of the steps is allowed where it is taken. -/
def AllAllowed (s : FWriteTree α) : List (Op α) → Prop
  | [] => True
  | op :: ops => Allowed s op ∧ AllAllowed (s.after [op]) ops

theorem Reachable.after {ops : List (Op α)} (reachable : Reachable s)
    (allowed : AllAllowed s ops) : Reachable (s.after ops) := by
  induction ops generalizing s with
  | nil => exact reachable
  | cons op ops ih =>
      refine ih ?_ allowed.2
      change Reachable ((s.step op).toOption.getD s)
      cases stepped : s.step op with
      | error failure => exact reachable
      | ok s' => exact .step reachable allowed.1 stepped

end FWriteTree

end

def bobPiece : Piece := ⟨"bob", by decide +kernel⟩

def bobPath : FPath := [membersPiece, bobPiece]

def carlPath : FPath := [membersPiece, ⟨"carl", by decide +kernel⟩]

def namePiece : Piece := ⟨"name", by decide +kernel⟩

def agePiece : Piece := ⟨"age", by decide +kernel⟩

namespace FWriteTree

open FCompoundWrite

/-- Of six writes, the second is answered first, which the third covers; then the first,
which nothing overlaps with; then the fourth, which the fifth is made in. -/
def answered : List (Op String) :=
  [.addOverwrite annPath (.leaf "Ann" none) 1 true,
    .addOverwrite bobPath (.leaf "Bob" none) 2 true,
    .addOverwrite bobPath (.leaf "Rob" none) 3 true,
    .addOverwrite carlPath (.leaf "Carl" none) 4 true,
    .addOverwrite (carlPath ++ [agePiece]) (.leaf "30" none) 5 true,
    .addMerge [] (addWrite emptyWrite (.leaf "2" none) [agePiece]) 6,
    .removeWrite 2, .removeWrite 1, .removeWrite 4]

theorem allAllowed_answered : AllAllowed init answered := by
  have canonical : (addWrite (emptyWrite : FCompoundWrite String) (.leaf "2" none)
      [agePiece]).Canonical := canonical_addWrite canonical_emptyWrite
  refine ⟨trivial, trivial, trivial, trivial, trivial, canonical, ?_, ?_, ?_, trivial⟩
  · exact allowed_removeWrite (by decide +kernel)
  · exact allowed_removeWrite (by decide +kernel)
  · exact allowed_removeWrite (by decide +kernel)

example : (init.after answered).allWrites.map FWriteRecord.writeId = [3, 5, 6] := by
  decide +kernel

end FWriteTree

end GAMember
