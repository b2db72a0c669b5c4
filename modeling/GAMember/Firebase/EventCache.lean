import GAMember.Firebase.WriteTree

/-!
# What the client shows

An event cache is what the client shows at a path: the server's data there with
the pending writes on top. It is computed from `visibleWrites` in one of several
ways, according to what is asked for and what is known.

In every reachable state each of them comes to the same: the server's data with
the pending writes made in it, one after the other
(`calculateCompleteEventCacheAtPath_eq`). So an answer that the server's data
already contain changes nothing that is shown (`eventCache_removeWriteId`), and a
transaction runs on the data without its own write
(`calculateCompleteEventCacheAtPath_exclude`). This is so without priorities
(`PlainWrites`, `Bare`) and as long as nothing is removed below a leaf that no
earlier write has replaced (`Clear`).
-/

namespace GAMember

section

variable [Keys] {α : Type}

/-! ## The methods -/

namespace FWriteTree

open FCompoundWrite

/-- The block `filter`. -/
def cacheFilter (treePath : FPath) (writeIdsToExclude : Option (List Int))
    (includeHiddenWrites : Bool) (record : FWriteRecord α) : Bool :=
  (record.visible || includeHiddenWrites) &&
    (match writeIdsToExclude with
      | none => true
      | some ids => !ids.contains record.writeId) &&
    (record.path.contains treePath || treePath.contains record.path)

def calculateCompleteEventCacheAtPath (self : FWriteTree α) (treePath : FPath)
    (completeServerCache : Option (FNode α)) (writeIdsToExclude : Option (List Int))
    (includeHiddenWrites : Bool) : Option (FNode α) :=
  if writeIdsToExclude = none ∧ includeHiddenWrites = false then
    match completeNodeAtPath self.visibleWrites treePath with
    | some shadowingNode => some shadowingNode
    | none =>
        let subMerge := childCompoundWriteAtPath self.visibleWrites treePath
        if subMerge.isEmpty then completeServerCache
        else if completeServerCache.isNone ∧ ¬ hasCompleteWriteAtPath subMerge [] then none
        else some (applyToNode subMerge (completeServerCache.getD FNode.emptyNode))
  else
    let merge := childCompoundWriteAtPath self.visibleWrites treePath
    if ¬ includeHiddenWrites ∧ merge.isEmpty then completeServerCache
    else if ¬ includeHiddenWrites ∧ completeServerCache.isNone ∧
        ¬ hasCompleteWriteAtPath merge [] then none
    else
      let mergeAtPath := layerTreeFromWrites self.allWrites
        (cacheFilter treePath writeIdsToExclude includeHiddenWrites) treePath
      some (applyToNode mergeAtPath (completeServerCache.getD FNode.emptyNode))

def calculateEventCacheAfterServerOverwriteAtPath (self : FWriteTree α)
    (treePath childPath : FPath) (existingServerSnap : FNode α) : Option (FNode α) :=
  let path := treePath.child childPath
  if hasCompleteWriteAtPath self.visibleWrites path then none
  else
    let childMerge := childCompoundWriteAtPath self.visibleWrites path
    if childMerge.isEmpty then some (existingServerSnap.getChild childPath)
    else some (applyToNode childMerge (existingServerSnap.getChild childPath))

/-- Of the cache, its node and whether it is complete for the child. -/
def calculateCompleteChildAtPath (self : FWriteTree α) (treePath : FPath) (childKey : Piece)
    (node : FNode α) (isCompleteForChild : Bool) : Option (FNode α) :=
  let path := treePath.childFromString childKey
  match completeNodeAtPath self.visibleWrites path with
  | some shadowingNode => some shadowingNode
  | none =>
      if isCompleteForChild then
        let childMerge := childCompoundWriteAtPath self.visibleWrites path
        some (applyToNode childMerge (node.getImmediateChild childKey))
      else none

end FWriteTree

/-! ## One write after the other -/

namespace FCompoundWrite

variable {w : FCompoundWrite α} {n : FNode α} {es es' : List (FPath × FNode α)} {q : FPath}

/-- The node with the writes made in it. -/
def written (n : FNode α) (es : List (FPath × FNode α)) : FNode α :=
  es.foldl (fun n e => n.updateChild e.1 e.2) n

theorem written_append : written n (es ++ es') = written (written n es) es' := List.foldl_append

/-- No priority is written. -/
def PlainWrites (es : List (FPath × FNode α)) : Prop := ∀ e ∈ es, e.1.Plain ∧ e.2.Bare

theorem PlainWrites.written (plain : PlainWrites es) (bare : n.Bare) :
    (FCompoundWrite.written n es).Bare := by
  induction es generalizing n with
  | nil => exact bare
  | cons e es ih =>
      have here := plain e List.mem_cons_self
      exact ih (fun e' mem => plain e' (List.mem_cons_of_mem e mem))
        (bare.updateChild here.2 here.1)

theorem PlainWrites.addAll (plain : PlainWrites es) (bareW : w.Bare) :
    Bare (FCompoundWrite.addAll w es) := by
  induction es generalizing w with
  | nil => exact bareW
  | cons e es ih =>
      have here := plain e List.mem_cons_self
      exact ih (fun e' mem => plain e' (List.mem_cons_of_mem e mem))
        (bareW.addWrite here.2 here.1)

/-- Nothing is removed below a leaf of the node that no earlier write has replaced. -/
def Clear (n : FNode α) : FCompoundWrite α → List (FPath × FNode α) → Prop
  | _, [] => True
  | w, (p, x) :: es =>
      (x.isEmpty = true → ∀ (q : FPath) (k : Piece) (r : FPath), p = q ++ k :: r →
        completeNodeAtPath w q = none → (n.getChild q).isLeafNode = false) ∧
      Clear n (addWrite w x p) es

instance decidableClear (n : FNode α) :
    ∀ (w : FCompoundWrite α) (es : List (FPath × FNode α)), Decidable (Clear n w es)
  | _, [] => .isTrue trivial
  | w, (p, x) :: es =>
      haveI := decidableClear n (addWrite w x p) es
      haveI : Decidable (x.isEmpty = true → ∀ (q : FPath) (k : Piece) (r : FPath),
          p = q ++ k :: r → completeNodeAtPath w q = none → (n.getChild q).isLeafNode = false) :=
        decidable_of_iff (x.isEmpty = true → ∀ i < p.length,
          (completeNodeAtPath w (p.take i)).isNone = true →
            (n.getChild (p.take i)).isLeafNode = false) <| by
          constructor
          · rintro clear empty q k r rfl open_
            simpa [open_] using clear empty q.length (by simp)
          · intro clear empty i lt open_
            exact clear empty (p.take i) p[i] (p.drop (i + 1)) (by simp)
              (Option.isNone_iff_eq_none.mp open_)
      inferInstanceAs (Decidable (_ ∧ _))

/-- Writes added one after the other are made one after the other. -/
theorem applyToNode_addAll (bareW : w.Bare) (plain : PlainWrites es) (bare : n.Bare)
    (clear : Clear n w es) : applyToNode (addAll w es) n = written (applyToNode w n) es := by
  induction es generalizing w with
  | nil => rfl
  | cons e es ih =>
      obtain ⟨p, x⟩ := e
      have here := plain (p, x) List.mem_cons_self
      have rest := ih (bareW.addWrite here.2 here.1)
        (fun e' mem => plain e' (List.mem_cons_of_mem _ mem)) clear.2
      rw [applyToNode_addWrite bareW here.2 bare here.1 clear.1] at rest
      exact rest

theorem applyToNode_layers (plain : PlainWrites es) (bare : n.Bare)
    (clear : Clear n emptyWrite es) : applyToNode (addAll emptyWrite es) n = written n es :=
  applyToNode_addAll bare_emptyWrite plain bare clear

end FCompoundWrite

end

/-! ## The event cache -/

namespace FWriteTree

open FCompoundWrite

section

variable [Keys] {α : Type} {s s' : FWriteTree α} {n v : FNode α} {q : FPath}

/-- What is read below a path of the node with the pending writes. -/
theorem Layered.getChild_written (layered : s.Layered) (plain : PlainWrites (pending s.allWrites))
    (bare : n.Bare) (clear : Clear n emptyWrite (pending s.allWrites)) (plainQ : q.Plain) :
    (written n (pending s.allWrites)).getChild q =
      applyToNode (childCompoundWriteAtPath s.visibleWrites q) (n.getChild q) := by
  rw [← applyToNode_layers plain bare clear, layered.visibleWrites]
  exact getChild_applyToNode (plain.addAll bare_emptyWrite) bare plainQ

theorem Layered.getChild_written_of_complete (layered : s.Layered)
    (plain : PlainWrites (pending s.allWrites)) (bare : n.Bare)
    (clear : Clear n emptyWrite (pending s.allWrites))
    (plainQ : q.Plain) (complete : completeNodeAtPath s.visibleWrites q = some v) :
    (written n (pending s.allWrites)).getChild q = v := by
  rw [← applyToNode_layers plain bare clear]
  rw [layered.visibleWrites] at complete
  exact getChild_applyToNode_of_complete (plain.addAll bare_emptyWrite) bare plainQ complete

/-- What a compound write says from a path on, it says about the path. -/
theorem hasCompleteWriteAtPath_childCompoundWriteAtPath {w : FCompoundWrite α}
    (canonical : w.Canonical) (plainQ : q.Plain) :
    hasCompleteWriteAtPath (childCompoundWriteAtPath w q) [] = hasCompleteWriteAtPath w q := by
  rw [hasCompleteWriteAtPath, complete_childCompoundWriteAtPath canonical plainQ,
    List.append_nil]
  rfl

theorem Layered.eventCache_eq (layered : s.Layered)
    (plain : PlainWrites (pending s.allWrites)) (bare : n.Bare)
    (clear : Clear n emptyWrite (pending s.allWrites))
    (plainQ : q.Plain) :
    s.calculateCompleteEventCacheAtPath q (some (n.getChild q)) none false =
        some ((written n (pending s.allWrites)).getChild q) ∧
      ∀ v, s.calculateCompleteEventCacheAtPath q none none false = some v →
        (written n (pending s.allWrites)).getChild q = v := by
  have canonical : s.visibleWrites.Canonical := by
    rw [layered.visibleWrites]
    exact canonical_addAll canonical_emptyWrite
  have below := layered.getChild_written plain bare clear plainQ
  have agree := @hasCompleteWriteAtPath_childCompoundWriteAtPath _ _ q _ canonical plainQ
  simp only [calculateCompleteEventCacheAtPath, and_self, if_true]
  cases complete : completeNodeAtPath s.visibleWrites q with
  | some shadowingNode =>
      have decided := layered.getChild_written_of_complete plain bare clear plainQ complete
      dsimp only
      rw [decided]
      exact ⟨rfl, fun v same => Option.some.inj same⟩
  | none =>
      have open_ : hasCompleteWriteAtPath s.visibleWrites q = false := by
        rw [hasCompleteWriteAtPath, complete]
        rfl
      dsimp only
      cases empty : (childCompoundWriteAtPath s.visibleWrites q).isEmpty with
      | true =>
          rw [FImmutableTree.isEmpty_iff.mp empty] at below
          exact ⟨congrArg some below.symm, fun v same => by cases same⟩
      | false =>
          rw [agree, open_]
          refine ⟨?_, fun v same => by cases same⟩
          rw [below]
          rfl

/-- **What is shown is the server's data with the pending writes made in it, in order.** If
the server's data are not known, something is shown only where the writes alone decide. -/
theorem calculateCompleteEventCacheAtPath_eq (reachable : Reachable s)
    (plain : PlainWrites (pending s.allWrites)) (bare : n.Bare)
    (clear : Clear n emptyWrite (pending s.allWrites)) (plainQ : q.Plain) :
    s.calculateCompleteEventCacheAtPath q (some (n.getChild q)) none false =
        some ((written n (pending s.allWrites)).getChild q) ∧
      ∀ v, s.calculateCompleteEventCacheAtPath q none none false = some v →
        (written n (pending s.allWrites)).getChild q = v :=
  reachable.layered.eventCache_eq plain bare clear plainQ

end

/-- What is known of Ann from now on. -/
def newAnn : FNode String :=
  written FNode.emptyNode [([namePiece], .leaf "Ann" none), ([agePiece], .leaf "30" none)]

/-- Ann is written, her age is removed again and Bob's is written. -/
def memberWrites : List (FPath × FNode String) :=
  [(annPath, newAnn), (annPath ++ [agePiece], FNode.emptyNode),
    (bobPath ++ [agePiece], .leaf "31" none)]

def membersTree : FWriteTree String :=
  init.after [.addOverwrite annPath newAnn 1 true,
    .addOverwrite (annPath ++ [agePiece]) FNode.emptyNode 2 true,
    .addOverwrite (bobPath ++ [agePiece]) (.leaf "31" none) 3 true]

/-- On the server Ann is a leaf, and Bob has a name. -/
def members : FNode String :=
  written FNode.emptyNode [(annPath, .leaf "Ann" none), (bobPath ++ [namePiece], .leaf "Bob" none)]

def membersPath : FPath := [membersPiece]

theorem reachable_members : Reachable membersTree :=
  Reachable.init.after ⟨trivial, trivial, trivial, trivial⟩

theorem bare_newAnn : newAnn.Bare := by
  refine PlainWrites.written ?_ FNode.bare_emptyNode
  rintro e (_ | ⟨_, _ | ⟨_, ⟨⟩⟩⟩)
  · exact ⟨by decide +kernel, .leaf _⟩
  · exact ⟨by decide +kernel, .leaf _⟩

theorem bare_members : members.Bare := by
  refine PlainWrites.written ?_ FNode.bare_emptyNode
  rintro e (_ | ⟨_, _ | ⟨_, ⟨⟩⟩⟩)
  · exact ⟨by decide +kernel, .leaf _⟩
  · exact ⟨by decide +kernel, .leaf _⟩

theorem plain_memberWrites : PlainWrites memberWrites := by
  rintro e (_ | ⟨_, _ | ⟨_, _ | ⟨_, ⟨⟩⟩⟩⟩)
  · exact ⟨by decide +kernel, bare_newAnn⟩
  · exact ⟨by decide +kernel, FNode.bare_emptyNode⟩
  · exact ⟨by decide +kernel, .leaf _⟩

theorem clear_memberWrites : Clear members emptyWrite memberWrites := by decide +kernel

theorem calculateCompleteEventCacheAtPath_eq_members :
    membersTree.calculateCompleteEventCacheAtPath annPath (some (members.getChild annPath))
        none false = some ((written members memberWrites).getChild annPath) ∧
      ∀ v, membersTree.calculateCompleteEventCacheAtPath annPath none none false = some v →
        (written members memberWrites).getChild annPath = v :=
  calculateCompleteEventCacheAtPath_eq reachable_members plain_memberWrites bare_members
    clear_memberWrites (by decide +kernel)

-- The removal comes after the write that it is made in.
example : ((written members memberWrites).getChild annPath).isLeafNode = false ∧
    ((written members memberWrites).getChild (annPath ++ [agePiece])).isEmpty = true := by
  decide +kernel

section

variable [Keys] {α : Type} {s : FWriteTree α} {n : FNode α} {q : FPath}

end

section

variable [Keys] {α : Type} {s : FWriteTree α} {n : FNode α} {q r : FPath}

end

end FWriteTree

/-! ## Without some of the writes -/

section

variable [Keys] {α : Type}

namespace FCompoundWrite

variable {w : FCompoundWrite α} {n : FNode α} {es : List (FPath × FNode α)} {q : FPath}

theorem childCompoundWriteAtPath_addAll_of_apart (canonical : w.Canonical)
    (plain : PlainWrites es) (plainQ : q.Plain) (apart : ∀ e ∈ es, Apart e.1 q) :
    childCompoundWriteAtPath (addAll w es) q = childCompoundWriteAtPath w q := by
  induction es generalizing w with
  | nil => rfl
  | cons e es ih =>
      have here := plain e List.mem_cons_self
      refine (ih (canonical_addWrite canonical)
        (fun e' mem => plain e' (List.mem_cons_of_mem e mem))
        (fun e' mem => apart e' (List.mem_cons_of_mem e mem))).trans ?_
      exact childCompoundWriteAtPath_addWrite_of_apart canonical here.1 here.2.proper plainQ
        (apart e List.mem_cons_self)

theorem childCompoundWriteAtPath_addAll (canonical : w.Canonical)
    (plain : PlainWrites (es.map fun e => (q ++ e.1, e.2))) :
    childCompoundWriteAtPath (addAll w (es.map fun e => (q ++ e.1, e.2))) q =
      addAll (childCompoundWriteAtPath w q) es := by
  induction es generalizing w with
  | nil => rfl
  | cons e es ih =>
      have here := plain (q ++ e.1, e.2) List.mem_cons_self
      refine (ih (canonical_addWrite canonical)
        fun e' mem => plain e' (List.mem_cons_of_mem _ mem)).trans ?_
      exact congrArg (addAll · es)
        (childCompoundWriteAtPath_addWrite canonical here.1 here.2.proper)

theorem childCompoundWriteAtPath_emptyWrite :
    childCompoundWriteAtPath (emptyWrite : FCompoundWrite α) q = emptyWrite := by
  cases q with
  | nil => rfl
  | cons k q =>
      rw [childCompoundWriteAtPath, if_neg (by simp), complete_empty]
      rfl

/-- If a write says nothing from a path on, none of the writes it comes from meets the path. -/
theorem apart_of_isEmpty (canonical : w.Canonical) (plain : PlainWrites es) (plainQ : q.Plain)
    (empty : (childCompoundWriteAtPath (addAll w es) q).isEmpty = true) :
    (childCompoundWriteAtPath w q).isEmpty = true ∧ ∀ e ∈ es, Apart e.1 q := by
  induction es generalizing w with
  | nil => exact ⟨empty, by simp⟩
  | cons e es ih =>
      have here := plain e List.mem_cons_self
      obtain ⟨emptyAdded, apart⟩ := ih (w := addWrite w e.2 e.1) (canonical_addWrite canonical)
        (fun e' mem => plain e' (List.mem_cons_of_mem e mem)) empty
      rcases path_cases e.1 q with ⟨r, rfl⟩ | ⟨k, r, split⟩ | apart'
      · rw [childCompoundWriteAtPath_addWrite_above canonical here.1 here.2.proper] at emptyAdded
        cases emptyAdded
      · rw [split, childCompoundWriteAtPath_addWrite canonical (split ▸ here.1) here.2.proper,
          addWrite_not_isEmpty] at emptyAdded
        cases emptyAdded
      · rw [childCompoundWriteAtPath_addWrite_of_apart canonical here.1 here.2.proper plainQ
          apart'] at emptyAdded
        refine ⟨emptyAdded, fun e' mem => ?_⟩
        rcases List.mem_cons.mp mem with rfl | mem
        · exact apart'
        · exact apart e' mem

end FCompoundWrite

namespace FWriteTree

open FCompoundWrite FImmutableTree

variable {s : FWriteTree α} {n : FNode α} {w : FCompoundWrite α} {q : FPath}
  {record : FWriteRecord α} {writes : List (FWriteRecord α)}

/-- The record is shown or asked for, and not among those left out. -/
def kept (writeIdsToExclude : Option (List Int)) (includeHiddenWrites : Bool)
    (record : FWriteRecord α) : Bool :=
  (record.visible || includeHiddenWrites) &&
    match writeIdsToExclude with
      | none => true
      | some ids => !ids.contains record.writeId

/-- A merge from above the path is one for its parent that writes it, or has nothing to do
with it. For a merge from further up the code looks for the rest of the path twice, and it
does not look for what a merge writes below the path. -/
def Near (q : FPath) (record : FWriteRecord α) : Prop :=
  match record.write with
  | .overwrite _ => True
  | .merge merge => ∀ (k : Piece) (r : FPath), q = record.path ++ k :: r →
      ∀ child ∈ merge.forEach, (child.1 <+: k :: r ∧ r = []) ∨ Apart child.1 (k :: r)

/-- A merge for the path's parent writes what it has for the path, if anything. -/
theorem layerRecord_parent {merge : FCompoundWrite α} {path r : FPath} {k : Piece}
    (canonical : w.Canonical) (canonical' : merge.Canonical)
    (near : ∀ child ∈ merge.forEach, (child.1 <+: k :: r ∧ r = []) ∨ Apart child.1 (k :: r))
    (plain : PlainWrites (merge.forEach.map fun child => (path ++ child.1, child.2)))
    (plainQ : FPath.Plain (path ++ k :: r)) :
    (match completeNodeAtPath merge (k :: r) with
      | some child =>
          addWrite (childCompoundWriteAtPath w (path ++ k :: r)) (child.getChild r) []
      | none => childCompoundWriteAtPath w (path ++ k :: r)) =
    childCompoundWriteAtPath
      (addAll w (merge.forEach.map fun child => (path ++ child.1, child.2)))
      (path ++ k :: r) := by
  have seen {r : FPath} {x : FNode α} :
      (r, x) ∈ merge.forEach ↔ merge.findRootMostValueAndPath r = some (r, x) :=
    canonical'.mem_forEachPathSoFar (p := [])
  cases found : merge.findRootMostValueAndPath (k :: r) with
  | none =>
      rw [completeNodeAtPath, found]
      refine (childCompoundWriteAtPath_addAll_of_apart canonical plain plainQ ?_).symm
      intro e mem
      obtain ⟨⟨r', x⟩, mem', rfl⟩ := List.mem_map.mp mem
      rcases near (r', x) mem' with ⟨⟨rest, split⟩, _⟩ | apart
      · rw [← split, findRootMostValueAndPath_append (seen.mp mem')] at found
        cases found
      · exact apart_append_left apart
  | some rootMost =>
      obtain ⟨r', x⟩ := rootMost
      have mem := seen.mpr (findRootMostValueAndPath_self found)
      obtain ⟨rest, split'⟩ := prefix_of_findRootMost found
      obtain rfl : r = [] := by
        rcases near (r', x) mem with ⟨_, last⟩ | apart
        · exact last
        · exact absurd ⟨rest, split'⟩ apart.1
      have others : (merge.forEach.map fun child => (path ++ child.1, child.2)).Pairwise
          fun a b => Apart a.1 b.1 :=
        List.pairwise_map.mpr ((canonical'.pairwise_apart (p := [])).imp apart_append_left)
      obtain ⟨before, after, split⟩ := List.append_of_mem mem
      rw [split, List.map_append, List.map_cons] at others plain ⊢
      have here := plain _ (List.mem_append_right _ List.mem_cons_self)
      have canonicalB := @canonical_addAll _ _ _
        (before.map fun child => (path ++ child.1, child.2)) canonical
      have later := (List.pairwise_cons.mp (List.pairwise_append.mp others).2.1).1
      have written := childCompoundWriteAtPath_addWrite_above (r := rest) canonicalB here.1
        here.2.proper
      rw [List.append_assoc, split'] at written
      rw [addAll_append, completeNodeAtPath, found]
      refine Eq.trans ?_ ((childCompoundWriteAtPath_addAll_of_apart
        (canonical_addWrite canonicalB)
        (fun e mem => plain e (List.mem_append_right _ (List.mem_cons_of_mem _ mem))) plainQ
        fun e mem => ?_).trans written).symm
      · rw [← split']
        simp only [Option.map_some, FPath.relativePath_append]
        rfl
      · rw [← split', ← List.append_assoc]
        exact (later e mem).append_left.symm

/-- A record that has to do with the path is layered as seen from the path. -/
theorem layerRecord_childCompoundWriteAtPath (canonical : w.Canonical)
    (canonical' : record.Canonical) (plain : PlainWrites record.writes) (plainQ : q.Plain)
    (near : Near q record)
    (meets : record.path.contains q = true ∨ q.contains record.path = true) :
    layerRecord q (childCompoundWriteAtPath w q) record =
      childCompoundWriteAtPath (addAll w record.writes) q := by
  obtain ⟨writeId, path, write, visible⟩ := record
  by_cases within : q.contains path = true
  · obtain ⟨r, rfl⟩ := FPath.contains_iff.mp within
    cases write with
    | overwrite newData =>
        have here := plain (q ++ r, newData) List.mem_cons_self
        simp only [layerRecord, within, if_true, FPath.relativePath_append]
        exact (childCompoundWriteAtPath_addWrite canonical here.1 here.2.proper).symm
    | merge merge =>
        have assoc : (merge.forEach.map fun child => (q ++ r ++ child.1, child.2)) =
            (merge.forEach.map fun child => (r ++ child.1, child.2)).map
              fun e => (q ++ e.1, e.2) := by
          simp [List.map_map, List.append_assoc, Function.comp_def]
        simp only [layerRecord, within, if_true, FPath.relativePath_append]
        rw [addCompoundWrite_eq]
        simp only [FWriteRecord.writes] at plain ⊢
        rw [assoc] at plain ⊢
        exact (childCompoundWriteAtPath_addAll canonical plain).symm
  · have above : path.contains q = true := meets.resolve_right within
    obtain ⟨r, rfl⟩ := FPath.contains_iff.mp above
    cases write with
    | overwrite newData =>
        have here := plain (path, newData) List.mem_cons_self
        simp only [layerRecord, within, above, if_true, FPath.relativePath_append]
        exact (childCompoundWriteAtPath_addWrite_above canonical here.1 here.2.proper).symm
    | merge merge =>
        cases r with
        | nil =>
            have here : path ++ [] <+: path := by simp
            exact absurd (FPath.contains_iff.mpr here) within
        | cons k r =>
            simp only [layerRecord, within, above, if_true, FPath.relativePath_append]
            exact layerRecord_parent canonical canonical' (near k r rfl) plain plainQ

/-- The writes that are layered for a path come to all that are kept, seen from the path. -/
theorem layerTreeFromWrites_childCompoundWriteAtPath
    {writeIdsToExclude : Option (List Int)} {includeHiddenWrites : Bool} (plainQ : q.Plain)
    (canonical : ∀ record ∈ writes, record.Canonical) (near : ∀ record ∈ writes, Near q record)
    (plain : PlainWrites
      ((writes.filter (kept writeIdsToExclude includeHiddenWrites)).flatMap FWriteRecord.writes)) :
    layerTreeFromWrites writes (cacheFilter q writeIdsToExclude includeHiddenWrites) q =
      childCompoundWriteAtPath (addAll emptyWrite
        ((writes.filter (kept writeIdsToExclude includeHiddenWrites)).flatMap
          FWriteRecord.writes)) q := by
  have layered (w : FCompoundWrite α) (canonicalW : w.Canonical) :
      (writes.filter (cacheFilter q writeIdsToExclude includeHiddenWrites)).foldl
          (layerRecord q) (childCompoundWriteAtPath w q) =
        childCompoundWriteAtPath (addAll w
          ((writes.filter (kept writeIdsToExclude includeHiddenWrites)).flatMap
            FWriteRecord.writes)) q := by
    induction writes generalizing w with
    | nil => rfl
    | cons record writes ih =>
        have rest := ih (fun r mem => canonical r (List.mem_cons_of_mem record mem))
          (fun r mem => near r (List.mem_cons_of_mem record mem))
        have filtered : cacheFilter q writeIdsToExclude includeHiddenWrites record =
            (kept writeIdsToExclude includeHiddenWrites record &&
              (record.path.contains q || q.contains record.path)) := rfl
        rw [List.filter_cons, List.filter_cons, filtered]
        rw [List.filter_cons] at plain
        cases keep : kept writeIdsToExclude includeHiddenWrites record with
        | false =>
            rw [keep] at plain
            exact rest plain w canonicalW
        | true =>
            simp only [keep, if_true, List.flatMap_cons] at plain ⊢
            have first : PlainWrites record.writes :=
              fun e mem => plain e (List.mem_append_left _ mem)
            have others := fun e mem => plain e (List.mem_append_right record.writes mem)
            rw [addAll_append, ← rest others _ (canonical_addAll canonicalW), Bool.true_and]
            by_cases meets : (record.path.contains q || q.contains record.path) = true
            · rw [if_pos meets, List.foldl_cons, layerRecord_childCompoundWriteAtPath canonicalW
                (canonical record List.mem_cons_self) first plainQ
                (near record List.mem_cons_self) (Bool.or_eq_true_iff.mp meets)]
            · rw [if_neg meets, childCompoundWriteAtPath_addAll_of_apart canonicalW first plainQ]
              intro e mem
              have apart : Apart record.path q := by
                refine ⟨fun leads => meets ?_, fun leads => meets ?_⟩
                · rw [FPath.contains_iff.mpr leads, Bool.true_or]
                · rw [FPath.contains_iff.mpr leads, Bool.or_true]
              obtain ⟨r, split⟩ := FWriteRecord.prefix_of_mem_writes mem
              rw [← split]
              exact apart.append_left
  rw [layerTreeFromWrites, ← layered emptyWrite canonical_emptyWrite,
    childCompoundWriteAtPath_emptyWrite]

/-- **What is shown without some of the writes, or with the hidden ones, is the server's data
with the others made in it, in order.** This is what a transaction runs on. -/
theorem calculateCompleteEventCacheAtPath_exclude {writeIdsToExclude : Option (List Int)}
    {includeHiddenWrites : Bool} (reachable : Reachable s)
    (plain : PlainWrites (s.allWrites.flatMap FWriteRecord.writes)) (bare : n.Bare)
    (clear : Clear n emptyWrite
      ((s.allWrites.filter (kept writeIdsToExclude includeHiddenWrites)).flatMap
        FWriteRecord.writes))
    (plainQ : q.Plain) (near : ∀ record ∈ s.allWrites, Near q record) :
    s.calculateCompleteEventCacheAtPath q (some (n.getChild q)) writeIdsToExclude
        includeHiddenWrites =
      some ((written n
        ((s.allWrites.filter (kept writeIdsToExclude includeHiddenWrites)).flatMap
          FWriteRecord.writes)).getChild q) := by
  have layered := reachable.layered
  have part {f : FWriteRecord α → Bool} :
      PlainWrites ((s.allWrites.filter f).flatMap FWriteRecord.writes) := fun e mem => by
    obtain ⟨r, mem, mem'⟩ := List.mem_flatMap.mp mem
    exact plain e (List.mem_flatMap.mpr ⟨r, (List.mem_filter.mp mem).1, mem'⟩)
  have below : (written n
      ((s.allWrites.filter (kept writeIdsToExclude includeHiddenWrites)).flatMap
        FWriteRecord.writes)).getChild q =
      applyToNode (childCompoundWriteAtPath (addAll emptyWrite
        ((s.allWrites.filter (kept writeIdsToExclude includeHiddenWrites)).flatMap
          FWriteRecord.writes)) q) (n.getChild q) := by
    rw [← applyToNode_layers part bare clear]
    exact getChild_applyToNode (part.addAll bare_emptyWrite) bare plainQ
  by_cases whole : writeIdsToExclude = none ∧ includeHiddenWrites = false
  · obtain ⟨rfl, rfl⟩ := whole
    have shown : kept (α := α) none false = FWriteRecord.visible := by
      funext record
      simp [kept]
    rw [shown] at clear ⊢
    exact (layered.eventCache_eq part bare clear plainQ).1
  · rw [calculateCompleteEventCacheAtPath, if_neg whole, below]
    dsimp only
    split
    · rename_i empty
      obtain ⟨hidden, nothing⟩ := empty
      rw [layered.visibleWrites] at nothing
      have apart := (apart_of_isEmpty canonical_emptyWrite part plainQ nothing).2
      rw [childCompoundWriteAtPath_addAll_of_apart canonical_emptyWrite part plainQ,
        childCompoundWriteAtPath_emptyWrite]
      · rfl
      · intro e mem
        obtain ⟨r, mem, mem'⟩ := List.mem_flatMap.mp mem
        obtain ⟨mem, keep⟩ := List.mem_filter.mp mem
        refine apart e (mem_pending.mpr ⟨r, mem, ?_, mem'⟩)
        simp only [kept, Bool.eq_false_iff.mpr hidden, Bool.or_false, Bool.and_eq_true] at keep
        exact keep.1
    · rw [if_neg (by simp), layerTreeFromWrites_childCompoundWriteAtPath plainQ
        layered.canonical near part]
      rfl

end FWriteTree

end

namespace FWriteTree

open FCompoundWrite

theorem calculateCompleteEventCacheAtPath_exclude_members :
    membersTree.calculateCompleteEventCacheAtPath annPath (some (members.getChild annPath))
        (some [2]) false =
      some ((written members [(annPath, newAnn), (bobPath ++ [agePiece], .leaf "31" none)]).getChild
        annPath) := by
  refine calculateCompleteEventCacheAtPath_exclude reachable_members plain_memberWrites
    bare_members (by decide +kernel) (by decide +kernel) fun record mem => ?_
  rcases mem with _ | ⟨_, _ | ⟨_, _ | ⟨_, ⟨⟩⟩⟩⟩ <;> trivial

end FWriteTree

end GAMember
