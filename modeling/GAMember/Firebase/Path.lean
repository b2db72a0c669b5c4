import GAMember.Firebase.Key
import GAMember.Firebase.Tree

/-!
# Paths

A path is a list of pieces, the keys that lead from one node to another. An
`FPath` keeps all pieces it was made from and the number of those already gone
through; only the remaining ones are read, and they are the path here.

`Names` says which keys are in use at a database, and `Keys` that the two orders
of the client, `keyComparator` and `stringComparator`, tell them apart. Of
Foundation's `compare:` no more is assumed.

Two paths are one above the other, or they are `Apart`. A path is read back from
its texts (`segments_text`).
-/

namespace GAMember

/-! ## One above the other -/

section Lists

variable {κ : Type} {a b : κ} {p q r s : List κ}

/-- Neither path leads through the other. -/
def Apart (p q : List κ) : Prop := ¬ p <+: q ∧ ¬ q <+: p

instance [DecidableEq κ] : Decidable (Apart p q) :=
  inferInstanceAs (Decidable (¬ p <+: q ∧ ¬ q <+: p))

theorem Apart.symm (apart : Apart p q) : Apart q p := ⟨apart.2, apart.1⟩

theorem not_apart_nil : ¬ Apart [] q := fun apart => apart.1 q.nil_prefix

theorem apart_cons_cons : Apart (a :: p) (b :: q) ↔ (a = b → Apart p q) := by
  simp only [Apart, List.cons_prefix_cons]
  constructor
  · rintro ⟨first, second⟩ rfl
    exact ⟨fun leads => first ⟨rfl, leads⟩, fun leads => second ⟨rfl, leads⟩⟩
  · intro apart
    refine ⟨?_, ?_⟩
    · rintro ⟨same, leads⟩
      exact (apart same).1 leads
    · rintro ⟨same, leads⟩
      exact (apart same.symm).2 leads

/-- What is below a path is apart from all that the path is apart from. -/
theorem Apart.append (apart : Apart p q) : Apart p (q ++ r) := by
  refine ⟨fun leads => ?_, fun leads => apart.2 ((q.prefix_append r).trans leads)⟩
  rcases List.prefix_or_prefix_of_prefix leads (q.prefix_append r) with above | above
  · exact apart.1 above
  · exact apart.2 above

theorem Apart.append_left (apart : Apart p q) : Apart (p ++ r) q := apart.symm.append.symm

theorem apart_append_left (apart : Apart q r) : Apart (p ++ q) (p ++ r) := by
  induction p with
  | nil => exact apart
  | cons k p ih => exact apart_cons_cons.mpr fun _ => ih

/-- How two paths lie to each other. -/
theorem path_cases (p q : List κ) :
    (∃ r, q = p ++ r) ∨ (∃ k r, p = q ++ k :: r) ∨ Apart p q := by
  by_cases below : p <+: q
  · obtain ⟨r, rfl⟩ := below
    exact .inl ⟨r, rfl⟩
  · by_cases above : q <+: p
    · obtain ⟨r, rfl⟩ := above
      cases r with
      | nil => exact absurd (by simp) below
      | cons k r => exact .inr (.inl ⟨k, r, rfl⟩)
    · exact .inr (.inr ⟨below, above⟩)

end Lists

/-! ## Keys -/

/-- The keys in use at a database. -/
class Names where
  InUse : String → Prop
  ne_empty {s : String} (inUse : InUse s) : s ≠ ""
  no_slash {s : String} (inUse : InUse s) : '/' ∉ s.toList

/-- Keys in use that the client's orders tell apart. -/
class Keys extends Names where
  priority : InUse ".priority"
  /-- `[obj1 compare:obj2]` -/
  stringComparator : String → String → Ordering
  transCmp : Std.TransCmp stringComparator
  eq_of_keyComparator {a b : String} (inUse : InUse a) (inUse' : InUse b)
    (same : keyComparator a b = .eq) : a = b
  eq_of_stringComparator {a b : String} (inUse : InUse a) (inUse' : InUse b)
    (same : stringComparator a b = .eq) : a = b

/-- The keys of which none but `0` reads as 0, with `compare:` by code units. -/
instance codeUnitKeys : Keys where
  InUse s := s ≠ "" ∧ '/' ∉ s.toList ∧ (tryParseStringToInt (utf16 s) = some 0 → s = "0")
  priority := by decide +kernel
  ne_empty inUse := inUse.1
  no_slash inUse := inUse.2.1
  stringComparator a b := compare (utf16 a) (utf16 b)
  transCmp :=
    { eq_swap := Std.OrientedOrd.eq_swap
      isLE_trans := Std.TransOrd.isLE_trans }
  eq_of_keyComparator {a b} inUse inUse' same := by
    rcases (keyComparator_eq_iff a b).mp same with eq | ⟨zero, zero', -⟩
    · exact eq
    · rw [inUse.2.2 zero, inUse'.2.2 zero']
  eq_of_stringComparator inUse inUse' same :=
    utf16_injective (Std.LawfulEqOrd.eq_of_compare same)

instance : DecidablePred codeUnitKeys.InUse := fun s =>
  inferInstanceAs (Decidable
    (s ≠ "" ∧ '/' ∉ s.toList ∧ (tryParseStringToInt (utf16 s) = some 0 → s = "0")))

/-- A piece of a path, or the key of a child. -/
@[ext]
structure Piece [Names] where
  name : String
  inUse : Names.InUse name
  deriving DecidableEq

/-- `[FUtilities keyComparator]`, the order of the children of a node. -/
def keyOrder [Names] (a b : Piece) : Ordering := keyComparator a.name b.name

instance [Names] : Std.TransCmp keyOrder where
  eq_swap {a b} := @Std.OrientedCmp.eq_swap _ keyComparator _ a.name b.name
  isLE_trans {a b c} first second :=
    @Std.TransCmp.isLE_trans _ keyComparator _ a.name b.name c.name first second

section Pieces

variable [Keys]

/-- `@".priority"` -/
def Piece.priority : Piece := ⟨".priority", Keys.priority⟩

/-- `[FUtilities stringComparator]`, the order of the children of an `FImmutableTree`. -/
def stringOrder (a b : Piece) : Ordering := Keys.stringComparator a.name b.name

instance : Std.LawfulEqCmp keyOrder where
  compare_self {a} := @Std.ReflCmp.compare_self _ keyComparator _ a.name
  eq_of_compare {a b} same := Piece.ext (Keys.eq_of_keyComparator a.inUse b.inUse same)

instance : Std.TransCmp stringOrder :=
  haveI := Keys.transCmp
  { eq_swap := fun {a b} => @Std.OrientedCmp.eq_swap _ Keys.stringComparator _ a.name b.name
    isLE_trans := fun {a b c} first second =>
      @Std.TransCmp.isLE_trans _ Keys.stringComparator _ a.name b.name c.name first second }

instance : Std.LawfulEqCmp stringOrder where
  compare_self {a} :=
    haveI := Keys.transCmp
    @Std.ReflCmp.compare_self _ Keys.stringComparator _ a.name
  eq_of_compare {a b} same := Piece.ext (Keys.eq_of_stringComparator a.inUse b.inUse same)

end Pieces

/-! ## Paths -/

section

variable [Names]

/-- The pieces from `pieceNum` on. -/
abbrev FPath : Type := List Piece

namespace FPath

/-- The loop of `contains`: `other` is at least as long. -/
def startsWith : FPath → FPath → Bool
  | thisSeg :: self, otherSeg :: other =>
      if thisSeg = otherSeg then startsWith self other else false
  | _, _ => true

def contains (self other : FPath) : Bool :=
  if self.length > other.length then false else startsWith self other

/-- `toStringWithTrailingSlash:` -/
def toStringWithTrailingSlash (trailingSlash : Bool) (self : FPath) : String :=
  let pathString := String.join (self.map fun piece => "/" ++ piece.name)
  if pathString.length = 0 then "/" else if trailingSlash then pathString ++ "/" else pathString

def wireFormat (self : FPath) : String :=
  if self.isEmpty then "/" else "/".intercalate (self.map Piece.name)

/-- The exception names the two paths as they are where the pieces first differ. -/
def relativePathFrom : FPath → FPath → Except String FPath
  | [], inner => .ok inner
  | outerFront :: outer, innerFront :: inner =>
      if outerFront = innerFront then relativePathFrom outer inner
      else .error ("innerPath (" ++ toStringWithTrailingSlash false (innerFront :: inner) ++
        ") is not within outerPath (" ++
        toStringWithTrailingSlash false (outerFront :: outer) ++ ")")
  | outerFront :: outer, [] =>
      .error ("innerPath (" ++ toStringWithTrailingSlash false [] ++
        ") is not within outerPath (" ++
        toStringWithTrailingSlash false (outerFront :: outer) ++ ")")

/-- `relativePathFrom:to:` where the outer path contains the inner one, as at each place where
it is called: then nothing is raised (`relativePathFrom_eq_ok_iff`). -/
def relativePath (outer inner : FPath) : FPath :=
  match relativePathFrom outer inner with
  | .ok path => path
  | .error _ => []

def child (self childPathObj : FPath) : FPath := self ++ childPathObj

/-- `childFromString:` of a key, which is one segment of a path text (`segments_key`). -/
def childFromString (self : FPath) (childPath : Piece) : FPath := self ++ [childPath]

/-- `compare:` -/
def order : FPath → FPath → Ordering := List.compareLex keyOrder

end FPath

end

/-! ## Segments -/

theorem segments_slash : segments "/" = [] := by decide

theorem segments_slash_append (text : String) : segments ("/" ++ text) = segments text := by
  have split : ("/" ++ text).toList.splitOn '/' = [[]] ++ text.toList.splitOn '/' := by
    rw [String.toList_append]
    exact List.splitOn_append_cons_self [] text.toList
  rw [segments, split]
  rfl

theorem segments_append_slash (text : String) : segments (text ++ "/") = segments text := by
  have split : (text ++ "/").toList.splitOn '/' = text.toList.splitOn '/' ++ [[]] := by
    rw [String.toList_append]
    exact List.splitOn_append_cons_self text.toList []
  rw [segments, split, List.filter_append, List.map_append]
  exact List.append_nil _

/-! ## What a path leads through -/

namespace FPath

section

variable [Names] {p q r : FPath}

theorem startsWith_iff (fits : p.length ≤ q.length) : startsWith p q = true ↔ p <+: q := by
  induction p generalizing q with
  | nil => exact iff_of_true rfl q.nil_prefix
  | cons a p ih =>
      cases q with
      | nil => simp at fits
      | cons b q =>
          rw [startsWith, List.cons_prefix_cons]
          split
          · rename_i same
            rw [ih (Nat.le_of_succ_le_succ fits)]
            simp [same]
          · rename_i other
            simp [other]

theorem contains_iff : p.contains q = true ↔ p <+: q := by
  unfold contains
  split
  · rename_i longer
    exact iff_of_false (by simp) fun leads => Nat.not_le.mpr longer leads.length_le
  · rename_i fits
    exact startsWith_iff (Nat.not_lt.mp fits)

/-- The relative path leads from the outer path to the inner one, and there is one exactly
when the outer path contains the inner one. -/
theorem relativePathFrom_eq_ok_iff : relativePathFrom p q = .ok r ↔ q = p ++ r := by
  induction p generalizing q with
  | nil => simp [relativePathFrom]
  | cons a p ih =>
      cases q with
      | nil => simp [relativePathFrom]
      | cons b q =>
          rw [relativePathFrom]
          split
          · rename_i same
            simp [ih, same]
          · rename_i other
            simp [Ne.symm other]

@[simp] theorem relativePath_append : relativePath p (p ++ r) = r := by
  rw [relativePath, relativePathFrom_eq_ok_iff.mpr rfl]

@[simp] theorem relativePath_nil : relativePath [] p = p := rfl

theorem relativePath_cons {k : Piece} : relativePath (k :: p) (k :: q) = relativePath p q := by
  rw [relativePath, relativePathFrom, if_pos rfl, relativePath]

end

/-- **A path between a path and one that it contains is contained in it as well**, so that
in a sorted list of paths the ones that a path contains follow it at once. -/
theorem prefix_of_between [Keys] {p q r : FPath} (leads : p <+: r) (first : (order p q).isLE = true)
    (second : (order q r).isLE = true) : p <+: q := by
  induction p generalizing q r with
  | nil => exact q.nil_prefix
  | cons a p ih =>
      cases r with
      | nil => simp at leads
      | cons c r =>
          obtain ⟨rfl, below⟩ := List.cons_prefix_cons.mp leads
          cases q with
          | nil => cases first
          | cons b q =>
              simp only [order, List.compareLex_cons_cons] at first second
              cases compared : keyOrder a b with
              | lt =>
                  have back : keyOrder b a = .gt := Std.OrientedCmp.gt_of_lt compared
                  simp [back] at second
              | gt => simp [compared] at first
              | eq =>
                  obtain rfl := Std.LawfulEqCmp.eq_of_compare compared
                  simp only [compared, Ordering.eq_then] at first second
                  exact List.cons_prefix_cons.mpr ⟨rfl, ih below first second⟩

/-! ## Texts -/

section

variable [Names]

theorem filter_pieces (p : FPath) :
    ((p.map fun piece => piece.name.toList).filter (· ≠ [])).map String.ofList =
      p.map Piece.name := by
  induction p with
  | nil => rfl
  | cons piece p ih =>
      have nonempty : piece.name.toList ≠ [] :=
        fun empty => Names.ne_empty piece.inUse (String.toList_eq_nil_iff.mp empty)
      simpa [nonempty, String.ofList_toList] using ih

theorem segments_intercalate (p : FPath) :
    segments ("/".intercalate (p.map Piece.name)) = p.map Piece.name := by
  cases p with
  | nil => rfl
  | cons piece p =>
      have slashless : ∀ l ∈ ((piece :: p).map Piece.name).map String.toList, '/' ∉ l := by
        intro l mem
        simp only [List.map_map, List.mem_map, Function.comp_apply] at mem
        obtain ⟨other, _, rfl⟩ := mem
        exact Names.no_slash other.inUse
      have split := List.splitOn_intercalate '/' slashless (by simp)
      rw [segments, String.toList_intercalate, show "/".toList = ['/'] from rfl, split,
        List.map_map]
      exact filter_pieces (piece :: p)

theorem join_eq_intercalate (piece : Piece) (p : FPath) :
    String.join ((piece :: p).map fun piece => "/" ++ piece.name) =
      "/" ++ "/".intercalate ((piece :: p).map Piece.name) := by
  induction p generalizing piece with
  | nil => simp
  | cons next p ih =>
      rw [List.map_cons, String.join_cons, ih]
      simp [String.append_assoc]

/-- **A path is read back from each of its texts**: the one that is sent to the server and
the two that are shown. -/
theorem segments_text (p : FPath) :
    segments (wireFormat p) = p.map Piece.name ∧
      ∀ trailingSlash,
        segments (toStringWithTrailingSlash trailingSlash p) = p.map Piece.name := by
  cases p with
  | nil => exact ⟨segments_slash, fun _ => segments_slash⟩
  | cons piece p =>
      refine ⟨segments_intercalate (piece :: p), fun trailingSlash => ?_⟩
      have read : segments (String.join ((piece :: p).map fun piece => "/" ++ piece.name)) =
          (piece :: p).map Piece.name := by
        rw [join_eq_intercalate, segments_slash_append]
        exact segments_intercalate (piece :: p)
      have nonempty :
          (String.join ((piece :: p).map fun piece => "/" ++ piece.name)).length ≠ 0 := by
        rw [join_eq_intercalate, String.length_append]
        exact Nat.ne_of_gt (Nat.lt_add_right _ Nat.zero_lt_one)
      unfold toStringWithTrailingSlash
      rw [if_neg nonempty]
      split
      · rw [segments_append_slash, read]
      · exact read

end

end FPath

/-- The keys are told apart by code units. -/
def membersPiece : Piece := ⟨"members", by decide +kernel⟩

def annPath : FPath := [membersPiece, ⟨"ann", by decide +kernel⟩]

example : annPath.toStringWithTrailingSlash false = "/members/ann" := by decide +kernel

end GAMember
