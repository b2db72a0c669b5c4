import GAMember.Js.Text

/-!
# The realtime database

A Firebase database is one JSON tree. A reference names a node by a path text,
which is split at its slashes; `once('value')` reads the subtree at a path and
`set` replaces it. Absent nodes read as `null`, and a `null` leaf is the same
as no leaf, so `set` stores its argument with the `null` properties left out.

`set` throws on a value that contains `undefined` or a key that the database
does not admit (`Val.storable`).
-/

namespace GAMember

/-! ## Nodes -/

namespace Val

/-- The children of a node; a leaf has none. -/
def fields : Val → Fields
  | .obj fs => fs
  | _ => .nil

/-- A child of a node, `null` where there is none. -/
def child (v : Val) (key : String) : Val := (v.fields.find? key).getD .null

/-- A node with the given children; one without children is absent. -/
def ofFields : Fields → Val
  | .nil => .null
  | fs => .obj fs

/-- Replace one child of a node; `null` removes it. -/
def setChild (v : Val) (key : String) (c : Val) : Val :=
  if c = .null then ofFields (v.fields.erase key) else .obj (v.fields.insert key c)

/-- The subtree at a path. -/
def atPath (v : Val) : List String → Val
  | [] => v
  | key :: path => (v.child key).atPath path

/-- Replace the subtree at a path. -/
def setAt (v new : Val) : List String → Val
  | [] => new
  | key :: path => v.setChild key ((v.child key).setAt new path)

@[simp] theorem fields_ofFields (fs : Fields) : (ofFields fs).fields = fs := by
  cases fs <;> rfl

@[simp] theorem child_setChild_self (v : Val) (key : String) (c : Val) :
    (v.setChild key c).child key = c := by
  unfold setChild
  split
  · rename_i absent
    simp [child, absent]
  · simp [child, fields]

@[simp] theorem atPath_nil (v : Val) : v.atPath [] = v := rfl

@[simp] theorem atPath_cons (v : Val) (key : String) (path : List String) :
    v.atPath (key :: path) = (v.child key).atPath path := rfl

/-- A written subtree is read back at and below its path. -/
theorem atPath_setAt (v new : Val) (path rest : List String) :
    (v.setAt new path).atPath (path ++ rest) = new.atPath rest := by
  induction path generalizing v with
  | nil => rfl
  | cons key path ih =>
      rw [List.cons_append, setAt, atPath_cons, child_setChild_self]
      exact ih (v.child key)

@[simp] theorem atPath_setAt_self (v new : Val) (path : List String) :
    (v.setAt new path).atPath path = new := by
  simpa using atPath_setAt v new path []

end Val

/-! ## Stored values -/

/-- A key the database admits: not empty, and without the characters that are
special in a path. -/
def validKey (key : String) : Bool :=
  key ≠ "" && key.toList.all fun c => c ∉ ['.', '#', '$', '[', ']', '/']

mutual

/-- Some property, at any depth, is `undefined`. -/
def Val.hasUndefined : Val → Bool
  | .undefined => true
  | .obj fs => fs.hasUndefined
  | _ => false

def Fields.hasUndefined : Fields → Bool
  | .nil => false
  | .cons _ v rest => v.hasUndefined || rest.hasUndefined

end

mutual

/-- Every key, at any depth, is one the database admits. -/
def Val.validKeys : Val → Bool
  | .obj fs => fs.validKeys
  | _ => true

def Fields.validKeys : Fields → Bool
  | .nil => true
  | .cons k v rest => validKey k && v.validKeys && rest.validKeys

end

/-- `set` accepts the value. -/
def Val.storable (v : Val) : Bool := !v.hasUndefined && v.validKeys

mutual

/-- The value as the database keeps it: without `null` properties. -/
def Val.stored : Val → Val
  | .obj fs => .ofFields fs.stored
  | v => v

def Fields.stored : Fields → Fields
  | .nil => .nil
  | .cons k v rest => if v.stored = .null then rest.stored else .cons k v.stored rest.stored

end

@[simp] theorem Val.stored_str (s : String) : (Val.str s).stored = .str s := rfl

@[simp] theorem Val.stored_obj (fs : Fields) : (Val.obj fs).stored = .ofFields fs.stored := rfl

@[simp] theorem Fields.stored_nil : Fields.nil.stored = .nil := rfl

theorem Fields.stored_cons (k : String) (v : Val) (rest : Fields) :
    (Fields.cons k v rest).stored =
      if v.stored = .null then rest.stored else .cons k v.stored rest.stored := rfl

/-- The stored child of a stored object literal, property by property. -/
theorem Fields.find?_stored_cons_of_ne {k key : String} (ne : k ≠ key) (v : Val)
    (rest : Fields) : (Fields.cons k v rest).stored.find? key = rest.stored.find? key := by
  rw [stored_cons]
  split
  · rfl
  · simp [ne]

theorem Fields.find?_stored_cons_self {key : String} {rest : Fields} (v : Val)
    (once : rest.stored.find? key = none) :
    ((Fields.cons key v rest).stored.find? key).getD .null = v.stored := by
  rw [stored_cons]
  split
  · rename_i absent
    rw [once, absent]
    rfl
  · simp

/-- A stored object literal begins with a property exactly when the database keeps
the value of that property. -/
theorem Fields.stored_cons_eq_cons {key : String} {v w : Val} {rest rest' : Fields}
    (once : rest.stored.find? key = none) :
    (Fields.cons key v rest).stored = .cons key w rest' ↔
      (v.stored = w ∧ w ≠ .null) ∧ rest.stored = rest' := by
  rw [stored_cons]
  by_cases absent : v.stored = .null
  · rw [if_pos absent]
    constructor
    · intro same
      rw [same, find?_cons, if_pos rfl] at once
      cases once
    · intro kept
      exact absurd (kept.1.1.symm.trans absent) kept.1.2
  · rw [if_neg absent, Fields.cons.injEq]
    constructor
    · intro same
      exact ⟨⟨same.2.1, same.2.1 ▸ absent⟩, same.2.2⟩
    · intro kept
      exact ⟨rfl, kept.1.1, kept.2⟩

theorem Val.ofFields_eq_obj {fs fs' : Fields} (nonempty : fs' ≠ .nil) :
    Val.ofFields fs = .obj fs' ↔ fs = fs' := by
  cases fs with
  | nil => exact iff_of_false (fun same => by cases same) (fun same => nonempty same.symm)
  | cons k v rest => exact ⟨Val.obj.inj, congrArg Val.obj⟩

/-! ## Paths -/

/-- The nodes a path text names, from the root: empty segments are ignored. -/
def segments (path : String) : List String :=
  ((path.toList.splitOn '/').filter (· ≠ [])).map String.ofList

theorem validKey_toList {key : String} (valid : validKey key = true) :
    key.toList ≠ [] ∧ '/' ∉ key.toList := by
  simp only [validKey, Bool.and_eq_true, decide_eq_true_eq, ne_eq, List.all_eq_true] at valid
  refine ⟨fun empty => valid.1 ?_, fun slash => ?_⟩
  · rw [← String.toList_eq_nil_iff]
    exact empty
  · have := valid.2 '/' slash
    simp at this

@[simp] theorem segments_users : segments "/users" = ["users"] := by decide

/-- A key is one segment of a path text. -/
theorem segments_key {key : String} (nonempty : key.toList ≠ []) (noSlash : '/' ∉ key.toList) :
    segments key = [key] := by
  rw [segments, List.splitOn_eq_singleton noSlash]
  simp [nonempty, String.ofList_toList]

/-- The path of a record names one child of `/users` when its key is admitted. -/
theorem segments_record {key : String} (valid : validKey key = true) :
    segments ("/users/" ++ key) = ["users", key] := by
  obtain ⟨nonempty, noSlash⟩ := validKey_toList valid
  have text : ("/users/" ++ key).toList =
      [] ++ '/' :: ("users".toList ++ '/' :: key.toList) := by
    rw [String.toList_append]
    rfl
  have split : ("/users/" ++ key).toList.splitOn '/' = [[], "users".toList, key.toList] := by
    rw [text, List.splitOn_append_cons_self, List.splitOn_append_cons_self,
      List.splitOn_eq_singleton noSlash]
    rfl
  rw [segments, split]
  simp [nonempty, String.ofList_toList]

example : segments "/users/a,b@c/d" = ["users", "a,b@c", "d"] := by decide

end GAMember
