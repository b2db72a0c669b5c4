import GAMember.Js.Value

/-!
# Copying objects

`Object.assign` and the spread syntax copy the own properties of one object over
those of another. A property that both have keeps its place and takes the new
value; new properties follow the old ones.

* `Fields.assign`: the copy, and `find?_assign`, which says what it holds.
* `Fields.get`: reading a property, `undefined` where there is none.
* `Val.own`: the properties a value gives to a spread.
* `Val.orDefault`: the default of a parameter.
-/

namespace GAMember

namespace Fields

/-- `obj.key`. -/
def get (fs : Fields) (key : String) : Val := (fs.find? key).getD .undefined

/-- `fs` with the values `gs` has for its keys. -/
def updated (fs gs : Fields) : Fields :=
  match fs with
  | .nil => .nil
  | .cons k v rest => .cons k ((gs.find? k).getD v) (rest.updated gs)

def append (fs gs : Fields) : Fields :=
  match fs with
  | .nil => gs
  | .cons k v rest => .cons k v (rest.append gs)

/-- The properties of `gs` whose keys `fs` does not have. -/
def missingIn (gs fs : Fields) : Fields :=
  match gs with
  | .nil => .nil
  | .cons k v rest =>
      if (fs.find? k).isSome then rest.missingIn fs else .cons k v (rest.missingIn fs)

/-- `Object.assign(fs, gs)` and `{ ...fs, ...gs }`. -/
def assign (fs gs : Fields) : Fields := (fs.updated gs).append (gs.missingIn fs)

theorem find?_updated (fs gs : Fields) (key : String) :
    (fs.updated gs).find? key = (fs.find? key).map fun v => (gs.find? key).getD v := by
  match fs with
  | .nil => rfl
  | .cons k v rest =>
      rw [updated, find?_cons, find?_cons]
      by_cases same : k = key
      · subst same
        simp
      · rw [if_neg same, if_neg same]
        exact find?_updated rest gs key

theorem find?_append (fs gs : Fields) (key : String) :
    (fs.append gs).find? key = (fs.find? key).or (gs.find? key) := by
  match fs with
  | .nil => rfl
  | .cons k v rest =>
      rw [append, find?_cons, find?_cons]
      by_cases same : k = key
      · simp [same]
      · rw [if_neg same, if_neg same]
        exact find?_append rest gs key

theorem find?_missingIn (gs fs : Fields) (key : String) :
    (gs.missingIn fs).find? key = if (fs.find? key).isSome then none else gs.find? key := by
  match gs with
  | .nil => simp [missingIn]
  | .cons k v rest =>
      have ih := find?_missingIn rest fs key
      rw [missingIn, find?_cons]
      by_cases same : k = key
      · subst same
        by_cases known : (fs.find? k).isSome = true
        · rw [if_pos known, ih, if_pos known, if_pos known]
        · rw [if_neg known, if_neg known, find?_cons, if_pos rfl, if_pos rfl]
      · rw [if_neg same, ← ih]
        by_cases known : (fs.find? k).isSome = true
        · rw [if_pos known]
        · rw [if_neg known, find?_cons, if_neg same]

/-- The new object wins, the old one fills the gaps. -/
theorem find?_assign (fs gs : Fields) (key : String) :
    (fs.assign gs).find? key = (gs.find? key).or (fs.find? key) := by
  rw [assign, find?_append, find?_updated, find?_missingIn]
  cases fs.find? key with
  | none => simp
  | some v => cases gs.find? key <;> rfl

/-- What is missing in `fs` once is missing in it again. -/
theorem missingIn_missingIn (gs fs : Fields) :
    (gs.missingIn fs).missingIn fs = gs.missingIn fs := by
  match gs with
  | .nil => rfl
  | .cons k v rest =>
      have ih := missingIn_missingIn rest fs
      rw [missingIn]
      by_cases known : (fs.find? k).isSome = true
      · rw [if_pos known, ih]
      · rw [if_neg known, missingIn, if_neg known, ih]

end Fields

/-- The characters of a string under their positions. -/
def indexed : Nat → List Char → Fields
  | _, [] => .nil
  | i, c :: rest => .cons (toString i) (.str c.toString) (indexed (i + 1) rest)

namespace Val

/-- The own properties a value gives to `Object.assign` or a spread. -/
def own : Val → Fields
  | .obj fs => fs
  | .str s => indexed 0 s.toList
  | _ => .nil

/-- A parameter with a default: the default stands for `undefined` only. -/
def orDefault (v default : Val) : Val := if v = .undefined then default else v

@[simp] theorem own_obj (fs : Fields) : (Val.obj fs).own = fs := rfl

@[simp] theorem orDefault_undefined (default : Val) : Val.undefined.orDefault default = default :=
  rfl

theorem orDefault_of_ne {v : Val} (given : v ≠ .undefined) (default : Val) :
    v.orDefault default = v := if_neg given

end Val

end GAMember
