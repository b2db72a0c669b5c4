import Mathlib.Tactic.Common

/-!
# JavaScript values

The data the app passes around: user objects of the Google SDK, database
snapshots, response bodies. A value is what JSON can carry, plus `undefined`.
Numbers are integers, since no modelled code computes with them; functions and
object identity do not occur.

* `Val.prop`: property access, `none` where JavaScript throws a `TypeError`.
* `Val.truthy`: the test of an `if`.
* `Val.toText`: conversion to text in a template literal.
-/

namespace GAMember

mutual

inductive Val
  | undefined
  | null
  | bool (b : Bool)
  | num (n : Int)
  | str (s : String)
  | obj (fields : Fields)
  deriving DecidableEq

/-- The own properties of an object, in insertion order. -/
inductive Fields
  | nil
  | cons (key : String) (value : Val) (rest : Fields)
  deriving DecidableEq

end

namespace Fields

/-- The value of a property; the first one counts where a key occurs twice. -/
def find? (key : String) : Fields → Option Val
  | .nil => none
  | .cons k v rest => if k = key then some v else rest.find? key

/-- Assign to a property: in place where the key exists, at the end otherwise. -/
def insert (key : String) (value : Val) : Fields → Fields
  | .nil => .cons key value .nil
  | .cons k v rest => if k = key then .cons key value rest else .cons k v (rest.insert key value)

/-- Remove a property. -/
def erase (key : String) : Fields → Fields
  | .nil => .nil
  | .cons k v rest => if k = key then rest.erase key else .cons k v (rest.erase key)

def ofList : List (String × Val) → Fields
  | [] => .nil
  | (k, v) :: rest => .cons k v (ofList rest)

@[simp] theorem find?_nil (key : String) : Fields.nil.find? key = none := rfl

@[simp] theorem find?_cons (key k : String) (v : Val) (rest : Fields) :
    (Fields.cons k v rest).find? key = if k = key then some v else rest.find? key := rfl

@[simp] theorem ofList_nil : ofList [] = .nil := rfl

@[simp] theorem ofList_cons (k : String) (v : Val) (rest : List (String × Val)) :
    ofList ((k, v) :: rest) = .cons k v (ofList rest) := rfl

@[simp] theorem find?_insert_self (key : String) (value : Val) (fs : Fields) :
    (fs.insert key value).find? key = some value := by
  match fs with
  | .nil => simp [insert]
  | .cons k v rest =>
      by_cases same : k = key
      · simp [insert, same]
      · simp [insert, same, find?_insert_self key value rest]

theorem find?_insert_of_ne {key other : String} (ne : key ≠ other) (value : Val)
    (fs : Fields) : (fs.insert key value).find? other = fs.find? other := by
  match fs with
  | .nil => simp [insert, ne]
  | .cons k v rest =>
      by_cases same : k = key
      · subst same
        simp [insert, ne]
      · simp [insert, same, find?_insert_of_ne ne value rest]

@[simp] theorem find?_erase_self (key : String) (fs : Fields) :
    (fs.erase key).find? key = none := by
  match fs with
  | .nil => rfl
  | .cons k v rest =>
      by_cases same : k = key
      · simp [erase, same, find?_erase_self key rest]
      · simp [erase, same, find?_erase_self key rest]

end Fields

namespace Val

/-- An object literal. -/
def object (fields : List (String × Val)) : Val := .obj (.ofList fields)

/-- `v.key`: reading a property of `undefined` or `null` throws, reading one
that is not there gives `undefined`. -/
def prop (v : Val) (key : String) : Option Val :=
  match v with
  | .undefined => none
  | .null => none
  | .obj fs => some ((fs.find? key).getD .undefined)
  | _ => some .undefined

/-- Whether the value counts as true in a condition. -/
def truthy : Val → Bool
  | .undefined => false
  | .null => false
  | .bool b => b
  | .num n => n != 0
  | .str s => s != ""
  | .obj _ => true

/-- The text of the value inside a template literal. -/
def toText : Val → String
  | .undefined => "undefined"
  | .null => "null"
  | .bool b => if b then "true" else "false"
  | .num n => toString n
  | .str s => s
  | .obj _ => "[object Object]"

@[simp] theorem prop_undefined (key : String) : Val.undefined.prop key = none := rfl

@[simp] theorem prop_null (key : String) : Val.null.prop key = none := rfl

@[simp] theorem prop_obj (fs : Fields) (key : String) :
    (Val.obj fs).prop key = some ((fs.find? key).getD .undefined) := rfl

@[simp] theorem toText_undefined : Val.undefined.toText = "undefined" := rfl

@[simp] theorem toText_str (s : String) : (Val.str s).toText = s := rfl

@[simp] theorem truthy_undefined : Val.undefined.truthy = false := rfl

@[simp] theorem truthy_null : Val.null.truthy = false := rfl

@[simp] theorem truthy_obj (fs : Fields) : (Val.obj fs).truthy = true := rfl

@[simp] theorem truthy_object (fs : List (String × Val)) : (object fs).truthy = true := rfl

/-- Property access throws on `undefined` and `null` only. -/
theorem prop_eq_none {v : Val} {key : String} :
    v.prop key = none ↔ v = .undefined ∨ v = .null := by
  cases v <;> simp [prop]

/-- A value that passes a condition has properties. -/
theorem prop_of_truthy {v : Val} (truthy : v.truthy = true) (key : String) :
    ∃ field, v.prop key = some field := by
  cases absent : v.prop key with
  | some field => exact ⟨field, rfl⟩
  | none =>
      rcases prop_eq_none.mp absent with rfl | rfl
      · cases truthy
      · cases truthy

/-- A value with one property to read has every property to read. -/
theorem prop_of_prop {v field : Val} {key : String} (readable : v.prop key = some field)
    (other : String) : ∃ field', v.prop other = some field' := by
  cases absent : v.prop other with
  | some field' => exact ⟨field', rfl⟩
  | none =>
      rw [prop_eq_none.mpr (prop_eq_none.mp absent)] at readable
      cases readable

end Val

end GAMember
