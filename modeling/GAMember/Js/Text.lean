import GAMember.Js.Value
import Mathlib.Data.List.Basic

/-!
# Text the sagas build

The two string functions of the language that the sagas call: the escaping
`replace(/[.]/g, ',')` of an email into a database key, and
`encodeURIComponent` for the body of the token request.
-/

namespace GAMember

/-- `s.replace(/[.]/g, ',')`. -/
def replaceDots (s : String) : String :=
  String.ofList (s.toList.map fun c => if c = '.' then ',' else c)

/-- `v.replace(/[.]/g, ',')`: only a string has a `replace` method. -/
def Val.replaceDots : Val → Option String
  | .str s => some (GAMember.replaceDots s)
  | _ => none

@[simp] theorem Val.replaceDots_str (s : String) :
    (Val.str s).replaceDots = some (GAMember.replaceDots s) := rfl

theorem Val.replaceDots_eq_some {v : Val} {key : String} :
    v.replaceDots = some key ↔ ∃ s, v = .str s ∧ key = GAMember.replaceDots s := by
  cases v <;> simp [Val.replaceDots, eq_comm]

/-- The characters `encodeURIComponent` leaves alone. -/
def uriUnreserved (c : Char) : Bool :=
  c.isAlphanum || c ∈ ['-', '_', '.', '!', '~', '*', '\'', '(', ')']

/-- The upper-case hexadecimal digit of a number below 16. -/
def hexDigit (n : Nat) : Char :=
  if n < 10 then Char.ofNat (48 + n) else Char.ofNat (55 + n)

/-- `%XX` for one byte. -/
def percentByte (b : UInt8) : List Char :=
  ['%', hexDigit (b.toNat / 16), hexDigit (b.toNat % 16)]

/-- `encodeURIComponent`: every other character becomes its percent-encoded
UTF-8 bytes. -/
def encodeURIComponent (s : String) : String :=
  String.ofList (s.toList.flatMap fun c =>
    if uriUnreserved c then [c] else (String.utf8EncodeChar c).flatMap percentByte)

example : encodeURIComponent "a b&c=é" = "a%20b%26c%3D%C3%A9" := by decide

end GAMember
