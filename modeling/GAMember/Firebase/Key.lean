import GAMember.Firebase.Enumerator

/-!
# The order of keys

The children of a node are ordered by `compareKey`: first the keys that read as
32-bit integers, by value and then by length, then all others, by their UTF-16
code units. Two objects, the smallest and the largest name, are put around all
strings.

This is a total preorder (`TransCmp` of `compareKey`), so the dictionaries of
`GAMember.Firebase.Dictionary` may be ordered by it. It is not an order:
`"-0"` and `"00"` are two keys with one place (`keyComparator_eq_iff`).
-/

namespace GAMember

/-! ## Code units -/

/-- The UTF-16 code units of a character. -/
def utf16Units (c : Char) : List Nat :=
  if c.toNat < 0x10000 then [c.toNat]
  else [0xD800 + (c.toNat - 0x10000) / 0x400, 0xDC00 + (c.toNat - 0x10000) % 0x400]

/-- What `characterAtIndex` reads from a string. -/
def utf16 (s : String) : List Nat := s.toList.flatMap utf16Units

theorem char_toNat (c : Char) : c.toNat < 0xD800 ∨ 0xDFFF < c.toNat ∧ c.toNat < 0x110000 :=
  c.valid

theorem utf16Units_append {c c' : Char} {rest rest' : List Nat}
    (same : utf16Units c ++ rest = utf16Units c' ++ rest') : c = c' ∧ rest = rest' := by
  have valid := char_toNat c
  have valid' := char_toNat c'
  have equal (toNat : c.toNat = c'.toNat) : c = c' := Char.toNat_inj.mp toNat
  unfold utf16Units at same
  split at same <;> split at same <;>
    simp only [List.cons_append, List.nil_append, List.cons.injEq] at same
  · exact ⟨equal same.1, same.2⟩
  -- A unit of a pair is a surrogate, which is no character by itself.
  · omega
  · omega
  · exact ⟨equal (by omega), same.2.2⟩

theorem utf16Units_ne_nil (c : Char) (rest : List Nat) : utf16Units c ++ rest ≠ [] := by
  unfold utf16Units
  split <;> simp

theorem flatMap_utf16Units_injective {l l' : List Char}
    (same : l.flatMap utf16Units = l'.flatMap utf16Units) : l = l' := by
  induction l generalizing l' with
  | nil =>
      cases l' with
      | nil => rfl
      | cons c' l' => exact absurd same.symm (utf16Units_ne_nil c' _)
  | cons c l ih =>
      cases l' with
      | nil => exact absurd same (utf16Units_ne_nil c _)
      | cons c' l' =>
          rcases utf16Units_append same with ⟨rfl, rest⟩
          rw [ih rest]

theorem utf16_injective {a b : String} (same : utf16 a = utf16 b) : a = b :=
  String.toList_injective (flatMap_utf16Units_injective same)

/-! ## Integers -/

/-- The loop over the digits; a `-` is only taken in the first place. -/
def parseDigits : Nat → List Nat → Option Nat
  | value, [] => some value
  | value, c :: rest =>
      if c < 48 ∨ c > 57 then none else parseDigits (value * 10 + (c - 48)) rest

/-- Eleven digits do not overflow the 64 bits of `value`. -/
def tryParseStringToInt (str : List Nat) : Option Int :=
  if str.length > 11 ∨ str.length = 0 then none
  else
    match str with
    | 45 :: rest =>
        if rest.length = 0 then none
        else
          (parseDigits 0 rest).bind fun value =>
            if -(value : Int) < -2147483648 ∨ -(value : Int) > 2147483647 then none
            else some (-(value : Int))
    | _ =>
        (parseDigits 0 str).bind fun value =>
          if (value : Int) < -2147483648 ∨ (value : Int) > 2147483647 then none
          else some (value : Int)

/-! ## Comparing keys -/

/-- What the name of a child may be: one of the two objects, or a string. -/
inductive ChildName
  | minName
  | maxName
  | string (s : String)
  deriving DecidableEq, Repr

/-- `compareKey` on two strings that are neither of the two objects. -/
def compareStrings (a b : String) : Ordering :=
  match tryParseStringToInt (utf16 a), tryParseStringToInt (utf16 b) with
  | some aAsInt, some bAsInt =>
      if aAsInt > bAsInt then .gt
      else if aAsInt < bAsInt then .lt
      else if (utf16 a).length > (utf16 b).length then .gt
      else if (utf16 a).length < (utf16 b).length then .lt
      else .eq
  | some _, none => .lt
  | none, some _ => .gt
  | none, none => compare (utf16 a) (utf16 b)

/-- The tests for the two objects are tests for identity. That two strings are one object
is tested as well; such strings compare equal in any case. -/
def compareKey : ChildName → ChildName → Ordering
  | .minName, .minName => .eq
  | .maxName, .maxName => .eq
  | .minName, _ => .lt
  | _, .maxName => .lt
  | _, .minName => .gt
  | .maxName, _ => .gt
  | .string a, .string b => compareStrings a b

/-- `keyComparator`, on the keys of children. -/
def keyComparator (a b : String) : Ordering := compareKey (.string a) (.string b)

/-! ## A total preorder -/

/-- Value first, then length. -/
def compareInts (a b : Int × Nat) : Ordering :=
  compareLex (compareOn Prod.fst) (compareOn Prod.snd) a b

instance : Std.TransCmp compareInts :=
  inferInstanceAs (Std.TransCmp (compareLex (compareOn Prod.fst) (compareOn Prod.snd)))

/-- `compareStrings` in terms of the comparisons it is made of. -/
theorem compareStrings_eq (a b : String) :
    compareStrings a b =
      match tryParseStringToInt (utf16 a), tryParseStringToInt (utf16 b) with
      | some i, some j => compareInts (i, (utf16 a).length) (j, (utf16 b).length)
      | some _, none => .lt
      | none, some _ => .gt
      | none, none => compare (utf16 a) (utf16 b) := by
  rw [compareStrings]
  split
  · rename_i i j _ _
    simp only [compareInts, compareLex, compareOn, Int.compare_eq_ite_lt, Nat.compare_eq_ite_lt]
    by_cases more : i > j
    · simp [more, Int.not_lt.mpr (Int.le_of_lt more)]
    · by_cases less : i < j
      · simp [more, less]
      · simp only [more, less, if_false, Ordering.eq_then]
        by_cases longer : (utf16 a).length > (utf16 b).length
        · simp [longer, Nat.not_lt.mpr (Nat.le_of_lt longer)]
        · simp [longer]
  all_goals rfl

instance : Std.TransCmp compareStrings where
  eq_swap {a b} := by
    rw [compareStrings_eq, compareStrings_eq b a]
    cases tryParseStringToInt (utf16 a) <;> cases tryParseStringToInt (utf16 b)
    · exact Std.OrientedOrd.eq_swap
    · rfl
    · rfl
    · exact @Std.OrientedCmp.eq_swap _ compareInts _ _ _
  isLE_trans {a b c} first second := by
    rw [compareStrings_eq] at first second ⊢
    -- An integer is below every key that is none, so only like keys are left to compare.
    cases hasA : tryParseStringToInt (utf16 a) <;> cases hasB : tryParseStringToInt (utf16 b) <;>
      cases hasC : tryParseStringToInt (utf16 c) <;> simp only [hasA, hasB, hasC] at first second ⊢
    · exact Std.TransOrd.isLE_trans first second
    · cases second
    · cases first
    · cases first
    · rfl
    · cases second
    · rfl
    · exact Std.TransCmp.isLE_trans first second

instance : Std.TransCmp compareKey where
  eq_swap {a b} := by
    cases a <;> cases b <;> first | rfl | exact @Std.OrientedCmp.eq_swap _ compareStrings _ _ _
  isLE_trans {a b c} first second := by
    cases a with
    | minName => cases c <;> rfl
    | maxName =>
        cases b with
        | minName => cases first
        | maxName => exact second
        | string b => cases first
    | string a =>
        cases b with
        | minName => cases first
        | maxName =>
            cases c with
            | minName => cases second
            | maxName => rfl
            | string c => cases second
        | string b =>
            cases c with
            | minName => cases second
            | maxName => rfl
            | string c => exact @Std.TransCmp.isLE_trans _ compareStrings _ _ _ _ first second

instance : Std.TransCmp keyComparator :=
  inferInstanceAs (Std.TransCmp compareStrings)

/-! ## Which keys have one place -/

/-- Digits of one number read from one place on are the same digits. -/
theorem parseDigits_inj {value value' n : Nat} {str str' : List Nat}
    (parsed : parseDigits value str = some n) (parsed' : parseDigits value' str' = some n)
    (length : str.length = str'.length) : value = value' ∧ str = str' := by
  induction str generalizing value value' str' with
  | nil =>
      obtain rfl : str' = [] := List.length_eq_zero_iff.mp length.symm
      simp only [parseDigits, Option.some.injEq] at parsed parsed'
      exact ⟨parsed.trans parsed'.symm, rfl⟩
  | cons c str ih =>
      cases str' with
      | nil => simp at length
      | cons c' str' =>
          rw [parseDigits] at parsed parsed'
          split at parsed
          · cases parsed
          · split at parsed'
            · cases parsed'
            · rcases ih parsed parsed' (Nat.succ.inj length) with ⟨same, rfl⟩
              have digit : value = value' ∧ c = c' := by omega
              exact ⟨digit.1, by rw [digit.2]⟩

/-- What is read as an integer: digits, or digits after a `-`. -/
theorem tryParseStringToInt_some {str : List Nat} {i : Int}
    (parsed : tryParseStringToInt str = some i) :
    ∃ n : Nat, (∃ rest, str = 45 :: rest ∧ parseDigits 0 rest = some n ∧ i = -(n : Int)) ∨
      parseDigits 0 str = some n ∧ i = n := by
  unfold tryParseStringToInt at parsed
  split at parsed
  · cases parsed
  · split at parsed
    · rename_i rest _
      split at parsed
      · cases parsed
      · obtain ⟨n, digits, inRange⟩ := Option.bind_eq_some_iff.mp parsed
        split at inRange
        · cases inRange
        · exact ⟨n, .inl ⟨rest, rfl, digits, (Option.some.inj inRange).symm⟩⟩
    · obtain ⟨n, digits, inRange⟩ := Option.bind_eq_some_iff.mp parsed
      split at inRange
      · cases inRange
      · exact ⟨n, .inr ⟨digits, (Option.some.inj inRange).symm⟩⟩

/-- Two keys of one length that read as one number other than 0 are one key. -/
theorem tryParseStringToInt_inj {a b : List Nat} {i : Int}
    (parsed : tryParseStringToInt a = some i) (parsed' : tryParseStringToInt b = some i)
    (length : a.length = b.length) (nonzero : i ≠ 0) : a = b := by
  obtain ⟨n, ⟨rest, rfl, digits, value⟩ | ⟨digits, value⟩⟩ := tryParseStringToInt_some parsed <;>
    obtain ⟨n', ⟨rest', rfl, digits', value'⟩ | ⟨digits', value'⟩⟩ :=
      tryParseStringToInt_some parsed'
  · obtain rfl : n = n' := by omega
    rw [(parseDigits_inj digits digits' (Nat.succ.inj length)).2]
  · omega
  · omega
  · obtain rfl : n = n' := by omega
    exact (parseDigits_inj digits digits' length).2

theorem compareInts_eq_iff (a b : Int × Nat) : compareInts a b = .eq ↔ a = b := by
  simp [compareInts, compareLex, compareOn, Ordering.then_eq_eq, Prod.ext_iff]

/-- Two keys have one place if and only if they are one key, or both read as 0 and have one
length. -/
theorem keyComparator_eq_iff (a b : String) :
    keyComparator a b = .eq ↔
      a = b ∨ tryParseStringToInt (utf16 a) = some 0 ∧ tryParseStringToInt (utf16 b) = some 0 ∧
        (utf16 a).length = (utf16 b).length := by
  change compareStrings a b = .eq ↔ _
  rw [compareStrings_eq]
  constructor
  · intro same
    cases hasA : tryParseStringToInt (utf16 a) with
    | none =>
        cases hasB : tryParseStringToInt (utf16 b) with
        | none =>
            simp only [hasA, hasB] at same
            exact .inl (utf16_injective (Std.LawfulEqOrd.eq_of_compare same))
        | some j => simp [hasA, hasB] at same
    | some i =>
        cases hasB : tryParseStringToInt (utf16 b) with
        | none => simp [hasA, hasB] at same
        | some j =>
            simp only [hasA, hasB, compareInts_eq_iff, Prod.mk.injEq] at same
            rcases same with ⟨rfl, length⟩
            by_cases zero : i = 0
            · subst zero
              exact .inr ⟨rfl, rfl, length⟩
            · exact .inl (utf16_injective (tryParseStringToInt_inj hasA hasB length zero))
  · rintro (rfl | ⟨hasA, hasB, length⟩)
    · cases hasA : tryParseStringToInt (utf16 a) with
      | none => exact Std.ReflOrd.compare_self
      | some i => exact (compareInts_eq_iff _ _).mpr rfl
    · simp only [hasA, hasB, length]
      exact (compareInts_eq_iff _ _).mpr rfl

example : keyComparator "-0" "00" = .eq := by decide +kernel

/-- **The order of names is a total preorder, and this is all it confuses.** -/
theorem compareKey_spec :
    (∀ a b, compareKey a b = (compareKey b a).swap) ∧
      (∀ a b c, (compareKey a b).isLE = true → (compareKey b c).isLE = true →
        (compareKey a c).isLE = true) ∧
      ∀ a b, compareKey a b = .eq ↔ a = b ∨ ∃ s t, a = .string s ∧ b = .string t ∧
        tryParseStringToInt (utf16 s) = some 0 ∧ tryParseStringToInt (utf16 t) = some 0 ∧
        (utf16 s).length = (utf16 t).length := by
  refine ⟨fun a b => Std.OrientedCmp.eq_swap, fun a b c => Std.TransCmp.isLE_trans,
    fun a b => ?_⟩
  cases a with
  | minName => cases b <;> simp [compareKey]
  | maxName => cases b <;> simp [compareKey]
  | string s =>
      cases b with
      | minName => simp [compareKey]
      | maxName => simp [compareKey]
      | string t =>
          refine (keyComparator_eq_iff s t).trans (or_congr (by simp) ?_)
          simp

/-! ## The names of the items of an array -/

theorem isDigit_toNat {c : Char} (digit : c.isDigit = true) : 48 ≤ c.toNat ∧ c.toNat ≤ 57 := by
  rw [Char.isDigit, Bool.and_eq_true, decide_eq_true_eq, decide_eq_true_eq] at digit
  exact ⟨UInt32.le_iff_toNat_le.mp digit.1, UInt32.le_iff_toNat_le.mp digit.2⟩

theorem parseDigits_digits {digits : List Char} (all : ∀ c ∈ digits, c.isDigit = true)
    (value : Nat) :
    parseDigits value (digits.flatMap utf16Units) = some (Nat.ofDigitChars 10 digits value) := by
  induction digits generalizing value with
  | nil => simp [parseDigits]
  | cons c digits ih =>
      have range := isDigit_toNat (all c List.mem_cons_self)
      have units : utf16Units c = [c.toNat] := if_pos (by omega)
      rw [List.flatMap_cons, units, List.singleton_append, parseDigits, if_neg (by omega),
        ih (fun c' mem => all c' (List.mem_cons_of_mem c mem)), Nat.ofDigitChars_cons,
        Nat.mul_comm value 10]
      rfl

theorem isDigit_of_mem_toString {i : Nat} {c : Char} (mem : c ∈ (toString i).toList) :
    c.isDigit = true := by
  rw [Nat.toString_eq_repr, Nat.toList_repr] at mem
  exact Nat.isDigit_of_mem_toDigits (by decide) (by decide) mem

theorem parseDigits_toString (i : Nat) : parseDigits 0 (utf16 (toString i)) = some i := by
  rw [utf16, parseDigits_digits fun c => isDigit_of_mem_toString, Nat.toString_eq_repr,
    Nat.toList_repr, Nat.ofDigitChars_ten_toDigits]

/-- Only the first of them reads as 0. -/
theorem toString_of_tryParseStringToInt {i : Nat}
    (zero : tryParseStringToInt (utf16 (toString i)) = some 0) : toString i = "0" := by
  have digits := parseDigits_toString i
  obtain ⟨n, ⟨rest, minus, -⟩ | ⟨parsed, value⟩⟩ := tryParseStringToInt_some zero
  · rw [minus, parseDigits, if_pos (by omega)] at digits
    contradiction
  · rw [digits, Option.some.injEq] at parsed
    obtain rfl : i = 0 := by omega
    rfl

end GAMember
