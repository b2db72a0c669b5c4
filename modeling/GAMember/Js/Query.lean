import GAMember.Js.Text
import Mathlib.Data.List.TakeWhile

/-!
# Reading a query

The receiver's side of a query or an urlencoded body: the text is cut at `#`, split
at `&` and at the first `=`, a `+` stands for a blank, `%XX` for a byte, and the bytes
are UTF-8. A percent sign that no two hexadecimal digits follow stands for itself.

* `decodeComponent_encodeURIComponent`: what `encodeURIComponent` made is read back.
* `decodeComponent_eq_self`: which texts are read back as they are.
* `decodeBody_intercalate`: a body of encoded values is read back.
* `valueOf_decodeQuery`: which values come back from a URL they were put in as they are.
-/

namespace GAMember

/-! ## UTF-8 -/

/-- The UTF-8 bytes of a text. -/
def utf8Bytes (cs : List Char) : List UInt8 := cs.flatMap String.utf8EncodeChar

/-- The text that has these UTF-8 bytes, if any. -/
def utf8Text (bytes : List UInt8) : Option (List Char) :=
  bytes.toByteArray.utf8Decode?.map Array.toList

@[simp] theorem utf8Bytes_cons (c : Char) (cs : List Char) :
    utf8Bytes (c :: cs) = String.utf8EncodeChar c ++ utf8Bytes cs := rfl

@[simp] theorem utf8Bytes_append (cs cs' : List Char) :
    utf8Bytes (cs ++ cs') = utf8Bytes cs ++ utf8Bytes cs' := List.flatMap_append

theorem utf8Text_eq_some {bytes : List UInt8} {cs : List Char} :
    utf8Text bytes = some cs ↔ bytes = utf8Bytes cs := by
  constructor
  · intro decodes
    obtain ⟨text, decoded, rfl⟩ := Option.map_eq_some_iff.mp decodes
    have encoded := ByteArray.utf8Encode_get_utf8Decode? (b := bytes.toByteArray)
      (h := by rw [decoded]; rfl)
    simp only [decoded, Option.get_some, List.utf8Encode] at encoded
    exact (List.toByteArray_inj.mp encoded).symm
  · intro same
    subst same
    have decoded := List.utf8Decode?_utf8Encode (l := cs)
    rw [List.utf8Encode] at decoded
    rw [utf8Text, utf8Bytes, decoded]
    rfl

theorem utf8Bytes_injective {cs cs' : List Char} (same : utf8Bytes cs = utf8Bytes cs') :
    cs = cs' := by
  have first := utf8Text_eq_some.mpr same
  have second := utf8Text_eq_some.mpr (rfl : utf8Bytes cs = utf8Bytes cs)
  exact Option.some.inj (second.symm.trans first)

theorem length_utf8EncodeChar_pos (c : Char) : 0 < (String.utf8EncodeChar c).length := by
  rw [String.length_utf8EncodeChar]
  exact c.utf8Size_pos

/-! ## Percent decoding -/

/-- The value of a hexadecimal digit. -/
def hexValue (c : Char) : Option Nat :=
  if '0' ≤ c ∧ c ≤ '9' then some (c.toNat - '0'.toNat)
  else if 'A' ≤ c ∧ c ≤ 'F' then some (c.toNat - 'A'.toNat + 10)
  else if 'a' ≤ c ∧ c ≤ 'f' then some (c.toNat - 'a'.toNat + 10)
  else none

/-- The byte that two hexadecimal digits stand for. -/
def hexByte (a b : Char) : Option UInt8 := do
  let high ← hexValue a
  let low ← hexValue b
  some (UInt8.ofNat (16 * high + low))

/-- The bytes of a text with its `%XX` decoded. -/
def percentDecode : List Char → List UInt8
  | '%' :: a :: b :: rest =>
      match hexByte a b with
      | some byte => byte :: percentDecode rest
      | none => String.utf8EncodeChar '%' ++ percentDecode (a :: b :: rest)
  | c :: rest => String.utf8EncodeChar c ++ percentDecode rest
  | [] => []

/-- The text has a percent sign with two hexadecimal digits after it. -/
def hasEscape : List Char → Bool
  | '%' :: a :: b :: rest => (hexByte a b).isSome || hasEscape (a :: b :: rest)
  | _ :: rest => hasEscape rest
  | [] => false

theorem percentDecode_cons_of_ne {c : Char} (ne : c ≠ '%') (rest : List Char) :
    percentDecode (c :: rest) = String.utf8EncodeChar c ++ percentDecode rest := by
  match rest with
  | [] => simp [percentDecode]
  | [_] => simp [percentDecode]
  | _ :: _ :: _ => simp [percentDecode, ne]

/-- Without an escape the bytes are those of the text. -/
theorem percentDecode_of_not_hasEscape {cs : List Char} (plain : hasEscape cs = false) :
    percentDecode cs = utf8Bytes cs := by
  fun_induction percentDecode cs with
  | case1 a b rest byte decoded ih => simp [hasEscape, decoded] at plain
  | case2 a b rest invalid ih =>
      rw [hasEscape, invalid, Option.isSome_none, Bool.false_or] at plain
      rw [ih plain]
      rfl
  | case3 c rest other ih =>
      rw [hasEscape] at plain
      · rw [ih plain]
        rfl
      · exact other
  | case4 => rfl

/-- An escape makes the bytes fewer. -/
theorem length_percentDecode_lt {cs : List Char} (escaped : hasEscape cs = true) :
    (percentDecode cs).length < (utf8Bytes cs).length := by
  fun_induction percentDecode cs with
  | case1 a b rest byte decoded ih =>
      have within : (percentDecode rest).length ≤ (utf8Bytes rest).length := by
        cases later : hasEscape rest with
        | true => exact Nat.le_of_lt (ih later)
        | false => exact Nat.le_of_eq (congrArg List.length (percentDecode_of_not_hasEscape later))
      have first := length_utf8EncodeChar_pos '%'
      have second := length_utf8EncodeChar_pos a
      have third := length_utf8EncodeChar_pos b
      simp only [utf8Bytes_cons, List.length_cons, List.length_append]
      omega
  | case2 a b rest invalid ih =>
      rw [hasEscape, invalid, Option.isSome_none, Bool.false_or] at escaped
      have fewer := ih escaped
      rw [utf8Bytes_cons, List.length_append, List.length_append]
      omega
  | case3 c rest other ih =>
      rw [hasEscape] at escaped
      · have fewer := ih escaped
        rw [utf8Bytes_cons, List.length_append, List.length_append]
        omega
      · exact other
  | case4 => cases escaped

theorem length_percentDecode_le (cs : List Char) :
    (percentDecode cs).length ≤ (utf8Bytes cs).length := by
  cases escaped : hasEscape cs with
  | true => exact Nat.le_of_lt (length_percentDecode_lt escaped)
  | false => exact Nat.le_of_eq (congrArg List.length (percentDecode_of_not_hasEscape escaped))

/-! ## Components -/

def plusToSpace (c : Char) : Char := if c = '+' then ' ' else c

/-- The text of a name or a value, `none` where its bytes are not UTF-8. -/
def decodeComponent (cs : List Char) : Option String :=
  (utf8Text (percentDecode (cs.map plusToSpace))).map String.ofList

theorem decodeComponent_eq_some {cs : List Char} {s : String} :
    decodeComponent cs = some s ↔ percentDecode (cs.map plusToSpace) = utf8Bytes s.toList := by
  rw [← utf8Text_eq_some, decodeComponent, Option.map_eq_some_iff]
  constructor
  · intro decodes
    rcases decodes with ⟨text, decoded, rfl⟩
    rw [decoded, String.toList_ofList]
  · intro decoded
    exact ⟨s.toList, decoded, String.ofList_toList⟩

theorem length_plusToSpace (cs : List Char) :
    (utf8Bytes (cs.map plusToSpace)).length = (utf8Bytes cs).length := by
  induction cs with
  | nil => rfl
  | cons c cs ih =>
      rw [List.map_cons, utf8Bytes_cons, utf8Bytes_cons, List.length_append, List.length_append,
        ih, plusToSpace]
      by_cases plus : c = '+'
      · subst plus
        rfl
      · rw [if_neg plus]

/-- Decoding never makes a text longer. -/
theorem length_of_decodes {cs : List Char} {s : String} (decodes : decodeComponent cs = some s) :
    (utf8Bytes s.toList).length ≤ (utf8Bytes cs).length := by
  rw [← decodeComponent_eq_some.mp decodes, ← length_plusToSpace cs]
  exact length_percentDecode_le _

theorem map_plusToSpace {cs : List Char} (noPlus : '+' ∉ cs) : cs.map plusToSpace = cs := by
  have same : ∀ c ∈ cs, plusToSpace c = id c := by
    intro c member
    refine if_neg fun plus => ?_
    subst plus
    exact noPlus member
  rw [List.map_congr_left same, List.map_id]

/-- **A text is read back as it is exactly when** it has no `+` and no escape. -/
theorem decodeComponent_eq_self {s : String} :
    decodeComponent s.toList = some s ↔ '+' ∉ s.toList ∧ hasEscape s.toList = false := by
  rw [decodeComponent_eq_some]
  constructor
  · intro decoded
    have plain : hasEscape (s.toList.map plusToSpace) = false := by
      by_contra escaped
      have fewer := length_percentDecode_lt (Bool.not_eq_false _ ▸ escaped)
      rw [decoded, length_plusToSpace] at fewer
      exact absurd fewer (Nat.lt_irrefl _)
    rw [percentDecode_of_not_hasEscape plain] at decoded
    have same := utf8Bytes_injective decoded
    rw [same] at plain
    refine ⟨fun plus => ?_, plain⟩
    rw [← same] at plus
    obtain ⟨c, -, image⟩ := List.mem_map.mp plus
    unfold plusToSpace at image
    split at image
    · cases image
    · contradiction
  · intro clean
    rw [map_plusToSpace clean.1, percentDecode_of_not_hasEscape clean.2]

/-! ## What `encodeURIComponent` makes -/

theorem hexValue_hexDigit : ∀ n < 16, hexValue (hexDigit n) = some n := by decide

theorem uriUnreserved_hexDigit : ∀ n < 16, uriUnreserved (hexDigit n) = true := by decide

theorem hexByte_hexDigits (b : UInt8) :
    hexByte (hexDigit (b.toNat / 16)) (hexDigit (b.toNat % 16)) = some b := by
  have below : b.toNat < 256 := b.toNat_lt
  have high := hexValue_hexDigit (b.toNat / 16) (by omega)
  have low := hexValue_hexDigit (b.toNat % 16) (by omega)
  simp only [hexByte, high, low, Option.bind_eq_bind, Option.bind_some, Nat.div_add_mod,
    UInt8.ofNat_toNat]

theorem percentDecode_percentByte (b : UInt8) (rest : List Char) :
    percentDecode (percentByte b ++ rest) = b :: percentDecode rest := by
  simp only [percentByte, List.cons_append, List.nil_append, percentDecode, hexByte_hexDigits]

theorem percentDecode_percentBytes (bytes : List UInt8) (rest : List Char) :
    percentDecode (bytes.flatMap percentByte ++ rest) = bytes ++ percentDecode rest := by
  induction bytes with
  | nil => rfl
  | cons b bytes ih =>
      rw [List.flatMap_cons, List.append_assoc, percentDecode_percentByte, ih]
      rfl

/-- The characters of an encoded text. -/
theorem mem_encodeURIComponent {s : String} {c : Char}
    (member : c ∈ (encodeURIComponent s).toList) : uriUnreserved c = true ∨ c = '%' := by
  rw [encodeURIComponent, String.toList_ofList] at member
  obtain ⟨d, -, member⟩ := List.mem_flatMap.mp member
  split at member
  · rename_i unreserved
    cases List.mem_singleton.mp member
    exact Or.inl unreserved
  · obtain ⟨b, -, member⟩ := List.mem_flatMap.mp member
    have below : b.toNat < 256 := b.toNat_lt
    simp only [percentByte, List.mem_cons, List.not_mem_nil, or_false] at member
    rcases member with rfl | rfl | rfl
    · exact Or.inr rfl
    · exact Or.inl (uriUnreserved_hexDigit _ (by omega))
    · exact Or.inl (uriUnreserved_hexDigit _ (by omega))

/-- No separator is in an encoded text. -/
theorem not_mem_encodeURIComponent {sep : Char} (s : String)
    (reserved : uriUnreserved sep = false) (other : sep ≠ '%') :
    sep ∉ (encodeURIComponent s).toList := by
  intro member
  rcases mem_encodeURIComponent member with unreserved | percent
  · rw [reserved] at unreserved
    cases unreserved
  · exact other percent

/-- **What `encodeURIComponent` made is read back.** -/
theorem decodeComponent_encodeURIComponent (s : String) :
    decodeComponent (encodeURIComponent s).toList = some s := by
  rw [decodeComponent_eq_some,
    map_plusToSpace (not_mem_encodeURIComponent s (by decide) (by decide)),
    encodeURIComponent, String.toList_ofList]
  induction s.toList with
  | nil => rfl
  | cons c cs ih =>
      rw [List.flatMap_cons, utf8Bytes_cons, ← ih]
      split
      · rename_i unreserved
        refine percentDecode_cons_of_ne ?_ _
        rintro rfl
        exact absurd unreserved (by decide)
      · exact percentDecode_percentBytes _ _

/-! ## Forms -/

/-- The text before the first `#`. -/
def cutFragment (cs : List Char) : List Char := cs.takeWhile (· ≠ '#')

/-- A parameter `name=value`, cut at the first `=`. -/
def decodeParameter (cs : List Char) : Option (String × String) := do
  let name ← decodeComponent (cs.takeWhile (· ≠ '='))
  let value ← decodeComponent ((cs.dropWhile (· ≠ '=')).drop 1)
  some (name, value)

/-- The parameters of a form, without the empty ones. -/
def decodeForm (cs : List Char) : Option (List (String × String)) :=
  ((cs.splitOn '&').filter (!·.isEmpty)).mapM decodeParameter

/-- The parameters of an urlencoded body. -/
def decodeBody (body : String) : Option (List (String × String)) :=
  decodeForm (cutFragment body.toList)

/-- The parameters of the query of a URL: what is between the first `?` and `#`. -/
def decodeQuery (url : String) : Option (List (String × String)) :=
  decodeForm (((cutFragment url.toList).dropWhile (· ≠ '?')).drop 1)

/-- The value of a parameter. -/
def valueOf (name : String) (params : Option (List (String × String))) : Option String :=
  params.bind (·.lookup name)

/-- A name that is read back as it is, wherever it stands in a form. -/
structure PlainName (name : String) : Prop where
  fragment : '#' ∉ name.toList
  separator : '&' ∉ name.toList
  equals : '=' ∉ name.toList
  decodes : decodeComponent name.toList = some name

instance (name : String) : Decidable (PlainName name) :=
  decidable_of_iff ('#' ∉ name.toList ∧ '&' ∉ name.toList ∧ '=' ∉ name.toList ∧
      decodeComponent name.toList = some name)
    ⟨fun plain => ⟨plain.1, plain.2.1, plain.2.2.1, plain.2.2.2⟩, fun plain =>
      ⟨plain.fragment, plain.separator, plain.equals, plain.decodes⟩⟩

theorem takeWhile_ne_append {sep : Char} {cs : List Char} (absent : sep ∉ cs) (rest : List Char) :
    (cs ++ rest).takeWhile (· ≠ sep) = cs ++ rest.takeWhile (· ≠ sep) :=
  List.takeWhile_append_of_pos fun _ member =>
    decide_eq_true fun same => absent (same ▸ member)

theorem dropWhile_ne_append {sep : Char} {cs : List Char} (absent : sep ∉ cs) (rest : List Char) :
    (cs ++ rest).dropWhile (· ≠ sep) = rest.dropWhile (· ≠ sep) :=
  List.dropWhile_append_of_pos fun _ member =>
    decide_eq_true fun same => absent (same ▸ member)

theorem cutFragment_eq_self {cs : List Char} (absent : '#' ∉ cs) : cutFragment cs = cs := by
  have whole := takeWhile_ne_append absent []
  rwa [List.append_nil, List.takeWhile_nil, List.append_nil] at whole

theorem decodeParameter_eq {name : String} (plain : PlainName name) (value : List Char) :
    decodeParameter (name.toList ++ '=' :: value) =
      (decodeComponent value).map fun v => (name, v) := by
  rw [decodeParameter, takeWhile_ne_append plain.equals, dropWhile_ne_append plain.equals]
  simp only [ne_eq, not_true_eq_false, decide_false, Bool.false_eq_true, not_false_eq_true,
    List.takeWhile_cons_of_neg, List.dropWhile_cons_of_neg, List.append_nil, List.drop_succ_cons,
    List.drop_zero, plain.decodes, Option.bind_eq_bind, Option.bind_some]
  rw [Option.map_eq_bind]
  rfl

/-- The first parameter is what is before the first `&`. -/
theorem splitOn_eq_cons (sep : Char) (cs : List Char) :
    ∃ rest, cs.splitOn sep = cs.takeWhile (· ≠ sep) :: rest := by
  induction cs with
  | nil => exact ⟨[], rfl⟩
  | cons c cs ih =>
      obtain ⟨rest, split⟩ := ih
      rw [List.splitOn_cons_eq_if_modifyHead, split]
      by_cases same : c = sep
      · exact ⟨cs.takeWhile (· ≠ sep) :: rest, by simp [same]⟩
      · exact ⟨rest, by simp [same]⟩

/-- What a form gives for its first parameter. -/
theorem valueOf_decodeForm {name : String} (plain : PlainName name) {value : List Char}
    {v : String} (read : valueOf name (decodeForm (name.toList ++ '=' :: value)) = some v) :
    decodeComponent (value.takeWhile (· ≠ '&')) = some v := by
  obtain ⟨rest, split⟩ := splitOn_eq_cons '&' (name.toList ++ '=' :: value)
  rw [takeWhile_ne_append plain.separator, List.takeWhile_cons_of_pos (by decide)] at split
  have present : (name.toList ++ '=' :: value.takeWhile (· ≠ '&')).isEmpty = false := by
    cases name.toList <;> rfl
  unfold valueOf decodeForm at read
  rw [split, List.filter_cons_of_pos (by rw [present]; rfl), List.mapM_cons,
    decodeParameter_eq plain] at read
  cases decoded : decodeComponent (value.takeWhile (· ≠ '&')) with
  | none =>
    rw [decoded] at read
    cases read
  | some w =>
    rw [decoded] at read
    cases others : (rest.filter (!·.isEmpty)).mapM decodeParameter with
    | none =>
      rw [others] at read
      cases read
    | some params =>
      rw [others] at read
      simpa using read

theorem mapM_map_eq_some {α β : Type} {write : β → α} {read : α → Option β} {bs : List β}
    (reads : ∀ b ∈ bs, read (write b) = some b) : (bs.map write).mapM read = some bs := by
  induction bs with
  | nil => rfl
  | cons b bs ih =>
      have others := ih fun b' member => reads b' (List.mem_cons_of_mem _ member)
      rw [List.map_cons, List.mapM_cons, reads b List.mem_cons_self, others]
      rfl

theorem not_mem_intercalate {c : Char} {sep : List Char} {pieces : List (List Char)}
    (between : c ∉ sep) (within : ∀ piece ∈ pieces, c ∉ piece) : c ∉ sep.intercalate pieces := by
  induction pieces with
  | nil => exact List.not_mem_nil
  | cons piece pieces ih =>
      have first := within piece List.mem_cons_self
      have others := ih fun other member => within other (List.mem_cons_of_mem _ member)
      cases pieces with
      | nil => rwa [List.intercalate_singleton]
      | cons other pieces =>
        rw [List.intercalate_cons_cons, List.mem_append, List.mem_append]
        rintro ((left | middle) | right)
        · exact first left
        · exact between middle
        · exact others right

/-- **A body that was joined is read back**, values encoded and names plain. -/
theorem decodeBody_intercalate (params : List (String × String))
    (plain : ∀ p ∈ params, PlainName p.1) :
    decodeBody ("&".intercalate
      (params.map fun p => p.1 ++ "=" ++ encodeURIComponent p.2)) = some params := by
  have pieces : (String.toList ∘ fun p : String × String =>
      p.1 ++ "=" ++ encodeURIComponent p.2) =
      fun p => p.1.toList ++ '=' :: (encodeURIComponent p.2).toList := by
    funext p
    rw [Function.comp_apply, String.toList_append, String.toList_append, List.append_assoc]
    rfl
  have absent {sep : Char} (reserved : uriUnreserved sep = false) (other : sep ∉ ['=', '%'])
      (names : ∀ p ∈ params, sep ∉ p.1.toList) : ∀ piece ∈ params.map fun p =>
        p.1.toList ++ '=' :: (encodeURIComponent p.2).toList, sep ∉ piece := by
    intro piece member
    obtain ⟨p, given, rfl⟩ := List.mem_map.mp member
    simp only [List.mem_cons, List.not_mem_nil, or_false, not_or] at other
    rw [List.mem_append, List.mem_cons, not_or, not_or]
    exact ⟨names p given, other.1, not_mem_encodeURIComponent _ reserved other.2⟩
  cases params with
  | nil => rfl
  | cons p params =>
  rw [decodeBody, String.toList_intercalate, List.map_map, pieces,
    show "&".toList = ['&'] from rfl, cutFragment_eq_self, decodeForm,
    List.splitOn_intercalate, List.filter_eq_self.mpr, mapM_map_eq_some]
  · intro p member
    rw [decodeParameter_eq (plain p member), decodeComponent_encodeURIComponent]
    rfl
  · intro piece member
    obtain ⟨p, -, rfl⟩ := List.mem_map.mp member
    cases p.1.toList <;> rfl
  · exact absent (by decide) (by decide) fun p member => (plain p member).separator
  · exact List.cons_ne_nil _ _
  · exact not_mem_intercalate (by decide)
      (absent (by decide) (by decide) fun p member => (plain p member).fragment)

/-- A text that is read from a part of it is that part. -/
theorem eq_of_decodes {cs : List Char} {s : String} (part : cs <+: s.toList)
    (decodes : decodeComponent cs = some s) : cs = s.toList := by
  obtain ⟨rest, whole⟩ := part
  have fits := length_of_decodes decodes
  cases rest with
  | nil => rw [← whole, List.append_nil]
  | cons c rest =>
    have one := length_utf8EncodeChar_pos c
    rw [← whole, utf8Bytes_append, utf8Bytes_cons, List.length_append, List.length_append] at fits
    omega

section

variable {base name value : String} (noFragment : '#' ∉ base.toList) (noQuery : '?' ∉ base.toList)
  (plain : PlainName name)

include noFragment noQuery plain

theorem decodeQuery_eq :
    decodeQuery (base ++ "?" ++ name ++ "=" ++ value) =
      decodeForm (name.toList ++ '=' :: cutFragment value.toList) := by
  have text : (base ++ "?" ++ name ++ "=" ++ value).toList =
      base.toList ++ '?' :: (name.toList ++ '=' :: value.toList) := by
    simp only [String.toList_append, List.append_assoc]
    rfl
  rw [decodeQuery, text, cutFragment, takeWhile_ne_append noFragment,
    List.takeWhile_cons_of_pos (by decide), takeWhile_ne_append plain.fragment,
    List.takeWhile_cons_of_pos (by decide), dropWhile_ne_append noQuery,
    List.dropWhile_cons_of_neg (by decide)]
  rfl

/-- A clean value is the only parameter. -/
theorem decodeQuery_of_clean (fragment : '#' ∉ value.toList) (separator : '&' ∉ value.toList)
    (noPlus : '+' ∉ value.toList) (noEscape : hasEscape value.toList = false) :
    decodeQuery (base ++ "?" ++ name ++ "=" ++ value) = some [(name, value)] := by
  have single : '&' ∉ name.toList ++ '=' :: value.toList := by
    rw [List.mem_append, List.mem_cons, not_or, not_or]
    exact ⟨plain.separator, by decide, separator⟩
  have present : (name.toList ++ '=' :: value.toList).isEmpty = false := by
    cases name.toList <;> rfl
  rw [decodeQuery_eq noFragment noQuery plain, cutFragment_eq_self fragment, decodeForm,
    List.splitOn_eq_singleton single, List.filter_cons_of_pos (by rw [present]; rfl),
    List.filter_nil, List.mapM_cons, decodeParameter_eq plain,
    decodeComponent_eq_self.mpr ⟨noPlus, noEscape⟩]
  rfl

/-- **A value put in as it is comes back exactly when** it is clean. -/
theorem valueOf_decodeQuery :
    valueOf name (decodeQuery (base ++ "?" ++ name ++ "=" ++ value)) = some value ↔
      ('#' ∉ value.toList ∧ '&' ∉ value.toList) ∧
        '+' ∉ value.toList ∧ hasEscape value.toList = false := by
  constructor
  · intro read
    rw [decodeQuery_eq noFragment noQuery plain] at read
    have decodes := valueOf_decodeForm plain read
    have whole : (cutFragment value.toList).takeWhile (· ≠ '&') = value.toList :=
      eq_of_decodes ((List.takeWhile_prefix _).trans (List.takeWhile_prefix _)) decodes
    rw [whole] at decodes
    refine ⟨⟨fun member => ?_, fun member => ?_⟩, decodeComponent_eq_self.mp decodes⟩
    · rw [← whole] at member
      have kept := List.mem_takeWhile_imp ((List.takeWhile_prefix _).subset member)
      simp at kept
    · rw [← whole] at member
      have kept := List.mem_takeWhile_imp member
      simp at kept
  · intro clean
    rcases clean with ⟨⟨fragment, separator⟩, noPlus, noEscape⟩
    rw [decodeQuery_of_clean noFragment noQuery plain fragment separator noPlus noEscape]
    simp [valueOf]

end

end GAMember
