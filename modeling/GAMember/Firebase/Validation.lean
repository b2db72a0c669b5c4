import GAMember.Firebase.Node

/-!
# What a caller gives

A value or a priority comes to the client as an object of Foundation (`RawValue`). Before
anything is done with it, it is validated and read as a node; each problem has an exception
of its own, which names the method that was called and the place in the value.

The keys of a dictionary may be any objects. Those that are strings say that the valid keys
among their pieces are in use.

What is read of a valid value is a well-formed node (`nodeFrom_wellFormed`).
-/

namespace GAMember

/-- What is thrown. -/
structure NSException where
  name : String
  reason : String
  deriving DecidableEq, Repr

/-- A number, of which the two booleans are objects of their own. -/
inductive NSNumber (β : Type)
  | notANumber
  | boolean (value : Bool)
  | number (value : β)

/-- The names of the items of an array are in use. -/
class Indexes [Names] : Prop where
  inUse (i : Nat) : Names.InUse (toString i)

instance : @Indexes codeUnitKeys.toNames where
  inUse i := by
    refine ⟨?_, fun slash => ?_, toString_of_tryParseStringToInt⟩
    · exact Nat.repr_ne_empty
    · have digit := isDigit_of_mem_toString slash
      contradiction

variable [Keys] {β : Type}

/-- A string of which the pieces that are valid keys are in use. -/
structure KeyText where
  text : String
  inUse : ∀ name ∈ segments text, validKey name = true → Names.InUse name

/-- A key of a dictionary. -/
inductive KeyId
  | string (key : KeyText)
  | other

/-- An object of Foundation, by what the validation tells apart; `nil` is `null` as well. -/
inductive RawValue (β : Type)
  | null
  | string (text : String)
  | number (value : NSNumber β)
  | dictionary (className : String) (entries : List (KeyId × RawValue β))
  | array (className : String) (items : List (RawValue β))
  | other (className : String)

def KeyId.text? : KeyId → Option String
  | .string key => some key.text
  | .other => none

/-- The child that a key names. The keys of metadata name none: among the keys that are valid in
a dictionary they are those that start with a full stop (`child?_eq_none_iff`). -/
def KeyId.child? : KeyId → Option Piece
  | .string key =>
      if valid : validKey key.text = true then
        have here : key.text ∈ segments key.text := by
          rw [segments_key (validKey_toList valid).1 (validKey_toList valid).2]
          exact List.mem_singleton_self _
        some ⟨key.text, key.inUse key.text here valid⟩
      else none
  | .other => none

/-- `pathWithString:` of a key that is valid in an update: each of its pieces is a valid key or
a priority (`pathWithString_names`). -/
def FPath.pathWithString : KeyId → FPath
  | .string key =>
      (segments key.text).attach.filterMap fun name =>
        if valid : validKey name.1 = true then some ⟨name.1, key.inUse name.1 name.2 valid⟩
        else if name.1 = ".priority" then some .priority
        else none
  | .other => []

/-- `objectForKey:` -/
def objectForKey (entries : List (KeyId × RawValue β)) (key : String) : Option (RawValue β) :=
  (entries.find? fun entry => entry.1.text? = some key).map Prod.snd

/-- `[[value class] description]` of a value that is no leaf value. -/
def RawValue.className : RawValue β → String
  | .dictionary className _ => className
  | .array className _ => className
  | .other className => className
  | _ => ""

/-! ## The validation -/

def kFirebaseMaxObjectDepth : Nat := 1000

def kFirebaseMaxLeafSize : Nat := 1024 * 1024 * 10

namespace FValidation

/-- The place in the value, of which fifty keys are named at most. -/
def pathString (path : List String) : String := ".".intercalate (path.take 50)

/-- Most exceptions have this name. -/
def invalidData (fn reason : String) : NSException :=
  ⟨"InvalidFirebaseData", "(" ++ fn ++ ") " ++ reason⟩

def isValidLeafValue (fn : String) (value : RawValue β) (path : List String) :
    Except NSException Bool :=
  match value with
  | .string text =>
      if text.utf8ByteSize > kFirebaseMaxLeafSize then
        .error (invalidData fn ("String exceeds max size of " ++ toString kFirebaseMaxLeafSize ++
          " utf8 bytes: " ++ pathString path))
      else .ok true
  | .number .notANumber =>
      .error (invalidData fn ("Cannot store NaN at path: " ++ pathString path ++ "."))
  | .number _ => .ok true
  | .dictionary _ entries =>
      if (objectForKey entries ".sv").isSome then
        if entries.length > 1 then
          .error (invalidData fn
            ("Cannot store other keys with server value keys." ++ pathString path ++ "."))
        else .ok true
      else .ok false
  | .null => .ok true
  | .array .. => .ok false
  | .other _ => .ok false

def parseAndValidateKey (keyId : KeyId) (fn : String) (path : List String) :
    Except NSException String :=
  match keyId with
  | .string key => .ok key.text
  | .other =>
      .error (invalidData fn
        ("Non-string keys are not allowed in object at path: " ++ pathString path))

def validDictionaryKey (fn : String) (keyId : KeyId) (path : List String) :
    Except NSException Unit := do
  let key ← parseAndValidateKey keyId fn path
  if key ≠ ".priority" ∧ key ≠ ".value" ∧ key ≠ ".sv" ∧ validKey key = false then
    .error (invalidData fn ("Invalid key in object at path: " ++ pathString path ++
      ". Keys must be non-empty and cannot contain '/' '.' '#' '$' '[' or ']'"))

def isValidPriorityValue (fn : String) (value : RawValue β) (path : List String) :
    Except NSException Unit :=
  match value with
  | .number .notANumber =>
      .error (invalidData fn ("Cannot store NaN as priority at path: " ++ pathString path ++ "."))
  | .number (.boolean _) =>
      .error (invalidData fn
        ("Cannot store true/false as priority at path: " ++ pathString path ++ "."))
  | .dictionary _ entries =>
      if (objectForKey entries ".sv").isSome then
        if entries.length > 1 then
          .error (invalidData fn ("Cannot store other keys with server value keys as priority " ++
            "at path: " ++ pathString path ++ "."))
        else .ok ()
      else
        .error (invalidData fn
          ("Cannot store an NSDictionary as priority at path: " ++ pathString path ++ "."))
  | .array .. =>
      .error (invalidData fn
        ("Cannot store an NSArray as priority at path: " ++ pathString path ++ "."))
  | _ => .ok ()

/-- The block over the pieces of an update's path, which has `length` of them. -/
def validPieces (fn : String) (value : RawValue β) (length : Nat) :
    Nat → List String → Except NSException Unit
  | _, [] => .ok ()
  | keyNum, key :: pieces =>
      if key = ".priority" ∧ keyNum + 1 = length then do
        isValidPriorityValue fn value []
        validPieces fn value length keyNum pieces
      else if validKey key then validPieces fn value length (keyNum + 1) pieces
      else
        .error (invalidData fn
          "Invalid key in object. Keys must be non-empty and cannot contain '.' '#' '$' '[' or ']'")

def validUpdateDictionaryKey (fn : String) (keyId : KeyId) (value : RawValue β) :
    Except NSException Unit := do
  let pieces := segments (← parseAndValidateKey keyId fn [])
  validPieces fn value pieces.length 0 pieces

end FValidation

/-! ## Nodes -/

namespace FSnapshotUtilities

open FValidation

def validDepth (fn : String) (depth : Nat) (path : List String) : Except NSException Unit :=
  if depth > kFirebaseMaxObjectDepth then
    .error (invalidData fn
      ("Max object depth exceeded: " ++ ".".intercalate (path.take 100) ++ "..."))
  else .ok ()

mutual

/-- `internalNodeFrom:`, as it is called without a priority beside the value. -/
def nodeFrom [Indexes] (fn : String) (depth : Nat) (path : List String) :
    RawValue β → Except NSException (FNode (RawValue β))
  | .null => do
      validDepth fn depth path
      .ok .emptyNode
  | .dictionary className entries => do
      validDepth fn depth path
      let priority ← payloadPriority fn path entries
      match objectForKey entries ".value" with
      | some value =>
          if ← isValidLeafValue fn value path then .ok (.leaf value priority.asPriority)
          else
            .error ⟨"InvalidLeafValueType", "(" ++ fn ++ ") Invalid data type used with .value. " ++
              "Can only use NSString and NSNumber or be null. Found " ++ value.className ++
              " instead."⟩
      | none =>
          if ← isValidLeafValue fn (.dictionary className entries) path then
            .ok (.leaf (.dictionary className entries) priority.asPriority)
          else
            let children ← childrenFrom fn (depth + 1) path entries []
            .ok (.ofChildren priority.asPriority children)
  | .array _ items => do
      validDepth fn depth path
      let children ← itemsFrom fn (depth + 1) path 0 items []
      .ok (.ofChildren none children)
  | value => do
      validDepth fn depth path
      if ← isValidLeafValue fn value path then .ok (.leaf value none)
      else
        .error (invalidData fn ("Cannot store object of type " ++ value.className ++ " at " ++
          pathString path ++
          ". Can only store objects of type NSNumber, NSString, NSDictionary, and NSArray."))

/-- The priority that a dictionary has, which is read by `nodeFrom:`. -/
def payloadPriority [Indexes] (fn : String) (path : List String) :
    List (KeyId × RawValue β) → Except NSException (FNode (RawValue β))
  | [] => .ok .emptyNode
  | (keyId, rawPriority) :: entries =>
      if keyId.text? = some ".priority" then do
        isValidPriorityValue fn rawPriority path
        nodeFrom "nodeFrom:priority:" 0 [] rawPriority
      else payloadPriority fn path entries

/-- The loop over the keys of a dictionary. -/
def childrenFrom [Indexes] (fn : String) (depth : Nat) (path : List String) :
    List (KeyId × RawValue β) → List (Piece × FNode (RawValue β)) →
      Except NSException (List (Piece × FNode (RawValue β)))
  | [], children => .ok children
  | (keyId, value) :: entries, children => do
      validDictionaryKey fn keyId path
      match keyId.child? with
      | none => childrenFrom fn depth path entries children
      | some key =>
          let childNode ← nodeFrom fn depth (path ++ [key.name]) value
          childrenFrom fn depth path entries
            (if childNode.isEmpty then children else Table.put keyOrder key childNode children)

/-- The loop over the items of an array. -/
def itemsFrom [Indexes] (fn : String) (depth : Nat) (path : List String) :
    Nat → List (RawValue β) → List (Piece × FNode (RawValue β)) →
      Except NSException (List (Piece × FNode (RawValue β)))
  | _, [], children => .ok children
  | i, item :: items, children => do
      let key : Piece := ⟨toString i, Indexes.inUse i⟩
      let childNode ← nodeFrom fn depth (path ++ [key.name]) item
      itemsFrom fn depth path (i + 1) items
        (if childNode.isEmpty then children else Table.put keyOrder key childNode children)

end

end FSnapshotUtilities

/-! ## What is valid -/

omit [Keys] in
theorem bind_eq_ok {ε α γ : Type} {read : Except ε α} {next : α → Except ε γ} {result : γ} :
    (read >>= next) = .ok result ↔ ∃ value, read = .ok value ∧ next value = .ok result := by
  cases read with
  | error error => exact iff_of_false (by rintro ⟨⟩) (by rintro ⟨_, ⟨⟩, _⟩)
  | ok value => exact ⟨fun read => ⟨value, rfl, read⟩, by rintro ⟨_, ⟨⟩, read⟩; exact read⟩

namespace FValidation

variable {fn : String} {keyId : KeyId} {value : RawValue β} {path : List String}

theorem validPieces_ok {length keyNum : Nat} {pieces : List String}
    (valid : validPieces fn value length keyNum pieces = .ok ()) :
    ∀ name ∈ pieces, validKey name = true ∨ name = ".priority" := by
  induction pieces generalizing keyNum with
  | nil => simp
  | cons key pieces ih =>
      rw [validPieces] at valid
      rw [List.forall_mem_cons]
      split at valid
      · rename_i last
        cases priority : isValidPriorityValue fn value [] with
        | error error =>
            rw [priority] at valid
            contradiction
        | ok _ =>
            rw [priority] at valid
            exact ⟨.inr last.1, ih valid⟩
      · split at valid
        · rename_i here
          exact ⟨.inl here, ih valid⟩
        · contradiction

/-- A valid key of an update is read as the path of its pieces. -/
theorem pathWithString_names (valid : validUpdateDictionaryKey fn keyId value = .ok ()) :
    keyId.text?.map segments = some ((FPath.pathWithString keyId).map Piece.name) := by
  cases keyId with
  | other => contradiction
  | string key =>
      have each : ∀ name ∈ segments key.text, validKey name = true ∨ name = ".priority" :=
        validPieces_ok valid
      rw [KeyId.text?, Option.map_some, FPath.pathWithString, List.map_filterMap]
      refine congrArg some ?_
      have all : ∀ name ∈ (segments key.text).attach, Option.map Piece.name
          (if valid : validKey name.1 = true then some ⟨name.1, key.inUse name.1 name.2 valid⟩
          else if name.1 = ".priority" then some .priority
          else none) = some name.1 := by
        intro name _
        split
        · rfl
        · rename_i other
          have priority := (each name.1 name.2).resolve_left other
          rw [if_pos priority, priority]
          rfl
      rw [List.filterMap_congr all]
      exact ((congrFun List.filterMap_eq_map _).trans (List.attach_map_subtype_val _)).symm

/-- The keys of a valid dictionary that name no child start with a full stop. -/
theorem child?_eq_none_iff (valid : validDictionaryKey fn keyId path = .ok ()) :
    keyId.child? = none ↔ ∃ key, keyId.text? = some key ∧ key.toList.head? = some '.' := by
  cases keyId with
  | other => contradiction
  | string key =>
      rw [KeyId.child?]
      split
      · rename_i named
        refine iff_of_false (by simp) ?_
        rintro ⟨text, same, dot⟩
        obtain rfl : key.text = text := Option.some.inj same
        have each := (Bool.and_eq_true_iff.mp named).2
        rw [List.all_eq_true] at each
        exact absurd (each '.' (List.mem_of_mem_head? dot)) (by simp)
      · rename_i other
        refine iff_of_true rfl ⟨key.text, rfl, ?_⟩
        by_cases metadata : key.text = ".priority" ∨ key.text = ".value" ∨ key.text = ".sv"
        · rcases metadata with same | same | same <;> rw [same] <;> rfl
        · simp only [not_or] at metadata
          rw [validDictionaryKey, parseAndValidateKey] at valid
          simp [bind, Except.bind, metadata, Bool.eq_false_iff.mpr other] at valid

end FValidation

/-! ## What is read -/

/-- A priority is a leaf without a priority. -/
def FNode.PriorityFormed (priorityNode : Option (FNode (RawValue β))) : Prop :=
  ∀ priority ∈ priorityNode, ∃ value, priority = .leaf value none

/-- Each leaf has a value that may be stored; the children are in order, none of them is empty,
their names are valid keys, and there are some where there is a priority. -/
inductive FNode.WellFormed : FNode (RawValue β) → Prop
  | leaf {value : RawValue β} {priorityNode : Option (FNode (RawValue β))} {fn : String}
      {path : List String} (valid : FValidation.isValidLeafValue fn value path = .ok true)
      (priority : PriorityFormed priorityNode) : WellFormed (.leaf value priorityNode)
  | children {priorityNode : Option (FNode (RawValue β))}
      {entries : List (Piece × FNode (RawValue β))} (priority : PriorityFormed priorityNode)
      (some : entries = [] → priorityNode = none) (sorted : Table.Sorted keyOrder entries)
      (valid : ∀ entry ∈ entries, validKey entry.1.name = true ∧ entry.2.isEmpty = false)
      (formed : ∀ entry ∈ entries, WellFormed entry.2) : WellFormed (.children priorityNode entries)

namespace FNode

/-- What the children that have been read satisfy. -/
structure ChildrenFormed (entries : List (Piece × FNode (RawValue β))) : Prop where
  sorted : Table.Sorted keyOrder entries
  valid : ∀ entry ∈ entries, validKey entry.1.name = true ∧ entry.2.isEmpty = false
  formed : ∀ entry ∈ entries, WellFormed entry.2

variable {entries : List (Piece × FNode (RawValue β))}
  {priorityNode : Option (FNode (RawValue β))} {node : FNode (RawValue β)}

theorem priorityFormed_none : PriorityFormed (none : Option (FNode (RawValue β))) := by
  simp [PriorityFormed]

theorem childrenFormed_nil : ChildrenFormed ([] : List (Piece × FNode (RawValue β))) :=
  ⟨Table.sorted_nil, by simp, by simp⟩

theorem wellFormed_ofChildren (priority : PriorityFormed priorityNode)
    (children : ChildrenFormed entries) : (ofChildren priorityNode entries).WellFormed := by
  cases entries with
  | nil =>
      exact .children priorityFormed_none (fun _ => rfl) Table.sorted_nil (by simp) (by simp)
  | cons entry entries =>
      exact .children priority (by simp) children.sorted children.valid children.formed

theorem wellFormed_emptyNode : (emptyNode : FNode (RawValue β)).WellFormed :=
  wellFormed_ofChildren priorityFormed_none childrenFormed_nil

theorem WellFormed.proper (formed : node.WellFormed) : node.Proper := by
  intro empty
  cases formed with
  | leaf => contradiction
  | children _ some _ _ _ =>
      obtain rfl := List.isEmpty_iff.mp empty
      rw [some rfl]
      rfl

/-- A child that is not empty is one more child. -/
theorem ChildrenFormed.put (children : ChildrenFormed entries) {key : Piece}
    (valid : validKey key.name = true) (formed : node.WellFormed) :
    ChildrenFormed (if node.isEmpty then entries else Table.put keyOrder key node entries) := by
  split
  · exact children
  · rename_i some
    have each : ∀ entry ∈ Table.put keyOrder key node entries,
        entry = (key, node) ∨ entry ∈ entries := fun entry => Table.mem_put
    refine ⟨Table.sorted_put children.sorted, fun entry mem => ?_, fun entry mem => ?_⟩
    · rcases each entry mem with rfl | mem
      · exact ⟨valid, Bool.eq_false_iff.mpr some⟩
      · exact children.valid entry mem
    · rcases each entry mem with rfl | mem
      · exact formed
      · exact children.formed entry mem

end FNode

namespace FSnapshotUtilities

open FValidation

variable [Indexes] {fn : String} {depth : Nat} {path : List String} {value : RawValue β}
  {node : FNode (RawValue β)} {entries : List (KeyId × RawValue β)}

omit [Indexes] in
theorem validKey_child {keyId : KeyId} {key : Piece} (named : keyId.child? = some key) :
    validKey key.name = true := by
  cases keyId with
  | other => contradiction
  | string text =>
      rw [KeyId.child?] at named
      split at named
      · rename_i valid
        cases named
        exact valid
      · contradiction

omit [Keys] [Indexes] in
theorem validKey_toString (i : Nat) : validKey (toString i) = true := by
  rw [validKey, Bool.and_eq_true, decide_eq_true_eq, List.all_eq_true]
  refine ⟨Nat.repr_ne_empty, fun c mem => decide_eq_true fun special => ?_⟩
  have digit := isDigit_of_mem_toString mem
  simp only [List.mem_cons, List.not_mem_nil, or_false] at special
  rcases special with rfl | rfl | rfl | rfl | rfl | rfl <;> contradiction

omit [Indexes] in
theorem leaf_of_ite {leaf : Bool} {priority : Option (FNode (RawValue β))} {error : NSException}
    (read : (if leaf = true then Except.ok (FNode.leaf value priority) else .error error) =
      .ok node) : leaf = true ∧ node = .leaf value priority := by
  cases leaf with
  | false => contradiction
  | true =>
      cases read
      exact ⟨rfl, rfl⟩

omit [Indexes] in
/-- A dictionary that is a priority has the key of a server value and no other. -/
theorem entries_of_priority {className : String}
    (valid : isValidPriorityValue fn (.dictionary className entries) path = .ok ()) :
    ∃ keyId value, entries = [(keyId, value)] ∧ keyId.text? = some ".sv" := by
  rw [isValidPriorityValue] at valid
  split at valid
  · rename_i server
    split at valid
    · contradiction
    · rename_i alone
      match entries with
      | [] => contradiction
      | [(keyId, value)] =>
          refine ⟨keyId, value, rfl, ?_⟩
          by_contra other
          simp [objectForKey, other] at server
      | _ :: _ :: _ => exact absurd (by simp) alone
  · contradiction

/-- A value that is valid as a priority is read as one. -/
theorem priorityFormed_of_valid {fn' : String} {path' : List String}
    (valid : isValidPriorityValue fn value path = .ok ())
    (read : nodeFrom fn' depth path' value = .ok node) : FNode.PriorityFormed node.asPriority := by
  have ofLeaf {value : RawValue β} : FNode.PriorityFormed (FNode.leaf value none).asPriority := by
    intro priority mem
    cases Option.mem_some_iff.mp mem
    exact ⟨value, rfl⟩
  cases value with
  | null =>
      rw [nodeFrom] at read
      obtain ⟨_, _, read⟩ := bind_eq_ok.mp read
      cases read
      exact FNode.priorityFormed_none
  | dictionary className entries =>
      obtain ⟨keyId, value, rfl, server⟩ := entries_of_priority valid
      rw [nodeFrom] at read
      obtain ⟨_, _, read⟩ := bind_eq_ok.mp read
      obtain ⟨priority, noPriority, read⟩ := bind_eq_ok.mp read
      have found : objectForKey [(keyId, value)] ".value" = none := by simp [objectForKey, server]
      rw [found] at read
      obtain ⟨leaf, isLeaf, read⟩ := bind_eq_ok.mp read
      simp [isValidLeafValue, objectForKey, server] at isLeaf
      subst isLeaf
      simp [payloadPriority, server] at noPriority
      subst noPriority
      cases read
      exact ofLeaf
  | array className items => contradiction
  | string _ | number _ | other _ =>
      simp only [nodeFrom] at read
      obtain ⟨_, _, read⟩ := bind_eq_ok.mp read
      obtain ⟨leaf, _, read⟩ := bind_eq_ok.mp read
      obtain ⟨_, rfl⟩ := leaf_of_ite read
      exact ofLeaf

theorem priorityFormed_payload (read : payloadPriority fn path entries = .ok node) :
    FNode.PriorityFormed node.asPriority := by
  induction entries with
  | nil =>
      rw [payloadPriority] at read
      cases read
      exact FNode.priorityFormed_none
  | cons entry entries ih =>
      obtain ⟨keyId, rawPriority⟩ := entry
      rw [payloadPriority] at read
      split at read
      · obtain ⟨_, valid, read⟩ := bind_eq_ok.mp read
        exact priorityFormed_of_valid valid read
      · exact ih read

mutual

/-- **What is read is well formed.** -/
theorem nodeFrom_wellFormed {depth : Nat} {path : List String} {value : RawValue β}
    {node : FNode (RawValue β)} (read : nodeFrom fn depth path value = .ok node) :
    node.WellFormed := by
  match value with
  | .null =>
      rw [nodeFrom] at read
      obtain ⟨_, _, read⟩ := bind_eq_ok.mp read
      cases read
      exact FNode.wellFormed_emptyNode
  | .dictionary className entries =>
      rw [nodeFrom] at read
      obtain ⟨_, _, read⟩ := bind_eq_ok.mp read
      obtain ⟨priority, payload, read⟩ := bind_eq_ok.mp read
      split at read
      · obtain ⟨leaf, isLeaf, read⟩ := bind_eq_ok.mp read
        obtain ⟨rfl, rfl⟩ := leaf_of_ite read
        exact .leaf isLeaf (priorityFormed_payload payload)
      · obtain ⟨leaf, isLeaf, read⟩ := bind_eq_ok.mp read
        cases leaf with
        | true =>
            cases read
            exact .leaf isLeaf (priorityFormed_payload payload)
        | false =>
            obtain ⟨children, childrenRead, read⟩ := bind_eq_ok.mp read
            cases read
            exact FNode.wellFormed_ofChildren (priorityFormed_payload payload)
              (childrenFrom_formed FNode.childrenFormed_nil childrenRead)
  | .array className items =>
      rw [nodeFrom] at read
      obtain ⟨_, _, read⟩ := bind_eq_ok.mp read
      obtain ⟨children, childrenRead, read⟩ := bind_eq_ok.mp read
      cases read
      exact FNode.wellFormed_ofChildren FNode.priorityFormed_none
        (itemsFrom_formed FNode.childrenFormed_nil childrenRead)
  | .string _ | .number _ | .other _ =>
      simp only [nodeFrom] at read
      obtain ⟨_, _, read⟩ := bind_eq_ok.mp read
      obtain ⟨leaf, isLeaf, read⟩ := bind_eq_ok.mp read
      obtain ⟨rfl, rfl⟩ := leaf_of_ite read
      exact .leaf isLeaf FNode.priorityFormed_none

theorem childrenFrom_formed {depth : Nat} {path : List String}
    {entries : List (KeyId × RawValue β)} {before after : List (Piece × FNode (RawValue β))}
    (formed : FNode.ChildrenFormed before)
    (read : childrenFrom fn depth path entries before = .ok after) :
    FNode.ChildrenFormed after := by
  match entries with
  | [] =>
      rw [childrenFrom] at read
      cases read
      exact formed
  | (keyId, value) :: entries =>
      rw [childrenFrom] at read
      obtain ⟨_, _, read⟩ := bind_eq_ok.mp read
      split at read
      · exact childrenFrom_formed formed read
      · rename_i key named
        obtain ⟨childNode, childRead, read⟩ := bind_eq_ok.mp read
        exact childrenFrom_formed
          (formed.put (validKey_child named) (nodeFrom_wellFormed childRead)) read

theorem itemsFrom_formed {depth i : Nat} {path : List String} {items : List (RawValue β)}
    {before after : List (Piece × FNode (RawValue β))} (formed : FNode.ChildrenFormed before)
    (read : itemsFrom fn depth path i items before = .ok after) : FNode.ChildrenFormed after := by
  match items with
  | [] =>
      rw [itemsFrom] at read
      cases read
      exact formed
  | item :: items =>
      rw [itemsFrom] at read
      obtain ⟨childNode, childRead, read⟩ := bind_eq_ok.mp read
      exact itemsFrom_formed (formed.put (validKey_toString i) (nodeFrom_wellFormed childRead))
        read

end

end FSnapshotUtilities

end GAMember
