import Mathlib.Algebra.Group.Nat.Defs
import GAMember.Firebase.Balance

/-!
# Building a tree from a sorted list

`fromDictionary` does not insert its entries one by one. It writes their number
in base {1, 2}: one digit for each binary digit of the number plus one, without
the leading one, and a `0` there is a one here and a `1` a two. Each digit at
place `i` becomes one or two *pennants* of `2 ^ i` entries, a node with a full
tree to its right, taken from the end of the list and hung to the left of the
pennant before.

`rootFrom12List_spec` says that this uses every entry once, in order, and gives
a valid tree with a black root.
-/

namespace GAMember

/-- A list of binary digits, read from `current` down. -/
structure Base12List where
  bits : Nat
  count : Nat
  current : Nat
  deriving DecidableEq, Repr

/-- The number is an `unsigned int`. `log_base2` divides two floating point logarithms; up
to 32 bits the quotient, cut off, is the binary logarithm. -/
def base12List_new (length : Nat) : Base12List :=
  let number := (length + 1) % 2 ^ 32
  let count := Nat.log2 number
  ⟨number % 2 ^ count, count, count - 1⟩

/-- Whether the next digit is a one in base {1, 2}. -/
def base12List_next (list : Base12List) : Bool × Base12List :=
  (!list.bits.testBit list.current, { list with current := list.current - 1 })

namespace FTreeSortedDictionary

open FLLRBNode

variable {κ α : Type}

/-- The tree of the entries from `startIndex` on. A position outside the list raises. -/
def buildBalancedTree (keys : List (κ × α)) (startIndex length : Nat) :
    Option (FLLRBNode κ α) :=
  let bounded := min (keys.length - startIndex) length
  if _ : bounded = 0 then some empty
  else if _ : bounded = 1 then do
    let (key, value) ← keys[startIndex]?
    some (node key value .black empty empty)
  else do
    let middle := bounded / 2
    let left ← buildBalancedTree keys startIndex middle
    let right ← buildBalancedTree keys (startIndex + middle + 1) middle
    let (key, value) ← keys[startIndex + middle]?
    some (node key value .black left right)
termination_by length

/-- The variables of `rootFrom12List`. `node` is the last pennant, which is the leftmost
node below `root`. -/
structure Building (κ α : Type) where
  root : FLLRBNode κ α
  index : Nat

/-- `node.left = pennant`, or the root where there is no node yet. -/
def attach : FLLRBNode κ α → FLLRBNode κ α → FLLRBNode κ α
  | empty, pennant => pennant
  | node k v c l r, pennant => node k v c (attach l pennant) r

def buildPennant (keyList : List (κ × α)) (color : FLLRBColor) (chunkSize : Nat)
    (s : Building κ α) : Option (Building κ α) := do
  let startIndex := s.index - chunkSize + 1
  let index := s.index - chunkSize
  let (key, value) ← keyList[index]?
  let childTree ← buildBalancedTree keyList startIndex (chunkSize - 1)
  some ⟨attach s.root (node key value color empty childTree), index⟩

/-- The loop over the digits; `places` of them are left. -/
def buildPennants (keyList : List (κ × α)) :
    Nat → Base12List → Building κ α → Option (Building κ α)
  | 0, _, s => some s
  | places + 1, list, s => do
      let (isOne, list) := base12List_next list
      let chunkSize := 2 ^ places
      if isOne then
        let s ← buildPennant keyList .black chunkSize s
        buildPennants keyList places list s
      else
        let s ← buildPennant keyList .black chunkSize s
        let s ← buildPennant keyList .red chunkSize s
        buildPennants keyList places list s

def rootFrom12List (list : Base12List) (keyList : List (κ × α)) : Option (FLLRBNode κ α) :=
  (buildPennants keyList list.count list ⟨empty, keyList.length⟩).map Building.root

variable {keys : List (κ × α)} {start : Nat}

/-! ## Full trees -/

/-- A full tree of depth `h` over the entries from `start` on. -/
structure Full (keys : List (κ × α)) (start h : Nat) (t : FLLRBNode κ α) : Prop where
  balanced : Balanced .black h t
  toList : t.toList = (keys.drop start).take (2 ^ h - 1)

theorem take_drop_middle {b : κ × α} {m n : Nat} (at_middle : keys[start + m]? = some b) :
    (keys.drop start).take m ++ b :: (keys.drop (start + m + 1)).take n =
      (keys.drop start).take (m + 1 + n) := by
  rw [List.take_add, List.take_add_one, List.getElem?_drop, at_middle, List.append_assoc,
    List.drop_drop, Nat.add_assoc start m 1]
  rfl

theorem full_buildBalancedTree (h start : Nat) (within : start + (2 ^ h - 1) ≤ keys.length) :
    ∃ t, buildBalancedTree keys start (2 ^ h - 1) = some t ∧ Full keys start h t := by
  induction h generalizing start with
  | zero =>
      refine ⟨empty, ?_, .empty, by simp [FLLRBNode.toList]⟩
      rw [buildBalancedTree]
      simp
  | succ h ih =>
      have double : 2 ^ (h + 1) - 1 = (2 ^ h - 1) + 1 + (2 ^ h - 1) := by
        have positive := Nat.two_pow_pos h
        omega
      have bounded : min (keys.length - start) (2 ^ (h + 1) - 1) = 2 ^ (h + 1) - 1 := by
        omega
      obtain ⟨b, at_middle⟩ : ∃ b, keys[start + (2 ^ h - 1)]? = some b :=
        ⟨_, List.getElem?_eq_getElem (by omega)⟩
      obtain ⟨left, leftBuilt, leftFull⟩ := ih start (by omega)
      obtain ⟨right, rightBuilt, rightFull⟩ :=
        ih (start + (2 ^ h - 1) + 1) (by omega)
      refine ⟨node b.1 b.2 .black left right, ?_,
        .black leftFull.balanced rightFull.balanced, ?_⟩
      · rw [buildBalancedTree]
        simp only [bounded]
        by_cases single : h = 0
        · subst single
          rw [leftFull.balanced.eq_empty, rightFull.balanced.eq_empty]
          simp only [Nat.pow_zero, Nat.sub_self, Nat.add_zero] at at_middle
          simp [at_middle]
        · have large : 2 ≤ 2 ^ h := Nat.le_self_pow single 2
          rw [dif_neg (by omega), dif_neg (by omega)]
          have middle : (2 ^ (h + 1) - 1) / 2 = 2 ^ h - 1 := by omega
          simp [middle, leftBuilt, rightBuilt, at_middle]
      · rw [FLLRBNode.toList, leftFull.toList, rightFull.toList, double]
        exact take_drop_middle at_middle

/-! ## The digits -/

/-- The entries that the last `places` digits stand for. -/
def Base12List.size (bits places : Nat) : Nat := 2 ^ places - 1 + bits % 2 ^ places

theorem Base12List.size_succ (bits places : Nat) :
    size bits (places + 1) =
      size bits places + 2 ^ places + if bits.testBit places then 2 ^ places else 0 := by
  have positive := Nat.two_pow_pos places
  have split : bits % 2 ^ (places + 1) =
      bits % 2 ^ places + 2 ^ places * (bits / 2 ^ places % 2) := Nat.mod_pow_succ
  have digit := Nat.testBit_eq_decide_div_mod_eq (x := bits) (i := places)
  have binary := Nat.mod_two_eq_zero_or_one (bits / 2 ^ places)
  unfold size
  rw [split, digit]
  rcases binary with zero | one
  · simp [zero]
    omega
  · simp [one]
    omega

/-- All digits together stand for the length they were made from. -/
theorem base12List_new_size {length : Nat} (small : length + 1 < 2 ^ 32) :
    Base12List.size (base12List_new length).bits (base12List_new length).count = length := by
  have least : 2 ^ (length + 1).log2 ≤ length + 1 := Nat.log2_self_le (by omega)
  have bound : length + 1 < 2 ^ ((length + 1).log2 + 1) := Nat.lt_log2_self
  have positive := Nat.two_pow_pos (length + 1).log2
  have leading : (length + 1) % 2 ^ (length + 1).log2 = length + 1 - 2 ^ (length + 1).log2 := by
    rw [Nat.mod_eq_sub_mod least, Nat.mod_eq_of_lt (by omega)]
  simp only [base12List_new, Nat.mod_eq_of_lt small]
  rw [Base12List.size, Nat.mod_mod, leading]
  omega

/-! ## Pennants -/

theorem attach_empty (t : FLLRBNode κ α) : attach t empty = t := by
  induction t with
  | empty => rfl
  | node k v c l r ihl _ => rw [attach, ihl]

theorem attach_assoc (s t u : FLLRBNode κ α) :
    attach (attach s t) u = attach s (attach t u) := by
  induction s with
  | empty => rfl
  | node k v c l r ihl _ => simp only [attach, ihl]

/-- A pennant takes the last `2 ^ h` of the first `m + 2 ^ h` entries. -/
theorem buildPennant_spec (color : FLLRBColor) (h m : Nat) (root : FLLRBNode κ α)
    (within : m + 2 ^ h ≤ keys.length) :
    ∃ k v child, buildPennant keys color (2 ^ h) ⟨root, m + 2 ^ h⟩ =
        some ⟨attach root (node k v color empty child), m⟩ ∧
      Balanced .black h child ∧
      ∀ t : FLLRBNode κ α, t.toList = keys.take m →
        (node k v color t child).toList = keys.take (m + 2 ^ h) := by
  have positive := Nat.two_pow_pos h
  obtain ⟨b, at_index⟩ : ∃ b, keys[m]? = some b := ⟨_, List.getElem?_eq_getElem (by omega)⟩
  obtain ⟨child, built, full⟩ :=
    @full_buildBalancedTree _ _ keys h (m + 1) (by omega)
  have index : m + 2 ^ h - 2 ^ h = m := by omega
  refine ⟨b.1, b.2, child, ?_, full.balanced, fun t before => ?_⟩
  · simp [buildPennant, index, at_index, built]
  · have joined := @take_drop_middle _ _ keys 0 b m (2 ^ h - 1)
      (by simpa only [Nat.zero_add] using at_index)
    rw [FLLRBNode.toList, before, full.toList]
    simp only [List.drop_zero, Nat.zero_add] at joined
    rw [joined]
    congr 1
    omega

theorem buildPennants_spec (bits places : Nat) (root : FLLRBNode κ α) {current count : Nat}
    (at_place : current = places - 1)
    (within : Base12List.size bits places ≤ keys.length) :
    ∃ t, buildPennants keys places ⟨bits, count, current⟩
          ⟨root, Base12List.size bits places⟩ = some ⟨attach root t, 0⟩ ∧
      Balanced .black places t ∧ t.toList = keys.take (Base12List.size bits places) := by
  induction places generalizing root current with
  | zero =>
      have none_left : Base12List.size bits 0 = 0 := by simp [Base12List.size, Nat.mod_one]
      refine ⟨empty, ?_, .empty, by simp [none_left, FLLRBNode.toList]⟩
      rw [none_left, attach_empty, buildPennants]
  | succ places ih =>
      obtain rfl : current = places := at_place
      have positive := Nat.two_pow_pos current
      have size := Base12List.size_succ bits current
      cases digit : bits.testBit current with
      | false =>
          simp only [digit, Bool.false_eq_true, if_false, Nat.add_zero] at size
          rw [size] at within ⊢
          obtain ⟨k, v, child, built, full, entries⟩ :=
            @buildPennant_spec _ _ keys .black current _ root within
          obtain ⟨t, rest, valid, before⟩ :=
            ih (attach root (node k v .black empty child)) rfl (by omega)
          refine ⟨node k v .black t child, ?_, .black valid full, entries t before⟩
          rw [attach_assoc] at rest
          simp only [buildPennants, base12List_next, digit, Bool.not_false, if_true, built]
          exact rest
      | true =>
          simp only [digit, if_true] at size
          rw [size] at within ⊢
          obtain ⟨k, v, child, built, full, entries⟩ :=
            @buildPennant_spec _ _ keys .black current _ root within
          obtain ⟨k', v', child', built', full', entries'⟩ :=
            @buildPennant_spec _ _ keys .red current (Base12List.size bits current)
              (attach root (node k v .black empty child)) (by omega)
          obtain ⟨t, rest, valid, before⟩ :=
            ih (attach (attach root (node k v .black empty child))
              (node k' v' .red empty child')) rfl (by omega)
          refine ⟨node k v .black (node k' v' .red t child') child, ?_,
            .black (.red valid full') full, entries _ (entries' t before)⟩
          rw [attach_assoc _ _ t, attach_assoc root _ (attach _ t)] at rest
          simp only [buildPennants, base12List_next, digit, Bool.not_true, Bool.false_eq_true,
            if_false, built]
          simp only [Option.bind_eq_bind, Option.bind_some, built']
          exact rest

/-- **The built tree.** It is valid, has a black root and holds every entry once, in the
order of the list. -/
theorem rootFrom12List_spec (keys : List (κ × α)) (small : keys.length + 1 < 2 ^ 32) :
    ∃ t h, rootFrom12List (base12List_new keys.length) keys = some t ∧
      Balanced .black h t ∧ t.toList = keys := by
  have size := base12List_new_size small
  obtain ⟨t, built, valid, entries⟩ :=
    @buildPennants_spec _ _ keys (base12List_new keys.length).bits
      (base12List_new keys.length).count empty _ (base12List_new keys.length).count rfl
      (by omega)
  rw [size] at built entries
  refine ⟨t, _, ?_, valid, by rw [entries, List.take_length]⟩
  have start : (⟨(base12List_new keys.length).bits, (base12List_new keys.length).count,
      (base12List_new keys.length).count - 1⟩ : Base12List) = base12List_new keys.length := rfl
  rw [start] at built
  rw [rootFrom12List, built]
  rfl

end FTreeSortedDictionary

end GAMember
