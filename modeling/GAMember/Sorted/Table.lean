import Mathlib.Data.List.Basic

/-!
# Tables sorted by a comparator

A `Table` is a list of bindings. Its keys are compared by a comparator `cmp`,
of which only `Std.TransCmp` is assumed: two different keys may compare `.eq`,
and a table then holds at most one of them (`Sorted`).

`insert` keeps the key that is there and `put` takes the new one. Both, and
`erase`, are described once by what `find?` answers afterwards, and once by what
they do to `l ++ (k, v) :: r` when the queried key lies below, at or above `k`,
which is how a search tree meets them.
-/

namespace GAMember

namespace Table

variable {κ α : Type} (cmp : κ → κ → Ordering)

/-- The keys increase strictly. -/
def Sorted (l : List (κ × α)) : Prop := l.Pairwise fun a b => cmp a.1 b.1 = .lt

/-- `q` lies below every key. -/
def Below (q : κ) (l : List (κ × α)) : Prop := ∀ b ∈ l, cmp q b.1 = .lt

/-- `q` lies above every key. -/
def Above (q : κ) (l : List (κ × α)) : Prop := ∀ b ∈ l, cmp q b.1 = .gt

/-- The value bound to a key that compares `.eq` to `q`. -/
def find? (q : κ) : List (κ × α) → Option α
  | [] => none
  | (k, v) :: rest => if cmp q k = .eq then some v else find? q rest

/-- Bind `q` at its place; the old key stays where there is one. -/
def insert (q : κ) (w : α) : List (κ × α) → List (κ × α)
  | [] => [(q, w)]
  | (k, v) :: rest =>
      match cmp q k with
      | .lt => (q, w) :: (k, v) :: rest
      | .eq => (k, w) :: rest
      | .gt => (k, v) :: insert q w rest

/-- Bind `q` at its place; `q` itself becomes the key. -/
def put (q : κ) (w : α) : List (κ × α) → List (κ × α)
  | [] => [(q, w)]
  | (k, v) :: rest =>
      match cmp q k with
      | .lt => (q, w) :: (k, v) :: rest
      | .eq => (q, w) :: rest
      | .gt => (k, v) :: put q w rest

/-- Drop the binding of `q`. -/
def erase (q : κ) (l : List (κ × α)) : List (κ × α) := l.filter fun b => cmp q b.1 != .eq

variable {cmp} {q k : κ} {v w : α} {l r : List (κ × α)}

/-! ## Sortedness and bounds -/

theorem sorted_nil : Sorted cmp ([] : List (κ × α)) := .nil

@[simp] theorem below_nil : Below cmp q ([] : List (κ × α)) := by simp [Below]

@[simp] theorem above_nil : Above cmp q ([] : List (κ × α)) := by simp [Above]

@[simp] theorem below_cons {b : κ × α} :
    Below cmp q (b :: l) ↔ cmp q b.1 = .lt ∧ Below cmp q l := by simp [Below]

@[simp] theorem above_cons {b : κ × α} :
    Above cmp q (b :: l) ↔ cmp q b.1 = .gt ∧ Above cmp q l := by simp [Above]

@[simp] theorem below_append : Below cmp q (l ++ r) ↔ Below cmp q l ∧ Below cmp q r := by
  simp [Below, or_imp, forall_and]

@[simp] theorem above_append : Above cmp q (l ++ r) ↔ Above cmp q l ∧ Above cmp q r := by
  simp [Above, or_imp, forall_and]

@[simp] theorem sorted_cons {b : κ × α} :
    Sorted cmp (b :: l) ↔ Below cmp b.1 l ∧ Sorted cmp l := List.pairwise_cons

theorem sorted_cons_of_lt [Std.TransCmp cmp] (less : cmp q k = .lt)
    (sorted : Sorted cmp ((k, v) :: l)) : Sorted cmp ((q, w) :: (k, v) :: l) := by
  refine sorted_cons.mpr ⟨below_cons.mpr ⟨less, fun b mem => ?_⟩, sorted⟩
  exact Std.TransCmp.lt_trans less ((sorted_cons.mp sorted).1 b mem)

/-- A sorted table with a binding in its middle: what lies left of it is below it
and what lies right of it above. -/
theorem sorted_split [Std.TransCmp cmp] :
    Sorted cmp (l ++ (k, v) :: r) ↔
      Sorted cmp l ∧ Sorted cmp r ∧ Above cmp k l ∧ Below cmp k r := by
  constructor
  · intro sorted
    rcases List.pairwise_append.mp sorted with ⟨left, right, apart⟩
    rcases List.pairwise_cons.mp right with ⟨below, right⟩
    refine ⟨left, right, fun b mem => ?_, below⟩
    exact Std.OrientedCmp.gt_of_lt (apart b mem (k, v) List.mem_cons_self)
  · rintro ⟨left, right, above, below⟩
    refine List.pairwise_append.mpr ⟨left, List.pairwise_cons.mpr ⟨below, right⟩, ?_⟩
    intro a memLeft b memRight
    have less : cmp a.1 k = .lt := Std.OrientedCmp.lt_of_gt (above a memLeft)
    rcases List.mem_cons.mp memRight with same | memRight
    · rw [same]
      exact less
    · exact Std.TransCmp.lt_trans less (below b memRight)

theorem Below.of_lt [Std.TransCmp cmp] (less : cmp q k = .lt) (below : Below cmp k l) :
    Below cmp q l :=
  fun b mem => Std.TransCmp.lt_trans less (below b mem)

theorem Above.of_gt [Std.TransCmp cmp] (more : cmp q k = .gt) (above : Above cmp k l) :
    Above cmp q l :=
  fun b mem => Std.TransCmp.gt_trans more (above b mem)

theorem Below.of_eq [Std.TransCmp cmp] (same : cmp q k = .eq) (below : Below cmp k l) :
    Below cmp q l :=
  fun b mem => Std.TransCmp.lt_of_eq_of_lt same (below b mem)

theorem Above.of_eq [Std.TransCmp cmp] (same : cmp q k = .eq) (above : Above cmp k l) :
    Above cmp q l :=
  fun b mem => Std.TransCmp.gt_of_eq_of_gt same (above b mem)

/-- What lies left of `k` lies below any bound that `k` does not exceed. -/
theorem lt_of_above [Std.TransCmp cmp] {bound : κ} (above : Above cmp k l)
    (least : cmp k bound ≠ .gt) : ∀ b ∈ l, cmp b.1 bound = .lt := by
  intro b mem
  exact Std.TransCmp.lt_of_lt_of_isLE (Std.OrientedCmp.lt_of_gt (above b mem))
    (Ordering.isLE_iff_ne_gt.mpr least)

/-- What lies right of `k` lies above any bound that `k` reaches. -/
theorem gt_of_below [Std.TransCmp cmp] {bound : κ} (below : Below cmp k l)
    (most : cmp k bound ≠ .lt) : ∀ b ∈ l, cmp b.1 bound = .gt := by
  intro b mem
  exact Std.TransCmp.gt_of_gt_of_isGE (Std.OrientedCmp.gt_of_lt (below b mem))
    (Ordering.isGE_iff_ne_lt.mpr most)

theorem Below.ne [Std.ReflCmp cmp] {b : κ × α} (below : Below cmp q l) (mem : b ∈ l) :
    b.1 ≠ q := by
  intro same
  have less := below b mem
  rw [same] at less
  cases less.symm.trans (@Std.ReflCmp.compare_self _ cmp _ q)

/-! ## What is found -/

@[simp] theorem find?_nil : find? cmp q ([] : List (κ × α)) = none := rfl

theorem find?_cons {b : κ × α} :
    find? cmp q (b :: l) = if cmp q b.1 = .eq then some b.2 else find? cmp q l := rfl

theorem find?_append : find? cmp q (l ++ r) = (find? cmp q l).or (find? cmp q r) := by
  induction l with
  | nil => rfl
  | cons b l ih =>
      simp only [List.cons_append, find?_cons]
      split
      · rfl
      · exact ih

theorem find?_of_below (below : Below cmp q l) : find? cmp q l = none := by
  induction l with
  | nil => rfl
  | cons b l ih =>
      rcases below_cons.mp below with ⟨less, below⟩
      simp [find?_cons, less, ih below]

theorem find?_of_above (above : Above cmp q l) : find? cmp q l = none := by
  induction l with
  | nil => rfl
  | cons b l ih =>
      rcases above_cons.mp above with ⟨more, above⟩
      simp [find?_cons, more, ih above]

/-- Searching a table split at `k`. -/
theorem find?_split [Std.TransCmp cmp] (sorted : Sorted cmp (l ++ (k, v) :: r)) :
    find? cmp q (l ++ (k, v) :: r) =
      match cmp q k with
      | .lt => find? cmp q l
      | .eq => some v
      | .gt => find? cmp q r := by
  rcases sorted_split.mp sorted with ⟨_, _, above, below⟩
  rw [find?_append, find?_cons]
  cases order : cmp q k with
  | lt => simp [find?_of_below (below.of_lt order)]
  | eq => simp [find?_of_above (above.of_eq order)]
  | gt => simp [find?_of_above (above.of_gt order)]

/-- Keys of one order are looked up alike. -/
theorem find?_congr [Std.TransCmp cmp] {q' : κ} (same : cmp q q' = .eq)
    (l : List (κ × α)) : find? cmp q l = find? cmp q' l := by
  induction l with
  | nil => rfl
  | cons b l ih => simp [find?_cons, Std.TransCmp.congr_left same, ih]

/-- A sorted table finds each of its bindings. -/
theorem find?_of_mem [Std.TransCmp cmp] (sorted : Sorted cmp l) {b : κ × α} (mem : b ∈ l) :
    find? cmp b.1 l = some b.2 := by
  obtain ⟨before, after, rfl⟩ := List.append_of_mem mem
  have same : cmp b.1 b.1 = .eq := Std.ReflCmp.compare_self
  rw [find?_split sorted, same]

theorem mem_of_find? {found : α} (h : find? cmp q l = some found) :
    ∃ b ∈ l, cmp q b.1 = .eq ∧ b.2 = found := by
  induction l with
  | nil => simp at h
  | cons b l ih =>
      rw [find?_cons] at h
      split at h
      · rename_i same
        exact ⟨b, List.mem_cons_self, same, Option.some.inj h⟩
      · obtain ⟨b', mem, facts⟩ := ih h
        exact ⟨b', List.mem_cons_of_mem b mem, facts⟩

theorem find?_ne_none {b : κ × α} (mem : b ∈ l) (same : cmp q b.1 = .eq) :
    find? cmp q l ≠ none := by
  induction l with
  | nil => cases mem
  | cons b' l ih =>
      rw [find?_cons]
      split
      · simp
      · rename_i other
        rcases List.mem_cons.mp mem with rfl | mem
        · exact absurd same other
        · exact ih mem

/-- A sorted table has one binding for the keys of one order. -/
theorem eq_of_mem [Std.TransCmp cmp] (sorted : Sorted cmp l) {a b : κ × α} (memA : a ∈ l)
    (memB : b ∈ l) (same : cmp a.1 b.1 = .eq) : a = b := by
  obtain ⟨before, after, rfl⟩ := List.append_of_mem memA
  rcases sorted_split.mp sorted with ⟨_, _, above, below⟩
  rcases List.mem_append.mp memB with left | right
  · simp [above b left] at same
  · rcases List.mem_cons.mp right with itself | right
    · exact itself.symm
    · simp [below b right] at same

/-! ## Inserting -/

theorem insert_cons_of_lt (less : cmp q k = .lt) :
    insert cmp q w ((k, v) :: l) = (q, w) :: (k, v) :: l := by simp [insert, less]

theorem insert_cons_of_eq (same : cmp q k = .eq) :
    insert cmp q w ((k, v) :: l) = (k, w) :: l := by simp [insert, same]

theorem insert_cons_of_gt (more : cmp q k = .gt) :
    insert cmp q w ((k, v) :: l) = (k, v) :: insert cmp q w l := by simp [insert, more]

theorem insert_append_of_lt (less : cmp q k = .lt) :
    insert cmp q w (l ++ (k, v) :: r) = insert cmp q w l ++ (k, v) :: r := by
  induction l with
  | nil => simp [insert, less]
  | cons b l ih =>
      obtain ⟨kb, vb⟩ := b
      cases order : cmp q kb with
      | lt => simp [insert, order]
      | eq => simp [insert, order]
      | gt => simp [insert, order, ih]

theorem insert_append_of_above (above : Above cmp q l) :
    insert cmp q w (l ++ r) = l ++ insert cmp q w r := by
  induction l with
  | nil => rfl
  | cons b l ih =>
      rcases above_cons.mp above with ⟨more, above⟩
      simp [insert_cons_of_gt more, ih above]

/-- Inserting into a table split at `k`. -/
theorem insert_split [Std.TransCmp cmp] (sorted : Sorted cmp (l ++ (k, v) :: r)) :
    insert cmp q w (l ++ (k, v) :: r) =
      match cmp q k with
      | .lt => insert cmp q w l ++ (k, v) :: r
      | .eq => l ++ (k, w) :: r
      | .gt => l ++ (k, v) :: insert cmp q w r := by
  rcases sorted_split.mp sorted with ⟨_, _, above, _⟩
  cases order : cmp q k with
  | lt => exact insert_append_of_lt order
  | eq => rw [insert_append_of_above (above.of_eq order), insert_cons_of_eq order]
  | gt => rw [insert_append_of_above (above.of_gt order), insert_cons_of_gt order]

theorem below_insert (below : Below cmp k l) (less : cmp k q = .lt) :
    Below cmp k (insert cmp q w l) := by
  induction l with
  | nil => simpa [insert] using less
  | cons b l ih =>
      obtain ⟨kb, vb⟩ := b
      rcases below_cons.mp below with ⟨head, rest⟩
      cases order : cmp q kb with
      | lt =>
          rw [insert_cons_of_lt order]
          exact below_cons.mpr ⟨less, below⟩
      | eq =>
          rw [insert_cons_of_eq order]
          exact below_cons.mpr ⟨head, rest⟩
      | gt =>
          rw [insert_cons_of_gt order]
          exact below_cons.mpr ⟨head, ih rest⟩

theorem sorted_insert [Std.TransCmp cmp] (sorted : Sorted cmp l) :
    Sorted cmp (insert cmp q w l) := by
  induction l with
  | nil => simp [insert, Sorted]
  | cons b l ih =>
      obtain ⟨kb, vb⟩ := b
      rcases sorted_cons.mp sorted with ⟨below, rest⟩
      cases order : cmp q kb with
      | lt =>
          rw [insert_cons_of_lt order]
          exact sorted_cons_of_lt order sorted
      | eq =>
          rw [insert_cons_of_eq order]
          exact sorted_cons.mpr ⟨below, rest⟩
      | gt =>
          rw [insert_cons_of_gt order]
          exact sorted_cons.mpr
            ⟨below_insert below (Std.OrientedCmp.lt_of_gt order), ih rest⟩

theorem find?_insert [Std.TransCmp cmp] (q' : κ) (l : List (κ × α)) :
    find? cmp q' (insert cmp q w l) =
      if cmp q' q = .eq then some w else find? cmp q' l := by
  induction l with
  | nil => rfl
  | cons b l ih =>
      obtain ⟨kb, vb⟩ := b
      cases order : cmp q kb with
      | lt => rw [insert_cons_of_lt order, find?_cons]
      | eq =>
          rw [insert_cons_of_eq order, find?_cons, find?_cons,
            Std.TransCmp.congr_right order]
          split <;> rfl
      | gt =>
          rw [insert_cons_of_gt order, find?_cons, find?_cons, ih]
          -- A key cannot equal both `kb` and the larger `q`.
          by_cases same : cmp q' q = .eq
          · simp [same, Std.TransCmp.congr_left same, order]
          · simp [same]

/-- `put` differs from `insert` in the key it leaves, not in what is found. -/
theorem find?_put [Std.TransCmp cmp] (q' : κ) (l : List (κ × α)) :
    find? cmp q' (put cmp q w l) = find? cmp q' (insert cmp q w l) := by
  induction l with
  | nil => rfl
  | cons b l ih =>
      obtain ⟨kb, vb⟩ := b
      cases order : cmp q kb with
      | lt => simp [put, insert, order]
      | eq => simp [put, insert, order, find?_cons, Std.TransCmp.congr_right order]
      | gt => simp [put, insert, order, find?_cons, ih]

/-- A new key is added to the bindings. -/
theorem put_perm [Std.TransCmp cmp] (absent : find? cmp q l = none) :
    (put cmp q w l).Perm (l ++ [(q, w)]) := by
  induction l with
  | nil => exact .refl _
  | cons b l ih =>
      obtain ⟨kb, vb⟩ := b
      rw [find?_cons] at absent
      cases order : cmp q kb with
      | lt => simpa only [put, order] using (List.perm_append_singleton _ _).symm
      | eq => simp [order] at absent
      | gt =>
          simp only [order, reduceCtorEq, if_false] at absent
          simpa only [put, order, List.cons_append] using (ih absent).cons (kb, vb)

theorem below_put (below : Below cmp k l) (less : cmp k q = .lt) :
    Below cmp k (put cmp q w l) := by
  induction l with
  | nil => simpa [put] using less
  | cons b l ih =>
      obtain ⟨kb, vb⟩ := b
      rcases below_cons.mp below with ⟨head, rest⟩
      cases order : cmp q kb with
      | lt => simp [put, order, less, head, rest]
      | eq => simp [put, order, less, rest]
      | gt => simp [put, order, head, ih rest]

theorem sorted_put [Std.TransCmp cmp] (sorted : Sorted cmp l) :
    Sorted cmp (put cmp q w l) := by
  induction l with
  | nil => simp [put, Sorted]
  | cons b l ih =>
      obtain ⟨kb, vb⟩ := b
      rcases sorted_cons.mp sorted with ⟨below, rest⟩
      cases order : cmp q kb with
      | lt => simpa only [put, order] using sorted_cons_of_lt order sorted
      | eq => simpa only [put, order] using sorted_cons.mpr ⟨below.of_eq order, rest⟩
      | gt =>
          simpa only [put, order] using sorted_cons.mpr
            ⟨below_put below (Std.OrientedCmp.lt_of_gt order), ih rest⟩

/-! ## Erasing -/

theorem erase_append : erase cmp q (l ++ r) = erase cmp q l ++ erase cmp q r :=
  List.filter_append ..

theorem erase_of_below (below : Below cmp q l) : erase cmp q l = l :=
  List.filter_eq_self.mpr fun b mem => by simp [below b mem]

theorem erase_of_above (above : Above cmp q l) : erase cmp q l = l :=
  List.filter_eq_self.mpr fun b mem => by simp [above b mem]

theorem erase_of_find?_none (absent : find? cmp q l = none) : erase cmp q l = l := by
  refine List.filter_eq_self.mpr fun b mem => ?_
  induction l with
  | nil => cases mem
  | cons b' l ih =>
      rw [find?_cons] at absent
      split at absent
      · cases absent
      · rename_i other
        rcases List.mem_cons.mp mem with rfl | mem
        · simp [other]
        · exact ih absent mem

/-- Erasing from a table split at `k`. -/
theorem erase_split [Std.TransCmp cmp] (sorted : Sorted cmp (l ++ (k, v) :: r)) :
    erase cmp q (l ++ (k, v) :: r) =
      match cmp q k with
      | .lt => erase cmp q l ++ (k, v) :: r
      | .eq => l ++ r
      | .gt => l ++ (k, v) :: erase cmp q r := by
  rcases sorted_split.mp sorted with ⟨_, _, above, below⟩
  rw [erase_append]
  cases order : cmp q k with
  | lt =>
      have right := erase_of_below (below.of_lt order)
      simp only [erase] at right ⊢
      simp [order, right]
  | eq =>
      have left := erase_of_above (above.of_eq order)
      have right := erase_of_below (below.of_eq order)
      simp only [erase] at left right ⊢
      simp [order, left, right]
  | gt =>
      have left := erase_of_above (above.of_gt order)
      simp only [erase] at left ⊢
      simp [order, left]

theorem sorted_erase (sorted : Sorted cmp l) : Sorted cmp (erase cmp q l) :=
  sorted.sublist List.filter_sublist

theorem find?_erase [Std.TransCmp cmp] (q' : κ) (l : List (κ × α)) :
    find? cmp q' (erase cmp q l) =
      if cmp q' q = .eq then none else find? cmp q' l := by
  induction l with
  | nil => simp [erase]
  | cons b l ih =>
      simp only [erase, List.filter_cons] at ih ⊢
      by_cases gone : cmp q b.1 = .eq
      · simp only [gone, bne_self_eq_false, Bool.false_eq_true, if_false, ih, find?_cons]
        by_cases same : cmp q' q = .eq
        · simp [same]
        · simp [same, ← Std.TransCmp.congr_right gone]
      · simp only [bne_iff_ne, ne_eq, gone, not_false_eq_true, if_true, find?_cons, ih]
        by_cases same : cmp q' q = .eq
        · simp [same, Std.TransCmp.congr_left same, gone]
        · simp [same]

/-! ## Comparing two tables -/

/-- Above the first key of a table, the rest of it is searched. -/
theorem find?_cons_of_gt {b : κ × α} (more : cmp q b.1 = .gt) :
    find? cmp q (b :: l) = find? cmp q l := by
  rw [find?_cons, more]
  rfl

/-- A table all of whose keys are found in another one is not longer. -/
theorem length_le_of_found [Std.TransCmp cmp] {m : List (κ × α)} (sorted : Sorted cmp l)
    (sorted' : Sorted cmp m) (found : ∀ b ∈ l, find? cmp b.1 m ≠ none) :
    l.length ≤ m.length := by
  induction m generalizing l with
  | nil =>
      cases l with
      | nil => exact Nat.le_refl 0
      | cons b l => exact absurd rfl (found b List.mem_cons_self)
  | cons b' m ih =>
      cases l with
      | nil => exact Nat.zero_le _
      | cons b l =>
          rcases sorted_cons.mp sorted with ⟨below, rest⟩
          rcases sorted_cons.mp sorted' with ⟨below', rest'⟩
          cases order : cmp b.1 b'.1 with
          | lt =>
              refine absurd (find?_of_below ?_) (found b List.mem_cons_self)
              exact below_cons.mpr ⟨order, below'.of_lt order⟩
          | eq =>
              refine Nat.succ_le_succ (ih rest rest' fun a mem => ?_)
              rw [← @find?_cons_of_gt _ _ _ _ m b' (Std.OrientedCmp.gt_of_lt
                (Std.TransCmp.lt_of_eq_of_lt (Std.OrientedCmp.eq_symm order) (below a mem)))]
              exact found a (List.mem_cons_of_mem b mem)
          | gt =>
              refine Nat.le_succ_of_le (ih sorted rest' fun a mem => ?_)
              have more : cmp a.1 b'.1 = .gt := by
                rcases List.mem_cons.mp mem with rfl | mem
                · exact order
                · exact Std.TransCmp.gt_trans (Std.OrientedCmp.gt_of_lt (below a mem)) order
              rw [← find?_cons_of_gt more]
              exact found a mem

/-- Two tables of one length, of which one has every binding of the other, agree. -/
theorem find?_eq_of_length [Std.TransCmp cmp] {m : List (κ × α)} (sorted : Sorted cmp l)
    (sorted' : Sorted cmp m) (length : l.length = m.length)
    (found : ∀ b ∈ l, find? cmp b.1 m = some b.2) (q : κ) :
    find? cmp q l = find? cmp q m := by
  induction m generalizing l with
  | nil => rw [List.length_eq_zero_iff.mp length]
  | cons b' m ih =>
      cases l with
      | nil => simp at length
      | cons b l =>
          rcases sorted_cons.mp sorted with ⟨below, rest⟩
          rcases sorted_cons.mp sorted' with ⟨below', rest'⟩
          have head := found b List.mem_cons_self
          cases order : cmp b.1 b'.1 with
          | lt =>
              have absent : find? cmp b.1 (b' :: m) = none :=
                find?_of_below (below_cons.mpr ⟨order, below'.of_lt order⟩)
              simp [absent] at head
          | eq =>
              have rest_found : ∀ a ∈ l, find? cmp a.1 m = some a.2 := by
                intro a mem
                rw [← @find?_cons_of_gt _ _ _ _ m b' (Std.OrientedCmp.gt_of_lt
                  (Std.TransCmp.lt_of_eq_of_lt (Std.OrientedCmp.eq_symm order)
                    (below a mem)))]
                exact found a (List.mem_cons_of_mem b mem)
              rw [find?_cons, if_pos order] at head
              rw [find?_cons, find?_cons, head, Std.TransCmp.congr_right order,
                ih rest rest' (Nat.succ.inj length) rest_found]
          | gt =>
              -- Then every key of `l` would have to be found among fewer.
              have fewer : (b :: l).length ≤ m.length := by
                refine length_le_of_found sorted rest' fun a mem => ?_
                have more : cmp a.1 b'.1 = .gt := by
                  rcases List.mem_cons.mp mem with rfl | mem
                  · exact order
                  · exact Std.TransCmp.gt_trans (Std.OrientedCmp.gt_of_lt (below a mem)) order
                rw [← find?_cons_of_gt more, found a mem]
                simp
              rw [length, List.length_cons] at fewer
              omega

/-! ## Keys that are told apart -/

theorem put_eq_insert [Std.LawfulEqCmp cmp] (l : List (κ × α)) :
    put cmp q w l = insert cmp q w l := by
  induction l with
  | nil => rfl
  | cons b l ih =>
      obtain ⟨kb, vb⟩ := b
      cases order : cmp q kb with
      | lt => simp [put, insert, order]
      | eq =>
          obtain rfl := Std.LawfulEqCmp.eq_of_compare order
          simp only [put, insert, order]
      | gt => simp [put, insert, order, ih]

theorem find?_eq_some_iff [Std.TransCmp cmp] [Std.LawfulEqCmp cmp] (sorted : Sorted cmp l) :
    find? cmp q l = some v ↔ (q, v) ∈ l := by
  constructor
  · intro found
    obtain ⟨b, mem, same, rfl⟩ := mem_of_find? found
    rw [Std.LawfulEqCmp.eq_of_compare same]
    exact mem
  · exact find?_of_mem sorted

theorem find?_put_self [Std.TransCmp cmp] : find? cmp q (put cmp q w l) = some w := by
  rw [find?_put, find?_insert, if_pos Std.ReflCmp.compare_self]

theorem find?_put_of_ne [Std.TransCmp cmp] [Std.LawfulEqCmp cmp] (ne : k ≠ q) :
    find? cmp k (put cmp q w l) = find? cmp k l := by
  rw [find?_put, find?_insert, if_neg fun same => ne (Std.LawfulEqCmp.eq_of_compare same)]

theorem find?_erase_self [Std.TransCmp cmp] : find? cmp q (erase cmp q l) = none := by
  rw [find?_erase, if_pos Std.ReflCmp.compare_self]

theorem find?_erase_of_ne [Std.TransCmp cmp] [Std.LawfulEqCmp cmp] (ne : k ≠ q) :
    find? cmp k (erase cmp q l) = find? cmp k l := by
  rw [find?_erase, if_neg fun same => ne (Std.LawfulEqCmp.eq_of_compare same)]

theorem mem_put {b : κ × α} (mem : b ∈ put cmp q w l) : b = (q, w) ∨ b ∈ l := by
  induction l with
  | nil => exact .inl (List.mem_singleton.mp mem)
  | cons b' l ih =>
      obtain ⟨kb, vb⟩ := b'
      cases order : cmp q kb <;> simp only [put, order, List.mem_cons] at mem ⊢
      · exact mem
      · rcases mem with new | old
        · exact .inl new
        · exact .inr (.inr old)
      · rcases mem with head | rest
        · exact .inr (.inl head)
        · exact (ih rest).imp_right .inr

theorem put_ne_nil : put cmp q w l ≠ [] := by
  cases l with
  | nil => simp [put]
  | cons b l => cases order : cmp q b.1 <;> simp [put, order]

/-- A table is determined by what is found in it. -/
theorem ext [Std.TransCmp cmp] [Std.LawfulEqCmp cmp] {m : List (κ × α)}
    (sorted : Sorted cmp l) (sorted' : Sorted cmp m)
    (same : ∀ q, find? cmp q l = find? cmp q m) : l = m := by
  have distinct {t : List (κ × α)} (sorted : Sorted cmp t) : t.Nodup := by
    refine sorted.imp fun {a b} less => ?_
    rintro rfl
    cases less.symm.trans (@Std.ReflCmp.compare_self _ cmp _ a.1)
  have perm : l.Perm m := by
    refine (List.perm_ext_iff_of_nodup (distinct sorted) (distinct sorted')).mpr fun b => ?_
    rw [← find?_eq_some_iff sorted, ← find?_eq_some_iff sorted', same]
  refine perm.eq_of_pairwise (fun a b _ _ less more => ?_) sorted sorted'
  rw [Std.OrientedCmp.gt_of_lt more] at less
  cases less

end Table

end GAMember
