import ProgressRules.Consistency.Clause

/-! Boxes, which give each unknown a finite list of values that are left for it. At first
these are samples: literals cannot tell any rational from all of them. -/

namespace ProgressRules

/-- A point to the right of each value, between it and the next one or beyond the last. -/
def pointsAfter : List Rat → List Rat
  | [] => []
  | [x] => [x + 1]
  | x :: y :: values => (x + y) / 2 :: pointsAfter (y :: values)

def nearerZero (x y : Rat) : Bool := x * x ≤ y * y

/-- Zero, the values, and a point of each part into which they divide the line. What is near
zero comes first. -/
def samples (values : List Rat) : List Rat :=
  let ascending := values.eraseDups.mergeSort
  let points := (ascending.head?.map (· - 1)).toList ++ ascending ++ pointsAfter ascending
  (0 :: points).mergeSort nearerZero

abbrev Box := Array (List Rat)

namespace Box

def values (box : Box) (unknown : Nat) : List Rat := box[unknown]?.getD []

def value (box : Box) (unknown : Nat) : Rat := (box.values unknown).headD 0

def ofClauses (size : Nat) (clauses : List Clause) : Box :=
  ((List.range size).map fun unknown =>
    samples ((clauses.flatten.filter (·.unknown == unknown)).map Literal.value)).toArray

def allows (box : Box) (l : Literal) : Bool := (box.values l.unknown).any l.admits

def implies (box : Box) (l : Literal) : Bool := (box.values l.unknown).all l.admits

def splits (box : Box) (l : Literal) : Bool :=
  (box.values l.unknown).any l.admits && (box.values l.unknown).any (!l.admits ·)

def assume (box : Box) (l : Literal) : Box := box.modify l.unknown (·.filter l.admits)

def exclude (box : Box) (l : Literal) : Box := box.modify l.unknown (·.filter (!l.admits ·))

/-- Assumes a literal unless that would change nothing or leave no point. -/
def force (box : Box) (l : Literal) : Box := if box.splits l then box.assume l else box

def size (box : Box) : Nat := box.toList.flatten.length

theorem length_flatten_modify_lt {f : List Rat → List Rat} {box : List (List Rat)} {i : Nat}
    {vs : List Rat} (found : box[i]? = some vs) (h : (f vs).length < vs.length) :
    (box.modify i f).flatten.length < box.flatten.length := by
  induction box generalizing i with
  | nil => simp at found
  | cons ws box ih =>
    cases i with
    | zero =>
      obtain rfl : ws = vs := by simpa using found
      simp only [List.modify_zero_cons, List.flatten_cons, List.length_append]
      exact Nat.add_lt_add_right h _
    | succ i =>
      simp only [List.modify_succ_cons, List.flatten_cons, List.length_append]
      exact Nat.add_lt_add_left (ih (by simpa using found)) _

theorem size_modify_filter_lt {box : Box} {i : Nat} {p : Rat → Bool} {x : Rat}
    (mem : x ∈ box.values i) (h : p x = false) :
    size (box.modify i (·.filter p)) < box.size := by
  unfold values at mem
  match found : box[i]? with
  | none => simp [found] at mem
  | some vs =>
    rw [found] at mem
    unfold size
    rw [Array.toList_modify]
    have found' : box.toList[i]? = some vs := by simpa using found
    refine length_flatten_modify_lt found' ?_
    exact List.length_filter_lt_length_iff_exists.2 ⟨x, mem, by simp [h]⟩

theorem size_assume_lt {box : Box} {l : Literal} (h : box.splits l = true) :
    (box.assume l).size < box.size := by
  simp only [splits, Bool.and_eq_true, List.any_eq_true] at h
  obtain ⟨-, x, mem, hx⟩ := h
  exact size_modify_filter_lt mem (by simpa using hx)

theorem size_exclude_lt {box : Box} {l : Literal} (h : box.splits l = true) :
    (box.exclude l).size < box.size := by
  simp only [splits, Bool.and_eq_true, List.any_eq_true] at h
  obtain ⟨⟨x, mem, hx⟩, -⟩ := h
  exact size_modify_filter_lt mem (by simp [hx])

theorem size_force_le (box : Box) (l : Literal) : (box.force l).size ≤ box.size := by
  unfold force
  split
  · exact Nat.le_of_lt (size_assume_lt ‹_›)
  · exact Nat.le_refl _

theorem size_foldl_force_le (box : Box) (ls : List Literal) :
    (ls.foldl force box).size ≤ box.size := by
  induction ls generalizing box with
  | nil => exact Nat.le_refl _
  | cons l ls ih => exact Nat.le_trans (ih _) (size_force_le box l)

theorem size_foldl_force_lt {box : Box} {l : Literal} (h : box.splits l = true)
    (ls : List Literal) : ((l :: ls).foldl force box).size < box.size := by
  refine Nat.lt_of_le_of_lt (size_foldl_force_le _ ls) ?_
  simpa [force, h] using size_assume_lt h

end Box

end ProgressRules
