import Mathlib.Tactic.Ring
import ProgressRules.Text.Scan

/-! Decimal digits and the numbers they write. -/

namespace ProgressRules

namespace Text

/-! ### Digits -/

theorem ofNat_ne_nil (n : Nat) : ofNat n ≠ [] := Nat.toDigits_ne_nil

theorem isDigit_of_mem_ofNat {n : Nat} {c : Char} (member : c ∈ ofNat n) : c.isDigit = true :=
  Nat.isDigit_of_mem_toDigits (by decide) (by decide) member

theorem isDigit_of_mem_zeros {n : Nat} {c : Char} (member : c ∈ List.replicate n '0') :
    c.isDigit = true := by
  rw [List.eq_of_mem_replicate member]
  rfl

theorem toNat_of_isDigit {c : Char} (digit : c.isDigit = true) : 48 ≤ c.toNat ∧ c.toNat ≤ 57 := by
  simpa [Char.isDigit, UInt32.le_iff_toNat_le] using digit

/-! ### Lengths -/

theorem lt_ten_pow_digits (n : Nat) : n < 10 ^ (ofNat n).length := by
  have some : 0 < (ofNat n).length := List.length_pos_iff.2 (ofNat_ne_nil n)
  exact (Nat.length_toDigits_le_iff (by decide) some).1 (Nat.le_refl _)

theorem ten_pow_digits_le {n : Nat} (positive : 0 < n) : 10 ^ (ofNat n).length ≤ 10 * n := by
  obtain ⟨more, same⟩ : ∃ more, (ofNat n).length = more + 1 :=
    Nat.exists_eq_succ_of_ne_zero (Nat.ne_of_gt (List.length_pos_iff.2 (ofNat_ne_nil n)))
  rw [same, Nat.pow_succ']
  apply Nat.mul_le_mul_left
  rcases Nat.eq_zero_or_pos more with zero | some
  · rw [zero]
    exact positive
  · apply Nat.le_of_not_lt
    intro less
    have short : (ofNat n).length ≤ more := (Nat.length_toDigits_le_iff (by decide) some).2 less
    omega

theorem digits_le {n f : Nat} (le : n ≤ 10 ^ f) : (ofNat n).length ≤ f + 1 :=
  (Nat.length_toDigits_le_iff (by decide) (Nat.succ_pos f)).2
    (Nat.lt_of_le_of_lt le (Nat.pow_lt_pow_right (by decide) (Nat.lt_succ_self f)))

/-! ### Values -/

theorem digitValue?_lt {c : Char} {d : Nat} (h : digitValue? c = some d) : d < 10 := by
  unfold digitValue? at h
  split at h
  · split at h
    · rename_i digit
      have code := toNat_of_isDigit digit
      have place : c.toNat - 48 = d := Option.some.inj h
      omega
    · cases h
  · obtain ⟨first, found, rfl⟩ := Option.map_eq_some_iff.1 h
    have range := List.find?_some found
    simp only [Bool.and_eq_true, decide_eq_true_eq] at range
    omega

theorem digitValue?_of_isDigit {c : Char} (digit : c.isDigit = true) :
    digitValue? c = some (c.toNat - 48) := by
  have code := toNat_of_isDigit digit
  rw [digitValue?, if_pos (by omega), if_pos digit]

theorem isDigit_of_ascii {c : Char} (digit : c.isDigit = true) : isDigit c = true := by
  rw [isDigit, digitValue?_of_isDigit digit]
  rfl

theorem foldl_digits_lt (ds : List Nat) (digits : ∀ d ∈ ds, d < 10) (n : Nat) :
    ds.foldl (fun n d => 10 * n + d) n < (n + 1) * 10 ^ ds.length := by
  induction ds generalizing n with
  | nil => simp
  | cons d ds ih =>
    have rest := ih (fun d inside => digits d (List.mem_cons_of_mem _ inside)) (10 * n + d)
    have digit := digits d List.mem_cons_self
    calc (d :: ds).foldl (fun n d => 10 * n + d) n < (10 * n + d + 1) * 10 ^ ds.length := rest
      _ ≤ ((n + 1) * 10) * 10 ^ ds.length := Nat.mul_le_mul_right _ (by omega)
      _ = (n + 1) * 10 ^ (d :: ds).length := by
        rw [List.length_cons]
        ring

theorem natValue_lt (text : Text) : natValue text < 10 ^ text.length := by
  have digits : ∀ d ∈ text.filterMap digitValue?, d < 10 := by
    intro d inside
    obtain ⟨c, -, value⟩ := List.mem_filterMap.1 inside
    exact digitValue?_lt value
  calc natValue text < (0 + 1) * 10 ^ (text.filterMap digitValue?).length :=
        foldl_digits_lt _ digits 0
    _ ≤ 10 ^ text.length := by
      rw [Nat.zero_add, Nat.one_mul]
      exact Nat.pow_le_pow_right (by decide) (List.length_filterMap_le _ _)

theorem natValue_ofNat (n : Nat) : natValue (ofNat n) = n := by
  have values : ∀ text : Text, (∀ c ∈ text, c.isDigit = true) → ∀ m,
      (text.filterMap digitValue?).foldl (fun n d => 10 * n + d) m = Nat.ofDigitChars 10 text m := by
    intro text
    induction text with
    | nil => exact fun _ _ => rfl
    | cons c text ih =>
      intro digits m
      have value := digitValue?_of_isDigit (digits c List.mem_cons_self)
      rw [List.filterMap_cons_some value, List.foldl_cons, Nat.ofDigitChars_cons]
      exact ih (fun c inside => digits c (List.mem_cons_of_mem _ inside)) _
  have digits : ∀ c ∈ ofNat n, c.isDigit = true := fun c => isDigit_of_mem_ofNat
  exact (values _ digits 0).trans (Nat.ofDigitChars_toDigits (by decide) (by decide))

theorem foldl_digits (ds : List Nat) (n : Nat) :
    ds.foldl (fun n d => 10 * n + d) n =
      n * 10 ^ ds.length + ds.foldl (fun n d => 10 * n + d) 0 := by
  induction ds generalizing n with
  | nil => simp
  | cons d ds ih =>
    rw [List.foldl_cons, ih, List.foldl_cons, ih (10 * 0 + d), List.length_cons]
    ring

theorem natValue_append (text : Text) {digits : Text} (h : ∀ d ∈ digits, d.isDigit = true) :
    natValue (text ++ digits) = natValue text * 10 ^ digits.length + natValue digits := by
  have values : (digits.filterMap digitValue?).length = digits.length := by
    induction digits with
    | nil => rfl
    | cons d digits ih =>
      obtain ⟨first, others⟩ := List.forall_mem_cons.1 h
      rw [List.filterMap_cons_some (digitValue?_of_isDigit first), List.length_cons, ih others,
        List.length_cons]
  unfold natValue
  rw [List.filterMap_append, List.foldl_append, foldl_digits, values]

theorem natValue_zeros (n : Nat) : natValue (List.replicate n '0') = 0 := by
  induction n with
  | zero => rfl
  | succ n ih => exact ih

theorem exists_ofNat_eq_cons {n : Nat} (positive : 0 < n) :
    ∃ c rest, ofNat n = c :: rest ∧ c.isDigit = true ∧ c ≠ '0' ∧ ∀ d ∈ rest, d.isDigit = true := by
  obtain ⟨c, rest, same⟩ := List.exists_cons_of_ne_nil (ofNat_ne_nil n)
  have all : ∀ d ∈ ofNat n, d.isDigit = true := fun d => isDigit_of_mem_ofNat
  rw [same, List.forall_mem_cons] at all
  refine ⟨c, rest, same, all.1, ?_, all.2⟩
  rintro rfl
  have value : natValue rest = n := by
    have whole := natValue_ofNat n
    rw [same] at whole
    exact whole
  have below := natValue_lt rest
  have above := ten_pow_digits_le positive
  rw [same, List.length_cons, Nat.pow_succ] at above
  omega

end Text

end ProgressRules
