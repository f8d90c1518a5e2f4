import ProgressRules.Proofs.Binary64.Decimals
import ProgressRules.Proofs.Document.Numbers

/-! Plain texts of numbers. They are numerals that are read back as the numbers they were written
for, and those of integers are the digits of the integers. -/

namespace ProgressRules

open Text (IsRun)

/-! ### Parts of numerals -/

namespace Json

theorem IsWhole.isRun {text : Text} (h : IsWhole text) : IsRun Char.isDigit text := by
  cases h with
  | zero => exact ⟨List.cons_ne_nil _ _, List.forall_mem_singleton.2 rfl⟩
  | digits first other others =>
    exact ⟨List.cons_ne_nil _ _, List.forall_mem_cons.2 ⟨first, others⟩⟩

namespace Written

def decimal (negative : Bool) (w : Written) : Decimal :=
  ⟨negative, w.whole, w.fraction, w.exponentValue?.getD 0⟩

variable {w : Written}

theorem WellFormed.isWritten (h : w.WellFormed) (negative : Bool) :
    (w.decimal negative).IsWritten (Binary64.signed negative w.text) := by
  have sign : Decimal.IsSign negative (if negative then ['-'] else []) := by
    cases negative
    · exact .none
    · exact .minus
  have fraction : Decimal.IsFraction w.fraction w.fractionText := by
    unfold fractionText
    split
    · rename_i none
      rw [none]
      exact .none
    · exact .some ⟨‹_›, h.fraction⟩
  have exponent : Decimal.IsExponent (w.exponentValue?.getD 0) w.exponentText := by
    unfold exponentValue? exponentText
    split
    · rename_i none
      rw [none]
      exact .none
    · rename_i mark digits some
      obtain ⟨member, run⟩ := h.exponent _ some
      rw [some]
      simp only [List.mem_cons, List.not_mem_nil, or_false] at member
      rcases member with rfl | rfl
      · exact .some (by decide) .plus run
      · exact .some (by decide) .minus run
  have text : Binary64.signed negative w.text =
      (if negative then ['-'] else []) ++ (w.whole ++ (w.fractionText ++ w.exponentText)) := by
    cases negative <;> simp [Binary64.signed, Written.text]
  rw [text]
  exact .parts sign h.whole.isRun fraction exponent

end Written

end Json

namespace Binary64

variable {negative : Bool} {m : Magnitude}

/-! ### Plain texts -/

theorem roundUnits_floor (whole : m.isInteger = true) :
    roundUnits (m.floor * unitsPerOne) 1 = m.units := by
  have exact : m.floor * unitsPerOne = m.units :=
    Nat.div_mul_cancel (Nat.dvd_of_mod_eq_zero (by simpa [Magnitude.isInteger] using whole))
  rw [exact, m.roundUnits_units]

theorem nearest_ofNat (negative : Bool) {n : Nat}
    (units : roundUnits (n * unitsPerOne) 1 = m.units) :
    ((Json.Written.ofNat n).decimal negative).nearest = finite negative m := by
  have digits : ((Json.Written.ofNat n).decimal negative).digits = n :=
    (congrArg Text.natValue (List.append_nil _)).trans (Text.natValue_ofNat n)
  have scale : ((Json.Written.ofNat n).decimal negative).scale = 0 := rfl
  rw [Decimal.nearest, digits, scale, ofDecimal_eq_ofRatio]
  apply ofRatio_eq
  simpa only [Int.neg_zero, Int.toNat_zero, Nat.pow_eq, Nat.pow_zero, Nat.mul_one] using units

theorem nearest_ofMagnitude (negative : Bool) (m : Magnitude) :
    ((Json.Written.ofMagnitude m).decimal negative).nearest = finite negative m :=
  Json.Written.ofDecimal_ofMagnitude m negative

/-- A plain text is a numeral, and the number nearest to its value is the one that was written. -/
theorem exists_decimal (negative : Bool) (m : Magnitude) :
    ∃ d : Decimal, d.IsWritten (finite negative m).plainText ∧
      (finite negative m).SameNumber d.nearest := by
  rw [plainText]
  split
  · rename_i zero
    refine ⟨_, (Json.Written.ofNat_wellFormed 0).isWritten false, ?_⟩
    rw [nearest_ofNat false (by rw [Nat.zero_mul, roundUnits_zero, zero])]
    exact ⟨rfl, .inl zero⟩
  · split
    · rename_i whole
      have written := (Json.Written.ofNat_wellFormed m.floor).isWritten negative
      rw [Json.Written.text_ofNat] at written
      refine ⟨_, written, ?_⟩
      rw [nearest_ofNat negative (roundUnits_floor whole)]
      exact ⟨rfl, .inr rfl⟩
    · have written := (Json.Written.ofMagnitude_wellFormed m).isWritten negative
      rw [Json.Written.text_ofMagnitude] at written
      refine ⟨_, written, ?_⟩
      rw [nearest_ofMagnitude]
      exact ⟨rfl, .inr rfl⟩

theorem mem_signed_ofNat {n : Nat} {c : Char} (inside : c ∈ signed negative (Text.ofNat n)) :
    c = '-' ∨ c.isDigit = true := by
  cases negative with
  | false => exact .inr (Text.isDigit_of_mem_ofNat inside)
  | true => exact (List.mem_cons.1 inside).imp_right Text.isDigit_of_mem_ofNat

theorem plainText_of_integer {z : Int} (value : (finite negative m).value? = some (z : Rat)) :
    (finite negative m).plainText = signed (z < 0) (Text.ofNat z.natAbs) := by
  have same := Option.some.inj value
  rw [← withSign_natAbs] at same
  obtain ⟨magnitude, sign⟩ := withSign_inj m.value_nonneg (Nat.cast_nonneg _) same
  have units := Magnitude.value_eq_natCast_iff.1 magnitude
  have whole : m.isInteger = true := by simp [Magnitude.isInteger, units]
  have floor : m.floor = z.natAbs := by
    rw [Magnitude.floor, units, Nat.mul_div_cancel _ unitsPerOne_pos]
  by_cases zero : m.units = 0
  · have none : z = 0 := by
      rw [zero, eq_comm, Nat.mul_eq_zero, or_iff_left unitsPerOne_pos.ne'] at units
      exact Int.natAbs_eq_zero.1 units
    rw [plainText, if_pos zero, none]
    rfl
  · rw [plainText, if_neg zero, if_pos whole, floor,
      sign.resolve_left (mt Magnitude.value_eq_zero_iff.1 zero)]

end Binary64

/-! ### Reading back -/

/-- The text is a numeral of one exact value. This value is rounded to `x` and to no other number,
and it is what the reader of literals makes of the text. The sign of a zero does not count. -/
structure ReadsBack (text : Text) (x : Binary64) : Prop where
  rounded : ∃ q, (∀ q', Denotes text q' ↔ q' = q) ∧ ∀ y : Binary64, y.Rounds q ↔ y.SameNumber x
  read : ∃ y, Binary64.read? text = some y ∧ y.SameNumber x

theorem Binary64.readsBack_plainText (negative : Bool) (m : Magnitude) :
    ReadsBack (finite negative m).plainText (finite negative m) := by
  obtain ⟨d, written, same⟩ := exists_decimal negative m
  have rounds := d.rounds_nearest
  have back := rounds.of_sameNumber same
  exact ⟨⟨d.value, fun _ => written.denotes_iff, fun _ => back.iff⟩,
    d.nearest, written.read?, rounds.sameNumber back⟩

end ProgressRules
